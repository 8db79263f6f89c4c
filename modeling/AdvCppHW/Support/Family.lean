import AdvCppHW.Support.Transition
import Mathlib.Logic.Function.Basic
import Mathlib.Data.List.Basic

/-!
# Families of systems that have nothing to do with one another

A family holds a system under each index, or none.  What happens to it is a list of
`FamilyAct`, each about one index: a system begins, takes an action, or ends.  A member only
ever sees what is about its own index, so any interleaving of the others is the same to it
(`run_apply`, `outputs_of`).

* `Traced` — a run of a transition system with what is seen of its steps.
* `FamilyAct.run`, `FamilyAct.outputs` — a family and what it puts out; `member`,
  `memberOutputs` — one system alone.
* `Traced.family` — a system whose steps are seen as actions of a family shows the
  members as they would be alone.
* `Spread` — one family whose members are in several places; `Spread.acted` — what happens in one
  place to members that are nowhere else happens to the family.
-/

namespace AdvCppHW
namespace Support

universe u v w

/-! ## What is seen of a run -/

section Traced

variable {σ : Type u} {α : Type v} {β : Type w}

/-- A run of admitted steps, and what is seen of them. -/
inductive Traced (step : σ → α → σ → Prop) (admitted : σ → α → Prop) (see : σ → α → List β)
    (s : σ) :
    List β → σ → Prop
  | refl : Traced step admitted see s [] s
  | tail {bs : List β} {t t' : σ} (h : Traced step admitted see s bs t) (a : α)
    (hadmitted : admitted t a) (hstep : step t a t') : Traced step admitted see s (bs ++ see t a) t'

variable {step : σ → α → σ → Prop} {admitted : σ → α → Prop} {see : σ → α → List β} {s : σ}

/-- A step of which nothing is seen. -/
theorem Traced.unseen {bs : List β} {t t' : σ} (h : Traced step admitted see s bs t) (a : α)
    (hadmitted : admitted t a) (hstep : step t a t') (hsee : see t a = []) :
    Traced step admitted see s bs t' := by
  have hlast := h.tail a hadmitted hstep
  rwa [hsee, List.append_nil] at hlast

end Traced

/-! ## Families -/

/-- What happens in a family: systems of type `σ` under indices of type `ι`,
with actions of type `α`. -/
inductive FamilyAct (ι : Type u) (σ : Type v) (α : Type w) where
  | began (i : ι) (s : σ)
  | acted (i : ι) (a : α)
  | ended (i : ι)

namespace FamilyAct

variable {ι : Type u} {σ : Type v} {α : Type w} {ω : Type*}

def index : FamilyAct ι σ α → ι
  | began i _ | acted i _ | ended i => i

/-- What an action does to the system that it is about; `next` is `none` when a system
ends by its own action. -/
def onMember (next : σ → α → Option σ) (m : Option σ) : FamilyAct ι σ α → Option σ
  | began _ s => some s
  | acted _ a => m.bind (next · a)
  | ended _ => none

/-- What the system puts out. -/
def putOut (out : σ → α → List ω) (m : Option σ) : FamilyAct ι σ α → List ω
  | acted _ a => m.elim [] (out · a)
  | began _ _ | ended _ => []

/-- A system that only sees actions about itself. -/
def member (next : σ → α → Option σ) (m : Option σ) (acts : List (FamilyAct ι σ α)) : Option σ :=
  acts.foldl (onMember next) m

def memberOutputs (next : σ → α → Option σ) (out : σ → α → List ω) (m : Option σ) :
    List (FamilyAct ι σ α) → List ω
  | [] => []
  | act :: acts => putOut out m act ++ memberOutputs next out (onMember next m act) acts

theorem member_append {next : σ → α → Option σ} (m : Option σ)
    (acts acts' : List (FamilyAct ι σ α)) :
    member next m (acts ++ acts') = member next (member next m acts) acts' :=
  List.foldl_append

theorem memberOutputs_append {next : σ → α → Option σ} {out : σ → α → List ω} (m : Option σ)
    (acts acts' : List (FamilyAct ι σ α)) :
    memberOutputs next out m (acts ++ acts') =
      memberOutputs next out m acts ++ memberOutputs next out (member next m acts) acts' := by
  induction acts generalizing m with
  | nil => rfl
  | cons act acts ih =>
      rw [List.cons_append, memberOutputs, memberOutputs, ih, List.append_assoc]
      rfl

section Run

variable [DecidableEq ι] (next : σ → α → Option σ) (out : σ → α → List ω)

def apply (f : ι → Option σ) (act : FamilyAct ι σ α) : ι → Option σ :=
  Function.update f act.index (act.onMember next (f act.index))

def run (f : ι → Option σ) (acts : List (FamilyAct ι σ α)) : ι → Option σ :=
  acts.foldl (apply next) f

/-- What the family puts out, with the index of the system that does. -/
def outputs (f : ι → Option σ) : List (FamilyAct ι σ α) → List (ι × ω)
  | [] => []
  | act :: acts =>
      (act.putOut out (f act.index)).map (Prod.mk act.index) ++ outputs (act.apply next f) acts

/-- What is about one index. -/
def about (i : ι) (acts : List (FamilyAct ι σ α)) : List (FamilyAct ι σ α) :=
  acts.filter fun act => act.index = i

variable {next out}

theorem about_cons_self (act : FamilyAct ι σ α) (acts : List (FamilyAct ι σ α)) :
    about act.index (act :: acts) = act :: about act.index acts :=
  List.filter_cons_of_pos (by simp)

theorem about_cons_ne {i : ι} {act : FamilyAct ι σ α} (h : i ≠ act.index)
    (acts : List (FamilyAct ι σ α)) : about i (act :: acts) = about i acts :=
  List.filter_cons_of_neg (by simpa using h.symm)

theorem apply_index (f : ι → Option σ) (act : FamilyAct ι σ α) :
    act.apply next f act.index = act.onMember next (f act.index) :=
  Function.update_self _ _ _

theorem apply_ne (f : ι → Option σ) {act : FamilyAct ι σ α} {i : ι} (h : i ≠ act.index) :
    act.apply next f i = f i :=
  Function.update_of_ne h _ _

theorem run_append (f : ι → Option σ) (acts acts' : List (FamilyAct ι σ α)) :
    run next f (acts ++ acts') = run next (run next f acts) acts' :=
  List.foldl_append

theorem run_cons (f : ι → Option σ) (act : FamilyAct ι σ α) (acts : List (FamilyAct ι σ α)) :
    run next f (act :: acts) = run next (act.apply next f) acts :=
  rfl

/-- A member of a family is as if it were alone. -/
theorem run_apply (f : ι → Option σ) (acts : List (FamilyAct ι σ α)) (i : ι) :
    run next f acts i = member next (f i) (about i acts) := by
  induction acts generalizing f with
  | nil => rfl
  | cons act acts ih =>
      rw [run_cons, ih]
      by_cases hi : i = act.index
      · subst hi
        rw [apply_index, about_cons_self]
        rfl
      · rw [apply_ne f hi, about_cons_ne hi]

/-- So is what it puts out. -/
theorem outputs_of (f : ι → Option σ) (acts : List (FamilyAct ι σ α)) (i : ι) :
    ((outputs next out f acts).filter fun o => o.1 = i).map Prod.snd =
      memberOutputs next out (f i) (about i acts) := by
  induction acts generalizing f with
  | nil => rfl
  | cons act acts ih =>
      rw [outputs, List.filter_append, List.map_append, ih]
      by_cases hi : i = act.index
      · subst hi
        rw [apply_index, about_cons_self, memberOutputs]
        congr 1
        rw [List.filter_eq_self.mpr (by simp), List.map_map]
        exact List.map_id _
      · rw [apply_ne f hi, about_cons_ne hi,
          List.filter_eq_nil_iff.mpr (by simpa using fun _ _ => Ne.symm hi)]
        rfl

theorem outputs_append (f : ι → Option σ) (acts acts' : List (FamilyAct ι σ α)) :
    outputs next out f (acts ++ acts') =
      outputs next out f acts ++ outputs next out (run next f acts) acts' := by
  induction acts generalizing f with
  | nil => rfl
  | cons act acts ih => rw [List.cons_append, outputs, outputs, ih, List.append_assoc, run_cons]

end Run
end FamilyAct

/-! ## One family in several places -/

/-- The members of `f` are spread over places: what a place has under an index is the member under
it, and every member is in some place. -/
structure Spread {κ : Type*} {ι : Type u} {σ : Type v} (places : κ → ι → Option σ)
    (f : ι → Option σ) : Prop where
  shown : ∀ k i s, places k i = some s → f i = some s
  nowhere : ∀ i, (∀ k, places k i = none) → f i = none

section Spread

open FamilyAct

variable {κ : Type*} {ι : Type u} {σ : Type v} {α : Type w} {ω : Type*}
  {places places' : κ → ι → Option σ}
  {f g : ι → Option σ} {next : σ → α → Option σ} {out : σ → α → List ω}
  {acts : List (FamilyAct ι σ α)}

theorem Spread.eq_place (h : Spread places f) {k : κ} {i : ι}
    (hothers : ∀ j, j ≠ k → places j i = none) : f i = places k i := by
  cases hk : places k i with
  | some s => exact h.shown k i s hk
  | none =>
      refine h.nowhere i fun j => ?_
      by_cases hj : j = k
      · rw [hj, hk]
      · exact hothers j hj

variable [DecidableEq ι]

/-- Nothing happens to a member that no action is about. -/
theorem run_of_not_about {i : ι} (h : ∀ act ∈ acts, act.index ≠ i) : run next f acts i = f i := by
  rw [run_apply, about, List.filter_eq_nil_iff.mpr fun act hact => by simpa using h act hact]
  rfl

theorem run_congr_at {i : ι} (h : f i = g i) : run next f acts i = run next g acts i := by
  rw [run_apply, run_apply, h]

/-- What is put out depends only on the members that something happens to. -/
theorem outputs_congr (h : ∀ act ∈ acts, f act.index = g act.index) :
    outputs next out f acts = outputs next out g acts := by
  induction acts generalizing f g with
  | nil => rfl
  | cons act acts ih =>
      have hact := h act List.mem_cons_self
      rw [outputs, outputs, hact]
      congr 1
      refine ih fun act' hmem => ?_
      by_cases hi : act'.index = act.index
      · rw [hi, apply_index, apply_index, hact]
      · rw [apply_ne f hi, apply_ne g hi]
        exact h act' (List.mem_cons_of_mem act hmem)

/-- What happens in one place, to members that are in no other one, happens to the family. -/
theorem Spread.acted (h : Spread places f) {k : κ} (hself : places' k = run next (places k) acts)
    (hothers : ∀ j, j ≠ k → places' j = places j)
    (hown : ∀ act ∈ acts, ∀ j, j ≠ k → places j act.index = none) :
    Spread places' (run next f acts) ∧
      outputs next out (places k) acts = outputs next out f acts := by
  have hsame : ∀ act ∈ acts, f act.index = places k act.index :=
    fun act hact => h.eq_place (hown act hact)
  refine ⟨⟨fun j i s hj => ?_, fun i hnone => ?_⟩, outputs_congr fun act hact =>
    (hsame act hact).symm⟩
  · by_cases habout : ∃ act ∈ acts, act.index = i
    · obtain ⟨act, hact, rfl⟩ := habout
      by_cases hjk : j = k
      · subst hjk
        rwa [run_congr_at (hsame act hact), ← hself]
      · rw [hothers j hjk, hown act hact j hjk] at hj
        cases hj
    · have hnot : ∀ act ∈ acts, act.index ≠ i := fun act hact heq => habout ⟨act, hact, heq⟩
      rw [run_of_not_about hnot]
      by_cases hjk : j = k
      · subst hjk
        rw [hself, run_of_not_about hnot] at hj
        exact h.shown j i s hj
      · rw [hothers j hjk] at hj
        exact h.shown j i s hj
  · by_cases habout : ∃ act ∈ acts, act.index = i
    · obtain ⟨act, hact, rfl⟩ := habout
      rw [run_congr_at (hsame act hact), ← hself]
      exact hnone k
    · have hnot : ∀ act ∈ acts, act.index ≠ i := fun act hact heq => habout ⟨act, hact, heq⟩
      rw [run_of_not_about hnot]
      refine h.nowhere i fun j => ?_
      have hj := hnone j
      by_cases hjk : j = k
      · subst hjk
        rwa [hself, run_of_not_about hnot] at hj
      · rwa [hothers j hjk] at hj

end Spread

/-! ## Systems that show a family -/

/-- When each step does to the family that a state shows what is seen of it, each member shown
behind a run, and all it has put out, are as if it had been alone. -/
theorem Traced.family {S : Type*} {A : Type*} {β : Type*} {ι : Type u} {σ : Type v} {α : Type w}
    {ω : Type*} [DecidableEq ι] {step : S → A → S → Prop} {admitted : S → A → Prop}
    {see : S → A → List β} {inv : S → Prop} {next : σ → α → Option σ} {out : σ → α → List ω}
    {act : β → FamilyAct ι σ α} {put : β → List (ι × ω)} (shown : S → ι → Option σ)
    (hstep : ∀ t a t', inv t → admitted t a → step t a t' →
      inv t' ∧ shown t' = FamilyAct.run next (shown t) ((see t a).map act) ∧
        (see t a).flatMap put = FamilyAct.outputs next out (shown t) ((see t a).map act))
    {s s' : S} {bs : List β} (h : Traced step admitted see s bs s') (hinit : inv s) :
    inv s' ∧ ∀ i,
      shown s' i = FamilyAct.member next (shown s i) (FamilyAct.about i (bs.map act)) ∧
        ((bs.flatMap put).filter fun o => o.1 = i).map Prod.snd =
          FamilyAct.memberOutputs next out (shown s i) (FamilyAct.about i (bs.map act)) := by
  have hrun : inv s' ∧ shown s' = FamilyAct.run next (shown s) (bs.map act) ∧
      bs.flatMap put = FamilyAct.outputs next out (shown s) (bs.map act) := by
    induction h with
    | refl => exact ⟨hinit, rfl, rfl⟩
    | tail _ a hadmitted hlast ih =>
        obtain ⟨hinv, hshown, hput⟩ := ih
        obtain ⟨hinv', hshown', hput'⟩ := hstep _ _ _ hinv hadmitted hlast
        refine ⟨hinv', ?_, ?_⟩
        · rw [hshown', hshown, List.map_append, FamilyAct.run_append]
        · rw [List.flatMap_append, hput, hput', hshown, List.map_append, FamilyAct.outputs_append]
  obtain ⟨hinv, hshown, hput⟩ := hrun
  exact ⟨hinv, fun i => ⟨by rw [hshown, FamilyAct.run_apply], by rw [hput, FamilyAct.outputs_of]⟩⟩

end Support
end AdvCppHW
