import Mathlib.Logic.Relation

/-!
# Runs of labelled transition systems

`step s a s'` says that action `a` leads from `s` to `s'`, and `admitted s a` that a run may take
`a` in `s`.  `Reaches` is a run all of whose steps are admitted; `Reaches.invariant` packages the
induction over it, and `Reaches.exists_finished` that over a measure which some step makes smaller.

For a step that is a partial function, `EveryStep` says of a given list of actions what holds at
each of them; `EveryStep.congr` compares two such properties under an invariant, and
`EveryStep.simulation` the runs of two systems.
-/

namespace AdvCppHW
namespace Support

universe u v w

variable {σ : Type u} {α : Type v}

/-- Some admitted action leads from `s` to `s'`. -/
def AdmittedStep (step : σ → α → σ → Prop) (admitted : σ → α → Prop) (s s' : σ) : Prop :=
  ∃ a, admitted s a ∧ step s a s'

/-- Admitted actions lead from `s` to `s'`. -/
abbrev Reaches (step : σ → α → σ → Prop) (admitted : σ → α → Prop) : σ → σ → Prop :=
  Relation.ReflTransGen (AdmittedStep step admitted)

namespace Reaches

variable {step : σ → α → σ → Prop} {admitted : σ → α → Prop} {inv : σ → Prop} {s s' : σ}

/-- What holds initially and is kept by every admitted step holds in every reached state. -/
theorem invariant (hstep : ∀ s a s', inv s → admitted s a → step s a s' → inv s')
    (h : Reaches step admitted s s') (hinit : inv s) : inv s' := by
  induction h with
  | refl => exact hinit
  | tail _ hlast ih =>
      obtain ⟨a, hadmitted, hs⟩ := hlast
      exact hstep _ a _ ih hadmitted hs

/-- A run that may take more actions. -/
theorem mono {admitted' : σ → α → Prop} (h : Reaches step admitted s s')
    (himp : ∀ s a, admitted s a → admitted' s a) : Reaches step admitted' s s' := by
  induction h with
  | refl => exact .refl
  | tail _ hlast ih =>
      obtain ⟨a, hadmitted, hs⟩ := hlast
      exact ih.tail ⟨a, himp _ a hadmitted, hs⟩

/-- Where an admitted step makes a measure smaller unless the state is finished, a run
leads to a finished state. -/
theorem exists_finished {measure : σ → Nat} {finished : σ → Prop}
    (hprogress : ∀ s, inv s → finished s ∨
      ∃ a s', admitted s a ∧ step s a s' ∧ inv s' ∧ measure s' < measure s) (h : inv s) :
    ∃ s', Reaches step admitted s s' ∧ inv s' ∧ finished s' := by
  induction hn : measure s using Nat.strongRecOn generalizing s with
  | _ n ih =>
    subst hn
    rcases hprogress s h with hfinished | ⟨a, s', hadmitted, hstep, hinv, hless⟩
    · exact ⟨s, .refl, h, hfinished⟩
    · obtain ⟨t, hrun, ht⟩ := ih _ hless hinv rfl
      exact ⟨t, .head ⟨a, hadmitted, hstep⟩ hrun, ht⟩

end Reaches

/-- A run of these actions, as far as it goes: `P` holds of each action, in the state in which it is
taken. -/
def EveryStep (step : σ → α → Option σ) (P : σ → α → Prop) (s : σ) : List α → Prop
  | [] => True
  | a :: as => P s a ∧ ∀ s', step s a = some s' → EveryStep step P s' as

namespace EveryStep

variable {step : σ → α → Option σ} {P Q : σ → α → Prop} {inv : σ → Prop} {admitted : α → Prop}

theorem cons {s s' : σ} {a : α} {as : List α} (hP : P s a) (hstep : step s a = some s')
    (hrest : EveryStep step P s' as) : EveryStep step P s (a :: as) := by
  refine ⟨hP, fun s'' hs'' => ?_⟩
  rw [hstep] at hs''
  cases hs''
  exact hrest

/-- Properties that agree wherever an invariant holds agree along a run of actions that keep it. -/
theorem congr (hstep : ∀ s a s', inv s → admitted a → step s a = some s' → inv s')
    (hiff : ∀ s a, inv s → (P s a ↔ Q s a)) {s : σ} (h : inv s) {as : List α}
    (hadmitted : ∀ a ∈ as, admitted a) : EveryStep step P s as ↔ EveryStep step Q s as := by
  induction as generalizing s with
  | nil => exact Iff.rfl
  | cons a as ih =>
      have hfirst := hadmitted a List.mem_cons_self
      have hothers : ∀ b ∈ as, admitted b := fun b hb => hadmitted b (List.mem_cons_of_mem _ hb)
      unfold EveryStep
      rw [hiff s a h]
      apply and_congr_right
      intro _
      constructor
      · intro hP s' hs'
        exact (ih (hstep s a s' h hfirst hs') hothers).mp (hP s' hs')
      · intro hQ s' hs'
        exact (ih (hstep s a s' h hfirst hs') hothers).mpr (hQ s' hs')

/-- Where one step keeps an invariant exactly if `P` holds, so do all steps of a run. -/
theorem keeps_iff (hstep : ∀ s a s', inv s → step s a = some s' → (inv s' ↔ P s a)) {s : σ}
    (h : inv s) (as : List α) :
    EveryStep step (fun s a => ∀ s', step s a = some s' → inv s') s as ↔
      EveryStep step (fun s a => ∀ s', step s a = some s' → P s a) s as := by
  induction as generalizing s with
  | nil => exact Iff.rfl
  | cons a as ih =>
      constructor
      · rintro ⟨hkeeps, hrest⟩
        refine ⟨fun s' hs' => (hstep s a s' h hs').mp (hkeeps s' hs'), fun s' hs' => ?_⟩
        exact (ih (hkeeps s' hs')).mp (hrest s' hs')
      · rintro ⟨hP, hrest⟩
        have hkeeps : ∀ s', step s a = some s' → inv s' :=
          fun s' hs' => (hstep s a s' h hs').mpr (hP s' hs')
        exact ⟨hkeeps, fun s' hs' => (ih (hkeeps s' hs')).mpr (hrest s' hs')⟩

/-! ### Steps that are always possible -/

section Total

variable {τ : Type w} {next : σ → α → σ} {next' : τ → α → τ} {P' : τ → α → Prop} {R : σ → τ → Prop}

theorem cons_iff {s : σ} {a : α} {as : List α} :
    EveryStep (fun s a => some (next s a)) P s (a :: as) ↔
      P s a ∧ EveryStep (fun s a => some (next s a)) P (next s a) as := by
  constructor
  · rintro ⟨hP, hrest⟩
    exact ⟨hP, hrest _ rfl⟩
  · rintro ⟨hP, hrest⟩
    exact .cons hP rfl hrest

theorem append {s : σ} {as bs : List α} (h : EveryStep (fun s a => some (next s a)) P s as)
    (h' : EveryStep (fun s a => some (next s a)) P (as.foldl next s) bs) :
    EveryStep (fun s a => some (next s a)) P s (as ++ bs) := by
  induction as generalizing s with
  | nil => exact h'
  | cons a as ih =>
      obtain ⟨hP, hrest⟩ := cons_iff.mp h
      exact cons_iff.mpr ⟨hP, ih hrest h'⟩

/-- A system that can follow every single step follows the whole run. -/
theorem simulation (hstep : ∀ s t a, R s t → P s a → P' t a ∧ R (next s a) (next' t a)) {s : σ}
    {t : τ} (hrelated : R s t) {as : List α} (h : EveryStep (fun s a => some (next s a)) P s as) :
    EveryStep (fun t a => some (next' t a)) P' t as ∧ R (as.foldl next s) (as.foldl next' t) := by
  induction as generalizing s t with
  | nil => exact ⟨trivial, hrelated⟩
  | cons a as ih =>
      obtain ⟨hP, hrest⟩ := cons_iff.mp h
      obtain ⟨hP', hnext⟩ := hstep s t a hrelated hP
      obtain ⟨hfollows, hend⟩ := ih hnext hrest
      exact ⟨cons_iff.mpr ⟨hP', hfollows⟩, hend⟩

end Total
end EveryStep
end Support
end AdvCppHW
