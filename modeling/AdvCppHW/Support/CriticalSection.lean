import Mathlib.Logic.Function.Basic
import AdvCppHW.Support.Transition

/-!
# Operations on shared data, with and without a lock

Processes call operations one after the other.  An operation makes some accesses to data that all
processes share; most operations take a binary semaphore before the first access and give it back
after the last.

* `Guarded.step` — while all calls take the semaphore, at most one process holds it.
* `exclusive_iff` — programs keep their accesses apart in every interleaving exactly when a
  process that makes a call without the semaphore is the only one that makes calls.
-/

namespace AdvCppHW
namespace Support
namespace CriticalSection

universe u v w

/-- What operations do: whether they take the semaphore, and which accesses a call can make.  There
is always a first access; the list has the others. -/
structure Protocol (Op : Type v) (Access : Type w) where
  locks : Op → Bool
  accesses : Op → Access → List Access → Prop
  exists_accesses : ∀ op, ∃ first later, accesses op first later

/-- Where a process is in a call; `locked` tells whether it holds the semaphore. -/
inductive Phase (Access : Type w) where
  | idle
  | waiting (first : Access) (later : List Access)
  | entering (locked : Bool) (first : Access) (later : List Access)
  /-- From the beginning of the first access to the end of the last one. -/
  | inside (locked : Bool) (later : List Access)
  | leaving (locked : Bool)

/-- The calls each process is still to make, where it is, and the value of the semaphore. -/
structure System (ι : Type u) (Op : Type v) (Access : Type w) where
  calls : ι → List Op
  phase : ι → Phase Access
  permits : Nat

variable {ι : Type u} {Op : Type v} {Access : Type w}

namespace Phase

/-- The process holds the semaphore. -/
def Holds : Phase Access → Prop
  | entering true _ _ | inside true _ | leaving true => True
  | _ => False

/-- The process is in a call that does not take the semaphore. -/
def Unguarded : Phase Access → Prop
  | entering false _ _ | inside false _ | leaving false => True
  | _ => False

def IsInside : Phase Access → Prop
  | inside _ _ => True
  | _ => False

theorem IsInside.holds {phase : Phase Access} (h : phase.IsInside) (hguarded : ¬ phase.Unguarded) :
    phase.Holds := by
  cases phase with
  | inside locked later =>
      cases locked with
      | true => trivial
      | false => exact absurd trivial hguarded
  | _ => cases h

end Phase

def init (programs : ι → List Op) : System ι Op Access := ⟨programs, fun _ => .idle, 1⟩

section Steps

variable [DecidableEq ι] (P : Protocol Op Access)

/-- Move process `p` to a phase. -/
def System.goto (s : System ι Op Access) (p : ι) (phase : Phase Access) : System ι Op Access :=
  { s with phase := Function.update s.phase p phase }

@[simp] theorem System.goto_phase_self (s : System ι Op Access) (p : ι) (phase : Phase Access) :
    (s.goto p phase).phase p = phase := by
  simp [System.goto]

@[simp] theorem System.goto_phase_of_ne (s : System ι Op Access) {p q : ι} (hq : q ≠ p)
    (phase : Phase Access) : (s.goto p phase).phase q = s.phase q := by
  simp [System.goto, hq]

@[simp] theorem System.goto_calls (s : System ι Op Access) (p : ι) (phase : Phase Access) :
    (s.goto p phase).calls = s.calls := rfl

@[simp] theorem System.goto_permits (s : System ι Op Access) (p : ι) (phase : Phase Access) :
    (s.goto p phase).permits = s.permits := rfl

/-- A step of process `p`. -/
inductive Step (s : System ι Op Access) (p : ι) : System ι Op Access → Prop
  | call {op : Op} {ops : List Op} {first : Access} {later : List Access}
      (hcalls : s.calls p = op :: ops) (hidle : s.phase p = .idle)
      (haccesses : P.accesses op first later) :
      Step s p { s.goto p (if P.locks op then .waiting first later else .entering false first later)
        with calls := Function.update s.calls p ops }
  | wait {first : Access} {later : List Access} (hphase : s.phase p = .waiting first later)
      (hfree : 0 < s.permits) :
      Step s p { s.goto p (.entering true first later) with permits := s.permits - 1 }
  /-- Waiting fails, and the call ends. -/
  | interrupted {first : Access} {later : List Access} (hphase : s.phase p = .waiting first later) :
      Step s p (s.goto p .idle)
  | enter {locked : Bool} {first : Access} {later : List Access}
      (hphase : s.phase p = .entering locked first later) :
      Step s p (s.goto p (.inside locked later))
  | next {locked : Bool} {access : Access} {later : List Access}
      (hphase : s.phase p = .inside locked (access :: later)) :
      Step s p (s.goto p (.inside locked later))
  | last {locked : Bool} (hphase : s.phase p = .inside locked []) :
      Step s p (s.goto p (.leaving locked))
  | post (hphase : s.phase p = .leaving true) :
      Step s p { s.goto p .idle with permits := s.permits + 1 }
  | done (hphase : s.phase p = .leaving false) : Step s p (s.goto p .idle)

/-- What the processes reach in any interleaving. -/
abbrev Reaches : System ι Op Access → System ι Op Access → Prop :=
  Support.Reaches (Step P) fun _ _ => True

/-- At most one process is between its first and its last access. -/
def MutuallyExclusive (s : System ι Op Access) : Prop :=
  ∀ p q, p ≠ q → ¬ ((s.phase p).IsInside ∧ (s.phase q).IsInside)

/-! ## Programs whose calls all take the semaphore -/

/-- All calls take the semaphore, which is held by one process or free. -/
structure Guarded (s : System ι Op Access) : Prop where
  calls : ∀ p, ∀ op ∈ s.calls p, P.locks op = true
  phase : ∀ p, ¬ (s.phase p).Unguarded
  permits : (s.permits = 1 ∧ ∀ p, ¬ (s.phase p).Holds) ∨
    (s.permits = 0 ∧ ∃ p, (s.phase p).Holds ∧ ∀ q, (s.phase q).Holds → q = p)

variable {P}

omit [DecidableEq ι] in
theorem Guarded.mutuallyExclusive {s : System ι Op Access} (h : Guarded P s) :
    MutuallyExclusive s := by
  rintro p q hpq ⟨hp, hq⟩
  have hholds := hp.holds (h.phase p)
  rcases h.permits with ⟨-, hnone⟩ | ⟨-, r, -, honly⟩
  · exact hnone p hholds
  · exact hpq ((honly p hholds).trans (honly q (hq.holds (h.phase q))).symm)

/-- A process that neither takes nor gives back the semaphore. -/
theorem Guarded.goto {s : System ι Op Access} (h : Guarded P s) {p : ι} {phase : Phase Access}
    (hguarded : ¬ phase.Unguarded) (hholds : phase.Holds ↔ (s.phase p).Holds) :
    Guarded P (s.goto p phase) := by
  have hsame : ∀ q, ((s.goto p phase).phase q).Holds ↔ (s.phase q).Holds := by
    intro q
    by_cases hq : q = p
    · subst hq
      simpa using hholds
    · simp [hq]
  refine ⟨h.calls, fun q => ?_, ?_⟩
  · by_cases hq : q = p
    · subst hq
      simpa using hguarded
    · simpa [hq] using h.phase q
  · simpa only [hsame, System.goto_permits] using h.permits

/-- The process that takes the semaphore is the only one to hold it. -/
theorem Guarded.take {s : System ι Op Access} (h : Guarded P s) {p : ι} {phase : Phase Access}
    (hfree : 0 < s.permits) (hguarded : ¬ phase.Unguarded) (hholds : phase.Holds) :
    Guarded P { s.goto p phase with permits := s.permits - 1 } := by
  -- a permit is left only while nobody holds the semaphore
  obtain ⟨hone, hnone⟩ : s.permits = 1 ∧ ∀ q, ¬ (s.phase q).Holds := by
    rcases h.permits with hone | ⟨hzero, -⟩
    · exact hone
    · omega
  refine ⟨h.calls, fun q => ?_, Or.inr ⟨by simp [hone], p, ?_, fun q hq => ?_⟩⟩
  · by_cases hq : q = p
    · subst hq
      simpa using hguarded
    · simpa [hq] using h.phase q
  · simpa using hholds
  · by_contra hne
    exact hnone q (by simpa [hne] using hq)

/-- When the process that holds the semaphore gives it back, nobody holds it. -/
theorem Guarded.give {s : System ι Op Access} (h : Guarded P s) {p : ι}
    (hholds : (s.phase p).Holds) :
    Guarded P { s.goto p .idle with permits := s.permits + 1 } := by
  obtain ⟨hzero, honly⟩ : s.permits = 0 ∧ ∀ q, (s.phase q).Holds → q = p := by
    rcases h.permits with ⟨-, hnone⟩ | ⟨hzero, r, -, honly⟩
    · exact absurd hholds (hnone p)
    · obtain rfl := honly p hholds
      exact ⟨hzero, honly⟩
  refine ⟨h.calls, fun q => ?_, Or.inl ⟨by simp [hzero], fun q => ?_⟩⟩
  · by_cases hq : q = p
    · subst hq
      simp [Phase.Unguarded]
    · simpa [hq] using h.phase q
  · by_cases hq : q = p
    · subst hq
      simp [Phase.Holds]
    · simpa [hq] using fun hholds' => hq (honly q hholds')

theorem Guarded.step {s s' : System ι Op Access} (h : Guarded P s) {p : ι} (hstep : Step P s p s') :
    Guarded P s' := by
  have hphase := h.phase p
  cases hstep with
  | @call op ops first later hcalls hidle haccesses =>
      have hlocks : P.locks op = true := h.calls p op (by simp [hcalls])
      have hgoto : Guarded P (s.goto p (.waiting first later)) :=
        h.goto (by simp [Phase.Unguarded]) (by simp [Phase.Holds, hidle])
      rw [if_pos hlocks]
      refine ⟨fun q op' hop' => ?_, hgoto.phase, hgoto.permits⟩
      by_cases hq : q = p
      · subst hq
        exact h.calls q op' (by simp_all)
      · exact h.calls q op' (by simpa [hq] using hop')
  | wait hwaiting hfree => exact h.take hfree (by simp [Phase.Unguarded]) trivial
  | interrupted hwaiting =>
      exact h.goto (by simp [Phase.Unguarded]) (by simp [Phase.Holds, hwaiting])
  | @enter locked first later hentering =>
      cases locked with
      | true => exact h.goto (by simp [Phase.Unguarded]) (by simp [Phase.Holds, hentering])
      | false => simp [hentering, Phase.Unguarded] at hphase
  | @next locked access later hinside =>
      cases locked with
      | true => exact h.goto (by simp [Phase.Unguarded]) (by simp [Phase.Holds, hinside])
      | false => simp [hinside, Phase.Unguarded] at hphase
  | @last locked hinside =>
      cases locked with
      | true => exact h.goto (by simp [Phase.Unguarded]) (by simp [Phase.Holds, hinside])
      | false => simp [hinside, Phase.Unguarded] at hphase
  | post hleaving => exact h.give (by simp [hleaving, Phase.Holds])
  | done hleaving => simp [hleaving, Phase.Unguarded] at hphase

/-! ## One process that makes calls -/

/-- Only process `p` makes calls. -/
def Alone (p : ι) (s : System ι Op Access) : Prop := ∀ q, q ≠ p → s.calls q = [] ∧ s.phase q = .idle

omit [DecidableEq ι] in
theorem Alone.mutuallyExclusive {p : ι} {s : System ι Op Access} (h : Alone p s) :
    MutuallyExclusive s := by
  rintro q r hqr ⟨hq, hr⟩
  by_cases hqp : q = p
  · rw [(h r fun hrp => hqr (hqp.trans hrp.symm)).2] at hr
    exact hr
  · rw [(h q hqp).2] at hq
    exact hq

theorem Alone.step {p q : ι} {s s' : System ι Op Access} (h : Alone p s) (hstep : Step P s q s') :
    Alone p s' := by
  -- only `p` can take a step
  have hqp : q = p := by
    by_contra hne
    obtain ⟨hcalls, hidle⟩ := h q hne
    cases hstep <;> simp_all
  subst hqp
  intro r hr
  cases hstep <;> simpa [hr] using h r hr

/-! ## Calls of a single process -/

/-- `s'` differs from `s` in process `p` only. -/
def SameOthers (p : ι) (s s' : System ι Op Access) : Prop :=
  ∀ q, q ≠ p → s'.calls q = s.calls q ∧ s'.phase q = s.phase q

omit [DecidableEq ι] in
theorem SameOthers.trans {p : ι} {s s' s'' : System ι Op Access} (h : SameOthers p s s')
    (h' : SameOthers p s' s'') : SameOthers p s s'' :=
  fun q hq => ⟨(h' q hq).1.trans (h q hq).1, (h' q hq).2.trans (h q hq).2⟩

theorem sameOthers_goto (s : System ι Op Access) (p : ι) (phase : Phase Access) :
    SameOthers p s (s.goto p phase) :=
  fun q hq => ⟨rfl, by simp [hq]⟩

/-- A process that is idle begins its next call and its first access, if the semaphore is free where
the call takes it. -/
theorem reach_inside {s : System ι Op Access} {p : ι} {op : Op} {ops : List Op}
    (hcalls : s.calls p = op :: ops) (hidle : s.phase p = .idle) (hfree : 0 < s.permits) :
    ∃ s' later, Reaches P s s' ∧ s'.phase p = .inside (P.locks op) later ∧ s'.calls p = ops ∧
      SameOthers p s s' ∧ s'.permits + (if P.locks op then 1 else 0) = s.permits := by
  obtain ⟨first, later, haccesses⟩ := P.exists_accesses op
  have hcall := Step.call hcalls hidle haccesses
  cases hlocks : P.locks op with
  | false =>
      rw [hlocks, if_neg (by decide)] at hcall
      let s₁ : System ι Op Access :=
        { s.goto p (.entering false first later) with calls := Function.update s.calls p ops }
      have hphase₁ : s₁.phase p = .entering false first later := s.goto_phase_self p _
      refine ⟨s₁.goto p (.inside false later), later, .tail (.single ⟨p, trivial, hcall⟩)
        ⟨p, trivial, .enter hphase₁⟩, s₁.goto_phase_self p _, by simp [s₁], fun q hq => ?_, rfl⟩
      simp [s₁, hq]
  | true =>
      rw [hlocks, if_pos rfl] at hcall
      let s₁ : System ι Op Access :=
        { s.goto p (.waiting first later) with calls := Function.update s.calls p ops }
      let s₂ : System ι Op Access :=
        { s₁.goto p (.entering true first later) with permits := s₁.permits - 1 }
      have hphase₁ : s₁.phase p = .waiting first later := s.goto_phase_self p _
      have hphase₂ : s₂.phase p = .entering true first later := s₁.goto_phase_self p _
      refine ⟨s₂.goto p (.inside true later), later, .tail (.tail (.single ⟨p, trivial, hcall⟩)
          ⟨p, trivial, .wait hphase₁ hfree⟩) ⟨p, trivial, .enter hphase₂⟩,
        s₂.goto_phase_self p _, by simp [s₂, s₁], fun q hq => ?_, Nat.sub_add_cancel hfree⟩
      simp [s₂, s₁, hq]

/-- A process that is between its first and its last access goes on to the end of its call. -/
theorem reach_idle {s : System ι Op Access} {p : ι} {locked : Bool} {later : List Access}
    (hinside : s.phase p = .inside locked later) :
    ∃ s', Reaches P s s' ∧ s'.phase p = .idle ∧ s'.calls p = s.calls p ∧ SameOthers p s s' ∧
      s'.permits = s.permits + if locked then 1 else 0 := by
  induction later generalizing s with
  | nil =>
      have hlast : Step P s p (s.goto p (.leaving locked)) := .last hinside
      have hleaving := s.goto_phase_self p (.leaving locked)
      cases locked with
      | false =>
          refine ⟨(s.goto p (.leaving false)).goto p .idle,
            .tail (.single ⟨p, trivial, hlast⟩) ⟨p, trivial, .done hleaving⟩,
            System.goto_phase_self _ p _, rfl, fun q hq => ?_, rfl⟩
          simp [hq]
      | true =>
          refine ⟨{ (s.goto p (.leaving true)).goto p .idle with permits := s.permits + 1 },
            .tail (.single ⟨p, trivial, hlast⟩) ⟨p, trivial, .post hleaving⟩,
            System.goto_phase_self _ p _, rfl, fun q hq => ?_, rfl⟩
          simp [hq]
  | cons access later ih =>
      obtain ⟨s', hreach, hidle, hcalls, hothers, hpermits⟩ :=
        ih (s.goto_phase_self p (.inside locked later))
      exact ⟨s', .head ⟨p, trivial, .next hinside⟩ hreach, hidle, hcalls,
        (sameOthers_goto s p _).trans hothers, hpermits⟩

/-- A process that is idle makes its next calls, one after the other. -/
theorem reach_calls {s : System ι Op Access} {p : ι} {front ops : List Op}
    (hcalls : s.calls p = front ++ ops) (hidle : s.phase p = .idle) (hfree : 0 < s.permits) :
    ∃ s', Reaches P s s' ∧ s'.phase p = .idle ∧ s'.calls p = ops ∧ SameOthers p s s' ∧
      s'.permits = s.permits := by
  induction front generalizing s with
  | nil => exact ⟨s, .refl, hidle, hcalls, fun q _ => ⟨rfl, rfl⟩, rfl⟩
  | cons op front ih =>
      obtain ⟨s₁, later, hreach₁, hinside, hcalls₁, hothers₁, hpermits₁⟩ :=
        reach_inside (P := P) hcalls hidle hfree
      obtain ⟨s₂, hreach₂, hidle₂, hcalls₂, hothers₂, hpermits₂⟩ := reach_idle (P := P) hinside
      have hpermits : s₂.permits = s.permits := hpermits₂.trans hpermits₁
      obtain ⟨s₃, hreach₃, hidle₃, hcalls₃, hothers₃, hpermits₃⟩ :=
        ih (hcalls₂.trans hcalls₁) hidle₂ (hpermits ▸ hfree)
      exact ⟨s₃, (hreach₁.trans hreach₂).trans hreach₃, hidle₃, hcalls₃,
        (hothers₁.trans hothers₂).trans hothers₃, hpermits₃.trans hpermits⟩

/-! ## When accesses are kept apart -/

/-- The interleavings of some programs keep the accesses of different processes apart exactly when a
process that makes a call without the semaphore is the only one that makes calls. -/
theorem exclusive_iff (programs : ι → List Op) :
    (∀ s, Reaches P (init programs) s → MutuallyExclusive s) ↔
      ∀ p q, p ≠ q → (∃ op ∈ programs p, P.locks op = false) → programs q = [] := by
  constructor
  · rintro hexclusive p q hpq ⟨op, hop, hunlocked⟩
    by_contra hne
    obtain ⟨front, back, hprogram⟩ := List.append_of_mem hop
    obtain ⟨op', ops', hprogram'⟩ := List.exists_cons_of_ne_nil hne
    -- `p` goes to the accesses of the call, and `q` to those of its first one
    obtain ⟨s₁, hreach₁, hidle₁, hcalls₁, hothers₁, hpermits₁⟩ :=
      reach_calls (P := P) (s := (init programs : System ι Op Access)) hprogram rfl Nat.one_pos
    obtain ⟨s₂, later₂, hreach₂, hinside₂, -, hothers₂, hpermits₂⟩ :=
      reach_inside (P := P) hcalls₁ hidle₁ (hpermits₁ ▸ Nat.one_pos)
    have hcallsq : s₂.calls q = op' :: ops' := by
      rw [(hothers₂ q hpq.symm).1, (hothers₁ q hpq.symm).1]
      exact hprogram'
    have hidleq : s₂.phase q = .idle := by
      rw [(hothers₂ q hpq.symm).2, (hothers₁ q hpq.symm).2]
      rfl
    have hfree : 0 < s₂.permits := by
      rw [hunlocked] at hpermits₂
      rw [show s₂.permits = s₁.permits by simpa using hpermits₂, hpermits₁]
      exact Nat.one_pos
    obtain ⟨s₃, later₃, hreach₃, hinside₃, -, hothers₃, -⟩ :=
      reach_inside (P := P) hcallsq hidleq hfree
    refine hexclusive s₃ ((hreach₁.trans hreach₂).trans hreach₃) p q hpq ⟨?_, ?_⟩
    · rw [(hothers₃ p hpq).2, hinside₂]
      trivial
    · rw [hinside₃]
      trivial
  · intro hprograms s hs
    by_cases hunlocked : ∃ p, ∃ op ∈ programs p, P.locks op = false
    · obtain ⟨p, hp⟩ := hunlocked
      have hinit : Alone p (init programs : System ι Op Access) :=
        fun q hq => ⟨hprograms p q (Ne.symm hq) hp, rfl⟩
      exact (hs.invariant (fun s q s' h _ hstep => h.step hstep) hinit).mutuallyExclusive
    · have hlocks : ∀ p, ∀ op ∈ programs p, P.locks op = true := by
        intro p op hop
        by_contra hfalse
        exact hunlocked ⟨p, op, hop, by simpa using hfalse⟩
      have hinit : Guarded P (init programs : System ι Op Access) :=
        ⟨hlocks, fun p => by simp [init, Phase.Unguarded], Or.inl ⟨rfl, fun p => by
          simp [init, Phase.Holds]⟩⟩
      exact (hs.invariant (fun s q s' h _ hstep => h.step hstep) hinit).mutuallyExclusive

end Steps
end CriticalSection
end Support
end AdvCppHW
