import Mathlib.Data.List.Infix
import Mathlib.Logic.Function.Basic
import AdvCppHW.Support.Transition

/-!
# Objects behind a lock

Processes call operations on data that they share.  A call takes a binary semaphore, works
on the data in small steps, and gives the semaphore back.  Waiting for the semaphore may
fail, which ends the call.

* `Body` — the work of a call; `Implements` — run alone, it does what the operation is to do.
* `Legal` — a sequence of operations with their results, one after the other.
* `Serial.step` — what each step of a process keeps; `serial_of_reaches` — every interleaving has
  the results and the effect of such a sequence.
-/

namespace AdvCppHW
namespace Support
namespace LockedObject

universe u v w x y z

/-- The work of a call: where it starts, its steps on the data, and its result once it is done. -/
structure Body (Op : Type u) (Data : Type v) (Local : Type w) (Result : Type x) where
  start : Op → Local
  step : Local × Data → Local × Data → Prop
  result : Local → Option Result

/-- Where a process is in a call. -/
inductive Phase (Op : Type u) (Local : Type w) (Result : Type x) where
  | idle
  | waiting (op : Op)
  | working (op : Op) (l : Local)
  | leaving (op : Op) (r : Result)

/-- The processes, the semaphore and the data; and what has happened so far. -/
structure Machine (ι : Type y) (Op : Type u) (Data : Type v) (Local : Type w)
    (Result : Type x) where
  calls : ι → List Op
  phase : ι → Phase Op Local Result
  permits : Nat
  data : Data
  /-- The calls that have returned to each process, without a result where waiting has failed. -/
  returned : ι → List (Op × Option Result)
  /-- The calls that have done their work, in this order. -/
  history : List (ι × Op × Result)

variable {ι : Type y} {Op : Type u} {Data : Type v} {Local : Type w} {Result : Type x}
  {Abs : Type z}

namespace Phase

/-- The process holds the semaphore. -/
def Holds : Phase Op Local Result → Prop
  | working _ _ | leaving _ _ => True
  | _ => False

def Working : Phase Op Local Result → Prop
  | working _ _ => True
  | _ => False

theorem Working.eq {phase : Phase Op Local Result} (h : phase.Working) :
    ∃ op l, phase = working op l := by
  cases phase with
  | working op l => exact ⟨op, l, rfl⟩
  | idle => exact h.elim
  | waiting op => exact h.elim
  | leaving op r => exact h.elim

theorem Working.holds {phase : Phase Op Local Result} (h : phase.Working) : phase.Holds := by
  obtain ⟨op, l, rfl⟩ := h.eq
  trivial

/-- The call that has not returned yet. -/
def pending : Phase Op Local Result → List Op
  | idle => []
  | waiting op | working op _ | leaving op _ => [op]

/-- The call that has done its work, but has not returned. -/
def done : Phase Op Local Result → List (Op × Result)
  | leaving op r => [(op, r)]
  | _ => []

end Phase

namespace Machine

/-- Before the calls. -/
def init (programs : ι → List Op) (data : Data) : Machine ι Op Data Local Result :=
  ⟨programs, fun _ => .idle, 1, data, fun _ => [], []⟩

/-- No process works on the data. -/
def Quiet (s : Machine ι Op Data Local Result) : Prop := ∀ p, ¬ (s.phase p).Working

end Machine

/-- The calls that have returned a result. -/
def succeeded (returned : List (Op × Option Result)) : List (Op × Result) :=
  returned.filterMap fun e => e.2.map fun r => (e.1, r)

theorem succeeded_append (returned : List (Op × Option Result)) (op : Op) (r : Option Result) :
    succeeded (returned ++ [(op, r)]) = succeeded returned ++ (r.map fun r => (op, r)).toList := by
  unfold succeeded
  rw [List.filterMap_append]
  cases r with
  | none => rfl
  | some r => rfl

/-- The calls of one process. -/
def ownCalls [DecidableEq ι] (p : ι) (history : List (ι × Op × Result)) : List (Op × Result) :=
  history.filterMap fun e => if e.1 = p then some e.2 else none

theorem ownCalls_append_self [DecidableEq ι] (p : ι) (history : List (ι × Op × Result)) (op : Op)
    (r : Result) : ownCalls p (history ++ [(p, op, r)]) = ownCalls p history ++ [(op, r)] := by
  simp [ownCalls]

theorem ownCalls_append_of_ne [DecidableEq ι] {p q : ι} (hq : q ≠ p)
    (history : List (ι × Op × Result)) (op : Op)
    (r : Result) : ownCalls q (history ++ [(p, op, r)]) = ownCalls q history := by
  simp [ownCalls, hq.symm]

/-- Operations with their results, one after the other, lead from one abstract value to another. -/
inductive Legal (spec : Op → Abs → Result → Abs → Prop) (a : Abs) :
    List (ι × Op × Result) → Abs → Prop
  | nil : Legal spec a [] a
  | snoc {history : List (ι × Op × Result)} {b c : Abs} (p : ι) {op : Op} {r : Result}
      (h : Legal spec a history b) (hop : spec op b r c) : Legal spec a (history ++ [(p, op, r)]) c

section Steps

variable [DecidableEq ι] (B : Body Op Data Local Result)

/-- Move process `p` to a phase. -/
def Machine.goto (s : Machine ι Op Data Local Result) (p : ι) (phase : Phase Op Local Result) :
    Machine ι Op Data Local Result :=
  { s with phase := Function.update s.phase p phase }

/-- Call `op` returns to process `p`. -/
def Machine.returns (s : Machine ι Op Data Local Result) (p : ι) (op : Op) (r : Option Result) :
    Machine ι Op Data Local Result :=
  { s.goto p .idle with returned := Function.update s.returned p (s.returned p ++ [(op, r)]) }

/-- A step of process `p`. -/
inductive Step (s : Machine ι Op Data Local Result) (p : ι) : Machine ι Op Data Local Result → Prop
  | call {op : Op} {ops : List Op} (hcalls : s.calls p = op :: ops) (hidle : s.phase p = .idle) :
      Step s p { s.goto p (.waiting op) with calls := Function.update s.calls p ops }
  | wait {op : Op} (hwaiting : s.phase p = .waiting op) (hfree : 0 < s.permits) :
      Step s p { s.goto p (.working op (B.start op)) with permits := s.permits - 1 }
  | interrupted {op : Op} (hwaiting : s.phase p = .waiting op) : Step s p (s.returns p op none)
  | work {op : Op} {l l' : Local} {d : Data} (hworking : s.phase p = .working op l)
      (hstep : B.step (l, s.data) (l', d)) : Step s p { s.goto p (.working op l') with data := d }
  | finish {op : Op} {l : Local} {r : Result} (hworking : s.phase p = .working op l)
      (hresult : B.result l = some r) :
      Step s p { s.goto p (.leaving op r) with history := s.history ++ [(p, op, r)] }
  | post {op : Op} {r : Result} (hleaving : s.phase p = .leaving op r) :
      Step s p { s.returns p op (some r) with permits := s.permits + 1 }

/-- What the processes reach in any interleaving. -/
abbrev Reaches : Machine ι Op Data Local Result → Machine ι Op Data Local Result → Prop :=
  Support.Reaches (Step B) fun _ _ => True

/-- The work of a call that nobody else interferes with. -/
abbrev Works : Local × Data → Local × Data → Prop := Relation.ReflTransGen B.step

/-- Run alone, the work of a call has a result and an effect that its operation can have. -/
def Implements (rep : Data → Abs → Prop) (spec : Op → Abs → Result → Abs → Prop) : Prop :=
  ∀ op d a, rep d a → ∀ l d' r, Works B (B.start op, d) (l, d') → B.result l = some r →
    ∃ a', spec op a r a' ∧ rep d' a'

/-! ## Who holds the semaphore -/

structure Exclusive (s : Machine ι Op Data Local Result) : Prop where
  permits_le : s.permits ≤ 1
  free : 0 < s.permits → ∀ p, ¬ (s.phase p).Holds
  unique : ∀ p q, (s.phase p).Holds → (s.phase q).Holds → p = q

variable {B}

omit [DecidableEq ι] in
/-- A process that holds the semaphore has held it before. -/
theorem exclusive_of_holds {s s' : Machine ι Op Data Local Result} (h : Exclusive s)
    (hpermits : s'.permits = s.permits) (hholds : ∀ q, (s'.phase q).Holds → (s.phase q).Holds) :
    Exclusive s' where
  permits_le := hpermits ▸ h.permits_le
  free hfree q hq := h.free (hpermits ▸ hfree) q (hholds q hq)
  unique q q' hq hq' := h.unique q q' (hholds q hq) (hholds q' hq')

theorem goto_phase_self (s : Machine ι Op Data Local Result) (p : ι)
    (phase : Phase Op Local Result) :
    (s.goto p phase).phase p = phase := Function.update_self _ _ _

theorem goto_phase_of_ne (s : Machine ι Op Data Local Result) {p q : ι} (hq : q ≠ p)
    (phase : Phase Op Local Result) : (s.goto p phase).phase q = s.phase q :=
      Function.update_of_ne hq _ _

/-- A property of phases that the new phase of `p` has only if the old one had it. -/
theorem goto_phase_imp (s : Machine ι Op Data Local Result) (p : ι) {phase : Phase Op Local Result}
    {P : Phase Op Local Result → Prop} (hP : P phase → P (s.phase p)) (q : ι)
    (hq : P ((s.goto p phase).phase q)) : P (s.phase q) := by
  by_cases hqp : q = p
  · subst hqp
    rw [goto_phase_self] at hq
    exact hP hq
  · rwa [goto_phase_of_ne s hqp] at hq

theorem Exclusive.step {s s' : Machine ι Op Data Local Result} (h : Exclusive s) {p : ι}
    (hstep : Step B s p s') : Exclusive s' := by
  cases hstep with
  | call hcalls hidle =>
      exact exclusive_of_holds h rfl (goto_phase_imp s p fun hholds => hholds.elim)
  | @wait op hwaiting hfree =>
      have honly : ∀ q, ((s.goto p (.working op (B.start op))).phase q).Holds → q = p := by
        intro q hq
        by_contra hne
        rw [goto_phase_of_ne s hne] at hq
        exact h.free hfree q hq
      have hle := h.permits_le
      refine ⟨?_, fun hleft => ?_, fun q q' hq hq' => (honly q hq).trans (honly q' hq').symm⟩
      · show s.permits - 1 ≤ 1
        omega
      · have hleft' : 0 < s.permits - 1 := hleft
        omega
  | interrupted hwaiting =>
      exact exclusive_of_holds h rfl (goto_phase_imp s p fun hholds => hholds.elim)
  | work hworking hstep =>
      refine exclusive_of_holds h rfl (goto_phase_imp s p fun _ => ?_)
      rw [hworking]
      trivial
  | finish hworking hresult =>
      refine exclusive_of_holds h rfl (goto_phase_imp s p fun _ => ?_)
      rw [hworking]
      trivial
  | @post op r hleaving =>
      have hholds : (s.phase p).Holds := by
        rw [hleaving]
        trivial
      have hnone : ∀ q, ¬ ((s.goto p .idle).phase q).Holds := by
        intro q hq
        by_cases hqp : q = p
        · subst hqp
          rw [goto_phase_self] at hq
          exact hq
        · rw [goto_phase_of_ne s hqp] at hq
          exact hqp (h.unique q p hq hholds)
      have hzero : s.permits = 0 := by
        by_contra hne
        exact h.free (Nat.pos_of_ne_zero hne) p hholds
      refine ⟨?_, fun _ => hnone, fun q q' hq => absurd hq (hnone q)⟩
      show s.permits + 1 ≤ 1
      omega

/-! ## What the calls have done to the data -/

/-- The calls of the history lead to a value that the data represents while nobody works on it; a
process that does has found it so. -/
structure Effect (B : Body Op Data Local Result) (rep : Data → Abs → Prop)
    (spec : Op → Abs → Result → Abs → Prop) (a₀ : Abs) (s : Machine ι Op Data Local Result)
    (a : Abs) : Prop where
  legal : Legal spec a₀ s.history a
  quiet : s.Quiet → rep s.data a
  working : ∀ p op l, s.phase p = .working op l → ∃ d, rep d a ∧ Works B (B.start op, d) (l, s.data)

section Effect

variable {rep : Data → Abs → Prop} {spec : Op → Abs → Result → Abs → Prop} {a₀ a : Abs}
  {s s' : Machine ι Op Data Local Result}

omit [DecidableEq ι] in
theorem Effect.of_same (h : Effect B rep spec a₀ s a) (hdata : s'.data = s.data)
    (hhistory : s'.history = s.history)
    (hworking : ∀ q op l, s'.phase q = .working op l ↔ s.phase q = .working op l) :
    Effect B rep spec a₀ s' a where
  legal := hhistory ▸ h.legal
  quiet hquiet := by
    rw [hdata]
    refine h.quiet fun q hq => hquiet q ?_
    obtain ⟨op, l, hphase⟩ := hq.eq
    rw [(hworking q op l).mpr hphase]
    trivial
  working q op l hq := by
    rw [hdata]
    exact h.working q op l ((hworking q op l).mp hq)

/-- Neither before nor after its step does the process work. -/
theorem goto_working_iff {p : ι} {phase : Phase Op Local Result} (hold : ¬ (s.phase p).Working)
    (hnew : ¬ phase.Working) (q : ι) (op : Op) (l : Local) :
    (s.goto p phase).phase q = .working op l ↔ s.phase q = .working op l := by
  by_cases hqp : q = p
  · subst hqp
    rw [goto_phase_self]
    constructor
    · rintro rfl
      exact absurd trivial hnew
    · intro hphase
      rw [hphase] at hold
      exact absurd trivial hold
  · rw [goto_phase_of_ne s hqp]

omit [DecidableEq ι] in
/-- The other processes do not work while this one holds the semaphore. -/
theorem Exclusive.not_working (h : Exclusive s) {p q : ι} (hp : (s.phase p).Holds) (hqp : q ≠ p)
    (op : Op) (l : Local) : s.phase q ≠ .working op l := by
  intro hq
  refine hqp (h.unique q p ?_ hp)
  rw [hq]
  trivial

theorem Effect.step (himplements : Implements B rep spec) (hexclusive : Exclusive s)
    (h : Effect B rep spec a₀ s a) {p : ι} (hstep : Step B s p s') :
    ∃ a', Effect B rep spec a₀ s' a' := by
  cases hstep with
  | call hcalls hidle =>
      refine ⟨a, h.of_same rfl rfl (goto_working_iff ?_ id)⟩
      rw [hidle]
      exact id
  | @wait op hwaiting hfree =>
      have hnone := hexclusive.free hfree
      refine ⟨a, h.legal, fun hquiet => ?_, fun q op' l hq => ?_⟩
      · refine absurd ?_ (hquiet p)
        show ((s.goto p (.working op (B.start op))).phase p).Working
        rw [goto_phase_self]
        trivial
      · have hq' : (s.goto p (.working op (B.start op))).phase q = .working op' l := hq
        by_cases hqp : q = p
        · -- the data is as the calls before have left it
          subst hqp
          rw [goto_phase_self] at hq'
          cases hq'
          exact ⟨s.data, h.quiet fun q hworking => hnone q hworking.holds, .refl⟩
        · rw [goto_phase_of_ne s hqp] at hq'
          refine absurd ?_ (hnone q)
          rw [hq']
          trivial
  | interrupted hwaiting =>
      refine ⟨a, h.of_same rfl rfl (goto_working_iff ?_ id)⟩
      rw [hwaiting]
      exact id
  | @work op l l' d hworking hwork =>
      have hholds : (s.phase p).Holds := by
        rw [hworking]
        trivial
      obtain ⟨d₀, hrep, hworks⟩ := h.working p op l hworking
      refine ⟨a, h.legal, fun hquiet => ?_, fun q op' m hq => ?_⟩
      · refine absurd ?_ (hquiet p)
        show ((s.goto p (.working op l')).phase p).Working
        rw [goto_phase_self]
        trivial
      · have hq' : (s.goto p (.working op l')).phase q = .working op' m := hq
        by_cases hqp : q = p
        · subst hqp
          rw [goto_phase_self] at hq'
          cases hq'
          exact ⟨d₀, hrep, hworks.tail hwork⟩
        · rw [goto_phase_of_ne s hqp] at hq'
          exact absurd hq' (hexclusive.not_working hholds hqp op' m)
  | @finish op l r hworking hresult =>
      have hholds : (s.phase p).Holds := by
        rw [hworking]
        trivial
      obtain ⟨d₀, hrep, hworks⟩ := h.working p op l hworking
      obtain ⟨a', hspec, hrep'⟩ := himplements op d₀ a hrep l s.data r hworks hresult
      refine ⟨a', .snoc p h.legal hspec, fun _ => hrep', fun q op' m hq => ?_⟩
      have hq' : (s.goto p (.leaving op r)).phase q = .working op' m := hq
      by_cases hqp : q = p
      · subst hqp
        rw [goto_phase_self] at hq'
        cases hq'
      · rw [goto_phase_of_ne s hqp] at hq'
        exact absurd hq' (hexclusive.not_working hholds hqp op' m)
  | post hleaving =>
      refine ⟨a, h.of_same rfl rfl (goto_working_iff ?_ id)⟩
      rw [hleaving]
      exact id

end Effect

/-! ## In which order the calls were made -/

/-- Each process makes the calls of its program one after the other, and the history has
those that have a result. -/
structure InOrder (programs : ι → List Op) (s : Machine ι Op Data Local Result) : Prop where
  program : ∀ p, (s.returned p).map Prod.fst ++ (s.phase p).pending ++ s.calls p = programs p
  own : ∀ p, ownCalls p s.history = succeeded (s.returned p) ++ (s.phase p).done

theorem InOrder.step {programs : ι → List Op} {s s' : Machine ι Op Data Local Result}
    (h : InOrder programs s) {p : ι} (hstep : Step B s p s') : InOrder programs s' := by
  have hprogram := h.program p
  have hown := h.own p
  -- the other processes stay where they are
  suffices hself : ((s'.returned p).map Prod.fst ++ (s'.phase p).pending ++
    s'.calls p = programs p ∧
      ownCalls p s'.history = succeeded (s'.returned p) ++ (s'.phase p).done) ∧
      ∀ q, q ≠ p → s'.phase q = s.phase q ∧ s'.calls q = s.calls q ∧ s'.returned q = s.returned q ∧
        ownCalls q s'.history = ownCalls q s.history by
    obtain ⟨⟨hprogram', hown'⟩, hothers⟩ := hself
    constructor
    · intro q
      by_cases hqp : q = p
      · exact hqp ▸ hprogram'
      · obtain ⟨hphase, hcalls, hreturned, -⟩ := hothers q hqp
        rw [hphase, hcalls, hreturned]
        exact h.program q
    · intro q
      by_cases hqp : q = p
      · exact hqp ▸ hown'
      · obtain ⟨hphase, -, hreturned, hhistory⟩ := hothers q hqp
        rw [hphase, hreturned, hhistory]
        exact h.own q
  cases hstep with
  | @call op ops hcalls hidle =>
      rw [hidle, hcalls] at hprogram
      rw [hidle] at hown
      refine ⟨⟨?_, ?_⟩, fun q hqp => ?_⟩
      · simpa [Machine.goto, Phase.pending] using hprogram
      · simpa [Machine.goto, Phase.done] using hown
      · simp [Machine.goto, hqp]
  | wait hwaiting hfree =>
      rw [hwaiting] at hprogram hown
      refine ⟨⟨?_, ?_⟩, fun q hqp => ?_⟩
      · simpa [Machine.goto, Phase.pending] using hprogram
      · simpa [Machine.goto, Phase.done] using hown
      · simp [Machine.goto, hqp]
  | interrupted hwaiting =>
      rw [hwaiting] at hprogram hown
      refine ⟨⟨?_, ?_⟩, fun q hqp => ?_⟩
      · simpa [Machine.returns, Machine.goto, Phase.pending] using hprogram
      · simpa [Machine.returns, Machine.goto, Phase.done, succeeded_append] using hown
      · simp [Machine.returns, Machine.goto, hqp]
  | work hworking hwork =>
      rw [hworking] at hprogram hown
      refine ⟨⟨?_, ?_⟩, fun q hqp => ?_⟩
      · simpa [Machine.goto, Phase.pending] using hprogram
      · simpa [Machine.goto, Phase.done] using hown
      · simp [Machine.goto, hqp]
  | finish hworking hresult =>
      rw [hworking] at hprogram hown
      refine ⟨⟨?_, ?_⟩, fun q hqp => ?_⟩
      · simpa [Machine.goto, Phase.pending] using hprogram
      · simpa [Machine.goto, Phase.done, ownCalls_append_self] using hown
      · simp [Machine.goto, hqp, ownCalls_append_of_ne hqp]
  | post hleaving =>
      rw [hleaving] at hprogram hown
      refine ⟨⟨?_, ?_⟩, fun q hqp => ?_⟩
      · simpa [Machine.returns, Machine.goto, Phase.pending] using hprogram
      · simpa [Machine.returns, Machine.goto, Phase.done, succeeded_append] using hown
      · simp [Machine.returns, Machine.goto, hqp]

/-! ## Runs -/

/-- The history grows at its end: a call that is made when another one has
returned comes behind it. -/
theorem history_of_reaches {s s' : Machine ι Op Data Local Result} (h : Reaches B s s') :
    s.history <+: s'.history := by
  induction h with
  | refl => exact List.prefix_refl _
  | tail _ hlast ih =>
      obtain ⟨p, -, hstep⟩ := hlast
      refine ih.trans ?_
      cases hstep with
      | finish hworking hresult => exact List.prefix_append _ _
      | call hcalls hidle => exact List.prefix_refl _
      | wait hwaiting hfree => exact List.prefix_refl _
      | interrupted hwaiting => exact List.prefix_refl _
      | work hworking hwork => exact List.prefix_refl _
      | post hleaving => exact List.prefix_refl _

/-- A process goes on with its work. -/
theorem reach_worked {s : Machine ι Op Data Local Result} {p : ι} {op : Op} {l : Local}
    (hworking : s.phase p = .working op l) {y : Local × Data} (hworks : Works B (l, s.data) y) :
    Reaches B s { s.goto p (.working op y.1) with data := y.2 } := by
  have hstart : Reaches B s { s.goto p (.working op l) with data := s.data } := by
    rw [Machine.goto, ← hworking, Function.update_eq_self]
  induction hworks with
  | refl => exact hstart
  | @tail y z _ hlast ih =>
      have hphase : (s.goto p (.working op y.1)).phase p = .working op y.1 := goto_phase_self s p _
      refine ih.tail ⟨p, trivial, ?_⟩
      have hstep :=
        Step.work (B := B) (s := { s.goto p (.working op y.1) with data := y.2 }) hphase hlast
      simpa [Machine.goto] using hstep

/-- A process makes its next call while the others stay where they are. -/
theorem reach_returned {s : Machine ι Op Data Local Result} {p : ι} {op : Op} {ops : List Op}
    (hcalls : s.calls p = op :: ops) (hidle : s.phase p = .idle) (hfree : 0 < s.permits) {l : Local}
    {d : Data}
    {r : Result} (hworks : Works B (B.start op, s.data) (l, d)) (hresult : B.result l = some r) :
    Reaches B s { s with
      calls := Function.update s.calls p ops,
      data := d,
      returned := Function.update s.returned p (s.returned p ++ [(op, some r)]),
      history := s.history ++ [(p, op, r)] } := by
  let s₁ : Machine ι Op Data Local Result :=
    { s.goto p (.waiting op) with calls := Function.update s.calls p ops }
  let s₂ : Machine ι Op Data Local Result :=
    { s₁.goto p (.working op (B.start op)) with permits := s.permits - 1 }
  let s₃ : Machine ι Op Data Local Result := { s₂.goto p (.working op l) with data := d }
  let s₄ : Machine ι Op Data Local Result :=
    { s₃.goto p (.leaving op r) with history := s.history ++ [(p, op, r)] }
  have hcalled : Step B s p s₁ := .call hcalls hidle
  have hwaited : Step B s₁ p s₂ := .wait (goto_phase_self s p _) hfree
  have hphase₂ : s₂.phase p = .working op (B.start op) := goto_phase_self s₁ p _
  have hworked : Reaches B s₂ s₃ := reach_worked hphase₂ hworks
  have hfinished : Step B s₃ p s₄ := .finish (goto_phase_self s₂ p _) hresult
  have hposted : Step B s₄ p { s₄.returns p op (some r) with permits := s.permits - 1 + 1 } :=
    .post (goto_phase_self s₃ p _)
  have hrun := ((((Relation.ReflTransGen.single ⟨p, trivial, hcalled⟩).tail
    ⟨p, trivial, hwaited⟩).trans hworked).tail ⟨p, trivial, hfinished⟩).tail ⟨p, trivial, hposted⟩
  have hphase : Function.update s.phase p .idle =
      s.phase := by rw [← hidle, Function.update_eq_self]
  simpa [s₄, s₃, s₂, s₁, Machine.returns, Machine.goto, hphase, Nat.sub_add_cancel hfree] using hrun

/-- What holds in every state of a run. -/
structure Serial (B : Body Op Data Local Result) (rep : Data → Abs → Prop)
    (spec : Op → Abs → Result → Abs → Prop) (a₀ : Abs) (programs : ι → List Op)
    (s : Machine ι Op Data Local Result) : Prop where
  exclusive : Exclusive s
  effect : ∃ a, Effect B rep spec a₀ s a
  inOrder : InOrder programs s

section Serial

variable {rep : Data → Abs → Prop} {spec : Op → Abs → Result → Abs → Prop} {a₀ : Abs}
  {programs : ι → List Op}

theorem serial_init {d₀ : Data} (hrep : rep d₀ a₀) :
    Serial B rep spec a₀ programs (Machine.init programs d₀) where
  exclusive := ⟨le_rfl, fun _ _ hholds => hholds, fun _ _ hholds => hholds.elim⟩
  effect := ⟨a₀, .nil, fun _ => hrep, fun _ _ _ hphase => by cases hphase⟩
  inOrder := ⟨fun _ => rfl, fun _ => rfl⟩

theorem Serial.step (himplements : Implements B rep spec) {s s' : Machine ι Op Data Local Result}
    (h : Serial B rep spec a₀ programs s) {p : ι} (hstep : Step B s p s') :
    Serial B rep spec a₀ programs s' := by
  obtain ⟨a, heffect⟩ := h.effect
  exact ⟨h.exclusive.step hstep, heffect.step himplements h.exclusive hstep, h.inOrder.step hstep⟩

/-- In every interleaving the calls have the results, and the data has the value, of calls that are
made one after the other, with those of each process in the order of its program. -/
theorem serial_of_reaches (himplements : Implements B rep spec) {d₀ : Data} (hrep : rep d₀ a₀)
    {s : Machine ι Op Data Local Result} (h : Reaches B (Machine.init programs d₀) s) :
    Serial B rep spec a₀ programs s :=
  h.invariant (fun _ _ _ hinv _ hstep => hinv.step himplements hstep) (serial_init hrep)

end Serial

end Steps

end LockedObject
end Support
end AdvCppHW
