import AdvCppHW.Coroutines.Machine

/-!
# Nested resumption

Routines that resume routines.  `ordinator.current` and `ordinator.ctx` have room for one level: a
routine that another routine has resumed sets `current` to zero when it yields or ends, while the
code that goes on is not outside of all routines.

* `Lawful` — what nesting should look like along a run.
* `Sound`, `nesting_lawful_iff` — the runs that are lawful are those in which no routine that was
  resumed by another one switches back, and every switch is to a routine that waits for it.
-/

namespace AdvCppHW
namespace Coroutine
namespace Machine

open Support

variable {F K : Type} {refs : References}

/-! ## The law and its condition -/

/-- `current` is the running routine and goes on being it, every call is defined, and a routine that
yields is suspended, while the code that has resumed it goes on. -/
def Lawful (refs : References) : Machine F K → List (Act F K) → Prop
  | m, [] => m.o.current = m.running
  | m, act :: acts =>
      m.o.current = m.running ∧
      (∀ frame garbage, act = .yield frame garbage → m.o.current ≠ 0 ∧
        ∃ a reply m' r, m.active = a :: m'.active ∧ m.step refs act = .ok reply m' ∧
          m'.o.routine? a.id = some r ∧ r.ctx = .saved frame a.bound) ∧
      ∃ reply m', m.step refs act = .ok reply m' ∧ Lawful refs m' acts

/-- A switch goes to a routine that waits for it, and only a routine that was resumed from outside
switches back. -/
def Sound (m : Machine F K) : Act F K → Prop
  | .create _ | .create_and_run _ => True
  | .resume id => ∀ r, m.o.routine? id = some r → r.finished = false →
      r.ctx ≠ .ended ∧ id ∉ m.active.map Active.id
  | .yield _ _ | .ends _ _ => m.active.length = 1

/-- Every call of the run is sound. -/
def Proper (refs : References) : Machine F K → List (Act F K) → Prop
  | _, [] => True
  | m, act :: acts => Sound m act ∧ ∀ reply m', m.step refs act = .ok reply m' → Proper refs m' acts

/-! ## One call -/

/-- What holds in a run of sound calls: `current` is the running routine, and the point in
`ordinator.ctx` is that of the code directly below. -/
structure Nested (m : Machine F K) : Prop where
  wellFormed : m.WellFormed
  current : m.o.current = m.running
  ctx : m.active ≠ [] → m.ctx + 1 = m.active.length

theorem nested_new : Nested ({} : Machine F K) where
  wellFormed := wellFormed_new
  current := rfl
  ctx h := absurd rfl h

theorem Lawful.current {m : Machine F K} {acts : List (Act F K)} (h : Lawful refs m acts) :
    m.o.current = m.running := by
  cases acts with
  | nil => exact h
  | cons act acts => exact h.1

section Nested

variable {m : Machine F K} (hm : Nested m)
include hm

theorem Nested.created (f : F) : Nested (m.created f) where
  wellFormed := hm.wellFormed.created f
  current := (current_create m.o f).trans hm.current
  ctx := hm.ctx

theorem Nested.entered {id : Nat} {r : Routine F K} (h : m.Enters id r) :
    Nested (m.entered id r.ctx) where
  wellFormed := hm.wellFormed.entered h
  current := rfl
  ctx _ := rfl

theorem Nested.resume_sound {id : Nat} (hsound : Sound m (.resume id)) :
    ∃ reply m', m.resume id = .ok reply m' ∧ Nested m' := by
  by_cases hrefused : ∀ r, m.o.routine? id = some r → r.finished = true
  · exact ⟨.refused, m, resume_of_refused hrefused, hm⟩
  · simp only [not_forall, Bool.not_eq_true] at hrefused
    obtain ⟨r, hr, hfinished⟩ := hrefused
    obtain ⟨hctx, hinactive⟩ := hsound r hr hfinished
    have henters : m.Enters id r := ⟨hr, hfinished, hinactive, hctx⟩
    exact ⟨.entered id, _, resume_of_enters henters, hm.entered henters⟩

/-- The only active routine, and the code outside that it returns to. -/
theorem Nested.single (hsingle : m.active.length = 1) : ∃ a, m.active = [a] ∧ m.ctx = 0 ∧
    m.o.current = a.id ∧ a.id ≠ 0 := by
  obtain ⟨a, hactive⟩ := List.length_eq_one_iff.mp hsingle
  have hctx := hm.ctx (by rw [hactive]; exact List.cons_ne_nil _ _)
  have hcurrent : m.o.current = a.id := by rw [hm.current, Machine.running, hactive]; rfl
  exact ⟨a, hactive, by omega, hcurrent, (hm.wellFormed.head hactive).1⟩

/-- A sound call is defined and obeys the law. -/
theorem Nested.step_sound (refs : References) {act : Act F K} (hsound : Sound m act) :
    ∃ reply m', m.step refs act = .ok reply m' ∧ Nested m' ∧
      ∀ frame garbage, act = .yield frame garbage → m.o.current ≠ 0 ∧
        ∃ a r, m.active = a :: m'.active ∧ m'.o.routine? a.id = some r ∧
          r.ctx = .saved frame a.bound := by
  cases act with
  | create f => exact ⟨_, _, rfl, hm.created f, fun _ _ h => by cases h⟩
  | resume id =>
      obtain ⟨reply, m', hstep, hm'⟩ := hm.resume_sound hsound
      exact ⟨reply, m', hstep, hm', fun _ _ h => by cases h⟩
  | create_and_run f =>
      have henters := hm.wellFormed.enters_created f
      exact ⟨_, _, resume_of_enters henters, (hm.created f).entered henters,
        fun _ _ h => by cases h⟩
  | yield frame garbage =>
      obtain ⟨a, hactive, hctx, hcurrent, hid⟩ := hm.single hsound
      obtain ⟨-, r, hr, -⟩ := hm.wellFormed.head hactive
      have hwellFormed := hm.wellFormed.yield hactive (hcurrent ▸ hid) frame
      refine ⟨answer a.id (exceptionRead refs (m.o.yield m.o.current frame a.bound) a garbage),
        { m with o := m.o.yield m.o.current frame a.bound, active := [] }, ?_,
        ⟨hwellFormed, rfl, fun h => absurd rfl h⟩, ?_⟩
      · show m.yield refs frame garbage = _
        rw [Machine.yield, if_neg (hcurrent ▸ hid), hactive]
        exact switchBack_of_eq hctx garbage
      · intro frame' garbage' hact
        cases hact
        refine ⟨hcurrent ▸ hid, a, { r with ctx := .saved frame a.bound }, hactive, ?_, rfl⟩
        rw [hcurrent]
        exact Ordinator.routine?_yield hr frame a.bound
  | ends thrown garbage =>
      obtain ⟨a, hactive, hctx, -, -⟩ := hm.single hsound
      refine ⟨answer a.id (exceptionRead refs
          (m.o.finish a.id (refs.leadsTo a.bound m.o.storage) thrown) a garbage), _, ?_,
        ⟨hm.wellFormed.ends hactive (refs.leadsTo a.bound m.o.storage) thrown, rfl,
          fun h => absurd rfl h⟩, fun _ _ h => by cases h⟩
      show m.ends refs thrown garbage = _
      rw [Machine.ends, hactive]
      exact switchBack_of_eq hctx garbage

/-- A call that leads to a state in which `current` is right was sound. -/
theorem Nested.sound_of_step {act : Act F K} {reply : Reply} {m' : Machine F K}
    (hstep : m.step refs act = .ok reply m') (hcurrent : m'.o.current = m'.running) :
    Sound m act := by
  -- a routine that leaves another one active leaves `current` at zero
  have hback : ∀ {a : Active} {rest : List Active}, m.active = a :: rest → m'.active = rest →
      m'.o.current = 0 → m.active.length = 1 := by
    intro a rest hactive hrest hzero
    cases rest with
    | nil => rw [hactive]; rfl
    | cons b rest =>
        have hmem : b ∈ m.active := by
          rw [hactive]
          exact List.mem_cons_of_mem a List.mem_cons_self
        obtain ⟨r, hr, -⟩ := hm.wellFormed.alive b hmem
        rw [hzero, Machine.running, hrest] at hcurrent
        exact absurd hcurrent.symm (Ordinator.routine?_eq_some.mp hr).1
  cases act with
  | create f => trivial
  | create_and_run f => trivial
  | resume id =>
      intro r hr hfinished
      rcases resume_cases hstep with ⟨hrefused, -, -⟩ | ⟨r', henters, -, -⟩
      · rw [hrefused r hr] at hfinished
        cases hfinished
      · have hroutine := henters.routine
        rw [hr] at hroutine
        cases hroutine
        exact ⟨henters.ctx, henters.inactive⟩
  | yield frame garbage =>
      obtain ⟨-, a, rest, hactive, -, rfl⟩ := yield_cases hstep
      exact hback hactive rfl rfl
  | ends thrown garbage =>
      obtain ⟨a, rest, hactive, -, rfl⟩ := ends_cases hstep
      exact hback hactive rfl rfl

end Nested

/-! ## Runs -/

theorem Nested.lawful_iff {m : Machine F K} (hm : Nested m) (acts : List (Act F K)) :
    Lawful refs m acts ↔ Proper refs m acts := by
  induction acts generalizing m with
  | nil => exact ⟨fun _ => trivial, fun _ => hm.current⟩
  | cons act acts ih =>
      constructor
      · rintro ⟨-, -, reply, m', hstep, hlawful⟩
        have hsound := hm.sound_of_step hstep hlawful.current
        obtain ⟨reply₁, m₁, hstep₁, hm₁, -⟩ := hm.step_sound refs hsound
        refine ⟨hsound, fun reply₂ m₂ hstep₂ => ?_⟩
        rw [hstep] at hstep₁ hstep₂
        cases hstep₁
        cases hstep₂
        exact (ih hm₁).mp hlawful
      · rintro ⟨hsound, hproper⟩
        obtain ⟨reply, m', hstep, hm', hyield⟩ := hm.step_sound refs hsound
        refine ⟨hm.current, fun frame garbage hact => ?_, reply, m', hstep,
          (ih hm').mpr (hproper reply m' hstep)⟩
        obtain ⟨hcurrent, a, r, hactive, hr, hctx⟩ := hyield frame garbage hact
        exact ⟨hcurrent, a, reply, m', r, hactive, hstep, hr, hctx⟩

/-- **Nested resumption.**  The runs of any program in which `current` is always the running
routine, every `yield` suspends that routine and returns to the code that has resumed it, and
nothing is undefined, are those in which every call is sound. -/
theorem nesting_lawful_iff (refs : References) (acts : List (Act F K)) :
    Lawful refs ({} : Machine F K) acts ↔ Proper refs ({} : Machine F K) acts :=
  nested_new.lawful_iff acts

/-- A routine resumes another one, which yields; then the first one yields as well. -/
theorem nested_yield_unlawful :
    ∃ m : Machine Nat Unit,
      run .held {} [.create 0, .create 1, .resume 1, .resume 2, .yield () none] = some m ∧
      m.running = 1 ∧ m.o.current = 0 ∧
      m.step .held (.yield () none) = .undefined .indexOutOfRange ∧
      ¬ Lawful .held {} [Act.create 0, .create 1, .resume 1, .resume 2, .yield () none] := by
  refine ⟨_, rfl, rfl, rfl, rfl, ?_⟩
  rintro ⟨-, -, _, _, hstep, -, -, _, _, hstep', -, -, _, _, hstep₂, -, -, _, _, hstep₃, -, -, _, _,
    hstep₄, hlawful⟩
  cases hstep
  cases hstep'
  cases hstep₂
  cases hstep₃
  cases hstep₄
  cases hlawful

end Machine
end Coroutine
end AdvCppHW
