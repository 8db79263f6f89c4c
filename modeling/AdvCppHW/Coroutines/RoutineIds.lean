import AdvCppHW.Coroutines.Machine

/-!
# Ids of routines

What an id says about its routine.

* `routineIds_safe` — with elements looked up by id, and routines resumed from outside only: the
  queue holds the finished ids, `create` gives no id of a routine that is not through, `resume`
  refuses what it must, and an exception comes back once.
* `completion_recorded_iff` — with the references of the source, in any program: when the end of a
  routine reaches the table.
-/

namespace AdvCppHW
namespace Coroutine
namespace Machine

open Support

variable {F K : Type}

/-! ## Routines resumed from outside -/

/-- Calls of `create` and `resume` are made outside of all routines; a routine yields or ends. -/
def Outside (m : Machine F K) : Act F K → Prop
  | .create _ | .resume _ | .create_and_run _ => m.active = []
  | .yield _ _ | .ends _ _ => m.active ≠ []

/-- At most one routine is active, `current` is that routine, and in the table exactly the routines
that are through are marked. -/
structure Flat (m : Machine F K) : Prop where
  wellFormed : m.WellFormed
  active : m.active = [] ∨ ∃ a, m.active = [a] ∧ m.ctx = 0
  current : m.o.current = m.running
  marked : ∀ id r, m.o.routine? id = some r → r.ctx = .ended → r.finished = true

theorem flat_new : Flat ({} : Machine F K) where
  wellFormed := wellFormed_new
  active := Or.inl rfl
  current := rfl
  marked id r h := by simp [Ordinator.routine?] at h

section Flat

variable {m : Machine F K} (hm : Flat m)
include hm

/-- The queue holds exactly the ids of routines that are marked. -/
theorem Flat.mem_finished_iff (id : Nat) :
    id ∈ m.o.finished ↔ ∃ r, m.o.routine? id = some r ∧ r.finished = true := by
  have ho := hm.wellFormed.consistent
  constructor
  · intro h
    obtain ⟨r, hr, hctx⟩ := ho.queued id h
    exact ⟨r, hr, hm.marked id r hr hctx⟩
  · rintro ⟨r, hr, hfinished⟩
    exact ho.ended id r hr (ho.finished id r hr hfinished)

theorem Flat.created (hactive : m.active = []) (f : F) : Flat (m.created f) where
  wellFormed := hm.wellFormed.created f
  active := Or.inl hactive
  current := (current_create m.o f).trans hm.current
  marked id r h hctx := by
    have ho := hm.wellFormed.consistent
    by_cases hid : id = (m.o.create f).1
    · subst hid
      have hnew : (m.o.create f).2.routine? (m.o.create f).1 = some r := h
      rw [Ordinator.routine?_create ho] at hnew
      cases hnew
      cases hctx
    · have hold : (m.o.create f).2.routine? id = some r := h
      rw [Ordinator.routine?_create_of_ne ho f hid] at hold
      exact hm.marked id r hold hctx

theorem Flat.entered (hactive : m.active = []) {id : Nat} {r : Routine F K} (h : m.Enters id r) :
    Flat (m.entered id r.ctx) where
  wellFormed := hm.wellFormed.entered h
  active := Or.inr ⟨_, by rw [Machine.entered, hactive], by rw [Machine.entered, hactive]; rfl⟩
  current := rfl
  marked := hm.marked

/-- From outside, a routine is entered exactly when it is not marked. -/
theorem Flat.enters (hactive : m.active = []) {id : Nat} {r : Routine F K}
    (h : m.o.routine? id = some r) (hfinished : r.finished = false) : m.Enters id r where
  routine := h
  unfinished := hfinished
  inactive := by
    rw [hactive]
    exact List.not_mem_nil
  ctx := by
    intro hctx
    rw [hm.marked id r h hctx] at hfinished
    cases hfinished

/-- The only active routine yields: its `resume` returns true. -/
theorem Flat.step_yield {a : Active} (hactive : m.active = [a]) (hctx : m.ctx = 0) (frame : K)
    (garbage : Option Exception) :
    ∃ m', m.step .byId (.yield frame garbage) = .ok (.resumed a.id) m' ∧ Flat m' := by
  obtain ⟨hid, r, hr, hended⟩ := hm.wellFormed.head hactive
  have hcurrent : m.o.current = a.id := by rw [hm.current, Machine.running, hactive]; rfl
  obtain ⟨hfinished, hexception⟩ := hm.wellFormed.consistent.unfinished hr hended
  have hself := Ordinator.routine?_yield hr frame a.bound
  refine ⟨{ m with o := m.o.yield a.id frame a.bound, active := [] }, ?_, ?_⟩
  · show m.yield .byId frame garbage = _
    rw [Machine.yield, if_neg (hcurrent ▸ hid), hactive, hcurrent]
    simp only [switchBack_of_eq (show m.ctx = ([] : List Active).length from hctx), exceptionRead,
      References.leadsTo, if_true, hself, Option.bind_some, hexception, answer]
  · have hwellFormed := hm.wellFormed.yield hactive (hcurrent ▸ hid) frame
    rw [hcurrent] at hwellFormed
    refine ⟨hwellFormed, Or.inl rfl, rfl, fun id r' h hctx' => ?_⟩
    by_cases heq : id = a.id
    · subst heq
      have hyield : (m.o.yield a.id frame a.bound).routine? a.id = some r' := h
      rw [hself] at hyield
      cases hyield
      cases hctx'
    · exact hm.marked id r' ((Ordinator.routine?_modify_ne hid heq rfl).symm.trans h) hctx'

/-- The only active routine ends: its `resume` returns true, or throws what has escaped. -/
theorem Flat.step_ends {a : Active} (hactive : m.active = [a]) (hctx : m.ctx = 0)
    (thrown garbage : Option Exception) :
    ∃ m', m.step .byId (.ends thrown garbage) = .ok (answer a.id thrown) m' ∧ Flat m' := by
  obtain ⟨hid, r, hr, hended⟩ := hm.wellFormed.head hactive
  obtain ⟨hfinished, hexception⟩ := hm.wellFormed.consistent.unfinished hr hended
  have hself : (m.o.finish a.id m.o.storage thrown).routine? a.id =
      some { r with finished := true, exception := thrown, ctx := .ended } := by
    rw [Ordinator.routine?_finish hr, if_pos rfl, hexception, Option.or_none]
  refine ⟨{ m with o := m.o.finish a.id m.o.storage thrown, active := [] }, ?_, ?_⟩
  · show m.ends .byId thrown garbage = _
    rw [Machine.ends, hactive]
    simp only [switchBack_of_eq (show m.ctx = ([] : List Active).length from hctx), exceptionRead,
      References.leadsTo, if_true, hself, Option.bind_some]
  · refine ⟨hm.wellFormed.ends hactive m.o.storage thrown, Or.inl rfl, rfl, fun id r' h hctx' => ?_⟩
    by_cases heq : id = a.id
    · subst heq
      have hends : (m.o.finish a.id m.o.storage thrown).routine? a.id = some r' := h
      rw [hself] at hends
      cases hends
      rfl
    · exact hm.marked id r' ((Ordinator.routine?_modify_ne hid heq rfl).symm.trans h) hctx'

end Flat

theorem steps_flat {m m' : Machine F K} {act : Act F K} (hm : Flat m) (hact : Outside m act)
    (h : Steps .byId m act m') : Flat m' := by
  have hresume : ∀ {m m' : Machine F K} {id reply}, Flat m → m.active = [] →
      m.resume id = .ok reply m' → Flat m' := by
    intro m m' id reply hm hactive h
    rcases resume_cases h with ⟨-, -, rfl⟩ | ⟨r, hr, -, rfl⟩
    · exact hm
    · exact hm.entered hactive hr
  obtain ⟨reply, h⟩ := h
  cases act with
  | create f =>
      cases h
      exact hm.created hact f
  | resume id => exact hresume hm hact h
  | create_and_run f => exact hresume (hm.created hact f) hact h
  | yield frame garbage =>
      obtain ⟨a, hactive, hctx⟩ := hm.active.resolve_left hact
      obtain ⟨m₁, hstep, hm₁⟩ := hm.step_yield hactive hctx frame garbage
      rw [hstep] at h
      cases h
      exact hm₁
  | ends thrown garbage =>
      obtain ⟨a, hactive, hctx⟩ := hm.active.resolve_left hact
      obtain ⟨m₁, hstep, hm₁⟩ := hm.step_ends hactive hctx thrown garbage
      rw [hstep] at h
      cases h
      exact hm₁

/-- An id that `create` gives is a new one or that of a marked routine. -/
theorem Flat.create_id {m : Machine F K} (hm : Flat m) (f : F) :
    m.o.routine? (m.o.create f).1 = none ∨
      ∃ r, m.o.routine? (m.o.create f).1 = some r ∧ r.finished = true := by
  have hqueue := hm.mem_finished_iff
  unfold Ordinator.create
  split
  · left
    simp [Ordinator.routine?]
  · next id finished hfinished =>
      right
      exact (hqueue id).mp (hfinished ▸ List.mem_cons_self)

/-- **Routine ids.**  In every run in which routines are created and resumed from outside only: (i)
the queue of finished ids has no duplicates and holds exactly the ids of finished routines, and (v)
`current` is zero outside of all routines.  Every next call is defined, and (ii) an id given by
`create` is new or that of a finished routine, (iii) `resume` refuses an id without an unfinished
routine and changes nothing, and (iv) a call of `resume` throws when, and only when, the routine it
has switched to ends by that exception. -/
theorem routineIds_safe {m : Machine F K} (h : Reaches (Steps .byId) Outside ({} : Machine F K) m) :
    m.o.finished.Nodup ∧
    (∀ id, id ∈ m.o.finished ↔ ∃ r, m.o.routine? id = some r ∧ r.finished = true) ∧
    (m.active = [] → m.o.current = 0) ∧
    ∀ act, Outside m act → ∃ reply m', m.step .byId act = .ok reply m' ∧
      (∀ f, act = .create f → ∃ id, reply = .created id ∧
        (m.o.routine? id = none ∨ ∃ r, m.o.routine? id = some r ∧ r.finished = true)) ∧
      (∀ f, act = .create_and_run f → ∃ id, reply = .entered id ∧
        (m.o.routine? id = none ∨ ∃ r, m.o.routine? id = some r ∧ r.finished = true)) ∧
      (∀ id, act = .resume id → (∀ r, m.o.routine? id = some r → r.finished = true) →
        reply = .refused ∧ m' = m) ∧
      ∀ id e, reply = .rethrown id e ↔
        (∃ a, m.active = [a] ∧ a.id = id) ∧ ∃ garbage, act = .ends (some e) garbage := by
  have hm : Flat m := h.invariant (fun _ _ _ hm hact hstep => steps_flat hm hact hstep) flat_new
  refine ⟨hm.wellFormed.consistent.nodup, hm.mem_finished_iff, fun hactive =>
    ?_, fun act hact => ?_⟩
  · rw [hm.current, running, hactive]
    rfl
  cases act with
  | create f =>
      refine ⟨.created (m.o.create f).1, m.created f, rfl, ?_, ?_, ?_, fun id e => ?_⟩
      · intro f' hf
        cases hf
        exact ⟨_, rfl, hm.create_id f⟩
      · intro f' hf
        cases hf
      · intro id hid
        cases hid
      · exact iff_of_false (by rintro ⟨⟩) (by rintro ⟨-, _, ⟨⟩⟩)
  | resume id =>
      by_cases hrefused : ∀ r, m.o.routine? id = some r → r.finished = true
      · refine ⟨.refused, m, resume_of_refused hrefused, ?_, ?_, fun _ _ _ => ⟨rfl, rfl⟩, ?_⟩
        · intro f hf
          cases hf
        · intro f hf
          cases hf
        · intro id' e
          exact iff_of_false (by rintro ⟨⟩) (by rintro ⟨-, _, ⟨⟩⟩)
      · simp only [not_forall, Bool.not_eq_true] at hrefused
        obtain ⟨r, hr, hfinished⟩ := hrefused
        refine ⟨.entered id, _, resume_of_enters (hm.enters hact hr hfinished), ?_, ?_, ?_, ?_⟩
        · intro f hf
          cases hf
        · intro f hf
          cases hf
        · intro id' hid' hall
          cases hid'
          rw [hall r hr] at hfinished
          cases hfinished
        · intro id' e
          exact iff_of_false (by rintro ⟨⟩) (by rintro ⟨-, _, ⟨⟩⟩)
  | create_and_run f =>
      refine ⟨.entered (m.o.create f).1, _, resume_of_enters (hm.wellFormed.enters_created f),
        ?_, ?_, ?_, ?_⟩
      · intro f' hf
        cases hf
      · intro f' hf
        cases hf
        exact ⟨_, rfl, hm.create_id f⟩
      · intro id hid
        cases hid
      · intro id e
        exact iff_of_false (by rintro ⟨⟩) (by rintro ⟨-, _, ⟨⟩⟩)
  | yield frame garbage =>
      obtain ⟨a, hactive, hctx⟩ := hm.active.resolve_left hact
      obtain ⟨m', hstep, -⟩ := hm.step_yield hactive hctx frame garbage
      refine ⟨.resumed a.id, m', hstep, ?_, ?_, ?_, ?_⟩
      · intro f hf
        cases hf
      · intro f hf
        cases hf
      · intro id hid
        cases hid
      · intro id e
        exact iff_of_false (by rintro ⟨⟩) (by rintro ⟨-, _, ⟨⟩⟩)
  | ends thrown garbage =>
      obtain ⟨a, hactive, hctx⟩ := hm.active.resolve_left hact
      obtain ⟨m', hstep, -⟩ := hm.step_ends hactive hctx thrown garbage
      refine ⟨answer a.id thrown, m', hstep, ?_, ?_, ?_, fun id e => ?_⟩
      · intro f hf
        cases hf
      · intro f hf
        cases hf
      · intro id hid
        cases hid
      cases thrown with
      | none => exact iff_of_false (by rintro ⟨⟩) (by rintro ⟨-, _, ⟨⟩⟩)
      | some e' =>
          constructor
          · intro hreply
            cases hreply
            exact ⟨⟨a, hactive, rfl⟩, garbage, rfl⟩
          · rintro ⟨⟨a', ha', rfl⟩, garbage', hends⟩
            rw [hactive] at ha'
            cases ha'
            cases hends
            rfl

/-- A routine that yields once and ends by an exception; then its id is used again. -/
theorem routineIds_safe_recycled : ∃ m : Machine Nat Unit,
    run .byId {} [.create 0, .resume 1, .yield () none, .resume 1, .ends (some (.other 7)) none] =
      some m ∧
    (1 ∈ m.o.finished) ∧ ∃ m', m.step .byId (.create_and_run 2) = .ok (.entered 1) m' := by
  have hnew : Reaches (Steps .byId) Outside ({} : Machine Nat Unit) {} := .refl
  have hcreated := reaches_step hnew (.create 0) rfl rfl
  have hentered := reaches_step hcreated (.resume 1) rfl rfl
  have hsuspended := reaches_step hentered (.yield () none) (List.cons_ne_nil _ _) rfl
  have hagain := reaches_step hsuspended (.resume 1) rfl rfl
  have hreach := reaches_step hagain (.ends (some (.other 7)) none) (List.cons_ne_nil _ _) rfl
  obtain ⟨-, hqueue, -, -⟩ := routineIds_safe hreach
  exact ⟨_, rfl, (hqueue 1).mpr ⟨_, rfl, rfl⟩, _, rfl⟩

/-! ## Completion with the references of the source -/

/-- The id is not given to a new routine. -/
def NotRecycled (id : Nat) (m : Machine F K) : Act F K → Prop
  | .create f | .create_and_run f => (m.o.create f).1 ≠ id
  | .resume _ | .yield _ _ | .ends _ _ => True

/-- The end of routine `id` is recorded: `resume` answers by the exception that has
escaped, the element is marked and holds the exception, and `resume` refuses the id until
it is given to a new routine. -/
def Recorded (m : Machine F K) (id : Nat) (thrown garbage : Option Exception) : Prop :=
  ∃ m', m.step .held (.ends thrown garbage) = .ok (answer id thrown) m' ∧
    (∃ r, m'.o.routine? id = some r ∧ r.finished = true ∧ r.exception = thrown) ∧
    ∀ m'', Reaches (Steps .held) (NotRecycled id) m' m'' →
      m''.step .held (.resume id) = .ok .refused m''

/-- The routine is marked. -/
structure Marked (id : Nat) (m : Machine F K) : Prop where
  wellFormed : WellFormed m
  marked : ∃ r, m.o.routine? id = some r ∧ r.finished = true

/-- A marked routine is not active. -/
theorem Marked.ne_head {id : Nat} {m : Machine F K} (h : Marked id m) {a : Active}
    {rest : List Active} (hactive : m.active = a :: rest) : a.id ≠ 0 ∧ id ≠ a.id := by
  obtain ⟨hid, r', hr', hctx⟩ := h.wellFormed.head hactive
  refine ⟨hid, ?_⟩
  rintro rfl
  obtain ⟨r, hr, hfinished⟩ := h.marked
  exact hctx
    (h.wellFormed.consistent.finished _ r' hr' (by rw [hr] at hr'; cases hr'; exact hfinished))

/-- A marked routine stays marked until its id is given to a new one. -/
theorem steps_marked {refs : References} {id : Nat} {m m' : Machine F K} {act : Act F K}
    (hm : Marked id m) (hact : NotRecycled id m act) (h : Steps refs m act m') : Marked id m' := by
  refine steps_keeps (fun m f => (m.o.create f).1 ≠ id) ?_ ?_ ?_ ?_ hm ?_ h
  · rintro m f hf ⟨hm, r, hr, hfinished⟩
    exact ⟨hm.created f, r,
      (Ordinator.routine?_create_of_ne hm.consistent f hf.symm).trans hr, hfinished⟩
  · rintro m j r ⟨hm, hmarked⟩ henters
    exact ⟨hm.entered henters, hmarked⟩
  · intro m frame a rest hm hactive hcurrent
    obtain ⟨hid, hother⟩ := hm.ne_head hactive
    obtain ⟨r, hr, hfinished⟩ := hm.marked
    refine ⟨hm.wellFormed.yield hactive hcurrent frame, r, ?_, hfinished⟩
    rw [hm.wellFormed.current_eq hactive hcurrent]
    exact (Ordinator.routine?_modify_ne hid hother rfl).trans hr
  · intro m bound thrown a rest hm hactive
    obtain ⟨hid, hother⟩ := hm.ne_head hactive
    obtain ⟨r, hr, hfinished⟩ := hm.marked
    exact ⟨hm.wellFormed.ends hactive bound thrown, r,
      (Ordinator.routine?_modify_ne hid hother rfl).trans hr, hfinished⟩
  · rintro f (rfl | rfl)
    · exact hact
    · exact hact

/-- **Completion.**  In every run of every program, the end of the running routine is recorded if
and only if the table has not moved since its function was started, and the point in `ordinator.ctx`
is that of the code which has resumed it. -/
theorem completion_recorded_iff {m : Machine F K}
    (h : Reaches (Steps .held) (fun _ _ => True) ({} : Machine F K) m) {a : Active}
    {rest : List Active} (hactive : m.active = a :: rest) (thrown garbage : Option Exception) :
    Recorded m a.id thrown garbage ↔ a.bound = m.o.storage ∧ m.ctx = rest.length := by
  have hm : WellFormed m := reaches_wellFormed h wellFormed_new
  obtain ⟨hid, r, hr, hctx⟩ := hm.head hactive
  obtain ⟨hfinished, hexception⟩ := hm.consistent.unfinished hr hctx
  have hself := Ordinator.routine?_finish hr a.bound thrown
  constructor
  · rintro ⟨m', hstep, ⟨r', hr', hmarked, -⟩, -⟩
    obtain ⟨a', rest', hactive', hback, rfl⟩ := ends_cases hstep
    rw [hactive] at hactive'
    cases hactive'
    refine ⟨?_, hback⟩
    by_contra hmoved
    have hends : (m.o.finish a.id a.bound thrown).routine? a.id = some r' := hr'
    rw [hself, if_neg hmoved] at hends
    cases hends
    rw [hfinished] at hmarked
    cases hmarked
  · rintro ⟨hbound, hback⟩
    obtain ⟨hle, hle'⟩ := hm.bound a (hactive ▸ List.mem_cons_self)
    have hresumed : a.resumed = m.o.storage := Nat.le_antisymm hle' (hbound ▸ hle)
    rw [if_pos hbound, hexception, Option.or_none] at hself
    have hread : exceptionRead .held (m.o.finish a.id a.bound thrown) a garbage = thrown := by
      have hkept : References.held.leadsTo a.resumed (m.o.finish a.id a.bound thrown).storage =
          (m.o.finish a.id a.bound thrown).storage := hresumed
      rw [exceptionRead, if_pos hkept, hself]
      rfl
    have hstep : m.step .held (.ends thrown garbage) =
        .ok (answer a.id thrown)
          { m with o := m.o.finish a.id a.bound thrown, active := rest } := by
      show m.ends .held thrown garbage = _
      rw [Machine.ends, hactive]
      show m.switchBack .held (m.o.finish a.id a.bound thrown) a rest garbage = _
      rw [switchBack_of_eq hback, hread]
    refine ⟨_, hstep, ⟨_, hself, rfl, rfl⟩, fun m'' hreaches => ?_⟩
    obtain ⟨-, r'', hr'', hmarked⟩ : Marked a.id m'' :=
      hreaches.invariant (fun _ _ _ hm hact hstep => steps_marked hm hact hstep)
        ⟨step_wellFormed hm ⟨_, hstep⟩, _, hself, rfl⟩
    refine resume_of_refused fun r₃ h₃ => ?_
    rw [hr''] at h₃
    cases h₃
    exact hmarked

/-- A routine that suspends, another one that is created meanwhile, so that the table moves, and the
end of the first one by an exception. -/
theorem completion_lost : ∃ m m' : Machine Nat Unit,
    run .held {} [.create 0, .resume 1, .yield () none, .create 1, .resume 1] = some m ∧
    m.step .held (.ends (some (.other 7)) none) = .ok (.resumed 1) m' ∧
    ¬ Recorded m 1 (some (.other 7)) none ∧ m'.o.finished = [1] ∧
    m'.step .held (.resume 1) = .undefined .endedContext := by
  refine ⟨_, _, rfl, rfl, ?_, rfl, rfl⟩
  rintro ⟨m', hstep, -⟩
  cases hstep

/-- A routine that suspends and ends while the table stays where it is. -/
theorem completion_recorded_suspended :
    ∃ m : Machine Nat Unit,
      run .held {} [.create 0, .create 1, .resume 1, .yield () none, .resume 1] = some m ∧
      Recorded m 1 (some (.other 7)) none := by
  have hnew : Reaches (Steps .held) (fun _ _ => True) ({} : Machine Nat Unit) {} := .refl
  have hcreated := reaches_step hnew (.create 0) trivial rfl
  have hsecond := reaches_step hcreated (.create 1) trivial rfl
  have hentered := reaches_step hsecond (.resume 1) trivial rfl
  have hsuspended := reaches_step hentered (.yield () none) trivial rfl
  have hreach := reaches_step hsuspended (.resume 1) trivial rfl
  exact ⟨_, rfl, (completion_recorded_iff hreach rfl (some (.other 7)) none).mpr ⟨rfl, rfl⟩⟩

end Machine
end Coroutine
end AdvCppHW
