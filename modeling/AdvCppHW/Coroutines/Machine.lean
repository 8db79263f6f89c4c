import AdvCppHW.Coroutines.Coroutine
import AdvCppHW.Support.Transition

/-!
# Switching between routines

The calls of `coroutines/coroutine.cpp` one at a time, made by whatever code is running: code
outside of all routines, or the function of a routine, which may create and resume routines itself.
What the code does between two calls is left open, so a run of the machine is a run of any program.

There is one `ordinator.ctx` and one `ordinator.current` for all levels of nesting.  `resume` saves
the point of the code that calls it in `ctx`, and both `yield` and the end of `entry` (by `uc_link`)
switch to what `ctx` holds.

* `Machine.step` — one call.
* `WellFormed`, `step_wellFormed` — what holds in every run.
* `resume_stretch` — `Ordinator.resume` is a `resume` followed by the end of the stretch.
-/

namespace AdvCppHW
namespace Coroutine

open Support

variable {F K : Type}

/-- How the references work that `entry` and `resume` hold across a switch. -/
inductive References where
  /-- As in the source: a reference to an element is lost when the table moves. -/
  | held
  /-- The element is looked up by its id at each access. -/
  | byId
deriving DecidableEq

/-- The storage that a reference bound in storage `bound` leads to. -/
def References.leadsTo (refs : References) (bound storage : Nat) : Nat :=
  match refs with
  | held => bound
  | byId => storage

/-- A routine whose function runs, or waits in a call of `resume` for another routine. -/
structure Active where
  /-- `id` of `entry`. -/
  id : Nat
  /-- The storage in which `entry` took its reference. -/
  bound : Nat
  /-- The storage in which the `resume` that has switched to the routine took its reference. -/
  resumed : Nat
deriving DecidableEq

/-- The scheduler and the code that uses it.  Of the `active` routines the first one runs and each
of the others has resumed the one before it; the last one was resumed from outside. -/
structure Machine (F K : Type) where
  o : Ordinator F K := {}
  /-- `ordinator.ctx`: by how many active routines the code was nested
  that saved its point there. -/
  ctx : Nat := 0
  active : List Active := []

/-- A call, or the end of the running function.  `garbage` is what a lost reference reads. -/
inductive Act (F K : Type) where
  | create (f : F)
  | resume (id : Nat)
  | create_and_run (f : F)
  | yield (frame : K) (garbage : Option Exception)
  | ends (thrown : Option Exception) (garbage : Option Exception)

/-- What the call leads to: a return to the caller, or code that goes on in its place. -/
inductive Reply where
  /-- `create` returns. -/
  | created (id : Nat)
  /-- `resume` returns false without a switch. -/
  | refused
  /-- The function of a routine goes on. -/
  | entered (id : Nat)
  /-- The call of `resume` that had switched to this routine returns true. -/
  | resumed (id : Nat)
  /-- That call throws. -/
  | rethrown (id : Nat) (e : Exception)
deriving DecidableEq

inductive Stepped (F K : Type) where
  /-- There is no routine whose function could end. -/
  | impossible
  | undefined (why : UndefinedBehaviour)
  | ok (reply : Reply) (m : Machine F K)

namespace Machine

/-- `current()` as it should be: the id of the routine whose function runs, zero outside. -/
def running (m : Machine F K) : Nat := (m.active.head?.map Active.id).getD 0

/-- `Coroutine::resume` up to the switch. -/
def resume (m : Machine F K) (id : Nat) : Stepped F K :=
  match m.o.routine? id with
  | none => .ok .refused m
  | some r =>
      if r.finished then .ok .refused m
      -- an active routine is not at the point that its context holds
      else if id ∈ m.active.map Active.id then .undefined .usedContext
      else
        match m.o.enter r.ctx with
        | none => .undefined .endedContext
        | some (_, bound) =>
            .ok (.entered id)
              { o := { m.o with current := id }, ctx := m.active.length,
                active := ⟨id, bound, m.o.storage⟩ :: m.active }

/-- What the rest of `resume` finds in `routine.exception`, where `routine` is its reference to the
routine `a` that it had switched to. -/
def exceptionRead (refs : References) (o : Ordinator F K) (a : Active)
    (garbage : Option Exception) : Option Exception :=
  if refs.leadsTo a.resumed o.storage = o.storage then (o.routine? a.id).bind (·.exception)
  else garbage

/-- The rest of `resume`. -/
def answer (id : Nat) : Option Exception → Reply
  | none => .resumed id
  | some e => .rethrown id e

/-- The switch to `ordinator.ctx` when routine `a` leaves the scheduler as `o`, and the rest of the
`resume` that is found there. -/
def switchBack (refs : References) (m : Machine F K) (o : Ordinator F K) (a : Active)
    (rest : List Active) (garbage : Option Exception) : Stepped F K :=
  -- a point saved by code that is not directly below has been left since
  if m.ctx ≠ rest.length then .undefined .usedContext
  else .ok (answer a.id (exceptionRead refs o a garbage)) { m with o := o, active := rest }

/-- `Coroutine::yield`. -/
def yield (refs : References) (m : Machine F K) (frame : K) (garbage : Option Exception) :
    Stepped F K :=
  if m.o.current = 0 then .undefined .indexOutOfRange
  else
    match m.active with
    | [] => .impossible
    | a :: rest => m.switchBack refs (m.o.yield m.o.current frame a.bound) a rest garbage

/-- The rest of `entry` when the routine's function has returned or thrown. -/
def ends (refs : References) (m : Machine F K) (thrown garbage : Option Exception) : Stepped F K :=
  match m.active with
  | [] => .impossible
  | a :: rest =>
      m.switchBack refs (m.o.finish a.id (refs.leadsTo a.bound m.o.storage) thrown) a rest garbage

def step (refs : References) (m : Machine F K) : Act F K → Stepped F K
  | .create f => .ok (.created (m.o.create f).1) { m with o := (m.o.create f).2 }
  | .resume id => m.resume id
  | .create_and_run f => { m with o := (m.o.create f).2 }.resume (m.o.create f).1
  | .yield frame garbage => m.yield refs frame garbage
  | .ends thrown garbage => m.ends refs thrown garbage

/-- Successive calls; `none` when one of them is impossible or undefined. -/
def run (refs : References) (m : Machine F K) : List (Act F K) → Option (Machine F K)
  | [] => some m
  | act :: acts =>
      match m.step refs act with
      | .ok _ m' => m'.run refs acts
      | _ => none

/-- The step relation of the machine. -/
def Steps (refs : References) (m : Machine F K) (act : Act F K) (m' : Machine F K) : Prop :=
  ∃ reply, m.step refs act = .ok reply m'

/-- A run goes on with one more call. -/
theorem reaches_step {refs : References} {admitted : Machine F K → Act F K → Prop}
    {m₀ m m' : Machine F K} (h : Reaches (Steps refs) admitted m₀ m) (act : Act F K)
    (hact : admitted m act) {reply : Reply} (hstep : m.step refs act = .ok reply m') :
    Reaches (Steps refs) admitted m₀ m' :=
  h.tail ⟨act, hact, reply, hstep⟩

/-! ## What each call does -/

/-- The machine behind a call of `create`. -/
def created (m : Machine F K) (f : F) : Machine F K := { m with o := (m.o.create f).2 }

/-- The machine behind the switch to a routine with context `ctx`. -/
def entered (m : Machine F K) (id : Nat) (ctx : Context K) : Machine F K where
  o := { m.o with current := id }
  ctx := m.active.length
  active := ⟨id, m.o.boundIn ctx, m.o.storage⟩ :: m.active

/-- The routine with this id can be switched to. -/
structure Enters (m : Machine F K) (id : Nat) (r : Routine F K) : Prop where
  routine : m.o.routine? id = some r
  unfinished : r.finished = false
  inactive : id ∉ m.active.map Active.id
  ctx : r.ctx ≠ .ended

theorem resume_of_enters {m : Machine F K} {id : Nat} {r : Routine F K} (h : m.Enters id r) :
    m.resume id = .ok (.entered id) (m.entered id r.ctx) := by
  unfold resume
  simp only [h.routine, h.unfinished, Bool.false_eq_true, if_false, if_neg h.inactive,
    Ordinator.enter_of_ne_ended m.o h.ctx]
  rfl

theorem resume_of_refused {m : Machine F K} {id : Nat}
    (h : ∀ r, m.o.routine? id = some r → r.finished = true) : m.resume id = .ok .refused m := by
  unfold resume
  cases hr : m.o.routine? id with
  | none => rfl
  | some r => exact if_pos (h r hr)

/-- A call of `resume` refuses, or switches. -/
theorem resume_cases {m m' : Machine F K} {id : Nat} {reply : Reply}
    (h : m.resume id = .ok reply m') :
    (∀ r, m.o.routine? id = some r → r.finished = true) ∧ reply = .refused ∧ m' = m ∨
      ∃ r, m.Enters id r ∧ reply = .entered id ∧ m' = m.entered id r.ctx := by
  by_cases hrefused : ∀ r, m.o.routine? id = some r → r.finished = true
  · rw [resume_of_refused hrefused] at h
    cases h
    exact Or.inl ⟨hrefused, rfl, rfl⟩
  · simp only [not_forall, Bool.not_eq_true] at hrefused
    obtain ⟨r, hr, hfinished⟩ := hrefused
    unfold resume at h
    simp only [hr, hfinished, Bool.false_eq_true, if_false] at h
    split at h
    · cases h
    · next hinactive =>
        by_cases hctx : r.ctx = .ended
        · rw [hctx] at h
          cases h
        · rw [Ordinator.enter_of_ne_ended m.o hctx] at h
          cases h
          exact Or.inr ⟨r, ⟨hr, hfinished, hinactive, hctx⟩, rfl, rfl⟩

theorem switchBack_of_eq {refs : References} {m : Machine F K} {o : Ordinator F K} {a : Active}
    {rest : List Active} (h : m.ctx = rest.length) (garbage : Option Exception) :
    m.switchBack refs o a rest garbage =
      .ok (answer a.id (exceptionRead refs o a garbage)) { m with o := o, active := rest } :=
  if_neg (not_not.mpr h)

/-- A switch back succeeds only to the code directly below. -/
theorem switchBack_cases {refs : References} {m m' : Machine F K} {o : Ordinator F K} {a : Active}
    {rest : List Active} {garbage : Option Exception} {reply : Reply}
    (h : m.switchBack refs o a rest garbage = .ok reply m') :
    m.ctx = rest.length ∧ reply = answer a.id (exceptionRead refs o a garbage) ∧
      m' = { m with o := o, active := rest } := by
  by_cases hctx : m.ctx = rest.length
  · rw [switchBack_of_eq hctx] at h
    cases h
    exact ⟨hctx, rfl, rfl⟩
  · rw [switchBack, if_pos hctx] at h
    cases h

theorem yield_cases {refs : References} {m m' : Machine F K} {frame : K}
    {garbage : Option Exception} {reply : Reply} (h : m.yield refs frame garbage = .ok reply m') :
    m.o.current ≠ 0 ∧ ∃ a rest, m.active = a :: rest ∧ m.ctx = rest.length ∧
      m' = { m with o := m.o.yield m.o.current frame a.bound, active := rest } := by
  unfold yield at h
  by_cases hcurrent : m.o.current = 0
  · rw [if_pos hcurrent] at h
    cases h
  · rw [if_neg hcurrent] at h
    cases hactive : m.active with
    | nil =>
        rw [hactive] at h
        cases h
    | cons a rest =>
        rw [hactive] at h
        obtain ⟨hctx, -, hm'⟩ := switchBack_cases h
        exact ⟨hcurrent, a, rest, rfl, hctx, hm'⟩

theorem ends_cases {refs : References} {m m' : Machine F K} {thrown garbage : Option Exception}
    {reply : Reply} (h : m.ends refs thrown garbage = .ok reply m') :
    ∃ a rest, m.active = a :: rest ∧ m.ctx = rest.length ∧
      m' = { m with
        o := m.o.finish a.id (refs.leadsTo a.bound m.o.storage) thrown, active := rest } := by
  unfold ends at h
  cases hactive : m.active with
  | nil =>
      rw [hactive] at h
      cases h
  | cons a rest =>
      rw [hactive] at h
      obtain ⟨hctx, -, hm'⟩ := switchBack_cases h
      exact ⟨a, rest, rfl, hctx, hm'⟩

/-- What the parts of a step keep, every step keeps; `fresh` is what is known of the calls of
`create`. -/
theorem steps_keeps {refs : References} {inv : Machine F K → Prop} (fresh : Machine F K → F → Prop)
    (hcreate : ∀ m f, fresh m f → inv m → inv (m.created f))
    (henter : ∀ m id r, inv m → m.Enters id r → inv (m.entered id r.ctx))
    (hyield : ∀ m frame a rest, inv m → m.active = a :: rest → m.o.current ≠ 0 →
      inv { m with o := m.o.yield m.o.current frame a.bound, active := rest })
    (hends : ∀ m bound thrown a rest, inv m → m.active = a :: rest →
      inv { m with o := m.o.finish a.id bound thrown, active := rest })
    {m m' : Machine F K} {act : Act F K} (hm : inv m)
    (hact : ∀ f, act = .create f ∨ act = .create_and_run f → fresh m f) (h : Steps refs m act m') :
    inv m' := by
  have hresume : ∀ {m m' : Machine F K} {id reply}, inv m → m.resume id = .ok reply m' →
      inv m' := by
    intro m m' id reply hm h
    rcases resume_cases h with ⟨-, -, rfl⟩ | ⟨r, hr, -, rfl⟩
    · exact hm
    · exact henter m id r hm hr
  obtain ⟨reply, h⟩ := h
  cases act with
  | create f =>
      cases h
      exact hcreate m f (hact f (Or.inl rfl)) hm
  | resume id => exact hresume hm h
  | create_and_run f => exact hresume (hcreate m f (hact f (Or.inr rfl)) hm) h
  | yield frame garbage =>
      obtain ⟨hcurrent, a, rest, hactive, -, rfl⟩ := yield_cases h
      exact hyield m frame a rest hm hactive hcurrent
  | ends thrown garbage =>
      obtain ⟨a, rest, hactive, -, rfl⟩ := ends_cases h
      exact hends m _ thrown a rest hm hactive

/-! ## Every run -/

/-- What holds in every run: the scheduler is consistent, every active routine has an element of its
own that has not ended, references lead to storage that the table has had, and `current` is the
running routine unless it is zero. -/
structure WellFormed (m : Machine F K) : Prop where
  consistent : m.o.Consistent
  nodup : (m.active.map Active.id).Nodup
  alive : ∀ a ∈ m.active, ∃ r, m.o.routine? a.id = some r ∧ r.ctx ≠ .ended
  bound : ∀ a ∈ m.active, a.bound ≤ a.resumed ∧ a.resumed ≤ m.o.storage
  saved : ∀ id r frame bound, m.o.routine? id = some r → r.ctx = .saved frame bound →
    bound ≤ m.o.storage
  current : m.o.current = 0 ∨ m.o.current = m.running

theorem wellFormed_new : WellFormed ({} : Machine F K) where
  consistent := Ordinator.consistent_new
  nodup := List.nodup_nil
  alive a h := by cases h
  bound a h := by cases h
  saved id r frame bound h := by simp [Ordinator.routine?] at h
  current := Or.inl rfl

theorem storage_create_le (o : Ordinator F K) (f : F) : o.storage ≤ (o.create f).2.storage := by
  unfold Ordinator.create
  split
  · unfold Ordinator.emplace_back
    split
    · exact Nat.le_succ _
    · exact Nat.le_refl _
  · exact Nat.le_refl _

theorem current_create (o : Ordinator F K) (f : F) : (o.create f).2.current = o.current := by
  unfold Ordinator.create
  split
  · unfold Ordinator.emplace_back
    split
    · rfl
    · rfl
  · rfl

section WellFormed

variable {m : Machine F K} (hm : WellFormed m)
include hm

theorem WellFormed.created (f : F) : WellFormed (m.created f) where
  consistent := hm.consistent.create f
  nodup := hm.nodup
  alive a ha := by
    obtain ⟨r, hr, hctx⟩ := hm.alive a ha
    exact ⟨r, Ordinator.create_keeps hm.consistent f hr hctx, hctx⟩
  bound a ha := by
    obtain ⟨hbound, hresumed⟩ := hm.bound a ha
    exact ⟨hbound, Nat.le_trans hresumed (storage_create_le m.o f)⟩
  saved id r frame bound h hctx := by
    by_cases hid : id = (m.o.create f).1
    · subst hid
      have hnew : (m.o.create f).2.routine? (m.o.create f).1 = some r := h
      rw [Ordinator.routine?_create hm.consistent] at hnew
      cases hnew
      cases hctx
    · have hold : (m.o.create f).2.routine? id = some r := h
      rw [Ordinator.routine?_create_of_ne hm.consistent f hid] at hold
      exact Nat.le_trans (hm.saved id r frame bound hold hctx) (storage_create_le m.o f)
  current := by
    have hcurrent := hm.current
    rwa [← current_create m.o f] at hcurrent

/-- A new routine can be switched to at once. -/
theorem WellFormed.enters_created (f : F) :
    (m.created f).Enters (m.o.create f).1 { func := f } where
  routine := Ordinator.routine?_create hm.consistent f
  unfinished := rfl
  inactive := by
    intro h
    obtain ⟨a, ha, hid⟩ := List.mem_map.mp h
    obtain ⟨r, hr, hctx⟩ := hm.alive a ha
    exact Ordinator.create_ne hm.consistent f hr hctx hid
  ctx h := by cases h

theorem WellFormed.entered {id : Nat} {r : Routine F K} (h : m.Enters id r) :
    WellFormed (m.entered id r.ctx) where
  consistent :=
    ⟨hm.consistent.nodup, hm.consistent.queued, hm.consistent.ended, hm.consistent.finished,
      hm.consistent.exception⟩
  nodup := List.nodup_cons.mpr ⟨h.inactive, hm.nodup⟩
  alive a ha := by
    rcases List.mem_cons.mp ha with rfl | ha
    · exact ⟨r, h.routine, h.ctx⟩
    · exact hm.alive a ha
  bound a ha := by
    rcases List.mem_cons.mp ha with rfl | ha
    · refine ⟨?_, Nat.le_refl _⟩
      show m.o.boundIn r.ctx ≤ m.o.storage
      cases hctx : r.ctx with
      | saved frame bound => exact hm.saved id r frame bound h.routine hctx
      | made => exact Nat.le_refl _
      | ended => exact Nat.le_refl _
    · exact hm.bound a ha
  saved := hm.saved
  current := Or.inr rfl

/-- Active routines behind the running one are other routines. -/
theorem WellFormed.ne_of_mem_rest {a b : Active} {rest : List Active}
    (hactive : m.active = a :: rest) (hb : b ∈ rest) : b.id ≠ a.id := by
  have hnodup := hm.nodup
  rw [hactive, List.map_cons, List.nodup_cons] at hnodup
  intro heq
  exact hnodup.1 (heq ▸ List.mem_map.mpr ⟨b, hb, rfl⟩)

/-- What is left of an active list when routine `a` leaves the scheduler as `o` and the elements of
other routines as they are. -/
theorem WellFormed.back {a : Active} {rest : List Active} (hactive : m.active = a :: rest)
    {o : Ordinator F K} (ho : o.Consistent) (hstorage : o.storage = m.o.storage)
    (hother : ∀ {j}, j ≠ a.id → o.routine? j = m.o.routine? j)
    (hself : ∀ r frame bound, o.routine? a.id = some r → r.ctx = .saved frame bound →
      bound = a.bound)
    (hcurrent : o.current = 0) : WellFormed { m with o := o, active := rest } where
  consistent := ho
  nodup := by
    have hnodup := hm.nodup
    rw [hactive, List.map_cons, List.nodup_cons] at hnodup
    exact hnodup.2
  alive b hb := by
    obtain ⟨r, hr, hctx⟩ := hm.alive b (hactive ▸ List.mem_cons_of_mem a hb)
    exact ⟨r, (hother (hm.ne_of_mem_rest hactive hb)).trans hr, hctx⟩
  bound b hb := by
    have hbound := hm.bound b (hactive ▸ List.mem_cons_of_mem a hb)
    rwa [← hstorage] at hbound
  saved id r frame bound h hctx := by
    show bound ≤ o.storage
    rw [hstorage]
    by_cases hid : id = a.id
    · subst hid
      obtain ⟨hle, hle'⟩ := hm.bound a (hactive ▸ List.mem_cons_self)
      rw [hself r frame bound h hctx]
      exact Nat.le_trans hle hle'
    · exact hm.saved id r frame bound ((hother hid).symm.trans h) hctx
  current := Or.inl hcurrent

theorem WellFormed.head {a : Active} {rest : List Active} (hactive : m.active = a :: rest) :
    a.id ≠ 0 ∧ ∃ r, m.o.routine? a.id = some r ∧ r.ctx ≠ .ended := by
  obtain ⟨r, hr, hctx⟩ := hm.alive a (hactive ▸ List.mem_cons_self)
  exact ⟨(Ordinator.routine?_eq_some.mp hr).1, r, hr, hctx⟩

/-- A `current` that is not zero is the routine that runs. -/
theorem WellFormed.current_eq {a : Active} {rest : List Active} (hactive : m.active = a :: rest)
    (hcurrent : m.o.current ≠ 0) : m.o.current = a.id := by
  have hrunning := hm.current.resolve_left hcurrent
  rwa [Machine.running, hactive] at hrunning

theorem WellFormed.yield {a : Active} {rest : List Active} (hactive : m.active = a :: rest)
    (hcurrent : m.o.current ≠ 0) (frame : K) :
    WellFormed { m with o := m.o.yield m.o.current frame a.bound, active := rest } := by
  obtain ⟨hid, r, hr, hctx⟩ := hm.head hactive
  rw [hm.current_eq hactive hcurrent]
  refine hm.back hactive (hm.consistent.yield hr hctx frame a.bound) rfl
    (fun hj => Ordinator.routine?_modify_ne hid hj rfl) ?_ rfl
  intro r' frame' bound h hsaved
  rw [Ordinator.routine?_yield hr] at h
  cases h
  cases hsaved
  rfl

theorem WellFormed.ends {a : Active} {rest : List Active} (hactive : m.active = a :: rest)
    (bound : Nat) (thrown : Option Exception) :
    WellFormed { m with o := m.o.finish a.id bound thrown, active := rest } := by
  obtain ⟨hid, r, hr, hctx⟩ := hm.head hactive
  refine hm.back hactive (hm.consistent.finish hr hctx bound thrown) rfl
    (fun hj => Ordinator.routine?_modify_ne hid hj rfl) ?_ rfl
  intro r' frame bound' h hsaved
  rw [Ordinator.routine?_finish hr] at h
  cases h
  split at hsaved
  · cases hsaved
  · cases hsaved

end WellFormed

theorem step_wellFormed {refs : References} {m m' : Machine F K} {act : Act F K} (hm : WellFormed m)
    (h : Steps refs m act m') : WellFormed m' :=
  steps_keeps (fun _ _ => True) (fun _ f _ hm => hm.created f) (fun _ _ _ hm h => hm.entered h)
    (fun _ frame _ _ hm hactive hcurrent => hm.yield hactive hcurrent frame)
    (fun _ bound thrown _ _ hm hactive => hm.ends hactive bound thrown) hm (fun _ _ => trivial) h

theorem reaches_wellFormed {refs : References} {admitted : Machine F K → Act F K → Prop}
    {m m' : Machine F K} (h : Reaches (Steps refs) admitted m m') (hm : WellFormed m) :
    WellFormed m' :=
  h.invariant (fun _ _ _ hm _ hstep => step_wellFormed hm hstep) hm

/-! ## Whole stretches -/

/-- The call that ends a stretch. -/
def endOfStretch (garbage : Option Exception) : Ended K → Act F K
  | .yielded frame => .yield frame garbage
  | .returned => .ends none garbage
  | .threw e => .ends (some e) garbage

/-- A routine entered from outside ends its stretch: the table is that of `afterStretch`, and
`resume` answers by what it finds there. -/
theorem step_endOfStretch {m : Machine F K} {id : Nat} {r : Routine F K} (h : m.Enters id r)
    (houtside : m.active = []) (garbage : Option Exception) (ended : Ended K) :
    (m.entered id r.ctx).step .held (endOfStretch garbage ended) =
      .ok (answer id (((m.o.afterStretch id (m.o.boundIn r.ctx) ended).routine? id).bind
        (·.exception)))
        { o := m.o.afterStretch id (m.o.boundIn r.ctx) ended, ctx := 0, active := [] } := by
  have hid : id ≠ 0 := (Ordinator.routine?_eq_some.mp h.routine).1
  have hactive : (m.entered id r.ctx).active = [⟨id, m.o.boundIn r.ctx, m.o.storage⟩] := by
    rw [Machine.entered, houtside]
  have hctx : (m.entered id r.ctx).ctx = ([] : List Active).length := by
    rw [Machine.entered, houtside]
  have hzero : m.active.length = 0 := by rw [houtside]; rfl
  cases ended with
  | yielded frame =>
      show (m.entered id r.ctx).yield .held frame garbage = _
      rw [Machine.yield, if_neg (by exact hid)]
      simp only [hactive, switchBack_of_eq hctx]
      simp only [exceptionRead, References.leadsTo, Machine.entered, Ordinator.yield,
        Ordinator.afterStretch, if_true, hzero]
  | returned =>
      show (m.entered id r.ctx).ends .held none garbage = _
      rw [Machine.ends]
      simp only [hactive, switchBack_of_eq hctx]
      simp only [exceptionRead, References.leadsTo, Machine.entered, Ordinator.finish,
        Ordinator.afterStretch, if_true, hzero]
  | threw e =>
      show (m.entered id r.ctx).ends .held (some e) garbage = _
      rw [Machine.ends]
      simp only [hactive, switchBack_of_eq hctx]
      simp only [exceptionRead, References.leadsTo, Machine.entered, Ordinator.finish,
        Ordinator.afterStretch, if_true, hzero]

/-- **One stretch.**  Outside of all routines `Ordinator.resume` is a call of `resume` followed,
when it switches, by the end of the stretch. -/
theorem resume_stretch {σ : Type} {m : Machine F K} (houtside : m.active = []) (id : Nat)
    (stretch : F → Option K → σ → Except UndefinedBehaviour (Ended K × σ)) (s : σ)
    (garbage : Option Exception) :
    m.o.resume stretch id s =
      match m.resume id with
      | .impossible => .refused
      | .undefined why => .undefined why
      | .ok .refused _ => .refused
      | .ok _ m₁ =>
          match (m.o.routine? id).map fun r => stretch r.func r.ctx.frame? s with
          | none => .refused
          | some (.error why) => .undefined why
          | some (.ok (ended, s')) =>
              match m₁.step .held (endOfStretch garbage ended) with
              | .ok (.rethrown _ e) m₂ => .rethrown e m₂.o s'
              | .ok _ m₂ => .returned m₂.o s'
              | .undefined why => .undefined why
              | .impossible => .refused := by
  cases hr : m.o.routine? id with
  | none =>
      have hrefused : m.resume id = .ok .refused m :=
        resume_of_refused fun r h => by rw [hr] at h; cases h
      rw [hrefused, Ordinator.resume, hr]
  | some r =>
      cases hfinished : r.finished with
      | true =>
          have hrefused : m.resume id = .ok .refused m := resume_of_refused fun r' h => by
            rw [hr] at h
            cases h
            exact hfinished
          rw [hrefused, Ordinator.resume, hr]
          exact if_pos hfinished
      | false =>
          have hinactive : id ∉ m.active.map Active.id := by
            rw [houtside]
            exact List.not_mem_nil
          by_cases hctx : r.ctx = .ended
          · unfold Machine.resume Ordinator.resume
            simp only [hr, hfinished, Bool.false_eq_true, if_false, if_neg hinactive, hctx]
            rfl
          · have henters : m.Enters id r := ⟨hr, hfinished, hinactive, hctx⟩
            rw [resume_of_enters henters, Ordinator.resume, hr]
            simp only [hfinished, Bool.false_eq_true, if_false,
              Ordinator.enter_of_ne_ended m.o hctx, Option.map_some]
            rcases stretch r.func r.ctx.frame? s with why | ⟨ended, s'⟩
            · rfl
            · simp only [step_endOfStretch henters houtside]
              cases ((m.o.afterStretch id (m.o.boundIn r.ctx) ended).routine? id).bind
                (·.exception) with
              | none => rfl
              | some e => rfl

end Machine
end Coroutine
end AdvCppHW
