import AdvCppHW.Cpp.Outcome
import Mathlib.Data.List.Basic

/-!
# Coroutines

`coroutines/coroutine.cpp`: the routine table of a thread with `create` and `resume`.  A routine's
function runs in stretches, each from a switch to its context to the next `yield` or to its end;
what a stretch does to the rest of the program is a parameter.  Routines are resumed from outside of
any routine, as the server does.

`entry` keeps one reference into the table for the routine's whole life.  When the table has moved
to new storage in between, what `entry` writes through it at the end does not reach the table.

* `Ordinator.create`, `Ordinator.resume` — the two calls.
* `create_keeps` — a new routine never takes the place of one that has not ended.
* `Consistent` — the queue holds exactly the ids of the routines that have ended, each once;
  what both calls do keeps this.
-/

namespace AdvCppHW
namespace Coroutine

/-- How a stretch of a routine's function ends; `frame` says where it continues. -/
inductive Ended (K : Type) where
  | yielded (frame : K)
  | returned
  | threw (e : Exception)

/-- `Routine::ctx`. -/
inductive Context (K : Type) where
  /-- Set up by `makecontext`: the next switch calls `entry`. -/
  | made
  /-- Saved by `yield`; `bound` is the storage of the table in which `entry` took its reference. -/
  | saved (frame : K) (bound : Nat)
  /-- `entry` has returned. -/
  | ended
deriving DecidableEq

structure Routine (F K : Type) where
  func : F
  finished : Bool := false
  ctx : Context K := .made
  exception : Option Exception := none
deriving DecidableEq

/-- `Ordinator`; `routine_t` ids are positions in `routines` counted from one. -/
structure Ordinator (F K : Type) where
  routines : List (Routine F K) := []
  capacity : Nat := 0
  /-- How often `routines` has moved to new storage. -/
  storage : Nat := 0
  finished : List Nat := []
  current : Nat := 0
deriving DecidableEq

/-- How `resume` ends; `s` is the rest of the program. -/
inductive Resumption (F K σ : Type) where
  /-- It returns false and nothing was run. -/
  | refused
  | returned (o : Ordinator F K) (s : σ)
  | rethrown (e : Exception) (o : Ordinator F K) (s : σ)
  | undefined (why : UndefinedBehaviour)

variable {F K σ : Type}

/-- The frame that a context was saved with. -/
def Context.frame? : Context K → Option K
  | .saved frame _ => some frame
  | _ => none

theorem Context.made_ne_ended : (Context.made : Context K) ≠ .ended := by
  simp

theorem Context.saved_ne_ended (frame : K) (bound : Nat) : Context.saved frame bound ≠ .ended := by
  simp

namespace Routine

/-- `Routine::reset`; the constructor has the same effect. -/
def reset (r : Routine F K) (f : F) : Routine F K :=
  { r with func := f, finished := false, exception := none, ctx := .made }

end Routine

namespace Ordinator

/-- The routine with this id. -/
def routine? (o : Ordinator F K) (id : Nat) : Option (Routine F K) :=
  if id = 0 then none else o.routines[id - 1]?

/-- `routines.emplace_back`: a full vector moves to storage of twice the size. -/
def emplace_back (o : Ordinator F K) (f : F) : Ordinator F K :=
  if o.routines.length = o.capacity then
    { o with routines := o.routines ++ [{ func := f }], capacity := max 1 (2 * o.capacity),
             storage := o.storage + 1 }
  else
    { o with routines := o.routines ++ [{ func := f }] }

/-- `Coroutine::create`. -/
def create (o : Ordinator F K) (f : F) : Nat × Ordinator F K :=
  match o.finished with
  | [] => (o.routines.length + 1, o.emplace_back f)
  | id :: finished =>
      (id, { o with routines := o.routines.modify (id - 1) fun r => r.reset f,
                    finished := finished })

/-- `Coroutine::yield` of routine `id`. -/
def yield (o : Ordinator F K) (id : Nat) (frame : K) (bound : Nat) : Ordinator F K :=
  { o with routines := o.routines.modify (id - 1) fun r => { r with ctx := .saved frame bound },
           current := 0 }

/-- The end of `entry` for routine `id`.  `exception` and `finished` are written through the
reference that was bound in storage `bound`. -/
def finish (o : Ordinator F K) (id : Nat) (bound : Nat) (exception : Option Exception) :
    Ordinator F K :=
  let written (r : Routine F K) : Routine F K :=
    if bound = o.storage then
      { r with finished := true, exception := exception.or r.exception, ctx := .ended }
    else
      { r with ctx := .ended }
  { o with routines := o.routines.modify (id - 1) written, finished := o.finished ++ [id],
           current := 0 }

/-- The table after a stretch of routine `id`. -/
def afterStretch (o : Ordinator F K) (id : Nat) (bound : Nat) : Ended K → Ordinator F K
  | .yielded frame => o.yield id frame bound
  | .returned => o.finish id bound none
  | .threw e => o.finish id bound (some e)

/-- Where a switch to a context continues, and the storage of the reference that `entry` holds. -/
def enter (o : Ordinator F K) : Context K → Option (Option K × Nat)
  | .made => some (none, o.storage)
  | .saved frame bound => some (some frame, bound)
  | .ended => none

/-- `Coroutine::resume`.  `stretch f frame s` runs function `f` from `frame` on (`none`: from its
beginning). -/
def resume (o : Ordinator F K)
    (stretch : F → Option K → σ → Except UndefinedBehaviour (Ended K × σ)) (id : Nat) (s : σ) :
    Resumption F K σ :=
  match o.routine? id with
  | none => .refused
  | some r =>
      if r.finished then
        .refused
      else
        match o.enter r.ctx with
        -- nothing has marked the routine in the table, and yet its function is through
        | none => .undefined .endedContext
        | some (frame, bound) =>
            match stretch r.func frame s with
            | .error why => .undefined why
            | .ok (ended, s') =>
                let o' := o.afterStretch id bound ended
                -- what counts is the table, not how the stretch has ended
                match (o'.routine? id).bind (·.exception) with
                | some e => .rethrown e o' s'
                | none => .returned o' s'

/-- The storage in which `entry` has taken, or takes at the next switch, its reference. -/
def boundIn (o : Ordinator F K) : Context K → Nat
  | .saved _ bound => bound
  | _ => o.storage

theorem enter_of_ne_ended (o : Ordinator F K) {ctx : Context K} (h : ctx ≠ .ended) :
    o.enter ctx = some (ctx.frame?, o.boundIn ctx) := by
  cases ctx with
  | made => rfl
  | saved frame bound => rfl
  | ended => exact absurd rfl h

/-! ## Looking routines up -/

theorem routine?_eq_some {o : Ordinator F K} {id : Nat} {r : Routine F K} :
    o.routine? id = some r ↔ id ≠ 0 ∧ o.routines[id - 1]? = some r := by
  unfold routine?
  split
  · next h => simp [h]
  · next h => simp [h]

theorem routine?_modify_self {o o' : Ordinator F K} {id : Nat} {g : Routine F K → Routine F K}
    (ho' : o'.routines = o.routines.modify (id - 1) g) :
    o'.routine? id = (o.routine? id).map g := by
  unfold routine?
  split
  · rfl
  · rw [ho', List.getElem?_modify_eq, Option.map_eq_map]

theorem routine?_modify_ne {o o' : Ordinator F K} {id j : Nat} {g : Routine F K → Routine F K}
    (hid : id ≠ 0) (hj : j ≠ id) (ho' : o'.routines = o.routines.modify (id - 1) g) :
    o'.routine? j = o.routine? j := by
  unfold routine?
  split
  · rfl
  · next hj0 =>
      have hne : id - 1 ≠ j - 1 := by omega
      rw [ho', List.getElem?_modify_ne _ _ hne]

theorem routines_emplace_back (o : Ordinator F K) (f : F) :
    (o.emplace_back f).routines = o.routines ++ [{ func := f }] := by
  unfold emplace_back
  split
  · rfl
  · rfl

theorem finished_emplace_back (o : Ordinator F K) (f : F) :
    (o.emplace_back f).finished = o.finished := by
  unfold emplace_back
  split
  · rfl
  · rfl

theorem routine?_emplace_back_last (o : Ordinator F K) (f : F) :
    (o.emplace_back f).routine? (o.routines.length + 1) = some { func := f } := by
  rw [routine?_eq_some, routines_emplace_back]
  exact ⟨Nat.succ_ne_zero _, by simp⟩

theorem routine?_emplace_back_of_ne (o : Ordinator F K) (f : F) {j : Nat}
    (hj : j ≠ o.routines.length + 1) : (o.emplace_back f).routine? j = o.routine? j := by
  unfold routine?
  split
  · rfl
  · next hj0 =>
      rw [routines_emplace_back]
      by_cases hlt : j - 1 < o.routines.length
      · rw [List.getElem?_append_left hlt]
      · have hlast : o.routines.length + 1 ≤ j - 1 := by omega
        rw [List.getElem?_eq_none_iff.mpr (Nat.le_of_not_lt hlt), List.getElem?_eq_none_iff]
        simpa using hlast

/-! ## The queue of finished ids -/

/-- The queue holds exactly the ids of the routines whose context has ended, each once, and only
such routines are marked in the table. -/
structure Consistent (o : Ordinator F K) : Prop where
  nodup : o.finished.Nodup
  queued : ∀ id ∈ o.finished, ∃ r, o.routine? id = some r ∧ r.ctx = .ended
  ended : ∀ id r, o.routine? id = some r → r.ctx = .ended → id ∈ o.finished
  finished : ∀ id r, o.routine? id = some r → r.finished = true → r.ctx = .ended
  exception : ∀ id r, o.routine? id = some r → r.exception ≠ none → r.finished = true

theorem consistent_new : Consistent ({} : Ordinator F K) where
  nodup := List.nodup_nil
  queued := nofun
  ended id r h := by simp [routine?] at h
  finished id r h := by simp [routine?] at h
  exception id r h := by simp [routine?] at h

section Consistent

variable {o : Ordinator F K} (ho : Consistent o)
include ho

theorem Consistent.unfinished {id : Nat} {r : Routine F K} (h : o.routine? id = some r)
    (hctx : r.ctx ≠ .ended) : r.finished = false ∧ r.exception = none := by
  have hfinished : r.finished = false := by
    cases hf : r.finished with
    | false => rfl
    | true => exact absurd (ho.finished id r h hf) hctx
  refine ⟨hfinished, ?_⟩
  by_contra hexception
  rw [ho.exception id r h hexception] at hfinished
  cases hfinished

theorem Consistent.notMem_finished {id : Nat} {r : Routine F K} (h : o.routine? id = some r)
    (hctx : r.ctx ≠ .ended) : id ∉ o.finished := by
  intro hid
  obtain ⟨r', hr', hended⟩ := ho.queued id hid
  rw [h] at hr'
  cases hr'
  exact hctx hended

/-! ### Creating -/

/-- `create` makes a routine that runs the given function. -/
theorem routine?_create (f : F) : (o.create f).2.routine? (o.create f).1 = some { func := f } := by
  unfold create
  split
  · exact routine?_emplace_back_last o f
  · next id finished hqueue =>
      obtain ⟨r, hr, -⟩ := ho.queued id (hqueue ▸ List.mem_cons_self)
      rw [routine?_modify_self (o := o) rfl, hr]
      rfl

theorem routine?_create_of_ne (f : F) {j : Nat} (hj : j ≠ (o.create f).1) :
    (o.create f).2.routine? j = o.routine? j := by
  unfold create at hj ⊢
  split
  · next hqueue =>
      simp only [hqueue] at hj
      exact routine?_emplace_back_of_ne o f hj
  · next id finished hqueue =>
      simp only [hqueue] at hj
      obtain ⟨r, hr, -⟩ := ho.queued id (hqueue ▸ List.mem_cons_self)
      exact routine?_modify_ne (routine?_eq_some.mp hr).1 hj rfl

/-- A new routine never takes the id of one that has not ended. -/
theorem create_ne (f : F) {j : Nat} {r : Routine F K} (hj : o.routine? j = some r)
    (hr : r.ctx ≠ .ended) : j ≠ (o.create f).1 := by
  unfold create
  split
  · -- the new id is the first one behind the table
    have hlt : j - 1 < o.routines.length :=
      (List.getElem?_eq_some_iff.mp (routine?_eq_some.mp hj).2).1
    show j ≠ o.routines.length + 1
    omega
  · next id finished hqueue =>
      have hid : id ∈ o.finished := hqueue ▸ List.mem_cons_self
      exact (ne_of_mem_of_not_mem hid (ho.notMem_finished hj hr)).symm

/-- A routine that has not ended keeps its place when another is created. -/
theorem create_keeps (f : F) {j : Nat} {r : Routine F K} (hj : o.routine? j = some r)
    (hr : r.ctx ≠ .ended) : (o.create f).2.routine? j = some r :=
  (routine?_create_of_ne ho f (create_ne ho f hj hr)).trans hj

/-- `create` takes its id from the queue. -/
theorem mem_finished_create (f : F) {j : Nat} :
    j ∈ (o.create f).2.finished ↔ j ∈ o.finished ∧ j ≠ (o.create f).1 := by
  unfold create
  split
  · next hqueue =>
      rw [finished_emplace_back, hqueue]
      simp
  · next id finished hqueue =>
      have hnotin : id ∉ finished := (List.nodup_cons.mp (hqueue ▸ ho.nodup)).1
      rw [hqueue]
      show j ∈ finished ↔ j ∈ id :: finished ∧ j ≠ id
      constructor
      · exact fun hj => ⟨List.mem_cons_of_mem _ hj, ne_of_mem_of_not_mem hj hnotin⟩
      · rintro ⟨hj, hne⟩
        exact (List.mem_cons.mp hj).resolve_left hne

theorem Consistent.create (f : F) : Consistent (o.create f).2 := by
  -- a routine with a property that new routines lack was there before
  have hkept : ∀ {P : Routine F K → Prop} {j : Nat} {r : Routine F K},
      (o.create f).2.routine? j = some r → ¬P { func := f } → P r →
        j ≠ (o.create f).1 ∧ o.routine? j = some r := by
    intro P j r h hnew hP
    have hne : j ≠ (o.create f).1 := by
      rintro rfl
      rw [routine?_create ho f] at h
      cases h
      exact hnew hP
    exact ⟨hne, (routine?_create_of_ne ho f hne) ▸ h⟩
  refine ⟨?_, ?_, ?_, ?_, ?_⟩
  · have hnodup := ho.nodup
    unfold Ordinator.create
    split
    · rwa [finished_emplace_back]
    · next hqueue => exact (List.nodup_cons.mp (hqueue ▸ hnodup)).2
  · intro j hj
    obtain ⟨hold, hne⟩ := (mem_finished_create ho f).mp hj
    obtain ⟨r, hr, hended⟩ := ho.queued j hold
    exact ⟨r, (routine?_create_of_ne ho f hne).trans hr, hended⟩
  · intro j r h hended
    obtain ⟨hne, hold⟩ := hkept (P := fun r => r.ctx = .ended) h nofun hended
    exact (mem_finished_create ho f).mpr ⟨ho.ended j r hold hended, hne⟩
  · intro j r h hfinished
    obtain ⟨-, hold⟩ := hkept (P := fun r => r.finished = true) h nofun hfinished
    exact ho.finished j r hold hfinished
  · intro j r h hexception
    obtain ⟨-, hold⟩ := hkept (P := fun r => r.exception ≠ none) h (fun hne => hne rfl) hexception
    exact ho.exception j r hold hexception

end Consistent

/-! ### Stretches -/

/-- A stretch of one routine leaves the others as they are. -/
theorem routine?_afterStretch_ne {o : Ordinator F K} {id j : Nat} (hid : id ≠ 0) (hj : j ≠ id)
    (bound : Nat) (ended : Ended K) :
    (o.afterStretch id bound ended).routine? j = o.routine? j := by
  cases ended with
  | yielded frame => exact routine?_modify_ne hid hj rfl
  | returned => exact routine?_modify_ne hid hj rfl
  | threw e => exact routine?_modify_ne hid hj rfl

theorem length_afterStretch (o : Ordinator F K) (id bound : Nat) (ended : Ended K) :
    (o.afterStretch id bound ended).routines.length = o.routines.length := by
  cases ended with
  | yielded frame => exact List.length_modify _ _ _
  | returned => exact List.length_modify _ _ _
  | threw e => exact List.length_modify _ _ _

theorem routine?_yield {o : Ordinator F K} {id : Nat} {r : Routine F K} (h : o.routine? id = some r)
    (frame : K) (bound : Nat) :
    (o.yield id frame bound).routine? id = some { r with ctx := .saved frame bound } := by
  rw [routine?_modify_self (o := o) rfl, h]
  rfl

/-- Whatever reaches the table, the context of a routine that is through has ended. -/
theorem routine?_finish {o : Ordinator F K} {id : Nat} {r : Routine F K}
    (h : o.routine? id = some r) (bound : Nat) (exception : Option Exception) :
    (o.finish id bound exception).routine? id = some
      (if bound = o.storage then
        { r with finished := true, exception := exception.or r.exception, ctx := .ended }
      else { r with ctx := .ended }) := by
  rw [routine?_modify_self (o := o) rfl, h]
  rfl

theorem Consistent.finish {o : Ordinator F K} (ho : Consistent o) {id : Nat} {r : Routine F K}
    (h : o.routine? id = some r) (hr : r.ctx ≠ .ended) (bound : Nat)
    (exception : Option Exception) : Consistent (o.finish id bound exception) := by
  have hid : id ≠ 0 := (routine?_eq_some.mp h).1
  have hnotin : id ∉ o.finished := ho.notMem_finished h hr
  have hself := routine?_finish h bound exception
  have hother : ∀ {j}, j ≠ id → (o.finish id bound exception).routine? j = o.routine? j :=
    fun hj => routine?_modify_ne hid hj rfl
  refine ⟨?_, ?_, ?_, ?_, ?_⟩
  · refine List.nodup_append.mpr ⟨ho.nodup, List.pairwise_singleton _ id, ?_⟩
    intro a ha b hb
    rw [List.mem_singleton.mp hb]
    exact ne_of_mem_of_not_mem ha hnotin
  · intro j hj
    rcases List.mem_append.mp hj with hj | hj
    · obtain ⟨r', hr', hended⟩ := ho.queued j hj
      exact ⟨r', (hother (ne_of_mem_of_not_mem hj hnotin)).trans hr', hended⟩
    · cases List.mem_singleton.mp hj
      refine ⟨_, hself, ?_⟩
      split
      · rfl
      · rfl
  · intro j r' h' hended
    by_cases hj : j = id
    · subst hj
      exact List.mem_append_right _ List.mem_cons_self
    · exact List.mem_append_left _ (ho.ended j r' (hother hj ▸ h') hended)
  · intro j r' h' hfinished
    by_cases hj : j = id
    · subst hj
      rw [hself] at h'
      cases h'
      split
      · rfl
      · rfl
    · exact ho.finished j r' (hother hj ▸ h') hfinished
  · intro j r' h' hexception
    by_cases hj : j = id
    · subst hj
      rw [hself] at h'
      cases h'
      split at hexception
      · next hbound => simp only [hbound, if_true]
      · next hbound =>
          simp only [hbound, if_false]
          exact ho.exception j r h hexception
    · exact ho.exception j r' (hother hj ▸ h') hexception

theorem Consistent.yield {o : Ordinator F K} (ho : Consistent o) {id : Nat} {r : Routine F K}
    (h : o.routine? id = some r) (hr : r.ctx ≠ .ended) (frame : K) (bound : Nat) :
    Consistent (o.yield id frame bound) := by
  have hid : id ≠ 0 := (routine?_eq_some.mp h).1
  have hself := routine?_yield h frame bound
  have hother : ∀ {j}, j ≠ id → (o.yield id frame bound).routine? j = o.routine? j :=
    fun hj => routine?_modify_ne hid hj rfl
  obtain ⟨hfinished, hexception⟩ := ho.unfinished h hr
  refine ⟨ho.nodup, ?_, ?_, ?_, ?_⟩
  · intro j hj
    obtain ⟨r', hr', hended⟩ := ho.queued j hj
    exact ⟨r', (hother (ne_of_mem_of_not_mem hj (ho.notMem_finished h hr))).trans hr', hended⟩
  · intro j r' h' hended
    by_cases hj : j = id
    · subst hj
      rw [hself] at h'
      cases h'
      cases hended
    · exact ho.ended j r' (hother hj ▸ h') hended
  · intro j r' h' hf
    by_cases hj : j = id
    · subst hj
      rw [hself] at h'
      cases h'
      rw [hfinished] at hf
      cases hf
    · exact ho.finished j r' (hother hj ▸ h') hf
  · intro j r' h' he
    by_cases hj : j = id
    · subst hj
      rw [hself] at h'
      cases h'
      exact absurd hexception he
    · exact ho.exception j r' (hother hj ▸ h') he

theorem Consistent.afterStretch {o : Ordinator F K} (ho : Consistent o) {id : Nat}
    {r : Routine F K} (h : o.routine? id = some r) (hr : r.ctx ≠ .ended) (bound : Nat)
    (ended : Ended K) : Consistent (o.afterStretch id bound ended) := by
  cases ended with
  | yielded frame => exact ho.yield h hr frame bound
  | returned => exact ho.finish h hr bound none
  | threw e => exact ho.finish h hr bound (some e)

/-! ### Resuming -/

/-- `resume` of a routine that has not ended runs one stretch of it.  An exception of the stretch
comes back if it reached the table. -/
theorem resume_of_unfinished {o : Ordinator F K} (ho : Consistent o) {id : Nat} {r : Routine F K}
    (h : o.routine? id = some r) (hctx : r.ctx ≠ .ended)
    (stretch : F → Option K → σ → Except UndefinedBehaviour (Ended K × σ)) (s : σ) :
    o.resume stretch id s =
      match stretch r.func r.ctx.frame? s with
      | .error why => .undefined why
      | .ok (.threw e, s') =>
          if o.boundIn r.ctx = o.storage then .rethrown e
            (o.finish id (o.boundIn r.ctx) (some e)) s'
          else .returned (o.finish id (o.boundIn r.ctx) (some e)) s'
      | .ok (ended, s') => .returned (o.afterStretch id (o.boundIn r.ctx) ended) s' := by
  obtain ⟨hfinished, hexception⟩ := ho.unfinished h hctx
  have hent := enter_of_ne_ended o hctx
  unfold resume
  simp only [h, hfinished, Bool.false_eq_true, if_false, hent]
  rcases stretch r.func r.ctx.frame? s with why | ⟨ended, s'⟩
  · rfl
  · cases ended with
    | yielded frame' =>
        simp only [afterStretch, routine?_yield h, Option.bind_some, hexception]
    | returned =>
        simp only [afterStretch, routine?_finish h, Option.bind_some]
        split
        · next he => split at he <;> simp [hexception] at he
        · rfl
    | threw e =>
        simp only [afterStretch, routine?_finish h, Option.bind_some]
        by_cases hbound : o.boundIn r.ctx = o.storage
        · simp only [hbound, if_true, Option.some_or]
        · -- the exception was written to storage that the table has left
          simp only [hbound, if_false, hexception]

/-- An id without a routine, or of one that is marked as finished, is refused. -/
theorem resume_refused {o : Ordinator F K} {id : Nat}
    (h : ∀ r, o.routine? id = some r → r.finished = true)
    (stretch : F → Option K → σ → Except UndefinedBehaviour (Ended K × σ)) (s : σ) :
    o.resume stretch id s = .refused := by
  unfold resume
  cases hr : o.routine? id with
  | none => rfl
  | some r => exact if_pos (h r hr)

end Ordinator
end Coroutine
end AdvCppHW
