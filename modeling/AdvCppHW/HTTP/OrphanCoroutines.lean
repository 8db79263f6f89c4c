import AdvCppHW.HTTP.ClosedConnections
import Mathlib.Tactic.Choose
import Mathlib.Data.List.Nodup

/-!
# Orphaned coroutines

A routine that has not ended and that no client refers to is never resumed nor reused, and its stack
is never given back.  Three ways lead there: an event that finds nothing to read, a client that
times out with its coroutine suspended, and an id that is reused while a client still refers to it.

* `NoOrphans` — every routine is queued for reuse or is that of one client; `Observed` — a run with
  the largest number of open connections so far.
* `LeavesNoOrphan` — the condition on the steps; `step_placed` — what they keep.
* `no_orphans` — the invariant over whole runs, with the bound on the number of routines;
  `empty_wakeup_orphans` — two routines for one client.
-/

namespace AdvCppHW
namespace HTTP

open Coroutine ThreadWork Worker

/-- Every routine is queued for reuse, or is the coroutine of exactly one client. -/
def NoOrphans (w : Worker) : Prop :=
  ∀ id r, w.ordinator.routine? id = some r → id ∈ w.ordinator.finished ∨
    ∃! fd, fd ∈ w.work.m_connections ∧ w.work.m_coroutines.lookup fd = some id

/-- The descriptors of the open connections. -/
def openFds (t : ThreadWork) : List Int :=
  (t.m_connections.entries.filter fun i => i.2.conn.isOpened).map Prod.fst

/-- A worker in its loop, and the largest number of connections that were open at once so far. -/
structure Observed where
  running : Running := {}
  peak : Nat := 0

def Observed.Step (server : BaseHTTPServer) (s : Observed) (act : Act) (s' : Observed) : Prop :=
  s.running.Step server act s'.running ∧
    s'.peak = max s.peak (openFds s'.running.worker.work).length

/-! ## The condition -/

/-- The event resumes a coroutine that waits in `readRequest` with an empty buffer, and there is
nothing to read. -/
def FindsNothing (w : Worker) (fd : Int) (script : Script) : Prop :=
  ∃ el id r, w.work.m_connections.lookup fd = some el ∧ w.work.m_coroutines.lookup fd = some id ∧
    w.ordinator.routine? id = some r ∧ r.finished = false ∧ frame r = .reading ∧
    el.conn.m_buffer = [] ∧ gathered script.reads = ([], .wouldBlock)

/-- After the event the client needs a new coroutine: its own has ended before, serves a request, or
fails to read the first byte of one while `entry` writes to storage that the table has left. -/
def NeedsCoroutine (w : Worker) (fd : Int) (script : Script) : Prop :=
  ∃ el id r, w.work.m_connections.lookup fd = some el ∧ w.work.m_coroutines.lookup fd = some id ∧
    w.ordinator.routine? id = some r ∧
    (el.conn.m_buffer = [] ∧ (r.finished = true ∨ w.ordinator.boundIn r.ctx ≠ w.ordinator.storage ∧
        frame r = .reading ∧ gathered script.reads = ([], .failed)) ∨
      r.finished = false ∧ CanServe el.conn.m_buffer script (frame r))

/-- No other client refers to the id that `create` is going to take from the queue. -/
def NextIdIsFree (w : Worker) (fd : Int) : Prop :=
  ∀ id rest, w.ordinator.finished = id :: rest → ∀ j, w.work.m_coroutines.lookup j = some id →
    j = fd

/-- The condition under which a step leaves no orphan: only clients whose coroutines have
ended are dropped for being idle, an event finds something to read, and a new coroutine
gets an id that is free. -/
def LeavesNoOrphan (server : BaseHTTPServer) (s : Running) : Act → Prop
  | .drop _ clock => ∀ fd ∈ timedOut server clock s.worker.work.m_idleTime.entries,
      ∀ id, s.worker.work.m_coroutines.lookup fd = some id → id ∈ s.worker.ordinator.finished
  | .handle env => ∀ ready rest, s.point = .handling (ready :: rest) →
      if ready.fd = server.m_socket.m_fd then
        0 ≤ env.accepted.fd → env.added = true → NextIdIsFree s.worker env.accepted.fd
      else
        ¬FindsNothing s.worker ready.fd env.script ∧
          (NeedsCoroutine s.worker ready.fd env.script → NextIdIsFree s.worker ready.fd)
  | _ => True

/-! ## The invariant -/

/-- A client whose coroutine was made for it, or that could not be registered.  While
the coroutine has not ended the connection is open, and a request that is being answered
is still in the buffer. -/
def View.Holding (o : Ordinator ConnectionRef Frame) (fd : Int) (v : View) : Prop :=
  ∃ el, el.conn.m_socket.m_fd = fd ∧ (v = ⟨some el, none, false⟩ ∨
    ∃ id r, v = ⟨some el, some id, true⟩ ∧ o.routine? id = some r ∧ r.func = ⟨fd, el.uid⟩ ∧
      (r.ctx ≠ .ended → el.conn.m_opened = true ∧ (frame r ≠ .reading → el.conn.m_buffer ≠ [])))

theorem seated_holding : ClientProperty.Seated View.Holding := by
  rintro o fd v ⟨el, hsock, rfl | ⟨id, r, rfl, -⟩⟩
  · exact ⟨el, rfl, hsock⟩
  · exact ⟨el, rfl, hsock⟩

/-- Two clients have two ids, and the routines that have not ended are those of clients. -/
structure Placed (w : Worker) : Prop where
  distinct : ∀ fd fd' id, w.work.m_coroutines.lookup fd = some id →
    w.work.m_coroutines.lookup fd' = some id → fd = fd'
  covered : ∀ id r, w.ordinator.routine? id = some r → r.ctx ≠ .ended →
    ∃ fd, w.work.m_coroutines.lookup fd = some id

/-- What holds of the worker in every state of a run. -/
structure WorkerPlaced (w : Worker) : Prop where
  each : Each View.Holding w
  consistent : w.ordinator.Consistent
  placed : Placed w

theorem placed_new : Placed {} where
  distinct fd fd' id h := by cases h
  covered id r h := by simp [Ordinator.routine?] at h

theorem routine_of_sameBut {fd : Int} {t t' : ThreadWork} (h : SameBut fd t t') {j : Int}
    (hj : j ≠ fd) : t'.m_coroutines.lookup j = t.m_coroutines.lookup j :=
  congrArg View.routine (h j hj)

/-- What has to be shown when all descriptors but one keep their tables. -/
theorem Placed.but {w : Worker} (h : Placed w) (w' : Worker) {fd : Int}
    (hsame : SameBut fd w.work w'.work)
    (hdistinct : ∀ id, w'.work.m_coroutines.lookup fd = some id →
      ∀ j, j ≠ fd → w.work.m_coroutines.lookup j ≠ some id)
    (hcovered : ∀ id r, w'.ordinator.routine? id = some r → r.ctx ≠ .ended →
      w'.work.m_coroutines.lookup fd = some id ∨
        ∃ j, j ≠ fd ∧ w.work.m_coroutines.lookup j = some id) : Placed w' where
  distinct j j' id hj hj' := by
    by_cases hfd : j = fd
    · subst hfd
      by_contra hne
      rw [routine_of_sameBut hsame (Ne.symm hne)] at hj'
      exact hdistinct id hj j' (Ne.symm hne) hj'
    · rw [routine_of_sameBut hsame hfd] at hj
      by_cases hfd' : j' = fd
      · subst hfd'
        exact absurd hj (hdistinct id hj' j hfd)
      · rw [routine_of_sameBut hsame hfd'] at hj'
        exact h.distinct j j' id hj hj'
  covered id r hr hctx := by
    rcases hcovered id r hr hctx with hself | ⟨j, hj, hother⟩
    · exact ⟨fd, hself⟩
    · exact ⟨j, (routine_of_sameBut hsame hj).trans hother⟩

/-- What has to be shown when the tables keep the client's coroutine, too. -/
theorem Placed.unchanged {w : Worker} (h : Placed w) (w' : Worker) {fd : Int} {id : Nat}
    (hsame : SameBut fd w.work w'.work) (hid : w.work.m_coroutines.lookup fd = some id)
    (hnew : w'.work.m_coroutines.lookup fd = some id)
    (hcovered : ∀ id' r, w'.ordinator.routine? id' = some r → r.ctx ≠ .ended →
      id' = id ∨ ∃ j, j ≠ fd ∧ w.work.m_coroutines.lookup j = some id') : Placed w' := by
  refine h.but w' hsame (fun id' hid' j hj hold => ?_) fun id' r hr hctx => ?_
  · rw [hnew] at hid'
    cases hid'
    exact hj (h.distinct j fd id hold hid)
  · refine (hcovered id' r hr hctx).imp_left ?_
    rintro rfl
    exact hnew

/-! ## Routines of other clients -/

/-- The routine table `o'` holds what the worker's holds about the routines
of all clients but one. -/
def KeepsHeld (fd : Int) (w : Worker) (o' : Ordinator ConnectionRef Frame) : Prop :=
  ∀ j, j ≠ fd → ∀ id, w.work.m_coroutines.lookup j = some id →
    o'.routine? id = w.ordinator.routine? id

theorem KeepsHeld.holding {fd : Int} {w : Worker} {o' : Ordinator ConnectionRef Frame}
    (h : KeepsHeld fd w o') (j : Int) (hj : j ≠ fd)
    (hv : View.Holding w.ordinator j (w.work.view j)) : View.Holding o' j (w.work.view j) := by
  obtain ⟨el, hsock, hview | ⟨id, r, hview, hr, hrest⟩⟩ := hv
  · exact ⟨el, hsock, Or.inl hview⟩
  · have hid : w.work.m_coroutines.lookup j = some id := congrArg View.routine hview
    exact ⟨el, hsock, Or.inr ⟨id, r, hview, (h j hj id hid).trans hr, hrest⟩⟩

theorem KeepsHeld.create {fd : Int} {w : Worker} {o' : Ordinator ConnectionRef Frame}
    (h : KeepsHeld fd w o') (ho : o'.Consistent) (f : ConnectionRef)
    (hfree : ∀ j, w.work.m_coroutines.lookup j = some (o'.create f).1 → j = fd) :
    KeepsHeld fd w (o'.create f).2 := by
  intro j hj id hid
  have hne : id ≠ (o'.create f).1 := by
    rintro rfl
    exact hj (hfree j hid)
  rw [Ordinator.routine?_create_of_ne ho f hne, h j hj id hid]

/-! ## A stretch of a client's own coroutine -/

/-- The routine has ended. -/
def EndedIn (o : Ordinator ConnectionRef Frame) (id : Nat) : Prop :=
  ∀ r, o.routine? id = some r → r.ctx = .ended

section Stretch

variable {w : Worker} {fd : Int} {id : Nat} {r : Routine ConnectionRef Frame}
  (hplaced : Placed w) (hid : w.work.m_coroutines.lookup fd = some id)

include hplaced hid in
/-- A stretch of a client's coroutine leaves those of all other clients as they are. -/
theorem keepsHeld_afterStretch (hr : w.ordinator.routine? id = some r) (bound : Nat)
    (ended : Ended Frame) : KeepsHeld fd w (w.ordinator.afterStretch id bound ended) := by
  intro j hj id' hid'
  refine Ordinator.routine?_afterStretch_ne (Ordinator.routine?_eq_some.mp hr).1 ?_ bound ended
  rintro rfl
  exact hj (hplaced.distinct j fd id' hid' hid)

include hplaced hid in
/-- Behind it, routines that have not ended are still those of clients. -/
theorem covered_afterStretch (hr : w.ordinator.routine? id = some r) (bound : Nat)
    (ended : Ended Frame) {id' : Nat} {r' : Routine ConnectionRef Frame}
    (hr' : (w.ordinator.afterStretch id bound ended).routine? id' = some r')
    (hctx : r'.ctx ≠ .ended) :
    id' = id ∨ ∃ j, j ≠ fd ∧ w.work.m_coroutines.lookup j = some id' := by
  by_cases hself : id' = id
  · exact Or.inl hself
  right
  rw [Ordinator.routine?_afterStretch_ne (Ordinator.routine?_eq_some.mp hr).1 hself] at hr'
  obtain ⟨j, hj⟩ := hplaced.covered id' r' hr' hctx
  refine ⟨j, ?_, hj⟩
  rintro rfl
  rw [hid] at hj
  exact hself (Option.some.inj hj).symm

theorem endedIn_finish (hr : w.ordinator.routine? id = some r) (bound : Nat)
    (exception : Option Exception) : EndedIn (w.ordinator.finish id bound exception) id := by
  intro r' hr'
  rw [Ordinator.routine?_finish hr] at hr'
  cases hr'
  split
  · rfl
  · rfl

/-- The routine stays in its place, with its function. -/
theorem routine?_afterStretch (hr : w.ordinator.routine? id = some r) (bound : Nat)
    (ended : Ended Frame) :
    ∃ r', (w.ordinator.afterStretch id bound ended).routine? id = some r' ∧ r'.func = r.func := by
  have hfinish : ∀ exception, ∃ r', (w.ordinator.finish id bound exception).routine? id = some r' ∧
      r'.func = r.func := by
    intro exception
    refine ⟨_, Ordinator.routine?_finish hr bound exception, ?_⟩
    split
    · rfl
    · rfl
  cases ended with
  | yielded frame => exact ⟨_, Ordinator.routine?_yield hr frame bound, rfl⟩
  | returned => exact hfinish none
  | threw e => exact hfinish (some e)

end Stretch

section Ran

variable {w : Worker} {fd : Int} {el el₁ : Element} {id : Nat} {events : UInt32} {script : Script}
  {o₁ : Ordinator ConnectionRef Frame}

theorem Ran.keepsHeld (h : Ran w fd el id events script el₁ o₁) (hplaced : Placed w)
    (hid : w.work.m_coroutines.lookup fd = some id) : KeepsHeld fd w o₁ := by
  cases h with
  | refused hfinished => exact fun _ _ _ _ => rfl
  | resumed hr hctx hfunc hthrew => exact keepsHeld_afterStretch hplaced hid hr _ _

theorem Ran.covered (h : Ran w fd el id events script el₁ o₁) (hplaced : Placed w)
    (hid : w.work.m_coroutines.lookup fd = some id) {id' : Nat} {r' : Routine ConnectionRef Frame}
    (hr' : o₁.routine? id' = some r') (hctx' : r'.ctx ≠ .ended) :
    id' = id ∨ ∃ j, j ≠ fd ∧ w.work.m_coroutines.lookup j = some id' := by
  cases h with
  | refused hfinished =>
      obtain ⟨j, hj⟩ := hplaced.covered id' r' hr' hctx'
      by_cases hfd : j = fd
      · subst hfd
        rw [hid] at hj
        exact Or.inl (Option.some.inj hj).symm
      · exact Or.inr ⟨j, hfd, hj⟩
  | resumed hr hctx hfunc hthrew => exact covered_afterStretch hplaced hid hr _ _ hr' hctx'

theorem Ran.routine (h : Ran w fd el id events script el₁ o₁) {r : Routine ConnectionRef Frame}
    (hr : w.ordinator.routine? id = some r) :
    ∃ r₁, o₁.routine? id = some r₁ ∧ r₁.func = r.func := by
  cases h with
  | refused hfinished => exact ⟨r, hr, rfl⟩
  | resumed hr' hctx hfunc hthrew =>
      rw [hr] at hr'
      cases hr'
      exact routine?_afterStretch hr _ _

/-- Only the id of the routine itself comes into the queue. -/
theorem Ran.finished (h : Ran w fd el id events script el₁ o₁) :
    o₁.finished = w.ordinator.finished ∨ o₁.finished = w.ordinator.finished ++ [id] := by
  cases h with
  | refused hfinished => exact Or.inl rfl
  | @resumed r hr hctx hfunc hthrew =>
      cases (stretchOf el r events script).ended with
      | yielded frame => exact Or.inl rfl
      | returned => exact Or.inr rfl
      | threw e => exact Or.inr rfl

theorem Ran.length (h : Ran w fd el id events script el₁ o₁) :
    o₁.routines.length = w.ordinator.routines.length := by
  cases h with
  | refused hfinished => rfl
  | resumed hr hctx hfunc hthrew => exact Ordinator.length_afterStretch _ _ _ _

/-- A coroutine whose connection is closed behind it has ended. -/
theorem Ran.ended_of_closed (h : Ran w fd el id events script el₁ o₁) (ho : w.ordinator.Consistent)
    (hopen : ∀ r, w.ordinator.routine? id = some r → r.ctx ≠ .ended → el.conn.m_opened = true)
    (hclosed : el₁.conn.m_opened = false) : EndedIn o₁ id := by
  cases h with
  | refused hfinished => exact fun r hr => ho.finished id r hr (hfinished r hr)
  | @resumed r hr hctx hfunc hthrew =>
      rcases connectionCallback_opened (c := el.conn.setEvent events)
        (hopen r hr hctx) script (frame r) with hopen' | hreturned | ⟨-, hended⟩
      · rw [← stretchOf, hclosed] at hopen'
        cases hopen'
      · rw [stretchOf, hreturned]
        exact endedIn_finish hr _ none
      · rw [stretchOf, hended]
        exact endedIn_finish hr _ (some _)

/-- When the client is to get a new coroutine, the old one has ended, unless the event
has found nothing to read. -/
theorem Ran.ended_of_empty (h : Ran w fd el id events script el₁ o₁) (ho : w.ordinator.Consistent)
    {reg : Bool} (hview : w.work.view fd = ⟨some el, some id, reg⟩)
    {r : Routine ConnectionRef Frame} (hr : w.ordinator.routine? id = some r)
    (hholds : r.ctx ≠ .ended → el.conn.m_opened = true ∧
      (frame r ≠ .reading → el.conn.m_buffer ≠ []))
    (hopen : el₁.conn.m_opened = true) (hempty : el₁.conn.m_buffer = [])
    (hfinds : ¬FindsNothing w fd script) : EndedIn o₁ id ∧ NeedsCoroutine w fd script := by
  have hconnection := lookup_of_view hview
  have hid : w.work.m_coroutines.lookup fd = some id := congrArg View.routine hview
  cases h with
  | refused hfinished =>
      refine ⟨fun r' hr' => ho.finished id r' hr' (hfinished r' hr'), ?_⟩
      exact ⟨el, id, r, hconnection, hid, hr, Or.inl ⟨hempty, Or.inl (hfinished r hr)⟩⟩
  | @resumed r' hr' hctx hfunc hthrew =>
      rw [hr] at hr'
      cases hr'
      obtain ⟨hopened, hbuffer⟩ := hholds hctx
      have hunfinished := (ho.unfinished hr hctx).1
      rcases connectionCallback_empty (c := el.conn.setEvent events) hopened hbuffer
        hopen hempty with
        ⟨hreturned, hserves⟩ | ⟨hreading, hnothing, hblock | ⟨hfailed, e, hended⟩⟩
      · refine ⟨?_, el, id, r, hconnection, hid, hr, Or.inr ⟨hunfinished, hserves⟩⟩
        rw [stretchOf, hreturned]
        exact endedIn_finish hr _ none
      · exact absurd ⟨el, id, r, hconnection, hid, hr, hunfinished, hreading, hnothing,
          hblock⟩ hfinds
      · refine ⟨?_, el, id, r, hconnection, hid, hr, Or.inl ⟨hnothing, Or.inr ?_⟩⟩
        · rw [stretchOf, hended]
          exact endedIn_finish hr _ (some e)
        · exact ⟨hthrew e hended, hreading, hfailed⟩

/-- The id of the new coroutine is not that of another client. -/
theorem Ran.next_free (h : Ran w fd el id events script el₁ o₁) (ho : w.ordinator.Consistent)
    (hplaced : Placed w) (hid : w.work.m_coroutines.lookup fd = some id)
    {r : Routine ConnectionRef Frame} (hr : w.ordinator.routine? id = some r)
    (hended : EndedIn o₁ id) (hfree : NextIdIsFree w fd) (f : ConnectionRef) {j : Int}
    (hj : w.work.m_coroutines.lookup j = some (o₁.create f).1) : j = fd := by
  obtain ⟨r₁, hr₁, -⟩ := h.routine hr
  have hmem : id ∈ o₁.finished := (h.consistent ho).ended id r₁ hr₁ (hended r₁ hr₁)
  unfold Ordinator.create at hj
  split at hj
  · next hnil =>
      rw [hnil] at hmem
      cases hmem
  · next id' rest hcons =>
      have hj' : w.work.m_coroutines.lookup j = some id' := hj
      rcases h.finished with hsame | happend
      · exact hfree id' rest (hsame ▸ hcons) j hj'
      · -- the queue has got the id of the client's own routine at its end
        cases hold : w.ordinator.finished with
        | nil =>
            rw [happend, hold] at hcons
            cases hcons
            exact hplaced.distinct j fd id hj' hid
        | cons id₀ rest₀ =>
            rw [happend, hold] at hcons
            cases hcons
            exact hfree id' rest₀ hold j hj'

end Ran

/-! ## Members -/

/-- The routine table has not grown, or no id waits for reuse. -/
def Grown (w w' : Worker) : Prop :=
  w'.ordinator.routines.length ≤ w.ordinator.routines.length ∨ w'.ordinator.finished = []

theorem create_grown (o : Ordinator ConnectionRef Frame) (f : ConnectionRef) :
    (o.create f).2.routines.length ≤ o.routines.length ∨ (o.create f).2.finished = [] := by
  unfold Ordinator.create
  split
  · next hnil => exact Or.inr ((Ordinator.finished_emplace_back o f).trans hnil)
  · exact Or.inl (le_of_eq (List.length_modify _ _ _))

/-- What a handler for `fd` leaves behind. -/
structure LeftPlaced (fd : Int) (w w' : Worker) : Prop where
  placed : WorkerPlaced w'
  view : SameBut fd w.work w'.work
  grown : Grown w w'

theorem handleConnection_placed {w : Worker} (h : WorkerPlaced w) {fd : Int}
    (hmem : fd ∈ w.work.registered) {events : UInt32} {env : Env}
    (hfinds : ¬FindsNothing w fd env.script)
    (hfree : NeedsCoroutine w fd env.script → NextIdIsFree w fd) :
    (w.handleConnection fd events env).Leaves True (LeftPlaced fd w) := by
  have ho := h.consistent
  obtain ⟨⟨el, hsock, hview⟩, honce⟩ := (h.each fd).client (Or.inr (Or.inl hmem))
  rcases hview with hview | ⟨id, r, hview, hr, hfunc, hholds⟩
  · exact absurd hmem (of_decide_eq_false (congrArg View.registered hview))
  have hid : w.work.m_coroutines.lookup fd = some id := congrArg View.routine hview
  have houtcome := handleConnection_outcome events env ho hview hsock
    fun r' hr' => by
      rw [hr] at hr'
      cases hr'
      exact Or.inr (by rw [hfunc])
  generalize w.handleConnection fd events env = res at houtcome
  cases houtcome with
  | undefined why => trivial
  | @disconnected el₁ o₁ t time hran hclosed htime hidle hview' hsame =>
      have hended := hran.ended_of_closed ho
        (fun r' hr' hctx => by rw [hr] at hr'; cases hr'; exact (hholds hctx).1) hclosed
      refine ⟨⟨?_, hran.consistent ho, ?_⟩, hsame, Or.inl (le_of_eq hran.length)⟩
      · exact h.each.erased ⟨t, o₁⟩ (hran.keepsHeld h.placed hid).holding htime hidle hview' hsame
      · refine h.placed.but ⟨t, o₁⟩ hsame (fun id' hid' => ?_) fun id' r' hr' hctx' => ?_
        · have hnone : t.m_coroutines.lookup fd = none := congrArg View.routine hview'
          rw [hnone] at hid'
          cases hid'
        · refine (hran.covered h.placed hid hr' hctx').imp_left ?_
          rintro rfl
          exact absurd (hended r' hr') hctx'
  | @created el₁ o₁ t hran hopen hempty hsock' hidle hview' hsame =>
      have ho₁ := hran.consistent ho
      obtain ⟨hended, hneeds⟩ := hran.ended_of_empty ho hview hr hholds hopen hempty hfinds
      have hnext : ∀ j, w.work.m_coroutines.lookup j = some (o₁.create ⟨fd, el₁.uid⟩).1 → j = fd :=
        fun j hj => hran.next_free ho h.placed hid hr hended (hfree hneeds) _ hj
      have hnew : t.m_coroutines.lookup fd = some (o₁.create ⟨fd, el₁.uid⟩).1 :=
        congrArg View.routine hview'
      have hkeeps := (hran.keepsHeld h.placed hid).create ho₁ ⟨fd, el₁.uid⟩ hnext
      refine ⟨⟨?_, ho₁.create _, ?_⟩, hsame, ?_⟩
      · refine h.each.kept ⟨t, _⟩ hsame hidle hkeeps.holding
          ⟨{ el₁ with conn := el₁.conn.clearEvents }, hsock', Or.inr ?_⟩ honce
        exact ⟨_, _, hview', Ordinator.routine?_create ho₁ _, rfl,
          fun _ => ⟨hopen, fun hne => absurd rfl hne⟩⟩
      · refine h.placed.but ⟨t, _⟩ hsame (fun id' hid' j hj hold => ?_) fun id' r' hr' hctx' => ?_
        · rw [hnew] at hid'
          cases hid'
          exact hj (hnext j hold)
        · by_cases hself : id' = (o₁.create ⟨fd, el₁.uid⟩).1
          · exact Or.inl (hself ▸ hnew)
          · right
            rw [Ordinator.routine?_create_of_ne ho₁ _ hself] at hr'
            refine (hran.covered h.placed hid hr' hctx').resolve_left ?_
            rintro rfl
            exact hctx' (hended r' hr')
      · rcases create_grown o₁ ⟨fd, el₁.uid⟩ with hlen | hnil
        · exact Or.inl (hlen.trans (le_of_eq hran.length))
        · exact Or.inr hnil
  | @kept el₁ o₁ t hran hopen hkept hsock' hidle hview' hsame =>
      obtain ⟨r₁, hr₁, hfunc₁⟩ := hran.routine hr
      have hnew : t.m_coroutines.lookup fd = some id := congrArg View.routine hview'
      refine ⟨⟨?_, hran.consistent ho, ?_⟩, hsame, Or.inl (le_of_eq hran.length)⟩
      · refine h.each.kept ⟨t, o₁⟩ hsame hidle (hran.keepsHeld h.placed hid).holding
          ⟨{ el₁ with conn := el₁.conn.clearEvents }, hsock', Or.inr ?_⟩ honce
        exact ⟨id, r₁, hview', hr₁, hfunc₁.trans (hfunc.trans (by rw [hran.uid])),
          fun _ => ⟨hopen, fun _ => hkept⟩⟩
      · exact h.placed.unchanged ⟨t, o₁⟩ hsame hid hnew
          fun id' r' hr' hctx' => hran.covered h.placed hid hr' hctx'
  | @threw r' e t hr' hctx hfunc' hthrew hbound hsock' hidle hview' hsame =>
      rw [hr] at hr'
      cases hr'
      have hnew : t.m_coroutines.lookup fd = some id := congrArg View.routine hview'
      have hkeeps : KeepsHeld fd w (w.ordinator.finish id w.ordinator.storage (some e)) :=
        keepsHeld_afterStretch h.placed hid hr _ (.threw e)
      obtain ⟨r₁, hr₁, hfunc₁⟩ := routine?_afterStretch hr w.ordinator.storage (.threw e)
      have hended := endedIn_finish hr w.ordinator.storage (some e)
      refine ⟨⟨?_, ho.finish hr hctx _ _, ?_⟩, hsame,
        Or.inl (le_of_eq (Ordinator.length_afterStretch _ _ _ (.threw e)))⟩
      · refine h.each.kept ⟨t, _⟩ hsame hidle hkeeps.holding
          ⟨{ el with conn := (stretchOf el r events env.script).c }, hsock', Or.inr ?_⟩ honce
        exact ⟨id, r₁, hview', hr₁, hfunc₁.trans hfunc, fun hctx' => absurd (hended r₁ hr₁) hctx'⟩
      · exact h.placed.unchanged ⟨t, _⟩ hsame hid hnew
          fun id' r' hr' hctx' => covered_afterStretch h.placed hid hr _ (.threw e) hr' hctx'

/-- A client's coroutine is in the routine table; it is that of a client in `m_connections`. -/
theorem WorkerPlaced.held {w : Worker} (h : WorkerPlaced w) {fd : Int} {id : Nat}
    (hid : w.work.m_coroutines.lookup fd = some id) :
    ∃ el r, w.work.m_connections.lookup fd = some el ∧ w.ordinator.routine? id = some r ∧
      (r.ctx ≠ .ended → el.conn.m_opened = true) := by
  have hroutine : (w.work.view fd).routine = some id := hid
  rcases h.each fd with ⟨habsent, -⟩ | ⟨⟨el, -, hview | ⟨id', r, hview, hr, -, hholds⟩⟩, -⟩
  · rw [habsent] at hroutine
    cases hroutine
  · rw [hview] at hroutine
    cases hroutine
  · rw [hview] at hroutine
    cases hroutine
    exact ⟨el, r, lookup_of_view hview, hr, fun hctx => (hholds hctx).1⟩

/-- An id that a client holds is given to a new routine only from the queue. -/
theorem next_free_of_routine {w : Worker} {fd : Int} (hfree : NextIdIsFree w fd) (f : ConnectionRef)
    {r : Routine ConnectionRef Frame} (hr : w.ordinator.routine? (w.ordinator.create f).1 = some r)
    {j : Int} (hj : w.work.m_coroutines.lookup j = some (w.ordinator.create f).1) : j = fd := by
  unfold Ordinator.create at hr hj
  split at hj
  · next hnil =>
      rw [hnil] at hr
      have hlast : w.ordinator.routines[w.ordinator.routines.length + 1 - 1]? = some r :=
        (Ordinator.routine?_eq_some.mp hr).2
      simp at hlast
  · next id rest hcons => exact hfree id rest hcons j hj

/-- The tables with another client, whose routine was created last. -/
theorem accept_placed {w : Worker} (h : WorkerPlaced w) {env : Env}
    (hunused : 0 ≤ env.accepted.fd → ∀ fd el, w.work.m_connections.lookup fd = some el →
      el.conn.m_socket.m_fd ≠ env.accepted.fd)
    (hfree : 0 ≤ env.accepted.fd → env.added = true → NextIdIsFree w env.accepted.fd) :
    (w.accept env).Leaves True
      fun w' => (WorkerPlaced w' ∧ Grown w w') ∧ ∀ fd, KeepsRegistered fd w.work w'.work := by
  have ho := h.consistent
  have houtcome := accept_outcome seated_holding h.each hunused
  generalize w.accept env = res at houtcome
  -- no client had the descriptor before
  have hold : w.work.view env.accepted.fd = .absent → ∀ {j id},
      w.work.m_coroutines.lookup j = some id → j ≠ env.accepted.fd := by
    rintro habsent j id hj rfl
    have hnoroutine : w.work.m_coroutines.lookup env.accepted.fd = none :=
      congrArg View.routine habsent
    rw [hnoroutine] at hj
    cases hj
  cases houtcome with
  | refused => exact ⟨⟨h, Or.inl le_rfl⟩, fun _ _ _ hj => hj⟩
  | @fresh t hfd hadded habsent hnone hview hsame hidle =>
      let f : ConnectionRef := ⟨env.accepted.fd, (w.newElement env.accepted).uid⟩
      have hnew : t.m_coroutines.lookup env.accepted.fd = some (w.ordinator.create f).1 :=
        congrArg View.routine hview
      have hnext : ∀ j, w.work.m_coroutines.lookup j = some (w.ordinator.create f).1 →
          j = env.accepted.fd := by
        intro j hj
        obtain ⟨-, r, -, hr, -⟩ := h.held hj
        exact next_free_of_routine (hfree hfd hadded) f hr hj
      have hkeeps : KeepsHeld env.accepted.fd w (w.ordinator.create f).2 :=
        KeepsHeld.create (fun _ _ _ _ => rfl) ho f hnext
      refine ⟨⟨⟨?_, ho.create _, ?_⟩, create_grown _ _⟩, keepsRegistered_of_absent hsame habsent⟩
      · refine h.each.accepted ⟨t, _⟩ env.now hsame hnone hidle hkeeps.holding
          ⟨w.newElement env.accepted, rfl, Or.inr ?_⟩
        exact ⟨_, _, hview, Ordinator.routine?_create ho f, rfl,
          fun _ => ⟨rfl, fun hne => absurd rfl hne⟩⟩
      · refine h.placed.but ⟨t, _⟩ hsame (fun id' hid' j hj hheld => ?_) fun id' r' hr' hctx' => ?_
        · rw [hnew] at hid'
          cases hid'
          exact hj (hnext j hheld)
        · by_cases hself : id' = (w.ordinator.create f).1
          · exact Or.inl (hself ▸ hnew)
          · rw [Ordinator.routine?_create_of_ne ho f hself] at hr'
            obtain ⟨j, hj⟩ := h.placed.covered id' r' hr' hctx'
            exact Or.inr ⟨j, hold habsent hj, hj⟩
  | @unregistered t e hfd hadded habsent hnone hview hsame hidle =>
      refine ⟨⟨⟨?_, ho, ?_⟩, Or.inl le_rfl⟩, keepsRegistered_of_absent hsame habsent⟩
      · exact h.each.accepted ⟨t, _⟩ env.now hsame hnone hidle (fun _ _ hv => hv)
          ⟨w.newElement env.accepted, rfl, Or.inl hview⟩
      · have hnew : t.m_coroutines.lookup env.accepted.fd = none := congrArg View.routine hview
        refine h.placed.but ⟨t, _⟩ hsame (fun id' hid' => ?_) fun id' r' hr' hctx' => Or.inr ?_
        · rw [hnew] at hid'
          cases hid'
        · obtain ⟨j, hj⟩ := h.placed.covered id' r' hr' hctx'
          exact ⟨j, hold habsent hj, hj⟩

theorem sweep_placed {w : Worker} (h : WorkerPlaced w) (server : BaseHTTPServer) (spare : NewSocket)
    (clock : Nat → Int)
    (hdropped : ∀ fd ∈ timedOut server clock w.work.m_idleTime.entries,
      ∀ id, w.work.m_coroutines.lookup fd = some id → id ∈ w.ordinator.finished) :
    (w.work.dropTimeoutedConnections server spare clock).Leaves True
      fun t => WorkerPlaced ⟨t, w.ordinator⟩ := by
  -- the clients that are left have the coroutines they had at the beginning
  let inv (t : ThreadWork) : Prop := WorkerPlaced ⟨t, w.ordinator⟩ ∧
    ∀ fd id, t.m_coroutines.lookup fd = some id → w.work.m_coroutines.lookup fd = some id
  have hinv : (w.work.dropTimeoutedConnections server spare clock).Leaves True inv := by
    refine sweep_invariant (fun t since fd ht hD hsince => ?_) ⟨h, fun _ _ hid => hid⟩ rfl
      clock hdropped
    obtain ⟨⟨heach, ho, hplaced⟩, hold⟩ := ht
    rcases disconnectClient_each seated_holding heach hsince spare with
      hundef | ⟨t', hok, hidle, habsent, hsame, heach'⟩
    · rw [hundef]
      trivial
    have hnone : t'.m_coroutines.lookup fd = none := congrArg View.routine habsent
    rw [hok]
    refine ⟨hidle, ⟨heach', ho, ?_⟩, fun j id hid => ?_⟩
    · refine hplaced.but ⟨t', w.ordinator⟩ hsame (fun id hid => ?_) fun id r hr hctx => Or.inr ?_
      · rw [hnone] at hid
        cases hid
      · obtain ⟨j, hj⟩ := hplaced.covered id r hr hctx
        refine ⟨j, ?_, hj⟩
        rintro rfl
        exact ho.notMem_finished hr hctx (hD id (hold j id hj))
    · by_cases hj : j = fd
      · subst hj
        rw [hnone] at hid
        cases hid
      · rw [routine_of_sameBut hsame hj] at hid
        exact hold j id hid
  exact hinv.mono fun t ht => ht.1

/-! ## Steps and runs -/

theorem Placed.congr {w : Worker} (h : Placed w) {t : ThreadWork}
    (hview : ∀ j, t.view j = w.work.view j) : Placed ⟨t, w.ordinator⟩ := by
  have hsame : ∀ j, t.m_coroutines.lookup j = w.work.m_coroutines.lookup j :=
    fun j => congrArg View.routine (hview j)
  refine ⟨fun fd fd' id hfd hfd' => ?_, fun id r hr hctx => ?_⟩
  · exact h.distinct fd fd' id ((hsame fd).symm.trans hfd) ((hsame fd').symm.trans hfd')
  · obtain ⟨fd, hfd⟩ := h.covered id r hr hctx
    exact ⟨fd, (hsame fd).trans hfd⟩

theorem dispatch_placed {server : BaseHTTPServer} {w : Worker} (h : WorkerPlaced w) {ready : Ready}
    (hready : ready.fd = server.m_socket.m_fd ∨ ready.fd ∈ w.work.registered) {env : Env}
    (hunused : 0 ≤ env.accepted.fd → ∀ fd el, w.work.m_connections.lookup fd = some el →
      el.conn.m_socket.m_fd ≠ env.accepted.fd)
    (hcond : if ready.fd = server.m_socket.m_fd then
        0 ≤ env.accepted.fd → env.added = true → NextIdIsFree w env.accepted.fd
      else ¬FindsNothing w ready.fd env.script ∧
        (NeedsCoroutine w ready.fd env.script → NextIdIsFree w ready.fd)) :
    (w.dispatch server ready env).Leaves True
      fun w' => (WorkerPlaced w' ∧ Grown w w') ∧ KeepsRegistered ready.fd w.work w'.work := by
  refine dispatch_leaves (P := LeftPlaced ready.fd w) (fun hlisten => ?_) (fun hclient => ?_)
    (fun w₁ hclient hleft hmem => ?_) fun w₁ hleft => ?_
  · rw [if_pos hlisten] at hcond
    exact (accept_placed h hunused hcond).mono fun w' h' => ⟨h'.1, h'.2 ready.fd⟩
  · rw [if_neg hclient] at hcond
    exact handleConnection_placed h (hready.resolve_left hclient) hcond.1 hcond.2
  · refine (resetConnectionTime_each hleft.placed.each ready.fd env.now).mono ?_
    rintro t ⟨heach, hview⟩
    exact ⟨⟨⟨heach, hleft.placed.consistent, hleft.placed.placed.congr hview⟩, hleft.grown⟩,
      keepsRegistered_of_sameBut (hleft.view.trans fun j _ => hview j)⟩
  · exact ⟨⟨hleft.placed, hleft.grown⟩, keepsRegistered_of_sameBut hleft.view⟩

theorem step_placed {server : BaseHTTPServer} {s : Running} (h : InRun server WorkerPlaced s)
    {act : Act} (hpromised : s.Promised server act) (hcond : LeavesNoOrphan server s act)
    {next : Next}
    (hstep : s.step server act = some next) :
    next.Keeps True (InRun server fun w' => WorkerPlaced w' ∧ Grown s.worker w') := by
  refine step_keeps (fun spare clock hact hw => ?_) (fun ready rest env hpoint hact hw hready => ?_)
    ⟨⟨h.inv, Or.inl le_rfl⟩, h.pending⟩ hpromised hstep
  · subst hact
    exact (sweep_placed hw.1 server spare clock hcond).mono fun t ht => ⟨ht, Or.inl le_rfl⟩
  · subst hact
    exact dispatch_placed hw.1 hready hpromised (hcond ready rest hpoint)

theorem WorkerPlaced.noOrphans {w : Worker} (h : WorkerPlaced w) : NoOrphans w := by
  intro id r hr
  by_cases hctx : r.ctx = .ended
  · exact Or.inl (h.consistent.ended id r hr hctx)
  · obtain ⟨fd, hfd⟩ := h.placed.covered id r hr hctx
    obtain ⟨el, -, hel, -⟩ := h.held hfd
    refine Or.inr ⟨fd, ⟨Support.OrdMap.mem_of_lookup hel, hfd⟩, ?_⟩
    rintro fd' ⟨-, hfd'⟩
    exact h.placed.distinct fd' fd id hfd' hfd

/-- While no id waits for reuse, each routine is that of an open connection. -/
theorem WorkerPlaced.length_le {w : Worker} (h : WorkerPlaced w)
    (hnone : w.ordinator.finished = []) :
    w.ordinator.routines.length ≤ (openFds w.work).length := by
  have hall : ∀ i, i < w.ordinator.routines.length →
      ∃ fd, fd ∈ openFds w.work ∧ w.work.m_coroutines.lookup fd = some (i + 1) := by
    intro i hi
    have hr : w.ordinator.routine? (i + 1) = some w.ordinator.routines[i] :=
      Ordinator.routine?_eq_some.mpr ⟨Nat.succ_ne_zero i, List.getElem?_eq_getElem hi⟩
    have hctx : w.ordinator.routines[i].ctx ≠ .ended := by
      intro hended
      have hmem := h.consistent.ended (i + 1) _ hr hended
      rw [hnone] at hmem
      cases hmem
    obtain ⟨fd, hfd⟩ := h.placed.covered (i + 1) _ hr hctx
    obtain ⟨el, r', hel, hr', hopen⟩ := h.held hfd
    rw [hr] at hr'
    cases hr'
    refine ⟨fd, List.mem_map.mpr ⟨(fd, el), List.mem_filter.mpr ⟨?_, hopen hctx⟩, rfl⟩, hfd⟩
    exact Support.OrdMap.lookup_eq_some_iff.mp hel
  choose! fdOf hmem hlookup using hall
  have hnodup : ((List.range w.ordinator.routines.length).map fdOf).Nodup := by
    refine List.Nodup.map_on (fun i hi j hj heq => ?_) List.nodup_range
    have hi' := hlookup i (List.mem_range.mp hi)
    rw [heq, hlookup j (List.mem_range.mp hj)] at hi'
    exact (Nat.succ.inj (Option.some.inj hi')).symm
  have hsubset : (List.range w.ordinator.routines.length).map fdOf ⊆ openFds w.work := by
    intro fd hfd
    obtain ⟨i, hi, rfl⟩ := List.mem_map.mp hfd
    exact hmem i (List.mem_range.mp hi)
  have hlen := (hnodup.subperm hsubset).length_le
  rwa [List.length_map, List.length_range] at hlen

/-- What holds in every state of an observed run. -/
structure ObservedPlaced (server : BaseHTTPServer) (s : Observed) : Prop where
  inRun : InRun server WorkerPlaced s.running
  length : s.running.worker.ordinator.routines.length ≤ s.peak

/-- In a run whose steps leave no orphan, every routine is queued for reuse or is that
of exactly one client in every state, and there are never more routines than there were
open connections at once. -/
theorem no_orphans {server : BaseHTTPServer} {s : Observed}
    (hrun : Support.Reaches (Observed.Step server)
      (fun s act => s.running.Promised server act ∧ LeavesNoOrphan server s.running act) {} s) :
    NoOrphans s.running.worker ∧ s.running.worker.ordinator.routines.length ≤ s.peak := by
  have hinv : ObservedPlaced server s := by
    refine hrun.invariant (fun s act s' hinv hadmitted hs => ?_)
      ⟨inRun_top ⟨each_new, Ordinator.consistent_new, placed_new⟩, le_rfl⟩
    obtain ⟨hstep, hpeak⟩ := hs
    have hkept : (Next.goesOn s'.running).Keeps True
        (InRun server fun w' => WorkerPlaced w' ∧ Grown s.running.worker w') :=
      step_placed hinv.inRun hadmitted.1 hadmitted.2 hstep
    obtain ⟨⟨hplaced, hgrown⟩, hpending⟩ := hkept
    refine ⟨⟨hplaced, hpending⟩, ?_⟩
    rcases hgrown with hlen | hnil
    · exact (hlen.trans hinv.length).trans (hpeak ▸ le_max_left _ _)
    · exact (hplaced.length_le hnil).trans (hpeak ▸ le_max_right _ _)
  exact ⟨hinv.inRun.inv.noOrphans, hinv.length⟩

/-- Admitted steps lead to `s`, with at most `peak` connections open at once on the way. -/
abbrev Observes (server : BaseHTTPServer) (admitted : Running → Act → Prop) (s : Running)
    (peak : Nat) : Prop :=
  Support.Reaches (Observed.Step server) (fun o => admitted o.running) {} ⟨s, peak⟩

theorem Observes.step {server : BaseHTTPServer} {admitted : Running → Act → Prop} {s s' : Running}
    {peak peak' : Nat} (act : Act) (h : Observes server admitted s peak)
    (hadmitted : admitted s act) (hstep : Running.Step server s act s')
    (hpeak : peak' = max peak (openFds s'.worker.work).length) :
    Observes server admitted s' peak' :=
  h.tail ⟨act, hadmitted, hstep, hpeak⟩

/-- The steps that lead to `oneClient` and to an event of its client, observed. -/
theorem observes_oneClient {admitted : Running → Act → Prop}
    (hdrop : admitted {} (.drop {} fun _ => 0))
    (hwait : admitted ⟨{}, .waiting⟩ (.wait (.ready [⟨3, 1⟩])))
    (haccept : admitted ⟨{}, .handling [⟨3, 1⟩]⟩ (.handle (accepting 5 1).2))
    (hfinish : admitted ⟨oneClient, .handling []⟩ .finish)
    (hdrop' : admitted ⟨oneClient, .top⟩ (.drop {} fun _ => 1))
    (hwait' : admitted ⟨oneClient, .waiting⟩ (.wait (.ready [⟨5, 1⟩]))) :
    Observes serverOn3 admitted ⟨oneClient, .handling [⟨5, 1⟩]⟩ 1 := by
  have hwaiting : Observes serverOn3 admitted ⟨{}, .waiting⟩ 0 :=
    Observes.step _ .refl hdrop rfl rfl
  have hready : Observes serverOn3 admitted ⟨{}, .handling [⟨3, 1⟩]⟩ 0 :=
    hwaiting.step _ hwait rfl rfl
  have haccepted : Observes serverOn3 admitted ⟨oneClient, .handling []⟩ 1 :=
    hready.step _ haccept rfl rfl
  have htop : Observes serverOn3 admitted ⟨oneClient, .top⟩ 1 := haccepted.step _ hfinish rfl rfl
  have hwaiting' : Observes serverOn3 admitted ⟨oneClient, .waiting⟩ 1 := htop.step _ hdrop' rfl rfl
  exact hwaiting'.step _ hwait' rfl rfl

/-- A client is accepted, served and disconnected; its routine waits for reuse. -/
theorem no_orphans_oneClient :
    ∃ s, Support.Reaches (Observed.Step serverOn3)
        (fun s act => s.running.Promised serverOn3 act ∧ LeavesNoOrphan serverOn3 s.running act)
        {} s ∧
      s.running.worker.ordinator.finished = [1] ∧ NoOrphans s.running.worker ∧
      s.running.worker.ordinator.routines.length ≤ 1 := by
  have haccept : LeavesNoOrphan serverOn3 ⟨{}, .handling [⟨3, 1⟩]⟩ (.handle (accepting 5 1).2) := by
    intro ready rest hpoint
    cases hpoint
    intro _ _ id rest hcons
    cases hcons
  have hserves : LeavesNoOrphan serverOn3 ⟨oneClient, .handling [⟨5, 1⟩]⟩ (.handle oneRequest) := by
    intro ready rest hpoint
    cases hpoint
    refine ⟨?_, fun _ id rest hcons => ?_⟩
    · rintro ⟨el, id, r, -, -, -, -, -, -, hnothing⟩
      cases hnothing
    · have hnone : oneClient.ordinator.finished = [] := rfl
      rw [hnone] at hcons
      cases hcons
  have hnotLate : LeavesNoOrphan serverOn3 ⟨oneClient, .top⟩ (.drop {} fun _ => 1) := by
    intro fd hfd
    have hnone : timedOut serverOn3 (fun _ => 1) oneClient.work.m_idleTime.entries = [] := by decide
    rw [hnone] at hfd
    cases hfd
  have hstep : Running.Step serverOn3 ⟨oneClient, .handling [⟨5, 1⟩]⟩ (.handle oneRequest)
      ⟨allServed, .handling []⟩ := by
    unfold Running.Step
    decide +kernel
  have hfirst : Observes serverOn3
      (fun s act => s.Promised serverOn3 act ∧ LeavesNoOrphan serverOn3 s act)
      ⟨oneClient, .handling [⟨5, 1⟩]⟩ 1 :=
    observes_oneClient ⟨trivial, fun fd hfd => by cases hfd⟩ ⟨listening_promised _, trivial⟩
      ⟨accepting_promised_first 5 1, haccept⟩ ⟨trivial, trivial⟩ ⟨trivial, hnotLate⟩
      ⟨⟨by decide, by decide⟩, trivial⟩
  have hrun : Observes serverOn3
      (fun s act => s.Promised serverOn3 act ∧ LeavesNoOrphan serverOn3 s act)
      ⟨allServed, .handling []⟩ 1 :=
    hfirst.step (.handle oneRequest) ⟨fun h => absurd h (by decide), hserves⟩ hstep
      (by decide +kernel)
  obtain ⟨hnone, hlen⟩ := no_orphans hrun
  exact ⟨_, hrun, by decide +kernel, hnone, hlen⟩

/-- The first event of a new client finds nothing to read: the client gets a second coroutine, and
the first one, which is suspended, is no client's any more. -/
theorem empty_wakeup_orphans :
    ∃ s, Support.Reaches (Observed.Step serverOn3)
        (fun s act => s.running.Promised serverOn3 act ∧ NoCallFails s.running act) {} s ∧
      ¬NoOrphans s.running.worker ∧ s.running.worker.ordinator.routines.length = 2 ∧
        s.peak = 1 := by
  have hstep : Running.Step serverOn3 ⟨oneClient, .handling [⟨5, 1⟩]⟩ (.handle nothingToRead)
      ⟨stillReading, .handling []⟩ := by
    unfold Running.Step
    decide +kernel
  have hfirst : Observes serverOn3 (fun s act => s.Promised serverOn3 act ∧ NoCallFails s act)
      ⟨oneClient, .handling [⟨5, 1⟩]⟩ 1 :=
    observes_oneClient ⟨trivial, trivial⟩ ⟨listening_promised _, noCallFails_ready _ _⟩
      ⟨accepting_promised_first 5 1, noCallFails_accepting _ 5 1⟩ ⟨trivial, trivial⟩
      ⟨trivial, trivial⟩ ⟨⟨by decide, by decide⟩, noCallFails_ready _ _⟩
  have hrun : Observes serverOn3 (fun s act => s.Promised serverOn3 act ∧ NoCallFails s act)
      ⟨stillReading, .handling []⟩ 1 :=
    hfirst.step (.handle nothingToRead) ⟨fun h => absurd h (by decide),
      ⟨rfl, by simp [nothingToRead], by simp [nothingToRead]⟩⟩ hstep (by decide +kernel)
  have hr : stillReading.ordinator.routine? 1 =
      some { func := ⟨5, 0⟩, ctx := .saved .reading 1 } := by
    decide +kernel
  have hqueue : 1 ∉ stillReading.ordinator.finished := by decide +kernel
  have hothers : ∀ i ∈ stillReading.work.m_coroutines.entries, i.2 ≠ 1 := by decide +kernel
  have horphan : ¬NoOrphans stillReading := by
    intro h
    rcases h 1 _ hr with hqueued | ⟨fd, ⟨-, hfd⟩, -⟩
    · exact hqueue hqueued
    · exact hothers (fd, 1) (Support.OrdMap.lookup_eq_some_iff.mp hfd) rfl
  refine ⟨_, hrun, ?_, by decide +kernel, rfl⟩
  dsimp only
  exact horphan

end HTTP
end AdvCppHW
