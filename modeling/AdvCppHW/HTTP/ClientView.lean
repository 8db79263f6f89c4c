import AdvCppHW.HTTP.ThreadWork
import Mathlib.Data.Set.Basic

/-!
# One descriptor in the tables of a worker

What the tables hold about one descriptor (`ThreadWork.view`, `ThreadWork.times`), and what each
member of `ThreadWork` does to it.  Every member that works for a client leaves all other
descriptors alone (`SameBut`), as long as the client's coroutine is its own.

* `eraseIdle_cases`, `disconnectClient_cases` — the members that erase; `sweep_invariant` — the loop
  over timed-out clients.
* `handleConnection_own`, `handleConnection_finished` — `handleConnection` up to the end of
  `Coroutine::resume`; `afterResume_closed`, `afterResume_created`, `afterResume_kept` — the rest.
* `accept_refused`, `accept_fresh`, `accept_unregistered` — `accept`.
-/

namespace AdvCppHW
namespace HTTP

open Coroutine

/-- What the tables hold about one descriptor, without the idle times. -/
structure View where
  element : Option Element
  routine : Option Nat
  registered : Bool

/-- Nothing is held. -/
def View.absent : View := ⟨none, none, false⟩

namespace ThreadWork

def view (t : ThreadWork) (fd : Int) : View :=
  ⟨t.m_connections.lookup fd, t.m_coroutines.lookup fd, decide (fd ∈ t.registered)⟩

/-- The times under which a descriptor stands in `m_idleTime`. -/
def times (t : ThreadWork) (fd : Int) : Set Int := fun time => t.m_idleTime.lookup time = some fd

/-- Only the descriptor `fd` sees a difference. -/
def SameBut (fd : Int) (t t' : ThreadWork) : Prop := ∀ j, j ≠ fd → t'.view j = t.view j

theorem SameBut.refl (fd : Int) (t : ThreadWork) : SameBut fd t t := fun _ _ => rfl

theorem SameBut.trans {fd : Int} {t t' t'' : ThreadWork} (h : SameBut fd t t')
    (h' : SameBut fd t' t'') : SameBut fd t t'' :=
  fun j hj => (h' j hj).trans (h j hj)

theorem lookup_of_view {t : ThreadWork} {fd : Int} {el : Element} {id : Option Nat} {reg : Bool}
    (h : t.view fd = ⟨some el, id, reg⟩) : t.m_connections.lookup fd = some el :=
  congrArg View.element h

theorem element_of_lookup {t : ThreadWork} {fd : Int} {el : Element}
    (h : t.m_connections.lookup fd = some el) (spare : NewSocket) :
    t.element fd spare = (el, t) := by
  simp [element, h]

/-! ## Idle times -/

theorem notMem_times_new (fd time : Int) : time ∉ ({} : ThreadWork).times fd := nofun

theorem mem_times {t : ThreadWork} {fd time : Int} :
    time ∈ t.times fd ↔ t.m_idleTime.lookup time = some fd :=
  Iff.rfl

theorem mem_times_erase {t : ThreadWork} {since : Int} {fd time : Int} :
    time ∈ ({ t with m_idleTime := t.m_idleTime.erase since } : ThreadWork).times fd ↔
      time ≠ since ∧ time ∈ t.times fd :=
  Support.OrdMap.lookup_erase_eq_some

theorem mem_times_insertNew {t : ThreadWork} {now : Int} (hnow : now ∉ t.m_idleTime)
    {fd j time : Int} :
    time ∈ ({ t with m_idleTime := t.m_idleTime.insertNew now fd } : ThreadWork).times j ↔
      time = now ∧ j = fd ∨ time ∈ t.times j := by
  rw [mem_times, mem_times, Support.OrdMap.insertNew_of_notMem hnow]
  by_cases htime : time = now
  · subst htime
    rw [Support.OrdMap.lookup_assign_self, Support.OrdMap.notMem_iff.mp hnow]
    simp [eq_comm]
  · rw [Support.OrdMap.lookup_assign_ne _ htime]
    simp [htime]

/-- `emplace` into `m_idleTime` stores at most the pair that it is given. -/
theorem mem_times_of_insertNew {t : ThreadWork} {now fd j time : Int}
    (h : time ∈ ({ t with m_idleTime := t.m_idleTime.insertNew now fd } : ThreadWork).times j) :
    time = now ∧ j = fd ∨ time ∈ t.times j := by
  by_cases hnow : now ∈ t.m_idleTime
  · rw [mem_times, Support.OrdMap.insertNew_of_mem hnow] at h
    exact Or.inr h
  · exact (mem_times_insertNew hnow).mp h

theorem idleSince?_eq_some {t : ThreadWork} {fd time : Int} (h : t.idleSince? fd = some time) :
    time ∈ t.times fd := by
  obtain ⟨i, hi, rfl⟩ := Option.map_eq_some_iff.mp h
  have hfd : i.2 = fd := by simpa using List.find?_some hi
  exact Support.OrdMap.lookup_eq_some_iff.mpr (hfd ▸ List.mem_of_find?_eq_some hi)

theorem idleSince?_eq_none {t : ThreadWork} {fd : Int} (h : t.idleSince? fd = none) (time : Int) :
    time ∉ t.times fd := by
  intro hmem
  have hnot := List.find?_eq_none.mp (Option.map_eq_none_iff.mp h) _
    (Support.OrdMap.lookup_eq_some_iff.mp hmem)
  simp at hnot

/-- `m_idleTime.erase` behind a `find_if` that finds nothing is undefined; else one element goes. -/
theorem eraseIdle_cases (t : ThreadWork) (fd : Int) :
    (t.eraseIdle fd = .undefined .eraseOfEnd ∧ ∀ time, time ∉ t.times fd) ∨
      ∃ time ∈ t.times fd,
        t.eraseIdle fd = .ok { t with m_idleTime := t.m_idleTime.erase time } := by
  cases h : t.idleSince? fd with
  | none => exact Or.inl ⟨by simp [eraseIdle, h], idleSince?_eq_none h⟩
  | some time => exact Or.inr ⟨time, idleSince?_eq_some h, by simp [eraseIdle, h]⟩

/-! ## Connections -/

theorem view_update_ne {t : ThreadWork} {fd : Int} {el : Element}
    (hsock : el.conn.m_socket.m_fd = fd)
    (c : ConnectionAsync) : SameBut fd t (t.update fd el c) := by
  intro j hj
  have hreg : j ∈ (t.update fd el c).registered ↔ j ∈ t.registered := by
    unfold update
    dsimp only
    split
    · rfl
    · rw [Finset.mem_erase, hsock]
      exact and_iff_right hj
  simp only [view, hreg]
  simp only [update, Support.OrdMap.lookup_assign_ne _ hj]

theorem view_update_same (t : ThreadWork) (fd : Int) (el : Element) {c : ConnectionAsync}
    (hsame : c.m_socket = el.conn.m_socket) :
    (t.update fd el c).view fd =
      ⟨some { el with conn := c }, (t.view fd).routine, (t.view fd).registered⟩ := by
  simp [view, update, hsame]

theorem lookup_update (t : ThreadWork) (fd : Int) (el : Element) (c : ConnectionAsync) :
    (t.update fd el c).m_connections.lookup fd = some { el with conn := c } :=
  Support.OrdMap.lookup_assign_self _ _ _

/-- The part of `disconnectClient` in front of the erasure from `m_idleTime`. -/
def withoutClient (t : ThreadWork) (fd : Int) (el : Element) : ThreadWork :=
  { ((t.removeFromEpoll fd).update fd el el.conn.close).eraseConnection fd with
    m_coroutines := t.m_coroutines.erase fd }

theorem disconnectClient_of_lookup {t : ThreadWork} {fd : Int} {el : Element}
    (h : t.m_connections.lookup fd = some el) (spare : NewSocket) :
    t.disconnectClient fd spare = (t.withoutClient fd el).eraseIdle fd := by
  have helement : (t.removeFromEpoll fd).element fd spare = (el, t.removeFromEpoll fd) :=
    element_of_lookup (t := t.removeFromEpoll fd) h spare
  simp only [disconnectClient, helement]
  have hco : (((t.removeFromEpoll fd).update fd el el.conn.close).eraseConnection fd).m_coroutines =
      t.m_coroutines := by
    unfold eraseConnection
    split
    · rfl
    · rfl
  simp only [hco]
  rfl

theorem idle_withoutClient (t : ThreadWork) (fd : Int) (el : Element) :
    (t.withoutClient fd el).m_idleTime = t.m_idleTime := by
  show (((t.removeFromEpoll fd).update fd el el.conn.close).eraseConnection fd).m_idleTime = _
  unfold eraseConnection
  split
  · rfl
  · rfl

theorem registered_withoutClient {t : ThreadWork} {fd : Int} {el : Element}
    (hsock : el.conn.m_socket.m_fd = fd ∨ el.conn.m_socket.isOpened = false) (j : Int) :
    j ∈ (t.withoutClient fd el).registered ↔ j ≠ fd ∧ j ∈ t.registered := by
  have hlookup := lookup_update (t.removeFromEpoll fd) fd el el.conn.close
  show j ∈ (((t.removeFromEpoll fd).update fd el el.conn.close).eraseConnection fd).registered ↔ _
  rw [eraseConnection, hlookup]
  -- `removeFromEpoll` has taken the descriptor out, and closing can only do that again
  rcases hsock with hsock | hclosed
  · rcases ConnectionAsync.close_socket el.conn with hsame | ⟨-, hclosed⟩
    · simp only [update, removeFromEpoll, hsame, if_true, hsock]
      split
      · simp
      · simp
    · simp only [update, removeFromEpoll, hclosed, Bool.false_eq_true, if_false, hsock]
      split
      · simp
      · simp
  · have hsame : el.conn.close.m_socket = el.conn.m_socket := by
      unfold ConnectionAsync.close
      split
      · rfl
      · simp [SocketAsync.close, hclosed]
    simp [update, removeFromEpoll, hsame, hclosed]

theorem connections_withoutClient (t : ThreadWork) (fd : Int) (el : Element) (j : Int) :
    (t.withoutClient fd el).m_connections.lookup j =
      if j = fd then none else t.m_connections.lookup j := by
  have hlookup := lookup_update (t.removeFromEpoll fd) fd el el.conn.close
  show (((t.removeFromEpoll fd).update fd el el.conn.close).eraseConnection fd).m_connections.lookup
    j = _
  rw [eraseConnection, hlookup]
  dsimp only
  split
  · next hj => rw [hj, Support.OrdMap.lookup_erase_self]
  · next hj =>
      rw [Support.OrdMap.lookup_erase_ne _ hj]
      exact Support.OrdMap.lookup_assign_ne _ hj _

theorem view_withoutClient {t : ThreadWork} {fd : Int} {el : Element}
    (hsock : el.conn.m_socket.m_fd = fd ∨ el.conn.m_socket.isOpened = false) :
    (t.withoutClient fd el).view fd = .absent ∧ SameBut fd t (t.withoutClient fd el) := by
  have hco : (t.withoutClient fd el).m_coroutines = t.m_coroutines.erase fd := rfl
  refine ⟨?_, ?_⟩
  · simp only [view, connections_withoutClient, if_true, registered_withoutClient hsock, hco,
      Support.OrdMap.lookup_erase_self]
    simp [View.absent]
  · intro j hj
    simp only [view, connections_withoutClient, if_neg hj, registered_withoutClient hsock, hco,
      Support.OrdMap.lookup_erase_ne _ hj]
    simp [hj]

/-- `disconnectClient` of a known client: undefined when it has no idle time; else nothing about it
is left but other idle times it may have. -/
theorem disconnectClient_cases {t : ThreadWork} {fd : Int} {el : Element}
    (h : t.m_connections.lookup fd = some el)
    (hsock : el.conn.m_socket.m_fd = fd ∨ el.conn.m_socket.isOpened = false) (spare : NewSocket) :
    (t.disconnectClient fd spare = .undefined .eraseOfEnd ∧ ∀ time, time ∉ t.times fd) ∨
      ∃ t', ∃ time ∈ t.times fd, t.disconnectClient fd spare = .ok t' ∧
        t'.m_idleTime = t.m_idleTime.erase time ∧ t'.view fd = .absent ∧ SameBut fd t t' := by
  rw [disconnectClient_of_lookup h]
  obtain ⟨habsent, hsame⟩ := view_withoutClient (t := t) hsock
  have hidle := idle_withoutClient t fd el
  rcases eraseIdle_cases (t.withoutClient fd el) fd with ⟨hundef, hnone⟩ | ⟨time, hmem, hok⟩
  · refine Or.inl ⟨hundef, fun time hmem => hnone time ?_⟩
    rwa [mem_times, hidle]
  · refine Or.inr ⟨_, time, ?_, hok, ?_, habsent, hsame⟩
    · rwa [mem_times, hidle] at hmem
    · exact congrArg (·.erase time) hidle

/-- The clients that have been idle for too long, up to the first that has not; the list and the
clock are those of `sweep`. -/
def timedOut (server : BaseHTTPServer) (clock : Nat → Int) : List (Int × Int) → List Int
  | [] => []
  | (since, fd) :: rest =>
      if timeDiff (clock 0) since > server.m_timeout then
        fd :: timedOut server (fun n => clock (n + 1)) rest
      else []

/-- The loop of `dropTimeoutedConnections` keeps what `disconnectClient` keeps of the clients that
are dropped, if that erases the idle time that the loop stands on. -/
theorem sweep_invariant {server : BaseHTTPServer} {spare : NewSocket} {inv : ThreadWork → Prop}
    {D : Int → Prop} {mayFail : Prop}
    (hstep : ∀ t since fd, inv t → D fd → since ∈ t.times fd →
      (t.disconnectClient fd spare).Leaves mayFail
        fun t' => t'.m_idleTime = t.m_idleTime.erase since ∧ inv t')
    {entries : List (Int × Int)} {t : ThreadWork} (ht : inv t)
    (hentries : t.m_idleTime.entries = entries) (clock : Nat → Int)
    (hdropped : ∀ fd ∈ timedOut server clock entries, D fd) :
    (sweep server spare clock entries t).Leaves mayFail inv := by
  induction entries generalizing t clock with
  | nil => exact ht
  | cons entry rest ih =>
      obtain ⟨since, fd⟩ := entry
      have hsince : since ∈ t.times fd :=
        Support.OrdMap.lookup_eq_some_iff.mpr (hentries ▸ List.mem_cons_self)
      rw [sweep, if_neg (not_not_intro (Support.OrdMap.mem_of_lookup hsince))]
      split
      · next hlate =>
        rw [timedOut, if_pos hlate] at hdropped
        have hD := hdropped fd List.mem_cons_self
        refine (hstep t since fd ht hD hsince).andThen (fun t' h' => ?_) fun t' h' => h'.2
        obtain ⟨hidle, ht'⟩ := h'
        -- what is left is what comes behind the erased element
        have hrest : t'.m_idleTime.entries = rest := by
          rw [hidle, Support.OrdMap.entries_erase_head hentries]
        exact ih ht' hrest _ fun j hj => hdropped j (List.mem_cons_of_mem _ hj)
      · -- the elements in front of the iterator are gone already
        have hsame : (⟨t.m_idleTime.entries.filter fun i => decide (since ≤ i.1),
            t.m_idleTime.sorted.filter _⟩ : Support.OrdMap Int Int) = t.m_idleTime :=
          Support.OrdMap.ext (Support.OrdMap.filter_le_head hentries)
        rw [hsame]
        exact ht

end ThreadWork

namespace Worker

open ThreadWork

/-! ## `handleConnection` -/

/-- The frame in which a routine continues. -/
def frame (r : Routine ConnectionRef Frame) : Frame := r.ctx.frame?.getD .reading

theorem afterResume_closed {w : Worker} {fd : Int} {el : Element} {spare : NewSocket}
    (h : w.work.m_connections.lookup fd = some el) (hclosed : el.conn.m_opened = false) :
    w.afterResume fd spare =
      (w.work.disconnectClient fd spare).map (Worker.mk · w.ordinator) := by
  simp [afterResume, element_of_lookup h, ConnectionAsync.isOpened, hclosed]

theorem afterResume_created {w : Worker} {fd : Int} {el : Element} {spare : NewSocket}
    (h : w.work.m_connections.lookup fd = some el) (hopen : el.conn.m_opened = true)
    (hempty : el.conn.m_buffer = []) :
    w.afterResume fd spare = .ok
      ⟨{ w.work.update fd el el.conn.clearEvents with
          m_coroutines := w.work.m_coroutines.assign fd (w.ordinator.create ⟨fd, el.uid⟩).1 },
        (w.ordinator.create ⟨fd, el.uid⟩).2⟩ := by
  simp only [afterResume, element_of_lookup h, ConnectionAsync.isOpened, hopen, Bool.not_true,
    Bool.false_eq_true, if_false, hempty, if_true]
  rfl

theorem afterResume_kept {w : Worker} {fd : Int} {el : Element} {spare : NewSocket}
    (h : w.work.m_connections.lookup fd = some el) (hopen : el.conn.m_opened = true)
    (hkept : el.conn.m_buffer ≠ []) :
    w.afterResume fd spare = .ok ⟨w.work.update fd el el.conn.clearEvents, w.ordinator⟩ := by
  simp [afterResume, element_of_lookup h, ConnectionAsync.isOpened, hopen, hkept]

/-- What `afterResume` comes to for a known client. -/
inductive AfterResume (w : Worker) (fd : Int) (el : Element) (id : Nat) (reg : Bool) :
    Outcome Worker → Prop
  /-- It is to be disconnected and has no idle time. -/
  | eraseOfEnd (hclosed : el.conn.m_opened = false) (hnone : ∀ time, time ∉ w.work.times fd) :
      AfterResume w fd el id reg (.undefined .eraseOfEnd)
  | disconnected {t : ThreadWork} {time : Int} (hclosed : el.conn.m_opened = false)
      (htime : time ∈ w.work.times fd) (hidle : t.m_idleTime = w.work.m_idleTime.erase time)
      (hview : t.view fd = .absent) (hsame : SameBut fd w.work t) :
      AfterResume w fd el id reg (.ok ⟨t, w.ordinator⟩)
  | created {t : ThreadWork} (hopen : el.conn.m_opened = true) (hempty : el.conn.m_buffer = [])
      (hidle : t.m_idleTime = w.work.m_idleTime)
      (hview : t.view fd = ⟨some { el with conn := el.conn.clearEvents },
        some (w.ordinator.create ⟨fd, el.uid⟩).1, reg⟩)
      (hsame : SameBut fd w.work t) :
      AfterResume w fd el id reg (.ok ⟨t, (w.ordinator.create ⟨fd, el.uid⟩).2⟩)
  | kept {t : ThreadWork} (hopen : el.conn.m_opened = true) (hkept : el.conn.m_buffer ≠ [])
      (hidle : t.m_idleTime = w.work.m_idleTime)
      (hview : t.view fd = ⟨some { el with conn := el.conn.clearEvents }, some id, reg⟩)
      (hsame : SameBut fd w.work t) :
      AfterResume w fd el id reg (.ok ⟨t, w.ordinator⟩)

/-- An open client's socket is its own, and a closed client's socket is its own or closed. -/
structure SocketOf (c : ConnectionAsync) (fd : Int) : Prop where
  opened : c.m_opened = true → c.m_socket.m_fd = fd
  closed : c.m_socket.m_fd = fd ∨ c.m_socket.isOpened = false

theorem afterResume_cases {w : Worker} {fd : Int} {el : Element} {id : Nat} {reg : Bool}
    (h : w.work.view fd = ⟨some el, some id, reg⟩) (hsock : SocketOf el.conn fd)
    (spare : NewSocket) : AfterResume w fd el id reg (w.afterResume fd spare) := by
  have hlookup := lookup_of_view h
  cases hopen : el.conn.m_opened with
  | false =>
      rw [afterResume_closed hlookup hopen]
      rcases disconnectClient_cases hlookup hsock.closed spare with
        ⟨hundef, hnone⟩ | ⟨t, time, htime, hok, hidle, hview, hsame⟩
      · rw [hundef]
        exact .eraseOfEnd hopen hnone
      · rw [hok]
        exact .disconnected hopen htime hidle hview hsame
  | true =>
      have hfd := hsock.opened hopen
      have hsame := view_update_ne (t := w.work) hfd el.conn.clearEvents
      have hview := view_update_same w.work fd el (c := el.conn.clearEvents) rfl
      rw [h] at hview
      by_cases hempty : el.conn.m_buffer = []
      · rw [afterResume_created hlookup hopen hempty]
        refine .created hopen hempty rfl ?_ ?_
        · have hassign : (w.work.m_coroutines.assign fd (w.ordinator.create ⟨fd, el.uid⟩).1).lookup
            fd = some (w.ordinator.create ⟨fd, el.uid⟩).1 := Support.OrdMap.lookup_assign_self _ _ _
          simp only [view, View.mk.injEq] at hview ⊢
          exact ⟨hview.1, hassign, hview.2.2⟩
        · intro j hj
          have hview' := hsame j hj
          simp only [view, View.mk.injEq] at hview' ⊢
          exact ⟨hview'.1, Support.OrdMap.lookup_assign_ne _ hj _, hview'.2.2⟩
      · rw [afterResume_kept hlookup hopen hempty]
        exact .kept hopen hempty rfl hview hsame

/-- The tables when a client's coroutine is resumed. -/
def atResume (w : Worker) (fd : Int) (el : Element) (events : UInt32) : ThreadWork :=
  w.work.update fd el (el.conn.setEvent events)

theorem view_atResume {w : Worker} {fd : Int} {el : Element} {routine : Option Nat} {reg : Bool}
    (h : w.work.view fd = ⟨some el, routine, reg⟩) (hsock : el.conn.m_socket.m_fd = fd)
    (events : UInt32) :
    (w.atResume fd el events).view fd =
        ⟨some { el with conn := el.conn.setEvent events }, routine, reg⟩ ∧
      SameBut fd w.work (w.atResume fd el events) := by
  refine ⟨?_, view_update_ne hsock _⟩
  have hview := view_update_same w.work fd el (c := el.conn.setEvent events) rfl
  rwa [h] at hview

theorem handleConnection_of_view {w : Worker} {fd : Int} {el : Element} {id : Nat} {reg : Bool}
    (h : w.work.view fd = ⟨some el, some id, reg⟩) (events : UInt32) (env : Env) :
    w.handleConnection fd events env =
      resumed ⟨w.atResume fd el events, w.ordinator⟩ fd env.spare
        (w.ordinator.resume (runCallback env.script) id (w.atResume fd el events)) := by
  have hco : (w.atResume fd el events).coroutine fd = (id, w.atResume fd el events) := by
    have hid : (w.atResume fd el events).m_coroutines.lookup fd = some id := congrArg View.routine h
    simp [coroutine, hid]
  simp only [handleConnection, element_of_lookup (lookup_of_view h)]
  rw [← atResume, hco]

/-- The stretch that a client's own coroutine runs when it is resumed for an event. -/
def stretchOf (el : Element) (r : Routine ConnectionRef Frame) (events : UInt32) (script : Script) :
    Stretch :=
  connectionCallback (el.conn.setEvent events) script (frame r)

/-- The tables after a stretch of a client's own coroutine. -/
def afterStretch (w : Worker) (fd : Int) (el : Element) (events : UInt32) (s : Stretch) :
    ThreadWork :=
  (w.atResume fd el events).update fd { el with conn := el.conn.setEvent events } s.c

theorem socketOf_setEvent {c : ConnectionAsync} {fd : Int} (h : c.m_socket.m_fd = fd)
    (events : UInt32) : SocketOf (c.setEvent events) fd :=
  ⟨fun _ => h, Or.inl h⟩

/-- Before the rest of `handleConnection`, a stretch of the client's own coroutine has changed
nothing but its connection. -/
theorem view_afterStretch {w : Worker} {fd : Int} {el : Element} {routine : Option Nat} {reg : Bool}
    (h : w.work.view fd = ⟨some el, routine, reg⟩) (hsock : el.conn.m_socket.m_fd = fd)
    (r : Routine ConnectionRef Frame) (events : UInt32) (script : Script) :
    let s := stretchOf el r events script
    let t := w.afterStretch fd el events s
    SocketOf s.c fd ∧ SameBut fd w.work t ∧ t.m_idleTime = w.work.m_idleTime ∧
      ∃ reg', t.view fd = ⟨some { el with conn := s.c }, routine, reg'⟩ ∧
        (s.c.m_opened = true ∨ s.ended ≠ .returned → reg' = reg ∧ s.c.m_socket.m_fd = fd) := by
  obtain ⟨hview, hsame⟩ := view_atResume h hsock events
  have hstretch : SameBut fd (w.atResume fd el events)
      (w.afterStretch fd el events (stretchOf el r events script)) := view_update_ne hsock _
  have hsame' := hsame.trans hstretch
  have hsound := (connectionCallback_sound (el.conn.setEvent events) script (frame r)).socket
  rcases hsound with hsocket | ⟨hreturned, hclosed, hdown⟩
  · have hfd : (stretchOf el r events script).c.m_socket.m_fd = fd :=
      (congrArg SocketAsync.m_fd hsocket).trans hsock
    refine ⟨⟨fun _ => hfd, Or.inl hfd⟩, hsame', rfl, reg, ?_, fun _ => ⟨rfl, hfd⟩⟩
    have hview' := view_update_same (w.atResume fd el events) fd
      { el with conn := el.conn.setEvent events } hsocket
    rwa [hview] at hview'
  · -- the coroutine has closed its client, and the kernel has unregistered the descriptor
    refine ⟨⟨fun hopen => ?_, Or.inr hdown⟩, hsame', rfl, decide (fd ∈ (w.afterStretch fd el events
      (stretchOf el r events script)).registered), ?_, ?_⟩
    · rw [stretchOf, hclosed] at hopen
      cases hopen
    · have hroutine := congrArg View.routine hview
      simp only [view, View.mk.injEq]
      exact ⟨lookup_update _ _ _ _, hroutine, trivial⟩
    · rintro (hopen | hnot)
      · rw [stretchOf, hclosed] at hopen
        cases hopen
      · exact absurd hreturned hnot

/-- An event of a client whose own coroutine can be resumed: the rest of `handleConnection` follows,
unless an exception of the stretch comes back. -/
theorem handleConnection_own {w : Worker} (ho : w.ordinator.Consistent) {fd : Int} {el : Element}
    {id : Nat} {reg : Bool} {r : Routine ConnectionRef Frame}
    (h : w.work.view fd = ⟨some el, some id, reg⟩) (hr : w.ordinator.routine? id = some r)
    (hctx : r.ctx ≠ .ended) (hfunc : r.func = ⟨fd, el.uid⟩) (events : UInt32) (env : Env) :
    let s := stretchOf el r events env.script
    let bound := w.ordinator.boundIn r.ctx
    let w' : Worker := ⟨w.afterStretch fd el events s,
      w.ordinator.afterStretch id bound s.ended.toEnded⟩
    (w.handleConnection fd events env = w'.afterResume fd env.spare ∧
        ∀ e, s.ended = .threw e → bound ≠ w.ordinator.storage) ∨
      ∃ e, s.ended = .threw e ∧ bound = w.ordinator.storage ∧
        w.handleConnection fd events env = .threw e w' := by
  have hlookup : (w.atResume fd el events).m_connections.lookup fd =
      some { el with conn := el.conn.setEvent events } := lookup_update _ _ _ _
  have hrun : runCallback env.script r.func r.ctx.frame? (w.atResume fd el events) =
      .ok ((stretchOf el r events env.script).ended.toEnded,
        w.afterStretch fd el events (stretchOf el r events env.script)) := by
    simp only [runCallback, hfunc, hlookup, if_true]
    rfl
  dsimp only
  rw [handleConnection_of_view h, Ordinator.resume_of_unfinished ho hr hctx, hrun]
  cases hended : (stretchOf el r events env.script).ended with
  | yielded frame => exact Or.inl ⟨rfl, nofun⟩
  | returned => exact Or.inl ⟨rfl, nofun⟩
  | threw e =>
      by_cases hbound : w.ordinator.boundIn r.ctx = w.ordinator.storage
      · refine Or.inr ⟨e, rfl, hbound, ?_⟩
        simp only [CallbackEnd.toEnded, if_pos hbound]
        rfl
      · -- the exception does not come back, and `handleConnection` goes on
        refine Or.inl ⟨?_, fun _ _ => hbound⟩
        simp only [CallbackEnd.toEnded, if_neg hbound]
        rfl

/-- A coroutine that is marked as finished is not resumed. -/
theorem handleConnection_finished {w : Worker} {fd : Int} {el : Element} {id : Nat} {reg : Bool}
    (h : w.work.view fd = ⟨some el, some id, reg⟩)
    (hfinished : ∀ r, w.ordinator.routine? id = some r → r.finished = true) (events : UInt32)
    (env : Env) :
    w.handleConnection fd events env =
      afterResume ⟨w.atResume fd el events, w.ordinator⟩ fd env.spare := by
  rw [handleConnection_of_view h, Ordinator.resume_refused hfinished, resumed]

/-! ## `accept` -/

theorem accept_refused {w : Worker} {env : Env} (h : env.accepted.fd < 0) :
    w.accept env = .ok w := by
  simp [accept, h]

/-- The element of a client that is accepted. -/
def newElement (w : Worker) (s : NewSocket) : Element :=
  ⟨w.work.constructed, ConnectionAsync.ofFD s.fd s.garbage⟩

/-- A client that is accepted under a descriptor the tables know nothing about gets an element, a
new coroutine and a registration; an idle time only if no other client has that time. -/
theorem accept_fresh {w : Worker} {env : Env} (hfd : 0 ≤ env.accepted.fd)
    (h : w.work.view env.accepted.fd = .absent) (hadded : env.added = true) :
    let el := w.newElement env.accepted
    ∃ t, w.accept env = .ok ⟨t, (w.ordinator.create ⟨env.accepted.fd, el.uid⟩).2⟩ ∧
      t.view env.accepted.fd =
        ⟨some el, some (w.ordinator.create ⟨env.accepted.fd, el.uid⟩).1, true⟩ ∧
      SameBut env.accepted.fd w.work t ∧
      t.m_idleTime = w.work.m_idleTime.insertNew env.now env.accepted.fd := by
  have hnew : env.accepted.fd ∉ w.work.m_connections :=
    Support.OrdMap.notMem_iff.mpr (congrArg View.element h)
  have hnoroutine : env.accepted.fd ∉ w.work.m_coroutines :=
    Support.OrdMap.notMem_iff.mpr (congrArg View.routine h)
  let el := w.newElement env.accepted
  let t : ThreadWork :=
    { w.work with
      m_connections := w.work.m_connections.assign env.accepted.fd el,
      constructed := w.work.constructed + 1,
      registered := insert env.accepted.fd w.work.registered }
  have hlookup : t.m_connections.lookup env.accepted.fd = some el :=
    Support.OrdMap.lookup_assign_self _ _ _
  refine ⟨{ t with
      m_coroutines := w.work.m_coroutines.insertNew env.accepted.fd
        (w.ordinator.create ⟨env.accepted.fd, el.uid⟩).1,
      m_idleTime := w.work.m_idleTime.insertNew env.now env.accepted.fd }, ?_, ?_, ?_, rfl⟩
  · have hemplace : w.work.emplace env.accepted = { t with registered := w.work.registered } :=
      if_neg hnew
    have hadd : (w.work.emplace env.accepted).addToEpoll env.accepted.fd
        (env.added && decide (env.accepted.fd ∉ w.work.m_connections)) = .ok t := by
      rw [hemplace, hadded, decide_eq_true hnew]
      rfl
    have helement := element_of_lookup hlookup env.spare
    simp only [accept, if_neg (Int.not_lt.mpr hfd), hadd, Outcome.map_ok,
      Outcome.andThen_ok, helement]
    rfl
  · simp only [view, View.mk.injEq]
    refine ⟨hlookup, ?_, decide_eq_true (Finset.mem_insert_self _ _)⟩
    rw [Support.OrdMap.insertNew_of_notMem hnoroutine]
    exact Support.OrdMap.lookup_assign_self _ _ _
  · intro j hj
    simp only [view, View.mk.injEq]
    refine ⟨Support.OrdMap.lookup_assign_ne _ hj _, ?_, ?_⟩
    · rw [Support.OrdMap.insertNew_of_notMem hnoroutine]
      exact Support.OrdMap.lookup_assign_ne _ hj _
    · simp only [t, Finset.mem_insert, hj, false_or]

/-- When its descriptor cannot be registered, a new client gets an element and nothing else. -/
theorem accept_unregistered {w : Worker} {env : Env} (hfd : 0 ≤ env.accepted.fd)
    (h : w.work.view env.accepted.fd = .absent) (hadded : env.added = false) :
    ∃ t, w.accept env = .threw (.DescriptorError "Error adding connection to epoll!")
      ⟨t, w.ordinator⟩ ∧
      t.view env.accepted.fd = ⟨some (w.newElement env.accepted), none, false⟩ ∧
      SameBut env.accepted.fd w.work t ∧ t.m_idleTime = w.work.m_idleTime := by
  have hnew : env.accepted.fd ∉ w.work.m_connections :=
    Support.OrdMap.notMem_iff.mpr (congrArg View.element h)
  refine ⟨w.work.emplace env.accepted, ?_, ?_, ?_, ?_⟩
  · have hadd : (w.work.emplace env.accepted).addToEpoll env.accepted.fd
        (env.added && decide (env.accepted.fd ∉ w.work.m_connections)) =
          .threw (.DescriptorError "Error adding connection to epoll!")
            (w.work.emplace env.accepted) := by
      rw [hadded]
      rfl
    simp only [accept, if_neg (Int.not_lt.mpr hfd), hadd, Outcome.map_threw, Outcome.andThen_threw]
  all_goals rw [emplace, if_neg hnew]
  · have hroutine : w.work.m_coroutines.lookup env.accepted.fd = none := congrArg View.routine h
    have hregistered : decide (env.accepted.fd ∈ w.work.registered) = false :=
      congrArg View.registered h
    simp only [view, View.mk.injEq]
    exact ⟨Support.OrdMap.lookup_assign_self _ _ _, hroutine, hregistered⟩
  · intro j hj
    simp only [view, View.mk.injEq, and_true]
    exact Support.OrdMap.lookup_assign_ne _ hj _

end Worker
end HTTP
end AdvCppHW
