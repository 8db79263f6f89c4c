import AdvCppHW.Cpp.EdgeTriggered
import AdvCppHW.HTTP.OrphanCoroutines
import Mathlib.Logic.Function.Basic

/-!
# Wake-ups of a worker

A worker together with the sockets of its clients, which are registered edge-triggered.  An event
for new data is used up by the next resumption of the client's coroutine, and one that is suspended
in `writeResponse` does not read.  When it is through, the client gets a new coroutine that waits
for an event which may not come.

* `Watched` — the worker and the sockets; `Watched.Step` — what either does.
* `ReadsInTime` — the condition on the steps; `handleConnection_serving`,
  `step_awake` — what they keep.
* `no_lost_wakeup` — the invariant over whole runs; `unread_request_sleeps` — a worker that waits
  while a request is there to be read.
-/

namespace AdvCppHW
namespace HTTP

open Coroutine ThreadWork Worker

/-- A worker in its loop, and the sockets of its clients. -/
structure Watched where
  running : Running := {}
  sockets : Int → WatchedSocket := fun _ => {}

/-- The calls that `readRequest` makes in one resumption, when the reads
have the listed outcomes. -/
def callsOf : List SysRead → List SysRead
  | .data (b :: bytes) :: reads => .data (b :: bytes) :: callsOf reads
  | sys :: _ => [sys]
  | [] => [.wouldBlock]

/-- The calls of `::read` on the socket of `fd'` that an event of `fd` leads to: those of the
coroutine that it resumes, if that waits in `readRequest` and its connection is open. -/
def callsFor (w : Worker) (fd : Int) (script : Script) (fd' : Int) : List SysRead :=
  match (w.work.m_coroutines.lookup fd).bind w.ordinator.routine? with
  | none => []
  | some r =>
      if r.finished = false ∧ frame r = .reading ∧ r.func.fd = fd' ∧
          (w.work.m_connections.lookup fd').any (·.conn.isOpened) then
        callsOf script.reads
      else []

/-- What the kernel does in a step of the worker.  `epoll_wait` reports clients that have an event,
and the reads of a handler find what has been received.  A socket that can be read when it is
registered has an event.  Nothing is kept of the listening socket. -/
def Watched.Kernel (server : BaseHTTPServer) (s : Watched) (sockets' : Int → WatchedSocket) :
    Act → Prop
  | .wait (.ready events) =>
      (∀ ready ∈ events, ready.fd ≠ server.m_socket.m_fd → (s.sockets ready.fd).pending = true) ∧
        ∀ fd, sockets' fd =
          if fd ≠ server.m_socket.m_fd ∧ fd ∈ events.map Ready.fd then
            { s.sockets fd with pending := false }
          else s.sockets fd
  | .handle env => ∀ ready rest, s.running.point = .handling (ready :: rest) →
      if ready.fd = server.m_socket.m_fd then
        ∀ fd, if fd = env.accepted.fd then (sockets' fd).Quiet
          else Reading readSize (s.sockets fd) [] (sockets' fd)
      else
        ∀ fd, Reading readSize (s.sockets fd) (callsFor s.running.worker ready.fd env.script fd)
          (sockets' fd)
  | _ => sockets' = s.sockets

/-- A step of the whole system. -/
inductive WatchedAct where
  /-- Something happens at the socket of `fd`. -/
  | happens (fd : Int) (k : WatchedSocket)
  /-- The worker makes a step, behind which the sockets are as given. -/
  | worker (act : Act) (sockets' : Int → WatchedSocket)

def Watched.Step (server : BaseHTTPServer) (s : Watched) : WatchedAct → Watched → Prop
  | .happens fd k, s' =>
      Happens (s.sockets fd) k ∧ s' = { s with sockets := Function.update s.sockets fd k }
  | .worker act sockets', s' =>
      s.running.Step server act s'.running ∧ s.Kernel server sockets' act ∧ s'.sockets = sockets'

/-- The coroutine of a client is suspended in `writeResponse`. -/
def SuspendedWriting (w : Worker) (fd : Int) : Prop :=
  ∃ id r req msg bound, w.work.m_coroutines.lookup fd = some id ∧ w.ordinator.routine? id = some r ∧
    r.finished = false ∧ r.ctx = .saved (.writing req msg) bound

/-- What can be read of a client, with `k` its socket, is going to be read: it has come with an
event, or the client's coroutine does not read. -/
def WillBeRead (w : Worker) (fd : Int) (k : WatchedSocket) : Prop :=
  k.Quiet ∨ SuspendedWriting w fd

/-! ## Conditions on the steps -/

/-- Neither a handler throws nor `onRequest` in it. -/
def NoHandlerThrows (server : BaseHTTPServer) (s : Running) : Act → Prop
  | .handle env => (∀ req, ∃ resp, env.script.onRequest req = .ok resp) ∧
      ∀ ready rest, s.point = .handling (ready :: rest) →
        ∀ e w', s.worker.dispatch server ready env ≠ .threw e w'
  | _ => True

/-- The kernel keeps its promises, no handler throws and no call fails. -/
def Undisturbed (server : BaseHTTPServer) (s : Watched) : WatchedAct → Prop
  | .happens _ _ => True
  | .worker act _ => s.running.Promised server act ∧ NoCallFails s.running act ∧
      NoHandlerThrows server s.running act

/-- The condition under which no wake-up is lost: when the coroutine of a client that asks for the
connection to be kept is suspended in `writeResponse`, and the writes take all that is left, then
nothing is left to be read, or an event has come with it meanwhile. -/
def ReadsInTime (server : BaseHTTPServer) (s : Watched) : WatchedAct → Prop
  | .worker (.handle env) sockets' => ∀ ready rest, s.running.point = .handling (ready :: rest) →
      ready.fd ≠ server.m_socket.m_fd → ∀ id r req msg bound,
        s.running.worker.work.m_coroutines.lookup ready.fd = some id →
        s.running.worker.ordinator.routine? id = some r → r.ctx = .saved (.writing req msg) bound →
        takesAll msg.length env.script.writes = true → req.doKeepAlive = true →
          (sockets' ready.fd).Quiet
  | _ => True

/-! ## The invariant -/

/-- A client with an open connection that owns its coroutine.  A request that is being answered
is still in the buffer. -/
def View.Serving (o : Ordinator ConnectionRef Frame) (fd : Int) (v : View) : Prop :=
  ∃ el id r, v = ⟨some el, some id, true⟩ ∧ el.conn.m_socket.m_fd = fd ∧ el.conn.m_opened = true ∧
    o.routine? id = some r ∧ r.ctx ≠ .ended ∧ r.func = ⟨fd, el.uid⟩ ∧
    (frame r ≠ .reading → el.conn.m_buffer ≠ [])

theorem seated_serving : ClientProperty.Seated View.Serving := by
  rintro o fd v ⟨el, id, r, rfl, hsock, -⟩
  exact ⟨el, rfl, hsock⟩

/-- A client whose events were cleared behind `Coroutine::resume`. -/
theorem serving_of_cleared {o : Ordinator ConnectionRef Frame} {fd : Int} {el : Element} {id : Nat}
    {v : View} (r : Routine ConnectionRef Frame)
    (h : v = ⟨some { el with conn := el.conn.clearEvents }, some id, true⟩)
    (hsock : el.conn.m_socket.m_fd = fd) (hopen : el.conn.m_opened = true)
    (hr : o.routine? id = some r) (hctx : r.ctx ≠ .ended) (hfunc : r.func = ⟨fd, el.uid⟩)
    (hbuffer : frame r ≠ .reading → el.conn.m_buffer ≠ []) : View.Serving o fd v :=
  ⟨{ el with conn := el.conn.clearEvents }, id, r, h, hsock, hopen, hr, hctx, hfunc, hbuffer⟩

theorem KeepsOthers.serving {fd : Int} {o o' : Ordinator ConnectionRef Frame}
    (h : KeepsOthers fd o o') {v : Int → View} (j : Int) (hj : j ≠ fd)
    (hv : View.Serving o j (v j)) : View.Serving o' j (v j) := by
  obtain ⟨el, id, r, hview, hsock, hopen, hr, hctx, hfunc, hbuffer⟩ := hv
  have hother : r.func.fd ≠ fd := by
    rw [hfunc]
    exact hj
  exact ⟨el, id, r, hview, hsock, hopen, h id r hr hctx hother, hctx, hfunc, hbuffer⟩

/-- What holds of the worker in every state of a run. -/
structure WorkerServing (w : Worker) : Prop where
  each : Each View.Serving w
  consistent : w.ordinator.Consistent

/-- Where nothing of another client's routine changes, it stays suspended. -/
theorem SuspendedWriting.kept {w w' : Worker} {fd j : Int} (h : SuspendedWriting w fd)
    (hserving : View.Serving w.ordinator fd (w.work.view fd)) (hj : fd ≠ j)
    (hview : w'.work.view fd = w.work.view fd) (hothers : KeepsOthers j w.ordinator w'.ordinator) :
    SuspendedWriting w' fd := by
  obtain ⟨id, r, req, msg, bound, hid, hr, hfinished, hctx⟩ := h
  obtain ⟨el, id', r', hview', -, -, hr', hctx', hfunc, -⟩ := hserving
  have hid' : w.work.m_coroutines.lookup fd = some id' := congrArg View.routine hview'
  rw [hid] at hid'
  cases hid'
  rw [hr] at hr'
  cases hr'
  have hother : r.func.fd ≠ j := by
    rw [hfunc]
    exact hj
  have hkept : w'.work.m_coroutines.lookup fd = w.work.m_coroutines.lookup fd :=
    congrArg View.routine hview
  exact ⟨id, r, req, msg, bound, hkept.trans hid, hothers id r hr hctx' hother, hfinished, hctx⟩

/-! ## Handling an event -/

theorem callsOf_last {reads : List SysRead} (h : ∀ e, .failed e ∉ reads) :
    LastBringsNothing (callsOf reads) := by
  induction reads with
  | nil => exact ⟨.wouldBlock, rfl, Or.inl rfl⟩
  | cons sys reads ih =>
      obtain ⟨last, hlast, hnothing⟩ := ih fun e he => h e (List.mem_cons_of_mem _ he)
      cases sys with
      | wouldBlock => exact ⟨.wouldBlock, rfl, Or.inl rfl⟩
      | eof => exact ⟨.eof, rfl, Or.inr (Or.inl rfl)⟩
      | failed e => exact absurd List.mem_cons_self (h e)
      | data bytes =>
          cases bytes with
          | nil => exact ⟨.data [], rfl, Or.inr (Or.inr rfl)⟩
          | cons b bytes =>
              refine ⟨last, ?_, hnothing⟩
              rw [callsOf, List.getLast?_cons, hlast]
              rfl

theorem frame_writing {r : Routine ConnectionRef Frame} (h : frame r ≠ .reading) :
    ∃ req msg bound, r.ctx = .saved (.writing req msg) bound := by
  unfold frame at h
  cases hctx : r.ctx with
  | made =>
      rw [hctx] at h
      exact absurd rfl h
  | ended =>
      rw [hctx] at h
      exact absurd rfl h
  | saved frame bound =>
      rw [hctx] at h
      cases frame with
      | reading => exact absurd rfl h
      | writing req msg => exact ⟨req, msg, bound, rfl⟩

/-- What a handler for `fd` leaves behind, with `k` the socket of `fd` after it. -/
structure LeftServing (fd : Int) (k : WatchedSocket) (w w' : Worker) : Prop where
  serving : WorkerServing w'
  view : SameBut fd w.work w'.work
  others : KeepsOthers fd w.ordinator w'.ordinator
  awake : fd ∈ w'.work.registered → WillBeRead w' fd k

/-- The reads of a client's own coroutine are those on the client's socket. -/
theorem callsFor_own {w : Worker} {fd : Int} {el : Element} {id : Nat} {reg : Bool}
    {r : Routine ConnectionRef Frame} (ho : w.ordinator.Consistent)
    (hview : w.work.view fd = ⟨some el, some id, reg⟩) (hopen : el.conn.m_opened = true)
    (hr : w.ordinator.routine? id = some r) (hctx : r.ctx ≠ .ended) (hfunc : r.func = ⟨fd, el.uid⟩)
    (script : Script) (fd' : Int) :
    callsFor w fd script fd' = if frame r = .reading ∧ fd = fd' then callsOf script.reads
      else [] := by
  have hid : w.work.m_coroutines.lookup fd = some id := congrArg View.routine hview
  have hunfinished := (ho.unfinished hr hctx).1
  by_cases hfd : fd = fd'
  · subst hfd
    simp [callsFor, hid, hr, hunfinished, hfunc, lookup_of_view hview,
      ConnectionAsync.isOpened, hopen]
  · simp [callsFor, hid, hr, hfunc, hfd]

theorem callsFor_ne {w : Worker} {fd fd' : Int} {id : Nat} {r : Routine ConnectionRef Frame}
    (hid : w.work.m_coroutines.lookup fd = some id) (hr : w.ordinator.routine? id = some r)
    (hne : r.func.fd ≠ fd') (script : Script) : callsFor w fd script fd' = [] := by
  simp [callsFor, hid, hr, hne]

theorem handleConnection_serving {w : Worker} (h : WorkerServing w) {fd : Int}
    (hmem : fd ∈ w.work.registered) (events : UInt32) {env : Env}
    (hreads : ∀ e, .failed e ∉ env.script.reads) (hwrites : ∀ e, .failed e ∉ env.script.writes)
    (hanswers : ∀ req, ∃ resp, env.script.onRequest req = .ok resp)
    (hreturns : ∀ e w', w.handleConnection fd events env ≠ .threw e w') {k k' : WatchedSocket}
    (hk : Reading readSize k (callsFor w fd env.script fd) k')
    (hinTime : ∀ id r req msg bound, w.work.m_coroutines.lookup fd = some id →
      w.ordinator.routine? id = some r → r.ctx = .saved (.writing req msg) bound →
      takesAll msg.length env.script.writes = true → req.doKeepAlive = true → k'.Quiet) :
    (w.handleConnection fd events env).Leaves True (LeftServing fd k' w) := by
  have ho := h.consistent
  obtain ⟨⟨el, id, r, hview, hsock, hopen, hr, hctx, hfunc, hbuffer⟩, honce⟩ :=
    (h.each fd).client (Or.inr (Or.inl hmem))
  have hid : w.work.m_coroutines.lookup fd = some id := congrArg View.routine hview
  have hunfinished := (ho.unfinished hr hctx).1
  -- a coroutine that waits in `readRequest` reads until nothing is left
  have hquiet : frame r = .reading → k'.Quiet := by
    intro hreading
    rw [callsFor_own ho hview hopen hr hctx hfunc, if_pos ⟨hreading, rfl⟩] at hk
    exact hk.quiet (callsOf_last hreads)
  have hthrown : ∀ {e}, (stretchOf el r events env.script).ended = .threw e →
      (stretchOf el r events env.script).c.m_opened = false := fun hended =>
    connectionCallback_threw (c := el.conn.setEvent events) hopen hreads hwrites hanswers hended
  have houtcome := handleConnection_outcome events env ho hview hsock fun r' hr' => by
    rw [hr] at hr'
    cases hr'
    exact Or.inr (by rw [hfunc])
  generalize w.handleConnection fd events env = res at houtcome hreturns
  cases houtcome with
  | undefined why => trivial
  | @disconnected el₁ o₁ t time hran hclosed htime hidle hview' hsame =>
      refine ⟨⟨?_, hran.consistent ho⟩, hsame, hran.keepsOthers, fun hmem' => ?_⟩
      · exact h.each.erased ⟨t, o₁⟩ hran.keepsOthers.serving htime hidle hview' hsame
      · exact absurd hmem' (of_decide_eq_false (congrArg View.registered hview'))
  | @created el₁ o₁ t hran hopen' hempty hsock' hidle hview' hsame =>
      have ho₁ := hran.consistent ho
      have hothers := hran.keepsOthers.trans (keepsOthers_create ho₁ fd ⟨fd, el₁.uid⟩)
      refine ⟨⟨?_, ho₁.create _⟩, hsame, hothers, fun _ => Or.inl ?_⟩
      · have hr₁ := Ordinator.routine?_create ho₁ ⟨fd, el₁.uid⟩
        have hserving := serving_of_cleared _ hview' hsock' hopen' hr₁ Context.made_ne_ended rfl
          fun hne => absurd rfl hne
        exact h.each.kept ⟨t, _⟩ hsame hidle hothers.serving hserving honce
      · cases hran with
        | refused hfinished =>
            rw [hfinished r hr] at hunfinished
            cases hunfinished
        | @resumed r' hr' hctx' hfunc' hthrew =>
            rw [hr] at hr'
            cases hr'
            by_cases hreading : frame r = .reading
            · exact hquiet hreading
            · -- everything was written, and the request asks for the connection to be kept
              rcases connectionCallback_empty (c := el.conn.setEvent events) hopen
                hbuffer hopen' hempty with ⟨-, hserves⟩ | ⟨hreading', -⟩
              · obtain ⟨req, msg, bound, hsaved⟩ := frame_writing hreading
                have hframe : frame r = .writing req msg := by simp [frame, hsaved, Context.frame?]
                rw [hframe] at hserves
                exact hinTime id r req msg bound hid hr hsaved hserves.1 hserves.2
              · exact absurd hreading' hreading
  | @kept el₁ o₁ t hran hopen' hkept hsock' hidle hview' hsame =>
      cases hran with
      | refused hfinished =>
          rw [hfinished r hr] at hunfinished
          cases hunfinished
      | @resumed r' hr' hctx' hfunc' hthrew =>
          rw [hr] at hr'
          cases hr'
          have hsound := connectionCallback_sound (el.conn.setEvent events) env.script (frame r)
          cases hended : (stretchOf el r events env.script).ended with
          | returned => exact absurd (hsound.buffer hended) hkept
          | threw e =>
              have hopened : (stretchOf el r events env.script).c.m_opened = true := hopen'
              rw [hthrown hended] at hopened
              cases hopened
          | yielded frame' =>
              have hfd : r.func.fd = fd := congrArg ConnectionRef.fd hfunc
              have hothers := keepsOthers_afterStretch hr hfd (w.ordinator.boundIn r.ctx)
                (.yielded frame')
              have hr₁ := Ordinator.routine?_yield hr frame' (w.ordinator.boundIn r.ctx)
              have hserving :=
                serving_of_cleared _ hview' hsock' hopen' hr₁ (Context.saved_ne_ended _ _)
                hfunc fun _ => hkept
              refine ⟨⟨?_, ho.yield hr hctx _ _⟩, hsame, hothers, fun _ => ?_⟩
              · exact h.each.kept ⟨t, _⟩ hsame hidle hothers.serving hserving honce
              · by_cases hreading : frame r = .reading
                · exact Or.inl (hquiet hreading)
                · right
                  obtain ⟨req, msg, bound, hsaved⟩ := frame_writing hreading
                  have hframe : frame r =
                      .writing req msg := by simp [frame, hsaved, Context.frame?]
                  rw [stretchOf, hframe] at hended
                  obtain ⟨msg', rfl⟩ := connectionCallback_writing hended
                  have hnew : t.m_coroutines.lookup fd = some id := congrArg View.routine hview'
                  exact ⟨id, _, req, msg', _, hnew, hr₁, hunfinished, rfl⟩
  | threw hr' hctx' hfunc' hthrew hbound hsock' hidle hview' hsame =>
      exact absurd rfl (hreturns _ _)

/-! ## The other members -/

theorem accept_serving {w : Worker} (h : WorkerServing w) {env : Env} (hadded : env.added = true)
    (hunused : 0 ≤ env.accepted.fd → ∀ fd el, w.work.m_connections.lookup fd = some el →
      el.conn.m_socket.m_fd ≠ env.accepted.fd) {k : WatchedSocket} (hk : k.Quiet) :
    (w.accept env).Leaves True
      fun w' => LeftServing env.accepted.fd k w w' ∧ ∀ fd, KeepsRegistered fd w.work w'.work := by
  have houtcome := accept_outcome seated_serving h.each hunused
  generalize w.accept env = res at houtcome
  cases houtcome with
  | refused => exact ⟨⟨h, .refl _ _, fun _ _ hr _ _ => hr, fun _ => Or.inl hk⟩, fun _ _ _ hj => hj⟩
  | @fresh t hfd _ habsent hnone hview hsame hidle =>
      have hothers := keepsOthers_create h.consistent env.accepted.fd
        ⟨env.accepted.fd, (w.newElement env.accepted).uid⟩
      refine ⟨⟨⟨?_, h.consistent.create _⟩, hsame, hothers, fun _ => Or.inl hk⟩,
        keepsRegistered_of_absent hsame habsent⟩
      refine h.each.accepted ⟨t, _⟩ env.now hsame hnone hidle hothers.serving ?_
      exact ⟨w.newElement env.accepted, _, { func := ⟨env.accepted.fd, _⟩ }, hview, rfl, rfl,
        Ordinator.routine?_create h.consistent _, Context.made_ne_ended, rfl, fun hne =>
          absurd rfl hne⟩
  | unregistered _ hnot _ _ _ _ _ =>
      rw [hadded] at hnot
      cases hnot

/-- Clients are dropped or left alone. -/
theorem sweep_serving {w : Worker} (h : WorkerServing w) (server : BaseHTTPServer)
    (spare : NewSocket) (clock : Nat → Int) :
    (w.work.dropTimeoutedConnections server spare clock).Leaves True fun t =>
      WorkerServing ⟨t, w.ordinator⟩ ∧ ∀ fd, fd ∈ t.registered → t.view fd = w.work.view fd := by
  let inv (t : ThreadWork) : Prop := Each View.Serving ⟨t, w.ordinator⟩ ∧
    ∀ fd, fd ∈ t.registered → t.view fd = w.work.view fd
  have hinv : (w.work.dropTimeoutedConnections server spare clock).Leaves True inv := by
    refine sweep_invariant (D := fun _ => True) (fun t since fd ht _ hsince => ?_)
      ⟨h.each, fun _ _ => rfl⟩ rfl clock fun _ _ => trivial
    obtain ⟨heach, hold⟩ := ht
    rcases disconnectClient_each seated_serving heach hsince spare with
      hundef | ⟨t', hok, hidle, habsent, hsame, heach'⟩
    · rw [hundef]
      trivial
    rw [hok]
    refine ⟨hidle, heach', fun j hj => ?_⟩
    have hne : j ≠ fd := by
      rintro rfl
      exact of_decide_eq_false (congrArg View.registered habsent) hj
    have hsame' := hsame j hne
    exact hsame'.trans (hold j (registered_of_view hsame'.symm hj))
  exact hinv.mono fun t ht => ⟨⟨ht.1, h.consistent⟩, ht.2⟩

theorem LeftServing.congr {fd : Int} {k : WatchedSocket} {w w₁ : Worker} (h : LeftServing fd k w w₁)
    {t : ThreadWork} (heach : Each View.Serving ⟨t, w₁.ordinator⟩)
    (hview : ∀ j, t.view j = w₁.work.view j) : LeftServing fd k w ⟨t, w₁.ordinator⟩ where
  serving := ⟨heach, h.serving.consistent⟩
  view j hj := (hview j).trans (h.view j hj)
  others := h.others
  awake hmem := by
    refine (h.awake (registered_of_view (hview fd).symm hmem)).imp_right ?_
    rintro ⟨id, r, req, msg, bound, hid, hrest⟩
    have hsame : t.m_coroutines.lookup fd = w₁.work.m_coroutines.lookup fd :=
      congrArg View.routine (hview fd)
    exact ⟨id, r, req, msg, bound, hsame.trans hid, hrest⟩

/-! ## Steps -/

/-- The events of the batch that are still to be handled. -/
def Point.events : Point → List Ready
  | .top | .waiting => []
  | .handling rest => rest

/-- What holds in every state of a run.  A client with something to be read and no event to be
reported has one in the batch. -/
structure WatchedServing (server : BaseHTTPServer) (s : Watched) : Prop where
  inRun : InRun server WorkerServing s.running
  awake : ∀ fd, fd ∈ s.running.worker.work.registered →
    (fd ≠ server.m_socket.m_fd ∧ fd ∈ s.running.point.events.map Ready.fd) ∨
      WillBeRead s.running.worker fd (s.sockets fd)

/-- A turn of the loop over the events was for the client `fd`, and the sockets of others were not
read. -/
structure Turned (server : BaseHTTPServer) (ready : Ready) (sockets sockets' : Int → WatchedSocket)
    (w w' : Worker) (fd : Int) : Prop where
  left : LeftServing fd (sockets' fd) w w'
  kept : KeepsRegistered ready.fd w.work w'.work
  own : ready.fd = server.m_socket.m_fd ∨ ready.fd = fd
  unread : ∀ j, j ≠ fd → j ∈ w.work.registered → Reading readSize (sockets j) [] (sockets' j)

theorem dispatch_serving {server : BaseHTTPServer} {s : Watched}
    (h : WorkerServing s.running.worker) {ready : Ready} {rest : List Ready}
    (hpoint : s.running.point = .handling (ready :: rest))
    (hready : ready.fd = server.m_socket.m_fd ∨ ready.fd ∈ s.running.worker.work.registered)
    {env : Env} {sockets' : Int → WatchedSocket} (hkernel : s.Kernel server sockets' (.handle env))
    (hadmitted : Undisturbed server s (.worker (.handle env) sockets'))
    (hinTime : ReadsInTime server s (.worker (.handle env) sockets')) :
    (s.running.worker.dispatch server ready env).Leaves True
      fun w' => ∃ fd, Turned server ready s.sockets sockets' s.running.worker w' fd := by
  obtain ⟨hpromised, ⟨hadded, hreads, hwrites⟩, hanswers, hreturns⟩ := hadmitted
  replace hkernel := hkernel ready rest hpoint
  have hclientTurned : ∀ w', ready.fd ≠ server.m_socket.m_fd →
      LeftServing ready.fd (sockets' ready.fd) s.running.worker w' →
        Turned server ready s.sockets sockets' s.running.worker w' ready.fd := by
    intro w' hclient hleft
    rw [if_neg hclient] at hkernel
    refine ⟨hleft, keepsRegistered_of_sameBut hleft.view, Or.inr rfl, fun j hj hreg => ?_⟩
    -- the handler has not read the sockets of other clients
    obtain ⟨⟨el, id, r, hview, -, hopen, hr, hctx, hfunc, -⟩, -⟩ :=
      (h.each ready.fd).client (Or.inr (Or.inl (hready.resolve_left hclient)))
    have hj' := hkernel j
    rwa [callsFor_own h.consistent hview hopen hr hctx hfunc, if_neg fun hown =>
      hj hown.2.symm] at hj'
  refine dispatch_leaves (P := fun w' => ready.fd ≠ server.m_socket.m_fd ∧
      LeftServing ready.fd (sockets' ready.fd) s.running.worker w')
    (fun hlisten => ?_) (fun hclient => ?_) (fun w₁ _ hleft hmem => ?_)
    fun w₁ hleft => ⟨ready.fd, hclientTurned w₁ hleft.1 hleft.2⟩
  · rw [if_pos hlisten] at hkernel
    have hquiet : (sockets' env.accepted.fd).Quiet := by simpa using hkernel env.accepted.fd
    refine (accept_serving h hadded hpromised hquiet).mono ?_
    rintro w' ⟨hleft, hkept⟩
    refine ⟨env.accepted.fd, hleft, hkept ready.fd, Or.inl hlisten, fun j hj _ => ?_⟩
    have hj' := hkernel j
    rwa [if_neg hj] at hj'
  · rw [if_neg hclient] at hkernel
    have hreturned : ∀ e w',
        s.running.worker.handleConnection ready.fd ready.events env ≠ .threw e w' := by
      intro e w' hthrew
      apply hreturns ready rest hpoint e w'
      rw [Worker.dispatch, if_neg hclient, hthrew, Outcome.andThen_threw]
    have hserving :=
      handleConnection_serving h (hready.resolve_left hclient) ready.events hreads hwrites
      hanswers hreturned (hkernel ready.fd) (hinTime ready rest hpoint hclient)
    exact hserving.mono fun w' hleft => ⟨hclient, hleft⟩
  · obtain ⟨hclient, hleft⟩ := hleft
    refine (resetConnectionTime_each hleft.serving.each ready.fd env.now).mono ?_
    rintro t ⟨heach, hview⟩
    exact ⟨ready.fd, hclientTurned _ hclient (hleft.congr heach hview)⟩

/-- Where no events are left to be handled, before a step and after it, and the tables have lost
clients at most. -/
theorem WatchedServing.without_events {server : BaseHTTPServer} {s : Watched}
    (h : WatchedServing server s) (hnone : s.running.point.events = []) {t : ThreadWork}
    (hserving : WorkerServing ⟨t, s.running.worker.ordinator⟩)
    (hview : ∀ fd, fd ∈ t.registered → t.view fd = s.running.worker.work.view fd) {point : Point}
    (hpoint : ∀ rest, point ≠ .handling rest) :
    WatchedServing server ⟨⟨⟨t, s.running.worker.ordinator⟩, point⟩, s.sockets⟩ where
  inRun := ⟨hserving, fun rest hrest => absurd hrest (hpoint rest)⟩
  awake fd hmem := by
    right
    have hold := h.awake fd (registered_of_view (hview fd hmem).symm hmem)
    rw [hnone] at hold
    rcases hold with ⟨-, hevent⟩ | hquiet | ⟨id, r, req, msg, bound, hid, hrest⟩
    · cases hevent
    · exact Or.inl hquiet
    · have hsame : t.m_coroutines.lookup fd = s.running.worker.work.m_coroutines.lookup fd :=
        congrArg View.routine (hview fd hmem)
      exact Or.inr ⟨id, r, req, msg, bound, hsame.trans hid, hrest⟩

/-- A turn of the loop over the events. -/
theorem WatchedServing.turned {server : BaseHTTPServer} {s : Watched} (h : WatchedServing server s)
    {ready : Ready} {rest : List Ready} (hpoint : s.running.point = .handling (ready :: rest))
    {sockets' : Int → WatchedSocket} {w : Worker} {fd : Int}
    (hturned : Turned server ready s.sockets sockets' s.running.worker w fd) :
    WatchedServing server ⟨⟨w, .handling rest⟩, sockets'⟩ where
  inRun := by
    refine ⟨hturned.left.serving, fun rest' hrest' => ?_⟩
    cases hrest'
    exact (h.inRun.pending _ hpoint).tail hturned.kept
  awake j hmem := by
    by_cases hj : j = fd
    · subst hj
      exact Or.inr (hturned.left.awake hmem)
    have hsame := hturned.left.view j hj
    have hreg : j ∈ s.running.worker.work.registered := registered_of_view hsame.symm hmem
    have hold := h.awake j hreg
    rw [hpoint] at hold
    rcases hold with ⟨hclient, hevent⟩ | hquiet | hwriting
    · refine Or.inl ⟨hclient, ?_⟩
      rcases List.mem_cons.mp hevent with hself | hrest
      · -- the event was for `fd` or the listening socket
        rcases hturned.own with hlisten | hown
        · exact absurd (hself.trans hlisten) hclient
        · exact absurd (hself.trans hown) hj
      · exact hrest
    · exact Or.inr (Or.inl ((hturned.unread j hj hreg).quiet_of_quiet rfl hquiet))
    · have hserving := ((h.inRun.inv.each j).client (Or.inr (Or.inl hreg))).1
      exact Or.inr (Or.inr (hwriting.kept hserving hj hsame hturned.left.others))

theorem step_awake {server : BaseHTTPServer} {s s' : Watched} (h : WatchedServing server s)
    {act : WatchedAct} (hadmitted : Undisturbed server s act) (hinTime : ReadsInTime server s act)
    (hstep : s.Step server act s') : WatchedServing server s' := by
  cases act with
  | happens fd k =>
      obtain ⟨hk, rfl⟩ := hstep
      refine ⟨h.inRun, fun j hj => ?_⟩
      by_cases hfd : j = fd
      · subst hfd
        refine Or.inr (Or.inl (Or.inl ?_))
        dsimp only
        rw [Function.update_self]
        exact hk.pending
      · dsimp only
        rw [Function.update_of_ne hfd]
        exact h.awake j hj
  | worker act sockets' =>
      obtain ⟨running', sockets''⟩ := s'
      obtain ⟨hrun, hkernel, hsockets⟩ := hstep
      cases hsockets
      have hserving := h.inRun.inv
      cases hrun.cases with
      | @dropped spare clock t hpoint hdrop =>
          have hsweep := sweep_serving hserving server spare clock
          rw [hdrop] at hsweep
          cases hkernel
          exact h.without_events (by rw [hpoint]; rfl) hsweep.1 hsweep.2 Point.waiting_ne_handling
      | @dropThrew spare clock e t hpoint hdrop =>
          have hsweep := sweep_serving hserving server spare clock
          rw [hdrop] at hsweep
          cases hkernel
          exact h.without_events (by rw [hpoint]; rfl) hsweep.1 hsweep.2 Point.top_ne_handling
      | waitedInVain hpoint =>
          cases hkernel
          exact h.without_events (by rw [hpoint]; rfl) hserving
            (fun _ _ => rfl) Point.top_ne_handling
      | waitFailed hpoint => exact absurd rfl hadmitted.2.1
      | @woken events hpoint =>
          obtain ⟨-, hsockets⟩ := hkernel
          refine ⟨⟨hserving, fun rest hrest => ?_⟩, fun fd hmem => ?_⟩
          · cases hrest
            exact hadmitted.1
          · by_cases hevent : fd ≠ server.m_socket.m_fd ∧ fd ∈ events.map Ready.fd
            · exact Or.inl hevent
            · have hold := h.awake fd hmem
              rw [hpoint] at hold
              have hquiet := hold.resolve_left fun hbatch => by cases hbatch.2
              have hsame : sockets'' fd = s.sockets fd := (hsockets fd).trans (if_neg hevent)
              dsimp only
              rw [hsame]
              exact Or.inr hquiet
      | @handled ready rest env w hpoint hdispatch =>
          have hready := (h.inRun.pending _ hpoint).2 ready List.mem_cons_self
          have hturned := dispatch_serving hserving hpoint hready hkernel hadmitted hinTime
          rw [hdispatch] at hturned
          obtain ⟨fd, hturned⟩ := hturned
          exact h.turned hpoint hturned
      | @handleThrew ready rest env e w hpoint hdispatch =>
          exact absurd hdispatch (hadmitted.2.2.2 ready rest hpoint e w)
      | finished hpoint =>
          cases hkernel
          exact h.without_events (by rw [hpoint]; rfl) hserving
            (fun _ _ => rfl) Point.top_ne_handling

/-! ## Runs -/

/-- When the worker is about to wait, a client without an event to be reported has nothing to read,
or its coroutine is suspended in `writeResponse`. -/
def NoLostWakeup (s : Watched) : Prop :=
  s.running.point = .waiting → ∀ fd el, s.running.worker.work.m_connections.lookup fd = some el →
    el.conn.isOpened = true → (s.sockets fd).pending = false →
      (s.sockets fd).received = [] ∨ SuspendedWriting s.running.worker fd

theorem WatchedServing.noLostWakeup {server : BaseHTTPServer} {s : Watched}
    (h : WatchedServing server s) : NoLostWakeup s := by
  intro hpoint fd el hel _ hnone
  obtain ⟨⟨el', id, r, hview, -⟩, -⟩ :=
    (h.inRun.inv.each fd).client (Or.inl (Support.OrdMap.mem_of_lookup hel))
  have hreg : fd ∈ s.running.worker.work.registered :=
    of_decide_eq_true (congrArg View.registered hview)
  have hawake := h.awake fd hreg
  rw [hpoint] at hawake
  rcases hawake with ⟨-, hevent⟩ | (hpending | hnothing) | hwriting
  · cases hevent
  · rw [hnone] at hpending
    cases hpending
  · exact Or.inl hnothing
  · exact Or.inr hwriting

/-- The steps that are admitted in a run in which no wake-up is lost. -/
abbrev ReachesInTime (server : BaseHTTPServer) : Watched → Watched → Prop :=
  Support.Reaches (Watched.Step server) fun s act => Undisturbed server s act ∧
    ReadsInTime server s act

/-- In a run in which no handler throws and no call fails, no wake-up is lost, as long
as a coroutine that is through with its response leaves nothing unread that has come
without a further event. -/
theorem no_lost_wakeup {server : BaseHTTPServer} {s : Watched} (hrun : ReachesInTime server {} s) :
    NoLostWakeup s := by
  have hinv : WatchedServing server s := by
    refine hrun.invariant (fun s act s' hinv hadmitted hs => ?_) ?_
    · exact step_awake hinv hadmitted.1 hadmitted.2 hs
    · exact ⟨inRun_top ⟨each_new, Ordinator.consistent_new⟩, fun fd hmem => by cases hmem⟩
  exact hinv.noLostWakeup

/-! ## A client that asks twice -/

/-- A request that asks for the connection to be kept. -/
def keepAliveText : Bytes :=
  ascii "GET / HTTP/1.1" ++ CRLF ++ ascii "Connection: keep-alive" ++ CRLF ++ CRLF

/-- A client is accepted. -/
def clientArrives : Env where
  accepted := ⟨5, 0⟩
  script := ⟨[], fun _ => .ok {}, []⟩
  now := 1

/-- That request arrives, and there is send space for the first bytes of the response only. -/
def requestArrives : Env where
  script := ⟨[.data keepAliveText], fun _ => .ok {}, [.wrote 5]⟩
  now := 2

/-- There is send space. -/
def sendSpace (count : Nat) : Env where
  script := ⟨[], fun _ => .ok {}, [.wrote count]⟩
  now := 3

/-- The worker after an event of its only client. -/
def afterEvent (w : Worker) (env : Env) : Worker :=
  match w.dispatch serverOn3 ⟨5, 1⟩ env with
  | .ok w => w
  | _ => {}

/-- The worker after the request; its client's coroutine is suspended in `writeResponse`. -/
def answering : Worker := afterEvent oneClient requestArrives

def keepAliveRequest : HTTPRequest :=
  match HTTPRequest.ofString keepAliveText with
  | .ok req => req
  | .error _ => {}

/-- The worker after all of the response was written. -/
def answered : Worker := afterEvent answering (sendSpace 1000)

/-- The client's routine when that many bytes of the response were written. -/
def suspendedAfter (sent : Nat) : Routine ConnectionRef Frame where
  func := ⟨5, 0⟩
  ctx := .saved (.writing keepAliveRequest (({} : HTTPResponse).toString.1.drop sent)) 1

/-- The sockets, of which only that of descriptor 5 is in use. -/
def onlySocket (k : WatchedSocket) : Int → WatchedSocket := Function.update (fun _ => {}) 5 k

theorem reading_onlySocket {k k' : WatchedSocket} {calls : Int → List SysRead}
    (hclient : Reading readSize k (calls 5) k') (hothers : ∀ fd, fd ≠ 5 → calls fd = [])
    (fd : Int) : Reading readSize (onlySocket k fd) (calls fd) (onlySocket k' fd) := by
  by_cases hfd : fd = 5
  · subst hfd
    simpa [onlySocket] using hclient
  · rw [hothers fd hfd]
    simpa [onlySocket, hfd] using Reading.done _

section OneClient

variable {w : Worker} {k k' : WatchedSocket}

theorem ReachesInTime.happens {point : Point}
    (h : ReachesInTime serverOn3 {} ⟨⟨w, point⟩, onlySocket k⟩) (hk : Happens k k') :
    ReachesInTime serverOn3 {} ⟨⟨w, point⟩, onlySocket k'⟩ := by
  refine h.tail ⟨.happens 5 k', ⟨trivial, trivial⟩, ?_, ?_⟩
  · simpa [onlySocket] using hk
  · simp [onlySocket]

theorem ReachesInTime.waits (h : ReachesInTime serverOn3 {} ⟨⟨w, .top⟩, onlySocket k⟩)
    (hdrop : Running.Step serverOn3 ⟨w, .top⟩ (.drop {} fun _ => 1) ⟨w, .waiting⟩) :
    ReachesInTime serverOn3 {} ⟨⟨w, .waiting⟩, onlySocket k⟩ :=
  h.tail ⟨.worker (.drop {} fun _ => 1) (onlySocket k), ⟨⟨trivial, trivial, trivial⟩, trivial⟩,
    hdrop, rfl, rfl⟩

/-- An event of the only client is reported. -/
theorem ReachesInTime.woken (h : ReachesInTime serverOn3 {} ⟨⟨w, .waiting⟩, onlySocket k⟩)
    (hreg : 5 ∈ w.work.registered) (hk : k.pending = true) :
    ReachesInTime serverOn3 {}
      ⟨⟨w, .handling [⟨5, 1⟩]⟩, onlySocket { k with pending := false }⟩ := by
  have hpromised : Running.Promised serverOn3 ⟨w, .waiting⟩ (.wait (.ready [⟨5, 1⟩])) :=
    ⟨by decide, by simpa [serverOn3] using hreg⟩
  refine h.tail ⟨.worker (.wait (.ready [⟨5, 1⟩])) _,
    ⟨⟨hpromised, noCallFails_ready _ _, trivial⟩, trivial⟩, rfl, ⟨?_, fun fd => ?_⟩, rfl⟩
  · simpa [onlySocket] using fun _ => hk
  · by_cases hfd : fd = 5
    · subst hfd
      simp [onlySocket, serverOn3]
    · simp [onlySocket, hfd]

theorem dispatch_of_step {env : Env} {w' : Worker}
    (hstep : Running.Step serverOn3 ⟨w, .handling [⟨5, 1⟩]⟩ (.handle env) ⟨w', .handling []⟩) :
    w.dispatch serverOn3 ⟨5, 1⟩ env = .ok w' := by
  rcases caught_goesOn (Option.some.inj hstep) with ⟨w'', hok, heq⟩ | ⟨e, w'', -, heq⟩
  · cases heq
    exact hok
  · cases heq

theorem undisturbed_turn {env : Env} {w' : Worker}
    (hstep : Running.Step serverOn3 ⟨w, .handling [⟨5, 1⟩]⟩ (.handle env) ⟨w', .handling []⟩)
    (hnone : env.accepted.fd < 0) (hcalls : ∀ s, NoCallFails s (.handle env))
    (hanswers : ∀ req, ∃ resp, env.script.onRequest req = .ok resp)
    (sockets sockets' : Int → WatchedSocket) :
    Undisturbed serverOn3 ⟨⟨w, .handling [⟨5, 1⟩]⟩, sockets⟩ (.worker (.handle env) sockets') := by
  refine ⟨fun hfd => absurd hnone (not_lt.mpr hfd), hcalls _, hanswers, ?_⟩
  intro ready rest hpoint e w'' hthrew
  cases hpoint
  rw [dispatch_of_step hstep] at hthrew
  cases hthrew

/-- An event of the only client is handled. -/
theorem turn_step {env : Env} {w' : Worker}
    (hstep : Running.Step serverOn3 ⟨w, .handling [⟨5, 1⟩]⟩ (.handle env) ⟨w', .handling []⟩)
    (id : Nat) (r : Routine ConnectionRef Frame) (hid : w.work.m_coroutines.lookup 5 = some id)
    (hr : w.ordinator.routine? id = some r) (hfd : r.func.fd = 5)
    (hreading : Reading readSize k (callsFor w 5 env.script 5) k') :
    Watched.Step serverOn3 ⟨⟨w, .handling [⟨5, 1⟩]⟩, onlySocket k⟩
      (.worker (.handle env) (onlySocket k')) ⟨⟨w', .handling []⟩, onlySocket k'⟩ := by
  refine ⟨hstep, fun ready rest hpoint => ?_, rfl⟩
  cases hpoint
  rw [if_neg (by decide)]
  exact reading_onlySocket hreading fun fd hne =>
    callsFor_ne hid hr (fun heq => hne (heq.symm.trans hfd)) env.script

theorem ReachesInTime.handled
    (h : ReachesInTime serverOn3 {} ⟨⟨w, .handling [⟨5, 1⟩]⟩, onlySocket k⟩) {env : Env}
    {w' : Worker}
    (hstep : Running.Step serverOn3 ⟨w, .handling [⟨5, 1⟩]⟩ (.handle env) ⟨w', .handling []⟩)
    (hundisturbed : ∀ sockets sockets',
      Undisturbed serverOn3 ⟨⟨w, .handling [⟨5, 1⟩]⟩, sockets⟩ (.worker (.handle env) sockets'))
    (id : Nat) (r : Routine ConnectionRef Frame) (hid : w.work.m_coroutines.lookup 5 = some id)
    (hr : w.ordinator.routine? id = some r) (hfd : r.func.fd = 5)
    (hreading : Reading readSize k (callsFor w 5 env.script 5) k')
    (hinTime : ∀ req msg bound, r.ctx = .saved (.writing req msg) bound →
      takesAll msg.length env.script.writes = false) :
    ReachesInTime serverOn3 {} ⟨⟨w', .top⟩, onlySocket k'⟩ := by
  have hturn : ReachesInTime serverOn3 {} ⟨⟨w', .handling []⟩, onlySocket k'⟩ := by
    refine h.tail ⟨_, ⟨hundisturbed _ _, ?_⟩, turn_step hstep id r hid hr hfd hreading⟩
    intro ready rest hpoint _ id' r' req msg bound hid' hr' hctx hall
    cases hpoint
    rw [hid] at hid'
    cases hid'
    rw [hr] at hr'
    cases hr'
    rw [hinTime req msg bound hctx] at hall
    cases hall
  exact hturn.tail ⟨.worker .finish _, ⟨⟨trivial, trivial, trivial⟩, trivial⟩, rfl, rfl, rfl⟩

theorem waits_again {sockets : Int → WatchedSocket}
    (h : Support.Reaches (Watched.Step serverOn3) (Undisturbed serverOn3) {}
      ⟨⟨w, .handling []⟩, sockets⟩)
    (hdrop : Running.Step serverOn3 ⟨w, .top⟩ (.drop {} fun _ => 1) ⟨w, .waiting⟩) :
    Support.Reaches (Watched.Step serverOn3) (Undisturbed serverOn3) {}
      ⟨⟨w, .waiting⟩, sockets⟩ := by
  have htop : Support.Reaches (Watched.Step serverOn3) (Undisturbed serverOn3) {}
      ⟨⟨w, .top⟩, sockets⟩ :=
    h.tail ⟨.worker .finish sockets, ⟨trivial, trivial, trivial⟩, rfl, rfl, rfl⟩
  exact htop.tail ⟨.worker (.drop {} fun _ => 1) sockets, ⟨trivial, trivial, trivial⟩,
    hdrop, rfl, rfl⟩

end OneClient

theorem requestArrives_calls (s : Running) : NoCallFails s (.handle requestArrives) :=
  ⟨rfl, by simp [requestArrives], by simp [requestArrives]⟩

theorem sendSpace_calls (count : Nat) (s : Running) : NoCallFails s (.handle (sendSpace count)) :=
  ⟨rfl, by simp [sendSpace], by simp [sendSpace]⟩

theorem reaches_accepted : ReachesInTime serverOn3 {} ⟨⟨oneClient, .top⟩, onlySocket {}⟩ := by
  have hnew : onlySocket {} = fun _ => {} := Function.update_eq_self _ _
  rw [hnew]
  have hwaiting : ReachesInTime serverOn3 {} ⟨⟨{}, .waiting⟩, fun _ => {}⟩ :=
    .single ⟨.worker (.drop {} fun _ => 0) _, ⟨⟨trivial, trivial, trivial⟩, trivial⟩, rfl, rfl, rfl⟩
  have hready : ReachesInTime serverOn3 {} ⟨⟨{}, .handling [⟨3, 1⟩]⟩, fun _ => {}⟩ := by
    refine hwaiting.tail ⟨.worker (.wait (.ready [⟨3, 1⟩])) _,
      ⟨⟨listening_promised _, noCallFails_ready _ _, trivial⟩, trivial⟩, rfl,
      ⟨?_, fun fd => ?_⟩, rfl⟩
    · intro ready hmem hclient
      rw [List.mem_singleton.mp hmem] at hclient
      exact absurd rfl hclient
    · simp
  have hok : ({} : Worker).dispatch serverOn3 ⟨3, 1⟩ clientArrives = .ok oneClient := rfl
  have haccept : Undisturbed serverOn3 ⟨⟨{}, .handling [⟨3, 1⟩]⟩, fun _ => {}⟩
      (.worker (.handle clientArrives) fun _ => {}) := by
    refine ⟨accepting_promised_first 5 1, ?_, fun _ => ⟨{}, rfl⟩, ?_⟩
    · exact ⟨rfl, by simp [clientArrives], by simp [clientArrives]⟩
    · intro ready rest hpoint e w hthrew
      cases hpoint
      rw [hok] at hthrew
      cases hthrew
  have haccepted : ReachesInTime serverOn3 {} ⟨⟨oneClient, .handling []⟩, fun _ => {}⟩ := by
    refine hready.tail ⟨.worker (.handle clientArrives) _, ⟨haccept, ?_⟩, rfl, ?_, rfl⟩
    · intro ready rest hpoint hclient
      cases hpoint
      exact absurd rfl hclient
    · intro ready rest hpoint
      cases hpoint
      rw [if_pos (by decide)]
      intro fd
      split
      · exact Or.inr rfl
      · exact .done _
  exact haccepted.tail ⟨.worker .finish _, ⟨⟨trivial, trivial, trivial⟩, trivial⟩, rfl, rfl, rfl⟩

/-- The client's first request has been read and its response is not through.  A second request
arrives, and then there is send space: one event for both. -/
theorem reaches_unread :
    ReachesInTime serverOn3 {}
      ⟨⟨answering, .handling [⟨5, 1⟩]⟩, onlySocket { received := keepAliveText }⟩ := by
  have harrived := reaches_accepted.happens (.arrives (k := {}) keepAliveText rfl)
  have hwoken := (ReachesInTime.waits harrived rfl).woken (by decide) rfl
  have hstep : Running.Step serverOn3 ⟨oneClient, .handling [⟨5, 1⟩]⟩ (.handle requestArrives)
      ⟨answering, .handling []⟩ := by
    unfold Running.Step
    decide +kernel
  have hcalls : callsFor oneClient 5 requestArrives.script 5 =
      [.data keepAliveText, .wouldBlock] := by
    decide +kernel
  have hreading : Reading readSize { received := keepAliveText }
      (callsFor oneClient 5 requestArrives.script 5) {} := by
    rw [hcalls]
    exact .data (by decide) (by decide) (List.append_nil _).symm (.wouldBlock rfl rfl (.done _))
  have hanswering := hwoken.handled hstep
    (undisturbed_turn hstep (by decide) requestArrives_calls fun _ => ⟨{}, rfl⟩)
    1 { func := ⟨5, 0⟩ } rfl rfl rfl hreading fun _ _ _ hctx => by cases hctx
  have hsecond := hanswering.happens (.arrives (k := {}) keepAliveText rfl)
  have hspace := hsecond.happens .writable
  have hwaiting := ReachesInTime.waits hspace (by unfold Running.Step; decide +kernel)
  exact hwaiting.woken (by decide +kernel) rfl

theorem answering_routine : answering.ordinator.routine? 1 = some (suspendedAfter 5) := by
  decide +kernel

/-- There is send space, but not for all of the response: its coroutine stays suspended, and the
second request has not been read. -/
theorem no_lost_wakeup_oneClient :
    ∃ s, ReachesInTime serverOn3 {} s ∧ s.running.point = .waiting ∧ (s.sockets 5).pending = false ∧
      (s.sockets 5).received ≠ [] ∧ NoLostWakeup s := by
  have hstep : Running.Step serverOn3 ⟨answering, .handling [⟨5, 1⟩]⟩ (.handle (sendSpace 3))
      ⟨afterEvent answering (sendSpace 3), .handling []⟩ := by
    unfold Running.Step
    decide +kernel
  have hcalls : callsFor answering 5 (sendSpace 3).script 5 = [] := by decide +kernel
  have hreading : Reading readSize { received := keepAliveText }
      (callsFor answering 5 (sendSpace 3).script 5) { received := keepAliveText } := by
    rw [hcalls]
    exact .done _
  have hunread := reaches_unread.handled hstep
    (undisturbed_turn hstep (by decide) (sendSpace_calls 3) fun _ => ⟨{}, rfl⟩)
    1 (suspendedAfter 5) (by decide +kernel) answering_routine rfl hreading
    fun req msg bound hctx => by
      cases hctx
      decide +kernel
  have hwaiting := ReachesInTime.waits hunread (by unfold Running.Step; decide +kernel)
  refine ⟨_, hwaiting, rfl, rfl, ?_, no_lost_wakeup hwaiting⟩
  show keepAliveText ≠ []
  decide

/-- There is send space for all of the response: the client gets a new coroutine, which waits for an
event while the second request is there to be read. -/
theorem unread_request_sleeps :
    ∃ s, Support.Reaches (Watched.Step serverOn3) (Undisturbed serverOn3) {} s ∧
      ¬NoLostWakeup s := by
  have hstep : Running.Step serverOn3 ⟨answering, .handling [⟨5, 1⟩]⟩ (.handle (sendSpace 1000))
      ⟨answered, .handling []⟩ := by
    unfold Running.Step
    decide +kernel
  have hcalls : callsFor answering 5 (sendSpace 1000).script 5 = [] := by decide +kernel
  have hreading : Reading readSize { received := keepAliveText }
      (callsFor answering 5 (sendSpace 1000).script 5) { received := keepAliveText } := by
    rw [hcalls]
    exact .done _
  have hfirst : Support.Reaches (Watched.Step serverOn3) (Undisturbed serverOn3) {}
      ⟨⟨answering, .handling [⟨5, 1⟩]⟩, onlySocket { received := keepAliveText }⟩ :=
    Support.Reaches.mono reaches_unread fun _ _ hadmitted => hadmitted.1
  have hturn : Support.Reaches (Watched.Step serverOn3) (Undisturbed serverOn3) {}
      ⟨⟨answered, .handling []⟩, onlySocket { received := keepAliveText }⟩ :=
    hfirst.tail ⟨_, undisturbed_turn hstep (by decide) (sendSpace_calls 1000)
      (fun _ => ⟨{}, rfl⟩) _ _,
      turn_step hstep 1 (suspendedAfter 5) (by decide +kernel) answering_routine rfl hreading⟩
  refine ⟨_, waits_again hturn (by unfold Running.Step; decide +kernel), fun h => ?_⟩
  have hopen : (answered.work.m_connections.lookup 5).map (·.conn.isOpened) = some true := by
    decide +kernel
  have hid : answered.work.m_coroutines.lookup 5 = some 1 := by decide +kernel
  have hr : answered.ordinator.routine? 1 = some { func := ⟨5, 0⟩ } := by decide +kernel
  obtain ⟨el, hel, hopen⟩ := Option.map_eq_some_iff.mp hopen
  have hself := h rfl 5 el
  dsimp only at hself
  rcases hself hel hopen rfl with hnothing | ⟨id, r, req, msg, bound, hid', hr', -, hctx⟩
  · have hunread : keepAliveText = [] := hnothing
    exact absurd hunread (by decide)
  · rw [hid] at hid'
    cases hid'
    rw [hr] at hr'
    cases hr'
    cases hctx

end HTTP
end AdvCppHW
