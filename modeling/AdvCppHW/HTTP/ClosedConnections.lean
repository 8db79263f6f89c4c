import AdvCppHW.HTTP.CoroutineOwnership

/-!
# Closed connections

A connection that its coroutine has closed is disconnected behind `Coroutine::resume`.  One that
has met the end of the stream is not, when the exception that follows comes back from there: it
stays in the tables of the worker.

* `ReapsClosed` — the condition on the steps; `handleConnection_opened`,
  `step_opened` — what they keep.
* `connections_reaped` — the invariant over whole runs; `closed_connection_stays` — a closed
  connection at the top of the loop.
-/

namespace AdvCppHW
namespace HTTP

open Coroutine ThreadWork Worker

/-- A client with an open connection: registered, and with a coroutine, unless registering it has
failed. -/
def View.Opened (_ : Ordinator ConnectionRef Frame) (fd : Int) (v : View) : Prop :=
  ∃ el, el.conn.m_socket.m_fd = fd ∧ el.conn.m_opened = true ∧
    (v = ⟨some el, none, false⟩ ∨ ∃ id, v = ⟨some el, some id, true⟩)

theorem seated_opened : ClientProperty.Seated View.Opened := by
  rintro o fd v ⟨el, hsock, -, rfl | ⟨id, rfl⟩⟩
  · exact ⟨el, rfl, hsock⟩
  · exact ⟨el, rfl, hsock⟩

/-- An open client whose events were cleared behind `Coroutine::resume`. -/
theorem opened_of_cleared {o : Ordinator ConnectionRef Frame} {fd : Int} {el : Element} {id : Nat}
    {v : View} (hsock : el.conn.m_socket.m_fd = fd) (hopen : el.conn.m_opened = true)
    (h : v = ⟨some { el with conn := el.conn.clearEvents }, some id, true⟩) : View.Opened o fd v :=
  ⟨{ el with conn := el.conn.clearEvents }, hsock, hopen, Or.inr ⟨id, h⟩⟩

/-- What holds of the worker in every state of a run. -/
structure WorkerOpened (w : Worker) : Prop where
  each : Each View.Opened w
  consistent : w.ordinator.Consistent

/-- The coroutine that an event of `fd` resumes was made for `fd`, and does not meet the end of the
stream, unless the table has moved since `entry` took its reference. -/
def EndIsNotMet (w : Worker) (fd : Int) (script : Script) : Prop :=
  ∀ id r, w.work.m_coroutines.lookup fd = some id → w.ordinator.routine? id = some r →
    r.finished = true ∨ r.func.fd = fd ∧
      (w.ordinator.boundIn r.ctx = w.ordinator.storage → ¬MeetsEnd (frame r) script)

/-- The condition under which handling an event leaves no closed connection behind. -/
def ReapsClosed (server : BaseHTTPServer) (s : Running) : Act → Prop
  | .handle env => ∀ ready rest, s.point = .handling (ready :: rest) →
      ready.fd ≠ server.m_socket.m_fd → EndIsNotMet s.worker ready.fd env.script
  | _ => True

/-! ## Members and steps -/

/-- After a handler all connections are open; about other descriptors the tables hold what they held
before. -/
structure LeftOpened (fd : Int) (w w' : Worker) : Prop where
  opened : WorkerOpened w'
  view : SameBut fd w.work w'.work

theorem handleConnection_opened {w : Worker} (h : WorkerOpened w) {fd : Int}
    (hmem : fd ∈ w.work.registered) {events : UInt32} {env : Env}
    (hcond : EndIsNotMet w fd env.script) :
    (w.handleConnection fd events env).Leaves True (LeftOpened fd w) := by
  obtain ⟨⟨el, hsock, hopen, hview⟩, honce⟩ := (h.each fd).client (Or.inr (Or.inl hmem))
  rcases hview with hview | ⟨id, hview⟩
  · exact absurd hmem (of_decide_eq_false (congrArg View.registered hview))
  have hcond' := fun r => hcond id r (congrArg View.routine hview)
  have houtcome := handleConnection_outcome events env h.consistent hview hsock
    fun r hr => (hcond' r hr).imp_right And.left
  generalize w.handleConnection fd events env = res at houtcome
  cases houtcome with
  | undefined why => trivial
  | disconnected hran hclosed htime hidle hview' hsame =>
      exact ⟨⟨h.each.erased ⟨_, _⟩ (fun _ _ hv => hv) htime hidle hview' hsame,
        hran.consistent h.consistent⟩, hsame⟩
  | created hran hopen' hempty hsock' hidle hview' hsame =>
      exact ⟨⟨h.each.kept ⟨_, _⟩ hsame hidle (fun _ _ hv => hv)
        (opened_of_cleared hsock' hopen' hview') honce,
        (hran.consistent h.consistent).create _⟩, hsame⟩
  | kept hran hopen' hkept hsock' hidle hview' hsame =>
      exact ⟨⟨h.each.kept ⟨_, _⟩ hsame hidle (fun _ _ hv => hv)
        (opened_of_cleared hsock' hopen' hview') honce, hran.consistent h.consistent⟩, hsame⟩
  | @threw r e t hr hctx hfunc hthrew hbound hsock' hidle hview' hsame =>
      -- the connection stays in the tables, so it has to be open
      have hunfinished := (h.consistent.unfinished hr hctx).1
      have hnot :=
        ((hcond' r hr).resolve_left (by rw [hunfinished]; exact Bool.false_ne_true)).2 hbound
      have hopen' : (stretchOf el r events env.script).c.m_opened = true := by
        rcases connectionCallback_opened (c := el.conn.setEvent events) hopen env.script
          (frame r) with
          hopen' | hreturned | ⟨hmeets, -⟩
        · exact hopen'
        · rw [← stretchOf, hthrew] at hreturned
          cases hreturned
        · exact absurd hmeets hnot
      exact ⟨⟨h.each.kept ⟨_, _⟩ hsame hidle (fun _ _ hv => hv)
        ⟨_, hsock', hopen', Or.inr ⟨_, hview'⟩⟩ honce,
        h.consistent.finish hr hctx _ _⟩, hsame⟩

theorem accept_opened {w : Worker} (h : WorkerOpened w) {env : Env}
    (hunused : 0 ≤ env.accepted.fd → ∀ fd el, w.work.m_connections.lookup fd = some el →
      el.conn.m_socket.m_fd ≠ env.accepted.fd) :
    (w.accept env).Leaves True
      fun w' => WorkerOpened w' ∧ ∀ fd, KeepsRegistered fd w.work w'.work := by
  have houtcome := accept_outcome seated_opened h.each hunused
  generalize w.accept env = res at houtcome
  cases houtcome with
  | refused => exact ⟨h, fun _ _ _ hj => hj⟩
  | fresh hfd hadded habsent hnone hview hsame hidle =>
      refine ⟨⟨?_, h.consistent.create _⟩, keepsRegistered_of_absent hsame habsent⟩
      exact h.each.accepted ⟨_, _⟩ env.now hsame hnone hidle (fun _ _ hv => hv)
        ⟨_, rfl, rfl, Or.inr ⟨_, hview⟩⟩
  | unregistered hfd hadded habsent hnone hview hsame hidle =>
      refine ⟨⟨?_, h.consistent⟩, keepsRegistered_of_absent hsame habsent⟩
      exact h.each.accepted ⟨_, _⟩ env.now hsame hnone hidle (fun _ _ hv => hv)
        ⟨_, rfl, rfl, Or.inl hview⟩

theorem dispatch_opened {server : BaseHTTPServer} {w : Worker} (h : WorkerOpened w) {ready : Ready}
    (hready : ready.fd = server.m_socket.m_fd ∨ ready.fd ∈ w.work.registered) {env : Env}
    (hunused : 0 ≤ env.accepted.fd → ∀ fd el, w.work.m_connections.lookup fd = some el →
      el.conn.m_socket.m_fd ≠ env.accepted.fd)
    (hcond : ready.fd ≠ server.m_socket.m_fd → EndIsNotMet w ready.fd env.script) :
    (w.dispatch server ready env).Leaves True
      fun w' => WorkerOpened w' ∧ KeepsRegistered ready.fd w.work w'.work := by
  refine dispatch_leaves (P := LeftOpened ready.fd w) (fun hlisten => ?_) (fun hclient => ?_)
    (fun w₁ hclient hleft hmem => ?_) fun w₁ hleft => ?_
  · exact (accept_opened h hunused).mono fun w' h' => ⟨h'.1, h'.2 ready.fd⟩
  · exact handleConnection_opened h (hready.resolve_left hclient) (hcond hclient)
  · refine (resetConnectionTime_each hleft.opened.each ready.fd env.now).mono ?_
    rintro t ⟨heach, hview⟩
    exact ⟨⟨heach, hleft.opened.consistent⟩,
      keepsRegistered_of_sameBut (hleft.view.trans fun j _ => hview j)⟩
  · exact ⟨hleft.opened, keepsRegistered_of_sameBut hleft.view⟩

theorem step_opened {server : BaseHTTPServer} {s : Running} (h : InRun server WorkerOpened s)
    {act : Act} (hpromised : s.Promised server act) (hcond : ReapsClosed server s act) {next : Next}
    (hstep : s.step server act = some next) : next.Keeps True (InRun server WorkerOpened) := by
  refine step_keeps (fun spare clock _ hw => ?_) (fun ready rest env hpoint hact hw hready => ?_) h
    hpromised hstep
  · exact (sweep_each seated_opened hw.each server spare clock).mono fun t ht => ⟨ht, hw.consistent⟩
  · subst hact
    exact dispatch_opened hw hready hpromised (hcond ready rest hpoint)

/-! ## Runs -/

/-- Every connection is open, and nothing is left of those that are not in `m_connections`. -/
structure ConnectionsOpen (t : ThreadWork) : Prop where
  opened : ∀ fd el, t.m_connections.lookup fd = some el → el.conn.isOpened = true
  nothingLeft : ∀ fd, fd ∉ t.m_connections → fd ∉ t.m_coroutines ∧ fd ∉ t.registered ∧
    ∀ time, t.m_idleTime.lookup time ≠ some fd

theorem Each.connectionsOpen {w : Worker} (h : Each View.Opened w) : ConnectionsOpen w.work where
  opened fd el hel := by
    obtain ⟨⟨el', -, hopen, hview⟩, -⟩ := (h fd).client (Or.inl (Support.OrdMap.mem_of_lookup hel))
    have hel' : w.work.m_connections.lookup fd = some el' := by
      rcases hview with hview | ⟨id, hview⟩
      · exact lookup_of_view hview
      · exact lookup_of_view hview
    rw [hel'] at hel
    cases hel
    exact hopen
  nothingLeft fd hmem := by
    rcases h fd with ⟨hview, hnone⟩ | ⟨⟨el, -, -, hview⟩, -⟩
    · exact ⟨Support.OrdMap.notMem_iff.mpr (congrArg View.routine hview),
        of_decide_eq_false (congrArg View.registered hview), hnone⟩
    · refine absurd (Support.OrdMap.mem_of_lookup (v := el) ?_) hmem
      rcases hview with hview | ⟨id, hview⟩
      · exact lookup_of_view hview
      · exact lookup_of_view hview

/-- In a run in which no event's coroutine meets the end of the stream or belongs to another client,
all connections are open in every state, so those that were closed have left all tables. -/
theorem connections_reaped {server : BaseHTTPServer} {s : Running}
    (hrun : Support.Reaches (Running.Step server)
      (fun s act => s.Promised server act ∧ ReapsClosed server s act) {} s) :
    ConnectionsOpen s.worker.work := by
  have hinv : InRun server WorkerOpened s := by
    refine hrun.invariant (fun s act s' hinv hadmitted hs => ?_)
      (inRun_top ⟨each_new, Ordinator.consistent_new⟩)
    show (Next.goesOn s').Keeps True (InRun server WorkerOpened)
    exact step_opened hinv hadmitted.1 hadmitted.2 hs
  exact hinv.inv.each.connectionsOpen

/-- A request that does not ask for the connection to be kept, and its response. -/
def oneRequest : Env where
  script := ⟨[.data (ascii "GET / HTTP/1.1" ++ CRLF ++ CRLF)], fun _ => .ok {}, [.wrote 1000]⟩

/-- The worker after that request of its only client. -/
def allServed : Worker :=
  match oneClient.dispatch serverOn3 ⟨5, 1⟩ oneRequest with
  | .ok w => w
  | _ => {}

/-- A client is accepted, served and disconnected. -/
theorem connections_reaped_oneClient :
    ∃ s, Support.Reaches (Running.Step serverOn3)
        (fun s act => s.Promised serverOn3 act ∧ ReapsClosed serverOn3 s act) {} s ∧
      5 ∉ s.worker.work.m_connections ∧ ConnectionsOpen s.worker.work := by
  have haccept : ReapsClosed serverOn3 ⟨{}, .handling [⟨3, 1⟩]⟩ (.handle (accepting 5 1).2) := by
    intro ready rest hpoint hclient
    cases hpoint
    exact absurd rfl hclient
  have hreaps : ReapsClosed serverOn3 ⟨oneClient, .handling [⟨5, 1⟩]⟩ (.handle oneRequest) := by
    intro ready rest hpoint hclient id r hid hr
    cases hpoint
    cases hid
    cases hr
    refine Or.inr ⟨rfl, fun _ => ?_⟩
    rintro ⟨-, hend⟩
    cases hend
  have hstep : Running.Step serverOn3 ⟨oneClient, .handling [⟨5, 1⟩]⟩ (.handle oneRequest)
      ⟨allServed, .handling []⟩ := by
    unfold Running.Step
    decide +kernel
  have hrun : Support.Reaches (Running.Step serverOn3)
      (fun s act => s.Promised serverOn3 act ∧ ReapsClosed serverOn3 s act) {}
      ⟨allServed, .handling []⟩ :=
    (reaches_ready (reaches_oneClient ⟨trivial, trivial⟩ ⟨listening_promised _, trivial⟩
      ⟨accepting_promised_first 5 1, haccept⟩ ⟨trivial, trivial⟩) [⟨5, 1⟩] rfl ⟨trivial, trivial⟩
      ⟨⟨by decide, by decide⟩, trivial⟩).tail
      ⟨.handle oneRequest, ⟨fun h => absurd h (by decide), hreaps⟩, hstep⟩
  exact ⟨_, hrun, by decide +kernel, connections_reaped hrun⟩

/-- The peer of the only client has closed its side, and its event was handled: at the top of the
loop the connection is closed, and still in all tables. -/
theorem closed_connection_stays :
    ∃ s, ReachesWithoutFailure {} s ∧ s.point = .top ∧
      (s.worker.work.m_connections.lookup 5).map (·.conn.isOpened) = some false ∧
      5 ∈ s.worker.work.m_coroutines ∧ 5 ∈ s.worker.work.registered ∧
      ¬ConnectionsOpen s.worker.work := by
  have hclosed : (peerLeft.work.m_connections.lookup 5).map (·.conn.isOpened) = some false := by
    decide +kernel
  refine ⟨_, reaches_peerLeft, rfl, hclosed, by decide +kernel, by decide +kernel, fun h => ?_⟩
  obtain ⟨el, hel, hnot⟩ := Option.map_eq_some_iff.mp hclosed
  rw [h.opened 5 el hel] at hnot
  cases hnot

end HTTP
end AdvCppHW
