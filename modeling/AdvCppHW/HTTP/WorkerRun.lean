import AdvCppHW.HTTP.ThreadWork
import AdvCppHW.Support.Transition
import Mathlib.Data.List.Nodup

/-!
# The loop of a worker

`ThreadWork::run` as a transition system.  One iteration of its loop drops timed-out clients, waits
for events and handles them one by one; an exception of class `HW::BaseException` leads back to the
top of the loop, any other one out of the thread.

* `Running.step` — the steps of the loop; `Promised` — what the kernel grants at a step; `Stepped` —
  the steps after which the worker goes on, case by case.
* `step_keeps` — an invariant of the worker is one of the loop, if the members keep it.
* `batch` — the loop over the events of one batch, with the handler around it; `batch_reaches` — its
  turns are steps.
* `batch_dispatched_iff` — when every event of a batch is dispatched and the worker goes on.
-/

namespace AdvCppHW
namespace HTTP

/-- Where a worker is in the loop of `run`. -/
inductive Point where
  | top
  /-- In front of `epoll_wait`. -/
  | waiting
  /-- In the loop over the events of a batch; these are still to be handled. -/
  | handling (rest : List Ready)
deriving DecidableEq

theorem Point.top_ne_handling (rest : List Ready) : Point.top ≠ .handling rest := nofun

theorem Point.waiting_ne_handling (rest : List Ready) : Point.waiting ≠ .handling rest := nofun

structure Running where
  worker : Worker := {}
  point : Point := .top
deriving DecidableEq

/-- How `epoll_wait` ends. -/
inductive Waited where
  /-- It timed out or was interrupted. -/
  | nothing
  | failed
  | ready (events : List Ready)

/-- A step of the loop, with what the environment does in it. -/
inductive Act where
  | drop (spare : NewSocket) (clock : Nat → Int)
  | wait (result : Waited)
  | handle (env : Env)
  /-- All events of the batch were handled. -/
  | finish

/-- What a step leads to. -/
inductive Next where
  | goesOn (s : Running)
  /-- An exception leaves the function of the thread. -/
  | terminated (e : Exception)
  | undefined (why : UndefinedBehaviour)
deriving DecidableEq

/-- `catch (HW::BaseException &e)` around the body of the loop. -/
def caught (next : Point) : Outcome Worker → Next
  | .ok w => .goesOn ⟨w, next⟩
  | .threw e w => if e.isBaseException then .goesOn ⟨w, .top⟩ else .terminated e
  | .undefined why => .undefined why

namespace Running

/-- The steps of the loop; `none` when the step is not the next one. -/
def step (server : BaseHTTPServer) (s : Running) (act : Act) : Option Next :=
  match s.point, act with
  | .top, .drop spare clock => some (caught .waiting
      ((s.worker.work.dropTimeoutedConnections server spare clock).map
        (Worker.mk · s.worker.ordinator)))
  | .waiting, .wait .nothing => some (.goesOn ⟨s.worker, .top⟩)
  | .waiting, .wait .failed => some (caught .top
      (.threw (.DescriptorError "Error getting descriptors from epoll!") s.worker))
  | .waiting, .wait (.ready events) => some (.goesOn ⟨s.worker, .handling events⟩)
  | .handling (ready :: rest), .handle env => some (caught (.handling rest)
      (s.worker.dispatch server ready env))
  | .handling [], .finish => some (.goesOn ⟨s.worker, .top⟩)
  | _, _ => none

/-- A step after which the worker goes on. -/
def Step (server : BaseHTTPServer) (s : Running) (act : Act) (s' : Running) : Prop :=
  s.step server act = some (.goesOn s')

/-- What the kernel grants: `epoll_wait` reports a descriptor at most once, and only the listening
one and registered ones; `accept4` returns a descriptor that no socket of the worker has. -/
def Promised (server : BaseHTTPServer) (s : Running) : Act → Prop
  | .wait (.ready events) => (events.map Ready.fd).Nodup ∧
      ∀ ready ∈ events, ready.fd = server.m_socket.m_fd ∨ ready.fd ∈ s.worker.work.registered
  | .handle env => 0 ≤ env.accepted.fd → ∀ fd el, s.worker.work.m_connections.lookup fd = some el →
      el.conn.m_socket.m_fd ≠ env.accepted.fd
  | _ => True

end Running

/-! ## Steps, case by case -/

/-- All steps after which the worker goes on. -/
inductive Stepped (server : BaseHTTPServer) (s : Running) : Act → Running → Prop
  | dropped {spare : NewSocket} {clock : Nat → Int} {t : ThreadWork} (hpoint : s.point = .top)
      (hdrop : s.worker.work.dropTimeoutedConnections server spare clock = .ok t) :
      Stepped server s (.drop spare clock) ⟨⟨t, s.worker.ordinator⟩, .waiting⟩
  | dropThrew {spare : NewSocket} {clock : Nat → Int} {e : Exception} {t : ThreadWork}
      (hpoint : s.point = .top)
      (hdrop : s.worker.work.dropTimeoutedConnections server spare clock = .threw e t) :
      Stepped server s (.drop spare clock) ⟨⟨t, s.worker.ordinator⟩, .top⟩
  | waitedInVain (hpoint : s.point = .waiting) : Stepped server s (.wait .nothing) ⟨s.worker, .top⟩
  | waitFailed (hpoint : s.point = .waiting) : Stepped server s (.wait .failed) ⟨s.worker, .top⟩
  | woken {events : List Ready} (hpoint : s.point = .waiting) :
      Stepped server s (.wait (.ready events)) ⟨s.worker, .handling events⟩
  | handled {ready : Ready} {rest : List Ready} {env : Env} {w : Worker}
      (hpoint : s.point = .handling (ready :: rest))
      (hdispatch : s.worker.dispatch server ready env = .ok w) :
      Stepped server s (.handle env) ⟨w, .handling rest⟩
  | handleThrew {ready : Ready} {rest : List Ready} {env : Env} {e : Exception} {w : Worker}
      (hpoint : s.point = .handling (ready :: rest))
      (hdispatch : s.worker.dispatch server ready env = .threw e w) :
      Stepped server s (.handle env) ⟨w, .top⟩
  | finished (hpoint : s.point = .handling []) : Stepped server s .finish ⟨s.worker, .top⟩

/-- When the worker goes on behind the `try` block, that was left normally or by an exception. -/
theorem caught_goesOn {next : Point} {x : Outcome Worker} {s' : Running}
    (h : caught next x = .goesOn s') :
    (∃ w, x = .ok w ∧ s' = ⟨w, next⟩) ∨ ∃ e w, x = .threw e w ∧ s' = ⟨w, .top⟩ := by
  cases x with
  | ok w =>
      cases h
      exact Or.inl ⟨w, rfl, rfl⟩
  | undefined why => cases h
  | threw e w =>
      unfold caught at h
      dsimp only at h
      split at h
      · cases h
        exact Or.inr ⟨e, w, rfl, rfl⟩
      · cases h

theorem Running.Step.cases {server : BaseHTTPServer} {s s' : Running} {act : Act}
    (h : s.Step server act s') : Stepped server s act s' := by
  unfold Running.Step Running.step at h
  split at h
  · next spare clock hpoint =>
      cases hdrop : s.worker.work.dropTimeoutedConnections server spare clock with
      | ok t =>
          rw [hdrop] at h
          cases h
          exact .dropped hpoint hdrop
      | undefined why =>
          rw [hdrop] at h
          cases h
      | threw e t =>
          rw [hdrop] at h
          rcases caught_goesOn (Option.some.inj h) with ⟨w, hw, -⟩ | ⟨e', w, hw, rfl⟩
          · cases hw
          · cases hw
            exact .dropThrew hpoint hdrop
  · next hpoint =>
      cases h
      exact .waitedInVain hpoint
  · next hpoint =>
      cases h
      exact .waitFailed hpoint
  · next events hpoint =>
      cases h
      exact .woken hpoint
  · next ready rest env hpoint =>
      rcases caught_goesOn (Option.some.inj h) with ⟨w, hw, rfl⟩ | ⟨e, w, hw, rfl⟩
      · exact .handled hpoint hw
      · exact .handleThrew hpoint hw
  · next hpoint =>
      cases h
      exact .finished hpoint
  · cases h

/-! ## Invariants of the loop -/

/-- What is known behind a step: undefined behaviour only where it `mayFail`, and
`P` if the worker goes on. -/
def Next.Keeps (mayFail : Prop) (P : Running → Prop) : Next → Prop
  | .goesOn s => P s
  | .terminated _ => True
  | .undefined _ => mayFail

theorem caught_keeps {mayFail : Prop} {P : Running → Prop} {next : Point} {x : Outcome Worker}
    (h : x.Leaves mayFail fun w => P ⟨w, next⟩ ∧ P ⟨w, .top⟩) :
    (caught next x).Keeps mayFail P := by
  cases x with
  | ok w => exact h.1
  | undefined why => exact h
  | threw e w =>
      unfold caught
      dsimp only
      split
      · exact h.2
      · trivial

/-- The events still to be handled are for the listening socket or for clients, each once. -/
def Pending (server : BaseHTTPServer) (t : ThreadWork) (rest : List Ready) : Prop :=
  (rest.map Ready.fd).Nodup ∧
    ∀ ready ∈ rest, ready.fd = server.m_socket.m_fd ∨ ready.fd ∈ t.registered

/-- Handling an event leaves all other descriptors registered. -/
def KeepsRegistered (fd : Int) (t t' : ThreadWork) : Prop :=
  ∀ j, j ≠ fd → j ∈ t.registered → j ∈ t'.registered

theorem Pending.tail {server : BaseHTTPServer} {t t' : ThreadWork} {ready : Ready}
    {rest : List Ready} (h : Pending server t (ready :: rest))
    (hkept : KeepsRegistered ready.fd t t') : Pending server t' rest := by
  obtain ⟨hnodup, hall⟩ := h
  obtain ⟨hnotin, hnodup⟩ := List.nodup_cons.mp hnodup
  refine ⟨hnodup, fun ready' hmem => (hall ready' (List.mem_cons_of_mem _ hmem)).imp_right ?_⟩
  apply hkept
  intro heq
  exact hnotin (heq ▸ List.mem_map_of_mem hmem)

/-- An invariant of the worker, at any point of the loop. -/
structure InRun (server : BaseHTTPServer) (inv : Worker → Prop) (s : Running) : Prop where
  inv : inv s.worker
  pending : ∀ rest, s.point = .handling rest → Pending server s.worker.work rest

theorem inRun_top {server : BaseHTTPServer} {inv : Worker → Prop} {w : Worker} (h : inv w) :
    InRun server inv ⟨w, .top⟩ :=
  ⟨h, fun rest hrest => absurd hrest (Point.top_ne_handling rest)⟩

theorem inRun_waiting {server : BaseHTTPServer} {inv : Worker → Prop} {w : Worker} (h : inv w) :
    InRun server inv ⟨w, .waiting⟩ :=
  ⟨h, fun rest hrest => absurd hrest (Point.waiting_ne_handling rest)⟩

/-- What dropping timed-out clients and handling an event keep is kept by every step of the loop. -/
theorem step_keeps {server : BaseHTTPServer} {inv : Worker → Prop} {mayFail : Prop}
    {s : Running} {act : Act}
    (hdrop : ∀ spare clock, act = .drop spare clock → inv s.worker →
      (s.worker.work.dropTimeoutedConnections server spare clock).Leaves mayFail
        fun t => inv ⟨t, s.worker.ordinator⟩)
    (hdispatch : ∀ ready rest env, s.point = .handling (ready :: rest) → act = .handle env →
      inv s.worker → (ready.fd = server.m_socket.m_fd ∨ ready.fd ∈ s.worker.work.registered) →
        (s.worker.dispatch server ready env).Leaves mayFail
          fun w' => inv w' ∧ KeepsRegistered ready.fd s.worker.work w'.work)
    (h : InRun server inv s) (hpromised : s.Promised server act) {next : Next}
    (hstep : s.step server act = some next) : next.Keeps mayFail (InRun server inv) := by
  obtain ⟨w, point⟩ := s
  obtain ⟨hinv, hpending⟩ := h
  unfold Running.step at hstep
  split at hstep
  · next spare clock hpoint =>
      cases hstep
      apply caught_keeps
      exact (hdrop spare clock rfl hinv).map fun t ht => ⟨inRun_waiting ht, inRun_top ht⟩
  · next hpoint =>
      cases hstep
      exact inRun_top hinv
  · next hpoint =>
      cases hstep
      exact inRun_top hinv
  · next events hpoint =>
      cases hstep
      refine ⟨hinv, fun rest hrest => ?_⟩
      cases hrest
      exact hpromised
  · next ready rest env hpoint =>
      cases hstep
      have hall := hpending (ready :: rest) hpoint
      apply caught_keeps
      refine (hdispatch ready rest env hpoint rfl hinv (hall.2 ready List.mem_cons_self)).mono ?_
      -- behind the event, the others are still to be handled
      rintro w' ⟨hinv', hkept⟩
      refine ⟨⟨hinv', fun rest' hrest' => ?_⟩, inRun_top hinv'⟩
      cases hrest'
      exact hall.tail hkept
  · next hpoint =>
      cases hstep
      exact inRun_top hinv
  · cases hstep

/-- Handling an event, from what is known about the handlers. -/
theorem dispatch_leaves {server : BaseHTTPServer} {w : Worker} {ready : Ready} {env : Env}
    {mayFail : Prop} {P Q : Worker → Prop}
    (haccept : ready.fd = server.m_socket.m_fd → (w.accept env).Leaves mayFail Q)
    (hhandle : ready.fd ≠ server.m_socket.m_fd →
      (w.handleConnection ready.fd ready.events env).Leaves mayFail P)
    (hreset : ∀ w₁, ready.fd ≠ server.m_socket.m_fd → P w₁ → ready.fd ∈ w₁.work.m_connections →
      (w₁.work.resetConnectionTime ready.fd env.now).Leaves mayFail fun t => Q ⟨t, w₁.ordinator⟩)
    (hgone : ∀ w₁, P w₁ → Q w₁) : (w.dispatch server ready env).Leaves mayFail Q := by
  unfold Worker.dispatch
  split
  · next hlisten => exact haccept hlisten
  · next hclient =>
      refine (hhandle hclient).andThen (fun w₁ h₁ => ?_) hgone
      split
      · next hmem => exact (hreset w₁ hclient h₁ hmem).map fun _ ht => ht
      · exact hgone w₁ h₁

/-! ## Batches -/

/-- The loop over the events of a batch: the events that were handed to `accept` or
`handleConnection`, and what happens after them. -/
def batch (server : BaseHTTPServer) (w : Worker) : List (Ready × Env) → List Ready × Next
  | [] => ([], .goesOn ⟨w, .top⟩)
  | (ready, env) :: rest =>
      match w.dispatch server ready env with
      | .ok w' => (ready :: (batch server w' rest).1, (batch server w' rest).2)
      | ended => ([ready], caught .top ended)

theorem batch_ok {server : BaseHTTPServer} {w w' : Worker} {ready : Ready} {env : Env}
    (h : w.dispatch server ready env = .ok w') (rest : List (Ready × Env)) :
    batch server w ((ready, env) :: rest) =
      (ready :: (batch server w' rest).1, (batch server w' rest).2) := by
  simp [batch, h]

theorem batch_threw {server : BaseHTTPServer} {w w' : Worker} {ready : Ready} {env : Env}
    {e : Exception} (h : w.dispatch server ready env = .threw e w') (rest : List (Ready × Env)) :
    batch server w ((ready, env) :: rest) = ([ready], caught .top (.threw e w')) := by
  simp [batch, h]

theorem batch_undefined {server : BaseHTTPServer} {w : Worker} {ready : Ready} {env : Env}
    {why : UndefinedBehaviour} (h : w.dispatch server ready env = .undefined why)
    (rest : List (Ready × Env)) :
    batch server w ((ready, env) :: rest) = ([ready], .undefined why) := by
  simp [batch, h, caught]

/-- The turns of a batch are steps of the loop, and lead to its top. -/
theorem batch_reaches {server : BaseHTTPServer} {w : Worker} {events : List (Ready × Env)}
    {s : Running} (h : (batch server w events).2 = .goesOn s) :
    s.point = .top ∧ Relation.ReflTransGen (fun s s' => ∃ act, Running.Step server s act s')
      ⟨w, .handling (events.map Prod.fst)⟩ s := by
  induction events generalizing w with
  | nil =>
      cases h
      exact ⟨rfl, .single ⟨.finish, rfl⟩⟩
  | cons event rest ih =>
      obtain ⟨ready, env⟩ := event
      have hstep : (⟨w, .handling (ready :: rest.map Prod.fst)⟩ : Running).step server
        (.handle env) =
          some (caught (.handling (rest.map Prod.fst)) (w.dispatch server ready env)) := rfl
      cases hdispatch : w.dispatch server ready env with
      | ok w' =>
          rw [batch_ok hdispatch] at h
          rw [hdispatch] at hstep
          obtain ⟨htop, hreach⟩ := ih h
          exact ⟨htop, .head ⟨.handle env, hstep⟩ hreach⟩
      | threw e w' =>
          rw [batch_threw hdispatch] at h
          rw [hdispatch] at hstep
          cases he : e.isBaseException with
          | false => simp [caught, he] at h
          | true =>
              simp only [caught, he, if_true, Next.goesOn.injEq] at h hstep
              subst h
              exact ⟨rfl, .single ⟨.handle env, hstep⟩⟩
      | undefined why =>
          rw [batch_undefined hdispatch] at h
          cases h

/-- Every event of the batch is handed to `accept` or `handleConnection`, and the worker comes back
to the top of its loop. -/
def EveryEventDispatched (server : BaseHTTPServer) (w : Worker) (events : List (Ready × Env)) :
    Prop :=
  (batch server w events).1 = events.map Prod.fst ∧
    ∃ w', (batch server w events).2 = .goesOn ⟨w', .top⟩

/-- Every handler but the last returns, and the last one returns or throws a `HW::BaseException`. -/
def HandlersReturn (server : BaseHTTPServer) : Worker → List (Ready × Env) → Prop
  | _, [] => True
  | w, (ready, env) :: rest =>
      match w.dispatch server ready env with
      | .ok w' => HandlersReturn server w' rest
      | .threw e _ => rest = [] ∧ e.isBaseException = true
      | .undefined _ => False

/-- A handler that throws takes the rest of its batch with it, and the worker unless the exception
is a `HW::BaseException`. -/
theorem batch_dispatched_iff (server : BaseHTTPServer) (w : Worker) (events : List (Ready × Env)) :
    EveryEventDispatched server w events ↔ HandlersReturn server w events := by
  induction events generalizing w with
  | nil => exact iff_of_true ⟨rfl, w, rfl⟩ trivial
  | cons event rest ih =>
      obtain ⟨ready, env⟩ := event
      unfold EveryEventDispatched HandlersReturn
      cases hdispatch : w.dispatch server ready env with
      | ok w' =>
          rw [batch_ok hdispatch]
          show _ ↔ HandlersReturn server w' rest
          rw [← ih w', EveryEventDispatched]
          simp
      | threw e w' =>
          rw [batch_threw hdispatch]
          constructor
          · rintro ⟨hall, w'', hgoes⟩
            cases he : e.isBaseException with
            | false => simp [caught, he] at hgoes
            | true => exact ⟨by simpa using hall, he⟩
          · rintro ⟨rfl, he⟩
            exact ⟨rfl, w', by simp [caught, he]⟩
      | undefined why =>
          rw [batch_undefined hdispatch]
          exact iff_of_false (by simp) id

/-! ## A batch that is not dispatched -/

/-- A server whose socket has descriptor 3. -/
def serverOn3 : BaseHTTPServer := ⟨⟨3⟩, 60⟩

/-- Outcomes of the environment when the peer has closed its side. -/
def peerGone : Script := ⟨[.eof], fun _ => .error (.other 0), []⟩

/-- A request arrives whose `onRequest` throws an exception of another class. -/
def badCallback : Script :=
  ⟨[.data (ascii "GET / HTTP/1.1" ++ CRLF ++ CRLF)], fun _ => .error (.other 0), []⟩

/-- `accept4` returns `fd` at time `now`. -/
def accepting (fd : Int) (now : Int) : Ready × Env :=
  (⟨3, 1⟩, { accepted := ⟨fd, 0⟩, script := peerGone, now := now })

/-- Two clients were accepted, and both are reported in one batch.  The first one's peer has closed
its side: its coroutine throws, and nothing is done for the second client.  When its `onRequest`
throws instead, the worker ends. -/
theorem second_event_skipped :
    ∃ w, (batch serverOn3 {} [accepting 5 1]).2 = .goesOn ⟨w, .top⟩ ∧
      ∃ w', (batch serverOn3 w [accepting 6 2]).2 = .goesOn ⟨w', .top⟩ ∧
        ¬EveryEventDispatched serverOn3 w' [(⟨5, 1⟩, { script := peerGone, now := 3 }),
          (⟨6, 1⟩, { script := peerGone, now := 4 })] ∧
        (batch serverOn3 w' [(⟨5, 1⟩, { script := badCallback, now := 3 })]).2 =
          .terminated (.other 0) :=
  ⟨_, rfl, _, rfl, fun h => absurd h.1 (by decide +kernel), by decide +kernel⟩

/-! ## Runs of one client -/

theorem listening_promised (s : Running) :
    s.Promised serverOn3 (.wait (.ready [⟨3, 1⟩])) :=
  ⟨by decide, by simp [serverOn3]⟩

theorem accepting_promised_first (fd now : Int) :
    Running.Promised serverOn3 ⟨{}, .handling [⟨3, 1⟩]⟩ (.handle (accepting fd now).2) :=
  fun _ => nofun

theorem accepting_promised {w : Worker} {fd now : Int}
    (hunused : ∀ j el, w.work.m_connections.lookup j = some el → el.conn.m_socket.m_fd ≠ fd) :
    Running.Promised serverOn3 ⟨w, .handling [⟨3, 1⟩]⟩ (.handle (accepting fd now).2) :=
  fun _ => hunused

/-- The worker after a client with descriptor 5 was accepted at time 1. -/
def oneClient : Worker :=
  match ({} : Worker).accept (accepting 5 1).2 with
  | .ok w => w
  | _ => {}

/-- The steps that lead to `oneClient`. -/
theorem reaches_oneClient {admitted : Running → Act → Prop}
    (hdrop : admitted {} (.drop {} fun _ => 0))
    (hwait : admitted ⟨{}, .waiting⟩ (.wait (.ready [⟨3, 1⟩])))
    (haccept : admitted ⟨{}, .handling [⟨3, 1⟩]⟩ (.handle (accepting 5 1).2))
    (hfinish : admitted ⟨oneClient, .handling []⟩ .finish) :
    Support.Reaches (Running.Step serverOn3) admitted {} ⟨oneClient, .top⟩ :=
  Relation.ReflTransGen.refl.tail ⟨_, hdrop, rfl⟩ |>.tail ⟨_, hwait, rfl⟩ |>.tail ⟨_, haccept, rfl⟩
    |>.tail ⟨_, hfinish, rfl⟩

/-- From the top of the loop, where no client has been idle for too long, to the next events. -/
theorem reaches_ready {admitted : Running → Act → Prop} {w : Worker}
    (h : Support.Reaches (Running.Step serverOn3) admitted {} ⟨w, .top⟩) (events : List Ready)
    (hidle : Running.Step serverOn3 ⟨w, .top⟩ (.drop {} fun _ => 1) ⟨w, .waiting⟩)
    (hdrop : admitted ⟨w, .top⟩ (.drop {} fun _ => 1))
    (hwait : admitted ⟨w, .waiting⟩ (.wait (.ready events))) :
    Support.Reaches (Running.Step serverOn3) admitted {} ⟨w, .handling events⟩ :=
  (h.tail ⟨_, hdrop, hidle⟩).tail ⟨_, hwait, rfl⟩

end HTTP
end AdvCppHW
