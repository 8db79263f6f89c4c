import AdvCppHW.AsyncTCP.ConnectionTable

/-!
# Closing a server that runs

`ServerAsync::run` in one thread and `ServerAsync::close` in another, one atomic step at a time.
The mutex protects the flag only: `close` can go all its steps between any two steps of `run`.

* `runStep`, `closeStep` — the steps of the two threads; `closeSteps_eq` and `runStep_running` —
  taken on their own they are `ServerAsync.close` and the steps of `Running`.
* `StopsCleanly` — what is said about `run` once `close` has returned;
  `ClosesAtRest` — the condition.
* `close_stops` — under the condition it holds; a last step of `close` at another moment breaks it.
-/

namespace AdvCppHW
namespace AsyncTCP

open ServerAsync

/-! ## The two threads -/

/-- Where `run` is: in front of one of its atomic steps, or behind the last one. -/
inductive RunPoint where
  /-- In front of `m_shutdown = false`. -/
  | entering
  /-- In front of the test of the flag. -/
  | top
  /-- In front of the test of `isOpened` and of the epoll. -/
  | checked
  /-- In front of `epoll_wait`, which is one step, however long it waits. -/
  | waiting
  /-- In the loop over the events of a batch; these are still to be handled. -/
  | handling (rest : List Ready)
  | returned
  | threw (e : Exception)
deriving DecidableEq

/-- Where `close` is. -/
inductive ClosePoint where
  | idle
  /-- The flag is set. -/
  | flagged
  /-- The connections are cleared. -/
  | cleared
  | socketClosed
  | returned
deriving DecidableEq

structure Closing where
  server : ServerAsync
  run : RunPoint := .entering
  close : ClosePoint := .idle
deriving DecidableEq

/-- A step of `run`, with what the environment does in it. -/
inductive RunAct where
  | enter
  | checkFlag
  | checkOpened
  | wait (result : Waited)
  | handle (env : Env)
  /-- All events of the batch were handled. -/
  | finish

/-- Which thread takes the next step. -/
inductive Turn where
  | run (act : RunAct)
  | close

namespace ServerAsync

/-- The loop of `close` over `m_connections`, and `m_connections.clear()`: the destructors close the
sockets. -/
def clearConnections (s : ServerAsync) : ServerAsync :=
  let s := s.m_connections.entries.foldl (fun s c => s.removeFromEpoll c.1) s
  { s with
    m_connections := .empty,
    registered := s.m_connections.entries.foldl
      (fun r c => if c.2.m_socket.isOpened then r.erase c.2.m_socket.m_fd else r) s.registered }

/-- `removeFromEpoll(m_socket.getFD()); m_socket.close();` -/
def closeSocket (s : ServerAsync) : ServerAsync :=
  let s := s.removeFromEpoll s.m_socket.m_fd
  { s with m_socket := s.m_socket.close }

/-- `m_epollfd.close()`; with the epoll go its registrations. -/
def closeEpoll (s : ServerAsync) : ServerAsync :=
  { s with m_epollfd := s.m_epollfd.close, registered := ∅ }

end ServerAsync

/-- `none` when the step is not the next one of `run`. -/
def runStep (s : ServerAsync) : RunPoint → RunAct → Option (ServerAsync × RunPoint)
  | .entering, .enter => some ({ s with m_shutdown := false }, .top)
  | .top, .checkFlag => some (s, if s.m_shutdown then .returned else .checked)
  | .checked, .checkOpened =>
      some (s, if !s.isOpened || !s.m_epollfd.isOpened then .returned else .waiting)
  | .waiting, .wait result =>
      let failed := RunPoint.threw (.DescriptorError "Error getting descriptors from epoll!")
      -- the descriptor of a closed epoll is -1, and the call fails with `EBADF`
      if !s.m_epollfd.isOpened then some (s, failed)
      else
        match result with
        | .interrupted => some (s, .top)
        | .failed => some (s, failed)
        | .ready events => some (s, .handling events)
  | .handling (ready :: rest), .handle env =>
      match s.dispatch ready env with
      | .ok s => some (s, .handling rest)
      | .threw e s => some (s, .threw e)
      | .undefined _ => none
  | .handling [], .finish => some (s, .top)
  | _, _ => none

def closeStep (s : ServerAsync) : ClosePoint → Option (ServerAsync × ClosePoint)
  | .idle => some ({ s with m_shutdown := true }, .flagged)
  | .flagged => some (s.clearConnections, .cleared)
  | .cleared => some (s.closeSocket, .socketClosed)
  | .socketClosed => some (s.closeEpoll, .returned)
  | .returned => none

namespace Closing

/-- The step of one thread; the other one stays where it is. -/
def step (s : Closing) : Turn → Option Closing
  | .run act => (runStep s.server s.run act).map fun t => { s with server := t.1, run := t.2 }
  | .close => (closeStep s.server s.close).map fun t => { s with server := t.1, close := t.2 }

def Step (s : Closing) (turn : Turn) (s' : Closing) : Prop := s.step turn = some s'

/-- What the kernel grants at a step of `run`. -/
def Promised (s : Closing) : Turn → Prop
  | .run (.wait result) => Running.Promised ⟨s.server, .waiting⟩ (.wait result)
  | .run (.handle env) => Running.Promised ⟨s.server, .outside⟩ (.handle env)
  | _ => True

end Closing

/-! ## Each thread on its own -/

theorem foldl_removeFromEpoll (cs : List (Int × ConnectionAsync)) (s : ServerAsync) :
    ∃ registered, cs.foldl (fun s c => s.removeFromEpoll c.1) s =
      { s with registered := registered } := by
  induction cs generalizing s with
  | nil => exact ⟨s.registered, rfl⟩
  | cons c cs ih =>
      obtain ⟨registered, hremoved, -⟩ := removeFromEpoll_eq s c.1
      obtain ⟨registered', hrest⟩ := ih (s.removeFromEpoll c.1)
      refine ⟨registered', ?_⟩
      rw [List.foldl_cons, hrest, hremoved]

/-- Clearing empties the table, and changes nothing else but registrations. -/
theorem clearConnections_eq (s : ServerAsync) :
    ∃ registered, s.clearConnections =
      { s with m_connections := .empty, registered := registered } := by
  obtain ⟨registered, hremoved⟩ := foldl_removeFromEpoll s.m_connections.entries s
  refine ⟨s.clearConnections.registered, ?_⟩
  rw [clearConnections, hremoved]

theorem closeSocket_eq (s : ServerAsync) :
    ∃ registered, s.closeSocket =
      { s with m_socket := s.m_socket.close, registered := registered } := by
  obtain ⟨registered, hremoved, -⟩ := removeFromEpoll_eq s s.m_socket.m_fd
  refine ⟨registered, ?_⟩
  rw [closeSocket, hremoved]

/-- The steps of `close`, one after the other, are `ServerAsync::close`. -/
theorem closeSteps_eq (s : ServerAsync) :
    (closeSocket (clearConnections { s with m_shutdown := true })).closeEpoll = s.close := by
  obtain ⟨registered, hcleared⟩ := clearConnections_eq { s with m_shutdown := true }
  rw [hcleared]
  obtain ⟨registered', hclosed⟩ :=
    closeSocket_eq { s with m_shutdown := true, m_connections := .empty, registered := registered }
  rw [hclosed]
  rfl

/-- The point of `Running` at which `run` is. -/
def RunPoint.toPoint : RunPoint → Point
  | .entering | .returned | .threw _ => .outside
  | .top | .checked => .top
  | .waiting => .waiting
  | .handling rest => .handling rest

/-- A step of `run` is a step of `Running`, or the first half of its `check`. -/
theorem runStep_running {s s' : ServerAsync} {p p' : RunPoint} {act : RunAct}
    (hstep : runStep s p act = some (s', p')) (hflag : p = .checked → s.m_shutdown = false) :
    (p = .top ∧ p' = .checked ∧ s' = s ∧ s.m_shutdown = false) ∨
      ∃ a, Running.Step ⟨s, p.toPoint⟩ a ⟨s', p'.toPoint⟩ := by
  unfold runStep at hstep
  split at hstep
  · cases hstep
    exact Or.inr ⟨.run, rfl⟩
  · cases hstep
    cases hshutdown : s.m_shutdown with
    | true =>
        refine Or.inr ⟨.check, ?_⟩
        simp [Running.Step, Running.step, RunPoint.toPoint, hshutdown]
    | false => exact Or.inl ⟨rfl, by simp, rfl, rfl⟩
  · cases hstep
    refine Or.inr ⟨.check, ?_⟩
    have hshutdown := hflag rfl
    by_cases hopen : (!s.isOpened || !s.m_epollfd.isOpened) = true
    · simp only [Running.Step, Running.step, RunPoint.toPoint, hshutdown,
        Bool.false_eq_true, if_false, if_pos hopen]
    · simp only [Running.Step, Running.step, RunPoint.toPoint, hshutdown,
        Bool.false_eq_true, if_false, if_neg hopen]
  · next result =>
      dsimp only at hstep
      split at hstep
      · cases hstep
        exact Or.inr ⟨.wait .failed, rfl⟩
      · cases result with
        | interrupted =>
            cases hstep
            exact Or.inr ⟨.wait .interrupted, rfl⟩
        | failed =>
            cases hstep
            exact Or.inr ⟨.wait .failed, rfl⟩
        | ready events =>
            cases hstep
            exact Or.inr ⟨.wait (.ready events), rfl⟩
  · next ready rest env =>
      refine Or.inr ⟨.handle env, ?_⟩
      rw [Running.Step]
      show leads (.handling rest) (s.dispatch ready env) = _
      cases hdispatch : s.dispatch ready env with
      | ok t =>
          rw [hdispatch] at hstep
          cases hstep
          rfl
      | threw e t =>
          rw [hdispatch] at hstep
          cases hstep
          rfl
      | undefined why =>
          rw [hdispatch] at hstep
          cases hstep
  · cases hstep
    exact Or.inr ⟨.finish, rfl⟩
  · cases hstep

/-! ## What is said, and the condition -/

namespace Closing

/-- The step hands a connection to the callback. -/
def Invokes (s : Closing) : RunAct → Prop
  | .handle _ => s.server.m_callback = true ∧
      ∃ ready rest, s.run = .handling (ready :: rest) ∧ ready.fd ≠ s.server.m_socket.m_fd
  | _ => False

/-- What must not happen once `close` has returned. -/
def Bad (s : Closing) (act : RunAct) (s' : Closing) : Prop :=
  s.Invokes act ∨ (∃ fd, fd ∈ s'.server.m_connections ∧ fd ∉ s.server.m_connections) ∨
    ∃ e, s'.run = .threw e

/-- `run` has ended. -/
def Ended (s : Closing) : Prop := s.run = .returned ∨ ∃ e, s.run = .threw e

end Closing

/-- The callback is called in the loop over a batch only. -/
theorem Closing.Invokes.handling {s : Closing} {act : RunAct} (h : s.Invokes act) :
    ∃ ready rest, s.run = .handling (ready :: rest) := by
  cases act with
  | handle env =>
      obtain ⟨-, ready, rest, hhandling, -⟩ := h
      exact ⟨ready, rest, hhandling⟩
  | enter => cases h
  | checkFlag => cases h
  | checkOpened => cases h
  | wait result => cases h
  | finish => cases h

/-- How many steps `run` can still take at the most, when it finds everything closed. -/
def RunPoint.stepsLeft : RunPoint → Nat
  | .entering | .handling _ => 3
  | .top => 2
  | .checked => 1
  | .waiting | .returned | .threw _ => 0

/-- From here on `run` calls no callback, adds no entry, does not throw, and is soon through.  It
can already have been left by an exception of a step before. -/
structure StopsCleanly (s : Closing) : Prop where
  next : s.Ended ∨ ∃ act s', s.Step (.run act) s'
  step : ∀ act s', s.Step (.run act) s' → ¬ s.Bad act s' ∧ s'.run.stepsLeft < s.run.stepsLeft

/-- Neither between the test of `isOpened` and `epoll_wait`, nor in front of an event of a
batch. -/
def RunPoint.atRest : RunPoint → Bool
  | .waiting | .handling (_ :: _) => false
  | .entering | .top | .checked | .handling [] | .returned | .threw _ => true

/-- The condition: `close` takes its last step, which closes the epoll, while `run` is at rest. -/
def ClosesAtRest (s : Closing) : Turn → Prop
  | .close => s.close = .socketClosed → s.run.atRest = true
  | .run _ => True

/-! ## Runs -/

/-- What the members of a server leave alone. -/
def SameDescriptors (s s' : ServerAsync) : Prop :=
  s'.m_socket = s.m_socket ∧ s'.m_epollfd = s.m_epollfd ∧ s'.m_callback = s.m_callback

section SameDescriptors

variable (s : ServerAsync)

theorem element_descriptors (fd : Int) (spare : NewSocket) :
    SameDescriptors s (s.element fd spare).2 := by
  unfold element
  split
  · exact ⟨rfl, rfl, rfl⟩
  · exact ⟨rfl, rfl, rfl⟩

theorem setTimeout_descriptors (fd : Int) (spare : NewSocket) (set : Bool) :
    (s.setTimeout fd spare set).Leaves False (SameDescriptors s) := by
  have h := element_descriptors s fd spare
  unfold setTimeout
  dsimp only
  split
  · exact h
  · split
    · exact h
    · exact h

theorem try_emplace_descriptors (new : NewSocket) : SameDescriptors s (s.try_emplace new).2 := by
  unfold try_emplace
  split
  · exact ⟨rfl, rfl, rfl⟩
  · exact ⟨rfl, rfl, rfl⟩

theorem addToEpoll_descriptors (fd : Int) (added : Bool) :
    (s.addToEpoll fd added).Leaves False (SameDescriptors s) := by
  unfold addToEpoll
  split
  · exact ⟨rfl, rfl, rfl⟩
  · split
    · exact ⟨rfl, rfl, rfl⟩
    · exact ⟨rfl, rfl, rfl⟩

theorem eraseConnection_descriptors (fd : Int) : SameDescriptors s (s.eraseConnection fd) := by
  unfold eraseConnection
  split
  · exact ⟨rfl, rfl, rfl⟩
  · exact ⟨rfl, rfl, rfl⟩

end SameDescriptors

theorem SameDescriptors.trans {s t u : ServerAsync} (h : SameDescriptors s t)
    (h' : SameDescriptors t u) : SameDescriptors s u :=
  ⟨h'.1.trans h.1, h'.2.1.trans h.2.1, h'.2.2.trans h.2.2⟩

theorem accept_descriptors (s : ServerAsync) (env : Env) :
    (s.accept env).Leaves False (SameDescriptors s) := by
  have hemplace := try_emplace_descriptors s env.accepted
  unfold accept
  split
  · exact ⟨rfl, rfl, rfl⟩
  dsimp only
  split
  · exact ⟨rfl, rfl, rfl⟩
  split
  · exact hemplace
  have htimeout : ∀ t set, SameDescriptors s t →
      (t.setTimeout env.accepted.fd env.spare set).Leaves False (SameDescriptors s) :=
    fun t set ht => (setTimeout_descriptors t _ _ _).mono fun u hu => ht.trans hu
  have hadd :=
    (addToEpoll_descriptors (s.try_emplace env.accepted).2 env.accepted.fd env.added).mono
    fun t ht => hemplace.trans ht
  exact (hadd.andThen (fun t ht => htimeout t _ ht) fun _ ht => ht).andThen
    (fun t ht => htimeout t _ ht) fun _ ht => ht

theorem handleConnection_descriptors (s : ServerAsync) (key : Int) (c : ConnectionAsync)
    (events : UInt32) (env : Env) :
    (s.handleConnection key c events env).Leaves False (SameDescriptors s) := by
  unfold handleConnection
  dsimp only
  split
  · exact ⟨rfl, rfl, rfl⟩
  · split
    · obtain ⟨registered, hremoved, -⟩ := removeFromEpoll_eq
        (s.update key c (s.called (c.setEvent events) env)) c.m_socket.m_fd
      have herased := eraseConnection_descriptors
        ((s.update key c (s.called (c.setEvent events) env)).removeFromEpoll c.m_socket.m_fd)
        c.m_socket.m_fd
      have hkept : SameDescriptors s
          ((s.update key c (s.called (c.setEvent events) env)).removeFromEpoll
            c.m_socket.m_fd) := by
        rw [hremoved]
        exact ⟨rfl, rfl, rfl⟩
      exact hkept.trans herased
    · exact ⟨rfl, rfl, rfl⟩

theorem dispatch_descriptors (s : ServerAsync) (ready : Ready) (env : Env) :
    (s.dispatch ready env).Leaves False (SameDescriptors s) := by
  unfold dispatch
  split
  · exact accept_descriptors s env
  · have h := element_descriptors s ready.fd env.spare
    exact (handleConnection_descriptors _ _ _ _ _).mono fun t ht => h.trans ht

/-- Only `close` closes the socket and the epoll, and nothing opens them. -/
theorem runStep_descriptors {s s' : ServerAsync} {p p' : RunPoint} {act : RunAct}
    (hstep : runStep s p act = some (s', p')) : SameDescriptors s s' := by
  unfold runStep at hstep
  split at hstep
  · cases hstep
    exact ⟨rfl, rfl, rfl⟩
  · cases hstep
    exact ⟨rfl, rfl, rfl⟩
  · cases hstep
    exact ⟨rfl, rfl, rfl⟩
  · dsimp only at hstep
    split at hstep
    · cases hstep
      exact ⟨rfl, rfl, rfl⟩
    · split at hstep
      all_goals
        cases hstep
        exact ⟨rfl, rfl, rfl⟩
  · next ready rest env =>
      have h := dispatch_descriptors s ready env
      cases hdispatch : s.dispatch ready env with
      | ok t =>
          rw [hdispatch] at hstep h
          cases hstep
          exact h
      | threw e t =>
          rw [hdispatch] at hstep h
          cases hstep
          exact h
      | undefined why =>
          rw [hdispatch] at hstep
          cases hstep
  · cases hstep
    exact ⟨rfl, rfl, rfl⟩
  · cases hstep

/-- Where `run` can go when everything is closed. -/
theorem runStep_closed {s s' : ServerAsync} {p p' : RunPoint} {act : RunAct}
    (hsocket : s.m_socket.isOpened = false) (hrest : p.atRest = true)
    (hstep : runStep s p act = some (s', p')) :
    s'.m_connections = s.m_connections ∧ p'.stepsLeft < p.stepsLeft ∧
      (p' = .top ∨ p' = .checked ∨ p' = .returned) := by
  unfold runStep at hstep
  split at hstep
  · cases hstep
    exact ⟨rfl, by decide, Or.inl rfl⟩
  · cases hstep
    cases s.m_shutdown with
    | true => exact ⟨rfl, by decide, Or.inr (Or.inr rfl)⟩
    | false => exact ⟨rfl, by decide, Or.inr (Or.inl rfl)⟩
  · have hopen : (!s.isOpened || !s.m_epollfd.isOpened) = true := by
      rw [ServerAsync.isOpened, hsocket]
      rfl
    rw [if_pos hopen] at hstep
    cases hstep
    exact ⟨rfl, by decide, Or.inr (Or.inr rfl)⟩
  · cases hrest
  · cases hrest
  · cases hstep
    exact ⟨rfl, by decide, Or.inl rfl⟩
  · cases hstep

/-- All that a step of `close` can do to what the properties below look at. -/
theorem step_close {s s' : Closing} (hstep : s.Step .close s') :
    s'.run = s.run ∧ s'.server.m_callback = s.server.m_callback ∧
      (s'.close = .flagged ∨ s'.close = .cleared ∨
        (s'.close = .socketClosed ∧ s'.server.m_socket.isOpened = false) ∨
        (s.close = .socketClosed ∧ s'.close = .returned ∧ s'.server.m_socket = s.server.m_socket ∧
          s'.server.m_epollfd.isOpened = false)) := by
  obtain ⟨server, run, close⟩ := s
  cases close with
  | idle =>
      cases hstep
      exact ⟨rfl, rfl, Or.inl rfl⟩
  | flagged =>
      cases hstep
      obtain ⟨registered, hcleared⟩ := clearConnections_eq server
      refine ⟨rfl, ?_, Or.inr (Or.inl rfl)⟩
      show server.clearConnections.m_callback = server.m_callback
      rw [hcleared]
  | cleared =>
      cases hstep
      obtain ⟨registered, hclosed⟩ := closeSocket_eq server
      refine ⟨rfl, ?_, Or.inr (Or.inr (Or.inl ⟨rfl, ?_⟩))⟩
      · show server.closeSocket.m_callback = server.m_callback
        rw [hclosed]
      · show server.closeSocket.m_socket.isOpened = false
        rw [hclosed]
        exact server.m_socket.isOpened_close
  | socketClosed =>
      cases hstep
      exact ⟨rfl, rfl, Or.inr (Or.inr (Or.inr ⟨rfl, rfl, rfl, server.m_epollfd.isOpened_close⟩))⟩
  | returned => cases hstep

/-- A step of `run` leaves `close` and the descriptors alone. -/
theorem step_run {s s' : Closing} {act : RunAct} (hstep : s.Step (.run act) s') :
    runStep s.server s.run act = some (s'.server, s'.run) ∧ s'.close = s.close ∧
      SameDescriptors s.server s'.server := by
  obtain ⟨⟨server, p⟩, hrun, rfl⟩ := Option.map_eq_some_iff.mp hstep
  exact ⟨hrun, rfl, runStep_descriptors hrun⟩

/-- The step behind which `close` has returned. -/
theorem close_returned {s s' : Closing} (hstep : s.Step .close s')
    (hreturned : s'.close = .returned) : s.close = .socketClosed ∧ s'.run = s.run := by
  obtain ⟨hsame, -, hclose | hclose | ⟨hclose, -⟩ | ⟨hclosing, -⟩⟩ := step_close hstep
  · rw [hreturned] at hclose
    cases hclose
  · rw [hreturned] at hclose
    cases hclose
  · rw [hreturned] at hclose
    cases hclose
  · exact ⟨hclosing, hsame⟩

def Closing.HasCallback (s : Closing) : Prop := s.server.m_callback = true

/-- Nothing sets the callback while the two threads run. -/
theorem Closing.HasCallback.step {s s' : Closing} (h : s.HasCallback) {turn : Turn}
    (hstep : s.Step turn s') : s'.HasCallback := by
  cases turn with
  | run act => exact (step_run hstep).2.2.2.2.trans h
  | close => exact (step_close hstep).2.1.trans h

/-- What `close` has done so far, in any run. -/
structure ClosedSoFar (s : Closing) : Prop where
  socket : s.close = .socketClosed ∨ s.close = .returned → s.server.m_socket.isOpened = false
  epoll : s.close = .returned → s.server.m_epollfd.isOpened = false

theorem ClosedSoFar.step {s s' : Closing} (h : ClosedSoFar s) {turn : Turn}
    (hstep : s.Step turn s') : ClosedSoFar s' := by
  cases turn with
  | run act =>
      obtain ⟨-, hclose, hsocket, hepoll, -⟩ := step_run hstep
      constructor
      · rw [hclose, hsocket]
        exact h.socket
      · rw [hclose, hepoll]
        exact h.epoll
  | close =>
      obtain ⟨-, -, hclose | hclose | ⟨hclose, hsocket⟩ | ⟨hclosing, -, hsame, hepoll⟩⟩ :=
        step_close hstep
      · exact ⟨by simp [hclose], by simp [hclose]⟩
      · exact ⟨by simp [hclose], by simp [hclose]⟩
      · exact ⟨fun _ => hsocket, by simp [hclose]⟩
      · constructor
        · rw [hsame]
          exact fun _ => h.socket (Or.inl hclosing)
        · exact fun _ => hepoll

/-- What holds in every state of a run in which `close` ends at rest. -/
structure AtRest (s : Closing) : Prop where
  closed : ClosedSoFar s
  rest : s.close = .returned → s.run.atRest = true

theorem AtRest.step {s s' : Closing} (h : AtRest s) {turn : Turn} (hadmitted : ClosesAtRest s turn)
    (hstep : s.Step turn s') : AtRest s' := by
  refine ⟨h.closed.step hstep, fun hreturned => ?_⟩
  cases turn with
  | run act =>
      obtain ⟨hrun, hclose, -⟩ := step_run hstep
      rw [hclose] at hreturned
      have hsocket := h.closed.socket (Or.inr hreturned)
      obtain ⟨-, -, hpoint⟩ := runStep_closed hsocket (h.rest hreturned) hrun
      rcases hpoint with hpoint | hpoint | hpoint
      · rw [hpoint]
        rfl
      · rw [hpoint]
        rfl
      · rw [hpoint]
        rfl
  | close =>
      obtain ⟨hclosing, hsame⟩ := close_returned hstep hreturned
      rw [hsame]
      exact hadmitted hclosing

theorem stopsCleanly_of_closed {s : Closing} (hsocket : s.server.m_socket.isOpened = false)
    (hrest : s.run.atRest = true) : StopsCleanly s where
  next := by
    obtain ⟨server, run, close⟩ := s
    cases run with
    | entering => exact Or.inr ⟨.enter, _, rfl⟩
    | top => exact Or.inr ⟨.checkFlag, _, rfl⟩
    | checked => exact Or.inr ⟨.checkOpened, _, rfl⟩
    | waiting => cases hrest
    | handling rest =>
        cases rest with
        | nil => exact Or.inr ⟨.finish, _, rfl⟩
        | cons ready rest => cases hrest
    | returned => exact Or.inl (Or.inl rfl)
    | threw e => exact Or.inl (Or.inr ⟨e, rfl⟩)
  step act s' hstep := by
    obtain ⟨hrun, -⟩ := step_run hstep
    obtain ⟨hconnections, hleft, hpoint⟩ := runStep_closed hsocket hrest hrun
    refine ⟨?_, hleft⟩
    rintro (hinvokes | ⟨fd, hin, hnot⟩ | ⟨e, hthrew⟩)
    · obtain ⟨ready, rest, hhandling⟩ := hinvokes.handling
      rw [hhandling] at hrest
      cases hrest
    · rw [hconnections] at hin
      exact hnot hin
    · rw [hthrew] at hpoint
      rcases hpoint with h | h | h
      · cases h
      · cases h
      · cases h

/-- Handling an event ends the turn of the loop, or the run. -/
theorem runStep_handle (s : ServerAsync) (ready : Ready) (rest : List Ready) (env : Env) :
    ∃ s' p', runStep s (.handling (ready :: rest)) (.handle env) = some (s', p') := by
  have h := dispatch_descriptors s ready env
  unfold runStep
  dsimp only
  cases hdispatch : s.dispatch ready env with
  | ok t => exact ⟨t, .handling rest, rfl⟩
  | threw e t => exact ⟨t, .threw e, rfl⟩
  | undefined why =>
      rw [hdispatch] at h
      cases h

/-- When everything is closed but `run` is not at rest, its next step is bad. -/
theorem not_stopsCleanly {s : Closing} (hsocket : s.server.m_socket.isOpened = false)
    (hepoll : s.server.m_epollfd.isOpened = false) (hcallback : s.server.m_callback = true)
    (hrest : s.run.atRest = false) : ¬ StopsCleanly s := by
  obtain ⟨server, run, close⟩ := s
  intro h
  cases run with
  | waiting =>
      have hstep : Closing.Step ⟨server, .waiting, close⟩ (.run (.wait .interrupted))
          ⟨server, .threw (.DescriptorError "Error getting descriptors from epoll!"), close⟩ := by
        have hclosed : server.m_epollfd.isOpened = false := hepoll
        simp [Closing.Step, Closing.step, runStep, hclosed]
      exact (h.step _ _ hstep).1 (Or.inr (Or.inr ⟨_, rfl⟩))
  | handling rest =>
      cases rest with
      | nil => cases hrest
      | cons ready rest =>
          obtain ⟨server', p', hrun⟩ := runStep_handle server ready rest {}
          have hstep : Closing.Step ⟨server, .handling (ready :: rest), close⟩ (.run (.handle {}))
              ⟨server', p', close⟩ := by
            simp only [Closing.Step, Closing.step, hrun, Option.map_some]
          apply (h.step _ _ hstep).1
          by_cases hlisten : ready.fd = server.m_socket.m_fd
          · -- the closed server does not accept
            have hclosed : server.isOpened = false := hsocket
            have hthrew : server.dispatch ready {} =
                .threw (.NetworkError "Server closed!") server := by
              rw [dispatch, if_pos hlisten, ServerAsync.accept, hclosed]
              rfl
            simp only [runStep, hthrew, Option.some.injEq, Prod.mk.injEq] at hrun
            exact Or.inr (Or.inr ⟨_, hrun.2.symm⟩)
          · exact Or.inl ⟨hcallback, ready, rest, rfl, hlisten⟩
  | entering => cases hrest
  | top => cases hrest
  | checked => cases hrest
  | returned => cases hrest
  | threw e => cases hrest

/-- **Closing stops a server, at rest.**  In a run whose steps all meet the condition, once `close`
has returned, `run` calls no callback, adds no entry and returns after at most three more steps.  In
any run at all of a server with a callback, behind the last step of `close` this is so exactly if
that step met the condition. -/
theorem close_stops (server : ServerAsync) :
    (∀ s, Support.Reaches Closing.Step ClosesAtRest ⟨server, .entering, .idle⟩ s →
      s.close = .returned → StopsCleanly s) ∧
    (server.m_callback = true → ∀ s s',
      Support.Reaches Closing.Step (fun _ _ => True) ⟨server, .entering, .idle⟩ s →
        s.Step .close s' → s'.close = .returned → (StopsCleanly s' ↔ ClosesAtRest s .close)) := by
  constructor
  · intro s hrun hreturned
    have h : AtRest s := hrun.invariant (fun s turn s' h hadmitted hs => h.step hadmitted hs)
      ⟨⟨nofun, nofun⟩, nofun⟩
    exact stopsCleanly_of_closed (h.closed.socket (Or.inr hreturned)) (h.rest hreturned)
  · intro hcallback s s' hrun hstep hreturned
    have hrun' : Support.Reaches Closing.Step (fun _ _ => True) ⟨server, .entering, .idle⟩ s' :=
      hrun.tail ⟨.close, trivial, hstep⟩
    have h : ClosedSoFar s' := hrun'.invariant (fun s turn s' h _ hs => h.step hs) ⟨nofun, nofun⟩
    have hcallback' : s'.HasCallback :=
      hrun'.invariant (fun s turn s' h _ hs => h.step hs) hcallback
    obtain ⟨hclosing, hsame⟩ := close_returned hstep hreturned
    have hsocket := h.socket (Or.inr hreturned)
    constructor
    · intro hclean _
      rw [← hsame]
      by_contra hnot
      exact not_stopsCleanly hsocket (h.epoll hreturned) hcallback'
        (Bool.not_eq_true _ ▸ hnot) hclean
    · intro hadmitted
      apply stopsCleanly_of_closed hsocket
      rw [hsame]
      exact hadmitted hclosing

/-! ## One client -/

/-- The rest of `close` in one go, while `run` stays where it is. -/
theorem reaches_closed {admitted : Closing → Turn → Prop} (s : ServerAsync) {p : RunPoint}
    (hclose : ∀ t : Closing, t.run = p → admitted t .close) :
    Support.Reaches Closing.Step admitted ⟨{ s with m_shutdown := true }, p, .flagged⟩
      ⟨s.close, p, .returned⟩ := by
  rw [← closeSteps_eq]
  exact .head ⟨.close, hclose _ rfl, rfl⟩
    (.head ⟨.close, hclose _ rfl, rfl⟩ (.single ⟨.close, hclose _ rfl, rfl⟩))

section OneClient

variable {admitted : Closing → Turn → Prop}
  (hrun : ∀ s act, s.Promised (.run act) → admitted s (.run act))
  (hclose : ∀ s, s.close = .idle → admitted s .close)

include hrun hclose in
/-- `close` sets the flag of a server with a client between the test of
`isOpened` and `epoll_wait`. -/
theorem reaches_flagged : Support.Reaches Closing.Step admitted ⟨serving 0, .entering, .idle⟩
    ⟨{ serving 0 with m_shutdown := true }, .waiting, .flagged⟩ := by
  have hchecked : Support.Reaches Closing.Step admitted ⟨serving 0, .entering, .idle⟩
      ⟨serving 0, .checked, .idle⟩ :=
    .head ⟨.run .enter, hrun _ _ trivial, rfl⟩ (.single ⟨.run .checkFlag, hrun _ _ trivial, rfl⟩)
  have hwaiting : Support.Reaches Closing.Step admitted ⟨serving 0, .entering, .idle⟩
      ⟨serving 0, .waiting, .idle⟩ :=
    hchecked.tail ⟨.run .checkOpened, hrun _ _ trivial, rfl⟩
  exact hwaiting.tail ⟨.close, hclose _ rfl, rfl⟩

include hrun hclose in
/-- Then an event of the client is reported. -/
theorem reaches_reported : Support.Reaches Closing.Step admitted ⟨serving 0, .entering, .idle⟩
    ⟨{ serving 0 with m_shutdown := true }, .handling [⟨5, 1⟩], .flagged⟩ :=
  (reaches_flagged hrun hclose).tail
    ⟨.run (.wait (.ready [⟨5, 1⟩])), hrun _ _ ⟨by decide, by decide⟩, rfl⟩

end OneClient

/-- The event is handled before `close` goes on. -/
theorem close_stops_serving :
    Support.Reaches Closing.Step ClosesAtRest ⟨serving 0, .entering, .idle⟩
        ⟨(serving 0).close, .handling [], .returned⟩ ∧
      StopsCleanly ⟨(serving 0).close, .handling [], .returned⟩ := by
  have hidle : ∀ s : Closing, s.close = .idle → ClosesAtRest s .close := by
    intro s hs hclosing
    rw [hs] at hclosing
    cases hclosing
  have hrest : ∀ t : Closing, t.run = .handling [] → ClosesAtRest t .close := by
    intro t ht _
    rw [ht]
    rfl
  have hhandled : Closing.Step ⟨{ serving 0 with m_shutdown := true }, .handling [⟨5, 1⟩], .flagged⟩
      (.run (.handle {})) ⟨{ serving 0 with m_shutdown := true }, .handling [], .flagged⟩ := by
    unfold Closing.Step
    decide +kernel
  have hreaches := ((reaches_reported (fun _ _ _ => trivial) hidle).tail
    ⟨.run (.handle {}), trivial, hhandled⟩).trans (reaches_closed (serving 0) hrest)
  exact ⟨hreaches, (close_stops (serving 0)).1 _ hreaches rfl⟩

/-- `close` returns while an event of the client is still to be handled: then its key is added to
the table, and the callback is called for the connection under it.  Or it returns while `run` is in
front of `epoll_wait`, which throws. -/
theorem close_breaks_serving :
    (∃ s', Support.Reaches Closing.Step Closing.Promised ⟨serving 0, .entering, .idle⟩
        ⟨(serving 0).close, .handling [⟨5, 1⟩], .returned⟩ ∧
      Closing.Step ⟨(serving 0).close, .handling [⟨5, 1⟩], .returned⟩
        (.run (.handle { spare := ⟨6, 0⟩ })) s' ∧
      Closing.Invokes ⟨(serving 0).close, .handling [⟨5, 1⟩], .returned⟩
        (.handle { spare := ⟨6, 0⟩ }) ∧
      5 ∉ (serving 0).close.m_connections ∧ 5 ∈ s'.server.m_connections) ∧
    ∃ s', Support.Reaches Closing.Step Closing.Promised ⟨serving 0, .entering, .idle⟩
        ⟨(serving 0).close, .waiting, .returned⟩ ∧
      Closing.Step ⟨(serving 0).close, .waiting, .returned⟩ (.run (.wait .interrupted)) s' ∧
      s'.run = .threw (.DescriptorError "Error getting descriptors from epoll!") := by
  have hpromised : ∀ s act, Closing.Promised s (.run act) → Closing.Promised s (.run act) :=
    fun _ _ h => h
  have hclose : ∀ s, Closing.Promised s .close := fun _ => trivial
  constructor
  · have hreaches := (reaches_reported hpromised fun s _ => hclose s).trans
      (reaches_closed (serving 0) fun t _ => hclose t)
    refine ⟨_, hreaches, rfl, ⟨rfl, ⟨5, 1⟩, [], rfl, by decide⟩, by decide +kernel,
      by decide +kernel⟩
  · have hreaches := (reaches_flagged hpromised fun s _ => hclose s).trans
      (reaches_closed (serving 0) fun t _ => hclose t)
    exact ⟨_, hreaches, rfl, rfl⟩

end AsyncTCP
end AdvCppHW
