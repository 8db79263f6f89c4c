import AdvCppHW.Support.OrdMap
import AdvCppHW.Cpp.Outcome
import AdvCppHW.AsyncTCP.Connection
import Mathlib.Data.Finset.Insert
import Mathlib.Data.Finset.Erase

/-!
# The asynchronous server

`ServerAsync` of `hw4`, from the end of `open` on.  The kernel's part is kept along: the
descriptors that are registered in the server's epoll.  Closing a socket takes its descriptor
out.  `run` is a transition system that other members may be called around, but not in: an
exception in it is not caught.

* `accept`, `addToEpoll`, `removeFromEpoll`, `handleConnection`, `close` — the members.
* `Running.step` — the steps of `run`; `Promised` — what the kernel grants at a step.
-/

namespace AdvCppHW
namespace AsyncTCP

/-- `EPOLLERR`. -/
def EPOLLERR : UInt32 := 8

/-- `Descriptor`: an open descriptor, or `-1`. -/
structure Descriptor where
  m_fd : Int := -1
deriving DecidableEq

def Descriptor.isOpened (d : Descriptor) : Bool := d.m_fd ≠ -1

/-- `Descriptor::close`; the system call is taken to succeed. -/
def Descriptor.close (d : Descriptor) : Descriptor :=
  if !d.isOpened then d else { d with m_fd := -1 }

theorem Descriptor.isOpened_close (d : Descriptor) : d.close.isOpened = false := by
  unfold Descriptor.close
  split
  · next hclosed => simpa using hclosed
  · rfl

/-- A socket the kernel hands out, and what the memory of its connection's `m_events` held. -/
structure NewSocket where
  fd : Int := -1
  garbage : UInt32 := 0

structure ServerAsync where
  m_socket : SocketAsync
  /-- Whether there is a callback. -/
  m_callback : Bool := false
  m_epollfd : Descriptor
  m_connections : Support.OrdMap Int ConnectionAsync := .empty
  m_shutdown : Bool := false
  /-- The descriptors registered in `m_epollfd`. -/
  registered : Finset Int := ∅
deriving DecidableEq

/-- An event that `epoll_wait` reports. -/
structure Ready where
  fd : Int
  events : UInt32 := 0
deriving DecidableEq

/-- What the environment does while one event is handled. -/
structure Env where
  /-- The result of `accept4`. -/
  accepted : NewSocket := {}
  /-- Whether `epoll_ctl` registers the accepted descriptor. -/
  added : Bool := true
  /-- Whether `setsockopt` sets the two timeouts. -/
  recieveTimeoutSet : Bool := true
  sendTimeoutSet : Bool := true
  /-- The calls of the callback, and the exception that leaves it. -/
  calls : List Call := []
  thrown : Option Exception := none
  /-- `errno` in front of the callback. -/
  errno : Errno := 0
  /-- The socket of a connection that `operator[]` has to make. -/
  spare : NewSocket := {}

namespace ServerAsync

/-! ## Members -/

/-- The server behind `open`. -/
def opened (socket epoll : Int) (callback : Bool) : ServerAsync where
  m_socket := ⟨socket⟩
  m_callback := callback
  m_epollfd := ⟨epoll⟩
  registered := {socket}

def isOpened (s : ServerAsync) : Bool := s.m_socket.isOpened

def addToEpoll (s : ServerAsync) (fd : Int) (added : Bool) : Outcome ServerAsync :=
  if !s.m_epollfd.isOpened then .ok s
  else if added then .ok { s with registered := insert fd s.registered }
  else .threw (.DescriptorError "Error adding connection to epoll!") s

def removeFromEpoll (s : ServerAsync) (fd : Int) : ServerAsync :=
  if !s.m_epollfd.isOpened then s else { s with registered := s.registered.erase fd }

/-- `m_connections.try_emplace(fd, ConnectionAsync(fd))` for a new socket.  Under a key that is
taken nothing is stored, and the new socket is closed with the temporary. -/
def try_emplace (s : ServerAsync) (new : NewSocket) : Bool × ServerAsync :=
  if new.fd ∈ s.m_connections then
    (false, { s with registered := s.registered.erase new.fd })
  else
    (true, { s with m_connections := s.m_connections.assign new.fd (.ofFD new.fd new.garbage) })

/-- `m_connections[fd]`. -/
def element (s : ServerAsync) (fd : Int) (spare : NewSocket) : ConnectionAsync × ServerAsync :=
  match s.m_connections.lookup fd with
  | some c => (c, s)
  | none =>
      let c := ConnectionAsync.ofDefault spare.fd spare.garbage
      (c, { s with m_connections := s.m_connections.assign fd c })

/-- The connection under `fd` changes from `c` to `c'`.  If its socket was closed on the way, the
kernel has unregistered the descriptor. -/
def update (s : ServerAsync) (fd : Int) (c c' : ConnectionAsync) : ServerAsync :=
  { s with
    m_connections := s.m_connections.assign fd c',
    registered := if c'.m_socket = c.m_socket then s.registered
      else s.registered.erase c.m_socket.m_fd }

/-- `m_connections.erase(fd)`; the destructor closes the socket. -/
def eraseConnection (s : ServerAsync) (fd : Int) : ServerAsync :=
  match s.m_connections.lookup fd with
  | none => s
  | some c =>
      { s with
        m_connections := s.m_connections.erase fd,
        registered := if c.m_socket.isOpened then s.registered.erase c.m_socket.m_fd
          else s.registered }

/-- `m_connections[fd].setTimeout(seconds, optname)`. -/
def setTimeout (s : ServerAsync) (fd : Int) (spare : NewSocket) (set : Bool) :
    Outcome ServerAsync :=
  let (c, s) := s.element fd spare
  if !c.m_socket.isOpened then .ok s
  else if set then .ok s
  else .threw (.NetworkError "Error setting timeout!") s

def accept (s : ServerAsync) (env : Env) : Outcome ServerAsync :=
  if !s.isOpened then
    .threw (.NetworkError "Server closed!") s
  else
    let client_fd := env.accepted.fd
    if client_fd < 0 then
      .threw (.NetworkError "Error accepting connection!") s
    else
      let (success, s) := s.try_emplace env.accepted
      if !success then
        .threw (.NetworkError "Error accepting connection!") s
      else
        ((s.addToEpoll client_fd env.added).andThen fun s =>
          s.setTimeout client_fd env.spare env.recieveTimeoutSet).andThen fun s =>
            s.setTimeout client_fd env.spare env.sendTimeoutSet

/-- The connection behind `if (m_callback) m_callback(c)`. -/
def called (s : ServerAsync) (c : ConnectionAsync) (env : Env) : ConnectionAsync :=
  if s.m_callback then (callback ⟨c, env.errno⟩ env.calls).c else c

/-- `handleConnection` for the connection `c` that is stored under `key`. -/
def handleConnection (s : ServerAsync) (key : Int) (c : ConnectionAsync) (events : UInt32)
    (env : Env) : Outcome ServerAsync :=
  let fd := c.m_socket.m_fd
  let c' := s.called (c.setEvent events) env
  let s' := s.update key c c'
  match (if s.m_callback then env.thrown else none) with
  | some e => .threw e s'
  | none =>
      if !c'.isOpened || isEventSet c' EPOLLERR then
        .ok ((s'.removeFromEpoll fd).eraseConnection fd)
      else
        .ok (s'.update key c' c'.clearEvents)

/-- One turn of the loop over the events of a batch. -/
def dispatch (s : ServerAsync) (ready : Ready) (env : Env) : Outcome ServerAsync :=
  if ready.fd = s.m_socket.m_fd then
    s.accept env
  else
    let (c, s) := s.element ready.fd env.spare
    s.handleConnection ready.fd c ready.events env

/-- `ServerAsync::close`.  With the epoll go its registrations. -/
def close (s : ServerAsync) : ServerAsync :=
  { s with
    m_shutdown := true,
    m_connections := .empty,
    m_socket := s.m_socket.close,
    m_epollfd := s.m_epollfd.close,
    registered := ∅ }

end ServerAsync

/-! ## `run` -/

/-- Where `run` is. -/
inductive Point where
  /-- It does not run. -/
  | outside
  /-- At the top of the loop. -/
  | top
  /-- In front of `epoll_wait`. -/
  | waiting
  /-- In the loop over the events of a batch; these are still to be handled. -/
  | handling (rest : List Ready)
deriving DecidableEq

structure Running where
  server : ServerAsync
  point : Point := .outside
deriving DecidableEq

/-- How `epoll_wait` ends. -/
inductive Waited where
  | interrupted
  | failed
  /-- After a timeout no events are reported. -/
  | ready (events : List Ready)

/-- A step, with what the environment does in it. -/
inductive Act where
  /-- Members are called outside of `run`. -/
  | setCallback (set : Bool)
  | accept (env : Env)
  | close
  | run
  /-- The conditions in front of `epoll_wait`. -/
  | check
  | wait (result : Waited)
  | handle (env : Env)
  /-- All events of the batch were handled. -/
  | finish

/-- A call is through; an exception leaves `run`. -/
def leads (next : Point) : Outcome ServerAsync → Option Running
  | .ok s => some ⟨s, next⟩
  | .threw _ s => some ⟨s, .outside⟩
  | .undefined _ => none

namespace Running

/-- `none` when the step is not the next one. -/
def step (s : Running) (act : Act) : Option Running :=
  match s.point, act with
  | .outside, .setCallback set => some ⟨{ s.server with m_callback := set }, .outside⟩
  | .outside, .accept env => leads .outside (s.server.accept env)
  | .outside, .close => some ⟨s.server.close, .outside⟩
  | .outside, .run => some ⟨{ s.server with m_shutdown := false }, .top⟩
  | .top, .check =>
      if s.server.m_shutdown then some ⟨s.server, .outside⟩
      else if !s.server.isOpened || !s.server.m_epollfd.isOpened then some ⟨s.server, .outside⟩
      else some ⟨s.server, .waiting⟩
  | .waiting, .wait .interrupted => some ⟨s.server, .top⟩
  | .waiting, .wait .failed => some ⟨s.server, .outside⟩
  | .waiting, .wait (.ready events) => some ⟨s.server, .handling events⟩
  | .handling (ready :: rest), .handle env => leads (.handling rest) (s.server.dispatch ready env)
  | .handling [], .finish => some ⟨s.server, .top⟩
  | _, _ => none

def Step (s : Running) (act : Act) (s' : Running) : Prop := s.step act = some s'

/-- What the kernel grants: `epoll_wait` reports a registered descriptor, and at most once;
`accept4` returns a descriptor that no socket of the server has. -/
def Promised (s : Running) : Act → Prop
  | .wait (.ready events) => (events.map Ready.fd).Nodup ∧
      ∀ ready ∈ events, ready.fd ∈ s.server.registered
  | .handle env | .accept env => 0 ≤ env.accepted.fd → env.accepted.fd ≠ s.server.m_socket.m_fd ∧
      ∀ fd c, s.server.m_connections.lookup fd = some c → c.m_socket.m_fd ≠ env.accepted.fd
  | _ => True

end Running
end AsyncTCP
end AdvCppHW
