import AdvCppHW.Support.OrdMap
import AdvCppHW.Coroutines.Coroutine
import AdvCppHW.HTTP.ConnectionCallback
import Mathlib.Data.Finset.Insert
import Mathlib.Data.Finset.Erase

/-!
# A worker thread of the server

`BaseHTTPServer::ThreadWork` of `HTTP/BaseHTTPServer.cpp`: the tables of a worker, the members that
change them, and the routine table of its thread.  The kernel's part is kept along: which client
descriptors are registered in the worker's epoll.  Closing a socket takes its descriptor out.

The loop over `m_idleTime` in `dropTimeoutedConnections` erases the element that its iterator stands
on, and the advance of that iterator is undefined.  It is read as one to the next remaining element.

* `ThreadWork` — the tables; `Worker` — with the thread's coroutines.
* `Worker.accept`, `Worker.handleConnection`, `ThreadWork.resetConnectionTime`,
  `ThreadWork.dropTimeoutedConnections`, `ThreadWork.disconnectClient` — the members.
* `Worker.dispatch` — the body of the loop over the events of a batch.
-/

namespace AdvCppHW
namespace HTTP

open Coroutine

/-- An element of `m_connections`; `uid` tells apart the elements made under one key. -/
structure Element where
  uid : Nat
  conn : ConnectionAsync
deriving DecidableEq

/-- The reference that a coroutine's function is bound to. -/
structure ConnectionRef where
  fd : Int
  uid : Nat
deriving DecidableEq

/-- A socket the kernel hands out, and what the memory of its connection's `m_events` held. -/
structure NewSocket where
  fd : Int := -1
  garbage : UInt32 := 0

/-- `BaseHTTPServer`, as its workers see it. -/
structure BaseHTTPServer where
  m_socket : SocketAsync
  /-- In seconds. -/
  m_timeout : Int

structure ThreadWork where
  m_connections : Support.OrdMap Int Element := .empty
  m_coroutines : Support.OrdMap Int Nat := .empty
  /-- Ordered and deduplicated by time; `cmp` does not look at the descriptors. -/
  m_idleTime : Support.OrdMap Int Int := .empty
  /-- The client descriptors registered in `m_epoll`. -/
  registered : Finset Int := ∅
  /-- How many elements `m_connections` has been given. -/
  constructed : Nat := 0
deriving DecidableEq

/-- A worker, with the `ordinator` of its thread. -/
structure Worker where
  work : ThreadWork := {}
  ordinator : Ordinator ConnectionRef Frame := {}
deriving DecidableEq

/-- An event that `epoll_wait` reports. -/
structure Ready where
  fd : Int
  events : UInt32 := 0
deriving DecidableEq

/-- What the environment does while one event is handled. -/
structure Env where
  /-- The result of `accept4`. -/
  accepted : NewSocket := {}
  /-- Whether `epoll_ctl` registers the accepted descriptor. -/
  added : Bool := true
  script : Script
  /-- The socket of a connection that `operator[]` has to make. -/
  spare : NewSocket := {}
  /-- The reading of `system_clock`, in nanoseconds. -/
  now : Int := 0

namespace ThreadWork

/-! ## Members of `ThreadWork` that leave the coroutines alone -/

def removeFromEpoll (t : ThreadWork) (fd : Int) : ThreadWork :=
  { t with registered := t.registered.erase fd }

def addToEpoll (t : ThreadWork) (fd : Int) (added : Bool) : Outcome ThreadWork :=
  if added then .ok { t with registered := insert fd t.registered }
  else .threw (.DescriptorError "Error adding connection to epoll!") t

/-- `m_connections.emplace(fd, ConnectionAsync(fd))` for a new socket.  Under a key that is taken
nothing is stored, and the new socket is closed with the temporary. -/
def emplace (t : ThreadWork) (s : NewSocket) : ThreadWork :=
  if s.fd ∈ t.m_connections then t
  else
    { t with m_connections := t.m_connections.assign s.fd ⟨t.constructed, .ofFD s.fd s.garbage⟩,
             constructed := t.constructed + 1 }

/-- `m_connections[fd]`. -/
def element (t : ThreadWork) (fd : Int) (spare : NewSocket) : Element × ThreadWork :=
  match t.m_connections.lookup fd with
  | some el => (el, t)
  | none =>
      let el : Element := ⟨t.constructed, .ofDefault spare.fd spare.garbage⟩
      (el, { t with m_connections := t.m_connections.assign fd el,
                    constructed := t.constructed + 1 })

/-- `m_coroutines[fd]`. -/
def coroutine (t : ThreadWork) (fd : Int) : Nat × ThreadWork :=
  match t.m_coroutines.lookup fd with
  | some id => (id, t)
  | none => (0, { t with m_coroutines := t.m_coroutines.assign fd 0 })

/-- The connection of an element changes to `c`.  If its socket was closed on the way, the kernel
has unregistered the descriptor. -/
def update (t : ThreadWork) (fd : Int) (el : Element) (c : ConnectionAsync) : ThreadWork :=
  { t with
    m_connections := t.m_connections.assign fd { el with conn := c },
    registered := if c.m_socket = el.conn.m_socket then t.registered
      else t.registered.erase el.conn.m_socket.m_fd }

/-- `m_connections.erase(fd)`; the destructor closes the socket. -/
def eraseConnection (t : ThreadWork) (fd : Int) : ThreadWork :=
  match t.m_connections.lookup fd with
  | none => t
  | some el =>
      { t with
        m_connections := t.m_connections.erase fd,
        registered := if el.conn.m_socket.isOpened then t.registered.erase el.conn.m_socket.m_fd
          else t.registered }

/-- The time of the first element of `m_idleTime` with this descriptor. -/
def idleSince? (t : ThreadWork) (fd : Int) : Option Int :=
  (t.m_idleTime.entries.find? fun i => i.2 = fd).map Prod.fst

/-- `m_idleTime.erase(t)` behind the `find_if` for a descriptor. -/
def eraseIdle (t : ThreadWork) (fd : Int) : Outcome ThreadWork :=
  match t.idleSince? fd with
  | none => .undefined .eraseOfEnd
  | some time => .ok { t with m_idleTime := t.m_idleTime.erase time }

def disconnectClient (t : ThreadWork) (fd : Int) (spare : NewSocket) : Outcome ThreadWork :=
  let t := t.removeFromEpoll fd
  let (el, t) := t.element fd spare
  let t := (t.update fd el el.conn.close).eraseConnection fd
  { t with m_coroutines := t.m_coroutines.erase fd }.eraseIdle fd

def resetConnectionTime (t : ThreadWork) (fd : Int) (now : Int) : Outcome ThreadWork :=
  (t.eraseIdle fd).andThen fun t => .ok { t with m_idleTime := t.m_idleTime.insertNew now fd }

/-- `duration_cast<seconds>` of a difference of clock readings. -/
def timeDiff (now since : Int) : Int := (now - since).tdiv (10 ^ 9)

/-- The loop of `dropTimeoutedConnections`; the list holds the elements from the iterator on, as
they were at the beginning.  `clock` are the readings of `system_clock`.  Behind `disconnectClient`
the source advances an iterator to an erased element; here it goes to the next remaining one. -/
def sweep (server : BaseHTTPServer) (spare : NewSocket) (clock : Nat → Int) :
    List (Int × Int) → ThreadWork → Outcome ThreadWork
  | [], t => .ok t
  | (since, fd) :: rest, t =>
      if since ∉ t.m_idleTime then
        -- erased by an earlier turn of the loop
        sweep server spare clock rest t
      else if timeDiff (clock 0) since > server.m_timeout then
        (t.disconnectClient fd spare).andThen (sweep server spare (fun n => clock (n + 1)) rest)
      else
        -- `m_idleTime.erase(m_idleTime.begin(), i)`
        .ok { t with m_idleTime :=
          ⟨t.m_idleTime.entries.filter fun i => since ≤ i.1, t.m_idleTime.sorted.filter _⟩ }

def dropTimeoutedConnections (t : ThreadWork) (server : BaseHTTPServer) (spare : NewSocket)
    (clock : Nat → Int) : Outcome ThreadWork :=
  sweep server spare clock t.m_idleTime.entries t

end ThreadWork

/-! ## Coroutines of connections -/

/-- How a stretch ends, to the scheduler. -/
def CallbackEnd.toEnded : CallbackEnd → Ended Frame
  | .yielded frame => .yielded frame
  | .returned => .returned
  | .threw e => .threw e

/-- A stretch of a coroutine, on the tables: `connectionCallback` works on the element it was bound
to, if that still exists. -/
def runCallback (script : Script) (ref : ConnectionRef) (frame : Option Frame) (t : ThreadWork) :
    Except UndefinedBehaviour (Ended Frame × ThreadWork) :=
  match t.m_connections.lookup ref.fd with
  | none => .error .danglingReference
  | some el =>
      if el.uid = ref.uid then
        let s := connectionCallback el.conn script (frame.getD .reading)
        .ok (s.ended.toEnded, t.update ref.fd el s.c)
      else
        .error .danglingReference

namespace Worker

def accept (w : Worker) (env : Env) : Outcome Worker :=
  let client_fd := env.accepted.fd
  if client_fd < 0 then
    .ok w
  else
    -- a descriptor that was closed with the temporary cannot be registered
    let added := env.added && decide (client_fd ∉ w.work.m_connections)
    (((w.work.emplace env.accepted).addToEpoll client_fd added).map
      (Worker.mk · w.ordinator)).andThen
      fun w =>
        let (el, t) := w.work.element client_fd env.spare
        let (r_client, o) := w.ordinator.create ⟨client_fd, el.uid⟩
        .ok ⟨{ t with m_coroutines := t.m_coroutines.insertNew client_fd r_client,
                      m_idleTime := t.m_idleTime.insertNew env.now client_fd }, o⟩

/-- `handleConnection` behind `Coroutine::resume`. -/
def afterResume (w : Worker) (fd : Int) (spare : NewSocket) : Outcome Worker :=
  let (el, t) := w.work.element fd spare
  if !el.conn.isOpened then
    (t.disconnectClient fd spare).map (Worker.mk · w.ordinator)
  else
    let t := t.update fd el el.conn.clearEvents
    -- an empty buffer is taken to mean that the coroutine is through
    if el.conn.m_buffer = [] then
      let (id, o) := w.ordinator.create ⟨fd, el.uid⟩
      .ok ⟨{ t with m_coroutines := t.m_coroutines.assign fd id }, o⟩
    else
      .ok ⟨t, w.ordinator⟩

/-- The rest of `handleConnection`, after whatever `Coroutine::resume` has
done to the worker `w`. -/
def resumed (w : Worker) (fd : Int) (spare : NewSocket) :
    Resumption ConnectionRef Frame ThreadWork → Outcome Worker
  | .refused => w.afterResume fd spare
  | .returned o t => afterResume ⟨t, o⟩ fd spare
  | .rethrown e o t => .threw e ⟨t, o⟩
  | .undefined why => .undefined why

def handleConnection (w : Worker) (fd : Int) (events : UInt32) (env : Env) : Outcome Worker :=
  let (el, t) := w.work.element fd env.spare
  let (r_id, t) := (t.update fd el (el.conn.setEvent events)).coroutine fd
  resumed ⟨t, w.ordinator⟩ fd env.spare (w.ordinator.resume (runCallback env.script) r_id t)

/-- One turn of the loop over the events of a batch. -/
def dispatch (server : BaseHTTPServer) (w : Worker) (ready : Ready) (env : Env) : Outcome Worker :=
  if ready.fd = server.m_socket.m_fd then
    w.accept env
  else
    (w.handleConnection ready.fd ready.events env).andThen fun w =>
      -- the client may have been disconnected
      if ready.fd ∈ w.work.m_connections then
        (w.work.resetConnectionTime ready.fd env.now).map (Worker.mk · w.ordinator)
      else
        .ok w

end Worker
end HTTP
end AdvCppHW
