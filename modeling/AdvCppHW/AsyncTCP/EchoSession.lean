import AdvCppHW.AsyncTCP.EchoServer

/-!
# A session of the echo client with the echo server

The program `example/client_side_async.cpp` in `hw4` sends its message in blocks, reads each
one back before it sends the next, and says that it disconnects.  The server runs its
callback when the client's socket is reported, which is level-triggered: `EPOLLIN` as long as
there is something to read.

A block that has come, but was not sent back at once, stays where it is: the client waits for the
rest of it and sends nothing, so that the server is not told again.

* `Session.step` — the steps of the client, and the wake-ups of the server.
* `Stage` — where a session can be; `step_stage` — each step leads from one stage to another.
* `session_finishes_iff` — what the client has got back, and when it can come to its end.
-/

namespace AdvCppHW
namespace AsyncTCP
namespace EchoServer

/-! ## The client and the connection -/

/-- `msg_final`, filled up to a block. -/
def finalBlock : Bytes := final_msg ++ List.replicate (size - final_msg.length) 0

/-- Where the client is. -/
inductive ClientPoint where
  /-- In `writeExact`; these bytes of the block are left, and these blocks come behind it. -/
  | writing (left : Bytes) (later : List Bytes)
  /-- In `readExact`; so many bytes of the block are missing. -/
  | reading (missing : Nat) (later : List Bytes)
  /-- In `writeExact` for the last block. -/
  | ending (left : Bytes)
  | closed
deriving DecidableEq

/-- The client in front of these blocks. -/
def ClientPoint.next : List Bytes → ClientPoint
  | [] => .ending finalBlock
  | b :: later => .writing b later

structure Session where
  point : ClientPoint
  /-- `got_back`, as far as it has been read. -/
  gotBack : Bytes := []
  /-- The server's connection; `none` when it has been erased. -/
  conn : Option ConnectionAsync
  sentBack : SentBack := fun _ => none
  /-- What was written to a socket and not yet read from the other. -/
  toServer : Bytes := []
  toClient : Bytes := []

/-- A step, with what the system calls come to. -/
inductive SessionAct where
  /-- `::write` of the client takes `n + 1` bytes at most. -/
  | writes (n : Nat)
  /-- `::read` of the client stores `n + 1` bytes at most. -/
  | reads (n : Nat)
  /-- The server's `handleConnection` for the client. -/
  | wakeUp (events : UInt32) (errno : Errno) (sys : Outcomes)

/-- The rest of `handleConnection`, behind the callback. -/
def handled (c : ConnectionAsync) : Option ConnectionAsync :=
  if !c.isOpened || isEventSet c EPOLLERR then none else some c.clearEvents

namespace Session

/-- The client is connected, and accepted with `m_events` at zero. -/
def start (fd : Int) (sentBack : SentBack) (blocks : List Bytes) : Session where
  point := .next blocks
  conn := some (.ofFD fd 0)
  sentBack := sentBack

/-- `none` when the step is not possible. -/
def step (s : Session) : SessionAct → Option Session
  | .writes n =>
      match s.point with
      | .writing left later => some { s with
          toServer := s.toServer ++ left.take (n + 1)
          point := if left.length ≤ n + 1 then .reading size later
            else .writing (left.drop (n + 1)) later }
      | .ending left => some { s with
          toServer := s.toServer ++ left.take (n + 1)
          point := if left.length ≤ n + 1 then .closed else .ending (left.drop (n + 1)) }
      | .reading _ _ | .closed => none
  | .reads n =>
      match s.point with
      | .reading missing later =>
          if s.toClient = [] then none
          else
            let chunk := s.toClient.take (min (n + 1) missing)
            some { s with
              gotBack := s.gotBack ++ chunk
              toClient := s.toClient.drop (min (n + 1) missing)
              point := if missing ≤ chunk.length then .next later
                else .reading (missing - chunk.length) later }
      | .writing _ _ | .ending _ | .closed => none
  | .wakeUp events errno sys =>
      match s.conn with
      | none => none
      | some c =>
          let r := callback ⟨c.setEvent events, errno⟩ s.sentBack sys
          some { s with
            conn := handled r.s.c
            sentBack := r.sentBack
            toServer := s.toServer.drop r.recieved.length
            toClient := s.toClient ++ r.echoed }

def Step (s : Session) (a : SessionAct) (s' : Session) : Prop := s.step a = some s'

/-- What the kernel grants at a wake-up: there is `EPOLLIN` when there is something to read, and
then a read stores some of it; a write takes something or would block; and there is no error. -/
def Granted (s : Session) : SessionAct → Prop
  | .writes _ | .reads _ => True
  | .wakeUp events _ sys => ∀ c, s.conn = some c →
      (events &&& EPOLLIN ≠ 0 ↔ s.toServer ≠ []) ∧ events &&& EPOLLERR = 0 ∧
      (s.toServer ≠ [] → c.m_buffer.length < size → ∃ bytes, sys.read = .data bytes ∧ bytes ≠ [] ∧
        bytes <+: s.toServer ∧ bytes.length ≤ size - c.m_buffer.length) ∧
      (sys.write = .wouldBlock ∨ ∃ k, sys.write = .wrote (k + 1))

/-- The client has closed its socket, and the server has erased the connection. -/
def Finished (s : Session) : Prop := s.point = .closed ∧ s.conn = none

/-- The server's buffer is filled, between two wake-ups. -/
def HoldsBlock (s : Session) : Prop := ∃ c, s.conn = some c ∧ c.m_buffer.length = size

end Session

/-! ## What a wake-up does -/

section WakeUp

variable {s : ConnectionState} {sentBack : SentBack} {sys : Outcomes}

theorem callback_idle (hin : isEventSet s.c EPOLLIN = false) :
    callback s sentBack sys = ⟨s, sentBack, [], [], []⟩ := by
  simp [callback, hin]

/-- Sending a block of which nothing has been sent: all of it goes, or it stays in the buffer and
the entry says how much has gone. -/
theorem sendBack_block (hopen : s.c.m_opened = true) (hfull : s.c.m_buffer.length = size)
    (hsent : sentOf sentBack s.c.m_socket.m_fd = 0) {w : SysWrite}
    (hwrite : w = .wouldBlock ∨ ∃ k, w = .wrote (k + 1)) :
    ((sendBack s sentBack w).s.c = s.c.clearBuffer ∧
        sentOf (sendBack s sentBack w).sentBack s.c.m_socket.m_fd = 0 ∧
        (sendBack s sentBack w).echoed = s.c.m_buffer) ∨
      w ≠ .wrote size ∧ (sendBack s sentBack w).s.c = s.c ∧
        sentOf (sendBack s sentBack w).sentBack s.c.m_socket.m_fd < size ∧
        (sendBack s sentBack w).echoed =
          s.c.m_buffer.take (sentOf (sendBack s sentBack w).sentBack s.c.m_socket.m_fd) := by
  have hentry : ((createEntry sentBack s.c.m_socket.m_fd) s.c.m_socket.m_fd).getD 0 = 0 :=
    (sentOf_createEntry sentBack _ _).trans hsent
  have hnot : (!s.c.isOpened) = false := by simp [ConnectionAsync.isOpened, hopen]
  rcases hwrite with rfl | ⟨k, rfl⟩
  · -- the call would block, which the handler passes over
    have hrun : (write s.c.m_buffer .wouldBlock).run s =
        .error (.IOError "Error writing to process!") { s with errno := EAGAIN } := by
      simp only [write, SysWrite.perform, EStateM.run_bind, EStateM.run_get, hnot,
        Bool.false_eq_true, if_false, EStateM.run_set]
      rfl
    have hsame : sendBack s sentBack .wouldBlock = ⟨{ s with errno := EAGAIN },
        createEntry sentBack s.c.m_socket.m_fd, [.write s.c.m_buffer .wouldBlock], [], []⟩ := by
      simp only [sendBack, hentry, List.drop_zero, hrun, caught, true_or, if_true]
    have hzero : sentOf (createEntry sentBack s.c.m_socket.m_fd) s.c.m_socket.m_fd = 0 := hentry
    rw [hsame]
    refine Or.inr ⟨by simp, rfl, ?_, ?_⟩
    · rw [hzero]
      decide
    · rw [hzero, List.take_zero]
  · have hrun : (write s.c.m_buffer (.wrote (k + 1))).run s = .ok (min (k + 1) size) s := by
      have hneg : ¬ ((min (k + 1) size : Nat) : Int) < 0 := by omega
      simp only [write, SysWrite.perform, EStateM.run_bind, EStateM.run_get, hnot,
        Bool.false_eq_true, if_false, EStateM.run_set, hfull, hneg]
      rfl
    by_cases hwhole : size ≤ k + 1
    · have hgone : sendBack s sentBack (.wrote (k + 1)) = ⟨{ s with c := s.c.clearBuffer },
          Function.update (createEntry sentBack s.c.m_socket.m_fd) s.c.m_socket.m_fd none,
          [.write s.c.m_buffer (.wrote (k + 1)), .clearBuffer], [], s.c.m_buffer.take size⟩ := by
        simp only [sendBack, hentry, List.drop_zero, hrun, min_eq_right hwhole,
          Nat.zero_add, if_true]
      rw [hgone]
      exact Or.inl ⟨rfl, sentOf_update_self _ _ _, List.take_of_length_le hfull.le⟩
    · have hshort : min (k + 1) size = k + 1 := min_eq_left (by omega)
      have hrest : sendBack s sentBack (.wrote (k + 1)) = ⟨s,
          Function.update (createEntry sentBack s.c.m_socket.m_fd) s.c.m_socket.m_fd (some (k + 1)),
          [.write s.c.m_buffer (.wrote (k + 1))], [], s.c.m_buffer.take (k + 1)⟩ := by
        have hne : k + 1 ≠ size := by omega
        simp only [sendBack, hentry, List.drop_zero, hrun, hshort, Nat.zero_add, hne, if_false]
      have hentry' :
        sentOf (Function.update (createEntry sentBack s.c.m_socket.m_fd) s.c.m_socket.m_fd
          (some (k + 1))) s.c.m_socket.m_fd = k + 1 := sentOf_update_self _ _ _
      rw [hrest]
      refine Or.inr ⟨?_, rfl, ?_, ?_⟩
      · intro h
        cases h
        exact hwhole le_rfl
      · rw [hentry']
        omega
      · rw [hentry']

variable (hin : isEventSet s.c EPOLLIN = true) (hopen : s.c.m_opened = true) {bytes : Bytes}
  (hread : sys.read = .data bytes) (hbytes : bytes ≠ [])
include hin hopen hread hbytes

/-- A read that stores something is followed by the look at the block. -/
theorem callback_reads (sentBack : SentBack) (hroom : s.c.m_buffer.length < size) :
    ∃ s', s'.c = { s.c with m_buffer := s.c.m_buffer ++ bytes } ∧
      (callback s sentBack sys).s =
        (withBlock s' sentBack sys.write (s.c.m_buffer.length + bytes.length)).s ∧
      (callback s sentBack sys).sentBack =
        (withBlock s' sentBack sys.write (s.c.m_buffer.length + bytes.length)).sentBack ∧
      (callback s sentBack sys).echoed =
        (withBlock s' sentBack sys.write (s.c.m_buffer.length + bytes.length)).echoed ∧
      (callback s sentBack sys).recieved = bytes := by
  have hfails : ¬ Fails sys.read := by
    rw [hread]
    rintro ⟨e, he, -⟩
    cases he
  obtain ⟨s', hrun, hc⟩ := readToBuffer_ok hopen (size - s.c.m_buffer.length) hfails
  have hstored : bytesOf sys.read = bytes := by rw [hread]; rfl
  have hmore : returnsZero sys.read = false := by
    rw [hread]
    cases bytes with
    | nil => exact absurd rfl hbytes
    | cons b bytes => rfl
  rw [hstored] at hrun
  refine ⟨s', ?_, ?_⟩
  · simp [hc, hstored, hmore, hopen]
  · rw [callback, if_pos hin]
    simp only [if_pos hroom.ne, hrun, hstored, and_self]

end WakeUp

/-- What `ServerAsync::handleConnection` leaves under the descriptor when it runs the callback. -/
theorem handleConnection_handled {server server' : ServerAsync} {fd : Int} {c : ConnectionAsync}
    (hcallback : server.m_callback = true) (hsocket : c.m_socket.m_fd = fd) {events : UInt32}
    {env : Env}
    (h : server.handleConnection fd c events
      { env with
        calls := (callback ⟨c.setEvent events, env.errno⟩ sentBack sys).calls
        thrown := none } = .ok server') :
    server'.m_connections.lookup fd =
      handled (callback ⟨c.setEvent events, env.errno⟩ sentBack sys).s.c := by
  have hcalled : server.called (c.setEvent events)
      { env with
        calls := (callback ⟨c.setEvent events, env.errno⟩ sentBack sys).calls
        thrown := none } = (callback ⟨c.setEvent events, env.errno⟩ sentBack sys).s.c := by
    rw [ServerAsync.called, if_pos hcallback]
    exact congrArg ConnectionState.c (callback_calls _ _ _)
  simp only [ServerAsync.handleConnection, hcalled, ite_self, hsocket] at h
  unfold handled
  split at h
  · next hgone =>
      cases h
      rw [if_pos hgone]
      exact eraseConnection_lookup _ fd
  · next hkept =>
      cases h
      rw [if_neg hkept]
      exact Support.OrdMap.lookup_assign_self _ _ _

/-! ## Wake-ups in a session -/

/-- The server has this much of the current block in its buffer, and has sent back so much of it. -/
structure Serving (fd : Int) (buffer : Bytes) (sent : Nat) (sentBack : SentBack)
    (c : ConnectionAsync) : Prop where
  socket : c.m_socket.m_fd = fd
  opened : c.m_opened = true
  events : c.m_events = 0
  buffer : c.m_buffer = buffer
  sent : sentOf sentBack fd = sent

def Session.Serves (fd : Int) (buffer : Bytes) (sent : Nat) (s : Session) : Prop :=
  ∃ c, s.conn = some c ∧ Serving fd buffer sent s.sentBack c

/-- All of a block that was read is sent back. -/
def Whole (events : UInt32) (sys : Outcomes) : Prop :=
  events &&& EPOLLOUT ≠ 0 ∧ sys.write = .wrote size

/-- What a wake-up does when there is room in the buffer. -/
inductive Woken (fd : Int) (buffer : Bytes) (whole : Prop) (s s' : Session) : Prop
  | idle (hserver : s.toServer = []) (hserver' : s'.toServer = []) (hserves : s'.Serves fd buffer 0)
      (hclient : s'.toClient = s.toClient)
  | stores (bytes : Bytes) (hbytes : bytes ≠ []) (hserver : s.toServer = bytes ++ s'.toServer)
      (hroom : (buffer ++ bytes).length < size) (hserves : s'.Serves fd (buffer ++ bytes) 0)
      (hclient : s'.toClient = s.toClient)
  | disconnects (bytes : Bytes) (hbytes : bytes ≠ []) (hserver : s.toServer = bytes ++ s'.toServer)
      (hfull : (buffer ++ bytes).length = size)
      (hfinal : (buffer ++ bytes).take final_msg.length = final_msg)
      (hgone : s'.conn = none) (hclient : s'.toClient = s.toClient)
  | echoes (bytes : Bytes) (hbytes : bytes ≠ []) (hserver : s.toServer = bytes ++ s'.toServer)
      (hfull : (buffer ++ bytes).length = size)
      (hfinal : (buffer ++ bytes).take final_msg.length ≠ final_msg)
      (hserves : s'.Serves fd [] 0) (hclient : s'.toClient = s.toClient ++ (buffer ++ bytes))
  | fallsShort (hshort : ¬ whole) (bytes : Bytes) (sent : Nat) (hsent : sent < size)
      (hserver : s.toServer = bytes ++ s'.toServer) (hfull : (buffer ++ bytes).length = size)
      (hfinal : (buffer ++ bytes).take final_msg.length ≠ final_msg)
      (hserves : s'.Serves fd (buffer ++ bytes) sent)
      (hclient : s'.toClient = s.toClient ++ (buffer ++ bytes).take sent)

section Wake

variable {fd : Int} {buffer : Bytes} {sent : Nat} {s s' : Session} {c : ConnectionAsync}
  {events : UInt32} {errno : Errno} {sys : Outcomes}

theorem isEventSet_setEvent (hevents : c.m_events = 0) (events flag : UInt32) :
    isEventSet (c.setEvent events) flag = decide (events &&& flag ≠ 0) := by
  simp [isEventSet, ConnectionAsync.setEvent, hevents]

/-- A connection that is open, and without an error, is kept. -/
theorem handled_serving {c' : ConnectionAsync} {sentBack sentBack' : SentBack}
    (h : Serving fd buffer sent sentBack c) (herr : events &&& EPOLLERR = 0) {buffer' : Bytes}
    (hc' : c' = { c.setEvent events with m_buffer := buffer' }) {sent' : Nat}
    (hsent' : sentOf sentBack' fd = sent') :
    ∃ c'', handled c' = some c'' ∧ Serving fd buffer' sent' sentBack' c'' := by
  have hset : isEventSet c' EPOLLERR = false := by
    rw [hc']
    exact (isEventSet_setEvent (c := { c with m_buffer := buffer' }) h.events events EPOLLERR).trans
      (by simp [herr])
  have hopened : c'.isOpened = true := by
    rw [hc']
    exact h.opened
  refine ⟨c'.clearEvents, by simp [handled, hset, hopened], ?_⟩
  rw [hc']
  exact ⟨h.socket, h.opened, rfl, rfl, hsent'⟩

/-- Without anything to read the callback does nothing. -/
theorem wakeUp_idle (hconn : s.conn = some c) (h : Serving fd buffer sent s.sentBack c)
    (hgranted : s.Granted (.wakeUp events errno sys)) (hserver : s.toServer = [])
    (hstep : s.Step (.wakeUp events errno sys) s') :
    s'.Serves fd buffer sent ∧ s'.toServer = s.toServer ∧ s'.toClient = s.toClient := by
  obtain ⟨hin, herr, -, -⟩ := hgranted c hconn
  have hnot : isEventSet (c.setEvent events) EPOLLIN = false := by
    rw [isEventSet_setEvent h.events, decide_eq_false_iff_not]
    exact fun hset => hin.mp hset hserver
  have hstep' : s.step (.wakeUp events errno sys) = some s' := hstep
  simp only [Session.step, hconn, callback_idle (s := ⟨c.setEvent events, errno⟩) hnot] at hstep'
  cases hstep'
  have hsame : c.setEvent events = { c.setEvent events with m_buffer := buffer } := by
    rw [← h.buffer]
    rfl
  obtain ⟨c', hkept, hserving⟩ := handled_serving h herr hsame h.sent
  exact ⟨⟨c', hkept, hserving⟩, rfl, List.append_nil _⟩

theorem wakeUp_woken (hconn : s.conn = some c) (h : Serving fd buffer 0 s.sentBack c)
    (hroom : buffer.length < size) (hgranted : s.Granted (.wakeUp events errno sys))
    (hstep : s.Step (.wakeUp events errno sys) s') :
    Woken fd buffer (Whole events sys) s s' := by
  by_cases hserver : s.toServer = []
  · obtain ⟨hserves, hserver', hclient⟩ := wakeUp_idle hconn h hgranted hserver hstep
    exact .idle hserver (hserver'.trans hserver) hserves hclient
  obtain ⟨hin, herr, hread, hwrite⟩ := hgranted c hconn
  obtain ⟨bytes, hread, hbytes, ⟨rest, hrest⟩, hle⟩ := hread hserver (h.buffer.symm ▸ hroom)
  have hset : isEventSet (c.setEvent events) EPOLLIN = true := by
    rw [isEventSet_setEvent h.events, decide_eq_true_iff]
    exact hin.mpr hserver
  have hroom' : (c.setEvent events).m_buffer.length < size := h.buffer.symm ▸ hroom
  obtain ⟨st, hst, hs, hsentBack, hechoed, hrecieved⟩ :=
    callback_reads (s := ⟨c.setEvent events, errno⟩) hset h.opened hread hbytes s.sentBack hroom'
  have hcount : (c.setEvent events).m_buffer.length + bytes.length = (buffer ++ bytes).length := by
    rw [List.length_append, ← h.buffer]
    rfl
  have hblock : st.c = { c.setEvent events with m_buffer := buffer ++ bytes } := by
    rw [hst, ← h.buffer]
    rfl
  have hbuffer : st.c.m_buffer = buffer ++ bytes := by rw [hblock]
  have hopened : st.c.m_opened = true := by rw [hblock]; exact h.opened
  have hsocket : st.c.m_socket.m_fd = fd := by rw [hblock]; exact h.socket
  have hserver' : s.toServer = bytes ++ s.toServer.drop bytes.length := by
    rw [← hrest, List.drop_left]
  -- the session behind the wake-up, by what `withBlock` leaves
  have hstep' : s.step (.wakeUp events errno sys) = some s' := hstep
  simp only [hcount] at hs hsentBack hechoed
  simp only [Session.step, hconn, hs, hsentBack, hechoed, hrecieved] at hstep'
  generalize hr : withBlock st s.sentBack sys.write (buffer ++ bytes).length = r at hstep'
  cases hstep'
  by_cases hfull : (buffer ++ bytes).length = size
  swap
  · have hshort : (buffer ++ bytes).length < size := by
      rw [h.buffer] at hle
      rw [List.length_append] at hfull ⊢
      omega
    simp only [withBlock, hfull, if_false] at hr
    subst hr
    obtain ⟨c', hkept, hserving⟩ := handled_serving h herr hblock h.sent
    exact .stores bytes hbytes hserver' hshort ⟨c', hkept, hserving⟩ (List.append_nil _)
  by_cases hfinal : (buffer ++ bytes).take final_msg.length = final_msg
  · simp only [withBlock, hfull, if_true, hbuffer, hfinal] at hr
    subst hr
    have hgone : handled st.c.close = none := by
      simp [handled, ConnectionAsync.close, ConnectionAsync.isOpened, hopened]
    exact .disconnects bytes hbytes hserver' hfull hfinal hgone (List.append_nil _)
  have hout : isEventSet st.c EPOLLOUT = decide (events &&& EPOLLOUT ≠ 0) := by
    rw [hblock]
    exact isEventSet_setEvent (c := { c with m_buffer := buffer ++ bytes }) h.events events EPOLLOUT
  simp only [withBlock, hfull, if_true, hbuffer, hfinal, if_false, hout, decide_eq_true_eq] at hr
  by_cases hwritable : events &&& EPOLLOUT ≠ 0
  · rw [if_pos hwritable] at hr
    have hsend := sendBack_block hopened (hbuffer ▸ hfull) (hsocket.symm ▸ h.sent) hwrite
    rw [hr, hsocket, hbuffer] at hsend
    rcases hsend with ⟨hc, hsent, hall⟩ | ⟨hnot, hc, hsent, hpart⟩
    · have hcleared : r.s.c = { c.setEvent events with m_buffer := [] } := by
        rw [hc, hblock]
        rfl
      obtain ⟨c', hkept, hserving⟩ := handled_serving h herr hcleared hsent
      exact .echoes bytes hbytes hserver' hfull hfinal ⟨c', hkept, hserving⟩
        (congrArg (s.toClient ++ ·) hall)
    · obtain ⟨c', hkept, hserving⟩ := handled_serving h herr (hc.trans hblock) rfl
      exact .fallsShort (fun hwhole => hnot hwhole.2) bytes _ hsent hserver' hfull hfinal
        ⟨c', hkept, hserving⟩ (congrArg (s.toClient ++ ·) hpart)
  · rw [if_neg hwritable] at hr
    subst hr
    obtain ⟨c', hkept, hserving⟩ := handled_serving h herr hblock h.sent
    exact .fallsShort (fun hwhole => hwritable hwhole.1) bytes 0 (by decide) hserver' hfull hfinal
      ⟨c', hkept, hserving⟩ (by rw [List.take_zero])

end Wake

/-! ## The stages of a session -/

/-- Where a session can be, in front of the blocks that are still to come.  Of the block that is on
its way, `buffer` has been read by the server and `left` is not written yet. -/
inductive Stage (fd : Int) (blocks : List Bytes) (s : Session) : Prop
  | filling (past : List Bytes) (b : Bytes) (later : List Bytes) (buffer left : Bytes)
      (hblocks : blocks = past ++ b :: later) (hgot : s.gotBack = past.flatten)
      (hblock : buffer ++ (s.toServer ++ left) = b) (hroom : buffer.length < size)
      (hserves : s.Serves fd buffer 0) (hclient : s.toClient = [])
      (hpoint : left ≠ [] ∧ s.point = .writing left later ∨ left = [] ∧
        s.point = .reading size later)
  /-- All of the block has been sent back. -/
  | echoed (past : List Bytes) (b : Bytes) (later : List Bytes) (got : Bytes)
      (hblocks : blocks = past ++ b :: later) (hgot : s.gotBack = past.flatten ++ got)
      (hblock : got ++ s.toClient = b) (hmissing : s.toClient ≠ []) (hserver : s.toServer = [])
      (hserves : s.Serves fd [] 0) (hpoint : s.point = .reading (size - got.length) later)
  /-- Not all of the block has been sent back. -/
  | stalled (past : List Bytes) (b : Bytes) (later : List Bytes) (got : Bytes) (sent : Nat)
      (hblocks : blocks = past ++ b :: later) (hgot : s.gotBack = past.flatten ++ got)
      (hsent : sent < size) (hblock : got ++ s.toClient = b.take sent) (hserver : s.toServer = [])
      (hserves : s.Serves fd b sent) (hpoint : s.point = .reading (size - got.length) later)
  /-- The last block is on its way. -/
  | ending (buffer left : Bytes) (hgot : s.gotBack = blocks.flatten)
      (hblock : buffer ++ (s.toServer ++ left) = finalBlock) (hroom : buffer.length < size)
      (hserves : s.Serves fd buffer 0) (hclient : s.toClient = [])
      (hpoint : left ≠ [] ∧ s.point = .ending left ∨ left = [] ∧ s.point = .closed)
  | finished (hgot : s.gotBack = blocks.flatten) (hpoint : s.point = .closed)
    (hgone : s.conn = none)

/-- The blocks are whole, and none of them says that the client disconnects. -/
def Sendable (blocks : List Bytes) : Prop :=
  ∀ b ∈ blocks, b.length = size ∧ b.take final_msg.length ≠ final_msg

theorem length_finalBlock : finalBlock.length = size := by
  rw [finalBlock, List.length_append, List.length_replicate]
  decide

/-- The client turns to the next block, or to the last. -/
theorem stage_next {fd : Int} {blocks past later : List Bytes} {s : Session}
    (hsendable : Sendable blocks) (hblocks : blocks = past ++ later)
    (hgot : s.gotBack = past.flatten) (hserver : s.toServer = []) (hclient : s.toClient = [])
    (hserves : s.Serves fd [] 0) (hpoint : s.point = .next later) : Stage fd blocks s := by
  have hroom : ([] : Bytes).length < size := by decide
  cases later with
  | nil =>
      rw [List.append_nil] at hblocks
      refine .ending [] finalBlock (hblocks ▸ hgot) (by rw [hserver]; rfl) hroom hserves hclient
        (Or.inl ⟨?_, hpoint⟩)
      exact List.ne_nil_of_length_pos (by rw [length_finalBlock]; decide)
  | cons b later =>
      have hlength := (hsendable b (by simp [hblocks])).1
      refine .filling past b later [] b hblocks hgot (by rw [hserver]; rfl) hroom hserves hclient
        (Or.inl ⟨?_, hpoint⟩)
      exact List.ne_nil_of_length_pos (by rw [hlength]; decide)

theorem reads_cases {s s' : Session} {missing : Nat} {later : List Bytes}
    (hpoint : s.point = .reading missing later) {n : Nat} (hstep : s.Step (.reads n) s') :
    s.toClient ≠ [] ∧ ∃ chunk, s.toClient = chunk ++ s'.toClient ∧ s'.gotBack = s.gotBack ++ chunk ∧
      (missing ≠ 0 → chunk ≠ []) ∧ s'.conn = s.conn ∧ s'.sentBack = s.sentBack ∧
      s'.toServer = s.toServer ∧
      (missing ≤ chunk.length ∧ s'.point = .next later ∨
        chunk.length < missing ∧ s'.point = .reading (missing - chunk.length) later) := by
  have hstep' : s.step (.reads n) = some s' := hstep
  simp only [Session.step, hpoint] at hstep'
  split at hstep'
  · cases hstep'
  · next hne =>
      cases hstep'
      refine ⟨hne, s.toClient.take (min (n + 1) missing), (List.take_append_drop _ _).symm, rfl,
        fun hmissing hnil => ?_, rfl, rfl, rfl, ?_⟩
      · rcases List.take_eq_nil_iff.mp hnil with hzero | hnil
        · omega
        · exact hne hnil
      by_cases hall : missing ≤ (s.toClient.take (min (n + 1) missing)).length
      · exact Or.inl ⟨hall, if_pos hall⟩
      · exact Or.inr ⟨not_le.mp hall, if_neg hall⟩

theorem wakeUp_same {s s' : Session} {events : UInt32} {errno : Errno} {sys : Outcomes}
    (hstep : s.Step (.wakeUp events errno sys) s') :
    s'.point = s.point ∧ s'.gotBack = s.gotBack := by
  have hstep' : s.step (.wakeUp events errno sys) = some s' := hstep
  simp only [Session.step] at hstep'
  split at hstep'
  · cases hstep'
  · cases hstep'
    exact ⟨rfl, rfl⟩

section Steps

variable {fd : Int} {blocks : List Bytes} {s s' : Session} (hstage : Stage fd blocks s)
include hstage

/-- A write of the client takes more of the block on its way. -/
theorem writes_stage {n : Nat} (hstep : s.Step (.writes n) s') : Stage fd blocks s' := by
  have hstep' : s.step (.writes n) = some s' := hstep
  have hcut : ∀ (buffer left b : Bytes), buffer ++ (s.toServer ++ left) = b →
      buffer ++ ((s.toServer ++ left.take (n + 1)) ++ left.drop (n + 1)) = b := by
    intro buffer left b h
    rw [List.append_assoc, List.take_append_drop, h]
  cases hstage with
  | filling past b later buffer left hblocks hgot hblock hroom hserves hclient hpoint =>
      rcases hpoint with ⟨hleft, hpoint⟩ | ⟨hleft, hpoint⟩
      · simp only [Session.step, hpoint] at hstep'
        cases hstep'
        refine .filling past b later buffer (left.drop (n + 1)) hblocks hgot
          (hcut _ _ _ hblock) hroom hserves hclient ?_
        by_cases hall : left.length ≤ n + 1
        · exact Or.inr ⟨List.drop_eq_nil_of_le hall, if_pos hall⟩
        · exact Or.inl ⟨by simpa using hall, if_neg hall⟩
      · simp [Session.step, hpoint] at hstep'
  | echoed past b later got hblocks hgot hblock hmissing hserver hserves hpoint =>
      simp [Session.step, hpoint] at hstep'
  | stalled past b later got sent hblocks hgot hsent hblock hserver hserves hpoint =>
      simp [Session.step, hpoint] at hstep'
  | ending buffer left hgot hblock hroom hserves hclient hpoint =>
      rcases hpoint with ⟨hleft, hpoint⟩ | ⟨hleft, hpoint⟩
      · simp only [Session.step, hpoint] at hstep'
        cases hstep'
        refine .ending buffer (left.drop (n + 1)) hgot (hcut _ _ _ hblock) hroom hserves hclient ?_
        by_cases hall : left.length ≤ n + 1
        · exact Or.inr ⟨List.drop_eq_nil_of_le hall, if_pos hall⟩
        · exact Or.inl ⟨by simpa using hall, if_neg hall⟩
      · simp [Session.step, hpoint] at hstep'
  | finished hgot hpoint hgone => simp [Session.step, hpoint] at hstep'

variable (hsendable : Sendable blocks)
include hsendable

/-- A read of the client takes more of what was sent back. -/
theorem reads_stage {n : Nat} (hstep : s.Step (.reads n) s') : Stage fd blocks s' := by
  have hstep' : s.step (.reads n) = some s' := hstep
  cases hstage with
  | filling past b later buffer left hblocks hgot hblock hroom hserves hclient hpoint =>
      rcases hpoint with ⟨hleft, hpoint⟩ | ⟨hleft, hpoint⟩
      · simp [Session.step, hpoint] at hstep'
      · simp [Session.step, hpoint, hclient] at hstep'
  | echoed past b later got hblocks hgot hblock hmissing hserver hserves hpoint =>
      obtain ⟨-, chunk, hcut, hgot', -, hconn, hsentBack, hserver', hread⟩ :=
        reads_cases hpoint hstep
      have hlength := (hsendable b (by simp [hblocks])).1
      have hserves' : s'.Serves fd [] 0 := by rwa [Session.Serves, hconn, hsentBack]
      have hgot'' : s'.gotBack = past.flatten ++ (got ++ chunk) := by
        rw [hgot', hgot, List.append_assoc]
      have hblock' : got ++ chunk ++ s'.toClient = b := by rw [List.append_assoc, ← hcut, hblock]
      have hcount : got.length + chunk.length + s'.toClient.length = size := by
        rw [← hlength, ← hblock', List.length_append, List.length_append]
      rcases hread with ⟨hall, hpoint'⟩ | ⟨hpart, hpoint'⟩
      · -- the block is complete, and the next one is written
        have hempty : s'.toClient = [] := List.length_eq_zero_iff.mp (by omega)
        rw [hempty, List.append_nil] at hblock'
        have hblocks' : blocks = (past ++ [b]) ++ later := by rw [hblocks, List.append_assoc]; rfl
        refine stage_next hsendable hblocks' ?_ (hserver'.trans hserver) hempty hserves' hpoint'
        rw [hgot'', hblock', List.flatten_append, List.flatten_singleton]
      · refine .echoed past b later (got ++ chunk) hblocks hgot'' hblock' ?_
          (hserver'.trans hserver) hserves' ?_
        · exact List.ne_nil_of_length_pos (by omega)
        · rw [hpoint', List.length_append, Nat.sub_sub]
  | stalled past b later got sent hblocks hgot hsent hblock hserver hserves hpoint =>
      obtain ⟨-, chunk, hcut, hgot', -, hconn, hsentBack, hserver', hread⟩ :=
        reads_cases hpoint hstep
      have hserves' : s'.Serves fd b sent := by rwa [Session.Serves, hconn, hsentBack]
      have hblock' : got ++ chunk ++ s'.toClient = b.take sent := by
        rw [List.append_assoc, ← hcut, hblock]
      have hcount : got.length + chunk.length + s'.toClient.length ≤ sent := by
        have hle := List.length_take_le sent b
        rwa [← hblock', List.length_append, List.length_append] at hle
      -- less than the block has been sent back
      rcases hread with ⟨hall, -⟩ | ⟨hpart, hpoint'⟩
      · omega
      · refine .stalled past b later (got ++ chunk) sent hblocks ?_ hsent hblock'
          (hserver'.trans hserver) hserves' ?_
        · rw [hgot', hgot, List.append_assoc]
        · rw [hpoint', List.length_append, Nat.sub_sub]
  | ending buffer left hgot hblock hroom hserves hclient hpoint =>
      rcases hpoint with ⟨hleft, hpoint⟩ | ⟨hleft, hpoint⟩
      · simp [Session.step, hpoint] at hstep'
      · simp [Session.step, hpoint] at hstep'
  | finished hgot hpoint hgone => simp [Session.step, hpoint] at hstep'

omit hstage hsendable in
/-- What has been read of a block makes up all of it when it is as long. -/
theorem filled {buffer bytes rest left b : Bytes} (hblock : buffer ++ ((bytes ++ rest) ++ left) = b)
    (hlength : b.length = size) (hfull : (buffer ++ bytes).length = size) :
    buffer ++ bytes = b ∧ rest = [] ∧ left = [] := by
  have hsplit : (buffer ++ bytes) ++ (rest ++ left) = b := by simpa using hblock
  have hnil : rest ++ left = [] := by
    have hcount := congrArg List.length hsplit
    rw [List.length_append] at hcount
    exact List.length_eq_zero_iff.mp (by omega)
  rw [hnil, List.append_nil] at hsplit
  exact ⟨hsplit, List.append_eq_nil_iff.mp hnil⟩

theorem wakeUp_stage {events : UInt32} {errno : Errno} {sys : Outcomes}
    (hgranted : s.Granted (.wakeUp events errno sys))
    (hstep : s.Step (.wakeUp events errno sys) s') : Stage fd blocks s' := by
  obtain ⟨hpoint', hgot'⟩ := wakeUp_same hstep
  cases hstage with
  | filling past b later buffer left hblocks hgot hblock hroom hserves hclient hpoint =>
      obtain ⟨c, hconn, hserving⟩ := hserves
      obtain ⟨hlength, hordinary⟩ := hsendable b (by simp [hblocks])
      rw [← hpoint'] at hpoint
      rw [← hgot'] at hgot
      cases wakeUp_woken hconn hserving hroom hgranted hstep with
      | idle hserver hserver' hserves hclient' =>
          rw [hserver, ← hserver'] at hblock
          exact .filling past b later buffer left hblocks hgot hblock hroom hserves
            (hclient'.trans hclient) hpoint
      | stores bytes hbytes hserver hroom' hserves hclient' =>
          rw [hserver] at hblock
          exact .filling past b later (buffer ++ bytes) left hblocks hgot
            (by simpa using hblock) hroom' hserves (hclient'.trans hclient) hpoint
      | disconnects bytes hbytes hserver hfull hfinal =>
          rw [hserver] at hblock
          obtain ⟨rfl, -, -⟩ := filled hblock hlength hfull
          exact absurd hfinal hordinary
      | echoes bytes hbytes hserver hfull hfinal hserves hclient' =>
          rw [hserver] at hblock
          obtain ⟨rfl, hrest, rfl⟩ := filled hblock hlength hfull
          rw [hclient, List.nil_append] at hclient'
          refine .echoed past _ later [] hblocks (by simpa using hgot) hclient' ?_ hrest hserves ?_
          · rw [hclient']
            exact List.ne_nil_of_length_pos (by rw [hfull]; decide)
          · exact (hpoint.resolve_left fun h => h.1 rfl).2
      | fallsShort hshort bytes sent hsent hserver hfull hfinal hserves hclient' =>
          rw [hserver] at hblock
          obtain ⟨rfl, hrest, rfl⟩ := filled hblock hlength hfull
          rw [hclient, List.nil_append] at hclient'
          refine .stalled past _ later [] sent hblocks (by simpa using hgot) hsent hclient'
            hrest hserves ?_
          exact (hpoint.resolve_left fun h => h.1 rfl).2
  | echoed past b later got hblocks hgot hblock hmissing hserver hserves hpoint =>
      obtain ⟨c, hconn, hserving⟩ := hserves
      obtain ⟨hserves', hserver', hclient'⟩ := wakeUp_idle hconn hserving hgranted hserver hstep
      exact .echoed past b later got hblocks (hgot'.trans hgot) (hclient'.symm ▸ hblock)
        (hclient'.symm ▸ hmissing) (hserver'.trans hserver) hserves' (hpoint'.trans hpoint)
  | stalled past b later got sent hblocks hgot hsent hblock hserver hserves hpoint =>
      obtain ⟨c, hconn, hserving⟩ := hserves
      obtain ⟨hserves', hserver', hclient'⟩ := wakeUp_idle hconn hserving hgranted hserver hstep
      exact .stalled past b later got sent hblocks (hgot'.trans hgot) hsent (hclient'.symm ▸ hblock)
        (hserver'.trans hserver) hserves' (hpoint'.trans hpoint)
  | ending buffer left hgot hblock hroom hserves hclient hpoint =>
      obtain ⟨c, hconn, hserving⟩ := hserves
      have hfinalBlock : finalBlock.take final_msg.length = final_msg := List.take_left
      rw [← hpoint'] at hpoint
      rw [← hgot'] at hgot
      cases wakeUp_woken hconn hserving hroom hgranted hstep with
      | idle hserver hserver' hserves hclient' =>
          rw [hserver, ← hserver'] at hblock
          exact .ending buffer left hgot hblock hroom hserves (hclient'.trans hclient) hpoint
      | stores bytes hbytes hserver hroom' hserves hclient' =>
          rw [hserver] at hblock
          exact .ending (buffer ++ bytes) left hgot (by simpa using hblock) hroom' hserves
            (hclient'.trans hclient) hpoint
      | disconnects bytes hbytes hserver hfull hfinal hgone hclient' =>
          rw [hserver] at hblock
          obtain ⟨-, -, rfl⟩ := filled hblock length_finalBlock hfull
          exact .finished hgot (hpoint.resolve_left fun h => h.1 rfl).2 hgone
      | echoes bytes hbytes hserver hfull hfinal hserves hclient' =>
          rw [hserver] at hblock
          obtain ⟨hall, -, -⟩ := filled hblock length_finalBlock hfull
          exact absurd (hall ▸ hfinalBlock) hfinal
      | fallsShort hshort bytes sent hsent hserver hfull hfinal hserves hclient' =>
          rw [hserver] at hblock
          obtain ⟨hall, -, -⟩ := filled hblock length_finalBlock hfull
          exact absurd (hall ▸ hfinalBlock) hfinal
  | finished hgot hpoint hgone =>
      have hstep' : s.step (.wakeUp events errno sys) = some s' := hstep
      simp [Session.step, hgone] at hstep'

/-- Each step leads from one stage to another. -/
theorem step_stage {a : SessionAct} (hgranted : s.Granted a) (hstep : s.Step a s') :
    Stage fd blocks s' := by
  cases a with
  | writes n => exact writes_stage hstage hstep
  | reads n => exact reads_stage hstage hsendable hstep
  | wakeUp events errno sys => exact wakeUp_stage hstage hsendable hgranted hstep

end Steps

/-! ## Coming to the end -/

/-- The runs of a session in which the kernel keeps to what it grants. -/
abbrev SessionReaches : Session → Session → Prop := Support.Reaches Session.Step Session.Granted

theorem start_stage {fd : Int} {sentBack : SentBack} {blocks : List Bytes}
    (hsendable : Sendable blocks)
    (hsent : sentOf sentBack fd = 0) : Stage fd blocks (.start fd sentBack blocks) :=
  stage_next hsendable (show blocks = [] ++ blocks from rfl) rfl rfl rfl
    ⟨.ofFD fd 0, rfl, rfl, rfl, rfl, rfl, hsent⟩ rfl

theorem not_holdsBlock {fd : Int} {buffer : Bytes} {sent : Nat} {s : Session}
    (hserves : s.Serves fd buffer sent) (hroom : buffer.length < size) : ¬ s.HoldsBlock := by
  rintro ⟨c, hconn, hfull⟩
  obtain ⟨c', hconn', hserving⟩ := hserves
  rw [hconn] at hconn'
  cases hconn'
  rw [hserving.buffer] at hfull
  omega

/-- The bytes of the blocks that are to come, with the last. -/
def ahead (blocks : List Bytes) : Nat := blocks.flatten.length + size

/-- The bytes that the client has still to write. -/
def ClientPoint.unwritten : ClientPoint → Nat
  | .writing left later => left.length + ahead later
  | .reading _ later => ahead later
  | .ending left => left.length
  | .closed => 0

theorem unwritten_next (blocks : List Bytes) :
    (ClientPoint.next blocks).unwritten = ahead blocks := by
  cases blocks with
  | nil => exact length_finalBlock
  | cons b later =>
      show b.length + ahead later = ahead (b :: later)
      unfold ahead
      rw [List.flatten_cons, List.length_append, Nat.add_assoc]

/-- The bytes in the server's buffer. -/
def Session.held (s : Session) : Nat := (s.conn.map fun c => c.m_buffer.length).getD 0

/-- What is still to be done for each byte: to write it, to store it, to send
it back and to read it. -/
def Session.work (s : Session) : Nat :=
  4 * s.point.unwritten + 3 * s.toServer.length + 2 * s.held + s.toClient.length

theorem Session.Serves.held {fd : Int} {buffer : Bytes} {sent : Nat} {s : Session}
    (h : s.Serves fd buffer sent) : s.held = buffer.length := by
  obtain ⟨c, hconn, hserving⟩ := h
  rw [Session.held, hconn, ← hserving.buffer]
  rfl

/-- The session is in a stage, and the server does not hold a whole block. -/
def GoesOn (fd : Int) (blocks : List Bytes) (s : Session) : Prop :=
  Stage fd blocks s ∧ ¬ s.HoldsBlock

/-- The session is in a stage, and the server holds a whole block. -/
def Stuck (fd : Int) (blocks : List Bytes) (s : Session) : Prop := Stage fd blocks s ∧ s.HoldsBlock

section Progress

variable {fd : Int} {blocks : List Bytes} {s s' : Session}

/-- A wake-up that finds something, and sends all of a block back, leaves less to do. -/
theorem Woken.work_lt {buffer : Bytes} (h : Woken fd buffer True s s')
    (hserves : s.Serves fd buffer 0) (hpoint : s'.point = s.point) (hserver : s.toServer ≠ []) :
    s'.work < s.work ∧ ¬ s'.HoldsBlock := by
  have hheld := hserves.held
  unfold Session.work
  rw [hpoint, hheld]
  cases h with
  | idle hempty => exact absurd hempty hserver
  | stores bytes hbytes hcut hroom hserves' hclient =>
      refine ⟨?_, not_holdsBlock hserves' hroom⟩
      have hpos := List.length_pos_of_ne_nil hbytes
      rw [hserves'.held, hclient, hcut, List.length_append, List.length_append]
      omega
  | disconnects bytes hbytes hcut hfull hfinal hgone hclient =>
      have hempty : s'.held = 0 := by rw [Session.held, hgone]; rfl
      refine ⟨?_, ?_⟩
      · have hpos := List.length_pos_of_ne_nil hbytes
        rw [hempty, hclient, hcut, List.length_append]
        omega
      · rintro ⟨c, hconn, -⟩
        cases hgone.symm.trans hconn
  | echoes bytes hbytes hcut hfull hfinal hserves' hclient =>
      refine ⟨?_, not_holdsBlock hserves' (by decide)⟩
      have hpos := List.length_pos_of_ne_nil hbytes
      rw [hserves'.held, hclient, hcut, List.length_append, List.length_append, List.length_append,
        List.length_nil]
      omega
  | fallsShort hshort => exact absurd trivial hshort

/-- The server can be woken up such that it reads all there is, and sends a whole block back. -/
theorem wakes {buffer : Bytes} (hserves : s.Serves fd buffer 0)
    (hserver : s.toServer ≠ []) (hroom : buffer.length + s.toServer.length ≤ size)
    (hstage : Stage fd blocks s) (hsendable : Sendable blocks) :
    ∃ a s', s.Granted a ∧ s.Step a s' ∧ GoesOn fd blocks s' ∧ s'.work < s.work := by
  obtain ⟨c, hconn, hserving⟩ := hserves
  let sys : Outcomes := { read := .data s.toServer, write := .wrote size }
  have hgranted : s.Granted (.wakeUp (EPOLLIN ||| EPOLLOUT) 0 sys) := by
    intro c' hc'
    rw [hconn] at hc'
    cases hc'
    refine ⟨iff_of_true (by decide) hserver, by decide, fun _ _ => ⟨s.toServer, rfl, hserver,
      List.prefix_rfl, ?_⟩, Or.inr ⟨size - 1, rfl⟩⟩
    rw [hserving.buffer]
    omega
  obtain ⟨s', hstep⟩ : ∃ s', s.Step (.wakeUp (EPOLLIN ||| EPOLLOUT) 0 sys) s' := by
    simp only [Session.Step, Session.step, hconn]
    exact ⟨_, rfl⟩
  have hpos := List.length_pos_of_ne_nil hserver
  have hwoken := wakeUp_woken hconn hserving (by omega) hgranted hstep
  rw [show Whole (EPOLLIN ||| EPOLLOUT) sys ↔
    True from iff_of_true ⟨by decide, rfl⟩ trivial] at hwoken
  obtain ⟨hless, hfree⟩ := hwoken.work_lt ⟨c, hconn, hserving⟩ (wakeUp_same hstep).1 hserver
  exact ⟨_, s', hgranted, hstep, ⟨step_stage hstage hsendable hgranted hstep, hfree⟩, hless⟩

/-- Something can be done that leaves less to do, unless the client has come to its end. -/
theorem progress (hsendable : Sendable blocks) (h : GoesOn fd blocks s) :
    s.Finished ∨ ∃ a s', s.Granted a ∧ s.Step a s' ∧ GoesOn fd blocks s' ∧ s'.work < s.work := by
  obtain ⟨hstage, hfree⟩ := h
  have hwrites : ∀ (left : Bytes) (s' : Session), left ≠ [] → s.Step (.writes left.length) s' →
      s'.conn = s.conn → s'.toClient = s.toClient → s'.toServer = s.toServer ++ left →
      s.point.unwritten = left.length + s'.point.unwritten →
      ∃ a s', s.Granted a ∧ s.Step a s' ∧ GoesOn fd blocks s' ∧ s'.work < s.work := by
    intro left s' hleft hstep hconn hclient hserver hunwritten
    have hpos := List.length_pos_of_ne_nil hleft
    refine ⟨.writes left.length, s', trivial, hstep, ⟨writes_stage hstage hstep, ?_⟩, ?_⟩
    · rwa [Session.HoldsBlock, hconn]
    · rw [Session.work, Session.work, Session.held, hconn, ← Session.held, hclient,
        hserver, hunwritten, List.length_append]
      omega
  have hwhere := hstage
  cases hwhere with
  | filling past b later buffer left hblocks hgot hblock hroom hserves hclient hpoint =>
      have hlength := (hsendable b (by simp [hblocks])).1
      rcases hpoint with ⟨hleft, hpoint⟩ | ⟨rfl, hpoint⟩
      · have hall : left.length ≤ left.length + 1 := Nat.le_succ _
        refine Or.inr (hwrites left { s with
          toServer := s.toServer ++ left
          point := .reading size later } hleft ?_ rfl rfl rfl (by rw [hpoint]; rfl))
        simp only [Session.Step, Session.step, hpoint, if_pos hall, List.take_of_length_le hall]
      · rw [List.append_nil] at hblock
        have hcount := congrArg List.length hblock
        rw [List.length_append, hlength] at hcount
        refine Or.inr
          (wakes hserves (List.ne_nil_of_length_pos (by omega)) hcount.le hstage hsendable)
  | echoed past b later got hblocks hgot hblock hmissing hserver hserves hpoint =>
      obtain ⟨s', hstep⟩ : ∃ s', s.Step (.reads 0) s' := by
        simp only [Session.Step, Session.step, hpoint, if_neg hmissing]
        exact ⟨_, rfl⟩
      have hlength := (hsendable b (by simp [hblocks])).1
      have hcount := congrArg List.length hblock
      rw [List.length_append, hlength] at hcount
      have hsome := List.length_pos_of_ne_nil hmissing
      obtain ⟨-, chunk, hcut, -, hchunk, hconn, -, hserver', hread⟩ := reads_cases hpoint hstep
      have hpos := List.length_pos_of_ne_nil (hchunk (by omega))
      have hunwritten : s'.point.unwritten = s.point.unwritten := by
        rw [hpoint]
        rcases hread with ⟨-, hpoint'⟩ | ⟨-, hpoint'⟩
        · rw [hpoint', unwritten_next]
          rfl
        · rw [hpoint']
          rfl
      refine Or.inr ⟨.reads 0, s', trivial, hstep, ⟨reads_stage hstage hsendable hstep, ?_⟩, ?_⟩
      · rwa [Session.HoldsBlock, hconn]
      · rw [Session.work, Session.work, Session.held, hconn, ← Session.held, hserver',
          hunwritten, hcut, List.length_append]
        omega
  | stalled past b later got sent hblocks hgot hsent hblock hserver hserves hpoint =>
      obtain ⟨c, hconn, hserving⟩ := hserves
      refine absurd ⟨c, hconn, ?_⟩ hfree
      rw [hserving.buffer]
      exact (hsendable b (by simp [hblocks])).1
  | ending buffer left hgot hblock hroom hserves hclient hpoint =>
      rcases hpoint with ⟨hleft, hpoint⟩ | ⟨rfl, hpoint⟩
      · have hall : left.length ≤ left.length + 1 := Nat.le_succ _
        refine Or.inr (hwrites left { s with
          toServer := s.toServer ++ left
          point := .closed } hleft ?_ rfl rfl rfl (by rw [hpoint]; rfl))
        simp only [Session.Step, Session.step, hpoint, if_pos hall, List.take_of_length_le hall]
      · rw [List.append_nil] at hblock
        have hcount := congrArg List.length hblock
        rw [List.length_append, length_finalBlock] at hcount
        exact Or.inr
          (wakes hserves (List.ne_nil_of_length_pos (by omega)) hcount.le hstage hsendable)
  | finished hgot hpoint hgone => exact Or.inl ⟨hpoint, hgone⟩

/-- A filled buffer stays as it is. -/
theorem stuck_step (hsendable : Sendable blocks) (h : Stuck fd blocks s) {a : SessionAct}
    (hgranted : s.Granted a) (hstep : s.Step a s') : Stuck fd blocks s' := by
  obtain ⟨hstage, hholds⟩ := h
  refine ⟨step_stage hstage hsendable hgranted hstep, ?_⟩
  cases hstage with
  | filling past b later buffer left hblocks hgot hblock hroom hserves =>
      exact absurd hholds (not_holdsBlock hserves hroom)
  | echoed past b later got hblocks hgot hblock hmissing hserver hserves =>
      exact absurd hholds (not_holdsBlock hserves (by decide))
  | ending buffer left hgot hblock hroom hserves =>
      exact absurd hholds (not_holdsBlock hserves hroom)
  | finished hgot hpoint hgone =>
      obtain ⟨c, hconn, -⟩ := hholds
      cases hgone.symm.trans hconn
  | stalled past b later got sent hblocks hgot hsent hblock hserver hserves hpoint =>
      cases a with
      | writes n => simp [Session.Step, Session.step, hpoint] at hstep
      | reads n =>
          obtain ⟨-, -, -, -, -, hconn, -⟩ := reads_cases hpoint hstep
          rwa [Session.HoldsBlock, hconn]
      | wakeUp events errno sys =>
          obtain ⟨c, hconn, hserving⟩ := hserves
          obtain ⟨⟨c', hconn', hserving'⟩, -, -⟩ :=
            wakeUp_idle hconn hserving hgranted hserver hstep
          refine ⟨c', hconn', ?_⟩
          rw [hserving'.buffer]
          exact (hsendable b (by simp [hblocks])).1

/-- What the client has got back is where the blocks begin. -/
theorem Stage.gotBack_prefix (hstage : Stage fd blocks s) : s.gotBack <+: blocks.flatten := by
  have hcut : ∀ {past : List Bytes} {b : Bytes} {later : List Bytes} {got : Bytes},
      blocks = past ++ b :: later → got <+: b → past.flatten ++ got <+: blocks.flatten := by
    intro past b later got hblocks hgot
    rw [hblocks, List.flatten_append, List.flatten_cons]
    exact (List.prefix_append_right_inj _).mpr (hgot.trans (List.prefix_append _ _))
  cases hstage with
  | filling past b later buffer left hblocks hgot =>
      rw [hgot, ← List.append_nil past.flatten]
      exact hcut hblocks List.nil_prefix
  | echoed past b later got hblocks hgot hblock =>
      rw [hgot]
      exact hcut hblocks ⟨_, hblock⟩
  | stalled past b later got sent hblocks hgot hsent hblock =>
      rw [hgot]
      exact hcut hblocks (List.IsPrefix.trans ⟨_, hblock⟩ (List.take_prefix _ _))
  | ending buffer left hgot => rw [hgot]
  | finished hgot => rw [hgot]

theorem Stage.gotBack_finished (hstage : Stage fd blocks s) (hfinished : s.Finished) :
    s.gotBack = blocks.flatten := by
  obtain ⟨hclosed, hgone⟩ := hfinished
  cases hstage with
  | filling past b later buffer left hblocks hgot hblock hroom hserves =>
      obtain ⟨c, hconn, -⟩ := hserves
      cases hgone.symm.trans hconn
  | echoed past b later got hblocks hgot hblock hmissing hserver hserves hpoint =>
      cases hclosed.symm.trans hpoint
  | stalled past b later got sent hblocks hgot hsent hblock hserver hserves hpoint =>
      cases hclosed.symm.trans hpoint
  | ending buffer left hgot => exact hgot
  | finished hgot => exact hgot

/-- The blocks that the client sends are whole and none begins with the message that disconnects,
and nothing is noted in `sentBack` about the server's descriptor, where an earlier client could have
left something.  Then in every run, whatever is written and read at a time, the client gets back
what it has sent, and all of it when it has come to its end.  It can come to its end from every
state but those in which the server holds a whole block: that one was not sent back at once. -/
theorem session_finishes_iff {sentBack : SentBack} (hsendable : Sendable blocks)
    (hsent : sentOf sentBack fd = 0) (hrun : SessionReaches (.start fd sentBack blocks) s) :
    s.gotBack <+: blocks.flatten ∧ (s.Finished → s.gotBack = blocks.flatten) ∧
      ((∃ s', SessionReaches s s' ∧ s'.Finished) ↔ ¬ s.HoldsBlock) := by
  have hstage : Stage fd blocks s :=
    hrun.invariant (fun _ _ _ h hgranted hstep => step_stage h hsendable hgranted hstep)
      (start_stage hsendable hsent)
  refine ⟨hstage.gotBack_prefix, hstage.gotBack_finished, ?_, fun hfree => ?_⟩
  · rintro ⟨s', hrun', hfinished⟩ hholds
    have hstuck : Stuck fd blocks s' :=
      hrun'.invariant (fun _ _ _ h hgranted hstep => stuck_step hsendable h hgranted hstep)
        ⟨hstage, hholds⟩
    obtain ⟨c, hconn, -⟩ := hstuck.2
    cases hfinished.2.symm.trans hconn
  · have hgoes : GoesOn fd blocks s := ⟨hstage, hfree⟩
    obtain ⟨s', hrun', -, hfinished⟩ :=
      Support.Reaches.exists_finished (fun s h => progress hsendable h) hgoes
    exact ⟨s', hrun', hfinished⟩

end Progress

/-! ### A block that is not sent back at once -/

/-- The client has written its only block. -/
def written : Session where
  point := .reading size []
  conn := some (.ofFD 5 0)
  toServer := block

/-- The callback stores the block, and the kernel takes one byte of it. -/
def shortCall : Called :=
  callback ⟨(ConnectionAsync.ofFD 5 0).setEvent (EPOLLIN ||| EPOLLOUT), 0⟩ (fun _ => none)
    { read := .data block, write := .wrote 1 }

def heldBack : Session where
  point := .reading size []
  conn := handled shortCall.s.c
  sentBack := shortCall.sentBack
  toServer := block.drop shortCall.recieved.length
  toClient := shortCall.echoed

theorem sendable_block : Sendable [block] := by
  intro b hb
  rw [List.mem_singleton] at hb
  rw [hb]
  have hstart : block.take final_msg.length ≠ final_msg := by decide +kernel
  exact ⟨List.length_replicate, hstart⟩

theorem reaches_heldBack : SessionReaches (.start 5 (fun _ => none) [block]) heldBack := by
  have hlength : block.length = size := List.length_replicate
  have hall : block.length ≤ size - 1 + 1 := hlength.le
  have hwrites : Session.Step (.start 5 (fun _ => none) [block]) (.writes (size - 1)) written := by
    simp only [Session.Step, Session.step, Session.start, ClientPoint.next, if_pos hall,
      List.take_of_length_le hall]
    rfl
  have hwakes : written.Step
      (.wakeUp (EPOLLIN ||| EPOLLOUT) 0 { read := .data block, write := .wrote 1 }) heldBack := by
    simp only [Session.Step, Session.step, written, heldBack, shortCall, List.nil_append]
  have hgranted : written.Granted
      (.wakeUp (EPOLLIN ||| EPOLLOUT) 0 { read := .data block, write := .wrote 1 }) := by
    have hblock : block ≠ [] := List.ne_nil_of_length_pos (by rw [hlength]; decide)
    intro c hc
    cases hc
    exact ⟨iff_of_true (by decide) hblock, by decide,
      fun _ _ => ⟨block, rfl, hblock, List.prefix_rfl, hlength.le⟩, Or.inr ⟨0, rfl⟩⟩
  exact (Relation.ReflTransGen.refl.tail ⟨.writes (size - 1), trivial, hwrites⟩).tail
    ⟨_, hgranted, hwakes⟩

theorem holdsBlock_heldBack : heldBack.HoldsBlock := by
  have hheld : heldBack.conn.map (fun c => c.m_buffer.length) = some size := by decide +kernel
  exact Option.map_eq_some_iff.mp hheld

/-- The client waits for the rest of its block for ever. -/
theorem session_finishes_iff_heldBack :
    SessionReaches (.start 5 (fun _ => none) [block]) heldBack ∧
      heldBack.HoldsBlock ∧ ¬ ∃ s', SessionReaches heldBack s' ∧ s'.Finished := by
  have hsession := session_finishes_iff sendable_block (by rfl) reaches_heldBack
  exact ⟨reaches_heldBack, holdsBlock_heldBack, fun hends =>
    hsession.2.2.mp hends holdsBlock_heldBack⟩

end EchoServer
end AsyncTCP
end AdvCppHW
