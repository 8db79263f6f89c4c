import AdvCppHW.Cpp.SystemCalls

/-!
# Non-blocking connections

The class `ConnectionAsync` of `tcp/ConnectionAsync.cpp`, without the members that set
timeouts, connect or ask for addresses.  A system call is a parameter: `SysRead` and
`SysWrite` list its outcomes, and `errno` is part of the state because the members decide by
it whether a call would have blocked.

The spec lemmas at the end say what `readToBuffer` and `write` do with each outcome when `errno` was
cleared before the call, as all callers do.
-/

namespace AdvCppHW

/-- `SocketAsync`: the descriptor, or `-1`. -/
structure SocketAsync where
  m_fd : Int := -1
deriving DecidableEq, Repr

structure ConnectionAsync where
  m_socket : SocketAsync
  m_buffer : Bytes := []
  /-- Not set by the constructors. -/
  m_events : UInt32
  m_opened : Bool
deriving DecidableEq

/-- A connection together with the thread's `errno`. -/
structure ConnectionState where
  c : ConnectionAsync
  errno : Errno

namespace SocketAsync

def isOpened (s : SocketAsync) : Bool := s.m_fd ≠ -1

/-- `SocketAsync::close`; the system call is taken to succeed. -/
def close (s : SocketAsync) : SocketAsync := if s.isOpened then { s with m_fd := -1 } else s

theorem isOpened_close (s : SocketAsync) : s.close.isOpened = false := by
  unfold close
  split
  · rfl
  · next h => simpa using h

end SocketAsync

namespace ConnectionAsync

/-- `ConnectionAsync::ConnectionAsync(fd)`; `garbage` is what the memory of `m_events` held. -/
def ofFD (fd : Int) (garbage : UInt32) : ConnectionAsync :=
  { m_socket := ⟨fd⟩, m_events := garbage, m_opened := true }

/-- The default constructor; its socket is a new one with descriptor `fd`. -/
def ofDefault (fd : Int) (garbage : UInt32) : ConnectionAsync :=
  { m_socket := ⟨fd⟩, m_events := garbage, m_opened := false }

def isOpened (c : ConnectionAsync) : Bool := c.m_opened

def close (c : ConnectionAsync) : ConnectionAsync :=
  if !c.isOpened then c else { c with m_socket := c.m_socket.close, m_opened := false }

def clearBuffer (c : ConnectionAsync) : ConnectionAsync := { c with m_buffer := [] }

def setEvent (c : ConnectionAsync) (epoll_event : UInt32) : ConnectionAsync :=
  { c with m_events := c.m_events ||| epoll_event }

def clearEvents (c : ConnectionAsync) : ConnectionAsync := { c with m_events := 0 }

/-- `ConnectionAsync::read`, with the bytes the call stored at `data`. -/
def read (sys : SysRead) : Method ConnectionState (Nat × Bytes) := do
  let s ← get
  if !s.c.isOpened then
    throw (.DescriptorError "Connection is closed!")
  else
    let (recieved, bytes, errno) := sys.perform s.errno
    set { s with errno := errno }
    -- in front of the test for a failure: a call that would block returns -1, too
    if errno = EAGAIN then
      return (if recieved > 0 then recieved.toNat else 0, bytes)
    else if recieved < 0 then
      throw (.IOError "Error reading from process!")
    else if recieved = 0 then
      set { s with c := { s.c with m_opened := false }, errno := errno }
      return (recieved.toNat, bytes)
    else
      return (recieved.toNat, bytes)

/-- `m_buffer.resize(size)`. -/
def resize (s : ConnectionState) (size : Nat) : ConnectionState :=
  { s with c := { s.c with
    m_buffer := s.c.m_buffer.take size ++ List.replicate (size - s.c.m_buffer.length) 0 } }

/-- What `::read` stores from offset `pos` of the buffer on. -/
def store (s : ConnectionState) (pos : Nat) (bytes : Bytes) : ConnectionState :=
  { s with c := { s.c with
    m_buffer := s.c.m_buffer.take pos ++ (bytes ++ s.c.m_buffer.drop (pos + bytes.length)) } }

/-- `ConnectionAsync::readToBuffer`: the buffer grows by `size` bytes for the call and is cut
back to what was received. -/
def readToBuffer (size : Nat) (sys : SysRead) : Method ConnectionState Nat := fun s =>
  if !s.c.isOpened then
    .error (.DescriptorError "Connection is closed!") s
  else
    let old_size := s.c.m_buffer.length
    match (read sys).run (resize s (old_size + size)) with
    | .ok (recieved, bytes) s' =>
        .ok recieved (resize (store s' old_size bytes) (old_size + recieved))
    | .error e s' => .error e (if e.isBaseException then resize s' old_size else s')

/-- `ConnectionAsync::write`. -/
def write (msg : Bytes) (sys : SysWrite) : Method ConnectionState Nat := do
  let s ← get
  if !s.c.isOpened then
    throw (.DescriptorError "Connection is closed!")
  else
    let (written, errno) := sys.perform s.errno msg.length
    set { s with errno := errno }
    if errno = EAGAIN then
      return if written > 0 then written.toNat else 0
    else if written < 0 then
      throw (.IOError "Error writing to process!")
    else
      return written.toNat

/-! ## What each outcome does -/

theorem not_closed {c : ConnectionAsync} (h : c.m_opened = true) : (!c.isOpened) = false := by
  simp [isOpened, h]

theorem readToBuffer_closed (size : Nat) (sys : SysRead) {s : ConnectionState}
    (h : s.c.m_opened = false) :
    (readToBuffer size sys).run s = .error (.DescriptorError "Connection is closed!") s := by
  simp [EStateM.run, readToBuffer, isOpened, h]

section Read

variable {s : ConnectionState} (hopen : s.c.m_opened = true)
include hopen

theorem read_data {bytes : Bytes} (hne : bytes ≠ []) (herrno : s.errno ≠ EAGAIN) :
    (read (.data bytes)).run s = .ok (bytes.length, bytes) s := by
  have hpos : ¬ (bytes.length : Int) < 0 := by omega
  have hnil : ¬ (bytes.length : Int) = 0 := by simpa using hne
  simp only [read, SysRead.perform, EStateM.run_bind, EStateM.run_get, not_closed hopen,
    Bool.false_eq_true, if_false, EStateM.run_set, herrno, hpos, hnil]
  rfl

theorem read_wouldBlock : (read .wouldBlock).run s = .ok (0, []) { s with errno := EAGAIN } := by
  simp only [read, SysRead.perform, EStateM.run_bind, EStateM.run_get, not_closed hopen,
    Bool.false_eq_true, if_false, EStateM.run_set, if_true]
  rfl

theorem read_eof (herrno : s.errno ≠ EAGAIN) :
    (read .eof).run s = .ok (0, []) { s with c := { s.c with m_opened := false } } := by
  simp only [read, SysRead.perform, EStateM.run_bind, EStateM.run_get, not_closed hopen,
    Bool.false_eq_true, if_false, EStateM.run_set, herrno, Int.lt_irrefl, if_true]
  rfl

theorem read_failed {e : Errno} (he : e ≠ EAGAIN) :
    (read (.failed e)).run s =
      .error (.IOError "Error reading from process!") { s with errno := e } := by
  simp only [read, SysRead.perform, EStateM.run_bind, EStateM.run_get, not_closed hopen,
    Bool.false_eq_true, if_false, EStateM.run_set, he]
  rfl

end Read

theorem resize_grow (c : ConnectionAsync) (errno : Errno) (n : Nat) :
    resize ⟨c, errno⟩ (c.m_buffer.length + n) =
      ⟨{ c with m_buffer := c.m_buffer ++ List.replicate n 0 }, errno⟩ := by
  simp [resize, List.take_of_length_le]

theorem resize_append {s : ConnectionState} {a b : Bytes} (h : s.c.m_buffer = a ++ b) :
    resize s a.length = { s with c := { s.c with m_buffer := a } } := by
  simp [resize, h]

theorem resize_store {s : ConnectionState} {a rest : Bytes} (bytes : Bytes)
    (h : s.c.m_buffer = a ++ rest) :
    resize (store s a.length bytes) (a.length + bytes.length) =
      { s with c := { s.c with m_buffer := a ++ bytes } } := by
  have hstored : (store s a.length bytes).c.m_buffer =
      (a ++ bytes) ++ s.c.m_buffer.drop (a.length + bytes.length) := by
    simp [store, h]
  rw [← List.length_append, resize_append hstored]
  rfl

theorem readToBuffer_open {size : Nat} (sys : SysRead) {c : ConnectionAsync}
    (hopen : c.m_opened = true) :
    (readToBuffer size sys).run ⟨c, 0⟩ =
      match (read sys).run
        ⟨{ c with m_buffer := c.m_buffer ++ List.replicate size 0 }, 0⟩ with
      | .ok (recieved, bytes) s' =>
          .ok recieved (resize (store s' c.m_buffer.length bytes) (c.m_buffer.length + recieved))
      | .error e s' =>
          .error e (if e.isBaseException then resize s' c.m_buffer.length else s') := by
  rw [← resize_grow]
  simp only [EStateM.run, readToBuffer, not_closed hopen, Bool.false_eq_true, if_false]

theorem readToBuffer_data {size : Nat} {bytes : Bytes} {c : ConnectionAsync}
    (hopen : c.m_opened = true) (hne : bytes ≠ []) :
    (readToBuffer size (.data bytes)).run ⟨c, 0⟩ =
      .ok bytes.length ⟨{ c with m_buffer := c.m_buffer ++ bytes }, 0⟩ := by
  rw [readToBuffer_open _ hopen, read_data hopen hne (Nat.zero_ne_add_one 10)]
  exact congrArg _ (resize_store _ rfl)

theorem readToBuffer_wouldBlock {size : Nat} {c : ConnectionAsync} (hopen : c.m_opened = true) :
    (readToBuffer size .wouldBlock).run ⟨c, 0⟩ = .ok 0 ⟨c, EAGAIN⟩ := by
  rw [readToBuffer_open _ hopen, read_wouldBlock hopen]
  refine congrArg _ ((resize_store [] rfl).trans ?_)
  simp

theorem readToBuffer_eof {size : Nat} {c : ConnectionAsync} (hopen : c.m_opened = true) :
    (readToBuffer size .eof).run ⟨c, 0⟩ = .ok 0 ⟨{ c with m_opened := false }, 0⟩ := by
  rw [readToBuffer_open _ hopen, read_eof hopen (Nat.zero_ne_add_one 10)]
  refine congrArg _ ((resize_store [] rfl).trans ?_)
  simp

theorem readToBuffer_failed {size : Nat} {c : ConnectionAsync} {e : Errno}
    (hopen : c.m_opened = true) (he : e ≠ EAGAIN) :
    (readToBuffer size (.failed e)).run ⟨c, 0⟩ =
      .error (.IOError "Error reading from process!") ⟨c, e⟩ := by
  rw [readToBuffer_open _ hopen, read_failed hopen he]
  exact congrArg _ (resize_append rfl)

section Write

variable {s : ConnectionState} (hopen : s.c.m_opened = true)
include hopen

theorem write_wrote {msg : Bytes} {count : Nat} (herrno : s.errno ≠ EAGAIN) :
    (write msg (.wrote count)).run s = .ok (min count msg.length) s := by
  have hpos : ¬ ((min count msg.length : Nat) : Int) < 0 := by omega
  simp only [write, SysWrite.perform, EStateM.run_bind, EStateM.run_get, not_closed hopen,
    Bool.false_eq_true, if_false, EStateM.run_set, herrno, hpos]
  rfl

theorem write_wouldBlock {msg : Bytes} :
    (write msg .wouldBlock).run s = .ok 0 { s with errno := EAGAIN } := by
  simp only [write, SysWrite.perform, EStateM.run_bind, EStateM.run_get, not_closed hopen,
    Bool.false_eq_true, if_false, EStateM.run_set, if_true]
  rfl

theorem write_failed {msg : Bytes} {e : Errno} (he : e ≠ EAGAIN) :
    (write msg (.failed e)).run s =
      .error (.IOError "Error writing to process!") { s with errno := e } := by
  simp only [write, SysWrite.perform, EStateM.run_bind, EStateM.run_get, not_closed hopen,
    Bool.false_eq_true, if_false, EStateM.run_set, he]
  rfl

end Write

/-! ## What the calls leave alone -/

/-- The object after a call, however it ended. -/
def after {α : Type} : EStateM.Result Exception ConnectionState α → ConnectionAsync
  | .ok _ s => s.c
  | .error _ s => s.c

theorem read_socket (sys : SysRead) (s : ConnectionState) :
    (after ((read sys).run s)).m_socket = s.c.m_socket := by
  simp only [read, EStateM.run_bind, EStateM.run_get]
  split
  · rfl
  · simp only [EStateM.run_bind, EStateM.run_set]
    split
    · rfl
    · split
      · rfl
      · split
        · rfl
        · rfl

theorem readToBuffer_socket (size : Nat) (sys : SysRead) (s : ConnectionState) :
    (after ((readToBuffer size sys).run s)).m_socket = s.c.m_socket := by
  have h := read_socket sys (resize s (s.c.m_buffer.length + size))
  simp only [EStateM.run, readToBuffer] at h ⊢
  split
  · rfl
  · cases hread : read sys (resize s (s.c.m_buffer.length + size)) with
    | ok a s' =>
      rw [hread] at h
      exact h
    | error e s' =>
      rw [hread] at h
      simp only
      split
      · exact h
      · exact h

theorem write_same (msg : Bytes) (sys : SysWrite) (s : ConnectionState) :
    after ((write msg sys).run s) = s.c := by
  simp only [write, EStateM.run_bind, EStateM.run_get]
  split
  · rfl
  · simp only [EStateM.run_bind, EStateM.run_set]
    split
    · rfl
    · split
      · rfl
      · rfl

theorem close_socket (c : ConnectionAsync) :
    c.close.m_socket = c.m_socket ∨ c.close.m_opened = false ∧
      c.close.m_socket.isOpened = false := by
  unfold close
  split
  · exact Or.inl rfl
  · exact Or.inr ⟨rfl, c.m_socket.isOpened_close⟩

end ConnectionAsync
end AdvCppHW
