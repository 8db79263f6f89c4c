import AdvCppHW.TCP.ConnectionAsync

/-!
# Connections of the asynchronous server

The class `ConnectionAsync` of `hw4`.  It has the data of the later class in
`tcp/ConnectionAsync.cpp`, and the same constructors, `close`, `clearBuffer`, `setEvent` and
`clearEvents`; `read`, `readToBuffer` and `write` differ.  A call that would block returns nothing
from `read`, and throws in `write`.

* `Call` — the calls that a callback makes on its connection; `callback` — one after the other,
  whether they return or throw.
* `callback_kept` — what no callback changes.
-/

namespace AdvCppHW
namespace AsyncTCP

open ConnectionAsync (resize store)

/-- `ConnectionAsync::read`, with the bytes the call stored at `data`. -/
def read (sys : SysRead) : Method ConnectionState (Nat × Bytes) := do
  let s ← get
  if !s.c.isOpened then
    throw (.DescriptorError "Connection is closed!")
  else
    let (recieved, bytes, errno) := sys.perform s.errno
    set { s with errno := errno }
    if recieved < 0 then
      if errno = EAGAIN then
        return (0, bytes)
      else
        throw (.IOError "Error reading from process!")
    else if recieved = 0 then
      set { s with c := { s.c with m_opened := false }, errno := errno }
      return (recieved.toNat, bytes)
    else
      return (recieved.toNat, bytes)

/-- `ConnectionAsync::readToBuffer`.  An exception of `read` leaves the buffer grown. -/
def readToBuffer (size : Nat) (sys : SysRead) : Method ConnectionState Nat := do
  let s ← get
  if !s.c.isOpened then
    throw (.DescriptorError "Connection is closed!")
  else
    let old_size := s.c.m_buffer.length
    set (resize s (old_size + size))
    let (recieved, bytes) ← read sys
    modify fun s => resize (store s old_size bytes) (old_size + recieved)
    return recieved

/-- `ConnectionAsync::write`. -/
def write (msg : Bytes) (sys : SysWrite) : Method ConnectionState Nat := do
  let s ← get
  if !s.c.isOpened then
    throw (.DescriptorError "Connection is closed!")
  else
    let (written, errno) := sys.perform s.errno msg.length
    set { s with errno := errno }
    if written < 0 then
      throw (.IOError "Error writing to process!")
    else
      return written.toNat

/-- `ConnectionAsync::isEventSet`. -/
def isEventSet (c : ConnectionAsync) (epoll_event : UInt32) : Bool := c.m_events &&& epoll_event ≠ 0

/-! ## Callbacks -/

/-- A call on a connection, with the outcome of the system call in it. -/
inductive Call where
  | read (sys : SysRead)
  | readToBuffer (size : Nat) (sys : SysRead)
  | write (msg : Bytes) (sys : SysWrite)
  | clearBuffer
  | close
deriving DecidableEq

/-- What a member leaves behind, whether it has returned or thrown. -/
def left {α : Type} : EStateM.Result Exception ConnectionState α → ConnectionState
  | .ok _ s => s
  | .error _ s => s

def Call.run (s : ConnectionState) : Call → ConnectionState
  | .read sys => left ((AsyncTCP.read sys).run s)
  | .readToBuffer size sys => left ((AsyncTCP.readToBuffer size sys).run s)
  | .write msg sys => left ((AsyncTCP.write msg sys).run s)
  | .clearBuffer => { s with c := s.c.clearBuffer }
  | .close => { s with c := s.c.close }

/-- A callback makes these calls and handles their exceptions. -/
def callback (s : ConnectionState) (calls : List Call) : ConnectionState := calls.foldl Call.run s

/-! ## What the calls leave alone -/

/-- The socket stays, unless it is closed with the connection; the events stay; a closed
connection stays closed. -/
structure Kept (c c' : ConnectionAsync) : Prop where
  socket : c'.m_socket = c.m_socket ∨ c'.m_opened = false ∧ c'.m_socket.isOpened = false
  events : c'.m_events = c.m_events
  closed : c.m_opened = false → c'.m_opened = false

theorem Kept.refl (c : ConnectionAsync) : Kept c c := ⟨Or.inl rfl, rfl, id⟩

theorem Kept.trans {c c' c'' : ConnectionAsync} (h : Kept c c') (h' : Kept c' c'') :
    Kept c c'' where
  socket := by
    rcases h'.socket with hsame' | hclosed'
    · rcases h.socket with hsame | ⟨hclosed, hsocket⟩
      · exact Or.inl (hsame'.trans hsame)
      · exact Or.inr ⟨h'.closed hclosed, by rwa [hsame']⟩
    · exact Or.inr hclosed'
  events := h'.events.trans h.events
  closed hclosed := h'.closed (h.closed hclosed)

theorem resize_kept (s : ConnectionState) (size : Nat) : Kept s.c (resize s size).c :=
  ⟨Or.inl rfl, rfl, id⟩

theorem store_kept (s : ConnectionState) (pos : Nat) (bytes : Bytes) :
    Kept s.c (store s pos bytes).c :=
  ⟨Or.inl rfl, rfl, id⟩

theorem read_kept (sys : SysRead) (s : ConnectionState) : Kept s.c (left ((read sys).run s)).c := by
  simp only [read, EStateM.run_bind, EStateM.run_get]
  split
  · exact .refl _
  · simp only [EStateM.run_bind, EStateM.run_set]
    split
    · split
      · exact .refl _
      · exact .refl _
    · split
      · exact ⟨Or.inl rfl, rfl, fun _ => rfl⟩
      · exact .refl _

theorem readToBuffer_kept (size : Nat) (sys : SysRead) (s : ConnectionState) :
    Kept s.c (left ((readToBuffer size sys).run s)).c := by
  have hgrown := resize_kept s (s.c.m_buffer.length + size)
  have hread := read_kept sys (resize s (s.c.m_buffer.length + size))
  simp only [readToBuffer, EStateM.run_bind, EStateM.run_get]
  split
  · exact .refl _
  · simp only [EStateM.run_bind, EStateM.run_set]
    cases hrun : (read sys).run (resize s (s.c.m_buffer.length + size)) with
    | ok a s' =>
        rw [hrun] at hread
        exact hgrown.trans (hread.trans ((store_kept s' _ a.2).trans (resize_kept _ _)))
    | error e s' =>
        rw [hrun] at hread
        exact hgrown.trans hread

theorem write_kept (msg : Bytes) (sys : SysWrite) (s : ConnectionState) :
    Kept s.c (left ((write msg sys).run s)).c := by
  simp only [write, EStateM.run_bind, EStateM.run_get]
  split
  · exact .refl _
  · simp only [EStateM.run_bind, EStateM.run_set]
    split
    · exact .refl _
    · exact .refl _

theorem close_kept (c : ConnectionAsync) : Kept c c.close where
  socket := c.close_socket
  events := by
    unfold ConnectionAsync.close
    split
    · rfl
    · rfl
  closed hclosed := by
    rw [ConnectionAsync.close, if_pos (by simp [ConnectionAsync.isOpened, hclosed])]
    exact hclosed

theorem Call.run_kept (s : ConnectionState) (call : Call) : Kept s.c (call.run s).c := by
  cases call with
  | read sys => exact read_kept sys s
  | readToBuffer size sys => exact readToBuffer_kept size sys s
  | write msg sys => exact write_kept msg sys s
  | clearBuffer => exact ⟨Or.inl rfl, rfl, id⟩
  | close => exact close_kept s.c

theorem callback_kept (s : ConnectionState) (calls : List Call) :
    Kept s.c (callback s calls).c := by
  induction calls generalizing s with
  | nil => exact .refl s.c
  | cons call calls ih => exact (call.run_kept s).trans (ih (call.run s))

end AsyncTCP
end AdvCppHW
