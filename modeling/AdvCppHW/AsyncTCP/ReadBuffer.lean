import AdvCppHW.AsyncTCP.Connection

/-!
# The read buffer

`readToBuffer` enlarges the buffer for the system call and cuts it back
behind it, unless `read` throws.

* `Received` — a connection together with the bytes it has received since its buffer was cleared;
  `Holds` — the buffer is these bytes.
* `holdsReceived_iff` — the sequences of calls behind each of which it is.
-/

namespace AdvCppHW
namespace AsyncTCP

open ConnectionAsync (resize store not_closed resize_grow resize_store)

/-- The calls that change the buffer. -/
inductive BufferCall where
  | readToBuffer (size : Nat) (sys : SysRead)
  | clearBuffer
deriving DecidableEq

def BufferCall.call : BufferCall → Call
  | readToBuffer size sys => .readToBuffer size sys
  | clearBuffer => .clearBuffer

/-- The bytes that a system call has stored. -/
def bytesOf : SysRead → Bytes
  | .data bytes => bytes
  | .wouldBlock | .eof | .failed _ => []

/-- A connection, and the bytes it has received since its buffer was cleared. -/
structure Received where
  state : ConnectionState
  bytes : Bytes

namespace Received

/-- A call, whether it returns or throws.  The system call is made on an open connection only. -/
def after (r : Received) (call : BufferCall) : Received where
  state := call.call.run r.state
  bytes :=
    match call with
    | .readToBuffer _ sys => if r.state.c.m_opened then r.bytes ++ bytesOf sys else r.bytes
    | .clearBuffer => []

/-- The buffer is what was received. -/
def Holds (r : Received) : Prop := r.state.c.m_buffer = r.bytes

/-- So it is before each of these calls and behind the last one. -/
def HoldsThroughout (r : Received) : List BufferCall → Prop
  | [] => r.Holds
  | call :: calls => r.Holds ∧ (r.after call).HoldsThroughout calls

end Received

/-- A system call that returns zero: at the end of the stream, or when it was asked for nothing. -/
def returnsZero : SysRead → Bool
  | .eof | .data [] => true
  | _ => false

/-- A system call that fails, and not because it would block. -/
def Fails (sys : SysRead) : Prop := ∃ e, sys = .failed e ∧ e ≠ EAGAIN

/-- While the connection is open no system call that asks for a byte fails. -/
def NoneFails : Bool → List BufferCall → Prop
  | _, [] => True
  | opened, .readToBuffer size sys :: calls =>
      (opened = true → size ≠ 0 → ¬ Fails sys) ∧ NoneFails (opened && !returnsZero sys) calls
  | opened, .clearBuffer :: calls => NoneFails opened calls

/-! ## What one call does -/

section Open

variable {s : ConnectionState} (hopen : s.c.m_opened = true)
include hopen

/-- What the system call has stored is returned, together with its length. -/
theorem read_of_not_fails {sys : SysRead} (hsys : ¬ Fails sys) :
    ∃ s', (read sys).run s = .ok ((bytesOf sys).length, bytesOf sys) s' ∧
      s'.c = { s.c with m_opened := !returnsZero sys } := by
  obtain ⟨⟨socket, buffer, events, opened⟩, errno⟩ := s
  obtain rfl : opened = true := hopen
  have hopen : (ConnectionAsync.mk socket buffer events true).m_opened = true := rfl
  cases sys with
  | data bytes =>
      cases bytes with
      | nil => exact ⟨_, rfl, rfl⟩
      | cons b bytes =>
          refine ⟨⟨⟨socket, buffer, events, true⟩, errno⟩, ?_, rfl⟩
          have hneg : ¬ ((b :: bytes).length : Int) < 0 := by omega
          have hzero : ¬ ((b :: bytes).length : Int) = 0 := by
            rw [List.length_cons]
            omega
          simp only [read, SysRead.perform, EStateM.run_bind, EStateM.run_get, not_closed hopen,
            Bool.false_eq_true, if_false, EStateM.run_set, hneg, hzero]
          rfl
  | wouldBlock => exact ⟨_, rfl, rfl⟩
  | eof => exact ⟨_, rfl, rfl⟩
  | failed e =>
      obtain rfl : e = EAGAIN := by
        by_contra he
        exact hsys ⟨e, rfl, he⟩
      exact ⟨_, rfl, rfl⟩

theorem read_of_fails {sys : SysRead} (hsys : Fails sys) :
    ∃ errno, (read sys).run s =
      .error (.IOError "Error reading from process!") { s with errno := errno } := by
  obtain ⟨e, rfl, he⟩ := hsys
  refine ⟨e, ?_⟩
  simp only [read, SysRead.perform, EStateM.run_bind, EStateM.run_get, not_closed hopen,
    Bool.false_eq_true, if_false, EStateM.run_set, he]
  rfl

/-- A call that returns adds what was received. -/
theorem readToBuffer_of_not_fails (size : Nat) {sys : SysRead} (hsys : ¬ Fails sys) :
    (left ((readToBuffer size sys).run s)).c =
      { s.c with m_buffer := s.c.m_buffer ++ bytesOf sys, m_opened := !returnsZero sys } := by
  have hgrown := resize_grow s.c s.errno size
  obtain ⟨s', hrun, hc⟩ := read_of_not_fails (s := resize s (s.c.m_buffer.length + size)) hopen hsys
  have hbuffer : s'.c.m_buffer = s.c.m_buffer ++ List.replicate size 0 := by
    rw [hc]
    exact congrArg (fun s => s.c.m_buffer) hgrown
  simp only [readToBuffer, EStateM.run_bind, EStateM.run_get, not_closed hopen,
    Bool.false_eq_true, if_false, EStateM.run_set, hrun]
  show (resize (store s' s.c.m_buffer.length (bytesOf sys))
    (s.c.m_buffer.length + (bytesOf sys).length)).c = _
  rw [resize_store (bytesOf sys) hbuffer, hc]
  rfl

/-- A call that throws leaves the zeros it has made room with. -/
theorem readToBuffer_of_fails (size : Nat) {sys : SysRead} (hsys : Fails sys) :
    (left ((readToBuffer size sys).run s)).c =
      { s.c with m_buffer := s.c.m_buffer ++ List.replicate size 0 } := by
  have hgrown := resize_grow s.c s.errno size
  obtain ⟨errno, hrun⟩ := read_of_fails (s := resize s (s.c.m_buffer.length + size)) hopen hsys
  simp only [readToBuffer, EStateM.run_bind, EStateM.run_get, not_closed hopen,
    Bool.false_eq_true, if_false, EStateM.run_set, hrun]
  exact congrArg ConnectionState.c hgrown

end Open

theorem readToBuffer_of_closed {s : ConnectionState} (hclosed : s.c.m_opened = false) (size : Nat)
    (sys : SysRead) : left ((readToBuffer size sys).run s) = s := by
  simp only [readToBuffer, EStateM.run_bind, EStateM.run_get, ConnectionAsync.isOpened, hclosed]
  rfl

namespace Received

variable {r : Received}

theorem opened_after_readToBuffer (r : Received) (size : Nat) (sys : SysRead) :
    (r.after (.readToBuffer size sys)).state.c.m_opened =
    (r.state.c.m_opened && !returnsZero sys) := by
  show (left ((readToBuffer size sys).run r.state)).c.m_opened = _
  cases hopen : r.state.c.m_opened with
  | false => rw [readToBuffer_of_closed hopen, hopen, Bool.false_and]
  | true =>
      by_cases hsys : Fails sys
      · rw [readToBuffer_of_fails hopen size hsys]
        obtain ⟨e, rfl, -⟩ := hsys
        exact hopen
      · rw [readToBuffer_of_not_fails hopen size hsys, Bool.true_and]

/-- Behind one call the buffer is what was received exactly if no system
call for a byte has failed. -/
theorem holds_after_readToBuffer (h : r.Holds) (size : Nat) (sys : SysRead) :
    (r.after (.readToBuffer size sys)).Holds ↔
    (r.state.c.m_opened = true → size ≠ 0 → ¬ Fails sys) := by
  have hheld : r.state.c.m_buffer = r.bytes := h
  show (left ((readToBuffer size sys).run r.state)).c.m_buffer =
    (if r.state.c.m_opened then r.bytes ++ bytesOf sys else r.bytes) ↔ _
  cases hopen : r.state.c.m_opened with
  | false =>
      rw [readToBuffer_of_closed hopen]
      simpa using hheld
  | true =>
      by_cases hsys : Fails sys
      · rw [readToBuffer_of_fails hopen size hsys]
        obtain ⟨e, rfl, he⟩ := hsys
        simp [hheld, bytesOf, Fails, he]
      · rw [readToBuffer_of_not_fails hopen size hsys]
        simp [hheld, hsys]

theorem holdsThroughout_iff (h : r.Holds) (calls : List BufferCall) :
    r.HoldsThroughout calls ↔ NoneFails r.state.c.m_opened calls := by
  induction calls generalizing r with
  | nil => exact iff_true_intro h
  | cons call calls ih =>
      cases call with
      | readToBuffer size sys =>
          rw [HoldsThroughout, NoneFails, and_iff_right h, ← opened_after_readToBuffer]
          constructor
          · intro hthroughout
            have hnext : (r.after (.readToBuffer size sys)).Holds := by
              cases calls with
              | nil => exact hthroughout
              | cons call calls => exact hthroughout.1
            exact ⟨(holds_after_readToBuffer h size sys).mp hnext, (ih hnext).mp hthroughout⟩
          · rintro ⟨hcall, hrest⟩
            exact (ih ((holds_after_readToBuffer h size sys).mpr hcall)).mpr hrest
      | clearBuffer =>
          rw [HoldsThroughout, NoneFails, and_iff_right h]
          exact ih (r := r.after .clearBuffer) rfl

/-- A connection that was just made from a descriptor. -/
def new (fd : Int) (garbage : UInt32) (errno : Errno) : Received :=
  ⟨⟨ConnectionAsync.ofFD fd garbage, errno⟩, []⟩

/-- **The read buffer holds what was received, unless a read fails.**  Behind each call of a
sequence, whether it has returned or thrown, the buffer is the bytes received since it was
cleared, exactly when no system call for at least one byte has failed on the open connection
otherwise than by blocking. -/
theorem holdsReceived_iff (fd : Int) (garbage : UInt32) (errno : Errno) (calls : List BufferCall) :
    (new fd garbage errno).HoldsThroughout calls ↔ NoneFails true calls := by
  have hnew : (new fd garbage errno).Holds := rfl
  exact holdsThroughout_iff hnew calls

/-- A read of four bytes is interrupted by a signal, with `EINTR`. -/
theorem interrupted_read :
    ¬ (new 5 0 0).HoldsThroughout [.readToBuffer 4 (.failed 4)] := by
  rintro ⟨-, hheld⟩
  have hzeros : ([0, 0, 0, 0] : Bytes) = [] := hheld
  cases hzeros

end Received
end AsyncTCP
end AdvCppHW
