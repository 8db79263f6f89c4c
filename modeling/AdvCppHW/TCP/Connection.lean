import AdvCppHW.Cpp.SystemCalls
import AdvCppHW.Support.ExactTransfer

/-!
# Blocking connections

The class `Connection` of `Connection.cpp`: the members that transfer bytes.  A member that fills a
buffer returns the bytes it put there; their number is what the source returns.

`read` and `write` look at `errno` although the call before may have succeeded, in which case it
holds what an earlier call left.
-/

namespace AdvCppHW
namespace TCP

open Support ExactTransfer

/-- `Connection`; `m_socket` is the connected socket, of which the two directions matter here. -/
structure Connection where
  m_opened : Bool
  reading : ReadEnd
  writing : WriteEnd

namespace Connection

/-- A member that throws on a closed connection. -/
def whenOpened {β : Type} (m : EStateM Stopped Connection β) : EStateM Stopped Connection β :=
  guarded (fun c => c.m_opened) (.exception (.DescriptorError "Connection is closed!")) m

/-- `::read(m_socket.getFD(), data, size)`. -/
def sysRead (size : Nat) : EStateM Stopped Connection (Int × Bytes × Errno) := fun c =>
  match c.reading.read size with
  | none => .error .waiting c
  | some (res, reading) => .ok res { c with reading := reading }

/-- `::write(m_socket.getFD(), data, size)`. -/
def sysWrite (data : Bytes) : EStateM Stopped Connection (Int × Errno) := fun c =>
  match c.writing.write data with
  | none => .error .waiting c
  | some (res, writing) => .ok res { c with writing := writing }

/-- The part of `read` behind the system call. -/
def received (recieved : Int) (bytes : Bytes) (errno : Errno) : EStateM Stopped Connection Bytes :=
  if errno = EAGAIN then
    return if recieved > 0 then bytes else []
  else if recieved < 0 then
    throw (.exception (.IOError "Error reading from process!"))
  else if recieved = 0 then do
    modify fun c => { c with m_opened := false }
    return bytes
  else
    return bytes

/-- `Connection::read`. -/
def read (size : Nat) : EStateM Stopped Connection Bytes :=
  whenOpened do
    let (recieved, bytes, errno) ← sysRead size
    received recieved bytes errno

/-- `Connection::readExact`. -/
def readExact (size : Nat) : EStateM Stopped Connection Bytes :=
  whenOpened (ExactTransfer.readExact read (.exception
    (.IOError "End of file reached before reading required number of bytes!")) size)

/-- `Connection::write`. -/
def write (data : Bytes) : EStateM Stopped Connection Nat :=
  whenOpened do
    let (written, errno) ← sysWrite data
    if errno = EAGAIN then
      return if written > 0 then written.toNat else 0
    else if written < 0 then
      throw (.exception (.IOError "Error writing to process!"))
    else
      return written.toNat

/-- `Connection::writeExact`. -/
def writeExact (data : Bytes) : EStateM Stopped Connection Unit :=
  whenOpened (ExactTransfer.writeExact write (fun c => c.writing.events.length) .waiting data)

/-- The bytes that have not been read, now or later. -/
def stream (c : Connection) : Bytes := c.reading.stream

/-- The bytes that have been written. -/
def sent (c : Connection) : Bytes := c.writing.sent

/-! ## What one call does -/

theorem sysRead_run (size : Nat) (c : Connection) :
    (sysRead size).run c =
      match c.reading.read size with
      | none => .error .waiting c
      | some (res, reading) => .ok res { c with reading := reading } := rfl

theorem sysWrite_run (data : Bytes) (c : Connection) :
    (sysWrite data).run c =
      match c.writing.write data with
      | none => .error .waiting c
      | some (res, writing) => .ok res { c with writing := writing } := rfl

/-- What was stored is returned, whatever `errno` is; a failed call has stored nothing. -/
theorem received_spec {recieved : Int} {bytes : Bytes}
    (hret : recieved = bytes.length ∨ recieved = -1 ∧ bytes = []) (errno : Errno) (c : Connection) :
    match (received recieved bytes errno).run c with
    | .ok chunk c' => chunk = bytes ∧ c'.reading = c.reading
    | .error _ c' => bytes = [] ∧ c'.reading = c.reading := by
  have hnone : ¬ recieved > 0 → bytes = [] := by
    intro h
    rcases hret with rfl | ⟨-, hnil⟩
    · exact List.length_eq_zero_iff.mp (by omega)
    · exact hnil
  unfold received
  by_cases herrno : errno = EAGAIN
  · by_cases hpos : recieved > 0
    · rw [if_pos herrno, if_pos hpos]
      exact ⟨rfl, rfl⟩
    · rw [if_pos herrno, if_neg hpos]
      exact ⟨(hnone hpos).symm, rfl⟩
  · by_cases hneg : recieved < 0
    · rw [if_neg herrno, if_pos hneg]
      exact ⟨hnone (by omega), rfl⟩
    · by_cases hzero : recieved = 0
      · rw [if_neg herrno, if_neg hneg, if_pos hzero]
        exact ⟨rfl, rfl⟩
      · rw [if_neg herrno, if_neg hneg, if_neg hzero]
        exact ⟨rfl, rfl⟩

theorem received_length (bytes : Bytes) (errno : Errno) (c : Connection) :
    ∃ c', (received bytes.length bytes errno).run c = .ok bytes c' ∧ c'.reading = c.reading ∧
      (bytes ≠ [] → c'.m_opened = c.m_opened) := by
  unfold received
  cases bytes with
  | nil =>
      -- the end of the stream, at which a stale `errno` keeps the connection open
      by_cases herrno : errno = EAGAIN
      · exact ⟨c, by rw [if_pos herrno]; rfl, rfl, fun _ => rfl⟩
      · exact ⟨{ c with m_opened := false }, by rw [if_neg herrno]; rfl, rfl, fun h => absurd rfl h⟩
  | cons b bytes =>
      refine ⟨c, ?_, rfl, fun _ => rfl⟩
      have hpos : (0 : Int) < ((b :: bytes).length : Int) := by simp
      by_cases herrno : errno = EAGAIN
      · rw [if_pos herrno, if_pos hpos]
        rfl
      · rw [if_neg herrno, if_neg (by omega), if_neg (by omega)]
        rfl

theorem read_reads : Reads stream read := by
  intro size c
  cases hopen : c.m_opened with
  | false => rw [read, whenOpened, guarded_of_false hopen]
  | true =>
      rw [read, whenOpened, guarded_of_true hopen, EStateM.run_bind, sysRead_run]
      cases hread : c.reading.read size with
      | none => exact rfl
      | some res =>
          obtain ⟨⟨recieved, bytes, errno⟩, reading⟩ := res
          obtain ⟨hstream, hlen, hret⟩ := readAfter_spec hread
          have hspec := received_spec hret errno { c with reading := reading }
          simp only
          cases hrun : (received recieved bytes errno).run { c with reading := reading } with
          | ok chunk c' =>
              rw [hrun] at hspec
              obtain ⟨rfl, hreading⟩ := hspec
              exact ⟨by rw [stream, stream, hreading]; exact hstream, hlen⟩
          | error e c' =>
              rw [hrun] at hspec
              obtain ⟨rfl, hreading⟩ := hspec
              show c.stream = c'.stream
              rw [stream, stream, hreading]
              exact hstream

/-- Open, and every call returns until the end of the stream is met. -/
def Supplied (c : Connection) : Prop := c.m_opened = true ∧ c.reading.Ending

theorem read_supplies : Supplies stream Supplied read := by
  rintro size c hsize ⟨hopen, hending⟩
  obtain ⟨bytes, errno, reading, hread, hend, hmore⟩ := readAfter_ending hsize hending
  have hcall : c.reading.read size = some (((bytes.length : Int), bytes, errno), reading) := hread
  obtain ⟨c', hrun, hreading, hopened⟩ := received_length bytes errno { c with reading := reading }
  rw [read, whenOpened, guarded_of_true hopen, EStateM.run_bind, sysRead_run, hcall]
  refine ⟨bytes, c', hrun, hend, fun hne => ⟨(hopened hne).trans hopen, ?_⟩⟩
  rw [hreading]
  exact hmore hne

theorem write_writes : Writes sent write := by
  intro data c
  cases hopen : c.m_opened with
  | false => rw [write, whenOpened, guarded_of_false hopen]
  | true =>
      rw [write, whenOpened, guarded_of_true hopen, EStateM.run_bind, sysWrite_run]
      cases hwrite : c.writing.write data with
      | none => exact rfl
      | some res =>
          obtain ⟨⟨written, errno⟩, writing⟩ := res
          have hret := WriteEnd.write_spec hwrite
          simp only
          rcases hret with ⟨n, rfl, hsent⟩ | ⟨rfl, hsent⟩
          · by_cases herrno : errno = EAGAIN
            · by_cases hpos : (n : Int) > 0
              · simp only [if_pos herrno, if_pos hpos]
                exact hsent
              · obtain rfl : n = 0 := by omega
                simp only [if_pos herrno]
                exact hsent
            · have hneg : ¬ (n : Int) < 0 := by omega
              simp only [if_neg herrno, if_neg hneg]
              exact hsent
          · by_cases herrno : errno = EAGAIN
            · simp only [if_pos herrno]
              show writing.sent = c.sent ++ []
              rw [hsent, List.append_nil]
              rfl
            · simp only [if_neg herrno]
              exact hsent

/-- Open, and the next calls take something each. -/
def Ready (k : Nat) (c : Connection) : Prop := c.m_opened = true ∧ c.writing.Accepting k

theorem write_accepts : Accepts Ready (fun c => c.writing.events.length) write where
  fewer _ _ hc := ⟨hc.1, hc.2.1, Nat.le_of_succ_le hc.2.2⟩
  takes := by
    rintro data k c hdata ⟨hopen, haccepting⟩
    obtain ⟨n, errno, writing, hwrite, hpos, hleft, hmore⟩ :=
      WriteEnd.write_accepting haccepting hdata
    refine ⟨n, { c with writing := writing }, ?_, hpos, hleft, hopen, hmore⟩
    rw [write, whenOpened, guarded_of_true hopen, EStateM.run_bind, sysWrite_run, hwrite]
    have hpos' : (n : Int) > 0 := by omega
    simp only [if_pos hpos', if_neg (not_lt_of_gt hpos')]
    by_cases herrno : errno = EAGAIN
    · rw [if_pos herrno]
      rfl
    · rw [if_neg herrno]
      rfl

/-! ## Exact transfers -/

theorem readExact_exactly : ReadsExactly stream readExact := (readExact_takes read_reads).guarded

theorem readExact_supplied : SuppliesExactly stream Supplied readExact
    (.exception (.IOError "End of file reached before reading required number of bytes!")) :=
  (ExactTransfer.readExact_supplied read_reads read_supplies).guarded fun _ hc => hc.1

theorem writeExact_exactly : WritesExactly sent writeExact :=
  (writeExact_sends write_writes).guarded

theorem writeExact_accepts : AcceptsExactly Ready writeExact :=
  (ExactTransfer.writeExact_accepts write_accepts).guarded fun _ _ hc => hc.1

end Connection
end TCP
end AdvCppHW
