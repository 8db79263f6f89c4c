import AdvCppHW.Cpp.SystemCalls
import AdvCppHW.Support.ExactTransfer

/-!
# Child processes

The class `Process` of `Process.cpp`: the members that transfer bytes through the two pipes to the
child.  Unlike `Connection`, `read` and `write` return zero on a closed descriptor and do not look
at `errno`, and a read that meets the end of the stream leaves the descriptor open.
-/

namespace AdvCppHW

open Support ExactTransfer

/-- `Descriptor`: the number, or `-1`. -/
structure Descriptor where
  m_fd : Int := -1

def Descriptor.isOpened (d : Descriptor) : Bool := d.m_fd ≠ -1

/-- `Process`, with the writing end of the one pipe and the reading end of the other. -/
structure Process where
  m_fdIn : Descriptor
  m_fdOut : Descriptor
  writing : WriteEnd
  reading : ReadEnd

namespace Process

def isReadable (p : Process) : Bool := p.m_fdOut.isOpened

def isWritable (p : Process) : Bool := p.m_fdIn.isOpened

/-- `::read(m_fdOut.getFD(), data, len)`. -/
def sysRead (len : Nat) : EStateM Stopped Process (Int × Bytes × Errno) := fun p =>
  match p.reading.read len with
  | none => .error .waiting p
  | some (res, reading) => .ok res { p with reading := reading }

/-- `::write(m_fdIn.getFD(), data, len)`. -/
def sysWrite (data : Bytes) : EStateM Stopped Process (Int × Errno) := fun p =>
  match p.writing.write data with
  | none => .error .waiting p
  | some (res, writing) => .ok res { p with writing := writing }

/-- `Process::write`. -/
def write (data : Bytes) : EStateM Stopped Process Nat := do
  if !(← get).isWritable then
    return 0
  else
    let (written, _) ← sysWrite data
    if written < 0 then
      throw (.exception (.IOError "Error writing to process!"))
    else
      return written.toNat

/-- `Process::read`. -/
def read (len : Nat) : EStateM Stopped Process Bytes := do
  if !(← get).isReadable then
    return []
  else
    let (recieved, bytes, _) ← sysRead len
    if recieved < 0 then
      throw (.exception (.IOError "Error reading from process!"))
    else
      return bytes

/-- `Process::readExact`. -/
def readExact (len : Nat) : EStateM Stopped Process Bytes :=
  guarded isReadable (.exception (.DescriptorError "Read stream is closed!"))
    (ExactTransfer.readExact read (.exception
      (.IOError "End of file reached before reading required number of bytes!")) len)

/-- `Process::writeExact`. -/
def writeExact (data : Bytes) : EStateM Stopped Process Unit :=
  guarded isWritable (.exception (.DescriptorError "Write stream is closed!"))
    (ExactTransfer.writeExact write (fun p => p.writing.events.length) .waiting data)

/-- The bytes that have not been read, now or later. -/
def stream (p : Process) : Bytes := p.reading.stream

/-- The bytes that have been written. -/
def sent (p : Process) : Bytes := p.writing.sent

/-! ## What one call does -/

theorem sysRead_run (len : Nat) (p : Process) :
    (sysRead len).run p =
      match p.reading.read len with
      | none => .error .waiting p
      | some (res, reading) => .ok res { p with reading := reading } := rfl

theorem sysWrite_run (data : Bytes) (p : Process) :
    (sysWrite data).run p =
      match p.writing.write data with
      | none => .error .waiting p
      | some (res, writing) => .ok res { p with writing := writing } := rfl

theorem read_run_of_readable {p : Process} (h : p.isReadable = true) (len : Nat) :
    (read len).run p =
      match p.reading.read len with
      | none => .error .waiting p
      | some ((recieved, bytes, _), reading) =>
          if recieved < 0 then
            .error (.exception (.IOError "Error reading from process!"))
              { p with reading := reading }
          else
            .ok bytes { p with reading := reading } := by
  simp only [read, EStateM.run_bind, EStateM.run_get, h, Bool.not_true,
    Bool.false_eq_true, if_false, sysRead_run]
  cases p.reading.read len with
  | none => rfl
  | some res =>
      obtain ⟨⟨recieved, bytes, errno⟩, reading⟩ := res
      simp only
      split <;> rfl

theorem write_run_of_writable {p : Process} (h : p.isWritable = true) (data : Bytes) :
    (write data).run p =
      match p.writing.write data with
      | none => .error .waiting p
      | some ((written, _), writing) =>
          if written < 0 then
            .error (.exception (.IOError "Error writing to process!")) { p with writing := writing }
          else
            .ok written.toNat { p with writing := writing } := by
  simp only [write, EStateM.run_bind, EStateM.run_get, h, Bool.not_true,
    Bool.false_eq_true, if_false, sysWrite_run]
  cases p.writing.write data with
  | none => rfl
  | some res =>
      obtain ⟨⟨written, errno⟩, writing⟩ := res
      simp only
      split <;> rfl

theorem read_reads : Reads stream read := by
  intro len p
  cases hopen : p.isReadable with
  | false =>
      have hrun : (read len).run p = .ok [] p := by
        simp only [read, EStateM.run_bind, EStateM.run_get, hopen]
        rfl
      rw [hrun]
      exact ⟨rfl, Nat.zero_le len⟩
  | true =>
      rw [read_run_of_readable hopen]
      cases hread : p.reading.read len with
      | none => exact rfl
      | some res =>
          obtain ⟨⟨recieved, bytes, errno⟩, reading⟩ := res
          obtain ⟨hstream, hlen, hret⟩ := readAfter_spec hread
          by_cases hneg : recieved < 0
          · obtain ⟨-, rfl⟩ := hret.resolve_left (by omega)
            simp only [if_pos hneg]
            exact hstream
          · simp only [if_neg hneg]
            exact ⟨hstream, hlen⟩

/-- Readable, and every call returns until the end of the stream is met. -/
def Supplied (p : Process) : Prop := p.isReadable = true ∧ p.reading.Ending

theorem read_supplies : Supplies stream Supplied read := by
  rintro len p hlen ⟨hopen, hending⟩
  obtain ⟨bytes, errno, reading, hread, hend, hmore⟩ := readAfter_ending hlen hending
  have hcall : p.reading.read len = some (((bytes.length : Int), bytes, errno), reading) := hread
  refine ⟨bytes, { p with reading := reading }, ?_, hend, fun hne => ⟨hopen, hmore hne⟩⟩
  have hneg : ¬ (bytes.length : Int) < 0 := by omega
  rw [read_run_of_readable hopen, hcall]
  simp only [if_neg hneg]

theorem write_writes : Writes sent write := by
  intro data p
  cases hopen : p.isWritable with
  | false =>
      have hrun : (write data).run p = .ok 0 p := by
        simp only [write, EStateM.run_bind, EStateM.run_get, hopen]
        rfl
      rw [hrun]
      exact (List.append_nil _).symm
  | true =>
      rw [write_run_of_writable hopen]
      cases hwrite : p.writing.write data with
      | none => exact rfl
      | some res =>
          obtain ⟨⟨written, errno⟩, writing⟩ := res
          rcases WriteEnd.write_spec hwrite with ⟨n, rfl, hsent⟩ | ⟨rfl, hsent⟩
          · have hneg : ¬ (n : Int) < 0 := by omega
            simp only [if_neg hneg]
            exact hsent
          · exact hsent

/-- Writable, and the next calls take something each. -/
def Ready (k : Nat) (p : Process) : Prop := p.isWritable = true ∧ p.writing.Accepting k

theorem write_accepts : Accepts Ready (fun p => p.writing.events.length) write where
  fewer _ _ hp := ⟨hp.1, hp.2.1, Nat.le_of_succ_le hp.2.2⟩
  takes := by
    rintro data k p hdata ⟨hopen, haccepting⟩
    obtain ⟨n, errno, writing, hwrite, hpos, hleft, hmore⟩ :=
      WriteEnd.write_accepting haccepting hdata
    refine ⟨n, { p with writing := writing }, ?_, hpos, hleft, hopen, hmore⟩
    have hneg : ¬ (n : Int) < 0 := by omega
    rw [write_run_of_writable hopen, hwrite]
    simp only [if_neg hneg, Int.toNat_natCast]

/-! ## Exact transfers -/

theorem readExact_exactly : ReadsExactly stream readExact := (readExact_takes read_reads).guarded

theorem readExact_supplied : SuppliesExactly stream Supplied readExact
    (.exception (.IOError "End of file reached before reading required number of bytes!")) :=
  (ExactTransfer.readExact_supplied read_reads read_supplies).guarded fun _ hp => hp.1

theorem writeExact_exactly : WritesExactly sent writeExact :=
  (writeExact_sends write_writes).guarded

theorem writeExact_accepts : AcceptsExactly Ready writeExact :=
  (ExactTransfer.writeExact_accepts write_accepts).guarded fun _ _ hp => hp.1

end Process
end AdvCppHW
