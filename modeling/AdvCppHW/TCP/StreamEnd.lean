import AdvCppHW.TCP.Connection

/-!
# The end of a stream behind a receive timeout

`Connection::read` looks at `errno` before it looks at what `::read` has returned.  Here
`errno` is a part of the state that a successful call leaves alone, and the outcomes of the
system calls are given in advance.

* `TimedConnection` — a connection, with the reads that are going to happen
  and those that have happened.
* `Follows` — the invariant: which of them have closed it.
* `closedAtEnd_iff` — when the end of the stream closes the connection, whatever calls are made.
-/

namespace AdvCppHW
namespace TCP

open Support ExactTransfer

/-- How a `::read` for at least one byte ends. -/
inductive ReadOutcome where
  /-- These bytes are there; the call takes as many as it was asked for. -/
  | data (first : UInt8) (more : Bytes)
  /-- The receive timeout has passed. -/
  | timeout
  | eof
  | failed (errno : Errno)
deriving DecidableEq

def ReadOutcome.sysRead (size : Nat) : ReadOutcome → SysRead
  | data first more => .data ((first :: more).take size)
  | timeout => .wouldBlock
  | eof => .eof
  | failed errno => .failed errno

/-- A `::read`, and the `errno` of another call that may have failed before it. -/
structure UpcomingRead where
  elsewhere : Option Errno := none
  outcome : ReadOutcome
deriving DecidableEq

/-- `errno` behind the call. -/
def UpcomingRead.errnoAfter (errno : Errno) (r : UpcomingRead) : Errno :=
  match r.outcome with
  | .data _ _ | .eof => r.elsewhere.getD errno
  | .timeout => EAGAIN
  | .failed e => e

/-- `Connection`, with the reads that are going to happen and those that have happened. -/
structure TimedConnection where
  m_opened : Bool
  m_buffer : Bytes := []
  errno : Errno
  upcoming : List UpcomingRead
  performed : List UpcomingRead := []

/-- The part of `read` behind the system call, on any state that can be closed. -/
def receivedBy {σ : Type} (close : σ → σ) (recieved : Int) (bytes : Bytes) (errno : Errno) :
    EStateM Stopped σ Bytes :=
  if errno = EAGAIN then
    return if recieved > 0 then bytes else []
  else if recieved < 0 then
    throw (.exception (.IOError "Error reading from process!"))
  else if recieved = 0 then do
    modify close
    return bytes
  else
    return bytes

/-- It is what `Connection` does. -/
theorem received_eq (recieved : Int) (bytes : Bytes) (errno : Errno) :
    Connection.received recieved bytes errno =
      receivedBy (fun c => { c with m_opened := false }) recieved bytes errno := rfl

/-- `m_buffer.resize(size)`. -/
def resizeBuffer (buffer : Bytes) (size : Nat) : Bytes :=
  buffer.take size ++ List.replicate (size - buffer.length) 0

namespace TimedConnection

/-- A member that throws on a closed connection. -/
def whenOpened {β : Type} (m : EStateM Stopped TimedConnection β) :
    EStateM Stopped TimedConnection β :=
  guarded (fun c => c.m_opened) (.exception (.DescriptorError "Connection is closed!")) m

/-- `::read(m_socket.getFD(), data, size)`. -/
def sysRead (size : Nat) : EStateM Stopped TimedConnection (Int × Bytes × Errno) := fun c =>
  match c.upcoming with
  | [] => .error .waiting c
  | r :: upcoming =>
      let res := (r.outcome.sysRead size).perform (r.elsewhere.getD c.errno)
      .ok res { c with errno := res.2.2, upcoming := upcoming, performed := c.performed ++ [r] }

/-- `Connection::read`. -/
def read (size : Nat) : EStateM Stopped TimedConnection Bytes :=
  whenOpened do
    let (recieved, bytes, errno) ← sysRead size
    receivedBy (fun c => { c with m_opened := false }) recieved bytes errno

/-- `Connection::readExact`. -/
def readExact (size : Nat) : EStateM Stopped TimedConnection Bytes :=
  whenOpened (ExactTransfer.readExact read (.exception
    (.IOError "End of file reached before reading required number of bytes!")) size)

/-- The part of `readToBuffer` behind the test: the buffer grows for the call and is cut back to
what was received, or to what it was when `read` throws. -/
def readBehindBuffer (size : Nat) : EStateM Stopped TimedConnection Bytes := fun c =>
  let old_size := c.m_buffer.length
  match (read size).run { c with m_buffer := resizeBuffer c.m_buffer (old_size + size) } with
  | .ok bytes c' =>
      let stored :=
        c'.m_buffer.take old_size ++ (bytes ++ c'.m_buffer.drop (old_size + bytes.length))
      .ok bytes { c' with m_buffer := resizeBuffer stored (old_size + bytes.length) }
  | .error (.exception e) c' =>
      .error (.exception e) (if e.isBaseException then
        { c' with m_buffer := resizeBuffer c'.m_buffer old_size } else c')
  | .error .waiting c' => .error .waiting c'

/-- `Connection::readToBuffer`. -/
def readToBuffer (size : Nat) : EStateM Stopped TimedConnection Bytes :=
  whenOpened (readBehindBuffer size)

end TimedConnection

/-- The members that read. -/
inductive ReadMember where
  | read
  | readToBuffer
  | readExact
deriving DecidableEq

/-- A call for at least one byte. -/
structure ReadCall where
  member : ReadMember
  size : Nat
  size_ne : size ≠ 0

namespace ReadCall

def perform (call : ReadCall) : EStateM Stopped TimedConnection Bytes :=
  match call.member with
  | .read => TimedConnection.read call.size
  | .readToBuffer => TimedConnection.readToBuffer call.size
  | .readExact => TimedConnection.readExact call.size

/-- The connection behind the call, whether it has returned or thrown; `none` while it waits. -/
def behind (c : TimedConnection) (call : ReadCall) : Option TimedConnection :=
  match call.perform.run c with
  | .ok _ c' | .error (.exception _) c' => some c'
  | .error .waiting _ => none

end ReadCall

/-- The connection behind calls one after another. -/
def TimedConnection.behindAll (c : TimedConnection) (calls : List ReadCall) :
    Option TimedConnection :=
  calls.foldlM ReadCall.behind c

/-- Some `::read` has returned the end of the stream. -/
def SawEnd (reads : List UpcomingRead) : Prop := ∃ r ∈ reads, r.outcome = .eof

/-- After any calls, the connection is closed exactly if some `::read` has
returned the end of the stream. -/
def TimedConnection.ClosedAtEnd (c : TimedConnection) : Prop :=
  ∀ calls c', c.behindAll calls = some c' → (c'.m_opened = false ↔ SawEnd c'.performed)

/-- The first `::read` that returns the end of the stream does not find `EAGAIN` in `errno`. -/
def FirstEndFound : Errno → List UpcomingRead → Prop
  | _, [] => True
  | errno, r :: reads =>
      if r.outcome = .eof then r.errnoAfter errno ≠ EAGAIN
        else FirstEndFound (r.errnoAfter errno) reads

/-! ## What one read does -/

section ReceivedBy

variable {σ : Type} (close : σ → σ) {recieved : Int} {bytes : Bytes} {errno : Errno} (c : σ)

theorem receivedBy_pos (hpos : recieved > 0) :
    (receivedBy close recieved bytes errno).run c = .ok bytes c := by
  have hneg : ¬ recieved < 0 := by omega
  have hzero : ¬ recieved = 0 := by omega
  by_cases herrno : errno = EAGAIN
  · rw [receivedBy, if_pos herrno, if_pos hpos]
    rfl
  · rw [receivedBy, if_neg herrno, if_neg hneg, if_neg hzero]
    rfl

/-- With `EAGAIN` in `errno` a result of zero counts as a timeout. -/
theorem receivedBy_EAGAIN (hpos : ¬ recieved > 0) :
    (receivedBy close recieved bytes EAGAIN).run c = .ok [] c := by
  rw [receivedBy, if_pos rfl, if_neg hpos]
  rfl

theorem receivedBy_zero (herrno : errno ≠ EAGAIN) :
    (receivedBy close 0 bytes errno).run c = .ok bytes (close c) := by
  rw [receivedBy, if_neg herrno, if_neg (by omega), if_pos rfl]
  rfl

theorem receivedBy_neg (herrno : errno ≠ EAGAIN) (hneg : recieved < 0) :
    (receivedBy close recieved bytes errno).run c =
      .error (.exception (.IOError "Error reading from process!")) c := by
  rw [receivedBy, if_neg herrno, if_pos hneg]
  rfl

end ReceivedBy

/-- The end of the stream, without `EAGAIN` in `errno`. -/
def UpcomingRead.Closing (errno : Errno) (r : UpcomingRead) : Prop :=
  r.outcome = .eof ∧ r.errnoAfter errno ≠ EAGAIN

instance (errno : Errno) (r : UpcomingRead) : Decidable (r.Closing errno) :=
  inferInstanceAs (Decidable (_ ∧ _))

theorem perform_errno (r : UpcomingRead) (errno : Errno) (size : Nat) :
    ((r.outcome.sysRead size).perform (r.elsewhere.getD errno)).2.2 = r.errnoAfter errno := by
  obtain ⟨elsewhere, outcome⟩ := r
  cases outcome <;> rfl

namespace TimedConnection

/-- An open connection behind its next read. -/
def following (c : TimedConnection) (r : UpcomingRead) (upcoming : List UpcomingRead) :
    TimedConnection :=
  { c with
    m_opened := !decide (r.Closing c.errno)
    errno := r.errnoAfter c.errno
    upcoming := upcoming
    performed := c.performed ++ [r] }

theorem read_closed {c : TimedConnection} (hclosed : c.m_opened = false) (size : Nat) :
    (read size).run c = .error (.exception (.DescriptorError "Connection is closed!")) c :=
  guarded_of_false hclosed

section Open

variable {c : TimedConnection} (hopen : c.m_opened = true) {size : Nat}
include hopen

theorem read_waits (hnone : c.upcoming = []) : (read size).run c = .error .waiting c := by
  rw [read, whenOpened, guarded_of_true hopen, EStateM.run_bind]
  simp only [EStateM.run, sysRead, hnone]

theorem read_eq {r : UpcomingRead} {upcoming : List UpcomingRead}
    (hnext : c.upcoming = r :: upcoming) :
    (read size).run c =
      let res := (r.outcome.sysRead size).perform (r.elsewhere.getD c.errno)
      (receivedBy (fun c => { c with m_opened := false }) res.1 res.2.1 (r.errnoAfter c.errno)).run
        { c with errno := r.errnoAfter c.errno, upcoming := upcoming,
                 performed := c.performed ++ [r] } := by
  rw [read, whenOpened, guarded_of_true hopen, EStateM.run_bind, ← perform_errno r c.errno size]
  simp only [EStateM.run, sysRead, hnext]

theorem following_of_not_closing {r : UpcomingRead} {upcoming : List UpcomingRead}
    (hr : ¬ r.Closing c.errno) :
    c.following r upcoming =
      { c with errno := r.errnoAfter c.errno, upcoming := upcoming,
               performed := c.performed ++ [r] } := by
  rw [following, decide_eq_false hr, hopen]
  rfl

/-- A read of an open connection returns or throws an exception of the class `IOError`. -/
theorem read_run {r : UpcomingRead} {upcoming : List UpcomingRead}
    (hnext : c.upcoming = r :: upcoming) (hsize : size ≠ 0) :
    (∃ bytes, (read size).run c = .ok bytes (c.following r upcoming)) ∨
      (read size).run c =
        .error (.exception (.IOError "Error reading from process!")) (c.following r upcoming) := by
  have hneg : (-1 : Int) < 0 := by decide
  have hnotpos : ¬ (-1 : Int) > 0 := by decide
  rw [read_eq hopen hnext]
  obtain ⟨elsewhere, outcome⟩ := r
  cases outcome with
  | data first more =>
      rw [following_of_not_closing hopen fun h => by cases h.1]
      have hpos : (((first :: more).take size).length : Int) > 0 := by
        rw [List.length_take, List.length_cons]
        omega
      exact Or.inl ⟨_, receivedBy_pos _ _ hpos⟩
  | timeout =>
      rw [following_of_not_closing hopen fun h => by cases h.1]
      exact Or.inl ⟨[], receivedBy_EAGAIN _ _ hnotpos⟩
  | eof =>
      by_cases herrno : UpcomingRead.errnoAfter c.errno ⟨elsewhere, .eof⟩ = EAGAIN
      · rw [following_of_not_closing hopen fun h => h.2 herrno, herrno]
        exact Or.inl ⟨[], receivedBy_EAGAIN _ _ (Int.lt_irrefl 0)⟩
      · refine Or.inl ⟨[], (receivedBy_zero _ _ herrno).trans ?_⟩
        rw [following, decide_eq_true ⟨rfl, herrno⟩]
        rfl
  | failed e =>
      rw [following_of_not_closing hopen fun h => by cases h.1]
      by_cases he : e = EAGAIN
      · subst he
        exact Or.inl ⟨[], receivedBy_EAGAIN _ _ hnotpos⟩
      · exact Or.inr (receivedBy_neg _ _ he hneg)

end Open

/-! ## What a call keeps -/

section Keeps

variable {P : TimedConnection → Prop}
  (hbuffer : ∀ c buffer, P c → P { c with m_buffer := buffer })
  (hread : ∀ c r upcoming, c.m_opened = true → c.upcoming = r :: upcoming → P c →
    P (c.following r upcoming))

include hread in
theorem read_keeps {size : Nat} (hsize : size ≠ 0) {c : TimedConnection} (hc : P c) :
    P (stateAfter ((read size).run c)) := by
  cases hopen : c.m_opened with
  | false =>
      rw [read_closed hopen]
      exact hc
  | true =>
      cases hnext : c.upcoming with
      | nil =>
          rw [read_waits hopen hnext]
          exact hc
      | cons r upcoming =>
          have hbehind := hread c r upcoming hopen hnext hc
          rcases read_run hopen hnext hsize with ⟨bytes, hrun⟩ | hrun
          · rw [hrun]
            exact hbehind
          · rw [hrun]
            exact hbehind

include hread in
theorem readExact_keeps {size : Nat} {c : TimedConnection} (hc : P c) :
    P (stateAfter ((readExact size).run c)) := by
  cases hopen : c.m_opened with
  | false =>
      rw [readExact, whenOpened, guarded_of_false hopen]
      exact hc
  | true =>
      rw [readExact, whenOpened, guarded_of_true hopen]
      exact ExactTransfer.readExact_keeps (fun n s hn hs => read_keeps hread hn hs) size c hc

include hbuffer hread in
theorem readToBuffer_keeps {size : Nat} (hsize : size ≠ 0) {c : TimedConnection} (hc : P c) :
    P (stateAfter ((readToBuffer size).run c)) := by
  cases hopen : c.m_opened with
  | false =>
      rw [readToBuffer, whenOpened, guarded_of_false hopen]
      exact hc
  | true =>
      rw [readToBuffer, whenOpened, guarded_of_true hopen]
      have hgrown := hbuffer c (resizeBuffer c.m_buffer (c.m_buffer.length + size)) hc
      have hcall := read_keeps hread hsize hgrown
      simp only [EStateM.run, readBehindBuffer] at hcall ⊢
      cases hrun :
        read size { c with m_buffer := resizeBuffer c.m_buffer (c.m_buffer.length + size) } with
      | ok bytes c' =>
          rw [hrun] at hcall
          exact hbuffer c' _ hcall
      | error e c' =>
          rw [hrun] at hcall
          cases e with
          | waiting => exact hcall
          | exception e =>
              simp only
              split
              · exact hbuffer c' _ hcall
              · exact hcall

include hbuffer hread in
/-- What the underlying reads keep is kept by sequences of calls. -/
theorem behindAll_keeps {calls : List ReadCall} {c c' : TimedConnection} (hc : P c)
    (h : c.behindAll calls = some c') : P c' := by
  induction calls generalizing c with
  | nil =>
      cases h
      exact hc
  | cons call calls ih =>
      obtain ⟨c₁, hcall, hrest⟩ := Option.bind_eq_some_iff.mp h
      refine ih ?_ hrest
      have hkept : P (stateAfter (call.perform.run c)) := by
        obtain ⟨member, size, hsize⟩ := call
        cases member with
        | read => exact read_keeps hread hsize hc
        | readToBuffer => exact readToBuffer_keeps hbuffer hread hsize hc
        | readExact => exact readExact_keeps hread hc
      rw [ReadCall.behind] at hcall
      cases hrun : call.perform.run c with
      | ok bytes c₂ =>
          rw [hrun] at hcall hkept
          cases hcall
          exact hkept
      | error e c₂ =>
          rw [hrun] at hcall hkept
          cases e with
          | waiting => cases hcall
          | exception e =>
              cases hcall
              exact hkept

end Keeps

/-! ## Which reads close the connection -/

end TimedConnection

/-- `errno` behind some reads. -/
def errnoBehind (errno : Errno) (reads : List UpcomingRead) : Errno :=
  reads.foldl UpcomingRead.errnoAfter errno

/-- One of the reads closes the connection. -/
def Closes : Errno → List UpcomingRead → Prop
  | _, [] => False
  | errno, r :: reads => r.Closing errno ∨ Closes (r.errnoAfter errno) reads

theorem closes_concat (errno : Errno) (reads : List UpcomingRead) (r : UpcomingRead) :
    Closes errno (reads ++ [r]) ↔ Closes errno reads ∨ r.Closing (errnoBehind errno reads) := by
  induction reads generalizing errno with
  | nil => simp [Closes, errnoBehind]
  | cons r' reads ih =>
      rw [List.cons_append, Closes, ih, Closes, or_assoc]
      rfl

theorem errnoBehind_concat (errno : Errno) (reads : List UpcomingRead) (r : UpcomingRead) :
    errnoBehind errno (reads ++ [r]) = r.errnoAfter (errnoBehind errno reads) :=
  List.foldl_concat _ errno r reads

theorem sawEnd_of_closes {errno : Errno} {reads : List UpcomingRead} (h : Closes errno reads) :
    SawEnd reads := by
  induction reads generalizing errno with
  | nil => exact absurd h id
  | cons r reads ih =>
      rcases h with hr | hreads
      · exact ⟨r, List.mem_cons_self, hr.1⟩
      · obtain ⟨r', hmem, heof⟩ := ih hreads
        exact ⟨r', List.mem_cons_of_mem _ hmem, heof⟩

/-- Reads of which the first end is found close the connection as soon as one
of them returns the end. -/
theorem closes_of_sawEnd {errno : Errno} {reads later : List UpcomingRead}
    (hfirst : FirstEndFound errno (reads ++ later)) (h : SawEnd reads) : Closes errno reads := by
  induction reads generalizing errno with
  | nil =>
      obtain ⟨r, hmem, -⟩ := h
      cases hmem
  | cons r reads ih =>
      rw [List.cons_append, FirstEndFound] at hfirst
      split at hfirst
      · next heof => exact Or.inl ⟨heof, hfirst⟩
      · next hne =>
          right
          apply ih hfirst
          obtain ⟨r', hmem, heof⟩ := h
          rcases List.mem_cons.mp hmem with rfl | hmem
          · exact absurd heof hne
          · exact ⟨r', hmem, heof⟩

/-- Otherwise there are reads that return the end of the stream without closing the connection. -/
theorem exists_of_not_firstEndFound {errno : Errno} {reads : List UpcomingRead}
    (h : ¬ FirstEndFound errno reads) :
    ∃ missed later, reads = missed ++ later ∧ SawEnd missed ∧ ¬ Closes errno missed := by
  induction reads generalizing errno with
  | nil => exact absurd trivial h
  | cons r reads ih =>
      rw [FirstEndFound] at h
      split at h
      · next heof =>
          refine ⟨[r], reads, rfl, ⟨r, List.mem_singleton_self r, heof⟩, ?_⟩
          rintro (⟨-, hclosing⟩ | hnone)
          · exact h hclosing
          · exact hnone
      · next hne =>
          obtain ⟨missed, later, rfl, hsaw, hcloses⟩ := ih h
          refine ⟨r :: missed, later, rfl, ?_, ?_⟩
          · obtain ⟨r', hmem, heof⟩ := hsaw
            exact ⟨r', List.mem_cons_of_mem _ hmem, heof⟩
          · rintro (⟨heof, -⟩ | hmissed)
            · exact hne heof
            · exact hcloses hmissed

namespace TimedConnection

/-- The invariant: the reads that have happened are the first ones, `errno` is what they have left,
and the connection is closed if one of them has closed it. -/
structure Follows (errno : Errno) (reads : List UpcomingRead) (c : TimedConnection) : Prop where
  reads_eq : reads = c.performed ++ c.upcoming
  errno_eq : c.errno = errnoBehind errno c.performed
  closed_iff : c.m_opened = false ↔ Closes errno c.performed

theorem Follows.following {errno : Errno} {reads : List UpcomingRead} {c : TimedConnection}
    (h : c.Follows errno reads) {r : UpcomingRead} {upcoming : List UpcomingRead}
    (hopen : c.m_opened = true)
    (hnext : c.upcoming = r :: upcoming) : (c.following r upcoming).Follows errno reads where
  reads_eq := by
    have heq := h.reads_eq
    rw [hnext] at heq
    simpa [TimedConnection.following] using heq
  errno_eq := by
    show r.errnoAfter c.errno = errnoBehind errno (c.performed ++ [r])
    rw [errnoBehind_concat, h.errno_eq]
  closed_iff := by
    have hnot : ¬ Closes errno c.performed := by
      rw [← h.closed_iff, hopen]
      decide
    show (!decide (r.Closing c.errno)) = false ↔ Closes errno (c.performed ++ [r])
    rw [closes_concat, or_iff_right hnot, ← h.errno_eq, Bool.not_eq_false', decide_eq_true_iff]

/-- A connection that was just opened, with what it is going to meet. -/
def new (errno : Errno) (reads : List UpcomingRead) : TimedConnection :=
  { m_opened := true, errno := errno, upcoming := reads }

theorem follows_new (errno : Errno) (reads : List UpcomingRead) :
    (new errno reads).Follows errno reads where
  reads_eq := rfl
  errno_eq := rfl
  closed_iff := by
    constructor
    · intro h
      cases h
    · intro h
      exact absurd h id

theorem behindAll_follows {errno : Errno} {reads : List UpcomingRead} {calls : List ReadCall}
    {c : TimedConnection} (h : (new errno reads).behindAll calls = some c) :
    c.Follows errno reads :=
  behindAll_keeps (fun _ _ hc => ⟨hc.reads_eq, hc.errno_eq, hc.closed_iff⟩)
    (fun _ _ _ hopen hnext hc => hc.following hopen hnext) (follows_new errno reads) h

/-- A call of `read` for one byte. -/
def readByte : ReadCall := ⟨.read, 1, by decide⟩

theorem readByte_behind {c : TimedConnection} (hopen : c.m_opened = true) {r : UpcomingRead}
    {upcoming : List UpcomingRead} (hnext : c.upcoming = r :: upcoming) :
    readByte.behind c = some (c.following r upcoming) := by
  have hcall : readByte.perform = read 1 := rfl
  rw [ReadCall.behind, hcall]
  rcases read_run hopen hnext Nat.one_ne_zero with ⟨bytes, hrun⟩ | hrun
  · rw [hrun]
  · rw [hrun]

/-- As long as no read closes the connection, calls for one byte make one read each. -/
theorem readBytes_behindAll {reads later : List UpcomingRead} {c : TimedConnection}
    (hopen : c.m_opened = true)
    (hnext : c.upcoming = reads ++ later) (hcloses : ¬ Closes c.errno reads) :
    ∃ c', c.behindAll (List.replicate reads.length readByte) = some c' ∧ c'.m_opened = true ∧
      c'.performed = c.performed ++ reads := by
  induction reads generalizing c with
  | nil => exact ⟨c, rfl, hopen, (List.append_nil _).symm⟩
  | cons r reads ih =>
      rw [Closes, not_or] at hcloses
      have hopened : (c.following r (reads ++ later)).m_opened = true := by
        rw [TimedConnection.following, decide_eq_false hcloses.1]
        rfl
      obtain ⟨c', hrun, hopen', hperformed⟩ := ih hopened rfl hcloses.2
      refine ⟨c', ?_, hopen', ?_⟩
      · rw [List.length_cons, List.replicate_succ, behindAll, List.foldlM_cons,
          readByte_behind hopen hnext]
        exact hrun
      · rw [hperformed]
        simp [TimedConnection.following]

/-- **When the end of the stream closes a connection.**  After all calls of `read`,
`readToBuffer` and `readExact`, an open connection has been closed if and only if some
`::read` has returned the end of the stream, exactly when the first `::read` that does so does
not find `EAGAIN` in `errno`. -/
theorem closedAtEnd_iff (errno : Errno) (reads : List UpcomingRead) :
    (new errno reads).ClosedAtEnd ↔ FirstEndFound errno reads := by
  constructor
  · intro h
    by_contra hnot
    obtain ⟨missed, later, rfl, hsaw, hcloses⟩ := exists_of_not_firstEndFound hnot
    have hnext : (new errno (missed ++ later)).upcoming = missed ++ later := rfl
    obtain ⟨c', hrun, hopen, hperformed⟩ := readBytes_behindAll rfl hnext hcloses
    have hclosed := (h _ c' hrun).mpr (hperformed ▸ hsaw)
    rw [hopen] at hclosed
    cases hclosed
  · intro hfirst calls c' hrun
    have hfollows := behindAll_follows hrun
    rw [hfollows.closed_iff]
    constructor
    · exact sawEnd_of_closes
    · rw [hfollows.reads_eq] at hfirst
      exact closes_of_sawEnd hfirst

/-- A read runs into the receive timeout, and the next one meets the end of the stream. -/
theorem end_behind_timeout :
    ¬ (new 0 [{ outcome := .timeout }, { outcome := .eof }]).ClosedAtEnd := by
  intro h
  have hclosed := (h [readByte, readByte] _ rfl).mpr ⟨{ outcome := .eof }, by decide, rfl⟩
  cases hclosed

end TimedConnection
end TCP
end AdvCppHW
