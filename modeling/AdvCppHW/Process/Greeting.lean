import AdvCppHW.Process.Destructor
import AdvCppHW.Support.Dialogue
import AdvCppHW.Support.Records

/-!
# The parent and the child of the example

`example/test_Process.cpp` in `hw1` launches `example/func.cpp`.  Each of the two sends
its messages with the size in front, as the eight bytes of a `msgSize`.  The pipes may
take and bring any parts of them.

* `childMain`, `main` — the two programs; `parentMain` — the parent's calls,
  where none of them throws.
* `mains_agree` — side by side they come to their ends.
* `scripted_exact` — `readExact` and `writeExact`, when the system calls
  come to what they do in a run.
* `greeting` — every run of the two.
-/

namespace AdvCppHW
namespace Process

open Support Dialogue Records

/-! ## The two programs -/

/-- The bytes of a `msgSize`. -/
def sizeBytes (size : Nat) : Bytes := littleEndian 8 size

/-- `main` of `func.cpp`; `writeSize` and `readSize` write and read the bytes of a `msgSize`. -/
def childMain (message : Bytes) : Party UInt8 Unit :=
  .send (sizeBytes message.length) <|
  .send message <|
  .receive 8 fun size =>
  .receive (ofLittleEndian size) fun newMessage =>
  .send (sizeBytes (ascii "Child recieved " ++ newMessage).length) <|
  .send (ascii "Child recieved " ++ newMessage) <|
  .done ()

/-- A `try` block of `main` with what it prints; behind an exception `message`
holds what is `left` in it. -/
def readMessage (left : Bytes) : EStateM Stopped Process (Bytes × List Bytes) :=
  tryCatch
    (do
      let size ← readExact 8
      let message ← readExact (ofLittleEndian size)
      pure (message, []))
    fun
    | .exception (.IOError what) => pure (left, [ascii what])
    | e => throw e

/-- `main` of `test_Process.cpp` behind the constructor, up to `return`: the lines it prints. -/
def main (message left left' : Bytes) : EStateM Stopped Process (List Bytes) := do
  let (recieved, caught) ← readMessage left
  writeExact (sizeBytes message.length)
  writeExact message
  let (recieved', caught') ← readMessage left'
  return caught ++ [ascii "Parent recieved " ++ recieved, ascii "Sending message to child"] ++
    caught' ++ [ascii "Parent recieved " ++ recieved']

/-- The calls of `main`, where none of them throws, and the messages that it gets. -/
def parentMain (message : Bytes) : Party UInt8 (Bytes × Bytes) :=
  .receive 8 fun size =>
  .receive (ofLittleEndian size) fun recieved =>
  .send (sizeBytes message.length) <|
  .send message <|
  .receive 8 fun size =>
  .receive (ofLittleEndian size) fun recieved' =>
  .done (recieved, recieved')

/-- What `main` prints when it gets these messages. -/
def printed (recieved recieved' : Bytes) : List Bytes :=
  [ascii "Parent recieved " ++ recieved, ascii "Sending message to child",
    ascii "Parent recieved " ++ recieved']

/-! ## Side by side -/

@[simp] theorem length_sizeBytes (size : Nat) : (sizeBytes size).length = 8 :=
  length_littleEndian 8 size

theorem ofLittleEndian_sizeBytes {size : Nat} (h : size < 2 ^ 64) :
    ofLittleEndian (sizeBytes size) = size := by
  rw [sizeBytes, ofLittleEndian_littleEndian]
  exact Nat.mod_eq_of_lt h

/-- A message and its size for a side that reads the size and then the message. -/
theorem exchange_message {ρ τ : Type} {n : Nat} {p : Party UInt8 ρ} (message : Bytes)
    (hfits : message.length < 2 ^ 64) (next : Bytes → Party UInt8 τ) {r : ρ} {t : τ}
    (h : Agree n p (next message) r t) :
    Agree (n + 2 * message.length + 20) (.send (sizeBytes message.length) (.send message p))
      (.receive 8 fun size => .receive (ofLittleEndian size) next) r t := by
  have hmessage := Agree.exchange message (ofLittleEndian_sizeBytes hfits) next h
  have hsize := Agree.exchange (sizeBytes message.length) (length_sizeBytes _).symm
    (fun size => .receive (ofLittleEndian size) next) hmessage
  rw [length_sizeBytes] at hsize
  exact hsize

/-- **The two programs agree.**  The parent gets what the child says, and
then its own message back. -/
theorem mains_agree {message greeting : Bytes} (hmessage : message.length + 15 < 2 ^ 64)
    (hgreeting : greeting.length < 2 ^ 64) :
    Agree (90 + 4 * message.length + 2 * greeting.length) (parentMain message) (childMain greeting)
      (greeting, ascii "Child recieved " ++ message) () := by
  have hlength : (ascii "Child recieved " ++ message).length = message.length + 15 := by
    rw [List.length_append, Nat.add_comm]
    rfl
  have hend : Agree 0 (.done () : Party UInt8 Unit)
    (.done (greeting, ascii "Child recieved " ++ message)) ()
      (greeting, ascii "Child recieved " ++ message) := .done _ _
  have hanswer := exchange_message (ascii "Child recieved " ++ message) (hlength ▸ hmessage)
    (fun recieved' => .done (greeting, recieved')) hend
  have hquestion := exchange_message message (by omega)
    (fun newMessage => .send (sizeBytes (ascii "Child recieved " ++ newMessage).length) <|
      .send (ascii "Child recieved " ++ newMessage) <| .done ()) hanswer.swap
  have hall := exchange_message greeting hgreeting
    (fun recieved => .send (sizeBytes message.length) <| .send message <|
      .receive 8 fun size => .receive (ofLittleEndian size) fun recieved' =>
        .done (recieved, recieved'))
    hquestion.swap
  have hcost : 0 + 2 * (ascii "Child recieved " ++ message).length + 20 + 2 * message.length + 20 +
      2 * greeting.length + 20 = 90 + 4 * message.length + 2 * greeting.length := by omega
  rw [hcost] at hall
  exact hall.swap

/-! ## The calls of the parent -/

/-- What happens at the parent's ends of the pipes in a step. -/
def writeEvent? : Dialogue.Call UInt8 → Option WriteEvent
  | .writes chunk => some (.takes (chunk.length - 1) 0)
  | .reads _ | .returns => none

def readEvents : Dialogue.Call UInt8 → List ReadEvent
  | .reads chunk => [.arrives chunk, .returns (chunk.length - 1) 0]
  | .writes _ | .returns => []

/-- The parent in front of the calls of a run. -/
def calling (m : Members) (sent : Bytes) (calls : List (Dialogue.Call UInt8)) : Process where
  m_fdIn := m.m_fdIn
  m_fdOut := m.m_fdOut
  writing := ⟨calls.filterMap writeEvent?, sent⟩
  reading := { events := calls.flatMap readEvents }

theorem readExact_run {p : Process} (h : p.isReadable = true) (len : Nat) :
    (readExact len).run p = (ExactTransfer.readExact read (.exception
      (.IOError "End of file reached before reading required number of bytes!")) len).run p :=
  ExactTransfer.guarded_of_true h

theorem writeExact_run {p : Process} (h : p.isWritable = true) (data : Bytes) :
    (writeExact data).run p =
      ExactTransfer.writeExact write (fun p => p.writing.events.length) .waiting data p :=
  ExactTransfer.guarded_of_true h

theorem isReadable_calling {m : Members} (hm : m.Started) (sent : Bytes)
    (calls : List (Dialogue.Call UInt8)) :
    (calling m sent calls).isReadable = true := hm.readable

theorem isWritable_calling {m : Members} (hm : m.Started) (sent : Bytes)
    (calls : List (Dialogue.Call UInt8)) :
    (calling m sent calls).isWritable = true := hm.writable

theorem read_calling {m : Members} (hm : m.Started) (sent : Bytes) {chunk : Bytes}
    (hchunk : chunk ≠ []) (calls : List (Dialogue.Call UInt8)) (n : Nat) :
    (read (chunk.length + n)).run (calling m sent (.reads chunk :: calls)) =
      .ok chunk (calling m sent calls) := by
  have hpos := List.length_pos_iff.mpr hchunk
  have hmin : min (chunk.length - 1 + 1) (chunk.length + n) = chunk.length := by omega
  have hread : (calling m sent (.reads chunk :: calls)).reading.read (chunk.length + n) =
      some (((chunk.length : Int), chunk, 0), (calling m sent calls).reading) := by
    show ReadEnd.readAfter (chunk.length + n) [] false
      (.arrives chunk :: .returns (chunk.length - 1) 0 :: calls.flatMap readEvents) = _
    rw [ReadEnd.readAfter, ReadEnd.readAfter, List.nil_append, if_pos hchunk, hmin,
      List.take_length, List.drop_length]
    rfl
  have hneg : ¬ (chunk.length : Int) < 0 := by omega
  rw [read_run_of_readable (isReadable_calling hm sent _), hread]
  simp only [if_neg hneg]
  rfl

theorem write_calling {m : Members} (hm : m.Started) (sent : Bytes) {chunk : Bytes}
    (hchunk : chunk ≠ []) (calls : List (Dialogue.Call UInt8)) (rest : Bytes) :
    (write (chunk ++ rest)).run (calling m sent (.writes chunk :: calls)) =
      .ok chunk.length (calling m (sent ++ chunk) calls) := by
  have hpos := List.length_pos_iff.mpr hchunk
  have hmin : min (chunk.length - 1 + 1) (chunk ++ rest).length = chunk.length := by
    rw [List.length_append]
    omega
  have hwrite : (calling m sent (.writes chunk :: calls)).writing.write (chunk ++ rest) =
      some (((chunk.length : Int), 0), (calling m (sent ++ chunk) calls).writing) := by
    show some ((((min (chunk.length - 1 + 1) (chunk ++ rest).length : Nat) : Int), 0),
      (⟨calls.filterMap writeEvent?, sent ++ (chunk ++ rest).take (chunk.length - 1 + 1)⟩ :
        WriteEnd)) = _
    rw [hmin, show chunk.length - 1 + 1 = chunk.length by omega, List.take_left]
    rfl
  have hneg : ¬ (chunk.length : Int) < 0 := by omega
  rw [write_run_of_writable (isWritable_calling hm sent _), hwrite]
  simp only [if_neg hneg, Int.toNat_natCast]
  rfl

/-- The state in which the calls come to what they do in a run. -/
def Calling (m : Members) (p : Process) (calls : List (Dialogue.Call UInt8)) : Prop :=
  ∃ sent, p = calling m sent calls

theorem scripted_exact {m : Members} (hm : m.Started) :
    Scripted (Calling m) readExact writeExact where
  returns := by
    rintro s calls ⟨sent, rfl⟩
    exact ⟨sent, rfl⟩
  readNone := by
    rintro s calls ⟨sent, rfl⟩
    rw [readExact_run (isReadable_calling hm sent calls), ExactTransfer.readExact, if_pos rfl]
    rfl
  writeNone := by
    rintro s calls ⟨sent, rfl⟩
    rw [writeExact_run (isWritable_calling hm sent calls)]
    exact ExactTransfer.writeExact_nil _
  reads := by
    rintro s chunk calls hchunk ⟨sent, rfl⟩
    refine ⟨calling m sent calls, ⟨sent, rfl⟩, fun n rest s'' hrest => ?_⟩
    have hpos := List.length_pos_iff.mpr hchunk
    rw [readExact_run (isReadable_calling hm sent _)] at hrest ⊢
    rw [ExactTransfer.readExact, if_neg (by omega)]
    refine run_bind_ok.mpr ⟨chunk, _, read_calling hm sent hchunk calls n, ?_⟩
    rw [if_neg hchunk, Nat.add_sub_cancel_left]
    exact run_bind_ok.mpr ⟨rest, s'', hrest, rfl⟩
  writes := by
    rintro s chunk calls hchunk ⟨sent, rfl⟩
    refine ⟨calling m (sent ++ chunk) calls, ⟨sent ++ chunk, rfl⟩, fun rest s'' hrest => ?_⟩
    rw [writeExact_run (isWritable_calling hm (sent ++ chunk) calls)] at hrest
    rw [writeExact_run (isWritable_calling hm sent _)]
    have hleft : (calling m (sent ++ chunk) calls).writing.events.length <
        (calling m sent (.writes chunk :: calls)).writing.events.length := Nat.lt_succ_self _
    rw [ExactTransfer.writeExact_of_ok (by simp [hchunk]) (write_calling hm sent hchunk calls rest),
      if_pos hleft, List.drop_left]
    exact hrest

theorem tryCatch_run {β : Type} {x : EStateM Stopped Process β}
    {handler : Stopped → EStateM Stopped Process β}
    {p p' : Process} {b : β} (h : x.run p = .ok b p') : (tryCatch x handler).run p = .ok b p' := by
  have hrun : x p = .ok b p' := h
  show EStateM.tryCatch x handler p = .ok b p'
  unfold EStateM.tryCatch
  simp only [hrun]

theorem readMessage_run {size message : Bytes} (left : Bytes) {p p' p'' : Process}
    (hsize : (readExact 8).run p = .ok size p')
    (hmessage : (readExact (ofLittleEndian size)).run p' = .ok message p'') :
    (readMessage left).run p = .ok (message, []) p'' :=
  tryCatch_run (run_bind_ok.mpr ⟨size, p', hsize, run_bind_ok.mpr ⟨message, p'', hmessage, rfl⟩⟩)

/-- Where no call throws, `main` prints the messages that it gets. -/
theorem main_of_perform {message recieved recieved' : Bytes} (left left' : Bytes) {p p' : Process}
    (h : ((parentMain message).perform readExact writeExact).run p = .ok (recieved, recieved') p') :
    (main message left left').run p = .ok (printed recieved recieved') p' := by
  obtain ⟨size, p₁, hsize, h⟩ := run_bind_ok.mp h
  obtain ⟨recieved, p₂, hrecieved, h⟩ := run_bind_ok.mp h
  obtain ⟨⟨⟩, p₃, hsizeSent, h⟩ := run_bind_ok.mp h
  obtain ⟨⟨⟩, p₄, hsent, h⟩ := run_bind_ok.mp h
  obtain ⟨size', p₅, hsize', h⟩ := run_bind_ok.mp h
  obtain ⟨recieved', p₆, hrecieved', h⟩ := run_bind_ok.mp h
  cases h
  exact run_bind_ok.mpr ⟨_, p₂, readMessage_run left hsize hrecieved,
    run_bind_ok.mpr ⟨(), p₃, hsizeSent, run_bind_ok.mpr ⟨(), p₄, hsent,
      run_bind_ok.mpr ⟨_, p', readMessage_run left' hsize' hrecieved', rfl⟩⟩⟩⟩

theorem start_agrees {message greeting : Bytes} (hmessage : message.length + 15 < 2 ^ 64)
    (hgreeting : greeting.length < 2 ^ 64) :
    (⟨parentMain message, [], [], childMain greeting⟩ : Pair UInt8 (Bytes × Bytes) Unit).Agrees
      (92 + 4 * message.length + 2 * greeting.length) (greeting, ascii "Child recieved " ++ message)
      () := by
  have hagree := Agree.leftSent (Agree.rightSent (mains_agree hmessage hgreeting))
  have hcost : 90 + 4 * message.length + 2 * greeting.length + 1 + 1 =
      92 + 4 * message.length + 2 * greeting.length := by omega
  rw [hcost] at hagree
  exact hagree

/-- **The session of the parent and the child.**  However the two programs take turns, and whatever
parts of the messages the pipes take and bring, the run has a bounded number of steps; nobody writes
to, or waits for, a program that has ended; nothing is left to do only when both have ended; and
then `main` has printed the child's greeting and, in the child's answer, its own message. -/
theorem greeting {m : Members} (hm : m.Started) {message greeting : Bytes}
    (hmessage : message.length + 15 < 2 ^ 64) (hgreeting : greeting.length < 2 ^ 64)
    {toChild toParent : Pipe UInt8} {acts : List (Act UInt8)} {s : Pair UInt8 (Bytes × Bytes) Unit}
    (hrun : Run toChild toParent ⟨parentMain message, [], [], childMain greeting⟩ acts s) :
    acts.length ≤ 92 + 4 * message.length + 2 * greeting.length ∧ ¬ s.Severed ∧
      ((∀ act s', ¬ Dialogue.Step toChild toParent s act s') ↔
        s = finished UInt8 (greeting, ascii "Child recieved " ++ message) ()) ∧
      (s = finished UInt8 (greeting, ascii "Child recieved " ++ message) () → ∀ left left', ∃ p',
        (main message left left').run (calling m [] (leftCalls acts)) =
          .ok (printed greeting (ascii "Child recieved " ++ message)) p') := by
  have hstart := start_agrees hmessage hgreeting
  obtain ⟨n, hagree, -⟩ := run_agrees hrun hstart
  refine ⟨run_bounded hrun hstart, not_severed hagree, stuck_iff hagree, ?_⟩
  rintro rfl left left'
  obtain ⟨p', hperform, -⟩ := run_performs (scripted_exact hm) hrun rfl ⟨[], rfl⟩
  exact ⟨p', main_of_perform left left' hperform⟩

/-- A pipe of one page. -/
def pagePipe : Pipe UInt8 := .bounded UInt8 4096 (Nat.zero_lt_succ 4095)

/-- The messages of the example, over pipes of one page: a run to the end,
and what `main` prints. -/
theorem greeting_hello : ∃ acts s, Run pagePipe pagePipe
    ⟨parentMain (ascii "Hello, child!"), [], [], childMain (ascii "Hello, parent!")⟩ acts s ∧
      ∃ p', (main (ascii "Hello, child!") [] []).run (calling launched [] (leftCalls acts)) =
        .ok [ascii "Parent recieved Hello, parent!", ascii "Sending message to child",
          ascii "Parent recieved Child recieved Hello, child!"] p' := by
  have hmessage : (ascii "Hello, child!").length + 15 < 2 ^ 64 := by decide
  have hgreeting : (ascii "Hello, parent!").length < 2 ^ 64 := by decide
  obtain ⟨acts, hrun⟩ := exists_run_finished pagePipe pagePipe (start_agrees hmessage hgreeting)
  have hend := greeting launched_started hmessage hgreeting hrun
  exact ⟨acts, _, hrun, hend.2.2.2 rfl [] []⟩

end Process
end AdvCppHW
