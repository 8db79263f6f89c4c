import AdvCppHW.TCP.Connection
import AdvCppHW.Process.Process

/-!
# Transport of bytes between exact writes and exact reads

Strings are written by calls of `writeExact` at one end of a stream, and buffers are filled by
calls of `readExact` at the other end; either end is a `Connection` or a `Process`.  The
events of the reading end say which bytes arrive between the calls made there, so the two ends
may take turns in any way.

* `exact_transport` — what is read is what was written, and a stream that ends too early is an
  exception.
-/

namespace AdvCppHW
namespace TCP

open Support ExactTransfer

/-- The classes with `writeExact` and `readExact`. -/
inductive Carrier where
  | Connection
  | Process

namespace Carrier

abbrev State : Carrier → Type
  | Connection => TCP.Connection
  | Process => AdvCppHW.Process

def writeExact : (k : Carrier) → Bytes → EStateM Stopped k.State Unit
  | Connection => Connection.writeExact
  | Process => Process.writeExact

def readExact : (k : Carrier) → Nat → EStateM Stopped k.State Bytes
  | Connection => Connection.readExact
  | Process => Process.readExact

/-- The bytes that have been written. -/
def sent : (k : Carrier) → k.State → Bytes
  | Connection => Connection.sent
  | Process => Process.sent

/-- The bytes that have not been read, now or later. -/
def stream : (k : Carrier) → k.State → Bytes
  | Connection => Connection.stream
  | Process => Process.stream

/-- Open for reading, and every call returns until the end of the stream is met. -/
def Supplied : (k : Carrier) → k.State → Prop
  | Connection => Connection.Supplied
  | Process => Process.Supplied

/-- Open for writing, and the next calls take something each. -/
def Ready : (k : Carrier) → Nat → k.State → Prop
  | Connection => Connection.Ready
  | Process => Process.Ready

/-- What `readExact` throws at the end of the stream. -/
def endOfFile : Stopped :=
  .exception (.IOError "End of file reached before reading required number of bytes!")

theorem readExact_exactly (k : Carrier) : ReadsExactly k.stream k.readExact := by
  cases k with
  | Connection => exact Connection.readExact_exactly
  | Process => exact Process.readExact_exactly

theorem readExact_supplied (k : Carrier) :
    SuppliesExactly k.stream k.Supplied k.readExact endOfFile := by
  cases k with
  | Connection => exact Connection.readExact_supplied
  | Process => exact Process.readExact_supplied

theorem writeExact_exactly (k : Carrier) : WritesExactly k.sent k.writeExact := by
  cases k with
  | Connection => exact Connection.writeExact_exactly
  | Process => exact Process.writeExact_exactly

theorem writeExact_accepts (k : Carrier) : AcceptsExactly k.Ready k.writeExact := by
  cases k with
  | Connection => exact Connection.writeExact_accepts
  | Process => exact Process.writeExact_accepts

end Carrier

section Transport

variable {src dst : Carrier}

/-- Whether or not all calls return, what has been sent is the beginning of the strings. -/
theorem sent_begins (strings : List Bytes) {w : src.State} (hw : src.sent w = []) :
    src.sent (stateAfter ((writeAll src.writeExact strings).run w)) <+: strings.flatten := by
  have hsends := writeAll_sends src.writeExact_exactly strings w
  cases hrun : (writeAll src.writeExact strings).run w with
  | ok u w' =>
      rw [hrun, hw, List.nil_append] at hsends
      exact hsends ▸ List.prefix_rfl
  | error e w' =>
      rw [hrun, hw] at hsends
      obtain ⟨part, hpart, hsent⟩ := hsends
      rw [List.nil_append] at hsent
      exact hsent ▸ hpart

/-- The buffers that calls of `readExact` fill from a beginning of the strings. -/
theorem readAll_eq_take {strings : List Bytes} {r r' : dst.State}
    (hr : dst.stream r <+: strings.flatten) {sizes : List Nat} {buffers : List Bytes}
    (hrun : (readAll dst.readExact sizes).run r = .ok buffers r') :
    buffers.map List.length = sizes ∧ buffers.flatten = strings.flatten.take sizes.sum ∧
      dst.stream r = buffers.flatten ++ dst.stream r' := by
  have htakes := readAll_takes dst.readExact_exactly sizes r
  rw [hrun] at htakes
  obtain ⟨hstream, hlen⟩ := htakes
  refine ⟨hlen, ?_, hstream⟩
  have hpre : buffers.flatten <+: strings.flatten := by
    rw [hstream] at hr
    exact (List.prefix_append _ _).trans hr
  have hsum : buffers.flatten.length = sizes.sum := by rw [List.length_flatten, hlen]
  rw [← hsum]
  exact List.prefix_iff_eq_take.mp hpre

/-- **Exact transport.**  The bytes that reach the reading end are, in order, bytes that the calls
of `writeExact` have sent.  Then calls of `writeExact` that return have sent all their bytes; calls
of `readExact` that return have filled buffers of the requested sizes with the beginning of the
strings, and have taken nothing else off the stream, nor does a call that throws take more than it
was asked for; when the stream is too short they do not return, but throw once it has ended.  When
no call fails and each makes progress, they do return. -/
theorem exact_transport (src dst : Carrier) (strings : List Bytes) (sizes : List Nat)
    (w : src.State) (r : dst.State) (hnew : src.sent w = [])
    (harrive : dst.stream r <+: src.sent (stateAfter ((writeAll src.writeExact strings).run w))) :
    (∀ w', (writeAll src.writeExact strings).run w = .ok () w' → src.sent w' = strings.flatten) ∧
    (∀ buffers r', (readAll dst.readExact sizes).run r = .ok buffers r' →
      buffers.map List.length = sizes ∧ buffers.flatten = strings.flatten.take sizes.sum ∧
        dst.stream r = buffers.flatten ++ dst.stream r') ∧
    ReadsExactly dst.stream dst.readExact ∧
    ((dst.stream r).length < sizes.sum →
      (∀ buffers r', (readAll dst.readExact sizes).run r ≠ .ok buffers r') ∧
      (dst.Supplied r → ∃ r', (readAll dst.readExact sizes).run r = .error Carrier.endOfFile r')) ∧
    (src.Ready strings.flatten.length w →
      ∃ w', (writeAll src.writeExact strings).run w = .ok () w') ∧
    (dst.Supplied r → sizes.sum ≤ (dst.stream r).length →
      ∃ buffers r', (readAll dst.readExact sizes).run r = .ok buffers r') := by
  have hstrings : dst.stream r <+: strings.flatten := harrive.trans (sent_begins strings hnew)
  refine ⟨fun w' hrun => ?_, fun buffers r' hrun => readAll_eq_take hstrings hrun,
    dst.readExact_exactly, fun hshort => ⟨fun buffers r' hrun => ?_, fun hr => ?_⟩,
    writeAll_accepts src.writeExact_accepts strings, fun hr hlong => ?_⟩
  · have hsends := writeAll_sends src.writeExact_exactly strings w
    rw [hrun, hnew, List.nil_append] at hsends
    exact hsends
  · obtain ⟨hlen, -, hstream⟩ := readAll_eq_take hstrings hrun
    have hsum : buffers.flatten.length = sizes.sum := by rw [List.length_flatten, hlen]
    rw [hstream, List.length_append] at hshort
    omega
  · exact (readAll_supplied dst.readExact_exactly dst.readExact_supplied sizes hr).2 hshort
  · exact (readAll_supplied dst.readExact_exactly dst.readExact_supplied sizes hr).1 hlong

/-- A process that writes `"abc"` and `"de"` in pieces of one, two and two bytes. -/
def writingProcess : Process where
  m_fdIn := ⟨4⟩
  m_fdOut := ⟨5⟩
  writing := { events := [.takes 0 EAGAIN, .takes 7 0, .takes 0 0, .takes 0 0, .takes 0 0] }
  reading := { events := [] }

/-- A connection to which four bytes arrive, three of them after the first read. -/
def readingConnection : Connection where
  m_opened := true
  reading :=
    { events := [.arrives (ascii "a"), .returns 8 EAGAIN, .arrives (ascii "bcd"),
      .returns 1 0, .ends, .returns 0 0, .returns 0 0, .returns 0 0, .returns 0 0, .returns 0 0] }
  writing := { events := [] }

theorem exact_transport_fourBytes :
    ∃ buffers r', (readAll Connection.readExact [2, 2]).run readingConnection = .ok buffers r' ∧
      buffers.flatten = ascii "abcd" := by
  have hsupplied : readingConnection.Supplied :=
    ⟨rfl, endsIn_true.mpr ⟨by decide, by simp⟩⟩
  obtain ⟨-, hread, -, -, -, hreturns⟩ :=
    exact_transport .Process .Connection [ascii "abc", ascii "de"] [2, 2] writingProcess
      readingConnection rfl (by decide +kernel)
  obtain ⟨buffers, r', hrun⟩ := hreturns hsupplied (by decide)
  exact ⟨buffers, r', hrun, (hread buffers r' hrun).2.1⟩

end Transport
end TCP
end AdvCppHW
