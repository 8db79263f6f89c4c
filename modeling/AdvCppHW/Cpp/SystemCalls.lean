import AdvCppHW.Cpp.ByteString

/-!
# Reading and writing a descriptor

The system calls `::read` and `::write` with `errno`, and the two ends of a byte stream: what one
end has written arrives at the other end in order, some of it between the calls made there.
-/

namespace AdvCppHW

/-- Values of `errno`; zero means that no call has failed since it was cleared. -/
abbrev Errno := Nat

/-- `EAGAIN`, which on Linux is also `EWOULDBLOCK`. -/
def EAGAIN : Errno := 11

/-- Outcome of a `::read` on a non-blocking socket. -/
inductive SysRead where
  /-- Some bytes arrived; between one and the requested number. -/
  | data (bytes : Bytes)
  /-- Nothing to read yet. -/
  | wouldBlock
  /-- The peer has closed its side. -/
  | eof
  /-- Any other failure, with its error code. -/
  | failed (errno : Errno)
deriving DecidableEq, Repr

/-- Outcome of a `::write` on a non-blocking socket. -/
inductive SysWrite where
  /-- A prefix of this length was taken. -/
  | wrote (count : Nat)
  | wouldBlock
  | failed (errno : Errno)
deriving DecidableEq, Repr

/-- Result of a read call: its return value, the bytes it stored, and `errno` after it.  A call that
succeeds leaves `errno` alone. -/
def SysRead.perform (errno : Errno) : SysRead → Int × Bytes × Errno
  | data bytes => (bytes.length, bytes, errno)
  | wouldBlock => (-1, [], EAGAIN)
  | eof => (0, [], errno)
  | failed e => (-1, [], e)

/-- Result of a write call that was offered `size` bytes, and `errno` after it. -/
def SysWrite.perform (errno : Errno) (size : Nat) : SysWrite → Int × Errno
  | wrote count => ((min count size : Nat), errno)
  | wouldBlock => (-1, EAGAIN)
  | failed e => (-1, e)

/-! ## The ends of a stream -/

/-- What happens at the writing end of a stream. -/
inductive WriteEvent where
  /-- A call returns; it takes at most `n + 1` of the bytes it was offered.  It
  leaves the `errno` it found. -/
  | takes (n : Nat) (errno : Errno)
  /-- A call fails. -/
  | fails (errno : Errno)

/-- The writing end: what is going to happen, and what has been written. -/
structure WriteEnd where
  events : List WriteEvent
  sent : Bytes := []

/-- `::write(fd, data, size)`: its return value and `errno`; `none` when
the call does not return. -/
def WriteEnd.write (data : Bytes) (w : WriteEnd) : Option ((Int × Errno) × WriteEnd) :=
  match w.events with
  | [] => none
  | .takes n errno :: events =>
      some ((SysWrite.wrote (n + 1)).perform errno data.length,
        { events := events, sent := w.sent ++ data.take (n + 1) })
  | .fails e :: events =>
      some ((SysWrite.failed e).perform e data.length, { w with events := events })

/-- What happens at the reading end of a stream. -/
inductive ReadEvent where
  /-- Bytes written at the other end arrive. -/
  | arrives (bytes : Bytes)
  /-- The other end is closed. -/
  | ends
  /-- A call is ready to return if it can: with at most `n + 1` bytes, or with the end of the
  stream.  It leaves the `errno` it found. -/
  | returns (n : Nat) (errno : Errno)
  /-- A call fails. -/
  | fails (errno : Errno)

/-- The reading end: what is going to happen, the bytes that have arrived and were not read yet, and
whether the other end is closed. -/
structure ReadEnd where
  events : List ReadEvent
  unread : Bytes := []
  ended : Bool := false

/-- A call at the reading end, while the events happen. -/
def ReadEnd.readAfter (size : Nat) (unread : Bytes) (ended : Bool) :
    List ReadEvent → Option ((Int × Bytes × Errno) × ReadEnd)
  | [] => none
  | .arrives bytes :: events => readAfter size (unread ++ bytes) ended events
  | .ends :: events => readAfter size unread true events
  | .returns n errno :: events =>
      if unread ≠ [] then
        some ((SysRead.data (unread.take (min (n + 1) size))).perform errno,
          { events := events, unread := unread.drop (min (n + 1) size), ended := ended })
      else if ended then
        some (SysRead.eof.perform errno, { events := events, unread := unread, ended := ended })
      else
        readAfter size unread ended events
  | .fails e :: events =>
      some ((SysRead.failed e).perform e, { events := events, unread := unread, ended := ended })

/-- `::read(fd, data, size)`: its return value, the bytes it stored, and `errno`; `none` when
the call does not return. -/
def ReadEnd.read (size : Nat) (r : ReadEnd) : Option ((Int × Bytes × Errno) × ReadEnd) :=
  readAfter size r.unread r.ended r.events

/-- The bytes that events bring. -/
def arriving (events : List ReadEvent) : Bytes :=
  events.flatMap fun
    | .arrives bytes => bytes
    | .ends | .returns _ _ | .fails _ => []

/-- The bytes that have not been read: those that have arrived and those that will. -/
def ReadEnd.stream (r : ReadEnd) : Bytes := r.unread ++ arriving r.events

/-- Why a member that uses blocking calls has not returned. -/
inductive Stopped where
  | exception (e : Exception)
  /-- A system call does not return. -/
  | waiting
deriving DecidableEq, Repr

/-- No call fails, the other end is closed, and after that there are more calls than bytes that have
not been read. -/
def EndsIn (unread : Nat) : Bool → List ReadEvent → Prop
  | true, events => unread < events.length ∧ ∀ e ∈ events, ∃ n errno, e = ReadEvent.returns n errno
  | false, .arrives bytes :: events => EndsIn (unread + bytes.length) false events
  | false, .ends :: events => EndsIn unread true events
  | false, .returns _ _ :: events => EndsIn unread false events
  | false, .fails _ :: _ => False
  | false, [] => False

/-- The calls of the reading end all return until they have met the end of the stream. -/
def ReadEnd.Ending (r : ReadEnd) : Prop := EndsIn r.unread.length r.ended r.events

/-- No call fails, and at least `k` more return. -/
def WriteEnd.Accepting (k : Nat) (w : WriteEnd) : Prop :=
  (∀ e ∈ w.events, ∃ n errno, e = WriteEvent.takes n errno) ∧ k ≤ w.events.length

/-! ## What the calls do -/

theorem arriving_eq_nil {events : List ReadEvent}
    (h : ∀ e ∈ events, ∃ n errno, e = ReadEvent.returns n errno) : arriving events = [] := by
  refine List.flatMap_eq_nil_iff.mpr fun e he => ?_
  obtain ⟨n, errno, rfl⟩ := h e he
  rfl

theorem endsIn_true {unread : Nat} {events : List ReadEvent} :
    EndsIn unread true events ↔
      unread < events.length ∧ ∀ e ∈ events, ∃ n errno, e = ReadEvent.returns n errno := by
  cases events with
  | nil => exact Iff.rfl
  | cons e events => exact Iff.rfl

theorem EndsIn.mono {unread unread' : Nat} {ended : Bool} {events : List ReadEvent}
    (h : EndsIn unread ended events) (hle : unread' ≤ unread) : EndsIn unread' ended events := by
  induction events generalizing unread unread' ended with
  | nil =>
      cases ended with
      | true => exact ⟨lt_of_le_of_lt hle h.1, h.2⟩
      | false => exact h
  | cons e events ih =>
      cases ended with
      | true => exact ⟨lt_of_le_of_lt hle h.1, h.2⟩
      | false =>
          cases e with
          | arrives bytes =>
              have hrest : EndsIn (unread + bytes.length) false events := h
              exact ih hrest (Nat.add_le_add_right hle _)
          | ends =>
              have hrest : EndsIn unread true events := h
              exact ih hrest hle
          | returns n errno =>
              have hrest : EndsIn unread false events := h
              exact ih hrest hle
          | fails errno => exact h

/-- A read takes the bytes it stores off the stream; otherwise it returns `-1`. -/
theorem readAfter_spec {size : Nat} {unread : Bytes} {ended : Bool} {events : List ReadEvent}
    {recieved : Int} {bytes : Bytes} {errno : Errno} {r : ReadEnd}
    (h : ReadEnd.readAfter size unread ended events = some ((recieved, bytes, errno), r)) :
    unread ++ arriving events = bytes ++ r.stream ∧ bytes.length ≤ size ∧
      (recieved = bytes.length ∨ recieved = -1 ∧ bytes = []) := by
  induction events generalizing unread ended with
  | nil => cases h
  | cons e events ih =>
      cases e with
      | arrives more =>
          obtain ⟨hstream, hrest⟩ := ih h
          exact ⟨by rw [← hstream]; simp [arriving], hrest⟩
      | ends => exact ih h
      | returns n errno' =>
          rw [ReadEnd.readAfter] at h
          split at h
          · cases h
            refine ⟨?_, ?_, Or.inl rfl⟩
            · simp [ReadEnd.stream, arriving, ← List.append_assoc, List.take_append_drop]
            · rw [List.length_take]
              omega
          · split at h
            · cases h
              exact ⟨by simp [ReadEnd.stream, arriving], Nat.zero_le _, Or.inl rfl⟩
            · exact ih h
      | fails e' =>
          cases h
          exact ⟨by simp [ReadEnd.stream, arriving], Nat.zero_le _, Or.inr ⟨rfl, rfl⟩⟩

/-- While the stream is going to end, a read returns; it stores nothing only at the end. -/
theorem readAfter_ending {size : Nat} (hsize : size ≠ 0) {unread : Bytes} {ended : Bool}
    {events : List ReadEvent} (h : EndsIn unread.length ended events) :
    ∃ bytes errno r, ReadEnd.readAfter size unread ended events =
        some ((bytes.length, bytes, errno), r) ∧
      (bytes = [] → unread ++ arriving events = []) ∧ (bytes ≠ [] → r.Ending) := by
  induction events generalizing unread ended with
  | nil =>
      cases ended with
      | true => exact absurd h.1 (Nat.not_lt_zero _)
      | false => exact absurd h id
  | cons e events ih =>
      cases e with
      | arrives more =>
          cases ended with
          | true =>
              obtain ⟨n, errno, heq⟩ := h.2 _ List.mem_cons_self
              cases heq
          | false =>
              have hrest : EndsIn (unread ++ more).length false events := by
                rw [List.length_append]
                exact h
              obtain ⟨bytes, errno, r, hread, hend, hmore⟩ := ih hrest
              exact ⟨bytes, errno, r, hread, fun hnil => by simpa [arriving] using hend hnil, hmore⟩
      | ends =>
          cases ended with
          | true =>
              obtain ⟨n, errno, heq⟩ := h.2 _ List.mem_cons_self
              cases heq
          | false =>
              have hrest : EndsIn unread.length true events := h
              exact ih hrest
      | returns n errno =>
          by_cases hunread : unread = []
          · cases ended with
            | true =>
                have hnone := arriving_eq_nil h.2
                refine ⟨[], errno, _,
                  by rw [ReadEnd.readAfter, if_neg (by simp [hunread]), if_pos rfl]; rfl,
                  fun _ => by rw [hunread, hnone]; rfl, fun hne => absurd rfl hne⟩
            | false =>
                have hrest : EndsIn unread.length false events := h
                obtain ⟨bytes, errno', r, hread, hend, hmore⟩ := ih hrest
                refine ⟨bytes, errno', r, ?_, hend, hmore⟩
                rw [ReadEnd.readAfter, if_neg (by simp [hunread]), if_neg (by simp)]
                exact hread
          · have hpos : 0 < unread.length := List.length_pos_iff.mpr hunread
            have hne : unread.take (min (n + 1) size) ≠ [] := by
              rw [← List.length_pos_iff, List.length_take]
              omega
            refine ⟨unread.take (min (n + 1) size), errno, _,
              by rw [ReadEnd.readAfter, if_pos hunread]; rfl, fun hnil => absurd hnil hne,
              fun _ => ?_⟩
            show EndsIn (unread.drop (min (n + 1) size)).length ended events
            rw [List.length_drop]
            cases ended with
            | true =>
                obtain ⟨hlen, hreturns⟩ := h
                rw [List.length_cons] at hlen
                exact endsIn_true.mpr ⟨by omega, fun e he => hreturns e (List.mem_cons_of_mem _ he)⟩
            | false =>
                have hrest : EndsIn unread.length false events := h
                exact hrest.mono (Nat.sub_le _ _)
      | fails e' =>
          cases ended with
          | true =>
              obtain ⟨n, errno, heq⟩ := h.2 _ List.mem_cons_self
              cases heq
          | false => exact absurd h id

/-- A write sends as many bytes as it returns, or returns `-1`. -/
theorem WriteEnd.write_spec {data : Bytes} {w w' : WriteEnd} {written : Int} {errno : Errno}
    (h : w.write data = some ((written, errno), w')) :
    (∃ n : Nat, written = n ∧ w'.sent = w.sent ++ data.take n) ∨
      written = -1 ∧ w'.sent = w.sent := by
  unfold WriteEnd.write at h
  split at h
  · cases h
  · next n errno' events hevents =>
      cases h
      refine Or.inl ⟨min (n + 1) data.length, rfl, ?_⟩
      simp [← List.take_take]
  · next e events hevents =>
      cases h
      exact Or.inr ⟨rfl, rfl⟩

theorem WriteEnd.write_accepting {w : WriteEnd} {k : Nat} (hw : w.Accepting (k + 1)) {data : Bytes}
    (hdata : data ≠ []) :
    ∃ (n : Nat) (errno : Errno) (w' : WriteEnd), w.write data = some (((n : Int), errno), w') ∧
      0 < n ∧
      w'.events.length < w.events.length ∧ w'.Accepting k := by
  obtain ⟨htakes, hlen⟩ := hw
  have hpos : 0 < data.length := List.length_pos_iff.mpr hdata
  obtain ⟨e, events, hevents⟩ : ∃ e events, w.events = e :: events :=
    List.exists_cons_of_ne_nil fun hnil => by simp [hnil] at hlen
  obtain ⟨n, errno, rfl⟩ := htakes e (by simp [hevents])
  refine ⟨min (n + 1) data.length, errno, _, by rw [WriteEnd.write, hevents]; rfl, by omega,
    by simp [hevents], fun e he => htakes e (by simp [hevents, he]), ?_⟩
  rw [hevents, List.length_cons] at hlen
  exact Nat.le_of_succ_le_succ hlen

end AdvCppHW
