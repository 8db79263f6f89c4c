import AdvCppHW.AsyncTCP.ConnectionTable
import AdvCppHW.AsyncTCP.ReadBuffer
import Mathlib.Logic.Function.Basic

/-!
# The echo server

The callback of `example/server_side_async.cpp` in `hw4`, in the loop of `ServerAsync`.  It
collects a block of 1024 bytes in the connection's buffer and sends it back; how much of the block
has been sent it keeps in a static map under the descriptor.  The entry goes when the block is
through, but not when the connection is closed before that: the next connection under the
descriptor begins with it.

* `callback` — one run of the callback; `callback_calls` — the calls that it makes.
* `Echo.step` — the server with its callback, and what each connection has received and sent back.
* `callback_echoes`, `step_echoes` — what one run and one step keep.
* `echo_streams` — the streams of all connections, over whole runs.
-/

namespace AdvCppHW
namespace AsyncTCP
namespace EchoServer

/-- `EINTR`. -/
def EINTR : Errno := 4

/-- `EPOLLIN`. -/
def EPOLLIN : UInt32 := 1

/-- `EPOLLOUT`. -/
def EPOLLOUT : UInt32 := 4

/-- `size`. -/
def size : Nat := 2 ^ 10

def final_msg : Bytes := ascii "DISCONNECT"

/-- `sentBack`. -/
abbrev SentBack := Int → Option Nat

/-! ## The callback -/

/-- The outcomes of the system calls in one run of the callback. -/
structure Outcomes where
  read : SysRead := .wouldBlock
  write : SysWrite := .wouldBlock

/-- What a run of the callback leaves: with its calls, and the bytes the
socket has given and taken. -/
structure Called where
  s : ConnectionState
  sentBack : SentBack
  calls : List Call := []
  recieved : Bytes := []
  echoed : Bytes := []

/-- The handler of `HW::BaseException`, behind a call that has left `s`. -/
def caught (s : ConnectionState) (sentBack : SentBack) (call : Call) : Called :=
  if s.errno = EAGAIN ∨ s.errno = EINTR then ⟨s, sentBack, [call], [], []⟩
  else ⟨{ s with c := s.c.close }, sentBack, [call, .close], [], []⟩

/-- `sentBack[fd] = 0`, if there is no entry. -/
def createEntry (sentBack : SentBack) (fd : Int) : SentBack :=
  Function.update sentBack fd (some ((sentBack fd).getD 0))

/-- The block under `if (c.isEventSet(EPOLLOUT))`. -/
def sendBack (s : ConnectionState) (sentBack : SentBack) (sys : SysWrite) : Called :=
  let fd := s.c.m_socket.m_fd
  let sentBack := createEntry sentBack fd
  let sent := (sentBack fd).getD 0
  let msg := s.c.m_buffer.drop sent
  match (write msg sys).run s with
  | .error _ s' => caught s' sentBack (.write msg sys)
  | .ok written s' =>
      if sent + written = size then
        ⟨{ s' with c := s'.c.clearBuffer }, Function.update sentBack fd none,
          [.write msg sys, .clearBuffer], [], msg.take written⟩
      else
        ⟨s', Function.update sentBack fd (some (sent + written)), [.write msg sys], [],
          msg.take written⟩

/-- The block under `if (recieved == size)`, and nothing otherwise. -/
def withBlock (s : ConnectionState) (sentBack : SentBack) (sys : SysWrite) (recieved : Nat) :
    Called :=
  if recieved = size then
    if s.c.m_buffer.take final_msg.length = final_msg then
      ⟨{ s with c := s.c.close }, sentBack, [.close], [], []⟩
    else if isEventSet s.c EPOLLOUT then
      sendBack s sentBack sys
    else ⟨s, sentBack, [], [], []⟩
  else ⟨s, sentBack, [], [], []⟩

/-- `callback`. -/
def callback (s : ConnectionState) (sentBack : SentBack) (sys : Outcomes) : Called :=
  if isEventSet s.c EPOLLIN then
    let recieved := s.c.m_buffer.length
    if recieved ≠ size then
      match (readToBuffer (size - recieved) sys.read).run s with
      | .error _ s' => caught s' sentBack (.readToBuffer (size - recieved) sys.read)
      | .ok n s' =>
          let r := withBlock s' sentBack sys.write (recieved + n)
          { r with
            calls := .readToBuffer (size - recieved) sys.read :: r.calls,
            recieved := bytesOf sys.read }
    else
      withBlock s sentBack sys.write recieved
  else ⟨s, sentBack, [], [], []⟩

/-! ### Its calls -/

/-- The calls lead from one state to another. -/
def Makes (s : ConnectionState) (r : Called) : Prop := AsyncTCP.callback s r.calls = r.s

theorem caught_calls {s s' : ConnectionState} {call : Call} (h : call.run s = s')
    (sentBack : SentBack) : Makes s (caught s' sentBack call) := by
  unfold Makes caught
  split
  · exact h
  · exact congrArg (fun t => Call.run t .close) h

theorem sendBack_calls (s : ConnectionState) (sentBack : SentBack) (sys : SysWrite) :
    Makes s (sendBack s sentBack sys) := by
  unfold sendBack
  dsimp only
  generalize hmsg : s.c.m_buffer.drop _ = msg
  have hleft : left ((write msg sys).run s) = (Call.write msg sys).run s := rfl
  split
  · next e s' hrun =>
      rw [hrun] at hleft
      exact caught_calls hleft.symm _
  · next written s' hrun =>
      rw [hrun] at hleft
      split
      · exact congrArg (fun t : ConnectionState => { t with c := t.c.clearBuffer }) hleft.symm
      · exact hleft.symm

theorem withBlock_calls (s : ConnectionState) (sentBack : SentBack) (sys : SysWrite)
    (recieved : Nat) : Makes s (withBlock s sentBack sys recieved) := by
  unfold withBlock
  split
  · split
    · rfl
    · split
      · exact sendBack_calls s sentBack sys
      · rfl
  · rfl

/-- The callback is one that makes these calls on its connection. -/
theorem callback_calls (s : ConnectionState) (sentBack : SentBack) (sys : Outcomes) :
    AsyncTCP.callback s (callback s sentBack sys).calls = (callback s sentBack sys).s := by
  show Makes s (callback s sentBack sys)
  unfold callback
  split
  · dsimp only
    split
    · have hleft : left ((readToBuffer (size - s.c.m_buffer.length) sys.read).run s) =
          (Call.readToBuffer (size - s.c.m_buffer.length) sys.read).run s := rfl
      split
      · next e s' hrun =>
          rw [hrun] at hleft
          exact caught_calls hleft.symm _
      · next n s' hrun =>
          rw [hrun] at hleft
          have hrest := withBlock_calls s' sentBack sys.write (s.c.m_buffer.length + n)
          unfold Makes AsyncTCP.callback at hrest ⊢
          rw [List.foldl_cons, ← hleft]
          exact hrest
    · exact withBlock_calls s sentBack sys.write _
  · rfl

/-! ## One run of the callback -/

/-- What a connection has received and sent back since it was accepted, and what `sentBack` held
for its descriptor then. -/
structure Stream where
  recieved : Bytes := []
  echoed : Bytes := []
  stale : Nat := 0

/-- How much of the block in the buffer has been sent back. -/
def sentOf (sentBack : SentBack) (fd : Int) : Nat := (sentBack fd).getD 0

/-- Behind whole blocks that have been sent back comes the block in the buffer, which has been sent
back up to the entry; but the first `stale` bytes are missing. -/
structure Echoes (done buffer : Bytes) (sent : Nat) (t : Stream) : Prop where
  recieved : t.recieved = done ++ buffer
  blocks : size ∣ done.length
  room : buffer.length ≤ size
  sent_lt : sent < size
  stale_le : t.stale ≤ done.length + sent
  /-- Something of the block has been sent only when that is whole, unless the entry was found. -/
  whole : buffer.length < size → sent = 0 ∨ done = [] ∧ sent = t.stale
  echoed : t.echoed = (done ++ buffer.take sent).drop t.stale

/-- All entries stay below the size of a block. -/
def Below (sentBack : SentBack) : Prop := ∀ fd, sentOf sentBack fd < size

theorem Echoes.accepted {sent : Nat} (h : sent < size) : Echoes [] [] sent { stale := sent } where
  recieved := rfl
  blocks := Nat.dvd_zero _
  room := Nat.zero_le _
  sent_lt := h
  stale_le := (Nat.zero_add sent).ge
  whole _ := Or.inr ⟨rfl, rfl⟩
  echoed := by simp

section Echoes

variable {done buffer : Bytes} {sent : Nat} {t : Stream} (h : Echoes done buffer sent t)
include h

/-- More of a block arrives. -/
theorem Echoes.receives {more : Bytes} (hshort : buffer.length < size)
    (hroom : more.length ≤ size - buffer.length) :
    Echoes done (buffer ++ more) sent { t with recieved := t.recieved ++ more } where
  recieved := by rw [h.recieved, List.append_assoc]
  blocks := h.blocks
  room := by rw [List.length_append]; omega
  sent_lt := h.sent_lt
  stale_le := h.stale_le
  whole _ := h.whole hshort
  echoed := by
    rw [h.echoed]
    rcases h.whole hshort with rfl | ⟨rfl, rfl⟩
    · rfl
    · -- the bytes of the first block in front of the entry are never sent
      simp

/-- More of the block is sent back. -/
theorem Echoes.sends {written : Nat} (hfull : buffer.length = size)
    (hrest : sent + written < size) :
    Echoes done buffer (sent + written)
      { t with echoed := t.echoed ++ (buffer.drop sent).take written } where
  recieved := h.recieved
  blocks := h.blocks
  room := h.room
  sent_lt := hrest
  stale_le := h.stale_le.trans (Nat.add_le_add_left (Nat.le_add_right _ _) _)
  whole hshort := by omega
  echoed := by
    have hlen : t.stale ≤ (done ++ buffer.take sent).length := by
      have hle := h.stale_le
      have hlt := h.sent_lt
      rw [List.length_append, List.length_take]
      omega
    rw [h.echoed, List.take_add, ← List.append_assoc, List.drop_append_of_le_length hlen]

/-- The rest of the block is sent back. -/
theorem Echoes.completes {written : Nat} (hfull : buffer.length = size)
    (hrest : sent + written = size) :
    Echoes (done ++ buffer) [] 0
      { t with echoed := t.echoed ++ (buffer.drop sent).take written } where
  recieved := by rw [h.recieved, List.append_nil]
  blocks := by
    rw [List.length_append, hfull]
    exact (Nat.dvd_add_self_right).mpr h.blocks
  room := Nat.zero_le _
  sent_lt := by decide
  stale_le := by
    have hle := h.stale_le
    have hlt := h.sent_lt
    show t.stale ≤ (done ++ buffer).length + 0
    rw [List.length_append]
    omega
  whole _ := Or.inl rfl
  echoed := by
    have hlen : t.stale ≤ (done ++ buffer.take sent).length := by
      have hle := h.stale_le
      have hlt := h.sent_lt
      rw [List.length_append, List.length_take]
      omega
    have htake : (buffer.drop sent).take written = buffer.drop sent :=
      List.take_of_length_le (by rw [List.length_drop]; omega)
    rw [h.echoed, htake, List.take_zero, List.append_nil, ← List.drop_append_of_le_length hlen,
      List.append_assoc, List.take_append_drop]

/-- What has been sent back is a prefix of what was received, without the missing bytes. -/
theorem Echoes.echoed_prefix : t.echoed <+: t.recieved.drop t.stale := by
  rw [h.echoed, h.recieved]
  exact ((List.prefix_append_right_inj done).mpr (List.take_prefix sent buffer)).drop t.stale

/-- At most one block has not been sent back yet. -/
theorem Echoes.outstanding : t.recieved.length ≤ t.stale + t.echoed.length + size := by
  have hroom := h.room
  rw [h.echoed, h.recieved, List.length_drop, List.length_append, List.length_append]
  omega

end Echoes

/-- Some blocks have been sent back, and the buffer and the entry hold the rest. -/
def Follows (fd : Int) (c : ConnectionAsync) (sentBack : SentBack) (t : Stream) : Prop :=
  ∃ done, Echoes done c.m_buffer (sentOf sentBack fd) t

/-- The streams behind a run of the callback. -/
def Stream.after (t : Stream) (r : Called) : Stream :=
  { t with recieved := t.recieved ++ r.recieved, echoed := t.echoed ++ r.echoed }

/-- What a run of the callback for `fd` keeps. -/
structure KeepsEchoing (fd : Int) (sentBack : SentBack) (t : Stream) (r : Called) : Prop where
  below : Below r.sentBack
  others : ∀ j, j ≠ fd → r.sentBack j = sentBack j
  follows : r.s.c.m_opened = true → Follows fd r.s.c r.sentBack (t.after r)

/-- Nothing was received or sent back. -/
theorem keepsEchoing_of_same {fd : Int} {sentBack : SentBack} {t : Stream} {s : ConnectionState}
    {sentBack' : SentBack} {calls : List Call} (hbelow : Below sentBack')
    (hothers : ∀ j, j ≠ fd → sentBack' j = sentBack j)
    (hfollows : s.c.m_opened = true → Follows fd s.c sentBack' t) :
    KeepsEchoing fd sentBack t ⟨s, sentBack', calls, [], []⟩ where
  below := hbelow
  others := hothers
  follows hopen := by simpa [Stream.after] using hfollows hopen

theorem sentOf_createEntry (sentBack : SentBack) (fd j : Int) :
    sentOf (createEntry sentBack fd) j = sentOf sentBack j := by
  unfold sentOf createEntry
  by_cases hj : j = fd
  · rw [hj, Function.update_self]
    rfl
  · rw [Function.update_of_ne hj]

theorem sentOf_update_self (sentBack : SentBack) (fd : Int) (sent : Option Nat) :
    sentOf (Function.update sentBack fd sent) fd = sent.getD 0 := by
  rw [sentOf, Function.update_self]

theorem Below.update {sentBack : SentBack} (h : Below sentBack) (fd : Int) {sent : Option Nat}
    (hsent : sent.getD 0 < size) : Below (Function.update sentBack fd sent) := by
  intro j
  by_cases hj : j = fd
  · rw [hj, sentOf_update_self]
    exact hsent
  · rw [sentOf, Function.update_of_ne hj]
    exact h j

theorem caught_echoes {fd : Int} {s : ConnectionState} {sentBack sentBack' : SentBack} {t : Stream}
    (call : Call) (hbelow : Below sentBack') (hothers : ∀ j, j ≠ fd → sentBack' j = sentBack j)
    (hfollows : s.errno = EAGAIN ∨ s.errno = EINTR → Follows fd s.c sentBack' t) :
    KeepsEchoing fd sentBack t (caught s sentBack' call) := by
  unfold caught
  split
  · next herrno => exact keepsEchoing_of_same hbelow hothers fun _ => hfollows herrno
  · refine keepsEchoing_of_same hbelow hothers fun hopen => ?_
    have hclosed : s.c.close.m_opened = false := by
      unfold ConnectionAsync.close
      split
      · next hclosed => simpa [ConnectionAsync.isOpened] using hclosed
      · rfl
    exact Bool.noConfusion (hclosed.symm.trans hopen)

/-- `write` on an open connection changes `errno` at most, and takes at most what it is offered. -/
theorem write_cases {s : ConnectionState} (hopen : s.c.m_opened = true) (msg : Bytes)
    (sys : SysWrite) :
    (∃ written, (write msg sys).run s = .ok written s ∧ written ≤ msg.length) ∨
      ∃ e errno, (write msg sys).run s = .error e { s with errno := errno } := by
  have hnot : (!s.c.isOpened) = false := by simp [ConnectionAsync.isOpened, hopen]
  cases sys with
  | wrote count =>
      refine Or.inl ⟨min count msg.length, ?_, Nat.min_le_right _ _⟩
      have hneg : ¬ ((min count msg.length : Nat) : Int) < 0 := by omega
      simp only [write, SysWrite.perform, EStateM.run_bind, EStateM.run_get, hnot,
        Bool.false_eq_true, if_false, EStateM.run_set, hneg]
      rfl
  | wouldBlock =>
      refine Or.inr ⟨.IOError "Error writing to process!", EAGAIN, ?_⟩
      simp only [write, SysWrite.perform, EStateM.run_bind, EStateM.run_get, hnot,
        Bool.false_eq_true, if_false, EStateM.run_set]
      rfl
  | failed e =>
      refine Or.inr ⟨.IOError "Error writing to process!", e, ?_⟩
      simp only [write, SysWrite.perform, EStateM.run_bind, EStateM.run_get, hnot,
        Bool.false_eq_true, if_false, EStateM.run_set]
      rfl

theorem sendBack_echoes {fd : Int} {s : ConnectionState} {sentBack : SentBack} {t : Stream}
    (hfd : s.c.m_socket.m_fd = fd) (hopen : s.c.m_opened = true) (hbelow : Below sentBack)
    (hfollows : Follows fd s.c sentBack t) (hfull : s.c.m_buffer.length = size) (sys : SysWrite) :
    KeepsEchoing fd sentBack t (sendBack s sentBack sys) := by
  obtain ⟨done, hechoes⟩ := hfollows
  have hsent := sentOf_createEntry sentBack fd fd
  have hbelow' : Below (createEntry sentBack fd) := by
    intro j
    rw [sentOf_createEntry]
    exact hbelow j
  have hothers : ∀ j, j ≠ fd → createEntry sentBack fd j = sentBack j :=
    fun j hj => Function.update_of_ne hj _ _
  have hothers' : ∀ sent j, j ≠ fd →
      Function.update (createEntry sentBack fd) fd sent j = sentBack j :=
    fun sent j hj => (Function.update_of_ne hj _ _).trans (hothers j hj)
  unfold sendBack
  simp only [hfd]
  rw [show ((createEntry sentBack fd) fd).getD 0 = sentOf sentBack fd from hsent]
  have hlen : (s.c.m_buffer.drop (sentOf sentBack fd)).length = size - sentOf sentBack fd := by
    rw [List.length_drop, hfull]
  rcases write_cases hopen (s.c.m_buffer.drop (sentOf sentBack fd)) sys with
    ⟨written, hrun, hle⟩ | ⟨e, errno, hrun⟩
  · rw [hrun]
    rw [hlen] at hle
    have hlt := hbelow fd
    dsimp only
    split
    · next hrest =>
        refine ⟨hbelow'.update fd (by decide), hothers' none, fun _ => ⟨done ++ s.c.m_buffer, ?_⟩⟩
        rw [sentOf_update_self]
        have hnext := hechoes.completes hfull hrest
        simpa [Stream.after, ConnectionAsync.clearBuffer] using hnext
    · next hrest =>
        have hlt' : sentOf sentBack fd + written < size := by omega
        refine ⟨hbelow'.update fd hlt', hothers' _, fun _ => ⟨done, ?_⟩⟩
        rw [sentOf_update_self]
        have hnext := hechoes.sends hfull hlt'
        simpa [Stream.after] using hnext
  · rw [hrun]
    exact caught_echoes _ hbelow' hothers fun _ => ⟨done, hsent.symm ▸ hechoes⟩

theorem withBlock_echoes {fd : Int} {s : ConnectionState} {sentBack : SentBack} {t : Stream}
    (hfd : s.c.m_socket.m_fd = fd) (hbelow : Below sentBack)
    (hfollows : s.c.m_opened = true → Follows fd s.c sentBack t) (sys : SysWrite) (recieved : Nat)
    (hopen : recieved = size → s.c.m_opened = true ∧ s.c.m_buffer.length = size) :
    KeepsEchoing fd sentBack t (withBlock s sentBack sys recieved) := by
  have hsame : KeepsEchoing fd sentBack t ⟨s, sentBack, [], [], []⟩ :=
    keepsEchoing_of_same hbelow (fun _ _ => rfl) hfollows
  unfold withBlock
  split
  · next hsize =>
      obtain ⟨hopened, hfull⟩ := hopen hsize
      split
      · refine keepsEchoing_of_same hbelow (fun _ _ => rfl) fun hstill => ?_
        have hclosed : s.c.close.m_opened = false := by
          simp [ConnectionAsync.close, ConnectionAsync.isOpened, hopened]
        cases hclosed.symm.trans hstill
      · split
        · exact sendBack_echoes hfd hopened hbelow (hfollows hopened) hfull sys
        · exact hsame
  · exact hsame

theorem withBlock_recieved (s : ConnectionState) (sentBack : SentBack) (sys : SysWrite)
    (recieved : Nat) : (withBlock s sentBack sys recieved).recieved = [] := by
  unfold withBlock
  split
  · split
    · rfl
    · split
      · unfold sendBack
        dsimp only
        split
        · unfold caught
          split
          · rfl
          · rfl
        · split
          · rfl
          · rfl
      · rfl
  · rfl

/-- What the kernel grants of a read for `room` bytes: it does not store more.  The connections do
not block, so that no read is interrupted. -/
def ReadGranted (room : Nat) (sys : SysRead) : Prop :=
  (bytesOf sys).length ≤ room ∧ sys ≠ .failed EINTR

/-- A read that returns: what it has stored is in the buffer. -/
theorem readToBuffer_ok {s : ConnectionState} (hopen : s.c.m_opened = true) (room : Nat)
    {sys : SysRead} (hsys : ¬ Fails sys) :
    ∃ s', (readToBuffer room sys).run s = .ok (bytesOf sys).length s' ∧ s'.c =
      { s.c with m_buffer := s.c.m_buffer ++ bytesOf sys, m_opened := !returnsZero sys } := by
  have hleft := readToBuffer_of_not_fails hopen room hsys
  have hnot : (!s.c.isOpened) = false := by simp [ConnectionAsync.isOpened, hopen]
  obtain ⟨s', hrun, -⟩ := read_of_not_fails
    (s := ConnectionAsync.resize s (s.c.m_buffer.length + room)) hopen hsys
  simp only [readToBuffer, EStateM.run_bind, EStateM.run_get, hnot, Bool.false_eq_true, if_false,
    EStateM.run_set, hrun] at hleft ⊢
  exact ⟨_, rfl, hleft⟩

theorem readToBuffer_error {s : ConnectionState} (hopen : s.c.m_opened = true) (room : Nat)
    {e : Errno} (he : e ≠ EAGAIN) :
    ∃ s', (readToBuffer room (.failed e)).run s =
      .error (.IOError "Error reading from process!") s' ∧
      s'.errno = e := by
  have hnot : (!s.c.isOpened) = false := by simp [ConnectionAsync.isOpened, hopen]
  have hnot' : (!(ConnectionAsync.resize s (s.c.m_buffer.length + room)).c.isOpened) = false := hnot
  refine ⟨{ ConnectionAsync.resize s (s.c.m_buffer.length + room) with errno := e }, ?_, rfl⟩
  simp only [readToBuffer, read, SysRead.perform, EStateM.run_bind, EStateM.run_get, hnot, hnot',
    Bool.false_eq_true, if_false, EStateM.run_set, he]
  rfl

/-- One run of the callback keeps the streams together, for whatever its system calls come to. -/
theorem callback_echoes {fd : Int} {s : ConnectionState} {sentBack : SentBack} {t : Stream}
    (hfd : s.c.m_socket.m_fd = fd) (hopen : s.c.m_opened = true) (hbelow : Below sentBack)
    (hfollows : Follows fd s.c sentBack t) {sys : Outcomes}
    (hgranted : ReadGranted (size - s.c.m_buffer.length) sys.read) :
    KeepsEchoing fd sentBack t (callback s sentBack sys) := by
  obtain ⟨done, hechoes⟩ := hfollows
  unfold callback
  split
  swap
  · exact keepsEchoing_of_same hbelow (fun _ _ => rfl) fun _ => ⟨done, hechoes⟩
  dsimp only
  split
  swap
  · next hfull =>
      exact withBlock_echoes hfd hbelow (fun _ => ⟨done, hechoes⟩) sys.write s.c.m_buffer.length
        fun _ => ⟨hopen, not_not.mp hfull⟩
  next hne =>
  have hshort : s.c.m_buffer.length < size := lt_of_le_of_ne hechoes.room hne
  by_cases hfails : Fails sys.read
  · -- the handler closes the connection
    obtain ⟨e, hread, he⟩ := hfails
    obtain ⟨s', hrun, herrno⟩ := readToBuffer_error hopen (size - s.c.m_buffer.length) he
    rw [hread, hrun]
    refine caught_echoes _ hbelow (fun _ _ => rfl) fun hagain => ?_
    rw [herrno] at hagain
    exact absurd (hagain.resolve_left he) fun hintr => hgranted.2 (hread.trans (by rw [hintr]))
  · obtain ⟨s', hrun, hc⟩ := readToBuffer_ok hopen (size - s.c.m_buffer.length) hfails
    rw [hrun]
    let t' : Stream := { t with recieved := t.recieved ++ bytesOf sys.read }
    have hbuffer : s'.c.m_buffer = s.c.m_buffer ++ bytesOf sys.read := by rw [hc]
    have hnext : Follows fd s'.c sentBack t' := ⟨done, hbuffer ▸ hechoes.receives hshort hgranted.1⟩
    have hblock := withBlock_echoes (t := t') (s := s') (by rw [hc]; exact hfd) hbelow
      (fun _ => hnext) sys.write (s.c.m_buffer.length + (bytesOf sys.read).length) fun hsize => ?_
    · refine ⟨hblock.below, hblock.others, fun hstill => ?_⟩
      have hfollowed := hblock.follows hstill
      rwa [Stream.after, withBlock_recieved, List.append_nil] at hfollowed
    · -- a read that was to fill the block and stored nothing has not filled it
      have hpos : bytesOf sys.read ≠ [] := by
        intro hnil
        rw [hnil] at hsize
        exact hne hsize
      have hnotzero : returnsZero sys.read = false := by
        cases hread : sys.read with
        | data bytes =>
            cases bytes with
            | nil => exact absurd (by rw [hread]; rfl) hpos
            | cons b bytes => rfl
        | wouldBlock => rfl
        | eof => exact absurd (by rw [hread]; rfl) hpos
        | failed e => rfl
      exact ⟨by rw [hc, hnotzero]; rfl, by rw [hbuffer, List.length_append]; exact hsize⟩

/-! ## The server -/

/-- The server with its callback, and the streams of its connections. -/
structure Echo where
  running : Running
  sentBack : SentBack := fun _ => none
  streams : Int → Stream := fun _ => {}

namespace Echo

/-- The run of the callback that an event leads to. -/
def called (s : Echo) (ready : Ready) (env : Env) (sys : Outcomes) : Called :=
  let c := (s.running.server.element ready.fd env.spare).1.setEvent ready.events
  if s.running.server.m_callback then callback ⟨c, env.errno⟩ s.sentBack sys
  else ⟨⟨c, env.errno⟩, s.sentBack, [], [], []⟩

/-- Behind `accept` the streams of the accepted descriptor are new. -/
def accepting (s : Echo) (env : Env) (running : Running) : Echo :=
  { s with
    running := running,
    streams := Function.update s.streams env.accepted.fd
      { stale := sentOf s.sentBack env.accepted.fd } }

def handling (s : Echo) (fd : Int) (r : Called) (running : Running) : Echo :=
  ⟨running, r.sentBack, Function.update s.streams fd ((s.streams fd).after r)⟩

/-- The steps of the server, with what the system calls of the callback come to. -/
def step (s : Echo) (act : Act) (sys : Outcomes) : Option Echo :=
  match s.running.point, act with
  | .handling (ready :: _), .handle env =>
      if ready.fd = s.running.server.m_socket.m_fd then
        (s.running.step act).map (s.accepting env)
      else
        let r := s.called ready env sys
        (s.running.step (.handle { env with calls := r.calls, thrown := none })).map
          (s.handling ready.fd r)
  | _, .accept env => (s.running.step act).map (s.accepting env)
  | _, _ => (s.running.step act).map fun running => { s with running := running }

def Step (s : Echo) (a : Act × Outcomes) (s' : Echo) : Prop := s.step a.1 a.2 = some s'

/-- What the kernel grants at a step, with nothing disturbed. -/
def Granted (s : Echo) (a : Act × Outcomes) : Prop :=
  s.running.Promised a.1 ∧ Undisturbed a.1 ∧
    ∀ ready rest c, s.running.point = .handling (ready :: rest) →
      s.running.server.m_connections.lookup ready.fd = some c →
        ReadGranted (size - c.m_buffer.length) a.2.read

end Echo

/-! ### What the steps do to the table -/

/-- `accept` leaves what the table held, or a new connection. -/
theorem accept_lookup {Q : UInt32 → Prop} {s : ServerAsync} (h : Table Q s) {env : Env}
    (hadded : env.added = true)
    (hnew : 0 ≤ env.accepted.fd → env.accepted.fd ≠ s.m_socket.m_fd ∧
      ∀ fd c, s.m_connections.lookup fd = some c → c.m_socket.m_fd ≠ env.accepted.fd) :
    (s.accept env).Leaves False fun s' => ∀ c, s'.m_connections.lookup env.accepted.fd = some c →
      c.m_buffer = [] := by
  have hunknown : ∀ c, s.m_connections.lookup env.accepted.fd ≠ some c := by
    intro c hc
    obtain ⟨-, -, -, hsock, hnonneg, -⟩ := h.client hc
    exact (hnew hnonneg).2 _ c hc hsock
  have hnone : env.accepted.fd ∉ s.m_connections := by
    intro hmem
    obtain ⟨c, hc⟩ := Support.OrdMap.mem_iff.mp hmem
    exact hunknown c hc
  unfold ServerAsync.accept
  split
  · exact fun c hc => absurd hc (hunknown c)
  dsimp only
  split
  · exact fun c hc => absurd hc (hunknown c)
  let c := ConnectionAsync.ofFD env.accepted.fd env.accepted.garbage
  let s₁ : ServerAsync := { s with m_connections := s.m_connections.assign env.accepted.fd c }
  have hc₁ : ∀ registered, ({ s₁ with registered := registered } : ServerAsync).m_connections.lookup
      env.accepted.fd = some c := fun _ => Support.OrdMap.lookup_assign_self _ _ _
  have hemplace : s.try_emplace env.accepted = (true, s₁) := if_neg hnone
  have hadd : ∃ registered, s₁.addToEpoll env.accepted.fd env.added =
      .ok { s₁ with registered := registered } := by
    unfold ServerAsync.addToEpoll
    split
    · exact ⟨_, rfl⟩
    · exact ⟨_, rfl⟩
  obtain ⟨registered, hadd⟩ := hadd
  have hempty : ∀ c', ({ s₁ with registered := registered } : ServerAsync).m_connections.lookup
      env.accepted.fd = some c' → c'.m_buffer = [] := by
    intro c' hc'
    rw [hc₁] at hc'
    cases hc'
    rfl
  simp only [hemplace, Bool.not_true, Bool.false_eq_true, if_false, hadd, Outcome.andThen_ok]
  refine (setTimeout_leaves (hc₁ registered) env.spare env.recieveTimeoutSet).andThen
    (fun s₂ h₂ => ?_)
    fun s₂ h₂ => h₂ ▸ hempty
  subst h₂
  exact (setTimeout_leaves (hc₁ registered) env.spare env.sendTimeoutSet).mono fun s₃ h₃ =>
    h₃ ▸ hempty

theorem eraseConnection_lookup (s : ServerAsync) (fd : Int) :
    (s.eraseConnection fd).m_connections.lookup fd = none := by
  unfold ServerAsync.eraseConnection
  split
  · assumption
  · exact Support.OrdMap.lookup_erase_self _ _

/-- What `handleConnection` leaves of a connection is what the callback has left of it. -/
theorem handleConnection_lookup {s s' : ServerAsync} {fd : Int} {c c' : ConnectionAsync}
    {events : UInt32} {env : Env} (hsock : c.m_socket.m_fd = fd) (hthrown : env.thrown = none)
    (h : s.handleConnection fd c events env = .ok s') (hc' : s'.m_connections.lookup fd = some c') :
    c' = (s.called (c.setEvent events) env).clearEvents ∧
      (s.called (c.setEvent events) env).m_opened = true := by
  simp only [ServerAsync.handleConnection, hthrown, ite_self, hsock] at h
  split at h
  · cases h
    rw [eraseConnection_lookup] at hc'
    cases hc'
  · next hkept =>
      cases h
      have hself := Support.OrdMap.lookup_assign_self
        (s.update fd c (s.called (c.setEvent events) env)).m_connections fd
        (s.called (c.setEvent events) env).clearEvents
      have hopened : (s.called (c.setEvent events) env).isOpened = true := by
        simp only [Bool.or_eq_true, not_or] at hkept
        simpa using hkept.1
      exact ⟨Option.some.inj (hc'.symm.trans hself), hopened⟩

/-! ### Steps -/

/-- What holds in every state of a run. -/
structure EchoRun (s : Echo) : Prop where
  inRun : InRun (fun _ => True) s.running
  below : Below s.sentBack
  follows : ∀ fd c, s.running.server.m_connections.lookup fd = some c →
    Follows fd c s.sentBack (s.streams fd)

theorem inRun_step {s s' : Running} (h : InRun (fun _ => True) s) {act : Act}
    (hpromised : s.Promised act) (hundisturbed : Undisturbed act)
    (hstep : s.step act = some s') : InRun (fun _ => True) s' :=
  step_table h hpromised hundisturbed trivial (fun _ _ => trivial) hstep

/-- The steps besides accepting and handling do not change connections. -/
theorem step_lookup {s s' : Running} {act : Act} (haccept : ∀ env, act ≠ .accept env)
    (hhandle : ∀ env, act ≠ .handle env) (hstep : s.step act = some s') {fd : Int}
    {c : ConnectionAsync}
    (hc : s'.server.m_connections.lookup fd = some c) :
    s.server.m_connections.lookup fd = some c := by
  unfold Running.step at hstep
  split at hstep
  · cases hstep
    exact hc
  · next env hpoint => exact absurd rfl (haccept env)
  · cases hstep
    cases hc
  · cases hstep
    exact hc
  · split at hstep
    · cases hstep
      exact hc
    · split at hstep
      · cases hstep
        exact hc
      · cases hstep
        exact hc
  · cases hstep
    exact hc
  · cases hstep
    exact hc
  · cases hstep
    exact hc
  · next ready rest env hpoint => exact absurd rfl (hhandle env)
  · cases hstep
    exact hc
  · cases hstep

section Step

variable {s : Echo} (h : EchoRun s)
include h

theorem accepting_echoes {env : Env} (hadded : env.added = true)
    (hnew : 0 ≤ env.accepted.fd → env.accepted.fd ≠ s.running.server.m_socket.m_fd ∧
      ∀ fd c, s.running.server.m_connections.lookup fd = some c → c.m_socket.m_fd ≠ env.accepted.fd)
    {next : Point} {running : Running} (hinRun : InRun (fun _ => True) running)
    (hleads : leads next (s.running.server.accept env) = some running) :
    EchoRun (s.accepting env running) := by
  have htable := accept_table h.inRun.table hadded trivial hnew
  have hempty := accept_lookup h.inRun.table hadded hnew
  obtain ⟨hleft, -⟩ := leads_leaves htable hleads
  obtain ⟨hbuffer, -⟩ := leads_leaves hempty hleads
  refine ⟨hinRun, h.below, fun fd c hc => ?_⟩
  show Follows fd c s.sentBack (Function.update s.streams env.accepted.fd _ fd)
  by_cases hfd : fd = env.accepted.fd
  · subst hfd
    rw [Function.update_self]
    refine ⟨[], ?_⟩
    rw [hbuffer c hc]
    exact .accepted (h.below _)
  · rw [Function.update_of_ne hfd]
    exact h.follows fd c ((hleft.others fd hfd).symm.trans hc)

theorem handling_echoes {ready : Ready} {c : ConnectionAsync}
    (hc : s.running.server.m_connections.lookup ready.fd = some c) {env : Env} {sys : Outcomes}
    (hgranted : ReadGranted (size - c.m_buffer.length) sys.read) {next : Point} {running : Running}
    (hinRun : InRun (fun _ => True) running)
    (hleads : leads next (s.running.server.dispatch ready
      { env with calls := (s.called ready env sys).calls, thrown := none }) = some running) :
    EchoRun (s.handling ready.fd (s.called ready env sys) running) := by
  let r := s.called ready env sys
  let env' : Env := { env with calls := r.calls, thrown := none }
  obtain ⟨hne, -, hopen, hsock, -, -⟩ := h.inRun.table.client hc
  have helement : (s.running.server.element ready.fd env.spare).1 = c := by
    rw [element_of_lookup hc]
  have hr : r = if s.running.server.m_callback then
      callback ⟨c.setEvent ready.events, env.errno⟩ s.sentBack sys
      else ⟨⟨c.setEvent ready.events, env.errno⟩, s.sentBack, [], [], []⟩ := by
    rw [← helement]
    rfl
  have hkeeps : KeepsEchoing ready.fd s.sentBack (s.streams ready.fd) r := by
    rw [hr]
    split
    · exact callback_echoes (s := ⟨c.setEvent ready.events, env.errno⟩) hsock hopen h.below
        (h.follows ready.fd c hc) hgranted
    · exact keepsEchoing_of_same h.below (fun _ _ => rfl) fun _ => h.follows ready.fd c hc
  -- the callback that the server knows makes the calls of this one
  have hcalled : s.running.server.called (c.setEvent ready.events) env' = r.s.c := by
    show (if s.running.server.m_callback then
      (AsyncTCP.callback ⟨c.setEvent ready.events, env.errno⟩ r.calls).c
        else c.setEvent ready.events) = _
    rw [hr]
    split
    · rw [callback_calls]
    · rfl
  obtain ⟨t, hok, hleft, -⟩ : ∃ t, s.running.server.dispatch ready env' = .ok t ∧
      LeftTable (fun _ => True) s.running.server t ready.fd ∧ _ :=
    dispatch_client h.inRun.table hc rfl trivial
  rw [hok] at hleads
  cases hleads
  have hhandle : s.running.server.handleConnection ready.fd c ready.events env' = .ok t := by
    rw [← hok, ServerAsync.dispatch, if_neg hne, element_of_lookup hc]
  refine ⟨hinRun, hkeeps.below, fun fd c' hc' => ?_⟩
  show Follows fd c' r.sentBack
    (Function.update s.streams ready.fd ((s.streams ready.fd).after r) fd)
  by_cases hfd : fd = ready.fd
  · subst hfd
    obtain ⟨rfl, hstill⟩ := handleConnection_lookup hsock rfl hhandle hc'
    rw [Function.update_self, hcalled]
    rw [hcalled] at hstill
    exact hkeeps.follows hstill
  · obtain ⟨done, hechoes⟩ := h.follows fd c' ((hleft.others fd hfd).symm.trans hc')
    rw [Function.update_of_ne hfd]
    refine ⟨done, ?_⟩
    rw [sentOf, hkeeps.others fd hfd]
    exact hechoes

/-- One step of the server keeps the streams together. -/
theorem step_echoes {act : Act} {sys : Outcomes} (hpromised : s.running.Promised act)
    (hundisturbed : Undisturbed act)
    (hreads : ∀ ready rest c, s.running.point = .handling (ready :: rest) →
      s.running.server.m_connections.lookup ready.fd = some c →
        ReadGranted (size - c.m_buffer.length) sys.read)
    {s' : Echo} (hstep : s.step act sys = some s') : EchoRun s' := by
  unfold Echo.step at hstep
  split at hstep
  · next ready rest env hpoint =>
      have hhandle : ∀ env' : Env, s.running.step (.handle env') =
          leads (.handling rest) (s.running.server.dispatch ready env') := by
        intro env'
        simp only [Running.step, hpoint]
      split at hstep
      · next hlisten =>
          obtain ⟨running, hrun, rfl⟩ := Option.map_eq_some_iff.mp hstep
          have hinRun := inRun_step h.inRun hpromised hundisturbed hrun
          rw [hhandle, ServerAsync.dispatch, if_pos hlisten] at hrun
          exact accepting_echoes h hundisturbed.1 hpromised hinRun hrun
      · next hclient =>
          obtain ⟨running, hrun, rfl⟩ := Option.map_eq_some_iff.mp hstep
          let env' : Env := { env with calls := (s.called ready env sys).calls, thrown := none }
          have hpromised' : s.running.Promised (.handle env') := hpromised
          have hinRun := inRun_step h.inRun hpromised' ⟨hundisturbed.1, rfl⟩ hrun
          obtain ⟨c, hc⟩ := Support.OrdMap.mem_iff.mp
            (((h.inRun.pending _ hpoint).2 ready List.mem_cons_self).resolve_left hclient)
          rw [hhandle] at hrun
          exact handling_echoes h hc (hreads ready rest c hpoint hc) hinRun hrun
  · next env _ =>
      obtain ⟨running, hrun, rfl⟩ := Option.map_eq_some_iff.mp hstep
      have hinRun := inRun_step h.inRun hpromised hundisturbed hrun
      -- `accept` is called outside of `run` only
      cases hpoint : s.running.point with
      | outside =>
          simp only [Running.step, hpoint] at hrun
          exact accepting_echoes h hundisturbed.1 hpromised hinRun hrun
      | top => simp [Running.step, hpoint] at hrun
      | waiting => simp [Running.step, hpoint] at hrun
      | handling rest => simp [Running.step, hpoint] at hrun
  · next haccepted hhandled =>
      obtain ⟨running, hrun, rfl⟩ := Option.map_eq_some_iff.mp hstep
      refine ⟨inRun_step h.inRun hpromised hundisturbed hrun, h.below, fun fd c hc => ?_⟩
      refine h.follows fd c (step_lookup haccepted (fun env henv => ?_) hrun hc)
      -- there is no event to be handled
      subst henv
      cases hpoint : s.running.point with
      | outside => simp [Running.step, hpoint] at hrun
      | top => simp [Running.step, hpoint] at hrun
      | waiting => simp [Running.step, hpoint] at hrun
      | handling rest =>
          cases rest with
          | nil => simp [Running.step, hpoint] at hrun
          | cons ready rest => exact hhandled ready rest env hpoint rfl

end Step

/-! ## Runs -/

/-- A server behind `open` and `setCallback`. -/
abbrev Echo.start (socket epoll : Int) (set : Bool) : Echo :=
  { running := AsyncTCP.start socket epoll set }

/-- A run in which the kernel keeps its promises and nothing is disturbed. -/
abbrev EchoReaches : Echo → Echo → Prop := Support.Reaches Echo.Step Echo.Granted

/-- In every run of the server, whatever the clients send and however much the kernel takes at a
time, each connection in the table gets back what it has sent, in order and up to at most one block,
without the bytes that the entry of its descriptor took for sent when it was accepted. -/
theorem echo_streams {socket epoll : Int} (hepoll : 0 ≤ epoll) {set : Bool} {s : Echo}
    (hrun : EchoReaches (.start socket epoll set) s) {fd : Int}
    {c : ConnectionAsync} (hc : s.running.server.m_connections.lookup fd = some c) :
    (s.streams fd).echoed <+: (s.streams fd).recieved.drop (s.streams fd).stale ∧
      (s.streams fd).recieved.length ≤ (s.streams fd).stale + (s.streams fd).echoed.length + size ∧
      Follows fd c s.sentBack (s.streams fd) := by
  have hinv : EchoRun s := by
    refine hrun.invariant (fun s a s' hinv hgranted hstep => ?_)
      ⟨inRun_start _ socket hepoll set, fun _ => show 0 < size by decide,
        fun _ _ hnone => by cases hnone⟩
    exact step_echoes hinv hgranted.1 hgranted.2.1 hgranted.2.2 hstep
  obtain ⟨done, hechoes⟩ := hinv.follows fd c hc
  exact ⟨hechoes.echoed_prefix, hechoes.outstanding, done, hechoes⟩

/-! ### A stale entry -/

def block : Bytes := List.replicate size 120

/-- A server on the descriptors 3 and 4 with a client on descriptor 5. -/
def serving (buffer : Bytes) (point : Point) : Running where
  server := { ServerAsync.opened 3 4 true with
    m_connections :=
      Support.OrdMap.empty.assign 5 { ConnectionAsync.ofFD 5 0 with m_buffer := buffer },
    registered := insert 5 {3} }
  point := point

/-- The client can be read from and written to. -/
def ready : Ready := ⟨5, EPOLLIN ||| EPOLLOUT⟩

/-- Behind the accepting of the client. -/
def accepted : Echo :=
  (Echo.start 3 4 true).accepting { accepted := ⟨5, 0⟩ } (serving [] (.handling []))

/-- The client's events are reported. -/
def reported : Echo := { accepted with running := serving [] (.handling [ready]) }

/-- A block has come, and its first byte is sent back. -/
def firstCall : Called := reported.called ready {} { read := .data block, write := .wrote 1 }

def firstSent : Echo := reported.handling 5 firstCall (serving block (.handling []))

/-- So are they again, and another client connects. -/
def reportedAgain : Echo :=
  { firstSent with running := serving block (.handling [ready, ⟨3, EPOLLIN⟩]) }

/-- The client is gone. -/
def secondCall : Called := reportedAgain.called ready {} { write := .failed 32 }

def closed : Echo :=
  reportedAgain.handling 5 secondCall ⟨.opened 3 4 true, .handling [⟨3, EPOLLIN⟩]⟩

/-- The next client gets the same descriptor. -/
def acceptedAgain : Echo := closed.accepting { accepted := ⟨5, 0⟩ } (serving [] (.handling []))

theorem step_firstCall : reported.running.step (.handle { calls := firstCall.calls }) =
    some (serving block (.handling [])) := by
  decide +kernel

theorem step_secondCall : reportedAgain.running.step (.handle { calls := secondCall.calls }) =
    some ⟨.opened 3 4 true, .handling [⟨3, EPOLLIN⟩]⟩ := by
  decide +kernel

theorem serving_accepted : Running.Promised ⟨.opened 3 4 true, .handling [⟨3, EPOLLIN⟩]⟩
    (.handle { accepted := ⟨5, 0⟩ }) := by
  refine fun _ => ⟨?_, fun fd c hc => ?_⟩
  · show (5 : Int) ≠ 3
    decide
  · cases hc

/-- One more step, in which no client's event is handled. -/
theorem reaches_elsewhere {s₀ s s' : Echo} (hrun : EchoReaches s₀ s) {act : Act}
    {sys : Outcomes} (hstep : s.step act sys = some s') (hpromised : s.running.Promised act)
    (hundisturbed : Undisturbed act)
    (hnone : ∀ r rest, s.running.point = .handling (r :: rest) →
      s.running.server.m_connections.lookup r.fd = none) :
    EchoReaches s₀ s' := by
  refine hrun.tail ⟨(act, sys), ⟨hpromised, hundisturbed, fun r rest c hpoint hc => ?_⟩, hstep⟩
  cases (hnone r rest hpoint).symm.trans hc

/-- One more step, in which the client's event is handled. -/
theorem reaches_client {s₀ s : Echo} (hrun : EchoReaches s₀ s)
    {buffer : Bytes} {rest : List Ready}
    (hs : s.running = serving buffer (.handling (ready :: rest))) {sys : Outcomes}
    {running : Running}
    (hstep : s.running.step (.handle { calls := (s.called ready {} sys).calls }) = some running)
    (hroom : (bytesOf sys.read).length + buffer.length ≤ size) (hread : sys.read ≠ .failed EINTR) :
    EchoReaches s₀ (s.handling 5 (s.called ready {} sys) running) := by
  have hhandle : s.step (.handle {}) sys = some (s.handling 5 (s.called ready {} sys) running) := by
    have hclient : ready.fd ≠ s.running.server.m_socket.m_fd := by
      rw [hs]
      show (5 : Int) ≠ 3
      decide
    have hpoint : s.running.point = .handling (ready :: rest) := by rw [hs]; rfl
    simp only [Echo.step, hpoint]
    rw [if_neg hclient, hstep]
    rfl
  refine hrun.tail ⟨(.handle {}, sys), ⟨fun hfd => absurd hfd (by decide), ⟨rfl, rfl⟩, ?_⟩, hhandle⟩
  intro r rest' c hpoint hc
  rw [hs] at hpoint hc
  cases hpoint
  cases hc
  exact ⟨Nat.le_sub_of_add_le hroom, hread⟩

/-- Another batch is reported. -/
theorem reaches_batch {s₀ : Echo} {server : ServerAsync} {sentBack : SentBack}
    {streams : Int → Stream} (hrun : EchoReaches s₀ ⟨⟨server, .top⟩, sentBack, streams⟩)
    (hshutdown : server.m_shutdown = false) (hopen : server.isOpened = true)
    (hepoll : server.m_epollfd.isOpened = true) {events : List Ready}
    (hevents : Running.Promised ⟨server, .waiting⟩ (.wait (.ready events))) :
    EchoReaches s₀ ⟨⟨server, .handling events⟩, sentBack, streams⟩ := by
  have hcheck : Running.step ⟨server, .top⟩ .check = some ⟨server, .waiting⟩ := by
    simp [Running.step, hshutdown, hopen, hepoll]
  have hchecked : Echo.step ⟨⟨server, .top⟩, sentBack, streams⟩ .check {} =
      some ⟨⟨server, .waiting⟩, sentBack, streams⟩ :=
    congrArg (Option.map fun running : Running => (⟨running, sentBack, streams⟩ : Echo)) hcheck
  have hwaited : Echo.step ⟨⟨server, .waiting⟩, sentBack, streams⟩ (.wait (.ready events)) {} =
      some ⟨⟨server, .handling events⟩, sentBack, streams⟩ := rfl
  refine reaches_elsewhere (reaches_elsewhere hrun hchecked trivial trivial ?_) hwaited
    hevents trivial ?_
  · intro r rest hpoint
    cases hpoint
  · intro r rest hpoint
    cases hpoint

theorem reaches_accepted : EchoReaches (.start 3 4 true) accepted := by
  have hrun : Echo.step (.start 3 4 true) .run {} =
      some ⟨⟨.opened 3 4 true, .top⟩, fun _ => none, fun _ => {}⟩ := rfl
  have haccept : Echo.step ⟨⟨.opened 3 4 true, .handling [⟨3, EPOLLIN⟩]⟩, fun _ =>
    none, fun _ => {}⟩ (.handle { accepted := ⟨5, 0⟩ }) {} = some accepted := rfl
  have htop := reaches_elsewhere .refl hrun trivial trivial fun r rest hpoint => by cases hpoint
  have hevents : Running.Promised ⟨.opened 3 4 true, .waiting⟩ (.wait (.ready [⟨3, EPOLLIN⟩])) :=
    ⟨by decide, by decide⟩
  have hbatch := reaches_batch htop rfl rfl rfl hevents
  exact reaches_elsewhere hbatch haccept serving_accepted ⟨rfl, rfl⟩ fun r rest hpoint => rfl

theorem reaches_firstSent : EchoReaches (.start 3 4 true) firstSent := by
  let server := (serving [] .top).server
  have hfinish : accepted.step .finish {} =
      some ⟨⟨server, .top⟩, accepted.sentBack, accepted.streams⟩ := rfl
  have hevents : Running.Promised ⟨server, .waiting⟩ (.wait (.ready [ready])) :=
    ⟨by decide, by decide⟩
  have htop := reaches_elsewhere reaches_accepted hfinish trivial trivial fun r rest hpoint => by
    cases hpoint
  have hreported : EchoReaches (.start 3 4 true) reported :=
    reaches_batch htop rfl rfl rfl hevents
  exact reaches_client hreported rfl step_firstCall (by decide +kernel) fun hread => by cases hread

theorem reaches_acceptedAgain :
    EchoReaches (.start 3 4 true) acceptedAgain := by
  let server := (serving block .top).server
  have hfinish : firstSent.step .finish {} =
      some ⟨⟨server, .top⟩, firstSent.sentBack, firstSent.streams⟩ := rfl
  have hevents : Running.Promised ⟨server, .waiting⟩ (.wait (.ready [ready, ⟨3, EPOLLIN⟩])) :=
    ⟨by decide, by decide⟩
  have htop := reaches_elsewhere reaches_firstSent hfinish trivial trivial fun r rest hpoint => by
    cases hpoint
  have hreported : EchoReaches (.start 3 4 true) reportedAgain :=
    reaches_batch htop rfl rfl rfl hevents
  have hclosed : EchoReaches (.start 3 4 true) closed :=
    reaches_client hreported rfl step_secondCall (by decide +kernel) fun hread => by cases hread
  have haccept : closed.step (.handle { accepted := ⟨5, 0⟩ }) {} = some acceptedAgain := rfl
  exact reaches_elsewhere hclosed haccept serving_accepted ⟨rfl, rfl⟩ fun r rest hpoint => rfl

/-- The first client has sent a block and got one byte of it back; the client that is accepted
behind it, when it was closed in the middle of the block, will not get its first byte back. -/
theorem echo_streams_stale :
    (∃ s c, EchoReaches (.start 3 4 true) s ∧ s.running.server.m_connections.lookup 5 = some c ∧
      (s.streams 5).recieved = block ∧ (s.streams 5).echoed = [120] ∧
        (s.streams 5).echoed <+: (s.streams 5).recieved.drop (s.streams 5).stale) ∧
    ∃ s c, EchoReaches (.start 3 4 true) s ∧ s.running.server.m_connections.lookup 5 = some c ∧
      (s.streams 5).stale = 1 ∧ (s.streams 5).echoed <+: (s.streams 5).recieved.drop 1 := by
  constructor
  · have hlookup : firstSent.running.server.m_connections.lookup 5 =
        some { ConnectionAsync.ofFD 5 0 with m_buffer := block } := rfl
    have hrecieved : (firstSent.streams 5).recieved = block := by decide +kernel
    have hechoed : (firstSent.streams 5).echoed = [120] := by decide +kernel
    exact ⟨_, _, reaches_firstSent, hlookup, hrecieved, hechoed,
      (echo_streams (by decide) reaches_firstSent hlookup).1⟩
  · have hlookup : acceptedAgain.running.server.m_connections.lookup 5 = some (.ofFD 5 0) := rfl
    have hstale : (acceptedAgain.streams 5).stale = 1 := by decide +kernel
    have hstreams := (echo_streams (by decide) reaches_acceptedAgain hlookup).1
    exact ⟨_, _, reaches_acceptedAgain, hlookup, hstale, hstale ▸ hstreams⟩

end EchoServer
end AsyncTCP
end AdvCppHW
