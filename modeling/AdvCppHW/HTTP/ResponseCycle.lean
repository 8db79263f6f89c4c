import AdvCppHW.HTTP.Resumption

/-!
# Writing the response of one request

From the stretch in which `readRequest` returns a request to the end of `connectionCallback`.
The loop of `writeResponse` trims the message after each call of `write`, and keeps the rest
while the coroutine is suspended; `errno` is cleared in front of each call, so what other
coroutines leave there is not read.

* `SocketEvent`, `callbackEvents` — what a stretch does to its socket, call by call.
* `Cycle`, `connectionCycle` — the stretches of a coroutine, with all it did to its socket.
* `writeResponse_accepting` — a stretch of `writeResponse`, on a connection that does not fail.
* `connectionCycle_exact` — what was taken is a prefix of the text, and all of it at the end.
-/

namespace AdvCppHW
namespace HTTP

open ConnectionAsync

/-! ## What the socket takes -/

/-- What a coroutine does to its socket. -/
inductive SocketEvent where
  /-- A call of `write`, with the bytes that the socket takes. -/
  | wrote (bytes : Bytes)
  | closed
deriving DecidableEq

/-- The bytes that the socket takes in a call of `ConnectionAsync::write`. -/
def taken (c : ConnectionAsync) (msg : Bytes) (sys : SysWrite) : Bytes :=
  if c.isOpened then msg.take (sys.perform 0 msg.length).1.toNat else []

/-- The calls of `write` in a stretch of `writeResponse`. -/
def writeEvents (c : ConnectionAsync) (msg : Bytes) : List SysWrite → List SocketEvent
  | [] => if msg.length = 0 then [] else [.wrote (taken c msg .wouldBlock)]
  | sys :: writes =>
      if msg.length = 0 then
        []
      else
        .wrote (taken c msg sys) ::
          match (write msg sys).run ⟨c, 0⟩ with
          | .error _ _ => []
          | .ok sent s => if s.errno = EAGAIN then [] else writeEvents s.c (msg.drop sent) writes

/-- The same with the last statement of `connectionCallback`. -/
def afterWriteEvents (c : ConnectionAsync) (req : HTTPRequest) (msg : Bytes)
    (writes : List SysWrite) : List SocketEvent :=
  writeEvents c msg writes ++
    match (writeResponse c msg writes).1 with
    | .returned => if !req.doKeepAlive then [.closed] else []
    | .yielded _ | .threw _ => []

/-- What a stretch of `connectionCallback` does to the socket. -/
def callbackEvents (c : ConnectionAsync) (script : Script) : Frame → List SocketEvent
  | .reading =>
      match readRequest c script.reads with
      | (.returned req, c) =>
          match script.onRequest req with
          | .ok resp => afterWriteEvents c req resp.toString.1 script.writes
          | .error _ => []
      | (.yielded, _) | (.threw _, _) => []
  | .writing req msg => afterWriteEvents c req msg script.writes

/-! ## The stretches of a coroutine -/

/-- A resumption: what the worker has stored in `m_events` before, and what happens during it. -/
structure Resumed where
  events : UInt32
  script : Script

/-- A coroutine of a connection after some stretches. -/
structure Cycle where
  ended : CallbackEnd
  c : ConnectionAsync
  events : List SocketEvent

/-- The next stretch; a coroutine that has ended is not resumed. -/
def Cycle.resume (s : Cycle) (r : Resumed) : Cycle :=
  match s.ended with
  | .yielded frame =>
      let c : ConnectionAsync := { s.c with m_events := r.events }
      let stretch := connectionCallback c r.script frame
      ⟨stretch.ended, stretch.c, s.events ++ callbackEvents c r.script frame⟩
  | .returned | .threw _ => s

/-- The number of bytes that are left to write. -/
def Cycle.left (s : Cycle) : Nat :=
  match s.ended with
  | .yielded (.writing _ msg) => msg.length
  | .yielded .reading | .returned | .threw _ => 0

/-- The coroutine, from a resumption in `readRequest` on. -/
def connectionCycle (c : ConnectionAsync) (rs : List Resumed) : Cycle :=
  rs.foldl Cycle.resume ⟨.yielded .reading, c, []⟩

/-! ## One stretch -/

/-- The writes do not fail: each takes a part of what it is offered that is
not empty, or would block. -/
def Accepting (writes : List SysWrite) : Prop :=
  ∀ w ∈ writes, w = .wouldBlock ∨ ∃ k, w = .wrote (k + 1)

/-- How many of the writes take something before one would block. -/
def accepted : List SysWrite → Nat
  | .wrote _ :: writes => accepted writes + 1
  | [] | .wouldBlock :: _ | .failed _ :: _ => 0

section Stretch

variable {c : ConnectionAsync} (hopen : c.m_opened = true)
include hopen

theorem taken_wrote (msg : Bytes) (count : Nat) :
    taken c msg (.wrote count) = msg.take (min count msg.length) := by
  rw [taken, isOpened, hopen, if_pos rfl]
  rfl

theorem taken_wouldBlock (msg : Bytes) : taken c msg .wouldBlock = [] := by
  rw [taken, isOpened, hopen, if_pos rfl]
  rfl

/-- A stretch of `writeResponse` cuts the message into what the calls took and what is left. -/
theorem writeResponse_accepting (msg : Bytes) {writes : List SysWrite}
    (hwrites : Accepting writes) :
    ∃ (chunks : List Bytes) (left : Bytes),
      writeEvents c msg writes = chunks.map .wrote ∧ chunks.flatten ++ left = msg ∧
      (left = [] ∧ writeResponse c msg writes = (.returned, c.clearBuffer) ∨
        left ≠ [] ∧ writeResponse c msg writes = (.yielded left, c) ∧
          left.length + accepted writes ≤ msg.length) := by
  induction writes generalizing msg with
  | nil =>
      by_cases hmsg : msg = []
      · subst hmsg
        exact ⟨[], [], rfl, rfl, Or.inl ⟨rfl, rfl⟩⟩
      · have hlen : ¬ msg.length = 0 := by simpa using hmsg
        refine ⟨[[]], msg, ?_, rfl, Or.inr ⟨hmsg, ?_, le_refl _⟩⟩
        · rw [writeEvents, if_neg hlen, taken_wouldBlock hopen]
          rfl
        · rw [writeResponse, if_neg hlen, write_wouldBlock hopen]
          rfl
  | cons w writes ih =>
      by_cases hmsg : msg = []
      · subst hmsg
        exact ⟨[], [], rfl, rfl, Or.inl ⟨rfl, rfl⟩⟩
      · have hlen : ¬ msg.length = 0 := by simpa using hmsg
        rw [writeEvents, writeResponse, if_neg hlen, if_neg hlen]
        rcases hwrites w List.mem_cons_self with rfl | ⟨k, rfl⟩
        · refine ⟨[[]], msg, ?_, rfl, Or.inr ⟨hmsg, ?_, le_refl _⟩⟩
          · rw [taken_wouldBlock hopen, write_wouldBlock hopen]
            rfl
          · rw [write_wouldBlock hopen]
            rfl
        · obtain ⟨chunks, left, hevents, hcut, hended⟩ :=
            ih (msg.drop (min (k + 1) msg.length)) fun w' hw' =>
              hwrites w' (List.mem_cons_of_mem _ hw')
          refine ⟨msg.take (min (k + 1) msg.length) :: chunks, left, ?_, ?_, ?_⟩
          · rw [taken_wrote hopen, write_wrote (s := ⟨c, 0⟩) hopen (Nat.zero_ne_add_one 10)]
            exact congrArg (_ :: ·) hevents
          · rw [List.flatten_cons, List.append_assoc, hcut, List.take_append_drop]
          · rw [write_wrote (s := ⟨c, 0⟩) hopen (Nat.zero_ne_add_one 10)]
            rcases hended with hdone | ⟨hleft, hyields, hbound⟩
            · exact Or.inl hdone
            · refine Or.inr ⟨hleft, hyields, ?_⟩
              -- each call takes at least one byte
              rw [List.length_drop] at hbound
              rw [accepted]
              omega

end Stretch

/-! ## The whole cycle -/

/-- How far the response `text` to `req` has been written: `chunks` were
taken, and `left` is left. -/
inductive Written (req : HTTPRequest) (text : Bytes) (s : Cycle) : Prop where
  /-- The coroutine is suspended with the rest of the text, and its connection is open. -/
  | suspended (chunks : List Bytes) (left : Bytes)
      (ended : s.ended = .yielded (.writing req left)) (left_ne : left ≠ [])
      (cut : chunks.flatten ++ left = text) (events : s.events = chunks.map .wrote)
      (opened : s.c.m_opened = true)
  /-- It has ended, and has closed the connection behind the last call, or not at all. -/
  | returned (chunks : List Bytes)
      (ended : s.ended = .returned) (cut : chunks.flatten = text)
      (events : s.events = chunks.map .wrote ++ if req.doKeepAlive then [] else [.closed])
      (buffer : s.c.m_buffer = []) (opened : s.c.m_opened = req.doKeepAlive)

/-- What has been written before a stretch and in it. -/
theorem written_afterWrite {c : ConnectionAsync} (hopen : c.m_opened = true) (req : HTTPRequest)
    {text msg : Bytes} (before : List Bytes) (hcut : before.flatten ++ msg = text)
    (called : Option HTTPRequest) {writes : List SysWrite} (hwrites : Accepting writes) :
    let stretch := afterWrite req called (writeResponse c msg writes)
    let s : Cycle :=
      ⟨stretch.ended, stretch.c, before.map .wrote ++ afterWriteEvents c req msg writes⟩
    Written req text s ∧ (s.ended = .returned ∨ s.left + accepted writes ≤ msg.length) := by
  obtain ⟨chunks, left, hevents, hmsg, ⟨rfl, hwritten⟩ | ⟨hleft, hwritten, hbound⟩⟩ :=
    writeResponse_accepting hopen msg hwrites
  · rw [List.append_nil] at hmsg
    rw [afterWriteEvents, hevents, hwritten]
    refine ⟨.returned (before ++ chunks) rfl ?_ ?_ ?_ ?_, Or.inl rfl⟩
    · rw [List.flatten_append, hmsg, hcut]
    · rw [List.map_append, List.append_assoc]
      cases req.doKeepAlive with
      | true => rfl
      | false => rfl
    · cases hka : req.doKeepAlive with
      | true => simp [afterWrite, hka, clearBuffer]
      | false => simp [afterWrite, hka, clearBuffer, close, isOpened, hopen]
    · cases hka : req.doKeepAlive with
      | true => simp [afterWrite, hka, clearBuffer, hopen]
      | false => simp [afterWrite, hka, clearBuffer, close, isOpened, hopen]
  · rw [afterWriteEvents, hevents, hwritten]
    refine ⟨.suspended (before ++ chunks) left rfl hleft ?_ ?_ hopen, Or.inr hbound⟩
    · rw [List.flatten_append, List.append_assoc, hmsg, hcut]
    · rw [List.map_append, List.append_nil]

theorem Written.resume {req : HTTPRequest} {text : Bytes} {s : Cycle} (h : Written req text s)
    {r : Resumed} (hwrites : Accepting r.script.writes) :
    Written req text (s.resume r) ∧
      ((s.resume r).ended = .returned ∨ (s.resume r).left + accepted r.script.writes ≤ s.left) := by
  obtain ⟨ended, c, events⟩ := s
  cases h with
  | suspended chunks left hended hleft hcut hevents hopen =>
      cases hended
      cases hevents
      exact written_afterWrite (c := { c with m_events := r.events }) hopen req chunks
        hcut none hwrites
  | returned chunks hended hcut hevents hbuffer hopened =>
      cases hended
      exact ⟨.returned chunks rfl hcut hevents hbuffer hopened, Or.inl rfl⟩

theorem foldl_resume_returned {s : Cycle} (h : s.ended = .returned) (rs : List Resumed) :
    rs.foldl Cycle.resume s = s := by
  induction rs with
  | nil => rfl
  | cons r rs ih =>
      have hsame : s.resume r = s := by rw [Cycle.resume, h]
      rw [List.foldl_cons, hsame, ih]

/-- Any number of stretches: induction on the resumptions. -/
theorem Written.foldl {req : HTTPRequest} {text : Bytes} {s : Cycle} (h : Written req text s)
    (rs : List Resumed) (hwrites : ∀ r ∈ rs, Accepting r.script.writes) :
    Written req text (rs.foldl Cycle.resume s) ∧
      ((rs.foldl Cycle.resume s).ended = .returned ∨
        (rs.foldl Cycle.resume s).left +
        (rs.map fun r => accepted r.script.writes).sum ≤ s.left) := by
  induction rs generalizing s with
  | nil => exact ⟨h, Or.inr (le_refl _)⟩
  | cons r rs ih =>
      obtain ⟨hnext, hprogress⟩ := h.resume (hwrites r List.mem_cons_self)
      obtain ⟨hwritten, hrest⟩ := ih hnext fun r' hr' => hwrites r' (List.mem_cons_of_mem _ hr')
      refine ⟨hwritten, ?_⟩
      rcases hprogress with hended | hstep
      · left
        rw [List.foldl_cons, foldl_resume_returned hended]
        exact hended
      · rcases hrest with hended | hrest
        · exact Or.inl hended
        · right
          simp only [List.foldl_cons, List.map_cons, List.sum_cons]
          omega

/-- `readRequest` returns only on an open connection. -/
theorem readRequest_returned_opened {c c' : ConnectionAsync} {reads : List SysRead}
    {req : HTTPRequest} (h : readRequest c reads = (.returned req, c')) : c'.m_opened = true := by
  cases hopen : c.m_opened with
  | false =>
      rw [readRequest_closed hopen] at h
      cases h
  | true =>
      have hended := readRequest_opened hopen reads
      rw [h] at hended
      rcases hended with hopen' | ⟨-, hthrew⟩
      · exact hopen'
      · cases hthrew

/-- The stretch in which the request is returned. -/
theorem written_first {c c' : ConnectionAsync} {first : Resumed} {req : HTTPRequest}
    {resp : HTTPResponse}
    (hread : readRequest { c with m_events := first.events } first.script.reads =
      (.returned req, c'))
    (hanswer : first.script.onRequest req = .ok resp) (hwrites : Accepting first.script.writes) :
    let s := connectionCycle c [first]
    Written req resp.toString.1 s ∧
      (s.ended = .returned ∨ s.left + accepted first.script.writes ≤ resp.toString.1.length) := by
  have hstretch : connectionCallback { c with m_events := first.events } first.script .reading =
      afterWrite req (some req) (writeResponse c' resp.toString.1 first.script.writes) := by
    rw [connectionCallback, hread]
    simp only [hanswer]
  have hevents : callbackEvents { c with m_events := first.events } first.script .reading =
      afterWriteEvents c' req resp.toString.1 first.script.writes := by
    rw [callbackEvents, hread]
    simp only [hanswer]
  have h := written_afterWrite (readRequest_returned_opened hread) req []
    (List.nil_append resp.toString.1) (some req) hwrites
  simp only [connectionCycle, List.foldl_cons, List.foldl_nil, Cycle.resume, hstretch, hevents]
  exact h

/-- Something is left while the coroutine is suspended. -/
theorem Written.left_pos {req : HTTPRequest} {text : Bytes} {s : Cycle} (h : Written req text s) :
    s.ended = .returned ∨ 0 < s.left := by
  cases h with
  | suspended chunks left hended hleft hcut hevents hopen =>
      right
      rw [Cycle.left, hended]
      exact List.length_pos_of_ne_nil hleft
  | returned chunks hended hcut hevents hbuffer hopened => exact Or.inl hended

/-- **One connection cycle writes the response exactly.**  Behind a `readRequest` that returns a
request that `onRequest` answers, on a connection that does not fail: after any resumptions,
what the socket took is a prefix of the response's text, call by call, and the connection is
open while some of it is left; at the end it is the whole text, the read buffer is empty, and
the connection is open exactly if it is to be kept alive.  The end comes with as many accepted
writes as the text has bytes. -/
theorem connectionCycle_exact (c c' : ConnectionAsync) (first : Resumed) (later : List Resumed)
    (req : HTTPRequest) (resp : HTTPResponse)
    (hread : readRequest { c with m_events := first.events } first.script.reads =
      (.returned req, c'))
    (hanswer : first.script.onRequest req = .ok resp)
    (hwrites : ∀ r ∈ first :: later, Accepting r.script.writes) :
    Written req resp.toString.1 (connectionCycle c (first :: later)) ∧
      (resp.toString.1.length ≤ ((first :: later).map fun r => accepted r.script.writes).sum →
        (connectionCycle c (first :: later)).ended = .returned) := by
  obtain ⟨hfirst, hprogress⟩ := written_first hread hanswer (hwrites first List.mem_cons_self)
  obtain ⟨hwritten, hrest⟩ := hfirst.foldl later fun r hr => hwrites r (List.mem_cons_of_mem _ hr)
  refine ⟨hwritten, fun henough => ?_⟩
  rcases hprogress with hended | hstep
  · rw [foldl_resume_returned hended] at hwritten
    show (later.foldl Cycle.resume (connectionCycle c [first])).ended = .returned
    rw [foldl_resume_returned hended]
    exact hended
  · rcases hrest with hended | hrest
    · exact hended
    · rcases hwritten.left_pos with hended | hpos
      · exact hended
      · simp only [List.map_cons, List.sum_cons] at henough
        omega

/-- A connection with a whole request in its buffer. -/
def bufferedConnection : ConnectionAsync :=
  { m_socket := ⟨5⟩, m_buffer := ascii "GET / HTTP/1.1" ++ CRLF ++ CRLF, m_events := 0,
    m_opened := true }

/-- Part of the text is taken, then nothing, then the rest byte by byte. -/
def slowClient : List Resumed :=
  [[.wrote 2], [.wouldBlock], List.replicate 12 (.wrote 1)].map fun writes =>
    ⟨1, { onRequest := fun _ => .ok {}, writes := writes }⟩

/-- The slow client gets the text, and the connection is closed. -/
theorem connectionCycle_exact_slowClient :
    Written { m_method := ascii "GET", m_reqTarget := ascii "/", m_version := ascii "1.1" }
        (ascii "HTTP/ 0 " ++ CRLF ++ CRLF) (connectionCycle bufferedConnection slowClient) ∧
      (connectionCycle bufferedConnection slowClient).ended = .returned := by
  have hwrites : ∀ r ∈ slowClient, Accepting r.script.writes := by
    intro r hr
    simp only [slowClient, List.map_cons, List.map_nil, List.mem_cons, List.not_mem_nil,
      or_false] at hr
    rcases hr with rfl | rfl | rfl
    · exact fun w hw => Or.inr ⟨1, List.mem_singleton.mp hw⟩
    · exact fun w hw => Or.inl (List.mem_singleton.mp hw)
    · exact fun w hw => Or.inr ⟨0, List.eq_of_mem_replicate hw⟩
  have h := connectionCycle_exact bufferedConnection { bufferedConnection with m_events := 1 } _ _
    { m_method := ascii "GET", m_reqTarget := ascii "/", m_version := ascii "1.1" } {}
    (by decide +kernel) rfl hwrites
  exact ⟨h.1, h.2 (by decide)⟩

end HTTP
end AdvCppHW
