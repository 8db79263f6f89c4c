import AdvCppHW.HTTP.ConnectionCallback
import AdvCppHW.HTTP.RequestGrammar

/-!
# One resumption of a connection's coroutine

`readRequest` reads until a call brings nothing.  What it does then is decided by that last call:
one that would block has the buffer parsed, the end of the stream and a failure end by an exception.
`writeResponse` writes until everything was taken or a call takes nothing.

* `gathered` — what a list of read outcomes brings, and how it stops;
  `readRequest_eq` — `readRequest` of an open connection, by that;
  `readRequest_arrivals` — when all that is read are chunks.
* `takesAll` — the writes take a whole message; `writeResponse_returned` — `writeResponse`, by that.
* `connectionCallback_opened` — a stretch leaves an open connection open, unless it returns or meets
  the end of the stream; `connectionCallback_serves` — one that returns has served a request.
-/

namespace AdvCppHW
namespace HTTP

open ConnectionAsync

/-- What stops the reads of a resumption. -/
inductive Stop where
  | wouldBlock
  | eof
  | failed
deriving DecidableEq

/-- The bytes that the listed reads bring up to the first that brings none, and what that one meets.
Behind the list a read would block. -/
def gathered : List SysRead → Bytes × Stop
  | [] | .wouldBlock :: _ => ([], .wouldBlock)
  | .data [] :: _ | .eof :: _ => ([], .eof)
  | .data (b :: bytes) :: reads => ((b :: bytes) ++ (gathered reads).1, (gathered reads).2)
  | .failed e :: _ => ([], if e = EAGAIN then .wouldBlock else .failed)

theorem gathered_ne_failed {reads : List SysRead} (h : ∀ e, .failed e ∉ reads) :
    (gathered reads).2 ≠ .failed := by
  induction reads with
  | nil => simp [gathered]
  | cons sys reads ih =>
      have hrest := ih fun e he => h e (List.mem_cons_of_mem _ he)
      cases sys with
      | wouldBlock => simp [gathered]
      | eof => simp [gathered]
      | failed e => exact absurd List.mem_cons_self (h e)
      | data bytes =>
          cases bytes with
          | nil => simp [gathered]
          | cons b bytes => exact hrest

section Resumption

variable {c : ConnectionAsync} (hopen : c.m_opened = true)
include hopen

theorem readRequestIter_data {chunk : Bytes} (hne : chunk ≠ []) :
    readRequestIter c (.data chunk) = (.again, { c with m_buffer := c.m_buffer ++ chunk }) := by
  rw [readRequestIter, readToBuffer_data hopen hne]
  rfl

theorem readRequestIter_wouldBlock :
    readRequestIter c .wouldBlock =
      match HTTPRequest.ofString c.m_buffer with
      | .ok req => (.returned req, c)
      | .error _ => (.yielded, c) := by
  rw [readRequestIter, readToBuffer_wouldBlock hopen]
  simp only [if_true]
  cases hparse : HTTPRequest.ofString c.m_buffer with
  | ok req => rfl
  | error e =>
      obtain ⟨info, rfl⟩ := ofString_error hparse
      rfl

theorem readRequestIter_eof :
    readRequestIter c .eof = (.again, { c with m_opened := false }) := by
  rw [readRequestIter, readToBuffer_eof hopen]
  rfl

theorem readRequestIter_failed {e : Errno} (he : e ≠ EAGAIN) :
    readRequestIter c (.failed e) = (.threw (.IOError "Error reading from process!"), c) := by
  rw [readRequestIter, readToBuffer_failed hopen he]

end Resumption

theorem readRequestIter_closed {c : ConnectionAsync} (hclosed : c.m_opened = false)
    (sys : SysRead) :
    readRequestIter c sys = (.threw (.DescriptorError "Connection is closed!"), c) := by
  rw [readRequestIter, readToBuffer_closed readSize sys (s := ⟨c, 0⟩) hclosed]

/-- On a closed connection the first read throws. -/
theorem readRequest_closed {c : ConnectionAsync} (hclosed : c.m_opened = false)
    (reads : List SysRead) :
    readRequest c reads = (.threw (.DescriptorError "Connection is closed!"), c) := by
  cases reads with
  | nil => rw [readRequest, readRequestIter_closed hclosed]
  | cons sys reads => rw [readRequest, readRequestIter_closed hclosed]

/-- A first read that would block ends the resumption. -/
theorem readRequest_wouldBlock {c : ConnectionAsync} (hopen : c.m_opened = true) {sys : SysRead}
    (hsys : readRequestIter c sys = readRequestIter c .wouldBlock) (reads : List SysRead) :
    readRequest c (sys :: reads) =
      (match HTTPRequest.ofString (c.m_buffer ++ []) with
        | .ok req => .returned req
        | .error _ => .yielded, { c with m_buffer := c.m_buffer ++ [] }) := by
  rw [readRequest, hsys, readRequestIter_wouldBlock hopen, List.append_nil]
  cases HTTPRequest.ofString c.m_buffer with
  | ok req => rfl
  | error e => rfl

/-- After the end of the stream the next read throws. -/
theorem readRequest_eof {c : ConnectionAsync} (hopen : c.m_opened = true) {sys : SysRead}
    (hsys : readRequestIter c sys = readRequestIter c .eof) (reads : List SysRead) :
    readRequest c (sys :: reads) = (.threw (.DescriptorError "Connection is closed!"),
      { c with m_buffer := c.m_buffer ++ [], m_opened := false }) := by
  rw [readRequest, hsys, readRequestIter_eof hopen, List.append_nil]
  exact readRequest_closed rfl reads

/-- A resumption of `readRequest` reads what has arrived, and then parses the buffer or throws. -/
theorem readRequest_eq {c : ConnectionAsync} (hopen : c.m_opened = true) (reads : List SysRead) :
    readRequest c reads =
      let c' : ConnectionAsync := { c with m_buffer := c.m_buffer ++ (gathered reads).1 }
      match (gathered reads).2 with
      | .wouldBlock =>
          (match HTTPRequest.ofString c'.m_buffer with
            | .ok req => .returned req
            | .error _ => .yielded, c')
      | .eof => (.threw (.DescriptorError "Connection is closed!"), { c' with m_opened := false })
      | .failed => (.threw (.IOError "Error reading from process!"), c') := by
  induction reads generalizing c with
  | nil =>
      rw [readRequest, readRequestIter_wouldBlock hopen]
      simp only [gathered, List.append_nil]
      cases HTTPRequest.ofString c.m_buffer with
      | ok req => rfl
      | error e => rfl
  | cons sys reads ih =>
      cases sys with
      | wouldBlock => exact readRequest_wouldBlock hopen rfl reads
      | eof => exact readRequest_eof hopen rfl reads
      | failed e =>
          by_cases he : e = EAGAIN
          · subst he
            exact readRequest_wouldBlock hopen rfl reads
          · simp only [readRequest, readRequestIter_failed hopen he, gathered, if_neg he,
              List.append_nil]
      | data bytes =>
          cases bytes with
          | nil => exact readRequest_eof hopen rfl reads
          | cons b bytes =>
              have htail := ih (c := { c with m_buffer := c.m_buffer ++ (b :: bytes) }) hopen
              rw [readRequest, readRequestIter_data hopen (List.cons_ne_nil b bytes)]
              refine htail.trans ?_
              simp only [gathered, List.append_assoc]

/-- Chunks are gathered, and then what follows them. -/
theorem gathered_chunks_append {chunks : List Bytes} (hchunks : ∀ chunk ∈ chunks, chunk ≠ [])
    (reads : List SysRead) :
    gathered (chunks.map .data ++ reads) =
      (chunks.flatten ++ (gathered reads).1, (gathered reads).2) := by
  induction chunks with
  | nil => rfl
  | cons chunk chunks ih =>
      have hrest := ih fun b hb => hchunks b (List.mem_cons_of_mem chunk hb)
      cases chunk with
      | nil => exact absurd rfl (hchunks [] List.mem_cons_self)
      | cons b bytes =>
          rw [List.map_cons, List.cons_append, gathered, hrest, List.flatten_cons,
            List.append_assoc]

theorem gathered_chunks {chunks : List Bytes} (hchunks : ∀ chunk ∈ chunks, chunk ≠ []) :
    gathered (chunks.map .data) = (chunks.flatten, .wouldBlock) := by
  have happend := gathered_chunks_append hchunks []
  rwa [List.append_nil, gathered, List.append_nil] at happend

/-- A resumption of `readRequest` reads the chunks that arrived and parses the buffer. -/
theorem readRequest_arrivals {c : ConnectionAsync} (hopen : c.m_opened = true) (chunks : List Bytes)
    (hchunks : ∀ chunk ∈ chunks, chunk ≠ []) :
    readRequest c (chunks.map .data) =
      (match HTTPRequest.ofString (c.m_buffer ++ chunks.flatten) with
        | .ok req => .returned req
        | .error _ => .yielded,
        { c with m_buffer := c.m_buffer ++ chunks.flatten }) := by
  rw [readRequest_eq hopen, gathered_chunks hchunks]

/-! ## Writing -/

/-- The listed writes take a message of this length, and none fails or would block before. -/
def takesAll : Nat → List SysWrite → Bool
  | 0, _ => true
  | n + 1, .wrote count :: writes => takesAll (n + 1 - count) writes
  | _ + 1, [] | _ + 1, .wouldBlock :: _ | _ + 1, .failed _ :: _ => false

theorem writeResponse_returned {c : ConnectionAsync} (hopen : c.m_opened = true) (msg : Bytes)
    (writes : List SysWrite) :
    (writeResponse c msg writes).1 = .returned ↔ takesAll msg.length writes = true := by
  induction writes generalizing msg with
  | nil =>
      cases msg with
      | nil => exact iff_of_true rfl (by simp [takesAll])
      | cons b msg =>
          rw [writeResponse, if_neg (by simp), write_wouldBlock hopen]
          simp [takesAll]
  | cons sys writes ih =>
      cases msg with
      | nil => exact iff_of_true rfl (by simp [takesAll])
      | cons b msg =>
          rw [writeResponse, if_neg (by simp)]
          cases sys with
          | wouldBlock =>
              rw [write_wouldBlock hopen]
              simp [takesAll]
          | wrote count =>
              rw [write_wrote (s := ⟨c, 0⟩) hopen (Nat.zero_ne_add_one 10)]
              have hrest := ih ((b :: msg).drop (min count (b :: msg).length))
              have hlen : ((b :: msg).drop (min count (b :: msg).length)).length =
                  msg.length + 1 - count := by
                rw [List.length_drop, List.length_cons]
                omega
              rw [hlen] at hrest
              exact hrest
          | failed e =>
              by_cases he : e = EAGAIN
              · subst he
                have hsame : (write (b :: msg) (.failed EAGAIN)).run ⟨c, 0⟩ =
                    (write (b :: msg) .wouldBlock).run ⟨c, 0⟩ := rfl
                rw [hsame, write_wouldBlock hopen]
                simp [takesAll]
              · rw [write_failed hopen he]
                simp [takesAll]

/-- Without failures `writeResponse` suspends, or it is through and has cleared the buffer. -/
theorem writeResponse_cases {c : ConnectionAsync} (hopen : c.m_opened = true) (msg : Bytes)
    (writes : List SysWrite) (hwrites : ∀ w ∈ writes, ∀ e, w ≠ .failed e) :
    (∃ msg', writeResponse c msg writes = (.yielded msg', c)) ∨
      writeResponse c msg writes = (.returned, c.clearBuffer) := by
  induction writes generalizing msg with
  | nil =>
      by_cases hmsg : msg.length = 0
      · exact Or.inr (by rw [writeResponse, if_pos hmsg])
      · refine Or.inl ⟨msg, ?_⟩
        rw [writeResponse, if_neg hmsg, write_wouldBlock hopen]
        rfl
  | cons w writes ih =>
      by_cases hmsg : msg.length = 0
      · exact Or.inr (by rw [writeResponse, if_pos hmsg])
      · have hrest := fun msg' => ih msg' fun w' hw' => hwrites w' (List.mem_cons_of_mem w hw')
        rw [writeResponse, if_neg hmsg]
        cases w with
        | wrote count =>
            rw [write_wrote (s := ⟨c, 0⟩) hopen (Nat.zero_ne_add_one 10)]
            exact hrest _
        | wouldBlock =>
            refine Or.inl ⟨msg, ?_⟩
            rw [write_wouldBlock hopen]
            rfl
        | failed e => exact absurd rfl (hwrites (.failed e) List.mem_cons_self e)

/-! ## Whether the connection stays open -/

theorem readRequest_opened {c : ConnectionAsync} (hopen : c.m_opened = true)
    (reads : List SysRead) :
    (readRequest c reads).2.m_opened = true ∨
      (gathered reads).2 = .eof ∧
        (readRequest c reads).1 = .threw (.DescriptorError "Connection is closed!") := by
  rw [readRequest_eq hopen]
  cases (gathered reads).2 with
  | wouldBlock => exact Or.inl hopen
  | eof => exact Or.inr ⟨rfl, rfl⟩
  | failed => exact Or.inl hopen

/-- A coroutine meets the end of the stream when it waits in `readRequest`
and the reads stop there. -/
def MeetsEnd (frame : Frame) (script : Script) : Prop :=
  frame = .reading ∧ (gathered script.reads).2 = .eof

theorem afterWrite_opened {c : ConnectionAsync} (hopen : c.m_opened = true) (req : HTTPRequest)
    (called : Option HTTPRequest) (msg : Bytes) (writes : List SysWrite) :
    (afterWrite req called (writeResponse c msg writes)).c.m_opened = true ∨
      (afterWrite req called (writeResponse c msg writes)).ended = .returned := by
  have hresult := writeResponse_result c msg writes
  rcases hw : writeResponse c msg writes with ⟨ended, c'⟩
  rw [hw] at hresult
  cases ended with
  | yielded msg' =>
      have hc' : c' = c := hresult
      exact Or.inl (hc' ▸ hopen)
  | threw e =>
      have hc' : c' = c := hresult
      exact Or.inl (hc' ▸ hopen)
  | returned => exact Or.inr rfl

/-- A stretch leaves an open connection open, unless it returns, or ends by the exception of a read
behind the end of the stream. -/
theorem connectionCallback_opened {c : ConnectionAsync} (hopen : c.m_opened = true)
    (script : Script) (frame : Frame) :
    let s := connectionCallback c script frame
    s.c.m_opened = true ∨ s.ended = .returned ∨
      MeetsEnd frame script ∧ s.ended = .threw (.DescriptorError "Connection is closed!") := by
  cases frame with
  | writing req msg =>
      exact (afterWrite_opened hopen req none msg script.writes).imp_right Or.inl
  | reading =>
      have h := readRequest_opened hopen script.reads
      dsimp only
      unfold connectionCallback
      rcases hread : readRequest c script.reads with ⟨ended, c'⟩
      rw [hread] at h
      rcases h with hopen' | ⟨heof, hended⟩
      · cases ended with
        | yielded => exact Or.inl hopen'
        | threw e => exact Or.inl hopen'
        | returned req =>
            dsimp only
            cases script.onRequest req with
            | error e => exact Or.inl hopen'
            | ok resp =>
                exact (afterWrite_opened hopen' req (some req) resp.toString.1
                  script.writes).imp_right Or.inl
      · cases hended
        exact Or.inr (Or.inr ⟨⟨rfl, heof⟩, rfl⟩)

/-- Without a failing call or a throwing `onRequest`, a stretch throws only behind the end of the
stream, on a connection that is closed. -/
theorem connectionCallback_threw {c : ConnectionAsync} (hopen : c.m_opened = true) {script : Script}
    {frame : Frame} (hreads : ∀ e, .failed e ∉ script.reads)
    (hwrites : ∀ e, .failed e ∉ script.writes)
    (hanswers : ∀ req, ∃ resp, script.onRequest req = .ok resp) {e : Exception}
    (hthrew : (connectionCallback c script frame).ended = .threw e) :
    (connectionCallback c script frame).c.m_opened = false := by
  have hwrote :
    ∀ (c : ConnectionAsync) (req : HTTPRequest) (called : Option HTTPRequest) (msg : Bytes),
      c.m_opened = true →
        (afterWrite req called (writeResponse c msg script.writes)).ended ≠ .threw e := by
    intro c req called msg hopen hended
    rcases writeResponse_cases hopen msg script.writes (fun w hw e he => hwrites e (he ▸ hw)) with
      ⟨msg', hw⟩ | hw
    · rw [hw] at hended
      cases hended
    · rw [hw] at hended
      cases hended
  cases frame with
  | writing req msg => exact absurd hthrew (hwrote c req none msg hopen)
  | reading =>
      have hread := readRequest_eq hopen script.reads
      rw [connectionCallback] at hthrew ⊢
      cases hstop : (gathered script.reads).2 with
      | eof =>
          rw [hread, hstop]
      | failed => exact absurd hstop (gathered_ne_failed hreads)
      | wouldBlock =>
          rw [hread, hstop] at hthrew
          dsimp only at hthrew
          cases hparse : HTTPRequest.ofString (c.m_buffer ++ (gathered script.reads).1) with
          | error e' =>
              rw [hparse] at hthrew
              cases hthrew
          | ok req =>
              obtain ⟨resp, hresp⟩ := hanswers req
              rw [hparse] at hthrew
              dsimp only at hthrew
              rw [hresp] at hthrew
              exact absurd hthrew (hwrote _ req (some req) _ hopen)

/-- A coroutine that is suspended in `writeResponse` stays there until it has returned or thrown. -/
theorem connectionCallback_writing {c : ConnectionAsync} {script : Script} {req : HTTPRequest}
    {msg : Bytes} {frame : Frame}
    (hyields : (connectionCallback c script (.writing req msg)).ended = .yielded frame) :
    ∃ msg', frame = .writing req msg' := by
  rw [connectionCallback] at hyields
  rcases hw : writeResponse c msg script.writes with ⟨ended, c'⟩
  rw [hw] at hyields
  cases ended with
  | yielded msg' =>
      cases hyields
      exact ⟨msg', rfl⟩
  | returned => cases hyields
  | threw e => cases hyields

/-! ## Serving a request -/

/-- A request is not empty. -/
theorem ofString_nil (req : HTTPRequest) : HTTPRequest.ofString [] ≠ .ok req := by
  intro h
  obtain ⟨x, -, hbytes, -⟩ := (ofString_eq_ok_iff [] req).mp h
  have hlen := congrArg List.length hbytes
  simp [RequestText.bytes, CRLF] at hlen

/-- The environment lets a stretch serve a request that asks for the connection to be kept: the
request is there, or was before, `onRequest` answers it, and the writes take all that is left of the
answer. -/
def CanServe (buffer : Bytes) (script : Script) : Frame → Prop
  | .reading => (gathered script.reads).2 = .wouldBlock ∧ ∃ req resp,
      HTTPRequest.ofString (buffer ++ (gathered script.reads).1) = .ok req ∧
        script.onRequest req = .ok resp ∧ takesAll resp.toString.1.length script.writes = true ∧
        req.doKeepAlive = true
  | .writing req msg => takesAll msg.length script.writes = true ∧ req.doKeepAlive = true

theorem afterWrite_serves {c : ConnectionAsync} (hopen : c.m_opened = true) {req : HTTPRequest}
    {called : Option HTTPRequest} {msg : Bytes} {writes : List SysWrite}
    (hreturned : (afterWrite req called (writeResponse c msg writes)).ended = .returned)
    (hopen' : (afterWrite req called (writeResponse c msg writes)).c.m_opened = true) :
    takesAll msg.length writes = true ∧ req.doKeepAlive = true := by
  have hresult := writeResponse_result c msg writes
  have hall := writeResponse_returned hopen msg writes
  rcases hw : writeResponse c msg writes with ⟨ended, c'⟩
  rw [hw] at hresult hall hreturned hopen'
  cases ended with
  | yielded msg' => cases hreturned
  | threw e => cases hreturned
  | returned =>
      have hc' : c' = c.clearBuffer := hresult
      refine ⟨hall.mp rfl, ?_⟩
      cases hka : req.doKeepAlive with
      | true => rfl
      | false => simp [afterWrite, hka, hc', close, clearBuffer, isOpened, hopen] at hopen'

/-- A stretch that returns with its connection open has served a request. -/
theorem connectionCallback_serves {c : ConnectionAsync} (hopen : c.m_opened = true)
    {script : Script} {frame : Frame}
    (hreturned : (connectionCallback c script frame).ended = .returned)
    (hopen' : (connectionCallback c script frame).c.m_opened = true) :
    CanServe c.m_buffer script frame := by
  cases frame with
  | writing req msg => exact afterWrite_serves hopen hreturned hopen'
  | reading =>
      have hread := readRequest_eq hopen script.reads
      rw [connectionCallback] at hreturned hopen'
      cases hstop : (gathered script.reads).2 with
      | eof =>
          rw [hread, hstop] at hreturned
          cases hreturned
      | failed =>
          rw [hread, hstop] at hreturned
          cases hreturned
      | wouldBlock =>
          rw [hread, hstop] at hreturned hopen'
          dsimp only at hreturned hopen'
          cases hparse : HTTPRequest.ofString (c.m_buffer ++ (gathered script.reads).1) with
          | error e =>
              rw [hparse] at hreturned
              cases hreturned
          | ok req =>
              rw [hparse] at hreturned hopen'
              dsimp only at hreturned hopen'
              cases hcall : script.onRequest req with
              | error e =>
                  rw [hcall] at hreturned
                  cases hreturned
              | ok resp =>
                  rw [hcall] at hreturned hopen'
                  have hbuffered : ({ c with m_buffer := c.m_buffer ++ (gathered script.reads).1 } :
                      ConnectionAsync).m_opened = true := hopen
                  obtain ⟨hall, hka⟩ := afterWrite_serves hbuffered hreturned hopen'
                  exact ⟨hstop, req, resp, hparse, hcall, hall, hka⟩

theorem afterWrite_buffer {c : ConnectionAsync} {req : HTTPRequest} {called : Option HTTPRequest}
    {msg : Bytes} {writes : List SysWrite}
    (hnot : (afterWrite req called (writeResponse c msg writes)).ended ≠ .returned) :
    (afterWrite req called (writeResponse c msg writes)).c = c := by
  have hresult := writeResponse_result c msg writes
  rcases hw : writeResponse c msg writes with ⟨ended, c'⟩
  rw [hw] at hresult hnot
  cases ended with
  | yielded msg' => exact hresult
  | threw e => exact hresult
  | returned => exact absurd rfl hnot

/-- The ways in which a stretch can leave its connection open with an empty buffer: it has served a
request, or there was nothing in the buffer and the first read has brought nothing. -/
theorem connectionCallback_empty {c : ConnectionAsync} (hopen : c.m_opened = true) {script : Script}
    {frame : Frame} (hbuffer : frame ≠ .reading → c.m_buffer ≠ [])
    (hopen' : (connectionCallback c script frame).c.m_opened = true)
    (hempty : (connectionCallback c script frame).c.m_buffer = []) :
    let s := connectionCallback c script frame
    (s.ended = .returned ∧ CanServe c.m_buffer script frame) ∨
      frame = .reading ∧ c.m_buffer = [] ∧
        (gathered script.reads = ([], .wouldBlock) ∨
          gathered script.reads = ([], .failed) ∧ ∃ e, s.ended = .threw e) := by
  by_cases hreturned : (connectionCallback c script frame).ended = .returned
  · exact Or.inl ⟨hreturned, connectionCallback_serves hopen hreturned hopen'⟩
  right
  cases frame with
  | writing req msg =>
      rw [connectionCallback, afterWrite_buffer hreturned] at hempty
      exact absurd hempty (hbuffer (by simp))
  | reading =>
      have hread := readRequest_eq hopen script.reads
      rw [connectionCallback] at hreturned hopen' hempty ⊢
      rcases hg : gathered script.reads with ⟨bytes, stop⟩
      rw [hg] at hread
      cases stop with
      | eof =>
          rw [hread] at hopen'
          cases hopen'
      | failed =>
          rw [hread] at hempty ⊢
          obtain ⟨hc, rfl⟩ := List.append_eq_nil_iff.mp hempty
          exact ⟨rfl, hc, Or.inr ⟨rfl, _, rfl⟩⟩
      | wouldBlock =>
          rw [hread] at hreturned hempty
          dsimp only at hreturned hempty
          cases hparse : HTTPRequest.ofString (c.m_buffer ++ bytes) with
          | error e =>
              rw [hparse] at hempty
              obtain ⟨hc, rfl⟩ := List.append_eq_nil_iff.mp hempty
              exact ⟨rfl, hc, Or.inl rfl⟩
          | ok req =>
              -- a request was found, so the buffer is not empty before everything is written
              have hne : c.m_buffer ++ bytes ≠ [] := by
                intro hnil
                exact ofString_nil req (hnil ▸ hparse)
              rw [hparse] at hreturned hempty
              dsimp only at hreturned hempty
              cases hcall : script.onRequest req with
              | error e =>
                  rw [hcall] at hempty
                  exact absurd hempty hne
              | ok resp =>
                  rw [hcall] at hreturned hempty
                  dsimp only at hreturned hempty
                  rw [afterWrite_buffer hreturned] at hempty
                  exact absurd hempty hne

end HTTP
end AdvCppHW
