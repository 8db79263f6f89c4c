import AdvCppHW.HTTP.Resumption

/-!
# Reading a request that arrives in pieces

`readRequest` parses the buffer each time its socket would block, and takes an `ArgumentError`
for "not all of it has arrived".  This is right because the accepted language is prefix-free
once nothing follows the body.

* `ofString_strictPrefix` — no strict prefix of a complete request is accepted.
* `readRequest_fragmented` — the request is returned when its last byte has been read, however
  it was cut, and not earlier.
-/

namespace AdvCppHW
namespace HTTP

open Support ConnectionAsync

/-! ## Prefixes of a complete request -/

/-- The first blank line is at the very end. -/
def EndsAtBlankLine (s : Bytes) : Prop := find s (CRLF ++ CRLF) 0 = some (s.length - 4)

instance (s : Bytes) : Decidable (EndsAtBlankLine s) :=
  inferInstanceAs (Decidable (_ = _))

/-- `s` is accepted as `req`, and nothing follows the body. -/
structure IsComplete (s : Bytes) (req : HTTPRequest) : Prop where
  accepted : HTTPRequest.ofString s = .ok req
  nothingFollows : req.m_headers.lookup ContentLength = none → EndsAtBlankLine s

/-- The fields of a denoted request, but for the body. -/
theorem fields_of_request {x : RequestText} {req : HTTPRequest} (h : x.request = some req) :
    req.m_method = x.method ∧ req.m_reqTarget = x.target ∧ req.m_version = x.version ∧
      req.m_headers = OrdMap.empty.assignAll (x.lines.map splitHeader) := by
  unfold RequestText.request HTTPMessage.storeBody at h
  cases hcl : (x.parsed {}).m_headers.lookup ContentLength with
  | none =>
      rw [hcl] at h
      cases h
      exact ⟨rfl, rfl, rfl, rfl⟩
  | some v =>
      rw [hcl] at h
      by_cases hlen : x.rest.length = HTTPMessage.bodySize v
      · simp only [hlen, if_true, Option.map_some] at h
        cases h
        exact ⟨rfl, rfl, rfl, rfl⟩
      · simp [hlen] at h

theorem headers_of_request {x : RequestText} {req : HTTPRequest} (h : x.request = some req) :
    req.m_headers = OrdMap.empty.assignAll (x.lines.map splitHeader) :=
  (fields_of_request h).2.2.2

/-- With a length among the headers, what follows the blank line has that length. -/
theorem length_rest_of_request {x : RequestText} {req : HTTPRequest} {v : Bytes}
    (h : x.request = some req) (hcl : req.m_headers.lookup ContentLength = some v) :
    x.rest.length = HTTPMessage.bodySize v := by
  have hparsed : (x.parsed {}).m_headers.lookup ContentLength = some v := by
    rw [← hcl, headers_of_request h]
    rfl
  unfold RequestText.request HTTPMessage.storeBody at h
  rw [hparsed] at h
  by_contra hlen
  simp [hlen] at h

theorem bytes_append (x : RequestText) (q : Bytes) :
    x.bytes ++ q = { x with rest := x.rest ++ q }.bytes := by
  simp [RequestText.bytes, RequestText.startLine]

theorem RequestText.Valid.withRest {x : RequestText} (hx : x.Valid) (rest : Bytes) :
    { x with rest := rest }.Valid :=
  ⟨hx.startLine, hx.method, hx.target, hx.protocol, hx.lines⟩

/-- Start line and header lines, with their line breaks, end in a line break. -/
theorem exists_head_CRLF (x : RequestText) :
    ∃ h, x.startLine ++ (CRLF ++ block x.lines) = h ++ CRLF := by
  rcases List.eq_nil_or_concat x.lines with hnil | ⟨lines, line, hlines⟩
  · exact ⟨x.startLine, by simp [hnil]⟩
  · exact ⟨x.startLine ++ (CRLF ++ (block lines ++ line)), by simp [hlines, block]⟩

/-- A blank line that is the first one and the end of the text leaves nothing to follow. -/
theorem rest_eq_nil_of_endsAtBlankLine {x : RequestText} (h : EndsAtBlankLine x.bytes) :
    x.rest = [] := by
  obtain ⟨head, hhead⟩ := exists_head_CRLF x
  have hbytes : x.bytes = head ++ ((CRLF ++ CRLF) ++ x.rest) := by
    rw [RequestText.bytes]
    calc x.startLine ++ (CRLF ++ (block x.lines ++ (CRLF ++ x.rest)))
        = (x.startLine ++ (CRLF ++ block x.lines)) ++ (CRLF ++ x.rest) := by simp
      _ = head ++ ((CRLF ++ CRLF) ++ x.rest) := by rw [hhead]; simp
  have hlen : x.bytes.length = head.length + 4 + x.rest.length := by
    rw [hbytes]
    simp [CRLF]
    omega
  rw [EndsAtBlankLine, find, findFrom, if_pos (Nat.zero_le _), List.drop_zero,
    Option.map_eq_some_iff] at h
  obtain ⟨i, hi, hend⟩ := h
  have hfirst : i ≤ head.length := by
    rw [hbytes] at hi
    exact indexOf?_le hi
  exact List.length_eq_zero_iff.mp (by omega)

/-- When nothing follows the body, an accepted prefix of a text is the whole text. -/
theorem eq_bytes_of_prefix_accepted {x : RequestText} {p : Bytes} {req req' : HTTPRequest}
    (hx : x.Valid) (hreq : x.request = some req)
    (hrest : req.m_headers.lookup ContentLength = none → x.rest = [])
    (hp : HTTPRequest.ofString p = .ok req') (hpre : p <+: x.bytes) : p = x.bytes := by
  obtain ⟨y, hy, rfl, hreq'⟩ := (ofString_eq_ok_iff p req').mp hp
  obtain ⟨q, hq⟩ := hpre
  -- the two texts differ in what follows the blank line only
  have hxy : { y with rest := y.rest ++ q } = x := by
    refine RequestText.bytes_inj (hy.withRest _) hx ?_
    rw [← bytes_append, hq]
  have hheaders : req.m_headers = req'.m_headers := by
    rw [headers_of_request hreq, headers_of_request hreq', ← hxy]
  have happend : x.rest = y.rest ++ q := by rw [← hxy]
  have hnil : q = [] := by
    cases hcl : req.m_headers.lookup ContentLength with
    | none =>
        have hempty := hrest hcl
        rw [happend] at hempty
        exact (List.append_eq_nil_iff.mp hempty).2
    | some v =>
        have hlen := length_rest_of_request hreq hcl
        have hlen' := length_rest_of_request hreq' (hheaders ▸ hcl)
        rw [happend, List.length_append] at hlen
        exact List.length_eq_zero_iff.mp (by omega)
  rw [← hq, hnil, List.append_nil]

/-- Every strict prefix of a complete request is rejected, with an `ArgumentError`. -/
theorem ofString_strictPrefix {s p : Bytes} {req : HTTPRequest} (hs : IsComplete s req)
    (hpre : p <+: s) (hne : p ≠ s) :
    ∃ info, HTTPRequest.ofString p = .error (.ArgumentError info) := by
  cases hp : HTTPRequest.ofString p with
  | ok req' =>
      obtain ⟨x, hx, rfl, hreq⟩ := (ofString_eq_ok_iff s req).mp hs.accepted
      exact absurd (eq_bytes_of_prefix_accepted hx hreq
        (fun hcl => rest_eq_nil_of_endsAtBlankLine (hs.nothingFollows hcl)) hp hpre) hne
  | error e =>
      obtain ⟨info, rfl⟩ := ofString_error hp
      exact ⟨info, rfl⟩

/-! ## All resumptions -/

/-- `readRequest` over several resumptions, each with the outcomes of its reads before the one that
would block; `yielded` means that it has not returned yet. -/
def readRequestResumed (c : ConnectionAsync) :
    List (List SysRead) → StretchEnd HTTPRequest × ConnectionAsync
  | [] => (.yielded, c)
  | reads :: later =>
      match readRequest c reads with
      | (.yielded, c') => readRequestResumed c' later
      | (.returned req, c') => (.returned req, c')
      | (.threw e, c') => (.threw e, c')

/-- A chunk that one read of `readRequest` can deliver. -/
def IsChunk (chunk : Bytes) : Prop := 1 ≤ chunk.length ∧ chunk.length ≤ readSize

theorem IsChunk.ne_nil {chunk : Bytes} (h : IsChunk chunk) : chunk ≠ [] := by
  rintro rfl
  exact absurd h.1 (by decide)

/-- The read outcomes of chunks grouped by resumption. -/
def arrivals (segments : List (List Bytes)) : List (List SysRead) := segments.map (·.map .data)

/-- As long as the buffer is rejected after every resumption, `readRequest` waits. -/
theorem readRequestResumed_waiting {c : ConnectionAsync} (hopen : c.m_opened = true)
    (segments : List (List Bytes)) (later : List (List SysRead))
    (hchunks : ∀ segment ∈ segments, ∀ chunk ∈ segment, IsChunk chunk)
    (hreject : ∀ n ≤ segments.length,
      ∃ e, HTTPRequest.ofString (c.m_buffer ++ (segments.take n).flatten.flatten) = .error e) :
    readRequestResumed c (arrivals segments ++ later) =
      readRequestResumed { c with m_buffer := c.m_buffer ++ segments.flatten.flatten } later := by
  induction segments generalizing c with
  | nil => simp [arrivals]
  | cons segment segments ih =>
      have hne := fun chunk h => (hchunks segment List.mem_cons_self chunk h).ne_nil
      obtain ⟨e, he⟩ := hreject 1 (by simp)
      simp only [List.take_succ_cons, List.take_zero, List.flatten_cons, List.flatten_nil,
        List.append_nil] at he
      have hrest := ih (c := { c with m_buffer := c.m_buffer ++ segment.flatten }) hopen
        (fun segment' h => hchunks segment' (List.mem_cons_of_mem segment h))
        (fun n hn => by
          obtain ⟨e', he'⟩ := hreject (n + 1) (Nat.succ_le_succ hn)
          exact ⟨e', by simpa using he'⟩)
      rw [arrivals, List.map_cons, List.cons_append, readRequestResumed,
        readRequest_arrivals hopen segment hne, he]
      simp only [List.append_assoc] at hrest
      simpa [arrivals] using hrest

/-- What has arrived of a complete request before its last chunks is rejected. -/
theorem segments_rejected {s : Bytes} {req : HTTPRequest} (hs : IsComplete s req)
    {segments : List (List Bytes)} {last : List Bytes} (hlast : last.flatten ≠ [])
    (hsplit : (segments ++ [last]).flatten.flatten = s) (n : Nat) :
    ∃ e, HTTPRequest.ofString (segments.take n).flatten.flatten = .error e := by
  have hsegments : segments.flatten.flatten =
      (segments.take n).flatten.flatten ++ (segments.drop n).flatten.flatten := by
    rw [← List.flatten_append, ← List.flatten_append, List.take_append_drop]
  have hcut : s = (segments.take n).flatten.flatten ++
      ((segments.drop n).flatten.flatten ++ last.flatten) := by
    rw [← hsplit, ← List.append_assoc, ← hsegments]
    simp
  have hne : (segments.take n).flatten.flatten ≠ s := by
    intro heq
    have hlen := congrArg List.length hcut
    rw [heq, List.length_append, List.length_append] at hlen
    exact hlast (List.length_eq_zero_iff.mp (by omega))
  obtain ⟨info, hinfo⟩ := ofString_strictPrefix hs ⟨_, hcut.symm⟩ hne
  exact ⟨_, hinfo⟩

theorem flatten_ne_nil_of_chunks {last : List Bytes} (hlast : last ≠ [])
    (hchunks : ∀ chunk ∈ last, IsChunk chunk) : last.flatten ≠ [] := by
  obtain ⟨chunk, hchunk⟩ := List.exists_mem_of_ne_nil last hlast
  intro hnil
  exact (hchunks chunk hchunk).ne_nil (List.flatten_eq_nil_iff.mp hnil chunk hchunk)

/-- **Fragmentation independence.**  A complete request arrives in chunks, with would-blocks
anywhere between them and one after the last chunk.  Up to that one `readRequest` waits with what
has arrived in the buffer; then it returns what the constructor makes of the whole text. -/
theorem readRequest_fragmented {s : Bytes} {req : HTTPRequest} (hs : IsComplete s req)
    {c : ConnectionAsync} (hopen : c.m_opened = true) (hempty : c.m_buffer = [])
    {segments : List (List Bytes)} {last : List Bytes} (hlast : last ≠ [])
    (hchunks : ∀ segment ∈ segments ++ [last], ∀ chunk ∈ segment, IsChunk chunk)
    (hsplit : (segments ++ [last]).flatten.flatten = s) :
    (∀ n ≤ segments.length,
      readRequestResumed c (arrivals (segments.take n)) =
        (.yielded, { c with m_buffer := (segments.take n).flatten.flatten })) ∧
    readRequestResumed c (arrivals (segments ++ [last])) =
      (.returned req, { c with m_buffer := s }) ∧
    ∀ p, p <+: s → p ≠ s → ∃ info, HTTPRequest.ofString p = .error (.ArgumentError info) := by
  have hinit : ∀ segment ∈ segments, ∀ chunk ∈ segment, IsChunk chunk :=
    fun segment h => hchunks segment (List.mem_append_left _ h)
  have hlastChunks : ∀ chunk ∈ last, IsChunk chunk := hchunks last (by simp)
  have hcut : s = segments.flatten.flatten ++ last.flatten := by
    rw [← hsplit]
    simp
  -- what has arrived before the last segment is a strict prefix
  have hreject : ∀ n ≤ segments.length,
      ∃ e, HTTPRequest.ofString (c.m_buffer ++ (segments.take n).flatten.flatten) = .error e := by
    intro n _
    rw [hempty, List.nil_append]
    exact segments_rejected hs (flatten_ne_nil_of_chunks hlast hlastChunks) hsplit n
  refine ⟨fun n hn => ?_, ?_, fun p => ofString_strictPrefix hs⟩
  · have hwait := readRequestResumed_waiting hopen (segments.take n) []
      (fun segment h => hinit segment (List.mem_of_mem_take h))
      (fun m hm => by
        obtain ⟨e, he⟩ := hreject (min m n) (by omega)
        exact ⟨e, by rw [List.take_take, he]⟩)
    simpa [hempty, readRequestResumed] using hwait
  · have hwait := readRequestResumed_waiting hopen segments (arrivals [last]) hinit hreject
    have hfinal := readRequest_arrivals (c := { c with m_buffer := segments.flatten.flatten }) hopen
      last (fun chunk h => (hlastChunks chunk h).ne_nil)
    rw [arrivals, List.map_append, ← arrivals, ← arrivals, hwait, hempty, List.nil_append, arrivals,
      List.map_singleton, readRequestResumed, hfinal, ← hcut, hs.accepted]

/-- A request with a body in three chunks; the socket would block inside the first line and before
the body. -/
theorem readRequest_fragmented_post :
    readRequestResumed (ofFD 5 0)
        (arrivals ([[ascii "PO"], [ascii "ST / HTTP/1.1\r\nContent-Length: 2\r\n\r\n"]] ++
          [[ascii "o", ascii "k"]])) =
      (.returned
        { m_method := ascii "POST", m_reqTarget := ascii "/", m_version := ascii "1.1"
          m_headers := OrdMap.empty.assign ContentLength (ascii "2"), m_body := ascii "ok" },
        { ofFD 5 0 with
          m_buffer := ascii "POST / HTTP/1.1\r\nContent-Length: 2\r\n\r\nok" }) := by
  refine (readRequest_fragmented ⟨?_, ?_⟩ ?_ ?_ ?_ ?_ ?_).2.1
  · decide +kernel
  · intro h
    exact absurd h (by decide)
  · rfl
  · rfl
  · decide
  · unfold IsChunk readSize
    decide
  · decide

end HTTP
end AdvCppHW
