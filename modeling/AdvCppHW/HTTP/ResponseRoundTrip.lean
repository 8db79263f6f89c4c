import AdvCppHW.HTTP.MessageRoundTrip
import AdvCppHW.HTTP.ResponseGrammar

/-!
# Serialising and parsing a response

`ResponseText` is a response text cut at the delimiters `fromString` searches for, and
`ResponseText.Valid` says that each search lands on its delimiter.

* `readStatusLine_statusLine`, `response_fromString_bytes` — the run of
  `fromString` on a valid text.
* `stoi_to_stringInt` — every status code is read back from its decimal digits.
* `response_toString_valid` — `toString` writes a valid text, also for a
  code without a reason phrase.
* `responseRoundTrip` — parsing what `toString` wrote gives the response back.
-/

namespace AdvCppHW
namespace HTTP

open Support HTTPMessage

/-! ## Valid texts -/

/-- A response text cut at the delimiters the parser searches for. -/
structure ResponseText where
  protocol : Bytes
  version : Bytes
  code : Bytes
  phrase : Bytes
  lines : List Bytes
  rest : Bytes

namespace ResponseText

/-- Protocol and version: what stands in front of the first blank. -/
def protocolVersion (x : ResponseText) : Bytes := x.protocol ++ (SLASH ++ x.version)

def statusLine (x : ResponseText) : Bytes :=
  x.protocolVersion ++ (SP ++ (x.code ++ (SP ++ x.phrase)))

def bytes (x : ResponseText) : Bytes := messageBytes x.statusLine x.lines x.rest

/-- Each delimiter is the first one where the parser looks for it. -/
structure Valid (x : ResponseText) : Prop where
  statusLine : ¬ CRLF <:+: x.statusLine
  protocol : ¬ SLASH <:+: x.protocol
  /-- The first blank is searched from the start of the line. -/
  version : ¬ SP <:+: x.protocolVersion
  code : ¬ SP <:+: x.code
  lines : ∀ l ∈ x.lines, IsHeaderLine l

/-- The response as it is when the header block has been read. -/
def parsed (x : ResponseText) (code : StatusCode) (r : HTTPResponse) : HTTPResponse :=
  { r with
    m_version := x.version
    m_statusCode := code
    m_headers := r.m_headers.assignAll (x.lines.map splitHeader) }

end ResponseText

theorem versionSlice_protocolVersion (x : ResponseText) (tail : Bytes) :
    versionSlice x.protocol (x.version ++ tail) x.protocolVersion = x.version := by
  have hsize : x.protocolVersion.length = x.protocol.length + 1 + x.version.length := by
    simp [ResponseText.protocolVersion, SLASH]
    omega
  -- the blank is behind the slash, so this difference does not wrap
  have hsub : wrapSub x.protocolVersion.length (x.protocol.length + 1) = x.version.length := by
    rw [wrapSub, if_pos (by omega), hsize]
    omega
  rw [versionSlice, hsub, List.take_left]

theorem readStatusLine_statusLine {x : ResponseText} (hx : x.Valid) {code : StatusCode}
    (hcode : ∀ st : HTTPResponse, (stoi x.code).run st = .ok code st) (r : HTTPResponse) :
    (HTTPResponse.readStatusLine x.statusLine).run r =
      .ok () { r with m_version := x.version, m_statusCode := code } := by
  have hslash : x.statusLine =
      x.protocol ++ (SLASH ++ (x.version ++ (SP ++ (x.code ++ (SP ++ x.phrase))))) := by
    simp [ResponseText.statusLine, ResponseText.protocolVersion]
  rw [readStatusLine_found hslash hx.protocol rfl hx.version rfl hx.code r,
    versionSlice_protocolVersion, hcode]

/-- On a valid text whose code is a number only the length of the body can fail. -/
theorem response_fromString_bytes {x : ResponseText} (hx : x.Valid) {code : StatusCode}
    (hcode : ∀ st : HTTPResponse, (stoi x.code).run st = .ok code st) (r : HTTPResponse) :
    (HTTPResponse.fromString x.bytes).run r =
      match (x.parsed code r).toHTTPMessage.storeBody x.rest with
      | some m => .ok () { x.parsed code r with toHTTPMessage := m }
      | none => .error (.ArgumentError "Invalid string passed!") (x.parsed code r) :=
  response_fromString_messageBytes hx.statusLine hx.lines x.rest
    (readStatusLine_statusLine hx hcode r)

/-! ## Numbers of a status line -/

theorem to_stringInt_cases (v : Int) :
    to_stringInt v = to_string v.natAbs ∧ v = v.natAbs ∨
      to_stringInt v = 45 :: to_string v.natAbs ∧ v = -(v.natAbs : Int) := by
  unfold to_stringInt
  by_cases hv : v < 0
  · rw [if_pos hv]
    exact Or.inr ⟨rfl, by omega⟩
  · rw [if_neg hv]
    exact Or.inl ⟨rfl, by omega⟩

/-- Every `int` is read back from its digits. -/
theorem stoi_to_stringInt {σ : Type} {v : Int} (hlo : -2 ^ 31 ≤ v) (hhi : v < 2 ^ 31) (st : σ) :
    (stoi (to_stringInt v)).run st = .ok v st := by
  have hdigits := to_string_allDigits v.natAbs
  have hne := to_string_ne_nil v.natAbs
  have hvalue := digitsValue_to_string v.natAbs
  rcases to_stringInt_cases v with ⟨htext, hsign⟩ | ⟨htext, hsign⟩
  · rw [htext, stoi_of_allDigits hdigits hne (by omega), hvalue, ← hsign]
  · rw [htext, stoi_neg_of_allDigits hdigits hne (by omega), hvalue, ← hsign]

/-- A printed number contains no byte but digits and the minus sign. -/
theorem not_mem_to_stringInt {b : UInt8} (hdigit : isDigit b = false) (hminus : b ≠ 45) (v : Int) :
    b ∉ to_stringInt v := by
  have hdigits : b ∉ to_string v.natAbs := by
    intro h
    rw [to_string_allDigits _ b h] at hdigit
    cases hdigit
  rcases to_stringInt_cases v with ⟨htext, -⟩ | ⟨htext, -⟩
  · rwa [htext]
  · rw [htext]
    simp [hminus, hdigits]

/-- A literal is looked at character by character, so that its UTF-8 need not be decoded. -/
theorem not_CRLF_infix_ascii (l : List Char) (h : 13 ∉ l.map byteOfChar) :
    ¬ CRLF <:+: ascii (String.ofList l) := by
  intro hin
  have hmem : (13 : UInt8) ∈ ascii (String.ofList l) := hin.subset (by decide)
  rw [ascii, String.toList_ofList] at hmem
  exact h hmem

/-- No reason phrase contains a line break. -/
theorem not_CRLF_infix_getCodeMessage (code : StatusCode) : ¬ CRLF <:+: getCodeMessage code := by
  unfold getCodeMessage
  split
  any_goals
    apply not_CRLF_infix_ascii
    decide
  -- no phrase for any other code
  decide

/-! ## The round trip -/

/-- A response whose fields can be told apart in its text. -/
structure HTTPResponse.WellFormed (r : HTTPResponse) : Prop where
  /-- The underlying type of the enumeration is `int`. -/
  statusCode : -2 ^ 31 ≤ r.m_statusCode ∧ r.m_statusCode < 2 ^ 31
  version_noSpace : ¬ SP <:+: r.m_version
  version_noBreak : ¬ CRLF <:+: r.m_version
  message : r.toHTTPMessage.WellFormed

/-- The fields can be told apart in the text, whatever the header of the length says. -/
structure HTTPResponse.Delimited (r : HTTPResponse) : Prop where
  statusCode : -2 ^ 31 ≤ r.m_statusCode ∧ r.m_statusCode < 2 ^ 31
  version_noSpace : ¬ SP <:+: r.m_version
  version_noBreak : ¬ CRLF <:+: r.m_version
  message : r.toHTTPMessage.Delimited

theorem HTTPResponse.WellFormed.delimited {r : HTTPResponse} (hr : r.WellFormed) : r.Delimited :=
  ⟨hr.statusCode, hr.version_noSpace, hr.version_noBreak, hr.message.delimited⟩

/-- The text `toString` writes, cut at its delimiters. -/
def HTTPResponse.text (r : HTTPResponse) : ResponseText where
  protocol := protocolHTTP
  version := r.m_version
  code := to_stringInt r.m_statusCode
  phrase := getCodeMessage r.m_statusCode
  lines := r.sentHeaders.entries.map headerLine
  rest := r.m_body

theorem response_toString_eq_bytes (r : HTTPResponse) : r.toString.1 = r.text.bytes := by
  simp [HTTPResponse.toString, withContentLength_eq, getHeaders_eq_block, ResponseText.bytes,
    messageBytes, ResponseText.statusLine, ResponseText.protocolVersion, HTTPResponse.text]

theorem response_toString_valid {r : HTTPResponse} (hr : r.Delimited) : r.text.Valid where
  statusLine := by
    intro h
    rcases infix_append_cons (by decide) (by decide) h with h | h
    · rcases infix_append_cons (a := protocolHTTP) (c := 47) (b := r.m_version) (by decide)
        (by decide) h with h | h
      · exact absurd h (by decide)
      · exact hr.version_noBreak h
    · rcases infix_append_cons (by decide) (by decide) h with h | h
      · have hmem : (13 : UInt8) ∈ to_stringInt r.m_statusCode := h.subset (by decide)
        exact not_mem_to_stringInt (by decide) (by decide) _ hmem
      · exact not_CRLF_infix_getCodeMessage _ h
  protocol := by
    show ¬ SLASH <:+: protocolHTTP
    decide
  version := by
    intro h
    rcases infix_append_cons (a := protocolHTTP) (c := 47) (b := r.m_version) (by decide)
      (by decide) h with h | h
    · exact absurd h (by decide)
    · exact hr.version_noSpace h
  code := by
    intro h
    have hmem : (32 : UInt8) ∈ to_stringInt r.m_statusCode := h.subset (by decide)
    exact not_mem_to_stringInt (by decide) (by decide) _ hmem
  lines := fun _ hl => sentHeaders_isHeaderLine hr.message hl

theorem response_parsed_text {r : HTTPResponse} (hr : r.Delimited) :
    r.text.parsed r.m_statusCode {} = { r with m_headers := r.sentHeaders, m_body := [] } := by
  have hheaders : OrdMap.empty.assignAll (r.text.lines.map splitHeader) = r.sentHeaders :=
    assignAll_sentHeaders hr.message
  simp only [ResponseText.parsed, hheaders]
  rfl

/-- What is parsed from the text of a response. -/
theorem ofString_response_of_delimited {r : HTTPResponse} (hr : r.Delimited)
    (hbody : r.toHTTPMessage.Announced) :
    HTTPResponse.ofString r.toString.1 = .ok { r with m_headers := r.sentHeaders } := by
  have hcode : ∀ st : HTTPResponse, (stoi r.text.code).run st = .ok r.m_statusCode st :=
    fun st => stoi_to_stringInt hr.statusCode.1 hr.statusCode.2 st
  have hstored := hbody
  rw [HTTPMessage.Announced] at hstored
  have hrest : r.text.rest = r.m_body := rfl
  rw [HTTPResponse.ofString, response_toString_eq_bytes,
    response_fromString_bytes (response_toString_valid hr) hcode, response_parsed_text hr, hrest]
  simp only [hstored]

/-- **Response round trip.**  Parsing what `toString` wrote gives the response back, with the length
of its body among the headers where it was missing and the body is not empty. -/
theorem responseRoundTrip (r : HTTPResponse) (hr : r.WellFormed) :
    HTTPResponse.ofString r.toString.1 =
      .ok { r with
        m_headers :=
          if r.m_headers.lookup ContentLength = none ∧ r.m_body ≠ [] then
            r.m_headers.assign ContentLength (to_string r.m_body.length)
          else
            r.m_headers } :=
  ofString_response_of_delimited hr.delimited hr.message.announced

/-- A response with a negative code, which has no reason phrase, a version with a slash and a body
that looks like a header. -/
def oddResponse : HTTPResponse where
  m_version := ascii "1/1"
  m_headers := OrdMap.empty.assignAll [(ascii "A:", ascii " v\r")]
  m_body := ascii "B: w\r\n"
  m_statusCode := -7

theorem oddResponse_wellFormed : oddResponse.WellFormed where
  statusCode := by decide
  version_noSpace := by decide
  version_noBreak := by decide
  message :=
    { names := by decide
      values := by decide
      contentLength := by
        intro v hv
        have hnone : oddResponse.m_headers.lookup ContentLength = none := by decide
        rw [hnone] at hv
        cases hv
      body_size := by decide }

theorem responseRoundTrip_oddResponse :
    HTTPResponse.ofString oddResponse.toString.1 =
      .ok { oddResponse with
        m_headers := oddResponse.m_headers.assign ContentLength (ascii "6") } :=
  (responseRoundTrip oddResponse oddResponse_wellFormed).trans (by decide)

end HTTP
end AdvCppHW
