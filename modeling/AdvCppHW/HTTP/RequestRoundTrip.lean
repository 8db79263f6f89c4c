import AdvCppHW.HTTP.MessageRoundTrip

/-!
# Serialising and parsing a request

`toString` writes a valid request text (`toString_valid`) that denotes the request it was called on
(`toString_request`), so parsing the text gives the request back (`ofString_toString`).
-/

namespace AdvCppHW
namespace HTTP

open Support HTTPMessage

/-- A request whose fields can be told apart in its text: none contains the delimiter
that ends it.  Names may end in `':'` and values in a lone carriage return; nothing is
asked of the body's bytes. -/
structure HTTPRequest.WellFormed (r : HTTPRequest) : Prop where
  method_noSpace : ¬ SP <:+: r.m_method
  method_noBreak : ¬ CRLF <:+: r.m_method
  target_noSpace : ¬ SP <:+: r.m_reqTarget
  target_noBreak : ¬ CRLF <:+: r.m_reqTarget
  version_noBreak : ¬ CRLF <:+: r.m_version
  names : ∀ e ∈ r.m_headers.entries, ¬ COLON <:+: e.1 ∧ ¬ CRLF <:+: e.1
  values : ∀ e ∈ r.m_headers.entries, ¬ CRLF <:+: e.2
  /-- A header that gives the length gives it right. -/
  contentLength : ∀ v, r.m_headers.lookup ContentLength = some v → v = to_string r.m_body.length
  /-- `std::string::max_size()`: a string's size fits `ptrdiff_t`. -/
  body_size : r.m_body.length < 2 ^ 63

theorem HTTPRequest.WellFormed.message {r : HTTPRequest} (hr : r.WellFormed) :
    r.toHTTPMessage.WellFormed where
  names := hr.names
  values := hr.values
  contentLength := hr.contentLength
  body_size := hr.body_size

/-- The fields can be told apart in the text, whatever the header of the length says. -/
structure HTTPRequest.Delimited (r : HTTPRequest) : Prop where
  method_noSpace : ¬ SP <:+: r.m_method
  method_noBreak : ¬ CRLF <:+: r.m_method
  target_noSpace : ¬ SP <:+: r.m_reqTarget
  target_noBreak : ¬ CRLF <:+: r.m_reqTarget
  version_noBreak : ¬ CRLF <:+: r.m_version
  message : r.toHTTPMessage.Delimited

theorem HTTPRequest.WellFormed.delimited {r : HTTPRequest} (hr : r.WellFormed) : r.Delimited :=
  ⟨hr.method_noSpace, hr.method_noBreak, hr.target_noSpace, hr.target_noBreak, hr.version_noBreak,
    hr.message.delimited⟩

/-- The text `toString` writes, cut at its delimiters. -/
def HTTPRequest.text (r : HTTPRequest) : RequestText where
  method := r.m_method
  target := r.m_reqTarget
  protocol := protocolHTTP
  version := r.m_version
  lines := r.sentHeaders.entries.map headerLine
  rest := r.m_body

theorem toString_eq_bytes (r : HTTPRequest) : r.toString.1 = r.text.bytes := by
  simp [HTTPRequest.toString, withContentLength_eq, getHeaders_eq_block, RequestText.bytes,
    RequestText.startLine, HTTPRequest.text]

theorem toString_valid {r : HTTPRequest} (hr : r.Delimited) : r.text.Valid where
  startLine := by
    intro h
    rcases infix_append_cons (by decide) (by decide) h with h | h
    · exact hr.method_noBreak h
    · rcases infix_append_cons (by decide) (by decide) h with h | h
      · exact hr.target_noBreak h
      · rcases infix_append_cons (a := protocolHTTP) (c := 47) (b := r.m_version) (by decide)
          (by decide) h with h | h
        · exact absurd h (by decide)
        · exact hr.version_noBreak h
  method := hr.method_noSpace
  target := hr.target_noSpace
  protocol := by
    show ¬ SLASH <:+: protocolHTTP
    decide
  lines := fun _ hl => sentHeaders_isHeaderLine hr.message hl

theorem parsed_text {r : HTTPRequest} (hr : r.Delimited) :
    r.text.parsed {} = { r with m_headers := r.sentHeaders, m_body := [] } := by
  have hheaders : OrdMap.empty.assignAll (r.text.lines.map splitHeader) = r.sentHeaders :=
    assignAll_sentHeaders hr.message
  simp only [RequestText.parsed, hheaders]
  rfl

theorem toString_request {r : HTTPRequest} (hr : r.Delimited) (hbody : r.toHTTPMessage.Announced) :
    r.text.request = some { r with m_headers := r.sentHeaders } := by
  have hstored := hbody
  rw [HTTPMessage.Announced] at hstored
  rw [RequestText.request, parsed_text hr]
  simp only [HTTPRequest.text, hstored, Option.map_some]

/-- What is parsed from the text of a request. -/
theorem ofString_toString_of_delimited {r : HTTPRequest} (hr : r.Delimited)
    (hbody : r.toHTTPMessage.Announced) :
    HTTPRequest.ofString r.toString.1 = .ok { r with m_headers := r.sentHeaders } :=
  (ofString_eq_ok_iff _ _).mpr
    ⟨r.text, toString_valid hr, toString_eq_bytes r, toString_request hr hbody⟩

/-- **Request round trip.**  Parsing what `toString` wrote gives the request back, with the length
of its body among the headers where it was missing and the body is not empty. -/
theorem ofString_toString (r : HTTPRequest) (hr : r.WellFormed) :
    HTTPRequest.ofString r.toString.1 =
      .ok { r with
        m_headers :=
          if r.m_headers.lookup ContentLength = none ∧ r.m_body ≠ [] then
            r.m_headers.assign ContentLength (to_string r.m_body.length)
          else
            r.m_headers } :=
  ofString_toString_of_delimited hr.delimited hr.message.announced

/-- A request with an empty header name, a name ending in `':'`, a value ending in a lone carriage
return and a body that contains a blank line. -/
def oddRequest : HTTPRequest where
  m_method := ascii "POST"
  m_reqTarget := []
  m_version := ascii "1.1"
  m_headers := OrdMap.empty.assignAll [([], []), (ascii "A:", ascii " v\r")]
  m_body := CRLF ++ CRLF

theorem oddRequest_wellFormed : oddRequest.WellFormed where
  method_noSpace := by decide
  method_noBreak := by decide
  target_noSpace := by decide
  target_noBreak := by decide
  version_noBreak := by decide
  names := by decide
  values := by decide
  contentLength v hv := by
    have hnone : oddRequest.m_headers.lookup ContentLength = none := by decide
    rw [hnone] at hv
    cases hv
  body_size := by decide

theorem ofString_toString_oddRequest :
    HTTPRequest.ofString oddRequest.toString.1 =
      .ok { oddRequest with
        m_headers := oddRequest.m_headers.assign ContentLength (ascii "4") } :=
  (ofString_toString oddRequest oddRequest_wellFormed).trans (by decide)

end HTTP
end AdvCppHW
