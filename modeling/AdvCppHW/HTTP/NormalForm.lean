import AdvCppHW.HTTP.RequestLanguage
import AdvCppHW.HTTP.RequestRoundTrip
import AdvCppHW.HTTP.ResponseRoundTrip

/-!
# Printing what was parsed

What a parser returns need not be well formed: its header of the length may be spelt in any way
`sscanf` reads.  It is in `Normal` form all the same, and printing it gives a text that denotes it.

* `normal_of_storeBody` — what is parsed is in normal form.
* `request_normalForm` — for every accepted request.
* `response_normalForm_iff` — for an accepted response, exactly when the version
  that was cut out has no blank.
-/

namespace AdvCppHW
namespace HTTP

open Support HTTPMessage

/-! ## Messages -/

/-- The header block can be printed and read, and announces the body as it is. -/
structure HTTPMessage.Normal (m : HTTPMessage) : Prop where
  delimited : m.Delimited
  sentHeaders : m.sentHeaders = m.m_headers
  announced : m.Announced

theorem splitHeader_delimited {l : Bytes} (h : IsHeaderLine l) :
    (¬ COLON <:+: (splitHeader l).1 ∧ ¬ CRLF <:+: (splitHeader l).1) ∧
      ¬ CRLF <:+: (splitHeader l).2 := by
  obtain ⟨name, value, rfl, hname⟩ := h.exists_split
  rw [splitHeader_append hname value]
  refine ⟨⟨hname, fun hbreak => h.2 ?_⟩, fun hbreak => h.2 ?_⟩
  · exact hbreak.trans (List.prefix_append _ _).isInfix
  · exact hbreak.trans ⟨name ++ COLON, [], by simp⟩

theorem addLines_delimited {lines : List Bytes} (hlines : ∀ l ∈ lines, IsHeaderLine l)
    {m : HTTPMessage} (hm : m.m_headers = OrdMap.empty.assignAll (lines.map splitHeader)) :
    m.Delimited := by
  have hentry : ∀ e ∈ m.m_headers.entries,
      (¬ COLON <:+: e.1 ∧ ¬ CRLF <:+: e.1) ∧ ¬ CRLF <:+: e.2 := by
    intro e he
    rw [hm] at he
    rcases OrdMap.mem_entries_assignAll he with hmem | hmem
    · obtain ⟨l, hl, rfl⟩ := List.mem_map.mp hmem
      exact splitHeader_delimited (hlines l hl)
    · cases hmem
  exact ⟨fun e he => (hentry e he).1, fun e he => (hentry e he).2⟩

theorem normal_of_storeBody {lines : List Bytes} (hlines : ∀ l ∈ lines, IsHeaderLine l)
    {m₀ m : HTTPMessage} {rest : Bytes}
    (hheaders : m₀.m_headers = OrdMap.empty.assignAll (lines.map splitHeader))
    (hbody : m₀.m_body = [])
    (h : m₀.storeBody rest = some m) : m.Normal := by
  have hdelimited : m.Delimited :=
    addLines_delimited hlines ((storeBody_kept h).2.trans hheaders)
  rcases storeBody_cases h with ⟨hlength, rfl⟩ | ⟨value, hlength, hsize, rfl⟩
  · -- without the header there is no body, and none is added
    have hsent : m.sentHeaders = m.m_headers := by
      rw [HTTPMessage.sentHeaders, if_neg (by simp [hbody])]
    refine ⟨hdelimited, hsent, ?_⟩
    rw [HTTPMessage.Announced, hsent, HTTPMessage.storeBody]
    simp only [hlength]
    rw [← hbody]
  · have hsent : HTTPMessage.sentHeaders { m₀ with m_body := rest } = m₀.m_headers := by
      rw [HTTPMessage.sentHeaders, if_neg (by simp [hlength])]
    refine ⟨hdelimited, hsent, ?_⟩
    rw [HTTPMessage.Announced, hsent, HTTPMessage.storeBody]
    simp only [hlength, if_pos hsize]

/-! ## Requests -/

/-- What is parsed can be told apart in its text. -/
theorem delimited_of_request {x : RequestText} (hx : x.Valid) {r : HTTPRequest}
    (h : x.request = some r) : r.Delimited ∧ r.toHTTPMessage.Normal := by
  obtain ⟨m, hm, rfl⟩ := Option.map_eq_some_iff.mp h
  have hnormal : m.Normal := normal_of_storeBody hx.lines rfl rfl hm
  have hversion : m.m_version = x.version := (storeBody_kept hm).1
  have hbreak : ∀ part, part <:+: x.startLine → ¬ CRLF <:+: part :=
    fun part hpart hin => hx.startLine (hin.trans hpart)
  refine ⟨⟨hx.method, ?_, hx.target, ?_, ?_, hnormal.delimited⟩, hnormal⟩
  · exact hbreak x.method ⟨[], SP ++ (x.target ++ (SP ++ (x.protocol ++ (SLASH ++ x.version)))), by
      simp [RequestText.startLine]⟩
  · exact hbreak x.target ⟨x.method ++ SP, SP ++ (x.protocol ++ (SLASH ++ x.version)), by
      simp [RequestText.startLine]⟩
  · show ¬ CRLF <:+: m.m_version
    rw [hversion]
    exact hbreak x.version ⟨x.method ++ (SP ++ (x.target ++ (SP ++ (x.protocol ++ SLASH)))), [], by
      simp [RequestText.startLine]⟩

/-- **Request normal form.**  The text printed for an accepted request is accepted and gives the
same request, printing does not change the request, and printing again gives the same text. -/
theorem request_normalForm (s : Bytes) (r : HTTPRequest) (h : HTTPRequest.ofString s = .ok r) :
    HTTPRequest.ofString r.toString.1 = .ok r ∧ r.toString.2 = r ∧
      (HTTPRequest.ofString r.toString.1).map (fun q => q.toString.1) = .ok r.toString.1 := by
  obtain ⟨x, hx, rfl, hrequest⟩ := (ofString_eq_ok_iff s r).mp h
  obtain ⟨hdelimited, hnormal⟩ := delimited_of_request hx hrequest
  have hsame : { r with m_headers := r.sentHeaders } = r := by
    rw [hnormal.sentHeaders]
  have hparsed : HTTPRequest.ofString r.toString.1 = .ok r := by
    rw [ofString_toString_of_delimited hdelimited hnormal.announced, hsame]
  refine ⟨hparsed, ?_, ?_⟩
  · simp only [HTTPRequest.toString, withContentLength_eq]
    exact hsame
  · rw [hparsed]
    rfl

theorem request_normalForm_oddText :
    HTTPRequest.ofString oddTextRequest.toString.1 = .ok oddTextRequest :=
  (request_normalForm oddText oddTextRequest (by decide +kernel)).1

/-! ## Responses -/

/-- What an accepted response text is cut into, and the response in it. -/
theorem response_ofString_ok {s : Bytes} {r : HTTPResponse} (h : HTTPResponse.ofString s = .ok r) :
    ∃ line tail u w a c, s = line ++ (CRLF ++ tail) ∧ ¬ CRLF <:+: line ∧
      (line = u ++ (SLASH ++ w) ∧ ¬ SLASH <:+: u) ∧ (line = a ++ (SP ++ c) ∧ ¬ SP <:+: a) ∧
      r.m_version = versionSlice u w a ∧ (-2 ^ 31 ≤ r.m_statusCode ∧ r.m_statusCode < 2 ^ 31) ∧
      r.toHTTPMessage.Normal := by
  unfold HTTPResponse.ofString at h
  rcases exists_split_or_none CRLF (by decide) s with ⟨line, tail, rfl, hline⟩ | hnone
  · rcases readStatusLine_cases line with
      ⟨u, w, a, code, phrase, hslash, hu, hblank, ha, hcode⟩ | hmissing
    · have hread := readStatusLine_found hslash hu hblank ha rfl hcode {}
      by_cases hint : ReadsInt code
      · obtain ⟨v, hrange, hstoi⟩ := stoi_of_readsInt hint
        rw [hstoi] at hread
        rcases response_fromString_cases hline tail hread with ⟨lines, rest, hlines,
          rfl⟩ | ⟨i, r', herror⟩
        · have hrun := response_fromString_messageBytes hline hlines rest hread
          rw [messageBytes] at hrun
          rw [hrun] at h
          cases hstored :
            (HTTPMessage.addLines ⟨versionSlice u w a, OrdMap.empty, []⟩ lines).storeBody rest with
          | none =>
              rw [hstored] at h
              cases h
          | some m =>
              rw [hstored] at h
              cases h
              have hversion : m.m_version = versionSlice u w a := (storeBody_kept hstored).1
              exact ⟨line, _, u, w, a, _, rfl, hline, ⟨hslash, hu⟩, ⟨hblank, ha⟩, hversion, hrange,
                normal_of_storeBody hlines rfl rfl hstored⟩
        · rw [herror] at h
          cases h
      · obtain ⟨e, -, hstoi⟩ := stoi_of_not_readsInt hint
        rw [hstoi] at hread
        rw [response_fromString_threw hline tail hread] at h
        cases h
    · obtain ⟨r', herror⟩ := hmissing {}
      rw [response_fromString_threw hline tail herror] at h
      cases h
  · rw [response_fromString_noBreak hnone] at h
    cases h

/-- The version that the first line of an accepted text gives. -/
theorem versionSlice_isInfix {line u w a : Bytes} (hslash : line = u ++ (SLASH ++ w)) :
    versionSlice u w a <:+: line := by
  rw [hslash, ← List.append_assoc]
  exact (List.take_prefix _ _).isInfix.trans (List.suffix_append _ _).isInfix

/-- With a slash in front of the first blank the version ends in front of that blank. -/
theorem versionSlice_noBlank {u w a c : Bytes} (h : u ++ (SLASH ++ w) = a ++ (SP ++ c))
    (ha : ¬ SP <:+: a) (hu : ¬ SP <:+: u) : ¬ SP <:+: versionSlice u w a := by
  rcases append_cons_cases (c := 47) (d := 32) (by decide) h with ⟨v, rfl, rfl⟩ | ⟨v, rfl, rfl⟩
  · have hsub : wrapSub (u ++ 47 :: v).length (u.length + 1) = v.length := by
      rw [wrapSub, List.length_append, List.length_cons, if_pos (by omega)]
      omega
    rw [versionSlice, hsub, List.take_left]
    exact fun hv => ha (hv.trans ⟨u ++ SLASH, [], by simp [SLASH]⟩)
  · exact absurd ⟨a, v, by simp [SP]⟩ hu

/-- With a blank in front of the first slash the version goes on to the end of the line: the
difference wraps, and is longer than any string. -/
theorem versionSlice_wrapped {u w a c : Bytes} (hsize : (u ++ (SLASH ++ w)).length < 2 ^ 63)
    (h : u ++ (SLASH ++ w) = a ++ (SP ++ c)) (ha : ¬ SP <:+: a) (hu : SP <:+: u) :
    versionSlice u w a = w := by
  rcases append_cons_cases (c := 47) (d := 32) (by decide) h with ⟨v, rfl, rfl⟩ | ⟨v, rfl, rfl⟩
  · exact absurd (hu.trans (List.prefix_append _ _).isInfix) ha
  · have hlong : w.length ≤ wrapSub a.length ((a ++ 32 :: v).length + 1) := by
      simp only [List.length_append, List.length_cons] at hsize ⊢
      rw [wrapSub, if_neg (by omega)]
      omega
    exact List.take_of_length_le hlong

/-- A first line in which the version has no blank: the first slash is in front of the first blank,
or there is no blank behind it. -/
def HTTPResponse.Arranged (str : Bytes) : Prop :=
  ∀ line s u w, str = line ++ (CRLF ++ s) → ¬ CRLF <:+: line → line = u ++ (SLASH ++ w) →
    ¬ SLASH <:+: u → ¬ SP <:+: u ∨ ¬ SP <:+: w

theorem arranged_iff {s : Bytes} {r : HTTPResponse} (h : HTTPResponse.ofString s = .ok r)
    (hsize : s.length < 2 ^ 63) : HTTPResponse.Arranged s ↔ ¬ SP <:+: r.m_version := by
  obtain ⟨line, tail, u, w, a, c, rfl, hline, ⟨rfl, hu⟩, ⟨hblank, ha⟩, hversion, -, -⟩ :=
    response_ofString_ok h
  have hlineSize : (u ++ (SLASH ++ w)).length < 2 ^ 63 := by
    rw [List.length_append] at hsize
    omega
  rw [hversion]
  constructor
  · intro harranged
    by_cases hin : SP <:+: u
    · rw [versionSlice_wrapped hlineSize hblank ha hin]
      exact (harranged _ tail u w rfl hline rfl hu).resolve_left (not_not.mpr hin)
    · exact versionSlice_noBlank hblank ha hin
  · intro hfree line' s' u' w' hstr hline' hslash' hu'
    -- the first line is cut in one way only
    obtain ⟨rfl, -⟩ := append_pattern_inj unbordered_CRLF hline hline' hstr
    obtain ⟨rfl, rfl⟩ := append_pattern_inj unbordered_SLASH hu hu' hslash'
    by_cases hin : SP <:+: u
    · rw [versionSlice_wrapped hlineSize hblank ha hin] at hfree
      exact Or.inr hfree
    · exact Or.inl hin

/-- What is parsed can be told apart in its text if its version has no blank. -/
theorem response_delimited {s : Bytes} {r : HTTPResponse} (h : HTTPResponse.ofString s = .ok r)
    (hversion : ¬ SP <:+: r.m_version) : r.Delimited ∧ r.toHTTPMessage.Normal := by
  obtain ⟨line, tail, u, w, a, c, rfl, hline, ⟨hslash, -⟩, -, hslice, hrange, hnormal⟩ :=
    response_ofString_ok h
  refine ⟨⟨hrange, hversion, ?_, hnormal.delimited⟩, hnormal⟩
  rw [hslice]
  exact fun hbreak => hline (hbreak.trans (versionSlice_isInfix hslash))

/-- A text that `toString` wrote gives no version with a blank, whatever was printed. -/
theorem reparsed_version_noBlank {r q : HTTPResponse}
    (h : HTTPResponse.ofString r.toString.1 = .ok q) : ¬ SP <:+: q.m_version := by
  obtain ⟨line, tail, u, w, a, c, hstr, -, ⟨hslash, hu⟩, ⟨hblank, ha⟩, hslice, -, -⟩ :=
    response_ofString_ok h
  obtain ⟨text, htext⟩ : ∃ text, r.toString.1 = protocolHTTP ++ (SLASH ++ text) := ⟨_, rfl⟩
  have hprotocol : ¬ SLASH <:+: protocolHTTP := by decide
  rw [htext, hslash, List.append_assoc, List.append_assoc] at hstr
  obtain ⟨rfl, -⟩ := append_pattern_inj unbordered_SLASH hprotocol hu hstr
  rw [hslice]
  exact versionSlice_noBlank (hslash.symm.trans hblank) ha (by decide)

/-- **Response normal form, on arranged texts.**  The text printed for an accepted
response is accepted and gives the same response exactly when the first slash of the first
line is in front of its first blank, or no blank is behind that slash.  The size of a
`std::string` is below `2 ^ 63`. -/
theorem response_normalForm_iff (s : Bytes) (r : HTTPResponse) (h : HTTPResponse.ofString s = .ok r)
    (hsize : s.length < 2 ^ 63) :
    HTTPResponse.ofString r.toString.1 = .ok r ↔ HTTPResponse.Arranged s := by
  rw [arranged_iff h hsize]
  constructor
  · intro hparsed
    exact reparsed_version_noBlank hparsed
  · intro hversion
    obtain ⟨hdelimited, hnormal⟩ := response_delimited h hversion
    have hsame : { r with m_headers := r.sentHeaders } = r := by
      rw [hnormal.sentHeaders]
    rw [ofString_response_of_delimited hdelimited hnormal.announced, hsame]

/-- A status line with another protocol, slashes in the version and a sign in front of the code. -/
theorem response_normalForm_iff_slashes :
    HTTPResponse.Arranged (ascii "A/1/1 +7 no reason" ++ (CRLF ++ CRLF)) :=
  (response_normalForm_iff _ { m_version := ascii "1/1", m_statusCode := 7 } (by decide +kernel)
    (by decide)).mp (by decide +kernel)

/-- Two blanks and a number in front of the first slash, and a blank behind it: the version is
`"b c"`, and the text printed for it is not accepted. -/
theorem blankFirst_no_normalForm :
    HTTPResponse.ofString (ascii "A 200 /b c" ++ (CRLF ++ CRLF)) =
        .ok { m_version := ascii "b c", m_statusCode := 200 } ∧
      HTTPResponse.ofString
        ({ m_version := ascii "b c", m_statusCode := 200 } : HTTPResponse).toString.1 =
          .error .invalid_argument := by
  decide +kernel

end HTTP
end AdvCppHW
