import AdvCppHW.HTTP.RequestLanguage

/-!
# What the response parser does with any text

In the status line the first slash and the first blank are searched independently of each
other.  When the blank comes first, the length of the version wraps and the version goes on
to the end of the line.  The number between the first two blanks is read by `std::stoi`,
with exceptions of its own.

* `readStatusLine_found`, `readStatusLine_missing` — the status line.
* `response_fromString_cases`, `response_fromString_messageBytes` — the rest of the text.
* `failsCleanly_iff` — when a response text is parsed without a foreign
  exception or a size below zero.
-/

namespace AdvCppHW
namespace HTTP

open Support HTTPMessage

/-! ## The status line -/

theorem response_onMessage_run {α : Type} (f : Method HTTPMessage α) (r : HTTPResponse) :
    (HTTPResponse.onMessage f).run r =
      match f.run r.toHTTPMessage with
      | .ok a m => .ok a { r with toHTTPMessage := m }
      | .error e m => .error e { r with toHTTPMessage := m } := rfl

/-- The version of a status line with the first slash behind `u` and the first blank behind `a`. -/
def versionSlice (u w a : Bytes) : Bytes := w.take (wrapSub a.length (u.length + 1))

section StatusLine

variable {line u w a c : Bytes} (hslash : line = u ++ (SLASH ++ w)) (hu : ¬ SLASH <:+: u)
  (hblank : line = a ++ (SP ++ c)) (ha : ¬ SP <:+: a)
include hslash hu hblank ha

/-- The two searches, and the version cut out between them. -/
theorem statusLine_slices : find line SLASH 0 = some u.length ∧ find line SP 0 = some a.length ∧
    ∀ st : HTTPResponse, (substr line (u.length + 1) (wrapSub a.length (u.length + 1))).run st =
      .ok (versionSlice u w a) st := by
  have hpre : line = (u ++ SLASH) ++ w := by simp [hslash]
  have hlen : u.length + 1 = (u ++ SLASH).length := by simp [SLASH]
  have hle : u.length + 1 ≤ line.length := by
    rw [hpre, hlen]
    exact (List.prefix_append _ _).length_le
  have hdrop : line.drop (u.length + 1) = w := by rw [hpre, hlen, List.drop_left]
  refine ⟨?_, ?_, fun st => ?_⟩
  · rw [hslash]
    exact find_first unbordered_SLASH u w hu
  · rw [hblank]
    exact find_first unbordered_SP a c ha
  · rw [substr, if_pos hle, hdrop]
    rfl

/-- A status line with a slash and two blanks: what stands between the blanks decides. -/
theorem readStatusLine_found {code phrase : Bytes} (hc : c = code ++ (SP ++ phrase))
    (hcode : ¬ SP <:+: code) (r : HTTPResponse) :
    (HTTPResponse.readStatusLine line).run r =
      match (stoi code).run { r with m_version := versionSlice u w a } with
      | .ok v r' => .ok () { r' with m_statusCode := v }
      | .error e r' => .error e r' := by
  obtain ⟨hfindSlash, hfindBlank, hversion⟩ := statusLine_slices hslash hu hblank ha
  have hpre : a.length + 1 = (a ++ SP).length := by simp [SP]
  have hsplit : line = (a ++ SP) ++ (code ++ (SP ++ phrase)) := by simp [hblank, hc]
  have hfind : find line SP (a.length + 1) = some (a.length + 1 + code.length) := by
    rw [hpre, hsplit]
    exact find_split unbordered_SP _ _ _ hcode
  have hdigits : ∀ st : HTTPResponse,
      (substr line (a.length + 1) code.length).run st = .ok code st := by
    intro st
    rw [hpre, hsplit]
    exact substr_split st _ _ _
  unfold HTTPResponse.readStatusLine
  rw [hfindSlash]
  simp only [hfindBlank, EStateM.run_bind, hversion, EStateM.run_modify, hfind, sizeSub_run _ rfl,
    hdigits]
  cases (stoi code).run { r with m_version := versionSlice u w a } with
  | ok v r' => rfl
  | error e r' => rfl

/-- A status line with a slash and one blank. -/
theorem readStatusLine_oneBlank (hc : ¬ SP <:+: c) (r : HTTPResponse) :
    (HTTPResponse.readStatusLine line).run r =
      .error (.ArgumentError "Invalid string passed!")
        { r with m_version := versionSlice u w a } := by
  obtain ⟨hfindSlash, hfindBlank, hversion⟩ := statusLine_slices hslash hu hblank ha
  have hfind : find line SP (a.length + 1) = none := by
    have hpre : a.length + 1 = (a ++ SP).length := by simp [SP]
    have hsplit : line = (a ++ SP) ++ c := by simp [hblank]
    rw [hpre, hsplit]
    exact find_none _ _ hc
  unfold HTTPResponse.readStatusLine
  rw [hfindSlash]
  simp only [hfindBlank, EStateM.run_bind, hversion, EStateM.run_modify, hfind]
  rfl

end StatusLine

/-- A status line without a slash or without a blank. -/
theorem readStatusLine_missing {line : Bytes} (h : ¬ SLASH <:+: line ∨ ¬ SP <:+: line)
    (r : HTTPResponse) : (HTTPResponse.readStatusLine line).run r =
      .error (.ArgumentError "Invalid string passed!") r := by
  unfold HTTPResponse.readStatusLine
  by_cases hslash : SLASH <:+: line
  · have hfind : find line SP 0 = none := find_none [] line (h.resolve_left (not_not.mpr hslash))
    cases find line SLASH 0 with
    | none => rfl
    | some b =>
        simp only [hfind]
        rfl
  · have hfind : find line SLASH 0 = none := find_none [] line hslash
    rw [hfind]
    rfl

/-- What `readStatusLine` finds in a line, or misses with an `ArgumentError`. -/
theorem readStatusLine_cases (line : Bytes) :
    (∃ u w a code phrase, line = u ++ (SLASH ++ w) ∧ ¬ SLASH <:+: u ∧
      line = a ++ (SP ++ (code ++ (SP ++ phrase))) ∧ ¬ SP <:+: a ∧ ¬ SP <:+: code) ∨
    ∀ r, ∃ r', (HTTPResponse.readStatusLine line).run r =
      .error (.ArgumentError "Invalid string passed!") r' := by
  rcases exists_split_or_none SLASH (by decide) line with ⟨u, w, hslash, hu⟩ | hnone
  · rcases exists_split_or_none SP (by decide) line with ⟨a, c, hblank, ha⟩ | hnone
    · rcases exists_split_or_none SP (by decide) c with ⟨code, phrase, rfl, hcode⟩ | hnone
      · exact Or.inl ⟨u, w, a, code, phrase, hslash, hu, hblank, ha, hcode⟩
      · exact Or.inr fun r => ⟨_, readStatusLine_oneBlank hslash hu hblank ha hnone r⟩
    · exact Or.inr fun r => ⟨r, readStatusLine_missing (Or.inr hnone) r⟩
  · exact Or.inr fun r => ⟨r, readStatusLine_missing (Or.inl hnone) r⟩

/-! ## The whole text -/

section WholeText

variable {line : Bytes} (hline : ¬ CRLF <:+: line)
include hline

/-- Behind the status line a response is read as a request is: a header block and a body, or an
`ArgumentError`. -/
theorem response_fromString_cases (s : Bytes) {r r' : HTTPResponse}
    (hread : (HTTPResponse.readStatusLine line).run r = .ok () r') :
    (∃ lines rest, (∀ l ∈ lines, IsHeaderLine l) ∧ s = block lines ++ (CRLF ++ rest)) ∨
      ∃ info r'', (HTTPResponse.fromString (line ++ (CRLF ++ s))).run r =
        .error (.ArgumentError info) r'' := by
  have hpre : line.length + 2 = (line ++ CRLF).length := by simp [CRLF]
  have hsplit : line ++ (CRLF ++ s) = (line ++ CRLF) ++ s := by simp
  have hstart := readLine_first (σ := HTTPResponse) hline "Invalid string passed!" s
  rcases readLine_cases "Invalid string passed!" (line ++ CRLF) s r' with
    ⟨next, rest, rfl, hnext⟩ | herror
  · rcases headerLoop_cases "Invalid string passed!" "Invalid string passed!" (line ++ CRLF) next
      rest r'.toHTTPMessage hnext with ⟨lines, tail, hlines, -, hblock⟩ | ⟨info, m', herror⟩
    · exact Or.inl ⟨lines, tail, hlines, hblock⟩
    · have hfirst := readLine_split "Invalid string passed!" (line ++ CRLF) next rest hnext r'
      rw [← hpre, ← hsplit] at hfirst herror
      refine Or.inr ⟨info, { r' with toHTTPMessage := m' }, ?_⟩
      unfold HTTPResponse.fromString
      simp only [EStateM.run_bind, hstart, hread, hfirst, response_onMessage_run, herror]
  · rw [← hpre, ← hsplit] at herror
    refine Or.inr ⟨"Invalid string passed!", r', ?_⟩
    unfold HTTPResponse.fromString
    simp only [EStateM.run_bind, hstart, hread, herror]

/-- An exception in the status line is one of `fromString`. -/
theorem response_fromString_threw (s : Bytes) {r r' : HTTPResponse} {e : Exception}
    (hread : (HTTPResponse.readStatusLine line).run r = .error e r') :
    (HTTPResponse.fromString (line ++ (CRLF ++ s))).run r = .error e r' := by
  have hstart := readLine_first (σ := HTTPResponse) hline "Invalid string passed!" s
  unfold HTTPResponse.fromString
  simp only [EStateM.run_bind, hstart, hread]

/-- Where the status line and the header block are read, only the length of the body can fail. -/
theorem response_fromString_messageBytes {lines : List Bytes} (hlines : ∀ l ∈ lines, IsHeaderLine l)
    (rest : Bytes) {r r' : HTTPResponse}
    (hread : (HTTPResponse.readStatusLine line).run r = .ok () r') :
    (HTTPResponse.fromString (messageBytes line lines rest)).run r =
      match (r'.toHTTPMessage.addLines lines).storeBody rest with
      | some m => .ok () { r' with toHTTPMessage := m }
      | none => .error (.ArgumentError "Invalid string passed!")
          { r' with toHTTPMessage := r'.toHTTPMessage.addLines lines } := by
  unfold HTTPResponse.fromString
  simp only [EStateM.run_bind, readLine_startLine _ hline, hread, readLine_firstLine _ hlines,
    response_onMessage_run, headerLoop_messageBytes hlines, readBody_messageBytes]
  cases (r'.toHTTPMessage.addLines lines).storeBody rest with
  | none => rfl
  | some m => rfl

end WholeText

theorem response_fromString_noBreak {s : Bytes} (h : ¬ CRLF <:+: s) (r : HTTPResponse) :
    (HTTPResponse.fromString s).run r = .error (.ArgumentError "Invalid string passed!") r := by
  have hfind : find s CRLF 0 = none := find_none [] s h
  unfold HTTPResponse.fromString readLine
  rw [hfind]
  rfl

/-- When `fromString` ends cleanly behind a status line that is read. -/
theorem response_endsCleanly {line : Bytes} (hline : ¬ CRLF <:+: line) (s : Bytes)
    {r r' : HTTPResponse} (hread : (HTTPResponse.readStatusLine line).run r = .ok () r') :
    EndsCleanly ((HTTPResponse.fromString (line ++ (CRLF ++ s))).run r) := by
  rcases response_fromString_cases hline s hread with ⟨lines, rest, hlines,
    rfl⟩ | ⟨info, r'', herror⟩
  · have hrun := response_fromString_messageBytes hline hlines rest hread
    rw [messageBytes] at hrun
    rw [hrun]
    cases (r'.toHTTPMessage.addLines lines).storeBody rest with
    | none => rfl
    | some m => trivial
  · rw [herror]
    rfl

/-! ## Clean failures -/

/-- The operands of the one subtraction of `fromString` that is let wrap: the offset of the first
blank and the one behind the first slash; `none` when the run does not come to it. -/
def HTTPResponse.versionOperands (str : Bytes) : Option (Nat × Nat) := do
  let e ← find str CRLF 0
  let begin ← find (str.take e) SLASH 0
  let e ← find (str.take e) SP 0
  return (e, begin + 1)

/-- `fromString` returns or throws an `ArgumentError`, and none of its subtractions goes below
zero. -/
def HTTPResponse.FailsCleanly (str : Bytes) : Prop :=
  (∀ r, EndsCleanly ((HTTPResponse.fromString str).run r)) ∧
    ∀ e begin, HTTPResponse.versionOperands str = some (e, begin) → begin ≤ e

/-- The condition: if the first line has a slash and a blank, there is a slash in front of the first
blank, and a second blank ends the text of a number behind the first one. -/
def HTTPResponse.CleanText (str : Bytes) : Prop :=
  ∀ line s, str = line ++ (CRLF ++ s) → ¬ CRLF <:+: line → SLASH <:+: line →
    ∀ a c, line = a ++ (SP ++ c) → ¬ SP <:+: a →
      SLASH <:+: a ∧ ∀ code phrase, c = code ++ (SP ++ phrase) → ¬ SP <:+: code → ReadsInt code

theorem versionOperands_eq {line s u w a c : Bytes} (hline : ¬ CRLF <:+: line)
    (hslash : line = u ++ (SLASH ++ w)) (hu : ¬ SLASH <:+: u) (hblank : line = a ++ (SP ++ c))
    (ha : ¬ SP <:+: a) :
    HTTPResponse.versionOperands (line ++ (CRLF ++ s)) = some (a.length, u.length + 1) := by
  obtain ⟨hfindSlash, hfindBlank, -⟩ := statusLine_slices hslash hu hblank ha
  have hfind : find (line ++ (CRLF ++ s)) CRLF 0 = some line.length :=
    find_first unbordered_CRLF line s hline
  simp [HTTPResponse.versionOperands, hfind, hfindSlash, hfindBlank]

/-- The first slash is in front of the first blank when there is one. -/
theorem slash_le_blank_iff {u w a c : Bytes} (h : u ++ (SLASH ++ w) = a ++ (SP ++ c))
    (hu : ¬ SLASH <:+: u) : u.length + 1 ≤ a.length ↔ SLASH <:+: a := by
  rcases append_cons_cases (c := 47) (d := 32) (by decide) h with ⟨v, rfl, -⟩ | ⟨v, rfl, -⟩
  · refine ⟨fun _ => ⟨u, v, by simp [SLASH]⟩, fun _ => ?_⟩
    rw [List.length_append, List.length_cons]
    omega
  · refine ⟨fun hle => ?_, fun hin => absurd (hin.trans (List.prefix_append a _).isInfix) hu⟩
    rw [List.length_append, List.length_cons] at hle
    omega

theorem versionOperands_cases {str : Bytes} {e begin : Nat}
    (h : HTTPResponse.versionOperands str = some (e, begin)) :
    ∃ line s u w a c, str = line ++ (CRLF ++ s) ∧ ¬ CRLF <:+: line ∧ line = u ++ (SLASH ++ w) ∧
      ¬ SLASH <:+: u ∧ line = a ++ (SP ++ c) ∧ ¬ SP <:+: a ∧ e = a.length ∧
      begin = u.length + 1 := by
  obtain ⟨eLine, hfind, h⟩ := Option.bind_eq_some_iff.mp h
  obtain ⟨eSlash, hfindSlash, h⟩ := Option.bind_eq_some_iff.mp h
  obtain ⟨eBlank, hfindBlank, h⟩ := Option.bind_eq_some_iff.mp h
  obtain ⟨line, s, hstr, -, rfl, hline⟩ := findFrom_eq_some hfind
  obtain ⟨u, w, hslash, -, rfl, hu⟩ := findFrom_eq_some hfindSlash
  obtain ⟨a, c, hblank, -, rfl, ha⟩ := findFrom_eq_some hfindBlank
  cases h
  rw [List.take_zero, List.nil_append] at hstr hslash hblank
  have hfirst : str.take (0 + line.length) = line := by
    rw [Nat.zero_add, hstr, List.take_left]
  rw [hfirst] at hslash hblank
  exact ⟨line, s, u, w, a, c, hstr, hline (by decide), hslash, hu (by decide), hblank,
    ha (by decide), Nat.zero_add _, by omega⟩

/-- Where `fromString` ends cleanly, the text between the first two blanks is a number. -/
theorem readsInt_of_endsCleanly {line s u w a code phrase : Bytes} (hline : ¬ CRLF <:+: line)
    (hslash : line = u ++ (SLASH ++ w)) (hu : ¬ SLASH <:+: u)
    (hblank : line = a ++ (SP ++ (code ++ (SP ++ phrase)))) (ha : ¬ SP <:+: a)
    (hcode : ¬ SP <:+: code)
    (hends : EndsCleanly ((HTTPResponse.fromString (line ++ (CRLF ++ s))).run {})) :
    ReadsInt code := by
  by_contra hnot
  obtain ⟨e, he, hstoi⟩ := stoi_of_not_readsInt hnot
  have hread := readStatusLine_found hslash hu hblank ha rfl hcode {}
  rw [hstoi] at hread
  rw [response_fromString_threw hline s hread, EndsCleanly, he] at hends
  cases hends

theorem endsCleanly_of_cleanText {str : Bytes} (hclean : HTTPResponse.CleanText str)
    (r : HTTPResponse) : EndsCleanly ((HTTPResponse.fromString str).run r) := by
  rcases exists_split_or_none CRLF (by decide) str with ⟨line, s, rfl, hline⟩ | hnone
  · rcases readStatusLine_cases line with
      ⟨u, w, a, code, phrase, hslash, hu, hblank, ha, hcode⟩ | hmissing
    · obtain ⟨-, hint⟩ := hclean line s rfl hline ⟨u, w, by simp [hslash]⟩ a _ hblank ha
      obtain ⟨v, -, hstoi⟩ := stoi_of_readsInt (hint code phrase rfl hcode)
      have hread := readStatusLine_found hslash hu hblank ha rfl hcode r
      rw [hstoi] at hread
      exact response_endsCleanly hline s hread
    · obtain ⟨r', herror⟩ := hmissing r
      rw [response_fromString_threw hline s herror]
      rfl
  · rw [response_fromString_noBreak hnone]
    rfl

/-- **Responses fail cleanly, on clean texts.**  A response text is parsed without an
exception of the standard library and without a size below zero exactly when its first line
satisfies the condition. -/
theorem failsCleanly_iff (str : Bytes) :
    HTTPResponse.FailsCleanly str ↔ HTTPResponse.CleanText str := by
  constructor
  · rintro ⟨hends, hoperands⟩ line s rfl hline hslash a c hblank ha
    obtain ⟨u, w, hsplit, hu⟩ :=
      (exists_split_or_none SLASH (by decide) line).resolve_right (not_not.mpr hslash)
    constructor
    · apply (slash_le_blank_iff (hsplit.symm.trans hblank) hu).mp
      exact hoperands _ _ (versionOperands_eq hline hsplit hu hblank ha)
    · rintro code phrase rfl hcode
      exact readsInt_of_endsCleanly hline hsplit hu hblank ha hcode (hends {})
  · intro hclean
    constructor
    · exact endsCleanly_of_cleanText hclean
    · intro e begin hoperands
      obtain ⟨line, s, u, w, a, c, hstr, hline, hslash, hu, hblank, ha, rfl, rfl⟩ :=
        versionOperands_cases hoperands
      apply (slash_le_blank_iff (hslash.symm.trans hblank) hu).mpr
      exact (hclean line s hstr hline ⟨u, w, by simp [hslash]⟩ a c hblank ha).1

/-- What the constructor threw, `fromString` threw. -/
theorem run_of_ofString_error {str : Bytes} {e : Exception}
    (h : HTTPResponse.ofString str = .error e) :
    ∃ r, (HTTPResponse.fromString str).run {} = .error e r := by
  unfold HTTPResponse.ofString at h
  cases hrun : (HTTPResponse.fromString str).run {} with
  | ok u r =>
      rw [hrun] at h
      cases h
  | error e' r =>
      rw [hrun] at h
      cases h
      exact ⟨r, rfl⟩

/-- A status line whose code is no number, and one with the first blank in front of the first
slash: the first makes `std::stoi` throw `std::invalid_argument`, the second is accepted after
a size went below zero. -/
theorem noNumber_not_failsCleanly :
    (HTTPResponse.ofString (ascii "HTTP/1.1 abc OK" ++ (CRLF ++ CRLF)) = .error .invalid_argument ∧
      ¬ HTTPResponse.FailsCleanly (ascii "HTTP/1.1 abc OK" ++ (CRLF ++ CRLF))) ∧
    HTTPResponse.versionOperands (ascii "A 200 /b c" ++ (CRLF ++ CRLF)) = some (1, 7) ∧
      ¬ HTTPResponse.FailsCleanly (ascii "A 200 /b c" ++ (CRLF ++ CRLF)) := by
  have hthrown : HTTPResponse.ofString (ascii "HTTP/1.1 abc OK" ++ (CRLF ++ CRLF)) =
      .error .invalid_argument := by decide +kernel
  have hoperands : HTTPResponse.versionOperands (ascii "A 200 /b c" ++ (CRLF ++ CRLF)) =
      some (1, 7) := by
    decide +kernel
  refine ⟨⟨hthrown, fun h => ?_⟩, hoperands, fun h => ?_⟩
  · obtain ⟨r, hrun⟩ := run_of_ofString_error hthrown
    have hends := h.1 {}
    rw [hrun] at hends
    cases hends
  · have hle := h.2 1 7 hoperands
    omega

end HTTP
end AdvCppHW
