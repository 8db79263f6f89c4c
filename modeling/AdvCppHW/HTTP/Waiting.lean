import AdvCppHW.HTTP.ConnectionCallback
import AdvCppHW.HTTP.FailedParse

/-!
# Waiting for the rest of a request

`readRequest` takes every `ArgumentError` for "not full request" and waits for more.  The parser
throws the same exception for a text that is cut off and for one that nothing can complete.

* `Completable` — some text behind a buffer makes a request of it.
* `ViablePrefix` — nothing in the buffer is wrong yet; `viablePrefix_of_accepted` — a text in front
  of an accepted one is viable; `ViablePrefix.completable` — a viable one can be completed.
* `waiting_iff` — when a buffer that is waited on can become a request.
-/

namespace AdvCppHW
namespace HTTP

open Support HTTPMessage

/-- Some text behind `b` makes an accepted request of it, in a string that can exist. -/
def Completable (b : Bytes) : Prop :=
  ∃ t r, (b ++ t).length < 2 ^ 63 ∧ HTTPRequest.ofString (b ++ t) = .ok r

/-- There are two blanks and, behind them, a slash. -/
def IsStartLine (line : Bytes) : Prop :=
  ∃ a c d e, line = a ++ (SP ++ (c ++ (SP ++ (d ++ (SLASH ++ e)))))

/-- What is there of the text behind the blank line is not too long for the length that the lines
announce, and there is room for the rest of it. -/
def RestFits (size : Nat) (lines : List Bytes) (text : Bytes) : Prop :=
  ∀ value, OrdMap.lastValue (lines.map splitHeader) ContentLength = some value →
    text.length ≤ bodySize value ∧ size + (bodySize value - text.length) < 2 ^ 63

/-- A text with nothing wrong in it: its first line is not complete, or it is a start line;
behind that stand header lines, and behind these a line that is not complete, or a blank line and
no more text than announced. -/
def ViablePrefix (b : Bytes) : Prop :=
  ¬ CRLF <:+: b ∨
    ∃ line lines tail, b = line ++ (CRLF ++ (block lines ++ tail)) ∧ ¬ CRLF <:+: line ∧
    IsStartLine line ∧
      (∀ l ∈ lines, IsHeaderLine l) ∧
      (¬ CRLF <:+: tail ∨ ∃ text, tail = CRLF ++ text ∧ RestFits b.length lines text)

/-! ## Accepted texts -/

theorem isStartLine_cut {line : Bytes} (h : IsStartLine line) :
    ∃ m t u v, line = m ++ (SP ++ (t ++ (SP ++ (u ++ (SLASH ++ v))))) ∧ ¬ SP <:+: m ∧ ¬ SP <:+: t ∧
      ¬ SLASH <:+: u := by
  obtain ⟨a, c, d, e, rfl⟩ := h
  obtain ⟨m, p, hm, hfreem⟩ := exists_first_split a 32 (c ++ (SP ++ (d ++ (SLASH ++ e))))
  obtain ⟨t, q, ht, hfreet⟩ := exists_first_split (p ++ c) 32 (d ++ (SLASH ++ e))
  obtain ⟨u, w, hu, hfreeu⟩ := exists_first_split (q ++ d) 47 e
  refine ⟨m, t, u, w ++ e, ?_, ?_, ?_, ?_⟩
  · calc a ++ (SP ++ (c ++ (SP ++ (d ++ (SLASH ++ e)))))
        = m ++ (SP ++ ((p ++ c) ++ (32 :: (d ++ (SLASH ++ e))))) := by
          rw [List.append_assoc]
          exact hm
      _ = m ++ (SP ++ (t ++ (SP ++ ((q ++ d) ++ (47 :: e))))) := by
          rw [ht, List.append_assoc q]
          rfl
      _ = m ++ (SP ++ (t ++ (SP ++ (u ++ (SLASH ++ (w ++ e)))))) := by
          rw [hu]
          rfl
  · rwa [SP, List.singleton_infix_iff]
  · rwa [SP, List.singleton_infix_iff]
  · rwa [SLASH, List.singleton_infix_iff]

/-- The texts that the constructor accepts, by their lines. -/
theorem ofString_ok_iff (s : Bytes) :
    (∃ r, HTTPRequest.ofString s = .ok r) ↔
      ∃ line lines text, s = messageBytes line lines text ∧ ¬ CRLF <:+: line ∧ IsStartLine line ∧
        (∀ l ∈ lines, IsHeaderLine l) ∧
        ∀ value, OrdMap.lastValue (lines.map splitHeader) ContentLength = some value →
          text.length = bodySize value := by
  have hlookup : ∀ x : RequestText, (x.parsed {}).m_headers.lookup ContentLength =
      OrdMap.lastValue (x.lines.map splitHeader) ContentLength := by
    intro x
    exact (OrdMap.lookup_assignAll_eq _ _ _).trans (by simp)
  constructor
  · rintro ⟨r, h⟩
    obtain ⟨x, hx, rfl, hrequest⟩ := (ofString_eq_ok_iff s r).mp h
    obtain ⟨m, hm, -⟩ := Option.map_eq_some_iff.mp hrequest
    refine ⟨x.startLine, x.lines, x.rest, rfl, hx.startLine, ⟨_, _, _, _, rfl⟩, hx.lines, ?_⟩
    have hlength := storeBody_isSome_iff.mp ⟨m, hm⟩
    rwa [hlookup] at hlength
  · rintro ⟨line, lines, text, rfl, hline, hstart, hlines, hlength⟩
    obtain ⟨m, t, u, v, rfl, hm, ht, hu⟩ := isStartLine_cut hstart
    let x : RequestText := ⟨m, t, u, v, lines, text⟩
    rw [← hlookup x] at hlength
    obtain ⟨m', hm'⟩ := storeBody_isSome_iff.mpr hlength
    have hrequest : x.request = some { x.parsed {} with toHTTPMessage := m' } := by
      have hstored : (x.parsed {}).toHTTPMessage.storeBody x.rest = some m' := hm'
      rw [RequestText.request, hstored]
      rfl
    exact ⟨_, (ofString_eq_ok_iff _ _).mpr ⟨x, ⟨hline, hm, ht, hu, hlines⟩, rfl, hrequest⟩⟩

/-! ## What can be completed is viable -/

/-- What stands in front of the rest of an accepted text has nothing wrong in it. -/
theorem viablePrefix_of_accepted {b t : Bytes} {r : HTTPRequest} (hsize : (b ++ t).length < 2 ^ 63)
    (h : HTTPRequest.ofString (b ++ t) = .ok r) : ViablePrefix b := by
  obtain ⟨line, lines, text, hbytes, hline, hstart, hlines, hlength⟩ :=
    (ofString_ok_iff _).mp ⟨r, h⟩
  rcases exists_split_or_none CRLF (by decide) b with ⟨line', s, rfl, hline'⟩ | hnone
  · -- the first line of the buffer is that of the accepted text
    rw [messageBytes, List.append_assoc, List.append_assoc] at hbytes
    obtain ⟨rfl, hs⟩ := append_pattern_inj unbordered_CRLF hline' hline hbytes
    obtain ⟨hblock, hlines', hstop⟩ := headerBlock_spec s
    refine Or.inr ⟨line', (headerBlock s).1, (headerBlock s).2, by rw [← hblock], hline,
      hstart, hlines', ?_⟩
    rcases exists_split_or_none CRLF (by decide) (headerBlock s).2 with ⟨next, rest, htail,
      hnext⟩ | hnone
    · -- the line behind the header lines is complete, so it is the blank line of the accepted text
      have hstop' : NoHeaderLine (next ++ (CRLF ++ (rest ++ t))) := by
        intro l rest' heq hl
        obtain ⟨rfl, -⟩ := append_pattern_inj unbordered_CRLF hnext hl heq
        exact hstop next rest htail hnext
      have hboth : headerBlock (s ++ t) = ((headerBlock s).1, next ++ (CRLF ++ (rest ++ t))) := by
        have hst : s ++ t = block (headerBlock s).1 ++ (next ++ (CRLF ++ (rest ++ t))) := by
          conv_lhs => rw [hblock, htail]
          simp
        rw [hst]
        exact headerBlock_append hlines' hstop'
      rw [hs, headerBlock_append hlines (noHeaderLine_blank text)] at hboth
      obtain ⟨rfl, heq⟩ := Prod.mk.inj hboth
      obtain ⟨rfl, htext⟩ :=
        append_pattern_inj unbordered_CRLF (show ¬ CRLF <:+: ([] : Bytes) by decide) hnext heq
      refine Or.inr ⟨rest, htail, ?_⟩
      intro value hvalue
      have hlen := hlength value hvalue
      rw [htext, List.length_append] at hlen
      rw [List.length_append] at hsize
      omega
    · exact Or.inl hnone
  · exact Or.inl hnone

/-! ## What is viable can be completed -/

/-- The end of a first line, and a blank line. -/
def endOfLine : Bytes := SP ++ (SP ++ (SLASH ++ (CRLF ++ CRLF)))

/-- The end of a header line, a header line that says that there is no body, and a blank line. -/
def endOfHeaders : Bytes :=
  COLON ++ (CRLF ++ (ContentLength ++ (COLON ++ (ascii "0" ++ (CRLF ++ CRLF)))))

theorem completable_line {b : Bytes} (h : ¬ CRLF <:+: b) (hsize : b.length + readSize < 2 ^ 63) :
    Completable b := by
  have hline : ¬ CRLF <:+: b ++ (SP ++ (SP ++ SLASH)) := by
    intro hin
    rcases infix_append_cons (by decide) (by decide) hin with hin | hin
    · exact h hin
    · exact absurd hin (by decide)
  have hbytes : b ++ endOfLine = messageBytes (b ++ (SP ++ (SP ++ SLASH))) [] [] := by
    simp [endOfLine, messageBytes]
  have hlength : ∀ value, OrdMap.lastValue (([] : List Bytes).map splitHeader) ContentLength =
    some value →
      ([] : Bytes).length = bodySize value := by
    intro value hvalue
    cases hvalue
  obtain ⟨r, hr⟩ := (ofString_ok_iff (b ++ endOfLine)).mpr
    ⟨_, [], [], hbytes, hline, ⟨b, [], [], [], by simp⟩, by simp, hlength⟩
  refine ⟨endOfLine, r, ?_, hr⟩
  have hlen : endOfLine.length = 7 := by decide
  rw [List.length_append, hlen]
  unfold readSize at hsize
  omega

theorem completable_headers {line tail : Bytes} {lines : List Bytes} (hline : ¬ CRLF <:+: line)
    (hstart : IsStartLine line) (hlines : ∀ l ∈ lines, IsHeaderLine l) (htail : ¬ CRLF <:+: tail)
    (hsize : (line ++ (CRLF ++ (block lines ++ tail))).length + readSize < 2 ^ 63) :
    Completable (line ++ (CRLF ++ (block lines ++ tail))) := by
  have hcut : IsHeaderLine (tail ++ COLON) := by
    refine ⟨⟨tail, [], by simp⟩, fun hin => ?_⟩
    rcases infix_append_cons (by decide) (by decide) hin with hin | hin
    · exact htail hin
    · exact absurd hin (by decide)
  have hlength : IsHeaderLine (ContentLength ++ (COLON ++ ascii "0")) := by
    refine ⟨⟨ContentLength, ascii "0", by simp⟩, by decide⟩
  have hall : ∀ l ∈ lines ++ [tail ++ COLON, ContentLength ++ (COLON ++ ascii "0")],
      IsHeaderLine l := by
    intro l hl
    simp only [List.mem_append, List.mem_cons, List.not_mem_nil, or_false] at hl
    rcases hl with hl | rfl | rfl
    · exact hlines l hl
    · exact hcut
    · exact hlength
  have hbytes : line ++ (CRLF ++ (block lines ++ tail)) ++ endOfHeaders =
      messageBytes line (lines ++ [tail ++ COLON, ContentLength ++ (COLON ++ ascii "0")]) [] := by
    simp [endOfHeaders, messageBytes, block]
  -- the last header line is the one that counts
  have hlast : OrdMap.lastValue
      ((lines ++ [tail ++ COLON, ContentLength ++ (COLON ++ ascii "0")]).map splitHeader)
        ContentLength = some (ascii "0") := by
    have hsplit : splitHeader (ContentLength ++ (COLON ++ ascii "0")) =
        (ContentLength, ascii "0") :=
      splitHeader_append (by decide) _
    simp [OrdMap.lastValue, hsplit]
  obtain ⟨r, hr⟩ := (ofString_ok_iff (line ++ (CRLF ++ (block lines ++ tail)) ++ endOfHeaders)).mpr
    ⟨line, _, [], hbytes, hline, hstart, hall, fun value hvalue => by
      rw [hlast] at hvalue
      cases hvalue
      decide⟩
  refine ⟨endOfHeaders, r, ?_, hr⟩
  have hlen : endOfHeaders.length = 25 := by decide
  rw [List.length_append, hlen]
  unfold readSize at hsize
  omega

theorem completable_text {line text : Bytes} {lines : List Bytes} (hline : ¬ CRLF <:+: line)
    (hstart : IsStartLine line) (hlines : ∀ l ∈ lines, IsHeaderLine l)
    (hsize : (messageBytes line lines text).length < 2 ^ 63)
    (hfits : RestFits (messageBytes line lines text).length lines text) :
    Completable (messageBytes line lines text) := by
  have happend : ∀ t, messageBytes line lines text ++ t = messageBytes line lines (text ++ t) := by
    simp [messageBytes]
  cases hvalue : OrdMap.lastValue (lines.map splitHeader) ContentLength with
  | none =>
      obtain ⟨r, hr⟩ := (ofString_ok_iff (messageBytes line lines text)).mpr
        ⟨line, lines, text, rfl, hline, hstart, hlines, fun value h => by
          rw [hvalue] at h
          cases h⟩
      refine ⟨[], r, ?_, ?_⟩
      · rwa [List.append_nil]
      · rwa [List.append_nil]
  | some value =>
      obtain ⟨hle, hroom⟩ := hfits value hvalue
      have hrest : (text ++ List.replicate (bodySize value - text.length) 0).length =
          bodySize value := by
        rw [List.length_append, List.length_replicate]
        omega
      obtain ⟨r, hr⟩ := (ofString_ok_iff
          (messageBytes line lines (text ++ List.replicate (bodySize value - text.length) 0))).mpr
        ⟨line, lines, _, rfl, hline, hstart, hlines, fun value' h => by
          rw [hvalue] at h
          cases h
          exact hrest⟩
      refine ⟨List.replicate (bodySize value - text.length) 0, r, ?_, ?_⟩
      · rw [List.length_append, List.length_replicate]
        exact hroom
      · rwa [happend]

/-- **What is viable can be completed.** -/
theorem ViablePrefix.completable {b : Bytes} (h : ViablePrefix b)
    (hsize : b.length + readSize < 2 ^ 63) : Completable b := by
  rcases h with hnone | ⟨line, lines, tail, rfl, hline, hstart, hlines, htail | ⟨text, rfl, hfits⟩⟩
  · exact completable_line hnone hsize
  · exact completable_headers hline hstart hlines htail hsize
  · exact completable_text hline hstart hlines (by unfold messageBytes; omega) hfits

/-- **Waiting means incomplete**, exactly for the buffers in which nothing is wrong yet.  A buffer
that is parsed had room for one more read before. -/
theorem waiting_iff (b : Bytes) (hsize : b.length + readSize < 2 ^ 63) :
    (∀ info, HTTPRequest.ofString b = .error (.ArgumentError info) → Completable b) ↔
      ViablePrefix b := by
  constructor
  · intro hwaits
    cases hparse : HTTPRequest.ofString b with
    | ok r =>
        refine viablePrefix_of_accepted (b := b) (t := []) (r := r) ?_ ?_
        · rw [List.append_nil]
          omega
        · rwa [List.append_nil]
    | error e =>
        obtain ⟨info, rfl⟩ := ofString_error hparse
        obtain ⟨t, r, hfits, hr⟩ := hwaits info hparse
        exact viablePrefix_of_accepted hfits hr
  · intro hviable info _
    exact hviable.completable hsize

/-- A buffer that ends in its second header line is waited on, and can become a request. -/
theorem waiting_iff_cut : Completable (ascii "GET / HTTP/1.1\r\nA: b\r\nHo") := by
  have hviable : ViablePrefix (ascii "GET / HTTP/1.1\r\nA: b\r\nHo") := by
    refine Or.inr ⟨ascii "GET / HTTP/1.1", [ascii "A: b"], ascii "Ho", by decide,
      by decide, ?_, ?_, ?_⟩
    · exact ⟨ascii "GET", ascii "/", ascii "HTTP", ascii "1.1", by decide⟩
    · intro l hl
      rw [List.mem_singleton.mp hl]
      exact ⟨⟨ascii "A", ascii "b", by decide⟩, by decide⟩
    · exact Or.inl (by decide)
  apply (waiting_iff _ (by decide)).mpr hviable "Header Info: Invalid string passed!"
  decide +kernel

/-- A first line without a blank is rejected like one that is cut off, and nothing completes it. -/
theorem lineWithoutBlank_not_waiting :
    ¬ ∀ info, HTTPRequest.ofString (ascii "GET\r\n") = .error (.ArgumentError info) →
      Completable (ascii "GET\r\n") := by
  intro hwaits
  obtain ⟨t, r, hfits, hr⟩ := hwaits "Method: Invalid string passed!" (by decide +kernel)
  rcases viablePrefix_of_accepted hfits hr with hnone | ⟨line, lines, tail, hb, hline, hstart, -⟩
  · exact hnone ⟨ascii "GET", [], by decide⟩
  · have hfirst : line = ascii "GET" :=
      (append_pattern_inj unbordered_CRLF (by decide) hline
        (show ascii "GET" ++ (CRLF ++ []) = line ++ (CRLF ++ (block lines ++ tail)) from hb)).1.symm
    obtain ⟨a, c, d, e, hcut⟩ := hstart
    rw [hfirst] at hcut
    have hblank : SP <:+: ascii "GET" := ⟨a, c ++ (SP ++ (d ++ (SLASH ++ e))), by rw [hcut]; simp⟩
    exact absurd hblank (by decide)

end HTTP
end AdvCppHW
