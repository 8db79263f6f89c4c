import AdvCppHW.HTTP.SpelledHead

/-!
# What is accepted as a length

Both `fromString` read the value of `Content-Length` with `sscanf` and `%zd`, into a
`size_t` that is zero before, and use the variable whether or not a number was read.  So an
accepted value may have blanks and a sign in front and anything behind, or no number in it
at all when there is no body.

* `textIn`, `lengthIn` — the text behind the blank line and the length that
  is in force, in any bytes.
* `bodySize_of_allDigits` — what is read from a string of digits.
* `contentLength_iff` — when the length of an accepted message says how long its text is.
-/

namespace AdvCppHW
namespace HTTP

open Support HTTPMessage

/-- What stands behind the blank line. -/
def textIn (s : Bytes) : Option Bytes :=
  match cut CRLF s with
  | none => none
  | some (_, t) => if CRLF <+: (headerBlock t).2 then some ((headerBlock t).2.drop 2) else none

/-- The value of the last `Content-Length` among the header lines. -/
def lengthIn (s : Bytes) : Option Bytes :=
  match cut CRLF s with
  | none => none
  | some (_, t) => OrdMap.lastValue ((headerBlock t).1.map splitHeader) ContentLength

/-- A non-empty string of decimal digits with this value. -/
def Announces (value : Bytes) (n : Nat) : Prop :=
  value ≠ [] ∧ AllDigits value ∧ digitsValue value = n

/-- The length among the headers, if there is one, is the number of bytes behind the blank line. -/
def Validated (s : Bytes) (headers : Headers) : Prop :=
  ∀ value, headers.lookup ContentLength = some value →
    ∃ text, textIn s = some text ∧ Announces value text.length

/-- A non-empty string of decimal digits whose value is in the range of `ssize_t`. -/
def PlainLength (value : Bytes) : Prop := value ≠ [] ∧ AllDigits value ∧ digitsValue value < 2 ^ 63

/-- Larger numbers are read as the largest one. -/
theorem bodySize_of_allDigits {value : Bytes} (hne : value ≠ []) (hdigits : AllDigits value) :
    bodySize value = min (digitsValue value) (2 ^ 63 - 1) := by
  rw [bodySize, sscanfZd_of_allDigits hdigits hne, Option.map_some, Option.getD_some]
  unfold toSizeT clampSsize
  omega

theorem announces_bodySize_iff {value : Bytes} :
    Announces value (bodySize value) ↔ PlainLength value := by
  constructor
  · rintro ⟨hne, hdigits, hvalue⟩
    refine ⟨hne, hdigits, ?_⟩
    rw [bodySize_of_allDigits hne hdigits] at hvalue
    omega
  · rintro ⟨hne, hdigits, hrange⟩
    refine ⟨hne, hdigits, ?_⟩
    rw [bodySize_of_allDigits hne hdigits]
    omega

/-- What is stored of a message, by what is in its text. -/
theorem validated_iff {s rest : Bytes} {x : SpelledMessage} {m : HTTPMessage}
    (htext : textIn s = some rest) (hlength : OrdMap.lastValue x.headers ContentLength = lengthIn s)
    (hm : (HTTPMessage.write {} x).storeBody rest = some m) :
    Validated s m.m_headers ↔ ∀ value, lengthIn s = some value → PlainLength value := by
  have hwritten : (HTTPMessage.write {} x).m_headers.lookup ContentLength = lengthIn s := by
    show (OrdMap.empty.assignAll x.headers).lookup ContentLength = lengthIn s
    rw [OrdMap.lookup_assignAll_eq, OrdMap.lookup_empty, Option.or_none, hlength]
  have hstored : m.m_headers.lookup ContentLength = lengthIn s := by
    rw [(storeBody_kept hm).2, hwritten]
  have hrest : ∀ value, lengthIn s = some value → rest.length = bodySize value := by
    have h := storeBody_isSome_iff.mp ⟨m, hm⟩
    rwa [hwritten] at h
  unfold Validated
  rw [hstored]
  constructor
  · intro h value hvalue
    obtain ⟨text, htext', hannounces⟩ := h value hvalue
    rw [htext] at htext'
    cases htext'
    rw [hrest value hvalue] at hannounces
    exact announces_bodySize_iff.mp hannounces
  · intro h value hvalue
    refine ⟨rest, htext, ?_⟩
    rw [hrest value hvalue]
    exact announces_bodySize_iff.mpr (h value hvalue)

theorem spelledRequest_in {s rest : Bytes} (h : (spelledRequest s).text = some rest) :
    textIn s = some rest ∧
      OrdMap.lastValue (spelledRequest s).headers ContentLength = lengthIn s := by
  obtain ⟨line, t, method, target, version, hcut, hspelled⟩ := spelledRequest_reached h
  rw [hspelled] at h ⊢
  unfold textIn lengthIn
  rw [hcut]
  exact ⟨h, rfl⟩

theorem spelledResponse_in {s rest : Bytes} (h : (spelledResponse s).text = some rest) :
    textIn s = some rest ∧
      OrdMap.lastValue (spelledResponse s).headers ContentLength = lengthIn s := by
  obtain ⟨line, t, version, code, hcut, hspelled⟩ := spelledResponse_reached h
  rw [hspelled] at h ⊢
  unfold textIn lengthIn
  rw [hcut]
  exact ⟨h, rfl⟩

/-- **The length of an accepted message** is the number of bytes behind its blank line exactly when
it is written in digits only, with a value that `ssize_t` can hold. -/
theorem contentLength_iff (s : Bytes) :
    (∀ r, HTTPRequest.ofString s = .ok r →
      (Validated s r.m_headers ↔ ∀ value, lengthIn s = some value → PlainLength value)) ∧
    ∀ r, HTTPResponse.ofString s = .ok r →
      (Validated s r.m_headers ↔ ∀ value, lengthIn s = some value → PlainLength value) := by
  constructor
  · intro r hr
    obtain ⟨rest, m, htext, hm, rfl⟩ := (ofString_spelled s r).mp hr
    obtain ⟨hin, hlength⟩ := spelledRequest_in htext
    exact validated_iff hin hlength hm
  · intro r hr
    obtain ⟨rest, m, htext, hm, rfl⟩ := (response_ofString_spelled s r).mp hr
    obtain ⟨hin, hlength⟩ := spelledResponse_in htext
    exact validated_iff hin hlength hm

/-- `POST / HTTP/1.1` with this length and this text. -/
def withLength (value text : String) : Bytes :=
  ascii "POST / HTTP/1.1\r\nContent-Length: " ++ (ascii value ++ (CRLF ++ (CRLF ++ ascii text)))

theorem contentLength_iff_two :
    Validated (withLength "2" "ok") (OrdMap.empty.assign ContentLength (ascii "2")) := by
  have hlength : lengthIn (withLength "2" "ok") = some (ascii "2") := by decide +kernel
  apply ((contentLength_iff (withLength "2" "ok")).1
    { m_method := ascii "POST", m_reqTarget := ascii "/", m_version := ascii "1.1"
      m_headers := OrdMap.empty.assign ContentLength (ascii "2"), m_body := ascii "ok" }
    (by decide +kernel)).mpr
  intro value hvalue
  rw [hlength] at hvalue
  cases hvalue
  refine ⟨by decide, ?_, by decide⟩
  unfold AllDigits
  decide +kernel

/-- Three letters are accepted as the length of no body. -/
theorem lengthOfLetters_accepted :
    ¬ ∀ (s : Bytes) (r : HTTPRequest), HTTPRequest.ofString s = .ok r →
      Validated s r.m_headers := by
  intro h
  have hvalidated := h (withLength "abc" "")
    { m_method := ascii "POST", m_reqTarget := ascii "/", m_version := ascii "1.1"
      m_headers := OrdMap.empty.assign ContentLength (ascii "abc") } (by decide +kernel)
  obtain ⟨-, -, -, hdigits, -⟩ := hvalidated (ascii "abc") (by decide)
  revert hdigits
  unfold AllDigits
  decide +kernel

end HTTP
end AdvCppHW
