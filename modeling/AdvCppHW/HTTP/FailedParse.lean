import AdvCppHW.HTTP.SpelledHead

/-!
# What a failed parse leaves behind

`fromString` works on the object itself, so a parse that fails late has
replaced what the object held.

* `HTTPMessage.Takes` — when the text of a message is taken by an object; `Holds` — when an object
  holds what a text spells already.
* `failedParse_unchanged_iff` — when a failed parse leaves the object as it was.
-/

namespace AdvCppHW
namespace HTTP

open Support HTTPMessage

/-- The text has a blank line, and behind it as many bytes as the length says that is in force then:
the last one in the text, or the one the object had before. -/
def HTTPMessage.Takes (m : HTTPMessage) (x : SpelledMessage) : Prop :=
  ∃ text, x.text = some text ∧
    ∀ value, (OrdMap.lastValue x.headers ContentLength).or (m.m_headers.lookup ContentLength) =
      some value →
      text.length = bodySize value

/-- Each part that a text spells is in the message already. -/
structure HTTPMessage.Holds (m : HTTPMessage) (x : SpelledMessage) : Prop where
  version : ∀ v, x.version = some v → m.m_version = v
  /-- Of several lines with one name, the last one counts. -/
  headers : ∀ name value, OrdMap.lastValue x.headers name = some value →
    m.m_headers.lookup name = some value

structure HTTPRequest.Holds (r : HTTPRequest) (x : SpelledRequest) : Prop where
  message : r.toHTTPMessage.Holds x.toSpelledMessage
  method : ∀ v, x.method = some v → r.m_method = v
  target : ∀ v, x.target = some v → r.m_reqTarget = v

structure HTTPResponse.Holds (r : HTTPResponse) (x : SpelledResponse) : Prop where
  message : r.toHTTPMessage.Holds x.toSpelledMessage
  statusCode : ∀ v, x.statusCode = some v → r.m_statusCode = v

/-! ## Writing what is there already -/

theorem getD_eq_self_iff {α : Type} {x : Option α} {a : α} :
    x.getD a = a ↔ ∀ v, x = some v → a = v := by
  cases x with
  | none => simp
  | some v => simp [eq_comm]

theorem HTTPMessage.write_eq_self_iff {m : HTTPMessage} {x : SpelledMessage} :
    m.write x = m ↔ m.Holds x := by
  have hfields : m.write x = m ↔
      x.version.getD m.m_version = m.m_version ∧ m.m_headers.assignAll x.headers = m.m_headers := by
    obtain ⟨version, headers, body⟩ := m
    simp [HTTPMessage.write]
  rw [hfields, getD_eq_self_iff, OrdMap.assignAll_eq_self_iff]
  exact ⟨fun ⟨hversion, hheaders⟩ => ⟨hversion, hheaders⟩, fun h => ⟨h.version, h.headers⟩⟩

theorem HTTPRequest.write_eq_self_iff {r : HTTPRequest} {x : SpelledRequest} :
    r.write x = r ↔ r.Holds x := by
  have hfields : r.write x = r ↔ r.toHTTPMessage.write x.toSpelledMessage = r.toHTTPMessage ∧
      x.method.getD r.m_method = r.m_method ∧ x.target.getD r.m_reqTarget = r.m_reqTarget := by
    obtain ⟨m, method, target⟩ := r
    simp [HTTPRequest.write]
  rw [hfields, HTTPMessage.write_eq_self_iff, getD_eq_self_iff, getD_eq_self_iff]
  exact ⟨fun ⟨hm, hmethod, htarget⟩ => ⟨hm, hmethod, htarget⟩, fun h =>
    ⟨h.message, h.method, h.target⟩⟩

theorem HTTPResponse.write_eq_self_iff {r : HTTPResponse} {x : SpelledResponse} :
    r.write x = r ↔ r.Holds x := by
  have hfields : r.write x = r ↔ r.toHTTPMessage.write x.toSpelledMessage = r.toHTTPMessage ∧
      x.statusCode.getD r.m_statusCode = r.m_statusCode := by
    obtain ⟨m, code⟩ := r
    simp [HTTPResponse.write]
  rw [hfields, HTTPMessage.write_eq_self_iff, getD_eq_self_iff]
  exact ⟨fun ⟨hm, hcode⟩ => ⟨hm, hcode⟩, fun h => ⟨h.message, h.statusCode⟩⟩

/-! ## Ends of a parse -/

/-- A parse that has thrown has left the object as it was. -/
def Unchanged {ρ : Type} (r : ρ) : EStateM.Result Exception ρ Unit → Prop
  | .ok _ _ => True
  | .error _ r' => r' = r

theorem takes_iff {m : HTTPMessage} {x : SpelledMessage} :
    m.Takes x ↔ ∃ rest m', x.text = some rest ∧ (m.write x).storeBody rest = some m' := by
  have hlength : (m.write x).m_headers.lookup ContentLength =
      (OrdMap.lastValue x.headers ContentLength).or (m.m_headers.lookup ContentLength) :=
    OrdMap.lookup_assignAll_eq _ _ _
  constructor
  · rintro ⟨rest, htext, hlen⟩
    rw [← hlength] at hlen
    obtain ⟨m', hm'⟩ := storeBody_isSome_iff.mpr hlen
    exact ⟨rest, m', htext, hm'⟩
  · rintro ⟨rest, m', htext, hm'⟩
    refine ⟨rest, htext, ?_⟩
    rw [← hlength]
    exact storeBody_isSome_iff.mp ⟨m', hm'⟩

/-- A run throws when the object does not take the text, and then has
written what the text spells. -/
theorem ParseRan.cases_takes {ρ : Type} {store : HTTPMessage → ρ} {m : HTTPMessage}
    {x : SpelledMessage} {result : EStateM.Result Exception ρ Unit}
    (h : ParseRan store (m.write x) x.text result) :
    (¬ m.Takes x ∧ ∃ e, result = .error e (store (m.write x))) ∨
      (m.Takes x ∧ ∃ rest m', x.text = some rest ∧ (m.write x).storeBody rest = some m' ∧
        result = .ok () (store m')) := by
  cases h with
  | defect htext =>
      refine Or.inl ⟨?_, _, rfl⟩
      rintro ⟨rest, hrest, -⟩
      rw [htext] at hrest
      cases hrest
  | mismatch htext hbody =>
      refine Or.inl ⟨?_, _, rfl⟩
      rw [takes_iff]
      rintro ⟨rest, m', hrest, hm'⟩
      rw [htext] at hrest
      cases hrest
      rw [hbody] at hm'
      cases hm'
  | read htext hbody =>
      exact Or.inr ⟨takes_iff.mpr ⟨_, _, htext, hbody⟩, _, _, htext, hbody, rfl⟩

/-- A run changes nothing in an object that it leaves by an exception, if it does not throw or has
written what was there. -/
theorem ParseRan.unchanged_iff {ρ : Type} {store : HTTPMessage → ρ} {m : HTTPMessage}
    {x : SpelledMessage} {result : EStateM.Result Exception ρ Unit}
    (h : ParseRan store (m.write x) x.text result)
    (r : ρ) : Unchanged r result ↔ m.Takes x ∨ store (m.write x) = r := by
  rcases h.cases_takes with ⟨hnot, e, rfl⟩ | ⟨htakes, -, -, -, -, rfl⟩
  · exact (or_iff_right hnot).symm
  · exact iff_of_true trivial (Or.inl htakes)

/-- **A failed parse leaves the message as it was**, exactly when the parts of the text in front of
the defect are what the object held before. -/
theorem failedParse_unchanged_iff (s : Bytes) :
    (∀ r : HTTPRequest, Unchanged r ((HTTPRequest.fromString s).run r) ↔
      r.toHTTPMessage.Takes (spelledRequest s).toSpelledMessage ∨ r.Holds (spelledRequest s)) ∧
    ∀ r : HTTPResponse, Unchanged r ((HTTPResponse.fromString s).run r) ↔
      r.toHTTPMessage.Takes (spelledResponse s).toSpelledMessage ∨ r.Holds (spelledResponse s) := by
  constructor
  · intro r
    rw [(fromString_spelled s r).unchanged_iff r, ← HTTPRequest.write_eq_self_iff]
    rfl
  · intro r
    rw [(response_fromString_spelled s r).unchanged_iff r, ← HTTPResponse.write_eq_self_iff]
    rfl

/-- A request without a second blank in its first line, and a response whose code is no number: what
stands in front of the defect is stored. -/
theorem cutLines_not_unchanged :
    ¬ Unchanged {} ((HTTPRequest.fromString (ascii "GET /\r\n\r\n")).run {}) ∧
      ¬ Unchanged {} ((HTTPResponse.fromString (ascii "HTTP/1.1 abc OK\r\n\r\n")).run {}) := by
  constructor
  · have hrun : (HTTPRequest.fromString (ascii "GET /\r\n\r\n")).run {} =
        .error (.ArgumentError "Target: Invalid string passed!") { m_method := ascii "GET" } := by
      have hline : ¬ CRLF <:+: ascii "GET /" := by decide
      apply fromString_threw hline CRLF
      exact readRequestLine_oneBlank (m := ascii "GET") (l := ascii "/") (by decide) (by decide) {}
    rw [hrun]
    exact fun h => absurd (congrArg HTTPRequest.m_method h) (by decide)
  · have hslash : ascii "HTTP/1.1 abc OK" = ascii "HTTP" ++ (SLASH ++ ascii "1.1 abc OK") := rfl
    have hblank : ascii "HTTP/1.1 abc OK" = ascii "HTTP/1.1" ++ (SP ++ ascii "abc OK") := rfl
    have hcode : ascii "abc OK" = ascii "abc" ++ (SP ++ ascii "OK") := rfl
    have hread := readStatusLine_found hslash (by decide) hblank (by decide) hcode (by decide) {}
    have hrun : (HTTPResponse.fromString (ascii "HTTP/1.1 abc OK\r\n\r\n")).run {} =
        .error .invalid_argument { m_version := ascii "1.1" } :=
      response_fromString_threw (by decide) CRLF hread
    rw [hrun]
    exact fun h => absurd (congrArg (fun r : HTTPResponse => r.m_version) h) (by decide)

end HTTP
end AdvCppHW
