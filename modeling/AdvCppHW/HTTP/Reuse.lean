import AdvCppHW.HTTP.FailedParse

/-!
# Parsing into an object that was used before

`fromString` does not clear the object.  Headers that the new text does not name stay, the length
among them, and so does the body if no length is in force.

* `HTTPMessage.SameFrom` — what two objects must have in common for a text.
* `reuse_iff` — when a text makes the same message of two objects.
-/

namespace AdvCppHW
namespace HTTP

open Support HTTPMessage

/-- Neither object takes the text; or both do, and they have the same headers but for those that the
text names, and the same body if no length is in force. -/
def HTTPMessage.SameFrom (m m' : HTTPMessage) (x : SpelledMessage) : Prop :=
  (¬ m.Takes x ∧ ¬ m'.Takes x) ∨
    (m.Takes x ∧ m'.Takes x ∧
      (∀ name, OrdMap.lastValue x.headers name = none →
        m.m_headers.lookup name = m'.m_headers.lookup name) ∧
      ((OrdMap.lastValue x.headers ContentLength).or (m.m_headers.lookup ContentLength) = none →
        m.m_body = m'.m_body))

/-- Both runs throw, or both return and leave the same object. -/
def SameParse {ρ : Type} : EStateM.Result Exception ρ Unit → EStateM.Result Exception ρ Unit → Prop
  | .ok _ r, .ok _ r' => r = r'
  | .error _ _, .error _ _ => True
  | _, _ => False

/-! ## Two messages -/

theorem assignAll_eq_assignAll_iff {h h' : Headers} {es : List (Bytes × Bytes)} :
    h.assignAll es = h'.assignAll es ↔
      ∀ name, OrdMap.lastValue es name = none → h.lookup name = h'.lookup name := by
  constructor
  · intro heq name hname
    have hlookup := congrArg (fun h : Headers => h.lookup name) heq
    simp only [OrdMap.lookup_assignAll_eq, hname, Option.none_or] at hlookup
    exact hlookup
  · intro hsame
    apply OrdMap.ext_lookup
    intro name
    rw [OrdMap.lookup_assignAll_eq, OrdMap.lookup_assignAll_eq]
    cases hname : OrdMap.lastValue es name with
    | none => exact hsame name hname
    | some v => rfl

/-- Two messages that have taken one text are the same if their headers are, and their bodies
unless a length is in force. -/
theorem storeBody_eq_iff {m m' m₁ m₁' : HTTPMessage} {rest : Bytes}
    (hversion : m.m_version = m'.m_version) (h : m.storeBody rest = some m₁)
    (h' : m'.storeBody rest = some m₁') :
    m₁ = m₁' ↔ m.m_headers = m'.m_headers ∧
      (m.m_headers.lookup ContentLength = none → m.m_body = m'.m_body) := by
  have hheaders : m₁ = m₁' → m.m_headers = m'.m_headers := by
    intro heq
    rw [← (storeBody_kept h).2, heq, (storeBody_kept h').2]
  rcases storeBody_cases h with ⟨hnone, rfl⟩ | ⟨value, hvalue, -, rfl⟩
  · -- no length is in force, and the body is the old one
    constructor
    · intro heq
      have hsame := hheaders heq
      refine ⟨hsame, fun _ => ?_⟩
      rcases storeBody_cases h' with ⟨-, rfl⟩ | ⟨value', hvalue', -, -⟩
      · rw [heq]
      · rw [← hsame, hnone] at hvalue'
        cases hvalue'
    · rintro ⟨hsame, hbody⟩
      rcases storeBody_cases h' with ⟨-, rfl⟩ | ⟨value', hvalue', -, -⟩
      · obtain ⟨version, headers, body⟩ := m₁
        obtain ⟨version', headers', body'⟩ := m₁'
        have hbodies : body = body' := hbody hnone
        have hmaps : headers = headers' := hsame
        have hversions : version = version' := hversion
        rw [hbodies, hmaps, hversions]
      · rw [← hsame, hnone] at hvalue'
        cases hvalue'
  · -- a length is in force, and the body is the rest of the text in both
    constructor
    · intro heq
      refine ⟨hheaders heq, fun hnone => ?_⟩
      rw [hvalue] at hnone
      cases hnone
    · rintro ⟨hsame, -⟩
      rcases storeBody_cases h' with ⟨hnone', -⟩ | ⟨-, -, -, rfl⟩
      · rw [← hsame, hvalue] at hnone'
        cases hnone'
      · rw [hversion, hsame]

section TwoRuns

variable {ρ : Type} {store store' : HTTPMessage → ρ} {m m' : HTTPMessage} {x : SpelledMessage}
  {result result' : EStateM.Result Exception ρ Unit}

/-- Two runs on one text, into objects that differ in their messages only
once the text is stored. -/
theorem ParseRan.sameParse_iff (h : ParseRan store (m.write x) x.text result)
    (h' : ParseRan store' (m'.write x) x.text result')
    (hstore : ∀ rest, x.text = some rest → ∀ m₁ m₁', store m₁ = store' m₁' ↔ m₁ = m₁')
    (hversion : ∀ rest, x.text = some rest → ∃ v, x.version = some v) :
    SameParse result result' ↔ m.SameFrom m' x := by
  rcases h.cases_takes with ⟨hnot, e, rfl⟩ | ⟨htakes, rest, m₁, htext, hbody, rfl⟩
  · rcases h'.cases_takes with ⟨hnot', e', rfl⟩ | ⟨htakes', rest', m₁', -, -, rfl⟩
    · exact iff_of_true trivial (Or.inl ⟨hnot, hnot'⟩)
    · refine iff_of_false id ?_
      rintro (⟨-, hnot'⟩ | ⟨htakes, -⟩)
      · exact hnot' htakes'
      · exact hnot htakes
  · rcases h'.cases_takes with ⟨hnot', e', rfl⟩ | ⟨htakes', rest', m₁', htext', hbody', rfl⟩
    · refine iff_of_false id ?_
      rintro (⟨hnot, -⟩ | ⟨-, htakes', -⟩)
      · exact hnot htakes
      · exact hnot' htakes'
    · rw [htext] at htext'
      cases htext'
      obtain ⟨v, hv⟩ := hversion rest htext
      have hversions : (m.write x).m_version = (m'.write x).m_version := by
        simp only [HTTPMessage.write, hv, Option.getD_some]
      have hlength : (m.write x).m_headers.lookup ContentLength =
          (OrdMap.lastValue x.headers ContentLength).or (m.m_headers.lookup ContentLength) :=
        OrdMap.lookup_assignAll_eq _ _ _
      have hsame : SameParse (.ok () (store m₁)) (.ok () (store' m₁')) ↔ m₁ = m₁' :=
        hstore rest htext m₁ m₁'
      rw [hsame, storeBody_eq_iff hversions hbody hbody', hlength]
      have hheaders : (m.write x).m_headers = (m'.write x).m_headers ↔ _ :=
        assignAll_eq_assignAll_iff
      rw [hheaders]
      constructor
      · rintro ⟨hsameHeaders, hsameBody⟩
        exact Or.inr ⟨htakes, htakes', hsameHeaders, hsameBody⟩
      · rintro (⟨hnot, -⟩ | ⟨-, -, hsameHeaders, hsameBody⟩)
        · exact absurd htakes hnot
        · exact ⟨hsameHeaders, hsameBody⟩

end TwoRuns

/-! ## Requests and responses -/

/-- **Parsing does not depend on what the object held**, exactly when two objects have in common
what the text leaves in them. -/
theorem reuse_iff (s : Bytes) :
    (∀ r r' : HTTPRequest,
      SameParse ((HTTPRequest.fromString s).run r) ((HTTPRequest.fromString s).run r') ↔
        r.toHTTPMessage.SameFrom r'.toHTTPMessage (spelledRequest s).toSpelledMessage) ∧
    ∀ r r' : HTTPResponse,
      SameParse ((HTTPResponse.fromString s).run r) ((HTTPResponse.fromString s).run r') ↔
        r.toHTTPMessage.SameFrom r'.toHTTPMessage (spelledResponse s).toSpelledMessage := by
  constructor
  · intro r r'
    apply (fromString_spelled s r).sameParse_iff (fromString_spelled s r')
    · intro rest htext m₁ m₁'
      obtain ⟨-, t, method, target, version, -, hspelled⟩ := spelledRequest_reached htext
      simp [HTTPRequest.write, hspelled]
    · intro rest htext
      obtain ⟨-, t, method, target, version, -, hspelled⟩ := spelledRequest_reached htext
      rw [hspelled]
      exact ⟨version, rfl⟩
  · intro r r'
    apply (response_fromString_spelled s r).sameParse_iff (response_fromString_spelled s r')
    · intro rest htext m₁ m₁'
      obtain ⟨-, t, version, code, -, hspelled⟩ := spelledResponse_reached htext
      simp [HTTPResponse.write, hspelled]
    · intro rest htext
      obtain ⟨-, t, version, code, -, hspelled⟩ := spelledResponse_reached htext
      rw [hspelled]
      exact ⟨version, rfl⟩

/-- A request without a body, read into a fresh object and into one that has held a request with a
body of two bytes: the length of that body makes the parse fail. -/
theorem usedObject_not_sameParse :
    ¬ SameParse ((HTTPRequest.fromString (ascii "GET / HTTP/1.1\r\n\r\n")).run {})
      ((HTTPRequest.fromString (ascii "GET / HTTP/1.1\r\n\r\n")).run
        { m_method := ascii "POST", m_reqTarget := ascii "/", m_version := ascii "1.1"
          m_headers := OrdMap.empty.assign ContentLength (ascii "2"), m_body := ascii "ok" }) := by
  have hvalid : RequestText.Valid ⟨ascii "GET", ascii "/", ascii "HTTP", ascii "1.1", [], []⟩ :=
    ⟨by decide, by decide, by decide, by decide, by simp⟩
  have hrun := fromString_bytes hvalid
  have hbytes : RequestText.bytes ⟨ascii "GET", ascii "/", ascii "HTTP", ascii "1.1", [], []⟩ =
      ascii "GET / HTTP/1.1\r\n\r\n" := by decide
  rw [← hbytes, hrun, hrun]
  exact id

end HTTP
end AdvCppHW
