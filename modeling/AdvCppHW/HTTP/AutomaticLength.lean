import AdvCppHW.HTTP.RequestRoundTrip
import AdvCppHW.HTTP.ResponseRoundTrip

/-!
# The length that `toString` adds

`toString` puts the length of a non-empty body among the headers and leaves it there.  The calls
that change the body do not take it out again, so it is the length of the first body that was sent.

* `MessageCall` — the calls on a message; `HTTPRequest.sent`, `HTTPResponse.sent` — what the
  `toString` calls among them return.
* `Length` — what the headers say about the length, as an invariant of all calls;
  `announcesBody_iff` — when a text with it is read back.
* `sentRight_iff` — when all texts are right; `automaticLength_iff` — for both classes.
-/

namespace AdvCppHW
namespace HTTP

open Support HTTPMessage

/-! ## Sequences of calls -/

/-- A call on a request or a response. -/
inductive MessageCall where
  | setBody (body : Bytes)
  | clearBody
  | setHTTPversion (version : Bytes)
  | addHeaderLine (header info : Bytes)
  | removeHeaderLine (header : Bytes)
  | toString
deriving DecidableEq

/-- What a call does to the base class. -/
def MessageCall.run (m : HTTPMessage) : MessageCall → HTTPMessage
  | setBody body => m.setBody body
  | clearBody => m.clearBody
  | setHTTPversion version => m.setHTTPversion version
  | addHeaderLine header info => m.addHeaderLine header info
  | removeHeaderLine header => m.removeHeaderLine header
  | toString => m.withContentLength

def HTTPRequest.call (r : HTTPRequest) (c : MessageCall) : HTTPRequest :=
  if c = .toString then r.toString.2 else { r with toHTTPMessage := c.run r.toHTTPMessage }

def HTTPResponse.call (r : HTTPResponse) (c : MessageCall) : HTTPResponse :=
  if c = .toString then r.toString.2 else { r with toHTTPMessage := c.run r.toHTTPMessage }

/-- The strings that the `toString` calls return, each with the object at that call. -/
def HTTPRequest.sent (r : HTTPRequest) : List MessageCall → List (Bytes × HTTPRequest)
  | [] => []
  | c :: calls => (if c = .toString then [(r.toString.1, r)] else []) ++ sent (r.call c) calls

def HTTPResponse.sent (r : HTTPResponse) : List MessageCall → List (Bytes × HTTPResponse)
  | [] => []
  | c :: calls => (if c = .toString then [(r.toString.1, r)] else []) ++ sent (r.call c) calls

/-- What was parsed has the body, and a length only if it is that of the body. -/
def ParsesBack (parsed : Except Exception HTTPMessage) (body : Bytes) : Prop :=
  ∃ q, parsed = .ok q ∧ q.m_body = body ∧
    ∀ v, q.m_headers.lookup ContentLength = some v → v = to_string body.length

/-- The parts of a call can be told apart in a text and do not name the length; `version` is
what is asked of a version. -/
def MessageCall.Admissible (version : Bytes → Prop) : MessageCall → Prop
  -- `std::string::max_size()`
  | setBody body => body.length < 2 ^ 63
  | setHTTPversion v => version v
  | addHeaderLine header info =>
      header ≠ ContentLength ∧ (¬ COLON <:+: header ∧ ¬ CRLF <:+: header) ∧ ¬ CRLF <:+: info
  | removeHeaderLine header => header ≠ ContentLength
  | clearBody | toString => True

/-- The bodies at the `toString` calls. -/
def bodiesSent (body : Bytes) : List MessageCall → List Bytes
  | [] => []
  | .setBody body' :: calls => bodiesSent body' calls
  | .clearBody :: calls => bodiesSent [] calls
  | .toString :: calls => body :: bodiesSent body calls
  | .setHTTPversion _ :: calls | .addHeaderLine _ _ :: calls | .removeHeaderLine _ :: calls =>
      bodiesSent body calls

/-- From the first body that is not empty on, all have the same length. -/
def OneLength (bodies : List Bytes) : Prop :=
  (bodies.dropWhile fun body => body = []).Pairwise fun body body' => body.length = body'.length

instance (bodies : List Bytes) : Decidable (OneLength bodies) :=
  inferInstanceAs (Decidable (List.Pairwise _ _))

/-! ## Messages -/

/-- The headers of a message can be told apart, and say that the length is
`length`, if they say anything. -/
structure Length (length : Option Nat) (m : HTTPMessage) : Prop where
  delimited : m.Delimited
  body_size : m.m_body.length < 2 ^ 63
  lookup : m.m_headers.lookup ContentLength = length.map to_string
  length_size : ∀ n, length = some n → n < 2 ^ 63

/-- The length that is in force behind a call. -/
def MessageCall.length (m : HTTPMessage) (length : Option Nat) (c : MessageCall) : Option Nat :=
  if c = .toString ∧ m.m_body ≠ [] then some (length.getD m.m_body.length) else length

theorem delimited_assign {m : HTTPMessage} (h : m.Delimited) {header info : Bytes}
    (hheader : ¬ COLON <:+: header ∧ ¬ CRLF <:+: header) (hinfo : ¬ CRLF <:+: info) :
    (m.addHeaderLine header info).Delimited := by
  constructor
  · intro e he
    rcases OrdMap.mem_entries_assign he with rfl | he
    · exact hheader
    · exact h.names e he
  · intro e he
    rcases OrdMap.mem_entries_assign he with rfl | he
    · exact hinfo
    · exact h.values e he

theorem delimited_erase {m : HTTPMessage} (h : m.Delimited) (header : Bytes) :
    (m.removeHeaderLine header).Delimited :=
  ⟨fun e he => h.names e (List.mem_of_mem_filter he), fun e he =>
    h.values e (List.mem_of_mem_filter he)⟩

/-- What a call keeps. -/
theorem length_run {length : Option Nat} {m : HTTPMessage} (h : Length length m)
    {version : Bytes → Prop} {c : MessageCall}
    (hc : c.Admissible version) : Length (c.length m length) (c.run m) := by
  cases c with
  | setBody body => exact ⟨⟨h.delimited.names, h.delimited.values⟩, hc, h.lookup, h.length_size⟩
  | clearBody =>
      exact ⟨⟨h.delimited.names, h.delimited.values⟩, by simp [MessageCall.run, clearBody],
        h.lookup, h.length_size⟩
  | setHTTPversion v =>
      exact ⟨⟨h.delimited.names, h.delimited.values⟩, h.body_size, h.lookup, h.length_size⟩
  | addHeaderLine header info =>
      refine ⟨delimited_assign h.delimited hc.2.1 hc.2.2, h.body_size, ?_, h.length_size⟩
      exact (OrdMap.lookup_assign_ne _ (Ne.symm hc.1) _).trans h.lookup
  | removeHeaderLine header =>
      refine ⟨delimited_erase h.delimited header, h.body_size, ?_, h.length_size⟩
      exact (OrdMap.lookup_erase_ne _ (Ne.symm hc)).trans h.lookup
  | toString =>
      have hrun : MessageCall.run m .toString = { m with m_headers := m.sentHeaders } :=
        withContentLength_eq m
      have hlookup := h.lookup
      rw [hrun]
      refine ⟨⟨fun e he => sentHeaders_names h.delimited he, fun e he =>
        sentHeaders_values h.delimited he⟩, h.body_size, ?_, ?_⟩
      · show m.sentHeaders.lookup ContentLength = _
        unfold HTTPMessage.sentHeaders MessageCall.length
        cases length with
        | none =>
            by_cases hbody : m.m_body = []
            · simpa [hbody] using hlookup
            · simp [hbody, show m.m_headers.lookup ContentLength = none from hlookup]
        | some n =>
            have hsome : m.m_headers.lookup ContentLength = some (to_string n) := hlookup
            simp [hsome]
      · intro n hn
        unfold MessageCall.length at hn
        split at hn
        · cases length with
          | none =>
              cases hn
              exact h.body_size
          | some n' =>
              cases hn
              exact h.length_size _ rfl
        · exact h.length_size n hn

/-- Behind the headers that are sent, the body is read as the body, and the length is right. -/
def HTTPMessage.AnnouncesBody (m : HTTPMessage) : Prop :=
  m.Announced ∧ ∀ v, m.sentHeaders.lookup ContentLength = some v → v = to_string m.m_body.length

theorem announcesBody_iff {length : Option Nat} {m : HTTPMessage} (h : Length length m) :
    m.AnnouncesBody ↔ ∀ n, length = some n → m.m_body.length = n := by
  have hlookup := h.lookup
  constructor
  · rintro ⟨hannounced, -⟩ n rfl
    have hsome : m.m_headers.lookup ContentLength = some (to_string n) := hlookup
    have hsent : m.sentHeaders = m.m_headers := by
      rw [HTTPMessage.sentHeaders, if_neg (by simp [hsome])]
    rw [HTTPMessage.Announced, hsent] at hannounced
    rcases storeBody_cases hannounced with ⟨hnone, -⟩ | ⟨v, hv, hsize, -⟩
    · rw [show (_ : Headers).lookup ContentLength = none from hnone] at hsome
      cases hsome
    · have hsame : v = to_string n := Option.some.inj (hv.symm.trans hsome)
      rw [hsize, hsame, bodySize_to_string (h.length_size n rfl)]
  · intro hlength
    have hwell : m.WellFormed := by
      refine ⟨h.delimited.names, h.delimited.values, fun v hv => ?_, h.body_size⟩
      rw [hlookup] at hv
      obtain ⟨n, hn, rfl⟩ := Option.map_eq_some_iff.mp hv
      rw [hlength n hn]
    refine ⟨hwell.announced, fun v hv => ?_⟩
    rcases lookup_sentHeaders hwell with hsome | ⟨hnone, -⟩
    · exact Option.some.inj (hv.symm.trans hsome)
    · rw [hnone] at hv
      cases hv

/-! ## All calls -/

/-- The messages at the `toString` calls. -/
def messagesSent (m : HTTPMessage) : List MessageCall → List HTTPMessage
  | [] => []
  | c :: calls => (if c = .toString then [m] else []) ++ messagesSent (c.run m) calls

theorem bodiesSent_cons (m : HTTPMessage) (c : MessageCall) (calls : List MessageCall) :
    bodiesSent m.m_body (c :: calls) =
      (if c = .toString then [m.m_body] else []) ++ bodiesSent (c.run m).m_body calls := by
  cases c with
  | toString =>
      have hrun : MessageCall.run m .toString = { m with m_headers := m.sentHeaders } :=
        withContentLength_eq m
      have hbody : (MessageCall.run m .toString).m_body = m.m_body := by rw [hrun]
      rw [hbody]
      rfl
  | setBody body => rfl
  | clearBody => rfl
  | setHTTPversion v => rfl
  | addHeaderLine header info => rfl
  | removeHeaderLine header => rfl

/-- The bodies that are sent while a length is in force. -/
def KeepsLength : Option Nat → List Bytes → Prop
  | none, bodies => OneLength bodies
  | some n, bodies => ∀ body ∈ bodies, body.length = n

theorem oneLength_cons {body : Bytes} (hbody : body ≠ []) (bodies : List Bytes) :
    OneLength (body :: bodies) ↔ ∀ body' ∈ bodies, body'.length = body.length := by
  rw [OneLength, List.dropWhile_cons_of_neg (by simpa using hbody), List.pairwise_cons]
  constructor
  · intro h body' hmem
    exact (h.1 body' hmem).symm
  · intro h
    refine ⟨fun body' hmem => (h body' hmem).symm, ?_⟩
    exact List.pairwise_of_forall_mem_list fun a ha b hb => (h a ha).trans (h b hb).symm

/-- Sending a body, with a length in force or not. -/
theorem keepsLength_cons (length : Option Nat) (m : HTTPMessage) (bodies : List Bytes) :
    KeepsLength length (m.m_body :: bodies) ↔
      (∀ n, length = some n → m.m_body.length = n) ∧
        KeepsLength (MessageCall.length m length .toString) bodies := by
  unfold MessageCall.length
  cases length with
  | some n =>
      have hforce : (if MessageCall.toString = .toString ∧ m.m_body ≠ [] then
          some ((some n).getD m.m_body.length) else some n) = some n := by simp
      rw [hforce]
      simp [KeepsLength]
  | none =>
      by_cases hbody : m.m_body = []
      · simp [KeepsLength, OneLength, hbody]
      · have hforce : (if MessageCall.toString = .toString ∧ m.m_body ≠ [] then
            some ((none : Option Nat).getD m.m_body.length) else none) = some m.m_body.length := by
          simp [hbody]
        rw [hforce]
        simp [KeepsLength, oneLength_cons hbody]

/-- All messages are sent right, exactly when their bodies keep the length that is in force. -/
theorem sentRight_iff {length : Option Nat} {m : HTTPMessage} (h : Length length m)
    {version : Bytes → Prop} (calls : List MessageCall)
    (hcalls : ∀ c ∈ calls, c.Admissible version) :
    (∀ m' ∈ messagesSent m calls, m'.AnnouncesBody) ↔ KeepsLength length
    (bodiesSent m.m_body calls) := by
  -- on the calls; `toString` is the only one that changes the length in force
  induction calls generalizing m length with
  | nil =>
      refine iff_of_true (by simp [messagesSent]) ?_
      cases length with
      | none => exact List.Pairwise.nil
      | some n => simp [KeepsLength, bodiesSent]
  | cons c calls ih =>
      have hnext := ih (length_run h (hcalls c List.mem_cons_self))
        fun c' hc' => hcalls c' (List.mem_cons_of_mem c hc')
      rw [bodiesSent_cons, messagesSent]
      by_cases hc : c = .toString
      · subst hc
        rw [if_pos rfl, if_pos rfl, List.singleton_append, List.singleton_append,
          List.forall_mem_cons, keepsLength_cons, announcesBody_iff h, hnext]
      · have hkept : c.length m length = length := by
          rw [MessageCall.length, if_neg (fun hboth => hc hboth.1)]
        rw [if_neg hc, if_neg hc, List.nil_append, List.nil_append, hnext, hkept]

/-! ## Requests and responses -/

theorem HTTPRequest.call_eq (r : HTTPRequest) (c : MessageCall) :
    r.call c = { r with toHTTPMessage := c.run r.toHTTPMessage } := by
  unfold HTTPRequest.call
  split
  · next h =>
      rw [h]
      rfl
  · rfl

theorem HTTPResponse.call_eq (r : HTTPResponse) (c : MessageCall) :
    r.call c = { r with toHTTPMessage := c.run r.toHTTPMessage } := by
  unfold HTTPResponse.call
  split
  · next h =>
      rw [h]
      rfl
  · rfl

/-- Headers that are sent without a length are sent without a body, so that a text whose body can be
read is read as the message. -/
theorem announced_of_storeBody {m m' : HTTPMessage}
    (h : HTTPMessage.storeBody { m with m_headers := m.sentHeaders, m_body := [] } m.m_body =
      some m') :
    m.Announced := by
  rw [HTTPMessage.Announced, h]
  rcases storeBody_cases h with ⟨hnone, rfl⟩ | ⟨value, -, -, rfl⟩
  · have hbody : m.m_body = [] := by
      by_contra hbody
      have hlookup : m.sentHeaders.lookup ContentLength = none := hnone
      unfold HTTPMessage.sentHeaders at hlookup
      split at hlookup
      · rw [OrdMap.lookup_assign_self] at hlookup
        cases hlookup
      · next hadded => exact hadded ⟨hlookup, hbody⟩
    simp [hbody]
  · rfl

/-- What is parsed from a text is right, if the text is taken and its length is right. -/
theorem parsesBack_iff {m : HTTPMessage} {parsed : Except Exception HTTPMessage}
    (hok : m.Announced → parsed = .ok { m with m_headers := m.sentHeaders })
    (hannounced : ∀ q, parsed = .ok q → m.Announced) :
    ParsesBack parsed m.m_body ↔ m.AnnouncesBody := by
  constructor
  · rintro ⟨q, hq, -, hlength⟩
    have htaken := hannounced q hq
    rw [hok htaken] at hq
    cases hq
    exact ⟨htaken, hlength⟩
  · rintro ⟨htaken, hlength⟩
    exact ⟨_, hok htaken, rfl, hlength⟩

/-- A delimited request is read back exactly if its text is taken as its body. -/
theorem parsesBack_request_iff {r : HTTPRequest} (hr : r.Delimited) :
    ParsesBack ((HTTPRequest.ofString r.toString.1).map HTTPRequest.toHTTPMessage) r.m_body ↔
      r.AnnouncesBody := by
  apply parsesBack_iff
  · intro htaken
    rw [ofString_toString_of_delimited hr htaken]
    rfl
  · intro q hq
    have hrest : r.text.rest = r.m_body := rfl
    rw [toString_eq_bytes, ofString_bytes (toString_valid hr), RequestText.request, parsed_text hr,
      hrest] at hq
    cases hstored : HTTPMessage.storeBody
        { r.toHTTPMessage with m_headers := r.sentHeaders, m_body := [] } r.m_body with
    | some m' => exact announced_of_storeBody hstored
    | none =>
        simp only [hstored] at hq
        cases hq

theorem parsesBack_response_iff {r : HTTPResponse} (hr : r.Delimited) :
    ParsesBack ((HTTPResponse.ofString r.toString.1).map HTTPResponse.toHTTPMessage) r.m_body ↔
      r.AnnouncesBody := by
  apply parsesBack_iff
  · intro htaken
    rw [ofString_response_of_delimited hr htaken]
    rfl
  · intro q hq
    have hcode : ∀ st : HTTPResponse, (stoi r.text.code).run st = .ok r.m_statusCode st :=
      fun st => stoi_to_stringInt hr.statusCode.1 hr.statusCode.2 st
    have hrest : r.text.rest = r.m_body := rfl
    rw [HTTPResponse.ofString, response_toString_eq_bytes,
      response_fromString_bytes (response_toString_valid hr) hcode,
      response_parsed_text hr, hrest] at hq
    cases hstored : HTTPMessage.storeBody
        { r.toHTTPMessage with m_headers := r.sentHeaders, m_body := [] } r.m_body with
    | some m' => exact announced_of_storeBody hstored
    | none =>
        simp only [hstored] at hq
        cases hq

/-- What is asked of the version of a request, and of a response. -/
def RequestVersion (v : Bytes) : Prop := ¬ CRLF <:+: v

def ResponseVersion (v : Bytes) : Prop := ¬ SP <:+: v ∧ ¬ CRLF <:+: v

theorem version_run {version : Bytes → Prop} {m : HTTPMessage} (h : version m.m_version)
    {c : MessageCall} (hc : c.Admissible version) : version (c.run m).m_version := by
  cases c with
  | setHTTPversion v => exact hc
  | toString =>
      have hrun : MessageCall.run m .toString = { m with m_headers := m.sentHeaders } :=
        withContentLength_eq m
      rw [hrun]
      exact h
  | setBody body => exact h
  | clearBody => exact h
  | addHeaderLine header info => exact h
  | removeHeaderLine header => exact h

/-- The version and the headers of whatever is sent can be told apart in a text. -/
theorem messagesSent_delimited {version : Bytes → Prop} {m : HTTPMessage}
    (hversion : version m.m_version) {length : Option Nat} (h : Length length m)
    {calls : List MessageCall}
    (hcalls : ∀ c ∈ calls, c.Admissible version) :
    ∀ m' ∈ messagesSent m calls, version m'.m_version ∧ m'.Delimited := by
  induction calls generalizing m length with
  | nil =>
      intro m' hmem
      cases hmem
  | cons c calls ih =>
      have hc := hcalls c List.mem_cons_self
      rw [messagesSent, List.forall_mem_append]
      constructor
      · intro m' hmem
        split at hmem
        · rw [List.mem_singleton.mp hmem]
          exact ⟨hversion, h.delimited⟩
        · cases hmem
      · exact ih (version_run hversion hc) (length_run h hc) fun c' hc' =>
          hcalls c' (List.mem_cons_of_mem c hc')

theorem request_sent_eq (r : HTTPRequest) (calls : List MessageCall) :
    r.sent calls = (messagesSent r.toHTTPMessage calls).map fun m =>
      ((HTTPRequest.toString { r with toHTTPMessage := m }).1, { r with toHTTPMessage := m }) := by
  induction calls generalizing r with
  | nil => rfl
  | cons c calls ih =>
      rw [HTTPRequest.sent, messagesSent, HTTPRequest.call_eq, ih, List.map_append]
      split
      · rfl
      · rfl

theorem response_sent_eq (r : HTTPResponse) (calls : List MessageCall) :
    r.sent calls = (messagesSent r.toHTTPMessage calls).map fun m =>
      ((HTTPResponse.toString { r with toHTTPMessage := m }).1, { r with toHTTPMessage := m }) := by
  induction calls generalizing r with
  | nil => rfl
  | cons c calls ih =>
      rw [HTTPResponse.sent, messagesSent, HTTPResponse.call_eq, ih, List.map_append]
      split
      · rfl
      · rfl

/-- The strings that a request returns are right when the messages are. -/
theorem request_sent_iff {r : HTTPRequest} (hmethod : ¬ SP <:+: r.m_method ∧ ¬ CRLF <:+: r.m_method)
    (htarget : ¬ SP <:+: r.m_reqTarget ∧ ¬ CRLF <:+: r.m_reqTarget)
    (hversion : RequestVersion r.m_version) {length : Option Nat}
    (h : Length length r.toHTTPMessage) (calls : List MessageCall)
    (hcalls : ∀ c ∈ calls, c.Admissible RequestVersion) :
    (∀ p ∈ r.sent calls,
      ParsesBack ((HTTPRequest.ofString p.1).map HTTPRequest.toHTTPMessage) p.2.m_body) ↔
      ∀ m ∈ messagesSent r.toHTTPMessage calls, m.AnnouncesBody := by
  rw [request_sent_eq, List.forall_mem_map]
  apply forall₂_congr
  intro m hmem
  obtain ⟨hversion', hdelimited⟩ := messagesSent_delimited hversion h hcalls m hmem
  exact parsesBack_request_iff (r := { r with toHTTPMessage := m })
    ⟨hmethod.1, hmethod.2, htarget.1, htarget.2, hversion', hdelimited⟩

theorem response_sent_iff {r : HTTPResponse}
    (hcode : -2 ^ 31 ≤ r.m_statusCode ∧ r.m_statusCode < 2 ^ 31)
    (hversion : ResponseVersion r.m_version) {length : Option Nat}
    (h : Length length r.toHTTPMessage) (calls : List MessageCall)
    (hcalls : ∀ c ∈ calls, c.Admissible ResponseVersion) :
    (∀ p ∈ r.sent calls,
      ParsesBack ((HTTPResponse.ofString p.1).map HTTPResponse.toHTTPMessage) p.2.m_body) ↔
      ∀ m ∈ messagesSent r.toHTTPMessage calls, m.AnnouncesBody := by
  rw [response_sent_eq, List.forall_mem_map]
  apply forall₂_congr
  intro m hmem
  obtain ⟨hversion', hdelimited⟩ := messagesSent_delimited hversion h hcalls m hmem
  exact parsesBack_response_iff (r := { r with toHTTPMessage := m })
    ⟨hcode, hversion'.1, hversion'.2, hdelimited⟩

/-- Nothing has been said about the length of a message without headers. -/
theorem length_new {m : HTTPMessage} (hheaders : m.m_headers = .empty) (hbody : m.m_body = []) :
    Length none m := by
  refine ⟨⟨?_, ?_⟩, ?_, ?_, nofun⟩
  · simp [hheaders]
  · simp [hheaders]
  · simp [hbody]
  · simp [hheaders]

/-- **The automatic length is right**, exactly when all bodies that are sent have the same length,
from the first on that is not empty. -/
theorem automaticLength_iff (calls : List MessageCall) :
    (∀ method target : Bytes, ¬ SP <:+: method ∧ ¬ CRLF <:+: method →
      ¬ SP <:+: target ∧ ¬ CRLF <:+: target →
      (∀ c ∈ calls, c.Admissible RequestVersion) →
        ((∀ p ∈ HTTPRequest.sent { m_method := method, m_reqTarget := target } calls,
            ParsesBack ((HTTPRequest.ofString p.1).map HTTPRequest.toHTTPMessage) p.2.m_body) ↔
          OneLength (bodiesSent [] calls))) ∧
    ∀ code : StatusCode, -2 ^ 31 ≤ code ∧ code < 2 ^ 31 →
      (∀ c ∈ calls, c.Admissible ResponseVersion) →
        ((∀ p ∈ HTTPResponse.sent { m_statusCode := code } calls,
            ParsesBack ((HTTPResponse.ofString p.1).map HTTPResponse.toHTTPMessage) p.2.m_body) ↔
          OneLength (bodiesSent [] calls)) := by
  constructor
  · intro method target hmethod htarget hcalls
    have hnew := length_new (m := {}) rfl rfl
    have hversion : RequestVersion [] := by
      show ¬ CRLF <:+: []
      decide
    rw [request_sent_iff (r := { m_method := method, m_reqTarget := target }) hmethod
      htarget hversion hnew calls hcalls]
    exact sentRight_iff hnew calls hcalls
  · intro code hcode hcalls
    have hnew := length_new (m := {}) rfl rfl
    have hversion : ResponseVersion [] := by
      show ¬ SP <:+: [] ∧ ¬ CRLF <:+: []
      decide
    rw [response_sent_iff (r := { m_statusCode := code }) hcode hversion hnew calls hcalls]
    exact sentRight_iff hnew calls hcalls

/-- A body of two bytes that is sent twice, the second time behind a header. -/
theorem automaticLength_twice :
    (∀ p ∈ HTTPRequest.sent { m_method := ascii "POST", m_reqTarget := ascii "/" }
        [.setBody (ascii "ok"), .toString, .addHeaderLine (ascii "A") (ascii "b"), .toString],
      ParsesBack ((HTTPRequest.ofString p.1).map HTTPRequest.toHTTPMessage) p.2.m_body) ∧
    ∀ p ∈ HTTPResponse.sent { m_statusCode := 200 }
        [.setBody (ascii "ok"), .toString, .addHeaderLine (ascii "A") (ascii "b"), .toString],
      ParsesBack ((HTTPResponse.ofString p.1).map HTTPResponse.toHTTPMessage) p.2.m_body := by
  have hsize : (ascii "ok").length < 2 ^ 63 := by decide
  have hheader : ascii "A" ≠ ContentLength ∧ (¬ COLON <:+: ascii "A" ∧ ¬ CRLF <:+: ascii "A") ∧
      ¬ CRLF <:+: ascii "b" := by decide
  have hcalls : ∀ version : Bytes → Prop, ∀ c ∈ [.setBody (ascii "ok"), .toString,
      .addHeaderLine (ascii "A") (ascii "b"), .toString], MessageCall.Admissible version c := by
    intro version c hc
    simp only [List.mem_cons, List.not_mem_nil, or_false] at hc
    rcases hc with rfl | rfl | rfl | rfl
    · exact hsize
    · trivial
    · exact hheader
    · trivial
  constructor
  · exact ((automaticLength_iff _).1 _ _ (by decide) (by decide) (hcalls _)).mpr (by decide +kernel)
  · exact ((automaticLength_iff _).2 _ (by decide) (hcalls _)).mpr (by decide +kernel)

/-- A longer body behind a shorter one: the text carries the length of the
shorter one, and is rejected. -/
theorem longerBody_not_parsesBack :
    ¬ ∀ p ∈ HTTPRequest.sent { m_method := ascii "POST", m_reqTarget := ascii "/" }
        [.setBody (ascii "ok"), .toString, .setBody (ascii "okay"), .toString],
      ParsesBack ((HTTPRequest.ofString p.1).map HTTPRequest.toHTTPMessage) p.2.m_body := by
  intro h
  let r : HTTPRequest := { m_method := ascii "POST", m_reqTarget := ascii "/" }
  let last : HTTPRequest :=
    ((r.call (.setBody (ascii "ok"))).call .toString).call (.setBody (ascii "okay"))
  have hlast : ParsesBack ((HTTPRequest.ofString last.toString.1).map HTTPRequest.toHTTPMessage)
      last.m_body := h (last.toString.1, last) (List.mem_cons_of_mem _ List.mem_cons_self)
  have htext : last.toString.1 = ascii "POST / HTTP/\r\nContent-Length: 2\r\n\r\nokay" := by
    decide +kernel
  have hrejected : HTTPRequest.ofString (ascii "POST / HTTP/\r\nContent-Length: 2\r\n\r\nokay") =
      .error (.ArgumentError "Body: Invalid string passed!") := by decide +kernel
  obtain ⟨q, hq, -⟩ := hlast
  rw [htext, hrejected] at hq
  cases hq

end HTTP
end AdvCppHW
