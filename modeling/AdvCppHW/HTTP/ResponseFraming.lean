import AdvCppHW.HTTP.ResponseRoundTrip
import AdvCppHW.HTTP.ResponseStream
import AdvCppHW.Support.PrefixCode

/-!
# Responses in a row

Responses on one connection follow each other without anything between them.  A client can
tell them apart: the header block of a response ends at the first blank line, and `toString`
says in it how long the body is.

* `ResponseText.bytes_inj` — a byte string is a valid response text in at most one way.
* `responseTexts_prefixCode` — no text of a response begins another one.
* `responses_told_apart` — what a client makes of the bytes that a worker has written for it.
-/

namespace AdvCppHW
namespace HTTP

open Support HTTPMessage

/-! ## One text in front of another -/

/-- A byte string is a valid response text in at most one way. -/
theorem ResponseText.bytes_inj {x y : ResponseText} (hx : x.Valid) (hy : y.Valid)
    (h : x.bytes = y.bytes) : x = y := by
  obtain ⟨hstart, hrest⟩ := append_pattern_inj unbordered_CRLF hx.statusLine hy.statusLine h
  obtain ⟨hprotocolVersion, hstart⟩ := append_pattern_inj unbordered_SP hx.version hy.version hstart
  obtain ⟨hcode, hphrase⟩ := append_pattern_inj unbordered_SP hx.code hy.code hstart
  obtain ⟨hprotocol, hversion⟩ :=
    append_pattern_inj unbordered_SLASH hx.protocol hy.protocol hprotocolVersion
  obtain ⟨hlines, hrest⟩ := block_inj hx.lines hy.lines hrest
  cases x
  cases y
  simp_all

theorem ResponseText.bytes_append (x : ResponseText) (q : Bytes) :
    x.bytes ++ q = { x with rest := x.rest ++ q }.bytes := by
  simp [ResponseText.bytes, messageBytes, ResponseText.statusLine, ResponseText.protocolVersion]

theorem ResponseText.Valid.withRest {x : ResponseText} (hx : x.Valid) (rest : Bytes) :
    { x with rest := rest }.Valid :=
  ⟨hx.statusLine, hx.protocol, hx.version, hx.code, hx.lines⟩

/-- Messages with the same header block have bodies of one length. -/
theorem length_body_of_sentHeaders {m m' : HTTPMessage} (hm : m.WellFormed) (hm' : m'.WellFormed)
    (h : m.sentHeaders = m'.sentHeaders) : m.m_body.length = m'.m_body.length := by
  rcases lookup_sentHeaders hm with hcl | ⟨hcl, hbody⟩
  · rcases lookup_sentHeaders hm' with hcl' | ⟨hcl', -⟩
    · rw [h, hcl'] at hcl
      have hsize := congrArg bodySize (Option.some.inj hcl)
      rw [bodySize_to_string hm.body_size, bodySize_to_string hm'.body_size] at hsize
      exact hsize.symm
    · rw [h, hcl'] at hcl
      cases hcl
  · rcases lookup_sentHeaders hm' with hcl' | ⟨-, hbody'⟩
    · rw [h, hcl'] at hcl
      cases hcl
    · rw [hbody, hbody']

/-- A text that begins another one has the same header block, and so the same length of the body. -/
theorem response_toString_prefix {r r' : HTTPResponse} (hr : r.WellFormed) (hr' : r'.WellFormed)
    (hpre : r.toString.1 <+: r'.toString.1) : r.toString.1 = r'.toString.1 := by
  obtain ⟨q, hq⟩ := hpre
  rw [response_toString_eq_bytes, response_toString_eq_bytes, ResponseText.bytes_append] at hq
  have htext : { r.text with rest := r.text.rest ++ q } = r'.text :=
    ResponseText.bytes_inj ((response_toString_valid hr.delimited).withRest _)
      (response_toString_valid hr'.delimited) hq
  have hlines : r.text.lines = r'.text.lines := by rw [← htext]
  have hheaders : r.sentHeaders = r'.sentHeaders := by
    rw [← assignAll_sentHeaders hr.delimited.message, ← assignAll_sentHeaders hr'.delimited.message]
    exact congrArg (fun lines : List Bytes => OrdMap.empty.assignAll (lines.map splitHeader)) hlines
  have hlength := length_body_of_sentHeaders hr.message hr'.message hheaders
  have hrest : r.m_body ++ q = r'.m_body := congrArg ResponseText.rest htext
  have hnil : q = [] := by
    rw [← hrest, List.length_append] at hlength
    exact List.length_eq_zero_iff.mp (by omega)
  rw [response_toString_eq_bytes, response_toString_eq_bytes, ← htext, hnil, List.append_nil]

/-- The texts of responses that can be parsed back. -/
def responseTexts : Set Bytes := { text | ∃ r : HTTPResponse, r.WellFormed ∧ r.toString.1 = text }

theorem responseTexts_prefixCode : PrefixCode responseTexts where
  ne_nil := by
    rintro w ⟨r, -, rfl⟩
    exact List.cons_ne_nil _ _
  eq_of_prefix := by
    rintro w ⟨r, hr, rfl⟩ v ⟨r', hr', rfl⟩ hpre
    exact response_toString_prefix hr hr' hpre

/-! ## The client of a worker -/

/-- The text of a response says which response it is, as it is left by `toString`. -/
theorem toString_inj {r r' : HTTPResponse} (hr : r.WellFormed) (hr' : r'.WellFormed)
    (h : r.toString.1 = r'.toString.1) : r.toString.2 = r'.toString.2 := by
  have hparsed := ofString_response_of_delimited hr.delimited hr.message.announced
  have hparsed' := ofString_response_of_delimited hr'.delimited hr'.message.announced
  rw [h, hparsed'] at hparsed
  simp only [HTTPResponse.toString, withContentLength_eq]
  exact (Except.ok.inj hparsed).symm

/-- Where the texts of one row of responses begin those of another, so do the responses. -/
theorem responses_prefix {rs rs' : List HTTPResponse} (hrs : ∀ r ∈ rs, r.WellFormed)
    (hrs' : ∀ r ∈ rs', r.WellFormed)
    (hpre : rs.flatMap (fun r => r.toString.1) <+: rs'.flatMap fun r => r.toString.1) :
    rs.map (fun r => r.toString.2) <+: rs'.map fun r => r.toString.2 := by
  have htexts : ∀ rs : List HTTPResponse, (∀ r ∈ rs, r.WellFormed) →
      ∀ w ∈ rs.map (fun r => r.toString.1), w ∈ responseTexts := by
    intro rs hrs w hw
    obtain ⟨r, hr, rfl⟩ := List.mem_map.mp hw
    exact ⟨r, hrs r hr, rfl⟩
  have hwords := responseTexts_prefixCode.prefix_of_flatten_prefix (htexts rs hrs)
    (htexts rs' hrs') hpre
  -- the texts are the same one by one, and so are the responses
  induction rs generalizing rs' with
  | nil => exact List.nil_prefix
  | cons r rs ih =>
      cases rs' with
      | nil => simp at hwords
      | cons r' rs' =>
          rw [List.map_cons, List.map_cons, List.cons_prefix_cons] at hwords ⊢
          have hr := hrs r List.mem_cons_self
          have hr' := hrs' r' List.mem_cons_self
          have hlater : ∀ s ∈ rs, s.WellFormed := fun s hs => hrs s (List.mem_cons_of_mem _ hs)
          have hlater' : ∀ s ∈ rs', s.WellFormed := fun s hs => hrs' s (List.mem_cons_of_mem _ hs)
          rw [List.flatMap_cons, List.flatMap_cons, hwords.1, List.prefix_append_right_inj] at hpre
          exact ⟨toString_inj hr hr' hwords.1, ih hlater hlater' hpre hwords.2⟩

/-- **A client can tell its responses apart.**  No text of a well-formed response begins another
one.  In a run of a worker in which no two clients have one coroutine and no exception is lost, for
a client that is only woken up since it was accepted, that no call fails for and to which
`onRequest` gives well-formed responses, the same to the same request: whatever well-formed
responses the bytes that its socket has taken begin with, they are the responses to its first
requests, as `toString` has left them. -/
theorem responses_told_apart {server : BaseHTTPServer} {bs : List Seen} {s : Running}
    (hrun : SeenRun server bs s) {fd : Int} {garbage : UInt32} {ws : List Wakeup}
    (before : List (FamilyAct Int Client ClientEvent))
    (hlife : FamilyAct.about fd (bs.map Seen.act) =
      before ++ .began fd (Client.new fd garbage) :: wakeupActs fd ws)
    (hturn : ReadsInTurn (some (Client.new fd garbage)) ws) (hwrites : ∀ w ∈ ws, Accepting w.writes)
    {answer : HTTPRequest → HTTPResponse} (hanswer : ∀ w ∈ ws, w.onRequest = answer)
    (hwell : ∀ req ∈ served (some []) (ws.map Wakeup.arrived), (answer req).WellFormed)
    {rs : List HTTPResponse} (hrs : ∀ r ∈ rs, r.WellFormed) {earlier out : List ClientOutput}
    (hout : outputsFor fd bs = earlier ++ out)
    (hearlier : earlier = FamilyAct.memberOutputs Client.next Client.output none before)
    (hread : rs.flatMap (fun r => r.toString.1) <+: out.flatMap ClientOutput.bytes) :
    PrefixCode responseTexts ∧
      rs.map (fun r => r.toString.2) <+:
        (served (some []) (ws.map Wakeup.arrived)).map fun req => (answer req).toString.2 := by
  refine ⟨responseTexts_prefixCode, ?_⟩
  obtain ⟨-, hseen⟩ := (seenRun_family hrun).2 fd
  rw [hlife, FamilyAct.memberOutputs_append] at hseen
  have hsame : out = FamilyAct.memberOutputs Client.next Client.output
      (some (Client.new fd garbage)) (wakeupActs fd ws) := by
    have hcut := hout.symm.trans hseen
    rw [hearlier] at hcut
    exact List.append_cancel_left hcut
  obtain ⟨-, hbytes⟩ := outputs_stream fd (represents_new fd garbage) ws hturn hwrites hanswer
  have htaken : out.flatMap ClientOutput.bytes <+:
      (served (some []) (ws.map Wakeup.arrived)).flatMap (responseText answer) := by
    rw [hsame]
    exact ⟨_, hbytes⟩
  have hwell' : ∀ r ∈ (served (some []) (ws.map Wakeup.arrived)).map answer, r.WellFormed := by
    intro r hr
    obtain ⟨req, hreq, rfl⟩ := List.mem_map.mp hr
    exact hwell req hreq
  have htexts : (served (some []) (ws.map Wakeup.arrived)).flatMap (responseText answer) =
      ((served (some []) (ws.map Wakeup.arrived)).map answer).flatMap fun r => r.toString.1 := by
    rw [List.flatMap_map]
    rfl
  rw [htexts] at htaken
  have hprefix := responses_prefix hrs hwell' (hread.trans htaken)
  rwa [List.map_map] at hprefix

/-- An empty response. -/
theorem wellFormed_empty : HTTPResponse.WellFormed {} where
  statusCode := by decide
  version_noSpace := by decide
  version_noBreak := by decide
  message :=
    { names := by simp
      values := by simp
      contentLength := by
        intro v hv
        cases hv
      body_size := by decide }

/-- The slow client reads one response, and that is the one to its request. -/
theorem responses_told_apart_slow : ∃ bs s, SeenRun serverOn3 bs s ∧
    ([{}] : List HTTPResponse).flatMap (fun r => r.toString.1) <+:
      (outputsFor 5 bs).flatMap ClientOutput.bytes ∧
    ([{}] : List HTTPResponse).map (fun r => r.toString.2) <+:
      (served (some []) (slowWakeups.map Wakeup.arrived)).map fun _ =>
        (HTTPResponse.toString {}).2 := by
  obtain ⟨bs, s, hrun, hlife⟩ := seenRun_slow
  have hout : outputsFor 5 bs = [] ++ FamilyAct.memberOutputs Client.next Client.output
      (some (Client.new 5 0)) (wakeupActs 5 slowWakeups) := by
    rw [outputsFor, (seenRun_family hrun).2 5 |>.2, hlife]
    rfl
  have hread : ([{}] : List HTTPResponse).flatMap (fun r => r.toString.1) <+:
      (FamilyAct.memberOutputs Client.next Client.output (some (Client.new 5 0))
        (wakeupActs 5 slowWakeups)).flatMap ClientOutput.bytes := by
    decide +kernel
  obtain ⟨-, htold⟩ := responses_told_apart hrun [] hlife slow_turn slow_writes slow_answer
    (fun _ _ => wellFormed_empty) (fun r hr => List.mem_singleton.mp hr ▸ wellFormed_empty)
    hout rfl hread
  refine ⟨bs, s, hrun, ?_, htold⟩
  rw [hout, List.nil_append]
  exact hread

end HTTP
end AdvCppHW
