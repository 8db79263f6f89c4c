import AdvCppHW.BigFile.FileServer
import AdvCppHW.HTTP.KeepAlive
import AdvCppHW.HTTP.ResponseRoundTrip
import AdvCppHW.HTTP.ResponseStream
import AdvCppHW.TCP.Connection

/-!
# The client of the file server

The program `example/client.cpp` sends one request and reads an answer of 128 bytes.  The texts that
the server sends are all shorter, whatever the file holds.

* `length_answer` — how long the text of an answer is.
* `served_once` — a request that does not keep the connection is served once, however it arrives.
* `fileClient_unanswered` — a client, the worker that serves it, and what the client reads.
-/

namespace AdvCppHW
namespace BigFile

open Data Support Support.Records HTTP

/-! ## The programs -/

/-- `answerSize` of `client.cpp`. -/
def answerSize : Nat := 128

/-- The request of `client.cpp`; `argument` is the memory from `argv[1]` on, of which eight bytes
are taken, with what stands behind the argument. -/
def clientRequest (argument : Nat → UInt8) : HTTPRequest :=
  let requested := (List.range 8).map argument
  let requested := ascii "/?entry=" ++ requested
  let req : HTTPRequest := {}
  { req with
    toHTTPMessage := req.setHTTPversion (ascii "1.1")
    m_method := ascii "GET"
    m_reqTarget := requested }

/-! ## The length of an answer -/

theorem length_to_string_le {n k : Nat} (hk : 0 < k) (hn : n < 10 ^ k) :
    (to_string n).length ≤ k := by
  rw [to_string, List.length_map]
  exact (Nat.length_toDigits_le_iff (by decide) hk).mpr hn

/-- What the server answers, whatever can be read. -/
theorem onRequest_cases {memory : Memory} {m_reader : Mmap} {indeterminate : Key}
    {req : HTTPRequest} {resp : HTTPResponse}
    (h : onRequest memory m_reader indeterminate req = some resp) :
    resp = notFound ∨ ∃ key data, resp = found key data ∧ data.length = 20 := by
  rw [onRequest_eq] at h
  split at h
  · exact Or.inl (Option.some.inj h).symm
  · split at h
    · cases h
    · exact Or.inl (Option.some.inj h).symm
    · next p _ =>
        obtain ⟨response, hread, rfl⟩ := Option.map_eq_some_iff.mp h
        have hlength : response.length = 28 := (Records.length_mapM hread).trans List.length_range
        exact Or.inr ⟨_, _, rfl, by rw [List.length_drop, hlength]⟩

theorem length_getHeaders (m : HTTPMessage) :
    m.getHeaders.length = (m.m_headers.entries.map entryLength).sum := by
  rw [HTTPMessage.getHeaders, List.length_flatMap]
  congr 1
  refine List.map_congr_left fun e _ => ?_
  simp only [HTTPMessage.headerLine, List.length_append, COLON, CRLF, List.length_cons,
    List.length_nil, entryLength]
  omega

/-- The header of the length is added at most. -/
theorem sum_sentHeaders_le (m : HTTPMessage) :
    (m.sentHeaders.entries.map entryLength).sum ≤
      (m.m_headers.entries.map entryLength).sum +
        entryLength (ContentLength, to_string m.m_body.length) := by
  unfold HTTPMessage.sentHeaders
  split
  · exact OrdMap.sum_assignEntries_le entryLength _ _ _
  · exact Nat.le_add_right _ _

/-- The text of a response is not longer than its start line, its headers with one for
the length, and its body. -/
theorem length_response_le (r : HTTPResponse) :
    r.toString.1.length ≤ (11 + r.m_version.length + (to_stringInt r.m_statusCode).length +
      (getCodeMessage r.m_statusCode).length) + ((r.m_headers.entries.map entryLength).sum +
        entryLength (ContentLength, to_string r.m_body.length)) + r.m_body.length := by
  have hheaders := sum_sentHeaders_le r.toHTTPMessage
  have hprotocol : protocolHTTP.length = 4 := by decide
  rw [HTTPResponse.toString]
  simp only [withContentLength_eq, List.length_append, length_getHeaders, hprotocol,
    SLASH, SP, CRLF, List.length_cons, List.length_nil]
  omega

theorem length_answer {memory : Memory} {m_reader : Mmap} {indeterminate : Key} {req : HTTPRequest}
    {resp : HTTPResponse} (h : onRequest memory m_reader indeterminate req = some resp) :
    resp.toString.1.length < answerSize := by
  rcases onRequest_cases h with rfl | ⟨key, data, rfl, hdata⟩
  · decide +kernel
  · have hkey : (to_string key.toNat).length ≤ 20 :=
      length_to_string_le (by decide) (key.toNat_lt.trans (by decide))
    have hbody : (found key data).m_body.length ≤ 41 := by
      simp only [found, List.length_append, SP, List.length_cons, List.length_nil, hdata]
      omega
    have hlength : (to_string (found key data).m_body.length).length ≤ 2 :=
      length_to_string_le (by decide) (by omega)
    have hstarted : startedResponse.m_version.length = 3 ∧ (to_stringInt 200).length = 3 ∧
        (getCodeMessage 200).length = 2 ∧
        (startedResponse.m_headers.entries.map entryLength).sum = 22 := by decide +kernel
    have hname : ContentLength.length = 14 := by decide
    have hle : (found key data).toString.1.length ≤
        (11 + startedResponse.m_version.length + (to_stringInt 200).length +
          (getCodeMessage 200).length) + ((startedResponse.m_headers.entries.map entryLength).sum +
            (ContentLength.length + (to_string (found key data).m_body.length).length + 4)) +
          (found key data).m_body.length := length_response_le (found key data)
    rw [hstarted.1, hstarted.2.1, hstarted.2.2.1, hstarted.2.2.2, hname] at hle
    rw [answerSize]
    omega

/-! ## One request -/

/-- A request that does not keep the connection is served when all of its text has arrived,
and nothing is served behind it.  Induction on the arrivals; what waits is a part of the
text that is not all of it. -/
theorem served_once {r : HTTPRequest} (hr : r.WellFormed) (hclose : r.doKeepAlive = false)
    {arrivals : List Bytes} {waiting : Bytes}
    (harrived : waiting ++ arrivals.flatten <+: r.toString.1) :
    served (some waiting) arrivals = [] ∨ served (some waiting) arrivals = [r.toString.2] := by
  induction arrivals generalizing waiting with
  | nil => exact Or.inl rfl
  | cons arrived later ih =>
      rw [List.flatten_cons, ← List.append_assoc] at harrived
      rw [served]
      cases hparse : HTTPRequest.ofString (waiting ++ arrived) with
      | error e =>
          have hreject : ∀ req, HTTPRequest.ofString (waiting ++ arrived) ≠ .ok req := by
            rw [hparse]
            exact fun req h => by cases h
          rw [accept_of_rejected hreject]
          exact ih harrived
      | ok req =>
          have hall :=
            eq_toString_of_prefix_accepted hr hparse ((List.prefix_append _ _).trans harrived)
          have hreq : req = r.toString.2 := by
            rw [hall, toString_accepted hr] at hparse
            exact (Except.ok.inj hparse).symm
          rw [accept_of_accepted hparse, hreq, doKeepAlive_toString, hclose]
          exact Or.inr (congrArg _ (served_none later))

/-! ## The client and the server -/

/-- A pattern that is not in the bytes of the argument is not in the target. -/
theorem not_infix_target {pat requested : Bytes} (hpat : pat ≠ []) (hequals : (61 : UInt8) ∉ pat)
    (hentry : ¬ pat <:+: ascii "/?entry") (hrequested : ¬ pat <:+: requested) :
    ¬ pat <:+: ascii "/?entry=" ++ requested := by
  have htarget : ascii "/?entry=" = ascii "/?entry" ++ [61] := by decide
  intro h
  rw [htarget, List.append_assoc] at h
  rcases infix_append_cons hpat hequals h with h | h
  · exact hentry h
  · exact hrequested h

section Client

variable {argument : Nat → UInt8} (hblank : ¬ SP <:+: (List.range 8).map argument)
  (hbreak : ¬ CRLF <:+: (List.range 8).map argument)
include hblank hbreak

theorem clientRequest_wellFormed : (clientRequest argument).WellFormed where
  method_noSpace := by
    show ¬ SP <:+: ascii "GET"
    decide
  method_noBreak := by
    show ¬ CRLF <:+: ascii "GET"
    decide
  target_noSpace := not_infix_target (by decide) (by decide) (by decide) hblank
  target_noBreak := not_infix_target (by decide) (by decide) (by decide) hbreak
  version_noBreak := by
    show ¬ CRLF <:+: ascii "1.1"
    decide
  names e he := by cases he
  values e he := by cases he
  contentLength v hv := by cases hv
  body_size := by
    show 0 < 2 ^ 63
    decide

theorem served_clientRequest {arrivals : List Bytes}
    (harrived : arrivals.flatten <+: (clientRequest argument).toString.1) :
    served (some []) arrivals = [] ∨ served (some []) arrivals = [clientRequest argument] := by
  have hsent : (clientRequest argument).toString.2 = clientRequest argument := by
    rw [toString_snd]
    rfl
  rw [← hsent]
  exact served_once (clientRequest_wellFormed hblank hbreak) rfl harrived

end Client

theorem startedResponse_wellFormed {code : StatusCode} {body : Bytes}
    (hcode : -2 ^ 31 ≤ code ∧ code < 2 ^ 31) (hbody : body.length < 2 ^ 63) :
    HTTPResponse.WellFormed { startedResponse with m_statusCode := code, m_body := body } where
  statusCode := hcode
  version_noSpace := by
    show ¬ SP <:+: ascii "1.1"
    decide
  version_noBreak := by
    show ¬ CRLF <:+: ascii "1.1"
    decide
  message :=
    { names := by
        show ∀ e ∈ startedResponse.m_headers.entries, ¬ COLON <:+: e.1 ∧ ¬ CRLF <:+: e.1
        decide
      values := by
        show ∀ e ∈ startedResponse.m_headers.entries, ¬ CRLF <:+: e.2
        decide
      contentLength := by
        intro v hv
        have hnone : startedResponse.m_headers.lookup ContentLength = none := by decide
        cases hnone.symm.trans hv
      body_size := hbody }

theorem answer_wellFormed {memory : Memory} {m_reader : Mmap} {indeterminate : Key}
    {req : HTTPRequest} {resp : HTTPResponse}
    (h : onRequest memory m_reader indeterminate req = some resp) : resp.WellFormed := by
  rcases onRequest_cases h with rfl | ⟨key, data, rfl, hdata⟩
  · have hempty : ([] : Bytes).length < 2 ^ 63 := by decide
    exact startedResponse_wellFormed (by decide) hempty
  · refine startedResponse_wellFormed (by decide) ?_
    have hkey : (to_string key.toNat).length ≤ 20 :=
      length_to_string_le (by decide) (key.toNat_lt.trans (by decide))
    simp only [List.length_append, SP, List.length_cons, List.length_nil, hdata]
    omega

/-- **The client of the file server is never answered.**  The eight bytes that it takes from
`argv[1]` on hold no blank and no line end, and `onRequest` does not fault.  Its request arrives
at a worker, cut in any way and perhaps not wholly, and the worker's socket takes the response in
any pieces.  What the worker takes is the request that the client has built, once at most; the
text of the response parses back; but a client that reads what was taken meets the end of the
stream before `answerSize` bytes. -/
theorem fileClient_unanswered {memory : Memory} {m_reader : Mmap} {indeterminate : Key}
    {argument : Nat → UInt8} (hblank : ¬ SP <:+: (List.range 8).map argument)
    (hbreak : ¬ CRLF <:+: (List.range 8).map argument) {answer : HTTPRequest → HTTPResponse}
    (hanswer : onRequest memory m_reader indeterminate (clientRequest argument) =
      some (answer (clientRequest argument)))
    (fd : Int) (garbage : UInt32) {ws : List Wakeup}
    (hturn : ReadsInTurn (some (Client.new fd garbage)) ws) (hwrites : ∀ w ∈ ws, Accepting w.writes)
    (honRequest : ∀ w ∈ ws, w.onRequest = answer)
    (harrived : (ws.map Wakeup.arrived).flatten <+: (clientRequest argument).toString.1) :
    let resp := answer (clientRequest argument)
    let out := FamilyAct.memberOutputs Client.next Client.output (some (Client.new fd garbage))
      (wakeupActs fd ws)
    (out.filterMap ClientOutput.request? = [] ∨
        out.filterMap ClientOutput.request? = [clientRequest argument]) ∧
      out.flatMap ClientOutput.bytes <+: resp.toString.1 ∧
      HTTPResponse.ofString resp.toString.1 = .ok { resp with m_headers := resp.sentHeaders } ∧
      ∀ c : TCP.Connection, c.Supplied → c.stream = out.flatMap ClientOutput.bytes →
        ∃ c', (TCP.Connection.readExact answerSize).run c = .error (.exception (.IOError
          "End of file reached before reading required number of bytes!")) c' := by
  intro resp out
  have hserved := served_clientRequest hblank hbreak harrived
  obtain ⟨hrequests, hbytes⟩ :=
    outputs_stream fd (represents_new fd garbage) ws hturn hwrites honRequest
  have hprefix : out.flatMap ClientOutput.bytes <+: resp.toString.1 := by
    have hcut : out.flatMap ClientOutput.bytes <+:
        (served (some []) (ws.map Wakeup.arrived)).flatMap (responseText answer) := ⟨_, hbytes⟩
    rcases hserved with hnone | hone
    · rw [hnone] at hcut
      exact (List.prefix_nil.mp hcut) ▸ List.nil_prefix
    · rw [hone, List.flatMap_singleton] at hcut
      exact hcut
  have hwellFormed := answer_wellFormed hanswer
  refine ⟨hrequests ▸ hserved, hprefix,
    ofString_response_of_delimited hwellFormed.delimited hwellFormed.message.announced, ?_⟩
  intro c hc hstream
  apply (TCP.Connection.readExact_supplied answerSize c hc).2
  rw [hstream]
  exact hprefix.length_le.trans_lt (length_answer hanswer)

/-- The memory behind the argument `2`. -/
def argumentTwo : Nat → UInt8 := fun i => if i = 0 then 50 else 0

/-- The whole request arrives, and the socket takes the response in two pieces. -/
def wakeupTwo : Wakeup where
  chunks := [(clientRequest argumentTwo).toString.1]
  isChunk := by
    intro chunk hchunk
    rw [List.mem_singleton.mp hchunk]
    unfold IsChunk readSize
    decide +kernel
  onRequest _ := found 2 msg
  writes := [.wrote 40, .wrote 200]
  noFailure := by simp

/-- The client's end: the response arrives, and the connection ends. -/
def clientTwo : TCP.Connection where
  m_opened := true
  reading :=
    { events := .arrives (found 2 msg).toString.1 :: .ends :: List.replicate 200 (.returns 63 0) }
  writing := { events := [] }

theorem clientTwo_supplied : clientTwo.Supplied := by
  refine ⟨rfl, ?_, fun e he => ⟨63, 0, List.eq_of_mem_replicate he⟩⟩
  show ([] : Bytes).length + (found 2 msg).toString.1.length <
    (List.replicate 200 (ReadEvent.returns 63 0)).length
  decide +kernel

/-- The client asks for the last of three entries. -/
theorem fileClient_unanswered_two :
    clientTwo.stream = (found 2 msg).toString.1 ∧
    ∃ c', (TCP.Connection.readExact answerSize).run clientTwo = .error (.exception (.IOError
      "End of file reached before reading required number of bytes!")) c' := by
  have hanswer : onRequest (onlyFile 4096 0 (fileGenerator 3)) ⟨0, 84⟩ 0
    (clientRequest argumentTwo) =
      some ((fun _ => found 2 msg) (clientRequest argumentTwo)) := by decide +kernel
  have hturn : ReadsInTurn (some (Client.new 5 0)) [wakeupTwo] := by
    refine readsInTurn_cons _ (fun cl hcl => ?_) fun cl _ => readsInTurn_nil _
    cases hcl
    rfl
  have hwrites : ∀ w ∈ [wakeupTwo], Accepting w.writes := by
    intro w hw
    rw [List.mem_singleton.mp hw]
    intro write hwrite
    simp only [wakeupTwo, List.mem_cons, List.not_mem_nil, or_false] at hwrite
    exact Or.inr (hwrite.elim (fun h => ⟨39, h⟩) fun h => ⟨199, h⟩)
  have honRequest : ∀ w ∈ [wakeupTwo], w.onRequest = fun _ => found 2 msg := by simp [wakeupTwo]
  have harrived : ([wakeupTwo].map Wakeup.arrived).flatten =
      (clientRequest argumentTwo).toString.1 := by
    rw [List.map_singleton, List.flatten_singleton]
    exact List.flatten_singleton
  have hunanswered :=
    fileClient_unanswered (by decide) (by decide) hanswer 5 0 hturn hwrites honRequest
    (harrived ▸ List.prefix_rfl)
  exact ⟨by decide +kernel, hunanswered.2.2.2 clientTwo clientTwo_supplied (by decide +kernel)⟩

end BigFile
end AdvCppHW
