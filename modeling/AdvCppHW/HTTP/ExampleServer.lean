import AdvCppHW.HTTP.ResponseStream
import AdvCppHW.HTTP.ServerClients

/-!
# The example server

The program `example/main.cpp`: a server of four workers that answers every request with the same
five bytes, and keeps the connection when the request asks for that.  Whichever worker has accepted
a client, and whatever the others do, the client is sent one answer for each of its requests, in
their order; all but the last of these ask for the connection to be kept.  This is so under the
conditions of `PoolRun`, and for a client that no timeout drops and no call fails for.

* `onRequest`, `answerText` — the answer, and the text that is sent.
* `served_keepAlive` — which requests are served.
* `example_answers` — whole runs of the server.
-/

namespace AdvCppHW
namespace HTTP
namespace ExampleServer

open Support

/-! ## The program -/

/-- The `msg` of `onRequest`. -/
def msg : Bytes :=
  ascii "HTTP/1.1 200 OK" ++ CRLF ++ ascii "Content-Length: 5" ++ CRLF ++ CRLF ++ ascii "ABCDE"

/-- `Server::onRequest`. -/
def onRequest (r : HTTPRequest) : Except Exception HTTPResponse :=
  (HTTPResponse.ofString msg).map fun resp =>
    if r.doKeepAlive then
      { resp with toHTTPMessage := resp.addHeaderLine Connection (ascii "Keep-Alive") }
    else resp

/-! ## What it answers -/

/-- The text of the answer to a request that keeps the connection, or to one that does not. -/
def answerText (kept : Bool) : Bytes :=
  ascii "HTTP/1.1 200 OK" ++ CRLF ++
    (if kept then ascii "Connection: Keep-Alive" ++ CRLF else []) ++
    ascii "Content-Length: 5" ++ CRLF ++ CRLF ++ ascii "ABCDE"

/-- What `onRequest` returns. -/
def answer (kept : Bool) : HTTPResponse where
  m_version := ascii "1.1"
  m_headers :=
    let headers := OrdMap.empty.assign ContentLength (ascii "5")
    if kept then headers.assign Connection (ascii "Keep-Alive") else headers
  m_body := ascii "ABCDE"
  m_statusCode := 200

theorem onRequest_eq (r : HTTPRequest) : onRequest r = .ok (answer r.doKeepAlive) := by
  have hparsed : HTTPResponse.ofString msg = .ok (answer false) := by decide +kernel
  rw [onRequest, hparsed]
  cases r.doKeepAlive with
  | true => rfl
  | false => rfl

theorem answer_toString (kept : Bool) : (answer kept).toString.1 = answerText kept := by
  cases kept with
  | true => decide +kernel
  | false => decide +kernel

/-- All served requests but the last one keep the connection.  Induction on the arrivals. -/
theorem served_keepAlive (waiting : Option Bytes) (arrivals : List Bytes) :
    ∀ r ∈ (served waiting arrivals).dropLast, r.doKeepAlive = true := by
  induction arrivals generalizing waiting with
  | nil => exact fun r hr => absurd hr List.not_mem_nil
  | cons arrived later ih =>
      rw [served]
      cases waiting with
      | none => exact ih none
      | some waiting =>
          cases hparse : HTTPRequest.ofString (waiting ++ arrived) with
          | error e =>
              have hreject : ∀ req, HTTPRequest.ofString (waiting ++ arrived) ≠ .ok req := by
                rw [hparse]
                exact fun req h => by cases h
              rw [accept_of_rejected hreject]
              exact ih _
          | ok req =>
              rw [accept_of_accepted hparse]
              cases hkept : req.doKeepAlive with
              | false =>
                  rw [if_neg Bool.false_ne_true, served_none]
                  exact fun r hr => absurd hr List.not_mem_nil
              | true =>
                  rw [if_pos rfl]
                  have hlater := ih (some [])
                  intro r hr
                  cases hserved : served (some []) later with
                  | nil =>
                      rw [hserved] at hr
                      cases hr
                  | cons next rest =>
                      rw [hserved] at hr hlater
                      rcases List.mem_cons.mp hr with rfl | hmem
                      · exact hkept
                      · exact hlater r hmem

/-! ## The clients of the server -/

/-- **The example server answers every request once, in order.**  A server has any number of
workers, whose threads take their steps in any order; `accept4` returns no descriptor that a socket
of a worker has, no two clients of a worker have one coroutine, and no exception of one is lost.  A
client is accepted under `fd` and woken up; no call fails for it, and no timeout drops it.  The
requests handed to `onRequest` are those served from the bytes that arrived, of which all but the
last one keep the connection; the bytes that its socket has taken, with what a worker still has to
write for it, are their answers, one after the other.  When no worker has the client any more, all
of them have been written. -/
theorem example_answers {server : BaseHTTPServer} {size : Nat} {uninitialised : Bool}
    {bs : List Seen} {s : Pool} (hrun : PoolRun server size uninitialised bs s) {fd : Int}
    {garbage : UInt32} {ws : List Wakeup} (before : List (FamilyAct Int Client ClientEvent))
    (hlife : FamilyAct.about fd (bs.map Seen.act) =
      before ++ .began fd (Client.new fd garbage) :: wakeupActs fd ws)
    (hturn : ReadsInTurn (some (Client.new fd garbage)) ws) (hwrites : ∀ w ∈ ws, Accepting w.writes)
    (hanswer : ∀ w ∈ ws, ∀ r, onRequest r = .ok (w.onRequest r)) :
    let requests := served (some []) (ws.map Wakeup.arrived)
    ∃ earlier out pending, outputsFor fd bs = earlier ++ out ∧
      earlier = FamilyAct.memberOutputs Client.next Client.output none before ∧
      out.filterMap ClientOutput.request? = requests ∧
      (∀ r ∈ requests.dropLast, r.doKeepAlive = true) ∧
      out.flatMap ClientOutput.bytes ++ pending =
        requests.flatMap (fun r => answerText r.doKeepAlive) ∧
      (∀ i client, clientAt (s.worker i) fd = some client → pending = client.pending) ∧
      ((∀ i, clientAt (s.worker i) fd = none) → pending = []) := by
  intro requests
  obtain ⟨hshown, hnowhere, hout⟩ := poolRun_client hrun fd
  rw [hlife] at hshown hnowhere hout
  have hsame : ∀ w ∈ ws, w.onRequest = fun r => answer r.doKeepAlive := by
    intro w hw
    funext r
    have hr := hanswer w hw r
    rw [onRequest_eq] at hr
    exact (Except.ok.inj hr).symm
  obtain ⟨hrequests, hbytes⟩ := outputs_stream fd (represents_new fd garbage) ws hturn hwrites hsame
  let client := FamilyAct.member Client.next (some (Client.new fd garbage)) (wakeupActs fd ws)
  have hclient : FamilyAct.member Client.next none
      (before ++ .began fd (Client.new fd garbage) :: wakeupActs fd ws) = client := by
    rw [FamilyAct.member_append]
    rfl
  rw [hclient] at hshown hnowhere
  refine ⟨_, _, pendingOf client, hout.trans (FamilyAct.memberOutputs_append none before _),
    rfl, hrequests, served_keepAlive _ _, ?_, fun i c hc => ?_, fun hnone => ?_⟩
  · have htexts : responseText (fun r => answer r.doKeepAlive) = fun r =>
        answerText r.doKeepAlive :=
      funext fun r => answer_toString r.doKeepAlive
    rw [← htexts]
    exact hbytes
  · rw [hshown i c hc]
    rfl
  · rw [hnowhere hnone]
    rfl

/-! ### One request -/

/-- A request that keeps the connection. -/
def keptRequest : Bytes :=
  ascii "GET / HTTP/1.1" ++ CRLF ++ ascii "Connection: Keep-Alive" ++ CRLF ++ CRLF

theorem keptRequest_isChunk : ∀ chunk ∈ [keptRequest], IsChunk chunk := by
  unfold IsChunk
  decide

/-- The request comes, and the socket takes half of the answer. -/
def oneWakeup : Wakeup :=
  ⟨1, [keptRequest], keptRequest_isChunk, fun r => answer r.doKeepAlive, [.wrote 40],
    slow_noFailure 40⟩

/-- The first of two workers has a client, which has been sent half of an answer. -/
def halfAnswered : Pool :=
  (twoStarted.put 0 (.testing oneClient)).put 0 (.testing (afterWakeup oneClient oneWakeup))

theorem poolRun_halfAnswered : ∃ bs, PoolRun serverOn3 2 true bs halfAnswered ∧
    FamilyAct.about 5 (bs.map Seen.act) = .began 5 (Client.new 5 0) ::
      wakeupActs 5 [oneWakeup] := by
  have handled : Running.Step serverOn3 ⟨oneClient, .handling [⟨5, 1⟩]⟩
      (.handle { script := oneWakeup.event.script, now := 2 })
      ⟨afterWakeup oneClient oneWakeup, .handling []⟩ := by
    unfold Running.Step
    decide +kernel
  have hevent := poolRun_event (i := 0) poolRun_firstAccepted rfl rfl ⟨5, 1⟩ _
    (by decide +kernel) (by unfold Running.Step; decide +kernel) ⟨by decide, by decide +kernel⟩
    (fun (hfd : (0 : Int) ≤ -1) => absurd hfd (by decide))
    (fun _ => exceptionReturns_of_bound (by decide +kernel) _ _ _) handled
    (apart_of_nodup (by decide +kernel))
  exact ⟨_, hevent, rfl⟩

theorem example_answers_half : ∃ bs, PoolRun serverOn3 2 true bs halfAnswered ∧
    ∃ earlier out pending, outputsFor 5 bs = earlier ++ out ∧
      out.flatMap ClientOutput.bytes ++ pending = answerText true := by
  obtain ⟨bs, hrun, hlife⟩ := poolRun_halfAnswered
  have hturn : ReadsInTurn (some (Client.new 5 0)) [oneWakeup] := by
    refine readsInTurn_cons _ (fun cl hcl => ?_) fun cl _ => readsInTurn_nil _
    cases hcl
    rfl
  have hwrites : ∀ w ∈ [oneWakeup], Accepting w.writes := by
    intro w hw
    rw [List.mem_singleton.mp hw]
    exact fun w hw => Or.inr ⟨39, List.mem_singleton.mp hw⟩
  have hanswer : ∀ w ∈ [oneWakeup], ∀ r, onRequest r = .ok (w.onRequest r) := by
    intro w hw r
    rw [List.mem_singleton.mp hw, onRequest_eq]
    rfl
  obtain ⟨earlier, out, pending, hout, -, -, -, hbytes, -, -⟩ :=
    example_answers hrun [] hlife hturn hwrites hanswer
  refine ⟨bs, hrun, earlier, out, pending, hout, hbytes.trans ?_⟩
  decide +kernel

end ExampleServer
end HTTP
end AdvCppHW
