import AdvCppHW.HTTP.ClientFamily

/-!
# The responses of a client, one after the other

All that a worker writes to one client, over all wake-ups and whatever else it serves, as long as no
two clients have one coroutine and no exception of a coroutine is lost: the responses to the
requests that the client's bytes contain, in their order, each whole before the next begins.

* `Client.pending` — what is left of the response that is being written.
* `output_represents` — one event; `outputs_stream` — all events of a client.
* `responses_in_order` — a client of a worker.
-/

namespace AdvCppHW
namespace HTTP

open ConnectionAsync ThreadWork Support

namespace ClientOutput

def request? : ClientOutput → Option HTTPRequest
  | request req => some req
  | socket _ => none

/-- The bytes that the socket has taken. -/
def bytes : ClientOutput → Bytes
  | socket (.wrote bytes) => bytes
  | socket .closed | request _ => []

end ClientOutput

/-- What is left to write of a response. -/
def Client.pending (client : Client) : Bytes :=
  match client.frame with
  | some (.writing _ msg) => msg
  | some .reading | none => []

/-- A client that is gone has nothing left to write. -/
def pendingOf (client : Option Client) : Bytes := client.elim [] Client.pending

/-- The text of the response to a request. -/
def responseText (answer : HTTPRequest → HTTPResponse) (req : HTTPRequest) : Bytes :=
  (answer req).toString.1

/-! ## One event -/

theorem bytes_wrote (chunks : List Bytes) :
    (chunks.map SocketEvent.wrote).flatMap (fun e => (ClientOutput.socket e).bytes) =
      chunks.flatten := by
  rw [List.flatMap_map]
  exact List.flatMap_id

/-- A stretch of writing cuts the message into what the socket has taken
and what is left to write. -/
theorem afterWrite_cut {c : ConnectionAsync} (hopen : c.m_opened = true) (hkept : c.m_buffer ≠ [])
    (req : HTTPRequest) (called : Option HTTPRequest) (msg : Bytes) {writes : List SysWrite}
    (hwrites : Accepting writes) :
    (afterWriteEvents c req msg writes).flatMap (fun e => (ClientOutput.socket e).bytes) ++
      pendingOf (Client.afterStretch (afterWrite req called (writeResponse c msg writes))).client =
      msg := by
  obtain ⟨chunks, left, hevents, hcut, ⟨rfl, hwritten⟩ | ⟨-, hwritten, -⟩⟩ :=
    writeResponse_accepting hopen msg hwrites
  · -- nothing waits in the buffer now, so that the coroutine that has returned is replaced
    have hdone : pendingOf
        (Client.afterStretch (afterWrite req called (.returned, c.clearBuffer))).client = [] := by
      cases hka : req.doKeepAlive with
      | true =>
          show pendingOf
            (Client.afterResume (if !req.doKeepAlive then _ else c.clearBuffer) none) = []
          rw [hka, if_neg (by decide), Client.afterResume_empty (c := c.clearBuffer) hopen rfl]
          rfl
      | false =>
          have hclosed : c.clearBuffer.close.m_opened = false := by
            simp [close, isOpened, clearBuffer, hopen]
          show pendingOf
            (Client.afterResume (if !req.doKeepAlive then c.clearBuffer.close else _) none) = []
          rw [hka, if_pos (by decide), Client.afterResume_closed hclosed]
          rfl
    rw [afterWriteEvents, hevents, hwritten, List.flatMap_append, bytes_wrote, hdone,
      List.append_nil]
    rw [List.append_nil] at hcut
    cases hka : req.doKeepAlive with
    | true => simpa using hcut
    | false => simpa [ClientOutput.bytes] using hcut
  · rw [afterWriteEvents, hevents, hwritten, List.flatMap_append, bytes_wrote]
    show (chunks.flatten ++ []) ++ pendingOf (Client.afterResume c (some (.writing req left))) = msg
    rw [Client.afterResume_kept hopen hkept, List.append_nil]
    exact hcut

theorem bytes_stretchOutput (c : ConnectionAsync) (script : Script) (frame : Frame) :
    (stretchOutput c script frame).flatMap ClientOutput.bytes =
      (callbackEvents c script frame).flatMap fun e => (ClientOutput.socket e).bytes := by
  have hrequests :
    ((connectionCallback c script frame).called.toList.map ClientOutput.request).flatMap
      ClientOutput.bytes = [] := by
    rw [List.flatMap_map]
    exact List.flatMap_eq_nil_iff.mpr fun _ _ => rfl
  rw [stretchOutput, List.flatMap_append, hrequests, List.nil_append, List.flatMap_map]

theorem requests_stretchOutput (c : ConnectionAsync) (script : Script) (frame : Frame) :
    (stretchOutput c script frame).filterMap ClientOutput.request? =
      (connectionCallback c script frame).called.toList := by
  have hevents : ((callbackEvents c script frame).map ClientOutput.socket).filterMap
      ClientOutput.request? = [] := by
    rw [List.filterMap_map]
    exact List.filterMap_eq_nil_iff.mpr fun _ _ => rfl
  rw [stretchOutput, List.filterMap_append, hevents, List.append_nil, List.filterMap_map]
  exact List.filterMap_some

/-- The requests that an event hands to `onRequest`. -/
theorem requests_output (client : Client) (ev : ClientEvent) :
    (client.output ev).filterMap ClientOutput.request? = (client.handle ev).called.toList := by
  obtain ⟨c, fr⟩ := client
  cases fr with
  | none => rfl
  | some frame =>
      have hcalled : (Client.handle ⟨c, some frame⟩ ev).called =
          (connectionCallback (c.setEvent ev.events) ev.script frame).called := by
        show (Client.afterStretch
          (connectionCallback (c.setEvent ev.events) ev.script frame)).called = _
        rw [Client.afterStretch]
        split
        · rfl
        · rfl
        · rfl
      rw [hcalled]
      exact requests_stretchOutput _ _ _

/-- What an event writes and leaves to write: what was left before, and the response to the
request that it brings. -/
theorem output_represents {client : Client} {waiting : Option Bytes}
    (h : Represents (some client) waiting) (w : Wakeup)
    (hturn : client.frame ≠ some .reading → w.chunks = []) (hwrites : Accepting w.writes) :
    (client.output w.event).flatMap ClientOutput.bytes ++ pendingOf (client.next w.event) =
      client.pending ++ (accept waiting w.arrived).1.toList.flatMap (responseText w.onRequest) := by
  cases h with
  | @reading c hopen hwaits =>
      let c' : ConnectionAsync := { c.setEvent w.events with m_buffer := c.m_buffer ++ w.arrived }
      have hread := readRequest_arrivals (c := c.setEvent w.events) hopen w.chunks
        fun chunk hc => (w.isChunk chunk hc).ne_nil
      rw [show (c.setEvent w.events).m_buffer ++ w.chunks.flatten = c.m_buffer ++
        w.arrived from rfl] at hread
      show (stretchOutput (c.setEvent w.events) w.event.script .reading).flatMap
        ClientOutput.bytes ++ pendingOf (Client.afterStretch
            (connectionCallback (c.setEvent w.events) w.event.script .reading)).client =
        [] ++ (accept (some c.m_buffer) w.arrived).1.toList.flatMap (responseText w.onRequest)
      rw [bytes_stretchOutput, accept]
      simp only [connectionCallback, callbackEvents, Wakeup.event, hread]
      cases hparse : HTTPRequest.ofString (c.m_buffer ++ w.arrived) with
      | error e =>
          show [] ++ pendingOf (Client.afterResume c' (some .reading)) = [] ++ []
          rw [Client.afterResume_reading (c := c') hopen]
          rfl
      | ok req =>
          have hne : c'.m_buffer ≠ [] := fun hnil => ofString_nil req (hnil ▸ hparse)
          refine (afterWrite_cut (c := c') hopen hne req (some req) _ hwrites).trans ?_
          simp [responseText]
  | @writing c req msg hopen hkept =>
      have hnone : w.arrived = [] := by rw [Wakeup.arrived, hturn (by simp)]; rfl
      have haccept : (accept (if req.doKeepAlive then some [] else none) w.arrived).1 = none := by
        rw [hnone]
        split
        · rw [accept_of_rejected ofString_nil]
        · rfl
      show (stretchOutput (c.setEvent w.events) w.event.script (.writing req msg)).flatMap
          ClientOutput.bytes ++
        pendingOf (Client.afterStretch
          (connectionCallback (c.setEvent w.events) w.event.script (.writing req msg))).client =
        msg ++ _
      rw [bytes_stretchOutput, haccept]
      refine (afterWrite_cut (c := c.setEvent w.events) hopen hkept req none msg hwrites).trans ?_
      simp

/-! ## All events of a client -/

/-- The actions of a family for these wake-ups of one client. -/
def wakeupActs (fd : Int) (ws : List Wakeup) : List (FamilyAct Int Client ClientEvent) :=
  ws.map fun w => .acted fd w.event

theorem memberOutputs_none (fd : Int) (ws : List Wakeup) :
    FamilyAct.memberOutputs Client.next Client.output none (wakeupActs fd ws) = [] ∧
      FamilyAct.member Client.next none (wakeupActs fd ws) = none := by
  induction ws with
  | nil => exact ⟨rfl, rfl⟩
  | cons w ws ih => exact ih

/-- Induction on the wake-ups; a client represents the bytes that wait for the rest of a request. -/
theorem outputs_stream {answer : HTTPRequest → HTTPResponse} (fd : Int) {client : Option Client}
    {waiting : Option Bytes} (h : Represents client waiting) (ws : List Wakeup)
    (hturn : ReadsInTurn client ws) (hwrites : ∀ w ∈ ws, Accepting w.writes)
    (hanswer : ∀ w ∈ ws, w.onRequest = answer) :
    let out := FamilyAct.memberOutputs Client.next Client.output client (wakeupActs fd ws)
    out.filterMap ClientOutput.request? = served waiting (ws.map Wakeup.arrived) ∧
      out.flatMap ClientOutput.bytes ++
        pendingOf (FamilyAct.member Client.next client (wakeupActs fd ws)) =
        pendingOf client ++ (served waiting (ws.map Wakeup.arrived)).flatMap
          (responseText answer) := by
  induction ws generalizing client waiting with
  | nil => exact ⟨rfl, (List.append_nil _).symm⟩
  | cons w ws ih =>
      cases client with
      | none =>
          cases h
          obtain ⟨hout, hgone⟩ := memberOutputs_none fd (w :: ws)
          rw [hout, hgone, served_none]
          exact ⟨rfl, rfl⟩
      | some client =>
          obtain ⟨hfirst, hlater⟩ := hturn
          obtain ⟨hcalled, hnext⟩ := handle_represents h w hfirst
          have hevent := output_represents h w hfirst (hwrites w List.mem_cons_self)
          rw [hanswer w List.mem_cons_self] at hevent
          let out := FamilyAct.memberOutputs Client.next Client.output (client.next w.event)
            (wakeupActs fd ws)
          let left :=
            pendingOf (FamilyAct.member Client.next (client.next w.event) (wakeupActs fd ws))
          obtain ⟨(hrequests : out.filterMap _ = _), hbytes⟩ := ih hnext hlater
            (fun w' hw' => hwrites w' (List.mem_cons_of_mem _ hw'))
            fun w' hw' => hanswer w' (List.mem_cons_of_mem _ hw')
          show (client.output w.event ++ out).filterMap _ = _ ∧
            (client.output w.event ++ out).flatMap _ ++ left = client.pending ++ _
          rw [List.map_cons, served, List.filterMap_append, requests_output, hcalled, hrequests]
          refine ⟨rfl, ?_⟩
          rw [List.flatMap_append, List.append_assoc, List.flatMap_append]
          calc (client.output w.event).flatMap ClientOutput.bytes ++
            (out.flatMap ClientOutput.bytes ++ left)
            _ = (client.output w.event).flatMap ClientOutput.bytes ++
              (pendingOf (client.next w.event) ++
                (served (accept waiting w.arrived).2 (ws.map Wakeup.arrived)).flatMap
                  (responseText answer)) := congrArg _ hbytes
            _ = _ := by rw [← List.append_assoc, hevent, List.append_assoc]

/-! ## A client of a worker -/

/-- What was put out for one descriptor. -/
def outputsFor (fd : Int) (bs : List Seen) : List ClientOutput :=
  ((bs.flatMap Seen.out).filter fun o => o.1 = fd).map Prod.snd

/-- **The responses of a client come one after the other.**  In a run in which no two clients ever
have one coroutine and no exception of a coroutine is lost, a client is accepted under `fd` and
woken up; no call fails for it, no timeout drops it, and `onRequest` gives the same response to the
same request.  What is put out for `fd` from its acceptance on: the requests handed to `onRequest`
are those served from the bytes that arrived, in their order; the bytes that its socket has taken,
with what is left of the response being written, are the responses to these requests, one after the
other. -/
theorem responses_in_order {server : BaseHTTPServer} {bs : List Seen} {s : Running}
    (hrun : SeenRun server bs s) {fd : Int} {garbage : UInt32} {ws : List Wakeup}
    (before : List (FamilyAct Int Client ClientEvent))
    (hlife : FamilyAct.about fd (bs.map Seen.act) =
      before ++ .began fd (Client.new fd garbage) :: wakeupActs fd ws)
    (hturn : ReadsInTurn (some (Client.new fd garbage)) ws) (hwrites : ∀ w ∈ ws, Accepting w.writes)
    {answer : HTTPRequest → HTTPResponse} (hanswer : ∀ w ∈ ws, w.onRequest = answer) :
    ∃ earlier out, outputsFor fd bs = earlier ++ out ∧
      earlier = FamilyAct.memberOutputs Client.next Client.output none before ∧
      out.filterMap ClientOutput.request? = served (some []) (ws.map Wakeup.arrived) ∧
      out.flatMap ClientOutput.bytes ++ pendingOf (clientAt s.worker fd) =
        (served (some []) (ws.map Wakeup.arrived)).flatMap (responseText answer) := by
  obtain ⟨hclient, hout⟩ := (seenRun_family hrun).2 fd
  rw [hlife] at hclient hout
  obtain ⟨hrequests, hbytes⟩ :=
    outputs_stream fd (represents_new fd garbage) ws hturn hwrites hanswer
  have hafter : clientAt s.worker fd =
      FamilyAct.member Client.next (some (Client.new fd garbage)) (wakeupActs fd ws) := by
    rw [hclient, FamilyAct.member_append]
    rfl
  refine ⟨_, _, hout.trans (FamilyAct.memberOutputs_append none before _), rfl, hrequests, ?_⟩
  rw [hafter]
  exact hbytes

theorem slow_isChunk : ∀ chunk ∈ [ascii "GET / HTTP/1.1", CRLF ++ CRLF], IsChunk chunk := by
  unfold IsChunk
  decide

theorem slow_noFailure (n : Nat) : ∀ w ∈ [SysWrite.wrote n], ∀ e, w ≠ .failed e := by
  intro w hw e heq
  cases (List.mem_singleton.mp hw).symm.trans heq

/-- A request comes in two pieces, and the socket takes the response in two. -/
def slowWakeups : List Wakeup :=
  [⟨1, [ascii "GET / HTTP/1.1", CRLF ++ CRLF], slow_isChunk,
      fun _ => {}, [.wrote 5], slow_noFailure 5⟩,
    ⟨4, [], fun _ hmem => absurd hmem List.not_mem_nil,
      fun _ => {}, [.wrote 100], slow_noFailure 100⟩]

theorem readsInTurn_of_silent (client : Option Client) {ws : List Wakeup}
    (h : ∀ w ∈ ws, w.chunks = []) : ReadsInTurn client ws := by
  induction ws generalizing client with
  | nil => exact readsInTurn_nil client
  | cons w ws ih =>
      cases client with
      | none => trivial
      | some client =>
          exact ⟨fun _ => h w List.mem_cons_self, ih _ fun w' hw' =>
            h w' (List.mem_cons_of_mem _ hw')⟩

/-- The worker after a wake-up of the client with descriptor 5. -/
def afterWakeup (w : Worker) (wakeup : Wakeup) : Worker :=
  match w.dispatch serverOn3 ⟨5, wakeup.events⟩ { script := wakeup.event.script, now := 2 } with
  | .ok w' => w'
  | _ => {}

theorem seenRun_wakeup {bs : List Seen} {w : Worker} (h : SeenRun serverOn3 bs ⟨w, .top⟩)
    (wakeup : Wakeup) (hw : (w.work.m_coroutines.entries.map Prod.snd).Nodup)
    (hw' : ((afterWakeup w wakeup).work.m_coroutines.entries.map Prod.snd).Nodup)
    (hidle : timedOut serverOn3 (fun _ => 2) w.work.m_idleTime.entries = [])
    (hdrop : Running.Step serverOn3 ⟨w, .top⟩ (.drop {} fun _ => 2) ⟨w, .waiting⟩)
    (hmem : 5 ∈ w.work.registered)
    (hbound : ∀ r ∈ w.ordinator.routines, w.ordinator.boundIn r.ctx = w.ordinator.storage)
    (hhandle : Running.Step serverOn3 ⟨w, .handling [⟨5, wakeup.events⟩]⟩
      (.handle { script := wakeup.event.script, now := 2 }) ⟨afterWakeup w wakeup, .handling []⟩) :
    SeenRun serverOn3
      (bs ++ w.seen serverOn3 ⟨5, wakeup.events⟩ { script := wakeup.event.script, now := 2 })
      ⟨afterWakeup w wakeup, .top⟩ := by
  refine seenRun_event h (apart_of_nodup hw) (apart_of_nodup hw') ⟨5, wakeup.events⟩
    { script := wakeup.event.script, now := 2 } hidle hdrop ?_
    (fun (hfd : (0 : Int) ≤ -1) => absurd hfd (by decide))
    (fun _ => exceptionReturns_of_bound hbound _ _ _) hhandle
  exact ⟨by simp, by simpa using Or.inr hmem⟩

theorem seenRun_slow : ∃ bs s, SeenRun serverOn3 bs s ∧
    FamilyAct.about 5 (bs.map Seen.act) = .began 5 (Client.new 5 0) ::
      wakeupActs 5 slowWakeups := by
  have hfirst := seenRun_wakeup seenRun_oneClient (slowWakeups.get ⟨0, by decide⟩)
    (by decide +kernel) (by decide +kernel) (by decide +kernel)
    (by unfold Running.Step; decide +kernel) (by decide +kernel) (by decide +kernel)
    (by unfold Running.Step; decide +kernel)
  have hsecond := seenRun_wakeup hfirst (slowWakeups.get ⟨1, by decide⟩) (by decide +kernel)
    (by decide +kernel) (by decide +kernel) (by unfold Running.Step; decide +kernel)
    (by decide +kernel) (by decide +kernel) (by unfold Running.Step; decide +kernel)
  exact ⟨_, _, hsecond, rfl⟩

theorem slow_turn : ReadsInTurn (some (Client.new 5 0)) slowWakeups := by
  refine readsInTurn_cons _ (fun cl hcl => ?_) fun cl _ => readsInTurn_of_silent _ (by simp)
  cases hcl
  rfl

theorem slow_writes : ∀ w ∈ slowWakeups, Accepting w.writes := by
  simp only [slowWakeups, List.forall_mem_cons, List.not_mem_nil, false_implies,
    implies_true, and_true]
  constructor
  · exact fun w hw => Or.inr ⟨4, List.mem_singleton.mp hw⟩
  · exact fun w hw => Or.inr ⟨99, List.mem_singleton.mp hw⟩

theorem slow_answer : ∀ w ∈ slowWakeups, w.onRequest = fun _ => {} := by
  simp [slowWakeups]

/-- The slow client gets its response. -/
theorem responses_in_order_slow :
    ∃ bs s, SeenRun serverOn3 bs s ∧ ∃ earlier out, outputsFor 5 bs = earlier ++ out ∧
      earlier = FamilyAct.memberOutputs Client.next Client.output none
        ([] : List (FamilyAct Int Client ClientEvent)) ∧
      out.filterMap ClientOutput.request? = served (some []) (slowWakeups.map Wakeup.arrived) ∧
      out.flatMap ClientOutput.bytes ++ pendingOf (clientAt s.worker 5) =
        (served (some []) (slowWakeups.map Wakeup.arrived)).flatMap (responseText fun _ => {}) := by
  obtain ⟨bs, s, hrun, hlife⟩ := seenRun_slow
  exact ⟨bs, s, hrun, responses_in_order hrun [] hlife slow_turn slow_writes slow_answer⟩

end HTTP
end AdvCppHW
