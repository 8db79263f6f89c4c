import AdvCppHW.HTTP.Fragmentation

/-!
# One client of a worker

`ThreadWork::handleConnection` as a single client sees it: its connection, and the place where its
coroutine continues.  `accept` forgets everything but the bytes that wait in the buffer; a client
refines it as long as nothing fails.

* `Client.handle` — one event of the client.
* `Client.calls` — the requests handed to `onRequest` over a list of events.
* `handle_represents` — one event is one step of `accept`; `calls_eq_served` — so are whole runs.
-/

namespace AdvCppHW
namespace HTTP

open ConnectionAsync

/-! ## Handling events -/

/-- A client: its connection, and where its coroutine continues (`none` when that has ended). -/
structure Client where
  c : ConnectionAsync
  frame : Option Frame

/-- An event of a client: the flags `epoll_wait` reported, and what the environment does while the
coroutine runs. -/
structure ClientEvent where
  events : UInt32 := 0
  script : Script

/-- What an event leads to. -/
structure Handled where
  /-- `none` when the client was disconnected. -/
  client : Option Client
  called : Option HTTPRequest := none
  /-- The exception that left `handleConnection`. -/
  threw : Option Exception := none

namespace Client

/-- A client that was just accepted. -/
def new (fd : Int) (garbage : UInt32) : Client := ⟨ofFD fd garbage, some .reading⟩

/-- `handleConnection` behind `Coroutine::resume`: a closed connection is disconnected, and with an
empty buffer there is a new coroutine. -/
def afterResume (c : ConnectionAsync) (frame : Option Frame) : Option Client :=
  if !c.isOpened then
    none
  else if c.clearEvents.m_buffer = [] then
    some ⟨c.clearEvents, some .reading⟩
  else
    some ⟨c.clearEvents, frame⟩

/-- The rest of `handleConnection` after a stretch of the coroutine.  An exception leaves
`Coroutine::resume`, and the coroutine has ended. -/
def afterStretch (s : Stretch) : Handled :=
  match s.ended with
  | .yielded frame => ⟨afterResume s.c (some frame), s.called, none⟩
  | .returned => ⟨afterResume s.c none, s.called, none⟩
  | .threw e => ⟨some ⟨s.c, none⟩, s.called, some e⟩

theorem afterResume_closed {c : ConnectionAsync} (hclosed : c.m_opened = false)
    (frame : Option Frame) : afterResume c frame = none := by
  simp [afterResume, isOpened, hclosed]

theorem afterResume_empty {c : ConnectionAsync} (hopen : c.m_opened = true)
    (hempty : c.m_buffer = [])
    (frame : Option Frame) : afterResume c frame = some ⟨c.clearEvents, some .reading⟩ := by
  simp [afterResume, isOpened, clearEvents, hopen, hempty]

theorem afterResume_kept {c : ConnectionAsync} (hopen : c.m_opened = true) (hkept : c.m_buffer ≠ [])
    (frame : Option Frame) : afterResume c frame = some ⟨c.clearEvents, frame⟩ := by
  simp [afterResume, isOpened, clearEvents, hopen, hkept]

theorem afterResume_reading {c : ConnectionAsync} (hopen : c.m_opened = true) :
    afterResume c (some .reading) = some ⟨c.clearEvents, some .reading⟩ := by
  by_cases hempty : c.m_buffer = []
  · exact afterResume_empty hopen hempty _
  · exact afterResume_kept hopen hempty _

/-- `handleConnection` for a client that is resumed in its own coroutine.  A coroutine that
has ended is not resumed. -/
def handle (client : Client) (ev : ClientEvent) : Handled :=
  let c := client.c.setEvent ev.events
  match client.frame with
  | none => ⟨afterResume c none, none, none⟩
  | some frame => afterStretch (connectionCallback c ev.script frame)

/-- The calls of `onRequest` while a client's events are handled; a
disconnected client gets none. -/
def calls : Option Client → List ClientEvent → List HTTPRequest
  | none, _ => []
  | some _, [] => []
  | some client, ev :: evs =>
      (client.handle ev).called.toList ++ calls (client.handle ev).client evs

end Client

/-- An event in which nothing fails: chunks arrive, then the socket would block; `onRequest`
returns; writes take some bytes or would block. -/
structure Wakeup where
  events : UInt32 := 0
  chunks : List Bytes := []
  isChunk : ∀ chunk ∈ chunks, IsChunk chunk
  onRequest : HTTPRequest → HTTPResponse
  writes : List SysWrite := []
  noFailure : ∀ w ∈ writes, ∀ e, w ≠ .failed e

namespace Wakeup

def event (w : Wakeup) : ClientEvent where
  events := w.events
  script := ⟨w.chunks.map .data, fun req => .ok (w.onRequest req), w.writes⟩

/-- The bytes that arrive. -/
def arrived (w : Wakeup) : Bytes := w.chunks.flatten

end Wakeup

/-- Bytes are read in `readRequest` only: while the coroutine writes a response nothing arrives. -/
def ReadsInTurn : Option Client → List Wakeup → Prop
  | none, _ => True
  | some _, [] => True
  | some client, w :: ws =>
      (client.frame ≠ some .reading → w.chunks = []) ∧ ReadsInTurn (client.handle w.event).client ws

/-- A client that reads, or is gone, may be sent more bytes. -/
theorem readsInTurn_cons {client : Option Client} (w : Wakeup) {ws : List Wakeup}
    (hframe : ∀ cl ∈ client, cl.frame = some .reading)
    (hlater : ∀ cl ∈ client, ReadsInTurn (cl.handle w.event).client ws) :
    ReadsInTurn client (w :: ws) := by
  cases client with
  | none => trivial
  | some client => exact ⟨fun h => absurd (hframe client rfl) h, hlater client rfl⟩

theorem readsInTurn_nil (client : Option Client) : ReadsInTurn client [] := by
  cases client <;> trivial

/-! ## Served requests, from the bytes alone -/

/-- Bytes arrive behind those that wait: a request is taken when the parser accepts all of them, and
nothing is served behind one that does not keep the connection.  `none` when nothing is served any
more. -/
def accept : Option Bytes → Bytes → Option HTTPRequest × Option Bytes
  | none, _ => (none, none)
  | some waiting, arrived =>
      match HTTPRequest.ofString (waiting ++ arrived) with
      | .ok req => (some req, if req.doKeepAlive then some [] else none)
      | .error _ => (none, some (waiting ++ arrived))

/-- The requests taken from successive arrivals. -/
def served (waiting : Option Bytes) : List Bytes → List HTTPRequest
  | [] => []
  | arrived :: later =>
      (accept waiting arrived).1.toList ++ served (accept waiting arrived).2 later

theorem served_none (arrivals : List Bytes) : served none arrivals = [] := by
  induction arrivals with
  | nil => rfl
  | cons arrived later ih => simpa [served, accept] using ih

theorem accept_of_rejected {waiting arrived : Bytes}
    (h : ∀ req, HTTPRequest.ofString (waiting ++ arrived) ≠ .ok req) :
    accept (some waiting) arrived = (none, some (waiting ++ arrived)) := by
  rw [accept]
  cases hparse : HTTPRequest.ofString (waiting ++ arrived) with
  | ok req => exact absurd hparse (h req)
  | error e => rfl

theorem accept_of_accepted {waiting arrived : Bytes} {req : HTTPRequest}
    (h : HTTPRequest.ofString (waiting ++ arrived) = .ok req) :
    accept (some waiting) arrived = (some req, if req.doKeepAlive then some [] else none) := by
  rw [accept, h]

/-! ## Refinement -/

/-- The bytes of a client that wait for the rest of a request. -/
inductive Represents : Option Client → Option Bytes → Prop
  | reading {c : ConnectionAsync} (hopen : c.m_opened = true)
      (hwaits : ∀ req, HTTPRequest.ofString c.m_buffer ≠ .ok req) :
      Represents (some ⟨c, some .reading⟩) (some c.m_buffer)
  | writing {c : ConnectionAsync} {req : HTTPRequest} {msg : Bytes} (hopen : c.m_opened = true)
      (hkept : c.m_buffer ≠ []) :
      Represents (some ⟨c, some (.writing req msg)⟩) (if req.doKeepAlive then some [] else none)
  | disconnected : Represents none none

theorem represents_new (fd : Int) (garbage : UInt32) :
    Represents (some (Client.new fd garbage)) (some []) :=
  .reading (c := ofFD fd garbage) rfl ofString_nil

/-- A stretch of writing leaves the client writing, waiting for a new request or disconnected. -/
theorem afterStretch_afterWrite {c : ConnectionAsync} (hopen : c.m_opened = true)
    (hkept : c.m_buffer ≠ []) (req : HTTPRequest) (called : Option HTTPRequest) (msg : Bytes)
    (writes : List SysWrite) (hwrites : ∀ w ∈ writes, ∀ e, w ≠ .failed e) :
    let handled := Client.afterStretch (afterWrite req called (writeResponse c msg writes))
    handled.called = called ∧
      Represents handled.client (if req.doKeepAlive then some [] else none) := by
  rcases writeResponse_cases hopen msg writes hwrites with ⟨msg', hw⟩ | hw
  · rw [hw]
    refine ⟨rfl, ?_⟩
    show Represents (Client.afterResume c (some (.writing req msg'))) _
    rw [Client.afterResume_kept hopen hkept]
    exact .writing (c := c.clearEvents) hopen hkept
  · rw [hw]
    refine ⟨rfl, ?_⟩
    cases hka : req.doKeepAlive with
    | true =>
        show Represents (Client.afterResume (if !req.doKeepAlive then _ else c.clearBuffer) none) _
        rw [hka, if_neg (by decide), if_pos rfl,
          Client.afterResume_empty (c := c.clearBuffer) hopen rfl]
        exact .reading (c := c.clearBuffer.clearEvents) hopen ofString_nil
    | false =>
        have hclosed : c.clearBuffer.close.m_opened = false := by
          simp [close, isOpened, clearBuffer, hopen]
        show Represents
          (Client.afterResume (if !req.doKeepAlive then c.clearBuffer.close else _) none) _
        rw [hka, if_pos (by decide), if_neg (by decide), Client.afterResume_closed hclosed]
        exact .disconnected

/-- One event of a client is one step of `accept`. -/
theorem handle_represents {client : Client} {waiting : Option Bytes}
    (h : Represents (some client) waiting) (w : Wakeup)
    (hturn : client.frame ≠ some .reading → w.chunks = []) :
    (client.handle w.event).called = (accept waiting w.arrived).1 ∧
      Represents (client.handle w.event).client (accept waiting w.arrived).2 := by
  cases h with
  | @reading c hopen hwaits =>
      have hread : readRequest (c.setEvent w.events) (w.chunks.map .data) =
          (match HTTPRequest.ofString (c.m_buffer ++ w.arrived) with
            | .ok req => .returned req
            | .error _ => .yielded,
            { c.setEvent w.events with m_buffer := c.m_buffer ++ w.arrived }) :=
        readRequest_arrivals (c := c.setEvent w.events) hopen w.chunks
          fun chunk hc => (w.isChunk chunk hc).ne_nil
      cases hparse : HTTPRequest.ofString (c.m_buffer ++ w.arrived) with
      | error e =>
          have hreject : ∀ req, HTTPRequest.ofString (c.m_buffer ++ w.arrived) ≠ .ok req := by
            rw [hparse]
            exact fun req => nofun
          rw [hparse] at hread
          rw [accept_of_rejected hreject]
          simp only [Client.handle, Wakeup.event, connectionCallback, hread]
          refine ⟨rfl, ?_⟩
          show Represents (Client.afterResume
            { c.setEvent w.events with m_buffer := c.m_buffer ++ w.arrived } (some .reading)) _
          rw [Client.afterResume_reading
            (c := { c.setEvent w.events with m_buffer := c.m_buffer ++ w.arrived }) hopen]
          exact .reading (c := { c with m_buffer := c.m_buffer ++ w.arrived, m_events := 0 }) hopen
            hreject
      | ok req =>
          have hne : c.m_buffer ++ w.arrived ≠ [] := fun hnil => ofString_nil req (hnil ▸ hparse)
          rw [hparse] at hread
          rw [accept_of_accepted hparse]
          simp only [Client.handle, Wakeup.event, connectionCallback, hread]
          exact afterStretch_afterWrite
            (c := { c.setEvent w.events with m_buffer := c.m_buffer ++ w.arrived }) hopen hne req
            (some req) _ _ w.noFailure
  | @writing c req msg hopen hkept =>
      -- nothing arrives, and nothing waits that the parser would accept
      have hnone : w.arrived = [] := by rw [Wakeup.arrived, hturn (by simp)]; rfl
      have haccept : accept (if req.doKeepAlive then some [] else none) w.arrived =
          (none, if req.doKeepAlive then some [] else none) := by
        rw [hnone]
        split
        · exact accept_of_rejected ofString_nil
        · rfl
      rw [haccept]
      simp only [Client.handle, Wakeup.event, connectionCallback]
      exact afterStretch_afterWrite (c := c.setEvent w.events) hopen hkept req none _ _ w.noFailure

/-- The calls of a client's run are the requests served from the bytes that arrived. -/
theorem calls_eq_served {client : Option Client} {waiting : Option Bytes}
    (h : Represents client waiting) (ws : List Wakeup) (hturn : ReadsInTurn client ws) :
    Client.calls client (ws.map Wakeup.event) = served waiting (ws.map Wakeup.arrived) := by
  induction ws generalizing client waiting with
  | nil => cases client with
    | none => rfl
    | some client => rfl
  | cons w ws ih =>
      cases client with
      | none =>
          cases h
          rw [served_none]
          rfl
      | some client =>
          obtain ⟨hfirst, hlater⟩ := hturn
          obtain ⟨hcalled, hnext⟩ := handle_represents h w hfirst
          rw [List.map_cons, List.map_cons, Client.calls, served, hcalled, ih hnext hlater]

end HTTP
end AdvCppHW
