import AdvCppHW.HTTP.HTTPMessage
import AdvCppHW.TCP.ConnectionAsync

/-!
# The coroutine of a connection

`connectionCallback`, `readRequest` and `writeResponse` of `HTTP/BaseHTTPServer.cpp`.  Each function
here runs from one resumption of the coroutine to its next `Coroutine::yield`, or to its end.  What
the system calls and the user's `onRequest` do in that stretch is a parameter: lists of outcomes,
after which the socket would block.

* `readRequestIter` — one turn of the loop in `readRequest`; `readRequest` — the loop.
* `writeResponse` — the loop that writes a message.
* `connectionCallback` — the coroutine, from the point where it is suspended (`Frame`).
* `connectionCallback_sound` — a stretch keeps the socket unless it returns and closes it.
-/

namespace AdvCppHW
namespace HTTP

open ConnectionAsync

/-- `readSize`. -/
def readSize : Nat := 256

/-! ## Reading -/

/-- How a turn of the loop in `readRequest` ends. -/
inductive ReadStep where
  /-- The loop goes on. -/
  | again
  /-- The coroutine yields, and goes on with the loop when it is resumed. -/
  | yielded
  | returned (req : HTTPRequest)
  | threw (e : Exception)
deriving DecidableEq

/-- The body of the loop in `readRequest`; `sys` is the outcome of its read. -/
def readRequestIter (c : ConnectionAsync) (sys : SysRead) : ReadStep × ConnectionAsync :=
  match (readToBuffer readSize sys).run ⟨c, 0⟩ with
  | .error e s => (.threw e, s.c)
  | .ok _ s =>
      if s.errno = EAGAIN then
        -- everything that has arrived is taken for one request
        match HTTPRequest.ofString s.c.m_buffer with
        | .ok req => (.returned req, s.c)
        | .error e => if e.isArgumentError then (.yielded, s.c) else (.threw e, s.c)
      else
        (.again, s.c)

/-- How a stretch of a coroutine ends that is to produce an `α`. -/
inductive StretchEnd (α : Type) where
  | yielded
  | returned (a : α)
  | threw (e : Exception)
deriving DecidableEq

/-- `readRequest` from a resumption on: the reads have the listed outcomes, and then would block. -/
def readRequest (c : ConnectionAsync) : List SysRead → StretchEnd HTTPRequest × ConnectionAsync
  | [] =>
      match readRequestIter c .wouldBlock with
      | (.returned req, c') => (.returned req, c')
      | (.threw e, c') => (.threw e, c')
      -- a read that would block never goes round the loop
      | (_, c') => (.yielded, c')
  | sys :: reads =>
      match readRequestIter c sys with
      | (.again, c') => readRequest c' reads
      | (.yielded, c') => (.yielded, c')
      | (.returned req, c') => (.returned req, c')
      | (.threw e, c') => (.threw e, c')

/-! ## Writing -/

/-- How a stretch of `writeResponse` ends; a suspended one keeps what is left of the message. -/
inductive WriteEnd where
  | yielded (msg : Bytes)
  | returned
  | threw (e : Exception)
deriving DecidableEq

/-- `writeResponse` with `msg` left to write: the writes have the listed outcomes, and then would
block.  When everything is written the read buffer is cleared. -/
def writeResponse (c : ConnectionAsync) (msg : Bytes) : List SysWrite → WriteEnd × ConnectionAsync
  | [] =>
      if msg.length = 0 then
        (.returned, c.clearBuffer)
      else
        match (write msg .wouldBlock).run ⟨c, 0⟩ with
        | .error e s => (.threw e, s.c)
        | .ok sent s => (.yielded (msg.drop sent), s.c)
  | sys :: writes =>
      if msg.length = 0 then
        (.returned, c.clearBuffer)
      else
        match (write msg sys).run ⟨c, 0⟩ with
        | .error e s => (.threw e, s.c)
        | .ok sent s =>
            if s.errno = EAGAIN then (.yielded (msg.drop sent), s.c)
            else writeResponse s.c (msg.drop sent) writes

/-! ## The coroutine -/

/-- Where the coroutine continues when it is resumed. -/
inductive Frame where
  /-- At the beginning, or behind the `yield` in `readRequest`. -/
  | reading
  /-- Behind the `yield` in `writeResponse`, with the rest of the message. -/
  | writing (req : HTTPRequest) (msg : Bytes)
deriving DecidableEq

/-- What the environment does during one stretch of the coroutine. -/
structure Script where
  reads : List SysRead := []
  onRequest : HTTPRequest → Except Exception HTTPResponse
  writes : List SysWrite := []

/-- How a stretch of `connectionCallback` ends. -/
inductive CallbackEnd where
  | yielded (frame : Frame)
  | returned
  | threw (e : Exception)
deriving DecidableEq

/-- A stretch of `connectionCallback`: its end, the connection after it, and the request it handed
to `onRequest`, if it got that far. -/
structure Stretch where
  ended : CallbackEnd
  c : ConnectionAsync
  called : Option HTTPRequest := none

/-- The last statement of `connectionCallback`, after a stretch of `writeResponse`. -/
def afterWrite (req : HTTPRequest) (called : Option HTTPRequest) :
    WriteEnd × ConnectionAsync → Stretch
  | (.yielded msg, c) => ⟨.yielded (.writing req msg), c, called⟩
  | (.threw e, c) => ⟨.threw e, c, called⟩
  | (.returned, c) => ⟨.returned, if !req.doKeepAlive then c.close else c, called⟩

/-- `connectionCallback` from a resumption to the next yield or to the end. -/
def connectionCallback (c : ConnectionAsync) (script : Script) : Frame → Stretch
  | .reading =>
      match readRequest c script.reads with
      | (.yielded, c) => ⟨.yielded .reading, c, none⟩
      | (.threw e, c) => ⟨.threw e, c, none⟩
      | (.returned req, c) =>
          match script.onRequest req with
          | .error e => ⟨.threw e, c, some req⟩
          | .ok resp => afterWrite req (some req) (writeResponse c resp.toString.1 script.writes)
  | .writing req msg => afterWrite req none (writeResponse c msg script.writes)

/-! ## What a stretch leaves alone -/

theorem readRequestIter_socket (c : ConnectionAsync) (sys : SysRead) :
    (readRequestIter c sys).2.m_socket = c.m_socket := by
  have h := readToBuffer_socket readSize sys ⟨c, 0⟩
  unfold readRequestIter
  split
  · next e s hread =>
      rw [hread] at h
      exact h
  · next recieved s hread =>
      rw [hread] at h
      split
      · split
        · exact h
        · split
          · exact h
          · exact h
      · exact h

theorem readRequest_socket (c : ConnectionAsync) (reads : List SysRead) :
    (readRequest c reads).2.m_socket = c.m_socket := by
  induction reads generalizing c with
  | nil =>
      have h := readRequestIter_socket c .wouldBlock
      unfold readRequest
      split
      all_goals
        next hiter =>
          rw [hiter] at h
          exact h
  | cons sys reads ih =>
      have h := readRequestIter_socket c sys
      unfold readRequest
      split
      · next c' hiter =>
          rw [hiter] at h
          exact (ih c').trans h
      all_goals
        next hiter =>
          rw [hiter] at h
          exact h

/-- `writeResponse` changes nothing until everything is written, and then clears the buffer. -/
theorem writeResponse_result (c : ConnectionAsync) (msg : Bytes) (writes : List SysWrite) :
    (writeResponse c msg writes).2 =
      if (writeResponse c msg writes).1 = .returned then c.clearBuffer else c := by
  induction writes generalizing msg with
  | nil =>
      unfold writeResponse
      split
      · rfl
      · have h := write_same msg .wouldBlock ⟨c, 0⟩
        split
        all_goals
          next hwrite =>
            rw [hwrite] at h
            exact h
  | cons sys writes ih =>
      unfold writeResponse
      split
      · rfl
      · have h := write_same msg sys ⟨c, 0⟩
        split
        · next hwrite =>
            rw [hwrite] at h
            exact h
        · next sent s hwrite =>
            rw [hwrite] at h
            split
            · exact h
            · have hc : s.c = c := h
              rw [hc]
              exact ih _

/-- What a stretch does to the socket of its connection, and to the buffer at the end. -/
structure Stretch.Sound (s : Stretch) (c : ConnectionAsync) : Prop where
  /-- The socket stays, unless the coroutine has returned and closed it. -/
  socket : s.c.m_socket = c.m_socket ∨
    s.ended = .returned ∧ s.c.m_opened = false ∧ s.c.m_socket.isOpened = false
  buffer : s.ended = .returned → s.c.m_buffer = []

theorem afterWrite_sound (req : HTTPRequest) (called : Option HTTPRequest) (c : ConnectionAsync)
    (msg : Bytes) (writes : List SysWrite) :
    (afterWrite req called (writeResponse c msg writes)).Sound c := by
  have hresult := writeResponse_result c msg writes
  rcases hw : writeResponse c msg writes with ⟨ended, c'⟩
  rw [hw] at hresult
  cases ended with
  | yielded msg' => exact ⟨Or.inl (congrArg (·.m_socket) hresult), nofun⟩
  | threw e => exact ⟨Or.inl (congrArg (·.m_socket) hresult), nofun⟩
  | returned =>
      have hc' : c' = c.clearBuffer := hresult
      cases hka : req.doKeepAlive with
      | true => exact ⟨Or.inl (by simp [afterWrite, hka, hc', clearBuffer]),
          fun _ => by simp [afterWrite, hka, hc', clearBuffer]⟩
      | false =>
          refine ⟨?_, ?_⟩
          · simp only [afterWrite, hka, hc', Bool.not_false, if_true, true_and]
            exact close_socket c.clearBuffer
          · intro _
            simp only [afterWrite, hka, hc', Bool.not_false, if_true, close]
            split
            · rfl
            · rfl

theorem connectionCallback_sound (c : ConnectionAsync) (script : Script) (frame : Frame) :
    (connectionCallback c script frame).Sound c := by
  cases frame with
  | writing req msg => exact afterWrite_sound req none c msg script.writes
  | reading =>
      have h := readRequest_socket c script.reads
      unfold connectionCallback
      rcases hread : readRequest c script.reads with ⟨ended, c'⟩
      rw [hread] at h
      cases ended with
      | yielded => exact ⟨Or.inl h, nofun⟩
      | threw e => exact ⟨Or.inl h, nofun⟩
      | returned req =>
          dsimp only
          cases script.onRequest req with
          | error e => exact ⟨Or.inl h, nofun⟩
          | ok resp =>
              obtain ⟨hsocket, hbuffer⟩ :=
                afterWrite_sound req (some req) c' resp.toString.1 script.writes
              exact ⟨hsocket.imp_left (·.trans h), hbuffer⟩

end HTTP
end AdvCppHW
