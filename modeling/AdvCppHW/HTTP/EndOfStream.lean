import AdvCppHW.HTTP.Fragmentation

/-!
# A request that is followed by the end of the stream

A client may send its request and shut down its sending side.  `readRequest` parses the buffer after
a read that would block; after a read of zero bytes it reads once more, on a connection that is
closed now.  So such a request is never served, although all of it is in the buffer.

* `gathered_chunks_eof` — the reads of a resumption that meets the end of the stream.
* `readRequestResumed_eof` — what `readRequest` does on one.
* `endOfStream_never` — it is never the request.
-/

namespace AdvCppHW
namespace HTTP

open ConnectionAsync

/-- Behind the end of the stream nothing is read any more. -/
theorem gathered_chunks_eof {chunks : List Bytes} (hchunks : ∀ chunk ∈ chunks, chunk ≠ [])
    (more : List SysRead) :
    gathered (chunks.map .data ++ .eof :: more) = (chunks.flatten, .eof) := by
  rw [gathered_chunks_append hchunks, gathered, List.append_nil]

/-- A resumption whose reads meet the end of the stream closes the connection and throws,
whatever is in the buffer. -/
theorem readRequest_chunks_eof {c : ConnectionAsync} (hopen : c.m_opened = true)
    {chunks : List Bytes} (hchunks : ∀ chunk ∈ chunks, chunk ≠ []) (more : List SysRead) :
    readRequest c (chunks.map .data ++ .eof :: more) =
      (.threw (.DescriptorError "Connection is closed!"),
        { c with m_buffer := c.m_buffer ++ chunks.flatten, m_opened := false }) := by
  rw [readRequest_eq hopen, gathered_chunks_eof hchunks]

section EndOfStream

variable {s : Bytes} {req : HTTPRequest} {c : ConnectionAsync} {segments : List (List Bytes)}
  {last : List Bytes}

/-- The chunks of a complete request arrive, with would-blocks anywhere between them,
and the end of the stream follows the last one.  The whole request is in the buffer when
the exception is thrown. -/
theorem readRequestResumed_eof (hs : IsComplete s req) (hopen : c.m_opened = true)
    (hempty : c.m_buffer = []) (hlast : last ≠ [])
    (hchunks : ∀ segment ∈ segments ++ [last], ∀ chunk ∈ segment, IsChunk chunk)
    (hsplit : (segments ++ [last]).flatten.flatten = s) (more : List SysRead)
    (later : List (List SysRead)) :
    readRequestResumed c (arrivals segments ++ (last.map .data ++ .eof :: more) :: later) =
      (.threw (.DescriptorError "Connection is closed!"),
        { c with m_buffer := s, m_opened := false }) := by
  have hinit : ∀ segment ∈ segments, ∀ chunk ∈ segment, IsChunk chunk := by
    intro segment h
    exact hchunks segment (List.mem_append_left _ h)
  have hlastChunks : ∀ chunk ∈ last, IsChunk chunk := hchunks last (by simp)
  have hreject : ∀ n ≤ segments.length,
      ∃ e, HTTPRequest.ofString (c.m_buffer ++ (segments.take n).flatten.flatten) = .error e := by
    intro n _
    rw [hempty, List.nil_append]
    exact segments_rejected hs (flatten_ne_nil_of_chunks hlast hlastChunks) hsplit n
  have hbytes : segments.flatten.flatten ++ last.flatten = s := by
    rw [← hsplit]
    simp
  rw [readRequestResumed_waiting hopen segments _ hinit hreject, hempty, List.nil_append,
    readRequestResumed, readRequest_chunks_eof]
  · dsimp only
    rw [hbytes]
  · exact hopen
  · intro chunk hchunk
    exact (hlastChunks chunk hchunk).ne_nil

/-- **A request before the end of the stream is never served.**  However it was cut into chunks and
would-blocks, `readRequest` does not return the request that the constructor makes of its bytes. -/
theorem endOfStream_never (hs : IsComplete s req) (hopen : c.m_opened = true)
    (hempty : c.m_buffer = []) (hlast : last ≠ [])
    (hchunks : ∀ segment ∈ segments ++ [last], ∀ chunk ∈ segment, IsChunk chunk)
    (hsplit : (segments ++ [last]).flatten.flatten = s) (more : List SysRead)
    (later : List (List SysRead)) :
    ¬ (readRequestResumed c
        (arrivals segments ++ (last.map .data ++ .eof :: more) :: later)).1 = .returned req := by
  rw [readRequestResumed_eof hs hopen hempty hlast hchunks hsplit more later]
  intro h
  cases h

end EndOfStream

/-- A request in two resumptions, its last chunk followed by the end of the stream. -/
theorem endOfStream_never_get :
    ¬ (readRequestResumed (ofFD 5 0)
        (arrivals [[ascii "GET "]] ++
          ([ascii "/ HTTP/1.1\r\n", ascii "\r\n"].map .data ++ .eof :: []) :: [])).1 =
      .returned { m_method := ascii "GET", m_reqTarget := ascii "/",
                  m_version := ascii "1.1" } := by
  apply endOfStream_never (s := ascii "GET / HTTP/1.1\r\n\r\n")
  · constructor
    · decide +kernel
    · intro _
      decide +kernel
  · rfl
  · rfl
  · decide
  · unfold IsChunk readSize
    decide
  · decide

/-- One chunk with a whole request, and the end of the stream: the buffer would be accepted, and
`readRequest` throws. -/
theorem shutDownAfterRequest_not_served :
    ¬ ∀ (s : Bytes) (req : HTTPRequest) (c : ConnectionAsync) (segments : List (List Bytes))
        (last : List Bytes), IsComplete s req → c.m_opened = true → c.m_buffer = [] → last ≠ [] →
      (∀ segment ∈ segments ++ [last], ∀ chunk ∈ segment, IsChunk chunk) →
      (segments ++ [last]).flatten.flatten = s →
      (readRequestResumed c (arrivals segments ++ [last.map .data ++ [.eof]])).1 =
        .returned req := by
  intro h
  have hserved := h (ascii "GET / HTTP/1.1\r\n\r\n")
    { m_method := ascii "GET", m_reqTarget := ascii "/", m_version := ascii "1.1" } (ofFD 5 0) []
    [ascii "GET / HTTP/1.1\r\n\r\n"] ⟨by decide +kernel, fun _ => by decide +kernel⟩ rfl rfl
    (by decide) (by unfold IsChunk readSize; decide) (by decide)
  revert hserved
  decide +kernel

end HTTP
end AdvCppHW
