import AdvCppHW.HTTP.RequestGrammar

/-!
# The header block and the body that `toString` writes

Both `toString` write the same header block and body, and both `fromString` read them with the same
loop.  A `WellFormed` message can be read back: its block consists of header lines
(`sentHeaders_isHeaderLine`), cutting them gives the headers again (`assignAll_sentHeaders`), and
the length among them is that of the body (`WellFormed.announced`).
-/

namespace AdvCppHW
namespace HTTP

open Support HTTPMessage

/-- A message whose headers and body can be told apart in its text.  Names may end in `':'` and
values in a lone carriage return; nothing is asked of the body's bytes. -/
structure HTTPMessage.WellFormed (m : HTTPMessage) : Prop where
  names : ∀ e ∈ m.m_headers.entries, ¬ COLON <:+: e.1 ∧ ¬ CRLF <:+: e.1
  values : ∀ e ∈ m.m_headers.entries, ¬ CRLF <:+: e.2
  /-- A header that gives the length gives it right. -/
  contentLength : ∀ v, m.m_headers.lookup ContentLength = some v → v = to_string m.m_body.length
  /-- `std::string::max_size()`: a string's size fits `ptrdiff_t`. -/
  body_size : m.m_body.length < 2 ^ 63

/-- Names and values can be told apart in the text. -/
structure HTTPMessage.Delimited (m : HTTPMessage) : Prop where
  names : ∀ e ∈ m.m_headers.entries, ¬ COLON <:+: e.1 ∧ ¬ CRLF <:+: e.1
  values : ∀ e ∈ m.m_headers.entries, ¬ CRLF <:+: e.2

theorem HTTPMessage.WellFormed.delimited {m : HTTPMessage} (h : m.WellFormed) : m.Delimited :=
  ⟨h.names, h.values⟩

/-- The header map of a message once `toString` has run. -/
def HTTPMessage.sentHeaders (m : HTTPMessage) : Headers :=
  if m.m_headers.lookup ContentLength = none ∧ m.m_body ≠ [] then
    m.m_headers.assign ContentLength (to_string m.m_body.length)
  else
    m.m_headers

/-- Behind the header block that is sent, the body of the message is taken for its body. -/
def HTTPMessage.Announced (m : HTTPMessage) : Prop :=
  HTTPMessage.storeBody { m with m_headers := m.sentHeaders, m_body := [] } m.m_body =
    some { m with m_headers := m.sentHeaders }

theorem withContentLength_eq (m : HTTPMessage) :
    m.withContentLength = { m with m_headers := m.sentHeaders } := by
  unfold HTTPMessage.withContentLength HTTPMessage.sentHeaders
  by_cases h : m.m_headers.lookup ContentLength = none ∧ m.m_body ≠ []
  · simp [h, OrdMap.insertNew]
  · simp [h]

theorem getHeaders_eq_block (m : HTTPMessage) :
    m.getHeaders = block (m.m_headers.entries.map headerLine) := by
  simp [getHeaders, block, List.flatMap_map]

theorem not_CRLF_infix_of_allDigits {ds : Bytes} (hd : AllDigits ds) : ¬ CRLF <:+: ds := by
  intro h
  have hmem : (13 : UInt8) ∈ ds := h.subset (by decide)
  exact absurd (hd 13 hmem) (by decide)

theorem contentLength_delimiterFree : ¬ COLON <:+: ContentLength ∧ ¬ CRLF <:+: ContentLength := by
  decide

theorem headerLine_isHeaderLine {e : Bytes × Bytes} (hname : ¬ CRLF <:+: e.1)
    (hvalue : ¬ CRLF <:+: e.2) : IsHeaderLine (headerLine e) := by
  refine ⟨⟨e.1, e.2, by simp [headerLine]⟩, fun h => ?_⟩
  -- neither byte of `": "` occurs in a line break
  rcases infix_append_cons (by decide) (by decide) h with h | h
  · exact hname h
  · rcases infix_append_cons (a := []) (by decide) (by decide) h with h | h
    · exact absurd h (by decide)
    · exact hvalue h

theorem bodySize_to_string {n : Nat} (hn : n < 2 ^ 63) : bodySize (to_string n) = n :=
  sscanfZd_to_string hn

section Sent

variable {m : HTTPMessage}

/-- Entries of the sent map are entries of the message or the added length. -/
theorem mem_sentHeaders {e : Bytes × Bytes} (h : e ∈ m.sentHeaders.entries) :
    e = (ContentLength, to_string m.m_body.length) ∨ e ∈ m.m_headers.entries := by
  unfold HTTPMessage.sentHeaders at h
  split at h
  · exact OrdMap.mem_entries_assign h
  · exact Or.inr h

theorem sentHeaders_names (hm : m.Delimited) {e : Bytes × Bytes}
    (h : e ∈ m.sentHeaders.entries) : ¬ COLON <:+: e.1 ∧ ¬ CRLF <:+: e.1 := by
  rcases mem_sentHeaders h with rfl | h
  · exact contentLength_delimiterFree
  · exact hm.names e h

theorem sentHeaders_values (hm : m.Delimited) {e : Bytes × Bytes}
    (h : e ∈ m.sentHeaders.entries) : ¬ CRLF <:+: e.2 := by
  rcases mem_sentHeaders h with rfl | h
  · exact not_CRLF_infix_of_allDigits (to_string_allDigits _)
  · exact hm.values e h

theorem sentHeaders_isHeaderLine (hm : m.Delimited) {l : Bytes}
    (hl : l ∈ m.sentHeaders.entries.map headerLine) : IsHeaderLine l := by
  obtain ⟨e, he, rfl⟩ := List.mem_map.mp hl
  exact headerLine_isHeaderLine (sentHeaders_names hm he).2 (sentHeaders_values hm he)

/-- Cutting the written lines gives the entries they were written from. -/
theorem map_splitHeader_map_headerLine (hm : m.Delimited) :
    (m.sentHeaders.entries.map headerLine).map splitHeader = m.sentHeaders.entries := by
  rw [List.map_map]
  refine (List.map_congr_left fun e he => ?_).trans (List.map_id _)
  exact splitHeader_append (sentHeaders_names hm he).1 e.2

theorem assignAll_sentHeaders (hm : m.Delimited) :
    OrdMap.empty.assignAll ((m.sentHeaders.entries.map headerLine).map splitHeader) =
      m.sentHeaders := by
  rw [map_splitHeader_map_headerLine hm, OrdMap.ofEntries_entries]

/-- The length in the sent headers, if any, is that of the body; without one the body is empty. -/
theorem lookup_sentHeaders (hm : m.WellFormed) :
    m.sentHeaders.lookup ContentLength = some (to_string m.m_body.length) ∨
      m.sentHeaders.lookup ContentLength = none ∧ m.m_body = [] := by
  unfold HTTPMessage.sentHeaders
  cases hcl : m.m_headers.lookup ContentLength with
  | none =>
      by_cases hbody : m.m_body = []
      · exact Or.inr (by simp [hbody, hcl])
      · exact Or.inl (by simp [hbody])
  | some v => exact Or.inl (by simp [hcl, hm.contentLength v hcl])

/-- A message whose header block has been read takes the body that was written. -/
theorem HTTPMessage.WellFormed.announced (hm : m.WellFormed) : m.Announced := by
  rw [HTTPMessage.Announced]
  rcases lookup_sentHeaders hm with hcl | ⟨hcl, hbody⟩
  · simp [HTTPMessage.storeBody, hcl, bodySize_to_string hm.body_size]
  · simp [HTTPMessage.storeBody, hcl, hbody]

end Sent
end HTTP
end AdvCppHW
