import AdvCppHW.HTTP.RequestRoundTrip
import AdvCppHW.HTTP.Client

/-!
# Requests on one connection

A request is taken from the buffer when the parser accepts the whole buffer, and the whole buffer is
cleared when its response has been written.  So the requests of a stream are told apart by the
would-blocks of the reads only.

* `toString_inside` — the text of a request contains no shorter text of the same request.
* `pieces_eq_texts` — a stream can be cut in one way into texts that are accepted as its requests.
* `calls_eq_requests_iff` — all requests are served in order exactly when every request ends where a
  read would block.
-/

namespace AdvCppHW
namespace HTTP

open Support

/-! ## The text of a request -/

theorem toString_snd (r : HTTPRequest) : r.toString.2 = { r with m_headers := r.sentHeaders } := by
  simp [HTTPRequest.toString, withContentLength_eq]

theorem text_request {r : HTTPRequest} (hr : r.WellFormed) :
    r.text.request = some r.toString.2 := by
  rw [toString_request hr.delimited hr.message.announced, toString_snd]

theorem toString_accepted {r : HTTPRequest} (hr : r.WellFormed) :
    HTTPRequest.ofString r.toString.1 = .ok r.toString.2 :=
  (ofString_eq_ok_iff _ _).mpr ⟨r.text, toString_valid hr.delimited, toString_eq_bytes r,
    text_request hr⟩

theorem toString_ne_nil (r : HTTPRequest) : r.toString.1 ≠ [] := by
  simp [HTTPRequest.toString, SP]

/-- Without a length among the sent headers there is no body. -/
theorem text_rest_eq_nil {r : HTTPRequest} (hr : r.WellFormed)
    (hcl : r.toString.2.m_headers.lookup ContentLength = none) : r.text.rest = [] := by
  rw [toString_snd] at hcl
  rcases lookup_sentHeaders hr.message with hsome | ⟨-, hbody⟩
  · rw [hsome] at hcl
    cases hcl
  · exact hbody

theorem eq_toString_of_prefix_accepted {r req : HTTPRequest} (hr : r.WellFormed) {p : Bytes}
    (hp : HTTPRequest.ofString p = .ok req) (hpre : p <+: r.toString.1) : p = r.toString.1 := by
  rw [toString_eq_bytes] at hpre ⊢
  exact eq_bytes_of_prefix_accepted (toString_valid hr.delimited) (text_request hr)
    (text_rest_eq_nil hr) hp hpre

/-- The length `toString` adds is not a `Connection` header. -/
theorem doKeepAlive_toString (r : HTTPRequest) : r.toString.2.doKeepAlive = r.doKeepAlive := by
  have hlookup : r.sentHeaders.lookup Connection = r.m_headers.lookup Connection := by
    unfold HTTPMessage.sentHeaders
    split
    · exact OrdMap.lookup_assign_ne _ (by decide) _
    · rfl
  rw [toString_snd]
  simp only [HTTPRequest.doKeepAlive, hlookup]

/-! ## No text of a request inside another text of it -/

/-- Length of a header line and its line break. -/
def entryLength (e : Bytes × Bytes) : Nat := e.1.length + e.2.length + 4

theorem entryLength_splitHeader {line : Bytes} (h : IsHeaderLine line) :
    entryLength (splitHeader line) = line.length + 2 := by
  obtain ⟨name, value, rfl, hname⟩ := h.exists_split
  rw [splitHeader_append hname]
  simp [entryLength, COLON]
  omega

theorem length_block (lines : List Bytes) (hlines : ∀ l ∈ lines, IsHeaderLine l) :
    (block lines).length = ((lines.map splitHeader).map entryLength).sum := by
  induction lines with
  | nil => rfl
  | cons line lines ih =>
      have hline := entryLength_splitHeader (hlines line List.mem_cons_self)
      have htail := ih fun l hl => hlines l (List.mem_cons_of_mem line hl)
      simp only [block_cons, List.length_append, CRLF, List.length_cons, List.length_nil, htail,
        List.map_cons, List.sum_cons, hline]
      omega

/-- `toString` writes every header once, so no other text has a shorter header block. -/
theorem length_block_text_le {r : HTTPRequest} (hr : r.WellFormed) {y : RequestText} (hy : y.Valid)
    (hreq : y.request = some r.toString.2) :
    (block r.text.lines).length ≤ (block y.lines).length := by
  have hentries : r.text.lines.map splitHeader =
      (OrdMap.empty.assignAll (y.lines.map splitHeader)).entries := by
    rw [← headers_of_request hreq, toString_snd]
    exact map_splitHeader_map_headerLine hr.message.delimited
  rw [length_block _ (toString_valid hr.delimited).lines, length_block _ hy.lines, hentries]
  simpa using OrdMap.sum_assignAll_le entryLength OrdMap.empty (y.lines.map splitHeader)

theorem length_rest_text_le {r : HTTPRequest} (hr : r.WellFormed) {y : RequestText}
    (hreq : y.request = some r.toString.2) : r.text.rest.length ≤ y.rest.length := by
  cases hcl : r.toString.2.m_headers.lookup ContentLength with
  | none => simp [text_rest_eq_nil hr hcl]
  | some v =>
      rw [length_rest_of_request (text_request hr) hcl, length_rest_of_request hreq hcl]

theorem length_bytes (x : RequestText) :
    x.bytes.length = x.startLine.length + (block x.lines).length + x.rest.length + 4 := by
  simp [RequestText.bytes, CRLF]
  omega

theorem not_SP_infix_iff (s : Bytes) : ¬ SP <:+: s ↔ s.count 32 = 0 := by
  rw [SP, List.singleton_infix_iff, List.count_eq_zero]

/-- A first line that ends in a first line with the same method and target, after something in
front, has nothing in front: the spaces would not add up. -/
theorem startLine_suffix {x y : RequestText} {u : Bytes} (hx : x.Valid)
    (hprotocol : x.protocol = protocolHTTP) (hmethod : y.method = x.method)
    (htarget : y.target = x.target) (hversion : y.version = x.version)
    (h : x.startLine = u ++ y.startLine) : u = [] := by
  -- both first lines have two spaces in front of the protocol, so `u` has none
  have hspaces := congrArg (List.count 32) h
  have hm := (not_SP_infix_iff _).mp hx.method
  have ht := (not_SP_infix_iff _).mp hx.target
  have hHTTP : protocolHTTP.count 32 = 0 := by decide
  simp only [RequestText.startLine, hmethod, htarget, hversion, hprotocol,
    List.count_append, hm, ht, hHTTP] at hspaces
  have hfree : ¬ SP <:+: u ++ x.method := by
    rw [not_SP_infix_iff, List.count_append]
    omega
  have hcut : x.method ++ (SP ++ (x.target ++ (SP ++ (x.protocol ++ (SLASH ++ x.version))))) =
      (u ++ x.method) ++ (SP ++ (y.target ++ (SP ++ (y.protocol ++ (SLASH ++ y.version))))) := by
    simpa [RequestText.startLine, hmethod] using h
  obtain ⟨hhead, -⟩ := append_pattern_inj unbordered_SP hx.method hfree hcut
  have hlen := congrArg List.length hhead
  rw [List.length_append] at hlen
  exact List.length_eq_zero_iff.mp (by omega)

/-- A text of the request inside the text `toString` writes begins where that begins. -/
theorem toString_inside {r : HTTPRequest} (hr : r.WellFormed) {u p w : Bytes}
    (hp : HTTPRequest.ofString p = .ok r.toString.2) (h : r.toString.1 = u ++ (p ++ w)) :
    u = [] := by
  obtain ⟨y, hy, rfl, hreq⟩ := (ofString_eq_ok_iff p _).mp hp
  have hfields := fields_of_request hreq
  rw [toString_snd] at hfields
  obtain ⟨hmethod, htarget, hversion, -⟩ := hfields
  have hblock := length_block_text_le hr hy hreq
  have hrest := length_rest_text_le hr hreq
  rw [toString_eq_bytes] at h
  have hlen := congrArg List.length h
  rw [List.length_append, List.length_append, length_bytes, length_bytes] at hlen
  -- at most the protocol is shorter, so `u` is a part of the first line
  have hpre : u <+: r.text.startLine := by
    refine List.prefix_of_prefix_length_le ⟨y.bytes ++ w, h.symm⟩
      ⟨CRLF ++ (block r.text.lines ++ (CRLF ++ r.text.rest)), rfl⟩ (by omega)
  obtain ⟨line, hline⟩ := hpre
  have hsame : line ++ (CRLF ++ (block r.text.lines ++ (CRLF ++ r.text.rest))) =
      y.startLine ++ (CRLF ++ (block y.lines ++ (CRLF ++ (y.rest ++ w)))) := by
    have hbehind : u ++ (line ++ (CRLF ++ (block r.text.lines ++ (CRLF ++ r.text.rest)))) =
        u ++ (y.startLine ++ (CRLF ++ (block y.lines ++ (CRLF ++ (y.rest ++ w))))) :=
      calc u ++ (line ++ (CRLF ++ (block r.text.lines ++ (CRLF ++ r.text.rest))))
          = r.text.bytes := by rw [← List.append_assoc, hline, RequestText.bytes]
        _ = u ++ (y.bytes ++ w) := h
        _ = _ := by simp [RequestText.bytes]
    exact List.append_cancel_left hbehind
  have hfree : ¬ CRLF <:+: line := fun hin =>
    (toString_valid hr.delimited).startLine (hline ▸ hin.trans (List.suffix_append u line).isInfix)
  obtain ⟨rfl, -⟩ := append_pattern_inj unbordered_CRLF hfree hy.startLine hsame
  exact startLine_suffix (toString_valid hr.delimited) rfl hmethod.symm htarget.symm
    hversion.symm hline.symm

/-! ## Cutting a stream -/

/-- The texts of the requests. -/
def texts (rs : List HTTPRequest) : List Bytes := rs.map fun r => r.toString.1

/-- The requests as they are sent. -/
def sent (rs : List HTTPRequest) : List HTTPRequest := rs.map fun r => r.toString.2

/-- A stream that starts inside its first request is not cut into texts of all its requests; one
that starts where the request starts is cut where the requests end. -/
theorem pieces_eq_texts {rs : List HTTPRequest} (hwf : ∀ r ∈ rs, r.WellFormed)
    {pieces : List Bytes} {u rest : Bytes}
    (hpieces : List.Forall₂ (fun p req => HTTPRequest.ofString p = .ok req) pieces (sent rs))
    (h : u ++ (pieces.flatten ++ rest) = (texts rs).flatten) : u = [] ∧ pieces = texts rs := by
  induction rs generalizing pieces u with
  | nil =>
      obtain rfl : pieces = [] := by simpa [sent] using hpieces
      exact ⟨(List.append_eq_nil_iff.mp h).1, rfl⟩
  | cons r rs ih =>
      obtain ⟨p, pieces, hp, hlater, rfl⟩ := List.forall₂_cons_right_iff.mp hpieces
      have hr := hwf r List.mem_cons_self
      have hrs : ∀ r' ∈ rs, r'.WellFormed := fun r' h' => hwf r' (List.mem_cons_of_mem r h')
      have hcut : (u ++ p) ++ (pieces.flatten ++ rest) = r.toString.1 ++ (texts rs).flatten := by
        simpa [texts] using h
      rcases List.append_eq_append_iff.mp hcut with ⟨w, hw, htail⟩ | ⟨v, hv, htail⟩
      · -- the piece ends inside the request
        obtain rfl : u = [] := toString_inside hr hp (by simpa using hw)
        have hall : p = r.toString.1 :=
          eq_toString_of_prefix_accepted hr hp ⟨w, by simpa using hw.symm⟩
        obtain rfl : w = [] := by simpa [hall] using hw
        obtain ⟨-, hpieces⟩ := ih hrs hlater (u := []) (by simpa using htail)
        exact ⟨rfl, by simp [texts, hall, hpieces]⟩
      · -- the piece goes on into the next request
        obtain ⟨rfl, hpieces⟩ := ih hrs hlater (u := v) htail.symm
        rw [List.append_nil] at hv
        obtain rfl : u = [] := toString_inside (w := []) hr hp (by simp [hv])
        exact ⟨rfl, by simpa [texts, hpieces] using hv⟩

/-- The served requests come from consecutive pieces of what arrived, and each piece ends where an
arrival does. -/
theorem served_pieces (waiting : Bytes) (arrivals : List Bytes) :
    ∃ pieces rest,
      List.Forall₂ (fun p req => HTTPRequest.ofString p = .ok req) pieces
        (served (some waiting) arrivals) ∧
      waiting ++ arrivals.flatten = pieces.flatten ++ rest ∧
      ∀ k, 0 < k → k ≤ pieces.length → ∃ j ≤ arrivals.length,
        waiting ++ (arrivals.take j).flatten = (pieces.take k).flatten := by
  induction arrivals generalizing waiting with
  | nil => exact ⟨[], waiting, .nil, by simp, fun k hpos hle => absurd hpos (by simpa using hle)⟩
  | cons arrived later ih =>
      cases hparse : HTTPRequest.ofString (waiting ++ arrived) with
      | error e =>
          have hreject : ∀ req, HTTPRequest.ofString (waiting ++ arrived) ≠ .ok req := by
            rw [hparse]
            exact fun req => nofun
          obtain ⟨pieces, rest, hpieces, hsplit, hends⟩ := ih (waiting ++ arrived)
          refine ⟨pieces, rest, by simpa [served, accept_of_rejected hreject] using hpieces,
            by simpa using hsplit, fun k hpos hle => ?_⟩
          obtain ⟨j, hj, heq⟩ := hends k hpos hle
          exact ⟨j + 1, Nat.succ_le_succ hj, by simpa using heq⟩
      | ok req =>
          rw [served, accept_of_accepted hparse]
          cases hka : req.doKeepAlive with
          | false =>
              refine ⟨[waiting ++ arrived], later.flatten, ?_, by simp, fun k hpos hle => ?_⟩
              · simpa [served_none] using hparse
              · obtain rfl : k = 1 := by simp at hle; omega
                exact ⟨1, by simp, by simp⟩
          | true =>
              obtain ⟨pieces, rest, hpieces, hsplit, hends⟩ := ih []
              refine ⟨(waiting ++ arrived) :: pieces, rest, .cons hparse hpieces, ?_,
                fun k hpos hle => ?_⟩
              · simpa using hsplit
              · obtain ⟨k, rfl⟩ := Nat.exists_eq_succ_of_ne_zero hpos.ne'
                rcases Nat.eq_zero_or_pos k with rfl | hk
                · exact ⟨1, by simp, by simp⟩
                · obtain ⟨j, hj, heq⟩ := hends k hk (by simpa using hle)
                  exact ⟨j + 1, Nat.succ_le_succ hj, by simpa using heq⟩

/-! ## When all requests are served -/

/-- Some arrivals end exactly where the first `k` of the texts end. -/
def EndsAt (arrivals texts : List Bytes) (k : Nat) : Prop :=
  ∃ j ≤ arrivals.length, (arrivals.take j).flatten = (texts.take k).flatten

/-- A request whose text is cut anywhere into arrivals is taken with the last of them. -/
theorem served_text {r : HTTPRequest} (hr : r.WellFormed) (hka : r.doKeepAlive = true)
    {before : List Bytes} {waiting last : Bytes} (later : List Bytes) (hlast : last ≠ [])
    (htext : waiting ++ (before.flatten ++ last) = r.toString.1) :
    served (some waiting) (before ++ last :: later) = r.toString.2 :: served (some []) later := by
  induction before generalizing waiting with
  | nil =>
      have hparse : HTTPRequest.ofString (waiting ++ last) = .ok r.toString.2 := by
        rw [show waiting ++ last = r.toString.1 by simpa using htext]
        exact toString_accepted hr
      rw [List.nil_append, served, accept_of_accepted hparse, doKeepAlive_toString, hka, if_pos rfl]
      rfl
  | cons arrived before ih =>
      -- what has arrived so far is a strict prefix of the text
      have hreject : ∀ req, HTTPRequest.ofString (waiting ++ arrived) ≠ .ok req := by
        intro req hparse
        have hall := eq_toString_of_prefix_accepted hr hparse
          ⟨before.flatten ++ last, by rw [← htext]; simp⟩
        rw [← htext] at hall
        simp [hlast] at hall
      rw [List.cons_append, served, accept_of_rejected hreject]
      exact ih (by rw [← htext]; simp)

/-- The first arrivals that make up a nonempty text; the last of them is not empty. -/
theorem exists_first_arrivals {arrivals : List Bytes} {text : Bytes} (hne : text ≠ [])
    (h : ∃ j ≤ arrivals.length, (arrivals.take j).flatten = text) :
    ∃ before last later, arrivals = before ++ last :: later ∧ last ≠ [] ∧
      before.flatten ++ last = text := by
  obtain ⟨j, hj, htext⟩ := h
  induction j with
  | zero => exact absurd htext.symm (by simpa using hne)
  | succ j ih =>
      have hlt : j < arrivals.length := hj
      by_cases hlast : arrivals[j] = []
      · -- an empty arrival at the end can be left out
        refine ih hlt.le ?_
        rw [List.take_add_one, List.getElem?_eq_getElem hlt] at htext
        simpa [hlast] using htext
      · refine ⟨arrivals.take j, arrivals[j], arrivals.drop (j + 1), ?_, hlast, ?_⟩
        · rw [← List.drop_eq_getElem_cons hlt, List.take_append_drop]
        · rw [List.take_add_one, List.getElem?_eq_getElem hlt, List.flatten_append] at htext
          simpa only [Option.toList_some, List.flatten_singleton] using htext

/-- All requests are served when every one of them ends where an arrival does. -/
theorem served_of_endsAt {rs : List HTTPRequest} (hwf : ∀ r ∈ rs, r.WellFormed)
    (hka : ∀ r ∈ rs, r.doKeepAlive = true) {arrivals : List Bytes}
    (hstream : arrivals.flatten = (texts rs).flatten)
    (hends : ∀ k ≤ rs.length, EndsAt arrivals (texts rs) k) :
    served (some []) arrivals = sent rs := by
  induction rs generalizing arrivals with
  | nil =>
      obtain ⟨pieces, rest, hpieces, hsplit, -⟩ := served_pieces [] arrivals
      rw [List.nil_append, hstream] at hsplit
      have hnil : ∀ p ∈ pieces, p = [] :=
        List.flatten_eq_nil_iff.mp (List.append_eq_nil_iff.mp hsplit.symm).1
      cases pieces with
      | nil => exact List.forall₂_nil_left_iff.mp hpieces
      | cons p pieces =>
          obtain ⟨req, reqs, hp, -, -⟩ := List.forall₂_cons_left_iff.mp hpieces
          exact absurd (hnil p List.mem_cons_self ▸ hp) (ofString_nil req)
  | cons r rs ih =>
      have hr := hwf r List.mem_cons_self
      obtain ⟨before, last, later, rfl, hlast, htext⟩ := exists_first_arrivals (toString_ne_nil r)
        (by simpa [EndsAt, texts] using hends 1 (by simp))
      have hrest : later.flatten = (texts rs).flatten := by
        have hall : before.flatten ++ (last ++ later.flatten) = r.toString.1 ++
            (texts rs).flatten := by
          simpa [texts] using hstream
        rw [← htext, List.append_assoc] at hall
        exact List.append_cancel_left (List.append_cancel_left hall)
      have hlater := ih (fun r' h' => hwf r' (List.mem_cons_of_mem r h'))
        (fun r' h' => hka r' (List.mem_cons_of_mem r h')) hrest ?_
      · rw [served_text hr (hka r List.mem_cons_self) later hlast (by simpa using htext), hlater]
        rfl
      · intro k hk
        obtain ⟨j, hj, heq⟩ := hends (k + 1) (Nat.succ_le_succ hk)
        have heq' : ((before ++ last :: later).take j).flatten =
            (before.flatten ++ last) ++ ((texts rs).take k).flatten := by
          rw [htext]
          simpa [texts] using heq
        rcases le_or_gt j before.length with hshort | hlong
        · -- fewer arrivals cannot even make up the first text
          have hlen := congrArg List.length heq'
          have htake : ((before ++ last :: later).take j).flatten.length ≤
              before.flatten.length := by
            rw [List.take_append_of_le_length hshort]
            exact ((List.take_prefix j before).flatten).length_le
          have hpos := List.length_pos_of_ne_nil hlast
          simp only [List.length_append] at hlen
          omega
        · refine ⟨j - before.length - 1, by simp at hj ⊢; omega, ?_⟩
          have hj' : j = before.length + (j - before.length - 1 + 1) := by omega
          rw [hj', List.take_length_add_append, List.take_succ_cons] at heq'
          simpa using heq'

/-- **Keep-alive requests.**  The requests of a stream, all of which keep the connection, are handed
to `onRequest` one by one and in order exactly when each of them ends where a read would block. -/
theorem calls_eq_requests_iff {rs : List HTTPRequest} (hwf : ∀ r ∈ rs, r.WellFormed)
    (hka : ∀ r ∈ rs, r.doKeepAlive = true) (fd : Int) (garbage : UInt32) {ws : List Wakeup}
    (hturn : ReadsInTurn (some (Client.new fd garbage)) ws)
    (hstream : (ws.map Wakeup.arrived).flatten = (rs.map fun r => r.toString.1).flatten) :
    Client.calls (some (Client.new fd garbage)) (ws.map Wakeup.event) =
        rs.map (fun r => r.toString.2) ↔
      ∀ k ≤ rs.length, EndsAt (ws.map Wakeup.arrived) (rs.map fun r => r.toString.1) k := by
  rw [calls_eq_served (represents_new fd garbage) ws hturn]
  constructor
  · intro hserved k hk
    obtain ⟨pieces, rest, hpieces, hsplit, hends⟩ := served_pieces [] (ws.map Wakeup.arrived)
    rw [hserved] at hpieces
    have hwhole : [] ++ (pieces.flatten ++ rest) = (texts rs).flatten := by
      rw [List.nil_append, ← hsplit, List.nil_append]
      exact hstream
    obtain ⟨-, rfl⟩ := pieces_eq_texts hwf hpieces hwhole
    rcases Nat.eq_zero_or_pos k with rfl | hpos
    · exact ⟨0, Nat.zero_le _, rfl⟩
    · exact hends k hpos (by simpa [texts] using hk)
  · exact served_of_endsAt hwf hka hstream

/-! ### Two requests -/

/-- A request for `target` that keeps the connection. -/
def keepAliveGet (target : Bytes) : HTTPRequest where
  m_method := ascii "GET"
  m_reqTarget := target
  m_version := ascii "1.1"
  m_headers := OrdMap.empty.assign Connection (ascii "keep-alive")

theorem keepAliveGet_wellFormed {target : Bytes} (hspace : ¬ SP <:+: target)
    (hbreak : ¬ CRLF <:+: target) : (keepAliveGet target).WellFormed := by
  have hentries : (keepAliveGet target).m_headers.entries =
      [(Connection, ascii "keep-alive")] := rfl
  have hlookup : (keepAliveGet target).m_headers.lookup ContentLength = none := rfl
  refine ⟨?_, ?_, hspace, hbreak, ?_, ?_, ?_, ?_, ?_⟩
  · show ¬ SP <:+: ascii "GET"
    decide
  · show ¬ CRLF <:+: ascii "GET"
    decide
  · show ¬ CRLF <:+: ascii "1.1"
    decide
  · rw [hentries]
    decide
  · rw [hentries]
    decide
  · intro v hv
    rw [hlookup] at hv
    cases hv
  · show ([] : Bytes).length < 2 ^ 63
    decide

/-- One chunk arrives, and all of the (short) response can be written. -/
def wakeup (chunk : Bytes) (h : IsChunk chunk) : Wakeup where
  chunks := [chunk]
  isChunk := by simpa using h
  onRequest := fun _ => { m_version := ascii "1.1", m_statusCode := 200 }
  writes := [.wrote 100]
  noFailure := by simp

def twoGets : List HTTPRequest := [keepAliveGet (ascii "/a"), keepAliveGet (ascii "/b")]

theorem twoGets_wellFormed : ∀ r ∈ twoGets, r.WellFormed := by
  simp only [twoGets, List.forall_mem_cons, List.not_mem_nil, false_implies, implies_true, and_true]
  exact ⟨keepAliveGet_wellFormed (by decide) (by decide),
    keepAliveGet_wellFormed (by decide) (by decide)⟩

theorem twoGets_keepAlive : ∀ r ∈ twoGets, r.doKeepAlive = true := by decide

/-- The requests arrive one by one. -/
def oneByOne : List Wakeup :=
  [wakeup (keepAliveGet (ascii "/a")).toString.1 (by unfold IsChunk; decide),
    wakeup (keepAliveGet (ascii "/b")).toString.1 (by unfold IsChunk; decide)]

/-- Both requests arrive in one read. -/
def bothAtOnce : List Wakeup :=
  [wakeup ((keepAliveGet (ascii "/a")).toString.1 ++ (keepAliveGet (ascii "/b")).toString.1)
    (by unfold IsChunk; decide)]

theorem oneByOne_readsInTurn : ReadsInTurn (some (Client.new 5 0)) oneByOne := by
  have hframe : ((Client.new 5 0).handle (wakeup (keepAliveGet (ascii "/a")).toString.1
      (by unfold IsChunk; decide)).event).client.map (·.frame) = some (some .reading) := by
    decide +kernel
  refine readsInTurn_cons _ (fun cl hcl => ?_) fun cl hcl =>
    readsInTurn_cons _ (fun cl' hcl' => ?_) fun _ _ => readsInTurn_nil _
  · cases hcl
    rfl
  · cases hcl
    rw [Option.mem_def.mp hcl'] at hframe
    exact Option.some.inj hframe

theorem calls_oneByOne :
    Client.calls (some (Client.new 5 0)) (oneByOne.map Wakeup.event) =
      twoGets.map fun r => r.toString.2 := by
  refine (calls_eq_requests_iff twoGets_wellFormed twoGets_keepAlive 5 0 ?_ ?_).mpr ?_
  · exact oneByOne_readsInTurn
  · decide
  · have hends : ∀ k ≤ 2, ((oneByOne.map Wakeup.arrived).take k).flatten =
        ((twoGets.map fun r => r.toString.1).take k).flatten := by decide
    exact fun k hk => ⟨k, hk, hends k hk⟩

/-- Requests that arrive together are not all served: the second is cleared from the buffer together
with the first. -/
theorem calls_bothAtOnce :
    ¬ ∀ (rs : List HTTPRequest) (ws : List Wakeup), (∀ r ∈ rs, r.WellFormed) →
      (∀ r ∈ rs, r.doKeepAlive = true) → ReadsInTurn (some (Client.new 5 0)) ws →
      (ws.map Wakeup.arrived).flatten = (rs.map fun r => r.toString.1).flatten →
      Client.calls (some (Client.new 5 0)) (ws.map Wakeup.event) =
        rs.map fun r => r.toString.2 := by
  intro h
  have hcalls := h twoGets bothAtOnce twoGets_wellFormed twoGets_keepAlive
    (readsInTurn_cons _ (fun cl hcl => by cases hcl; rfl) fun _ _ => readsInTurn_nil _) (by decide)
  have hone : Client.calls (some (Client.new 5 0)) (bothAtOnce.map Wakeup.event) =
      [keepAliveGet (ascii "/a")] := by
    decide +kernel
  rw [hone] at hcalls
  exact absurd hcalls (by decide)

end HTTP
end AdvCppHW
