import AdvCppHW.HTTP.RequestGrammar

/-!
# What the request parser accepts

The grammar of requests, in terms of lines: a first line with two blanks and a slash behind them,
header lines, a blank line, and text that has the announced length if one is announced.

* `headerOffsets` — the offsets the header loop goes through; `headerOffsets_spec` — they ascend and
  stay in the text, and the loop comes to each of them.
* `fromString_clean` — parsing succeeds or throws an `ArgumentError`.
* `Lines` — a text cut into lines, with `Lines.InGrammar`; `ofString_grammar` — the constructor
  accepts exactly the texts of the grammar.
-/

namespace AdvCppHW
namespace HTTP

open Support HTTPMessage

/-! ## The offsets of the header loop -/

/-- The values of `begin` in the loop over the header lines, from `begin` on, where `line` starts.
The last one is the offset of the blank line, or the one at which the loop throws. -/
def headerOffsets (str : Bytes) (begin : Nat) (line : Bytes) : List Nat :=
  begin ::
    if line.length = 0 then
      []
    else
      match find line COLON 0 with
      | none => []
      | some _ =>
          match h : find str CRLF (begin + line.length + 2) with
          | none => [begin + line.length + 2]
          | some e =>
              headerOffsets str (begin + line.length + 2)
                ((str.drop (begin + line.length + 2)).take (e - (begin + line.length + 2)))
termination_by str.length - begin
decreasing_by
  obtain ⟨a, b, hstr, hpos, -, -⟩ := findFrom_eq_some h
  have hlen := congrArg List.length hstr
  simp only [List.length_append, List.length_take, CRLF, List.length_cons, List.length_nil] at hlen
  omega

/-- The offsets of the header loop in a run of `fromString`; none when it throws before the loop. -/
def HTTPRequest.loopOffsets (r : HTTPRequest) (str : Bytes) : List Nat :=
  match find str CRLF 0 with
  | none => []
  | some e =>
      let line := str.take e
      match (HTTPRequest.readRequestLine line).run r with
      | .error _ _ => []
      | .ok _ _ =>
          let begin := line.length + 2
          match find str CRLF begin with
          | none => []
          | some e => headerOffsets str begin ((str.drop begin).take (e - begin))

/-- The rest of `fromString`, from an iteration of the header loop on. -/
def HTTPRequest.fromLine (str : Bytes) (begin : Nat) (line : Bytes) : Method HTTPRequest Unit := do
  let begin ← onMessage (headerLoop str "Header: Invalid string passed!"
    "Header Info: Invalid string passed!" begin line)
  onMessage (readBody str "Body: Invalid string passed!" (begin + 2))

/-- In a run of `fromString` the header loop comes to an iteration with this `begin`, or it throws
because no line that starts there has an end. -/
def HTTPRequest.LoopComesTo (r : HTTPRequest) (str : Bytes) (begin : Nat) : Prop :=
  (∃ line r', (fromString str).run r = (fromLine str begin line).run r') ∨
    find str CRLF begin = none ∧
      ∃ r', (fromString str).run r =
        .error (.ArgumentError "Header Info: Invalid string passed!") r'

theorem headerOffsets_nil (str : Bytes) (begin : Nat) : headerOffsets str begin [] = [begin] := by
  rw [headerOffsets]
  rfl

theorem headerOffsets_noColon (str : Bytes) (begin : Nat) {line : Bytes} (hne : line ≠ [])
    (hcolon : ¬ COLON <:+: line) : headerOffsets str begin line = [begin] := by
  have hfind : find line COLON 0 = none := find_none [] line hcolon
  rw [headerOffsets, if_neg (by simpa using hne), hfind]

theorem find_colon_isSome {line : Bytes} (h : IsHeaderLine line) :
    ∃ p, find line COLON 0 = some p := by
  obtain ⟨name, value, rfl, hname⟩ := h.exists_split
  exact ⟨name.length, find_first unbordered_COLON name value hname⟩

/-- Behind a header line without a successor no line ends. -/
theorem find_noEnd (p line : Bytes) {rest : Bytes} (hrest : ¬ CRLF <:+: rest) :
    find (p ++ (line ++ (CRLF ++ rest))) CRLF (p.length + line.length + 2) = none := by
  have hpre : p.length + line.length + 2 = (p ++ (line ++ CRLF)).length := by simp [CRLF]; omega
  have hstr : p ++ (line ++ (CRLF ++ rest)) = (p ++ (line ++ CRLF)) ++ rest := by simp
  rw [hpre, hstr]
  exact find_none _ _ hrest

theorem headerOffsets_noEnd (p line rest : Bytes) (hline : IsHeaderLine line)
    (hrest : ¬ CRLF <:+: rest) :
    headerOffsets (p ++ (line ++ (CRLF ++ rest))) p.length line =
      [p.length, p.length + line.length + 2] := by
  obtain ⟨q, hcolon⟩ := find_colon_isSome hline
  rw [headerOffsets, if_neg (by simpa using hline.ne_nil), hcolon]
  dsimp only
  split
  · rfl
  · next e hsome =>
      rw [find_noEnd p line hrest] at hsome
      cases hsome

theorem headerOffsets_cons (p line next rest : Bytes) (hline : IsHeaderLine line)
    (hnext : ¬ CRLF <:+: next) :
    headerOffsets (p ++ (line ++ (CRLF ++ (next ++ (CRLF ++ rest))))) p.length line =
      p.length :: headerOffsets (p ++ (line ++ (CRLF ++ (next ++ (CRLF ++ rest)))))
        (p.length + line.length + 2) next := by
  obtain ⟨q, hcolon⟩ := find_colon_isSome hline
  have hpre : p.length + line.length + 2 = (p ++ (line ++ CRLF)).length := by simp [CRLF]; omega
  have hstr : p ++ (line ++ (CRLF ++ (next ++ (CRLF ++ rest)))) =
      (p ++ (line ++ CRLF)) ++ (next ++ (CRLF ++ rest)) := by simp
  have hend : find (p ++ (line ++ (CRLF ++ (next ++ (CRLF ++ rest))))) CRLF
      (p.length + line.length + 2) = some (p.length + line.length + 2 + next.length) := by
    rw [hpre, hstr]
    exact find_split unbordered_CRLF _ next rest hnext
  have hslice : ((p ++ (line ++ (CRLF ++ (next ++ (CRLF ++ rest))))).drop
      (p.length + line.length + 2)).take next.length = next := by
    rw [hpre, hstr, List.drop_left, List.take_left]
  rw [headerOffsets, if_neg (by simpa using hline.ne_nil), hcolon]
  dsimp only
  split
  · next hnone =>
      rw [hend] at hnone
      cases hnone
  · next e hsome =>
      rw [hend] at hsome
      cases hsome
      rw [Nat.add_sub_cancel_left, hslice]

/-- The offsets ascend strictly and stay in the text, and the loop comes to each of them: the run is
one from there, or it throws there. -/
theorem headerOffsets_spec (noColon noEnd : String) (p line rest : Bytes) (m : HTTPMessage)
    (hline : ¬ CRLF <:+: line) :
    let str := p ++ (line ++ (CRLF ++ rest))
    let offsets := headerOffsets str p.length line
    offsets.Pairwise (· < ·) ∧ (∀ o ∈ offsets, p.length ≤ o ∧ o ≤ str.length) ∧
      ∀ o ∈ offsets,
        (∃ line' m', (headerLoop str noColon noEnd p.length line).run m =
          (headerLoop str noColon noEnd o line').run m') ∨
        find str CRLF o = none ∧ ∃ m', (headerLoop str noColon noEnd p.length line).run m =
          .error (.ArgumentError noEnd) m' := by
  induction hn : rest.length using Nat.strong_induction_on generalizing p line rest m with
  | _ n ih =>
    subst hn
    have hfits : p.length + line.length + 2 ≤ (p ++ (line ++ (CRLF ++ rest))).length := by
      simp [CRLF]
      omega
    by_cases hnil : line = []
    · subst hnil
      simp only [headerOffsets_nil]
      refine ⟨List.pairwise_singleton _ _, fun o ho => ?_, fun o ho => ?_⟩
      · rw [List.mem_singleton] at ho
        omega
      · rw [List.mem_singleton.mp ho]
        exact Or.inl ⟨[], m, rfl⟩
    by_cases hcolon : COLON <:+: line
    · have hheader : IsHeaderLine line := ⟨hcolon, hline⟩
      rcases exists_split_or_none CRLF (by decide) rest with ⟨next, tail, rfl, hnext⟩ | hnone
      · have hshort : tail.length < (next ++ (CRLF ++ tail)).length := by
          simp only [List.length_append, CRLF, List.length_cons]
          omega
        have hstr : p ++ (line ++ (CRLF ++ (next ++ (CRLF ++ tail)))) =
            (p ++ (line ++ CRLF)) ++ (next ++ (CRLF ++ tail)) := by simp
        have hpre : p.length + line.length + 2 = (p ++ (line ++ CRLF)).length := by
          simp [CRLF]; omega
        obtain ⟨hpairwise, hbounds, hcomes⟩ :=
          ih tail.length hshort (p ++ (line ++ CRLF)) next tail
            (m.addHeaderLine (splitHeader line).1 (splitHeader line).2) hnext rfl
        rw [← hstr, ← hpre] at hpairwise hbounds hcomes
        simp only [headerOffsets_cons p line next tail hheader hnext]
        refine ⟨List.pairwise_cons.mpr ⟨fun o ho => ?_, hpairwise⟩, fun o ho => ?_, fun o ho => ?_⟩
        · have := (hbounds o ho).1
          omega
        · rcases List.mem_cons.mp ho with rfl | ho
          · omega
          · have := hbounds o ho
            omega
        · rcases List.mem_cons.mp ho with rfl | ho
          · exact Or.inl ⟨line, m, rfl⟩
          · rw [headerLoop_cons p line next tail m hheader hnext]
            exact hcomes o ho
      · -- the loop throws at the second offset
        simp only [headerOffsets_noEnd p line rest hheader hnone]
        have hsecond : ∀ {o}, o ∈ [p.length, p.length + line.length + 2] →
            o = p.length ∨ o = p.length + line.length + 2 := by simp
        refine ⟨?_, fun o ho => ?_, fun o ho => ?_⟩
        · simp
          omega
        · rcases hsecond ho with rfl | rfl
          · omega
          · omega
        · rcases hsecond ho with rfl | rfl
          · exact Or.inl ⟨line, m, rfl⟩
          · exact Or.inr ⟨find_noEnd p line hnone, _,
              headerLoop_noEnd noColon noEnd p line rest m hheader hnone⟩
    · simp only [headerOffsets_noColon _ _ hnil hcolon]
      refine ⟨List.pairwise_singleton _ _, fun o ho => ?_, fun o ho => ?_⟩
      · rw [List.mem_singleton] at ho
        omega
      · rw [List.mem_singleton.mp ho]
        exact Or.inl ⟨line, m, rfl⟩

/-- What a successful search for a line break says about the text. -/
theorem find_CRLF_split {str : Bytes} {begin e : Nat} (h : find str CRLF begin = some e) :
    ∃ rest, str = str.take begin ++ ((str.drop begin).take (e - begin) ++ (CRLF ++ rest)) ∧
      begin ≤ str.length ∧ ¬ CRLF <:+: (str.drop begin).take (e - begin) := by
  obtain ⟨a, b, hstr, hpos, rfl, hfree⟩ := findFrom_eq_some h
  have hdrop : str.drop begin = a ++ (CRLF ++ b) := by
    conv_lhs => rw [hstr]
    exact List.drop_left' (by simpa using hpos)
  have hslice : (str.drop begin).take (begin + a.length - begin) = a := by
    rw [hdrop, Nat.add_sub_cancel_left, List.take_left]
  rw [hslice]
  exact ⟨b, hstr, hpos, hfree (by decide)⟩

theorem readLine_of_find {σ : Type} {str : Bytes} {begin e : Nat} (h : find str CRLF begin = some e)
    (missing : String) (st : σ) :
    (readLine str missing begin).run st = .ok ((str.drop begin).take (e - begin)) st := by
  obtain ⟨rest, hstr, hpos, hfree⟩ := find_CRLF_split h
  have hlen : (str.take begin).length = begin := List.length_take_of_le hpos
  have hread := readLine_split missing (str.take begin) _ rest hfree st
  rwa [← hstr, hlen] at hread

/-- In front of the header loop. -/
theorem fromString_run_fromLine {str : Bytes} {e e' : Nat} {r r' : HTTPRequest}
    (hfirst : find str CRLF 0 = some e)
    (hline : (HTTPRequest.readRequestLine (str.take e)).run r = .ok () r')
    (hnext : find str CRLF ((str.take e).length + 2) = some e') :
    (HTTPRequest.fromString str).run r =
      (HTTPRequest.fromLine str ((str.take e).length + 2)
        ((str.drop ((str.take e).length + 2)).take (e' - ((str.take e).length + 2)))).run r' := by
  have hread := readLine_of_find hfirst "Invalid string passed!" r
  rw [List.drop_zero, Nat.sub_zero] at hread
  have hread' := readLine_of_find hnext "Invalid string passed!" r'
  simp only [HTTPRequest.fromString, HTTPRequest.fromLine, EStateM.run_bind, hread, hline, hread']

theorem loopOffsets_spec (r : HTTPRequest) (str : Bytes) :
    (r.loopOffsets str).Pairwise (· < ·) ∧
      ∀ o ∈ r.loopOffsets str, o ≤ str.length ∧ r.LoopComesTo str o := by
  unfold HTTPRequest.loopOffsets
  cases hfirst : find str CRLF 0 with
  | none => exact ⟨List.Pairwise.nil, nofun⟩
  | some e =>
      dsimp only
      cases hline : (HTTPRequest.readRequestLine (str.take e)).run r with
      | error e' r' => exact ⟨List.Pairwise.nil, nofun⟩
      | ok u r' =>
          dsimp only
          cases hfind : find str CRLF ((str.take e).length + 2) with
          | none => exact ⟨List.Pairwise.nil, nofun⟩
          | some e' =>
              have hrun := fromString_run_fromLine hfirst hline hfind
              obtain ⟨rest, hstr, hpos, hfree⟩ := find_CRLF_split hfind
              have hlen : (str.take ((str.take e).length + 2)).length =
                  (str.take e).length + 2 := by
                rw [List.length_take]
                omega
              obtain ⟨hpairwise, hbounds, hcomes⟩ := headerOffsets_spec
                "Header: Invalid string passed!" "Header Info: Invalid string passed!" _ _ rest
                r'.toHTTPMessage hfree
              rw [← hstr, hlen] at hpairwise hbounds hcomes
              refine ⟨hpairwise, fun o ho => ⟨(hbounds o ho).2, ?_⟩⟩
              unfold HTTPRequest.LoopComesTo
              rw [hrun]
              rcases hcomes o ho with ⟨line', m', hsame⟩ | ⟨hnone, m', hthrows⟩
              · refine Or.inl ⟨line', { r' with toHTTPMessage := m' }, ?_⟩
                simp only [HTTPRequest.fromLine, EStateM.run_bind, onMessage_run, hsame]
              · refine Or.inr ⟨hnone, { r' with toHTTPMessage := m' }, ?_⟩
                simp only [HTTPRequest.fromLine, EStateM.run_bind, onMessage_run, hthrows]

/-- A member has returned, or thrown an `ArgumentError`.  A `substr` that starts behind the end of
its string throws `out_of_range`, and a subtraction of sizes below zero is marked by `sizeWrap`. -/
def EndsCleanly {σ α : Type} : EStateM.Result Exception σ α → Prop
  | .ok _ _ => True
  | .error e _ => e.isArgumentError = true

/-- **Requests fail cleanly.**  On any bytes and any object `fromString` returns or throws an
`ArgumentError`; the offsets to which its header loop comes ascend strictly and stay in the text. -/
theorem fromString_clean (str : Bytes) (r : HTTPRequest) :
    EndsCleanly ((HTTPRequest.fromString str).run r) ∧
      (r.loopOffsets str).Pairwise (· < ·) ∧
        ∀ o ∈ r.loopOffsets str, o ≤ str.length ∧ r.LoopComesTo str o := by
  refine ⟨?_, loopOffsets_spec r str⟩
  rcases fromString_cases str r with ⟨x, hx, rfl⟩ | ⟨info, r', hrun⟩
  · rw [fromString_bytes hx]
    cases (x.parsed r).toHTTPMessage.storeBody x.rest with
    | some m => trivial
    | none => rfl
  · rw [hrun]
    rfl

/-! ## The grammar -/

/-- A text cut into lines, and its first line into fields. -/
structure Lines where
  method : Bytes
  target : Bytes
  /-- What stands behind the second blank of the first line. -/
  protocolVersion : Bytes
  headerLines : List Bytes
  text : Bytes

namespace Lines

def firstLine (x : Lines) : Bytes := x.method ++ (SP ++ (x.target ++ (SP ++ x.protocolVersion)))

def bytes (x : Lines) : Bytes := messageBytes x.firstLine x.headerLines x.text

/-- The value of the last header line with this name. -/
def header (x : Lines) (name : Bytes) : Option Bytes :=
  (x.headerLines.reverse.find? fun line => (splitHeader line).1 = name).map fun line =>
    (splitHeader line).2

/-- The number that `sscanf` reads with `%zd`; zero where it reads none. -/
def announced (value : Bytes) : Int := (sscanfZd value).getD 0

/-- The part behind the first slash. -/
def behindSlash (s : Bytes) : Bytes := s.drop ((indexOf? SLASH s).getD 0 + 1)

structure InGrammar (x : Lines) : Prop where
  firstLine : ¬ CRLF <:+: x.firstLine
  method : ¬ SP <:+: x.method
  target : ¬ SP <:+: x.target
  slash : SLASH <:+: x.protocolVersion
  headerLines : ∀ l ∈ x.headerLines, l ≠ [] ∧ COLON <:+: l ∧ ¬ CRLF <:+: l
  length : ∀ value, x.header ContentLength = some value → announced value = x.text.length

/-- The request that the lines say. -/
structure Denotes (x : Lines) (r : HTTPRequest) : Prop where
  method : r.m_method = x.method
  target : r.m_reqTarget = x.target
  version : r.m_version = behindSlash x.protocolVersion
  headers : ∀ name, r.m_headers.lookup name = x.header name
  body : r.m_body = if x.header ContentLength = none then [] else x.text

end Lines

/-- The lines of a text that is cut at all its delimiters. -/
def RequestText.toLines (x : RequestText) : Lines where
  method := x.method
  target := x.target
  protocolVersion := x.protocol ++ (SLASH ++ x.version)
  headerLines := x.lines
  text := x.rest

theorem behindSlash_append {protocol : Bytes} (h : ¬ SLASH <:+: protocol) (version : Bytes) :
    Lines.behindSlash (protocol ++ (SLASH ++ version)) = version := by
  rw [Lines.behindSlash, indexOf?_append unbordered_SLASH protocol version h, Option.getD_some,
    ← List.append_assoc]
  exact List.drop_left' (by simp [SLASH])

/-- The lines of the grammar are those of the valid texts whose body has the announced length. -/
theorem exists_toLines {x : Lines} (hx : x.InGrammar) :
    ∃ y : RequestText, y.Valid ∧ y.toLines = x := by
  rcases exists_split_or_none SLASH (by decide) x.protocolVersion with
    ⟨protocol, version, hsplit, hprotocol⟩ | hnone
  · refine ⟨⟨x.method, x.target, protocol, version, x.headerLines, x.text⟩, ?_, ?_⟩
    · constructor
      · have h := hx.firstLine
        rw [Lines.firstLine, hsplit] at h
        exact h
      · exact hx.method
      · exact hx.target
      · exact hprotocol
      · intro l hl
        exact (hx.headerLines l hl).2
    · simp only [RequestText.toLines, ← hsplit]
  · exact absurd hx.slash hnone

/-- Below `2 ^ 63` it makes no difference that the number is stored as a `size_t`. -/
theorem eq_bodySize_iff {n : Nat} (hn : n < 2 ^ 63) (value : Bytes) :
    n = bodySize value ↔ Lines.announced value = n := by
  have hrange : ∀ v, sscanfZd value = some v → -2 ^ 63 ≤ v ∧ v < 2 ^ 63 := by
    intro v hv
    unfold sscanfZd at hv
    dsimp only at hv
    split at hv
    · cases hv
    · cases hv
      unfold clampSsize
      omega
  unfold bodySize Lines.announced
  cases hread : sscanfZd value with
  | none =>
      simp only [Option.map_none, Option.getD_none]
      omega
  | some v =>
      obtain ⟨hlo, hhi⟩ := hrange v hread
      simp only [Option.map_some, Option.getD_some, toSizeT]
      omega

theorem parsed_lookup (x : RequestText) (name : Bytes) :
    (x.parsed {}).m_headers.lookup name = x.toLines.header name := by
  have hlast : ((x.lines.map splitHeader).reverse.find? fun e => e.1 = name) =
      (x.lines.reverse.find? fun line => (splitHeader line).1 = name).map splitHeader := by
    rw [← List.map_reverse, List.find?_map]
    rfl
  show (OrdMap.empty.assignAll (x.lines.map splitHeader)).lookup name = _
  have hlines : x.toLines.headerLines = x.lines := rfl
  rw [OrdMap.lookup_assignAll, hlast, Lines.header, hlines]
  cases x.lines.reverse.find? fun line => (splitHeader line).1 = name with
  | none => rfl
  | some line => rfl

/-- What the body of a valid text becomes. -/
theorem storeBody_parsed (x : RequestText) :
    (x.parsed {}).toHTTPMessage.storeBody x.rest =
      match x.toLines.header ContentLength with
      | none => some (x.parsed {}).toHTTPMessage
      | some value =>
          if x.rest.length = bodySize value then
            some { (x.parsed {}).toHTTPMessage with m_body := x.rest }
          else
            none := by
  have hlookup := parsed_lookup x ContentLength
  unfold HTTPMessage.storeBody
  cases hheader : x.toLines.header ContentLength with
  | none =>
      rw [hheader] at hlookup
      simp only [hlookup]
  | some value =>
      rw [hheader] at hlookup
      simp only [hlookup]

theorem request_isSome_iff {x : RequestText} (hx : x.Valid) (hsize : x.rest.length < 2 ^ 63) :
    (∃ r, x.request = some r) ↔ x.toLines.InGrammar := by
  have hgrammar : (∀ value, x.toLines.header ContentLength = some value →
      Lines.announced value = x.rest.length) ↔ x.toLines.InGrammar := by
    constructor
    · intro hlength
      exact ⟨hx.startLine, hx.method, hx.target,
        ⟨x.protocol, x.version, by simp [RequestText.toLines]⟩,
        fun l hl => ⟨(hx.lines l hl).ne_nil, hx.lines l hl⟩, hlength⟩
    · intro h
      exact h.length
  rw [← hgrammar, RequestText.request, storeBody_parsed]
  cases x.toLines.header ContentLength with
  | none => simp
  | some value =>
      simp only [Option.some.injEq, forall_eq']
      rw [← eq_bodySize_iff hsize value]
      by_cases hlength : x.rest.length = bodySize value
      · simp [hlength]
      · simp [hlength]

theorem denotes_of_request {x : RequestText} (hx : x.Valid) {r : HTTPRequest}
    (h : x.request = some r) : x.toLines.Denotes r := by
  have hversion : (x.parsed {}).m_version = Lines.behindSlash x.toLines.protocolVersion :=
    (behindSlash_append hx.protocol x.version).symm
  obtain ⟨m, hm, rfl⟩ := Option.map_eq_some_iff.mp h
  rw [storeBody_parsed] at hm
  cases hheader : x.toLines.header ContentLength with
  | none =>
      rw [hheader] at hm
      cases hm
      exact ⟨rfl, rfl, hversion, parsed_lookup x, by rw [if_pos hheader]; rfl⟩
  | some value =>
      rw [hheader] at hm
      dsimp only at hm
      split at hm
      · cases hm
        exact ⟨rfl, rfl, hversion, parsed_lookup x, by rw [if_neg (by simp [hheader])]; rfl⟩
      · cases hm

theorem rest_length_le (x : RequestText) : x.rest.length ≤ x.bytes.length := by
  simp only [RequestText.bytes, List.length_append]
  omega

/-- **The request grammar.**  The constructor accepts exactly the texts of the grammar.  A text is
cut into lines of the grammar in one way, and the request is the one that the lines denote.  The
size of a `std::string` is below `2 ^ 63`. -/
theorem ofString_grammar (s : Bytes) (hsize : s.length < 2 ^ 63) :
    ((∃ r, HTTPRequest.ofString s = .ok r) ↔ ∃ x : Lines, x.InGrammar ∧ s = x.bytes) ∧
    ∀ r, HTTPRequest.ofString s = .ok r →
      ∃ x : Lines, (x.InGrammar ∧ s = x.bytes) ∧ x.Denotes r ∧
        ∀ y : Lines, y.InGrammar → s = y.bytes → y = x := by
  constructor
  · constructor
    · rintro ⟨r, hr⟩
      obtain ⟨x, hx, rfl, hrequest⟩ := (ofString_eq_ok_iff s r).mp hr
      have hrest := (rest_length_le x).trans_lt hsize
      exact ⟨x.toLines, (request_isSome_iff hx hrest).mp ⟨r, hrequest⟩, rfl⟩
    · rintro ⟨y, hy, rfl⟩
      obtain ⟨x, hx, rfl⟩ := exists_toLines hy
      have hrest := (rest_length_le x).trans_lt hsize
      obtain ⟨r, hr⟩ := (request_isSome_iff hx hrest).mpr hy
      exact ⟨r, (ofString_eq_ok_iff _ r).mpr ⟨x, hx, rfl, hr⟩⟩
  · intro r hr
    obtain ⟨x, hx, rfl, hrequest⟩ := (ofString_eq_ok_iff s r).mp hr
    have hrest := (rest_length_le x).trans_lt hsize
    refine ⟨x.toLines, ⟨(request_isSome_iff hx hrest).mp ⟨r, hrequest⟩, rfl⟩,
      denotes_of_request hx hrequest, fun y hy hbytes => ?_⟩
    obtain ⟨z, hz, rfl⟩ := exists_toLines hy
    rw [RequestText.bytes_inj hz hx hbytes.symm]

/-- A first line with slashes and blanks in the version part, a header given twice, and a length
with blanks and a sign in front. -/
def oddText : Bytes :=
  ascii "GET  a/b c/1" ++ (CRLF ++ (ascii "A: 1" ++ (CRLF ++ (ascii "A: : 2" ++ (CRLF ++
    (ascii "Content-Length:  +2x" ++ (CRLF ++ (CRLF ++ ascii "ok"))))))))

/-- The request in it. -/
def oddTextRequest : HTTPRequest where
  m_method := ascii "GET"
  m_reqTarget := []
  m_version := ascii "b c/1"
  m_headers := OrdMap.empty.assignAll [(ascii "A", ascii ": 2"), (ContentLength, ascii " +2x")]
  m_body := ascii "ok"

theorem ofString_grammar_oddText : ∃ x : Lines, x.InGrammar ∧ oddText = x.bytes :=
  (ofString_grammar oddText (by decide)).1.mp
    ⟨oddTextRequest, (by decide +kernel : HTTPRequest.ofString oddText = .ok oddTextRequest)⟩

end HTTP
end AdvCppHW
