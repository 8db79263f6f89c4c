import AdvCppHW.HTTP.ResponseGrammar

/-!
# What a text spells up to its first defect

`fromString` stores each part of a message as soon as it has found the end of it.  What a text
spells is a function of the text alone; `write` puts it into an object.  An object that
`fromString` leaves by an exception holds what the text spells up to the place of the defect,
and whatever it held before.

* `headerBlock` — the header lines in front of a text; `headerLoop_broken` — the loop, where
  no blank line follows them.
* `spelledRequest`, `spelledResponse` — the parts of a text.
* `fromString_spelled`, `response_fromString_spelled` — a run of `fromString`,
  on any text and any object.
-/

namespace AdvCppHW
namespace HTTP

open Support HTTPMessage

/-! ## Header lines in front of a text -/

theorem cut_CRLF_lt {s a b : Bytes} (h : cut CRLF s = some (a, b)) : b.length < s.length := by
  obtain ⟨hs, -⟩ := cut_eq_some (by decide) h
  rw [hs]
  simp only [List.length_append, CRLF, List.length_cons, List.length_nil]
  omega

/-- The header lines at the beginning of a text, and what stands behind them. -/
def headerBlock (s : Bytes) : List Bytes × Bytes :=
  match _ : cut CRLF s with
  | none => ([], s)
  | some (line, rest) =>
      if COLON <:+: line then (line :: (headerBlock rest).1, (headerBlock rest).2)
      else ([], s)
termination_by s.length
decreasing_by all_goals exact cut_CRLF_lt ‹_›

/-- The text does not begin with a header line. -/
def NoHeaderLine (s : Bytes) : Prop :=
  ∀ line rest, s = line ++ (CRLF ++ rest) → ¬ CRLF <:+: line → ¬ COLON <:+: line

theorem noHeaderLine_blank (text : Bytes) : NoHeaderLine (CRLF ++ text) := by
  intro line rest h hline
  obtain ⟨rfl, -⟩ :=
    append_pattern_inj unbordered_CRLF (show ¬ CRLF <:+: ([] : Bytes) by decide) hline h
  decide

theorem headerBlock_spec (s : Bytes) :
    s = block (headerBlock s).1 ++ (headerBlock s).2 ∧ (∀ l ∈ (headerBlock s).1, IsHeaderLine l) ∧
      NoHeaderLine (headerBlock s).2 := by
  induction hn : s.length using Nat.strong_induction_on generalizing s with
  | _ n ih =>
    subst hn
    rw [headerBlock]
    split
    · next hcut =>
        refine ⟨rfl, by simp, ?_⟩
        rintro line rest rfl hline
        rw [cut_append unbordered_CRLF line rest hline] at hcut
        cases hcut
    · next line rest hcut =>
        obtain ⟨hs, hline⟩ := cut_eq_some (by decide) hcut
        split
        · next hcolon =>
            obtain ⟨hrest, hlines, hstop⟩ := ih rest.length (cut_CRLF_lt hcut) rest rfl
            refine ⟨?_, ?_, hstop⟩
            · rw [block_cons, List.append_assoc, List.append_assoc, ← hrest]
              exact hs
            · intro l hl
              rcases List.mem_cons.mp hl with rfl | hl
              · exact ⟨hcolon, hline⟩
              · exact hlines l hl
        · next hcolon =>
            refine ⟨rfl, by simp, ?_⟩
            intro line' rest' hs' hline'
            obtain ⟨rfl, -⟩ :=
              append_pattern_inj unbordered_CRLF hline hline' (hs.symm.trans hs')
            exact hcolon

/-- A text has one block of header lines in front of it. -/
theorem headerBlock_append {lines : List Bytes} (hlines : ∀ l ∈ lines, IsHeaderLine l)
    {tail : Bytes}
    (htail : NoHeaderLine tail) : headerBlock (block lines ++ tail) = (lines, tail) := by
  induction lines with
  | nil =>
      rw [block_nil, List.nil_append, headerBlock]
      split
      · rfl
      · next line rest hcut =>
          obtain ⟨hs, hline⟩ := cut_eq_some (by decide) hcut
          rw [if_neg (htail line rest hs hline)]
  | cons line lines ih =>
      have hline := hlines line List.mem_cons_self
      have hcut : cut CRLF (block (line :: lines) ++ tail) = some (line, block lines ++ tail) := by
        rw [block_cons, List.append_assoc, List.append_assoc]
        exact cut_append unbordered_CRLF line _ hline.2
      rw [headerBlock]
      split
      · next hnone =>
          rw [hcut] at hnone
          cases hnone
      · next line' rest hsome =>
          rw [hcut] at hsome
          cases hsome
          rw [if_pos hline.1, ih fun l hl => hlines l (List.mem_cons_of_mem _ hl)]

theorem headerBlock_line {line : Bytes} (hline : IsHeaderLine line) (t : Bytes) :
    headerBlock (line ++ (CRLF ++ t)) = (line :: (headerBlock t).1, (headerBlock t).2) := by
  obtain ⟨hblock, hlines, hstop⟩ := headerBlock_spec t
  have hbytes : line ++ (CRLF ++ t) = block (line :: (headerBlock t).1) ++ (headerBlock t).2 := by
    rw [block_cons, List.append_assoc, List.append_assoc, ← hblock]
  rw [hbytes]
  apply headerBlock_append _ hstop
  intro l hl
  rcases List.mem_cons.mp hl with rfl | hl
  · exact hline
  · exact hlines l hl

theorem headerBlock_noColon {line : Bytes} (hline : ¬ CRLF <:+: line) (hcolon : ¬ COLON <:+: line)
    (t : Bytes) : headerBlock (line ++ (CRLF ++ t)) = ([], line ++ (CRLF ++ t)) := by
  show headerBlock (block [] ++ (line ++ (CRLF ++ t))) = _
  apply headerBlock_append (by simp)
  intro line' rest heq hline'
  obtain ⟨rfl, -⟩ := append_pattern_inj unbordered_CRLF hline hline' heq
  exact hcolon

/-- Where no blank line follows the header lines, the loop stores them and throws. -/
theorem headerLoop_broken (noColon noEnd : String) {lines : List Bytes}
    (hlines : ∀ l ∈ lines, IsHeaderLine l) {tail : Bytes} (htail : NoHeaderLine tail)
    (hblank : ¬ CRLF <+: tail) (p line rest : Bytes) (m : HTTPMessage) (hline : ¬ CRLF <:+: line)
    (hs : line ++ (CRLF ++ rest) = block lines ++ tail) :
    ∃ info, (headerLoop (p ++ (line ++ (CRLF ++ rest))) noColon noEnd p.length line).run m =
      .error (.ArgumentError info) (m.addLines lines) := by
  induction lines generalizing p line rest m with
  | nil =>
      have hne : line ≠ [] := by
        rintro rfl
        exact hblank ⟨rest, hs⟩
      exact ⟨noColon, headerLoop_noColon _ line _ m hne (htail line rest hs.symm hline)⟩
  | cons l lines ih =>
      have hl := hlines l List.mem_cons_self
      have htailLines := fun l' hl' => hlines l' (List.mem_cons_of_mem l hl')
      rw [block_cons, List.append_assoc, List.append_assoc] at hs
      obtain ⟨rfl, hrest⟩ := append_pattern_inj unbordered_CRLF hline hl.2 hs
      rcases exists_split_or_none CRLF (by decide) rest with ⟨next, rest', rfl, hnext⟩ | hnone
      · have hstr : p ++ (line ++ (CRLF ++ (next ++ (CRLF ++ rest')))) =
            (p ++ (line ++ CRLF)) ++ (next ++ (CRLF ++ rest')) := by simp
        have hpre : p.length + line.length + 2 = (p ++ (line ++ CRLF)).length := by
          simp [CRLF]; omega
        rw [headerLoop_cons p line next rest' m hl hnext, hstr, hpre, addLines_cons]
        exact ih htailLines (p ++ (line ++ CRLF)) next rest' _ hnext hrest
      · cases lines with
        | nil => exact ⟨noEnd, headerLoop_noEnd noColon noEnd p line rest m hl hnone⟩
        | cons l' lines =>
            -- the end of a further header line would be in `rest`
            refine absurd ⟨l', block lines ++ tail, ?_⟩ hnone
            rw [hrest]
            simp

/-! ## The parts of a text -/

/-- What a text spells of a message. -/
structure SpelledMessage where
  version : Option Bytes := none
  headers : List (Bytes × Bytes) := []
  /-- What stands behind the blank line; `none` when there is a defect in front of it. -/
  text : Option Bytes := none

structure SpelledRequest extends SpelledMessage where
  method : Option Bytes := none
  target : Option Bytes := none

structure SpelledResponse extends SpelledMessage where
  statusCode : Option Int := none

/-- The text behind a start line with this version. -/
def spelledHeaders (version s : Bytes) : SpelledMessage where
  version := some version
  headers := (headerBlock s).1.map splitHeader
  text := if CRLF <+: (headerBlock s).2 then some ((headerBlock s).2.drop 2) else none

def spelledRequest (s : Bytes) : SpelledRequest :=
  match cut CRLF s with
  | none => {}
  | some (line, s) =>
      match cut SP line with
      | none => {}
      | some (method, line) =>
          match cut SP line with
          | none => { method := some method }
          | some (target, line) =>
              match cut SLASH line with
              | none => { method := some method, target := some target }
              | some (_, version) =>
                  { spelledHeaders version s with method := some method, target := some target }

/-- The number that `std::stoi` reads, if it reads one. -/
def stoi? (s : Bytes) : Option Int :=
  match (stoi s).run () with
  | .ok v _ => some v
  | .error _ _ => none

def spelledResponse (s : Bytes) : SpelledResponse :=
  match cut CRLF s with
  | none => {}
  | some (line, s) =>
      match cut SLASH line, cut SP line with
      | some (u, w), some (a, c) =>
          match (cut SP c).bind fun c => stoi? c.1 with
          | none => { version := some (versionSlice u w a) }
          | some code => { spelledHeaders (versionSlice u w a) s with statusCode := some code }
      | _, _ => {}

/-- Where the text behind the blank line is reached, every part of the first line was spelled. -/
theorem spelledRequest_reached {s rest : Bytes} (h : (spelledRequest s).text = some rest) :
    ∃ line t method target version, cut CRLF s = some (line, t) ∧
      spelledRequest s =
        { spelledHeaders version t with method := some method, target := some target } := by
  unfold spelledRequest at h ⊢
  split at h
  · cases h
  · next line t hline =>
      split at h
      · cases h
      · next method l hmethod =>
          split at h
          · cases h
          · next target l htarget =>
              split at h
              · cases h
              · next protocol version hversion =>
                  exact ⟨line, t, method, target, version, hline, rfl⟩

theorem spelledResponse_reached {s rest : Bytes} (h : (spelledResponse s).text = some rest) :
    ∃ line t version code, cut CRLF s = some (line, t) ∧
      spelledResponse s = { spelledHeaders version t with statusCode := some code } := by
  unfold spelledResponse at h ⊢
  split at h
  · cases h
  · next line t hline =>
      split at h
      · next u w a c hslash hblank =>
          split at h
          · cases h
          · next code hcode =>
              exact ⟨line, t, versionSlice u w a, code, hline, rfl⟩
      · cases h

/-- What is spelled replaces what the message held. -/
def HTTPMessage.write (m : HTTPMessage) (x : SpelledMessage) : HTTPMessage where
  m_version := x.version.getD m.m_version
  m_headers := m.m_headers.assignAll x.headers
  m_body := m.m_body

def HTTPRequest.write (r : HTTPRequest) (x : SpelledRequest) : HTTPRequest where
  toHTTPMessage := r.toHTTPMessage.write x.toSpelledMessage
  m_method := x.method.getD r.m_method
  m_reqTarget := x.target.getD r.m_reqTarget

def HTTPResponse.write (r : HTTPResponse) (x : SpelledResponse) : HTTPResponse where
  toHTTPMessage := r.toHTTPMessage.write x.toSpelledMessage
  m_statusCode := x.statusCode.getD r.m_statusCode

/-! ## Runs of `fromString` -/

theorem headerBlock_noBreak {s : Bytes} (h : ¬ CRLF <:+: s) : headerBlock s = ([], s) := by
  have hstop : NoHeaderLine s := by
    rintro line rest rfl
    exact absurd ⟨line, rest, by simp⟩ h
  show headerBlock (block [] ++ s) = _
  exact headerBlock_append (by simp) hstop

/-- Where no blank line follows the header lines, there is no line at all, or the loop throws. -/
theorem headerLoop_of_broken {s : Bytes} (hbroken : ¬ CRLF <+: (headerBlock s).2) :
    ¬ CRLF <:+: s ∨ ∃ next rest, s = next ++ (CRLF ++ rest) ∧ ¬ CRLF <:+: next ∧
      ∀ noColon noEnd p m, ∃ info, (headerLoop (p ++ s) noColon noEnd p.length next).run m =
        .error (.ArgumentError info) (m.addLines (headerBlock s).1) := by
  rcases exists_split_or_none CRLF (by decide) s with ⟨next, rest, hs, hnext⟩ | hnone
  · obtain ⟨hblock, hlines, hstop⟩ := headerBlock_spec s
    refine Or.inr ⟨next, rest, hs, hnext, fun noColon noEnd p m => ?_⟩
    have hrun := headerLoop_broken noColon noEnd hlines hstop hbroken p next rest m hnext
      (hs.symm.trans hblock)
    rwa [← hs] at hrun
  · exact Or.inl hnone

/-- The same behind a start line: the line that is read next is missing, or the loop throws. -/
theorem header_of_broken {s : Bytes} (hbroken : ¬ CRLF <+: (headerBlock s).2)
    (missing noColon noEnd : String) (line : Bytes) :
    (headerBlock s).1 = [] ∧ (∀ (σ : Type) (st : σ),
        (readLine (line ++ (CRLF ++ s)) missing (line.length + 2)).run st =
          .error (.ArgumentError missing) st) ∨
      ∃ next,
        (∀ (σ : Type) (st : σ),
          (readLine (line ++ (CRLF ++ s)) missing (line.length + 2)).run st = .ok next st) ∧
        ∀ m, ∃ info, (headerLoop (line ++ (CRLF ++ s)) noColon noEnd (line.length + 2) next).run m =
          .error (.ArgumentError info) (m.addLines (headerBlock s).1) := by
  have hpre : line.length + 2 = (line ++ CRLF).length := by simp [CRLF]
  rw [hpre, ← List.append_assoc]
  rcases headerLoop_of_broken hbroken with hbreak | ⟨next, rest, hs, hnext, hloop⟩
  · left
    constructor
    · rw [headerBlock_noBreak hbreak]
    · exact fun σ st => readLine_noBreak missing (line ++ CRLF) hbreak st
  · right
    refine ⟨next, fun σ st => ?_, fun m => hloop noColon noEnd (line ++ CRLF) m⟩
    have hfirst := readLine_split missing (line ++ CRLF) next rest hnext st
    rwa [← hs] at hfirst

section Request

variable {line : Bytes} (hline : ¬ CRLF <:+: line)
include hline

theorem fromString_threw (s : Bytes) {r r' : HTTPRequest} {e : Exception}
    (hread : (HTTPRequest.readRequestLine line).run r = .error e r') :
    (HTTPRequest.fromString (line ++ (CRLF ++ s))).run r = .error e r' := by
  have hstart := readLine_first (σ := HTTPRequest) hline "Invalid string passed!" s
  unfold HTTPRequest.fromString
  simp only [EStateM.run_bind, hstart, hread]

/-- Without a blank line behind them the header lines are stored, and nothing else. -/
theorem fromString_broken {s : Bytes} (hbroken : ¬ CRLF <+: (headerBlock s).2) {r r' : HTTPRequest}
    (hread : (HTTPRequest.readRequestLine line).run r = .ok () r') :
    ∃ info, (HTTPRequest.fromString (line ++ (CRLF ++ s))).run r = .error (.ArgumentError info)
      { r' with toHTTPMessage := r'.toHTTPMessage.addLines (headerBlock s).1 } := by
  have hstart := readLine_first (σ := HTTPRequest) hline "Invalid string passed!" s
  rcases header_of_broken hbroken "Invalid string passed!" "Header: Invalid string passed!"
      "Header Info: Invalid string passed!" line with ⟨hnone, herror⟩ | ⟨next, hfirst, hloop⟩
  · refine ⟨"Invalid string passed!", ?_⟩
    rw [hnone, addLines_nil]
    unfold HTTPRequest.fromString
    simp only [EStateM.run_bind, hstart, hread, herror]
  · obtain ⟨info, herror⟩ := hloop r'.toHTTPMessage
    refine ⟨info, ?_⟩
    unfold HTTPRequest.fromString
    simp only [EStateM.run_bind, hstart, hread, hfirst, onMessage_run, herror]

/-- With a blank line behind them only the length of the body can fail. -/
theorem fromString_blank {s text : Bytes} (hblank : (headerBlock s).2 = CRLF ++ text)
    {r r' : HTTPRequest} (hread : (HTTPRequest.readRequestLine line).run r = .ok () r') :
    (HTTPRequest.fromString (line ++ (CRLF ++ s))).run r =
      match (r'.toHTTPMessage.addLines (headerBlock s).1).storeBody text with
      | some m => .ok () { r' with toHTTPMessage := m }
      | none => .error (.ArgumentError "Body: Invalid string passed!")
          { r' with toHTTPMessage := r'.toHTTPMessage.addLines (headerBlock s).1 } := by
  obtain ⟨hs, hlines, -⟩ := headerBlock_spec s
  have hbytes : line ++ (CRLF ++ s) = messageBytes line (headerBlock s).1 text := by
    rw [messageBytes, ← hblank, ← hs]
  rw [hbytes]
  unfold HTTPRequest.fromString
  simp only [EStateM.run_bind, readLine_startLine _ hline, hread, readLine_firstLine _ hlines,
    onMessage_run, headerLoop_messageBytes hlines, readBody_messageBytes]
  cases (r'.toHTTPMessage.addLines (headerBlock s).1).storeBody text with
  | none => rfl
  | some m => rfl

end Request

/-- How a run of `fromString` ends that has stored the headers in `m`; `store` puts a
message into the object. -/
inductive ParseRan {ρ : Type} (store : HTTPMessage → ρ) (m : HTTPMessage) (text : Option Bytes) :
    EStateM.Result Exception ρ Unit → Prop where
  | defect {e : Exception} (htext : text = none) : ParseRan store m text (.error e (store m))
  | mismatch {e : Exception} {rest : Bytes} (htext : text = some rest)
    (hbody : m.storeBody rest = none) :
      ParseRan store m text (.error e (store m))
  | read {rest : Bytes} {m' : HTTPMessage} (htext : text = some rest)
    (hbody : m.storeBody rest = some m') :
      ParseRan store m text (.ok () (store m'))

theorem ParseRan.of_storeBody {ρ : Type} {store : HTTPMessage → ρ} {m : HTTPMessage}
    {text : Option Bytes} {rest : Bytes} (htext : text = some rest) {e : Exception}
    {result : EStateM.Result Exception ρ Unit}
    (h : result = match m.storeBody rest with
      | some m' => .ok () (store m')
      | none => .error e (store m)) : ParseRan store m text result := by
  cases hbody : m.storeBody rest with
  | none =>
      rw [h, hbody]
      exact .mismatch htext hbody
  | some m' =>
      rw [h, hbody]
      exact .read htext hbody

theorem ParseRan.eq_ok_iff {ρ : Type} {store : HTTPMessage → ρ} {m : HTTPMessage}
    {text : Option Bytes} {result : EStateM.Result Exception ρ Unit}
    (h : ParseRan store m text result) (r : ρ) :
    result = .ok () r ↔
      ∃ rest m', text = some rest ∧ m.storeBody rest = some m' ∧ r = store m' := by
  cases h with
  | defect htext => simp [htext]
  | mismatch htext hbody => simp [htext, hbody]
  | read htext hbody =>
      simp [htext, hbody, eq_comm]

theorem spelledHeaders_text (version : Bytes) {s text : Bytes}
    (h : (headerBlock s).2 = CRLF ++ text) : (spelledHeaders version s).text = some text := by
  simp only [spelledHeaders]
  rw [h, if_pos (List.prefix_append CRLF text)]
  rfl

theorem spelledHeaders_broken (version : Bytes) {s : Bytes} (h : ¬ CRLF <+: (headerBlock s).2) :
    (spelledHeaders version s).text = none := by
  simp only [spelledHeaders, if_neg h]

/-- **What a run of the request parser stores.** -/
theorem fromString_spelled (s : Bytes) (r : HTTPRequest) :
    let x := spelledRequest s
    ParseRan (fun m => { r.write x with toHTTPMessage := m })
      (r.toHTTPMessage.write x.toSpelledMessage) x.text ((HTTPRequest.fromString s).run r) := by
  -- one case for each place at which a part can be missing
  rcases exists_split_or_none CRLF (by decide) s with ⟨line, s, rfl, hline⟩ | hnone
  · simp only [spelledRequest, cut_append unbordered_CRLF line s hline]
    rcases exists_split_or_none SP (by decide) line with ⟨method, l, rfl, hmethod⟩ | hnone
    · simp only [cut_append unbordered_SP method l hmethod]
      rcases exists_split_or_none SP (by decide) l with ⟨target, l, rfl, htarget⟩ | hnone
      · simp only [cut_append unbordered_SP target l htarget]
        rcases exists_split_or_none SLASH (by decide) l with ⟨protocol, version, rfl,
          hprotocol⟩ | hnone
        · simp only [cut_append unbordered_SLASH protocol version hprotocol]
          have hread := readRequestLine_startLine
            (x := ⟨method, target, protocol, version, [], []⟩)
            ⟨hline, hmethod, htarget, hprotocol, by simp⟩ r
          by_cases hblank : CRLF <+: (headerBlock s).2
          · obtain ⟨text, htext⟩ := hblank
            exact .of_storeBody (spelledHeaders_text version htext.symm)
              (fromString_blank hline htext.symm hread)
          · obtain ⟨info, herror⟩ := fromString_broken hline hblank hread
            rw [herror]
            exact .defect (spelledHeaders_broken version hblank)
        · rw [cut_of_notIn hnone,
            fromString_threw hline s (readRequestLine_noSlash hmethod htarget hnone r)]
          exact .defect rfl
      · rw [cut_of_notIn hnone, fromString_threw hline s (readRequestLine_oneBlank hmethod hnone r)]
        exact .defect rfl
    · rw [cut_of_notIn hnone, fromString_threw hline s (readRequestLine_noBlank hnone r)]
      exact .defect rfl
  · have hread := readLine_noBreak "Invalid string passed!" [] hnone r
    have hrun : (HTTPRequest.fromString s).run r =
        .error (.ArgumentError "Invalid string passed!") r := by
      unfold HTTPRequest.fromString
      simp only [EStateM.run_bind, List.nil_append, List.length_nil] at hread ⊢
      rw [hread]
    rw [spelledRequest, cut_of_notIn hnone, hrun]
    exact .defect rfl

/-- The constructor takes the bytes for the request that they spell. -/
theorem ofString_spelled (s : Bytes) (r : HTTPRequest) :
    let x := spelledRequest s
    HTTPRequest.ofString s = .ok r ↔ ∃ rest m, x.text = some rest ∧
      (HTTPMessage.write {} x.toSpelledMessage).storeBody rest = some m ∧
        r = { HTTPRequest.write {} x with toHTTPMessage := m } := by
  have hran := (fromString_spelled s {}).eq_ok_iff r
  have hofString : HTTPRequest.ofString s = .ok r ↔
      (HTTPRequest.fromString s).run {} = .ok () r := by
    unfold HTTPRequest.ofString
    cases (HTTPRequest.fromString s).run {} with
    | ok u r' => simp
    | error e r' => simp
  exact hofString.trans hran

/-! ### Responses -/

theorem stoi?_cases (s : Bytes) :
    (∃ v, stoi? s = some v ∧ ∀ (σ : Type) (st : σ), (stoi s).run st = .ok v st) ∨
      stoi? s = none ∧ ∃ e, ∀ (σ : Type) (st : σ), (stoi (σ := σ) s).run st = .error e st := by
  by_cases h : ReadsInt s
  · obtain ⟨v, -, hv⟩ := stoi_of_readsInt h
    refine Or.inl ⟨v, ?_, hv⟩
    rw [stoi?, hv Unit ()]
  · obtain ⟨e, -, he⟩ := stoi_of_not_readsInt h
    refine Or.inr ⟨?_, e, he⟩
    rw [stoi?, he Unit ()]

section Response

variable {line : Bytes} (hline : ¬ CRLF <:+: line)
include hline

theorem response_fromString_broken {s : Bytes} (hbroken : ¬ CRLF <+: (headerBlock s).2)
    {r r' : HTTPResponse} (hread : (HTTPResponse.readStatusLine line).run r = .ok () r') :
    ∃ info, (HTTPResponse.fromString (line ++ (CRLF ++ s))).run r = .error (.ArgumentError info)
      { r' with toHTTPMessage := r'.toHTTPMessage.addLines (headerBlock s).1 } := by
  have hstart := readLine_first (σ := HTTPResponse) hline "Invalid string passed!" s
  rcases header_of_broken hbroken "Invalid string passed!" "Invalid string passed!"
    "Invalid string passed!" line with ⟨hnone, herror⟩ | ⟨next, hfirst, hloop⟩
  · refine ⟨"Invalid string passed!", ?_⟩
    rw [hnone, addLines_nil]
    unfold HTTPResponse.fromString
    simp only [EStateM.run_bind, hstart, hread, herror]
  · obtain ⟨info, herror⟩ := hloop r'.toHTTPMessage
    refine ⟨info, ?_⟩
    unfold HTTPResponse.fromString
    simp only [EStateM.run_bind, hstart, hread, hfirst, response_onMessage_run, herror]

/-- A status line that is read, and what follows it. -/
theorem response_ran {s : Bytes} {r r' : HTTPResponse}
    (hread : (HTTPResponse.readStatusLine line).run r = .ok () r') :
    let x := spelledHeaders r'.m_version s
    ParseRan (fun m => { r' with toHTTPMessage := m }) (r'.toHTTPMessage.write x) x.text
      ((HTTPResponse.fromString (line ++ (CRLF ++ s))).run r) := by
  by_cases hblank : CRLF <+: (headerBlock s).2
  · obtain ⟨text, htext⟩ := hblank
    obtain ⟨hs, hlines, -⟩ := headerBlock_spec s
    have hbytes : line ++ (CRLF ++ s) = messageBytes line (headerBlock s).1 text := by
      rw [messageBytes, htext, ← hs]
    apply ParseRan.of_storeBody (spelledHeaders_text r'.m_version htext.symm)
    rw [hbytes]
    exact response_fromString_messageBytes hline hlines text hread
  · obtain ⟨info, herror⟩ := response_fromString_broken hline hblank hread
    rw [herror]
    exact .defect (spelledHeaders_broken _ hblank)

end Response

/-- **What a run of the response parser stores.** -/
theorem response_fromString_spelled (s : Bytes) (r : HTTPResponse) :
    let x := spelledResponse s
    ParseRan (fun m => { r.write x with toHTTPMessage := m })
      (r.toHTTPMessage.write x.toSpelledMessage) x.text ((HTTPResponse.fromString s).run r) := by
  rcases exists_split_or_none CRLF (by decide) s with ⟨line, s, rfl, hline⟩ | hnone
  · simp only [spelledResponse, cut_append unbordered_CRLF line s hline]
    rcases exists_split_or_none SLASH (by decide) line with ⟨u, w, hslash, hu⟩ | hnone
    · -- `fromString` searches for the first slash and the first blank, whichever comes first
      have hcutSlash : cut SLASH line = some (u, w) := hslash ▸ cut_append unbordered_SLASH u w hu
      rcases exists_split_or_none SP (by decide) line with ⟨a, c, hblank, ha⟩ | hnone
      · have hcutBlank : cut SP line = some (a, c) := hblank ▸ cut_append unbordered_SP a c ha
        simp only [hcutSlash, hcutBlank]
        rcases exists_split_or_none SP (by decide) c with ⟨code, phrase, hc, hcode⟩ | hnone
        · have hread := readStatusLine_found hslash hu hblank ha hc hcode r
          simp only [hc, cut_append unbordered_SP code phrase hcode, Option.bind_some]
          rcases stoi?_cases code with ⟨v, hv, hstoi⟩ | ⟨hv, e, hstoi⟩
          · simp only [hv]
            rw [hstoi] at hread
            exact response_ran hline hread
          · simp only [hv]
            rw [hstoi] at hread
            rw [response_fromString_threw hline s hread]
            exact .defect rfl
        · simp only [cut_of_notIn hnone, Option.bind_none]
          rw [response_fromString_threw hline s
            (readStatusLine_oneBlank hslash hu hblank ha hnone r)]
          exact .defect rfl
      · simp only [hcutSlash, cut_of_notIn hnone]
        rw [response_fromString_threw hline s (readStatusLine_missing (Or.inr hnone) r)]
        exact .defect rfl
    · simp only [cut_of_notIn hnone]
      rw [response_fromString_threw hline s (readStatusLine_missing (Or.inl hnone) r)]
      exact .defect rfl
  · rw [response_fromString_noBreak hnone, spelledResponse, cut_of_notIn hnone]
    exact .defect rfl

theorem response_ofString_spelled (s : Bytes) (r : HTTPResponse) :
    let x := spelledResponse s
    HTTPResponse.ofString s = .ok r ↔ ∃ rest m, x.text = some rest ∧
      (HTTPMessage.write {} x.toSpelledMessage).storeBody rest = some m ∧
        r = { HTTPResponse.write {} x with toHTTPMessage := m } := by
  have hran := (response_fromString_spelled s {}).eq_ok_iff r
  have hofString : HTTPResponse.ofString s = .ok r ↔
      (HTTPResponse.fromString s).run {} = .ok () r := by
    unfold HTTPResponse.ofString
    cases (HTTPResponse.fromString s).run {} with
    | ok u r' => simp
    | error e r' => simp
  exact hofString.trans hran

end HTTP
end AdvCppHW
