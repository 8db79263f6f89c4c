import AdvCppHW.HTTP.HTTPMessage

/-!
# The language of the request parser

`RequestText` is a request text cut at the delimiters the parser searches for, `RequestText.bytes`
puts it together again and `RequestText.Valid` says that every delimiter is the first of its kind in
the part where the parser looks for it.

* `headerLoop_block` / `headerLoop_cases` — the header loop on a well-formed block, and on any text.
* `fromString_bytes` — the run of `fromString` on a valid text: it fails only on the body length.
* `fromString_cases` — every other text is rejected with an `ArgumentError`.
* `RequestText.bytes_inj` — a byte string is a valid text in at most one way.
-/

namespace AdvCppHW
namespace HTTP

open Support HTTPMessage

theorem unbordered_CRLF : Unbordered CRLF := unbordered_pair (by decide)
theorem unbordered_COLON : Unbordered COLON := unbordered_pair (by decide)
theorem unbordered_SP : Unbordered SP := unbordered_singleton _
theorem unbordered_SLASH : Unbordered SLASH := unbordered_singleton _

/-! ## Searches and substrings at the offsets of a splitting -/

section Members

variable {σ : Type} (st : σ)

theorem substr_split (p a b : Bytes) :
    (substr (σ := σ) (p ++ (a ++ b)) p.length a.length).run st = .ok a st := by
  simp [substr]

theorem substr_prefix (a b : Bytes) :
    (substr (σ := σ) (a ++ b) 0 a.length).run st = .ok a st := by
  simp [substr]

theorem substr_suffix {s p a : Bytes} {n : Nat} (hs : s = p ++ a) (hn : a.length ≤ n) :
    (substr (σ := σ) s p.length n).run st = .ok a st := by
  subst hs
  simp [substr, List.take_of_length_le hn]

theorem sizeSub_run {a b c : Nat} (h : a = b + c) :
    (sizeSub (σ := σ) a b).run st = .ok c st := by
  subst h
  simp [sizeSub]

end Members

theorem find_split {pat : Bytes} (hu : Unbordered pat) (p a b : Bytes) (ha : ¬ pat <:+: a) :
    find (p ++ (a ++ (pat ++ b))) pat p.length = some (p.length + a.length) :=
  findFrom_append hu p a b ha

theorem find_first {pat : Bytes} (hu : Unbordered pat) (a b : Bytes) (ha : ¬ pat <:+: a) :
    find (a ++ (pat ++ b)) pat 0 = some a.length := by
  simpa using find_split hu [] a b ha

theorem find_none {pat : Bytes} (p s : Bytes) (h : ¬ pat <:+: s) :
    find (p ++ s) pat p.length = none := by
  simp [find, findFrom, indexOf?_of_not_infix h]

theorem readLine_split {σ : Type} (missing : String) (p a b : Bytes) (ha : ¬ CRLF <:+: a)
    (st : σ) : (readLine (p ++ (a ++ (CRLF ++ b))) missing p.length).run st = .ok a st := by
  rw [readLine, find_split unbordered_CRLF p a b ha]
  simp only [EStateM.run_bind, sizeSub_run st rfl, substr_split]

/-- The first line of a text. -/
theorem readLine_first {σ : Type} {line : Bytes} (hline : ¬ CRLF <:+: line) (missing : String)
    (s : Bytes) (st : σ) : (readLine (line ++ (CRLF ++ s)) missing 0).run st = .ok line st :=
  readLine_split missing [] line s hline st

theorem readLine_noBreak {σ : Type} (missing : String) (p : Bytes) {s : Bytes} (h : ¬ CRLF <:+: s)
    (st : σ) :
    (readLine (p ++ s) missing p.length).run st = .error (.ArgumentError missing) st := by
  rw [readLine, find_none p s h]
  rfl

theorem readLine_cases {σ : Type} (missing : String) (p s : Bytes) (st : σ) :
    (∃ a b, s = a ++ (CRLF ++ b) ∧ ¬ CRLF <:+: a) ∨
      (readLine (p ++ s) missing p.length).run st = .error (.ArgumentError missing) st :=
  (exists_split_or_none CRLF (by decide) s).imp_right fun hnone =>
    readLine_noBreak missing p hnone st

/-! ## Header lines -/

/-- A line the header loop accepts: it contains `": "` and no line break. -/
def IsHeaderLine (line : Bytes) : Prop := COLON <:+: line ∧ ¬ CRLF <:+: line

/-- Name and value of a header line, cut at the first `": "`. -/
def splitHeader (line : Bytes) : Bytes × Bytes :=
  let p := (indexOf? COLON line).getD 0
  (line.take p, line.drop (p + 2))

/-- Lines of a header block, each with its line break. -/
def block (lines : List Bytes) : Bytes := lines.flatMap fun line => line ++ CRLF

@[simp] theorem block_nil : block [] = [] := rfl

@[simp] theorem block_cons (line : Bytes) (lines : List Bytes) :
    block (line :: lines) = line ++ (CRLF ++ block lines) := by
  simp [block]

theorem splitHeader_append {name : Bytes} (hname : ¬ COLON <:+: name) (value : Bytes) :
    splitHeader (name ++ (COLON ++ value)) = (name, value) := by
  have hindex := indexOf?_append unbordered_COLON name value hname
  have hdrop : (name ++ (COLON ++ value)).drop (name.length + 2) = value := by
    rw [← List.append_assoc]
    exact List.drop_left' (by simp [COLON])
  simp [splitHeader, hindex, hdrop]

theorem IsHeaderLine.exists_split {line : Bytes} (h : IsHeaderLine line) :
    ∃ name value, line = name ++ (COLON ++ value) ∧ ¬ COLON <:+: name := by
  rcases exists_split_or_none COLON (by decide) line with hsplit | hnone
  · exact hsplit
  · exact absurd h.1 hnone

theorem IsHeaderLine.ne_nil {line : Bytes} (h : IsHeaderLine line) : line ≠ [] := by
  rintro rfl
  exact absurd (List.eq_nil_of_infix_nil h.1) (by simp [COLON])

/-- The message after the loop has stored the given lines. -/
def HTTPMessage.addLines (m : HTTPMessage) (lines : List Bytes) : HTTPMessage :=
  { m with m_headers := m.m_headers.assignAll (lines.map splitHeader) }

@[simp] theorem addLines_nil (m : HTTPMessage) : m.addLines [] = m := rfl

theorem addLines_cons (m : HTTPMessage) (line : Bytes) (lines : List Bytes) :
    m.addLines (line :: lines) =
      (m.addHeaderLine (splitHeader line).1 (splitHeader line).2).addLines lines := rfl

/-- The loop finds name and value of a header line. -/
theorem IsHeaderLine.read {line : Bytes} (h : IsHeaderLine line) (m : HTTPMessage) :
    ∃ pos, find line COLON 0 = some pos ∧ (substr line 0 pos).run m = .ok (splitHeader line).1 m ∧
      (substr line (pos + 2) line.length).run m = .ok (splitHeader line).2 m := by
  obtain ⟨name, value, rfl, hname⟩ := h.exists_split
  have hpre : name.length + 2 = (name ++ COLON).length := by simp [COLON]
  rw [splitHeader_append hname value]
  refine ⟨name.length, find_first unbordered_COLON name value hname, substr_prefix m name _, ?_⟩
  rw [hpre]
  exact substr_suffix m (List.append_assoc name COLON value).symm (by simp; omega)

/-- What the loop does with a header line: it stores it and reads the line after it. -/
theorem headerLoop_cons {noColon noEnd : String} (p line next rest : Bytes) (m : HTTPMessage)
    (hline : IsHeaderLine line) (hnext : ¬ CRLF <:+: next) :
    (headerLoop (p ++ (line ++ (CRLF ++ (next ++ (CRLF ++ rest))))) noColon noEnd p.length line).run
        m =
      (headerLoop (p ++ (line ++ (CRLF ++ (next ++ (CRLF ++ rest))))) noColon noEnd
        (p.length + line.length + 2) next).run
        (m.addHeaderLine (splitHeader line).1 (splitHeader line).2) := by
  have hne : line.length ≠ 0 := by simpa using hline.ne_nil
  obtain ⟨pos, hcolon, hheader, hinfo⟩ := hline.read m
  have hpre : p.length + line.length + 2 = (p ++ (line ++ CRLF)).length := by simp [CRLF]; omega
  have hstr : p ++ (line ++ (CRLF ++ (next ++ (CRLF ++ rest)))) =
      (p ++ (line ++ CRLF)) ++ (next ++ (CRLF ++ rest)) := by simp
  have hend : find (p ++ (line ++ (CRLF ++ (next ++ (CRLF ++ rest))))) CRLF
      (p.length + line.length + 2) = some (p.length + line.length + 2 + next.length) := by
    rw [hpre, hstr]
    exact find_split unbordered_CRLF _ next rest hnext
  have hstart : (substr (σ := HTTPMessage) (p ++ (line ++ (CRLF ++ (next ++ (CRLF ++ rest)))))
      (p.length + line.length + 2) next.length).run
        (m.addHeaderLine (splitHeader line).1 (splitHeader line).2) =
      .ok next (m.addHeaderLine (splitHeader line).1 (splitHeader line).2) := by
    rw [hpre, hstr]
    exact substr_split _ _ next _
  rw [headerLoop, if_neg hne]
  simp only [hcolon, EStateM.run_bind, hheader, hinfo, EStateM.run_modify]
  split
  · next hnone => rw [hend] at hnone; cases hnone
  · next e hsome =>
      rw [hend] at hsome
      cases hsome
      simp only [EStateM.run_bind, sizeSub_run _ rfl, hstart]

theorem headerLoop_nil {noColon noEnd : String} (str : Bytes) (begin : Nat) (m : HTTPMessage) :
    (headerLoop str noColon noEnd begin []).run m = .ok begin m := by
  rw [headerLoop]
  rfl

theorem headerLoop_noColon {noColon noEnd : String} (str line : Bytes) (begin : Nat)
    (m : HTTPMessage) (hne : line ≠ []) (hcolon : ¬ COLON <:+: line) :
    (headerLoop str noColon noEnd begin line).run m = .error (.ArgumentError noColon) m := by
  have hfind : find line COLON 0 = none := find_none [] line hcolon
  rw [headerLoop, if_neg (by simpa using hne), hfind]
  rfl

/-- A header line whose successor has no end is stored before the loop throws. -/
theorem headerLoop_noEnd (noColon noEnd : String) (p line rest : Bytes) (m : HTTPMessage)
    (hline : IsHeaderLine line) (hrest : ¬ CRLF <:+: rest) :
    (headerLoop (p ++ (line ++ (CRLF ++ rest))) noColon noEnd p.length line).run m =
      .error (.ArgumentError noEnd) (m.addLines [line]) := by
  obtain ⟨pos, hcolon, hheader, hinfo⟩ := hline.read m
  have hend : find (p ++ (line ++ (CRLF ++ rest))) CRLF (p.length + line.length + 2) = none := by
    have hpre : p.length + line.length + 2 = (p ++ (line ++ CRLF)).length := by simp [CRLF]; omega
    have hstr : p ++ (line ++ (CRLF ++ rest)) = (p ++ (line ++ CRLF)) ++ rest := by simp
    rw [hpre, hstr]
    exact find_none _ _ hrest
  rw [headerLoop, if_neg (by simpa using hline.ne_nil), addLines_cons, addLines_nil]
  simp only [hcolon, EStateM.run_bind, hheader, hinfo, EStateM.run_modify]
  split
  · rfl
  · next e hsome =>
      rw [hend] at hsome
      cases hsome

/-! ## The loop over a whole header block -/

/-- The line at which a block followed by a blank line starts. -/
theorem exists_headD_split (lines : List Bytes) (hlines : ∀ l ∈ lines, IsHeaderLine l)
    (rest : Bytes) :
    ∃ tail, block lines ++ (CRLF ++ rest) = lines.headD [] ++ (CRLF ++ tail) ∧
      ¬ CRLF <:+: lines.headD [] := by
  cases lines with
  | nil => exact ⟨rest, rfl, by decide⟩
  | cons line lines =>
      exact ⟨block lines ++ (CRLF ++ rest), by simp, (hlines line List.mem_cons_self).2⟩

/-- On a block of header lines the loop stores every line and stops at the blank line. -/
theorem headerLoop_block {noColon noEnd : String} (lines : List Bytes)
    (hlines : ∀ l ∈ lines, IsHeaderLine l) (p rest : Bytes) (m : HTTPMessage) :
    (headerLoop (p ++ (block lines ++ (CRLF ++ rest))) noColon noEnd p.length
      (lines.headD [])).run m = .ok (p.length + (block lines).length) (m.addLines lines) := by
  induction lines generalizing p m with
  | nil => exact headerLoop_nil _ _ m
  | cons line lines ih =>
      have htail := fun l hl => hlines l (List.mem_cons_of_mem line hl)
      obtain ⟨tail, hnext, hfree⟩ := exists_headD_split lines htail rest
      have hstr : p ++ (block (line :: lines) ++ (CRLF ++ rest)) =
          p ++ (line ++ (CRLF ++ (lines.headD [] ++ (CRLF ++ tail)))) := by
        rw [← hnext]
        simp
      have hnextStr : p ++ (line ++ (CRLF ++ (lines.headD [] ++ (CRLF ++ tail)))) =
          (p ++ (line ++ CRLF)) ++ (block lines ++ (CRLF ++ rest)) := by
        rw [hnext]
        simp
      have hpre : p.length + line.length + 2 = (p ++ (line ++ CRLF)).length := by simp [CRLF]; omega
      rw [hstr, List.headD_cons,
        headerLoop_cons p line _ tail m (hlines line List.mem_cons_self) hfree, hnextStr, hpre,
        ih htail, ← addLines_cons]
      congr 1
      simp [CRLF]
      omega

/-- The loop either reads a header block or fails with an `ArgumentError`. -/
theorem headerLoop_cases (noColon noEnd : String) (p line rest : Bytes) (m : HTTPMessage)
    (hline : ¬ CRLF <:+: line) :
    (∃ lines tail, (∀ l ∈ lines, IsHeaderLine l) ∧ line = lines.headD [] ∧
      line ++ (CRLF ++ rest) = block lines ++ (CRLF ++ tail)) ∨
    ∃ info m', (headerLoop (p ++ (line ++ (CRLF ++ rest))) noColon noEnd p.length line).run m =
      .error (.ArgumentError info) m' := by
  -- each iteration consumes a line break of what follows the current line
  induction hn : rest.length using Nat.strong_induction_on generalizing p line rest m with
  | _ n ih =>
    subst hn
    by_cases hnil : line = []
    · subst hnil
      exact Or.inl ⟨[], rest, by simp, rfl, rfl⟩
    by_cases hcolon : COLON <:+: line
    · have hheader : IsHeaderLine line := ⟨hcolon, hline⟩
      rcases exists_split_or_none CRLF (by decide) rest with ⟨next, tail, rfl, hnext⟩ | hnone
      · have hshort : tail.length < (next ++ (CRLF ++ tail)).length := by
          simp only [List.length_append, CRLF, List.length_cons]
          omega
        have hstr : p ++ (line ++ (CRLF ++ (next ++ (CRLF ++ tail)))) =
            (p ++ (line ++ CRLF)) ++ (next ++ (CRLF ++ tail)) := by simp
        have hpre : p.length + line.length + 2 = (p ++ (line ++ CRLF)).length := by
          simp [CRLF]; omega
        rw [headerLoop_cons p line next tail m hheader hnext, hstr, hpre]
        rcases ih tail.length hshort (p ++ (line ++ CRLF)) next tail _ hnext rfl with
          ⟨lines, tail', hlines, -, hblock⟩ | herror
        · refine Or.inl ⟨line :: lines, tail', ?_, rfl, ?_⟩
          · intro l hl
            rcases List.mem_cons.mp hl with rfl | hl
            · exact hheader
            · exact hlines l hl
          · rw [hblock]
            simp
        · exact Or.inr herror
      · -- the line is stored before the search for the end of the next one fails
        exact Or.inr ⟨noEnd, _, headerLoop_noEnd noColon noEnd p line rest m hheader hnone⟩
    · exact Or.inr ⟨noColon, m, headerLoop_noColon _ line _ m hnil hcolon⟩

/-! ## The body -/

/-- The message with its body, if the text after the blank line has the announced length. -/
def HTTPMessage.storeBody (m : HTTPMessage) (rest : Bytes) : Option HTTPMessage :=
  match m.m_headers.lookup ContentLength with
  | none => some m
  | some value => if rest.length = bodySize value then some { m with m_body := rest } else none

/-- The two ways in which the text behind the blank line is taken. -/
theorem storeBody_cases {m₀ m : HTTPMessage} {rest : Bytes} (h : m₀.storeBody rest = some m) :
    (m₀.m_headers.lookup ContentLength = none ∧ m = m₀) ∨
      ∃ value, m₀.m_headers.lookup ContentLength = some value ∧ rest.length = bodySize value ∧
        m = { m₀ with m_body := rest } := by
  unfold HTTPMessage.storeBody at h
  cases hlength : m₀.m_headers.lookup ContentLength with
  | none =>
      rw [hlength] at h
      cases h
      exact Or.inl ⟨rfl, rfl⟩
  | some value =>
      rw [hlength] at h
      dsimp only at h
      split at h
      · next hsize =>
          cases h
          exact Or.inr ⟨value, rfl, hsize, rfl⟩
      · cases h

/-- Storing the body changes neither the version nor the headers. -/
theorem storeBody_kept {m₀ m : HTTPMessage} {rest : Bytes} (h : m₀.storeBody rest = some m) :
    m.m_version = m₀.m_version ∧ m.m_headers = m₀.m_headers := by
  rcases storeBody_cases h with ⟨-, rfl⟩ | ⟨value, -, -, rfl⟩
  · exact ⟨rfl, rfl⟩
  · exact ⟨rfl, rfl⟩

theorem storeBody_isSome_iff {m : HTTPMessage} {rest : Bytes} :
    (∃ m', m.storeBody rest = some m') ↔
      ∀ value, m.m_headers.lookup ContentLength = some value → rest.length = bodySize value := by
  unfold HTTPMessage.storeBody
  cases m.m_headers.lookup ContentLength with
  | none => simp
  | some value =>
      by_cases hlen : rest.length = bodySize value
      · simp [hlen]
      · simp [hlen]

theorem readBody_run {mismatch : String} (p rest : Bytes) (m : HTTPMessage) :
    (readBody (p ++ rest) mismatch p.length).run m =
      match m.storeBody rest with
      | some m' => .ok () m'
      | none => .error (.ArgumentError mismatch) m := by
  have hsize : (sizeSub (σ := HTTPMessage) (p ++ rest).length p.length).run m =
      .ok rest.length m := sizeSub_run m (by simp)
  unfold readBody HTTPMessage.storeBody
  simp only [EStateM.run_bind, EStateM.run_get]
  cases m.m_headers.lookup ContentLength with
  | none => rfl
  | some value =>
      simp only [EStateM.run_bind, hsize]
      by_cases hlen : rest.length = bodySize value
      · have hbody := substr_suffix m (s := p ++ rest) rfl hlen.le
        simp [hlen, hbody]
      · simp [hlen]

theorem onMessage_run {α : Type} (f : Method HTTPMessage α) (r : HTTPRequest) :
    (HTTPRequest.onMessage f).run r =
      match f.run r.toHTTPMessage with
      | .ok a m => .ok a { r with toHTTPMessage := m }
      | .error e m => .error e { r with toHTTPMessage := m } := rfl

/-! ## A start line, a header block and a body -/

section MessageBytes

variable {σ : Type} {startLine : Bytes} {lines : List Bytes}

/-- The bytes of a message. -/
def messageBytes (startLine : Bytes) (lines : List Bytes) (rest : Bytes) : Bytes :=
  startLine ++ (CRLF ++ (block lines ++ (CRLF ++ rest)))

theorem messageBytes_eq_append (startLine : Bytes) (lines : List Bytes) (rest : Bytes) :
    messageBytes startLine lines rest = (startLine ++ CRLF) ++ (block lines ++ (CRLF ++ rest)) := by
  simp [messageBytes]

theorem readLine_startLine (missing : String) (hstart : ¬ CRLF <:+: startLine) (rest : Bytes)
    (st : σ) :
    (readLine (messageBytes startLine lines rest) missing 0).run st = .ok startLine st :=
  readLine_first hstart missing _ st

/-- The line behind the start line: the first header line, or the blank line. -/
theorem readLine_firstLine (missing : String) (hlines : ∀ l ∈ lines, IsHeaderLine l) (rest : Bytes)
    (st : σ) :
    (readLine (messageBytes startLine lines rest) missing (startLine.length + 2)).run st =
      .ok (lines.headD []) st := by
  have hpre : startLine.length + 2 = (startLine ++ CRLF).length := by simp [CRLF]
  obtain ⟨tail, htail, hfree⟩ := exists_headD_split lines hlines rest
  rw [hpre, messageBytes_eq_append, htail]
  exact readLine_split _ _ _ _ hfree st

theorem headerLoop_messageBytes {noColon noEnd : String} (hlines : ∀ l ∈ lines, IsHeaderLine l)
    (rest : Bytes) (m : HTTPMessage) :
    (headerLoop (messageBytes startLine lines rest) noColon noEnd (startLine.length + 2)
      (lines.headD [])).run m =
      .ok (startLine.length + 2 + (block lines).length) (m.addLines lines) := by
  have hpre : startLine.length + 2 = (startLine ++ CRLF).length := by simp [CRLF]
  rw [hpre, messageBytes_eq_append]
  exact headerLoop_block lines hlines _ _ m

theorem readBody_messageBytes {mismatch : String} (rest : Bytes) (m : HTTPMessage) :
    (readBody (messageBytes startLine lines rest) mismatch
      (startLine.length + 2 + (block lines).length + 2)).run m =
      match m.storeBody rest with
      | some m' => .ok () m'
      | none => .error (.ArgumentError mismatch) m := by
  have hpre : startLine.length + 2 + (block lines).length + 2 =
      ((startLine ++ CRLF) ++ (block lines ++ CRLF)).length := by simp [CRLF]; omega
  have hstr : messageBytes startLine lines rest =
      ((startLine ++ CRLF) ++ (block lines ++ CRLF)) ++ rest := by simp [messageBytes]
  rw [hpre, hstr]
  exact readBody_run _ _ m

end MessageBytes

/-! ## The whole text -/

/-- A request text cut at the delimiters the parser searches for. -/
structure RequestText where
  method : Bytes
  target : Bytes
  protocol : Bytes
  version : Bytes
  lines : List Bytes
  rest : Bytes

namespace RequestText

def startLine (x : RequestText) : Bytes :=
  x.method ++ (SP ++ (x.target ++ (SP ++ (x.protocol ++ (SLASH ++ x.version)))))

def bytes (x : RequestText) : Bytes :=
  x.startLine ++ (CRLF ++ (block x.lines ++ (CRLF ++ x.rest)))

/-- Each delimiter is the first one where the parser looks for it. -/
structure Valid (x : RequestText) : Prop where
  startLine : ¬ CRLF <:+: x.startLine
  method : ¬ SP <:+: x.method
  target : ¬ SP <:+: x.target
  protocol : ¬ SLASH <:+: x.protocol
  lines : ∀ l ∈ x.lines, IsHeaderLine l

/-- The request as it is when the header block has been read. -/
def parsed (x : RequestText) (r : HTTPRequest) : HTTPRequest :=
  { r with
    m_method := x.method
    m_reqTarget := x.target
    m_version := x.version
    m_headers := r.m_headers.assignAll (x.lines.map splitHeader) }

end RequestText

theorem readRequestLine_startLine {x : RequestText} (hx : x.Valid) (r : HTTPRequest) :
    (HTTPRequest.readRequestLine x.startLine).run r =
      .ok () { r with m_method := x.method, m_reqTarget := x.target, m_version := x.version } := by
  have hsplit₁ : x.startLine =
      (x.method ++ SP) ++ (x.target ++ (SP ++ (x.protocol ++ (SLASH ++ x.version)))) := by
    simp [RequestText.startLine]
  have hsplit₂ : x.startLine =
      (x.method ++ (SP ++ (x.target ++ SP))) ++ (x.protocol ++ (SLASH ++ x.version)) := by
    simp [RequestText.startLine]
  have hsplit₃ : x.startLine =
      (x.method ++ (SP ++ (x.target ++ (SP ++ (x.protocol ++ SLASH))))) ++ x.version := by
    simp [RequestText.startLine]
  have hpre₁ : x.method.length + 1 = (x.method ++ SP).length := by simp [SP]
  have hpre₂ : x.method.length + 1 + x.target.length + 1 =
      (x.method ++ (SP ++ (x.target ++ SP))).length := by simp [SP]; omega
  have hpre₃ : x.method.length + 1 + x.target.length + 1 + x.protocol.length + 1 =
      (x.method ++ (SP ++ (x.target ++ (SP ++ (x.protocol ++ SLASH))))).length := by
    simp [SP, SLASH]
    omega
  have hfind₁ : find x.startLine SP 0 = some x.method.length :=
    find_first unbordered_SP _ _ hx.method
  have hfind₂ : find x.startLine SP (x.method.length + 1) =
      some (x.method.length + 1 + x.target.length) := by
    rw [hpre₁, hsplit₁]
    exact find_split unbordered_SP _ _ _ hx.target
  have hfind₃ : find x.startLine SLASH (x.method.length + 1 + x.target.length + 1) =
      some (x.method.length + 1 + x.target.length + 1 + x.protocol.length) := by
    rw [hpre₂, hsplit₂]
    exact find_split unbordered_SLASH _ _ _ hx.protocol
  have hmethod : ∀ st : HTTPRequest,
      (substr x.startLine 0 x.method.length).run st = .ok x.method st :=
    fun st => substr_prefix st _ _
  have htarget : ∀ st : HTTPRequest,
      (substr x.startLine (x.method.length + 1) x.target.length).run st = .ok x.target st := by
    intro st
    rw [hpre₁, hsplit₁]
    exact substr_split st _ _ _
  have hversion : ∀ st : HTTPRequest,
      (substr x.startLine (x.method.length + 1 + x.target.length + 1 + x.protocol.length + 1)
        x.version.length).run st = .ok x.version st := by
    intro st
    rw [hpre₃]
    exact substr_suffix st hsplit₃ le_rfl
  have hsize : x.startLine.length =
      x.method.length + 1 + x.target.length + 1 + x.protocol.length + 1 + x.version.length := by
    rw [hpre₃, ← List.length_append, ← hsplit₃]
  unfold HTTPRequest.readRequestLine
  rw [hfind₁]
  simp only [EStateM.run_bind, sizeSub_run _ (Nat.zero_add _).symm, hmethod, EStateM.run_modify,
    hfind₂, sizeSub_run _ rfl, htarget, hfind₃, sizeSub_run _ hsize, hversion]

/-- On a valid text only the length of the body can fail. -/
theorem fromString_bytes {x : RequestText} (hx : x.Valid) (r : HTTPRequest) :
    (HTTPRequest.fromString x.bytes).run r =
      match (x.parsed r).toHTTPMessage.storeBody x.rest with
      | some m => .ok () { x.parsed r with toHTTPMessage := m }
      | none => .error (.ArgumentError "Body: Invalid string passed!") (x.parsed r) := by
  have hbytes : x.bytes = messageBytes x.startLine x.lines x.rest := rfl
  unfold HTTPRequest.fromString
  simp only [hbytes, EStateM.run_bind, readLine_startLine _ hx.startLine,
    readRequestLine_startLine hx, readLine_firstLine _ hx.lines, onMessage_run,
    headerLoop_messageBytes hx.lines, readBody_messageBytes]
  have hparsed : HTTPMessage.addLines ⟨x.version, r.m_headers, r.m_body⟩ x.lines =
      (x.parsed r).toHTTPMessage := rfl
  rw [hparsed]
  cases (x.parsed r).toHTTPMessage.storeBody x.rest with
  | none => rfl
  | some m => rfl

/-! ### Incomplete start lines -/

theorem readRequestLine_noBlank {line : Bytes} (h : ¬ SP <:+: line) (r : HTTPRequest) :
    (HTTPRequest.readRequestLine line).run r =
      .error (.ArgumentError "Method: Invalid string passed!") r := by
  have hfind : find line SP 0 = none := find_none [] line h
  rw [HTTPRequest.readRequestLine, hfind]
  rfl

section BehindMethod

variable {m : Bytes} (hm : ¬ SP <:+: m)
include hm

theorem readRequestLine_oneBlank {l : Bytes} (h : ¬ SP <:+: l) (r : HTTPRequest) :
    (HTTPRequest.readRequestLine (m ++ (SP ++ l))).run r =
      .error (.ArgumentError "Target: Invalid string passed!") { r with m_method := m } := by
  have hfind₁ : find (m ++ (SP ++ l)) SP 0 = some m.length := find_first unbordered_SP m l hm
  have hpre₁ : m.length + 1 = (m ++ SP).length := by simp [SP]
  have hmethod := substr_prefix r m (SP ++ l)
  have hfind₂ : find (m ++ (SP ++ l)) SP (m.length + 1) = none := by
    rw [hpre₁, ← List.append_assoc]
    exact find_none _ _ h
  unfold HTTPRequest.readRequestLine
  rw [hfind₁]
  simp only [EStateM.run_bind, sizeSub_run _ (Nat.zero_add _).symm, hmethod, EStateM.run_modify,
    hfind₂]
  rfl

theorem readRequestLine_noSlash {t l : Bytes} (ht : ¬ SP <:+: t) (h : ¬ SLASH <:+: l)
    (r : HTTPRequest) : (HTTPRequest.readRequestLine (m ++ (SP ++ (t ++ (SP ++ l))))).run r =
      .error (.ArgumentError "Version: Invalid string passed!")
        { r with m_method := m, m_reqTarget := t } := by
  have hfind₁ : find (m ++ (SP ++ (t ++ (SP ++ l)))) SP 0 = some m.length :=
    find_first unbordered_SP m _ hm
  have hpre₁ : m.length + 1 = (m ++ SP).length := by simp [SP]
  have hmethod := substr_prefix r m (SP ++ (t ++ (SP ++ l)))
  have hline₂ : m ++ (SP ++ (t ++ (SP ++ l))) = (m ++ SP) ++ (t ++ (SP ++ l)) := by simp
  have hline₃ : m ++ (SP ++ (t ++ (SP ++ l))) = (m ++ (SP ++ (t ++ SP))) ++ l := by simp
  have hpre₂ : m.length + 1 + t.length + 1 = (m ++ (SP ++ (t ++ SP))).length := by
    simp [SP]; omega
  have hfind₂ : find (m ++ (SP ++ (t ++ (SP ++ l)))) SP (m.length + 1) =
      some (m.length + 1 + t.length) := by
    rw [hpre₁, hline₂]
    exact find_split unbordered_SP _ t l ht
  have htarget := fun st : HTTPRequest => substr_split st (m ++ SP) t (SP ++ l)
  rw [← hpre₁, ← hline₂] at htarget
  have hfind₃ : find (m ++ (SP ++ (t ++ (SP ++ l)))) SLASH (m.length + 1 + t.length + 1) =
      none := by
    rw [hpre₂, hline₃]
    exact find_none _ _ h
  unfold HTTPRequest.readRequestLine
  rw [hfind₁]
  simp only [EStateM.run_bind, sizeSub_run _ (Nat.zero_add _).symm, hmethod, EStateM.run_modify,
    hfind₂, sizeSub_run _ rfl, htarget, hfind₃]
  rfl

end BehindMethod

/-- A line is cut into the four parts of a start line, or rejected with an `ArgumentError`. -/
theorem readRequestLine_cases (line : Bytes) (r : HTTPRequest) :
    (∃ m t u v, line = m ++ (SP ++ (t ++ (SP ++ (u ++ (SLASH ++ v))))) ∧ ¬ SP <:+: m ∧
      ¬ SP <:+: t ∧ ¬ SLASH <:+: u) ∨
    ∃ info r', (HTTPRequest.readRequestLine line).run r = .error (.ArgumentError info) r' := by
  -- one case for each delimiter that is missing, the first one last
  rcases exists_split_or_none SP (by decide) line with ⟨m, l₁, rfl, hm⟩ | hnone
  · rcases exists_split_or_none SP (by decide) l₁ with ⟨t, l₂, rfl, ht⟩ | hnone
    · rcases exists_split_or_none SLASH (by decide) l₂ with ⟨u, v, rfl, hu⟩ | hnone
      · exact Or.inl ⟨m, t, u, v, rfl, hm, ht, hu⟩
      · exact Or.inr ⟨_, _, readRequestLine_noSlash hm ht hnone r⟩
    · exact Or.inr ⟨_, _, readRequestLine_oneBlank hm hnone r⟩
  · exact Or.inr ⟨_, r, readRequestLine_noBlank hnone r⟩

/-- A text that is not valid is rejected with an `ArgumentError`. -/
theorem fromString_cases (s : Bytes) (r : HTTPRequest) :
    (∃ x : RequestText, x.Valid ∧ s = x.bytes) ∨
    ∃ info r', (HTTPRequest.fromString s).run r = .error (.ArgumentError info) r' := by
  rcases readLine_cases "Invalid string passed!" [] s r with
    ⟨line, s₁, rfl, hline⟩ | herror
  · have hread := readLine_first (σ := HTTPRequest) hline "Invalid string passed!" s₁
    have hpre : line.length + 2 = (line ++ CRLF).length := by simp [CRLF]
    have hsplit : line ++ (CRLF ++ s₁) = (line ++ CRLF) ++ s₁ := by simp
    rcases readRequestLine_cases line r with ⟨m, t, u, v, hcut, hm, ht, hu⟩ | ⟨info, r', herror⟩
    · have hvalid : ∀ lines tail, (∀ l ∈ lines, IsHeaderLine l) →
          RequestText.Valid ⟨m, t, u, v, lines, tail⟩ :=
        fun lines tail hlines => ⟨by rw [hcut] at hline; exact hline, hm, ht, hu, hlines⟩
      have hstart := readRequestLine_startLine (hvalid [] [] (by simp)) r
      simp only [RequestText.startLine, ← hcut] at hstart
      rcases readLine_cases "Invalid string passed!" (line ++ CRLF) s₁
        { r with m_method := m, m_reqTarget := t, m_version := v } with
        ⟨next, rest, rfl, hnext⟩ | herror
      · rcases headerLoop_cases "Header: Invalid string passed!"
          "Header Info: Invalid string passed!" (line ++ CRLF) next rest
          ⟨v, r.m_headers, r.m_body⟩ hnext with
          ⟨lines, tail, hlines, -, hblock⟩ | ⟨info, m', herror⟩
        · refine Or.inl ⟨⟨m, t, u, v, lines, tail⟩, hvalid lines tail hlines, ?_⟩
          rw [RequestText.bytes, RequestText.startLine, ← hblock, ← hcut]
        · have hfirst := readLine_split "Invalid string passed!" (line ++ CRLF) next
            rest hnext ({ r with m_method := m, m_reqTarget := t, m_version := v } : HTTPRequest)
          rw [← hpre, ← hsplit] at hfirst herror
          refine Or.inr ⟨info, { toHTTPMessage := m', m_method := m, m_reqTarget := t }, ?_⟩
          unfold HTTPRequest.fromString
          simp only [EStateM.run_bind, hread, hstart, hfirst, onMessage_run, herror]
      · rw [← hpre, ← hsplit] at herror
        refine Or.inr ⟨"Invalid string passed!",
          { r with m_method := m, m_reqTarget := t, m_version := v }, ?_⟩
        unfold HTTPRequest.fromString
        simp only [EStateM.run_bind, hread, hstart, herror]
    · refine Or.inr ⟨info, r', ?_⟩
      unfold HTTPRequest.fromString
      simp only [EStateM.run_bind, hread, herror]
  · refine Or.inr ⟨"Invalid string passed!", r, ?_⟩
    unfold HTTPRequest.fromString
    simp only [EStateM.run_bind, List.nil_append, List.length_nil] at herror ⊢
    rw [herror]

/-! ## Uniqueness, and the constructor -/

theorem block_inj {lines lines' : List Bytes} {rest rest' : Bytes}
    (hl : ∀ l ∈ lines, IsHeaderLine l) (hl' : ∀ l ∈ lines', IsHeaderLine l)
    (h : block lines ++ (CRLF ++ rest) = block lines' ++ (CRLF ++ rest')) :
    lines = lines' ∧ rest = rest' := by
  induction lines generalizing lines' with
  | nil =>
      cases lines' with
      | nil => exact ⟨rfl, List.append_cancel_left h⟩
      | cons line' lines' =>
          have hline' := hl' line' List.mem_cons_self
          rw [block_cons, List.append_assoc, List.append_assoc, block_nil] at h
          obtain ⟨hnil, -⟩ := append_pattern_inj unbordered_CRLF (by decide) hline'.2 h
          exact absurd hnil.symm hline'.ne_nil
  | cons line lines ih =>
      have hline := hl line List.mem_cons_self
      rw [block_cons, List.append_assoc, List.append_assoc] at h
      cases lines' with
      | nil =>
          obtain ⟨hnil, -⟩ := append_pattern_inj unbordered_CRLF hline.2
            (show ¬ CRLF <:+: ([] : Bytes) by decide) h
          exact absurd hnil hline.ne_nil
      | cons line' lines' =>
          rw [block_cons, List.append_assoc, List.append_assoc] at h
          obtain ⟨rfl, htail⟩ := append_pattern_inj unbordered_CRLF hline.2
            (hl' line' List.mem_cons_self).2 h
          obtain ⟨rfl, hrest⟩ := ih (fun l hl₁ => hl l (List.mem_cons_of_mem _ hl₁))
            (fun l hl₁ => hl' l (List.mem_cons_of_mem _ hl₁)) htail
          exact ⟨rfl, hrest⟩

/-- A byte string is a valid request text in at most one way. -/
theorem RequestText.bytes_inj {x y : RequestText} (hx : x.Valid) (hy : y.Valid)
    (h : x.bytes = y.bytes) : x = y := by
  obtain ⟨hstart, hrest⟩ := append_pattern_inj unbordered_CRLF hx.startLine hy.startLine h
  obtain ⟨hmethod, hstart⟩ := append_pattern_inj unbordered_SP hx.method hy.method hstart
  obtain ⟨htarget, hstart⟩ := append_pattern_inj unbordered_SP hx.target hy.target hstart
  obtain ⟨hprotocol, hversion⟩ :=
    append_pattern_inj unbordered_SLASH hx.protocol hy.protocol hstart
  obtain ⟨hlines, hrest⟩ := block_inj hx.lines hy.lines hrest
  cases x
  cases y
  simp_all

/-- The request a valid text denotes, if its body has the announced length. -/
def RequestText.request (x : RequestText) : Option HTTPRequest :=
  ((x.parsed {}).toHTTPMessage.storeBody x.rest).map fun m =>
    { x.parsed {} with toHTTPMessage := m }

theorem ofString_bytes {x : RequestText} (hx : x.Valid) :
    HTTPRequest.ofString x.bytes =
      match x.request with
      | some r => .ok r
      | none => .error (.ArgumentError "Body: Invalid string passed!") := by
  rw [HTTPRequest.ofString, fromString_bytes hx, RequestText.request]
  cases (x.parsed {}).toHTTPMessage.storeBody x.rest with
  | none => rfl
  | some m => rfl

/-- The constructor accepts exactly the valid texts that denote a request. -/
theorem ofString_eq_ok_iff (s : Bytes) (r : HTTPRequest) :
    HTTPRequest.ofString s = .ok r ↔ ∃ x : RequestText, x.Valid ∧ s = x.bytes ∧
      x.request = some r := by
  constructor
  · intro h
    rcases fromString_cases s {} with ⟨x, hx, rfl⟩ | ⟨info, r', herror⟩
    · refine ⟨x, hx, rfl, ?_⟩
      rw [ofString_bytes hx] at h
      cases hreq : x.request with
      | none => rw [hreq] at h; cases h
      | some r' => rw [hreq] at h; cases h; rfl
    · rw [HTTPRequest.ofString, herror] at h
      cases h
  · rintro ⟨x, hx, rfl, hreq⟩
    rw [ofString_bytes hx, hreq]

/-- The constructor throws nothing but `ArgumentError`. -/
theorem ofString_error {s : Bytes} {e : Exception} (h : HTTPRequest.ofString s = .error e) :
    ∃ info, e = .ArgumentError info := by
  rcases fromString_cases s {} with ⟨x, hx, rfl⟩ | ⟨info, r', herror⟩
  · rw [ofString_bytes hx] at h
    cases hreq : x.request with
    | none => rw [hreq] at h; cases h; exact ⟨_, rfl⟩
    | some r' => rw [hreq] at h; cases h
  · rw [HTTPRequest.ofString, herror] at h
    cases h
    exact ⟨info, rfl⟩

end HTTP
end AdvCppHW
