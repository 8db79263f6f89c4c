import AdvCppHW.HTTP.SpelledHead

/-!
# The letter case of header names

The headers are a map with the names as keys, and the parser and `doKeepAlive` look for
`Content-Length` and `Connection` in this case.  A header that is spelt in another case is
one that nothing looks for.

* `Respelt` — two texts that differ in the case of header names; `respelt_spelled` —
  what the parser finds in them.
* `HeaderIn`, `InOneOnly` — a header in this very case, in a text and in one of two texts.
* `headerCase` — what two such texts have in common, and when the rest of it is the same.
-/

namespace AdvCppHW
namespace HTTP

open Support HTTPMessage HTTPRequest

/-! ## Bytes that are no letters -/

def lower (name : Bytes) : Bytes := name.map tolower

theorem tolower_eq_of_lt {b c : UInt8} (hc : c < 65) (h : tolower b = c) : b = c := by
  have hc' : c.toNat < 65 := UInt8.lt_iff_toNat_lt.mp hc
  unfold tolower at h
  split at h
  · next hletter =>
      rw [Bool.and_eq_true, decide_eq_true_eq, decide_eq_true_eq, UInt8.le_iff_toNat_le,
        UInt8.le_iff_toNat_le] at hletter
      have hlow : (65 : UInt8).toNat = 65 := rfl
      have hhigh : (90 : UInt8).toNat = 90 := rfl
      have hsum : (b + 32).toNat = (b.toNat + 32) % 256 := UInt8.toNat_add b 32
      rw [h] at hsum
      omega
  · exact h

theorem tolower_of_lt {c : UInt8} (hc : c < 65) : tolower c = c := by
  have hc' : c.toNat < 65 := UInt8.lt_iff_toNat_lt.mp hc
  rw [tolower, if_neg]
  rw [Bool.and_eq_true, decide_eq_true_eq, decide_eq_true_eq, UInt8.le_iff_toNat_le]
  have hlow : (65 : UInt8).toNat = 65 := rfl
  omega

/-- A delimiter has no letters, so respelling neither makes one nor breaks one. -/
theorem infix_of_lower_eq {pat a b : Bytes} (hpat : ∀ c ∈ pat, c < 65) (hlower : lower a = lower b)
    (h : pat <:+: a) : pat <:+: b := by
  have heq : ∀ p q : Bytes, (∀ c ∈ q, c < 65) → lower p = q → p = q := by
    intro p
    induction p with
    | nil =>
        intro q _ hp
        exact hp
    | cons x p ih =>
        rintro q hq rfl
        have hx : tolower x < 65 := hq _ List.mem_cons_self
        have hrest := ih (lower p) (fun c hc => hq c (List.mem_cons_of_mem _ hc)) rfl
        show x :: p = tolower x :: lower p
        rw [← hrest, ← tolower_eq_of_lt hx rfl]
  have hfixed : lower pat = pat := by
    conv_rhs => rw [← List.map_id pat]
    apply List.map_congr_left
    intro c hc
    exact tolower_of_lt (hpat c hc)
  obtain ⟨u, v, rfl⟩ := h
  have hb : lower b = lower u ++ pat ++ lower v := by
    rw [← hlower, lower, List.map_append, List.map_append]
    exact congrArg (fun p => lower u ++ p ++ lower v) hfixed
  obtain ⟨w, v', rfl, hw, -⟩ := List.map_eq_append_iff.mp hb
  obtain ⟨u', p, rfl, -, hp⟩ := List.map_eq_append_iff.mp hw
  rw [heq p pat hpat hp]
  exact ⟨u', v', rfl⟩

theorem COLON_lt : ∀ c ∈ COLON, c < 65 := by decide +kernel

theorem CRLF_lt : ∀ c ∈ CRLF, c < 65 := by decide +kernel

/-! ## Texts that differ in the case of header names -/

/-- Two lines behind the first one, of which none is blank: without a header name in it the line is
the same, and with one the name is, up to case. -/
inductive RespeltLine : Bytes → Bytes → Prop where
  | noName {line : Bytes} (hne : line ≠ []) (hcolon : ¬ COLON <:+: line) : RespeltLine line line
  | header {name name' : Bytes} (value : Bytes) (hname : ¬ COLON <:+: name)
      (hlower : lower name = lower name') :
      RespeltLine (name ++ (COLON ++ value)) (name' ++ (COLON ++ value))

/-- What stands behind two first lines.  The last of the lines need not be complete, and from the
blank line on nothing differs. -/
inductive RespeltLines : Bytes → Bytes → Prop where
  | same (t : Bytes) : RespeltLines t t
  | cut {line line' : Bytes} (hline : ¬ CRLF <:+: line) (h : RespeltLine line line') :
      RespeltLines line line'
  | line {line line' t t' : Bytes} (hline : ¬ CRLF <:+: line) (h : RespeltLine line line')
      (ht : RespeltLines t t') : RespeltLines (line ++ (CRLF ++ t)) (line' ++ (CRLF ++ t'))

/-- Two texts that differ in the letter case of header names. -/
inductive Respelt : Bytes → Bytes → Prop where
  | same (s : Bytes) : Respelt s s
  | lines {line t t' : Bytes} (hline : ¬ CRLF <:+: line) (h : RespeltLines t t') :
      Respelt (line ++ (CRLF ++ t)) (line ++ (CRLF ++ t'))

/-- Two headers, with the same value and the same name up to case. -/
def RespeltHeader (e e' : Bytes × Bytes) : Prop := lower e.1 = lower e'.1 ∧ e.2 = e'.2

theorem RespeltLine.lower_eq {line line' : Bytes} (h : RespeltLine line line') :
    lower line = lower line' := by
  cases h with
  | noName hne hcolon => rfl
  | header value hname hlower =>
      unfold lower at hlower ⊢
      rw [List.map_append, List.map_append, List.map_append, List.map_append, hlower]

theorem RespeltLine.noBreak {line line' : Bytes} (h : RespeltLine line line')
    (hline : ¬ CRLF <:+: line) : ¬ CRLF <:+: line' := by
  intro hline'
  exact hline (infix_of_lower_eq CRLF_lt h.lower_eq.symm hline')

theorem respelt_splitHeader {line line' : Bytes} (h : RespeltLine line line') :
    RespeltHeader (splitHeader line) (splitHeader line') := by
  cases h with
  | noName hne hcolon => exact ⟨rfl, rfl⟩
  | header value hname hlower =>
      have hname' := mt (infix_of_lower_eq COLON_lt hlower.symm) hname
      rw [splitHeader_append hname, splitHeader_append hname']
      exact ⟨hlower, rfl⟩

/-- Either both lines are header lines, or they are one line that is none. -/
theorem RespeltLine.cases_header {line line' : Bytes} (h : RespeltLine line line')
    (hline : ¬ CRLF <:+: line) :
    IsHeaderLine line ∧ IsHeaderLine line' ∨ line = line' ∧ line ≠ [] ∧ ¬ COLON <:+: line := by
  have hline' := h.noBreak hline
  cases h with
  | noName hne hcolon => exact Or.inr ⟨rfl, hne, hcolon⟩
  | @header name name' value hname hlower =>
      exact Or.inl ⟨⟨⟨name, value, by simp⟩, hline⟩, ⟨name', value, by simp⟩, hline'⟩

theorem no_CRLF_first {line rest : Bytes} (hline : ¬ CRLF <:+: line) (hne : line ≠ []) :
    ¬ CRLF <+: line ++ (CRLF ++ rest) := by
  rintro ⟨rest', heq⟩
  obtain ⟨rfl, -⟩ :=
    append_pattern_inj unbordered_CRLF (show ¬ CRLF <:+: ([] : Bytes) by decide) hline heq
  exact hne rfl

/-- The header lines in front of two texts differ in the case of names, and behind them both have
the same blank line and text, or none has a blank line. -/
theorem respelt_headerBlock {t t' : Bytes} (h : RespeltLines t t') :
    List.Forall₂ RespeltHeader ((headerBlock t).1.map splitHeader)
      ((headerBlock t').1.map splitHeader) ∧
      ((headerBlock t).2 = (headerBlock t').2 ∨
        ¬ CRLF <+: (headerBlock t).2 ∧ ¬ CRLF <+: (headerBlock t').2) := by
  have hrefl : ∀ es : List (Bytes × Bytes), List.Forall₂ RespeltHeader es es := by
    intro es
    exact List.forall₂_same.mpr fun e _ => ⟨rfl, rfl⟩
  induction h with
  | same t => exact ⟨hrefl _, Or.inl rfl⟩
  | cut hline hrespelt =>
      have hline' := hrespelt.noBreak hline
      rw [headerBlock_noBreak hline, headerBlock_noBreak hline']
      exact ⟨hrefl _, Or.inr ⟨fun h => hline h.isInfix, fun h => hline' h.isInfix⟩⟩
  | @line line line' t t' hline hrespelt ht ih =>
      obtain ⟨hheaders, htail⟩ := ih
      rcases hrespelt.cases_header hline with ⟨hheader, hheader'⟩ | ⟨rfl, hne, hcolon⟩
      · rw [headerBlock_line hheader, headerBlock_line hheader']
        exact ⟨List.Forall₂.cons (respelt_splitHeader hrespelt) hheaders, htail⟩
      · rw [headerBlock_noColon hline hcolon, headerBlock_noColon hline hcolon]
        exact ⟨hrefl _, Or.inr ⟨no_CRLF_first hline hne, no_CRLF_first hline hne⟩⟩

/-- What the parser finds in two texts that differ in the case of header names. -/
theorem respelt_spelled {s s' : Bytes} (h : Respelt s s') :
    List.Forall₂ RespeltHeader (spelledRequest s).headers (spelledRequest s').headers ∧
      (spelledRequest s).method = (spelledRequest s').method ∧
      (spelledRequest s).target = (spelledRequest s').target ∧
      (spelledRequest s).version = (spelledRequest s').version ∧
      (spelledRequest s).text = (spelledRequest s').text := by
  cases h with
  | same s => exact ⟨List.forall₂_same.mpr fun e _ => ⟨rfl, rfl⟩, rfl, rfl, rfl, rfl⟩
  | @lines line t t' hline ht =>
      obtain ⟨hheaders, htail⟩ := respelt_headerBlock ht
      have htext : ∀ version, (spelledHeaders version t).text =
          (spelledHeaders version t').text := by
        intro version
        rcases htail with heq | ⟨hbroken, hbroken'⟩
        · simp only [spelledHeaders, heq]
        · rw [spelledHeaders_broken version hbroken, spelledHeaders_broken version hbroken']
      unfold spelledRequest
      rw [cut_append unbordered_CRLF line t hline, cut_append unbordered_CRLF line t' hline]
      dsimp only
      split
      · exact ⟨.nil, rfl, rfl, rfl, rfl⟩
      · split
        · exact ⟨.nil, rfl, rfl, rfl, rfl⟩
        · split
          · exact ⟨.nil, rfl, rfl, rfl, rfl⟩
          · exact ⟨hheaders, rfl, rfl, rfl, htext _⟩

/-! ## Headers in one case -/

/-- No two headers of the text have one name up to case. -/
def DistinctNames (s : Bytes) : Prop := ((spelledRequest s).headers.map fun e => lower e.1).Nodup

/-- The text has this header, in this case. -/
def HeaderIn (s name value : Bytes) : Prop := (name, value) ∈ (spelledRequest s).headers

/-- One of the texts has this header in this case, and the other has none of
this name in this case. -/
def InOneOnly (s s' name value : Bytes) : Prop :=
  HeaderIn s name value ∧ (∀ w, ¬ HeaderIn s' name w) ∨ (∀ w, ¬ HeaderIn s name w) ∧
    HeaderIn s' name value

/-- The value that the map has for a name, when the text has been read. -/
def valueOf (s name : Bytes) : Option Bytes := OrdMap.lastValue (spelledRequest s).headers name

/-- With distinct names the map has the value that the text has. -/
theorem valueOf_eq_some_iff {s : Bytes} (hs : DistinctNames s) (name value : Bytes) :
    valueOf s name = some value ↔ HeaderIn s name value := by
  refine ⟨OrdMap.mem_of_lastValue, fun hmem => ?_⟩
  -- the map has the last value of the name, and with distinct names there is one only
  cases hvalue : valueOf s name with
  | none => exact absurd hmem (OrdMap.lastValue_eq_none_iff.mp hvalue value)
  | some w =>
      have heq := List.inj_on_of_nodup_map hs hmem (OrdMap.mem_of_lastValue hvalue) rfl
      cases heq
      rfl

theorem valueOf_eq_none_iff (s name : Bytes) : valueOf s name = none ↔ ∀ w, ¬ HeaderIn s name w :=
  OrdMap.lastValue_eq_none_iff

section TwoTexts

variable {s s' : Bytes} (h : Respelt s s') (hs : DistinctNames s)
include h hs

theorem Respelt.distinctNames : DistinctNames s' := by
  have hmap : ∀ {es es' : List (Bytes × Bytes)}, List.Forall₂ RespeltHeader es es' →
      es.map (fun e => lower e.1) = es'.map (fun e => lower e.1) := by
    intro es es' hes
    induction hes with
    | nil => rfl
    | cons hhead _ ih => rw [List.map_cons, List.map_cons, hhead.1, ih]
  unfold DistinctNames at hs ⊢
  rwa [← hmap (respelt_spelled h).1]

/-- A header that both texts have in one case has one value. -/
theorem Respelt.value_eq {name v w : Bytes} (hv : valueOf s name = some v)
    (hw : valueOf s' name = some w) : v = w := by
  have hmem : ∀ {es es' : List (Bytes × Bytes)}, List.Forall₂ RespeltHeader es es' →
    (name, v) ∈ es →
      ∃ name', lower name' = lower name ∧ (name', v) ∈ es' := by
    intro es es' hes hin
    induction hes with
    | nil => cases hin
    | @cons e e' es es' hhead _ ih =>
        rcases List.mem_cons.mp hin with rfl | hin
        · refine ⟨e'.1, hhead.1.symm, ?_⟩
          rw [show (e'.1, v) = e' from Prod.ext rfl hhead.2]
          exact List.mem_cons_self
        · obtain ⟨name', hname, hin'⟩ := ih hin
          exact ⟨name', hname, List.mem_cons_of_mem _ hin'⟩
  obtain ⟨name', hname, hin⟩ := hmem (respelt_spelled h).1 (OrdMap.mem_of_lastValue hv)
  have heq := List.inj_on_of_nodup_map (h.distinctNames hs) hin (OrdMap.mem_of_lastValue hw) hname
  cases heq
  rfl

/-- What is made of the value of a header is the same for both texts, unless one has the header in
this case and the other has not, and that makes a difference. -/
theorem Respelt.same_iff {β : Type} (f : Option Bytes → β) {P : Bytes → Prop}
    (hP : ∀ v, f none = f (some v) ↔ P v) (name : Bytes) :
    f (valueOf s name) = f (valueOf s' name) ↔ ∀ v, InOneOnly s s' name v → P v := by
  have hone : ∀ v, InOneOnly s s' name v ↔ valueOf s name = some v ∧ valueOf s' name = none ∨
      valueOf s name = none ∧ valueOf s' name = some v := by
    intro v
    rw [valueOf_eq_some_iff hs, valueOf_eq_some_iff (h.distinctNames hs), valueOf_eq_none_iff,
      valueOf_eq_none_iff]
    rfl
  cases hv : valueOf s name with
  | none =>
      cases hw : valueOf s' name with
      | none => simp [hone, hv, hw]
      | some w => simp [hone, hv, hw, hP]
  | some v =>
      cases hw : valueOf s' name with
      | none => simp [hone, hv, hw, ← hP, eq_comm]
      | some w => simp [hone, hv, hw, h.value_eq hs hv hw]

end TwoTexts

/-! ## Body and connection -/

/-- The body of a request in which the length has this value. -/
def bodyOf (length : Option Bytes) (text : Bytes) : Option Bytes :=
  match length with
  | none => some []
  | some value => if text.length = bodySize value then some text else none

/-- Whether the connection is kept, in a request in which this is the value of `Connection`. -/
def keepsAlive (connection : Option Bytes) : Bool :=
  match connection with
  | none => false
  | some params => lower params = ascii "keep-alive"

theorem bodyOf_eq_iff {value text : Bytes} :
    bodyOf none text = bodyOf (some value) text ↔ bodySize value = 0 ∧ text = [] := by
  unfold bodyOf
  dsimp only
  by_cases hlen : text.length = bodySize value
  · rw [if_pos hlen, Option.some.injEq, ← hlen, List.length_eq_zero_iff, eq_comm, and_self]
  · rw [if_neg hlen]
    constructor
    · intro hnone
      cases hnone
    · rintro ⟨hsize, rfl⟩
      exact absurd hsize.symm hlen

theorem keepsAlive_eq_iff {value : Bytes} :
    keepsAlive none = keepsAlive (some value) ↔ lower value ≠ ascii "keep-alive" := by
  simp [keepsAlive]

theorem lookup_write (s name : Bytes) :
    (HTTPMessage.write {} (spelledRequest s).toSpelledMessage).m_headers.lookup name =
      valueOf s name := by
  show (OrdMap.empty.assignAll (spelledRequest s).headers).lookup name = _
  rw [OrdMap.lookup_assignAll_eq, OrdMap.lookup_empty, Option.or_none]
  rfl

theorem storeBody_write (s text : Bytes) :
    ((HTTPMessage.write {} (spelledRequest s).toSpelledMessage).storeBody text).map
      HTTPMessage.m_body = bodyOf (valueOf s ContentLength) text := by
  have hlookup := lookup_write s ContentLength
  unfold HTTPMessage.storeBody bodyOf
  cases hvalue : valueOf s ContentLength with
  | none =>
      rw [hvalue] at hlookup
      simp only [hlookup]
      rfl
  | some value =>
      rw [hvalue] at hlookup
      simp only [hlookup]
      by_cases hlen : text.length = bodySize value
      · simp only [if_pos hlen]
        rfl
      · simp only [if_neg hlen]
        rfl

/-- An accepted request, by what the text spells. -/
theorem ofString_values {s : Bytes} {r : HTTPRequest} (h : HTTPRequest.ofString s = .ok r) :
    r.m_method = (spelledRequest s).method.getD [] ∧
      r.m_reqTarget = (spelledRequest s).target.getD [] ∧
      r.m_version = (spelledRequest s).version.getD [] ∧
      r.doKeepAlive = keepsAlive (valueOf s Connection) ∧
      ∃ text, (spelledRequest s).text = some text ∧
        bodyOf (valueOf s ContentLength) text = some r.m_body := by
  obtain ⟨text, m, htext, hm, rfl⟩ := (ofString_spelled s r).mp h
  obtain ⟨hversion, hheaders⟩ := storeBody_kept hm
  refine ⟨rfl, rfl, hversion, ?_, text, htext, ?_⟩
  · have hlookup := lookup_write s Connection
    rw [← hheaders] at hlookup
    unfold doKeepAlive keepsAlive
    rw [← hlookup]
    rfl
  · rw [← storeBody_write, hm]
    rfl

/-- With no defect in front of the text, the body decides whether a request is accepted. -/
theorem bodyOf_eq_some_iff {s text : Bytes} (htext : (spelledRequest s).text = some text)
    (body : Bytes) :
    bodyOf (valueOf s ContentLength) text = some body ↔
      ∃ r, HTTPRequest.ofString s = .ok r ∧ r.m_body = body := by
  constructor
  · intro hbody
    rw [← storeBody_write, Option.map_eq_some_iff] at hbody
    obtain ⟨m, hm, rfl⟩ := hbody
    exact ⟨_, (ofString_spelled s _).mpr ⟨text, m, htext, hm, rfl⟩, rfl⟩
  · rintro ⟨r, hr, rfl⟩
    obtain ⟨-, -, -, -, text', htext', hbody⟩ := ofString_values hr
    rw [htext] at htext'
    cases htext'
    exact hbody

/-- The constructor accepts both texts or neither, and stores the same body. -/
def SameBody (s s' : Bytes) : Prop :=
  ((∃ r, HTTPRequest.ofString s = .ok r) ↔ ∃ r, HTTPRequest.ofString s' = .ok r) ∧
    ∀ r r', HTTPRequest.ofString s = .ok r → HTTPRequest.ofString s' = .ok r' → r.m_body = r'.m_body

theorem SameBody.symm {s s' : Bytes} (h : SameBody s s') : SameBody s' s :=
  ⟨h.1.symm, fun r r' hr hr' => (h.2 r' r hr' hr).symm⟩

/-- Two texts with the same text behind the blank line. -/
theorem sameBody_iff {s s' : Bytes} (htexts : (spelledRequest s).text = (spelledRequest s').text) :
    SameBody s s' ↔ ∀ text, (spelledRequest s).text = some text →
      bodyOf (valueOf s ContentLength) text = bodyOf (valueOf s' ContentLength) text := by
  constructor
  · intro h text htext
    have hhalf : ∀ {s s' : Bytes}, SameBody s s' → (spelledRequest s).text = some text →
        (spelledRequest s').text = some text → ∀ body,
        bodyOf (valueOf s ContentLength) text = some body →
          bodyOf (valueOf s' ContentLength) text = some body := by
      intro s s' h htext htext' body hbody
      obtain ⟨r, hr, rfl⟩ := (bodyOf_eq_some_iff htext body).mp hbody
      obtain ⟨r', hr'⟩ := h.1.mp ⟨r, hr⟩
      exact (bodyOf_eq_some_iff htext' r.m_body).mpr ⟨r', hr', (h.2 r r' hr hr').symm⟩
    have htext' : (spelledRequest s').text = some text := htexts ▸ htext
    ext body
    exact ⟨hhalf h htext htext' body, hhalf h.symm htext' htext body⟩
  · intro h
    have hsame : ∀ body, (∃ r, HTTPRequest.ofString s = .ok r ∧ r.m_body = body) ↔
        ∃ r, HTTPRequest.ofString s' = .ok r ∧ r.m_body = body := by
      intro body
      cases htext : (spelledRequest s).text with
      | some text =>
          rw [← bodyOf_eq_some_iff htext, ← bodyOf_eq_some_iff (htexts ▸ htext), h text htext]
      | none =>
          have hnone : ∀ {s : Bytes} {r : HTTPRequest}, (spelledRequest s).text = none →
              ¬ HTTPRequest.ofString s = .ok r := by
            intro s r hno hr
            obtain ⟨-, -, -, -, text, htext, -⟩ := ofString_values hr
            rw [hno] at htext
            cases htext
          constructor
          · rintro ⟨r, hr, -⟩
            exact absurd hr (hnone htext)
          · rintro ⟨r, hr, -⟩
            exact absurd hr (hnone (htexts ▸ htext))
    refine ⟨⟨?_, ?_⟩, ?_⟩
    · rintro ⟨r, hr⟩
      obtain ⟨r', hr', -⟩ := (hsame r.m_body).mp ⟨r, hr, rfl⟩
      exact ⟨r', hr'⟩
    · rintro ⟨r, hr⟩
      obtain ⟨r', hr', -⟩ := (hsame r.m_body).mpr ⟨r, hr, rfl⟩
      exact ⟨r', hr'⟩
    · intro r r' hr hr'
      obtain ⟨r'', hr'', hbody⟩ := (hsame r.m_body).mp ⟨r, hr, rfl⟩
      rw [hr'] at hr''
      cases hr''
      exact hbody.symm

/-- **Header names are read in one case.**  Two texts differ in the letter case of header names,
and no two names of one text are equal up to case.  They have the same first line.  They are
accepted or rejected together, with the same body, unless one of them has `Content-Length` in this
case and the other has not: then only if the length is zero and no text follows.  Likewise for
`Connection` and `doKeepAlive`. -/
theorem headerCase {s s' : Bytes} (h : Respelt s s') (hs : DistinctNames s) :
    (SameBody s s' ↔ ∀ text value, (spelledRequest s).text = some text →
      InOneOnly s s' ContentLength value → bodySize value = 0 ∧ text = []) ∧
    ∀ r r', HTTPRequest.ofString s = .ok r → HTTPRequest.ofString s' = .ok r' →
      r.m_method = r'.m_method ∧ r.m_reqTarget = r'.m_reqTarget ∧ r.m_version = r'.m_version ∧
        (r.doKeepAlive = r'.doKeepAlive ↔
          ∀ value, InOneOnly s s' Connection value → lower value ≠ ascii "keep-alive") := by
  obtain ⟨-, hmethods, htargets, hversions, htexts⟩ := respelt_spelled h
  constructor
  · have hbody := fun text =>
      h.same_iff hs (fun length => bodyOf length text) (fun _ => bodyOf_eq_iff) ContentLength
    rw [sameBody_iff htexts]
    simp only [hbody]
    constructor
    · intro hall text value htext
      exact hall text htext value
    · intro hall text htext value
      exact hall text value htext
  · intro r r' hr hr'
    obtain ⟨hmethod, htarget, hversion, hkeep, -⟩ := ofString_values hr
    obtain ⟨hmethod', htarget', hversion', hkeep', -⟩ := ofString_values hr'
    refine ⟨?_, ?_, ?_, ?_⟩
    · rw [hmethod, hmethod', hmethods]
    · rw [htarget, htarget', htargets]
    · rw [hversion, hversion', hversions]
    · rw [hkeep, hkeep']
      exact h.same_iff hs keepsAlive (fun _ => keepsAlive_eq_iff) Connection

/-- `POST / HTTP/1.1` with a body of two bytes and the header of this name for its length. -/
def lengthSpelt (name : Bytes) : Bytes :=
  ascii "POST / HTTP/1.1" ++
    (CRLF ++ ((name ++ (COLON ++ ascii "2")) ++ (CRLF ++ (CRLF ++ ascii "ok"))))

theorem respelt_length :
    Respelt (lengthSpelt ContentLength) (lengthSpelt (ascii "content-length")) :=
  .lines (by decide) (.line (by decide) (.header _ (by decide) (by decide)) (.same _))

theorem headerCase_length :
    SameBody (lengthSpelt ContentLength) (lengthSpelt (ascii "content-length")) ↔
      ∀ text value, (spelledRequest (lengthSpelt ContentLength)).text = some text →
        InOneOnly (lengthSpelt ContentLength) (lengthSpelt (ascii "content-length"))
          ContentLength value →
          bodySize value = 0 ∧ text = [] :=
  (headerCase respelt_length (by unfold DistinctNames; decide +kernel)).1

/-- With the length in small letters the request is accepted without its body. -/
theorem smallLetters_noBody :
    ¬ ∀ s s' : Bytes, Respelt s s' → DistinctNames s → DistinctNames s' → SameBody s s' ∧
      ∀ r r', HTTPRequest.ofString s = .ok r → HTTPRequest.ofString s' = .ok r' →
        r.m_method = r'.m_method ∧ r.m_reqTarget = r'.m_reqTarget ∧ r.m_version = r'.m_version ∧
          r.doKeepAlive = r'.doKeepAlive := by
  intro h
  have hdistinct : DistinctNames (lengthSpelt ContentLength) := by
    unfold DistinctNames
    decide +kernel
  obtain ⟨⟨-, hbodies⟩, -⟩ :=
    h _ _ respelt_length hdistinct (respelt_length.distinctNames hdistinct)
  have hbody := hbodies
    { m_method := ascii "POST", m_reqTarget := ascii "/", m_version := ascii "1.1"
      m_headers := OrdMap.empty.assign ContentLength (ascii "2"), m_body := ascii "ok" }
    { m_method := ascii "POST", m_reqTarget := ascii "/", m_version := ascii "1.1"
      m_headers := OrdMap.empty.assign (ascii "content-length") (ascii "2") }
    (by decide +kernel) (by decide +kernel)
  revert hbody
  decide

end HTTP
end AdvCppHW
