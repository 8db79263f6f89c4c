import Mathlib.Data.List.Basic
import Mathlib.Data.List.TakeDrop
import Mathlib.Algebra.BigOperators.Group.List.Basic
import Mathlib.Algebra.Ring.Nat

/-!
# Transferring an exact number of elements

A stream is read or written by calls that transfer some of what they were asked for.
`readExact` and `writeExact` repeat such calls until everything is transferred; `readAll` and
`writeAll` are lists of these.  The rules need one specification of a single call and give that
of the loops and the lists:

* `Reads` gives `ReadsExactly` of `readExact`, and from there `readAll_takes` — what is returned is
  what has been taken off the stream.
* `Supplies` gives `SuppliesExactly` and `readAll_supplied` — where every call makes progress until
  the stream ends, the loops return, or fail at the end of the stream.
* `Writes` gives `WritesExactly` of `writeExact` and `writeAll_sends` — what
  has been put on the stream.
* `Accepts` gives `AcceptsExactly` and `writeAll_accepts` — where every call takes
  something, the loops return.
-/

namespace AdvCppHW
namespace Support
namespace ExactTransfer

variable {α ε σ : Type}

/-- The state in which a procedure ends. -/
def stateAfter {β : Type} : EStateM.Result ε σ β → σ
  | .ok _ s => s
  | .error _ s => s

/-- A procedure behind a test of the state. -/
def guarded {β : Type} (test : σ → Bool) (e : ε) (m : EStateM ε σ β) : EStateM ε σ β := do
  if test (← get) then m else throw e

theorem guarded_of_true {β : Type} {test : σ → Bool} {e : ε} {m : EStateM ε σ β} {s : σ}
    (h : test s = true) : (guarded test e m).run s = m.run s := by
  simp [guarded, h]

theorem guarded_of_false {β : Type} {test : σ → Bool} {e : ε} {m : EStateM ε σ β} {s : σ}
    (h : test s = false) : (guarded test e m).run s = .error e s := by
  simp only [guarded, EStateM.run_bind, EStateM.run_get, h]
  rfl

/-! ## Reading -/

/-- Read until `n` elements are there; a call that brings none ends the loop with `endOfFile`. -/
def readExact (read : Nat → EStateM ε σ (List α)) (endOfFile : ε) (n : Nat) :
    EStateM ε σ (List α) :=
  if n = 0 then pure []
  else do
    let chunk ← read n
    if chunk = [] then throw endOfFile
    else do
      let rest ← readExact read endOfFile (n - chunk.length)
      pure (chunk ++ rest)
termination_by n
decreasing_by
  have hpos : 0 < chunk.length := List.length_pos_iff.mpr (by assumption)
  omega

/-- Successive calls of a procedure that reads a number of elements. -/
def readAll (readN : Nat → EStateM ε σ (List α)) : List Nat → EStateM ε σ (List (List α))
  | [] => pure []
  | n :: ns => do
      let elements ← readN n
      let rest ← readAll readN ns
      pure (elements :: rest)

/-- What a call for at least one element keeps is kept by the loop. -/
theorem readExact_keeps {read : Nat → EStateM ε σ (List α)} {endOfFile : ε} {P : σ → Prop}
    (hread : ∀ n s, n ≠ 0 → P s → P (stateAfter ((read n).run s))) (n : Nat) (s : σ) (hs : P s) :
    P (stateAfter ((readExact read endOfFile n).run s)) := by
  induction n using Nat.strongRecOn generalizing s with
  | _ n ih =>
    rw [readExact]
    by_cases hn : n = 0
    · rw [if_pos hn]
      exact hs
    · have hcall := hread n s hn hs
      rw [if_neg hn, EStateM.run_bind]
      cases hrun : (read n).run s with
      | error e s' =>
          rw [hrun] at hcall
          exact hcall
      | ok chunk s' =>
          rw [hrun] at hcall
          by_cases hnil : chunk = []
          · simp only [if_pos hnil]
            exact hcall
          · have hpos : 0 < chunk.length := List.length_pos_iff.mpr hnil
            have hrest := ih (n - chunk.length) (by omega) s' hcall
            simp only [if_neg hnil, EStateM.run_bind]
            cases hloop : (readExact read endOfFile (n - chunk.length)).run s' with
            | error e s'' =>
                rw [hloop] at hrest
                exact hrest
            | ok rest s'' =>
                rw [hloop] at hrest
                exact hrest

section Reading

variable (stream : σ → List α)

/-- A call returns the first elements of the stream, at most as many as asked for, and takes nothing
when it fails. -/
def Reads (read : Nat → EStateM ε σ (List α)) : Prop :=
  ∀ n s, match (read n).run s with
    | .ok chunk s' => stream s = chunk ++ stream s' ∧ chunk.length ≤ n
    | .error _ s' => stream s = stream s'

/-- A call returns the first `n` elements of the stream; when it fails it
has taken at most these. -/
def ReadsExactly (readN : Nat → EStateM ε σ (List α)) : Prop :=
  ∀ n s, match (readN n).run s with
    | .ok elements s' => stream s = elements ++ stream s' ∧ elements.length = n
    | .error _ s' => ∃ taken, stream s = taken ++ stream s' ∧ taken.length ≤ n

variable {stream} {read readN : Nat → EStateM ε σ (List α)} {endOfFile : ε}

theorem readExact_takes (hread : Reads stream read) :
    ReadsExactly stream (readExact read endOfFile) := by
  intro n
  -- every iteration that goes on has read something
  induction n using Nat.strongRecOn with
  | _ n ih =>
    intro s
    rw [readExact]
    by_cases hn : n = 0
    · simp [hn]
    · have hchunk := hread n s
      rw [if_neg hn, EStateM.run_bind]
      cases hrun : (read n).run s with
      | error e s' =>
          rw [hrun] at hchunk
          exact ⟨[], hchunk, Nat.zero_le n⟩
      | ok chunk s' =>
          rw [hrun] at hchunk
          obtain ⟨hstream, hlen⟩ := hchunk
          by_cases hnil : chunk = []
          · simp only [if_pos hnil]
            exact ⟨[], by simpa [hnil] using hstream, Nat.zero_le n⟩
          · have hpos : 0 < chunk.length := List.length_pos_iff.mpr hnil
            have hrest := ih (n - chunk.length) (by omega) s'
            simp only [if_neg hnil, EStateM.run_bind]
            cases hloop : (readExact read endOfFile (n - chunk.length)).run s' with
            | error e s'' =>
                rw [hloop] at hrest
                obtain ⟨taken, htaken, hle⟩ := hrest
                exact ⟨chunk ++ taken, by rw [hstream, htaken, List.append_assoc],
                  by rw [List.length_append]; omega⟩
            | ok rest s'' =>
                rw [hloop] at hrest
                obtain ⟨htaken, hlen'⟩ := hrest
                exact ⟨by rw [hstream, htaken, List.append_assoc],
                  by rw [List.length_append]; omega⟩

theorem readAll_takes (hread : ReadsExactly stream readN) (ns : List Nat) (s : σ) :
    match (readAll readN ns).run s with
    | .ok blocks s' => stream s = blocks.flatten ++ stream s' ∧ blocks.map List.length = ns
    | .error _ s' => ∃ taken, stream s = taken ++ stream s' ∧ taken.length ≤ ns.sum := by
  induction ns generalizing s with
  | nil => exact ⟨rfl, rfl⟩
  | cons n ns ih =>
      have hfirst := hread n s
      rw [readAll, EStateM.run_bind]
      cases hrun : (readN n).run s with
      | error e s' =>
          rw [hrun] at hfirst
          obtain ⟨taken, hstream, hlen⟩ := hfirst
          exact ⟨taken, hstream, by rw [List.sum_cons]; omega⟩
      | ok elements s' =>
          rw [hrun] at hfirst
          obtain ⟨hstream, hlen⟩ := hfirst
          have hrest := ih s'
          simp only [EStateM.run_bind]
          cases hall : (readAll readN ns).run s' with
          | error e s'' =>
              rw [hall] at hrest
              obtain ⟨taken, hstream', hlen'⟩ := hrest
              refine ⟨elements ++ taken, by rw [hstream, hstream', List.append_assoc], ?_⟩
              rw [List.length_append, List.sum_cons]
              omega
          | ok blocks s'' =>
              rw [hall] at hrest
              obtain ⟨hstream', hlen'⟩ := hrest
              constructor
              · rw [hstream, hstream', List.flatten_cons, List.append_assoc]
              · rw [List.map_cons, hlen, hlen']

theorem ReadsExactly.guarded {test : σ → Bool} {e : ε} (h : ReadsExactly stream readN) :
    ReadsExactly stream fun n => guarded test e (readN n) := by
  intro n s
  cases htest : test s with
  | true =>
      rw [guarded_of_true htest]
      exact h n s
  | false =>
      rw [guarded_of_false htest]
      exact ⟨[], rfl, Nat.zero_le n⟩

/-! ### Progress -/

variable (stream)

/-- While a state is `supplied`, a call returns, and it brings nothing only at the end of the
stream. -/
def Supplies (supplied : σ → Prop) (read : Nat → EStateM ε σ (List α)) : Prop :=
  ∀ n s, n ≠ 0 → supplied s → ∃ chunk s', (read n).run s = .ok chunk s' ∧
    (chunk = [] → stream s = []) ∧ (chunk ≠ [] → supplied s')

/-- In a supplied state a call returns if the stream is long enough and fails with `endOfFile`
otherwise. -/
def SuppliesExactly (supplied : σ → Prop) (readN : Nat → EStateM ε σ (List α)) (endOfFile : ε) :
    Prop :=
  ∀ n s, supplied s →
    (n ≤ (stream s).length → ∃ elements s', (readN n).run s = .ok elements s' ∧ supplied s') ∧
    ((stream s).length < n → ∃ s', (readN n).run s = .error endOfFile s')

variable {stream} {supplied : σ → Prop}

theorem readExact_supplied (hread : Reads stream read) (hsupplies : Supplies stream supplied read) :
    SuppliesExactly stream supplied (readExact read endOfFile) endOfFile := by
  intro n
  induction n using Nat.strongRecOn with
  | _ n ih =>
    intro s hs
    rw [readExact]
    by_cases hn : n = 0
    · exact ⟨fun _ => ⟨[], s, by simp [hn], hs⟩, fun hlt => absurd hlt (by omega)⟩
    · obtain ⟨chunk, s', hrun, hend, hmore⟩ := hsupplies n s hn hs
      have hchunk := hread n s
      rw [hrun] at hchunk
      obtain ⟨hstream, hlen⟩ := hchunk
      rw [if_neg hn, EStateM.run_bind, hrun]
      by_cases hnil : chunk = []
      · have hempty := hend hnil
        simp only [if_pos hnil]
        refine ⟨fun hle => ?_, fun _ => ⟨s', rfl⟩⟩
        rw [hempty, List.length_nil] at hle
        omega
      · have hpos : 0 < chunk.length := List.length_pos_iff.mpr hnil
        obtain ⟨hreturns, hfails⟩ := ih (n - chunk.length) (by omega) s' (hmore hnil)
        simp only [if_neg hnil, EStateM.run_bind, hstream, List.length_append]
        constructor
        · intro hle
          obtain ⟨rest, s'', hrest, hs''⟩ := hreturns (by omega)
          exact ⟨chunk ++ rest, s'', by rw [hrest]; rfl, hs''⟩
        · intro hlt
          obtain ⟨s'', hrest⟩ := hfails (by omega)
          exact ⟨s'', by rw [hrest]⟩

theorem SuppliesExactly.guarded {test : σ → Bool} {e : ε}
    (h : SuppliesExactly stream supplied readN endOfFile)
    (htest : ∀ s, supplied s → test s = true) :
    SuppliesExactly stream supplied (fun n => guarded test e (readN n)) endOfFile := by
  intro n s hs
  simp only [guarded_of_true (htest s hs)]
  exact h n s hs

theorem readAll_supplied (hread : ReadsExactly stream readN)
    (hsupplies : SuppliesExactly stream supplied readN endOfFile) (ns : List Nat) {s : σ}
    (hs : supplied s) :
    (ns.sum ≤ (stream s).length → ∃ blocks s', (readAll readN ns).run s = .ok blocks s') ∧
    ((stream s).length < ns.sum → ∃ s', (readAll readN ns).run s = .error endOfFile s') := by
  induction ns generalizing s with
  | nil => exact ⟨fun _ => ⟨[], s, rfl⟩, fun hlt => absurd hlt (Nat.not_lt_zero _)⟩
  | cons n ns ih =>
      obtain ⟨hreturns, hfails⟩ := hsupplies n s hs
      have hfirst := hread n s
      rw [readAll, EStateM.run_bind, List.sum_cons]
      by_cases hn : n ≤ (stream s).length
      · obtain ⟨elements, s', hrun, hs'⟩ := hreturns hn
        rw [hrun] at hfirst ⊢
        obtain ⟨hstream, hlen⟩ := hfirst
        obtain ⟨hall, hshort⟩ := ih hs'
        simp only [EStateM.run_bind, hstream, List.length_append, hlen]
        constructor
        · intro hle
          obtain ⟨blocks, s'', hrest⟩ := hall (by omega)
          exact ⟨elements :: blocks, s'', by rw [hrest]; rfl⟩
        · intro hlt
          obtain ⟨s'', hrest⟩ := hshort (by omega)
          exact ⟨s'', by rw [hrest]⟩
      · obtain ⟨s', hrun⟩ := hfails (by omega)
        rw [hrun]
        exact ⟨fun hle => absurd hle (by omega), fun _ => ⟨s', rfl⟩⟩

end Reading

/-! ## Writing -/

/-- Write until nothing of `data` is left.  A call may take nothing; every call that can be repeated
only finitely often brings the measure `left` down, and behind another one the loop does not return
(`never`). -/
def writeExact (write : List α → EStateM ε σ Nat) (left : σ → Nat) (never : ε) (data : List α)
    (s : σ) : EStateM.Result ε σ Unit :=
  if data = [] then .ok () s
  else
    match (write data).run s with
    | .ok n s' =>
        if left s' < left s then writeExact write left never (data.drop n) s' else .error never s'
    | .error e s' => .error e s'
termination_by left s

/-- Successive calls of a procedure that writes a list. -/
def writeAll (writeN : List α → EStateM ε σ Unit) : List (List α) → EStateM ε σ Unit
  | [] => pure ()
  | data :: rest => do
      writeN data
      writeAll writeN rest

section Writing

variable (sent : σ → List α)

/-- A call puts as many elements on the stream as it returns, and none when it fails. -/
def Writes (write : List α → EStateM ε σ Nat) : Prop :=
  ∀ data s, match (write data).run s with
    | .ok n s' => sent s' = sent s ++ data.take n
    | .error _ s' => sent s' = sent s

/-- A call puts the whole list on the stream, or fails behind a part of it. -/
def WritesExactly (writeN : List α → EStateM ε σ Unit) : Prop :=
  ∀ data s, match (writeN data).run s with
    | .ok _ s' => sent s' = sent s ++ data
    | .error _ s' => ∃ part, part <+: data ∧ sent s' = sent s ++ part

variable {sent} {write : List α → EStateM ε σ Nat} {writeN : List α → EStateM ε σ Unit}

section Loop

variable {left : σ → Nat} {never : ε}

theorem writeExact_nil (s : σ) : writeExact write left never [] s = .ok () s := by
  rw [writeExact, if_pos rfl]

theorem writeExact_of_ok {data : List α} {s s' : σ} {n : Nat} (hdata : data ≠ [])
    (hrun : (write data).run s = .ok n s') :
    writeExact write left never data s =
      if left s' < left s then writeExact write left never (data.drop n) s'
        else .error never s' := by
  rw [writeExact, if_neg hdata, hrun]

theorem writeExact_of_error {data : List α} {s s' : σ} {e : ε} (hdata : data ≠ [])
    (hrun : (write data).run s = .error e s') :
    writeExact write left never data s = .error e s' := by
  rw [writeExact, if_neg hdata, hrun]

theorem writeExact_sends (hwrites : Writes sent write) :
    WritesExactly sent (writeExact write left never) := by
  intro data s
  -- every iteration brings the measure down
  induction hl : left s using Nat.strongRecOn generalizing data s with
  | _ l ih =>
    subst hl
    simp only [EStateM.run] at ih ⊢
    by_cases hdata : data = []
    · subst hdata
      rw [writeExact_nil]
      exact (List.append_nil _).symm
    · have hfirst := hwrites data s
      cases hrun : (write data).run s with
      | ok n s' =>
          rw [hrun] at hfirst
          rw [writeExact_of_ok hdata hrun]
          by_cases hleft : left s' < left s
          · have hrest := ih (left s') hleft (data.drop n) s' rfl
            rw [if_pos hleft]
            cases hloop : writeExact write left never (data.drop n) s' with
            | ok u s'' =>
                rw [hloop] at hrest
                show sent s'' = sent s ++ data
                rw [hrest, hfirst, List.append_assoc, List.take_append_drop]
            | error e s'' =>
                rw [hloop] at hrest
                obtain ⟨part, ⟨after, hafter⟩, hsent⟩ := hrest
                refine ⟨data.take n ++ part, ⟨after, ?_⟩, by rw [hsent, hfirst, List.append_assoc]⟩
                rw [List.append_assoc, hafter, List.take_append_drop]
          · rw [if_neg hleft]
            exact ⟨data.take n, List.take_prefix n data, hfirst⟩
      | error e s' =>
          rw [hrun] at hfirst
          rw [writeExact_of_error hdata hrun]
          exact ⟨[], List.nil_prefix, by rw [hfirst, List.append_nil]⟩

end Loop

theorem WritesExactly.guarded {test : σ → Bool} {e : ε} (h : WritesExactly sent writeN) :
    WritesExactly sent fun data => guarded test e (writeN data) := by
  intro data s
  cases htest : test s with
  | true =>
      rw [guarded_of_true htest]
      exact h data s
  | false =>
      rw [guarded_of_false htest]
      exact ⟨[], List.nil_prefix, (List.append_nil _).symm⟩

theorem writeAll_sends (hwrites : WritesExactly sent writeN) (datas : List (List α)) (s : σ) :
    match (writeAll writeN datas).run s with
    | .ok _ s' => sent s' = sent s ++ datas.flatten
    | .error _ s' => ∃ part, part <+: datas.flatten ∧ sent s' = sent s ++ part := by
  induction datas generalizing s with
  | nil => exact (List.append_nil _).symm
  | cons data datas ih =>
      have hfirst := hwrites data s
      rw [writeAll, EStateM.run_bind, List.flatten_cons]
      cases hrun : (writeN data).run s with
      | error e s' =>
          rw [hrun] at hfirst
          obtain ⟨part, hpart, hsent⟩ := hfirst
          exact ⟨part, hpart.trans (List.prefix_append _ _), hsent⟩
      | ok u s' =>
          rw [hrun] at hfirst
          have hrest := ih s'
          simp only
          cases hall : (writeAll writeN datas).run s' with
          | ok u s'' =>
              rw [hall] at hrest
              show sent s'' = sent s ++ (data ++ datas.flatten)
              rw [hrest, hfirst, List.append_assoc]
          | error e s'' =>
              rw [hall] at hrest
              obtain ⟨part, hpart, hsent⟩ := hrest
              exact ⟨data ++ part, List.prefix_append_right_inj data |>.mpr hpart,
                by rw [hsent, hfirst, List.append_assoc]⟩

/-! ### Progress -/

/-- While a state is `ready` for a number of calls, these calls take something each. -/
structure Accepts (ready : Nat → σ → Prop) (left : σ → Nat) (write : List α → EStateM ε σ Nat) :
    Prop where
  fewer : ∀ k s, ready (k + 1) s → ready k s
  takes : ∀ data k s, data ≠ [] → ready (k + 1) s →
    ∃ n s', (write data).run s = .ok n s' ∧ 0 < n ∧ left s' < left s ∧ ready k s'

/-- A call returns when the state is ready for as many calls as there are elements. -/
def AcceptsExactly (ready : Nat → σ → Prop) (writeN : List α → EStateM ε σ Unit) : Prop :=
  ∀ data k s, ready (data.length + k) s → ∃ s', (writeN data).run s = .ok () s' ∧ ready k s'

variable {ready : Nat → σ → Prop} {left : σ → Nat}

theorem Accepts.mono (h : Accepts ready left write) {j k : Nat} (hle : j ≤ k) {s : σ}
    (hs : ready k s) : ready j s := by
  induction hle with
  | refl => exact hs
  | step _ ih => exact ih (h.fewer _ _ hs)

theorem writeExact_accepts (h : Accepts ready left write) {never : ε} :
    AcceptsExactly ready (writeExact write left never) := by
  intro data
  -- every iteration takes an element
  induction hn : data.length using Nat.strongRecOn generalizing data with
  | _ n ih =>
    intro k s hs
    by_cases hdata : data = []
    · subst hdata
      exact ⟨s, writeExact_nil s, h.mono (Nat.le_add_left k n) hs⟩
    · obtain ⟨m, rfl⟩ : ∃ m, n = m + 1 :=
        ⟨n - 1, by have := List.length_pos_iff.mpr hdata; omega⟩
      have hs' : ready (m + k + 1) s := by
        have heq : m + 1 + k = m + k + 1 := by omega
        rwa [heq] at hs
      obtain ⟨taken, s', hrun, hpos, hleft, hready⟩ := h.takes data (m + k) s hdata hs'
      have hshort : (data.drop taken).length ≤ m := by
        rw [List.length_drop]
        omega
      obtain ⟨s'', hrest, hready'⟩ :=
        ih (data.drop taken).length (by omega) (data.drop taken) rfl k s'
        (h.mono (Nat.add_le_add_right hshort k) hready)
      refine ⟨s'', ?_, hready'⟩
      show writeExact write left never data s = .ok () s''
      rw [writeExact_of_ok hdata hrun, if_pos hleft]
      exact hrest

theorem AcceptsExactly.guarded {test : σ → Bool} {e : ε} (h : AcceptsExactly ready writeN)
    (htest : ∀ k s, ready k s → test s = true) :
    AcceptsExactly ready fun data => guarded test e (writeN data) := by
  intro data k s hs
  simp only [guarded_of_true (htest _ s hs)]
  exact h data k s hs

theorem writeAll_accepts (h : AcceptsExactly ready writeN) (datas : List (List α)) {s : σ}
    (hs : ready datas.flatten.length s) : ∃ s', (writeAll writeN datas).run s = .ok () s' := by
  induction datas generalizing s with
  | nil => exact ⟨s, rfl⟩
  | cons data datas ih =>
      rw [List.flatten_cons, List.length_append] at hs
      obtain ⟨s', hrun, hs'⟩ := h data _ s hs
      obtain ⟨s'', hrest⟩ := ih hs'
      exact ⟨s'', by rw [writeAll, EStateM.run_bind, hrun]; exact hrest⟩

end Writing
end ExactTransfer
end Support
end AdvCppHW
