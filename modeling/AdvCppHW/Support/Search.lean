import Mathlib.Data.List.Infix

/-!
# First-occurrence search in a list

A serialiser that puts a delimiter between two fields and a parser that looks for the first
occurrence of that delimiter agree exactly when the delimiter occurs nowhere before the place where
the serialiser put it.  The field in front must be free of the delimiter, and the delimiter must be
`Unbordered`: a pattern that overlaps a shifted copy of itself could start inside the field and end
inside the delimiter.

* `indexOf?` is the position of the first occurrence, `findFrom` the search that starts at a given
  offset.
* `indexOf?_append` — the first occurrence in `a ++ pat ++ b` is the one after `a`.
* `append_pattern_inj` — two delimiter-free splittings of one list are the same.
* `cut` — the splitting, as a function.
-/

namespace AdvCppHW
namespace Support

variable {α : Type*}

/-- No proper suffix of the pattern is also a prefix of it. -/
def Unbordered (pat : List α) : Prop :=
  ∀ k, 0 < k → k < pat.length → ¬ pat.drop k <+: pat

theorem unbordered_singleton (a : α) : Unbordered [a] := by
  intro k hpos hlt
  simp only [List.length_singleton] at hlt
  omega

theorem unbordered_pair {a b : α} (hab : a ≠ b) : Unbordered [a, b] := by
  intro k hpos hlt
  have hk : k = 1 := by
    simp only [List.length_cons, List.length_nil] at hlt
    omega
  subst hk
  simpa using fun h : b = a => hab h.symm

/-- An occurrence of an unbordered pattern that starts in front of another one ends before that
one begins. -/
theorem not_prefix_append_of_unbordered {pat a b : List α} (hu : Unbordered pat)
    (hne : a ≠ []) (ha : ¬ pat <:+: a) : ¬ pat <+: a ++ (pat ++ b) := by
  intro hpre
  rcases Nat.lt_or_ge a.length pat.length with hlong | hshort
  · obtain ⟨r, hr⟩ : a <+: pat :=
      List.prefix_of_prefix_length_le (List.prefix_append a _) hpre hlong.le
    have hdrop : pat.drop a.length = r := by rw [← hr, List.drop_left]
    have hrest : r <+: pat ++ b := by
      rw [← hr, List.prefix_append_right_inj, hr] at hpre
      exact hpre
    have hlen : r.length ≤ pat.length := by
      rw [← hdrop, List.length_drop]
      exact Nat.sub_le _ _
    refine hu a.length (List.length_pos_iff.mpr hne) hlong ?_
    rw [hdrop]
    exact List.prefix_of_prefix_length_le hrest (List.prefix_append pat b) hlen
  · exact ha (List.prefix_of_prefix_length_le hpre (List.prefix_append a _) hshort).isInfix

/-- A non-empty pattern that does not use the element `c` lies on one side of it. -/
theorem infix_append_cons {pat a b : List α} {c : α} (hne : pat ≠ []) (hc : c ∉ pat)
    (h : pat <:+: a ++ c :: b) : pat <:+: a ∨ pat <:+: b := by
  obtain ⟨s, t, hst⟩ := h
  rw [List.append_assoc] at hst
  rcases List.append_eq_append_iff.mp hst with ⟨u, ha, hu⟩ | ⟨u, hs, hu⟩
  · -- the occurrence starts inside `a`
    rcases List.append_eq_append_iff.mp hu with ⟨w, hw, -⟩ | ⟨w, hpat, hw⟩
    · exact Or.inl ⟨s, w, by rw [List.append_assoc, ← hw, ha]⟩
    · cases w with
      | nil => exact Or.inl ⟨s, [], by simpa [hpat] using ha.symm⟩
      | cons d w =>
          obtain ⟨rfl, -⟩ := List.cons.inj hw
          exact absurd (hpat ▸ by simp) hc
  · cases u with
    | nil =>
        cases pat with
        | nil => exact absurd rfl hne
        | cons d pat =>
            obtain ⟨rfl, -⟩ := List.cons.inj hu
            exact absurd List.mem_cons_self hc
    | cons d u =>
        obtain ⟨-, hb⟩ := List.cons.inj hu
        exact Or.inr ⟨u, t, (List.append_assoc u pat t).trans hb.symm⟩

variable [DecidableEq α]

/-- Position of the first occurrence of `pat`. -/
def indexOf? (pat : List α) : List α → Option Nat
  | [] => if pat = [] then some 0 else none
  | a :: s => if pat <+: a :: s then some 0 else (indexOf? pat s).map (· + 1)

/-- Position of the first occurrence of `pat` that starts at `pos` or later. -/
def findFrom (pat s : List α) (pos : Nat) : Option Nat :=
  if pos ≤ s.length then (indexOf? pat (s.drop pos)).map (· + pos) else none

/-- The search stops at the delimiter that follows a delimiter-free field. -/
theorem indexOf?_append {pat : List α} (hu : Unbordered pat) (a b : List α)
    (ha : ¬ pat <:+: a) : indexOf? pat (a ++ (pat ++ b)) = some a.length := by
  induction a with
  | nil =>
      cases hs : pat ++ b with
      | nil =>
          have hpat : pat = [] := (List.append_eq_nil_iff.mp hs).1
          simp [indexOf?, hpat]
      | cons c s =>
          have hpre : pat <+: c :: s := hs ▸ List.prefix_append pat b
          simp [indexOf?, hpre]
  | cons c a ih =>
      have hhead : ¬ pat <+: c :: a ++ (pat ++ b) :=
        not_prefix_append_of_unbordered hu (List.cons_ne_nil c a) ha
      have htail : ¬ pat <:+: a := fun h => ha (h.trans (List.suffix_cons c a).isInfix)
      rw [List.cons_append] at hhead ⊢
      rw [indexOf?, if_neg hhead, ih htail]
      rfl

/-- The first occurrence is not behind any other. -/
theorem indexOf?_le {pat a b : List α} {i : Nat} (h : indexOf? pat (a ++ (pat ++ b)) = some i) :
    i ≤ a.length := by
  induction a generalizing i with
  | nil =>
      have hzero : indexOf? pat (pat ++ b) = some 0 := by
        cases hs : pat ++ b with
        | nil => simp [indexOf?, (List.append_eq_nil_iff.mp hs).1]
        | cons x s =>
            have hpre : pat <+: x :: s := hs ▸ List.prefix_append pat b
            simp [indexOf?, hpre]
      rw [List.nil_append, hzero] at h
      cases h
      rfl
  | cons x a ih =>
      rw [List.cons_append, indexOf?] at h
      split at h
      · cases h
        exact Nat.zero_le _
      · obtain ⟨j, hj, rfl⟩ := Option.map_eq_some_iff.mp h
        exact Nat.succ_le_succ (ih hj)

/-- A successful search splits the list around the first occurrence. -/
theorem indexOf?_eq_some {pat s : List α} {i : Nat} (h : indexOf? pat s = some i) :
    ∃ b, s = s.take i ++ (pat ++ b) ∧ i ≤ s.length ∧ (pat ≠ [] → ¬ pat <:+: s.take i) := by
  induction s generalizing i with
  | nil =>
      by_cases hpat : pat = []
      · simp only [indexOf?, hpat, if_true, Option.some.injEq] at h
        subst h
        exact ⟨[], by simp [hpat], le_rfl, fun hne => absurd hpat hne⟩
      · simp [indexOf?, hpat] at h
  | cons a s ih =>
      by_cases hpre : pat <+: a :: s
      · simp only [indexOf?, hpre, if_true, Option.some.injEq] at h
        subst h
        obtain ⟨b, hb⟩ := hpre
        exact ⟨b, by simp [hb], Nat.zero_le _, fun hne hin => hne (by simpa using hin)⟩
      · simp only [indexOf?, hpre, if_false, Option.map_eq_some_iff] at h
        obtain ⟨j, hj, rfl⟩ := h
        obtain ⟨b, hb, hle, hfree⟩ := ih hj
        refine ⟨b, ?_, by simpa using hle, ?_⟩
        · rw [List.take_succ_cons, List.cons_append, ← hb]
        · intro hne hin
          rw [List.take_succ_cons, List.infix_cons_iff] at hin
          rcases hin with hin | hin
          · exact hpre (hin.trans (List.prefix_cons_inj a |>.mpr (List.take_prefix j s)))
          · exact hfree hne hin

theorem indexOf?_eq_none {pat s : List α} (h : indexOf? pat s = none) : ¬ pat <:+: s := by
  induction s with
  | nil =>
      intro hin
      simp [indexOf?, List.eq_nil_of_infix_nil hin] at h
  | cons a s ih =>
      by_cases hpre : pat <+: a :: s
      · simp [indexOf?, hpre] at h
      · simp only [indexOf?, hpre, if_false, Option.map_eq_none_iff] at h
        intro hin
        rcases List.infix_cons_iff.mp hin with hin | hin
        · exact hpre hin
        · exact ih h hin

theorem indexOf?_of_not_infix {pat s : List α} (h : ¬ pat <:+: s) : indexOf? pat s = none := by
  cases hi : indexOf? pat s with
  | none => rfl
  | some i =>
      obtain ⟨b, hb, -, -⟩ := indexOf?_eq_some hi
      exact absurd ⟨s.take i, b, by rw [List.append_assoc]; exact hb.symm⟩ h

/-- A list is cut at the first occurrence of a pattern, or does not contain it. -/
theorem exists_split_or_none (pat : List α) (hpat : pat ≠ []) (s : List α) :
    (∃ a b, s = a ++ (pat ++ b) ∧ ¬ pat <:+: a) ∨ ¬ pat <:+: s := by
  cases hi : indexOf? pat s with
  | none => exact Or.inr (indexOf?_eq_none hi)
  | some i =>
      obtain ⟨b, hs, -, hfree⟩ := indexOf?_eq_some hi
      exact Or.inl ⟨s.take i, b, hs, hfree hpat⟩

/-- Two splittings of one list at a delimiter that neither front part contains are the same. -/
theorem append_pattern_inj {pat a b a' b' : List α} (hu : Unbordered pat)
    (ha : ¬ pat <:+: a) (ha' : ¬ pat <:+: a')
    (h : a ++ (pat ++ b) = a' ++ (pat ++ b')) : a = a' ∧ b = b' := by
  have hlen : a.length = a'.length := by
    have hi := indexOf?_append hu a b ha
    rw [h, indexOf?_append hu a' b' ha'] at hi
    exact (Option.some.inj hi).symm
  obtain ⟨hfront, hback⟩ := List.append_inj h hlen
  exact ⟨hfront, List.append_cancel_left hback⟩

omit [DecidableEq α] in
/-- Where a delimiter occurs, it occurs for the first time, with everything
behind it still behind it. -/
theorem exists_first_split (a : List α) (c : α) (z : List α) :
    ∃ m p, a ++ c :: z = m ++ c :: (p ++ z) ∧ c ∉ m := by
  induction a with
  | nil => exact ⟨[], [], rfl, List.not_mem_nil⟩
  | cons x a ih =>
      by_cases hx : x = c
      · exact ⟨[], a ++ [c], by simp [hx], List.not_mem_nil⟩
      · obtain ⟨m, p, heq, hm⟩ := ih
        refine ⟨x :: m, p, by simp [heq], ?_⟩
        simp [hm, Ne.symm hx]

/-! ## Cutting -/

/-- The parts in front of and behind the first occurrence of `pat`. -/
def cut (pat s : List α) : Option (List α × List α) :=
  (indexOf? pat s).map fun i => (s.take i, s.drop (i + pat.length))

theorem cut_append {pat : List α} (hu : Unbordered pat) (a b : List α) (ha : ¬ pat <:+: a) :
    cut pat (a ++ (pat ++ b)) = some (a, b) := by
  have hdrop : (a ++ (pat ++ b)).drop (a.length + pat.length) = b := by
    rw [← List.append_assoc, ← List.length_append, List.drop_left]
  rw [cut, indexOf?_append hu a b ha, Option.map_some, List.take_left, hdrop]

theorem cut_of_notIn {pat s : List α} (h : ¬ pat <:+: s) : cut pat s = none := by
  rw [cut, indexOf?_of_not_infix h]
  rfl

theorem cut_eq_some {pat s a b : List α} (hpat : pat ≠ []) (h : cut pat s = some (a, b)) :
    s = a ++ (pat ++ b) ∧ ¬ pat <:+: a := by
  obtain ⟨i, hi, hab⟩ := Option.map_eq_some_iff.mp h
  obtain ⟨c, hs, hle, hfree⟩ := indexOf?_eq_some hi
  have hback : s.drop (i + pat.length) = c := by
    rw [← List.drop_drop]
    have hjoined : s.take i ++ s.drop i = s.take i ++ (pat ++ c) := by
      rw [List.take_append_drop]
      exact hs
    have hskip : s.drop i = pat ++ c := List.append_cancel_left hjoined
    rw [hskip, List.drop_left]
  cases hab
  rw [hback]
  exact ⟨hs, hfree hpat⟩

omit [DecidableEq α] in
/-- Of two different delimiters in one list one is in front of the other. -/
theorem append_cons_cases {u w a b : List α} {c d : α} (hne : c ≠ d)
    (h : u ++ c :: w = a ++ d :: b) :
    (∃ v, a = u ++ c :: v ∧ w = v ++ d :: b) ∨ ∃ v, u = a ++ d :: v ∧ b = v ++ c :: w := by
  rcases List.append_eq_append_iff.mp h with ⟨v, ha, hw⟩ | ⟨v, hu, hb⟩
  · cases v with
    | nil => exact absurd (List.cons.inj hw).1 hne
    | cons x v =>
        obtain ⟨rfl, rfl⟩ := List.cons.inj hw
        exact Or.inl ⟨v, ha, rfl⟩
  · cases v with
    | nil => exact absurd (List.cons.inj hb).1.symm hne
    | cons x v =>
        obtain ⟨rfl, rfl⟩ := List.cons.inj hb
        exact Or.inr ⟨v, hu, rfl⟩

/-! ## Searching from an offset -/

/-- Skipping a prefix whose length is the offset, the search sees what follows the prefix. -/
theorem findFrom_append {pat : List α} (hu : Unbordered pat) (p a b : List α)
    (ha : ¬ pat <:+: a) :
    findFrom pat (p ++ (a ++ (pat ++ b))) p.length = some (p.length + a.length) := by
  rw [findFrom, if_pos (by simp), List.drop_left, indexOf?_append hu a b ha]
  simp [Nat.add_comm]

theorem findFrom_eq_some {pat s : List α} {pos e : Nat} (h : findFrom pat s pos = some e) :
    ∃ a b, s = s.take pos ++ (a ++ (pat ++ b)) ∧ pos ≤ s.length ∧ e = pos + a.length ∧
      (pat ≠ [] → ¬ pat <:+: a) := by
  unfold findFrom at h
  split at h
  · next hpos =>
      obtain ⟨i, hi, rfl⟩ := Option.map_eq_some_iff.mp h
      obtain ⟨b, hb, hle, hfree⟩ := indexOf?_eq_some hi
      refine ⟨(s.drop pos).take i, b, ?_, hpos, ?_, hfree⟩
      · rw [← hb, List.take_append_drop]
      · rw [List.length_take, Nat.min_eq_left hle, Nat.add_comm]
  · cases h

end Support
end AdvCppHW
