import Mathlib.Data.List.Sort
import Mathlib.Data.List.Lex
import Mathlib.Algebra.BigOperators.Group.List.Basic
import Mathlib.Algebra.Ring.Nat

/-!
# Ordered maps as strictly sorted association lists

A map iterated in key order is a list of pairs with strictly increasing keys.  The order is a field
of the structure, so that two maps with the same look-ups have the same entries and iterating a map
and rebuilding it gives the map back (`ofEntries_entries`).
-/

namespace AdvCppHW
namespace Support

/-- Finite map from `κ` to `ν`, entries in strictly increasing key order. -/
structure OrdMap (κ ν : Type*) [LinearOrder κ] where
  entries : List (κ × ν)
  sorted : entries.Pairwise fun a b => a.1 < b.1
deriving DecidableEq

namespace OrdMap

variable {κ ν : Type*} [LinearOrder κ]

/-! ## The operations on entry lists -/

/-- Value of the first entry with key `k`. -/
def lookupEntries (k : κ) : List (κ × ν) → Option ν
  | [] => none
  | (k', v') :: rest => if k = k' then some v' else lookupEntries k rest

/-- Put `(k, v)` at the place of `k`, replacing an entry that has this key. -/
def assignEntries (k : κ) (v : ν) : List (κ × ν) → List (κ × ν)
  | [] => [(k, v)]
  | (k', v') :: rest =>
      if k < k' then (k, v) :: (k', v') :: rest
      else if k = k' then (k, v) :: rest
      else (k', v') :: assignEntries k v rest

theorem mem_assignEntries {k : κ} {v : ν} {es : List (κ × ν)} {e : κ × ν}
    (h : e ∈ assignEntries k v es) : e = (k, v) ∨ e ∈ es := by
  induction es with
  | nil => simpa [assignEntries] using h
  | cons e' rest ih =>
      obtain ⟨k', v'⟩ := e'
      unfold assignEntries at h
      split at h
      · simpa using h
      · split at h
        · rcases List.mem_cons.mp h with rfl | h
          · exact Or.inl rfl
          · exact Or.inr (List.mem_cons_of_mem _ h)
        · rcases List.mem_cons.mp h with rfl | h
          · exact Or.inr List.mem_cons_self
          · exact (ih h).imp id (List.mem_cons_of_mem _)

theorem assignEntries_sorted (k : κ) (v : ν) {es : List (κ × ν)}
    (hs : es.Pairwise fun a b => a.1 < b.1) :
    (assignEntries k v es).Pairwise fun a b => a.1 < b.1 := by
  induction es with
  | nil => simp [assignEntries]
  | cons e' rest ih =>
      obtain ⟨k', v'⟩ := e'
      obtain ⟨hhead, htail⟩ := List.pairwise_cons.mp hs
      unfold assignEntries
      split
      · next hlt =>
          refine List.pairwise_cons.mpr ⟨?_, hs⟩
          intro e he
          rcases List.mem_cons.mp he with rfl | he
          · exact hlt
          · exact hlt.trans (hhead e he)
      · next hnlt =>
          split
          · next heq =>
              subst heq
              exact List.pairwise_cons.mpr ⟨hhead, htail⟩
          · next hne =>
              refine List.pairwise_cons.mpr ⟨?_, ih htail⟩
              intro e he
              rcases mem_assignEntries he with rfl | he
              · exact lt_of_le_of_ne (not_lt.mp hnlt) (Ne.symm hne)
              · exact hhead e he

theorem lookupEntries_assignEntries_self (k : κ) (v : ν) (es : List (κ × ν)) :
    lookupEntries k (assignEntries k v es) = some v := by
  induction es with
  | nil => simp [assignEntries, lookupEntries]
  | cons e' rest ih =>
      obtain ⟨k', v'⟩ := e'
      unfold assignEntries
      split
      · simp [lookupEntries]
      · split
        · simp [lookupEntries]
        · next hne => simp [lookupEntries, hne, ih]

theorem lookupEntries_assignEntries_ne {k j : κ} (hjk : j ≠ k) (v : ν) (es : List (κ × ν)) :
    lookupEntries j (assignEntries k v es) = lookupEntries j es := by
  induction es with
  | nil => simp [assignEntries, lookupEntries, hjk]
  | cons e' rest ih =>
      obtain ⟨k', v'⟩ := e'
      unfold assignEntries
      split
      · simp [lookupEntries, hjk]
      · split
        · next heq => simp [lookupEntries, heq ▸ hjk, hjk]
        · simp [lookupEntries, ih]

/-- A key past every key of the list goes to the end. -/
theorem assignEntries_of_forall_lt {k : κ} {es : List (κ × ν)} (v : ν)
    (h : ∀ e ∈ es, e.1 < k) : assignEntries k v es = es ++ [(k, v)] := by
  induction es with
  | nil => rfl
  | cons e' rest ih =>
      obtain ⟨k', v'⟩ := e'
      have hlt : k' < k := h (k', v') List.mem_cons_self
      have hrest := ih fun e he => h e (List.mem_cons_of_mem _ he)
      simp [assignEntries, hlt.not_gt, hlt.ne', hrest]

theorem sum_assignEntries_le (f : κ × ν → Nat) (k : κ) (v : ν) (es : List (κ × ν)) :
    ((assignEntries k v es).map f).sum ≤ (es.map f).sum + f (k, v) := by
  induction es with
  | nil => simp [assignEntries]
  | cons e' rest ih =>
      obtain ⟨k', v'⟩ := e'
      unfold assignEntries
      split
      · simp only [List.map_cons, List.sum_cons]
        omega
      · split
        · simp only [List.map_cons, List.sum_cons]
          omega
        · simp only [List.map_cons, List.sum_cons]
          omega

/-! ## The map operations -/

/-- The map without entries. -/
def empty : OrdMap κ ν := ⟨[], List.Pairwise.nil⟩

instance : Inhabited (OrdMap κ ν) := ⟨empty⟩

/-- The value stored under `k`. -/
def lookup (m : OrdMap κ ν) (k : κ) : Option ν := lookupEntries k m.entries

/-- Store `v` under `k`, whether or not `k` has a value already. -/
def assign (m : OrdMap κ ν) (k : κ) (v : ν) : OrdMap κ ν :=
  ⟨assignEntries k v m.entries, assignEntries_sorted k v m.sorted⟩

/-- Store `v` under `k` unless `k` has a value already. -/
def insertNew (m : OrdMap κ ν) (k : κ) (v : ν) : OrdMap κ ν :=
  match m.lookup k with
  | some _ => m
  | none => m.assign k v

/-- Remove the entry of `k`, if there is one. -/
def erase (m : OrdMap κ ν) (k : κ) : OrdMap κ ν :=
  ⟨m.entries.filter fun e => e.1 ≠ k, m.sorted.filter _⟩

/-- Store the pairs one after another, later values replacing earlier ones. -/
def assignAll (m : OrdMap κ ν) (es : List (κ × ν)) : OrdMap κ ν :=
  es.foldl (fun m e => m.assign e.1 e.2) m

@[ext]
theorem ext {m m' : OrdMap κ ν} (h : m.entries = m'.entries) : m = m' := by
  cases m
  cases m'
  simpa using h

@[simp] theorem entries_empty : (empty : OrdMap κ ν).entries = [] := rfl

@[simp] theorem lookup_empty (k : κ) : (empty : OrdMap κ ν).lookup k = none := rfl

@[simp] theorem lookup_assign_self (m : OrdMap κ ν) (k : κ) (v : ν) :
    (m.assign k v).lookup k = some v :=
  lookupEntries_assignEntries_self k v m.entries

theorem lookup_assign_ne (m : OrdMap κ ν) {k j : κ} (hjk : j ≠ k) (v : ν) :
    (m.assign k v).lookup j = m.lookup j :=
  lookupEntries_assignEntries_ne hjk v m.entries

theorem mem_entries_assign {m : OrdMap κ ν} {k : κ} {v : ν} {e : κ × ν}
    (h : e ∈ (m.assign k v).entries) : e = (k, v) ∨ e ∈ m.entries :=
  mem_assignEntries h

@[simp] theorem assignAll_nil (m : OrdMap κ ν) : m.assignAll [] = m := rfl

@[simp] theorem assignAll_cons (m : OrdMap κ ν) (e : κ × ν) (es : List (κ × ν)) :
    m.assignAll (e :: es) = (m.assign e.1 e.2).assignAll es := rfl

/-- Pairs whose keys increase past every key of the map are appended to its entries. -/
theorem entries_assignAll {es : List (κ × ν)} {m : OrdMap κ ν}
    (hs : (m.entries ++ es).Pairwise fun a b => a.1 < b.1) :
    (m.assignAll es).entries = m.entries ++ es := by
  induction es generalizing m with
  | nil => simp
  | cons e es ih =>
      have hlt : ∀ a ∈ m.entries, a.1 < e.1 := fun a ha =>
        (List.pairwise_append.mp hs).2.2 a ha e List.mem_cons_self
      have hassign : (m.assign e.1 e.2).entries = m.entries ++ [e] :=
        assignEntries_of_forall_lt e.2 hlt
      rw [assignAll_cons, ih, hassign, List.append_assoc, List.singleton_append]
      rw [hassign, List.append_assoc, List.singleton_append]
      exact hs

/-- Entries are only added by the pairs that are assigned. -/
theorem mem_entries_assignAll {es : List (κ × ν)} {m : OrdMap κ ν} {e : κ × ν}
    (h : e ∈ (m.assignAll es).entries) : e ∈ es ∨ e ∈ m.entries := by
  induction es generalizing m with
  | nil => exact Or.inr h
  | cons p es ih =>
      rw [assignAll_cons] at h
      rcases ih h with hmem | hmem
      · exact Or.inl (List.mem_cons_of_mem p hmem)
      · rcases mem_entries_assign hmem with rfl | hmem
        · exact Or.inl List.mem_cons_self
        · exact Or.inr hmem

/-- Of several values for one key the last one stays. -/
theorem lookup_assignAll [DecidableEq κ] (m : OrdMap κ ν) (es : List (κ × ν)) (k : κ) :
    (m.assignAll es).lookup k =
      match es.reverse.find? fun e => e.1 = k with
      | some e => some e.2
      | none => m.lookup k := by
  induction es generalizing m with
  | nil => rfl
  | cons e es ih =>
      obtain ⟨k', v'⟩ := e
      rw [assignAll_cons, ih, List.reverse_cons, List.find?_append]
      cases es.reverse.find? fun e => e.1 = k with
      | some e => rfl
      | none =>
          by_cases hk : k' = k
          · subst hk
            simp
          · simp [hk, lookup_assign_ne m (Ne.symm hk)]

/-- Iterating a map and storing its entries into an empty one gives the map back. -/
theorem ofEntries_entries (m : OrdMap κ ν) : empty.assignAll m.entries = m :=
  OrdMap.ext (entries_assignAll (by simpa using m.sorted))

theorem lookup_eq_some_of_mem {m : OrdMap κ ν} {k : κ} {v : ν} (h : (k, v) ∈ m.entries) :
    m.lookup k = some v := by
  obtain ⟨es, hs⟩ := m
  show lookupEntries k es = some v
  replace h : (k, v) ∈ es := h
  induction es with
  | nil => cases h
  | cons e rest ih =>
      obtain ⟨hhead, htail⟩ := List.pairwise_cons.mp hs
      rcases List.mem_cons.mp h with rfl | h
      · simp [lookupEntries]
      · have hne : k ≠ e.1 := (hhead (k, v) h).ne'
        simpa [lookupEntries, hne] using ih htail h

theorem mem_of_lookup_eq_some {m : OrdMap κ ν} {k : κ} {v : ν} (h : m.lookup k = some v) :
    (k, v) ∈ m.entries := by
  obtain ⟨es, hs⟩ := m
  replace h : lookupEntries k es = some v := h
  show (k, v) ∈ es
  clear hs
  induction es with
  | nil => cases h
  | cons e rest ih =>
      obtain ⟨k', v'⟩ := e
      unfold lookupEntries at h
      split at h
      · next heq =>
          cases h
          exact heq ▸ List.mem_cons_self
      · exact List.mem_cons_of_mem _ (ih h)

/-! ## Keys -/

/-- `k ∈ m`: there is an entry with key `k`. -/
instance : Membership κ (OrdMap κ ν) := ⟨fun m k => m.lookup k ≠ none⟩

instance (k : κ) (m : OrdMap κ ν) : Decidable (k ∈ m) :=
  inferInstanceAs (Decidable (m.lookup k ≠ none))

theorem mem_iff {m : OrdMap κ ν} {k : κ} : k ∈ m ↔ ∃ v, m.lookup k = some v :=
  Option.ne_none_iff_exists'

theorem mem_of_lookup {m : OrdMap κ ν} {k : κ} {v : ν} (h : m.lookup k = some v) : k ∈ m :=
  mem_iff.mpr ⟨v, h⟩

theorem notMem_iff {m : OrdMap κ ν} {k : κ} : k ∉ m ↔ m.lookup k = none := Classical.not_not

theorem lookup_eq_some_iff {m : OrdMap κ ν} {k : κ} {v : ν} :
    m.lookup k = some v ↔ (k, v) ∈ m.entries :=
  ⟨mem_of_lookup_eq_some, lookup_eq_some_of_mem⟩

theorem mem_assign {m : OrdMap κ ν} {k j : κ} {v : ν} : j ∈ m.assign k v ↔ j = k ∨ j ∈ m := by
  rw [mem_iff, mem_iff]
  by_cases hjk : j = k
  · simp [hjk]
  · simp [lookup_assign_ne m hjk, hjk]

theorem lookup_erase_eq_some {m : OrdMap κ ν} {k j : κ} {v : ν} :
    (m.erase k).lookup j = some v ↔ j ≠ k ∧ m.lookup j = some v := by
  simp only [lookup_eq_some_iff, erase, List.mem_filter, decide_eq_true_eq]
  exact and_comm

@[simp] theorem lookup_erase_self (m : OrdMap κ ν) (k : κ) : (m.erase k).lookup k = none := by
  rw [Option.eq_none_iff_forall_not_mem]
  intro v hv
  exact (lookup_erase_eq_some.mp hv).1 rfl

theorem lookup_erase_ne (m : OrdMap κ ν) {k j : κ} (hjk : j ≠ k) :
    (m.erase k).lookup j = m.lookup j := by
  ext v
  exact lookup_erase_eq_some.trans (and_iff_right hjk)

theorem mem_erase {m : OrdMap κ ν} {k j : κ} : j ∈ m.erase k ↔ j ≠ k ∧ j ∈ m := by
  simp only [mem_iff, lookup_erase_eq_some, exists_and_left]

theorem insertNew_of_notMem {m : OrdMap κ ν} {k : κ} (h : k ∉ m) (v : ν) :
    m.insertNew k v = m.assign k v := by
  simp [insertNew, notMem_iff.mp h]

theorem insertNew_of_mem {m : OrdMap κ ν} {k : κ} (h : k ∈ m) (v : ν) : m.insertNew k v = m := by
  obtain ⟨v', hv'⟩ := mem_iff.mp h
  simp [insertNew, hv']

/-- Only a key without a value gets the new one. -/
theorem lookup_insertNew (m : OrdMap κ ν) (k j : κ) (v : ν) :
    (m.insertNew k v).lookup j = (m.lookup j).or (if j = k then some v else none) := by
  by_cases hmem : k ∈ m
  · rw [insertNew_of_mem hmem]
    split
    · next heq =>
        obtain ⟨v', hv'⟩ := mem_iff.mp (heq ▸ hmem)
        simp [hv']
    · simp
  · rw [insertNew_of_notMem hmem]
    split
    · next heq => simp [heq, notMem_iff.mp hmem]
    · next hne => simp [lookup_assign_ne m hne]

/-- Maps with the same look-ups are the same. -/
theorem ext_lookup {m m' : OrdMap κ ν} (h : ∀ k, m.lookup k = m'.lookup k) : m = m' := by
  have hnodup : ∀ m : OrdMap κ ν, m.entries.Nodup := by
    intro m
    apply m.sorted.imp
    rintro a b hlt rfl
    exact lt_irrefl a.1 hlt
  have hperm : m.entries.Perm m'.entries := by
    apply (List.perm_ext_iff_of_nodup (hnodup m) (hnodup m')).mpr
    rintro ⟨k, v⟩
    rw [← lookup_eq_some_iff, ← lookup_eq_some_iff, h k]
  ext1
  exact hperm.eq_of_pairwise (fun a b _ _ hab hba => absurd hab hba.asymm) m.sorted m'.sorted

/-- The last of the values that a list of pairs has for a key. -/
def lastValue [DecidableEq κ] (es : List (κ × ν)) (k : κ) : Option ν :=
  (es.reverse.find? fun e => e.1 = k).map Prod.snd

theorem lookup_assignAll_eq [DecidableEq κ] (m : OrdMap κ ν) (es : List (κ × ν)) (k : κ) :
    (m.assignAll es).lookup k = (lastValue es k).or (m.lookup k) := by
  rw [lookup_assignAll, lastValue]
  cases es.reverse.find? fun e => e.1 = k with
  | none => rfl
  | some e => rfl

omit [LinearOrder κ] in
theorem lastValue_eq_none_iff [DecidableEq κ] {es : List (κ × ν)} {k : κ} :
    lastValue es k = none ↔ ∀ v, (k, v) ∉ es := by
  simp only [lastValue, Option.map_eq_none_iff, List.find?_eq_none, List.mem_reverse,
    decide_eq_true_eq]
  constructor
  · intro h v hmem
    exact h (k, v) hmem rfl
  · rintro h ⟨k', v⟩ hmem rfl
    exact h v hmem

omit [LinearOrder κ] in
theorem mem_of_lastValue [DecidableEq κ] {es : List (κ × ν)} {k : κ} {v : ν}
    (h : lastValue es k = some v) : (k, v) ∈ es := by
  obtain ⟨⟨k', v'⟩, hfind, rfl⟩ := Option.map_eq_some_iff.mp h
  have hkey := List.find?_some hfind
  have hmem := List.mem_of_find?_eq_some hfind
  simp only [decide_eq_true_eq] at hkey
  subst hkey
  exact List.mem_reverse.mp hmem

/-- Storing pairs changes nothing where the map has the last of their values already. -/
theorem assignAll_eq_self_iff [DecidableEq κ] {m : OrdMap κ ν} {es : List (κ × ν)} :
    m.assignAll es = m ↔ ∀ k v, lastValue es k = some v → m.lookup k = some v := by
  constructor
  · intro h k v hv
    rw [← h, lookup_assignAll_eq, hv]
    rfl
  · intro h
    apply ext_lookup
    intro k
    rw [lookup_assignAll_eq]
    cases hv : lastValue es k with
    | none => rfl
    | some v => exact (h k v hv).symm

/-- Erasing the first entry leaves the others. -/
theorem entries_erase_head {m : OrdMap κ ν} {k : κ} {v : ν} {rest : List (κ × ν)}
    (h : m.entries = (k, v) :: rest) : (m.erase k).entries = rest := by
  have hhead := (List.pairwise_cons.mp (h ▸ m.sorted)).1
  show m.entries.filter (fun e => decide (e.1 ≠ k)) = rest
  rw [h, List.filter_cons_of_neg (by simp)]
  exact List.filter_eq_self.mpr fun e he => decide_eq_true (hhead e he).ne'

/-- No entry lies before the first one. -/
theorem filter_le_head {m : OrdMap κ ν} {k : κ} {v : ν} {rest : List (κ × ν)}
    (h : m.entries = (k, v) :: rest) :
    m.entries.filter (fun e => decide (k ≤ e.1)) = m.entries := by
  have hhead := (List.pairwise_cons.mp (h ▸ m.sorted)).1
  rw [List.filter_eq_self]
  intro e he
  rw [h] at he
  rcases List.mem_cons.mp he with rfl | he
  · exact decide_eq_true le_rfl
  · exact decide_eq_true (hhead e he).le

/-- Storing pairs never makes the map larger than what was stored, in any measure of entries. -/
theorem sum_assignAll_le (f : κ × ν → Nat) (m : OrdMap κ ν) (es : List (κ × ν)) :
    ((m.assignAll es).entries.map f).sum ≤ (m.entries.map f).sum + (es.map f).sum := by
  induction es generalizing m with
  | nil => simp
  | cons e es ih =>
      have hrest := ih (m.assign e.1 e.2)
      have hstep : ((m.assign e.1 e.2).entries.map f).sum ≤ (m.entries.map f).sum + f e :=
        sum_assignEntries_le f e.1 e.2 m.entries
      rw [assignAll_cons, List.map_cons, List.sum_cons]
      omega

end OrdMap
end Support
end AdvCppHW
