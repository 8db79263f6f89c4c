import AdvCppHW.Support.AssocList

/-!
# Bounded caches ordered by recency

The reference for a least-recently-used cache: an association list of bounded length, the entry used
last at its head.  That keys are distinct and the bound holds is part of the type.

`Included` relates two caches of different capacities that have seen the same calls: the entries of
the smaller one occur in the larger one in the same order, and the larger one has at most as many
more as it has more room.  Every call keeps the relation.
-/

namespace AdvCppHW
namespace Support

universe u v

/-- An association list with distinct keys and at most `capacity` entries, the most recent first. -/
structure RecencyCache (κ : Type u) (ν : Type v) (capacity : Nat) where
  entries : List (κ × ν)
  nodup : (entries.map Prod.fst).Nodup
  length_le : entries.length ≤ capacity

namespace RecencyCache

open AssocList

variable {κ : Type u} {ν : Type v} {capacity : Nat} [DecidableEq κ]

def empty : RecencyCache κ ν capacity := ⟨[], by simp, Nat.zero_le _⟩

/-- The value under a key.  A hit makes the key the most recent. -/
def get (c : RecencyCache κ ν capacity) (key : κ) : Option ν × RecencyCache κ ν capacity :=
  match h : c.entries.lookup key with
  | none => (none, c)
  | some v =>
      (some v,
        { entries := (key, v) :: others key c.entries
          nodup := List.nodup_cons.mpr ⟨notMem_others key c.entries, others_nodup c.nodup⟩
          length_le := Nat.lt_of_lt_of_le (length_others_lt (mem_keys_of_lookup h)) c.length_le })

/-- Put a value under a key and make it the most recent.  A key that is present makes no entry
leave; a new one makes the least recent leave a full cache. -/
def add (hcapacity : 0 < capacity) (c : RecencyCache κ ν capacity) (key : κ) (v : ν) :
    RecencyCache κ ν capacity :=
  if hmem : key ∈ c.entries.map Prod.fst then
    { entries := (key, v) :: others key c.entries
      nodup := List.nodup_cons.mpr ⟨notMem_others key c.entries, others_nodup c.nodup⟩
      length_le := Nat.lt_of_lt_of_le (length_others_lt hmem) c.length_le }
  else if hfull : c.entries.length = capacity then
    { entries := (key, v) :: c.entries.dropLast
      nodup := List.nodup_cons.mpr
        ⟨fun h => hmem (((List.dropLast_sublist _).map Prod.fst).subset h),
          c.nodup.sublist ((List.dropLast_sublist _).map Prod.fst)⟩
      length_le := by simp; omega }
  else
    { entries := (key, v) :: c.entries
      nodup := List.nodup_cons.mpr ⟨hmem, c.nodup⟩
      length_le := Nat.lt_of_le_of_ne c.length_le hfull }

def remove (c : RecencyCache κ ν capacity) (key : κ) : RecencyCache κ ν capacity where
  entries := others key c.entries
  nodup := others_nodup c.nodup
  length_le := Nat.le_trans (length_others_le key c.entries) c.length_le

theorem get_of_none {c : RecencyCache κ ν capacity} {key : κ} (h : c.entries.lookup key = none) :
    c.get key = (none, c) := by
  unfold get
  split
  · rfl
  · next v hv =>
      rw [h] at hv
      cases hv

theorem get_of_some {c : RecencyCache κ ν capacity} {key : κ} {v : ν}
    (h : c.entries.lookup key = some v) :
    (c.get key).1 = some v ∧ (c.get key).2.entries = (key, v) :: others key c.entries := by
  unfold get
  split
  · next hnone =>
      rw [h] at hnone
      cases hnone
  · next w hw =>
      rw [h] at hw
      cases hw
      exact ⟨rfl, rfl⟩

/-- `add` in one formula: the other entries, without the last if they fill the cache. -/
theorem entries_add (hcapacity : 0 < capacity) (c : RecencyCache κ ν capacity) (key : κ) (v : ν) :
    (add hcapacity c key v).entries =
      (key, v) :: if (others key c.entries).length ≥ capacity then (others key c.entries).dropLast
        else others key c.entries := by
  unfold add
  by_cases hmem : key ∈ c.entries.map Prod.fst
  · have hroom : ¬ (others key c.entries).length ≥ capacity :=
      Nat.not_le_of_lt (Nat.lt_of_lt_of_le (length_others_lt hmem) c.length_le)
    rw [dif_pos hmem, if_neg hroom]
  · rw [dif_neg hmem, others_of_notMem hmem]
    by_cases hfull : c.entries.length = capacity
    · rw [dif_pos hfull, if_pos (Nat.le_of_eq hfull.symm)]
    · have hroom : ¬ c.entries.length ≥ capacity :=
        Nat.not_le_of_lt (Nat.lt_of_le_of_ne c.length_le hfull)
      rw [dif_neg hfull, if_neg hroom]

/-- A hit leaves what adding the value again would leave. -/
theorem entries_get_eq_add (hcapacity : 0 < capacity) {c : RecencyCache κ ν capacity} {key : κ}
    {v : ν} (h : c.entries.lookup key = some v) :
    (c.get key).2.entries = (add hcapacity c key v).entries := by
  have hroom : ¬ (others key c.entries).length ≥ capacity :=
    Nat.not_le_of_lt (Nat.lt_of_lt_of_le (length_others_lt (mem_keys_of_lookup h)) c.length_le)
  rw [(get_of_some h).2, entries_add, if_neg hroom]

/-! ## A smaller cache beside a larger one -/

theorem dropLast_sublist_dropLast {α : Type*} {l l' : List α} (h : l.Sublist l') :
    l.dropLast.Sublist l'.dropLast := by
  have hreverse := h.reverse.tail.reverse
  simpa using hreverse

/-- The entries of the smaller cache occur in the larger one in the same order, and the extra room
of the larger one bounds the number of its extra entries. -/
structure Included {small large : Nat} (c : RecencyCache κ ν small) (d : RecencyCache κ ν large) :
    Prop where
  sublist : c.entries.Sublist d.entries
  extra : d.entries.length + small ≤ c.entries.length + large

section Included

variable {small large : Nat} {c : RecencyCache κ ν small} {d : RecencyCache κ ν large}

omit [DecidableEq κ] in
theorem Included.of_empty (h : small ≤ large) :
    Included (empty : RecencyCache κ ν small) (empty : RecencyCache κ ν large) where
  sublist := List.Sublist.slnil
  extra := Nat.add_le_add_left h _

theorem Included.lookup (h : Included c d) {key : κ} {v : ν}
    (hlookup : c.entries.lookup key = some v) : d.entries.lookup key = some v :=
  lookup_of_mem d.nodup (h.sublist.subset (mem_of_lookup hlookup))

/-- Taking a key out of both caches takes no less out of the larger one. -/
theorem Included.extra_others (h : Included c d) (key : κ) :
    (others key d.entries).length + small ≤ (others key c.entries).length + large := by
  have hextra := h.extra
  by_cases hc : key ∈ c.entries.map Prod.fst
  · have hd : key ∈ d.entries.map Prod.fst := (h.sublist.map Prod.fst).subset hc
    have hlenc := length_others_of_mem c.nodup hc
    have hlend := length_others_of_mem d.nodup hd
    omega
  · rw [others_of_notMem hc]
    exact Nat.le_trans (Nat.add_le_add_right (length_others_le key d.entries) small) hextra

theorem Included.remove (h : Included c d) (key : κ) : Included (c.remove key) (d.remove key) where
  sublist := others_sublist h.sublist
  extra := h.extra_others key

theorem Included.add (hsmall : 0 < small) (hlarge : 0 < large) (h : Included c d) (key : κ)
    (v : ν) : Included (RecencyCache.add hsmall c key v) (RecencyCache.add hlarge d key v) := by
  have hsub : (others key c.entries).Sublist (others key d.entries) := others_sublist h.sublist
  have hextra := h.extra_others key
  -- when the larger cache has to evict, the smaller one has to as well
  constructor
  · rw [entries_add, entries_add]
    refine List.Sublist.cons_cons _ ?_
    split
    · split
      · exact dropLast_sublist_dropLast hsub
      · exact (List.dropLast_sublist _).trans hsub
    · rw [if_neg (by omega)]
      exact hsub
  · rw [entries_add, entries_add, List.length_cons, List.length_cons]
    have hc := (others key c.entries).length_dropLast
    have hd := (others key d.entries).length_dropLast
    have hcle := Nat.le_trans (length_others_le key c.entries) c.length_le
    have hdle := Nat.le_trans (length_others_le key d.entries) d.length_le
    split <;> split <;> omega

/-- A key that only the larger cache holds becomes its most recent one. -/
theorem Included.get_large (h : Included c d) {key : κ} (hmiss : c.entries.lookup key = none) :
    Included c (d.get key).2 := by
  cases hd : d.entries.lookup key with
  | none =>
      rw [get_of_none hd]
      exact h
  | some v =>
      have hentries := (get_of_some hd).2
      have hnot : key ∉ c.entries.map Prod.fst := by
        intro hmem
        obtain ⟨⟨k, w⟩, hw, rfl⟩ := List.mem_map.mp hmem
        rw [lookup_of_mem c.nodup hw] at hmiss
        cases hmiss
      have hsub : c.entries.Sublist (others key d.entries) := by
        have := others_sublist (k := key) h.sublist
        rwa [others_of_notMem hnot] at this
      have hlen := length_others_of_mem d.nodup (mem_keys_of_lookup hd)
      have hextra := h.extra
      constructor
      · rw [hentries]
        exact hsub.cons _
      · rw [hentries, List.length_cons, hlen]
        exact hextra

theorem Included.get (h : Included c d) (key : κ) : Included (c.get key).2 (d.get key).2 := by
  cases hc : c.entries.lookup key with
  | none =>
      rw [get_of_none hc]
      exact h.get_large hc
  | some v =>
      have hd := h.lookup hc
      have hextra := h.extra_others key
      constructor
      · rw [(get_of_some hc).2, (get_of_some hd).2]
        exact (others_sublist h.sublist).cons_cons _
      · rw [(get_of_some hc).2, (get_of_some hd).2, List.length_cons, List.length_cons]
        omega

/-- A key that only the larger cache holds becomes the most recent one of both. -/
theorem Included.add_get (hsmall : 0 < small) (hlarge : 0 < large) (h : Included c d) {key : κ}
    {v : ν} (hd : d.entries.lookup key = some v) :
    Included (RecencyCache.add hsmall c key v) (d.get key).2 := by
  have hadd := h.add hsmall hlarge key v
  constructor
  · rw [entries_get_eq_add hlarge hd]
    exact hadd.sublist
  · rw [entries_get_eq_add hlarge hd]
    exact hadd.extra

end Included
end RecencyCache
end Support
end AdvCppHW
