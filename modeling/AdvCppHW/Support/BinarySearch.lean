import Mathlib.Algebra.Ring.Nat
import Mathlib.Order.Lattice
import Mathlib.Data.Int.Order.Basic
import Mathlib.Data.List.Basic

/-!
# Binary search between included bounds

The keys are read at positions, and a read may fail.  A search whose upper bound is the number of
keys `n`, not `n - 1`, may read at position `n`, where there is no key.

* `search`, `probes` — the search, and the positions it reads.
* `search_sound` — what it returns holds the key, ordered or not.
* `search_found` — a key between the bounds of an ascending range is found.
* `probes_lt_iff` — it reads at position `n` when the key is behind the last one.
* `length_probes_le` — how often it reads.
* `search_behind` — behind the last key the search is decided by what stands there.
-/

namespace AdvCppHW
namespace Support
namespace BinarySearch

variable {κ : Type*} [LinearOrder κ] {read : Int → Option κ} {key : κ}

/-- Search from position `l` to position `r`; `none` when a read fails. -/
def search (read : Int → Option κ) (key : κ) (l r : Int) : Option (Option Int) :=
  if l ≤ r then
    match read (l + (r - l) / 2) with
    | none => none
    | some k =>
        if k = key then
          some (some (l + (r - l) / 2))
        else if k < key then
          search read key (l + (r - l) / 2 + 1) r
        else
          search read key l (l + (r - l) / 2 - 1)
  else
    some none
termination_by (r - l + 1).toNat
decreasing_by all_goals omega

/-- The positions at which `search` reads, in order. -/
def probes (read : Int → Option κ) (key : κ) (l r : Int) : List Int :=
  if l ≤ r then
    (l + (r - l) / 2) ::
      match read (l + (r - l) / 2) with
      | none => []
      | some k =>
          if k = key then
            []
          else if k < key then
            probes read key (l + (r - l) / 2 + 1) r
          else
            probes read key l (l + (r - l) / 2 - 1)
  else
    []
termination_by (r - l + 1).toNat
decreasing_by all_goals omega

/-- The keys that can be read at the positions from 0 to `n - 1` do not descend. -/
def Ascending (read : Int → Option κ) (n : Int) : Prop :=
  ∀ i j k k', 0 ≤ i → i ≤ j → j < n → read i = some k → read j = some k' → k ≤ k'

section Steps

variable {l r : Int} {k : κ}

theorem search_empty (hlr : ¬ l ≤ r) : search read key l r = some none := by
  rw [search, if_neg hlr]

theorem search_failed (hlr : l ≤ r) (hread : read (l + (r - l) / 2) = none) :
    search read key l r = none := by
  rw [search, if_pos hlr, hread]

theorem search_hit (hlr : l ≤ r) (hread : read (l + (r - l) / 2) = some key) :
    search read key l r = some (some (l + (r - l) / 2)) := by
  rw [search, if_pos hlr, hread]
  simp

theorem search_right (hlr : l ≤ r) (hread : read (l + (r - l) / 2) = some k) (hlt : k < key) :
    search read key l r = search read key (l + (r - l) / 2 + 1) r := by
  rw [search, if_pos hlr, hread]
  simp [hlt, hlt.ne]

theorem search_left (hlr : l ≤ r) (hread : read (l + (r - l) / 2) = some k) (hlt : key < k) :
    search read key l r = search read key l (l + (r - l) / 2 - 1) := by
  rw [search, if_pos hlr, hread]
  simp [hlt.ne', hlt.not_gt]

theorem probes_empty (hlr : ¬ l ≤ r) : probes read key l r = [] := by
  rw [probes, if_neg hlr]

theorem probes_ne_nil (hlr : l ≤ r) : probes read key l r ≠ [] := by
  rw [probes, if_pos hlr]
  exact List.cons_ne_nil _ _

theorem probes_failed (hlr : l ≤ r) (hread : read (l + (r - l) / 2) = none) :
    probes read key l r = [l + (r - l) / 2] := by
  rw [probes, if_pos hlr, hread]

theorem probes_hit (hlr : l ≤ r) (hread : read (l + (r - l) / 2) = some key) :
    probes read key l r = [l + (r - l) / 2] := by
  rw [probes, if_pos hlr, hread]
  simp

theorem probes_right (hlr : l ≤ r) (hread : read (l + (r - l) / 2) = some k) (hlt : k < key) :
    probes read key l r = (l + (r - l) / 2) :: probes read key (l + (r - l) / 2 + 1) r := by
  rw [probes, if_pos hlr, hread]
  simp [hlt, hlt.ne]

theorem probes_left (hlr : l ≤ r) (hread : read (l + (r - l) / 2) = some k) (hlt : key < k) :
    probes read key l r = (l + (r - l) / 2) :: probes read key l (l + (r - l) / 2 - 1) := by
  rw [probes, if_pos hlr, hread]
  simp [hlt.ne', hlt.not_gt]

end Steps

/-- Induction along the search: what holds of every empty range, and of a range from what holds of
the half the search goes on with. -/
theorem induct {motive : Int → Int → Prop} (read : Int → Option κ) (key : κ)
    (empty : ∀ l r, ¬ l ≤ r → motive l r)
    (failed : ∀ l r, l ≤ r → read (l + (r - l) / 2) = none → motive l r)
    (hit : ∀ l r, l ≤ r → read (l + (r - l) / 2) = some key → motive l r)
    (right : ∀ l r k, l ≤ r → read (l + (r - l) / 2) = some k → k < key →
      motive (l + (r - l) / 2 + 1) r → motive l r)
    (left : ∀ l r k, l ≤ r → read (l + (r - l) / 2) = some k → key < k →
      motive l (l + (r - l) / 2 - 1) → motive l r)
    (l r : Int) : motive l r := by
  induction hn : (r - l + 1).toNat using Nat.strongRecOn generalizing l r with
  | _ n ih =>
    subst hn
    by_cases hlr : l ≤ r
    · cases hread : read (l + (r - l) / 2) with
      | none => exact failed l r hlr hread
      | some k =>
          rcases lt_trichotomy k key with hlt | rfl | hlt
          · exact right l r k hlr hread hlt (ih _ (by omega) _ _ rfl)
          · exact hit l r hlr hread
          · exact left l r k hlr hread hlt (ih _ (by omega) _ _ rfl)
    · exact empty l r hlr

/-! ## What the search reads -/

theorem mem_probes {l r p : Int} (h : p ∈ probes read key l r) : l ≤ p ∧ p ≤ r := by
  induction l, r using induct read key with
  | empty l r hlr =>
      rw [probes_empty hlr] at h
      cases h
  | failed l r hlr hread =>
      rw [probes_failed hlr hread, List.mem_singleton] at h
      omega
  | hit l r hlr hread =>
      rw [probes_hit hlr hread, List.mem_singleton] at h
      omega
  | right l r k hlr hread hlt ih =>
      rw [probes_right hlr hread hlt] at h
      rcases List.mem_cons.mp h with rfl | h
      · omega
      · have := ih h
        omega
  | left l r k hlr hread hlt ih =>
      rw [probes_left hlr hread hlt] at h
      rcases List.mem_cons.mp h with rfl | h
      · omega
      · have := ih h
        omega

/-- A search fails only where a read fails. -/
theorem search_isSome {l r : Int} (h : ∀ p ∈ probes read key l r, (read p).isSome) :
    ∃ result, search read key l r = some result := by
  induction l, r using induct read key with
  | empty l r hlr => exact ⟨none, search_empty hlr⟩
  | failed l r hlr hread =>
      rw [probes_failed hlr hread] at h
      have hsome := h _ List.mem_cons_self
      rw [hread] at hsome
      cases hsome
  | hit l r hlr hread => exact ⟨_, search_hit hlr hread⟩
  | right l r k hlr hread hlt ih =>
      rw [probes_right hlr hread hlt] at h
      rw [search_right hlr hread hlt]
      exact ih fun p hp => h p (List.mem_cons_of_mem _ hp)
  | left l r k hlr hread hlt ih =>
      rw [probes_left hlr hread hlt] at h
      rw [search_left hlr hread hlt]
      exact ih fun p hp => h p (List.mem_cons_of_mem _ hp)

/-- What is returned was read, and is the key. -/
theorem search_sound {l r m : Int} (h : search read key l r = some (some m)) :
    read m = some key ∧ m ∈ probes read key l r := by
  induction l, r using induct read key with
  | empty l r hlr =>
      rw [search_empty hlr] at h
      cases h
  | failed l r hlr hread =>
      rw [search_failed hlr hread] at h
      cases h
  | hit l r hlr hread =>
      rw [search_hit hlr hread] at h
      cases h
      rw [probes_hit hlr hread]
      exact ⟨hread, List.mem_cons_self⟩
  | right l r k hlr hread hlt ih =>
      rw [search_right hlr hread hlt] at h
      rw [probes_right hlr hread hlt]
      exact ⟨(ih h).1, List.mem_cons_of_mem _ (ih h).2⟩
  | left l r k hlr hread hlt ih =>
      rw [search_left hlr hread hlt] at h
      rw [probes_left hlr hread hlt]
      exact ⟨(ih h).1, List.mem_cons_of_mem _ (ih h).2⟩

/-- While the last key is not smaller than the one that is searched, the search stays in front of
position `n`. -/
theorem probes_lt {n l r : Int} {last : κ} (hl : 0 ≤ l) (hln : l < n) (hr : r ≤ n)
    (hlast : read (n - 1) = some last) (hle : key ≤ last) :
    ∀ p ∈ probes read key l r, p < n := by
  induction l, r using induct read key with
  | empty l r hlr =>
      rw [probes_empty hlr]
      intro p hp
      cases hp
  | failed l r hlr hread =>
      rw [probes_failed hlr hread]
      intro p hp
      rw [List.mem_singleton] at hp
      omega
  | hit l r hlr hread =>
      rw [probes_hit hlr hread]
      intro p hp
      rw [List.mem_singleton] at hp
      omega
  | right l r k hlr hread hlt ih =>
      rw [probes_right hlr hread hlt]
      -- the last key is not smaller than `key`, so the position just read is not the last one
      have hne : l + (r - l) / 2 ≠ n - 1 := by
        intro heq
        rw [heq, hlast] at hread
        cases hread
        exact absurd hle hlt.not_ge
      intro p hp
      rcases List.mem_cons.mp hp with rfl | hp
      · omega
      · exact ih (by omega) (by omega) hr p hp
  | left l r k hlr hread hlt ih =>
      rw [probes_left hlr hread hlt]
      intro p hp
      rcases List.mem_cons.mp hp with rfl | hp
      · omega
      · exact ih hl hln (by omega) p hp

/-! ## Ascending keys -/

section Ascending

variable {n : Int} (hsorted : Ascending read n) (hreads : ∀ i, 0 ≤ i → i < n → (read i).isSome)
include hsorted hreads

/-- A key that stands between the bounds is found. -/
theorem search_found {l r i : Int} (hl : 0 ≤ l) (hr : r ≤ n) (hli : l ≤ i) (hir : i ≤ r)
    (hin : i < n) (hi : read i = some key) :
    ∃ m, search read key l r = some (some m) ∧ 0 ≤ m ∧ m < n := by
  induction l, r using induct read key with
  | empty l r hlr => omega
  | failed l r hlr hread =>
      have hsome := hreads (l + (r - l) / 2) (by omega) (by omega)
      rw [hread] at hsome
      cases hsome
  | hit l r hlr hread => exact ⟨_, search_hit hlr hread, by omega, by omega⟩
  | right l r k hlr hread hlt ih =>
      -- what stands at or in front of the position just read is smaller than `key`
      have hgt : l + (r - l) / 2 < i := by
        by_contra hnot
        have := hsorted i _ key k (by omega) (by omega) (by omega) hi hread
        exact absurd this hlt.not_ge
      rw [search_right hlr hread hlt]
      exact ih (by omega) hr (by omega) hir
  | left l r k hlr hread hlt ih =>
      have hgt : i < l + (r - l) / 2 := by
        by_contra hnot
        have := hsorted _ i k key (by omega) (by omega) hin hread hi
        exact absurd this hlt.not_ge
      rw [search_left hlr hread hlt]
      exact ih hl (by omega) hli (by omega)

omit hsorted hreads in
/-- When all keys are smaller than the one that is searched, position `n` is read. -/
theorem mem_probes_of_forall_lt {l : Int} (hln : l ≤ n)
    (hsmall : ∀ i, l ≤ i → i < n → ∃ k, read i = some k ∧ k < key) : n ∈ probes read key l n := by
  induction hd : (n - l).toNat using Nat.strongRecOn generalizing l with
  | _ d ih =>
    subst hd
    by_cases hend : l + (n - l) / 2 = n
    · rw [probes, if_pos hln, hend]
      exact List.mem_cons_self
    · obtain ⟨k, hread, hlt⟩ := hsmall (l + (n - l) / 2) (by omega) (by omega)
      rw [probes_right hln hread hlt]
      apply List.mem_cons_of_mem
      apply ih (n - (l + (n - l) / 2 + 1)).toNat (by omega) (by omega) _ rfl
      intro i hi
      exact hsmall i (by omega)

/-- **Where the search reads.**  With `n` as its upper bound, it stays in front of position `n`
exactly when there is a key that is not smaller than the one that is searched. -/
theorem probes_lt_iff (hn : 0 ≤ n) :
    (∀ p ∈ probes read key 0 n, p < n) ↔ 0 < n ∧ ∃ last, read (n - 1) = some last ∧ key ≤ last := by
  constructor
  · intro h
    by_contra hnot
    apply absurd (h n (mem_probes_of_forall_lt hn fun i hi hin => ?_)) (lt_irrefl n)
    obtain ⟨k, hk⟩ := Option.isSome_iff_exists.mp (hreads i hi hin)
    obtain ⟨last, hlast⟩ := Option.isSome_iff_exists.mp (hreads (n - 1) (by omega) (by omega))
    refine ⟨k, hk, ?_⟩
    have hle := hsorted i (n - 1) k last hi (by omega) (by omega) hk hlast
    by_contra hge
    exact hnot ⟨by omega, last, hlast, (not_lt.mp hge).trans hle⟩
  · rintro ⟨hpos, last, hlast, hle⟩
    exact probes_lt le_rfl hpos le_rfl hlast hle

end Ascending

/-! ## How much it reads -/

/-- No position is read twice. -/
theorem nodup_probes (l r : Int) : (probes read key l r).Nodup := by
  induction l, r using induct read key with
  | empty l r hlr =>
      rw [probes_empty hlr]
      exact List.nodup_nil
  | failed l r hlr hread =>
      rw [probes_failed hlr hread]
      exact List.pairwise_singleton _ _
  | hit l r hlr hread =>
      rw [probes_hit hlr hread]
      exact List.pairwise_singleton _ _
  | right l r k hlr hread hlt ih =>
      rw [probes_right hlr hread hlt]
      refine List.nodup_cons.mpr ⟨fun hmem => ?_, ih⟩
      have hbehind := mem_probes hmem
      omega
  | left l r k hlr hread hlt ih =>
      rw [probes_left hlr hread hlt]
      refine List.nodup_cons.mpr ⟨fun hmem => ?_, ih⟩
      have hbefore := mem_probes hmem
      omega

/-- Each read leaves at most half of the range. -/
theorem length_probes_le {l r : Int} {n : Nat} (hn : (r - l + 1).toNat < 2 ^ n) :
    (probes read key l r).length ≤ n := by
  induction l, r using induct read key generalizing n with
  | empty l r hlr =>
      rw [probes_empty hlr]
      exact Nat.zero_le n
  | failed l r hlr hread =>
      rw [probes_failed hlr hread]
      have hpos : n ≠ 0 := by
        rintro rfl
        omega
      exact Nat.one_le_iff_ne_zero.mpr hpos
  | hit l r hlr hread =>
      rw [probes_hit hlr hread]
      have hpos : n ≠ 0 := by
        rintro rfl
        omega
      exact Nat.one_le_iff_ne_zero.mpr hpos
  | right l r k hlr hread hlt ih =>
      rw [probes_right hlr hread hlt]
      cases n with
      | zero => omega
      | succ n =>
          rw [Nat.pow_succ] at hn
          exact Nat.succ_le_succ (ih (by omega))
  | left l r k hlr hread hlt ih =>
      rw [probes_left hlr hread hlt]
      cases n with
      | zero => omega
      | succ n =>
          rw [Nat.pow_succ] at hn
          exact Nat.succ_le_succ (ih (by omega))

/-! ## Behind the last key -/

/-- When all keys are smaller than the one that is searched, what stands at position `n` decides. -/
theorem search_behind {n l : Int} (hln : l ≤ n)
    (hsmall : ∀ i, l ≤ i → i < n → ∃ k, read i = some k ∧ k < key) :
    search read key l n = search read key n n := by
  induction hd : (n - l).toNat using Nat.strongRecOn generalizing l with
  | _ d ih =>
    subst hd
    rcases hln.eq_or_lt with rfl | hlt
    · rfl
    · obtain ⟨k, hread, hsmaller⟩ := hsmall (l + (n - l) / 2) (by omega) (by omega)
      rw [search_right hln hread hsmaller]
      apply ih (n - (l + (n - l) / 2 + 1)).toNat (by omega) (by omega) _ rfl
      intro i hi
      exact hsmall i (by omega)

/-- A search of a single position. -/
theorem search_self (n : Int) :
    search read key n n =
      match read n with
      | none => none
      | some k => if k = key then some (some n) else some none := by
  have hmiddle : n + (n - n) / 2 = n := by omega
  cases hread : read n with
  | none => exact search_failed le_rfl (hmiddle.symm ▸ hread)
  | some k =>
      have hread' : read (n + (n - n) / 2) = some k := by
        rw [hmiddle]
        exact hread
      rcases lt_trichotomy k key with hlt | rfl | hlt
      · rw [search_right le_rfl hread' hlt, search_empty (by omega)]
        simp [hlt.ne]
      · rw [search_hit le_rfl hread', hmiddle]
        simp
      · rw [search_left le_rfl hread' hlt, search_empty (by omega)]
        simp [hlt.ne']

end BinarySearch
end Support
end AdvCppHW
