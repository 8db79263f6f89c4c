import AdvCppHW.BigFile.Reader
import AdvCppHW.Support.BinarySearch

/-!
# The search of the readers

`Reader::binSearchEntry` works on addresses.  Counted in entries from the beginning of a mapping of
whole entries it is a binary search whose upper bound is the number of entries, and included: the
slot behind the last entry belongs to the range.  On another mapping the first step is undefined.

* `keyReads` — the addresses at which the search reads a key.
* `binSearchEntry_eq` — the search and its reads, in indices; `getEntry_undefined` — the mappings
  with a partial last entry.
* `binSearchEntry_correct` — what it returns.
-/

namespace AdvCppHW
namespace BigFile

open Data Support.BinarySearch

/-- Keys are ordered as the comparison of `uint64_t` does. -/
instance keyLinearOrder : LinearOrder UInt64 where
  le_refl := UInt64.le_refl
  le_trans _ _ _ := UInt64.le_trans
  lt_iff_le_not_ge a b := by
    rw [UInt64.le_iff_toNat_le, UInt64.le_iff_toNat_le, UInt64.lt_iff_toNat_lt]
    omega
  le_antisymm _ _ := UInt64.le_antisymm
  le_total := UInt64.le_total
  toDecidableLE := inferInstance

/-- The addresses whose keys `binSearchEntry` reads, in order; `none` if
one of them is undefined. -/
def keyReads (memory : Memory) (key : Key) (l r : Address) : Option (List Address) :=
  if l ≤ r then
    match _hm : middle l r with
    | none => none
    | some m =>
        Option.map (m :: ·) <|
          match readKey memory m with
          | none => some []
          | some mKey =>
              if mKey = key then
                some []
              else if mKey < key then
                keyReads memory key (m + sizeofEntry) r
              else
                keyReads memory key l (m - sizeofEntry)
  else
    some []
termination_by (r - l + 1).toNat
decreasing_by
  · exact (middle_shrinks (by assumption) _hm).1
  · exact (middle_shrinks (by assumption) _hm).2

/-- The address of the entry with index `i`. -/
def entryAt (base : Address) (i : Int) : Int := base + sizeofEntry * i

/-- The key of the entry with index `i`. -/
def keyAt (memory : Memory) (base : Address) (i : Int) : Option Key :=
  readKey memory (entryAt base i)

/-! ## The search in indices -/

section Steps

variable {memory : Memory} {key : Key} {l r m : Address}

theorem binSearchEntry_empty (hlr : ¬ l ≤ r) : binSearchEntry memory key l r = some none := by
  rw [binSearchEntry, if_neg hlr]

theorem binSearchEntry_step (hlr : l ≤ r) (hm : middle l r = some m) :
    binSearchEntry memory key l r =
      match readKey memory m with
      | none => none
      | some mKey =>
          if mKey = key then some (some m)
          else if mKey < key then binSearchEntry memory key (m + sizeofEntry) r
          else binSearchEntry memory key l (m - sizeofEntry) := by
  rw [binSearchEntry, if_pos hlr]
  split
  · next hnone => cases hm.symm.trans hnone
  · next m' hsome =>
      cases hm.symm.trans hsome
      rfl

theorem keyReads_empty (hlr : ¬ l ≤ r) : keyReads memory key l r = some [] := by
  rw [keyReads, if_neg hlr]

theorem keyReads_step (hlr : l ≤ r) (hm : middle l r = some m) :
    keyReads memory key l r = Option.map (m :: ·)
      (match readKey memory m with
      | none => some []
      | some mKey =>
          if mKey = key then some []
          else if mKey < key then keyReads memory key (m + sizeofEntry) r
          else keyReads memory key l (m - sizeofEntry)) := by
  rw [keyReads, if_pos hlr]
  split
  · next hnone => cases hm.symm.trans hnone
  · next m' hsome =>
      cases hm.symm.trans hsome
      rfl

/-- A search whose first step is undefined. -/
theorem undefined_step (hlr : l ≤ r) (hm : middle l r = none) :
    binSearchEntry memory key l r = none ∧ keyReads memory key l r = none := by
  constructor
  · rw [binSearchEntry, if_pos hlr]
    split
    · rfl
    · next m' hsome => cases hm.symm.trans hsome
  · rw [keyReads, if_pos hlr]
    split
    · rfl
    · next m' hsome => cases hm.symm.trans hsome

end Steps

section Indices

variable {memory : Memory} {key : Key} {base l r : Int} {i j : Int}

theorem middle_eq (base : Address) (i j : Int) :
    middle (entryAt base i) (entryAt base j) = some (entryAt base (i + (j - i) / 2)) := by
  have hdistance : ∀ b : Int, b + 28 * j - (b + 28 * i) = 28 * (j - i) := by
    intro b
    omega
  have hmiddle : ∀ b : Int, b + 28 * i + (j - i) / 2 * 28 = b + 28 * (i + (j - i) / 2) := by
    intro b
    omega
  simp only [middle, distance, entryAt, sizeofEntry, hdistance, dvd_mul_right, if_true,
    Option.map_some]
  rw [Int.mul_ediv_cancel_left _ (by decide), hmiddle]

theorem le_iff_index_le (base : Address) (i j : Int) :
    entryAt base i ≤ entryAt base j ↔ i ≤ j := by
  simp only [entryAt, sizeofEntry]
  omega

theorem entryAt_add (base : Address) (i : Int) :
    entryAt base i + sizeofEntry = entryAt base (i + 1) := by
  simp only [entryAt, sizeofEntry]
  omega

theorem entryAt_sub (base : Address) (i : Int) :
    entryAt base i - sizeofEntry = entryAt base (i - 1) := by
  simp only [entryAt, sizeofEntry]
  omega

/-- Between the entries with the indices `i` and `j` the search is one from `i` to `j`. -/
theorem binSearchEntry_eq (memory : Memory) (key : Key) (base : Address) (i j : Int) :
    binSearchEntry memory key (entryAt base i) (entryAt base j) =
        (search (keyAt memory base) key i j).map (Option.map (entryAt base)) ∧
      keyReads memory key (entryAt base i) (entryAt base j) =
        some ((probes (keyAt memory base) key i j).map (entryAt base)) := by
  induction i, j using induct (keyAt memory base) key with
  | empty i j hij =>
      have hlr := mt (le_iff_index_le base i j).mp hij
      rw [binSearchEntry_empty hlr, keyReads_empty hlr, search_empty hij, probes_empty hij]
      exact ⟨rfl, rfl⟩
  | failed i j hij hread =>
      have hlr := (le_iff_index_le base i j).mpr hij
      have hread' : readKey memory (entryAt base (i + (j - i) / 2)) = none := hread
      rw [binSearchEntry_step hlr (middle_eq base i j), keyReads_step hlr (middle_eq base i j),
        hread', search_failed hij hread, probes_failed hij hread]
      exact ⟨rfl, rfl⟩
  | hit i j hij hread =>
      have hlr := (le_iff_index_le base i j).mpr hij
      have hread' : readKey memory (entryAt base (i + (j - i) / 2)) = some key := hread
      rw [binSearchEntry_step hlr (middle_eq base i j), keyReads_step hlr (middle_eq base i j),
        hread', search_hit hij hread, probes_hit hij hread]
      simp
  | right i j k hij hread hlt ih =>
      have hlr := (le_iff_index_le base i j).mpr hij
      have hread' : readKey memory (entryAt base (i + (j - i) / 2)) = some k := hread
      obtain ⟨hsearch, hreads⟩ := ih
      rw [binSearchEntry_step hlr (middle_eq base i j), keyReads_step hlr (middle_eq base i j),
        hread', search_right hij hread hlt, probes_right hij hread hlt]
      simp [hlt, hlt.ne, entryAt_add, hsearch, hreads]
  | left i j k hij hread hlt ih =>
      have hlr := (le_iff_index_le base i j).mpr hij
      have hread' : readKey memory (entryAt base (i + (j - i) / 2)) = some k := hread
      obtain ⟨hsearch, hreads⟩ := ih
      rw [binSearchEntry_step hlr (middle_eq base i j), keyReads_step hlr (middle_eq base i j),
        hread', search_left hij hread hlt, probes_left hij hread hlt]
      simp [hlt.ne', hlt.not_gt, entryAt_sub, hsearch, hreads]

end Indices

/-! ## A mapped file -/

namespace Mmap

variable {memory : Memory} {m : Mmap}

/-- The file consists of whole entries. -/
def Whole (m : Mmap) : Prop := sizeofEntry ∣ m.m_size

/-- The number of whole entries. -/
def entries (m : Mmap) : Int := m.m_size / sizeofEntry

/-- The entry at this address lies wholly in the mapping. -/
def Inside (m : Mmap) (p : Address) : Prop := m.m_data ≤ p ∧ p + sizeofEntry ≤ m.end

/-- The keys of the whole entries do not descend. -/
def Sorted (memory : Memory) (m : Mmap) : Prop := Ascending (keyAt memory m.m_data) m.entries

theorem inside_entryAt {i : Int} (hi : 0 ≤ i) : m.Inside (entryAt m.m_data i) ↔ i < m.entries := by
  have hsizes : ∀ data size : Int,
      data ≤ data + 28 * i ∧ data + 28 * i + 28 ≤ data + size ↔ i < size / 28 := by
    intro data size
    omega
  exact hsizes m.m_data m.m_size

theorem entries_nonneg (m : Mmap) : 0 ≤ m.entries := by
  simp only [entries, sizeofEntry]
  omega

end Mmap

theorem Mmap.end_eq {m : Mmap} (hwhole : m.Whole) : m.end = entryAt m.m_data m.entries := by
  rw [Mmap.end, entryAt, Mmap.entries, Int.mul_ediv_cancel' hwhole]

/-- The search of a reader of whole entries and its reads, in indices. -/
theorem getEntry_eq (memory : Memory) {m : Mmap} (hwhole : m.Whole) (key : Key) :
    binSearchEntry memory key m.m_data m.end =
        (search (keyAt memory m.m_data) key 0 m.entries).map (Option.map (entryAt m.m_data)) ∧
      keyReads memory key m.m_data m.end =
        some ((probes (keyAt memory m.m_data) key 0 m.entries).map (entryAt m.m_data)) := by
  have hbegin : entryAt m.m_data 0 = m.m_data := by
    simp only [entryAt]
    omega
  have heq := binSearchEntry_eq memory key m.m_data 0 m.entries
  rw [hbegin, ← Mmap.end_eq hwhole] at heq
  exact heq

/-- With a partial last entry the search is undefined from its first step on. -/
theorem getEntry_undefined (memory : Memory) {m : Mmap} (hsplit : ¬ m.Whole) (key : Key) :
    binSearchEntry memory key m.m_data m.end = none ∧
      keyReads memory key m.m_data m.end = none := by
  have hsize : m.end - m.m_data = m.m_size := by
    rw [Mmap.end, add_sub_cancel_left]
  have hmiddle : middle m.m_data m.end = none := by
    have hnot : ¬ sizeofEntry ∣ (m.m_size : Int) := hsplit
    rw [middle, distance, hsize, if_neg hnot, Option.map_none]
  exact undefined_step (by simp [Mmap.end]) hmiddle

/-- The file consists of whole entries, has one, and the key of the last one is not smaller. -/
def Mmap.Covers (memory : Memory) (m : Mmap) (key : Key) : Prop :=
  m.Whole ∧ 0 < m.entries ∧ ∃ last, keyAt memory m.m_data (m.entries - 1) = some last ∧ key ≤ last

/-- The search for such a key reads entries of the mapping only. -/
theorem keyReads_inside {memory : Memory} {m : Mmap} {key : Key} (h : m.Covers memory key) :
    ∃ reads, keyReads memory key m.m_data m.end = some reads ∧ ∀ p ∈ reads, m.Inside p := by
  obtain ⟨hwhole, hpos, last, hlast, hle⟩ := h
  refine ⟨_, (getEntry_eq memory hwhole key).2, fun p hp => ?_⟩
  obtain ⟨i, hi, rfl⟩ := List.mem_map.mp hp
  exact (Mmap.inside_entryAt (mem_probes hi).1).mpr (probes_lt le_rfl hpos le_rfl hlast hle i hi)

/-! ## Mappings of whole entries -/

section WholeEntries

variable {memory : Memory} {m : Mmap} {n : Nat} {keys : Nat → Key}
  (hkeys : ∀ i, i ≤ n → readKey memory (entryAt m.m_data i) = some (keys i))
include hkeys

theorem keyAt_eq {i : Int} (hi : 0 ≤ i) (hin : i ≤ n) :
    keyAt memory m.m_data i = some (keys i.toNat) := by
  obtain ⟨i, rfl⟩ := Int.eq_ofNat_of_zero_le hi
  exact hkeys i (by omega)

theorem ascending_of_keys (hsorted : ∀ i j, i ≤ j → j < n → keys i ≤ keys j) :
    Ascending (keyAt memory m.m_data) n := by
  intro i j ki kj hi hij hj hki hkj
  rw [keyAt_eq hkeys hi (by omega)] at hki
  rw [keyAt_eq hkeys (by omega) (by omega)] at hkj
  cases hki
  cases hkj
  exact hsorted _ _ (by omega) (by omega)

/-- A mapping whose keys do not descend covers every key in it. -/
theorem covers_of_mem (hwhole : m.Whole) (hentries : m.entries = n)
    (hsorted : ∀ i j, i ≤ j → j < n → keys i ≤ keys j) {k : Nat} (hk : k < n) :
    m.Covers memory (keys k) := by
  rw [Mmap.Covers, hentries]
  refine ⟨hwhole, by omega, keys (n - 1), ?_, hsorted k (n - 1) (by omega) (by omega)⟩
  rw [keyAt_eq hkeys (by omega) (by omega)]
  congr 2
  omega

end WholeEntries

/-- **Binary search.**  A mapping of `n` entries, followed by anything that can be read: the search
returns, and what it returns has the key.  If the keys do not descend and one of them is the key, an
entry of the mapping is returned, and the slot behind the mapping is not read. -/
theorem binSearchEntry_correct (memory : Memory) (m_mmap : Mmap) (n : Nat)
    (hsize : m_mmap.m_size = sizeofEntry * n) (keys : Nat → Key)
    (hkeys : ∀ i, i ≤ n → readKey memory (entryAt m_mmap.m_data i) = some (keys i)) (key : Key) :
    ∃ result, binSearchEntry memory key m_mmap.m_data m_mmap.end = some result ∧
      (∀ p, result = some p → readKey memory p = some key) ∧
      ((∀ i j, i ≤ j → j < n → keys i ≤ keys j) → (∃ i, i < n ∧ keys i = key) →
        (∃ i, i < n ∧ result = some (entryAt m_mmap.m_data i) ∧ keys i = key) ∧
        ∃ reads, keyReads memory key m_mmap.m_data m_mmap.end = some reads ∧
          ∀ p ∈ reads, m_mmap.Inside p) := by
  have hwhole : m_mmap.Whole := Dvd.intro _ hsize.symm
  have hentries : m_mmap.entries = n := by
    simp only [Mmap.entries, hsize, sizeofEntry]
    omega
  have hsearch := (getEntry_eq memory hwhole key).1
  have hread := @keyAt_eq memory m_mmap n keys hkeys
  rw [hentries] at hsearch
  have hsome : ∀ p ∈ probes (keyAt memory m_mmap.m_data) key 0 n,
      (keyAt memory m_mmap.m_data p).isSome := by
    intro p hp
    obtain ⟨hp₀, hpn⟩ := mem_probes hp
    simp [hread hp₀ hpn]
  obtain ⟨result, hresult⟩ := search_isSome hsome
  rw [hresult] at hsearch
  refine ⟨result.map (entryAt m_mmap.m_data), hsearch, ?_, ?_⟩
  · intro p hp
    obtain ⟨i, rfl, rfl⟩ := Option.map_eq_some_iff.mp hp
    exact (search_sound hresult).1
  · rintro hsorted ⟨k, hk, rfl⟩
    constructor
    · obtain ⟨i, hi, hi₀, hin⟩ := search_found (ascending_of_keys hkeys hsorted)
        (fun i hi hin => by simp [hread hi (by omega)]) le_rfl le_rfl (by omega) (by omega)
        (by omega) (hread (i := k) (by omega) (by omega))
      rw [Int.toNat_natCast, hresult] at hi
      cases hi
      have hfound := (search_sound hresult).1
      rw [hread hi₀ (by omega)] at hfound
      exact ⟨i.toNat, by omega, by simp [Int.toNat_of_nonneg hi₀], Option.some.inj hfound⟩
    · exact keyReads_inside (covers_of_mem hkeys hwhole hentries hsorted hk)

/-- Three entries of one key and a slot behind them that holds a smaller one. -/
def equalKeys : Memory := fun address =>
  some (if address % 28 = 0 ∧ address < 84 then 5 else 0)

theorem binSearchEntry_correct_equalKeys :
    ∃ p, binSearchEntry equalKeys 5 0 84 = some (some p) ∧ readKey equalKeys p = some 5 := by
  obtain ⟨result, hsearch, hkey, hfound⟩ := binSearchEntry_correct equalKeys ⟨0, 84⟩ 3 (by decide)
    (fun i => if i < 3 then 5 else 0) (by decide) 5
  have hsorted : ∀ i j, i ≤ j → j < 3 →
      (if i < 3 then 5 else 0 : Key) ≤ if j < 3 then 5 else 0 := by
    intro i j hij hj
    rw [if_pos (by omega), if_pos hj]
  obtain ⟨⟨i, -, rfl, -⟩, -⟩ := hfound hsorted ⟨0, by decide, by decide⟩
  exact ⟨_, hsearch, hkey _ rfl⟩

end BigFile
end AdvCppHW
