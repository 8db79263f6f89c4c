import AdvCppHW.BigFile.BinarySearch
import AdvCppHW.BigFile.CacheSize

/-!
# Reads behind the end of the file

The slot behind the last entry belongs to the range that a reader searches.  It is read when every
entry of the file has a smaller key than the one that is searched, or there is no entry.  What a
search of a file with a partial last entry reads is undefined.

* `StaysInside` — the entries that a call reads and returns lie in the mapping.
* `Covered` — the cache of a reader holds keys only that the file covers.
* `staysInside_iff` — when calls of both readers stay in the mapping;
  `twoEntries_read_behind` — a call that does not.
-/

namespace AdvCppHW
namespace BigFile

open Data Support Support.BinarySearch

/-- All bytes of the mapping can be read. -/
def Mmap.Mapped (memory : Memory) (m : Mmap) : Prop :=
  ∀ address, m.m_data ≤ address → address < m.end → (memory address).isSome

/-- The entries at these addresses, none of which is undefined, and the one that is returned, lie
wholly in the mapping. -/
def Mmap.StaysInside (m : Mmap) (reads : Option (List Address))
    (returned : Option (Option Address)) : Prop :=
  (∃ addresses, reads = some addresses ∧ ∀ p ∈ addresses, m.Inside p) ∧
    ∀ p, returned = some (some p) → m.Inside p

/-- The addresses whose keys `LRUCacheReader::getEntry` reads: no address when the cache has the
entry. -/
def LRUCacheReader.keyReads (memory : Memory) (r : LRUCacheReader) (key : Key) :
    Option (List Address) :=
  match r.m_cache.get key with
  | some (none, _) => BigFile.keyReads memory key r.m_mmap.m_data r.m_mmap.end
  | _ => some []

/-! ## The plain reader -/

theorem mapM_isSome {α β : Type} {f : α → Option β} {l : List α} (h : ∀ a ∈ l, (f a).isSome) :
    (l.mapM f).isSome := by
  induction l with
  | nil => rfl
  | cons a l ih =>
      obtain ⟨b, hb⟩ := Option.isSome_iff_exists.mp (h a List.mem_cons_self)
      obtain ⟨bs, hbs⟩ :=
        Option.isSome_iff_exists.mp (ih fun a ha => h a (List.mem_cons_of_mem _ ha))
      rw [List.mapM_cons, hb, hbs]
      rfl

theorem readKey_isSome {memory : Memory} {address : Address}
    (h : ∀ j : Int, 0 ≤ j → j < 8 → (memory (address + j)).isSome) :
    (readKey memory address).isSome := by
  have hoffsets : ∀ j ∈ ([0, 1, 2, 3, 4, 5, 6, 7] : List Int), 0 ≤ j ∧ j < 8 := by decide
  have hbytes : (([0, 1, 2, 3, 4, 5, 6, 7] : List Int).mapM fun j => memory (address + j)).isSome :=
    mapM_isSome fun j hj => h j (hoffsets j hj).1 (hoffsets j hj).2
  obtain ⟨bytes, hbytes⟩ := Option.isSome_iff_exists.mp hbytes
  have hread : readKey memory address =
      some (bytes.foldr (fun b key => b.toUInt64 + 256 * key) 0) :=
    Option.bind_eq_some_iff.mpr ⟨bytes, hbytes, rfl⟩
  rw [hread]
  rfl

section Reader

variable {memory : Memory} {m : Mmap} {key : Key}

theorem keyAt_isSome (hmapped : m.Mapped memory) {i : Int} (hi : 0 ≤ i) (hin : i < m.entries) :
    (keyAt memory m.m_data i).isSome := by
  obtain ⟨hlo, hhi⟩ := (Mmap.inside_entryAt hi).mpr hin
  have hbounds : ∀ d p e j : Int, d ≤ p → p + 28 ≤ e → 0 ≤ j → j < 8 → d ≤ p + j ∧ p + j < e := by
    intro d p e j hd he hj₀ hj
    omega
  have hbytes : ∀ j : Int, 0 ≤ j → j < 8 → (memory (entryAt m.m_data i + j)).isSome := by
    intro j hj₀ hj
    obtain ⟨hlo', hhi'⟩ := hbounds _ _ _ j hlo hhi hj₀ hj
    exact hmapped _ hlo' hhi'
  rw [keyAt]
  exact readKey_isSome hbytes

/-- What a search returns was read. -/
theorem mem_keyReads_of_getEntry {p : Address} (h : Reader.getEntry memory m key = some (some p)) :
    ∃ reads, keyReads memory key m.m_data m.end = some reads ∧ p ∈ reads := by
  rw [Reader.getEntry] at h
  by_cases hwhole : m.Whole
  · obtain ⟨hsearch, hreads⟩ := getEntry_eq memory hwhole key
    rw [hsearch] at h
    obtain ⟨result, hresult, hp⟩ := Option.map_eq_some_iff.mp h
    obtain ⟨i, rfl, rfl⟩ := Option.map_eq_some_iff.mp hp
    exact ⟨_, hreads, List.mem_map_of_mem (search_sound hresult).2⟩
  · rw [(getEntry_undefined memory hwhole key).1] at h
    cases h

theorem staysInside_of_covers (h : m.Covers memory key) :
    m.StaysInside (keyReads memory key m.m_data m.end) (Reader.getEntry memory m key) := by
  obtain ⟨reads, hreads, hinside⟩ := keyReads_inside h
  refine ⟨⟨reads, hreads, hinside⟩, fun p hp => ?_⟩
  obtain ⟨reads', hreads', hmem⟩ := mem_keyReads_of_getEntry hp
  cases hreads.symm.trans hreads'
  exact hinside p hmem

theorem covers_of_reads (hmapped : m.Mapped memory) (hsorted : m.Sorted memory)
    (h : ∃ reads, keyReads memory key m.m_data m.end = some reads ∧ ∀ p ∈ reads, m.Inside p) :
    m.Covers memory key := by
  obtain ⟨reads, hreads, hinside⟩ := h
  by_cases hwhole : m.Whole
  · rw [(getEntry_eq memory hwhole key).2] at hreads
    cases hreads
    refine ⟨hwhole, ?_⟩
    have hkeys : ∀ i, 0 ≤ i → i < m.entries → (keyAt memory m.m_data i).isSome :=
      fun i => keyAt_isSome hmapped
    apply (probes_lt_iff hsorted hkeys m.entries_nonneg).mp
    intro i hi
    exact (Mmap.inside_entryAt (mem_probes hi).1).mp (hinside _ (List.mem_map_of_mem hi))
  · rw [(getEntry_undefined memory hwhole key).2] at hreads
    cases hreads

end Reader

/-! ## The caching reader -/

namespace LRUCacheReader

section

variable {memory : Memory} {r r' : LRUCacheReader} {key : Key} {entry : Option Address}

/-- A call brings only its own key into the cache. -/
theorem getEntry_subset (hlinked : r.m_cache.Linked) (hroom : 1 ≤ r.m_cache.m_cacheSize)
    (h : r.getEntry memory key = some (entry, r')) :
    ∀ e ∈ r'.m_cache.contents, e.1 = key ∨ e ∈ r.m_cache.contents := by
  obtain ⟨⟨cached, m_cache⟩, hget, h⟩ := Option.bind_eq_some_iff.mp h
  obtain ⟨hlinked', hcap, hsubset⟩ := LRUCache.get_subset hlinked hget
  cases cached with
  | some p =>
      cases h
      exact hsubset
  | none =>
      obtain ⟨fromFile, -, h⟩ := Option.bind_eq_some_iff.mp h
      cases fromFile with
      | none =>
          cases h
          exact hsubset
      | some p =>
          obtain ⟨m_cache', hadd, h⟩ := Option.bind_eq_some_iff.mp h
          cases h
          intro e he
          rcases LRUCache.add_subset hlinked' (hcap ▸ hroom) hadd e he with hkey | he
          · exact Or.inl hkey
          · exact hsubset e he

/-- The cache is right, and holds keys only that the file covers. -/
structure Covered (memory : Memory) (r : LRUCacheReader) : Prop where
  cached : r.Cached memory
  covers : ∀ e ∈ r.m_cache.contents, r.m_mmap.Covers memory e.1

theorem getEntry_covered (h : r.Covered memory) (hkey : r.m_mmap.Covers memory key)
    (hread : r.getEntry memory key = some (entry, r')) :
    r'.Covered memory ∧ r'.m_mmap = r.m_mmap := by
  have hspec := getEntry_spec h.cached key
  have hsubset := getEntry_subset h.cached.linked h.cached.room hread
  cases hsearch : Reader.getEntry memory r.m_mmap key with
  | none =>
      rw [hsearch] at hspec
      rw [hspec] at hread
      cases hread
  | some found =>
      rw [hsearch] at hspec
      obtain ⟨r₁, hread₁, hcached, hmmap⟩ := hspec
      rw [hread₁] at hread
      cases hread
      refine ⟨⟨hcached, fun e he => ?_⟩, hmmap⟩
      rw [hmmap]
      rcases hsubset e he with rfl | he
      · exact hkey
      · exact h.covers e he

theorem afterEntries_covered (h : r.Covered memory) {keys : List Key}
    (hkeys : ∀ key ∈ keys, r.m_mmap.Covers memory key)
    (hreads : r.afterEntries memory keys = some r') : r'.Covered memory ∧ r'.m_mmap = r.m_mmap := by
  induction keys generalizing r with
  | nil =>
      cases hreads
      exact ⟨h, rfl⟩
  | cons key keys ih =>
      obtain ⟨⟨entry, r₁⟩, hread, hrest⟩ := Option.bind_eq_some_iff.mp hreads
      obtain ⟨h₁, hmmap⟩ := getEntry_covered h (hkeys key List.mem_cons_self) hread
      have htail : ∀ k ∈ keys, r₁.m_mmap.Covers memory k := by
        intro k hk
        rw [hmmap]
        exact hkeys k (List.mem_cons_of_mem _ hk)
      obtain ⟨h', hmmap'⟩ := ih h₁ htail hrest
      exact ⟨h', hmmap'.trans hmmap⟩

/-- The caching reader returns what the plain one returns. -/
theorem getEntry_map_fst (h : r.Cached memory) (key : Key) :
    (r.getEntry memory key).map Prod.fst = Reader.getEntry memory r.m_mmap key := by
  have hspec := getEntry_spec h key
  cases hsearch : Reader.getEntry memory r.m_mmap key with
  | none =>
      rw [hsearch] at hspec
      rw [hspec]
      rfl
  | some found =>
      rw [hsearch] at hspec
      obtain ⟨r₁, hread, -⟩ := hspec
      rw [hread]
      rfl

theorem keyReads_of_lookup (hlinked : r.m_cache.Linked)
    (hmiss : r.m_cache.contents.lookup key = none) :
    r.keyReads memory key = BigFile.keyReads memory key r.m_mmap.m_data r.m_mmap.end := by
  rw [LRUCacheReader.keyReads, LRUCache.get_miss hlinked hmiss]

theorem staysInside_of_covered (hmapped : r.m_mmap.Mapped memory) (hsorted : r.m_mmap.Sorted memory)
    (h : r.Covered memory) (key : Key) :
    r.m_mmap.StaysInside (r.keyReads memory key) ((r.getEntry memory key).map Prod.fst) ↔
      r.m_mmap.Covers memory key := by
  rw [getEntry_map_fst h.cached]
  cases hlookup : r.m_cache.contents.lookup key with
  | none =>
      rw [keyReads_of_lookup h.cached.linked hlookup]
      exact ⟨fun hinside => covers_of_reads hmapped hsorted hinside.1, staysInside_of_covers⟩
  | some held =>
      -- a hit: nothing is read, and only keys that the file covers are held
      have hcovers := h.covers _ (AssocList.mem_of_lookup hlookup)
      obtain ⟨p, rfl, -⟩ := h.cached.found key held (AssocList.mem_of_lookup hlookup)
      obtain ⟨m_cache, hget, -⟩ := LRUCache.get_hit h.cached.linked hlookup
      refine ⟨fun _ => hcovers, fun _ => ⟨?_, (staysInside_of_covers hcovers).2⟩⟩
      rw [LRUCacheReader.keyReads, hget]
      exact ⟨[], rfl, fun q hq => absurd hq List.not_mem_nil⟩

end

/-! ### A cache of size zero -/

/-- Without room an entry that is found cannot be stored: there is no last element to make room. -/
theorem getEntry_new_zero (memory : Memory) (m : Mmap) (key : Key) :
    (new m 0).getEntry memory key =
      match Reader.getEntry memory m key with
      | some none => some (none, new m 0)
      | _ => none := by
  have hget : (new m 0).m_cache.get key = some (none, (new m 0).m_cache) := rfl
  have hadd : ∀ p, (new m 0).m_cache.add key (some p) = none := fun p => rfl
  have hmmap : (new m 0).m_mmap = m := rfl
  simp only [getEntry, hget, hmmap, Option.bind_eq_bind, Option.bind_some, Reader.getEntry]
  cases binSearchEntry memory key m.m_data m.end with
  | none => rfl
  | some found =>
      cases found with
      | none => rfl
      | some p => simp [hadd]

theorem afterEntries_new_zero {memory : Memory} {m : Mmap} {keys : List Key} {r : LRUCacheReader}
    (h : (new m 0).afterEntries memory keys = some r) : r = new m 0 := by
  induction keys with
  | nil =>
      cases h
      rfl
  | cons key keys ih =>
      obtain ⟨⟨entry, r₁⟩, hread, hrest⟩ := Option.bind_eq_some_iff.mp h
      rw [getEntry_new_zero] at hread
      split at hread
      · cases hread
        exact ih hrest
      · cases hread

theorem staysInside_new_zero {memory : Memory} {m : Mmap} (hmapped : m.Mapped memory)
    (hsorted : m.Sorted memory) (key : Key) :
    m.StaysInside ((new m 0).keyReads memory key) (((new m 0).getEntry memory key).map Prod.fst) ↔
      m.Covers memory key := by
  have hreads : (new m 0).keyReads memory key = BigFile.keyReads memory key m.m_data m.end := rfl
  rw [hreads]
  refine ⟨fun hinside => covers_of_reads hmapped hsorted hinside.1,
    fun hcovers => ⟨keyReads_inside hcovers, fun p hp => ?_⟩⟩
  rw [getEntry_new_zero] at hp
  split at hp
  · cases hp
  · cases hp

end LRUCacheReader

/-! ## When calls stay in the mapping -/

/-- **Reads inside the file.**  A call of the plain reader, and a call of the caching reader behind
others with this property, reads and returns entries of the mapping only, exactly when the file
consists of whole entries, has one, and the key of the last one is not smaller than the key that is
asked for. -/
theorem staysInside_iff {memory : Memory} {m : Mmap} (hmapped : m.Mapped memory)
    (hsorted : m.Sorted memory) (key : Key) :
    (m.StaysInside (keyReads memory key m.m_data m.end) (Reader.getEntry memory m key) ↔
      m.Covers memory key) ∧
    ∀ (cacheSize : Nat) (earlier : List Key) (r : LRUCacheReader),
      (∀ key' ∈ earlier, m.Covers memory key') →
      (LRUCacheReader.new m cacheSize).afterEntries memory earlier = some r →
      (m.StaysInside (r.keyReads memory key) ((r.getEntry memory key).map Prod.fst) ↔
        m.Covers memory key) := by
  refine ⟨⟨fun hinside => covers_of_reads hmapped hsorted hinside.1, staysInside_of_covers⟩, ?_⟩
  intro cacheSize earlier r hearlier hreads
  rcases Nat.eq_zero_or_pos cacheSize with rfl | hpos
  · rw [LRUCacheReader.afterEntries_new_zero hreads]
    exact LRUCacheReader.staysInside_new_zero hmapped hsorted key
  · have hnew : (LRUCacheReader.new m cacheSize).Covered memory :=
      ⟨LRUCacheReader.cached_new memory m hpos, fun e he => by cases he⟩
    obtain ⟨hcovered, hmmap⟩ := LRUCacheReader.afterEntries_covered hnew hearlier hreads
    have hiff := LRUCacheReader.staysInside_of_covered (r := r) (hmmap ▸ hmapped) (hmmap ▸ hsorted)
      hcovered key
    rw [hmmap] at hiff
    exact hiff

section TwoEntries

open LRUCacheReader (twoEntries)

theorem twoEntries_mapped : (⟨0, 56⟩ : Mmap).Mapped twoEntries := fun _ _ _ => rfl

theorem twoEntries_sorted : (⟨0, 56⟩ : Mmap).Sorted twoEntries := by
  have hfirst : keyAt twoEntries 0 0 = some 1 := by decide +kernel
  have hsecond : keyAt twoEntries 0 1 = some 2 := by decide +kernel
  intro i j ki kj hi hij hj hki hkj
  have hj' : j < 2 := hj
  obtain ⟨rfl, rfl⟩ | ⟨rfl, rfl⟩ | ⟨rfl, rfl⟩ : i = 0 ∧ j = 0 ∨ i = 0 ∧ j = 1 ∨ i = 1 ∧ j = 1 := by
    omega
  · rw [Option.some.inj (hki.symm.trans hkj)]
  · rw [Option.some.inj (hki.symm.trans hfirst), Option.some.inj (hkj.symm.trans hsecond)]
    decide
  · rw [Option.some.inj (hki.symm.trans hkj)]

theorem staysInside_twoEntries :
    (⟨0, 56⟩ : Mmap).StaysInside (keyReads twoEntries 2 0 56)
      (Reader.getEntry twoEntries ⟨0, 56⟩ 2) :=
  (staysInside_iff twoEntries_mapped twoEntries_sorted 2).1.mpr
    ⟨⟨2, by decide⟩, by decide, 2, by decide +kernel, le_rfl⟩

/-- Two entries with the keys 1 and 2: the search for 3 reads behind them. -/
theorem twoEntries_read_behind :
    (⟨0, 56⟩ : Mmap).Mapped twoEntries ∧ (⟨0, 56⟩ : Mmap).Sorted twoEntries ∧
      ¬ (⟨0, 56⟩ : Mmap).StaysInside (keyReads twoEntries 3 0 56)
        (Reader.getEntry twoEntries ⟨0, 56⟩ 3) := by
  refine ⟨twoEntries_mapped, twoEntries_sorted, fun h => ?_⟩
  obtain ⟨⟨reads, hreads, hinside⟩, -⟩ := h
  have hsearch : keyReads twoEntries 3 0 56 = some [28, 56] := by decide +kernel
  cases hsearch.symm.trans hreads
  have hend : (56 : Int) + 28 ≤ 0 + 56 := (hinside 56 (by decide)).2
  omega

end TwoEntries

end BigFile
end AdvCppHW
