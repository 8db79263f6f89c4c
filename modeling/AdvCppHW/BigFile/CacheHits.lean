import AdvCppHW.BigFile.InsideFile
import Mathlib.Data.Nat.Log
import AdvCppHW.Support.Recency

/-!
# Which reads the cache answers

The cache of `LRUCacheReader` gets the keys that the search finds, and no others.  It holds those
that were read last, as many as there is room for.  In a file that is not sorted the search need
not find a key that is there.

* `getEntry_recent` — one read; `afterEntries_recent` — any number of reads.
* `cached_iff` — when a read is answered without a search of the file.
* `getEntry_reads` — which reads search the file, and how many of its keys they read.
-/

namespace AdvCppHW
namespace BigFile

open Data Support

/-- The search finds an entry for the key. -/
def Reader.found (memory : Memory) (m_mmap : Mmap) (key : Key) : Bool :=
  (Reader.getEntry memory m_mmap key).join.isSome

namespace LRUCacheReader

variable {memory : Memory} {capacity : Nat}

/-- The reader's cache is a reference cache with right pointers, and with the keys of these
reads that were used last. -/
structure Recent (memory : Memory) (capacity : Nat) (uses : List Key) (r : LRUCacheReader) :
    Prop where
  cached : r.Cached memory
  keys : ∃ ref : RecencyCache Key (Option Address) capacity, r.m_cache.Refines ref ∧
    ref.entries.map Prod.fst = (recent uses).take capacity

theorem recent_new (memory : Memory) (m_mmap : Mmap) (hcapacity : 1 ≤ capacity) :
    Recent memory capacity [] (new m_mmap capacity) where
  cached := cached_new memory m_mmap hcapacity
  keys := ⟨RecencyCache.empty, ⟨LRUCache.linked_new _, rfl, rfl⟩, by simp [RecencyCache.empty]⟩

/-- A read of a reference cache uses its key if the search finds it. -/
theorem referenceGetEntry_keys (hcapacity : 0 < capacity) {m_mmap : Mmap}
    {ref : RecencyCache Key (Option Address) capacity} {uses : List Key} {key : Key}
    (hkeys : ref.entries.map Prod.fst = (recent uses).take capacity)
    (hright : ∀ held, ref.entries.lookup key = some held →
      ∃ p, held = some p ∧ Reader.getEntry memory m_mmap key = some (some p))
    {entry : Option Address} {ref' : RecencyCache Key (Option Address) capacity}
    (hread : referenceGetEntry hcapacity memory m_mmap ref key = some (entry, ref')) :
    ref'.entries.map Prod.fst =
      (recent (uses ++ [key].filter (Reader.found memory m_mmap))).take capacity := by
  have hused : ∀ p, Reader.getEntry memory m_mmap key = some (some p) →
      [key].filter (Reader.found memory m_mmap) = [key] := by
    intro p hp
    simp [Reader.found, hp]
  unfold referenceGetEntry at hread
  cases hlookup : ref.entries.lookup key with
  | some held =>
      -- a hit does to the keys what adding the key does
      obtain ⟨p, rfl, hp⟩ := hright held hlookup
      rw [(RecencyCache.get_of_some hlookup).1] at hread
      simp only [Option.join_some] at hread
      cases hread
      rw [RecencyCache.entries_get_eq_add hcapacity hlookup, hused p hp]
      exact RecencyCache.keys_add_recent hcapacity hkeys key (some p)
  | none =>
      rw [RecencyCache.get_of_none hlookup] at hread
      simp only [Option.join_none] at hread
      cases hsearch : Reader.getEntry memory m_mmap key with
      | none =>
          rw [hsearch] at hread
          cases hread
      | some found =>
          rw [hsearch] at hread
          cases found with
          | none =>
              cases hread
              have hnot : [key].filter (Reader.found memory m_mmap) = [] := by
                simp [Reader.found, hsearch]
              rw [hnot, List.append_nil]
              exact hkeys
          | some p =>
              cases hread
              rw [hused p hsearch]
              exact RecencyCache.keys_add_recent hcapacity hkeys key (some p)

/-- A read uses its key if the search finds it. -/
theorem getEntry_recent (hcapacity : 0 < capacity) {uses : List Key} {r : LRUCacheReader}
    (h : Recent memory capacity uses r) {key : Key} {entry : Option Address} {r' : LRUCacheReader}
    (hread : r.getEntry memory key = some (entry, r')) :
    Recent memory capacity (uses ++ [key].filter (Reader.found memory r.m_mmap)) r' ∧
      r'.m_mmap = r.m_mmap := by
  obtain ⟨hcached, ref, hrefines, hkeys⟩ := h
  have hright : ∀ held, ref.entries.lookup key = some held →
      ∃ p, held = some p ∧ Reader.getEntry memory r.m_mmap key = some (some p) := fun held hheld =>
    hcached.found key held (hrefines.contents_eq ▸ AssocList.mem_of_lookup hheld)
  have hspec := getEntry_spec hcached key
  have hrefined := getEntry_refines memory hcapacity hrefines key
  cases hreference : referenceGetEntry hcapacity memory r.m_mmap ref key with
  | none =>
      rw [hreference, hread] at hrefined
      cases hrefined
  | some res =>
      obtain ⟨entry', ref'⟩ := res
      rw [hreference] at hrefined
      obtain ⟨r₁, hr₁, hmmap, hrefines'⟩ := hrefined
      cases hread.symm.trans hr₁
      cases hsearch : Reader.getEntry memory r.m_mmap key with
      | none =>
          rw [hsearch] at hspec
          rw [hspec] at hread
          cases hread
      | some found =>
          rw [hsearch] at hspec
          obtain ⟨r₂, hr₂, hcached', -⟩ := hspec
          cases hread.symm.trans hr₂
          exact ⟨⟨hcached', ref', hrefines',
            referenceGetEntry_keys hcapacity hkeys hright hreference⟩, hmmap⟩

theorem afterEntries_recent (hcapacity : 0 < capacity) {uses : List Key} {r : LRUCacheReader}
    (h : Recent memory capacity uses r) {keys : List Key} {r' : LRUCacheReader}
    (hreads : r.afterEntries memory keys = some r') :
    Recent memory capacity (uses ++ keys.filter (Reader.found memory r.m_mmap)) r' ∧
      r'.m_mmap = r.m_mmap := by
  induction keys generalizing uses r with
  | nil =>
      cases hreads
      exact ⟨by simpa using h, rfl⟩
  | cons key keys ih =>
      obtain ⟨⟨entry, r₁⟩, hread, hrest⟩ := Option.bind_eq_some_iff.mp hreads
      obtain ⟨h₁, hmmap⟩ := getEntry_recent hcapacity h hread
      obtain ⟨hall, hmmap'⟩ := ih h₁ hrest
      rw [hmmap, List.append_assoc, ← List.filter_append] at hall
      exact ⟨hall, hmmap'.trans hmmap⟩

/-- The cache answers a read when it holds the key. -/
theorem cached_iff_mem {uses : List Key} {r : LRUCacheReader} (h : Recent memory capacity uses r)
    (key : Key) : (∃ p, r.cached key = some p) ↔ key ∈ (recent uses).take capacity := by
  obtain ⟨hcached, ref, hrefines, hkeys⟩ := h
  rw [← hkeys, cached_eq_held hcached.linked, LRUCache.held_eq_lookup hcached.linked,
    ← hrefines.contents_eq]
  constructor
  · rintro ⟨p, hp⟩
    rw [Option.join_eq_some_iff] at hp
    exact AssocList.mem_keys_of_lookup hp
  · intro hmem
    obtain ⟨⟨key', entry⟩, he, rfl⟩ := List.mem_map.mp hmem
    obtain ⟨p, rfl, -⟩ := hcached.found _ _ he
    exact ⟨p, by rw [AssocList.lookup_of_mem hcached.linked.keys_nodup he, Option.join_some]⟩

/-- A read is answered from the cache exactly if the search finds its key and it has
been read before, and since then fewer other keys that the search finds were read than
the cache has room for. -/
theorem cached_iff {memory : Memory} {m_mmap : Mmap} {cacheSize : Nat} (hsize : 1 ≤ cacheSize)
    {keys : List Key} {r : LRUCacheReader}
    (hreads : (new m_mmap cacheSize).afterEntries memory keys = some r) (key : Key) :
    (∃ p, r.cached key = some p) ↔ Reader.found memory m_mmap key = true ∧
      ∃ before after, keys = before ++ key :: after ∧ key ∉ after ∧
        (after.filter (Reader.found memory m_mmap)).toFinset.card < cacheSize := by
  obtain ⟨hrecent, hmmap⟩ := afterEntries_recent hsize (recent_new memory m_mmap hsize) hreads
  rw [cached_iff_mem hrecent, List.nil_append]
  -- the uses are the reads of keys that the search finds
  have hsplit : ∀ before after, keys = before ++ key :: after → key ∉ after →
      Reader.found memory m_mmap key = true →
      (key ∈ (recent (keys.filter (Reader.found memory m_mmap))).take cacheSize ↔
        (after.filter (Reader.found memory m_mmap)).toFinset.card < cacheSize) := by
    intro before after hkeys hafter hfound
    rw [hkeys, List.filter_append, List.filter_cons_of_pos hfound]
    exact mem_take_recent_iff _ (fun hmem => hafter (List.mem_filter.mp hmem).1) cacheSize
  constructor
  · intro hmem
    obtain ⟨hread, hfound⟩ := List.mem_filter.mp (mem_recent.mp (List.mem_of_mem_take hmem))
    obtain ⟨before, after, hkeys, hafter⟩ := exists_last_use hread
    exact ⟨hfound, before, after, hkeys, hafter, (hsplit before after hkeys hafter hfound).mp hmem⟩
  · rintro ⟨hfound, before, after, hkeys, hafter, hcard⟩
    exact (hsplit before after hkeys hafter hfound).mpr hcard

theorem get_isSome {r : LRUCacheReader} (h : r.Cached memory) (key : Key) :
    ∃ cached m_cache, r.m_cache.get key = some (cached, m_cache) := by
  cases hlookup : r.m_cache.contents.lookup key with
  | none => exact ⟨none, _, LRUCache.get_miss h.linked hlookup⟩
  | some entry =>
      obtain ⟨m_cache, hget, -⟩ := LRUCache.get_hit h.linked hlookup
      exact ⟨entry, m_cache, hget⟩

/-- A search of whole entries reads each entry once at most, at least one slot, and no more of them
than the range can be halved. -/
theorem keyReads_bounded (memory : Memory) {m : Mmap} (hwhole : m.Whole) (key : Key) :
    ∃ reads, BigFile.keyReads memory key m.m_data m.end = some reads ∧ reads ≠ [] ∧ reads.Nodup ∧
      reads.length ≤ Nat.log 2 (m.m_size / 28 + 1) + 1 := by
  have hinjective : Function.Injective (entryAt m.m_data) := by
    intro i j hij
    simp only [entryAt, sizeofEntry] at hij
    omega
  refine ⟨_, (getEntry_eq memory hwhole key).2, ?_,
    (BinarySearch.nodup_probes 0 m.entries).map hinjective, ?_⟩
  · rw [Ne, List.map_eq_nil_iff]
    exact BinarySearch.probes_ne_nil m.entries_nonneg
  · rw [List.length_map]
    apply BinarySearch.length_probes_le
    have hslots : (m.entries - 0 + 1).toNat = m.m_size / 28 + 1 := by
      simp only [Mmap.entries, sizeofEntry]
      omega
    rw [hslots]
    exact Nat.lt_pow_succ_log_self (by decide) _

/-- In a file of whole entries, after any reads, with room for one entry at least: a read takes its
answer from the cache, and reads no key of the file, exactly if the search finds its key and it has
been read before, and since then fewer other keys that the search finds were read than the cache has
room for.  Otherwise it reads each entry at most once, and of `n` entries no more than the binary
logarithm of `n + 1`, and one. -/
theorem getEntry_reads {memory : Memory} {m_mmap : Mmap} (hwhole : m_mmap.Whole) {cacheSize : Nat}
    (hsize : 1 ≤ cacheSize) {keys : List Key} {r : LRUCacheReader}
    (hreads : (new m_mmap cacheSize).afterEntries memory keys = some r) (key : Key) :
    ∃ reads, r.keyReads memory key = some reads ∧
      (reads = [] ↔ Reader.found memory m_mmap key = true ∧
        ∃ before after, keys = before ++ key :: after ∧ key ∉ after ∧
          (after.filter (Reader.found memory m_mmap)).toFinset.card < cacheSize) ∧
      reads.Nodup ∧ reads.length ≤ Nat.log 2 (m_mmap.m_size / 28 + 1) + 1 := by
  obtain ⟨hrecent, hmmap⟩ := afterEntries_recent hsize (recent_new memory m_mmap hsize) hreads
  obtain ⟨cached, m_cache, hget⟩ := get_isSome hrecent.cached key
  rw [← cached_iff hsize hreads key, keyReads, LRUCacheReader.cached, hget]
  cases cached with
  | some p => exact ⟨[], rfl, iff_of_true rfl ⟨p, rfl⟩, List.nodup_nil, Nat.zero_le _⟩
  | none =>
      have hmmap' : r.m_mmap = m_mmap := hmmap
      obtain ⟨reads, hsearch, hne, hnodup, hlength⟩ := keyReads_bounded memory hwhole key
      rw [hmmap']
      exact ⟨reads, hsearch, iff_of_false hne (by simp), hnodup, hlength⟩

/-- Key 1 has been read, then key 3, which is not in the file; one entry is room enough. -/
theorem getEntry_reads_twoEntries :
    ∃ r, (new ⟨0, 56⟩ 1).afterEntries twoEntries [2, 1, 3] = some r ∧
      r.keyReads twoEntries 1 = some [] ∧
      ∃ reads, r.keyReads twoEntries 2 = some reads ∧ reads.length ≤ 2 := by
  have hsome : ((new ⟨0, 56⟩ 1).afterEntries twoEntries [2, 1, 3]).isSome := by decide +kernel
  obtain ⟨r, hreads⟩ := Option.isSome_iff_exists.mp hsome
  have hwhole : (⟨0, 56⟩ : Mmap).Whole := ⟨2, by decide⟩
  obtain ⟨first, hfirst, hhit, -⟩ := getEntry_reads hwhole (by decide) hreads 1
  obtain ⟨second, hsecond, -, -, hlength⟩ := getEntry_reads hwhole (by decide) hreads 2
  have hcached := hhit.mpr ⟨by decide +kernel, [2], [3], rfl, by decide, by decide +kernel⟩
  exact ⟨r, hreads, hcached ▸ hfirst, second, hsecond, hlength⟩

end LRUCacheReader
end BigFile
end AdvCppHW
