import AdvCppHW.Data.LRUCache

/-!
# Readers of a mapped file

`Reader` and `LRUCacheReader` of `bigFile/Reader.hpp`, for the entries of
`bigFile/FileEntry.hpp`.  The search works on addresses: its upper bound is the end of the
mapping, and it may read the slot there.  A call is `none` where a read faults, and where
`Entry *` are subtracted that are not a whole number of entries apart, which is undefined: the
end of a file with a partial last entry is not.

* `Cached` — every pointer the cache holds is what the search finds for its key.
* `getEntry_spec` — one call of the caching reader; `getEntries_eq` — any number of calls.
-/

namespace AdvCppHW
namespace BigFile

open Data

/-- Address of a byte. -/
abbrev Address := Int

/-- The bytes that can be read; `none` where reading faults. -/
abbrev Memory := Address → Option UInt8

/-- `sizeof(Entry)`: a packed structure of a `uint64_t` key and 20 bytes of data. -/
def sizeofEntry : Int := 28

/-- `*reinterpret_cast<Key *>(address)`, least significant byte first. -/
def readKey (memory : Memory) (address : Address) : Option Key := do
  let bytes ← (List.range 8).mapM fun i => memory (address + i)
  return bytes.foldr (fun b key => b.toUInt64 + 256 * key) 0

/-- `r - l` on `Entry *`, undefined unless it is a whole number of entries. -/
def distance (l r : Address) : Option Int :=
  if sizeofEntry ∣ r - l then some ((r - l) / sizeofEntry) else none

/-- `l + (r - l) / 2` on `Entry *`. -/
def middle (l r : Address) : Option Address :=
  (distance l r).map fun n => l + n / 2 * sizeofEntry

/-- Both halves of a range are shorter. -/
theorem middle_shrinks {l r m : Address} (hlr : l ≤ r) (hm : middle l r = some m) :
    (r - (m + sizeofEntry) + 1).toNat < (r - l + 1).toNat ∧
      (m - sizeofEntry - l + 1).toNat < (r - l + 1).toNat := by
  obtain ⟨n, hn, rfl⟩ := Option.map_eq_some_iff.mp hm
  rw [distance] at hn
  split at hn
  · cases hn
    have hshrinks : ∀ l r : Int, l ≤ r →
        (r - (l + (r - l) / 28 / 2 * 28 + 28) + 1).toNat < (r - l + 1).toNat ∧
          (l + (r - l) / 28 / 2 * 28 - 28 - l + 1).toNat < (r - l + 1).toNat := by
      omega
    exact hshrinks l r hlr
  · cases hn

/-- `Reader::binSearchEntry`. -/
def binSearchEntry (memory : Memory) (key : Key) (l r : Address) : Option (Option Address) :=
  if l ≤ r then
    match _hm : middle l r with
    | none => none
    | some m =>
        match readKey memory m with
        | none => none
        | some mKey =>
            if mKey = key then
              some (some m)
            else if mKey < key then
              binSearchEntry memory key (m + sizeofEntry) r
            else
              binSearchEntry memory key l (m - sizeofEntry)
  else
    some none
termination_by (r - l + 1).toNat
decreasing_by
  · exact (middle_shrinks (by assumption) _hm).1
  · exact (middle_shrinks (by assumption) _hm).2

/-- `Mmap`: where the file is mapped, and its size. -/
structure Mmap where
  m_data : Address
  m_size : Nat

/-- `Mmap::end`. -/
def Mmap.end (m : Mmap) : Address := m.m_data + m.m_size

/-- `Reader::getEntry`. -/
def Reader.getEntry (memory : Memory) (m_mmap : Mmap) (key : Key) : Option (Option Address) :=
  binSearchEntry memory key m_mmap.m_data m_mmap.end

structure LRUCacheReader where
  m_mmap : Mmap
  m_cache : LRUCache Address

namespace LRUCacheReader

def new (m_mmap : Mmap) (cacheSize : Nat) : LRUCacheReader := ⟨m_mmap, .new cacheSize⟩

/-- `LRUCacheReader::getEntry`. -/
def getEntry (memory : Memory) (r : LRUCacheReader) (key : Key) :
    Option (Option Address × LRUCacheReader) := do
  let (cached, m_cache) ← r.m_cache.get key
  match cached with
  | some p => return (some p, { r with m_cache := m_cache })
  | none =>
      let fromFile ← binSearchEntry memory key r.m_mmap.m_data r.m_mmap.end
      match fromFile with
      | none => return (none, { r with m_cache := m_cache })
      | some p => do
          let m_cache ← m_cache.add key (some p)
          return (some p, { r with m_cache := m_cache })

/-- Calls of `getEntry` for the keys in order. -/
def getEntries (memory : Memory) (r : LRUCacheReader) : List Key → Option (List (Option Address))
  | [] => some []
  | key :: keys => do
      let (entry, r) ← r.getEntry memory key
      let entries ← r.getEntries memory keys
      return entry :: entries

/-! ## What the cache holds -/

/-- The cache is in order, has room, and holds under each key what the search finds for it. -/
structure Cached (memory : Memory) (r : LRUCacheReader) : Prop where
  linked : r.m_cache.Linked
  room : 1 ≤ r.m_cache.m_cacheSize
  found : ∀ key entry, (key, entry) ∈ r.m_cache.contents →
    ∃ p, entry = some p ∧ Reader.getEntry memory r.m_mmap key = some (some p)

theorem cached_new (memory : Memory) (m_mmap : Mmap) {cacheSize : Nat} (hsize : 1 ≤ cacheSize) :
    (new m_mmap cacheSize).Cached memory where
  linked := LRUCache.linked_new cacheSize
  room := hsize
  found key entry h := by cases h

section

variable {memory : Memory} {r : LRUCacheReader} (h : r.Cached memory)
include h

/-- Whatever the cache does with its entries, it goes on to hold right ones when the one at its head
is right and the others are old. -/
theorem Cached.of_contents {m_cache : LRUCache Address} {key : Key} {p : Address}
    (hlinked : m_cache.Linked) (hroom : 1 ≤ m_cache.m_cacheSize)
    (hp : Reader.getEntry memory r.m_mmap key = some (some p))
    (hcontents : ∀ e ∈ m_cache.contents, e = (key, some p) ∨ e ∈ r.m_cache.contents) :
    ({ r with m_cache := m_cache } : LRUCacheReader).Cached memory where
  linked := hlinked
  room := hroom
  found key' entry' hmem := by
    rcases hcontents _ hmem with heq | hold
    · cases heq
      exact ⟨p, rfl, hp⟩
    · exact h.found key' entry' hold

/-- The caching reader returns what the search finds, and faults where the search does. -/
theorem getEntry_spec (key : Key) :
    match Reader.getEntry memory r.m_mmap key with
    | none => r.getEntry memory key = none
    | some entry => ∃ r', r.getEntry memory key = some (entry, r') ∧ r'.Cached memory ∧
        r'.m_mmap = r.m_mmap := by
  cases hlookup : r.m_cache.contents.lookup key with
  | some entry =>
      -- a hit: the cached pointer is the one the search finds
      obtain ⟨p, rfl, hp⟩ := h.found key entry (Support.AssocList.mem_of_lookup hlookup)
      obtain ⟨m_cache, hget, hlinked, hsize, hcontents⟩ := LRUCache.get_hit h.linked hlookup
      rw [hp]
      refine ⟨{ r with m_cache := m_cache }, by simp [getEntry, hget],
        h.of_contents hlinked (hsize ▸ h.room) hp fun e he => ?_, rfl⟩
      rw [hcontents] at he
      exact (List.mem_cons.mp he).imp_right List.mem_of_mem_filter
  | none =>
      -- a miss: the search runs, and only what it finds is cached
      have hget := LRUCache.get_miss h.linked hlookup
      cases hsearch : Reader.getEntry memory r.m_mmap key with
      | none =>
          rw [Reader.getEntry] at hsearch
          simp [getEntry, hget, hsearch]
      | some entry =>
          have hsearch' := hsearch
          rw [Reader.getEntry] at hsearch'
          cases entry with
          | none => exact ⟨r, by simp [getEntry, hget, hsearch'], h, rfl⟩
          | some p =>
              obtain ⟨m_cache, hadd, hlinked, hsize, hcontents⟩ :=
                LRUCache.add_spec h.linked h.room key (some p)
              refine ⟨{ r with m_cache := m_cache }, by simp [getEntry, hget, hsearch', hadd],
                h.of_contents hlinked (hsize ▸ h.room) hsearch fun e he => ?_, rfl⟩
              rw [hcontents] at he
              refine (List.mem_cons.mp he).imp_right fun he => ?_
              split at he
              · exact List.mem_of_mem_filter ((List.dropLast_sublist _).subset he)
              · exact List.mem_of_mem_filter he

end

theorem getEntries_eq_of_cached {memory : Memory} {r : LRUCacheReader} (h : r.Cached memory)
    (keys : List Key) :
    r.getEntries memory keys = keys.mapM (Reader.getEntry memory r.m_mmap) := by
  induction keys generalizing r with
  | nil => rfl
  | cons key keys ih =>
      have hspec := getEntry_spec h key
      rw [List.mapM_cons, getEntries]
      cases hsearch : Reader.getEntry memory r.m_mmap key with
      | none =>
          rw [hsearch] at hspec
          rw [hspec]
          rfl
      | some entry =>
          rw [hsearch] at hspec
          obtain ⟨r', hget, hcached, hmmap⟩ := hspec
          rw [hget]
          simp only [Option.bind_eq_bind, Option.bind_some, ih hcached, hmmap]

/-- **The caching reader agrees with the plain one.**  Over any sequence of keys it returns the same
positions of the mapping, or faults at the same call. -/
theorem getEntries_eq (memory : Memory) (m_mmap : Mmap) {cacheSize : Nat} (hsize : 1 ≤ cacheSize)
    (keys : List Key) :
    (new m_mmap cacheSize).getEntries memory keys =
      keys.mapM (Reader.getEntry memory m_mmap) :=
  getEntries_eq_of_cached (cached_new memory m_mmap hsize) keys

/-- A mapping of two entries with keys 1 and 2, followed by zeros. -/
def twoEntries : Memory := fun address =>
  some (if address = 0 then 1 else if address = 28 then 2 else 0)

theorem getEntries_twoEntries :
    (new ⟨0, 56⟩ 1).getEntries twoEntries [2, 2, 3, 1, 2] =
      some [some 28, some 28, none, some 0, some 28] :=
  (getEntries_eq twoEntries ⟨0, 56⟩ (by decide) [2, 2, 3, 1, 2]).trans (by decide +kernel)

end LRUCacheReader
end BigFile
end AdvCppHW
