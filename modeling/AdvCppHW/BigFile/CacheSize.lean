import AdvCppHW.BigFile.Reader

/-!
# The size of a reader's cache

Two caches of different sizes that get the same calls, and two caching readers of one file that read
the same keys, one with a smaller cache.  Readers do not make the same calls on their caches: a key
that only the larger cache holds is a hit there and a search and an `add` beside it.  Both make the
key the most recent one with the pointer the search finds.

* `referenceGetEntry`, `getEntry_refines` — one read of the caching reader, on a reference cache.
* `getEntry_beside` — one read of both readers.
* `lru_inclusion` — whatever the smaller cache holds the larger one holds.
-/

namespace AdvCppHW
namespace BigFile

open Data Support

namespace LRUCacheReader

variable {memory : Memory}

/-- The pointer `getEntry` finds in the cache. -/
def cached (r : LRUCacheReader) (key : Key) : Option Address :=
  (r.m_cache.get key).bind Prod.fst

/-- The reader after calls of `getEntry` for the keys in order; `none` when one of them faults. -/
def afterEntries (memory : Memory) (r : LRUCacheReader) : List Key → Option LRUCacheReader
  | [] => some r
  | key :: keys => do
      let (_, r) ← r.getEntry memory key
      r.afterEntries memory keys

/-- `getEntry` on a reference cache. -/
def referenceGetEntry {capacity : Nat} (hcapacity : 0 < capacity) (memory : Memory) (m_mmap : Mmap)
    (ref : RecencyCache Key (Option Address) capacity) (key : Key) :
    Option (Option Address × RecencyCache Key (Option Address) capacity) :=
  match (ref.get key).1.join with
  | some p => some (some p, (ref.get key).2)
  | none =>
      match Reader.getEntry memory m_mmap key with
      | none => none
      | some none => some (none, (ref.get key).2)
      | some (some p) => some (some p, RecencyCache.add hcapacity (ref.get key).2 key (some p))

theorem getEntry_refines (memory : Memory) {capacity : Nat} (hcapacity : 0 < capacity)
    {r : LRUCacheReader} {ref : RecencyCache Key (Option Address) capacity}
    (h : r.m_cache.Refines ref) (key : Key) :
    match referenceGetEntry hcapacity memory r.m_mmap ref key with
    | none => r.getEntry memory key = none
    | some (entry, ref') => ∃ r', r.getEntry memory key = some (entry, r') ∧
        r'.m_mmap = r.m_mmap ∧ r'.m_cache.Refines ref' := by
  obtain ⟨c₁, hget, h₁⟩ := LRUCache.step_refines hcapacity h (.get key)
  have hget' : r.m_cache.get key = some ((ref.get key).1.join, c₁) := by
    obtain ⟨⟨res, c⟩, hcall, heq⟩ := Option.map_eq_some_iff.mp hget
    cases heq
    exact hcall
  unfold referenceGetEntry
  cases hhit : (ref.get key).1.join with
  | some p =>
      rw [hhit] at hget'
      exact ⟨{ r with m_cache := c₁ }, by simp [getEntry, hget'], rfl, h₁⟩
  | none =>
      rw [hhit] at hget'
      cases hsearch : Reader.getEntry memory r.m_mmap key with
      | none =>
          rw [Reader.getEntry] at hsearch
          simp [getEntry, hget', hsearch]
      | some found =>
          have hfound := hsearch
          rw [Reader.getEntry] at hfound
          cases found with
          | none => exact ⟨{ r with m_cache := c₁ }, by simp [getEntry, hget', hfound], rfl, h₁⟩
          | some p =>
              obtain ⟨c₂, hadd, h₂⟩ := LRUCache.step_refines hcapacity h₁ (.add key (some p))
              have hadd' : c₁.add key (some p) = some c₂ := by
                obtain ⟨c, hcall, heq⟩ := Option.map_eq_some_iff.mp hadd
                cases heq
                exact hcall
              exact ⟨{ r with m_cache := c₂ }, by simp [getEntry, hget', hfound, hadd'], rfl, h₂⟩

/-! ## Two readers -/

/-- A read beside a larger cache that holds only what the search finds. -/
theorem referenceGetEntry_included {small large : Nat} (hsmall : 0 < small) (hlarge : 0 < large)
    {m_mmap : Mmap} {c : RecencyCache Key (Option Address) small}
    {d : RecencyCache Key (Option Address) large} (h : RecencyCache.Included c d) {key : Key}
    (hright : ∀ entry, d.entries.lookup key = some entry →
      ∃ p, entry = some p ∧ Reader.getEntry memory m_mmap key = some (some p))
    {entry : Option Address} {c' : RecencyCache Key (Option Address) small}
    (hread : referenceGetEntry hsmall memory m_mmap c key = some (entry, c')) :
    ∃ d', referenceGetEntry hlarge memory m_mmap d key = some (entry, d') ∧
      RecencyCache.Included c' d' := by
  unfold referenceGetEntry at hread ⊢
  cases hc : c.entries.lookup key with
  | some held =>
      -- a hit in both
      have hd := h.lookup hc
      obtain ⟨p, rfl, -⟩ := hright held hd
      have hincluded := h.get key
      simp only [(RecencyCache.get_of_some hc).1, Option.join_some] at hread
      simp only [(RecencyCache.get_of_some hd).1, Option.join_some]
      cases hread
      exact ⟨_, rfl, hincluded⟩
  | none =>
      simp only [RecencyCache.get_of_none hc, Option.join_none] at hread
      cases hd : d.entries.lookup key with
      | some held =>
          -- the smaller cache adds the pointer that the larger one holds
          obtain ⟨p, rfl, hsearch⟩ := hright held hd
          simp only [hsearch] at hread
          simp only [(RecencyCache.get_of_some hd).1, Option.join_some]
          cases hread
          exact ⟨_, rfl, h.add_get hsmall hlarge hd⟩
      | none =>
          simp only [RecencyCache.get_of_none hd, Option.join_none]
          cases hsearch : Reader.getEntry memory m_mmap key with
          | none =>
              simp only [hsearch] at hread
              cases hread
          | some found =>
              simp only [hsearch] at hread
              cases found with
              | none =>
                  cases hread
                  exact ⟨d, rfl, h⟩
              | some p =>
                  cases hread
                  exact ⟨_, rfl, h.add hsmall hlarge key (some p)⟩

/-- Two readers of one file, the cache of the second beside that of the first. -/
structure Beside (memory : Memory) (small large : Nat) (r s : LRUCacheReader) : Prop where
  m_mmap : s.m_mmap = r.m_mmap
  right : s.Cached memory
  m_cache : LRUCache.Beside small large r.m_cache s.m_cache

theorem beside_new (m_mmap : Mmap) {small large : Nat} (hlarge : 1 ≤ large) (h : small ≤ large) :
    Beside memory small large (new m_mmap small) (new m_mmap large) where
  m_mmap := rfl
  right := cached_new memory m_mmap hlarge
  m_cache := LRUCache.beside_new h

section

variable {small large : Nat} {r s : LRUCacheReader}

/-- One read of both readers: they return the same. -/
theorem getEntry_beside (hsmall : 0 < small) (hlarge : 0 < large)
    (h : Beside memory small large r s) {key : Key} {entry : Option Address} {r' : LRUCacheReader}
    (hread : r.getEntry memory key = some (entry, r')) :
    ∃ s', s.getEntry memory key = some (entry, s') ∧ Beside memory small large r' s' := by
  obtain ⟨ref, ref', href, href', hincluded⟩ := h.m_cache
  have hright : ∀ held, ref'.entries.lookup key = some held →
      ∃ p, held = some p ∧ Reader.getEntry memory r.m_mmap key = some (some p) := by
    intro held hheld
    rw [← h.m_mmap]
    exact h.right.found key held (href'.contents_eq ▸ AssocList.mem_of_lookup hheld)
  have hspec := getEntry_refines memory hsmall href key
  have hspec' := getEntry_refines memory hlarge href' key
  cases hc : referenceGetEntry hsmall memory r.m_mmap ref key with
  | none =>
      simp only [hc, hread] at hspec
      cases hspec
  | some res =>
      obtain ⟨entry₁, c'⟩ := res
      obtain ⟨d', hd, hincluded'⟩ :=
        referenceGetEntry_included hsmall hlarge hincluded hright hc
      rw [hc] at hspec
      rw [h.m_mmap, hd] at hspec'
      obtain ⟨r₁, hr, hrm, hr₁⟩ := hspec
      obtain ⟨s₁, hs, hsm, hs₁⟩ := hspec'
      rw [hread] at hr
      cases hr
      have hcached := getEntry_spec h.right key
      cases hsearch : Reader.getEntry memory s.m_mmap key with
      | none =>
          simp only [hsearch, hs] at hcached
          cases hcached
      | some found =>
          rw [hsearch] at hcached
          obtain ⟨s₂, hs₂, hright', -⟩ := hcached
          rw [hs] at hs₂
          cases hs₂
          exact ⟨s₁, hs, by rw [hsm, hrm], hright', c', d', hr₁, hs₁, hincluded'⟩

theorem afterEntries_beside (hsmall : 0 < small) (hlarge : 0 < large)
    (h : Beside memory small large r s) {keys : List Key} {r' : LRUCacheReader}
    (hreads : r.afterEntries memory keys = some r') :
    ∃ s', s.afterEntries memory keys = some s' ∧ Beside memory small large r' s' := by
  induction keys generalizing r s with
  | nil =>
      cases hreads
      exact ⟨s, rfl, h⟩
  | cons key keys ih =>
      obtain ⟨⟨entry, r₁⟩, hread, hrest⟩ := Option.bind_eq_some_iff.mp hreads
      obtain ⟨s₁, hread', h₁⟩ := getEntry_beside hsmall hlarge h hread
      obtain ⟨s', hrest', h'⟩ := ih h₁ hrest
      exact ⟨s', by simp [afterEntries, hread', hrest'], h'⟩

/-- What `getEntry` finds in a cache is what the cache holds. -/
theorem cached_eq_held (h : r.m_cache.Linked) (key : Key) :
    r.cached key = (r.m_cache.held key).join := by
  rw [LRUCacheReader.cached, LRUCache.held_eq_lookup h]
  cases hlookup : r.m_cache.contents.lookup key with
  | none => simp [LRUCache.get_miss h hlookup]
  | some entry =>
      obtain ⟨c', hget, -⟩ := LRUCache.get_hit h hlookup
      simp [hget]

theorem Beside.cached (h : Beside memory small large r s) {key : Key} {p : Address}
    (hcached : r.cached key = some p) : s.cached key = some p := by
  obtain ⟨ref, ref', href, href', -⟩ := h.m_cache
  rw [cached_eq_held href.linked, Option.join_eq_some_iff] at hcached
  rw [cached_eq_held href'.linked, Option.join_eq_some_iff]
  exact h.m_cache.held hcached

end

/-- **Inclusion.**  Caches of two sizes that get the same calls, and readers with caches of two
sizes that read the same keys: after any number of calls the larger cache holds, with the same
pointer, every key that the smaller one holds, and a read that the smaller cache answers the
larger one answers too. -/
theorem lru_inclusion {c₁ c₂ : Nat} (hpos : 1 ≤ c₁) (hle : c₁ ≤ c₂) :
    (∀ (Entry : Type) (calls : List (LRUCache.Call Entry)), ∃ results small results' large,
      (LRUCache.new c₁).run calls = some (results, small) ∧
      (LRUCache.new c₂).run calls = some (results', large) ∧
      ∀ key entry, small.held key = some entry → large.held key = some entry) ∧
    ∀ (memory : Memory) (m_mmap : Mmap) (keys : List Key) (small : LRUCacheReader),
      (new m_mmap c₁).afterEntries memory keys = some small →
      ∃ large, (new m_mmap c₂).afterEntries memory keys = some large ∧
        (∀ key entry, small.m_cache.held key = some entry → large.m_cache.held key = some entry) ∧
        ∀ key p, small.cached key = some p → large.cached key = some p := by
  have hpos' : 1 ≤ c₂ := hpos.trans hle
  constructor
  · intro Entry calls
    obtain ⟨results, small, results', large, hrun, hrun', hbeside⟩ :=
      LRUCache.run_beside hpos hpos' (LRUCache.beside_new hle) calls
    exact ⟨results, small, results', large, hrun, hrun', fun _ _ hheld => hbeside.held hheld⟩
  · intro memory m_mmap keys small hreads
    obtain ⟨large, hreads', hbeside⟩ :=
      afterEntries_beside hpos hpos' (beside_new m_mmap hpos' hle) hreads
    exact ⟨large, hreads', fun _ _ hheld => hbeside.m_cache.held hheld, fun _ _ => hbeside.cached⟩

/-- Sizes one and two, after reading the keys 1, 2 and 1 again. -/
theorem lru_inclusion_twoEntries :
    ∃ large, (new ⟨0, 56⟩ 2).afterEntries twoEntries [1, 2, 1] = some large ∧
      large.cached 1 = some 0 := by
  obtain ⟨small, hreads, hcached⟩ : ∃ small,
      (new ⟨0, 56⟩ 1).afterEntries twoEntries [1, 2, 1] = some small ∧ small.cached 1 = some 0 := by
    refine ⟨((new ⟨0, 56⟩ 1).afterEntries twoEntries [1, 2, 1]).get (by decide +kernel),
      (Option.some_get _).symm, by decide +kernel⟩
  obtain ⟨large, hreads', -, hhit⟩ :=
    (@lru_inclusion 1 2 (by decide) (by decide)).2 twoEntries ⟨0, 56⟩ [1, 2, 1] small hreads
  exact ⟨large, hreads', hhit 1 0 hcached⟩

end LRUCacheReader
end BigFile
end AdvCppHW
