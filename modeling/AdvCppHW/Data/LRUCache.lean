import Mathlib.Data.Finmap
import AdvCppHW.Support.NodeList
import AdvCppHW.Support.RecencyCache

/-!
# The LRU cache

The class template `LRUCache` of `data/LRUCache.hpp`: a list of entries in order of recency, and a
map from keys to iterators into it.  A member returns `none` where the source has undefined
behaviour: an invalid iterator, or the last element of an empty list.

* `Linked` — map and list correspond, keys are distinct, the size is bounded.
* `step_refines` — every call is the call of the reference cache and keeps `Linked`.
* `run_refines` — so are whole sequences of calls, from an empty cache.
* `step_beside`, `run_beside` — a cache beside a larger one that gets the same calls.
-/

namespace AdvCppHW
namespace Data

open Support

variable {Entry : Type}

/-- `Key`. -/
abbrev Key := UInt64

/-- `LRUCache`; an `Entry *` is an `Option`, with `none` for `nullptr`. -/
structure LRUCache (Entry : Type) where
  m_cache : NodeList (Key × Option Entry)
  m_cacheMap : Finmap fun _ : Key => Nat
  m_cacheSize : Nat

namespace LRUCache

def new (cacheSize : Nat) : LRUCache Entry := ⟨NodeList.empty, ∅, cacheSize⟩

def removeLRU (c : LRUCache Entry) : Option (LRUCache Entry) := do
  let last ← c.m_cache.back?
  let m_cache ← c.m_cache.popBack?
  some { c with m_cache := m_cache, m_cacheMap := c.m_cacheMap.erase last.1 }

def insert (c : LRUCache Entry) (key : Key) (entry : Option Entry) : LRUCache Entry :=
  let (newValue, m_cache) := c.m_cache.pushFront (key, entry)
  { c with m_cache := m_cache, m_cacheMap := c.m_cacheMap.insert key newValue }

def remove (c : LRUCache Entry) (key : Key) : Option (LRUCache Entry) :=
  match c.m_cacheMap.lookup key with
  | none => some c
  | some i => do
      let m_cache ← c.m_cache.erase? i
      some { c with m_cache := m_cache, m_cacheMap := c.m_cacheMap.erase key }

def get (c : LRUCache Entry) (key : Key) : Option (Option Entry × LRUCache Entry) :=
  match c.m_cacheMap.lookup key with
  | none => some (none, c)
  | some i => do
      let (_, res) ← c.m_cache.deref? i
      let c ← c.remove key
      some (res, c.insert key res)

def add (c : LRUCache Entry) (key : Key) (entry : Option Entry) : Option (LRUCache Entry) := do
  let c ← c.remove key
  let c ← if c.m_cache.size ≥ c.m_cacheSize then c.removeLRU else some c
  some (c.insert key entry)

/-- The entries, the most recent first. -/
def contents (c : LRUCache Entry) : List (Key × Option Entry) := c.m_cache.toList

/-! ## Map and list -/

/-- The map leads from the key of each node to that node and has no other entries; no two nodes have
the same key, and there are at most `m_cacheSize`. -/
structure Linked (c : LRUCache Entry) : Prop where
  iterators : ∀ key i, c.m_cacheMap.lookup key = some i ↔ ∃ entry, (i, key, entry) ∈ c.m_cache.nodes
  keys_nodup : (c.contents.map Prod.fst).Nodup
  size_le : c.m_cache.size ≤ c.m_cacheSize

theorem linked_new (cacheSize : Nat) : (new cacheSize : LRUCache Entry).Linked where
  iterators key i := by simp [new, NodeList.empty]
  keys_nodup := by simp [new, contents]
  size_le := Nat.zero_le _

theorem mem_contents {c : LRUCache Entry} {key : Key} {entry : Option Entry} :
    (key, entry) ∈ c.contents ↔ ∃ i, (i, key, entry) ∈ c.m_cache.nodes := by
  simp [contents, NodeList.toList]

section

variable {c : LRUCache Entry} (h : c.Linked)
include h

theorem lookup_isSome_iff (key : Key) :
    (∃ i, c.m_cacheMap.lookup key = some i) ↔ key ∈ c.contents.map Prod.fst := by
  simp only [h.iterators, List.mem_map, Prod.exists, exists_and_right,
    exists_eq_right, mem_contents]
  exact exists_comm

/-- The map has as many keys as the list has nodes. -/
theorem keys_card : c.m_cacheMap.keys.card = c.m_cache.size := by
  have hkeys : c.m_cacheMap.keys = (c.contents.map Prod.fst).toFinset := by
    ext key
    rw [List.mem_toFinset, ← lookup_isSome_iff h key, Finmap.mem_keys, Finmap.mem_iff]
  rw [hkeys, List.toFinset_card_of_nodup h.keys_nodup, List.length_map, contents,
    NodeList.length_toList]

theorem lookup_contents {key : Key} {i : Nat} (hi : c.m_cacheMap.lookup key = some i) :
    ∃ entry, c.m_cache.deref? i = some (key, entry) ∧ c.contents.lookup key = some entry := by
  obtain ⟨entry, hmem⟩ := (h.iterators key i).mp hi
  refine ⟨entry, NodeList.deref?_of_mem hmem, ?_⟩
  have hcontents := mem_contents.mpr ⟨i, hmem⟩
  exact AssocList.lookup_of_mem h.keys_nodup hcontents

/-- The iterator of a key is that of the one node with the key. -/
theorem id_eq_iff {key : Key} {i : Nat} (hi : c.m_cacheMap.lookup key = some i)
    {n : Nat × Key × Option Entry} (hn : n ∈ c.m_cache.nodes) : n.1 = i ↔ n.2.1 = key := by
  obtain ⟨j, k, e⟩ := n
  constructor
  · rintro rfl
    obtain ⟨entry, hmem⟩ := (h.iterators key j).mp hi
    exact congrArg Prod.fst (NodeList.eq_of_mem_nodes hn hmem)
  · rintro rfl
    have hj := (h.iterators k j).mpr ⟨e, hn⟩
    rw [hi] at hj
    exact (Option.some.inj hj).symm

/-! ## What each member does -/

theorem remove_spec (key : Key) :
    ∃ c', c.remove key = some c' ∧ c'.Linked ∧ c'.m_cacheSize = c.m_cacheSize ∧
      c'.contents = AssocList.others key c.contents := by
  unfold remove
  cases hi : c.m_cacheMap.lookup key with
  | none =>
      have hnot : key ∉ c.contents.map Prod.fst := by
        rw [← lookup_isSome_iff h, hi]
        exact fun ⟨i, hi⟩ => nomatch hi
      exact ⟨c, rfl, h, rfl, (AssocList.others_of_notMem hnot).symm⟩
  | some i =>
      obtain ⟨entry, hmem⟩ := (h.iterators key i).mp hi
      have hcontents : ((c.m_cache.filter fun n => n.1 ≠ i).toList) =
          AssocList.others key c.contents := by
        rw [contents, NodeList.toList, NodeList.toList, AssocList.others, List.filter_map]
        refine congrArg _ (List.filter_congr fun n hn => ?_)
        simp [id_eq_iff h hi hn]
      refine ⟨{ c with
          m_cache := c.m_cache.filter fun n => n.1 ≠ i
          m_cacheMap := c.m_cacheMap.erase key },
        by simp [NodeList.erase?_of_mem hmem], ⟨fun k j => ?_, ?_, ?_⟩, rfl, hcontents⟩
      · show (c.m_cacheMap.erase key).lookup k = some j ↔ _
        have hother : (∃ e, (j, k, e) ∈ (c.m_cache.filter fun n => n.1 ≠ i).nodes) ↔
            (∃ e, (j, k, e) ∈ c.m_cache.nodes) ∧ k ≠ key := by
          simp only [NodeList.mem_filter, decide_eq_true_eq]
          constructor
          · rintro ⟨e, hn, hne⟩
            exact ⟨⟨e, hn⟩, fun hk => hne ((id_eq_iff h hi hn).mpr hk)⟩
          · rintro ⟨⟨e, hn⟩, hne⟩
            exact ⟨e, hn, fun hj => hne ((id_eq_iff h hi hn).mp hj)⟩
        rw [hother, ← h.iterators]
        by_cases hk : k = key
        · subst hk
          simp [Finmap.lookup_erase]
        · simp [Finmap.lookup_erase_ne hk, hk]
      · show ((c.m_cache.filter fun n => n.1 ≠ i).toList.map Prod.fst).Nodup
        rw [hcontents]
        exact AssocList.others_nodup h.keys_nodup
      · exact (List.length_filter_le _ _).trans h.size_le

theorem removeLRU_spec (hne : c.contents ≠ []) :
    ∃ c', c.removeLRU = some c' ∧ c'.Linked ∧ c'.m_cacheSize = c.m_cacheSize ∧
      c'.contents = c.contents.dropLast := by
  obtain ⟨ns, ⟨i, key, entry⟩, hnodes⟩ : ∃ ns n, c.m_cache.nodes = ns ++ [n] := by
    have hnodes : c.m_cache.nodes ≠ [] :=
      fun hnil => hne (by simp [contents, NodeList.toList, hnil])
    exact ⟨_, _, (List.dropLast_append_getLast hnodes).symm⟩
  obtain ⟨m_cache, hpop, hns, hback⟩ := NodeList.popBack?_concat hnodes
  have hkeys : (ns.map fun n => n.2.1).Nodup ∧ key ∉ ns.map fun n => n.2.1 := by
    have hnodup := h.keys_nodup
    rw [contents, NodeList.toList, hnodes, List.map_append, List.map_append, List.map_map,
      List.nodup_append] at hnodup
    exact ⟨hnodup.1, fun hmem => hnodup.2.2 key hmem key (by simp) rfl⟩
  have hcontents : m_cache.toList = c.contents.dropLast := by
    simp [contents, NodeList.toList, hns, hnodes]
  refine ⟨{ c with m_cache := m_cache, m_cacheMap := c.m_cacheMap.erase key },
    by simp [removeLRU, hback, hpop], ⟨fun k j => ?_, ?_, ?_⟩, rfl, hcontents⟩
  · show (c.m_cacheMap.erase key).lookup k = some j ↔ ∃ e, (j, k, e) ∈ m_cache.nodes
    rw [hns]
    by_cases hk : k = key
    · subst hk
      rw [Finmap.lookup_erase]
      constructor
      · intro hnone
        exact absurd hnone.symm (Option.some_ne_none j)
      · rintro ⟨e, hn⟩
        exact absurd (List.mem_map.mpr ⟨(j, k, e), hn, rfl⟩) hkeys.2
    · rw [Finmap.lookup_erase_ne hk, h.iterators, hnodes]
      simp [hk]
  · show (m_cache.toList.map Prod.fst).Nodup
    rw [hcontents]
    exact h.keys_nodup.sublist ((List.dropLast_sublist _).map Prod.fst)
  · have hsize := h.size_le
    simp only [NodeList.size, hns, hnodes, List.length_append] at hsize ⊢
    omega

theorem insert_spec {key : Key} (entry : Option Entry) (hnew : key ∉ c.contents.map Prod.fst)
    (hroom : c.m_cache.size < c.m_cacheSize) :
    (c.insert key entry).Linked ∧ (c.insert key entry).contents = (key, entry) :: c.contents := by
  refine ⟨⟨fun k j => ?_, List.nodup_cons.mpr ⟨hnew, h.keys_nodup⟩, hroom⟩, rfl⟩
  show (c.m_cacheMap.insert key c.m_cache.next).lookup k = some j ↔
    ∃ e, (j, k, e) ∈ (c.m_cache.next, key, entry) :: c.m_cache.nodes
  by_cases hk : k = key
  · subst hk
    have hold : ∀ e, (j, k, e) ∉ c.m_cache.nodes := fun e hn =>
      hnew (List.mem_map.mpr ⟨(k, e), mem_contents.mpr ⟨j, hn⟩, rfl⟩)
    rw [Finmap.lookup_insert]
    simp [hold, eq_comm]
  · rw [Finmap.lookup_insert_of_ne _ hk, h.iterators]
    simp [hk]

theorem add_spec (hsize : 1 ≤ c.m_cacheSize) (key : Key) (entry : Option Entry) :
    ∃ c', c.add key entry = some c' ∧ c'.Linked ∧ c'.m_cacheSize = c.m_cacheSize ∧
      c'.contents = (key, entry) ::
        if (AssocList.others key c.contents).length ≥ c.m_cacheSize then
          (AssocList.others key c.contents).dropLast
        else AssocList.others key c.contents := by
  obtain ⟨c₁, hremove, hlinked, hcap, hcontents⟩ := remove_spec h key
  have hnot : key ∉ c₁.contents.map Prod.fst := by
    rw [hcontents]
    exact AssocList.notMem_others key _
  have hlen : c₁.m_cache.size = (AssocList.others key c.contents).length := by
    rw [← hcontents, contents, NodeList.length_toList]
  rw [← hcontents] at hlen ⊢
  unfold add
  -- the old node of the key is gone already, so only a new key can find the cache full
  by_cases hfull : c₁.m_cache.size ≥ c₁.m_cacheSize
  · have hne : c₁.contents ≠ [] := by
      intro hnil
      rw [hnil] at hlen
      rw [hlen, hcap] at hfull
      exact absurd hfull (by simp; omega)
    obtain ⟨c₂, hlru, hlinked₂, hcap₂, hcontents₂⟩ := removeLRU_spec hlinked hne
    have hlen₂ : c₂.m_cache.size = c₁.m_cache.size - 1 := by
      rw [← NodeList.length_toList, ← contents, hcontents₂, List.length_dropLast, hlen]
    have hroom : c₂.m_cache.size < c₂.m_cacheSize := by
      have := hlinked.size_le
      omega
    obtain ⟨hlinked₃, hcontents₃⟩ := insert_spec hlinked₂ entry
      (fun hmem => hnot (((List.dropLast_sublist _).map Prod.fst).subset (hcontents₂ ▸ hmem))) hroom
    refine ⟨_, by simp [hremove, hfull, hlru], hlinked₃, hcap₂.trans hcap, ?_⟩
    rw [hcontents₃, hcontents₂, if_pos (by omega)]
  · obtain ⟨hlinked₃, hcontents₃⟩ := insert_spec hlinked entry hnot (Nat.lt_of_not_le hfull)
    refine ⟨_, by simp [hremove, hfull], hlinked₃, hcap, ?_⟩
    rw [hcontents₃, if_neg (by omega)]

theorem get_miss {key : Key} (hmiss : c.contents.lookup key = none) :
    c.get key = some (none, c) := by
  unfold get
  cases hi : c.m_cacheMap.lookup key with
  | none => rfl
  | some i =>
      obtain ⟨entry, -, hentry⟩ := lookup_contents h hi
      rw [hmiss] at hentry
      cases hentry

theorem get_hit {key : Key} {entry : Option Entry} (hhit : c.contents.lookup key = some entry) :
    ∃ c', c.get key = some (entry, c') ∧ c'.Linked ∧ c'.m_cacheSize = c.m_cacheSize ∧
      c'.contents = (key, entry) :: AssocList.others key c.contents := by
  have hmem := AssocList.mem_keys_of_lookup hhit
  obtain ⟨i, hi⟩ := (lookup_isSome_iff h key).mpr hmem
  obtain ⟨entry', hderef, hentry⟩ := lookup_contents h hi
  obtain rfl : entry' = entry := Option.some.inj (hentry.symm.trans hhit)
  obtain ⟨c₁, hremove, hlinked, hcap, hcontents⟩ := remove_spec h key
  have hroom : c₁.m_cache.size < c₁.m_cacheSize := by
    rw [← NodeList.length_toList, ← contents, hcontents, hcap]
    refine (AssocList.length_others_lt hmem).trans_le ?_
    rw [contents, NodeList.length_toList]
    exact h.size_le
  obtain ⟨hlinked₂, hcontents₂⟩ := insert_spec hlinked entry'
    (by rw [hcontents]; exact AssocList.notMem_others key _) hroom
  refine ⟨c₁.insert key entry', ?_, hlinked₂, hcap, by rw [hcontents₂, hcontents]⟩
  simp [get, hi, hderef, hremove]

/-- `get` brings no new key into the cache. -/
theorem get_subset {key : Key} {res : Option Entry} {c' : LRUCache Entry}
    (hget : c.get key = some (res, c')) :
    c'.Linked ∧ c'.m_cacheSize = c.m_cacheSize ∧
      ∀ e ∈ c'.contents, e.1 = key ∨ e ∈ c.contents := by
  cases hlookup : c.contents.lookup key with
  | none =>
      rw [get_miss h hlookup] at hget
      cases hget
      exact ⟨h, rfl, fun e he => Or.inr he⟩
  | some entry =>
      obtain ⟨c₁, hget₁, hlinked, hcap, hcontents⟩ := get_hit h hlookup
      rw [hget₁] at hget
      cases hget
      refine ⟨hlinked, hcap, fun e he => ?_⟩
      rw [hcontents] at he
      rcases List.mem_cons.mp he with rfl | he
      · exact Or.inl rfl
      · exact Or.inr (List.mem_of_mem_filter he)

/-- `add` brings only its own key into the cache. -/
theorem add_subset (hsize : 1 ≤ c.m_cacheSize) {key : Key} {entry : Option Entry}
    {c' : LRUCache Entry} (hadd : c.add key entry = some c') :
    ∀ e ∈ c'.contents, e.1 = key ∨ e ∈ c.contents := by
  obtain ⟨c₁, hadd₁, -, -, hcontents⟩ := add_spec h hsize key entry
  rw [hadd₁] at hadd
  cases hadd
  intro e he
  rw [hcontents] at he
  rcases List.mem_cons.mp he with rfl | he
  · exact Or.inl rfl
  · right
    split at he
    · exact List.mem_of_mem_filter ((List.dropLast_sublist _).subset he)
    · exact List.mem_of_mem_filter he

end

/-! ## Refinement -/

/-- A call of a public member. -/
inductive Call (Entry : Type) where
  | get (key : Key)
  | add (key : Key) (entry : Option Entry)
  | remove (key : Key)

/-- A call on the cache: what `get` returns (`none` for the other members),
and the cache after it. -/
def step (c : LRUCache Entry) : Call Entry → Option (Option (Option Entry) × LRUCache Entry)
  | .get key => (c.get key).map fun (res, c) => (some res, c)
  | .add key entry => (c.add key entry).map fun c => (none, c)
  | .remove key => (c.remove key).map fun c => (none, c)

/-- Successive calls: what the calls of `get` return, and the cache after all of them. -/
def run (c : LRUCache Entry) : List (Call Entry) → Option (List (Option Entry) × LRUCache Entry)
  | [] => some ([], c)
  | call :: calls => do
      let (res, c) ← c.step call
      let (results, c) ← c.run calls
      some (res.toList ++ results, c)

/-- A call on the reference cache; no entry is `nullptr`. -/
def referenceStep {capacity : Nat} (hcapacity : 0 < capacity)
    (c : RecencyCache Key (Option Entry) capacity) :
    Call Entry → Option (Option Entry) × RecencyCache Key (Option Entry) capacity
  | .get key => (some (c.get key).1.join, (c.get key).2)
  | .add key entry => (none, RecencyCache.add hcapacity c key entry)
  | .remove key => (none, c.remove key)

def referenceRun {capacity : Nat} (hcapacity : 0 < capacity)
    (c : RecencyCache Key (Option Entry) capacity) :
    List (Call Entry) → List (Option Entry) × RecencyCache Key (Option Entry) capacity
  | [] => ([], c)
  | call :: calls =>
      let (res, c) := referenceStep hcapacity c call
      let (results, c) := referenceRun hcapacity c calls
      (res.toList ++ results, c)

/-- The cache corresponds to a reference cache. -/
structure Refines {capacity : Nat} (c : LRUCache Entry)
    (ref : RecencyCache Key (Option Entry) capacity) : Prop where
  linked : c.Linked
  capacity_eq : c.m_cacheSize = capacity
  contents_eq : c.contents = ref.entries

theorem step_refines {capacity : Nat} (hcapacity : 0 < capacity) {c : LRUCache Entry}
    {ref : RecencyCache Key (Option Entry) capacity} (h : c.Refines ref) (call : Call Entry) :
    ∃ c', c.step call = some ((referenceStep hcapacity ref call).1, c') ∧
      c'.Refines (referenceStep hcapacity ref call).2 := by
  have hsize : 1 ≤ c.m_cacheSize := h.capacity_eq ▸ hcapacity
  cases call with
  | get key =>
      cases hlookup : ref.entries.lookup key with
      | none =>
          rw [step, get_miss h.linked (h.contents_eq ▸ hlookup)]
          simp only [referenceStep, RecencyCache.get_of_none hlookup]
          exact ⟨c, rfl, h⟩
      | some entry =>
          have hhit : c.contents.lookup key = some entry := h.contents_eq ▸ hlookup
          obtain ⟨c', hget, hlinked, hcap, hcontents⟩ := get_hit h.linked hhit
          obtain ⟨hres, hentries⟩ := RecencyCache.get_of_some hlookup
          simp only [step, hget, referenceStep, hres]
          exact ⟨c', rfl, hlinked, hcap.trans h.capacity_eq,
            by rw [hentries, hcontents, h.contents_eq]⟩
  | add key entry =>
      obtain ⟨c', hadd, hlinked, hcap, hcontents⟩ := add_spec h.linked hsize key entry
      simp only [step, hadd, referenceStep]
      exact ⟨c', rfl, hlinked, hcap.trans h.capacity_eq,
        by rw [RecencyCache.entries_add, hcontents, h.contents_eq, h.capacity_eq]⟩
  | remove key =>
      obtain ⟨c', hremove, hlinked, hcap, hcontents⟩ := remove_spec h.linked key
      simp only [step, hremove, referenceStep]
      exact ⟨c', rfl, hlinked, hcap.trans h.capacity_eq, by rw [hcontents, h.contents_eq]; rfl⟩

theorem run_refines_from {capacity : Nat} (hcapacity : 0 < capacity) {c : LRUCache Entry}
    {ref : RecencyCache Key (Option Entry) capacity} (h : c.Refines ref)
    (calls : List (Call Entry)) :
    ∃ c', c.run calls = some ((referenceRun hcapacity ref calls).1, c') ∧
      c'.Refines (referenceRun hcapacity ref calls).2 := by
  induction calls generalizing c ref with
  | nil => exact ⟨c, rfl, h⟩
  | cons call calls ih =>
      obtain ⟨c₁, hstep, h₁⟩ := step_refines hcapacity h call
      obtain ⟨c₂, hrun, h₂⟩ := ih h₁
      exact ⟨c₂, by simp [run, referenceRun, hstep, hrun], h₂⟩

/-- **The cache refines the reference cache.**  After any calls from an empty cache, every `get` has
returned what the reference cache returns and the entries are those of the reference cache in the
same order; the map has exactly one entry for each node, from the node's key to the node, and no two
nodes have the same key. -/
theorem run_refines {capacity : Nat} (hcapacity : 1 ≤ capacity) (calls : List (Call Entry)) :
    ∃ c, (new capacity).run calls =
        some ((referenceRun hcapacity RecencyCache.empty calls).1, c) ∧
      c.contents = (referenceRun hcapacity RecencyCache.empty calls).2.entries ∧
      c.m_cache.size ≤ capacity ∧
      (c.contents.map Prod.fst).Nodup ∧
      c.m_cacheMap.keys.card = c.m_cache.size ∧
      ∀ key i, c.m_cacheMap.lookup key = some i ↔ ∃ entry, (i, key, entry) ∈ c.m_cache.nodes := by
  have hnew : (new capacity : LRUCache Entry).Refines
      (RecencyCache.empty : RecencyCache Key (Option Entry) capacity) := ⟨linked_new _, rfl, rfl⟩
  obtain ⟨c, hrun, h⟩ := run_refines_from hcapacity hnew calls
  exact ⟨c, hrun, h.contents_eq, h.capacity_eq ▸ h.linked.size_le, h.linked.keys_nodup,
    keys_card h.linked, h.linked.iterators⟩

/-- With room for two entries the key that was not read again is evicted. -/
theorem run_refines_two : ∃ c : LRUCache Nat,
    (new 2).run [.add 1 (some 10), .add 2 (some 20), .get 1, .add 3 (some 30), .get 2, .get 1] =
      some ([some 10, none, some 10], c) := by
  obtain ⟨c, hrun, -⟩ := run_refines (by decide : 1 ≤ 2)
    ([.add 1 (some 10), .add 2 (some 20), .get 1, .add 3 (some 30), .get 2, .get 1] :
      List (Call Nat))
  exact ⟨c, hrun⟩

/-! ## Two capacities -/

/-- The pointer stored under a key, found as `get` finds it but without making the key recent;
`none` for a key the cache does not hold. -/
def held (c : LRUCache Entry) (key : Key) : Option (Option Entry) := do
  let i ← c.m_cacheMap.lookup key
  let (_, entry) ← c.m_cache.deref? i
  some entry

theorem held_eq_lookup {c : LRUCache Entry} (h : c.Linked) (key : Key) :
    c.held key = c.contents.lookup key := by
  unfold held
  cases hi : c.m_cacheMap.lookup key with
  | some i =>
      obtain ⟨entry, hderef, hentry⟩ := lookup_contents h hi
      simp [hderef, hentry]
  | none =>
      cases hentry : c.contents.lookup key with
      | none => rfl
      | some entry =>
          obtain ⟨i, hsome⟩ := (lookup_isSome_iff h key).mpr (AssocList.mem_keys_of_lookup hentry)
          rw [hi] at hsome
          cases hsome

/-- Two caches correspond to reference caches of which the second includes the first. -/
def Beside (small large : Nat) (c d : LRUCache Entry) : Prop :=
  ∃ (ref : RecencyCache Key (Option Entry) small) (ref' : RecencyCache Key (Option Entry) large),
    c.Refines ref ∧ d.Refines ref' ∧ RecencyCache.Included ref ref'

section Beside

variable {small large : Nat} {c d : LRUCache Entry}

theorem beside_new (h : small ≤ large) :
    Beside small large (new small : LRUCache Entry) (new large) :=
  ⟨RecencyCache.empty, RecencyCache.empty, ⟨linked_new _, rfl, rfl⟩, ⟨linked_new _, rfl, rfl⟩,
    RecencyCache.Included.of_empty h⟩

/-- The larger cache holds what the smaller one holds. -/
theorem Beside.held (h : Beside small large c d) {key : Key} {entry : Option Entry}
    (hheld : c.held key = some entry) : d.held key = some entry := by
  obtain ⟨ref, ref', hc, hd, hincluded⟩ := h
  rw [held_eq_lookup hc.linked, hc.contents_eq] at hheld
  rw [held_eq_lookup hd.linked, hd.contents_eq]
  exact hincluded.lookup hheld

/-- One call on both caches. -/
theorem step_beside (hsmall : 0 < small) (hlarge : 0 < large) (h : Beside small large c d)
    (call : Call Entry) :
    ∃ res c' res' d', c.step call = some (res, c') ∧ d.step call = some (res', d') ∧
      Beside small large c' d' := by
  obtain ⟨ref, ref', hc, hd, hincluded⟩ := h
  obtain ⟨c', hstep, hc'⟩ := step_refines hsmall hc call
  obtain ⟨d', hstep', hd'⟩ := step_refines hlarge hd call
  refine ⟨_, c', _, d', hstep, hstep', _, _, hc', hd', ?_⟩
  cases call with
  | get key => exact hincluded.get key
  | add key entry => exact hincluded.add hsmall hlarge key entry
  | remove key => exact hincluded.remove key

theorem run_beside (hsmall : 0 < small) (hlarge : 0 < large) (h : Beside small large c d)
    (calls : List (Call Entry)) :
    ∃ results c' results' d', c.run calls = some (results, c') ∧ d.run calls = some (results', d') ∧
      Beside small large c' d' := by
  induction calls generalizing c d with
  | nil => exact ⟨[], c, [], d, rfl, rfl, h⟩
  | cons call calls ih =>
      obtain ⟨res, c₁, res', d₁, hstep, hstep', h₁⟩ := step_beside hsmall hlarge h call
      obtain ⟨results, c₂, results', d₂, hrun, hrun', h₂⟩ := ih h₁
      exact ⟨res.toList ++ results, c₂, res'.toList ++ results', d₂, by simp [run, hstep, hrun],
        by simp [run, hstep', hrun'], h₂⟩

end Beside
end LRUCache
end Data
end AdvCppHW
