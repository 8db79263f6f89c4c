import Mathlib.Data.Finset.Card
import Mathlib.Data.List.Infix
import AdvCppHW.Support.RecencyCache

/-!
# Recency of keys

The keys of a sequence of uses, each once, the one used last first.  A cache that makes room by
giving up its least recent key holds the first ones of them.

* `recent` — the keys in order of recency; `mem_take_recent_iff` — where a key stands among them.
* `RecencyCache.keys_add` — what `add` does to the keys of a cache.
-/

namespace AdvCppHW
namespace Support

universe u v

section Recent

variable {κ : Type u} [DecidableEq κ]

/-- A key that is used goes to the front. -/
def touch (keys : List κ) (k : κ) : List κ := k :: keys.filter fun j => j ≠ k

/-- The keys in order of recency, after these uses. -/
def recent (uses : List κ) : List κ := uses.foldl touch []

@[simp] theorem recent_nil : recent ([] : List κ) = [] := rfl

theorem recent_append_singleton (uses : List κ) (k : κ) :
    recent (uses ++ [k]) = k :: (recent uses).filter fun j => j ≠ k := by
  rw [recent, List.foldl_append]
  rfl

theorem recent_nodup (uses : List κ) : (recent uses).Nodup := by
  induction uses using List.reverseRecOn with
  | nil => exact List.nodup_nil
  | append_singleton uses k ih =>
      rw [recent_append_singleton]
      exact List.nodup_cons.mpr ⟨by simp, ih.filter _⟩

theorem mem_recent {uses : List κ} {k : κ} : k ∈ recent uses ↔ k ∈ uses := by
  induction uses using List.reverseRecOn with
  | nil => simp
  | append_singleton uses j ih =>
      rw [recent_append_singleton, List.mem_cons, List.mem_filter, List.mem_append, ih]
      by_cases hk : k = j
      · simp [hk]
      · simp [hk]

theorem length_recent (uses : List κ) : (recent uses).length = uses.toFinset.card := by
  rw [← List.toFinset_card_of_nodup (recent_nodup uses)]
  congr 1
  ext k
  rw [List.mem_toFinset, List.mem_toFinset, mem_recent]

omit [DecidableEq κ] in
/-- A key that was used was used for the last time. -/
theorem exists_last_use {uses : List κ} {k : κ} (h : k ∈ uses) :
    ∃ before after, uses = before ++ k :: after ∧ k ∉ after := by
  obtain ⟨front, back, hsplit, hfront⟩ := List.eq_append_cons_of_mem (List.mem_reverse.mpr h)
  refine ⟨back.reverse, front.reverse, ?_, by simpa using hfront⟩
  rw [← List.reverse_reverse uses, hsplit]
  simp

/-- A key comes behind those that were used since. -/
theorem recent_split (before : List κ) {k : κ} {after : List κ} (hk : k ∉ after) :
    ∃ rest, recent (before ++ k :: after) = recent after ++ k :: rest := by
  induction after using List.reverseRecOn with
  | nil => exact ⟨_, recent_append_singleton before k⟩
  | append_singleton after j ih =>
      rw [List.mem_append, not_or, List.mem_singleton] at hk
      obtain ⟨rest, hrest⟩ := ih hk.1
      refine ⟨rest.filter fun i => i ≠ j, ?_⟩
      have hcons : before ++ k :: (after ++ [j]) = (before ++ k :: after) ++ [j] := by simp
      rw [hcons, recent_append_singleton, hrest, recent_append_singleton, List.filter_append,
        List.filter_cons_of_pos (by simpa using hk.2), List.cons_append]

/-- A key is among the first ones while fewer others were used since. -/
theorem mem_take_recent_iff (before : List κ) {k : κ} {after : List κ} (hk : k ∉ after) (c : Nat) :
    k ∈ (recent (before ++ k :: after)).take c ↔ after.toFinset.card < c := by
  obtain ⟨rest, hrest⟩ := recent_split before hk
  have hnodup : (recent after ++ k :: rest).Nodup := hrest ▸ recent_nodup _
  rw [hrest, ← length_recent]
  constructor
  · intro hmem
    by_contra hle
    -- the key would come among those used since
    rw [List.take_append_of_le_length (Nat.le_of_not_lt hle)] at hmem
    exact hk (mem_recent.mp (List.mem_of_mem_take hmem))
  · intro hlt
    rw [List.take_append, List.mem_append]
    refine Or.inr ?_
    obtain ⟨n, hn⟩ := Nat.exists_eq_succ_of_ne_zero (Nat.sub_ne_zero_of_lt hlt)
    rw [hn, List.take_succ_cons]
    exact List.mem_cons_self

theorem take_filter_take {keys : List κ} (hnodup : keys.Nodup) (k : κ) (n : Nat) :
    ((keys.take (n + 1)).filter fun j => j ≠ k).take n = (keys.filter fun j => j ≠ k).take n := by
  induction keys generalizing n with
  | nil => rfl
  | cons j keys ih =>
      obtain ⟨hj, hkeys⟩ := List.nodup_cons.mp hnodup
      rw [List.take_succ_cons]
      by_cases hjk : j = k
      · -- the key does not come again
        subst hjk
        have hothers : ∀ i ∈ keys, decide (i ≠ j) = true := fun i hi =>
          decide_eq_true fun hij => hj (hij ▸ hi)
        have htake : ∀ i ∈ keys.take n, decide (i ≠ j) = true := fun i hi =>
          hothers i (List.mem_of_mem_take hi)
        rw [List.filter_cons_of_neg (by simp), List.filter_cons_of_neg (by simp),
          List.filter_eq_self.mpr htake, List.filter_eq_self.mpr hothers,
          List.take_take, Nat.min_self]
      · rw [List.filter_cons_of_pos (by simpa using hjk),
          List.filter_cons_of_pos (by simpa using hjk)]
        cases n with
        | zero => rfl
        | succ n => rw [List.take_succ_cons, List.take_succ_cons, ih hkeys]

/-- What has been given up makes no difference to the keys that come first. -/
theorem take_touch {keys : List κ} (hnodup : keys.Nodup) (k : κ) (c : Nat) :
    (touch (keys.take c) k).take c = (touch keys k).take c := by
  cases c with
  | zero => rfl
  | succ n => rw [touch, touch, List.take_succ_cons, List.take_succ_cons, take_filter_take hnodup]

end Recent

namespace RecencyCache

variable {κ : Type u} {ν : Type v} {capacity : Nat} [DecidableEq κ]

theorem keys_add (hcapacity : 0 < capacity) (c : RecencyCache κ ν capacity) (key : κ) (v : ν) :
    (add hcapacity c key v).entries.map Prod.fst =
      (touch (c.entries.map Prod.fst) key).take capacity := by
  obtain ⟨n, rfl⟩ := Nat.exists_eq_succ_of_ne_zero hcapacity.ne'
  have hothers := AssocList.keys_others key c.entries
  have hle : (AssocList.others key c.entries).length ≤ n + 1 :=
    (AssocList.length_others_le key c.entries).trans c.length_le
  rw [entries_add, touch, List.take_succ_cons, ← hothers, List.map_cons, ← List.map_take]
  congr 2
  split
  · next hfull =>
      rw [List.dropLast_eq_take, show (AssocList.others key c.entries).length - 1 = n by omega]
  · next hroom => exact (List.take_of_length_le (by omega)).symm

/-- A cache that holds the first keys goes on to hold them. -/
theorem keys_add_recent (hcapacity : 0 < capacity) {c : RecencyCache κ ν capacity} {uses : List κ}
    (h : c.entries.map Prod.fst = (recent uses).take capacity) (key : κ) (v : ν) :
    (add hcapacity c key v).entries.map Prod.fst = (recent (uses ++ [key])).take capacity := by
  rw [keys_add, h, take_touch (recent_nodup uses), recent_append_singleton, touch]

end RecencyCache

end Support
end AdvCppHW
