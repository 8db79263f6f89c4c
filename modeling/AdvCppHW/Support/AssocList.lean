import Mathlib.Data.List.Nodup

/-!
# Association lists with distinct keys

What `List.lookup` finds, and the entries under other keys.
-/

namespace AdvCppHW
namespace Support
namespace AssocList

universe u v

variable {κ : Type u} {ν : Type v} [DecidableEq κ]

theorem lookup_of_mem {es : List (κ × ν)} (hnodup : (es.map Prod.fst).Nodup) {k : κ} {v : ν}
    (h : (k, v) ∈ es) : es.lookup k = some v := by
  induction es with
  | nil => cases h
  | cons e es ih =>
      obtain ⟨hnot, hrest⟩ := List.nodup_cons.mp hnodup
      rcases List.mem_cons.mp h with rfl | h
      · simp
      · have hne : k ≠ e.1 := fun heq => hnot (List.mem_map.mpr ⟨(k, v), h, heq⟩)
        rw [List.lookup_cons, beq_false_of_ne hne]
        exact ih hrest h

theorem mem_of_lookup {es : List (κ × ν)} {k : κ} {v : ν} (h : es.lookup k = some v) :
    (k, v) ∈ es := by
  obtain ⟨front, back, rfl, -⟩ := List.lookup_eq_some_iff.mp h
  simp

theorem mem_keys_of_lookup {es : List (κ × ν)} {k : κ} {v : ν} (h : es.lookup k = some v) :
    k ∈ es.map Prod.fst :=
  List.mem_map.mpr ⟨(k, v), mem_of_lookup h, rfl⟩

/-- The entries under other keys. -/
def others (k : κ) (es : List (κ × ν)) : List (κ × ν) := es.filter fun e => e.1 ≠ k

theorem others_nodup {k : κ} {es : List (κ × ν)} (h : (es.map Prod.fst).Nodup) :
    ((others k es).map Prod.fst).Nodup :=
  h.sublist (List.filter_sublist.map Prod.fst)

theorem notMem_others (k : κ) (es : List (κ × ν)) : k ∉ (others k es).map Prod.fst := by
  simp [others]

theorem length_others_le (k : κ) (es : List (κ × ν)) : (others k es).length ≤ es.length :=
  List.length_filter_le _ _

theorem length_others_lt {k : κ} {es : List (κ × ν)} (h : k ∈ es.map Prod.fst) :
    (others k es).length < es.length := by
  obtain ⟨e, he, rfl⟩ := List.mem_map.mp h
  exact List.length_filter_lt_length_iff_exists.mpr ⟨e, he, by simp⟩

theorem keys_others (k : κ) (es : List (κ × ν)) :
    (others k es).map Prod.fst = (es.map Prod.fst).filter fun k' => k' ≠ k := by
  rw [others, List.filter_map]
  rfl

/-- A key that is present has exactly one entry. -/
theorem length_others_of_mem {k : κ} {es : List (κ × ν)} (hnodup : (es.map Prod.fst).Nodup)
    (h : k ∈ es.map Prod.fst) : (others k es).length + 1 = es.length := by
  have herase : (others k es).map Prod.fst = (es.map Prod.fst).erase k := by
    rw [keys_others, hnodup.erase_eq_filter]
    exact List.filter_congr fun k' _ => by simp [bne, beq_eq_decide]
  have hlen := congrArg List.length herase
  have hpos := List.length_pos_of_mem h
  rw [List.length_map, List.length_erase_of_mem h, List.length_map] at hlen
  rw [List.length_map] at hpos
  omega

theorem others_sublist {k : κ} {es fs : List (κ × ν)} (h : es.Sublist fs) :
    (others k es).Sublist (others k fs) :=
  h.filter _

theorem others_of_notMem {k : κ} {es : List (κ × ν)} (h : k ∉ es.map Prod.fst) :
    others k es = es :=
  List.filter_eq_self.mpr fun e he => by
    simpa using fun heq : e.1 = k => h (List.mem_map.mpr ⟨e, he, heq⟩)

end AssocList
end Support
end AdvCppHW
