import Mathlib.Data.List.Infix
import Mathlib.Data.Set.Basic

/-!
# Prefix codes

Words of which none begins another can be told apart in a row: where one row of words begins
another, it is the beginning of it word by word.
-/

namespace AdvCppHW
namespace Support

universe u

variable {α : Type u} {S : Set (List α)}

/-- No word begins another one, and none is empty. -/
structure PrefixCode (S : Set (List α)) : Prop where
  ne_nil : ∀ w ∈ S, w ≠ []
  eq_of_prefix : ∀ w ∈ S, ∀ v ∈ S, w <+: v → w = v

namespace PrefixCode

/-- The first words of two rows of which one begins the other are the same. -/
theorem head_eq (h : PrefixCode S) {w v : List α} (hw : w ∈ S) (hv : v ∈ S) {p q : List α}
    (hpre : w ++ p <+: v ++ q) : w = v ∧ p <+: q := by
  have hw' : w <+: v ++ q := (List.prefix_append w p).trans hpre
  have heq : w = v := by
    rcases List.prefix_or_prefix_of_prefix hw' (List.prefix_append v q) with hwv | hvw
    · exact h.eq_of_prefix w hw v hv hwv
    · exact (h.eq_of_prefix v hv w hw hvw).symm
  subst heq
  exact ⟨rfl, (List.prefix_append_right_inj w).mp hpre⟩

theorem prefix_of_flatten_prefix (h : PrefixCode S) {ws vs : List (List α)} (hws : ∀ w ∈ ws, w ∈ S)
    (hvs : ∀ v ∈ vs, v ∈ S) (hpre : ws.flatten <+: vs.flatten) : ws <+: vs := by
  induction ws generalizing vs with
  | nil => exact List.nil_prefix
  | cons w ws ih =>
      have hw := hws w List.mem_cons_self
      cases vs with
      | nil =>
          rw [List.flatten_nil, List.prefix_nil, List.flatten_cons] at hpre
          exact absurd (List.append_eq_nil_iff.mp hpre).1 (h.ne_nil w hw)
      | cons v vs =>
          rw [List.flatten_cons, List.flatten_cons] at hpre
          obtain ⟨rfl, hrest⟩ := h.head_eq hw (hvs v List.mem_cons_self) hpre
          refine (List.prefix_cons_inj w).mpr (ih ?_ ?_ hrest)
          · exact fun u hu => hws u (List.mem_cons_of_mem w hu)
          · exact fun u hu => hvs u (List.mem_cons_of_mem w hu)

end PrefixCode
end Support
end AdvCppHW
