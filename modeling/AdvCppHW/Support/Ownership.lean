import Mathlib.Data.Finset.Insert
import Mathlib.Data.Finset.Erase
import Mathlib.Data.List.Count

/-!
# Resources and their holders

Each holder holds one resource or none.  A resource is obtained from somewhere else, given from one
holder to another, and released; its name may be used again behind that.

* `Owned` — what is held is live, by one holder, and nothing else is live; each resource was
  released as often as it was obtained, but for once while it is held.
* `acquire`, `release`, `transfer`, `congr` — the operations keep it.
* `not_owned_of_stale`, `not_owned_of_leak` — what breaks it.
-/

namespace AdvCppHW
namespace Support
namespace Ownership

variable {ι ρ : Type*} [DecidableEq ρ]

/-- Every live resource has one holder, and nobody holds anything else. -/
structure Owned (hold : ι → Option ρ) (live : Finset ρ) (obtained released : List ρ) : Prop where
  live_of_held : ∀ i r, hold i = some r → r ∈ live
  unique : ∀ i j r, hold i = some r → hold j = some r → i = j
  covered : ∀ r ∈ live, ∃ i, hold i = some r
  balance : ∀ r, obtained.count r = released.count r + if r ∈ live then 1 else 0

namespace Owned

variable {hold hold' : ι → Option ρ} {live : Finset ρ} {obtained released : List ρ} {i j : ι}
  {r : ρ}

theorem empty (hold : ι → Option ρ) (h : ∀ i, hold i = none) : Owned hold ∅ [] [] where
  live_of_held i r hi := by
    rw [h i] at hi
    cases hi
  unique i j r hi := by
    rw [h i] at hi
    cases hi
  covered r hr := absurd hr (Finset.notMem_empty r)
  balance r := by simp

theorem congr (h : Owned hold live obtained released) (heq : ∀ i, hold' i = hold i) :
    Owned hold' live obtained released := by
  obtain rfl : hold' = hold := funext heq
  exact h

theorem acquire (h : Owned hold live obtained released) (hfree : hold i = none) (hr : r ∉ live)
    (hself : hold' i = some r) (hothers : ∀ j, j ≠ i → hold' j = hold j) :
    Owned hold' (insert r live) (r :: obtained) released where
  live_of_held j r' hj := by
    by_cases hji : j = i
    · subst hji
      rw [hself] at hj
      cases hj
      exact Finset.mem_insert_self r live
    · rw [hothers j hji] at hj
      exact Finset.mem_insert_of_mem (h.live_of_held j r' hj)
  unique j k r' hj hk := by
    -- the new resource is held by nobody else
    have hnew : ∀ m, m ≠ i → hold' m ≠ some r := by
      intro m hm hheld
      rw [hothers m hm] at hheld
      exact hr (h.live_of_held m r hheld)
    by_cases hji : j = i
    · subst hji
      rw [hself] at hj
      cases hj
      by_contra hjk
      exact hnew k (Ne.symm hjk) hk
    · by_cases hki : k = i
      · subst hki
        rw [hself] at hk
        cases hk
        exact absurd hj (hnew j hji)
      · rw [hothers j hji] at hj
        rw [hothers k hki] at hk
        exact h.unique j k r' hj hk
  covered r' hr' := by
    rcases Finset.mem_insert.mp hr' with rfl | hmem
    · exact ⟨i, hself⟩
    · obtain ⟨j, hj⟩ := h.covered r' hmem
      have hji : j ≠ i := by
        rintro rfl
        rw [hfree] at hj
        cases hj
      exact ⟨j, by rw [hothers j hji, hj]⟩
  balance r' := by
    have hb := h.balance r'
    by_cases heq : r' = r
    · subst heq
      rw [if_neg hr] at hb
      rw [List.count_cons_self, if_pos (Finset.mem_insert_self r' live), hb]
    · rw [List.count_cons_of_ne (Ne.symm heq), hb]
      simp [heq]

theorem release (h : Owned hold live obtained released) (hheld : hold i = some r)
    (hself : hold' i = none)
    (hothers : ∀ j, j ≠ i → hold' j = hold j) :
    Owned hold' (live.erase r) obtained (r :: released) where
  live_of_held j r' hj := by
    have hji : j ≠ i := by
      rintro rfl
      rw [hself] at hj
      cases hj
    rw [hothers j hji] at hj
    refine Finset.mem_erase.mpr ⟨?_, h.live_of_held j r' hj⟩
    rintro rfl
    exact hji (h.unique j i r' hj hheld)
  unique j k r' hj hk := by
    have hne : ∀ m, hold' m = some r' → m ≠ i := by
      rintro m hm rfl
      rw [hself] at hm
      cases hm
    have hji := hne j hj
    have hki := hne k hk
    rw [hothers j hji] at hj
    rw [hothers k hki] at hk
    exact h.unique j k r' hj hk
  covered r' hr' := by
    obtain ⟨hne, hmem⟩ := Finset.mem_erase.mp hr'
    obtain ⟨j, hj⟩ := h.covered r' hmem
    have hji : j ≠ i := by
      rintro rfl
      rw [hheld] at hj
      cases hj
      exact hne rfl
    exact ⟨j, by rw [hothers j hji, hj]⟩
  balance r' := by
    have hb := h.balance r'
    by_cases heq : r' = r
    · subst heq
      rw [if_pos (h.live_of_held i r' hheld)] at hb
      rw [List.count_cons_self, if_neg (Finset.notMem_erase r' live), hb]
    · rw [List.count_cons_of_ne (Ne.symm heq), hb]
      simp [heq]

/-- What `i` holds is given to `j`, who has held nothing. -/
theorem transfer (h : Owned hold live obtained released) (hij : i ≠ j) (hfree : hold j = none)
    (hto : hold' j = hold i) (hfrom : hold' i = none)
    (hothers : ∀ k, k ≠ i → k ≠ j → hold' k = hold k) : Owned hold' live obtained released := by
  -- behind the transfer a resource is held by the holder that `back` leads to
  have hback : ∀ k r, hold' k = some r → (k = j ∧ hold i = some r) ∨
      (k ≠ i ∧ k ≠ j ∧ hold k = some r) := by
    intro k r hk
    by_cases hkj : k = j
    · subst hkj
      exact Or.inl ⟨rfl, hto ▸ hk⟩
    · by_cases hki : k = i
      · subst hki
        rw [hfrom] at hk
        cases hk
      · exact Or.inr ⟨hki, hkj, by rw [← hothers k hki hkj, hk]⟩
  constructor
  · intro k r hk
    rcases hback k r hk with ⟨-, hi⟩ | ⟨-, -, hk'⟩
    · exact h.live_of_held i r hi
    · exact h.live_of_held k r hk'
  · intro k m r hk hm
    rcases hback k r hk with ⟨rfl, hi⟩ | ⟨hki, -, hk'⟩
    · rcases hback m r hm with ⟨rfl, -⟩ | ⟨hmi, -, hm'⟩
      · rfl
      · exact absurd (h.unique m i r hm' hi) hmi
    · rcases hback m r hm with ⟨rfl, hi⟩ | ⟨-, -, hm'⟩
      · exact absurd (h.unique k i r hk' hi) hki
      · exact h.unique k m r hk' hm'
  · intro r hr
    obtain ⟨k, hk⟩ := h.covered r hr
    by_cases hki : k = i
    · subst hki
      exact ⟨j, by rw [hto, hk]⟩
    · have hkj : k ≠ j := by
        rintro rfl
        rw [hfree] at hk
        cases hk
      exact ⟨k, by rw [hothers k hki hkj, hk]⟩
  · exact h.balance

/-- Somebody holds what was released. -/
theorem not_owned_of_stale (hheld : hold i = some r) (hr : r ∉ live) :
    ¬ Owned hold live obtained released :=
  fun h => hr (h.live_of_held i r hheld)

/-- A holder is gone, and what it held is still live. -/
theorem not_owned_of_leak (h : Owned hold live obtained released) (hheld : hold i = some r)
    (hself : hold' i = none) (hothers : ∀ j, j ≠ i → hold' j = hold j)
    {obtained' released' : List ρ} : ¬ Owned hold' live obtained' released' := by
  intro h'
  obtain ⟨j, hj⟩ := h'.covered r (h.live_of_held i r hheld)
  have hji : j ≠ i := by
    rintro rfl
    rw [hself] at hj
    cases hj
  rw [hothers j hji] at hj
  exact hji (h.unique j i r hj hheld)

end Owned
end Ownership
end Support
end AdvCppHW
