import AdvCppHW.Cpp.Outcome
import AdvCppHW.Support.OrdMap

/-!
# Loops over a container

`for (auto i = c.begin(); i != c.end(); ++i)` over a container with keys, where the body may change
the container.  Erasing an element makes the iterators to it invalid, so the loop may advance only
while the element that it stands on is there.

* `IterationOrder` — the order that a container is gone through in.
* `traverse` — the loop, which ends or meets an element that was erased.
* `traverse_of_firstErased` — the loop whose first turn erases the first element.
-/

namespace AdvCppHW

open Support

/-- What one turn of the loop leads to: the iterator is to be advanced, or the loop is left. -/
inductive Turn (σ : Type) where
  | goesOn (s : σ)
  | leaves (x : Outcome σ)

/-- How the loop ends. -/
inductive TraversalEnd (σ : Type) where
  | ended (x : Outcome σ)
  /-- An iterator was to be advanced whose element had been erased. -/
  | elementErased

section Traversal

variable {κ ν : Type*} [LinearOrder κ] {σ : Type}

/-- The elements of a container in the order of its iterators; those of a
`std::unordered_map` come in any order. -/
structure IterationOrder (κ ν : Type*) [LinearOrder κ] where
  elements : OrdMap κ ν → List (κ × ν)
  perm : ∀ m, (elements m).Perm m.entries

/-- The order of a `std::map` and a `std::set`. -/
def IterationOrder.ascending : IterationOrder κ ν where
  elements := OrdMap.entries
  perm m := .refl m.entries

variable (order : IterationOrder κ ν) (container : σ → OrdMap κ ν) (body : Nat → κ × ν → σ → Turn σ)

/-- The element behind the one with this key. -/
def elementBehind (m : OrdMap κ ν) (k : κ) : Option (κ × ν) :=
  ((order.elements m).dropWhile fun e => e.1 ≠ k).tail.head?

/-- The loop from an iterator on, with at most `turns` turns; `none` when it has not ended by then.
The body is told how many turns there were before. -/
def traverseFrom : (turns : Nat) → (before : Nat) → Option (κ × ν) → σ → Option (TraversalEnd σ)
  | _, _, none, s => some (.ended (.ok s))
  | 0, _, some _, _ => none
  | turns + 1, before, some e, s =>
      match body before e s with
      | .leaves x => some (.ended x)
      | .goesOn s' =>
          if e.1 ∈ container s' then
            traverseFrom turns (before + 1) (elementBehind order (container s') e.1) s'
          else
            some .elementErased

/-- The loop, with a turn for each element that is there at the beginning. -/
def traverse (s : σ) : Option (TraversalEnd σ) :=
  traverseFrom order container body (order.elements (container s)).length 0
    (order.elements (container s)).head? s

theorem traverse_nil {s : σ} (h : order.elements (container s) = []) :
    traverse order container body s = some (.ended (.ok s)) := by
  rw [traverse, h]
  rfl

variable {order container body}

theorem IterationOrder.elements_eq_nil_iff {m : OrdMap κ ν} :
    order.elements m = [] ↔ m.entries = [] := by
  constructor
  · intro h
    exact (h ▸ order.perm m).nil_eq.symm
  · intro h
    exact (h ▸ order.perm m).eq_nil

/-- When the first turn does not go on with the first element in place, there is no second one. -/
theorem traverse_of_firstErased {s : σ} {e : κ × ν} {rest : List (κ × ν)}
    (h : order.elements (container s) = e :: rest)
    (herased : ∀ s', body 0 e s = .goesOn s' → e.1 ∉ container s') :
    traverse order container body s =
      some (match body 0 e s with
        | .leaves x => .ended x
        | .goesOn _ => .elementErased) := by
  rw [traverse, h, List.length_cons, List.head?_cons, traverseFrom]
  cases hbody : body 0 e s with
  | leaves x => rfl
  | goesOn s' =>
      dsimp only
      rw [if_neg (herased s' hbody)]

end Traversal
end AdvCppHW
