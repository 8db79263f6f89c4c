import AdvCppHW.Support.AssocList

/-!
# Linked lists with iterators

A linked list whose nodes keep their identity while others come and go.  An iterator is the identity
of a node; it is valid as long as the node is in the list, and no later node gets the same identity.
That identities are distinct and old is part of the type.
-/

namespace AdvCppHW
namespace Support

universe u

/-- The nodes in order, each with its identity; `next` is the identity of the next node. -/
structure NodeList (α : Type u) where
  nodes : List (Nat × α)
  next : Nat
  lt_next : ∀ n ∈ nodes, n.1 < next
  nodup : (nodes.map Prod.fst).Nodup

namespace NodeList

variable {α : Type u}

def empty : NodeList α := ⟨[], 0, by simp, by simp⟩

def size (l : NodeList α) : Nat := l.nodes.length

/-- The elements without the identities of their nodes. -/
def toList (l : NodeList α) : List α := l.nodes.map Prod.snd

/-- The element at an iterator, if the iterator is valid. -/
def deref? (l : NodeList α) (i : Nat) : Option α := l.nodes.lookup i

/-- A new node at the front, and its iterator. -/
def pushFront (l : NodeList α) (a : α) : Nat × NodeList α :=
  (l.next,
    { nodes := (l.next, a) :: l.nodes
      next := l.next + 1
      lt_next := by
        intro n hn
        rcases List.mem_cons.mp hn with rfl | hn
        · exact Nat.lt_succ_self _
        · exact Nat.lt_succ_of_lt (l.lt_next n hn)
      nodup := by
        refine List.nodup_cons.mpr ⟨fun hmem => ?_, l.nodup⟩
        obtain ⟨n, hn, heq⟩ := List.mem_map.mp hmem
        exact absurd (l.lt_next n hn) (by rw [heq]; exact Nat.lt_irrefl _) })

/-- The nodes that satisfy `p`. -/
def filter (l : NodeList α) (p : Nat × α → Bool) : NodeList α where
  nodes := l.nodes.filter p
  next := l.next
  lt_next n hn := l.lt_next n (List.mem_of_mem_filter hn)
  nodup := l.nodup.sublist (List.filter_sublist.map Prod.fst)

/-- Remove the node at an iterator, if the iterator is valid. -/
def erase? (l : NodeList α) (i : Nat) : Option (NodeList α) :=
  if i ∈ l.nodes.map Prod.fst then some (l.filter fun n => n.1 ≠ i) else none

def back? (l : NodeList α) : Option α := l.toList.getLast?

/-- Remove the last node, if there is one. -/
def popBack? (l : NodeList α) : Option (NodeList α) :=
  if l.nodes = [] then
    none
  else
    some
      { nodes := l.nodes.dropLast
        next := l.next
        lt_next := fun n hn => l.lt_next n ((List.dropLast_sublist _).subset hn)
        nodup := l.nodup.sublist ((List.dropLast_sublist _).map Prod.fst) }

@[simp] theorem toList_empty : (empty : NodeList α).toList = [] := rfl

@[simp] theorem length_toList (l : NodeList α) : l.toList.length = l.size := by
  simp [toList, size]

@[simp] theorem toList_pushFront (l : NodeList α) (a : α) :
    (l.pushFront a).2.toList = a :: l.toList := rfl

/-- A valid iterator belongs to one node only. -/
theorem eq_of_mem_nodes {l : NodeList α} {i : Nat} {a b : α} (ha : (i, a) ∈ l.nodes)
    (hb : (i, b) ∈ l.nodes) : a = b :=
  congrArg Prod.snd (List.inj_on_of_nodup_map l.nodup ha hb rfl)

theorem deref?_of_mem {l : NodeList α} {i : Nat} {a : α} (h : (i, a) ∈ l.nodes) :
    l.deref? i = some a :=
  AssocList.lookup_of_mem l.nodup h

theorem erase?_of_mem {l : NodeList α} {i : Nat} {a : α} (h : (i, a) ∈ l.nodes) :
    l.erase? i = some (l.filter fun n => n.1 ≠ i) :=
  if_pos (List.mem_map.mpr ⟨(i, a), h, rfl⟩)

theorem mem_filter {l : NodeList α} {p : Nat × α → Bool} {n : Nat × α} :
    n ∈ (l.filter p).nodes ↔ n ∈ l.nodes ∧ p n = true :=
  List.mem_filter

theorem popBack?_concat {l : NodeList α} {ns : List (Nat × α)} {n : Nat × α}
    (h : l.nodes = ns ++ [n]) :
    ∃ l', l.popBack? = some l' ∧ l'.nodes = ns ∧ l.back? = some n.2 := by
  have hne : l.nodes ≠ [] := by simp [h]
  exact ⟨_, if_neg hne, by simp [h], by simp [back?, toList, h]⟩

end NodeList
end Support
end AdvCppHW
