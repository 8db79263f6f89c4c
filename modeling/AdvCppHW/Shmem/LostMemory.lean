import AdvCppHW.Shmem.Allocator
import Mathlib.Algebra.BigOperators.Group.List.Basic
import Mathlib.Algebra.Ring.Nat

/-!
# Memory that is lost

`deallocate` gives a block back only if it ends where the free memory begins, and keeps no list of
the others.  A block that is freed while another one lies behind it is lost: for the allocator it is
as if it had never been freed.

* `Remembering` — the heap with its lost blocks; `whole` — with the lost blocks among the live ones.
* `Accounted.step` — each call does to the whole what it does to a heap, or nothing.
* `lost_memory` — how much memory there is left, and that none of it is lost memory.
-/

namespace AdvCppHW
namespace Shmem

open Support

/-- The number of bytes in blocks. -/
def bytesIn (blocks : List Block) : Nat := (blocks.map fun b => b.count * b.size).sum

@[simp] theorem bytesIn_cons (b : Block) (blocks : List Block) :
    bytesIn (b :: blocks) = b.count * b.size + bytesIn blocks := by
  simp [bytesIn]

@[simp] theorem bytesIn_append (blocks blocks' : List Block) :
    bytesIn (blocks ++ blocks') = bytesIn blocks + bytesIn blocks' := by
  simp [bytesIn]

theorem bytesIn_perm {blocks blocks' : List Block} (h : blocks.Perm blocks') :
    bytesIn blocks = bytesIn blocks' :=
  (h.map _).sum_eq

/-- The heap, and the blocks that were freed while other memory behind them was in use. -/
structure Remembering where
  heap : Heap
  lost : List Block := []

namespace Remembering

def call (r : Remembering) : Call → Remembering
  | .allocate size n => { r with heap := r.heap.call (.allocate size n) }
  | .deallocate b =>
      { heap := r.heap.call (.deallocate b),
        lost := if b.stop = r.heap.state.m_freeMemBegin then r.lost else b :: r.lost }

/-- What admitted calls lead to. -/
abbrev Reaches : Remembering → Remembering → Prop :=
  Support.Reaches (fun r c r' => r' = r.call c) fun r => r.heap.Admits

/-- The heap in which the lost blocks have not been freed. -/
def whole (r : Remembering) : Heap := ⟨r.heap.state, r.lost ++ r.heap.live⟩

/-- The blocks of the whole are apart, and the memory in use consists of them. -/
structure Accounted (start : Nat) (r : Remembering) : Prop where
  apart : r.whole.Apart start
  total : start + bytesIn r.whole.live = r.heap.state.m_freeMemBegin

end Remembering

/-! ## What each call does -/

namespace Heap

/-- The order in which the blocks are listed does not matter. -/
theorem Apart.of_perm {start : Nat} {s : AllocState} {live live' : List Block}
    (h : (⟨s, live⟩ : Heap).Apart start) (hperm : live.Perm live') :
    (⟨s, live'⟩ : Heap).Apart start where
  disjoint := (hperm.pairwise_iff fun {_ _} hxy => Disjoint.symm hxy).mp h.disjoint
  start_le b hb := h.start_le b (hperm.mem_iff.mpr hb)
  le_end b hb := h.le_end b (hperm.mem_iff.mpr hb)
  le_begin b hb := h.le_begin b (hperm.mem_iff.mpr hb)
  start_le_begin := h.start_le_begin
  begin_le_end := h.begin_le_end
  end_lt := h.end_lt

end Heap

namespace Remembering

section Step

variable {start : Nat} {r : Remembering} (h : r.Accounted start)
include h

theorem Accounted.allocate {size n : Nat} (hfit : r.heap.state.m_freeMemBegin + n * size < 2 ^ 64) :
    (r.call (.allocate size n)).Accounted start := by
  have hwhole : (r.whole.call (.allocate size n)).Apart start := h.apart.allocate hfit
  have hfit' : r.whole.state.m_freeMemBegin + n * size < 2 ^ 64 := hfit
  rw [Heap.call_allocate hfit'] at hwhole
  rw [call, Heap.call_allocate hfit]
  by_cases hfull : r.heap.state.m_freeMemBegin + n * size > r.heap.state.m_freeMemEnd
  · rw [if_pos hfull]
    exact h
  · rw [if_neg hfull]
    rw [whole, if_neg hfull] at hwhole
    refine ⟨hwhole.of_perm List.perm_middle.symm, ?_⟩
    have htotal := h.total
    simp only [whole, bytesIn_append, bytesIn_cons] at htotal ⊢
    omega

theorem Accounted.deallocate {b : Block} (hb : b ∈ r.heap.live) :
    (r.call (.deallocate b)).Accounted start := by
  have hmem : b ∈ r.whole.live := List.mem_append_right _ hb
  have hstop : b.stop < 2 ^ 64 := (h.apart.le_end b hmem).trans_lt h.apart.end_lt
  have herase : (b :: (r.lost ++ r.heap.live.erase b)).Perm (r.lost ++ r.heap.live) :=
    List.perm_middle.symm.trans ((List.perm_cons_erase hb).symm.append_left r.lost)
  have htotal : start + (b.count * b.size + bytesIn (r.lost ++ r.heap.live.erase b)) =
      r.heap.state.m_freeMemBegin := by
    rw [← bytesIn_cons, bytesIn_perm herase]
    exact h.total
  rw [call, Heap.call, deallocate_eq hstop]
  by_cases hlast : b.stop = r.heap.state.m_freeMemBegin
  · -- the whole gets the block back, too
    have hwhole := h.apart.deallocate hmem
    rw [Heap.call, deallocate_eq hstop, whole, if_pos hlast] at hwhole
    rw [if_pos hlast, if_pos hlast]
    have hperm : ((r.lost ++ r.heap.live).erase b).Perm (r.lost ++ r.heap.live.erase b) :=
      ((List.perm_cons_erase hmem).symm.trans herase.symm).cons_inv
    refine ⟨hwhole.of_perm hperm, ?_⟩
    show start + bytesIn (r.lost ++ r.heap.live.erase b) = b.address
    rw [Block.stop] at hlast
    omega
  · rw [if_neg hlast, if_neg hlast]
    refine ⟨h.apart.of_perm herase.symm, ?_⟩
    show start + bytesIn (b :: (r.lost ++ r.heap.live.erase b)) = r.heap.state.m_freeMemBegin
    rw [bytesIn_cons]
    exact htotal

theorem Accounted.step {c : Call} (hc : r.heap.Admits c) : (r.call c).Accounted start := by
  cases c with
  | allocate size n => exact h.allocate hc
  | deallocate b => exact h.deallocate hc

/-- There is room for a request unless the memory is in use or lost. -/
theorem Accounted.allocate_eq_none_iff {room size n : Nat}
    (hend : r.heap.state.m_freeMemEnd = start + room)
    (hfit : r.heap.state.m_freeMemBegin + n * size < 2 ^ 64) :
    r.heap.state.allocate size n = none ↔
      room < bytesIn r.heap.live + bytesIn r.lost + n * size := by
  have htotal := h.total
  rw [whole, bytesIn_append] at htotal
  rw [allocate_eq hfit]
  split
  · refine iff_of_true rfl ?_
    omega
  · refine iff_of_false (by simp) ?_
    omega

/-- A live block is disjoint from every lost one. -/
theorem Accounted.disjoint_lost {b b' : Block} (hb : b ∈ r.lost) (hb' : b' ∈ r.heap.live) :
    Disjoint b.bytes b'.bytes :=
  (List.pairwise_append.mp h.apart.disjoint).2.2 b hb b' hb'

end Step

/-! ## Runs -/

theorem accounted_init (l : Layout) {mapped size : Nat}
    (hfit : l.regionBegin mapped + size < 2 ^ 64) :
    Accounted (l.regionBegin mapped) { heap := ⟨l.init mapped size, []⟩ } where
  apart := Heap.apart_init l hfit
  total := rfl

theorem call_end (r : Remembering) (c : Call) :
    (r.call c).heap.state.m_freeMemEnd = r.heap.state.m_freeMemEnd := by
  cases c with
  | allocate size n =>
      show (r.heap.call (.allocate size n)).state.m_freeMemEnd = _
      rw [Heap.call, AllocState.allocate]
      split
      · rfl
      · next heq =>
          split at heq
          · cases heq
          · cases heq
            rfl
  | deallocate b =>
      show (r.heap.state.deallocate b.size b.address b.count).m_freeMemEnd = _
      rw [AllocState.deallocate]
      split
      · rfl
      · rfl

theorem call_lost (r : Remembering) (c : Call) : r.lost <:+ (r.call c).lost := by
  cases c with
  | allocate size n => exact List.suffix_refl _
  | deallocate b =>
      rw [call]
      dsimp only
      split
      · exact List.suffix_refl _
      · exact List.suffix_cons b r.lost

/-- What is lost stays lost. -/
theorem lost_of_reaches {r r' : Remembering} (h : Reaches r r') : r.lost <:+ r'.lost := by
  induction h with
  | refl => exact List.suffix_refl _
  | tail _ hlast ih =>
      obtain ⟨c, -, rfl⟩ := hlast
      exact ih.trans (call_lost _ c)

theorem end_of_reaches {r r' : Remembering} (h : Reaches r r') :
    r'.heap.state.m_freeMemEnd = r.heap.state.m_freeMemEnd := by
  induction h with
  | refl => rfl
  | tail _ hlast ih =>
      obtain ⟨c, -, rfl⟩ := hlast
      exact (call_end _ c).trans ih

/-- After any calls through allocators that share the state of a map, the memory in use and the lost
memory are all that lies in front of the free memory.  A request fails exactly when there is no room
for it behind them, and no block that is allocated later has a byte of a block that was lost. -/
theorem lost_memory (l : Layout) {mapped size : Nat} (hfit : l.regionBegin mapped + size < 2 ^ 64)
    {r : Remembering} (hrun : Reaches { heap := ⟨l.init mapped size, []⟩ } r) :
    r.heap.state.m_freeMemBegin = l.regionBegin mapped + bytesIn r.heap.live + bytesIn r.lost ∧
      (∀ element n, r.heap.Admits (.allocate element n) →
        (r.heap.state.allocate element n = none ↔
          size < bytesIn r.heap.live + bytesIn r.lost + n * element)) ∧
      ∀ r', Reaches r r' → ∀ b ∈ r.lost, ∀ b' ∈ r'.heap.live, Disjoint b.bytes b'.bytes := by
  have hinv : ∀ r', Reaches { heap := ⟨l.init mapped size, []⟩ } r' →
      r'.Accounted (l.regionBegin mapped) := fun r' hrun' =>
    hrun'.invariant (fun s c s' hs hc hstep => by subst hstep; exact hs.step hc)
      (accounted_init l hfit)
  have hend : r.heap.state.m_freeMemEnd = l.regionBegin mapped + size := end_of_reaches hrun
  have haccounted := hinv r hrun
  refine ⟨?_, fun element n hadmitted => haccounted.allocate_eq_none_iff hend hadmitted, ?_⟩
  · have htotal := haccounted.total
    rw [whole, bytesIn_append] at htotal
    omega
  · intro r' hlater b hb b' hb'
    exact (hinv r' (hrun.trans hlater)).disjoint_lost ((lost_of_reaches hlater).mem hb) hb'

/-- The first of two blocks is freed before the second one. -/
theorem lost_memory_of_two :
    let r : Remembering := ⟨⟨⟨65664, 65756⟩, []⟩, [⟨65656, 8, 1⟩]⟩
    r.heap.state.m_freeMemBegin = 65656 + bytesIn r.heap.live + bytesIn r.lost ∧
      (r.heap.state.allocate 1 93 = none ↔ 100 < bytesIn r.heap.live +
        bytesIn r.lost + 93 * 1) := by
  intro r
  have hrun : Reaches { heap := ⟨Heap.linuxLayout.init 65536 100, []⟩ } r :=
    (((Relation.ReflTransGen.refl.tail ⟨.allocate 8 1, by decide, rfl⟩).tail
      ⟨.allocate 8 2, by decide, rfl⟩).tail ⟨.deallocate ⟨65656, 8, 1⟩, by decide, rfl⟩).tail
      ⟨.deallocate ⟨65664, 8, 2⟩, by decide, rfl⟩
  have hlost := lost_memory Heap.linuxLayout (by decide) hrun
  exact ⟨hlost.1, hlost.2.1 1 93 (by decide)⟩

end Remembering
end Shmem
end AdvCppHW
