import Mathlib.Algebra.Group.Nat.Defs
import Mathlib.Order.CompletePartialOrder
import Mathlib.Order.Interval.Set.Disjoint
import AdvCppHW.Support.Transition

/-!
# The allocator of the shared memory

`AllocState` and `allocator` of `Allocator.hpp`, and the state `Map`'s constructor builds.
Addresses and sizes are numbers below `2 ^ 64`; the code's sums and products wrap around.  `Heap`
adds the blocks that callers hold: the code does not record them.

* `Heap.Apart` — the invariant: blocks are apart, inside the region, and the memory handed out next
  is behind all blocks that contain a byte.
* `live_blocks` — it holds after every sequence of calls.
-/

namespace AdvCppHW
namespace Shmem

open Support

/-- Sums and products of `std::size_t` and of addresses. -/
def wrap (n : Nat) : Nat := n % 2 ^ 64

structure AllocState where
  m_freeMemBegin : Nat
  m_freeMemEnd : Nat
deriving DecidableEq, Repr

namespace AllocState

/-- `allocator<Type>::allocate(n)`, where `size` is `sizeof(Type)`; `none` when it throws
`std::bad_alloc`. -/
def allocate (s : AllocState) (size n : Nat) : Option (Nat × AllocState) :=
  if wrap (s.m_freeMemBegin + wrap (n * size)) > s.m_freeMemEnd then
    none
  else
    let begin := s.m_freeMemBegin
    some (begin, { s with m_freeMemBegin := wrap (s.m_freeMemBegin + wrap (size * n)) })

/-- `allocator<Type>::deallocate(p, n)`. -/
def deallocate (s : AllocState) (size : Nat) (p : Nat) (n : Nat) : AllocState :=
  if wrap (p + wrap (size * n)) = s.m_freeMemBegin then { s with m_freeMemBegin := p } else s

end AllocState

/-- The `sizeof` values that fix where `Map`'s constructor puts its objects. -/
structure Layout where
  sizeofSemaphore : Nat
  sizeofSem : Nat
  sizeofAllocState : Nat
  sizeofAlloc : Nat
  sizeofMap : Nat

namespace Layout

/-- `m_memBegin` of a mapping at `mapped`, once the semaphore is there. -/
def memBegin (l : Layout) (mapped : Nat) : Nat := mapped + (l.sizeofSemaphore + l.sizeofSem)

/-- First byte behind the semaphore, the `AllocState`, the allocator and the map. -/
def regionBegin (l : Layout) (mapped : Nat) : Nat :=
  l.memBegin mapped + l.sizeofAllocState + l.sizeofAlloc + l.sizeofMap

/-- The `AllocState` that `Map(size)` builds in memory mapped at `mapped`. -/
def init (l : Layout) (mapped : Nat) (size : Nat) : AllocState :=
  ⟨l.regionBegin mapped, l.regionBegin mapped + size⟩

end Layout

/-! ## Blocks -/

/-- What a call of `allocate` returned, with the element size and the count it was called with. -/
structure Block where
  address : Nat
  size : Nat
  count : Nat
deriving DecidableEq, Repr

namespace Block

/-- End of the block, as an unbounded number. -/
def stop (b : Block) : Nat := b.address + b.count * b.size

/-- The addresses of the block's bytes. -/
def bytes (b : Block) : Set Nat := Set.Ico b.address b.stop

theorem address_le_stop (b : Block) : b.address ≤ b.stop := Nat.le_add_right _ _

theorem bytes_eq_empty {b : Block} (h : b.count * b.size = 0) : b.bytes = ∅ := by
  rw [bytes, stop, h, Nat.add_zero, Set.Ico_self]

end Block

/-- The allocator's state, and the blocks that were allocated and not freed. -/
structure Heap where
  state : AllocState
  live : List Block

/-- Calls through allocators that share the state. -/
inductive Call where
  | allocate (size n : Nat)
  | deallocate (b : Block)
deriving DecidableEq

namespace Heap

def call (h : Heap) : Call → Heap
  | .allocate size n =>
      match h.state.allocate size n with
      | none => h
      | some (p, state) => ⟨state, ⟨p, size, n⟩ :: h.live⟩
  | .deallocate b => ⟨h.state.deallocate b.size b.address b.count, h.live.erase b⟩

/-- No size and no sum exceeds the machine word, and only live blocks are freed. -/
def Admits (h : Heap) : Call → Prop
  | .allocate size n => h.state.m_freeMemBegin + n * size < 2 ^ 64
  | .deallocate b => b ∈ h.live

instance (h : Heap) : (c : Call) → Decidable (h.Admits c)
  | .allocate size n => inferInstanceAs (Decidable (h.state.m_freeMemBegin + n * size < 2 ^ 64))
  | .deallocate b => inferInstanceAs (Decidable (b ∈ h.live))

/-- What admitted calls lead to. -/
abbrev Reaches : Heap → Heap → Prop := Support.Reaches (fun h c h' => h' = h.call c) Admits

/-- Blocks are disjoint and between `start` and the end of the region, and the free memory begins
behind every block that has bytes. -/
structure Apart (start : Nat) (h : Heap) : Prop where
  disjoint : h.live.Pairwise fun b b' => Disjoint b.bytes b'.bytes
  start_le : ∀ b ∈ h.live, start ≤ b.address
  le_end : ∀ b ∈ h.live, b.stop ≤ h.state.m_freeMemEnd
  le_begin : ∀ b ∈ h.live, b.count * b.size ≠ 0 → b.stop ≤ h.state.m_freeMemBegin
  start_le_begin : start ≤ h.state.m_freeMemBegin
  begin_le_end : h.state.m_freeMemBegin ≤ h.state.m_freeMemEnd
  end_lt : h.state.m_freeMemEnd < 2 ^ 64

end Heap

/-! ## What each call does -/

theorem wrap_of_lt {n : Nat} (h : n < 2 ^ 64) : wrap n = n := Nat.mod_eq_of_lt h

theorem allocate_eq {s : AllocState} {size n : Nat} (h : s.m_freeMemBegin + n * size < 2 ^ 64) :
    s.allocate size n =
      if s.m_freeMemBegin + n * size > s.m_freeMemEnd then
        none
      else
        some (s.m_freeMemBegin, { s with m_freeMemBegin := s.m_freeMemBegin + n * size }) := by
  have hsize : n * size < 2 ^ 64 := by omega
  rw [AllocState.allocate, Nat.mul_comm size n, wrap_of_lt hsize, wrap_of_lt h]

theorem deallocate_eq {s : AllocState} {b : Block} (h : b.stop < 2 ^ 64) :
    s.deallocate b.size b.address b.count =
      if b.stop = s.m_freeMemBegin then { s with m_freeMemBegin := b.address } else s := by
  have hsize : b.count * b.size < 2 ^ 64 := by
    have := h
    rw [Block.stop] at this
    omega
  rw [AllocState.deallocate, Nat.mul_comm b.size b.count, wrap_of_lt hsize]
  rw [Block.stop] at h ⊢
  rw [wrap_of_lt h]

namespace Heap

theorem call_allocate {h : Heap} {size n : Nat}
    (hfit : h.state.m_freeMemBegin + n * size < 2 ^ 64) :
    h.call (.allocate size n) =
      if h.state.m_freeMemBegin + n * size > h.state.m_freeMemEnd then
        h
      else
        ⟨{ h.state with m_freeMemBegin := h.state.m_freeMemBegin + n * size },
          ⟨h.state.m_freeMemBegin, size, n⟩ :: h.live⟩ := by
  by_cases hfull : h.state.m_freeMemBegin + n * size > h.state.m_freeMemEnd
  · rw [call, allocate_eq hfit, if_pos hfull, if_pos hfull]
  · rw [call, allocate_eq hfit, if_neg hfull, if_neg hfull]

/-- A live block is disjoint from the other live blocks. -/
theorem Apart.disjoint_erase {start : Nat} {h : Heap} (hinv : h.Apart start) {b : Block}
    (hb : b ∈ h.live) {b' : Block} (hb' : b' ∈ h.live.erase b) : Disjoint b.bytes b'.bytes := by
  have hperm := List.perm_cons_erase hb
  have hpairwise := (hperm.pairwise_iff fun {_ _} hxy => Disjoint.symm hxy).mp hinv.disjoint
  exact (List.pairwise_cons.mp hpairwise).1 b' hb'

theorem Apart.allocate {start : Nat} {h : Heap} (hinv : h.Apart start) {size n : Nat}
    (hfit : h.state.m_freeMemBegin + n * size < 2 ^ 64) :
    (h.call (.allocate size n)).Apart start := by
  rw [call_allocate hfit]
  split
  · exact hinv
  · next hroom =>
      have hstart := hinv.start_le_begin
      refine ⟨List.pairwise_cons.mpr ⟨fun b hb => ?_, hinv.disjoint⟩, ?_, ?_, ?_, ?_,
        ?_, hinv.end_lt⟩
      · -- a block with bytes ends before the new one begins
        by_cases hbytes : b.count * b.size = 0
        · rw [Block.bytes_eq_empty hbytes]
          exact Set.disjoint_empty _
        · have hbehind := hinv.le_begin b hb hbytes
          rw [Block.bytes, Block.bytes, Set.Ico_disjoint_Ico]
          simp only [Block.stop] at hbehind ⊢
          omega
      · rintro b (_ | ⟨_, hb⟩)
        · exact hstart
        · exact hinv.start_le b hb
      · rintro b (_ | ⟨_, hb⟩)
        · exact Nat.le_of_not_lt hroom
        · exact hinv.le_end b hb
      · rintro b (_ | ⟨_, hb⟩) hbytes
        · exact Nat.le_refl _
        · exact (hinv.le_begin b hb hbytes).trans (Nat.le_add_right _ _)
      · exact hstart.trans (Nat.le_add_right _ _)
      · exact Nat.le_of_not_lt hroom

theorem Apart.deallocate {start : Nat} {h : Heap} (hinv : h.Apart start) {b : Block}
    (hb : b ∈ h.live) : (h.call (.deallocate b)).Apart start := by
  have hsub : ∀ b' ∈ h.live.erase b, b' ∈ h.live := fun b' hb' => List.mem_of_mem_erase hb'
  have hdisjoint := hinv.disjoint.sublist (List.erase_sublist (a := b))
  have hstop : b.stop < 2 ^ 64 := (hinv.le_end b hb).trans_lt hinv.end_lt
  rw [call, deallocate_eq hstop]
  split
  · next hlast =>
      have hle : b.address ≤ h.state.m_freeMemBegin := hlast ▸ b.address_le_stop
      refine ⟨hdisjoint, fun b' hb' => hinv.start_le b' (hsub b' hb'),
        fun b' hb' => hinv.le_end b' (hsub b' hb'), fun b' hb' hbytes => ?_, hinv.start_le b hb,
        hle.trans hinv.begin_le_end, hinv.end_lt⟩
      -- a block that ends at or before `b` does, and is apart from `b`, ends before `b` begins
      have hbehind := hinv.le_begin b' (hsub b' hb') hbytes
      have hapart := hinv.disjoint_erase hb hb'
      show b'.stop ≤ b.address
      rw [Block.bytes, Block.bytes, Set.Ico_disjoint_Ico] at hapart
      simp only [Block.stop] at hlast hbehind hapart ⊢
      omega
  · exact ⟨hdisjoint, fun b' hb' => hinv.start_le b' (hsub b' hb'),
      fun b' hb' => hinv.le_end b' (hsub b' hb'), fun b' hb' => hinv.le_begin b' (hsub b' hb'),
      hinv.start_le_begin, hinv.begin_le_end, hinv.end_lt⟩

/-- The invariant is kept by every admitted call. -/
theorem Apart.step {start : Nat} {h : Heap} (hinv : h.Apart start) {c : Call} (hc : h.Admits c) :
    (h.call c).Apart start := by
  cases c with
  | allocate size n => exact hinv.allocate hc
  | deallocate b => exact hinv.deallocate hc

theorem apart_init (l : Layout) {mapped : Nat} {size : Nat}
    (hfit : l.regionBegin mapped + size < 2 ^ 64) :
    (⟨l.init mapped size, []⟩ : Heap).Apart (l.regionBegin mapped) where
  disjoint := List.Pairwise.nil
  start_le := by simp
  le_end := by simp
  le_begin := by simp
  start_le_begin := Nat.le_refl _
  begin_le_end := Nat.le_add_right _ _
  end_lt := hfit

/-- **Live blocks never overlap.**  After any calls through allocators that share the
state of a map, the live blocks are pairwise disjoint and lie between the objects the
constructor placed and the end of the region, and the free memory begins at or behind the
end of each block that has bytes. -/
theorem live_blocks (l : Layout) {mapped : Nat} {size : Nat}
    (hfit : l.regionBegin mapped + size < 2 ^ 64) {h : Heap}
    (hrun : Reaches ⟨l.init mapped size, []⟩ h) :
    h.live.Pairwise (fun b b' => Disjoint b.bytes b'.bytes) ∧
      (∀ b ∈ h.live, l.regionBegin mapped ≤ b.address ∧ b.stop ≤ h.state.m_freeMemEnd) ∧
      ∀ b ∈ h.live, b.count * b.size ≠ 0 → b.stop ≤ h.state.m_freeMemBegin := by
  have hinv : h.Apart (l.regionBegin mapped) :=
    hrun.invariant (fun s c s' hs hc hstep => by subst hstep; exact hs.step hc) (apart_init l hfit)
  exact ⟨hinv.disjoint, fun b hb => ⟨hinv.start_le b hb, hinv.le_end b hb⟩, hinv.le_begin⟩

/-! ### Two runs -/

/-- The calls are admitted one after the other. -/
def AdmitsAll (h : Heap) : List Call → Prop
  | [] => True
  | c :: cs => h.Admits c ∧ (h.call c).AdmitsAll cs

theorem reaches_of_admitsAll (h : Heap) (cs : List Call) (hcs : h.AdmitsAll cs) :
    Reaches h (cs.foldl call h) := by
  induction cs generalizing h with
  | nil => exact .refl
  | cons c cs ih => exact .head ⟨c, hcs.1, rfl⟩ (ih _ hcs.2)

/-- The layout of a 64-bit Linux with a map of 56 bytes. -/
def linuxLayout : Layout := ⟨8, 32, 16, 8, 56⟩

theorem live_blocks_of_two :
    Disjoint (⟨65664, 8, 2⟩ : Block).bytes (⟨65656, 8, 1⟩ : Block).bytes := by
  have hrun := reaches_of_admitsAll ⟨linuxLayout.init 65536 100, []⟩ [.allocate 8 1, .allocate 8 2]
    ⟨by decide, by decide, trivial⟩
  have hlive := live_blocks linuxLayout (by decide) hrun
  exact (List.pairwise_cons.mp hlive.1).1 ⟨65656, 8, 1⟩ (by decide)

/-- A live block without bytes may lie behind the beginning of the free memory: the block
in front of it was freed. -/
theorem free_memory_before_empty_block :
    ¬ ∀ (l : Layout) (mapped size : Nat) (h : Heap), l.regionBegin mapped + size < 2 ^ 64 →
      Reaches ⟨l.init mapped size, []⟩ h →
      ∀ b ∈ h.live, b.stop ≤ h.state.m_freeMemBegin := by
  intro hall
  have hrun := reaches_of_admitsAll ⟨linuxLayout.init 65536 100, []⟩
    [.allocate 1 8, .allocate 1 0, .deallocate ⟨65656, 1, 8⟩]
      ⟨by decide, by decide, by decide, trivial⟩
  have hle := hall linuxLayout 65536 100 _ (by decide) hrun ⟨65664, 1, 0⟩ (by decide)
  exact absurd hle (by decide)

end Heap
end Shmem
end AdvCppHW
