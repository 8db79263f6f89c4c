import AdvCppHW.Shmem.Allocator

/-!
# Blocks that are freed last first

`deallocate` gives memory back only if the block ends where the free memory begins.  Calls that free
the blocks in the reverse order of their allocation meet each of them there.

* `WellNested` — such a sequence of calls; `WellNested.append` and `WellNested.block` put sequences
  together.
* `Heap.unwound` — the invariant: the state in which all live blocks have been freed, last first.
* `wellNested_unchanged` — the sequence leaves everything as it was.
-/

namespace AdvCppHW
namespace Shmem

open Support

/-- `deallocate` takes an allocation back, wherever the sums have wrapped around. -/
theorem AllocState.deallocate_allocate {s s' : AllocState} {size n p : Nat}
    (h : s.allocate size n = some (p, s')) : s'.deallocate size p n = s := by
  rw [allocate] at h
  split at h
  · cases h
  · cases h
    rw [deallocate, if_pos rfl]

namespace Heap

/-- If a block is freed, it is the one that was allocated last. -/
def FreesLast (h : Heap) : Call → Prop
  | .allocate _ _ => True
  | .deallocate b => h.live.head? = some b

/-- The calls free the blocks last first, as far as they free them. -/
abbrev LastFirst (h : Heap) (calls : List Call) : Prop :=
  EveryStep (fun h c => some (h.call c)) FreesLast h calls

/-- The state in which all live blocks have been freed, last first. -/
def unwound (h : Heap) : AllocState :=
  h.live.foldl (fun s b => s.deallocate b.size b.address b.count) h.state

/-- The same with blocks that were allocated before. -/
def beside (h : Heap) (earlier : List Block) : Heap := ⟨h.state, h.live ++ earlier⟩

end Heap

/-- A sequence of calls that frees the blocks it allocates, and no others: each one after those that
were allocated later, and before those that were allocated earlier and are still held. -/
structure WellNested (s : AllocState) (calls : List Call) : Prop where
  lastFirst : Heap.LastFirst ⟨s, []⟩ calls
  freed : (calls.foldl Heap.call ⟨s, []⟩).live = []

namespace Heap

/-! ## What each call does -/

theorem call_allocate_none {h : Heap} {size n : Nat} (hfull : h.state.allocate size n = none) :
    h.call (.allocate size n) = h := by
  rw [call, hfull]

theorem call_allocate_some {h : Heap} {size n p : Nat} {s : AllocState}
    (hroom : h.state.allocate size n = some (p, s)) :
    h.call (.allocate size n) = ⟨s, ⟨p, size, n⟩ :: h.live⟩ := by
  rw [call, hroom]

theorem call_deallocate_last (s : AllocState) (b : Block) (live : List Block) :
    (⟨s, b :: live⟩ : Heap).call (.deallocate b)
    = ⟨s.deallocate b.size b.address b.count, live⟩ := by
  rw [call, List.erase_cons_head]

/-- Whatever a call allocates or frees, the live blocks lead back to the same state. -/
theorem call_unwound {h : Heap} {c : Call} (hc : h.FreesLast c) :
    (h.call c).unwound = h.unwound := by
  cases c with
  | allocate size n =>
      cases hallocate : h.state.allocate size n with
      | none => rw [call_allocate_none hallocate]
      | some res =>
          obtain ⟨p, s⟩ := res
          rw [call_allocate_some hallocate, unwound, List.foldl_cons,
            AllocState.deallocate_allocate hallocate]
          rfl
  | deallocate b =>
      obtain ⟨s, _ | ⟨b', live⟩⟩ := h
      · cases hc
      · cases hc
        rw [call_deallocate_last]
        rfl

theorem FreesLast.beside {h : Heap} {c : Call} (hc : h.FreesLast c) (earlier : List Block) :
    (h.beside earlier).FreesLast c := by
  cases c with
  | allocate size n => trivial
  | deallocate b =>
      show (h.live ++ earlier).head? = some b
      rw [List.head?_append, hc]
      rfl

/-- Blocks that were allocated before make no difference. -/
theorem call_beside {h : Heap} {c : Call} (hc : h.FreesLast c) (earlier : List Block) :
    (h.beside earlier).call c = (h.call c).beside earlier := by
  cases c with
  | allocate size n =>
      cases hallocate : h.state.allocate size n with
      | none =>
          have hbeside : (h.beside earlier).state.allocate size n = none := hallocate
          rw [call_allocate_none hallocate, call_allocate_none hbeside]
      | some res =>
          obtain ⟨p, s⟩ := res
          have hbeside : (h.beside earlier).state.allocate size n = some (p, s) := hallocate
          rw [call_allocate_some hallocate, call_allocate_some hbeside]
          rfl
  | deallocate b =>
      obtain ⟨s, _ | ⟨b', live⟩⟩ := h
      · cases hc
      · cases hc
        rw [beside, List.cons_append, call_deallocate_last, call_deallocate_last]
        rfl

/-! ## What the calls of a sequence do -/

/-- The invariant along the sequence, and beside whatever was allocated before it. -/
theorem LastFirst.run {h : Heap} {calls : List Call} (hcalls : h.LastFirst calls)
    (earlier : List Block) :
    (h.beside earlier).LastFirst calls ∧
      calls.foldl call (h.beside earlier) = (calls.foldl call h).beside earlier ∧
        (calls.foldl call h).unwound = h.unwound := by
  have hstep : ∀ (own t : Heap) c, (t = own.beside earlier ∧ own.unwound = h.unwound) →
    own.FreesLast c →
      t.FreesLast c ∧ t.call c = (own.call c).beside earlier ∧
      (own.call c).unwound = h.unwound := by
    rintro own t c ⟨rfl, hunwound⟩ hc
    exact ⟨hc.beside earlier, call_beside hc earlier, (call_unwound hc).trans hunwound⟩
  exact EveryStep.simulation hstep ⟨rfl, rfl⟩ hcalls

/-- The live blocks can be freed last first. -/
theorem lastFirst_live (h : Heap) :
    h.LastFirst (h.live.map .deallocate) ∧ ((h.live.map .deallocate).foldl call h).live = [] := by
  obtain ⟨s, live⟩ := h
  induction live generalizing s with
  | nil => exact ⟨trivial, rfl⟩
  | cons b live ih =>
      obtain ⟨hlast, hfreed⟩ := ih (s.deallocate b.size b.address b.count)
      constructor
      · apply EveryStep.cons_iff.mpr
        rw [call_deallocate_last]
        exact ⟨rfl, hlast⟩
      · rw [List.map_cons, List.foldl_cons, call_deallocate_last]
        exact hfreed

end Heap

/-- What a well-nested sequence does among blocks that were allocated before. -/
theorem WellNested.run {s : AllocState} {calls : List Call} (h : WellNested s calls)
    (earlier : List Block) :
    Heap.LastFirst ⟨s, earlier⟩ calls ∧ calls.foldl Heap.call ⟨s, earlier⟩ = ⟨s, earlier⟩ := by
  obtain ⟨hlast, hend, hunwound⟩ := h.lastFirst.run earlier
  -- no block is left, so that the state is the one they would have led back to
  have hstate : (calls.foldl Heap.call ⟨s, []⟩).state = s := by
    rw [Heap.unwound, h.freed] at hunwound
    exact hunwound
  rw [Heap.beside, Heap.beside, hstate, h.freed] at hend
  exact ⟨hlast, hend⟩

/-! ## How well-nested sequences are put together -/

theorem wellNested_nil (s : AllocState) : WellNested s [] := ⟨trivial, rfl⟩

/-- An allocation that throws. -/
theorem wellNested_failed {s : AllocState} {size n : Nat} (hfull : s.allocate size n = none) :
    WellNested s [.allocate size n] where
  lastFirst := EveryStep.cons_iff.mpr ⟨trivial, trivial⟩
  freed := by
    show (Heap.call ⟨s, []⟩ (.allocate size n)).live = []
    rw [Heap.call_allocate_none hfull]

theorem WellNested.append {s : AllocState} {calls calls' : List Call} (h : WellNested s calls)
    (h' : WellNested s calls') : WellNested s (calls ++ calls') where
  lastFirst := by
    apply h.lastFirst.append
    rw [(h.run []).2]
    exact h'.lastFirst
  freed := by
    rw [List.foldl_append, (h.run []).2]
    exact h'.freed

/-- A sequence within the life of a block. -/
theorem WellNested.block {s s' : AllocState} {size n p : Nat} {inner : List Call}
    (hroom : s.allocate size n = some (p, s')) (h : WellNested s' inner) :
    WellNested s (.allocate size n :: (inner ++ [.deallocate ⟨p, size, n⟩])) := by
  have hcall : Heap.call ⟨s, []⟩ (.allocate size n) = ⟨s', [⟨p, size, n⟩]⟩ :=
    Heap.call_allocate_some hroom
  obtain ⟨hlast, hend⟩ := h.run [⟨p, size, n⟩]
  constructor
  · apply EveryStep.cons_iff.mpr
    rw [hcall]
    refine ⟨trivial, hlast.append ?_⟩
    rw [hend]
    exact EveryStep.cons_iff.mpr ⟨rfl, trivial⟩
  · rw [List.foldl_cons, hcall, List.foldl_append, hend, List.foldl_cons, Heap.call_deallocate_last]
    rfl

/-- An operation that has come this far fails, and frees what it holds. -/
theorem wellNested_unwinding {s : AllocState} {calls : List Call}
    (h : Heap.LastFirst ⟨s, []⟩ calls) :
    WellNested s (calls ++ (calls.foldl Heap.call ⟨s, []⟩).live.map .deallocate) where
  lastFirst := h.append (Heap.lastFirst_live _).1
  freed := by
    rw [List.foldl_append]
    exact (Heap.lastFirst_live _).2

/-- **Well-nested use leaves the allocator as it was.**  Calls that free the blocks they allocate
last first, whichever allocations throw among them, lead back to the `m_freeMemBegin` and the
`m_freeMemEnd` they began with, and to the blocks that were allocated earlier. -/
theorem wellNested_unchanged {s : AllocState} {calls : List Call} (h : WellNested s calls)
    (earlier : List Block) : calls.foldl Heap.call ⟨s, earlier⟩ = ⟨s, earlier⟩ :=
  (h.run earlier).2

/-- A string of 20 characters; while it lives, a block without bytes, and three tree nodes for
which there is no room. -/
def temporaries : List Call :=
  [.allocate 1 21, .allocate 8 0, .deallocate ⟨65677, 8, 0⟩, .allocate 40 3,
    .deallocate ⟨65656, 1, 21⟩]

theorem wellNested_temporaries : WellNested ⟨65656, 65756⟩ temporaries := by
  have hempty : WellNested ⟨65677, 65756⟩ [.allocate 8 0, .deallocate ⟨65677, 8, 0⟩] :=
    .block rfl (wellNested_nil ⟨65677, 65756⟩)
  exact .block rfl (hempty.append (wellNested_failed rfl))

theorem temporaries_unchanged :
    temporaries.foldl Heap.call ⟨⟨65656, 65756⟩, [⟨65616, 40, 1⟩]⟩ =
      ⟨⟨65656, 65756⟩, [⟨65616, 40, 1⟩]⟩ :=
  wellNested_unchanged wellNested_temporaries [⟨65616, 40, 1⟩]

end Shmem
end AdvCppHW
