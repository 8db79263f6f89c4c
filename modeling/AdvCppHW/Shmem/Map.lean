import AdvCppHW.Support.CriticalSection

/-!
# The map in shared memory

The public members of `Map` in `Map.hpp` as processes see each other's calls: a member waits on the
semaphore if it creates a `SemaphoreLock`, converts its arguments, uses the map, releases
temporaries, and posts when the lock is destroyed.  `set_value` creates no lock.

* `mutualExclusion_iff` — when the accesses of different processes are kept apart.
-/

namespace AdvCppHW
namespace Shmem

open Support CriticalSection

/-- What the processes share. -/
inductive SharedAccess where
  /-- The `AllocState`, through `allocate` or `deallocate`. -/
  | allocState
  | m_map
deriving DecidableEq, Repr

/-- The public members of `Map`. -/
inductive MapOp where
  /-- `operator[]`. -/
  | subscript
  | insert
  | erase
  | clear
  | set_value
deriving DecidableEq, Repr

namespace MapOp

/-- Whether the first statement is `SemaphoreLock lock(*(m_mem->m_sem))`. -/
def locks : MapOp → Bool
  | subscript | insert | erase | clear => true
  | set_value => false

/-- How many arguments go through `convertKey` or `convertT`. -/
def converted : MapOp → Nat
  | subscript | erase => 1
  | insert | set_value => 2
  | clear => 0

/-- The accesses of a call.  Conversions and temporaries use the `AllocState` any number of times:
not at all for plain data and short strings. -/
inductive Accesses (op : MapOp) : SharedAccess → List SharedAccess → Prop
  /-- The call gets to the map after `n` accesses and releases its temporaries with `m`. -/
  | complete {first : SharedAccess} {later : List SharedAccess} (n m : Nat)
      (hconverted : op.converted = 0 → n = 0 ∧ m = 0)
      (hlist : first :: later =
        List.replicate n .allocState ++ .m_map :: List.replicate m .allocState) :
      Accesses op first later
  /-- A conversion throws `std::bad_alloc`. -/
  | throws (n : Nat) (hconverted : 0 < op.converted) :
      Accesses op .allocState (List.replicate n .allocState)

end MapOp

/-- How the members of `Map` use the semaphore and the shared objects. -/
def mapProtocol : Protocol MapOp SharedAccess where
  locks := MapOp.locks
  accesses := MapOp.Accesses
  exists_accesses _ := ⟨.m_map, [], .complete 0 0 (fun _ => ⟨rfl, rfl⟩) rfl⟩

/-- Processes that share a map, before their calls; the semaphore is initialised to one. -/
def mapSystem {ι : Type} (programs : ι → List MapOp) : System ι MapOp SharedAccess := init programs

/-- **Mutual exclusion on the shared map.**  In all interleavings of the processes' calls at most
one process is between its first and its last access exactly when a process that calls `set_value`
is the only one that makes calls. -/
theorem mutualExclusion_iff {ι : Type} [DecidableEq ι] (programs : ι → List MapOp) :
    (∀ s, Reaches mapProtocol (mapSystem programs) s →
        ∀ p q, p ≠ q → ¬ ((s.phase p).IsInside ∧ (s.phase q).IsInside)) ↔
      ∀ p q, p ≠ q → .set_value ∈ programs p → programs q = [] := by
  have hlocks : ∀ p, (∃ op ∈ programs p, mapProtocol.locks op = false) ↔
      .set_value ∈ programs p := by
    intro p
    constructor
    · rintro ⟨op, hop, hfalse⟩
      cases op with
      | set_value => exact hop
      | _ => cases hfalse
    · exact fun h => ⟨.set_value, h, rfl⟩
  refine (CriticalSection.exclusive_iff programs).trans ?_
  simp only [hlocks]

/-- One process assigns with `set_value` while another inserts. -/
theorem set_value_beside_insert :
    ¬ ∀ (programs : Nat → List MapOp) (s : System Nat MapOp SharedAccess),
      Reaches mapProtocol (mapSystem programs) s →
      ∀ p q, p ≠ q → ¬ ((s.phase p).IsInside ∧ (s.phase q).IsInside) := by
  intro h
  let programs : Nat → List MapOp := fun p =>
    if p = 0 then [.set_value] else if p = 1 then [.insert] else []
  have hexclusive := (CriticalSection.exclusive_iff programs).mp (h programs) 0 1 (by decide)
    ⟨.set_value, List.mem_singleton_self _, rfl⟩
  exact absurd hexclusive (by decide)

end Shmem
end AdvCppHW
