import AdvCppHW.Shmem.Allocator

/-!
# What an allocation hands out

Two promises of `allocator<Type>::allocate` that `AllocState` alone does not keep.

* `AllocState.Serves` — the block is as long as it was asked for and inside the free memory;
  `serves_iff` says for which requests.
* `Alignment.aligned_iff` — which requests may be mixed if every pointer is to be a multiple of
  `alignof(Type)`.
-/

namespace AdvCppHW
namespace Shmem

/-! ## The length of a block -/

/-- `std::bad_alloc`. -/
inductive BadAlloc where
  | bad_alloc
deriving DecidableEq, Repr

namespace AllocState

/-- `allocate` with the state it leaves; it throws before it has assigned anything. -/
def allocateMember (size n : Nat) : EStateM BadAlloc AllocState Nat := do
  match (← get).allocate size n with
  | none => throw .bad_alloc
  | some (p, state) =>
      set state
      return p

/-- `n * sizeof(Type)` bytes between the free memory's beginning and its end, or
`std::bad_alloc` and no change. -/
def Serves (s : AllocState) (size n : Nat) : Prop :=
  match (allocateMember size n).run s with
  | .ok p s' =>
      s.m_freeMemBegin ≤ p ∧ p + n * size ≤ s.m_freeMemEnd ∧
        s'.m_freeMemBegin ≤ s'.m_freeMemEnd ∧ s'.m_freeMemEnd = s.m_freeMemEnd
  | .error e s' => e = .bad_alloc ∧ s' = s

theorem allocateMember_run (s : AllocState) (size n : Nat) :
    (allocateMember size n).run s =
      match s.allocate size n with
      | none => .error .bad_alloc s
      | some (p, s') => .ok p s' := by
  simp only [allocateMember, EStateM.run_bind, EStateM.run_get]
  cases s.allocate size n with
  | none => rfl
  | some res => rfl

/-- The two sums of the code are one sum modulo `2 ^ 64`. -/
theorem wrap_add_wrap (a b : Nat) : wrap (a + wrap b) = wrap (a + b) := Nat.add_mod_mod a b (2 ^ 64)

theorem serves_of_fits {s : AllocState} {size n : Nat}
    (hfit : s.m_freeMemBegin + n * size < 2 ^ 64) : s.Serves size n := by
  rw [Serves, allocateMember_run, allocate_eq hfit]
  by_cases hfull : s.m_freeMemBegin + n * size > s.m_freeMemEnd
  · rw [if_pos hfull]
    exact ⟨rfl, rfl⟩
  · rw [if_neg hfull]
    have hroom := Nat.le_of_not_lt hfull
    exact ⟨Nat.le_refl _, hroom, hroom, rfl⟩

theorem serves_of_wrapped_above {s : AllocState} {size n : Nat}
    (habove : s.m_freeMemEnd < wrap (s.m_freeMemBegin + n * size)) : s.Serves size n := by
  have hnone : s.allocate size n = none := by
    rw [allocate, wrap_add_wrap]
    exact if_pos habove
  rw [Serves, allocateMember_run, hnone]
  exact ⟨rfl, rfl⟩

/-- A sum that wraps around to a place inside the region passes the check. -/
theorem not_serves_of_wrapped {s : AllocState} {size n : Nat} (hend : s.m_freeMemEnd < 2 ^ 64)
    (hwraps : 2 ^ 64 ≤ s.m_freeMemBegin + n * size)
    (hbelow : wrap (s.m_freeMemBegin + n * size) ≤ s.m_freeMemEnd) : ¬ s.Serves size n := by
  have hsome : ∃ s', s.allocate size n = some (s.m_freeMemBegin, s') := by
    rw [allocate, wrap_add_wrap, if_neg (Nat.not_lt.mpr hbelow)]
    exact ⟨_, rfl⟩
  obtain ⟨s', hs'⟩ := hsome
  rw [Serves, allocateMember_run, hs']
  rintro ⟨-, hstop, -⟩
  omega

/-- **What `allocate` promises, and when.**  A request gets a block of the length it asked for
inside the free memory, or `std::bad_alloc`, exactly when the end of that block is an address, or
falls behind the end of the region once it is wrapped around. -/
theorem serves_iff (s : AllocState) (hend : s.m_freeMemEnd < 2 ^ 64) (size n : Nat) :
    s.Serves size n ↔
      s.m_freeMemBegin + n * size < 2 ^ 64 ∨
      s.m_freeMemEnd < wrap (s.m_freeMemBegin + n * size) := by
  constructor
  · intro hserves
    by_contra hcond
    rw [not_or, Nat.not_lt, Nat.not_lt] at hcond
    exact not_serves_of_wrapped hend hcond.1 hcond.2 hserves
  · rintro (hfit | habove)
    · exact serves_of_fits hfit
    · exact serves_of_wrapped_above habove

theorem serves_hundred_bytes : (⟨65656, 65756⟩ : AllocState).Serves 8 12 :=
  (serves_iff ⟨65656, 65756⟩ (by decide) 8 12).mpr (by decide)

/-- The product of `2 ^ 61` elements of eight bytes is zero. -/
theorem huge_request_succeeds : ¬ (⟨65656, 65756⟩ : AllocState).Serves 8 (2 ^ 61) := by
  apply not_serves_of_wrapped
  · decide
  · decide
  · decide

end AllocState

/-! ## The alignment of a block -/

namespace Alignment

/-- What the language says about the size and the alignment of a type. -/
structure ValueType where
  size : Nat
  alignLog : Nat
  size_pos : 0 < size
  alignLog_lt : alignLog < 64
  align_dvd_size : 2 ^ alignLog ∣ size

/-- `alignof(Type)`. -/
def ValueType.align (t : ValueType) : Nat := 2 ^ t.alignLog

/-- `allocator<Type>::allocate(n)`. -/
structure Request where
  type : ValueType
  count : Nat

/-- The number of bytes that a request asks for. -/
def Request.bytes (r : Request) : Nat := r.count * r.type.size

def Request.call (r : Request) : Call := .allocate r.type.size r.count

/-- Only these requests are made, and only live blocks are freed. -/
def Only (requests : Set Request) (h : Heap) : Call → Prop
  | .allocate size n => ∃ r ∈ requests, r.call = .allocate size n
  | .deallocate b => b ∈ h.live

/-- What such calls lead to. -/
abbrev Reaches (requests : Set Request) : Heap → Heap → Prop :=
  Support.Reaches (fun h c h' => h' = h.call c) (Only requests)

/-- Every pointer that a request gets, after any such calls, is a multiple of
the alignment of its type. -/
def Aligned (l : Layout) (mapped size : Nat) (requests : Set Request) : Prop :=
  ∀ h, Reaches requests ⟨l.init mapped size, []⟩ h →
    ∀ r ∈ requests, ∀ p state, h.state.allocate r.type.size r.count = some (p, state) →
    r.type.align ∣ p

/-- Each alignment divides the offset of the region's beginning and the number
of bytes of each request. -/
def Compatible (start : Nat) (requests : Set Request) : Prop :=
  ∀ r ∈ requests, r.type.align ∣ start ∧ ∀ r' ∈ requests, r.type.align ∣ r'.bytes

/-- The invariant: the free memory and every live block begin at multiples of `a`. -/
structure MultiplesOf (a : Nat) (h : Heap) : Prop where
  free : a ∣ h.state.m_freeMemBegin
  live : ∀ b ∈ h.live, a ∣ b.address

/-! ### What one call keeps -/

/-- An alignment divides `2 ^ 64`, so that wrapping around does not change what is aligned. -/
theorem ValueType.align_dvd_wrap (t : ValueType) {n : Nat} : t.align ∣ wrap n ↔ t.align ∣ n :=
  Nat.dvd_mod_iff (Nat.pow_dvd_pow 2 t.alignLog_lt.le)

/-- A successful call returns where the free memory began, and moves its beginning. -/
theorem allocate_eq_some {s s' : AllocState} {size n p : Nat}
    (h : s.allocate size n = some (p, s')) :
    p = s.m_freeMemBegin ∧ s'.m_freeMemBegin = wrap (s.m_freeMemBegin + n * size) := by
  rw [AllocState.allocate] at h
  split at h
  · cases h
  · cases h
    rw [Nat.mul_comm size n, AllocState.wrap_add_wrap]
    exact ⟨rfl, rfl⟩

section Step

variable {t : ValueType} {h : Heap} (hinv : MultiplesOf t.align h)

include hinv

theorem MultiplesOf.allocate {size n : Nat} (hbytes : t.align ∣ n * size) :
    MultiplesOf t.align (h.call (.allocate size n)) := by
  rw [Heap.call]
  split
  · exact hinv
  · next p state hstate =>
      obtain ⟨rfl, hbegin⟩ := allocate_eq_some hstate
      constructor
      · show t.align ∣ state.m_freeMemBegin
        rw [hbegin, t.align_dvd_wrap]
        exact Nat.dvd_add hinv.free hbytes
      · rintro b (_ | ⟨_, hb⟩)
        · exact hinv.free
        · exact hinv.live b hb

/-- A block that is freed from the end gives its own beginning back. -/
theorem MultiplesOf.deallocate {b : Block} (hb : b ∈ h.live) :
    MultiplesOf t.align (h.call (.deallocate b)) := by
  constructor
  · show t.align ∣ (h.state.deallocate b.size b.address b.count).m_freeMemBegin
    rw [AllocState.deallocate]
    split
    · exact hinv.live b hb
    · exact hinv.free
  · intro b' hb'
    exact hinv.live b' (List.mem_of_mem_erase hb')

theorem MultiplesOf.step {requests : Set Request} (hbytes : ∀ r ∈ requests, t.align ∣ r.bytes)
    {c : Call} (hc : Only requests h c) : MultiplesOf t.align (h.call c) := by
  cases c with
  | allocate size n =>
      obtain ⟨r, hr, hcall⟩ := hc
      cases hcall
      exact hinv.allocate (hbytes r hr)
  | deallocate b => exact hinv.deallocate hc

end Step

theorem aligned_of_compatible {l : Layout} {mapped : Nat} {requests : Set Request}
    (h : Compatible (l.regionBegin mapped) requests) (size : Nat) :
    Aligned l mapped size requests := by
  intro heap hrun r hr p state hallocate
  obtain ⟨hstart, hbytes⟩ := h r hr
  have hinit : MultiplesOf r.type.align ⟨l.init mapped size, []⟩ := ⟨hstart, by simp⟩
  have hinv : MultiplesOf r.type.align heap :=
    hrun.invariant (fun s c s' hs hc hstep => by subst hstep; exact hs.step hbytes hc) hinit
  rw [(allocate_eq_some hallocate).1]
  exact hinv.free

/-! ### Requests that do not go together -/

/-- In a region that reaches to the end of the address space every request succeeds. -/
theorem allocate_unbounded {s : AllocState} (hend : s.m_freeMemEnd = 2 ^ 64 - 1) (size n : Nat) :
    ∃ state, s.allocate size n = some (s.m_freeMemBegin, state) ∧
      state.m_freeMemEnd = 2 ^ 64 - 1 := by
  have hlt : wrap (s.m_freeMemBegin + wrap (n * size)) < 2 ^ 64 := Nat.mod_lt _ (by decide)
  refine ⟨⟨wrap (s.m_freeMemBegin + wrap (size * n)), s.m_freeMemEnd⟩, ?_, hend⟩
  rw [AllocState.allocate, if_neg (by omega)]

theorem compatible_of_aligned {l : Layout} {mapped : Nat} {requests : Set Request}
    (hstart : l.regionBegin mapped < 2 ^ 64)
    (h : ∀ size, l.regionBegin mapped + size < 2 ^ 64 → Aligned l mapped size requests) :
    Compatible (l.regionBegin mapped) requests := by
  obtain ⟨size, hsize⟩ : ∃ size, l.regionBegin mapped + size = 2 ^ 64 - 1 :=
    Nat.exists_eq_add_of_le (by omega) |>.imp fun _ => Eq.symm
  have haligned := h size (by omega)
  have hend : (l.init mapped size).m_freeMemEnd = 2 ^ 64 - 1 := hsize
  intro r hr
  obtain ⟨state, hfirst, -⟩ := allocate_unbounded hend r.type.size r.count
  have hdvd : r.type.align ∣ l.regionBegin mapped := haligned _ .refl r hr _ state hfirst
  refine ⟨hdvd, ?_⟩
  intro r' hr'
  -- `r'` first, and `r` behind its block
  obtain ⟨state', hbefore, hend'⟩ := allocate_unbounded hend r'.type.size r'.count
  obtain ⟨state'', hbehind, -⟩ := allocate_unbounded hend' r.type.size r.count
  have hcall : (⟨l.init mapped size, []⟩ : Heap).call r'.call =
      ⟨state', [⟨(l.init mapped size).m_freeMemBegin, r'.type.size, r'.count⟩]⟩ := by
    rw [Request.call, Heap.call, hbefore]
  have hrun : Reaches requests ⟨l.init mapped size, []⟩ _ :=
    .single ⟨r'.call, ⟨r', hr', rfl⟩, hcall.symm⟩
  have hnext := haligned _ hrun r hr _ state'' hbehind
  rw [(allocate_eq_some hbefore).2, r.type.align_dvd_wrap] at hnext
  exact (Nat.dvd_add_right hdvd).mp hnext

/-- **Blocks are aligned exactly for requests that go together.**  In maps of every size, after any
calls that make only these requests and free their blocks, every pointer is a multiple of the
alignment of its type exactly when each alignment among the requests divides the beginning of the
region and the number of bytes of every request. -/
theorem aligned_iff (l : Layout) {mapped : Nat} (hstart : l.regionBegin mapped < 2 ^ 64)
    (requests : Set Request) :
    (∀ size, l.regionBegin mapped + size < 2 ^ 64 → Aligned l mapped size requests) ↔
      Compatible (l.regionBegin mapped) requests :=
  ⟨compatible_of_aligned hstart, fun h size _ => aligned_of_compatible h size⟩

/-- `char`. -/
def charType : ValueType := ⟨1, 0, by decide, by decide, by decide⟩

/-- A tree node of a map from `int` to `int`. -/
def nodeType : ValueType := ⟨40, 3, by decide, by decide, by decide⟩

theorem nodes_aligned : Aligned Heap.linuxLayout 65536 1000 {⟨nodeType, 1⟩} := by
  have hstart : Heap.linuxLayout.regionBegin 65536 < 2 ^ 64 := by decide
  refine (aligned_iff Heap.linuxLayout hstart {⟨nodeType, 1⟩}).mpr ?_ 1000 (by decide)
  rintro r rfl
  refine ⟨by decide, ?_⟩
  rintro r' rfl
  decide

/-- A string of 20 characters, with its terminator, in front of a node. -/
theorem node_behind_string :
    ¬ Aligned Heap.linuxLayout 65536 1000 {⟨charType, 21⟩, ⟨nodeType, 1⟩} := by
  intro h
  have hrun : Reaches {⟨charType, 21⟩, ⟨nodeType, 1⟩} ⟨Heap.linuxLayout.init 65536 1000, []⟩
      ⟨⟨65677, 66656⟩, [⟨65656, 1, 21⟩]⟩ :=
    .single ⟨.allocate 1 21, ⟨_, Or.inl rfl, rfl⟩, rfl⟩
  have hdvd := h _ hrun ⟨nodeType, 1⟩ (Or.inr rfl) 65677 ⟨65717, 66656⟩ rfl
  revert hdvd
  decide

end Alignment
end Shmem
end AdvCppHW
