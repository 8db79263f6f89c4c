import AdvCppHW.Shmem.Map
import AdvCppHW.Support.LockedObject
import AdvCppHW.Support.OrdMap

/-!
# Calls on the shared map

The members of `Map` that hold a `SemaphoreLock`, with their arguments and results.  A member
converts its arguments, works on `m_map`, and releases its temporaries; `std::map` and
`std::basic_string` are parameters, which change the shared memory in small steps.

* `memberBody` — the members between taking the semaphore and giving it back.
* `mapSpec` — what the members do to the contents of the map.
* `map_serial` — the processes' calls, in every interleaving.
-/

namespace AdvCppHW
namespace Shmem

open Support LockedObject

/-- A call of a member, on plain keys and values. -/
inductive MapCall (K T : Type) where
  | subscript (key : K)
  | insert (key : K) (value : T)
  | erase (key : K)
  | clear
deriving DecidableEq

/-- What a member returns, or the exception that leaves it. -/
inductive Answer (T : Type) where
  | value (t : T)
  | inserted
  | erased (count : Nat)
  | cleared
  | bad_alloc
deriving DecidableEq

/-- The member that is called. -/
def MapCall.op {K T : Type} : MapCall K T → MapOp
  | subscript _ => .subscript
  | insert _ _ => .insert
  | erase _ => .erase
  | clear => .clear

/-- What the standard library does in the members: to the shared memory, and in
`m_map`'s member `Inner`. -/
structure MapCode (K T Data : Type) where
  Inner : Type
  /-- A step in `convertKey` or `convertT`. -/
  convert : Data → Data → Prop
  /-- A step in the destructor of a temporary. -/
  release : Data → Data → Prop
  start : MapCall K T → Inner
  step : Inner × Data → Inner × Data → Prop
  result : Inner → Option (Answer T)

/-- Where a member is. -/
inductive InMember (K T Inner : Type) where
  /-- Arguments are still to be converted. -/
  | converting (call : MapCall K T) (left : Nat)
  | working (i : Inner)
  | releasing (a : Answer T)
  | done (a : Answer T)

section Members

variable {K T Data : Type}

/-- The steps of the members. -/
inductive MemberStep (code : MapCode K T Data) :
    InMember K T code.Inner × Data → InMember K T code.Inner × Data → Prop
  | convert {call : MapCall K T} {left : Nat} {d d' : Data} (h : code.convert d d') :
      MemberStep code (.converting call (left + 1), d) (.converting call (left + 1), d')
  | converted {call : MapCall K T} {left : Nat} {d : Data} :
      MemberStep code (.converting call (left + 1), d) (.converting call left, d)
  /-- There is no memory for the argument. -/
  | throws {call : MapCall K T} {left : Nat} {d : Data} :
      MemberStep code (.converting call (left + 1), d) (.releasing .bad_alloc, d)
  | enter {call : MapCall K T} {d : Data} :
      MemberStep code (.converting call 0, d) (.working (code.start call), d)
  | work {i i' : code.Inner} {d d' : Data} (h : code.step (i, d) (i', d')) :
      MemberStep code (.working i, d) (.working i', d')
  | leave {i : code.Inner} {a : Answer T} {d : Data} (h : code.result i = some a) :
      MemberStep code (.working i, d) (.releasing a, d)
  | release {a : Answer T} {d d' : Data} (h : code.release d d') :
      MemberStep code (.releasing a, d) (.releasing a, d')
  | released {a : Answer T} {d : Data} : MemberStep code (.releasing a, d) (.done a, d)

/-- The members between the constructor of the lock and its destructor. -/
def memberBody (code : MapCode K T Data) :
    Body (MapCall K T) Data (InMember K T code.Inner) (Answer T) where
  start call := .converting call call.op.converted
  step := MemberStep code
  result
    | .done a => some a
    | _ => none

variable [LinearOrder K] [Inhabited T]

/-- What a call does to the contents of the map. -/
def mapSpec : MapCall K T → OrdMap K T → Answer T → OrdMap K T → Prop
  | .subscript key, m, .value t, m' => t = (m.lookup key).getD default ∧
    m' = m.insertNew key default
  -- the copy of the value may fail when there is an element already
  | .subscript key, m, .bad_alloc, m' => m' = m ∨ m' = m.insertNew key default
  | .insert key value, m, .inserted, m' => m' = m.insertNew key value
  | .insert _ _, m, .bad_alloc, m' => m' = m
  | .erase key, m, .erased count, m' => count = (if key ∈ m then 1 else 0) ∧ m' = m.erase key
  | .erase _, m, .bad_alloc, m' => m' = m
  | .clear, _, .cleared, m' => m' = .empty
  | _, _, _, _ => False

/-- What is documented of `std::map` and `std::basic_string`, used by one process at a time:
temporaries do not touch the map, and its members do what they are to do. -/
structure Documented (code : MapCode K T Data) (rep : Data → OrdMap K T → Prop) : Prop where
  convert : ∀ d d' m, code.convert d d' → rep d m → rep d' m
  release : ∀ d d' m, code.release d d' → rep d m → rep d' m
  work : ∀ call d m, rep d m →
    ∀ i d' a, Relation.ReflTransGen code.step (code.start call, d) (i, d') →
    code.result i = some a → ∃ m', mapSpec call m a m' ∧ rep d' m'

/-- What a member that was called on `m` has done when it is at `l`. -/
def MemberDone (code : MapCode K T Data) (rep : Data → OrdMap K T → Prop) (call : MapCall K T)
    (m : OrdMap K T) (d : Data) : InMember K T code.Inner → Prop
  | .converting call' left => call' = call ∧ left ≤ call.op.converted ∧ rep d m
  | .working i => ∃ d₀, rep d₀ m ∧ Relation.ReflTransGen code.step (code.start call, d₀) (i, d)
  | .releasing a | .done a => ∃ m', mapSpec call m a m' ∧ rep d m'

theorem mapSpec_bad_alloc {call : MapCall K T} (hconverted : 0 < call.op.converted)
    (m : OrdMap K T) : mapSpec call m .bad_alloc m := by
  cases call with
  | subscript key => exact Or.inl rfl
  | insert key value => rfl
  | erase key => rfl
  | clear => exact absurd hconverted (Nat.lt_irrefl 0)

section Documented

variable {code : MapCode K T Data} {rep : Data → OrdMap K T → Prop} (h : Documented code rep)
include h

theorem memberDone_step {call : MapCall K T} {m : OrdMap K T} {x y : InMember K T code.Inner × Data}
    (hdone : MemberDone code rep call m x.2 x.1) (hstep : MemberStep code x y) :
    MemberDone code rep call m y.2 y.1 := by
  cases hstep with
  | convert hconvert => exact ⟨hdone.1, hdone.2.1, h.convert _ _ m hconvert hdone.2.2⟩
  | converted => exact ⟨hdone.1, (Nat.le_succ _).trans hdone.2.1, hdone.2.2⟩
  | throws =>
      exact ⟨m, mapSpec_bad_alloc (Nat.lt_of_lt_of_le (Nat.succ_pos _) hdone.2.1) m, hdone.2.2⟩
  | enter =>
      obtain ⟨rfl, -, hrep⟩ := hdone
      exact ⟨_, hrep, .refl⟩
  | work hwork =>
      obtain ⟨d₀, hrep, hworks⟩ := hdone
      exact ⟨d₀, hrep, hworks.tail hwork⟩
  | leave hresult =>
      obtain ⟨d₀, hrep, hworks⟩ := hdone
      exact h.work call d₀ m hrep _ _ _ hworks hresult
  | release hrelease =>
      obtain ⟨m', hspec, hrep⟩ := hdone
      exact ⟨m', hspec, h.release _ _ m' hrelease hrep⟩
  | released => exact hdone

theorem memberDone_works {call : MapCall K T} {m : OrdMap K T}
    {x y : InMember K T code.Inner × Data} (hdone : MemberDone code rep call m x.2 x.1)
    (hworks : Relation.ReflTransGen (MemberStep code) x y) :
    MemberDone code rep call m y.2 y.1 := by
  induction hworks with
  | refl => exact hdone
  | tail _ hlast ih => exact memberDone_step h ih hlast

/-- Run alone, the members do to the map what they are to do. -/
theorem members_implement : Implements (memberBody code) rep mapSpec := by
  intro call d m hrep l d' a hworks hresult
  have hinit : MemberDone code rep call m d (.converting call call.op.converted) :=
    ⟨rfl, Nat.le_refl _, hrep⟩
  have hdone : MemberDone code rep call m d' l := memberDone_works h hinit hworks
  cases l with
  | done a' =>
      cases hresult
      exact hdone
  | converting call' left => cases hresult
  | working i => cases hresult
  | releasing a' => cases hresult

/-- Processes that share a map call members that take the lock.  In every interleaving of their
steps, and whichever waits fail, the results are those of calls that are made one after the other,
and between the calls the map is what these lead to.  The calls of each process are among them in
the order of its program; and a call comes behind all that had returned before it was made. -/
theorem map_serial {ι : Type} [DecidableEq ι] {d₀ : Data} (hempty : rep d₀ .empty)
    (programs : ι → List (MapCall K T))
    {s : Machine ι (MapCall K T) Data (InMember K T code.Inner) (Answer T)}
    (hrun : Reaches (memberBody code) (Machine.init programs d₀) s) :
    (∃ m, Legal mapSpec .empty s.history m ∧ (s.Quiet → rep s.data m)) ∧
      InOrder programs s ∧ ∀ s', Reaches (memberBody code) s s' → s.history <+: s'.history := by
  obtain ⟨-, ⟨m, heffect⟩, hinOrder⟩ := serial_of_reaches (members_implement h) hempty hrun
  exact ⟨⟨m, heffect.legal, heffect.quiet⟩, hinOrder, fun s' hlater => history_of_reaches hlater⟩

end Documented

end Members

/-! ## Two processes -/

/-- A member that takes a copy of the map, and writes the copy back. -/
inductive CopyingMember where
  | called (call : MapCall Nat Nat)
  | copied (call : MapCall Nat Nat) (m : OrdMap Nat Nat)
  | answered (a : Answer Nat)

def copyAnswer (m : OrdMap Nat Nat) : MapCall Nat Nat → Answer Nat
  | .subscript key => .value ((m.lookup key).getD default)
  | .insert _ _ => .inserted
  | .erase key => .erased (if key ∈ m then 1 else 0)
  | .clear => .cleared

def copyContents (m : OrdMap Nat Nat) : MapCall Nat Nat → OrdMap Nat Nat
  | .subscript key => m.insertNew key default
  | .insert key value => m.insertNew key value
  | .erase key => m.erase key
  | .clear => .empty

inductive CopyingStep : CopyingMember × OrdMap Nat Nat → CopyingMember × OrdMap Nat Nat → Prop
  | copy {call : MapCall Nat Nat} {m : OrdMap Nat Nat} : CopyingStep (.called call, m)
    (.copied call m, m)
  | write {call : MapCall Nat Nat} {copy m : OrdMap Nat Nat} :
      CopyingStep (.copied call copy, m) (.answered (copyAnswer copy call), copyContents copy call)

def copying : MapCode Nat Nat (OrdMap Nat Nat) where
  Inner := CopyingMember
  convert d d' := d' = d
  release d d' := d' = d
  start := .called
  step := CopyingStep
  result
    | .answered a => some a
    | _ => none

theorem mapSpec_copy (m : OrdMap Nat Nat) (call : MapCall Nat Nat) :
    mapSpec call m (copyAnswer m call) (copyContents m call) := by
  cases call with
  | subscript key => exact ⟨rfl, rfl⟩
  | insert key value => rfl
  | erase key => exact ⟨rfl, rfl⟩
  | clear => rfl

/-- Where a member is that was called on `m`. -/
def CopyingDone (call : MapCall Nat Nat) (m : OrdMap Nat Nat) :
    CopyingMember × OrdMap Nat Nat → Prop
  | (.called call', m') => call' = call ∧ m' = m
  | (.copied call' copy, m') => call' = call ∧ copy = m ∧ m' = m
  | (.answered a, m') => mapSpec call m a m'

theorem copyingDone_steps {call : MapCall Nat Nat} {m : OrdMap Nat Nat}
    {x y : CopyingMember × OrdMap Nat Nat} (h : CopyingDone call m x)
    (hsteps : Relation.ReflTransGen CopyingStep x y) : CopyingDone call m y := by
  induction hsteps with
  | refl => exact h
  | tail _ hlast ih =>
      cases hlast with
      | copy =>
          obtain ⟨rfl, rfl⟩ := ih
          exact ⟨rfl, rfl, rfl⟩
      | write =>
          obtain ⟨rfl, rfl, -⟩ := ih
          exact mapSpec_copy _ _

theorem copying_documented : Documented copying Eq where
  convert d d' m hconvert hrep := Eq.trans hconvert hrep
  release d d' m hrelease hrep := Eq.trans hrelease hrep
  work := by
    rintro call d m rfl i d' a hworks hresult
    have hinit : CopyingDone call d (.called call, d) := ⟨rfl, rfl⟩
    have hdone : CopyingDone call d (i, d') := copyingDone_steps hinit hworks
    cases i with
    | answered a' =>
        cases hresult
        exact ⟨d', hdone, rfl⟩
    | called call' => cases hresult
    | copied call' copy => cases hresult

theorem works_converted {K T Data : Type} (code : MapCode K T Data) (call : MapCall K T) (d : Data)
    (left : Nat) :
    Relation.ReflTransGen (MemberStep code) (.converting call left, d) (.converting call 0, d) := by
  induction left with
  | zero => exact .refl
  | succ left ih => exact .head .converted ih

theorem works_copying (call : MapCall Nat Nat) (m : OrdMap Nat Nat) :
    Works (memberBody copying) ((memberBody copying).start call, m)
      (.done (copyAnswer m call), copyContents m call) := by
  have hconverted := works_converted copying call m call.op.converted
  exact ((((hconverted.tail .enter).tail (.work .copy)).tail (.work .write)).tail (.leave rfl)).tail
    .released

/-- Two processes that share a map of numbers. -/
abbrev TwoProcesses : Type :=
  Machine Bool (MapCall Nat Nat) (OrdMap Nat Nat) (InMember Nat Nat copying.Inner) (Answer Nat)

/-- One process inserts a value that the other one reads behind it. -/
def insertAndRead : Bool → List (MapCall Nat Nat)
  | false => [.insert 1 10]
  | true => [.subscript 1]

theorem map_serial_two : ∃ s : TwoProcesses, s.returned true = [(.subscript 1, some (.value 10))] ∧
    Reaches (memberBody copying) (Machine.init insertAndRead .empty) s ∧
      (∃ m, Legal mapSpec .empty s.history m ∧ (s.Quiet → s.data = m)) ∧
      InOrder insertAndRead s := by
  let start : TwoProcesses := Machine.init insertAndRead .empty
  let contents : OrdMap Nat Nat := OrdMap.empty.insertNew 1 10
  let inserted : TwoProcesses :=
    { start with
      calls := Function.update start.calls false [],
      data := contents,
      returned := Function.update start.returned false [(.insert 1 10, some .inserted)],
      history := [(false, .insert 1 10, .inserted)] }
  have hinserted : Reaches (memberBody copying) start inserted :=
    reach_returned rfl rfl Nat.one_pos (works_copying (.insert 1 10) .empty) rfl
  have hcalls : inserted.calls true = [.subscript 1] := rfl
  have hworks := works_copying (.subscript 1) contents
  have hread := reach_returned (B := memberBody copying) hcalls rfl Nat.one_pos hworks rfl
  have hrun := hinserted.trans hread
  obtain ⟨hlegal, hinOrder, -⟩ := map_serial copying_documented rfl insertAndRead hrun
  refine ⟨_, ?_, hrun, hlegal, hinOrder⟩
  rfl

end Shmem
end AdvCppHW
