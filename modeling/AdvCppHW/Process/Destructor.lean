import AdvCppHW.Process.Constructor
import Mathlib.Logic.Relation

/-!
# The destructor of a child process

The body of `~Process` waits for the child, and only behind it the members are destroyed,
whose destructors close the pipes.  So a child that reads its stdin up to the end is not told
the end before it has exited.

* `System`, `Step` — the parent, the child and the two pipes between them.
* `Deadlocked` — each waits for the other; `Deadlocked.step` — only a signal helps.
* `noDeadlock_iff` — the calls behind which the destructor never ends there.
-/

namespace AdvCppHW
namespace Process

/-- The calls of the owner. -/
inductive Call where
  | write (len : Nat)
  | read (len : Nat)
  | closeStdin
  | close
deriving DecidableEq

/-- Where the parent is; `rest` are the calls that are still to come. -/
inductive Point where
  | before (rest : List Call)
  /-- In `::write`, with so many bytes still to be written. -/
  | writing (left : Nat) (rest : List Call)
  /-- In `::read`. -/
  | reading (len : Nat) (rest : List Call)
  /-- In `waitpid`, in the body of `~Process`. -/
  | waiting
  /-- Behind the body of `~Process`. -/
  | waited
  | destroyed

/-- A call of the child. -/
inductive Want where
  /-- To read one byte or more from its stdin. -/
  | read
  | write (len : Nat)

/-- What the child does next, after calls with these results; of several calls it may choose any. -/
abbrev Program := List (Want × Nat) → Want → Prop

/-- Where the child is. -/
inductive Child where
  | running
  | reading
  /-- In a write of `len` bytes, with so many still to be written. -/
  | writing (len left : Nat)
  | exited

structure System where
  m_pid : Int
  m_fdIn : Descriptor
  m_fdOut : Descriptor
  parent : Point
  child : Child
  /-- The results of the child's calls. -/
  seen : List (Want × Nat)
  /-- How many bytes the pipes hold. -/
  stdin : Nat
  stdout : Nat

/-- How many bytes the pipes can hold. -/
structure Capacity where
  stdin : Nat
  stdout : Nat
  stdin_pos : 0 < stdin
  stdout_pos : 0 < stdout

/-- The parent with its members, in front of these calls, and the child at its beginning. -/
def start (m : Members) (history : List Call) : System where
  m_pid := m.m_pid
  m_fdIn := m.m_fdIn
  m_fdOut := m.m_fdOut
  parent := .before history
  child := .running
  seen := []
  stdin := 0
  stdout := 0

/-- The steps of the parent and the child, in any order. -/
inductive Step (cap : Capacity) (program : Program) (s : System) : System → Prop
  -- `Process::write`
  | write {len : Nat} {rest : List Call} (hparent : s.parent = .before (.write len :: rest))
      (hopen : s.m_fdIn.isOpened = true) : Step cap program s { s with parent := .writing len rest }
  | notWritable {len : Nat} {rest : List Call} (hparent : s.parent = .before (.write len :: rest))
      (hclosed : s.m_fdIn.isOpened = false) : Step cap program s { s with parent := .before rest }
  | put {n left : Nat} {rest : List Call} (hparent : s.parent = .writing left rest) (hn : n ≤ left)
      (hspace : s.stdin + n ≤ cap.stdin) :
      Step cap program s { s with parent := .writing (left - n) rest, stdin := s.stdin + n }
  | written {rest : List Call} (hparent : s.parent = .writing 0 rest) :
      Step cap program s { s with parent := .before rest }
  -- `Process::read`
  | read {len : Nat} {rest : List Call} (hparent : s.parent = .before (.read len :: rest))
      (hopen : s.m_fdOut.isOpened = true) :
      Step cap program s { s with parent := .reading len rest }
  | notReadable {len : Nat} {rest : List Call} (hparent : s.parent = .before (.read len :: rest))
      (hclosed : s.m_fdOut.isOpened = false) : Step cap program s { s with parent := .before rest }
  | recieved {n len : Nat} {rest : List Call} (hparent : s.parent = .reading len rest)
    (hn : n ≤ len) (hstored : n ≤ s.stdout) (hpos : 0 < n ∨ len = 0) :
      Step cap program s { s with parent := .before rest, stdout := s.stdout - n }
  | endOfFile {len : Nat} {rest : List Call} (hparent : s.parent = .reading len rest)
      (hempty : s.stdout = 0) (hexited : s.child = .exited) :
      Step cap program s { s with parent := .before rest }
  -- a signal ends the call; it throws or returns what was written
  | writeInterrupted {left : Nat} {rest : List Call} (hparent : s.parent = .writing left rest) :
      Step cap program s { s with parent := .before rest }
  | readInterrupted {len : Nat} {rest : List Call} (hparent : s.parent = .reading len rest) :
      Step cap program s { s with parent := .before rest }
  -- `Process::closeStdin` and `Process::close`
  | closeStdin {rest : List Call} (hparent : s.parent = .before (.closeStdin :: rest)) :
      Step cap program s { s with parent := .before rest, m_fdIn := {} }
  | close {rest : List Call} (hparent : s.parent = .before (.close :: rest)) :
      Step cap program s { s with parent := .before rest, m_fdIn := {}, m_fdOut := {} }
  -- `Process::~Process`
  | waitpid (hparent : s.parent = .before []) (hpid : s.m_pid ≠ 0) :
      Step cap program s { s with parent := .waiting }
  | noChild (hparent : s.parent = .before []) (hpid : s.m_pid = 0) :
      Step cap program s { s with parent := .waited }
  | reaped (hparent : s.parent = .waiting) (hexited : s.child = .exited) :
      Step cap program s { s with parent := .waited }
  | waitInterrupted (hparent : s.parent = .waiting) : Step cap program s
    { s with parent := .waited }
  | destroyMembers (hparent : s.parent = .waited) :
      Step cap program s { s with parent := .destroyed, m_fdIn := {}, m_fdOut := {} }
  -- the child
  | childReads (hchild : s.child = .running) (hwant : program s.seen .read) :
      Step cap program s { s with child := .reading }
  | childWrites {len : Nat} (hchild : s.child = .running) (hwant : program s.seen (.write len)) :
      Step cap program s { s with child := .writing len len }
  | childRecieved {n : Nat} (hchild : s.child = .reading) (hpos : 0 < n) (hstored : n ≤ s.stdin) :
      Step cap program s
        { s with child := .running, seen := s.seen ++ [(.read, n)], stdin := s.stdin - n }
  | childEndOfFile (hchild : s.child = .reading) (hempty : s.stdin = 0)
      (hclosed : s.m_fdIn.isOpened = false) : Step cap program s { s with child := .exited }
  | childPut {n len left : Nat} (hchild : s.child = .writing len left) (hn : n ≤ left)
      (hspace : s.stdout + n ≤ cap.stdout) :
      Step cap program s { s with child := .writing len (left - n), stdout := s.stdout + n }
  | childWritten {len : Nat} (hchild : s.child = .writing len 0) :
      Step cap program s { s with child := .running, seen := s.seen ++ [(.write len, len)] }
  -- nobody reads: a signal ends the child, or the child ignores it and the call fails
  | brokenPipe {len left : Nat} (hchild : s.child = .writing len left)
      (hclosed : s.m_fdOut.isOpened = false) : Step cap program s { s with child := .exited }
  | childWriteFails {len left : Nat} (hchild : s.child = .writing len left)
      (hclosed : s.m_fdOut.isOpened = false) :
      Step cap program s { s with child := .running, seen := s.seen ++ [(.write len, len - left)] }

/-- The parent waits for the child to exit, and the child for bytes or the end of its stdin, which
the parent has not closed. -/
structure Deadlocked (s : System) : Prop where
  parent : s.parent = .waiting
  child : s.child = .reading
  empty : s.stdin = 0
  opened : s.m_fdIn.isOpened = true

/-- Behind these calls, no child and no order of steps leads into a deadlock. -/
def NeverDeadlocks (cap : Capacity) (m : Members) (history : List Call) : Prop :=
  ∀ program s, Relation.ReflTransGen (Step cap program) (start m history) s → ¬ Deadlocked s

/-- Nothing but a signal to the parent ends a deadlock. -/
theorem Deadlocked.step {cap : Capacity} {program : Program} {s s' : System} (h : Deadlocked s)
    (hstep : Step cap program s s') : s' = { s with parent := .waited } := by
  obtain ⟨hparent, hchild, hempty, hopened⟩ := h
  cases hstep with
  | waitInterrupted _ => rfl
  | reaped _ hexited => simp [hchild] at hexited
  | childRecieved _ hpos hstored => omega
  | childEndOfFile _ _ hclosed => simp [hopened] at hclosed
  | _ => simp_all

/-! ## Closing stdin -/

def Call.ClosesStdin : Call → Prop
  | .write _ | .read _ => False
  | .closeStdin | .close => True

/-- Some of these calls closes the child's stdin. -/
def AnyCloses (calls : List Call) : Prop := ∃ call ∈ calls, call.ClosesStdin

theorem AnyCloses.tail {call : Call} {rest : List Call} (h : AnyCloses (call :: rest))
    (hcall : ¬ call.ClosesStdin) : AnyCloses rest := by
  obtain ⟨closing, hmem, hcloses⟩ := h
  rcases List.mem_cons.mp hmem with rfl | hmem
  · exact absurd hcloses hcall
  · exact ⟨closing, hmem, hcloses⟩

/-- The parent is going to close the child's stdin, or through with the wait. -/
def Point.Closes : Point → Prop
  | .before rest | .writing _ rest | .reading _ rest => AnyCloses rest
  | .waiting => False
  | .waited | .destroyed => True

/-- An open stdin is going to be closed in front of the wait. -/
def ClosesInTime (s : System) : Prop := s.m_fdIn.isOpened = true → s.parent.Closes

theorem ClosesInTime.point {s : System} (h : ClosesInTime s) {p : Point} (hparent : s.parent = p)
    (hopen : s.m_fdIn.isOpened = true) : p.Closes :=
  hparent ▸ h hopen

/-- What one step keeps: only the wait needs stdin closed, and only the calls
that close it are awaited. -/
theorem step_closesInTime {cap : Capacity} {program : Program} {s s' : System} (h : ClosesInTime s)
    (hstep : Step cap program s s') : ClosesInTime s' := by
  intro hopen
  cases hstep with
  | write hparent _ => exact (h.point hparent hopen).tail id
  | notWritable hparent _ => exact (h.point hparent hopen).tail id
  | read hparent _ => exact (h.point hparent hopen).tail id
  | notReadable hparent _ => exact (h.point hparent hopen).tail id
  | put hparent _ _ =>
      have hcloses := h.point hparent hopen
      exact hcloses
  | written hparent =>
      have hcloses := h.point hparent hopen
      exact hcloses
  | recieved hparent _ _ _ =>
      have hcloses := h.point hparent hopen
      exact hcloses
  | endOfFile hparent _ _ =>
      have hcloses := h.point hparent hopen
      exact hcloses
  | writeInterrupted hparent =>
      have hcloses := h.point hparent hopen
      exact hcloses
  | readInterrupted hparent =>
      have hcloses := h.point hparent hopen
      exact hcloses
  | closeStdin _ => cases hopen
  | close _ => cases hopen
  | waitpid hparent _ =>
      -- no call is left that could close it
      obtain ⟨call, hmem, -⟩ := h.point hparent hopen
      cases hmem
  | noChild _ _ => trivial
  | reaped _ _ => trivial
  | waitInterrupted _ => trivial
  | destroyMembers _ => trivial
  | childReads _ _ => exact h hopen
  | childWrites _ _ => exact h hopen
  | childRecieved _ _ _ => exact h hopen
  | childEndOfFile _ _ _ => exact h hopen
  | childPut _ _ _ => exact h hopen
  | childWritten _ => exact h hopen
  | brokenPipe _ _ => exact h hopen
  | childWriteFails _ _ => exact h hopen

/-- In no state of a run is an open stdin waited for. -/
theorem run_closesInTime {cap : Capacity} {program : Program} {s s' : System} (h : ClosesInTime s)
    (hrun : Relation.ReflTransGen (Step cap program) s s') : ClosesInTime s' := by
  induction hrun with
  | refl => exact h
  | tail _ hstep ih => exact step_closesInTime ih hstep

theorem ClosesInTime.not_deadlocked {s : System} (h : ClosesInTime s) : ¬ Deadlocked s :=
  fun hdead => h.point hdead.parent hdead.opened

/-! ## A child that does what the parent waits for -/

/-- The child of which every program is one. -/
def anyProgram : Program := fun _ _ => True

/-- Runs with any child. -/
abbrev Runs (cap : Capacity) : System → System → Prop := Relation.ReflTransGen (Step cap anyProgram)

/-- Between two calls, with nothing in the pipes. -/
def idle (m : Members) (seen : List (Want × Nat)) (rest : List Call) : System :=
  { start m rest with seen := seen }

/-- The child reads byte by byte what the parent writes. -/
theorem writing_runs (cap : Capacity) (m : Members) (rest : List Call) (left : Nat)
    (seen : List (Want × Nat)) :
    ∃ seen', Runs cap { idle m seen rest with parent := .writing left rest }
      (idle m seen' rest) := by
  induction left generalizing seen with
  | zero => exact ⟨seen, .single (.written rfl)⟩
  | succ left ih =>
      obtain ⟨seen', hrest⟩ := ih (seen ++ [(.read, 1)])
      have hleft : 1 ≤ left + 1 := by omega
      have hspace : 0 + 1 ≤ cap.stdin := cap.stdin_pos
      have hput : Step cap anyProgram { idle m seen rest with parent := .writing (left + 1) rest }
          { idle m seen rest with parent := .writing left rest, stdin := 1 } :=
        .put (n := 1) rfl hleft hspace
      have hreads : Step cap anyProgram
          { idle m seen rest with parent := .writing left rest, stdin := 1 }
          { idle m seen rest with parent := .writing left rest, stdin := 1, child := .reading } :=
        .childReads rfl trivial
      have hrecieved : Step cap anyProgram
          { idle m seen rest with parent := .writing left rest, stdin := 1, child := .reading }
          { idle m (seen ++ [(.read, 1)]) rest with parent := .writing left rest } :=
        .childRecieved rfl (by omega) (by show 1 ≤ 1; omega)
      exact ⟨seen', .head hput (.head hreads (.head hrecieved hrest))⟩

/-- The child writes a byte for the parent to read. -/
theorem reading_runs (cap : Capacity) (m : Members) (rest : List Call) (len : Nat)
    (seen : List (Want × Nat)) :
    ∃ seen', Runs cap { idle m seen rest with parent := .reading (len + 1) rest }
      (idle m seen' rest) := by
  have hspace : 0 + 1 ≤ cap.stdout := cap.stdout_pos
  have hlen : 1 ≤ len + 1 := by omega
  have hwrites : Step cap anyProgram { idle m seen rest with parent := .reading (len + 1) rest }
      { idle m seen rest with parent := .reading (len + 1) rest, child := .writing 1 1 } :=
    .childWrites rfl trivial
  have hput : Step cap anyProgram
      { idle m seen rest with parent := .reading (len + 1) rest, child := .writing 1 1 }
      { idle m seen rest with
        parent := .reading (len + 1) rest, child := .writing 1 0, stdout := 1 } :=
    .childPut (n := 1) rfl le_rfl hspace
  have hwritten : Step cap anyProgram
      { idle m seen rest with
        parent := .reading (len + 1) rest, child := .writing 1 0, stdout := 1 }
      { idle m (seen ++ [(.write 1, 1)]) rest with
        parent := .reading (len + 1) rest, stdout := 1 } :=
    .childWritten rfl
  have hrecieved : Step cap anyProgram
      { idle m (seen ++ [(.write 1, 1)]) rest with parent := .reading (len + 1) rest, stdout := 1 }
      (idle m (seen ++ [(.write 1, 1)]) rest) :=
    .recieved (n := 1) rfl hlen le_rfl (Or.inl Nat.one_pos)
  exact ⟨_, .head hwrites (.head hput (.head hwritten (.single hrecieved)))⟩

/-- A call that closes nothing returns, if the child does what it waits for. -/
theorem call_runs (cap : Capacity) {m : Members} (hm : m.Started) {call : Call}
    (hcall : ¬ call.ClosesStdin) (rest : List Call) (seen : List (Want × Nat)) :
    ∃ seen', Runs cap (idle m seen (call :: rest)) (idle m seen' rest) := by
  cases call with
  | write len =>
      obtain ⟨seen', hwriting⟩ := writing_runs cap m rest len seen
      exact ⟨seen', .head (.write rfl hm.writable) hwriting⟩
  | read len =>
      cases len with
      | zero =>
          have hreturns : Step cap anyProgram { idle m seen rest with parent := .reading 0 rest }
              (idle m seen rest) := .recieved rfl le_rfl le_rfl (Or.inr rfl)
          exact ⟨seen, .head (.read rfl hm.readable) (.single hreturns)⟩
      | succ len =>
          obtain ⟨seen', hreading⟩ := reading_runs cap m rest len seen
          exact ⟨seen', .head (.read rfl hm.readable) hreading⟩
  | closeStdin => exact absurd trivial hcall
  | close => exact absurd trivial hcall

theorem calls_run (cap : Capacity) {m : Members} (hm : m.Started) {history : List Call}
    (hhistory : ¬ AnyCloses history) (seen : List (Want × Nat)) :
    ∃ seen', Runs cap (idle m seen history) (idle m seen' []) := by
  induction history generalizing seen with
  | nil => exact ⟨seen, .refl⟩
  | cons call rest ih =>
      have hcall : ¬ call.ClosesStdin := fun h => hhistory ⟨call, List.mem_cons_self, h⟩
      have hrest : ¬ AnyCloses rest := by
        rintro ⟨closing, hmem, h⟩
        exact hhistory ⟨closing, List.mem_cons_of_mem _ hmem, h⟩
      obtain ⟨seen₁, hfirst⟩ := call_runs cap hm hcall rest seen
      obtain ⟨seen', hothers⟩ := ih hrest seen₁
      exact ⟨seen', hfirst.trans hothers⟩

/-- Behind such calls the child may read once more. -/
theorem exists_deadlocked (cap : Capacity) {m : Members} (hm : m.Started) {history : List Call}
    (hhistory : ¬ AnyCloses history) : ∃ s, Runs cap (start m history) s ∧ Deadlocked s := by
  obtain ⟨seen, hcalls⟩ := calls_run cap hm hhistory []
  have hwaits : Step cap anyProgram (idle m seen [])
      { idle m seen [] with parent := .waiting } := by
    apply Step.waitpid rfl
    have hpid := hm.pid
    show m.m_pid ≠ 0
    omega
  have hreads : Step cap anyProgram { idle m seen [] with parent := .waiting }
      { idle m seen [] with parent := .waiting, child := .reading } := .childReads rfl trivial
  exact ⟨_, (hcalls.tail hwaits).tail hreads, rfl, rfl, rfl, hm.writable⟩

/-- **When the destructor cannot deadlock.**  Behind a history of calls, no child and no order of
steps leads to a state in which `~Process` waits for a child that waits for its stdin, exactly when
one of the calls has closed the child's stdin. -/
theorem noDeadlock_iff (cap : Capacity) {m : Members} (hm : m.Started) (history : List Call) :
    NeverDeadlocks cap m history ↔ AnyCloses history := by
  constructor
  · intro h
    by_contra hnone
    obtain ⟨s, hrun, hdead⟩ := exists_deadlocked cap hm hnone
    exact h anyProgram s hrun hdead
  · intro hcloses program s hrun
    have hstart : ClosesInTime (start m history) := fun _ => hcloses
    exact (run_closesInTime hstart hrun).not_deadlocked

/-! ## Two histories -/

/-- What the constructor makes where all calls succeed. -/
def launched : Members := ⟨100, "/bin/cat", ⟨4⟩, ⟨5⟩⟩

theorem launched_started : launched.Started := by
  have hreturned : construct "/bin/cat" ["-u"] (launching true) streams =
      ⟨.returned launched _, _⟩ := rfl
  exact construct_started (launching_promised true) hreturned

/-- The pipes of a page. -/
def page : Capacity := ⟨4096, 4096, by decide, by decide⟩

/-- Something is written, and stdin closed. -/
theorem noDeadlock_closed : NeverDeadlocks page launched [.write 5000, .closeStdin] := by
  apply (noDeadlock_iff page launched_started [.write 5000, .closeStdin]).mpr
  exact ⟨.closeStdin, by simp, trivial⟩

/-- A process that copies its stdin, and is destroyed at once. -/
theorem cat_deadlocks : ¬ NeverDeadlocks page launched [] := by
  intro h
  have hwaits : Step page (fun _ want => want = .read) (start launched [])
      { start launched [] with parent := .waiting } := by
    apply Step.waitpid rfl
    decide
  have hreads : Step page (fun _ want => want = .read) { start launched [] with parent := .waiting }
      { start launched [] with parent := .waiting, child := .reading } := .childReads rfl rfl
  exact h _ _ ((Relation.ReflTransGen.single hwaits).tail hreads) ⟨rfl, rfl, rfl, rfl⟩

end Process
end AdvCppHW
