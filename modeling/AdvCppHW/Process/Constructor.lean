import AdvCppHW.Process.Process
import AdvCppHW.Support.OrdMap

/-!
# The constructor of a child process

`Process::Process` of `Process.cpp`, with the descriptors that a process has open.  Behind
`fork` the body runs in two processes, and in both of them an exception goes to the code that
has called the constructor.

* `Calls` — how the system calls end; `Calls.Promised` — what the kernel grants.
* `parent`, `child` — the body behind `fork`; `construct` — the constructor.
* `exceptionSafe_iff` — when only the parent leaves the constructor, without
  descriptors of a failed one.
* `construct_connected` — the pipes between the two when it succeeds.
-/

namespace AdvCppHW
namespace Process

open Support

/-! ## Descriptors -/

/-- What a descriptor refers to. -/
inductive File where
  /-- An end of the pipe to the child. -/
  | pipe_in (writing : Bool)
  /-- An end of the pipe from the child. -/
  | pipe_out (writing : Bool)
  | other (tag : Nat)
deriving DecidableEq

/-- The open descriptors of a process. -/
abbrev Table := OrdMap Int File

/-- What `pipe` stores: the descriptor to read from, and the one to write to. -/
structure Ends where
  reading : Int
  writing : Int

/-- The table behind `pipe`. -/
def piped (e : Ends) (file : Bool → File) (t : Table) : Table :=
  (t.assign e.reading (file false)).assign e.writing (file true)

/-- The table behind a `dup2` that succeeds. -/
def dup2 (oldfd newfd : Int) (t : Table) : Table :=
  match t.lookup oldfd with
  | some file => t.assign newfd file
  | none => t

def STDIN_FILENO : Int := 0

def STDOUT_FILENO : Int := 1

/-- `Descriptor::close`, as `~Descriptor` and `setFD` call it. -/
def release (d : Descriptor) (t : Table) : Table := if d.isOpened then t.erase d.m_fd else t

/-- `Descriptor::setFD`. -/
def setFD (d : Descriptor) (fd : Int) (t : Table) : Descriptor × Table := (⟨fd⟩, release d t)

/-! ## The constructor -/

/-- How the system calls of the constructor end. -/
structure Calls where
  /-- `none` when `pipe` fails. -/
  pipe_in : Option Ends
  pipe_out : Option Ends
  /-- The id of the child; `none` when `fork` fails. -/
  fork : Option Int
  dup2_in : Bool
  dup2_out : Bool
  execvp : Bool

structure Members where
  m_pid : Int
  m_path : String
  m_fdIn : Descriptor
  m_fdOut : Descriptor

/-- What becomes of a process in the constructor. -/
inductive End where
  | returned (members : Members) (t : Table)
  | threw (e : Exception) (t : Table)
  /-- It executes another program. -/
  | executes (file : String) (args : List String) (t : Table)

/-- An exception leaves the constructor, which destroys the members. -/
def unwound (e : Exception) (m_fdIn m_fdOut : Descriptor) (t : Table) : End :=
  .threw e (release m_fdIn (release m_fdOut t))

/-- `c_str`, up to the byte that ends it. -/
def c_str (s : String) : String := String.ofList (s.toList.takeWhile (· ≠ '\x00'))

/-- The body behind `fork`, in the child. -/
def child (m_path : String) (argv : List String) (calls : Calls) (pipe_in pipe_out : Ends)
    (t : Table) : End :=
  if !calls.dup2_in then
    unwound (.DescriptorError "Failed to duplicate file descriptor in!") {} {} t
  else
    let t := dup2 pipe_in.reading STDIN_FILENO t
    if !calls.dup2_out then
      unwound (.DescriptorError "Failed to duplicate file descriptor out!") {} {} t
    else
      let t := dup2 pipe_out.writing STDOUT_FILENO t
      let t := (((t.erase pipe_in.reading).erase pipe_in.writing).erase pipe_out.reading).erase
        pipe_out.writing
      let procArgs := c_str m_path :: argv.map c_str
      -- `execvp` comes back only when it fails
      if calls.execvp then .executes (c_str m_path) procArgs t
      else unwound (.ProcessError ("Failed to launch process " ++ m_path)) {} {} t

/-- The body behind `fork`, in the parent. -/
def parent (pid : Int) (m_path : String) (pipe_in pipe_out : Ends) (t : Table) : End :=
  let t := (t.erase pipe_in.reading).erase pipe_out.writing
  let (m_fdIn, t) := setFD {} pipe_in.writing t
  let (m_fdOut, t) := setFD {} pipe_out.reading t
  .returned ⟨pid, m_path, m_fdIn, m_fdOut⟩ t

/-- The parent's end, and the child's, if there is one. -/
structure Constructed where
  parent : End
  child : Option End

/-- `Process::Process`. -/
def construct (procPath : String) (argv : List String) (calls : Calls) (t : Table) : Constructed :=
  match calls.pipe_in with
  | none => ⟨unwound (.DescriptorError "Failed to create pipe to process!") {} {} t, none⟩
  | some pipe_in =>
      let t := piped pipe_in .pipe_in t
      match calls.pipe_out with
      | none => ⟨unwound (.DescriptorError "Failed to create pipe out of process!") {} {} t, none⟩
      | some pipe_out =>
          let t := piped pipe_out .pipe_out t
          match calls.fork with
          | none => ⟨unwound (.ProcessError "Failed to create process!") {} {} t, none⟩
          | some pid =>
              ⟨parent pid procPath pipe_in pipe_out t,
                some (child procPath argv calls pipe_in pipe_out t)⟩

/-- `pipe` opens two descriptors that are not in use. -/
structure Ends.Fresh (e : Ends) (t : Table) : Prop where
  reading : 0 ≤ e.reading ∧ e.reading ∉ t
  writing : 0 ≤ e.writing ∧ e.writing ∉ t
  distinct : e.reading ≠ e.writing

/-- What the kernel grants. -/
structure Calls.Promised (calls : Calls) (t : Table) : Prop where
  pipe_in : ∀ e, calls.pipe_in = some e → e.Fresh t
  pipe_out : ∀ e e', calls.pipe_in = some e → calls.pipe_out = some e' →
    e'.Fresh (piped e .pipe_in t)
  fork : ∀ pid, calls.fork = some pid → 0 < pid

/-! ## Exception safety -/

/-- The process goes on in the code that has called the constructor. -/
def End.Leaves : End → Prop
  | .returned _ _ => True
  | .threw _ _ => True
  | .executes _ _ _ => False

/-- Only the parent leaves the constructor, and if by an exception, with the
descriptors that it had open. -/
structure ExceptionSafe (t : Table) (c : Constructed) : Prop where
  onlyParent : ∀ ended, c.child = some ended → ¬ ended.Leaves
  unchanged : ∀ e t', c.parent = .threw e t' → ∀ fd, fd ∈ t' ↔ fd ∈ t

/-- The first call fails, or none does. -/
def Calls.Clean (calls : Calls) : Prop :=
  calls.pipe_in = none ∨
    (calls.pipe_in ≠ none ∧ calls.pipe_out ≠ none ∧ calls.fork ≠ none) ∧
      calls.dup2_in = true ∧ calls.dup2_out = true ∧ calls.execvp = true

/-- No member owns a descriptor yet. -/
theorem unwound_empty (e : Exception) (t : Table) : unwound e {} {} t = .threw e t := rfl

theorem mem_piped {e : Ends} {file : Bool → File} {t : Table} {fd : Int} :
    fd ∈ piped e file t ↔ fd = e.writing ∨ fd = e.reading ∨ fd ∈ t := by
  rw [piped, OrdMap.mem_assign, OrdMap.mem_assign]

/-- The child leaves the constructor unless all of its calls succeed. -/
theorem child_leaves_iff (m_path : String) (argv : List String) (calls : Calls)
    (pipe_in pipe_out : Ends) (t : Table) : (child m_path argv calls pipe_in pipe_out t).Leaves ↔
      ¬ (calls.dup2_in = true ∧ calls.dup2_out = true ∧ calls.execvp = true) := by
  unfold child
  dsimp only
  cases calls.dup2_in with
  | false => simp [unwound_empty, End.Leaves]
  | true =>
      cases calls.dup2_out with
      | false => simp [unwound_empty, End.Leaves]
      | true =>
          cases calls.execvp with
          | false => simp [unwound_empty, End.Leaves]
          | true => simp [End.Leaves]

/-- A failure behind the first `pipe` leaves its descriptors open. -/
theorem not_exceptionSafe_of_leak {t t' : Table} {e : Exception} {ended : Option End} {fd : Int}
    (hnew : fd ∉ t) (hopen : fd ∈ t') : ¬ ExceptionSafe t ⟨.threw e t', ended⟩ := by
  intro h
  exact hnew ((h.unchanged e t' rfl fd).mp hopen)

/-- **When construction is exception-safe.**  Only the parent leaves the constructor, and if by an
exception with the descriptors that it had open, exactly when the first `pipe` fails or all calls in
both processes succeed. -/
theorem exceptionSafe_iff (procPath : String) (argv : List String) {calls : Calls} {t : Table}
    (hkernel : calls.Promised t) :
    ExceptionSafe t (construct procPath argv calls t) ↔ calls.Clean := by
  unfold construct Calls.Clean
  cases hin : calls.pipe_in with
  | none =>
      apply iff_of_true
      · constructor
        · intro ended hended
          cases hended
        · intro e t' hthrew fd
          cases hthrew
          exact Iff.rfl
      · exact Or.inl rfl
  | some pipe_in =>
      have hfresh := (hkernel.pipe_in pipe_in hin).reading.2
      have hfirst : pipe_in.reading ∈ piped pipe_in .pipe_in t :=
        mem_piped.mpr (Or.inr (Or.inl rfl))
      cases hout : calls.pipe_out with
      | none =>
          apply iff_of_false
          · exact not_exceptionSafe_of_leak hfresh hfirst
          · simp
      | some pipe_out =>
          have hsecond : pipe_in.reading ∈ piped pipe_out .pipe_out (piped pipe_in .pipe_in t) :=
            mem_piped.mpr (Or.inr (Or.inr hfirst))
          cases hfork : calls.fork with
          | none =>
              apply iff_of_false
              · exact not_exceptionSafe_of_leak hfresh hsecond
              · simp
          | some pid =>
              dsimp only
              have hchild := child_leaves_iff procPath argv calls pipe_in pipe_out
                (piped pipe_out .pipe_out (piped pipe_in .pipe_in t))
              constructor
              · intro h
                have hstays := h.onlyParent _ rfl
                rw [hchild, not_not] at hstays
                exact Or.inr ⟨by simp, hstays⟩
              · rintro (hnone | ⟨-, hsucceed⟩)
                · cases hnone
                · constructor
                  · intro ended hended
                    cases hended
                    rw [hchild, not_not]
                    exact hsucceed
                  · intro e t' hthrew
                    cases hthrew

/-! ## The two pipes -/

/-- The members of a process that was started. -/
structure Members.Started (m : Members) : Prop where
  pid : 0 < m.m_pid
  writable : m.m_fdIn.isOpened = true
  readable : m.m_fdOut.isOpened = true

theorem isOpened_of_nonneg {fd : Int} (h : 0 ≤ fd) : (⟨fd⟩ : Descriptor).isOpened = true := by
  simp only [Descriptor.isOpened, ne_eq, decide_eq_true_eq]
  omega

/-- A constructor that returns in the parent has started the process. -/
theorem construct_started {procPath : String} {argv : List String} {calls : Calls} {t t' : Table}
    (hkernel : calls.Promised t) {members : Members} {ended : Option End}
    (h : construct procPath argv calls t = ⟨.returned members t', ended⟩) : members.Started := by
  unfold construct at h
  cases hin : calls.pipe_in with
  | none =>
      rw [hin] at h
      cases h
  | some pipe_in =>
      cases hout : calls.pipe_out with
      | none =>
          rw [hin, hout] at h
          cases h
      | some pipe_out =>
          cases hfork : calls.fork with
          | none =>
              rw [hin, hout, hfork] at h
              cases h
          | some pid =>
              rw [hin, hout, hfork] at h
              cases h
              constructor
              · exact hkernel.fork pid hfork
              · exact isOpened_of_nonneg (hkernel.pipe_in pipe_in hin).writing.1
              · exact isOpened_of_nonneg (hkernel.pipe_out pipe_in pipe_out hin hout).reading.1

/-- The standard streams are open in the calling process. -/
def StandardStreams (t : Table) : Prop := STDIN_FILENO ∈ t ∧ STDOUT_FILENO ∈ t

/-- The parent writes to the one pipe and reads from the other, and the program that
the child executes has their other ends as its standard streams and no other descriptor
that `pipe` has returned. -/
structure Connected (pipe_in pipe_out : Ends) (members : Members) (t t' : Table) : Prop where
  writes : t.lookup members.m_fdIn.m_fd = some (.pipe_in true)
  reads : t.lookup members.m_fdOut.m_fd = some (.pipe_out false)
  stdin : t'.lookup STDIN_FILENO = some (.pipe_in false)
  stdout : t'.lookup STDOUT_FILENO = some (.pipe_out true)
  others : ∀ fd ∈ [pipe_in.reading, pipe_in.writing, pipe_out.reading, pipe_out.writing], fd ∉ t'

theorem lookup_piped_reading {e : Ends} (h : e.reading ≠ e.writing) (file : Bool → File)
    (t : Table) : (piped e file t).lookup e.reading = some (file false) := by
  rw [piped, OrdMap.lookup_assign_ne _ h, OrdMap.lookup_assign_self]

theorem lookup_piped_writing (e : Ends) (file : Bool → File) (t : Table) :
    (piped e file t).lookup e.writing = some (file true) :=
  OrdMap.lookup_assign_self _ _ _

theorem lookup_piped_ne {e : Ends} {fd : Int} (hreading : fd ≠ e.reading)
    (hwriting : fd ≠ e.writing) (file : Bool → File)
    (t : Table) : (piped e file t).lookup fd = t.lookup fd := by
  rw [piped, OrdMap.lookup_assign_ne _ hwriting, OrdMap.lookup_assign_ne _ hreading]

theorem dup2_of_lookup {oldfd newfd : Int} {t : Table} {file : File}
    (h : t.lookup oldfd = some file) : dup2 oldfd newfd t = t.assign newfd file := by
  rw [dup2, h]

/-- A new descriptor is none of those that were open. -/
theorem Ends.Fresh.ne {e : Ends} {t : Table} (h : e.Fresh t) {fd : Int} (hopen : fd ∈ t) :
    fd ≠ e.reading ∧ fd ≠ e.writing := by
  constructor
  · rintro rfl
    exact h.reading.2 hopen
  · rintro rfl
    exact h.writing.2 hopen

theorem child_executes {m_path : String} {argv : List String} {calls : Calls}
    {pipe_in pipe_out : Ends} {t t' : Table} {file : String} {args : List String}
    (h : child m_path argv calls pipe_in pipe_out t = .executes file args t') :
    t' = ((((dup2 pipe_out.writing STDOUT_FILENO (dup2 pipe_in.reading STDIN_FILENO t)).erase
      pipe_in.reading).erase pipe_in.writing).erase pipe_out.reading).erase pipe_out.writing := by
  unfold child at h
  dsimp only at h
  split at h
  · cases h
  · split at h
    · cases h
    · split at h
      · cases h
        rfl
      · cases h

/-- **A constructed process is connected.**  Where the caller has its standard streams open and all
calls succeed, the parent holds the outer ends of the two pipes, and the child's program has the
inner ones as its standard streams, and no other descriptor of a pipe. -/
theorem construct_connected {procPath : String} {argv : List String} {calls : Calls}
    {t t₁ t₂ : Table} (hkernel : calls.Promised t) (hstreams : StandardStreams t)
    {pipe_in pipe_out : Ends} (hin : calls.pipe_in = some pipe_in)
    (hout : calls.pipe_out = some pipe_out) {members : Members} {file : String} {args : List String}
    (h : construct procPath argv calls t = ⟨.returned members t₁, some (.executes file args t₂)⟩) :
    Connected pipe_in pipe_out members t₁ t₂ := by
  have hfresh := hkernel.pipe_in pipe_in hin
  have hfresh' := hkernel.pipe_out pipe_in pipe_out hin hout
  -- all descriptors are different ones
  obtain ⟨hin0, hin0'⟩ := hfresh.ne hstreams.1
  obtain ⟨hin1, hin1'⟩ := hfresh.ne hstreams.2
  obtain ⟨hout0, hout0'⟩ := hfresh'.ne (mem_piped.mpr (Or.inr (Or.inr hstreams.1)))
  obtain ⟨hout1, hout1'⟩ := hfresh'.ne (mem_piped.mpr (Or.inr (Or.inr hstreams.2)))
  obtain ⟨hrr, hrw⟩ := hfresh'.ne (mem_piped.mpr (Or.inr (Or.inl rfl)))
  obtain ⟨hwr, hww⟩ := hfresh'.ne (mem_piped.mpr (Or.inl rfl))
  unfold construct at h
  rw [hin, hout] at h
  cases hfork : calls.fork with
  | none =>
      rw [hfork] at h
      cases h
  | some pid =>
      rw [hfork] at h
      injection h with hparent hchild
      injection hparent with hmembers ht₁
      have ht₂ := child_executes (Option.some.inj hchild)
      subst hmembers ht₁
      have hstdin : (piped pipe_out .pipe_out (piped pipe_in .pipe_in t)).lookup pipe_in.reading =
          some (.pipe_in false) := by
        rw [lookup_piped_ne hrr hrw, lookup_piped_reading hfresh.distinct]
      have hstdout : ((piped pipe_out .pipe_out (piped pipe_in .pipe_in t)).assign STDIN_FILENO
          (.pipe_in false)).lookup pipe_out.writing = some (.pipe_out true) := by
        rw [OrdMap.lookup_assign_ne _ hout0'.symm, lookup_piped_writing]
      rw [dup2_of_lookup hstdin, dup2_of_lookup hstdout] at ht₂
      subst ht₂
      constructor
      · show (((piped pipe_out .pipe_out (piped pipe_in .pipe_in t)).erase pipe_in.reading).erase
          pipe_out.writing).lookup pipe_in.writing = _
        rw [OrdMap.lookup_erase_ne _ hww, OrdMap.lookup_erase_ne _ hfresh.distinct.symm,
          lookup_piped_ne hwr hww, lookup_piped_writing]
      · show (((piped pipe_out .pipe_out (piped pipe_in .pipe_in t)).erase pipe_in.reading).erase
          pipe_out.writing).lookup pipe_out.reading = _
        rw [OrdMap.lookup_erase_ne _ hfresh'.distinct, OrdMap.lookup_erase_ne _ hrr.symm,
          lookup_piped_reading hfresh'.distinct]
      · rw [OrdMap.lookup_erase_ne _ hout0', OrdMap.lookup_erase_ne _ hout0,
          OrdMap.lookup_erase_ne _ hin0',
          OrdMap.lookup_erase_ne _ hin0, OrdMap.lookup_assign_ne _ (by decide),
          OrdMap.lookup_assign_self]
      · rw [OrdMap.lookup_erase_ne _ hout1', OrdMap.lookup_erase_ne _ hout1,
          OrdMap.lookup_erase_ne _ hin1', OrdMap.lookup_erase_ne _ hin1, OrdMap.lookup_assign_self]
      · intro fd hfd hmem
        simp only [OrdMap.mem_erase] at hmem
        simp only [List.mem_cons, List.not_mem_nil, or_false] at hfd
        tauto

/-! ## Constructions -/

/-- A process with its three standard streams. -/
def streams : Table := OrdMap.empty.assignAll [(0, .other 0), (1, .other 1), (2, .other 2)]

/-- All calls succeed but, perhaps, `execvp`. -/
def launching (execvp : Bool) : Calls := ⟨some ⟨3, 4⟩, some ⟨5, 6⟩, some 100, true, true, execvp⟩

theorem launching_promised (execvp : Bool) : (launching execvp).Promised streams where
  pipe_in e he := by
    cases he
    exact ⟨by decide +kernel, by decide +kernel, by decide⟩
  pipe_out e e' he he' := by
    cases he
    cases he'
    exact ⟨by decide +kernel, by decide +kernel, by decide⟩
  fork pid hpid := by
    cases hpid
    decide

/-- The construction of a process that runs. -/
theorem exceptionSafe_launched :
    ExceptionSafe streams (construct "/bin/cat" ["-u"] (launching true) streams) := by
  apply (exceptionSafe_iff "/bin/cat" ["-u"] (launching_promised true)).mpr
  exact Or.inr ⟨⟨by simp [launching], by simp [launching], by simp [launching]⟩, rfl, rfl, rfl⟩

/-- Without the program, the child goes on in the code that has called the
constructor, like its parent. -/
theorem missing_program_leaves :
    ¬ ∀ procPath argv calls t, Calls.Promised calls t →
      ExceptionSafe t (construct procPath argv calls t) := by
  intro h
  have hsafe := h "/no/such/program" [] (launching false) streams (launching_promised false)
  apply hsafe.onlyParent _ rfl
  show (child _ _ _ _ _ _).Leaves
  rw [child_leaves_iff]
  rintro ⟨-, -, hexecvp⟩
  cases hexecvp

end Process
end AdvCppHW
