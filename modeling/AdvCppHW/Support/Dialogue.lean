import AdvCppHW.Support.ExactTransfer

/-!
# Two programs that talk over two pipes

Each program sends lists and takes given numbers of elements, over one pipe to the other
program and one pipe from it.  A pipe holds what was written and not yet read, and it may take
a part of what it is offered.

* `Agree` — the two programs come to their ends when they run side by side, one element at a time
  and with nothing held between them.
* `Step`, `Run` — they run on their own, with the pipes between them;
  `step_agrees` — what a step leaves.
* `run_bounded`, `stuck_iff`, `not_severed` — programs that agree come to their ends over any two
  pipes, whatever the order of their calls, and no call meets a program that has ended.
* `run_performs` — from the steps of one program to procedures that transfer exactly.
-/

namespace AdvCppHW
namespace Support
namespace Dialogue

variable {α ρ τ : Type}

/-- What a program still has to do. -/
inductive Party (α ρ : Type) where
  | send (data : List α) (next : Party α ρ)
  | receive (n : Nat) (next : List α → Party α ρ)
  | done (result : ρ)

/-! ## Programs that agree -/

/-- Side by side the two programs come to these results.  Each element costs two, and each
return of a call costs one. -/
inductive Agree : Nat → Party α ρ → Party α τ → ρ → τ → Prop
  | done (r : ρ) (t : τ) : Agree 0 (.done r) (.done t) r t
  | leftSent {n : Nat} {p : Party α ρ} {q : Party α τ} {r : ρ} {t : τ} (h : Agree n p q r t) :
      Agree (n + 1) (.send [] p) q r t
  | leftReceived {n : Nat} {next : List α → Party α ρ} {q : Party α τ} {r : ρ} {t : τ}
      (h : Agree n (next []) q r t) : Agree (n + 1) (.receive 0 next) q r t
  | rightSent {n : Nat} {p : Party α ρ} {q : Party α τ} {r : ρ} {t : τ} (h : Agree n p q r t) :
      Agree (n + 1) p (.send [] q) r t
  | rightReceived {n : Nat} {p : Party α ρ} {next : List α → Party α τ} {r : ρ} {t : τ}
      (h : Agree n p (next []) r t) : Agree (n + 1) p (.receive 0 next) r t
  | toRight {n m : Nat} {a : α} {data : List α} {p : Party α ρ} {next : List α → Party α τ}
    {r : ρ} {t : τ} (h : Agree n (.send data p) (.receive m fun rest => next (a :: rest)) r t) :
      Agree (n + 2) (.send (a :: data) p) (.receive (m + 1) next) r t
  | toLeft {n m : Nat} {a : α} {data : List α} {next : List α → Party α ρ} {q : Party α τ}
    {r : ρ} {t : τ} (h : Agree n (.receive m fun rest => next (a :: rest)) (.send data q) r t) :
      Agree (n + 2) (.receive (m + 1) next) (.send (a :: data) q) r t

namespace Agree

variable {n m : Nat} {p p' : Party α ρ} {q : Party α τ} {r : ρ} {t : τ} {a b : List α}

theorem swap (h : Agree n p q r t) : Agree n q p t r := by
  induction h with
  | done r t => exact .done t r
  | leftSent _ ih => exact .rightSent ih
  | leftReceived _ ih => exact .rightReceived ih
  | rightSent _ ih => exact .leftSent ih
  | rightReceived _ ih => exact .leftReceived ih
  | toRight _ ih => exact .toLeft ih
  | toLeft _ ih => exact .toRight ih

/-- A list for which the other side is waiting. -/
theorem exchange (data : List α) {size : Nat} (hsize : size = data.length)
    (next : List α → Party α τ) (h : Agree n p (next data) r t) :
    Agree (n + 2 * data.length + 2) (.send data p) (.receive size next) r t := by
  subst hsize
  induction data generalizing next with
  | nil => exact .leftSent (.rightReceived h)
  | cons x data ih => exact .toRight (ih _ h)

/-! ### Taking one call apart -/

/-- The return of a call of the left program, which may have been put off. -/
theorem of_sent (h : Agree n (.send [] p) q r t) : ∃ m, m < n ∧ Agree m p q r t := by
  generalize hleft : Party.send [] p = left at h
  induction h with
  | done => cases hleft
  | leftSent h =>
      cases hleft
      exact ⟨_, Nat.lt_succ_self _, h⟩
  | leftReceived => cases hleft
  | rightSent _ ih =>
      obtain ⟨m, hlt, h⟩ := ih hleft
      exact ⟨m + 1, Nat.succ_lt_succ hlt, .rightSent h⟩
  | rightReceived _ ih =>
      obtain ⟨m, hlt, h⟩ := ih hleft
      exact ⟨m + 1, Nat.succ_lt_succ hlt, .rightReceived h⟩
  | toRight => cases hleft
  | toLeft => cases hleft

theorem of_received {next : List α → Party α ρ} (h : Agree n (.receive 0 next) q r t) :
    ∃ m, m < n ∧ Agree m (next []) q r t := by
  generalize hleft : Party.receive 0 next = left at h
  induction h with
  | done => cases hleft
  | leftSent => cases hleft
  | leftReceived h =>
      cases hleft
      exact ⟨_, Nat.lt_succ_self _, h⟩
  | rightSent _ ih =>
      obtain ⟨m, hlt, h⟩ := ih hleft
      exact ⟨m + 1, Nat.succ_lt_succ hlt, .rightSent h⟩
  | rightReceived _ ih =>
      obtain ⟨m, hlt, h⟩ := ih hleft
      exact ⟨m + 1, Nat.succ_lt_succ hlt, .rightReceived h⟩
  | toRight => cases hleft
  | toLeft => cases hleft

/-- What makes a program cheaper makes it cheaper behind what it has sent. -/
theorem behind (hcheaper : ∀ {n : Nat} {q : Party α τ}, Agree n p q r t → ∃ m, m < n ∧
    Agree m p' q r t)
    (h : Agree n (.send a p) q r t) : ∃ m, m < n ∧ Agree m (.send a p') q r t := by
  generalize hleft : Party.send a p = left at h
  induction h generalizing a with
  | done => cases hleft
  | leftSent h =>
      cases hleft
      obtain ⟨m, hlt, h⟩ := hcheaper h
      exact ⟨m + 1, Nat.succ_lt_succ hlt, .leftSent h⟩
  | leftReceived => cases hleft
  | rightSent _ ih =>
      obtain ⟨m, hlt, h⟩ := ih hcheaper hleft
      exact ⟨m + 1, Nat.succ_lt_succ hlt, .rightSent h⟩
  | rightReceived _ ih =>
      obtain ⟨m, hlt, h⟩ := ih hcheaper hleft
      exact ⟨m + 1, Nat.succ_lt_succ hlt, .rightReceived h⟩
  | toRight _ ih =>
      cases hleft
      obtain ⟨m, hlt, h⟩ := ih hcheaper rfl
      exact ⟨m + 2, Nat.add_lt_add_right hlt 2, .toRight h⟩
  | toLeft => cases hleft

/-- A list may be sent in two parts. -/
theorem split (h : Agree n (.send (a ++ b) p) q r t) :
    Agree (n + 1) (.send a (.send b p)) q r t := by
  generalize hleft : Party.send (a ++ b) p = left at h
  induction h generalizing a with
  | done => cases hleft
  | leftSent h =>
      injection hleft with hnil hp
      obtain ⟨rfl, rfl⟩ := List.append_eq_nil_iff.mp hnil
      subst hp
      exact .leftSent (.leftSent h)
  | leftReceived => cases hleft
  | rightSent _ ih => exact .rightSent (ih hleft)
  | rightReceived _ ih => exact .rightReceived (ih hleft)
  | toRight h ih =>
      cases a with
      | nil =>
          cases hleft
          exact .leftSent (.toRight h)
      | cons x a =>
          cases hleft
          exact .toRight (ih rfl)
  | toLeft => cases hleft

/-- What has been sent of a list goes to what was sent before it. -/
theorem move {data : List α} (h : Agree n (.send data (.send (a ++ b) p)) q r t) :
    Agree n (.send (data ++ a) (.send b p)) q r t := by
  generalize hleft : Party.send data (.send (a ++ b) p) = left at h
  induction h generalizing data with
  | done => cases hleft
  | leftSent h =>
      cases hleft
      exact h.split
  | leftReceived => cases hleft
  | rightSent _ ih => exact .rightSent (ih hleft)
  | rightReceived _ ih => exact .rightReceived (ih hleft)
  | toRight _ ih =>
      cases hleft
      exact .toRight (ih rfl)
  | toLeft => cases hleft

/-- Both sides cannot have something on its way. -/
theorem sent_nil {x : α} (h : Agree n (.send a p) (.send (x :: b) q) r t) : a = [] := by
  cases h with
  | leftSent => rfl

/-- What is on its way to the left program is what it reads. -/
theorem read {next : List α → Party α ρ} {chunk : List α}
    (h : Agree n (.receive (chunk.length + m) next) (.send (chunk ++ b) q) r t) :
    ∃ k, k + 2 * chunk.length = n ∧
      Agree k (.receive m fun rest => next (chunk ++ rest)) (.send b q) r t := by
  induction chunk generalizing n next with
  | nil =>
      rw [List.length_nil, Nat.zero_add] at h
      exact ⟨n, rfl, h⟩
  | cons x chunk ih =>
      rw [List.length_cons, Nat.add_right_comm] at h
      cases h with
      | toLeft h =>
          obtain ⟨k, hk, h⟩ := ih h
          exact ⟨k, by rw [List.length_cons]; omega, h⟩

/-- What is on its way has been paid for. -/
theorem length_le (h : Agree n (.send a p) q r t) : a.length ≤ n := by
  generalize hleft : Party.send a p = left at h
  induction h generalizing a with
  | done => cases hleft
  | leftSent =>
      cases hleft
      exact Nat.zero_le _
  | leftReceived => cases hleft
  | rightSent _ ih => exact Nat.le_succ_of_le (ih hleft)
  | rightReceived _ ih => exact Nat.le_succ_of_le (ih hleft)
  | toRight _ ih =>
      cases hleft
      have hle := ih rfl
      rw [List.length_cons]
      omega
  | toLeft => cases hleft

theorem both_length_le (h : Agree n (.send a p) (.send b q) r t) : a.length + b.length ≤ n := by
  cases b with
  | nil => exact h.length_le
  | cons x b =>
      rw [h.sent_nil, List.length_nil, Nat.zero_add]
      exact h.swap.length_le

end Agree

/-! ## The programs with the pipes between them -/

/-- Which part of what it is offered a pipe may take, with this in it; when it is empty it takes
something. -/
structure Pipe (α : Type) where
  Takes : List α → List α → Prop
  takes_some : ∀ data, data ≠ [] → ∃ chunk rest, data = chunk ++ rest ∧ chunk ≠ [] ∧ Takes [] chunk

/-- A pipe with room for so many elements. -/
def Pipe.bounded (α : Type) (capacity : Nat) (hpos : 0 < capacity) : Pipe α where
  Takes held chunk := held.length + chunk.length ≤ capacity
  takes_some := by
    intro data hdata
    obtain ⟨x, rest, rfl⟩ := List.exists_cons_of_ne_nil hdata
    refine ⟨[x], rest, rfl, List.cons_ne_nil x [], ?_⟩
    rw [List.length_nil, Nat.zero_add]
    exact hpos

/-- What a program does in a step. -/
inductive Call (α : Type) where
  | writes (chunk : List α)
  | reads (chunk : List α)
  | returns
deriving DecidableEq

/-- A step of a program, with the pipes from it and to it. -/
inductive Turn (pipe : Pipe α) :
    Call α → Party α ρ → List α → List α → Party α ρ → List α → List α → Prop
  | writes {chunk rest out into : List α} {next : Party α ρ} (hchunk : chunk ≠ [])
      (hpipe : pipe.Takes out chunk) :
      Turn pipe (.writes chunk) (.send (chunk ++ rest) next) out into (.send rest next)
        (out ++ chunk) into
  | reads {chunk out into : List α} {n : Nat} {next : List α → Party α ρ} (hchunk : chunk ≠ []) :
      Turn pipe (.reads chunk) (.receive (chunk.length + n) next) out (chunk ++ into)
        (.receive n fun rest => next (chunk ++ rest)) out into
  | sent {out into : List α} {next : Party α ρ} : Turn pipe .returns
    (.send [] next) out into next out into
  | received {out into : List α} {next : List α → Party α ρ} :
      Turn pipe .returns (.receive 0 next) out into (next []) out into

/-- The two programs, and what their pipes hold. -/
structure Pair (α ρ τ : Type) where
  left : Party α ρ
  toRight : List α := []
  toLeft : List α := []
  right : Party α τ

inductive Act (α : Type) where
  | left (call : Call α)
  | right (call : Call α)
deriving DecidableEq

section Run

variable (toRight toLeft : Pipe α)

/-- One of the two programs makes a step. -/
inductive Step : Pair α ρ τ → Act α → Pair α ρ τ → Prop
  | left {call : Call α} {p p' : Party α ρ} {out out' into into' : List α} {q : Party α τ}
      (h : Turn toRight call p out into p' out' into') :
      Step ⟨p, out, into, q⟩ (.left call) ⟨p', out', into', q⟩
  | right {call : Call α} {p : Party α ρ} {out out' into into' : List α} {q q' : Party α τ}
      (h : Turn toLeft call q out into q' out' into') :
      Step ⟨p, into, out, q⟩ (.right call) ⟨p, into', out', q'⟩

/-- Some steps, in any order of the two programs. -/
inductive Run : Pair α ρ τ → List (Act α) → Pair α ρ τ → Prop
  | nil (s : Pair α ρ τ) : Run s [] s
  | cons {s s' s'' : Pair α ρ τ} {act : Act α} {acts : List (Act α)}
    (hstep : Step toRight toLeft s act s') (hrest : Run s' acts s'') : Run s (act :: acts) s''

end Run

/-- Both programs have ended, and nothing is left in the pipes. -/
def finished (α : Type) (r : ρ) (t : τ) : Pair α ρ τ where
  left := .done r
  right := .done t

/-- A program writes to, or waits for, one that has ended. -/
def Severed (p : Party α ρ) (into : List α) : Prop :=
  (∃ a data next, p = .send (a :: data) next) ∨ ∃ n next, p = .receive (n + 1) next ∧ into = []

def Pair.Severed (s : Pair α ρ τ) : Prop :=
  (∃ t, s.right = .done t) ∧ Dialogue.Severed s.left s.toLeft ∨
    (∃ r, s.left = .done r) ∧ Dialogue.Severed s.right s.toRight

/-- What has been written is as good as what is still to be sent. -/
def Pair.Agrees (s : Pair α ρ τ) (n : Nat) (r : ρ) (t : τ) : Prop :=
  Agree n (.send s.toRight s.left) (.send s.toLeft s.right) r t

/-! ### Steps -/

variable {toRight toLeft pipe : Pipe α} {n : Nat} {r : ρ} {t : τ}

/-- A step of the left program costs more than it adds to the pipes. -/
theorem Turn.agree {call : Call α} {p p' : Party α ρ} {out out' into into' : List α} {q : Party α τ}
    (hturn : Turn pipe call p out into p' out' into')
    (h : Agree n (.send out p) (.send into q) r t) :
    ∃ m, Agree m (.send out' p') (.send into' q) r t ∧
      m + out.length + into.length + 1 ≤ n + out'.length + into'.length := by
  cases hturn with
  | writes hchunk =>
      have hpos := List.length_pos_iff.mpr hchunk
      exact ⟨n, h.move, by rw [List.length_append]; omega⟩
  | @reads chunk _ _ _ _ hchunk =>
      obtain ⟨x, chunk, rfl⟩ := List.exists_cons_of_ne_nil hchunk
      -- nothing else is on its way, so that the call before has been paid for
      obtain rfl := h.sent_nil
      obtain ⟨m, hlt, h⟩ := h.of_sent
      obtain ⟨k, hk, h⟩ := h.read
      refine ⟨k + 1, .leftSent h, ?_⟩
      rw [List.length_append, List.length_cons] at *
      omega
  | sent =>
      obtain ⟨m, hlt, h⟩ := h.behind fun h => h.of_sent
      exact ⟨m, h, by omega⟩
  | received =>
      obtain ⟨m, hlt, h⟩ := h.behind fun h => h.of_received
      exact ⟨m, h, by omega⟩

theorem step_agrees {s s' : Pair α ρ τ} {act : Act α} (hstep : Step toRight toLeft s act s')
    (h : s.Agrees n r t) :
    ∃ m, s'.Agrees m r t ∧
      m + s.toRight.length + s.toLeft.length + 1 ≤ n + s'.toRight.length + s'.toLeft.length := by
  cases hstep with
  | left hturn => exact hturn.agree h
  | right hturn =>
      obtain ⟨m, h', hle⟩ := hturn.agree h.swap
      exact ⟨m, h'.swap, by dsimp only; omega⟩

/-! ### Runs -/

theorem run_agrees {s s' : Pair α ρ τ} {acts : List (Act α)} (hrun : Run toRight toLeft s acts s')
    (h : s.Agrees n r t) :
    ∃ m, s'.Agrees m r t ∧
      m + s.toRight.length + s.toLeft.length + acts.length ≤ n + s'.toRight.length +
        s'.toLeft.length := by
  induction hrun generalizing n with
  | nil s => exact ⟨n, h, le_refl _⟩
  | cons hstep _ ih =>
      obtain ⟨m, h', hle⟩ := step_agrees hstep h
      obtain ⟨k, h'', hle'⟩ := ih h'
      exact ⟨k, h'', by rw [List.length_cons]; omega⟩

/-- A run cannot go on for ever. -/
theorem run_bounded {s s' : Pair α ρ τ} {acts : List (Act α)} (hrun : Run toRight toLeft s acts s')
    (h : s.Agrees n r t) : acts.length ≤ n := by
  obtain ⟨m, h', hle⟩ := run_agrees hrun h
  have hpaid := h'.both_length_le
  omega

/-! ### Progress -/

/-- The program can make a step. -/
def CanTurn (pipe : Pipe α) (p : Party α ρ) (out into : List α) : Prop :=
  ∃ call p' out' into', Turn pipe call p out into p' out' into'

theorem canTurn_sent {next : Party α ρ} {out into : List α} :
    CanTurn pipe (.send [] next) out into :=
  ⟨_, _, _, _, .sent⟩

theorem canTurn_received {next : List α → Party α ρ} {out into : List α} :
    CanTurn pipe (.receive 0 next) out into :=
  ⟨_, _, _, _, .received⟩

theorem canTurn_writes {x : α} {data into : List α} {next : Party α ρ} :
    CanTurn pipe (.send (x :: data) next) [] into := by
  obtain ⟨chunk, rest, hdata, hchunk, htakes⟩ :=
    pipe.takes_some (x :: data) (List.cons_ne_nil x data)
  rw [hdata]
  exact ⟨_, _, _, _, .writes hchunk htakes⟩

theorem canTurn_reads {x : α} {out into : List α} {next : List α → Party α ρ} :
    CanTurn pipe (.receive (n + 1) next) out (x :: into) := by
  have hturn : Turn pipe (.reads [x]) (.receive ([x].length + n) next) out
      ([x] ++ into) _ out into :=
    .reads (List.cons_ne_nil x [])
  rw [List.length_singleton, Nat.add_comm] at hturn
  exact ⟨_, _, _, _, hturn⟩

/-- With nothing on its way, the first rule by which two programs agree is a step of one of them. -/
theorem Agree.canTurn (toRight toLeft : Pipe α) {p : Party α ρ} {q : Party α τ}
    (h : Agree n p q r t) :
    p = .done r ∧ q = .done t ∨ CanTurn toRight p [] [] ∨ CanTurn toLeft q [] [] := by
  cases h with
  | done => exact Or.inl ⟨rfl, rfl⟩
  | leftSent => exact Or.inr (Or.inl canTurn_sent)
  | leftReceived => exact Or.inr (Or.inl canTurn_received)
  | rightSent => exact Or.inr (Or.inr canTurn_sent)
  | rightReceived => exact Or.inr (Or.inr canTurn_received)
  | toRight => exact Or.inr (Or.inl canTurn_writes)
  | toLeft => exact Or.inr (Or.inr canTurn_writes)

/-- With something on its way to it, a program can make a step. -/
theorem Agree.canTurn_reading (pipe : Pipe α) {p : Party α ρ} {q : Party α τ} {x : α}
    {into : List α} (h : Agree n p (.send (x :: into) q) r t)
    (out : List α) : CanTurn pipe p out (x :: into) := by
  cases h with
  | leftSent => exact canTurn_sent
  | leftReceived => exact canTurn_received
  | toLeft => exact canTurn_reads

theorem can_step (toRight toLeft : Pipe α) {s : Pair α ρ τ} (h : s.Agrees n r t) :
    s = finished α r t ∨ ∃ act s', Step toRight toLeft s act s' := by
  obtain ⟨p, out, into, q⟩ := s
  have hagree : Agree n (.send out p) (.send into q) r t := h
  cases into with
  | cons x into =>
      obtain rfl := hagree.sent_nil
      obtain ⟨m, -, hagree⟩ := hagree.of_sent
      obtain ⟨call, p', out', into', hturn⟩ := hagree.canTurn_reading toRight []
      exact Or.inr ⟨_, _, .left hturn⟩
  | nil =>
      obtain ⟨m, -, hagree⟩ := hagree.swap.of_sent
      cases out with
      | cons x out =>
          obtain ⟨call, q', into', out', hturn⟩ := hagree.canTurn_reading toLeft []
          exact Or.inr ⟨_, _, .right hturn⟩
      | nil =>
          obtain ⟨k, -, hagree⟩ := hagree.swap.of_sent
          rcases hagree.canTurn toRight toLeft with ⟨rfl, rfl⟩ | hturn | hturn
          · exact Or.inl rfl
          · obtain ⟨call, p', out', into', hturn⟩ := hturn
            exact Or.inr ⟨_, _, .left hturn⟩
          · obtain ⟨call, q', into', out', hturn⟩ := hturn
            exact Or.inr ⟨_, _, .right hturn⟩

theorem finished_stuck {act : Act α} {s : Pair α ρ τ} :
    ¬ Step toRight toLeft (finished α r t) act s := by
  intro hstep
  cases hstep with
  | left hturn => cases hturn
  | right hturn => cases hturn

/-- **Nothing is left to do only at the end.** -/
theorem stuck_iff {s : Pair α ρ τ} (h : s.Agrees n r t) :
    (∀ act s', ¬ Step toRight toLeft s act s') ↔ s = finished α r t := by
  constructor
  · intro hstuck
    rcases can_step toRight toLeft h with hend | ⟨act, s', hstep⟩
    · exact hend
    · exact absurd hstep (hstuck act s')
  · rintro rfl act s'
    exact finished_stuck

/-- From every state the end can be reached. -/
theorem exists_run_finished (toRight toLeft : Pipe α) {s : Pair α ρ τ} (h : s.Agrees n r t) :
    ∃ acts, Run toRight toLeft s acts (finished α r t) := by
  -- what has been paid and is not on its way goes down
  induction hleft : n - (s.toRight.length + s.toLeft.length) using Nat.strongRecOn
    generalizing n s with
  | _ left ih =>
    rcases can_step toRight toLeft h with rfl | ⟨act, s', hstep⟩
    · exact ⟨[], .nil _⟩
    · obtain ⟨m, h', hle⟩ := step_agrees hstep h
      have hpaid := h'.both_length_le
      obtain ⟨acts, hrun⟩ := ih (m - (s'.toRight.length + s'.toLeft.length)) (by omega) h' rfl
      exact ⟨act :: acts, .cons hstep hrun⟩

/-! ### No program is left alone -/

/-- Next to a program that has ended, the other one has nothing to send, and what it
waits for has been written. -/
theorem Agree.not_severed {p : Party α ρ} {t' : τ} {out into : List α}
    (h : Agree n (.send out p) (.send into (.done t')) r t) : ¬ Dialogue.Severed p into := by
  rintro (⟨x, data, next, rfl⟩ | ⟨m, next, rfl, rfl⟩)
  · cases out with
    | nil =>
        obtain ⟨k, -, h⟩ := h.of_sent
        cases into with
        | nil =>
            obtain ⟨k', -, h⟩ := h.swap.of_sent
            cases h
        | cons y into => cases h
    | cons y out =>
        cases into with
        | nil =>
            obtain ⟨k', -, h⟩ := h.swap.of_sent
            cases h
        | cons z into => cases h.sent_nil
  · obtain ⟨k, -, h⟩ := h.swap.of_sent
    cases out with
    | nil =>
        obtain ⟨k', -, h⟩ := h.swap.of_sent
        cases h
    | cons y out => cases h

theorem not_severed {s : Pair α ρ τ} (h : s.Agrees n r t) : ¬ s.Severed := by
  obtain ⟨p, out, into, q⟩ := s
  rintro (⟨⟨t', hright⟩, hsevered⟩ | ⟨⟨r', hleft⟩, hsevered⟩)
  · obtain rfl : q = .done t' := hright
    exact Agree.not_severed h hsevered
  · obtain rfl : p = .done r' := hleft
    exact Agree.not_severed (Agree.swap h) hsevered

/-! ## The calls of a program -/

section Performing

variable {ε σ : Type}

/-- The program, by procedures that read and write exactly. -/
def Party.perform (readN : Nat → EStateM ε σ (List α)) (writeN : List α → EStateM ε σ Unit) :
    Party α ρ → EStateM ε σ ρ
  | .send data next => do
      writeN data
      next.perform readN writeN
  | .receive n next => do
      let elements ← readN n
      (next elements).perform readN writeN
  | .done r => pure r

/-- Where a script says what the calls come to, the procedures transfer each chunk and go on. -/
structure Scripted (script : σ → List (Call α) → Prop) (readN : Nat → EStateM ε σ (List α))
    (writeN : List α → EStateM ε σ Unit) : Prop where
  returns : ∀ s calls, script s (.returns :: calls) → script s calls
  readNone : ∀ s calls, script s calls → (readN 0).run s = .ok [] s
  writeNone : ∀ s calls, script s calls → (writeN []).run s = .ok () s
  reads : ∀ s chunk calls, chunk ≠ [] → script s (.reads chunk :: calls) → ∃ s', script s' calls ∧
    ∀ n rest s'', (readN n).run s' = .ok rest s'' →
      (readN (chunk.length + n)).run s = .ok (chunk ++ rest) s''
  writes : ∀ s chunk calls, chunk ≠ [] → script s (.writes chunk :: calls) → ∃ s', script s' calls ∧
    ∀ rest s'', (writeN rest).run s' = .ok () s'' → (writeN (chunk ++ rest)).run s = .ok () s''

/-- The calls of the left program. -/
def leftCalls (acts : List (Act α)) : List (Call α) :=
  acts.filterMap fun
    | .left call => some call
    | .right _ => none

theorem run_bind_ok {β γ : Type} {x : EStateM ε σ β} {f : β → EStateM ε σ γ} {s s' : σ} {c : γ} :
    (x >>= f).run s = .ok c s' ↔ ∃ b s'', x.run s = .ok b s'' ∧ (f b).run s'' = .ok c s' := by
  rw [EStateM.run_bind]
  cases x.run s with
  | ok b s'' => simp
  | error e s'' => simp

variable {script : σ → List (Call α) → Prop} {readN : Nat → EStateM ε σ (List α)}
  {writeN : List α → EStateM ε σ Unit}

/-- What the rest of a program comes to behind a step, the program comes to. -/
theorem turn_performs (hscripted : Scripted script readN writeN) {call : Call α}
    {calls : List (Call α)} {p p' : Party α ρ} {out out' into into' : List α}
    (hturn : Turn pipe call p out into p' out' into') {s : σ}
    (hs : script s (call :: calls)) :
    ∃ s', script s' calls ∧ ∀ r s'', (p'.perform readN writeN).run s' = .ok r s'' →
      (p.perform readN writeN).run s = .ok r s'' := by
  cases hturn with
  | writes hchunk =>
      obtain ⟨s', hs', hwrites⟩ := hscripted.writes s _ calls hchunk hs
      refine ⟨s', hs', fun r s'' hrun => ?_⟩
      obtain ⟨⟨⟩, s₁, hfirst, hlater⟩ := run_bind_ok.mp hrun
      exact run_bind_ok.mpr ⟨(), s₁, hwrites _ s₁ hfirst, hlater⟩
  | reads hchunk =>
      obtain ⟨s', hs', hreads⟩ := hscripted.reads s _ calls hchunk hs
      refine ⟨s', hs', fun r s'' hrun => ?_⟩
      obtain ⟨rest, s₁, hfirst, hlater⟩ := run_bind_ok.mp hrun
      exact run_bind_ok.mpr ⟨_, s₁, hreads _ rest s₁ hfirst, hlater⟩
  | sent =>
      have hs' := hscripted.returns s calls hs
      exact ⟨s, hs', fun r s'' hrun =>
        run_bind_ok.mpr ⟨(), s, hscripted.writeNone s calls hs', hrun⟩⟩
  | received =>
      have hs' := hscripted.returns s calls hs
      exact ⟨s, hs', fun r s'' hrun =>
        run_bind_ok.mpr ⟨[], s, hscripted.readNone s calls hs', hrun⟩⟩

/-- What the left program comes to in a run, it comes to by the procedures, whose calls come to what
they came to in the run. -/
theorem run_performs (hscripted : Scripted script readN writeN) {s s' : Pair α ρ τ}
    {acts : List (Act α)} (hrun : Run toRight toLeft s acts s') {r : ρ} (hend : s'.left = .done r)
    {st : σ}
    (hst : script st (leftCalls acts)) :
    ∃ st', (s.left.perform readN writeN).run st = .ok r st' ∧ script st' [] := by
  induction hrun generalizing st with
  | nil s =>
      rw [hend]
      exact ⟨st, rfl, hst⟩
  | cons hstep _ ih =>
      cases hstep with
      | left hturn =>
          obtain ⟨st₁, hst₁, hperform⟩ := turn_performs hscripted hturn hst
          obtain ⟨st', hrest, hst'⟩ := ih hend hst₁
          exact ⟨st', hperform r st' hrest, hst'⟩
      | right hturn => exact ih hend hst

end Performing

end Dialogue
end Support
end AdvCppHW
