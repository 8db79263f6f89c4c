import AdvCppHW.Cpp.Exceptions

/-!
# Outcomes of procedures

A procedure that works on an object leaves it in some state and returns, leaves it in some state and
throws, or has undefined behaviour, after which nothing is known.

* `andThen`, `map` — procedures in sequence, and on a part of the object.
* `Leaves` — a property of the object behind a procedure, with its rules.
-/

namespace AdvCppHW

/-- The kinds of undefined behaviour that the models below tell apart. -/
inductive UndefinedBehaviour where
  /-- `erase(end())`. -/
  | eraseOfEnd
  /-- An object is used through a reference to it after it was destroyed. -/
  | danglingReference
  /-- A switch to a context whose function has returned. -/
  | endedContext
  /-- A switch to a context that has been left since it was saved: its code runs, or
  waits at another place. -/
  | usedContext
  /-- An element in front of the first, `v[0 - 1]`. -/
  | indexOutOfRange
deriving DecidableEq, Repr

/-- How a procedure that works on an object of type `σ` ends. -/
inductive Outcome (σ : Type) where
  | ok (s : σ)
  | threw (e : Exception) (s : σ)
  | undefined (why : UndefinedBehaviour)

namespace Outcome

variable {σ τ : Type}

/-- The statements behind a call; they are skipped when the call threw. -/
def andThen (x : Outcome σ) (k : σ → Outcome σ) : Outcome σ :=
  match x with
  | ok s => k s
  | threw e s => threw e s
  | undefined why => undefined why

/-- A procedure of a part, seen on the whole. -/
def map (f : σ → τ) : Outcome σ → Outcome τ
  | ok s => ok (f s)
  | threw e s => threw e (f s)
  | undefined why => undefined why

@[simp] theorem andThen_ok (s : σ) (k : σ → Outcome σ) : (ok s).andThen k = k s := rfl

@[simp] theorem andThen_threw (e : Exception) (s : σ) (k : σ → Outcome σ) :
    (threw e s).andThen k = threw e s := rfl

@[simp] theorem andThen_undefined (why : UndefinedBehaviour) (k : σ → Outcome σ) :
    (undefined why).andThen k = undefined why := rfl

@[simp] theorem map_ok (f : σ → τ) (s : σ) : (ok s).map f = ok (f s) := rfl

@[simp] theorem map_threw (f : σ → τ) (e : Exception) (s : σ) :
    (threw e s).map f = threw e (f s) := rfl

@[simp] theorem map_undefined (f : σ → τ) (why : UndefinedBehaviour) :
    (undefined why : Outcome σ).map f = undefined why := rfl

/-! ## What a procedure leaves behind -/

/-- A procedure has left an object with `P`, whether it returned or threw; it may have been
undefined only if it `mayFail`. -/
def Leaves (mayFail : Prop) (P : σ → Prop) : Outcome σ → Prop
  | ok s => P s
  | threw _ s => P s
  | undefined _ => mayFail

section Leaves

variable {mayFail : Prop} {P Q : σ → Prop} {x : Outcome σ}

theorem Leaves.mono (hx : x.Leaves mayFail P) (h : ∀ s, P s → Q s) : x.Leaves mayFail Q := by
  cases x with
  | ok s => exact h s hx
  | threw e s => exact h s hx
  | undefined why => exact hx

/-- A second procedure works on what the first one has left, unless that threw. -/
theorem Leaves.andThen {k : σ → Outcome σ} (hx : x.Leaves mayFail P)
    (hk : ∀ s, P s → (k s).Leaves mayFail Q) (hthrown : ∀ s, P s → Q s) :
    (x.andThen k).Leaves mayFail Q := by
  cases x with
  | ok s => exact hk s hx
  | threw e s => exact hthrown s hx
  | undefined why => exact hx

theorem Leaves.map {R : τ → Prop} {f : σ → τ} (hx : x.Leaves mayFail P) (h : ∀ s, P s → R (f s)) :
    (x.map f).Leaves mayFail R := by
  cases x with
  | ok s => exact h s hx
  | threw e s => exact h s hx
  | undefined why => exact hx

end Leaves
end Outcome
end AdvCppHW
