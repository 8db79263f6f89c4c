import Mathlib.Data.List.TakeWhile
import Mathlib.Order.Defs.LinearOrder
import Mathlib.Order.Lattice
import Mathlib.Data.Int.Order.Basic
import Mathlib.Algebra.Group.Nat.Defs
import Mathlib.Algebra.Group.Int.Defs
import AdvCppHW.Cpp.Exceptions
import AdvCppHW.Support.Search

/-!
# `std::string` and the conversions of the standard library

A `std::string` is a list of bytes and a `size_t` a natural number; `std::string::npos` is `none`.
A member function that can throw runs in `EStateM Exception σ`, which keeps the changes made to the
object before the throw.

* `find`, `substr` — the two members the parsers use.
* `to_string`, `sscanfZd` — printing a `size_t` and `sscanf` with the format `%zd`.
* `stoi` — `std::stoi`.
* `sscanfZd_to_string` — printing and `sscanf` are inverse below `2 ^ 63`.
-/

namespace AdvCppHW

open Support

/-- A byte string, the contents of a `std::string` or of a `ConnectionBuffer`. -/
abbrev Bytes := List UInt8

/-- Bytes are ordered as unsigned numbers, as `std::char_traits<char>::compare` does. -/
instance byteLinearOrder : LinearOrder UInt8 where
  le_refl := UInt8.le_refl
  le_trans _ _ _ := UInt8.le_trans
  lt_iff_le_not_ge a b := by
    rw [UInt8.le_iff_toNat_le, UInt8.le_iff_toNat_le, UInt8.lt_iff_toNat_lt]
    omega
  le_antisymm _ _ := UInt8.le_antisymm
  le_total := UInt8.le_total
  toDecidableLE := inferInstance

/-- A member function of a class with state `σ`. -/
abbrev Method (σ α : Type) := EStateM Exception σ α

/-- The byte of an ASCII character. -/
def byteOfChar (c : Char) : UInt8 := UInt8.ofNat c.toNat

/-- The bytes of an ASCII literal. -/
def ascii (s : String) : Bytes := s.toList.map byteOfChar

/-- `"\r\n"`. -/
def CRLF : Bytes := [13, 10]

/-- `" "`. -/
def SP : Bytes := [32]

/-- `"/"`. -/
def SLASH : Bytes := [47]

/-- `": "`. -/
def COLON : Bytes := [58, 32]

/-- `std::string::find(pat, pos)`. -/
def find (s pat : Bytes) (pos : Nat) : Option Nat := findFrom pat s pos

/-- `std::string::substr(pos, count)`. -/
def substr {σ : Type} (s : Bytes) (pos count : Nat) : Method σ Bytes :=
  if pos ≤ s.length then pure ((s.drop pos).take count) else throw .out_of_range

/-- `a - b` on `size_t`; the marker exception stands for a result below zero. -/
def sizeSub {σ : Type} (a b : Nat) : Method σ Nat :=
  if b ≤ a then pure (a - b) else throw .sizeWrap

/-- `a - b` on `size_t`, modulo `2 ^ 64`, where the code lets it wrap. -/
def wrapSub (a b : Nat) : Nat := if b ≤ a then a - b else 2 ^ 64 - (b - a)

/-! ## Numbers in text -/

/-- `std::to_string` of an unsigned number. -/
def to_string (n : Nat) : Bytes := (Nat.toDigits 10 n).map byteOfChar

/-- `isspace` in the C locale: tab, the line and page controls, and the blank. -/
def isSpace (b : UInt8) : Bool := b = 32 || (9 ≤ b && b ≤ 13)

/-- A decimal digit. -/
def isDigit (b : UInt8) : Bool := 48 ≤ b && b ≤ 57

/-- Value of a string of decimal digits. -/
def digitsValue (ds : Bytes) : Nat := ds.foldl (fun n d => 10 * n + (d.toNat - 48)) 0

/-- The optional sign of a number: whether it is negative, and what follows it. -/
def splitSign : Bytes → Bool × Bytes
  | [] => (false, [])
  | b :: rest => if b = 45 then (true, rest) else if b = 43 then (false, rest)
    else (false, b :: rest)

/-- Range of `ssize_t`, to which the conversion saturates. -/
def clampSsize (v : Int) : Int := max (-2 ^ 63) (min v (2 ^ 63 - 1))

/-- What `sscanf(s, "%zd", &x)` stores: leading blanks are skipped, then an optional sign and at
least one digit; `none` where nothing is converted and `x` keeps its value. -/
def sscanfZd (s : Bytes) : Option Int :=
  let signed := splitSign (s.dropWhile isSpace)
  let digits := signed.2.takeWhile isDigit
  if digits = [] then none
  else some (clampSsize (if signed.1 then -(digitsValue digits : Int) else digitsValue digits))

/-- The `ssize_t` written by `sscanf`, read back as the `size_t` it was stored to. -/
def toSizeT (v : Int) : Nat := (v % 2 ^ 64).toNat

/-- `std::stoi(s)`: what `strtol` reads must have a digit and fit `int`; bytes behind the digits are
ignored. -/
def stoi {σ : Type} (s : Bytes) : Method σ Int :=
  let signed := splitSign (s.dropWhile isSpace)
  let digits := signed.2.takeWhile isDigit
  let value : Int := if signed.1 then -(digitsValue digits : Int) else digitsValue digits
  if digits = [] then throw .invalid_argument
  else if value < -2 ^ 31 ∨ 2 ^ 31 ≤ value then throw .out_of_range
  else pure value

/-- There is a number at the beginning, behind blanks and a sign, and it fits `int`. -/
def ReadsInt (s : Bytes) : Prop :=
  let signed := splitSign (s.dropWhile isSpace)
  let digits := signed.2.takeWhile isDigit
  let value : Int := if signed.1 then -(digitsValue digits : Int) else digitsValue digits
  digits ≠ [] ∧ -2 ^ 31 ≤ value ∧ value < 2 ^ 31

theorem stoi_of_readsInt {s : Bytes} (h : ReadsInt s) :
    ∃ v : Int, (-2 ^ 31 ≤ v ∧ v < 2 ^ 31) ∧ ∀ (σ : Type) (st : σ), (stoi s).run st = .ok v st := by
  obtain ⟨hdigits, hrange⟩ := h
  refine ⟨_, hrange, fun σ st => ?_⟩
  have hin := not_or.mpr ⟨not_lt.mpr hrange.1, not_le.mpr hrange.2⟩
  simp only [stoi, if_neg hdigits, if_neg hin]
  rfl

/-- The exceptions of `std::stoi` are those of the standard library. -/
theorem stoi_of_not_readsInt {s : Bytes} (h : ¬ ReadsInt s) :
    ∃ e : Exception, e.isArgumentError = false ∧
      ∀ (σ : Type) (st : σ), (stoi (σ := σ) s).run st = .error e st := by
  by_cases hdigits : (splitSign (s.dropWhile isSpace)).2.takeWhile isDigit = []
  · refine ⟨.invalid_argument, rfl, fun σ st => ?_⟩
    simp only [stoi, if_pos hdigits]
    rfl
  · refine ⟨.out_of_range, rfl, fun σ st => ?_⟩
    have hout := not_and_or.mp fun hrange => h ⟨hdigits, hrange⟩
    rw [not_le, not_lt] at hout
    simp only [stoi, if_neg hdigits, if_pos hout]
    rfl

/-- A byte string of decimal digits. -/
def AllDigits (ds : Bytes) : Prop := ∀ b ∈ ds, isDigit b = true

theorem byteOfChar_toNat {c : Char} (hc : c.isDigit = true) :
    (byteOfChar c).toNat = c.toNat := by
  have h := Char.isDigit_iff_toNat.mp hc
  unfold byteOfChar
  rw [UInt8.toNat_ofNat']
  exact Nat.mod_eq_of_lt (by have := h.2; simp at this; omega)

theorem isDigit_byteOfChar {c : Char} (hc : c.isDigit = true) : isDigit (byteOfChar c) = true := by
  have h := Char.isDigit_iff_toNat.mp hc
  have hn := byteOfChar_toNat hc
  simp only [isDigit, Bool.and_eq_true, decide_eq_true_eq, UInt8.le_iff_toNat_le, hn]
  simpa using h

theorem to_string_allDigits (n : Nat) : AllDigits (to_string n) := by
  intro b hb
  obtain ⟨c, hc, rfl⟩ := List.mem_map.mp hb
  exact isDigit_byteOfChar (Nat.isDigit_of_mem_toDigits (by decide) (by decide) hc)

theorem to_string_ne_nil (n : Nat) : to_string n ≠ [] := by
  simp [to_string]

theorem digitsValue_map_byteOfChar (cs : List Char) (hcs : ∀ c ∈ cs, c.isDigit = true)
    (init : Nat) :
    (cs.map byteOfChar).foldl (fun n d => 10 * n + (d.toNat - 48)) init =
      Nat.ofDigitChars 10 cs init := by
  induction cs generalizing init with
  | nil => simp
  | cons c cs ih =>
      have hc : (byteOfChar c).toNat = c.toNat := byteOfChar_toNat (hcs c List.mem_cons_self)
      rw [List.map_cons, List.foldl_cons, hc, Nat.ofDigitChars_cons,
        ih fun d hd => hcs d (List.mem_cons_of_mem _ hd)]
      rfl

theorem digitsValue_to_string (n : Nat) : digitsValue (to_string n) = n := by
  unfold digitsValue to_string
  rw [digitsValue_map_byteOfChar _
    fun c hc => Nat.isDigit_of_mem_toDigits (by decide) (by decide) hc]
  exact Nat.ofDigitChars_ten_toDigits

theorem isDigit_bounds {b : UInt8} (hb : isDigit b = true) : 48 ≤ b.toNat ∧ b.toNat ≤ 57 := by
  simpa [isDigit, UInt8.le_iff_toNat_le] using hb

theorem isSpace_of_isDigit {b : UInt8} (hb : isDigit b = true) : isSpace b = false := by
  obtain ⟨hlo, hhi⟩ := isDigit_bounds hb
  have h32 : b ≠ 32 := by rintro rfl; simp at hlo
  have h13 : ¬ b ≤ 13 := by
    rw [UInt8.le_iff_toNat_le]
    simp
    omega
  simp [isSpace, h32, h13]

theorem dropWhile_isSpace_cons {b : UInt8} (hb : isSpace b = false) (rest : Bytes) :
    (b :: rest).dropWhile isSpace = b :: rest := by
  rw [List.dropWhile_cons_of_neg (by simp [hb])]

theorem splitSign_of_isDigit {b : UInt8} (hb : isDigit b = true) (rest : Bytes) :
    splitSign (b :: rest) = (false, b :: rest) := by
  obtain ⟨hlo, hhi⟩ := isDigit_bounds hb
  have h45 : b ≠ 45 := by rintro rfl; simp at hlo
  have h43 : b ≠ 43 := by rintro rfl; simp at hlo
  simp [splitSign, h45, h43]

/-- A string of digits has no blanks and no sign in front. -/
theorem splitSign_of_allDigits {ds : Bytes} (hd : AllDigits ds) (hne : ds ≠ []) :
    splitSign (ds.dropWhile isSpace) = (false, ds) := by
  obtain ⟨b, rest, rfl⟩ := List.exists_cons_of_ne_nil hne
  have hb := hd b List.mem_cons_self
  rw [dropWhile_isSpace_cons (isSpace_of_isDigit hb), splitSign_of_isDigit hb]

theorem takeWhile_of_allDigits {ds : Bytes} (hd : AllDigits ds) : ds.takeWhile isDigit = ds :=
  List.takeWhile_eq_self_iff.mpr hd

/-- On a string of digits `sscanf` skips nothing, finds no sign and reads every byte. -/
theorem sscanfZd_of_allDigits {ds : Bytes} (hd : AllDigits ds) (hne : ds ≠ []) :
    sscanfZd ds = some (clampSsize (digitsValue ds)) := by
  unfold sscanfZd
  simp [splitSign_of_allDigits hd hne, takeWhile_of_allDigits hd, hne]

theorem stoi_of_allDigits {σ : Type} {ds : Bytes} (hd : AllDigits ds) (hne : ds ≠ [])
    (hrange : digitsValue ds < 2 ^ 31) (st : σ) : (stoi ds).run st = .ok (digitsValue ds) st := by
  have hin : ¬ ((digitsValue ds : Int) < -2 ^ 31 ∨ 2 ^ 31 ≤ (digitsValue ds : Int)) := by omega
  unfold stoi
  simp only [splitSign_of_allDigits hd hne, takeWhile_of_allDigits hd, hne, hin, if_false,
    Bool.false_eq_true]
  rfl

/-- A minus sign in front of a string of digits. -/
theorem stoi_neg_of_allDigits {σ : Type} {ds : Bytes} (hd : AllDigits ds) (hne : ds ≠ [])
    (hrange : digitsValue ds ≤ 2 ^ 31) (st : σ) :
    (stoi (45 :: ds)).run st = .ok (-(digitsValue ds : Int)) st := by
  have hsign : splitSign ((45 :: ds).dropWhile isSpace) = (true, ds) := by
    rw [dropWhile_isSpace_cons (by decide)]
    rfl
  have hin : ¬ (-(digitsValue ds : Int) < -2 ^ 31 ∨ 2 ^ 31 ≤ -(digitsValue ds : Int)) := by omega
  unfold stoi
  simp only [hsign, takeWhile_of_allDigits hd, hne, hin, if_false, if_true]
  rfl

theorem toSizeT_clampSsize {n : Nat} (hn : n < 2 ^ 63) : toSizeT (clampSsize n) = n := by
  have hclamp : clampSsize n = n := by
    unfold clampSsize
    omega
  rw [hclamp, toSizeT]
  omega

/-- Reading a printed length gives the length, as long as it fits `ssize_t`. -/
theorem sscanfZd_to_string {n : Nat} (hn : n < 2 ^ 63) :
    ((sscanfZd (to_string n)).map toSizeT).getD 0 = n := by
  rw [sscanfZd_of_allDigits (to_string_allDigits n) (to_string_ne_nil n), digitsValue_to_string]
  simp [toSizeT_clampSsize hn]

end AdvCppHW
