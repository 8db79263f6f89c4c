import Mathlib.Data.Nat.Log
import Mathlib.Data.List.Basic
import Mathlib.Tactic.Ring

/-!
# Records of one width

A list that is made of pieces of one width, and numbers written to such pieces byte by byte.

* `drop_flatMap` — the pieces from one index on; `slice_flatMap` — the piece at an index.
* `mapM_range_eq_slice` — a piece read element by element.
* `littleEndian`, `ofLittleEndian` — a number in a piece, least significant byte first.
-/

namespace AdvCppHW
namespace Support
namespace Records

section Pieces

variable {α β : Type*} {f : β → List α} {width : Nat}

theorem length_flatMap (hwidth : ∀ b, (f b).length = width) (l : List β) :
    (l.flatMap f).length = width * l.length := by
  induction l with
  | nil => simp
  | cons b l ih =>
      rw [List.flatMap_cons, List.length_append, hwidth, ih, List.length_cons]
      ring

theorem drop_flatMap (hwidth : ∀ b, (f b).length = width) (l : List β) (i : Nat) :
    (l.flatMap f).drop (width * i) = (l.drop i).flatMap f := by
  induction l generalizing i with
  | nil => simp
  | cons b l ih =>
      cases i with
      | zero => simp
      | succ i =>
          have hstart : width * (i + 1) = (f b).length + width * i := by
            rw [hwidth b]
            ring
          rw [List.flatMap_cons, hstart, ← List.drop_drop, List.drop_left, ih, List.drop_succ_cons]

/-- The piece at an index, whatever follows the pieces. -/
theorem slice_flatMap (hwidth : ∀ b, (f b).length = width) {l : List β} {i : Nat} {b : β}
    (hi : l[i]? = some b) (behind : List α) :
    ((l.flatMap f ++ behind).drop (width * i)).take width = f b := by
  obtain ⟨hlt, hget⟩ := List.getElem?_eq_some_iff.mp hi
  have hle : width * i ≤ (l.flatMap f).length := by
    rw [length_flatMap hwidth]
    exact Nat.mul_le_mul_left width hlt.le
  rw [List.drop_append_of_le_length hle, drop_flatMap hwidth, List.drop_eq_getElem_cons hlt, hget,
    List.flatMap_cons, List.append_assoc, ← hwidth b, List.take_left]

end Pieces

/-! ## Reading element by element -/

theorem length_mapM {α β : Type*} {f : α → Option β} {l : List α} {bs : List β}
    (h : l.mapM f = some bs) : bs.length = l.length := by
  induction l generalizing bs with
  | nil =>
      cases h
      rfl
  | cons a l ih =>
      rw [List.mapM_cons] at h
      obtain ⟨b, -, h⟩ := Option.bind_eq_some_iff.mp h
      obtain ⟨bs', hbs, h⟩ := Option.bind_eq_some_iff.mp h
      cases h
      rw [List.length_cons, List.length_cons, ih hbs]

/-- What is read first of a piece is a piece of what is read. -/
theorem mapM_range_take {α : Type*} {read : Nat → Option α} {l : List α} {m n : Nat} (hmn : m ≤ n)
    (h : (List.range n).mapM read = some l) : (List.range m).mapM read = some (l.take m) := by
  obtain ⟨k, rfl⟩ := Nat.exists_eq_add_of_le hmn
  rw [List.range_add, List.mapM_append] at h
  obtain ⟨first, hfirst, h⟩ := Option.bind_eq_some_iff.mp h
  obtain ⟨rest, -, h⟩ := Option.bind_eq_some_iff.mp h
  cases h
  have hlength : first.length = m := (length_mapM hfirst).trans List.length_range
  rw [hfirst, List.take_left' hlength]

/-- Reading some elements one after the other, from an offset on. -/
theorem mapM_range_eq_slice {α : Type*} {read : Nat → Option α} {l : List α} {offset n : Nat}
    (hread : ∀ i < n, read i = l[offset + i]?) (hn : offset + n ≤ l.length) :
    (List.range n).mapM read = some ((l.drop offset).take n) := by
  induction n with
  | zero => rfl
  | succ n ih =>
      have hlast : offset + n < l.length := by omega
      have htake : (l.drop offset).take (n + 1) = (l.drop offset).take n ++ [l[offset + n]] := by
        rw [List.take_add_one, List.getElem?_drop, List.getElem?_eq_getElem hlast,
          Option.toList_some]
      have hinit := ih (fun i hi => hread i (by omega)) (by omega)
      rw [List.range_succ, List.mapM_append, hinit, htake]
      simp [hread n (Nat.lt_succ_self n), hlast]

/-! ## Numbers -/

/-- The lowest `width` bytes of a number, least significant first. -/
def littleEndian : Nat → Nat → List UInt8
  | 0, _ => []
  | width + 1, n => UInt8.ofNat n :: littleEndian width (n / 256)

/-- The number that some bytes stand for. -/
def ofLittleEndian (bytes : List UInt8) : Nat := bytes.foldr (fun b n => b.toNat + 256 * n) 0

@[simp] theorem length_littleEndian (width n : Nat) : (littleEndian width n).length = width := by
  induction width generalizing n with
  | zero => rfl
  | succ width ih => simp [littleEndian, ih]

@[simp] theorem ofLittleEndian_nil : ofLittleEndian [] = 0 := rfl

@[simp] theorem ofLittleEndian_cons (b : UInt8) (bytes : List UInt8) :
    ofLittleEndian (b :: bytes) = b.toNat + 256 * ofLittleEndian bytes := rfl

theorem ofLittleEndian_littleEndian (width n : Nat) :
    ofLittleEndian (littleEndian width n) = n % 256 ^ width := by
  induction width generalizing n with
  | zero => simp [littleEndian, Nat.mod_one]
  | succ width ih =>
      have hbyte : (UInt8.ofNat n).toNat = n % 256 := UInt8.toNat_ofNat'
      rw [littleEndian, ofLittleEndian_cons, ih, hbyte, pow_succ', Nat.mod_mul]

theorem ofLittleEndian_zeros (width : Nat) : ofLittleEndian (List.replicate width 0) = 0 := by
  induction width with
  | zero => rfl
  | succ width ih =>
      rw [List.replicate_succ, ofLittleEndian_cons, ih]
      rfl

end Records
end Support
end AdvCppHW
