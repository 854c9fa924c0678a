import Mathlib.Algebra.Order.Ring.Nat
import Mathlib.Tactic.Ring

/-! Bit-fields of a word, the first in its lowest bits: what is stored into a field is cut to the
width of the field, and reading the bits of the field gives it back. -/
namespace Lib

/-- The word of fields, each with its width and the value stored into it. -/
def packBits : List (ℕ × ℕ) → ℕ
  | [] => 0
  | (w, v) :: fs => v % 2 ^ w + 2 ^ w * packBits fs

def bitsWidth (fs : List (ℕ × ℕ)) : ℕ := (fs.map Prod.fst).sum

/-- The `w` bits of a word above its `off` lowest. -/
def readBits (off w n : ℕ) : ℕ := n / 2 ^ off % 2 ^ w

@[simp] theorem bitsWidth_nil : bitsWidth [] = 0 := rfl

@[simp] theorem bitsWidth_cons (f : ℕ × ℕ) (fs : List (ℕ × ℕ)) :
    bitsWidth (f :: fs) = f.1 + bitsWidth fs := rfl

theorem readBits_lt (off w n : ℕ) : readBits off w n < 2 ^ w :=
  Nat.mod_lt _ (Nat.two_pow_pos w)

theorem packBits_lt (fs : List (ℕ × ℕ)) : packBits fs < 2 ^ bitsWidth fs := by
  induction fs with
  | nil => simp [packBits]
  | cons f fs ih =>
    have hmod : f.2 % 2 ^ f.1 < 2 ^ f.1 := Nat.mod_lt _ (Nat.two_pow_pos f.1)
    have hstep : 2 ^ f.1 * (packBits fs + 1) ≤ 2 ^ f.1 * 2 ^ bitsWidth fs :=
      Nat.mul_le_mul_left _ ih
    rw [bitsWidth_cons, pow_add, packBits]
    rw [Nat.mul_add] at hstep
    omega

/-- The fields in front of a field only move it. -/
theorem packBits_append_div (fs gs : List (ℕ × ℕ)) :
    packBits (fs ++ gs) / 2 ^ bitsWidth fs = packBits gs := by
  induction fs with
  | nil => simp
  | cons f fs ih =>
    have hmod : f.2 % 2 ^ f.1 < 2 ^ f.1 := Nat.mod_lt _ (Nat.two_pow_pos f.1)
    rw [List.cons_append, packBits, bitsWidth_cons, pow_add, ← Nat.div_div_eq_div_mul,
      Nat.add_mul_div_left _ _ (Nat.two_pow_pos f.1), Nat.div_eq_of_lt hmod, Nat.zero_add, ih]

/-- A field holds what was stored into it, cut to its width. -/
theorem readBits_packBits (fs gs : List (ℕ × ℕ)) (w v : ℕ) :
    readBits (bitsWidth fs) w (packBits (fs ++ (w, v) :: gs)) = v % 2 ^ w := by
  rw [readBits, packBits_append_div, packBits, Nat.add_mul_mod_self_left,
    Nat.mod_eq_of_lt (Nat.mod_lt _ (Nat.two_pow_pos w))]

end Lib
