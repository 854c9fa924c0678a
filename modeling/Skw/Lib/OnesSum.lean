import Mathlib.Data.BitVec

/-! Sums of 16-bit words in ones' complement, and the checksum that completes one. -/
namespace Lib

/-- The sum of the words of a byte string, the lower byte first; an odd byte is padded with zero. -/
def wordSum : List (BitVec 8) → ℕ
  | a :: b :: l => a.toNat + 2 ^ 8 * b.toNat + wordSum l
  | [a] => a.toNat
  | [] => 0

/-- A sum with every carry brought round to the lowest place. -/
def endAround (x : ℕ) : ℕ := if x = 0 then 0 else (x - 1) % 0xFFFF + 1

/-- The word that completes a sum to all ones. -/
def complement (x : ℕ) : BitVec 16 := ~~~BitVec.ofNat 16 (endAround x)

variable {x : ℕ} {s : List (BitVec 8)}

theorem endAround_le (x : ℕ) : endAround x ≤ 0xFFFF := by
  unfold endAround
  split_ifs
  · omega
  · omega

theorem toNat_complement (x : ℕ) : (complement x).toNat = 0xFFFF - endAround x := by
  have hlt : endAround x < 2 ^ 16 := by
    have := endAround_le x
    omega
  rw [complement, BitVec.toNat_not, BitVec.toNat_ofNat, Nat.mod_eq_of_lt hlt]

theorem complement_eq_zero_iff (x : ℕ) : complement x = 0 ↔ endAround x = 0xFFFF := by
  have hle := endAround_le x
  rw [← BitVec.toNat_inj, toNat_complement]
  change 0xFFFF - endAround x = 0 ↔ _
  omega

theorem endAround_add_complement (x : ℕ) :
    endAround (x + (complement x).toNat) = 0xFFFF := by
  rw [toNat_complement]
  unfold endAround
  split_ifs
  · omega
  · omega
  · omega
  · omega

theorem endAround_add_congr {y : ℕ} (h : endAround x = endAround y) (z : ℕ) :
    endAround (z + x) = endAround (z + y) := by
  unfold endAround at h ⊢
  split_ifs at h ⊢ <;> omega

theorem wordSum_append (hs : 2 ∣ s.length) (t : List (BitVec 8)) :
    wordSum (s ++ t) = wordSum s + wordSum t := by
  induction s using wordSum.induct with
  | case1 a b l ih =>
    have hl : 2 ∣ l.length := by
      rw [List.length_cons, List.length_cons] at hs
      omega
    rw [List.cons_append, List.cons_append, wordSum, wordSum, ih hl]
    omega
  | case2 a =>
    rw [List.length_singleton] at hs
    omega
  | case3 => simp [wordSum]

end Lib
