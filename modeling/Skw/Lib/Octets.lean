import Mathlib.Data.Nat.Digits.Defs
import Mathlib.Data.BitVec
import Mathlib.Data.List.Range

/-! Numbers as octets with the highest first, words that have their lowest bits from another word,
and the set bits of a word from the lowest one on, with what finding and clearing the lowest one makes
of them. -/
namespace Lib

/-- The number that octets stand for, the highest first. -/
def beNat (s : List (BitVec 8)) : ℕ := Nat.ofDigits 256 (s.map BitVec.toNat).reverse

/-- The `n` lowest bits. -/
def lowMask (w n : ℕ) : BitVec w := BitVec.allOnes w >>> (w - n)

/-- The lowest bits of `y` below the others of `x`. -/
def splice {w : ℕ} (m x y : BitVec w) : BitVec w := x &&& ~~~m ||| y &&& m

section
variable {s t : List (BitVec 8)}

theorem toNat_lt_of_mem {d : ℕ} (h : d ∈ (s.map BitVec.toNat).reverse) : d < 256 := by
  obtain ⟨b, -, rfl⟩ := List.mem_map.mp (List.mem_reverse.mp h)
  exact b.isLt

theorem beNat_cons (b : BitVec 8) (s : List (BitVec 8)) :
    beNat (b :: s) = b.toNat * 256 ^ s.length + beNat s := by
  rw [beNat, List.map_cons, Nat.ofDigits_reverse_cons, List.length_map, Nat.add_comm, Nat.mul_comm]
  rfl

theorem beNat_lt (s : List (BitVec 8)) : beNat s < 256 ^ s.length := by
  have h := Nat.ofDigits_lt_base_pow_length (by decide : 1 < 256) fun d => toNat_lt_of_mem (s := s)
  rwa [List.length_reverse, List.length_map] at h

/-- As many octets stand for one number only. -/
theorem beNat_inj (hlen : s.length = t.length) (h : beNat s = beNat t) : s = t := by
  have hdigits := Nat.ofDigits_inj_of_len_eq (by decide : 1 < 256)
    (by rw [List.length_reverse, List.length_reverse, List.length_map, List.length_map, hlen])
    (fun d => toNat_lt_of_mem) (fun d => toNat_lt_of_mem) h
  exact List.map_injective_iff.mpr (fun _ _ => BitVec.eq_of_toNat_eq)
    (List.reverse_injective hdigits)

end

section
variable {w n : ℕ}

theorem getLsbD_lowMask (hn : n ≤ w) (i : ℕ) : (lowMask w n).getLsbD i = decide (i < n) := by
  rw [lowMask, BitVec.getLsbD_ushiftRight, BitVec.getLsbD_allOnes]
  exact decide_eq_decide.mpr (by omega)

theorem getLsbD_splice (m x y : BitVec w) (i : ℕ) :
    (splice m x y).getLsbD i = if m.getLsbD i then y.getLsbD i else x.getLsbD i := by
  rw [splice, BitVec.getLsbD_or, BitVec.getLsbD_and, BitVec.getLsbD_and, BitVec.getLsbD_not]
  by_cases hi : i < w
  · cases m.getLsbD i <;> simp [hi]
  · simp [BitVec.getLsbD_of_ge _ _ (not_lt.mp hi)]

theorem toNat_splice_div (hn : n ≤ w) (x y : BitVec w) :
    (splice (lowMask w n) x y).toNat / 2 ^ n = x.toNat / 2 ^ n := by
  apply Nat.eq_of_testBit_eq
  intro i
  rw [Nat.testBit_div_two_pow, Nat.testBit_div_two_pow, BitVec.testBit_toNat, BitVec.testBit_toNat,
    getLsbD_splice, getLsbD_lowMask hn, if_neg (by simp)]

theorem toNat_splice_mod (hn : n ≤ w) (x y : BitVec w) :
    (splice (lowMask w n) x y).toNat % 2 ^ n = y.toNat % 2 ^ n := by
  apply Nat.eq_of_testBit_eq
  intro i
  rw [Nat.testBit_mod_two_pow, Nat.testBit_mod_two_pow, BitVec.testBit_toNat, BitVec.testBit_toNat,
    getLsbD_splice, getLsbD_lowMask hn]
  by_cases hi : i < n
  · simp [hi]
  · simp [hi]

theorem toNat_and_lowMask (hn : n ≤ w) (x : BitVec w) :
    (x &&& lowMask w n).toNat = x.toNat % 2 ^ n := by
  apply Nat.eq_of_testBit_eq
  intro i
  rw [Nat.testBit_mod_two_pow, BitVec.testBit_toNat, BitVec.testBit_toNat, BitVec.getLsbD_and,
    getLsbD_lowMask hn, Bool.and_comm]

end

section
variable {w : ℕ} {x : BitVec w} {p : ℕ}

def setBits (x : BitVec w) : List ℕ := (List.range w).filter fun i => x.getLsbD i

def IsLowest (x : BitVec w) (p : ℕ) : Prop := x.getLsbD p = true ∧ ∀ j < p, x.getLsbD j = false

def clearBit (x : BitVec w) (p : ℕ) : BitVec w := x &&& ~~~(1#w <<< p)

theorem mem_setBits : p ∈ setBits x ↔ x.getLsbD p = true := by
  rw [setBits, List.mem_filter, List.mem_range]
  exact and_iff_right_of_imp BitVec.lt_of_getLsbD

theorem length_setBits_le (x : BitVec w) : (setBits x).length ≤ w :=
  (List.length_filter_le ..).trans_eq List.length_range

theorem setBits_zero : setBits 0#w = [] := by
  refine List.filter_eq_nil_iff.mpr fun i _ => ?_
  rw [BitVec.getLsbD_zero]
  exact Bool.false_ne_true

theorem exists_isLowest (h : x ≠ 0#w) : ∃ p, IsLowest x p := by
  have hex : ∃ p, x.getLsbD p = true := by
    by_contra hno
    push Not at hno
    refine h (BitVec.eq_of_getLsbD_eq fun i _ => ?_)
    rw [BitVec.getLsbD_zero]
    exact Bool.eq_false_iff.mpr (hno i)
  exact ⟨Nat.find hex, Nat.find_spec hex, fun j hj => Bool.eq_false_iff.mpr (Nat.find_min hex hj)⟩

theorem IsLowest.lt (h : IsLowest x p) : p < w := BitVec.lt_of_getLsbD h.1

theorem getLsbD_one_shiftLeft (p j : ℕ) (hj : j ≠ p) : (1#w <<< p).getLsbD j = false := by
  have hbit : (1#w <<< p).getLsbD j = (decide (p < w) && decide (p = j)) :=
    BitVec.getLsbD_twoPow p j
  rw [hbit, decide_eq_false hj.symm, Bool.and_false]

theorem getLsbD_clearBit (x : BitVec w) (p j : ℕ) :
    (clearBit x p).getLsbD j = (x.getLsbD j && decide (j ≠ p)) := by
  have hbit : (1#w <<< p).getLsbD j = (decide (p < w) && decide (p = j)) :=
    BitVec.getLsbD_twoPow p j
  rw [clearBit, BitVec.getLsbD_and, BitVec.getLsbD_not, hbit]
  by_cases hj : j < w
  · by_cases hjp : j = p
    · subst hjp
      simp [hj]
    · simp [hj, hjp, Ne.symm hjp]
  · rw [BitVec.getLsbD_of_ge x j (Nat.le_of_not_lt hj)]
    rfl

/-- The lowest bit comes first, and clearing it leaves the others. -/
theorem setBits_of_isLowest (h : IsLowest x p) : setBits x = p :: setBits (clearBit x p) := by
  obtain ⟨n, hn⟩ : ∃ n, w = p + (n + 1) := ⟨w - p - 1, by have := h.lt; omega⟩
  have hrange : List.range w = List.range p ++ p :: List.range' (p + 1) n := by
    rw [hn, List.range_eq_range', List.range_eq_range', ← List.range'_append_1, Nat.zero_add,
      List.range'_succ]
  have hnone (y : BitVec w) (hy : ∀ j < p, y.getLsbD j = false) :
      (List.range p).filter (fun i => y.getLsbD i) = [] := by
    refine List.filter_eq_nil_iff.mpr fun i hi => ?_
    rw [hy i (List.mem_range.mp hi)]
    exact Bool.false_ne_true
  have hclear (j : ℕ) (hj : j < p) : (clearBit x p).getLsbD j = false := by
    rw [getLsbD_clearBit, h.2 j hj]
    rfl
  have hat : (clearBit x p).getLsbD p = false := by
    rw [getLsbD_clearBit, decide_eq_false (not_not.mpr rfl), Bool.and_false]
  have hbehind : (List.range' (p + 1) n).filter (fun i => (clearBit x p).getLsbD i) =
      (List.range' (p + 1) n).filter fun i => x.getLsbD i := by
    refine List.filter_congr fun i hi => ?_
    have hlt := (List.mem_range'_1.mp hi).1
    rw [getLsbD_clearBit, decide_eq_true (by omega), Bool.and_true]
  unfold setBits
  rw [hrange, List.filter_append, List.filter_append, hnone x h.2, hnone _ hclear,
    List.filter_cons_of_pos (by simpa using h.1), List.filter_cons_of_neg (by simp [hat]), hbehind]
  rfl

theorem IsLowest.ushiftRight (h : IsLowest x p) {k : ℕ} (hk : k ≤ p) :
    IsLowest (x >>> k) (p - k) := by
  refine ⟨?_, fun j hj => ?_⟩
  · rw [BitVec.getLsbD_ushiftRight, Nat.add_sub_cancel' hk]
    exact h.1
  · rw [BitVec.getLsbD_ushiftRight]
    exact h.2 (k + j) (by omega)

/-- The lowest `k` bits are clear exactly if the lowest set bit is behind them. -/
theorem IsLowest.and_lowMask (h : IsLowest x p) {k : ℕ} (hk : k ≤ w) :
    x &&& lowMask w k = 0#w ↔ k ≤ p := by
  constructor
  · intro hzero
    by_contra hlt
    have hbit := congrArg (·.getLsbD p) hzero
    simp only [BitVec.getLsbD_and, getLsbD_lowMask hk, h.1, BitVec.getLsbD_zero,
      decide_eq_true (not_le.mp hlt)] at hbit
    cases hbit
  · intro hle
    refine BitVec.eq_of_getLsbD_eq fun j _ => ?_
    rw [BitVec.getLsbD_and, getLsbD_lowMask hk, BitVec.getLsbD_zero]
    by_cases hj : j < k
    · rw [h.2 j (hj.trans_le hle), Bool.false_and]
    · rw [decide_eq_false hj, Bool.and_false]

/-- A step of the search for the lowest set bit: past `k` bits if they are clear. -/
def skipStep (a : BitVec w × ℕ) (k : ℕ) : BitVec w × ℕ :=
  if a.1 &&& lowMask w k = 0#w then (a.1 >>> k, a.2 + k) else a

/-- Each width is at least half of what the ones before have left, and the last leaves one bit. -/
def Halves : ℕ → List ℕ → Prop
  | b, [] => b ≤ 1
  | b, k :: ks => b ≤ 2 * k ∧ Halves k ks

instance : ∀ (b : ℕ) (ks : List ℕ), Decidable (Halves b ks)
  | b, [] => inferInstanceAs (Decidable (b ≤ 1))
  | b, k :: ks =>
    have : Decidable (Halves k ks) := instDecidableHalves k ks
    inferInstanceAs (Decidable (b ≤ 2 * k ∧ Halves k ks))

theorem foldl_skipStep {ks : List ℕ} {b : ℕ} (hks : Halves b ks) (hle : ∀ k ∈ ks, k ≤ w)
    (h : IsLowest x p) (hp : p < b) (r : ℕ) : (ks.foldl skipStep (x, r)).2 = r + p := by
  induction ks generalizing b x p r with
  | nil =>
    have hb : b ≤ 1 := hks
    obtain rfl : p = 0 := by omega
    rfl
  | cons k ks ih =>
    obtain ⟨hb, hks⟩ := hks
    have hk : k ≤ w := hle k List.mem_cons_self
    have hle : ∀ k ∈ ks, k ≤ w := fun k hk => hle k (List.mem_cons_of_mem _ hk)
    rw [List.foldl_cons]
    by_cases hkp : k ≤ p
    · have hstep : skipStep (x, r) k = (x >>> k, r + k) := if_pos ((h.and_lowMask hk).mpr hkp)
      rw [hstep, ih hks hle (h.ushiftRight hkp) (by omega)]
      omega
    · have hstep : skipStep (x, r) k = (x, r) := if_neg (mt (h.and_lowMask hk).mp hkp)
      rw [hstep, ih hks hle h (by omega)]

end

end Lib
