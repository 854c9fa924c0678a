import Mathlib.Data.Bool.Basic
import Mathlib.Data.List.Induction

/-! Cyclic checks over a shift register. A register of `w` bits takes in a bit by a shift to the
left and, where the bit that falls out and the one that comes in differ, an exclusive or with a
generator. The check is linear in register and bits; with the lowest bit of the generator set, two
strings that differ only within `w` bits in a row have different checks, and with an odd number of
bits set those that differ in an odd number of places. -/
namespace Lib
variable {w : ℕ}

def crcStep (g s : BitVec w) (b : Bool) : BitVec w :=
  s <<< 1 ^^^ if s.msb ^^ b then g else 0

/-- The register after a string of bits. -/
def crc (g s : BitVec w) (bs : List Bool) : BitVec w := bs.foldl (crcStep g) s

/-- Two strings that are the same but for at most `k` bits in a row. -/
def Burst (k : ℕ) (xs ys : List Bool) : Prop :=
  ∃ pre as bs post, xs = pre ++ as ++ post ∧ ys = pre ++ bs ++ post ∧ as.length = bs.length ∧
    as.length ≤ k ∧ as ≠ bs

/-- The sum of the lowest `n` bits. -/
def bitSum (s : BitVec w) : ℕ → Bool
  | 0 => false
  | n + 1 => bitSum s n ^^ s.getLsbD n

def parity (s : BitVec w) : Bool := bitSum s w

variable {g s t : BitVec w} {as bs : List Bool} {a b : Bool}

@[simp] theorem crc_nil : crc g s [] = s := rfl

theorem crc_append : crc g s (as ++ bs) = crc g (crc g s as) bs := List.foldl_append

theorem crc_concat : crc g s (as ++ [b]) = crcStep g (crc g s as) b := crc_append

theorem xor_left_comm (a b c : BitVec w) : a ^^^ (b ^^^ c) = b ^^^ (a ^^^ c) := by
  rw [← BitVec.xor_assoc, BitVec.xor_comm a b, BitVec.xor_assoc]

theorem crcStep_xor (g s t : BitVec w) (a b : Bool) :
    crcStep g (s ^^^ t) (a ^^ b) = crcStep g s a ^^^ crcStep g t b := by
  have hmsb : ((s ^^^ t).msb ^^ (a ^^ b)) = ((s.msb ^^ a) ^^ (t.msb ^^ b)) := by
    rw [BitVec.msb_xor, Bool.xor_assoc, Bool.xor_assoc, Bool.xor_left_comm t.msb]
  unfold crcStep
  rw [hmsb, BitVec.shiftLeft_xor_distrib, BitVec.xor_assoc, BitVec.xor_assoc]
  congr 1
  rw [xor_left_comm]
  congr 1
  cases s.msb ^^ a <;> cases t.msb ^^ b <;> simp

theorem crc_xor (g s t : BitVec w) (h : as.length = bs.length) :
    crc g (s ^^^ t) (List.zipWith xor as bs) = crc g s as ^^^ crc g t bs := by
  induction as generalizing s t bs with
  | nil =>
    cases bs with
    | nil => rfl
    | cons b bs => cases h
  | cons a as ih =>
    cases bs with
    | nil => cases h
    | cons b bs =>
      rw [List.zipWith_cons_cons]
      change crc g (crcStep g (s ^^^ t) (a ^^ b)) _ = _
      rw [crcStep_xor]
      exact ih _ _ (Nat.succ.inj h)

/-- The lowest bit shows whether the generator came in. -/
theorem getLsbD_crcStep_zero (hg : g.getLsbD 0 = true) :
    (crcStep g s b).getLsbD 0 = (s.msb ^^ b) := by
  unfold crcStep
  rw [BitVec.getLsbD_xor, BitVec.getLsbD_shiftLeft]
  cases s.msb ^^ b with
  | true => simp [hg]
  | false => simp

theorem crcStep_eq_shiftLeft (h : (s.msb ^^ b) = false) : crcStep g s b = s <<< 1 := by
  unfold crcStep
  rw [h, if_neg Bool.false_ne_true, BitVec.ofNat_eq_ofNat, BitVec.xor_zero]

theorem crc_of_forall_false (h : ∀ b ∈ bs, b = false) : crc g 0 bs = 0 := by
  induction bs with
  | nil => rfl
  | cons b bs ih =>
    have hb : b = false := h b List.mem_cons_self
    have hstep : crcStep g (0 : BitVec w) b = 0 := by
      rw [hb, crcStep_eq_shiftLeft]
      · exact BitVec.zero_shiftLeft ..
      · rw [Bool.xor_false]
        exact BitVec.msb_zero
    change crc g (crcStep g 0 b) bs = 0
    rw [hstep]
    exact ih fun c hc => h c (List.mem_cons_of_mem _ hc)

/-- Bits that leave the lowest `n` bits of an empty register clear, and are at most `n`, are all
clear. -/
theorem eq_false_of_crc (hg : g.getLsbD 0 = true) {n : ℕ} (hn : n ≤ w)
    (hclear : ∀ i < n, (crc g 0 bs).getLsbD i = false) (hlen : bs.length ≤ n) :
    ∀ b ∈ bs, b = false := by
  induction bs using List.reverseRecOn generalizing n with
  | nil => exact fun b hb => absurd hb List.not_mem_nil
  | append_singleton bs b ih =>
    rw [List.length_append, List.length_singleton] at hlen
    rw [crc_concat] at hclear
    have hfeed : ((crc g 0 bs).msb ^^ b) = false := by
      rw [← getLsbD_crcStep_zero hg]
      exact hclear 0 (by omega)
    have hbs : ∀ c ∈ bs, c = false := by
      refine ih (n := n - 1) (by omega) ?_ (by omega)
      intro i hi
      have hnext := hclear (i + 1) (by omega)
      rw [crcStep_eq_shiftLeft hfeed, BitVec.getLsbD_shiftLeft] at hnext
      have hlt : i + 1 < w := by omega
      simpa [hlt] using hnext
    have hzero := crc_of_forall_false (g := g) hbs
    rw [hzero] at hfeed
    intro c hc
    rcases List.mem_append.mp hc with hc | hc
    · exact hbs c hc
    · have hmsb : (0 : BitVec w).msb = false := BitVec.msb_zero
      rw [hmsb, Bool.false_xor] at hfeed
      exact (List.mem_singleton.mp hc).trans hfeed

/-- A difference within `w` bits is seen at their end. -/
theorem crc_ne_of_length_le (hg : g.getLsbD 0 = true) (hlen : as.length = bs.length)
    (hw : as.length ≤ w) (hne : as ≠ bs) : crc g s as ≠ crc g s bs := by
  intro heq
  have hzero : crc g 0 (List.zipWith xor as bs) = 0 := by
    have hxor := crc_xor g s s hlen
    rw [heq, BitVec.xor_self, BitVec.xor_self] at hxor
    exact hxor
  have hzip : (List.zipWith xor as bs).length = as.length := by
    rw [List.length_zipWith, ← hlen, Nat.min_self]
  have hclear : ∀ b ∈ List.zipWith xor as bs, b = false := by
    refine eq_false_of_crc hg (Nat.le_refl w) ?_ (hzip ▸ hw)
    intro i _
    rw [hzero]
    exact BitVec.getLsbD_zero
  apply hne
  apply List.ext_getElem hlen
  intro i hi hi'
  have hxor := hclear _ (List.getElem_mem (hzip ▸ hi))
  rw [List.getElem_zipWith] at hxor
  simpa using hxor

/-- Registers that differ still do after the same bits. -/
theorem crcStep_injective (hg : g.getLsbD 0 = true) (h : crcStep g s b = crcStep g t b) :
    s = t := by
  have hzero : crcStep g (s ^^^ t) (b ^^ b) = 0 := by
    rw [crcStep_xor, h, BitVec.xor_self]
    rfl
  rw [Bool.xor_self] at hzero
  have hfeed : ((s ^^^ t).msb ^^ false) = false := by
    rw [← getLsbD_crcStep_zero hg, hzero]
    exact BitVec.getLsbD_zero
  rw [crcStep_eq_shiftLeft hfeed] at hzero
  rw [Bool.xor_false] at hfeed
  apply BitVec.xor_eq_zero_iff.mp
  apply BitVec.eq_of_getLsbD_eq
  intro i hi
  by_cases hlast : i + 1 < w
  · have hbit := congrArg (fun x => x.getLsbD (i + 1)) hzero
    simpa [hlast, BitVec.getLsbD_eq_getElem hi] using hbit
  · rw [BitVec.msb_eq_getLsbD_last] at hfeed
    have hi : i = w - 1 := by omega
    rw [hi, hfeed]
    simp

theorem crc_injective (hg : g.getLsbD 0 = true) (h : crc g s bs = crc g t bs) : s = t := by
  induction bs generalizing s t with
  | nil => exact h
  | cons b bs ih => exact crcStep_injective hg (ih h)

/-- A burst of at most `w` bits changes the check. -/
theorem crc_ne_of_burst (hg : g.getLsbD 0 = true) (h : Burst w as bs) :
    crc g s as ≠ crc g s bs := by
  obtain ⟨pre, xs, ys, post, rfl, rfl, hlen, hw, hne⟩ := h
  intro heq
  rw [crc_append, crc_append, crc_append, crc_append] at heq
  exact crc_ne_of_length_le hg hlen hw hne (crc_injective hg heq)

theorem bitSum_xor (s t : BitVec w) (n : ℕ) : bitSum (s ^^^ t) n = (bitSum s n ^^ bitSum t n) := by
  induction n with
  | zero => rfl
  | succ n ih =>
    rw [bitSum, bitSum, bitSum, ih, BitVec.getLsbD_xor, Bool.xor_assoc, Bool.xor_assoc,
      Bool.xor_left_comm (bitSum t n)]

theorem parity_xor (s t : BitVec w) : parity (s ^^^ t) = (parity s ^^ parity t) :=
  bitSum_xor s t w

theorem parity_zero : parity (0 : BitVec w) = false := by
  have hsum : ∀ n, bitSum (0 : BitVec w) n = false := by
    intro n
    induction n with
    | zero => rfl
    | succ n ih =>
      rw [bitSum, ih]
      simp
  exact hsum w

theorem bitSum_shiftLeft (s : BitVec w) {n : ℕ} (h : n < w) :
    bitSum (s <<< 1) (n + 1) = bitSum s n := by
  induction n with
  | zero => simp [bitSum]
  | succ n ih =>
    rw [bitSum, ih (by omega), bitSum, BitVec.getLsbD_shiftLeft]
    simp [h]

theorem parity_shiftLeft (s : BitVec w) : parity (s <<< 1) = (parity s ^^ s.msb) := by
  unfold parity
  cases w with
  | zero => simp [bitSum, BitVec.eq_nil s]
  | succ n =>
    rw [bitSum_shiftLeft s (Nat.lt_succ_self n), bitSum, BitVec.msb_eq_getLsbD_last,
      Bool.xor_assoc]
    simp

/-- With an odd generator the check keeps the parity of the bits. -/
theorem parity_crc (hg : parity g = true) (s : BitVec w) (bs : List Bool) :
    parity (crc g s bs) = (parity s ^^ decide (bs.count true % 2 = 1)) := by
  induction bs generalizing s with
  | nil => simp
  | cons b bs ih =>
    have hfeed : parity (if s.msb ^^ b then g else 0) = (s.msb ^^ b) := by
      cases s.msb ^^ b with
      | true => exact hg
      | false => exact parity_zero
    have hstep : parity (crcStep g s b) = (parity s ^^ b) := by
      unfold crcStep
      rw [parity_xor, parity_shiftLeft, hfeed, Bool.xor_assoc, ← Bool.xor_assoc s.msb,
        Bool.xor_self, Bool.false_xor]
    change parity (crc g (crcStep g s b) bs) = _
    rw [ih, hstep, List.count_cons, Bool.xor_assoc]
    congr 1
    cases b with
    | true =>
      rcases Nat.mod_two_eq_zero_or_one (bs.count true) with h | h <;>
        simp [h, Nat.add_mod]
    | false => simp

/-- Strings with an odd number of differences have different checks. -/
theorem crc_ne_of_count (hg : parity g = true) (h : as.count true % 2 ≠ bs.count true % 2) :
    crc g s as ≠ crc g s bs := by
  intro heq
  have hpar := congrArg parity heq
  rw [parity_crc hg, parity_crc hg] at hpar
  have hdec := Bool.xor_right_inj.mp hpar
  rw [decide_eq_decide] at hdec
  omega

end Lib
