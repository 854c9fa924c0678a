import Skw.Lib.Buffer

/-! Windows on a circle of `m` numbers and the slots of a table of size `w` that the numbers select
by their remainder. -/
namespace Lib
variable {m w s a b : ℕ}

/-- The `w` numbers from `s` on, modulo `m`. -/
def InWindow (m w s a : ℕ) : Prop := ∃ i < w, a = (s + i) % m

/-- Different numbers of a window select different slots. -/
def SlotsApart (m w : ℕ) : Prop :=
  ∀ s a b, InWindow m w s a → InWindow m w s b → a % w = b % w → a = b

theorem InWindow.lt (hm : 0 < m) (h : InWindow m w s a) : a < m := by
  obtain ⟨i, -, rfl⟩ := h
  exact Nat.mod_lt _ hm

/-- A size that divides the circle keeps the slots in step with the positions. -/
theorem slotsApart_of_dvd (h : w ∣ m) : SlotsApart m w := by
  rintro s a b ⟨i, hi, rfl⟩ ⟨j, hj, rfl⟩ hab
  rw [Nat.mod_mod_of_dvd _ h, Nat.mod_mod_of_dvd _ h] at hab
  rcases Nat.le_total i j with hij | hij
  · rw [mod_inj_of_lt (by omega) (by omega) hab]
  · rw [mod_inj_of_lt (by omega) (by omega) hab.symm]

/-- A table for the whole circle has a slot for each number. -/
theorem slotsApart_of_le (hm : 0 < m) (h : m ≤ w) : SlotsApart m w := by
  intro s a b ha hb hab
  rwa [Nat.mod_eq_of_lt ((ha.lt hm).trans_le h), Nat.mod_eq_of_lt ((hb.lt hm).trans_le h)] at hab

/-- Otherwise the last multiple of the size shares its slot with 0 after the wrap. -/
theorem slotsApart_iff (hm : 0 < m) (hw : 0 < w) : SlotsApart m w ↔ w ∣ m ∨ m ≤ w := by
  constructor
  · intro h
    by_contra! hn
    obtain ⟨hdvd, hlt⟩ := hn
    have hr : m % w ≠ 0 := fun h0 => hdvd (Nat.dvd_of_mod_eq_zero h0)
    have hrw : m % w < w := Nat.mod_lt _ hw
    have hdiv := Nat.div_add_mod m w
    have hle : m % w ≤ m := Nat.mod_le _ _
    have hlast : InWindow m w (m - m % w) (m - m % w) :=
      ⟨0, by omega, (Nat.mod_eq_of_lt (by omega)).symm⟩
    have hzero : InWindow m w (m - m % w) 0 :=
      ⟨m % w, hrw, by rw [Nat.sub_add_cancel hle, Nat.mod_self]⟩
    have hslot : (m - m % w) % w = 0 % w := by
      rw [show m - m % w = w * (m / w) by omega, Nat.mul_mod_right, Nat.zero_mod]
    have := h _ _ _ hlast hzero hslot
    omega
  · rintro (h | h)
    · exact slotsApart_of_dvd h
    · exact slotsApart_of_le hm h

end Lib
