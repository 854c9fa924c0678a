import Mathlib.Order.Lattice.Nat

/-! Going round `n` places, of which some are marked, and doing a piece of work at each marked place
that is met. The turns that are left are bounded by the work that is left and by the way to the next
marked place. -/
namespace Lib
variable {p q : ℕ → Prop} {w w' n i : ℕ}

/-- How far the next marked place is from place `i`. -/
noncomputable def ahead (p : ℕ → Prop) (n i : ℕ) : ℕ := sInf {k | p ((i + k) % n)}

/-- Every place is met within one round. -/
theorem exists_add_mod_eq {b : ℕ} (hb : b < n) (i : ℕ) : ∃ k, k < n ∧ (i + k) % n = b := by
  have hn : 0 < n := by omega
  have hin : i % n < n := Nat.mod_lt i hn
  refine ⟨(b + (n - i % n)) % n, Nat.mod_lt _ hn, ?_⟩
  have heq : i % n + (b + (n - i % n)) = b + n := by omega
  rw [Nat.add_mod_mod, ← Nat.mod_add_mod, heq, Nat.add_mod_right, Nat.mod_eq_of_lt hb]

theorem ahead_lt (hn : 0 < n) (hp : ∀ b, p b → b < n) (i : ℕ) : ahead p n i < n := by
  by_cases h : ∃ b, p b
  · obtain ⟨b, hb⟩ := h
    obtain ⟨k, hk, rfl⟩ := exists_add_mod_eq (hp b hb) i
    exact (Nat.sInf_le (s := {k | p ((i + k) % n)}) hb).trans_lt hk
  · have hempty : {k | p ((i + k) % n)} = ∅ := Set.eq_empty_of_forall_notMem fun k hk => h ⟨_, hk⟩
    rw [ahead, hempty, Nat.sInf_empty]
    exact hn

/-- A place that is not marked is one less on the way. -/
theorem ahead_succ_lt (hp : ∃ b, b < n ∧ p b) (hi : ¬p (i % n)) :
    ahead p n (i % n + 1) < ahead p n i := by
  obtain ⟨b, hbn, hb⟩ := hp
  obtain ⟨k, -, rfl⟩ := exists_add_mod_eq hbn i
  have hmem : p ((i + ahead p n i) % n) := Nat.sInf_mem (s := {k | p ((i + k) % n)}) ⟨k, hb⟩
  have hpos : ahead p n i ≠ 0 := by
    intro h0
    rw [h0, Nat.add_zero] at hmem
    exact hi hmem
  have hle : ahead p n (i % n + 1) ≤ ahead p n i - 1 := by
    apply Nat.sInf_le
    have heq : i % n + 1 + (ahead p n i - 1) = i % n + ahead p n i := by omega
    show p _
    rwa [heq, Nat.mod_add_mod]
  omega

/-- A bound of the turns left where `w` is the work left. -/
noncomputable def turnsLeft (p : ℕ → Prop) (w n i : ℕ) : ℕ := w * n + ahead p n i

theorem turnsLeft_skip (hp : ∃ b, b < n ∧ p b) (hi : ¬p (i % n)) :
    turnsLeft p w n (i % n + 1) < turnsLeft p w n i :=
  Nat.add_lt_add_left (ahead_succ_lt hp hi) _

/-- A piece of work outweighs the way to the next marked place. -/
theorem turnsLeft_work (hn : 0 < n) (hq : ∀ b, q b → b < n) (hw : w' < w) (j : ℕ) :
    turnsLeft q w' n j < turnsLeft p w n i := by
  have hahead := ahead_lt hn hq j
  have hmul := Nat.mul_le_mul_right n (Nat.succ_le_of_lt hw)
  rw [Nat.succ_mul] at hmul
  unfold turnsLeft
  omega

end Lib
