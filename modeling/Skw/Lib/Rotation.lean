import Mathlib.Algebra.Order.BigOperators.Group.List
import Mathlib.Algebra.Order.Ring.Nat
import Mathlib.Data.List.Basic
import Mathlib.Logic.Function.Basic

/-! A ring of slots that are filled one after the other. What comes goes to the newest slot, and a
turn empties the oldest one and makes it the newest, so that the slots together hold the last part
of all that came. -/
namespace Lib
variable {α : Type*}

structure Rotation (α : Type*) where
  slot : ℕ → List α
  newest : ℕ

namespace Rotation

/-- What `n` slots hold, from the oldest one on. -/
def content (n : ℕ) (r : Rotation α) : List α :=
  (List.range n).flatMap fun i => r.slot ((r.newest + 1 + i) % n)

def append (r : Rotation α) (xs : List α) : Rotation α where
  slot := Function.update r.slot r.newest (r.slot r.newest ++ xs)
  newest := r.newest

def turn (n : ℕ) (r : Rotation α) : Rotation α where
  slot := Function.update r.slot ((r.newest + 1) % n) []
  newest := (r.newest + 1) % n

variable {n m : ℕ} {r : Rotation α}

theorem content_concat (h : r.newest < n) (hn : n = m + 1) :
    r.content n =
      ((List.range m).flatMap fun i => r.slot ((r.newest + 1 + i) % n)) ++ r.slot r.newest := by
  have hlast : (r.newest + 1 + m) % n = r.newest := by
    rw [show r.newest + 1 + m = r.newest + n by omega, Nat.add_mod_right, Nat.mod_eq_of_lt h]
  unfold content
  conv_lhs => rw [hn, List.range_succ, List.flatMap_append, List.flatMap_singleton, ← hn, hlast]

theorem mod_ne_newest (h : r.newest < n) (hn : n = m + 1) {i : ℕ} (hi : i < m) :
    (r.newest + 1 + i) % n ≠ r.newest := by
  by_cases hwrap : r.newest + 1 + i < n
  · rw [Nat.mod_eq_of_lt hwrap]
    omega
  · rw [Nat.mod_eq_sub_mod (by omega), Nat.mod_eq_of_lt (by omega)]
    omega

/-- The slots behind the newest one are not touched. -/
theorem flatMap_update (h : r.newest < n) (hn : n = m + 1) (xs : List α) :
    ((List.range m).flatMap fun i =>
        Function.update r.slot r.newest xs ((r.newest + 1 + i) % n)) =
      (List.range m).flatMap fun i => r.slot ((r.newest + 1 + i) % n) := by
  refine List.flatMap_congr fun i hi => ?_
  exact Function.update_of_ne (mod_ne_newest h hn (List.mem_range.mp hi)) ..

theorem content_append (h : r.newest < n) (xs : List α) :
    (r.append xs).content n = r.content n ++ xs := by
  obtain ⟨m, hn⟩ : ∃ m, n = m + 1 := Nat.exists_eq_succ_of_ne_zero (by omega)
  rw [content_concat (r := r) h hn, content_concat (r := r.append xs) h hn, List.append_assoc]
  congr 1
  · exact flatMap_update h hn _
  · exact Function.update_self ..

/-- A turn forgets what the oldest slot holds. -/
theorem content_turn (h : r.newest < n) :
    r.content n = r.slot ((r.newest + 1) % n) ++ (r.turn n).content n := by
  obtain ⟨m, hn⟩ : ∃ m, n = m + 1 := Nat.exists_eq_succ_of_ne_zero (by omega)
  have hturn : (r.turn n).newest < n := Nat.mod_lt _ (by omega)
  have hrest : (r.turn n).content n =
      (List.range m).flatMap fun i => r.slot ((r.newest + 1 + (i + 1)) % n) := by
    rw [content_concat hturn hn]
    have hempty : (r.turn n).slot (r.turn n).newest = [] := Function.update_self ..
    rw [hempty, List.append_nil]
    refine List.flatMap_congr fun i hi => ?_
    have hne := mod_ne_newest hturn hn (List.mem_range.mp hi)
    have hplace : ((r.turn n).newest + 1 + i) % n = (r.newest + 1 + (i + 1)) % n := by
      change ((r.newest + 1) % n + 1 + i) % n = _
      rw [Nat.add_assoc, Nat.mod_add_mod]
      congr 1
      omega
    rw [← hplace]
    exact Function.update_of_ne hne ..
  rw [hrest]
  unfold content
  conv_lhs => rw [hn, List.range_succ_eq_map, List.flatMap_cons, List.flatMap_map, ← hn]

/-- What is a last part of all that came stays one. -/
theorem content_turn_suffix {log : List α} (h : r.newest < n) (hs : r.content n <:+ log) :
    (r.turn n).content n <:+ log := by
  rw [content_turn h] at hs
  exact (List.suffix_append ..).trans hs

theorem content_append_suffix {log : List α} (h : r.newest < n) (hs : r.content n <:+ log)
    (xs : List α) : (r.append xs).content n <:+ log ++ xs := by
  obtain ⟨pre, rfl⟩ := hs
  rw [content_append h, List.append_assoc]
  exact List.suffix_append ..

theorem length_content_le {k : ℕ} (n : ℕ) (h : ∀ i, (r.slot i).length ≤ k) :
    (r.content n).length ≤ n * k := by
  have hsum := List.sum_le_card_nsmul
    ((List.range n).map fun i => (r.slot ((r.newest + 1 + i) % n)).length) k fun x hx => by
      obtain ⟨i, -, rfl⟩ := List.mem_map.mp hx
      exact h _
  rw [List.length_map, List.length_range, Nat.nsmul_eq_mul] at hsum
  rw [content, List.length_flatMap]
  exact hsum

end Rotation
end Lib
