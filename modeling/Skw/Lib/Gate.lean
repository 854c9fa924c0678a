import Mathlib.Order.Lattice

/-! A gate that keeps the stamp of the last item it let through. It lets an item pass when its
stamp is higher, and one that is `loose` also when its stamp is the same. -/
namespace Lib

structure Gate (ι α : Type*) where
  stamp : ι → α
  loose : ι → Bool

namespace Gate
variable {ι α : Type*} [LinearOrder α] (g : Gate ι α)

def allows (last : α) (x : ι) : Bool := last < g.stamp x || (last = g.stamp x && g.loose x)

/-- The stamp kept after `x` was offered. -/
def keep (last : α) (x : ι) : α := if g.allows last x then g.stamp x else last

/-- The items of a list that pass. -/
def passed : α → List ι → List ι
  | _, [] => []
  | last, x :: xs =>
    if g.allows last x then x :: passed (g.stamp x) xs else passed last xs

variable {g} {last : α} {x y : ι} {xs : List ι}

theorem le_of_allows (h : g.allows last x = true) : last ≤ g.stamp x := by
  simp only [allows, Bool.or_eq_true, Bool.and_eq_true, decide_eq_true_eq] at h
  rcases h with h | ⟨h, -⟩
  · exact h.le
  · exact h.le

theorem lt_of_allows (h : g.allows last x = true) (hx : g.loose x = false) :
    last < g.stamp x := by
  simpa [allows, hx] using h

theorem le_keep (last : α) (x : ι) : last ≤ g.keep last x := by
  unfold keep
  split
  · next h => exact le_of_allows h
  · exact le_rfl

/-- What passes later has no lower stamp, and a higher one unless it is loose. -/
theorem of_mem_passed (h : y ∈ g.passed last xs) :
    last ≤ g.stamp y ∧ (g.loose y = false → last < g.stamp y) := by
  induction xs generalizing last with
  | nil => cases h
  | cons x xs ih =>
    unfold passed at h
    split at h
    · next hx =>
      rcases List.mem_cons.mp h with rfl | h
      · exact ⟨le_of_allows hx, lt_of_allows hx⟩
      · have hle := le_of_allows hx
        obtain ⟨h₁, h₂⟩ := ih h
        exact ⟨hle.trans h₁, fun hy => hle.trans_lt (h₂ hy)⟩
    · exact ih h

theorem passed_pairwise (last : α) (xs : List ι) : (g.passed last xs).Pairwise fun a b =>
    g.stamp a ≤ g.stamp b ∧ (g.loose b = false → g.stamp a < g.stamp b) := by
  induction xs generalizing last with
  | nil => exact .nil
  | cons x xs ih =>
    unfold passed
    split
    · exact .cons (fun y hy => of_mem_passed hy) (ih _)
    · exact ih _

end Gate
end Lib
