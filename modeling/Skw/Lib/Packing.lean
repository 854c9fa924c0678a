import Mathlib.Algebra.BigOperators.Group.List.Basic
import Mathlib.Algebra.GroupWithZero.Nat

/-! Items packed into parts in their order: a part is closed when the next item does not fit. -/
namespace Lib
variable {α : Type*} (size : α → ℕ) (room : ℕ)

def totalSize (xs : List α) : ℕ := (xs.map size).sum

/-- The parts of a list, with the items of an open part before it. -/
def packFrom (cur : List α) : List α → List (List α)
  | [] => [cur]
  | x :: xs =>
    if totalSize size cur + size x < room then packFrom (cur ++ [x]) xs
    else cur :: packFrom [x] xs

/-- The parts of a list of items. -/
def pack (xs : List α) : List (List α) := packFrom size room [] xs

variable {size room} {cur xs p : List α} {x : α}

@[simp] theorem totalSize_nil : totalSize size [] = 0 := rfl

@[simp] theorem totalSize_cons (x : α) (xs : List α) :
    totalSize size (x :: xs) = size x + totalSize size xs := List.sum_cons

@[simp] theorem totalSize_append (xs ys : List α) :
    totalSize size (xs ++ ys) = totalSize size xs + totalSize size ys := by
  simp [totalSize]

theorem packFrom_fits (h : totalSize size cur + size x < room) :
    packFrom size room cur (x :: xs) = packFrom size room (cur ++ [x]) xs := by
  rw [packFrom, if_pos h]

theorem packFrom_closes (h : ¬ totalSize size cur + size x < room) :
    packFrom size room cur (x :: xs) = cur :: packFrom size room [x] xs := by
  rw [packFrom, if_neg h]

/-- Nothing is lost, repeated or moved. -/
theorem flatten_packFrom (cur xs : List α) : (packFrom size room cur xs).flatten = cur ++ xs := by
  induction xs generalizing cur with
  | nil => simp [packFrom]
  | cons x xs ih =>
    by_cases h : totalSize size cur + size x < room
    · rw [packFrom_fits h, ih, List.append_assoc, List.singleton_append]
    · rw [packFrom_closes h, List.flatten_cons, ih, List.singleton_append]

theorem totalSize_lt_of_mem_packFrom (hcur : totalSize size cur < room)
    (hxs : ∀ x ∈ xs, size x < room) (hp : p ∈ packFrom size room cur xs) :
    totalSize size p < room := by
  induction xs generalizing cur with
  | nil =>
    rw [List.mem_singleton.mp hp]
    exact hcur
  | cons x xs ih =>
    have hrest : ∀ y ∈ xs, size y < room := fun y hy => hxs y (List.mem_cons_of_mem _ hy)
    by_cases h : totalSize size cur + size x < room
    · rw [packFrom_fits h] at hp
      exact ih (by simpa using h) hrest hp
    · rw [packFrom_closes h] at hp
      rcases List.mem_cons.mp hp with rfl | hp
      · exact hcur
      · have hx : totalSize size [x] < room := by simpa using hxs x List.mem_cons_self
        exact ih hx hrest hp

theorem ne_nil_of_mem_packFrom (hcur : cur ≠ []) (hp : p ∈ packFrom size room cur xs) :
    p ≠ [] := by
  induction xs generalizing cur with
  | nil =>
    rw [List.mem_singleton.mp hp]
    exact hcur
  | cons x xs ih =>
    by_cases h : totalSize size cur + size x < room
    · rw [packFrom_fits h] at hp
      exact ih (by simp) hp
    · rw [packFrom_closes h] at hp
      rcases List.mem_cons.mp hp with rfl | hp
      · exact hcur
      · exact ih (by simp) hp

theorem flatten_pack (xs : List α) : (pack size room xs).flatten = xs := flatten_packFrom [] xs

/-- Items that each fit leave no part too large. -/
theorem totalSize_lt_of_mem_pack (hroom : 0 < room) (hxs : ∀ x ∈ xs, size x < room)
    (hp : p ∈ pack size room xs) : totalSize size p < room :=
  totalSize_lt_of_mem_packFrom (by simpa using hroom) hxs hp

/-- No part of a list that begins with an item that fits is empty. -/
theorem ne_nil_of_mem_pack (hne : xs ≠ []) (hxs : ∀ x ∈ xs, size x < room)
    (hp : p ∈ pack size room xs) : p ≠ [] := by
  obtain ⟨x, xs, rfl⟩ := List.exists_cons_of_ne_nil hne
  have hx : totalSize size [] + size x < room := by simpa using hxs x List.mem_cons_self
  rw [pack, packFrom_fits hx] at hp
  exact ne_nil_of_mem_packFrom (by simp) hp

end Lib
