import Mathlib.Data.Finset.Card

/-! Counting distinct numbers with a bitmap of fixed size. A number beyond the bitmap is recorded
as an access outside. -/
namespace Lib

structure Marks (n : ℕ) where
  bit : ℕ → Bool
  count : ℕ
  outside : Bool

namespace Marks
variable {n : ℕ}

def empty : Marks n := ⟨fun _ => false, 0, false⟩

/-- Sets a bit, and counts it if it was clear. -/
def mark (s : Marks n) (k : ℕ) : Marks n :=
  if k < n then
    if s.bit k then s else { s with bit := Function.update s.bit k true, count := s.count + 1 }
  else { s with outside := true }

/-- Counts a number whose bit is clear, and leaves the bit. -/
def test (s : Marks n) (k : ℕ) : Marks n :=
  if k < n then if s.bit k then s else { s with count := s.count + 1 }
  else { s with outside := true }

def markAll (s : Marks n) (l : List ℕ) : Marks n := l.foldl mark s

/-- What the bitmap says after the numbers of a set. -/
structure Records (s : Marks n) (seen : Finset ℕ) : Prop where
  bit : ∀ k, s.bit k = true ↔ k ∈ seen
  count : s.count = seen.card
  inside : s.outside = false

theorem records_empty : (empty : Marks n).Records ∅ := ⟨by simp [empty], rfl, rfl⟩

variable {s : Marks n} {seen : Finset ℕ} {k : ℕ} {l : List ℕ}

theorem Records.mark (h : s.Records seen) (hk : k < n) : (s.mark k).Records (insert k seen) := by
  unfold Marks.mark
  rw [if_pos hk]
  by_cases hb : s.bit k = true
  · rw [if_pos hb, Finset.insert_eq_of_mem ((h.bit k).mp hb)]
    exact h
  · rw [if_neg hb]
    have hnew : k ∉ seen := fun hm => hb ((h.bit k).mpr hm)
    constructor
    · intro j
      simp only [Function.update_apply, Finset.mem_insert]
      by_cases hj : j = k
      · simp [hj]
      · simp [hj, h.bit j]
    · rw [Finset.card_insert_of_notMem hnew, ← h.count]
    · exact h.inside

theorem Records.test (h : s.Records seen) (hk : k < n) :
    (s.test k).count = (insert k seen).card ∧ (s.test k).outside = false := by
  unfold Marks.test
  rw [if_pos hk]
  by_cases hb : s.bit k = true
  · rw [if_pos hb, Finset.insert_eq_of_mem ((h.bit k).mp hb)]
    exact ⟨h.count, h.inside⟩
  · rw [if_neg hb, Finset.card_insert_of_notMem fun hm => hb ((h.bit k).mpr hm), ← h.count]
    exact ⟨rfl, h.inside⟩

theorem Records.markAll (h : s.Records seen) (hl : ∀ k ∈ l, k < n) :
    (s.markAll l).Records (l.toFinset ∪ seen) := by
  induction l generalizing s seen with
  | nil => simpa [Marks.markAll] using h
  | cons k l ih =>
    have hk := h.mark (hl k List.mem_cons_self)
    have := ih hk fun j hj => hl j (List.mem_cons_of_mem _ hj)
    rwa [List.toFinset_cons, Finset.insert_union, ← Finset.union_insert]

theorem outside_mark (s : Marks n) (k : ℕ) :
    (s.mark k).outside = (s.outside || decide (n ≤ k)) := by
  unfold mark
  by_cases hk : k < n
  · rw [if_pos hk, decide_eq_false (Nat.not_le.mpr hk), Bool.or_false]
    split <;> rfl
  · rw [if_neg hk, decide_eq_true (Nat.not_lt.mp hk), Bool.or_true]

theorem outside_test (s : Marks n) (k : ℕ) :
    (s.test k).outside = (s.outside || decide (n ≤ k)) := by
  unfold test
  by_cases hk : k < n
  · rw [if_pos hk, decide_eq_false (Nat.not_le.mpr hk), Bool.or_false]
    split <;> rfl
  · rw [if_neg hk, decide_eq_true (Nat.not_lt.mp hk), Bool.or_true]

/-- An access outside is not forgotten. -/
theorem outside_markAll (s : Marks n) (l : List ℕ) :
    (s.markAll l).outside = true ↔ s.outside = true ∨ ∃ k ∈ l, n ≤ k := by
  induction l generalizing s with
  | nil => simp [markAll]
  | cons k l ih =>
    change ((s.mark k).markAll l).outside = true ↔ _
    rw [ih, outside_mark]
    simp [or_assoc]

end Marks
end Lib
