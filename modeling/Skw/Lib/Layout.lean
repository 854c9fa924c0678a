import Mathlib.Algebra.BigOperators.Group.List.Basic
import Mathlib.Tactic.Linarith

/-! Ranges that are laid out one behind the other from a start on. Such a layout has no gap and no
overlap, and a rule that tells the size of the range at a place determines it. -/
namespace Lib

/-- A range of `size` places from `start` on. -/
structure Span where
  start : ℕ
  size : ℕ
deriving DecidableEq

namespace Span

def stop (e : Span) : ℕ := e.start + e.size

/-- Nothing is in both ranges. -/
def Disjoint (e f : Span) : Prop := e.stop ≤ f.start ∨ f.stop ≤ e.start

instance (e f : Span) : Decidable (e.Disjoint f) := inferInstanceAs (Decidable (_ ∨ _))

end Span

/-- The ranges follow each other, the first from `a` on. -/
def Laid : ℕ → List Span → Prop
  | _, [] => True
  | a, e :: l => e.start = a ∧ Laid e.stop l

/-- Where a layout from `a` on ends. -/
def layoutEnd (a : ℕ) (l : List Span) : ℕ := a + (l.map Span.size).sum

/-- The ranges from `a` on of which `size` tells how large the one at a place is, at most `n`. -/
def spans (size : ℕ → Option ℕ) : ℕ → ℕ → List Span
  | 0, _ => []
  | n + 1, a =>
    match size a with
    | none => []
    | some k => ⟨a, k⟩ :: spans size n (a + k)

section
variable {a n : ℕ} {e f : Span} {l m : List Span} {size : ℕ → Option ℕ}

@[simp] theorem layoutEnd_nil (a : ℕ) : layoutEnd a [] = a := rfl

@[simp] theorem layoutEnd_cons (a : ℕ) (e : Span) (l : List Span) :
    layoutEnd a (e :: l) = layoutEnd (a + e.size) l := by
  simp only [layoutEnd, List.map_cons, List.sum_cons]
  omega

theorem layoutEnd_append (a : ℕ) (l m : List Span) :
    layoutEnd a (l ++ m) = layoutEnd (layoutEnd a l) m := by
  simp only [layoutEnd, List.map_append, List.sum_append]
  omega

theorem le_layoutEnd (a : ℕ) (l : List Span) : a ≤ layoutEnd a l := Nat.le_add_right ..

theorem laid_append (a : ℕ) (l m : List Span) :
    Laid a (l ++ m) ↔ Laid a l ∧ Laid (layoutEnd a l) m := by
  induction l generalizing a with
  | nil => exact (iff_of_eq (true_and _)).symm
  | cons e l ih =>
    rw [List.cons_append, layoutEnd_cons]
    show e.start = a ∧ Laid e.stop (l ++ m) ↔ (e.start = a ∧ Laid e.stop l) ∧ _
    rw [ih, ← and_assoc]
    apply and_congr_right
    rintro ⟨rfl, -⟩
    exact Iff.rfl

/-- One more range goes where a layout ends. -/
theorem Laid.concat (h : Laid a l) (he : e.start = layoutEnd a l) : Laid a (l ++ [e]) :=
  (laid_append a l [e]).2 ⟨h, he, trivial⟩

/-- Every range of a layout lies inside. -/
theorem Laid.inside (h : Laid a l) (he : e ∈ l) : a ≤ e.start ∧ e.stop ≤ layoutEnd a l := by
  induction l generalizing a with
  | nil => cases he
  | cons f l ih =>
    obtain ⟨rfl, hl⟩ := h
    rw [layoutEnd_cons]
    rcases List.mem_cons.1 he with rfl | he
    · exact ⟨le_rfl, le_layoutEnd _ l⟩
    · obtain ⟨hstart, hstop⟩ := ih hl he
      exact ⟨(Nat.le_add_right ..).trans hstart, hstop⟩

/-- The ranges of a layout do not overlap. -/
theorem Laid.pairwise (h : Laid a l) : l.Pairwise fun e f => e.stop ≤ f.start := by
  induction l generalizing a with
  | nil => exact .nil
  | cons f l ih => exact List.pairwise_cons.2 ⟨fun _ he => (h.2.inside he).1, ih h.2⟩

/-- The rule determines a layout that goes on as long as it can. -/
theorem Laid.eq_spans (h : Laid a l) (hsize : ∀ e ∈ l, size e.start = some e.size)
    (hle : l.length ≤ n) (hend : l.length < n → size (layoutEnd a l) = none) :
    l = spans size n a := by
  induction l generalizing a n with
  | nil =>
    cases n with
    | zero => rfl
    | succ n =>
      have hnone : size a = none := hend (Nat.succ_pos n)
      rw [spans, hnone]
  | cons f l ih =>
    obtain ⟨rfl, hl⟩ := h
    cases n with
    | zero => cases hle
    | succ n =>
      have hf := hsize f (List.mem_cons_self ..)
      have htail := ih hl (fun e he => hsize e (List.mem_cons_of_mem f he))
        (Nat.le_of_succ_le_succ hle) fun hlt => by
          have h := hend (Nat.succ_lt_succ hlt)
          rwa [layoutEnd_cons] at h
      rw [spans, hf, htail]
      rfl

end
end Lib
