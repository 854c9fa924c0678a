import Mathlib.Data.List.Basic
import Mathlib.Data.List.Nodup
import Mathlib.Logic.Function.Basic

/-! Singly linked lists in memory: a head link, a next link for every cell, and appending
through a pointer to a link. -/
namespace Lib
variable {α : Type*}

/-- The links of a list: the head and the one in each cell. -/
structure Links (α : Type*) where
  hdr : Option α
  next : α → Option α

/-- The address of a link. -/
inductive Link (α : Type*)
  | hdr
  | next (a : α)
deriving DecidableEq

namespace Links

/-- The cells met from a link on, up to the null link. -/
inductive From (next : α → Option α) : Option α → List α → Prop
  | nil : From next none []
  | cons {a : α} {l : List α} : From next (next a) l → From next (some a) (a :: l)

/-- The list that starts at the head. -/
def Lists (c : Links α) (l : List α) : Prop := From c.next c.hdr l

variable [DecidableEq α]

def set (c : Links α) (link : Link α) (p : Option α) : Links α :=
  match link with
  | .hdr => { c with hdr := p }
  | .next a => { c with next := Function.update c.next a p }

/-- The link that ends a list. -/
def endOf (l : List α) : Link α :=
  match l.getLast? with
  | none => .hdr
  | some z => .next z

omit [DecidableEq α] in
theorem From.eq_head {next : α → Option α} {p : Option α} {l : List α} (h : From next p l) :
    p = l.head? := by
  cases h <;> rfl

omit [DecidableEq α] in
theorem Lists.hdr_eq {c : Links α} {l : List α} (h : c.Lists l) : c.hdr = l.head? :=
  From.eq_head h

omit [DecidableEq α] in
/-- Unlinking the first cell leaves the rest of the list. -/
theorem Lists.pop {c : Links α} {a : α} {l : List α} (h : c.Lists l) (ha : c.hdr = some a) :
    ∃ r, l = a :: r ∧ ({ c with hdr := c.next a } : Links α).Lists r := by
  unfold Lists at h
  rw [ha] at h
  cases h with
  | cons h => exact ⟨_, rfl, h⟩

/-- A store into a cell outside the list leaves the list alone. -/
theorem From.update_of_notMem {next : α → Option α} {p : Option α} {l : List α}
    (h : From next p l) {a : α} (ha : a ∉ l) (q : Option α) :
    From (Function.update next a q) p l := by
  induction h with
  | nil => exact .nil
  | @cons b l h ih =>
    simp only [List.mem_cons, not_or] at ha
    refine .cons ?_
    rw [Function.update_of_ne (Ne.symm ha.1)]
    exact ih ha.2

/-- A store into the last cell links one more. -/
theorem From.update_last {next : α → Option α} {p : Option α} {l : List α} {z a : α}
    (h : From next p (l ++ [z])) (hz : z ∉ l) (hza : z ≠ a) (ha : next a = none) :
    From (Function.update next z (some a)) p (l ++ [z, a]) := by
  induction l generalizing p with
  | nil =>
    cases h
    refine .cons ?_
    rw [Function.update_self]
    refine .cons ?_
    rw [Function.update_of_ne (Ne.symm hza), ha]
    exact .nil
  | cons b l ih =>
    simp only [List.mem_cons, not_or] at hz
    cases h with
    | cons h =>
      refine .cons ?_
      rw [Function.update_of_ne (Ne.symm hz.1)]
      exact ih h hz.2

/-- Appending through the address of the link that ends the list. -/
theorem Lists.append {c : Links α} {l : List α} (h : c.Lists l) (hl : l.Nodup) {a : α}
    (ha : a ∉ l) : ((c.set (.next a) none).set (endOf l) (some a)).Lists (l ++ [a]) := by
  have hnone : (c.set (.next a) none).Lists l := From.update_of_notMem h ha none
  rcases List.eq_nil_or_concat' l with rfl | ⟨r, z, rfl⟩
  · refine From.cons ?_
    show From _ (Function.update c.next a none a) []
    rw [Function.update_self]
    exact .nil
  · have hz : z ∉ r := fun hm => (List.nodup_append.mp hl).2.2 z hm z (by simp) rfl
    have hza : z ≠ a := fun he => ha (by simp [he])
    have hend : endOf (r ++ [z]) = .next z := by simp [endOf]
    rw [hend, List.append_assoc]
    exact From.update_last hnone hz hza (Function.update_self ..)

end Links
end Lib
