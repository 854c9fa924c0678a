import Mathlib.Data.List.Basic

/-! Drafts: strings with gaps. Laid over an old string a draft leaves what is there in its gaps. -/
namespace Lib
variable {α : Type*}

/-- A draft over an old string that is at least as long. -/
def overlay : List (Option α) → List α → List α
  | x :: d, a :: l => x.getD a :: overlay d l
  | _, _ => []

section
variable {d : List (Option α)} {l : List α}

theorem length_overlay (h : d.length ≤ l.length) : (overlay d l).length = d.length := by
  induction d generalizing l with
  | nil => rfl
  | cons x d ih =>
    cases l with
    | nil => simp at h
    | cons a l => rw [overlay, List.length_cons, List.length_cons, ih (Nat.le_of_succ_le_succ h)]

theorem overlay_append (h : d.length ≤ l.length) (e : List (Option α)) :
    overlay (d ++ e) l = overlay d l ++ overlay e (l.drop d.length) := by
  induction d generalizing l with
  | nil => rfl
  | cons x d ih =>
    cases l with
    | nil => simp at h
    | cons a l =>
      rw [List.cons_append, overlay, overlay, ih (Nat.le_of_succ_le_succ h), List.length_cons,
        List.drop_succ_cons, List.cons_append]

theorem overlay_map_some {s : List α} (h : s.length ≤ l.length) : overlay (s.map some) l = s := by
  induction s generalizing l with
  | nil => rfl
  | cons a s ih =>
    cases l with
    | nil => simp at h
    | cons b l => rw [List.map_cons, overlay, ih (Nat.le_of_succ_le_succ h), Option.getD_some]

/-- The gaps come out as `z` exactly when the old string has `z` there. -/
theorem overlay_eq_map_iff (h : d.length ≤ l.length) (z : α) :
    overlay d l = d.map (fun x => x.getD z) ↔ ∀ k : ℕ, d[k]? = some none → l[k]? = some z := by
  induction d generalizing l with
  | nil => simp [overlay]
  | cons x d ih =>
    cases l with
    | nil => simp at h
    | cons a l =>
      rw [overlay, List.map_cons, List.cons.injEq, ih (Nat.le_of_succ_le_succ h)]
      constructor
      · rintro ⟨hx, hd⟩ k hk
        cases k with
        | zero =>
          rw [List.getElem?_cons_zero, Option.some.injEq] at hk
          rw [hk] at hx
          rw [List.getElem?_cons_zero]
          exact congrArg some hx
        | succ k => exact hd k hk
      · intro hall
        refine ⟨?_, fun k hk => hall (k + 1) hk⟩
        cases x with
        | none =>
          have h0 := hall 0 rfl
          rw [List.getElem?_cons_zero, Option.some.injEq] at h0
          exact h0
        | some b => rfl

/-- A draft changes nothing exactly when what it says is there already. -/
theorem overlay_eq_iff (h : d.length ≤ l.length) :
    overlay d l ++ l.drop d.length = l ↔
      ∀ (k : ℕ) (b : α), d[k]? = some (some b) → l[k]? = some b := by
  induction d generalizing l with
  | nil => simp [overlay]
  | cons x d ih =>
    cases l with
    | nil => simp at h
    | cons a l =>
      rw [overlay, List.length_cons, List.drop_succ_cons, List.cons_append, List.cons.injEq,
        ih (Nat.le_of_succ_le_succ h)]
      constructor
      · rintro ⟨hx, hd⟩ k b hk
        cases k with
        | zero =>
          rw [List.getElem?_cons_zero, Option.some.injEq] at hk
          rw [hk] at hx
          rw [List.getElem?_cons_zero]
          exact congrArg some hx.symm
        | succ k => exact hd k b hk
      · intro hall
        refine ⟨?_, fun k b hk => hall (k + 1) b hk⟩
        cases x with
        | none => rfl
        | some b =>
          have h0 := hall 0 b rfl
          rw [List.getElem?_cons_zero, Option.some.injEq] at h0
          exact h0.symm

end

end Lib
