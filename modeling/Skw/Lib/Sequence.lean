import Mathlib.Data.Nat.ModEq

/-! A receiver that counts what arrives and lets an item pass whose number is the count, over a channel
that keeps the order and loses items. The numbers are counts of what was sent, modulo `n`. -/
namespace Lib
variable {α : Type*}

/-- The receiver: each item that arrives is counted, whether it passes or not. -/
def receive (n : ℕ) (num : α → ℕ) : ℕ → List α → List α
  | _, [] => []
  | c, a :: as =>
    if (c + 1) % n = num a % n then a :: receive n num (c + 1) as else receive n num (c + 1) as

/-- What arrives of the items sent. -/
def arrived (l : List (Bool × α)) : List α := (l.filter (·.1)).map (·.2)

/-- The items that arrive when a multiple of `n` was lost before. -/
def inStep (n : ℕ) : ℕ → List (Bool × α) → List α
  | _, [] => []
  | lost, (true, a) :: l => if n ∣ lost then a :: inStep n lost l else inStep n lost l
  | lost, (false, _) :: l => inStep n (lost + 1) l

variable {n : ℕ} {num : α → ℕ} {l : List (Bool × α)}

theorem receive_append (c : ℕ) (as bs : List α) :
    receive n num c (as ++ bs) = receive n num c as ++ receive n num (c + as.length) bs := by
  induction as generalizing c with
  | nil => rfl
  | cons a as ih =>
    have hcount : c + (a :: as).length = c + 1 + as.length := by
      rw [List.length_cons]
      omega
    rw [List.cons_append, receive, receive, ih, hcount]
    split <;> rfl

@[simp] theorem arrived_append (l m : List (Bool × α)) :
    arrived (l ++ m) = arrived l ++ arrived m := by
  simp [arrived]

/-- A receiver that is behind by what was lost. -/
theorem receive_arrived (c lost : ℕ)
    (hnum : ∀ i (h : i < l.length), num l[i].2 % n = (c + lost + i + 1) % n) :
    receive n num c (arrived l) = inStep n lost l := by
  induction l generalizing c lost with
  | nil => rfl
  | cons x l ih =>
    have hhead := hnum 0 (Nat.zero_lt_succ _)
    have htail : ∀ i (h : i < l.length), num l[i].2 % n = (c + lost + (i + 1) + 1) % n :=
      fun i h => hnum (i + 1) (Nat.succ_lt_succ h)
    obtain ⟨here, a⟩ := x
    cases here with
    | false =>
      refine ih c (lost + 1) fun i h => ?_
      rw [htail i h]
      congr 1
      omega
    | true =>
      have hrest := ih (c + 1) lost fun i h => by
        rw [htail i h]
        congr 1
        omega
      have hpass : (c + 1) % n = num a % n ↔ n ∣ lost := by
        rw [show num a % n = (c + 1 + lost) % n from hhead.trans (by congr 1; omega), eq_comm]
        exact Nat.add_modEq_left_iff
      change (if (c + 1) % n = num a % n then a :: receive n num (c + 1) (arrived l)
        else receive n num (c + 1) (arrived l)) = if n ∣ lost then _ else _
      simp only [hpass, hrest]

/-- After a loss nothing passes until as many more are lost as there are numbers. -/
theorem inStep_eq_nil (lost : ℕ) (hlost : 0 < lost)
    (h : lost + (l.filter (!·.1)).length < n) : inStep n lost l = [] := by
  induction l generalizing lost with
  | nil => rfl
  | cons x l ih =>
    obtain ⟨here, a⟩ := x
    cases here with
    | true =>
      have hno : ¬ n ∣ lost := Nat.not_dvd_of_pos_of_lt hlost (by omega)
      rw [inStep, if_neg hno]
      exact ih lost hlost (by simpa using h)
    | false =>
      refine ih (lost + 1) (Nat.succ_pos _) ?_
      simp only [List.filter_cons, Bool.not_false, if_true, List.length_cons] at h
      omega

/-- With fewer losses than numbers, just what came before the first loss passes. -/
theorem inStep_of_lt (h : (l.filter (!·.1)).length < n) :
    inStep n 0 l = (l.takeWhile (·.1)).map (·.2) := by
  induction l with
  | nil => rfl
  | cons x l ih =>
    obtain ⟨here, a⟩ := x
    cases here with
    | true =>
      rw [inStep, if_pos (Nat.dvd_zero n), ih (by simpa using h)]
      rfl
    | false =>
      simp only [List.filter_cons, Bool.not_false, if_true, List.length_cons] at h
      exact inStep_eq_nil 1 Nat.one_pos (by omega)

end Lib
