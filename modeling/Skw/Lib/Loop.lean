import Mathlib.Logic.Function.Iterate
import Mathlib.Order.Basic

/-! Loops as the source writes them: a pass over the state either goes on or leaves the loop. Their
termination by a measure, the rule of the loop invariant, and properties that a run has exactly
when every pass adds nothing bad. -/
namespace Lib
variable {σ : Type*}

/-- The end of a pass. -/
inductive Pass (σ : Type*)
  | next (s : σ)
  | done (s : σ)

def Pass.state : Pass σ → σ
  | .next s => s
  | .done s => s

/-- The state after the loop, if it is left within `fuel` passes. -/
def loop (pass : σ → Pass σ) : ℕ → σ → Option σ
  | 0, _ => none
  | fuel + 1, s =>
    match pass s with
    | .next t => loop pass fuel t
    | .done t => some t

/-- The states before the passes, at most `fuel` ones. -/
def passes (pass : σ → Pass σ) : ℕ → σ → List σ
  | 0, _ => []
  | fuel + 1, s =>
    s :: match pass s with
      | .next t => passes pass fuel t
      | .done _ => []

section
variable {pass : σ → Pass σ} {s t : σ}

/-- A loop whose passes make a number smaller is left. -/
theorem exists_loop_eq (μ : σ → ℕ) (h : ∀ s t, pass s = .next t → μ t < μ s) {fuel : ℕ}
    (hs : μ s < fuel) : ∃ t, loop pass fuel s = some t := by
  induction fuel generalizing s with
  | zero => omega
  | succ fuel ih =>
    rw [loop]
    cases hp : pass s with
    | next t => exact ih (by have := h s t hp; omega)
    | done t => exact ⟨t, rfl⟩

/-- What holds before the first pass and is kept by every pass that goes on gives, in the last
pass, what holds after the loop. -/
theorem of_loop_eq {I Q : σ → Prop} (hnext : ∀ s t, I s → pass s = .next t → I t)
    (hdone : ∀ s t, I s → pass s = .done t → Q t) {fuel : ℕ} (hs : I s)
    (h : loop pass fuel s = some t) : Q t := by
  induction fuel generalizing s with
  | zero => cases h
  | succ fuel ih =>
    rw [loop] at h
    cases hp : pass s with
    | next u =>
      rw [hp] at h
      exact ih (hnext s u hs hp) h
    | done u =>
      rw [hp] at h
      cases h
      exact hdone s t hs hp

/-- A loop whose passes all go on is never left. -/
theorem loop_eq_none {I : σ → Prop} (h : ∀ s, I s → ∃ t, pass s = .next t ∧ I t) (hs : I s)
    (fuel : ℕ) : loop pass fuel s = none := by
  induction fuel generalizing s with
  | zero => rfl
  | succ fuel ih =>
    obtain ⟨t, hp, ht⟩ := h s hs
    rw [loop, hp]
    exact ih ht

/-- Where a pass keeps `P` exactly when its state before satisfies `F`, so does the whole loop
with all of its passes. -/
theorem loop_iff {P F : σ → Prop} (hpass : ∀ s, P (pass s).state ↔ P s ∧ F s) {fuel : ℕ}
    (h : loop pass fuel s = some t) : P t ↔ P s ∧ ∀ u ∈ passes pass fuel s, F u := by
  induction fuel generalizing s with
  | zero => cases h
  | succ fuel ih =>
    have hs := hpass s
    rw [loop] at h
    rw [passes]
    cases hp : pass s with
    | next u =>
      rw [hp] at h hs
      rw [ih h, List.forall_mem_cons, ← and_assoc, ← hs]
      rfl
    | done u =>
      rw [hp] at h hs
      cases h
      rw [List.forall_mem_cons]
      exact hs.trans (and_congr_right fun _ => by simp)

/-- More passes than needed change nothing. -/
theorem loop_add {fuel : ℕ} (h : loop pass fuel s = some t) (n : ℕ) :
    loop pass (fuel + n) s = some t := by
  induction fuel generalizing s with
  | zero => cases h
  | succ fuel ih =>
    rw [Nat.succ_add, loop]
    rw [loop] at h
    cases hp : pass s with
    | next u =>
      rw [hp] at h
      exact ih h
    | done u =>
      rw [hp] at h
      exact h

/-- The state after a loop does not depend on the bound. -/
theorem loop_unique {u : σ} {fuel fuel' : ℕ} (h : loop pass fuel s = some t)
    (h' : loop pass fuel' s = some u) : t = u := by
  have := (loop_add h fuel').symm.trans ((Nat.add_comm fuel fuel').symm ▸ loop_add h' fuel)
  exact Option.some.inj this

/-- A loop that is left in its first pass. -/
theorem exists_loop_of_done {u : σ} (h : pass s = .done u) :
    (∃ fuel, loop pass fuel s = some t) ↔ u = t := by
  constructor
  · rintro ⟨fuel, hl⟩
    cases fuel with
    | zero => cases hl
    | succ fuel =>
      rw [loop, h] at hl
      exact Option.some.inj hl
  · rintro rfl
    exact ⟨1, by rw [loop, h]⟩

/-- A loop that goes on in its first pass. -/
theorem exists_loop_of_next {u : σ} (h : pass s = .next u) :
    (∃ fuel, loop pass fuel s = some t) ↔ ∃ fuel, loop pass fuel u = some t := by
  constructor
  · rintro ⟨fuel, hl⟩
    cases fuel with
    | zero => cases hl
    | succ fuel =>
      rw [loop, h] at hl
      exact ⟨fuel, hl⟩
  · rintro ⟨fuel, hl⟩
    exact ⟨fuel + 1, by rw [loop, h]; exact hl⟩

/-- The loop is left, in a state with `Q`. -/
def EndsIn (pass : σ → Pass σ) (Q : σ → Prop) (s : σ) : Prop :=
  ∃ t, (∃ fuel, loop pass fuel s = some t) ∧ Q t

theorem endsIn_of_done {Q : σ → Prop} {u : σ} (h : pass s = .done u) :
    EndsIn pass Q s ↔ Q u := by
  simp only [EndsIn, exists_loop_of_done h, exists_eq_left']

theorem endsIn_of_next {Q : σ → Prop} {u : σ} (h : pass s = .next u) :
    EndsIn pass Q s ↔ EndsIn pass Q u := by
  simp only [EndsIn, exists_loop_of_next h]

/-- A loop that first goes on `n` times. -/
theorem loop_iterate {f : σ → σ} {n : ℕ} (h : ∀ j < n, pass (f^[j] s) = .next (f^[j + 1] s))
    (fuel : ℕ) : loop pass (fuel + n) s = loop pass fuel (f^[n] s) := by
  induction n generalizing fuel with
  | zero => rfl
  | succ n ih =>
    rw [show fuel + (n + 1) = fuel + 1 + n by omega,
      ih (fun j hj => h j (Nat.lt_succ_of_lt hj)), loop, h n (Nat.lt_succ_self n)]

theorem exists_loop_iterate {f : σ → σ} {n : ℕ}
    (h : ∀ j < n, pass (f^[j] s) = .next (f^[j + 1] s)) :
    (∃ fuel, loop pass fuel s = some t) ↔ ∃ fuel, loop pass fuel (f^[n] s) = some t := by
  constructor
  · rintro ⟨fuel, hl⟩
    exact ⟨fuel, (loop_iterate h fuel).symm.trans (loop_add hl n)⟩
  · rintro ⟨fuel, hl⟩
    exact ⟨fuel + n, (loop_iterate h fuel).trans hl⟩

/-- A loop follows another one pass by pass, and with it ends in related states. -/
theorem loop_follows {τ : Type*} {pass' : τ → Pass τ} {R Q : σ → τ → Prop}
    (h : ∀ s u, R s u →
      (∃ s' u', pass s = .next s' ∧ pass' u = .next u' ∧ R s' u') ∨
      (∃ s' u', pass s = .done s' ∧ pass' u = .done u' ∧ Q s' u'))
    {u u' : τ} (hs : R s u) {fuel : ℕ} (hl : loop pass' fuel u = some u') :
    ∃ t, loop pass fuel s = some t ∧ Q t u' := by
  induction fuel generalizing s u with
  | zero => cases hl
  | succ fuel ih =>
    rw [loop] at hl ⊢
    rcases h s u hs with ⟨s₁, u₁, hp, hp', hR⟩ | ⟨s₁, u₁, hp, hp', hQ⟩
    · rw [hp'] at hl
      rw [hp]
      exact ih hR hl
    · rw [hp'] at hl
      rw [hp]
      cases hl
      exact ⟨s₁, rfl, hQ⟩

end
end Lib
