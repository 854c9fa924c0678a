import Mathlib.Data.Nat.Basic
import Skw.Lib.Machine

/-! Accounts of a machine's runs. What a run spends is covered by what its events grant, where a
potential of the state covers the difference in each step. -/
namespace Lib
variable {σ ε : Type*} {step : σ → ε → Option σ}

/-- What the events of a run grant, each in the state in which it comes. -/
def granted (step : σ → ε → Option σ) (grant : σ → ε → ℕ) : σ → List ε → ℕ
  | _, [] => 0
  | s, e :: es => grant s e + ((step s e).map fun t => granted step grant t es).getD 0

/-- The rule of the potential. -/
theorem exec_spent {I : σ → Prop} {grant : σ → ε → ℕ} {φ spent : σ → ℕ}
    (hI : ∀ s e t, I s → step s e = some t → I t)
    (h : ∀ s e t, I s → step s e = some t → spent t + φ t ≤ spent s + φ s + grant s e)
    {s t : σ} {es : List ε} (hs : I s) (ht : exec step s es = some t) :
    spent t + φ t ≤ spent s + φ s + granted step grant s es := by
  induction es generalizing s with
  | nil =>
    cases ht
    exact le_refl _
  | cons e es ih =>
    obtain ⟨u, hu, ht⟩ := Option.bind_eq_some_iff.mp ht
    have hstep := h s e u hs hu
    have hrest := ih (hI s e u hs hu) ht
    rw [granted, hu, Option.map_some, Option.getD_some]
    omega

end Lib
