import Mathlib.Data.List.Perm.Basic

/-! Pools of elements: a free list, with an allocator behind it that is asked when the list is
empty. An element is the number of the call that it came from. -/
namespace Lib

structure Pool where
  free : List ℕ
  calls : ℕ
deriving DecidableEq

namespace Pool

def put (p : Pool) (a : ℕ) : Pool := { p with free := a :: p.free }

def putAll (p : Pool) (as : List ℕ) : Pool := as.foldl put p

/-- The first free element, or else a new one if the allocator has one. -/
def get (alloc : ℕ → Bool) (p : Pool) : Option ℕ × Pool :=
  match p.free with
  | a :: free => (some a, { p with free })
  | [] => (if alloc p.calls then some p.calls else none, { p with calls := p.calls + 1 })

/-- An allocator that never fails. -/
theorem get_always (p : Pool) : ∃ a q, p.get (fun _ => true) = (some a, q) := by
  unfold get
  split
  · exact ⟨_, _, rfl⟩
  · exact ⟨_, _, rfl⟩

/-- Every element that was allocated is in one place, either free or held, and nothing else is. -/
def Balanced (alloc : ℕ → Bool) (p : Pool) (held : List ℕ) : Prop :=
  ∀ a, p.free.count a + held.count a = if a < p.calls ∧ alloc a = true then 1 else 0

namespace Balanced
variable {alloc : ℕ → Bool} {p q : Pool} {held held' : List ℕ} {a : ℕ}

theorem start : Balanced alloc ⟨[], 0⟩ [] := fun _ => by simp

theorem perm (h : Balanced alloc p held) (hp : held'.Perm held) : Balanced alloc p held' :=
  fun a => hp.count_eq a ▸ h a

/-- What is held is determined by the pool. -/
theorem unique (h : Balanced alloc p held) (h' : Balanced alloc p held') : held.Perm held' := by
  apply List.perm_iff_count.mpr
  intro a
  have := h a
  have := h' a
  omega

theorem put (h : Balanced alloc p (a :: held)) : Balanced alloc (p.put a) held := by
  intro b
  refine Eq.trans ?_ (h b)
  simp only [List.count_cons, Pool.put]
  omega

theorem putAll {as : List ℕ} (h : Balanced alloc p (as ++ held)) :
    Balanced alloc (p.putAll as) held := by
  induction as generalizing p with
  | nil => exact h
  | cons a as ih => exact ih h.put

theorem get_some (h : Balanced alloc p held) (hg : p.get alloc = (some a, q)) :
    Balanced alloc q (a :: held) := by
  intro b
  have hb := h b
  unfold Pool.get at hg
  split at hg
  · next a' free hfree =>
    cases hg
    refine Eq.trans ?_ hb
    rw [hfree, List.count_cons, List.count_cons]
    dsimp only
    omega
  · next hfree =>
    split_ifs at hg with ha
    · cases hg
      rw [hfree, List.count_nil] at hb ⊢
      rw [List.count_cons, Nat.zero_add]
      by_cases hba : b = p.calls
      · subst hba
        have hnot : held.count p.calls = 0 := by simpa using hb
        simp [ha, hnot]
      · have hlt : b < p.calls + 1 ↔ b < p.calls := by omega
        simp only [hlt]
        have hne : ¬p.calls = b := fun he => hba he.symm
        simpa [hne] using hb
    · cases hg

theorem get_none (h : Balanced alloc p held) (hg : p.get alloc = (none, q)) :
    Balanced alloc q held := by
  intro b
  unfold Pool.get at hg
  split at hg
  · cases hg
  · next hfree =>
    split_ifs at hg with ha
    · cases hg
    · cases hg
      refine Eq.trans ?_ ((h b).trans ?_)
      · rw [hfree]
      · have hlt : (b < p.calls + 1 ∧ alloc b = true) ↔ b < p.calls ∧ alloc b = true := by
          apply and_congr_left
          intro hb
          have : b ≠ p.calls := fun he => ha (he ▸ hb)
          omega
        simp only [hlt]

end Balanced
end Pool
end Lib
