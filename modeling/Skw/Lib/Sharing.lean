import Mathlib.Logic.Function.Basic
import Mathlib.Data.List.Nodup

/-! What concurrent calls share: spin locks, each with counts of how often it was taken and
released, and lists that have no element in common. -/
namespace Lib
variable {ι κ π : Type*}

structure Lock where
  taken : ℕ
  released : ℕ
deriving DecidableEq

namespace Lock

def Free (l : Lock) : Prop := l.taken = l.released

instance (l : Lock) : Decidable l.Free := inferInstanceAs (Decidable (_ = _))

def take (l : Lock) : Lock := { l with taken := l.taken + 1 }

def drop (l : Lock) : Lock := { l with released := l.released + 1 }

end Lock

/-- Every lock was released as often as it was taken, but for a lock that one call holds, which
was taken once more. -/
structure Locked (c : ι → Lock) (holds : κ → Option ι) : Prop where
  free : ∀ i, (∀ k, holds k ≠ some i) → (c i).Free
  held : ∀ k i, holds k = some i → (c i).taken = (c i).released + 1
  one : ∀ j k i, holds j = some i → holds k = some i → j = k

namespace Locked
variable {c : ι → Lock} {holds : κ → Option ι} {i : ι} {k : κ}

theorem not_held (h : Locked c holds) (hf : (c i).Free) (k : κ) : holds k ≠ some i := by
  intro hk
  have := h.held k i hk
  unfold Lock.Free at hf
  omega

/-- No lock is released more often than it was taken. -/
theorem released_le (h : Locked c holds) (i : ι) : (c i).released ≤ (c i).taken := by
  by_cases hk : ∃ k, holds k = some i
  · obtain ⟨k, hk⟩ := hk
    have := h.held k i hk
    omega
  · exact Nat.le_of_eq (h.free i fun k hi => hk ⟨k, hi⟩).symm

variable [DecidableEq ι] [DecidableEq κ]

omit [DecidableEq ι] in
theorem keep (h : Locked c holds) {o : Option ι} (ho : o = holds k) :
    Locked c (Function.update holds k o) := by
  rw [ho, Function.update_eq_self]
  exact h

theorem take (h : Locked c holds) (hf : (c i).Free) (hk : holds k = none) :
    Locked (Function.update c i (c i).take) (Function.update holds k (some i)) := by
  have hno := h.not_held hf
  constructor
  · intro j hj
    have hne : j ≠ i := fun hji => hj k (by simp [hji])
    rw [Function.update_of_ne hne]
    refine h.free j fun l hl => hj l ?_
    have hlk : l ≠ k := fun hlk => by simp [hlk, hk] at hl
    rwa [Function.update_of_ne hlk]
  · intro l j hl
    rcases eq_or_ne l k with rfl | hlk
    · simp only [Function.update_self, Option.some.injEq] at hl
      subst hl
      unfold Lock.Free at hf
      simp [Lock.take, hf]
    · rw [Function.update_of_ne hlk] at hl
      have hne : j ≠ i := fun hji => hno l (hji ▸ hl)
      rw [Function.update_of_ne hne]
      exact h.held l j hl
  · intro l m j hl hm
    by_cases hlk : l = k <;> by_cases hmk : m = k
    · exact hlk.trans hmk.symm
    · rw [hlk, Function.update_self, Option.some.injEq] at hl
      rw [Function.update_of_ne hmk] at hm
      exact absurd (hl ▸ hm) (hno m)
    · rw [hmk, Function.update_self, Option.some.injEq] at hm
      rw [Function.update_of_ne hlk] at hl
      exact absurd (hm ▸ hl) (hno l)
    · rw [Function.update_of_ne hlk] at hl
      rw [Function.update_of_ne hmk] at hm
      exact h.one l m j hl hm

theorem drop (h : Locked c holds) (hk : holds k = some i) :
    Locked (Function.update c i (c i).drop) (Function.update holds k none) := by
  have hheld := h.held k i hk
  constructor
  · intro j hj
    rcases eq_or_ne j i with rfl | hne
    · simp [Lock.Free, Lock.drop, hheld]
    · rw [Function.update_of_ne hne]
      refine h.free j fun l hl => hj l ?_
      have hlk : l ≠ k := fun hlk => hne (Option.some.inj ((hlk ▸ hl).symm.trans hk))
      rwa [Function.update_of_ne hlk]
  · intro l j hl
    rcases eq_or_ne l k with rfl | hlk
    · simp at hl
    · rw [Function.update_of_ne hlk] at hl
      have hne : j ≠ i := fun hji => hlk (h.one l k i (hji ▸ hl) hk)
      rw [Function.update_of_ne hne]
      exact h.held l j hl
  · intro l m j hl hm
    rcases eq_or_ne l k with rfl | hlk
    · simp at hl
    · rcases eq_or_ne m k with rfl | hmk
      · simp at hm
      · rw [Function.update_of_ne hlk] at hl
        rw [Function.update_of_ne hmk] at hm
        exact h.one l m j hl hm

end Locked

/-- No element is in two of the lists, or twice in one. -/
structure Scattered (f : π → List ι) : Prop where
  nodup : ∀ p, (f p).Nodup
  one : ∀ p q i, i ∈ f p → i ∈ f q → p = q

/-- The element is taken out of the list that it is in. -/
def unlink [DecidableEq ι] (f : π → List ι) (i : ι) (p : π) : List ι := (f p).erase i

namespace Scattered
variable {f : π → List ι} {i j : ι} {p q : π}

section
variable [DecidableEq ι]

theorem mem_unlink (h : Scattered f) : j ∈ Lib.unlink f i p ↔ j ≠ i ∧ j ∈ f p :=
  (h.nodup p).mem_erase_iff

theorem unlink (h : Scattered f) (i : ι) : Scattered (Lib.unlink f i) where
  nodup p := (h.nodup p).erase i
  one p q j hp hq := h.one p q j (h.mem_unlink.mp hp).2 (h.mem_unlink.mp hq).2

end

section
variable [DecidableEq π]

theorem push (h : Scattered f) (hi : ∀ q, i ∉ f q) (p : π) :
    Scattered (Function.update f p (f p ++ [i])) := by
  have hmem : ∀ q j, j ∈ Function.update f p (f p ++ [i]) q → j ∈ f q ∨ j = i ∧ q = p := by
    intro q j hj
    rcases eq_or_ne q p with rfl | hq
    · simpa using hj
    · rw [Function.update_of_ne hq] at hj
      exact .inl hj
  constructor
  · intro q
    rcases eq_or_ne q p with rfl | hq
    · simp only [Function.update_self]
      exact (h.nodup q).append (List.nodup_singleton i)
        (List.disjoint_singleton.mpr (hi q))
    · rw [Function.update_of_ne hq]
      exact h.nodup q
  · intro q r j hq hr
    rcases hmem q j hq with hq' | ⟨hji, hqp⟩ <;> rcases hmem r j hr with hr' | ⟨hji', hrp⟩
    · exact h.one q r j hq' hr'
    · exact absurd (hji' ▸ hq') (hi q)
    · exact absurd (hji ▸ hr') (hi r)
    · exact hqp.trans hrp.symm

/-- A whole list moves to an empty one. -/
theorem splice (h : Scattered f) (hq : f q = []) (hpq : p ≠ q) :
    Scattered (Function.update (Function.update f p []) q (f p)) := by
  have hmem : ∀ r j, j ∈ Function.update (Function.update f p []) q (f p) r →
      r = q ∧ j ∈ f p ∨ r ≠ p ∧ j ∈ f r := by
    intro r j hj
    rcases eq_or_ne r q with rfl | hrq
    · exact .inl ⟨rfl, by simpa using hj⟩
    · rw [Function.update_of_ne hrq] at hj
      rcases eq_or_ne r p with rfl | hrp
      · simp at hj
      · exact .inr ⟨hrp, by rwa [Function.update_of_ne hrp] at hj⟩
  constructor
  · intro r
    rcases eq_or_ne r q with rfl | hrq
    · simpa using h.nodup p
    · rw [Function.update_of_ne hrq]
      rcases eq_or_ne r p with rfl | hrp
      · simp
      · rw [Function.update_of_ne hrp]
        exact h.nodup r
  · intro r s j hr hs
    rcases hmem r j hr with ⟨hrq, hr'⟩ | ⟨hrp, hr'⟩ <;>
      rcases hmem s j hs with ⟨hsq, hs'⟩ | ⟨hsp, hs'⟩
    · exact hrq.trans hsq.symm
    · exact absurd (h.one p s j hr' hs').symm hsp
    · exact absurd (h.one p r j hs' hr').symm hrp
    · exact h.one r s j hr' hs'

end

end Scattered
end Lib
