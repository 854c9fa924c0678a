import Mathlib.Logic.Function.Basic

/-! Numbers that are allocated to owners. A number is in use exactly when an owner holds it, and
no two owners hold the same. -/
namespace Lib
variable {α ι : Type*}

structure Allocated (used : ι → Prop) (held : α → Option ι) : Prop where
  used_iff : ∀ n, used n ↔ ∃ a, held a = some n
  inj : ∀ a b n, held a = some n → held b = some n → a = b

namespace Allocated
variable [DecidableEq α] {used used' : ι → Prop} {held held' : α → Option ι} {a : α} {n : ι}

omit [DecidableEq α] in
theorem congr (h : Allocated used held) (hu : ∀ n, used' n ↔ used n)
    (hh : ∀ a, held' a = held a) : Allocated used' held' := by
  have hh : held' = held := funext hh
  subst hh
  exact ⟨fun n => (hu n).trans (h.used_iff n), h.inj⟩

/-- An owner gives back what it holds. -/
theorem release (h : Allocated used held) (hu : ∀ n, used' n ↔ used n ∧ held a ≠ some n)
    (hh : held' = Function.update held a none) : Allocated used' held' := by
  subst hh
  have hof : ∀ b n, Function.update held a none b = some n → b ≠ a ∧ held b = some n := by
    intro b n hb
    rcases eq_or_ne b a with rfl | hne
    · simp at hb
    · exact ⟨hne, by rwa [Function.update_of_ne hne] at hb⟩
  constructor
  · intro n
    rw [hu, h.used_iff]
    constructor
    · rintro ⟨⟨b, hb⟩, ha⟩
      have hne : b ≠ a := fun he => ha (he ▸ hb)
      exact ⟨b, by rwa [Function.update_of_ne hne]⟩
    · rintro ⟨b, hb⟩
      obtain ⟨hne, hb⟩ := hof b n hb
      exact ⟨⟨b, hb⟩, fun ha => hne (h.inj b a n hb ha)⟩
  · intro b c n hb hc
    exact h.inj b c n (hof b n hb).2 (hof c n hc).2

/-- An owner without a number takes one that is not in use. -/
theorem take (h : Allocated used held) (hn : ¬ used n) (ha : held a = none)
    (hu : ∀ m, used' m ↔ used m ∨ m = n) (hh : held' = Function.update held a (some n)) :
    Allocated used' held' := by
  subst hh
  have hof : ∀ b m, Function.update held a (some n) b = some m →
      b = a ∧ m = n ∨ b ≠ a ∧ held b = some m := by
    intro b m hb
    rcases eq_or_ne b a with rfl | hne
    · rw [Function.update_self] at hb
      exact .inl ⟨rfl, (Option.some.inj hb).symm⟩
    · exact .inr ⟨hne, by rwa [Function.update_of_ne hne] at hb⟩
  have hfree : ∀ b, held b ≠ some n := fun b hb => hn ((h.used_iff n).mpr ⟨b, hb⟩)
  constructor
  · intro m
    rw [hu, h.used_iff]
    constructor
    · rintro (⟨b, hb⟩ | rfl)
      · have hne : b ≠ a := fun he => by rw [he, ha] at hb; cases hb
        exact ⟨b, by rwa [Function.update_of_ne hne]⟩
      · exact ⟨a, Function.update_self ..⟩
    · rintro ⟨b, hb⟩
      rcases hof b m hb with ⟨-, rfl⟩ | ⟨-, hb⟩
      · exact .inr rfl
      · exact .inl ⟨b, hb⟩
  · intro b c m hb hc
    rcases hof b m hb with ⟨rfl, rfl⟩ | ⟨-, hb'⟩ <;> rcases hof c _ hc with ⟨rfl, hm⟩ | ⟨-, hc'⟩
    · rfl
    · exact absurd hc' (hfree c)
    · exact absurd (hm ▸ hb') (hfree b)
    · exact h.inj b c m hb' hc'

end Allocated
end Lib
