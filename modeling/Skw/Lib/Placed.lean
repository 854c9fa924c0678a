import Mathlib.Logic.ExistsUnique
import Mathlib.Logic.Function.Basic
import Mathlib.Data.Set.Card
import Mathlib.Data.List.Nodup

/-! Items that are handed from place to place. Each one is at exactly one place at a time. Places
are lists, which items leave at the front and join at the end, and the hands of workers. -/
namespace Lib
variable {ι π : Type*}

/-- `At i p` says that item `i` is at place `p`. -/
structure Placed (items : ι → Prop) (At : ι → π → Prop) : Prop where
  one : ∀ i, items i → ∃! p, At i p
  item : ∀ i p, At i p → items i

/-- The first element leaves a list. -/
theorem mem_pop {l l' : List ι} {i : ι} (hn : l.Nodup) (hl : l = i :: l') (j : ι) :
    j ∈ l' ↔ j ≠ i ∧ j ∈ l := by
  rw [hl, List.nodup_cons] at hn
  rw [hl, List.mem_cons]
  constructor
  · intro hj
    exact ⟨fun he => hn.1 (he ▸ hj), .inr hj⟩
  · rintro ⟨hne, hj⟩
    exact hj.resolve_left hne

/-- An element joins a list at its end. -/
theorem mem_push (l : List ι) (i j : ι) : j ∈ l ++ [i] ↔ j = i ∨ j ∈ l := by
  rw [List.mem_append, List.mem_singleton, or_comm]

theorem nodup_push {l : List ι} {i : ι} (hn : l.Nodup) (hi : i ∉ l) : (l ++ [i]).Nodup := by
  rw [← List.concat_eq_append]
  exact hn.concat hi

section
variable {κ σ : Type*} [DecidableEq κ] (hand : σ → Option ι) {f : κ → σ} {k k' : κ} {x : σ} {i : ι}

/-- One worker goes on, and the hands of all others stay as they are. -/
theorem hand_update (f : κ → σ) (k k' : κ) (x : σ) :
    hand (Function.update f k x k') = if k' = k then hand x else hand (f k') := by
  rw [Function.update_apply, apply_ite hand]

theorem hand_of_ne (hk : k' ≠ k) (j : ι) :
    hand (Function.update f k x k') = some j ↔ hand (f k') = some j := by
  rw [hand_update hand, if_neg hk]

/-- A worker goes on with what it has. -/
theorem hand_keep (hx : hand x = hand (f k)) (k' : κ) :
    hand (Function.update f k x k') = hand (f k') := by
  rw [hand_update hand]
  split_ifs with hk
  · rw [hx, hk]
  · rfl

/-- A worker takes an item. -/
theorem hand_take (hk : hand (f k) = none) (hx : hand x = some i) (j : ι) :
    hand (Function.update f k x k) = some j ↔ j = i ∨ hand (f k) = some j := by
  rw [hand_update hand, if_pos rfl, hx, hk, or_iff_left nofun, eq_comm]
  exact Option.some_inj

/-- A worker puts its item away. -/
theorem hand_leave (hk : hand (f k) = some i) (hx : hand x = none) (j : ι) :
    hand (Function.update f k x k) = some j ↔ j ≠ i ∧ hand (f k) = some j := by
  rw [hand_update hand, if_pos rfl, hx, hk, Option.some_inj, eq_comm (a := i)]
  exact iff_of_false nofun fun h => h.1 h.2

end

namespace Placed
variable {items : ι → Prop} {At At' : ι → π → Prop} {i : ι} {p q : π}

theorem eq (h : Placed items At) (hp : At i p) (hq : At i q) : p = q :=
  (h.one i (h.item i p hp)).unique hp hq

theorem congr (h : Placed items At) (ha : ∀ i p, At' i p ↔ At i p) : Placed items At' := by
  have heq : At' = At := funext fun i => funext fun p => propext (ha i p)
  rw [heq]
  exact h

/-- An item goes from one place to another. -/
theorem move (h : Placed items At) (hi : At i p) (hpq : p ≠ q)
    (hfrom : ∀ j, At' j p ↔ j ≠ i ∧ At j p) (hto : ∀ j, At' j q ↔ j = i ∨ At j q)
    (hoff : ∀ r, r ≠ p → r ≠ q → ∀ j, At' j r ↔ At j r) : Placed items At' := by
  have hkeep : ∀ j r, j ≠ i → (At' j r ↔ At j r) := by
    intro j r hj
    by_cases hrp : r = p
    · subst hrp
      exact (hfrom j).trans (and_iff_right hj)
    · by_cases hrq : r = q
      · subst hrq
        exact (hto j).trans (or_iff_right hj)
      · exact hoff r hrp hrq j
  have hmoved : ∀ r, At' i r → r = q := by
    intro r hr
    by_contra hrq
    by_cases hrp : r = p
    · subst hrp
      exact ((hfrom i).mp hr).1 rfl
    · exact hrp (h.eq ((hoff r hrp hrq i).mp hr) hi)
  constructor
  · intro j hj
    by_cases hji : j = i
    · subst hji
      exact ⟨q, (hto j).mpr (.inl rfl), hmoved⟩
    · obtain ⟨r, hr, hu⟩ := h.one j hj
      exact ⟨r, (hkeep j r hji).mpr hr, fun r' hr' => hu r' ((hkeep j r' hji).mp hr')⟩
  · intro j r hr
    by_cases hji : j = i
    · subst hji
      exact h.item j p hi
    · exact h.item j r ((hkeep j r hji).mp hr)

/-- Of `n` items, those that are not in a list at one place are at the other places. -/
theorem ncard_add_length {n : ℕ} {At : ℕ → π → Prop} {l : List ℕ} (h : Placed (· < n) At)
    (hl : l.Nodup) (hp : ∀ i, i ∈ l ↔ At i p) :
    {i | ∃ q, q ≠ p ∧ At i q}.ncard + l.length = n := by
  have hlist : l.length = (l.toFinset : Set ℕ).ncard := by
    rw [Set.ncard_coe_finset, List.toFinset_card_of_nodup hl]
  have hdisj : Disjoint {i | ∃ q, q ≠ p ∧ At i q} (l.toFinset : Set ℕ) := by
    rw [Set.disjoint_left]
    rintro i ⟨q, hqp, hq⟩ hi
    exact hqp (h.eq hq ((hp i).mp (List.mem_toFinset.mp hi)))
  have hunion : {i | ∃ q, q ≠ p ∧ At i q} ∪ (l.toFinset : Set ℕ) = (Finset.range n : Set ℕ) := by
    ext i
    simp only [Set.mem_union, Set.mem_ofPred_eq, Finset.mem_coe, List.mem_toFinset,
      Finset.mem_range]
    constructor
    · rintro (⟨q, -, hq⟩ | hi)
      · exact h.item i q hq
      · exact h.item i p ((hp i).mp hi)
    · intro hi
      obtain ⟨q, hq, -⟩ := h.one i hi
      by_cases hqp : q = p
      · exact .inr ((hp i).mpr (hqp ▸ hq))
      · exact .inl ⟨q, hqp, hq⟩
  have hfin : {i | ∃ q, q ≠ p ∧ At i q}.Finite :=
    (Finset.finite_toSet (Finset.range n)).subset (hunion ▸ Set.subset_union_left)
  rw [hlist, ← Set.ncard_union_eq hdisj hfin, hunion, Set.ncard_coe_finset, Finset.card_range]

end Placed
end Lib
