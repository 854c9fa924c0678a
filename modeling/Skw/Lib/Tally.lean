import Mathlib.Data.Fintype.Card
import Mathlib.Logic.Function.Basic

/-! How many indices of a finite type are marked, and what setting one mark does to the number. -/
namespace Lib
variable {ι : Type*} [Fintype ι]

def tally (p : ι → Bool) : ℕ := (Finset.univ.filter fun i => p i = true).card

variable {p q : ι → Bool}

/-- Marks that differ at one index only. -/
theorem tally_of_eq_off (i : ι) (h : ∀ j, j ≠ i → q j = p j) :
    tally q + (p i).toNat = tally p + (q i).toNat := by
  classical
  have hoff : ∀ r : ι → Bool, tally r =
      ((Finset.univ.erase i).filter fun j => r j = true).card + (r i).toNat := by
    intro r
    rw [tally, ← Finset.insert_erase (Finset.mem_univ i), Finset.filter_insert]
    cases hr : r i with
    | false => simp
    | true => simp
  have hpq : (Finset.univ.erase i).filter (fun j => q j = true) =
      (Finset.univ.erase i).filter fun j => p j = true := by
    apply Finset.filter_congr
    intro j hj
    rw [h j (Finset.ne_of_mem_erase hj)]
  rw [hoff q, hoff p, hpq]
  omega

theorem tally_set {i : ι} (hp : p i = false) (hq : q i = true) (h : ∀ j, j ≠ i → q j = p j) :
    tally q = tally p + 1 := by
  simpa [hp, hq] using tally_of_eq_off i h

theorem tally_eq_zero : tally p = 0 ↔ ∀ i, p i = false := by
  simp [tally, Finset.filter_eq_empty_iff]

theorem tally_false : tally (fun _ : ι => false) = 0 := tally_eq_zero.mpr fun _ => rfl

/-- The number of marks, counted along a list of all indices. -/
theorem tally_eq_countP {l : List ι} (hn : l.Nodup) (hl : ∀ i, i ∈ l) : tally p = l.countP p := by
  classical
  have huniv : (Finset.univ : Finset ι) = l.toFinset := by
    ext i
    simp [hl i]
  rw [tally, huniv, ← List.toFinset_filter, List.toFinset_card_of_nodup (hn.filter _),
    List.countP_eq_length_filter]

/-- How often a value stands in the list of the values of all indices. -/
theorem count_filterMap_eq_tally {α : Type*} [DecidableEq α] {l : List ι} (hn : l.Nodup)
    (hl : ∀ i, i ∈ l) (f : ι → Option α) (a : α) :
    (l.filterMap f).count a = tally fun i => decide (f i = some a) := by
  rw [tally_eq_countP hn hl, List.count, List.countP_filterMap]
  apply List.countP_congr
  intro i _
  cases f i <;> simp

end Lib
