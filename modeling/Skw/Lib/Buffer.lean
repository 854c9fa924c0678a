import Mathlib.Data.List.Basic
import Mathlib.Data.Nat.ModEq

/-! Flat memory with stores of whole byte strings, and the indices of a ring that is addressed
by a running count modulo its size. -/
namespace Lib
variable {β : Type*}

/-- `bytes` stored at address `a`. -/
def store (m : ℕ → β) (a : ℕ) (bytes : List β) (i : ℕ) : β :=
  if a ≤ i then (bytes[i - a]?).getD (m i) else m i

/-- The `n` bytes at address `a`. -/
def load (m : ℕ → β) (a n : ℕ) : List β := (List.range n).map fun i => m (a + i)

@[simp] theorem length_load (m : ℕ → β) (a n : ℕ) : (load m a n).length = n := by
  simp [load]

theorem getElem?_load (m : ℕ → β) (a : ℕ) {n i : ℕ} (h : i < n) :
    (load m a n)[i]? = some (m (a + i)) := by
  simp [load, h]

theorem store_of_lt {m : ℕ → β} {a i : ℕ} {bytes : List β} (h : i < a) :
    store m a bytes i = m i := by
  simp [store, Nat.not_le.mpr h]

theorem store_of_ge {m : ℕ → β} {a i : ℕ} {bytes : List β} (h : a + bytes.length ≤ i) :
    store m a bytes i = m i := by
  have hn : bytes[i - a]? = none := List.getElem?_eq_none (by omega)
  simp [store, hn]

theorem load_store_self (m : ℕ → β) (a : ℕ) (bytes : List β) :
    load (store m a bytes) a bytes.length = bytes := by
  refine List.ext_getElem (by simp) fun i hi hb => ?_
  simp [load, store, hb]

/-- A store beside what is loaded does not change it. -/
theorem load_store_disjoint {m : ℕ → β} {a b n : ℕ} {bytes : List β}
    (h : a + n ≤ b ∨ b + bytes.length ≤ a) : load (store m b bytes) a n = load m a n := by
  refine List.map_congr_left fun i hi => ?_
  have hi := List.mem_range.mp hi
  rcases h with h | h
  · exact store_of_lt (by omega)
  · exact store_of_ge (by omega)

theorem load_add (m : ℕ → β) (a n k : ℕ) : load m a (n + k) = load m a n ++ load m (a + n) k := by
  simp [load, List.range_add, Nat.add_assoc]

/-- A single byte that is stored, in what is loaded around it. -/
theorem load_store_singleton (m : ℕ → β) (a i n : ℕ) (x : β) :
    load (store m (a + i) [x]) a n = (load m a n).set i x := by
  refine List.ext_getElem (by simp) fun j hj hj' => ?_
  rw [List.getElem_set]
  rcases Nat.lt_trichotomy j i with h | rfl | h
  · rw [if_neg h.ne']
    simp [load, store_of_lt (show a + j < a + i by omega)]
  · simp [load, store]
  · rw [if_neg h.ne]
    simp [load, store_of_ge (show a + i + [x].length ≤ a + j by rw [List.length_singleton]; omega)]

/-- Less than one turn apart, two counts share their place in the ring only when equal. -/
theorem mod_inj_of_lt {n a b : ℕ} (hab : a ≤ b) (hb : b < a + n) (h : a % n = b % n) : a = b := by
  have hz : (b - a) % n = 0 := (Nat.modEq_iff_dvd' hab).mp h |> Nat.mod_eq_zero_of_dvd
  rw [Nat.mod_eq_of_lt (by omega)] at hz
  omega

/-- Every index is that of one of `n` counts in a row. -/
theorem exists_mod_eq {n i : ℕ} (a : ℕ) (hi : i < n) : ∃ j < n, (a + j) % n = i := by
  have hn : 0 < n := by omega
  have hmod := Nat.mod_lt a hn
  refine ⟨(i + n - a % n) % n, Nat.mod_lt _ hn, ?_⟩
  rw [Nat.add_mod_mod, ← Nat.mod_add_mod, show a % n + (i + n - a % n) = i + n by omega,
    Nat.add_mod_right, Nat.mod_eq_of_lt hi]

theorem mod_ne_of_lt {n a b : ℕ} (hab : a < b) (hb : b < a + n) : a % n ≠ b % n :=
  fun h => hab.ne (mod_inj_of_lt hab.le hb h)

/-- Different cells of size `p`, filled up to `l` and to `n`, do not overlap. -/
theorem cells_disjoint {a b p l n : ℕ} (h : a ≠ b) (hl : l ≤ p) (hn : n ≤ p) :
    a * p + l ≤ b * p ∨ b * p + n ≤ a * p := by
  rcases Nat.lt_or_gt_of_ne h with h | h
  · have := Nat.mul_le_mul_right p (Nat.succ_le_of_lt h)
    rw [Nat.succ_mul] at this
    omega
  · have := Nat.mul_le_mul_right p (Nat.succ_le_of_lt h)
    rw [Nat.succ_mul] at this
    omega

end Lib
