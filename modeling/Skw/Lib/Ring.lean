import Mathlib.Logic.Function.Basic
import Skw.Lib.Buffer

/-! A ring in flat memory: the bytes that it holds from an index on, and stores that go on at its
start where they pass its end. -/
namespace Lib
variable {β : Type*} {m : ℕ → β} {n a b j k : ℕ} {bytes : List β}

/-- The `k` bytes of a ring of size `n` from index `a` on. -/
def ringLoad (m : ℕ → β) (n a k : ℕ) : List β := (List.range k).map fun i => m ((a + i) % n)

@[simp] theorem length_ringLoad (m : ℕ → β) (n a k : ℕ) : (ringLoad m n a k).length = k := by
  simp [ringLoad]

theorem getElem_ringLoad {i : ℕ} (h : i < (ringLoad m n a k).length) :
    (ringLoad m n a k)[i] = m ((a + i) % n) := by
  simp [ringLoad]

/-- One turn more, an index is the same. -/
theorem mod_eq_ite (h : a < 2 * n) : a % n = if a < n then a else a - n := by
  split_ifs with hlt
  · exact Nat.mod_eq_of_lt hlt
  · rw [Nat.mod_eq_sub_mod (by omega), Nat.mod_eq_of_lt (by omega)]

theorem ringLoad_add (m : ℕ → β) (n a j k : ℕ) :
    ringLoad m n a (j + k) = ringLoad m n a j ++ ringLoad m n (a + j) k := by
  unfold ringLoad
  rw [List.range_add, List.map_append, List.map_map]
  congr 1
  exact List.map_congr_left fun i _ => by rw [Function.comp_apply, Nat.add_assoc]

theorem ringLoad_mod (m : ℕ → β) (n a k : ℕ) : ringLoad m n (a % n) k = ringLoad m n a k := by
  unfold ringLoad
  exact List.map_congr_left fun i _ => by rw [Nat.mod_add_mod]

/-- Bytes that do not pass the end of the ring are loaded at once. -/
theorem load_eq_ringLoad (h : a + k ≤ n) : load m a k = ringLoad m n a k := by
  unfold load ringLoad
  apply List.map_congr_left
  intro i hi
  have hi := List.mem_range.mp hi
  rw [Nat.mod_eq_of_lt (by omega)]

/-- Bytes that pass the end are loaded in two pieces. -/
theorem load_append_load (h : a ≤ n) (hk : n - a ≤ k) (hle : k ≤ n) :
    load m a (n - a) ++ load m 0 (k - (n - a)) = ringLoad m n a k := by
  have hstart : ringLoad m n 0 (k - (n - a)) = ringLoad m n (a + (n - a)) (k - (n - a)) := by
    rw [← ringLoad_mod m n (a + (n - a)), Nat.add_sub_cancel' h, Nat.mod_self]
  rw [load_eq_ringLoad (show a + (n - a) ≤ n by omega),
    load_eq_ringLoad (show 0 + (k - (n - a)) ≤ n by omega), hstart, ← ringLoad_add,
    Nat.add_sub_cancel' hk]

/-- The memory after bytes are stored in a ring from index `a` on. -/
def ringStore (m : ℕ → β) (n a : ℕ) (bytes : List β) : ℕ → β :=
  if bytes.length < n - a then store m a bytes
  else store (store m a (bytes.take (n - a))) 0 (bytes.drop (n - a))

/-- A byte of the ring is the one stored at its distance from the index. -/
theorem ringStore_apply (ha : a < n) (hl : bytes.length ≤ n) {i : ℕ} (hi : i < n) :
    ringStore m n a bytes i = (bytes[(i + n - a) % n]?).getD (m i) := by
  rw [mod_eq_ite (show i + n - a < 2 * n by omega)]
  unfold ringStore
  by_cases hw : bytes.length < n - a
  · rw [if_pos hw]
    unfold store
    by_cases hai : a ≤ i
    · rw [if_pos hai, if_neg (by omega), show i + n - a - n = i - a by omega]
    · have hnone : bytes[i + n - a]? = none := List.getElem?_eq_none (by omega)
      rw [if_neg hai, if_pos (by omega), hnone, Option.getD_none]
  · rw [if_neg hw]
    unfold store
    rw [if_pos (Nat.zero_le i), Nat.sub_zero, List.getElem?_drop]
    by_cases hai : a ≤ i
    · have hnone : bytes[n - a + i]? = none := List.getElem?_eq_none (by omega)
      rw [if_pos hai, if_neg (by omega), hnone, Option.getD_none, List.getElem?_take_of_lt (by omega),
        show i + n - a - n = i - a by omega]
    · rw [if_neg hai, if_pos (by omega), show n - a + i = i + n - a by omega]

/-- The stored bytes are those that the ring then holds from the index on. -/
theorem ringLoad_ringStore_self (ha : a < n) (hl : bytes.length ≤ n) :
    ringLoad (ringStore m n a bytes) n a bytes.length = bytes := by
  apply List.ext_getElem (by simp)
  intro i hi hb
  have hn : (a + i) % n < n := Nat.mod_lt _ (by omega)
  have hdist : ((a + i) % n + n - a) % n = i := by
    rw [mod_eq_ite (show a + i < 2 * n by omega)]
    split_ifs with hlt
    · rw [show a + i + n - a = i + n by omega, Nat.add_mod_right, Nat.mod_eq_of_lt (by omega)]
    · rw [show a + i - n + n - a = i by omega, Nat.mod_eq_of_lt (by omega)]
  rw [getElem_ringLoad, ringStore_apply ha hl hn, hdist,
    List.getElem?_eq_getElem hb, Option.getD_some]

/-- What the ring holds before the index stays, as long as the stored bytes do not get there. -/
theorem ringLoad_ringStore_of_le (hb : b < n) (ha : a = (b + j) % n)
    (hj : j + bytes.length ≤ n) (hlt : j < n) :
    ringLoad (ringStore m n a bytes) n b j = ringLoad m n b j := by
  unfold ringLoad
  apply List.map_congr_left
  intro i hi
  have hi := List.mem_range.mp hi
  have han : a < n := ha ▸ Nat.mod_lt _ (by omega)
  have hn : (b + i) % n < n := Nat.mod_lt _ (by omega)
  have hdist : bytes.length ≤ ((b + i) % n + n - a) % n := by
    rw [mod_eq_ite (show (b + i) % n + n - a < 2 * n by omega)]
    rw [mod_eq_ite (show b + j < 2 * n by omega)] at ha
    rw [mod_eq_ite (show b + i < 2 * n by omega)] at hn ⊢
    split_ifs at ha hn ⊢ <;> omega
  rw [ringStore_apply han (by omega) hn, List.getElem?_eq_none hdist, Option.getD_none]

/-- A byte that is stored behind those that the ring holds from an index on. -/
theorem ringLoad_update (m : ℕ → β) (b : ℕ) (x : β) (h : j < n) :
    ringLoad (Function.update m ((b + j) % n) x) n b (j + 1) = ringLoad m n b j ++ [x] := by
  have hlast : ringLoad (Function.update m ((b + j) % n) x) n (b + j) 1 = [x] := by
    simp [ringLoad]
  rw [ringLoad_add, hlast]
  congr 1
  unfold ringLoad
  apply List.map_congr_left
  intro i hi
  have hi := List.mem_range.mp hi
  have hne : (b + i) % n ≠ (b + j) % n := by
    intro heq
    have hdvd : n ∣ b + j - (b + i) := (Nat.modEq_iff_dvd' (by omega)).mp heq
    have := Nat.le_of_dvd (by omega) hdvd
    omega
  rw [Function.update_of_ne hne]

end Lib
