import Mathlib.Data.List.TakeWhile
import Mathlib.Data.List.TakeDrop
import Mathlib.Tactic.Linarith

/-! Buffers of a fixed size, read and written in pieces that must lie inside, and the string that
one holds: what stands before the first terminator. -/
namespace Lib
variable {α : Type*} {n : ℕ}

@[ext]
structure Fixed (α : Type*) (n : ℕ) where
  cells : List α
  length_cells : cells.length = n
deriving DecidableEq

namespace Fixed

def fill (n : ℕ) (a : α) : Fixed α n := ⟨List.replicate n a, List.length_replicate⟩

def read (b : Fixed α n) (i len : ℕ) : Option (List α) :=
  if i + len ≤ n then some ((b.cells.drop i).take len) else none

def write (b : Fixed α n) (i : ℕ) (s : List α) : Option (Fixed α n) :=
  if h : i + s.length ≤ n then
    some
      { cells := b.cells.take i ++ s ++ b.cells.drop (i + s.length)
        length_cells := by
          have := b.length_cells
          simp only [List.length_append, List.length_take, List.length_drop]
          omega }
  else none

/-- The string in the buffer, if it ends there. -/
def string [DecidableEq α] (z : α) (b : Fixed α n) : Option (List α) :=
  if z ∈ b.cells then some (b.cells.takeWhile (· ≠ z)) else none

variable {b c : Fixed α n} {s t : List α} {i len : ℕ}

theorem isSome_write_iff : (b.write i s).isSome ↔ i + s.length ≤ n := by
  unfold write
  split_ifs with h
  · simp [h]
  · simp [h]

theorem cells_of_write (h : b.write i s = some c) :
    c.cells = b.cells.take i ++ s ++ b.cells.drop (i + s.length) := by
  unfold write at h
  split_ifs at h
  rw [← Option.some.inj h]

theorem exists_write (b : Fixed α n) (h : i + s.length ≤ n) : ∃ c, b.write i s = some c :=
  Option.isSome_iff_exists.1 (isSome_write_iff.2 h)

/-- A piece of a buffer is found at its place. -/
theorem read_of_cells {u : List α} (h : b.cells = s ++ t ++ u) :
    b.read s.length t.length = some t := by
  have hle : s.length + t.length ≤ n := by
    rw [← b.length_cells, h, List.length_append, List.length_append]
    omega
  rw [read, if_pos hle, h, List.append_assoc, List.drop_left, List.take_left]

/-- A piece of a buffer is replaced by one of its size. -/
theorem write_of_cells {u v : List α} (h : b.cells = s ++ t ++ u) (hv : v.length = t.length) :
    ∃ c, b.write s.length v = some c ∧ c.cells = s ++ v ++ u := by
  have hle : s.length + v.length ≤ n := by
    rw [← b.length_cells, h, List.length_append, List.length_append]
    omega
  obtain ⟨c, hc⟩ := b.exists_write hle
  refine ⟨c, hc, ?_⟩
  have hst : s.length + v.length = (s ++ t).length := by rw [List.length_append, hv]
  rw [cells_of_write hc, hst, h, List.drop_left, List.append_assoc s t, List.take_left]

/-- The two at an index that is known otherwise. -/
theorem read_at {u : List α} {k : ℕ} (h : b.cells = s ++ (t ++ u)) (hi : s.length = i)
    (hk : t.length = k) : b.read i k = some t := by
  subst hi hk
  exact read_of_cells (by rw [h, List.append_assoc])

theorem write_at {u v : List α} (h : b.cells = s ++ (t ++ u)) (hi : s.length = i)
    (hv : v.length = t.length) : ∃ c, b.write i v = some c ∧ c.cells = s ++ (v ++ u) := by
  subst hi
  obtain ⟨c, hc, hcells⟩ := write_of_cells (b := b) (by rw [h, List.append_assoc]) hv
  exact ⟨c, hc, by rw [hcells, List.append_assoc]⟩

/-- A piece is written behind what is kept. -/
theorem write_behind {v : List α} (h : b.cells = s ++ t) (hi : s.length = i)
    (hv : v.length ≤ t.length) :
    ∃ c, b.write i v = some c ∧ c.cells = s ++ (v ++ t.drop v.length) := by
  refine write_at (t := t.take v.length) ?_ hi ?_
  · rw [h, List.take_append_drop]
  · rw [List.length_take, min_eq_left hv]

theorem write_zero (h : s.length ≤ n) :
    ∃ c, b.write 0 s = some c ∧ c.cells = s ++ b.cells.drop s.length := by
  obtain ⟨c, hc⟩ := b.exists_write (i := 0) (by omega : 0 + s.length ≤ n)
  refine ⟨c, hc, ?_⟩
  rw [cells_of_write hc, List.take_zero, List.nil_append, Nat.zero_add]

theorem isSome_read_iff : (b.read i len).isSome ↔ i + len ≤ n := by
  unfold read
  split_ifs with h
  · simp [h]
  · simp [h]

theorem read_of_le (b : Fixed α n) (h : i + len ≤ n) :
    b.read i len = some ((b.cells.drop i).take len) :=
  if_pos h

theorem length_of_read (h : b.read i len = some s) : s.length = len := by
  have hle : i + len ≤ n := by
    rw [← isSome_read_iff (b := b), h]
    rfl
  rw [read_of_le b hle, Option.some.injEq] at h
  rw [← h, List.length_take, List.length_drop, b.length_cells]
  omega

/-- A piece of what is read from the start. -/
theorem read_of_read {j k : ℕ} (h : b.read 0 len = some s) (hle : j + k ≤ len) :
    b.read j k = some ((s.drop j).take k) := by
  have hn : 0 + len ≤ n := by
    rw [← isSome_read_iff (b := b), h]
    rfl
  rw [read_of_le b hn, Option.some.injEq, List.drop_zero] at h
  rw [read_of_le b (by omega), ← h, List.drop_take, List.take_take, min_eq_left (by omega)]

/-- What stands beside a piece that is written is as before. -/
theorem drop_of_write {k : ℕ} (h : b.write i s = some c) (hk : i + s.length ≤ k) :
    c.cells.drop k = b.cells.drop k := by
  have hle : i + s.length ≤ n := by
    rw [← isSome_write_iff (b := b), h]
    rfl
  have hi : (b.cells.take i).length = i := by
    rw [List.length_take, b.length_cells]
    omega
  rw [cells_of_write h, List.append_assoc, List.drop_append, List.drop_append, hi,
    List.drop_of_length_le (by omega), List.drop_of_length_le (by omega), List.drop_drop,
    List.nil_append, List.nil_append]
  congr 1
  omega

theorem take_of_write {k : ℕ} (h : b.write i s = some c) (hk : k ≤ i) :
    c.cells.take k = b.cells.take k := by
  have hle : i + s.length ≤ n := by
    rw [← isSome_write_iff (b := b), h]
    rfl
  have hi : k ≤ (b.cells.take i).length := by
    rw [List.length_take, b.length_cells]
    omega
  rw [cells_of_write h, List.append_assoc, List.take_append_of_le_length hi, List.take_take,
    min_eq_left hk]

theorem read_of_write_disjoint {j k : ℕ} (h : b.write i s = some c)
    (hd : j + k ≤ i ∨ i + s.length ≤ j) : c.read j k = b.read j k := by
  unfold read
  split_ifs with hle
  · rcases hd with hd | hd
    · have htake := congrArg (List.drop j) (take_of_write h hd)
      rw [List.drop_take, List.drop_take, Nat.add_sub_cancel_left] at htake
      rw [htake]
    · rw [drop_of_write h hd]
  · rfl

/-- Two pieces side by side are one. -/
theorem read_add {j : ℕ} (hs : b.read i len = some s) (ht : b.read (i + len) j = some t) :
    b.read i (len + j) = some (s ++ t) := by
  have hle : i + len + j ≤ n := by
    rw [← isSome_read_iff (b := b), ht]
    rfl
  rw [read_of_le b (by omega), Option.some.injEq] at hs
  rw [read_of_le b hle, Option.some.injEq] at ht
  rw [read_of_le b (by omega), List.take_add, List.drop_drop, hs, ht]

/-- What is read up to the end is the rest of the buffer. -/
theorem cells_of_read (h : b.read i len = some s) (hn : n = i + len) :
    b.cells = b.cells.take i ++ s := by
  rw [read_of_le b hn.ge, Option.some.injEq, List.take_of_length_le] at h
  · rw [← h, List.take_append_drop]
  · rw [List.length_drop, b.length_cells, hn, Nat.add_sub_cancel_left]

theorem read_of_write_self (h : b.write i s = some c) : c.read i s.length = some s := by
  have hle : i + s.length ≤ n := by
    rw [← isSome_write_iff (b := b), h]
    rfl
  have hi : (b.cells.take i).length = i := by
    rw [List.length_take, b.length_cells]
    omega
  have hread := read_of_cells (b := c) (s := b.cells.take i) (t := s) (cells_of_write h)
  rwa [hi] at hread

section
variable [DecidableEq α] {z : α}

theorem takeWhile_ne_append (hz : z ∉ s) (t : List α) : (s ++ z :: t).takeWhile (· ≠ z) = s := by
  rw [List.takeWhile_append_of_pos]
  · simp
  · intro x hx
    simpa using fun he : x = z => hz (he ▸ hx)

theorem string_of_cells (hz : z ∉ s) (h : b.cells = s ++ z :: t) : b.string z = some s := by
  have hmem : z ∈ b.cells := by simp [h]
  rw [string, if_pos hmem, h, takeWhile_ne_append hz]

/-- A string ends with the first terminator. -/
theorem cells_of_string (h : b.string z = some s) : z ∉ s ∧ ∃ t, b.cells = s ++ z :: t := by
  unfold string at h
  split_ifs at h with hmem
  obtain ⟨l, t, hl, hz⟩ := List.eq_append_cons_of_mem hmem
  rw [hl, takeWhile_ne_append hz, Option.some.injEq] at h
  subst h
  exact ⟨hz, t, hl⟩

theorem length_lt_of_string (h : b.string z = some s) : s.length < n := by
  obtain ⟨-, t, ht⟩ := cells_of_string h
  rw [← b.length_cells, ht, List.length_append, List.length_cons]
  omega

/-- A string is written with its terminator behind it. -/
theorem string_of_write (hz : z ∉ s) (hs : s.length < n) :
    ∃ c d, b.write 0 s = some c ∧ c.write s.length [z] = some d ∧ d.string z = some s := by
  obtain ⟨c, hc, hcells⟩ := b.write_zero hs.le
  obtain ⟨d, hd⟩ := c.exists_write (i := s.length) (s := [z]) (Nat.succ_le_of_lt hs)
  refine ⟨c, d, hc, hd, ?_⟩
  have hcd := cells_of_write hd
  rw [hcells, List.take_left] at hcd
  rw [List.append_assoc] at hcd
  exact string_of_cells hz hcd

end

end Fixed

end Lib
