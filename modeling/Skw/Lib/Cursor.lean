import Skw.Lib.Fixed

/-! Programs that fill a buffer of a fixed size from its start on, each piece behind the one before.
What such a program appends tells when it stays inside the buffer. -/
namespace Lib
variable {α β γ : Type*} {n : ℕ}

/-- A buffer, and how much of it has been filled. -/
structure Cursor (α : Type*) (n : ℕ) where
  buf : Fixed α n
  pos : ℕ

/-- A program that fills a buffer; `none` is a write outside. -/
abbrev Filling (α : Type*) (n : ℕ) (β : Type*) := Cursor α n → Option (β × Cursor α n)

namespace Filling

def pure (b : β) : Filling α n β := fun c => some (b, c)

def bind (f : Filling α n β) (g : β → Filling α n γ) : Filling α n γ := fun c =>
  (f c).bind fun r => g r.1 r.2

/-- A piece goes behind what the buffer holds. -/
def put (s : List α) : Filling α n Unit := fun c =>
  (c.buf.write c.pos s).map fun buf => ((), ⟨buf, c.pos + s.length⟩)

end Filling

/-- The buffer holds `out` at its start and what it held before behind it. -/
structure Cursor.Holds (old : Fixed α n) (out : List α) (c : Cursor α n) : Prop where
  pos : c.pos = out.length
  cells : c.buf.cells = out ++ old.cells.drop out.length

/-- The program appends `out` and returns `b`, or leaves the buffer where that does not fit. -/
structure Filling.Appends (f : Filling α n β) (out : List α) (b : β) : Prop where
  fits : ∀ old pre c, c.Holds old pre → pre.length + out.length ≤ n →
    ∃ c', f c = some (b, c') ∧ c'.Holds old (pre ++ out)
  leaves : ∀ old pre c, c.Holds old pre → n < pre.length + out.length → f c = none

section
variable {f : Filling α n β} {g : β → Filling α n γ} {out out' s : List α} {b : β} {d : γ}

theorem Cursor.Holds.start (old : Fixed α n) : Cursor.Holds old [] ⟨old, 0⟩ := ⟨rfl, rfl⟩

theorem Cursor.Holds.length_le {old : Fixed α n} {c : Cursor α n} (h : c.Holds old out) :
    out.length ≤ n := by
  have hlen := congrArg List.length h.cells
  rw [List.length_append, List.length_drop, c.buf.length_cells, old.length_cells] at hlen
  omega

theorem Filling.Appends.pure (b : β) : Appends (Filling.pure b : Filling α n β) [] b where
  fits old pre c h _ := ⟨c, rfl, by simpa using h⟩
  leaves old pre c h hlt := by
    have hle := h.length_le
    rw [List.length_nil] at hlt
    omega

theorem Filling.Appends.put (s : List α) : Appends (Filling.put s : Filling α n Unit) s () where
  fits old pre c h hle := by
    obtain ⟨buf, hbuf⟩ := c.buf.exists_write (i := c.pos) (s := s) (by rw [h.pos]; exact hle)
    refine ⟨⟨buf, c.pos + s.length⟩, by simp [Filling.put, hbuf], ?_, ?_⟩
    · rw [List.length_append, h.pos]
    · rw [Fixed.cells_of_write hbuf, h.cells, h.pos, List.take_left, List.drop_append,
        List.drop_of_length_le (by omega), List.nil_append, List.drop_drop, List.length_append,
        Nat.add_sub_cancel_left]
  leaves old pre c h hlt := by
    have hnone : c.buf.write c.pos s = none := by
      rw [← Option.not_isSome_iff_eq_none, Fixed.isSome_write_iff, h.pos]
      omega
    simp [Filling.put, hnone]

theorem Filling.Appends.bind (hf : f.Appends out b) (hg : (g b).Appends out' d) :
    (f.bind g).Appends (out ++ out') d where
  fits old pre c h hle := by
    rw [List.length_append] at hle
    obtain ⟨c₁, h₁, hc₁⟩ := hf.fits old pre c h (by omega)
    obtain ⟨c₂, h₂, hc₂⟩ := hg.fits old _ c₁ hc₁ (by rw [List.length_append]; omega)
    refine ⟨c₂, by rw [Filling.bind, h₁, Option.bind_some, h₂], ?_⟩
    rwa [← List.append_assoc]
  leaves old pre c h hlt := by
    rw [List.length_append] at hlt
    rw [Filling.bind]
    by_cases hle : pre.length + out.length ≤ n
    · obtain ⟨c₁, h₁, hc₁⟩ := hf.fits old pre c h hle
      have hnone := hg.leaves old _ c₁ hc₁ (by rw [List.length_append]; omega)
      rw [h₁, Option.bind_some, hnone]
    · rw [hf.leaves old pre c h (by omega), Option.bind_none]

/-- A program on a fresh buffer. -/
theorem Filling.Appends.run (hf : f.Appends out b) (old : Fixed α n) :
    (∃ c, f ⟨old, 0⟩ = some (b, c) ∧ c.Holds old out) ∧ out.length ≤ n ∨
      f ⟨old, 0⟩ = none ∧ n < out.length := by
  by_cases hle : out.length ≤ n
  · obtain ⟨c, hc, hh⟩ := hf.fits old [] _ (.start old) (by simpa using hle)
    exact .inl ⟨⟨c, hc, by simpa using hh⟩, hle⟩
  · have hlt := not_le.mp hle
    exact .inr ⟨hf.leaves old [] _ (.start old) (by simpa using hlt), hlt⟩

end

end Lib
