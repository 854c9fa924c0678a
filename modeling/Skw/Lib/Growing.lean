import Mathlib.Data.List.Basic

/-! Buffers that grow at their end, up to the room that they were made with. -/
namespace Lib
variable {α : Type*} {room : ℕ}

@[ext]
structure Growing (α : Type*) (room : ℕ) where
  items : List α
  length_le : items.length ≤ room

namespace Growing

def empty (room : ℕ) : Growing α room := ⟨[], Nat.zero_le room⟩

def tailroom (b : Growing α room) : ℕ := room - b.items.length

def put (b : Growing α room) (s : List α) : Option (Growing α room) :=
  if h : b.items.length + s.length ≤ room then some ⟨b.items ++ s, by rwa [List.length_append]⟩
  else none

/-- `s` behind what there is, when there is a tail of `need`. -/
def putWithin (b : Growing α room) (need : ℕ) (s : List α) : Option (Growing α room) :=
  if b.tailroom < need then some b else b.put s

variable {b c : Growing α room} {s t : List α} {need : ℕ}

theorem items_of_put (h : b.put s = some c) : c.items = b.items ++ s := by
  unfold put at h
  split_ifs at h
  rw [← Option.some.inj h]

theorem exists_put (h : b.items.length + s.length ≤ room) :
    ∃ c, b.put s = some c ∧ c.items = b.items ++ s :=
  ⟨_, dif_pos h, rfl⟩

/-- Two pieces one behind the other are one. -/
theorem put_put (b : Growing α room) (s t : List α) :
    (b.put s).bind (fun c => c.put t) = b.put (s ++ t) := by
  by_cases hs : b.items.length + s.length ≤ room
  · have hfirst : b.put s = some ⟨b.items ++ s, by rwa [List.length_append]⟩ := dif_pos hs
    rw [hfirst, Option.bind_some, put, put]
    simp only [List.length_append, List.append_assoc, Nat.add_assoc]
  · have hnone : b.put s = none := dif_neg hs
    have hboth : ¬b.items.length + (s ++ t).length ≤ room := by
      rw [List.length_append]
      omega
    rw [hnone, Option.bind_none, put, dif_neg hboth]

theorem putWithin_eq_put (h : b.items.length + need ≤ room) : b.putWithin need s = b.put s :=
  if_neg (by rw [tailroom]; omega)

/-- A program puts `s` where there is room for `need` items. -/
structure Adds (f : Growing α room → Option (Growing α room)) (need : ℕ) (s : List α) : Prop where
  le : s.length ≤ need
  puts : ∀ b : Growing α room, b.items.length + need ≤ room → f b = b.put s

theorem Adds.put (s : List α) : Adds (fun b : Growing α room => b.put s) s.length s where
  le := Nat.le_refl _
  puts _ _ := rfl

theorem Adds.nothing : Adds (fun b : Growing α room => some b) 0 [] where
  le := Nat.le_refl _
  puts b hb := by
    have hfits : b.items.length + ([] : List α).length ≤ room := hb
    rw [Growing.put, dif_pos hfits, Option.some.injEq]
    exact Growing.ext (List.append_nil _).symm

theorem Adds.putWithin (h : s.length ≤ need) :
    Adds (fun b : Growing α room => b.putWithin need s) need s where
  le := h
  puts _ := putWithin_eq_put

theorem Adds.mono {f : Growing α room → Option (Growing α room)} {m : ℕ} (h : Adds f need s)
    (hle : need ≤ m) : Adds f m s where
  le := Nat.le_trans h.le hle
  puts b hb := h.puts b (by omega)

theorem Adds.bind {f g : Growing α room → Option (Growing α room)} {m : ℕ} (hf : Adds f need s)
    (hg : Adds g m t) : Adds (fun b => (f b).bind g) (need + m) (s ++ t) where
  le := by
    rw [List.length_append]
    exact Nat.add_le_add hf.le hg.le
  puts b hb := by
    have hs := hf.le
    obtain ⟨c, hc, hitems⟩ := exists_put (b := b) (s := s) (by omega)
    have hlen : c.items.length + m ≤ room := by
      rw [hitems, List.length_append]
      omega
    rw [hf.puts b (by omega), hc, Option.bind_some, hg.puts c hlen, ← put_put, hc, Option.bind_some]

theorem Adds.exists_put {f : Growing α room → Option (Growing α room)} (h : Adds f need s)
    (hb : b.items.length + need ≤ room) : ∃ c, f b = some c ∧ c.items = b.items ++ s := by
  have hs := h.le
  rw [h.puts b hb]
  exact Growing.exists_put (by omega)

end Growing

end Lib
