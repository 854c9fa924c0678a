import Mathlib.Data.List.Basic

/-! Memory that is allocated and freed. Blocks are numbered in the order of their allocation, so a
block that a computation has allocated is told from those before it. -/
namespace Lib

structure Heap where
  next : ℕ
  live : List ℕ
  live_lt : ∀ p ∈ live, p < next

namespace Heap

def empty : Heap := ⟨0, [], fun _ h => absurd h List.not_mem_nil⟩

/-- The block is `h.next`. -/
def alloc (h : Heap) : Heap where
  next := h.next + 1
  live := h.next :: h.live
  live_lt := by
    intro p hp
    rcases List.mem_cons.mp hp with rfl | hp
    · exact Nat.lt_succ_self _
    · exact Nat.lt_succ_of_lt (h.live_lt p hp)

/-- Nothing is freed if there is no block. -/
def free (h : Heap) (p : Option ℕ) : Heap where
  next := h.next
  live := h.live.filter fun q => some q != p
  live_lt := fun q hq => h.live_lt q (List.mem_of_mem_filter hq)

/-- Each block that `k` has and `h` has not allocated is owned by one of `owned`. -/
def Kept (h k : Heap) (owned : List (Option ℕ)) : Prop :=
  ∀ p ∈ k.live, h.next ≤ p → some p ∈ owned

variable {h k : Heap} {p q : ℕ} {x : Option ℕ} {owned owned' : List (Option ℕ)}

@[simp] theorem next_alloc (h : Heap) : h.alloc.next = h.next + 1 := rfl

@[simp] theorem next_free (h : Heap) (x : Option ℕ) : (h.free x).next = h.next := rfl

@[simp] theorem mem_live_alloc : q ∈ h.alloc.live ↔ q = h.next ∨ q ∈ h.live := List.mem_cons

@[simp] theorem mem_live_free : q ∈ (h.free x).live ↔ q ∈ h.live ∧ some q ≠ x := by
  simp [free]

/-- Nothing new is allocated. -/
theorem Kept.refl (h : Heap) (owned : List (Option ℕ)) : h.Kept h owned := by
  intro p hp hle
  exact absurd (h.live_lt p hp) (Nat.not_lt.mpr hle)

theorem Kept.mono (hk : h.Kept k owned) (ho : ∀ p, some p ∈ owned → some p ∈ owned') :
    h.Kept k owned' := fun p hp hle => ho p (hk p hp hle)

/-- A new block has an owner. -/
theorem Kept.alloc (hk : h.Kept k owned) : h.Kept k.alloc (some k.next :: owned) := by
  intro p hp hle
  rcases mem_live_alloc.mp hp with rfl | hp
  · exact List.mem_cons_self
  · exact List.mem_cons_of_mem _ (hk p hp hle)

/-- A block that is freed needs no owner any more. -/
theorem Kept.free (hk : h.Kept k owned) (ho : ∀ p, some p ∈ owned → some p = x ∨ some p ∈ owned') :
    h.Kept (k.free x) owned' := by
  intro p hp hle
  obtain ⟨hp, hne⟩ := mem_live_free.mp hp
  exact (ho p (hk p hp hle)).resolve_left hne

end Heap

end Lib
