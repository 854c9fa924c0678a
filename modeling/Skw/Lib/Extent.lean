import Mathlib.Algebra.BigOperators.Group.List.Basic
import Mathlib.Algebra.GroupWithZero.Nat
import Mathlib.Data.List.Nodup

/-! Sparse strings: items at consecutive places, some of them missing, and the extents that hold
what is there without a gap. -/
namespace Lib
variable {β : Type*}

/-- The items that are there, with their places, the first place being `at₀`. -/
def present (at₀ : ℕ) : List (Option β) → List (ℕ × β)
  | [] => []
  | some c :: l => (at₀, c) :: present (at₀ + 1) l
  | none :: l => present (at₀ + 1) l

structure Extent (β : Type*) where
  offset : ℕ
  data : List β
deriving DecidableEq

namespace Extent

/-- The items of an extent with their places. -/
def pairs (e : Extent β) : List (ℕ × β) := present e.offset (e.data.map some)

def push (e : Extent β) (c : β) : Extent β := { e with data := e.data ++ [c] }

def shift (f : ℕ → ℕ) (e : Extent β) : Extent β := { e with offset := f e.offset }

end Extent

/-- The extents of a string, with the one that is open before it. -/
def extents (at₀ : ℕ) (cur : Option (Extent β)) : List (Option β) → List (Extent β)
  | [] => cur.toList
  | some c :: l => extents (at₀ + 1) (some ((cur.getD ⟨at₀, []⟩).push c)) l
  | none :: l => cur.toList ++ extents (at₀ + 1) none l

/-- The number of items in some extents. -/
def dataLength (es : List (Extent β)) : ℕ := (es.map fun e => e.data.length).sum

/-- The size of extents with a header of `h` each. -/
def extentSize (h : ℕ) (es : List (Extent β)) : ℕ := (es.map fun e => h + e.data.length).sum

section
variable {at₀ h : ℕ} {cur : Option (Extent β)} {l m : List (Option β)} {es fs : List (Extent β)}
  {e : Extent β}

theorem present_append (at₀ : ℕ) (l m : List (Option β)) :
    present at₀ (l ++ m) = present at₀ l ++ present (at₀ + l.length) m := by
  induction l generalizing at₀ with
  | nil => rfl
  | cons x l ih =>
    cases x <;> simp [present, ih, Nat.add_assoc, Nat.add_comm 1]

theorem le_of_mem_present {x : ℕ × β} (hx : x ∈ present at₀ l) : at₀ ≤ x.1 := by
  induction l generalizing at₀ with
  | nil => cases hx
  | cons y l ih =>
    cases y with
    | none => exact Nat.le_of_succ_le (ih hx)
    | some c =>
      rcases List.mem_cons.mp hx with rfl | hx
      · exact Nat.le_refl _
      · exact Nat.le_of_succ_le (ih hx)

theorem nodup_present (at₀ : ℕ) (l : List (Option β)) : (present at₀ l).Nodup := by
  induction l generalizing at₀ with
  | nil => exact List.nodup_nil
  | cons x l ih =>
    cases x with
    | none => exact ih _
    | some c =>
      apply List.nodup_cons.mpr
      constructor
      · intro hmem
        exact absurd (le_of_mem_present hmem) (Nat.not_succ_le_self at₀)
      · exact ih _

theorem length_present_map_some (at₀ : ℕ) (d : List β) :
    (present at₀ (d.map some)).length = d.length := by
  induction d generalizing at₀ with
  | nil => rfl
  | cons c d ih => simp [present, ih]

@[simp] theorem dataLength_append (es fs : List (Extent β)) :
    dataLength (es ++ fs) = dataLength es + dataLength fs := by
  simp [dataLength]

@[simp] theorem extentSize_append (h : ℕ) (es fs : List (Extent β)) :
    extentSize h (es ++ fs) = extentSize h es + extentSize h fs := by
  simp [extentSize]

@[simp] theorem dataLength_nil : dataLength ([] : List (Extent β)) = 0 := rfl

@[simp] theorem extentSize_nil : extentSize h ([] : List (Extent β)) = 0 := rfl

@[simp] theorem dataLength_cons (e : Extent β) (es : List (Extent β)) :
    dataLength (e :: es) = e.data.length + dataLength es := List.sum_cons

@[simp] theorem extentSize_cons (h : ℕ) (e : Extent β) (es : List (Extent β)) :
    extentSize h (e :: es) = h + e.data.length + extentSize h es := List.sum_cons

@[simp] theorem dataLength_singleton (e : Extent β) : dataLength [e] = e.data.length :=
  List.sum_singleton

@[simp] theorem extentSize_singleton (h : ℕ) (e : Extent β) :
    extentSize h [e] = h + e.data.length := List.sum_singleton

theorem le_extentSize_of_mem (h : ℕ) (he : e ∈ es) : h + e.data.length ≤ extentSize h es := by
  induction es with
  | nil => cases he
  | cons f es ih =>
    rw [extentSize_cons]
    rcases List.mem_cons.mp he with rfl | he
    · omega
    · have := ih he
      omega

theorem length_flatMap_pairs (es : List (Extent β)) :
    (es.flatMap Extent.pairs).length = dataLength es := by
  induction es with
  | nil => rfl
  | cons e es ih =>
    rw [List.flatMap_cons, List.length_append, ih, Extent.pairs, length_present_map_some,
      dataLength_cons]

/-- The open extent ends where the string begins. -/
def EndsAt (cur : Option (Extent β)) (at₀ : ℕ) : Prop :=
  ∀ e ∈ cur, e.offset + e.data.length = at₀

theorem endsAt_push (hcur : EndsAt cur at₀) (c : β) :
    EndsAt (some ((cur.getD ⟨at₀, []⟩).push c)) (at₀ + 1) := by
  intro e he
  cases he
  cases cur with
  | none => simp [Extent.push]
  | some e =>
    have := hcur e rfl
    simp [Extent.push, ← this, Nat.add_assoc]

theorem pairs_push (hcur : EndsAt cur at₀) (c : β) :
    ((cur.getD ⟨at₀, []⟩).push c).pairs = cur.toList.flatMap Extent.pairs ++ [(at₀, c)] := by
  cases cur with
  | none => simp [Extent.push, Extent.pairs, present]
  | some e =>
    have := hcur e rfl
    simp [Extent.push, Extent.pairs, present, present_append, this]

/-- The extents hold the items that are there, each at its place. -/
theorem flatMap_pairs_extents (hcur : EndsAt cur at₀) (l : List (Option β)) :
    (extents at₀ cur l).flatMap Extent.pairs =
      cur.toList.flatMap Extent.pairs ++ present at₀ l := by
  induction l generalizing at₀ cur with
  | nil => simp [extents, present]
  | cons x l ih =>
    cases x with
    | none =>
      have hnone : EndsAt (none : Option (Extent β)) (at₀ + 1) := by
        intro e he
        cases he
      rw [extents, List.flatMap_append, ih hnone]
      rfl
    | some c =>
      rw [extents, ih (endsAt_push hcur c), Option.toList_some, List.flatMap_singleton,
        pairs_push hcur, List.append_assoc]
      rfl

/-- What a string adds to the size of the open extent, and that it adds nothing if nothing is
there. -/
theorem extents_size (h at₀ : ℕ) (cur : Option (Extent β)) (l : List (Option β)) :
    dataLength (extents at₀ cur l) = dataLength cur.toList + (present at₀ l).length ∧
      extentSize h cur.toList + (present at₀ l).length ≤ extentSize h (extents at₀ cur l) ∧
      (present at₀ l = [] → extents at₀ cur l = cur.toList) := by
  induction l generalizing at₀ cur with
  | nil => simp [extents, present]
  | cons x l ih =>
    cases x with
    | none =>
      obtain ⟨hdata, hsize, hnil⟩ := ih (at₀ + 1) none
      refine ⟨?_, ?_, ?_⟩
      · rw [extents, dataLength_append, hdata]
        simp [present]
      · rw [extents, extentSize_append]
        simp only [present, Option.toList_none, extentSize_nil] at hsize ⊢
        omega
      · intro hp
        rw [extents, hnil hp]
        simp
    | some c =>
      obtain ⟨hdata, hsize, -⟩ := ih (at₀ + 1) (some ((cur.getD ⟨at₀, []⟩).push c))
      refine ⟨?_, ?_, ?_⟩
      · rw [extents, hdata]
        cases cur <;> simp [present, Extent.push] <;> omega
      · rw [extents]
        cases cur <;> simp [present, Extent.push] at hsize ⊢ <;> omega
      · intro hp
        cases hp

/-- No extent is empty. -/
theorem data_ne_nil_of_mem_extents (hcur : ∀ e ∈ cur, e.data ≠ []) (he : e ∈ extents at₀ cur l) :
    e.data ≠ [] := by
  induction l generalizing at₀ cur with
  | nil => exact hcur e (Option.mem_toList.mp he)
  | cons x l ih =>
    cases x with
    | none =>
      rcases List.mem_append.mp he with he | he
      · exact hcur e (Option.mem_toList.mp he)
      · exact ih (fun _ h => by cases h) he
    | some c =>
      apply ih _ he
      intro e he
      cases he
      simp [Extent.push]

theorem dataLength_shift (f : ℕ → ℕ) (es : List (Extent β)) :
    dataLength (es.map (Extent.shift f)) = dataLength es := by
  rw [dataLength, dataLength, List.map_map]
  rfl

/-- The sum of the places. -/
def placeSum (l : List (ℕ × β)) : ℕ := (l.map Prod.fst).sum

theorem placeSum_append (l m : List (ℕ × β)) : placeSum (l ++ m) = placeSum l + placeSum m := by
  simp [placeSum]

theorem placeSum_present_add (a d : ℕ) (l : List (Option β)) :
    placeSum (present (a + d) l) = placeSum (present a l) + d * (present a l).length := by
  induction l generalizing a with
  | nil => rfl
  | cons x l ih =>
    have hnext : a + d + 1 = a + 1 + d := Nat.add_right_comm ..
    cases x with
    | none => simpa [present, hnext] using ih (a + 1)
    | some c =>
      have := ih (a + 1)
      simp only [present, placeSum, List.map_cons, List.sum_cons, List.length_cons,
        Nat.mul_succ, hnext] at this ⊢
      omega

/-- What is lost when the extents begin lower than they should. -/
theorem placeSum_shift (f : ℕ → ℕ) (hf : ∀ n, f n ≤ n) (es : List (Extent β)) :
    placeSum (es.flatMap Extent.pairs) =
      placeSum ((es.map (Extent.shift f)).flatMap Extent.pairs) +
        (es.map fun e => (e.offset - f e.offset) * e.data.length).sum := by
  induction es with
  | nil => rfl
  | cons e es ih =>
    have hone := placeSum_present_add (f e.offset) (e.offset - f e.offset) (e.data.map some)
    rw [Nat.add_sub_cancel' (hf e.offset), length_present_map_some] at hone
    rw [List.flatMap_cons, placeSum_append, ih, List.map_cons, List.flatMap_cons,
      placeSum_append, List.map_cons, List.sum_cons, Extent.pairs, hone]
    simp only [Extent.pairs, Extent.shift]
    omega

/-- Extents that begin lower than they should hold other places than they should. -/
theorem eq_of_perm_shift {f : ℕ → ℕ} (hf : ∀ n, f n ≤ n)
    (hp : ((es.map (Extent.shift f)).flatMap Extent.pairs).Perm (es.flatMap Extent.pairs))
    (he : e ∈ es) (hne : e.data ≠ []) : f e.offset = e.offset := by
  have hsum := placeSum_shift f hf es
  have hperm : placeSum ((es.map (Extent.shift f)).flatMap Extent.pairs) =
      placeSum (es.flatMap Extent.pairs) := (hp.map Prod.fst).sum_eq
  have hzero : (es.map fun e => (e.offset - f e.offset) * e.data.length).sum = 0 := by omega
  have hterm := List.sum_eq_zero_iff_forall_eq_nat.mp hzero _ (List.mem_map_of_mem he)
  have hpos := List.length_pos_of_ne_nil hne
  have hsub := (Nat.mul_eq_zero.mp hterm).resolve_right (Nat.ne_of_gt hpos)
  exact Nat.le_antisymm (hf _) (Nat.sub_eq_zero_iff_le.mp hsub)

end
end Lib
