import Skw.Lib.Buffer
import Mathlib.Data.BitVec

/-! Lists of elements in memory, each an identifier, a length and that many bytes of data: the walk
over the elements that lie whole before an end, and memory that holds a given list. -/
namespace Lib

/-- An element with a length that its length byte can hold. -/
structure Tlv where
  id : BitVec 8
  data : List (BitVec 8)
  length_lt : data.length < 2 ^ 8
deriving DecidableEq

namespace Tlv

def size (e : Tlv) : ℕ := e.data.length + 2

def bytes (e : Tlv) : List (BitVec 8) := e.id :: BitVec.ofNat 8 e.data.length :: e.data

@[simp] theorem length_bytes (e : Tlv) : e.bytes.length = e.size := by
  simp [bytes, size]

end Tlv

/-- The length byte of the element at an address. -/
def tlvLen (m : ℕ → BitVec 8) (a : ℕ) : ℕ := (m (a + 1)).toNat

theorem tlvLen_lt (m : ℕ → BitVec 8) (a : ℕ) : tlvLen m a < 2 ^ 8 := (m (a + 1)).isLt

/-- The element at an address. -/
def tlvAt (m : ℕ → BitVec 8) (a : ℕ) : Tlv where
  id := m a
  data := load m (a + 2) (tlvLen m a)
  length_lt := by
    rw [length_load]
    exact tlvLen_lt m a

@[simp] theorem size_tlvAt (m : ℕ → BitVec 8) (a : ℕ) : (tlvAt m a).size = tlvLen m a + 2 := by
  simp [Tlv.size, tlvAt]

theorem load_succ (m : ℕ → BitVec 8) (a n : ℕ) : load m a (n + 1) = m a :: load m (a + 1) n := by
  rw [load, List.range_succ_eq_map, List.map_cons, List.map_map]
  congr 1
  apply List.map_congr_left
  intro i _
  exact congrArg m (Nat.add_right_comm a i 1)

theorem load_eq_bytes (m : ℕ → BitVec 8) (a : ℕ) :
    load m a (tlvLen m a + 2) = (tlvAt m a).bytes := by
  have hlen : BitVec.ofNat 8 (tlvLen m a) = m (a + 1) := by
    apply BitVec.eq_of_toNat_eq
    rw [BitVec.toNat_ofNat, Nat.mod_eq_of_lt (tlvLen_lt m a), tlvLen]
  simp [load_succ, Tlv.bytes, tlvAt, hlen]

/-- The bytes of an element at an address make it the element there. -/
theorem tlvAt_eq_of_load {m : ℕ → BitVec 8} {a : ℕ} {e : Tlv} (h : load m a e.size = e.bytes) :
    tlvAt m a = e := by
  rw [Tlv.size, load_succ, load_succ, Tlv.bytes, List.cons.injEq, List.cons.injEq] at h
  obtain ⟨hid, hlen, hdata⟩ := h
  have hlen : tlvLen m a = e.data.length := by
    rw [tlvLen, hlen, BitVec.toNat_ofNat, Nat.mod_eq_of_lt e.length_lt]
  obtain ⟨id, data, hlt⟩ := e
  simp only [tlvAt, hlen, Tlv.mk.injEq]
  exact ⟨hid, hdata⟩

/-- The addresses of the elements from `a` on that lie whole before `stop`, at most `fuel` ones. -/
def tlvWalk (m : ℕ → BitVec 8) (stop : ℕ) : ℕ → ℕ → List ℕ
  | 0, _ => []
  | fuel + 1, a =>
    if a + 2 + tlvLen m a ≤ stop then a :: tlvWalk m stop fuel (a + 2 + tlvLen m a) else []

/-- The addresses of all of them. -/
def tlvAddrs (m : ℕ → BitVec 8) (a stop : ℕ) : List ℕ := tlvWalk m stop (stop - a) a

section
variable {m : ℕ → BitVec 8} {a stop : ℕ}

theorem tlvWalk_eq_of_le {fuel n : ℕ} (h : stop - a ≤ fuel) (h' : stop - a ≤ n) :
    tlvWalk m stop fuel a = tlvWalk m stop n a := by
  induction fuel generalizing a n with
  | zero =>
    cases n with
    | zero => rfl
    | succ n => rw [tlvWalk, tlvWalk, if_neg (by omega)]
  | succ fuel ih =>
    cases n with
    | zero => rw [tlvWalk, tlvWalk, if_neg (by omega)]
    | succ n =>
      rw [tlvWalk, tlvWalk]
      split_ifs with hin
      · rw [ih (n := n) (by omega) (by omega)]
      · rfl

theorem tlvAddrs_of_le (h : a + 2 + tlvLen m a ≤ stop) :
    tlvAddrs m a stop = a :: tlvAddrs m (a + 2 + tlvLen m a) stop := by
  obtain ⟨fuel, hf⟩ : ∃ fuel, stop - a = fuel + 1 := ⟨stop - a - 1, by omega⟩
  rw [tlvAddrs, hf, tlvWalk, if_pos h]
  congr 1
  apply tlvWalk_eq_of_le
  · omega
  · exact le_rfl

theorem tlvAddrs_of_gt (h : stop < a + 2 + tlvLen m a) : tlvAddrs m a stop = [] := by
  rw [tlvAddrs]
  cases stop - a with
  | zero => rfl
  | succ fuel => rw [tlvWalk, if_neg (by omega)]

/-- What the walk meets lies whole between its ends. -/
theorem bounds_of_mem_tlvAddrs {e : ℕ} (h : e ∈ tlvAddrs m a stop) :
    a ≤ e ∧ e + 2 + tlvLen m e ≤ stop := by
  unfold tlvAddrs at h
  generalize stop - a = fuel at h
  induction fuel generalizing a with
  | zero => cases h
  | succ fuel ih =>
    rw [tlvWalk] at h
    split_ifs at h with hin
    · rcases List.mem_cons.mp h with rfl | h
      · exact ⟨le_rfl, hin⟩
      · obtain ⟨hle, hend⟩ := ih h
        exact ⟨by omega, hend⟩
    · cases h

end

/-- The memory from `a` up to `b` holds the elements and nothing else. -/
def HoldsTlvs (m : ℕ → BitVec 8) : ℕ → ℕ → List Tlv → Prop
  | a, b, [] => a = b
  | a, b, e :: es => tlvAt m a = e ∧ HoldsTlvs m (a + e.size) b es

namespace HoldsTlvs
variable {m : ℕ → BitVec 8} {a b : ℕ} {es : List Tlv}

theorem le (h : HoldsTlvs m a b es) : a ≤ b := by
  induction es generalizing a with
  | nil => exact h.le
  | cons e es ih => exact (Nat.le_add_right ..).trans (ih h.2)

theorem eq_nil_iff (h : HoldsTlvs m a b es) : es = [] ↔ a = b := by
  constructor
  · rintro rfl
    exact h
  · rintro rfl
    cases es with
    | nil => rfl
    | cons e es =>
      have hle := h.2.le
      simp only [Tlv.size] at hle
      omega

/-- The walk over such memory meets the elements in their order. -/
theorem map_tlvAddrs (h : HoldsTlvs m a b es) : (tlvAddrs m a b).map (tlvAt m) = es := by
  induction es generalizing a with
  | nil =>
    obtain rfl : a = b := h
    rw [tlvAddrs_of_gt (by omega), List.map_nil]
  | cons e es ih =>
    obtain ⟨rfl, hes⟩ := h
    have hle := hes.le
    rw [size_tlvAt] at hes hle
    rw [tlvAddrs_of_le (by omega), List.map_cons,
      ih (a := a + 2 + tlvLen m a) (by rwa [show a + 2 + tlvLen m a = a + (tlvLen m a + 2) by omega])]

theorem append_iff {es' : List Tlv} :
    HoldsTlvs m a b (es ++ es') ↔ ∃ c, HoldsTlvs m a c es ∧ HoldsTlvs m c b es' := by
  induction es generalizing a with
  | nil =>
    constructor
    · exact fun h => ⟨a, rfl, h⟩
    · rintro ⟨c, hc, h⟩
      obtain rfl : a = c := hc
      exact h
  | cons e es ih =>
    simp only [List.cons_append, HoldsTlvs, ih]
    constructor
    · rintro ⟨he, c, hc, h⟩
      exact ⟨c, ⟨he, hc⟩, h⟩
    · rintro ⟨c, ⟨he, hc⟩, h⟩
      exact ⟨he, c, hc, h⟩

/-- Only the memory between the ends matters. -/
theorem congr {m' : ℕ → BitVec 8} (h : HoldsTlvs m a b es)
    (hm : ∀ i, a ≤ i → i < b → m i = m' i) : HoldsTlvs m' a b es := by
  induction es generalizing a with
  | nil => exact h
  | cons e es ih =>
    obtain ⟨rfl, hes⟩ := h
    have hle := hes.le
    rw [size_tlvAt] at hes hle
    have hlen : tlvLen m' a = tlvLen m a := by
      rw [tlvLen, ← hm (a + 1) (by omega) (by omega), tlvLen]
    refine ⟨?_, ih (by rwa [size_tlvAt]) fun i hi => hm i (by rw [size_tlvAt] at hi; omega)⟩
    simp only [tlvAt, hlen, Tlv.mk.injEq, hm a le_rfl (by omega), true_and]
    apply List.map_congr_left
    intro i hi
    have := List.mem_range.mp hi
    exact (hm _ (by omega) (by omega)).symm

/-- The first element of a kind that the walk meets is the first one in the list. -/
theorem of_find?_eq_some {q : Tlv → Bool} {e : ℕ} (h : HoldsTlvs m a b es)
    (hf : (tlvAddrs m a b).find? (fun x => q (tlvAt m x)) = some e) :
    ∃ es₁ es₂, es = es₁ ++ tlvAt m e :: es₂ ∧ HoldsTlvs m a e es₁ ∧
      HoldsTlvs m (e + (tlvAt m e).size) b es₂ ∧ q (tlvAt m e) = true ∧ ∀ x ∈ es₁, q x = false := by
  induction es generalizing a with
  | nil =>
    have hnil := h.map_tlvAddrs
    rw [List.map_eq_nil_iff.mp hnil] at hf
    cases hf
  | cons t es ih =>
    obtain ⟨rfl, hes⟩ := h
    have hle := hes.le
    rw [size_tlvAt] at hle
    rw [tlvAddrs_of_le (by omega), List.find?_cons] at hf
    cases hq : q (tlvAt m a) with
    | true =>
      simp only [hq, Option.some.injEq] at hf
      subst hf
      exact ⟨[], es, rfl, rfl, hes, hq, by simp⟩
    | false =>
      simp only [hq] at hf
      have hnext : a + (tlvAt m a).size = a + 2 + tlvLen m a := by
        rw [size_tlvAt]
        omega
      obtain ⟨es₁, es₂, rfl, h₁, h₂, hqe, hfirst⟩ := ih hes (by rwa [hnext])
      exact ⟨tlvAt m a :: es₁, es₂, rfl, ⟨rfl, h₁⟩, h₂, hqe, List.forall_mem_cons.mpr ⟨hq, hfirst⟩⟩

theorem of_find?_eq_none {q : Tlv → Bool} (h : HoldsTlvs m a b es)
    (hf : (tlvAddrs m a b).find? (fun x => q (tlvAt m x)) = none) : ∀ x ∈ es, q x = false := by
  rw [← h.map_tlvAddrs]
  intro x hx
  obtain ⟨e, he, rfl⟩ := List.mem_map.mp hx
  simpa using List.find?_eq_none.mp hf e he

end HoldsTlvs

/-- Memory that holds a list of elements from its beginning on. -/
def tlvMemory (es : List Tlv) (i : ℕ) : BitVec 8 := (es.flatMap Tlv.bytes).getD i 0

theorem holdsTlvs_of_append (pre : List (BitVec 8)) (es : List Tlv) :
    HoldsTlvs (fun i => (pre ++ es.flatMap Tlv.bytes).getD i 0) pre.length
      (pre ++ es.flatMap Tlv.bytes).length es := by
  induction es generalizing pre with
  | nil => simp [HoldsTlvs]
  | cons e es ih =>
    have ih := ih (pre ++ e.bytes)
    rw [List.append_assoc, ← List.flatMap_cons, List.length_append, Tlv.length_bytes] at ih
    refine ⟨?_, ih⟩
    apply tlvAt_eq_of_load
    apply List.ext_getElem
    · simp
    intro i hi hb
    simp only [length_load] at hi
    have hpre : ¬pre.length + i < pre.length := by omega
    simp [load, List.getElem?_append, hi, hpre]

theorem holdsTlvs_tlvMemory (es : List Tlv) :
    HoldsTlvs (tlvMemory es) 0 (es.flatMap Tlv.bytes).length es := by
  exact holdsTlvs_of_append [] es

end Lib
