import Skw.Boot.Image

/-! What `skw_request_firmwares` and `skw_boot_init` read and write of the buffers that hold the
IRAM image and the NV file, and when all of it is inside them. -/
namespace Skw

/-- Bytes that are read of the image, written there, or read of the NV data. -/
inductive ImgAccess
  | iram (addr len : ℕ)
  | patch (addr len : ℕ)
  | nv (addr len : ℕ)
deriving DecidableEq

def ImgAccess.Inside (iramSize nvSize : ℕ) : ImgAccess → Prop
  | .iram a n => a + n ≤ iramSize
  | .patch a n => a + n ≤ iramSize
  | .nv a n => a + n ≤ nvSize

instance ImgAccess.decidableInside (iramSize nvSize : ℕ) (x : ImgAccess) :
    Decidable (x.Inside iramSize nvSize) := by
  cases x <;> unfold ImgAccess.Inside <;> infer_instance

/-- The header of NV data of the new kind. -/
def nvHeaderReads (nv : Option Firmware) : List ImgAccess :=
  match nv with
  | some nv =>
    if 20 < nv.size then
      [.nv NV_CMFG_OFFSET 4, .nv NV_CMFG_SIZE 4, .nv NV_PNFG_OFFSET 4, .nv NV_PNFG_SIZE 4]
    else []
  | none => []

/-- The comparison of the second word of a marker is made only where the first is equal. -/
def pairReads (m : ℕ → BitVec 8) (marker : List Char) (i : ℕ) : List ImgAccess :=
  .iram (i * IMG_HEAD_OPS_LEN) IMG_HEAD_OPS_LEN ::
    if markerAt m marker i then [.iram ((i + 1) * IMG_HEAD_OPS_LEN) IMG_HEAD_OPS_LEN] else []

/-- The reads of `headScan`. -/
def headScanReads (m : ℕ → BitVec 8) : ℕ → ℕ → ℕ → List ImgAccess
  | 0, _, _ => []
  | n + 1, i, headOffset =>
    if headOffset = 0 then
      pairReads m CP_IMG_HEAD0 i ++
        headScanReads m n (i + 1) (if headAt m i then (i + 1) * IMG_HEAD_OPS_LEN else 0)
    else
      pairReads m CP_IMG_TAIL0 i ++
        if tailAt m i then [] else headScanReads m n (i + 1) headOffset

/-- The reads of `nvScan`. -/
def nvScanReads (m : ℕ → BitVec 8) : ℕ → ℕ → ℕ → List ImgAccess
  | 0, _, _ => []
  | n + 1, k, nvHeadAddr =>
    .iram (k * IMG_HEAD_OPS_LEN) IMG_HEAD_OPS_LEN ::
      if nvHeadAddr = 0 then
        nvScanReads m n (k + 1) (if markerAt m CP_NV_HEAD k then k * IMG_HEAD_OPS_LEN else 0)
      else if markerAt m CP_NV_TAIL k then [] else nvScanReads m n (k + 1) nvHeadAddr

/-- The reads of the first `fuel` rounds of a record loop from round `i` on. -/
def recordReads (head tail : ℕ) : ℕ → ℕ → List ImgAccess
  | 0, _ => []
  | fuel + 1, i =>
    if InTable head tail i then
      let a := head + i * MODULE_INFO_LEN
      [.iram a 4, .iram (a + 8) 4, .iram (a + 4) 4] ++ recordReads head tail fuel (i + 1)
    else []

namespace BootData

def patchAccesses (b : BootData) : List ImgAccess :=
  match b.nvPatch with
  | some (a, n) => [.nv a n, .patch (b.nvHeadAddr + 4) n]
  | none => []

/-- The accesses of `skw_request_firmwares` to the NV header and those of `bootInit`, as far as
`fuel` rounds of its record loop go. -/
def bootInitAccesses (fuel : ℕ) (iram : Firmware) (nv : Option Firmware) : List ImgAccess :=
  let m := iram.data
  let (headOffset, tailOffset) := headScan m SCAN_ROUNDS 0 0
  nvHeaderReads nv ++ headScanReads m SCAN_ROUNDS 0 0 ++ nvScanReads m SCAN_ROUNDS 0 0 ++
    if tailOffset = 0 then []
    else
      let head := headOffset + RAM_ADDR_OPS_LEN + IMG_HEAD_OPS_LEN
      [.iram (headOffset + IMG_HEAD_OPS_LEN) 4, .iram (headOffset + IMG_HEAD_OPS_LEN + 4) 4] ++
        recordReads head tailOffset fuel 0 ++
        match recordLoop head tailOffset fuel 0 with
        | some addrs => (counted iram nv headOffset tailOffset addrs).patchAccesses
        | none => []

end BootData

/-- All accesses of a list are inside. -/
def Inside (iramSize nvSize : ℕ) (xs : List ImgAccess) : Prop := ∀ x ∈ xs, x.Inside iramSize nvSize

section
variable {m : ℕ → BitVec 8} {iramSize nvSize : ℕ}

@[simp] theorem inside_nil : Inside iramSize nvSize [] := by simp [Inside]

@[simp] theorem inside_cons {x : ImgAccess} {xs : List ImgAccess} :
    Inside iramSize nvSize (x :: xs) ↔ x.Inside iramSize nvSize ∧ Inside iramSize nvSize xs :=
  List.forall_mem_cons

@[simp] theorem inside_append {xs ys : List ImgAccess} :
    Inside iramSize nvSize (xs ++ ys) ↔ Inside iramSize nvSize xs ∧ Inside iramSize nvSize ys :=
  List.forall_mem_append

@[simp] theorem inside_iram {a n : ℕ} :
    (ImgAccess.iram a n).Inside iramSize nvSize ↔ a + n ≤ iramSize := Iff.rfl

theorem inside_pairReads {marker : List Char} {i : ℕ} :
    Inside iramSize nvSize (pairReads m marker i) ↔
      (i + 1) * 4 ≤ iramSize ∧ (markerAt m marker i = true → (i + 2) * 4 ≤ iramSize) := by
  unfold pairReads
  split_ifs with h
  · simp [h, IMG_HEAD_OPS_LEN]
    omega
  · simp [h, IMG_HEAD_OPS_LEN]
    omega

/-- The reads of a scan of `n` words from the `i`-th one on for the first half of a marker that is
nowhere found whole are inside. -/
def Whole (m : ℕ → BitVec 8) (marker : List Char) (iramSize i n : ℕ) : Prop :=
  n = 0 ∨ (i + n) * 4 ≤ iramSize ∧
    (markerAt m marker (i + n - 1) = true → (i + n + 1) * 4 ≤ iramSize)

theorem whole_succ {marker : List Char} {i n : ℕ} :
    ((i + 1) * 4 ≤ iramSize ∧ (markerAt m marker i = true → (i + 2) * 4 ≤ iramSize)) ∧
      Whole m marker iramSize (i + 1) n ↔ Whole m marker iramSize i (n + 1) := by
  unfold Whole
  rcases Nat.eq_zero_or_pos n with rfl | hn
  · simp
  · rw [show i + 1 + n = i + (n + 1) by omega]
    constructor
    · rintro ⟨-, h | h⟩
      · omega
      · exact .inr h
    · rintro (h | h)
      · omega
      · exact ⟨⟨by omega, fun _ => by omega⟩, .inr h⟩

theorem inside_headScanReads_of_ne {head : ℕ} (hd : head ≠ 0) (n i : ℕ) :
    Inside iramSize nvSize (headScanReads m n i head) ↔
      match (List.range' i n).find? (tailAt m) with
      | some t => (t + 2) * 4 ≤ iramSize
      | none => Whole m CP_IMG_TAIL0 iramSize i n := by
  induction n generalizing i with
  | zero => simp [headScanReads, Whole]
  | succ n ih =>
    rw [headScanReads, if_neg hd, List.range'_succ, List.find?_cons, inside_append,
      inside_pairReads]
    cases ht : tailAt m i with
    | true =>
      have : markerAt m CP_IMG_TAIL0 i = true := by
        simp only [tailAt, Bool.and_eq_true] at ht
        exact ht.1
      simp [this]
      omega
    | false =>
      simp only [Bool.false_eq_true, if_false, ih]
      cases hf : (List.range' (i + 1) n).find? (tailAt m) with
      | none => exact whole_succ
      | some t =>
        have := List.mem_range'_1.mp (List.mem_of_find?_eq_some hf)
        exact ⟨fun h => h.2, fun h => ⟨⟨by omega, fun _ => by omega⟩, h⟩⟩

theorem inside_headScanReads_zero (n i : ℕ) :
    Inside iramSize nvSize (headScanReads m n i 0) ↔
      match (List.range' i n).find? (headAt m) with
      | some h =>
        (h + 2) * 4 ≤ iramSize ∧
          match (List.range' (h + 1) (i + n - (h + 1))).find? (tailAt m) with
          | some t => (t + 2) * 4 ≤ iramSize
          | none => Whole m CP_IMG_TAIL0 iramSize (h + 1) (i + n - (h + 1))
      | none => Whole m CP_IMG_HEAD0 iramSize i n := by
  induction n generalizing i with
  | zero => simp [headScanReads, Whole]
  | succ n ih =>
    rw [headScanReads, if_pos rfl, List.range'_succ, List.find?_cons, inside_append,
      inside_pairReads]
    cases hh : headAt m i with
    | true =>
      have hm : markerAt m CP_IMG_HEAD0 i = true := by
        simp only [headAt, Bool.and_eq_true] at hh
        exact hh.1
      have hn : i + (n + 1) - (i + 1) = n := by omega
      rw [if_pos rfl, inside_headScanReads_of_ne (by simp)]
      simp only [hm, hn, forall_const]
      exact and_congr_left fun _ => by omega
    | false =>
      simp only [Bool.false_eq_true, if_false, ih]
      rw [show i + 1 + n = i + (n + 1) by omega]
      cases hf : (List.range' (i + 1) n).find? (headAt m) with
      | none => exact whole_succ
      | some h =>
        have := List.mem_range'_1.mp (List.mem_of_find?_eq_some hf)
        exact ⟨fun h => h.2, fun h => ⟨⟨by omega, fun _ => by omega⟩, h⟩⟩

theorem inside_nvScanReads_of_ne {head : ℕ} (hd : head ≠ 0) (n k : ℕ) :
    Inside iramSize nvSize (nvScanReads m n k head) ↔
      match (List.range' k n).find? (markerAt m CP_NV_TAIL) with
      | some t => (t + 1) * 4 ≤ iramSize
      | none => n = 0 ∨ (k + n) * 4 ≤ iramSize := by
  induction n generalizing k with
  | zero => simp [nvScanReads]
  | succ n ih =>
    rw [nvScanReads, if_neg hd, List.range'_succ, List.find?_cons, inside_cons, inside_iram]
    cases ht : markerAt m CP_NV_TAIL k with
    | true => simp [Nat.succ_mul]
    | false =>
      simp only [Bool.false_eq_true, if_false, ih]
      cases hf : (List.range' (k + 1) n).find? (markerAt m CP_NV_TAIL) with
      | none => simp only [IMG_HEAD_OPS_LEN]; omega
      | some t =>
        have := List.mem_range'_1.mp (List.mem_of_find?_eq_some hf)
        exact ⟨fun h => h.2, fun h => ⟨by simp only [IMG_HEAD_OPS_LEN]; omega, h⟩⟩

theorem inside_nvScanReads_zero {k : ℕ} (hk : 0 < k) (n : ℕ) :
    Inside iramSize nvSize (nvScanReads m n k 0) ↔
      match (List.range' k n).find? (markerAt m CP_NV_HEAD) with
      | some h =>
        (h + 1) * 4 ≤ iramSize ∧
          match (List.range' (h + 1) (k + n - (h + 1))).find? (markerAt m CP_NV_TAIL) with
          | some t => (t + 1) * 4 ≤ iramSize
          | none => k + n - (h + 1) = 0 ∨ (k + n) * 4 ≤ iramSize
      | none => n = 0 ∨ (k + n) * 4 ≤ iramSize := by
  induction n generalizing k with
  | zero => simp [nvScanReads]
  | succ n ih =>
    rw [nvScanReads, if_pos rfl, List.range'_succ, List.find?_cons, inside_cons, inside_iram]
    cases hh : markerAt m CP_NV_HEAD k with
    | true =>
      have hn : k + (n + 1) - (k + 1) = n := by omega
      rw [if_pos rfl, inside_nvScanReads_of_ne (by simp only [IMG_HEAD_OPS_LEN]; omega)]
      simp only [hn, Nat.succ_mul, show k + 1 + n = k + (n + 1) by omega]
    | false =>
      simp only [Bool.false_eq_true, if_false, ih (Nat.succ_pos k)]
      rw [show k + 1 + n = k + (n + 1) by omega]
      cases hf : (List.range' (k + 1) n).find? (markerAt m CP_NV_HEAD) with
      | none => simp only [IMG_HEAD_OPS_LEN]; omega
      | some h =>
        have := List.mem_range'_1.mp (List.mem_of_find?_eq_some hf)
        exact ⟨fun h => h.2, fun h => ⟨by simp only [IMG_HEAD_OPS_LEN]; omega, h⟩⟩

/-- A loop that ends in front of the tail marker stays in front of it. -/
theorem inside_recordReads {head tail : ℕ} (hle : head ≤ tail) (ht : tail + 12 ≤ iramSize)
    (hlt : tail < 2 ^ 16) (fuel : ℕ) {i : ℕ} (hi : i * MODULE_INFO_LEN ≤ tail - head + 12) :
    Inside iramSize nvSize (recordReads head tail fuel i) := by
  induction fuel generalizing i with
  | zero => exact inside_nil
  | succ fuel ih =>
    rw [recordReads]
    split_ifs with hin
    · have hlast : i * MODULE_INFO_LEN ≤ tail - head := by
        simp only [InTable, MODULE_INFO_LEN] at *
        omega
      simp only [inside_append, inside_cons, inside_iram, inside_nil, and_true]
      simp only [ MODULE_INFO_LEN] at *
      exact ⟨⟨by omega, by omega, by omega⟩, ih (by omega)⟩
    · exact inside_nil

theorem mem_recordReads {head tail i : ℕ} (n : ℕ)
    (h : ∀ k, i ≤ k → k ≤ i + n → InTable head tail k) :
    .iram (head + (i + n) * MODULE_INFO_LEN) 4 ∈ recordReads head tail (n + 1) i := by
  induction n generalizing i with
  | zero => simp [recordReads, h i]
  | succ n ih =>
    rw [recordReads, if_pos (h i le_rfl (by omega))]
    have := ih (i := i + 1) fun k hik hk => h k (by omega) (by omega)
    rw [show i + 1 + n = i + (n + 1) by omega] at this
    exact List.mem_append_right _ this

/-- A loop whose table ends before it begins leaves every file. -/
theorem not_inside_recordReads {head tail : ℕ} (hlt : tail < head) (hle : head ≤ tail + 12)
    (hs : iramSize < 2 ^ 31) :
    ¬Inside iramSize nvSize (recordReads head tail (2 ^ 28 + 1) 0) := by
  intro h
  have := h _ (mem_recordReads (i := 0) (2 ^ 28) fun k _ hk => by
    rw [InTable, Nat.mod_eq_of_lt (by simp only [ MODULE_INFO_LEN]; omega),
      Nat.mod_eq_of_lt (by omega)]
    simp only [ MODULE_INFO_LEN]
    omega)
  rw [inside_iram] at this
  simp only [ MODULE_INFO_LEN] at this
  omega

end

/-! When everything is inside. -/

/-- The scan range is in the file, and with it the second word of a marker whose first half the
last word of the range is. -/
def RangeFits (m : ℕ → BitVec 8) (marker : List Char) (size : ℕ) : Prop :=
  IMG_HEAD_INFOR_RANGE ≤ size ∧
    (markerAt m marker (SCAN_ROUNDS - 1) = true → IMG_HEAD_INFOR_RANGE + 4 ≤ size)

/-- The tail marker is in the file and not before the first record, or without one the whole range
that is scanned for the first marker that is not found. -/
def HeadScanFits (m : ℕ → BitVec 8) (size : ℕ) : Prop :=
  match headWord m with
  | none => RangeFits m CP_IMG_HEAD0 size
  | some h =>
    match tailWord m h with
    | none => RangeFits m (if h = SCAN_ROUNDS - 1 then CP_IMG_HEAD0 else CP_IMG_TAIL0) size
    | some t => h + 5 ≤ t ∧ (t + 2) * IMG_HEAD_OPS_LEN ≤ size

/-- The tail of the NV area is in the file, or without one the whole range. -/
def NvScanFits (m : ℕ → BitVec 8) (size : ℕ) : Prop :=
  match (nvHeadWord m).bind (nvTailWord m) with
  | none => IMG_HEAD_INFOR_RANGE ≤ size
  | some t => (t + 1) * IMG_HEAD_OPS_LEN ≤ size

/-- An NV file of the new kind has its header in it, and where the image has a module table also
the data named there, if it goes into the NV area of the image. -/
def NvFits (m : ℕ → BitVec 8) (f : Firmware) : Prop :=
  20 < f.size → NV_PNFG_SIZE + 4 ≤ f.size ∧
    ((headWord m).bind (tailWord m) ≠ none →
      (u32At f.data NV_CMFG_SIZE).toNat ≠ 0 →
        (u32At f.data NV_CMFG_SIZE).toNat ≤ nvAreaSize m →
        (u32At f.data NV_CMFG_OFFSET).toNat + (u32At f.data NV_CMFG_SIZE).toNat ≤ f.size)

section
variable {m : ℕ → BitVec 8} {iramSize nvSize : ℕ}

theorem whole_iff_rangeFits {marker : List Char} {i : ℕ} (hi : i < SCAN_ROUNDS) :
    Whole m marker iramSize i (SCAN_ROUNDS - i) ↔ RangeFits m marker iramSize := by
  have hi : i < 128 := hi
  have hn : i + (SCAN_ROUNDS - i) = 128 := by change i + (128 - i) = 128; omega
  have hne : SCAN_ROUNDS - i ≠ 0 := by change 128 - i ≠ 0; omega
  rw [Whole, RangeFits, hn]
  exact or_iff_right hne

/-- Up to the tail marker, or to the end of the range, the head scan is inside. -/
theorem inside_headScanReads_iff :
    Inside iramSize nvSize (headScanReads m SCAN_ROUNDS 0 0) ↔
      match headWord m with
      | none => RangeFits m CP_IMG_HEAD0 iramSize
      | some h =>
        match tailWord m h with
        | none => RangeFits m (if h = SCAN_ROUNDS - 1 then CP_IMG_HEAD0 else CP_IMG_TAIL0) iramSize
        | some t => (t + 2) * IMG_HEAD_OPS_LEN ≤ iramSize := by
  have hw : (List.range' 0 SCAN_ROUNDS).find? (headAt m) = headWord m := rfl
  have hwt (h : ℕ) : (List.range' (h + 1) (SCAN_ROUNDS - (h + 1))).find? (tailAt m) =
      tailWord m h := rfl
  simp only [inside_headScanReads_zero, Nat.zero_add, hw, hwt]
  cases hh : headWord m with
  | none => exact whole_iff_rangeFits (i := 0) (by decide)
  | some h =>
    have hhead : markerAt m CP_IMG_HEAD0 h = true := by
      have := List.find?_some hh
      simp only [headAt, Bool.and_eq_true] at this
      exact this.1
    have hmem := List.mem_range'_1.mp (List.mem_of_find?_eq_some hh)
    have hrounds : SCAN_ROUNDS = 128 := rfl
    have hrange : IMG_HEAD_INFOR_RANGE = 512 := rfl
    cases ht : tailWord m h with
    | none =>
      simp only [ht]
      by_cases hlast : h = SCAN_ROUNDS - 1
      · have hn : SCAN_ROUNDS - (h + 1) = 0 := by omega
        rw [if_pos hlast, RangeFits, Whole, hn, ← hlast, hhead]
        simp only [forall_const]
        omega
      · rw [if_neg hlast, whole_iff_rangeFits (by omega)]
        exact ⟨And.right, fun hr => ⟨by have := hr.1; omega, hr⟩⟩
    | some t =>
      have := (tailWord_bounds hh ht).1
      simp only [ht, IMG_HEAD_OPS_LEN]
      omega

theorem inside_nvScanReads_iff :
    Inside iramSize nvSize (nvScanReads m SCAN_ROUNDS 0 0) ↔ NvScanFits m iramSize := by
  have hfirst : nvScanReads m SCAN_ROUNDS 0 0 =
      .iram 0 4 :: nvScanReads m (SCAN_ROUNDS - 1) 1 0 := by
    change .iram 0 4 :: nvScanReads m 127 1 (if markerAt m CP_NV_HEAD 0 then 0 else 0) = _
    rw [ite_self]
    rfl
  have hn : SCAN_ROUNDS = 128 := rfl
  have hrange : IMG_HEAD_INFOR_RANGE = 512 := rfl
  have hrounds : 1 + (SCAN_ROUNDS - 1) = SCAN_ROUNDS := rfl
  rw [hfirst, inside_cons, inside_iram, NvScanFits]
  have hw : (List.range' 1 (SCAN_ROUNDS - 1)).find? (markerAt m CP_NV_HEAD) = nvHeadWord m := rfl
  have hwt (h : ℕ) : (List.range' (h + 1) (SCAN_ROUNDS - (h + 1))).find? (markerAt m CP_NV_TAIL) =
      nvTailWord m h := rfl
  simp only [inside_nvScanReads_zero one_pos, hrounds, hw, hwt]
  cases hh : nvHeadWord m with
  | none =>
    simp only [Option.bind_none]
    omega
  | some h =>
    have hmem := List.mem_range'_1.mp (List.mem_of_find?_eq_some hh)
    cases ht : nvTailWord m h with
    | none =>
      simp only [Option.bind_some, ht]
      omega
    | some t =>
      have := List.mem_range'_1.mp (List.mem_of_find?_eq_some ht)
      simp only [Option.bind_some, ht, IMG_HEAD_OPS_LEN]
      omega

end

/-- All accesses are inside, and the image differs from the file only in the NV area. -/
structure Contained (iram : Firmware) (nv : Option Firmware) : Prop where
  inside : ∀ fuel, Inside iram.size ((nv.map Firmware.size).getD 0)
    (BootData.bootInitAccesses fuel iram nv)
  frame : ∀ fuel b addrs ret,
    BootData.bootInit fuel (.requested iram nv) nv = some (b, addrs, ret) →
      ∀ a, a < b.nvHeadAddr + 4 ∨ b.nvTailAddr ≤ a → b.iramImgData a = iram.data a

namespace BootData

theorem nvPatch_le {b : BootData} {a n : ℕ} (h : b.nvPatch = some (a, n)) :
    n ≠ 0 ∧ n ≤ b.nvDataSize := by
  unfold nvPatch at h
  by_cases hsize : 20 < b.nvMemSize
  · rw [if_pos hsize] at h
    obtain ⟨hc, he⟩ := Option.ite_none_right_eq_some.mp h
    cases he
    exact hc
  · rw [if_neg hsize] at h
    obtain ⟨hc, he⟩ := Option.ite_none_right_eq_some.mp h
    cases he
    exact hc

section
variable {iram : Firmware} {nv : Option Firmware} {headOffset tailOffset : ℕ} {addrs : List ℕ}

theorem nvPatch_counted :
    (counted iram nv headOffset tailOffset addrs).nvPatch =
      (requested iram nv).findNv.nvPatch := by
  rw [counted_eq]
  rfl

/-- What is copied stays between the markers of the NV area. -/
theorem exists_nvWords {a n : ℕ} (h : (requested iram nv).findNv.nvPatch = some (a, n)) :
    ∃ k t, nvHeadWord iram.data = some k ∧ nvTailWord iram.data k = some t ∧
      (requested iram nv).findNv.nvHeadAddr = k * IMG_HEAD_OPS_LEN ∧
      (requested iram nv).findNv.nvTailAddr = t * IMG_HEAD_OPS_LEN ∧
      k * IMG_HEAD_OPS_LEN + 4 + n ≤ t * IMG_HEAD_OPS_LEN := by
  have himg : (requested iram nv).iramImgData = iram.data := rfl
  obtain ⟨hn, hle⟩ := nvPatch_le h
  rw [findNv_eq] at hle ⊢
  simp only [himg, nvAreaSize] at hle ⊢
  cases hk : nvHeadWord iram.data with
  | none => simp [hk, hn] at hle
  | some k =>
    cases ht : nvTailWord iram.data k with
    | none => simp [hk, ht, hn] at hle
    | some t =>
      simp only [hk, ht, Option.elim_some, IMG_HEAD_OPS_LEN] at hle ⊢
      exact ⟨k, t, rfl, ht, rfl, rfl, by omega⟩

theorem nvPatch_of_gt {f : Firmware} (hf : 20 < f.size) :
    (requested iram (some f)).findNv.nvPatch =
      if (u32At f.data NV_CMFG_SIZE).toNat ≠ 0 ∧
          (u32At f.data NV_CMFG_SIZE).toNat ≤ nvAreaSize iram.data then
        some ((u32At f.data NV_CMFG_OFFSET).toNat, (u32At f.data NV_CMFG_SIZE).toNat)
      else none := by
  rw [findNv_eq]
  simp [nvPatch, requested, hf]

theorem nvPatch_of_le {f : Firmware} (hf : ¬20 < f.size) :
    (requested iram (some f)).findNv.nvPatch =
      if f.size ≠ 0 ∧ f.size ≤ nvAreaSize iram.data then some (0, f.size) else none := by
  rw [findNv_eq]
  simp [nvPatch, requested, hf]

theorem inside_patchAccesses_iff (hs : NvScanFits iram.data iram.size) :
    Inside iram.size ((nv.map Firmware.size).getD 0)
        (counted iram nv headOffset tailOffset addrs).patchAccesses ↔
      ∀ f, nv = some f → 20 < f.size →
        (u32At f.data NV_CMFG_SIZE).toNat ≠ 0 →
          (u32At f.data NV_CMFG_SIZE).toNat ≤ nvAreaSize iram.data →
          (u32At f.data NV_CMFG_OFFSET).toNat + (u32At f.data NV_CMFG_SIZE).toNat ≤ f.size := by
  have hhead : (counted iram nv headOffset tailOffset addrs).nvHeadAddr =
      (requested iram nv).findNv.nvHeadAddr := by
    rw [counted_eq]
    rfl
  rw [patchAccesses, nvPatch_counted, hhead]
  -- The writes are inside anyway, since the whole NV area is.
  have harea {a n : ℕ} (h : (requested iram nv).findNv.nvPatch = some (a, n)) :
      (requested iram nv).findNv.nvHeadAddr + 4 + n ≤ iram.size := by
    obtain ⟨k, t, hk, ht, hka, -, hle⟩ := exists_nvWords h
    simp only [NvScanFits, hk, ht, Option.bind_some, IMG_HEAD_OPS_LEN] at hs hle hka
    omega
  cases nv with
  | none => simp [nvPatch, requested, findNv_eq]
  | some f =>
    simp only [Option.map_some, Option.getD_some, Option.some.injEq, forall_eq']
    by_cases hf : 20 < f.size
    · have hp := @nvPatch_of_gt iram f hf
      by_cases hc : (u32At f.data NV_CMFG_SIZE).toNat ≠ 0 ∧
          (u32At f.data NV_CMFG_SIZE).toNat ≤ nvAreaSize iram.data
      · rw [if_pos hc] at hp
        rw [hp]
        simp only [inside_cons, inside_nil, and_true]
        exact ⟨fun h _ _ _ => h.1, fun h => ⟨h hf hc.1 hc.2, harea hp⟩⟩
      · rw [if_neg hc] at hp
        rw [hp]
        exact iff_of_true inside_nil fun _ hne hle => absurd ⟨hne, hle⟩ hc
    · refine iff_of_true ?_ fun h => absurd h hf
      have hp := @nvPatch_of_le iram f hf
      split_ifs at hp with hc
      · rw [hp]
        simp only [inside_cons, inside_nil, and_true]
        exact ⟨(Nat.zero_add _).le, harea hp⟩
      · rw [hp]
        exact inside_nil

/-- The image keeps what is not between the markers of the NV area. -/
theorem frame_bootInit {fuel : ℕ} {b : BootData} {ret : ℤ}
    (h : bootInit fuel (requested iram nv) nv = some (b, addrs, ret)) {a : ℕ}
    (ha : a < b.nvHeadAddr + 4 ∨ b.nvTailAddr ≤ a) : b.iramImgData a = iram.data a := by
  rw [bootInit_requested] at h
  split at h
  · cases h
    rfl
  · obtain ⟨l, -, he⟩ := Option.map_eq_some_iff.mp h
    cases he
    generalize (headScan iram.data SCAN_ROUNDS 0 0).1 = headOffset at ha ⊢
    generalize (headScan iram.data SCAN_ROUNDS 0 0).2 = tailOffset at ha ⊢
    obtain ⟨m, hm⟩ := inited_eq iram nv headOffset tailOffset addrs
    have hhead : (inited iram nv headOffset tailOffset addrs).nvHeadAddr =
        (requested iram nv).findNv.nvHeadAddr := by rw [hm]; rfl
    have htail : (inited iram nv headOffset tailOffset addrs).nvTailAddr =
        (requested iram nv).findNv.nvTailAddr := by rw [hm]; rfl
    rw [hhead, htail] at ha
    have himg : (counted iram nv headOffset tailOffset addrs).iramImgData = iram.data := by
      rw [counted_eq]; rfl
    have hhead : (counted iram nv headOffset tailOffset addrs).nvHeadAddr =
        (requested iram nv).findNv.nvHeadAddr := by rw [counted_eq]; rfl
    rw [inited]
    cases hp : (requested iram nv).findNv.nvPatch with
    | none => simp [patch, nvPatch_counted, hp, himg]
    | some p =>
      obtain ⟨k, t, -, -, hk, ht, hle⟩ := exists_nvWords (n := p.2) hp
      cases nv with
      | none => simp [patch, himg]
      | some f =>
        simp only [patch, nvPatch_counted, hp, himg, hhead]
        rw [hk] at ha ⊢
        rw [ht] at ha
        rcases ha with ha | ha
        · exact Lib.store_of_lt ha
        · exact Lib.store_of_ge (by rw [Lib.length_load]; omega)

end

end BootData

/-- With the table in the file the record loop is inside, unless it begins behind its end. -/
theorem inside_tableReads_iff {h t size nvSize : ℕ} (hlo : h + 2 ≤ t) (hhi : t < SCAN_ROUNDS)
    (ht : (t + 2) * IMG_HEAD_OPS_LEN ≤ size) (hs : size < 2 ^ 31) :
    (∀ fuel, Inside size nvSize
      (recordReads ((h + 1) * IMG_HEAD_OPS_LEN + RAM_ADDR_OPS_LEN + IMG_HEAD_OPS_LEN)
        ((t - 1) * IMG_HEAD_OPS_LEN) fuel 0)) ↔ h + 5 ≤ t := by
  have hrounds : SCAN_ROUNDS = 128 := rfl
  simp only [IMG_HEAD_OPS_LEN] at ht
  constructor
  · intro hr
    by_contra hlt
    refine not_inside_recordReads ?_ ?_ hs (hr (2 ^ 28 + 1))
    · simp only [IMG_HEAD_OPS_LEN, RAM_ADDR_OPS_LEN]
      omega
    · simp only [IMG_HEAD_OPS_LEN, RAM_ADDR_OPS_LEN]
      omega
  · intro hle fuel
    refine inside_recordReads ?_ ?_ ?_ fuel ?_
    · simp only [IMG_HEAD_OPS_LEN, RAM_ADDR_OPS_LEN]
      omega
    · simp only [IMG_HEAD_OPS_LEN]
      omega
    · simp only [IMG_HEAD_OPS_LEN]
      omega
    · omega

theorem inside_nvHeaderReads_iff {size : ℕ} {nv : Option Firmware} :
    Inside size ((nv.map Firmware.size).getD 0) (nvHeaderReads nv) ↔
      ∀ f, nv = some f → 20 < f.size → NV_PNFG_SIZE + 4 ≤ f.size := by
  cases nv with
  | none => simp [nvHeaderReads]
  | some f =>
    by_cases hf : 20 < f.size
    · simp [nvHeaderReads, hf, ImgAccess.Inside, NV_CMFG_OFFSET, NV_CMFG_SIZE, NV_PNFG_OFFSET,
        NV_PNFG_SIZE]
      omega
    · simp [nvHeaderReads, hf]

namespace BootData
variable {iram : Firmware} {nv : Option Firmware} {h t : ℕ}

theorem bootInitAccesses_of_none (hw : (headWord iram.data).bind (tailWord iram.data) = none)
    (fuel : ℕ) : bootInitAccesses fuel iram nv =
      nvHeaderReads nv ++ headScanReads iram.data SCAN_ROUNDS 0 0 ++
        nvScanReads iram.data SCAN_ROUNDS 0 0 := by
  have hz : (headScan iram.data SCAN_ROUNDS 0 0).2 = 0 := by
    rw [headScan_eq]
    cases hh : headWord iram.data with
    | none => rfl
    | some h =>
      have ht : tailWord iram.data h = none := by simpa [hh] using hw
      simp [ht]
  simp only [bootInitAccesses, hz, if_true, List.append_nil]

theorem bootInitAccesses_of_some (hh : headWord iram.data = some h)
    (ht : tailWord iram.data h = some t) (fuel : ℕ) :
    let head := (h + 1) * IMG_HEAD_OPS_LEN + RAM_ADDR_OPS_LEN + IMG_HEAD_OPS_LEN
    bootInitAccesses fuel iram nv =
      nvHeaderReads nv ++ headScanReads iram.data SCAN_ROUNDS 0 0 ++
        nvScanReads iram.data SCAN_ROUNDS 0 0 ++
        ([.iram ((h + 1) * IMG_HEAD_OPS_LEN + IMG_HEAD_OPS_LEN) 4,
          .iram ((h + 1) * IMG_HEAD_OPS_LEN + IMG_HEAD_OPS_LEN + 4) 4] ++
          recordReads head ((t - 1) * IMG_HEAD_OPS_LEN) fuel 0 ++
          match recordLoop head ((t - 1) * IMG_HEAD_OPS_LEN) fuel 0 with
          | some addrs => (counted iram nv ((h + 1) * IMG_HEAD_OPS_LEN)
              ((t - 1) * IMG_HEAD_OPS_LEN) addrs).patchAccesses
          | none => []) := by
  have hlo := (tailWord_bounds hh ht).1
  have hne : (t - 1) * IMG_HEAD_OPS_LEN ≠ 0 := by
    simp only [IMG_HEAD_OPS_LEN]
    omega
  simp only [bootInitAccesses, headScan_eq, hh, ht, Option.elim_some, if_neg hne]

end BootData

/-- A loop that begins before its end ends. -/
theorem exists_recordLoop_of_le {h t : ℕ} (hle : h + 5 ≤ t) (hhi : t < SCAN_ROUNDS) :
    ∃ fuel addrs, recordLoop ((h + 1) * IMG_HEAD_OPS_LEN + RAM_ADDR_OPS_LEN + IMG_HEAD_OPS_LEN)
      ((t - 1) * IMG_HEAD_OPS_LEN) fuel 0 = some addrs := by
  have hhi : t < 128 := hhi
  have hn : (∀ j < (t - h - 5) / 3 + 1,
      InTable ((h + 1) * IMG_HEAD_OPS_LEN + RAM_ADDR_OPS_LEN + IMG_HEAD_OPS_LEN)
        ((t - 1) * IMG_HEAD_OPS_LEN) j) ∧
      ¬InTable ((h + 1) * IMG_HEAD_OPS_LEN + RAM_ADDR_OPS_LEN + IMG_HEAD_OPS_LEN)
        ((t - 1) * IMG_HEAD_OPS_LEN) ((t - h - 5) / 3 + 1) := by
    simp only [InTable, IMG_HEAD_OPS_LEN, RAM_ADDR_OPS_LEN, MODULE_INFO_LEN]
    have hd : ((t - 1) * 4 + 2 ^ 32 - ((h + 1) * 4 + 8 + 4)) % 2 ^ 32 = (t - h - 5) * 4 := by omega
    rw [hd]
    exact ⟨fun j hj => by omega, by omega⟩
  obtain ⟨fuel, hf⟩ := exists_recordLoop_iff.mpr hn
  exact ⟨fuel, _, hf⟩

/-- All accesses are inside the files exactly when the scans, the table and what the NV header
names fit. -/
theorem contained_iff (iram : Firmware) (nv : Option Firmware) :
    Contained iram nv ↔
      HeadScanFits iram.data iram.size ∧ NvScanFits iram.data iram.size ∧
        ∀ f, nv = some f → NvFits iram.data f := by
  have hframe : Contained iram nv ↔ ∀ fuel, Inside iram.size ((nv.map Firmware.size).getD 0)
      (BootData.bootInitAccesses fuel iram nv) :=
    ⟨Contained.inside, fun h => ⟨h, fun _ _ _ _ hb _ ha => BootData.frame_bootInit hb ha⟩⟩
  rw [hframe]
  cases hw : (headWord iram.data).bind (tailWord iram.data) with
  | none =>
    have hscan : Inside iram.size ((nv.map Firmware.size).getD 0)
        (headScanReads iram.data SCAN_ROUNDS 0 0) ↔ HeadScanFits iram.data iram.size := by
      rw [inside_headScanReads_iff, HeadScanFits]
      cases hh : headWord iram.data with
      | none => rfl
      | some h =>
        have ht : tailWord iram.data h = none := by simpa [hh] using hw
        simp only [ht]
    have hnv : (∀ f, nv = some f → NvFits iram.data f) ↔
        ∀ f, nv = some f → 20 < f.size → NV_PNFG_SIZE + 4 ≤ f.size := by
      simp [NvFits, hw]
    simp only [BootData.bootInitAccesses_of_none hw, inside_append, inside_nvHeaderReads_iff,
      hscan, inside_nvScanReads_iff, forall_const, hnv]
    tauto
  | some t =>
    obtain ⟨h, hh, ht⟩ := Option.bind_eq_some_iff.mp hw
    obtain ⟨hlo, hhi⟩ := tailWord_bounds hh ht
    have hscan : HeadScanFits iram.data iram.size ↔
        h + 5 ≤ t ∧ (t + 2) * IMG_HEAD_OPS_LEN ≤ iram.size := by
      simp only [HeadScanFits, hh, ht]
    simp only [BootData.bootInitAccesses_of_some hh ht, inside_append, inside_nvHeaderReads_iff,
      inside_headScanReads_iff, inside_nvScanReads_iff, inside_cons, inside_nil, inside_iram,
      hscan, hh, ht]
    constructor
    · intro hall
      obtain ⟨⟨⟨hheader, hsize⟩, hnvs⟩, -⟩ := hall 0
      have hle := (inside_tableReads_iff hlo hhi hsize iram.size_lt).mp fun fuel =>
        (hall fuel).2.1.2
      obtain ⟨fuel, addrs, hrun⟩ := exists_recordLoop_of_le hle hhi
      have hpatch := (hall fuel).2.2
      rw [hrun] at hpatch
      refine ⟨⟨hle, hsize⟩, hnvs, fun f hf hgt => ⟨hheader f hf hgt, fun _ => ?_⟩⟩
      exact (BootData.inside_patchAccesses_iff hnvs).mp hpatch f hf hgt
    · rintro ⟨⟨hle, hsize⟩, hnvs, hnv⟩ fuel
      refine ⟨⟨⟨fun f hf hgt => (hnv f hf hgt).1, hsize⟩, hnvs⟩, ⟨⟨?_, ?_, trivial⟩,
        (inside_tableReads_iff hlo hhi hsize iram.size_lt).mpr hle fuel⟩, ?_⟩
      · simp only [IMG_HEAD_OPS_LEN] at hsize ⊢
        omega
      · simp only [IMG_HEAD_OPS_LEN] at hsize ⊢
        omega
      · cases recordLoop ((h + 1) * IMG_HEAD_OPS_LEN + RAM_ADDR_OPS_LEN + IMG_HEAD_OPS_LEN)
          ((t - 1) * IMG_HEAD_OPS_LEN) fuel 0 with
        | none => exact inside_nil
        | some addrs =>
          exact (BootData.inside_patchAccesses_iff hnvs).mpr fun f hf hgt =>
            (hnv f hf hgt).2 (by simp [hw])

/-- An image without a marker that ends before the scan range. -/
def shortImage : Firmware := .ofWords [] 0x100 (by decide)

/-- An image with one record and an NV area of two words, and NV data that lies behind the file. -/
def nvImage : Firmware :=
  .ofWords [0x7365656B, 0x36313630, 0x100000, 0x20200000, 0x100000, 0x01000010, 0x100000,
    0x77617665, 0x36313630, 0x4E565354, 0, 0, 0x4E564544] 0x200 headInforRange_lt

def farNv : Firmware := .ofWords [0, 0, 0x10000, 8, 0, 0] 24 (by decide)

theorem shortImage_nvImage_not_contained :
    ¬Contained shortImage none ∧ ¬Contained nvImage (some farNv) := by
  have hshort : ∃ x ∈ BootData.bootInitAccesses 0 shortImage none,
      ¬x.Inside shortImage.size 0 := by decide +kernel
  have hfar : ∃ x ∈ BootData.bootInitAccesses 2 nvImage (some farNv),
      ¬x.Inside nvImage.size farNv.size := by decide +kernel
  constructor
  · obtain ⟨x, hx, hout⟩ := hshort
    exact fun h => hout (h.inside 0 x hx)
  · obtain ⟨x, hx, hout⟩ := hfar
    exact fun h => hout (h.inside 2 x hx)

end Skw
