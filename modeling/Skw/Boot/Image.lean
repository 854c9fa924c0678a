import Skw.Kernel.Types
import Skw.Lib.Buffer

/-! The firmware files of the chip and what `skw_boot_init` takes from them: the markers of the
IRAM image, its two load addresses, the table of its modules and the area for the NV data. -/
namespace Skw

abbrev IMG_HEAD_OPS_LEN : ℕ := 4
abbrev RAM_ADDR_OPS_LEN : ℕ := 8
abbrev MODULE_INFO_LEN : ℕ := 12
abbrev IMG_HEAD_INFOR_RANGE : ℕ := 0x200

abbrev NV_CMFG_OFFSET : ℕ := 0x8
abbrev NV_CMFG_SIZE : ℕ := 0xC
abbrev NV_PNFG_OFFSET : ℕ := 0x10
abbrev NV_PNFG_SIZE : ℕ := 0x14

/-- The rounds of a marker scan. -/
abbrev SCAN_ROUNDS : ℕ := IMG_HEAD_INFOR_RANGE / IMG_HEAD_OPS_LEN

abbrev CP_IMG_HEAD0 : List Char := ['k', 'e', 'e', 's']
abbrev CP_IMG_HEAD1 : List Char := ['0', '6', '1', '6']
abbrev CP_IMG_TAIL0 : List Char := ['e', 'v', 'a', 'w']
abbrev CP_IMG_TAIL1 : List Char := ['0', '6', '1', '6']
abbrev CP_NV_HEAD : List Char := ['T', 'S', 'V', 'N']
abbrev CP_NV_TAIL : List Char := ['D', 'E', 'V', 'N']

/-- The memory from the start of a buffer on that holds a file; the kernel reads no file of more
than `INT_MAX` bytes. -/
structure Firmware where
  data : ℕ → BitVec 8
  size : ℕ
  size_lt : size < 2 ^ 31

theorem headInforRange_lt : IMG_HEAD_INFOR_RANGE < 2 ^ 31 := by decide

/-- A file of some size that begins with the words. -/
def Firmware.ofWords (ws : List (BitVec 32)) (size : ℕ) (h : size < 2 ^ 31) : Firmware where
  data i := (ws.getD (i / 4) 0 >>> (8 * (i % 4))).setWidth 8
  size := size
  size_lt := h

/-- A little-endian word of memory. -/
def u32At (m : ℕ → BitVec 8) (a : ℕ) : BitVec 32 := m (a + 3) ++ m (a + 2) ++ m (a + 1) ++ m a

/-- `memcmp` of a marker with the `i`-th word finds no difference. -/
def markerAt (m : ℕ → BitVec 8) (marker : List Char) (i : ℕ) : Bool :=
  Lib.load m (i * IMG_HEAD_OPS_LEN) IMG_HEAD_OPS_LEN == marker.map fun c => BitVec.ofNat 8 c.toNat

/-- The two words of the head marker from the `i`-th one on, and those of the tail marker. -/
def headAt (m : ℕ → BitVec 8) (i : ℕ) : Bool :=
  markerAt m CP_IMG_HEAD0 i && markerAt m CP_IMG_HEAD1 (i + 1)

def tailAt (m : ℕ → BitVec 8) (i : ℕ) : Bool :=
  markerAt m CP_IMG_TAIL0 i && markerAt m CP_IMG_TAIL1 (i + 1)

/-- The scan for the head and the tail of the table from round `i` on; its result is `head_offset`
and `tail_offset`. -/
def headScan (m : ℕ → BitVec 8) : ℕ → ℕ → ℕ → ℕ × ℕ
  | 0, _, headOffset => (headOffset, 0)
  | n + 1, i, headOffset =>
    if headOffset = 0 then
      headScan m n (i + 1) (if headAt m i then (i + 1) * IMG_HEAD_OPS_LEN else 0)
    else if tailAt m i then (headOffset, (i - 1) * IMG_HEAD_OPS_LEN)
    else headScan m n (i + 1) headOffset

/-- The scan for the NV area; its result is `nv_head_addr` and `nv_tail_addr`. -/
def nvScan (m : ℕ → BitVec 8) : ℕ → ℕ → ℕ → ℕ × ℕ
  | 0, _, nvHeadAddr => (nvHeadAddr, 0)
  | n + 1, k, nvHeadAddr =>
    if nvHeadAddr = 0 then
      nvScan m n (k + 1) (if markerAt m CP_NV_HEAD k then k * IMG_HEAD_OPS_LEN else 0)
    else if markerAt m CP_NV_TAIL k then (nvHeadAddr, k * IMG_HEAD_OPS_LEN)
    else nvScan m n (k + 1) nvHeadAddr

theorem headScan_of_ne {head : ℕ} (hd : head ≠ 0) (m : ℕ → BitVec 8) (n i : ℕ) :
    headScan m n i head =
      (head, ((List.range' i n).find? (tailAt m)).elim 0 fun t => (t - 1) * IMG_HEAD_OPS_LEN) := by
  induction n generalizing i with
  | zero => rfl
  | succ n ih =>
    rw [headScan, if_neg hd, List.range'_succ, List.find?_cons]
    cases ht : tailAt m i with
    | true => rfl
    | false => simpa using ih (i + 1)

/-- The head scan finds the first head marker and the first tail marker behind it. -/
theorem headScan_zero (m : ℕ → BitVec 8) (n i : ℕ) :
    headScan m n i 0 =
      ((List.range' i n).find? (headAt m)).elim (0, 0) fun h =>
        ((h + 1) * IMG_HEAD_OPS_LEN,
          ((List.range' (h + 1) (i + n - (h + 1))).find? (tailAt m)).elim 0 fun t =>
            (t - 1) * IMG_HEAD_OPS_LEN) := by
  induction n generalizing i with
  | zero => rfl
  | succ n ih =>
    rw [headScan, if_pos rfl, List.range'_succ, List.find?_cons]
    cases hh : headAt m i with
    | true =>
      have hn : i + (n + 1) - (i + 1) = n := by omega
      simp [headScan_of_ne, hn]
    | false =>
      have hn : i + 1 + n = i + (n + 1) := by omega
      simpa [hn] using ih (i + 1)

theorem nvScan_of_ne {head : ℕ} (hd : head ≠ 0) (m : ℕ → BitVec 8) (n k : ℕ) :
    nvScan m n k head =
      (head, ((List.range' k n).find? (markerAt m CP_NV_TAIL)).elim 0 fun t =>
        t * IMG_HEAD_OPS_LEN) := by
  induction n generalizing k with
  | zero => rfl
  | succ n ih =>
    rw [nvScan, if_neg hd, List.range'_succ, List.find?_cons]
    cases ht : markerAt m CP_NV_TAIL k with
    | true => rfl
    | false => simpa using ih (k + 1)

/-- So does the NV scan, where the first word is no head. -/
theorem nvScan_zero (m : ℕ → BitVec 8) {k : ℕ} (hk : 0 < k) (n : ℕ) :
    nvScan m n k 0 =
      ((List.range' k n).find? (markerAt m CP_NV_HEAD)).elim (0, 0) fun h =>
        (h * IMG_HEAD_OPS_LEN,
          ((List.range' (h + 1) (k + n - (h + 1))).find? (markerAt m CP_NV_TAIL)).elim 0 fun t =>
            t * IMG_HEAD_OPS_LEN) := by
  induction n generalizing k with
  | zero => rfl
  | succ n ih =>
    rw [nvScan, if_pos rfl, List.range'_succ, List.find?_cons]
    cases hh : markerAt m CP_NV_HEAD k with
    | true =>
      have hn : k + (n + 1) - (k + 1) = n := by omega
      simp [nvScan_of_ne, hk.ne', hn]
    | false =>
      have hn : k + 1 + n = k + (n + 1) := by omega
      simpa [hn] using ih (Nat.succ_pos k)

/-! The words at which the scans find the markers. -/

def headWord (m : ℕ → BitVec 8) : Option ℕ := (List.range' 0 SCAN_ROUNDS).find? (headAt m)

def tailWord (m : ℕ → BitVec 8) (h : ℕ) : Option ℕ :=
  (List.range' (h + 1) (SCAN_ROUNDS - (h + 1))).find? (tailAt m)

def nvHeadWord (m : ℕ → BitVec 8) : Option ℕ :=
  (List.range' 1 (SCAN_ROUNDS - 1)).find? (markerAt m CP_NV_HEAD)

def nvTailWord (m : ℕ → BitVec 8) (h : ℕ) : Option ℕ :=
  (List.range' (h + 1) (SCAN_ROUNDS - (h + 1))).find? (markerAt m CP_NV_TAIL)

/-- The length of the NV area of an image. -/
def nvAreaSize (m : ℕ → BitVec 8) : ℕ :=
  (nvHeadWord m).elim 0 fun h => (nvTailWord m h).elim 0 fun t => (t - h - 1) * IMG_HEAD_OPS_LEN

theorem headScan_eq (m : ℕ → BitVec 8) :
    headScan m SCAN_ROUNDS 0 0 =
      (headWord m).elim (0, 0) fun h =>
        ((h + 1) * IMG_HEAD_OPS_LEN,
          (tailWord m h).elim 0 fun t => (t - 1) * IMG_HEAD_OPS_LEN) := by
  simp only [headScan_zero, headWord, tailWord, Nat.zero_add]

theorem nvScan_eq (m : ℕ → BitVec 8) :
    nvScan m SCAN_ROUNDS 0 0 =
      (nvHeadWord m).elim (0, 0) fun h =>
        (h * IMG_HEAD_OPS_LEN, (nvTailWord m h).elim 0 fun t => t * IMG_HEAD_OPS_LEN) := by
  have hfirst : nvScan m SCAN_ROUNDS 0 0 = nvScan m (SCAN_ROUNDS - 1) 1 0 := by
    change nvScan m 127 1 (if markerAt m CP_NV_HEAD 0 then 0 * IMG_HEAD_OPS_LEN else 0) = _
    rw [Nat.zero_mul, ite_self]
    rfl
  have hrounds : 1 + (SCAN_ROUNDS - 1) = SCAN_ROUNDS := rfl
  simp only [hfirst, nvScan_zero m one_pos, nvHeadWord, nvTailWord, hrounds]

/-- The second half of a head marker is not the first of a tail marker. -/
theorem tailAt_succ_of_headAt {m : ℕ → BitVec 8} {i : ℕ} (h : headAt m i = true) :
    tailAt m (i + 1) = false := by
  simp only [headAt, markerAt, Bool.and_eq_true, beq_iff_eq] at h
  simp only [tailAt, markerAt, h.2]
  rfl

theorem tailWord_bounds {m : ℕ → BitVec 8} {h t : ℕ} (hh : headWord m = some h)
    (ht : tailWord m h = some t) : h + 2 ≤ t ∧ t < SCAN_ROUNDS := by
  have hat := List.find?_some ht
  have hmem := List.mem_range'_1.mp (List.mem_of_find?_eq_some ht)
  have hne : t ≠ h + 1 := by
    rintro rfl
    rw [tailAt_succ_of_headAt (List.find?_some hh)] at hat
    cases hat
  omega

/-- `EndianConv_32`. -/
def endianConv32 (value : BitVec 32) : BitVec 32 :=
  (value >>> 24 ||| value <<< 24) ||| (value >>> 8 &&& 0x0000FF00) ||| (value <<< 8 &&& 0x00FF0000)

/-- `img_head_data_t`. -/
structure ImgHeadData where
  index : BitVec 32
  dlAddr : BitVec 32
  dataSize : BitVec 32
  writeAddr : BitVec 32
deriving DecidableEq

/-- The record at an address. -/
def imgHeadData (m : ℕ → BitVec 8) (a : ℕ) : ImgHeadData where
  index := 0xFF &&& endianConv32 (u32At m (a + 4))
  dlAddr := u32At m a
  dataSize := 0x00FFFFFF &&& u32At m (a + 4)
  writeAddr := u32At m (a + 8)

/-- The condition of a record loop in its round `i`: the comparison is one of unsigned numbers. -/
def InTable (head tail i : ℕ) : Prop := i * MODULE_INFO_LEN % 2 ^ 32 ≤ (tail + 2 ^ 32 - head) % 2 ^ 32

instance (head tail i : ℕ) : Decidable (InTable head tail i) := inferInstanceAs (Decidable (_ ≤ _))

/-- The addresses that a record loop visits from round `i` on, if it ends within `fuel` rounds. -/
def recordLoop (head tail : ℕ) : ℕ → ℕ → Option (List ℕ)
  | 0, _ => none
  | fuel + 1, i =>
    if InTable head tail i then
      (recordLoop head tail fuel (i + 1)).map fun l => (head + i * MODULE_INFO_LEN) :: l
    else some []

/-- The addresses of `n` records in a row. -/
def recordAddrs (head n : ℕ) : List ℕ := (List.range n).map fun i => head + i * MODULE_INFO_LEN

theorem recordLoop_eq_some {head tail fuel i : ℕ} {l : List ℕ}
    (h : recordLoop head tail fuel i = some l) :
    l = (List.range' i l.length).map (fun j => head + j * MODULE_INFO_LEN) ∧
      (∀ j, i ≤ j → j < i + l.length → InTable head tail j) ∧
      ¬InTable head tail (i + l.length) := by
  induction fuel generalizing i l with
  | zero => cases h
  | succ fuel ih =>
    rw [recordLoop] at h
    by_cases hi : InTable head tail i
    · rw [if_pos hi, Option.map_eq_some_iff] at h
      obtain ⟨l, hl, rfl⟩ := h
      obtain ⟨he, hin, hout⟩ := ih hl
      refine ⟨?_, fun j hij hj => ?_, ?_⟩
      · rw [List.length_cons, List.range'_succ, List.map_cons, ← he]
      · rcases Nat.eq_or_lt_of_le hij with rfl | hij
        · exact hi
        · exact hin j hij (by rw [List.length_cons] at hj; omega)
      · rwa [List.length_cons, show i + (l.length + 1) = i + 1 + l.length by omega]
    · rw [if_neg hi, Option.some.injEq] at h
      subst h
      exact ⟨rfl, fun j hij hj => absurd hj (by simp; omega), hi⟩

/-- The rounds do not depend on the fuel. -/
theorem recordLoop_unique {head tail fuel fuel' i : ℕ} {l l' : List ℕ}
    (h : recordLoop head tail fuel i = some l) (h' : recordLoop head tail fuel' i = some l') :
    l = l' := by
  obtain ⟨he, hin, hout⟩ := recordLoop_eq_some h
  obtain ⟨he', hin', hout'⟩ := recordLoop_eq_some h'
  have hle : l'.length ≤ l.length :=
    not_lt.mp fun hlt => hout (hin' _ (Nat.le_add_right ..) (by omega))
  have hge : l.length ≤ l'.length :=
    not_lt.mp fun hlt => hout' (hin _ (Nat.le_add_right ..) (by omega))
  rw [he, he', le_antisymm hle hge]

theorem recordLoop_of_inTable {head tail i n : ℕ}
    (hin : ∀ j, i ≤ j → j < i + n → InTable head tail j) (hout : ¬InTable head tail (i + n)) :
    recordLoop head tail (n + 1) i =
      some ((List.range' i n).map fun j => head + j * MODULE_INFO_LEN) := by
  induction n generalizing i with
  | zero => exact if_neg hout
  | succ n ih =>
    have ih := ih (i := i + 1) (fun j hij hj => hin j (by omega) (by omega))
      (by rwa [show i + 1 + n = i + (n + 1) by omega])
    rw [recordLoop, if_pos (hin i le_rfl (by omega)), ih]
    rfl

/-- A record loop visits exactly the first `n` records. -/
theorem exists_recordLoop_iff {head tail n : ℕ} :
    (∃ fuel, recordLoop head tail fuel 0 = some (recordAddrs head n)) ↔
      (∀ j < n, InTable head tail j) ∧ ¬InTable head tail n := by
  constructor
  · rintro ⟨fuel, h⟩
    obtain ⟨-, hin, hout⟩ := recordLoop_eq_some h
    have hn : (recordAddrs head n).length = n := by simp [recordAddrs]
    rw [hn, Nat.zero_add] at hin hout
    exact ⟨fun j hj => hin j (Nat.zero_le j) hj, hout⟩
  · rintro ⟨hin, hout⟩
    refine ⟨n + 1, ?_⟩
    rw [recordLoop_of_inTable (fun j _ hj => hin j (by omega)) (by rwa [Nat.zero_add]),
      ← List.range_eq_range']
    rfl

/-- What is used of `seekwave_device` here. -/
structure BootData where
  iramImgData : ℕ → BitVec 8
  iramDlAddr : BitVec 32
  dramDlAddr : BitVec 32
  headAddr : ℕ
  tailAddr : ℕ
  nvHeadAddr : ℕ
  nvTailAddr : ℕ
  nvDataSize : ℕ
  nvMemSize : ℕ
  nvMemCmfgData : ℕ
  nvMemCmfgSize : ℕ
  bspIndexCount : ℕ
  wifiIndexCount : ℕ
  btIndexCount : ℕ
  wifiDlCount : ℕ
  btDlCount : ℕ
  allDlCount : ℕ

namespace BootData

/-- After `skw_request_firmwares` with the IRAM image and the NV file, if there is one; the rest is
as `devm_kzalloc` leaves it. `nvMemCmfgData` is counted from the start of the NV data. -/
def requested (iram : Firmware) (nv : Option Firmware) : BootData where
  iramImgData := iram.data
  iramDlAddr := 0
  dramDlAddr := 0
  headAddr := 0
  tailAddr := 0
  nvHeadAddr := 0
  nvTailAddr := 0
  nvDataSize := 0
  nvMemSize := (nv.map Firmware.size).getD 0
  nvMemCmfgData :=
    match nv with
    | some nv => if 20 < nv.size then (u32At nv.data NV_CMFG_OFFSET).toNat else 0
    | none => 0
  nvMemCmfgSize :=
    match nv with
    | some nv => if 20 < nv.size then (u32At nv.data NV_CMFG_SIZE).toNat else 0
    | none => 0
  bspIndexCount := 0
  wifiIndexCount := 0
  btIndexCount := 0
  wifiDlCount := 0
  btDlCount := 0
  allDlCount := 0

/-- `nv_head_addr`, `nv_tail_addr` and `nv_data_size`. -/
def findNv (b : BootData) : BootData :=
  let (nvHead, nvTail) := nvScan b.iramImgData SCAN_ROUNDS 0 0
  { b with
    nvHeadAddr := nvHead
    nvTailAddr := nvTail
    nvDataSize := if nvTail = 0 then 0 else nvTail - nvHead - IMG_HEAD_OPS_LEN }

/-- A record is counted. -/
def countRecord (b : BootData) (r : ImgHeadData) : BootData :=
  if r.index = 1 then { b with bspIndexCount := b.bspIndexCount + 1 }
  else if r.index = 2 then { b with wifiIndexCount := b.wifiIndexCount + 1 }
  else if r.index = 3 then { b with btIndexCount := b.btIndexCount + 1 }
  else b

def countDl (b : BootData) : BootData :=
  { b with
    wifiDlCount := b.bspIndexCount + b.wifiIndexCount
    allDlCount := b.bspIndexCount + b.wifiIndexCount + b.btIndexCount
    btDlCount := b.bspIndexCount + b.btIndexCount }

/-- Where the NV data that goes into the image begins and how long it is, if some does. -/
def nvPatch (b : BootData) : Option (ℕ × ℕ) :=
  if 20 < b.nvMemSize then
    if b.nvMemCmfgSize ≠ 0 ∧ b.nvMemCmfgSize ≤ b.nvDataSize then
      some (b.nvMemCmfgData, b.nvMemCmfgSize)
    else none
  else if b.nvMemSize ≠ 0 ∧ b.nvMemSize ≤ b.nvDataSize then some (0, b.nvMemSize)
  else none

/-- The NV data in the area of the image. -/
def patch (b : BootData) (nv : Option Firmware) : BootData :=
  match nv, b.nvPatch with
  | some nv, some (a, n) =>
    { b with
      iramImgData := Lib.store b.iramImgData (b.nvHeadAddr + 4) (Lib.load nv.data a n) }
  | _, _ => b

/-- The load addresses, where the head marker is at `headOffset`, and the bounds of the table. -/
def setTable (b : BootData) (headOffset tailOffset : ℕ) : BootData :=
  { b with
    iramDlAddr := u32At b.iramImgData (headOffset + IMG_HEAD_OPS_LEN)
    dramDlAddr := u32At b.iramImgData (headOffset + IMG_HEAD_OPS_LEN + 4)
    headAddr := headOffset + RAM_ADDR_OPS_LEN + IMG_HEAD_OPS_LEN
    tailAddr := tailOffset }

/-- `skw_boot_init` behind `skw_request_firmwares` with the value that it returns and the records
that it counts, if its record loop ends within `fuel` rounds. -/
def bootInit (fuel : ℕ) (b : BootData) (nv : Option Firmware) : Option (BootData × List ℕ × ℤ) :=
  let (headOffset, tailOffset) := headScan b.iramImgData SCAN_ROUNDS 0 0
  let b := b.findNv
  if tailOffset = 0 then some (b, [], -1)
  else
    let b := b.setTable headOffset tailOffset
    (recordLoop b.headAddr b.tailAddr fuel 0).map fun addrs =>
      let records := addrs.map (imgHeadData b.iramImgData)
      (((records.foldl countRecord b).countDl).patch nv, addrs, 0)

theorem findNv_eq (b : BootData) :
    b.findNv =
      { b with
        nvHeadAddr := (nvHeadWord b.iramImgData).elim 0 (· * IMG_HEAD_OPS_LEN)
        nvTailAddr := (nvHeadWord b.iramImgData).elim 0 fun h =>
          (nvTailWord b.iramImgData h).elim 0 (· * IMG_HEAD_OPS_LEN)
        nvDataSize := nvAreaSize b.iramImgData } := by
  rw [findNv, nvScan_eq, nvAreaSize]
  cases nvHeadWord b.iramImgData with
  | none => rfl
  | some h =>
    cases ht : nvTailWord b.iramImgData h with
    | none => simp [ht]
    | some t =>
      have := List.mem_range'_1.mp (List.mem_of_find?_eq_some ht)
      simp only [Option.elim_some, ht, IMG_HEAD_OPS_LEN, BootData.mk.injEq, true_and, and_true]
      rw [if_neg (by omega)]
      omega

/-! What `bootInit` leaves for the download. -/

/-- The counts of some records on top of those before. -/
theorem foldl_countRecord (b : BootData) (rs : List ImgHeadData) :
    rs.foldl countRecord b =
      { b with
        bspIndexCount := b.bspIndexCount + rs.countP (·.index = 1)
        wifiIndexCount := b.wifiIndexCount + rs.countP (·.index = 2)
        btIndexCount := b.btIndexCount + rs.countP (·.index = 3) } := by
  induction rs generalizing b with
  | nil => rfl
  | cons r rs ih =>
    rw [List.foldl_cons, ih, countRecord]
    by_cases h1 : r.index = 1
    · simp [h1]; omega
    by_cases h2 : r.index = 2
    · simp [h2]; omega
    by_cases h3 : r.index = 3
    · simp [h3]; omega
    · rw [if_neg h1, if_neg h2, if_neg h3]
      simp only [List.countP_cons, h1, h2, h3, decide_false, Bool.false_eq_true, if_false,
        Nat.add_zero]

/-- `patch` changes nothing but the image. -/
theorem exists_patch_eq (b : BootData) (nv : Option Firmware) :
    ∃ m, b.patch nv = { b with iramImgData := m } := by
  unfold patch
  split
  · exact ⟨_, rfl⟩
  · exact ⟨b.iramImgData, rfl⟩

/-- The data after `bootInit` has found the markers and read the records at the addresses. -/
def counted (iram : Firmware) (nv : Option Firmware) (headOffset tailOffset : ℕ)
    (addrs : List ℕ) : BootData :=
  ((addrs.map (imgHeadData iram.data)).foldl countRecord
    ((requested iram nv).findNv.setTable headOffset tailOffset)).countDl

def inited (iram : Firmware) (nv : Option Firmware) (headOffset tailOffset : ℕ)
    (addrs : List ℕ) : BootData :=
  (counted iram nv headOffset tailOffset addrs).patch nv

theorem bootInit_requested (fuel : ℕ) (iram : Firmware) (nv : Option Firmware) :
    bootInit fuel (requested iram nv) nv =
      if (headScan iram.data SCAN_ROUNDS 0 0).2 = 0 then some ((requested iram nv).findNv, [], -1)
      else
        (recordLoop ((headScan iram.data SCAN_ROUNDS 0 0).1 + RAM_ADDR_OPS_LEN + IMG_HEAD_OPS_LEN)
          (headScan iram.data SCAN_ROUNDS 0 0).2 fuel 0).map fun addrs =>
            (inited iram nv (headScan iram.data SCAN_ROUNDS 0 0).1
              (headScan iram.data SCAN_ROUNDS 0 0).2 addrs, addrs, 0) := by
  have hi : (requested iram nv).iramImgData = iram.data := rfl
  simp only [bootInit, hi]
  generalize headScan iram.data SCAN_ROUNDS 0 0 = s
  rfl

section
variable {iram : Firmware} {nv : Option Firmware} {headOffset tailOffset : ℕ} {addrs : List ℕ}

theorem counted_eq (iram : Firmware) (nv : Option Firmware) (headOffset tailOffset : ℕ)
    (addrs : List ℕ) :
    let b := (requested iram nv).findNv.setTable headOffset tailOffset
    let rs := addrs.map (imgHeadData iram.data)
    counted iram nv headOffset tailOffset addrs =
      countDl { b with
        bspIndexCount := rs.countP (·.index = 1)
        wifiIndexCount := rs.countP (·.index = 2)
        btIndexCount := rs.countP (·.index = 3) } := by
  have hb : (requested iram nv).findNv.bspIndexCount = 0 ∧
      (requested iram nv).findNv.wifiIndexCount = 0 ∧
      (requested iram nv).findNv.btIndexCount = 0 := ⟨rfl, rfl, rfl⟩
  simp [counted, foldl_countRecord, setTable, hb]

/-- The image apart, they are the data found, with the counts of the records. -/
theorem inited_eq (iram : Firmware) (nv : Option Firmware) (headOffset tailOffset : ℕ)
    (addrs : List ℕ) :
    let b := (requested iram nv).findNv.setTable headOffset tailOffset
    let rs := addrs.map (imgHeadData iram.data)
    ∃ m, inited iram nv headOffset tailOffset addrs =
      countDl { b with
        bspIndexCount := rs.countP (·.index = 1)
        wifiIndexCount := rs.countP (·.index = 2)
        btIndexCount := rs.countP (·.index = 3)
        iramImgData := m } := by
  obtain ⟨m, hm⟩ := exists_patch_eq (counted iram nv headOffset tailOffset addrs) nv
  exact ⟨m, hm.trans (by rw [counted_eq]; rfl)⟩

@[simp] theorem iramDlAddr_inited :
    (inited iram nv headOffset tailOffset addrs).iramDlAddr =
      u32At iram.data (headOffset + IMG_HEAD_OPS_LEN) := by
  obtain ⟨m, hm⟩ := inited_eq iram nv headOffset tailOffset addrs
  rw [hm]
  rfl

@[simp] theorem dramDlAddr_inited :
    (inited iram nv headOffset tailOffset addrs).dramDlAddr =
      u32At iram.data (headOffset + IMG_HEAD_OPS_LEN + 4) := by
  obtain ⟨m, hm⟩ := inited_eq iram nv headOffset tailOffset addrs
  rw [hm]
  rfl

@[simp] theorem headAddr_inited :
    (inited iram nv headOffset tailOffset addrs).headAddr =
      headOffset + RAM_ADDR_OPS_LEN + IMG_HEAD_OPS_LEN := by
  obtain ⟨m, hm⟩ := inited_eq iram nv headOffset tailOffset addrs
  rw [hm]
  rfl

@[simp] theorem tailAddr_inited :
    (inited iram nv headOffset tailOffset addrs).tailAddr = tailOffset := by
  obtain ⟨m, hm⟩ := inited_eq iram nv headOffset tailOffset addrs
  rw [hm]
  rfl

/-- The counts are those of the records in the file. -/
theorem count_inited :
    let b := inited iram nv headOffset tailOffset addrs
    let rs := addrs.map (imgHeadData iram.data)
    b.bspIndexCount = rs.countP (·.index = 1) ∧ b.wifiIndexCount = rs.countP (·.index = 2) ∧
      b.btIndexCount = rs.countP (·.index = 3) := by
  obtain ⟨m, hm⟩ := inited_eq iram nv headOffset tailOffset addrs
  simp only [hm]
  exact ⟨rfl, rfl, rfl⟩

end

end BootData
end Skw
