import Skw.Rx.Reorder
import Mathlib.Data.BitVec

/-! The records of dropped frames behind an MSDU: where `skw_rx_data_handler` looks for them, and
what `skw_rx_handler_drop_info` reads of the buffer and of `peer->reorder`. -/
namespace Skw

abbrev SKW_NR_TID : ℕ := 8
abbrev SKW_MSDU_HDR_LEN : ℕ := 6

inductive RxBus
  | sdio
  | usb
  | pcie
deriving DecidableEq

/-- `skw->hw.rx_desc.hdr_offset`. -/
def RxBus.hdrOffset : RxBus → ℕ
  | .sdio => 0
  | .usb => 52
  | .pcie => 44

/-- `skw->hw.rx_desc.msdu_offset`. -/
def RxBus.msduOffset : RxBus → ℕ
  | .sdio => 52
  | .usb => 0
  | .pcie => 8

/-- The bus and whether `SKW_FLAG_FW_PN_REUSE` is set. -/
structure RxHw where
  bus : RxBus
  pnReuse : Bool
deriving DecidableEq

/-- The memory from the start of a received buffer on, and the length of its data, which an int
can hold. -/
structure RxBuf where
  data : ℕ → BitVec 8
  len : ℕ
  len_lt : len < 2 ^ 31

/-- `skb->data`, counted from the start of the buffer, and `skb->len`. -/
structure SkbData where
  base : ℕ
  len : ℕ
deriving DecidableEq

/-- `skb_pull`; a negative argument is an unsigned one above every length. -/
def SkbData.pull (s : SkbData) (n : ℤ) : Option SkbData :=
  if 0 ≤ n ∧ n ≤ s.len then some ⟨s.base + n.toNat, s.len - n.toNat⟩ else none

namespace RxBuf

def u16At (b : RxBuf) (a : ℕ) : ℕ := (b.data (a + 1) ++ b.data a).toNat

def i32At (b : RxBuf) (a : ℕ) : ℤ :=
  (b.data (a + 3) ++ b.data (a + 2) ++ b.data (a + 1) ++ b.data a).toInt

def isSkwMonitorData (hw : RxHw) (b : RxBuf) : Bool :=
  match hw.bus with
  | .usb => (b.data (12 + 4)).getLsbD 7
  | .sdio => (b.data 4).getLsbD 7
  | .pcie => false

/-! The fields of the `skw_rx_desc` at an address. -/

def descTid (b : RxBuf) (a : ℕ) : ℕ := (b.data (a + 11) >>> 4).toNat

def descMsduOffset (b : RxBuf) (a : ℕ) : ℕ := (b.data (a + 18)).toNat

def descMacDropFrag (b : RxBuf) (a : ℕ) : Bool := (b.data (a + 19)).getLsbD 7

/-- `msdu_len` as `skw_rx_data_handler` computes it. -/
def msduLen (hw : RxHw) (b : RxBuf) (a : ℕ) : ℕ :=
  (if hw.bus = .sdio ∧ hw.pnReuse then b.u16At (a + 16) else b.u16At (a + 2)) + SKW_MSDU_HDR_LEN

/-- Where the records begin, from the start of the MSDU. -/
def dropOffset (hw : RxHw) (b : RxBuf) (a : ℕ) : ℕ :=
  (b.msduLen hw a + b.descMsduOffset a + 3) / 4 * 4 - b.descMsduOffset a

end RxBuf

/-- `skw_drop_sn_info`. -/
structure DropSnInfo where
  sn : ℕ
  amsduIdx : BitVec 8
  amsduFirst : Bool
  amsduLast : Bool
  isAmsdu : Bool
  qos : Bool
  tid : ℕ
  peerIdx : Fin SKW_MAX_PEER_SUPPORT

def RxBuf.dropSnInfo (b : RxBuf) (a : ℕ) : DropSnInfo where
  sn := b.u16At a
  amsduIdx := b.data (a + 2)
  amsduFirst := (b.data (a + 3)).getLsbD 0
  amsduLast := (b.data (a + 3)).getLsbD 1
  isAmsdu := (b.data (a + 3)).getLsbD 2
  qos := (b.data (a + 3)).getLsbD 3
  tid := (b.data (a + 3) >>> 4).toNat
  peerIdx := ⟨(b.data (a + 4)).toNat % 32, Nat.mod_lt _ (by decide)⟩

/-- The frame made of a record. Its data is the new descriptor, so what is read as its Ethernet
header is flags and the zeros of the PN. -/
def DropSnInfo.skb (r : DropSnInfo) (now : Jiffies) : Skb where
  desc :=
    { sn := ⟨r.sn % 4096, Nat.mod_lt _ (by decide)⟩
      msduFilter := 0
      fragNum := 0
      amsduIdx := ⟨r.amsduIdx.toNat % 64, Nat.mod_lt _ (by decide)⟩
      isAmsdu := r.isAmsdu
      isQosData := r.qos
      isMcAddr := false
      moreFrag := false
      amsduFirstIdx := r.amsduFirst
      amsduLastIdx := r.amsduLast }
  cb := ⟨now, 0, 0, false, false, false⟩
  hDest :=
    ((if r.isAmsdu then 8 else 0) + (if r.qos then 16 else 0) + (if r.amsduFirst then 32 else 0) +
      (if r.amsduLast then 64 else 0)) <<< 8
  hProto := 0
  len := 20

/-- What the handling of a record finds in the rest of the driver: whether `dev_alloc_skb`
succeeds, `rx_reorder_flag`, and the peers of the first lmac by index. -/
structure DropEnv where
  now : Jiffies
  alloc : Bool
  reorderFlag : Bool
  peer : Fin SKW_MAX_PEER_SUPPORT → Option Peer

/-- Bytes of the buffer that are read, and an index into `peer->reorder`. -/
inductive DropAccess
  | read (addr len : ℕ)
  | reorder (tid : ℕ)
deriving DecidableEq

/-- A read within the data of a buffer of length `len`, or an index within the array. -/
def DropAccess.Inside (len : ℕ) : DropAccess → Prop
  | .read a n => a + n ≤ len
  | .reorder tid => tid < SKW_NR_TID

instance (len : ℕ) (a : DropAccess) : Decidable (a.Inside len) := by
  cases a <;> unfold DropAccess.Inside <;> infer_instance

/-- The conversion of an int to the type of `sizeof`. -/
def sizeT (z : ℤ) : ℕ := (z % 2 ^ 64).toNat

namespace RxBuf

/-- The record at `a` is handled as a frame of the session that its tid selects. -/
def reordered (b : RxBuf) (env : DropEnv) (a : ℕ) : Bool :=
  let r := b.dropSnInfo a
  r.qos && env.alloc && Rx.reachesReorder env.reorderFlag (env.peer r.peerIdx) (r.skb env.now)

/-- A round of the loop of `skw_rx_handler_drop_info`, for the record at `a`. -/
def dropRecord (b : RxBuf) (env : DropEnv) (a : ℕ) : List DropAccess :=
  .read a 8 :: if b.reordered env a then [.reorder (b.dropSnInfo a).tid] else []

/-- `skw_rx_handler_drop_info`; `env` tells of each record what its handling finds. -/
def rxHandlerDropInfo (b : RxBuf) (env : ℕ → DropEnv) (s : SkbData) (offset : ℕ) :
    List DropAccess :=
  let totalDropSn := b.i32At (s.base + offset)
  let buffLen : ℤ := s.len - offset
  .read (s.base + offset) 4 ::
    if sizeT totalDropSn > sizeT buffLen / 8 then []
    else (List.range totalDropSn.toNat).flatMap fun i =>
      b.dropRecord (env i) (s.base + offset + 4 + 8 * i)

/-- The skb and the offset for which `skw_rx_data_handler` calls `skw_rx_handler_drop_info`, if it
does. The result of the second `skb_pull` is ignored. -/
def dropInfoCall (hw : RxHw) (b : RxBuf) : Option (SkbData × ℕ) :=
  if b.isSkwMonitorData hw then none
  else
    (SkbData.pull ⟨0, b.len⟩ hw.bus.hdrOffset).bind fun s =>
      if b.descTid s.base ≥ SKW_NR_TID then none
      else
        let msduOffset : ℤ := (b.descMsduOffset s.base : ℤ) - hw.bus.msduOffset - hw.bus.hdrOffset
        if b.descMacDropFrag s.base then
          some ((s.pull msduOffset).getD s, b.dropOffset hw s.base)
        else none

/-- What is accessed for the dropped frames of a buffer. -/
def dropAccesses (hw : RxHw) (b : RxBuf) (env : ℕ → DropEnv) : List DropAccess :=
  match b.dropInfoCall hw with
  | some (s, offset) => b.rxHandlerDropInfo env s offset
  | none => []

/-- The call finds the count word in the data; a count that claims all of it leaves room for the
word itself; and the tids of the records that become frames of a session are those of one. -/
structure DropInfoFits (b : RxBuf) (env : ℕ → DropEnv) (s : SkbData) (offset : ℕ) : Prop where
  word : offset + 4 ≤ s.len
  whole : b.i32At (s.base + offset) = ((s.len : ℤ) - offset) / 8 →
    b.i32At (s.base + offset) = 0 ∨ 4 ≤ ((s.len : ℤ) - offset) % 8
  tids : b.i32At (s.base + offset) ≤ ((s.len : ℤ) - offset) / 8 →
    ∀ i : ℕ, (i : ℤ) < b.i32At (s.base + offset) →
      b.reordered (env i) (s.base + offset + 4 + 8 * i) →
        (b.dropSnInfo (s.base + offset + 4 + 8 * i)).tid < SKW_NR_TID

section
variable {b : RxBuf} {hw : RxHw} {env : ℕ → DropEnv} {s : SkbData} {offset : ℕ}

theorem sizeT_of_nonneg {z : ℤ} (h₀ : 0 ≤ z) (h : z < 2 ^ 64) : sizeT z = z.toNat := by
  unfold sizeT
  rw [Int.emod_eq_of_lt h₀ h]

theorem i32At_bounds (b : RxBuf) (a : ℕ) : -2 ^ 31 ≤ b.i32At a ∧ b.i32At a < 2 ^ 31 :=
  ⟨BitVec.le_toInt _, BitVec.toInt_lt⟩

/-- With the count word in the data, the comparison is that of the numbers, and it refuses the
negative counts. -/
theorem count_ok_iff (h : offset ≤ s.len) (hs : s.len < 2 ^ 31) {z : ℤ}
    (hz : -2 ^ 31 ≤ z ∧ z < 2 ^ 31) :
    ¬ sizeT z > sizeT ((s.len : ℤ) - offset) / 8 ↔ 0 ≤ z ∧ z ≤ ((s.len : ℤ) - offset) / 8 := by
  rw [sizeT_of_nonneg (z := (s.len : ℤ) - offset) (by omega) (by omega)]
  rcases lt_or_ge z 0 with hneg | hnonneg
  · have hbig : sizeT z = (z + 2 ^ 64).toNat := by
      unfold sizeT
      omega
    rw [hbig]
    omega
  · rw [sizeT_of_nonneg hnonneg (by omega)]
    omega

theorem dropRecord_inside_iff {e : DropEnv} {a : ℕ} :
    (∀ x ∈ b.dropRecord e a, x.Inside b.len) ↔
      a + 8 ≤ b.len ∧ (b.reordered e a → (b.dropSnInfo a).tid < SKW_NR_TID) := by
  unfold dropRecord
  rw [List.forall_mem_cons]
  refine and_congr Iff.rfl ?_
  cases b.reordered e a <;> simp [DropAccess.Inside]

/-- The skb still ends where the buffer does. -/
theorem pull_end {t : SkbData} {n : ℤ} (h : s.pull n = some t) : t.base + t.len = s.base + s.len := by
  unfold SkbData.pull at h
  split_ifs at h with hn
  cases h
  simp only
  omega

theorem dropInfoCall_end (h : b.dropInfoCall hw = some (s, offset)) : s.base + s.len = b.len := by
  unfold dropInfoCall at h
  split_ifs at h
  obtain ⟨t, ht, h⟩ := Option.bind_eq_some_iff.mp h
  have hend := (pull_end ht).trans (Nat.zero_add _)
  split_ifs at h
  cases h
  cases hp : t.pull _ with
  | none => exact hend
  | some u => exact (pull_end hp).trans hend

theorem rxHandlerDropInfo_inside_iff (hs : s.base + s.len = b.len) :
    (∀ x ∈ b.rxHandlerDropInfo env s offset, x.Inside b.len) ↔ b.DropInfoFits env s offset := by
  have hz := b.i32At_bounds (s.base + offset)
  have hlen := b.len_lt
  unfold rxHandlerDropInfo
  rw [List.forall_mem_cons]
  have hword : (DropAccess.read (s.base + offset) 4).Inside b.len ↔ offset + 4 ≤ s.len := by
    simp only [DropAccess.Inside]
    omega
  rw [hword]
  constructor
  · rintro ⟨hw, hrec⟩
    have hok := count_ok_iff (by omega : offset ≤ s.len) (by omega) hz
    have hin (h : ¬ sizeT (b.i32At (s.base + offset)) > sizeT ((s.len : ℤ) - offset) / 8) (i : ℕ)
        (hi : (i : ℤ) < b.i32At (s.base + offset)) :
        s.base + offset + 4 + 8 * i + 8 ≤ b.len ∧
          (b.reordered (env i) (s.base + offset + 4 + 8 * i) →
            (b.dropSnInfo (s.base + offset + 4 + 8 * i)).tid < SKW_NR_TID) := by
      rw [if_neg h] at hrec
      refine dropRecord_inside_iff.mp fun x hx => hrec x (List.mem_flatMap.mpr ⟨i, ?_, hx⟩)
      exact List.mem_range.mpr (by omega)
    refine ⟨hw, fun hall => ?_, fun hle i hi => (hin (hok.mpr ⟨by omega, hle⟩) i hi).2⟩
    rcases eq_or_ne (b.i32At (s.base + offset)) 0 with h0 | h0
    · exact .inl h0
    · right
      have hlast := (hin (hok.mpr ⟨by omega, hall.le⟩) (b.i32At (s.base + offset) - 1).toNat
        (by omega)).1
      omega
  · intro h
    have hok := count_ok_iff (by have := h.word; omega : offset ≤ s.len) (by omega) hz
    refine ⟨h.word, fun x hx => ?_⟩
    split_ifs at hx with hc
    · cases hx
    · obtain ⟨hnonneg, hle⟩ := hok.mp hc
      obtain ⟨i, hi, hx⟩ := List.mem_flatMap.mp hx
      have hi := List.mem_range.mp hi
      have hword := h.word
      have hwhole := h.whole
      refine dropRecord_inside_iff.mpr ⟨?_, h.tids hle i (by omega)⟩ x hx
      omega

/-- What is accessed for the dropped frames of a buffer is in the buffer and in `peer->reorder`
when the call, if there is one, finds its records as they should be. -/
theorem inside_iff (hw : RxHw) (b : RxBuf) (env : ℕ → DropEnv) :
    (∀ x ∈ b.dropAccesses hw env, x.Inside b.len) ↔
      ∀ s offset, b.dropInfoCall hw = some (s, offset) → b.DropInfoFits env s offset := by
  unfold dropAccesses
  cases h : b.dropInfoCall hw with
  | none => simp
  | some c =>
    obtain ⟨s, offset⟩ := c
    rw [rxHandlerDropInfo_inside_iff (dropInfoCall_end h)]
    constructor
    · intro hfit t n hc
      cases hc
      exact hfit
    · intro hfit
      exact hfit s offset rfl

end

/-- An MSDU of length 6 behind an SDIO descriptor with `mac_drop_frag`, and what follows it from
the place where the count word is looked for. -/
def dropBuf (rest : List (BitVec 8)) (len : ℕ) (h : len < 2 ^ 31) : RxBuf where
  data i := (List.replicate 18 0 ++ [72, 0x80] ++ List.replicate 8 0 ++ rest).getD i 0
  len := len
  len_lt := h

/-- Every peer is known and receives everything. -/
def allPeers (_ : ℕ) : DropEnv := ⟨0, true, true, fun _ => some ⟨0, 0, 0⟩⟩

/-- The count word behind the data; a record whose last four bytes are behind it; a tid of 9. -/
theorem dropInfo_not_inside :
    (¬ ∀ x ∈ (dropBuf [] 24 (by decide)).dropAccesses ⟨.sdio, false⟩ allPeers, x.Inside 24) ∧
      (¬ ∀ x ∈ (dropBuf [1, 0, 0, 0] 36 (by decide)).dropAccesses ⟨.sdio, false⟩ allPeers,
        x.Inside 36) ∧
      ¬ ∀ x ∈ (dropBuf [1, 0, 0, 0, 5, 0, 0, 0x98] 40 (by decide)).dropAccesses ⟨.sdio, false⟩
        allPeers, x.Inside 40 := by
  refine ⟨?_, ?_, ?_⟩ <;> decide

end RxBuf

end Skw
