import Skw.Kernel.Types
import Skw.Lib.Buffer
import Mathlib.Data.List.GetD

/-! The SDIO transmit ring of `skw_tx.c`: a virtio ring of `SKW_TX_VRING_SIZE` descriptors over
one page block, filled by `skw_vring_set` and emptied by `skw_sdio_write`. Each section under
`tx_vring->lock` is one function. What the ring holds are the frames from `used->idx` to
`avail->idx`, counted without the wrap of the indices. -/
namespace Skw

abbrev Byte := BitVec 8
abbrev U16 := BitVec 16

abbrev SKW_TX_VRING_SIZE : ℕ := 128
abbrev SKW_TX_PACK_SIZE : ℕ := 1536
abbrev VRING_DESC_F_WRITE : U16 := 2

structure VringDesc where
  addr : ℕ
  len : ℕ
  flags : U16
deriving DecidableEq

/-- `struct vring` and the pages its descriptors point into. -/
structure TxVring where
  availIdx : U16
  availRing : ℕ → U16
  usedIdx : U16
  usedRing : ℕ → U16 × U16
  desc : ℕ → VringDesc
  page : ℕ → Byte

/-- An entry of the scatter list. -/
structure Sg where
  addr : ℕ
  len : ℕ
deriving DecidableEq

namespace TxVring

/-- `idx & (vr->num - 1)`. -/
def masked (idx : U16) : ℕ := (idx &&& BitVec.ofNat 16 (SKW_TX_VRING_SIZE - 1)).toNat

/-- `skw_tx_vring_init`, over pages of arbitrary content. -/
def txVringInit (page : ℕ → Byte) : TxVring where
  availIdx := 0
  availRing i := BitVec.ofNat 16 i
  usedIdx := 0
  usedRing _ := (0, 0)
  desc i := ⟨i * SKW_TX_PACK_SIZE, 0, 0⟩
  page := page

def vringAvailableCount (v : TxVring) : ℕ := SKW_TX_VRING_SIZE - masked (v.availIdx - v.usedIdx)

def vringPendingCount (v : TxVring) : ℕ := masked (v.availIdx - v.usedIdx)

def txVringIsFull (v : TxVring) : Bool := SKW_TX_VRING_SIZE - 1 ≤ masked (v.availIdx - v.usedIdx)

def vringHasPending (v : TxVring) : Bool := masked (v.availIdx - v.usedIdx) != 0

/-- The buffer of a frame is readable to the aligned length, which the tailroom that the
interface asks for provides. -/
def Readable (align len : ℕ) (data : List Byte) : Prop :=
  len < 2 ^ 16 ∧ roundUp len align ≤ data.length

instance (align len : ℕ) (data : List Byte) : Decidable (Readable align len data) :=
  inferInstanceAs (Decidable (_ ∧ _))

/-- The aligned frame fits the part of the pages that belongs to its descriptor. -/
abbrev Fits (align len : ℕ) : Prop := roundUp len align ≤ SKW_TX_PACK_SIZE

/-- `skw_vring_set` of `len` bytes at `data`; `data` holds what can be read from there on, and
the whole aligned length is copied. -/
def vringSet (align : ℕ) (v : TxVring) (len : ℕ) (data : List Byte) : ℤ × TxVring :=
  if v.txVringIsFull then (-EINVAL, v)
  else
    let descIdx := masked v.availIdx
    let aligned := roundUp len align % 2 ^ 16
    (0, { v with
      page := Lib.store v.page (v.desc descIdx).addr (data.take aligned)
      desc := Function.update v.desc descIdx
        { v.desc descIdx with len := aligned, flags := VRING_DESC_F_WRITE }
      availRing := Function.update v.availRing descIdx (BitVec.ofNat 16 descIdx)
      availIdx := v.availIdx + 1 })

/-- What the loop of `skw_sdio_write` works on: the ring, `used_idx` and `sgl_dat`. -/
structure Gather where
  vr : TxVring
  usedIdx : U16
  sgl : List Sg

/-- The body of the loop: one descriptor to the used ring and to the scatter list. -/
def Gather.one (g : Gather) : Gather :=
  let usedRingIdx := g.usedIdx.toNat % SKW_TX_VRING_SIZE
  let descIdx := (g.vr.availRing usedRingIdx).toNat
  let d := g.vr.desc descIdx
  { vr := { g.vr with
      usedRing := Function.update g.vr.usedRing usedRingIdx
        (BitVec.ofNat 16 descIdx, BitVec.ofNat 16 d.len)
      desc := Function.update g.vr.desc descIdx
        { d with len := 0, flags := d.flags &&& ~~~VRING_DESC_F_WRITE } }
    usedIdx := g.usedIdx + 1
    sgl := g.sgl ++ [⟨d.addr, d.len⟩] }

/-- The loop of `skw_sdio_write`; its condition fails within `SKW_TX_VRING_SIZE` turns. -/
def gather (availIdx : U16) (limit : ℕ) : ℕ → Gather → Gather
  | 0, g => g
  | turns + 1, g =>
    if masked g.usedIdx = masked availIdx ∨ g.sgl.length = limit then g
    else gather availIdx limit turns g.one

/-- The first section of `skw_sdio_write` after the check for pending descriptors. -/
def sdioCollect (v : TxVring) (limit : ℕ) : Gather :=
  gather v.availIdx limit SKW_TX_VRING_SIZE ⟨v, v.usedIdx, []⟩

/-- The frame that a scatter entry names. -/
def frameAt (v : TxVring) (e : Sg) : List Byte := Lib.load v.page e.addr e.len

theorem masked_eq (idx : U16) : masked idx = idx.toNat % SKW_TX_VRING_SIZE := by
  have h : (BitVec.ofNat 16 (SKW_TX_VRING_SIZE - 1)).toNat = 2 ^ 7 - 1 := rfl
  rw [masked, BitVec.toNat_and, h, Nat.and_two_pow_sub_one_eq_mod]

/-- The place in the ring is the running count modulo its size, however often the 16-bit index
wrapped. -/
@[simp] theorem masked_ofNat (k : ℕ) : masked (BitVec.ofNat 16 k) = k % SKW_TX_VRING_SIZE := by
  rw [masked_eq, BitVec.toNat_ofNat]
  exact Nat.mod_mod_of_dvd k (by decide)

@[simp] theorem toNat_ofNat_mod (k : ℕ) :
    (BitVec.ofNat 16 k).toNat % SKW_TX_VRING_SIZE = k % SKW_TX_VRING_SIZE := by
  rw [← masked_eq, masked_ofNat]

@[simp] theorem toNat_ofNat_slot (k : ℕ) :
    (BitVec.ofNat 16 (k % SKW_TX_VRING_SIZE)).toNat = k % SKW_TX_VRING_SIZE := by
  have hk : k % SKW_TX_VRING_SIZE < SKW_TX_VRING_SIZE := Nat.mod_lt k (by decide)
  rw [BitVec.toNat_ofNat, Nat.mod_eq_of_lt (hk.trans (by decide))]

theorem ofNat_sub_ofNat {a b : ℕ} (h : b ≤ a) :
    BitVec.ofNat 16 a - BitVec.ofNat 16 b = BitVec.ofNat 16 (a - b) := by
  bv_omega

theorem vringSet_of_full {align : ℕ} {v : TxVring} {len : ℕ} {data : List Byte}
    (h : v.txVringIsFull = true) : v.vringSet align len data = (-EINVAL, v) := by
  simp [vringSet, h]

theorem vringSet_eq_zero {align : ℕ} {v : TxVring} {len : ℕ} {data : List Byte} :
    (v.vringSet align len data).1 = 0 ↔ v.txVringIsFull = false := by
  unfold vringSet
  split_ifs with hf <;> simp [hf]

/-- The check that the tx worker makes before it fills the ring foresees the result. -/
theorem vringSet_eq_zero_iff_available {align : ℕ} {v : TxVring} {len : ℕ} {data : List Byte} :
    (v.vringSet align len data).1 = 0 ↔ 1 < v.vringAvailableCount := by
  have hlt : masked (v.availIdx - v.usedIdx) < SKW_TX_VRING_SIZE := by
    rw [masked_eq]
    exact Nat.mod_lt _ (by decide)
  rw [vringSet_eq_zero, txVringIsFull, vringAvailableCount, decide_eq_false_iff_not]
  omega

end TxVring

namespace TxVring

/-- Ring `v` holds frames `used` to the end of `frames`, the first `taken` of them collected. -/
structure Holds (v : TxVring) (frames : List (List Byte)) (used taken : ℕ) : Prop where
  avail : v.availIdx = BitVec.ofNat 16 frames.length
  usedIdx : v.usedIdx = BitVec.ofNat 16 used
  le : used + taken ≤ frames.length
  room : frames.length < used + SKW_TX_VRING_SIZE
  addr : ∀ i < SKW_TX_VRING_SIZE, (v.desc i).addr = i * SKW_TX_PACK_SIZE
  queued : ∀ k, used + taken ≤ k → k < frames.length →
    v.availRing (k % SKW_TX_VRING_SIZE) = BitVec.ofNat 16 (k % SKW_TX_VRING_SIZE) ∧
      (v.desc (k % SKW_TX_VRING_SIZE)).len = (frames.getD k []).length
  stored : ∀ k, used ≤ k → k < frames.length → (frames.getD k []).length ≤ SKW_TX_PACK_SIZE ∧
    Lib.load v.page (k % SKW_TX_VRING_SIZE * SKW_TX_PACK_SIZE) (frames.getD k []).length =
      frames.getD k []

/-- The loop of `skw_sdio_write` keeps to the limit. -/
theorem length_gather_le {availIdx : U16} {limit : ℕ} (turns : ℕ) {g : Gather}
    (h : g.sgl.length ≤ limit) : (gather availIdx limit turns g).sgl.length ≤ limit := by
  induction turns generalizing g with
  | zero => exact h
  | succ turns ih =>
    simp only [gather]
    split_ifs with hstop
    · exact h
    · push Not at hstop
      refine ih ?_
      simp only [Gather.one, List.length_append, List.length_singleton]
      omega

theorem length_sdioCollect_le (v : TxVring) (limit : ℕ) :
    (v.sdioCollect limit).sgl.length ≤ limit :=
  length_gather_le _ (Nat.zero_le _)

/-- The scatter list of `taken` frames from `used` on. -/
def entries (frames : List (List Byte)) (used taken : ℕ) : List Sg :=
  (List.range taken).map fun i =>
    ⟨(used + i) % SKW_TX_VRING_SIZE * SKW_TX_PACK_SIZE, (frames.getD (used + i) []).length⟩

private theorem slot_lt (k : ℕ) : k % SKW_TX_VRING_SIZE < SKW_TX_VRING_SIZE :=
  Nat.mod_lt k (by decide)

section
variable {v : TxVring} {frames : List (List Byte)} {used taken : ℕ}

theorem Holds.pending_eq (h : v.Holds frames used taken) :
    masked (v.availIdx - v.usedIdx) = frames.length - used := by
  have hle : used ≤ frames.length := by have := h.le; omega
  have hlt : frames.length - used < SKW_TX_VRING_SIZE := by have := h.room; omega
  rw [h.avail, h.usedIdx, ofNat_sub_ofNat hle, masked_ofNat, Nat.mod_eq_of_lt hlt]

theorem Holds.txVringIsFull_iff (h : v.Holds frames used taken) :
    v.txVringIsFull = false ↔ frames.length + 1 < used + SKW_TX_VRING_SIZE := by
  have := h.le
  have hsz : SKW_TX_VRING_SIZE = 128 := rfl
  rw [txVringIsFull, h.pending_eq, decide_eq_false_iff_not]
  omega

theorem Holds.bounded (h : v.Holds frames used taken) :
    (v.availIdx - v.usedIdx).toNat ≤ SKW_TX_VRING_SIZE - 1 := by
  have hle : used ≤ frames.length := by have := h.le; omega
  have hroom : frames.length - used < SKW_TX_VRING_SIZE := by have := h.room; omega
  rw [h.avail, h.usedIdx, ofNat_sub_ofNat hle, BitVec.toNat_ofNat,
    Nat.mod_eq_of_lt (hroom.trans (by decide))]
  exact Nat.le_pred_of_lt hroom

/-- The slot that is filled next is none of those in use. -/
private theorem Holds.slot_ne (h : v.Holds frames used taken) (hf : v.txVringIsFull = false)
    {k : ℕ} (hu : used ≤ k) (hk : k < frames.length) :
    k % SKW_TX_VRING_SIZE ≠ frames.length % SKW_TX_VRING_SIZE :=
  Lib.mod_ne_of_lt hk (by have := h.txVringIsFull_iff.mp hf; omega)

theorem Holds.dest_eq (h : v.Holds frames used taken) :
    (v.desc (masked v.availIdx)).addr =
      frames.length % SKW_TX_VRING_SIZE * SKW_TX_PACK_SIZE := by
  rw [h.avail, masked_ofNat, h.addr _ (slot_lt _)]

/-- What is written into the free slot leaves the others alone. -/
theorem Holds.apart (h : v.Holds frames used taken) (hf : v.txVringIsFull = false) {k n : ℕ}
    (hu : used ≤ k) (hk : k < frames.length) (hn : n ≤ SKW_TX_PACK_SIZE) :
    let a := k % SKW_TX_VRING_SIZE * SKW_TX_PACK_SIZE
    let dest := (v.desc (masked v.availIdx)).addr
    a + (frames.getD k []).length ≤ dest ∨ dest + n ≤ a := by
  simp only [h.dest_eq]
  exact Lib.cells_disjoint (h.slot_ne hf hu hk) (h.stored k hu hk).1 hn

private theorem getD_concat_of_lt {α : Type*} {l : List α} {a d : α} {k : ℕ} (hk : k < l.length) :
    (l ++ [a]).getD k d = l.getD k d := by
  simp [List.getD_eq_getElem?_getD, List.getElem?_append_left hk]

theorem Holds.vringSet {align len : ℕ} {data : List Byte} (h : v.Holds frames used taken)
    (hpack : Fits align len) (hdata : roundUp len align ≤ data.length)
    (hf : v.txVringIsFull = false) :
    (v.vringSet align len data).2.Holds (frames ++ [data.take (roundUp len align)]) used taken := by
  have hroom := h.txVringIsFull_iff.mp hf
  have hal : roundUp len align % 2 ^ 16 = roundUp len align :=
    Nat.mod_eq_of_lt (lt_of_le_of_lt hpack (by decide))
  have hlen : (data.take (roundUp len align)).length = roundUp len align := by
    rw [List.length_take, Nat.min_eq_left hdata]
  have hnew : (frames ++ [data.take (roundUp len align)]).getD frames.length [] =
      data.take (roundUp len align) := by simp [List.getD_eq_getElem?_getD]
  have hidx : masked v.availIdx = frames.length % SKW_TX_VRING_SIZE := by
    rw [h.avail, masked_ofNat]
  unfold TxVring.vringSet
  simp only [hf, Bool.false_eq_true, if_false, hal, hidx]
  constructor
  · show v.availIdx + 1 = _
    rw [h.avail, List.length_append, List.length_singleton, BitVec.ofNat_add]
    rfl
  · exact h.usedIdx
  · have := h.le
    simp only [List.length_append, List.length_singleton]
    omega
  · simp only [List.length_append, List.length_singleton]
    omega
  · intro i hi
    rcases eq_or_ne i (frames.length % SKW_TX_VRING_SIZE) with rfl | hne
    · simp only [Function.update_self]
      exact h.addr _ hi
    · simp only [Function.update_of_ne hne]
      exact h.addr i hi
  · intro k hk hkl
    simp only [List.length_append, List.length_singleton] at hkl
    rcases Nat.lt_succ_iff_lt_or_eq.mp hkl with hlt | rfl
    · have hne := h.slot_ne hf (by omega) hlt
      simp only [Function.update_of_ne hne, getD_concat_of_lt hlt]
      exact h.queued k hk hlt
    · simp only [Function.update_self, hnew, hlen, and_self]
  · intro k hk hkl
    simp only [List.length_append, List.length_singleton] at hkl
    rcases Nat.lt_succ_iff_lt_or_eq.mp hkl with hlt | rfl
    · obtain ⟨hle, hload⟩ := h.stored k hk hlt
      have hap := h.apart hf hk hlt hpack
      simp only [getD_concat_of_lt hlt]
      refine ⟨hle, (Lib.load_store_disjoint ?_).trans hload⟩
      simpa only [hlen, hidx] using hap
    · rw [hnew, hlen]
      refine ⟨hpack, ?_⟩
      rw [h.addr _ (slot_lt _)]
      have hs := Lib.load_store_self v.page (frames.length % SKW_TX_VRING_SIZE * SKW_TX_PACK_SIZE)
        (data.take (roundUp len align))
      rwa [hlen] at hs

@[simp] theorem length_entries : (entries frames used taken).length = taken := by
  simp [entries]

theorem entries_succ : entries frames used (taken + 1) =
    entries frames used taken ++ [⟨(used + taken) % SKW_TX_VRING_SIZE * SKW_TX_PACK_SIZE,
      (frames.getD (used + taken) []).length⟩] := by
  simp [entries, List.range_succ]

theorem entries_concat {f : List Byte} (h : used + taken ≤ frames.length) :
    entries (frames ++ [f]) used taken = entries frames used taken := by
  refine List.map_congr_left fun i hi => ?_
  rw [getD_concat_of_lt (by have := List.mem_range.mp hi; omega)]

/-- One turn of the loop collects the next frame. -/
private theorem Holds.one {g : Gather} (h : g.vr.Holds frames used taken)
    (hu : g.usedIdx = BitVec.ofNat 16 (used + taken)) (hs : g.sgl = entries frames used taken)
    (hlt : used + taken < frames.length) :
    g.one.vr.Holds frames used (taken + 1) ∧
      g.one.usedIdx = BitVec.ofNat 16 (used + (taken + 1)) ∧
      g.one.sgl = entries frames used (taken + 1) := by
  obtain ⟨hring, hlen⟩ := h.queued _ le_rfl hlt
  have hslot : g.usedIdx.toNat % SKW_TX_VRING_SIZE = (used + taken) % SKW_TX_VRING_SIZE := by
    rw [hu, toNat_ofNat_mod]
  have hdesc : (g.vr.availRing (g.usedIdx.toNat % SKW_TX_VRING_SIZE)).toNat =
      (used + taken) % SKW_TX_VRING_SIZE := by
    rw [hslot, hring, toNat_ofNat_slot]
  unfold Gather.one
  simp only [hdesc]
  refine ⟨⟨h.avail, h.usedIdx, by omega, h.room, ?_, ?_, h.stored⟩, ?_, ?_⟩
  · intro i hi
    rcases eq_or_ne i ((used + taken) % SKW_TX_VRING_SIZE) with rfl | hne
    · simp only [Function.update_self]
      exact h.addr _ hi
    · simp only [Function.update_of_ne hne]
      exact h.addr i hi
  · intro k hk hkl
    have hroom := h.room
    have hne : (used + taken) % SKW_TX_VRING_SIZE ≠ k % SKW_TX_VRING_SIZE :=
      Lib.mod_ne_of_lt (by omega) (by omega)
    simp only [Function.update_of_ne hne.symm]
    exact h.queued k (by omega) hkl
  · rw [hu, ← Nat.add_assoc, BitVec.ofNat_add (used + taken)]
    rfl
  · rw [hs, hlen, h.addr _ (slot_lt _), entries_succ]

/-- The loop collects what is queued, up to the limit. -/
private theorem Holds.gather {limit : ℕ} (turns : ℕ) {g : Gather}
    (h : g.vr.Holds frames used taken) (hu : g.usedIdx = BitVec.ofNat 16 (used + taken))
    (hs : g.sgl = entries frames used taken) (hl : taken ≤ limit)
    (ht : min limit (frames.length - used) ≤ taken + turns) :
    let r := gather (BitVec.ofNat 16 frames.length) limit turns g
    let n := min limit (frames.length - used)
    r.vr.Holds frames used n ∧ r.usedIdx = BitVec.ofNat 16 (used + n) ∧
      r.sgl = entries frames used n := by
  have hle := h.le
  induction turns generalizing g taken with
  | zero =>
    have hn : min limit (frames.length - used) = taken := by omega
    simp only [TxVring.gather, hn]
    exact ⟨h, hu, hs⟩
  | succ turns ih =>
    have hmask : masked g.usedIdx = masked (BitVec.ofNat 16 frames.length) ↔
        used + taken = frames.length := by
      rw [hu, masked_ofNat, masked_ofNat]
      refine ⟨Lib.mod_inj_of_lt hle ?_, fun he => by rw [he]⟩
      exact Nat.lt_of_lt_of_le h.room (by omega)
    simp only [TxVring.gather]
    split_ifs with hstop
    · have hn : min limit (frames.length - used) = taken := by
        rw [hmask, hs, length_entries] at hstop
        omega
      rw [hn]
      exact ⟨h, hu, hs⟩
    · rw [hmask, hs, length_entries] at hstop
      obtain ⟨h₁, h₂, h₃⟩ := h.one hu hs (by omega)
      exact ih h₁ h₂ h₃ (by omega) (by omega) h₁.le

theorem Holds.sdioCollect (h : v.Holds frames used 0) (limit : ℕ) :
    let r := v.sdioCollect limit
    let n := min limit (frames.length - used)
    r.vr.Holds frames used n ∧ r.usedIdx = BitVec.ofNat 16 (used + n) ∧
      r.sgl = entries frames used n := by
  unfold TxVring.sdioCollect
  have hroom := h.room
  rw [h.avail]
  exact Holds.gather SKW_TX_VRING_SIZE h h.usedIdx rfl (Nat.zero_le _) (by omega)

/-- The collected frames are read as they were accepted. -/
theorem Holds.frameAt_entries (h : v.Holds frames used taken) :
    (entries frames used taken).map v.frameAt = (frames.drop used).take taken := by
  have hle := h.le
  refine List.ext_getElem (by simp; omega) fun i hi _ => ?_
  simp only [List.length_map, length_entries] at hi
  have hg : frames.getD (used + i) [] = frames[used + i] :=
    List.getD_eq_getElem _ _ (by omega)
  simp only [entries, List.getElem_map, List.getElem_range, frameAt, List.getElem_take,
    List.getElem_drop]
  rw [(h.stored (used + i) (by omega) (by omega)).2, hg]

theorem Holds.publish (h : v.Holds frames used taken) :
    { v with usedIdx := BitVec.ofNat 16 (used + taken) }.Holds frames (used + taken) 0 where
  avail := h.avail
  usedIdx := rfl
  le := h.le
  room := by have := h.room; omega
  addr := h.addr
  queued := h.queued
  stored k hk := h.stored k (by omega)

end

end TxVring
end Skw
