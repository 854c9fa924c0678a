import Skw.Kernel.Types
import Skw.Lib.Loop
import Mathlib.Logic.Function.Basic

/-! The completions of a receive channel of the PCIe interface. `skw_edma_napi_txrx_compl_task`
walks its ring of descriptors with a pointer, an index and a node of a list beside each other. -/
namespace Skw

abbrev SKW_EDMA_WIFI_RX0_FITER_CHN : ℕ := 17
abbrev SKW_EDMA_WIFI_RX1_FITER_CHN : ℕ := 18

/-- What is used of `skw_edma_hdr`, a descriptor. -/
structure EdmaHdr where
  pcieAddr : BitVec 40
  done : Bool
  dataLen : BitVec 16
deriving DecidableEq

/-- What is used of `skw_edma_node`. -/
structure EdmaNode where
  buffer : Ptr
  dmaAddr : BitVec 64
deriving DecidableEq

/-- What is used of `skw_edma_chn`. `hdr` is the memory from the first descriptor on, and `node` the
list of nodes by position. -/
structure EdmaChn where
  channel : ℕ
  hdr : ℕ → EdmaHdr
  node : ℕ → EdmaNode
  currentNode : ℕ
  maxNodeNum : ℕ
  swtail : ℕ
  rxNodeCount : BitVec 16
  edmaChanLock : Bool

/-- What a walk meets: the buffer that `skw_edma_alloc_frag` finds for the `i`-th completion, and
what `skw_pci_map_single` makes of a buffer. -/
structure EdmaEnv where
  allocFrag : ℕ → Option Ptr
  mapSingle : Ptr → BitVec 64

/-- The arguments of `skw_pcie_edma_rx_cb`, with the place of the descriptor. -/
structure EdmaRx where
  place : ℕ
  pcieAddr : BitVec 40
  dataLen : BitVec 16
deriving DecidableEq

/-- A walk: the channel, `edma_hdr`, `*quota`, `count`, what was handed on, how often the list was
submitted again, the descriptors that were touched, and the error of the return in the loop. -/
structure EdmaWalk where
  chn : EdmaChn
  edmaHdr : ℕ
  quota : ℕ
  count : ℕ
  rx : List EdmaRx
  submits : ℕ
  touched : List ℕ
  err : Option ℤ

def dmaToPcie (addr : BitVec 64) : BitVec 40 := (addr + 0x8000000000).setWidth 40

def IsFilterChn (channel : ℕ) : Prop :=
  channel = SKW_EDMA_WIFI_RX0_FITER_CHN ∨ channel = SKW_EDMA_WIFI_RX1_FITER_CHN

instance (channel : ℕ) : Decidable (IsFilterChn channel) := inferInstanceAs (Decidable (_ ∨ _))

namespace EdmaChn

def setNode (c : EdmaChn) (node : EdmaNode) : EdmaChn :=
  { c with node := Function.update c.node c.currentNode node }

def setHdr (c : EdmaChn) (i : ℕ) (h : EdmaHdr) : EdmaChn :=
  { c with hdr := Function.update c.hdr i h }

/-- `skw_edma_hdr_tail`. -/
def hdrTail (c : EdmaChn) : ℕ := (c.swtail + 1) % c.maxNodeNum

/-- The node behind the current one, from the last the first of the list. -/
def nextNode (c : EdmaChn) : ℕ :=
  if c.currentNode + 1 = c.maxNodeNum then 0 else c.currentNode + 1

/-- The buffer of a completion before it is handed on. -/
def unmap (c : EdmaChn) : EdmaChn :=
  let node := c.node c.currentNode
  if node.dmaAddr ≠ 0 then c.setNode { node with dmaAddr := 0 } else c

def remap (c : EdmaChn) (mapSingle : Ptr → BitVec 64) : EdmaChn :=
  let node := c.node c.currentNode
  if node.dmaAddr = 0 then c.setNode { node with dmaAddr := mapSingle node.buffer } else c

/-- A new buffer for descriptor `i` and the current node. -/
def refill (c : EdmaChn) (mapSingle : Ptr → BitVec 64) (i : ℕ) (buffer : Ptr) : EdmaChn :=
  (c.setHdr i { c.hdr i with pcieAddr := dmaToPcie (mapSingle buffer) }).setNode
    ⟨buffer, mapSingle buffer⟩

end EdmaChn

namespace EdmaWalk

/-- A completion up to the call of `skw_pcie_edma_rx_cb` and the count of it. -/
def receive (w : EdmaWalk) : EdmaWalk :=
  let h := w.chn.hdr w.edmaHdr
  let count := w.count + h.dataLen.toNat / 8
  { w with
    count := count
    quota := if count ≤ w.quota then w.quota - count else 0
    chn := { w.chn.unmap with swtail := w.chn.hdrTail, rxNodeCount := w.chn.rxNodeCount + 1 }
    rx := w.rx ++ [⟨w.edmaHdr, h.pcieAddr, h.dataLen⟩] }

/-- The rest of a pass. -/
def advance (w : EdmaWalk) (mapSingle : Ptr → BitVec 64) : EdmaWalk :=
  let full := w.chn.rxNodeCount.toNat = w.chn.maxNodeNum
  let c := { w.chn with rxNodeCount := if full then 0 else w.chn.rxNodeCount }
  let c := (c.setHdr w.edmaHdr { c.hdr w.edmaHdr with done := false }).remap mapSingle
  { w with
    submits := if full then w.submits + 1 else w.submits
    edmaHdr := w.edmaHdr + 1
    chn := { c with currentNode := c.nextNode } }

/-- A pass of the loop. The lock is released behind the loop only. -/
def pass (env : EdmaEnv) (w : EdmaWalk) : Lib.Pass EdmaWalk :=
  let w := { w with touched := w.touched ++ [w.edmaHdr] }
  if (w.chn.hdr w.edmaHdr).done ∧ 0 < w.quota then
    let v := w.receive
    if IsFilterChn v.chn.channel then
      match env.allocFrag w.rx.length with
      | none => .done { v with err := some (-ENOMEM) }
      | some buffer =>
        .next (advance { v with chn := v.chn.refill env.mapSingle v.edmaHdr buffer } env.mapSingle)
    else .next (v.advance env.mapSingle)
  else .done { w with chn := { w.chn with edmaChanLock := false } }

def start (c : EdmaChn) (quota : ℕ) : EdmaWalk where
  chn := { c with edmaChanLock := true }
  edmaHdr := c.swtail
  quota := quota
  count := 0
  rx := []
  submits := 0
  touched := []
  err := none

end EdmaWalk

/-- `skw_edma_napi_txrx_compl_task`, if the loop ends within `fuel` passes. -/
def napiTxrxComplTask (fuel : ℕ) (env : EdmaEnv) (c : EdmaChn) (quota : ℕ) : Option EdmaWalk :=
  Lib.loop (EdmaWalk.pass env) fuel (.start c quota)

/-- The units of a completion. -/
def EdmaRx.units (r : EdmaRx) : ℕ := r.dataLen.toNat / 8

namespace EdmaChn

/-- The descriptor `i` places behind `swtail` in the ring, as it is handed on. -/
def completion (c : EdmaChn) (i : ℕ) : EdmaRx :=
  let place := (c.swtail + i) % c.maxNodeNum
  ⟨place, (c.hdr place).pcieAddr, (c.hdr place).dataLen⟩

end EdmaChn

namespace EdmaChn

/-- The units of the first completions, and what the quota is after them: it is charged with all
units so far at each one. -/
def unitsTo (c : EdmaChn) (k : ℕ) : ℕ := ((List.range k).map fun i => (c.completion i).units).sum

def quotaAt (c : EdmaChn) (quota : ℕ) : ℕ → ℕ
  | 0 => quota
  | k + 1 =>
    if c.unitsTo (k + 1) ≤ c.quotaAt quota k then c.quotaAt quota k - c.unitsTo (k + 1) else 0

/-- The completion is done, and the quota is not used up before it. -/
def DueAt (c : EdmaChn) (quota i : ℕ) : Prop :=
  (c.hdr (c.completion i).place).done = true ∧ 0 < c.quotaAt quota i

theorem unitsTo_succ (c : EdmaChn) (k : ℕ) :
    c.unitsTo (k + 1) = c.unitsTo k + (c.completion k).units := by
  simp [unitsTo, List.range_succ]

/-- As long as the quota is not used up, the units are below it. -/
theorem unitsTo_lt (c : EdmaChn) {quota k : ℕ} (h : 0 < c.quotaAt quota k) :
    c.unitsTo k + c.quotaAt quota k ≤ quota := by
  induction k with
  | zero => simp [unitsTo, quotaAt]
  | succ k ih =>
    rw [quotaAt] at h ⊢
    split_ifs at h ⊢ with hle
    · have := ih (by omega)
      omega
    · exact absurd h (lt_irrefl 0)

end EdmaChn

/-- The first `k` completions behind `swtail` were handed on in order, each once; the walk stopped
where none was done or the quota was used up, with index and node in step, and without the lock. -/
structure EdmaWalk.Complete (w : EdmaWalk) (c : EdmaChn) (quota k : ℕ) : Prop where
  le : k ≤ c.maxNodeNum
  inside : ∀ i ∈ w.touched, i < c.maxNodeNum
  rx : w.rx = (List.range k).map c.completion
  done : ∀ r ∈ w.rx, (c.hdr r.place).done = true
  stop : w.quota = 0 ∨ (w.chn.hdr ((c.swtail + k) % c.maxNodeNum)).done = false
  swtail : w.chn.swtail = (c.swtail + k) % c.maxNodeNum
  currentNode : w.chn.currentNode = (c.swtail + k) % c.maxNodeNum
  units : (w.rx.map EdmaRx.units).sum ≤ quota + (w.rx.getLast?.map EdmaRx.units).getD 0
  unlocked : w.chn.edmaChanLock = false

section
variable {env : EdmaEnv} {c : EdmaChn} {quota j : ℕ} {w : EdmaWalk}

namespace EdmaWalk

/-- What the part of a pass in front of a refill leaves in the channel. -/
theorem chn_receive (w : EdmaWalk) : ∃ node rxNodeCount, w.receive.chn =
    { w.chn with node := node, rxNodeCount := rxNodeCount, swtail := w.chn.hdrTail } := by
  unfold receive EdmaChn.unmap
  dsimp only
  split_ifs
  · exact ⟨_, _, rfl⟩
  · exact ⟨w.chn.node, _, rfl⟩

/-- What the part behind it leaves. -/
theorem chn_advance (v : EdmaWalk) (mapSingle : Ptr → BitVec 64) :
    ∃ node rxNodeCount, (v.advance mapSingle).chn =
      { v.chn with
        node := node
        rxNodeCount := rxNodeCount
        hdr := Function.update v.chn.hdr v.edmaHdr { v.chn.hdr v.edmaHdr with done := false }
        currentNode := v.chn.nextNode } := by
  unfold advance EdmaChn.remap
  dsimp only
  split_ifs
  · exact ⟨_, _, rfl⟩
  · exact ⟨v.chn.node, _, rfl⟩
  · exact ⟨_, _, rfl⟩
  · exact ⟨v.chn.node, _, rfl⟩

/-- What is known before the pass for completion `j`, in front of the end of the ring. -/
structure At (w : EdmaWalk) (c : EdmaChn) (quota j : ℕ) : Prop where
  channel : w.chn.channel = c.channel
  maxNodeNum : w.chn.maxNodeNum = c.maxNodeNum
  swtail : w.chn.swtail = (c.swtail + j) % c.maxNodeNum
  currentNode : w.chn.currentNode = (c.swtail + j) % c.maxNodeNum
  locked : w.chn.edmaChanLock = true
  ahead : ∀ i, i < c.swtail ∨ c.swtail + j ≤ i → w.chn.hdr i = c.hdr i
  edmaHdr : w.edmaHdr = c.swtail + j
  quota : w.quota = c.quotaAt quota j
  count : w.count = c.unitsTo j
  rx : w.rx = (List.range j).map c.completion
  touched : w.touched = List.range' c.swtail j

theorem start_at (c : EdmaChn) (quota : ℕ) (ht : c.swtail < c.maxNodeNum)
    (hn : c.currentNode = c.swtail) : (start c quota).At c quota 0 where
  channel := rfl
  maxNodeNum := rfl
  swtail := (Nat.mod_eq_of_lt ht).symm
  currentNode := hn.trans (Nat.mod_eq_of_lt ht).symm
  locked := rfl
  ahead _ _ := rfl
  edmaHdr := rfl
  quota := rfl
  count := rfl
  rx := rfl
  touched := rfl

/-- In front of the end, the place of a completion in the ring is that of its descriptor. -/
theorem place_eq (h : c.swtail + j < c.maxNodeNum) : (c.completion j).place = c.swtail + j :=
  Nat.mod_eq_of_lt h

/-- The walk after the completion at the pointer. -/
theorem At.advance (h : w.At c quota j) (hj : c.swtail + j < c.maxNodeNum) {v : EdmaWalk}
    (hchn : ∃ hdr node, v.chn = { w.receive.chn with hdr := hdr, node := node } ∧
      ∀ i ≠ w.edmaHdr, hdr i = w.chn.hdr i)
    (hv : v.edmaHdr = w.edmaHdr ∧ v.quota = w.receive.quota ∧ v.count = w.receive.count ∧
      v.rx = w.receive.rx ∧ v.touched = w.touched ++ [w.edmaHdr]) (mapSingle : Ptr → BitVec 64) :
    (v.advance mapSingle).At c quota (j + 1) := by
  obtain ⟨hptr, hquota, hcount, hrx, htouched⟩ := hv
  obtain ⟨hdr, node, hvc, hhdr⟩ := hchn
  obtain ⟨f, r, hf⟩ := w.chn_receive
  obtain ⟨g, q, hg⟩ := v.chn_advance mapSingle
  rw [hvc, hf] at hg
  have hat : w.chn.hdr w.edmaHdr = c.hdr (c.swtail + j) := by
    rw [h.edmaHdr]
    exact h.ahead _ (.inr le_rfl)
  have hnext : ((c.swtail + j) % c.maxNodeNum + 1) % c.maxNodeNum =
      (c.swtail + (j + 1)) % c.maxNodeNum := by
    rw [Nat.mod_add_mod, Nat.add_assoc]
  have hsum : w.count + (w.chn.hdr w.edmaHdr).dataLen.toNat / 8 = c.unitsTo (j + 1) := by
    rw [h.count, hat, EdmaChn.unitsTo_succ]
    simp only [EdmaRx.units, EdmaChn.completion, Nat.mod_eq_of_lt hj]
  constructor
  case channel => rw [hg]; exact h.channel
  case maxNodeNum => rw [hg]; exact h.maxNodeNum
  case swtail =>
    rw [hg]
    show w.chn.hdrTail = _
    rw [EdmaChn.hdrTail, h.swtail, h.maxNodeNum, hnext]
  case currentNode =>
    rw [hg]
    show (if w.chn.currentNode + 1 = w.chn.maxNodeNum then 0 else w.chn.currentNode + 1) = _
    rw [h.currentNode, h.maxNodeNum, ← hnext, Nat.mod_eq_of_lt hj]
    split_ifs with he
    · rw [he, Nat.mod_self]
    · rw [Nat.mod_eq_of_lt (by omega)]
  case locked => rw [hg]; exact h.locked
  case ahead =>
    intro i hi
    have hne : i ≠ w.edmaHdr := by
      rw [h.edmaHdr]
      omega
    rw [hg]
    show Function.update _ v.edmaHdr _ i = _
    rw [hptr, Function.update_of_ne hne]
    exact (hhdr i hne).trans (h.ahead i (by omega))
  case edmaHdr => exact (congrArg (· + 1) (hptr.trans h.edmaHdr)).trans (Nat.add_assoc ..)
  case quota =>
    refine hquota.trans ?_
    show (if w.count + _ ≤ w.quota then w.quota - (w.count + _) else 0) = _
    rw [hsum, h.quota]
    rfl
  case count => exact hcount.trans hsum
  case rx =>
    refine hrx.trans ?_
    show w.rx ++ [⟨w.edmaHdr, _, _⟩] = _
    rw [h.rx, List.range_succ, List.map_append, List.map_singleton, hat, h.edmaHdr]
    simp only [EdmaChn.completion, Nat.mod_eq_of_lt hj]
  case touched =>
    refine htouched.trans ?_
    rw [h.touched, h.edmaHdr, List.range'_concat]
    simp

theorem At.due_iff (h : w.At c quota j) (hj : c.swtail + j < c.maxNodeNum) :
    (w.chn.hdr w.edmaHdr).done = true ∧ 0 < w.quota ↔ c.DueAt quota j := by
  rw [h.edmaHdr, h.ahead _ (.inr le_rfl), h.quota, EdmaChn.DueAt, place_eq hj]

/-- The loop is left in front of a completion that is not due. -/
theorem At.pass_of_not_due (h : w.At c quota j) (hj : c.swtail + j < c.maxNodeNum)
    (hdue : ¬c.DueAt quota j) : pass env w = .done { w with
      touched := w.touched ++ [w.edmaHdr]
      chn := { w.chn with edmaChanLock := false } } :=
  if_neg (mt (h.due_iff hj).mp hdue)

theorem At.allocFrag_eq (h : w.At c quota j) : env.allocFrag w.rx.length = env.allocFrag j := by
  rw [h.rx, List.length_map, List.length_range]

/-- A completion whose buffer cannot be replaced. -/
theorem At.pass_of_refused (h : w.At c quota j) (hj : c.swtail + j < c.maxNodeNum)
    (hdue : c.DueAt quota j) (hf : IsFilterChn c.channel) (hno : env.allocFrag j = none) :
    ∃ t, pass env w = .done t ∧ t.chn.edmaChanLock = true := by
  let u := { w with touched := w.touched ++ [w.edmaHdr] }
  have hdue' : (u.chn.hdr u.edmaHdr).done = true ∧ 0 < u.quota := (h.due_iff hj).mpr hdue
  obtain ⟨f, r, hc⟩ := u.chn_receive
  have hchannel : IsFilterChn u.receive.chn.channel := by
    rw [hc]
    exact h.channel.symm ▸ hf
  refine ⟨{ u.receive with err := some (-ENOMEM) }, ?_, ?_⟩
  · refine (if_pos hdue').trans ((if_pos hchannel).trans ?_)
    rw [show env.allocFrag w.rx.length = none from h.allocFrag_eq.trans hno]
  · show u.receive.chn.edmaChanLock = true
    rw [hc]
    exact h.locked

variable (env) in
theorem At.pass_of_due (h : w.At c quota j) (hj : c.swtail + j < c.maxNodeNum)
    (hdue : c.DueAt quota j) (hok : IsFilterChn c.channel → (env.allocFrag j).isSome = true) :
    ∃ t, pass env w = .next t ∧ t.At c quota (j + 1) := by
  let u := { w with touched := w.touched ++ [w.edmaHdr] }
  have hdue' : (u.chn.hdr u.edmaHdr).done = true ∧ 0 < u.quota := (h.due_iff hj).mpr hdue
  have hkeep : u.receive.edmaHdr = w.edmaHdr ∧ u.receive.quota = w.receive.quota ∧
      u.receive.count = w.receive.count ∧ u.receive.rx = w.receive.rx ∧
      u.receive.touched = w.touched ++ [w.edmaHdr] := ⟨rfl, rfl, rfl, rfl, rfl⟩
  obtain ⟨f, r, hc⟩ := w.chn_receive
  have hsame : u.receive.chn = w.receive.chn := rfl
  by_cases hf : IsFilterChn c.channel
  · obtain ⟨buffer, hb⟩ := Option.isSome_iff_exists.mp (hok hf)
    have hchannel : IsFilterChn u.receive.chn.channel := by
      rw [hsame, hc]
      exact h.channel.symm ▸ hf
    let v := { u.receive with chn := u.receive.chn.refill env.mapSingle u.receive.edmaHdr buffer }
    refine ⟨v.advance env.mapSingle, ?_, h.advance hj (v := v) ⟨v.chn.hdr, v.chn.node, ?_, ?_⟩ hkeep
      _⟩
    · refine (if_pos hdue').trans ((if_pos hchannel).trans ?_)
      rw [show env.allocFrag w.rx.length = some buffer from h.allocFrag_eq.trans hb]
    · rfl
    · intro i hi
      show Function.update w.receive.chn.hdr w.edmaHdr _ i = _
      rw [Function.update_of_ne hi, hc]
  · have hchannel : ¬IsFilterChn u.receive.chn.channel := by
      rw [hsame, hc]
      exact h.channel.symm ▸ hf
    refine ⟨_, (if_pos hdue').trans (if_neg hchannel), ?_⟩
    exact h.advance hj ⟨w.chn.hdr, w.receive.chn.node, by rw [hsame, hc], fun _ _ => rfl⟩ hkeep _

/-- The walk that stops in front of completion `k`. -/
theorem At.complete (h : w.At c quota j) (hj : c.swtail + j < c.maxNodeNum)
    (hall : ∀ i < j, c.DueAt quota i) (hdue : ¬c.DueAt quota j) :
    ({ w with
      touched := w.touched ++ [w.edmaHdr]
      chn := { w.chn with edmaChanLock := false } } : EdmaWalk).Complete c quota j := by
  have hplace := Nat.mod_eq_of_lt hj
  constructor
  case le => omega
  case inside =>
    intro i hi
    rw [h.touched, h.edmaHdr, ← List.range'_1_concat, List.mem_range'_1] at hi
    omega
  case rx => exact h.rx
  case done =>
    intro r hr
    rw [show _ = _ from h.rx] at hr
    obtain ⟨i, hi, rfl⟩ := List.mem_map.mp hr
    exact (hall i (List.mem_range.mp hi)).1
  case stop =>
    by_contra hne
    obtain ⟨hq, hd⟩ := not_or.mp hne
    refine hdue ((h.due_iff hj).mp ⟨?_, Nat.pos_of_ne_zero hq⟩)
    rw [hplace] at hd
    rw [h.edmaHdr]
    exact (Bool.not_eq_false _).mp hd
  case swtail => exact h.swtail
  case currentNode => exact h.currentNode
  case units =>
    show (w.rx.map _).sum ≤ _ + (w.rx.getLast?.map _).getD 0
    rw [h.rx]
    cases j with
    | zero => exact Nat.zero_le _
    | succ k =>
      have hpos := c.unitsTo_lt (hall k (Nat.lt_succ_self k)).2
      have hsum := c.unitsTo_succ k
      rw [List.map_map]
      show c.unitsTo (k + 1) ≤ _
      simp only [List.range_succ, List.map_append, List.map_singleton, List.getLast?_append,
        List.getLast?_singleton, Option.some_or, Option.map_some, Option.getD_some]
      omega
  case unlocked => rfl

/-- Up to the first completion that is not due, in front of the end of the ring. -/
theorem At.exists_loop {m : ℕ} (h : w.At c quota j) (hjm : j ≤ m)
    (hm : c.swtail + m < c.maxNodeNum) (hall : ∀ i < m, c.DueAt quota i)
    (hdue : ¬c.DueAt quota m)
    (hok : IsFilterChn c.channel → ∀ i < m, (env.allocFrag i).isSome = true) :
    ∃ fuel t, Lib.loop (pass env) fuel w = some t ∧ t.Complete c quota m := by
  induction hd : m - j generalizing w j with
  | zero =>
    obtain rfl : j = m := by omega
    exact ⟨1, _, by rw [Lib.loop, h.pass_of_not_due hm hdue], h.complete hm hall hdue⟩
  | succ d ih =>
    have hj : c.swtail + j < c.maxNodeNum := by omega
    obtain ⟨u, hpass, hu⟩ := h.pass_of_due env hj (hall j (by omega))
      fun hf => hok hf j (by omega)
    obtain ⟨fuel, t, hl, ht⟩ := ih hu (by omega) (by omega)
    exact ⟨fuel + 1, t, by rw [Lib.loop, hpass]; exact hl, ht⟩

theorem touched_subset_pass (env : EdmaEnv) (w : EdmaWalk) :
    w.touched ++ [w.edmaHdr] ⊆ (pass env w).state.touched := by
  unfold pass
  dsimp only
  split_ifs
  · split
    · exact List.Subset.refl _
    · exact List.Subset.refl _
  · exact List.Subset.refl _
  · exact List.Subset.refl _

theorem mem_touched_loop {i fuel : ℕ} {t : EdmaWalk} (h : Lib.loop (pass env) fuel w = some t)
    (hi : i ∈ w.touched ++ [w.edmaHdr]) : i ∈ t.touched := by
  refine Lib.of_loop_eq (I := fun u => i ∈ u.touched ++ [u.edmaHdr]) (Q := fun u => i ∈ u.touched)
    ?_ ?_ hi h
  · intro u v hu hp
    have := touched_subset_pass env u hu
    rw [hp] at this
    exact List.mem_append_left _ this
  · intro u v hu hp
    have := touched_subset_pass env u hu
    rwa [hp] at this

/-- From a walk that ends well back. -/
theorem At.due_of_loop {fuel k : ℕ} {t : EdmaWalk} (h : w.At c quota j)
    (hj : c.swtail + j < c.maxNodeNum) (hl : Lib.loop (pass env) fuel w = some t)
    (ht : t.Complete c quota k)
    (hok : IsFilterChn c.channel → ∀ i < j, (env.allocFrag i).isSome = true) :
    ∃ m, c.swtail + m < c.maxNodeNum ∧ ¬c.DueAt quota m ∧
      (IsFilterChn c.channel → ∀ i < m, (env.allocFrag i).isSome = true) := by
  induction fuel generalizing w j with
  | zero => cases hl
  | succ fuel ih =>
    by_cases hdue : c.DueAt quota j
    · by_cases hno : IsFilterChn c.channel ∧ env.allocFrag j = none
      · obtain ⟨u, hpass, hlock⟩ := h.pass_of_refused hj hdue hno.1 hno.2
        rw [Lib.loop, hpass] at hl
        cases hl
        exact absurd (hlock.symm.trans ht.unlocked) (by decide)
      · have hsome : IsFilterChn c.channel → (env.allocFrag j).isSome = true := fun hf =>
          Option.isSome_iff_ne_none.mpr fun hn => hno ⟨hf, hn⟩
        obtain ⟨u, hpass, hu⟩ := h.pass_of_due env hj hdue hsome
        rw [Lib.loop, hpass] at hl
        have hin : c.swtail + (j + 1) < c.maxNodeNum :=
          ht.inside _ (mem_touched_loop hl (by rw [hu.edmaHdr]; simp))
        refine ih hu hin hl fun hf i hi => ?_
        rcases Nat.lt_succ_iff_lt_or_eq.mp hi with hi | rfl
        · exact hok hf i hi
        · exact hsome hf
    · exact ⟨j, hj, hdue, hok⟩

end EdmaWalk

/-- The completions of a ring are handed on as they should be exactly where one in front of the end
of the ring is not due, and a buffer is found for each that is due in a filter channel. -/
theorem napiTxrxComplTask_complete_iff (env : EdmaEnv) (c : EdmaChn) (quota : ℕ)
    (ht : c.swtail < c.maxNodeNum) (hn : c.currentNode = c.swtail) :
    (∃ fuel w k, napiTxrxComplTask fuel env c quota = some w ∧ w.Complete c quota k) ↔
      ∃ m, c.swtail + m < c.maxNodeNum ∧ ¬c.DueAt quota m ∧
        (IsFilterChn c.channel → ∀ i < m, (env.allocFrag i).isSome = true) := by
  have hstart := EdmaWalk.start_at c quota ht hn
  constructor
  · rintro ⟨fuel, w, k, hl, hw⟩
    exact hstart.due_of_loop ht hl hw fun _ i hi => absurd hi (Nat.not_lt_zero i)
  · rintro ⟨m, hm, hdue, hok⟩
    -- the first one that is not due
    obtain ⟨k, ⟨hk, hno⟩, hfirst⟩ : ∃ k, (k ≤ m ∧ ¬c.DueAt quota k) ∧ ∀ i < k, c.DueAt quota i := by
      induction m using Nat.strong_induction_on with
      | h m ih =>
        by_cases hall : ∀ i < m, c.DueAt quota i
        · exact ⟨m, ⟨le_rfl, hdue⟩, hall⟩
        · push Not at hall
          obtain ⟨i, hi, hno⟩ := hall
          obtain ⟨k, ⟨hk, hno⟩, hfirst⟩ := ih i hi (by omega) hno fun hf l hl => hok hf l (by omega)
          exact ⟨k, ⟨hk.trans hi.le, hno⟩, hfirst⟩
    obtain ⟨fuel, w, hl, hw⟩ := hstart.exists_loop (Nat.zero_le k) (by omega) hfirst hno
      fun hf i hi => hok hf i (by omega)
    exact ⟨fuel, w, k, hl, hw⟩

end

/-- A receive channel of four descriptors, of which those from 2 on are done. -/
def EdmaChn.straddling (done : ℕ → Bool) : EdmaChn where
  channel := 25
  hdr i := ⟨BitVec.ofNat 40 i, done i, 16⟩
  node i := ⟨i + 1, 1⟩
  currentNode := 2
  maxNodeNum := 4
  swtail := 2
  rxNodeCount := 0
  edmaChanLock := false

def EdmaEnv.ok : EdmaEnv := ⟨some, fun p => BitVec.ofNat 64 p⟩

theorem napiTxrxComplTask_complete_inside :
    ∃ fuel w k, napiTxrxComplTask fuel .ok (.straddling fun i => i = 2) 64 = some w ∧
      w.Complete (.straddling fun i => i = 2) 64 k :=
  (napiTxrxComplTask_complete_iff .ok (.straddling fun i => i = 2) 64 (by decide) rfl).mpr
    ⟨1, by decide, fun h => Bool.false_ne_true h.1, fun hf => absurd hf (by decide)⟩

/-- Of the descriptors 2, 3 and 0, all done, 2 and 3 are handed on, and then the memory behind the
ring is read; on a filter channel without a new buffer the lock is kept. -/
theorem straddling_not_complete :
    (∃ w, napiTxrxComplTask 3 .ok (.straddling fun i => i < 4 ∧ i ≠ 1) 64 = some w ∧
      4 ∈ w.touched ∧ w.rx.map EdmaRx.place = [2, 3] ∧ 0 < w.quota ∧
      ∀ k, ¬w.Complete (.straddling fun i => i < 4 ∧ i ≠ 1) 64 k) ∧
    ∃ w, napiTxrxComplTask 1 ⟨fun _ => none, fun _ => 0⟩
        { EdmaChn.straddling fun i => i = 2 with channel := SKW_EDMA_WIFI_RX0_FITER_CHN } 64 =
      some w ∧ w.err = some (-ENOMEM) ∧ w.chn.edmaChanLock = true := by
  constructor
  · have hrun : (napiTxrxComplTask 3 .ok (.straddling fun i => i < 4 ∧ i ≠ 1) 64).map
        (fun w => (w.touched, w.rx.map EdmaRx.place, w.quota)) = some ([2, 3, 4], [2, 3], 58) := by
      decide
    obtain ⟨w, hw, he⟩ := Option.map_eq_some_iff.mp hrun
    obtain ⟨htouched, he⟩ := Prod.ext_iff.mp he
    obtain ⟨hrx, hquota⟩ := Prod.ext_iff.mp he
    have hmem : 4 ∈ w.touched := by
      rw [show w.touched = _ from htouched]
      decide
    refine ⟨w, hw, hmem, hrx, by rw [show w.quota = _ from hquota]; decide, fun k hk => ?_⟩
    exact absurd (hk.inside 4 hmem) (lt_irrefl 4)
  · exact ⟨_, rfl, rfl, rfl⟩

end Skw
