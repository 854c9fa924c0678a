import Skw.Lib.Ring

/-! The channel that supplies the PCIe interface with free receive buffers. Its nodes form a ring
and keep 32 addresses each; `skw_edma_set_data` writes them one by one and goes on to the next node
when one is full. -/
namespace Skw

abbrev RX_FREE_BUF_ADDR_CNT : ℕ := 32
abbrev SKW_EDMA_RX_FREE_CHN_NODE_NUM : ℕ := 24
abbrev SKW_EDMA_SKB_DATA_LEN : ℕ := 2048

/-- What a node keeps of an address. A buffer is known by it. -/
abbrev PcieAddr := BitVec 40

/-- What is used of `skw_edma_chn` and its nodes in the channel of the free buffers. `used` is that
of the current node; it is set to 0 whenever a node becomes the current one. -/
structure SupplyChn where
  buffer : ℕ → ℕ → PcieAddr
  dataLen : ℕ → ℕ
  currentNode : ℕ
  used : ℕ
  txNodeCount : ℕ

namespace SupplyChn

/-- `skw_edma_chn_init`. -/
def init : SupplyChn where
  buffer _ _ := 0x5A5A5A5A5A
  dataLen _ := RX_FREE_BUF_ADDR_CNT * 8
  currentNode := 0
  used := 0
  txNodeCount := 0

/-- `skw_edma_next_node`. -/
def nextNode (c : SupplyChn) : SupplyChn :=
  { c with
    currentNode :=
      if c.currentNode + 1 = SKW_EDMA_RX_FREE_CHN_NODE_NUM then 0 else c.currentNode + 1
    used := 0
    txNodeCount := c.txNodeCount + 1 }

/-- `skw_edma_set_data` for an address. -/
def setData (c : SupplyChn) (addr : PcieAddr) : SupplyChn :=
  let node := c.currentNode
  let c :=
    { c with
      buffer := Function.update c.buffer node (Function.update (c.buffer node) (c.used / 8) addr)
      used := c.used + 8
      dataLen := Function.update c.dataLen node (c.used + 8) }
  if RX_FREE_BUF_ADDR_CNT * 8 < c.used + 8 then c.nextNode else c

/-- What the interface takes from a node. -/
def addrs (c : SupplyChn) (node : ℕ) : List PcieAddr :=
  (List.range (c.dataLen node / 8)).map (c.buffer node)

/-- What the next `pending` nodes from `head` on hold. -/
def ahead (c : SupplyChn) (head pending : ℕ) : List PcieAddr :=
  (List.range pending).flatMap fun i => c.addrs ((head + i) % SKW_EDMA_RX_FREE_CHN_NODE_NUM)

/-- The entries of all nodes behind each other. -/
def flat (c : SupplyChn) (i : ℕ) : PcieAddr :=
  c.buffer (i / RX_FREE_BUF_ADDR_CNT) (i % RX_FREE_BUF_ADDR_CNT)

/-- The entry that is written next. -/
def pos (c : SupplyChn) : ℕ := c.currentNode * RX_FREE_BUF_ADDR_CNT + c.used / 8

/-- Only the current node is not full. -/
structure Sound (c : SupplyChn) : Prop where
  currentNode : c.currentNode < 24
  used : c.used < 256 ∧ c.used % 8 = 0
  dataLen : ∀ i, i ≠ c.currentNode ∨ c.used = 0 → c.dataLen i = 256

variable {c : SupplyChn}

theorem sound_init : init.Sound where
  currentNode := Nat.succ_pos _
  used := ⟨Nat.succ_pos _, rfl⟩
  dataLen _ _ := rfl

theorem Sound.pos_lt (h : c.Sound) : c.pos < 768 := by
  have := h.currentNode
  have := h.used
  unfold pos RX_FREE_BUF_ADDR_CNT
  omega

theorem flat_setData (h : c.Sound) (addr : PcieAddr) :
    (c.setData addr).flat = Function.update c.flat c.pos addr := by
  have hu := h.used
  have hbuf : (c.setData addr).buffer = Function.update c.buffer c.currentNode
      (Function.update (c.buffer c.currentNode) (c.used / 8) addr) := by
    unfold setData nextNode
    dsimp only
    split_ifs <;> rfl
  funext i
  unfold flat pos RX_FREE_BUF_ADDR_CNT
  rw [hbuf]
  by_cases hi : i = c.currentNode * 32 + c.used / 8
  · have hdiv : i / 32 = c.currentNode := by omega
    have hmod : i % 32 = c.used / 8 := by omega
    rw [hdiv, hmod, hi, Function.update_self, Function.update_self, Function.update_self]
  · rw [Function.update_of_ne hi]
    by_cases hdiv : i / 32 = c.currentNode
    · have hmod : i % 32 ≠ c.used / 8 := by omega
      rw [hdiv, Function.update_self, Function.update_of_ne hmod]
    · rw [Function.update_of_ne hdiv]

/-- A node is left with its last entry. -/
theorem setData_spec (h : c.Sound) (addr : PcieAddr) :
    (c.setData addr).Sound ∧ (c.setData addr).pos = (c.pos + 1) % 768 ∧
      (c.setData addr).txNodeCount * 32 + (c.setData addr).used / 8 =
        c.txNodeCount * 32 + c.used / 8 + 1 := by
  have hn := h.currentNode
  have hu := h.used
  unfold setData nextNode pos RX_FREE_BUF_ADDR_CNT SKW_EDMA_RX_FREE_CHN_NODE_NUM
  dsimp only
  by_cases hfull : 256 < c.used + 8 + 8
  · have hlen : ∀ i, Function.update c.dataLen c.currentNode (c.used + 8) i = 256 := by
      intro i
      by_cases hi : i = c.currentNode
      · rw [hi, Function.update_self]
        omega
      · rw [Function.update_of_ne hi]
        exact h.dataLen i (Or.inl hi)
    rw [if_pos hfull]
    dsimp only
    by_cases hlast : c.currentNode + 1 = 24
    · rw [if_pos hlast]
      exact ⟨⟨Nat.succ_pos _, ⟨Nat.succ_pos _, rfl⟩, fun i _ => hlen i⟩, by omega, by omega⟩
    · rw [if_neg hlast]
      refine ⟨⟨?_, ⟨Nat.succ_pos _, rfl⟩, fun i _ => hlen i⟩, by omega, by omega⟩
      dsimp only
      omega
  · rw [if_neg hfull]
    dsimp only
    refine ⟨⟨hn, ⟨by dsimp only; omega, by dsimp only; omega⟩, ?_⟩, by omega, by omega⟩
    intro i hi
    dsimp only at hi ⊢
    have hne : i ≠ c.currentNode := by omega
    rw [Function.update_of_ne hne]
    exact h.dataLen i (Or.inl hne)

/-- A loop of `skw_edma_set_data` puts the addresses behind those that the ring holds. -/
theorem foldl_setData_spec (h : c.Sound) (xs : List PcieAddr) :
    (xs.foldl setData c).Sound ∧
      (xs.foldl setData c).txNodeCount * 32 + (xs.foldl setData c).used / 8 =
        c.txNodeCount * 32 + c.used / 8 + xs.length ∧
      ∀ b j, c.pos = (b + j) % 768 → j + xs.length ≤ 768 →
        (xs.foldl setData c).pos = (b + (j + xs.length)) % 768 ∧
          Lib.ringLoad (xs.foldl setData c).flat 768 b (j + xs.length) =
            Lib.ringLoad c.flat 768 b j ++ xs := by
  induction xs generalizing c with
  | nil => exact ⟨h, rfl, fun b j hj _ => ⟨hj, (List.append_nil _).symm⟩⟩
  | cons x xs ih =>
    obtain ⟨hs, hp, hc⟩ := setData_spec h x
    obtain ⟨hs', hc', hl⟩ := ih hs
    refine ⟨hs', ?_, ?_⟩
    · rw [List.foldl_cons, hc', hc, List.length_cons]
      omega
    · intro b j hj hle
      rw [List.length_cons] at hle
      have hpos : (c.setData x).pos = (b + (j + 1)) % 768 := by
        rw [hp, hj, Nat.mod_add_mod, Nat.add_assoc]
      obtain ⟨hp', hl'⟩ := hl b (j + 1) hpos (by omega)
      have hlen : j + (x :: xs).length = j + 1 + xs.length := by
        rw [List.length_cons]
        omega
      rw [List.foldl_cons, hlen]
      refine ⟨hp', ?_⟩
      rw [hl', flat_setData h, hj, Lib.ringLoad_update _ _ _ (by omega), List.append_assoc]
      rfl

theorem ahead_of_pos (c : SupplyChn) {head pending : ℕ} (h : 0 < pending) (hlt : head < 24) :
    c.ahead head pending = c.addrs head ++ c.ahead ((head + 1) % 24) (pending - 1) := by
  obtain ⟨n, rfl⟩ := Nat.exists_eq_succ_of_ne_zero h.ne'
  unfold ahead SKW_EDMA_RX_FREE_CHN_NODE_NUM
  rw [List.range_succ_eq_map, List.flatMap_cons, List.flatMap_map, Nat.add_zero,
    Nat.mod_eq_of_lt hlt]
  congr 1
  refine List.flatMap_congr fun i _ => ?_
  congr 1
  omega

/-- Full nodes are one piece of the ring. -/
theorem ahead_eq_ringLoad (h : ∀ i, c.dataLen i = 256) (head pending : ℕ) :
    c.ahead head pending = Lib.ringLoad c.flat 768 (head * 32) (pending * 32) := by
  have hblock : ∀ k, c.addrs ((head + k) % 24) =
      Lib.ringLoad c.flat 768 (head * 32 + k * 32) 32 := by
    intro k
    unfold addrs Lib.ringLoad flat RX_FREE_BUF_ADDR_CNT
    rw [h]
    apply List.map_congr_left
    intro i hi
    have hi : i < 32 := List.mem_range.mp hi
    have hdiv : (head * 32 + k * 32 + i) % 768 / 32 = (head + k) % 24 := by omega
    have hmod : (head * 32 + k * 32 + i) % 768 % 32 = i := by omega
    rw [hdiv, hmod]
  unfold ahead SKW_EDMA_RX_FREE_CHN_NODE_NUM
  induction pending with
  | zero => rfl
  | succ n ih =>
    rw [List.range_succ, List.flatMap_append, ih, List.flatMap_singleton, hblock, Nat.succ_mul,
      Lib.ringLoad_add]

end SupplyChn
end Skw
