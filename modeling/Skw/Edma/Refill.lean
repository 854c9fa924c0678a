import Skw.Edma.Supply
import Skw.Rx.Callback
import Skw.Lib.Machine
import Mathlib.Data.List.Nodup

/-! The receive buffers between host and firmware. `skw_edma_alloc_skb` counts the buffers that it
hands out, `skw_pci_edma_rx_data` takes each one that comes back from the list `avail_skb`, and
`skw_edma_refill_skb` makes up for them. The first interface that comes up starts the supply, with
a whole ring of buffers. -/
namespace Skw

/-- A buffer that the firmware returns, with what `skw_pci_edma_rx_data` reads of its descriptor. -/
structure RxDone where
  addr : PcieAddr
  msduLen : BitVec 16
  snapMatch : Bool
deriving DecidableEq

/-- What becomes of a buffer that has come back; a queued frame has its length. -/
inductive RxFate
  | freed
  | lost
  | queued (len : ℕ)
deriving DecidableEq

/-- What a call of `skw_edma_alloc_skb` meets: the buffers that `dev_alloc_skb` finds before it
fails, and whether `submit_list_to_edma_channel` takes the nodes. -/
structure SupplyEnv where
  skbs : List PcieAddr
  submitted : Bool

/-- The buffers of an lmac. The firmware reads at `head`, where `pending` nodes have been submitted
to it; the nodes that it returns are in `inbox`. What was ever written into nodes and read there,
and what has come back, is history. -/
structure Supply where
  chn : SupplyChn
  availSkb : List PcieAddr
  availSkbNum : ℤ
  chnRefill : ℕ
  wrong : ℕ
  head : ℕ
  pending : ℕ
  held : List PcieAddr
  inbox : List (List RxDone)
  posted : List PcieAddr
  read : List PcieAddr
  gone : List (PcieAddr × RxFate)

/-- An interface comes up or goes down, the firmware reads a node or returns one, and the host
takes a returned node. -/
inductive SupplyStep
  | up (env : SupplyEnv)
  | down
  | read
  | returns (node : List RxDone)
  | rx (env : SupplyEnv)

def RxDone.totalLen (r : RxDone) : ℕ := r.msduLen.toNat + if r.snapMatch then 80 else 88

/-- `skb_trim` and `skb_pull` leave this fate of a buffer. -/
def RxDone.fate (r : RxDone) : RxFate :=
  if r.msduLen = 0 then .freed
  else if SKW_ADMA_BUFF_LEN < r.totalLen then .lost
  else .queued (min r.totalLen SKW_EDMA_SKB_DATA_LEN - 8)

/-- `total - avail_skb_num` of `skw_edma_refill_skb`, with `avail_skb_num` cut to 16 bits. -/
def supplyLeft (availSkbNum : ℤ) : BitVec 32 :=
  768 - (BitVec.ofInt 16 availSkbNum).setWidth 32

namespace Supply

def init : Supply := ⟨.init, [], 0, 0, 0, 0, 0, [], [], [], [], []⟩

/-- `skw_edma_alloc_skb`. -/
def allocSkb (s : Supply) (num : ℤ) (env : SupplyEnv) : Supply :=
  let skbs := env.skbs.take num.toNat
  let chn := skbs.foldl SupplyChn.setData { s.chn with txNodeCount := 0 }
  let s := { s with chn, availSkb := s.availSkb ++ skbs, posted := s.posted ++ skbs }
  if env.skbs.length < num.toNat then s
  else
    let s :=
      if env.submitted then
        { s with pending := s.pending + chn.txNodeCount, availSkbNum := s.availSkbNum + num }
      else s
    { s with chn := { chn with txNodeCount := 0 } }

/-- What `skw_edma_refill_skb` asks for, 0 where it asks for nothing. -/
def refillNum (s : Supply) : ℤ :=
  let left := supplyLeft s.availSkbNum
  if RX_FREE_BUF_ADDR_CNT ≤ left.toNat ∧ 0 < s.chnRefill then (left - left % 32).toInt else 0

/-- `skw_edma_refill_skb`. -/
def refillSkb (s : Supply) (env : SupplyEnv) : Supply :=
  if s.refillNum = 0 then s else s.allocSkb s.refillNum env

/-- `skw_edma_init_data_chan`. -/
def initDataChan (s : Supply) (env : SupplyEnv) : Supply :=
  let s := s.allocSkb (RX_FREE_BUF_ADDR_CNT * SKW_EDMA_RX_FREE_CHN_NODE_NUM) env
  { s with chnRefill := s.chnRefill + 1 }

/-- A pass of `skw_pci_edma_rx_data`. -/
def rxData (s : Supply) (r : RxDone) : Supply :=
  if r.addr ∈ s.availSkb then
    { s with
      availSkb := s.availSkb.erase r.addr
      availSkbNum := s.availSkbNum - 1
      gone := s.gone ++ [(r.addr, r.fate)] }
  else { s with wrong := s.wrong + 1 }

/-- `skw_pci_edma_rx_data` for the first returned node. -/
def received (s : Supply) : Supply :=
  match s.inbox with
  | [] => s
  | node :: rest => node.foldl rxData { s with inbox := rest }

/-- The allocator finds no buffer twice, nor one that is in use. -/
def Fresh (s : Supply) (env : SupplyEnv) : Prop :=
  env.skbs.Nodup ∧ ∀ a ∈ env.skbs, a ∉ s.availSkb

instance (s : Supply) (env : SupplyEnv) : Decidable (s.Fresh env) :=
  inferInstanceAs (Decidable (_ ∧ _))

def step (s : Supply) : SupplyStep → Option Supply
  | .up env =>
    if s.chnRefill = 0 then if s.Fresh env then some (s.initDataChan env) else none
    else some { s with chnRefill := s.chnRefill + 1 }
  | .down => some { s with chnRefill := s.chnRefill - 1 }
  | .read =>
    if s.pending = 0 then none
    else
      some
        { s with
          head := (s.head + 1) % SKW_EDMA_RX_FREE_CHN_NODE_NUM
          pending := s.pending - 1
          held := s.held ++ s.chn.addrs s.head
          read := s.read ++ s.chn.addrs s.head }
  | .returns node =>
    if (node.map RxDone.addr).Subperm s.held then
      some { s with held := s.held.diff (node.map RxDone.addr), inbox := s.inbox ++ [node] }
    else none
  | .rx env =>
    if s.inbox = [] then none
    else if s.received.Fresh env then some (s.received.refillSkb env) else none

/-- The addresses that the firmware has still to read. -/
def unread (s : Supply) : List PcieAddr := s.chn.ahead s.head s.pending

/-- The addresses that are on the way back. -/
def returned (s : Supply) : List PcieAddr := s.inbox.flatten.map RxDone.addr

/-- The firmware reads what was written, in its order; a buffer of the list is in one place, each
other one has come back once; and the count is right. -/
structure Clean (s : Supply) : Prop where
  num : s.availSkbNum = s.availSkb.length
  le : s.availSkb.length ≤ 768
  nodup : s.availSkb.Nodup
  order : s.posted = s.read ++ s.unread
  places : s.availSkb.Perm (s.unread ++ s.held ++ s.returned)
  accounts : s.posted.Perm (s.availSkb ++ s.gone.map Prod.fst)
  wrong : s.wrong = 0

/-- The number of buffers for which a step calls `skw_edma_alloc_skb`, 0 when it does not. -/
def asked (s : Supply) : SupplyStep → ℤ
  | .up _ => if s.chnRefill = 0 then 768 else 0
  | .rx _ => s.received.refillNum
  | _ => 0

/-- The supply is started while buffers are out. -/
def Early (s : Supply) (e : SupplyStep) : Prop :=
  (∃ env, e = .up env) ∧ s.chnRefill = 0 ∧ s.availSkb ≠ []

/-- The allocator fails after it has found some of the buffers. -/
def Short (s : Supply) (e : SupplyStep) : Prop :=
  ∃ env, (e = .up env ∨ e = .rx env) ∧ env.skbs ≠ [] ∧ env.skbs.length < s.asked e

/-- The nodes with the buffers are not taken. -/
def Refused (s : Supply) (e : SupplyStep) : Prop :=
  ∃ env, (e = .up env ∨ e = .rx env) ∧ 0 < s.asked e ∧ s.asked e ≤ env.skbs.length ∧
    env.submitted = false

/-- Between two steps every node is full, and the host goes on where the submitted ones end. -/
structure Kept (s : Supply) : Prop where
  clean : s.Clean
  sound : s.chn.Sound
  used : s.chn.used = 0
  txNodeCount : s.chn.txNodeCount = 0
  head : s.head < 24
  currentNode : s.chn.currentNode = (s.head + s.pending) % 24

variable {s t : Supply} {env : SupplyEnv} {e : SupplyStep} {r : RxDone}

theorem kept_init : init.Kept where
  clean :=
    { num := rfl, le := Nat.zero_le _, nodup := List.nodup_nil, order := rfl
      places := .refl _, accounts := .refl _, wrong := rfl }
  sound := SupplyChn.sound_init
  used := rfl
  txNodeCount := rfl
  head := Nat.succ_pos _
  currentNode := rfl

theorem perm_append_rotate {α : Type*} (a b c d : List α) :
    (a ++ b ++ c ++ d).Perm (b ++ (c ++ a) ++ d) := by
  have hcomm : (a ++ (b ++ c)).Perm (b ++ c ++ a) := List.perm_append_comm
  simpa only [List.append_assoc] using hcomm.append_right d

theorem perm_append_swap {α : Type*} (a b c d : List α) :
    (a ++ (b ++ c) ++ d).Perm (a ++ c ++ (d ++ b)) := by
  have hcomm : (b ++ (c ++ d)).Perm (c ++ d ++ b) := List.perm_append_comm
  simpa only [List.append_assoc] using hcomm.append_left a

theorem Kept.dataLen (h : s.Kept) (i : ℕ) : s.chn.dataLen i = 256 :=
  h.sound.dataLen i (Or.inr h.used)

theorem Kept.pending_le (h : s.Kept) : s.pending * 32 ≤ s.availSkb.length := by
  have hlen := h.clean.places.length_eq
  unfold unread at hlen
  rw [SupplyChn.ahead_eq_ringLoad h.dataLen] at hlen
  simp only [List.length_append, Lib.length_ringLoad] at hlen
  omega

theorem Kept.refill (h : s.Kept) (n : ℕ) : { s with chnRefill := n }.Kept := by
  obtain ⟨hc, hs, hu, ht, hh, hn⟩ := h
  exact ⟨⟨hc.num, hc.le, hc.nodup, hc.order, hc.places, hc.accounts, hc.wrong⟩, hs, hu, ht, hh, hn⟩

/-- A call that finds all it asks for, or nothing. -/
theorem Kept.allocSkb (h : s.Kept) {k : ℕ} (hk : 0 < k) (hle : s.availSkb.length + 32 * k ≤ 768)
    (hfresh : s.Fresh env)
    (henv : env.skbs = [] ∨ 32 * k ≤ env.skbs.length ∧ env.submitted = true) :
    (s.allocSkb ((32 * k : ℕ) : ℤ) env).Kept := by
  have hchn : { s.chn with txNodeCount := 0 } = s.chn := by
    rw [← h.txNodeCount]
  unfold Supply.allocSkb
  dsimp only
  rw [Int.toNat_natCast, hchn]
  rcases henv with hnil | ⟨hlen, hsub⟩
  · rw [hnil, if_pos (by rw [List.length_nil]; omega)]
    simp only [List.take_nil, List.foldl_nil, List.append_nil]
    exact h
  · have hgot : (env.skbs.take (32 * k)).length = 32 * k := by
      rw [List.length_take, min_eq_left hlen]
    have hnodup : (env.skbs.take (32 * k)).Nodup := hfresh.1.sublist (List.take_sublist _ _)
    have hdisj : ∀ a ∈ env.skbs.take (32 * k), a ∉ s.availSkb := fun a ha =>
      hfresh.2 a (List.mem_of_mem_take ha)
    have hpend := h.pending_le
    generalize env.skbs.take (32 * k) = xs at hgot hnodup hdisj
    obtain ⟨hs, hc, hl⟩ := SupplyChn.foldl_setData_spec h.sound xs
    have hpos : s.chn.pos = (s.head * 32 + s.pending * 32) % 768 := by
      unfold SupplyChn.pos RX_FREE_BUF_ADDR_CNT
      rw [h.used, h.currentNode]
      omega
    obtain ⟨hp, hl⟩ := hl (s.head * 32) (s.pending * 32) hpos (by omega)
    rw [h.used, h.txNodeCount, hgot] at hc
    have hused := hs.used
    have hu : (xs.foldl SupplyChn.setData s.chn).used = 0 := by omega
    have ht : (xs.foldl SupplyChn.setData s.chn).txNodeCount = k := by omega
    have hcur : (xs.foldl SupplyChn.setData s.chn).currentNode =
        (s.head + (s.pending + k)) % 24 := by
      unfold SupplyChn.pos RX_FREE_BUF_ADDR_CNT at hp
      rw [hu, hgot] at hp
      have := hs.currentNode
      omega
    rw [if_neg (by omega), if_pos hsub]
    dsimp only
    rw [ht]
    generalize xs.foldl SupplyChn.setData s.chn = c at hs hl hu hcur
    have hc : { c with txNodeCount := 0 }.Sound := ⟨hs.currentNode, hs.used, hs.dataLen⟩
    have hmul : (s.pending + k) * 32 = s.pending * 32 + xs.length := by omega
    have hnew : c.ahead s.head (s.pending + k) = s.unread ++ xs := by
      rw [SupplyChn.ahead_eq_ringLoad fun i => hs.dataLen i (Or.inr hu), hmul]
      exact hl.trans (congrArg (· ++ xs) (SupplyChn.ahead_eq_ringLoad h.dataLen ..).symm)
    refine ⟨⟨?_, ?_, ?_, ?_, ?_, ?_, h.clean.wrong⟩, hc, hu, rfl, h.head, hcur⟩
    · rw [h.clean.num, List.length_append, hgot]
      push_cast
      rfl
    · rw [List.length_append]
      omega
    · exact h.clean.nodup.append hnodup fun a ha hx => hdisj a hx ha
    · have horder : s.posted ++ xs = s.read ++ (s.unread ++ xs) := by
        rw [h.clean.order, List.append_assoc]
      exact horder.trans (congrArg (s.read ++ ·) hnew.symm)
    · have hplaces : (s.availSkb ++ xs).Perm (s.unread ++ xs ++ s.held ++ s.returned) := by
        have hcomm : (s.held ++ s.returned ++ xs).Perm (xs ++ (s.held ++ s.returned)) :=
          List.perm_append_comm
        refine (h.clean.places.append_right xs).trans ?_
        simpa only [List.append_assoc] using hcomm.append_left s.unread
      exact hplaces.trans (.of_eq (congrArg (· ++ s.held ++ s.returned) hnew.symm))
    · refine (h.clean.accounts.append_right xs).trans ?_
      rw [List.append_assoc, List.append_assoc]
      exact List.Perm.append_left _ List.perm_append_comm

/-- A buffer that is on its way back is found. -/
theorem Kept.rxData {node : List RxDone} {rest : List (List RxDone)}
    (h : { s with inbox := (r :: node) :: rest }.Kept) :
    { s.rxData r with inbox := node :: rest }.Kept := by
  obtain ⟨hc, hs, hu, ht, hh, hn⟩ := h
  have hplaces := hc.places
  have hmem : r.addr ∈ s.availSkb := hplaces.mem_iff.mpr (by simp [returned])
  have hlen := List.length_erase_of_mem hmem
  have hpos := List.length_pos_of_mem hmem
  have hle := hc.le
  have hnum := hc.num
  have haccounts := hc.accounts
  dsimp only at hle hnum haccounts
  unfold Supply.rxData
  rw [if_pos hmem]
  refine ⟨⟨?_, ?_, ?_, hc.order, ?_, ?_, hc.wrong⟩, hs, hu, ht, hh, hn⟩
  · dsimp only
    omega
  · dsimp only
    omega
  · exact hc.nodup.erase _
  · have hfront : s.availSkb.Perm (r.addr :: (s.unread ++ s.held ++
        (node :: rest).flatten.map RxDone.addr)) := hplaces.trans List.perm_middle
    exact (hfront.erase r.addr).trans (.of_eq (List.erase_cons_head ..))
  · dsimp only
    rw [List.map_append, List.map_singleton]
    refine haccounts.trans ?_
    refine ((List.perm_cons_erase hmem).append_right _).trans ?_
    rw [List.cons_append, ← List.append_assoc]
    exact (List.perm_append_singleton ..).symm

theorem Kept.foldl_rxData {node : List RxDone} {rest : List (List RxDone)}
    (h : { s with inbox := node :: rest }.Kept) :
    (node.foldl Supply.rxData { s with inbox := rest }).Kept := by
  induction node generalizing s with
  | nil =>
    obtain ⟨hc, hs, hu, ht, hh, hn⟩ := h
    exact ⟨⟨hc.num, hc.le, hc.nodup, hc.order, hc.places, hc.accounts, hc.wrong⟩, hs, hu, ht,
      hh, hn⟩
  | cons r node ih =>
    have hnext : ({ s with inbox := rest } : Supply).rxData r =
        { s.rxData r with inbox := rest } := by
      unfold Supply.rxData
      split_ifs <;> rfl
    rw [List.foldl_cons, hnext]
    exact ih h.rxData

theorem Kept.received (h : s.Kept) (hin : s.inbox ≠ []) : s.received.Kept := by
  unfold Supply.received
  cases hi : s.inbox with
  | nil => exact absurd hi hin
  | cons node rest =>
    have hs : { s with inbox := node :: rest } = s := by rw [← hi]
    exact Kept.foldl_rxData (hs ▸ h)

/-- `round_down` to a multiple of 32. -/
theorem toNat_sub_umod (x : BitVec 32) : (x - x % 32).toNat = x.toNat - x.toNat % 32 := by
  have hmod : (x % 32).toNat = x.toNat % 32 := BitVec.toNat_umod
  have hle : x % 32 ≤ x := by
    rw [BitVec.le_def, hmod]
    exact Nat.mod_le ..
  rw [BitVec.toNat_sub_of_le hle, hmod]

/-- What is missing in whole nodes. -/
theorem refillNum_of_kept (h : s.Kept) :
    s.refillNum = 0 ∨
      ∃ k : ℕ, 0 < k ∧ s.availSkb.length + 32 * k ≤ 768 ∧ s.refillNum = ((32 * k : ℕ) : ℤ) := by
  have hle := h.clean.le
  have hleft : (supplyLeft s.availSkbNum).toNat = 768 - s.availSkb.length := by
    unfold supplyLeft
    rw [h.clean.num]
    bv_omega
  unfold refillNum
  dsimp only
  split_ifs with hc
  · right
    refine ⟨(768 - s.availSkb.length) / 32, ?_, by omega, ?_⟩
    · have := hc.1
      unfold RX_FREE_BUF_ADDR_CNT at this
      omega
    · have hround := toNat_sub_umod (supplyLeft s.availSkbNum)
      have hnum : (supplyLeft s.availSkbNum - supplyLeft s.availSkbNum % 32).toNat =
          32 * ((768 - s.availSkb.length) / 32) := by
        omega
      rw [BitVec.toInt_eq_toNat_of_lt (by omega), hnum]
  · exact Or.inl rfl

/-- A step without trouble finds all buffers that it asks for, or none. -/
theorem asked_fine (he : e = .up env ∨ e = .rx env) (hshort : ¬s.Short e) (hrefused : ¬s.Refused e)
    (hpos : 0 < s.asked e) :
    env.skbs = [] ∨ s.asked e ≤ env.skbs.length ∧ env.submitted = true := by
  by_cases hnil : env.skbs = []
  · exact Or.inl hnil
  · right
    have hle : s.asked e ≤ env.skbs.length := by
      by_contra hlt
      exact hshort ⟨env, he, hnil, not_le.mp hlt⟩
    refine ⟨hle, ?_⟩
    by_contra hsub
    exact hrefused ⟨env, he, hpos, hle, Bool.not_eq_true _ ▸ hsub⟩

theorem Kept.step (h : s.Kept) (hearly : ¬s.Early e) (hshort : ¬s.Short e) (hrefused : ¬s.Refused e)
    (ht : s.step e = some t) : t.Kept := by
  have hc := h.clean
  cases e with
  | up env =>
    unfold Supply.step at ht
    dsimp only at ht
    split_ifs at ht with hz hf
    · cases ht
      have hnil : s.availSkb = [] := by
        by_contra hne
        exact hearly ⟨⟨env, rfl⟩, hz, hne⟩
      have hasked : s.asked (.up env) = 768 := if_pos hz
      have henv := asked_fine (Or.inl rfl) hshort hrefused (by rw [hasked]; decide)
      have hlen : s.availSkb.length + 32 * 24 ≤ 768 := by rw [hnil, List.length_nil]
      rw [hasked] at henv
      have hall := h.allocSkb (k := 24) (by decide) hlen hf
        (henv.imp_right fun h => ⟨by omega, h.2⟩)
      exact hall.refill _
    · cases ht
      exact h.refill _
  | down =>
    cases ht
    exact h.refill _
  | read =>
    unfold Supply.step SKW_EDMA_RX_FREE_CHN_NODE_NUM at ht
    dsimp only at ht
    split_ifs at ht with hz
    cases ht
    have hnext := s.chn.ahead_of_pos (Nat.pos_of_ne_zero hz) h.head
    have hcur := h.currentNode
    have horder := hc.order
    have hplaces := hc.places
    unfold unread at horder hplaces
    refine ⟨⟨hc.num, hc.le, hc.nodup, ?_, ?_, hc.accounts, hc.wrong⟩, h.sound, h.used,
      h.txNodeCount, Nat.mod_lt _ (by decide), ?_⟩
    · unfold unread
      dsimp only
      rw [horder, hnext, List.append_assoc]
    · rw [hnext] at hplaces
      exact hplaces.trans (perm_append_rotate ..)
    · dsimp only
      omega
  | returns node =>
    unfold Supply.step at ht
    dsimp only at ht
    split_ifs at ht with hsub
    cases ht
    refine ⟨⟨hc.num, hc.le, hc.nodup, hc.order, ?_, hc.accounts, hc.wrong⟩, h.sound, h.used,
      h.txNodeCount, h.head, h.currentNode⟩
    have hback := List.subperm_append_diff_self_of_count_le fun a _ => hsub.count_le a
    have hreturned : (s.inbox ++ [node]).flatten.map RxDone.addr =
        s.returned ++ node.map RxDone.addr := by
      rw [List.flatten_append, List.map_append, List.flatten_singleton]
      rfl
    have hplaces := hc.places.trans ((hback.symm.append_left s.unread).append_right s.returned)
    refine (hplaces.trans (perm_append_swap ..)).trans (.of_eq ?_)
    exact congrArg (s.unread ++ s.held.diff (node.map RxDone.addr) ++ ·) hreturned.symm
  | rx env =>
    unfold Supply.step at ht
    dsimp only at ht
    split_ifs at ht with hin hf
    obtain rfl := Option.some.inj ht
    have hrec := h.received hin
    unfold refillSkb
    rcases refillNum_of_kept hrec with hz | ⟨k, hk, hle, hnum⟩
    · rw [if_pos hz]
      exact hrec
    · have hasked : s.asked (.rx env) = ((32 * k : ℕ) : ℤ) := hnum
      have henv := asked_fine (Or.inr rfl) hshort hrefused (by rw [hasked]; omega)
      rw [hasked] at henv
      rw [if_neg (by omega), hnum]
      exact hrec.allocSkb hk hle hf (henv.imp_right fun h => ⟨by omega, h.2⟩)

/-- What a start of the supply does to the list and the count. -/
theorem initDataChan_spec (s : Supply) (env : SupplyEnv) :
    (s.initDataChan env).availSkb = s.availSkb ++ env.skbs.take 768 ∧
      (s.initDataChan env).chnRefill = s.chnRefill + 1 ∧
      (env.skbs.length < 768 ∨ env.submitted = false →
        (s.initDataChan env).availSkbNum = s.availSkbNum) := by
  have hnum : ((RX_FREE_BUF_ADDR_CNT : ℤ) * SKW_EDMA_RX_FREE_CHN_NODE_NUM).toNat = 768 := rfl
  unfold Supply.initDataChan Supply.allocSkb
  dsimp only
  rw [hnum]
  by_cases hlen : env.skbs.length < 768
  · rw [if_pos hlen]
    exact ⟨rfl, rfl, fun _ => rfl⟩
  · rw [if_neg hlen]
    cases env.submitted with
    | true => exact ⟨rfl, rfl, fun h => absurd h (by simp [hlen])⟩
    | false => exact ⟨rfl, rfl, fun _ => rfl⟩

/-- The events that come without the trouble that is excluded. -/
def Allowed (early short refused : Prop) (s : Supply) (e : SupplyStep) : Prop :=
  (s.Early e → early) ∧ (s.Short e → short) ∧ (s.Refused e → refused)

variable {early short refused : Prop}

/-- A run goes on with a start of the supply. -/
theorem reach_up (env : SupplyEnv)
    (hs : Lib.Reach step (Allowed early short refused) init s) (hz : s.chnRefill = 0)
    (hfresh : s.Fresh env) (hearly : s.availSkb ≠ [] → early)
    (hshort : env.skbs ≠ [] → env.skbs.length < 768 → short)
    (hrefused : 768 ≤ env.skbs.length → env.submitted = false → refused) :
    Lib.Reach step (Allowed early short refused) init (s.initDataChan env) := by
  have hstep : s.step (.up env) = some (s.initDataChan env) := by
    unfold Supply.step
    dsimp only
    rw [if_pos hz, if_pos hfresh]
  have hasked : s.asked (.up env) = 768 := if_pos hz
  refine .next hs ⟨?_, ?_, ?_⟩ hstep
  · rintro ⟨_, _, hne⟩
    exact hearly hne
  · rintro ⟨env', he, hne, hlt⟩
    have he : env = env' := by simpa using he
    subst he
    rw [hasked] at hlt
    exact hshort hne (by omega)
  · rintro ⟨env', he, _, hle, hsub⟩
    have he : env = env' := by simpa using he
    subst he
    rw [hasked] at hle
    exact hrefused (by omega) hsub

/-- As many buffers as the ring has entries. -/
def ringOfSkbs (a : ℕ) : List PcieAddr := (List.range' a 768).map (BitVec.ofNat 40)

theorem length_ringOfSkbs (a : ℕ) : (ringOfSkbs a).length = 768 := by
  simp [ringOfSkbs]

theorem toNat_of_mem_ringOfSkbs {a : ℕ} {x : PcieAddr} (ha : a ≤ 768)
    (h : x ∈ ringOfSkbs a) :
    a ≤ x.toNat ∧ x.toNat < a + 768 := by
  obtain ⟨i, hi, rfl⟩ := List.mem_map.mp h
  have hi := List.mem_range'_1.mp hi
  rw [BitVec.toNat_ofNat]
  omega

theorem nodup_ringOfSkbs {a : ℕ} (_ : a ≤ 768) : (ringOfSkbs a).Nodup := by
  refine (List.nodup_range' ..).map_on ?_
  intro i hi j hj hij
  have hi := List.mem_range'_1.mp hi
  have hj := List.mem_range'_1.mp hj
  have hnat := congrArg BitVec.toNat hij
  rw [BitVec.toNat_ofNat, BitVec.toNat_ofNat] at hnat
  omega

theorem fresh_init (h : env.skbs.Nodup) : init.Fresh env := ⟨h, fun _ _ => List.not_mem_nil⟩

/-- Two interfaces that come up one after the other, with nothing back in between. -/
theorem exists_not_clean_of_early (h : early) :
    ∃ s, Lib.Reach step (Allowed early short refused) init s ∧ ¬s.Clean := by
  have hlen := length_ringOfSkbs
  have hup : Lib.Reach step (Allowed early short refused) init
      (init.initDataChan ⟨ringOfSkbs 0, true⟩) :=
    reach_up _ .init rfl (fresh_init (nodup_ringOfSkbs (Nat.zero_le _))) (fun _ => h)
      (fun _ hlt => absurd hlt (by simp [hlen])) (by simp)
  obtain ⟨havail, hrefill, -⟩ := initDataChan_spec init ⟨ringOfSkbs 0, true⟩
  generalize init.initDataChan ⟨ringOfSkbs 0, true⟩ = s at hup havail hrefill
  rw [List.take_of_length_le (hlen 0).le] at havail
  have hdown : Lib.Reach step (Allowed early short refused) init
      { s with chnRefill := s.chnRefill - 1 } := by
    refine .next (e := .down) hup ⟨fun _ => h, ?_, ?_⟩ rfl
    · rintro ⟨_, he, -⟩
      simp at he
    · rintro ⟨_, he, -⟩
      simp at he
  have hfresh : { s with chnRefill := s.chnRefill - 1 }.Fresh ⟨ringOfSkbs 768, true⟩ := by
    refine ⟨nodup_ringOfSkbs (le_refl _), ?_⟩
    intro x hx hx'
    have hge := (toNat_of_mem_ringOfSkbs (le_refl _) hx).1
    have hlt := (toNat_of_mem_ringOfSkbs (Nat.zero_le _) (havail ▸ hx')).2
    omega
  refine ⟨_, reach_up _ hdown (by rw [hrefill]; rfl) hfresh (fun _ => h)
    (fun _ hlt => absurd hlt (by simp [hlen])) (by simp), ?_⟩
  intro hclean
  have hle := hclean.le
  rw [(initDataChan_spec ..).1, List.take_of_length_le (hlen 768).le, List.length_append,
    hlen] at hle
  dsimp only at hle
  rw [havail] at hle
  have hzero := hlen 0
  rw [List.length_append, hzero] at hle
  omega

/-- The allocator finds one buffer. -/
theorem exists_not_clean_of_short (h : short) :
    ∃ s, Lib.Reach step (Allowed early short refused) init s ∧ ¬s.Clean := by
  refine ⟨_, reach_up ⟨[0], true⟩ .init rfl (fresh_init (List.nodup_singleton _))
    (absurd rfl) (fun _ _ => h) (by simp), ?_⟩
  intro hclean
  obtain ⟨havail, -, hnum⟩ := initDataChan_spec init ⟨[0], true⟩
  have heq := hclean.num
  rw [havail, hnum (Or.inl (by decide))] at heq
  cases heq

theorem exists_not_clean_of_refused (h : refused) :
    ∃ s, Lib.Reach step (Allowed early short refused) init s ∧ ¬s.Clean := by
  have hlen := length_ringOfSkbs 0
  refine ⟨_, reach_up ⟨ringOfSkbs 0, false⟩ .init rfl
    (fresh_init (nodup_ringOfSkbs (Nat.zero_le _))) (absurd rfl)
    (fun _ hlt => absurd hlt (by simp [hlen])) (fun _ _ => h), ?_⟩
  intro hclean
  obtain ⟨havail, -, hnum⟩ := initDataChan_spec init ⟨ringOfSkbs 0, false⟩
  have heq := hclean.num
  rw [havail, hnum (Or.inr rfl), List.take_of_length_le hlen.le] at heq
  simp [init] at heq
  omega

/-- In every run, whatever the interfaces, the firmware and the allocator do, the supply is clean,
exactly when it is never started while buffers are out, the allocator does not fail in the middle
of a call, and the nodes are always taken. -/
theorem clean_iff (early short refused : Prop) :
    (∀ s, Lib.Reach step (Allowed early short refused) init s → s.Clean) ↔
      ¬early ∧ ¬short ∧ ¬refused := by
  constructor
  · intro h
    have hnone : ¬∃ s, Lib.Reach step (Allowed early short refused) init s ∧ ¬s.Clean := by
      rintro ⟨s, hs, hn⟩
      exact hn (h s hs)
    exact ⟨mt exists_not_clean_of_early hnone, mt exists_not_clean_of_short hnone,
      mt exists_not_clean_of_refused hnone⟩
  · rintro ⟨hearly, hshort, hrefused⟩ s hs
    refine (hs.invariant (I := Kept) kept_init ?_).clean
    intro s e t hi hg ht
    exact hi.step (mt hg.1 hearly) (mt hg.2.1 hshort) (mt hg.2.2 hrefused) ht

end Supply
end Skw
