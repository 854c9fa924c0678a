import Skw.Tx.Credit
import Skw.Tx.Sched

/-! A pass of the tx worker over the SDIO ring of one lmac, while `skw_dy_worker` empties it: the
scheduling loop looks at the free descriptors before it takes a frame, and `skw_sdio_xmit` fills as
many of them as it took frames, without a look at what `skw_vring_set` returns. -/
namespace Skw
open TxVring

abbrev SKW_EXTER_HDR_SIZE : ℕ := 4

/-- `skw_hw_extra`. -/
structure HwExtra where
  hdrLen : BitVec 8
  chnOffset : BitVec 8
  lenOffset : BitVec 8
  eofOffset : BitVec 8

/-- What `skw_sdio_xmit` uses of `skw->hw` and the lmac. -/
structure XmitHw where
  align : ℕ
  extra : HwExtra
  lport : BitVec 8

def skwSetExtraHdr (ext : HwExtra) (chn : BitVec 8) (len : U16) (eof : Bool) : BitVec 32 :=
  chn.setWidth 32 <<< ext.chnOffset.toNat |||
    (len.setWidth 32 - ext.hdrLen.setWidth 32) <<< ext.lenOffset.toNat |||
      (BitVec.ofBool eof).setWidth 32 <<< ext.eofOffset.toNat

/-- The bytes of a word in memory. -/
def leBytes (w : BitVec 32) : List Byte := (List.range 4).map fun i => (w >>> (8 * i)).setWidth 8

/-- The loop body of `skw_sdio_xmit` up to the end of `skw_vring_set`. -/
def TxVring.xmitOne (x : XmitHw) (v : TxVring) (skb : TxqSkb) : ℤ × TxVring :=
  let len := skb.len + SKW_EXTER_HDR_SIZE
  let hdr := skwSetExtraHdr x.extra x.lport (BitVec.ofNat 16 (roundUp len x.align)) false
  v.vringSet x.align (len % 2 ^ 16) (leBytes hdr ++ skb.data)

/-- Where the tx worker stands with this lmac: in the scheduling loop, with the count of free
descriptors that the turn under way has read, or in `skw_sdio_xmit` with the frames left. -/
inductive TxPhase
  | idle
  | sched (base : CInt) (loop : TxSched) (available : Option ℕ)
  | xmit (todo : List TxqSkb)

/-- The ring with the worker that empties it, the tx worker, and what its calls of `skw_vring_set`
returned. -/
structure RoomSys where
  dy : CreditSys
  tx : TxPhase
  returns : List ℤ

inductive RoomStep
  | dy (e : CreditStep)
  | enter (l : TxLmac) (cache : IfaceId → List TxqSkb) (base : CInt)
  | look
  | turn (entry : ℕ → ℕ → Option TxEntry)
  | xmit
  | vringSet
  | leave

namespace RoomSys

def init (page : ℕ → Byte) : RoomSys := ⟨CreditSys.init page, .idle, []⟩

def setRing (s : RoomSys) (vr : TxVring) : RoomSys :=
  { s with dy := { s.dy with ring := { s.dy.ring with vr } } }

/-- The loop may be entered with any queues, quotas and credit. -/
def step (hw : TxHw) (x : XmitHw) (s : RoomSys) : RoomStep → Option RoomSys
  | .dy (.vringSet _ _) => none
  | .dy e => (s.dy.step x.align e).map fun dy => { s with dy }
  | .enter l cache base =>
    match s.tx with
    | .idle => some { s with tx := .sched base (TxSched.enter l cache) none }
    | _ => none
  | .look =>
    match s.tx with
    | .sched base t none =>
      if t.done then none
      else some { s with tx := .sched base t (some s.dy.ring.vr.vringAvailableCount) }
    | _ => none
  | .turn entry =>
    match s.tx with
    | .sched base t (some available) =>
      some { s with tx := .sched base (t.turn hw base ⟨available, entry⟩) none }
    | _ => none
  | .xmit =>
    match s.tx with
    | .sched _ t none => if t.done then some { s with tx := .xmit t.txList } else none
    | _ => none
  | .vringSet =>
    match s.tx with
    | .xmit (skb :: todo) =>
      let r := s.dy.ring.vr.xmitOne x skb
      some { s.setRing r.2 with tx := .xmit todo, returns := s.returns ++ [r.1] }
    | _ => none
  | .leave =>
    match s.tx with
    | .xmit [] => some { s with tx := .idle }
    | _ => none

end RoomSys

/-- The indices of a ring into which `avail` frames went, of which `used` are done with and `taken`
more are in the transfer under way. -/
structure FifoSys.Counts (s : FifoSys) (avail used taken : ℕ) : Prop where
  availIdx : s.vr.availIdx = BitVec.ofNat 16 avail
  usedIdx : s.vr.usedIdx = BitVec.ofNat 16 used
  le : used + taken ≤ avail
  room : avail < used + SKW_TX_VRING_SIZE
  writer : match s.writer with
    | .collected _ usedIdx | .submitted _ usedIdx _ => usedIdx = BitVec.ofNat 16 (used + taken)
    | _ => True

/-- The loop of `skw_sdio_write` does not go past the frames that are there, whatever the limit. -/
theorem TxVring.gather_counts {avail used taken : ℕ} (limit turns : ℕ) {g : Gather}
    (hg : g.usedIdx = BitVec.ofNat 16 (used + taken)) (hle : used + taken ≤ avail) :
    ∃ taken', used + taken' ≤ avail ∧
      (gather (BitVec.ofNat 16 avail) limit turns g).usedIdx = BitVec.ofNat 16 (used + taken') ∧
      (gather (BitVec.ofNat 16 avail) limit turns g).vr.availIdx = g.vr.availIdx ∧
      (gather (BitVec.ofNat 16 avail) limit turns g).vr.usedIdx = g.vr.usedIdx := by
  induction turns generalizing g taken with
  | zero => exact ⟨taken, hle, hg, rfl, rfl⟩
  | succ turns ih =>
    simp only [gather]
    split_ifs with hstop
    · exact ⟨taken, hle, hg, rfl, rfl⟩
    · have hne : used + taken ≠ avail := by
        intro he
        apply hstop
        left
        rw [hg, he]
      have hone : g.one.usedIdx = BitVec.ofNat 16 (used + (taken + 1)) := by
        rw [← Nat.add_assoc, BitVec.ofNat_add, ← hg]
        rfl
      exact ih hone (by omega)

namespace FifoSys
variable {s t : FifoSys} {avail used taken : ℕ}

theorem Counts.masked_eq (h : s.Counts avail used taken) :
    masked (s.vr.availIdx - s.vr.usedIdx) = avail - used := by
  have hle := h.le
  have hroom := h.room
  rw [h.availIdx, h.usedIdx, ofNat_sub_ofNat (by omega), masked_ofNat, Nat.mod_eq_of_lt (by omega)]

theorem init_counts (page : ℕ → Byte) : (init page).Counts 0 0 0 := by
  constructor <;> simp [init, txVringInit]

/-- The sections of `skw_sdio_write` take frames out of the ring and put none in. -/
theorem Counts.step (h : s.Counts avail used taken) {align : ℕ} {e : FifoStep}
    (he : ∀ len data, e ≠ .vringSet len data) (hs : s.ringStep align e = some t) :
    ∃ used' taken', used ≤ used' ∧ t.Counts avail used' taken' := by
  have hw := h.writer
  have hle := h.le
  have hroom := h.room
  cases e with
  | vringSet len data => exact absurd rfl (he len data)
  | sdioWrite limit =>
    simp only [ringStep] at hs
    split at hs
    · cases hs
      refine ⟨used, taken, le_rfl, h.availIdx, h.usedIdx, hle, hroom, ?_⟩
      split_ifs <;> trivial
    · cases hs
  | collect =>
    simp only [ringStep] at hs
    split at hs
    · next limit _ =>
      cases hs
      have hu : s.vr.usedIdx = BitVec.ofNat 16 (used + 0) := h.usedIdx
      have hle : used + 0 ≤ avail := by omega
      obtain ⟨n, hn, hidx, hav, hus⟩ := gather_counts limit SKW_TX_VRING_SIZE
        (g := ⟨s.vr, s.vr.usedIdx, []⟩) hu hle
      rw [← h.availIdx] at hidx hav hus
      exact ⟨used, n, le_rfl, hav.trans h.availIdx, hus.trans h.usedIdx, hn, hroom, hidx⟩
    · cases hs
  | hwAdmaTx ret =>
    simp only [ringStep] at hs
    split at hs
    · next sgl usedIdx hpc =>
      cases hs
      rw [hpc] at hw
      exact ⟨used, taken, le_rfl, h.availIdx, h.usedIdx, hle, hroom, hw⟩
    · cases hs
  | publish =>
    simp only [ringStep] at hs
    split at hs
    · next sgl usedIdx ret hpc =>
      cases hs
      rw [hpc] at hw
      exact ⟨used + taken, 0, Nat.le_add_right _ _, h.availIdx, hw, hle, by omega, trivial⟩
    · cases hs

end FifoSys

/-- The worker that empties the ring touches it by the sections of `skw_sdio_write` only. -/
theorem CreditSys.ring_of_step {align : ℕ} {s t : CreditSys} {e : CreditStep}
    (he : ∀ len data, e ≠ .vringSet len data) (hs : s.step align e = some t) :
    t.ring = s.ring ∨
      ∃ e', (∀ len data, e' ≠ .vringSet len data) ∧ s.ring.ringStep align e' = some t.ring := by
  cases e with
  | vringSet len data => exact absurd rfl (he len data)
  | addCredit cred =>
    cases hs
    exact .inl rfl
  | teardown =>
    cases hs
    exact .inl rfl
  | getCredit | pendingCount | subCredit =>
    simp only [CreditSys.step] at hs
    split at hs <;> cases hs
    exact .inl rfl
  | enter =>
    simp only [CreditSys.step] at hs
    split at hs
    · obtain ⟨r, hr, ht⟩ := Option.map_eq_some_iff.mp hs
      have hring : t.ring = r := by
        rw [← ht]
        split <;> rfl
      exact .inr ⟨_, by simp, hring ▸ hr⟩
    · cases hs
  | collect | hwAdmaTx ret | publish =>
    simp only [CreditSys.step] at hs
    split at hs
    · obtain ⟨r, hr, rfl⟩ := Option.map_eq_some_iff.mp hs
      exact .inr ⟨_, by simp, hr⟩
    · cases hs

namespace RoomSys
variable {hw : TxHw} {x : XmitHw} {s t : RoomSys}

/-- The frames that are to go into the ring fit beside the `pending` ones, and what was read of
the free descriptors is not more than there are. -/
def Fit (pending : ℕ) : TxPhase → Prop
  | .idle => True
  | .sched _ t available =>
    t.txList.length + pending < SKW_TX_VRING_SIZE ∧
      ∀ n ∈ available, n + pending ≤ SKW_TX_VRING_SIZE
  | .xmit todo => todo.length + pending < SKW_TX_VRING_SIZE

structure Inv (s : RoomSys) : Prop where
  returns : ∀ r ∈ s.returns, r = 0
  counts : ∃ avail used taken, s.dy.ring.Counts avail used taken ∧ Fit (avail - used) s.tx

theorem Fit.mono {m n : ℕ} {tx : TxPhase} (h : Fit m tx) (hle : n ≤ m) : Fit n tx := by
  cases tx with
  | idle => trivial
  | sched base t available =>
    obtain ⟨hlist, hread⟩ := h
    refine ⟨by omega, fun k hk => ?_⟩
    have := hread k hk
    omega
  | xmit todo =>
    have hlist : todo.length + m < SKW_TX_VRING_SIZE := h
    show todo.length + n < SKW_TX_VRING_SIZE
    omega

/-- A turn takes a frame only where it has read of room for it. -/
theorem length_turn (hbus : hw.bus = .sdio ∨ hw.bus = .sdio2) (base : CInt) (t : TxSched)
    (v : TxView) : (t.turn hw base v).txList.length ≤ t.txList.length ∨
      (t.turn hw base v).txList.length = t.txList.length + 1 ∧ t.txList.length + 1 < v.available := by
  cases hd : t.done with
  | true =>
    rw [TxSched.turn_of_done hd]
    exact .inl le_rfl
  | false =>
    have hturn := TxSched.turned hw base v hd
    generalize TxSched.turn hw base t v = u at hturn ⊢
    cases hturn with
    | send skb rest _ _ _ hfull _ _ _ =>
      right
      rw [skwVringCheck, decide_eq_false_iff_not] at hfull
      have hroom : ¬v.available ≤ t.txList.length + 1 := fun h => hfull ⟨hbus, h⟩
      simp only [List.length_append, List.length_singleton, true_and]
      omega
    | skip _ => exact .inl le_rfl
    | leave _ => exact .inl le_rfl
    | empty _ _ => exact .inl le_rfl
    | drop skb rest _ _ _ => exact .inl le_rfl
    | limit _ _ => exact .inl le_rfl
    | spent _ _ _ => exact .inl le_rfl

theorem Inv.xmitOne (h : s.Inv) {skb : TxqSkb} {todo : List TxqSkb}
    (htx : s.tx = .xmit (skb :: todo)) :
    Inv { s.setRing (s.dy.ring.vr.xmitOne x skb).2 with
      tx := .xmit todo, returns := s.returns ++ [(s.dy.ring.vr.xmitOne x skb).1] } := by
  obtain ⟨avail, used, taken, hc, hfit⟩ := h.counts
  rw [htx] at hfit
  have hfit : (skb :: todo).length + (avail - used) < SKW_TX_VRING_SIZE := hfit
  rw [List.length_cons] at hfit
  have hle := hc.le
  have hfree : s.dy.ring.vr.txVringIsFull = false := by
    rw [txVringIsFull, hc.masked_eq, decide_eq_false_iff_not]
    omega
  constructor
  · intro r hr
    rcases List.mem_append.mp hr with hr | hr
    · exact h.returns r hr
    · rw [List.mem_singleton.mp hr]
      exact vringSet_eq_zero.mpr hfree
  · refine ⟨avail + 1, used, taken, ⟨?_, ?_, by omega, by omega, hc.writer⟩, ?_⟩
    · show (s.dy.ring.vr.xmitOne x skb).2.availIdx = _
      simp only [TxVring.xmitOne, vringSet, hfree, Bool.false_eq_true, if_false]
      rw [hc.availIdx, BitVec.ofNat_add]
      rfl
    · show (s.dy.ring.vr.xmitOne x skb).2.usedIdx = _
      simp only [TxVring.xmitOne, vringSet, hfree, Bool.false_eq_true, if_false]
      exact hc.usedIdx
    · show todo.length + (avail + 1 - used) < SKW_TX_VRING_SIZE
      omega

theorem Inv.step (hbus : hw.bus = .sdio ∨ hw.bus = .sdio2) (h : s.Inv) {e : RoomStep}
    (hs : s.step hw x e = some t) : t.Inv := by
  obtain ⟨avail, used, taken, hc, hfit⟩ := h.counts
  cases e with
  | dy e =>
    have he : ∀ len data, e ≠ .vringSet len data := by
      rintro len data rfl
      cases hs
    have hs : (s.dy.step x.align e).map (fun dy => { s with dy }) = some t := by
      cases e <;> first | exact absurd rfl (he _ _) | exact hs
    obtain ⟨dy, hdy, rfl⟩ := Option.map_eq_some_iff.mp hs
    refine ⟨h.returns, ?_⟩
    rcases CreditSys.ring_of_step he hdy with hring | ⟨e', he', hring⟩
    · exact ⟨avail, used, taken, hring ▸ hc, hfit⟩
    · obtain ⟨used', taken', hle, hc'⟩ := hc.step he' hring
      exact ⟨avail, used', taken', hc', hfit.mono (by omega)⟩
  | enter l cache base =>
    simp only [RoomSys.step] at hs
    split at hs <;> cases hs
    have hroom := hc.room
    have hempty : (0 : ℕ) + (avail - used) < SKW_TX_VRING_SIZE := by
      have := hc.le
      omega
    exact ⟨h.returns, avail, used, taken, hc, hempty, fun n hn => absurd hn (by simp)⟩
  | look =>
    simp only [RoomSys.step] at hs
    split at hs
    · next base loop htx =>
      split_ifs at hs
      cases hs
      rw [htx] at hfit
      refine ⟨h.returns, avail, used, taken, hc, hfit.1, fun n hn => ?_⟩
      rw [← Option.mem_some_iff.mp hn, vringAvailableCount, hc.masked_eq]
      have := hc.room
      have := hc.le
      omega
    · cases hs
  | turn entry =>
    simp only [RoomSys.step] at hs
    split at hs
    · next base loop available htx =>
      cases hs
      rw [htx] at hfit
      obtain ⟨hlist, hread⟩ := hfit
      have hread := hread available rfl
      refine ⟨h.returns, avail, used, taken, hc, ?_, fun n hn => absurd hn (by simp)⟩
      rcases length_turn hbus base loop ⟨available, entry⟩ with hlen | ⟨hlen, hroom⟩
      · exact lt_of_le_of_lt (Nat.add_le_add_right hlen _) hlist
      · simp only at hroom
        omega
    · cases hs
  | xmit =>
    simp only [RoomSys.step] at hs
    split at hs
    · next base loop htx =>
      split_ifs at hs
      cases hs
      rw [htx] at hfit
      exact ⟨h.returns, avail, used, taken, hc, hfit.1⟩
    · cases hs
  | vringSet =>
    simp only [RoomSys.step] at hs
    split at hs
    · next skb todo htx =>
      cases hs
      exact h.xmitOne htx
    · cases hs
  | leave =>
    simp only [RoomSys.step] at hs
    split at hs <;> cases hs
    exact ⟨h.returns, avail, used, taken, hc, trivial⟩

/-- Whatever the order of the steps of the two workers, no frame that the scheduling loop took is
refused by the ring. -/
theorem returns_eq_zero (hw : TxHw) (x : XmitHw) (page : ℕ → Byte)
    (hbus : hw.bus = .sdio ∨ hw.bus = .sdio2) (s : RoomSys)
    (h : Lib.Reach (step hw x) Lib.Free (init page) s) : ∀ r ∈ s.returns, r = 0 := by
  have hi : (init page).Inv :=
    ⟨fun r hr => absurd hr (List.not_mem_nil), 0, 0, 0, FifoSys.init_counts page, trivial⟩
  exact (h.invariant hi fun s e t hs _ ht => hs.step hbus ht).returns

/-- Two frames on two credits, the first of which is sent before the second is in the ring. -/
def passOfTwo : List RoomStep :=
  [.enter (TxSched.oneQueue 2) TxSched.threeFrames 16, .look, .turn fun _ _ => none, .look,
    .turn fun _ _ => none, .look, .turn fun _ _ => none, .xmit, .vringSet, .dy (.addCredit 2),
    .dy .getCredit, .dy .pendingCount, .dy .enter, .dy .collect, .vringSet, .dy (.hwAdmaTx 0),
    .dy .publish, .leave]

theorem returns_eq_zero_passOfTwo :
    ∃ s, Lib.Reach (step ⟨.sdio, 1⟩ ⟨4, ⟨4, 0, 8, 7⟩, 0⟩) Lib.Free (init fun _ => 0) s ∧
      s.returns.length = 2 ∧ ∀ r ∈ s.returns, r = 0 := by
  obtain ⟨s, hs, hp⟩ := Lib.exists_reach_of_exec (step ⟨.sdio, 1⟩ ⟨4, ⟨4, 0, 8, 7⟩, 0⟩) Lib.Free
    (init fun _ => 0) passOfTwo (fun s => s.returns.length == 2) (by decide +kernel)
  exact ⟨s, hs, beq_iff_eq.mp hp, returns_eq_zero _ _ _ (.inl rfl) s hs⟩

end RoomSys
end Skw
