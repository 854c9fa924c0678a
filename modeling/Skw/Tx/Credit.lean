import Skw.Tx.Fifo

/-! Transmit credit of one SDIO lmac: the firmware grants it, `skw_dy_worker` reads it, sends up
to that many frames and subtracts them afterwards, `skw_iface_teardown` sets it to zero. -/
namespace Skw
open TxVring

abbrev SKW_NR_SGL_DAT : ℕ := 256

/-- `skw->hw.pkt_limit` as derived from the bus buffer. -/
def pktLimitOf (maxBufferSize : ℕ) : ℕ :=
  let p := maxBufferSize / SKW_TX_PACK_SIZE
  if SKW_NR_SGL_DAT ≤ p then SKW_NR_SGL_DAT - 1 else p

/-- The value for the `max_buffer_size` of the SDIO platform data. -/
abbrev pktLimit : ℕ := pktLimitOf (84 * 1536)

/-- A turn of the loop of `skw_dy_worker`: the credit is read, then the pending count; the limit
goes to `skw_sdio_write` and is subtracted when that returns 0. -/
inductive DyPc
  | top
  | credit (credit : ℤ)
  | call (pending limit : ℤ)
  | writing (pending limit : ℤ)
  | sub (limit : ℤ)
deriving DecidableEq

/-- Since the last reset `granted` counts the credit the firmware gave, `handed` the frames given
to the hardware and `refused` those of them in transfers that failed. -/
structure CreditSys where
  ring : FifoSys
  fwCredit : BitVec 32
  pc : DyPc
  granted : ℕ
  handed : ℕ
  refused : ℕ

inductive CreditStep
  | addCredit (cred : U16)
  | teardown
  | vringSet (len : ℕ) (data : List Byte)
  | getCredit
  | pendingCount
  | enter
  | collect
  | hwAdmaTx (ret : ℤ)
  | publish
  | subCredit
deriving DecidableEq

namespace CreditSys

def init (page : ℕ → Byte) : CreditSys := ⟨FifoSys.init page, 0, .top, 0, 0, 0⟩

/-- The limit as the `u16` parameter of `skw_sdio_write` receives it. -/
def passed (limit : ℤ) : ℕ := (BitVec.ofInt 16 limit).toNat

def step (align : ℕ) (s : CreditSys) : CreditStep → Option CreditSys
  | .addCredit cred =>
    some { s with
      fwCredit := s.fwCredit + BitVec.ofNat 32 cred.toNat, granted := s.granted + cred.toNat }
  | .teardown => some { s with fwCredit := 0, granted := 0, handed := 0, refused := 0 }
  | .vringSet len data =>
    (s.ring.ringStep align (.vringSet len data)).map fun r => { s with ring := r }
  | .getCredit =>
    match s.pc with
    | .top =>
      let credit := s.fwCredit.toInt
      some { s with pc := if credit = 0 then .top else .credit credit }
    | _ => none
  | .pendingCount =>
    match s.pc with
    | .credit credit =>
      let pending : ℤ := s.ring.vr.vringPendingCount
      some { s with
        pc := if pending = 0 then .top else .call pending (min (min pending credit) pktLimit) }
    | _ => none
  | .enter =>
    match s.pc with
    | .call pending limit =>
      (s.ring.ringStep align (.sdioWrite (passed limit))).map fun r =>
        match r.writer with
        | .idle => { s with ring := r, pc := .top }
        | _ => { s with ring := r, pc := .writing pending limit }
    | _ => none
  | .collect =>
    match s.pc with
    | .writing _ _ => (s.ring.ringStep align .collect).map fun r => { s with ring := r }
    | _ => none
  | .hwAdmaTx ret =>
    match s.pc with
    | .writing _ _ =>
      (s.ring.ringStep align (.hwAdmaTx ret)).map fun r => { s with
        ring := r
        handed := s.handed + s.ring.writer.sgl.length
        refused := if ret = 0 then s.refused else s.refused + s.ring.writer.sgl.length }
    | _ => none
  | .publish =>
    match s.pc, s.ring.writer with
    | .writing _ limit, .submitted _ _ ret =>
      (s.ring.ringStep align .publish).map fun r => { s with
        ring := r
        pc := if ret = 0 then .sub limit else .top }
    | _, _ => none
  | .subCredit =>
    match s.pc with
    | .sub limit => some { s with fwCredit := s.fwCredit - BitVec.ofInt 32 limit, pc := .top }
    | _ => none

def NonNegative (s : CreditSys) : Prop := 0 ≤ s.fwCredit.toInt

/-- The limit that `skw_sdio_write` is called with is positive and at most what was pending and
what the bus takes at once. -/
def LimitInRange (s : CreditSys) : Prop :=
  ∀ pending limit, s.pc = .call pending limit ∨ s.pc = .writing pending limit →
    1 ≤ passed limit ∧ (passed limit : ℤ) ≤ min pending pktLimit

/-- Apart from the frames of failed transfers, no more were given to the hardware than granted. -/
def Conserved (s : CreditSys) : Prop := s.handed ≤ s.granted + s.refused

/-- The credit is reset while the worker holds no value of it, and no grant passes the range of
the counter. -/
def Orderly (s : CreditSys) : CreditStep → Prop
  | .teardown => s.pc = .top
  | .addCredit cred => s.fwCredit.toInt + cred.toNat < 2 ^ 31
  | _ => True

instance (s : CreditSys) (e : CreditStep) : Decidable (s.Orderly e) := by
  cases e <;> unfold Orderly <;> infer_instance

theorem toInt_add {a : BitVec 32} {n : ℕ} (ha : 0 ≤ a.toInt) (hn : a.toInt + n < 2 ^ 31) :
    (a + BitVec.ofNat 32 n).toInt = a.toInt + n := by
  simp only [BitVec.toInt_eq_toNat_cond] at ha hn ⊢
  split_ifs at ha hn ⊢ <;> bv_omega

theorem toInt_sub {a : BitVec 32} {l : ℤ} (hl : 0 ≤ l) (hla : l ≤ a.toInt) :
    (a - BitVec.ofInt 32 l).toInt = a.toInt - l := by
  obtain ⟨n, rfl⟩ := Int.eq_ofNat_of_zero_le hl
  rw [BitVec.ofInt_natCast]
  simp only [BitVec.toInt_eq_toNat_cond] at hla ⊢
  split_ifs at hla ⊢ <;> bv_omega

theorem passed_of_le {l : ℤ} (hl : 0 ≤ l) (hle : l ≤ pktLimit) : (passed l : ℤ) = l := by
  obtain ⟨n, rfl⟩ := Int.eq_ofNat_of_zero_le hl
  have hp : pktLimit = 84 := rfl
  have hn : n % 2 ^ 16 = n := Nat.mod_eq_of_lt (by omega)
  rw [passed, BitVec.ofInt_natCast, BitVec.toNat_ofNat, hn]

/-- The counters that the worker's promises are about. -/
structure Books where
  credit : ℤ
  granted : ℕ
  handed : ℕ
  refused : ℕ

def books (s : CreditSys) : Books := ⟨s.fwCredit.toInt, s.granted, s.handed, s.refused⟩

/-- The frames handed over and the credit left are covered by the grants, up to `due`. -/
def Books.Balance (b : Books) (due : ℤ) : Prop :=
  b.handed + b.credit ≤ b.granted + b.refused + due

/-- A limit that the worker took from the credit. -/
structure Books.Covers (b : Books) (pending limit : ℤ) : Prop where
  pos : 1 ≤ limit
  pending : limit ≤ pending
  pkt : limit ≤ pktLimit
  credit : limit ≤ b.credit

/-- What the worker relies on at each of its steps, with the transfer it is in. -/
def Books.At (b : Books) : DyPc → SdioWrite → Prop
  | .top, .idle => b.Balance 0
  | .credit k, .idle => 1 ≤ k ∧ k ≤ b.credit ∧ b.Balance 0
  | .call p l, .idle => b.Covers p l ∧ b.Balance 0
  | .writing p l, .pending n => b.Covers p l ∧ (n : ℤ) ≤ l ∧ b.Balance 0
  | .writing p l, .collected sgl _ => b.Covers p l ∧ (sgl.length : ℤ) ≤ l ∧ b.Balance 0
  | .writing p l, .submitted _ _ ret => b.Covers p l ∧ b.Balance (if ret = 0 then l else 0)
  | .sub l, .idle => b.Covers l l ∧ b.Balance l
  | _, _ => False

structure Inv (s : CreditSys) : Prop where
  nonneg : 0 ≤ s.books.credit
  worker : s.books.At s.pc s.ring.writer

private theorem init_inv (page : ℕ → Byte) : (init page).Inv where
  nonneg := le_rfl
  worker := le_rfl

/-- Grants take nothing from what the worker relies on. -/
theorem Books.At.mono {b b' : Books} (hc : b.credit ≤ b'.credit)
    (hb : ∀ due, b.Balance due → b'.Balance due) {pc : DyPc} {w : SdioWrite} (h : b.At pc w) :
    b'.At pc w := by
  have hcov : ∀ p l, b.Covers p l → b'.Covers p l := fun p l hl =>
    ⟨hl.pos, hl.pending, hl.pkt, hl.credit.trans hc⟩
  cases pc <;> cases w <;> simp only [At] at h ⊢
  case top.idle => exact hb _ h
  case credit.idle => exact ⟨h.1, h.2.1.trans hc, hb _ h.2.2⟩
  case call.idle | sub.idle | writing.submitted => exact ⟨hcov _ _ h.1, hb _ h.2⟩
  case writing.pending | writing.collected => exact ⟨hcov _ _ h.1, h.2.1, hb _ h.2.2⟩

/-- Between transfers the worker holds no scatter list. -/
theorem Books.At.writer_idle {b : Books} {pc : DyPc} {w : SdioWrite} (h : b.At pc w)
    (hpc : ∀ p l, pc ≠ .writing p l) : w = .idle := by
  cases pc <;> cases w <;> simp_all [At]

private theorem Inv.between {s : CreditSys} (h : s.Inv) {pc : DyPc} (hpc : s.pc = pc)
    (hnw : ∀ p l, pc ≠ .writing p l) : s.ring.writer = .idle ∧ s.books.At pc .idle := by
  have hat := h.worker
  rw [hpc] at hat
  have hw := hat.writer_idle hnw
  exact ⟨hw, hw ▸ hat⟩

private theorem Inv.addCredit {s : CreditSys} (h : s.Inv) {cred : U16}
    (hg : s.fwCredit.toInt + cred.toNat < 2 ^ 31) :
    Inv { s with
      fwCredit := s.fwCredit + BitVec.ofNat 32 cred.toNat, granted := s.granted + cred.toNat } := by
  have hnn := h.nonneg
  have hadd := toInt_add hnn hg
  have hle : s.fwCredit.toInt ≤ (s.fwCredit + BitVec.ofNat 32 cred.toNat).toInt := by omega
  refine ⟨le_trans hnn hle, h.worker.mono hle fun due hb => ?_⟩
  simp only [books, Books.Balance, hadd] at hb ⊢
  push_cast
  omega

private theorem Inv.subCredit {s : CreditSys} (h : s.Inv) {l : ℤ} (hpc : s.pc = .sub l) :
    Inv { s with fwCredit := s.fwCredit - BitVec.ofInt 32 l, pc := .top } := by
  obtain ⟨hw, hcov, hb⟩ := h.between hpc (by simp)
  have hpos := hcov.pos
  have hcr := hcov.credit
  have hsub := toInt_sub (by omega) hcr
  constructor
  · show 0 ≤ (s.fwCredit - BitVec.ofInt 32 l).toInt
    simp only [books] at hcr
    omega
  · simp only [hw]
    simp only [books, Books.At, Books.Balance, hsub] at hb ⊢
    omega

theorem Inv.step {align : ℕ} {s t : CreditSys} (h : s.Inv) {e : CreditStep} (hg : s.Orderly e)
    (hs : step align s e = some t) : t.Inv := by
  have hat := h.worker
  have hnn := h.nonneg
  cases e with
  | addCredit cred =>
    cases hs
    exact h.addCredit hg
  | teardown =>
    cases hs
    have hpc : s.pc = .top := hg
    obtain ⟨hw, -⟩ := h.between hpc (by simp)
    refine ⟨le_rfl, ?_⟩
    simp only [hpc, hw]
    exact le_rfl
  | vringSet len data =>
    obtain ⟨r, hr, rfl⟩ := Option.map_eq_some_iff.mp hs
    simp only [FifoSys.ringStep] at hr
    split_ifs at hr <;> cases hr <;> exact ⟨hnn, hat⟩
  | getCredit =>
    simp only [CreditSys.step] at hs
    split at hs
    · next hpc =>
      cases hs
      obtain ⟨hw, hat⟩ := h.between hpc (by simp)
      refine ⟨hnn, ?_⟩
      simp only [hw]
      split_ifs with hz
      · exact hat
      · refine ⟨?_, le_rfl, hat⟩
        simp only [books] at hnn
        omega
    · cases hs
  | pendingCount =>
    simp only [CreditSys.step] at hs
    split at hs
    · next k hpc =>
      cases hs
      obtain ⟨hw, hk, hkc, hb⟩ := h.between hpc (by simp)
      refine ⟨hnn, ?_⟩
      simp only [hw]
      have hp : (pktLimit : ℤ) = 84 := rfl
      split_ifs with hz
      · exact hb
      · refine ⟨⟨?_, ?_, ?_, le_trans ?_ hkc⟩, hb⟩ <;> omega
    · cases hs
  | enter =>
    simp only [CreditSys.step] at hs
    split at hs
    · next p l hpc =>
      obtain ⟨hw, hcov, hb⟩ := h.between hpc (by simp)
      simp only [FifoSys.ringStep, hw, Option.map_some] at hs
      cases hpe : s.ring.vr.vringHasPending <;> rw [hpe] at hs <;> cases hs
      · exact ⟨hnn, hb⟩
      · refine ⟨hnn, hcov, ?_, hb⟩
        rw [passed_of_le (by have := hcov.pos; omega) hcov.pkt]
    · cases hs
  | collect =>
    simp only [CreditSys.step] at hs
    split at hs
    · next p l hpc =>
      rw [hpc] at hat
      cases hw : s.ring.writer <;> rw [hw] at hat <;> simp only [FifoSys.ringStep, hw] at hs
      case pending n =>
        cases hs
        obtain ⟨hcov, hn, hb⟩ := hat
        refine ⟨hnn, ?_⟩
        simp only [hpc]
        have := length_sdioCollect_le s.ring.vr n
        exact ⟨hcov, by omega, hb⟩
      all_goals cases hs
    · cases hs
  | hwAdmaTx ret =>
    simp only [CreditSys.step] at hs
    split at hs
    · next p l hpc =>
      rw [hpc] at hat
      cases hw : s.ring.writer <;> rw [hw] at hat <;> simp only [FifoSys.ringStep, hw] at hs
      case collected sgl usedIdx =>
        cases hs
        obtain ⟨hcov, hn, hb⟩ := hat
        refine ⟨hnn, ?_⟩
        simp only [hpc]
        refine ⟨⟨hcov.pos, hcov.pending, hcov.pkt, hcov.credit⟩, ?_⟩
        simp only [books, Books.Balance, SdioWrite.sgl] at hb ⊢
        split_ifs <;> push_cast <;> omega
      all_goals cases hs
    · cases hs
  | publish =>
    simp only [CreditSys.step] at hs
    split at hs
    · next p l sgl usedIdx ret hpc hw =>
      rw [hpc, hw] at hat
      obtain ⟨hcov, hb⟩ := hat
      simp only [FifoSys.ringStep, hw, Option.map_some] at hs
      cases hs
      refine ⟨hnn, ?_⟩
      show s.books.At (if ret = 0 then DyPc.sub l else .top) .idle
      split_ifs at hb ⊢ with hret
      · exact ⟨⟨hcov.pos, le_rfl, hcov.pkt, hcov.credit⟩, hb⟩
      · exact hb
    · cases hs
  | subCredit =>
    simp only [CreditSys.step] at hs
    split at hs
    · next l hpc =>
      cases hs
      exact h.subCredit hpc
    · cases hs

/-- One frame sent on one granted credit. -/
def sendOne : List CreditStep :=
  [.addCredit 2, .vringSet 4 [1, 2, 3, 4], .getCredit, .pendingCount, .enter, .collect, .hwAdmaTx 0,
    .publish, .subCredit]

/-- The credit is reset after the worker has read it: the frame is sent without a grant, the
credit becomes -1, and with the next frame pending that is the limit. -/
def resetWhileSending : List CreditStep :=
  [.addCredit 1, .vringSet 4 [1, 2, 3, 4], .getCredit, .pendingCount, .teardown, .enter, .collect,
    .hwAdmaTx 0, .publish, .subCredit, .vringSet 4 [1, 2, 3, 4], .getCredit, .pendingCount]

end CreditSys
end Skw
