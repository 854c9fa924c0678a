import Skw.Tx.Credit
import Mathlib.Data.List.Count
import Mathlib.Logic.Function.Basic

/-! Asynchronous ADMA transmission. `skw_async_adma_tx` hands over a scatter list, the callback
`skw_async_adma_tx_free` queues its release as a work item without an interface, and
`skw_work_process` refuses such an item before it looks at what the item asks for. -/
namespace Skw

/-- What the transmit path reads of a buffer; `nativeLen` is `skb_native_len` of its tx cb. -/
structure TxSkb where
  ptr : Ptr
  dev : Ptr
  nativeLen : ℕ
deriving DecidableEq

structure NetDevStats where
  txPackets : ℕ
  txBytes : ℕ
  txErrors : ℕ

structure SgNode where
  sg : Ptr
  nents : ℕ
  status : ℤ
deriving DecidableEq

/-- `enum SKW_WORK_ID`, with the data of the one item read here. -/
inductive WorkId
  | baAction
  | scanTimeout
  | aclCheck
  | setMcAddr
  | setIp
  | txFree (node : SgNode)
  | setupTxba
  | txEtherData
  | radarPulse
  | radarCac
  | radarCacEnd
  | ifaceRpsInit
  | splitMgmtTxStatus
deriving DecidableEq

def WorkId.isTxFree : WorkId → Bool
  | .txFree _ => true
  | _ => false

structure WorkCb where
  iface : Option Ptr
  id : WorkId
deriving DecidableEq

/-- One call of `skw_async_adma_tx`: what it was given, and what `hw_adma_tx_async` answers. -/
structure Submission where
  sgl : Option Ptr
  skbs : List TxSkb
  ret : ℤ

/-- `inHw` holds the lists that were accepted and have not come back. The freed pointers and the
submissions are recorded. -/
structure AsyncTx where
  hwAdmaTxAsync : Bool
  sglDat : Option Ptr
  sg : Ptr → List TxSkb
  stats : Ptr → NetDevStats
  txqlenPending : BitVec 32
  fwCredit : ℕ → BitVec 32
  workList : List WorkCb
  inHw : List (Ptr × ℕ)
  freedSkbs : List Ptr
  freedLists : List Ptr
  submissions : List Submission

inductive TxEvent
  | submit (lmacId : ℕ) (txq : List TxSkb) (sgList : Option Ptr) (ret : ℤ)
  | complete (i : ℕ) (status : ℤ) (alloc : Bool)
  | queueWork (iface : Option Ptr) (id : WorkId) (alloc : Bool)
  | work

namespace AsyncTx

def init (hwAdmaTxAsync : Bool) (sgl : Ptr) (stats : Ptr → NetDevStats) (pending : BitVec 32)
    (credit : ℕ → BitVec 32) : AsyncTx :=
  ⟨hwAdmaTxAsync, some sgl, fun _ => [], stats, pending, credit, [], [], [], [], []⟩

def skbKfree (s : AsyncTx) (skb : TxSkb) : AsyncTx :=
  { s with freedSkbs := s.freedSkbs ++ [skb.ptr] }

def countStats (s : AsyncTx) (dev : Ptr) (f : NetDevStats → NetDevStats) : AsyncTx :=
  { s with stats := Function.update s.stats dev (f (s.stats dev)) }

/-- `SKW_KFREE(sgl)`. -/
def kfreeList (s : AsyncTx) (sgl : Ptr) : AsyncTx :=
  { s with freedLists := s.freedLists ++ [sgl] }

/-- The loop of `skw_async_adma_tx` over a list that was not accepted. -/
def freeRejected (s : AsyncTx) (l : List TxSkb) : AsyncTx :=
  l.foldl (fun s skb =>
    (s.countStats skb.dev fun d => { d with txErrors := d.txErrors + 1 }).skbKfree skb) s

/-- `sgList` is what `kcalloc` returns and `ret` what `hw_adma_tx_async` returns. -/
def asyncAdmaTx (s : AsyncTx) (lmacId : ℕ) (sgl : Option Ptr) (nents : ℕ) (sgList : Option Ptr)
    (ret : ℤ) : ℤ × AsyncTx :=
  if s.hwAdmaTxAsync = false then (- EINVAL, s)
  else
    match sgl with
    | none => (- ENOMEM, s)
    | some sgl =>
      let t :=
        if ret < 0 then (s.freeRejected ((s.sg sgl).take nents)).kfreeList sgl
        else
          { s with
            txqlenPending := s.txqlenPending + BitVec.ofNat 32 nents
            fwCredit := Function.update s.fwCredit lmacId
              (s.fwCredit lmacId - BitVec.ofNat 32 nents)
            inHw := s.inHw ++ [(sgl, nents)] }
      (ret, { t with sglDat := sgList })

/-- The list `skw->sgl_dat` gets one entry for each buffer. Without a list the kernel faults here
already; `skw_async_adma_tx` refuses it all the same. -/
def usbXmit (s : AsyncTx) (lmacId : ℕ) (txq : List TxSkb) (sgList : Option Ptr) (ret : ℤ) :
    ℤ × AsyncTx :=
  let t :=
    match s.sglDat with
    | none => s
    | some p => { s with sg := Function.update s.sg p txq }
  t.asyncAdmaTx lmacId t.sglDat txq.length sgList ret

/-- `alloc` is whether `dev_alloc_skb` succeeds. -/
def queueWork (s : AsyncTx) (iface : Option Ptr) (id : WorkId) (alloc : Bool) : ℤ × AsyncTx :=
  if alloc = false then (- ENOMEM, s)
  else (0, { s with workList := s.workList ++ [⟨iface, id⟩] })

def asyncAdmaTxFree (s : AsyncTx) (sg : Ptr) (nents : ℕ) (status : ℤ) (alloc : Bool) : AsyncTx :=
  (s.queueWork none (.txFree ⟨sg, nents, status⟩) alloc).2

section
variable (virtAddrValid : Ptr → Bool)

/-- One turn of the loop of `skw_work_async_adma_tx_free`. -/
def freeSentSkb (s : AsyncTx) (skb : TxSkb) : AsyncTx :=
  if virtAddrValid skb.ptr = false then s
  else
    let t := s.countStats skb.dev fun d =>
      { d with txPackets := d.txPackets + 1, txBytes := d.txBytes + skb.nativeLen }
    { t.skbKfree skb with txqlenPending := t.txqlenPending - 1 }

def freeSent (s : AsyncTx) (l : List TxSkb) : AsyncTx := l.foldl (freeSentSkb virtAddrValid) s

def workAsyncAdmaTxFree (s : AsyncTx) (sgl : Ptr) (nents : ℕ) : AsyncTx :=
  (s.freeSent virtAddrValid ((s.sg sgl).take nents)).kfreeList sgl

/-- The other items do not touch what is modelled here. -/
def workProcess (s : AsyncTx) (iface : Option Ptr) (id : WorkId) : ℤ × AsyncTx :=
  match iface with
  | none => (- ENOENT, s)
  | some _ =>
    match id with
    | .txFree node => (0, s.workAsyncAdmaTxFree virtAddrValid node.sg node.nents)
    | _ => (0, s)

def step (s : AsyncTx) : TxEvent → Option AsyncTx
  | .submit lmacId txq sgList ret =>
    -- `skw_bus_data_xmit` sends no empty queue; each list of `kcalloc` has a name of its own
    if txq ≠ [] ∧ txq.length ≤ SKW_NR_SGL_DAT ∧
        (sgList = none ∨ sgList ≠ s.sglDat ∧ ∀ x ∈ s.submissions, x.sgl ≠ sgList) then
      some
        { (s.usbXmit lmacId txq sgList ret).2 with
          submissions := s.submissions ++ [⟨s.sglDat, txq, ret⟩] }
    else none
  | .complete i status alloc =>
    match s.inHw[i]? with
    | none => none
    | some (sg, nents) =>
      some ({ s with inHw := s.inHw.eraseIdx i }.asyncAdmaTxFree sg nents status alloc)
  | .queueWork iface id alloc =>
    if id.isTxFree = true then none else some (s.queueWork iface id alloc).2
  | .work =>
    match s.workList with
    | [] => none
    | cb :: l => some ({ s with workList := l }.workProcess virtAddrValid cb.iface cb.id).2

end

/-- No list is in the hardware and no work is left. -/
def Drained (s : AsyncTx) : Prop := s.inHw = [] ∧ s.workList = []

/-- The buffers and the lists of all submissions are freed, each once, and as many frames are
pending as before. -/
structure Returned (s : AsyncTx) (pending : BitVec 32) : Prop where
  skbs : s.freedSkbs.Perm (s.submissions.flatMap fun x => x.skbs.map (·.ptr))
  lists : s.freedLists.Perm (s.submissions.filterMap (·.sgl))
  pending : s.txqlenPending = pending

/-- The submission came to `hw_adma_tx_async`, which refused it. -/
def Rejected (s : AsyncTx) (x : Submission) : Bool :=
  s.hwAdmaTxAsync && x.sgl.isSome && x.ret < 0

variable {valid : Ptr → Bool} {s t : AsyncTx} {e : TxEvent} {pending : BitVec 32}

/-- What freeing a list that was not accepted leaves as it is. -/
structure SameButFreed (s t : AsyncTx) : Prop where
  hook : t.hwAdmaTxAsync = s.hwAdmaTxAsync
  pending : t.txqlenPending = s.txqlenPending
  workList : t.workList = s.workList
  inHw : t.inHw = s.inHw
  freedLists : t.freedLists = s.freedLists
  submissions : t.submissions = s.submissions

theorem freeRejected_spec (s : AsyncTx) (l : List TxSkb) :
    (s.freeRejected l).freedSkbs = s.freedSkbs ++ l.map (·.ptr) ∧
      SameButFreed s (s.freeRejected l) := by
  induction l generalizing s with
  | nil => exact ⟨(List.append_nil _).symm, rfl, rfl, rfl, rfl, rfl, rfl⟩
  | cons skb l ih =>
    let u := (s.countStats skb.dev fun d => { d with txErrors := d.txErrors + 1 }).skbKfree skb
    obtain ⟨hf, h⟩ := ih u
    have hu : u.freedSkbs = s.freedSkbs ++ [skb.ptr] := rfl
    constructor
    · exact hf.trans (by simp [hu])
    · exact ⟨h.hook, h.pending, h.workList, h.inHw, h.freedLists, h.submissions⟩

theorem freeSent_spec (s : AsyncTx) {l : List TxSkb} (hv : ∀ skb ∈ l, valid skb.ptr = true) :
    (s.freeSent valid l).freedSkbs = s.freedSkbs ++ l.map (·.ptr) ∧
      (s.freeSent valid l).freedLists = s.freedLists ∧
      (s.freeSent valid l).txqlenPending = s.txqlenPending - BitVec.ofNat 32 l.length := by
  induction l generalizing s with
  | nil => exact ⟨(List.append_nil _).symm, rfl, (BitVec.sub_zero _).symm⟩
  | cons skb l ih =>
    have hskb := hv skb List.mem_cons_self
    obtain ⟨hf, hk, hp⟩ := ih (s.freeSentSkb valid skb) fun x hx => hv x (List.mem_cons_of_mem _ hx)
    have hf' : (s.freeSentSkb valid skb).freedSkbs = s.freedSkbs ++ [skb.ptr] := by
      simp [freeSentSkb, hskb, skbKfree, countStats]
    have hk' : (s.freeSentSkb valid skb).freedLists = s.freedLists := by
      simp [freeSentSkb, hskb, skbKfree, countStats]
    have hp' : (s.freeSentSkb valid skb).txqlenPending = s.txqlenPending - 1 := by
      simp [freeSentSkb, hskb, countStats]
    refine ⟨hf.trans ?_, hk.trans hk', hp.trans ?_⟩
    · simp [hf']
    · rw [hp', List.length_cons, Nat.add_comm, BitVec.ofNat_add]
      exact BitVec.sub_sub _ _ _

/-- A list of buffers with valid addresses is freed as a whole and is no longer pending. -/
theorem workAsyncAdmaTxFree_spec (s : AsyncTx) (sgl : Ptr) (nents : ℕ)
    (hv : ∀ skb ∈ (s.sg sgl).take nents, valid skb.ptr = true) :
    (s.workAsyncAdmaTxFree valid sgl nents).freedSkbs =
        s.freedSkbs ++ ((s.sg sgl).take nents).map (·.ptr) ∧
      (s.workAsyncAdmaTxFree valid sgl nents).freedLists = s.freedLists ++ [sgl] ∧
      (s.workAsyncAdmaTxFree valid sgl nents).txqlenPending =
        s.txqlenPending - BitVec.ofNat 32 ((s.sg sgl).take nents).length := by
  obtain ⟨hf, hk, hp⟩ := s.freeSent_spec hv
  exact ⟨hf, congrArg (· ++ [sgl]) hk, hp⟩

/-- What a submission frees, as it is refused or not. -/
theorem usbXmit_spec (s : AsyncTx) (lmacId : ℕ) (txq : List TxSkb) (sgList : Option Ptr) (ret : ℤ) :
    let x : Submission := ⟨s.sglDat, txq, ret⟩
    let t := (s.usbXmit lmacId txq sgList ret).2
    t.hwAdmaTxAsync = s.hwAdmaTxAsync ∧ t.workList = s.workList ∧
      t.freedSkbs = s.freedSkbs ++ (if s.Rejected x then txq.map (·.ptr) else []) ∧
      t.freedLists = s.freedLists ++ (if s.Rejected x then x.sgl.toList else []) ∧
      (s.Rejected x = true → t.txqlenPending = s.txqlenPending) := by
  intro x t
  by_cases hook : s.hwAdmaTxAsync = false
  · have hr : s.Rejected x = false := by simp [Rejected, hook]
    have ht : t = match s.sglDat with
        | none => s
        | some p => { s with sg := Function.update s.sg p txq } := by
      cases hd : s.sglDat <;> simp [t, usbXmit, asyncAdmaTx, hook, hd]
    cases hd : s.sglDat with
    | none => simp [ht, hd, hr]
    | some p => simp [ht, hd, hr]
  · cases hd : s.sglDat with
    | none =>
      have hr : s.Rejected x = false := by simp [Rejected, x, hd]
      have ht : t = s := by simp [t, usbXmit, asyncAdmaTx, hook, hd]
      simp [ht, hr]
    | some p =>
      let u : AsyncTx := { s with sg := Function.update s.sg p txq }
      by_cases hret : ret < 0
      · have hr : s.Rejected x = true := by simp [Rejected, x, hd, hret, hook]
        have ht : t = { (u.freeRejected txq).kfreeList p with sglDat := sgList } := by
          simp [t, u, usbXmit, asyncAdmaTx, hook, hd, hret]
        obtain ⟨hf, h⟩ := u.freeRejected_spec txq
        have hk : t.freedLists = s.freedLists ++ [p] := by
          rw [ht]
          exact congrArg (· ++ [p]) h.freedLists
        rw [hr, ht]
        exact ⟨h.hook, h.workList, hf, by simpa [ht, x, hd] using hk, fun _ => h.pending⟩
      · have hr : s.Rejected x = false := by simp [Rejected, hret, x]
        simp [t, usbXmit, asyncAdmaTx, hook, hd, hret, hr]

/-- What is freed are the submissions that were refused; the items that would free the others have
no interface. -/
structure Inv (pending : BitVec 32) (s : AsyncTx) : Prop where
  noIface : ∀ cb ∈ s.workList, cb.id.isTxFree = true → cb.iface = none
  skbs : s.freedSkbs = (s.submissions.filter s.Rejected).flatMap fun x => x.skbs.map (·.ptr)
  lists : s.freedLists = (s.submissions.filter s.Rejected).filterMap (·.sgl)
  sent : ∀ x ∈ s.submissions, x.skbs ≠ []
  pending : (∀ x ∈ s.submissions, s.Rejected x = true) → s.txqlenPending = pending

theorem Inv.submit (h : Inv pending s) (lmacId : ℕ) {txq : List TxSkb} (sgList : Option Ptr)
    (ret : ℤ) (hne : txq ≠ []) :
    Inv pending { (s.usbXmit lmacId txq sgList ret).2 with
      submissions := s.submissions ++ [⟨s.sglDat, txq, ret⟩] } := by
  obtain ⟨hook, hwork, hskbs, hlists, hpend⟩ := s.usbXmit_spec lmacId txq sgList ret
  have hrej : ∀ u : AsyncTx, u.hwAdmaTxAsync = s.hwAdmaTxAsync → u.Rejected = s.Rejected :=
    fun u hu => by funext x; rw [Rejected, Rejected, hu]
  have hr := hrej { (s.usbXmit lmacId txq sgList ret).2 with
    submissions := s.submissions ++ [⟨s.sglDat, txq, ret⟩] } hook
  constructor
  · exact fun cb hcb => h.noIface cb (hwork ▸ hcb)
  · rw [hr]
    refine hskbs.trans ?_
    rw [h.skbs, List.filter_append, List.flatMap_append]
    split <;> simp [*]
  · rw [hr]
    refine hlists.trans ?_
    rw [h.lists, List.filter_append, List.filterMap_append]
    split
    · cases hd : s.sglDat <;> simp_all
    · simp_all
  · intro x hx
    rcases List.mem_append.mp hx with hx | hx
    · exact h.sent x hx
    · rw [List.mem_singleton.mp hx]
      exact hne
  · rw [hr]
    intro hall
    have hx := hall _ (List.mem_append_right _ (List.mem_singleton.mpr rfl))
    exact (hpend hx).trans (h.pending fun x hm => hall x (List.mem_append_left _ hm))

/-- An item is queued or taken away. -/
theorem Inv.ofWork (h : Inv pending s) {l : List WorkCb} {hw : List (Ptr × ℕ)}
    (hl : ∀ cb ∈ l, cb.id.isTxFree = true → cb.iface = none) :
    Inv pending { s with workList := l, inHw := hw } :=
  ⟨hl, h.skbs, h.lists, h.sent, h.pending⟩

theorem Inv.queueWork (h : Inv pending s) {iface : Option Ptr} {id : WorkId} (alloc : Bool)
    (hi : id.isTxFree = true → iface = none) : Inv pending (s.queueWork iface id alloc).2 := by
  unfold AsyncTx.queueWork
  split
  · exact h
  · apply h.ofWork
    intro cb hcb
    rcases List.mem_append.mp hcb with hcb | hcb
    · exact h.noIface cb hcb
    · rw [List.mem_singleton.mp hcb]
      exact hi

/-- An item leaves the state as it is: one that would free a list is refused. -/
theorem workProcess_eq (s : AsyncTx) {cb : WorkCb}
    (hcb : cb.id.isTxFree = true → cb.iface = none) :
    (s.workProcess valid cb.iface cb.id).2 = s := by
  unfold workProcess
  cases hi : cb.iface with
  | none => rfl
  | some p =>
    cases hid : cb.id with
    | txFree node => exact absurd (hcb (by rw [hid]; rfl)) (by simp [hi])
    | _ => rfl

theorem Inv.step (h : Inv pending s) (hs : step valid s e = some t) : Inv pending t := by
  cases e with
  | submit lmacId txq sgList ret =>
    simp only [AsyncTx.step] at hs
    split at hs
    · next hc =>
      cases hs
      exact h.submit lmacId sgList ret hc.1
    · cases hs
  | complete i status alloc =>
    simp only [AsyncTx.step] at hs
    split at hs
    · cases hs
    · next sg nents hi =>
      cases hs
      exact Inv.queueWork (h.ofWork h.noIface) alloc fun _ => rfl
  | queueWork iface id alloc =>
    simp only [AsyncTx.step] at hs
    split at hs
    · cases hs
    · next hid =>
      cases hs
      exact h.queueWork alloc fun hf => absurd hf hid
  | work =>
    simp only [AsyncTx.step] at hs
    split at hs
    · cases hs
    · next cb l hl =>
      cases hs
      rw [workProcess_eq _ (h.noIface cb (by rw [hl]; exact List.mem_cons_self))]
      exact h.ofWork fun x hx => h.noIface x (by rw [hl]; exact List.mem_cons_of_mem _ hx)

/-- A filter that keeps as many entries of non-empty pieces keeps every piece. -/
private theorem all_of_length_flatMap {α β : Type*} {p : α → Bool} {f : α → List β} {l : List α}
    (hf : ∀ x ∈ l, f x ≠ [])
    (h : ((l.filter p).flatMap f).length = (l.flatMap f).length) : ∀ x ∈ l, p x = true := by
  have hle : ∀ l : List α, ((l.filter p).flatMap f).length ≤ (l.flatMap f).length := by
    intro l
    induction l with
    | nil => exact le_rfl
    | cons x l ih =>
      rw [List.filter_cons]
      split <;> simp only [List.flatMap_cons, List.length_append] <;> omega
  induction l with
  | nil => exact fun x hx => absurd hx List.not_mem_nil
  | cons a l ih =>
    have ha := List.length_pos_of_ne_nil (hf a List.mem_cons_self)
    have hl := hle l
    by_cases hp : p a = true
    · simp only [List.filter_cons, hp, if_true, List.flatMap_cons, List.length_append] at h
      have hrest := ih (fun x hx => hf x (List.mem_cons_of_mem _ hx)) (by omega)
      exact List.forall_mem_cons.mpr ⟨hp, hrest⟩
    · simp only [List.filter_cons, hp, List.flatMap_cons, List.length_append] at h
      simp only [Bool.false_eq_true, if_false] at h
      omega

/-- In every state reached, drained or not, all is given back exactly when `hw_adma_tx_async`
refused every submission: the callback of one that it accepted frees nothing. -/
theorem returned_iff_rejected (hook : Bool) (sgl : Ptr) (stats : Ptr → NetDevStats)
    (pending : BitVec 32) (credit : ℕ → BitVec 32) (s : AsyncTx)
    (hs : Lib.Reach (step valid) Lib.Free (init hook sgl stats pending credit) s) :
    s.Returned pending ↔ ∀ x ∈ s.submissions, s.Rejected x = true := by
  have h : Inv pending s := by
    apply hs.invariant (I := Inv pending)
    · exact ⟨by simp [init], rfl, rfl, by simp [init], fun _ => rfl⟩
    · exact fun _ _ _ h _ ht => h.step ht
  constructor
  · intro hret
    have hlen := hret.skbs.length_eq
    rw [h.skbs] at hlen
    exact all_of_length_flatMap (fun x hx => by simpa using h.sent x hx) hlen
  · intro hall
    have hf : s.submissions.filter s.Rejected = s.submissions := List.filter_eq_self.mpr hall
    constructor
    · rw [h.skbs, hf]
    · rw [h.lists, hf]
    · exact h.pending hall

/-- Two frames from different devices. -/
def twoFrames : List TxSkb := [⟨10, 1, 60⟩, ⟨11, 2, 70⟩]

def idleTx : AsyncTx := init true 1 (fun _ => ⟨0, 0, 0⟩) 0 fun _ => 8

theorem returned_iff_rejected_refused :
    ∃ s, Lib.Reach (step fun _ => true) Lib.Free idleTx s ∧ s.Drained ∧
      s.freedSkbs = [10, 11] ∧ (s.Returned 0 ↔ ∀ x ∈ s.submissions, s.Rejected x = true) := by
  obtain ⟨s, hs, hp⟩ := Lib.exists_reach_of_exec (step fun _ => true) Lib.Free idleTx
    [.submit 0 twoFrames (some 2) (- EIO)]
    (fun s => s.inHw == [] && s.workList == [] && s.freedSkbs == [10, 11]) (by decide)
  simp only [Bool.and_eq_true, beq_iff_eq] at hp
  exact ⟨s, hs, hp.1, hp.2, returned_iff_rejected true 1 _ 0 _ s hs⟩

/-- The hardware accepts two frames and gives the list back, and `skw_work` takes the item. -/
theorem accepted_not_returned :
    ¬ ∀ s, Lib.Reach (step fun _ => true) Lib.Free idleTx s → s.Drained → s.Returned 0 := by
  intro h
  obtain ⟨s, hs, hp⟩ := Lib.exists_reach_of_exec (step fun _ => true) Lib.Free idleTx
    [.submit 0 twoFrames (some 2) 0, .complete 0 0 true, .work]
    (fun s => s.inHw == [] && s.workList == [] && s.txqlenPending == 2) (by decide)
  simp only [Bool.and_eq_true, beq_iff_eq] at hp
  have hr := (h s hs hp.1).pending
  rw [hp.2] at hr
  exact absurd hr (by decide)

end AsyncTx
end Skw
