import Skw.Kernel.Types
import Skw.Tx.PureAck
import Mathlib.Data.Fin.VecNotation
import Mathlib.Logic.Function.Basic

/-! What the tx worker keeps of each lmac while it goes through the access categories, and how
`skw_txq_prepare` fills it: each interface with frames of the category takes the next place. -/
namespace Skw

/-- The `int` of the source. -/
abbrev CInt := BitVec 32

inductive WmmAc
  | vo
  | vi
  | be
  | bk
deriving DecidableEq

def WmmAc.toNat : WmmAc → ℕ
  | vo => 0
  | vi => 1
  | be => 2
  | bk => 3

/-- `skw_tx_info`; `list` is the queue of an interface in the current access category. -/
structure TxInfo where
  quota : CInt
  reset : Bool
  list : IfaceId
deriving DecidableEq

/-- `skw_tx_lmac`, without `tx_list`. -/
structure TxLmac where
  reset : Bool
  cred : CInt
  txqMap : BitVec 16
  nrTxq : ℕ
  bkTxLimit : CInt
  currentQlen : CInt
  acReset : CInt
  txCountLimit : CInt
  pendingQlen : CInt
  tx : ℕ → TxInfo

/-- What the tx worker uses of `skw_iface`. The queue behind those of the access categories
(`SKW_ACK_TXQ`) is `ackTxq`, and `deauth` is `SKW_IFACE_FLAG_DEAUTH`. -/
structure TxIface where
  ndev : Bool
  lmacId : ℕ
  deauth : Bool
  factor : WmmAc → BitVec 8
  txq : WmmAc → List TxqSkb
  ackTxq : List TxqSkb
  txCache : WmmAc → List TxqSkb

/-- The interfaces, `txl`, the length that `skw_txq_prepare` returns and the frames it freed. -/
structure TxPass where
  iface : IfaceId → Option TxIface
  txl : ℕ → TxLmac
  acQlen : ℕ
  freed : List TxqSkb

namespace TxLmac

/-- After `memset`. -/
def zero : TxLmac := ⟨false, 0, 0, 0, 0, 0, 0, 0, 0, fun _ => ⟨0, false, 0⟩⟩

/-- The next place of `tx` for the queue of an interface. -/
def addQueue (l : TxLmac) (ac : WmmAc) (n : IfaceId) (factor : BitVec 8) (qlen : ℕ) : TxLmac :=
  let old := l.tx l.nrTxq
  { l with
    currentQlen := l.currentQlen + BitVec.ofNat 32 qlen
    txqMap := l.txqMap ||| BitVec.twoPow 16 l.nrTxq
    tx := Function.update l.tx l.nrTxq
      { quota := if l.acReset.getLsbD ac.toNat then factor.signExtend 32 else old.quota
        reset := true
        list := n }
    reset := true
    acReset := if l.acReset.getLsbD ac.toNat then l.acReset ^^^ BitVec.twoPow 32 ac.toNat
      else l.acReset
    nrTxq := l.nrTxq + 1 }

/-- Every place in the map has a queue, and its quota is still to be topped up. -/
structure Entered (l : TxLmac) : Prop where
  places : l.nrTxq ≤ SKW_NR_IFACE
  queued : ∀ k, l.txqMap.getLsbD k = true → k < l.nrTxq ∧ (l.tx k).reset = true

end TxLmac

namespace TxIface

/-- The pure acknowledgements are merged into the queue of best effort. -/
def mergeAcks (iface : TxIface) (ac : WmmAc) : TxIface × List TxqSkb :=
  if ac = .be ∧ iface.ackTxq ≠ [] then
    let m := AckMerge.mergePureAck ⟨iface.ackTxq, iface.txCache ac, []⟩
    ({ iface with ackTxq := [], txCache := Function.update iface.txCache ac m.txq }, m.freed)
  else (iface, [])

/-- The frames queued since the last pass are put behind those in the cache. -/
def splice (iface : TxIface) (ac : WmmAc) : TxIface :=
  { iface with
    txq := Function.update iface.txq ac []
    txCache := Function.update iface.txCache ac (iface.txCache ac ++ iface.txq ac) }

def flush (iface : TxIface) (ac : WmmAc) : TxIface × List TxqSkb :=
  if iface.deauth then
    ({ iface with txCache := Function.update iface.txCache ac [] }, iface.txCache ac)
  else (iface, [])

/-- What becomes of an interface, and the frames that are freed. -/
def prepare (iface : TxIface) (ac : WmmAc) : TxIface × List TxqSkb :=
  let merged := iface.mergeAcks ac
  let flushed := (merged.1.splice ac).flush ac
  (flushed.1, merged.2 ++ flushed.2)

theorem mergeAcks_ids (iface : TxIface) (ac : WmmAc) :
    (iface.mergeAcks ac).1.lmacId = iface.lmacId ∧ (iface.mergeAcks ac).1.ndev = iface.ndev := by
  unfold mergeAcks
  split_ifs
  · exact ⟨rfl, rfl⟩
  · exact ⟨rfl, rfl⟩

theorem flush_ids (iface : TxIface) (ac : WmmAc) :
    (iface.flush ac).1.lmacId = iface.lmacId ∧ (iface.flush ac).1.ndev = iface.ndev := by
  unfold flush
  split_ifs
  · exact ⟨rfl, rfl⟩
  · exact ⟨rfl, rfl⟩

theorem prepare_ids (iface : TxIface) (ac : WmmAc) :
    (iface.prepare ac).1.lmacId = iface.lmacId ∧ (iface.prepare ac).1.ndev = iface.ndev := by
  have hm := iface.mergeAcks_ids ac
  have hf := ((iface.mergeAcks ac).1.splice ac).flush_ids ac
  exact ⟨hf.1.trans hm.1, hf.2.trans hm.2⟩

/-- The queues of category `b` are the same in both. -/
structure Keeps (b : WmmAc) (i j : TxIface) : Prop where
  ndev : j.ndev = i.ndev
  lmacId : j.lmacId = i.lmacId
  deauth : j.deauth = i.deauth
  txq : j.txq b = i.txq b
  txCache : j.txCache b = i.txCache b
  ackTxq : b = .be → j.ackTxq = i.ackTxq

theorem Keeps.refl (b : WmmAc) (i : TxIface) : i.Keeps b i :=
  ⟨rfl, rfl, rfl, rfl, rfl, fun _ => rfl⟩

theorem Keeps.trans {b : WmmAc} {i j k : TxIface} (h : i.Keeps b j) (h' : j.Keeps b k) :
    i.Keeps b k :=
  ⟨h'.ndev.trans h.ndev, h'.lmacId.trans h.lmacId, h'.deauth.trans h.deauth, h'.txq.trans h.txq,
    h'.txCache.trans h.txCache, fun hb => (h'.ackTxq hb).trans (h.ackTxq hb)⟩

section
variable {b ac : WmmAc}

theorem mergeAcks_keeps (iface : TxIface) (h : b ≠ ac) : iface.Keeps b (iface.mergeAcks ac).1 := by
  unfold mergeAcks
  split_ifs with hac
  · exact ⟨rfl, rfl, rfl, rfl, Function.update_of_ne h _ _,
      fun hb => absurd (hb.trans hac.1.symm) h⟩
  · exact .refl b iface

theorem splice_keeps (iface : TxIface) (h : b ≠ ac) : iface.Keeps b (iface.splice ac) :=
  ⟨rfl, rfl, rfl, Function.update_of_ne h _ _, Function.update_of_ne h _ _, fun _ => rfl⟩

theorem flush_keeps (iface : TxIface) (h : b ≠ ac) : iface.Keeps b (iface.flush ac).1 := by
  unfold flush
  split_ifs
  · exact ⟨rfl, rfl, rfl, rfl, Function.update_of_ne h _ _, fun _ => rfl⟩
  · exact .refl b iface

/-- Each category has queues of its own; the acknowledgements go into those of best effort. -/
theorem prepare_keeps (iface : TxIface) (h : b ≠ ac) : iface.Keeps b (iface.prepare ac).1 :=
  ((iface.mergeAcks_keeps h).trans (splice_keeps _ h)).trans (flush_keeps _ h)

/-- The frames of a category once it is prepared. -/
def queue (iface : TxIface) (b : WmmAc) : List TxqSkb := (iface.prepare b).1.txCache b

theorem Keeps.queue {i j : TxIface} (h : i.Keeps b j) : j.queue b = i.queue b := by
  have hacks : (j.mergeAcks b).1.txCache b = (i.mergeAcks b).1.txCache b ∧
      (j.mergeAcks b).1.txq b = (i.mergeAcks b).1.txq b ∧
        (j.mergeAcks b).1.deauth = (i.mergeAcks b).1.deauth := by
    unfold mergeAcks
    by_cases hb : b = .be
    · rw [h.ackTxq hb, h.txCache]
      split_ifs
      · exact ⟨by simp only [Function.update_self], h.txq, h.deauth⟩
      · exact ⟨h.txCache, h.txq, h.deauth⟩
    · have hne : ∀ l : List TxqSkb, ¬(b = .be ∧ l ≠ []) := fun l hl => hb hl.1
      rw [if_neg (hne _), if_neg (hne _)]
      exact ⟨h.txCache, h.txq, h.deauth⟩
  obtain ⟨hcache, htxq, hdeauth⟩ := hacks
  unfold TxIface.queue prepare flush splice
  simp only [hdeauth]
  split_ifs
  · simp only [Function.update_self]
  · simp only [Function.update_self, hcache, htxq]

end

end TxIface

namespace TxPass

/-- The body of the loop of `skw_txq_prepare`. -/
def prepareIface (ac : WmmAc) (s : TxPass) (n : IfaceId) : TxPass :=
  match s.iface n with
  | none => s
  | some iface =>
    if iface.ndev = false then s
    else
      let r := iface.prepare ac
      let qlen := (r.1.txCache ac).length
      { iface := Function.update s.iface n (some r.1)
        txl :=
          if qlen = 0 then s.txl
          else
            let l := s.txl iface.lmacId
            Function.update s.txl iface.lmacId (l.addQueue ac n (iface.factor ac) qlen)
        acQlen := s.acQlen + qlen
        freed := s.freed ++ r.2 }

def txqPrepare (ac : WmmAc) (s : TxPass) : TxPass :=
  (List.finRange SKW_NR_IFACE).foldl (prepareIface ac) { s with acQlen := 0 }

/-- What `skw_txq_prepare` makes of an interface. -/
def prepared (ac : WmmAc) (iface : TxIface) : TxIface :=
  if iface.ndev = false then iface else (iface.prepare ac).1

variable {p p₀ : TxPass} {ac : WmmAc} {m : ℕ} {n : IfaceId} {ns : List IfaceId}

/-- The places of lmac `m` hold the queues of its interfaces that have frames. -/
structure Held (p : TxPass) (ac : WmmAc) (m : ℕ) : Prop where
  places : (p.txl m).nrTxq ≤ SKW_NR_IFACE
  bits : ∀ k, (p.txl m).txqMap.getLsbD k = true ↔ k < (p.txl m).nrTxq
  owner : ∀ k < (p.txl m).nrTxq, ∃ iface, p.iface ((p.txl m).tx k).list = some iface ∧
    iface.lmacId = m ∧ iface.ndev = true ∧ iface.txCache ac ≠ []
  reset : ∀ k < (p.txl m).nrTxq, ((p.txl m).tx k).reset = true
  currentQlen : (p.txl m).nrTxq = 0 → (p.txl m).currentQlen = 0
  placed : ∀ n iface, p.iface n = some iface → iface.lmacId = m → iface.ndev = true →
    iface.txCache ac ≠ [] → ∃ k < (p.txl m).nrTxq, ((p.txl m).tx k).list = n

/-- Nothing of lmac `m` is in the map, as the statements at `reset` leave it. -/
structure Fresh (p : TxPass) (m : ℕ) : Prop where
  nrTxq : (p.txl m).nrTxq = 0
  txqMap : (p.txl m).txqMap = 0
  currentQlen : (p.txl m).currentQlen = 0

/-- The state `p` after `skw_txq_prepare` took the interfaces `ns` of `p₀`. -/
structure Filled (p₀ p : TxPass) (ac : WmmAc) (m : ℕ) (ns : List IfaceId) : Prop where
  iface : ∀ n, p.iface n = if n ∈ ns then (p₀.iface n).map (prepared ac) else p₀.iface n
  places : (p.txl m).nrTxq ≤ ns.length
  bits : ∀ k, (p.txl m).txqMap.getLsbD k = true ↔ k < (p.txl m).nrTxq
  owner : ∀ k < (p.txl m).nrTxq, ((p.txl m).tx k).list ∈ ns ∧
    ∃ iface, p.iface ((p.txl m).tx k).list = some iface ∧
      iface.lmacId = m ∧ iface.ndev = true ∧ iface.txCache ac ≠ []
  reset : ∀ k < (p.txl m).nrTxq, ((p.txl m).tx k).reset = true
  acQlen : p.acQlen = 0 → (p.txl m).nrTxq = 0
  currentQlen : (p.txl m).nrTxq = 0 → (p.txl m).currentQlen = 0
  placed : ∀ n ∈ ns, ∀ iface, p.iface n = some iface → iface.lmacId = m → iface.ndev = true →
    iface.txCache ac ≠ [] → ∃ k < (p.txl m).nrTxq, ((p.txl m).tx k).list = n

/-- The next interface leaves lmac `m` as it is, unless it has frames for it. -/
theorem Filled.same (h : Filled p₀ p ac m ns) (hn : n ∉ ns) (q : TxPass)
    (hi : q.iface = Function.update p.iface n ((p₀.iface n).map (prepared ac)))
    (hl : q.txl m = p.txl m) (hq : q.acQlen = 0 → p.acQlen = 0)
    (hno : ∀ iface, (p₀.iface n).map (prepared ac) = some iface → iface.lmacId = m →
      iface.ndev = true → iface.txCache ac ≠ [] → False) :
    Filled p₀ q ac m (ns ++ [n]) := by
  constructor
  · intro k
    rw [hi, Function.update_apply]
    by_cases hk : k = n
    · simp [hk]
    · simp [hk, h.iface k]
  · rw [hl, List.length_append]
    exact h.places.trans (Nat.le_add_right _ _)
  · rw [hl]
    exact h.bits
  · intro k hk
    rw [hl] at hk ⊢
    obtain ⟨hmem, hown⟩ := h.owner k hk
    refine ⟨List.mem_append_left _ hmem, ?_⟩
    have hne : ((p.txl m).tx k).list ≠ n := by
      intro he
      rw [he] at hmem
      exact hn hmem
    rw [hi, Function.update_of_ne hne]
    exact hown
  · rw [hl]
    exact h.reset
  · rw [hl]
    exact fun h0 => h.acQlen (hq h0)
  · rw [hl]
    exact h.currentQlen
  · intro k hk iface hki hm hndev hc
    rw [hl]
    rw [hi, Function.update_apply] at hki
    rcases List.mem_append.mp hk with hmem | hmem
    · rw [if_neg (fun he : k = n => hn (he ▸ hmem))] at hki
      exact h.placed k hmem iface hki hm hndev hc
    · rw [if_pos (List.mem_singleton.mp hmem)] at hki
      exact (hno iface hki hm hndev hc).elim

/-- An interface with frames for lmac `m` takes the next place. -/
theorem Filled.add (h : Filled p₀ p ac m ns) (hn : n ∉ ns) (hlen : ns.length < 16) (q : TxPass)
    {iface : TxIface} (factor : BitVec 8) (qlen : ℕ)
    (hprep : (p₀.iface n).map (prepared ac) = some iface)
    (hi : q.iface = Function.update p.iface n (some iface))
    (hl : q.txl m = (p.txl m).addQueue ac n factor qlen) (hq : q.acQlen ≠ 0) (hm : iface.lmacId = m)
    (hndev : iface.ndev = true) (hc : iface.txCache ac ≠ []) :
    Filled p₀ q ac m (ns ++ [n]) := by
  have hplaces := h.places
  have hlist : ∀ k, ((q.txl m).tx k).list =
      if k = (p.txl m).nrTxq then n else ((p.txl m).tx k).list := by
    intro k
    rw [hl]
    simp only [TxLmac.addQueue, Function.update_apply]
    split_ifs <;> rfl
  have hnr : (q.txl m).nrTxq = (p.txl m).nrTxq + 1 := by rw [hl]; rfl
  have hold : ∀ k < (p.txl m).nrTxq, ((q.txl m).tx k).list = ((p.txl m).tx k).list := by
    intro k hk
    rw [hlist, if_neg hk.ne]
  constructor
  · intro k
    rw [hi, Function.update_apply]
    by_cases hk : k = n
    · simp [hk, hprep]
    · simp [hk, h.iface k]
  · rw [hnr, List.length_append]
    exact Nat.succ_le_succ hplaces
  · intro k
    rw [hnr, hl]
    simp only [TxLmac.addQueue, BitVec.getLsbD_or, BitVec.getLsbD_twoPow, Bool.or_eq_true,
      Bool.and_eq_true, decide_eq_true_eq, h.bits]
    omega
  · intro k hk
    rw [hnr] at hk
    rcases Nat.lt_succ_iff_lt_or_eq.mp hk with hlt | heq
    · obtain ⟨hmem, hown⟩ := h.owner k hlt
      have hne : ((p.txl m).tx k).list ≠ n := by
        intro he
        rw [he] at hmem
        exact hn hmem
      rw [hold k hlt, hi, Function.update_of_ne hne]
      exact ⟨List.mem_append_left _ hmem, hown⟩
    · rw [hlist, if_pos heq, hi, Function.update_self]
      exact ⟨List.mem_append_right _ List.mem_cons_self, iface, rfl, hm, hndev, hc⟩
  · intro k hk
    rw [hnr] at hk
    rw [hl]
    simp only [TxLmac.addQueue]
    rcases Nat.lt_succ_iff_lt_or_eq.mp hk with hlt | heq
    · rw [Function.update_of_ne hlt.ne]
      exact h.reset k hlt
    · rw [heq, Function.update_self]
  · exact fun h0 => absurd h0 hq
  · intro h0
    rw [hnr] at h0
    exact absurd h0 (Nat.succ_ne_zero _)
  · intro k hk i hki him hnd hci
    rw [hi, Function.update_apply] at hki
    rw [hnr]
    by_cases hkn : k = n
    · exact ⟨(p.txl m).nrTxq, Nat.lt_succ_self _, by rw [hlist, if_pos rfl, hkn]⟩
    · rw [if_neg hkn] at hki
      have hmem := (List.mem_append.mp hk).resolve_right fun hs => hkn (List.mem_singleton.mp hs)
      obtain ⟨j, hj, hjk⟩ := h.placed k hmem i hki him hnd hci
      exact ⟨j, Nat.lt_succ_of_lt hj, (hold j hj).trans hjk⟩

theorem Filled.concat (h : Filled p₀ p ac m ns) (hn : n ∉ ns) (hlen : ns.length < 16) :
    Filled p₀ (p.prepareIface ac n) ac m (ns ++ [n]) := by
  have hpn : p.iface n = p₀.iface n := by rw [h.iface, if_neg hn]
  unfold prepareIface
  cases hi : p₀.iface n with
  | none =>
    rw [hpn, hi]
    refine h.same hn p ?_ rfl id (fun iface hi' => by simp [hi] at hi')
    rw [hi, Option.map_none, ← hi, ← hpn, Function.update_eq_self]
  | some iface =>
    obtain ⟨hid, hnd⟩ := iface.prepare_ids ac
    rw [hpn, hi]
    dsimp only
    by_cases hndev : iface.ndev = false
    · rw [if_pos hndev]
      refine h.same hn p ?_ rfl id ?_
      · rw [hi, Option.map_some, prepared, if_pos hndev, ← hi, ← hpn, Function.update_eq_self]
      · intro i hi' _ hnd' _
        rw [hi, Option.map_some, prepared, if_pos hndev] at hi'
        rw [← Option.some.inj hi', hndev] at hnd'
        cases hnd'
    · have hprep : (p₀.iface n).map (prepared ac) = some (iface.prepare ac).1 := by
        rw [hi, Option.map_some, prepared, if_neg hndev]
      rw [if_neg hndev]
      by_cases hq : ((iface.prepare ac).1.txCache ac).length = 0
      · rw [if_pos hq]
        refine h.same hn _ (by rw [hprep]) rfl (fun h0 => (Nat.add_eq_zero_iff.mp h0).1) ?_
        intro i hi' _ _ hc
        rw [hprep] at hi'
        rw [← Option.some.inj hi'] at hc
        exact hc (List.eq_nil_of_length_eq_zero hq)
      · rw [if_neg hq]
        by_cases hm : iface.lmacId = m
        · have hnd' : iface.ndev = true := by simpa using hndev
          refine h.add hn hlen _ (iface.factor ac) ((iface.prepare ac).1.txCache ac).length hprep
            rfl ?_ (fun h0 => hq (Nat.add_eq_zero_iff.mp h0).2) (hid.trans hm) (hnd.trans hnd')
            (fun hnil => hq (congrArg List.length hnil))
          simp only [hm, Function.update_self]
        · refine h.same hn _ (by rw [hprep]) (Function.update_of_ne (Ne.symm hm) _ _)
            (fun h0 => (Nat.add_eq_zero_iff.mp h0).1) ?_
          intro i hi' him _ _
          rw [hprep] at hi'
          rw [← Option.some.inj hi', hid] at him
          exact hm him

theorem filled_txqPrepare (p : TxPass) (ac : WmmAc) (h : p.Fresh m) :
    Filled p (p.txqPrepare ac) ac m (List.finRange SKW_NR_IFACE) := by
  have hfold : ∀ ns : List IfaceId, ns.Nodup → ns.length ≤ 16 →
      Filled p (ns.foldl (prepareIface ac) { p with acQlen := 0 }) ac m ns := by
    intro ns
    induction ns using List.reverseRecOn with
    | nil =>
      intro _ _
      have hnr : ∀ k, ¬k < (p.txl m).nrTxq := by simp [h.nrTxq]
      refine ⟨fun n => by simp, h.nrTxq.le, fun k => ?_, fun k hk => absurd hk (hnr k),
        fun k hk => absurd hk (hnr k), fun _ => h.nrTxq, fun _ => h.currentQlen,
        fun n hn => absurd hn List.not_mem_nil⟩
      show (p.txl m).txqMap.getLsbD k = true ↔ k < (p.txl m).nrTxq
      simp [h.txqMap, h.nrTxq]
    | append_singleton ns n ih =>
      intro hnd hlen
      rw [List.length_append, List.length_singleton] at hlen
      obtain ⟨hnodup, -, hdisj⟩ := List.nodup_append.mp hnd
      have hn : n ∉ ns := fun hmem => hdisj n hmem n List.mem_cons_self rfl
      rw [List.foldl_append]
      exact (ih hnodup (by omega)).concat hn (by omega)
  refine hfold _ (List.nodup_finRange _) ?_
  rw [List.length_finRange]
  decide

theorem txqPrepare_iface (p : TxPass) (ac : WmmAc) (h : p.Fresh m) (n : IfaceId) :
    (p.txqPrepare ac).iface n = (p.iface n).map (prepared ac) := by
  rw [(filled_txqPrepare p ac h).iface n, if_pos (List.mem_finRange n)]

theorem held_txqPrepare (p : TxPass) (ac : WmmAc) (h : p.Fresh m) :
    (p.txqPrepare ac).Held ac m := by
  have hf := filled_txqPrepare p ac h
  refine ⟨?_, hf.bits, fun k hk => (hf.owner k hk).2, hf.reset, hf.currentQlen,
    fun n => hf.placed n (List.mem_finRange n)⟩
  simpa using hf.places

/-- Where no frame of the category is queued the maps stay empty. -/
theorem nrTxq_of_acQlen (h : p.Fresh m) (h0 : (p.txqPrepare ac).acQlen = 0) :
    ((p.txqPrepare ac).txl m).nrTxq = 0 :=
  (filled_txqPrepare p ac h).acQlen h0

/-- Prepared, an lmac can enter its loop. -/
theorem Held.entered (h : p.Held ac m) : (p.txl m).Entered :=
  ⟨h.places, fun k hk => ⟨(h.bits k).mp hk, h.reset k ((h.bits k).mp hk)⟩⟩

end TxPass
end Skw
