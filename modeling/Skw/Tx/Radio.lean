import Skw.Tx.Own

/-! One pass of `skw_tx_worker` through the access categories. The lmacs are served one after the
other in each category, and the pass ends with the first one that leaves no lmac served in it any
credit. -/
namespace Skw

abbrev SKW_BASE_VO : CInt := 16
abbrev SKW_BASE_VI : CInt := 24

/-- What the pass finds in the rest of the driver: the credit of each lmac when it is read, and what
the turns of its loop see. -/
structure TxEnv where
  credit : WmmAc → ℕ → CInt
  view : WmmAc → ℕ → ℕ → TxView

def minInt (a b : CInt) : CInt := if b.slt a then b else a

namespace TxLmac

/-- The `base` of an access category, before it is made 1 where it is 0. -/
def acBase (l : TxLmac) : WmmAc → CInt
  | .vo => SKW_BASE_VO
  | .vi => SKW_BASE_VI
  | .bk =>
    (if l.bkTxLimit = 0 then l.cred else minInt l.cred l.bkTxLimit).sdiv (BitVec.ofNat 32 l.nrTxq)
  | .be => minInt l.cred l.currentQlen

/-- The share of background traffic is used up by it and set by best effort. -/
def acBkTxLimit (l : TxLmac) : WmmAc → CInt
  | .bk => 0
  | .be => (l.cred + 1).sshiftRight 1
  | _ => l.bkTxLimit

def txBase (l : TxLmac) (ac : WmmAc) : CInt :=
  if l.reset then (if l.acBase ac = 0 then 1 else l.acBase ac) else 0

/-- The lmac when its loop is entered. -/
def based (l : TxLmac) (ac : WmmAc) : TxLmac :=
  if l.reset then { l with bkTxLimit := l.acBkTxLimit ac, reset := false } else l

/-- The statements at the label `reset`. -/
def atReset (l : TxLmac) : TxLmac := { l with nrTxq := 0, txqMap := 0, currentQlen := 0 }

end TxLmac

namespace TxPass

def setLmac (p : TxPass) (mac : ℕ) (l : TxLmac) : TxPass :=
  { p with txl := Function.update p.txl mac l }

/-- The queues of an access category. -/
def cache (p : TxPass) (ac : WmmAc) (n : IfaceId) : List TxqSkb :=
  match p.iface n with
  | some iface => iface.txCache ac
  | none => []

def setCache (p : TxPass) (ac : WmmAc) (c : IfaceId → List TxqSkb) : TxPass :=
  { p with
    iface := fun n => (p.iface n).map fun iface =>
      { iface with txCache := Function.update iface.txCache ac (c n) } }

end TxPass

/-- What an lmac was served in an access category: the frames given to `skw_bus_data_xmit`, and
whether its bit is set in `lmac_tx_capa`. -/
structure TxServed where
  pass : TxPass
  sent : List TxqSkb
  capa : Bool

/-- The pass, the frames that each lmac sent in it, and `lmac_tx_capa`. -/
structure TxRound where
  pass : TxPass
  sent : ℕ → List TxqSkb
  capa : CInt

namespace TxRound
variable (hw : TxHw) (env : TxEnv) (limit : CInt)

/-- The loop of an lmac as it is entered in an access category. -/
def entered (ac : WmmAc) (mac : ℕ) (p : TxPass) : TxSched :=
  TxSched.enter ({ p.txl mac with cred := env.credit ac mac }.based ac) (p.cache ac)

/-- That loop at its end. -/
def scheduled (ac : WmmAc) (mac : ℕ) (p : TxPass) : TxSched :=
  TxSched.loop hw ({ p.txl mac with cred := env.credit ac mac }.txBase ac) (env.view ac mac)
    (entered env ac mac p)

/-- The body of the loop over the lmacs. -/
def serve (ac : WmmAc) (mac : ℕ) (p : TxPass) : TxServed :=
  let l := p.txl mac
  if l.txqMap = 0 then ⟨p.setLmac mac l.atReset, [], false⟩
  else if env.credit ac mac = 0 then
    ⟨p.setLmac mac { l with cred := env.credit ac mac }.atReset, [], false⟩
  else
    let t := scheduled hw env ac mac p
    let l :=
      { t.lmac with
        pendingQlen := t.lmac.currentQlen - env.credit ac mac + t.lmac.cred
        txCountLimit := limit }
    { pass := { (p.setCache ac t.cache).setLmac mac l.atReset with freed := p.freed ++ t.freed }
      sent := t.txList
      capa := t.lmac.cred != 0 }

def serveOne (ac : WmmAc) (r : TxRound) (mac : ℕ) : TxRound :=
  let t := serve hw env limit ac mac r.pass
  { pass := t.pass
    sent := Function.update r.sent mac (r.sent mac ++ t.sent)
    capa := if t.capa then r.capa ||| BitVec.twoPow 32 mac else r.capa }

def serveAll (ac : WmmAc) (r : TxRound) : TxRound :=
  (List.range hw.nrLmac).foldl (serveOne hw env limit ac) { r with capa := 0 }

/-- The loop over the access categories. -/
def run : List WmmAc → TxRound → TxRound
  | [], r => r
  | ac :: acs, r =>
    let p := r.pass.txqPrepare ac
    if p.acQlen = 0 then run acs { r with pass := p }
    else
      let r := serveAll hw env limit ac { r with pass := p }
      if r.capa = 0 then r else run acs r

/-- The access categories in their order. -/
def acs : List WmmAc := [.vo, .vi, .be, .bk]

def start (p : TxPass) : TxRound := ⟨p, fun _ => [], 0⟩

/-- The frames that each lmac sends in a pass. -/
def sentBy (p : TxPass) (mac : ℕ) : List TxqSkb := (run hw env limit acs (start p)).sent mac

end TxRound

/-! What is an lmac's own. -/

namespace TxPass

/-- The state of the interfaces of an lmac and its own one. -/
def only (m : ℕ) (p : TxPass) : TxPass where
  iface n := (p.iface n).filter fun iface => iface.lmacId = m
  txl := Function.update (fun _ => TxLmac.zero) m (p.txl m)
  acQlen := 0
  freed := []

end TxPass

def TxView.only (m : ℕ) (v : TxView) : TxView where
  available := v.available
  entry mac idx := if mac = m then v.entry mac idx else none

def TxEnv.only (m : ℕ) (env : TxEnv) : TxEnv where
  credit ac _ := env.credit ac m
  view ac _ k := (env.view ac m k).only m

namespace TxRound
variable (hw : TxHw) (env : TxEnv) (limit : CInt)

/-- The frames that lmac `m` sends where it is served in every category. -/
def ownRun (m : ℕ) : List WmmAc → TxPass → List TxqSkb
  | [], _ => []
  | ac :: acs, p =>
    let t := serve hw env limit ac m (p.txqPrepare ac)
    t.sent ++ ownRun m acs t.pass

end TxRound

namespace TxPass
variable {p q : TxPass} {ac b : WmmAc} {m mac j : ℕ} {n : IfaceId} {iface : TxIface}

@[simp] theorem only_txl_self (m : ℕ) (p : TxPass) : (p.only m).txl m = p.txl m := by
  simp [only]

theorem txl_of_only (h : p.only m = q.only m) : p.txl m = q.txl m := by
  rw [← only_txl_self m p, h, only_txl_self]

theorem iface_of_only (h : p.only m = q.only m) (hi : p.iface n = some iface)
    (hm : iface.lmacId = m) : q.iface n = some iface := by
  have hn : (p.iface n).filter (fun iface => iface.lmacId = m) =
      (q.iface n).filter fun iface => iface.lmacId = m := congrFun (congrArg TxPass.iface h) n
  rw [hi, Option.filter_some, if_pos (by simpa using hm)] at hn
  exact (Option.filter_eq_some_iff.mp hn.symm).1

/-- Two states show lmac `m` the same where its interfaces and its own state agree. -/
theorem only_congr (hi : ∀ n, (p.iface n).filter (fun iface => iface.lmacId = m) =
    (q.iface n).filter fun iface => iface.lmacId = m) (hl : p.txl m = q.txl m) :
    p.only m = q.only m := by
  unfold only
  rw [hl]
  congr 1
  exact funext hi

@[simp] theorem only_only (m : ℕ) (p : TxPass) : (p.only m).only m = p.only m := by
  apply only_congr
  · intro n
    simp [only, Option.filter_filter]
  · simp

/-- An interface is prepared by itself, for its own lmac. -/
theorem only_prepareIface (m : ℕ) (ac : WmmAc) (p : TxPass) (n : IfaceId) :
    (p.prepareIface ac n).only m = ((p.only m).prepareIface ac n).only m := by
  cases hi : p.iface n with
  | none =>
    have ho : (p.only m).iface n = none := by simp [only, hi]
    simp only [prepareIface, hi, ho, only_only]
  | some iface =>
    obtain ⟨hid, -⟩ := iface.prepare_ids ac
    by_cases hm : iface.lmacId = m
    · have ho : (p.only m).iface n = some iface := by simp [only, hi, hm]
      simp only [prepareIface, hi, ho]
      split_ifs with hndev hq
      · rw [only_only]
      · apply only_congr
        · intro k
          simp only [Function.update_apply]
          split_ifs with hk
          · rfl
          · simp [only, Option.filter_filter]
        · simp
      · apply only_congr
        · intro k
          simp only [Function.update_apply]
          split_ifs with hk
          · rfl
          · simp [only, Option.filter_filter]
        · simp [hm]
    · have ho : (p.only m).iface n = none := by simp [only, hi, hm]
      have hother : ∀ k, (Function.update p.iface n (some (iface.prepare ac).1) k).filter
          (fun iface => iface.lmacId = m) = (p.iface k).filter fun iface => iface.lmacId = m := by
        intro k
        rw [Function.update_apply]
        split_ifs with hk
        · rw [hk, hi, Option.filter_some, Option.filter_some, hid]
          simp [hm]
        · rfl
      simp only [prepareIface, hi, ho, only_only]
      split_ifs with hndev hq
      · rfl
      · exact only_congr hother rfl
      · exact only_congr hother (Function.update_of_ne (Ne.symm hm) _ _)

theorem only_txqPrepare (h : p.only m = q.only m) (ac : WmmAc) :
    (p.txqPrepare ac).only m = (q.txqPrepare ac).only m := by
  have hfold : ∀ (ns : List IfaceId) (p q : TxPass), p.only m = q.only m →
      (ns.foldl (prepareIface ac) p).only m = (ns.foldl (prepareIface ac) q).only m := by
    intro ns
    induction ns with
    | nil => exact fun p q h => h
    | cons n ns ih =>
      intro p q h
      apply ih
      rw [only_prepareIface, h, ← only_prepareIface]
  exact hfold _ _ _ h

/-- What `Held` says is about the lmac's own part of the state. -/
theorem Held.of_only (h : p.Held ac m) (ho : p.only m = q.only m) : q.Held ac m := by
  have hl := txl_of_only ho
  refine ⟨hl ▸ h.places, hl ▸ h.bits, fun k hk => ?_, hl ▸ h.reset, hl ▸ h.currentQlen,
    fun n iface hi hm hnd hc => ?_⟩
  · rw [← hl] at hk ⊢
    obtain ⟨iface, hi, hm, hrest⟩ := h.owner k hk
    exact ⟨iface, iface_of_only ho hi hm, hm, hrest⟩
  · rw [← hl]
    exact h.placed n iface (iface_of_only ho.symm hi hm) hm hnd hc

theorem Fresh.of_only (h : p.Fresh m) (ho : p.only m = q.only m) : q.Fresh m := by
  have hl := txl_of_only ho
  exact ⟨hl ▸ h.nrTxq, hl ▸ h.txqMap, hl ▸ h.currentQlen⟩

/-- Interface `n` is one of lmac `m`. -/
def Owner (p : TxPass) (m : ℕ) (n : IfaceId) : Prop :=
  ∃ iface, p.iface n = some iface ∧ iface.lmacId = m

theorem cache_of_only (h : p.only m = q.only m) (hn : p.Owner m n) : q.cache ac n = p.cache ac n := by
  obtain ⟨iface, hi, hm⟩ := hn
  have hq := iface_of_only h hi hm
  simp only [cache, hi, hq]

/-- The queues of the other interfaces are put back as they were. -/
theorem filter_setCache (p : TxPass) (ac : WmmAc) {c d : IfaceId → List TxqSkb}
    (h : p.only m = q.only m) (hc : ∀ n, p.Owner m n → c n = d n) (n : IfaceId) :
    ((p.setCache ac c).iface n).filter (fun iface => iface.lmacId = m) =
      ((q.setCache ac d).iface n).filter fun iface => iface.lmacId = m := by
  have hn : (p.iface n).filter (fun iface => iface.lmacId = m) =
      (q.iface n).filter fun iface => iface.lmacId = m := congrFun (congrArg TxPass.iface h) n
  simp only [setCache, Option.filter_map]
  have hcomp : ∀ c : List TxqSkb, (fun iface : TxIface => decide (iface.lmacId = m)) ∘
      (fun iface : TxIface => { iface with txCache := Function.update iface.txCache ac c }) =
        fun iface => decide (iface.lmacId = m) := fun c => rfl
  rw [hcomp, hcomp, hn]
  cases hq : (q.iface n).filter fun iface => iface.lmacId = m with
  | none => rfl
  | some iface =>
    rw [hq] at hn
    obtain ⟨hp, hm⟩ := Option.filter_eq_some_iff.mp hn
    rw [Option.map_some, Option.map_some, hc n ⟨iface, hp, by simpa using hm⟩]

end TxPass

namespace TxRound
open TxPass TxLmac TxSched
variable {hw : TxHw} {env env' : TxEnv} {limit : CInt} {p q : TxPass} {ac b : WmmAc} {m mac : ℕ}

theorem based_fields (l : TxLmac) (ac : WmmAc) : (l.based ac).txqMap = l.txqMap ∧
    (l.based ac).nrTxq = l.nrTxq ∧ (l.based ac).tx = l.tx ∧ (l.based ac).cred = l.cred ∧
      (l.based ac).txCountLimit = l.txCountLimit := by
  unfold based
  split_ifs
  · exact ⟨rfl, rfl, rfl, rfl, rfl⟩
  · exact ⟨rfl, rfl, rfl, rfl, rfl⟩

theorem owns_entered (h : p.Held ac m) (env : TxEnv) :
    (entered env ac m p).lmac.Owns (p.Owner m) := by
  intro k hk
  obtain ⟨hmap, hnr, htx, -⟩ := based_fields { p.txl m with cred := env.credit ac m } ac
  have hk : ({ p.txl m with cred := env.credit ac m }.based ac).txqMap.getLsbD k = true := hk
  rw [hmap] at hk
  obtain ⟨iface, hi, hm, -⟩ := h.owner k ((h.bits k).mp hk)
  show p.Owner m (({ p.txl m with cred := env.credit ac m }.based ac).tx k).list
  rw [htx]
  exact ⟨iface, hi, hm⟩

theorem placed_entered (h : p.Held ac m) (env : TxEnv) : Placed (entered env ac m p).lmac := by
  intro k hk
  obtain ⟨hmap, hnr, -⟩ := based_fields { p.txl m with cred := env.credit ac m } ac
  have hk : ({ p.txl m with cred := env.credit ac m }.based ac).txqMap.getLsbD k = true := hk
  show k < ({ p.txl m with cred := env.credit ac m }.based ac).nrTxq
  rw [hmap] at hk
  rw [hnr]
  exact (h.bits k).mp hk

/-- The environments are the same as far as lmac `m` and the frames of its queues go. -/
structure SameFor (hw : TxHw) (env env' : TxEnv) (ac : WmmAc) (m : ℕ) (p : TxPass) : Prop where
  credit : env'.credit ac m = env.credit ac m
  available : ∀ k, (env'.view ac m k).available = (env.view ac m k).available
  peers : ∀ k n, p.Owner m n → ∀ f ∈ p.cache ac n,
    isSkwPeerDataValid hw (env'.view ac m k) f = isSkwPeerDataValid hw (env.view ac m k) f

theorem SameFor.refl (hw : TxHw) (env : TxEnv) (ac : WmmAc) (m : ℕ) (p : TxPass) :
    SameFor hw env env ac m p :=
  ⟨rfl, fun _ => rfl, fun _ _ _ _ _ => rfl⟩

/-- The loop of an lmac ends the same in states that show it the same. -/
theorem scheduled_agrees (h : p.only m = q.only m) (hp : p.Held ac m)
    (he : SameFor hw env env' ac m p) :
    Agrees (p.Owner m) (scheduled hw env ac m p) (scheduled hw env' ac m q) := by
  have hl := txl_of_only h
  have hent : entered env' ac m q = { entered env ac m p with cache := q.cache ac } := by
    unfold entered
    rw [he.credit, ← hl]
    rfl
  unfold scheduled
  rw [hent, ← hl, he.credit]
  exact agrees_loop (placed_entered hp env) (fun n hn => cache_of_only h hn) (owns_entered hp env)
    he.available he.peers

/-- An lmac is served by what is its own. -/
theorem serve_of_only (h : p.only m = q.only m) (hp : p.Held ac m)
    (he : SameFor hw env env' ac m p) (limit : CInt) :
    (serve hw env' limit ac m q).sent = (serve hw env limit ac m p).sent ∧
      (serve hw env' limit ac m q).capa = (serve hw env limit ac m p).capa ∧
        (serve hw env limit ac m p).pass.only m = (serve hw env' limit ac m q).pass.only m := by
  have hl := txl_of_only h
  have hi : ∀ n, (p.iface n).filter (fun iface => iface.lmacId = m) =
      (q.iface n).filter fun iface => iface.lmacId = m := fun n => congrFun (congrArg iface h) n
  obtain ⟨c, hc, hsched⟩ := scheduled_agrees h hp he
  unfold serve
  rw [he.credit, ← hl, hsched]
  dsimp only
  split_ifs with hmap hcred
  · exact ⟨rfl, rfl, only_congr hi (by simp [setLmac])⟩
  · exact ⟨rfl, rfl, only_congr hi (by simp [setLmac])⟩
  · refine ⟨rfl, rfl, only_congr ?_ (by simp [setLmac])⟩
    exact filter_setCache p ac h fun n hn => (hc n hn).symm

/-- Serving one lmac leaves the others as they are. -/
theorem serve_only_of_ne (hp : p.Held ac mac) (hm : m ≠ mac) :
    (serve hw env limit ac mac p).pass.only m = p.only m := by
  unfold serve
  dsimp only
  split_ifs with hmap hcred
  · exact only_congr (fun n => rfl) (Function.update_of_ne hm _ _)
  · exact only_congr (fun n => rfl) (Function.update_of_ne hm _ _)
  · refine only_congr (fun n => ?_) (Function.update_of_ne hm _ _)
    have hsame : ∀ n, p.Owner m n → (scheduled hw env ac mac p).cache n = p.cache ac n := by
      intro n ho
      apply cache_turns_of_not_own (owns_entered hp env)
      intro ho'
      obtain ⟨iface, hi, hid⟩ := ho
      obtain ⟨iface', hi', hid'⟩ := ho'
      rw [hi] at hi'
      cases hi'
      exact hm (hid.symm.trans hid')
    have hput : (p.setCache ac (p.cache ac)).iface n = p.iface n := by
      cases hi : p.iface n with
      | none => simp [setCache, hi]
      | some iface => simp [setCache, TxPass.cache, hi]
    rw [← hput]
    exact filter_setCache p ac rfl hsame n

theorem fresh_serve (hw : TxHw) (env : TxEnv) (limit : CInt) (ac : WmmAc) (m : ℕ) (p : TxPass) :
    (serve hw env limit ac m p).pass.Fresh m := by
  unfold serve
  dsimp only
  split_ifs with hmap hcred
  · constructor <;> simp [setLmac, atReset]
  · constructor <;> simp [setLmac, atReset]
  · constructor <;> simp [setLmac, atReset]

/-- Serving an lmac in one category leaves the queues of the other categories alone. -/
theorem serve_keeps (hw : TxHw) (env : TxEnv) (limit : CInt) (m : ℕ) {n : IfaceId}
    {iface : TxIface} (h : p.iface n = some iface) (hb : b ≠ ac) :
    ∃ iface', (serve hw env limit ac m p).pass.iface n = some iface' ∧ iface.Keeps b iface' := by
  unfold serve
  dsimp only
  split_ifs with hmap hcred
  · exact ⟨iface, h, .refl b iface⟩
  · exact ⟨iface, h, .refl b iface⟩
  · refine ⟨{ iface with
      txCache := Function.update iface.txCache ac ((scheduled hw env ac m p).cache n) }, ?_, ?_⟩
    · simp [setLmac, setCache, h]
    · exact ⟨rfl, rfl, rfl, rfl, Function.update_of_ne hb _ _, fun _ => rfl⟩

/-- The lmacs below `n` have been served, each by what is its own. -/
theorem foldl_serveOne (env : TxEnv) (limit : CInt) (hr : ∀ mac < hw.nrLmac, p.Held ac mac)
    (sent : ℕ → List TxqSkb) (n : ℕ) (hn : n ≤ hw.nrLmac) (mac : ℕ) :
    let r := (List.range n).foldl (serveOne hw env limit ac) ⟨p, sent, 0⟩
    if mac < n then
      r.sent mac = sent mac ++ (serve hw env limit ac mac p).sent ∧
        r.pass.only mac = (serve hw env limit ac mac p).pass.only mac
    else r.sent mac = sent mac ∧ r.pass.only mac = p.only mac := by
  induction n generalizing mac with
  | zero => exact ⟨rfl, rfl⟩
  | succ n ih =>
    have ih := ih (by omega)
    rw [List.range_succ, List.foldl_append]
    generalize (List.range n).foldl (serveOne hw env limit ac) ⟨p, sent, 0⟩ = r at ih
    have hself := ih n
    rw [if_neg (lt_irrefl n)] at hself
    have hheld : r.pass.Held ac n := (hr n (by omega)).of_only hself.2.symm
    have hserve := serve_of_only hself.2.symm (hr n (by omega)) (SameFor.refl hw env ac n p) limit
    simp only [List.foldl_cons, List.foldl_nil, serveOne]
    by_cases hmn : mac = n
    · subst hmn
      rw [if_pos (Nat.lt_succ_self mac), Function.update_self, hself.1, hserve.1]
      exact ⟨rfl, hserve.2.2.symm⟩
    · rw [Function.update_of_ne hmn, serve_only_of_ne hheld hmn]
      have := ih mac
      by_cases hlt : mac < n
      · rw [if_pos hlt] at this
        rwa [if_pos (Nat.lt_succ_of_lt hlt)]
      · rw [if_neg hlt] at this
        rwa [if_neg (by omega)]

theorem serveAll_spec (env : TxEnv) (limit : CInt) {r : TxRound}
    (hr : ∀ mac < hw.nrLmac, r.pass.Held ac mac)
    (hm : m < hw.nrLmac) :
    (serveAll hw env limit ac r).sent m = r.sent m ++ (serve hw env limit ac m r.pass).sent ∧
      (serveAll hw env limit ac r).pass.only m =
        (serve hw env limit ac m r.pass).pass.only m := by
  have hfold := foldl_serveOne env limit hr r.sent hw.nrLmac le_rfl m
  simp only [if_pos hm] at hfold
  exact hfold

end TxRound

namespace TxPass
variable {p q : TxPass} {ac b : WmmAc} {m : ℕ} {f : TxqSkb}

/-- Frame `f` is queued for lmac `m` in category `b`. -/
def Queued (p : TxPass) (b : WmmAc) (m : ℕ) (f : TxqSkb) : Prop :=
  ∃ n iface, p.iface n = some iface ∧ iface.lmacId = m ∧ iface.ndev = true ∧ f ∈ iface.queue b

theorem Queued.of_only (h : p.Queued b m f) (ho : p.only m = q.only m) : q.Queued b m f := by
  obtain ⟨n, iface, hi, hm, hrest⟩ := h
  exact ⟨n, iface, iface_of_only ho hi hm, hm, hrest⟩

/-- Going through one category leaves the frames of the others queued. -/
theorem Queued.txqPrepare (h : p.Queued b m f) (hf : p.Fresh m) (hb : b ≠ ac) :
    (p.txqPrepare ac).Queued b m f := by
  obtain ⟨n, iface, hi, hm, hnd, hmem⟩ := h
  have hkeeps : iface.Keeps b (prepared ac iface) := by
    unfold prepared
    split_ifs
    · exact .refl b iface
    · exact iface.prepare_keeps hb
  refine ⟨n, prepared ac iface, ?_, hkeeps.lmacId.trans hm, hkeeps.ndev.trans hnd, ?_⟩
  · rw [txqPrepare_iface p ac hf, hi, Option.map_some]
  · rwa [hkeeps.queue]

theorem Queued.of_txqPrepare (h : (p.txqPrepare ac).Queued b m f) (hf : p.Fresh m) (hb : b ≠ ac) :
    p.Queued b m f := by
  obtain ⟨n, iface, hi, hm, hnd, hmem⟩ := h
  rw [txqPrepare_iface p ac hf] at hi
  obtain ⟨iface, hp, rfl⟩ := Option.map_eq_some_iff.mp hi
  have hkeeps : iface.Keeps b (prepared ac iface) := by
    unfold prepared
    split_ifs
    · exact .refl b iface
    · exact iface.prepare_keeps hb
  refine ⟨n, iface, hp, hkeeps.lmacId ▸ hm, hkeeps.ndev ▸ hnd, ?_⟩
  rwa [← hkeeps.queue]

end TxPass

namespace TxRound
open TxPass TxLmac TxSched

section
variable (hw : TxHw) (env : TxEnv) (limit : CInt)

/-- Lmac `m` has frames in category `b`, credit, and room for a frame at the first look. -/
def Waiting (p : TxPass) (b : WmmAc) (m : ℕ) : Prop :=
  (∃ f, p.Queued b m f) ∧ env.credit b m ≠ 0 ∧ skwVringCheck hw (env.view b m 0) [] = false

/-- Lmac `m` has credit, room for a frame at every look and a frame that its own peer entries never
forbid to send. -/
def Ready (p : TxPass) (b : WmmAc) (m : ℕ) : Prop :=
  0 < (env.credit b m).toInt ∧ (∀ k, skwVringCheck hw (env.view b m k) [] = false) ∧
    ∃ f, p.Queued b m f ∧ ∀ k, isSkwPeerDataValid hw ((env.view b m k).only m) f = true

/-- The lmac is served by its own state: no entry of another lmac forbids its frames, and neither
its limit nor a quota is 0 once it is topped up. -/
structure Plain (ac : WmmAc) (m : ℕ) (p : TxPass) : Prop where
  peers : ∀ k n, p.Owner m n → ∀ f ∈ p.cache ac n,
    isSkwPeerDataValid hw ((env.view ac m k).only m) f = isSkwPeerDataValid hw (env.view ac m k) f
  limit : env.credit ac m ≠ 0 → (p.txl m).txCountLimit ≠ 0
  quota : env.credit ac m ≠ 0 → ∀ k, (p.txl m).txqMap.getLsbD k = true →
    (((p.txl m).tx k).topUp ({ p.txl m with cred := env.credit ac m }.txBase ac)).quota ≠ 0

/-- Every lmac is served by its own state, and where the pass ends early none has frames, credit and
room in a category that it does not come to. -/
def Fair : List WmmAc → TxRound → Prop
  | [], _ => True
  | ac :: acs, r =>
    let p := r.pass.txqPrepare ac
    (∀ m < hw.nrLmac, Plain hw env ac m p) ∧
      if p.acQlen = 0 then Fair acs { r with pass := p }
      else
        let r := serveAll hw env limit ac { r with pass := p }
        if r.capa = 0 then ∀ b ∈ acs, ∀ m < hw.nrLmac, ¬Waiting hw env r.pass b m
        else Fair acs r

/-- Each lmac sends in a pass what it would send by itself, which is some frame where one waits that
it has credit and room for. -/
structure Isolated (p : TxPass) : Prop where
  own : ∀ m < hw.nrLmac,
    sentBy hw env limit p m = ownRun hw (env.only m) limit m acs (p.only m)
  progress : ∀ m < hw.nrLmac, ∀ b, Ready hw env p b m → sentBy hw env limit p m ≠ []

end

variable {hw : TxHw} {env : TxEnv} {limit : CInt} {p q : TxPass} {r : TxRound} {ac b : WmmAc}
  {m mac : ℕ} {acs : List WmmAc} {f : TxqSkb}

theorem Plain.sameFor (h : Plain hw env ac m p) : SameFor hw env (env.only m) ac m p :=
  ⟨rfl, fun _ => rfl, h.peers⟩

/-- With no frames, no credit or no room at the first look nothing is sent. -/
theorem sent_of_not_waiting (hf : p.Fresh m) (h : ¬Waiting hw env p ac m) :
    (serve hw env limit ac m (p.txqPrepare ac)).sent = [] := by
  have hheld := held_txqPrepare p ac hf
  unfold serve
  dsimp only
  split_ifs with hmap hcred
  · rfl
  · rfl
  · obtain ⟨k, hk⟩ := exists_place hmap
    have hpos : 0 < ((p.txqPrepare ac).txl m).nrTxq :=
      (Nat.zero_le k).trans_lt ((hheld.bits k).mp hk)
    obtain ⟨hfmap, hfnr, -⟩ :=
      based_fields { (p.txqPrepare ac).txl m with cred := env.credit ac m } ac
    have hqueued : ∃ f, p.Queued ac m f := by
      obtain ⟨iface, hi, hm, hnd, hne⟩ := hheld.owner 0 hpos
      rw [txqPrepare_iface p ac hf] at hi
      obtain ⟨iface, hp, rfl⟩ := Option.map_eq_some_iff.mp hi
      have hnd' : iface.ndev = true := by
        by_contra hnd'
        unfold prepared at hnd
        rw [if_pos (Bool.eq_false_of_not_eq_true hnd')] at hnd
        exact hnd' hnd
      unfold prepared at hm hne
      rw [if_neg (by simp [hnd'])] at hm hne
      obtain ⟨f, hmem⟩ := List.exists_mem_of_ne_nil _ hne
      exact ⟨f, _, iface, hp, (iface.prepare_ids ac).1.symm.trans hm, hnd', hmem⟩
    have hfull : skwVringCheck hw (env.view ac m 0) [] = true := by
      by_contra hfree
      exact h ⟨hqueued, hcred, Bool.eq_false_of_not_eq_true hfree⟩
    refine txList_loop_of_full ?_ hfull
    show ({ (p.txqPrepare ac).txl m with cred := env.credit ac m }.based ac).txqMap.getLsbD
      (0 % ({ (p.txqPrepare ac).txl m with cred := env.credit ac m }.based ac).nrTxq) = true
    rw [hfmap, hfnr, Nat.zero_mod]
    exact (hheld.bits 0).mpr hpos

/-- Where a frame waits with credit and room for it, some frame is sent. -/
theorem sent_of_ready (hf : p.Fresh m) (h : Ready hw env p ac m)
    (hplain : Plain hw env ac m (p.txqPrepare ac)) :
    (serve hw env limit ac m (p.txqPrepare ac)).sent ≠ [] := by
  have hheld := held_txqPrepare p ac hf
  obtain ⟨hcredit, hroom, f, ⟨n, iface, hi, hm, hnd, hmem⟩, hvalid⟩ := h
  have hc : env.credit ac m ≠ 0 := by
    intro h0
    rw [h0] at hcredit
    exact absurd hcredit (by decide)
  have hprep : (p.txqPrepare ac).iface n = some (iface.prepare ac).1 := by
    rw [txqPrepare_iface p ac hf, hi, Option.map_some, prepared, if_neg (by simp [hnd])]
  obtain ⟨hid, hndev⟩ := iface.prepare_ids ac
  obtain ⟨k, hk, hlist⟩ := hheld.placed n _ hprep (hid.trans hm) (hndev.trans hnd)
    (List.ne_nil_of_mem hmem)
  have hcache : f ∈ (p.txqPrepare ac).cache ac n := by
    simp only [TxPass.cache, hprep]
    exact hmem
  have hmap : ((p.txqPrepare ac).txl m).txqMap ≠ 0 := by
    intro h0
    have hbit := (hheld.bits k).mpr hk
    rw [h0] at hbit
    exact absurd hbit (by simp)
  obtain ⟨hfmap, hfnr, hftx, hfcred, hflimit⟩ :=
    based_fields { (p.txqPrepare ac).txl m with cred := env.credit ac m } ac
  unfold serve
  dsimp only
  rw [if_neg hmap, if_neg hc]
  have hwaits : Waits ({ (p.txqPrepare ac).txl m with cred := env.credit ac m }.txBase ac)
      (entered env ac m (p.txqPrepare ac)) (entered env ac m (p.txqPrepare ac)) k f := by
    refine ⟨rfl, rfl, rfl, ?_, ?_, fun j hj => ?_⟩
    · exact hfmap ▸ (hheld.bits k).mpr hk
    · show f ∈ (p.txqPrepare ac).cache ac
        (({ (p.txqPrepare ac).txl m with cred := env.credit ac m }.based ac).tx k).list
      rw [hftx]
      exact hlist ▸ hcache
    · show ((({ (p.txqPrepare ac).txl m with cred := env.credit ac m }.based ac).tx j).topUp
        _).quota ≠ 0
      rw [hftx]
      exact hplain.quota hc j (hfmap ▸ hj)
  refine txList_loop_ne_nil (placed_entered hheld env) hwaits ?_ ?_ hroom fun j => ?_
  · show ({ (p.txqPrepare ac).txl m with cred := env.credit ac m }.based ac).cred ≠ 0
    rw [hfcred]
    exact hc
  · show ({ (p.txqPrepare ac).txl m with cred := env.credit ac m }.based ac).txCountLimit ≠ 0
    rw [hflimit]
    exact hplain.limit hc
  · rw [← hplain.peers j n ⟨_, hprep, hid.trans hm⟩ f hcache]
    exact hvalid j

theorem Waiting.of_only (h : Waiting hw (env.only m) q b m) (ho : p.only m = q.only m) :
    Waiting hw env p b m := by
  obtain ⟨⟨f, hf⟩, hc, hroom⟩ := h
  exact ⟨⟨f, hf.of_only ho.symm⟩, hc, hroom⟩

theorem Ready.of_only (h : Ready hw env p b m) (ho : p.only m = q.only m) : Ready hw env q b m := by
  obtain ⟨hc, hroom, f, hf, hvalid⟩ := h
  exact ⟨hc, hroom, f, hf.of_only ho, hvalid⟩

theorem Ready.waiting (h : Ready hw env p b m) : Waiting hw env p b m := by
  obtain ⟨hc, hroom, f, hf, -⟩ := h
  refine ⟨⟨f, hf⟩, fun h0 => ?_, hroom 0⟩
  rw [h0] at hc
  exact absurd hc (by decide)

/-- Frames of the categories to come are queued after a category as they were before. -/
theorem queued_serve {f : TxqSkb} (hf : p.Fresh m) (hb : b ≠ ac) :
    (serve hw env limit ac m (p.txqPrepare ac)).pass.Queued b m f ↔ p.Queued b m f := by
  constructor
  · rintro ⟨n, iface, hi, hm, hnd, hmem⟩
    apply Queued.of_txqPrepare _ hf hb
    cases hn : (p.txqPrepare ac).iface n with
    | none =>
      have hnone : (serve hw env limit ac m (p.txqPrepare ac)).pass.iface n = none := by
        unfold serve
        dsimp only
        split_ifs <;> simp [setLmac, setCache, hn]
      rw [hnone] at hi
      cases hi
    | some iface' =>
      obtain ⟨iface'', hi', hkeeps⟩ := serve_keeps hw env limit m hn hb
      rw [hi] at hi'
      cases hi'
      exact ⟨n, iface', hn, hkeeps.lmacId ▸ hm, hkeeps.ndev ▸ hnd, hkeeps.queue ▸ hmem⟩
  · intro h
    obtain ⟨n, iface, hi, hm, hnd, hmem⟩ := h.txqPrepare hf hb
    obtain ⟨iface', hi', hkeeps⟩ := serve_keeps hw env limit m hi hb
    exact ⟨n, iface', hi', hkeeps.lmacId.trans hm, hkeeps.ndev.trans hnd, hkeeps.queue.symm ▸ hmem⟩

/-- An lmac with no frames, no credit or no room in any category sends nothing. -/
theorem ownRun_eq_nil (hnd : acs.Nodup) (hf : p.Fresh m)
    (h : ∀ b ∈ acs, ¬Waiting hw env p b m) : ownRun hw env limit m acs p = [] := by
  induction acs generalizing p with
  | nil => rfl
  | cons ac acs ih =>
    obtain ⟨hac, hnd⟩ := List.nodup_cons.mp hnd
    rw [ownRun, sent_of_not_waiting hf (h ac List.mem_cons_self), List.nil_append]
    refine ih hnd (fresh_serve hw env limit ac m _) fun b hb hw => ?_
    have hne : b ≠ ac := fun he => hac (he ▸ hb)
    obtain ⟨⟨f, hq⟩, hrest⟩ := hw
    exact h b (List.mem_cons_of_mem ac hb) ⟨⟨f, (queued_serve hf hne).mp hq⟩, hrest⟩

/-- A category in which nothing is queued changes nothing. -/
theorem serve_of_acQlen (hw : TxHw) (env : TxEnv) (limit : CInt) (hf : p.Fresh m)
    (h0 : (p.txqPrepare ac).acQlen = 0) :
    (serve hw env limit ac m (p.txqPrepare ac)).sent = [] ∧
      (serve hw env limit ac m (p.txqPrepare ac)).pass.only m = (p.txqPrepare ac).only m ∧
        (p.txqPrepare ac).Fresh m := by
  have hheld := held_txqPrepare p ac hf
  have hnr := nrTxq_of_acQlen hf h0
  have hmap : ((p.txqPrepare ac).txl m).txqMap = 0 := by
    by_contra hne
    obtain ⟨k, hk⟩ := exists_place hne
    have hlt := (hheld.bits k).mp hk
    omega
  have hreset : ((p.txqPrepare ac).txl m).atReset = (p.txqPrepare ac).txl m := by
    have hq := hheld.currentQlen hnr
    generalize (p.txqPrepare ac).txl m = l at hnr hmap hq ⊢
    cases l
    simp only [atReset] at hnr hmap hq ⊢
    rw [hnr, hmap, hq]
  unfold serve
  dsimp only
  rw [if_pos hmap, hreset]
  exact ⟨rfl, only_congr (fun _ => rfl) (by simp [setLmac]), hnr, hmap, hheld.currentQlen hnr⟩

/-- In a fair pass each lmac sends what it sends by itself, and something where a frame is ready. -/
theorem run_of_fair (hnd : acs.Nodup) (hr : ∀ mac < hw.nrLmac, r.pass.Fresh mac)
    (hfair : Fair hw env limit acs r) (hm : m < hw.nrLmac) (ho : r.pass.only m = q.only m) :
    (run hw env limit acs r).sent m = r.sent m ++ ownRun hw (env.only m) limit m acs q ∧
      ∀ b ∈ acs, Ready hw env r.pass b m → ownRun hw (env.only m) limit m acs q ≠ [] := by
  induction acs generalizing r q with
  | nil => exact ⟨(List.append_nil _).symm, fun b hb => absurd hb List.not_mem_nil⟩
  | cons ac acs ih =>
    obtain ⟨hac, hnd⟩ := List.nodup_cons.mp hnd
    obtain ⟨hplain, hrest⟩ := hfair
    have hprep := only_txqPrepare ho ac
    have hheld := held_txqPrepare r.pass ac (hr m hm)
    obtain ⟨hsent, -, hpass⟩ :=
      serve_of_only hprep hheld (hplain m hm).sameFor limit
    have hnow : Ready hw env r.pass ac m →
        (serve hw (env.only m) limit ac m (q.txqPrepare ac)).sent ≠ [] := by
      intro h
      rw [hsent]
      exact sent_of_ready (hr m hm) h (hplain m hm)
    have hlater : ∀ b ∈ acs, Ready hw env r.pass b m →
        Ready hw env (serve hw env limit ac m (r.pass.txqPrepare ac)).pass b m := by
      intro b hb h
      obtain ⟨hc, hroom, f, hq, hvalid⟩ := h
      have hne : b ≠ ac := fun he => hac (he ▸ hb)
      exact ⟨hc, hroom, f, (queued_serve (hr m hm) hne).mpr hq, hvalid⟩
    -- What is left to show of the own run, once that of the categories to come is known.
    have hown : (∀ b ∈ acs, Ready hw env r.pass b m → ownRun hw (env.only m) limit m acs
        (serve hw (env.only m) limit ac m (q.txqPrepare ac)).pass ≠ []) →
        ∀ b ∈ ac :: acs, Ready hw env r.pass b m →
          ownRun hw (env.only m) limit m (ac :: acs) q ≠ [] := by
      intro htail b hb h
      rw [ownRun]
      rcases List.mem_cons.mp hb with rfl | hb
      · exact List.append_ne_nil_of_left_ne_nil (hnow h) _
      · exact List.append_ne_nil_of_right_ne_nil _ (htail b hb h)
    rw [run]
    dsimp only at hrest ⊢
    by_cases h0 : (r.pass.txqPrepare ac).acQlen = 0
    · rw [if_pos h0] at hrest ⊢
      obtain ⟨hnil, hsame, -⟩ := serve_of_acQlen hw env limit (hr m hm) h0
      obtain ⟨hrun, hprog⟩ := ih hnd (fun mac hmac =>
        (serve_of_acQlen hw env limit (hr mac hmac) h0).2.2) hrest (hsame.symm.trans hpass)
      constructor
      · rw [hrun, ownRun, hsent, hnil, List.nil_append]
      · exact hown fun b hb h => hprog b hb ((hlater b hb h).of_only hsame)
    · rw [if_neg h0] at hrest ⊢
      have hspec := fun mac (hmac : mac < hw.nrLmac) =>
        serveAll_spec env limit (r := { r with pass := r.pass.txqPrepare ac })
          (fun mac hmac => held_txqPrepare r.pass ac (hr mac hmac)) hmac
      generalize serveAll hw env limit ac { r with pass := r.pass.txqPrepare ac } = r₁
        at hrest hspec ⊢
      have hfresh : ∀ mac < hw.nrLmac, r₁.pass.Fresh mac := fun mac hmac =>
        (fresh_serve hw env limit ac mac _).of_only (hspec mac hmac).2.symm
      obtain ⟨hs₁, ho₁⟩ := hspec m hm
      by_cases hcapa : r₁.capa = 0
      · rw [if_pos hcapa] at hrest ⊢
        have hnil : ownRun hw (env.only m) limit m acs
            (serve hw (env.only m) limit ac m (q.txqPrepare ac)).pass = [] :=
          ownRun_eq_nil hnd (fresh_serve hw _ limit ac m _) fun b hb h =>
            hrest b hb m hm (h.of_only (ho₁.trans hpass))
        constructor
        · rw [hs₁, ownRun, hsent, hnil, List.append_nil]
        · exact hown fun b hb h =>
            absurd ((hlater b hb h).of_only ho₁.symm).waiting (hrest b hb m hm)
      · rw [if_neg hcapa] at hrest ⊢
        obtain ⟨hrun, hprog⟩ := ih hnd hfresh hrest (ho₁.trans hpass)
        constructor
        · rw [hrun, hs₁, ownRun, hsent, List.append_assoc]
        · exact hown fun b hb h => hprog b hb ((hlater b hb h).of_only ho₁.symm)

/-- Interface 0 of lmac 0 has a voice frame and interface 1 of lmac 1 one of best effort. -/
def twoRadios : TxPass where
  iface n :=
    if n = 0 then some ⟨true, 0, false, fun _ => 2,
      fun ac => if ac = .vo then [{ buf := 1 }] else [], [], fun _ => []⟩
    else if n = 1 then some ⟨true, 1, false, fun _ => 2,
      fun ac => if ac = .be then [{ buf := 2 }] else [], [], fun _ => []⟩
    else none
  txl _ := { TxLmac.zero with acReset := 0xF, txCountLimit := 83 }
  acQlen := 0
  freed := []

/-- Ten credits for lmac 1, room in both rings and no peer. -/
def creditOf (credit : CInt) : TxEnv where
  credit _ mac := if mac = 0 then credit else 10
  view _ _ _ := ⟨128, fun _ _ => none⟩

theorem plain_of_bits (credit : CInt) {k : ℕ}
    (h : ∀ m < k, (p.txl m).txCountLimit ≠ 0 ∧ ∀ k < 16, (p.txl m).txqMap.getLsbD k = true →
      (((p.txl m).tx k).topUp
        ({ p.txl m with cred := (creditOf credit).credit ac m }.txBase ac)).quota ≠ 0) :
    ∀ m < k, Plain hw (creditOf credit) ac m p := by
  intro m hm
  obtain ⟨hl, hq⟩ := h m hm
  refine ⟨fun _ _ _ _ _ => ?_, fun _ => hl, fun _ k hk => hq k (BitVec.lt_of_getLsbD hk) hk⟩
  simp [isSkwPeerDataValid, TxView.only, creditOf]

theorem fair_twoRadios : Fair ⟨.sdio, 2⟩ (creditOf 5) 83 TxRound.acs (start twoRadios) := by
  refine ⟨plain_of_bits 5 (by decide +kernel), ?_⟩
  rw [if_neg (by decide +kernel)]
  dsimp only
  rw [if_neg (by decide +kernel)]
  refine ⟨plain_of_bits 5 (by decide +kernel), ?_⟩
  rw [if_pos (by decide +kernel)]
  refine ⟨plain_of_bits 5 (by decide +kernel), ?_⟩
  rw [if_neg (by decide +kernel)]
  dsimp only
  rw [if_neg (by decide +kernel)]
  refine ⟨plain_of_bits 5 (by decide +kernel), ?_⟩
  rw [if_pos (by decide +kernel)]
  trivial

end TxRound
end Skw
