import Skw.Sta.Binding
import Skw.Sta.Connect

/-! A station has one access point at most, and a call that fails leaves none behind, unless it
joins while one is bound, or cleans up by the address of another one than is bound. -/
namespace Skw
namespace Sta

/-- `core->bss.ctx_idx` on the interface's lmac. -/
def bssCtx (s : Sta) (n : IfaceId) : Option CtxId :=
  PeerSys.getCtx (s.peers.iface n).lmacId (s.peers.iface n).bssCtxIdx

/-- At most one peer is bound, and `core->bss` names it. -/
structure OneAp (s : Sta) (n : IfaceId) : Prop where
  one : ∀ c d p q, s.peers.Holds n c p → s.peers.Holds n d q → c = d
  named : ∀ c p, s.peers.Holds n c p →
    s.bssCtx n = some c ∧ (s.peers.peer p).addr = some s.bssid

/-- Where a call fails and all its unjoin commands succeed, a peer that is still bound was bound
before it, and the error is `-EBUSY`. -/
def Leaves (s : Sta) (n : IfaceId) (r : ℤ × Sta) : Prop :=
  r.1 ≠ 0 → r.2.unjoinFailed = false →
    ∀ c p, r.2.peers.Holds n c p → s.peers.Holds n c p ∧ r.1 = -EBUSY

def Bound (s : Sta) (n : IfaceId) : Prop := ∃ c, s.peers.owner c = some n

instance (s : Sta) (n : IfaceId) : Decidable (s.Bound n) := inferInstanceAs (Decidable (∃ _, _))

end Sta

/-- The command of the join succeeds and its answer has a context. -/
def JoinAnswer.Accepted (a : JoinAnswer) : Prop :=
  a.alloc = true ∧ 0 ≤ a.ret ∧ a.idx.toNat < SKW_MAX_PEER_SUPPORT

instance (a : JoinAnswer) : Decidable a.Accepted := inferInstanceAs (Decidable (_ ∧ _))

namespace Sta

/-- An answer names an lmac of the chip, or the one that the interface has. -/
def KnowsLmac (s : Sta) (n : IfaceId) (a : JoinAnswer) : Prop :=
  a.Accepted → ∃ l : Fin SKW_MAX_LMAC_SUPPORT, l.val = a.lmac.toNat ∧
    ((s.peers.iface n).lmacId = l ∨ l.val < s.peers.nrLmac)

instance (s : Sta) (n : IfaceId) (a : JoinAnswer) : Decidable (s.KnowsLmac n a) :=
  inferInstanceAs (Decidable (_ → _))

/-- A join while a peer is bound replaces it, or is refused with `-EBUSY`, or fails to unjoin. -/
def Rejoins (s : Sta) (n : IfaceId) (a : JoinAnswer) : Prop :=
  if a.Accepted then
    ∀ c, s.peers.owner c = some n → c.1.val = a.lmac.toNat ∧ c.2.val = a.idx.toNat
  else a.alloc = true ∧ (a.ret = -EBUSY ∨ 0 ≤ a.ret ∧ a.unjoin ≠ 0)

instance (s : Sta) (n : IfaceId) (a : JoinAnswer) : Decidable (s.Rejoins n a) := by
  unfold Rejoins
  infer_instance

/-- An error that may leave a peer of another address behind. -/
def Harmless (ret : ℤ) : Prop := ret = 0 ∨ ret = -EBUSY

instance (ret : ℤ) : Decidable (Harmless ret) := inferInstanceAs (Decidable (_ ∨ _))

/-- What `skw_auth` returns after its `switch`. -/
def authRet (req : AuthReq) (x : AuthAnswer) : ℤ :=
  if req.key ∧ x.addKey < 0 then x.addKey else x.auth

/-- A call that does not join finds no peer but that of its request bound, or it succeeds; a call
that joins finds none bound, or has left it; a cleanup is by the address that was joined. -/
def Sound (n : IfaceId) (s : Sta) : StaEvent → Prop
  | .auth req x =>
    match s.state with
    | .authing | .associng => True
    | .authed => s.Bound n → s.bssid = req.bssid ∨ Harmless (authRet req x)
    | .assoced | .completed => s.KnowsLmac n x.join
    | .none => s.KnowsLmac n x.join ∧ (s.Bound n → isValidEtherAddr s.bssid = false →
        x.channelAllowed = true → s.Rejoins n x.join)
  | .assoc bssid x =>
    match s.state with
    | .authing | .associng => True
    | .authed => s.Bound n → s.bssid = bssid ∨ Harmless x.assoc
    | .assoced | .completed => s.KnowsLmac n x.join
    | .none => ¬ s.Bound n
  | .connectSaeAuth none _ _ => ¬ s.Bound n
  | .connectSaeAuth (some bssid) connBssid x =>
    s.KnowsLmac n x.join ∧ (s.Bound n → s.Rejoins n x.join) ∧
      (x.join.Accepted → x.externalAuth ≠ 0 → connBssid = bssid)
  | .staLeave _ _ | .setState _ _ | .transmit _ _ => True

instance (n : IfaceId) (s : Sta) (e : StaEvent) : Decidable (Sound n s e) := by
  unfold Sound
  split
  · split <;> infer_instance
  · split <;> infer_instance
  all_goals infer_instance

def Inv (s : Sta) (n : IfaceId) : Prop := s.peers.Single n s.bssid

/-- What is shown of each call: the invariant, and what an error leaves. -/
structure Ends (s : Sta) (n : IfaceId) (r : ℤ × Sta) : Prop where
  inv : r.2.Inv n
  leaves : s.Leaves n r

variable {s t : Sta} {n : IfaceId} {b : MacAddr} {a : JoinAnswer} {ret : ℤ} {r : ℤ × Sta}

theorem Inv.oneAp (h : s.Inv n) : s.OneAp n where
  one _ _ p q hc hd :=
    h.unique (PeerSys.owner_eq_some.mpr ⟨p, hc⟩) (PeerSys.owner_eq_some.mpr ⟨q, hd⟩)
  named := h.named

theorem leaves_of_not_bound (h : ¬ r.2.Bound n) : s.Leaves n r :=
  fun _ _ c p hp => absurd ⟨c, PeerSys.owner_eq_some.mpr ⟨p, hp⟩⟩ h

theorem leaves_of_failed (h : r.2.unjoinFailed = true) : s.Leaves n r := by
  intro _ hf
  rw [h] at hf
  cases hf

theorem leaves_of_zero (h : r.1 = 0) : s.Leaves n r := fun hr => absurd h hr

/-- What was not bound when a part of the call began, is not left by it. -/
theorem Leaves.of_not_bound (h : t.Leaves n r) (ht : ¬ t.Bound n) : s.Leaves n r := by
  intro hr hf c p hp
  have hpt := (h hr hf c p hp).1
  exact absurd ⟨c, PeerSys.owner_eq_some.mpr ⟨p, hpt⟩⟩ ht

/-- An unjoin that sends no command, one that fails, and one that succeeds. -/
theorem Inv.unjoin (h : s.Inv n) (b : MacAddr) (ret : ℤ) :
    (s.unjoin n b ret = (0, s) ∧ (s.Bound n → s.bssid ≠ b)) ∨
    ((s.unjoin n b ret).1 ≠ 0 ∧ (s.unjoin n b ret).2.unjoinFailed = true ∧
      (s.unjoin n b ret).2.Inv n) ∨
    ((s.unjoin n b ret).1 = 0 ∧ ¬ (s.unjoin n b ret).2.Bound n ∧ (s.unjoin n b ret).2.bssid = 0 ∧
      (s.unjoin n b ret).2.Inv n) := by
  unfold Sta.unjoin
  cases hc : s.peers.peerCtx n b with
  | none =>
    left
    have hno := h.peerCtx_eq_none.mp hc
    exact ⟨if_pos rfl, fun hb he => hno ⟨hb, he⟩⟩
  | some c =>
    right
    rw [if_neg (by simp)]
    by_cases hr : ret = 0
    · subst hr
      obtain ⟨hs, hno⟩ := PeerSys.Single.unjoin h hc 0
      right
      exact ⟨rfl, fun ⟨d, hd⟩ => hno d hd, rfl, hs⟩
    · left
      dsimp only
      rw [if_pos hr]
      exact ⟨hr, rfl, h.keeps (s.peers.keeps_unjoin n b hr)⟩

theorem knowsLmac_unjoin (hk : s.KnowsLmac n a) : (s.unjoin n b ret).2.KnowsLmac n a := by
  obtain ⟨hl, hn⟩ := s.peers.unjoin_lmac n b ret
  have hpeers : (s.unjoin n b ret).2.peers = s.peers ∨
      (s.unjoin n b ret).2.peers = (s.peers.unjoin n b ret).2 := by
    unfold Sta.unjoin
    dsimp only
    split_ifs
    · exact .inl rfl
    · exact .inr rfl
    · exact .inr rfl
  unfold KnowsLmac
  rcases hpeers with hp | hp
  · rw [hp]
    exact hk
  · rw [hp, hl, hn]
    exact hk

/-- A join that is accepted leaves one peer bound, that of its address. -/
theorem Inv.join (h : s.Inv n) (hk : s.KnowsLmac n a) (hr : s.Bound n → s.Rejoins n a)
    (ha : a.Accepted) : (s.join n b a).1 = 0 ∧ (s.join n b a).2.bssid = b ∧
      (s.join n b a).2.Inv n := by
  have ⟨halloc, hret, hidx⟩ := ha
  obtain ⟨l, hl, hmove⟩ := hk ha
  have hother : ∀ d, s.peers.owner d = some n → d = (l, ⟨a.idx.toNat, hidx⟩) := by
    intro d hd
    have hre := hr ⟨d, hd⟩
    unfold Rejoins at hre
    rw [if_pos ha] at hre
    obtain ⟨h1, h2⟩ := hre d hd
    exact Prod.ext (Fin.ext (h1.trans hl.symm)) (Fin.ext h2)
  obtain ⟨hz, hs, -⟩ := PeerSys.Single.join h b halloc hret hidx hl hmove hother
  unfold Sta.join
  rw [if_neg (not_not.mpr hz)]
  exact ⟨rfl, rfl, hs⟩

/-- A join that is not accepted leaves the peers as they are. -/
theorem Inv.joinRefused (h : s.Inv n) (hr : s.Bound n → s.Rejoins n a) (ha : ¬ a.Accepted) :
    (s.join n b a).1 ≠ 0 ∧ s.Ends n (s.join n b a) := by
  obtain ⟨hkeeps, hret⟩ := s.peers.join_refused n b a.lmac ha
  have hne : (s.peers.join n b a.alloc a.ret a.lmac a.idx).1 ≠ 0 := by
    rw [hret]
    split_ifs with _ hneg
    · decide
    · exact hneg.ne
    · decide
  have hjoin : s.join n b a = ((s.peers.join n b a.alloc a.ret a.lmac a.idx).1,
      { s with
        peers := (s.peers.join n b a.alloc a.ret a.lmac a.idx).2
        unjoinFailed := s.unjoinFailed ||
          (a.alloc && decide (0 ≤ a.ret)) && decide (a.unjoin ≠ 0) }) := if_pos hne
  rw [hjoin]
  refine ⟨hne, h.keeps hkeeps, ?_⟩
  by_cases hb : s.Bound n
  · have hre := hr hb
    unfold Rejoins at hre
    rw [if_neg ha] at hre
    obtain ⟨halloc, hbusy | ⟨hpos, hfailed⟩⟩ := hre
    · intro _ _ c p hp
      refine ⟨(hkeeps.holds h.old).mp hp, ?_⟩
      change (s.peers.join n b a.alloc a.ret a.lmac a.idx).1 = -EBUSY
      rw [hret, hbusy, if_neg (by simp [halloc]), if_pos (by decide)]
    · apply leaves_of_failed
      simp [halloc, hpos, hfailed]
  · have hno : s.Leaves n (s.join n b a) := by
      intro _ _ c p hp
      rw [hjoin] at hp
      exact absurd ⟨c, PeerSys.owner_eq_some.mpr ⟨p, (hkeeps.holds h.old).mp hp⟩⟩ hb
    rw [hjoin] at hno
    exact hno

/-- What a part of the call ends with that begins with no peer bound. -/
theorem Ends.of_not_bound (h : t.Ends n r) (ht : ¬ t.Bound n) : s.Ends n r :=
  ⟨h.inv, h.leaves.of_not_bound ht⟩

/-- A call that fails ends with no peer bound, unless one of another address has been bound since
before the call. -/
theorem Inv.giveUp (h : s.Inv n) (u : ℤ)
    (hb : s.Bound n → s.bssid = b ∨ Harmless ret ∧ t.peers = s.peers) :
    t.Ends n (s.giveUp n b u ret) := by
  rcases h.unjoin b u with ⟨heq, hne⟩ | ⟨-, hfailed, hi⟩ | ⟨-, hno, -, hi⟩
  · have hgive : s.giveUp n b u ret = (ret, s.setState .none) := by
      unfold Sta.giveUp
      rw [heq]
    rw [hgive]
    refine ⟨h, fun hr _ c p hp => ?_⟩
    have hbound : s.Bound n := ⟨c, PeerSys.owner_eq_some.mpr ⟨p, hp⟩⟩
    rcases hb hbound with he | ⟨he, hpeers⟩
    · exact absurd he (hne hbound)
    · rw [hpeers]
      exact ⟨hp, he.resolve_left hr⟩
  · exact ⟨hi, leaves_of_failed hfailed⟩
  · exact ⟨hi, leaves_of_not_bound hno⟩

theorem Inv.authSend (h : s.Inv n) (req : AuthReq) (x : AuthAnswer)
    (hb : s.Bound n → s.bssid = req.bssid ∨ Harmless (authRet req x) ∧ t.peers = s.peers) :
    t.Ends n (s.authSend n req x) := by
  unfold authRet at hb
  unfold Sta.authSend
  split_ifs with hkey hauth
  · rw [if_pos hkey] at hb
    exact h.giveUp x.unjoin hb
  · rw [if_neg hkey] at hb
    have ht : (s.setState .authing).Inv n := h
    exact ht.giveUp x.unjoin hb
  · exact ⟨h, leaves_of_zero rfl⟩
  · exact ⟨h, leaves_of_zero rfl⟩

theorem Inv.assocSend (h : s.Inv n) (x : AssocAnswer)
    (hb : s.Bound n → s.bssid = b ∨ Harmless x.assoc ∧ t.peers = s.peers) :
    t.Ends n (s.assocSend n b x) := by
  have ht : (s.setState .associng).Inv n := h
  unfold Sta.assocSend
  dsimp only
  split_ifs with hassoc
  · exact ht.giveUp x.unjoin hb
  · exact ⟨ht, leaves_of_zero rfl⟩

/-- A join and what follows when it succeeds. -/
theorem Inv.joinThen (h : s.Inv n) (hk : s.KnowsLmac n a) (hr : s.Bound n → s.Rejoins n a)
    {f : Sta → ℤ × Sta}
    (hf : ∀ t : Sta, a.Accepted → t.Inv n → t.bssid = b → s.Ends n (f t)) :
    s.Ends n (if (s.join n b a).1 ≠ 0 then s.join n b a else f (s.join n b a).2) := by
  by_cases ha : a.Accepted
  · obtain ⟨hz, hbssid, hi⟩ := h.join (b := b) hk hr ha
    rw [if_neg (not_not.mpr hz)]
    exact hf _ ha hi hbssid
  · obtain ⟨hne, hends⟩ := h.joinRefused (b := b) hr ha
    rw [if_pos hne]
    exact hends

/-- The end of `case SKW_STATE_NONE`, with the old access point left. -/
theorem Inv.authAllowed (h : s.Inv n) (req : AuthReq) (x : AuthAnswer) (hk : s.KnowsLmac n x.join)
    (hr : s.Bound n → x.channelAllowed = true → s.Rejoins n x.join) :
    let v := if x.channelAllowed = false then (-EBUSY, s) else s.join n req.bssid x.join
    s.Ends n (if v.1 ≠ 0 then v else v.2.authSend n req x) := by
  cases hc : x.channelAllowed with
  | false => exact ⟨h, fun _ _ _ _ hp => ⟨hp, rfl⟩⟩
  | true =>
    have hsend : ∀ t : Sta, x.join.Accepted → t.Inv n → t.bssid = req.bssid →
        s.Ends n (t.authSend n req x) :=
      fun t _ ht hbssid => ht.authSend req x fun _ => .inl hbssid
    exact h.joinThen hk (fun hb => hr hb hc) hsend

/-- `case SKW_STATE_NONE` and what follows. -/
theorem Inv.authJoin (h : s.Inv n) (req : AuthReq) (x : AuthAnswer) (hk : s.KnowsLmac n x.join)
    (hr : s.Bound n → isValidEtherAddr s.bssid = false → x.channelAllowed = true →
      s.Rejoins n x.join) :
    let v := s.authJoin n req x
    s.Ends n (if v.1 ≠ 0 then v else v.2.authSend n req x) := by
  unfold Sta.authJoin
  cases hv : isValidEtherAddr s.bssid with
  | false => exact h.authAllowed req x hk fun hb => hr hb hv
  | true =>
    simp only [if_true]
    rcases h.unjoin s.bssid x.leaveAgain with ⟨heq, hne⟩ | ⟨hz, hfailed, hi⟩ | ⟨hz, hno, -, hi⟩
    · rw [heq]
      exact h.authAllowed req x hk fun hb => absurd rfl (hne hb)
    · simp only [if_pos hz]
      exact ⟨hi, leaves_of_failed hfailed⟩
    · simp only [hz, ne_eq, not_true_eq_false, if_false]
      apply Ends.of_not_bound _ hno
      exact hi.authAllowed req x (knowsLmac_unjoin hk) fun hb => absurd hb hno

/-- `case SKW_STATE_ASSOCED` and `SKW_STATE_COMPLETED`: the old access point is left before the rest
of the call. -/
theorem Inv.leaveThen (h : s.Inv n) (hk : s.KnowsLmac n a) (ret : ℤ) {f : Sta → ℤ × Sta}
    (hf : ∀ t : Sta, t.Inv n → ¬ t.Bound n → t.KnowsLmac n a → t.Ends n (f t)) :
    s.Ends n (if s.bssid = b then (0, s) else
      let u := (s.setState .none).unjoin n s.bssid ret
      if u.1 ≠ 0 then u else f u.2) := by
  have hs : (s.setState .none).Inv n := h
  have hknows : ((s.setState .none).unjoin n s.bssid ret).2.KnowsLmac n a :=
    knowsLmac_unjoin (s := s.setState .none) hk
  by_cases hb : s.bssid = b
  · rw [if_pos hb]
    exact ⟨h, leaves_of_zero rfl⟩
  · rw [if_neg hb]
    dsimp only
    rcases hs.unjoin s.bssid ret with ⟨heq, hne⟩ | ⟨hz, hfailed, hi⟩ | ⟨hz, hno, -, hi⟩
    · have hno : ¬ (s.setState .none).Bound n := fun hb => hne hb rfl
      rw [heq] at hknows ⊢
      rw [if_neg (by simp)]
      exact (hf _ hs hno hknows).of_not_bound hno
    · rw [if_pos hz]
      exact ⟨hi, leaves_of_failed hfailed⟩
    · rw [if_neg (not_not.mpr hz)]
      exact (hf _ hi hno hknows).of_not_bound hno

theorem Inv.auth (h : s.Inv n) (req : AuthReq) (x : AuthAnswer) (hg : Sound n s (.auth req x)) :
    s.Ends n (s.auth n req x) := by
  have hbusy : s.Ends n (-EBUSY, s) := ⟨h, fun _ _ _ _ hp => ⟨hp, rfl⟩⟩
  have hjoin : ∀ t : Sta, t.Inv n → ¬ t.Bound n → t.KnowsLmac n x.join → t.Ends n
      (let v := t.authJoin n req x
      if v.1 ≠ 0 then v else v.2.authSend n req x) :=
    fun t ht hno hknows => ht.authJoin req x hknows fun hb => absurd hb hno
  unfold Sound at hg
  unfold Sta.auth
  cases hs : s.state with
  | authing | associng => exact hbusy
  | assoced | completed =>
    rw [hs] at hg
    exact h.leaveThen hg x.leave hjoin
  | none =>
    rw [hs] at hg
    exact h.authJoin req x hg.1 hg.2
  | authed =>
    rw [hs] at hg
    exact h.authSend req x fun hb => (hg hb).imp id fun he => ⟨he, rfl⟩

theorem Inv.assoc (h : s.Inv n) (x : AssocAnswer) (hg : Sound n s (.assoc b x)) :
    s.Ends n (s.assoc n b x) := by
  have hbusy : s.Ends n (-EBUSY, s) := ⟨h, fun _ _ _ _ hp => ⟨hp, rfl⟩⟩
  have hsend : ∀ t u : Sta, x.join.Accepted → u.Inv n → u.bssid = b →
      t.Ends n ((u.setState .authed).assocSend n b x) := by
    intro t u _ hu hbssid
    have hu' : (u.setState .authed).Inv n := hu
    exact hu'.assocSend x fun _ => .inl hbssid
  have hjoin : ∀ t : Sta, t.Inv n → ¬ t.Bound n → t.KnowsLmac n x.join → t.Ends n
      (let v := t.join n b x.join
      if v.1 ≠ 0 then v else (v.2.setState .authed).assocSend n b x) :=
    fun t ht hno hknows => ht.joinThen hknows (fun hb => absurd hb hno) (hsend t)
  unfold Sound at hg
  unfold Sta.assoc
  cases hs : s.state with
  | authing | associng => exact hbusy
  | assoced | completed =>
    rw [hs] at hg
    exact h.leaveThen hg x.leave hjoin
  | none =>
    rw [hs] at hg
    exact ⟨h, leaves_of_not_bound hg⟩
  | authed =>
    rw [hs] at hg
    exact h.assocSend x fun hb => (hg hb).imp id fun he => ⟨he, rfl⟩

theorem Inv.connectSaeAuth (h : s.Inv n) (bss : Option MacAddr) (connBssid : MacAddr)
    (x : SaeAnswer) (hg : Sound n s (.connectSaeAuth bss connBssid x)) :
    s.Ends n (s.connectSaeAuth n bss connBssid x) := by
  cases bss with
  | none => exact ⟨h, leaves_of_not_bound hg⟩
  | some b =>
    obtain ⟨hk, hr, hconn⟩ := hg
    have hsend : ∀ t : Sta, x.join.Accepted → t.Inv n → t.bssid = b →
        s.Ends n (let u := t.setState .authing
          if x.externalAuth ≠ 0 then u.giveUp n connBssid x.unjoin x.externalAuth else (0, u)) := by
      intro t ha ht hbssid
      have ht' : (t.setState .authing).Inv n := ht
      dsimp only
      split_ifs with he
      · exact ht'.giveUp x.unjoin fun _ => .inl (hbssid.trans (hconn ha he).symm)
      · exact ⟨ht, leaves_of_zero rfl⟩
    exact h.joinThen hk hr hsend

theorem Inv.staLeave (h : s.Inv n) (b : MacAddr) (ret : ℤ) : s.Ends n (s.staLeave n b ret) := by
  have hs : Inv { s with state := .none, saeRxConfirm := false } n := h
  refine ⟨?_, leaves_of_zero rfl⟩
  unfold Sta.staLeave
  rcases hs.unjoin b ret with ⟨heq, -⟩ | ⟨-, -, hi⟩ | ⟨-, -, -, hi⟩
  · rw [heq]
    exact hs
  · exact hi
  · exact hi

/-- What every call ends with. -/
theorem Inv.call (h : s.Inv n) (e : StaEvent) (hg : Sound n s e) : s.Ends n (s.call n e) := by
  have ht : Inv { s with unjoinFailed := false } n := h
  cases e with
  | auth req x => exact ⟨(ht.auth req x hg).inv, (ht.auth req x hg).leaves⟩
  | assoc b x => exact ⟨(ht.assoc x hg).inv, (ht.assoc x hg).leaves⟩
  | connectSaeAuth bss connBssid x =>
    have hends := ht.connectSaeAuth bss connBssid x hg
    exact ⟨hends.inv, hends.leaves⟩
  | staLeave b ret => exact ⟨(ht.staLeave b ret).inv, leaves_of_zero rfl⟩
  | setState state saeRxConfirm => exact ⟨h, leaves_of_zero rfl⟩
  | transmit ctx enable =>
    refine ⟨?_, leaves_of_zero rfl⟩
    cases ctx with
    | none => exact h
    | some c => exact h.keeps (s.peers.keeps_transmit c enable)

section
variable (nrLmac : ℕ) (peer : Ptr → CtxPeer MacAddr)
  (lmacId : IfaceId → Fin SKW_MAX_LMAC_SUPPORT) (iftype : IfaceId → Iftype)
  (legacy : IfaceId → Bool)

theorem inv_init (n : IfaceId) : (init (.init nrLmac peer lmacId iftype legacy)).Inv n := by
  apply PeerSys.Single.of_none
  · intro c p hp
    cases hp
  · exact fun _ => rfl
  · intro c hc
    cases hc

/-- In every state of every run whose calls are sound: one access point at most, which `core->bss`
names, and none left by a call that fails. -/
theorem oneAp_of_sound (n : IfaceId) (s : Sta)
    (h : Lib.Reach (step n) (Sound n) (init (.init nrLmac peer lmacId iftype legacy)) s) :
    s.OneAp n ∧ ∀ e, Sound n s e → s.Leaves n (s.call n e) := by
  have hi : s.Inv n := by
    apply h.invariant (I := fun s => s.Inv n) (inv_init nrLmac peer lmacId iftype legacy n)
    intro s e t hs hg ht
    cases Option.some.inj ht
    exact (hs.call e hg).inv
  exact ⟨hi.oneAp, fun e hg => (hi.call e hg).leaves⟩

end

/-- Stations on a chip with two lmacs. -/
def stations : Sta :=
  init (.init 2 (fun _ => ⟨none, 0, none, false, false, false, false⟩)
    (fun _ => ⟨0, Nat.zero_lt_two⟩) (fun _ => .station) fun _ => false)

/-- The station associates with one access point and moves to another. -/
theorem oneAp_of_sound_roaming : ∃ s, Lib.Reach (step 0) (Sound 0) stations s ∧
    (s.bssid = 0x020000000002 ∧ s.peers.freed = [1]) ∧
      s.OneAp 0 ∧ ∀ e, Sound 0 s e → s.Leaves 0 (s.call 0 e) := by
  obtain ⟨s, hs, hp⟩ := Lib.exists_reach_of_exec (step 0) (Sound 0) stations
    [.auth ⟨0x020000000001, false, false⟩ ⟨0, 0, true, ⟨true, 0, 0, 3, 0⟩, 0, 0, 0⟩,
      .setState .authed false, .assoc 0x020000000001 ⟨0, ⟨true, 0, 0, 3, 0⟩, 0, 0⟩,
      .setState .completed false,
      .auth ⟨0x020000000002, false, false⟩ ⟨0, 0, true, ⟨true, 0, 1, 4, 0⟩, 0, 0, 0⟩]
    (fun s => decide (s.bssid = 0x020000000002 ∧ s.peers.freed = [1])) (by decide +kernel)
  exact ⟨s, hs, of_decide_eq_true hp, oneAp_of_sound _ _ _ _ _ 0 s hs⟩

/-- A connected station starts the external authentication with another access point. -/
theorem saeConnect_not_oneAp :
    ¬ ∀ s, Lib.Reach (step 0) Lib.Free stations s →
      s.OneAp 0 ∧ ∀ e, s.Leaves 0 (s.call 0 e) := by
  intro h
  obtain ⟨s, hs, hp⟩ := Lib.exists_reach_of_exec (step 0) Lib.Free stations
    [.auth ⟨0x020000000001, false, false⟩ ⟨0, 0, true, ⟨true, 0, 0, 3, 0⟩, 0, 0, 0⟩,
      .setState .authed false, .assoc 0x020000000001 ⟨0, ⟨true, 0, 0, 3, 0⟩, 0, 0⟩,
      .setState .completed false,
      .connectSaeAuth (some 0x020000000002) 0x020000000002 ⟨⟨true, 0, 0, 4, 0⟩, 0, 0⟩]
    (fun s => decide (((s.peers.ctx (0, 3)).peer = some 1 ∧ (s.peers.peer 1).iface = some 0) ∧
      (s.peers.ctx (0, 4)).peer = some 2 ∧ (s.peers.peer 2).iface = some 0)) (by decide +kernel)
  obtain ⟨hold, hnew⟩ := of_decide_eq_true hp
  have heq := (h s hs).1.one (0, 3) (0, 4) 1 2 hold hnew
  exact absurd heq (by decide)

end Sta
end Skw
