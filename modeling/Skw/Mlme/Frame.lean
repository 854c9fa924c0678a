import Skw.Mlme.Ap

/-! Relations between the interface before and after a handler. The handlers consist of a few
changes; a relation that holds across each of these holds across the handlers, all but the ones
that let a client in. -/
namespace Skw

/-- A preorder that holds across reports, and across what leaves each client its state and
its identifier. -/
structure Mild {α : Type*} [DecidableEq α] (R : ApIface α → ApIface α → Prop) : Prop where
  refl : ∀ s, R s s
  trans : ∀ {s t u}, R s t → R t u → R s u
  same : ∀ {s t : ApIface α}, t.clients = s.clients → t.aidMap = s.aidMap → t.out = s.out → R s t
  update : ∀ {s t : ApIface α} (a : α) (g : Client → Client),
    (∀ c, (g c).state = c.state ∧ (g c).aid = c.aid) →
    t.clients = Function.update s.clients a ((s.clients a).map g) → t.aidMap = s.aidMap →
    t.out = s.out → R s t
  emit : ∀ s o, (∀ da reassoc capa status aid ret,
    o ≠ ApOut.assocReply da reassoc capa status aid ret) → R s (s.emit o)

/-- It holds also across the ways to set a client back, to take it away and to add one. -/
structure Closed {α : Type*} [DecidableEq α] (R : ApIface α → ApIface α → Prop) : Prop
    extends Mild R where
  setState : ∀ s a, R s (s.setState a .none)
  delClient : ∀ s a, R s (s.mlmeApDelClient a)
  addClient : ∀ s a, s.clients a = none → R s (s.mlmeApAddClient a)

/-- The events whose handlers can let a client in. -/
def ApEvent.letsIn {α : Type*} : ApEvent α → Bool
  | rxAuth _ _ | rxAssoc _ _ | txStatus _ _ => true
  | _ => false

variable {α : Type*} [DecidableEq α] {R : ApIface α → ApIface α → Prop} {s t : ApIface α}

namespace Mild
variable (hR : Mild R)
include hR

theorem setPeer (s : ApIface α) (idx : ℕ) (p : Option (ApPeer α)) : R s (s.setPeer idx p) :=
  hR.same rfl rfl rfl

theorem setPeerFlags (s : ApIface α) (a : α) : R s (s.setPeerFlags a) := by
  unfold ApIface.setPeerFlags
  split
  · exact hR.refl s
  · exact hR.setPeer ..

theorem changeStation (s : ApIface α) (a : α) (associated authorized : Bool) :
    R s (s.changeStation a associated authorized) := by
  unfold ApIface.changeStation
  split
  · exact hR.refl s
  · exact hR.setPeer ..

theorem mgmtTx (s : ApIface α) (a : α) (stype : MgmtStype) (tx : MgmtTx) :
    R s (s.mgmtTx a stype tx).1 := by
  cases tx with
  | noReply => exact hR.refl s
  | noChan => exact hR.same rfl rfl rfl
  | noParam => exact hR.same rfl rfl rfl
  | xmit ret =>
    unfold ApIface.mgmtTx
    dsimp only
    have hc : R s { s with
        skwCookie := s.txCookie
        clients := Function.update s.clients a
          ((s.clients a).map ({ · with cookie := s.txCookie })) } :=
      hR.update a ({ · with cookie := s.txCookie }) (fun _ => ⟨rfl, rfl⟩) rfl rfl rfl
    split
    · exact hR.trans hc (hR.setPeerFlags ..)
    · exact hc

theorem apSimpleReply (s : ApIface α) (a : α) (stype : MgmtStype) (reason : BitVec 16)
    (tx : MgmtTx) : R s (s.apSimpleReply a stype reason tx) := by
  apply hR.trans (hR.mgmtTx s a stype tx)
  exact hR.emit _ _ nofun

theorem mlmeApAuthReply (s : ApIface α) (a bssid : α) (alg transaction status : BitVec 16)
    (ies : Option Challenge) (tx : MgmtTx) :
    R s (s.mlmeApAuthReply a bssid alg transaction status ies tx).1 := by
  apply hR.trans (hR.mgmtTx s a .auth tx)
  exact hR.emit _ _ nofun

theorem keepAssocIe (s : ApIface α) (a : α) (ie : List (BitVec 8)) (alloc : Bool) :
    R s (s.keepAssocIe a ie alloc) :=
  hR.update a (fun c =>
    { c with assocReqIe := if c.assocReqIe.isNone && alloc then some ie else c.assocReqIe })
    (fun _ => ⟨rfl, rfl⟩) rfl rfl rfl

theorem setClient {a : α} {c c' : Client} (hc : s.clients a = some c) (hs : c'.state = c.state)
    (ha : c'.aid = c.aid) : R s (s.setClient a c') := by
  refine hR.update a (fun x => { c' with state := x.state, aid := x.aid })
    (fun _ => ⟨rfl, rfl⟩) ?_ rfl rfl
  simp [ApIface.setClient, hc, ← hs, ← ha]

theorem addStation (s : ApIface α) (a : α) (r : AddSta) : R s (s.addStation a r) := by
  unfold ApIface.addStation
  split
  · exact hR.setPeer ..
  · split_ifs
    · exact hR.refl s
    · exact hR.setPeer ..
    · exact hR.emit _ _ nofun

theorem mlmeApAuthTimeout (msecsToJiffies : ℕ → Jiffies) (s : ApIface α) (a : α) (c : Client)
    (queued : Bool) : R s (s.mlmeApAuthTimeout msecsToJiffies a c queued) := by
  unfold ApIface.mlmeApAuthTimeout
  dsimp only
  split_ifs <;> exact hR.same rfl rfl rfl

omit [DecidableEq α] hR in
theorem foldl (hrefl : ∀ s, R s s) (htrans : ∀ {s t u}, R s t → R t u → R s u)
    {f : ApIface α → ℕ → ApIface α} (hf : ∀ s i, R s (f s i)) (l : List ℕ) (s : ApIface α) :
    R s (l.foldl f s) := by
  induction l generalizing s with
  | nil => exact hrefl s
  | cons i l ih => exact htrans (hf s i) (ih _)

end Mild

namespace Closed
variable (hR : Closed R)
include hR

theorem sapDelSta (s : ApIface α) (idx subtype : ℕ) (reason : BitVec 16) (ret : ℤ) :
    R s (s.sapDelSta idx subtype reason ret).1 := by
  unfold ApIface.sapDelSta
  cases s.peerCtx idx with
  | none => exact hR.refl s
  | some p =>
    dsimp only
    have hd : R s (((s.setPeer idx (some { p with state := .none, deauthed := true
        })).mlmeApRemoveClient p.addr).emit (.cmdDelSta p.addr subtype reason !p.deauthed)) := by
      apply hR.trans (hR.setPeer ..)
      apply hR.trans (hR.delClient ..)
      exact hR.emit _ _ nofun
    split
    · exact hR.trans hd (hR.setPeer ..)
    · exact hd

theorem delStation (s : ApIface α) (a : α) (subtype : ℕ) (reason : BitVec 16) (ret : ℤ) :
    R s (s.delStation a subtype reason ret).1 := by
  unfold ApIface.delStation
  split
  · exact hR.refl s
  · exact hR.sapDelSta ..

theorem mlmeApDelSta (s : ApIface α) (a : α) (ret : ℤ) : R s (s.mlmeApDelSta a ret) :=
  hR.delStation ..

/-- A client that failed is set back and its station removed. -/
theorem failed (s : ApIface α) (a : α) (ret : ℤ) :
    R s ((s.setState a .none).mlmeApDelSta a ret) :=
  hR.trans (hR.setState ..) (hR.mlmeApDelSta ..)

theorem sapFlushSta (s : ApIface α) (subtype : ℕ) (reason : BitVec 16) (ret : ℕ → ℤ) :
    R s (s.sapFlushSta subtype reason ret) :=
  Mild.foldl hR.refl hR.trans (fun s i => hR.sapDelSta s i _ _ _) _ s

theorem apAclCheck (s : ApIface α) (ret : ℕ → ℤ) : R s (s.apAclCheck ret) := by
  unfold ApIface.apAclCheck
  refine Mild.foldl hR.refl hR.trans (fun s i => ?_) _ s
  split
  · exact hR.refl s
  · split
    · exact hR.refl s
    · exact hR.mlmeApDelSta ..

theorem authClient (s : ApIface α) (a : α) (r : AuthEnv) : R s (s.authClient a r) := by
  unfold ApIface.authClient
  split
  · exact hR.refl s
  · next hn =>
    split
    · exact hR.trans (hR.addClient s a hn) (hR.addStation ..)
    · exact hR.refl s

theorem mlmeApRxLeave (s : ApIface α) (a : α) (ret : ℤ) : R s (s.mlmeApRxLeave a ret) := by
  unfold ApIface.mlmeApRxLeave
  split
  · exact hR.refl s
  · split_ifs
    · exact hR.emit _ _ nofun
    · exact hR.mlmeApDelSta ..
    · exact hR.refl s

theorem mlmeApAuthCb (s : ApIface α) (t : TxStatus α) (ret : ℤ) : R s (s.mlmeApAuthCb t ret) := by
  unfold ApIface.mlmeApAuthCb
  split
  · exact hR.same rfl rfl rfl
  · exact hR.failed ..

/-- An authentication frame is refused, or the handler meets it after such a change. -/
theorem sapRxAuth_cases (s : ApIface α) (f : AuthFrame α) (r : AuthEnv) :
    R s (s.sapRxAuth f r) ∨ ∃ u, R s u ∧ s.sapRxAuth f r = u.mlmeApAuthHandler f r := by
  unfold ApIface.sapRxAuth
  dsimp only
  split
  · right
    split
    · exact ⟨s, hR.refl s, rfl⟩
    · exact ⟨_, hR.setPeer .., rfl⟩
  · exact .inl (hR.emit _ _ nofun)

/-- The handlers but three consist of such changes. -/
theorem handle {msecsToJiffies : ℕ → Jiffies} {e : ApEvent α}
    (h : s.handle msecsToJiffies e = some t) (he : e.letsIn = false) : R s t := by
  cases e with
  | rxAuth f r => cases he
  | rxAssoc f r => cases he
  | txStatus u ret => cases he
  | rxLeave sa ret =>
    cases Option.some.inj h
    exact hR.trans (hR.setPeerFlags ..) (hR.mlmeApRxLeave ..)
  | rxOther sa =>
    cases Option.some.inj h
    exact hR.emit _ _ nofun
  | authTimeout a queued =>
    simp only [ApIface.handle] at h
    split at h
    · cases h
    · split_ifs at h
      cases Option.some.inj h
      exact hR.mlmeApAuthTimeout ..
  | localEvent ret =>
    simp only [ApIface.handle] at h
    split at h
    · cases h
    · next l _ =>
      cases Option.some.inj h
      have hq : R s { s with localEvents := l } := hR.same rfl rfl rfl
      exact hR.trans hq (hR.mlmeApDelSta ..)
  | delStation a subtype reason ret =>
    cases Option.some.inj h
    exact hR.delStation ..
  | flushSta subtype reason ret =>
    cases Option.some.inj h
    exact hR.sapFlushSta ..
  | addStation a r =>
    cases Option.some.inj h
    exact hR.addStation ..
  | changeStation a associated authorized =>
    cases Option.some.inj h
    exact hR.changeStation ..
  | saeAccept a =>
    cases Option.some.inj h
    exact hR.refl s
  | setMacAcl acl =>
    cases Option.some.inj h
    exact hR.same rfl rfl rfl
  | aclCheck ret =>
    cases Option.some.inj h
    exact hR.apAclCheck ..
  | eventDelSta a =>
    cases Option.some.inj h
    split
    · exact hR.emit _ _ nofun
    · exact hR.refl s
  | recover a =>
    cases Option.some.inj h
    apply hR.trans (hR.delClient s a)
    exact hR.emit _ _ nofun
  | tick now =>
    cases Option.some.inj h
    exact hR.same rfl rfl rfl

theorem handle_cases {msecsToJiffies : ℕ → Jiffies} {e : ApEvent α}
    (h : s.handle msecsToJiffies e = some t) :
    (∃ f r, e = .rxAuth f r ∧ t = s.sapRxAuth f r) ∨
      (∃ f r, e = .rxAssoc f r ∧ t = s.mlmeApAssocHandler f r) ∨
      (∃ u ret, e = .txStatus u ret ∧ t = s.mlmeApTxStatus u ret) ∨ R s t := by
  by_cases he : e.letsIn = true
  · cases e with
    | rxAuth f r => exact .inl ⟨f, r, rfl, (Option.some.inj h).symm⟩
    | rxAssoc f r => exact .inr (.inl ⟨f, r, rfl, (Option.some.inj h).symm⟩)
    | txStatus u ret => exact .inr (.inr (.inl ⟨u, ret, rfl, (Option.some.inj h).symm⟩))
    | _ => cases he
  · exact .inr (.inr (.inr (hR.handle h (Bool.eq_false_of_not_eq_true he))))

end Closed
end Skw
