import Skw.Lib.Machine
import Skw.Lib.Tally
import Skw.Peer.Ctx
import Mathlib.Data.Fintype.Prod

/-! What ties a context to its peer and its interface. A context may be bound to another peer only
while its entry is cleared and by the interface that owns its peer; two callers do not see to
that, and the preparation of a recovery forgets the counts. -/
namespace Skw

inductive PeerEvent (α : Type*)
  | addStation (n : IfaceId) (mac : α) (alloc : Bool) (ret : ℤ) (idx : BitVec 8)
  | sapDelSta (n : IfaceId) (ctx : Option CtxId) (ret : ℤ)
  | join (n : IfaceId) (bssid : α) (alloc : Bool) (ret : ℤ) (lmac idx : BitVec 8)
  | unjoin (n : IfaceId) (bssid : α) (ret : ℤ)
  | transmit (ctx : Option CtxId) (enable : Bool)
  | ifaceTeardown (n : IfaceId)
  | modeDeinit (n : IfaceId) (iftype : Iftype)
  | recoveryPrepare

namespace PeerSys
section
variable {α : Type*}

/-- The interface that the peer of a context belongs to. -/
def owner (s : PeerSys α) (c : CtxId) : Option IfaceId :=
  (s.ctx c).peer.bind fun p => (s.peer p).iface

/-- The context has an entry and a peer of this interface. -/
def sends (s : PeerSys α) (n : IfaceId) (c : CtxId) : Bool :=
  (s.ctx c).entry.isSome && decide (s.owner c = some n)

/-- A bitmap speaks of the contexts of its interface's lmac. -/
structure Consistent (s : PeerSys α) : Prop where
  entry : ∀ c p, (s.ctx c).entry = some p → (s.ctx c).peer = some p
  live : ∀ c p, (s.ctx c).peer = some p → p ∉ s.freed
  peerMap : ∀ n c,
    ((s.iface n).lmacId = c.1 ∧ (s.iface n).peerMap c.2 = true) ↔ s.owner c = some n
  activedCtx : ∀ n, (s.iface n).activedCtx = Lib.tally (s.sends n)
  inside : s.fault = false

/-- A context that interface `n` may bind: it holds no peer of another interface. -/
def Own (s : PeerSys α) (n : IfaceId) (c : CtxId) : Prop :=
  s.owner c = none ∨ s.owner c = some n

def Quiet (s : PeerSys α) (c : CtxId) : Prop := (s.ctx c).entry = none

instance (s : PeerSys α) (n : IfaceId) (c : CtxId) : Decidable (s.Own n c) :=
  inferInstanceAs (Decidable (_ ∨ _))

instance (s : PeerSys α) (c : CtxId) : Decidable (s.Quiet c) := inferInstanceAs (Decidable (_ = _))

/-- `skw_mode_deinit` unbinds the context of the access point. -/
def Unbinds (s : PeerSys α) (n : IfaceId) (iftype : Iftype) : Prop :=
  (iftype = .station ∨ iftype = .p2pClient) ∧ (s.iface n).legacyP2pDev = false

instance (s : PeerSys α) (n : IfaceId) (iftype : Iftype) : Decidable (s.Unbinds n iftype) :=
  inferInstanceAs (Decidable (_ ∧ _))

def DeinitQuiet (s : PeerSys α) (n : IfaceId) (iftype : Iftype) : Prop :=
  s.Unbinds n iftype →
    ∀ c ∈ getCtx (s.iface n).lmacId (s.iface n).bssCtxIdx, s.Own n c ∧ s.Quiet c

instance (s : PeerSys α) (n : IfaceId) (iftype : Iftype) : Decidable (s.DeinitQuiet n iftype) :=
  inferInstanceAs (Decidable (_ → _))

variable [DecidableEq α]

/-- Who binds a context owns the peer that it holds; the context of a join and that of a station
mode being left are not active; a join that changes the lmac finds no other peer; a recovery
begins with no active context. -/
def Orderly (s : PeerSys α) : PeerEvent α → Prop
  | .addStation n mac alloc ret idx =>
    s.peerCtx n mac = none ∧ alloc = true ∧ ret = 0 →
      ∀ c ∈ getCtx (s.iface n).lmacId idx, s.Own n c
  | .sapDelSta n ctx ret => ret = 0 → ∀ c ∈ ctx, s.Own n c
  | .join n _ alloc ret lmac idx =>
    alloc = true ∧ 0 ≤ ret ∧ idx.toNat < SKW_MAX_PEER_SUPPORT →
      ∃ l : Fin SKW_MAX_LMAC_SUPPORT, l.val = lmac.toNat ∧
        ((s.iface n).lmacId = l ∨
          l.val < s.nrLmac ∧ ∀ i, (s.iface n).peerMap i = false) ∧
        ∀ c ∈ getCtx l idx, s.Own n c ∧ s.Quiet c
  | .unjoin _ _ _ => True
  | .transmit _ _ => True
  | .ifaceTeardown n => s.DeinitQuiet n (s.iface n).iftype
  | .modeDeinit n iftype => s.DeinitQuiet n iftype
  | .recoveryPrepare => ∀ c, s.Quiet c

instance (s : PeerSys α) (e : PeerEvent α) : Decidable (s.Orderly e) :=
  match e with
  | .addStation .. => inferInstanceAs (Decidable (_ → _))
  | .sapDelSta .. => inferInstanceAs (Decidable (_ → _))
  | .join .. => inferInstanceAs (Decidable (_ → _))
  | .unjoin .. => inferInstanceAs (Decidable True)
  | .transmit .. => inferInstanceAs (Decidable True)
  | .ifaceTeardown n => inferInstanceAs (Decidable (s.DeinitQuiet n _))
  | .modeDeinit n iftype => inferInstanceAs (Decidable (s.DeinitQuiet n iftype))
  | .recoveryPrepare => inferInstanceAs (Decidable (∀ c, s.Quiet c))

def step (s : PeerSys α) : PeerEvent α → Option (PeerSys α)
  | .addStation n mac alloc ret idx => some (s.addStation n mac alloc ret idx).2
  | .sapDelSta n ctx ret => some (s.sapDelSta n ctx ret).2
  | .join n bssid alloc ret lmac idx => some (s.join n bssid alloc ret lmac idx).2
  | .unjoin n bssid ret => some (s.unjoin n bssid ret).2
  | .transmit none _ => some s
  | .transmit (some c) enable => some (s.peerCtxTransmit c enable)
  | .ifaceTeardown n => some (s.ifaceTeardown n)
  | .modeDeinit n iftype => some (s.modeDeinit n iftype)
  | .recoveryPrepare => some s.recoveryPrepare

end

section
variable {α : Type*}

structure Inv (s : PeerSys α) : Prop extends s.Consistent where
  owned : ∀ c p, (s.ctx c).peer = some p → (s.peer p).iface ≠ none
  once : ∀ c d p, (s.ctx c).peer = some p → (s.ctx d).peer = some p → c = d
  old : ∀ c p, (s.ctx c).peer = some p → p < s.next
  freedOld : ∀ p ∈ s.freed, p < s.next
  active : ∀ c p, (s.ctx c).entry = some p → (s.peer p).active = true

variable {s t : PeerSys α} {n m : IfaceId} {c d : CtxId} {p q : Ptr}

theorem owner_of_peer (hp : (s.ctx c).peer = some p) : s.owner c = (s.peer p).iface := by
  rw [owner, hp]
  rfl

theorem owner_of_none (hp : (s.ctx c).peer = none) : s.owner c = none := by
  rw [owner, hp]
  rfl

theorem sends_of_quiet (h : s.Quiet c) : s.sends n c = false := by
  rw [sends, h]
  rfl

/-- Peers that are not bound may change, and fields that no invariant reads. -/
theorem Inv.congr (h : s.Inv) (hc : t.ctx = s.ctx)
    (hi : ∀ n, (t.iface n).lmacId = (s.iface n).lmacId ∧ (t.iface n).peerMap = (s.iface n).peerMap ∧
      (t.iface n).activedCtx = (s.iface n).activedCtx)
    (hp : ∀ c p, (s.ctx c).peer = some p →
      (t.peer p).iface = (s.peer p).iface ∧ (t.peer p).active = (s.peer p).active)
    (hn : s.next ≤ t.next) (hf : t.freed = s.freed) (hfault : t.fault = s.fault) : t.Inv := by
  have howner : t.owner = s.owner := by
    funext c
    cases hcp : (s.ctx c).peer with
    | none => rw [owner_of_none hcp, owner_of_none (hc ▸ hcp)]
    | some p => rw [owner_of_peer hcp, owner_of_peer (hc ▸ hcp), (hp c p hcp).1]
  have hsends : t.sends = s.sends := by
    funext n c
    rw [sends, sends, howner, hc]
  constructor
  · constructor
    · rw [hc]
      exact h.entry
    · rw [hc, hf]
      exact h.live
    · intro n c
      rw [howner, (hi n).1, (hi n).2.1]
      exact h.peerMap n c
    · intro n
      rw [hsends, (hi n).2.2]
      exact h.activedCtx n
    · exact hfault.trans h.inside
  · rw [hc]
    intro c p hcp
    rw [(hp c p hcp).1]
    exact h.owned c p hcp
  · rw [hc]
    exact h.once
  · rw [hc]
    exact fun c p hcp => (h.old c p hcp).trans_le hn
  · rw [hf]
    exact fun p hfr => (h.freedOld p hfr).trans_le hn
  · rw [hc]
    intro c p he
    rw [(hp c p (h.entry c p he)).2]
    exact h.active c p he

/-- The entry of a bound peer is set or cleared, and its interface's count follows. -/
structure Toggles (s t : PeerSys α) (n : IfaceId) (c : CtxId) (p : Ptr) (on : Bool) : Prop where
  ctx : t.ctx = Function.update s.ctx c ⟨some p, if on = true then some p else none⟩
  iface : t.iface = Function.update s.iface n
    { s.iface n with activedCtx := (s.iface n).activedCtx + if on = true then 1 else -1 }
  peer : t.peer = Function.update s.peer p { s.peer p with active := on }
  next : t.next = s.next
  freed : t.freed = s.freed
  fault : t.fault = s.fault

namespace Toggles
variable {on : Bool}

theorem ctx_of_ne (b : s.Toggles t n c p on) (hd : d ≠ c) : t.ctx d = s.ctx d := by
  rw [b.ctx, Function.update_of_ne hd]

theorem entry_self (b : s.Toggles t n c p on) :
    (t.ctx c).entry = if on = true then some p else none := by
  rw [b.ctx, Function.update_self]

theorem peer_eq (b : s.Toggles t n c p on) (hp : (s.ctx c).peer = some p) (d : CtxId) :
    (t.ctx d).peer = (s.ctx d).peer := by
  rcases eq_or_ne d c with rfl | hne
  · rw [b.ctx, Function.update_self, hp]
  · rw [b.ctx_of_ne hne]

theorem peerIface (b : s.Toggles t n c p on) (q : Ptr) : (t.peer q).iface = (s.peer q).iface := by
  rw [b.peer]
  rcases eq_or_ne q p with rfl | hne
  · rw [Function.update_self]
  · rw [Function.update_of_ne hne]

theorem owner_eq (b : s.Toggles t n c p on) (hp : (s.ctx c).peer = some p) :
    t.owner = s.owner := by
  funext d
  simp only [owner, b.peer_eq hp, b.peerIface]

/-- The count of each interface is that of its entries. -/
theorem activedCtx (b : s.Toggles t n c p on) (h : s.Inv) (hp : (s.ctx c).peer = some p)
    (hn : (s.peer p).iface = some n) (hon : (s.ctx c).entry.isSome = !on) (m : IfaceId) :
    (t.iface m).activedCtx = Lib.tally (t.sends m) := by
  have hown : s.owner c = some n := (owner_of_peer hp).trans hn
  have hoff : ∀ d, d ≠ c → t.sends m d = s.sends m d := fun d hd => by
    rw [sends, sends, b.owner_eq hp, b.ctx_of_ne hd]
  rcases eq_or_ne m n with rfl | hne
  · have htally := Lib.tally_of_eq_off (p := s.sends m) (q := t.sends m) c hoff
    have hs : s.sends m c = !on := by simp [sends, hown, hon]
    have ht : t.sends m c = on := by
      rw [sends, b.owner_eq hp, hown, b.entry_self]
      cases on <;> simp
    have hcount := h.activedCtx m
    rw [hs, ht] at htally
    rw [b.iface, Function.update_self]
    cases on with
    | true => simp at htally ⊢; omega
    | false => simp at htally ⊢; omega
  · have hsame : t.sends m = s.sends m := by
      funext d
      rcases eq_or_ne d c with rfl | hd
      · simp [sends, b.owner_eq hp, hown, hne.symm]
      · exact hoff d hd
    rw [b.iface, Function.update_of_ne hne, hsame]
    exact h.activedCtx m

end Toggles

theorem Inv.toggle (h : s.Inv) (hp : (s.ctx c).peer = some p) (hn : (s.peer p).iface = some n)
    (on : Bool) (hon : (s.ctx c).entry.isSome = !on) (b : s.Toggles t n c p on) : t.Inv := by
  have hpeers := b.peer_eq hp
  constructor
  · constructor
    · intro d q he
      rw [hpeers]
      rcases eq_or_ne d c with rfl | hne
      · rw [b.entry_self] at he
        cases on with
        | true => exact hp.trans he
        | false => cases he
      · exact h.entry d q (b.ctx_of_ne hne ▸ he)
    · intro d q hd
      rw [b.freed]
      exact h.live d q (hpeers d ▸ hd)
    · intro m d
      rw [b.owner_eq hp, ← h.peerMap m d, b.iface]
      rcases eq_or_ne m n with rfl | hne
      · rw [Function.update_self]
      · rw [Function.update_of_ne hne]
    · exact b.activedCtx h hp hn hon
    · exact b.fault.trans h.inside
  · intro d q hd
    rw [b.peerIface]
    exact h.owned d q (hpeers d ▸ hd)
  · intro d d' q hd hd'
    exact h.once d d' q (hpeers d ▸ hd) (hpeers d' ▸ hd')
  · intro d q hd
    rw [b.next]
    exact h.old d q (hpeers d ▸ hd)
  · rw [b.next, b.freed]
    exact h.freedOld
  · intro d q he
    rcases eq_or_ne d c with rfl | hne
    · rw [b.entry_self] at he
      cases on with
      | true =>
        cases he
        rw [b.peer, Function.update_self]
      | false => cases he
    · have he' : (s.ctx d).entry = some q := b.ctx_of_ne hne ▸ he
      have hq : q ≠ p := fun hqp => hne (h.once d c p (hqp ▸ h.entry d q he') hp)
      rw [b.peer, Function.update_of_ne hq]
      exact h.active d q he'

theorem Inv.transmit (h : s.Inv) (c : CtxId) (enable : Bool) :
    (s.peerCtxTransmit c enable).Inv := by
  unfold peerCtxTransmit
  cases enable with
  | true =>
    rw [if_pos rfl]
    cases hp : (s.ctx c).peer with
    | none => exact h
    | some p =>
      dsimp only
      split
      · exact h
      · next hf =>
        obtain ⟨n, hn⟩ := Option.ne_none_iff_exists'.mp (h.owned c p hp)
        have hquiet : (s.ctx c).entry = none := by
          cases he : (s.ctx c).entry with
          | none => rfl
          | some q =>
            have hq := (h.entry c q he).symm.trans hp
            cases hq
            simp [CtxPeer.flagged, h.active c p he] at hf
        apply h.toggle hp hn true
        · rw [hquiet]; rfl
        · constructor <;> simp [addActived, setCtx, setPeer, setIface, hn, hp]
  | false =>
    rw [if_neg Bool.false_ne_true]
    cases he : (s.ctx c).entry with
    | none => exact h
    | some p =>
      have hp := h.entry c p he
      obtain ⟨n, hn⟩ := Option.ne_none_iff_exists'.mp (h.owned c p hp)
      apply h.toggle hp hn false
      · rw [he]; rfl
      · constructor <;> simp [addActived, setCtx, setPeer, setIface, hn, hp]

/-- What a binding changes. -/
structure Binds (s t : PeerSys α) (n : IfaceId) (c : CtxId) (peer : Option Ptr) : Prop where
  ctx : t.ctx = Function.update s.ctx c ⟨peer, (s.ctx c).entry⟩
  iface : t.iface = Function.update s.iface n { s.iface n with
    peerMap := Function.update (s.iface n).peerMap c.2 peer.isSome }
  active : ∀ q, (t.peer q).active = (s.peer q).active
  peerIface : ∀ q, (t.peer q).iface = if peer = some q then some n else (s.peer q).iface
  freed : t.freed = (s.ctx c).peer.toList ++ s.freed
  next : t.next = s.next
  fault : t.fault = s.fault

theorem binds_peerCtxBind (s : PeerSys α) (n : IfaceId) (c : CtxId) (peer : Option Ptr) :
    s.Binds (s.peerCtxBind n (some c) peer).2 n c peer := by
  have hfree : ∀ (u : PeerSys α) (o : Option Ptr), u.peerFree o =
      { u with freed := o.toList ++ u.freed } := by
    intro u o
    cases o <;> rfl
  cases peer with
  | none => constructor <;> simp [peerCtxBind, hfree, setBit, setIface, setCtx]
  | some p =>
    have hpeer : ∀ q, q ≠ p → (Function.update s.peer p { s.peer p with iface := some n }) q =
        s.peer q := fun q hne => Function.update_of_ne hne ..
    constructor
    · simp [peerCtxBind, hfree, setBit, setIface, setCtx, setPeer]
    · simp [peerCtxBind, hfree, setBit, setIface, setCtx, setPeer]
    · intro q
      rcases eq_or_ne p q with rfl | hne
      · simp [peerCtxBind, hfree, setBit, setIface, setCtx, setPeer]
      · simp [peerCtxBind, hfree, setBit, setIface, setCtx, setPeer, hpeer q hne.symm]
    · intro q
      rcases eq_or_ne p q with rfl | hne
      · simp [peerCtxBind, hfree, setBit, setIface, setCtx, setPeer]
      · simp [peerCtxBind, hfree, setBit, setIface, setCtx, setPeer, hne, hpeer q hne.symm]
    · simp [peerCtxBind, hfree, setBit, setIface, setCtx, setPeer]
    · simp [peerCtxBind, hfree, setBit, setIface, setCtx, setPeer]
    · simp [peerCtxBind, hfree, setBit, setIface, setCtx, setPeer]

/-- A peer that no context holds. -/
structure Unbound (s : PeerSys α) (p : Ptr) : Prop where
  old : p < s.next
  notHeld : ∀ d, (s.ctx d).peer ≠ some p
  live : p ∉ s.freed

namespace Binds
variable {peer : Option Ptr}

theorem ctx_of_ne (b : s.Binds t n c peer) (hne : d ≠ c) : t.ctx d = s.ctx d := by
  rw [b.ctx, Function.update_of_ne hne]

theorem ctx_self (b : s.Binds t n c peer) (hq : s.Quiet c) : t.ctx c = ⟨peer, none⟩ := by
  rw [b.ctx, Function.update_self, hq]

theorem iface_of_ne (b : s.Binds t n c peer) (hm : m ≠ n) : t.iface m = s.iface m := by
  rw [b.iface, Function.update_of_ne hm]

theorem iface_self (b : s.Binds t n c peer) : t.iface n = { s.iface n with
    peerMap := Function.update (s.iface n).peerMap c.2 peer.isSome } := by
  rw [b.iface, Function.update_self]

theorem lmacId (b : s.Binds t n c peer) (m : IfaceId) :
    (t.iface m).lmacId = (s.iface m).lmacId := by
  rcases eq_or_ne m n with rfl | hm
  · rw [b.iface_self]
  · rw [b.iface_of_ne hm]

/-- A context that holds a peer afterwards is the one that was bound, or held it before. -/
theorem held (b : s.Binds t n c peer) (hd : (t.ctx d).peer = some q) :
    d = c ∧ peer = some q ∨ d ≠ c ∧ (s.ctx d).peer = some q := by
  rcases eq_or_ne d c with rfl | hne
  · left
    rw [b.ctx, Function.update_self] at hd
    exact ⟨rfl, hd⟩
  · right
    exact ⟨hne, b.ctx_of_ne hne ▸ hd⟩

/-- A peer that was held keeps its interface. -/
theorem peerIface_of_held (b : s.Binds t n c peer) (hpeer : ∀ p ∈ peer, s.Unbound p)
    (hd : (s.ctx d).peer = some q) : (t.peer q).iface = (s.peer q).iface := by
  rw [b.peerIface, if_neg]
  exact fun he => (hpeer q he).notHeld d hd

theorem owner_of_ne (b : s.Binds t n c peer) (hpeer : ∀ p ∈ peer, s.Unbound p) (hne : d ≠ c) :
    t.owner d = s.owner d := by
  have hctx := b.ctx_of_ne hne
  cases hd : (s.ctx d).peer with
  | none => rw [owner_of_none hd, owner_of_none (hctx ▸ hd)]
  | some q => rw [owner_of_peer hd, owner_of_peer (hctx ▸ hd), b.peerIface_of_held hpeer hd]

theorem owner_self (b : s.Binds t n c peer) :
    t.owner c = if peer.isSome = true then some n else none := by
  have hpeer : (t.ctx c).peer = peer := by rw [b.ctx, Function.update_self]
  cases peer with
  | none => exact owner_of_none hpeer
  | some p => exact (owner_of_peer hpeer).trans (by rw [b.peerIface]; simp)

theorem sends_eq (b : s.Binds t n c peer) (hpeer : ∀ p ∈ peer, s.Unbound p) (hq : s.Quiet c) :
    t.sends = s.sends := by
  funext m d
  rcases eq_or_ne d c with rfl | hne
  · rw [sends_of_quiet hq, sends_of_quiet (by rw [Quiet, b.ctx_self hq])]
  · rw [sends, sends, b.ctx_of_ne hne, b.owner_of_ne hpeer hne]

/-- The bitmaps follow the owners. -/
theorem peerMap_iff (b : s.Binds t n c peer) (h : s.Inv) (ho : s.Own n c)
    (hl : (s.iface n).lmacId = c.1) (hpeer : ∀ p ∈ peer, s.Unbound p) (m : IfaceId) (d : CtxId) :
    ((t.iface m).lmacId = d.1 ∧ (t.iface m).peerMap d.2 = true) ↔ t.owner d = some m := by
  rw [b.lmacId]
  rcases eq_or_ne d c with rfl | hne
  · rw [b.owner_self]
    rcases eq_or_ne m n with rfl | hm
    · rw [b.iface_self]
      cases peer <;> simp [hl]
    · have hnot : ¬ ((s.iface m).lmacId = d.1 ∧ (s.iface m).peerMap d.2 = true) := by
        rw [h.peerMap m d]
        rcases ho with ho | ho
        · simp [ho]
        · simp [ho, hm.symm]
      rw [b.iface_of_ne hm]
      constructor
      · exact fun hb => absurd hb hnot
      · intro hb
        split at hb
        · exact absurd (Option.some.inj hb).symm hm
        · cases hb
  · rw [b.owner_of_ne hpeer hne, ← h.peerMap m d]
    rcases eq_or_ne m n with rfl | hm
    · rw [b.iface_self]
      rcases eq_or_ne d.2 c.2 with h2 | h2
      · have h1 : (s.iface m).lmacId ≠ d.1 := fun h1 => hne (Prod.ext (h1.symm.trans hl) h2)
        simp [h1]
      · dsimp only
        rw [Function.update_of_ne h2]
    · rw [b.iface_of_ne hm]

end Binds

/-- A context that is not active is bound to a new peer, or unbound, by the interface that owns
the peer it held. -/
theorem Inv.bind (h : s.Inv) (hq : s.Quiet c) (ho : s.Own n c) (hl : (s.iface n).lmacId = c.1)
    {peer : Option Ptr} (hpeer : ∀ p ∈ peer, s.Unbound p) :
    (s.peerCtxBind n (some c) peer).2.Inv := by
  have b := s.binds_peerCtxBind n c peer
  generalize (s.peerCtxBind n (some c) peer).2 = t at *
  have hentry : ∀ d q, (t.ctx d).entry = some q → d ≠ c := by
    rintro d q he rfl
    rw [b.ctx_self hq] at he
    cases he
  constructor
  · constructor
    · intro d q he
      have hctx := b.ctx_of_ne (hentry d q he)
      rw [hctx] at he ⊢
      exact h.entry d q he
    · intro d q hd hfr
      rw [b.freed, List.mem_append, Option.mem_toList] at hfr
      rcases b.held hd with ⟨rfl, hpq⟩ | ⟨hne, hdq⟩
      · rcases hfr with hfr | hfr
        · exact (hpeer q hpq).notHeld d hfr
        · exact (hpeer q hpq).live hfr
      · rcases hfr with hfr | hfr
        · exact hne (h.once d c q hdq hfr)
        · exact h.live d q hdq hfr
    · exact b.peerMap_iff h ho hl hpeer
    · intro m
      rw [b.sends_eq hpeer hq, ← h.activedCtx m]
      rcases eq_or_ne m n with rfl | hm
      · rw [b.iface_self]
      · rw [b.iface_of_ne hm]
    · exact b.fault.trans h.inside
  · intro d q hd
    rcases b.held hd with ⟨rfl, hpq⟩ | ⟨hne, hdq⟩
    · rw [b.peerIface, if_pos hpq]
      exact Option.some_ne_none n
    · rw [b.peerIface_of_held hpeer hdq]
      exact h.owned d q hdq
  · intro d e q hd he
    rcases b.held hd with ⟨rfl, hpq⟩ | ⟨hne, hdq⟩
    · rcases b.held he with ⟨rfl, -⟩ | ⟨-, heq⟩
      · rfl
      · exact absurd heq ((hpeer q hpq).notHeld e)
    · rcases b.held he with ⟨rfl, hpq⟩ | ⟨-, heq⟩
      · exact absurd hdq ((hpeer q hpq).notHeld d)
      · exact h.once d e q hdq heq
  · intro d q hd
    rw [b.next]
    rcases b.held hd with ⟨rfl, hpq⟩ | ⟨hne, hdq⟩
    · exact (hpeer q hpq).old
    · exact h.old d q hdq
  · intro q hfr
    rw [b.freed, List.mem_append, Option.mem_toList] at hfr
    rw [b.next]
    rcases hfr with hfr | hfr
    · exact h.old c q hfr
    · exact h.freedOld q hfr
  · intro d q he
    have hctx := b.ctx_of_ne (hentry d q he)
    rw [hctx] at he
    rw [b.active]
    exact h.active d q he

/-- The interface moves to another lmac with no peer bound. -/
theorem Inv.setLmac (h : s.Inv) (l : Fin SKW_MAX_LMAC_SUPPORT) (idx : BitVec 8)
    (hl : (s.iface n).lmacId = l ∨ ∀ i, (s.iface n).peerMap i = false) :
    (s.setIface n fun x => { x with lmacId := l, bssCtxIdx := idx }).Inv where
  entry := h.entry
  live := h.live
  peerMap m c := by
    have hs : (s.setIface n fun x => { x with lmacId := l, bssCtxIdx := idx }).owner c =
      s.owner c := rfl
    rw [hs, ← h.peerMap m c, setIface]
    rcases eq_or_ne m n with rfl | hne
    · simp only [Function.update_self]
      rcases hl with hl | hl
      · rw [hl]
      · simp [hl]
    · simp only [Function.update_of_ne hne]
  activedCtx m := by
    refine Eq.trans ?_ (h.activedCtx m)
    rw [setIface]
    rcases eq_or_ne m n with rfl | hne
    · simp only [Function.update_self]
    · simp only [Function.update_of_ne hne]
  inside := h.inside
  owned := h.owned
  once := h.once
  old := h.old
  freedOld := h.freedOld
  active := h.active

theorem Inv.setBssCtxIdx (h : s.Inv) (idx : BitVec 8) :
    (s.setIface n fun x => { x with bssCtxIdx := idx }).Inv :=
  h.setLmac (s.iface n).lmacId idx (.inl rfl)

/-- A peer changes that no context holds, or in another field than those the invariant reads. -/
theorem Inv.setPeer (h : s.Inv) (p : Ptr) (f : CtxPeer α → CtxPeer α)
    (hf : s.Unbound p ∨ ∀ x, (f x).iface = x.iface ∧ (f x).active = x.active) :
    (s.setPeer p f).Inv := by
  have hctx : (s.setPeer p f).ctx = s.ctx := rfl
  apply h.congr hctx
  · exact fun _ => ⟨rfl, rfl, rfl⟩
  · intro c q hq
    rw [PeerSys.setPeer]
    rcases eq_or_ne q p with rfl | hne
    · rcases hf with hf | hf
      · exact absurd hq (hf.notHeld c)
      · simpa using hf _
    · simp [Function.update_of_ne hne]
  · exact le_rfl
  · rfl
  · rfl

theorem Inv.peerAlloc (h : s.Inv) : s.peerAlloc.Inv ∧ s.peerAlloc.Unbound s.next := by
  have hne : ∀ c p, (s.ctx c).peer = some p → p ≠ s.next := fun c p hp => (h.old c p hp).ne
  have hctx : s.peerAlloc.ctx = s.ctx := rfl
  constructor
  · apply h.congr hctx
    · exact fun _ => ⟨rfl, rfl, rfl⟩
    · intro c p hp
      simp [PeerSys.peerAlloc, Function.update_of_ne (hne c p hp)]
    · exact Nat.le_succ _
    · rfl
    · rfl
  · constructor
    · exact Nat.lt_succ_self _
    · exact fun d hd => hne d _ hd rfl
    · exact fun hfr => (h.freedOld _ hfr).ne rfl

/-- A new peer, filled in and not held yet. -/
theorem Inv.peerInit (h : s.Inv) (addr : Option α) (idx : ℕ) :
    (s.peerAlloc.peerInit s.next addr idx).Inv ∧
      (s.peerAlloc.peerInit s.next addr idx).Unbound s.next := by
  obtain ⟨ha, hu⟩ := h.peerAlloc
  exact ⟨ha.setPeer _ _ (.inl hu), hu.old, hu.notHeld, hu.live⟩

/-- A peer that no context holds is released. -/
theorem Inv.peerFree (h : s.Inv) (hp : s.Unbound p) : (s.peerFree (some p)).Inv where
  entry := h.entry
  live c q hq hfr := by
    rcases List.mem_cons.mp hfr with rfl | hfr
    · exact hp.notHeld c hq
    · exact h.live c q hq hfr
  peerMap := h.peerMap
  activedCtx := h.activedCtx
  inside := h.inside
  owned := h.owned
  once := h.once
  old := h.old
  freedOld q hfr := by
    rcases List.mem_cons.mp hfr with rfl | hfr
    · exact hp.old
    · exact h.freedOld q hfr
  active := h.active

theorem Inv.recoveryPrepare (h : s.Inv) (hq : ∀ c, s.Quiet c) : s.recoveryPrepare.Inv where
  entry _ _ he := by cases he
  live _ _ hp := by cases hp
  peerMap n c := by simp [PeerSys.recoveryPrepare, owner]
  activedCtx n := by
    have hnone : s.sends n = fun _ => false := funext fun c => sends_of_quiet (hq c)
    have hcount := h.activedCtx n
    rw [hnone, Lib.tally_false] at hcount
    have hnone' : s.recoveryPrepare.sends n = fun _ => false := rfl
    rw [hnone', Lib.tally_false]
    exact hcount
  inside := h.inside
  owned _ _ hp := by cases hp
  once _ _ _ hp := by cases hp
  old _ _ hp := by cases hp
  freedOld := h.freedOld
  active _ _ he := by cases he

/-- Disabling a context after its peer was replaced by a new one of the same interface is the same
as disabling it before. -/
theorem bind_transmit (h : s.Inv) (ho : s.Own n c) (hq : s.Unbound q) :
    ((s.peerCtxBind n (some c) (some q)).2.peerCtxTransmit c false) =
      ((s.peerCtxTransmit c false).peerCtxBind n (some c) (some q)).2 := by
  cases he : (s.ctx c).entry with
  | none =>
    have hctx := (s.binds_peerCtxBind n c (some q)).ctx
    have hb : ((s.peerCtxBind n (some c) (some q)).2.ctx c).entry = none := by
      rw [hctx, Function.update_self]
      exact he
    simp only [peerCtxTransmit, he, hb, Bool.false_eq_true, if_false]
  | some p =>
    have hp := h.entry c p he
    have hne : p ≠ q := fun hpq => hq.notHeld c (hpq ▸ hp)
    have hn : (s.peer p).iface = some n := by
      rcases ho with ho | ho
      · exact absurd ((owner_of_peer hp).symm.trans ho) (h.owned c p hp)
      · exact (owner_of_peer hp).symm.trans ho
    simp [peerCtxBind, peerCtxTransmit, addActived, setBit, setIface, setCtx, setPeer, peerFree,
      he, hp, hn, hne, Function.update_of_ne hne.symm]
    exact Function.update_comm hne.symm _ _ _

/-- Binding does not read the lmac, so the interface may as well move first. -/
theorem bind_setLmac (s : PeerSys α) (n : IfaceId) (c : CtxId) (q : Ptr)
    (l : Fin SKW_MAX_LMAC_SUPPORT) (idx : BitVec 8) :
    (s.peerCtxBind n (some c) (some q)).2.setIface n
        (fun x => { x with lmacId := l, bssCtxIdx := idx }) =
      ((s.setIface n fun x => { x with lmacId := l, bssCtxIdx := idx }).peerCtxBind n (some c)
        (some q)).2 := by
  cases hp : (s.ctx c).peer <;>
    simp [peerCtxBind, setBit, setIface, setCtx, setPeer, peerFree, hp]

/-- No peer is bound, released or renamed; the interfaces keep what finds their peers. -/
structure Keeps (s t : PeerSys α) : Prop where
  ctx : ∀ d, (t.ctx d).peer = (s.ctx d).peer
  peer : ∀ q < s.next, (t.peer q).iface = (s.peer q).iface ∧ (t.peer q).addr = (s.peer q).addr
  next : s.next ≤ t.next
  iface : ∀ m, (t.iface m).lmacId = (s.iface m).lmacId ∧
    (t.iface m).peerMap = (s.iface m).peerMap ∧ (t.iface m).bssCtxIdx = (s.iface m).bssCtxIdx
  nrLmac : t.nrLmac = s.nrLmac

theorem Keeps.refl (s : PeerSys α) : s.Keeps s :=
  ⟨fun _ => rfl, fun _ _ => ⟨rfl, rfl⟩, le_rfl, fun _ => ⟨rfl, rfl, rfl⟩, rfl⟩

theorem Keeps.trans (h : s.Keeps t) {u : PeerSys α} (h' : t.Keeps u) : s.Keeps u where
  ctx d := (h'.ctx d).trans (h.ctx d)
  peer q hq := by
    obtain ⟨hi, ha⟩ := h.peer q hq
    obtain ⟨hi', ha'⟩ := h'.peer q (hq.trans_le h.next)
    exact ⟨hi'.trans hi, ha'.trans ha⟩
  next := h.next.trans h'.next
  iface m := by
    obtain ⟨hl, hp, hb⟩ := h.iface m
    obtain ⟨hl', hp', hb'⟩ := h'.iface m
    exact ⟨hl'.trans hl, hp'.trans hp, hb'.trans hb⟩
  nrLmac := h'.nrLmac.trans h.nrLmac

theorem keeps_setPeer (s : PeerSys α) (p : Ptr) (f : CtxPeer α → CtxPeer α)
    (hf : s.next ≤ p ∨ ∀ x, (f x).iface = x.iface ∧ (f x).addr = x.addr) :
    s.Keeps (s.setPeer p f) := by
  refine ⟨fun _ => rfl, fun q hq => ?_, le_rfl, fun _ => ⟨rfl, rfl, rfl⟩, rfl⟩
  unfold setPeer
  rcases eq_or_ne q p with rfl | hne
  · rcases hf with hf | hf
    · exact absurd hq (not_lt.mpr hf)
    · simpa using hf _
  · simp [Function.update_of_ne hne]

theorem keeps_setIface (s : PeerSys α) (n : IfaceId) (f : PeerIface → PeerIface)
    (hf : ∀ x, (f x).lmacId = x.lmacId ∧ (f x).peerMap = x.peerMap ∧
      (f x).bssCtxIdx = x.bssCtxIdx) : s.Keeps (s.setIface n f) := by
  refine ⟨fun _ => rfl, fun _ _ => ⟨rfl, rfl⟩, le_rfl, fun m => ?_, rfl⟩
  unfold setIface
  rcases eq_or_ne m n with rfl | hne
  · simpa using hf _
  · simp [Function.update_of_ne hne]

theorem keeps_setEntry (s : PeerSys α) (c : CtxId) (o : Option Ptr) :
    s.Keeps (s.setCtx c fun x => { x with entry := o }) := by
  refine ⟨fun d => ?_, fun _ _ => ⟨rfl, rfl⟩, le_rfl, fun _ => ⟨rfl, rfl, rfl⟩, rfl⟩
  rcases eq_or_ne d c with rfl | hne
  · simp [setCtx]
  · simp [setCtx, Function.update_of_ne hne]

theorem keeps_addActived (s : PeerSys α) (p : Ptr) (k : ℤ) : s.Keeps (s.addActived p k) := by
  unfold addActived
  split
  · exact ⟨fun _ => rfl, fun _ _ => ⟨rfl, rfl⟩, le_rfl, fun _ => ⟨rfl, rfl, rfl⟩, rfl⟩
  · exact s.keeps_setIface _ _ fun _ => ⟨rfl, rfl, rfl⟩

theorem keeps_transmit (s : PeerSys α) (c : CtxId) (enable : Bool) :
    s.Keeps (s.peerCtxTransmit c enable) := by
  unfold peerCtxTransmit
  split
  · split
    · exact .refl s
    · split
      · exact .refl s
      · next p _ _ =>
        apply (s.keeps_setEntry c (some p)).trans
        apply (keeps_addActived _ p 1).trans
        exact keeps_setPeer _ p _ (.inr fun _ => ⟨rfl, rfl⟩)
  · split
    · exact .refl s
    · next p _ =>
      apply (s.keeps_addActived p (-1)).trans
      apply (keeps_setPeer _ p (fun x => { x with active := false })
        (.inr fun _ => ⟨rfl, rfl⟩)).trans
      exact keeps_setEntry _ c none

theorem keeps_peerAlloc (s : PeerSys α) : s.Keeps s.peerAlloc := by
  refine ⟨fun _ => rfl, fun q hq => ?_, Nat.le_succ _, fun _ => ⟨rfl, rfl, rfl⟩, rfl⟩
  simp [peerAlloc, Function.update_of_ne hq.ne]

theorem keeps_peerFree (s : PeerSys α) (o : Option Ptr) : s.Keeps (s.peerFree o) := by
  cases o <;> exact ⟨fun _ => rfl, fun _ _ => ⟨rfl, rfl⟩, le_rfl, fun _ => ⟨rfl, rfl, rfl⟩, rfl⟩

theorem keeps_peerInit (s : PeerSys α) (addr : Option α) (idx : ℕ) :
    s.Keeps (s.peerAlloc.peerInit s.next addr idx) := by
  refine ⟨fun _ => rfl, fun q hq => ?_, Nat.le_succ _, fun _ => ⟨rfl, rfl, rfl⟩, rfl⟩
  simp [peerInit, peerAlloc, setPeer, Function.update_of_ne hq.ne]

theorem Keeps.owner (h : s.Keeps t) (hold : ∀ c p, (s.ctx c).peer = some p → p < s.next)
    (d : CtxId) : t.owner d = s.owner d := by
  cases hd : (s.ctx d).peer with
  | none => rw [owner_of_none hd, owner_of_none ((h.ctx d).trans hd)]
  | some p =>
    rw [owner_of_peer hd, owner_of_peer ((h.ctx d).trans hd), (h.peer p (hold d p hd)).1]

theorem Keeps.own (h : s.Keeps t) (hold : ∀ c p, (s.ctx c).peer = some p → p < s.next)
    (ho : s.Own n c) : t.Own n c := by
  rw [Own, h.owner hold]
  exact ho

theorem transmit_frame (s : PeerSys α) (c : CtxId) (enable : Bool) :
    (∀ d, ((s.peerCtxTransmit c enable).ctx d).peer = (s.ctx d).peer) ∧
      (s.peerCtxTransmit c enable).next = s.next ∧
      (s.peerCtxTransmit c enable).freed = s.freed := by
  have hset : ∀ (o : Option Ptr) (d : CtxId),
      (Function.update s.ctx c { s.ctx c with entry := o } d).peer = (s.ctx d).peer := by
    intro o d
    rcases eq_or_ne d c with rfl | hne
    · rw [Function.update_self]
    · rw [Function.update_of_ne hne]
  have hadd : ∀ (u : PeerSys α) (p : Ptr) (k : ℤ), (u.addActived p k).ctx = u.ctx ∧
      (u.addActived p k).next = u.next ∧ (u.addActived p k).freed = u.freed := by
    intro u p k
    unfold addActived
    split <;> exact ⟨rfl, rfl, rfl⟩
  unfold peerCtxTransmit
  split
  · split
    · exact ⟨fun _ => rfl, rfl, rfl⟩
    · split
      · exact ⟨fun _ => rfl, rfl, rfl⟩
      · next p _ _ =>
        obtain ⟨hc, hn, hf⟩ := hadd (s.setCtx c fun x => { x with entry := some p }) p 1
        refine ⟨fun d => ?_, hn, hf⟩
        exact (congrArg (fun x => (x d).peer) hc).trans (hset _ d)
  · split
    · exact ⟨fun _ => rfl, rfl, rfl⟩
    · next p _ =>
      obtain ⟨hc, hn, hf⟩ := hadd s p (-1)
      refine ⟨fun d => ?_, hn, hf⟩
      simp only [setCtx, PeerSys.setPeer, hc]
      exact hset none d

theorem Unbound.transmit (hu : s.Unbound q) (c : CtxId) (enable : Bool) :
    (s.peerCtxTransmit c enable).Unbound q := by
  obtain ⟨hctx, hnext, hfreed⟩ := s.transmit_frame c enable
  exact ⟨hnext ▸ hu.old, fun d hd => hu.notHeld d (hctx d ▸ hd), hfreed ▸ hu.live⟩

theorem quiet_transmit (s : PeerSys α) (c : CtxId) : (s.peerCtxTransmit c false).Quiet c := by
  unfold peerCtxTransmit Quiet
  cases he : (s.ctx c).entry with
  | none => simp [he]
  | some p => simp [setCtx]

theorem getCtx_fst {l : Fin SKW_MAX_LMAC_SUPPORT} {idx : BitVec 8} (hc : c ∈ getCtx l idx) :
    c.1 = l := by
  unfold getCtx at hc
  split at hc
  · cases hc; rfl
  · cases hc

/-- A context whose peer belongs to the interface is one of its lmac. -/
theorem Inv.lmacId_of_own (h : s.Inv) (hp : (s.ctx c).peer = some p) (ho : s.Own n c) :
    (s.iface n).lmacId = c.1 := by
  rcases ho with ho | ho
  · exact absurd ((owner_of_peer hp).symm.trans ho) (h.owned c p hp)
  · exact ((h.peerMap n c).mpr ho).1

theorem Inv.unbind (h : s.Inv) (n : IfaceId) {ctx : Option CtxId}
    (hc : ∀ c ∈ ctx, (s.iface n).lmacId = c.1 ∧ s.Own n c ∧ s.Quiet c) :
    (s.peerCtxBind n ctx none).2.Inv := by
  cases ctx with
  | none => exact h
  | some c =>
    obtain ⟨hl, ho, hq⟩ := hc c rfl
    exact h.bind hq ho hl nofun

theorem Inv.modeDeinit (h : s.Inv) {iftype : Iftype} (hd : s.DeinitQuiet n iftype) :
    (s.modeDeinit n iftype).Inv := by
  unfold PeerSys.modeDeinit
  split
  · next hu =>
    apply Inv.setBssCtxIdx
    apply h.unbind n
    intro c hc
    exact ⟨(getCtx_fst hc).symm, hd hu c hc⟩
  · exact h

theorem Inv.sapDelSta (h : s.Inv) {ctx : Option CtxId} {ret : ℤ}
    (hg : ret = 0 → ∀ c ∈ ctx, s.Own n c) : (s.sapDelSta n ctx ret).2.Inv := by
  unfold PeerSys.sapDelSta
  cases ctx with
  | none => exact h
  | some c =>
    dsimp only
    cases hp : (s.ctx c).peer with
    | none => exact h
    | some p =>
      have ht := h.transmit c false
      have hk := s.keeps_transmit c false
      have hd := ht.setPeer p (fun x => { x with deauthed := true }) (.inr fun _ => ⟨rfl, rfl⟩)
      dsimp only
      split
      · exact hd
      · next hret =>
        have ho := hg (not_not.mp hret) c rfl
        apply hd.unbind n
        intro d hd
        cases hd
        have hk' := hk.trans (keeps_setPeer _ p (fun x => { x with deauthed := true })
          (.inr fun _ => ⟨rfl, rfl⟩))
        have hl := (hk.iface n).1.trans (h.lmacId_of_own hp ho)
        exact ⟨hl, hk'.own h.old ho, s.quiet_transmit c⟩

/-- A join whose answer names a context and an lmac that the interface has or may move to. -/
theorem join_accepted (s : PeerSys α) {a : α} {alloc : Bool} {ret : ℤ} {lmac idx : BitVec 8}
    {l : Fin SKW_MAX_LMAC_SUPPORT} (halloc : alloc = true) (hret : 0 ≤ ret)
    (hidx : idx.toNat < SKW_MAX_PEER_SUPPORT) (hl : l.val = lmac.toNat)
    (hmove : (s.iface n).lmacId = l ∨ l.val < s.nrLmac) :
    s.join n a alloc ret lmac idx =
      (0, ((s.peerAlloc.peerInit s.next (some a) idx.toNat).peerCtxBind n
        (some (l, ⟨idx.toNat, hidx⟩)) (some s.next)).2.setIface n
          fun x => { x with lmacId := l, bssCtxIdx := idx }) := by
  have hlt : lmac.toNat < SKW_MAX_LMAC_SUPPORT := hl ▸ l.isLt
  have hll : (⟨lmac.toNat, hlt⟩ : Fin SKW_MAX_LMAC_SUPPORT) = l := Fin.ext hl.symm
  have hget : getCtx l idx = some (l, ⟨idx.toNat, hidx⟩) := dif_pos hidx
  have hmap : (s.peerAlloc.peerInit s.next (some a) idx.toNat).iface = s.iface := rfl
  unfold PeerSys.join
  rw [if_neg (by simp [halloc]), if_neg (not_lt.mpr hret)]
  generalize s.peerAlloc.peerInit s.next (some a) idx.toNat = u at *
  dsimp only
  rw [if_neg (not_le.mpr hidx), dif_pos hlt, hll, hget]
  have hb := (u.binds_peerCtxBind n (l, ⟨idx.toNat, hidx⟩) (some s.next)).iface
  unfold setIface
  rw [hb, Function.update_self, hmap]
  rcases hmove with hmove | hmove
  · simp [hmove]
  · simp [hl ▸ hmove]

end

section
variable {α : Type*} [DecidableEq α] {s t : PeerSys α} {n : IfaceId} {c : CtxId} {a : α}

/-- A context that is found by address belongs to the interface. -/
theorem Inv.owner_of_peerCtx (h : s.Inv) (hc : s.peerCtx n a = some c) :
    (s.iface n).lmacId = c.1 ∧ s.owner c = some n := by
  obtain ⟨i, hi, rfl⟩ := Option.map_eq_some_iff.mp hc
  have hbit := List.find?_some hi
  rw [Bool.and_eq_true] at hbit
  exact ⟨rfl, (h.peerMap n _).mp ⟨rfl, hbit.1⟩⟩

theorem Inv.unjoin (h : s.Inv) (ret : ℤ) : (s.unjoin n a ret).2.Inv := by
  unfold PeerSys.unjoin
  split
  · exact h
  · next c hc =>
    obtain ⟨hl, ho⟩ := h.owner_of_peerCtx hc
    have ht := h.transmit c false
    have hk := s.keeps_transmit c false
    have hown : (s.peerCtxTransmit c false).Own n c := hk.own h.old (.inr ho)
    dsimp only
    split
    · exact ht
    · apply (ht.setBssCtxIdx 0xff).unbind n
      intro d hd
      cases hd
      have hl' : (((s.peerCtxTransmit c false).setIface n fun x =>
          { x with bssCtxIdx := 0xff }).iface n).lmacId = c.1 := by
        simpa [setIface] using (hk.iface n).1.trans hl
      exact ⟨hl', hown, s.quiet_transmit c⟩

theorem Inv.addStation (h : s.Inv) {alloc : Bool} {ret : ℤ} {idx : BitVec 8}
    (hg : s.Orderly (.addStation n a alloc ret idx)) :
    (s.addStation n a alloc ret idx).2.Inv := by
  unfold PeerSys.addStation
  split
  · next c hc => exact h.transmit c false
  · next hnone =>
    split
    · exact h
    · next halloc =>
      split
      · obtain ⟨ha, hu⟩ := h.peerAlloc
        exact ha.peerFree hu
      · next hret =>
        obtain ⟨hi, hu⟩ := h.peerInit (some a) idx.toNat
        have hk := s.keeps_peerInit (some a) idx.toNat
        generalize s.peerAlloc.peerInit s.next (some a) idx.toNat = u at *
        dsimp only
        split
        · exact hi.peerFree hu
        · next c hc =>
          have hown := hk.own h.old (hg ⟨hnone, by simpa using halloc, not_not.mp hret⟩ c hc)
          have hkt := u.keeps_transmit c false
          dsimp only
          rw [bind_transmit hi hown hu]
          apply (hi.transmit c false).bind (u.quiet_transmit c) (hkt.own hi.old hown)
          · exact ((hkt.iface n).1.trans (hk.iface n).1).trans (getCtx_fst hc).symm
          · intro p hp
            cases hp
            exact hu.transmit c false

theorem Inv.join (h : s.Inv) {alloc : Bool} {ret : ℤ} {lmac idx : BitVec 8}
    (hg : s.Orderly (.join n a alloc ret lmac idx)) :
    (s.join n a alloc ret lmac idx).2.Inv := by
  by_cases haccepted : alloc = true ∧ 0 ≤ ret ∧ idx.toNat < SKW_MAX_PEER_SUPPORT
  · obtain ⟨l, hl, hmove, hc⟩ := hg haccepted
    obtain ⟨halloc, hret, hidx⟩ := haccepted
    obtain ⟨hi, hu⟩ := h.peerInit (some a) idx.toNat
    have hk := s.keeps_peerInit (some a) idx.toNat
    have hget : getCtx l idx = some (l, ⟨idx.toNat, hidx⟩) := dif_pos hidx
    obtain ⟨ho, hq⟩ := hc _ hget
    rw [s.join_accepted halloc hret hidx hl (hmove.imp id And.left)]
    dsimp only
    rw [bind_setLmac]
    apply Inv.bind
    · exact hi.setLmac l idx (hmove.imp id And.right)
    · exact hq
    · exact hk.own h.old ho
    · simp [setIface]
    · intro p hp
      cases hp
      exact ⟨hu.old, hu.notHeld, hu.live⟩
  · unfold PeerSys.join
    split
    · exact h
    · next halloc =>
      split
      · obtain ⟨ha, hu⟩ := h.peerAlloc
        exact ha.peerFree hu
      · next hret =>
        have hidx : SKW_MAX_PEER_SUPPORT ≤ idx.toNat := by
          by_contra hidx
          exact haccepted ⟨by simpa using halloc, not_lt.mp hret, not_le.mp hidx⟩
        obtain ⟨hi, hu⟩ := h.peerInit (some a) idx.toNat
        dsimp only
        rw [if_pos hidx]
        exact hi.peerFree hu

theorem Inv.step (h : s.Inv) {e : PeerEvent α} (hg : s.Orderly e) (hs : s.step e = some t) :
    t.Inv := by
  cases e with
  | addStation n mac alloc ret idx =>
    cases hs
    exact h.addStation hg
  | sapDelSta n ctx ret =>
    cases hs
    exact h.sapDelSta hg
  | join n bssid alloc ret lmac idx =>
    cases hs
    exact h.join hg
  | unjoin n bssid ret =>
    cases hs
    exact h.unjoin ret
  | transmit ctx enable =>
    cases ctx with
    | none =>
      cases hs
      exact h
    | some c =>
      cases hs
      exact h.transmit c enable
  | ifaceTeardown n =>
    cases hs
    exact h.modeDeinit hg
  | modeDeinit n iftype =>
    cases hs
    exact h.modeDeinit hg
  | recoveryPrepare =>
    cases hs
    exact h.recoveryPrepare hg

end

section
variable {α : Type*}

/-- No peer is bound; the interfaces have any type and lmac. -/
def init (nrLmac : ℕ) (peer : Ptr → CtxPeer α) (lmacId : IfaceId → Fin SKW_MAX_LMAC_SUPPORT)
    (iftype : IfaceId → Iftype) (legacy : IfaceId → Bool) : PeerSys α where
  nrLmac := nrLmac
  peer := peer
  next := 1
  ctx := fun _ => ⟨none, none⟩
  iface := fun n => ⟨lmacId n, fun _ => false, 0, iftype n, legacy n, 0xff⟩
  rdPeer := fun _ => none
  rdPeerMap := fun _ _ => false
  chipRecovery := false
  freed := []
  fault := false

variable (nrLmac : ℕ) (peer : Ptr → CtxPeer α) (lmacId : IfaceId → Fin SKW_MAX_LMAC_SUPPORT)
  (iftype : IfaceId → Iftype) (legacy : IfaceId → Bool)

theorem init_inv : (init nrLmac peer lmacId iftype legacy).Inv where
  entry _ _ he := by cases he
  live _ _ hp := by cases hp
  peerMap n c := by simp [init, owner]
  activedCtx n := by
    have hnone : (init nrLmac peer lmacId iftype legacy).sends n = fun _ => false := rfl
    rw [hnone, Lib.tally_false]
    rfl
  inside := rfl
  owned _ _ hp := by cases hp
  once _ _ _ hp := by cases hp
  old _ _ hp := by cases hp
  freedOld _ hfr := by cases hfr
  active _ _ he := by cases he

/-- Runs whose steps are orderly keep the entries, the bitmaps and the counts. -/
theorem consistent_of_orderly [DecidableEq α] (s : PeerSys α)
    (h : Lib.Reach step Orderly (init nrLmac peer lmacId iftype legacy) s) : s.Consistent :=
  (h.invariant (init_inv nrLmac peer lmacId iftype legacy)
    fun _ _ _ hi hg hs => hi.step hg hs).toConsistent

end

/-- Two lmacs and four stations. -/
def twoLmacs : PeerSys ℕ :=
  init 2 (fun _ => ⟨none, 0, none, false, false, false, false⟩) (fun _ => 0) (fun _ => .station)
    fun _ => false

/-- A station joins, is enabled, and leaves its access point. -/
theorem consistent_of_orderly_leave :
    ∃ s, Lib.Reach step Orderly twoLmacs s ∧ s.freed = [1] ∧ s.Consistent := by
  obtain ⟨s, hs, hp⟩ := Lib.exists_reach_of_exec step Orderly twoLmacs
    [.join 0 7 true 0 1 3, .transmit (some (1, 3)) true, .unjoin 0 7 0]
    (fun s => s.freed == [1]) (by decide +kernel)
  exact ⟨s, hs, by simpa using hp, consistent_of_orderly _ _ _ _ _ s hs⟩

/-- The interface of a connected station is torn down. -/
theorem teardown_not_consistent :
    ¬ ∀ s, Lib.Reach step Lib.Free twoLmacs s → s.Consistent := by
  intro h
  obtain ⟨s, hs, hp⟩ := Lib.exists_reach_of_exec step Lib.Free twoLmacs
    [.join 0 7 true 0 1 3, .transmit (some (1, 3)) true, .ifaceTeardown 0]
    (fun s => (s.ctx (1, 3)).entry == some 1 && (s.ctx (1, 3)).peer == none) (by decide +kernel)
  simp only [Bool.and_eq_true, beq_iff_eq] at hp
  have hentry := (h s hs).entry (1, 3) 1 hp.1
  rw [hp.2] at hentry
  cases hentry

end PeerSys
end Skw
