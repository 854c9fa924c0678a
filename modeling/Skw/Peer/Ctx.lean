import Skw.Kernel.Types
import Mathlib.Logic.Function.Basic
import Mathlib.Data.List.FinRange

/-! Peers and the contexts that hold them. A context has the peer, which it owns, and the entry
inside that peer, through which the data path reads it; an interface has a bitmap of its contexts
and a count of the active ones. -/
namespace Skw

/-- Contexts are found by lmac and index. -/
abbrev CtxId := Fin SKW_MAX_LMAC_SUPPORT × Fin SKW_MAX_PEER_SUPPORT

/-- The last four fields are bits of `flags`. -/
structure CtxPeer (α : Type*) where
  addr : Option α
  idx : ℕ
  iface : Option IfaceId
  badId : Bool
  badAddr : Bool
  active : Bool
  deauthed : Bool
deriving DecidableEq

/-- The entry lies in the allocation of its peer, so the peer's pointer names it. -/
structure PeerCtx where
  peer : Option Ptr
  entry : Option Ptr
deriving DecidableEq

/-- `bssCtxIdx` is the context of the station's access point, 0xff (`SKW_INVALID_ID`) for none. -/
structure PeerIface where
  lmacId : Fin SKW_MAX_LMAC_SUPPORT
  peerMap : Fin SKW_MAX_PEER_SUPPORT → Bool
  activedCtx : ℤ
  iftype : Iftype
  legacyP2pDev : Bool
  bssCtxIdx : BitVec 8

/-- `next` is the next allocation of a peer and `freed` those released so far; `fault` is set when
a pointer outside of the contexts, or NULL, is followed. -/
structure PeerSys (α : Type*) where
  nrLmac : ℕ
  peer : Ptr → CtxPeer α
  next : Ptr
  ctx : CtxId → PeerCtx
  iface : IfaceId → PeerIface
  rdPeer : CtxId → Option Ptr
  rdPeerMap : IfaceId → Fin SKW_MAX_PEER_SUPPORT → Bool
  chipRecovery : Bool
  freed : List Ptr
  fault : Bool

/-- `peer->flags` is not 0. -/
def CtxPeer.flagged {α : Type*} (p : CtxPeer α) : Bool :=
  p.badId || p.badAddr || p.active || p.deauthed

namespace PeerSys
variable {α : Type*}

def setPeer (s : PeerSys α) (p : Ptr) (f : CtxPeer α → CtxPeer α) : PeerSys α :=
  { s with peer := Function.update s.peer p (f (s.peer p)) }

def setIface (s : PeerSys α) (n : IfaceId) (f : PeerIface → PeerIface) : PeerSys α :=
  { s with iface := Function.update s.iface n (f (s.iface n)) }

def setCtx (s : PeerSys α) (c : CtxId) (f : PeerCtx → PeerCtx) : PeerSys α :=
  { s with ctx := Function.update s.ctx c (f (s.ctx c)) }

/-- Changes the count of active contexts of the interface of a peer. -/
def addActived (s : PeerSys α) (p : Ptr) (k : ℤ) : PeerSys α :=
  match (s.peer p).iface with
  | none => { s with fault := true }
  | some n => s.setIface n fun i => { i with activedCtx := i.activedCtx + k }

/-- `skw_peer_alloc`: the peer `next`, all zero. -/
def peerAlloc (s : PeerSys α) : PeerSys α :=
  { s with
    peer := Function.update s.peer s.next ⟨none, 0, none, false, false, false, false⟩
    next := s.next + 1 }

def peerInit (s : PeerSys α) (p : Ptr) (addr : Option α) (idx : ℕ) : PeerSys α :=
  s.setPeer p fun x =>
    { x with
      addr := addr <|> x.addr, idx, iface := none
      badId := x.badId || decide (SKW_MAX_PEER_SUPPORT ≤ idx)
      badAddr := x.badAddr || addr.isNone }

/-- `skw_peer_free`, and `SKW_KFREE` of a peer that was not bound. -/
def peerFree (s : PeerSys α) : Option Ptr → PeerSys α
  | none => s
  | some p => { s with freed := p :: s.freed }

def peerCtxTransmit (s : PeerSys α) (c : CtxId) (enable : Bool) : PeerSys α :=
  if enable then
    match (s.ctx c).peer with
    | none => s
    | some p =>
      if (s.peer p).flagged then s
      else
        ((s.setCtx c fun x => { x with entry := some p }).addActived p 1).setPeer p fun x =>
          { x with active := true }
  else
    match (s.ctx c).entry with
    | none => s
    | some p =>
      ((s.addActived p (-1)).setPeer p fun x => { x with active := false }).setCtx c fun x =>
        { x with entry := none }

/-- The bit of a context in the bitmap of an interface. -/
def setBit (s : PeerSys α) (n : IfaceId) (i : Fin SKW_MAX_PEER_SUPPORT) (b : Bool) : PeerSys α :=
  s.setIface n fun x => { x with peerMap := Function.update x.peerMap i b }

/-- `ctx` is NULL for an index outside of the contexts. -/
def peerCtxBind (s : PeerSys α) (n : IfaceId) (ctx : Option CtxId) (peer : Option Ptr) :
    ℤ × PeerSys α :=
  match ctx with
  | none => (- EINVAL, s)
  | some c =>
    let t := ((s.setBit n c.2 false).peerFree (s.ctx c).peer).setCtx c fun x =>
      { x with peer := none }
    match peer with
    | none => (0, t)
    | some p =>
      (0, ((t.setPeer p fun x => { x with iface := some n }).setCtx c fun x =>
        { x with peer := some p }).setBit n c.2 true)

def getCtx (lmacId : Fin SKW_MAX_LMAC_SUPPORT) (idx : BitVec 8) : Option CtxId :=
  if h : idx.toNat < SKW_MAX_PEER_SUPPORT then some (lmacId, ⟨idx.toNat, h⟩) else none

section
variable [DecidableEq α]

/-- `skw_peer_ctx`: the first context of the bitmap, on the interface's lmac, whose peer has this
address. -/
def peerCtx (s : PeerSys α) (n : IfaceId) (mac : α) : Option CtxId :=
  ((List.finRange SKW_MAX_PEER_SUPPORT).find? fun i =>
    (s.iface n).peerMap i &&
      (s.ctx ((s.iface n).lmacId, i)).peer.any fun p => (s.peer p).addr == some mac).map
    fun i => ((s.iface n).lmacId, i)

/-- `alloc` is whether the peer is allocated, `ret` and `idx` what the firmware answers. -/
def addStation (s : PeerSys α) (n : IfaceId) (mac : α) (alloc : Bool) (ret : ℤ) (idx : BitVec 8) :
    ℤ × PeerSys α :=
  match s.peerCtx n mac with
  | some c => (0, s.peerCtxTransmit c false)
  | none =>
    if alloc = false then (- ENOMEM, s)
    else if ret ≠ 0 then (ret, s.peerAlloc.peerFree (some s.next))
    else
      let t := s.peerAlloc.peerInit s.next (some mac) idx.toNat
      match getCtx (s.iface n).lmacId idx with
      | none => (- EINVAL, t.peerFree (some s.next))
      | some c => (0, (t.peerCtxBind n (some c) (some s.next)).2.peerCtxTransmit c false)

/-- `lmac` and `idx` are `lmac_id` and `peer_idx` of the firmware's answer; `skw_get_ctx` compares
only the index with its bound, and `skw_lmac_bind_iface` the lmac after the peer is bound. -/
def join (s : PeerSys α) (n : IfaceId) (bssid : α) (alloc : Bool) (ret : ℤ) (lmac idx : BitVec 8) :
    ℤ × PeerSys α :=
  if alloc = false then (- ENOMEM, s)
  else if ret < 0 then (ret, s.peerAlloc.peerFree (some s.next))
  else
    let t := s.peerAlloc.peerInit s.next (some bssid) idx.toNat
    if SKW_MAX_PEER_SUPPORT ≤ idx.toNat then (- EFAULT, t.peerFree (some s.next))
    else if h : lmac.toNat < SKW_MAX_LMAC_SUPPORT then
      let u := (t.peerCtxBind n (getCtx ⟨lmac.toNat, h⟩ idx) (some s.next)).2
      (0, u.setIface n fun x =>
        { x with
          lmacId := if lmac.toNat < s.nrLmac then ⟨lmac.toNat, h⟩ else x.lmacId
          bssCtxIdx := idx })
    else (0, { t with fault := true })

/-- `ret` is what the firmware answers to the deletion. -/
def sapDelSta (s : PeerSys α) (n : IfaceId) (ctx : Option CtxId) (ret : ℤ) : ℤ × PeerSys α :=
  match ctx with
  | none => (0, s)
  | some c =>
    match (s.ctx c).peer with
    | none => (0, s)
    | some p =>
      let t := (s.peerCtxTransmit c false).setPeer p fun x => { x with deauthed := true }
      if ret ≠ 0 then (ret, t) else (0, (t.peerCtxBind n (some c) none).2)

def unjoin (s : PeerSys α) (n : IfaceId) (bssid : α) (ret : ℤ) : ℤ × PeerSys α :=
  match s.peerCtx n bssid with
  | none => (0, s)
  | some c =>
    let t := s.peerCtxTransmit c false
    if ret ≠ 0 then (ret, t)
    else
      (0, ((t.setIface n fun x => { x with bssCtxIdx := 0xff }).peerCtxBind n (some c)
        none).2)

end

/-- What `skw_mode_deinit` does to peers: the context of the station's access point is unbound. -/
def modeDeinit (s : PeerSys α) (n : IfaceId) (iftype : Iftype) : PeerSys α :=
  if (iftype = .station ∨ iftype = .p2pClient) ∧ (s.iface n).legacyP2pDev = false then
    (s.peerCtxBind n (getCtx (s.iface n).lmacId (s.iface n).bssCtxIdx) none).2.setIface n fun x =>
      { x with bssCtxIdx := 0xff }
  else s

def ifaceTeardown (s : PeerSys α) (n : IfaceId) : PeerSys α := s.modeDeinit n (s.iface n).iftype

/-- While an earlier recovery is under way the contexts are emptied without keeping their peers. -/
def recoveryPrepare (s : PeerSys α) : PeerSys α :=
  { s with
    chipRecovery := true
    ctx := fun _ => ⟨none, none⟩
    rdPeer := if s.chipRecovery then s.rdPeer else fun c => (s.ctx c).peer
    rdPeerMap := if s.chipRecovery then s.rdPeerMap else fun n => (s.iface n).peerMap
    iface := fun n => { s.iface n with peerMap := fun _ => false } }

end PeerSys
end Skw
