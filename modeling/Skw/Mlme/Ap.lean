import Mathlib.Logic.Function.Basic
import Skw.Kernel.Types

/-! The MLME of an access point that the driver runs itself (`sme_external` is clear): the clients
it keeps, the frames, timeouts and requests of user space that change them, and its replies. An
event carries what the code does not decide: whether memory is there, the random challenge, what
the firmware answers. The elements of an association response are left out. -/
namespace Skw

abbrev WLAN_STATUS_SUCCESS : BitVec 16 := 0
abbrev WLAN_STATUS_UNSPECIFIED_FAILURE : BitVec 16 := 1
abbrev WLAN_STATUS_NOT_SUPPORTED_AUTH_ALG : BitVec 16 := 13
abbrev WLAN_STATUS_UNKNOWN_AUTH_TRANSACTION : BitVec 16 := 14
abbrev WLAN_STATUS_CHALLENGE_FAIL : BitVec 16 := 15
abbrev WLAN_STATUS_AP_UNABLE_TO_HANDLE_NEW_STA : BitVec 16 := 17

abbrev WLAN_AUTH_OPEN : BitVec 16 := 0
abbrev WLAN_AUTH_SHARED_KEY : BitVec 16 := 1
abbrev WLAN_AUTH_SAE : BitVec 16 := 3

abbrev SKW_LEAVE : BitVec 16 := 3
abbrev WLAN_REASON_DISASSOC_AP_BUSY : BitVec 16 := 5
abbrev WLAN_REASON_CLASS2_FRAME_FROM_NONAUTH_STA : BitVec 16 := 6

abbrev SKW_AP_AUTH_TIMEOUT : ℕ := 5000

inductive SkwStates
  | none
  | authing
  | authed
  | associng
  | assoced
  | completed
deriving DecidableEq

def SkwStates.toNat : SkwStates → ℕ
  | none => 0
  | authing => 1
  | authed => 2
  | associng => 3
  | assoced => 4
  | completed => 5

/-- The subtypes of management frames that the access point tells apart. -/
inductive MgmtStype
  | assocReq
  | assocResp
  | reassocReq
  | reassocResp
  | disassoc
  | auth
  | deauth
  | other
deriving DecidableEq

/-- The 128 bytes of a challenge text. -/
abbrev Challenge := BitVec 1024

structure Client where
  state : SkwStates
  capa : BitVec 32
  aid : BitVec 16
  challenge : Option Challenge
  cookie : BitVec 64
  idle : Jiffies
  assocReqIe : Option (List (BitVec 8))
  lastSeqCtrl : BitVec 16
deriving DecidableEq

/-- What the access point uses of `skw_peer`; `deauthed` is `SKW_PEER_FLAG_DEAUTHED`. -/
structure ApPeer (α : Type*) where
  addr : α
  state : SkwStates
  deauthed : Bool

structure AclData (α : Type*) where
  denyUnlessListed : Bool
  macAddrs : List α

/-- `text` is what stands at `variable[2]`. -/
structure AuthFrame (α : Type*) where
  sa : α
  bssid : α
  retry : Bool
  seqCtrl : BitVec 16
  authAlg : BitVec 16
  authTransaction : BitVec 16
  statusCode : BitVec 16
  text : Challenge

structure AssocFrame (α : Type*) where
  sa : α
  reassoc : Bool
  retry : Bool
  seqCtrl : BitVec 16
  capabInfo : BitVec 16
  ie : List (BitVec 8)

/-- A management frame given back by the firmware with its `cookie` and whether it was
acknowledged. -/
structure TxStatus (α : Type*) where
  cookie : BitVec 64
  da : α
  stype : MgmtStype
  statusCode : BitVec 16
  ack : Bool

/-- How a call of `skw_mgmt_tx` goes: there is no frame to hand to it, no channel, no memory, or
`skw_msg_xmit` returned `ret`. -/
inductive MgmtTx
  | noReply
  | noChan
  | noParam
  | xmit (ret : ℤ)
deriving DecidableEq

/-- What `skw_add_station` meets: memory for the peer, the answer of the firmware and the index
that comes with it. -/
structure AddSta where
  alloc : Bool
  ret : ℤ
  idx : ℕ

/-- What `skw_mlme_ap_auth_handler` meets on its way. -/
structure AuthEnv where
  alloc : Bool
  addSta : AddSta
  text : Option Challenge
  tx : MgmtTx
  delRet : ℤ

/-- What `skw_mlme_ap_assoc_handler` meets on its way. -/
structure AssocEnv where
  tx : MgmtTx
  alloc : Bool

/-- What an event hands to `skw_mgmt_tx`, to the firmware and to user space. -/
inductive ApOut (α : Type*)
  | authReply (da bssid : α) (alg transaction status : BitVec 16) (ies : Option Challenge) (ret : ℤ)
  | assocReply (da : α) (reassoc : Bool) (capa status aid : BitVec 16) (ret : ℤ)
  | simpleReply (da : α) (stype : MgmtStype) (reason : BitVec 16) (ret : ℤ)
  | cmdDelSta (mac : α) (subtype : ℕ) (reason : BitVec 16) (tx : Bool)
  | rxMgmt (sa : α) (stype : MgmtStype) (alg transaction : BitVec 16)
  | delSta (mac : α)
  | newSta (mac : α) (ies : Option (List (BitVec 8)))
  | txStatus (cookie : BitVec 64) (ack : Bool)

/-- The interface of an access point. The list of the clients is kept by address, which is how
it is searched before a client is added; `authTimeout` says that a client's timer is pending, and
`out` what the last event has handed on. -/
structure ApIface (α : Type*) where
  bssid : α
  maxStaAllowed : ℕ
  acl : Option (AclData α)
  nAkmSuites : ℕ
  clients : α → Option Client
  peerCtx : ℕ → Option (ApPeer α)
  aidMap : BitVec 64
  skwCookie : BitVec 64
  jiffies : Jiffies
  authTimeout : α → Bool
  localEvents : List α
  out : List (ApOut α)

namespace ApIface
variable {α : Type*} [DecidableEq α]

def emit (s : ApIface α) (o : ApOut α) : ApIface α := { s with out := s.out ++ [o] }

def setClient (s : ApIface α) (a : α) (c : Client) : ApIface α :=
  { s with clients := Function.update s.clients a (some c) }

def setState (s : ApIface α) (a : α) (state : SkwStates) : ApIface α :=
  { s with clients := Function.update s.clients a ((s.clients a).map ({ · with state })) }

def setPeer (s : ApIface α) (idx : ℕ) (p : Option (ApPeer α)) : ApIface α :=
  { s with peerCtx := Function.update s.peerCtx idx p }

def mlmeApDelClient (s : ApIface α) (a : α) : ApIface α :=
  match s.clients a with
  | none => s
  | some c =>
    { s with
      authTimeout := Function.update s.authTimeout a false
      clients := Function.update s.clients a none
      aidMap := if c.aid ≠ 0 then s.aidMap &&& ~~~(BitVec.twoPow 64 c.aid.toNat) else s.aidMap }

def mlmeApAddClient (s : ApIface α) (a : α) : ApIface α :=
  s.setClient a
    { state := .none, capa := 0, aid := 0, challenge := none, cookie := 0, idle := s.jiffies,
      assocReqIe := none, lastSeqCtrl := 0xFFFF }

def mlmeApRemoveClient (s : ApIface α) (a : α) : ApIface α := s.mlmeApDelClient a

/-- `skw_peer_ctx`, by the index of the context. -/
def peerCtxIdx (s : ApIface α) (a : α) : Option ℕ :=
  (List.range SKW_MAX_PEER_SUPPORT).find? fun idx => (s.peerCtx idx).any fun p => p.addr = a

def setPeerFlags (s : ApIface α) (a : α) : ApIface α :=
  match s.peerCtxIdx a with
  | none => s
  | some idx => s.setPeer idx ((s.peerCtx idx).map ({ · with deauthed := true }))

/-- The context loses its peer only when the firmware took the command. -/
def sapDelSta (s : ApIface α) (idx subtype : ℕ) (reason : BitVec 16) (ret : ℤ) :
    ApIface α × ℤ :=
  match s.peerCtx idx with
  | none => (s, 0)
  | some p =>
    let s := s.setPeer idx (some { p with state := .none, deauthed := true })
    let s := s.mlmeApRemoveClient p.addr
    let s := s.emit (.cmdDelSta p.addr subtype reason !p.deauthed)
    (if ret = 0 then s.setPeer idx none else s, ret)

def delStation (s : ApIface α) (a : α) (subtype : ℕ) (reason : BitVec 16) (ret : ℤ) :
    ApIface α × ℤ :=
  match s.peerCtxIdx a with
  | none => (s, -ENOENT)
  | some idx => s.sapDelSta idx subtype reason ret

def sapFlushSta (s : ApIface α) (subtype : ℕ) (reason : BitVec 16) (ret : ℕ → ℤ) : ApIface α :=
  (List.range SKW_MAX_PEER_SUPPORT).foldl
    (fun s idx => (s.sapDelSta idx subtype reason (ret idx)).1) s

def mlmeApDelSta (s : ApIface α) (a : α) (ret : ℤ) : ApIface α :=
  (s.delStation a 12 3 ret).1

def aclAllowed (s : ApIface α) (a : α) : Bool :=
  match s.acl with
  | none => true
  | some acl => if acl.denyUnlessListed then acl.macAddrs.contains a else !acl.macAddrs.contains a

def apAclCheck (s : ApIface α) (ret : ℕ → ℤ) : ApIface α :=
  (List.range SKW_MAX_PEER_SUPPORT).foldl
    (fun s idx =>
      match s.peerCtx idx with
      | none => s
      | some p => if s.aclAllowed p.addr then s else s.mlmeApDelSta p.addr (ret idx)) s

/-- What is left of `nr_allowed` when the loop over the contexts stops. -/
def nrAllowed (s : ApIface α) (a : α) : ℕ → List ℕ → ℕ
  | 0, _ => 0
  | nr, [] => nr
  | nr + 1, idx :: bitmap =>
    match s.peerCtx idx with
    | none => s.nrAllowed a (nr + 1) bitmap
    | some p => if p.addr = a then nr + 1 else s.nrAllowed a nr bitmap

def staAccessAllowed (s : ApIface α) (a : α) : Bool :=
  s.nrAllowed a s.maxStaAllowed (List.range SKW_MAX_PEER_SUPPORT) ≠ 0 && s.aclAllowed a

def addStation (s : ApIface α) (a : α) (r : AddSta) : ApIface α :=
  match s.peerCtxIdx a with
  | some idx => s.setPeer idx ((s.peerCtx idx).map ({ · with state := .authed }))
  | none =>
    if !r.alloc || r.ret ≠ 0 then s
    else if r.idx < SKW_MAX_PEER_SUPPORT then
      s.setPeer r.idx (some { addr := a, state := .authed, deauthed := false })
    else s.emit (.cmdDelSta a 12 SKW_LEAVE false)

def changeStation (s : ApIface α) (a : α) (associated authorized : Bool) : ApIface α :=
  match s.peerCtxIdx a with
  | none => s
  | some idx =>
    let authorized := authorized || (associated && s.nAkmSuites = 0)
    s.setPeer idx ((s.peerCtx idx).map fun p =>
      { p with
        state := if authorized then .completed else if associated then .assoced else p.state })

/-- `skw_tx_cookie` skips 0. -/
def txCookie (s : ApIface α) : BitVec 64 :=
  if s.skwCookie + 1 = 0 then 1 else s.skwCookie + 1

/-- `skw_mgmt_tx` for a reply to client `a`, whose cookie it overwrites. -/
def mgmtTx (s : ApIface α) (a : α) (stype : MgmtStype) : MgmtTx → ApIface α × ℤ
  | .noReply => (s, -ENOMEM)
  | .noChan => ({ s with skwCookie := s.txCookie }, -EINVAL)
  | .noParam => ({ s with skwCookie := s.txCookie }, -ENOMEM)
  | .xmit ret =>
    let s' := { s with
      skwCookie := s.txCookie
      clients := Function.update s.clients a
        ((s.clients a).map ({ · with cookie := s.txCookie })) }
    (if ret = 0 ∧ (stype = .deauth ∨ stype = .disassoc) then s'.setPeerFlags a else s', ret)

def apSimpleReply (s : ApIface α) (a : α) (stype : MgmtStype) (reason : BitVec 16)
    (tx : MgmtTx) : ApIface α :=
  let (s, ret) := s.mgmtTx a stype tx
  s.emit (.simpleReply a stype reason ret)

def mlmeApAuthReply (s : ApIface α) (a bssid : α) (alg transaction status : BitVec 16)
    (ies : Option Challenge) (tx : MgmtTx) : ApIface α × ℤ :=
  let (s, ret) := s.mgmtTx a .auth tx
  (s.emit (.authReply a bssid alg transaction status ies ret), ret)

/-- Where `skw_mlme_ap_auth_handler` goes after its checks: it returns, hands the frame to user
space, or replies. -/
inductive AuthNext
  | drop
  | forward
  | reply (status : BitVec 16) (c : Client) (ies : Option Challenge)

/-- The checks of `skw_mlme_ap_auth_handler`; `text` is the random challenge, if there is memory
for it. -/
def authNext (s : ApIface α) (f : AuthFrame α) (text : Option Challenge) (c : Client) :
    AuthNext :=
  if f.bssid ≠ s.bssid then .reply WLAN_STATUS_UNSPECIFIED_FAILURE c none
  else if f.authAlg = WLAN_AUTH_OPEN then
    if f.authTransaction ≠ 1 then .reply WLAN_STATUS_UNKNOWN_AUTH_TRANSACTION c none
    else if f.statusCode ≠ WLAN_STATUS_SUCCESS then .drop
    else .reply WLAN_STATUS_SUCCESS c none
  else if f.authAlg = WLAN_AUTH_SAE then .forward
  else if f.authAlg = WLAN_AUTH_SHARED_KEY then
    if f.authTransaction = 1 then
      match text with
      | none => .reply WLAN_STATUS_UNSPECIFIED_FAILURE { c with challenge := none } none
      | some t => .reply WLAN_STATUS_SUCCESS { c with challenge := some t } (some t)
    else if f.authTransaction = 3 then
      if c.challenge = some f.text then .reply WLAN_STATUS_SUCCESS c none
      else .reply WLAN_STATUS_CHALLENGE_FAIL c none
    else .reply WLAN_STATUS_UNKNOWN_AUTH_TRANSACTION c none
  else .reply WLAN_STATUS_NOT_SUPPORTED_AUTH_ALG c none

/-- The client of the sender, added with its peer when there is none. -/
def authClient (s : ApIface α) (a : α) (r : AuthEnv) : ApIface α :=
  match s.clients a with
  | some _ => s
  | none => if r.alloc then (s.mlmeApAddClient a).addStation a r.addSta else s

/-- The end of `skw_mlme_ap_auth_handler`, for the client `c` as it is after the checks. -/
def authFinish (s : ApIface α) (f : AuthFrame α) (r : AuthEnv) (c : Client) :
    AuthNext → ApIface α
  | .drop => s.setClient f.sa c
  | .forward => (s.setClient f.sa c).emit (.rxMgmt f.sa .auth f.authAlg f.authTransaction)
  | .reply status c ies =>
    let (s, ret) := (s.setClient f.sa c).mlmeApAuthReply f.sa f.bssid f.authAlg
      (f.authTransaction + 1) status ies r.tx
    if ret ≠ 0 ∨ status ≠ WLAN_STATUS_SUCCESS then
      (s.setState f.sa .none).mlmeApDelSta f.sa r.delRet
    else s

def mlmeApAuthHandler (s : ApIface α) (f : AuthFrame α) (r : AuthEnv) : ApIface α :=
  let s := s.authClient f.sa r
  match s.clients f.sa with
  | none => s
  | some c =>
    if f.retry && c.lastSeqCtrl = f.seqCtrl then s
    else
      let c := { c with lastSeqCtrl := f.seqCtrl, state := .authed }
      s.authFinish f r c (s.authNext f r.text c)

def mlmeApCheckAssocIe (_ : List (BitVec 8)) : BitVec 16 := 0

/-- The first free identifier is taken; it is 64 when there is none. -/
def mlmeApNewAid (s : ApIface α) : ApIface α × BitVec 16 :=
  let aid := ((List.range' 1 63).find? fun aid => !s.aidMap.getLsbD aid).getD 64
  ({ s with aidMap := s.aidMap ||| BitVec.twoPow 64 aid }, BitVec.ofNat 16 aid)

def mlmeApAssocReply (s : ApIface α) (a : α) (c : Client) (status : BitVec 16) (reassoc : Bool)
    (tx : MgmtTx) : ApIface α × ℤ :=
  let (s, ret) := s.mgmtTx a (if reassoc then .reassocResp else .assocResp) tx
  (s.emit (.assocReply a reassoc (c.capa.setWidth 16) status c.aid ret), ret)

/-- The elements of the request are kept for the report of the new station, unless older ones
are. -/
def keepAssocIe (s : ApIface α) (a : α) (ie : List (BitVec 8)) (alloc : Bool) : ApIface α :=
  { s with clients := Function.update s.clients a ((s.clients a).map fun c =>
      { c with assocReqIe :=
        if c.assocReqIe.isNone && alloc then some ie else c.assocReqIe }) }

/-- The end of `skw_mlme_ap_assoc_handler`, for a request whose elements have `status`. -/
def assocFinish (s : ApIface α) (f : AssocFrame α) (r : AssocEnv) (c : Client)
    (status : BitVec 16) : ApIface α :=
  let (s, aid) := s.mlmeApNewAid
  let c := { c with aid }
  let status := if aid = 0 then WLAN_STATUS_AP_UNABLE_TO_HANDLE_NEW_STA else status
  let (s, ret) := (s.setClient f.sa c).mlmeApAssocReply f.sa c status f.reassoc r.tx
  if ret ≠ 0 ∨ status ≠ WLAN_STATUS_SUCCESS then s else s.keepAssocIe f.sa f.ie r.alloc

def mlmeApAssocHandler (s : ApIface α) (f : AssocFrame α) (r : AssocEnv) : ApIface α :=
  match s.clients f.sa with
  | none => s
  | some c =>
    if c.state = .none then
      s.apSimpleReply f.sa .disassoc WLAN_REASON_CLASS2_FRAME_FROM_NONAUTH_STA r.tx
    else if f.retry && c.lastSeqCtrl = f.seqCtrl then s
    else
      let c := { c with lastSeqCtrl := f.seqCtrl, capa := f.capabInfo.setWidth 32 }
      let status := mlmeApCheckAssocIe f.ie
      if status ≠ WLAN_STATUS_SUCCESS then
        (s.setClient f.sa c).apSimpleReply f.sa .disassoc status r.tx
      else s.assocFinish f r c status

/-- A deauthentication or disassociation of an associated client is left to user space. -/
def mlmeApRxLeave (s : ApIface α) (sa : α) (delRet : ℤ) : ApIface α :=
  match s.clients sa with
  | none => s
  | some c =>
    if SkwStates.assoced.toNat ≤ c.state.toNat then s.emit (.delSta sa)
    else if SkwStates.authed.toNat ≤ c.state.toNat then s.mlmeApDelSta sa delRet
    else s

/-- `skw_sap_rx_mgmt` for an authentication frame: an associated peer is marked first. -/
def sapRxAuth (s : ApIface α) (f : AuthFrame α) (r : AuthEnv) : ApIface α :=
  if s.staAccessAllowed f.sa then
    let s := match s.peerCtxIdx f.sa with
      | none => s
      | some idx =>
        s.setPeer idx ((s.peerCtx idx).map fun p : ApPeer α =>
          { p with deauthed := p.deauthed || SkwStates.assoced.toNat ≤ p.state.toNat })
    s.mlmeApAuthHandler f r
  else s.emit (.cmdDelSta f.sa 12 WLAN_REASON_DISASSOC_AP_BUSY true)

def mlmeApAuthCb (s : ApIface α) (t : TxStatus α) (delRet : ℤ) : ApIface α :=
  if t.ack ∧ t.statusCode = WLAN_STATUS_SUCCESS then
    { s with authTimeout := Function.update s.authTimeout t.da true }
  else (s.setState t.da .none).mlmeApDelSta t.da delRet

def mlmeApAssocCb (s : ApIface α) (t : TxStatus α) (c : Client) (delRet : ℤ) : ApIface α :=
  if t.ack ∧ t.statusCode = WLAN_STATUS_SUCCESS then
    let s := { s with authTimeout := Function.update s.authTimeout t.da false }
    let s := s.changeStation t.da true false
    (s.emit (.newSta t.da c.assocReqIe)).setClient t.da
      { c with assocReqIe := none, state := .assoced }
  else (s.setState t.da .none).mlmeApDelSta t.da delRet

/-- A frame whose cookie is not that of a client is user space's. -/
def mlmeApTxStatus (s : ApIface α) (t : TxStatus α) (delRet : ℤ) : ApIface α :=
  match s.clients t.da with
  | none => s.emit (.txStatus t.cookie t.ack)
  | some c =>
    if c.cookie ≠ t.cookie then s.emit (.txStatus t.cookie t.ack)
    else match t.stype with
      | .auth => s.mlmeApAuthCb t delRet
      | .assocResp | .reassocResp => s.mlmeApAssocCb t c delRet
      | _ => s

/-- The timer of client `c` runs; `queued` says whether there is memory for the event. -/
def mlmeApAuthTimeout (msecsToJiffies : ℕ → Jiffies) (s : ApIface α) (a : α) (c : Client)
    (queued : Bool) : ApIface α :=
  let s := { s with authTimeout := Function.update s.authTimeout a false }
  if c.state = .assoced then s
  else if timeAfter s.jiffies (c.idle + msecsToJiffies SKW_AP_AUTH_TIMEOUT) && queued then
    { s with localEvents := s.localEvents ++ [a] }
  else s

end ApIface

/-- What an interface in this mode meets: frames, reports of sent frames, timeouts, requests of
user space, events of the firmware, a recovery. -/
inductive ApEvent (α : Type*)
  | rxAuth (f : AuthFrame α) (r : AuthEnv)
  | rxLeave (sa : α) (delRet : ℤ)
  | rxAssoc (f : AssocFrame α) (r : AssocEnv)
  | rxOther (sa : α)
  | txStatus (t : TxStatus α) (delRet : ℤ)
  | authTimeout (a : α) (queued : Bool)
  | localEvent (delRet : ℤ)
  | delStation (a : α) (subtype : ℕ) (reason : BitVec 16) (delRet : ℤ)
  | flushSta (subtype : ℕ) (reason : BitVec 16) (delRet : ℕ → ℤ)
  | addStation (a : α) (r : AddSta)
  | changeStation (a : α) (associated authorized : Bool)
  | saeAccept (a : α)
  | setMacAcl (acl : Option (AclData α))
  | aclCheck (delRet : ℕ → ℤ)
  | eventDelSta (a : α)
  | recover (a : α)
  | tick (now : Jiffies)

namespace ApIface
variable {α : Type*} [DecidableEq α]

/-- A deauthentication or disassociation frame marks the peer before the handler sees it. -/
def handle (msecsToJiffies : ℕ → Jiffies) (s : ApIface α) : ApEvent α → Option (ApIface α)
  | .rxAuth f r => some (s.sapRxAuth f r)
  | .rxLeave sa ret => some ((s.setPeerFlags sa).mlmeApRxLeave sa ret)
  | .rxAssoc f r => some (s.mlmeApAssocHandler f r)
  | .rxOther sa => some (s.emit (.rxMgmt sa .other 0 0))
  | .txStatus t ret => some (s.mlmeApTxStatus t ret)
  | .authTimeout a queued =>
    match s.clients a with
    | none => none
    | some c =>
      if s.authTimeout a then some (s.mlmeApAuthTimeout msecsToJiffies a c queued) else none
  | .localEvent ret =>
    match s.localEvents with
    | [] => none
    | a :: l => some ({ s with localEvents := l }.mlmeApDelSta a ret)
  | .delStation a subtype reason ret => some (s.delStation a subtype reason ret).1
  | .flushSta subtype reason ret => some (s.sapFlushSta subtype reason ret)
  | .addStation a r => some (s.addStation a r)
  | .changeStation a associated authorized => some (s.changeStation a associated authorized)
  | .saeAccept _ => some s
  | .setMacAcl acl => some { s with acl }
  | .aclCheck ret => some (s.apAclCheck ret)
  | .eventDelSta a => some (if (s.peerCtxIdx a).isSome then s.emit (.delSta a) else s)
  | .recover a => some ((s.mlmeApRemoveClient a).emit (.delSta a))
  | .tick now => some { s with jiffies := now }

def step (msecsToJiffies : ℕ → Jiffies) (s : ApIface α) (e : ApEvent α) : Option (ApIface α) :=
  { s with out := [] }.handle msecsToJiffies e

end ApIface

end Skw
