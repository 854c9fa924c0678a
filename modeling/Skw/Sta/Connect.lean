import Skw.Lib.Machine
import Skw.Peer.Active

/-! The station's way to its access point: `skw_auth`, `skw_assoc`, `skw_connect_sae_auth` and
`skw_sta_leave` over the joins and unjoins of its interface. The address of the access point and
the state of the connection stand beside the peers. -/
namespace Skw

def isValidEtherAddr (a : MacAddr) : Bool := !a.getLsbD 40 && decide (a ≠ 0)

/-- `enum SKW_STATES`. -/
inductive StaState
  | none
  | authing
  | authed
  | associng
  | assoced
  | completed
deriving DecidableEq

/-- What a join meets: its allocation, the result and the answer of the command, and the result of
the unjoin that follows an answer outside of the contexts. -/
structure JoinAnswer where
  alloc : Bool
  ret : ℤ
  lmac : BitVec 8
  idx : BitVec 8
  unjoin : ℤ
deriving DecidableEq

/-- `key` says whether the request has a key, and `saeConfirm` whether it is an SAE confirm. -/
structure AuthReq where
  bssid : MacAddr
  key : Bool
  saeConfirm : Bool
deriving DecidableEq

/-- What `skw_auth` meets: the unjoins of the old access point, the channel check, the join, the
key, the command and the unjoin at its end. -/
structure AuthAnswer where
  leave : ℤ
  leaveAgain : ℤ
  channelAllowed : Bool
  join : JoinAnswer
  addKey : ℤ
  auth : ℤ
  unjoin : ℤ
deriving DecidableEq

/-- What `skw_assoc` meets. -/
structure AssocAnswer where
  leave : ℤ
  join : JoinAnswer
  assoc : ℤ
  unjoin : ℤ
deriving DecidableEq

/-- What `skw_connect_sae_auth` meets. -/
structure SaeAnswer where
  join : JoinAnswer
  externalAuth : ℤ
  unjoin : ℤ
deriving DecidableEq

/-- `bssid` is that of `core->bss`, zero for none. `unjoinFailed` says that an unjoin command of the
present call has failed. -/
structure Sta where
  peers : PeerSys MacAddr
  bssid : MacAddr
  state : StaState
  saeRxConfirm : Bool
  unjoinFailed : Bool

/-- `connectSaeAuth` has the access point it is given and `conn->bssid`. `setState` is what received
frames, the timer and other entry points do, `transmit` what enables and disables a context. -/
inductive StaEvent
  | auth (req : AuthReq) (x : AuthAnswer)
  | assoc (bssid : MacAddr) (x : AssocAnswer)
  | connectSaeAuth (bss : Option MacAddr) (connBssid : MacAddr) (x : SaeAnswer)
  | staLeave (bssid : MacAddr) (ret : ℤ)
  | setState (state : StaState) (saeRxConfirm : Bool)
  | transmit (ctx : Option CtxId) (enable : Bool)
deriving DecidableEq

namespace Sta

def setState (s : Sta) (state : StaState) : Sta := { s with state }

/-- `skw_unjoin`; `ret` is the result of its command, which is sent if the peer is there. -/
def unjoin (s : Sta) (n : IfaceId) (bssid : MacAddr) (ret : ℤ) : ℤ × Sta :=
  if s.peers.peerCtx n bssid = none then (0, s)
  else
    let t := { s with peers := (s.peers.unjoin n bssid ret).2 }
    if ret ≠ 0 then (ret, { t with unjoinFailed := true }) else (0, { t with bssid := 0 })

/-- `skw_join`. -/
def join (s : Sta) (n : IfaceId) (bssid : MacAddr) (a : JoinAnswer) : ℤ × Sta :=
  let r := s.peers.join n bssid a.alloc a.ret a.lmac a.idx
  if r.1 ≠ 0 then
    let sent := a.alloc && decide (0 ≤ a.ret)
    (r.1, { s with peers := r.2, unjoinFailed := s.unjoinFailed || sent && decide (a.unjoin ≠ 0) })
  else (0, { s with peers := r.2, bssid })

/-- `skw_sta_leave`. -/
def staLeave (s : Sta) (n : IfaceId) (bssid : MacAddr) (ret : ℤ) : ℤ × Sta :=
  (0, (unjoin { s with state := .none, saeRxConfirm := false } n bssid ret).2)

/-- The end of a call that fails: it unjoins the access point of the request. -/
def giveUp (s : Sta) (n : IfaceId) (bssid : MacAddr) (unjoin ret : ℤ) : ℤ × Sta :=
  (ret, (s.unjoin n bssid unjoin).2.setState .none)

/-- `case SKW_STATE_NONE` of `skw_auth`. -/
def authJoin (s : Sta) (n : IfaceId) (req : AuthReq) (x : AuthAnswer) : ℤ × Sta :=
  let u := if isValidEtherAddr s.bssid then s.unjoin n s.bssid x.leaveAgain else (0, s)
  if u.1 ≠ 0 then u
  else if x.channelAllowed = false then (-EBUSY, u.2)
  else u.2.join n req.bssid x.join

/-- `skw_auth` after its `switch`. -/
def authSend (s : Sta) (n : IfaceId) (req : AuthReq) (x : AuthAnswer) : ℤ × Sta :=
  if req.key ∧ x.addKey < 0 then s.giveUp n req.bssid x.unjoin x.addKey
  else if x.auth ≠ 0 then (s.setState .authing).giveUp n req.bssid x.unjoin x.auth
  else (0, s.setState (if req.saeConfirm && s.saeRxConfirm then .authed else .authing))

/-- `skw_auth`. The scan that it aborts first is no matter of the peers. -/
def auth (s : Sta) (n : IfaceId) (req : AuthReq) (x : AuthAnswer) : ℤ × Sta :=
  match s.state with
  | .authing | .associng => (-EBUSY, s)
  | .assoced | .completed =>
    if s.bssid = req.bssid then (0, s)
    else
      let u := (s.setState .none).unjoin n s.bssid x.leave
      if u.1 ≠ 0 then u
      else
        let v := u.2.authJoin n req x
        if v.1 ≠ 0 then v else v.2.authSend n req x
  | .none =>
    let v := s.authJoin n req x
    if v.1 ≠ 0 then v else v.2.authSend n req x
  | .authed => s.authSend n req x

/-- `skw_assoc` after its `switch`. -/
def assocSend (s : Sta) (n : IfaceId) (bssid : MacAddr) (x : AssocAnswer) : ℤ × Sta :=
  let t := s.setState .associng
  if x.assoc ≠ 0 then t.giveUp n bssid x.unjoin x.assoc else (0, t)

/-- `skw_assoc`. -/
def assoc (s : Sta) (n : IfaceId) (bssid : MacAddr) (x : AssocAnswer) : ℤ × Sta :=
  match s.state with
  | .authing | .associng => (-EBUSY, s)
  | .assoced | .completed =>
    if s.bssid = bssid then (0, s)
    else
      let u := (s.setState .none).unjoin n s.bssid x.leave
      if u.1 ≠ 0 then u
      else
        let v := u.2.join n bssid x.join
        if v.1 ≠ 0 then v else (v.2.setState .authed).assocSend n bssid x
  | .authed => s.assocSend n bssid x
  | .none => (-EINVAL, s)

/-- `skw_connect_sae_auth` of the kernels that have external authentication. -/
def connectSaeAuth (s : Sta) (n : IfaceId) (bss : Option MacAddr) (connBssid : MacAddr)
    (x : SaeAnswer) : ℤ × Sta :=
  match bss with
  | none => (-EINVAL, s)
  | some bssid =>
    let v := s.join n bssid x.join
    if v.1 ≠ 0 then v
    else
      let t := v.2.setState .authing
      if x.externalAuth ≠ 0 then t.giveUp n connBssid x.unjoin x.externalAuth else (0, t)

def transmit (s : Sta) : Option CtxId → Bool → Sta
  | none, _ => s
  | some c, enable => { s with peers := s.peers.peerCtxTransmit c enable }

/-- What a call returns and leaves behind. -/
def call (s : Sta) (n : IfaceId) (e : StaEvent) : ℤ × Sta :=
  let t := { s with unjoinFailed := false }
  match e with
  | .auth req x => t.auth n req x
  | .assoc bssid x => t.assoc n bssid x
  | .connectSaeAuth bss connBssid x => t.connectSaeAuth n bss connBssid x
  | .staLeave bssid ret => t.staLeave n bssid ret
  | .setState state saeRxConfirm => (0, { t with state, saeRxConfirm })
  | .transmit ctx enable => (0, t.transmit ctx enable)

def step (n : IfaceId) (s : Sta) (e : StaEvent) : Option Sta := some (s.call n e).2

/-- The interface before it has joined. -/
def init (peers : PeerSys MacAddr) : Sta := ⟨peers, 0, .none, false, false⟩

end Sta
end Skw
