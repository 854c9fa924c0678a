import Skw.Mlme.Ap
import Skw.Sta.Single

/-! The supervision of a station's connection: `skw_sta_work`, which the timer of `skw_sta_core`
queues, with what arms and stops that timer. Time is counted in ticks from `boot` on; a command
that waits for its answer lets some of them pass. -/
namespace Skw

abbrev SKW_AUTH_TIMEOUT : ℕ := 4800
abbrev SKW_ASSOC_TIMEOUT : ℕ := 4800
abbrev SKW_STEP_TIMEOUT : ℕ := 300
abbrev SKW_MAX_AUTH_RETRY_NUM : ℕ := 3
abbrev SKW_MAX_ASSOC_RETRY_NUM : ℕ := 5
abbrev SKW_MAX_REAUTH_REDO_NUM : ℕ := 3
abbrev SKW_WLAN_STATUS_SAE_HASH_TO_ELEMENT : BitVec 16 := 126

/-- `enum SKW_STA_WORK_RETRY_STATE`. -/
inductive StaRetry
  | none
  | auth
  | assoc
deriving DecidableEq

/-- What the work sends to the firmware, and what it tells cfg80211 when it gives up. -/
inductive StaOut
  | cmdDeauth
  | cmdAuth
  | cmdAssoc
  | authTimeout
  | assocFailure
  | disconnected
deriving DecidableEq

def StaOut.isCmd : StaOut → Bool
  | cmdDeauth | cmdAuth | cmdAssoc => true
  | _ => false

/-- What does not change: the slot of the interface, whether it is a station and no P2P client, and
whether user space runs the SME. -/
structure StaCfg where
  n : IfaceId
  station : Bool
  smeExternal : Bool

/-- `openSystem` says whether `pending.auth_type` is open system; `queued` whether the work is on
its queue. -/
structure StaCore where
  sta : Sta
  rtyState : StaRetry
  retry : ℕ
  redo : ℕ
  authStart : Jiffies
  stepStart : Jiffies
  ctxStart : Jiffies
  ctxTo : Jiffies
  openSystem : Bool
  lastSeqCtrl : BitVec 16
  timer : Option Jiffies
  queued : Bool
  boot : Jiffies
  clock : ℕ
  out : List StaOut

/-- What a run of the work meets: the results of its two commands with the ticks they take, and
the result of the unjoin. -/
structure StaWorkEnv where
  deauth : ℤ
  deauthTicks : ℕ
  cmd : ℤ
  cmdTicks : ℕ
  unjoin : ℤ
deriving DecidableEq

/-- A management frame as `skw_sta_rx_mgmt` reads it. -/
structure StaFrame where
  stype : MgmtStype
  retry : Bool
  seqCtrl : BitVec 16
  sa : MacAddr
  bssid : MacAddr
  authAlg : BitVec 16
  authTransaction : BitVec 16
  statusCode : BitVec 16
deriving DecidableEq

/-- `timer` is the expiry of the timer, `rxMgmt` and `staLeave` have the result of their unjoin,
and `externalAuth` the access point that `skw_connect_assoc` finds. -/
inductive StaInput
  | tick
  | timer
  | work (x : StaWorkEnv)
  | auth (req : AuthReq) (openSystem : Bool) (x : AuthAnswer) (ticks : ℕ)
  | assoc (bssid : MacAddr) (x : AssocAnswer) (ticks : ℕ)
  | connectSaeAuth (bss : Option MacAddr) (connBssid : MacAddr) (x : SaeAnswer)
  | externalAuth (bssid : MacAddr) (success : Bool) (unjoin : ℤ) (bss : Option MacAddr)
      (x : AssocAnswer) (ticks : ℕ)
  | rxMgmt (f : StaFrame) (unjoin : ℤ)
  | staLeave (bssid : MacAddr) (unjoin : ℤ)
  | changeStation (mac : MacAddr) (authorized : Bool)
deriving DecidableEq

namespace StaCore

def jiffies (s : StaCore) : Jiffies := s.boot + BitVec.ofNat 64 s.clock

def pass (s : StaCore) (ticks : ℕ) : StaCore := { s with clock := s.clock + ticks }

def onSta (s : StaCore) (f : Sta → ℤ × Sta) : ℤ × StaCore :=
  ((f s.sta).1, { s with sta := (f s.sta).2 })

/-- A call that changes nothing but the station. -/
def call (s : StaCore) (n : IfaceId) (e : StaEvent) : StaCore :=
  { s with sta := (s.sta.call n e).2 }

/-- `skw_set_state` on `core->sm`. -/
def setState (s : StaCore) (n : IfaceId) (state : StaState) : StaCore :=
  s.call n (.setState state s.sta.saeRxConfirm)

/-- `skw_sta_leave`. -/
def staLeave (s : StaCore) (n : IfaceId) (bssid : MacAddr) (unjoin : ℤ) : StaCore :=
  { s.call n (.staLeave bssid unjoin) with timer := none }

/-- A command of the work, for which it waits. -/
def send (s : StaCore) (o : StaOut) (ticks : ℕ) : StaCore :=
  { s with clock := s.clock + ticks, out := o :: s.out }

section
variable (msecsToJiffies : ℕ → Jiffies)

/-- `skw_set_sta_timer`, which leaves a pending timer alone. -/
def setStaTimer (s : StaCore) : StaCore :=
  if s.timer.isSome then s
  else { s with timer := some (s.jiffies + msecsToJiffies SKW_STEP_TIMEOUT) }

/-- The assignments of `skw_auth` before its command. -/
def startAuth (s : StaCore) (openSystem : Bool) : StaCore :=
  { s with
    authStart := s.jiffies, retry := 0, redo := 0, stepStart := s.jiffies, ctxStart := s.jiffies
    openSystem, rtyState := .none, ctxTo := msecsToJiffies SKW_AUTH_TIMEOUT }

/-- `skw_auth` after its `switch`. -/
def authSend (s : StaCore) (n : IfaceId) (req : AuthReq) (openSystem : Bool) (x : AuthAnswer)
    (ticks : ℕ) : ℤ × StaCore :=
  let r := s.onSta (·.authSend n req x)
  if req.key ∧ x.addKey < 0 then r
  else
    let t := (r.2.startAuth msecsToJiffies openSystem).pass ticks
    (r.1, if x.auth ≠ 0 then t else t.setStaTimer msecsToJiffies)

/-- `skw_auth`. -/
def auth (s : StaCore) (n : IfaceId) (req : AuthReq) (openSystem : Bool) (x : AuthAnswer)
    (ticks : ℕ) : ℤ × StaCore :=
  match s.sta.state with
  | .authing | .associng => (-EBUSY, s)
  | .assoced | .completed =>
    if s.sta.bssid = req.bssid then (0, s)
    else
      let u := s.onSta fun a => (a.setState .none).unjoin n a.bssid x.leave
      if u.1 ≠ 0 then u
      else
        let v := u.2.onSta (·.authJoin n req x)
        if v.1 ≠ 0 then v else v.2.authSend msecsToJiffies n req openSystem x ticks
  | .none =>
    let v := s.onSta (·.authJoin n req x)
    if v.1 ≠ 0 then v else v.2.authSend msecsToJiffies n req openSystem x ticks
  | .authed => s.authSend msecsToJiffies n req openSystem x ticks

/-- The assignments of `skw_assoc` before its command. -/
def startAssoc (s : StaCore) : StaCore :=
  { s with retry := 0, ctxStart := s.jiffies, ctxTo := msecsToJiffies SKW_ASSOC_TIMEOUT }

/-- `skw_assoc` after its `switch`. -/
def assocSend (s : StaCore) (n : IfaceId) (bssid : MacAddr) (x : AssocAnswer) (ticks : ℕ) :
    ℤ × StaCore :=
  let r := s.onSta (·.assocSend n bssid x)
  let t := (r.2.startAssoc msecsToJiffies).pass ticks
  (r.1, if x.assoc ≠ 0 then { t with timer := none } else t.setStaTimer msecsToJiffies)

/-- `skw_assoc`. -/
def assoc (s : StaCore) (n : IfaceId) (bssid : MacAddr) (x : AssocAnswer) (ticks : ℕ) :
    ℤ × StaCore :=
  match s.sta.state with
  | .authing | .associng => (-EBUSY, s)
  | .assoced | .completed =>
    if s.sta.bssid = bssid then (0, s)
    else
      let u := s.onSta fun a => (a.setState .none).unjoin n a.bssid x.leave
      if u.1 ≠ 0 then u
      else
        let v := u.2.onSta (·.join n bssid x.join)
        if v.1 ≠ 0 then v
        else (v.2.onSta fun a => (0, a.setState .authed)).2.assocSend msecsToJiffies n bssid x ticks
  | .authed => s.assocSend msecsToJiffies n bssid x ticks
  | .none => (-EINVAL, s)

/-- The end of a run that gives the connection up. -/
def fail (s : StaCore) (cfg : StaCfg) (report : StaOut) (unjoin : ℤ) : StaCore :=
  let t := s.staLeave cfg.n s.sta.bssid unjoin
  { t with out := (if cfg.smeExternal then report else .disconnected) :: t.out }

/-- The authentication that the work starts anew after too many retries, in state `rtyState`; the
first component is `connect_failed`. -/
def redoAuth (s : StaCore) (n : IfaceId) (rtyState : StaRetry) (x : StaWorkEnv) : Bool × StaCore :=
  if timeAfter s.jiffies (s.ctxStart + s.ctxTo) ∨ SKW_MAX_REAUTH_REDO_NUM ≤ s.redo then (true, s)
  else
    let t := ({ s with rtyState }).send .cmdDeauth x.deauthTicks
    if x.deauth ≠ 0 then (true, t)
    else
      let u := ({ t.setState n .none with redo := t.redo + 1 }).send .cmdAuth x.cmdTicks
      if x.cmd ≠ 0 then (true, u)
      else (false, ({ u with retry := 0, stepStart := u.jiffies }).setState n .authing)

/-- What the work does in a state that waits for the answer to a frame: it sends `cmd` again, or
from `maxRetry` on authenticates anew where it may. -/
def waitStep (s : StaCore) (cfg : StaCfg) (maxRetry : ℕ) (cmd : StaOut) (rtyState : StaRetry)
    (x : StaWorkEnv) : Bool × StaCore :=
  if timeAfter s.jiffies (s.stepStart + msecsToJiffies SKW_STEP_TIMEOUT) then
    let t := { s with retry := s.retry + 1 }
    if maxRetry ≤ t.retry ∧ cfg.station ∧ t.openSystem then t.redoAuth cfg.n rtyState x
    else if maxRetry ≤ t.retry then (true, t)
    else
      let u := t.send cmd x.cmdTicks
      (decide (x.cmd ≠ 0), u)
  else (false, s)

/-- The end of such a run. -/
def waitEnd (cfg : StaCfg) (report : StaOut) (unjoin : ℤ) (failed : Bool) (r : Bool × StaCore) :
    StaCore :=
  if failed || r.1 then r.2.fail cfg report unjoin else r.2.setStaTimer msecsToJiffies

/-- `skw_sta_work`. -/
def staWork (s : StaCore) (cfg : StaCfg) (x : StaWorkEnv) : StaCore :=
  let connectFailed := timeAfter s.jiffies
    (s.authStart + msecsToJiffies SKW_AUTH_TIMEOUT + msecsToJiffies SKW_ASSOC_TIMEOUT)
  match s.sta.state with
  | .authed =>
    if timeAfter s.jiffies (s.stepStart + msecsToJiffies SKW_STEP_TIMEOUT) then
      s.fail cfg .authTimeout x.unjoin
    else s.setStaTimer msecsToJiffies
  | .authing =>
    waitEnd msecsToJiffies cfg .authTimeout x.unjoin connectFailed
      (s.waitStep msecsToJiffies cfg SKW_MAX_AUTH_RETRY_NUM .cmdAuth
        (if s.rtyState = .none then .auth else s.rtyState) x)
  | .associng =>
    waitEnd msecsToJiffies cfg .assocFailure x.unjoin connectFailed
      (s.waitStep msecsToJiffies cfg SKW_MAX_ASSOC_RETRY_NUM .cmdAssoc .assoc x)
  | .none | .assoced | .completed => s

/-- `skw_external_auth` of a station, with `skw_connect_assoc`. -/
def externalAuth (s : StaCore) (cfg : StaCfg) (bssid : MacAddr) (success : Bool) (unjoin : ℤ)
    (bss : Option MacAddr) (x : AssocAnswer) (ticks : ℕ) : ℤ × StaCore :=
  if cfg.smeExternal then (-EINVAL, s.setState cfg.n .none)
  else if success = false then
    (0, ((s.setState cfg.n .none).onSta (·.unjoin cfg.n bssid unjoin)).2)
  else
    let t := s.setState cfg.n .authed
    match bss with
    | none => (-ENOENT, t)
    | some b => t.assoc msecsToJiffies cfg.n b x ticks

end

/-- `skw_sta_rx_deauth`. A frame whose sender is not the BSS is one of TDLS. -/
def staRxDeauth (s : StaCore) (n : IfaceId) (f : StaFrame) (unjoin : ℤ) : StaCore :=
  if f.bssid ≠ f.sa then s
  else if s.sta.peers.peerCtx n f.bssid = none then s
  else s.staLeave n f.bssid unjoin

/-- The status codes that `skw_sta_rx_auth` takes for success. -/
def authOk (status : BitVec 16) : Bool :=
  status = WLAN_STATUS_SUCCESS || status = SKW_WLAN_STATUS_SAE_HASH_TO_ELEMENT

/-- `skw_sta_rx_auth`. -/
def staRxAuth (s : StaCore) (n : IfaceId) (f : StaFrame) (unjoin : ℤ) : StaCore :=
  if s.sta.bssid ≠ f.bssid then s
  else
    let confirm := s.sta.saeRxConfirm ||
      decide (f.authAlg = WLAN_AUTH_SAE ∧ f.authTransaction = 2)
    let t := { s.call n (.setState .authed confirm) with stepStart := s.jiffies, retry := 0 }
    let u : StaCore := if authOk f.statusCode then t else t.staLeave n f.bssid unjoin
    if u.rtyState = .assoc then u.setState n .associng else u

/-- `skw_sta_rx_assoc`. -/
def staRxAssoc (s : StaCore) (n : IfaceId) (f : StaFrame) : StaCore :=
  match s.sta.bssCtx n with
  | none => s
  | some c =>
    if ((s.sta.peers.ctx c).peer.any fun p => (s.sta.peers.peer p).addr == some f.bssid) = false then
      s
    else
      let t := s.setState n .assoced
      if f.statusCode = WLAN_STATUS_SUCCESS then t.call n (.transmit (some c) true)
      else t.setState n .none

/-- `skw_sta_rx_mgmt`. -/
def staRxMgmt (s : StaCore) (n : IfaceId) (f : StaFrame) (unjoin : ℤ) : StaCore :=
  if f.retry ∧ s.lastSeqCtrl = f.seqCtrl then s
  else
    let t := { s with lastSeqCtrl := f.seqCtrl }
    match f.stype with
    | .disassoc | .deauth => t.staRxDeauth n f unjoin
    | .auth => t.staRxAuth n f unjoin
    | .assocResp | .reassocResp => t.staRxAssoc n f
    | .assocReq | .reassocReq | .other => t

/-- `skw_change_station` of a station. -/
def changeStation (s : StaCore) (n : IfaceId) (mac : MacAddr) (authorized : Bool) : StaCore :=
  if s.sta.peers.peerCtx n mac = none then s
  else if authorized then s.setState n .completed
  else s

/-- A call from outside begins. -/
def enter (s : StaCore) : StaCore := { s with sta := { s.sta with unjoinFailed := false } }

/-- The timer is due. -/
def Due (s : StaCore) : Prop := s.timer.any fun e => timeBeforeEq e s.jiffies

instance (s : StaCore) : Decidable s.Due := inferInstanceAs (Decidable (_ = true))

def step (msecsToJiffies : ℕ → Jiffies) (cfg : StaCfg) (s : StaCore) : StaInput → Option StaCore
  | .tick => some (s.pass 1)
  | .timer => if s.Due then some { s with timer := none, queued := true } else none
  | .work x =>
    if s.queued then some ({ s with queued := false }.staWork msecsToJiffies cfg x) else none
  | .auth req openSystem x ticks =>
    some (s.enter.auth msecsToJiffies cfg.n req openSystem x ticks).2
  | .assoc bssid x ticks => some (s.enter.assoc msecsToJiffies cfg.n bssid x ticks).2
  | .connectSaeAuth bss connBssid x =>
    some (s.enter.onSta (·.connectSaeAuth cfg.n bss connBssid x)).2
  | .externalAuth bssid success unjoin bss x ticks =>
    some (s.enter.externalAuth msecsToJiffies cfg bssid success unjoin bss x ticks).2
  | .rxMgmt f unjoin => some (s.staRxMgmt cfg.n f unjoin)
  | .staLeave bssid unjoin => some (s.staLeave cfg.n bssid unjoin)
  | .changeStation mac authorized => some (s.changeStation cfg.n mac authorized)

/-- `skw_mode_init`, at the instant `boot`. -/
def init (peers : PeerSys MacAddr) (boot : Jiffies) : StaCore where
  sta := Sta.init peers
  rtyState := .none
  retry := 0
  redo := 0
  authStart := 0
  stepStart := 0
  ctxStart := 0
  ctxTo := 0
  openSystem := true
  lastSeqCtrl := 0
  timer := none
  queued := false
  boot := boot
  clock := 0
  out := []

end StaCore
end Skw
