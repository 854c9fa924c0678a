import Skw.Kernel.Types
import Skw.Lib.Machine
import Mathlib.Logic.Function.Basic

/-! The command slot `skw->cmd` and all that works on it: `skw_msg_xmit_timeout` and
`skw_msg_try_send` calls, the tx worker, the ack handler, the command timer, `skw_abort_cmd` and
`skw_work_unlock`. A call is told from the others by its number; the number in the slot is that of
the call that filled it last. -/
namespace Skw

/-- The bits of `skw->flags` that transmission depends on. -/
structure SkwFlags where
  fwAssert : Bool
  blockTx : Bool
  fwMacRecovery : Bool
  fwThermal : Bool
  mpMode : Bool
deriving DecidableEq

def txAllowed (f : SkwFlags) : Bool :=
  !(f.fwAssert || f.blockTx || f.mpMode || f.fwThermal || f.fwMacRecovery)

def cmdTxAllowed (f : SkwFlags) : Bool := txAllowed { f with fwThermal := false }

abbrev SKW_CMD_GET_INFO : ℕ := 1
abbrev SKW_CMD_SYN_VERSION : ℕ := 2
abbrev SKW_CMD_OPEN_DEV : ℕ := 3
abbrev SKW_CMD_CLOSE_DEV : ℕ := 4
abbrev SKW_CMD_SET_MIB : ℕ := 40
abbrev SKW_CMD_DPD_ILC_GEAR_PARAM : ℕ := 46
abbrev SKW_CMD_DPD_ILC_MARTIX_PARAM : ℕ := 47
abbrev SKW_CMD_PHY_BB_CFG : ℕ := 50
abbrev SKW_CMD_SET_REGD : ℕ := 51
abbrev SKW_CMD_SET_MONITOR_PARAM : ℕ := 60

/-- What `skw_cmd_allowed` reads of an interface. -/
structure IfaceView where
  ndev : Bool
  monitor : Bool
  opened : Bool
deriving DecidableEq

/-- The arguments of a call that decide its course: instance and its interface, command, the two
flags, and whether the message exceeds the bus limit. -/
structure CmdReq where
  inst : ℤ
  iface : Option IfaceView
  id : ℕ
  noAck : Bool
  ignoreBlockTx : Bool
  tooLong : Bool
deriving DecidableEq

def cmdAllowed (f : SkwFlags) (r : CmdReq) : Bool :=
  if r.inst < 0 then false
  else if !cmdTxAllowed (if r.ignoreBlockTx then { f with blockTx := false } else f) then false
  else if r.iface.any fun i => i.ndev && i.monitor then
    r.id == SKW_CMD_SET_MONITOR_PARAM || r.id == SKW_CMD_CLOSE_DEV || r.id == SKW_CMD_OPEN_DEV
  else if r.id ∈ [SKW_CMD_GET_INFO, SKW_CMD_SYN_VERSION, SKW_CMD_OPEN_DEV, SKW_CMD_PHY_BB_CFG,
      SKW_CMD_SET_REGD, SKW_CMD_SET_MIB, SKW_CMD_DPD_ILC_GEAR_PARAM,
      SKW_CMD_DPD_ILC_MARTIX_PARAM] then true
  else r.iface.any fun i => i.opened

inductive CmdCallback
  | null
  | xmitTimeoutCb
  | trySendCb
deriving DecidableEq

/-- `skw->cmd`; `call` is the number of the call that filled it and `trySend` its kind. -/
structure Cmd where
  call : ℕ
  trySend : Bool
  id : ℕ
  seq : BitVec 16
  status : BitVec 16
  noAck : Bool
  ignoreBlockTx : Bool
  done : Bool
  xmit : Bool
  acked : Bool
  callback : CmdCallback
deriving DecidableEq

/-- `skw_set_cmd` for a message that is not too long. -/
def Cmd.setCmd (c : Cmd) (call : ℕ) (trySend : Bool) (r : CmdReq) : Cmd :=
  { c with
    call := call, trySend := trySend, id := r.id, seq := c.seq + 1, status := 0
    noAck := r.noAck, ignoreBlockTx := r.ignoreBlockTx, done := false, xmit := false
    acked := false }

/-- Where a call stands. The `try` ones are of `skw_msg_try_send`. -/
inductive CallPc
  | start
  | waiting (r : CmdReq)
  | locked (r : CmdReq)
  | set
  | armed
  | wait1
  | wait2
  | timedOut
  | out
  | unlocking (ret : ℤ)
  | returned (ret : ℤ)
  | tryLocked (r : CmdReq)
  | tryChecked (r : CmdReq)
  | trySet
  | tryTimer
  | tryArmed
  | tryUnlocking (ret : ℤ)
  | tryReturned (ret : ℤ)
deriving DecidableEq

/-- The header of a command as handed to `bus_cmd_xmit`. -/
structure Sent where
  call : ℕ
  id : ℕ
  seq : BitVec 16
deriving DecidableEq

/-- What `skw_set_cmd` wrote for a call. -/
structure Issued where
  sent : Sent
  noAck : Bool
deriving DecidableEq

/-- An ack of the firmware for a command it was handed. `short` is one without a status. -/
structure Ack where
  sent : Sent
  status : BitVec 16
  short : Bool
deriving DecidableEq

/-- `skw_cmd_ack_handler`: past the comparison, past the test of ACKED, past the copy of the
status; `call` is whose command it compared with. -/
inductive AckPc
  | idle
  | matched (a : Ack) (call : ℕ)
  | accepted (a : Ack) (call : ℕ)
  | copied (a : Ack) (call : ℕ)
deriving DecidableEq

/-- `skw_cmd_do`: XMIT taken, transmission refused, handed over or aborted, NO_ACK seen, DONE set;
`call` is whose XMIT it took. -/
inductive TxPc
  | idle
  | taken (call : ℕ)
  | refused (call : ℕ)
  | sent (call : ℕ)
  | noAck (call : ℕ)
  | doneSet (call : ℕ)
deriving DecidableEq

/-- `timer` is the queued command timer, `expired` those moved to the private list of the timer
function and `timeoutFn` the one whose callback runs. `unlockPending` and `unlockRunning` are
those of the work item, with whether the timer was deleted. `aborts` counts the contexts that have
set ACKED in `skw_abort_cmd` and not called the callback. -/
structure CmdSys where
  flags : SkwFlags
  count : ℕ
  cmd : Cmd
  pc : ℕ → CallPc
  tx : TxPc
  ack : AckPc
  aborts : ℕ
  timer : Option ℕ
  expired : List ℕ
  timeoutFn : Option ℕ
  unlockPending : Option ℕ
  unlockRunning : Option (ℕ × Bool)
  issued : ℕ → Option Issued
  handed : List Sent
  accepted : List Ack
  acquired : List ℕ
  released : List ℕ

inductive CmdStep
  | xmitTimeout (k : ℕ) (r : CmdReq)
  | down (k : ℕ)
  | setCmd (k : ℕ)
  | setCallback (k : ℕ)
  | setXmit (k : ℕ)
  | wake (k : ℕ)
  | timeout (k : ℕ)
  | giveUp (k : ℕ)
  | out (k : ℕ)
  | up (k : ℕ)
  | trySend (k : ℕ) (r : CmdReq)
  | tryAllowed (k : ℕ)
  | trySetCmd (k : ℕ)
  | tryAddTimer (k : ℕ) (ok : Bool)
  | trySetCallback (k : ℕ)
  | trySetXmit (k : ℕ)
  | tryUp (k : ℕ)
  | txTake
  | txXmit
  | txAbort
  | txNoAck
  | txDone
  | txCallback
  | abort
  | abortCallback
  | ackCompare (a : Ack)
  | ackTest
  | ackStatus
  | ackCallback
  | timerExpire
  | timeoutFn
  | timeoutUp
  | unlockStart
  | unlockDelTimer
  | unlockUp
  | setFlags (f : SkwFlags)
deriving DecidableEq

namespace CmdSys

def init (flags : SkwFlags) (cmd : Cmd) : CmdSys where
  flags := flags
  count := 1
  cmd := { cmd with
    noAck := false, done := false, xmit := false, acked := false, callback := .null
    trySend := false }
  pc _ := .start
  tx := .idle
  ack := .idle
  aborts := 0
  timer := none
  expired := []
  timeoutFn := none
  unlockPending := none
  unlockRunning := none
  issued _ := none
  handed := []
  accepted := []
  acquired := []
  released := []

def goto (s : CmdSys) (k : ℕ) (pc : CallPc) : CmdSys := { s with pc := Function.update s.pc k pc }

/-- `up(&skw->cmd.lock)` on behalf of call `k`. -/
def release (s : CmdSys) (k : ℕ) : CmdSys :=
  { s with count := s.count + 1, released := s.released ++ [k] }

def acquire (s : CmdSys) (k : ℕ) : CmdSys :=
  { s with count := s.count - 1, acquired := s.acquired ++ [k] }

def fill (s : CmdSys) (k : ℕ) (trySend : Bool) (r : CmdReq) : CmdSys :=
  let cmd := s.cmd.setCmd k trySend r
  { s with cmd := cmd, issued := Function.update s.issued k (some ⟨⟨k, cmd.id, cmd.seq⟩, r.noAck⟩) }

/-- `skw->cmd.callback(skw)`: a work item that is pending is not scheduled again. A call through
NULL has no successor. -/
def runCallback (s : CmdSys) : Option CmdSys :=
  match s.cmd.callback with
  | .null => none
  | .xmitTimeoutCb => some { s with cmd := { s.cmd with done := true } }
  | .trySendCb => some { s with unlockPending := some (s.unlockPending.getD s.cmd.call) }

/-- `skw_abort_cmd` up to its test of ACKED. -/
def abortCmd (s : CmdSys) : CmdSys :=
  if s.count = 0 ∧ s.cmd.acked = false then
    { s with cmd := { s.cmd with acked := true }, aborts := s.aborts + 1 }
  else s

/-- The check of `skw_bus_cmd_xmit`. -/
def xmitAllowed (s : CmdSys) : Bool :=
  cmdTxAllowed (if s.cmd.ignoreBlockTx then { s.flags with blockTx := false } else s.flags)

/-- The steps of `skw_msg_xmit_timeout` and `skw_msg_try_send`. -/
def stepCall (s : CmdSys) : CmdStep → Option CmdSys
  | .xmitTimeout k r =>
    if s.pc k = .start then
      some (s.goto k (if cmdAllowed s.flags r then .waiting r else .returned (- EIO)))
    else none
  | .down k =>
    match s.pc k with
    | .waiting r => if s.count = 0 then none else some ((s.acquire k).goto k (.locked r))
    | _ => none
  | .setCmd k =>
    match s.pc k with
    | .locked r =>
      some (if r.tooLong then s.goto k (.unlocking (-E2BIG)) else (s.fill k false r).goto k .set)
    | _ => none
  | .setCallback k =>
    if s.pc k = .set then
      some ({ s with cmd := { s.cmd with callback := .xmitTimeoutCb } }.goto k .armed)
    else none
  | .setXmit k =>
    if s.pc k = .armed then some ({ s with cmd := { s.cmd with xmit := true } }.goto k .wait1)
    else none
  | .wake k =>
    if (s.pc k = .wait1 ∨ s.pc k = .wait2) ∧ s.cmd.done = true then some (s.goto k .out) else none
  | .timeout k =>
    if s.cmd.done = true then none
    else if s.pc k = .wait1 then some (s.goto k .wait2)
    else if s.pc k = .wait2 then some (s.goto k .timedOut)
    else none
  | .giveUp k =>
    if s.pc k = .timedOut then
      some ({ s with
        cmd := { s.cmd with acked := true }
        flags := { s.flags with fwAssert := true } }.goto k (.unlocking (-ETIMEDOUT)))
    else none
  | .out k =>
    if s.pc k = .out then some (s.goto k (.unlocking (0 - s.cmd.status.toNat))) else none
  | .up k =>
    match s.pc k with
    | .unlocking ret => some ((s.release k).goto k (.returned ret))
    | _ => none
  | .trySend k r =>
    if s.pc k = .start then
      some (if s.count = 0 then s.goto k (.tryReturned (-EBUSY))
        else (s.acquire k).goto k (.tryLocked { r with noAck := false, ignoreBlockTx := false }))
    else none
  | .tryAllowed k =>
    match s.pc k with
    | .tryLocked r =>
      some (s.goto k (if cmdAllowed s.flags r then .tryChecked r else .tryUnlocking (- EIO)))
    | _ => none
  | .trySetCmd k =>
    match s.pc k with
    | .tryChecked r =>
      some (if r.tooLong then s.goto k (.tryUnlocking (-E2BIG))
        else (s.fill k true r).goto k .trySet)
    | _ => none
  | .tryAddTimer k ok =>
    if s.pc k = .trySet then
      some ({ s with
        timer := if s.timer = none ∧ ok = true then some k else s.timer }.goto k .tryTimer)
    else none
  | .trySetCallback k =>
    if s.pc k = .tryTimer then
      some ({ s with cmd := { s.cmd with callback := .trySendCb } }.goto k .tryArmed)
    else none
  | .trySetXmit k =>
    if s.pc k = .tryArmed then
      some ({ s with cmd := { s.cmd with xmit := true } }.goto k (.tryReturned 0))
    else none
  | .tryUp k =>
    match s.pc k with
    | .tryUnlocking ret => some ((s.release k).goto k (.tryReturned ret))
    | _ => none
  | _ => none

/-- The steps of the other contexts. -/
def stepWork (s : CmdSys) : CmdStep → Option CmdSys
  | .txTake =>
    if s.tx = .idle ∧ s.cmd.xmit = true then
      some { s with cmd := { s.cmd with xmit := false }, tx := .taken s.cmd.call }
    else none
  | .txXmit =>
    match s.tx with
    | .taken k =>
      some (if s.xmitAllowed then
          { s with handed := s.handed ++ [⟨s.cmd.call, s.cmd.id, s.cmd.seq⟩], tx := .sent k }
        else { s with tx := .refused k })
    | _ => none
  | .txAbort =>
    match s.tx with
    | .refused k => some { s.abortCmd with tx := .sent k }
    | _ => none
  | .txNoAck =>
    match s.tx with
    | .sent k => some { s with tx := if s.cmd.noAck then .noAck k else .idle }
    | _ => none
  | .txDone =>
    match s.tx with
    | .noAck k => some { s with cmd := { s.cmd with done := true }, tx := .doneSet k }
    | _ => none
  | .txCallback =>
    match s.tx with
    | .doneSet _ => { s with tx := .idle }.runCallback
    | _ => none
  | .abort => some s.abortCmd
  | .abortCallback =>
    if s.aborts = 0 then none else { s with aborts := s.aborts - 1 }.runCallback
  | .ackCompare a =>
    if a.sent ∈ s.handed ∧ s.ack = .idle then
      some { s with
        ack := if a.sent.id = s.cmd.id ∧ a.sent.seq = s.cmd.seq then .matched a s.cmd.call
          else .idle }
    else none
  | .ackTest =>
    match s.ack with
    | .matched a k =>
      some { s with
        cmd := { s.cmd with acked := true }
        ack := if s.cmd.acked || a.short then .idle else .accepted a k }
    | _ => none
  | .ackStatus =>
    match s.ack with
    | .accepted a k =>
      some { s with
        cmd := { s.cmd with status := a.status }, ack := .copied a k, accepted := s.accepted ++ [a] }
    | _ => none
  | .ackCallback =>
    match s.ack with
    | .copied _ _ => { s with ack := .idle }.runCallback
    | _ => none
  | .timerExpire =>
    match s.timer with
    | some k => some { s with timer := none, expired := s.expired ++ [k] }
    | none => none
  | .timeoutFn =>
    match s.expired, s.timeoutFn with
    | k :: rest, none =>
      some { s with
        expired := rest, timeoutFn := some k, flags := { s.flags with blockTx := true } }
    | _, _ => none
  | .timeoutUp =>
    match s.timeoutFn with
    | some k => some { s.release k with timeoutFn := none }
    | none => none
  | .unlockStart =>
    match s.unlockPending, s.unlockRunning with
    | some k, none => some { s with unlockPending := none, unlockRunning := some (k, false) }
    | _, _ => none
  | .unlockDelTimer =>
    match s.unlockRunning with
    | some (k, false) => some { s with timer := none, unlockRunning := some (k, true) }
    | _ => none
  | .unlockUp =>
    match s.unlockRunning with
    | some (k, true) => some { s.release k with unlockRunning := none }
    | _ => none
  | .setFlags f => some { s with flags := f }
  | _ => none

def step (s : CmdSys) (e : CmdStep) : Option CmdSys := s.stepCall e <|> s.stepWork e

theorem step_cases {s t : CmdSys} {e : CmdStep} (h : s.step e = some t) :
    s.stepCall e = some t ∨ s.stepWork e = some t := by
  unfold step at h
  cases hc : s.stepCall e with
  | none => right; simpa [hc] using h
  | some u => left; simpa [hc] using h

end CmdSys

end Skw
