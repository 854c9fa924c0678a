import Skw.Kernel.Types
import Skw.Lib.Machine
import Skw.Sdio.Except
import Mathlib.Logic.Function.Basic

/-! The services of a chip on the USB. Four functions start and stop them one call at a time, while
the thread of the message port, the work after a crash and other parts of the driver go on. With the
state of the driver stands what has happened to each service. -/
namespace Skw

abbrev MODEM_OFF : ℕ := 0
abbrev MODEM_ON : ℕ := 1
abbrev MODEM_HALT : ℕ := 2

inductive Service
  | wifi
  | bt
deriving DecidableEq

inductive ServiceCommand
  | start
  | stop
deriving DecidableEq

/-- Where the caller of one of the four functions stands: in the loops that wait for the port, before
the bit of the service is tested, before `cp_state` is tested, before the control transfer, and behind
it with its result. -/
inductive ServicePc
  | idle
  | startPolling (count : ℕ)
  | startCheck (v : Service)
  | stopPolling (count : ℕ)
  | stopCheck (v : Service)
  | command (v : Service) (cmd : ServiceCommand)
  | transfer (v : Service) (cmd : ServiceCommand)
  | waiting (v : Service) (cmd : ServiceCommand) (ret : ℤ)
deriving DecidableEq

/-- What has happened to a service. The chip has `accepted` a start since it booted, and no stop
behind it. The bit is `unsettled` while it is set by a start whose transfer failed. The last start
`failed`, and since it began the service has been `unready`; the next one, which begins so, is
`retrying`. -/
structure ServiceTrace where
  accepted : Bool
  unsettled : Bool
  failed : Bool
  unready : Bool
  retrying : Bool
deriving DecidableEq

/-- What a start returns, with what had happened to the service and whether the command was sent. -/
structure StartReturn where
  service : Service
  ret : ℤ
  accepted : Bool
  retrying : Bool
  sent : Bool
deriving DecidableEq

/-- `port1` is the `state` of `usb_ports[1]`. A thread is `reading` messages; `dumping` ones have left
the loop after a crash and have not yet cleared the map. `exceptScheduled` and `exceptClearing` are
the work after a crash. -/
structure UsbServices where
  serviceStateMap : Service → Bool
  cpState : ℕ
  modemStatus : ℕ
  wifiDataPdev : Bool
  port1 : Option ℕ
  startServiceFlag : Bool
  loopChecks : ℕ
  reading : Bool
  dumping : ℕ
  exceptScheduled : Bool
  exceptClearing : Bool
  pc : ServicePc
  sent : Bool
  trace : Service → ServiceTrace
  starts : List StartReturn

/-- `caller` is the next step of the caller, with what `usb_control_msg` returns there. Behind the
messages of the chip stand the steps after a crash and what the rest of the driver changes. -/
inductive ServiceEvent
  | call (v : Service) (cmd : ServiceCommand)
  | caller (err : ℤ)
  | ready (v : Service)
  | btExit
  | bspReady
  | bspAssert
  | boot
  | dumped
  | loopStart
  | loopStop
  | modemAssert
  | except
  | exceptClear
  | suspend
  | setPort1 (port : Option ℕ)
  | setPdev (pdev : Bool)
  | setModemStatus (status : ℕ)
deriving DecidableEq

namespace UsbServices

def setPc (s : UsbServices) (pc : ServicePc) : UsbServices := { s with pc := pc }

def setBit (s : UsbServices) (v : Service) (b : Bool) : UsbServices :=
  { s with serviceStateMap := Function.update s.serviceStateMap v b }

def note (s : UsbServices) (v : Service) (f : ServiceTrace → ServiceTrace) : UsbServices :=
  { s with trace := Function.update s.trace v (f (s.trace v)) }

/-- `service_state_map = 0` -/
def clearMap (s : UsbServices) : UsbServices :=
  { s with
    serviceStateMap := fun _ => false
    trace := fun v => { s.trace v with unsettled := false } }

def PortUp (s : UsbServices) : Prop := ∃ state, s.port1 = some state ∧ state ≠ 0

instance (s : UsbServices) : Decidable s.PortUp :=
  match h : s.port1 with
  | none => isFalse fun ⟨_, hs, _⟩ => by
      rw [h] at hs
      cases hs
  | some 0 => isFalse fun ⟨_, hs, hne⟩ => by
      rw [h] at hs
      exact hne (Option.some.inj hs).symm
  | some (n + 1) => isTrue ⟨n + 1, h, Nat.succ_ne_zero n⟩

/-- A start returns. -/
def returnStart (s : UsbServices) (v : Service) (ret : ℤ) : UsbServices :=
  { s.note v fun t => { t with failed := decide (ret < 0), retrying := false } with
    pc := .idle
    starts := s.starts ++ [⟨v, ret, (s.trace v).accepted, (s.trace v).retrying, s.sent⟩] }

/-- A start begins. -/
def beginStart (s : UsbServices) (v : Service) : UsbServices :=
  { s.note v fun t =>
      { t with retrying := t.failed && t.unready, unready := true, failed := false } with
    sent := false }

/-- `skw_WIFI_service_start` and `skw_BT_service_start` up to their first wait or the test of the
bit -/
def callStart (s : UsbServices) (v : Service) : UsbServices :=
  let s := s.beginStart v
  match v with
  | .wifi => s.setPc (if s.modemStatus = MODEM_HALT then .startPolling 90 else .startCheck .wifi)
  | .bt => if s.wifiDataPdev then s.setPc (.startCheck .bt) else s.returnStart .bt (-ENODEV)

/-- `skw_WIFI_service_stop` and `skw_BT_service_stop` -/
def callStop (s : UsbServices) : Service → UsbServices
  | .wifi =>
    if s.modemStatus = MODEM_HALT then
      ((s.setBit .wifi false).note .wifi fun t => { t with unsettled := false }).setPc
        (.stopPolling 10)
    else s.setPc (.stopCheck .wifi)
  | .bt => if s.wifiDataPdev then s.setPc (.stopCheck .bt) else s

/-- `send_modem_service_command` does not send while the chip has crashed. -/
def refuse (s : UsbServices) (v : Service) : ServiceCommand → UsbServices
  | .start => s.returnStart v (-1)
  | .stop => s.setPc .idle

/-- The control transfer of `send_modem_service_command`, if the port is there. -/
def transfer (s : UsbServices) (v : Service) (cmd : ServiceCommand) (err : ℤ) : UsbServices :=
  if s.PortUp then
    { s.note v fun t =>
        { t with accepted := if 0 ≤ err then decide (cmd = .start) else t.accepted } with
      sent := true
      startServiceFlag := s.startServiceFlag || decide (cmd = .start)
      pc := .waiting v cmd err }
  else
    { s with
      startServiceFlag := s.startServiceFlag || decide (cmd = .start)
      pc := .waiting v cmd (-1) }

/-- The end of `send_modem_service_command`, behind the wait -/
def finish (s : UsbServices) (v : Service) (cmd : ServiceCommand) (ret : ℤ) : UsbServices :=
  match cmd with
  | .start =>
    ((s.setBit v true).note v fun t => { t with unsettled := decide (ret < 0) }).returnStart v ret
  | .stop => ((s.setBit v false).note v fun t => { t with unsettled := false }).setPc .idle

def callerStep (s : UsbServices) (err : ℤ) : Option UsbServices :=
  match s.pc with
  | .idle => none
  | .startPolling n =>
    some (s.setPc (if s.port1 = none ∧ n ≠ 0 then .startPolling (n - 1) else .startCheck .wifi))
  | .startCheck v =>
    some (if s.serviceStateMap v then s.returnStart v 0 else s.setPc (.command v .start))
  | .stopPolling n =>
    some (s.setPc (if s.port1 = none ∧ n ≠ 0 then .stopPolling (n - 1) else .idle))
  | .stopCheck v => some (s.setPc (if s.serviceStateMap v then .command v .stop else .idle))
  | .command v cmd =>
    some (if s.cpState = 0 then s.setPc (.transfer v cmd) else s.refuse v cmd)
  | .transfer v cmd => some (s.transfer v cmd err)
  | .waiting v cmd ret => some (s.finish v cmd ret)

/-- `WIFIREADY` and `BTREADY` in `usb_loopcheck_entry` -/
def ready (s : UsbServices) (v : Service) : UsbServices :=
  { (s.setBit v true).note v fun t => { t with unready := false, retrying := false } with
    startServiceFlag := false
    loopChecks := s.loopChecks + 1 }

/-- `BSPASSERT` up to the dump -/
def bspAssert (s : UsbServices) : UsbServices :=
  if s.cpState = DEVICE_BLOCKED_EVENT then { s with reading := false }
  else
    { s with
      exceptScheduled := s.exceptScheduled && decide (s.cpState ≠ 1)
      cpState := 1
      modemStatus := MODEM_HALT
      reading := false
      dumping := s.dumping + 1 }

/-- The chip has booted and sends its version. -/
def boot (s : UsbServices) : UsbServices :=
  { s with
    exceptScheduled := false
    cpState := 0
    modemStatus := MODEM_ON
    loopChecks := s.loopChecks + 1
    trace := fun v => { s.trace v with accepted := false } }

/-- `modem_assert_work`, where port 0 is there -/
def modemAssert (s : UsbServices) : UsbServices :=
  if s.modemStatus = MODEM_HALT then s
  else { s with cpState := 1, modemStatus := MODEM_HALT, exceptScheduled := true }

/-- `skw_usb_exception_work` up to the notification -/
def except (s : UsbServices) : UsbServices :=
  if s.cpState ≠ 1 then { s with exceptScheduled := false }
  else
    { s with
      exceptScheduled := false
      exceptClearing := true
      cpState := DEVICE_BLOCKED_EVENT }

def step (s : UsbServices) : ServiceEvent → Option UsbServices
  | .call v cmd =>
    if s.pc = .idle then
      some (match cmd with
        | .start => s.callStart v
        | .stop => s.callStop v)
    else none
  | .caller err => s.callerStep err
  | .ready v => if s.reading then some (s.ready v) else none
  | .btExit => if s.reading then some { s with loopChecks := s.loopChecks + 1 } else none
  | .bspReady =>
    if s.reading then
      some (if s.startServiceFlag then s else { s with loopChecks := s.loopChecks + 1 })
    else none
  | .bspAssert => if s.reading then some s.bspAssert else none
  -- the work is cancelled first, which waits for its end
  | .boot => if s.reading ∧ ¬s.exceptClearing then some s.boot else none
  | .dumped => if 0 < s.dumping then some { s.clearMap with dumping := s.dumping - 1 } else none
  | .loopStart => some { s with reading := true }
  | .loopStop => some { s with reading := false }
  | .modemAssert => some s.modemAssert
  | .except => if s.exceptScheduled then some s.except else none
  | .exceptClear => if s.exceptClearing then some { s.clearMap with exceptClearing := false } else none
  | .suspend => some (if s.cpState ≠ 0 then { s with cpState := 0, exceptScheduled := false } else s)
  | .setPort1 port => some { s with port1 := port }
  | .setPdev pdev => some { s with wifiDataPdev := pdev }
  | .setModemStatus status => some { s with modemStatus := status }

/-- The module is loaded, and there is no chip yet. -/
def init : UsbServices where
  serviceStateMap _ := false
  cpState := 0
  modemStatus := MODEM_OFF
  wifiDataPdev := false
  port1 := none
  startServiceFlag := false
  loopChecks := 0
  reading := false
  dumping := 0
  exceptScheduled := false
  exceptClearing := false
  pc := .idle
  sent := false
  trace _ := ⟨false, false, false, false, false⟩
  starts := []

/-- A start that does not return an error was accepted, and one behind a failed start has sent the
command again. -/
def Reflects (s : UsbServices) : Prop :=
  ∀ r ∈ s.starts, (0 ≤ r.ret → r.accepted) ∧ (r.retrying → r.sent)

end UsbServices
end Skw
