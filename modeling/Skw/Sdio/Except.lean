import Skw.Kernel.Types
import Skw.Lib.Machine

/-! The crash state `cp_state` of the SDIO driver, as built for release. It is written by
`send_modem_assert_command`, by the control messages that the receive thread handles and by the
watchdog `skw_except_work`; the recovery is started by the watchdog or by DUMPDONE. -/
namespace Skw

abbrev DEVICE_DUMPDONE_EVENT : ℕ := 2
abbrev DEVICE_BLOCKED_EVENT : ℕ := 3

/-- Where the receive thread stands in a control message: BSPASSERT has two tests of `cp_state` and
a section, DUMPDONE a section, `cancel_delayed_work_sync`, which marks the work and then waits for
its run, and the recovery. -/
inductive ExceptRx
  | idle
  | assertTest
  | assertRetest
  | assertSection
  | dumpSection
  | dumpCancel
  | dumpFlush
  | dumpRecovery
  | version
deriving DecidableEq

/-- DUMPDONE has set `cp_state` and not yet entered the recovery. -/
def ExceptRx.dumping : ExceptRx → Bool
  | dumpCancel | dumpFlush | dumpRecovery => true
  | _ => false

/-- Where `skw_sdio_exception_work` stands. -/
inductive ExceptWork
  | idle
  | started
  | recovery
deriving DecidableEq

/-- `testing`, `setting` and `scheduling` count the `send_modem_assert_command` calls that stand
there. `recoveries` counts how often `skw_recovery_mode` was entered since `cp_state` was 0. -/
structure CpExcept where
  cpState : ℕ
  pending : Bool
  testing : ℕ
  setting : ℕ
  scheduling : ℕ
  rx : ExceptRx
  work : ExceptWork
  recoveries : ℕ
deriving DecidableEq

inductive ExceptMsg
  | bspassert
  | dumpdone
  | trunkW
deriving DecidableEq

/-- Where the handling of a message starts. -/
def ExceptMsg.start : ExceptMsg → ExceptRx
  | bspassert => .assertTest
  | dumpdone => .dumpSection
  | trunkW => .version

/-- `rx` is the next step of a control message, with the state of the log port that it reads. -/
inductive ExceptEvent
  | callAssert (allocated : Bool)
  | testAssert
  | setAssert
  | scheduleAssert
  | message (m : ExceptMsg)
  | rx (logOpen : Bool)
  | startWork
  | work
deriving DecidableEq

namespace CpExcept

/-- A write of `cp_state`; the recoveries are counted from where it leaves 0. -/
def setCpState (s : CpExcept) (v : ℕ) : CpExcept :=
  { s with cpState := v, recoveries := if s.cpState = 0 then 0 else s.recoveries }

/-- `schedule_delayed_work`, which does nothing while the work is cancelled. -/
def scheduleWork (s : CpExcept) : CpExcept :=
  { s with pending := s.pending || s.rx ≠ .dumpFlush }

/-- `skw_recovery_mode` is entered. -/
def recover (s : CpExcept) : CpExcept := { s with recoveries := s.recoveries + 1 }


/-- The next step of `skw_sdio_handle_packet` for a control message. -/
def rxStep (s : CpExcept) (logOpen : Bool) : Option CpExcept :=
  match s.rx with
  | .idle => none
  | .assertTest =>
    some (if s.cpState = 0 ∧ logOpen = false then { s.scheduleWork with rx := .assertSection }
      else { s with rx := .assertRetest })
  | .assertRetest =>
    some (if s.cpState = 0 ∧ logOpen then { s.scheduleWork with rx := .assertSection }
      else { s with rx := .assertSection })
  | .assertSection =>
    some (if s.cpState = DEVICE_BLOCKED_EVENT then { s with rx := .idle }
      else { s.setCpState 1 with rx := .idle })
  | .dumpSection =>
    some (if s.cpState = DEVICE_BLOCKED_EVENT then { s with rx := .idle }
      else { s.setCpState DEVICE_DUMPDONE_EVENT with rx := .dumpCancel })
  | .dumpCancel => some { s with pending := false, rx := .dumpFlush }
  | .dumpFlush => if s.work = .idle then some { s with rx := .dumpRecovery } else none
  | .dumpRecovery => some { s.recover with rx := .idle }
  | .version => some { s.setCpState 0 with rx := .idle }

/-- The next step of `skw_sdio_exception_work`. -/
def workStep (s : CpExcept) : Option CpExcept :=
  match s.work with
  | .idle => none
  | .started =>
    some (if s.cpState ≠ 1 then { s with work := .idle }
      else { s.setCpState DEVICE_BLOCKED_EVENT with work := .recovery })
  | .recovery => some { s.recover with work := .idle }

def step (s : CpExcept) : ExceptEvent → Option CpExcept
  | .callAssert allocated => some (if allocated then { s with testing := s.testing + 1 } else s)
  | .testAssert =>
    if 0 < s.testing then
      some (if s.cpState ≠ 0 then { s with testing := s.testing - 1 }
        else { s with testing := s.testing - 1, setting := s.setting + 1 })
    else none
  | .setAssert =>
    if 0 < s.setting then
      some { s.setCpState 1 with setting := s.setting - 1, scheduling := s.scheduling + 1 }
    else none
  | .scheduleAssert =>
    if 0 < s.scheduling then some { s.scheduleWork with scheduling := s.scheduling - 1 } else none
  | .message m => if s.rx = .idle then some { s with rx := m.start } else none
  | .rx logOpen => s.rxStep logOpen
  | .startWork =>
    if s.work = .idle ∧ s.pending then some { s with pending := false, work := .started } else none
  | .work => s.workStep

def init : CpExcept := ⟨0, false, 0, 0, 0, .idle, .idle, 0⟩

end CpExcept
end Skw
