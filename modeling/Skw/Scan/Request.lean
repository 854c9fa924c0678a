import Skw.Kernel.Types
import Skw.Lib.Machine
import Mathlib.Logic.Function.Basic

/-! The scan request of a chip. `skw_scan` stores it without the lock before it sends the command,
and clears it when the command fails; `skw_scan_done` tests, takes and completes it under
`skw->lock`, for the firmware's event, the timeout, an abort or the end of an interface. -/
namespace Skw

/-- Where the `skw_scan` call of a request stands, with the error of its command. -/
inductive ScanCall
  | idle
  | filled (i : ℕ)
  | stored (i : ℕ)
  | timed (i : ℕ)
  | failed (i : ℕ) (err : ℤ)
  | cleared (i : ℕ) (err : ℤ)
deriving DecidableEq

namespace ScanCall

/-- The request of the call. -/
def req : ScanCall → Option ℕ
  | idle => none
  | filled i | stored i | timed i | failed i _ | cleared i _ => some i

/-- The request of the call, when the call has stored it and not cleared it. -/
def kept : ScanCall → Option ℕ
  | stored i | timed i | failed i _ => some i
  | idle | filled _ | cleared .. => none

/-- The request of the call, when it is not stored yet or cleared again. -/
def unkept : ScanCall → Option ℕ
  | filled i | cleared i _ => some i
  | idle | stored _ | timed _ | failed .. => none

end ScanCall

/-- Where the `skw_scan_done` call that holds `skw->lock` stands, with the `scan_req` of its own
once it has read it. -/
inductive ScanDone
  | idle
  | locked
  | tested
  | matched
  | read (req : Option ℕ)
  | cleared (req : Option ℕ)
  | deleted (req : Option ℕ)
  | crashed
deriving DecidableEq

namespace ScanDone

/-- The request that the call has taken off `skw->scan_req`. -/
def taken : ScanDone → Option ℕ
  | cleared req | deleted req => req
  | idle | locked | tested | matched | read _ | crashed => none

/-- The request that the call is going to complete. -/
def hand : ScanDone → Option ℕ
  | read req | cleared req | deleted req => req
  | idle | locked | tested | matched | crashed => none

end ScanDone

/-- A call of `skw_compat_scan_done`, with the request that was being scanned. -/
structure ScanCompletion where
  req : Option ℕ
  aborted : Bool
  scanned : Option ℕ
deriving DecidableEq

/-- Who calls `skw_scan_done`. -/
inductive ScanCaller
  | eventScanComplete (w : ℕ)
  | workTimeout (w : ℕ)
  | abortScan (w : ℕ)
  | ifaceTeardown (w : ℕ)
  | ndoStop (w : ℕ)
deriving DecidableEq

namespace ScanCaller

def iface : ScanCaller → ℕ
  | eventScanComplete w | workTimeout w | abortScan w | ifaceTeardown w | ndoStop w => w

def aborted : ScanCaller → Bool
  | eventScanComplete _ | abortScan _ => false
  | workTimeout _ | ifaceTeardown _ | ndoStop _ => true

end ScanCaller

/-- Requests are numbered by the `skw_scan` calls. `wdev` is the interface of a request, `ret` what
its call has returned, `outstanding` the request the kernel is scanning for. `timers` holds the
scan timers by request, `works` the interfaces of the queued timeout works, and `aborting` those
of the `skw_abort_scan` calls that have found a request. -/
structure ScanState where
  calls : ℕ
  wdev : ℕ → ℕ
  ret : ℕ → Option ℤ
  outstanding : Option ℕ
  scanReq : Option ℕ
  scan : ScanCall
  done : ScanDone
  doneIface : ℕ
  doneAborted : Bool
  timers : List ℕ
  works : List ℕ
  aborting : List ℕ
  completed : List ScanCompletion

/-- `scan` starts a call, `scanning` is its next step, with the result of the command or of the
allocation where it makes one; `done` is the next step of `skw_scan_done`. -/
inductive ScanEvent
  | scan (w : ℕ) (alloc : Bool)
  | scanning (ret : ℤ)
  | timeout (i : ℕ) (queued : Bool)
  | abortScan (w : ℕ)
  | call (c : ScanCaller)
  | done
deriving DecidableEq

namespace ScanState

/-- `skw_scan` returns; the kernel drops a request that it refuses. -/
def returned (s : ScanState) (i : ℕ) (ret : ℤ) : ScanState :=
  { s with
    ret := Function.update s.ret i (some ret)
    scan := .idle
    outstanding := if ret = 0 then s.outstanding else none }

/-- `skw_scan` up to `skw->scan_req = req`. The kernel has one request at a time. -/
def startScan (s : ScanState) (w : ℕ) (alloc : Bool) : ScanState :=
  let t := { s with
    calls := s.calls + 1
    wdev := Function.update s.wdev s.calls w
    outstanding := some s.calls
    scan := .filled s.calls }
  if alloc then t else t.returned s.calls (-ENOMEM)

/-- `skw_del_timer_work`. -/
def delTimer (s : ScanState) (id : Option ℕ) : ScanState :=
  { s with timers := s.timers.eraseP fun i => some i = id }

/-- The next step of `skw_scan`; a timer that cannot be added is not noticed. -/
def scanStep (s : ScanState) (ret : ℤ) : Option ScanState :=
  match s.scan with
  | .idle => none
  | .filled i => some { s with scanReq := some i, scan := .stored i }
  | .stored i =>
    some { s with timers := if ret = 0 then i :: s.timers else s.timers, scan := .timed i }
  | .timed i => some (if ret = 0 then s.returned i 0 else { s with scan := .failed i ret })
  | .failed i err => some { s with scanReq := none, scan := .cleared i err }
  | .cleared i err => some ((s.delTimer (some i)).returned i err)

/-- `skw_timer_work` for an expired scan timer, with `skw_scan_timeout` as its callback. -/
def expire (s : ScanState) (i : ℕ) (queued : Bool) : ScanState :=
  { s with
    timers := s.timers.erase i
    works := if queued then s.works ++ [s.wdev i] else s.works }

/-- `skw_abort_scan` up to its call of `skw_scan_done`. -/
def abortScan (s : ScanState) (w : ℕ) : ScanState :=
  if s.scanReq.isNone then s else { s with aborting := s.aborting ++ [w] }

/-- What the caller has left to do before the call. -/
def leave (s : ScanState) : ScanCaller → Option ScanState
  | .workTimeout w => if w ∈ s.works then some { s with works := s.works.erase w } else none
  | .abortScan w => if w ∈ s.aborting then some { s with aborting := s.aborting.erase w } else none
  | .eventScanComplete _ | .ifaceTeardown _ | .ndoStop _ => some s

/-- `mutex_lock` of `skw_scan_done`. -/
def lock (s : ScanState) (c : ScanCaller) : ScanState :=
  { s with done := .locked, doneIface := c.iface, doneAborted := c.aborted }

/-- `skw_compat_scan_done` and `mutex_unlock`; the kernel drops a request that is done. -/
def complete (s : ScanState) (req : Option ℕ) : ScanState :=
  { s with
    completed := s.completed ++ [⟨req, s.doneAborted, s.outstanding⟩]
    outstanding := if s.outstanding = req then none else s.outstanding
    done := .idle }

/-- The next step of `skw_scan_done`. Each use of `skw->scan_req` reads it anew. -/
def doneStep (s : ScanState) : Option ScanState :=
  match s.done with
  | .idle | .crashed => none
  | .locked => some { s with done := if s.scanReq.isNone then .idle else .tested }
  | .tested =>
    match s.scanReq with
    | none => some { s with done := .crashed }
    | some i => some { s with done := if s.doneIface ≠ s.wdev i then .idle else .matched }
  | .matched => some { s with done := .read s.scanReq }
  | .read req => some { s with scanReq := none, done := .cleared req }
  | .cleared req => some { s.delTimer req with done := .deleted req }
  -- The result of SKW_CMD_STOP_SCAN, sent here when `aborted`, is only logged.
  | .deleted req => some (s.complete req)

def step (s : ScanState) : ScanEvent → Option ScanState
  | .scan w alloc =>
    if s.scan = .idle ∧ s.outstanding = none then some (s.startScan w alloc) else none
  | .scanning ret => s.scanStep ret
  | .timeout i queued => if i ∈ s.timers then some (s.expire i queued) else none
  | .abortScan w => some (s.abortScan w)
  | .call c => if s.done = .idle then (s.leave c).map fun t => t.lock c else none
  | .done => s.doneStep

/-- The chip before its first scan. -/
def init : ScanState :=
  ⟨0, fun _ => 0, fun _ => none, none, none, .idle, .idle, 0, false, [], [], [], []⟩

/-- How often a request was passed to `skw_compat_scan_done`. -/
def passed (s : ScanState) (i : ℕ) : ℕ := s.completed.countP fun c => c.req = some i

/-- The driver has the request and has not completed it. -/
def Pending (s : ScanState) (i : ℕ) : Prop := s.scanReq = some i ∨ s.done.hand = some i

instance (s : ScanState) (i : ℕ) : Decidable (s.Pending i) := inferInstanceAs (Decidable (_ ∨ _))

end ScanState
end Skw
