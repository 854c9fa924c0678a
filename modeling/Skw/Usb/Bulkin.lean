import Skw.Kernel.Types
import Skw.Lib.Machine
import Mathlib.Logic.Function.Basic

/-! Asynchronous reception on the WiFi data port of the USB driver, which is `usb_ports[1]`. The
URBs go from `rx_urb_list` to the USB core, from its completions to `rx_done_urb_list`, and back
while the tasklet `usb_handle` parses them; those met by a suspend wait in `suspend_urb_list`. A
step reaches from one list operation to the next. -/
namespace Skw
variable {n : ℕ}

/-- Who runs `bulkin_read_async`: the port's thread at its start, `kick_rx_thread`, or the tasklet. -/
inductive RxCtx
  | entry
  | kick (k : ℕ)
  | tasklet
deriving DecidableEq

/-- Where a `bulkin_read_async` call stands; it has taken no URB if the list was empty. -/
inductive BulkinRead (n : ℕ)
  | idle
  | take
  | took (urb : Option (Fin n))
  | park (urb : Fin n)
deriving DecidableEq

def BulkinRead.hand : BulkinRead n → Option (Fin n)
  | took urb => urb
  | park urb => some urb
  | _ => none

/-- Where `usb_handle` stands: `got` is before its test of the status of a URB that it has moved,
`parsing` before the end of its parse. -/
inductive UsbHandle (n : ℕ)
  | idle
  | loop
  | take
  | got (urb : Option (Fin n))
  | parsing (urb : Fin n)
  | refill
deriving DecidableEq

/-- The URB whose buffer `usb_handle` reads. -/
def UsbHandle.reading : UsbHandle n → Option (Fin n)
  | got urb => urb
  | parsing urb => some urb
  | _ => none

/-- Where `skw_usb_io_resume` stands. -/
inductive UsbResume (n : ℕ)
  | idle
  | loop
  | take
  | took (urb : Option (Fin n))
deriving DecidableEq

def UsbResume.hand : UsbResume n → Option (Fin n)
  | took urb => urb
  | _ => none

/-- What the USB core has of a URB; `given` is in its completion, before it is listed. -/
inductive RxHcd
  | idle
  | submitted
  | given (suspended : Bool)
deriving DecidableEq

/-- The fields of `struct urb` that the driver tests; `context` says that it is not NULL. -/
structure RxUrb where
  context : Bool
  status : ℤ
deriving DecidableEq

/-- The port with `n` receive URBs. `scheduled` is the state of the tasklet. -/
structure UsbRx (n : ℕ) where
  state : ℕ
  suspend : ℕ
  bulkAsyncRead : ℤ
  rxUrbList : List (Fin n)
  rxDoneUrbList : List (Fin n)
  suspendUrbList : List (Fin n)
  urb : Fin n → RxUrb
  hcd : Fin n → RxHcd
  bulkin : RxCtx → BulkinRead n
  scheduled : Bool
  handle : UsbHandle n
  pm : UsbResume n

/-- `bulkin` is the next step of a `bulkin_read_async` call, with what `usb_submit_urb` returns
there, and `resuming` that of a resume. `handle` is the next step of the tasklet, with what it finds
in `rx_submit` and `modem_status`. -/
inductive UsbRxEvent (n : ℕ)
  | setState (state : ℕ)
  | kick (k : ℕ)
  | bulkin (c : RxCtx) (err : ℤ)
  | complete (u : Fin n) (status : ℤ)
  | completed (u : Fin n)
  | tasklet
  | handle (rxSubmit modemOn : Bool)
  | suspend
  | resume (reset : Bool)
  | resuming (err : ℤ)
deriving DecidableEq

namespace UsbRx

def setBulkin (s : UsbRx n) (c : RxCtx) (b : BulkinRead n) : UsbRx n :=
  { s with bulkin := Function.update s.bulkin c b }

def setContext (s : UsbRx n) (u : Fin n) (context : Bool) : UsbRx n :=
  { s with urb := Function.update s.urb u { s.urb u with context := context } }

def setHcd (s : UsbRx n) (u : Fin n) (h : RxHcd) : UsbRx n :=
  { s with hcd := Function.update s.hcd u h }

/-- The section of `bulkin_read_async`. -/
def bulkinTake (s : UsbRx n) (c : RxCtx) : UsbRx n :=
  match s.rxUrbList with
  | [] => s.setBulkin c (.took none)
  | u :: l => { s.setBulkin c (.took (some u)) with rxUrbList := l }

/-- `bulkin_read_async` from its test of `context` on. -/
def bulkinSubmit (s : UsbRx n) (c : RxCtx) (u : Fin n) (err : ℤ) : UsbRx n :=
  if (s.urb u).context then s.setBulkin c .idle
  else if s.suspend ≠ 0 then (s.setContext u true).setBulkin c (.park u)
  else if err < 0 then (s.setContext u false).setBulkin c (.park u)
  else
    { ((s.setContext u true).setBulkin c .idle).setHcd u .submitted with
      bulkAsyncRead := s.bulkAsyncRead + 1 }

def bulkinPark (s : UsbRx n) (c : RxCtx) (u : Fin n) : UsbRx n :=
  { s.setBulkin c .idle with suspendUrbList := s.suspendUrbList ++ [u] }

def bulkinStep (s : UsbRx n) (c : RxCtx) (err : ℤ) : Option (UsbRx n) :=
  match s.bulkin c with
  | .idle => none
  | .take => some (s.bulkinTake c)
  -- what is no URB is not followed further
  | .took none => none
  | .took (some u) => some (s.bulkinSubmit c u err)
  | .park u => some (s.bulkinPark c u)

/-- A `kick_rx_thread` call that finds the command port running; another returns at once. -/
def kick (s : UsbRx n) (k : ℕ) : UsbRx n :=
  if s.bulkAsyncRead = 0 ∧ s.rxUrbList ≠ [] then s.setBulkin (.kick k) .take else s

/-- `bulkin_async_complete` up to its list operation. -/
def complete (s : UsbRx n) (u : Fin n) (status : ℤ) : UsbRx n :=
  if (s.urb u).context = false then
    { s.setHcd u .idle with urb := Function.update s.urb u ⟨false, status⟩ }
  else if status = -ENOENT ∧ s.suspend ≠ 0 then
    { s.setHcd u (.given true) with
      urb := Function.update s.urb u ⟨true, status⟩
      bulkAsyncRead := s.bulkAsyncRead - 1 }
  else
    { s.setHcd u (.given false) with
      urb := Function.update s.urb u ⟨false, status⟩
      bulkAsyncRead := s.bulkAsyncRead - 1 }

/-- The list operation of `bulkin_async_complete`, under the lock unless it is for the suspend. -/
def completed (s : UsbRx n) (u : Fin n) (suspended : Bool) : UsbRx n :=
  if suspended then { s.setHcd u .idle with suspendUrbList := s.suspendUrbList ++ [u] }
  else if s.state ≠ 0 then
    { s.setHcd u .idle with rxDoneUrbList := s.rxDoneUrbList ++ [u], scheduled := true }
  else { s.setHcd u .idle with rxUrbList := s.rxUrbList ++ [u] }

/-- The section of `usb_handle`. -/
def handleTake (s : UsbRx n) : UsbRx n :=
  match s.rxDoneUrbList with
  | [] => { s with handle := .got none }
  | u :: l =>
    { s with handle := .got (some u), rxDoneUrbList := l, rxUrbList := s.rxUrbList ++ [u] }

/-- The next step of `usb_handle`, which waits in `refill` for its `bulkin_read_async` call. -/
def handleStep (s : UsbRx n) (rxSubmit modemOn : Bool) : Option (UsbRx n) :=
  match s.handle with
  | .idle => none
  | .loop =>
    some { s with handle := if s.rxDoneUrbList = [] ∨ s.state = 0 then .refill else .take }
  | .take => some s.handleTake
  | .got none => none
  | .got (some u) =>
    some { s with handle :=
      if (s.urb u).status < 0 ∨ s.state = 0 then .idle
      else if rxSubmit then .parsing u else .loop }
  | .parsing _ => some { s with handle := if modemOn then .loop else .idle }
  | .refill =>
    if s.bulkin .tasklet = .idle then
      some (if s.rxUrbList = [] ∨ s.state = 0 then { s with handle := .idle }
        else s.setBulkin .tasklet .take)
    else none

/-- `resume` submits without `bulk_async_read++` and returns at the first failure. -/
def resumeSubmit (s : UsbRx n) (u : Fin n) (err : ℤ) : UsbRx n :=
  if err < 0 then { s.setContext u true with pm := .idle }
  else { (s.setContext u true).setHcd u .submitted with pm := .loop }

/-- The next step of `skw_usb_io_resume`. -/
def resumeStep (s : UsbRx n) (err : ℤ) : Option (UsbRx n) :=
  match s.pm with
  | .idle => none
  | .loop => some (if s.suspendUrbList = [] then { s with pm := .idle, suspend := 0 }
      else { s with pm := .take })
  | .take =>
    match s.suspendUrbList with
    | [] => some { s with pm := .took none }
    | u :: l => some { s with pm := .took (some u), suspendUrbList := l }
  | .took none => none
  | .took (some u) => some (s.resumeSubmit u err)

def step (s : UsbRx n) : UsbRxEvent n → Option (UsbRx n)
  | .setState state => some { s with state := state }
  | .kick k => if s.bulkin (.kick k) = .idle then some (s.kick k) else none
  | .bulkin c err => s.bulkinStep c err
  | .complete u status => if s.hcd u = .submitted then some (s.complete u status) else none
  | .completed u =>
    match s.hcd u with
    | .given suspended => some (s.completed u suspended)
    | _ => none
  | .tasklet =>
    if s.scheduled ∧ s.handle = .idle then some { s with scheduled := false, handle := .loop }
    else none
  | .handle rxSubmit modemOn => s.handleStep rxSubmit modemOn
  | .suspend => if s.pm = .idle then some { s with suspend := 1 } else none
  | .resume reset =>
    if s.pm = .idle then
      some { s with pm := .loop, suspend := if reset then s.suspend + 1 else s.suspend }
    else none
  | .resuming err => s.resumeStep err

/-- The port after the allocations of `usb_port_async_entry` and its test of the list. -/
def init (n : ℕ) : UsbRx n where
  state := 1
  suspend := 0
  bulkAsyncRead := 0
  rxUrbList := List.finRange n
  rxDoneUrbList := []
  suspendUrbList := []
  urb _ := ⟨false, 0⟩
  hcd _ := .idle
  bulkin c := if c = .entry ∧ 0 < n then .take else .idle
  scheduled := false
  handle := .idle
  pm := .idle

end UsbRx
end Skw
