import Skw.Kernel.Types
import Skw.Lib.Machine
import Mathlib.Logic.Function.Basic

/-! Asynchronous transmission of the USB port driver. `bulkout_write_async` and
`bulkout_write_sg_async` take a transmit URB from the list of the port, fill and submit it, and
`bulkout_async_complete` calls the transmit callback and puts it back. -/
namespace Skw

/-- What a caller wants to have sent. -/
inductive TxReq
  | buffer (buffer : Ptr) (size : ℕ)
  | sg (sgs : Ptr) (sgNum total : ℕ)
deriving DecidableEq

/-- The packets that `req_tx_packet` counts. -/
def TxReq.packets : TxReq → ℕ
  | buffer .. => 0
  | sg _ sgNum _ => sgNum

inductive TxCallback
  | sdma (buffer : Ptr) (length : ℕ) (status : ℤ)
  | adma (sg : Ptr) (numSgs : ℕ) (status : ℤ)
deriving DecidableEq

/-- The callback that a request is to lead to. -/
def TxReq.callback : TxReq → ℤ → TxCallback
  | buffer b size, status => .sdma b size status
  | sg sgs sgNum _, status => .adma sgs sgNum status

/-- The fields of `struct urb` that the completion reads. -/
structure TxUrb where
  transferBuffer : Ptr
  transferBufferLength : ℕ
  sg : Ptr
  numSgs : ℕ
deriving DecidableEq

/-- What the USB core has of a URB: `given` is set while the completion runs, after its callback.
Submissions are numbered. -/
inductive TxHcd
  | idle
  | submitted (j : ℕ)
  | given (j : ℕ)
deriving DecidableEq

/-- Where a caller stands. `holding` and `failed` are before `usb_submit_urb` and after it has
failed; there is no URB in its hand when the list it took the first entry of was empty. -/
inductive TxCaller
  | idle
  | called (r : TxReq)
  | waiting (r : TxReq)
  | woken (r : TxReq)
  | holding (r : TxReq) (urb : Option ℕ)
  | failed (urb : Option ℕ)
deriving DecidableEq

def TxCaller.hand : TxCaller → Option ℕ
  | holding _ urb | failed urb => urb
  | _ => none

/-- The first entry of the empty list is the list itself and not in a URB. -/
def TxCaller.HasNoUrb : TxCaller → Prop
  | holding _ none | failed none => True
  | _ => False

/-- A port with its URBs, those below `urbCount`. `submissions` are the requests that
`usb_submit_urb` accepted and `callbacks` what was called for each. -/
structure UsbTx where
  urbCount : ℕ
  txAsyn : Bool
  txSdma : Bool
  state : ℕ
  suspend : Bool
  sdmaTxCallback : Bool
  admaTxCallback : Bool
  txUrbList : List ℕ
  txUrbCount : ℤ
  sentPacketCount : ℕ
  reqTxPacket : ℕ
  urb : ℕ → TxUrb
  hcd : ℕ → TxHcd
  caller : ℕ → TxCaller
  submissions : List TxReq
  callbacks : ℕ → List TxCallback

/-- `wake` ends the wait of a caller, `interrupted` by a signal or because the list is not empty.
`submit` fails with a negative `err`. -/
inductive UsbTxEvent
  | call (k : ℕ) (r : TxReq)
  | lock (k : ℕ)
  | wake (k : ℕ) (interrupted : Bool)
  | relock (k : ℕ)
  | submit (k : ℕ) (err : ℤ)
  | putBack (k : ℕ)
  | giveBack (u : ℕ) (status : ℤ)
  | completed (u : ℕ)
  | setState (state : ℕ)
  | setSuspend (suspend : Bool)
  | registerTxCallback (func : Bool)
deriving DecidableEq

namespace UsbTx

def setCaller (s : UsbTx) (k : ℕ) (c : TxCaller) : UsbTx :=
  { s with caller := Function.update s.caller k c }

/-- `bulkout_write_async` tests `suspend`, `bulkout_write_sg_async` does not. -/
def call (s : UsbTx) (k : ℕ) (r : TxReq) : UsbTx :=
  match r with
  | .buffer .. => if s.suspend then s else s.setCaller k (.called r)
  | .sg .. => s.setCaller k (.called r)

/-- `list_del_init` of the first entry, with the counters. -/
def take (s : UsbTx) (k : ℕ) (r : TxReq) (urb : Option ℕ) (l : List ℕ) : UsbTx :=
  { s.setCaller k (.holding r urb) with
    txUrbList := l
    txUrbCount := s.txUrbCount + 1
    reqTxPacket := s.reqTxPacket + r.packets }

/-- The section from the test of `state` on. -/
def takeFirst (s : UsbTx) (k : ℕ) (r : TxReq) : UsbTx :=
  if s.state = 0 then s.setCaller k .idle
  else
    match s.txUrbList with
    | [] => s.take k r none []
    | u :: l => s.take k r (some u) l

/-- The first section: the caller waits without the lock if the list is empty. -/
def lock (s : UsbTx) (k : ℕ) (r : TxReq) : UsbTx :=
  if s.txUrbList = [] then s.setCaller k (.waiting r) else s.takeFirst k r

/-- `usb_fill_bulk_urb` does not write `sg` and `num_sgs`, which `bulkout_write_sg_async` sets
itself. -/
def fill (urb : TxUrb) : TxReq → TxUrb
  | .buffer b size => { urb with transferBuffer := b, transferBufferLength := size }
  | .sg sgs sgNum total => ⟨0, total, sgs, sgNum⟩

def submit (s : UsbTx) (k : ℕ) (r : TxReq) (u : ℕ) : UsbTx :=
  { s.setCaller k .idle with
    urb := Function.update s.urb u (fill (s.urb u) r)
    hcd := Function.update s.hcd u (.submitted s.submissions.length)
    submissions := s.submissions ++ [r] }

/-- A URB that is filled, but not taken by the core. -/
def fail (s : UsbTx) (k : ℕ) (r : TxReq) (u : ℕ) : UsbTx :=
  { s.setCaller k (.failed (some u)) with urb := Function.update s.urb u (fill (s.urb u) r) }

def submitStep (s : UsbTx) (k : ℕ) (err : ℤ) : Option UsbTx :=
  match s.caller k with
  | .holding r (some u) => some (if err < 0 then s.fail k r u else s.submit k r u)
  -- what is no URB is not accepted
  | .holding _ none => if err < 0 then some (s.setCaller k (.failed none)) else none
  | _ => none

/-- The section after a failed submission; putting back what is no URB leaves the list as it is. -/
def putBack (s : UsbTx) (k : ℕ) (urb : Option ℕ) : UsbTx :=
  { s.setCaller k .idle with
    txUrbCount := s.txUrbCount - 1
    txUrbList := s.txUrbList ++ urb.toList }

/-- The callback that `bulkout_async_complete` calls, if any. -/
def callbackOf (s : UsbTx) (urb : TxUrb) (status : ℤ) : Option TxCallback :=
  if urb.sg ≠ 0 ∧ s.admaTxCallback then some (.adma urb.sg urb.numSgs status)
  else if urb.transferBuffer ≠ 0 ∧ s.sdmaTxCallback then
    some (.sdma urb.transferBuffer urb.transferBufferLength status)
  else none

/-- The packets that the completion counts as sent. -/
def sentPackets (s : UsbTx) (urb : TxUrb) (status : ℤ) : ℕ :=
  if status ≠ 0 ∨ urb.sg ≠ 0 ∧ s.admaTxCallback then urb.numSgs else 0

/-- `bulkout_async_complete` before its section. -/
def giveBack (s : UsbTx) (u j : ℕ) (status : ℤ) : UsbTx :=
  { s with
    hcd := Function.update s.hcd u (.given j)
    sentPacketCount := s.sentPacketCount + s.sentPackets (s.urb u) status
    callbacks := Function.update s.callbacks j
      (s.callbacks j ++ (s.callbackOf (s.urb u) status).toList) }

/-- The section of `bulkout_async_complete`. -/
def completed (s : UsbTx) (u : ℕ) : UsbTx :=
  { s with
    hcd := Function.update s.hcd u .idle
    txUrbList := s.txUrbList ++ [u]
    txUrbCount := s.txUrbCount - 1 }

/-- The bus type says which of the two callbacks is set. -/
def registerTxCallback (s : UsbTx) (func : Bool) : UsbTx :=
  if s.txAsyn then
    if s.txSdma then { s with sdmaTxCallback := func } else { s with admaTxCallback := func }
  else s

def step (s : UsbTx) : UsbTxEvent → Option UsbTx
  | .call k r => if s.caller k = .idle then some (s.call k r) else none
  | .lock k =>
    match s.caller k with
    | .called r => some (s.lock k r)
    | _ => none
  | .wake k interrupted =>
    match s.caller k with
    | .waiting r => if interrupted ∨ s.txUrbList ≠ [] then some (s.setCaller k (.woken r)) else none
    | _ => none
  | .relock k =>
    match s.caller k with
    | .woken r => some (s.takeFirst k r)
    | _ => none
  | .submit k err => s.submitStep k err
  | .putBack k =>
    match s.caller k with
    | .failed urb => some (s.putBack k urb)
    | _ => none
  | .giveBack u status =>
    match s.hcd u with
    | .submitted j => some (s.giveBack u j status)
    | _ => none
  | .completed u =>
    match s.hcd u with
    | .given _ => some (s.completed u)
    | _ => none
  | .setState state => some { s with state := state }
  | .setSuspend suspend => some { s with suspend := suspend }
  | .registerTxCallback func => some (s.registerTxCallback func)

/-- A port with its URBs allocated, before any callback is registered. -/
def init (urbCount : ℕ) (txAsyn txSdma : Bool) : UsbTx where
  urbCount := urbCount
  txAsyn := txAsyn
  txSdma := txSdma
  state := 1
  suspend := false
  sdmaTxCallback := false
  admaTxCallback := false
  txUrbList := List.range urbCount
  txUrbCount := 0
  sentPacketCount := 0
  reqTxPacket := 0
  urb _ := ⟨0, 0, 0, 0⟩
  hcd _ := .idle
  caller _ := .idle
  submissions := []
  callbacks _ := []

end UsbTx
end Skw
