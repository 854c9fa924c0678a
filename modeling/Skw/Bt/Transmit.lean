import Skw.Kernel.Types
import Skw.Lib.Machine
import Mathlib.Logic.Function.Basic

/-! The transmit queues of the Bluetooth driver. Callers queue frames, one work item sends them and
puts a frame back that could not be sent, and `btseekwave_flush` frees what is in the queues. -/
namespace Skw

/-- `cmd_txq`, `data_txq` and `audio_txq`. -/
inductive TxQueue
  | cmd
  | data
  | audio
deriving DecidableEq

/-- The queue that the work and the flush go on with. -/
def TxQueue.next : TxQueue → Option TxQueue
  | cmd => some data
  | data => some audio
  | audio => none

/-- How many queues come before. -/
def TxQueue.idx : TxQueue → ℕ
  | cmd => 0
  | data => 1
  | audio => 2

abbrev HCI_COMMAND_PKT : ℕ := 1
abbrev HCI_ACLDATA_PKT : ℕ := 2
abbrev HCI_SCODATA_PKT : ℕ := 3

/-- The fields of `sv6160_platform_data` that choose a queue. -/
structure BtPlatform where
  dataPort : ℕ
  audioPort : ℕ
deriving DecidableEq

/-- Where `btseekwave_work` stands: it has a frame in hand while `hw_sdma_tx` runs, and afterwards
until it has put it back. -/
inductive BtWork
  | idle
  | start
  | run (q : TxQueue)
  | sending (q : TxQueue) (f : ℕ)
  | failed (q : TxQueue) (f : ℕ)
deriving DecidableEq

def BtWork.hand : BtWork → Option (TxQueue × ℕ)
  | sending q f | failed q f => some (q, f)
  | _ => none

/-- Where a `btseekwave_flush` call stands, with the number of frames accepted before it;
`notified` is the notifier just before its call. -/
inductive BtFlush
  | idle
  | notified
  | entered (n : ℕ)
  | cancel (n : ℕ)
  | waiting (n : ℕ)
  | purge (n : ℕ) (q : TxQueue)
deriving DecidableEq

/-- A frame that was sent, with the number of frames accepted before a flush that had returned. -/
structure BtSent where
  txq : TxQueue
  frame : ℕ
  flushed : ℕ
deriving DecidableEq

/-- Frames are numbered as they are accepted. `scheduling` counts the callers between
`skb_queue_tail` and `schedule_work`; `pending` is the bit of the work item, and `canceling` says
that a `cancel_work_sync` call holds it. -/
structure BtTx where
  pdata : Option BtPlatform
  txq : TxQueue → List ℕ
  accepted : ℕ
  cmdReject : Bool
  scheduling : ℕ
  pending : Bool
  canceling : Bool
  work : BtWork
  flush : ℕ → BtFlush
  sent : List BtSent
  purged : List ℕ
  flushed : ℕ

/-- `work` is the next step of the work item, with what `hw_sdma_tx` returns there, and `flushing`
that of a flush. -/
inductive BtEvent
  | sendFrame (pktType : ℕ)
  | scheduleWork
  | startWork
  | work (err : ℤ)
  | callFlush (k : ℕ)
  | flushing (k : ℕ)
  | assertEvent
  | bspreadyEvent (k : ℕ)
deriving DecidableEq

namespace BtTx

/-- The queue of a packet type, `none` for the types that are refused. -/
def txqOf (pdata : Option BtPlatform) (pktType : ℕ) : Option TxQueue :=
  match pdata with
  | none => none
  | some d =>
    if pktType = HCI_COMMAND_PKT ∨ pktType = HCI_ACLDATA_PKT ∧ d.dataPort = 0 ∨
        pktType = HCI_SCODATA_PKT ∧ d.audioPort = 0 then some .cmd
    else if pktType = HCI_ACLDATA_PKT then some .data
    else if pktType = HCI_SCODATA_PKT then some .audio
    else none

def setTxq (s : BtTx) (q : TxQueue) (l : List ℕ) : BtTx :=
  { s with txq := Function.update s.txq q l }

def setFlush (s : BtTx) (k : ℕ) (pc : BtFlush) : BtTx :=
  { s with flush := Function.update s.flush k pc }

/-- `skb_queue_tail` of `btseekwave_send_frame`. -/
def accept (s : BtTx) (q : TxQueue) : BtTx :=
  { s.setTxq q (s.txq q ++ [s.accepted]) with
    accepted := s.accepted + 1
    scheduling := s.scheduling + 1 }

def sendFrame (s : BtTx) (pktType : ℕ) : BtTx :=
  match txqOf s.pdata pktType with
  | none => s
  | some q => s.accept q

/-- `schedule_work` does nothing while the bit is set, by itself or by a cancel. -/
def scheduleWork (s : BtTx) : BtTx :=
  { s with scheduling := s.scheduling - 1, pending := s.pending || !s.canceling }

/-- `skb_dequeue` of the work for the first frame of a queue. -/
def take (s : BtTx) (q : TxQueue) (f : ℕ) (l : List ℕ) : BtTx :=
  { s.setTxq q l with work := .sending q f }

def sentDone (s : BtTx) (q : TxQueue) (f : ℕ) : BtTx :=
  { s with work := .run q, sent := s.sent ++ [⟨q, f, s.flushed⟩] }

/-- `skb_queue_head`, after which the work ends. -/
def putBack (s : BtTx) (q : TxQueue) (f : ℕ) : BtTx :=
  { s.setTxq q (f :: s.txq q) with work := .idle }

/-- The next step of `btseekwave_work`. -/
def workStep (s : BtTx) (err : ℤ) : Option BtTx :=
  match s.work with
  | .idle => none
  | .start => some { s with work := if s.cmdReject then .idle else .run .cmd }
  | .run q =>
    match s.txq q with
    | [] => some { s with work := q.next.elim .idle .run }
    | f :: l => some (s.take q f l)
  | .sending q f => some (if err < 0 then { s with work := .failed q f } else s.sentDone q f)
  | .failed q f => some (s.putBack q f)

/-- `skb_dequeue` and `kfree_skb` of `skb_queue_purge`. -/
def purgeOne (s : BtTx) (q : TxQueue) (f : ℕ) (l : List ℕ) : BtTx :=
  { s.setTxq q l with purged := s.purged ++ [f] }

def flushDone (s : BtTx) (k n : ℕ) : BtTx :=
  { s.setFlush k .idle with flushed := max s.flushed n }

/-- The next step of `btseekwave_flush`. -/
def flushStep (s : BtTx) (k : ℕ) : Option BtTx :=
  match s.flush k with
  | .idle => none
  | .notified => some (s.setFlush k (.entered s.accepted))
  | .entered n => some (s.setFlush k (if s.pending then .cancel n else .purge n .cmd))
  | .cancel n =>
    if s.canceling then none
    else some { s.setFlush k (.waiting n) with pending := false, canceling := true }
  | .waiting n =>
    if s.work = .idle then some { s.setFlush k (.purge n .cmd) with canceling := false } else none
  | .purge n q =>
    match s.txq q with
    | f :: l => some (s.purgeOne q f l)
    | [] =>
      match q.next with
      | some q' => some (s.setFlush k (.purge n q'))
      | none => some (s.flushDone k n)

def step (s : BtTx) : BtEvent → Option BtTx
  | .sendFrame pktType => some (s.sendFrame pktType)
  | .scheduleWork => if 0 < s.scheduling then some s.scheduleWork else none
  | .startWork =>
    if s.work = .idle ∧ s.pending then some { s with work := .start, pending := false } else none
  | .work err => s.workStep err
  | .callFlush k =>
    if s.flush k = .idle then some (s.setFlush k (.entered s.accepted)) else none
  | .flushing k => s.flushStep k
  | .assertEvent => some { s with cmdReject := true }
  | .bspreadyEvent k =>
    if s.flush k = .idle then
      some (if s.cmdReject then { s.setFlush k .notified with cmdReject := false } else s)
    else none

/-- The driver after its probe. -/
def init (pdata : Option BtPlatform) : BtTx :=
  ⟨pdata, fun _ => [], 0, false, 0, false, false, .idle, fun _ => .idle, [], [], 0⟩

/-- The frames of a queue that were sent, in this order. -/
def sentOf (s : BtTx) (q : TxQueue) : List ℕ :=
  (s.sent.filter fun t => t.txq = q).map fun t => t.frame

/-- The frame of a queue that the work has in hand. -/
def handOf (s : BtTx) (q : TxQueue) : List ℕ :=
  match s.work.hand with
  | some (q', f) => if q' = q then [f] else []
  | none => []

/-- What may still be sent of a queue. -/
def rest (s : BtTx) (q : TxQueue) : List ℕ := s.handOf q ++ s.txq q

/-- How often a frame is among those sent of a queue, in its part of the hand and in the queue. -/
def placesOf (s : BtTx) (f : ℕ) (q : TxQueue) : ℕ := (s.sentOf q).count f + (s.rest q).count f

/-- The same over all queues, with the frames freed by a flush. -/
def copies (s : BtTx) (f : ℕ) : ℕ :=
  s.placesOf f .cmd + s.placesOf f .data + s.placesOf f .audio + s.purged.count f

end BtTx
end Skw
