import Skw.Kernel.Types
import Mathlib.Logic.Function.Basic

/-! Receive reordering of one block-ack session: the buffer of `skw_tid_rx`, its release and the
timer that forces it. `pos` counts the start of the window without wrapping, and each released
frame is logged with it. -/
namespace Skw

abbrev IEEE80211_SN_MODULO : ℕ := 4096

def ieee80211SnLess (sn1 sn2 : ℕ) : Bool := ((sn1 : ℤ) - sn2) % 4096 > 2048

def ieee80211SnInc (sn : ℕ) : ℕ := (sn + 1) % IEEE80211_SN_MODULO

def ieee80211SnSub (sn1 sn2 : ℕ) : ℕ := (((sn1 : ℤ) - sn2) % 4096).toNat

/-- The conversion to `u16` of an argument. -/
def u16 (n : ℕ) : ℕ := n % 65536

/-- `SKW_RX_FILTER_EXCL`: EAP, WAPI, ARP, DHCP and DHCPv6. -/
def SKW_RX_FILTER_EXCL : List ℕ := [5, 4, 2, 11, 12]

/-- The bits of `skw_rx_desc` that reordering reads. -/
structure RxDesc where
  sn : Fin 4096
  msduFilter : Fin 256
  fragNum : Fin 16
  amsduIdx : Fin 64
  isAmsdu : Bool
  isQosData : Bool
  isMcAddr : Bool
  moreFrag : Bool
  amsduFirstIdx : Bool
  amsduLastIdx : Bool
deriving DecidableEq

def RxDesc.exclFilter (d : RxDesc) : Bool := d.msduFilter.val % 32 ∈ SKW_RX_FILTER_EXCL

/-- `skw_skb_rxcb`, with the two bits of `amsdu_flags`. -/
structure SkbRxcb where
  rxTime : Jiffies
  amsduBitmap : BitVec 8
  amsduMask : BitVec 8
  taint : Bool
  valid : Bool
  skipReplayDetect : Bool
deriving DecidableEq

/-- A received MSDU with the Ethernet header at the start of its data. -/
structure Skb where
  desc : RxDesc
  cb : SkbRxcb
  hDest : BitVec 48
  hProto : ℕ
  len : ℕ
deriving DecidableEq

def Skb.sn (skb : Skb) : ℕ := skb.desc.sn

/-- The first six octets are those of a SNAP header. -/
def Skb.isSnapHdr (skb : Skb) : Bool := skb.hDest = 0xAAAA03000000

structure TidRx where
  winStart : ℕ
  winSize : ℕ
  storedNum : BitVec 32
  refCnt : ℤ
  reorderBuf : ℕ → List Skb

inductive ReleaseReason
  | invalid
  | expired
  | oob
  | bar
  | free
deriving DecidableEq

structure RxTimer where
  sn : ℕ
  refCnt : ℤ
deriving DecidableEq

/-- `linked` says that the node is in the todo list. -/
structure RxTodo where
  linked : Bool
  seq : ℕ
  reason : ReleaseReason
  actived : Bool
deriving DecidableEq

/-- `timer` is the expiry time of a pending timer. -/
structure ReorderRx where
  refCnt : ℤ
  timer : Option Jiffies
  expired : RxTimer
  todo : RxTodo
deriving DecidableEq

structure Peer where
  rxFilter : BitVec 32
  rxBytes : BitVec 64
  rxPkts : BitVec 64
deriving DecidableEq

structure Released where
  pos : ℕ
  skb : Skb
deriving DecidableEq

/-- One session with its peer and the clock; `live` says that `reorder->tid_rx` is set and
`reorderTimeout` is the configured one in jiffies. -/
structure Rx where
  now : Jiffies
  reorderTimeout : Jiffies
  reorderFlag : Bool
  peer : Option Peer
  reorder : ReorderRx
  live : Bool
  tid : TidRx
  pos : ℕ
  released : List Released
  freed : List Skb

namespace Rx

def timerPending (x : Rx) : Bool := x.reorder.timer.isSome

def delTimer (x : Rx) : Rx := { x with reorder := { x.reorder with timer := none } }

def delTimerIf (x : Rx) (c : Bool) : Rx := if c then x.delTimer else x

def setWinStart (x : Rx) (w : ℕ) : Rx :=
  { x with
    tid := { x.tid with winStart := w }
    pos := x.pos + ieee80211SnSub w x.tid.winStart }

def setStoredNum (x : Rx) (n : BitVec 32) : Rx := { x with tid := { x.tid with storedNum := n } }

def setSlot (x : Rx) (i : ℕ) (l : List Skb) : Rx :=
  { x with tid := { x.tid with reorderBuf := Function.update x.tid.reorderBuf i l } }

/-- `__skb_queue_tail(release_list, skb)` for each of a list. -/
def release (x : Rx) (l : List Skb) : Rx :=
  { x with released := x.released ++ l.map fun skb => ⟨x.pos, skb⟩ }

def free (x : Rx) (l : List Skb) : Rx := { x with freed := x.freed ++ l }

/-- The whole of a slot goes to the release list. -/
def releaseSlot (x : Rx) (i : ℕ) : Rx := (x.release (x.tid.reorderBuf i)).setSlot i []

/-- `__skb_queue_purge` of a slot. -/
def purgeSlot (x : Rx) (i : ℕ) : Rx := (x.free (x.tid.reorderBuf i)).setSlot i []

/-- `skw_list_add` and `skw_wakeup_rx` for the session's node. -/
def linkTodo (x : Rx) (seq : ℕ) (reason : ReleaseReason) : Rx :=
  { x with reorder := { x.reorder with todo := ⟨true, seq, reason, true⟩ } }

def setReorderTimer (x : Rx) (sn : ℕ) : Rx :=
  if x.timerPending || x.reorder.refCnt != x.tid.refCnt then x
  else
    match x.tid.reorderBuf (sn % x.tid.winSize) with
    | [] => x
    | skb :: _ =>
      let timeout := skb.cb.rxTime + x.reorderTimeout
      if timeBefore x.now timeout then
        { x with reorder := { x.reorder with timer := some timeout, expired := ⟨sn, x.tid.refCnt⟩ } }
      else if x.reorder.todo.actived then x
      else x.linkTodo sn .expired

def isReleaseReady : List Skb → Bool
  | [] => false
  | skb :: _ => !(skb.cb.valid && skb.cb.amsduBitmap != skb.cb.amsduMask)

def isMsduTimeout (x : Rx) : List Skb → Bool
  | [] => false
  | skb :: _ => timeAfter x.now (skb.cb.rxTime + x.reorderTimeout)

/-- What the loop of `skw_reorder_force_release` does with the slot at the start of the window. -/
def forceSlot (x : Rx) : Rx :=
  let i := x.tid.winStart % x.tid.winSize
  let y :=
    match x.tid.reorderBuf i with
    | [] => x
    | skb :: _ =>
      (if skb.cb.taint then x.purgeSlot i else x.releaseSlot i).setStoredNum (x.tid.storedNum - 1)
  y.setWinStart (ieee80211SnInc y.tid.winStart)

/-- The loop of `skw_reorder_force_release` cut off after `fuel` rounds. -/
def forceLoop (toSn target : ℕ) : ℕ → Rx → Rx
  | 0, x => x
  | fuel + 1, x =>
    if ieee80211SnLess x.tid.winStart target then
      if x.tid.storedNum = 0 then x.setWinStart toSn
      else forceLoop toSn target fuel x.forceSlot
    else x

/-- Less than half the sequence numbers are before the target. -/
def forceRelease (x : Rx) (toSn : ℕ) : Rx :=
  let y := x.delTimerIf (x.timerPending && x.reorder.refCnt == x.tid.refCnt &&
    (ieee80211SnLess x.reorder.expired.sn toSn || ieee80211SnLess toSn x.tid.winStart))
  forceLoop toSn (ieee80211SnInc toSn) 2048 y

/-- The loop of `skw_reorder_release` from round `i` on, with `n` rounds left. -/
def releaseLoop (winStart : ℕ) : ℕ → ℕ → Bool → Rx → Rx
  | 0, _, _, x => x
  | n + 1, i, release, x =>
    if x.tid.storedNum = 0 then x.delTimer
    else
      let index := (winStart + i) % x.tid.winSize
      match x.tid.reorderBuf index with
      | [] => if x.timerPending then x else releaseLoop winStart n (i + 1) false x
      | skb :: l =>
        if !release then
          if !x.isMsduTimeout (skb :: l) then x.setReorderTimer (u16 (winStart + i))
          else releaseLoop winStart n (i + 1) true (x.forceRelease (u16 (winStart + i)))
        else
          let y := x.delTimerIf (x.timerPending && x.reorder.expired.sn == x.tid.winStart)
          if skb.cb.taint then releaseLoop winStart n (i + 1) false (y.purgeSlot index)
          else if isReleaseReady (skb :: l) || y.isMsduTimeout (skb :: l) then
            let z := (y.releaseSlot index).setWinStart (ieee80211SnInc y.tid.winStart)
            releaseLoop winStart n (i + 1) true (z.setStoredNum (z.tid.storedNum - 1))
          else if y.timerPending then y
          else y.setReorderTimer (u16 (winStart + i))

def reorderRelease (x : Rx) : Rx :=
  if x.live then releaseLoop x.tid.winStart x.tid.winSize 0 true x else x

/-- `skw_ampdu_reorder` from `out` on; `sn` is that of a frame which is still there. -/
def out (x : Rx) (release : Bool) (sn : Option ℕ) : Rx :=
  if x.tid.storedNum ≠ 0 then
    if release then x.reorderRelease
    else
      match sn with
      | some sn => x.setReorderTimer sn
      | none => x
  else x.delTimer

/-- What `skw_ampdu_reorder` does with a frame that is in its slot alone or complete. -/
def inSlot (x : Rx) (release : Bool) (skb : Skb) : Rx :=
  let i := skb.sn % x.tid.winSize
  if skb.sn = x.tid.winStart then
    let y := x.releaseSlot i
    let z := y.delTimerIf (y.timerPending && y.reorder.expired.sn == y.tid.winStart)
    (z.setWinStart (ieee80211SnInc z.tid.winStart)).out true (some skb.sn)
  else (x.setStoredNum (x.tid.storedNum + 1)).out release (some skb.sn)

/-- The control block at the head of a slot after a subframe is queued there. -/
def markAmsdu (skb : Skb) (cb : SkbRxcb) : SkbRxcb :=
  let bit : BitVec 64 := 1 <<< skb.desc.amsduIdx.val
  let cb := { cb with amsduBitmap := cb.amsduBitmap ||| bit.setWidth 8, valid := true }
  let cb := if skb.desc.amsduFirstIdx && skb.isSnapHdr then { cb with taint := true } else cb
  if skb.desc.amsduLastIdx then
    { cb with
      amsduMask := (((1 : BitVec 64) <<< (skb.desc.amsduIdx.val + 1)) - 1).setWidth 8
      amsduBitmap := cb.amsduBitmap ||| 1 }
  else cb

/-- The branch of `skw_ampdu_reorder` for a subframe of an A-MSDU. -/
def amsduInSlot (x : Rx) (release : Bool) (skb : Skb) : Rx :=
  let i := skb.sn % x.tid.winSize
  let l := x.tid.reorderBuf i
  let x := if l.isEmpty then x.setStoredNum (x.tid.storedNum + 1) else x
  let head := (l.head?.getD skb)
  if head.cb.amsduBitmap.getLsbD skb.desc.amsduIdx then (x.free [skb]).out release none
  else
    let cb := markAmsdu skb head.cb
    let y := x.setSlot i ((l ++ [skb]).modifyHead fun head => { head with cb := cb })
    if cb.amsduBitmap ≠ cb.amsduMask then y.out release (some skb.sn)
    else
      let y := y.setStoredNum (y.tid.storedNum - 1)
      if cb.taint then
        let z := y.purgeSlot i
        (z.setWinStart (ieee80211SnInc z.tid.winStart)).out release none
      else y.inSlot release skb

/-- `skw_ampdu_reorder` for a frame of the session. -/
def tidReorder (x : Rx) (skb : Skb) : Rx :=
  if ieee80211SnLess skb.sn x.tid.winStart then
    if skb.desc.exclFilter then
      x.release [{ skb with cb := { skb.cb with skipReplayDetect := true } }]
    else (x.free [skb]).out false none
  else
    let release := !ieee80211SnLess skb.sn (u16 (x.tid.winStart + x.tid.winSize))
    let y := if release then x.forceRelease (ieee80211SnSub skb.sn x.tid.winSize) else x
    if skb.desc.isAmsdu then y.amsduInSlot release skb
    else
      let i := skb.sn % y.tid.winSize
      if (y.tid.reorderBuf i).isEmpty then (y.setSlot i [skb]).inSlot release skb
      else (y.free [skb]).out release none

/-- The frame is not one of those that pass the receive filter of the peer. -/
def filtered (p : Peer) (skb : Skb) : Bool :=
  p.rxFilter != 0 && !p.rxFilter.getLsbD (skb.desc.msduFilter.val % 32) &&
    !(skb.hProto == ETH_P_PAE || skb.hProto == SKW_ETH_P_WAPI)

/-- With this `rx_reorder_flag` and this peer `skw_ampdu_reorder` gets to `peer->reorder[desc->tid]`
with the frame. -/
def reachesReorder (flag : Bool) (peer : Option Peer) (skb : Skb) : Bool :=
  flag && peer.any fun p => !filtered p skb && skb.desc.isQosData && !skb.desc.isMcAddr &&
    !skb.desc.moreFrag && skb.desc.fragNum == 0

def ampduReorder (x : Rx) (skb : Skb) : Rx :=
  if !x.reorderFlag then x.release [skb]
  else
    match x.peer with
    | none => x.release [skb]
    | some p =>
      if filtered p skb then x.free [skb]
      else
        let p := { p with rxBytes := p.rxBytes + skb.len, rxPkts := p.rxPkts + 1 }
        let x := { x with peer := some p }
        if !skb.desc.isQosData || skb.desc.isMcAddr then x.release [skb]
        else if skb.desc.moreFrag || skb.desc.fragNum != 0 then x.release [skb]
        else if !x.live then x.release [skb]
        else x.tidReorder skb

/-- `skw_reorder_timeout`. -/
def reorderTimeoutFn (x : Rx) : Rx :=
  if x.reorder.refCnt ≠ x.reorder.expired.refCnt then x
  else if x.reorder.todo.actived then x
  else x.linkTodo x.reorder.expired.sn .expired

/-- `skw_rx_todo` for the session's node. -/
def rxTodo (x : Rx) : Rx :=
  let y := { x with reorder := { x.reorder with todo := { x.reorder.todo with linked := false } } }
  let y := if y.live then y.forceRelease y.reorder.todo.seq else y
  reorderRelease
    { y with reorder := { y.reorder with todo := { y.reorder.todo with actived := false } } }

end Rx

/-- A new `tid_rx` of `skw_add_tid_rx`; the allocations succeed. -/
def newTidRx (r : ReorderRx) (ssn bufSize : Fin 65536) : TidRx where
  winStart := ssn
  winSize := u16 ((if bufSize.val > 64 then bufSize.val else 64) <<< 1)
  storedNum := 0
  refCnt := r.refCnt
  reorderBuf _ := []

/-- The session that `skw_add_tid_rx` leaves for a peer that had none. -/
def addTidRx (now reorderTimeout : Jiffies) (p : Peer) (r : ReorderRx)
    (ssn bufSize : Fin 65536) : Rx where
  now := now
  reorderTimeout := reorderTimeout
  reorderFlag := true
  peer := some p
  reorder := { r with todo := { r.todo with seq := 0, actived := false, reason := .invalid } }
  live := true
  tid := newTidRx r ssn bufSize
  pos := ssn
  released := []
  freed := []

/-- What happens to a session until it is deleted. -/
inductive RxEvent
  | frame (skb : Skb)
  | timeout
  | todo
  | tick (n : Jiffies)

namespace Rx

/-- A frame reaches `skw_ampdu_reorder` with the time of its reception and no flags. -/
def fresh (x : Rx) (skb : Skb) : Skb := { skb with cb := ⟨x.now, 0, 0, false, false, false⟩ }

def step (x : Rx) : RxEvent → Option Rx
  | .frame skb => some (x.ampduReorder (x.fresh skb))
  | .timeout =>
    match x.reorder.timer with
    | some e => if timeBefore x.now e then none else some x.delTimer.reorderTimeoutFn
    | none => none
  | .todo => if x.reorder.todo.linked then some x.rxTodo else none
  | .tick n => some { x with now := x.now + n }

end Rx

end Skw
