import Skw.Kernel.Types
import Skw.Lib.Marks
import Mathlib.Data.List.FinRange

/-! `skw_channel_allowed` counts the channels in use before another one is used. It counts numbers
in one bitmap for all bands, and looks at the peers of whichever interface the first loop ended
with. -/
namespace Skw

structure Chan where
  band : Band
  hwValue : ℕ
deriving DecidableEq

/-- `sapChannel` is `sap.cfg.channel` and `bssChannel` is `sta.core.bss.channel`. -/
structure ChanIface where
  iftype : Iftype
  lmacId : Fin SKW_MAX_LMAC_SUPPORT
  sapChannel : Option Chan
  bssChannel : Option Chan
  activedCtx : ℤ

/-- Of the channel the driver keeps the number, 0 for none. -/
structure ChanPeer where
  iface : Option IfaceId
  channel : Chan

structure ChanSys where
  iface : IfaceId → Option ChanIface
  peer : Fin SKW_MAX_LMAC_SUPPORT → Fin SKW_MAX_PEER_SUPPORT → Option ChanPeer

abbrev BITS_PER_LONG : ℕ := 64

/-- The bits of `channel_map`. -/
abbrev channelBits : ℕ := (164 + BITS_PER_LONG) / BITS_PER_LONG * BITS_PER_LONG

namespace ChanIface

/-- The channel of an interface, by its type. -/
def chan (f : ChanIface) : Option Chan :=
  match f.iftype with
  | .ap | .p2pGo => f.sapChannel
  | .station | .p2pClient => f.bssChannel
  | _ => none

/-- A station with more than one active context. -/
def multi (f : ChanIface) : Bool := f.iftype = .station && 1 < f.activedCtx

end ChanIface

/-- The channel of a peer, if it has one. -/
def ChanPeer.chan (p : ChanPeer) : Option Chan :=
  if p.channel.hwValue ≠ 0 then some p.channel else none

/-- The variables of `skw_channel_allowed` in its first loop. -/
structure ChanLoop where
  map : Lib.Marks channelBits
  extraChn : Bool
  iface : Option ChanIface

/-- One slot of `vif.iface`. -/
def ChanLoop.slot (l : ChanLoop) : Option ChanIface → ChanLoop
  | none => { l with iface := none }
  | some f =>
    { map :=
        match f.chan with
        | some c => l.map.mark c.hwValue
        | none => l.map
      extraChn := l.extraChn || f.multi
      iface := some f }

namespace ChanSys

def firstLoop (w : ChanSys) : ChanLoop :=
  ((List.finRange SKW_NR_IFACE).map w.iface).foldl ChanLoop.slot ⟨.empty, false, none⟩

/-- The second loop, over the contexts of one lmac. -/
def peerLoop (w : ChanSys) (map : Lib.Marks channelBits) (lmacId : Fin SKW_MAX_LMAC_SUPPORT) :
    Lib.Marks channelBits :=
  (List.finRange SKW_MAX_PEER_SUPPORT).foldl
    (fun map i =>
      match (w.peer lmacId i).bind ChanPeer.chan with
      | some c => map.mark c.hwValue
      | none => map) map

/-- The bitmap and `nr_channel` when the combinations are checked; without a value when `iface` is
NULL in the second loop. -/
def scan (w : ChanSys) (channel : ℕ) : Option (Lib.Marks channelBits) :=
  let l := w.firstLoop
  let map :=
    if l.extraChn then l.iface.map fun f => w.peerLoop l.map f.lmacId else some l.map
  map.map fun map => map.test channel

def channelAllowed (w : ChanSys) (checkCombs : ℕ → ℤ) (channel : ℕ) : Option Bool :=
  (w.scan channel).map fun map => checkCombs map.count = 0

/-- The channels of the interfaces. -/
def ifaceChannels (w : ChanSys) : List Chan :=
  (List.finRange SKW_NR_IFACE).filterMap fun n => (w.iface n).bind ChanIface.chan

def lmacChannels (w : ChanSys) (lmacId : Fin SKW_MAX_LMAC_SUPPORT) : List Chan :=
  (List.finRange SKW_MAX_PEER_SUPPORT).filterMap fun i => (w.peer lmacId i).bind ChanPeer.chan

/-- Some station has more than one active context. -/
def extraChn (w : ChanSys) : Bool :=
  (List.finRange SKW_NR_IFACE).any fun n => (w.iface n).any ChanIface.multi

/-- The peer is one of a station with more than one active context. -/
def ofMulti (w : ChanSys) (p : ChanPeer) : Bool :=
  p.iface.any fun n => (w.iface n).any ChanIface.multi

/-- The channels of the peers of such stations. -/
def multiChannels (w : ChanSys) : List Chan :=
  (List.finRange SKW_MAX_LMAC_SUPPORT).flatMap fun l =>
    (List.finRange SKW_MAX_PEER_SUPPORT).filterMap fun i =>
      (w.peer l i).bind fun p => if w.ofMulti p then p.chan else none

/-- The channels of the peers that the second loop meets. -/
def scannedChannels (w : ChanSys) : List Chan :=
  if w.extraChn then
    match w.iface (Fin.last 3) with
    | some f => w.lmacChannels f.lmacId
    | none => []
  else []

/-- The channels in use, with the requested one. -/
def inUse (w : ChanSys) (req : Chan) : Finset Chan :=
  insert req (w.ifaceChannels ++ w.multiChannels).toFinset

/-- The channels that are counted, with the requested one. -/
def counted (w : ChanSys) (req : Chan) : Finset Chan :=
  insert req (w.ifaceChannels ++ w.scannedChannels).toFinset

end ChanSys

/-- The channels of a set that have the number of another one. -/
def sharedNumbers (s : Finset Chan) : ℕ := s.card - (s.image Chan.hwValue).card

theorem ChanLoop.foldl_slot (xs : List (Option ChanIface)) (l : ChanLoop) :
    xs.foldl slot l =
      { map := l.map.markAll ((xs.filterMap fun x => x.bind ChanIface.chan).map Chan.hwValue)
        extraChn := l.extraChn || xs.any fun x => x.any ChanIface.multi
        iface := xs.getLastD l.iface } := by
  induction xs generalizing l with
  | nil => simp [Lib.Marks.markAll]
  | cons x xs ih =>
    rw [List.foldl_cons, ih]
    cases x with
    | none => simp [slot, List.getLast?_cons]
    | some f =>
      cases hc : f.chan <;>
        simp [slot, hc, Lib.Marks.markAll, List.getLast?_cons, Bool.or_assoc]

namespace ChanSys
variable (w : ChanSys)

theorem firstLoop_eq :
    w.firstLoop = ⟨Lib.Marks.empty.markAll (w.ifaceChannels.map Chan.hwValue), w.extraChn,
      w.iface (Fin.last 3)⟩ := by
  unfold firstLoop
  rw [ChanLoop.foldl_slot, List.filterMap_map, List.any_map, Bool.false_or]
  rfl

theorem peerLoop_eq (map : Lib.Marks channelBits) (lmacId : Fin SKW_MAX_LMAC_SUPPORT) :
    w.peerLoop map lmacId = map.markAll ((w.lmacChannels lmacId).map Chan.hwValue) := by
  unfold peerLoop lmacChannels Lib.Marks.markAll
  rw [List.foldl_map, List.foldl_filterMap]
  congr 1
  funext map i
  cases (w.peer lmacId i).bind ChanPeer.chan <;> rfl

/-- The scan marks the numbers of the channels that are counted, unless it follows NULL. -/
theorem scan_eq (channel : ℕ) :
    w.scan channel =
      if w.extraChn = true ∧ w.iface (Fin.last 3) = none then none
      else some ((Lib.Marks.empty.markAll
        ((w.ifaceChannels ++ w.scannedChannels).map Chan.hwValue)).test channel) := by
  unfold scan scannedChannels
  rw [firstLoop_eq]
  cases he : w.extraChn with
  | false => simp
  | true =>
    cases hf : w.iface (Fin.last 3) with
    | none => simp
    | some f => simp [peerLoop_eq, Lib.Marks.markAll]

/-- The set of numbers that the scan ends with. -/
theorem image_counted (req : Chan) :
    (w.counted req).image Chan.hwValue =
      insert req.hwValue ((w.ifaceChannels ++ w.scannedChannels).map Chan.hwValue).toFinset := by
  ext k
  simp [counted, or_and_right, exists_or]

theorem scan_inside {req : Chan} (h : ∀ c ∈ w.counted req, c.hwValue < channelBits) :
    let map := (Lib.Marks.empty.markAll
      ((w.ifaceChannels ++ w.scannedChannels).map Chan.hwValue) : Lib.Marks channelBits).test
        req.hwValue
    map.outside = false ∧ map.count = ((w.counted req).image Chan.hwValue).card := by
  have hall : ∀ k ∈ (w.ifaceChannels ++ w.scannedChannels).map Chan.hwValue, k < channelBits := by
    intro k hk
    obtain ⟨c, hc, rfl⟩ := List.mem_map.mp hk
    exact h c (Finset.mem_insert_of_mem (List.mem_toFinset.mpr hc))
  have hrec := Lib.Marks.records_empty.markAll hall
  rw [Finset.union_empty] at hrec
  obtain ⟨hcount, hinside⟩ := hrec.test (h req (Finset.mem_insert_self ..))
  rw [image_counted]
  exact ⟨hinside, hcount⟩

/-- A number that does not fit is noticed. -/
theorem lt_of_scan_inside {req : Chan}
    (h : ((Lib.Marks.empty.markAll ((w.ifaceChannels ++ w.scannedChannels).map Chan.hwValue) :
      Lib.Marks channelBits).test req.hwValue).outside = false) :
    ∀ c ∈ w.counted req, c.hwValue < channelBits := by
  rw [Lib.Marks.outside_test, Bool.or_eq_false_iff, decide_eq_false_iff_not, Nat.not_le] at h
  obtain ⟨hmarks, hreq⟩ := h
  intro c hc
  rcases Finset.mem_insert.mp hc with rfl | hc
  · exact hreq
  · by_contra hbig
    have hout := (Lib.Marks.outside_markAll (Lib.Marks.empty : Lib.Marks channelBits) _).mpr
      (.inr ⟨c.hwValue, List.mem_map_of_mem (List.mem_toFinset.mp hc), Nat.not_lt.mp hbig⟩)
    rw [hmarks] at hout
    cases hout

/-- What the scan is for: no NULL is followed, no bit outside of the bitmap is set or
tested, and `nr_channel` is the number of the channels in use with the requested one. -/
def CountsInUse (req : Chan) : Prop :=
  ∃ map, w.scan req.hwValue = some map ∧ map.outside = false ∧ map.count = (w.inUse req).card

/-- Without a station that has more than one active context the peers are not looked at, and no
peer's channel is in use. -/
theorem counted_eq_inUse (h : w.extraChn = false) (req : Chan) : w.counted req = w.inUse req := by
  have hmulti (n : IfaceId) : (w.iface n).any ChanIface.multi = false := by
    have := List.any_eq_false.mp h n (List.mem_finRange n)
    exact Bool.eq_false_of_not_eq_true this
  have hpeers : w.multiChannels = [] := by
    simp [multiChannels, ofMulti, hmulti]
  rw [counted, inUse, hpeers, scannedChannels, h]
  rfl

end ChanSys

/-- A station in the first slot with two active contexts, on channel 36, and no other interface. -/
def lonelyStation : ChanSys where
  iface n := if n = 0 then some ⟨.station, 0, none, some ⟨.band5ghz, 36⟩, 2⟩ else none
  peer _ _ := none

end Skw
