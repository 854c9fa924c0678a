import Skw.Lib.Gate
import Skw.Rx.Reorder

/-! Replay detection. A received frame is compared with the packet number that its peer's
pairwise key keeps for the TID, at 32 or 48 bits. -/
namespace Skw

inductive CipherType
  | invalid
  | wep40
  | wep104
  | tkip
  | sms4
  | ccmp
  | ccmp256
  | gcmp
  | gcmp256
  | aesCmac
  | bipCmac256
  | bipGmac128
  | bipGmac256
deriving DecidableEq

/-- The bits of `skw_rx_desc` that are read from `skw_rx_handler` on. The six octets of `pn` are
read little endian. -/
structure MpduDesc extends RxDesc where
  peerIdx : Fin 32
  tid : Fin 16
  pn : BitVec 48
deriving DecidableEq

/-- A received frame that left the reorder buffer. -/
structure Mpdu where
  desc : MpduDesc
  cb : SkbRxcb
  data : List (BitVec 8)
  tailroom : ℕ
deriving DecidableEq

/-- What decides how packet numbers are read. -/
structure PnMode where
  busSdio : Bool
  fwPnReuse : Bool

/-- `SKW_PN_U32` or `SKW_PN_U48`. -/
def PnMode.read (m : PnMode) (pn : BitVec 48) : ℕ :=
  if m.busSdio && m.fwPnReuse then (pn.setWidth 32).toNat else pn.toNat

structure Key where
  rxPn : Fin 16 → BitVec 48

structure KeyConf where
  skwCipher : CipherType
  installedBitmap : BitVec 8
  key : Fin 6 → Option Key

structure RxPeer where
  ptkConf : KeyConf

/-- The peers of `hw.lmac[..].peer_ctx[..]`. -/
abbrev PeerCtxs := Fin 2 → Fin 32 → Option RxPeer

/-- The key of a bitmap with one bit set among its lowest four. -/
def skwKeyIdx (bitmap : BitVec 8) : Option (Fin 6) :=
  match (bitmap &&& 0xf).toNat with
  | 1 => some 0
  | 2 => some 1
  | 4 => some 2
  | 8 => some 3
  | _ => none

def pnAllowed (m : PnMode) (key : Option Key) (desc : MpduDesc) (queue : Fin 16) : ℤ :=
  match key with
  | none => - EINVAL
  | some key =>
    let pn := m.read desc.pn
    let rxPn := m.read (key.rxPn queue)
    let ret : ℤ := if pn > rxPn then 1 else if pn = rxPn then 0 else -1
    if ret < 0 ∨ (ret = 0 ∧ desc.isAmsdu = false ∧ pn ≠ 0) then - EINVAL else 0

/-- The queue that a cipher numbers its frames in, if it does. -/
def replayQueue (cipher : CipherType) (desc : MpduDesc) : Option (Fin 16) :=
  match cipher with
  | .ccmp | .ccmp256 | .gcmp | .gcmp256 | .tkip => some desc.tid
  | _ => none

def RxPeer.setRxPn (peer : RxPeer) (i : Fin 6) (queue : Fin 16) (key : Key) (pn : BitVec 48) :
    RxPeer :=
  { ptkConf :=
      { peer.ptkConf with
        key := Function.update peer.ptkConf.key i
          (some { rxPn := Function.update key.rxPn queue pn }) } }

def PeerCtxs.set (s : PeerCtxs) (lmacId : Fin 2) (idx : Fin 32) (peer : RxPeer) : PeerCtxs :=
  Function.update s lmacId (Function.update (s lmacId) idx (some peer))

/-- The return value and the contexts that `skw_replay_detect` leaves. -/
def replayDetect (m : PnMode) (s : PeerCtxs) (lmacId : Fin 2) (skb : Mpdu) : ℤ × PeerCtxs :=
  if skb.cb.skipReplayDetect then (0, s)
  else
    match s lmacId skb.desc.peerIdx with
    | none => (- EINVAL, s)
    | some peer =>
      if skb.desc.isMcAddr then (0, s)
      else
        match skwKeyIdx peer.ptkConf.installedBitmap, replayQueue peer.ptkConf.skwCipher skb.desc with
        | some i, some queue =>
          match peer.ptkConf.key i with
          | none => (0, s)
          | some key =>
            let ret := pnAllowed m (some key) skb.desc queue
            if ret = 0 then
              (0, s.set lmacId skb.desc.peerIdx (peer.setRxPn i queue key skb.desc.pn))
            else (ret, s)
        | _, _ => (0, s)

/-- A frame delivered on an interface of this lmac. -/
structure Delivery where
  lmacId : Fin 2
  skb : Mpdu

/-- The contexts after a run of deliveries. -/
def replayRun (m : PnMode) (s : PeerCtxs) (ds : List Delivery) : PeerCtxs :=
  ds.foldl (fun s d => (replayDetect m s d.lmacId d.skb).2) s

/-- One peer and TID. -/
structure Channel where
  lmacId : Fin 2
  peerIdx : Fin 32
  tid : Fin 16

/-- A frame of the channel that is checked for replay. -/
def Channel.carries (c : Channel) (d : Delivery) : Bool :=
  d.lmacId = c.lmacId && d.skb.desc.peerIdx = c.peerIdx && d.skb.desc.tid = c.tid &&
    !d.skb.desc.isMcAddr && !d.skb.cb.skipReplayDetect

/-- The frames of the channel that a run accepts. -/
def accepted (m : PnMode) (c : Channel) : PeerCtxs → List Delivery → List Mpdu
  | _, [] => []
  | s, d :: ds =>
    let r := replayDetect m s d.lmacId d.skb
    if c.carries d && r.1 == 0 then d.skb :: accepted m c r.2 ds else accepted m c r.2 ds

/-- The pairwise key that frames of a peer are checked with. -/
def RxPeer.checkKey (peer : RxPeer) : Option Key :=
  if peer.ptkConf.skwCipher ∈ [.ccmp, .ccmp256, .gcmp, .gcmp256, .tkip] then
    (skwKeyIdx peer.ptkConf.installedBitmap).bind peer.ptkConf.key
  else none

def Channel.key (c : Channel) (s : PeerCtxs) : Option Key :=
  (s c.lmacId c.peerIdx).bind RxPeer.checkKey

/-- The packet number kept for the channel. -/
def Channel.rxPn (c : Channel) (m : PnMode) (s : PeerCtxs) : ℕ :=
  match c.key s with
  | some key => m.read (key.rxPn c.tid)
  | none => 0

/-- Frames are stamped with their packet number; subframes and frames with number 0 may repeat
the last one. -/
def pnGate (m : PnMode) : Lib.Gate Mpdu ℕ where
  stamp skb := m.read skb.desc.pn
  loose skb := skb.desc.isAmsdu || m.read skb.desc.pn = 0

theorem pnAllowed_eq_zero_iff {m : PnMode} {key : Key} {skb : Mpdu} {queue : Fin 16} :
    pnAllowed m (some key) skb.desc queue = 0 ↔
      (pnGate m).allows (m.read (key.rxPn queue)) skb = true := by
  simp only [pnAllowed, pnGate, Lib.Gate.allows, Bool.or_eq_true, Bool.and_eq_true,
    decide_eq_true_eq, EINVAL]
  rcases lt_trichotomy (m.read skb.desc.pn) (m.read (key.rxPn queue)) with h | h | h
  · simp [h.not_gt, h.ne, h.ne']
  · cases hs : skb.desc.isAmsdu <;> simp [h]
  · simp [h]

namespace Channel
variable {m : PnMode} {c : Channel} {s : PeerCtxs} {key : Key} {d : Delivery} {ds : List Delivery}

theorem key_eq_some (h : c.key s = some key) : ∃ peer i, s c.lmacId c.peerIdx = some peer ∧
    peer.ptkConf.skwCipher ∈ [.ccmp, .ccmp256, .gcmp, .gcmp256, .tkip] ∧
    skwKeyIdx peer.ptkConf.installedBitmap = some i ∧ peer.ptkConf.key i = some key := by
  obtain ⟨peer, hp, hk⟩ := Option.bind_eq_some_iff.mp h
  unfold RxPeer.checkKey at hk
  split at hk
  · next hc =>
    obtain ⟨i, hi, hk⟩ := Option.bind_eq_some_iff.mp hk
    exact ⟨peer, i, hp, hc, hi, hk⟩
  · cases hk

theorem replayQueue_of_mem {cipher : CipherType} (desc : MpduDesc)
    (h : cipher ∈ [.ccmp, .ccmp256, .gcmp, .gcmp256, .tkip]) :
    replayQueue cipher desc = some desc.tid := by
  simp only [List.mem_cons, List.not_mem_nil, or_false] at h
  rcases h with rfl | rfl | rfl | rfl | rfl <;> rfl

theorem replayQueue_eq_some {cipher : CipherType} {desc : MpduDesc} {queue : Fin 16}
    (h : replayQueue cipher desc = some queue) : queue = desc.tid := by
  cases cipher <;> cases h <;> rfl

/-- What a delivery does to the contexts: nothing, or the number of one key and TID is replaced
by that of a frame which is checked. -/
theorem replayDetect_cases (m : PnMode) (s : PeerCtxs) (lmacId : Fin 2) (skb : Mpdu) :
    (replayDetect m s lmacId skb).2 = s ∨ ∃ peer i key,
      skb.cb.skipReplayDetect = false ∧ skb.desc.isMcAddr = false ∧
      s lmacId skb.desc.peerIdx = some peer ∧ skwKeyIdx peer.ptkConf.installedBitmap = some i ∧
      peer.ptkConf.key i = some key ∧
      (replayDetect m s lmacId skb).2 =
        s.set lmacId skb.desc.peerIdx (peer.setRxPn i skb.desc.tid key skb.desc.pn) := by
  unfold replayDetect
  split
  · exact .inl rfl
  next hskip =>
  split
  · exact .inl rfl
  next peer hp =>
  split
  · exact .inl rfl
  next hmc =>
  split
  · next i queue hi hq =>
    split
    · exact .inl rfl
    · next key hk =>
      by_cases hr : pnAllowed m (some key) skb.desc queue = 0
      · right
        have hs := Bool.eq_false_of_not_eq_true hskip
        have hm := Bool.eq_false_of_not_eq_true hmc
        refine ⟨peer, i, key, hs, hm, hp, hi, hk, ?_⟩
        rw [if_pos hr, replayQueue_eq_some hq]
      · left
        rw [if_neg hr]
  · exact .inl rfl

theorem rxPn_eq (m : PnMode) (h : c.key s = some key) :
    c.rxPn m s = m.read (key.rxPn c.tid) := by
  unfold rxPn
  rw [h]

/-- The contexts of the channel's peer after the number of its key is set for a TID. -/
theorem key_set {peer : RxPeer} {i : Fin 6} (tid : Fin 16) (pn : BitVec 48)
    (h : c.key s = some key) (hp : s c.lmacId c.peerIdx = some peer)
    (hi : skwKeyIdx peer.ptkConf.installedBitmap = some i) :
    c.key (s.set c.lmacId c.peerIdx (peer.setRxPn i tid key pn)) =
      some { rxPn := Function.update key.rxPn tid pn } := by
  obtain ⟨peer', i', hp', hc, hi', hk⟩ := key_eq_some h
  rw [hp] at hp'
  cases hp'
  simp [Channel.key, PeerCtxs.set, RxPeer.checkKey, RxPeer.setRxPn, hc, hi]

theorem key_set_of_ne {lmacId : Fin 2} {idx : Fin 32} (peer : RxPeer)
    (hne : ¬ (lmacId = c.lmacId ∧ idx = c.peerIdx)) : c.key (s.set lmacId idx peer) = c.key s := by
  unfold Channel.key PeerCtxs.set
  by_cases hl : lmacId = c.lmacId
  · have hx : c.peerIdx ≠ idx := fun h => hne ⟨hl, h.symm⟩
    subst hl
    rw [Function.update_self, Function.update_of_ne hx]
  · rw [Function.update_of_ne (Ne.symm hl)]

/-- A checked frame passes exactly if the gate lets it. -/
theorem replayDetect_of_carries (h : c.key s = some key) (hd : c.carries d = true) :
    ((replayDetect m s d.lmacId d.skb).1 = 0 ↔ (pnGate m).allows (c.rxPn m s) d.skb = true) ∧
    ∃ key', c.key (replayDetect m s d.lmacId d.skb).2 = some key' ∧
      c.rxPn m (replayDetect m s d.lmacId d.skb).2 = (pnGate m).keep (c.rxPn m s) d.skb := by
  obtain ⟨peer, i, hp, hc, hi, hk⟩ := key_eq_some h
  simp only [carries, Bool.and_eq_true, decide_eq_true_eq, Bool.not_eq_true'] at hd
  obtain ⟨⟨⟨⟨hl, hx⟩, ht⟩, hm⟩, hs⟩ := hd
  have hq := replayQueue_of_mem d.skb.desc hc
  have ha : pnAllowed m (some key) d.skb.desc c.tid = 0 ↔
      (pnGate m).allows (m.read (key.rxPn c.tid)) d.skb = true := pnAllowed_eq_zero_iff
  rw [← rxPn_eq m h] at ha
  unfold replayDetect
  simp only [hs, hl, hx, hp, hm, hi, hq, hk, ht, Bool.false_eq_true, if_false]
  by_cases hz : pnAllowed m (some key) d.skb.desc c.tid = 0
  · rw [if_pos hz]
    have hall := ha.mp hz
    have hset := key_set c.tid d.skb.desc.pn h hp hi
    refine ⟨by simp [hall], _, hset, ?_⟩
    rw [rxPn_eq m hset, Lib.Gate.keep, if_pos hall]
    simp only [Function.update_self]
    rfl
  · rw [if_neg hz]
    have hall : ¬ (pnGate m).allows (c.rxPn m s) d.skb = true := fun h => hz (ha.mpr h)
    refine ⟨by simp [hz, hall], key, h, ?_⟩
    rw [Lib.Gate.keep, if_neg hall]

/-- Any other frame leaves the number of the channel. -/
theorem replayDetect_of_not_carries (h : c.key s = some key) (hd : c.carries d = false) :
    ∃ key', c.key (replayDetect m s d.lmacId d.skb).2 = some key' ∧
      c.rxPn m (replayDetect m s d.lmacId d.skb).2 = c.rxPn m s := by
  rcases replayDetect_cases m s d.lmacId d.skb with he | ⟨peer, i, key', hs, hm, hp, hi, hk, he⟩
  · rw [he]
    exact ⟨key, h, rfl⟩
  rw [he]
  by_cases hsame : d.lmacId = c.lmacId ∧ d.skb.desc.peerIdx = c.peerIdx
  · obtain ⟨hl, hx⟩ := hsame
    have ht : c.tid ≠ d.skb.desc.tid := by
      intro ht
      simp [carries, hl, hx, ht, hm, hs] at hd
    obtain ⟨peer', i', hp', hc, hi', hk'⟩ := key_eq_some h
    rw [hl, hx] at hp ⊢
    rw [hp] at hp'
    cases hp'
    rw [hi] at hi'
    cases hi'
    rw [hk] at hk'
    cases hk'
    have hset := key_set d.skb.desc.tid d.skb.desc.pn h hp hi
    refine ⟨_, hset, ?_⟩
    rw [rxPn_eq m hset, rxPn_eq m h]
    simp only [Function.update_of_ne ht]
  · have hset := key_set_of_ne (peer.setRxPn i d.skb.desc.tid key' d.skb.desc.pn) hsame (s := s)
    refine ⟨key, hset.trans h, ?_⟩
    rw [rxPn_eq m (hset.trans h), rxPn_eq m h]

/-- A run offers the gate the frames that the channel carries. -/
theorem accepted_eq (h : c.key s = some key) (ds : List Delivery) :
    accepted m c s ds = (pnGate m).passed (c.rxPn m s) ((ds.filter c.carries).map (·.skb)) := by
  induction ds generalizing s key with
  | nil => rfl
  | cons d ds ih =>
    simp only [accepted, List.filter_cons]
    by_cases hd : c.carries d = true
    · obtain ⟨hret, key', hk, hkeep⟩ := replayDetect_of_carries (m := m) h hd
      rw [ih hk, hkeep, if_pos hd, List.map_cons, Lib.Gate.passed, Lib.Gate.keep]
      by_cases ha : (pnGate m).allows (c.rxPn m s) d.skb = true
      · simp [hd, hret.mpr ha, ha]
      · have hne : (replayDetect m s d.lmacId d.skb).1 ≠ 0 := fun hz => ha (hret.mp hz)
        simp [hne, ha]
    · have hd := Bool.eq_false_of_not_eq_true hd
      obtain ⟨key', hk, hkeep⟩ := replayDetect_of_not_carries (m := m) h hd
      rw [ih hk, hkeep]
      simp [hd]

theorem replayRun_append (s : PeerCtxs) (ds es : List Delivery) :
    replayRun m s (ds ++ es) = replayRun m (replayRun m s ds) es :=
  List.foldl_append ..

/-- The key stays installed and its number does not decrease. -/
theorem rxPn_run (h : c.key s = some key) (ds : List Delivery) :
    ∃ key', c.key (replayRun m s ds) = some key' ∧
      c.rxPn m s ≤ c.rxPn m (replayRun m s ds) := by
  induction ds generalizing s key with
  | nil => exact ⟨key, h, le_rfl⟩
  | cons d ds ih =>
    by_cases hd : c.carries d = true
    · obtain ⟨-, key', hk, hkeep⟩ := replayDetect_of_carries (m := m) h hd
      obtain ⟨key'', hk'', hle⟩ := ih hk
      exact ⟨key'', hk'', (hkeep ▸ Lib.Gate.le_keep ..).trans hle⟩
    · obtain ⟨key', hk, hkeep⟩ :=
        replayDetect_of_not_carries (m := m) h (Bool.eq_false_of_not_eq_true hd)
      obtain ⟨key'', hk'', hle⟩ := ih hk
      exact ⟨key'', hk'', hkeep.ge.trans hle⟩

end Channel

/-- Replay protection of a channel over a run of deliveries to any channels: its number never
decreases, its accepted frames are in the order of their numbers, and of two accepted frames
with the same number other than 0 one is a subframe of an A-MSDU. -/
theorem replay_protected (m : PnMode) (c : Channel) (s : PeerCtxs) (h : (c.key s).isSome = true)
    (ds : List Delivery) :
    (∀ ds' es, ds = ds' ++ es → c.rxPn m (replayRun m s ds') ≤ c.rxPn m (replayRun m s ds)) ∧
    ((accepted m c s ds).Pairwise fun a b => m.read a.desc.pn ≤ m.read b.desc.pn) ∧
    (accepted m c s ds).Pairwise fun a b => a.desc.isAmsdu = false → b.desc.isAmsdu = false →
      m.read a.desc.pn ≠ 0 → m.read a.desc.pn ≠ m.read b.desc.pn := by
  obtain ⟨key, h⟩ := Option.isSome_iff_exists.mp h
  have hp := Lib.Gate.passed_pairwise (g := pnGate m) (c.rxPn m s)
    ((ds.filter c.carries).map (·.skb))
  rw [← Channel.accepted_eq h] at hp
  refine ⟨?_, hp.imp And.left, hp.imp ?_⟩
  · rintro ds' es rfl
    obtain ⟨key', hk, -⟩ := Channel.rxPn_run (m := m) h ds'
    obtain ⟨-, -, hle⟩ := Channel.rxPn_run (m := m) hk es
    rwa [Channel.replayRun_append]
  · intro a b hab _ hb ha heq
    have hb0 : (pnGate m).loose b = false := by
      rw [heq] at ha
      simp [pnGate, hb, ha]
    exact (hab.2 hb0).ne heq

/-- A unicast frame of peer 1 and TID 5 with this number. -/
def pnFrame (pn : BitVec 48) (isAmsdu : Bool) : Delivery where
  lmacId := (0#1).toFin
  skb :=
    { desc :=
        { sn := (0#12).toFin, msduFilter := (0#8).toFin, fragNum := (0#4).toFin
          amsduIdx := (0#6).toFin, isAmsdu, isQosData := true, isMcAddr := false, moreFrag := false
          amsduFirstIdx := false, amsduLastIdx := false
          peerIdx := (1#5).toFin, tid := (5#4).toFin, pn }
      cb := ⟨0, 0, 0, false, false, false⟩
      data := []
      tailroom := 0 }

/-- Every peer has a new CCMP key. -/
def ccmpPeers : PeerCtxs := fun _ _ =>
  some ⟨⟨.ccmp, 1, Function.update (fun _ => none) 0 (some ⟨fun _ => 0⟩)⟩⟩

/-- A replayed frame and one that is late are dropped, the next subframe is not. -/
theorem replay_protected_ccmp :
    (accepted ⟨false, false⟩ ⟨0, 1, 5⟩ ccmpPeers [pnFrame 7 false, pnFrame 7 false,
      pnFrame 9 true, pnFrame 9 true, pnFrame 8 false]).map (·.desc.pn) = [7, 9, 9] ∧
    (accepted ⟨false, false⟩ ⟨0, 1, 5⟩ ccmpPeers [pnFrame 7 false, pnFrame 7 false,
      pnFrame 9 true, pnFrame 9 true, pnFrame 8 false]).Pairwise
        fun a b => a.desc.pn.toNat ≤ b.desc.pn.toNat :=
  ⟨by decide, (replay_protected ⟨false, false⟩ ⟨0, 1, 5⟩ ccmpPeers (by decide) _).2.1⟩

end Skw
