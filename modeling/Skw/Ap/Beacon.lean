import Mathlib.Data.BitVec
import Skw.Kernel.Types
import Skw.Kernel.Words
import Skw.Lib.Fixed

/-! The commands that carry a beacon. A fixed part says where in the message the head, the tail
and the probe response stand; from there the firmware, and the recovery, read them. -/
namespace Skw

abbrev SKW_2K_SIZE : ℕ := 2048

abbrev IEEE80211_MAX_SSID_LEN : ℕ := 32

/-- The payload of a netlink attribute, whose length has 16 bits. -/
structure NlAttr where
  bytes : List (BitVec 8)
  length_lt : bytes.length < 2 ^ 16

/-- `struct cfg80211_beacon_data`; a part that is not given is NULL, and its length zero. -/
structure BeaconData where
  head : Option NlAttr
  tail : Option NlAttr
  probeResp : Option NlAttr

/-- What the firmware has of a beacon. -/
structure FwBeacon where
  head : Option (List (BitVec 8))
  tail : Option (List (BitVec 8))
  probeResp : Option (List (BitVec 8))
deriving DecidableEq

def partBytes (a : Option NlAttr) : List (BitVec 8) := a.elim [] NlAttr.bytes

def BeaconData.parts (b : BeaconData) : FwBeacon :=
  ⟨b.head.map NlAttr.bytes, b.tail.map NlAttr.bytes, b.probeResp.map NlAttr.bytes⟩

/-- A part that is not given stays as it is. -/
def FwBeacon.update (old new : FwBeacon) : FwBeacon :=
  ⟨new.head <|> old.head, new.tail <|> old.tail, new.probeResp <|> old.probeResp⟩

/-- The octets behind the fixed part of a command. -/
def BeaconData.ies (b : BeaconData) : List (BitVec 8) :=
  partBytes b.head ++ partBytes b.tail ++ partBytes b.probeResp

/-- The offset and the length of a part, in memory that is zero. -/
def partFields (offset : ℕ) (a : Option NlAttr) : List (BitVec 8) :=
  match a with
  | none => le16 0 ++ le16 0
  | some x => le16 (BitVec.ofNat 16 offset) ++ le16 (BitVec.ofNat 16 x.bytes.length)

/-- What `skw_cfg80211_start_ap` reads of `struct cfg80211_ap_settings`, the channel converted.
There is no `width` where `to_skw_bw` knows none, and `acl` has the number of entries. -/
structure SapSettings where
  beacon : BeaconData
  beaconInterval : BitVec 32
  dtimPeriod : BitVec 8
  hiddenSsid : BitVec 8
  chan : BitVec 8
  width : Option (BitVec 8)
  centerChn1 : BitVec 8
  centerChn2 : BitVec 8
  band : BitVec 8
  ssid : List (BitVec 8)
  ssid_le : ssid.length ≤ IEEE80211_MAX_SSID_LEN
  acl : Option ℕ
  htCap : Bool
  vhtCap : Bool

/-- The size of a `struct skw_startap_param`. -/
abbrev startapFixed : ℕ := 64

/-- The size of a `struct skw_beacon_params`. -/
abbrev beaconFixed : ℕ := 24

/-- The fields of a `struct skw_startap_param` before those of the beacon. -/
def startapHead (g : SapSettings) (bw : BitVec 8) : List (BitVec 8) :=
  le32 g.beaconInterval ++
    [g.dtimPeriod, g.hiddenSsid, g.chan, bw, g.centerChn1, g.centerChn2, g.band,
      BitVec.ofNat 8 g.ssid.length] ++
    (g.ssid ++ List.replicate (IEEE80211_MAX_SSID_LEN - g.ssid.length) 0)

/-- The message of `SKW_CMD_START_AP`. -/
def startapParam (g : SapSettings) (bw : BitVec 8) : List (BitVec 8) :=
  let b := g.beacon
  let tailOffset := startapFixed + (partBytes b.head).length
  let probeOffset := tailOffset + (partBytes b.tail).length
  startapHead g bw ++
    (partFields startapFixed b.head ++ partFields tailOffset b.tail ++ (le16 0 ++ le16 0) ++
      partFields probeOffset b.probeResp ++ (le16 0 ++ le16 0)) ++
    b.ies

/-- The message of `SKW_CMD_CHANGE_BEACON`. -/
def beaconParams (b : BeaconData) : List (BitVec 8) :=
  let tailOffset := beaconFixed + (partBytes b.head).length
  let probeOffset := tailOffset + (partBytes b.tail).length
  partFields beaconFixed b.head ++ partFields tailOffset b.tail ++ (le16 0 ++ le16 0) ++
    (le16 0 ++ le16 0) ++ (le16 0 ++ le16 0) ++ partFields probeOffset b.probeResp ++ b.ies

def u16At (msg : List (BitVec 8)) (i : ℕ) : ℕ :=
  match msg.drop i with
  | lo :: hi :: _ => lo.toNat + 2 ^ 8 * hi.toNat
  | _ => 0

/-- The part of a message whose offset and length stand at `i`. -/
def readPart (msg : List (BitVec 8)) (i : ℕ) : Option (List (BitVec 8)) :=
  if u16At msg i = 0 then none else some ((msg.drop (u16At msg i)).take (u16At msg (i + 2)))

/-- The beacon in a message of `SKW_CMD_START_AP`. -/
def startapBeacon (msg : List (BitVec 8)) : FwBeacon :=
  ⟨readPart msg 44, readPart msg 48, readPart msg 56⟩

/-- The beacon in a message of `SKW_CMD_CHANGE_BEACON`. -/
def changedBeacon (msg : List (BitVec 8)) : FwBeacon :=
  ⟨readPart msg 0, readPart msg 4, readPart msg 20⟩

section
variable {g : SapSettings} {bw : BitVec 8} {b : BeaconData} {a : Option NlAttr} {i offset : ℕ}
  {msg l r pre post : List (BitVec 8)}

@[simp] theorem length_partFields (offset : ℕ) (a : Option NlAttr) :
    (partFields offset a).length = 4 := by
  cases a with
  | none => rfl
  | some x => rfl

@[simp] theorem length_startapHead (g : SapSettings) (bw : BitVec 8) :
    (startapHead g bw).length = 44 := by
  have hssid : g.ssid.length + (IEEE80211_MAX_SSID_LEN - g.ssid.length) = 32 :=
    Nat.add_sub_cancel' g.ssid_le
  simp only [startapHead, le32, List.length_append, List.length_cons, List.length_nil,
    List.length_replicate, hssid]

theorem length_startapParam (g : SapSettings) (bw : BitVec 8) :
    (startapParam g bw).length = startapFixed + g.beacon.ies.length := by
  simp only [startapParam, List.length_append, length_startapHead, length_partFields, length_le16]

theorem length_beaconParams (b : BeaconData) :
    (beaconParams b).length = beaconFixed + b.ies.length := by
  simp only [beaconParams, List.length_append, length_partFields, length_le16]

theorem u16At_le16 (l : List (BitVec 8)) (x : BitVec 16) (r : List (BitVec 8)) :
    u16At (l ++ (le16 x ++ r)) l.length = x.toNat := by
  have := x.isLt
  simp only [u16At, List.drop_left, le16, List.cons_append, BitVec.toNat_setWidth,
    BitVec.toNat_ushiftRight, Nat.shiftRight_eq_div_pow]
  omega

/-- A part is read where its fields say. -/
theorem readPart_of_fields (l : List (BitVec 8)) (a : Option NlAttr) (r pre post : List (BitVec 8))
    (hfields : msg = l ++ (partFields pre.length a ++ r))
    (hpart : msg = pre ++ (partBytes a ++ post)) (hpre : 0 < pre.length)
    (hlt : msg.length < 2 ^ 16) : readPart msg l.length = a.map NlAttr.bytes := by
  cases a with
  | none =>
    have h₀ : u16At msg l.length = 0 := by
      rw [hfields, partFields, List.append_assoc, u16At_le16]
      rfl
    rw [readPart, if_pos h₀]
    rfl
  | some x =>
    have hbound : pre.length < 2 ^ 16 := by
      rw [hpart, List.length_append] at hlt
      omega
    have hoff : u16At msg l.length = pre.length := by
      rw [hfields, partFields, List.append_assoc, u16At_le16, BitVec.toNat_ofNat,
        Nat.mod_eq_of_lt hbound]
    have hlen : u16At msg (l.length + 2) = x.bytes.length := by
      have hplace : l.length + 2 = (l ++ le16 (BitVec.ofNat 16 pre.length)).length := by
        rw [List.length_append, length_le16]
      rw [hfields, partFields, List.append_assoc, ← List.append_assoc l, hplace, u16At_le16,
        BitVec.toNat_ofNat, Nat.mod_eq_of_lt x.length_lt]
    rw [readPart, hoff, hlen, if_neg hpre.ne', hpart, List.drop_left]
    exact congrArg some List.take_left

/-- The three parts of a beacon are read where the fields in the fixed part of a message say. -/
theorem readParts (b : BeaconData) (fixed l₁ r₁ l₂ r₂ l₃ r₃ : List (BitVec 8))
    (h₁ : fixed = l₁ ++ (partFields fixed.length b.head ++ r₁))
    (h₂ : fixed = l₂ ++ (partFields (fixed.length + (partBytes b.head).length) b.tail ++ r₂))
    (h₃ : fixed = l₃ ++ (partFields
      (fixed.length + (partBytes b.head).length + (partBytes b.tail).length) b.probeResp ++ r₃))
    (hpos : 0 < fixed.length) (hlt : (fixed ++ b.ies).length < 2 ^ 16) :
    (⟨readPart (fixed ++ b.ies) l₁.length, readPart (fixed ++ b.ies) l₂.length,
      readPart (fixed ++ b.ies) l₃.length⟩ : FwBeacon) = b.parts := by
  have hhead := readPart_of_fields l₁ b.head (r₁ ++ b.ies) fixed
    (partBytes b.tail ++ partBytes b.probeResp)
    (by conv_lhs => rw [h₁]
        simp only [List.append_assoc])
    (by simp only [BeaconData.ies, List.append_assoc]) hpos hlt
  have htail := readPart_of_fields l₂ b.tail (r₂ ++ b.ies) (fixed ++ partBytes b.head)
    (partBytes b.probeResp)
    (by conv_lhs => rw [h₂]
        simp only [List.length_append, List.append_assoc])
    (by simp only [BeaconData.ies, List.append_assoc])
    (hpos.trans_le (by rw [List.length_append]; exact Nat.le_add_right _ _)) hlt
  have hprobe := readPart_of_fields l₃ b.probeResp (r₃ ++ b.ies)
    (fixed ++ partBytes b.head ++ partBytes b.tail) []
    (by conv_lhs => rw [h₃]
        simp only [List.length_append, List.append_assoc, Nat.add_assoc])
    (by simp only [BeaconData.ies, List.append_assoc, List.append_nil])
    (hpos.trans_le (by simp only [List.length_append]; omega)) hlt
  rw [hhead, htail, hprobe]
  rfl

/-- The firmware finds the beacon of the settings in the message. -/
theorem startapBeacon_startapParam (h : (startapParam g bw).length < 2 ^ 16) :
    startapBeacon (startapParam g bw) = g.beacon.parts := by
  let tailOffset := startapFixed + (partBytes g.beacon.head).length
  let fields := partFields startapFixed g.beacon.head
  let tail := partFields tailOffset g.beacon.tail
  let probe := partFields (tailOffset + (partBytes g.beacon.tail).length) g.beacon.probeResp
  let zero := le16 0 ++ le16 0
  let fixed := startapHead g bw ++ (fields ++ tail ++ zero ++ probe ++ zero)
  have hfixed : fixed.length = startapFixed := by
    simp [fixed, fields, tail, probe, zero]
  have hparts := readParts g.beacon fixed (startapHead g bw) (tail ++ zero ++ probe ++ zero)
    (startapHead g bw ++ fields) (zero ++ probe ++ zero)
    (startapHead g bw ++ fields ++ tail ++ zero) zero
    (by rw [hfixed]; simp only [fixed, fields, List.append_assoc])
    (by rw [hfixed]; simp only [fixed, tail, tailOffset, List.append_assoc])
    (by rw [hfixed]; simp only [fixed, probe, tailOffset, List.append_assoc])
    (by rw [hfixed]; decide) h
  simp only [List.length_append, length_startapHead, length_partFields, length_le16, fields, tail,
    zero] at hparts
  exact hparts

/-- The firmware finds the beacon of the update in the message. -/
theorem changedBeacon_beaconParams (h : (beaconParams b).length < 2 ^ 16) :
    changedBeacon (beaconParams b) = b.parts := by
  let tailOffset := beaconFixed + (partBytes b.head).length
  let fields := partFields beaconFixed b.head
  let tail := partFields tailOffset b.tail
  let probe := partFields (tailOffset + (partBytes b.tail).length) b.probeResp
  let zero := le16 0 ++ le16 0
  let fixed := fields ++ tail ++ zero ++ zero ++ zero ++ probe
  have hfixed : fixed.length = beaconFixed := by
    simp [fixed, fields, tail, probe, zero]
  have hparts := readParts b fixed [] (tail ++ zero ++ zero ++ zero ++ probe) fields
    (zero ++ zero ++ zero ++ probe) (fields ++ tail ++ zero ++ zero ++ zero) []
    (by rw [hfixed]; simp only [fixed, fields, List.append_assoc, List.nil_append])
    (by rw [hfixed]; simp only [fixed, tail, tailOffset, List.append_assoc])
    (by rw [hfixed]; simp only [fixed, probe, tailOffset, List.append_assoc, List.append_nil])
    (by rw [hfixed]; decide) h
  simp only [List.length_append, List.length_nil, length_partFields, length_le16, fields, tail,
    zero] at hparts
  exact hparts

end

end Skw
