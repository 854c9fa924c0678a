import Skw.Kernel.Words
import Skw.Lib.Fixed
import Skw.Lib.Growing
import Skw.Tdls.Split

/-! The frames of `skw_tdls_build_send_mgmt`: elements of the driver, and between them the elements
of the caller. -/
namespace Skw
open Lib (Fixed Growing)

/-- `enum nl80211_chan_width` -/
inductive ChanWidth
  | w20NoHt
  | w20
  | w40
  | w80
  | w80p80
  | w160
  | w5
  | w10
deriving DecidableEq

/-- `width > NL80211_CHAN_WIDTH_40` -/
def ChanWidth.above40 (w : ChanWidth) : Bool := w ∉ [.w20NoHt, .w20, .w40]

/-- `centerFreq` is `chan->center_freq`. -/
structure Chandef where
  width : ChanWidth
  centerFreq1 : ℕ
  centerFreq : ℕ

/-- The class of a 5 GHz channel: the one of the width if it has one, else one of three. -/
def Chandef.class5 (c : Chandef) (plus minus plain : BitVec 8) : BitVec 8 :=
  match c.width with
  | .w80 => 128
  | .w160 => 129
  | .w80p80 => 130
  | .w40 => if c.centerFreq < c.centerFreq1 then plus else minus
  | _ => plain

/-- `skw_chandef_to_operating_class` -/
def chandefToOperatingClass (c : Chandef) : Option (BitVec 8) :=
  let freq := c.centerFreq1
  if 2412 ≤ freq ∧ freq ≤ 2472 then
    if c.width.above40 then none
    else if c.width = .w40 then some (if c.centerFreq < freq then 83 else 84)
    else some 81
  else if freq = 2484 then
    if c.width.above40 then none else some 82
  else if c.width = .w10 ∨ c.width = .w5 then none
  else if 5180 ≤ freq ∧ freq ≤ 5240 then some (c.class5 116 117 115)
  else if 5260 ≤ freq ∧ freq ≤ 5320 then some (c.class5 119 120 118)
  else if 5500 ≤ freq ∧ freq ≤ 5720 then some (c.class5 122 123 121)
  else if 5745 ≤ freq ∧ freq ≤ 5845 then
    some (c.class5 126 127 (if freq ≤ 5805 then 124 else 125))
  else if 56160 + 2160 * 1 ≤ freq ∧ freq ≤ 56160 + 2160 * 4 then
    if c.width.above40 ∨ c.width = .w40 then none else some 180
  else none

/-- `skw_freq_to_chn` -/
def freqToChn (freq : ℕ) : ℕ :=
  if freq = 2484 then 14
  else if 2407 ≤ freq ∧ freq < 2484 then (freq - 2407) / 5
  else if 4910 ≤ freq ∧ freq ≤ 4980 then (freq - 4000) / 5
  else if 5000 ≤ freq ∧ freq ≤ 45000 then (freq - 5000) / 5
  else if 58320 ≤ freq ∧ freq ≤ 64800 then (freq - 56160) / 2160
  else 0

/-- `skw_rates`, in units of 100 kbit/s. -/
def skwRates : List ℕ := [10, 20, 55, 110, 60, 90, 120, 180, 240, 360, 480, 540]

/-- `sband->bitrates` -/
def bandRates : Band → List ℕ
  | .band2ghz => skwRates
  | .band5ghz | .band6ghz => skwRates.drop 4

/-- The channel of the BSS, which is one of the wiphy's. -/
structure TdlsChannel where
  band : Band
  freq : ℕ

/-- What the frames are made of and what the calls meet. `hasBand` tells which of `wiphy->bands`
there are, `allowed` at which frequencies the wiphy has a channel that may beacon, and `chanSwitch`
is `NL80211_FEATURE_TDLS_CHANNEL_SWITCH`. `acParams` are the octets of `iface->wmm.ac`, `stale`
those that a frame does not write. `xmitRet` and `cmdRet` are the results of `dev_queue_xmit` and
of `skw_msg_xmit`. -/
structure TdlsEnv where
  headroom : ℕ
  devAddr : MacAddr
  ifaceAddr : MacAddr
  bssid : MacAddr
  bssChannel : Option TdlsChannel
  hasBand : Band → Bool
  allowed : ℕ → Bool
  chanSwitch : Bool
  acParams : Fixed (BitVec 8) 16
  stale : BitVec 8 × BitVec 8
  alloc : Bool
  paramAlloc : Bool
  xmitRet : ℤ
  cmdRet : ℤ

/-- The actions of an encapsulated frame, the one that is sent as a public action frame, and the
codes that are not known. -/
inductive TdlsAction
  | setupRequest
  | setupResponse
  | setupConfirm
  | teardown
  | discoveryRequest
  | channelSwitchRequest
  | channelSwitchResponse
  | discoverRes
  | other (code : BitVec 8)
deriving DecidableEq

structure TdlsRequest where
  peer : MacAddr
  action : TdlsAction
  dialogToken : BitVec 8
  statusCode : BitVec 16
  peerCap : BitVec 32
  initiator : Bool
  ies : List (BitVec 8)

/-! The elements -/

abbrev WLAN_EID_SUPP_RATES : BitVec 8 := 1
abbrev WLAN_EID_COUNTRY : BitVec 8 := 7
abbrev WLAN_EID_SUPPORTED_CHANNELS : BitVec 8 := 36
abbrev WLAN_EID_QOS_CAPA : BitVec 8 := 46
abbrev WLAN_EID_RSN : BitVec 8 := 48
abbrev WLAN_EID_EXT_SUPP_RATES : BitVec 8 := 50
abbrev WLAN_EID_FAST_BSS_TRANSITION : BitVec 8 := 55
abbrev WLAN_EID_TIMEOUT_INTERVAL : BitVec 8 := 56
abbrev WLAN_EID_SUPPORTED_REGULATORY_CLASSES : BitVec 8 := 59
abbrev WLAN_EID_LINK_ID : BitVec 8 := 101
abbrev WLAN_EID_EXT_CAPABILITY : BitVec 8 := 127

def rateOctet (needBasic : Bool) (bitrate : ℕ) : BitVec 8 :=
  (if needBasic then 0x80 else 0) ||| BitVec.ofNat 8 ((bitrate + 4) / 5)

def sratesIe (needBasic : Bool) (rates : List ℕ) : List (BitVec 8) :=
  WLAN_EID_SUPP_RATES :: BitVec.ofNat 8 (min rates.length 8) ::
    (rates.take 8).map (rateOctet needBasic)

def extSratesIe (needBasic : Bool) (rates : List ℕ) : List (BitVec 8) :=
  if rates.length ≤ 8 then []
  else
    WLAN_EID_EXT_SUPP_RATES :: BitVec.ofNat 8 (rates.length - 8) ::
      (rates.drop 8).map (rateOctet needBasic)

/-- The loop of `skw_tdls_add_subband` over the frequencies of a band: the ranges of allowed ones
with their first frequency and their number. `cnt` allowed ones from `start` on are before it. -/
def subbandLoop (allowed : ℕ → Bool) : ℕ → ℕ → List ℕ → List (ℕ × ℕ)
  | start, cnt, [] => if cnt = 0 then [] else [(start, cnt)]
  | start, cnt, f :: fs =>
    let start := if cnt = 0 then f else start
    if allowed f then subbandLoop allowed start (cnt + 1) fs
    else if cnt = 0 then subbandLoop allowed start 0 fs
    else (start, cnt) :: subbandLoop allowed start 0 fs

def addSubband (allowed : ℕ → Bool) (start stop spacing : ℕ) : List (ℕ × ℕ) :=
  subbandLoop allowed 0 0
    ((List.range ((stop - start) / spacing + 1)).map fun k => start + spacing * k)

def suppChannelsIe (allowed : ℕ → Bool) : List (BitVec 8) :=
  let ranges := addSubband allowed 2412 2472 5 ++ addSubband allowed 5000 5825 20
  WLAN_EID_SUPPORTED_CHANNELS :: BitVec.ofNat 8 (2 * ranges.length) ::
    ranges.flatMap fun r => [BitVec.ofNat 8 (freqToChn r.1), BitVec.ofNat 8 r.2]

/-- The fourth octet says that the peer buffers and, with the feature, switches channels; the fifth
says TDLS. -/
def extCapabIe (env : TdlsEnv) : List (BitVec 8) :=
  [WLAN_EID_EXT_CAPABILITY, 8, 0, 0, 0, if env.chanSwitch then 0x50 else 0x10, 0x20, 0, 0, 0]

def wmmInfoIe : List (BitVec 8) :=
  [WLAN_EID_VENDOR_SPECIFIC, 7, 0x00, 0x50, 0xf2, 0x02, 0x00, 0x01, 0xf]

def wmmParamIe (env : TdlsEnv) : List (BitVec 8) :=
  [WLAN_EID_VENDOR_SPECIFIC, 24, 0x00, 0x50, 0xf2, 0x02, 0x01, 0x01, 0xf, 0] ++ env.acParams.cells

def operClassesIe (ch : TdlsChannel) : List (BitVec 8) :=
  match chandefToOperatingClass ⟨.w20NoHt, ch.freq, ch.freq⟩ with
  | none => []
  | some opClass => [WLAN_EID_SUPPORTED_REGULATORY_CLASSES, 2, opClass, opClass]

/-- `skw_tdls_add_link_ie` -/
def linkIe (env : TdlsEnv) (r : TdlsRequest) : List (BitVec 8) :=
  let src := if r.initiator then env.devAddr else r.peer
  let dst := if r.initiator then r.peer else env.devAddr
  [WLAN_EID_LINK_ID, 18] ++ (macBytes env.bssid ++ (macBytes src ++ macBytes dst))

/-! The tables of what comes before a cut -/

def beforeExtCap : List (BitVec 8) :=
  [WLAN_EID_SUPP_RATES, WLAN_EID_COUNTRY, WLAN_EID_EXT_SUPP_RATES, WLAN_EID_SUPPORTED_CHANNELS,
    WLAN_EID_RSN]

def beforeHtCap : List (BitVec 8) :=
  [WLAN_EID_SUPP_RATES, WLAN_EID_COUNTRY, WLAN_EID_EXT_SUPP_RATES, WLAN_EID_SUPPORTED_CHANNELS,
    WLAN_EID_RSN, WLAN_EID_EXT_CAPABILITY, WLAN_EID_QOS_CAPA, WLAN_EID_FAST_BSS_TRANSITION,
    WLAN_EID_TIMEOUT_INTERVAL, WLAN_EID_SUPPORTED_REGULATORY_CLASSES]

def beforeQos : List (BitVec 8) := [WLAN_EID_RSN]

def beforeHtOp : List (BitVec 8) :=
  [WLAN_EID_RSN, WLAN_EID_QOS_CAPA, WLAN_EID_FAST_BSS_TRANSITION, WLAN_EID_TIMEOUT_INTERVAL]

/-! The building of a frame; without a value there is a write behind the buffer, a read behind the
list of the caller, or a NULL is followed. -/

section
variable {room : ℕ}

/-- The octets of the caller up to the next cut, and the cut. -/
def putBefore (ids ies : List (BitVec 8)) (skb : Growing (BitVec 8) room) (offset : ℕ) :
    Option (Growing (BitVec 8) room × ℕ) :=
  if ies = [] then some (skb, offset)
  else do
    let noffset ← ieSplitRic ies ids [] offset
    let skb ← skb.put ((ies.drop offset).take (noffset - offset))
    some (skb, noffset)

/-- The remaining octets. -/
def putRest (ies : List (BitVec 8)) (skb : Growing (BitVec 8) room) (offset : ℕ) :
    Option (Growing (BitVec 8) room) :=
  if ies = [] then some skb else skb.put ((ies.drop offset).take (ies.length - offset))

def addSratesIe (needBasic : Bool) (rates : List ℕ) (skb : Growing (BitVec 8) room) :
    Option (Growing (BitVec 8) room) :=
  skb.putWithin (min rates.length 8 + 2) (sratesIe needBasic rates)

def addExtSratesIe (needBasic : Bool) (rates : List ℕ) (skb : Growing (BitVec 8) room) :
    Option (Growing (BitVec 8) room) :=
  skb.putWithin (rates.length - 8 + 2) (extSratesIe needBasic rates)

/-- `skw_add_wmm_ie`, which asks for the room of the longer element. -/
def addWmmIe (ie : List (BitVec 8)) (skb : Growing (BitVec 8) room) :
    Option (Growing (BitVec 8) room) :=
  skb.putWithin 26 ie

/-- `skw_tdls_add_setup_start_ies` -/
def addSetupStartIes (env : TdlsEnv) (r : TdlsRequest) (skb : Growing (BitVec 8) room) :
    Option (Growing (BitVec 8) room) :=
  match env.bssChannel with
  | none => some skb
  | some ch =>
    if env.hasBand ch.band then do
      let skb ← addSratesIe false (bandRates ch.band) skb
      let skb ← addExtSratesIe false (bandRates ch.band) skb
      let skb ← skb.put (suppChannelsIe env.allowed)
      let (skb, offset) ← putBefore beforeExtCap r.ies skb 0
      let skb ← skb.put (extCapabIe env)
      let skb ← (if r.action = .discoverRes then some skb else addWmmIe wmmInfoIe skb)
      let (skb, offset) ← putBefore beforeHtCap r.ies skb offset
      let skb ← skb.put (operClassesIe ch)
      let skb ← skb.put (linkIe env r)
      putRest r.ies skb offset
    else some skb

abbrev SKW_TDLS_PEER_WMM : BitVec 32 := 4

/-- `skw_tdls_add_setup_cfm_ies` -/
def addSetupCfmIes (env : TdlsEnv) (r : TdlsRequest) (skb : Growing (BitVec 8) room) :
    Option (Growing (BitVec 8) room) := do
  let ch ← env.bssChannel
  if env.hasBand ch.band then do
    let (skb, offset) ← putBefore beforeQos r.ies skb 0
    let skb ← (if r.peerCap &&& SKW_TDLS_PEER_WMM = 0 then some skb
      else addWmmIe (wmmParamIe env) skb)
    let (skb, offset) ← putBefore beforeHtOp r.ies skb offset
    let skb ← skb.put (linkIe env r)
    putRest r.ies skb offset
  else some skb

/-- `skw_tdls_add_ies`; the channel switch is asked for without a channel and adds nothing. -/
def tdlsAddIes (env : TdlsEnv) (r : TdlsRequest) (skb : Growing (BitVec 8) room) :
    Option (Growing (BitVec 8) room) :=
  match r.action with
  | .setupRequest | .setupResponse | .discoverRes =>
    if r.statusCode = 0 then addSetupStartIes env r skb else some skb
  | .setupConfirm => if r.statusCode = 0 then addSetupCfmIes env r skb else some skb
  | .teardown | .discoveryRequest => do
    let skb ← skb.put r.ies
    if r.statusCode = 0 ∨ r.action = .teardown then skb.put (linkIe env r) else some skb
  | .channelSwitchRequest | .channelSwitchResponse | .other _ => some skb

end

def encapHead (env : TdlsEnv) (r : TdlsRequest) (code : BitVec 8) : List (BitVec 8) :=
  macBytes r.peer ++ (macBytes env.devAddr ++ [0x89, 0x0d, 2, 12, code])

/-- The fields of an encapsulated frame behind its action. -/
def encapFields (env : TdlsEnv) (r : TdlsRequest) : List (BitVec 8) :=
  match r.action with
  | .setupRequest => [r.dialogToken, 0, 0]
  | .setupResponse => le16 r.statusCode ++ [r.dialogToken, 0, 0]
  | .setupConfirm => le16 r.statusCode ++ [r.dialogToken]
  | .teardown => le16 r.statusCode
  | .discoveryRequest => [r.dialogToken]
  | .channelSwitchRequest => [env.stale.1, env.stale.2]
  | .channelSwitchResponse => le16 r.statusCode
  | .discoverRes | .other _ => []

/-- The header of a public action frame. -/
def directHead (env : TdlsEnv) (r : TdlsRequest) : List (BitVec 8) :=
  [0xd0, 0, 0, 0] ++ (macBytes r.peer ++ (macBytes env.ifaceAddr ++ (macBytes env.bssid ++ [0, 0])))

/-- Its fixed fields; the capability of a discovery without an error is short slot time and short
preamble. -/
def directFields (r : TdlsRequest) : List (BitVec 8) :=
  [4, 14, r.dialogToken] ++ le16 (if r.statusCode = 0 then 0x0420 else 0)

/-- A `struct skw_mgmt_tx_param` with its frame. -/
def tdlsTxParam (frame : List (BitVec 8)) : List (BitVec 8) :=
  List.replicate 12 0 ++ ([0xff, 0, 0] ++ (le16 (BitVec.ofNat 16 frame.length) ++ frame))

/-- The result of a call, what its buffer holds at the end if there is one, and what was given to
`dev_queue_xmit`, which takes a buffer over, and to `skw_msg_xmit`. -/
structure TdlsResult where
  ret : ℤ
  skb : Option (List (BitVec 8))
  queued : List (List (BitVec 8))
  commands : List (List (BitVec 8))

/-- The sum for `skb_len`, with the sizes of the structures of an action frame, a TDLS frame, the HT
and the VHT elements and the link identifier. -/
def tdlsNeeds (headroom iesLen : ℕ) : ℕ :=
  headroom + (max 50 22 + 50 + 10 + 26 + (2 + max 26 22) + (2 + max 12 5) + 50 + 3 + 4 + 4 +
    iesLen + 20)

/-- The room behind the headroom. -/
def tdlsRoom (env : TdlsEnv) (r : TdlsRequest) : ℕ :=
  tdlsNeeds env.headroom r.ies.length % 2 ^ 32 - env.headroom

section
variable {room : ℕ}

/-- `skw_tdls_build_send_encap_data` for an action that it knows. -/
def tdlsBuildSendEncapData (env : TdlsEnv) (r : TdlsRequest) (code : BitVec 8)
    (skb : Growing (BitVec 8) room) : Option TdlsResult := do
  let skb ← skb.put (encapHead env r code)
  let skb ← skb.put (encapFields env r)
  let skb ← tdlsAddIes env r skb
  some ⟨env.xmitRet, some skb.items, [skb.items], []⟩

/-- `skw_tdls_build_send_direct` for the discovery response. -/
def tdlsBuildSendDirect (env : TdlsEnv) (r : TdlsRequest) (skb : Growing (BitVec 8) room) :
    Option TdlsResult := do
  let skb ← skb.put (directHead env r)
  let skb ← skb.put (directFields r)
  let skb ← tdlsAddIes env r skb
  if env.paramAlloc then some ⟨env.cmdRet, some skb.items, [], [tdlsTxParam skb.items]⟩
  else some ⟨- ENOMEM, some skb.items, [], []⟩

end

/-- `skw_tdls_build_send_mgmt` -/
def tdlsBuildSendMgmt (env : TdlsEnv) (r : TdlsRequest) : Option TdlsResult :=
  if env.alloc then
    let skb : Growing (BitVec 8) (tdlsRoom env r) := .empty _
    match r.action with
    | .setupRequest => tdlsBuildSendEncapData env r 0 skb
    | .setupResponse => tdlsBuildSendEncapData env r 1 skb
    | .setupConfirm => tdlsBuildSendEncapData env r 2 skb
    | .teardown => tdlsBuildSendEncapData env r 3 skb
    | .channelSwitchRequest => tdlsBuildSendEncapData env r 5 skb
    | .channelSwitchResponse => tdlsBuildSendEncapData env r 6 skb
    | .discoveryRequest => tdlsBuildSendEncapData env r 10 skb
    | .discoverRes => tdlsBuildSendDirect env r skb
    | .other _ => some ⟨- EOPNOTSUPP, some [], [], []⟩
  else some ⟨- ENOMEM, none, [], []⟩

end Skw
