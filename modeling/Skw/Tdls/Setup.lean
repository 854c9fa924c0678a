import Skw.Tdls.Frame

/-! What a setup frame and a discovery response carry, and what becomes of their buffer. -/
namespace Skw
open Lib (Fixed Growing Tlv)
open Lib.Growing (Adds)

inductive SetupAction
  | request
  | response
  | confirm
  | discoverRes
deriving DecidableEq

def SetupAction.action : SetupAction → TdlsAction
  | request => .setupRequest
  | response => .setupResponse
  | confirm => .setupConfirm
  | discoverRes => .discoverRes

/-- What a setup frame or a discovery response without an error is asked for with. -/
structure TdlsSetup where
  action : SetupAction
  peer : MacAddr
  dialogToken : BitVec 8
  peerCap : BitVec 32
  initiator : Bool
  els : List Tlv

def TdlsSetup.toRequest (s : TdlsSetup) : TdlsRequest where
  peer := s.peer
  action := s.action.action
  dialogToken := s.dialogToken
  statusCode := 0
  peerCap := s.peerCap
  initiator := s.initiator
  ies := elementBytes s.els

/-- The elements of the driver before, between and behind the pieces of the caller's list, and the
tables that it is cut with. -/
structure TdlsParts where
  own₁ : List (BitVec 8)
  own₂ : List (BitVec 8)
  own₃ : List (BitVec 8)
  ids₁ : List (BitVec 8)
  ids₂ : List (BitVec 8)

def startParts (env : TdlsEnv) (r : TdlsRequest) (ch : TdlsChannel) : TdlsParts where
  own₁ := sratesIe false (bandRates ch.band) ++
    (extSratesIe false (bandRates ch.band) ++ suppChannelsIe env.allowed)
  own₂ := extCapabIe env ++ if r.action = .discoverRes then [] else wmmInfoIe
  own₃ := operClassesIe ch ++ linkIe env r
  ids₁ := beforeExtCap
  ids₂ := beforeHtCap

def confirmParts (env : TdlsEnv) (r : TdlsRequest) : TdlsParts where
  own₁ := []
  own₂ := if r.peerCap &&& SKW_TDLS_PEER_WMM = 0 then [] else wmmParamIe env
  own₃ := linkIe env r
  ids₁ := beforeQos
  ids₂ := beforeHtOp

/-- The channel of the BSS, if the wiphy has its band. -/
def TdlsEnv.channel (env : TdlsEnv) : Option TdlsChannel :=
  env.bssChannel.filter fun ch => env.hasBand ch.band

namespace TdlsSetup

def parts (s : TdlsSetup) (env : TdlsEnv) : TdlsParts :=
  match env.channel with
  | none => ⟨[], [], [], [], []⟩
  | some ch =>
    if s.action = .confirm then confirmParts env s.toRequest else startParts env s.toRequest ch

def head (s : TdlsSetup) (env : TdlsEnv) : List (BitVec 8) :=
  match s.action with
  | .request => encapHead env s.toRequest 0 ++ encapFields env s.toRequest
  | .response => encapHead env s.toRequest 1 ++ encapFields env s.toRequest
  | .confirm => encapHead env s.toRequest 2 ++ encapFields env s.toRequest
  | .discoverRes => directHead env s.toRequest ++ directFields s.toRequest

end TdlsSetup

/-- The list is cut twice, where elements begin, and its three pieces come behind the driver's own
parts. -/
def TdlsParts.Carry (p : TdlsParts) (els : List Tlv) (front frame : List (BitVec 8)) : Prop :=
  ∃ els₁ els₂ els₃, els = els₁ ++ (els₂ ++ els₃) ∧
    ieSplitRic (elementBytes els) p.ids₁ [] 0 = some (elementBytes els₁).length ∧
    ieSplitRic (elementBytes els) p.ids₂ [] (elementBytes els₁).length =
      some (elementBytes els₁ ++ elementBytes els₂).length ∧
    frame = front ++ (p.own₁ ++ (elementBytes els₁ ++ (p.own₂ ++ (elementBytes els₂ ++
      (p.own₃ ++ elementBytes els₃)))))

/-- The call ends. If it has a buffer, the frame carries the caller's elements, lies inside, and is
given to the queue, once. -/
def TdlsSetup.Sent (s : TdlsSetup) (env : TdlsEnv) (out : Option TdlsResult) : Prop :=
  ∃ res, out = some res ∧ ∀ frame, res.skb = some frame →
    (s.parts env).Carry s.els (s.head env) frame ∧ frame.length ≤ tdlsRoom env s.toRequest ∧
      res.queued = [frame]

section
variable {room : ℕ} {skb : Growing (BitVec 8) room} {pre : List (BitVec 8)} {els post : List Tlv}

theorem eq_nil_of_append_elementBytes (h : pre ++ elementBytes post = []) :
    pre = [] ∧ post = [] := by
  obtain ⟨hpre, hpost⟩ := List.append_eq_nil_iff.mp h
  exact ⟨hpre, elementBytes_eq_nil_iff.mp hpost⟩

/-- A piece of the list goes behind what the buffer holds. -/
theorem exists_putBefore (skb : Growing (BitVec 8) room) (pre : List (BitVec 8)) (post : List Tlv)
    (ids : List (BitVec 8))
    (hroom : skb.items.length + (elementBytes post).length ≤ room) :
    ∃ mid post' skb', post = mid ++ post' ∧
      ieSplitRic (pre ++ elementBytes post) ids [] pre.length =
        some (pre ++ elementBytes mid).length ∧
      putBefore ids (pre ++ elementBytes post) skb pre.length =
        some (skb', (pre ++ elementBytes mid).length) ∧
      skb'.items = skb.items ++ elementBytes mid := by
  obtain ⟨mid, post', rfl, hsplit⟩ := ieSplitRic_lands pre post ids []
  rw [putBefore]
  split_ifs with hnil
  · obtain ⟨rfl, hboth⟩ := eq_nil_of_append_elementBytes hnil
    obtain ⟨rfl, rfl⟩ := List.append_eq_nil_iff.mp hboth
    exact ⟨[], [], skb, rfl, hsplit, rfl, (List.append_nil _).symm⟩
  · have htake : ((pre ++ elementBytes (mid ++ post')).drop pre.length).take
        ((pre ++ elementBytes mid).length - pre.length) = elementBytes mid := by
      rw [List.drop_left, List.length_append, Nat.add_sub_cancel_left, elementBytes_append,
        List.take_left]
    rw [elementBytes_append, List.length_append] at hroom
    obtain ⟨skb', hput, hitems⟩ := Growing.exists_put (b := skb) (s := elementBytes mid) (by omega)
    refine ⟨mid, post', skb', rfl, hsplit, ?_, hitems⟩
    rw [hsplit]
    simp only [Option.bind_eq_bind, Option.bind_some, htake, hput]

theorem exists_putRest (skb : Growing (BitVec 8) room) (pre : List (BitVec 8)) (post : List Tlv)
    (hroom : skb.items.length + (elementBytes post).length ≤ room) :
    ∃ skb', putRest (pre ++ elementBytes post) skb pre.length = some skb' ∧
      skb'.items = skb.items ++ elementBytes post := by
  rw [putRest]
  split_ifs with hnil
  · obtain ⟨rfl, rfl⟩ := eq_nil_of_append_elementBytes hnil
    exact ⟨skb, rfl, (List.append_nil _).symm⟩
  · have htake : ((pre ++ elementBytes post).drop pre.length).take
        ((pre ++ elementBytes post).length - pre.length) = elementBytes post := by
      rw [List.drop_left, List.length_append, Nat.add_sub_cancel_left, List.take_length]
    rw [htake]
    exact Growing.exists_put hroom

/-- The order of either kind of frame: own elements, and between them the pieces of the list. -/
def carried (own₁ own₂ own₃ : Growing (BitVec 8) room → Option (Growing (BitVec 8) room))
    (ids₁ ids₂ ies : List (BitVec 8)) (skb : Growing (BitVec 8) room) :
    Option (Growing (BitVec 8) room) := do
  let skb ← own₁ skb
  let (skb, offset) ← putBefore ids₁ ies skb 0
  let skb ← own₂ skb
  let (skb, offset) ← putBefore ids₂ ies skb offset
  let skb ← own₃ skb
  putRest ies skb offset

theorem exists_carried (p : TdlsParts) (skb : Growing (BitVec 8) room) (els : List Tlv)
    {n₁ n₂ n₃ : ℕ}
    {f₁ f₂ f₃ : Growing (BitVec 8) room → Option (Growing (BitVec 8) room)}
    (h₁ : Adds f₁ n₁ p.own₁) (h₂ : Adds f₂ n₂ p.own₂) (h₃ : Adds f₃ n₃ p.own₃)
    (hroom : skb.items.length + (n₁ + n₂ + n₃) + (elementBytes els).length ≤ room) :
    ∃ skb', carried f₁ f₂ f₃ p.ids₁ p.ids₂ (elementBytes els) skb = some skb' ∧
      p.Carry els skb.items skb'.items := by
  have hown₁ := h₁.le
  have hown₂ := h₂.le
  have hown₃ := h₃.le
  obtain ⟨skb₁, hput₁, hitems₁⟩ := h₁.exists_put (b := skb) (by omega)
  have hlen₁ := congrArg List.length hitems₁
  rw [List.length_append] at hlen₁
  obtain ⟨els₁, rest, skb₂, rfl, hcut₁, hput₂, hitems₂⟩ := exists_putBefore skb₁ [] els p.ids₁
    (by omega)
  have hlen₂ := congrArg List.length hitems₂
  rw [elementBytes_append, List.length_append] at hroom
  rw [List.length_append] at hlen₂
  obtain ⟨skb₃, hput₃, hitems₃⟩ := h₂.exists_put (b := skb₂) (by omega)
  have hlen₃ := congrArg List.length hitems₃
  rw [List.length_append] at hlen₃
  obtain ⟨els₂, els₃, skb₄, rfl, hcut₂, hput₄, hitems₄⟩ := exists_putBefore skb₃
    (elementBytes els₁) rest p.ids₂ (by omega)
  have hlen₄ := congrArg List.length hitems₄
  rw [elementBytes_append, List.length_append] at hroom
  rw [List.length_append] at hlen₄
  obtain ⟨skb₅, hput₅, hitems₅⟩ := h₃.exists_put (b := skb₄) (by omega)
  have hlen₅ := congrArg List.length hitems₅
  rw [List.length_append] at hlen₅
  obtain ⟨skb₆, hput₆, hitems₆⟩ := exists_putRest skb₅
    (elementBytes els₁ ++ elementBytes els₂) els₃ (by omega)
  have hfirst : elementBytes els₁ ++ elementBytes (els₂ ++ els₃) =
      elementBytes (els₁ ++ (els₂ ++ els₃)) := (elementBytes_append _ _).symm
  have hsecond : elementBytes els₁ ++ elementBytes els₂ ++ elementBytes els₃ =
      elementBytes (els₁ ++ (els₂ ++ els₃)) := by
    rw [List.append_assoc, ← elementBytes_append, hfirst]
  rw [hfirst] at hcut₂ hput₄
  rw [hsecond] at hput₆
  refine ⟨skb₆, ?_, els₁, els₂, els₃, rfl, hcut₁, hcut₂, ?_⟩
  · simp only [List.nil_append, List.length_nil] at hput₂
    simp only [carried, hput₁, hput₂, hput₃, hput₄, hput₅, hput₆, Option.bind_eq_bind,
      Option.bind_some]
  · rw [hitems₆, hitems₅, hitems₄, hitems₃, hitems₂, hitems₁]
    simp only [List.append_assoc]

/-- A range ends behind an allowed frequency and another one. -/
theorem two_mul_length_subbandLoop (allowed : ℕ → Bool) (start cnt : ℕ) (fs : List ℕ) :
    2 * (subbandLoop allowed start cnt fs).length ≤ fs.length + if cnt = 0 then 1 else 2 := by
  induction fs generalizing start cnt with
  | nil =>
    rw [subbandLoop]
    split_ifs <;> simp
  | cons f fs ih =>
    have hmore := ih (if cnt = 0 then f else start) (cnt + 1)
    have hnone := ih (if cnt = 0 then f else start) 0
    rw [if_neg (Nat.succ_ne_zero cnt)] at hmore
    rw [if_pos rfl] at hnone
    rw [subbandLoop]
    simp only [List.length_cons]
    split_ifs at hmore hnone ⊢ with hcnt hallowed
    · omega
    · omega
    · omega
    · rw [List.length_cons]
      omega

theorem length_suppChannelsIe_le (allowed : ℕ → Bool) : (suppChannelsIe allowed).length ≤ 59 := by
  have hlow := two_mul_length_subbandLoop allowed 0 0
    ((List.range ((2472 - 2412) / 5 + 1)).map fun k => 2412 + 5 * k)
  have hhigh := two_mul_length_subbandLoop allowed 0 0
    ((List.range ((5825 - 5000) / 20 + 1)).map fun k => 5000 + 20 * k)
  rw [if_pos rfl, List.length_map, List.length_range] at hlow hhigh
  have hranges : ∀ rs : List (ℕ × ℕ), (rs.flatMap fun r =>
      [BitVec.ofNat 8 (freqToChn r.1), BitVec.ofNat 8 r.2]).length = 2 * rs.length := by
    intro rs
    induction rs with
    | nil => rfl
    | cons r rs ih =>
      rw [List.flatMap_cons, List.length_append, ih, List.length_cons]
      simp only [List.length_cons, List.length_nil]
      omega
  rw [suppChannelsIe]
  simp only [List.length_cons, hranges, List.length_append, addSubband]
  omega

theorem adds_wmm {ie : List (BitVec 8)} (h : ie.length ≤ 26) :
    Adds (fun skb : Growing (BitVec 8) room => addWmmIe ie skb) 26 ie :=
  .putWithin h

theorem adds_rates (room : ℕ) (band : Band) :
    Adds (fun skb : Growing (BitVec 8) room => addSratesIe false (bandRates band) skb) 10
      (sratesIe false (bandRates band)) ∧
    Adds (fun skb : Growing (BitVec 8) room => addExtSratesIe false (bandRates band) skb) 6
      (extSratesIe false (bandRates band)) := by
  cases band
  · exact ⟨.putWithin (by decide), .putWithin (by decide)⟩
  · exact ⟨.putWithin (by decide), (Adds.putWithin (by decide)).mono (by decide)⟩
  · exact ⟨.putWithin (by decide), (Adds.putWithin (by decide)).mono (by decide)⟩

theorem length_operClassesIe_le (ch : TdlsChannel) : (operClassesIe ch).length ≤ 4 := by
  rw [operClassesIe]
  split
  · exact Nat.zero_le _
  · exact le_rfl

/-- The octets of an element that is put at once. -/
theorem adds_put {x : List (BitVec 8)} {n : ℕ} (h : x.length ≤ n) :
    Adds (fun skb : Growing (BitVec 8) room => skb.put x) n x :=
  (Adds.put x).mono h

theorem exists_startIes {env : TdlsEnv} {r : TdlsRequest} {ch : TdlsChannel}
    (hch : env.channel = some ch) (hies : r.ies = elementBytes els)
    (hroom : skb.items.length + 135 + (elementBytes els).length ≤ room) :
    ∃ skb', addSetupStartIes env r skb = some skb' ∧
      (startParts env r ch).Carry els skb.items skb'.items := by
  obtain ⟨hbss, hband⟩ := Option.filter_eq_some_iff.mp hch
  obtain ⟨hrates, hext⟩ := adds_rates room ch.band
  have h₁ := hrates.bind (hext.bind (adds_put (length_suppChannelsIe_le env.allowed)))
  have hwmm : Adds (fun skb : Growing (BitVec 8) room =>
      if r.action = .discoverRes then some skb else addWmmIe wmmInfoIe skb) 26
      (if r.action = .discoverRes then [] else wmmInfoIe) := by
    split_ifs
    · exact Adds.nothing.mono (Nat.zero_le _)
    · exact adds_wmm (by decide)
  have h₂ := (adds_put (x := extCapabIe env) (n := 10) le_rfl).bind hwmm
  have hlink : Adds (fun skb : Growing (BitVec 8) room => skb.put (linkIe env r)) 20
      (linkIe env r) := adds_put le_rfl
  have h₃ := (adds_put (length_operClassesIe_le ch)).bind hlink
  obtain ⟨skb', hrun, hcarry⟩ := exists_carried (startParts env r ch) skb els h₁ h₂ h₃ (by omega)
  refine ⟨skb', ?_, hcarry⟩
  rw [← hrun, addSetupStartIes, hbss]
  simp only [hband, if_true, carried, hies, startParts, Option.bind_eq_bind, Option.bind_assoc]

theorem exists_confirmIes {env : TdlsEnv} {r : TdlsRequest} {ch : TdlsChannel}
    (hch : env.channel = some ch) (hies : r.ies = elementBytes els)
    (hroom : skb.items.length + 135 + (elementBytes els).length ≤ room) :
    ∃ skb', addSetupCfmIes env r skb = some skb' ∧
      (confirmParts env r).Carry els skb.items skb'.items := by
  obtain ⟨hbss, hband⟩ := Option.filter_eq_some_iff.mp hch
  have h₂ : Adds (fun skb : Growing (BitVec 8) room =>
      if r.peerCap &&& SKW_TDLS_PEER_WMM = 0 then some skb else addWmmIe (wmmParamIe env) skb) 26
      (confirmParts env r).own₂ := by
    rw [confirmParts]
    split_ifs
    · exact Adds.nothing.mono (Nat.zero_le _)
    · exact adds_wmm (by simp [wmmParamIe, Fixed.length_cells])
  have h₃ : Adds (fun skb : Growing (BitVec 8) room => skb.put (linkIe env r)) 20
      (linkIe env r) := adds_put le_rfl
  obtain ⟨skb', hrun, hcarry⟩ := exists_carried (confirmParts env r) skb els Adds.nothing h₂ h₃
    (by omega)
  refine ⟨skb', ?_, hcarry⟩
  rw [← hrun, addSetupCfmIes, hbss]
  simp only [hband, if_true, carried, hies, confirmParts, Option.bind_eq_bind, Option.bind_some]

theorem carry_nothing (front : List (BitVec 8)) :
    (⟨[], [], [], [], []⟩ : TdlsParts).Carry [] front front :=
  ⟨[], [], [], rfl, rfl, rfl, (List.append_nil front).symm⟩

theorem addSetupStartIes_of_none {env : TdlsEnv} {r : TdlsRequest} (h : env.channel = none) :
    addSetupStartIes env r skb = some skb := by
  rw [addSetupStartIes]
  cases hbss : env.bssChannel with
  | none => rfl
  | some ch =>
    have hband : ¬env.hasBand ch.band = true := by
      rw [TdlsEnv.channel, hbss] at h
      simpa using h
    simp only [if_neg hband]

theorem addSetupCfmIes_of_none {env : TdlsEnv} {r : TdlsRequest} (h : env.channel = none)
    (hbss : env.bssChannel.isSome = true) : addSetupCfmIes env r skb = some skb := by
  obtain ⟨ch, hch⟩ := Option.isSome_iff_exists.mp hbss
  have hband : ¬env.hasBand ch.band = true := by
    rw [TdlsEnv.channel, hch] at h
    simpa using h
  rw [addSetupCfmIes, hch]
  simp only [Option.bind_eq_bind, Option.bind_some, if_neg hband]

theorem tdlsAddIes_setup (env : TdlsEnv) (s : TdlsSetup) (skb : Growing (BitVec 8) room) :
    tdlsAddIes env s.toRequest skb =
      if s.action = .confirm then addSetupCfmIes env s.toRequest skb
      else addSetupStartIes env s.toRequest skb := by
  obtain ⟨action, peer, dialogToken, peerCap, initiator, els⟩ := s
  cases action <;> rfl

/-- The elements of a setup go behind the fields where there is room. -/
theorem exists_addIes (env : TdlsEnv) (s : TdlsSetup) (skb : Growing (BitVec 8) room)
    (hbss : s.action = .confirm → env.bssChannel.isSome = true)
    (hels : s.els ≠ [] → env.channel.isSome = true)
    (hroom : skb.items.length + 135 + (elementBytes s.els).length ≤ room) :
    ∃ skb', tdlsAddIes env s.toRequest skb = some skb' ∧
      (s.parts env).Carry s.els skb.items skb'.items := by
  rw [tdlsAddIes_setup, TdlsSetup.parts]
  cases hch : env.channel with
  | none =>
    have hnil : s.els = [] := by
      by_contra hne
      rw [hch] at hels
      cases hels hne
    refine ⟨skb, ?_, ?_⟩
    · split_ifs with haction
      · exact addSetupCfmIes_of_none hch (hbss haction)
      · exact addSetupStartIes_of_none hch
    · rw [hnil]
      exact carry_nothing _
  | some ch =>
    simp only
    split_ifs with haction
    · exact exists_confirmIes hch rfl hroom
    · exact exists_startIes hch rfl hroom

theorem length_head_le (env : TdlsEnv) (s : TdlsSetup) : (s.head env).length ≤ 29 := by
  obtain ⟨action, peer, dialogToken, peerCap, initiator, els⟩ := s
  cases action
  · exact (by decide : 20 ≤ 29)
  · exact (by decide : 22 ≤ 29)
  · exact (by decide : 20 ≤ 29)
  · exact (by decide : 29 ≤ 29)

theorem length_head_pos (env : TdlsEnv) (s : TdlsSetup) : 0 < (s.head env).length := by
  obtain ⟨action, peer, dialogToken, peerCap, initiator, els⟩ := s
  cases action <;> exact Nat.succ_pos _

/-- The frame of a setup in a buffer of the size that is computed for it. -/
theorem exists_frame (env : TdlsEnv) (s : TdlsSetup)
    (hfits : tdlsNeeds env.headroom (elementBytes s.els).length < 2 ^ 32)
    (hbss : s.action = .confirm → env.bssChannel.isSome = true)
    (hels : s.els ≠ [] → env.channel.isSome = true) :
    ∃ skb skb' : Growing (BitVec 8) (tdlsRoom env s.toRequest),
      (Growing.empty _).put (s.head env) = some skb ∧
      tdlsAddIes env s.toRequest skb = some skb' ∧
      (s.parts env).Carry s.els (s.head env) skb'.items := by
  have hhead := length_head_le env s
  have hroom : tdlsRoom env s.toRequest = 259 + (elementBytes s.els).length := by
    have hies : s.toRequest.ies = elementBytes s.els := rfl
    rw [tdlsRoom, hies, Nat.mod_eq_of_lt hfits, tdlsNeeds]
    omega
  obtain ⟨skb, hput, hitems⟩ := Growing.exists_put (s := s.head env)
    (b := Growing.empty (tdlsRoom env s.toRequest)) (by rw [hroom, Growing.empty]; simp; omega)
  rw [Growing.empty, List.nil_append] at hitems
  obtain ⟨skb', hadd, hcarry⟩ := exists_addIes env s skb hbss hels (by rw [hitems, hroom]; omega)
  rw [hitems] at hcarry
  exact ⟨skb, skb', hput, hadd, hcarry⟩

/-- A setup is sent as an encapsulated frame, which is queued. -/
theorem tdlsBuildSendMgmt_setup {env : TdlsEnv} {s : TdlsSetup} (halloc : env.alloc = true)
    (haction : s.action ≠ .discoverRes) : tdlsBuildSendMgmt env s.toRequest =
      ((Growing.empty (tdlsRoom env s.toRequest)).put (s.head env)).bind fun skb =>
        (tdlsAddIes env s.toRequest skb).bind fun skb =>
          some ⟨env.xmitRet, some skb.items, [skb.items], []⟩ := by
  rw [tdlsBuildSendMgmt, if_pos halloc]
  obtain ⟨action, peer, dialogToken, peerCap, initiator, els⟩ := s
  cases action with
  | request => rw [TdlsSetup.head, ← Growing.put_put, Option.bind_assoc]; rfl
  | response => rw [TdlsSetup.head, ← Growing.put_put, Option.bind_assoc]; rfl
  | confirm => rw [TdlsSetup.head, ← Growing.put_put, Option.bind_assoc]; rfl
  | discoverRes => exact absurd rfl haction

/-- A discovery response is copied into a command; its buffer is neither queued nor freed. -/
theorem tdlsBuildSendMgmt_discoverRes {env : TdlsEnv} {s : TdlsSetup} (halloc : env.alloc = true)
    (haction : s.action = .discoverRes) : tdlsBuildSendMgmt env s.toRequest =
      ((Growing.empty (tdlsRoom env s.toRequest)).put (s.head env)).bind fun skb =>
        (tdlsAddIes env s.toRequest skb).bind fun skb =>
          if env.paramAlloc then some ⟨env.cmdRet, some skb.items, [], [tdlsTxParam skb.items]⟩
          else some ⟨- ENOMEM, some skb.items, [], []⟩ := by
  rw [tdlsBuildSendMgmt, if_pos halloc]
  obtain ⟨action, peer, dialogToken, peerCap, initiator, els⟩ := s
  subst haction
  rw [TdlsSetup.head, ← Growing.put_put, Option.bind_assoc]
  rfl

theorem TdlsParts.Carry.length_le {p : TdlsParts} {front frame : List (BitVec 8)}
    (h : p.Carry els front frame) : front.length + (elementBytes els).length ≤ frame.length := by
  obtain ⟨els₁, els₂, els₃, rfl, -, -, rfl⟩ := h
  simp only [elementBytes_append, List.length_append]
  omega

/-- What a setup that is sent has met. -/
theorem sent_setup {env : TdlsEnv} {s : TdlsSetup} (halloc : env.alloc = true)
    (haction : s.action ≠ .discoverRes) (h : s.Sent env (tdlsBuildSendMgmt env s.toRequest)) :
    ∃ skb skb' : Growing (BitVec 8) (tdlsRoom env s.toRequest),
      skb.items = s.head env ∧ tdlsAddIes env s.toRequest skb = some skb' ∧
      (s.parts env).Carry s.els (s.head env) skb'.items := by
  obtain ⟨res, hres, hframe⟩ := h
  rw [tdlsBuildSendMgmt_setup halloc haction] at hres
  obtain ⟨skb, hput, hres⟩ := Option.bind_eq_some_iff.mp hres
  obtain ⟨skb', hadd, hres⟩ := Option.bind_eq_some_iff.mp hres
  cases hres
  have hitems := Growing.items_of_put hput
  rw [Growing.empty, List.nil_append] at hitems
  exact ⟨skb, skb', hitems, hadd, (hframe _ rfl).1⟩

theorem not_sent_discoverRes {env : TdlsEnv} {s : TdlsSetup} (halloc : env.alloc = true)
    (haction : s.action = .discoverRes) : ¬s.Sent env (tdlsBuildSendMgmt env s.toRequest) := by
  rintro ⟨res, hres, hframe⟩
  rw [tdlsBuildSendMgmt_discoverRes halloc haction] at hres
  obtain ⟨skb, -, hres⟩ := Option.bind_eq_some_iff.mp hres
  obtain ⟨skb', -, hres⟩ := Option.bind_eq_some_iff.mp hres
  split_ifs at hres
  · cases hres
    cases (hframe _ rfl).2.2
  · cases hres
    cases (hframe _ rfl).2.2

/-- The frame of a discovery response is as it should be, and its buffer is left behind. -/
theorem discoverRes_left (env : TdlsEnv) (s : TdlsSetup) (halloc : env.alloc = true)
    (haction : s.action = .discoverRes)
    (hfits : tdlsNeeds env.headroom (elementBytes s.els).length < 2 ^ 32)
    (hels : s.els ≠ [] → env.channel.isSome = true) :
    ∃ res frame, tdlsBuildSendMgmt env s.toRequest = some res ∧ res.skb = some frame ∧
      (s.parts env).Carry s.els (s.head env) frame ∧ frame.length ≤ tdlsRoom env s.toRequest ∧
      res.queued = [] := by
  obtain ⟨skb, skb', hput, hadd, hcarry⟩ := exists_frame env s hfits
    (fun hconfirm => by rw [haction] at hconfirm; cases hconfirm) hels
  rw [tdlsBuildSendMgmt_discoverRes halloc haction, hput, Option.bind_some, hadd, Option.bind_some]
  split_ifs
  · exact ⟨_, skb'.items, rfl, rfl, hcarry, skb'.length_le, rfl⟩
  · exact ⟨_, skb'.items, rfl, rfl, hcarry, skb'.length_le, rfl⟩

/-- The room is too small where the sum for it wraps. -/
theorem tdlsNeeds_lt_of_carry {env : TdlsEnv} {s : TdlsSetup}
    {skb : Growing (BitVec 8) (tdlsRoom env s.toRequest)} {p : TdlsParts}
    (h : p.Carry s.els (s.head env) skb.items) :
    tdlsNeeds env.headroom (elementBytes s.els).length < 2 ^ 32 := by
  by_contra hwraps
  have hhead := length_head_pos env s
  have hcarried := h.length_le
  have hroom := skb.length_le
  have hvalue : tdlsRoom env s.toRequest =
      tdlsNeeds env.headroom (elementBytes s.els).length % 2 ^ 32 - env.headroom := rfl
  have hmod := Nat.mod_le (tdlsNeeds env.headroom (elementBytes s.els).length - 2 ^ 32) (2 ^ 32)
  rw [← Nat.mod_eq_sub_mod (not_lt.mp hwraps)] at hmod
  have hsum : tdlsNeeds env.headroom (elementBytes s.els).length =
      env.headroom + 259 + (elementBytes s.els).length := by
    rw [tdlsNeeds]
    omega
  omega

/-- A setup is sent with the caller's elements exactly when it is not a discovery response, the sum
for its buffer does not wrap, and the BSS has a channel. -/
theorem tdlsSetup_sent_iff (env : TdlsEnv) (s : TdlsSetup) :
    s.Sent env (tdlsBuildSendMgmt env s.toRequest) ↔
      (env.alloc = true → s.action ≠ .discoverRes ∧
        tdlsNeeds env.headroom (elementBytes s.els).length < 2 ^ 32 ∧
        (s.action = .confirm → env.bssChannel.isSome = true) ∧
        (s.els ≠ [] → env.channel.isSome = true)) := by
  constructor
  · intro hsent halloc
    have haction : s.action ≠ .discoverRes := fun h => not_sent_discoverRes halloc h hsent
    obtain ⟨skb, skb', hhead, hadd, hcarry⟩ := sent_setup halloc haction hsent
    have hbss : s.action = .confirm → env.bssChannel.isSome = true := by
      intro hconfirm
      by_contra hnone
      rw [Option.not_isSome_iff_eq_none] at hnone
      rw [tdlsAddIes_setup, if_pos hconfirm, addSetupCfmIes, hnone] at hadd
      cases hadd
    refine ⟨haction, tdlsNeeds_lt_of_carry hcarry, hbss, ?_⟩
    intro hne
    by_contra hnone
    rw [Option.not_isSome_iff_eq_none] at hnone
    have hsame : tdlsAddIes env s.toRequest skb = some skb := by
      rw [tdlsAddIes_setup]
      split_ifs with hconfirm
      · exact addSetupCfmIes_of_none hnone (hbss hconfirm)
      · exact addSetupStartIes_of_none hnone
    obtain rfl : skb = skb' := Option.some.inj (hsame.symm.trans hadd)
    have hle := hcarry.length_le
    rw [hhead] at hle
    have hnil : elementBytes s.els = [] := List.eq_nil_of_length_eq_zero (by omega)
    exact hne (elementBytes_eq_nil_iff.mp hnil)
  · intro h
    by_cases halloc : env.alloc = true
    · obtain ⟨haction, hfits, hbss, hels⟩ := h halloc
      obtain ⟨skb, skb', hput, hadd, hcarry⟩ := exists_frame env s hfits hbss hels
      refine ⟨⟨env.xmitRet, some skb'.items, [skb'.items], []⟩, ?_, ?_⟩
      · rw [tdlsBuildSendMgmt_setup halloc haction, hput, Option.bind_some, hadd, Option.bind_some]
      · intro frame hframe
        cases hframe
        exact ⟨hcarry, skb'.length_le, rfl⟩
    · refine ⟨⟨- ENOMEM, none, [], []⟩, ?_, ?_⟩
      · rw [tdlsBuildSendMgmt, if_neg halloc]
      · intro frame hframe
        cases hframe

end

/-- A station on channel 6. -/
def tdlsStation : TdlsEnv where
  headroom := 128
  devAddr := 0x020000000001
  ifaceAddr := 0x020000000001
  bssid := 0x020000000002
  bssChannel := some ⟨.band2ghz, 2437⟩
  hasBand _ := true
  allowed _ := true
  chanSwitch := false
  acParams := Fixed.fill 16 0
  stale := (0, 0)
  alloc := true
  paramAlloc := true
  xmitRet := 0
  cmdRet := 0

def tdlsDiscovery : TdlsSetup where
  action := .discoverRes
  peer := 0x020000000003
  dialogToken := 1
  peerCap := 0
  initiator := false
  els := []

theorem discovery_not_consumed : ¬tdlsDiscovery.Sent tdlsStation
    (tdlsBuildSendMgmt tdlsStation tdlsDiscovery.toRequest) :=
  not_sent_discoverRes rfl rfl

end Skw
