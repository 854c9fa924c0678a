import Skw.Ap.Start
import Skw.Sta.Connect

/-! The requests of a station that are kept for a retry, in buffers of a fixed size, while the
command itself is built in memory of its own. -/
namespace Skw

/-- `enum nl80211_auth_type`. -/
inductive Nl80211AuthType
  | openSystem
  | sharedKey
  | ft
  | networkEap
  | sae
  | filsSk
  | filsSkPfs
  | filsPk
  | automatic
  | other
deriving DecidableEq

/-- The authentication algorithm of the command. -/
def Nl80211AuthType.authAlg : Nl80211AuthType → Option (BitVec 16)
  | .openSystem | .automatic => some 0
  | .sharedKey => some 1
  | .ft => some 2
  | .networkEap => some 128
  | .sae => some 3
  | .filsSk => some 4
  | .filsSkPfs => some 5
  | .filsPk => some 6
  | .other => none

structure AuthRequest where
  authType : Nl80211AuthType
  authData : Option NlAttr
  ie : Option NlAttr

/-- The payload of an element, whose length is an octet. -/
structure IePayload where
  bytes : List (BitVec 8)
  length_lt : bytes.length < 2 ^ 8

abbrev HtCap := Lib.Fixed (BitVec 8) 26

abbrev VhtCap := Lib.Fixed (BitVec 8) 12

/-- `ssid` is the SSID element that is found in `bss`. -/
structure AssocRequest where
  bssid : MacAddr
  ssid : Option IePayload
  prevBssid : Option MacAddr
  htCapa : HtCap
  htCapaMask : HtCap
  vhtCapa : VhtCap
  vhtCapaMask : VhtCap
  ie : Option NlAttr

/-- cfg80211 hands over keys of WEP only. -/
structure ConnectParams where
  ssid : List (BitVec 8)
  ie : Option NlAttr
  key : List (BitVec 8)
  key_le : key.length ≤ 32

/-- `struct skw_connect_param`. -/
structure SkwConn where
  assocIe : CacheBuf
  assocIeLen : ℕ
  key : Lib.Fixed (BitVec 8) 32
  keyLen : ℕ
  ssid : Lib.Fixed (BitVec 8) IEEE80211_MAX_SSID_LEN
  ssidLen : ℕ

/-- The caches of a station; there is no `conn` with an external SME. -/
structure StaCache where
  state : StaState
  bssid : MacAddr
  ssid : Lib.Fixed (BitVec 8) IEEE80211_MAX_SSID_LEN
  ssidLen : ℕ
  authCmd : CacheBuf
  authCmdLen : ℕ
  assocCmd : CacheBuf
  assocCmdLen : ℕ
  conn : Option SkwConn

/-- What `skw_assoc` meets; `leave` and `unjoin` are the results of the two unjoins, which send no
command where the address has no context. -/
structure AssocMeets where
  leave : Option ℤ
  joinRet : ℤ
  alloc : Bool
  ret : ℤ
  unjoin : Option ℤ

/-- The size of a `struct skw_auth_param`. -/
abbrev authFixed : ℕ := 14

/-- The size of a `struct skw_assoc_req_param`. -/
abbrev assocFixed : ℕ := 54

/-- A part without octets leaves its fields zero. -/
def nonEmpty (a : Option NlAttr) : Option NlAttr := a.filter fun x => !x.bytes.isEmpty

/-- The message of `SKW_CMD_AUTH`. -/
def authParam (alg : BitVec 16) (req : AuthRequest) : List (BitVec 8) :=
  le16 alg ++ (le16 0 ++ le16 0) ++ partFields authFixed (nonEmpty req.authData) ++
    partFields (authFixed + (partBytes req.authData).length) (nonEmpty req.ie) ++
    (partBytes req.authData ++ partBytes req.ie)

/-- The message of `SKW_CMD_ASSOC`. -/
def assocReqParam (req : AssocRequest) : List (BitVec 8) :=
  List.zipWith (· &&& ·) req.htCapa.cells req.htCapaMask.cells ++
    List.zipWith (· &&& ·) req.vhtCapa.cells req.vhtCapaMask.cells ++
    macBytes req.bssid ++ macBytes (req.prevBssid.getD 0) ++
    le16 (BitVec.ofNat 16 assocFixed) ++ le16 (BitVec.ofNat 16 (partBytes req.ie).length) ++
    partBytes req.ie

namespace StaCache

/-- `skw_cmd_auth`; without a value if the copy does not fit. -/
def cmdAuth (s : StaCache) (req : AuthRequest) (alloc : Bool) (ret : ℤ) :
    Option (ℤ × StaCache) :=
  match req.authType.authAlg with
  | none => some (- EOPNOTSUPP, s)
  | some alg =>
    if alloc = false then some (- ENOMEM, s)
    else
      let params := authParam alg req
      (s.authCmd.write 0 params).map fun authCmd =>
        (ret, { s with authCmd, authCmdLen := params.length })

/-- `skw_cmd_assoc`; without a value if the copy does not fit. -/
def cmdAssoc (s : StaCache) (req : AssocRequest) (alloc : Bool) (ret : ℤ) :
    Option (ℤ × StaCache) :=
  if alloc = false then some (- ENOMEM, s)
  else
    let buff := assocReqParam req
    (s.assocCmd.write 0 buff).map fun assocCmd =>
      (ret, { s with assocCmd, assocCmdLen := buff.length })

/-- The copy of the SSID that the BSS has. -/
def copySsid (s : StaCache) (ssid : Option IePayload) : Option StaCache :=
  match ssid with
  | none => some s
  | some x => (s.ssid.write 0 x.bytes).map fun ssid => { s with ssid, ssidLen := x.bytes.length }

/-- What `skw_unjoin` does to the caches. -/
def unjoin (s : StaCache) (ret : Option ℤ) : ℤ × StaCache :=
  match ret with
  | none => (0, s)
  | some r =>
    if r = 0 then (0, { s with bssid := 0, ssid := .fill IEEE80211_MAX_SSID_LEN 0, ssidLen := 0 })
    else (r, s)

/-- What `skw_assoc` does in the state that it needs, or comes to. -/
def assocFrom (s : StaCache) (req : AssocRequest) (e : AssocMeets) : Option (ℤ × StaCache) :=
  (s.copySsid req.ssid).bind fun s =>
  (cmdAssoc { s with state := .associng } req e.alloc e.ret).map fun (ret, s) =>
    if ret = 0 then (0, s)
    else
      let s := (s.unjoin e.unjoin).2
      (ret, { s with state := .none, ssid := .fill IEEE80211_MAX_SSID_LEN 0, ssidLen := 0 })

/-- What `skw_assoc` does while the station is associated. -/
def assocAgain (s : StaCache) (req : AssocRequest) (e : AssocMeets) : Option (ℤ × StaCache) :=
  if s.bssid = req.bssid then some (0, s)
  else
    let u := unjoin { s with state := .none } e.leave
    if u.1 ≠ 0 then some u
    else if e.joinRet ≠ 0 then some (e.joinRet, u.2)
    else assocFrom { u.2 with state := .authed, bssid := req.bssid } req e

/-- `skw_assoc`; without a value if a copy does not fit. -/
def assoc (s : StaCache) (req : AssocRequest) (e : AssocMeets) : Option (ℤ × StaCache) :=
  match s.state with
  | .authing | .associng => some (- EBUSY, s)
  | .assoced | .completed => s.assocAgain req e
  | .authed => s.assocFrom req e
  | .none => some (- EINVAL, s)

/-- `skw_cfg80211_connect`; without a value if a copy does not fit. -/
def connect (s : StaCache) (req : ConnectParams) (ret : ℤ) : Option (ℤ × StaCache) :=
  match s.conn with
  | none => some (- ENOMEM, s)
  | some conn =>
    if IEEE80211_MAX_SSID_LEN < req.ssid.length then some (- EINVAL, s)
    else
      (conn.assocIe.write 0 (partBytes req.ie)).bind fun assocIe =>
      (conn.key.write 0 req.key).bind fun key =>
      (conn.ssid.write 0 req.ssid).map fun ssid =>
        (ret, { s with
          conn := some ⟨assocIe, (partBytes req.ie).length, key, req.key.length, ssid,
            req.ssid.length⟩ })

end StaCache

/-- The calls that keep a request. -/
inductive CacheCall
  | startAp (s : SapSys) (g : SapSettings) (e : StartEnv)
  | changeBeacon (s : SapSys) (bcn : Option BeaconData) (e : BeaconEnv)
  | cmdAuth (s : StaCache) (req : AuthRequest) (alloc : Bool) (ret : ℤ)
  | cmdAssoc (s : StaCache) (req : AssocRequest) (alloc : Bool) (ret : ℤ)
  | assoc (s : StaCache) (req : AssocRequest) (e : AssocMeets)
  | connect (s : StaCache) (req : ConnectParams) (ret : ℤ)

namespace CacheCall

/-- Every copy that the call makes stays inside its buffer. -/
def Inside : CacheCall → Prop
  | .startAp s g e => (s.startAp g e).isSome = true
  | .changeBeacon s bcn e => (s.changeBeacon bcn e).isSome = true
  | .cmdAuth s req alloc ret => (s.cmdAuth req alloc ret).isSome = true
  | .cmdAssoc s req alloc ret => (s.cmdAssoc req alloc ret).isSome = true
  | .assoc s req e => (s.assoc req e).isSome = true
  | .connect s req ret => (s.connect req ret).isSome = true

end CacheCall

/-- `skw_assoc` comes to its copies. -/
def StaCache.Copies (s : StaCache) (req : AssocRequest) (e : AssocMeets) : Prop :=
  s.state = .authed ∨
    (s.state = .assoced ∨ s.state = .completed) ∧ s.bssid ≠ req.bssid ∧ e.leave.getD 0 = 0 ∧
      e.joinRet = 0

/-- The lengths with which the copies of a call have room. -/
def CacheCall.Fits : CacheCall → Prop
  | .startAp s g e => s.CopiesFit g e
  | .changeBeacon s bcn e => ∀ b ∈ bcn, e.alloc = true → s.ProbeFits b
  | .cmdAuth _ req alloc _ =>
    req.authType ≠ .other → alloc = true →
      authFixed + (partBytes req.authData).length + (partBytes req.ie).length ≤ SKW_2K_SIZE
  | .cmdAssoc _ req alloc _ =>
    alloc = true → assocFixed + (partBytes req.ie).length ≤ SKW_2K_SIZE
  | .assoc s req e =>
    s.Copies req e → (∀ x ∈ req.ssid, x.bytes.length ≤ IEEE80211_MAX_SSID_LEN) ∧
      (e.alloc = true → assocFixed + (partBytes req.ie).length ≤ SKW_2K_SIZE)
  | .connect s req _ =>
    s.conn.isSome = true → req.ssid.length ≤ IEEE80211_MAX_SSID_LEN →
      (partBytes req.ie).length ≤ SKW_2K_SIZE

section
variable {s : StaCache} {alg : BitVec 16} {req : AssocRequest} {e : AssocMeets}

theorem length_authParam (alg : BitVec 16) (req : AuthRequest) :
    (authParam alg req).length =
      authFixed + (partBytes req.authData).length + (partBytes req.ie).length := by
  simp only [authParam, List.length_append, length_le16, length_partFields, authFixed]
  omega

theorem length_assocReqParam (req : AssocRequest) :
    (assocReqParam req).length = assocFixed + (partBytes req.ie).length := by
  simp only [assocReqParam, List.length_append, length_le16, List.length_zipWith,
    Lib.Fixed.length_cells, macBytes, List.length_cons, List.length_nil, assocFixed]
  omega

namespace StaCache

theorem isSome_cmdAuth_iff (s : StaCache) (req : AuthRequest) (alloc : Bool) (ret : ℤ) :
    (s.cmdAuth req alloc ret).isSome = true ↔ (CacheCall.cmdAuth s req alloc ret).Fits := by
  unfold cmdAuth CacheCall.Fits
  have halg : req.authType.authAlg = none ↔ req.authType = .other := by
    cases req.authType <;> simp [Nl80211AuthType.authAlg]
  cases ha : req.authType.authAlg with
  | none =>
    have hother := halg.mp ha
    exact iff_of_true rfl fun h => absurd hother h
  | some alg =>
    have hother : req.authType ≠ .other := fun h => by simp [halg.mpr h] at ha
    dsimp only
    cases alloc with
    | false => exact iff_of_true rfl fun _ h => by cases h
    | true =>
      rw [if_neg (by decide), Option.isSome_map, Lib.Fixed.isSome_write_iff, Nat.zero_add,
        length_authParam]
      exact ⟨fun h _ _ => h, fun h => h hother rfl⟩

theorem isSome_cmdAssoc_iff (s : StaCache) (req : AssocRequest) (alloc : Bool) (ret : ℤ) :
    (s.cmdAssoc req alloc ret).isSome = true ↔ (CacheCall.cmdAssoc s req alloc ret).Fits := by
  unfold cmdAssoc CacheCall.Fits
  cases alloc with
  | false => exact iff_of_true rfl fun h => by cases h
  | true =>
    rw [if_neg (by decide), Option.isSome_map, Lib.Fixed.isSome_write_iff, Nat.zero_add,
      length_assocReqParam]
    exact ⟨fun h _ => h, fun h => h rfl⟩

theorem isSome_copySsid_iff (s : StaCache) (ssid : Option IePayload) :
    (s.copySsid ssid).isSome = true ↔ ∀ x ∈ ssid, x.bytes.length ≤ IEEE80211_MAX_SSID_LEN := by
  unfold copySsid
  cases ssid with
  | none => exact iff_of_true rfl fun x hx => by cases hx
  | some x =>
    rw [Option.isSome_map, Lib.Fixed.isSome_write_iff, Nat.zero_add]
    exact ⟨fun h y hy => by cases hy; exact h, fun h => h x rfl⟩

theorem isSome_assocFrom_iff (s : StaCache) (req : AssocRequest) (e : AssocMeets) :
    (s.assocFrom req e).isSome = true ↔
      (∀ x ∈ req.ssid, x.bytes.length ≤ IEEE80211_MAX_SSID_LEN) ∧
        (e.alloc = true → assocFixed + (partBytes req.ie).length ≤ SKW_2K_SIZE) := by
  rw [← s.isSome_copySsid_iff]
  unfold assocFrom
  cases s.copySsid req.ssid with
  | none => simp
  | some t =>
    rw [Option.bind_some, Option.isSome_map, isSome_cmdAssoc_iff]
    exact ⟨fun h => ⟨rfl, h⟩, fun h => h.2⟩

theorem unjoin_fst (s : StaCache) (ret : Option ℤ) : (s.unjoin ret).1 = ret.getD 0 := by
  cases ret with
  | none => rfl
  | some r =>
    rw [unjoin]
    split_ifs with h
    · exact h.symm
    · rfl

theorem isSome_assocAgain_iff (s : StaCache) (req : AssocRequest) (e : AssocMeets) :
    (s.assocAgain req e).isSome = true ↔
      (s.bssid ≠ req.bssid ∧ e.leave.getD 0 = 0 ∧ e.joinRet = 0 →
        (∀ x ∈ req.ssid, x.bytes.length ≤ IEEE80211_MAX_SSID_LEN) ∧
          (e.alloc = true → assocFixed + (partBytes req.ie).length ≤ SKW_2K_SIZE)) := by
  unfold assocAgain
  dsimp only
  rw [unjoin_fst]
  split_ifs with hbssid hret hjoin
  · exact iff_of_true rfl fun h => absurd hbssid h.1
  · exact iff_of_true rfl fun h => absurd h.2.1 hret
  · exact iff_of_true rfl fun h => absurd h.2.2 hjoin
  · rw [isSome_assocFrom_iff]
    exact ⟨fun h _ => h, fun h => h ⟨hbssid, not_not.mp hret, not_not.mp hjoin⟩⟩

/-- An association comes to its copies from the state that it needs, or after another access point
was left. -/
theorem isSome_assoc_iff (s : StaCache) (req : AssocRequest) (e : AssocMeets) :
    (s.assoc req e).isSome = true ↔ (CacheCall.assoc s req e).Fits := by
  change _ ↔ (s.Copies req e → _)
  unfold assoc Copies
  cases s.state with
  | authing => exact iff_of_true rfl fun h => by simp at h
  | associng => exact iff_of_true rfl fun h => by simp at h
  | none => exact iff_of_true rfl fun h => by simp at h
  | authed => exact (s.isSome_assocFrom_iff req e).trans ⟨fun h _ => h, fun h => h (.inl rfl)⟩
  | assoced => exact (s.isSome_assocAgain_iff req e).trans (by simp)
  | completed => exact (s.isSome_assocAgain_iff req e).trans (by simp)

theorem isSome_connect_iff (s : StaCache) (req : ConnectParams) (ret : ℤ) :
    (s.connect req ret).isSome = true ↔ (CacheCall.connect s req ret).Fits := by
  change _ ↔ (s.conn.isSome = true → _)
  unfold connect
  cases s.conn with
  | none => exact iff_of_true rfl fun h => by cases h
  | some conn =>
    dsimp only
    by_cases hssid : req.ssid.length ≤ IEEE80211_MAX_SSID_LEN
    · rw [if_neg (Nat.not_lt.mpr hssid)]
      obtain ⟨key, hkey⟩ := conn.key.exists_write (i := 0) ((Nat.zero_add _).trans_le req.key_le)
      obtain ⟨ssid, hw⟩ := conn.ssid.exists_write (i := 0) ((Nat.zero_add _).trans_le hssid)
      have hie := Lib.Fixed.isSome_write_iff (b := conn.assocIe) (i := 0) (s := partBytes req.ie)
      rw [Nat.zero_add] at hie
      simp only [hkey, hw, Option.bind_some, Option.map_some]
      rw [← hie]
      cases conn.assocIe.write 0 (partBytes req.ie) with
      | none => exact iff_of_false Bool.false_ne_true fun h => Bool.false_ne_true (h rfl hssid)
      | some assocIe => exact iff_of_true rfl fun _ _ => rfl
    · rw [if_pos (Nat.lt_of_not_le hssid)]
      exact iff_of_true rfl fun _ h => absurd h hssid

end StaCache

/-- Every copy of a call stays inside its buffer exactly if the lengths fit. -/
theorem CacheCall.inside_iff_fits (c : CacheCall) : c.Inside ↔ c.Fits := by
  cases c with
  | startAp s g e => exact s.isSome_startAp_iff g e
  | changeBeacon s bcn e => exact s.isSome_changeBeacon_iff bcn e
  | cmdAuth s req alloc ret => exact s.isSome_cmdAuth_iff req alloc ret
  | cmdAssoc s req alloc ret => exact s.isSome_cmdAssoc_iff req alloc ret
  | assoc s req e => exact s.isSome_assoc_iff req e
  | connect s req ret => exact s.isSome_connect_iff req ret

end

/-- A station with its own SME, before it connects. -/
def idleStation : StaCache where
  state := .none
  bssid := 0
  ssid := .fill _ 0
  ssidLen := 0
  authCmd := .fill _ 0
  authCmdLen := 0
  assocCmd := .fill _ 0
  assocCmdLen := 0
  conn := some ⟨.fill _ 0, 0, .fill _ 0, 0, .fill _ 0, 0⟩

/-- The elements of a request to connect, of a size that netlink lets pass. -/
def longElements : NlAttr := ⟨List.replicate 2200 0, by rw [List.length_replicate]; decide⟩

/-- The elements of the request leave `assoc_ie`. -/
theorem long_connect_leaves_buffer :
    ¬ (CacheCall.connect idleStation ⟨[65], some longElements, [], by decide⟩ 0).Inside := by
  intro h
  have hfits := (StaCache.isSome_connect_iff _ _ _).mp h
  have hle : (partBytes (some longElements)).length ≤ SKW_2K_SIZE := hfits rfl (by decide)
  change (List.replicate 2200 _).length ≤ SKW_2K_SIZE at hle
  rw [List.length_replicate] at hle
  exact absurd hle (by decide)

end Skw
