import Skw.Rx.Replay
import Skw.Sta.Connect

/-! Installing a key: `skw_set_key` puts it into the table before the firmware is told, and
`skw_cmd_add_key` keeps the command back while an access point is not started. -/
namespace Skw

abbrev SKW_MAX_BUF_KEYS : ℕ := 4
abbrev WLAN_MAX_KEY_LEN : ℕ := 32
abbrev SKW_KEY_FLAG_WEP_SHARE : BitVec 8 := 1

/-- A wireless cipher suite selector. -/
def skwSuite (oui id : BitVec 32) : BitVec 32 := (oui <<< 8) ||| id

def cipherSuites : List (BitVec 32 × CipherType) :=
  [(skwSuite 0x000FAC 1, .wep40), (skwSuite 0x000FAC 5, .wep104), (skwSuite 0x001472 1, .sms4),
    (skwSuite 0x000FAC 2, .tkip), (skwSuite 0x000FAC 4, .ccmp), (skwSuite 0x000FAC 10, .ccmp256),
    (skwSuite 0x000FAC 6, .aesCmac), (skwSuite 0x000FAC 13, .bipCmac256),
    (skwSuite 0x000FAC 11, .bipGmac128), (skwSuite 0x000FAC 12, .bipGmac256),
    (skwSuite 0x000FAC 8, .gcmp), (skwSuite 0x000FAC 9, .gcmp256)]

def toSkwCipherType (cipher : BitVec 32) : CipherType :=
  (cipherSuites.lookup cipher).getD .invalid

/-- `enum SKW_KEY_TYPE`. -/
inductive KeyType
  | ptk
  | gtk
  | igtk
  | bigtk
deriving DecidableEq

def toSkwGtk (keyIndex : ℕ) : KeyType :=
  if keyIndex ≤ 3 then .gtk else if keyIndex ≤ 5 then .igtk
  else if keyIndex = 6 then .bigtk else .gtk

/-- `keyData` has the first `key_len` octets. -/
structure SkwKey extends Key where
  keyData : List (BitVec 8)

structure SkwKeyConf where
  skwCipher : CipherType
  installedBitmap : BitVec 8
  flags : BitVec 8
  key : Fin 6 → Option SkwKey

/-- What the receive path reads of a key table. -/
def SkwKeyConf.toKeyConf (conf : SkwKeyConf) : KeyConf :=
  ⟨conf.skwCipher, conf.installedBitmap, fun i => (conf.key i).map (·.toKey)⟩

/-- `struct key_params`: `key` is as long as `key_len` says, and the six octets of `seq` are read
little endian. -/
structure KeyParams where
  cipher : BitVec 32
  key : List (BitVec 8)
  seq : Option (BitVec 48)

/-- The command to add or to delete a key. -/
structure SkwKeyParams where
  macAddr : MacAddr
  keyType : KeyType
  cipherType : CipherType
  pn : List (BitVec 8)
  keyId : Fin 6
  keyLen : ℕ
  key : List (BitVec 8)
deriving DecidableEq

inductive KeyCmd
  | addKey (p : SkwKeyParams)
  | delKey (p : SkwKeyParams)
deriving DecidableEq

/-- What an interface keeps of key commands: those that wait in `buf_keys`, and those that were
sent, the oldest first. -/
structure KeyIface where
  apMode : Bool
  apStarted : Bool
  bufKeys : List SkwKeyParams
  sent : List KeyCmd
deriving DecidableEq

/-- The octets of a key in a command. -/
def keyOctets (key : List (BitVec 8)) : List (BitVec 8) :=
  key ++ List.replicate (WLAN_MAX_KEY_LEN - key.length) 0

def broadcast : MacAddr := BitVec.allOnes 48

/-- Without an address the command is for the broadcast address. -/
def addrOrBroadcast (addr : Option MacAddr) : MacAddr := addr.getD broadcast

/-- `params` of `skw_cmd_add_key`. The two halves of a TKIP key's MIC are swapped unless this is
an access point. -/
def addKeyParams (apMode : Bool) (cipher : CipherType) (keyIdx : Fin 6) (keyType : KeyType)
    (key : List (BitVec 8)) (addr : Option MacAddr) : SkwKeyParams where
  macAddr := addrOrBroadcast addr
  keyType
  cipherType := cipher
  pn :=
    match cipher with
    | .sms4 => [if apMode then 0x37 else 0x36, 0x5c, 0x36, 0x5c, 0x36, 0x5c]
    | _ => [1, 0, 0, 0, 0, 0]
  keyId := keyIdx
  keyLen := key.length
  key :=
    match cipher with
    | .tkip =>
      if apMode then keyOctets (key.take 32)
      else key.take 16 ++ (key.drop 24).take 8 ++ (key.drop 16).take 8
    | _ => keyOctets key

namespace KeyIface

/-- Whether a key waits for the start of the access point. -/
def buffers (iface : KeyIface) : Bool :=
  iface.apMode && iface.bufKeys.length < SKW_MAX_BUF_KEYS && !iface.apStarted

/-- `ret` is the result of the command, if it is sent. -/
def cmdAddKey (iface : KeyIface) (p : SkwKeyParams) (ret : ℤ) : ℤ × KeyIface :=
  if iface.buffers then (0, { iface with bufKeys := iface.bufKeys ++ [p] })
  else (ret, { iface with sent := iface.sent ++ [.addKey p] })

end KeyIface

def keyBit (i : Fin 6) : BitVec 8 := BitVec.twoPow 8 i

namespace SkwKeyConf

/-- A bit of `installed_bitmap`. -/
def installed (conf : SkwKeyConf) (i : Fin 6) : Bool := conf.installedBitmap.getLsbD i

/-- The slot holds the key and its bit is set. -/
def put (conf : SkwKeyConf) (i : Fin 6) (key : SkwKey) : SkwKeyConf :=
  { conf with
    key := Function.update conf.key i (some key)
    installedBitmap := conf.installedBitmap ||| keyBit i }

/-- The slot is empty and its bit is clear. -/
def drop (conf : SkwKeyConf) (i : Fin 6) : SkwKeyConf :=
  { conf with
    key := Function.update conf.key i none
    installedBitmap := conf.installedBitmap &&& ~~~keyBit i }

end SkwKeyConf

/-- The counter of TID 0 stays zero. -/
def newSkwKey (params : KeyParams) : SkwKey where
  rxPn i :=
    match params.seq with
    | some seq => if 1 ≤ i.val then seq else 0
    | none => 0
  keyData := params.key

def CipherType.isWep (cipher : CipherType) : Bool := cipher = .wep40 || cipher = .wep104

/-- `skw_set_key`: its return value, the table and the interface. `alloc` says whether the key is
allocated, and `ret` is the result of the command. -/
def skwSetKey (iface : KeyIface) (conf : SkwKeyConf) (keyIdx : Fin 6) (keyType : KeyType)
    (addr : Option MacAddr) (params : KeyParams) (alloc : Bool) (ret : ℤ) :
    ℤ × SkwKeyConf × KeyIface :=
  let cipher := toSkwCipherType params.cipher
  if cipher = .invalid then (- ENOTSUPP, conf, iface)
  else if alloc = false then (- ENOMEM, conf, iface)
  else
    let conf := { conf with skwCipher := cipher }.put keyIdx (newSkwKey params)
    if cipher.isWep then
      (0, { conf with flags := conf.flags ||| SKW_KEY_FLAG_WEP_SHARE }, iface)
    else
      let r := iface.cmdAddKey (addKeyParams iface.apMode cipher keyIdx keyType params.key addr) ret
      if r.1 ≠ 0 then (r.1, conf.drop keyIdx, r.2) else (0, conf, r.2)

section
variable {iface : KeyIface} {conf : SkwKeyConf} {keyIdx i : Fin 6} {keyType : KeyType}
  {addr : Option MacAddr} {params : KeyParams} {alloc : Bool} {ret : ℤ} {key : SkwKey}

theorem getLsbD_keyBit (i : Fin 6) (k : ℕ) : (keyBit i).getLsbD k = decide (k = i.val) := by
  have hi : i.val < 8 := by omega
  simp only [keyBit, BitVec.getLsbD_twoPow, hi, decide_true, Bool.true_and, eq_comm]

namespace SkwKeyConf

theorem installed_put (conf : SkwKeyConf) (i : Fin 6) (key : SkwKey) (j : Fin 6) :
    (conf.put i key).installed j = (conf.installed j || decide (j = i)) := by
  simp only [installed, put, BitVec.getLsbD_or, getLsbD_keyBit, Fin.ext_iff]

theorem installed_drop (conf : SkwKeyConf) (i j : Fin 6) :
    (conf.drop i).installed j = (conf.installed j && !decide (j = i)) := by
  have hj : j.val < 8 := by omega
  simp only [installed, drop, BitVec.getLsbD_and, BitVec.getLsbD_not, getLsbD_keyBit, hj,
    decide_true, Bool.true_and, Fin.ext_iff]

theorem or_and_not_keyBit (b : BitVec 8) (i : Fin 6) :
    (b ||| keyBit i) &&& ~~~keyBit i = b ↔ b.getLsbD i = false := by
  constructor
  · intro h
    rw [← h]
    have hi : i.val < 8 := by omega
    simp only [BitVec.getLsbD_and, BitVec.getLsbD_or, BitVec.getLsbD_not, getLsbD_keyBit, hi,
      decide_true, Bool.or_true, Bool.not_true, Bool.and_false]
  · intro h
    apply BitVec.eq_of_getLsbD_eq
    intro k hk
    simp only [BitVec.getLsbD_and, BitVec.getLsbD_or, BitVec.getLsbD_not, getLsbD_keyBit, hk,
      decide_true, Bool.true_and]
    by_cases hik : k = i.val
    · simp [hik, h]
    · simp [hik]

/-- Emptying a slot undoes filling it if it was empty, and the cipher is not one of the things
that are undone. -/
theorem drop_put_eq_iff {cipher : CipherType} :
    ({ conf with skwCipher := cipher }.put i key).drop i = conf ↔
      conf.key i = none ∧ conf.installed i = false ∧ conf.skwCipher = cipher := by
  obtain ⟨skwCipher, bitmap, flags, slots⟩ := conf
  simp only [put, drop, mk.injEq, Function.update_idem, or_and_not_keyBit, installed, true_and]
  rw [Function.update_eq_self_iff]
  constructor
  · rintro ⟨rfl, hb, hk⟩
    exact ⟨hk.symm, hb, rfl⟩
  · rintro ⟨hk, hb, rfl⟩
    exact ⟨rfl, hb, hk.symm⟩

end SkwKeyConf

/-- Installing a key is atomic: with an error the table is the old one, and with success only the
slot has changed. -/
structure InstallAtomic (conf : SkwKeyConf) (keyIdx : Fin 6) (params : KeyParams) (ret : ℤ)
    (new : SkwKeyConf) : Prop where
  error : ret ≠ 0 → new = conf
  slot : ret = 0 → (new.key keyIdx).map (·.keyData) = some params.key
  bit : ret = 0 → new.installed keyIdx = true
  others : ret = 0 → ∀ i, i ≠ keyIdx →
    new.key i = conf.key i ∧ new.installed i = conf.installed i

/-- The command to add the key goes to the firmware in the course of `skw_set_key`. -/
def sendsAddKey (iface : KeyIface) (params : KeyParams) (alloc : Bool) : Bool :=
  let cipher := toSkwCipherType params.cipher
  cipher != .invalid && alloc && !cipher.isWep && !iface.buffers

theorem installAtomic_put {cipher : CipherType} {flags : BitVec 8}
    (hkey : key.keyData = params.key) :
    InstallAtomic conf keyIdx params 0
      { { conf with skwCipher := cipher }.put keyIdx key with flags := flags } where
  error h := absurd rfl h
  slot _ := by simp [SkwKeyConf.put, hkey]
  bit _ := by
    change ({ conf with skwCipher := cipher }.put keyIdx key).installed keyIdx = true
    simp [SkwKeyConf.installed_put]
  others _ i hi := by
    constructor
    · exact Function.update_of_ne hi ..
    · change ({ conf with skwCipher := cipher }.put keyIdx key).installed i = _
      rw [SkwKeyConf.installed_put]
      simp [hi, SkwKeyConf.installed]

theorem installAtomic_unchanged (h : ret ≠ 0) : InstallAtomic conf keyIdx params ret conf where
  error _ := rfl
  slot h' := absurd h' h
  bit h' := absurd h' h
  others h' := absurd h' h

/-- The ends of `skw_set_key`: an error before the table is touched, a key in its slot, or a slot
emptied after the command failed. -/
theorem skwSetKey_cases (iface : KeyIface) (conf : SkwKeyConf) (keyIdx : Fin 6) (keyType : KeyType)
    (addr : Option MacAddr) (params : KeyParams) (alloc : Bool) (ret : ℤ) :
    let r := skwSetKey iface conf keyIdx keyType addr params alloc ret
    let put := { conf with skwCipher := toSkwCipherType params.cipher }.put keyIdx
      (newSkwKey params)
    (r.1 ≠ 0 ∧ r.2 = (conf, iface) ∧ sendsAddKey iface params alloc = false) ∨
    (r.1 = 0 ∧ (∃ flags, r.2.1 = { put with flags := flags }) ∧
      (sendsAddKey iface params alloc = true → ret = 0)) ∨
    (r.1 = ret ∧ ret ≠ 0 ∧ r.2.1 = put.drop keyIdx ∧ sendsAddKey iface params alloc = true) := by
  intro r put
  unfold sendsAddKey
  simp only [r, skwSetKey]
  by_cases hc : toSkwCipherType params.cipher = .invalid
  · left
    simp [hc, ENOTSUPP]
  by_cases ha : alloc = false
  · left
    simp [hc, ha, ENOMEM]
  by_cases hw : (toSkwCipherType params.cipher).isWep = true
  · right; left
    rw [if_neg hc, if_neg ha, if_pos hw]
    exact ⟨rfl, ⟨_, rfl⟩, by simp [hw]⟩
  unfold KeyIface.cmdAddKey
  by_cases hb : iface.buffers = true
  · right; left
    rw [if_neg hc, if_neg ha, if_neg hw, if_pos hb]
    exact ⟨rfl, ⟨conf.flags, rfl⟩, by simp [hb]⟩
  · right
    by_cases hr : ret = 0
    · left
      rw [if_neg hc, if_neg ha, if_neg hw, if_neg hb, if_neg (not_not.mpr hr)]
      exact ⟨rfl, ⟨conf.flags, rfl⟩, fun _ => hr⟩
    · right
      simp [hc, ha, hw, hb, hr, put]

/-- What the receive path sees of a table with a new key. -/
theorem toKeyConf_skwSetKey
    (hret : (skwSetKey iface conf keyIdx keyType addr params alloc ret).1 = 0) :
    (skwSetKey iface conf keyIdx keyType addr params alloc ret).2.1.toKeyConf =
      ({ conf with skwCipher := toSkwCipherType params.cipher }.put keyIdx
        (newSkwKey params)).toKeyConf := by
  rcases skwSetKey_cases iface conf keyIdx keyType addr params alloc ret with
    ⟨hr, -, -⟩ | ⟨-, ⟨flags, he⟩, -⟩ | ⟨hr, hne, -, -⟩
  · exact absurd hret hr
  · rw [he]
    rfl
  · exact absurd (hr.symm.trans hret) hne

/-- Installing a key is atomic exactly if the command does not fail, or the slot was empty and the
key has the cipher that the table had before. -/
theorem skwSetKey_atomic_iff (iface : KeyIface) (conf : SkwKeyConf) (keyIdx : Fin 6)
    (keyType : KeyType) (addr : Option MacAddr) (params : KeyParams) (alloc : Bool) (ret : ℤ) :
    InstallAtomic conf keyIdx params
        (skwSetKey iface conf keyIdx keyType addr params alloc ret).1
        (skwSetKey iface conf keyIdx keyType addr params alloc ret).2.1 ↔
      (sendsAddKey iface params alloc = true → ret ≠ 0 →
        conf.key keyIdx = none ∧ conf.installed keyIdx = false ∧
          conf.skwCipher = toSkwCipherType params.cipher) := by
  rcases skwSetKey_cases iface conf keyIdx keyType addr params alloc ret with
    ⟨hr, he, hs⟩ | ⟨hr, ⟨flags, he⟩, hs⟩ | ⟨hr, hne, he, hs⟩
  · rw [he]
    simp [hs, installAtomic_unchanged hr]
  · rw [hr, he]
    constructor
    · intro _ h hne
      exact absurd (hs h) hne
    · intro _
      exact installAtomic_put rfl
  · rw [hr, he]
    constructor
    · intro h _ _
      exact SkwKeyConf.drop_put_eq_iff.mp (h.error hne)
    · intro h
      rw [SkwKeyConf.drop_put_eq_iff.mpr (h hs hne)]
      exact installAtomic_unchanged hne

end

/-- A station between two commands. -/
def staKeyIface : KeyIface := ⟨false, false, [], []⟩

/-- A pairwise CCMP key. -/
def ccmpParams (octet : BitVec 8) (seq : BitVec 48) : KeyParams :=
  ⟨skwSuite 0x000FAC 4, List.replicate 16 octet, some seq⟩

/-- A table without keys. -/
def emptyKeyConf : SkwKeyConf := ⟨.invalid, 0, 0, fun _ => none⟩

/-- A table with one CCMP key. -/
def ccmpConf : SkwKeyConf :=
  ⟨.ccmp, keyBit 0, 0, fun i => if i = 0 then some (newSkwKey (ccmpParams 1 0)) else none⟩

/-- A key that the firmware refuses takes the place of the installed one and is then removed. -/
theorem rekey_refused_loses_key :
    ¬ InstallAtomic ccmpConf 0 (ccmpParams 2 0)
      (skwSetKey staKeyIface ccmpConf 0 .ptk (some 5) (ccmpParams 2 0) true (- EIO)).1
      (skwSetKey staKeyIface ccmpConf 0 .ptk (some 5) (ccmpParams 2 0) true (- EIO)).2.1 := by
  intro h
  have he := congrArg (fun conf => (conf.key 0).isSome) (h.error (by decide))
  revert he
  decide

end Skw
