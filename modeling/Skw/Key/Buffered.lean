import Skw.Key.Conf
import Skw.Lib.Deferred
import Skw.Lib.Machine

/-! Keys that are added before the access point starts. `skw_cmd_add_key` keeps the first commands
back, `skw_del_key` sends its command at once, and `skw_cfg80211_start_ap` sends what was kept back
without a look at the key tables. -/
namespace Skw

/-- The key tables of a peer. -/
structure PeerKeys where
  ptkConf : SkwKeyConf
  gtkConf : SkwKeyConf

/-- An interface with its key tables. The broadcast address is not that of a peer. -/
structure KeySys where
  iface : KeyIface
  staMode : Bool
  bssid : MacAddr
  keyConf : SkwKeyConf
  peer : MacAddr → Option PeerKeys
  unicast : peer broadcast = none

/-- A table of the host: that of the interface, or one of a peer's two. -/
inductive KeyTable
  | iface
  | ptk (a : MacAddr)
  | gtk (a : MacAddr)
deriving DecidableEq

/-- The table that a call is about. -/
def keyTable (pairwise : Bool) (addr : Option MacAddr) : KeyTable :=
  match addr with
  | none => .iface
  | some a => if pairwise then .ptk a else .gtk a

/-- What tells the firmware's keys apart. -/
structure KeyId where
  keyType : KeyType
  keyId : Fin 6
  macAddr : MacAddr
deriving DecidableEq

/-- The table for the keys of this type and address, if there is one for this index. -/
def KeyId.table (id : KeyId) : Option KeyTable :=
  if id.keyType = .ptk then
    if id.macAddr = broadcast then none else some (.ptk id.macAddr)
  else if id.keyType = toSkwGtk id.keyId then
    some (if id.macAddr = broadcast then .iface else .gtk id.macAddr)
  else none

inductive KeyCall
  | addKey (keyIdx : Fin 6) (pairwise : Bool) (addr : Option MacAddr) (params : KeyParams)
    (alloc : Bool)
  | delKey (keyIdx : ℕ) (pairwise : Bool) (addr : Option MacAddr)

def keyTypeOf (pairwise : Bool) (keyIdx : ℕ) : KeyType :=
  if pairwise then .ptk else toSkwGtk keyIdx

/-- `skw_cmd_del_key`. -/
def delKeyParams (keyIdx : Fin 6) (keyType : KeyType) (cipher : CipherType)
    (addr : Option MacAddr) : SkwKeyParams :=
  ⟨addrOrBroadcast addr, keyType, cipher, List.replicate 6 0, keyIdx, 0, List.replicate 32 0⟩

/-- The three flags of WEP keys. -/
def clearWepFlags (flags : BitVec 8) : BitVec 8 :=
  if flags &&& SKW_KEY_FLAG_WEP_SHARE ≠ 0 then flags &&& ~~~(7 : BitVec 8) else flags

/-- `skw_remove_key`, which does not look at the result of the command. -/
def skwRemoveKey (iface : KeyIface) (conf : SkwKeyConf) (keyIdx : Fin 6) (keyType : KeyType)
    (addr : Option MacAddr) : SkwKeyConf × KeyIface :=
  ({ conf.drop keyIdx with flags := clearWepFlags conf.flags },
    if conf.installed keyIdx then
      { iface with
        sent := iface.sent ++ [.delKey (delKeyParams keyIdx keyType conf.skwCipher addr)] }
    else iface)

namespace KeySys

def conf (s : KeySys) : KeyTable → Option SkwKeyConf
  | .iface => some s.keyConf
  | .ptk a => (s.peer a).map (·.ptkConf)
  | .gtk a => (s.peer a).map (·.gtkConf)

/-- A peer that is there gets other tables. -/
def mapPeer (s : KeySys) (a : MacAddr) (f : PeerKeys → PeerKeys) : KeySys :=
  { s with
    peer := Function.update s.peer a ((s.peer a).map f)
    unicast := by
      rw [Function.update_apply]
      split
      · next h => rw [← h, s.unicast]; rfl
      · exact s.unicast }

def setConf (s : KeySys) (t : KeyTable) (conf : SkwKeyConf) : KeySys :=
  match t with
  | .iface => { s with keyConf := conf }
  | .ptk a => s.mapPeer a fun p => { p with ptkConf := conf }
  | .gtk a => s.mapPeer a fun p => { p with gtkConf := conf }

def setIface (s : KeySys) (iface : KeyIface) : KeySys := { s with iface }

/-- `skw_add_key`. -/
def addKey (s : KeySys) (keyIdx : Fin 6) (pairwise : Bool) (addr : Option MacAddr)
    (params : KeyParams) (alloc : Bool) (ret : ℤ) : ℤ × KeySys :=
  match s.conf (keyTable pairwise addr) with
  | none => (- ENOLINK, s)
  | some conf =>
    let mac := if addr = none ∧ s.iface.apMode = false then some s.bssid else addr
    let r := skwSetKey s.iface conf keyIdx (keyTypeOf pairwise keyIdx) mac params alloc ret
    (r.1, (s.setConf (keyTable pairwise addr) r.2.1).setIface r.2.2)

/-- `skw_del_key`. -/
def delKey (s : KeySys) (keyIdx : ℕ) (pairwise : Bool) (addr : Option MacAddr) : ℤ × KeySys :=
  if h : keyIdx < 6 then
    match s.conf (keyTable pairwise addr) with
    | none => (0, s)
    | some conf =>
      let mac := if addr = none ∧ s.staMode then some s.bssid else addr
      let r := skwRemoveKey s.iface conf ⟨keyIdx, h⟩ (keyTypeOf pairwise keyIdx) mac
      (0, (s.setConf (keyTable pairwise addr) r.1).setIface r.2)
  else (- EINVAL, s)

/-- The end of `skw_cfg80211_start_ap`. -/
def startAp (s : KeySys) : KeySys :=
  s.setIface
    { s.iface with
      sent := s.iface.sent ++ s.iface.bufKeys.map .addKey
      bufKeys := []
      apStarted := true }

/-- Every command is acknowledged. -/
def call (s : KeySys) : KeyCall → KeySys
  | .addKey keyIdx pairwise addr params alloc => (s.addKey keyIdx pairwise addr params alloc 0).2
  | .delKey keyIdx pairwise addr => (s.delKey keyIdx pairwise addr).2

def run (s : KeySys) (calls : List KeyCall) : KeySys := calls.foldl call s

/-- The key of the host's tables that has this identity. -/
def hostKey (s : KeySys) (id : KeyId) : Option (List (BitVec 8)) :=
  id.table.bind fun t => (s.conf t).bind fun conf => (conf.key id.keyId).map (·.keyData)

end KeySys

def SkwKeyParams.id (p : SkwKeyParams) : KeyId := ⟨p.keyType, p.keyId, p.macAddr⟩

/-- The octets of the key, as many as the command says. -/
def SkwKeyParams.octets (p : SkwKeyParams) : List (BitVec 8) := p.key.take p.keyLen

/-- What a command does to the firmware's keys. -/
def KeyCmd.apply (fw : KeyId → Option (List (BitVec 8))) :
    KeyCmd → KeyId → Option (List (BitVec 8))
  | .addKey p => Function.update fw p.id (some p.octets)
  | .delKey p => Function.update fw p.id none

/-- The firmware's keys after the commands it has received. -/
def fwKeys (sent : List KeyCmd) : KeyId → Option (List (BitVec 8)) :=
  sent.foldl KeyCmd.apply fun _ => none

namespace SkwKeyConf
variable {conf : SkwKeyConf}

/-- The bits tell which slots hold a key. -/
def Sound (conf : SkwKeyConf) : Prop := ∀ i, conf.installed i = (conf.key i).isSome

@[simp] theorem key_put_self (conf : SkwKeyConf) (i : Fin 6) (key : SkwKey) :
    (conf.put i key).key i = some key := Function.update_self ..

theorem key_put_of_ne {i j : Fin 6} (h : j ≠ i) (conf : SkwKeyConf) (key : SkwKey) :
    (conf.put i key).key j = conf.key j := Function.update_of_ne h ..

@[simp] theorem key_drop_self (conf : SkwKeyConf) (i : Fin 6) : (conf.drop i).key i = none :=
  Function.update_self ..

theorem key_drop_of_ne {i j : Fin 6} (h : j ≠ i) (conf : SkwKeyConf) :
    (conf.drop i).key j = conf.key j := Function.update_of_ne h ..

theorem Sound.put (h : conf.Sound) (i : Fin 6) (key : SkwKey) : (conf.put i key).Sound := by
  intro j
  rw [installed_put]
  by_cases hj : j = i
  · subst hj
    simp
  · simpa [hj, key_put_of_ne hj] using h j

theorem Sound.drop (h : conf.Sound) (i : Fin 6) : (conf.drop i).Sound := by
  intro j
  rw [installed_drop]
  by_cases hj : j = i
  · subst hj
    simp
  · simpa [hj, key_drop_of_ne hj] using h j

end SkwKeyConf

/-- Where the key of a slot stands with the firmware. -/
def KeyTable.idAt (t : KeyTable) (i : Fin 6) : KeyId :=
  match t with
  | .iface => ⟨toSkwGtk i, i, broadcast⟩
  | .ptk a => ⟨.ptk, i, a⟩
  | .gtk a => ⟨toSkwGtk i, i, a⟩

def KeyTable.Unicast : KeyTable → Prop
  | .iface => True
  | .ptk a | .gtk a => a ≠ broadcast

theorem toSkwGtk_ne_ptk (n : ℕ) : toSkwGtk n ≠ .ptk := by
  unfold toSkwGtk
  split_ifs <;> simp

theorem KeyTable.table_idAt {t : KeyTable} (h : t.Unicast) (i : Fin 6) :
    (t.idAt i).table = some t := by
  have hgtk := toSkwGtk_ne_ptk i
  cases t with
  | iface => simp [idAt, KeyId.table, hgtk]
  | ptk a => simp [idAt, KeyId.table, show a ≠ broadcast from h]
  | gtk a => simp [idAt, KeyId.table, hgtk, show a ≠ broadcast from h]

theorem KeyId.of_table {id : KeyId} {t : KeyTable} (h : id.table = some t) :
    t.Unicast ∧ t.idAt id.keyId = id := by
  obtain ⟨type, i, a⟩ := id
  unfold KeyId.table at h
  split_ifs at h with hptk ha hgtk ha
  · cases h
    simp_all [KeyTable.Unicast, KeyTable.idAt]
  · cases h
    simp_all [KeyTable.Unicast, KeyTable.idAt]
  · cases h
    simp_all [KeyTable.Unicast, KeyTable.idAt]

namespace KeySys
variable {s : KeySys} {t : KeyTable} {conf conf' : SkwKeyConf} {i : Fin 6}

theorem unicast_of_conf (h : s.conf t = some conf) : t.Unicast := by
  cases t with
  | iface => trivial
  | ptk a =>
    rintro rfl
    simp [KeySys.conf, s.unicast] at h
  | gtk a =>
    rintro rfl
    simp [KeySys.conf, s.unicast] at h

theorem conf_setConf (h : s.conf t = some conf) (u : KeyTable) :
    (s.setConf t conf').conf u = if u = t then some conf' else s.conf u := by
  cases t with
  | iface => cases u <;> simp [setConf, KeySys.conf]
  | ptk a =>
    obtain ⟨p, hp, -⟩ := Option.map_eq_some_iff.mp h
    cases u with
    | iface => rfl
    | ptk b => by_cases hb : b = a <;> simp [setConf, mapPeer, KeySys.conf, hb, hp]
    | gtk b => by_cases hb : b = a <;> simp [setConf, mapPeer, KeySys.conf, hb, hp]
  | gtk a =>
    obtain ⟨p, hp, -⟩ := Option.map_eq_some_iff.mp h
    cases u with
    | iface => rfl
    | ptk b => by_cases hb : b = a <;> simp [setConf, mapPeer, KeySys.conf, hb, hp]
    | gtk b => by_cases hb : b = a <;> simp [setConf, mapPeer, KeySys.conf, hb, hp]

/-- A change of one slot changes the key of one identity. -/
theorem hostKey_setConf (h : s.conf t = some conf) (hother : ∀ j, j ≠ i → conf'.key j = conf.key j)
    (id : KeyId) : (s.setConf t conf').hostKey id =
      if id = t.idAt i then (conf'.key i).map (·.keyData) else s.hostKey id := by
  have htable := KeyTable.table_idAt (unicast_of_conf h) i
  unfold hostKey
  cases hid : id.table with
  | none =>
    rw [if_neg]
    · rfl
    · rintro rfl
      rw [htable] at hid
      cases hid
  | some u =>
    obtain ⟨-, hu⟩ := KeyId.of_table hid
    simp only [Option.bind_some, conf_setConf h]
    by_cases hut : u = t
    · subst hut
      rw [if_pos rfl, Option.bind_some]
      by_cases hi : id.keyId = i
      · subst hi
        rw [if_pos hu.symm]
      · rw [if_neg, hother _ hi, h, Option.bind_some]
        rintro rfl
        apply hi
        cases u <;> rfl
    · rw [if_neg hut, if_neg]
      rintro rfl
      rw [htable] at hid
      exact hut (Option.some.inj hid).symm

@[simp] theorem hostKey_setIface (s : KeySys) (iface : KeyIface) :
    (s.setIface iface).hostKey = s.hostKey := rfl

/-- The keys of the commands that wait. -/
def buffered (s : KeySys) : List (KeyId × List (BitVec 8)) :=
  s.iface.bufKeys.map fun p => (p.id, p.octets)

/-- Every key with a command that waits is installed with the octets of its last one. -/
def BufferCurrent (s : KeySys) : Prop :=
  ∀ id octets, Lib.lastWrite s.buffered id = some octets → s.hostKey id = some octets

/-- Between calls before the start: outside of the buffer the firmware has the host's keys. -/
structure Buffering (s : KeySys) : Prop where
  apMode : s.iface.apMode = true
  staMode : s.staMode = false
  slots : ∀ t conf, s.conf t = some conf → conf.Sound
  agree : ∀ id, Lib.lastWrite s.buffered id = none → fwKeys s.iface.sent id = s.hostKey id

end KeySys

theorem fwKeys_concat (sent : List KeyCmd) (c : KeyCmd) :
    fwKeys (sent ++ [c]) = c.apply (fwKeys sent) := by
  simp [fwKeys]

/-- Commands that waited are a log for the firmware's keys. -/
theorem fwKeys_append_addKey (sent : List KeyCmd) (ps : List SkwKeyParams) :
    fwKeys (sent ++ ps.map .addKey) =
      Lib.replay (fwKeys sent) (ps.map fun p => (p.id, p.octets)) := by
  induction ps using List.reverseRecOn with
  | nil => simp [Lib.replay]
  | append_singleton ps p ih =>
    rw [List.map_append, List.map_append, ← List.append_assoc, List.map_singleton,
      List.map_singleton, Lib.replay_concat, ← ih]
    exact fwKeys_concat ..

theorem octets_addKeyParams {cipher : CipherType} {i : Fin 6} {type : KeyType}
    {key : List (BitVec 8)} {addr : Option MacAddr} (h : key.length ≤ 32) :
    (addKeyParams true cipher i type key addr).octets = key := by
  have hkey : (addKeyParams true cipher i type key addr).key = keyOctets key := by
    cases cipher <;> simp [addKeyParams, List.take_of_length_le h]
  rw [SkwKeyParams.octets, hkey]
  exact List.take_left

theorem id_addKeyParams {ap : Bool} {cipher : CipherType} {i : Fin 6} {key : List (BitVec 8)}
    {pairwise : Bool} {addr : Option MacAddr} (h : pairwise = true → addr ≠ none) :
    (addKeyParams ap cipher i (keyTypeOf pairwise i) key addr).id =
      (keyTable pairwise addr).idAt i := by
  cases addr with
  | none =>
    have hp : pairwise = false := by simpa using h
    subst hp
    rfl
  | some a => cases pairwise <;> rfl

theorem id_delKeyParams {cipher : CipherType} {i : Fin 6} {pairwise : Bool}
    {addr : Option MacAddr} (h : pairwise = true → addr ≠ none) :
    (delKeyParams i (keyTypeOf pairwise i) cipher addr).id = (keyTable pairwise addr).idAt i := by
  cases addr with
  | none =>
    have hp : pairwise = false := by simpa using h
    subst hp
    rfl
  | some a => cases pairwise <;> rfl

/-- An installation whose command is acknowledged: nothing, or a key in its slot and its command
in the buffer or sent. -/
theorem skwSetKey_acknowledged {iface : KeyIface} {conf : SkwKeyConf} {i : Fin 6} {type : KeyType}
    {addr : Option MacAddr} {params : KeyParams} {alloc : Bool}
    (hw : (toSkwCipherType params.cipher).isWep = false) :
    (skwSetKey iface conf i type addr params alloc 0).2 = (conf, iface) ∨
    (skwSetKey iface conf i type addr params alloc 0).2 =
      ({ conf with skwCipher := toSkwCipherType params.cipher }.put i (newSkwKey params),
        (iface.cmdAddKey (addKeyParams iface.apMode (toSkwCipherType params.cipher) i type
          params.key addr) 0).2) := by
  have hret (p : SkwKeyParams) : (iface.cmdAddKey p 0).1 = 0 := by
    unfold KeyIface.cmdAddKey
    split <;> rfl
  unfold skwSetKey
  by_cases hc : toSkwCipherType params.cipher = .invalid
  · left
    rw [if_pos hc]
  by_cases ha : alloc = false
  · left
    rw [if_neg hc, if_pos ha]
  · right
    simp [hc, ha, hw, hret]

namespace KeySys
variable {s s₀ : KeySys} {t : KeyTable} {conf conf' : SkwKeyConf} {i : Fin 6} {iface : KeyIface}

/-- Every command is acknowledged. -/
def step (s : KeySys) (c : KeyCall) : Option KeySys := some (s.call c)

/-- Calls as the kernel makes them, for other keys than those of WEP: an octet string fits and a
pairwise key has an address. A delete of a pairwise key without an address finds the slot of the
interface empty. -/
def Guarded (s : KeySys) : KeyCall → Prop
  | .addKey _ pairwise addr params _ =>
    params.key.length ≤ WLAN_MAX_KEY_LEN ∧ (toSkwCipherType params.cipher).isWep = false ∧
      (pairwise = true → addr ≠ none)
  | .delKey keyIdx pairwise addr => pairwise = true → addr = none →
    ∀ h : keyIdx < 6, s.keyConf.installed ⟨keyIdx, h⟩ = false

instance (s : KeySys) (c : KeyCall) : Decidable (s.Guarded c) :=
  match c with
  | .addKey .. => inferInstanceAs (Decidable (_ ∧ _ ∧ (_ → _)))
  | .delKey .. => inferInstanceAs (Decidable (_ → _ → ∀ _, _))

theorem hostKey_idAt (h : s.conf t = some conf) (i : Fin 6) :
    s.hostKey (t.idAt i) = (conf.key i).map (·.keyData) := by
  have hid : (t.idAt i).keyId = i := by cases t <;> rfl
  rw [hostKey, KeyTable.table_idAt (unicast_of_conf h), Option.bind_some, h, Option.bind_some, hid]

/-- What is left to show of a call that changes one slot. -/
theorem Buffering.change (h : s.Buffering) (hc : s.conf t = some conf)
    (hap : iface.apMode = s.iface.apMode)
    (hslots : conf'.Sound)
    (hother : ∀ j, j ≠ i → conf'.key j = conf.key j)
    (hagree : ∀ id, Lib.lastWrite (iface.bufKeys.map fun p => (p.id, p.octets)) id = none →
      fwKeys iface.sent id =
        if id = t.idAt i then (conf'.key i).map (·.keyData) else s.hostKey id) :
    ((s.setConf t conf').setIface iface).Buffering where
  apMode := hap.trans h.apMode
  staMode := by
    rw [← h.staMode]
    cases t <;> rfl
  slots u c hu := by
    have hu' : (s.setConf t conf').conf u = some c := by
      cases u <;> exact hu
    rw [conf_setConf hc] at hu'
    split at hu'
    · cases hu'
      exact hslots
    · exact h.slots u c hu'
  agree id hid := by
    rw [hostKey_setIface, hostKey_setConf hc hother]
    exact hagree id hid

theorem Buffering.addKey (h : s.Buffering) {pairwise : Bool} {addr : Option MacAddr}
    {params : KeyParams} {alloc : Bool} (hlen : params.key.length ≤ 32)
    (hw : (toSkwCipherType params.cipher).isWep = false) (hp : pairwise = true → addr ≠ none) :
    (s.addKey i pairwise addr params alloc 0).2.Buffering := by
  unfold KeySys.addKey
  cases hc : s.conf (keyTable pairwise addr) with
  | none => exact h
  | some conf =>
    have hmac : (if addr = none ∧ s.iface.apMode = false then some s.bssid else addr) = addr := by
      rw [if_neg]
      simp [h.apMode]
    simp only [hmac]
    have hslots := h.slots _ _ hc
    have hi := hostKey_idAt hc i
    rcases @skwSetKey_acknowledged s.iface conf i (keyTypeOf pairwise i) addr params alloc hw with
      he | he
    · rw [he]
      apply h.change hc rfl hslots fun _ _ => rfl
      intro id hid
      rw [h.agree id hid]
      split
      · next heq => rw [heq, hi]
      · rfl
    · rw [he, h.apMode]
      have hid := @id_addKeyParams true (toSkwCipherType params.cipher) i params.key pairwise addr
        hp
      have hoct := @octets_addKeyParams (toSkwCipherType params.cipher) i (keyTypeOf pairwise i)
        params.key addr hlen
      generalize addKeyParams true _ _ _ _ _ = p at hid hoct
      apply h.change hc
      · unfold KeyIface.cmdAddKey
        split <;> rfl
      · have hsound : { conf with skwCipher := toSkwCipherType params.cipher }.Sound := hslots
        exact hsound.put i (newSkwKey params)
      · intro j hj
        exact SkwKeyConf.key_put_of_ne hj ..
      · intro k hk
        rw [SkwKeyConf.key_put_self, Option.map_some]
        unfold KeyIface.cmdAddKey at hk ⊢
        by_cases hb : s.iface.buffers = true
        · rw [if_pos hb] at hk ⊢
          rw [List.map_append, List.map_singleton, Lib.lastWrite_concat, hid] at hk
          split at hk
          · cases hk
          · next hne =>
            rw [if_neg hne]
            exact h.agree k hk
        · rw [if_neg hb] at hk ⊢
          rw [fwKeys_concat, KeyCmd.apply, Function.update_apply, hid, hoct, h.agree k hk]
          rfl

theorem Buffering.delKey (h : s.Buffering) {keyIdx : ℕ} {pairwise : Bool} {addr : Option MacAddr}
    (hg : s.Guarded (.delKey keyIdx pairwise addr)) :
    (s.delKey keyIdx pairwise addr).2.Buffering := by
  unfold KeySys.delKey
  split
  · next hlt =>
    cases hc : s.conf (keyTable pairwise addr) with
    | none => exact h
    | some conf =>
      have hmac : (if addr = none ∧ s.staMode = true then some s.bssid else addr) = addr := by
        rw [if_neg]
        simp [h.staMode]
      simp only [hmac]
      have hslots := h.slots _ _ hc
      have hi := hostKey_idAt hc ⟨keyIdx, hlt⟩
      apply h.change hc
      · unfold skwRemoveKey
        dsimp only
        split <;> rfl
      · exact SkwKeyConf.Sound.drop hslots ⟨keyIdx, hlt⟩
      · intro j hj
        exact SkwKeyConf.key_drop_of_ne hj conf
      · intro k hk
        have hdrop := conf.key_drop_self ⟨keyIdx, hlt⟩
        change _ = if _ then ((conf.drop ⟨keyIdx, hlt⟩).key ⟨keyIdx, hlt⟩).map _ else _
        rw [hdrop, Option.map_none]
        unfold skwRemoveKey at hk ⊢
        dsimp only at hk ⊢
        by_cases hin : conf.installed ⟨keyIdx, hlt⟩ = true
        · rw [if_pos hin] at hk ⊢
          have hp : pairwise = true → addr ≠ none := by
            rintro hpair rfl
            cases hc
            have hempty := hg hpair rfl hlt
            rw [hin] at hempty
            cases hempty
          rw [fwKeys_concat, KeyCmd.apply, Function.update_apply, h.agree k hk,
            id_delKeyParams hp]
        · rw [if_neg hin] at hk ⊢
          rw [h.agree k hk]
          split
          · next heq =>
            have hnone := (hslots ⟨keyIdx, hlt⟩).symm.trans (Bool.eq_false_of_not_eq_true hin)
            rw [heq, hi, Option.isSome_eq_false_iff.mp hnone |> Option.isNone_iff_eq_none.mp,
              Option.map_none]
          · rfl
  · exact h

theorem Buffering.call (h : s.Buffering) {c : KeyCall} (hg : s.Guarded c) :
    (s.call c).Buffering := by
  cases c with
  | addKey keyIdx pairwise addr params alloc => exact h.addKey hg.1 hg.2.1 hg.2.2
  | delKey keyIdx pairwise addr => exact h.delKey hg

/-- An access point that is not started and has no command in its buffer. -/
structure Idle (s : KeySys) : Prop extends Buffering s where
  bufKeys : s.iface.bufKeys = []
  apStarted : s.iface.apStarted = false

/-- After the start the firmware has the host's keys exactly if every key with a command in the
buffer is still installed as its last command says. -/
theorem buffered_keys_agree_iff (s₀ s : KeySys) (h₀ : s₀.Idle)
    (h : Lib.Reach step Guarded s₀ s) :
    fwKeys s.startAp.iface.sent = s.startAp.hostKey ↔ s.BufferCurrent := by
  have hb : s.Buffering := by
    apply h.invariant h₀.toBuffering
    intro s c t hs hg ht
    cases ht
    exact hs.call hg
  have hstart : fwKeys s.startAp.iface.sent = Lib.replay (fwKeys s.iface.sent) s.buffered :=
    fwKeys_append_addKey ..
  rw [hstart]
  exact Lib.replay_eq_iff hb.agree

/-- An access point without stations and keys. -/
def freshAp : KeySys := ⟨⟨true, false, [], []⟩, false, 0, emptyKeyConf, fun _ => none, rfl⟩

theorem freshAp_idle : freshAp.Idle where
  apMode := rfl
  staMode := rfl
  slots t conf h := by
    cases t with
    | iface =>
      cases h
      intro i
      revert i
      decide
    | ptk a => cases h
    | gtk a => cases h
  agree id _ := by
    unfold hostKey
    cases id.table with
    | none => rfl
    | some t => cases t <;> rfl
  bufKeys := rfl
  apStarted := rfl

/-- A group key for CCMP. -/
def groupCall (keyIdx : Fin 6) (octet : BitVec 8) : KeyCall :=
  .addKey keyIdx false none (ccmpParams octet 0) true

theorem group_key_agrees :
    fwKeys (freshAp.call (groupCall 1 7)).startAp.iface.sent =
      (freshAp.call (groupCall 1 7)).startAp.hostKey := by
  have hreach : Lib.Reach step Guarded freshAp (freshAp.call (groupCall 1 7)) :=
    .next .init (by decide) rfl
  apply (buffered_keys_agree_iff freshAp _ freshAp_idle hreach).mpr
  intro id octets h
  change Lib.lastWrite ([] ++ [(⟨.gtk, 1, broadcast⟩, List.replicate 16 7)]) id = some octets at h
  rw [Lib.lastWrite_concat] at h
  split at h
  · next heq =>
    subst heq
    cases h
    rfl
  · cases h

/-- A key that is added and deleted before the start is in the firmware after it. -/
theorem deleted_key_comes_back :
    fwKeys ((freshAp.call (groupCall 1 7)).call (.delKey 1 false none)).startAp.iface.sent ≠
      ((freshAp.call (groupCall 1 7)).call (.delKey 1 false none)).startAp.hostKey := by
  intro h
  have hid := congrFun h ⟨.gtk, 1, broadcast⟩
  revert hid
  decide

end KeySys

end Skw
