import Skw.Mbssid.Profile
import Skw.Lib.Loop
import Mathlib.Logic.Function.Basic

/-! `skw_gen_new_ie`: the elements of a non-transmitted BSSID out of those of the transmitted one
and its own profile, with everything that is read and written on the way. -/
namespace Skw

abbrev IEEE80211_MAX_DATA_LEN : ℕ := 2304

/-- Bytes of the transmitted elements that are read, of the copy of the profile that are read or
written, or of the result that are written. -/
inductive GenAccess
  | ie (addr len : ℕ)
  | sub (addr len : ℕ)
  | out (addr len : ℕ)
deriving DecidableEq

def GenAccess.Inside (ieLen subLen : ℕ) : GenAccess → Prop
  | .ie a n => a + n ≤ ieLen
  | .sub a n => a + n ≤ subLen
  | .out a n => a + n ≤ IEEE80211_MAX_DATA_LEN

instance GenAccess.decidableInside (ieLen subLen : ℕ) (x : GenAccess) :
    Decidable (x.Inside ieLen subLen) := by
  cases x <;> unfold GenAccess.Inside <;> infer_instance

/-- What `skw_find_elem` reads of the copy, and for each comparison of the pattern. -/
def findElemReads (eid : BitVec 8) (m : ℕ → BitVec 8) (stop : ℕ) (pat : List (BitVec 8))
    (offset : ℕ) (patReads : List GenAccess) : ℕ → ℕ → List GenAccess
  | 0, _ => []
  | fuel + 1, a =>
    if a + 2 ≤ stop then
      .sub a 2 ::
        if a + 2 + Lib.tlvLen m a ≤ stop then
          (if m a = eid ∧ matchEnd pat.length offset ≤ Lib.tlvLen m a then
            .sub (a + offset) pat.length :: patReads else []) ++
          if MatchAt eid m pat offset a then []
          else findElemReads eid m stop pat offset patReads fuel (a + 2 + Lib.tlvLen m a)
        else []
    else []

/-- `is_skw_element_inherited`. -/
def isElementInherited (elem : Lib.Tlv) (nonInherit : Option Lib.Tlv) : Bool :=
  if elem.id = WLAN_EID_MULTIPLE_BSSID then false
  else
    match nonInherit with
    | none => true
    | some l =>
      let idLen := (l.data.getD 1 0).toNat
      let extIdLen := (l.data.getD (2 + idLen) 0).toNat
      if l.data.length < 2 ∨ l.data.length < 3 + idLen ∨ l.data.length < 3 + idLen + extIdLen then
        true
      else if elem.id = SKW_WLAN_EID_EXTENSION then
        !((l.data.drop (3 + idLen)).take extIdLen).contains (elem.data.getD 0 0)
      else !((l.data.drop 2).take idLen).contains elem.id

/-- What it reads of a Non-Inheritance element in the copy, and of the data of the transmitted one
where this is an extension. -/
def inheritReads (ie copy : ℕ → BitVec 8) (old : ℕ) : Option ℕ → List GenAccess
  | none => []
  | some l =>
    .sub l (Lib.tlvLen copy l + 2) ::
      if ie old = SKW_WLAN_EID_EXTENSION then [.ie (old + 2) 1] else []

/-- `tmp_old`, the copy of the profile, what is written to the result up to `pos`, and the
accesses. -/
structure GenState where
  old : ℕ
  copy : ℕ → BitVec 8
  out : List (BitVec 8)
  log : List GenAccess

namespace GenState

def touch (s : GenState) (xs : List GenAccess) : GenState := { s with log := s.log ++ xs }

/-- The transmitted element is copied to the result. -/
def copyOld (s : GenState) (ie : ℕ → BitVec 8) : GenState :=
  let n := Lib.tlvLen ie s.old + 2
  { s with
    out := s.out ++ Lib.load ie s.old n
    log := s.log ++ [.ie s.old n, .out s.out.length n] }

/-- An element of the profile is copied there. -/
def copyNew (s : GenState) (tmp : ℕ) : GenState :=
  let n := Lib.tlvLen s.copy tmp + 2
  { s with
    out := s.out ++ Lib.load s.copy tmp n
    log := s.log ++ [.sub tmp n, .out s.out.length n] }

/-- It is marked as used. -/
def mark (s : GenState) (tmp : ℕ) : GenState :=
  { s with copy := Function.update s.copy tmp WLAN_EID_SSID, log := s.log ++ [.sub tmp 1] }

section
variable (s : GenState) (xs : List GenAccess) (ie : ℕ → BitVec 8) (tmp : ℕ)

@[simp] theorem old_touch : (s.touch xs).old = s.old := rfl
@[simp] theorem copy_touch : (s.touch xs).copy = s.copy := rfl
@[simp] theorem out_touch : (s.touch xs).out = s.out := rfl

@[simp] theorem old_copyOld : (s.copyOld ie).old = s.old := rfl
@[simp] theorem copy_copyOld : (s.copyOld ie).copy = s.copy := rfl
@[simp] theorem out_copyOld :
    (s.copyOld ie).out = s.out ++ Lib.load ie s.old (Lib.tlvLen ie s.old + 2) := rfl

@[simp] theorem old_copyNew : (s.copyNew tmp).old = s.old := rfl
@[simp] theorem copy_copyNew : (s.copyNew tmp).copy = s.copy := rfl
@[simp] theorem out_copyNew :
    (s.copyNew tmp).out = s.out ++ Lib.load s.copy tmp (Lib.tlvLen s.copy tmp + 2) := rfl

@[simp] theorem old_mark : (s.mark tmp).old = s.old := rfl
@[simp] theorem copy_mark :
    (s.mark tmp).copy = Function.update s.copy tmp WLAN_EID_SSID := rfl
@[simp] theorem out_mark : (s.mark tmp).out = s.out := rfl

end
end GenState

section
variable (k : Cfg80211) (ie : ℕ → BitVec 8) (ieLen subLen : ℕ)

/-- The element of the profile that has the type of the transmitted one. -/
def findNew (s : GenState) : Option ℕ :=
  if ie s.old = SKW_WLAN_EID_EXTENSION then
    findElem SKW_WLAN_EID_EXTENSION s.copy 0 subLen [ie (s.old + 2)] 2
  else k.findIe (ie s.old) s.copy 0 subLen

/-- What the search reads, for an extension element by `skw_find_elem`. -/
def searched (s : GenState) : GenState :=
  if ie s.old = SKW_WLAN_EID_EXTENSION then
    s.touch (findElemReads SKW_WLAN_EID_EXTENSION s.copy subLen [ie (s.old + 2)] 2
      [.ie (s.old + 2) 1] subLen 0)
  else s

@[simp] theorem old_searched (s : GenState) : (searched ie subLen s).old = s.old := by
  unfold searched
  split <;> rfl

@[simp] theorem copy_searched (s : GenState) : (searched ie subLen s).copy = s.copy := by
  unfold searched
  split <;> rfl

@[simp] theorem out_searched (s : GenState) : (searched ie subLen s).out = s.out := by
  unfold searched
  split <;> rfl

/-- The body of the first loop for an element whose identifier is not 0. The search for a
Non-Inheritance element has had its result already. -/
def oldElement (nonInherit : Option ℕ) (s : GenState) : GenState :=
  match findNew k ie subLen s with
  | none =>
    let s := (searched ie subLen s).touch (inheritReads ie s.copy s.old nonInherit)
    if isElementInherited (Lib.tlvAt ie s.old) (nonInherit.map (Lib.tlvAt s.copy)) then s.copyOld ie
    else s
  | some tmp =>
    let s := searched ie subLen s
    if ie s.old = WLAN_EID_VENDOR_SPECIFIC then
      let s := s.touch [.ie (s.old + 2) 5, .sub (tmp + 2) 5]
      if Lib.load ie (s.old + 2) 5 = Lib.load s.copy (tmp + 2) 5 then (s.copyNew tmp).mark tmp
      else s.copyOld ie
    else (s.copyNew tmp).mark tmp

/-- A pass of the first loop. -/
def oldPass (nonInherit : Option ℕ) (s : GenState) : Lib.Pass GenState :=
  let n := Lib.tlvLen ie s.old + 2
  if s.old + n ≤ ieLen then
    let t := s.touch [.ie (s.old + 1) 1, .ie s.old 1]
    if ie s.old = 0 then .next { t with old := s.old + 1 }
    else
      let t := oldElement k ie subLen nonInherit t
      if s.old + n = ieLen then .done t else .next { t with old := s.old + n }
  else .done (s.touch [.ie (s.old + 1) 1])

/-- A pass of the second loop, over the copy with `tmp_new`. -/
def newPass (p : ℕ × GenState) : Lib.Pass (ℕ × GenState) :=
  let (new, s) := p
  let n := Lib.tlvLen s.copy new + 2
  if new + n ≤ subLen then
    let t := s.touch [.sub (new + 1) 1, .sub new 1]
    let t :=
      if s.copy new = WLAN_EID_NON_TX_BSSID_CAP ∨ s.copy new = WLAN_EID_SSID then t
      else t.copyNew new
    if new + n = subLen then .done (new, t) else .next (new + n, t)
  else .done (new, s.touch [.sub (new + 1) 1])

/-- `skw_gen_new_ie` up to its first loop, where `kmemdup` of the profile succeeds. -/
def genStart (sub : ℕ → BitVec 8) : GenState :=
  let s : GenState := ⟨0, sub, [], []⟩
  let s :=
    match k.findIe WLAN_EID_SSID sub 0 subLen with
    | some tmp => s.copyNew tmp
    | none => s
  let s := s.touch (findElemReads SKW_WLAN_EID_EXTENSION sub subLen [SKW_EID_EXT_NON_INHERITANCE] 0
    [] subLen 0)
  match k.findIe WLAN_EID_SSID ie 0 ieLen with
  | some old => { s.touch [.ie (old + 1) 1] with old := old + Lib.tlvLen ie old + 2 }
  | none => s

/-- The element that the search for a Non-Inheritance element finds. -/
def nonInheritElem (sub : ℕ → BitVec 8) : Option ℕ :=
  findElem SKW_WLAN_EID_EXTENSION sub 0 subLen [SKW_EID_EXT_NON_INHERITANCE] 0

/-- `skw_gen_new_ie`, if each of its loops ends within `fuel` passes; its value is the length of
what is written. -/
def genNewIe (fuel : ℕ) (sub : ℕ → BitVec 8) : Option GenState :=
  (Lib.loop (oldPass k ie ieLen subLen (nonInheritElem subLen sub)) fuel
    (genStart k ie ieLen subLen sub)).bind fun s =>
      (Lib.loop (newPass subLen) fuel (0, s)).map Prod.snd

end
end Skw
