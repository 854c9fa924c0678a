import Skw.Kernel.Elements

/-! The profile of a non-transmitted BSSID, which may be split over several Multiple BSSID elements,
as `skw_merge_profile` puts it together for `skw_parse_mbssid_data`. An element of a beacon or probe
response is found by `skw_find_elem` of the driver or by `cfg80211_find_ie` of the kernel. -/
namespace Skw

abbrev WLAN_EID_SSID : BitVec 8 := 0
abbrev WLAN_EID_MULTIPLE_BSSID : BitVec 8 := 71
abbrev WLAN_EID_NON_TX_BSSID_CAP : BitVec 8 := 83
abbrev SKW_WLAN_EID_MULTI_BSSID_IDX : BitVec 8 := 85
abbrev SKW_EID_EXT_NON_INHERITANCE : BitVec 8 := 56

/-- The least `datalen` for a match, which is an unsigned number. -/
def matchEnd (patLen offset : ℕ) : ℕ := (offset + 2 ^ 32 - 2 + patLen) % 2 ^ 32

/-- The data of the element at `e` has the pattern where `skw_find_elem` looks for it. -/
def MatchAt (eid : BitVec 8) (m : ℕ → BitVec 8) (pat : List (BitVec 8)) (offset e : ℕ) : Prop :=
  m e = eid ∧ matchEnd pat.length offset ≤ Lib.tlvLen m e ∧
    Lib.load m (e + offset) pat.length = pat

instance (eid : BitVec 8) (m : ℕ → BitVec 8) (pat : List (BitVec 8)) (offset : ℕ) :
    DecidablePred (MatchAt eid m pat offset) := fun e => by
  unfold MatchAt; infer_instance

/-- `skw_find_elem` in the `len` bytes at `a`. -/
def findElem (eid : BitVec 8) (m : ℕ → BitVec 8) (a len : ℕ) (pat : List (BitVec 8))
    (offset : ℕ) : Option ℕ :=
  (Lib.tlvAddrs m a (a + len)).find? (MatchAt eid m pat offset ·)

/-- Where the pattern ends before the data begins no length is great enough. -/
theorem findElem_of_lt {pat : List (BitVec 8)} {offset : ℕ} (h : offset + pat.length < 2)
    (eid : BitVec 8) (m : ℕ → BitVec 8) (a len : ℕ) : findElem eid m a len pat offset = none := by
  apply List.find?_eq_none.mpr
  intro e _
  have hlen := Lib.tlvLen_lt m e
  have hend : 2 ^ 32 - 2 ≤ matchEnd pat.length offset := by
    rw [matchEnd, Nat.mod_eq_of_lt (by omega)]
    omega
  simp only [decide_eq_true_eq]
  rintro ⟨-, hle, -⟩
  omega

/-- `cfg80211_find_ie` of the kernel, which returns the first element with the identifier among
those that lie whole in the `len` bytes at an address. -/
structure Cfg80211 where
  findIe : BitVec 8 → (ℕ → BitVec 8) → ℕ → ℕ → Option ℕ
  findIe_eq : ∀ eid m a len, findIe eid m a len = (Lib.tlvAddrs m a (a + len)).find? (m · = eid)

def Cfg80211.linear : Cfg80211 where
  findIe eid m a len := (Lib.tlvAddrs m a (a + len)).find? (m · = eid)
  findIe_eq _ _ _ _ := rfl

section
variable {eid : BitVec 8} {m : ℕ → BitVec 8} {a len e : ℕ}

theorem findElem_some {pat : List (BitVec 8)} {offset : ℕ}
    (h : findElem eid m a len pat offset = some e) :
    MatchAt eid m pat offset e ∧ a ≤ e ∧ e + 2 + Lib.tlvLen m e ≤ a + len :=
  ⟨by simpa using List.find?_some h,
    Lib.bounds_of_mem_tlvAddrs (List.mem_of_find?_eq_some h)⟩

theorem Cfg80211.findIe_some (k : Cfg80211) (h : k.findIe eid m a len = some e) :
    m e = eid ∧ a ≤ e ∧ e + 2 + Lib.tlvLen m e ≤ a + len := by
  rw [k.findIe_eq] at h
  exact ⟨by simpa using List.find?_some h,
    Lib.bounds_of_mem_tlvAddrs (List.mem_of_find?_eq_some h)⟩

end

/-- Where the subelements of a Multiple BSSID element begin. -/
abbrev firstSub (mbssid : ℕ) : ℕ := mbssid + 3

/-- `skw_get_profile_continuation` for elements at the addresses, in a body of `ieLen` bytes. -/
def getProfileContinuation (ie : ℕ → BitVec 8) (ieLen mbssid sub : ℕ) : Option ℕ :=
  let mbssidEnd := mbssid + 2 + Lib.tlvLen ie mbssid
  match findElem WLAN_EID_MULTIPLE_BSSID ie mbssidEnd (ieLen - mbssidEnd) [] 0 with
  | none => none
  | some next =>
    let s := firstSub next
    if sub + 2 + Lib.tlvLen ie sub < mbssidEnd - 1 then none
    else if Lib.tlvLen ie next < 4 then none
    else if next + 2 + Lib.tlvLen ie next < s + 2 + Lib.tlvLen ie s then none
    else if ie s ≠ 0 ∨ Lib.tlvLen ie s < 2 then none
    else if ie (s + 2) = WLAN_EID_NON_TX_BSSID_CAP then none
    else some next

/-- The loop of `skw_merge_profile` with what it has copied, if it ends within `fuel` rounds. -/
def mergeLoop (ie : ℕ → BitVec 8) (ieLen mbssid sub maxCopyLen : ℕ) :
    ℕ → List (BitVec 8) → Option (List (BitVec 8))
  | 0, _ => none
  | fuel + 1, copied =>
    match getProfileContinuation ie ieLen mbssid sub with
    | none => some copied
    | some nextMbssid =>
      let next := firstSub nextMbssid
      if maxCopyLen < copied.length + Lib.tlvLen ie next then some copied
      else
        mergeLoop ie ieLen mbssid sub maxCopyLen fuel
          (copied ++ Lib.load ie (next + 2) (Lib.tlvLen ie next))

/-- `skw_merge_profile`; its value is the number of bytes that it has copied. -/
def mergeProfile (fuel : ℕ) (ie : ℕ → BitVec 8) (ieLen mbssid sub maxCopyLen : ℕ) :
    Option (List (BitVec 8)) :=
  if maxCopyLen < Lib.tlvLen ie sub then some []
  else
    mergeLoop ie ieLen mbssid sub maxCopyLen fuel (Lib.load ie (sub + 2) (Lib.tlvLen ie sub))

/-- `profile_len` of `skw_parse_mbssid_data`, a `u8`. -/
def profileLen (copied : List (BitVec 8)) : ℕ := copied.length % 2 ^ 8

theorem getProfileContinuation_eq_none (ie : ℕ → BitVec 8) (ieLen mbssid sub : ℕ) :
    getProfileContinuation ie ieLen mbssid sub = none := by
  unfold getProfileContinuation
  dsimp only
  rw [findElem_of_lt (by decide)]

/-- No continuation is ever found, and only the first fragment is copied. -/
theorem mergeProfile_succ {ie : ℕ → BitVec 8} {sub maxCopyLen : ℕ}
    (h : Lib.tlvLen ie sub ≤ maxCopyLen) (fuel ieLen mbssid : ℕ) :
    mergeProfile (fuel + 1) ie ieLen mbssid sub maxCopyLen =
      some (Lib.load ie (sub + 2) (Lib.tlvLen ie sub)) := by
  rw [mergeProfile, if_neg (by omega), mergeLoop, getProfileContinuation_eq_none]

theorem eq_of_mergeProfile {ie : ℕ → BitVec 8} {fuel ieLen mbssid sub maxCopyLen : ℕ}
    {copied : List (BitVec 8)} (h : Lib.tlvLen ie sub ≤ maxCopyLen)
    (hm : mergeProfile fuel ie ieLen mbssid sub maxCopyLen = some copied) :
    copied = Lib.load ie (sub + 2) (Lib.tlvLen ie sub) := by
  cases fuel with
  | zero =>
    rw [mergeProfile, if_neg (by omega), mergeLoop] at hm
    cases hm
  | succ fuel =>
    rw [mergeProfile_succ h] at hm
    exact (Option.some.inj hm).symm

/-- A profile that begins in the subelement `sub` of a Multiple BSSID element and goes on, as long
as the subelement is the last there, in the first one of the next Multiple BSSID element. -/
inductive SplitProfile (ie : ℕ → BitVec 8) (ieLen : ℕ) : ℕ → ℕ → List (List (BitVec 8)) → Prop
  | last {mbssid sub : ℕ} (hid : ie mbssid = WLAN_EID_MULTIPLE_BSSID)
      (hin : mbssid + 2 + Lib.tlvLen ie mbssid ≤ ieLen)
      (hsub : firstSub mbssid ≤ sub ∧
        sub + 2 + Lib.tlvLen ie sub ≤ mbssid + 2 + Lib.tlvLen ie mbssid) :
      SplitProfile ie ieLen mbssid sub [Lib.load ie (sub + 2) (Lib.tlvLen ie sub)]
  | more {mbssid sub next : ℕ} {fragments : List (List (BitVec 8))}
      (hid : ie mbssid = WLAN_EID_MULTIPLE_BSSID)
      (hin : mbssid + 2 + Lib.tlvLen ie mbssid ≤ ieLen)
      (hsub : firstSub mbssid ≤ sub ∧
        sub + 2 + Lib.tlvLen ie sub = mbssid + 2 + Lib.tlvLen ie mbssid)
      (hnext : (Lib.tlvAddrs ie (mbssid + 2 + Lib.tlvLen ie mbssid) ieLen).find?
        (ie · = WLAN_EID_MULTIPLE_BSSID) = some next)
      (hcont : ie (firstSub next) = 0 ∧
        ¬(0 < Lib.tlvLen ie (firstSub next) ∧
          ie (firstSub next + 2) = WLAN_EID_NON_TX_BSSID_CAP))
      (hrest : SplitProfile ie ieLen next (firstSub next) fragments) :
      SplitProfile ie ieLen mbssid sub
        (Lib.load ie (sub + 2) (Lib.tlvLen ie sub) :: fragments)

namespace SplitProfile
variable {ie : ℕ → BitVec 8} {ieLen mbssid sub : ℕ} {fragments : List (List (BitVec 8))}

theorem head_eq (h : SplitProfile ie ieLen mbssid sub fragments) :
    ∃ rest, fragments = Lib.load ie (sub + 2) (Lib.tlvLen ie sub) :: rest := by
  cases h with
  | last => exact ⟨[], rfl⟩
  | more => exact ⟨_, rfl⟩

theorem tlvLen_le (h : SplitProfile ie ieLen mbssid sub fragments) :
    Lib.tlvLen ie sub ≤ ieLen := by
  cases h with
  | last _ hin hsub => omega
  | more _ hin hsub => omega

/-- The whole profile is merged, with its length, exactly when nothing is in the fragments behind
the first one. -/
theorem merged_iff (h : SplitProfile ie ieLen mbssid sub fragments) :
    (∃ fuel copied, mergeProfile fuel ie ieLen mbssid sub ieLen = some copied ∧
      copied = fragments.flatten ∧ profileLen copied = fragments.flatten.length) ↔
      ∀ f ∈ fragments.tail, f = [] := by
  obtain ⟨rest, rfl⟩ := h.head_eq
  have hrest : (∀ f ∈ rest, f = []) ↔ rest.flatten = [] := List.flatten_eq_nil_iff.symm
  rw [List.tail_cons, hrest, List.flatten_cons]
  constructor
  · rintro ⟨fuel, copied, hmerge, hcopied, -⟩
    have hfirst := eq_of_mergeProfile h.tlvLen_le hmerge
    exact List.append_right_eq_self.mp (hcopied.symm.trans hfirst)
  · intro hnil
    rw [hnil, List.append_nil]
    refine ⟨1, _, mergeProfile_succ h.tlvLen_le 0 ieLen mbssid, rfl, ?_⟩
    rw [profileLen, Nat.mod_eq_of_lt]
    simpa using Lib.tlvLen_lt ie sub

end SplitProfile

/-- Two Multiple BSSID elements over which a profile of a capability and an index element is
split. -/
def splitBody (i : ℕ) : BitVec 8 :=
  [71, 7, 1, 0, 4, 83, 2, 1, 4, 71, 6, 1, 0, 3, 85, 1, 1].getD i 0

theorem splitProfile_splitBody :
    SplitProfile splitBody 17 0 3 [[83, 2, 1, 4], [85, 1, 1]] := by
  refine .more (by decide) (by decide) (by decide) (?_ : _ = some 9) (by decide) ?_
  · decide
  · exact .last (by decide) (by decide) (by decide)

/-- Only its first fragment is merged. -/
theorem splitBody_not_merged :
    SplitProfile splitBody 17 0 3 [[83, 2, 1, 4], [85, 1, 1]] ∧
      ∀ fuel, mergeProfile (fuel + 1) splitBody 17 0 3 17 = some [83, 2, 1, 4] :=
  ⟨splitProfile_splitBody, fun fuel => mergeProfile_succ (by decide) fuel 17 0⟩

theorem merged_first_sub :
    (∃ fuel copied, mergeProfile fuel splitBody 9 0 3 9 = some copied ∧
      copied = [[83, 2, 1, 4]].flatten ∧ profileLen copied = [[83, 2, 1, 4]].flatten.length) :=
  (SplitProfile.merged_iff (.last (by decide) (by decide) (by decide))).mpr (by decide)

/-- A profile that `skw_gen_new_ie` is called with: the buffer and `profile_len`. -/
structure GenCall where
  sub : ℕ → BitVec 8
  subLen : ℕ

section
variable (k : Cfg80211) (ie : ℕ → BitVec 8) (ieLen : ℕ)

/-- The call of `skw_parse_mbssid_data` for a subelement, if it is the beginning of a profile with a
valid Multiple BSSID-Index element. One round of the merge is enough (`mergeProfile_succ`). -/
def genCall (mbssid sub : ℕ) : Option GenCall :=
  if ie sub ≠ 0 ∨ Lib.tlvLen ie sub < 4 then none
  else if ie (sub + 2) ≠ WLAN_EID_NON_TX_BSSID_CAP ∨ ie (sub + 3) ≠ 2 then none
  else
    (mergeProfile 1 ie ieLen mbssid sub ieLen).bind fun copied =>
      let profile := fun i => copied.getD i 0
      (k.findIe SKW_WLAN_EID_MULTI_BSSID_IDX profile 0 (profileLen copied)).bind fun idx =>
        if Lib.tlvLen profile idx < 1 ∨ profile (idx + 2) = 0 ∨ 46 < (profile (idx + 2)).toNat then
          none
        else some ⟨profile, profileLen copied⟩

/-- The calls for the subelements of a Multiple BSSID element, up to the first one for which
`cfg80211_inform_bss` fails. -/
def subCalls (informed : ℕ → Bool) (mbssid : ℕ) : List ℕ → List GenCall
  | [] => []
  | sub :: subs =>
    match genCall k ie ieLen mbssid sub with
    | none => subCalls informed mbssid subs
    | some c => c :: if informed sub then subCalls informed mbssid subs else []

/-- The calls of `skw_gen_new_ie` for a body. -/
def genCalls (informed : ℕ → Bool) : List GenCall :=
  ((Lib.tlvAddrs ie 0 ieLen).filter fun e =>
    ie e = WLAN_EID_MULTIPLE_BSSID ∧ 4 ≤ Lib.tlvLen ie e).flatMap fun mbssid =>
      subCalls k ie ieLen informed mbssid
        (Lib.tlvAddrs ie (firstSub mbssid) (mbssid + 2 + Lib.tlvLen ie mbssid))

end
end Skw
