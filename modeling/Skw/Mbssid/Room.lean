import Skw.Mbssid.Generate

/-! When `skw_gen_new_ie`, called for the profiles that the multi-BSSID parser finds in a body,
stays inside its three buffers. Its loops end in any case. -/
namespace Skw

namespace GenAccess
variable {ieLen subLen a n : ℕ}

@[simp] theorem inside_ie : (ie a n).Inside ieLen subLen ↔ a + n ≤ ieLen := Iff.rfl

@[simp] theorem inside_sub : (sub a n).Inside ieLen subLen ↔ a + n ≤ subLen := Iff.rfl

@[simp] theorem inside_out : (out a n).Inside ieLen subLen ↔ a + n ≤ IEEE80211_MAX_DATA_LEN :=
  Iff.rfl

end GenAccess

/-- All accesses so far are inside. -/
def GenState.Inside (ieLen subLen : ℕ) (s : GenState) : Prop := ∀ x ∈ s.log, x.Inside ieLen subLen

namespace GenState
variable {ieLen subLen tmp : ℕ} {ie : ℕ → BitVec 8} {s : GenState}

@[simp] theorem inside_touch {xs : List GenAccess} :
    (s.touch xs).Inside ieLen subLen ↔
      s.Inside ieLen subLen ∧ ∀ x ∈ xs, x.Inside ieLen subLen :=
  List.forall_mem_append

@[simp] theorem inside_copyOld :
    (s.copyOld ie).Inside ieLen subLen ↔
      s.Inside ieLen subLen ∧ s.old + (Lib.tlvLen ie s.old + 2) ≤ ieLen ∧
        s.out.length + (Lib.tlvLen ie s.old + 2) ≤ IEEE80211_MAX_DATA_LEN := by
  simp [copyOld, Inside, List.forall_mem_append, -List.mem_append]

@[simp] theorem inside_copyNew :
    (s.copyNew tmp).Inside ieLen subLen ↔
      s.Inside ieLen subLen ∧ tmp + (Lib.tlvLen s.copy tmp + 2) ≤ subLen ∧
        s.out.length + (Lib.tlvLen s.copy tmp + 2) ≤ IEEE80211_MAX_DATA_LEN := by
  simp [copyNew, Inside, List.forall_mem_append, -List.mem_append]

@[simp] theorem inside_mark :
    (s.mark tmp).Inside ieLen subLen ↔ s.Inside ieLen subLen ∧ tmp + 1 ≤ subLen := by
  simp [mark, Inside, List.forall_mem_append, -List.mem_append]

end GenState

/-- The search reads inside the copy, so that only its reads of the pattern matter, where some
element is long enough to be compared. -/
theorem inside_findElemReads {eid : BitVec 8} {m : ℕ → BitVec 8} {stop ieLen offset : ℕ}
    {pat : List (BitVec 8)} {patReads : List GenAccess}
    (hend : matchEnd pat.length offset < 2 ^ 8 →
      offset + pat.length = matchEnd pat.length offset + 2)
    (fuel a : ℕ) :
    (∀ x ∈ findElemReads eid m stop pat offset patReads fuel a, x.Inside ieLen stop) ↔
      ((∃ e ∈ Lib.tlvWalk m stop fuel a, m e = eid ∧ matchEnd pat.length offset ≤ Lib.tlvLen m e) →
        ∀ x ∈ patReads, x.Inside ieLen stop) := by
  induction fuel generalizing a with
  | zero => simp [findElemReads, Lib.tlvWalk]
  | succ fuel ih =>
    rw [findElemReads, Lib.tlvWalk]
    by_cases hwhole : a + 2 + Lib.tlvLen m a ≤ stop
    · have hlt := Lib.tlvLen_lt m a
      have hhead : (GenAccess.sub a 2).Inside ieLen stop := by
        change a + 2 ≤ stop
        omega
      rw [if_pos (by omega), if_pos hwhole, if_pos hwhole]
      by_cases hm : m a = eid ∧ matchEnd pat.length offset ≤ Lib.tlvLen m a
      · have hpat : (GenAccess.sub (a + offset) pat.length).Inside ieLen stop := by
          change a + offset + pat.length ≤ stop
          have := hend (by omega)
          omega
        have hex : ∃ e ∈ a :: Lib.tlvWalk m stop fuel (a + 2 + Lib.tlvLen m a),
            m e = eid ∧ matchEnd pat.length offset ≤ Lib.tlvLen m e := ⟨a, by simp, hm⟩
        rw [if_pos hm]
        simp only [hex, forall_const, List.forall_mem_cons, List.forall_mem_append, hhead, hpat,
          true_and]
        constructor
        · exact fun h => h.1
        · intro h
          refine ⟨h, ?_⟩
          split_ifs
          · simp
          · exact (ih _).mpr fun _ => h
      · have hmatch : ¬MatchAt eid m pat offset a := fun h => hm ⟨h.1, h.2.1⟩
        rw [if_neg hm, if_neg hmatch, List.nil_append, List.forall_mem_cons, ih]
        simp [hhead, hm]
    · rw [if_neg hwhole, if_neg hwhole]
      split_ifs with hhead
      · simpa using hhead
      · simp

section
variable (k : Cfg80211) (ie : ℕ → BitVec 8) (ieLen subLen : ℕ)

/-- There is room for an element with so many bytes of data. -/
def GenState.Room (s : GenState) (n : ℕ) : Prop := s.out.length + n + 2 ≤ IEEE80211_MAX_DATA_LEN

/-- What the first loop needs for an element: for an extension element without data at the end of
the body, that no extension element of the profile has data to be compared; for a vendor element
five bytes behind both headers; and room for what is copied. -/
structure ElementFits (s : GenState) : Prop where
  extension : ie s.old = SKW_WLAN_EID_EXTENSION → s.old + 2 = ieLen →
    ∀ e ∈ Lib.tlvAddrs s.copy 0 subLen, s.copy e = SKW_WLAN_EID_EXTENSION →
      Lib.tlvLen s.copy e = 0
  inherit : findNew k ie subLen s = none → ie s.old ≠ WLAN_EID_MULTIPLE_BSSID →
    s.Room (Lib.tlvLen ie s.old)
  vendor : ∀ tmp, findNew k ie subLen s = some tmp → ie s.old = WLAN_EID_VENDOR_SPECIFIC →
    s.old + 7 ≤ ieLen ∧ tmp + 7 ≤ subLen ∧
      s.Room (if Lib.load ie (s.old + 2) 5 = Lib.load s.copy (tmp + 2) 5 then
        Lib.tlvLen s.copy tmp else Lib.tlvLen ie s.old)
  replace : ∀ tmp, findNew k ie subLen s = some tmp → ie s.old ≠ WLAN_EID_VENDOR_SPECIFIC →
    s.Room (Lib.tlvLen s.copy tmp)

/-- What it needs before a pass: that no element begins at the last byte or at the end, and what
it needs for an element that lies whole in the body. -/
def OldFits (s : GenState) : Prop :=
  s.old + 1 < ieLen ∧
    (s.old + (Lib.tlvLen ie s.old + 2) ≤ ieLen → ie s.old ≠ 0 → ElementFits k ie ieLen subLen s)

/-- What the second loop needs: that no element begins at the last byte of the profile, and room
for what is copied. -/
def NewFits (p : ℕ × GenState) : Prop :=
  p.1 + 1 < subLen ∧
    (p.1 + (Lib.tlvLen p.2.copy p.1 + 2) ≤ subLen →
      p.2.copy p.1 ≠ WLAN_EID_NON_TX_BSSID_CAP → p.2.copy p.1 ≠ WLAN_EID_SSID →
        p.2.Room (Lib.tlvLen p.2.copy p.1))

end

section
variable {k : Cfg80211} {ie : ℕ → BitVec 8} {ieLen subLen : ℕ} {s : GenState}

theorem findNew_some {tmp : ℕ} (h : findNew k ie subLen s = some tmp) :
    s.copy tmp = ie s.old ∧ tmp + (Lib.tlvLen s.copy tmp + 2) ≤ subLen := by
  unfold findNew at h
  split_ifs at h with hid
  · obtain ⟨⟨hm, -⟩, -, hend⟩ := findElem_some h
    exact ⟨hm.trans hid.symm, by omega⟩
  · obtain ⟨hm, -, hend⟩ := k.findIe_some h
    exact ⟨hm, by omega⟩

/-- What the search for an element needs: an extension element without data at the end of the body
has no byte to be compared with. -/
def SearchFits (ie : ℕ → BitVec 8) (ieLen subLen : ℕ) (s : GenState) : Prop :=
  ie s.old = SKW_WLAN_EID_EXTENSION → s.old + 2 = ieLen →
    ∀ e ∈ Lib.tlvAddrs s.copy 0 subLen, s.copy e = SKW_WLAN_EID_EXTENSION →
      Lib.tlvLen s.copy e = 0

/-- The search for an extension element compares the byte behind the header of the transmitted
one where the profile has an extension element with data. -/
theorem inside_searched (hold : s.old + 2 ≤ ieLen) :
    (searched ie subLen s).Inside ieLen subLen ↔
      s.Inside ieLen subLen ∧ SearchFits ie ieLen subLen s := by
  unfold searched SearchFits
  split_ifs with hid
  · have hend : matchEnd [ie (s.old + 2)].length 2 = 1 := by simp [matchEnd]
    rw [GenState.inside_touch, inside_findElemReads fun _ => by rw [hend]; rfl, hend, Lib.tlvAddrs,
      Nat.sub_zero, forall_prop_of_true hid]
    apply and_congr_right
    intro _
    simp only [List.forall_mem_singleton, GenAccess.inside_ie]
    constructor
    · intro h heq e he hid
      by_contra hne
      have := h ⟨e, he, hid, by omega⟩
      omega
    · rintro h ⟨e, he, hid, hlen⟩
      by_contra hout
      have := h (by omega) e he hid
      omega
  · exact (and_iff_left fun h => absurd h hid).symm

theorem isElementInherited_none (elem : Lib.Tlv) :
    isElementInherited elem none = true ↔ elem.id ≠ WLAN_EID_MULTIPLE_BSSID := by
  by_cases hid : elem.id = WLAN_EID_MULTIPLE_BSSID
  · simp [isElementInherited, hid]
  · have hin : isElementInherited elem none = true := by
      rw [isElementInherited, if_neg hid]
    exact iff_of_true hin hid

theorem elementFits_of_none (hf : findNew k ie subLen s = none) :
    ElementFits k ie ieLen subLen s ↔ SearchFits ie ieLen subLen s ∧
      (ie s.old ≠ WLAN_EID_MULTIPLE_BSSID → s.Room (Lib.tlvLen ie s.old)) := by
  constructor
  · exact fun h => ⟨h.extension, h.inherit hf⟩
  · exact fun h => ⟨h.1, fun _ => h.2, fun tmp ht => by simp [hf] at ht,
      fun tmp ht => by simp [hf] at ht⟩

theorem elementFits_of_some {tmp : ℕ} (hf : findNew k ie subLen s = some tmp) :
    ElementFits k ie ieLen subLen s ↔ SearchFits ie ieLen subLen s ∧
      (ie s.old = WLAN_EID_VENDOR_SPECIFIC → s.old + 7 ≤ ieLen ∧ tmp + 7 ≤ subLen ∧
        s.Room (if Lib.load ie (s.old + 2) 5 = Lib.load s.copy (tmp + 2) 5 then
          Lib.tlvLen s.copy tmp else Lib.tlvLen ie s.old)) ∧
      (ie s.old ≠ WLAN_EID_VENDOR_SPECIFIC → s.Room (Lib.tlvLen s.copy tmp)) := by
  constructor
  · exact fun h => ⟨h.extension, h.vendor tmp hf, h.replace tmp hf⟩
  · intro h
    refine ⟨h.1, fun hn => by simp [hf] at hn, fun u hu => ?_, fun u hu => ?_⟩
    · obtain rfl : tmp = u := Option.some.inj (hf.symm.trans hu)
      exact h.2.1
    · obtain rfl : tmp = u := Option.some.inj (hf.symm.trans hu)
      exact h.2.2

theorem inside_oldElement_of_none (hold : s.old + (Lib.tlvLen ie s.old + 2) ≤ ieLen)
    (hf : findNew k ie subLen s = none) :
    (oldElement k ie subLen none s).Inside ieLen subLen ↔
      s.Inside ieLen subLen ∧ ElementFits k ie ieLen subLen s := by
  rw [elementFits_of_none hf, ← and_assoc, ← inside_searched (by omega), oldElement, hf]
  simp only [Option.map_none, inheritReads, GenState.old_touch, old_searched,
    isElementInherited_none]
  by_cases hid : ie s.old = WLAN_EID_MULTIPLE_BSSID
  · have hne : ¬(Lib.tlvAt ie s.old).id ≠ WLAN_EID_MULTIPLE_BSSID := not_not.mpr hid
    rw [if_neg hne, GenState.inside_touch, forall_prop_of_false (not_not.mpr hid)]
    exact and_congr_right fun _ => iff_of_true (by simp) trivial
  · have hne : (Lib.tlvAt ie s.old).id ≠ WLAN_EID_MULTIPLE_BSSID := hid
    rw [if_pos hne, GenState.inside_copyOld, GenState.inside_touch, forall_prop_of_true hid]
    simp only [GenState.old_touch, old_searched, GenState.out_touch, out_searched, GenState.Room]
    constructor
    · rintro ⟨⟨hs, -⟩, -, hroom⟩
      exact ⟨hs, by omega⟩
    · rintro ⟨hs, hroom⟩
      exact ⟨⟨hs, by simp⟩, hold, by omega⟩

theorem inside_oldElement_of_some {tmp : ℕ} (hold : s.old + (Lib.tlvLen ie s.old + 2) ≤ ieLen)
    (hf : findNew k ie subLen s = some tmp) :
    (oldElement k ie subLen none s).Inside ieLen subLen ↔
      s.Inside ieLen subLen ∧ ElementFits k ie ieLen subLen s := by
  have htmp := (findNew_some hf).2
  rw [elementFits_of_some hf, ← and_assoc, ← inside_searched (by omega), oldElement, hf]
  simp only [old_searched, copy_searched, GenState.old_touch, GenState.copy_touch]
  by_cases hid : ie s.old = WLAN_EID_VENDOR_SPECIFIC
  · have hne : ¬ie s.old ≠ WLAN_EID_VENDOR_SPECIFIC := not_not.mpr hid
    simp only [if_pos hid, forall_prop_of_true hid, forall_prop_of_false hne, and_true]
    by_cases heq : Lib.load ie (s.old + 2) 5 = Lib.load s.copy (tmp + 2) 5
    · rw [if_pos heq, if_pos heq]
      simp only [GenState.inside_mark, GenState.inside_copyNew, GenState.inside_touch,
        List.forall_mem_cons, GenAccess.inside_ie, GenAccess.inside_sub, GenState.copy_touch,
        copy_searched, GenState.out_touch, out_searched, GenState.Room]
      constructor
      · rintro ⟨⟨⟨hs, hie, hsub, -⟩, -, hroom⟩, -⟩
        exact ⟨hs, by omega, by omega, by omega⟩
      · rintro ⟨hs, hie, hsub, hroom⟩
        exact ⟨⟨⟨hs, by omega, by omega, by simp⟩, htmp, by omega⟩, by omega⟩
    · rw [if_neg heq, if_neg heq]
      simp only [GenState.inside_copyOld, GenState.inside_touch, List.forall_mem_cons,
        GenAccess.inside_ie, GenAccess.inside_sub, GenState.old_touch, old_searched,
        GenState.out_touch, out_searched, GenState.Room]
      constructor
      · rintro ⟨⟨hs, hie, hsub, -⟩, -, hroom⟩
        exact ⟨hs, by omega, by omega, by omega⟩
      · rintro ⟨hs, hie, hsub, hroom⟩
        exact ⟨⟨hs, by omega, by omega, by simp⟩, hold, by omega⟩
  · rw [if_neg hid, forall_prop_of_false hid, forall_prop_of_true hid]
    simp only [GenState.inside_mark, GenState.inside_copyNew, copy_searched, out_searched,
      GenState.Room]
    constructor
    · rintro ⟨⟨hs, -, hroom⟩, -⟩
      exact ⟨hs, trivial, by omega⟩
    · rintro ⟨hs, -, hroom⟩
      exact ⟨⟨hs, htmp, by omega⟩, by omega⟩

theorem inside_oldElement (hold : s.old + (Lib.tlvLen ie s.old + 2) ≤ ieLen) :
    (oldElement k ie subLen none s).Inside ieLen subLen ↔
      s.Inside ieLen subLen ∧ ElementFits k ie ieLen subLen s := by
  cases hf : findNew k ie subLen s with
  | none => exact inside_oldElement_of_none hold hf
  | some tmp => exact inside_oldElement_of_some hold hf

theorem elementFits_touch (s : GenState) (xs : List GenAccess) :
    ElementFits k ie ieLen subLen (s.touch xs) ↔ ElementFits k ie ieLen subLen s :=
  ⟨fun h => ⟨h.extension, h.inherit, h.vendor, h.replace⟩,
    fun h => ⟨h.extension, h.inherit, h.vendor, h.replace⟩⟩

theorem inside_oldPass (s : GenState) :
    (oldPass k ie ieLen subLen none s).state.Inside ieLen subLen ↔
      s.Inside ieLen subLen ∧ OldFits k ie ieLen subLen s := by
  by_cases hwhole : s.old + (Lib.tlvLen ie s.old + 2) ≤ ieLen
  · have hlen : (s.touch [.ie (s.old + 1) 1, .ie s.old 1]).Inside ieLen subLen ↔
        s.Inside ieLen subLen ∧ s.old + 1 < ieLen := by
      simp only [GenState.inside_touch, List.forall_mem_cons, GenAccess.inside_ie]
      exact and_congr_right fun _ => ⟨fun h => h.1, fun h => ⟨h, by omega, by simp⟩⟩
    rw [OldFits, ← and_assoc, ← hlen, oldPass, if_pos hwhole, forall_prop_of_true hwhole]
    by_cases hzero : ie s.old = 0
    · rw [if_pos hzero, forall_prop_of_false (not_not.mpr hzero)]
      exact (and_iff_left trivial).symm
    · have helem := @inside_oldElement k ie ieLen subLen
        (s.touch [.ie (s.old + 1) 1, .ie s.old 1]) hwhole
      rw [elementFits_touch] at helem
      rw [if_neg hzero, forall_prop_of_true hzero, ← helem]
      dsimp only
      split_ifs
      · exact Iff.rfl
      · exact Iff.rfl
  · rw [OldFits, oldPass, if_neg hwhole, forall_prop_of_false hwhole]
    simp only [Lib.Pass.state, GenState.inside_touch, List.forall_mem_singleton,
      GenAccess.inside_ie]
    exact and_congr_right fun _ => ⟨fun h => ⟨h, trivial⟩, fun h => h.1⟩

theorem inside_newPass (p : ℕ × GenState) :
    (newPass subLen p).state.2.Inside ieLen subLen ↔
      p.2.Inside ieLen subLen ∧ NewFits subLen p := by
  obtain ⟨new, s⟩ := p
  by_cases hwhole : new + (Lib.tlvLen s.copy new + 2) ≤ subLen
  · have hlen : (s.touch [.sub (new + 1) 1, .sub new 1]).Inside ieLen subLen ↔
        s.Inside ieLen subLen ∧ new + 1 < subLen := by
      simp only [GenState.inside_touch, List.forall_mem_cons, GenAccess.inside_sub]
      exact and_congr_right fun _ => ⟨fun h => h.1, fun h => ⟨h, by omega, by simp⟩⟩
    have hcopy : (if s.copy new = WLAN_EID_NON_TX_BSSID_CAP ∨ s.copy new = WLAN_EID_SSID then
          s.touch [.sub (new + 1) 1, .sub new 1]
        else (s.touch [.sub (new + 1) 1, .sub new 1]).copyNew new).Inside ieLen subLen ↔
        (s.Inside ieLen subLen ∧ new + 1 < subLen) ∧
          (s.copy new ≠ WLAN_EID_NON_TX_BSSID_CAP → s.copy new ≠ WLAN_EID_SSID →
            s.Room (Lib.tlvLen s.copy new)) := by
      rw [← hlen]
      split_ifs with hid
      · exact (and_iff_left fun h h' => absurd hid (by tauto)).symm
      · rw [GenState.inside_copyNew]
        apply and_congr_right
        intro _
        constructor
        · exact fun h _ _ => h.2
        · exact fun h => ⟨hwhole, h (fun h => hid (.inl h)) fun h => hid (.inr h)⟩
    simp only [NewFits]
    rw [newPass, if_pos hwhole, forall_prop_of_true hwhole, ← and_assoc, ← hcopy]
    split_ifs
    · exact Iff.rfl
    · exact Iff.rfl
    · exact Iff.rfl
    · exact Iff.rfl
  · simp only [NewFits]
    rw [newPass, if_neg hwhole, forall_prop_of_false hwhole]
    simp only [Lib.Pass.state, GenState.inside_touch, List.forall_mem_singleton,
      GenAccess.inside_sub]
    exact and_congr_right fun _ => ⟨fun h => ⟨h, trivial⟩, fun h => h.1⟩

/-- A pass that goes on moves forward. -/
theorem lt_of_oldPass {nonInherit : Option ℕ} {t : GenState}
    (h : oldPass k ie ieLen subLen nonInherit s = .next t) : ieLen - t.old < ieLen - s.old := by
  unfold oldPass at h
  dsimp only at h
  split_ifs at h with hwhole hzero hlast
  · cases h
    dsimp only
    omega
  · cases h
    dsimp only
    omega

theorem lt_of_newPass {p q : ℕ × GenState} (h : newPass subLen p = .next q) :
    subLen - q.1 < subLen - p.1 := by
  unfold newPass at h
  dsimp only at h
  split_ifs at h with hwhole hid hlast
  all_goals
    cases h
    dsimp only
    omega

theorem inside_ssid (sub : ℕ → BitVec 8) :
    (match k.findIe WLAN_EID_SSID sub 0 subLen with
      | some tmp => (⟨0, sub, [], []⟩ : GenState).copyNew tmp
      | none => ⟨0, sub, [], []⟩).Inside ieLen subLen := by
  have hinit : (⟨0, sub, [], []⟩ : GenState).Inside ieLen subLen := by simp [GenState.Inside]
  cases hf : k.findIe WLAN_EID_SSID sub 0 subLen with
  | none => exact hinit
  | some tmp =>
    have hend := (k.findIe_some hf).2.2
    have hlt := Lib.tlvLen_lt sub tmp
    rw [GenState.inside_copyNew]
    refine ⟨hinit, by dsimp only; omega, ?_⟩
    simp only [List.length_nil, IEEE80211_MAX_DATA_LEN]
    omega

theorem inside_genStart (sub : ℕ → BitVec 8) :
    (genStart k ie ieLen subLen sub).Inside ieLen subLen := by
  have hreads : ∀ x ∈ findElemReads SKW_WLAN_EID_EXTENSION sub subLen
      [SKW_EID_EXT_NON_INHERITANCE] 0 [] subLen 0, x.Inside ieLen subLen :=
    (inside_findElemReads (by decide) subLen 0).mpr fun _ => by simp
  unfold genStart
  dsimp only
  cases hf : k.findIe WLAN_EID_SSID ie 0 ieLen with
  | none => exact GenState.inside_touch.mpr ⟨inside_ssid sub, hreads⟩
  | some old =>
    have hend := (k.findIe_some hf).2.2
    refine GenState.inside_touch.mpr ⟨GenState.inside_touch.mpr ⟨inside_ssid sub, hreads⟩, ?_⟩
    rw [List.forall_mem_singleton, GenAccess.inside_ie]
    omega

theorem nonInheritElem_eq_none (sub : ℕ → BitVec 8) : nonInheritElem subLen sub = none :=
  findElem_of_lt (by decide) _ _ _ _

end

section
variable (k : Cfg80211) (ie : ℕ → BitVec 8) (ieLen : ℕ) (c : GenCall)

/-- More passes than either loop of a call takes. -/
def genFuel : ℕ := ieLen + c.subLen + 1

/-- The loops of a call end, and all that it reads and writes is inside. -/
def GenSafe : Prop :=
  ∃ s, genNewIe k ie ieLen c.subLen (genFuel ieLen c) c.sub = some s ∧ s.Inside ieLen c.subLen

/-- The states before the passes of the first loop, and of the second. -/
def oldStates : List GenState :=
  Lib.passes (oldPass k ie ieLen c.subLen (nonInheritElem c.subLen c.sub)) (genFuel ieLen c)
    (genStart k ie ieLen c.subLen c.sub)

def newStates : List (ℕ × GenState) :=
  (Lib.loop (oldPass k ie ieLen c.subLen (nonInheritElem c.subLen c.sub)) (genFuel ieLen c)
    (genStart k ie ieLen c.subLen c.sub)).elim [] fun s =>
      Lib.passes (newPass c.subLen) (genFuel ieLen c) (0, s)

end

theorem genSafe_iff (k : Cfg80211) (ie : ℕ → BitVec 8) (ieLen : ℕ) (c : GenCall) :
    GenSafe k ie ieLen c ↔
      (∀ s ∈ oldStates k ie ieLen c, OldFits k ie ieLen c.subLen s) ∧
        ∀ p ∈ newStates k ie ieLen c, NewFits c.subLen p := by
  obtain ⟨s, hs⟩ : ∃ s, Lib.loop (oldPass k ie ieLen c.subLen (nonInheritElem c.subLen c.sub))
      (genFuel ieLen c) (genStart k ie ieLen c.subLen c.sub) = some s := by
    apply Lib.exists_loop_eq (fun s => ieLen - s.old)
    · exact fun s t h => lt_of_oldPass h
    · unfold genFuel
      omega
  obtain ⟨p, hp⟩ : ∃ p, Lib.loop (newPass c.subLen) (genFuel ieLen c) (0, s) = some p := by
    apply Lib.exists_loop_eq (fun p => c.subLen - p.1)
    · exact fun p q h => lt_of_newPass h
    · unfold genFuel
      omega
  have hrun : genNewIe k ie ieLen c.subLen (genFuel ieLen c) c.sub = some p.2 := by
    rw [genNewIe, hs, Option.bind_some, hp]
    rfl
  have hold := Lib.loop_iff (P := GenState.Inside ieLen c.subLen)
    (F := OldFits k ie ieLen c.subLen)
    (by rw [nonInheritElem_eq_none]; exact inside_oldPass) hs
  have hnew := Lib.loop_iff (P := fun p : ℕ × GenState => p.2.Inside ieLen c.subLen)
    (F := NewFits c.subLen) (fun p => inside_newPass p) hp
  have hstart : (genStart k ie ieLen c.subLen c.sub).Inside ieLen c.subLen := inside_genStart c.sub
  rw [GenSafe, hrun, newStates, hs, Option.elim_some, oldStates]
  simp only [Option.some.injEq, exists_eq_left']
  rw [hnew, hold, and_iff_right hstart]

/-- A body that ends with the SSID, behind a Multiple BSSID element with one profile. -/
def ssidLast (i : ℕ) : BitVec 8 := [71, 10, 1, 0, 7, 83, 2, 1, 4, 85, 1, 1, 0, 1, 65].getD i 0

end Skw
