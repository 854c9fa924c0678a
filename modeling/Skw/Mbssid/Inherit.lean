import Skw.Mbssid.Merge
import Skw.Mbssid.Room
import Mathlib.Data.List.Find

/-! What `skw_gen_new_ie` writes is the merge of the transmitted elements with those of the profile:
its two loops, step by step, over memory that holds both lists. -/
namespace Skw
open Lib (Tlv tlvAt HoldsTlvs tlvMemory holdsTlvs_tlvMemory)

/-- An extension element has its extension identifier. -/
def HasExtId (e : Tlv) : Prop := e.id = SKW_WLAN_EID_EXTENSION → e.data ≠ []

instance decidableHasExtId : DecidablePred HasExtId := fun e => by
  unfold HasExtId; infer_instance

/-- The elements behind the first SSID. -/
def afterSsid (es : List Tlv) : List Tlv :=
  if es.any (·.id = WLAN_EID_SSID) then (es.dropWhile (·.id ≠ WLAN_EID_SSID)).tail else es

theorem afterSsid_of_forall {es : List Tlv} (h : ∀ e ∈ es, e.id ≠ WLAN_EID_SSID) :
    afterSsid es = es := by
  rw [afterSsid, if_neg]
  simpa using h

theorem afterSsid_append_cons {es es' : List Tlv} {e : Tlv} (h : ∀ x ∈ es, x.id ≠ WLAN_EID_SSID)
    (he : e.id = WLAN_EID_SSID) : afterSsid (es ++ e :: es') = es' := by
  rw [afterSsid, if_pos (by simp [he]), List.dropWhile_append_of_pos (by simpa using h),
    List.dropWhile_cons_of_neg (by simpa using he), List.tail_cons]

/-- The elements of the copy that are not used. -/
def unused (es : List Tlv) : List Tlv := es.filter (·.id ≠ WLAN_EID_SSID)

/-- An element that is marked as used. -/
def markUsed (e : Tlv) : Tlv := { e with id := WLAN_EID_SSID }

section
variable {es es' : List Tlv} {e : Tlv}

@[simp] theorem size_markUsed : (markUsed e).size = e.size := rfl

theorem hasExtId_markUsed : HasExtId (markUsed e) := fun h => absurd h (by simp [markUsed])

theorem unused_append : unused (es ++ es') = unused es ++ unused es' := List.filter_append ..

theorem unused_cons (h : e.id ≠ WLAN_EID_SSID) : unused (e :: es) = e :: unused es :=
  List.filter_cons_of_pos (by simpa using h)

theorem unused_markUsed_cons : unused (markUsed e :: es) = unused es :=
  List.filter_cons_of_neg (by simp [markUsed])

theorem unused_append_cons (h : e.id ≠ WLAN_EID_SSID) :
    unused (es ++ e :: es') = unused es ++ e :: unused es' := by
  rw [unused_append, unused_cons h]

theorem unused_append_markUsed : unused (es ++ markUsed e :: es') = unused es ++ unused es' := by
  rw [unused_append, unused_markUsed_cons]

end

/-- What the second loop copies. -/
def leftOver (es : List Tlv) : List Tlv :=
  (unused es).filter (·.id ≠ WLAN_EID_NON_TX_BSSID_CAP)

theorem leftOver_cons (e : Tlv) (es : List Tlv) :
    leftOver (e :: es) =
      (if e.id = WLAN_EID_NON_TX_BSSID_CAP ∨ e.id = WLAN_EID_SSID then [] else [e]) ++
        leftOver es := by
  unfold leftOver unused
  by_cases hid : e.id = WLAN_EID_SSID
  · rw [List.filter_cons_of_neg (by simpa using hid), if_pos (.inr hid)]
    rfl
  · rw [List.filter_cons_of_pos (by simpa using hid)]
    by_cases hcap : e.id = WLAN_EID_NON_TX_BSSID_CAP
    · rw [List.filter_cons_of_neg (by simpa using hcap), if_pos (.inl hcap)]
      rfl
    · rw [List.filter_cons_of_pos (by simpa using hcap), if_neg (not_or.mpr ⟨hcap, hid⟩)]
      rfl

section
variable {m : ℕ → BitVec 8} {a b tmp : ℕ} {es es' : List Tlv}

/-- The write to the identifier makes the element used, and changes no other one. -/
theorem holdsTlvs_mark (h : HoldsTlvs m a tmp es)
    (h' : HoldsTlvs m (tmp + (tlvAt m tmp).size) b es') :
    HoldsTlvs (Function.update m tmp WLAN_EID_SSID) a b (es ++ markUsed (tlvAt m tmp) :: es') := by
  have hsize := Lib.size_tlvAt m tmp
  have hne {i : ℕ} (hi : i ≠ tmp) : m i = Function.update m tmp WLAN_EID_SSID i :=
    (Function.update_of_ne hi ..).symm
  have hat : tlvAt (Function.update m tmp WLAN_EID_SSID) tmp = markUsed (tlvAt m tmp) := by
    have hlen : Lib.tlvLen (Function.update m tmp WLAN_EID_SSID) tmp = Lib.tlvLen m tmp := by
      rw [Lib.tlvLen, ← hne (by omega), Lib.tlvLen]
    simp only [tlvAt, markUsed, hlen, Tlv.mk.injEq, Function.update_self, true_and]
    apply List.map_congr_left
    intro i _
    exact (hne (by omega)).symm
  apply HoldsTlvs.append_iff.mpr
  refine ⟨tmp, h.congr fun i _ hi => hne (by omega), hat, ?_⟩
  rw [size_markUsed]
  exact h'.congr fun i hi _ => hne (by omega)

theorem take_data_eq {n : ℕ} (h : n ≤ (tlvAt m a).data.length) :
    (tlvAt m a).data.take n = Lib.load m (a + 2) n := by
  have hn : n ≤ Lib.tlvLen m a := by simpa [tlvAt] using h
  change (Lib.load m (a + 2) (Lib.tlvLen m a)).take n = _
  rw [Lib.load, ← List.map_take, List.take_range, Nat.min_eq_left hn, Lib.load]

end

section
variable {k : Cfg80211} {ie : ℕ → BitVec 8} {ieLen subLen : ℕ} {s : GenState}
  {old copy : List Tlv} {t : Tlv}

theorem elementType_tlvAt {m : ℕ → BitVec 8} {a : ℕ} (hid : m a = SKW_WLAN_EID_EXTENSION)
    (h : (tlvAt m a).data ≠ []) : elementType (tlvAt m a) = .ext (m (a + 2)) := by
  have hid : (tlvAt m a).id = SKW_WLAN_EID_EXTENSION := hid
  obtain ⟨n, hn⟩ : ∃ n, Lib.tlvLen m a = n + 1 := by
    apply Nat.exists_eq_succ_of_ne_zero
    intro hlen
    exact h (List.length_eq_zero_iff.mp (by rw [tlvAt, Lib.length_load, hlen]))
  rw [elementType, if_pos hid]
  change ElementType.ext ((Lib.load m (a + 2) (Lib.tlvLen m a)).getD 0 0) = _
  rw [hn, Lib.load_succ]
  rfl

theorem matchAt_ext_iff {m : ℕ → BitVec 8} {a : ℕ} {b : BitVec 8} (h : HasExtId (tlvAt m a)) :
    MatchAt SKW_WLAN_EID_EXTENSION m [b] 2 a ↔ elementType (tlvAt m a) = .ext b := by
  have hend : matchEnd [b].length 2 = 1 := by simp [matchEnd]
  by_cases hid : m a = SKW_WLAN_EID_EXTENSION
  · have hdata := h hid
    have hlen : 1 ≤ Lib.tlvLen m a := by
      have := List.length_pos_iff.mpr hdata
      rwa [tlvAt, Lib.length_load] at this
    rw [MatchAt, hend, elementType_tlvAt hid hdata]
    simp [hid, hlen, Lib.load]
  · have htype : elementType (tlvAt m a) ≠ .ext b := by
      rw [elementType_of_ne hid]
      exact ElementType.noConfusion
    exact iff_of_false (fun hm => hid hm.1) htype

/-- The search finds the first element of the type. -/
theorem findNew_eq (hold : HasExtId (tlvAt ie s.old)) (hcopy : HoldsTlvs s.copy 0 subLen copy)
    (hext : ∀ e ∈ copy, HasExtId e) :
    findNew k ie subLen s = (Lib.tlvAddrs s.copy 0 subLen).find?
      fun e => elementType (tlvAt s.copy e) = elementType (tlvAt ie s.old) := by
  unfold findNew
  split_ifs with hid
  · rw [findElem, Nat.zero_add, elementType_tlvAt hid (hold hid)]
    apply List.find?_congr
    intro e he
    have hne : HasExtId (tlvAt s.copy e) :=
      hext _ (hcopy.map_tlvAddrs ▸ List.mem_map_of_mem he)
    rw [decide_eq_decide]
    exact matchAt_ext_iff hne
  · rw [k.findIe_eq, Nat.zero_add, elementType_of_ne hid]
    apply List.find?_congr
    intro e _
    rw [decide_eq_decide]
    constructor
    · intro he
      have hne : (tlvAt s.copy e).id ≠ SKW_WLAN_EID_EXTENSION := fun h => hid (he.symm.trans h)
      rw [elementType_of_ne hne]
      exact congrArg ElementType.id he
    · exact elementType_eq_id

theorem findNew_eq_none (hold : HasExtId (tlvAt ie s.old)) (hcopy : HoldsTlvs s.copy 0 subLen copy)
    (hext : ∀ e ∈ copy, HasExtId e) (hf : findNew k ie subLen s = none) :
    ∀ x ∈ copy, elementType x ≠ elementType (tlvAt ie s.old) := by
  rw [findNew_eq hold hcopy hext] at hf
  simpa using hcopy.of_find?_eq_none (q := fun x => elementType x = elementType (tlvAt ie s.old)) hf

theorem findNew_eq_some {tmp : ℕ} (hold : HasExtId (tlvAt ie s.old))
    (hcopy : HoldsTlvs s.copy 0 subLen copy) (hext : ∀ e ∈ copy, HasExtId e)
    (hf : findNew k ie subLen s = some tmp) :
    ∃ es es', copy = es ++ tlvAt s.copy tmp :: es' ∧ HoldsTlvs s.copy 0 tmp es ∧
      HoldsTlvs s.copy (tmp + (tlvAt s.copy tmp).size) subLen es' ∧
      elementType (tlvAt s.copy tmp) = elementType (tlvAt ie s.old) ∧
      ∀ x ∈ es, elementType x ≠ elementType (tlvAt ie s.old) := by
  rw [findNew_eq hold hcopy hext] at hf
  simpa using hcopy.of_find?_eq_some (q := fun x => elementType x = elementType (tlvAt ie s.old)) hf

/-- Whether a vendor element stays beside the one of the profile that is found. -/
def Keeps (ie : ℕ → BitVec 8) (s : GenState) (tmp : ℕ) : Prop :=
  ie s.old = WLAN_EID_VENDOR_SPECIFIC ∧ Lib.load ie (s.old + 2) 5 ≠ Lib.load s.copy (tmp + 2) 5

theorem oldElement_of_none (hf : findNew k ie subLen s = none) :
    (oldElement k ie subLen none s).copy = s.copy ∧
      (oldElement k ie subLen none s).out = s.out ++
        if ie s.old = WLAN_EID_MULTIPLE_BSSID then [] else (tlvAt ie s.old).bytes := by
  rw [oldElement, hf]
  by_cases hid : ie s.old = WLAN_EID_MULTIPLE_BSSID
  · have hin : isElementInherited (tlvAt ie s.old) none = false := if_pos hid
    rw [if_pos hid]
    simp [hin]
  · have hin : isElementInherited (tlvAt ie s.old) none = true := if_neg hid
    rw [if_neg hid]
    simp [hin, Lib.load_eq_bytes]

theorem oldElement_of_keeps {tmp : ℕ} (hf : findNew k ie subLen s = some tmp)
    (h : Keeps ie s tmp) :
    (oldElement k ie subLen none s).copy = s.copy ∧
      (oldElement k ie subLen none s).out = s.out ++ (tlvAt ie s.old).bytes := by
  obtain ⟨hid, hdata⟩ := h
  rw [oldElement, hf]
  simp only [old_searched, copy_searched, GenState.old_touch, GenState.copy_touch]
  rw [if_pos hid, if_neg hdata]
  simp [Lib.load_eq_bytes]

theorem oldElement_of_not_keeps {tmp : ℕ} (hf : findNew k ie subLen s = some tmp)
    (h : ¬Keeps ie s tmp) :
    (oldElement k ie subLen none s).copy = Function.update s.copy tmp WLAN_EID_SSID ∧
      (oldElement k ie subLen none s).out = s.out ++ (tlvAt s.copy tmp).bytes := by
  rw [oldElement, hf]
  simp only [old_searched, copy_searched, GenState.old_touch, GenState.copy_touch]
  split_ifs with hid hdata
  · simp [Lib.load_eq_bytes]
  · exact absurd ⟨hid, hdata⟩ h
  · simp [Lib.load_eq_bytes]

/-- An element of the first loop is a step of the merge. -/
theorem oldElement_merged (hid : ie s.old ≠ 0) (hold : HasExtId (tlvAt ie s.old))
    (hcopy : HoldsTlvs s.copy 0 subLen copy) (hext : ∀ e ∈ copy, HasExtId e) :
    ∃ copy' es, HoldsTlvs (oldElement k ie subLen none s).copy 0 subLen copy' ∧
      (∀ e ∈ copy', HasExtId e) ∧
      (oldElement k ie subLen none s).out = s.out ++ es.flatMap Tlv.bytes ∧
      ∀ old out, Merged old (unused copy') out →
        Merged (tlvAt ie s.old :: old) (unused copy) (es ++ out) := by
  cases hf : findNew k ie subLen s with
  | none =>
    obtain ⟨hc, hout⟩ := oldElement_of_none hf
    have hnone : ∀ x ∈ unused copy, elementType x ≠ elementType (tlvAt ie s.old) := fun x hx =>
      findNew_eq_none hold hcopy hext hf x (List.mem_filter.mp hx).1
    rw [hc, hout]
    by_cases hmb : ie s.old = WLAN_EID_MULTIPLE_BSSID
    · rw [if_pos hmb]
      exact ⟨copy, [], hcopy, hext, rfl, fun old out h => .exclude hnone hmb h⟩
    · rw [if_neg hmb]
      exact ⟨copy, [tlvAt ie s.old], hcopy, hext, by simp, fun old out h => .inherit hnone hmb h⟩
  | some tmp =>
    obtain ⟨es, es', rfl, hbefore, hafter, htype, hfirst⟩ :=
      findNew_eq_some hold hcopy hext hf
    have hid' : (tlvAt s.copy tmp).id ≠ WLAN_EID_SSID := fun h =>
      hid ((findNew_some hf).1.symm.trans h)
    have hfirst : ∀ x ∈ unused es, elementType x ≠ elementType (tlvAt ie s.old) := fun x hx =>
      hfirst x (List.mem_filter.mp hx).1
    rw [unused_append_cons hid']
    by_cases hk : Keeps ie s tmp
    · obtain ⟨hc, hout⟩ := oldElement_of_keeps hf hk
      rw [hc, hout]
      refine ⟨_, [tlvAt ie s.old], hcopy, hext, by simp, fun old out h => ?_⟩
      rw [unused_append_cons hid'] at h
      apply Merged.keep hfirst htype hk.1 _ h
      intro hlen hlen'
      rw [take_data_eq hlen, take_data_eq hlen']
      exact hk.2
    · obtain ⟨hc, hout⟩ := oldElement_of_not_keeps hf hk
      rw [hc, hout]
      refine ⟨es ++ markUsed (tlvAt s.copy tmp) :: es', [tlvAt s.copy tmp],
        holdsTlvs_mark hbefore hafter, ?_, by simp, fun old out h => ?_⟩
      · rw [List.forall_mem_append, List.forall_mem_cons] at hext ⊢
        exact ⟨hext.1, hasExtId_markUsed, hext.2.2⟩
      · rw [unused_append_markUsed] at h
        apply Merged.replace hfirst htype _ h
        intro hvendor hlen hlen'
        rw [take_data_eq hlen, take_data_eq hlen']
        by_contra hdata
        exact hk ⟨hvendor, hdata⟩

/-- Before a pass of the first loop, with the elements that are left on both sides: what is still
to be merged completes what is written. -/
structure Merging (ie : ℕ → BitVec 8) (ieLen subLen : ℕ) (ssid full sub old copy es : List Tlv)
    (s : GenState) : Prop where
  old_holds : HoldsTlvs ie s.old ieLen old
  old_wf : ∀ e ∈ old, e.id ≠ WLAN_EID_SSID ∧ HasExtId e
  copy_holds : HoldsTlvs s.copy 0 subLen copy
  copy_wf : ∀ e ∈ copy, HasExtId e
  out_eq : s.out = (ssid ++ es).flatMap Tlv.bytes
  merged : ∀ out, Merged old (unused copy) out → Merged full (unused sub) (es ++ out)

variable {ssid full sub es : List Tlv}

namespace Merging

theorem touch {xs : List GenAccess} (h : Merging ie ieLen subLen ssid full sub old copy es s) :
    Merging ie ieLen subLen ssid full sub old copy es (s.touch xs) :=
  ⟨h.old_holds, h.old_wf, h.copy_holds, h.copy_wf, h.out_eq, h.merged⟩

theorem oldElement (h : Merging ie ieLen subLen ssid full sub (t :: old) copy es s) :
    ∃ copy' es', Merging ie ieLen subLen ssid full sub old copy' es'
      { Skw.oldElement k ie subLen none s with old := s.old + t.size } := by
  obtain ⟨⟨rfl, hold⟩, hwf, hcopy, hext, hout, hmerged⟩ := h
  obtain ⟨⟨hid, hoe⟩, hwf⟩ := List.forall_mem_cons.mp hwf
  obtain ⟨copy', es', hcopy', hext', hout', hstep⟩ :=
    oldElement_merged (k := k) hid hoe hcopy hext
  refine ⟨copy', es ++ es', hold, hwf, hcopy', hext', ?_, fun out h => ?_⟩
  · simp [hout', hout]
  · rw [List.append_assoc]
    exact hmerged _ (hstep _ _ h)

theorem oldPass_nil (h : Merging ie ieLen subLen ssid full sub [] copy es s) :
    ∃ xs, oldPass k ie ieLen subLen none s = .done (s.touch xs) := by
  have hend : s.old = ieLen := h.old_holds
  exact ⟨_, if_neg (by omega)⟩

/-- The loop is left at the last element. -/
theorem oldPass_cons (h : Merging ie ieLen subLen ssid full sub (t :: old) copy es s) :
    ∃ copy' es' r, Merging ie ieLen subLen ssid full sub old copy' es'
        { r with old := s.old + t.size } ∧
      oldPass k ie ieLen subLen none s =
        if old = [] then .done r else .next { r with old := s.old + t.size } := by
  have htouch : Merging ie ieLen subLen ssid full sub (t :: old) copy es
      (s.touch [.ie (s.old + 1) 1, .ie s.old 1]) := h.touch
  obtain ⟨copy', es', hr⟩ := htouch.oldElement (k := k)
  have hid : t.id ≠ WLAN_EID_SSID := (h.old_wf t (by simp)).1
  obtain ⟨rfl, hold⟩ := h.old_holds
  have hsize := Lib.size_tlvAt ie s.old
  rw [hsize] at hold
  have hle := hold.le
  have hlast := hold.eq_nil_iff
  refine ⟨copy', es', _, hr, ?_⟩
  have hid' : ¬ie s.old = 0 := hid
  rw [oldPass, if_pos (by omega), if_neg hid', hsize]
  simp only [← hlast]

end Merging

/-- Before a pass of the second loop: what is left of the copy completes what is written. -/
def CopyingLeft (subLen : ℕ) (ssid full sub : List Tlv) (p : ℕ × GenState) : Prop :=
  ∃ copy es, HoldsTlvs p.2.copy p.1 subLen copy ∧ p.2.out = (ssid ++ es).flatMap Tlv.bytes ∧
    Merged full (unused sub) (es ++ leftOver copy)

theorem Merging.copyingLeft (h : Merging ie ieLen subLen ssid full sub [] copy es s) :
    CopyingLeft subLen ssid full sub (0, s) :=
  ⟨copy, es, h.copy_holds, h.out_eq, h.merged _ (.nil _)⟩

theorem copyingLeft_of_loop_old {fuel : ℕ} {r : GenState}
    (h : Merging ie ieLen subLen ssid full sub old copy es s)
    (hr : Lib.loop (oldPass k ie ieLen subLen none) fuel s = some r) :
    CopyingLeft subLen ssid full sub (0, r) := by
  refine Lib.of_loop_eq
    (I := fun s => ∃ old copy es, Merging ie ieLen subLen ssid full sub old copy es s)
    (Q := fun s => CopyingLeft subLen ssid full sub (0, s)) ?_ ?_ ⟨old, copy, es, h⟩ hr
  · rintro s t ⟨old, copy, es, h⟩ hp
    cases old with
    | nil =>
      obtain ⟨xs, hnil⟩ := h.oldPass_nil (k := k)
      cases hnil.symm.trans hp
    | cons e old =>
      obtain ⟨copy', es', r, hr, hcons⟩ := h.oldPass_cons (k := k)
      rw [hcons] at hp
      split_ifs at hp
      cases hp
      exact ⟨old, copy', es', hr⟩
  · rintro s t ⟨old, copy, es, h⟩ hp
    cases old with
    | nil =>
      obtain ⟨xs, hnil⟩ := h.oldPass_nil (k := k)
      cases hnil.symm.trans hp
      exact h.touch.copyingLeft
    | cons e old =>
      obtain ⟨copy', es', r, hr, hcons⟩ := h.oldPass_cons (k := k)
      rw [hcons] at hp
      split_ifs at hp with hold
      cases hp
      subst hold
      exact ⟨copy', es', hr.copy_holds, hr.out_eq, hr.merged _ (.nil _)⟩

theorem newPass_nil {new : ℕ} (h : HoldsTlvs s.copy new subLen []) :
    ∃ xs, newPass subLen (new, s) = .done (new, s.touch xs) := by
  have hend : new = subLen := h
  exact ⟨_, if_neg (by omega)⟩

/-- The state behind an element in the second loop. -/
def newElement (new : ℕ) (s : GenState) : GenState :=
  let t := s.touch [.sub (new + 1) 1, .sub new 1]
  if s.copy new = WLAN_EID_NON_TX_BSSID_CAP ∨ s.copy new = WLAN_EID_SSID then t else t.copyNew new

@[simp] theorem copy_newElement (new : ℕ) : (newElement new s).copy = s.copy := by
  unfold newElement
  dsimp only
  split_ifs <;> rfl

theorem newPass_cons {new : ℕ} (h : HoldsTlvs s.copy new subLen (t :: copy)) :
    newPass subLen (new, s) =
      if copy = [] then .done (new, newElement new s)
      else .next (new + t.size, newElement new s) := by
  obtain ⟨rfl, hcopy⟩ := h
  have hsize := Lib.size_tlvAt s.copy new
  rw [hsize] at hcopy
  have hle := hcopy.le
  have hlast := hcopy.eq_nil_iff
  rw [newPass, if_pos (by omega), hsize]
  simp only [← hlast]
  rfl

theorem CopyingLeft.newElement {new : ℕ} (h : HoldsTlvs s.copy new subLen (t :: copy))
    (hout : s.out = (ssid ++ es).flatMap Tlv.bytes)
    (hm : Merged full (unused sub) (es ++ leftOver (t :: copy))) :
    ∃ es', (Skw.newElement new s).out = (ssid ++ es').flatMap Tlv.bytes ∧
      Merged full (unused sub) (es' ++ leftOver copy) := by
  obtain ⟨rfl, hcopy⟩ := h
  rw [leftOver_cons, ← List.append_assoc] at hm
  refine ⟨_, ?_, hm⟩
  unfold Skw.newElement
  by_cases hid : s.copy new = WLAN_EID_NON_TX_BSSID_CAP ∨ s.copy new = WLAN_EID_SSID
  · have hid' : (tlvAt s.copy new).id = WLAN_EID_NON_TX_BSSID_CAP ∨
        (tlvAt s.copy new).id = WLAN_EID_SSID := hid
    rw [if_pos hid, if_pos hid', List.append_nil]
    exact hout
  · have hid' : ¬((tlvAt s.copy new).id = WLAN_EID_NON_TX_BSSID_CAP ∨
        (tlvAt s.copy new).id = WLAN_EID_SSID) := hid
    rw [if_neg hid, if_neg hid']
    simp [hout, Lib.load_eq_bytes]

/-- All of it is written. -/
def AllMerged (ssid full sub : List Tlv) (s : GenState) : Prop :=
  ∃ es, s.out = (ssid ++ es).flatMap Tlv.bytes ∧ Merged full (unused sub) es

theorem allMerged_of_loop_new {fuel : ℕ} {p r : ℕ × GenState}
    (h : CopyingLeft subLen ssid full sub p) (hr : Lib.loop (newPass subLen) fuel p = some r) :
    AllMerged ssid full sub r.2 := by
  refine Lib.of_loop_eq (I := CopyingLeft subLen ssid full sub)
    (Q := fun p => AllMerged ssid full sub p.2) ?_ ?_ h hr
  · rintro ⟨new, s⟩ q ⟨copy, es, hcopy, hout, hm⟩ hp
    cases copy with
    | nil =>
      obtain ⟨xs, hnil⟩ := newPass_nil hcopy
      cases hnil.symm.trans hp
    | cons e copy =>
      rw [newPass_cons hcopy] at hp
      split_ifs at hp
      cases hp
      obtain ⟨es', hout', hm'⟩ := CopyingLeft.newElement hcopy hout hm
      exact ⟨copy, es', by simpa using hcopy.2, hout', hm'⟩
  · rintro ⟨new, s⟩ q ⟨copy, es, hcopy, hout, hm⟩ hp
    cases copy with
    | nil =>
      obtain ⟨xs, hnil⟩ := newPass_nil hcopy
      cases hnil.symm.trans hp
      exact ⟨es, hout, by simpa [leftOver, unused] using hm⟩
    | cons e copy =>
      rw [newPass_cons hcopy] at hp
      split_ifs at hp with hlast
      cases hp
      subst hlast
      obtain ⟨es', hout', hm'⟩ := CopyingLeft.newElement hcopy hout hm
      exact ⟨es', hout', by simpa [leftOver, unused] using hm'⟩

theorem genStart_merging {sub : ℕ → BitVec 8} {all new : List Tlv}
    (hie : HoldsTlvs ie 0 ieLen all) (hsub : HoldsTlvs sub 0 subLen new)
    (hold : ∀ e ∈ afterSsid all, e.id ≠ WLAN_EID_SSID ∧ HasExtId e)
    (hnew : ∀ e ∈ new, HasExtId e) :
    Merging ie ieLen subLen (new.find? (·.id = WLAN_EID_SSID)).toList (afterSsid all) new
      (afterSsid all) new [] (genStart k ie ieLen subLen sub) := by
  have hout : (genStart k ie ieLen subLen sub).out =
      (new.find? (·.id = WLAN_EID_SSID)).toList.flatMap Tlv.bytes := by
    have hfind : new.find? (·.id = WLAN_EID_SSID) =
        (k.findIe WLAN_EID_SSID sub 0 subLen).map (tlvAt sub) := by
      rw [k.findIe_eq, Nat.zero_add, ← hsub.map_tlvAddrs, List.find?_map]
      rfl
    rw [hfind]
    unfold genStart
    cases k.findIe WLAN_EID_SSID sub 0 subLen <;> cases k.findIe WLAN_EID_SSID ie 0 ieLen <;>
      simp [Lib.load_eq_bytes]
  have hcopy : (genStart k ie ieLen subLen sub).copy = sub := by
    unfold genStart
    cases k.findIe WLAN_EID_SSID sub 0 subLen <;> cases k.findIe WLAN_EID_SSID ie 0 ieLen <;> rfl
  have hstart : HoldsTlvs ie (genStart k ie ieLen subLen sub).old ieLen (afterSsid all) := by
    cases hf : k.findIe WLAN_EID_SSID ie 0 ieLen with
    | none =>
      have hzero : (genStart k ie ieLen subLen sub).old = 0 := by
        unfold genStart
        rw [hf]
        cases k.findIe WLAN_EID_SSID sub 0 subLen <;> rfl
      rw [k.findIe_eq, Nat.zero_add] at hf
      rw [hzero, afterSsid_of_forall]
      · exact hie
      · simpa using hie.of_find?_eq_none (q := fun x => x.id = WLAN_EID_SSID) hf
    | some e =>
      have hbehind : (genStart k ie ieLen subLen sub).old = e + (tlvAt ie e).size := by
        unfold genStart
        rw [hf, Lib.size_tlvAt]
        cases k.findIe WLAN_EID_SSID sub 0 subLen <;> rfl
      rw [k.findIe_eq, Nat.zero_add] at hf
      obtain ⟨es, es', rfl, -, hafter, hid, hfirst⟩ :=
        hie.of_find?_eq_some (q := fun x => x.id = WLAN_EID_SSID) hf
      rw [hbehind, afterSsid_append_cons (by simpa using hfirst) (by simpa using hid)]
      exact hafter
  refine ⟨hstart, hold, by rwa [hcopy], hnew, ?_, fun out h => h⟩
  rw [List.append_nil, hout]

end

/-- The Non-Inheritance element of a profile. -/
def nonInheritance (es : List Tlv) : Option Tlv :=
  es.find? (elementType · = .ext SKW_EID_EXT_NON_INHERITANCE)

/-- No transmitted element of the type is listed there. -/
def NotListed (old new : List Tlv) (τ : ElementType) : Prop :=
  ∀ e ∈ old, elementType e = τ → isElementInherited e (nonInheritance new) = true

/-- The elements of a non-transmitted BSSID out of the transmitted ones and those of its profile:
what is found of each type. -/
structure Inherited (old new out : List Tlv) : Prop where
  ssid : ofType (.id WLAN_EID_SSID) out = (new.find? (·.id = WLAN_EID_SSID)).toList
  mbssid : ofType (.id WLAN_EID_MULTIPLE_BSSID) out = ofType (.id WLAN_EID_MULTIPLE_BSSID) new
  cap : ofType (.id WLAN_EID_NON_TX_BSSID_CAP) out =
    (ofType (.id WLAN_EID_NON_TX_BSSID_CAP) new).take
      (ofType (.id WLAN_EID_NON_TX_BSSID_CAP) old).length ++
    (ofType (.id WLAN_EID_NON_TX_BSSID_CAP) old).drop
      (ofType (.id WLAN_EID_NON_TX_BSSID_CAP) new).length
  vendor : NotListed old new (.id WLAN_EID_VENDOR_SPECIFIC) →
    VendorMerged (ofType (.id WLAN_EID_VENDOR_SPECIFIC) old)
      (ofType (.id WLAN_EID_VENDOR_SPECIFIC) new) (ofType (.id WLAN_EID_VENDOR_SPECIFIC) out)
  other : ∀ τ, τ ≠ .id WLAN_EID_SSID → τ ≠ .id WLAN_EID_MULTIPLE_BSSID →
    τ ≠ .id WLAN_EID_NON_TX_BSSID_CAP → τ ≠ .id WLAN_EID_VENDOR_SPECIFIC → NotListed old new τ →
      ofType τ out = ofType τ new ++ (ofType τ old).drop (ofType τ new).length
  /-- Listed or not, the elements of the profile are there. -/
  own : ∀ τ, τ ≠ .id WLAN_EID_SSID → τ ≠ .id WLAN_EID_NON_TX_BSSID_CAP →
    (ofType τ new).Sublist (ofType τ out)
  only : ∀ e ∈ out, e ∈ old ∨ e ∈ new

/-- What is merged, behind the SSID. -/
theorem inherited_of_merged {old new out : List Tlv} (hold : ∀ e ∈ old, e.id ≠ WLAN_EID_SSID)
    (h : Merged old (unused new) out) :
    Inherited old new ((new.find? (·.id = WLAN_EID_SSID)).toList ++ out) := by
  have hssid : ∀ e ∈ (new.find? (·.id = WLAN_EID_SSID)).toList, e.id = WLAN_EID_SSID ∧ e ∈ new := by
    intro e he
    have he := Option.mem_toList.mp he
    exact ⟨by simpa using List.find?_some he, List.mem_of_find?_eq_some he⟩
  have htype : ∀ e ∈ (new.find? (·.id = WLAN_EID_SSID)).toList,
      elementType e = .id WLAN_EID_SSID := by
    intro e he
    exact elementType_of_id (hssid e he).1 (by decide)
  have hnil {τ : ElementType} (hτ : τ ≠ .id WLAN_EID_SSID) :
      ofType τ (new.find? (·.id = WLAN_EID_SSID)).toList = [] :=
    ofType_eq_nil fun e he ht => hτ (ht.symm.trans (htype e he))
  have hunused {τ : ElementType} (hτ : τ ≠ .id WLAN_EID_SSID) :
      ofType τ (unused new) = ofType τ new := ofType_filter_ne hτ (by decide) new
  refine ⟨?_, ?_, ?_, fun _ => ?_, fun τ hτ hmb hcap hvendor _ => ?_, fun τ hτ hcap => ?_, ?_⟩
  · have hout : ofType (.id WLAN_EID_SSID) out = [] := by
      apply ofType_eq_nil
      intro e he ht
      have hid := elementType_eq_id ht
      rcases h.mem_or_mem he with he | he
      · exact hold e he hid
      · simp [unused, hid] at he
    rw [ofType_append, hout, List.append_nil]
    exact List.filter_eq_self.mpr fun e he => decide_eq_true (htype e he)
  · rw [ofType_append, hnil (by decide), List.nil_append, h.ofType_mbssid, hunused (by decide)]
  · rw [ofType_append, hnil (by decide), List.nil_append, h.ofType_cap, hunused (by decide)]
  · rw [ofType_append, hnil (by decide), List.nil_append, ← hunused (by decide)]
    exact h.ofType_vendor
  · rw [ofType_append, hnil hτ, List.nil_append, h.ofType_eq hvendor hmb hcap, hunused hτ]
  · rw [ofType_append, hnil hτ, List.nil_append, ← hunused hτ]
    by_cases hmb : τ = .id WLAN_EID_MULTIPLE_BSSID
    · rw [hmb, h.ofType_mbssid]
    · by_cases hvendor : τ = .id WLAN_EID_VENDOR_SPECIFIC
      · rw [hvendor]
        exact h.ofType_vendor.sublist
      · rw [h.ofType_eq hvendor hmb hcap]
        exact List.sublist_append_left ..
  · intro e he
    rcases List.mem_append.mp he with he | he
    · exact .inr (hssid e he).2
    · exact (h.mem_or_mem he).imp_right fun he => (List.mem_filter.mp he).1

/-- The elements of a non-transmitted BSSID are those of its profile for the types that it has, one
for one in the place of the transmitted ones, and the other ones behind the SSID otherwise. -/
theorem genNewIe_inherited (k : Cfg80211) {ie sub : ℕ → BitVec 8} {ieLen subLen : ℕ}
    {all new : List Tlv} (hie : HoldsTlvs ie 0 ieLen all) (hsub : HoldsTlvs sub 0 subLen new)
    (hold : ∀ e ∈ afterSsid all, e.id ≠ WLAN_EID_SSID ∧ HasExtId e) (hnew : ∀ e ∈ new, HasExtId e) :
    ∃ s out, genNewIe k ie ieLen subLen (ieLen + subLen + 1) sub = some s ∧
      s.out = out.flatMap Tlv.bytes ∧ Inherited (afterSsid all) new out := by
  have hstart := genStart_merging (k := k) hie hsub hold hnew
  obtain ⟨s, hs⟩ : ∃ s, Lib.loop (oldPass k ie ieLen subLen none) (ieLen + subLen + 1)
      (genStart k ie ieLen subLen sub) = some s := by
    apply Lib.exists_loop_eq (fun s => ieLen - s.old)
    · exact fun s t h => lt_of_oldPass h
    · omega
  obtain ⟨p, hp⟩ : ∃ p, Lib.loop (newPass subLen) (ieLen + subLen + 1) (0, s) = some p := by
    apply Lib.exists_loop_eq (fun p => subLen - p.1)
    · exact fun p q h => lt_of_newPass h
    · omega
  obtain ⟨es, hout, hm⟩ := allMerged_of_loop_new (copyingLeft_of_loop_old hstart hs) hp
  refine ⟨p.2, _, ?_, hout, inherited_of_merged (fun e he => (hold e he).1) hm⟩
  rw [genNewIe, nonInheritElem_eq_none, hs, Option.bind_some, hp]
  rfl

/-- An SSID and two vendor elements. -/
def vendorBody : List Tlv :=
  [⟨0, [65], by decide⟩, ⟨221, [0, 80, 242, 2, 1, 1], by decide⟩,
    ⟨221, [0, 23, 242, 10, 0, 1], by decide⟩]

/-- A profile with a vendor element that begins as the first of them does. -/
def vendorProfile : List Tlv :=
  [⟨83, [1, 4], by decide⟩, ⟨85, [1], by decide⟩, ⟨221, [0, 80, 242, 2, 1, 9], by decide⟩]

theorem vendorProfile_inherited :
    ∃ s out, genNewIe .linear (tlvMemory vendorBody) 19 15 35 (tlvMemory vendorProfile) = some s ∧
      s.out = out.flatMap Tlv.bytes ∧ Inherited (afterSsid vendorBody) vendorProfile out :=
  genNewIe_inherited .linear (holdsTlvs_tlvMemory vendorBody) (holdsTlvs_tlvMemory vendorProfile)
    (by decide) (by decide)

/-- The other one is there beside the profile's vendor element. -/
theorem vendorProfile_beside :
    ∃ s out, genNewIe .linear (tlvMemory vendorBody) 19 15 35 (tlvMemory vendorProfile) = some s ∧
      s.out = out.flatMap Tlv.bytes ∧ nonInheritance vendorProfile = none ∧
      (ofType (.id WLAN_EID_VENDOR_SPECIFIC) vendorProfile).map Tlv.data =
        [[0, 80, 242, 2, 1, 9]] ∧
      (ofType (.id WLAN_EID_VENDOR_SPECIFIC) out).map Tlv.data =
        [[0, 80, 242, 2, 1, 9], [0, 23, 242, 10, 0, 1]] := by
  have hrun : (genNewIe .linear (tlvMemory vendorBody) 19 15 35 (tlvMemory vendorProfile)).map
      GenState.out = some (([⟨221, [0, 80, 242, 2, 1, 9], by decide⟩,
        ⟨221, [0, 23, 242, 10, 0, 1], by decide⟩, ⟨85, [1], by decide⟩] : List Tlv).flatMap
          Tlv.bytes) := by
    decide +kernel
  obtain ⟨s, hs, hout⟩ := Option.map_eq_some_iff.mp hrun
  exact ⟨s, _, hs, hout, by decide, by decide, by decide⟩

end Skw
