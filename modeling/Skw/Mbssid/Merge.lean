import Skw.Mbssid.Generate

/-! What the elements of a non-transmitted BSSID are meant to be: the transmitted elements merged
with those of its profile, type by type. -/
namespace Skw
open Lib (Tlv)

/-- What two elements have in common that stand for each other: the identifier, or that of the
extension. -/
inductive ElementType
  | id (eid : BitVec 8)
  | ext (extId : BitVec 8)
deriving DecidableEq

def elementType (e : Tlv) : ElementType :=
  if e.id = SKW_WLAN_EID_EXTENSION then .ext (e.data.getD 0 0) else .id e.id

/-- The elements of a type. -/
def ofType (τ : ElementType) (es : List Tlv) : List Tlv := es.filter (elementType · = τ)

/-- A vendor element takes the place of another one, and does not, as far as the first five bytes
of both tell: what follows them in shorter ones is not said. -/
def MayReplace (old new : Tlv) : Prop :=
  5 ≤ old.data.length → 5 ≤ new.data.length → old.data.take 5 = new.data.take 5

def MayDiffer (old new : Tlv) : Prop :=
  5 ≤ old.data.length → 5 ≤ new.data.length → old.data.take 5 ≠ new.data.take 5

/-- The merge of transmitted elements with the elements of the profile that are not used yet. -/
inductive Merged : List Tlv → List Tlv → List Tlv → Prop
  | nil (new : List Tlv) : Merged [] new (new.filter (·.id ≠ WLAN_EID_NON_TX_BSSID_CAP))
  | inherit {t : Tlv} {old new out : List Tlv} (hnone : ∀ s ∈ new, elementType s ≠ elementType t)
      (hid : t.id ≠ WLAN_EID_MULTIPLE_BSSID) (h : Merged old new out) :
      Merged (t :: old) new (t :: out)
  | exclude {t : Tlv} {old new out : List Tlv} (hnone : ∀ s ∈ new, elementType s ≠ elementType t)
      (hid : t.id = WLAN_EID_MULTIPLE_BSSID) (h : Merged old new out) : Merged (t :: old) new out
  | replace {t s : Tlv} {old new new' out : List Tlv}
      (hfirst : ∀ x ∈ new, elementType x ≠ elementType t) (hs : elementType s = elementType t)
      (hvendor : t.id = WLAN_EID_VENDOR_SPECIFIC → MayReplace t s)
      (h : Merged old (new ++ new') out) : Merged (t :: old) (new ++ s :: new') (s :: out)
  | keep {t s : Tlv} {old new new' out : List Tlv}
      (hfirst : ∀ x ∈ new, elementType x ≠ elementType t) (hs : elementType s = elementType t)
      (hvendor : t.id = WLAN_EID_VENDOR_SPECIFIC) (hdiffer : MayDiffer t s)
      (h : Merged old (new ++ s :: new') out) : Merged (t :: old) (new ++ s :: new') (t :: out)

/-- The merge of the vendor elements alone: each transmitted one is compared with the first of the
profile that is not used yet. -/
inductive VendorMerged : List Tlv → List Tlv → List Tlv → Prop
  | nil (new : List Tlv) : VendorMerged [] new new
  | inherit {t : Tlv} {old out : List Tlv} (h : VendorMerged old [] out) :
      VendorMerged (t :: old) [] (t :: out)
  | replace {t s : Tlv} {old new out : List Tlv} (hsame : MayReplace t s)
      (h : VendorMerged old new out) : VendorMerged (t :: old) (s :: new) (s :: out)
  | keep {t s : Tlv} {old new out : List Tlv} (hdiffer : MayDiffer t s)
      (h : VendorMerged old (s :: new) out) : VendorMerged (t :: old) (s :: new) (t :: out)

section
variable {τ : ElementType} {e : Tlv} {es es' : List Tlv}

theorem elementType_of_ne (h : e.id ≠ SKW_WLAN_EID_EXTENSION) : elementType e = .id e.id :=
  if_neg h

@[simp] theorem ofType_nil : ofType τ [] = [] := rfl

theorem ofType_cons_of_eq (h : elementType e = τ) : ofType τ (e :: es) = e :: ofType τ es :=
  List.filter_cons_of_pos (by simpa using h)

theorem ofType_cons_of_ne (h : elementType e ≠ τ) : ofType τ (e :: es) = ofType τ es :=
  List.filter_cons_of_neg (by simpa using h)

theorem elementType_eq_id {eid : BitVec 8} (h : elementType e = .id eid) : e.id = eid := by
  unfold elementType at h
  split_ifs at h
  exact ElementType.id.inj h

theorem elementType_of_id {eid : BitVec 8} (h : e.id = eid) (hext : eid ≠ SKW_WLAN_EID_EXTENSION) :
    elementType e = .id eid := by
  rw [elementType_of_ne (h ▸ hext), h]

theorem elementType_ne_of_id {eid eid' : BitVec 8} (h : e.id = eid) (hne : eid ≠ eid') :
    elementType e ≠ .id eid' := fun ht => hne (h.symm.trans (elementType_eq_id ht))

@[simp] theorem ofType_append : ofType τ (es ++ es') = ofType τ es ++ ofType τ es' :=
  List.filter_append ..

theorem ofType_eq_nil (h : ∀ x ∈ es, elementType x ≠ τ) : ofType τ es = [] :=
  List.filter_eq_nil_iff.mpr fun x hx => by simpa using h x hx

theorem ofType_filter_ne {eid : BitVec 8} (h : τ ≠ .id eid) (hext : eid ≠ SKW_WLAN_EID_EXTENSION)
    (es : List Tlv) : ofType τ (es.filter (·.id ≠ eid)) = ofType τ es := by
  rw [ofType, ofType, List.filter_filter]
  apply List.filter_congr
  intro x _
  by_cases hx : elementType x = τ
  · have hid : x.id ≠ eid := by
      rintro rfl
      exact h (hx.symm.trans (elementType_of_ne hext))
    simp [hx, hid]
  · simp [hx]

/-- The first element of the type, with the ones that are left. -/
theorem ofType_append_cons {s : Tlv} (hfirst : ∀ x ∈ es, elementType x ≠ τ)
    (hs : elementType s = τ) :
    ofType τ (es ++ s :: es') = s :: ofType τ (es ++ es') := by
  rw [ofType_append, ofType_append, ofType_eq_nil hfirst, ofType_cons_of_eq hs]
  rfl

theorem ofType_append_cons_of_ne {s : Tlv} (hs : elementType s ≠ τ) :
    ofType τ (es ++ s :: es') = ofType τ (es ++ es') := by
  rw [ofType_append, ofType_append, ofType_cons_of_ne hs]

end

namespace Merged
variable {old new out : List Tlv}

/-- For every other type the elements of the profile come first, and as many of the transmitted
ones are left out. -/
theorem ofType_eq {τ : ElementType} (h : Merged old new out)
    (hvendor : τ ≠ .id WLAN_EID_VENDOR_SPECIFIC) (hmbssid : τ ≠ .id WLAN_EID_MULTIPLE_BSSID)
    (hcap : τ ≠ .id WLAN_EID_NON_TX_BSSID_CAP) :
    ofType τ out = ofType τ new ++ (ofType τ old).drop (ofType τ new).length := by
  induction h with
  | nil new =>
    rw [ofType_filter_ne hcap (by decide), ofType_nil, List.drop_nil, List.append_nil]
  | @inherit t old new out hnone hid h ih =>
    by_cases ht : elementType t = τ
    · have hnew : ofType τ new = [] := ofType_eq_nil (ht ▸ hnone)
      rw [ofType_cons_of_eq ht, ofType_cons_of_eq ht, ih, hnew]
      rfl
    · rw [ofType_cons_of_ne ht, ofType_cons_of_ne ht, ih]
  | @exclude t old new out hnone hid h ih =>
    have ht : elementType t ≠ τ := fun ht =>
      hmbssid (ht.symm.trans (elementType_of_id hid (by decide)))
    rw [ofType_cons_of_ne ht, ih]
  | @replace t s old new new' out hfirst hs _ h ih =>
    by_cases ht : elementType t = τ
    · rw [ofType_append_cons (ht ▸ hfirst) (hs.trans ht), ofType_cons_of_eq ht,
        ofType_cons_of_eq (hs.trans ht), ih]
      rfl
    · have hs : elementType s ≠ τ := hs ▸ ht
      rw [ofType_append_cons_of_ne hs, ofType_cons_of_ne ht, ofType_cons_of_ne hs, ih]
  | @keep t s old new new' out hfirst hs hid _ h ih =>
    have ht : elementType t ≠ τ := fun ht =>
      hvendor (ht.symm.trans (elementType_of_id hid (by decide)))
    rw [ofType_cons_of_ne ht, ofType_cons_of_ne ht, ih]

/-- No transmitted Multiple BSSID element is taken over. -/
theorem ofType_mbssid (h : Merged old new out) :
    ofType (.id WLAN_EID_MULTIPLE_BSSID) out = ofType (.id WLAN_EID_MULTIPLE_BSSID) new := by
  induction h with
  | nil new => exact ofType_filter_ne (by decide) (by decide) new
  | @inherit t old new out hnone hid h ih =>
    have ht : elementType t ≠ .id WLAN_EID_MULTIPLE_BSSID := fun ht => hid (elementType_eq_id ht)
    rw [ofType_cons_of_ne ht, ih]
  | exclude _ _ _ ih => exact ih
  | @replace t s old new new' out hfirst hs _ h ih =>
    by_cases ht : elementType t = .id WLAN_EID_MULTIPLE_BSSID
    · rw [ofType_append_cons (ht ▸ hfirst) (hs.trans ht), ofType_cons_of_eq (hs.trans ht), ih]
    · have hs : elementType s ≠ .id WLAN_EID_MULTIPLE_BSSID := hs ▸ ht
      rw [ofType_append_cons_of_ne hs, ofType_cons_of_ne hs, ih]
  | @keep t s old new new' out hfirst hs hid _ h ih =>
    have ht : elementType t ≠ .id WLAN_EID_MULTIPLE_BSSID :=
      elementType_ne_of_id hid (by decide)
    rw [ofType_cons_of_ne ht, ih]

theorem ofType_vendor (h : Merged old new out) :
    VendorMerged (ofType (.id WLAN_EID_VENDOR_SPECIFIC) old)
      (ofType (.id WLAN_EID_VENDOR_SPECIFIC) new) (ofType (.id WLAN_EID_VENDOR_SPECIFIC) out) := by
  induction h with
  | nil new =>
    rw [ofType_filter_ne (by decide) (by decide)]
    exact .nil _
  | @inherit t old new out hnone hid h ih =>
    by_cases ht : elementType t = .id WLAN_EID_VENDOR_SPECIFIC
    · have hnew : ofType (.id WLAN_EID_VENDOR_SPECIFIC) new = [] := ofType_eq_nil (ht ▸ hnone)
      rw [hnew] at ih ⊢
      rw [ofType_cons_of_eq ht, ofType_cons_of_eq ht]
      exact .inherit ih
    · rwa [ofType_cons_of_ne ht, ofType_cons_of_ne ht]
  | @exclude t old new out hnone hid h ih =>
    have ht : elementType t ≠ .id WLAN_EID_VENDOR_SPECIFIC :=
      elementType_ne_of_id hid (by decide)
    rwa [ofType_cons_of_ne ht]
  | @replace t s old new new' out hfirst hs hvendor h ih =>
    by_cases ht : elementType t = .id WLAN_EID_VENDOR_SPECIFIC
    · rw [ofType_append_cons (ht ▸ hfirst) (hs.trans ht), ofType_cons_of_eq ht,
        ofType_cons_of_eq (hs.trans ht)]
      exact .replace (hvendor (elementType_eq_id ht)) ih
    · have hs : elementType s ≠ .id WLAN_EID_VENDOR_SPECIFIC := hs ▸ ht
      rwa [ofType_append_cons_of_ne hs, ofType_cons_of_ne ht, ofType_cons_of_ne hs]
  | @keep t s old new new' out hfirst hs hid hdiffer h ih =>
    have ht : elementType t = .id WLAN_EID_VENDOR_SPECIFIC := elementType_of_id hid (by decide)
    rw [ofType_append_cons (ht ▸ hfirst) (hs.trans ht)] at ih ⊢
    rw [ofType_cons_of_eq ht, ofType_cons_of_eq ht]
    exact .keep hdiffer ih

/-- As many elements of this type are taken over as are transmitted. -/
theorem ofType_cap (h : Merged old new out) :
    ofType (.id WLAN_EID_NON_TX_BSSID_CAP) out =
      (ofType (.id WLAN_EID_NON_TX_BSSID_CAP) new).take
        (ofType (.id WLAN_EID_NON_TX_BSSID_CAP) old).length ++
      (ofType (.id WLAN_EID_NON_TX_BSSID_CAP) old).drop
        (ofType (.id WLAN_EID_NON_TX_BSSID_CAP) new).length := by
  induction h with
  | nil new =>
    rw [ofType_nil, List.length_nil, List.take_zero, List.drop_nil, List.append_nil]
    apply ofType_eq_nil
    intro x hx ht
    have hid := (List.mem_filter.mp hx).2
    simp [elementType_eq_id ht] at hid
  | @inherit t old new out hnone hid h ih =>
    by_cases ht : elementType t = .id WLAN_EID_NON_TX_BSSID_CAP
    · have hnew : ofType (.id WLAN_EID_NON_TX_BSSID_CAP) new = [] := ofType_eq_nil (ht ▸ hnone)
      rw [ofType_cons_of_eq ht, ofType_cons_of_eq ht, ih, hnew]
      simp
    · rw [ofType_cons_of_ne ht, ofType_cons_of_ne ht, ih]
  | @exclude t old new out hnone hid h ih =>
    have ht : elementType t ≠ .id WLAN_EID_NON_TX_BSSID_CAP :=
      elementType_ne_of_id hid (by decide)
    rw [ofType_cons_of_ne ht, ih]
  | @replace t s old new new' out hfirst hs _ h ih =>
    by_cases ht : elementType t = .id WLAN_EID_NON_TX_BSSID_CAP
    · rw [ofType_append_cons (ht ▸ hfirst) (hs.trans ht), ofType_cons_of_eq ht,
        ofType_cons_of_eq (hs.trans ht), ih]
      rfl
    · have hs : elementType s ≠ .id WLAN_EID_NON_TX_BSSID_CAP := hs ▸ ht
      rw [ofType_append_cons_of_ne hs, ofType_cons_of_ne ht, ofType_cons_of_ne hs, ih]
  | @keep t s old new new' out hfirst hs hid _ h ih =>
    have ht : elementType t ≠ .id WLAN_EID_NON_TX_BSSID_CAP :=
      elementType_ne_of_id hid (by decide)
    rw [ofType_cons_of_ne ht, ofType_cons_of_ne ht, ih]

theorem mem_or_mem (h : Merged old new out) {e : Tlv} (he : e ∈ out) : e ∈ old ∨ e ∈ new := by
  induction h with
  | nil new => exact .inr (List.mem_filter.mp he).1
  | inherit _ _ _ ih | exclude _ _ _ ih | replace _ _ _ _ ih | keep _ _ _ _ _ ih =>
    simp only [List.mem_cons, List.mem_append] at he ih ⊢
    tauto

end Merged

/-- All vendor elements of the profile are there. -/
theorem VendorMerged.sublist {old new out : List Tlv} (h : VendorMerged old new out) :
    new.Sublist out := by
  induction h with
  | nil new => exact List.Sublist.refl new
  | inherit _ _ => exact List.nil_sublist _
  | replace _ _ ih => exact ih.cons_cons _
  | keep _ _ ih => exact ih.cons _

end Skw
