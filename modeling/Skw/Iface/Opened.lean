import Skw.Iface.Vif
import Skw.Lib.Machine

/-! The count of the opened devices is right between operations, and the types in use are a
combination that is advertised, as long as interfaces go through opened and closed states in
order. -/
namespace Skw
namespace VifSys

/-- What the books say between operations. -/
structure Booked (checkCombs : (Iftype → ℤ) → ℤ) (s : VifSys) : Prop where
  openedDev : s.openedDev.toNat = s.openCount
  closes : ∀ x ∈ s.closes, x.1 = x.2
  combs : checkCombs s.countIftype = 0

/-- One interface of type `type` more. -/
def numAdded (num : Iftype → ℤ) (type : Iftype) (t : Iftype) : ℤ :=
  num t + if t = type then 1 else 0

/-- The slot that `skw_add_virtual_intf` asks for. -/
def idFor (type : Iftype) : Option IfaceId := if type = .p2pDevice then some (Fin.last 3) else none

/-- An added interface that cannot be registered is closed with success, and one that stays fits in
by itself; a type is changed, and an interface deleted, with the device open if the command that
closes it succeeds and only then. -/
def Orderly (checkCombs : (Iftype → ℤ) → ℤ) (s : VifSys) : VifEvent → Prop
  | .addVirtualIntf type r =>
    (s.allocInst (idFor type)).isSome = true → r.alloc = true → r.initRet = 0 → r.openRet = 0 →
      if type ≠ .p2pDevice ∧ (r.netdevRet ≠ 0 ∨ r.registerRet ≠ 0) then 0 ≤ r.closeRet
      else type ≠ .p2pDevice → checkCombs (numAdded s.countIftype type) = 0
  | .changeIntf n type r =>
    (s.iface n).all fun f =>
      f.legacyP2pDev || f.iftype == type ||
        checkCombs (numChanged s.countIftype type f.iftype) != 0 || r.closeRet < 0 ||
        f.opened && (f.iftype != .p2pDevice || r.initRet != 0 || r.openRet != 0 ||
          checkCombs (numAdded s.countIftype type) == 0)
  | .delIface n closeRet => opens (s.iface n) = decide (0 ≤ closeRet)
  | .recoveryWork .. => True

instance (checkCombs : (Iftype → ℤ) → ℤ) (s : VifSys) (e : VifEvent) :
    Decidable (s.Orderly checkCombs e) :=
  match e with
  | .addVirtualIntf .. => inferInstanceAs (Decidable (_ → _ → _ → _ → ite _ _ _))
  | .changeIntf .. => inferInstanceAs (Decidable (_ = true))
  | .delIface .. => inferInstanceAs (Decidable (_ = _))
  | .recoveryWork .. => inferInstanceAs (Decidable True)

section
variable {s t : VifSys} {n : IfaceId} {f : VifIface} {x : Option VifIface}

/-- An interface whose device was opened, in its slot. -/
def withOpen (s : VifSys) (n : IfaceId) (f : VifIface) : VifSys :=
  { s.setVif n (some f) with openedDev := s.openedDev + 1 }

theorem ifaceSetup_ok {iftype : Iftype} {initRet openRet : ℤ} (hi : initRet = 0)
    (ho : openRet = 0) :
    s.ifaceSetup f iftype initRet openRet =
      (0, { f with opened := true, iftype }, { s with openedDev := s.openedDev + 1 }) := by
  rw [ifaceSetup, if_neg (not_not.mpr hi), if_neg (not_not.mpr ho)]

theorem ifaceSetup_fail {iftype : Iftype} {initRet openRet : ℤ}
    (hr : initRet ≠ 0 ∨ openRet ≠ 0) :
    ∃ ret, ret ≠ 0 ∧ s.ifaceSetup f iftype initRet openRet = (ret, f, s) := by
  unfold ifaceSetup
  by_cases hi : initRet = 0
  · have ho := hr.resolve_left (not_not.mpr hi)
    exact ⟨openRet, ho, by rw [if_neg (not_not.mpr hi), if_pos ho]⟩
  · exact ⟨initRet, hi, by rw [if_pos hi]⟩

theorem openCount_le (s : VifSys) : s.openCount ≤ 4 := by
  unfold openCount Lib.tally
  exact (Finset.card_le_univ _).trans (Fintype.card_fin SKW_NR_IFACE).le

theorem countIftype_congr (h : ∀ m i, countsAs i (t.iface m) = countsAs i (s.iface m)) :
    t.countIftype = s.countIftype := by
  funext i
  unfold countIftype
  simp only [h]

theorem countIftype_nonneg (s : VifSys) (i : Iftype) : 0 ≤ s.countIftype i := Int.natCast_nonneg _

theorem countsAs_le (i : Iftype) (f : VifIface) :
    (countsAs i (some f)).toNat ≤ if i = f.iftype then 1 else 0 := by
  by_cases hi : i = f.iftype
  · rw [if_pos hi]
    exact Bool.toNat_le _
  · rw [if_neg hi]
    simp [countsAs, Ne.symm hi]

theorem iface_setVif_self (s : VifSys) (n : IfaceId) (x : Option VifIface) :
    (s.setVif n x).iface n = x := Function.update_self ..

theorem iface_setVif_of_ne (s : VifSys) {n m : IfaceId} (x : Option VifIface) (h : m ≠ n) :
    (s.setVif n x).iface m = s.iface m := Function.update_of_ne h ..

theorem setVif_eq_self (h : s.iface n = x) : s.setVif n x = s := by
  unfold setVif
  rw [← h, Function.update_eq_self]

theorem openCount_setVif (s : VifSys) (n : IfaceId) (x : Option VifIface) :
    (s.setVif n x).openCount + (opens (s.iface n)).toNat = s.openCount + (opens x).toNat := by
  have h := Lib.tally_of_eq_off (p := fun m => opens (s.iface m))
    (q := fun m => opens ((s.setVif n x).iface m)) n
    fun m hm => congrArg opens (iface_setVif_of_ne s x hm)
  simpa only [openCount, iface_setVif_self] using h

theorem countIftype_setVif (s : VifSys) (n : IfaceId) (x : Option VifIface) (i : Iftype) :
    (s.setVif n x).countIftype i + (countsAs i (s.iface n)).toNat =
      s.countIftype i + (countsAs i x).toNat := by
  have h := Lib.tally_of_eq_off (p := fun m => countsAs i (s.iface m))
    (q := fun m => countsAs i ((s.setVif n x).iface m)) n
    fun m hm => congrArg (countsAs i) (iface_setVif_of_ne s x hm)
  simp only [iface_setVif_self] at h
  simp only [countIftype]
  omega

/-- The count of the devices is the number of the opened ones, the closings found it so, and an
interface is in a slot that is taken. -/
structure Tracked (s : VifSys) : Prop where
  openedDev : s.openedDev = BitVec.ofNat 16 s.openCount
  closes : ∀ x ∈ s.closes, x.1 = x.2
  slots : ∀ m, (s.iface m).isSome = true → s.bitmap m = true

theorem Tracked.toNat (h : s.Tracked) : s.openedDev.toNat = s.openCount := by
  have := s.openCount_le
  rw [h.openedDev, BitVec.toNat_ofNat, Nat.mod_eq_of_lt (by omega)]

theorem Tracked.openedDev_eq_zero (h : s.Tracked) : s.openedDev = 0 ↔ s.openCount = 0 := by
  have := h.toNat
  constructor
  · intro h0
    rw [h0] at this
    exact this.symm
  · intro h0
    exact BitVec.eq_of_toNat_eq (this.trans h0)

/-- A slot that is taken gets another interface in the same state. -/
theorem Tracked.setVif (h : s.Tracked) (hb : s.bitmap n = true) (hx : opens x = opens (s.iface n)) :
    (s.setVif n x).Tracked where
  openedDev := by
    have := s.openCount_setVif n x
    rw [hx] at this
    exact h.openedDev.trans (congrArg _ (Nat.add_right_cancel this).symm)
  closes := h.closes
  slots m hm := by
    by_cases he : m = n
    · exact he ▸ hb
    · rw [iface_setVif_of_ne s x he] at hm
      exact h.slots m hm

theorem Tracked.withOpen (h : s.Tracked) (hb : s.bitmap n = true) (ho : f.opened = true)
    (hn : opens (s.iface n) = false) : (s.withOpen n f).Tracked where
  openedDev := by
    have hcount := s.openCount_setVif n (some f)
    have hopen : opens (some f) = true := ho
    rw [hopen, hn] at hcount
    have hone : (s.setVif n (some f)).openCount = s.openCount + 1 := hcount
    have hdev : (s.withOpen n f).openedDev = s.openedDev + 1 := rfl
    rw [hdev, h.openedDev]
    exact (BitVec.ofNat_add ..).symm.trans (congrArg _ hone.symm)
  closes := h.closes
  slots m hm := by
    by_cases he : m = n
    · exact he ▸ hb
    · exact h.slots m (by rwa [← iface_setVif_of_ne s (some f) he])

theorem Tracked.setInst_true (h : s.Tracked) (n : IfaceId) : (s.setInst n true).Tracked where
  openedDev := h.openedDev
  closes := h.closes
  slots m hm := by
    by_cases he : m = n
    · exact he ▸ Function.update_self ..
    · exact (Function.update_of_ne he ..).trans (h.slots m hm)

theorem Tracked.setInst_false (h : s.Tracked) (hn : s.iface n = none) :
    (s.setInst n false).Tracked where
  openedDev := h.openedDev
  closes := h.closes
  slots m hm := by
    have he : m ≠ n := by
      intro he
      rw [he] at hm
      simp [setInst, hn] at hm
    exact (Function.update_of_ne he ..).trans (h.slots m hm)

/-- An interface that is not open leaves its slot. -/
theorem Tracked.remove (h : s.Tracked) (hn : opens (s.iface n) = false) :
    ((s.setVif n none).setInst n false).Tracked := by
  have hcount := s.openCount_setVif n none
  rw [hn] at hcount
  constructor
  · exact h.openedDev.trans (congrArg _ (Nat.add_right_cancel hcount).symm)
  · exact h.closes
  · intro m hm
    by_cases he : m = n
    · rw [he] at hm
      simp [setInst, iface_setVif_self] at hm
    · exact (Function.update_of_ne he ..).trans
        (h.slots m (by rwa [← iface_setVif_of_ne s none he]))

theorem Tracked.close (h : s.Tracked) (hf : s.iface n = some f) (ho : f.opened = true) :
    Tracked { s.setVif n (some { f with opened := false }) with openedDev := s.openedDev - 1 } where
  openedDev := by
    have hcount := s.openCount_setVif n (some { f with opened := false })
    have hopen : opens (s.iface n) = true := by rw [hf]; exact ho
    rw [hopen] at hcount
    have hone : s.openCount = (s.setVif n (some { f with opened := false })).openCount + 1 :=
      hcount.symm
    rw [h.openedDev, hone, BitVec.ofNat_add]
    exact BitVec.add_sub_cancel ..
  closes := h.closes
  slots m hm := by
    by_cases he : m = n
    · exact h.slots m (by rw [he, hf]; rfl)
    · exact h.slots m (by rwa [← iface_setVif_of_ne s _ he])

theorem Tracked.closeDev (h : s.Tracked) (hf : s.iface n = some f) (ho : f.opened = true) :
    (s.closeDev n f).Tracked := by
  have ht := h.close hf ho
  constructor
  · exact ht.openedDev
  · intro x hx
    rcases List.mem_cons.mp hx with rfl | hx
    · rw [Bool.eq_iff_iff, beq_iff_eq, beq_iff_eq]
      exact ht.openedDev_eq_zero.symm
    · exact h.closes x hx
  · exact ht.slots

/-- The credits go to 0 with the last device and stay with every other. -/
theorem fwCredit_closeDev (h : s.Tracked) (hf : s.iface n = some f) (ho : f.opened = true)
    (l : Fin SKW_MAX_LMAC_SUPPORT) (hl : l.val < s.nrLmac) :
    (s.closeDev n f).fwCredit l = if s.openCount = 1 then 0 else s.fwCredit l := by
  have ht := (h.close hf ho).openedDev_eq_zero
  have hcount := s.openCount_setVif n (some { f with opened := false })
  have hopen : opens (s.iface n) = true := by rw [hf]; exact ho
  rw [hopen] at hcount
  have hone : (s.setVif n (some { f with opened := false })).openCount + 1 = s.openCount := hcount
  apply if_congr _ rfl rfl
  constructor
  · intro hz
    have hnone := ht.mp hz.1
    have hsame : (s.setVif n (some { f with opened := false })).openCount = 0 := hnone
    omega
  · intro hs
    have hsame : (s.setVif n (some { f with opened := false })).openCount = 0 := by omega
    exact ⟨ht.mpr hsame, hl⟩

theorem ifaceTeardown_of_neg {closeRet : ℤ} (hf : s.iface n = some f) (hr : closeRet < 0) :
    s.ifaceTeardown n closeRet = (closeRet, s) := by
  simp only [ifaceTeardown, hf, if_pos hr]

theorem ifaceTeardown_of_nonneg {closeRet : ℤ} (hf : s.iface n = some f) (hr : 0 ≤ closeRet) :
    s.ifaceTeardown n closeRet = (0, s.closeDev n f) := by
  simp only [ifaceTeardown, hf, if_neg (not_lt.mpr hr)]

theorem iface_closeDev (s : VifSys) (n : IfaceId) (f : VifIface) :
    (s.closeDev n f).iface = (s.setVif n (some { f with opened := false })).iface := rfl

theorem countIftype_eq (h : t.iface = s.iface) : t.countIftype = s.countIftype :=
  countIftype_congr fun m i => congrArg (countsAs i) (congrFun h m)

/-- The closed interface still counts as before. -/
theorem countIftype_closeDev (hf : s.iface n = some f) :
    (s.closeDev n f).countIftype = s.countIftype := by
  apply countIftype_congr
  intro m i
  rw [iface_closeDev]
  by_cases he : m = n
  · rw [he, iface_setVif_self, hf]
    rfl
  · rw [iface_setVif_of_ne s _ he]

theorem countIftype_setVif_none_le (s : VifSys) (n : IfaceId) (i : Iftype) :
    (s.setVif n none).countIftype i ≤ s.countIftype i := by
  have h := s.countIftype_setVif n none i
  have hnone : (countsAs i none).toNat = 0 := rfl
  omega

end

section
variable {checkCombs : (Iftype → ℤ) → ℤ} {s : VifSys} {n : IfaceId} {f : VifIface}

structure Inv (checkCombs : (Iftype → ℤ) → ℤ) (s : VifSys) : Prop extends Tracked s where
  combs : checkCombs s.countIftype = 0

theorem Inv.booked (h : s.Inv checkCombs) : s.Booked checkCombs :=
  ⟨h.toTracked.toNat, h.closes, h.combs⟩

variable (hmono : DownwardClosed checkCombs)
include hmono

theorem Inv.remove (h : s.Inv checkCombs) (hn : opens (s.iface n) = false) :
    ((s.setVif n none).setInst n false).Inv checkCombs where
  toTracked := h.toTracked.remove hn
  combs := hmono _ _ (countIftype_nonneg _) (s.countIftype_setVif_none_le n) h.combs

theorem Inv.delIface (h : s.Inv checkCombs) (hf : s.iface n = some f) {closeRet : ℤ}
    (hg : opens (s.iface n) = decide (0 ≤ closeRet)) : (s.delIface n closeRet).Inv checkCombs := by
  have ho : opens (s.iface n) = f.opened := by rw [hf]; rfl
  unfold VifSys.delIface
  by_cases hr : 0 ≤ closeRet
  · rw [ifaceTeardown_of_nonneg hf hr]
    have hopen : f.opened = true := by simpa [hr] using ho.symm.trans hg
    have hclosed : (s.closeDev n f).Inv checkCombs :=
      ⟨h.toTracked.closeDev hf hopen, (congrArg _ (countIftype_closeDev hf)).trans h.combs⟩
    apply hclosed.remove hmono
    rw [iface_closeDev, iface_setVif_self]
    rfl
  · rw [ifaceTeardown_of_neg hf (not_le.mp hr)]
    apply h.remove hmono
    simpa [hr] using hg

end

section
variable {s : VifSys} {n : IfaceId} {id : Option IfaceId} {iftype : Iftype} {r : AddEnv}

theorem bitmap_of_allocInst (h : s.allocInst id = some n) : s.bitmap n = false := by
  cases id with
  | none =>
    have hfree := List.find?_some h
    simpa using hfree
  | some m =>
    simp only [allocInst] at h
    split at h
    · cases h
    · next hm =>
      cases h
      simpa using hm

theorem Tracked.iface_eq_none (h : s.Tracked) (hn : s.bitmap n = false) : s.iface n = none := by
  by_contra hne
  have := h.slots n (Option.isSome_iff_ne_none.mpr hne)
  rw [hn] at this
  cases this

/-- A new interface in its slot. -/
def withNew (s : VifSys) (n : IfaceId) (iftype : Iftype) : VifSys :=
  (s.setInst n true).withOpen n ⟨true, false, iftype⟩

theorem addIface_of_setup {needNdev : Bool} (ha : s.allocInst id = some n) (hm : r.alloc = true)
    (hi : r.initRet = 0) (ho : r.openRet = 0) :
    (s.addIface iftype id needNdev r).2 =
      if needNdev = true ∧ (r.netdevRet ≠ 0 ∨ r.registerRet ≠ 0) then
        (((s.withNew n iftype).ifaceTeardown n r.closeRet).2.setVif n none).setInst n false
      else s.withNew n iftype := by
  simp only [addIface, ha, hm, ifaceSetup_ok hi ho]
  rw [if_neg Bool.noConfusion, if_neg (not_not.mpr rfl)]
  split <;> rfl

/-- Nothing is left of an interface that got no memory or no device. -/
theorem addIface_of_fail {needNdev : Bool} (ha : s.allocInst id = some n)
    (hr : r.alloc = false ∨ r.initRet ≠ 0 ∨ r.openRet ≠ 0) :
    (s.addIface iftype id needNdev r).2 = (s.setInst n true).setInst n false := by
  simp only [addIface, ha]
  split
  · rfl
  · next hm =>
    rcases hr with hr | hr
    · exact absurd hr hm
    · obtain ⟨ret, hret, hu⟩ : ∃ ret, ret ≠ 0 ∧
          (s.setInst n true).ifaceSetup ⟨false, false, .unspecified⟩ iftype r.initRet r.openRet =
            (ret, _, s.setInst n true) := ifaceSetup_fail hr
      simp only [hu, if_pos hret]

theorem countIftype_withNew_le (s : VifSys) (n : IfaceId) (iftype i : Iftype) :
    (s.withNew n iftype).countIftype i ≤ numAdded s.countIftype iftype i := by
  have h := (s.setInst n true).countIftype_setVif n (some ⟨true, false, iftype⟩) i
  have hcount : (s.withNew n iftype).countIftype i =
    ((s.setInst n true).setVif n (some ⟨true, false, iftype⟩)).countIftype i := rfl
  have hset : (s.setInst n true).countIftype i = s.countIftype i := rfl
  have hnew : (countsAs i (some ⟨true, false, iftype⟩)).toNat ≤ if i = iftype then 1 else 0 :=
    countsAs_le ..
  unfold numAdded
  by_cases hi : i = iftype
  · rw [if_pos hi] at hnew ⊢
    omega
  · rw [if_neg hi] at hnew ⊢
    omega

/-- A P2P device is not counted. -/
theorem countIftype_withNew_p2pDevice (hn : s.iface n = none) :
    (s.withNew n .p2pDevice).countIftype = s.countIftype := by
  apply countIftype_congr
  intro m i
  have hiface : (s.withNew n .p2pDevice).iface =
    ((s.setInst n true).setVif n (some ⟨true, false, .p2pDevice⟩)).iface := rfl
  rw [hiface]
  by_cases he : m = n
  · rw [he, iface_setVif_self, hn]
    rfl
  · rw [iface_setVif_of_ne _ _ he]
    rfl

theorem iface_withNew_self (s : VifSys) (n : IfaceId) (iftype : Iftype) :
    (s.withNew n iftype).iface n = some ⟨true, false, iftype⟩ := Function.update_self ..

theorem Tracked.withNew (h : s.Tracked) (hn : s.bitmap n = false) (iftype : Iftype) :
    (s.withNew n iftype).Tracked := by
  apply (h.setInst_true n).withOpen (Function.update_self ..) rfl
  have hnone : (s.setInst n true).iface n = none := h.iface_eq_none hn
  rw [hnone]
  rfl

variable {checkCombs : (Iftype → ℤ) → ℤ}

/-- The new interface is closed and leaves its slot again. -/
theorem Inv.withdraw (h : s.Inv checkCombs) (hn : s.bitmap n = false) {closeRet : ℤ}
    (hr : 0 ≤ closeRet) :
    ((((s.withNew n iftype).ifaceTeardown n closeRet).2.setVif n none).setInst n false).Inv
      checkCombs := by
  have hf := s.iface_withNew_self n iftype
  have hw := (h.toTracked.withNew hn iftype).closeDev hf rfl
  have hnone := h.toTracked.iface_eq_none hn
  rw [ifaceTeardown_of_nonneg hf hr]
  constructor
  · apply hw.remove
    rw [iface_closeDev, iface_setVif_self]
    rfl
  · have hiface : ((((s.withNew n iftype).closeDev n ⟨true, false, iftype⟩).setVif n none).setInst n
        false).iface = s.iface := by
      funext m
      by_cases he : m = n
      · rw [he, hnone]
        exact iface_setVif_self ..
      · simp [setInst, VifSys.setVif, iface_closeDev, VifSys.withNew, VifSys.withOpen, he]
    exact (congrArg _ (countIftype_eq hiface)).trans h.combs

theorem Inv.addVirtualIntf (hmono : DownwardClosed checkCombs) (h : s.Inv checkCombs)
    (hg : s.Orderly checkCombs (.addVirtualIntf iftype r)) :
    (s.addVirtualIntf checkCombs iftype r).2.Inv checkCombs := by
  unfold VifSys.addVirtualIntf
  rw [if_neg (not_not.mpr h.combs)]
  cases ha : s.allocInst (idFor iftype) with
  | none =>
    have hnone : (s.addIface iftype (idFor iftype) (iftype != .p2pDevice) r).2 = s := by
      simp only [addIface, ha]
    exact hnone.symm ▸ h
  | some n =>
    have hn := bitmap_of_allocInst ha
    have hnone := h.toTracked.iface_eq_none hn
    by_cases hr : r.alloc = true ∧ r.initRet = 0 ∧ r.openRet = 0
    · obtain ⟨hm, hi, ho⟩ := hr
      have hcond := hg (by rw [ha]; rfl) hm hi ho
      have hadd : (s.addIface iftype (idFor iftype) (iftype != .p2pDevice) r).2 = _ :=
        addIface_of_setup ha hm hi ho
      simp only [bne_iff_ne] at hadd
      refine hadd.symm ▸ ?_
      by_cases hc : iftype ≠ .p2pDevice ∧ (r.netdevRet ≠ 0 ∨ r.registerRet ≠ 0)
      · rw [if_pos hc] at hcond ⊢
        exact h.withdraw hn hcond
      · rw [if_neg hc] at hcond ⊢
        refine ⟨h.toTracked.withNew hn iftype, ?_⟩
        by_cases hp : iftype = .p2pDevice
        · rw [hp, countIftype_withNew_p2pDevice hnone]
          exact h.combs
        · exact hmono _ _ (countIftype_nonneg _) (s.countIftype_withNew_le n iftype) (hcond hp)
    · have hfail : r.alloc = false ∨ r.initRet ≠ 0 ∨ r.openRet ≠ 0 := by
        rw [not_and_or, not_and_or] at hr
        exact hr.imp_left Bool.eq_false_of_not_eq_true
      have hadd : (s.addIface iftype (idFor iftype) (iftype != .p2pDevice) r).2 = _ :=
        addIface_of_fail ha hfail
      refine hadd.symm ▸ ?_
      exact ⟨(h.toTracked.setInst_true n).setInst_false hnone, h.combs⟩

end

section
variable {checkCombs : (Iftype → ℤ) → ℤ} {s : VifSys} {n : IfaceId} {f : VifIface} {type : Iftype}
  {r : ChangeEnv}

/-- The interface of a legacy P2P device only gets the type. -/
theorem changeIntf_of_legacy (hf : s.iface n = some f) (hl : f.legacyP2pDev = true) :
    (s.changeIntf checkCombs n type r).2 = s.setVif n (some { f with iftype := type }) := by
  simp only [changeIntf, hf, hl, if_true]

/-- The type stays when it is the same, when the check fails and when the device stays open. -/
theorem changeIntf_of_stays (hf : s.iface n = some f) (hl : f.legacyP2pDev = false)
    (hs : f.iftype = type ∨ checkCombs (numChanged s.countIftype type f.iftype) ≠ 0 ∨
      r.closeRet < 0) : (s.changeIntf checkCombs n type r).2 = s := by
  simp only [changeIntf, hf, hl, Bool.false_eq_true, if_false, setVif_eq_self hf]
  split
  · rfl
  · next ht =>
    split
    · rfl
    · next hc =>
      have hr := (hs.resolve_left ht).resolve_left hc
      rw [ifaceTeardown_of_neg hf hr, if_pos hr.ne]

theorem changeIntf_of_closes (hf : s.iface n = some f) (hl : f.legacyP2pDev = false)
    (ht : f.iftype ≠ type) (hc : checkCombs (numChanged s.countIftype type f.iftype) = 0)
    (hr : 0 ≤ r.closeRet) :
    (s.changeIntf checkCombs n type r).2 =
      if r.initRet = 0 ∧ r.openRet = 0 then
        (s.closeDev n f).withOpen n { f with opened := true, iftype := type }
      else if r.initBack = 0 ∧ r.openBack = 0 then
        (s.closeDev n f).withOpen n { f with opened := true }
      else s.closeDev n f := by
  have hl : ¬ f.legacyP2pDev = true := Bool.eq_false_iff.mp hl
  simp only [changeIntf, hf, if_neg hl, setVif_eq_self hf, if_neg ht, hc,
    ifaceTeardown_of_nonneg hf hr, ne_eq, not_true_eq_false, if_false]
  by_cases hs : r.initRet = 0 ∧ r.openRet = 0
  · rw [if_pos hs, ifaceSetup_ok hs.1 hs.2, if_pos rfl]
    rfl
  · obtain ⟨ret, hret, hu⟩ : ∃ ret, ret ≠ 0 ∧ (s.closeDev n f).ifaceSetup
        { f with opened := false } type r.initRet r.openRet = (ret, _, s.closeDev n f) :=
      ifaceSetup_fail (not_and_or.mp hs)
    rw [if_neg hs, hu, if_neg hret]
    by_cases hb : r.initBack = 0 ∧ r.openBack = 0
    · rw [if_pos hb, ifaceSetup_ok hb.1 hb.2]
      rfl
    · obtain ⟨back, _, hv⟩ : ∃ ret, ret ≠ 0 ∧ (s.closeDev n f).ifaceSetup
          { f with opened := false } f.iftype r.initBack r.openBack = (ret, _, s.closeDev n f) :=
        ifaceSetup_fail (not_and_or.mp hb)
      rw [if_neg hb, hv]
      exact setVif_eq_self (by rw [iface_closeDev, iface_setVif_self])

/-- An interface that was closed comes back open, perhaps with another type. -/
theorem Tracked.reopen (h : s.Tracked) (hf : s.iface n = some f) (ho : f.opened = true)
    {g : VifIface} (hg : g.opened = true) : ((s.closeDev n f).withOpen n g).Tracked := by
  have hb : s.bitmap n = true := h.slots n (by rw [hf]; rfl)
  apply (h.closeDev hf ho).withOpen hb hg
  rw [iface_closeDev, iface_setVif_self]
  rfl

theorem countIftype_reopen (hf : s.iface n = some f) (g : VifIface) (i : Iftype) :
    ((s.closeDev n f).withOpen n g).countIftype i + (countsAs i (some f)).toNat =
      s.countIftype i + (countsAs i (some g)).toNat := by
  have h := (s.closeDev n f).countIftype_setVif n (some g) i
  rw [iface_closeDev, iface_setVif_self, countIftype_closeDev hf] at h
  exact h

/-- A type that counts is changed. -/
theorem countIftype_reopen_le (hf : s.iface n = some f) (hl : f.legacyP2pDev = false)
    (hp : f.iftype ≠ .p2pDevice) (i : Iftype) :
    ((s.closeDev n f).withOpen n { f with opened := true, iftype := type }).countIftype i ≤
      numChanged s.countIftype type f.iftype i := by
  have h := countIftype_reopen hf { f with opened := true, iftype := type } i
  have hold : (countsAs i (some f)).toNat = if i = f.iftype then 1 else 0 := by
    by_cases hi : i = f.iftype
    · rw [if_pos hi, hi]
      simp [countsAs, VifIface.counted, hl, hp]
    · rw [if_neg hi]
      simp [countsAs, Ne.symm hi]
  have hnew : (countsAs i (some { f with opened := true, iftype := type })).toNat ≤
      if i = type then 1 else 0 := countsAs_le ..
  unfold numChanged
  split_ifs at hold hnew ⊢ <;> omega

/-- A type that does not count is changed. -/
theorem countIftype_reopen_le_added (hf : s.iface n = some f) (i : Iftype) :
    ((s.closeDev n f).withOpen n { f with opened := true, iftype := type }).countIftype i ≤
      numAdded s.countIftype type i := by
  have h := countIftype_reopen hf { f with opened := true, iftype := type } i
  have hnew : (countsAs i (some { f with opened := true, iftype := type })).toNat ≤
      if i = type then 1 else 0 := countsAs_le ..
  unfold numAdded
  split_ifs at hnew ⊢ <;> omega

theorem Inv.changeIntf (hmono : DownwardClosed checkCombs) (h : s.Inv checkCombs)
    (hg : s.Orderly checkCombs (.changeIntf n type r)) :
    (s.changeIntf checkCombs n type r).2.Inv checkCombs := by
  cases hf : s.iface n with
  | none =>
    have hnone : (s.changeIntf checkCombs n type r).2 = s := by simp only [VifSys.changeIntf, hf]
    exact hnone.symm ▸ h
  | some f =>
    by_cases hl : f.legacyP2pDev = true
    · rw [changeIntf_of_legacy hf hl]
      have hb : s.bitmap n = true := h.slots n (by rw [hf]; rfl)
      refine ⟨h.toTracked.setVif hb (by rw [hf]; rfl), ?_⟩
      have hcount : (s.setVif n (some { f with iftype := type })).countIftype = s.countIftype := by
        apply countIftype_congr
        intro m i
        by_cases he : m = n
        · rw [he, iface_setVif_self, hf]
          simp [countsAs, VifIface.counted, hl]
        · rw [iface_setVif_of_ne s _ he]
      exact (congrArg _ hcount).trans h.combs
    · have hl : f.legacyP2pDev = false := Bool.eq_false_of_not_eq_true hl
      by_cases hs : f.iftype = type ∨
          checkCombs (numChanged s.countIftype type f.iftype) ≠ 0 ∨ r.closeRet < 0
      · rw [changeIntf_of_stays hf hl hs]
        exact h
      · simp only [not_or, not_not, not_lt] at hs
        obtain ⟨ht, hc, hr⟩ := hs
        obtain ⟨ho, hcombs⟩ : f.opened = true ∧ (f.iftype ≠ .p2pDevice ∨
            ¬ r.initRet = 0 ∨ ¬ r.openRet = 0 ∨ checkCombs (numAdded s.countIftype type) = 0) := by
          simpa [Orderly, hf, hl, ht, hc, not_lt.mpr hr, or_assoc] using hg
        rw [changeIntf_of_closes hf hl ht hc hr]
        by_cases hset : r.initRet = 0 ∧ r.openRet = 0
        · rw [if_pos hset]
          refine ⟨h.toTracked.reopen hf ho rfl, ?_⟩
          by_cases hp : f.iftype = .p2pDevice
          · exact hmono _ _ (countIftype_nonneg _) (countIftype_reopen_le_added hf)
              (((hcombs.resolve_left (not_not.mpr hp)).resolve_left
                (not_not.mpr hset.1)).resolve_left (not_not.mpr hset.2))
          · exact hmono _ _ (countIftype_nonneg _) (countIftype_reopen_le hf hl hp) hc
        · rw [if_neg hset]
          split
          · refine ⟨h.toTracked.reopen hf ho rfl, ?_⟩
            have hcount : ((s.closeDev n f).withOpen n { f with opened := true }).countIftype =
                s.countIftype := by
              funext i
              have hi := countIftype_reopen hf { f with opened := true } i
              exact add_right_cancel hi
            exact (congrArg _ hcount).trans h.combs
          · exact ⟨h.toTracked.closeDev hf ho,
              (congrArg _ (countIftype_closeDev hf)).trans h.combs⟩

end

section
variable {s t u : VifSys} {p : Iftype → Bool} {fwAssert : IfaceId → Bool} {openRet : IfaceId → ℤ}

/-- What decides how an interface counts and in which loop it comes back. -/
def kinds (s : VifSys) (m : IfaceId) : Option (Bool × Iftype) :=
  (s.iface m).map fun f => (f.legacyP2pDev, f.iftype)

theorem any_iftype (s : VifSys) (m : IfaceId) (p : Iftype → Bool) :
    (s.iface m).any (fun f => p f.iftype) = (s.kinds m).any fun k => p k.2 := by
  cases hf : s.iface m <;> simp [kinds, hf]

theorem countIftype_of_kinds (h : t.kinds = s.kinds) : t.countIftype = s.countIftype := by
  apply countIftype_congr
  intro m i
  have hkind : ∀ v : VifSys, countsAs i (v.iface m) =
      (v.kinds m).any fun k => !k.1 && k.2 != .p2pDevice && k.2 == i := by
    intro v
    cases hf : v.iface m <;> simp [kinds, hf, countsAs, VifIface.counted]
  rw [hkind t, hkind s, h]

/-- The interfaces of `p` may open; the others stay, and what all of them are does. -/
structure Recovers (p : Iftype → Bool) (s t : VifSys) : Prop where
  tracked : t.Tracked
  kinds : t.kinds = s.kinds
  off : ∀ m, (s.iface m).any (fun f => p f.iftype) = false → t.iface m = s.iface m

theorem Recovers.refl (h : s.Tracked) : s.Recovers p s := ⟨h, rfl, fun _ _ => rfl⟩

theorem recoveryIface_cases (s : VifSys) (n : IfaceId) (fwAssert : Bool) (openRet : ℤ) :
    (s.recoveryIface n fwAssert openRet).2 = s ∨
      ∃ f, s.iface n = some f ∧
        (s.recoveryIface n fwAssert openRet).2 = s.withOpen n { f with opened := true } := by
  cases hf : s.iface n with
  | none =>
    left
    simp only [recoveryIface, hf]
  | some f =>
    simp only [recoveryIface, hf]
    split
    · exact .inl rfl
    · split
      · exact .inl rfl
      · exact .inr ⟨f, rfl, rfl⟩

theorem iface_withOpen_of_ne {n m : IfaceId} {f : VifIface} (h : m ≠ n) :
    (s.withOpen n f).iface m = s.iface m := Function.update_of_ne h ..

theorem kinds_withOpen {n : IfaceId} {f : VifIface} (hf : s.iface n = some f) :
    (s.withOpen n { f with opened := true }).kinds = s.kinds := by
  funext m
  by_cases he : m = n
  · have hself : (s.withOpen n { f with opened := true }).iface n =
      some { f with opened := true } := Function.update_self ..
    rw [he, kinds, kinds, hself, hf]
    rfl
  · rw [kinds, kinds, iface_withOpen_of_ne he]

/-- An interface whose flag is clear is recovered, or stays. -/
theorem recovers_recoveryIface (h : s.Tracked) {n : IfaceId}
    (hp : (s.iface n).any (fun f => p f.iftype) = true) (hn : opens (s.iface n) = false)
    (fwAssert : Bool) (openRet : ℤ) :
    s.Recovers p (s.recoveryIface n fwAssert openRet).2 ∧
      ∀ m, m ≠ n → (s.recoveryIface n fwAssert openRet).2.iface m = s.iface m := by
  rcases s.recoveryIface_cases n fwAssert openRet with hs | ⟨f, hf, hs⟩
  · rw [hs]
    exact ⟨.refl h, fun _ _ => rfl⟩
  · rw [hs]
    have hb : s.bitmap n = true := h.slots n (by rw [hf]; rfl)
    refine ⟨⟨h.withOpen hb rfl hn, kinds_withOpen hf, ?_⟩,
      fun m hm => iface_withOpen_of_ne hm⟩
    intro m hm
    apply iface_withOpen_of_ne
    intro he
    rw [he, hp] at hm
    cases hm

/-- Along a loop every interface is taken once, so that its flag is clear when it is. -/
theorem recovers_recoveryLoop (h : s.Tracked) {l : List IfaceId} (hl : l.Nodup)
    (hn : ∀ m ∈ l, (s.iface m).any (fun f => p f.iftype) = true → opens (s.iface m) = false) :
    s.Recovers p (recoveryLoop p fwAssert openRet s l).2 := by
  induction l generalizing s with
  | nil => exact .refl h
  | cons n l ih =>
    obtain ⟨hnl, hl⟩ := List.nodup_cons.mp hl
    unfold recoveryLoop
    split
    · next hp =>
      obtain ⟨hr, hoff⟩ := recovers_recoveryIface h hp
        (hn n List.mem_cons_self hp) (fwAssert n) (openRet n)
      dsimp only
      split
      · exact hr
      · have hrest := ih hr.tracked hl fun m hm hpm => by
          have hne : m ≠ n := fun he => hnl (he ▸ hm)
          rw [hoff m hne] at hpm ⊢
          exact hn m (List.mem_cons_of_mem n hm) hpm
        refine ⟨hrest.tracked, hrest.kinds.trans hr.kinds, fun m hm => ?_⟩
        have hsame := hr.off m hm
        exact (hrest.off m (by rwa [hsame])).trans hsame
    · exact ih h hl fun m hm => hn m (List.mem_cons_of_mem n hm)

variable {checkCombs : (Iftype → ℤ) → ℤ}

/-- The interfaces that a recovery starts with: none is open. -/
def forRecovery (s : VifSys) : VifSys :=
  { s with
    openedDev := 0
    iface := fun n => (s.iface n).map fun f => { f with opened := false }
    fwCredit := fun _ => 0 }

theorem opens_forRecovery (s : VifSys) (n : IfaceId) : opens (s.forRecovery.iface n) = false := by
  cases hf : s.iface n <;> simp [forRecovery, hf, opens]

theorem kinds_forRecovery (s : VifSys) : s.forRecovery.kinds = s.kinds := by
  funext m
  cases hf : s.iface m <;> simp [forRecovery, kinds, hf]

theorem Tracked.forRecovery (h : s.Tracked) : s.forRecovery.Tracked where
  openedDev := by
    have hnone : s.forRecovery.openCount = 0 := Lib.tally_eq_zero.mpr s.opens_forRecovery
    rw [hnone]
    rfl
  closes := h.closes
  slots m hm := by
    apply h.slots m
    simpa [VifSys.forRecovery] using hm

theorem Inv.recovers (h : s.Inv checkCombs) (hr : s.Recovers p t) : t.Inv checkCombs :=
  ⟨hr.tracked, (congrArg _ (countIftype_of_kinds hr.kinds)).trans h.combs⟩

/-- The second loop finds closed what it takes: the first took the others. -/
theorem Inv.recoveryWork (h : s.Inv checkCombs) (syncRet : ℤ) (fwAssert : IfaceId → Bool)
    (openRet : IfaceId → ℤ) : (s.recoveryWork syncRet fwAssert openRet).2.Inv checkCombs := by
  have hreset : s.forRecovery.Inv checkCombs :=
    ⟨h.toTracked.forRecovery, (congrArg _ (countIftype_of_kinds s.kinds_forRecovery)).trans h.combs⟩
  have hfirst : s.forRecovery.Recovers recoversFirst (recoveryLoop recoversFirst fwAssert openRet
      s.forRecovery (List.finRange SKW_NR_IFACE)).2 :=
    recovers_recoveryLoop hreset.toTracked (List.nodup_finRange _)
      fun m _ _ => s.opens_forRecovery m
  unfold VifSys.recoveryWork
  dsimp only
  split
  · exact hreset
  · split
    · exact hreset.recovers hfirst
    · apply (hreset.recovers hfirst).recovers
      apply recovers_recoveryLoop hfirst.tracked (List.nodup_finRange _)
      intro m _ hm
      have hoff : (s.forRecovery.iface m).any (fun f => recoversFirst f.iftype) = false := by
        have hkinds := congrFun hfirst.kinds m
        rw [any_iftype _ m fun i => !recoversFirst i, hkinds] at hm
        rw [any_iftype _ m recoversFirst]
        cases hk : s.forRecovery.kinds m with
        | none => rfl
        | some k =>
          rw [hk] at hm
          simpa using hm
      rw [hfirst.off m hoff]
      exact s.opens_forRecovery m

theorem Inv.step (hmono : DownwardClosed checkCombs) (h : s.Inv checkCombs) {e : VifEvent}
    (hg : s.Orderly checkCombs e) (hs : s.step checkCombs e = some t) : t.Inv checkCombs := by
  cases e with
  | addVirtualIntf type r =>
    cases hs
    exact h.addVirtualIntf hmono hg
  | changeIntf n type r =>
    cases hs
    exact h.changeIntf hmono hg
  | delIface n closeRet =>
    simp only [VifSys.step] at hs
    split at hs
    · cases hs
    · next hsome =>
      cases hs
      cases hf : s.iface n with
      | none => simp [hf] at hsome
      | some f => exact h.delIface hmono hf hg
  | recoveryWork syncRet fwAssert openRet =>
    cases hs
    exact h.recoveryWork syncRet fwAssert openRet

end

/-- Any table of interfaces with its books in order. -/
def init (iface : IfaceId → Option VifIface) (nrLmac : ℕ)
    (fwCredit : Fin SKW_MAX_LMAC_SUPPORT → ℤ) : VifSys where
  bitmap n := (iface n).isSome
  openedDev := BitVec.ofNat 16 (Lib.tally fun n => opens (iface n))
  iface
  nrLmac
  fwCredit
  closes := []

/-- In runs whose steps are orderly the books are right between operations. -/
theorem booked_of_orderly (checkCombs : (Iftype → ℤ) → ℤ) (hmono : DownwardClosed checkCombs)
    (iface : IfaceId → Option VifIface) (nrLmac : ℕ) (fwCredit : Fin SKW_MAX_LMAC_SUPPORT → ℤ)
    (h₀ : checkCombs (init iface nrLmac fwCredit).countIftype = 0) (s : VifSys)
    (h : Lib.Reach (step checkCombs) (Orderly checkCombs) (init iface nrLmac fwCredit) s) :
    s.Booked checkCombs := by
  have hinit : (init iface nrLmac fwCredit).Inv checkCombs :=
    ⟨⟨rfl, fun _ hx => absurd hx List.not_mem_nil, fun _ hm => hm⟩, h₀⟩
  exact (h.invariant hinit fun _ _ _ hi hg hs => hi.step hmono hg hs).booked

/-- No interface. -/
def noIface : VifSys := init (fun _ => none) 2 fun _ => 7

/-- A station that becomes an access point, one that is added, a recovery and both deleted. -/
theorem booked_of_orderly_recovered :
    ∃ s, Lib.Reach (step checkCombinations) (Orderly checkCombinations) noIface s ∧
      s.closes = [(true, true), (false, false), (false, false)] ∧ s.Booked checkCombinations := by
  obtain ⟨s, hs, hp⟩ := Lib.exists_reach_of_exec (step checkCombinations)
    (Orderly checkCombinations) noIface
    [.addVirtualIntf .station ⟨true, 0, 0, 0, 0, 0⟩, .addVirtualIntf .station ⟨true, 0, 0, 0, 0, 0⟩,
      .changeIntf 0 .ap ⟨0, 0, 5, 0, 0⟩, .changeIntf 0 .ap ⟨-5, 0, 0, 0, 0⟩,
      .recoveryWork 0 (fun _ => false) (fun _ => 0), .delIface 1 0, .delIface 0 0]
    (fun s => s.closes == [(true, true), (false, false), (false, false)]) (by decide +kernel)
  rw [beq_iff_eq] at hp
  exact ⟨s, hs, hp, booked_of_orderly checkCombinations downwardClosed_checkCombinations _ _ _
    (by decide +kernel) s hs⟩

/-- The setup fails with the new type and with the old one, and the interface is deleted. -/
theorem deleted_not_booked :
    ¬ ∀ s, Lib.Reach (step checkCombinations) Lib.Free noIface s → s.Booked checkCombinations := by
  intro h
  obtain ⟨s, hs, hp⟩ := Lib.exists_reach_of_exec (step checkCombinations) Lib.Free noIface
    [.addVirtualIntf .station ⟨true, 0, 0, 0, 0, 0⟩, .changeIntf 0 .ap ⟨0, 0, 5, 0, 5⟩,
      .delIface 0 0]
    (fun s => s.openedDev.toNat == 65535 && s.openCount == 0) (by decide +kernel)
  simp only [Bool.and_eq_true, beq_iff_eq] at hp
  have hcount := (h s hs).openedDev
  rw [hp.1, hp.2] at hcount
  cases hcount

end VifSys
end Skw
