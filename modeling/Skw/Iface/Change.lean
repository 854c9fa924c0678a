import Skw.Iface.Opened
import Skw.Sta.Connect

/-! What `skw_change_intf` leaves behind: the buffers of a mode live in a union, are freed before
the device is closed, and come back with the device that is opened. -/
namespace Skw

/-- What a station holds in the union; `conn` says whether it has its `assoc_ie`. -/
structure StaMem where
  smeExternal : Bool
  authCmd : Bool
  assocCmd : Bool
  assocReqIe : Bool
  conn : Option Bool
deriving DecidableEq

structure SapMem where
  acl : Bool
  htCap : Bool
  vhtCap : Bool
  probeResp : Bool
deriving DecidableEq

/-- The member of the union that was written last. The one of an IBSS holds no memory, nor does
a union that is still zero. -/
inductive ModeMem
  | sta (m : StaMem)
  | sap (m : SapMem)
  | ibss
deriving DecidableEq

def Iftype.isStaMode (t : Iftype) : Bool := t == .station || t == .p2pClient

def Iftype.isApMode (t : Iftype) : Bool := t == .ap || t == .p2pGo

/-- The types with buffers of their own. -/
def Iftype.hasMode (t : Iftype) : Bool := t.isStaMode || t.isApMode

def SapMem.freed : SapMem := ⟨false, false, false, false⟩

def StaMem.freed (smeExternal : Bool) : StaMem := ⟨smeExternal, false, false, false, none⟩

/-- Whether each allocation of `skw_mode_init` succeeds. -/
structure ModeAlloc where
  authCmd : Bool
  assocCmd : Bool
  assocReqIe : Bool
  conn : Bool
  assocIe : Bool
  probeResp : Bool

/-- `SKW_FLAG_STA_SME_EXTERNAL` is `sme`. An allocation that fails frees those before it. -/
def modeInit (sme : Bool) (a : ModeAlloc) (iftype : Iftype) (mem : ModeMem) : ℤ × ModeMem :=
  if iftype.isStaMode then
    if a.authCmd = false then (- ENOMEM, .sta (.freed true))
    else if a.assocCmd = false then (- ENOMEM, .sta (.freed true))
    else if a.assocReqIe = false then (- ENOMEM, .sta (.freed true))
    else if sme then (0, .sta ⟨true, true, true, true, none⟩)
    else if a.conn = false then (- ENOMEM, .sta (.freed false))
    else if a.assocIe = false then (- ENOMEM, .sta (.freed false))
    else (0, .sta ⟨false, true, true, true, some true⟩)
  else if iftype.isApMode then
    if a.probeResp = false then (- ENOMEM, .sap .freed)
    else (0, .sap { SapMem.freed with probeResp := true })
  else (0, mem)

def modeDeinit (legacyP2pDev : Bool) (iftype : Iftype) (mem : ModeMem) : ModeMem :=
  match mem with
  | .sta m =>
    if iftype.isStaMode then
      if legacyP2pDev then .sta m else .sta (.freed m.smeExternal)
    else .sta m
  | .sap m => if iftype.isApMode then .sap .freed else .sap m
  | .ibss => .ibss

/-- The types that `skw_cmd_open_dev` has a mode for. -/
def Iftype.openable : Iftype → Bool
  | .adhoc | .station | .ap | .p2pClient | .p2pGo | .p2pDevice | .monitor => true
  | _ => false

def cmdOpenDev (iftype : Iftype) (ret : ℤ) : ℤ := if iftype.openable then ret else - EINVAL

structure ModeIface where
  opened : Bool
  legacyP2pDev : Bool
  iftype : Iftype
  addr : MacAddr
  mem : ModeMem

/-- What happens while a device is set up. -/
structure SetupEnv where
  alloc : ModeAlloc
  openRet : ℤ

/-- What happens while a type is changed; `back` is for the setup with the old type. -/
structure RetypeEnv where
  combsRet : ℤ
  closeRet : ℤ
  setup : SetupEnv
  back : SetupEnv

/-- `back` is what the setup with the old type returned, if there was one. -/
structure Retyped where
  ret : ℤ
  iface : ModeIface
  back : Option ℤ

namespace ModeIface

def ifaceSetup (sme : Bool) (f : ModeIface) (addr : MacAddr) (iftype : Iftype) (e : SetupEnv) :
    ℤ × ModeIface :=
  let u := modeInit sme e.alloc iftype f.mem
  if u.1 ≠ 0 then (u.1, { f with mem := u.2 })
  else
    let ret := cmdOpenDev iftype e.openRet
    if ret ≠ 0 then (ret, { f with mem := modeDeinit f.legacyP2pDev iftype u.2 })
    else (0, { f with opened := true, iftype, addr, mem := u.2 })

/-- The buffers go before the device is closed. -/
def ifaceTeardown (f : ModeIface) (closeRet : ℤ) : ℤ × ModeIface :=
  let f := { f with mem := modeDeinit f.legacyP2pDev f.iftype f.mem }
  if closeRet < 0 then (closeRet, f) else (0, { f with opened := false })

def changeIntf (sme : Bool) (f : ModeIface) (type : Iftype) (macaddr wdevAddress : MacAddr)
    (e : RetypeEnv) : Retyped :=
  let f := if f.legacyP2pDev then { f with iftype := type } else f
  if f.iftype = type then ⟨0, f, none⟩
  else if e.combsRet ≠ 0 then ⟨e.combsRet, f, none⟩
  else
    let t := f.ifaceTeardown e.closeRet
    if t.1 ≠ 0 then ⟨t.1, t.2, none⟩
    else
      let mac := if isValidEtherAddr macaddr then macaddr else wdevAddress
      let u := t.2.ifaceSetup sme mac type e.setup
      if u.1 = 0 then ⟨0, u.2, none⟩
      else
        let v := u.2.ifaceSetup sme u.2.addr u.2.iftype e.back
        ⟨v.1, v.2, some v.1⟩

end ModeIface

/-- No buffer is allocated. -/
def ModeMem.Empty : ModeMem → Prop
  | .sta m => m = .freed m.smeExternal
  | .sap m => m = .freed
  | .ibss => True

/-- The buffers of a mode are allocated. -/
def ModeMem.Complete : ModeMem → Prop
  | .sta m => m = ⟨m.smeExternal, true, true, true, if m.smeExternal then none else some true⟩
  | .sap m => m.probeResp = true
  | .ibss => False

/-- The union holds the member of the type, and nothing if there is none. -/
def ModeMem.Fits (mem : ModeMem) (t : Iftype) : Prop :=
  match mem with
  | .sta m => t.isStaMode = true ∨ t.hasMode = false ∧ m = .freed m.smeExternal
  | .sap m => t.isApMode = true ∨ t.hasMode = false ∧ m = .freed
  | .ibss => t.hasMode = false

/-- The buffers are allocated exactly when the interface is opened with a type that has some. -/
def ModeIface.BuffersMatch (f : ModeIface) : Prop :=
  if f.opened = true ∧ f.iftype.hasMode = true then f.mem.Complete else f.mem.Empty

/-- An interface of the driver: what is in the union belongs to its type. -/
structure TypedIface extends ModeIface where
  fits : mem.Fits iftype

/-- A change of type succeeds or restores the interface. -/
structure ChangedOrRestored (f : ModeIface) (type : Iftype) (r : Retyped) : Prop where
  changed : r.ret = 0 ↔ r.iface.opened = true ∧ r.iface.iftype = type
  restored : r.ret ≠ 0 → (∀ b ∈ r.back, b = 0) →
    r.iface.opened = true ∧ r.iface.iftype = f.iftype ∧ r.iface.addr = f.addr
  buffers : r.iface.BuffersMatch

/-- The allocations that a type needs. -/
def ModeAlloc.Suffices (a : ModeAlloc) (sme : Bool) (t : Iftype) : Prop :=
  (t.isStaMode = true → a.authCmd = true ∧ a.assocCmd = true ∧ a.assocReqIe = true ∧
    (sme = false → a.conn = true ∧ a.assocIe = true)) ∧
  (t.isApMode = true → a.probeResp = true)

/-- A device is opened: there is memory, the type has a mode, and the command succeeds. -/
structure SetupEnv.Opens (e : SetupEnv) (sme : Bool) (t : Iftype) : Prop where
  alloc : e.alloc.Suffices sme t
  openable : t.openable = true
  openRet : e.openRet = 0

/-- When the teardown and the rollback of a change leave no residue. -/
def Restorable (sme : Bool) (f : ModeIface) (type : Iftype) (e : RetypeEnv) : Prop :=
  if e.combsRet ≠ 0 then f.opened = true ∧ f.BuffersMatch
  else if e.closeRet < 0 then f.opened = true ∧ f.iftype.hasMode = false
  else e.setup.Opens sme type ∨ ¬ e.back.Opens sme f.iftype

section
variable {sme : Bool} {a : ModeAlloc} {t : Iftype} {mem : ModeMem} {f : ModeIface} {addr : MacAddr}
  {e : SetupEnv}

theorem Iftype.isApMode_of_isStaMode (h : t.isStaMode = true) : t.isApMode = false := by
  cases t with
  | station => rfl
  | p2pClient => rfl
  | _ => cases h

theorem ModeMem.fits_sta (h : t.isStaMode = true) (m : StaMem) : (ModeMem.sta m).Fits t := .inl h

theorem ModeMem.fits_sap (h : t.isApMode = true) (m : SapMem) : (ModeMem.sap m).Fits t := .inl h

/-- A mode that is deinitialised has no buffers. -/
theorem modeDeinit_empty (h : mem.Fits t) : (modeDeinit false t mem).Empty := by
  cases mem with
  | sta m =>
    rw [modeDeinit]
    rcases h with ht | ⟨hno, hm⟩
    · rw [if_pos ht, if_neg Bool.false_ne_true]
      exact rfl
    · have hsta : t.isStaMode = false := (Bool.or_eq_false_iff.mp hno).1
      rw [hsta, if_neg Bool.false_ne_true]
      exact hm
  | sap m =>
    rw [modeDeinit]
    rcases h with ht | ⟨hno, hm⟩
    · rw [if_pos ht]
      exact rfl
    · have hap : t.isApMode = false := (Bool.or_eq_false_iff.mp hno).2
      rw [hap, if_neg Bool.false_ne_true]
      exact hm
  | ibss => trivial

theorem modeDeinit_fits (h : mem.Fits t) : (modeDeinit false t mem).Fits t := by
  cases mem with
  | sta m =>
    rw [modeDeinit, if_neg Bool.false_ne_true]
    split_ifs with ht
    · exact .inl ht
    · exact h
  | sap m =>
    rw [modeDeinit]
    split_ifs with ht
    · exact .inl ht
    · exact h
  | ibss => exact h

/-- The buffers belong to the type, and are all there or none. -/
structure ModeInitEnd (sme : Bool) (a : ModeAlloc) (t : Iftype) (u : ℤ × ModeMem) : Prop where
  ret : u.1 = 0 ↔ a.Suffices sme t
  fits : u.2.Fits t
  complete : u.1 = 0 → if t.hasMode = true then u.2.Complete else u.2.Empty
  freed : u.1 ≠ 0 → u.2.Empty

namespace ModeInitEnd

theorem succeeds (ha : a.Suffices sme t) (hf : mem.Fits t)
    (hc : if t.hasMode = true then mem.Complete else mem.Empty) :
    ModeInitEnd sme a t (0, mem) :=
  ⟨⟨fun _ => ha, fun _ => rfl⟩, hf, fun _ => hc, fun h => absurd rfl h⟩

theorem fails (ha : ¬ a.Suffices sme t) (hf : mem.Fits t) (he : mem.Empty) :
    ModeInitEnd sme a t (- ENOMEM, mem) := by
  have hne : (- ENOMEM : ℤ) ≠ 0 := by decide
  exact ⟨⟨fun h => absurd h hne, fun h => absurd h ha⟩, hf, fun h => absurd h hne, fun _ => he⟩

end ModeInitEnd

theorem modeInit_end (sme : Bool) (a : ModeAlloc) (t : Iftype) (hmem : mem.Empty) :
    ModeInitEnd sme a t (modeInit sme a t mem) := by
  unfold modeInit
  cases hs : t.isStaMode with
  | true =>
    have hap := t.isApMode_of_isStaMode hs
    have hmode : t.hasMode = true := by rw [Iftype.hasMode, hs, Bool.true_or]
    have hneed : a.Suffices sme t ↔ a.authCmd = true ∧ a.assocCmd = true ∧ a.assocReqIe = true ∧
        (sme = false → a.conn = true ∧ a.assocIe = true) := by
      simp [ModeAlloc.Suffices, hs, hap]
    have hfail : ∀ x, ¬ a.Suffices sme t → ModeInitEnd sme a t (- ENOMEM, .sta (.freed x)) :=
      fun x ha => .fails ha (ModeMem.fits_sta hs _) rfl
    rw [if_pos rfl]
    split_ifs with h₁ h₂ h₃ hsme h₄ h₅
    · exact hfail _ (by simp [hneed, h₁])
    · exact hfail _ (by simp [hneed, h₂])
    · exact hfail _ (by simp [hneed, h₃])
    · apply ModeInitEnd.succeeds _ (ModeMem.fits_sta hs _)
      · rw [if_pos hmode]
        exact rfl
      · simp_all
    · exact hfail _ (by simp_all)
    · exact hfail _ (by simp_all)
    · apply ModeInitEnd.succeeds _ (ModeMem.fits_sta hs _)
      · rw [if_pos hmode]
        exact rfl
      · simp_all
  | false =>
    rw [if_neg Bool.false_ne_true]
    cases hap : t.isApMode with
    | true =>
      have hmode : t.hasMode = true := by rw [Iftype.hasMode, hap, Bool.or_true]
      have hneed : a.Suffices sme t ↔ a.probeResp = true := by
        simp [ModeAlloc.Suffices, hs, hap]
      rw [if_pos rfl]
      split_ifs with hp
      · exact .fails (by simp [hneed, hp]) (ModeMem.fits_sap hap _) rfl
      · apply ModeInitEnd.succeeds _ (ModeMem.fits_sap hap _)
        · rw [if_pos hmode]
          exact rfl
        · simpa [hneed] using hp
    | false =>
      have hmode : t.hasMode = false := by rw [Iftype.hasMode, hs, hap, Bool.or_false]
      rw [if_neg Bool.false_ne_true]
      apply ModeInitEnd.succeeds
      · simp [ModeAlloc.Suffices, hs, hap]
      · cases mem with
        | sta m => exact .inr ⟨hmode, hmem⟩
        | sap m => exact .inr ⟨hmode, hmem⟩
        | ibss => exact hmode
      · rw [hmode, if_neg Bool.false_ne_true]
        exact hmem

/-- What `skw_iface_setup` leaves: an opened device with its buffers, or neither. -/
theorem ModeIface.ifaceSetup_spec (sme : Bool) (f : ModeIface) (addr : MacAddr) (t : Iftype)
    (e : SetupEnv) (hl : f.legacyP2pDev = false) (hmem : f.mem.Empty) :
    (e.Opens sme t ∧ ∃ mem, f.ifaceSetup sme addr t e =
        (0, { f with opened := true, iftype := t, addr, mem }) ∧ mem.Fits t ∧
        if t.hasMode = true then mem.Complete else mem.Empty) ∨
      (¬ e.Opens sme t ∧ ∃ ret mem, ret ≠ 0 ∧
        f.ifaceSetup sme addr t e = (ret, { f with mem }) ∧ mem.Fits t ∧ mem.Empty) := by
  have hend := modeInit_end sme e.alloc t hmem
  unfold ifaceSetup
  by_cases halloc : e.alloc.Suffices sme t
  · have hret := hend.ret.mpr halloc
    simp only [hret, ne_eq, not_true_eq_false, if_false]
    by_cases hopen : cmdOpenDev t e.openRet = 0
    · left
      rw [if_neg (not_not.mpr hopen)]
      have hable : t.openable = true ∧ e.openRet = 0 := by
        unfold cmdOpenDev at hopen
        split_ifs at hopen with h
        · exact ⟨h, hopen⟩
        · cases hopen
      exact ⟨⟨halloc, hable.1, hable.2⟩, _, rfl, hend.fits, hend.complete hret⟩
    · right
      rw [if_pos hopen, hl]
      constructor
      · intro h
        apply hopen
        rw [cmdOpenDev, if_pos h.openable, h.openRet]
      · exact ⟨_, _, hopen, rfl, modeDeinit_fits hend.fits, modeDeinit_empty hend.fits⟩
  · right
    have hret : (modeInit sme e.alloc t f.mem).1 ≠ 0 := fun h => halloc (hend.ret.mp h)
    rw [if_pos hret]
    exact ⟨fun h => halloc h.alloc, _, _, hret, rfl, hend.fits, hend.freed hret⟩

theorem ModeIface.buffersMatch_of_empty (hm : f.mem.Empty)
    (h : f.opened = true → f.iftype.hasMode = false) : f.BuffersMatch := by
  rw [ModeIface.BuffersMatch, if_neg]
  · exact hm
  · rintro ⟨ho, hmode⟩
    rw [h ho] at hmode
    cases hmode

theorem ModeIface.buffersMatch_of_opened (ho : f.opened = true)
    (hm : if f.iftype.hasMode = true then f.mem.Complete else f.mem.Empty) : f.BuffersMatch := by
  rw [ModeIface.BuffersMatch]
  simpa only [ho, true_and] using hm

theorem ModeMem.not_empty_of_complete (h : mem.Complete) : ¬ mem.Empty := by
  intro he
  cases mem with
  | sta m =>
    have h : m = ⟨_, true, true, true, _⟩ := h
    have he : m = .freed _ := he
    rw [he] at h
    cases h
  | sap m =>
    have h : m.probeResp = true := h
    have he : m = .freed := he
    rw [he] at h
    cases h
  | ibss => exact h

end

/-- How a change of type ends. -/
inductive ChangeEnd (sme : Bool) (f : ModeIface) (type : Iftype) (mac : MacAddr) (e : RetypeEnv) :
    Retyped → Prop
  | refused (hcombs : e.combsRet ≠ 0) : ChangeEnd sme f type mac e ⟨e.combsRet, f, none⟩
  | closeFails (mem : ModeMem) (hcombs : e.combsRet = 0) (hclose : e.closeRet < 0)
      (hfits : mem.Fits f.iftype) (hmem : mem.Empty) :
      ChangeEnd sme f type mac e ⟨e.closeRet, { f with mem }, none⟩
  | opens (mem : ModeMem) (hcombs : e.combsRet = 0) (hclose : ¬ e.closeRet < 0)
      (hopens : e.setup.Opens sme type) (hfits : mem.Fits type)
      (hmem : if type.hasMode = true then mem.Complete else mem.Empty) :
      ChangeEnd sme f type mac e
        ⟨0, { f with opened := true, iftype := type, addr := mac, mem }, none⟩
  | opensBack (mem : ModeMem) (hcombs : e.combsRet = 0) (hclose : ¬ e.closeRet < 0)
      (hfails : ¬ e.setup.Opens sme type) (hopens : e.back.Opens sme f.iftype)
      (hfits : mem.Fits f.iftype)
      (hmem : if f.iftype.hasMode = true then mem.Complete else mem.Empty) :
      ChangeEnd sme f type mac e ⟨0, { f with opened := true, mem }, some 0⟩
  | staysClosed (ret : ℤ) (mem : ModeMem) (hcombs : e.combsRet = 0) (hclose : ¬ e.closeRet < 0)
      (hfails : ¬ e.setup.Opens sme type) (hback : ¬ e.back.Opens sme f.iftype) (hret : ret ≠ 0)
      (hfits : mem.Fits f.iftype) (hmem : mem.Empty) :
      ChangeEnd sme f type mac e ⟨ret, { f with opened := false, mem }, some ret⟩

section
variable {sme : Bool} {f : ModeIface} {type : Iftype} {macaddr wdevAddress mac : MacAddr}
  {e : RetypeEnv} {r : Retyped}

theorem ModeIface.changeIntf_end (hfits : f.mem.Fits f.iftype) (hl : f.legacyP2pDev = false)
    (htype : f.iftype ≠ type)
    (hmac : mac = if isValidEtherAddr macaddr then macaddr else wdevAddress) :
    ChangeEnd sme f type mac e (f.changeIntf sme type macaddr wdevAddress e) := by
  unfold changeIntf
  rw [hl, if_neg Bool.false_ne_true, ← hmac]
  simp only [if_neg htype]
  by_cases hcombs : e.combsRet = 0
  · rw [if_neg (not_not.mpr hcombs)]
    have hempty := modeDeinit_empty hfits
    have hkept := modeDeinit_fits hfits
    rw [← hl] at hempty hkept
    unfold ifaceTeardown
    by_cases hclose : e.closeRet < 0
    · simp only [if_pos hclose, if_pos (ne_of_lt hclose)]
      exact .closeFails _ hcombs hclose hkept hempty
    · simp only [if_neg hclose, ne_eq, not_true_eq_false, if_false]
      rcases ifaceSetup_spec sme
        { f with opened := false, mem := modeDeinit f.legacyP2pDev f.iftype f.mem } mac type e.setup
        hl hempty with
        ⟨hopens, mem, hu, hmfits, hmem⟩ | ⟨hfails, ret, mem, hret, hu, -, hmem⟩
      · rw [hu, if_pos rfl]
        exact .opens mem hcombs hclose hopens hmfits hmem
      · rw [hu, if_neg hret]
        rcases ifaceSetup_spec sme { f with opened := false, mem } f.addr f.iftype e.back hl hmem
          with ⟨hopens, mem, hv, hmfits, hmem⟩ | ⟨hback, ret, mem, hret, hv, hmfits, hmem⟩
        · simp only [hv]
          exact .opensBack mem hcombs hclose hfails hopens hmfits hmem
        · simp only [hv]
          exact .staysClosed ret mem hcombs hclose hfails hback hret hmfits hmem
  · rw [if_pos hcombs]
    exact .refused hcombs

/-- The union belongs to the type again. -/
theorem ChangeEnd.fits (h : ChangeEnd sme f type mac e r) (hfits : f.mem.Fits f.iftype) :
    r.iface.mem.Fits r.iface.iftype := by
  cases h with
  | refused => exact hfits
  | closeFails mem _ _ hmem => exact hmem
  | opens mem _ _ _ hmem => exact hmem
  | opensBack mem _ _ _ _ hmem => exact hmem
  | staysClosed ret mem _ _ _ _ _ hmem => exact hmem

/-- A change that fails, and leaves the interface as it was but for the buffers. -/
theorem ChangedOrRestored.of_kept {ret : ℤ} {mem : ModeMem} (htype : f.iftype ≠ type)
    (hret : ret ≠ 0) (hopen : f.opened = true)
    (hbuf : ({ f with mem } : ModeIface).BuffersMatch) :
    ChangedOrRestored f type ⟨ret, { f with mem }, none⟩ := by
  constructor
  · constructor
    · intro h
      exact absurd h hret
    · intro h
      exact absurd h.2 htype
  · intro _ _
    exact ⟨hopen, rfl, rfl⟩
  · exact hbuf

theorem ChangeEnd.restores_iff (h : ChangeEnd sme f type mac e r) (htype : f.iftype ≠ type) :
    ChangedOrRestored f type r ↔ Restorable sme f type e := by
  unfold Restorable
  cases h with
  | refused hcombs =>
    rw [if_pos hcombs]
    constructor
    · intro h
      exact ⟨(h.restored hcombs (by simp)).1, h.buffers⟩
    · rintro ⟨hopen, hbuf⟩
      exact .of_kept htype hcombs hopen hbuf
  | closeFails mem hcombs hclose hfits hmem =>
    rw [if_neg (not_not.mpr hcombs), if_pos hclose]
    constructor
    · intro h
      obtain ⟨hopen, -, -⟩ := h.restored (ne_of_lt hclose) (by simp)
      refine ⟨hopen, ?_⟩
      by_contra hmode
      rw [Bool.not_eq_false] at hmode
      have hbuf := h.buffers
      rw [ModeIface.BuffersMatch, if_pos ⟨hopen, hmode⟩] at hbuf
      exact ModeMem.not_empty_of_complete hbuf hmem
    · rintro ⟨hopen, hmode⟩
      apply ChangedOrRestored.of_kept htype (ne_of_lt hclose) hopen
      apply ModeIface.buffersMatch_of_empty hmem
      intro _
      exact hmode
  | opens mem hcombs hclose hopens hfits hmem =>
    rw [if_neg (not_not.mpr hcombs), if_neg hclose]
    refine ⟨fun _ => .inl hopens, fun _ => ⟨?_, fun h => absurd rfl h, ?_⟩⟩
    · exact ⟨fun _ => ⟨rfl, rfl⟩, fun _ => rfl⟩
    · exact ModeIface.buffersMatch_of_opened rfl hmem
  | opensBack mem hcombs hclose hfails hopens hfits hmem =>
    rw [if_neg (not_not.mpr hcombs), if_neg hclose]
    constructor
    · intro h
      exact absurd (h.changed.mp rfl).2 htype
    · rintro (h | h)
      · exact absurd h hfails
      · exact absurd hopens h
  | staysClosed ret mem hcombs hclose hfails hback hret hfits hmem =>
    rw [if_neg (not_not.mpr hcombs), if_neg hclose]
    refine ⟨fun _ => .inr hback, fun _ => ⟨?_, ?_, ?_⟩⟩
    · constructor
      · intro h
        exact absurd h hret
      · rintro ⟨h, -⟩
        cases h
    · intro _ hzero
      exact absurd (hzero ret rfl) hret
    · apply ModeIface.buffersMatch_of_empty hmem
      intro h
      cases h

end

/-! The table of interfaces sees the same change, with what allocations and modes come to. -/

def ModeIface.vif (f : ModeIface) : VifIface := ⟨f.opened, f.legacyP2pDev, f.iftype⟩

def RetypeEnv.vif (e : RetypeEnv) (sme : Bool) (old type : Iftype) : ChangeEnv where
  closeRet := e.closeRet
  initRet := (modeInit sme e.setup.alloc type .ibss).1
  openRet := cmdOpenDev type e.setup.openRet
  initBack := (modeInit sme e.back.alloc old .ibss).1
  openBack := cmdOpenDev old e.back.openRet

theorem SetupEnv.opens_iff {e : SetupEnv} {sme : Bool} {t : Iftype} :
    e.Opens sme t ↔ (modeInit sme e.alloc t .ibss).1 = 0 ∧ cmdOpenDev t e.openRet = 0 := by
  have hempty : ModeMem.Empty .ibss := trivial
  rw [(modeInit_end sme e.alloc t hempty).ret, cmdOpenDev]
  constructor
  · rintro ⟨ha, ho, hr⟩
    exact ⟨ha, by rw [if_pos ho, hr]⟩
  · rintro ⟨ha, ho⟩
    split_ifs at ho with h
    · exact ⟨ha, h, ho⟩
    · cases ho

/-- The table has the interface as a change of type leaves it. -/
theorem ChangeEnd.iface_vif {sme : Bool} {f : ModeIface} {type : Iftype} {mac : MacAddr}
    {e : RetypeEnv} {r : Retyped} (h : ChangeEnd sme f type mac e r)
    {checkCombs : (Iftype → ℤ) → ℤ} {s : VifSys} {n : IfaceId} (hf : s.iface n = some f.vif)
    (hl : f.legacyP2pDev = false) (htype : f.iftype ≠ type)
    (hc : checkCombs (VifSys.numChanged s.countIftype type f.iftype) = e.combsRet) :
    (s.changeIntf checkCombs n type (e.vif sme f.iftype type)).2.iface n = some r.iface.vif := by
  have hcloses := fun hcombs hclose => VifSys.changeIntf_of_closes (r := e.vif sme f.iftype type)
    hf hl htype (hc.trans hcombs) (not_lt.mp hclose)
  have hnew : (e.vif sme f.iftype type).initRet = 0 ∧ (e.vif sme f.iftype type).openRet = 0 ↔
      e.setup.Opens sme type := SetupEnv.opens_iff.symm
  have hold : (e.vif sme f.iftype type).initBack = 0 ∧ (e.vif sme f.iftype type).openBack = 0 ↔
      e.back.Opens sme f.iftype := SetupEnv.opens_iff.symm
  cases h with
  | refused hcombs =>
    rw [VifSys.changeIntf_of_stays hf hl (.inr (.inl (hc.trans_ne hcombs)))]
    exact hf
  | closeFails mem _ hclose =>
    rw [VifSys.changeIntf_of_stays hf hl (.inr (.inr hclose))]
    exact hf
  | opens mem hcombs hclose hopens =>
    rw [hcloses hcombs hclose, if_pos (hnew.mpr hopens)]
    exact VifSys.iface_setVif_self ..
  | opensBack mem hcombs hclose hfails hopens =>
    rw [hcloses hcombs hclose, if_neg (hnew.not.mpr hfails), if_pos (hold.mpr hopens)]
    exact VifSys.iface_setVif_self ..
  | staysClosed ret mem hcombs hclose hfails hback =>
    rw [hcloses hcombs hclose, if_neg (hnew.not.mpr hfails), if_neg (hold.not.mpr hback),
      VifSys.iface_closeDev]
    exact VifSys.iface_setVif_self ..

namespace TypedIface

def changeIntf (sme : Bool) (f : TypedIface) (type : Iftype) (macaddr wdevAddress : MacAddr)
    (e : RetypeEnv) : Retyped :=
  f.toModeIface.changeIntf sme type macaddr wdevAddress e

/-- A change of type leaves an interface of the driver. -/
theorem fits_changeIntf (sme : Bool) (f : TypedIface) (type : Iftype)
    (macaddr wdevAddress : MacAddr) (e : RetypeEnv) (hl : f.legacyP2pDev = false) :
    (f.changeIntf sme type macaddr wdevAddress e).iface.mem.Fits
      (f.changeIntf sme type macaddr wdevAddress e).iface.iftype := by
  by_cases htype : f.iftype = type
  · rw [changeIntf, ModeIface.changeIntf, hl, if_neg Bool.false_ne_true]
    simp only [if_pos htype]
    exact f.fits
  · exact (ModeIface.changeIntf_end f.fits hl htype rfl).fits f.fits

/-- A change of type succeeds or restores the interface exactly if a close that fails finds no
buffers to free, and no rollback hides that the setup failed. -/
theorem changeIntf_restores_iff (sme : Bool) (f : TypedIface) (type : Iftype)
    (macaddr wdevAddress : MacAddr) (e : RetypeEnv) (hl : f.legacyP2pDev = false)
    (htype : f.iftype ≠ type) :
    ChangedOrRestored f.toModeIface type (f.changeIntf sme type macaddr wdevAddress e) ↔
      Restorable sme f.toModeIface type e :=
  (ModeIface.changeIntf_end f.fits hl htype rfl).restores_iff htype

/-- A station that is open. -/
def openStation : TypedIface :=
  ⟨⟨true, false, .station, 0x021122334455, .sta ⟨true, true, true, true, none⟩⟩, .inl rfl⟩

/-- All allocations and commands succeed. -/
def smoothRetype : RetypeEnv :=
  ⟨0, 0, ⟨⟨true, true, true, true, true, true⟩, 0⟩, ⟨⟨true, true, true, true, true, true⟩, 0⟩⟩

theorem station_becomes_ap :
    ChangedOrRestored openStation.toModeIface .ap
      (openStation.changeIntf true .ap 0 openStation.addr smoothRetype) := by
  apply (changeIntf_restores_iff true openStation .ap 0 _ smoothRetype rfl (by decide)).mpr
  rw [Restorable, if_neg (by decide), if_neg (by decide)]
  left
  constructor
  · simp [ModeAlloc.Suffices, smoothRetype]
  · rfl
  · rfl

/-- The chip refuses the access point and takes the station again: zero is returned, and the
interface is a station still. -/
theorem refused_ap_returns_zero :
    ¬ ChangedOrRestored openStation.toModeIface .ap
      (openStation.changeIntf true .ap 0 openStation.addr
        { smoothRetype with setup := { smoothRetype.setup with openRet := -5 } }) := by
  intro h
  have hret := h.changed.mp rfl
  exact absurd hret.2 (by decide)

end TypedIface

end Skw
