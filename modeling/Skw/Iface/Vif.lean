import Mathlib.Algebra.Order.BigOperators.Group.List
import Skw.Kernel.Types
import Skw.Lib.Tally

/-! The table of interfaces: opening and closing their devices, the count of the opened ones, and
the check of the combinations that the driver advertises, which two callers make on different
numbers. -/
namespace Skw

/-- The first two fields are bits of `flags`. -/
structure VifIface where
  opened : Bool
  legacyP2pDev : Bool
  iftype : Iftype
deriving DecidableEq

/-- `closes` records for every device that was closed whether no interface was open any more, and
whether the credits were reset. -/
structure VifSys where
  bitmap : IfaceId → Bool
  openedDev : BitVec 16
  iface : IfaceId → Option VifIface
  nrLmac : ℕ
  fwCredit : Fin SKW_MAX_LMAC_SUPPORT → ℤ
  closes : List (Bool × Bool)

/-- What happens while an interface is added: allocation, `skw_mode_init`, the command that opens
the device, the two registrations of a netdev, and the command that closes the device again. -/
structure AddEnv where
  alloc : Bool
  initRet : ℤ
  openRet : ℤ
  netdevRet : ℤ
  registerRet : ℤ
  closeRet : ℤ

/-- What happens while a type is changed; the last two are for the setup with the old type. -/
structure ChangeEnv where
  closeRet : ℤ
  initRet : ℤ
  openRet : ℤ
  initBack : ℤ
  openBack : ℤ

inductive VifEvent
  | addVirtualIntf (type : Iftype) (r : AddEnv)
  | changeIntf (n : IfaceId) (type : Iftype) (r : ChangeEnv)
  | delIface (n : IfaceId) (closeRet : ℤ)
  | recoveryWork (syncRet : ℤ) (fwAssert : IfaceId → Bool) (openRet : IfaceId → ℤ)

/-- `skw_count_iftype` passes over the others. -/
def VifIface.counted (f : VifIface) : Bool := !f.legacyP2pDev && f.iftype != .p2pDevice

def opens (x : Option VifIface) : Bool := x.any fun f => f.opened

def countsAs (t : Iftype) (x : Option VifIface) : Bool := x.any fun f => f.counted && f.iftype == t

namespace VifSys

/-- The registered interfaces with `SKW_IFACE_FLAG_OPENED`. -/
def openCount (s : VifSys) : ℕ := Lib.tally fun n => opens (s.iface n)

def countIftype (s : VifSys) (t : Iftype) : ℤ := Lib.tally fun n => countsAs t (s.iface n)

def setVif (s : VifSys) (n : IfaceId) (x : Option VifIface) : VifSys :=
  { s with iface := Function.update s.iface n x }

def setInst (s : VifSys) (n : IfaceId) (b : Bool) : VifSys :=
  { s with bitmap := Function.update s.bitmap n b }

/-- `skw_alloc_inst`, with no `id` for `SKW_INVALID_ID`. -/
def allocInst (s : VifSys) (id : Option IfaceId) : Option IfaceId :=
  match id with
  | none => (List.finRange SKW_NR_IFACE).find? fun n => !s.bitmap n
  | some n => if s.bitmap n = true then none else some n

/-- The interface may not be in the table yet. -/
def ifaceSetup (s : VifSys) (f : VifIface) (iftype : Iftype) (initRet openRet : ℤ) :
    ℤ × VifIface × VifSys :=
  if initRet ≠ 0 then (initRet, f, s)
  else if openRet ≠ 0 then (openRet, f, s)
  else (0, { f with opened := true, iftype }, { s with openedDev := s.openedDev + 1 })

/-- The end of `skw_iface_teardown`, once the command that closes the device has succeeded. -/
def closeDev (s : VifSys) (n : IfaceId) (f : VifIface) : VifSys :=
  let t : VifSys :=
    { s with
      iface := Function.update s.iface n (some { f with opened := false })
      openedDev := s.openedDev - 1 }
  { t with
    fwCredit := fun l =>
      if t.openedDev = 0 ∧ l.val < t.nrLmac then 0 else t.fwCredit l
    closes := (t.openCount == 0, t.openedDev == 0) :: t.closes }

def ifaceTeardown (s : VifSys) (n : IfaceId) (closeRet : ℤ) : ℤ × VifSys :=
  match s.iface n with
  | none => (0, s)
  | some f => if closeRet < 0 then (closeRet, s) else (0, s.closeDev n f)

/-- `skw_add_vif` stops the kernel when the slot is taken; the bitmap rules that out. -/
def addIface (s : VifSys) (iftype : Iftype) (id : Option IfaceId) (needNdev : Bool) (r : AddEnv) :
    ℤ × VifSys :=
  match s.allocInst id with
  | none => (- EINVAL, s)
  | some n =>
    let s := s.setInst n true
    if r.alloc = false then (- ENOMEM, s.setInst n false)
    else
      let u := s.ifaceSetup ⟨false, false, .unspecified⟩ iftype r.initRet r.openRet
      if u.1 ≠ 0 then (- EBUSY, u.2.2.setInst n false)
      else
        let t := u.2.2.setVif n (some u.2.1)
        if needNdev = true ∧ (r.netdevRet ≠ 0 ∨ r.registerRet ≠ 0) then
          (- EBUSY, ((t.ifaceTeardown n r.closeRet).2.setVif n none).setInst n false)
        else (0, t)

/-- The result of the teardown is not looked at. -/
def delIface (s : VifSys) (n : IfaceId) (closeRet : ℤ) : VifSys :=
  ((s.ifaceTeardown n closeRet).2.setVif n none).setInst n false

section
variable (checkCombs : (Iftype → ℤ) → ℤ)

/-- The combination is checked before the new interface counts. -/
def addVirtualIntf (s : VifSys) (type : Iftype) (r : AddEnv) : ℤ × VifSys :=
  if checkCombs s.countIftype ≠ 0 then (- EINVAL, s)
  else
    s.addIface type (if type = .p2pDevice then some (Fin.last 3) else none)
      (type != .p2pDevice) r

/-- One interface of type `type` more and one of type `old` fewer, whether or not these are types
that count. -/
def numChanged (num : Iftype → ℤ) (type old : Iftype) (t : Iftype) : ℤ :=
  num t + (if t = type then 1 else 0) - if t = old then 1 else 0

def changeIntf (s : VifSys) (n : IfaceId) (type : Iftype) (r : ChangeEnv) : ℤ × VifSys :=
  match s.iface n with
  | none => (0, s)
  | some f =>
    let f := if f.legacyP2pDev = true then { f with iftype := type } else f
    let s := s.setVif n (some f)
    if f.iftype = type then (0, s)
    else if checkCombs (numChanged s.countIftype type f.iftype) ≠ 0 then
      (checkCombs (numChanged s.countIftype type f.iftype), s)
    else
      let t := s.ifaceTeardown n r.closeRet
      if t.1 ≠ 0 then t
      else
        let f := { f with opened := false }
        let u := t.2.ifaceSetup f type r.initRet r.openRet
        if u.1 = 0 then (0, u.2.2.setVif n (some u.2.1))
        else
          let v := u.2.2.ifaceSetup f f.iftype r.initBack r.openBack
          (v.1, v.2.2.setVif n (some v.2.1))

def recoveryIface (s : VifSys) (n : IfaceId) (fwAssert : Bool) (openRet : ℤ) : ℤ × VifSys :=
  match s.iface n with
  | none => (0, s)
  | some f =>
    if fwAssert = true then (- EAGAIN, s)
    else if openRet ≠ 0 then (openRet, s)
    else
      (0, { s.setVif n (some { f with opened := true }) with openedDev := s.openedDev + 1 })

/-- One of the two loops of `skw_recovery_work` over the interfaces; it takes those of `p` and
leaves at the first that fails. -/
def recoveryLoop (p : Iftype → Bool) (fwAssert : IfaceId → Bool) (openRet : IfaceId → ℤ) :
    VifSys → List IfaceId → ℤ × VifSys
  | s, [] => (0, s)
  | s, n :: l =>
    if (s.iface n).any (fun f => p f.iftype) = true then
      let u := s.recoveryIface n (fwAssert n) (openRet n)
      if u.1 ≠ 0 then u else recoveryLoop p fwAssert openRet u.2 l
    else recoveryLoop p fwAssert openRet s l

/-- Stations and P2P devices come back first. -/
def recoversFirst (t : Iftype) : Bool := t == .station || t == .p2pDevice

/-- `syncRet` stands for the chip information and the calibration. -/
def recoveryWork (s : VifSys) (syncRet : ℤ) (fwAssert : IfaceId → Bool) (openRet : IfaceId → ℤ) :
    ℤ × VifSys :=
  let s :=
    { s with
      openedDev := 0
      iface := fun n => (s.iface n).map fun f => { f with opened := false }
      fwCredit := fun _ => 0 }
  if syncRet ≠ 0 then (syncRet, s)
  else
    let u := recoveryLoop recoversFirst fwAssert openRet s (List.finRange SKW_NR_IFACE)
    if u.1 ≠ 0 then u
    else
      recoveryLoop (fun t => !recoversFirst t) fwAssert openRet u.2 (List.finRange SKW_NR_IFACE)

def step (s : VifSys) : VifEvent → Option VifSys
  | .addVirtualIntf type r => some (s.addVirtualIntf checkCombs type r).2
  | .changeIntf n type r => some (s.changeIntf checkCombs n type r).2
  | .delIface n closeRet => if (s.iface n).isNone = true then none else some (s.delIface n closeRet)
  | .recoveryWork syncRet fwAssert openRet => some (s.recoveryWork syncRet fwAssert openRet).2

end

end VifSys

structure IfaceLimit where
  max : ℤ
  types : List Iftype

structure IfaceCombination where
  maxInterfaces : ℤ
  limits : List IfaceLimit

def ifaceLimits : List IfaceLimit := [⟨1, [.station]⟩, ⟨1, [.ap]⟩, ⟨1, [.p2pGo, .p2pClient]⟩]

def ifaceLimitsChange : List IfaceLimit := [⟨3, [.station]⟩, ⟨1, [.ap, .p2pGo, .p2pClient]⟩]

def ifaceLimitsAps : List IfaceLimit := [⟨1, [.station, .p2pClient]⟩, ⟨2, [.ap]⟩]

def ifaceLimitsMonitor : List IfaceLimit := [⟨2, [.monitor]⟩]

/-- The combinations for radar detection allow nothing more. -/
def ifaceCombos : List IfaceCombination :=
  [⟨3, ifaceLimits⟩, ⟨3, ifaceLimitsChange⟩, ⟨3, ifaceLimitsAps⟩, ⟨2, ifaceLimitsMonitor⟩]

def allIftypes : List Iftype :=
  [.unspecified, .adhoc, .station, .ap, .apVlan, .wds, .monitor, .meshPoint, .p2pClient, .p2pGo,
    .p2pDevice, .ocb, .nan]

def numOf (num : Iftype → ℤ) (l : List Iftype) : ℤ := (l.map num).sum

def IfaceCombination.Allows (c : IfaceCombination) (num : Iftype → ℤ) : Prop :=
  numOf num allIftypes ≤ c.maxInterfaces ∧ (∀ l ∈ c.limits, numOf num l.types ≤ l.max) ∧
    ∀ t ∈ allIftypes, 0 < num t → ∃ l ∈ c.limits, t ∈ l.types

instance (c : IfaceCombination) (num : Iftype → ℤ) : Decidable (c.Allows num) :=
  inferInstanceAs (Decidable (_ ∧ _ ∧ _))

/-- What `cfg80211_check_combinations` says about the advertised combinations. -/
def checkCombinations (num : Iftype → ℤ) : ℤ :=
  if ∃ c ∈ ifaceCombos, c.Allows num then 0 else - EBUSY

/-- A test that goes on passing when there are fewer interfaces of some types. -/
def DownwardClosed (checkCombs : (Iftype → ℤ) → ℤ) : Prop :=
  ∀ f g : Iftype → ℤ, (∀ t, 0 ≤ f t) → (∀ t, f t ≤ g t) → checkCombs g = 0 → checkCombs f = 0

theorem numOf_mono {f g : Iftype → ℤ} (h : ∀ t, f t ≤ g t) (l : List Iftype) :
    numOf f l ≤ numOf g l :=
  List.sum_le_sum fun t _ => h t

theorem IfaceCombination.Allows.mono {c : IfaceCombination} {f g : Iftype → ℤ}
    (hc : c.Allows g) (h : ∀ t, f t ≤ g t) : c.Allows f := by
  obtain ⟨hmax, hlimits, hused⟩ := hc
  refine ⟨(numOf_mono h _).trans hmax, fun l hl => (numOf_mono h _).trans (hlimits l hl), ?_⟩
  intro t ht hpos
  exact hused t ht (hpos.trans_le (h t))

theorem checkCombinations_eq_zero {num : Iftype → ℤ} :
    checkCombinations num = 0 ↔ ∃ c ∈ ifaceCombos, c.Allows num := by
  unfold checkCombinations
  split
  · next h => simp only [h]
  · next h => simp [h]

theorem downwardClosed_checkCombinations : DownwardClosed checkCombinations := by
  intro f g _ hle hg
  obtain ⟨c, hc, ha⟩ := checkCombinations_eq_zero.mp hg
  exact checkCombinations_eq_zero.mpr ⟨c, hc, ha.mono hle⟩

end Skw
