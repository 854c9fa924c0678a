import Mathlib.Logic.Function.Basic
import Skw.Ap.Beacon
import Skw.Lib.Heap

/-! An access point from its start to its stop: the copy that a recovery would start it with, the
firmware, the binding to an lmac, and the memory that the driver keeps for it. -/
namespace Skw

abbrev CacheBuf := Lib.Fixed (BitVec 8) SKW_2K_SIZE

/-- The interface of an access point with its recovery data. `ifaceBitmap` has the interface's bit
of each lmac, and `fw` the beacon of the access point that the firmware runs. -/
structure SapSys where
  heap : Lib.Heap
  nrLmac : ℕ
  lmacId : ℕ
  ifaceBitmap : ℕ → Bool
  apStarted : Bool
  probeResp : Option CacheBuf
  probeRespLen : ℕ
  acl : Option ℕ
  htCap : Option ℕ
  vhtCap : Option ℕ
  rdParam : Option (ℕ × CacheBuf)
  rdSize : ℕ
  fw : Option FwBeacon

/-- What `skw_cfg80211_start_ap` meets. -/
structure StartEnv where
  channelAllowed : Bool
  dfsRequired : Bool
  paramAlloc : Bool
  recoveryAlloc : Bool
  startRet : ℤ
  respLmac : BitVec 8
  dfsInitRet : ℤ
  dfsMonitorRet : ℤ
  aclAlloc : Bool
  htAlloc : Bool
  vhtAlloc : Bool

/-- What `skw_change_beacon` meets. -/
structure BeaconEnv where
  alloc : Bool
  ret : ℤ

def kmemdup (h : Lib.Heap) (given alloc : Bool) : Option ℕ × Lib.Heap :=
  if given ∧ alloc then (some h.next, h.alloc) else (none, h)

namespace SapSys

/-- The copy of a probe response; without a value if it does not fit. -/
def cacheProbeResp (s : SapSys) (b : BeaconData) : Option SapSys :=
  match b.probeResp, s.probeResp with
  | some a, some buf =>
    (buf.write 0 a.bytes).map fun buf =>
      { s with probeResp := some buf, probeRespLen := a.bytes.length }
  | _, _ => some s

/-- Without a value if the copy does not fit. -/
def recoveryDataUpdate (s : SapSys) (param : List (BitVec 8)) (alloc : Bool) :
    Option (ℤ × SapSys) :=
  if alloc = false then some (- ENOMEM, s)
  else
    ((Lib.Fixed.fill SKW_2K_SIZE 0).write 0 param).map fun data =>
      (0, { s with
        heap := s.heap.alloc.free (s.rdParam.map Prod.fst)
        rdParam := some (s.heap.next, data)
        rdSize := param.length })

def recoveryDataClear (s : SapSys) : SapSys :=
  { s with heap := s.heap.free (s.rdParam.map Prod.fst), rdParam := none, rdSize := 0 }

/-- The result is only warned of. -/
def lmacBindIface (s : SapSys) (lmacId : BitVec 8) : SapSys :=
  if s.nrLmac ≤ lmacId.toNat then s
  else
    { s with
      lmacId := lmacId.toNat
      ifaceBitmap := Function.update s.ifaceBitmap lmacId.toNat true }

def lmacUnbindIface (s : SapSys) : SapSys :=
  if s.nrLmac ≤ s.lmacId then s
  else { s with ifaceBitmap := Function.update s.ifaceBitmap s.lmacId false }

/-- `acl` has the number of entries. -/
def setMacAcl (s : SapSys) (acl : Option ℕ) (alloc : Bool) : SapSys :=
  match acl with
  | none => s
  | some n =>
    let h := s.heap.free s.acl
    if n ≠ 0 ∧ alloc then { s with heap := h.alloc, acl := some h.next }
    else { s with heap := h, acl := none }

/-- The copies of the capabilities. -/
def dupCaps (s : SapSys) (g : SapSettings) (e : StartEnv) : SapSys :=
  let ht := kmemdup s.heap g.htCap e.htAlloc
  let vht := kmemdup ht.2 g.vhtCap e.vhtAlloc
  { s with heap := vht.2, htCap := ht.1, vhtCap := vht.1 }

def kfree (s : SapSys) (p : ℕ) : SapSys := { s with heap := s.heap.free (some p) }

/-- What is left of a start once the firmware has accepted it. -/
def startFinish (s : SapSys) (g : SapSettings) (e : StartEnv) : ℤ × SapSys :=
  if e.dfsRequired ∧ e.dfsInitRet ≠ 0 then (e.dfsInitRet, s)
  else if e.dfsRequired ∧ e.dfsMonitorRet ≠ 0 then (e.dfsMonitorRet, s)
  else (0, { (s.setMacAcl g.acl e.aclAlloc).dupCaps g e with apStarted := true })

/-- `skw_cfg80211_start_ap`; without a value if a copy does not fit. All ways out free `param`. -/
def startAp (s : SapSys) (g : SapSettings) (e : StartEnv) : Option (ℤ × SapSys) :=
  if e.channelAllowed = false then some (- ENOTSUPP, s)
  else
    match g.width with
    | none => some (- ENOTSUPP, s)
    | some bw =>
      if e.paramAlloc = false then some (- ENOMEM, s)
      else
        let param := s.heap.next
        let msg := startapParam g bw
        (cacheProbeResp { s with heap := s.heap.alloc } g.beacon).bind fun s =>
        (s.recoveryDataUpdate msg e.recoveryAlloc).map fun (ret, s) =>
          if ret ≠ 0 then (- ENOMEM, s.kfree param)
          else if e.startRet ≠ 0 then (e.startRet, s.recoveryDataClear.kfree param)
          else
            let s := lmacBindIface { s with fw := some (startapBeacon msg) } e.respLmac
            let r := s.startFinish g e
            (r.1, r.2.kfree param)

/-- `skw_change_beacon`; without a value if the copy does not fit. -/
def changeBeacon (s : SapSys) (bcn : Option BeaconData) (e : BeaconEnv) : Option (ℤ × SapSys) :=
  match bcn with
  | none => some (- EINVAL, s)
  | some b =>
    if e.alloc = false then some (- ENOMEM, s)
    else
      let param := s.heap.next
      (cacheProbeResp { s with heap := s.heap.alloc } b).map fun s =>
        let fw :=
          if e.ret = 0 then s.fw.map fun old => old.update (changedBeacon (beaconParams b))
          else s.fw
        (e.ret, { s with fw }.kfree param)

def stopAp (s : SapSys) (ret : ℤ) : ℤ × SapSys :=
  let s := s.recoveryDataClear
  if ret ≠ 0 then (ret, s)
  else
    let s :=
      { s with
        heap := ((s.heap.free s.acl).free s.htCap).free s.vhtCap
        acl := none
        htCap := none
        vhtCap := none
        apStarted := false
        fw := none }
    (0, s.lmacUnbindIface)

/-- `skw_recovery_sap`, with the message of `SKW_CMD_START_AP` if it is sent. -/
def recoverySap (s : SapSys) (mibRet startRet : ℤ) (respLmac : BitVec 8) :
    ℤ × Option (List (BitVec 8)) × SapSys :=
  match s.rdParam with
  | none => (- EINVAL, none, s)
  | some (_, data) =>
    if mibRet ≠ 0 then (mibRet, none, s)
    else
      let msg := data.cells.take s.rdSize
      if startRet ≠ 0 then (startRet, some msg, s)
      else (0, some msg, lmacBindIface { s with fw := some (startapBeacon msg) } respLmac)

/-- The pointers to memory of the heap. -/
def owned (s : SapSys) : List (Option ℕ) := [s.acl, s.htCap, s.vhtCap, s.rdParam.map Prod.fst]

/-- No access point, in the firmware or for the driver. -/
structure Stopped (s : SapSys) : Prop where
  fw : s.fw = none
  rdParam : s.rdParam = none
  apStarted : s.apStarted = false

/-- Nothing of an access point, and no binding that was not there before. -/
structure Nothing (s t : SapSys) : Prop extends t.Stopped where
  bound : ∀ l, t.ifaceBitmap l = true → s.ifaceBitmap l = true

structure Everything (t : SapSys) : Prop where
  fw : t.fw.isSome = true
  rdParam : t.rdParam.isSome = true
  apStarted : t.apStarted = true
  bound : t.ifaceBitmap t.lmacId = true

/-- A start returns, leaks no memory that it has allocated, and leaves everything of an access point
or nothing. -/
def AllOrNothing (s : SapSys) (r : Option (ℤ × SapSys)) : Prop :=
  ∃ ret t, r = some (ret, t) ∧ s.heap.Kept t.heap t.owned ∧
    (ret ≠ 0 → Nothing s t) ∧ (ret = 0 → t.Everything)

/-- A probe response has room in the copy, if there is one. -/
def ProbeFits (s : SapSys) (b : BeaconData) : Prop :=
  s.probeResp.isSome = true → (partBytes b.probeResp).length ≤ SKW_2K_SIZE

/-- The start ends before anything is allocated. -/
def EndsEarly (g : SapSettings) (e : StartEnv) : Prop :=
  e.channelAllowed = false ∨ g.width = none ∨ e.paramAlloc = false

instance (g : SapSettings) (e : StartEnv) : Decidable (EndsEarly g e) :=
  inferInstanceAs (Decidable (_ ∨ _ ∨ _))

/-- When a start leaves no residue: no step fails after the firmware has accepted it, and one that
fails before finds the access point stopped. -/
def StartsWhole (s : SapSys) (g : SapSettings) (e : StartEnv) : Prop :=
  if EndsEarly g e then s.Stopped
  else
    s.ProbeFits g.beacon ∧
      if e.recoveryAlloc = false then s.Stopped
      else
        startapFixed + g.beacon.ies.length ≤ SKW_2K_SIZE ∧
          if e.startRet ≠ 0 then s.fw = none ∧ s.apStarted = false
          else
            (e.respLmac.toNat < s.nrLmac ∨ s.ifaceBitmap s.lmacId = true) ∧
              (e.dfsRequired = true → e.dfsInitRet = 0 ∧ e.dfsMonitorRet = 0)

section
variable {h : Lib.Heap} {s t : SapSys} {x : Option ℕ} {b : BeaconData} {g : SapSettings}
  {e : StartEnv} {msg : List (BitVec 8)} {ret : ℤ} {alloc : Bool}

/-- The copy of a probe response changes nothing else, and is made if it fits. -/
theorem cacheProbeResp_spec (s : SapSys) (b : BeaconData) :
    (∃ buf len, s.cacheProbeResp b = some { s with probeResp := buf, probeRespLen := len } ∧
        s.ProbeFits b) ∨
      s.cacheProbeResp b = none ∧ ¬ s.ProbeFits b := by
  unfold cacheProbeResp ProbeFits
  cases hb : b.probeResp with
  | none =>
    left
    exact ⟨s.probeResp, s.probeRespLen, rfl, fun _ => Nat.zero_le _⟩
  | some a =>
    cases hs : s.probeResp with
    | none =>
      have heta : s = { s with probeResp := none, probeRespLen := s.probeRespLen } := by
        rw [← hs]
      left
      refine ⟨none, s.probeRespLen, congrArg some heta, fun h => ?_⟩
      cases h
    | some buf =>
      by_cases hfit : a.bytes.length ≤ SKW_2K_SIZE
      · obtain ⟨buf', hw⟩ := buf.exists_write (i := 0) (by simpa using hfit)
        left
        refine ⟨some buf', a.bytes.length, ?_, fun _ => hfit⟩
        simp only [hw, Option.map_some]
      · have hw : buf.write 0 a.bytes = none := by
          rw [← Option.not_isSome_iff_eq_none, Lib.Fixed.isSome_write_iff]
          simpa using hfit
        right
        refine ⟨by simp only [hw, Option.map_none], fun h => hfit (h rfl)⟩

/-- The copy for a recovery has the message at its start. -/
theorem recoveryDataUpdate_spec (s : SapSys) (msg : List (BitVec 8)) :
    (∃ data : CacheBuf, s.recoveryDataUpdate msg true =
        some (0, { s with
          heap := s.heap.alloc.free (s.rdParam.map Prod.fst)
          rdParam := some (s.heap.next, data)
          rdSize := msg.length }) ∧
        data.cells.take msg.length = msg ∧ msg.length ≤ SKW_2K_SIZE) ∨
      s.recoveryDataUpdate msg true = none ∧ ¬ msg.length ≤ SKW_2K_SIZE := by
  unfold recoveryDataUpdate
  rw [if_neg (by decide)]
  by_cases hfit : msg.length ≤ SKW_2K_SIZE
  · obtain ⟨data, hw, hcells⟩ := (Lib.Fixed.fill SKW_2K_SIZE (0 : BitVec 8)).write_zero hfit
    left
    refine ⟨data, by rw [hw]; rfl, ?_, hfit⟩
    rw [hcells, List.take_left]
  · have hw : (Lib.Fixed.fill SKW_2K_SIZE (0 : BitVec 8)).write 0 msg = none := by
      rw [← Option.not_isSome_iff_eq_none, Lib.Fixed.isSome_write_iff]
      simpa using hfit
    right
    exact ⟨by rw [hw]; rfl, hfit⟩

end

/-- A call that has memory for its message and has made the copy of the probe response. -/
def withParam (s : SapSys) (buf : Option CacheBuf) (len : ℕ) : SapSys :=
  { s with heap := s.heap.alloc, probeResp := buf, probeRespLen := len }

/-- Then the recovery has a copy of the message. -/
def withCopy (s : SapSys) (data : CacheBuf) (size : ℕ) : SapSys :=
  { s with
    heap := s.heap.alloc.free (s.rdParam.map Prod.fst)
    rdParam := some (s.heap.next, data)
    rdSize := size }

/-- How a start ends. -/
inductive StartEnd (s : SapSys) (g : SapSettings) (e : StartEnv) : Option (ℤ × SapSys) → Prop
  | early (ret : ℤ) (hret : ret ≠ 0) (hearly : EndsEarly g e) : StartEnd s g e (some (ret, s))
  | probeOverflow (hearly : ¬ EndsEarly g e) (hfit : ¬ s.ProbeFits g.beacon) : StartEnd s g e none
  | noCopy (buf : Option CacheBuf) (len : ℕ) (hearly : ¬ EndsEarly g e)
      (hfit : s.ProbeFits g.beacon) (hcopy : e.recoveryAlloc = false) :
      StartEnd s g e (some (- ENOMEM, (s.withParam buf len).kfree s.heap.next))
  | copyOverflow (hearly : ¬ EndsEarly g e) (hfit : s.ProbeFits g.beacon)
      (hcopy : e.recoveryAlloc = true)
      (hlong : ¬ startapFixed + g.beacon.ies.length ≤ SKW_2K_SIZE) :
      StartEnd s g e none
  | refused (buf : Option CacheBuf) (len size : ℕ) (data : CacheBuf) (hearly : ¬ EndsEarly g e)
      (hfit : s.ProbeFits g.beacon) (hcopy : e.recoveryAlloc = true)
      (hfits : startapFixed + g.beacon.ies.length ≤ SKW_2K_SIZE) (hret : e.startRet ≠ 0) :
      StartEnd s g e (some (e.startRet,
        ((s.withParam buf len).withCopy data size).recoveryDataClear.kfree s.heap.next))
  | accepted (buf : Option CacheBuf) (len : ℕ) (bw : BitVec 8) (data : CacheBuf) (u : SapSys)
      (hearly : ¬ EndsEarly g e) (hfit : s.ProbeFits g.beacon) (hcopy : e.recoveryAlloc = true)
      (hfits : startapFixed + g.beacon.ies.length ≤ SKW_2K_SIZE) (hret : e.startRet = 0)
      (hdata : data.cells.take (startapParam g bw).length = startapParam g bw)
      (hu : u =
        { (s.withParam buf len).withCopy data (startapParam g bw).length with
          fw := some (startapBeacon (startapParam g bw)) }) :
      StartEnd s g e (some
        (((u.lmacBindIface e.respLmac).startFinish g e).1,
          ((u.lmacBindIface e.respLmac).startFinish g e).2.kfree s.heap.next))

theorem startAp_end (s : SapSys) (g : SapSettings) (e : StartEnv) :
    StartEnd s g e (s.startAp g e) := by
  unfold startAp
  by_cases hchan : e.channelAllowed = false
  · rw [if_pos hchan]
    exact .early _ (by decide) (.inl hchan)
  rw [if_neg hchan]
  cases hw : g.width with
  | none => exact .early _ (by decide) (.inr (.inl hw))
  | some bw =>
    dsimp only
    by_cases halloc : e.paramAlloc = false
    · rw [if_pos halloc]
      exact .early _ (by decide) (.inr (.inr halloc))
    rw [if_neg halloc]
    have hearly : ¬ EndsEarly g e := by
      simp [EndsEarly, hchan, hw, halloc]
    rcases cacheProbeResp_spec { s with heap := s.heap.alloc } g.beacon with
      ⟨buf, len, hprobe, hfit⟩ | ⟨hprobe, hfit⟩
    · rw [hprobe, Option.bind_some]
      change StartEnd s g e (((s.withParam buf len).recoveryDataUpdate _ _).map _)
      cases hcopy : e.recoveryAlloc with
      | false =>
        rw [recoveryDataUpdate, if_pos rfl, Option.map_some]
        dsimp only
        rw [if_pos (by decide)]
        exact .noCopy buf len hearly hfit hcopy
      | true =>
        rcases (s.withParam buf len).recoveryDataUpdate_spec (startapParam g bw) with
          ⟨data, hupdate, hdata, hfits⟩ | ⟨hupdate, hlong⟩
        · rw [length_startapParam] at hfits
          rw [hupdate, Option.map_some]
          dsimp only
          rw [if_neg (not_not.mpr rfl)]
          by_cases hret : e.startRet = 0
          · rw [if_neg (not_not.mpr hret)]
            exact .accepted buf len bw data _ hearly hfit hcopy hfits hret hdata rfl
          · rw [if_pos hret]
            exact .refused buf len _ data hearly hfit hcopy hfits hret
        · rw [length_startapParam] at hlong
          rw [hupdate, Option.map_none]
          exact .copyOverflow hearly hfit hcopy hlong
    · rw [hprobe, Option.bind_none]
      exact .probeOverflow hearly hfit

/-- The copies that a start makes have room. -/
def CopiesFit (s : SapSys) (g : SapSettings) (e : StartEnv) : Prop :=
  ¬ EndsEarly g e → s.ProbeFits g.beacon ∧
    (e.recoveryAlloc = true → startapFixed + g.beacon.ies.length ≤ SKW_2K_SIZE)

/-- No copy of a start leaves its buffer exactly if all of them fit. -/
theorem isSome_startAp_iff (s : SapSys) (g : SapSettings) (e : StartEnv) :
    (s.startAp g e).isSome = true ↔ s.CopiesFit g e := by
  have hend := startAp_end s g e
  revert hend
  generalize s.startAp g e = r
  intro hend
  cases hend with
  | early ret hret hearly => exact iff_of_true rfl fun h => absurd hearly h
  | probeOverflow hearly hfit => exact iff_of_false Bool.false_ne_true fun h => hfit (h hearly).1
  | noCopy buf len hearly hfit hcopy =>
    have hne : e.recoveryAlloc ≠ true := by
      rw [hcopy]
      exact Bool.false_ne_true
    exact iff_of_true rfl fun _ => ⟨hfit, fun h => absurd h hne⟩
  | copyOverflow hearly hfit hcopy hlong =>
    exact iff_of_false Bool.false_ne_true fun h => hlong ((h hearly).2 hcopy)
  | refused buf len size data hearly hfit hcopy hfits =>
    exact iff_of_true rfl fun _ => ⟨hfit, fun _ => hfits⟩
  | accepted buf len bw data u hearly hfit hcopy hfits =>
    exact iff_of_true rfl fun _ => ⟨hfit, fun _ => hfits⟩

/-- How a change of the beacon ends. -/
inductive BeaconEnd (s : SapSys) (e : BeaconEnv) :
    Option BeaconData → Option (ℤ × SapSys) → Prop
  | noBeacon : BeaconEnd s e none (some (- EINVAL, s))
  | noMemory (b : BeaconData) (halloc : e.alloc = false) :
      BeaconEnd s e (some b) (some (- ENOMEM, s))
  | overflow (b : BeaconData) (halloc : e.alloc = true) (hfit : ¬ s.ProbeFits b) :
      BeaconEnd s e (some b) none
  | sent (b : BeaconData) (buf : Option CacheBuf) (len : ℕ) (halloc : e.alloc = true)
      (hfit : s.ProbeFits b) :
      BeaconEnd s e (some b) (some (e.ret,
        { s.withParam buf len with
          fw :=
            if e.ret = 0 then
              s.fw.map fun old : FwBeacon => old.update (changedBeacon (beaconParams b))
            else s.fw }.kfree s.heap.next))

theorem changeBeacon_end (s : SapSys) (bcn : Option BeaconData) (e : BeaconEnv) :
    BeaconEnd s e bcn (s.changeBeacon bcn e) := by
  unfold changeBeacon
  cases bcn with
  | none => exact .noBeacon
  | some b =>
    dsimp only
    cases halloc : e.alloc with
    | false =>
      rw [if_pos rfl]
      exact .noMemory b halloc
    | true =>
      rw [if_neg (by decide)]
      rcases cacheProbeResp_spec { s with heap := s.heap.alloc } b with
        ⟨buf, len, hprobe, hfit⟩ | ⟨hprobe, hfit⟩
      · rw [hprobe]
        exact .sent b buf len halloc hfit
      · rw [hprobe]
        exact .overflow b halloc hfit

theorem isSome_changeBeacon_iff (s : SapSys) (bcn : Option BeaconData) (e : BeaconEnv) :
    (s.changeBeacon bcn e).isSome = true ↔ ∀ b ∈ bcn, e.alloc = true → s.ProbeFits b := by
  have hend := changeBeacon_end s bcn e
  revert hend
  generalize s.changeBeacon bcn e = r
  intro hend
  cases hend with
  | noBeacon => exact iff_of_true rfl fun b hb => by cases hb
  | noMemory b halloc =>
    have hne : e.alloc ≠ true := by
      rw [halloc]
      exact Bool.false_ne_true
    exact iff_of_true rfl fun _ _ h => absurd h hne
  | overflow b halloc hfit =>
    exact iff_of_false Bool.false_ne_true fun h => hfit (h b rfl halloc)
  | sent b buf len halloc hfit =>
    refine iff_of_true rfl fun b' hb _ => ?_
    cases hb
    exact hfit

section
variable {h : Lib.Heap} {s t : SapSys} {x : Option ℕ} {g : SapSettings} {e : StartEnv} {ret : ℤ}

theorem kept_kfree {p : ℕ} (hk : h.Kept s.heap (some p :: s.owned)) :
    h.Kept (s.kfree p).heap (s.kfree p).owned := by
  apply hk.free
  intro q hq
  exact List.mem_cons.mp hq

theorem kept_withParam (s : SapSys) (buf : Option CacheBuf) (len : ℕ) :
    s.heap.Kept (s.withParam buf len).heap (some s.heap.next :: (s.withParam buf len).owned) :=
  (Lib.Heap.Kept.refl s.heap s.owned).alloc

theorem kept_withCopy (hk : h.Kept s.heap (x :: s.owned)) (data : CacheBuf) (size : ℕ) :
    h.Kept (s.withCopy data size).heap (x :: (s.withCopy data size).owned) := by
  apply hk.alloc.free
  intro p hp
  simp only [withCopy, owned, List.mem_cons, List.not_mem_nil, or_false, Option.map_some] at hp ⊢
  tauto

theorem kept_recoveryDataClear (hk : h.Kept s.heap (x :: s.owned)) :
    h.Kept s.recoveryDataClear.heap (x :: s.recoveryDataClear.owned) := by
  apply hk.free
  intro p hp
  simp only [recoveryDataClear, owned, List.mem_cons, List.not_mem_nil, or_false] at hp ⊢
  tauto

theorem kept_setMacAcl (hk : h.Kept s.heap (x :: s.owned)) (acl : Option ℕ) (alloc : Bool) :
    h.Kept (s.setMacAcl acl alloc).heap (x :: (s.setMacAcl acl alloc).owned) := by
  unfold setMacAcl
  cases acl with
  | none => exact hk
  | some n =>
    have hfreed : h.Kept (s.heap.free s.acl) [x, s.htCap, s.vhtCap, s.rdParam.map Prod.fst] := by
      apply hk.free
      intro p hp
      simp only [owned, List.mem_cons, List.not_mem_nil, or_false] at hp ⊢
      tauto
    dsimp only
    split_ifs
    · apply hfreed.alloc.mono
      intro p hp
      simp only [owned, List.mem_cons, List.not_mem_nil, or_false] at hp ⊢
      tauto
    · apply hfreed.mono
      intro p hp
      simp only [owned, List.mem_cons, List.not_mem_nil, or_false] at hp ⊢
      tauto

/-- What the pointers refer to was allocated. -/
def Held (s : SapSys) : Prop := ∀ p, some p ∈ s.owned → p < s.heap.next

/-- The copies of a former start are not the call's own. -/
theorem kept_dupCaps (hk : h.Kept s.heap (x :: s.owned)) (hht : ∀ p ∈ s.htCap, p < h.next)
    (hvht : ∀ p ∈ s.vhtCap, p < h.next) (g : SapSettings) (e : StartEnv) :
    h.Kept (s.dupCaps g e).heap (x :: (s.dupCaps g e).owned) := by
  have hrest : h.Kept s.heap [x, s.acl, s.rdParam.map Prod.fst] := by
    intro p hp hle
    have hmem := hk p hp hle
    simp only [owned, List.mem_cons, List.not_mem_nil, or_false] at hmem ⊢
    rcases hmem with h₁ | h₂ | h₃ | h₄ | h₅
    · exact .inl h₁
    · exact .inr (.inl h₂)
    · exact absurd (hht p h₃.symm) (Nat.not_lt.mpr hle)
    · exact absurd (hvht p h₄.symm) (Nat.not_lt.mpr hle)
    · exact .inr (.inr h₅)
  have hdup : ∀ {k : Lib.Heap} {owned : List (Option ℕ)} (given alloc : Bool), h.Kept k owned →
      h.Kept (kmemdup k given alloc).2 ((kmemdup k given alloc).1 :: owned) := by
    intro k owned given alloc hk
    unfold kmemdup
    split_ifs
    · exact hk.alloc
    · exact hk.mono fun p hp => List.mem_cons_of_mem _ hp
  apply (hdup g.vhtCap e.vhtAlloc (hdup g.htCap e.htAlloc hrest)).mono
  intro p hp
  simp only [dupCaps, owned, List.mem_cons, List.not_mem_nil, or_false] at hp ⊢
  tauto

namespace Held

theorem of_eq (hs : s.Held) (hnext : s.heap.next ≤ t.heap.next)
    (ho : ∀ p, some p ∈ t.owned → some p ∈ s.owned ∨ p < t.heap.next) : t.Held := by
  intro p hp
  exact (ho p hp).elim (fun h => (hs p h).trans_le hnext) id

theorem withParam (hs : s.Held) (buf : Option CacheBuf) (len : ℕ) : (s.withParam buf len).Held := by
  intro p hp
  exact Nat.lt_succ_of_lt (hs p hp)

theorem withCopy (hs : s.Held) (data : CacheBuf) (size : ℕ) : (s.withCopy data size).Held := by
  apply hs.of_eq (t := s.withCopy data size) (Nat.le_succ _)
  intro p hp
  simp only [SapSys.withCopy, owned, List.mem_cons, List.not_mem_nil, or_false, Option.map_some,
    Option.some.injEq] at hp ⊢
  rcases hp with h | h | h | rfl
  · exact .inl (.inl h)
  · exact .inl (.inr (.inl h))
  · exact .inl (.inr (.inr (.inl h)))
  · exact .inr (Nat.lt_succ_self _)

theorem recoveryDataClear (hs : s.Held) : s.recoveryDataClear.Held := by
  apply hs.of_eq (t := s.recoveryDataClear) (Nat.le_refl _)
  intro p hp
  simp only [SapSys.recoveryDataClear, owned, Option.map_none, List.mem_cons, List.not_mem_nil,
    or_false] at hp ⊢
  tauto

theorem lmacBindIface (hs : s.Held) (l : BitVec 8) : (s.lmacBindIface l).Held := by
  unfold SapSys.lmacBindIface
  split_ifs
  · exact hs
  · exact hs

theorem setMacAcl (hs : s.Held) (acl : Option ℕ) (alloc : Bool) : (s.setMacAcl acl alloc).Held := by
  unfold SapSys.setMacAcl
  cases acl with
  | none => exact hs
  | some n =>
    dsimp only
    split_ifs
    · apply hs.of_eq (Nat.le_succ _)
      intro p hp
      simp only [owned, List.mem_cons, List.not_mem_nil, or_false, Option.some.injEq] at hp ⊢
      rcases hp with rfl | hp
      · exact .inr (Nat.lt_succ_self _)
      · exact .inl (.inr hp)
    · intro p hp
      apply hs p
      simp only [owned, List.mem_cons, List.not_mem_nil, or_false] at hp ⊢
      tauto

theorem kmemdup_spec (k : Lib.Heap) (given alloc : Bool) :
    k.next ≤ (kmemdup k given alloc).2.next ∧
      ∀ p, some p = (kmemdup k given alloc).1 → p < (kmemdup k given alloc).2.next := by
  unfold kmemdup
  split_ifs
  · constructor
    · exact Nat.le_succ _
    · intro p hp
      cases hp
      exact Nat.lt_succ_self _
  · constructor
    · exact Nat.le_refl _
    · intro p hp
      cases hp

theorem dupCaps (hs : s.Held) (g : SapSettings) (e : StartEnv) : (s.dupCaps g e).Held := by
  obtain ⟨hle, hht⟩ := kmemdup_spec s.heap g.htCap e.htAlloc
  obtain ⟨hle', hvht⟩ := kmemdup_spec (kmemdup s.heap g.htCap e.htAlloc).2 g.vhtCap e.vhtAlloc
  apply hs.of_eq (t := s.dupCaps g e) (hle.trans hle')
  intro p hp
  simp only [SapSys.dupCaps, owned, List.mem_cons, List.not_mem_nil, or_false] at hp ⊢
  rcases hp with h | h | h | h
  · exact .inl (.inl h)
  · exact .inr ((hht p h).trans_le hle')
  · exact .inr (hvht p h)
  · exact .inl (.inr (.inr (.inr h)))

theorem kfree (hs : s.Held) (p : ℕ) : (s.kfree p).Held := hs

theorem startFinish (hs : s.Held) (g : SapSettings) (e : StartEnv) :
    (s.startFinish g e).2.Held := by
  unfold SapSys.startFinish
  split_ifs
  · exact hs
  · exact hs
  · exact (hs.setMacAcl g.acl e.aclAlloc).dupCaps g e

/-- A start keeps the pointers to what was allocated. -/
theorem startAp (hs : s.Held) (ht : s.startAp g e = some (ret, t)) : t.Held := by
  have hend := startAp_end s g e
  rw [ht] at hend
  cases hend with
  | early => exact hs
  | noCopy buf len => exact hs.withParam buf len
  | refused buf len size data => exact ((hs.withParam buf len).withCopy data size).recoveryDataClear
  | accepted buf len bw data u _ _ _ _ _ _ hu =>
    subst hu
    apply Held.startFinish (Held.lmacBindIface _ _)
    exact (hs.withParam buf len).withCopy data (startapParam g bw).length

theorem changeBeacon {bcn : Option BeaconData} {e : BeaconEnv} (hs : s.Held)
    (ht : s.changeBeacon bcn e = some (ret, t)) : t.Held := by
  have hend := changeBeacon_end s bcn e
  rw [ht] at hend
  cases hend with
  | noBeacon => exact hs
  | noMemory => exact hs
  | sent b buf len => exact hs.withParam buf len

theorem stopAp (hs : s.Held) (ret : ℤ) : (s.stopAp ret).2.Held := by
  have hnothing : ∀ u : SapSys, u.owned = [none, none, none, none] → u.Held := by
    intro u hu p hp
    simp [hu] at hp
  unfold SapSys.stopAp lmacUnbindIface
  dsimp only
  split_ifs
  · exact hs.recoveryDataClear
  · exact hnothing _ rfl
  · exact hnothing _ rfl

end Held

end

section
variable {s t : SapSys} {g : SapSettings} {e : StartEnv} {ret : ℤ} {l : BitVec 8}

theorem allOrNothing_of_fail (hret : ret ≠ 0) (hk : s.heap.Kept t.heap t.owned) :
    AllOrNothing s (some (ret, t)) ↔ Nothing s t := by
  constructor
  · rintro ⟨_, _, h, -, hnothing, -⟩
    cases h
    exact hnothing hret
  · intro h
    exact ⟨ret, t, rfl, hk, fun _ => h, fun h => absurd h hret⟩

theorem lmacBindIface_bound (s : SapSys) (l : BitVec 8) :
    (s.lmacBindIface l).ifaceBitmap (s.lmacBindIface l).lmacId = true ↔
      l.toNat < s.nrLmac ∨ s.ifaceBitmap s.lmacId = true := by
  unfold lmacBindIface
  split_ifs with h
  · simp [Nat.not_lt.mpr h]
  · simp [Nat.not_le.mp h]

/-- A binding changes nothing else. -/
theorem lmacBindIface_frame (s : SapSys) (l : BitVec 8) :
    ∃ lmacId ifaceBitmap, s.lmacBindIface l = { s with lmacId, ifaceBitmap } := by
  unfold lmacBindIface
  split_ifs
  · exact ⟨s.lmacId, s.ifaceBitmap, rfl⟩
  · exact ⟨_, _, rfl⟩

/-- The rules and the capabilities change nothing that a start promises. -/
theorem setMacAcl_frame (s : SapSys) (acl : Option ℕ) (alloc : Bool) :
    ∃ heap acl', s.setMacAcl acl alloc = { s with heap, acl := acl' } := by
  unfold setMacAcl
  cases acl with
  | none => exact ⟨s.heap, s.acl, rfl⟩
  | some n =>
    dsimp only
    split_ifs
    · exact ⟨_, _, rfl⟩
    · exact ⟨_, _, rfl⟩

/-- What the radar steps decide of a start that the firmware has accepted. -/
theorem startFinish_allOrNothing_iff {u : SapSys} {p : ℕ}
    (hk : s.heap.Kept u.heap (some p :: u.owned)) (hht : ∀ q ∈ u.htCap, q < s.heap.next)
    (hvht : ∀ q ∈ u.vhtCap, q < s.heap.next) (hfw : u.fw.isSome = true)
    (hrd : u.rdParam.isSome = true) :
    AllOrNothing s (some ((u.startFinish g e).1, (u.startFinish g e).2.kfree p)) ↔
      u.ifaceBitmap u.lmacId = true ∧
        (e.dfsRequired = true → e.dfsInitRet = 0 ∧ e.dfsMonitorRet = 0) := by
  have hfail : ∀ ret, ret ≠ 0 → ¬ AllOrNothing s (some (ret, u.kfree p)) := by
    intro ret hret h
    have hnone : u.fw = none := ((allOrNothing_of_fail hret (kept_kfree hk)).mp h).toStopped.fw
    rw [hnone] at hfw
    cases hfw
  unfold startFinish
  split_ifs with hinit hmonitor
  · constructor
    · exact fun h => absurd h (hfail _ hinit.2)
    · exact fun h => absurd (h.2 hinit.1).1 hinit.2
  · constructor
    · exact fun h => absurd h (hfail _ hmonitor.2)
    · exact fun h => absurd (h.2 hmonitor.1).2 hmonitor.2
  · obtain ⟨heap, acl, hacl⟩ := u.setMacAcl_frame g.acl e.aclAlloc
    have hkept := kept_setMacAcl hk g.acl e.aclAlloc
    have hkept' := kept_dupCaps hkept (by rwa [hacl]) (by rwa [hacl]) g e
    constructor
    · rintro ⟨_, _, h, -, -, hall⟩
      cases h
      have hbound := (hall rfl).bound
      rw [hacl] at hbound
      exact ⟨hbound, fun hd => by simp_all⟩
    · rintro ⟨hbound, -⟩
      refine ⟨_, _, rfl, ?_, fun h => absurd rfl h, fun _ => ?_⟩
      · apply hkept'.free
        intro q hq
        exact List.mem_cons.mp hq
      · rw [hacl]
        exact ⟨hfw, hrd, rfl, hbound⟩

end

end SapSys

/-- An access point of the driver: its pointers refer to memory that was allocated. -/
structure SapIface extends SapSys where
  held : toSapSys.Held

namespace SapSys

/-- A start leaves everything or nothing exactly if no step fails once the firmware has accepted it,
the copies fit, and it finds the access point stopped where it fails. -/
theorem startAp_allOrNothing_iff (s : SapIface) (g : SapSettings) (e : StartEnv) :
    AllOrNothing s.toSapSys (s.startAp g e) ↔ StartsWhole s.toSapSys g e := by
  obtain ⟨s, hheld⟩ := s
  have hend := startAp_end s g e
  revert hend
  generalize s.startAp g e = r
  intro hend
  unfold StartsWhole
  cases hend with
  | early ret hret hearly =>
    rw [if_pos hearly, allOrNothing_of_fail hret (.refl _ _)]
    constructor
    · exact fun h => h.toStopped
    · exact fun h => ⟨h, fun _ hl => hl⟩
  | probeOverflow hearly hfit =>
    rw [if_neg hearly]
    constructor
    · rintro ⟨_, _, h, -⟩
      cases h
    · rintro ⟨h, -⟩
      exact absurd h hfit
  | noCopy buf len hearly hfit hcopy =>
    rw [if_neg hearly, if_pos hcopy,
      allOrNothing_of_fail (by decide) (kept_kfree (kept_withParam s buf len))]
    constructor
    · exact fun h => ⟨hfit, h.toStopped.fw, h.toStopped.rdParam, h.toStopped.apStarted⟩
    · exact fun h => ⟨⟨h.2.fw, h.2.rdParam, h.2.apStarted⟩, fun _ hl => hl⟩
  | copyOverflow hearly hfit hcopy hlong =>
    rw [if_neg hearly]
    constructor
    · rintro ⟨_, _, h, -⟩
      cases h
    · rintro ⟨-, h⟩
      rw [if_neg (by simp [hcopy])] at h
      exact absurd h.1 hlong
  | refused buf len size data hearly hfit hcopy hfits hret =>
    rw [if_neg hearly, if_neg (by simp [hcopy]), if_pos hret, allOrNothing_of_fail hret
      (kept_kfree (kept_recoveryDataClear (kept_withCopy (kept_withParam s buf len) data size)))]
    constructor
    · exact fun h => ⟨hfit, hfits, h.toStopped.fw, h.toStopped.apStarted⟩
    · exact fun h => ⟨⟨h.2.2.1, rfl, h.2.2.2⟩, fun _ hl => hl⟩
  | accepted buf len bw data u hearly hfit hcopy hfits hret hdata hu =>
    rw [if_neg hearly, if_neg (by simp [hcopy]), if_neg (not_not.mpr hret)]
    have hk : s.heap.Kept u.heap (some s.heap.next :: u.owned) := by
      subst hu
      exact kept_withCopy (kept_withParam s buf len) data (startapParam g bw).length
    have hht : ∀ q ∈ u.htCap, q < s.heap.next := by
      subst hu
      intro q hq
      exact hheld q (List.mem_cons_of_mem _ (Option.mem_def.mp hq ▸ List.mem_cons_self))
    have hvht : ∀ q ∈ u.vhtCap, q < s.heap.next := by
      subst hu
      intro q hq
      exact hheld q (List.mem_cons_of_mem _ (List.mem_cons_of_mem _
        (Option.mem_def.mp hq ▸ List.mem_cons_self)))
    obtain ⟨lmacId, ifaceBitmap, hbind⟩ := u.lmacBindIface_frame e.respLmac
    have hfinish := startFinish_allOrNothing_iff (s := s) (u := u.lmacBindIface e.respLmac) (g := g)
      (e := e) (p := s.heap.next) (by rw [hbind]; exact hk) (by rw [hbind]; exact hht)
      (by rw [hbind]; exact hvht) (by rw [hbind, hu]; rfl) (by rw [hbind, hu]; rfl)
    rw [lmacBindIface_bound, hu] at hfinish
    rw [hu]
    refine hfinish.trans ?_
    constructor
    · exact fun h => ⟨hfit, hfits, h⟩
    · exact fun h => h.2.2

/-- An access point that was never started, with its copy of a probe response still empty. -/
def freshSap : SapIface where
  heap := .empty
  nrLmac := 2
  lmacId := 0
  ifaceBitmap := fun _ => false
  apStarted := false
  probeResp := some (.fill SKW_2K_SIZE 0)
  probeRespLen := 0
  acl := none
  htCap := none
  vhtCap := none
  rdParam := none
  rdSize := 0
  fw := none
  held := by
    intro p hp
    simp [owned] at hp

/-- An access point on channel 52 whose beacon has the octets `head` and `tail`. -/
def radarSettings (head tail : BitVec 8) : SapSettings where
  beacon := ⟨some ⟨[head], by simp⟩, some ⟨[tail], by simp⟩, none⟩
  beaconInterval := 100
  dtimPeriod := 2
  hiddenSsid := 0
  chan := 52
  width := some 0
  centerChn1 := 52
  centerChn2 := 0
  band := 1
  ssid := [65]
  ssid_le := by decide
  acl := none
  htCap := false
  vhtCap := false

/-- All goes well, and no radar steps are asked for. -/
def smoothStart : StartEnv := ⟨true, false, true, true, 0, 0, 0, 0, true, true, true⟩

/-- The driver was built without radar detection: the start fails, and the firmware runs the access
point. -/
theorem radar_start_leaves_ap_running :
    ¬ AllOrNothing freshSap.toSapSys (freshSap.startAp (radarSettings 0x80 0x2a)
      { smoothStart with dfsRequired := true, dfsInitRet := - ENOTSUPP }) := by
  have hend := startAp_end freshSap.toSapSys (radarSettings 0x80 0x2a)
    { smoothStart with dfsRequired := true, dfsInitRet := - ENOTSUPP }
  revert hend
  generalize freshSap.startAp (radarSettings 0x80 0x2a)
    { smoothStart with dfsRequired := true, dfsInitRet := - ENOTSUPP } = r
  intro hend h
  cases hend with
  | early _ _ hearly => exact absurd hearly (by decide)
  | probeOverflow => obtain ⟨_, _, h, -⟩ := h; cases h
  | noCopy _ _ _ _ hcopy => exact absurd hcopy (by decide)
  | copyOverflow => obtain ⟨_, _, h, -⟩ := h; cases h
  | refused _ _ _ _ _ _ _ _ hret => exact absurd rfl hret
  | accepted buf len bw data u _ _ _ _ _ _ hu =>
    have hfinish : ∀ u : SapSys, u.startFinish (radarSettings 0x80 0x2a)
        { smoothStart with dfsRequired := true, dfsInitRet := - ENOTSUPP } = (- ENOTSUPP, u) :=
      fun u => if_pos ⟨rfl, by decide⟩
    obtain ⟨_, _, hr, -, hnothing, -⟩ := h
    rw [hfinish] at hr
    cases hr
    have hret : - ENOTSUPP ≠ 0 := by decide
    have hfw := (hnothing hret).toStopped.fw
    rw [hu] at hfw
    cases hfw

end SapSys

end Skw
