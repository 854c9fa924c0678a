import Skw.Dfs.Radar
import Skw.Kernel.Types
import Skw.Lib.Machine

/-! The state of `skw->dfs` with the detectors of all regions, and the functions that the cfg80211
callbacks, the events of the firmware and the interfaces call on it. -/
namespace Skw

/-- `SKW_DFS_FLAG_CAC_MODE` and `SKW_DFS_FLAG_MONITOR_MODE`. -/
structure DfsFlags where
  cac : Bool
  monitor : Bool
deriving DecidableEq

def DfsFlags.Any (f : DfsFlags) : Prop := f.cac ∨ f.monitor

instance DfsFlags.decidableAny : DecidablePred DfsFlags.Any := fun f => by
  unfold DfsFlags.Any; infer_instance

structure ChanDef where
  chan : Ptr
  width : ℕ
deriving DecidableEq

/-- `skw->dfs`, `sap.dfs.flags` of every interface, and the tables of `skw_radar_infos`; `info` is
the index of one of them. -/
structure Dfs where
  fwEnabled : Bool
  region : ℕ
  flags : DfsFlags
  ifaceFlags : IfaceId → DfsFlags
  chan : ChanDef
  info : Option ℕ
  lastPulseTs : ℕ
  pools : DfsPools
  infos : List (List RadarCfg)

/-- The detectors before anything is initialised. -/
def Dfs.start (region : ℕ) : Dfs where
  fwEnabled := false
  region := region
  flags := ⟨false, false⟩
  ifaceFlags _ := ⟨false, false⟩
  chan := ⟨0, 0⟩
  info := none
  lastPulseTs := 0
  pools := ⟨⟨[], 0⟩, ⟨[], 0⟩⟩
  infos := skwRadarRules.map fun rules => rules.map fun rule => ⟨rule, 0, 0, 0, 0, [], []⟩

/-- The detectors of the region in use. -/
def Dfs.cfgs (s : Dfs) : List RadarCfg := (s.info.bind (s.infos[·]?)).getD []

/-- The lists of a detector become empty. -/
def PriDetector.listsInit (pde : PriDetector) : PriDetector :=
  { pde with sequences := [], pulses := [] }

/-- What `skw_dfs_chan_init` does to a detector. -/
def RadarCfg.chanInit (cfg : RadarCfg) : RadarCfg :=
  { cfg with
    pri := { cfg.pri.listsInit with
      windowSize := cfg.rule.priMax * cfg.rule.ppb * cfg.rule.nrPri
      maxCount := cfg.rule.ppb * 2 } }

/-- `pri_detector_reset` for one detector after the other. -/
def resetCfgs (ts : ℕ) : DfsPools → List RadarCfg → DfsPools × List RadarCfg
  | pools, [] => (pools, [])
  | pools, cfg :: cfgs =>
    let (pools, pri) := priDetectorReset pools cfg.pri ts
    let (pools, cfgs) := resetCfgs ts pools cfgs
    (pools, { cfg with pri } :: cfgs)

/-- The same for one region after the other. -/
def resetInfos (ts : ℕ) : DfsPools → List (List RadarCfg) → DfsPools × List (List RadarCfg)
  | pools, [] => (pools, [])
  | pools, cfgs :: infos =>
    let (pools, cfgs) := resetCfgs ts pools cfgs
    let (pools, infos) := resetInfos ts pools infos
    (pools, cfgs :: infos)

/-- A detector after a reset. -/
def RadarCfg.cleared (ts : ℕ) (cfg : RadarCfg) : RadarCfg :=
  { cfg with pri := { cfg.pri with sequences := [], pulses := [], count := 0, lastTs := ts } }

theorem resetCfgs_snd (ts : ℕ) (pools : DfsPools) (cfgs : List RadarCfg) :
    (resetCfgs ts pools cfgs).2 = cfgs.map (RadarCfg.cleared ts) := by
  induction cfgs generalizing pools with
  | nil => rfl
  | cons cfg cfgs ih =>
    rw [List.map_cons, ← ih (priDetectorReset pools cfg.pri ts).1]
    rfl

theorem resetInfos_snd (ts : ℕ) (pools : DfsPools) (infos : List (List RadarCfg)) :
    (resetInfos ts pools infos).2 = infos.map (List.map (RadarCfg.cleared ts)) := by
  induction infos generalizing pools with
  | nil => rfl
  | cons cfgs infos ih =>
    rw [List.map_cons, ← ih (resetCfgs ts pools cfgs).1, ← resetCfgs_snd ts pools]
    rfl

/-- The loop of `skw_dfs_add_pulse`, which a radar ends. -/
def addPulseLoop (k : Kmalloc) (reset : Bool) (pulse : PulseInfo) :
    DfsPools → List RadarCfg → DfsPools × List RadarCfg × Bool
  | pools, [] => (pools, [], false)
  | pools, cfg :: cfgs =>
    let (pools, cfg, radar) := cfgAddPulse k reset pulse pools cfg
    if radar then (pools, cfg :: cfgs, true)
    else
      let (pools, cfgs, radar) := addPulseLoop k reset pulse pools cfgs
      (pools, cfg :: cfgs, radar)

theorem rule_cfgAddPulse (k : Kmalloc) (reset : Bool) (pulse : PulseInfo) (pools : DfsPools)
    (cfg : RadarCfg) : (cfgAddPulse k reset pulse pools cfg).2.1.rule = cfg.rule := by
  unfold cfgAddPulse
  dsimp only
  split_ifs
  · rfl
  · rfl
  · rfl
  · rfl
  · split <;> rfl
  · rfl

theorem map_rule_addPulseLoop (k : Kmalloc) (reset : Bool) (pulse : PulseInfo) (pools : DfsPools)
    (cfgs : List RadarCfg) :
    (addPulseLoop k reset pulse pools cfgs).2.1.map (·.rule) = cfgs.map (·.rule) := by
  induction cfgs generalizing pools with
  | nil => rfl
  | cons cfg cfgs ih =>
    have hrule := rule_cfgAddPulse k reset pulse pools cfg
    rw [addPulseLoop]
    dsimp only
    split_ifs
    · rw [List.map_cons, List.map_cons, hrule]
    · rw [List.map_cons, List.map_cons, hrule, ih]

namespace Dfs

/-- `skw_dfs_start_cac`, where `sent` is whether the message to the firmware succeeds. -/
def startCac (s : Dfs) (iface : IfaceId) (sent : Bool) : Dfs :=
  if s.fwEnabled = true ∧ sent = true then
    { s with
      flags := { s.flags with cac := true }
      ifaceFlags := Function.update s.ifaceFlags iface
        { s.ifaceFlags iface with cac := true } }
  else s

def stopCac (s : Dfs) (iface : IfaceId) : Dfs :=
  if s.fwEnabled then
    { s with
      flags := { s.flags with cac := false }
      ifaceFlags := Function.update s.ifaceFlags iface
        { s.ifaceFlags iface with cac := false } }
  else s

def startMonitor (s : Dfs) (iface : IfaceId) (sent : Bool) : Dfs :=
  if s.fwEnabled = true ∧ sent = true then
    { s with
      flags := { s.flags with monitor := true }
      ifaceFlags := Function.update s.ifaceFlags iface
        { s.ifaceFlags iface with monitor := true } }
  else s

def stopMonitor (s : Dfs) (iface : IfaceId) : Dfs :=
  if s.fwEnabled then
    { s with
      flags := { s.flags with monitor := false }
      ifaceFlags := Function.update s.ifaceFlags iface
        { s.ifaceFlags iface with monitor := false } }
  else s

/-- `skw_dfs_init`. -/
def init (s : Dfs) (iface : IfaceId) : Dfs :=
  { s with
    ifaceFlags := Function.update s.ifaceFlags iface ⟨false, false⟩
    infos := s.infos.map fun cfgs => cfgs.map fun cfg => { cfg with pri := cfg.pri.listsInit } }

/-- What `skw_dfs_deinit` stops. -/
def stopRadar (s : Dfs) (iface : IfaceId) : Dfs :=
  let s := if (s.ifaceFlags iface).cac then s.stopCac iface else s
  if (s.ifaceFlags iface).monitor then s.stopMonitor iface else s

/-- `skw_dfs_deinit`. -/
def deinit (s : Dfs) (iface : IfaceId) : Dfs :=
  let s := s.stopRadar iface
  let (pools, infos) := resetInfos 0 s.pools s.infos
  { s with pools, infos }

section
variable (s : Dfs) (iface : IfaceId)

theorem stopCac_eq : ∃ f g, s.stopCac iface = { s with flags := f, ifaceFlags := g } := by
  unfold stopCac
  split_ifs
  · exact ⟨_, _, rfl⟩
  · exact ⟨_, _, rfl⟩

theorem stopMonitor_eq : ∃ f g, s.stopMonitor iface = { s with flags := f, ifaceFlags := g } := by
  unfold stopMonitor
  split_ifs
  · exact ⟨_, _, rfl⟩
  · exact ⟨_, _, rfl⟩

/-- Only flags change where something is stopped. -/
theorem stopRadar_eq : ∃ f g, s.stopRadar iface = { s with flags := f, ifaceFlags := g } := by
  obtain ⟨f, g, hcac⟩ : ∃ f g, (if (s.ifaceFlags iface).cac then s.stopCac iface else s) =
      { s with flags := f, ifaceFlags := g } := by
    split_ifs
    · exact stopCac_eq s iface
    · exact ⟨_, _, rfl⟩
  unfold stopRadar
  rw [hcac]
  dsimp only
  split_ifs
  · obtain ⟨f', g', h⟩ := stopMonitor_eq { s with flags := f, ifaceFlags := g } iface
    exact ⟨f', g', h⟩
  · exact ⟨f, g, rfl⟩

/-- What is stopped does not depend on the detectors. -/
theorem deinit_with (last : ℕ) (pools : DfsPools) (infos : List (List RadarCfg)) :
    ({ s with lastPulseTs := last, pools, infos } : Dfs).deinit iface =
      { s.stopRadar iface with
        lastPulseTs := last
        pools := (resetInfos 0 pools infos).1
        infos := infos.map (List.map (RadarCfg.cleared 0)) } := by
  have hstop : ({ s with lastPulseTs := last, pools, infos } : Dfs).stopRadar iface =
      { s.stopRadar iface with lastPulseTs := last, pools, infos } := by
    unfold stopRadar stopCac stopMonitor
    dsimp only
    split_ifs <;> rfl
  rw [← resetInfos_snd 0 pools, deinit, hstop]

/-- And the detectors are reset. -/
theorem deinit_eq : ∃ f g, s.deinit iface =
    { s with
      flags := f
      ifaceFlags := g
      pools := (resetInfos 0 s.pools s.infos).1
      infos := s.infos.map (List.map (RadarCfg.cleared 0)) } := by
  obtain ⟨f, g, h⟩ := stopRadar_eq s iface
  refine ⟨f, g, ?_⟩
  rw [← resetInfos_snd 0 s.pools, deinit, h]

theorem cfgs_deinit : (s.deinit iface).cfgs = s.cfgs.map (RadarCfg.cleared 0) := by
  obtain ⟨f, g, h⟩ := deinit_eq s iface
  rw [h, cfgs, cfgs]
  cases s.info with
  | none => rfl
  | some i =>
    simp only [Option.bind_some, List.getElem?_map]
    cases s.infos[i]? <;> rfl

end

/-- `skw_dfs_chan_init`. -/
def chanInit (s : Dfs) (chandef : ChanDef) : Dfs × ℤ :=
  if ¬s.fwEnabled then (s, -ENOTSUPP)
  else if s.flags.Any ∧ s.chan ≠ chandef then (s, -EBUSY)
  else
    match s.infos[s.region]? with
    | none => (s, -EINVAL)
    | some [] => ({ s with info := some s.region }, -EINVAL)
    | some cfgs =>
      ({ s with
          info := some s.region
          lastPulseTs := 0
          chan := chandef
          infos := s.infos.set s.region (cfgs.map RadarCfg.chanInit) }, 0)

/-- `skw_dfs_add_pulse`, and whether a radar is reported. -/
def addPulse (k : Kmalloc) (s : Dfs) (iface : IfaceId) (pulse : PulseInfo) : Dfs × Bool :=
  if ¬(s.ifaceFlags iface).Any then (s, false)
  else
    match s.info with
    | none => (s, false)
    | some i =>
      let (pools, cfgs, radar) :=
        addPulseLoop k (decide (pulse.ts < s.lastPulseTs)) pulse s.pools s.cfgs
      let s := { s with lastPulseTs := pulse.ts, pools, infos := s.infos.set i cfgs }
      (if radar then s.deinit iface else s, radar)

/-- What a pulse does that is looked at. -/
theorem addPulse_of_any {k : Kmalloc} {s : Dfs} {iface : IfaceId} {pulse : PulseInfo} {i : ℕ}
    (hinfo : s.info = some i) (hflags : (s.ifaceFlags iface).Any) :
    s.addPulse k iface pulse =
      let r := addPulseLoop k (decide (pulse.ts < s.lastPulseTs)) pulse s.pools s.cfgs
      let t := { s with lastPulseTs := pulse.ts, pools := r.1, infos := s.infos.set i r.2.1 }
      (if r.2.2 then t.deinit iface else t, r.2.2) := by
  rw [addPulse, if_neg (not_not.mpr hflags), hinfo]

end Dfs

/-- Calls of the functions above, and what sets `region` and `fw_enabled`. -/
inductive DfsEvent
  | init (iface : IfaceId)
  | deinit (iface : IfaceId)
  | chanInit (chandef : ChanDef)
  | addPulse (iface : IfaceId) (pulse : PulseInfo)
  | startCac (iface : IfaceId) (sent : Bool)
  | stopCac (iface : IfaceId)
  | startMonitor (iface : IfaceId) (sent : Bool)
  | stopMonitor (iface : IfaceId)
  | regdNotifier (region : ℕ)
  | fwEnabled
deriving DecidableEq

/-- Pulses are only reported after a channel is initialised. -/
def Dfs.step (k : Kmalloc) (s : Dfs) : DfsEvent → Option Dfs
  | .init iface => some (s.init iface)
  | .deinit iface => some (s.deinit iface)
  | .chanInit chandef => some (s.chanInit chandef).1
  | .addPulse iface pulse => s.info.map fun _ => (s.addPulse k iface pulse).1
  | .startCac iface sent => some (s.startCac iface sent)
  | .stopCac iface => some (s.stopCac iface)
  | .startMonitor iface sent => some (s.startMonitor iface sent)
  | .stopMonitor iface => some (s.stopMonitor iface)
  | .regdNotifier region => some { s with region }
  | .fwEnabled => some { s with fwEnabled := true }

end Skw
