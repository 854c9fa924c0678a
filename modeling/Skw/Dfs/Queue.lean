import Skw.Dfs.Conserve

/-! The pulse queues along every run, as long as the lists that `skw_dfs_init` and
`skw_dfs_chan_init` initialise are empty. -/
namespace Skw

namespace PriDetector

/-- What is promised of a queue: the number of its pulses, their order and the window. -/
structure QueueOk (pde : PriDetector) : Prop where
  count_eq : pde.count = pde.pulses.length
  sorted : pde.pulses.Pairwise fun p q => q.ts < p.ts
  window : ∀ newest ∈ pde.pulses.head?, ∀ p ∈ pde.pulses, newest.ts - p.ts ≤ pde.windowSize

/-- What holds of it on the way: the newest pulse is the last one. -/
structure Queued (pde : PriDetector) : Prop where
  count_eq : pde.count = pde.pulses.length
  sorted : pde.pulses.Pairwise fun p q => q.ts < p.ts
  newest : ∀ p ∈ pde.pulses.head?, p.ts = pde.lastTs

/-- And between the pulses: it is inside its window and below its limit. -/
structure Kept (pde : PriDetector) : Prop extends Queued pde where
  window : ∀ p ∈ pde.pulses, pde.lastTs ≤ p.ts + pde.windowSize
  below : pde.pulses ≠ [] → pde.count < pde.maxCount

def ListsEmpty (pde : PriDetector) : Prop := pde.sequences = [] ∧ pde.pulses = []

theorem listsInit_of_empty {pde : PriDetector} (h : pde.ListsEmpty) : pde.listsInit = pde := by
  obtain ⟨hs, hp⟩ := h
  rw [listsInit, ← hs, ← hp]

theorem Kept.queueOk {pde : PriDetector} (h : pde.Kept) : pde.QueueOk := by
  refine ⟨h.count_eq, h.sorted, fun newest hn p hp => ?_⟩
  have hnew := h.newest newest hn
  have hwin := h.window p hp
  omega

theorem kept_of_nil {pde : PriDetector} (hp : pde.pulses = []) (hc : pde.count = 0) :
    pde.Kept := by
  refine ⟨⟨?_, ?_, ?_⟩, ?_, ?_⟩
  · rw [hp, hc, List.length_nil]
  · rw [hp]
    exact List.Pairwise.nil
  · simp [hp]
  · simp [hp]
  · exact fun hne => absurd hp hne

end PriDetector

section
variable {pools : DfsPools} {pde : PriDetector}

/-- Without its tail. -/
def PriDetector.dropTail (pde : PriDetector) : PriDetector :=
  { pde with pulses := pde.pulses.dropLast, count := pde.count - 1 }

theorem dequeue_eq (h : pde.Queued) : (pulseQueueDequeue pools pde).2 = pde.dropTail := by
  unfold pulseQueueDequeue PriDetector.dropTail
  cases hl : pde.pulses.getLast? with
  | some p => rfl
  | none =>
    have hnil := List.getLast?_eq_none_iff.mp hl
    have hcount : pde.count - 1 = pde.count := by rw [h.count_eq, hnil, List.length_nil]
    have hdrop : pde.pulses.dropLast = pde.pulses := by rw [hnil, List.dropLast_nil]
    rw [hcount, hdrop]

theorem queued_dropTail (h : pde.Queued) : pde.dropTail.Queued := by
  refine ⟨?_, h.sorted.sublist (List.dropLast_sublist _), fun p hp => h.newest p ?_⟩
  · change pde.count - 1 = pde.pulses.dropLast.length
    rw [h.count_eq, List.length_dropLast]
  · have hp : p ∈ pde.pulses.dropLast.head? := hp
    cases hpulses : pde.pulses with
    | nil =>
      rw [hpulses] at hp
      cases hp
    | cons q older =>
      rw [hpulses] at hp
      cases older with
      | nil => cases hp
      | cons r older => exact hp

/-- The loop leaves the pulses that are in the window. -/
theorem checkWindowLoop_spec (pools : DfsPools) (minValidTs : ℕ) {fuel : ℕ} (h : pde.Queued)
    (hf : pde.pulses.length ≤ fuel) :
    let r := (checkWindowLoop minValidTs fuel pools pde).2
    r.Queued ∧ (∀ p ∈ r.pulses, minValidTs ≤ p.ts) ∧ r.count ≤ pde.count ∧
      r.lastTs = pde.lastTs ∧ r.windowSize = pde.windowSize ∧ r.maxCount = pde.maxCount := by
  induction fuel generalizing pools pde with
  | zero =>
    have hnil : pde.pulses = [] := List.length_eq_zero_iff.mp (by omega)
    refine ⟨h, ?_, le_rfl, rfl, rfl, rfl⟩
    rw [checkWindowLoop, hnil]
    simp
  | succ fuel ih =>
    rw [checkWindowLoop]
    cases hl : pde.pulses.getLast? with
    | none =>
      have hnil := List.getLast?_eq_none_iff.mp hl
      refine ⟨h, ?_, le_rfl, rfl, rfl, rfl⟩
      rw [hnil]
      simp
    | some last =>
      dsimp only
      split_ifs with hin
      · refine ⟨h, fun p hp => ?_, le_rfl, rfl, rfl, rfl⟩
        have hsplit := List.dropLast_append_getLast? last hl
        have hsorted := h.sorted
        rw [← hsplit] at hp hsorted
        rcases List.mem_append.mp hp with hp | hp
        · have := (List.pairwise_append.mp hsorted).2.2 p hp last (by simp)
          omega
        · rw [List.mem_singleton.mp hp]
          exact hin
      · have hlen : pde.dropTail.pulses.length ≤ fuel := by
          rw [PriDetector.dropTail, List.length_dropLast]
          omega
        rw [dequeue_eq h]
        obtain ⟨hq, hwin, hcount, hrest⟩ := ih (pulseQueueDequeue pools pde).1
          (queued_dropTail h) hlen
        exact ⟨hq, hwin, hcount.trans (Nat.sub_le ..), hrest⟩

theorem checkWindow_spec (pools : DfsPools) (h : pde.Queued) :
    let r := (pulseQueueCheckWindow pools pde).2
    r.Queued ∧ (∀ p ∈ r.pulses, r.lastTs ≤ p.ts + r.windowSize) ∧ r.count ≤ pde.count ∧
      r.lastTs = pde.lastTs ∧ r.maxCount = pde.maxCount := by
  unfold pulseQueueCheckWindow
  split_ifs with hcount hlast
  · refine ⟨h, fun p hp => ?_, le_rfl, rfl, rfl⟩
    -- a single pulse is the newest one
    have hlen : pde.pulses.length < 2 := h.count_eq ▸ hcount
    have hp : p ∈ pde.pulses.head? := by
      cases hpulses : pde.pulses with
      | nil =>
        rw [hpulses] at hp
        cases hp
      | cons q older =>
        rw [hpulses] at hp hlen
        obtain rfl : older = [] := by
          rw [List.length_cons] at hlen
          exact List.length_eq_zero_iff.mp (by omega)
        rw [List.mem_singleton.mp hp]
        rfl
    have := h.newest p hp
    dsimp only
    omega
  · exact ⟨h, fun p _ => by dsimp only; omega, le_rfl, rfl, rfl⟩
  · obtain ⟨hq, hmin, hle, hts, hsize, hmax⟩ :=
      checkWindowLoop_spec pools (pde.lastTs - pde.windowSize) h le_rfl
    refine ⟨hq, fun p hp => ?_, hle, hts, hmax⟩
    have := hmin p hp
    rw [hts, hsize]
    omega

theorem queued_push {p : PulseElem} (h : pde.Queued)
    (hts : ∀ q ∈ pde.pulses.head?, q.ts < p.ts) :
    ({ pde with pulses := p :: pde.pulses, count := pde.count + 1, lastTs := p.ts } :
      PriDetector).Queued := by
  refine ⟨?_, ?_, by simp⟩
  · rw [h.count_eq, List.length_cons]
  · refine List.pairwise_cons.mpr ⟨fun q hq => ?_, h.sorted⟩
    cases hpulses : pde.pulses with
    | nil =>
      rw [hpulses] at hq
      cases hq
    | cons newest older =>
      have hnewest := hts newest (by rw [hpulses]; rfl)
      have hsorted := h.sorted
      rw [hpulses] at hq hsorted
      rcases List.mem_cons.mp hq with rfl | hq
      · exact hnewest
      · exact (List.rel_of_pairwise_cons hsorted hq).trans hnewest

/-- What a step for a pulse leaves of a queue: the last timestamp of pulses that are left is not
after the pulse. -/
def KeptAt (ts : ℕ) (pde pde' : PriDetector) : Prop :=
  pde'.Kept ∧ (pde'.pulses ≠ [] → pde'.lastTs ≤ ts) ∧ pde'.maxCount = pde.maxCount

/-- A pulse that is newer than all in the queue joins it. -/
theorem kept_enqueue {k : Kmalloc} {ts : ℕ} (h : pde.Kept) (hmax : 2 ≤ pde.maxCount)
    (hts : pde.pulses ≠ [] → pde.lastTs < ts) :
    KeptAt ts pde (pulseQueueEnqueue k pools pde ts).2 := by
  unfold pulseQueueEnqueue
  rcases hg : pools.pulse.get k.pulse with ⟨_ | addr, pool⟩
  · exact ⟨h, fun hne => (hts hne).le, rfl⟩
  · have hhead : ∀ q ∈ pde.pulses.head?, q.ts < ts := by
      intro q hq
      rw [h.newest q hq]
      apply hts
      rintro hnil
      rw [hnil] at hq
      cases hq
    have hcount : pde.count + 1 ≤ pde.maxCount := by
      by_cases hne : pde.pulses = []
      · rw [h.count_eq, hne, List.length_nil]
        omega
      · exact h.below hne
    obtain ⟨hq, hwin, hle, hlast, hmax'⟩ := checkWindow_spec
      { pools with pulse := pool } (queued_push (p := ⟨addr, ts⟩) h.toQueued hhead)
    dsimp only at hle hlast hmax' ⊢
    generalize pulseQueueCheckWindow _ _ = w at *
    obtain ⟨pools', pde'⟩ := w
    dsimp only at *
    split_ifs with hfull
    · rw [dequeue_eq hq]
      refine ⟨⟨queued_dropTail hq, fun p hp => hwin p ?_, fun _ => ?_⟩, fun _ => hlast.le, hmax'⟩
      · exact List.mem_of_mem_dropLast hp
      · change pde'.count - 1 < pde'.maxCount
        omega
    · exact ⟨⟨hq, hwin, fun _ => Nat.lt_of_not_le hfull⟩, fun _ => hlast.le, hmax'⟩

theorem kept_reset (pools : DfsPools) (pde : PriDetector) (ts : ℕ) :
    KeptAt ts pde (priDetectorReset pools pde ts).2 :=
  ⟨PriDetector.kept_of_nil rfl rfl, fun _ => le_rfl, rfl⟩

theorem PriDetector.Kept.sequences (h : pde.Kept) (seqs : List PriSequence) :
    ({ pde with sequences := seqs } : PriDetector).Kept :=
  ⟨⟨h.count_eq, h.sorted, h.newest⟩, h.window, h.below⟩

/-- A pulse that is not before the last one is accepted by the tolerance only when it is newer. -/
theorem kept_cfgAddPulse {k : Kmalloc} {reset : Bool} {pulse : PulseInfo} {cfg : RadarCfg}
    (hfits : cfg.rule.Fits) (h : cfg.pri.Kept) (hmax : 2 ≤ cfg.pri.maxCount)
    (hlast : reset = false → cfg.pri.pulses ≠ [] → cfg.pri.lastTs ≤ pulse.ts) :
    KeptAt pulse.ts cfg.pri (cfgAddPulse k reset pulse pools cfg).2.1.pri ∧
      (cfgAddPulse k reset pulse pools cfg).2.1.rule = cfg.rule := by
  unfold cfgAddPulse
  dsimp only
  have hlt := pulse.ts_lt
  split_ifs with hr hwidth hchirp htol
  · exact ⟨kept_reset pools _ _, rfl⟩
  · exact ⟨⟨h, hlast (by simpa using hr), rfl⟩, rfl⟩
  · exact ⟨⟨h, hlast (by simpa using hr), rfl⟩, rfl⟩
  · exact ⟨⟨h, hlast (by simpa using hr), rfl⟩, rfl⟩
  · split
    · exact ⟨⟨h.sequences _, hlast (by simpa using hr), rfl⟩, rfl⟩
    · refine ⟨kept_enqueue (h.sequences _) hmax fun hne => ?_, rfl⟩
      have hle := hlast (by simpa using hr) hne
      have hpos : cfg.rule.maxPriTolerance = SKW_PRI_TOLERANCE := hfits.2.2.2.2.2.2
      rw [hpos, tsSub, SKW_PRI_TOLERANCE] at htol
      change cfg.pri.lastTs < pulse.ts
      omega
  · exact ⟨kept_reset pools _ _, rfl⟩

/-- What holds of the detectors of the region in use, after a pulse at `ts`. -/
def CfgInUse (ts : ℕ) (cfg : RadarCfg) : Prop :=
  2 ≤ cfg.pri.maxCount ∧ (cfg.pri.pulses ≠ [] → cfg.pri.lastTs ≤ ts)

/-- What holds of every detector. -/
def CfgKept (cfg : RadarCfg) : Prop := cfg.rule.Fits ∧ cfg.pri.Kept

theorem reset_of_radar {k : Kmalloc} {reset : Bool} {pulse : PulseInfo} {cfg : RadarCfg}
    (h : (cfgAddPulse k reset pulse pools cfg).2.2 = true) : reset = false := by
  cases reset with
  | false => rfl
  | true => cases h

theorem addPulseLoop_kept {k : Kmalloc} {reset : Bool} {pulse : PulseInfo} {lastPulseTs : ℕ}
    {cfgs : List RadarCfg} (hreset : reset = false → lastPulseTs ≤ pulse.ts)
    (h : ∀ cfg ∈ cfgs, CfgKept cfg ∧ CfgInUse lastPulseTs cfg) :
    ∀ cfg ∈ (addPulseLoop k reset pulse pools cfgs).2.1, CfgKept cfg ∧ CfgInUse pulse.ts cfg := by
  induction cfgs generalizing pools with
  | nil => simp [addPulseLoop]
  | cons cfg cfgs ih =>
    rw [List.forall_mem_cons] at h
    obtain ⟨⟨⟨hfits, hk⟩, hmax, hlast⟩, hrest⟩ := h
    obtain ⟨⟨hk', hlast', hmax'⟩, hrule⟩ := @kept_cfgAddPulse pools k _ _ _ hfits hk hmax
      fun hr hne => (hlast hne).trans (hreset hr)
    have hcfg : CfgKept (cfgAddPulse k reset pulse pools cfg).2.1 ∧
        CfgInUse pulse.ts (cfgAddPulse k reset pulse pools cfg).2.1 :=
      ⟨⟨hrule ▸ hfits, hk'⟩, hmax' ▸ hmax, hlast'⟩
    rw [addPulseLoop]
    dsimp only
    split_ifs with hradar
    · -- the detectors behind the one with the radar are as before
      refine List.forall_mem_cons.mpr ⟨hcfg, fun c hc => ?_⟩
      obtain ⟨hck, hcmax, hclast⟩ := hrest c hc
      exact ⟨hck, hcmax, fun hne => (hclast hne).trans (hreset (reset_of_radar hradar))⟩
    · exact List.forall_mem_cons.mpr ⟨hcfg, ih hrest⟩

theorem cleared_kept {ts : ℕ} {cfg : RadarCfg} (h : cfg.rule.Fits) : CfgKept (cfg.cleared ts) :=
  ⟨h, PriDetector.kept_of_nil rfl rfl⟩

end

/-- The invariant of the runs. -/
structure Dfs.Kept (k : Kmalloc) (s : Dfs) : Prop where
  kept : ∀ cfgs ∈ s.infos, ∀ cfg ∈ cfgs, CfgKept cfg
  inUse : ∀ cfg ∈ s.cfgs, CfgInUse s.lastPulseTs cfg
  balanced : s.Balanced k

section
variable {k : Kmalloc} {s t : Dfs}

namespace Dfs

/-- What a step initialises is empty. -/
def EmptyAt (s : Dfs) : DfsEvent → Prop
  | .init _ => ∀ cfgs ∈ s.infos, ∀ cfg ∈ cfgs, cfg.pri.ListsEmpty
  | .chanInit chandef =>
    s.fwEnabled = true → ¬(s.flags.Any ∧ s.chan ≠ chandef) →
      ∀ cfgs ∈ s.infos[s.region]?, ∀ cfg ∈ cfgs, cfg.pri.ListsEmpty
  | _ => True

theorem exists_mem_infos {cfg : RadarCfg} (h : cfg ∈ s.cfgs) : ∃ cfgs ∈ s.infos, cfg ∈ cfgs := by
  unfold cfgs at h
  cases hi : s.info.bind (s.infos[·]?) with
  | none =>
    rw [hi] at h
    cases h
  | some cfgs =>
    rw [hi] at h
    obtain ⟨i, -, hi⟩ := Option.bind_eq_some_iff.mp hi
    exact ⟨cfgs, List.mem_of_getElem? hi, h⟩

theorem Kept.congr (h : s.Kept k) (hinfos : t.infos = s.infos) (hinfo : t.info = s.info)
    (hlast : t.lastPulseTs = s.lastPulseTs) (hpools : t.pools = s.pools) : t.Kept k := by
  have hcfgs : t.cfgs = s.cfgs := by rw [cfgs, cfgs, hinfos, hinfo]
  refine ⟨hinfos ▸ h.kept, ?_, fun b => ?_⟩
  · rw [hcfgs, hlast]
    exact h.inUse
  · rw [hpools, addrs, hinfos]
    exact h.balanced b

theorem kept_start (region : ℕ) : (Dfs.start region).Kept k := by
  have hall : ∀ cfgs ∈ (Dfs.start region).infos, ∀ cfg ∈ cfgs,
      cfg.rule.Fits ∧ cfg.pri = ⟨0, 0, 0, 0, [], []⟩ := by
    intro cfgs hc cfg hcfg
    obtain ⟨rules, hr, rfl⟩ := List.mem_map.mp hc
    obtain ⟨rule, hrule, rfl⟩ := List.mem_map.mp hcfg
    exact ⟨fits_of_mem_rules rules hr rule hrule, rfl⟩
  refine ⟨fun cfgs hc cfg hcfg => ?_, fun cfg hcfg => (nomatch hcfg), fun b => ?_⟩
  · obtain ⟨hfits, hpri⟩ := hall cfgs hc cfg hcfg
    refine ⟨hfits, ?_⟩
    rw [hpri]
    exact PriDetector.kept_of_nil rfl rfl
  · have hnil : (Dfs.start region).addrs b = [] := by
      refine List.flatMap_eq_nil_iff.mpr fun cfgs hc =>
        List.flatMap_eq_nil_iff.mpr fun cfg hcfg => ?_
      rw [(hall cfgs hc cfg hcfg).2]
      cases b <;> rfl
    rw [hnil]
    cases b <;> exact Lib.Pool.Balanced.start

theorem kept_init (h : s.Kept k) {iface : IfaceId} (he : s.EmptyAt (.init iface)) :
    (s.init iface).Kept k := by
  refine h.congr ?_ rfl rfl rfl
  refine (List.map_congr_left fun cfgs hc => ?_).trans (List.map_id _)
  refine (List.map_congr_left fun cfg hcfg => ?_).trans (List.map_id _)
  rw [PriDetector.listsInit_of_empty (he cfgs hc cfg hcfg), id]

theorem kept_deinit (h : s.Kept k) (iface : IfaceId) : (s.deinit iface).Kept k := by
  have hcfgs := s.cfgs_deinit iface
  obtain ⟨f, g, hd⟩ := s.deinit_eq iface
  rw [hd] at hcfgs ⊢
  refine ⟨fun cfgs hc cfg hcfg => ?_, fun cfg hcfg => ?_, fun b => ?_⟩
  · obtain ⟨cfgs', hc', rfl⟩ := List.mem_map.mp hc
    obtain ⟨cfg', hcfg', rfl⟩ := List.mem_map.mp hcfg
    exact cleared_kept (h.kept cfgs' hc' cfg' hcfg').1
  · rw [hcfgs] at hcfg
    obtain ⟨cfg', hcfg', rfl⟩ := List.mem_map.mp hcfg
    exact ⟨(h.inUse cfg' hcfg').1, fun hne => absurd rfl hne⟩
  · have hb : (s.pools.of b).Balanced (k.of b) (s.infos.flatMap (cfgsAddrs · b) ++ []) :=
      (h.balanced b).perm (by rw [List.append_nil]; rfl)
    have := resetInfos_balanced 0 hb
    rwa [resetInfos_snd, List.append_nil] at this

theorem addrs_chanInit {cfg : RadarCfg} (b : DfsElem) : cfg.chanInit.pri.addrs b = [] := by
  cases b <;> rfl

theorem kept_chanInit (h : s.Kept k) {chandef : ChanDef} (he : s.EmptyAt (.chanInit chandef)) :
    (s.chanInit chandef).1.Kept k := by
  unfold chanInit
  split_ifs with hfw hbusy
  · exact h
  · split
    · exact h
    · next hregion => exact ⟨h.kept, by simp [cfgs, hregion], h.balanced⟩
    · next cfgs hne hregion =>
      have hmem := List.mem_of_getElem? hregion
      have hempty := he hfw hbusy cfgs hregion
      refine ⟨fun cfgs' hc cfg hcfg => ?_, fun cfg hcfg => ?_, fun b => ?_⟩
      · rcases List.mem_or_eq_of_mem_set hc with hc | rfl
        · exact h.kept cfgs' hc cfg hcfg
        · obtain ⟨c, hcc, rfl⟩ := List.mem_map.mp hcfg
          obtain ⟨hfits, hk⟩ := h.kept cfgs hmem c hcc
          refine ⟨hfits, PriDetector.kept_of_nil rfl ?_⟩
          change c.pri.count = 0
          rw [hk.count_eq, (hempty c hcc).2, List.length_nil]
      · have hlt := (List.getElem?_eq_some_iff.mp hregion).1
        have hcfgs : cfg ∈ cfgs.map RadarCfg.chanInit := by
          simpa [Dfs.cfgs, List.getElem?_set_self hlt] using hcfg
        obtain ⟨c, hcc, rfl⟩ := List.mem_map.mp hcfgs
        have hppb : 0 < c.rule.ppb := (h.kept cfgs hmem c hcc).1.2.2.2.1
        refine ⟨?_, fun hp => absurd rfl hp⟩
        change 2 ≤ c.rule.ppb * 2
        omega
      · refine balanced_set hregion ⟨fun b rest hb => ?_⟩ (h.balanced b)
        have hold : cfgsAddrs cfgs b = [] := List.flatMap_eq_nil_iff.mpr fun c hcc => by
          obtain ⟨hs, hp⟩ := hempty c hcc
          cases b with
          | pulse => exact congrArg (List.map _) hp
          | pseq => exact congrArg (List.map _) hs
        have hnew : cfgsAddrs (cfgs.map RadarCfg.chanInit) b = [] := by
          refine List.flatMap_eq_nil_iff.mpr fun c hcc => ?_
          obtain ⟨c, -, rfl⟩ := List.mem_map.mp hcc
          exact addrs_chanInit b
        rwa [hnew, ← hold]
  · exact h

/-- The region in use goes on. -/
theorem kept_set (h : s.Kept k) {i : ℕ} (hinfo : s.info = some i) {ts : ℕ} {pools : DfsPools}
    {cfgs : List RadarCfg} (hcons : CfgsConserve k s.pools s.cfgs pools cfgs)
    (hcfgs : ∀ cfg ∈ cfgs, CfgKept cfg ∧ CfgInUse ts cfg)
    (hnil : s.cfgs = [] → cfgs = [] ∧ pools = s.pools) :
    Kept k { s with lastPulseTs := ts, pools, infos := s.infos.set i cfgs } := by
  cases hi : s.infos[i]? with
  | none =>
    have hs : s.cfgs = [] := by rw [Dfs.cfgs, hinfo, Option.bind_some, hi, Option.getD_none]
    obtain ⟨rfl, rfl⟩ := hnil hs
    have hset : s.infos.set i [] = s.infos :=
      List.set_eq_of_length_le (List.getElem?_eq_none_iff.mp hi)
    rw [hset]
    refine ⟨h.kept, fun cfg hcfg => ?_, h.balanced⟩
    have hcfg : cfg ∈ s.cfgs := hcfg
    rw [hs] at hcfg
    cases hcfg
  | some old =>
    have hs : s.cfgs = old := by rw [Dfs.cfgs, hinfo, Option.bind_some, hi, Option.getD_some]
    have hlt := (List.getElem?_eq_some_iff.mp hi).1
    refine ⟨fun cfgs' hc cfg hcfg => ?_, fun cfg hcfg => ?_, fun b => ?_⟩
    · rcases List.mem_or_eq_of_mem_set hc with hc | rfl
      · exact h.kept cfgs' hc cfg hcfg
      · exact (hcfgs cfg hcfg).1
    · have hcfg : cfg ∈ cfgs := by
        simpa [Dfs.cfgs, hinfo, List.getElem?_set_self hlt] using hcfg
      exact (hcfgs cfg hcfg).2
    · exact balanced_set hi (hs ▸ hcons) (h.balanced b)

theorem kept_addPulse (h : s.Kept k) (iface : IfaceId) (pulse : PulseInfo) :
    (s.addPulse k iface pulse).1.Kept k := by
  unfold addPulse
  split_ifs with hflags
  · cases hinfo : s.info with
    | none => exact h
    | some i =>
      have hall : ∀ cfg ∈ s.cfgs, CfgKept cfg ∧ CfgInUse s.lastPulseTs cfg := by
        intro cfg hcfg
        obtain ⟨cfgs, hc, hcc⟩ := exists_mem_infos hcfg
        exact ⟨h.kept cfgs hc cfg hcc, h.inUse cfg hcfg⟩
      have hnext := kept_set h hinfo
        (addPulseLoop_conserve k (decide (pulse.ts < s.lastPulseTs)) pulse s.pools s.cfgs)
        (@addPulseLoop_kept s.pools k (decide (pulse.ts < s.lastPulseTs)) pulse s.lastPulseTs s.cfgs
          (by simp) hall)
        fun hs => by rw [hs]; exact ⟨rfl, rfl⟩
      rw [hinfo] at hnext
      dsimp only
      split_ifs
      · exact kept_deinit hnext iface
      · exact hnext
  · exact h

/-- Every step keeps the invariant that initialises empty lists only. -/
theorem kept_step {e : DfsEvent} (h : s.Kept k) (ht : s.step k e = some t) (he : s.EmptyAt e) :
    t.Kept k := by
  cases e with
  | init iface =>
    cases ht
    exact kept_init h he
  | deinit iface =>
    cases ht
    exact kept_deinit h iface
  | chanInit chandef =>
    cases ht
    exact kept_chanInit h he
  | addPulse iface pulse =>
    obtain ⟨_, -, rfl⟩ := Option.map_eq_some_iff.mp ht
    exact kept_addPulse h iface pulse
  | startCac iface sent =>
    cases ht
    unfold startCac
    split_ifs
    · exact h.congr rfl rfl rfl rfl
    · exact h
  | stopCac iface =>
    cases ht
    obtain ⟨f, g, hs⟩ := s.stopCac_eq iface
    rw [hs]
    exact h.congr rfl rfl rfl rfl
  | startMonitor iface sent =>
    cases ht
    unfold startMonitor
    split_ifs
    · exact h.congr rfl rfl rfl rfl
    · exact h
  | stopMonitor iface =>
    cases ht
    obtain ⟨f, g, hs⟩ := s.stopMonitor_eq iface
    rw [hs]
    exact h.congr rfl rfl rfl rfl
  | regdNotifier region =>
    cases ht
    exact h.congr rfl rfl rfl rfl
  | fwEnabled =>
    cases ht
    exact h.congr rfl rfl rfl rfl

/-- What is promised after a step: of every queue; of the limits after a pulse; and that no element
of either kind is lost. -/
structure QueuesOk (k : Kmalloc) (e : DfsEvent) (s : Dfs) : Prop where
  queues : ∀ cfgs ∈ s.infos, ∀ cfg ∈ cfgs, cfg.pri.QueueOk
  below : ∀ iface pulse, e = .addPulse iface pulse →
    ∀ cfg ∈ s.cfgs, cfg.pri.count < cfg.pri.maxCount
  balanced : s.Balanced k

theorem Kept.queuesOk (h : s.Kept k) (e : DfsEvent) : s.QueuesOk k e := by
  refine ⟨fun cfgs hc cfg hcfg => (h.kept cfgs hc cfg hcfg).2.queueOk, ?_, h.balanced⟩
  intro _ _ _ cfg hcfg
  obtain ⟨hmax, -⟩ := h.inUse cfg hcfg
  obtain ⟨cfgs, hc, hcfg⟩ := exists_mem_infos hcfg
  obtain ⟨-, hk⟩ := h.kept cfgs hc cfg hcfg
  by_cases hp : cfg.pri.pulses = []
  · rw [hk.count_eq, hp, List.length_nil]
    omega
  · exact hk.below hp

theorem listsEmpty_of_addrs {pde : PriDetector} (h : ∀ b, pde.addrs b = []) : pde.ListsEmpty :=
  ⟨List.map_eq_nil_iff.mp (h .pseq), List.map_eq_nil_iff.mp (h .pulse)⟩

/-- Where no element is lost, what was initialised was empty. -/
theorem emptyAt_of_queuesOk {e : DfsEvent} (h : s.Kept k) (ht : s.step k e = some t)
    (hok : t.QueuesOk k e) : s.EmptyAt e := by
  cases e with
  | init iface =>
    cases ht
    have hnil (b : DfsElem) : (s.init iface).addrs b = [] := by
      refine List.flatMap_eq_nil_iff.mpr fun cfgs hc =>
        List.flatMap_eq_nil_iff.mpr fun cfg hcfg => ?_
      obtain ⟨cfgs, -, rfl⟩ := List.mem_map.mp hc
      obtain ⟨cfg, -, rfl⟩ := List.mem_map.mp hcfg
      cases b <;> rfl
    have hs (b : DfsElem) : s.addrs b = [] := by
      have := (h.balanced b).unique (hok.balanced b)
      rw [hnil] at this
      exact this.eq_nil
    intro cfgs hc cfg hcfg
    apply listsEmpty_of_addrs
    intro b
    exact List.flatMap_eq_nil_iff.mp (List.flatMap_eq_nil_iff.mp (hs b) cfgs hc) cfg hcfg
  | chanInit chandef =>
    cases ht
    intro hfw hbusy cfgs hregion cfg hcfg
    apply listsEmpty_of_addrs
    intro b
    have hregion : s.infos[s.region]? = some cfgs := hregion
    have hinit : (s.chanInit chandef).1.infos = s.infos.set s.region (cfgs.map RadarCfg.chanInit) ∧
        (s.chanInit chandef).1.pools = s.pools := by
      cases cfgs with
      | nil => cases hcfg
      | cons c cfgs =>
        rw [chanInit, if_neg (by simpa using hfw), if_neg hbusy, hregion]
        exact ⟨rfl, rfl⟩
    obtain ⟨hlt, rfl⟩ := List.getElem?_eq_some_iff.mp hregion
    obtain ⟨l₁, l₂, hl, -, hset⟩ :=
      @List.exists_of_set _ _ (s.infos[s.region].map RadarCfg.chanInit) _ hlt
    have hold := h.balanced b
    have hnew := hok.balanced b
    rw [hinit.2, addrs, hinit.1, hset, List.flatMap_append, List.flatMap_cons] at hnew
    rw [addrs, hl, List.flatMap_append, List.flatMap_cons] at hold
    have hlen := (hold.unique hnew).length_eq
    have hcleared : cfgsAddrs (s.infos[s.region].map RadarCfg.chanInit) b = [] := by
      refine List.flatMap_eq_nil_iff.mpr fun c hcc => ?_
      obtain ⟨c, -, rfl⟩ := List.mem_map.mp hcc
      exact addrs_chanInit b
    rw [hcleared] at hlen
    simp only [List.length_append, List.length_nil] at hlen
    have hzero : cfgsAddrs s.infos[s.region] b = [] := List.length_eq_zero_iff.mp (by omega)
    exact List.flatMap_eq_nil_iff.mp hzero cfg hcfg
  | _ => trivial

/-- The queues are as promised along a run exactly when it initialises empty lists only. -/
theorem along_queuesOk_iff (k : Kmalloc) (region : ℕ) (es : List DfsEvent) :
    Lib.Along (step k) (fun _ e t => t.QueuesOk k e) (start region) es ↔
      Lib.Along (step k) (fun s e _ => s.EmptyAt e) (start region) es := by
  refine Lib.along_iff (I := Kept k) ?_ ?_ (kept_start region) es
  · exact fun s e t h ht he => kept_step h ht he
  · exact fun s e t h ht =>
      ⟨emptyAt_of_queuesOk h ht, fun he => (kept_step h ht he).queuesOk e⟩

end Dfs
end

/-- The region is that of the FCC. A pulse comes while the channel is checked, and then the access
point starts on it. -/
def secondChanInit : List DfsEvent :=
  [.fwEnabled, .init 0, .chanInit ⟨1, 0⟩, .startCac 0 true, .addPulse 0 ⟨100, 1, false, by decide⟩,
    .stopCac 0, .chanInit ⟨1, 0⟩]

/-- The pulse is counted by a detector whose list is empty. -/
theorem secondChanInit_count :
    ∃ s, Lib.exec (Dfs.step .always) (Dfs.start 1) secondChanInit = some s ∧
      ∃ cfgs ∈ s.infos, ∃ cfg ∈ cfgs, cfg.pri.pulses = [] ∧ cfg.pri.count = 1 := by
  have hrun : (Lib.exec (Dfs.step .always) (Dfs.start 1) secondChanInit).any (fun s =>
      decide (∃ cfgs ∈ s.infos, ∃ cfg ∈ cfgs, cfg.pri.pulses = [] ∧ cfg.pri.count = 1)) = true := by
    decide +kernel
  obtain ⟨s, hs, h⟩ := Option.any_eq_true .. |>.mp hrun
  exact ⟨s, hs, of_decide_eq_true h⟩

end Skw
