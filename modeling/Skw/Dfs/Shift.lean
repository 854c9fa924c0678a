import Skw.Dfs.Channel
import Skw.Lib.Machine

/-! Radar detection and a shift of time. Two runs whose pulses differ by the same time give the same
verdicts as long as no border of time is below zero, or above 64 bits, in one of them only. -/
namespace Skw

variable (c : ℕ)

def PulseElem.shift (p : PulseElem) : PulseElem := { p with ts := p.ts + c }

def PriSequence.shift (ps : PriSequence) : PriSequence :=
  { ps with
    firstTs := ps.firstTs + c
    lastTs := ps.lastTs + c
    deadlineTs := ps.deadlineTs + c }

/-- A sequence that has no deadline yet. -/
def PriSequence.shiftOpen (ps : PriSequence) : PriSequence :=
  { ps with firstTs := ps.firstTs + c, lastTs := ps.lastTs + c }

/-- The same pulse later, where its timestamp does not overflow. -/
def PulseInfo.shift (p : PulseInfo) : PulseInfo :=
  { p with ts := (p.ts + c) % 2 ^ 64, ts_lt := Nat.mod_lt _ (by decide) }

section
variable (ps : PriSequence) (p : PulseElem)

@[simp] theorem addr_shift_pulse : (p.shift c).addr = p.addr := rfl
@[simp] theorem ts_shift_pulse : (p.shift c).ts = p.ts + c := rfl

@[simp] theorem addr_shift : (ps.shift c).addr = ps.addr := rfl
@[simp] theorem pri_shift : (ps.shift c).pri = ps.pri := rfl
@[simp] theorem count_shift : (ps.shift c).count = ps.count := rfl
@[simp] theorem countFalses_shift : (ps.shift c).countFalses = ps.countFalses := rfl
@[simp] theorem lastTs_shift : (ps.shift c).lastTs = ps.lastTs + c := rfl
@[simp] theorem deadlineTs_shift : (ps.shift c).deadlineTs = ps.deadlineTs + c := rfl

@[simp] theorem pri_shiftOpen : (ps.shiftOpen c).pri = ps.pri := rfl
@[simp] theorem dur_shiftOpen : (ps.shiftOpen c).dur = ps.dur := rfl
@[simp] theorem count_shiftOpen : (ps.shiftOpen c).count = ps.count := rfl
@[simp] theorem firstTs_shiftOpen : (ps.shiftOpen c).firstTs = ps.firstTs + c := rfl
@[simp] theorem lastTs_shiftOpen : (ps.shiftOpen c).lastTs = ps.lastTs + c := rfl

end

section
variable {c} {rule : RadarRule} {ts : ℕ} {p : PulseElem} {older : List PulseElem}

theorem tsSub_shift (a b : ℕ) : tsSub (a + c) (b + c) = tsSub a b := by
  rw [tsSub, tsSub, Nat.add_right_comm, Nat.add_sub_add_right]

/-- A border of time, where it is below zero for both timestamps or for none. -/
theorem tsSub_border {d : ℕ} (hts : ts + c < 2 ^ 64) (hd : d < 2 ^ 64)
    (h : ts < d ↔ ts + c < d) : tsSub (ts + c) d = tsSub ts d + c := by
  unfold tsSub
  by_cases hlt : ts < d
  · have := h.mp hlt
    rw [Nat.mod_eq_of_lt (by omega), Nat.mod_eq_of_lt (by omega)]
    omega
  · have : ¬ts + c < d := fun h' => hlt (h.mpr h')
    omega

/-- A deadline, where it fits in both runs or in none. -/
theorem tsAdd_deadline {d : ℕ} (hts : ts + c < 2 ^ 64) (hd : d < 2 ^ 64)
    (h : ts + d < 2 ^ 64 ↔ ts + c + d < 2 ^ 64) : tsAdd (ts + c) d = tsAdd ts d + c := by
  unfold tsAdd
  by_cases hlt : ts + d < 2 ^ 64
  · have := h.mp hlt
    rw [Nat.mod_eq_of_lt hlt, Nat.mod_eq_of_lt this]
    omega
  · have : ¬ts + c + d < 2 ^ 64 := fun h' => hlt (h.mpr h')
    omega

theorem pairSequence_shift :
    pairSequence rule (ts + c) (p.shift c) = (pairSequence rule ts p).shiftOpen c := by
  unfold pairSequence PriSequence.shiftOpen PulseElem.shift
  simp only [tsSub_shift]

theorem extendSequence_shift (minValidTs : ℕ) (ps : PriSequence) (falses : ℕ) :
    extendSequence rule (minValidTs + c) (ps.shiftOpen c) falses (older.map (PulseElem.shift c)) =
      (extendSequence rule minValidTs ps falses older).shiftOpen c := by
  induction older generalizing ps falses with
  | nil => rfl
  | cons p older ih =>
    rw [List.map_cons, extendSequence, extendSequence]
    simp only [ts_shift_pulse, lastTs_shiftOpen, pri_shiftOpen, tsSub_shift,
      Nat.add_lt_add_iff_right]
    split_ifs
    · rfl
    · exact ih { ps with
        count := ps.count + 1, firstTs := p.ts, countFalses := ps.countFalses + falses } 0
    · exact ih _ _

theorem dur_extendSequence (minValidTs : ℕ) (ps : PriSequence) (falses : ℕ) :
    (extendSequence rule minValidTs ps falses older).dur = ps.dur := by
  induction older generalizing ps falses with
  | nil => rfl
  | cons p older ih =>
    rw [extendSequence]
    split_ifs
    · rfl
    · exact ih _ _
    · exact ih _ _

/-- The first pulse of a sequence is one of the queue. -/
theorem firstTs_extendSequence {P : ℕ → Prop} (minValidTs : ℕ) {ps : PriSequence} (falses : ℕ)
    (hps : P ps.firstTs) (h : ∀ q ∈ older, P q.ts) :
    P (extendSequence rule minValidTs ps falses older).firstTs := by
  induction older generalizing ps falses with
  | nil => exact hps
  | cons p older ih =>
    obtain ⟨hp, h⟩ := List.forall_mem_cons.mp h
    rw [extendSequence]
    split_ifs
    · exact hps
    · exact ih 0 hp h
    · exact ih _ hps h

theorem dur_lt : (pairSequence rule ts p).dur < 2 ^ 64 := by
  have : (pairSequence rule ts p).dur < 2 ^ 32 := Nat.mod_lt _ (by decide)
  omega

theorem buildSequence_shift (hts : ts + c < 2 ^ 64)
    (h : older ≠ [] → (ts < (buildSequence rule ts p older).dur ↔
      ts + c < (buildSequence rule ts p older).dur)) :
    buildSequence rule (ts + c) (p.shift c) (older.map (PulseElem.shift c)) =
      (buildSequence rule ts p older).shiftOpen c := by
  unfold buildSequence at h ⊢
  dsimp only at h ⊢
  rw [dur_extendSequence] at h
  rw [pairSequence_shift, dur_shiftOpen]
  by_cases holder : older = []
  · subst holder
    rfl
  · rw [tsSub_border hts dur_lt (h holder)]
    exact extendSequence_shift _ _ _

theorem addToExistingSeqs_shift (pools : DfsPools) (maxCount : ℕ) (seqs : List PriSequence) :
    addToExistingSeqs rule (ts + c) pools maxCount (seqs.map (PriSequence.shift c)) =
      ((addToExistingSeqs rule ts pools maxCount seqs).1,
        (addToExistingSeqs rule ts pools maxCount seqs).2.1.map (PriSequence.shift c),
        (addToExistingSeqs rule ts pools maxCount seqs).2.2) := by
  induction seqs generalizing pools maxCount with
  | nil => rfl
  | cons ps seqs ih =>
    rw [List.map_cons, addToExistingSeqs, addToExistingSeqs]
    simp only [deadlineTs_shift, lastTs_shift, pri_shift, count_shift, countFalses_shift,
      tsSub_shift, Nat.add_lt_add_iff_right]
    split_ifs
    · exact ih (pools.putPseq ps) maxCount
    · rw [ih]
      rfl
    · rw [ih]
      rfl

/-- No border of a sequence that is built for a pulse is out of the timestamps' range in one of the
runs only: neither where its window begins, if there are older pulses to compare with, nor its
deadline, if it is kept. -/
def SameSide (c : ℕ) (rule : RadarRule) (ts minCount : ℕ) : List PulseElem → Prop
  | [] => True
  | p :: older =>
    let deltaTs := u32 (tsSub ts p.ts)
    let ps := buildSequence rule ts p older
    (rule.priMin ≤ deltaTs → deltaTs ≤ rule.priMax →
      (older ≠ [] → (ts < ps.dur ↔ ts + c < ps.dur)) ∧
      (minCount < ps.count →
        (ps.firstTs + ps.dur < 2 ^ 64 ↔ ps.firstTs + c + ps.dur < 2 ^ 64))) ∧
    (deltaTs < rule.priMin ∨ deltaTs ≤ rule.priMax → SameSide c rule ts minCount older)

instance decidableSameSide (c : ℕ) (rule : RadarRule) (ts minCount : ℕ) :
    ∀ pulses, Decidable (SameSide c rule ts minCount pulses)
  | [] => isTrue trivial
  | _ :: older =>
    have := decidableSameSide c rule ts minCount older
    inferInstanceAs (Decidable (_ ∧ _))

theorem createSequences_shift {k : Kmalloc} {minCount : ℕ} {pulses : List PulseElem}
    (hts : ts + c < 2 ^ 64) (hp : ∀ p ∈ pulses, p.ts + c < 2 ^ 64)
    (h : SameSide c rule ts minCount pulses) (pools : DfsPools) (seqs : List PriSequence) :
    createSequences k rule (ts + c) minCount pools (seqs.map (PriSequence.shift c))
        (pulses.map (PulseElem.shift c)) =
      ((createSequences k rule ts minCount pools seqs pulses).1,
        (createSequences k rule ts minCount pools seqs pulses).2.1.map (PriSequence.shift c),
        (createSequences k rule ts minCount pools seqs pulses).2.2) := by
  induction pulses generalizing pools seqs with
  | nil => rfl
  | cons p older ih =>
    obtain ⟨hpts, hp⟩ := List.forall_mem_cons.mp hp
    obtain ⟨hborder, hrest⟩ := h
    rw [List.map_cons, createSequences, createSequences]
    simp only [ts_shift_pulse, tsSub_shift]
    by_cases hmin : u32 (tsSub ts p.ts) < rule.priMin
    · rw [if_pos hmin, if_pos hmin]
      exact ih hp (hrest (.inl hmin)) pools seqs
    rw [if_neg hmin, if_neg hmin]
    by_cases hmax : rule.priMax < u32 (tsSub ts p.ts)
    · rw [if_pos hmax, if_pos hmax]
    have ih := ih hp (hrest (.inr (by omega)))
    obtain ⟨hwindow, hdeadline⟩ := hborder (by omega) (by omega)
    rw [if_neg hmax, if_neg hmax, buildSequence_shift hts hwindow, count_shiftOpen]
    by_cases hcount : (buildSequence rule ts p older).count ≤ minCount
    · rw [if_pos hcount, if_pos hcount]
      exact ih pools seqs
    rw [if_neg hcount, if_neg hcount]
    rcases pools.pseq.get k.pseq with ⟨_ | addr, pool⟩
    · rfl
    · have hfirst : (buildSequence rule ts p older).firstTs + c < 2 ^ 64 :=
        @firstTs_extendSequence rule older (fun first => first + c < 2 ^ 64) _
          (pairSequence rule ts p) 0 hpts hp
      have hdur : (buildSequence rule ts p older).dur < 2 ^ 64 := by
        unfold buildSequence
        rw [dur_extendSequence]
        exact dur_lt
      have hadd := tsAdd_deadline hfirst hdur (hdeadline (by omega))
      dsimp only
      rw [firstTs_shiftOpen, dur_shiftOpen, hadd]
      exact ih { pools with pseq := pool } ({ buildSequence rule ts p older with
        addr, deadlineTs := tsAdd (buildSequence rule ts p older).firstTs
          (buildSequence rule ts p older).dur } :: seqs)

end

/-- A detector whose pulses and sequences are later by `c`. Its last timestamp is so too, unless it
has none yet. -/
structure PriDetector.Shifted (c : ℕ) (pde pde' : PriDetector) : Prop where
  windowSize : pde'.windowSize = pde.windowSize
  count : pde'.count = pde.count
  maxCount : pde'.maxCount = pde.maxCount
  sequences : pde'.sequences = pde.sequences.map (PriSequence.shift c)
  pulses : pde'.pulses = pde.pulses.map (PulseElem.shift c)
  lastTs : pde'.lastTs = pde.lastTs + c ∨ pde.lastTs = 0 ∧ pde'.lastTs = 0
  bound : ∀ p ∈ pde.pulses, p.ts + c < 2 ^ 64

/-- Two detectors go on with the same pools. -/
def BothShifted (c : ℕ) (r r' : DfsPools × PriDetector) : Prop :=
  r'.1 = r.1 ∧ r.2.Shifted c r'.2

section
variable {c} {pools : DfsPools} {pde pde' : PriDetector}

theorem dequeue_shift (pools : DfsPools) (h : pde.Shifted c pde') :
    BothShifted c (pulseQueueDequeue pools pde) (pulseQueueDequeue pools pde') := by
  unfold pulseQueueDequeue
  rw [h.pulses, List.getLast?_map]
  cases pde.pulses.getLast? with
  | none => exact ⟨rfl, h⟩
  | some p =>
    refine ⟨rfl, h.windowSize, ?_, h.maxCount, h.sequences, ?_, h.lastTs, fun q hq => ?_⟩
    · exact congrArg (· - 1) h.count
    · exact List.map_dropLast.symm
    · exact h.bound q (List.mem_of_mem_dropLast hq)

theorem checkWindowLoop_shift (minValidTs fuel : ℕ) (h : pde.Shifted c pde') :
    BothShifted c (checkWindowLoop minValidTs fuel pools pde)
      (checkWindowLoop (minValidTs + c) fuel pools pde') := by
  induction fuel generalizing pools pde pde' with
  | zero => exact ⟨rfl, h⟩
  | succ fuel ih =>
    have hlast : pde'.pulses.getLast? = pde.pulses.getLast?.map (PulseElem.shift c) := by
      rw [h.pulses, List.getLast?_map]
    obtain ⟨hpools, hnext⟩ := dequeue_shift pools h
    rw [checkWindowLoop, checkWindowLoop, hlast]
    cases pde.pulses.getLast? with
    | none => exact ⟨rfl, h⟩
    | some p =>
      simp only [Option.map_some, ts_shift_pulse, Nat.add_le_add_iff_right]
      split_ifs
      · exact ⟨rfl, h⟩
      · rw [hpools]
        exact ih hnext

/-- A loop whose border is not after any pulse leaves them all. -/
theorem checkWindowLoop_of_forall {minValidTs : ℕ} (h : ∀ p ∈ pde.pulses, minValidTs ≤ p.ts)
    (fuel : ℕ) : checkWindowLoop minValidTs fuel pools pde = (pools, pde) := by
  cases fuel with
  | zero => rfl
  | succ fuel =>
    rw [checkWindowLoop]
    cases hl : pde.pulses.getLast? with
    | none => rfl
    | some p => exact if_pos (h p (List.mem_of_getLast? hl))

theorem checkWindow_shift (pools : DfsPools) (h : pde.Shifted c pde')
    (hlast : pde'.lastTs = pde.lastTs + c) :
    BothShifted c (pulseQueueCheckWindow pools pde) (pulseQueueCheckWindow pools pde') := by
  have hlen : pde'.pulses.length = pde.pulses.length := by rw [h.pulses, List.length_map]
  unfold pulseQueueCheckWindow
  rw [h.count, h.windowSize, hlast, hlen]
  by_cases hcount : pde.count < 2
  · rw [if_pos hcount, if_pos hcount]
    exact ⟨rfl, h⟩
  rw [if_neg hcount, if_neg hcount]
  by_cases hsize : pde.lastTs ≤ pde.windowSize
  · rw [if_pos hsize]
    split_ifs
    · exact ⟨rfl, h⟩
    · -- every pulse is later than zero, and so none is outside the window
      have hall : ∀ p ∈ pde'.pulses, pde.lastTs + c - pde.windowSize ≤ p.ts := by
        rw [h.pulses]
        intro p hp
        obtain ⟨q, -, rfl⟩ := List.mem_map.mp hp
        rw [ts_shift_pulse]
        omega
      rw [checkWindowLoop_of_forall hall]
      exact ⟨rfl, h⟩
  · rw [if_neg hsize, if_neg (by omega), Nat.sub_add_comm (by omega)]
    exact checkWindowLoop_shift _ _ h

theorem enqueue_shift (k : Kmalloc) (pools : DfsPools) {ts : ℕ} (h : pde.Shifted c pde')
    (hts : ts + c < 2 ^ 64) :
    BothShifted c (pulseQueueEnqueue k pools pde ts) (pulseQueueEnqueue k pools pde' (ts + c)) := by
  unfold pulseQueueEnqueue
  rcases pools.pulse.get k.pulse with ⟨_ | addr, pool⟩
  · exact ⟨rfl, h⟩
  · have hpush : PriDetector.Shifted c
        { pde with pulses := ⟨addr, ts⟩ :: pde.pulses, count := pde.count + 1, lastTs := ts }
        { pde' with pulses := ⟨addr, ts + c⟩ :: pde'.pulses, count := pde'.count + 1,
                    lastTs := ts + c } :=
      ⟨h.windowSize, congrArg (· + 1) h.count, h.maxCount, h.sequences,
        congrArg (List.cons _) h.pulses, .inl rfl, List.forall_mem_cons.mpr ⟨hts, h.bound⟩⟩
    obtain ⟨hpools, hw⟩ := checkWindow_shift { pools with pulse := pool } hpush rfl
    dsimp only
    rw [hw.count, hw.maxCount, hpools]
    split_ifs
    · exact dequeue_shift _ hw
    · exact ⟨rfl, hw⟩

theorem reset_shift (pools : DfsPools) {ts ts' : ℕ} (h : pde.Shifted c pde')
    (hts : ts' = ts + c ∨ ts = 0 ∧ ts' = 0) :
    BothShifted c (priDetectorReset pools pde ts) (priDetectorReset pools pde' ts') := by
  refine ⟨?_, h.windowSize, rfl, h.maxCount, rfl, rfl, hts, by simp [priDetectorReset]⟩
  unfold priDetectorReset
  rw [h.sequences, h.pulses, List.map_map, List.map_map]
  rfl

end

/-- A detector with its rule. -/
def CfgShifted (c : ℕ) (cfg cfg' : RadarCfg) : Prop :=
  cfg'.rule = cfg.rule ∧ cfg.pri.Shifted c cfg'.pri

/-- What a pass of the loop needs, if it comes to the sequences. -/
def CfgSameSide (c : ℕ) (pulse : PulseInfo) (pools : DfsPools) (cfg : RadarCfg) : Prop :=
  cfg.rule.widthMin ≤ pulse.width → pulse.width ≤ cfg.rule.widthMax →
    (cfg.rule.chirp = true → pulse.chirp = true) →
    cfg.rule.maxPriTolerance ≤ tsSub pulse.ts cfg.pri.lastTs →
    SameSide c cfg.rule pulse.ts
      (addToExistingSeqs cfg.rule pulse.ts pools 0 cfg.pri.sequences).2.2 cfg.pri.pulses

instance decidableCfgSameSide (c : ℕ) (pulse : PulseInfo) (pools : DfsPools) (cfg : RadarCfg) :
    Decidable (CfgSameSide c pulse pools cfg) := by
  unfold CfgSameSide; infer_instance

section
variable {c} {k : Kmalloc} {pools : DfsPools} {pulse : PulseInfo} {cfg cfg' : RadarCfg}

theorem checkDetection_shift (rule : RadarRule) (seqs : List PriSequence) :
    checkDetection rule (seqs.map (PriSequence.shift c)) =
      (checkDetection rule seqs).map (PriSequence.shift c) := by
  rw [checkDetection, List.find?_map]
  rfl

theorem ts_shift_info (h : pulse.ts + c < 2 ^ 64) : (pulse.shift c).ts = pulse.ts + c :=
  Nat.mod_eq_of_lt h

/-- The pulse is early or late for both detectors. -/
theorem tolerance_shift {tol lastTs lastTs' : ℕ} (hts : pulse.ts + c < 2 ^ 64)
    (htol : tol ≤ pulse.ts) (h : lastTs' = lastTs + c ∨ lastTs = 0 ∧ lastTs' = 0) :
    tsSub (pulse.ts + c) lastTs' < tol ↔ tsSub pulse.ts lastTs < tol := by
  rcases h with rfl | ⟨rfl, rfl⟩
  · rw [tsSub_shift]
  · unfold tsSub
    omega

theorem cfgAddPulse_shift (h : CfgShifted c cfg cfg') (hts : pulse.ts + c < 2 ^ 64)
    (htol : cfg.rule.maxPriTolerance ≤ pulse.ts) (hside : CfgSameSide c pulse pools cfg) :
    let r := cfgAddPulse k false pulse pools cfg
    let r' := cfgAddPulse k false (pulse.shift c) pools cfg'
    r'.1 = r.1 ∧ CfgShifted c r.2.1 r'.2.1 ∧ r'.2.2 = r.2.2 := by
  obtain ⟨hrule, hpri⟩ := h
  have hwidth : (pulse.shift c).width = pulse.width := rfl
  have hchirp : (pulse.shift c).chirp = pulse.chirp := rfl
  unfold cfgAddPulse
  rw [hrule, hwidth, hchirp, ts_shift_info hts]
  simp only [tolerance_shift hts htol hpri.lastTs, Bool.false_eq_true, if_false]
  by_cases hin : pulse.width < cfg.rule.widthMin ∨ cfg.rule.widthMax < pulse.width
  · rw [if_pos hin, if_pos hin]
    exact ⟨rfl, ⟨hrule, hpri⟩, rfl⟩
  rw [if_neg hin, if_neg hin]
  by_cases hc : cfg.rule.chirp = true ∧ cfg.rule.chirp ≠ pulse.chirp
  · rw [if_pos hc, if_pos hc]
    exact ⟨rfl, ⟨hrule, hpri⟩, rfl⟩
  rw [if_neg hc, if_neg hc]
  by_cases hnear : tsSub pulse.ts cfg.pri.lastTs < cfg.rule.maxPriTolerance
  · rw [if_pos hnear, if_pos hnear]
    exact ⟨rfl, ⟨hrule, hpri⟩, rfl⟩
  rw [if_neg hnear, if_neg hnear, hpri.sequences, hpri.pulses, addToExistingSeqs_shift]
  have hside := hside (by omega) (by omega)
    (fun hchirp => by by_contra hne; exact hc ⟨hchirp, by simpa [hchirp] using hne⟩) (by omega)
  dsimp only
  rw [createSequences_shift hts hpri.bound hside]
  dsimp only
  generalize createSequences k cfg.rule pulse.ts _ _ _ cfg.pri.pulses = r
  obtain ⟨pools', seqs, created⟩ := r
  have hseqs : PriDetector.Shifted c { cfg.pri with sequences := seqs }
      { cfg'.pri with
        sequences := seqs.map (PriSequence.shift c)
        pulses := cfg.pri.pulses.map (PulseElem.shift c) } :=
    ⟨hpri.windowSize, hpri.count, hpri.maxCount, rfl, rfl, hpri.lastTs, hpri.bound⟩
  dsimp only
  cases created with
  | false =>
    obtain ⟨hpools, hreset⟩ := reset_shift pools' hseqs (.inl (Eq.refl (pulse.ts + c)))
    rw [if_neg Bool.false_ne_true, if_neg Bool.false_ne_true]
    exact ⟨hpools, ⟨rfl, hreset⟩, rfl⟩
  | true =>
    rw [if_pos rfl, if_pos rfl, checkDetection_shift]
    cases checkDetection cfg.rule seqs with
    | some ps => exact ⟨rfl, ⟨rfl, hseqs⟩, rfl⟩
    | none =>
      obtain ⟨hpools, hq⟩ := enqueue_shift k pools' hseqs hts
      exact ⟨hpools, ⟨rfl, hq⟩, rfl⟩

/-- What the loop needs of the detectors that it comes to. -/
def LoopSameSide (c : ℕ) (k : Kmalloc) (pulse : PulseInfo) : DfsPools → List RadarCfg → Prop
  | _, [] => True
  | pools, cfg :: cfgs =>
    CfgSameSide c pulse pools cfg ∧
      ((cfgAddPulse k false pulse pools cfg).2.2 = false →
        LoopSameSide c k pulse (cfgAddPulse k false pulse pools cfg).1 cfgs)

instance decidableLoopSameSide (c : ℕ) (k : Kmalloc) (pulse : PulseInfo) :
    ∀ pools cfgs, Decidable (LoopSameSide c k pulse pools cfgs)
  | _, [] => isTrue trivial
  | pools, cfg :: cfgs =>
    have := decidableLoopSameSide c k pulse (cfgAddPulse k false pulse pools cfg).1 cfgs
    inferInstanceAs (Decidable (_ ∧ _))

theorem addPulseLoop_shift {cfgs cfgs' : List RadarCfg} (h : List.Forall₂ (CfgShifted c) cfgs cfgs')
    (hts : pulse.ts + c < 2 ^ 64) (htol : ∀ cfg ∈ cfgs, cfg.rule.maxPriTolerance ≤ pulse.ts)
    (hside : LoopSameSide c k pulse pools cfgs) :
    let r := addPulseLoop k false pulse pools cfgs
    let r' := addPulseLoop k false (pulse.shift c) pools cfgs'
    r'.1 = r.1 ∧ List.Forall₂ (CfgShifted c) r.2.1 r'.2.1 ∧ r'.2.2 = r.2.2 := by
  induction h generalizing pools with
  | nil => exact ⟨rfl, .nil, rfl⟩
  | @cons cfg cfg' cfgs cfgs' hcfg hcfgs ih =>
    obtain ⟨htol, htols⟩ := List.forall_mem_cons.mp htol
    obtain ⟨hside, hrest⟩ := hside
    obtain ⟨hpools, hcfg', hradar⟩ := cfgAddPulse_shift (k := k) hcfg hts htol hside
    rw [addPulseLoop, addPulseLoop]
    generalize cfgAddPulse k false pulse pools cfg = r at *
    generalize cfgAddPulse k false (pulse.shift c) pools cfg' = r' at *
    obtain ⟨pools₁, cfg₁, radar⟩ := r
    obtain ⟨pools₁', cfg₁', radar'⟩ := r'
    dsimp only at *
    subst hpools hradar
    cases radar' with
    | true =>
      rw [if_pos rfl, if_pos rfl]
      exact ⟨rfl, .cons hcfg' hcfgs, rfl⟩
    | false =>
      obtain ⟨hpools', hcfgs', hradar'⟩ := ih htols (hrest rfl)
      rw [if_neg Bool.false_ne_true, if_neg Bool.false_ne_true]
      exact ⟨hpools', .cons hcfg' hcfgs', hradar'⟩

/-- The elements go back to the pools in the same order. -/
theorem resetCfgs_shift {cfgs cfgs' : List RadarCfg} (h : List.Forall₂ (CfgShifted c) cfgs cfgs')
    (pools : DfsPools) : (resetCfgs 0 pools cfgs').1 = (resetCfgs 0 pools cfgs).1 := by
  induction h generalizing pools with
  | nil => rfl
  | cons hcfg _ ih =>
    obtain ⟨hpools, -⟩ := reset_shift pools hcfg.2 (.inr ⟨rfl, rfl⟩)
    rw [resetCfgs, resetCfgs]
    dsimp only
    rw [hpools]
    exact ih _

theorem resetInfos_set {infos : List (List RadarCfg)} {i : ℕ} {cfgs cfgs' : List RadarCfg}
    (hi : infos[i]? = some cfgs) (h : List.Forall₂ (CfgShifted c) cfgs cfgs') (pools : DfsPools) :
    (resetInfos 0 pools (infos.set i cfgs')).1 = (resetInfos 0 pools infos).1 := by
  induction infos generalizing i pools with
  | nil => cases hi
  | cons cs infos ih =>
    cases i with
    | zero =>
      cases hi
      rw [List.set_cons_zero, resetInfos, resetInfos]
      dsimp only
      rw [resetCfgs_shift h]
    | succ i =>
      rw [List.set_cons_succ, resetInfos, resetInfos]
      exact ih hi _

end

namespace Dfs

/-- The state `s` later: the same but for the detectors of the region in use and for the last
timestamp. -/
structure Later (c : ℕ) (i : ℕ) (s s' : Dfs) : Prop where
  info : s.info = some i
  lt : i < s.infos.length
  later : ∃ cfgs last, s' = { s with lastPulseTs := last, infos := s.infos.set i cfgs } ∧
    List.Forall₂ (CfgShifted c) s.cfgs cfgs ∧
    (last = s.lastPulseTs + c ∨ s.lastPulseTs = 0 ∧ last = 0)
  tolerance : ∀ cfg ∈ s.cfgs, cfg.rule.maxPriTolerance ≤ SKW_PRI_TOLERANCE

/-- What a pulse needs, if it is looked at. -/
def SameSide (c : ℕ) (k : Kmalloc) (iface : IfaceId) (pulse : PulseInfo) (s : Dfs) : Prop :=
  (s.ifaceFlags iface).Any → LoopSameSide c k pulse s.pools s.cfgs

section
variable {c i : ℕ} {k : Kmalloc} {s s' : Dfs} {iface : IfaceId} {pulse : PulseInfo}

theorem cfgs_set (last : ℕ) (pools : DfsPools) (cfgs : List RadarCfg) (hi : s.info = some i)
    (hlt : i < s.infos.length) :
    ({ s with lastPulseTs := last, pools, infos := s.infos.set i cfgs } : Dfs).cfgs = cfgs := by
  simp [Dfs.cfgs, hi, List.getElem?_set_self hlt]

theorem forall_rule_addPulseLoop {P : RadarRule → Prop} (k : Kmalloc) (reset : Bool)
    (pulse : PulseInfo) (pools : DfsPools) {cfgs : List RadarCfg} (h : ∀ cfg ∈ cfgs, P cfg.rule) :
    ∀ cfg ∈ (addPulseLoop k reset pulse pools cfgs).2.1, P cfg.rule := by
  intro cfg hcfg
  have hrule := List.mem_map_of_mem (f := fun cfg : RadarCfg => cfg.rule) hcfg
  rw [map_rule_addPulseLoop] at hrule
  obtain ⟨c, hc, hrule⟩ := List.mem_map.mp hrule
  exact hrule ▸ h c hc

theorem cfgShifted_cleared {cfg cfg' : RadarCfg} (h : CfgShifted c cfg cfg') :
    CfgShifted c (cfg.cleared 0) (cfg'.cleared 0) :=
  ⟨h.1, h.2.windowSize, rfl, h.2.maxCount, rfl, rfl, .inr ⟨rfl, rfl⟩, nofun⟩

/-- The detectors of both states go on. -/
theorem later_set (hinfo : s.info = some i) (hlt : i < s.infos.length) (last last' : ℕ)
    (pools : DfsPools) {cfgs cfgs' : List RadarCfg} (hcfgs : List.Forall₂ (CfgShifted c) cfgs cfgs')
    (hlast : last' = last + c ∨ last = 0 ∧ last' = 0)
    (htol : ∀ cfg ∈ cfgs, cfg.rule.maxPriTolerance ≤ SKW_PRI_TOLERANCE) :
    Later c i { s with lastPulseTs := last, pools, infos := s.infos.set i cfgs }
      { s with lastPulseTs := last', pools, infos := s.infos.set i cfgs' } := by
  have hset := cfgs_set last pools cfgs hinfo hlt
  refine ⟨hinfo, by simpa using hlt, ⟨cfgs', last', ?_, ?_, hlast⟩, ?_⟩
  · rw [List.set_set]
  · rwa [hset]
  · rwa [hset]

/-- A radar is reported in both. -/
theorem later_deinit (hinfo : s.info = some i) (hlt : i < s.infos.length) (last last' : ℕ)
    (pools : DfsPools) {cfgs cfgs' : List RadarCfg} (hcfgs : List.Forall₂ (CfgShifted c) cfgs cfgs')
    (hlast : last' = last + c ∨ last = 0 ∧ last' = 0)
    (htol : ∀ cfg ∈ cfgs, cfg.rule.maxPriTolerance ≤ SKW_PRI_TOLERANCE) (iface : IfaceId) :
    Later c i
      (({ s with lastPulseTs := last, pools, infos := s.infos.set i cfgs } : Dfs).deinit iface)
      (({ s with lastPulseTs := last', pools, infos := s.infos.set i cfgs' } : Dfs).deinit iface) := by
  obtain ⟨f, g, hstop⟩ := stopRadar_eq s iface
  have hpools : (resetInfos 0 pools (s.infos.set i cfgs')).1 =
      (resetInfos 0 pools (s.infos.set i cfgs)).1 := by
    have := resetInfos_set (List.getElem?_set_self hlt) hcfgs pools
    rwa [List.set_set] at this
  rw [deinit_with, deinit_with, hpools, List.map_set, List.map_set, hstop]
  have hcleared : List.Forall₂ (CfgShifted c) (cfgs.map (RadarCfg.cleared 0))
      (cfgs'.map (RadarCfg.cleared 0)) := by
    rw [List.forall₂_map_left_iff, List.forall₂_map_right_iff]
    exact hcfgs.imp fun _ _ h => cfgShifted_cleared h
  refine later_set (s := { s with
    flags := f, ifaceFlags := g, infos := s.infos.map (List.map (RadarCfg.cleared 0)) })
    hinfo (by simpa using hlt) last last' _ hcleared hlast ?_
  intro cfg hcfg
  obtain ⟨cfg, hc, rfl⟩ := List.mem_map.mp hcfg
  exact htol cfg hc

/-- A pulse gives the same verdict in both states, and the one stays the other one later. -/
theorem addPulse_later (h : Later c i s s') (hts : pulse.ts + c < 2 ^ 64)
    (htol : SKW_PRI_TOLERANCE ≤ pulse.ts) (hlast : s.lastPulseTs ≤ pulse.ts)
    (hside : s.SameSide c k iface pulse) :
    (s'.addPulse k iface (pulse.shift c)).2 = (s.addPulse k iface pulse).2 ∧
      Later c i (s.addPulse k iface pulse).1 (s'.addPulse k iface (pulse.shift c)).1 ∧
      (s.addPulse k iface pulse).1.lastPulseTs ≤ pulse.ts := by
  obtain ⟨hinfo, hlt, ⟨cfgs, last, rfl, hcfgs, hls⟩, htols⟩ := h
  have hreset : decide (pulse.ts < s.lastPulseTs) = false := decide_eq_false (by omega)
  have hreset' : decide ((pulse.shift c).ts < last) = false := by
    rw [ts_shift_info hts]
    exact decide_eq_false (by omega)
  by_cases hflags : (s.ifaceFlags iface).Any
  · obtain ⟨hpools, hcfgs', hradar⟩ := addPulseLoop_shift (k := k) hcfgs hts
      (fun cfg hc => (htols cfg hc).trans htol) (hside hflags)
    have htols' := forall_rule_addPulseLoop (P := fun rule => rule.maxPriTolerance ≤ SKW_PRI_TOLERANCE)
      k false pulse s.pools htols
    have hcfgsset := cfgs_set last s.pools cfgs hinfo hlt
    have hflags' : (({ s with lastPulseTs := last, infos := s.infos.set i cfgs } :
      Dfs).ifaceFlags iface).Any := hflags
    have hinfo' : ({ s with lastPulseTs := last, infos := s.infos.set i cfgs } : Dfs).info = some i :=
      hinfo
    rw [addPulse_of_any hinfo hflags, addPulse_of_any hinfo' hflags']
    dsimp only
    rw [hcfgsset, hreset, hreset', List.set_set, hpools, hradar, ts_shift_info hts]
    refine ⟨rfl, ?_⟩
    split_ifs
    · refine ⟨later_deinit hinfo hlt _ _ _ hcfgs' (.inl rfl) htols' iface, ?_⟩
      rw [deinit_with]
    · exact ⟨later_set hinfo hlt _ _ _ hcfgs' (.inl rfl) htols', le_rfl⟩
  · have hflags' : ¬(({ s with lastPulseTs := last, infos := s.infos.set i cfgs } :
      Dfs).ifaceFlags iface).Any := hflags
    rw [addPulse, addPulse, if_pos hflags, if_pos hflags']
    exact ⟨rfl, ⟨hinfo, hlt, ⟨cfgs, last, rfl, hcfgs, hls⟩, htols⟩, hlast⟩

end

/-- The verdicts after the pulses. -/
def verdicts (k : Kmalloc) : Dfs → List (IfaceId × PulseInfo) → List Bool
  | _, [] => []
  | s, (iface, pulse) :: es =>
    (s.addPulse k iface pulse).2 :: verdicts k (s.addPulse k iface pulse).1 es

/-- No detector of the region in use has seen a pulse. -/
structure Unused (s : Dfs) : Prop where
  lastPulseTs : s.lastPulseTs = 0
  cfgs : ∃ i cfgs, s.info = some i ∧ s.infos[i]? = some cfgs ∧ ∀ cfg ∈ cfgs, cfg.rule.Fits ∧
    cfg.pri.sequences = [] ∧ cfg.pri.pulses = [] ∧ cfg.pri.count = 0 ∧ cfg.pri.lastTs = 0

/-- Along the run no border is out of range in one of the runs only. -/
def SameSides (c : ℕ) (k : Kmalloc) (s : Dfs) (es : List (IfaceId × PulseInfo)) : Prop :=
  Lib.Along (fun s e => some (s.addPulse k e.1 e.2).1) (fun s e _ => s.SameSide c k e.1 e.2) s es

instance decidableSameSides (c : ℕ) (k : Kmalloc) (s : Dfs) (es : List (IfaceId × PulseInfo)) :
    Decidable (SameSides c k s es) := by
  unfold SameSides SameSide; infer_instance

section
variable {c i : ℕ} {k : Kmalloc} {s s' : Dfs} {es : List (IfaceId × PulseInfo)}

theorem Unused.later (h : s.Unused) (c : ℕ) : ∃ i, Later c i s s := by
  obtain ⟨hlast, i, cfgs, hinfo, hi, hcfgs⟩ := h
  have hlt := (List.getElem?_eq_some_iff.mp hi).1
  have hs : s.cfgs = cfgs := by rw [Dfs.cfgs, hinfo, Option.bind_some, hi, Option.getD_some]
  refine ⟨i, hinfo, hlt, ⟨cfgs, s.lastPulseTs, ?_, ?_, .inr ⟨hlast, hlast⟩⟩, fun cfg hc => ?_⟩
  · obtain ⟨_, rfl⟩ := List.getElem?_eq_some_iff.mp hi
    rw [List.set_getElem_self]
  · rw [hs, List.forall₂_same]
    intro cfg hc
    obtain ⟨-, hseqs, hpulses, -, hts⟩ := hcfgs cfg hc
    exact ⟨rfl, rfl, rfl, rfl, by rw [hseqs]; rfl, by rw [hpulses]; rfl, .inr ⟨hts, hts⟩,
      by rw [hpulses]; exact List.forall_mem_nil _⟩
  · rw [hs] at hc
    exact (hcfgs cfg hc).1.2.2.2.2.2.2.le

theorem verdicts_later (h : Later c i s s') (hlast : ∀ e ∈ es, s.lastPulseTs ≤ e.2.ts)
    (hmono : es.Pairwise fun e e' => e.2.ts ≤ e'.2.ts)
    (hmin : ∀ e ∈ es, SKW_PRI_TOLERANCE ≤ e.2.ts) (hmax : ∀ e ∈ es, e.2.ts + c < 2 ^ 64)
    (hside : SameSides c k s es) :
    verdicts k s' (es.map fun e => (e.1, e.2.shift c)) = verdicts k s es := by
  induction es generalizing s s' with
  | nil => rfl
  | cons e es ih =>
    rw [List.forall_mem_cons] at hlast hmin hmax
    obtain ⟨hfirst, hmono⟩ := List.pairwise_cons.mp hmono
    obtain ⟨hs, hside⟩ := hside _ rfl
    obtain ⟨hverdict, hlater, hle⟩ := addPulse_later (k := k) h hmax.1 hmin.1 hlast.1 hs
    have hrest := ih hlater (fun e' he => hle.trans (hfirst e' he)) hmono hmin.2 hmax.2 hside
    rw [List.map_cons, verdicts, verdicts, hverdict, hrest]

/-- A shift of all pulses does not change a verdict, where it moves no border of a sequence across
an end of the timestamps' range. -/
theorem verdicts_shift (k : Kmalloc) (c : ℕ) (hs : s.Unused)
    (hmono : es.Pairwise fun e e' => e.2.ts ≤ e'.2.ts)
    (hmin : ∀ e ∈ es, SKW_PRI_TOLERANCE ≤ e.2.ts) (hmax : ∀ e ∈ es, e.2.ts + c < 2 ^ 64)
    (hside : SameSides c k s es) :
    verdicts k s (es.map fun e => (e.1, e.2.shift c)) = verdicts k s es := by
  obtain ⟨i, h⟩ := hs.later c
  exact verdicts_later h (fun e _ => by rw [hs.lastPulseTs]; exact Nat.zero_le _) hmono hmin hmax
    hside

end
end Dfs
/-- The channel of an interface is checked under the ETSI rules. -/
def etsiChannel : Dfs :=
  ((({ Dfs.start 2 with fwEnabled := true } : Dfs).chanInit ⟨1, 0⟩).1).startCac 0 true

theorem etsiChannel_unused : etsiChannel.Unused :=
  ⟨rfl, 2, etsiChannel.cfgs, rfl, rfl, by decide⟩

/-- Pulses of the ETSI rule for pulse widths from 20 on, with two missing at the beginning. -/
def etsiPulses : List (IfaceId × PulseInfo) :=
  [16, 1016, 1516, 2016, 2516, 3016, 3516, 4016, 4516, 5016].map fun ts =>
    (0, ⟨ts % 2 ^ 64, 25, false, Nat.mod_lt _ (by decide)⟩)

theorem etsiPulses_late :
    Dfs.verdicts .always etsiChannel
        ((etsiPulses.map fun e => (e.1, e.2.shift 10000)).map fun e => (e.1, e.2.shift 5000)) =
      Dfs.verdicts .always etsiChannel (etsiPulses.map fun e => (e.1, e.2.shift 10000)) :=
  Dfs.verdicts_shift .always 5000 etsiChannel_unused (by decide) (by decide) (by decide)
    (by decide +kernel)

/-- They are a radar, but not when they come in the first milliseconds: the window of the sequence
then begins before zero, and the pulse before the missing ones is not counted. -/
theorem etsiPulses_shift :
    etsiChannel.Unused ∧ (etsiPulses.Pairwise fun e e' => e.2.ts ≤ e'.2.ts) ∧
      (∀ e ∈ etsiPulses, SKW_PRI_TOLERANCE ≤ e.2.ts ∧ e.2.ts + 10000 < 2 ^ 64) ∧
      Dfs.verdicts .always etsiChannel (etsiPulses.map fun e => (e.1, e.2.shift 10000)) ≠
        Dfs.verdicts .always etsiChannel etsiPulses := by
  refine ⟨etsiChannel_unused, by decide, by decide, ?_⟩
  decide +kernel

end Skw
