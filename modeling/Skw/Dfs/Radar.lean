import Skw.Lib.Pool
import Mathlib.Algebra.Group.Nat.Defs
import Mathlib.Data.List.Basic

/-! The radar rules of `skw_dfs.c` and the detector of one rule: the queue of its pulses, newest
first, and the sequences that may be a radar. Timestamps are of 64 bits, everything else is of 32
bits at most. -/
namespace Skw

abbrev SKW_PRI_TOLERANCE : ℕ := 16

structure RadarRule where
  typeId : ℕ
  widthMin : ℕ
  widthMax : ℕ
  priMin : ℕ
  priMax : ℕ
  nrPri : ℕ
  ppb : ℕ
  ppbThresh : ℕ
  maxPriTolerance : ℕ
  chirp : Bool
deriving DecidableEq

def SKW_PPB_THRESH_RATE (ppb rate : ℕ) : ℕ := (ppb * rate + 100 - rate) / 100

def SKW_PRF2PRI (prf : ℕ) : ℕ := (1000000 + prf / 2) / prf

def SKW_WIDTH_LOWER (w : ℕ) : ℕ := (w * (100 - 5) + 50) / 100

def SKW_WIDTH_UPPER (w : ℕ) : ℕ := (w * (100 + 5) + 50) / 100

def skwEtsiPattern (id wmin wmax pmin pmax prf ppb : ℕ) (chirp : Bool) : RadarRule where
  typeId := id
  widthMin := SKW_WIDTH_LOWER wmin
  widthMax := SKW_WIDTH_UPPER wmax
  priMin := SKW_PRF2PRI pmax - SKW_PRI_TOLERANCE
  priMax := SKW_PRF2PRI pmin * prf + SKW_PRI_TOLERANCE
  nrPri := prf
  ppb := ppb * prf
  ppbThresh := SKW_PPB_THRESH_RATE ppb 50
  maxPriTolerance := SKW_PRI_TOLERANCE
  chirp := chirp

/-- Also `SKW_FCC_PATTERN`, where the rate is 50. -/
def skwJpPattern (id wmin wmax pmin pmax prf ppb rate : ℕ) (chirp : Bool) : RadarRule where
  typeId := id
  widthMin := SKW_WIDTH_LOWER wmin
  widthMax := SKW_WIDTH_UPPER wmax
  priMin := pmin - SKW_PRI_TOLERANCE
  priMax := pmax * prf + SKW_PRI_TOLERANCE
  nrPri := prf
  ppb := ppb * prf
  ppbThresh := SKW_PPB_THRESH_RATE ppb rate
  maxPriTolerance := SKW_PRI_TOLERANCE
  chirp := chirp

def skwFccPattern (id wmin wmax pmin pmax prf ppb : ℕ) (chirp : Bool) : RadarRule :=
  skwJpPattern id wmin wmax pmin pmax prf ppb 50 chirp

def skwRadarEtsi : List RadarRule :=
  [skwEtsiPattern 0 0 1 700 700 1 18 false, skwEtsiPattern 1 0 5 200 1000 1 10 false,
    skwEtsiPattern 2 0 15 200 1600 1 15 false, skwEtsiPattern 3 0 15 2300 4000 1 25 false,
    skwEtsiPattern 4 20 30 2000 4000 1 20 false, skwEtsiPattern 5 0 2 300 400 3 10 false,
    skwEtsiPattern 6 0 2 400 1200 3 15 false]

def skwRadarFcc : List RadarRule :=
  [skwFccPattern 0 0 1 1428 1428 1 18 false, skwFccPattern 101 0 1 518 938 1 57 false,
    skwFccPattern 102 0 1 938 2000 1 27 false, skwFccPattern 103 0 1 2000 3066 1 18 false,
    skwFccPattern 2 0 5 150 230 1 23 false, skwFccPattern 3 6 10 200 500 1 16 false,
    skwFccPattern 4 11 20 200 500 1 12 false, skwFccPattern 5 50 100 1000 2000 1 1 true,
    skwFccPattern 6 0 1 333 333 1 9 false]

def skwRadarJp : List RadarRule :=
  [skwJpPattern 0 0 1 1428 1428 1 18 29 false, skwJpPattern 1 2 3 3846 3846 1 18 29 false,
    skwJpPattern 2 0 1 1388 1388 1 18 50 false, skwJpPattern 3 0 4 4000 4000 1 18 50 false,
    skwJpPattern 4 0 5 150 230 1 23 50 false, skwJpPattern 5 6 10 200 500 1 16 50 false,
    skwJpPattern 6 11 20 200 500 1 12 50 false, skwJpPattern 7 50 100 1000 2000 1 3 50 true,
    skwJpPattern 5 0 1 333 333 1 9 50 false]

/-- The rules for each region: none where it is unset, FCC, ETSI and JP. -/
def skwRadarRules : List (List RadarRule) := [[], skwRadarFcc, skwRadarEtsi, skwRadarJp]

/-- The fields of every rule hold its values. -/
def RadarRule.Fits (r : RadarRule) : Prop :=
  r.widthMax < 2 ^ 8 ∧ r.priMax < 2 ^ 16 ∧ r.nrPri < 2 ^ 8 ∧ 0 < r.ppb ∧ r.ppb < 2 ^ 8 ∧
    r.ppbThresh < 2 ^ 8 ∧ r.maxPriTolerance = SKW_PRI_TOLERANCE

instance RadarRule.decidableFits : DecidablePred RadarRule.Fits := fun r => by
  unfold RadarRule.Fits; infer_instance

theorem fits_of_mem_rules : ∀ rules ∈ skwRadarRules, ∀ r ∈ rules, r.Fits := by decide

structure PulseElem where
  addr : ℕ
  ts : ℕ
deriving DecidableEq

structure PriSequence where
  addr : ℕ
  pri : ℕ
  dur : ℕ
  count : ℕ
  countFalses : ℕ
  firstTs : ℕ
  lastTs : ℕ
  deadlineTs : ℕ
deriving DecidableEq

structure PriDetector where
  lastTs : ℕ
  windowSize : ℕ
  count : ℕ
  maxCount : ℕ
  sequences : List PriSequence
  pulses : List PulseElem
deriving DecidableEq

structure RadarCfg where
  rule : RadarRule
  pri : PriDetector
deriving DecidableEq

/-- `skw_pulse_pool` and `skw_pseq_pool`, each with what `kmalloc` adds to it. -/
structure DfsPools where
  pulse : Lib.Pool
  pseq : Lib.Pool
deriving DecidableEq

/-- Which allocations succeed. -/
structure Kmalloc where
  pulse : ℕ → Bool
  pseq : ℕ → Bool

def Kmalloc.always : Kmalloc := ⟨fun _ => true, fun _ => true⟩

structure PulseInfo where
  ts : ℕ
  width : ℕ
  chirp : Bool
  ts_lt : ts < 2 ^ 64
deriving DecidableEq

/-- The difference of two timestamps. -/
def tsSub (a b : ℕ) : ℕ := (a + 2 ^ 64 - b) % 2 ^ 64

def tsAdd (a b : ℕ) : ℕ := (a + b) % 2 ^ 64

def u32 (n : ℕ) : ℕ := n % 2 ^ 32

namespace DfsPools

def putPulse (pools : DfsPools) (p : PulseElem) : DfsPools :=
  { pools with pulse := pools.pulse.put p.addr }

def putPseq (pools : DfsPools) (ps : PriSequence) : DfsPools :=
  { pools with pseq := pools.pseq.put ps.addr }

end DfsPools

/-- `pulse_queue_dequeue`: the tail goes back to the pool. -/
def pulseQueueDequeue (pools : DfsPools) (pde : PriDetector) : DfsPools × PriDetector :=
  match pde.pulses.getLast? with
  | none => (pools, pde)
  | some p =>
    (pools.putPulse p, { pde with pulses := pde.pulses.dropLast, count := pde.count - 1 })

/-- The loop of `pulse_queue_check_window`, which takes a pulse from the queue in every pass. -/
def checkWindowLoop (minValidTs : ℕ) : ℕ → DfsPools → PriDetector → DfsPools × PriDetector
  | 0, pools, pde => (pools, pde)
  | fuel + 1, pools, pde =>
    match pde.pulses.getLast? with
    | none => (pools, pde)
    | some p =>
      if minValidTs ≤ p.ts then (pools, pde)
      else
        let (pools, pde) := pulseQueueDequeue pools pde
        checkWindowLoop minValidTs fuel pools pde

def pulseQueueCheckWindow (pools : DfsPools) (pde : PriDetector) : DfsPools × PriDetector :=
  if pde.count < 2 then (pools, pde)
  else if pde.lastTs ≤ pde.windowSize then (pools, pde)
  else checkWindowLoop (pde.lastTs - pde.windowSize) pde.pulses.length pools pde

def pulseQueueEnqueue (k : Kmalloc) (pools : DfsPools) (pde : PriDetector) (ts : ℕ) :
    DfsPools × PriDetector :=
  match pools.pulse.get k.pulse with
  | (none, pulse) => ({ pools with pulse }, pde)
  | (some addr, pulse) =>
    let (pools, pde) := pulseQueueCheckWindow { pools with pulse }
      { pde with pulses := ⟨addr, ts⟩ :: pde.pulses, count := pde.count + 1, lastTs := ts }
    if pde.maxCount ≤ pde.count then pulseQueueDequeue pools pde else (pools, pde)

def pdeGetMultiple (val fraction tolerance : ℕ) : ℕ :=
  if fraction = 0 then 0
  else
    let delta := if val < fraction then fraction - val else val - fraction
    if delta ≤ tolerance then 1
    else
      let factor := val / fraction
      let remainder := val % fraction
      if tolerance < remainder then
        if fraction - remainder ≤ tolerance then factor + 1 else 0
      else factor

/-- `pseq_handler_add_to_existing_seqs` from some sequence on, with `max_count` so far. -/
def addToExistingSeqs (rule : RadarRule) (ts : ℕ) :
    DfsPools → ℕ → List PriSequence → DfsPools × List PriSequence × ℕ
  | pools, maxCount, [] => (pools, [], maxCount)
  | pools, maxCount, ps :: rest =>
    if ps.deadlineTs < ts then addToExistingSeqs rule ts (pools.putPseq ps) maxCount rest
    else if 0 < pdeGetMultiple (u32 (tsSub ts ps.lastTs)) ps.pri rule.maxPriTolerance then
      let (pools, rest, max) :=
        addToExistingSeqs rule ts pools (max maxCount (ps.count + 1)) rest
      (pools, { ps with lastTs := ts, count := ps.count + 1 } :: rest, max)
    else
      let (pools, rest, max) := addToExistingSeqs rule ts pools maxCount rest
      (pools, { ps with countFalses := ps.countFalses + 1 } :: rest, max)

/-- `GET_PRI_TO_USE`. -/
def priToUse (rule : RadarRule) (runtime : ℕ) : ℕ :=
  if rule.priMin + SKW_PRI_TOLERANCE = rule.priMax - SKW_PRI_TOLERANCE then
    rule.priMin + SKW_PRI_TOLERANCE
  else u32 runtime

/-- The sequence of two pulses that `pseq_handler_create_sequences` builds on its stack. -/
def pairSequence (rule : RadarRule) (ts : ℕ) (p : PulseElem) : PriSequence :=
  let pri := priToUse rule (tsSub ts p.ts)
  { addr := 0, pri, dur := u32 (pri * (rule.ppb - 1) + 2 * rule.maxPriTolerance), count := 2,
    countFalses := 0, firstTs := p.ts, lastTs := ts, deadlineTs := 0 }

/-- The inner loop over the older pulses, with `tmp_false_count`. -/
def extendSequence (rule : RadarRule) (minValidTs : ℕ) :
    PriSequence → ℕ → List PulseElem → PriSequence
  | ps, _, [] => ps
  | ps, falses, p :: older =>
    if p.ts < minValidTs then ps
    else if 0 < pdeGetMultiple (u32 (tsSub ps.lastTs p.ts)) ps.pri rule.maxPriTolerance then
      extendSequence rule minValidTs
        { ps with count := ps.count + 1, firstTs := p.ts, countFalses := ps.countFalses + falses }
        0 older
    else extendSequence rule minValidTs ps (falses + 1) older

/-- The sequence for a pulse of the queue with the older ones behind it. -/
def buildSequence (rule : RadarRule) (ts : ℕ) (p : PulseElem) (older : List PulseElem) :
    PriSequence :=
  let ps := pairSequence rule ts p
  extendSequence rule (tsSub ts ps.dur) ps 0 older

/-- `pseq_handler_create_sequences` from some pulse of the queue on. It fails where no memory is
left. -/
def createSequences (k : Kmalloc) (rule : RadarRule) (ts minCount : ℕ) :
    DfsPools → List PriSequence → List PulseElem → DfsPools × List PriSequence × Bool
  | pools, seqs, [] => (pools, seqs, true)
  | pools, seqs, p :: older =>
    let deltaTs := u32 (tsSub ts p.ts)
    if deltaTs < rule.priMin then createSequences k rule ts minCount pools seqs older
    else if rule.priMax < deltaTs then (pools, seqs, true)
    else
      let ps := buildSequence rule ts p older
      if ps.count ≤ minCount then createSequences k rule ts minCount pools seqs older
      else
        match pools.pseq.get k.pseq with
        | (none, pseq) => ({ pools with pseq }, seqs, false)
        | (some addr, pseq) =>
          createSequences k rule ts minCount { pools with pseq }
            ({ ps with addr, deadlineTs := tsAdd ps.firstTs ps.dur } :: seqs) older

def priDetectorReset (pools : DfsPools) (pde : PriDetector) (ts : ℕ) : DfsPools × PriDetector :=
  ({ pulse := pools.pulse.putAll (pde.pulses.map (·.addr))
     pseq := pools.pseq.putAll (pde.sequences.map (·.addr)) },
    { pde with sequences := [], pulses := [], count := 0, lastTs := ts })

/-- `pseq_handler_check_detection`. -/
def checkDetection (rule : RadarRule) (seqs : List PriSequence) : Option PriSequence :=
  seqs.find? fun ps => rule.ppbThresh ≤ ps.count ∧ ps.countFalses ≤ ps.count * rule.nrPri

/-- A pass of the loop of `skw_dfs_add_pulse`, and whether it finds a radar. -/
def cfgAddPulse (k : Kmalloc) (reset : Bool) (pulse : PulseInfo) (pools : DfsPools)
    (cfg : RadarCfg) : DfsPools × RadarCfg × Bool :=
  if reset then
    let (pools, pri) := priDetectorReset pools cfg.pri pulse.ts
    (pools, { cfg with pri }, false)
  else if pulse.width < cfg.rule.widthMin ∨ cfg.rule.widthMax < pulse.width then (pools, cfg, false)
  else if cfg.rule.chirp ∧ cfg.rule.chirp ≠ pulse.chirp then (pools, cfg, false)
  else if tsSub pulse.ts cfg.pri.lastTs < cfg.rule.maxPriTolerance then (pools, cfg, false)
  else
    let (pools, seqs, maxUpdated) := addToExistingSeqs cfg.rule pulse.ts pools 0 cfg.pri.sequences
    let (pools, seqs, created) :=
      createSequences k cfg.rule pulse.ts maxUpdated pools seqs cfg.pri.pulses
    let pri := { cfg.pri with sequences := seqs }
    if created then
      match checkDetection cfg.rule seqs with
      | some _ => (pools, { cfg with pri }, true)
      | none =>
        let (pools, pri) := pulseQueueEnqueue k pools pri pulse.ts
        (pools, { cfg with pri }, false)
    else
      let (pools, pri) := priDetectorReset pools pri pulse.ts
      (pools, { cfg with pri }, false)

end Skw
