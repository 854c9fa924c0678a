import Mathlib.Data.List.Chain
import Mathlib.Tactic.Ring
import Skw.Dfs.Sequence

/-! The bursts of a radar. A detector that hears nothing else counts every pulse of a burst of its
rule, either in the sequence of the first two pulses or, where the deadlines are past the end of the
timestamps' range, in the one that each pulse makes with all before it. -/
namespace Skw

namespace RadarRule
variable (rule : RadarRule)

/-- The pulse of a burst with which it is a radar at the latest. -/
def burstLen : ℕ := max 2 rule.ppbThresh

/-- The duration of the sequences of pulses with some interval. -/
def burstDur (interval : ℕ) : ℕ :=
  priToUse rule interval * (rule.ppb - 1) + 2 * rule.maxPriTolerance

/-- How far an interval is from the one that a sequence has. -/
def drift (interval : ℕ) : ℕ :=
  (interval - priToUse rule interval) + (priToUse rule interval - interval)

/-- The detector of a channel that was initialised, before any pulse. -/
def detector : RadarCfg :=
  ⟨rule, ⟨0, rule.priMax * rule.ppb * rule.nrPri, 0, rule.ppb * 2, [], []⟩⟩

/-- Pulses with one spacing between the rule's intervals, and that match the rule. -/
structure Burst (first interval : ℕ) (pulses : List PulseInfo) : Prop where
  tolerance_le : rule.maxPriTolerance ≤ first
  priMin_le : rule.priMin ≤ interval
  le_priMax : interval ≤ rule.priMax
  starts : ∀ p ∈ pulses.head?, p.ts = first
  spaced : pulses.IsChain fun p q => q.ts = p.ts + interval
  width : ∀ p ∈ pulses, rule.widthMin ≤ p.width ∧ p.width ≤ rule.widthMax
  chirp : ∀ p ∈ pulses, rule.chirp = true → p.chirp = true

/-- What the tables have: a threshold that is reached before the sequence is over, and a detector
with room for the pulses until then. -/
def Roomy (r : RadarRule) : Prop :=
  r.Fits ∧ 2 * SKW_PRI_TOLERANCE < r.priMin ∧ 0 < r.nrPri ∧
    (2 < r.ppbThresh → r.ppbThresh ≤ r.ppb) ∧
      (r.priMin + SKW_PRI_TOLERANCE = r.priMax - SKW_PRI_TOLERANCE → 2 < r.ppbThresh →
        (r.ppbThresh - 1) * r.priMax ≤
          (r.priMin + SKW_PRI_TOLERANCE) * (r.ppb - 1) + 2 * SKW_PRI_TOLERANCE)

instance decidableRoomy : DecidablePred Roomy := fun r => by
  unfold Roomy; infer_instance

theorem roomy_of_mem_rules : ∀ rules ∈ skwRadarRules, ∀ r ∈ rules, r.Roomy := by decide

/-- An interval of the rule. -/
structure Interval (rule : RadarRule) (interval : ℕ) : Prop where
  roomy : rule.Roomy
  priMin_le : rule.priMin ≤ interval
  le_priMax : interval ≤ rule.priMax

namespace Interval
variable {rule} {interval n : ℕ} (h : rule.Interval interval)
include h

theorem tolerance_eq : rule.maxPriTolerance = SKW_PRI_TOLERANCE := h.roomy.1.2.2.2.2.2.2

theorem lt_two_pow : interval < 2 ^ 16 := h.le_priMax.trans_lt h.roomy.1.2.1

theorem tolerance_lt : 2 * SKW_PRI_TOLERANCE < interval := h.roomy.2.1.trans_le h.priMin_le

/-- A rule with a single interval uses that one, any other the interval itself. -/
theorem priToUse_cases :
    rule.priMin + SKW_PRI_TOLERANCE = rule.priMax - SKW_PRI_TOLERANCE ∧
        priToUse rule interval = rule.priMin + SKW_PRI_TOLERANCE ∨
      rule.priMin + SKW_PRI_TOLERANCE ≠ rule.priMax - SKW_PRI_TOLERANCE ∧
        priToUse rule interval = interval := by
  have hlt := h.lt_two_pow
  unfold priToUse
  split_ifs with hsingle
  · exact .inl ⟨hsingle, rfl⟩
  · exact .inr ⟨hsingle, Nat.mod_eq_of_lt (by omega)⟩

theorem drift_le : rule.drift interval ≤ SKW_PRI_TOLERANCE := by
  have hge := h.priMin_le
  have hle := h.le_priMax
  unfold drift
  rcases h.priToUse_cases with ⟨hsingle, hpri⟩ | ⟨-, hpri⟩
  · rw [hpri]
    omega
  · rw [hpri]
    omega

theorem tolerance_lt_pri : 2 * SKW_PRI_TOLERANCE < priToUse rule interval := by
  have hmin := h.roomy.2.1
  have hlt := h.tolerance_lt
  rcases h.priToUse_cases with ⟨-, hpri⟩ | ⟨-, hpri⟩
  · omega
  · omega

theorem burstDur_lt : rule.burstDur interval < 2 ^ 32 := by
  obtain ⟨-, hmax, -, -, hppb, -, htol⟩ := h.roomy.1
  have hpri : priToUse rule interval ≤ 2 ^ 16 := by
    have hle := h.le_priMax
    rcases h.priToUse_cases with ⟨hsingle, hpri⟩ | ⟨-, hpri⟩
    · omega
    · omega
  have hmul : priToUse rule interval * (rule.ppb - 1) ≤ 2 ^ 16 * 2 ^ 8 :=
    Nat.mul_le_mul hpri (by omega)
  have htol : rule.maxPriTolerance = 16 := htol
  unfold burstDur
  omega

/-- A burst is in its sequence's duration until it is a radar. -/
theorem mul_le_burstDur (htwo : 2 ≤ n) (hn : n < rule.burstLen) :
    n * interval ≤ rule.burstDur interval := by
  obtain ⟨-, -, -, hppb, hsingle⟩ := h.roomy
  unfold burstLen at hn
  have hthresh : 2 < rule.ppbThresh := by omega
  unfold burstDur
  rw [h.tolerance_eq]
  rcases h.priToUse_cases with ⟨hone, hpri⟩ | ⟨-, hpri⟩
  · rw [hpri]
    exact (Nat.mul_le_mul (by omega) h.le_priMax).trans (hsingle hone hthresh)
  · have hle : n * interval ≤ (rule.ppb - 1) * interval :=
      Nat.mul_le_mul_right _ (by have := hppb hthresh; omega)
    rw [hpri, Nat.mul_comm interval]
    omega

/-- And in the window of the pulses. -/
theorem mul_le_window (hn : n + 1 < rule.burstLen) :
    n * interval ≤ rule.priMax * rule.ppb * rule.nrPri := by
  obtain ⟨hfits, -, hnr, hppb, -⟩ := h.roomy
  have hpos : 0 < rule.ppb := hfits.2.2.2.1
  unfold burstLen at hn
  have hle : n ≤ rule.ppb := by
    by_cases hthresh : 2 < rule.ppbThresh
    · have := hppb hthresh
      omega
    · omega
  calc n * interval ≤ rule.ppb * rule.priMax := Nat.mul_le_mul hle h.le_priMax
    _ = rule.priMax * rule.ppb * 1 := by rw [Nat.mul_one, Nat.mul_comm]
    _ ≤ rule.priMax * rule.ppb * rule.nrPri := Nat.mul_le_mul_left _ hnr

theorem burstLen_le : rule.burstLen ≤ rule.ppb * 2 := by
  obtain ⟨hfits, -, -, hppb, -⟩ := h.roomy
  have hpos : 0 < rule.ppb := hfits.2.2.2.1
  unfold burstLen
  by_cases hthresh : 2 < rule.ppbThresh
  · have := hppb hthresh
    omega
  · omega

/-- The timestamps of a burst are near. -/
theorem mul_lt (hn : n < rule.burstLen) : n * interval < 2 ^ 32 := by
  have hthresh : rule.ppbThresh < 2 ^ 8 := h.roomy.1.2.2.2.2.2.1
  unfold burstLen at hn
  calc n * interval ≤ 2 ^ 8 * 2 ^ 16 := Nat.mul_le_mul (by omega) h.lt_two_pow.le
    _ < 2 ^ 32 := by decide

/-- A longer interval has a longer duration. -/
theorem burstDur_mono {other : ℕ} (h' : rule.Interval other) (hle : interval ≤ other) :
    rule.burstDur interval ≤ rule.burstDur other := by
  have hpri : priToUse rule interval ≤ priToUse rule other := by
    rcases h.priToUse_cases with ⟨hsingle, hpri⟩ | ⟨hsingle, hpri⟩
    · rcases h'.priToUse_cases with ⟨-, hpri'⟩ | ⟨hsingle', -⟩
      · rw [hpri, hpri']
      · exact absurd hsingle hsingle'
    · rcases h'.priToUse_cases with ⟨hsingle', -⟩ | ⟨-, hpri'⟩
      · exact absurd hsingle' hsingle
      · rwa [hpri, hpri']
  exact Nat.add_le_add_right (Nat.mul_le_mul_right _ hpri) _

/-- A multiple of the interval is one of the sequence's interval, as long as the drift is within the
tolerance. -/
theorem multiple_pos (hn : 0 < n) (hdrift : n * rule.drift interval ≤ SKW_PRI_TOLERANCE) :
    0 < pdeGetMultiple (n * interval) (priToUse rule interval) rule.maxPriTolerance := by
  have hpri := h.tolerance_lt_pri
  have hmul : n * rule.drift interval =
      (n * interval - n * priToUse rule interval) +
        (n * priToUse rule interval - n * interval) := by
    rw [drift, Nat.mul_add, Nat.mul_sub, Nat.mul_sub]
  rw [h.tolerance_eq]
  exact pdeGetMultiple_pos hn hpri (by omega) (by omega)

end Interval
end RadarRule

/-- The timestamps of the first pulses of a burst, the newest first. -/
def burstTs (first interval : ℕ) : ℕ → List ℕ
  | 0 => []
  | n + 1 => (first + n * interval) :: burstTs first interval n

theorem mem_burstTs {first interval n ts : ℕ} (h : ts ∈ burstTs first interval n) :
    ∃ j < n, ts = first + j * interval := by
  induction n with
  | zero => cases h
  | succ n ih =>
    rcases List.mem_cons.mp h with rfl | h
    · exact ⟨n, n.lt_succ_self, rfl⟩
    · obtain ⟨j, hj, hts⟩ := ih h
      exact ⟨j, hj.trans n.lt_succ_self, hts⟩

/-- A detector that has all of the first `n` pulses of a burst and takes the next one. -/
structure Listening (rule : RadarRule) (first interval n : ℕ) (cfg : RadarCfg) : Prop where
  rule_eq : cfg.rule = rule
  window_eq : cfg.pri.windowSize = rule.priMax * rule.ppb * rule.nrPri
  max_eq : cfg.pri.maxCount = rule.ppb * 2
  count_eq : cfg.pri.count = n
  pulses_eq : cfg.pri.pulses.map (·.ts) = burstTs first interval n
  ready : rule.maxPriTolerance ≤ tsSub (first + n * interval) cfg.pri.lastTs

/-- The sequences of a detector at a pulse. -/
def RadarCfg.sequencesAt (cfg : RadarCfg) (pools : DfsPools) (ts : ℕ) : List PriSequence :=
  let r := addToExistingSeqs cfg.rule ts pools 0 cfg.pri.sequences
  (createSequences .always cfg.rule ts r.2.2 r.1 r.2.1 cfg.pri.pulses).2.1

/-- Predicates on the sequences after the first pulses of a burst that make it a radar. -/
structure BurstInvariant (rule : RadarRule) (first interval : ℕ)
    (S : ℕ → List PriSequence → Prop) : Prop where
  start : S 0 []
  step : ∀ {n cfg} pools, n < rule.burstLen → first + n * interval < 2 ^ 64 →
    Listening rule first interval n cfg → S n cfg.pri.sequences →
      S (n + 1) (cfg.sequencesAt pools (first + n * interval))
  radar : ∀ {seqs}, S rule.burstLen seqs → (checkDetection rule seqs).isSome

section
variable {rule : RadarRule} {first interval n : ℕ} {cfg : RadarCfg} {pools : DfsPools}
  {pulse : PulseInfo}

theorem listening_detector (hfirst : rule.maxPriTolerance ≤ first) (hlt : first < 2 ^ 64) :
    Listening rule first interval 0 rule.detector := by
  refine ⟨rfl, rfl, rfl, rfl, rfl, ?_⟩
  have hts : tsSub (first + 0 * interval) 0 = first := by
    unfold tsSub
    omega
  change rule.maxPriTolerance ≤ tsSub (first + 0 * interval) 0
  rwa [hts]

/-- What a pulse that is not refused does. -/
theorem cfgAddPulse_eq (pools : DfsPools)
    (hwidth : cfg.rule.widthMin ≤ pulse.width ∧ pulse.width ≤ cfg.rule.widthMax)
    (hchirp : cfg.rule.chirp = true → pulse.chirp = true)
    (hready : cfg.rule.maxPriTolerance ≤ tsSub pulse.ts cfg.pri.lastTs) :
    ∃ pools', (cfgAddPulse .always false pulse pools cfg).2 =
      if (checkDetection cfg.rule (cfg.sequencesAt pools pulse.ts)).isSome then
        ({ cfg with pri := { cfg.pri with sequences := cfg.sequencesAt pools pulse.ts } }, true)
      else
        ({ cfg with pri := (pulseQueueEnqueue .always pools'
          { cfg.pri with sequences := cfg.sequencesAt pools pulse.ts } pulse.ts).2 }, false) := by
  have hc : ¬(cfg.rule.chirp = true ∧ cfg.rule.chirp ≠ pulse.chirp) := by
    rintro ⟨hr, hne⟩
    exact hne (by rw [hr, hchirp hr])
  let r := addToExistingSeqs cfg.rule pulse.ts pools 0 cfg.pri.sequences
  refine ⟨(createSequences .always cfg.rule pulse.ts r.2.2 r.1 r.2.1 cfg.pri.pulses).1, ?_⟩
  rw [cfgAddPulse, if_neg Bool.false_ne_true, if_neg (by omega), if_neg hc, if_neg (by omega)]
  dsimp only
  rw [if_pos createSequences_always]
  unfold RadarCfg.sequencesAt
  dsimp only
  cases checkDetection cfg.rule (createSequences .always cfg.rule pulse.ts r.2.2 r.1 r.2.1
      cfg.pri.pulses).2.1 with
  | none => rfl
  | some ps => rfl

theorem tsSub_add (b : ℕ) {d : ℕ} (hd : d < 2 ^ 64) : tsSub (b + d) b = d := by
  unfold tsSub
  omega

/-- After a pulse that is not a radar, the detector has one pulse more. -/
theorem BurstInvariant.listening_step {S : ℕ → List PriSequence → Prop}
    (hS : BurstInvariant rule first interval S) (hi : rule.Interval interval)
    (hn : n < rule.burstLen) (h : Listening rule first interval n cfg)
    (hs : S n cfg.pri.sequences) (hts : pulse.ts = first + n * interval)
    (hwidth : rule.widthMin ≤ pulse.width ∧ pulse.width ≤ rule.widthMax)
    (hchirp : rule.chirp = true → pulse.chirp = true)
    (hno : (cfgAddPulse .always false pulse pools cfg).2.2 = false) :
    let cfg' := (cfgAddPulse .always false pulse pools cfg).2.1
    n + 1 < rule.burstLen ∧ Listening rule first interval (n + 1) cfg' ∧
      S (n + 1) cfg'.pri.sequences := by
  obtain ⟨hrule, hwindow, hmax, hcount, hpulses, hready⟩ := h
  have hstep := hS.step pools hn (hts ▸ pulse.ts_lt)
    ⟨hrule, hwindow, hmax, hcount, hpulses, hready⟩ hs
  rw [← hts] at hstep hready
  rw [← hrule] at hwidth hchirp hready
  obtain ⟨pools', heq⟩ := cfgAddPulse_eq pools hwidth hchirp hready
  by_cases hd : (checkDetection cfg.rule (cfg.sequencesAt pools pulse.ts)).isSome
  · rw [heq, if_pos hd] at hno
    cases hno
  rw [if_neg hd] at heq
  have hlt : n + 1 < rule.burstLen := by
    refine lt_of_le_of_ne hn fun hlast => hd ?_
    rw [hrule]
    exact hS.radar (hlast ▸ hstep)
  have hroom : ∀ p ∈ cfg.pri.pulses, pulse.ts ≤ p.ts + cfg.pri.windowSize := by
    intro p hp
    obtain ⟨j, -, hj⟩ := mem_burstTs (hpulses ▸ List.mem_map_of_mem hp)
    have := hi.mul_le_window hlt
    omega
  have hcount' : cfg.pri.count + 1 < cfg.pri.maxCount := by
    have := hi.burstLen_le
    omega
  let pri : PriDetector := { cfg.pri with sequences := cfg.sequencesAt pools pulse.ts }
  obtain ⟨addr, hq⟩ := @enqueue_always pulse.ts pools' pri hroom hcount'
  rw [hq] at heq
  dsimp only
  rw [heq]
  refine ⟨hlt, ⟨hrule, hwindow, hmax, congrArg (· + 1) hcount, ?_, ?_⟩, hstep⟩
  · change pulse.ts :: cfg.pri.pulses.map (·.ts) = _
    rw [hpulses, hts, burstTs]
  · have hlast : tsSub (first + (n + 1) * interval) pulse.ts = interval := by
      have := hi.lt_two_pow
      rw [hts, Nat.add_mul, Nat.one_mul, ← Nat.add_assoc]
      exact tsSub_add _ (by omega)
    change rule.maxPriTolerance ≤ tsSub (first + (n + 1) * interval) pulse.ts
    have := hi.tolerance_lt
    rw [hlast, hi.tolerance_eq]
    omega

/-- The distance from a pulse of the burst to an older one. -/
theorem delta_eq (hi : rule.Interval interval) (hn : n < rule.burstLen) {j : ℕ} (hj : j ≤ n) :
    u32 (tsSub (first + n * interval) (first + j * interval)) = (n - j) * interval := by
  obtain ⟨d, rfl⟩ := Nat.exists_eq_add_of_le hj
  have hlt : d * interval < 2 ^ 32 := hi.mul_lt (by omega)
  rw [Nat.add_mul, ← Nat.add_assoc, tsSub_add _ (by omega), Nat.add_sub_cancel_left]
  exact Nat.mod_eq_of_lt hlt

theorem pairSequence_pri (ts : ℕ) (p : PulseElem) :
    (pairSequence rule ts p).pri = priToUse rule (u32 (tsSub ts p.ts)) := by
  unfold pairSequence priToUse
  dsimp only
  rw [u32, u32, Nat.mod_mod]

theorem buildSequence_dur {ts : ℕ} {p : PulseElem} {older : List PulseElem}
    (hi : rule.Interval (u32 (tsSub ts p.ts))) :
    (buildSequence rule ts p older).dur = rule.burstDur (u32 (tsSub ts p.ts)) := by
  unfold buildSequence
  rw [dur_extendSequence]
  change u32 ((pairSequence rule ts p).pri * (rule.ppb - 1) + 2 * rule.maxPriTolerance) = _
  rw [pairSequence_pri]
  exact Nat.mod_eq_of_lt hi.burstDur_lt

/-- A sequence that has counted the pulses of a burst, and lasts for the rest. -/
structure Counts (rule : RadarRule) (first interval n : ℕ) (ps : PriSequence) : Prop where
  pri_eq : ps.pri = priToUse rule interval
  count_eq : ps.count = n
  falses_eq : ps.countFalses = 0
  lastTs_eq : ps.lastTs + interval = first + n * interval
  deadline_eq : ps.deadlineTs = first + rule.burstDur interval

/-- From the second pulse on there is such a sequence. -/
def Followed (rule : RadarRule) (first interval n : ℕ) (seqs : List PriSequence) : Prop :=
  (n ≤ 1 → seqs = []) ∧ (2 ≤ n → ∃ ps ∈ seqs, Counts rule first interval n ps)

/-- The sequence of the first two pulses. -/
theorem exists_counts_two (hi : rule.Interval interval)
    (hfits : first + rule.burstDur interval < 2 ^ 64) {p : PulseElem} (hp : p.ts = first) :
    ∃ ps ∈ (createSequences .always rule (first + 1 * interval) 0 pools [] [p]).2.1,
      Counts rule first interval 2 ps := by
  have hdelta : u32 (tsSub (first + 1 * interval) p.ts) = interval := by
    have hone : 1 < rule.burstLen := Nat.lt_of_lt_of_le (by decide) (le_max_left _ _)
    have hd := @delta_eq rule first interval 1 hi hone 0 (by omega)
    rw [Nat.zero_mul, Nat.add_zero, Nat.sub_zero] at hd
    rw [hp, hd, Nat.one_mul]
  have hdur := @buildSequence_dur rule (first + 1 * interval) p [] (hdelta.symm ▸ hi)
  rw [hdelta] at hdur
  obtain ⟨addr, hmem⟩ := @newSequence_mem_createSequences rule (first + 1 * interval) pools [] 0
    p [] (hdelta.symm ▸ hi.priMin_le) (hdelta.symm ▸ hi.le_priMax) (Nat.succ_pos 1)
  refine ⟨_, hmem, ?_, rfl, rfl, ?_, ?_⟩
  · change (pairSequence rule (first + 1 * interval) p).pri = _
    rw [pairSequence_pri, hdelta]
  · change first + 1 * interval + interval = first + 2 * interval
    omega
  · change tsAdd p.ts (buildSequence rule (first + 1 * interval) p []).dur = _
    rw [hdur, hp]
    exact Nat.mod_eq_of_lt hfits

/-- A sequence goes on with the next pulse of the burst. -/
theorem exists_counts_succ (hi : rule.Interval interval) (htwo : 2 ≤ n) (hn : n < rule.burstLen)
    {seqs : List PriSequence} {ps : PriSequence} (hps : ps ∈ seqs)
    (h : Counts rule first interval n ps) (pools : DfsPools) (maxCount : ℕ) :
    ∃ ps' ∈ (addToExistingSeqs rule (first + n * interval) pools maxCount seqs).2.1,
      Counts rule first interval (n + 1) ps' := by
  have hlt := hi.lt_two_pow
  have hdelta : u32 (tsSub (first + n * interval) ps.lastTs) = 1 * interval := by
    rw [← h.lastTs_eq, tsSub_add _ (by omega), Nat.one_mul]
    exact Nat.mod_eq_of_lt (by omega)
  have hmul : 0 < pdeGetMultiple (u32 (tsSub (first + n * interval) ps.lastTs)) ps.pri
      rule.maxPriTolerance := by
    rw [hdelta, h.pri_eq]
    exact hi.multiple_pos Nat.one_pos (by rw [Nat.one_mul]; exact hi.drift_le)
  have hdeadline : first + n * interval ≤ ps.deadlineTs := by
    rw [h.deadline_eq]
    exact Nat.add_le_add_left (hi.mul_le_burstDur htwo hn) _
  refine ⟨_, mem_addToExistingSeqs hps hdeadline hmul, h.pri_eq, congrArg (· + 1) h.count_eq,
    h.falses_eq, ?_, h.deadline_eq⟩
  change first + n * interval + interval = first + (n + 1) * interval
  rw [Nat.add_mul, Nat.one_mul, Nat.add_assoc]

/-- Where the deadline of the first two pulses fits, their sequence counts the rest. -/
theorem burstInvariant_of_fits (hi : rule.Interval interval)
    (hfits : first + rule.burstDur interval < 2 ^ 64) :
    BurstInvariant rule first interval (Followed rule first interval) := by
  refine ⟨⟨fun _ => rfl, nofun⟩, ?_, ?_⟩
  · rintro n cfg pools hn - ⟨hrule, -, -, -, hpulses, -⟩ ⟨hnil, hcounts⟩
    unfold RadarCfg.sequencesAt
    dsimp only
    rw [hrule]
    obtain rfl | rfl | htwo : n = 0 ∨ n = 1 ∨ 2 ≤ n := by omega
    · rw [hnil (by omega), List.map_eq_nil_iff.mp hpulses]
      exact ⟨fun _ => rfl, nofun⟩
    · obtain ⟨p, rest, hcfg, hp, hrest⟩ := List.map_eq_cons_iff.mp hpulses
      rw [Nat.zero_mul, Nat.add_zero] at hp
      rw [hnil le_rfl, hcfg, List.map_eq_nil_iff.mp hrest]
      exact ⟨by omega, fun _ => exists_counts_two hi hfits hp⟩
    · obtain ⟨ps, hps, hcount⟩ := hcounts htwo
      obtain ⟨ps', hps', hcount'⟩ := exists_counts_succ hi htwo hn hps hcount pools 0
      exact ⟨by omega, fun _ => ⟨ps', subset_createSequences hps', hcount'⟩⟩
  · rintro seqs ⟨-, hcounts⟩
    obtain ⟨ps, hps, hcount⟩ := hcounts (le_max_left _ _)
    refine checkDetection_isSome hps ?_ hcount.falses_eq
    rw [hcount.count_eq]
    exact le_max_right _ _

/-- The sequence of the newest pulse counts those before it, as far as the drift allows. -/
theorem extendSequence_burst (hi : rule.Interval interval) (hn : n < rule.burstLen)
    (hdrift : n * rule.drift interval ≤ SKW_PRI_TOLERANCE) {minValidTs : ℕ}
    (hmin : minValidTs ≤ first) {m : ℕ} (hm : m < n) {older : List PulseElem}
    (holder : older.map (·.ts) = burstTs first interval m) {ps : PriSequence}
    (hlast : ps.lastTs = first + n * interval) (hpri : ps.pri = priToUse rule interval) :
    (extendSequence rule minValidTs ps 0 older).count = ps.count + m ∧
      (extendSequence rule minValidTs ps 0 older).countFalses = ps.countFalses := by
  induction m generalizing older ps with
  | zero =>
    rw [List.map_eq_nil_iff.mp holder]
    exact ⟨rfl, rfl⟩
  | succ m ih =>
    obtain ⟨p, rest, rfl, hp, hrest⟩ := List.map_eq_cons_iff.mp holder
    have hdelta : u32 (tsSub ps.lastTs p.ts) = (n - m) * interval := by
      rw [hlast, hp]
      exact delta_eq hi hn (by omega)
    have hmul : 0 < pdeGetMultiple (u32 (tsSub ps.lastTs p.ts)) ps.pri rule.maxPriTolerance := by
      rw [hdelta, hpri]
      refine hi.multiple_pos (by omega) (le_trans ?_ hdrift)
      exact Nat.mul_le_mul_right _ (Nat.sub_le _ _)
    rw [extendSequence, if_neg (by omega), if_pos hmul]
    obtain ⟨hcount, hfalses⟩ := @ih (by omega) rest hrest { ps with
      count := ps.count + 1, firstTs := p.ts, countFalses := ps.countFalses + 0 } hlast hpri
    exact ⟨hcount.trans (Nat.add_right_comm ..), hfalses⟩

theorem buildSequence_burst (hi : rule.Interval interval) (hn : n + 1 < rule.burstLen)
    (hdrift : (n + 1) * rule.drift interval ≤ SKW_PRI_TOLERANCE)
    (hlate : 2 ^ 64 ≤ first + rule.burstDur interval)
    (hlt : first + (n + 1) * interval < 2 ^ 64) {p : PulseElem} {older : List PulseElem}
    (hdelta : u32 (tsSub (first + (n + 1) * interval) p.ts) = interval)
    (holder : older.map (·.ts) = burstTs first interval n) :
    let ps := buildSequence rule (first + (n + 1) * interval) p older
    ps.count = n + 2 ∧ ps.countFalses = 0 := by
  have hdur := @buildSequence_dur rule (first + (n + 1) * interval) p [] (hdelta.symm ▸ hi)
  have hpri := @pairSequence_pri rule (first + (n + 1) * interval) p
  rw [hdelta] at hdur hpri
  obtain rfl | hpos := Nat.eq_zero_or_pos n
  · rw [List.map_eq_nil_iff.mp holder]
    exact ⟨rfl, rfl⟩
  have hmin : tsSub (first + (n + 1) * interval)
      (pairSequence rule (first + (n + 1) * interval) p).dur ≤ first := by
    have hle := hi.mul_le_burstDur (by omega) hn
    have hsmall := hi.burstDur_lt
    change (pairSequence rule (first + (n + 1) * interval) p).dur = _ at hdur
    rw [hdur, tsSub]
    omega
  obtain ⟨hcount, hfalses⟩ := extendSequence_burst hi hn hdrift hmin (Nat.lt_succ_self n) holder
    rfl hpri
  exact ⟨hcount.trans (Nat.add_comm ..), hfalses⟩

/-- Every sequence is over at the next pulse, but one has counted all pulses. -/
def Lapsed (first n : ℕ) (seqs : List PriSequence) : Prop :=
  (∀ ps ∈ seqs, ps.deadlineTs < first) ∧
    (2 ≤ n → ∃ ps ∈ seqs, ps.count = n ∧ ps.countFalses = 0)

/-- A sequence whose deadline is past the end of the timestamps' range. -/
theorem deadline_newSequence_lt (hi : rule.Interval interval)
    (hlate : 2 ^ 64 ≤ first + rule.burstDur interval) {ts : ℕ} {p : PulseElem}
    {older : List PulseElem} (addr : ℕ) (hd : rule.Interval (u32 (tsSub ts p.ts)))
    (hle : interval ≤ u32 (tsSub ts p.ts))
    (hfirst : ∀ q ∈ p :: older, first ≤ q.ts ∧ q.ts < 2 ^ 64) :
    (newSequence rule ts p older addr).deadlineTs < first := by
  have hdur := hi.burstDur_mono hd hle
  have hlt := hd.burstDur_lt
  have hlt' := hi.burstDur_lt
  obtain ⟨hp, hfirst⟩ := List.forall_mem_cons.mp hfirst
  have hts : first ≤ (buildSequence rule ts p older).firstTs ∧
      (buildSequence rule ts p older).firstTs < 2 ^ 64 :=
    @firstTs_extendSequence rule older (fun t => first ≤ t ∧ t < 2 ^ 64) _
      (pairSequence rule ts p) 0 hp hfirst
  change tsAdd (buildSequence rule ts p older).firstTs (buildSequence rule ts p older).dur < first
  rw [buildSequence_dur hd, tsAdd]
  omega

/-- Where that deadline does not fit, the newest pulse is counted with all before it. -/
theorem burstInvariant_of_late (hi : rule.Interval interval)
    (hlate : 2 ^ 64 ≤ first + rule.burstDur interval)
    (hdrift : (rule.burstLen - 1) * rule.drift interval ≤ SKW_PRI_TOLERANCE) :
    BurstInvariant rule first interval (Lapsed first) := by
  have hdur := hi.burstDur_lt
  refine ⟨⟨fun _ h => absurd h List.not_mem_nil, nofun⟩, ?_, ?_⟩
  · rintro n cfg pools hn hlt ⟨hrule, -, -, -, hpulses, -⟩ ⟨hover, -⟩
    have hseqs := @addToExistingSeqs_of_expired rule (first + n * interval) pools 0
      cfg.pri.sequences fun ps hps => (hover ps hps).trans_le (Nat.le_add_right _ _)
    unfold RadarCfg.sequencesAt
    dsimp only
    rw [hrule, hseqs]
    constructor
    · refine forall_createSequences (fun _ h => absurd h List.not_mem_nil) ?_
      intro p older addr hmem hmin hmax
      obtain ⟨j, hj, hp⟩ := mem_burstTs (hpulses ▸ List.mem_map_of_mem (hmem p List.mem_cons_self))
      refine deadline_newSequence_lt hi hlate addr ⟨hi.roomy, hmin, hmax⟩ ?_ ?_
      · rw [hp, delta_eq hi hn hj.le]
        exact Nat.le_mul_of_pos_left _ (by omega)
      · intro q hq
        obtain ⟨i, hi', hq⟩ := mem_burstTs (hpulses ▸ List.mem_map_of_mem (hmem q hq))
        have : i * interval ≤ n * interval := Nat.mul_le_mul_right _ hi'.le
        omega
    · intro htwo
      obtain ⟨m, rfl⟩ : ∃ m, n = m + 1 := ⟨n - 1, by omega⟩
      obtain ⟨p, older, hcfg, hp, holder⟩ := List.map_eq_cons_iff.mp hpulses
      have hdelta : u32 (tsSub (first + (m + 1) * interval) p.ts) = interval := by
        rw [hp, delta_eq hi hn (Nat.le_succ m), Nat.add_sub_cancel_left, Nat.one_mul]
      have hn' : (m + 1) * rule.drift interval ≤ SKW_PRI_TOLERANCE :=
        (Nat.mul_le_mul_right _ (by omega)).trans hdrift
      obtain ⟨hcount, hfalses⟩ := buildSequence_burst hi hn hn' hlate hlt hdelta holder
      rw [hcfg]
      obtain ⟨addr, hmem⟩ := @newSequence_mem_createSequences rule
        (first + (m + 1) * interval) (addToExistingSeqs rule (first + (m + 1) * interval) pools 0
          cfg.pri.sequences).1 [] 0 p older (hdelta.symm ▸ hi.priMin_le)
        (hdelta.symm ▸ hi.le_priMax) (by omega)
      exact ⟨_, hmem, hcount, hfalses⟩
  · rintro seqs ⟨-, hcounts⟩
    obtain ⟨ps, hps, hcount, hfalses⟩ := hcounts (le_max_left _ _)
    refine checkDetection_isSome hps ?_ hfalses
    rw [hcount]
    exact le_max_right _ _

end
end Skw
