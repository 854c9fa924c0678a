import Skw.Dfs.Burst

/-! Radar bursts are detected. The detector of the burst's rule may be any of the region's, and the
ones before it may report a radar earlier; until then every one of them sees every pulse. -/
namespace Skw

theorem mem_addPulseLoop {k : Kmalloc} {reset : Bool} {pulse : PulseInfo} {pools : DfsPools}
    {cfgs : List RadarCfg} {cfg : RadarCfg} (hcfg : cfg ∈ cfgs)
    (hno : (addPulseLoop k reset pulse pools cfgs).2.2 = false) :
    ∃ pools', (cfgAddPulse k reset pulse pools' cfg).2.2 = false ∧
      (cfgAddPulse k reset pulse pools' cfg).2.1 ∈ (addPulseLoop k reset pulse pools cfgs).2.1 := by
  induction cfgs generalizing pools with
  | nil => cases hcfg
  | cons c cfgs ih =>
    rw [addPulseLoop] at hno ⊢
    dsimp only at hno ⊢
    split_ifs at hno ⊢ with hc
    rcases List.mem_cons.mp hcfg with rfl | hcfg
    · exact ⟨pools, Bool.eq_false_of_not_eq_true hc, List.mem_cons_self⟩
    · obtain ⟨pools', hno', hmem⟩ := ih hcfg hno
      exact ⟨pools', hno', List.mem_cons_of_mem _ hmem⟩

namespace RadarRule.Burst
variable {rule : RadarRule} {first interval : ℕ} {p : PulseInfo} {ps : List PulseInfo}

/-- The rest of a burst is a burst that begins later. -/
theorem tail (h : rule.Burst first interval (p :: ps)) :
    rule.Burst (first + interval) interval ps := by
  obtain ⟨hnext, hspaced⟩ := List.isChain_cons.mp h.spaced
  have hp := h.starts p rfl
  refine ⟨h.tolerance_le.trans (Nat.le_add_right _ _), h.priMin_le, h.le_priMax, fun q hq => ?_,
    hspaced, fun q hq => h.width q (List.mem_cons_of_mem _ hq),
    fun q hq => h.chirp q (List.mem_cons_of_mem _ hq)⟩
  rw [hnext q hq, hp]

theorem take (h : rule.Burst first interval ps) (n : ℕ) :
    rule.Burst first interval (ps.take n) := by
  refine ⟨h.tolerance_le, h.priMin_le, h.le_priMax, fun p hp => ?_, h.spaced.take n,
    fun p hp => h.width p (List.mem_of_mem_take hp),
    fun p hp => h.chirp p (List.mem_of_mem_take hp)⟩
  cases ps with
  | nil => cases n <;> cases hp
  | cons q ps =>
    cases n with
    | zero => cases hp
    | succ n => exact h.starts p hp

end RadarRule.Burst

namespace Dfs
variable {s : Dfs} {rule : RadarRule} {first interval : ℕ} {es : List (IfaceId × PulseInfo)}

theorem take_verdicts (k : Kmalloc) (n : ℕ) :
    (verdicts k s es).take n = verdicts k s (es.take n) := by
  induction es generalizing s n with
  | nil => rw [List.take_nil, verdicts, List.take_nil]
  | cons e es ih =>
    cases n with
    | zero => rfl
    | succ n =>
      rw [verdicts, List.take_succ_cons, List.take_succ_cons, verdicts, ih]

theorem exists_info {cfg : RadarCfg} (h : cfg ∈ s.cfgs) :
    ∃ i, s.info = some i ∧ i < s.infos.length := by
  unfold cfgs at h
  cases hi : s.info with
  | none =>
    rw [hi] at h
    cases h
  | some i =>
    refine ⟨i, rfl, Nat.lt_of_not_le fun hle => ?_⟩
    rw [hi, Option.bind_some, List.getElem?_eq_none hle] at h
    cases h

/-- The pulses from the next one on, after the first `n`. -/
theorem true_mem_verdicts {S : ℕ → List PriSequence → Prop} {n i : ℕ}
    (hS : BurstInvariant rule first interval S) (hi : rule.Interval interval)
    (hinfo : s.info = some i) (hlen : i < s.infos.length)
    (hcfg : ∃ cfg ∈ s.cfgs, Listening rule first interval n cfg ∧ S n cfg.pri.sequences)
    (hlast : s.lastPulseTs ≤ first + n * interval)
    (hflags : ∀ e ∈ es, (s.ifaceFlags e.1).Any)
    (hb : rule.Burst (first + n * interval) interval (es.map (·.2)))
    (hes : n + es.length = rule.burstLen) (hn : n < rule.burstLen) :
    true ∈ verdicts .always s es := by
  induction es generalizing s n with
  | nil => exact absurd hes hn.ne
  | cons e es ih =>
    obtain ⟨cfg, hmem, hlisten, hs⟩ := hcfg
    obtain ⟨hflag, hflags⟩ := List.forall_mem_cons.mp hflags
    have hts : e.2.ts = first + n * interval := hb.starts e.2 rfl
    have hreset : decide (e.2.ts < s.lastPulseTs) = false := by
      rw [decide_eq_false_iff_not]
      omega
    have hadd := @addPulse_of_any .always s e.1 e.2 i hinfo hflag
    rw [hreset] at hadd
    dsimp only at hadd
    rw [verdicts, hadd]
    cases hradar : (addPulseLoop .always false e.2 s.pools s.cfgs).2.2 with
    | true => exact List.mem_cons_self
    | false =>
      obtain ⟨pools', hno, hmem'⟩ := mem_addPulseLoop hmem hradar
      obtain ⟨hn', hlisten', hs'⟩ := hS.listening_step hi hn hlisten hs hts
        (hb.width e.2 List.mem_cons_self) (hb.chirp e.2 List.mem_cons_self) hno
      rw [if_neg Bool.false_ne_true]
      refine List.mem_cons_of_mem _ (ih hinfo ?_ ⟨_, ?_, hlisten', hs'⟩ ?_ hflags ?_ ?_ hn')
      · rwa [List.length_set]
      · rw [cfgs_set _ _ _ hinfo hlen]
        exact hmem'
      · change e.2.ts ≤ _
        rw [hts]
        exact Nat.add_le_add_left (Nat.mul_le_mul_right _ n.le_succ) _
      · rw [Nat.add_mul, Nat.one_mul, ← Nat.add_assoc]
        exact hb.tail
      · rw [← hes, List.length_cons]
        omega

/-- A burst of a rule of the region in use is a radar with the pulse that reaches the threshold, at
the latest. It may end where a deadline is past the range of the timestamps, as long as its spacing
does not drift too far from the interval of the sequence until then. -/
theorem burst_detected {rules : List RadarRule} (hrules : rules ∈ skwRadarRules)
    (hrule : rule ∈ rules) (hs : s.cfgs = rules.map RadarRule.detector)
    (hlast : s.lastPulseTs ≤ first) (hflags : ∀ e ∈ es, (s.ifaceFlags e.1).Any)
    (hb : rule.Burst first interval (es.map (·.2)))
    (hend : first + rule.burstDur interval < 2 ^ 64 ∨
      (rule.burstLen - 1) * rule.drift interval ≤ SKW_PRI_TOLERANCE)
    (hlen : rule.burstLen ≤ es.length) :
    true ∈ (verdicts .always s es).take rule.burstLen := by
  have hi : rule.Interval interval :=
    ⟨RadarRule.roomy_of_mem_rules rules hrules rule hrule, hb.priMin_le, hb.le_priMax⟩
  have htwo : 2 ≤ rule.burstLen := le_max_left _ _
  obtain ⟨S, hS⟩ : ∃ S, BurstInvariant rule first interval S := by
    by_cases hfits : first + rule.burstDur interval < 2 ^ 64
    · exact ⟨_, burstInvariant_of_fits hi hfits⟩
    · exact ⟨_, burstInvariant_of_late hi (Nat.le_of_not_lt hfits) (hend.resolve_left hfits)⟩
  have hcfg : rule.detector ∈ s.cfgs := by
    rw [hs]
    exact List.mem_map_of_mem hrule
  obtain ⟨i, hinfo, hinfos⟩ := exists_info hcfg
  have hfirst : first < 2 ^ 64 := by
    cases hpulses : es.map (·.2) with
    | nil =>
      rw [List.map_eq_nil_iff.mp hpulses, List.length_nil] at hlen
      omega
    | cons p ps => exact hb.starts p (by rw [hpulses]; rfl) ▸ p.ts_lt
  rw [take_verdicts]
  have hzero : 0 < rule.burstLen := by omega
  refine true_mem_verdicts hS hi hinfo hinfos
    ⟨_, hcfg, listening_detector hb.tolerance_le hfirst, hS.start⟩ ?_
    (fun e he => hflags e (List.mem_of_mem_take he)) ?_ ?_ hzero
  · omega
  · rw [Nat.zero_mul, Nat.add_zero, List.map_take]
    exact hb.take _
  · rw [List.length_take]
    omega

end Dfs

/-- The channel of an interface is checked under the FCC rules. -/
def fccChannel : Dfs :=
  ((({ Dfs.start 1 with fwEnabled := true } : Dfs).chanInit ⟨1, 0⟩).1).startCac 0 true

/-- Pulses of one kind with one spacing. -/
def evenPulses (first interval n width : ℕ) (chirp : Bool) : List (IfaceId × PulseInfo) :=
  (List.range n).map fun j =>
    (0, ⟨(first + j * interval) % 2 ^ 64, width, chirp, Nat.mod_lt _ (by decide)⟩)

theorem chirps_detected :
    true ∈ (Dfs.verdicts .always fccChannel (evenPulses 100 1000 3 60 true)).take
      (skwFccPattern 5 50 100 1000 2000 1 1 true).burstLen :=
  @Dfs.burst_detected fccChannel (skwFccPattern 5 50 100 1000 2000 1 1 true) 100 1000
    (evenPulses 100 1000 3 60 true) skwRadarFcc (by decide) (by decide) rfl (by decide) (by decide)
    ⟨by decide, by decide, by decide, by decide, by decide, by decide, by decide⟩
    (.inl (by decide)) (by decide)

/-- A burst of the rule for 1428, in the last twelve milliseconds of the timestamps: the sequence of
its first two pulses is over at once, and its spacing drifts too far for a later one. -/
theorem lastPulses_undetected :
    let rule := skwFccPattern 0 0 1 1428 1428 1 18 false
    let es := evenPulses (2 ^ 64 - 12000) 1444 9 1 false
    rule ∈ skwRadarFcc ∧ fccChannel.cfgs = skwRadarFcc.map RadarRule.detector ∧
      fccChannel.lastPulseTs = 0 ∧ (∀ e ∈ es, (fccChannel.ifaceFlags e.1).Any) ∧
      rule.Burst (2 ^ 64 - 12000) 1444 (es.map (·.2)) ∧ rule.burstLen ≤ es.length ∧
      true ∉ (Dfs.verdicts .always fccChannel es).take rule.burstLen := by
  refine ⟨by decide, rfl, rfl, by decide, ?_, by decide, by decide +kernel⟩
  exact ⟨by decide, by decide, by decide, by decide, by decide, by decide, by decide⟩

end Skw
