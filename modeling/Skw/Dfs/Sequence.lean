import Skw.Dfs.Shift

/-! What the loops of the radar detection keep and add of a detector's sequences, and when a pulse
queue keeps all of its pulses. -/
namespace Skw

section
variable {rule : RadarRule} {ts : ℕ} {pools : DfsPools} {maxCount : ℕ} {seqs : List PriSequence}

/-- A value near a multiple of the interval is one. -/
theorem pdeGetMultiple_pos {val fraction tolerance j : ℕ} (hj : 0 < j)
    (hf : 2 * tolerance < fraction) (hle : val ≤ j * fraction + tolerance)
    (hge : j * fraction ≤ val + tolerance) : 0 < pdeGetMultiple val fraction tolerance := by
  unfold pdeGetMultiple
  dsimp only
  rw [if_neg (by omega : ¬fraction = 0)]
  generalize (if val < fraction then fraction - val else val - fraction) = delta
  by_cases hlt : val < j * fraction
  · -- just below: the remainder is within the tolerance of the interval
    obtain ⟨i, rfl⟩ := Nat.exists_eq_add_of_lt hj
    obtain ⟨r, hr⟩ : ∃ r, val = r + fraction * i := by
      refine ⟨val - fraction * i, ?_⟩
      rw [Nat.zero_add, Nat.add_mul, Nat.one_mul, Nat.mul_comm] at hge
      omega
    rw [Nat.zero_add, Nat.add_mul, Nat.one_mul, Nat.mul_comm] at hlt hge
    have hmod : val % fraction = r := by
      rw [hr, Nat.add_mul_mod_self_left, Nat.mod_eq_of_lt (by omega)]
    rw [hmod]
    split_ifs
    · exact Nat.one_pos
    · exact Nat.succ_pos _
    · omega
    · omega
  · obtain ⟨r, hr⟩ : ∃ r, val = r + fraction * j := by
      refine ⟨val - fraction * j, ?_⟩
      rw [Nat.mul_comm] at hlt
      omega
    rw [Nat.mul_comm] at hle
    have hmod : val % fraction = r := by
      rw [hr, Nat.add_mul_mod_self_left, Nat.mod_eq_of_lt (by omega)]
    have hdiv : val / fraction = j := by
      rw [hr, Nat.add_mul_div_left _ _ (by omega), Nat.div_eq_of_lt (by omega), Nat.zero_add]
    rw [hmod, hdiv, if_neg (by omega : ¬tolerance < r)]
    split_ifs
    · exact Nat.one_pos
    · exact hj

/-- A sequence that is not expired and that the pulse is a multiple of goes on. -/
theorem mem_addToExistingSeqs {ps : PriSequence} (hps : ps ∈ seqs) (hts : ts ≤ ps.deadlineTs)
    (hmul : 0 < pdeGetMultiple (u32 (tsSub ts ps.lastTs)) ps.pri rule.maxPriTolerance) :
    { ps with lastTs := ts, count := ps.count + 1 } ∈
      (addToExistingSeqs rule ts pools maxCount seqs).2.1 := by
  induction seqs generalizing pools maxCount with
  | nil => cases hps
  | cons q seqs ih =>
    rw [addToExistingSeqs]
    rcases List.mem_cons.mp hps with rfl | hps
    · rw [if_neg (by omega), if_pos hmul]
      exact List.mem_cons_self
    · split_ifs
      · exact ih hps
      · exact List.mem_cons_of_mem _ (ih hps)
      · exact List.mem_cons_of_mem _ (ih hps)

theorem addToExistingSeqs_of_expired (h : ∀ ps ∈ seqs, ps.deadlineTs < ts) :
    (addToExistingSeqs rule ts pools maxCount seqs).2 = ([], maxCount) := by
  induction seqs generalizing pools with
  | nil => rfl
  | cons ps seqs ih =>
    obtain ⟨hps, h⟩ := List.forall_mem_cons.mp h
    rw [addToExistingSeqs, if_pos hps, ih h]

/-- The sequence that is built for a pulse of the queue, as it is kept. -/
def newSequence (rule : RadarRule) (ts : ℕ) (p : PulseElem) (older : List PulseElem) (addr : ℕ) :
    PriSequence :=
  let ps := buildSequence rule ts p older
  { ps with addr, deadlineTs := tsAdd ps.firstTs ps.dur }

section
variable {minCount : ℕ} {pulses : List PulseElem}

theorem createSequences_always :
    (createSequences .always rule ts minCount pools seqs pulses).2.2 = true := by
  induction pulses generalizing pools seqs with
  | nil => rfl
  | cons p older ih =>
    obtain ⟨a, q, hget⟩ : ∃ a q, pools.pseq.get Kmalloc.always.pseq = (some a, q) :=
      pools.pseq.get_always
    rw [createSequences]
    dsimp only
    rw [hget]
    split_ifs
    · exact ih
    · rfl
    · exact ih
    · exact ih

theorem subset_createSequences {k : Kmalloc} :
    seqs ⊆ (createSequences k rule ts minCount pools seqs pulses).2.1 := by
  induction pulses generalizing pools seqs with
  | nil => exact List.Subset.refl _
  | cons p older ih =>
    rw [createSequences]
    dsimp only
    split_ifs
    · exact ih
    · exact List.Subset.refl _
    · exact ih
    · split
      · exact List.Subset.refl _
      · exact List.Subset.trans (List.subset_cons_self _ _) ih

/-- The sequence of the newest pulse is kept where it has enough pulses. -/
theorem newSequence_mem_createSequences {p : PulseElem} {older : List PulseElem}
    (hmin : rule.priMin ≤ u32 (tsSub ts p.ts)) (hmax : u32 (tsSub ts p.ts) ≤ rule.priMax)
    (hcount : minCount < (buildSequence rule ts p older).count) :
    ∃ addr, newSequence rule ts p older addr ∈
      (createSequences .always rule ts minCount pools seqs (p :: older)).2.1 := by
  obtain ⟨a, q, hget⟩ : ∃ a q, pools.pseq.get Kmalloc.always.pseq = (some a, q) :=
    pools.pseq.get_always
  refine ⟨a, ?_⟩
  rw [createSequences]
  dsimp only
  rw [if_neg (by omega), if_neg (by omega), if_neg (by omega), hget]
  exact subset_createSequences List.mem_cons_self

/-- What holds of the sequences and of those that are built holds of all. -/
theorem forall_createSequences {P : PriSequence → Prop} {k : Kmalloc} (hseqs : ∀ ps ∈ seqs, P ps)
    (hnew : ∀ p older addr, (∀ q ∈ p :: older, q ∈ pulses) →
      rule.priMin ≤ u32 (tsSub ts p.ts) → u32 (tsSub ts p.ts) ≤ rule.priMax →
        P (newSequence rule ts p older addr)) :
    ∀ ps ∈ (createSequences k rule ts minCount pools seqs pulses).2.1, P ps := by
  induction pulses generalizing pools seqs with
  | nil => exact hseqs
  | cons p older ih =>
    have hrest := fun {pools seqs} (h : ∀ ps ∈ seqs, P ps) =>
      @ih pools seqs h fun q rest addr hq =>
        hnew q rest addr fun r hr => List.mem_cons_of_mem _ (hq r hr)
    rw [createSequences]
    dsimp only
    split_ifs
    · exact hrest hseqs
    · exact hseqs
    · exact hrest hseqs
    · split
      · exact hseqs
      · refine hrest (List.forall_mem_cons.mpr ⟨?_, hseqs⟩)
        exact hnew p older _ (fun _ hq => hq) (by omega) (by omega)

end

theorem checkDetection_isSome {ps : PriSequence} (hps : ps ∈ seqs)
    (hcount : rule.ppbThresh ≤ ps.count) (hfalses : ps.countFalses = 0) :
    (checkDetection rule seqs).isSome := by
  rw [checkDetection, List.find?_isSome]
  refine ⟨ps, hps, ?_⟩
  rw [hfalses]
  simpa using hcount

/-- A queue keeps all pulses where none is too old and there is room for one more. -/
theorem enqueue_always (pools : DfsPools) {pde : PriDetector}
    (hwindow : ∀ p ∈ pde.pulses, ts ≤ p.ts + pde.windowSize)
    (hcount : pde.count + 1 < pde.maxCount) :
    ∃ addr, (pulseQueueEnqueue .always pools pde ts).2 =
      { pde with
        pulses := ⟨addr, ts⟩ :: pde.pulses, count := pde.count + 1, lastTs := ts } := by
  obtain ⟨a, q, hget⟩ : ∃ a q, pools.pulse.get Kmalloc.always.pulse = (some a, q) :=
    pools.pulse.get_always
  refine ⟨a, ?_⟩
  have hall : ∀ p ∈ (⟨a, ts⟩ : PulseElem) :: pde.pulses, ts - pde.windowSize ≤ p.ts := by
    refine List.forall_mem_cons.mpr ⟨Nat.sub_le _ _, fun p hp => ?_⟩
    have := hwindow p hp
    omega
  have hcheck : pulseQueueCheckWindow { pools with pulse := q }
      { pde with pulses := ⟨a, ts⟩ :: pde.pulses, count := pde.count + 1, lastTs := ts } =
      ({ pools with pulse := q },
        { pde with pulses := ⟨a, ts⟩ :: pde.pulses, count := pde.count + 1, lastTs := ts }) := by
    unfold pulseQueueCheckWindow
    split_ifs
    · rfl
    · rfl
    · exact checkWindowLoop_of_forall hall _
  rw [pulseQueueEnqueue, hget]
  dsimp only
  rw [hcheck]
  exact congrArg Prod.snd (if_neg (by dsimp only; omega))

end
end Skw
