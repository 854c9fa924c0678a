import Skw.Dfs.Channel

/-! No element of the pulse queues and of the sequences is lost: whatever leaves a list is in its
pool afterwards. -/
namespace Skw

/-- The two kinds of elements. -/
inductive DfsElem
  | pulse
  | pseq

def Kmalloc.of (k : Kmalloc) : DfsElem → ℕ → Bool
  | .pulse => k.pulse
  | .pseq => k.pseq

def DfsPools.of (pools : DfsPools) : DfsElem → Lib.Pool
  | .pulse => pools.pulse
  | .pseq => pools.pseq

/-- The elements in the lists of a detector. -/
def PriDetector.addrs (pde : PriDetector) : DfsElem → List ℕ
  | .pulse => pde.pulses.map (·.addr)
  | .pseq => pde.sequences.map (·.addr)

/-- A detector goes on, and the elements are in the pools or lists as before, whatever there is
beside it. -/
structure Conserves (k : Kmalloc) (pools : DfsPools) (pde : PriDetector) (pools' : DfsPools)
    (pde' : PriDetector) : Prop where
  balanced : ∀ b rest, (pools.of b).Balanced (k.of b) (pde.addrs b ++ rest) →
    (pools'.of b).Balanced (k.of b) (pde'.addrs b ++ rest)

section
variable {k : Kmalloc} {pools pools' pools'' : DfsPools} {pde pde' pde'' : PriDetector}

namespace Conserves

theorem refl (k : Kmalloc) (pools : DfsPools) (pde : PriDetector) :
    Conserves k pools pde pools pde := ⟨fun _ _ h => h⟩

theorem trans (h : Conserves k pools pde pools' pde') (h' : Conserves k pools' pde' pools'' pde'') :
    Conserves k pools pde pools'' pde'' :=
  ⟨fun b rest hb => h'.balanced b rest (h.balanced b rest hb)⟩

/-- Each of the kinds by itself. -/
theorem of_kinds
    (hpulse : ∀ rest, pools.pulse.Balanced k.pulse (pde.addrs .pulse ++ rest) →
      pools'.pulse.Balanced k.pulse (pde'.addrs .pulse ++ rest))
    (hpseq : ∀ rest, pools.pseq.Balanced k.pseq (pde.addrs .pseq ++ rest) →
      pools'.pseq.Balanced k.pseq (pde'.addrs .pseq ++ rest)) :
    Conserves k pools pde pools' pde' := by
  constructor
  intro b
  cases b with
  | pulse => exact hpulse
  | pseq => exact hpseq

/-- A sequence that stays where it is. -/
theorem cons {seqs seqs' : List PriSequence} {ps ps' : PriSequence} (ha : ps'.addr = ps.addr)
    (h : Conserves k pools { pde with sequences := seqs } pools' { pde with sequences := seqs' }) :
    Conserves k pools { pde with sequences := ps :: seqs } pools'
      { pde with sequences := ps' :: seqs' } := by
  apply of_kinds
  · exact h.balanced .pulse
  · intro rest hb
    have hb := h.balanced .pseq (ps.addr :: rest) (hb.perm List.perm_middle)
    apply hb.perm
    rw [← ha]
    exact List.perm_middle.symm

end Conserves

theorem dequeue_conserves (k : Kmalloc) (pools : DfsPools) (pde : PriDetector) :
    Conserves k pools pde (pulseQueueDequeue pools pde).1 (pulseQueueDequeue pools pde).2 := by
  unfold pulseQueueDequeue
  cases hl : pde.pulses.getLast? with
  | none => exact Conserves.refl k pools pde
  | some p =>
    apply Conserves.of_kinds
    · intro rest hb
      have hsplit : pde.pulses = pde.pulses.dropLast ++ [p] := by
        rw [List.dropLast_append_getLast? p hl]
      apply Lib.Pool.Balanced.put
      apply hb.perm
      change List.Perm (p.addr :: (pde.pulses.dropLast.map (·.addr) ++ rest))
        (pde.pulses.map (·.addr) ++ rest)
      conv_rhs => rw [hsplit]
      rw [List.map_append, List.append_assoc]
      exact List.perm_middle.symm
    · exact fun rest hb => hb

theorem checkWindowLoop_conserves (k : Kmalloc) (minValidTs fuel : ℕ) (pools : DfsPools)
    (pde : PriDetector) :
    Conserves k pools pde (checkWindowLoop minValidTs fuel pools pde).1
      (checkWindowLoop minValidTs fuel pools pde).2 := by
  induction fuel generalizing pools pde with
  | zero => exact Conserves.refl k pools pde
  | succ fuel ih =>
    rw [checkWindowLoop]
    cases pde.pulses.getLast? with
    | none => exact Conserves.refl k pools pde
    | some p =>
      dsimp only
      split_ifs
      · exact Conserves.refl k pools pde
      · exact (dequeue_conserves k pools pde).trans (ih _ _)

theorem checkWindow_conserves (k : Kmalloc) (pools : DfsPools) (pde : PriDetector) :
    Conserves k pools pde (pulseQueueCheckWindow pools pde).1 (pulseQueueCheckWindow pools pde).2 := by
  unfold pulseQueueCheckWindow
  split_ifs
  · exact Conserves.refl k pools pde
  · exact Conserves.refl k pools pde
  · exact checkWindowLoop_conserves ..

theorem enqueue_conserves (k : Kmalloc) (pools : DfsPools) (pde : PriDetector) (ts : ℕ) :
    Conserves k pools pde (pulseQueueEnqueue k pools pde ts).1
      (pulseQueueEnqueue k pools pde ts).2 := by
  unfold pulseQueueEnqueue
  rcases hg : pools.pulse.get k.pulse with ⟨_ | addr, pool⟩
  · exact .of_kinds (fun rest hb => hb.get_none hg) fun rest hb => hb
  · have htake : Conserves k pools pde { pools with pulse := pool }
        { pde with pulses := ⟨addr, ts⟩ :: pde.pulses, count := pde.count + 1, lastTs := ts } :=
      .of_kinds (fun rest hb => hb.get_some hg) fun rest hb => hb
    have hwindow := htake.trans (checkWindow_conserves ..)
    dsimp only
    split_ifs
    · exact hwindow.trans (dequeue_conserves ..)
    · exact hwindow

theorem addToExistingSeqs_conserves (k : Kmalloc) (rule : RadarRule) (ts : ℕ) (pools : DfsPools)
    (pde : PriDetector) (maxCount : ℕ) (seqs : List PriSequence) :
    Conserves k pools { pde with sequences := seqs }
      (addToExistingSeqs rule ts pools maxCount seqs).1
      { pde with sequences := (addToExistingSeqs rule ts pools maxCount seqs).2.1 } := by
  induction seqs generalizing pools maxCount with
  | nil => exact Conserves.refl k pools _
  | cons ps seqs ih =>
    rw [addToExistingSeqs]
    dsimp only
    split_ifs
    · have hput : Conserves k pools { pde with sequences := ps :: seqs } (pools.putPseq ps)
          { pde with sequences := seqs } :=
        .of_kinds (fun rest hb => hb) fun rest hb => hb.put
      exact hput.trans (ih ..)
    · exact (ih ..).cons rfl
    · exact (ih ..).cons rfl

theorem createSequences_conserves (k : Kmalloc) (rule : RadarRule) (ts minCount : ℕ)
    (pools : DfsPools) (pde : PriDetector) (seqs : List PriSequence) (pulses : List PulseElem) :
    Conserves k pools { pde with sequences := seqs }
      (createSequences k rule ts minCount pools seqs pulses).1
      { pde with sequences := (createSequences k rule ts minCount pools seqs pulses).2.1 } := by
  induction pulses generalizing pools seqs with
  | nil => exact Conserves.refl k pools _
  | cons p older ih =>
    rw [createSequences]
    dsimp only
    split_ifs
    · exact ih ..
    · exact Conserves.refl k pools _
    · exact ih ..
    · rcases hg : pools.pseq.get k.pseq with ⟨_ | addr, pool⟩
      · exact .of_kinds (fun rest hb => hb) fun rest hb => hb.get_none hg
      · apply Conserves.trans _ (ih ..)
        exact .of_kinds (fun rest hb => hb) fun rest hb => hb.get_some hg

theorem reset_conserves (k : Kmalloc) (pools : DfsPools) (pde : PriDetector) (ts : ℕ) :
    Conserves k pools pde (priDetectorReset pools pde ts).1 (priDetectorReset pools pde ts).2 := by
  apply Conserves.of_kinds
  · exact fun rest hb => hb.putAll
  · exact fun rest hb => hb.putAll

theorem sequences_conserves (k : Kmalloc) (rule : RadarRule) (ts : ℕ) (pools : DfsPools)
    (pde : PriDetector) :
    let u := addToExistingSeqs rule ts pools 0 pde.sequences
    let c := createSequences k rule ts u.2.2 u.1 u.2.1 pde.pulses
    Conserves k pools pde c.1 { pde with sequences := c.2.1 } := by
  intro u c
  exact (addToExistingSeqs_conserves k rule ts pools pde 0 pde.sequences).trans
    (createSequences_conserves k rule ts u.2.2 u.1 pde u.2.1 pde.pulses)

theorem cfgAddPulse_conserves (k : Kmalloc) (reset : Bool) (pulse : PulseInfo) (pools : DfsPools)
    (cfg : RadarCfg) :
    Conserves k pools cfg.pri (cfgAddPulse k reset pulse pools cfg).1
      (cfgAddPulse k reset pulse pools cfg).2.1.pri := by
  unfold cfgAddPulse
  dsimp only
  have hseqs := sequences_conserves k cfg.rule pulse.ts pools cfg.pri
  split_ifs
  · exact reset_conserves ..
  · exact Conserves.refl k pools _
  · exact Conserves.refl k pools _
  · exact Conserves.refl k pools _
  · split
    · exact hseqs
    · exact hseqs.trans (enqueue_conserves ..)
  · exact hseqs.trans (reset_conserves ..)

/-- The elements of several detectors. -/
def cfgsAddrs (cfgs : List RadarCfg) (b : DfsElem) : List ℕ := cfgs.flatMap (·.pri.addrs b)

/-- The same for the loops over them. -/
structure CfgsConserve (k : Kmalloc) (pools : DfsPools) (cfgs : List RadarCfg) (pools' : DfsPools)
    (cfgs' : List RadarCfg) : Prop where
  balanced : ∀ b rest, (pools.of b).Balanced (k.of b) (cfgsAddrs cfgs b ++ rest) →
    (pools'.of b).Balanced (k.of b) (cfgsAddrs cfgs' b ++ rest)

namespace CfgsConserve
variable {cfg cfg' : RadarCfg} {cfgs cfgs' : List RadarCfg}

theorem refl (k : Kmalloc) (pools : DfsPools) (cfgs : List RadarCfg) :
    CfgsConserve k pools cfgs pools cfgs := ⟨fun _ _ h => h⟩

theorem cons (h : Conserves k pools cfg.pri pools' cfg'.pri)
    (h' : CfgsConserve k pools' cfgs pools'' cfgs') :
    CfgsConserve k pools (cfg :: cfgs) pools'' (cfg' :: cfgs') := by
  constructor
  intro b rest hb
  rw [cfgsAddrs, List.flatMap_cons, List.append_assoc] at hb ⊢
  have hcfg := h.balanced b _ hb
  have hcfgs := h'.balanced b (cfg'.pri.addrs b ++ rest)
    (hcfg.perm (List.perm_append_comm_assoc ..))
  exact hcfgs.perm (List.perm_append_comm_assoc ..)

end CfgsConserve

theorem resetCfgs_conserve (k : Kmalloc) (ts : ℕ) (pools : DfsPools) (cfgs : List RadarCfg) :
    CfgsConserve k pools cfgs (resetCfgs ts pools cfgs).1 (resetCfgs ts pools cfgs).2 := by
  induction cfgs generalizing pools with
  | nil => exact CfgsConserve.refl k pools []
  | cons cfg cfgs ih => exact .cons (reset_conserves k pools cfg.pri ts) (ih _)

theorem addPulseLoop_conserve (k : Kmalloc) (reset : Bool) (pulse : PulseInfo) (pools : DfsPools)
    (cfgs : List RadarCfg) :
    CfgsConserve k pools cfgs (addPulseLoop k reset pulse pools cfgs).1
      (addPulseLoop k reset pulse pools cfgs).2.1 := by
  induction cfgs generalizing pools with
  | nil => exact CfgsConserve.refl k pools []
  | cons cfg cfgs ih =>
    have hcfg := cfgAddPulse_conserves k reset pulse pools cfg
    rw [addPulseLoop]
    dsimp only
    split_ifs
    · exact .cons hcfg (CfgsConserve.refl ..)
    · exact .cons hcfg (ih _)

/-- The elements of all detectors. -/
def Dfs.addrs (s : Dfs) (b : DfsElem) : List ℕ := s.infos.flatMap (cfgsAddrs · b)

/-- Every element of either kind is in its pool or in one list. -/
def Dfs.Balanced (k : Kmalloc) (s : Dfs) : Prop :=
  ∀ b, (s.pools.of b).Balanced (k.of b) (s.addrs b)

theorem resetInfos_balanced {infos : List (List RadarCfg)} {b : DfsElem} {rest : List ℕ} (ts : ℕ)
    (h : (pools.of b).Balanced (k.of b) (infos.flatMap (cfgsAddrs · b) ++ rest)) :
    ((resetInfos ts pools infos).1.of b).Balanced (k.of b)
      ((resetInfos ts pools infos).2.flatMap (cfgsAddrs · b) ++ rest) := by
  induction infos generalizing pools rest with
  | nil => exact h
  | cons cfgs infos ih =>
    rw [List.flatMap_cons, List.append_assoc] at h
    have hcfgs := (resetCfgs_conserve k ts pools cfgs).balanced b _ h
    have hrest := ih (hcfgs.perm (List.perm_append_comm_assoc ..))
    rw [resetInfos, List.flatMap_cons, List.append_assoc]
    exact hrest.perm (List.perm_append_comm_assoc ..)

/-- One region goes on. -/
theorem balanced_set {infos : List (List RadarCfg)} {b : DfsElem} {i : ℕ} {cfgs cfgs' : List RadarCfg}
    (hi : infos[i]? = some cfgs) (h : CfgsConserve k pools cfgs pools' cfgs')
    (hb : (pools.of b).Balanced (k.of b) (infos.flatMap (cfgsAddrs · b))) :
    (pools'.of b).Balanced (k.of b) ((infos.set i cfgs').flatMap (cfgsAddrs · b)) := by
  obtain ⟨hlt, rfl⟩ := List.getElem?_eq_some_iff.mp hi
  obtain ⟨l₁, l₂, hl, -, hset⟩ := @List.exists_of_set _ _ cfgs' _ hlt
  rw [hl, List.flatMap_append, List.flatMap_cons] at hb
  rw [hset, List.flatMap_append, List.flatMap_cons]
  have := h.balanced b _ (hb.perm (List.perm_append_comm_assoc ..))
  exact this.perm (List.perm_append_comm_assoc ..)

end
end Skw
