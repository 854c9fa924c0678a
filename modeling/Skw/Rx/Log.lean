import Skw.Rx.Conserve

/-! Which frames a release takes from their slots. A forced release takes those of the positions it
passes; the release after it takes runs of frames without a gap, each from the start of the window
on or from a frame whose time is over. -/
namespace Skw
namespace Rx

/-- The A-MSDU of a slot is to be purged. -/
def isTainted : List Skb → Bool
  | [] => false
  | skb :: _ => skb.cb.taint

variable {ws : ℕ} {x y z : Rx} {i p q : ℕ} {c : Bool} {rel rel' : List Released}
  {fr fr' : List Skb}

/-- What the window has passed is released, or freed where it was tainted. -/
structure Passed (ws : ℕ) (x y : Rx) (rel : List Released) (fr : List Skb) : Prop where
  released : y.released = x.released ++ rel
  freed : y.freed = x.freed ++ fr
  inside : ∀ r ∈ rel, x.pos ≤ r.pos ∧ r.pos < y.pos ∧ r.pos < x.pos + ws ∧
    r.skb ∈ x.tid.reorderBuf (r.pos % ws)
  left : ∀ p, x.pos ≤ p → p < y.pos → p < x.pos + ws → ∀ skb ∈ x.tid.reorderBuf (p % ws),
    if isTainted (x.tid.reorderBuf (p % ws)) then skb ∈ fr else ∃ r ∈ rel, r.skb = skb

theorem mem_of_drained (hd : Drains ws x y) {skb : Skb} (h : skb ∈ y.tid.reorderBuf i) :
    y.tid.reorderBuf i = x.tid.reorderBuf i := by
  rcases hd.slots i with he | he
  · rw [he] at h
    cases h
  · exact he

theorem Passed.refl (h : y.released = x.released) (hf : y.freed = x.freed) (hp : y.pos ≤ x.pos) :
    Passed ws x y [] [] where
  released := by rw [h, List.append_nil]
  freed := by rw [hf, List.append_nil]
  inside r hr := by cases hr
  left p hle hlt := by omega

/-- The slots that the second release passes were not passed by the first one. -/
theorem Passed.trans (hz : ws ∣ 4096) (h : Passed ws x y rel fr) (h' : Passed ws y z rel' fr')
    (hd : Drains ws x y) (hkept : ∀ p, y.pos ≤ p → p < x.pos + ws →
      y.tid.reorderBuf (p % ws) = x.tid.reorderBuf (p % ws)) (hyz : y.pos ≤ z.pos) :
    Passed ws x z (rel ++ rel') (fr ++ fr') where
  released := by rw [h'.released, h.released, List.append_assoc]
  freed := by rw [h'.freed, h.freed, List.append_assoc]
  inside r hr := by
    rcases List.mem_append.mp hr with hr | hr
    · obtain ⟨hle, hlt, hws, hm⟩ := h.inside r hr
      exact ⟨hle, hlt.trans_le hyz, hws, hm⟩
    · obtain ⟨hle, hlt, hws, hm⟩ := h'.inside r hr
      have hpos := hd.pos
      refine ⟨hpos.trans hle, hlt, ?_, mem_of_drained hd hm ▸ hm⟩
      -- One turn later the slot would be empty.
      by_contra hge
      have hempty := hd.empty_of_passed hz (p := r.pos - ws) (by omega) (by omega)
      rw [← Nat.mod_eq_sub_mod (by omega)] at hempty
      rw [hempty] at hm
      cases hm
  left p hle hlt hws skb hm := by
    by_cases hp : p < y.pos
    · have hl := h.left p hle hp hws skb hm
      split_ifs at hl ⊢
      · exact List.mem_append_left fr' hl
      · obtain ⟨r, hr, hrs⟩ := hl
        exact ⟨r, List.mem_append_left rel' hr, hrs⟩
    · have hk := hkept p (by omega) hws
      have hpos := hd.pos
      rw [← hk] at hm ⊢
      have hl := h'.left p (by omega) hlt (by omega) skb hm
      split_ifs at hl ⊢
      · exact List.mem_append_right fr hl
      · obtain ⟨r, hr, hrs⟩ := hl
        exact ⟨r, List.mem_append_right rel hr, hrs⟩

/-- What the loop of the forced release takes from the slot at the start of the window. -/
theorem Counted.passed_forceSlot (hz : ws ∣ 4096) (h : Counted ws x) :
    ∃ rel fr, Passed ws x x.forceSlot rel fr := by
  have hpos := (h.forceSlot hz).2
  have hone : ∀ p, x.pos ≤ p → p < x.forceSlot.pos → p = x.pos := by omega
  have hin := pos_of_dvd hz
  cases hs : x.tid.reorderBuf (x.pos % ws) with
  | nil =>
    refine ⟨[], [], ?_, ?_, by simp, fun p hle hlt _ skb hm => ?_⟩
    · unfold Rx.forceSlot
      simp only [h.start_slot hz, hs]
      exact (List.append_nil _).symm
    · unfold Rx.forceSlot
      simp only [h.start_slot hz, hs]
      exact (List.append_nil _).symm
    · rw [hone p hle hlt, hs] at hm
      cases hm
  | cons skb l =>
    cases ht : skb.cb.taint with
    | true =>
      refine ⟨[], skb :: l, ?_, ?_, by simp, fun p hle hlt _ f hm => ?_⟩
      · unfold Rx.forceSlot
        simp only [h.start_slot hz, hs, ht, if_true]
        exact (List.append_nil _).symm
      · unfold Rx.forceSlot
        simp only [h.start_slot hz, hs, ht, if_true]
        exact congrArg (x.freed ++ ·) hs
      · rw [hone p hle hlt, hs] at hm ⊢
        rw [if_pos (show isTainted (skb :: l) = true from ht)]
        exact hm
    | false =>
      refine ⟨(skb :: l).map (⟨x.pos, ·⟩), [], ?_, ?_, fun r hr => ?_, fun p hle hlt _ f hm => ?_⟩
      · unfold Rx.forceSlot
        simp only [h.start_slot hz, hs, ht, Bool.false_eq_true, if_false]
        exact congrArg (fun l : List Skb => x.released ++ l.map (⟨x.pos, ·⟩)) hs
      · unfold Rx.forceSlot
        simp only [h.start_slot hz, hs, ht, Bool.false_eq_true, if_false]
        exact (List.append_nil _).symm
      · obtain ⟨f, hf, rfl⟩ := List.mem_map.mp hr
        exact ⟨le_rfl, (Nat.lt_succ_self x.pos).trans_eq hpos.symm, Nat.lt_add_of_pos_right hin,
          hs ▸ hf⟩
      · rw [hone p hle hlt, hs] at hm ⊢
        rw [if_neg (by rw [isTainted, ht]; exact Bool.false_ne_true)]
        exact ⟨⟨x.pos, f⟩, List.mem_map_of_mem hm, rfl⟩

theorem Counted.passed_forceLoop (hz : ws ∣ 4096) {toSn target : ℕ} (fuel : ℕ) (h : Counted ws x)
    (hs : toSn % 4096 = q % 4096) (ht : target % 4096 = (q + 1) % 4096) (hle : x.pos ≤ q + 1)
    (hlt : q + 1 < x.pos + 2048) (hfuel : q + 1 ≤ x.pos + fuel) :
    ∃ rel fr, Passed ws x (Rx.forceLoop toSn target fuel x) rel fr := by
  induction fuel generalizing x with
  | zero => exact ⟨[], [], .refl rfl rfl le_rfl⟩
  | succ fuel ih =>
    have hless := ieee80211SnLess_iff h.start ht (by omega) hlt
    unfold Rx.forceLoop
    by_cases hl : x.pos < q + 1
    · rw [if_pos (hless.mpr hl)]
      by_cases h0 : x.tid.storedNum = 0
      · rw [if_pos h0]
        refine ⟨[], [], (List.append_nil _).symm, (List.append_nil _).symm,
          by simp, fun p _ _ _ skb hm => ?_⟩
        rw [h.empty h0 (Nat.mod_lt p (pos_of_dvd hz))] at hm
        cases hm
      · rw [if_neg h0]
        obtain ⟨hd, hpos⟩ := h.forceSlot hz
        obtain ⟨rel, fr, hone⟩ := h.passed_forceSlot hz
        obtain ⟨rel', fr', hrest⟩ := ih hd.counted (by omega) (by omega) (by omega)
        have hmono := (hd.counted.forceLoop hz fuel hs ht (by omega) (by omega) (by omega)).1.pos
        refine ⟨rel ++ rel', fr ++ fr', hone.trans hz hrest hd (fun p hp hpw => ?_) hmono⟩
        exact forceSlot_of_ne hz h (Lib.mod_ne_of_lt (by omega) hpw).symm
    · rw [if_neg fun hc => hl (hless.mp hc)]
      exact ⟨[], [], .refl rfl rfl le_rfl⟩

theorem Counted.passed_forceRelease (hz : ws ∣ 4096) (toSn : ℕ) (h : Counted ws x)
    (hs : toSn % 4096 = q % 4096) (hle : x.pos ≤ q + 1) (hlt : q + 1 < x.pos + 2048) :
    ∃ rel fr, Passed ws x (x.forceRelease toSn) rel fr := by
  unfold Rx.forceRelease
  generalize (x.timerPending && x.reorder.refCnt == x.tid.refCnt && _) = c
  cases c with
  | false => exact h.passed_forceLoop hz 2048 hs (ieee80211SnInc_mod hs) hle hlt (by omega)
  | true =>
    have hx : Counted ws x.delTimer := h.delTimer.counted
    obtain ⟨rel, fr, hp⟩ := hx.passed_forceLoop hz 2048 hs (ieee80211SnInc_mod hs)
      (show x.pos ≤ q + 1 from hle) (show q + 1 < x.pos + 2048 from hlt)
      (show q + 1 ≤ x.pos + 2048 from hlt.le)
    exact ⟨rel, fr, hp.released, hp.freed, hp.inside, hp.left⟩

theorem Counted.forceSlot_exact (hz : ws ∣ 4096) (h : Counted ws x)
    (he : x.tid.storedNum.toNat = x.tid.occupied.card) :
    x.forceSlot.tid.storedNum.toNat = x.forceSlot.tid.occupied.card := by
  cases hs : x.tid.reorderBuf (x.pos % ws) with
  | nil =>
    have htid : x.forceSlot = x.setWinStart (ieee80211SnInc x.tid.winStart) := by
      unfold Rx.forceSlot
      simp only [h.start_slot hz, hs]
    rw [htid]
    exact he
  | cons skb l =>
    have hi := Nat.mod_lt x.pos (pos_of_dvd hz)
    have hne : x.tid.reorderBuf (x.pos % ws) ≠ [] := by
      rw [hs]
      exact List.cons_ne_nil skb l
    have hm : x.pos % ws ∈ x.tid.occupied := Window.mem_occupied.mpr ⟨h.size ▸ hi, hne⟩
    have hpos := (h.storedNum_pos hi hne).2
    have hlog : x.forceSlot.tid.winSize = x.tid.winSize ∧
        x.forceSlot.tid.reorderBuf = Function.update x.tid.reorderBuf (x.pos % ws) [] ∧
        x.forceSlot.tid.storedNum = x.tid.storedNum - 1 := by
      unfold Rx.forceSlot
      simp only [h.start_slot hz, hs]
      cases skb.cb.taint <;> exact ⟨rfl, rfl, rfl⟩
    rw [Window.occupied_clear hlog.1 hlog.2.1, hlog.2.2, Finset.card_erase_of_mem hm, ← he]
    bv_omega

/-- A forced release to a position behind all that is stored stops there. -/
theorem Counted.forceLoop_runOut (hz : ws ∣ 4096) {toSn target : ℕ} (fuel : ℕ) (h : Counted ws x)
    (hs : toSn % 4096 = q % 4096) (ht : target % 4096 = (q + 1) % 4096) (hle : x.pos ≤ q)
    (hlt : q + 1 < x.pos + 2048) (hfuel : q + 1 ≤ x.pos + fuel)
    (he : x.tid.storedNum.toNat = x.tid.occupied.card)
    (hall : ∀ p, q ≤ p → p < x.pos + ws → x.tid.reorderBuf (p % ws) = []) :
    (Rx.forceLoop toSn target fuel x).pos = q ∧
      (Rx.forceLoop toSn target fuel x).tid.storedNum = 0 := by
  induction fuel generalizing x with
  | zero => omega
  | succ fuel ih =>
    have hless := ieee80211SnLess_iff h.start ht (by omega) hlt
    unfold Rx.forceLoop
    rw [if_pos (hless.mpr (by omega))]
    by_cases h0 : x.tid.storedNum = 0
    · rw [if_pos h0]
      exact ⟨pos_setWinStart h.start hs (by omega) (by omega), h0⟩
    · rw [if_neg h0]
      -- A slot is in use, and it is one of those before `q`.
      have hpos : 0 < x.tid.occupied.card := by
        rw [← he]
        bv_omega
      obtain ⟨i, hi⟩ := Finset.card_pos.mp hpos
      obtain ⟨hiws, hne⟩ := Window.mem_occupied.mp hi
      obtain ⟨j, hj, rfl⟩ := Lib.exists_mod_eq x.pos (h.size ▸ hiws)
      have hq : x.pos + j < q := by
        by_contra hge
        exact hne (hall _ (by omega) (by omega))
      obtain ⟨hd, hone⟩ := h.forceSlot hz
      refine ih hd.counted (by omega) (by omega) (by omega) (h.forceSlot_exact hz he) ?_
      intro p hp hpw
      by_cases hin : p < x.pos + ws
      · exact hd.empty (hall p hp hin)
      · have hturn : p = x.pos + ws := by omega
        rw [hturn, Nat.add_mod_right]
        exact hd.passed x.pos le_rfl (by omega) (by have := pos_of_dvd hz; omega)

theorem Counted.forceRelease_runOut (hz : ws ∣ 4096) (toSn : ℕ) (h : Counted ws x)
    (hs : toSn % 4096 = q % 4096) (hle : x.pos ≤ q) (hlt : q + 1 < x.pos + 2048)
    (he : x.tid.storedNum.toNat = x.tid.occupied.card)
    (hall : ∀ p, q ≤ p → p < x.pos + ws → x.tid.reorderBuf (p % ws) = []) :
    (x.forceRelease toSn).pos = q ∧ (x.forceRelease toSn).tid.storedNum = 0 := by
  unfold Rx.forceRelease
  generalize (x.timerPending && x.reorder.refCnt == x.tid.refCnt && _) = c
  have hy := (h.delTimerIf c).counted
  have hpos : (x.delTimerIf c).pos = x.pos := delTimerIf_pos
  have htid : (x.delTimerIf c).tid = x.tid := delTimerIf_tid
  exact hy.forceLoop_runOut hz 2048 hs (ieee80211SnInc_mod hs) (by omega) (by omega) (by omega)
    (by rwa [htid]) (by rwa [htid, hpos])

/-- The clock and the timeout, by which the time of a frame is over. -/
def clock (x : Rx) : Jiffies × Jiffies := (x.now, x.reorderTimeout)

theorem isMsduTimeout_congr (h : y.clock = x.clock) (l : List Skb) :
    y.isMsduTimeout l = x.isMsduTimeout l := by
  obtain ⟨hn, ht⟩ := Prod.mk.inj h
  cases l with
  | nil => rfl
  | cons skb l =>
    unfold isMsduTimeout
    simp only [hn, ht]

theorem stable_clock (c : Jiffies × Jiffies) : Stable fun x => x.clock = c where
  setWinStart _ _ h := h
  setStoredNum _ _ h := h
  setSlot _ _ _ h := h
  release _ _ h := h
  free _ _ h := h
  setTimer _ _ _ h := h
  linkTodo _ _ _ _ h := h
  setPeer _ _ _ _ h := h

theorem clock_forceRelease (x : Rx) (toSn : ℕ) : (x.forceRelease toSn).clock = x.clock :=
  (stable_clock x.clock).forceRelease rfl toSn

/-- A frame of a run without a gap that begins at the start `p` of the window, where this is
allowed, or with a frame whose time is over. -/
structure InRun (ws : ℕ) (x : Rx) (p : ℕ) (start : Bool) (r : Released) : Prop where
  mem : r.skb ∈ x.tid.reorderBuf (r.pos % ws)
  run : ∃ s, p ≤ s ∧ s ≤ r.pos ∧ (∀ q, s ≤ q → q ≤ r.pos → x.tid.reorderBuf (q % ws) ≠ []) ∧
    (s = p ∧ start = true ∨ x.isMsduTimeout (x.tid.reorderBuf (s % ws)) = true)

variable {r : Released} {start start' : Bool}

theorem InRun.le (h : InRun ws x p start r) : p ≤ r.pos := by
  obtain ⟨s, hp, hs, -⟩ := h.run
  exact hp.trans hs

/-- A run behind position `p` goes on from `p` if there is a frame which allows it. -/
theorem InRun.back (h : InRun ws y (p + 1) start' r) (hd : Drains ws x y) (hc : y.clock = x.clock)
    (hp : start' = true → x.tid.reorderBuf (p % ws) ≠ [] ∧
      (start = true ∨ x.isMsduTimeout (x.tid.reorderBuf (p % ws)) = true)) :
    InRun ws x p start r := by
  have hsame : ∀ q, y.tid.reorderBuf (q % ws) ≠ [] →
      y.tid.reorderBuf (q % ws) = x.tid.reorderBuf (q % ws) :=
    fun q hne => (hd.slots (q % ws)).resolve_left hne
  obtain ⟨hm, s, hps, hsr, hrun, hbegin⟩ := h
  have hrun' : ∀ q, s ≤ q → q ≤ r.pos → x.tid.reorderBuf (q % ws) ≠ [] := by
    intro q hsq hqr
    have hne := hrun q hsq hqr
    rwa [← hsame q hne]
  refine ⟨mem_of_drained hd hm ▸ hm, ?_⟩
  rcases hbegin with ⟨hsp, hst⟩ | hto
  · obtain ⟨hne, hallow⟩ := hp hst
    refine ⟨p, le_rfl, by omega, fun q hpq hqr => ?_, hallow.imp_left fun ha => ⟨rfl, ha⟩⟩
    by_cases hq : q = p
    · rw [hq]
      exact hne
    · exact hrun' q (by omega) hqr
  · refine ⟨s, by omega, hsr, hrun', .inr ?_⟩
    rw [← hsame s (hrun s le_rfl hsr), ← isMsduTimeout_congr hc]
    exact hto

/-- What a release takes from the slots at position `p` and behind it, up to position `b`. -/
structure TakesRuns (ws b : ℕ) (x : Rx) (p : ℕ) (start : Bool) (y : Rx) (rel : List Released)
    (fr : List Skb) : Prop where
  released : y.released = x.released ++ rel
  freed : y.freed = x.freed ++ fr
  inRun : ∀ r ∈ rel, r.pos < b ∧ InRun ws x p start r

variable {b : ℕ}

theorem TakesRuns.nothing (hr : y.released = x.released) (hf : y.freed = x.freed) :
    ∃ rel fr, TakesRuns ws b x p start y rel fr :=
  ⟨[], [], hr.trans (List.append_nil _).symm, hf.trans (List.append_nil _).symm, by simp⟩

/-- What is taken at position `p` and then behind it. -/
theorem TakesRuns.next (h' : ∃ rel fr, TakesRuns ws b y (p + 1) start' z rel fr)
    (h : ∃ rel fr, TakesRuns ws b x p start y rel fr) (hd : Drains ws x y)
    (hc : y.clock = x.clock) (hp : start' = true → x.tid.reorderBuf (p % ws) ≠ [] ∧
      (start = true ∨ x.isMsduTimeout (x.tid.reorderBuf (p % ws)) = true)) :
    ∃ rel fr, TakesRuns ws b x p start z rel fr := by
  obtain ⟨rel, fr, h⟩ := h
  obtain ⟨rel', fr', h'⟩ := h'
  refine ⟨rel ++ rel', fr ++ fr', ?_, ?_, fun r hr => ?_⟩
  · rw [h'.released, h.released, List.append_assoc]
  · rw [h'.freed, h.freed, List.append_assoc]
  · rcases List.mem_append.mp hr with hr | hr
    · exact h.inRun r hr
    · exact ⟨(h'.inRun r hr).1, (h'.inRun r hr).2.back hd hc hp⟩

theorem TakesRuns.of_delTimerIf
    (h : ∃ rel fr, TakesRuns ws b (x.delTimerIf c) p start z rel fr) :
    ∃ rel fr, TakesRuns ws b x p start z rel fr := by
  cases c with
  | false => exact h
  | true =>
    obtain ⟨rel, fr, h⟩ := h
    refine ⟨rel, fr, h.released, h.freed, fun r hr => ?_⟩
    obtain ⟨hb, hrun⟩ := h.inRun r hr
    exact ⟨hb, hrun.mem, hrun.run⟩

theorem setReorderTimer_logs (x : Rx) (sn : ℕ) :
    (x.setReorderTimer sn).released = x.released ∧ (x.setReorderTimer sn).freed = x.freed := by
  unfold Rx.setReorderTimer
  split
  · exact ⟨rfl, rfl⟩
  · split
    · exact ⟨rfl, rfl⟩
    · dsimp only
      split_ifs <;> exact ⟨rfl, rfl⟩

theorem inRun_self (hm : r.skb ∈ x.tid.reorderBuf (r.pos % ws))
    (ha : start = true ∨ x.isMsduTimeout (x.tid.reorderBuf (r.pos % ws)) = true) :
    InRun ws x r.pos start r := by
  refine ⟨hm, r.pos, le_rfl, le_rfl, fun q hq hqr => ?_, ha.imp_left fun h => ⟨rfl, h⟩⟩
  rw [le_antisymm hqr hq]
  exact List.ne_nil_of_mem hm

theorem takesRuns_purgeSlot (x : Rx) (i : ℕ) :
    ∃ rel fr, TakesRuns ws b x p start (x.purgeSlot i) rel fr :=
  ⟨[], x.tid.reorderBuf i, (List.append_nil _).symm, rfl, by simp⟩

/-- The release of the slot at position `p`, which is at the start of the window. -/
theorem takesRuns_releaseSlot (hp : x.pos = p) (hb : p < b)
    (hy : y.released = (x.releaseSlot (p % ws)).released) (hf : y.freed = x.freed) :
    ∃ rel fr, TakesRuns ws b x p true y rel fr := by
  subst hp
  refine ⟨(x.tid.reorderBuf (x.pos % ws)).map (⟨x.pos, ·⟩), [], hy,
    hf.trans (List.append_nil _).symm, fun r hr => ?_⟩
  obtain ⟨f, hf, rfl⟩ := List.mem_map.mp hr
  exact ⟨hb, inRun_self (r := ⟨x.pos, f⟩) hf (.inl rfl)⟩

/-- The forced release of a frame at position `p + i` whose time is over. -/
theorem Counted.takesRuns_forceRelease (hz : ws ∣ 4096) (h : Counted ws x) {toSn : ℕ}
    (hs : toSn % 4096 = (p + i) % 4096) (hp : p ≤ x.pos) (hle : x.pos ≤ p + i) (hi : i < ws)
    (hlt : p + i + 1 < x.pos + 2048) (hvis : ∀ j < i, x.tid.reorderBuf ((p + j) % ws) = [])
    (hto : x.isMsduTimeout (x.tid.reorderBuf ((p + i) % ws)) = true) :
    ∃ rel fr, TakesRuns ws (p + ws) x (p + i) false (x.forceRelease toSn) rel fr := by
  obtain ⟨rel, fr, hpass⟩ := h.passed_forceRelease hz toSn hs (by omega) hlt
  have hmax := (h.forceRelease_pos hz toSn hs (by omega) hlt).2.1
  refine ⟨rel, fr, hpass.released, hpass.freed, fun r hr => ?_⟩
  obtain ⟨hge, hlt, -, hm⟩ := hpass.inside r hr
  have hpos : r.pos = p + i := by
    by_contra hne
    have hempty := hvis (r.pos - p) (by omega)
    rw [Nat.add_sub_cancel' (by omega)] at hempty
    rw [hempty] at hm
    cases hm
  refine ⟨by omega, ?_⟩
  rw [← hpos] at hto ⊢
  exact inRun_self hm (.inr hto)

/-- Half the sequence numbers ahead is too far for a forced release. -/
theorem Counted.forceRelease_of_far (h : Counted ws x) {toSn : ℕ}
    (hs : toSn % 4096 = q % 4096) (hq : q + 1 = x.pos + 2048) :
    ∃ c, x.forceRelease toSn = x.delTimerIf c := by
  have hless : ieee80211SnLess x.tid.winStart (ieee80211SnInc toSn) = false := by
    have hstart := h.start
    have hinc := ieee80211SnInc_mod hs
    simp only [ieee80211SnLess, decide_eq_false_iff_not]
    omega
  unfold Rx.forceRelease
  rw [forceLoop_of_not_less _ (by rw [delTimerIf_tid]; exact hless)]
  exact ⟨_, rfl⟩

/-- Round `i` looks at position `p + i`, and the slots before it are empty. -/
theorem Counted.takesRuns_releaseLoop (hz : ws ∣ 4096) (hws : ws ≤ 2048) {winStart n : ℕ}
    {release : Bool} (h : Counted ws x) (hs : winStart % 4096 = p % 4096) (hp : p ≤ x.pos)
    (hle : x.pos ≤ p + i) (hi : i + n = ws)
    (hrel : release = true → x.pos = p + i ∨ x.tid.storedNum = 0)
    (hvis : ∀ j < i, x.tid.reorderBuf ((p + j) % ws) = []) :
    ∃ rel fr, TakesRuns ws (p + ws) x (p + i) release
      (Rx.releaseLoop winStart n i release x) rel fr := by
  induction n generalizing i release x with
  | zero => exact TakesRuns.nothing rfl rfl
  | succ n ih =>
    have hindex : (winStart + i) % x.tid.winSize = (p + i) % ws := by
      rw [h.size]
      exact Window.index hz (by omega)
    have hiws : (p + i) % ws < ws := Nat.mod_lt _ (pos_of_dvd hz)
    unfold Rx.releaseLoop
    split
    · exact TakesRuns.nothing rfl rfl
    · next h0 =>
      simp only [hindex]
      split
      · next he =>
        split
        · exact TakesRuns.nothing rfl rfl
        · have hrest := ih h hp (by omega) (by omega) (fun hf => absurd hf Bool.false_ne_true)
            (h.refl.visited hvis he)
          exact TakesRuns.next hrest (TakesRuns.nothing rfl rfl) h.refl rfl
            fun hf => absurd hf Bool.false_ne_true
      · next skb l he =>
        have hne : x.tid.reorderBuf ((p + i) % ws) ≠ [] := by
          rw [he]
          exact List.cons_ne_nil skb l
        cases release with
        | false =>
          simp only [Bool.not_false, if_true]
          split
          · exact TakesRuns.nothing (x.setReorderTimer_logs _).1 (x.setReorderTimer_logs _).2
          · next hto =>
            have hto : x.isMsduTimeout (x.tid.reorderBuf ((p + i) % ws)) = true := by
              rw [he]
              simpa using hto
            have hsn : u16 (winStart + i) % 4096 = (p + i) % 4096 := by
              rw [u16_mod]
              omega
            by_cases hfar : p + i + 1 = x.pos + 2048
            · -- This is the last round, and it leaves the frame.
              obtain ⟨c, hc⟩ := h.forceRelease_of_far hsn hfar
              have hn : n = 0 := by omega
              subst hn
              rw [hc]
              exact TakesRuns.of_delTimerIf (c := c) (TakesRuns.nothing rfl rfl)
            obtain ⟨hd, -, hend⟩ := h.forceRelease_pos hz (u16 (winStart + i)) hsn (by omega)
              (by omega)
            have hclear := h.forceRelease_slot hz hsn hle (by omega) (by omega)
            have hforce := h.takesRuns_forceRelease hz hsn hp hle (by omega) (by omega) hvis hto
            have hrest := ih hd.counted (hp.trans hd.pos) (by omega) (by omega)
              (fun _ : true = true => hend.imp (fun hpos => by omega) fun hpos => hpos.2)
              (hd.visited hvis hclear)
            exact TakesRuns.next hrest hforce hd (clock_forceRelease x _)
              fun _ => ⟨hne, .inr hto⟩
        | true =>
          have hx : x.pos = p + i := (hrel rfl).resolve_right h0
          simp only [Bool.not_true, Bool.false_eq_true, if_false]
          generalize (x.timerPending && x.reorder.expired.sn == x.tid.winStart) = c
          apply TakesRuns.of_delTimerIf (c := c)
          have hy := (h.delTimerIf c).counted
          have hypos : (x.delTimerIf c).pos = p + i := delTimerIf_pos.trans hx
          have hyvis : ∀ j < i, (x.delTimerIf c).tid.reorderBuf ((p + j) % ws) = [] := by
            rwa [delTimerIf_tid]
          have hyne : (x.delTimerIf c).tid.reorderBuf ((p + i) % ws) ≠ [] := by
            rwa [delTimerIf_tid]
          generalize x.delTimerIf c = y at hy hypos hyvis hyne ⊢
          split
          · have hd := hy.purge hiws
            have hdpos : (y.purgeSlot ((p + i) % ws)).pos = p + i := hypos
            have hrest := ih hd.counted (by omega) (by omega) (by omega)
              (fun hf => absurd hf Bool.false_ne_true) (hd.visited hyvis (slot_purgeSlot ..))
            exact TakesRuns.next hrest (takesRuns_purgeSlot y _) hd rfl
              fun hf => absurd hf Bool.false_ne_true
          · split
            · rw [← hypos] at hyne ⊢
              obtain ⟨hd, hpos⟩ := hy.releaseStart hz hyne rfl
              rw [hypos] at hyne hd hpos ⊢
              have hrest := ih hd.counted (by omega) (by omega) (by omega)
                (fun _ : true = true => .inl hpos) (hd.visited hyvis (Function.update_self ..))
              exact TakesRuns.next hrest (takesRuns_releaseSlot hypos (by omega) rfl rfl) hd rfl
                fun _ => ⟨hyne, .inl rfl⟩
            · split
              · exact TakesRuns.nothing rfl rfl
              · obtain ⟨hl, hf⟩ := y.setReorderTimer_logs (u16 (winStart + i))
                exact TakesRuns.nothing hl hf

end Rx
end Skw
