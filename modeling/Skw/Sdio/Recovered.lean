import Skw.Sdio.Except

/-! Every crash is followed by one recovery, unless a crash message or an assert command sets
`cp_state` to 1 after the recovery has begun or with no watchdog to come, DUMPDONE comes twice, or a
watchdog of an earlier crash is about to enter the recovery. -/
namespace Skw
namespace CpExcept

/-- None of the calls, messages or runs is in progress. -/
def Quiet (s : CpExcept) : Prop :=
  s.testing = 0 ∧ s.setting = 0 ∧ s.scheduling = 0 ∧ s.rx = .idle ∧ s.work = .idle

structure Recovered (s : CpExcept) : Prop where
  watched : s.Quiet → s.cpState = 1 → s.pending = true
  once : s.cpState ≠ 0 → s.recoveries ≤ 1

/-- The watchdog has still to test `cp_state`. -/
def Watched (s : CpExcept) : Prop := s.pending ∨ s.work = .started ∨ 0 < s.scheduling

/-- No earlier watchdog is about to enter the recovery where `cp_state` leaves 0. -/
def Leaves (s : CpExcept) : Prop := s.cpState = 0 → s.work ≠ .recovery

/-- A crash is noticed before the recovery has begun. -/
def Sound (s : CpExcept) : ExceptEvent → Prop
  | .setAssert => (s.cpState = 0 ∨ s.cpState = 1) ∧ s.Leaves
  | .rx _ =>
    (s.rx = .assertSection → s.cpState ≠ DEVICE_BLOCKED_EVENT →
      (s.cpState = 0 ∧ s.Watched ∨ s.cpState = 1) ∧ s.Leaves) ∧
    (s.rx = .dumpSection → s.cpState ≠ DEVICE_DUMPDONE_EVENT ∧ s.Leaves)
  | _ => True

instance (s : CpExcept) : Decidable s.Watched := inferInstanceAs (Decidable (_ ∨ _))

instance (s : CpExcept) : Decidable s.Leaves := inferInstanceAs (Decidable (_ → _))

instance (s : CpExcept) (e : ExceptEvent) : Decidable (s.Sound e) :=
  match e with
  | .setAssert => inferInstanceAs (Decidable (_ ∧ _))
  | .rx _ => inferInstanceAs (Decidable ((_ → _) ∧ (_ → _)))
  | .callAssert _ | .testAssert | .scheduleAssert | .message _ | .startWork | .work =>
    inferInstanceAs (Decidable True)

/-- How many are about to enter the recovery. -/
def entering (s : CpExcept) : ℕ := (decide (s.work = .recovery)).toNat + s.rx.dumping.toNat

structure Inv (s : CpExcept) : Prop where
  range : s.cpState ≤ DEVICE_BLOCKED_EVENT
  watched : s.cpState = 1 → s.Watched
  dumping : s.rx.dumping → s.cpState = DEVICE_DUMPDONE_EVENT
  fresh : s.cpState = 1 → s.recoveries + s.entering = 0
  once : s.cpState ≠ 0 → s.recoveries + s.entering ≤ 1

theorem Inv.recovered {s : CpExcept} (h : s.Inv) : s.Recovered where
  watched := by
    rintro ⟨-, -, hsched, -, hwork⟩ hone
    rcases h.watched hone with hw | hw | hw
    · exact hw
    · cases hwork.symm.trans hw
    · omega
  once hne := by
    have honce := h.once hne
    omega

variable {s t : CpExcept} {r : ExceptRx}

theorem entering_congr (hw : t.work = s.work) (hr : t.rx.dumping = s.rx.dumping) :
    t.entering = s.entering := by
  unfold entering
  rw [hw, hr]

/-- Who goes on without a write of `cp_state` or a recovery. -/
theorem Inv.congr (h : s.Inv) (hc : t.cpState = s.cpState) (hn : t.recoveries = s.recoveries)
    (he : t.entering = s.entering) (hr : t.rx.dumping = s.rx.dumping)
    (hw : s.cpState = 1 → s.Watched → t.Watched) : t.Inv := by
  constructor
  · rw [hc]
    exact h.range
  · intro hone
    rw [hc] at hone
    exact hw hone (h.watched hone)
  · rw [hr, hc]
    exact h.dumping
  · rw [hc, hn, he]
    exact h.fresh
  · rw [hc, hn, he]
    exact h.once

/-- No one is about to enter the recovery where `cp_state` is 0 or 1, and what is counted then. -/
theorem Inv.nothing (h : s.Inv) (hs : s.cpState = 0 ∨ s.cpState = 1) (hl : s.Leaves) :
    (if s.cpState = 0 then 0 else s.recoveries) + s.entering = 0 := by
  have hnot : s.rx.dumping = false := by
    by_contra hd
    have htwo := h.dumping (Bool.eq_true_of_not_eq_false hd)
    rcases hs with hs | hs <;> rw [hs] at htwo <;> cases htwo
  rcases hs with hs | hs
  · unfold entering
    rw [if_pos hs, hnot, decide_eq_false (hl hs)]
    rfl
  · rw [if_neg (by omega)]
    exact h.fresh hs

/-- A crash is noticed. -/
theorem Inv.setOne (h : s.Inv) (hs : s.cpState = 0 ∨ s.cpState = 1) (hl : s.Leaves)
    (ht : t.cpState = 1) (hn : t.recoveries = if s.cpState = 0 then 0 else s.recoveries)
    (he : t.entering = s.entering) (hr : t.rx.dumping = false) (hw : t.Watched) : t.Inv := by
  have hzero : t.recoveries + t.entering = 0 := by
    rw [hn, he]
    exact h.nothing hs hl
  constructor
  · rw [ht]
    decide
  · exact fun _ => hw
  · intro hd
    rw [hr] at hd
    cases hd
  · exact fun _ => hzero
  · intro _
    omega

/-- DUMPDONE or the watchdog sets `cp_state` and goes on to the recovery. -/
theorem Inv.setRecovery (h : s.Inv) (hs : s.cpState = 0 ∨ s.cpState = 1) (hl : s.Leaves)
    (ht : t.cpState = DEVICE_DUMPDONE_EVENT ∨ t.cpState = DEVICE_BLOCKED_EVENT)
    (hn : t.recoveries = if s.cpState = 0 then 0 else s.recoveries)
    (he : t.entering = s.entering + 1)
    (hr : t.rx.dumping → t.cpState = DEVICE_DUMPDONE_EVENT) : t.Inv := by
  have hzero := h.nothing hs hl
  have hne : t.cpState ≠ 1 := by
    rcases ht with ht | ht <;> rw [ht] <;> decide
  constructor
  · rcases ht with ht | ht <;> rw [ht]
    decide
  · exact fun hone => absurd hone hne
  · exact hr
  · exact fun hone => absurd hone hne
  · intro _
    rw [hn, he]
    omega

/-- The recovery is entered. -/
theorem Inv.enter (h : s.Inv) (hc : t.cpState = s.cpState) (hn : t.recoveries = s.recoveries + 1)
    (he : t.entering + 1 = s.entering) (hr : t.rx.dumping → s.rx.dumping) : t.Inv := by
  have hne : s.cpState ≠ 1 := by
    intro hone
    have hfresh := h.fresh hone
    omega
  constructor
  · rw [hc]
    exact h.range
  · exact fun hone => absurd (hc.symm.trans hone) hne
  · rw [hc]
    exact fun hd => h.dumping (hr hd)
  · exact fun hone => absurd (hc.symm.trans hone) hne
  · intro hzero
    have honce := h.once (hc ▸ hzero)
    omega

/-- A schedule leaves the watchdog to come, unless it is cancelled. -/
theorem watched_scheduleWork (hr : s.rx ≠ .dumpFlush) : s.scheduleWork.pending := by
  unfold scheduleWork
  simp [hr]

theorem Inv.rxStep (h : s.Inv) {logOpen : Bool} (hg : s.Sound (.rx logOpen))
    (hs : s.rxStep logOpen = some t) : t.Inv := by
  have hent : ∀ b, s.rx.dumping = b → s.entering = (decide (s.work = .recovery)).toNat + b.toNat :=
    fun b hb => by rw [← hb]; rfl
  have hgo : ∀ r, s.rx.dumping = r.dumping → ({ s with rx := r } : CpExcept).Inv :=
    fun r hr => h.congr rfl rfl (hent _ hr).symm hr.symm fun _ hw => hw
  have hschedule : ∀ r, s.rx ≠ .dumpFlush → s.rx.dumping = r.dumping →
      ({ s.scheduleWork with rx := r } : CpExcept).Inv :=
    fun r hne hr => h.congr rfl rfl (hent _ hr).symm hr.symm
      fun _ _ => .inl (watched_scheduleWork hne)
  unfold CpExcept.rxStep at hs
  split at hs
  · cases hs
  · next hrx =>
    cases hs
    split_ifs
    · exact hschedule _ (by simp [hrx]) (by rw [hrx]; rfl)
    · exact hgo _ (by rw [hrx]; rfl)
  · next hrx =>
    cases hs
    split_ifs
    · exact hschedule _ (by simp [hrx]) (by rw [hrx]; rfl)
    · exact hgo _ (by rw [hrx]; rfl)
  · next hrx =>
    cases hs
    split_ifs with hb
    · exact hgo _ (by rw [hrx]; rfl)
    · obtain ⟨hw, hl⟩ := hg.1 hrx hb
      have hwatched : s.Watched := by
        rcases hw with hw | hw
        · exact hw.2
        · exact h.watched hw
      refine h.setOne (hw.imp_left And.left) hl rfl rfl ?_ rfl hwatched
      rw [hent false (by rw [hrx]; rfl)]
      rfl
  · next hrx =>
    cases hs
    split_ifs with hb
    · exact hgo _ (by rw [hrx]; rfl)
    · obtain ⟨hd, hl⟩ := hg.2 hrx
      have hor : s.cpState = 0 ∨ s.cpState = 1 := by
        have hrange : s.cpState ≤ 3 := h.range
        have hb : s.cpState ≠ 3 := hb
        have hd : s.cpState ≠ 2 := hd
        omega
      refine h.setRecovery hor hl (.inl rfl) rfl ?_ fun _ => rfl
      rw [hent false (by rw [hrx]; rfl)]
      rfl
  · next hrx =>
    cases hs
    have htwo := h.dumping (by rw [hrx]; rfl)
    refine h.congr rfl rfl (hent true (by rw [hrx]; rfl)).symm (by rw [hrx]; rfl) fun hone => ?_
    rw [htwo] at hone
    cases hone
  · next hrx =>
    split_ifs at hs
    cases hs
    exact hgo _ (by rw [hrx]; rfl)
  · next hrx =>
    cases hs
    refine h.enter rfl rfl ?_ fun hd => by cases hd
    rw [hent true (by rw [hrx]; rfl)]
    rfl
  · next hrx =>
    cases hs
    constructor
    · exact Nat.zero_le _
    · intro hone
      cases hone
    · intro hd
      cases hd
    · intro hone
      cases hone
    · exact fun hne => absurd rfl hne

theorem Inv.workStep (h : s.Inv) (hs : s.workStep = some t) : t.Inv := by
  have hent : ∀ w, s.work = w → s.entering = (decide (w = .recovery)).toNat + s.rx.dumping.toNat :=
    fun w hw => by rw [← hw]; rfl
  unfold CpExcept.workStep at hs
  split at hs
  · cases hs
  · next hw =>
    cases hs
    split_ifs with hone
    · refine h.congr rfl rfl ?_ rfl fun hc => absurd hc hone
      rw [hent _ hw]
      rfl
    · have hone : s.cpState = 1 := not_not.mp hone
      refine h.setRecovery (.inr hone) (fun _ => by simp [hw]) (.inr rfl) rfl ?_ fun hd => ?_
      · rw [hent _ hw, Nat.add_right_comm]
        rfl
      · cases hone.symm.trans (h.dumping hd)
  · next hw =>
    cases hs
    refine h.enter rfl rfl ?_ id
    rw [hent _ hw]
    change 0 + s.rx.dumping.toNat + 1 = 1 + s.rx.dumping.toNat
    omega

theorem Inv.step (h : s.Inv) {e : ExceptEvent} (hg : s.Sound e) (hs : s.step e = some t) :
    t.Inv := by
  cases e with
  | callAssert allocated =>
    cases hs
    split_ifs
    · exact h.congr rfl rfl rfl rfl fun _ hw => hw
    · exact h
  | testAssert =>
    simp only [CpExcept.step] at hs
    split_ifs at hs
    · cases hs
      exact h.congr rfl rfl rfl rfl fun _ hw => hw
    · cases hs
      exact h.congr rfl rfl rfl rfl fun _ hw => hw
  | setAssert =>
    simp only [CpExcept.step] at hs
    split_ifs at hs
    cases hs
    have hnot : s.rx.dumping = false := by
      by_contra hd
      have htwo := h.dumping (Bool.eq_true_of_not_eq_false hd)
      rcases hg.1 with hc | hc <;> rw [hc] at htwo <;> cases htwo
    exact h.setOne hg.1 hg.2 rfl rfl rfl hnot (.inr (.inr (Nat.succ_pos _)))
  | scheduleAssert =>
    simp only [CpExcept.step] at hs
    split_ifs at hs
    cases hs
    refine h.congr rfl rfl rfl rfl fun hone _ => .inl (watched_scheduleWork fun hrx => ?_)
    -- while the work is cancelled, `cp_state` says that the dump is done
    have htwo := h.dumping (by rw [hrx]; rfl)
    rw [hone] at htwo
    cases htwo
  | message m =>
    simp only [CpExcept.step] at hs
    split_ifs at hs with hrx
    cases hs
    have hdump : m.start.dumping = s.rx.dumping := by
      rw [hrx]
      cases m <;> rfl
    exact h.congr rfl rfl (entering_congr rfl hdump) hdump fun _ hw => hw
  | rx logOpen => exact h.rxStep hg hs
  | startWork =>
    simp only [CpExcept.step] at hs
    split_ifs at hs with hw
    cases hs
    refine h.congr rfl rfl ?_ rfl fun _ _ => .inr (.inl rfl)
    unfold entering
    rw [hw.1]
    rfl
  | work => exact h.workStep hs

/-- In runs in which every crash is noticed before the recovery has begun and with a watchdog to
come, nothing is left to do while `cp_state` is 1 and no watchdog pends, and the recovery is entered
at most once until the next version message. -/
theorem recovered_of_sound (s : CpExcept) (h : Lib.Reach step Sound init s) : s.Recovered := by
  have hinit : init.Inv :=
    ⟨by decide, fun hone => by (cases hone), fun hd => by (cases hd), fun hone => by (cases hone),
      fun hne => absurd rfl hne⟩
  exact (h.invariant hinit fun _ _ _ hi hg hs => hi.step hg hs).recovered

/-- An assert command is followed by BSPASSERT and DUMPDONE, and by the recovery. -/
theorem recovered_of_sound_dumped :
    ∃ s, Lib.Reach step Sound init s ∧ s.cpState = DEVICE_DUMPDONE_EVENT ∧ s.recoveries = 1 ∧
      s.Recovered := by
  obtain ⟨s, hs, hp⟩ := Lib.exists_reach_of_exec step Sound init
    [.callAssert true, .testAssert, .setAssert, .scheduleAssert, .message .bspassert, .rx false,
      .rx false, .rx false, .message .dumpdone, .rx false, .rx false, .rx false, .rx false]
    (fun s => s.cpState == DEVICE_DUMPDONE_EVENT && s.recoveries == 1) (by decide)
  simp only [Bool.and_eq_true, beq_iff_eq] at hp
  exact ⟨s, hs, hp.1, hp.2, recovered_of_sound s hs⟩

/-- BSPASSERT comes once more after DUMPDONE and sets `cp_state` to 1 without a watchdog. -/
theorem lateAssert_not_recovered : ¬ ∀ s, Lib.Reach step Lib.Free init s → s.Recovered := by
  intro h
  obtain ⟨s, hs, hp⟩ := Lib.exists_reach_of_exec step Lib.Free init
    [.message .bspassert, .rx false, .rx false, .message .dumpdone, .rx false, .rx false, .rx false,
      .rx false, .message .bspassert, .rx false, .rx false, .rx false]
    (fun s => s == ⟨1, false, 0, 0, 0, .idle, .idle, 1⟩) (by decide)
  rw [beq_iff_eq.mp hp] at hs
  exact absurd ((h _ hs).watched ⟨rfl, rfl, rfl, rfl, rfl⟩ rfl) (by decide)

end CpExcept
end Skw
