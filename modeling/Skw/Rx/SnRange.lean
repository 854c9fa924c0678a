import Skw.Rx.Moves

/-! The numbers of a session that are compared with sequence numbers. `skw_reorder_release` counts
on from `win_start` without wrapping, and what it hands on is kept as the start of the window, for
the timer, or for `skw_rx_todo`. -/
namespace Skw
namespace Rx

/-- `win_start`, `expired.sn` and `todo.seq`. -/
def numbers (x : Rx) : ℕ × ℕ × ℕ := (x.tid.winStart, x.reorder.expired.sn, x.reorder.todo.seq)

structure InRange (x : Rx) : Prop where
  winStart : x.tid.winStart < IEEE80211_SN_MODULO
  expired : x.reorder.expired.sn < IEEE80211_SN_MODULO
  todo : x.reorder.todo.seq < IEEE80211_SN_MODULO

instance (x : Rx) : Decidable x.InRange :=
  decidable_of_iff (_ ∧ _ ∧ _) ⟨fun h => ⟨h.1, h.2.1, h.2.2⟩, fun h => ⟨h.1, h.2, h.3⟩⟩

/-- `skw_set_reorder_timer` keeps the number, for the timer or for `skw_rx_todo`. -/
def keepsSn (x : Rx) (sn : ℕ) : Bool :=
  !(x.timerPending || x.reorder.refCnt != x.tid.refCnt) &&
    match x.tid.reorderBuf (sn % x.tid.winSize) with
    | [] => false
    | skb :: _ => timeBefore x.now (skb.cb.rxTime + x.reorderTimeout) || !x.reorder.todo.actived

/-- The loop of `skw_reorder_force_release` finds nothing stored before it gets to the target. -/
def forceRunsOut (target : ℕ) : ℕ → Rx → Bool
  | 0, _ => false
  | fuel + 1, x =>
    ieee80211SnLess x.tid.winStart target &&
      (x.tid.storedNum == 0 || forceRunsOut target fuel x.forceSlot)

def runsOut (x : Rx) (toSn : ℕ) : Bool := forceRunsOut (ieee80211SnInc toSn) 2048 x

/-- The numbers that the loop of `skw_reorder_release` hands on and that are kept. -/
def releaseLoopSns (winStart : ℕ) : ℕ → ℕ → Bool → Rx → List ℕ
  | 0, _, _, _ => []
  | n + 1, i, release, x =>
    if x.tid.storedNum = 0 then []
    else
      let index := (winStart + i) % x.tid.winSize
      let sn := u16 (winStart + i)
      match x.tid.reorderBuf index with
      | [] => if x.timerPending then [] else releaseLoopSns winStart n (i + 1) false x
      | skb :: l =>
        if !release then
          if !x.isMsduTimeout (skb :: l) then if x.keepsSn sn then [sn] else []
          else
            (if x.runsOut sn then [sn] else []) ++
              releaseLoopSns winStart n (i + 1) true (x.forceRelease sn)
        else
          let y := x.delTimerIf (x.timerPending && x.reorder.expired.sn == x.tid.winStart)
          if skb.cb.taint then releaseLoopSns winStart n (i + 1) false (y.purgeSlot index)
          else if isReleaseReady (skb :: l) || y.isMsduTimeout (skb :: l) then
            let z := (y.releaseSlot index).setWinStart (ieee80211SnInc y.tid.winStart)
            releaseLoopSns winStart n (i + 1) true (z.setStoredNum (z.tid.storedNum - 1))
          else if y.timerPending then []
          else if y.keepsSn sn then [sn]
          else []

def reorderReleaseSns (x : Rx) : List ℕ :=
  if x.live then releaseLoopSns x.tid.winStart x.tid.winSize 0 true x else []

def OutCall.sns (c : OutCall) : List ℕ :=
  if c.rx.tid.storedNum ≠ 0 ∧ c.release = true then c.rx.reorderReleaseSns else []

/-- The numbers of a call that nothing masks and that are kept. -/
def sns (x : Rx) : TidCall → List ℕ
  | .event (.frame skb) => ((x.ampduReorderCall (x.fresh skb)).map OutCall.sns).getD []
  | .event .timeout => []
  | .event .todo =>
    if x.live then
      (x.unlinkTodo.forceRelease x.reorder.todo.seq).clearActived.reorderReleaseSns
    else []
  | .event (.tick _) => []
  | .updateTidRx ssn => if x.live then [ssn.val] else []

/-- None of them is one that a mask would change. -/
def Unwrapped (x : Rx) (c : TidCall) : Prop := ∀ n ∈ x.sns c, n < IEEE80211_SN_MODULO

instance (x : Rx) (c : TidCall) : Decidable (x.Unwrapped c) :=
  inferInstanceAs (Decidable (∀ n ∈ _, _))

section
variable {x y : Rx} {sn toSn target fuel : ℕ} {c : Bool} {skb : Skb}

theorem InRange.congr (h : x.InRange) (hn : y.numbers = x.numbers) : y.InRange := by
  unfold numbers at hn
  simp only [Prod.mk.injEq] at hn
  obtain ⟨hw, he, ht⟩ := hn
  exact ⟨hw ▸ h.winStart, he ▸ h.expired, ht ▸ h.todo⟩

theorem inRange_congr (hn : y.numbers = x.numbers) : y.InRange ↔ x.InRange :=
  ⟨fun h => h.congr hn.symm, fun h => h.congr hn⟩

@[simp] theorem numbers_delTimer (x : Rx) : x.delTimer.numbers = x.numbers := rfl

@[simp] theorem numbers_delTimerIf (x : Rx) (c : Bool) : (x.delTimerIf c).numbers = x.numbers := by
  cases c <;> rfl

theorem ieee80211SnInc_lt (n : ℕ) : ieee80211SnInc n < IEEE80211_SN_MODULO :=
  Nat.mod_lt _ (by decide)

theorem InRange.setWinStart (h : x.InRange) (hsn : sn < IEEE80211_SN_MODULO) :
    (x.setWinStart sn).InRange := ⟨hsn, h.expired, h.todo⟩

theorem InRange.forceSlot (h : x.InRange) : x.forceSlot.InRange := by
  unfold Rx.forceSlot
  apply InRange.setWinStart _ (ieee80211SnInc_lt _)
  split
  · exact h
  · split <;> exact h.congr rfl

/-- The timer's number or that of the todo node becomes the one that is kept. -/
theorem InRange.setReorderTimer_iff (h : x.InRange) (sn : ℕ) :
    (x.setReorderTimer sn).InRange ↔ (x.keepsSn sn = true → sn < IEEE80211_SN_MODULO) := by
  unfold setReorderTimer keepsSn
  by_cases hp : (x.timerPending || x.reorder.refCnt != x.tid.refCnt) = true
  · rw [if_pos hp, hp]
    simpa using h
  · rw [if_neg hp, Bool.eq_false_of_not_eq_true hp]
    cases x.tid.reorderBuf (sn % x.tid.winSize) with
    | nil => simpa using h
    | cons skb l =>
      dsimp only
      by_cases ht : timeBefore x.now (skb.cb.rxTime + x.reorderTimeout) = true
      · rw [if_pos ht, ht]
        exact ⟨fun h' _ => h'.expired, fun hsn => ⟨h.winStart, hsn rfl, h.todo⟩⟩
      · rw [if_neg ht, Bool.eq_false_of_not_eq_true ht]
        cases ha : x.reorder.todo.actived with
        | true => simpa using h
        | false => exact ⟨fun h' _ => h'.todo, fun hsn => ⟨h.winStart, h.expired, hsn rfl⟩⟩

theorem tid_forceSlot_congr (h : y.tid = x.tid) : y.forceSlot.tid = x.forceSlot.tid := by
  unfold Rx.forceSlot
  dsimp only
  rw [h]
  cases x.tid.reorderBuf (x.tid.winStart % x.tid.winSize) with
  | nil => simp only [setWinStart, h]
  | cons skb l =>
    cases ht : skb.cb.taint <;>
      simp [ht, setWinStart, setStoredNum, purgeSlot, releaseSlot, setSlot, free, Rx.release, h]

theorem forceRunsOut_congr (h : y.tid = x.tid) :
    forceRunsOut target fuel y = forceRunsOut target fuel x := by
  induction fuel generalizing x y with
  | zero => rfl
  | succ fuel ih => rw [forceRunsOut, forceRunsOut, h, ih (tid_forceSlot_congr h)]

theorem InRange.forceLoop (h : x.InRange) (hout : forceRunsOut target fuel x = false) :
    (Rx.forceLoop toSn target fuel x).InRange := by
  induction fuel generalizing x with
  | zero => exact h
  | succ fuel ih =>
    unfold Rx.forceLoop
    split_ifs with hl h0
    · simp [forceRunsOut, hl, h0] at hout
    · rw [forceRunsOut, hl, Bool.true_and, Bool.or_eq_false_iff] at hout
      exact ih h.forceSlot hout.2
    · exact h

/-- Where it runs out, the window jumps, and nothing is stored. -/
theorem InRange.forceLoop_of_runsOut (h : x.InRange) (hout : forceRunsOut target fuel x = true) :
    (Rx.forceLoop toSn target fuel x).tid.storedNum = 0 ∧
      ((Rx.forceLoop toSn target fuel x).InRange ↔ toSn < IEEE80211_SN_MODULO) := by
  induction fuel generalizing x with
  | zero => cases hout
  | succ fuel ih =>
    rw [forceRunsOut, Bool.and_eq_true] at hout
    obtain ⟨hl, hout⟩ := hout
    unfold Rx.forceLoop
    rw [if_pos hl]
    by_cases h0 : x.tid.storedNum = 0
    · rw [if_pos h0]
      exact ⟨h0, fun h' => h'.winStart, h.setWinStart⟩
    · rw [if_neg h0]
      apply ih h.forceSlot
      rwa [beq_eq_false_iff_ne.mpr h0, Bool.false_or] at hout

theorem InRange.forceRelease (h : x.InRange) (hout : x.runsOut toSn = false) :
    (x.forceRelease toSn).InRange := by
  unfold Rx.forceRelease
  apply InRange.forceLoop
  · exact h.congr (numbers_delTimerIf ..)
  · rw [forceRunsOut_congr delTimerIf_tid]
    exact hout

theorem InRange.forceRelease_of_runsOut (h : x.InRange) (hout : x.runsOut toSn = true) :
    (x.forceRelease toSn).tid.storedNum = 0 ∧
      ((x.forceRelease toSn).InRange ↔ toSn < IEEE80211_SN_MODULO) := by
  unfold Rx.forceRelease
  apply InRange.forceLoop_of_runsOut
  · exact h.congr (numbers_delTimerIf ..)
  · rw [forceRunsOut_congr delTimerIf_tid]
    exact hout

/-- A forced release to a sequence number leaves sequence numbers. -/
theorem InRange.forceRelease_of_lt (h : x.InRange) (hsn : toSn < IEEE80211_SN_MODULO) :
    (x.forceRelease toSn).InRange := by
  cases hout : x.runsOut toSn with
  | false => exact h.forceRelease hout
  | true => exact (h.forceRelease_of_runsOut hout).2.mpr hsn

/-- A release that finds nothing stored only deletes the timer. -/
theorem releaseLoop_of_zero (winStart n i : ℕ) (release : Bool) (h0 : x.tid.storedNum = 0) :
    ((releaseLoop winStart n i release x).InRange ↔ x.InRange) ∧
      releaseLoopSns winStart n i release x = [] := by
  cases n with
  | zero => exact ⟨Iff.rfl, rfl⟩
  | succ n =>
    rw [releaseLoop, releaseLoopSns, if_pos h0, if_pos h0]
    exact ⟨inRange_congr (numbers_delTimer x), rfl⟩

theorem InRange.releaseLoop_iff (h : x.InRange) (winStart n i : ℕ) (release : Bool) :
    (releaseLoop winStart n i release x).InRange ↔
      ∀ m ∈ releaseLoopSns winStart n i release x, m < IEEE80211_SN_MODULO := by
  induction n generalizing i release x with
  | zero => simpa [releaseLoop, releaseLoopSns] using h
  | succ n ih =>
    unfold releaseLoop releaseLoopSns
    dsimp only
    by_cases h0 : x.tid.storedNum = 0
    · rw [if_pos h0, if_pos h0, inRange_congr (numbers_delTimer x)]
      simpa using h
    rw [if_neg h0, if_neg h0]
    cases x.tid.reorderBuf ((winStart + i) % x.tid.winSize) with
    | nil =>
      dsimp only
      cases x.timerPending with
      | true => simpa using h
      | false => exact ih h ..
    | cons skb l =>
      cases release with
      | false =>
        simp only [Bool.not_false, if_true]
        cases x.isMsduTimeout (skb :: l) with
        | false =>
          -- The loop ends with the timer.
          simp only [Bool.not_false, if_true]
          rw [h.setReorderTimer_iff]
          cases x.keepsSn (u16 (winStart + i)) <;> simp
        | true =>
          simp only [Bool.not_true, Bool.false_eq_true, if_false]
          cases hout : x.runsOut (u16 (winStart + i)) with
          | false => simpa using ih (h.forceRelease hout) (i + 1) true
          | true =>
            -- Nothing is stored behind the jump, so that the loop ends.
            obtain ⟨hzero, hjump⟩ := h.forceRelease_of_runsOut hout
            obtain ⟨hend, hnil⟩ := releaseLoop_of_zero winStart n (i + 1) true hzero
            rw [hend, hjump, hnil]
            simp
      | true =>
        simp only [Bool.not_true, Bool.false_eq_true, if_false]
        generalize hy : x.delTimerIf _ = y
        have hy : y.InRange := hy ▸ h.congr (numbers_delTimerIf ..)
        cases skb.cb.taint with
        | true =>
          rw [if_pos rfl, if_pos rfl]
          apply ih
          exact hy.congr rfl
        | false =>
          rw [if_neg Bool.false_ne_true, if_neg Bool.false_ne_true]
          cases isReleaseReady (skb :: l) || y.isMsduTimeout (skb :: l) with
          | true =>
            rw [if_pos rfl, if_pos rfl]
            apply ih
            exact (InRange.setWinStart (hy.congr rfl) (ieee80211SnInc_lt _)).congr rfl
          | false =>
            rw [if_neg Bool.false_ne_true, if_neg Bool.false_ne_true]
            cases y.timerPending with
            | true => simpa using hy
            | false =>
              rw [if_neg Bool.false_ne_true, if_neg Bool.false_ne_true, hy.setReorderTimer_iff]
              cases y.keepsSn (u16 (winStart + i)) <;> simp

theorem InRange.reorderRelease_iff (h : x.InRange) :
    x.reorderRelease.InRange ↔ ∀ m ∈ x.reorderReleaseSns, m < IEEE80211_SN_MODULO := by
  unfold reorderRelease reorderReleaseSns
  split_ifs
  · exact h.releaseLoop_iff ..
  · simpa using h

/-- `out` is reached with sequence numbers. -/
structure OutCall.InRange (c : OutCall) : Prop where
  rx : c.rx.InRange
  sn : ∀ sn ∈ c.sn, sn < IEEE80211_SN_MODULO

theorem OutCall.InRange.run_iff {c : OutCall} (h : c.InRange) :
    c.run.InRange ↔ ∀ m ∈ c.sns, m < IEEE80211_SN_MODULO := by
  unfold OutCall.run OutCall.sns Rx.out
  by_cases h0 : c.rx.tid.storedNum = 0
  · rw [if_neg (not_not_intro h0), if_neg fun hc => hc.1 h0, inRange_congr (numbers_delTimer c.rx)]
    simpa using h.rx
  · rw [if_pos h0]
    cases hr : c.release with
    | true =>
      rw [if_pos rfl, if_pos ⟨h0, rfl⟩]
      exact h.rx.reorderRelease_iff
    | false =>
      rw [if_neg Bool.false_ne_true, if_neg fun hc => Bool.false_ne_true hc.2]
      cases hsn : c.sn with
      | none => simpa using h.rx
      | some sn =>
        rw [h.rx.setReorderTimer_iff]
        have hlt := h.sn sn hsn
        simp [hlt]

theorem sn_lt (skb : Skb) : ∀ sn ∈ some skb.sn, sn < IEEE80211_SN_MODULO := by
  rintro sn ⟨⟩
  exact skb.desc.sn.isLt

theorem InRange.inSlotCall (h : x.InRange) (release : Bool) (skb : Skb) :
    (x.inSlotCall release skb).InRange := by
  unfold Rx.inSlotCall
  dsimp only
  split_ifs
  · refine ⟨InRange.setWinStart ?_ (ieee80211SnInc_lt _), sn_lt skb⟩
    exact h.congr (numbers_delTimerIf ..)
  · exact ⟨h.congr rfl, sn_lt skb⟩

theorem InRange.amsduInSlotCall (h : x.InRange) (release : Bool) (skb : Skb) :
    (x.amsduInSlotCall release skb).InRange := by
  rw [amsduInSlotCall_eq]
  dsimp only
  have hnone : ∀ sn ∈ (none : Option ℕ), sn < IEEE80211_SN_MODULO := by simp
  have hput : (x.put (skb.sn % x.tid.winSize) (x.withSubframe skb)).InRange := h.congr rfl
  by_cases hdup : x.isDup skb = true
  · rw [if_pos hdup]
    refine ⟨?_, hnone⟩
    dsimp only
    split_ifs <;> exact h.congr rfl
  · rw [if_neg hdup]
    split_ifs
    · exact ⟨hput, sn_lt skb⟩
    · exact ⟨InRange.setWinStart (hput.congr rfl) (ieee80211SnInc_lt _), hnone⟩
    · apply InRange.inSlotCall
      exact hput.congr rfl

theorem InRange.toSlotCall (h : x.InRange) (release : Bool) (skb : Skb) :
    (x.toSlotCall release skb).InRange := by
  unfold Rx.toSlotCall
  split_ifs
  · exact h.amsduInSlotCall ..
  · apply InRange.inSlotCall
    exact h.congr rfl
  · exact ⟨h.congr rfl, by simp⟩

/-- A frame forces the window to a difference of sequence numbers at most. -/
theorem InRange.ampduReorderCall (h : x.InRange) {c : OutCall}
    (hc : x.ampduReorderCall skb = some c) : c.InRange := by
  have hrecv : (x.received skb).InRange := h.congr rfl
  rcases ampduReorderCall_cases hc with ⟨-, rfl⟩ | ⟨y, release, hs, rfl⟩
  · exact ⟨hrecv.congr rfl, by simp⟩
  · apply InRange.toSlotCall
    unfold slotState tidSlotState at hs
    split_ifs at hs <;> cases hs
    · exact hrecv
    · apply hrecv.forceRelease_of_lt
      show (((skb.sn : ℤ) - (x.received skb).tid.winSize) % 4096).toNat < 4096
      omega

theorem InRange.ampduReorder_iff (h : x.InRange) (skb : Skb) :
    (x.ampduReorder skb).InRange ↔
      ∀ m ∈ ((x.ampduReorderCall skb).map OutCall.sns).getD [], m < IEEE80211_SN_MODULO := by
  cases hc : x.ampduReorderCall skb with
  | none =>
    have hp := passes_of_call_none hc
    generalize x.ampduReorder skb = y at hp ⊢
    have hy : y.InRange := by
      cases hp <;> exact h.congr rfl
    simpa using hy
  | some c =>
    rw [ampduReorder_of_call hc]
    exact (h.ampduReorderCall hc).run_iff

theorem InRange.rxTodo_iff (h : x.InRange) :
    x.rxTodo.InRange ↔ ∀ m ∈ x.sns (.event .todo), m < IEEE80211_SN_MODULO := by
  unfold sns
  cases hl : x.live with
  | true =>
    rw [rxTodo_of_live hl, if_pos rfl]
    apply InRange.reorderRelease_iff
    have hforced : (x.unlinkTodo.forceRelease x.reorder.todo.seq).InRange :=
      InRange.forceRelease_of_lt (h.congr rfl) h.todo
    exact hforced.congr rfl
  | false =>
    rw [rxTodo_of_not_live hl, if_neg Bool.false_ne_true]
    have hend : x.unlinkTodo.clearActived.InRange := h.congr rfl
    simpa using hend

theorem InRange.updateTidRx_iff (h : x.InRange) (ssn : Fin 65536) :
    (x.updateTidRx ssn).InRange ↔ ∀ m ∈ x.sns (.updateTidRx ssn), m < IEEE80211_SN_MODULO := by
  have hsns : x.sns (.updateTidRx ssn) = if x.live then [ssn.val] else [] := rfl
  rw [hsns]
  unfold updateTidRx
  cases x.live with
  | false => simpa using h
  | true =>
    rw [if_pos rfl, if_pos rfl, List.forall_mem_singleton]
    constructor
    · intro hy
      have ht := hy.todo
      revert ht
      dsimp only
      split_ifs <;> exact id
    · intro hssn
      refine ⟨h.winStart, h.expired, ?_⟩
      dsimp only
      split_ifs <;> exact hssn

theorem InRange.reorderTimeout (h : x.InRange) (hs : x.step .timeout = some y) : y.InRange := by
  unfold Rx.step at hs
  dsimp only at hs
  split at hs
  · split_ifs at hs
    cases hs
    unfold reorderTimeoutFn
    split_ifs
    · exact h.congr rfl
    · exact h.congr rfl
    · exact ⟨h.winStart, h.expired, h.expired⟩
  · cases hs

/-- What one call does: the numbers stay in their range exactly when none is kept that wrapped. -/
theorem InRange.call_iff (h : x.InRange) {c : TidCall} (hs : x.call c = some y) :
    y.InRange ↔ x.Unwrapped c := by
  unfold Unwrapped
  cases c with
  | updateTidRx ssn =>
    cases hs
    exact h.updateTidRx_iff ssn
  | event e =>
    cases e with
    | frame skb =>
      cases hs
      exact h.ampduReorder_iff _
    | timeout =>
      have hy : y.InRange := h.reorderTimeout hs
      simpa [sns] using hy
    | todo =>
      simp only [Rx.call, Rx.step] at hs
      split_ifs at hs
      cases hs
      exact h.rxTodo_iff
    | tick n =>
      cases hs
      have hy : ({ x with now := x.now + n } : Rx).InRange := h.congr rfl
      simpa [sns] using hy

end

end Rx
end Skw
