import Skw.Rx.Arrival
import Skw.Lib.Machine

/-! `stored_num` against the number of slots in use. Every branch keeps the two in step but the one
of `skw_reorder_release` that purges a tainted slot; the rounds that take it are counted. -/
namespace Skw
namespace Rx

variable {x y : Rx} {i n : ℕ} {l : List Skb} {skb : Skb} {release : Bool}

/-- By how much `stored_num` exceeds the number of slots in use. -/
def drift (x : Rx) : BitVec 32 := x.tid.storedNum - BitVec.ofNat 32 x.tid.occupied.card

/-- `stored_num` is the number of slots in use. -/
def Exact (x : Rx) : Prop := x.tid.storedNum.toNat = x.tid.occupied.card

/-- The rounds of the loop of `skw_reorder_release` that purge a tainted slot. -/
def releaseLoopTaints (winStart : ℕ) : ℕ → ℕ → Bool → Rx → ℕ
  | 0, _, _, _ => 0
  | n + 1, i, release, x =>
    if x.tid.storedNum = 0 then 0
    else
      let index := (winStart + i) % x.tid.winSize
      match x.tid.reorderBuf index with
      | [] => if x.timerPending then 0 else releaseLoopTaints winStart n (i + 1) false x
      | skb :: l =>
        if !release then
          if !x.isMsduTimeout (skb :: l) then 0
          else releaseLoopTaints winStart n (i + 1) true (x.forceRelease (u16 (winStart + i)))
        else
          let y := x.delTimerIf (x.timerPending && x.reorder.expired.sn == x.tid.winStart)
          if skb.cb.taint then releaseLoopTaints winStart n (i + 1) false (y.purgeSlot index) + 1
          else if isReleaseReady (skb :: l) || y.isMsduTimeout (skb :: l) then
            let z := (y.releaseSlot index).setWinStart (ieee80211SnInc y.tid.winStart)
            releaseLoopTaints winStart n (i + 1) true (z.setStoredNum (z.tid.storedNum - 1))
          else 0

def reorderReleaseTaints (x : Rx) : ℕ :=
  if x.live then releaseLoopTaints x.tid.winStart x.tid.winSize 0 true x else 0

/-- The arguments with which `skw_ampdu_reorder` gets to `out`. -/
structure OutCall where
  rx : Rx
  release : Bool
  sn : Option ℕ

def OutCall.run (c : OutCall) : Rx := c.rx.out c.release c.sn

/-- `out` calls `skw_reorder_release`. -/
def OutCall.taints (c : OutCall) : ℕ :=
  if c.rx.tid.storedNum ≠ 0 ∧ c.release = true then c.rx.reorderReleaseTaints else 0

def inSlotCall (x : Rx) (release : Bool) (skb : Skb) : OutCall :=
  let i := skb.sn % x.tid.winSize
  if skb.sn = x.tid.winStart then
    let y := x.releaseSlot i
    let z := y.delTimerIf (y.timerPending && y.reorder.expired.sn == y.tid.winStart)
    ⟨z.setWinStart (ieee80211SnInc z.tid.winStart), true, some skb.sn⟩
  else ⟨x.setStoredNum (x.tid.storedNum + 1), release, some skb.sn⟩

def amsduInSlotCall (x : Rx) (release : Bool) (skb : Skb) : OutCall :=
  let i := skb.sn % x.tid.winSize
  let l := x.tid.reorderBuf i
  let x := if l.isEmpty then x.setStoredNum (x.tid.storedNum + 1) else x
  let head := (l.head?.getD skb)
  if head.cb.amsduBitmap.getLsbD skb.desc.amsduIdx then ⟨x.free [skb], release, none⟩
  else
    let cb := markAmsdu skb head.cb
    let y := x.setSlot i ((l ++ [skb]).modifyHead fun head => { head with cb := cb })
    if cb.amsduBitmap ≠ cb.amsduMask then ⟨y, release, some skb.sn⟩
    else
      let y := y.setStoredNum (y.tid.storedNum - 1)
      if cb.taint then
        let z := y.purgeSlot i
        ⟨z.setWinStart (ieee80211SnInc z.tid.winStart), release, none⟩
      else y.inSlotCall release skb

def toSlotCall (x : Rx) (release : Bool) (skb : Skb) : OutCall :=
  if skb.desc.isAmsdu then x.amsduInSlotCall release skb
  else if (x.tid.reorderBuf (skb.sn % x.tid.winSize)).isEmpty then
    (x.setSlot (skb.sn % x.tid.winSize) [skb]).inSlotCall release skb
  else ⟨x.free [skb], release, none⟩

/-- How a frame of the session gets to `out`, if it does. -/
def tidReorderCall (x : Rx) (skb : Skb) : Option OutCall :=
  if ieee80211SnLess skb.sn x.tid.winStart then
    if skb.desc.exclFilter then none else some ⟨x.free [skb], false, none⟩
  else if ieee80211SnLess skb.sn (u16 (x.tid.winStart + x.tid.winSize)) then
    some (x.toSlotCall false skb)
  else some ((x.forceRelease (ieee80211SnSub skb.sn x.tid.winSize)).toSlotCall true skb)

def ampduReorderCall (x : Rx) (skb : Skb) : Option OutCall :=
  if reachesReorder x.reorderFlag x.peer skb && x.live then (x.received skb).tidReorderCall skb
  else none

theorem inSlot_eq_run (x : Rx) (release : Bool) (skb : Skb) :
    x.inSlot release skb = (x.inSlotCall release skb).run := by
  unfold inSlot inSlotCall
  dsimp only
  split <;> rfl

/-- A subframe joins its slot, which then stays, is purged or is released. -/
theorem amsduInSlotCall_eq (x : Rx) (release : Bool) (skb : Skb) :
    x.amsduInSlotCall release skb =
      let i := skb.sn % x.tid.winSize
      let y := if (x.tid.reorderBuf i).isEmpty then x.setStoredNum (x.tid.storedNum + 1) else x
      let z := x.put i (x.withSubframe skb)
      if x.isDup skb then ⟨y.free [skb], release, none⟩
      else if (x.joined skb).amsduBitmap ≠ (x.joined skb).amsduMask then ⟨z, release, some skb.sn⟩
      else if (x.joined skb).taint then ⟨(z.uncount.purgeSlot i).advance, release, none⟩
      else z.uncount.inSlotCall release skb := by
  unfold amsduInSlotCall
  simp only [setSlot_counted]
  rfl

theorem amsduInSlot_eq_run (x : Rx) (release : Bool) (skb : Skb) :
    x.amsduInSlot release skb = (x.amsduInSlotCall release skb).run := by
  unfold amsduInSlot amsduInSlotCall
  dsimp only
  split
  · rfl
  · split
    · rfl
    · split
      · rfl
      · exact inSlot_eq_run ..

theorem toSlot_eq_run (x : Rx) (release : Bool) (skb : Skb) :
    x.toSlot release skb = (x.toSlotCall release skb).run := by
  unfold toSlot toSlotCall
  split
  · exact amsduInSlot_eq_run ..
  · split
    · exact inSlot_eq_run ..
    · rfl

/-- Where `out` is not reached the buffer is not touched. -/
theorem tidReorder_eq_run (x : Rx) (skb : Skb) :
    (∃ c, x.tidReorderCall skb = some c ∧ x.tidReorder skb = c.run) ∨
      x.tidReorderCall skb = none ∧ (x.tidReorder skb).tid = x.tid := by
  unfold tidReorderCall
  by_cases hl : ieee80211SnLess skb.sn x.tid.winStart = true
  · rw [if_pos hl]
    unfold tidReorder
    rw [if_pos hl]
    split
    · exact .inr ⟨rfl, rfl⟩
    · exact .inl ⟨_, rfl, rfl⟩
  · rw [if_neg hl]
    have hl := Bool.eq_false_of_not_eq_true hl
    cases hin : ieee80211SnLess skb.sn (u16 (x.tid.winStart + x.tid.winSize)) with
    | true => exact .inl ⟨_, rfl, (tidReorder_of_in hl hin).trans (toSlot_eq_run ..)⟩
    | false => exact .inl ⟨_, rfl, (tidReorder_of_beyond hl hin).trans (toSlot_eq_run ..)⟩

theorem ampduReorder_eq_run (x : Rx) (skb : Skb) :
    (∃ c, x.ampduReorderCall skb = some c ∧ x.ampduReorder skb = c.run) ∨
      x.ampduReorderCall skb = none ∧ (x.ampduReorder skb).tid = x.tid := by
  unfold ampduReorderCall
  cases h : reachesReorder x.reorderFlag x.peer skb with
  | false => exact .inr ⟨rfl, tid_of_not_reachesReorder h⟩
  | true =>
    rw [ampduReorder_of_reachesReorder h]
    cases x.live with
    | false => exact .inr ⟨rfl, rfl⟩
    | true => exact tidReorder_eq_run (x.received skb) skb

theorem ampduReorder_of_call {c : OutCall} (h : x.ampduReorderCall skb = some c) :
    x.ampduReorder skb = c.run := by
  rcases ampduReorder_eq_run x skb with ⟨c', hc, hrun⟩ | ⟨hnone, -⟩
  · rw [h] at hc
    cases hc
    exact hrun
  · rw [h] at hnone
    cases hnone

theorem drift_uncount (x : Rx) : x.uncount.drift = x.drift - 1 := by
  have hocc : x.uncount.tid.occupied = x.tid.occupied := rfl
  have hnum : x.uncount.tid.storedNum = x.tid.storedNum - 1 := rfl
  unfold drift
  rw [hocc, hnum]
  bv_omega

/-- A slot in use becomes empty without being counted down. -/
theorem drift_clear (hi : i < x.tid.winSize) (hne : x.tid.reorderBuf i ≠ []) :
    (x.setSlot i []).drift = x.drift + 1 := by
  have hm : i ∈ x.tid.occupied := Window.mem_occupied.mpr ⟨hi, hne⟩
  have hocc : (x.setSlot i []).tid.occupied = x.tid.occupied.erase i :=
    Window.occupied_clear (t := x.tid) (u := (x.setSlot i []).tid) rfl rfl
  have hcard := Finset.card_erase_add_one hm
  have hnum : (x.setSlot i []).tid.storedNum = x.tid.storedNum := rfl
  unfold drift
  rw [hocc, hnum, ← hcard]
  bv_omega

theorem drift_purgeSlot (hi : i < x.tid.winSize) (hne : x.tid.reorderBuf i ≠ []) :
    (x.purgeSlot i).drift = x.drift + 1 := drift_clear (x := x.free _) hi hne

theorem drift_releaseSlot (hi : i < x.tid.winSize) (hne : x.tid.reorderBuf i ≠ []) :
    (x.releaseSlot i).drift = x.drift + 1 := drift_clear (x := x.release _) hi hne

/-- A slot that joins those in use is counted. -/
theorem drift_put (hi : i < x.tid.winSize) (hl : l ≠ []) : (x.put i l).drift = x.drift := by
  have hocc : (x.put i l).tid.occupied = insert i x.tid.occupied :=
    Window.occupied_fill (t := x.tid) (u := (x.put i l).tid) rfl hi hl rfl
  unfold drift
  rw [hocc]
  by_cases he : x.tid.reorderBuf i = []
  · have hnot : i ∉ x.tid.occupied := fun hm => (Window.mem_occupied.mp hm).2 he
    have hnum : (x.put i l).tid.storedNum = x.tid.storedNum + 1 := by
      unfold put
      rw [he, List.isEmpty_nil, if_pos rfl]
      rfl
    rw [Finset.card_insert_of_notMem hnot, hnum]
    bv_omega
  · have hm : i ∈ x.tid.occupied := Window.mem_occupied.mpr ⟨hi, he⟩
    have hnum : (x.put i l).tid.storedNum = x.tid.storedNum := by
      unfold put
      rw [if_neg (by simpa using he)]
      rfl
    rw [Finset.insert_eq_of_mem hm, hnum]

theorem stable_winSize (n : ℕ) : Stable fun x => x.tid.winSize = n where
  setWinStart _ _ h := h
  setStoredNum _ _ h := h
  setSlot _ _ _ h := h
  release _ _ h := h
  free _ _ h := h
  setTimer _ _ _ h := h
  linkTodo _ _ _ _ h := h
  setPeer _ _ _ _ h := h

theorem winSize_forceRelease (x : Rx) (toSn : ℕ) :
    (x.forceRelease toSn).tid.winSize = x.tid.winSize := (stable_winSize _).forceRelease rfl toSn

theorem drift_forceSlot (hz : 0 < x.tid.winSize) : x.forceSlot.drift = x.drift := by
  have hi := Nat.mod_lt x.tid.winStart hz
  unfold forceSlot
  cases hs : x.tid.reorderBuf (x.tid.winStart % x.tid.winSize) with
  | nil => simp only [hs]; rfl
  | cons skb l =>
    have hne : x.tid.reorderBuf (x.tid.winStart % x.tid.winSize) ≠ [] := by
      rw [hs]
      exact List.cons_ne_nil skb l
    simp only [hs]
    cases skb.cb.taint with
    | false =>
      change (x.releaseSlot (x.tid.winStart % x.tid.winSize)).uncount.drift = x.drift
      rw [drift_uncount, drift_releaseSlot hi hne]
      exact BitVec.add_sub_cancel ..
    | true =>
      change (x.purgeSlot (x.tid.winStart % x.tid.winSize)).uncount.drift = x.drift
      rw [drift_uncount, drift_purgeSlot hi hne]
      exact BitVec.add_sub_cancel ..

theorem drift_forceLoop (hz : 0 < x.tid.winSize) (toSn target fuel : ℕ) :
    (forceLoop toSn target fuel x).drift = x.drift := by
  induction fuel generalizing x with
  | zero => rfl
  | succ fuel ih =>
    unfold forceLoop
    split
    · split
      · rfl
      · have hsize : x.forceSlot.tid.winSize = x.tid.winSize := (stable_winSize _).forceSlot rfl
        rw [ih (hsize ▸ hz), drift_forceSlot hz]
    · rfl

theorem drift_delTimerIf (x : Rx) (c : Bool) : (x.delTimerIf c).drift = x.drift := by
  unfold drift
  rw [delTimerIf_tid]

theorem drift_forceRelease (hz : 0 < x.tid.winSize) (toSn : ℕ) :
    (x.forceRelease toSn).drift = x.drift := by
  unfold forceRelease
  dsimp only
  rw [drift_forceLoop (by rwa [delTimerIf_tid]), drift_delTimerIf]

theorem tid_setReorderTimer (x : Rx) (sn : ℕ) : (x.setReorderTimer sn).tid = x.tid := by
  unfold setReorderTimer
  split
  · rfl
  · split
    · rfl
    · dsimp only
      split_ifs <;> rfl

theorem drift_setReorderTimer (x : Rx) (sn : ℕ) : (x.setReorderTimer sn).drift = x.drift := by
  unfold drift
  rw [tid_setReorderTimer]

/-- Each round that purges a tainted slot leaves it counted. -/
theorem drift_releaseLoop (hz : 0 < x.tid.winSize) (winStart n i : ℕ) (release : Bool) :
    (releaseLoop winStart n i release x).drift =
      x.drift + BitVec.ofNat 32 (releaseLoopTaints winStart n i release x) := by
  induction n generalizing i release x with
  | zero => simp [releaseLoop, releaseLoopTaints]
  | succ n ih =>
    unfold releaseLoop releaseLoopTaints
    dsimp only
    have hi := Nat.mod_lt (winStart + i) hz
    split
    · exact (BitVec.add_zero _).symm
    · cases hs : x.tid.reorderBuf ((winStart + i) % x.tid.winSize) with
      | nil =>
        dsimp only
        split
        · exact (BitVec.add_zero _).symm
        · exact ih hz ..
      | cons skb l =>
        dsimp only
        have hne : x.tid.reorderBuf ((winStart + i) % x.tid.winSize) ≠ [] := by
          rw [hs]
          exact List.cons_ne_nil skb l
        cases release with
        | false =>
          simp only [Bool.not_false, if_true]
          split
          · rw [drift_setReorderTimer]
            exact (BitVec.add_zero _).symm
          · rw [ih (by rwa [winSize_forceRelease]), drift_forceRelease hz]
        | true =>
          simp only [Bool.not_true, Bool.false_eq_true, if_false]
          generalize hy : x.delTimerIf _ = y
          have htid : y.tid = x.tid := by rw [← hy, delTimerIf_tid]
          have hdrift : y.drift = x.drift := by rw [← hy, drift_delTimerIf]
          rw [← htid] at hi hne hz ⊢
          split
          · have hp := drift_purgeSlot hi hne
            have hrest := ih (x := y.purgeSlot ((winStart + i) % y.tid.winSize)) hz (i + 1) false
            rw [hrest, hp, hdrift, BitVec.ofNat_add, BitVec.add_assoc, BitVec.add_comm 1]
            rfl
          · split
            · have hr : (y.releaseSlot ((winStart + i) % y.tid.winSize)).uncount.drift = x.drift := by
                rw [drift_uncount, drift_releaseSlot hi hne, hdrift]
                exact BitVec.add_sub_cancel ..
              rw [ih]
              · exact congrArg (· + _) hr
              · exact hz
            · split
              · rw [hdrift]
                exact (BitVec.add_zero _).symm
              · rw [drift_setReorderTimer, hdrift]
                exact (BitVec.add_zero _).symm

theorem drift_reorderRelease (hz : 0 < x.tid.winSize) :
    x.reorderRelease.drift = x.drift + BitVec.ofNat 32 x.reorderReleaseTaints := by
  unfold reorderRelease reorderReleaseTaints
  split
  · exact drift_releaseLoop hz ..
  · exact (BitVec.add_zero _).symm

theorem OutCall.drift_run (c : OutCall) (hz : 0 < c.rx.tid.winSize) :
    c.run.drift = c.rx.drift + BitVec.ofNat 32 c.taints := by
  unfold OutCall.run OutCall.taints out
  by_cases h0 : c.rx.tid.storedNum = 0
  · rw [if_neg (not_not_intro h0), if_neg fun h => h.1 h0]
    exact (BitVec.add_zero _).symm
  · rw [if_pos h0]
    cases hr : c.release with
    | true =>
      rw [if_pos rfl, if_pos ⟨h0, rfl⟩]
      exact drift_reorderRelease hz
    | false =>
      rw [if_neg Bool.false_ne_true, if_neg fun h => Bool.false_ne_true h.2]
      cases c.sn with
      | none => exact (BitVec.add_zero _).symm
      | some sn => exact (drift_setReorderTimer ..).trans (BitVec.add_zero _).symm

/-- A frame that is in its slot alone or complete. -/
theorem drift_inSlotCall (hi : i < x.tid.winSize) (hsn : skb.sn % x.tid.winSize = i) (hl : l ≠ []) :
    ((x.put i l).uncount.inSlotCall release skb).rx.drift = x.drift := by
  have hsn' : skb.sn % (x.put i l).uncount.tid.winSize = i := hsn
  unfold inSlotCall
  simp only [hsn']
  split
  · have hne : (x.put i l).uncount.tid.reorderBuf i ≠ [] := by rwa [slot_uncount, slot_put]
    have hr := drift_releaseSlot (x := (x.put i l).uncount) hi hne
    rw [drift_uncount, drift_put hi hl, BitVec.sub_add_cancel] at hr
    exact (drift_delTimerIf _ _).trans hr
  · have hback : (x.put i l).uncount.tid.storedNum + 1 = (x.put i l).tid.storedNum :=
      BitVec.sub_add_cancel ..
    rw [hback]
    exact drift_put hi hl

theorem drift_amsduInSlotCall (hz : 0 < x.tid.winSize) (hf : skb.cb.amsduBitmap = 0) :
    (x.amsduInSlotCall release skb).rx.drift = x.drift := by
  have hi := Nat.mod_lt skb.sn hz
  rw [amsduInSlotCall_eq]
  have hl := x.withSubframe_ne_nil skb
  dsimp only
  split
  · next hdup =>
    have hne : x.tid.reorderBuf (skb.sn % x.tid.winSize) ≠ [] := by
      intro he
      unfold isDup at hdup
      rw [he] at hdup
      simp [hf] at hdup
    rw [if_neg (by simpa using hne)]
    rfl
  · split
    · exact drift_put hi hl
    · split
      · have hne : (x.put (skb.sn % x.tid.winSize) (x.withSubframe skb)).uncount.tid.reorderBuf
            (skb.sn % x.tid.winSize) ≠ [] := by rwa [slot_uncount, slot_put]
        have hp := drift_purgeSlot
          (x := (x.put (skb.sn % x.tid.winSize) (x.withSubframe skb)).uncount) hi hne
        rw [drift_uncount, drift_put hi hl, BitVec.sub_add_cancel] at hp
        exact hp
      · exact drift_inSlotCall hi rfl hl

theorem drift_toSlotCall (hz : 0 < x.tid.winSize) (hf : skb.cb.amsduBitmap = 0) :
    (x.toSlotCall release skb).rx.drift = x.drift := by
  unfold toSlotCall
  split
  · exact drift_amsduInSlotCall hz hf
  · split
    · next he =>
      rw [← uncount_put_of_empty (by simpa using he)]
      exact drift_inSlotCall (Nat.mod_lt _ hz) rfl (List.cons_ne_nil skb [])
    · rfl

/-- All that a frame does before `out` keeps the counter in step. -/
theorem drift_tidReorderCall (hz : 0 < x.tid.winSize) (hf : skb.cb.amsduBitmap = 0) {c : OutCall}
    (h : x.tidReorderCall skb = some c) : c.rx.drift = x.drift := by
  unfold tidReorderCall at h
  split_ifs at h <;> cases h
  · rfl
  · exact drift_toSlotCall hz hf
  · rw [drift_toSlotCall (by rwa [winSize_forceRelease]) hf, drift_forceRelease hz]

theorem Stable.put {P : Rx → Prop} (hP : Stable P) (h : P x) (i : ℕ) (l : List Skb) :
    P (x.put i l) := hP.setStoredNum _ _ (hP.setSlot _ _ _ h)

theorem Stable.inSlotCall {P : Rx → Prop} (hP : Stable P) (h : P x) (release : Bool) (skb : Skb) :
    P (x.inSlotCall release skb).rx := by
  unfold Rx.inSlotCall
  dsimp only
  split
  · exact hP.setWinStart _ _ (hP.delTimerIf (hP.releaseSlot h _) _)
  · exact hP.setStoredNum _ _ h

/-- What a frame does before `out` keeps what the functions keep that write to a session. -/
theorem Stable.toSlotCall {P : Rx → Prop} (hP : Stable P) (h : P x) (release : Bool) (skb : Skb) :
    P (x.toSlotCall release skb).rx := by
  unfold Rx.toSlotCall
  split
  · have hput := hP.put h (skb.sn % x.tid.winSize) (x.withSubframe skb)
    have huncount : P (x.put (skb.sn % x.tid.winSize) (x.withSubframe skb)).uncount :=
      hP.setStoredNum _ _ hput
    rw [amsduInSlotCall_eq]
    dsimp only
    split
    · apply hP.free
      split
      · exact hP.setStoredNum _ _ h
      · exact h
    · split
      · exact hput
      · split
        · exact hP.setWinStart _ _ (hP.purgeSlot huncount _)
        · exact hP.inSlotCall huncount ..
  · split
    · exact hP.inSlotCall (hP.setSlot _ _ _ h) ..
    · exact hP.free _ _ h

theorem Taking.inSlotCall {P : Rx → Prop} (hP : Taking P) (h : P x)
    {f : Skb} (hs : x.tid.reorderBuf (skb.sn % x.tid.winSize) = f :: l)
    (ht : f.cb.taint = false) (b : Bool) : P (x.inSlotCall b skb).rx := by
  unfold Rx.inSlotCall
  dsimp only
  split
  · exact hP.setWinStart _ _ (hP.delTimerIf (hP.releaseSlot _ _ _ _ hs ht h) _)
  · exact hP.setStoredNum _ _ h

/-- A subframe that joins its slot. -/
theorem Taking.amsduInSlotCall {P : Rx → Prop} (hP : Taking P) (hdup : x.isDup skb = false)
    (hput : P (x.put (skb.sn % x.tid.winSize) (x.withSubframe skb)))
    (b : Bool) : P (x.amsduInSlotCall b skb).rx := by
  have huncount : P (x.put (skb.sn % x.tid.winSize) (x.withSubframe skb)).uncount :=
    hP.setStoredNum _ _ hput
  rw [amsduInSlotCall_eq]
  dsimp only
  rw [hdup, if_neg Bool.false_ne_true]
  split
  · exact hput
  · split
    · exact hP.setWinStart _ _ (hP.purgeSlot _ _ huncount)
    · next ht =>
      obtain ⟨head, l, -, hwith⟩ := x.withSubframe_eq skb
      refine hP.inSlotCall huncount (f := { head with cb := x.joined skb }) (l := l) ?_
        (Bool.eq_false_of_not_eq_true ht) b
      exact (slot_put ..).trans hwith

/-- A frame that comes to its slot: it is dropped, or it is put there first. -/
theorem Taking.toSlotCall {P : Rx → Prop} (hP : Taking P) (hfree : ∀ x l, P x → P (x.free l))
    (h : P x) (ht : skb.cb.taint = false)
    (hput : skb.desc.isAmsdu = true → x.isDup skb = false →
      P (x.put (skb.sn % x.tid.winSize) (x.withSubframe skb)))
    (hset : skb.desc.isAmsdu = false → P (x.setSlot (skb.sn % x.tid.winSize) [skb]))
    (b : Bool) : P (x.toSlotCall b skb).rx := by
  unfold Rx.toSlotCall
  cases ha : skb.desc.isAmsdu with
  | true =>
    rw [if_pos rfl]
    cases hd : x.isDup skb with
    | true =>
      rw [amsduInSlotCall_eq]
      dsimp only
      rw [hd, if_pos rfl]
      apply hfree
      split
      · exact hP.setStoredNum _ _ h
      · exact h
    | false => exact hP.amsduInSlotCall hd (hput ha hd) b
  | false =>
    rw [if_neg Bool.false_ne_true]
    split
    · exact hP.inSlotCall (hset ha) (slot_setSlot ..) ht b
    · exact hfree _ _ h

theorem winSize_toSlotCall (x : Rx) (release : Bool) (skb : Skb) :
    (x.toSlotCall release skb).rx.tid.winSize = x.tid.winSize :=
  (stable_winSize _).toSlotCall rfl release skb

theorem winSize_tidReorderCall {c : OutCall} (h : x.tidReorderCall skb = some c) :
    c.rx.tid.winSize = x.tid.winSize := by
  unfold tidReorderCall at h
  split_ifs at h <;> cases h
  · rfl
  · exact winSize_toSlotCall ..
  · rw [winSize_toSlotCall, winSize_forceRelease]

theorem winSize_ampduReorderCall {c : OutCall} (h : x.ampduReorderCall skb = some c) :
    c.rx.tid.winSize = x.tid.winSize := by
  unfold ampduReorderCall at h
  split_ifs at h
  exact winSize_tidReorderCall (x := x.received skb) h

theorem drift_ampduReorderCall (hz : 0 < x.tid.winSize) (hf : skb.cb.amsduBitmap = 0) {c : OutCall}
    (h : x.ampduReorderCall skb = some c) : c.rx.drift = x.drift := by
  unfold ampduReorderCall at h
  split_ifs at h
  exact drift_tidReorderCall (x := x.received skb) hz hf h

theorem releaseLoopTaints_le (winStart n i : ℕ) (release : Bool) (x : Rx) :
    releaseLoopTaints winStart n i release x ≤ n := by
  induction n generalizing i release x with
  | zero => exact Nat.zero_le _
  | succ n ih =>
    unfold releaseLoopTaints
    dsimp only
    split
    · exact Nat.zero_le _
    · split
      · split
        · exact Nat.zero_le _
        · exact (ih ..).trans n.le_succ
      · split
        · split
          · exact Nat.zero_le _
          · exact (ih ..).trans n.le_succ
        · split
          · exact Nat.succ_le_succ (ih ..)
          · split
            · exact (ih ..).trans n.le_succ
            · exact Nat.zero_le _

theorem reorderReleaseTaints_le (x : Rx) : x.reorderReleaseTaints ≤ x.tid.winSize := by
  unfold reorderReleaseTaints
  split
  · exact releaseLoopTaints_le ..
  · exact Nat.zero_le _

theorem OutCall.taints_le (c : OutCall) : c.taints ≤ c.rx.tid.winSize := by
  unfold OutCall.taints
  split
  · exact c.rx.reorderReleaseTaints_le
  · exact Nat.zero_le _

/-- The three functions that work on a session, called in any order, and what the rest of the driver
changes between the calls: time, timer, todo node, peer and the two flags. -/
inductive CountEvent
  | ampduReorder (skb : Skb)
  | forceRelease (toSn : ℕ)
  | reorderRelease
  | elsewhere (now : Jiffies) (reorder : ReorderRx) (peer : Option Peer) (reorderFlag live : Bool)

def countStep (x : Rx) : CountEvent → Option Rx
  | .ampduReorder skb => some (x.ampduReorder (x.fresh skb))
  | .forceRelease toSn => some (x.forceRelease toSn)
  | .reorderRelease => some x.reorderRelease
  | .elsewhere now reorder peer reorderFlag live =>
    some { x with
      now := now, reorder := reorder, peer := peer, reorderFlag := reorderFlag, live := live }

/-- The rest of the driver writes to the timer and the todo node. -/
def reorderEvent (x : Rx) (reorder : ReorderRx) : CountEvent :=
  .elsewhere x.now reorder x.peer x.reorderFlag x.live

/-- What happens to a session in the driver is made of such calls. -/
theorem exec_countStep_of_step {e : RxEvent} (h : x.step e = some y) :
    ∃ es, Lib.exec countStep x es = some y := by
  cases e with
  | frame skb => exact ⟨[.ampduReorder skb], h⟩
  | timeout =>
    simp only [Rx.step] at h
    split at h
    · split_ifs at h
      cases Option.some.inj h
      refine ⟨[x.reorderEvent x.delTimer.reorderTimeoutFn.reorder], ?_⟩
      unfold reorderTimeoutFn
      split_ifs <;> rfl
    · cases h
  | todo =>
    simp only [Rx.step] at h
    split_ifs at h
    cases Option.some.inj h
    cases hlive : x.live with
    | true =>
      rw [rxTodo_of_live hlive]
      exact ⟨[x.reorderEvent x.unlinkTodo.reorder, .forceRelease x.reorder.todo.seq,
        (x.unlinkTodo.forceRelease x.reorder.todo.seq).reorderEvent
          (x.unlinkTodo.forceRelease x.reorder.todo.seq).clearActived.reorder, .reorderRelease], rfl⟩
    | false =>
      rw [rxTodo_of_not_live hlive]
      exact ⟨[x.reorderEvent x.unlinkTodo.clearActived.reorder], rfl⟩
  | tick n => exact ⟨[.elsewhere (x.now + n) x.reorder x.peer x.reorderFlag x.live], h⟩

/-- The rounds of a call that purge a tainted slot in `skw_reorder_release`. -/
def countTaints (x : Rx) : CountEvent → ℕ
  | .ampduReorder skb => ((x.ampduReorderCall (x.fresh skb)).map OutCall.taints).getD 0
  | .forceRelease _ => 0
  | .reorderRelease => x.reorderReleaseTaints
  | .elsewhere .. => 0

/-- A call leaves the counter too high by the tainted slots that it purges on release. -/
theorem drift_countStep {e : CountEvent} (hz : 0 < x.tid.winSize) (h : x.countStep e = some y) :
    y.drift = x.drift + BitVec.ofNat 32 (x.countTaints e) ∧ y.tid.winSize = x.tid.winSize ∧
      x.countTaints e ≤ x.tid.winSize := by
  cases e with
  | ampduReorder skb =>
    cases Option.some.inj h
    have hsize : (x.ampduReorder (x.fresh skb)).tid.winSize = x.tid.winSize :=
      (stable_winSize _).ampduReorder rfl _
    rcases ampduReorder_eq_run x (x.fresh skb) with ⟨c, hc, hrun⟩ | ⟨hc, htid⟩
    · have hcdrift := drift_ampduReorderCall hz rfl hc
      have hcsize := winSize_ampduReorderCall hc
      have htaints : x.countTaints (.ampduReorder skb) = c.taints := by simp [countTaints, hc]
      rw [htaints, hrun, ← hcdrift]
      exact ⟨c.drift_run (hcsize ▸ hz), hrun ▸ hsize, hcsize ▸ c.taints_le⟩
    · have htaints : x.countTaints (.ampduReorder skb) = 0 := by simp [countTaints, hc]
      rw [htaints]
      refine ⟨?_, hsize, Nat.zero_le _⟩
      unfold drift
      rw [htid]
      exact (BitVec.add_zero _).symm
  | forceRelease toSn =>
    cases Option.some.inj h
    exact ⟨(drift_forceRelease hz toSn).trans (BitVec.add_zero _).symm,
      winSize_forceRelease x toSn, Nat.zero_le _⟩
  | reorderRelease =>
    cases Option.some.inj h
    exact ⟨drift_reorderRelease hz, (stable_winSize _).reorderRelease rfl,
      x.reorderReleaseTaints_le⟩
  | elsewhere now reorder peer reorderFlag live =>
    cases Option.some.inj h
    exact ⟨(BitVec.add_zero _).symm, rfl, Nat.zero_le _⟩

theorem exact_iff_drift (hz : x.tid.winSize < 65536) : x.Exact ↔ x.drift = 0 := by
  have hcard := Window.occupied_card_le (t := x.tid)
  unfold Exact drift
  bv_omega

/-- The first of several subframes of a tainted A-MSDU. -/
def snapSubframe (sn : Fin 4096) : Skb :=
  { plain sn with
    desc := { (plain sn).desc with amsduIdx := 1, isAmsdu := true, amsduFirstIdx := true }
    hDest := 0xAAAA03000000 }

end Rx
end Skw
