import Skw.Rx.Bar
import Skw.Rx.Counter

/-! How the start of a window moves: by one with the slot that is emptied before it, or in a forced
release. The slot is that of the sequence number which the window leaves, unless a tainted A-MSDU
is complete elsewhere. -/
namespace Skw

namespace Rx

/-- A move of `win_start`: by one after a slot is released or purged, or in a forced release. -/
inductive Move
  | emptied (winStart slot : ℕ)
  | forced (steps : ℕ)

def Move.steps : Move → ℕ
  | .emptied .. => 1
  | .forced n => n

def totalSteps (moves : List Move) : ℕ := (moves.map Move.steps).sum

/-- The slot is that of the sequence number which the window leaves. -/
def Move.Own (ws : ℕ) : Move → Prop
  | .emptied winStart slot => slot = winStart % ws
  | .forced _ => True

def forceMove (x : Rx) (toSn : ℕ) : Move := .forced ((x.forceRelease toSn).pos - x.pos)

/-- The moves in the loop of `skw_reorder_release`. -/
def releaseLoopMoves (winStart : ℕ) : ℕ → ℕ → Bool → Rx → List Move
  | 0, _, _, _ => []
  | n + 1, i, release, x =>
    if x.tid.storedNum = 0 then []
    else
      let index := (winStart + i) % x.tid.winSize
      match x.tid.reorderBuf index with
      | [] => if x.timerPending then [] else releaseLoopMoves winStart n (i + 1) false x
      | skb :: l =>
        if !release then
          if !x.isMsduTimeout (skb :: l) then []
          else
            x.forceMove (u16 (winStart + i)) ::
              releaseLoopMoves winStart n (i + 1) true (x.forceRelease (u16 (winStart + i)))
        else
          let y := x.delTimerIf (x.timerPending && x.reorder.expired.sn == x.tid.winStart)
          if skb.cb.taint then releaseLoopMoves winStart n (i + 1) false (y.purgeSlot index)
          else if isReleaseReady (skb :: l) || y.isMsduTimeout (skb :: l) then
            let z := (y.releaseSlot index).setWinStart (ieee80211SnInc y.tid.winStart)
            .emptied y.tid.winStart index ::
              releaseLoopMoves winStart n (i + 1) true (z.setStoredNum (z.tid.storedNum - 1))
          else []

def reorderReleaseMoves (x : Rx) : List Move :=
  if x.live then releaseLoopMoves x.tid.winStart x.tid.winSize 0 true x else []

/-- A subframe completes an A-MSDU that is tainted. -/
def CompletesTainted (x : Rx) (skb : Skb) : Prop :=
  skb.desc.isAmsdu = true ∧ x.isDup skb = false ∧
    (x.joined skb).amsduBitmap = (x.joined skb).amsduMask ∧ (x.joined skb).taint = true

instance (x : Rx) (skb : Skb) : Decidable (x.CompletesTainted skb) :=
  inferInstanceAs (Decidable (_ ∧ _ ∧ _ ∧ _))

/-- The frames of the slot that the frame comes to are complete and not tainted. -/
def Completes (x : Rx) (skb : Skb) : Prop :=
  if skb.desc.isAmsdu then
    x.isDup skb = false ∧ (x.joined skb).amsduBitmap = (x.joined skb).amsduMask ∧
      (x.joined skb).taint = false
  else x.tid.reorderBuf (skb.sn % x.tid.winSize) = []

instance (x : Rx) (skb : Skb) : Decidable (x.Completes skb) := by
  unfold Completes
  infer_instance

/-- The move with which a frame that comes to its slot empties it. -/
def toSlotMoves (x : Rx) (skb : Skb) : List Move :=
  if x.CompletesTainted skb ∨ x.Completes skb ∧ skb.sn = x.tid.winStart then
    [.emptied x.tid.winStart (skb.sn % x.tid.winSize)]
  else []

def tidSlotState (x : Rx) (skb : Skb) : Option Rx :=
  if ieee80211SnLess skb.sn x.tid.winStart then none
  else if ieee80211SnLess skb.sn (u16 (x.tid.winStart + x.tid.winSize)) then some x
  else some (x.forceRelease (ieee80211SnSub skb.sn x.tid.winSize))

/-- The session as a frame finds it that comes to its slot. -/
def slotState (x : Rx) (skb : Skb) : Option Rx :=
  if reachesReorder x.reorderFlag x.peer skb && x.live then (x.received skb).tidSlotState skb
  else none

def OutCall.moves (c : OutCall) : List Move :=
  if c.rx.tid.storedNum ≠ 0 ∧ c.release = true then c.rx.reorderReleaseMoves else []

/-- A frame forces the window to its sequence number, empties its slot, and has more released. -/
def ampduReorderMoves (x : Rx) (skb : Skb) : List Move :=
  ((x.slotState skb).map fun y => .forced (y.pos - x.pos) :: y.toSlotMoves skb).getD [] ++
    ((x.ampduReorderCall skb).map OutCall.moves).getD []

def rxTodoMoves (x : Rx) : List Move :=
  if x.live then
    x.unlinkTodo.forceMove x.reorder.todo.seq ::
      (x.unlinkTodo.forceRelease x.reorder.todo.seq).clearActived.reorderReleaseMoves
  else []

/-- The moves of `win_start` in a call. -/
def moves (x : Rx) : BufCall → List Move
  | .event (.frame skb) => x.ampduReorderMoves (x.fresh skb)
  | .event .timeout => []
  | .event .todo => x.rxTodoMoves
  | .event (.tick _) => []
  | .forceRelease toSn => [x.forceMove toSn]
  | .reorderRelease => x.reorderReleaseMoves
  | .freeTidRx => [x.forceMove (ieee80211SnAdd x.tid.winStart (x.tid.winSize - 1))]

variable {ws : ℕ} {x y : Rx} {i n p q : ℕ} {skb : Skb} {release : Bool} {m : Move}

theorem totalSteps_cons (m : Move) (ms : List Move) :
    totalSteps (m :: ms) = m.steps + totalSteps ms := List.sum_cons

theorem totalSteps_append (ms ms' : List Move) :
    totalSteps (ms ++ ms') = totalSteps ms + totalSteps ms' := by
  unfold totalSteps
  rw [List.map_append, List.sum_append]

/-- The window does not move back. -/
theorem stable_pos (n : ℕ) : Stable fun x => n ≤ x.pos where
  setWinStart _ _ h := h.trans (Nat.le_add_right ..)
  setStoredNum _ _ h := h
  setSlot _ _ _ h := h
  release _ _ h := h
  free _ _ h := h
  setTimer _ _ _ h := h
  linkTodo _ _ _ _ h := h
  setPeer _ _ _ _ h := h

theorem pos_forceRelease (x : Rx) (toSn : ℕ) :
    (x.forceRelease toSn).pos = x.pos + (x.forceMove toSn).steps :=
  (Nat.add_sub_cancel' ((stable_pos x.pos).forceRelease le_rfl toSn)).symm

theorem pos_setReorderTimer (x : Rx) (sn : ℕ) : (x.setReorderTimer sn).pos = x.pos := by
  unfold setReorderTimer
  split
  · rfl
  · split
    · rfl
    · dsimp only
      split_ifs <;> rfl

theorem pos_releaseLoop (winStart n i : ℕ) (release : Bool) (x : Rx) :
    (releaseLoop winStart n i release x).pos =
      x.pos + totalSteps (releaseLoopMoves winStart n i release x) := by
  induction n generalizing i release x with
  | zero => rfl
  | succ n ih =>
    unfold releaseLoop releaseLoopMoves
    dsimp only
    split
    · rfl
    · cases x.tid.reorderBuf ((winStart + i) % x.tid.winSize) with
      | nil =>
        dsimp only
        split
        · rfl
        · exact ih ..
      | cons skb l =>
        dsimp only
        split
        · split
          · exact pos_setReorderTimer ..
          · rw [ih, pos_forceRelease, totalSteps_cons, Nat.add_assoc]
        · generalize hy : x.delTimerIf _ = y
          have hpos : y.pos = x.pos := hy ▸ delTimerIf_pos
          split
          · exact (ih ..).trans (congrArg (· + _) hpos)
          · split
            · rw [ih, totalSteps_cons, ← Nat.add_assoc, ← hpos]
              exact congrArg (· + _) (congrArg (y.pos + ·) (ieee80211SnSub_inc _))
            · split
              · exact hpos
              · exact (pos_setReorderTimer ..).trans hpos

theorem pos_reorderRelease (x : Rx) :
    x.reorderRelease.pos = x.pos + totalSteps x.reorderReleaseMoves := by
  unfold reorderRelease reorderReleaseMoves
  split
  · exact pos_releaseLoop ..
  · rfl

theorem OutCall.pos_run (c : OutCall) : c.run.pos = c.rx.pos + totalSteps c.moves := by
  unfold OutCall.run OutCall.moves out
  by_cases h0 : c.rx.tid.storedNum = 0
  · rw [if_neg (not_not_intro h0), if_neg fun h => h.1 h0]
    rfl
  · rw [if_pos h0]
    cases hr : c.release with
    | true =>
      rw [if_pos rfl, if_pos ⟨h0, rfl⟩]
      exact pos_reorderRelease ..
    | false =>
      rw [if_neg Bool.false_ne_true, if_neg fun h => Bool.false_ne_true h.2]
      cases c.sn with
      | none => rfl
      | some sn => exact pos_setReorderTimer ..

theorem pos_inSlotCall (x : Rx) (release : Bool) (skb : Skb) :
    (x.inSlotCall release skb).rx.pos = x.pos + if skb.sn = x.tid.winStart then 1 else 0 := by
  unfold inSlotCall
  dsimp only
  split
  · exact (advance_pos _).trans (congrArg (· + 1) delTimerIf_pos)
  · rfl

theorem toSlotMoves_of (h : x.CompletesTainted skb ∨ x.Completes skb ∧ skb.sn = x.tid.winStart) :
    x.toSlotMoves skb = [.emptied x.tid.winStart (skb.sn % x.tid.winSize)] := if_pos h

theorem toSlotMoves_of_not
    (h : ¬ (x.CompletesTainted skb ∨ x.Completes skb ∧ skb.sn = x.tid.winStart)) :
    x.toSlotMoves skb = [] := if_neg h

/-- A frame that completes its slot moves the window if this is the slot at its start. -/
theorem pos_inSlotCall_of_completes (hc : x.Completes skb) (ht : ¬ x.CompletesTainted skb)
    (hp : y.pos = x.pos) (hs : y.tid.winStart = x.tid.winStart) :
    (y.inSlotCall release skb).rx.pos = x.pos + totalSteps (x.toSlotMoves skb) := by
  rw [pos_inSlotCall, hp, hs]
  split
  · next hsn =>
    rw [toSlotMoves_of (.inr ⟨hc, hsn⟩)]
    rfl
  · next hsn =>
    rw [toSlotMoves_of_not fun h => h.elim ht fun h => hsn h.2]
    rfl

theorem completes_of_amsdu (ha : skb.desc.isAmsdu = true) : x.Completes skb ↔
    x.isDup skb = false ∧ (x.joined skb).amsduBitmap = (x.joined skb).amsduMask ∧
      (x.joined skb).taint = false := by
  unfold Completes
  rw [if_pos ha]

theorem completes_of_single (ha : skb.desc.isAmsdu = false) :
    x.Completes skb ↔ x.tid.reorderBuf (skb.sn % x.tid.winSize) = [] := by
  unfold Completes
  rw [if_neg (by simp [ha])]

theorem pos_amsduInSlotCall (ha : skb.desc.isAmsdu = true) (release : Bool) :
    (x.amsduInSlotCall release skb).rx.pos = x.pos + totalSteps (x.toSlotMoves skb) := by
  rw [amsduInSlotCall_eq]
  dsimp only
  by_cases hd : x.isDup skb = true
  · rw [if_pos hd, toSlotMoves_of_not]
    · dsimp only
      split <;> rfl
    · rw [completes_of_amsdu ha]
      simp [CompletesTainted, hd]
  · have hd' := Bool.eq_false_of_not_eq_true hd
    rw [if_neg hd]
    by_cases hm : (x.joined skb).amsduBitmap = (x.joined skb).amsduMask
    · rw [if_neg (not_not_intro hm)]
      cases ht : (x.joined skb).taint with
      | true =>
        rw [if_pos rfl, toSlotMoves_of (.inl ⟨ha, hd', hm, ht⟩), advance_pos, pos_purgeSlot,
          pos_uncount, pos_put]
        rfl
      | false =>
        rw [if_neg Bool.false_ne_true]
        refine pos_inSlotCall_of_completes ((completes_of_amsdu ha).mpr ⟨hd', hm, ht⟩) ?_ rfl rfl
        simp [CompletesTainted, ht]
    · rw [if_pos hm, toSlotMoves_of_not]
      · rfl
      · rw [completes_of_amsdu ha]
        simp [CompletesTainted, hm]

theorem pos_toSlotCall (x : Rx) (release : Bool) (skb : Skb) :
    (x.toSlotCall release skb).rx.pos = x.pos + totalSteps (x.toSlotMoves skb) := by
  unfold toSlotCall
  cases ha : skb.desc.isAmsdu with
  | true =>
    rw [if_pos rfl]
    exact pos_amsduInSlotCall ha release
  | false =>
    have hnot : ¬ x.CompletesTainted skb := fun ⟨h, _⟩ => by simp [ha] at h
    have hiff := completes_of_single (x := x) ha
    rw [if_neg Bool.false_ne_true]
    split
    · next he => exact pos_inSlotCall_of_completes (hiff.mpr (by simpa using he)) hnot rfl rfl
    · next he =>
      rw [toSlotMoves_of_not]
      · rfl
      · rw [hiff]
        exact fun h => h.elim hnot fun hc => he (by simp [hc.1])

theorem tidReorderCall_cases {c : OutCall} (h : x.tidReorderCall skb = some c) :
    (x.tidSlotState skb = none ∧ c = ⟨x.free [skb], false, none⟩) ∨
      ∃ y release, x.tidSlotState skb = some y ∧ c = y.toSlotCall release skb := by
  unfold tidReorderCall at h
  unfold tidSlotState
  split_ifs at h ⊢ with hl hexcl hin <;> cases h
  · exact .inl ⟨rfl, rfl⟩
  · exact .inr ⟨x, false, rfl, rfl⟩
  · exact .inr ⟨_, true, rfl, rfl⟩

theorem tidReorderCall_of_slotState (h : x.tidSlotState skb = some y) :
    ∃ release, x.tidReorderCall skb = some (y.toSlotCall release skb) := by
  unfold tidSlotState at h
  unfold tidReorderCall
  split_ifs at h ⊢ with hl hin <;> cases h
  · exact ⟨false, rfl⟩
  · exact ⟨true, rfl⟩

/-- How a frame gets to `out`: it is dropped where it is late, or it comes to its slot. -/
theorem ampduReorderCall_cases {c : OutCall} (h : x.ampduReorderCall skb = some c) :
    (x.slotState skb = none ∧ c = ⟨(x.received skb).free [skb], false, none⟩) ∨
      ∃ y release, x.slotState skb = some y ∧ c = y.toSlotCall release skb := by
  unfold ampduReorderCall at h
  unfold slotState
  split_ifs at h ⊢
  exact tidReorderCall_cases h

theorem ampduReorderCall_of_slotState (h : x.slotState skb = some y) :
    ∃ release, x.ampduReorderCall skb = some (y.toSlotCall release skb) := by
  unfold slotState at h
  unfold ampduReorderCall
  split_ifs at h ⊢
  exact tidReorderCall_of_slotState h

theorem tidReorder_of_call_none (h : x.tidReorderCall skb = none) :
    (ieee80211SnLess skb.sn x.tid.winStart = true ∧ skb.desc.exclFilter = true) ∧
      x.tidReorder skb = x.release [{ skb with cb := { skb.cb with skipReplayDetect := true } }] := by
  unfold tidReorderCall at h
  split_ifs at h with hl he
  unfold tidReorder
  rw [if_pos hl, if_pos he]
  exact ⟨⟨hl, he⟩, rfl⟩

theorem passes_of_call_none (h : x.ampduReorderCall skb = none) :
    x.Passes skb (x.ampduReorder skb) := by
  unfold ampduReorderCall at h
  cases hr : reachesReorder x.reorderFlag x.peer skb with
  | false => exact passes_of_not_reachesReorder hr
  | true =>
    rw [ampduReorder_of_reachesReorder hr]
    cases hl : x.live with
    | false => exact .release (x.received skb).peer skb rfl fun he => by simp [env, hl] at he
    | true =>
      rw [hr, hl, Bool.and_self, if_pos rfl] at h
      obtain ⟨hlate, hin⟩ := tidReorder_of_call_none h
      rw [if_pos rfl, hin]
      exact .release (x.received skb).peer _ rfl fun _ _ => hlate

theorem slotState_of_call_none (h : x.ampduReorderCall skb = none) : x.slotState skb = none := by
  cases hs : x.slotState skb with
  | none => rfl
  | some y =>
    obtain ⟨release, hc⟩ := ampduReorderCall_of_slotState hs
    rw [h] at hc
    cases hc

theorem Stable.received {P : Rx → Prop} (hP : Stable P) (h : P x) (skb : Skb) :
    P (x.received skb) := by
  unfold Rx.received
  cases hp : x.peer with
  | none =>
    rw [Option.map_none, ← hp]
    exact h
  | some q => exact hP.setPeer x _ q hp h

theorem Taking.slotState {P : Rx → Prop} (hP : Taking P) (h : P (x.received skb))
    (hs : x.slotState skb = some y) : P y := by
  unfold Rx.slotState tidSlotState at hs
  split_ifs at hs <;> cases hs
  · exact h
  · exact hP.forceRelease h _

theorem Stable.slotState {P : Rx → Prop} (hP : Stable P) (h : P x) (hs : x.slotState skb = some y) :
    P y := hP.taking.slotState (hP.received h skb) hs

theorem pos_ampduReorder (x : Rx) (skb : Skb) :
    (x.ampduReorder skb).pos = x.pos + totalSteps (x.ampduReorderMoves skb) := by
  unfold ampduReorderMoves
  cases hc : x.ampduReorderCall skb with
  | none =>
    rw [slotState_of_call_none hc]
    have hp := passes_of_call_none hc
    generalize x.ampduReorder skb = y at hp ⊢
    cases hp <;> rfl
  | some c =>
    rw [ampduReorder_of_call hc, OutCall.pos_run, totalSteps_append]
    rcases ampduReorderCall_cases hc with ⟨hs, rfl⟩ | ⟨y, release, hs, rfl⟩
    · rw [hs]
      exact congrArg (x.pos + ·) (Nat.zero_add _).symm
    · have hle : x.pos ≤ y.pos := (stable_pos x.pos).slotState le_rfl hs
      rw [hs, pos_toSlotCall]
      simp only [Option.map_some, Option.getD_some, totalSteps_cons, Move.steps]
      omega

theorem pos_rxTodo (x : Rx) : x.rxTodo.pos = x.pos + totalSteps x.rxTodoMoves := by
  unfold rxTodoMoves
  cases hl : x.live with
  | true =>
    rw [rxTodo_of_live hl, pos_reorderRelease, if_pos rfl, totalSteps_cons, ← Nat.add_assoc]
    exact congrArg (· + _) (pos_forceRelease x.unlinkTodo _)
  | false =>
    rw [rxTodo_of_not_live hl]
    rfl

/-- The moves of a call are all that it does to the start of the window. -/
theorem pos_call {s t : RxRun} {c : BufCall} (h : s.call c = some t) :
    t.rx.pos = s.rx.pos + totalSteps (s.rx.moves c) := by
  unfold RxRun.call at h
  split_ifs at h
  cases c with
  | forceRelease toSn =>
    cases h
    exact pos_forceRelease ..
  | reorderRelease =>
    cases h
    exact pos_reorderRelease ..
  | freeTidRx =>
    cases h
    exact pos_forceRelease ..
  | event e =>
    cases e with
    | frame skb =>
      cases h
      exact pos_ampduReorder ..
    | timeout =>
      obtain ⟨y, hy, rfl⟩ := Option.map_eq_some_iff.mp h
      simp only [Rx.step] at hy
      split at hy
      · split_ifs at hy
        cases hy
        unfold reorderTimeoutFn
        split_ifs <;> rfl
      · cases hy
    | todo =>
      obtain ⟨y, hy, rfl⟩ := Option.map_eq_some_iff.mp h
      simp only [Rx.step] at hy
      split_ifs at hy
      cases hy
      exact pos_rxTodo ..
    | tick n =>
      cases h
      rfl

/-- A property of a session that is kept by what takes frames out, and by the frame of a call. -/
theorem Taking.call {P : Rx → Prop} {s t : RxRun} {c : BufCall} (hP : Taking P)
    (htodo : ∀ x t, P x → P { x with reorder := { x.reorder with todo := t } })
    (htick : ∀ x n, P x → P { x with now := n })
    (hframe : ∀ skb, c = .event (.frame skb) → P (s.rx.ampduReorder (s.rx.fresh skb)))
    (h : P s.rx) (hc : s.call c = some t) : P t.rx := by
  unfold RxRun.call at hc
  split_ifs at hc
  cases c with
  | forceRelease toSn =>
    cases hc
    exact hP.forceRelease h _
  | reorderRelease =>
    cases hc
    exact hP.reorderRelease h
  | freeTidRx =>
    cases hc
    exact hP.forceRelease h _
  | event e =>
    cases e with
    | frame skb =>
      cases hc
      exact hframe skb rfl
    | timeout | todo | tick =>
      obtain ⟨y, hy, rfl⟩ := Option.map_eq_some_iff.mp hc
      exact hP.step htodo htick (by simp) h hy

theorem Stable.call {P : Rx → Prop} {s t : RxRun} {c : BufCall} (hP : Stable P)
    (htodo : ∀ x t, P x → P { x with reorder := { x.reorder with todo := t } })
    (htick : ∀ x n, P x → P { x with now := n }) (h : P s.rx) (hc : s.call c = some t) : P t.rx :=
  hP.taking.call htodo htick (fun _ _ => hP.ampduReorder h _) h hc

theorem forceSlot_pos (x : Rx) : x.forceSlot.pos = x.pos + 1 := by
  unfold forceSlot
  dsimp only
  split
  · exact congrArg (x.pos + ·) (ieee80211SnSub_inc _)
  · split <;> exact congrArg (x.pos + ·) (ieee80211SnSub_inc _)

/-- A forced release gets to its target unless nothing is stored. -/
theorem forceLoop_end {toSn target : ℕ} (fuel : ℕ) (hs : x.StartsAt)
    (ht : target % 4096 = q % 4096) (hle : x.pos ≤ q) (hlt : q < x.pos + 2048)
    (hfuel : q ≤ x.pos + fuel) :
    (forceLoop toSn target fuel x).tid.storedNum = 0 ∨ (forceLoop toSn target fuel x).pos = q := by
  induction fuel generalizing x with
  | zero => exact .inr (by unfold forceLoop; omega)
  | succ fuel ih =>
    have hless := ieee80211SnLess_iff hs ht (by omega) hlt
    unfold forceLoop
    by_cases hl : x.pos < q
    · rw [if_pos (hless.mpr hl)]
      split
      · next h0 => exact .inl h0
      · have hpos := forceSlot_pos x
        exact ih (stable_startsAt.forceSlot hs) (by omega) (by omega) (by omega)
    · rw [if_neg fun h => hl (hless.mp h)]
      exact .inr (by omega)

theorem forceRelease_end {toSn : ℕ} (hs : x.StartsAt) (ht : toSn % 4096 = q % 4096)
    (hle : x.pos ≤ q + 1) (hlt : q + 1 < x.pos + 2048) :
    (x.forceRelease toSn).tid.storedNum = 0 ∨ (x.forceRelease toSn).pos = q + 1 := by
  unfold forceRelease
  generalize (x.timerPending && x.reorder.refCnt == x.tid.refCnt && _) = c
  have hpos : (x.delTimerIf c).pos = x.pos := delTimerIf_pos
  exact forceLoop_end 2048 (stable_startsAt.delTimerIf hs c) (ieee80211SnInc_mod ht) (by omega)
    (by omega) (by omega)

/-- In round `i` a slot is released where the window starts at position `p + i`. -/
theorem own_releaseLoop (hd : ws ∣ 4096) (hws : ws ≤ 2048) {winStart : ℕ}
    (hsize : x.tid.winSize = ws) (hs : x.StartsAt) (hp : winStart % 4096 = p % 4096)
    (hi : i + n = ws)
    (hx : x.tid.storedNum = 0 ∨
      p ≤ x.pos ∧ x.pos ≤ p + i ∧ (release = true → x.pos = p + i)) :
    ∀ m ∈ releaseLoopMoves winStart n i release x, m.Own ws := by
  induction n generalizing i release x with
  | zero => exact fun m hm => by cases hm
  | succ n ih =>
    unfold releaseLoopMoves
    dsimp only
    split
    · exact fun m hm => by cases hm
    · next h0 =>
      obtain ⟨hge, hle, hstart⟩ := hx.resolve_left h0
      split
      · split
        · exact fun m hm => by cases hm
        · exact ih hsize hs (by omega)
            (.inr ⟨hge, by omega, fun hf => absurd hf Bool.false_ne_true⟩)
      · split
        · split
          · exact fun m hm => by cases hm
          · intro m hm
            rcases List.mem_cons.mp hm with rfl | hm
            · trivial
            · cases n with
              | zero => cases hm
              | succ n =>
                have hsn : u16 (winStart + i) % 4096 = (p + i) % 4096 := by
                  rw [u16_mod]
                  omega
                refine ih ((winSize_forceRelease ..).trans hsize) (stable_startsAt.forceRelease hs _)
                  (by omega) ?_ m hm
                refine (forceRelease_end hs hsn (by omega) (by omega)).imp_right fun hpos => ?_
                exact ⟨by omega, by omega, fun _ => by omega⟩
        · next hr =>
          have hpos : x.pos = p + i := hstart (by simpa using hr)
          generalize hy : x.delTimerIf _ = y
          have hys : y.StartsAt := hy ▸ stable_startsAt.delTimerIf hs _
          have hypos : y.pos = p + i := hy ▸ delTimerIf_pos.trans hpos
          have hysize : y.tid.winSize = ws := by rw [← hy, delTimerIf_tid, hsize]
          split
          · have hpurged : (y.purgeSlot ((winStart + i) % x.tid.winSize)).pos = p + i := hypos
            exact ih hysize (stable_startsAt.purgeSlot hys _) (by omega)
              (.inr ⟨by omega, by omega, fun hf => absurd hf Bool.false_ne_true⟩)
          · split
            · intro m hm
              rcases List.mem_cons.mp hm with rfl | hm
              · have hown : (winStart + i) % ws = y.tid.winStart % ws := by
                  refine Window.index hd ?_
                  rw [hys, hypos]
                  omega
                rw [hsize]
                exact hown
              · generalize hz : (y.releaseSlot ((winStart + i) % x.tid.winSize)).setWinStart
                  (ieee80211SnInc y.tid.winStart) = z at hm
                have hzs : z.StartsAt :=
                  hz ▸ stable_startsAt.setWinStart _ _ (stable_startsAt.releaseSlot hys _)
                have hzpos : z.pos = p + i + 1 := by
                  rw [← hz, ← hypos]
                  exact congrArg (y.pos + ·) (ieee80211SnSub_inc _)
                have hzsize : z.tid.winSize = ws := by rw [← hz, ← hysize]; rfl
                have hcount : (z.setStoredNum (z.tid.storedNum - 1)).pos = p + i + 1 := hzpos
                exact ih (x := z.setStoredNum (z.tid.storedNum - 1)) hzsize hzs (by omega)
                  (.inr ⟨by omega, by omega, fun _ => by omega⟩) m hm
            · exact fun m hm => by cases hm

theorem own_reorderRelease (hd : ws ∣ 4096) (hws : ws ≤ 2048) (hsize : x.tid.winSize = ws)
    (hs : x.StartsAt) : ∀ m ∈ x.reorderReleaseMoves, m.Own ws := by
  unfold reorderReleaseMoves
  split
  · rw [hsize]
    exact own_releaseLoop hd hws hsize hs hs (Nat.zero_add ws)
      (.inr ⟨le_rfl, by omega, fun _ => rfl⟩)
  · exact fun m hm => by cases hm

theorem OutCall.own_moves (hd : ws ∣ 4096) (hws : ws ≤ 2048) {c : OutCall}
    (hsize : c.rx.tid.winSize = ws) (hs : c.rx.StartsAt) : ∀ m ∈ c.moves, m.Own ws := by
  unfold OutCall.moves
  split
  · exact own_reorderRelease hd hws hsize hs
  · exact fun m hm => by cases hm

/-- A frame empties a slot that is not at the start of the window only where it completes a tainted
A-MSDU. -/
theorem own_toSlotMoves_iff (x : Rx) (skb : Skb) :
    (∀ m ∈ x.toSlotMoves skb, m.Own x.tid.winSize) ↔
      (x.CompletesTainted skb → skb.sn % x.tid.winSize = x.tid.winStart % x.tid.winSize) := by
  by_cases h : x.CompletesTainted skb ∨ x.Completes skb ∧ skb.sn = x.tid.winStart
  · rw [toSlotMoves_of h]
    constructor
    · intro hown _
      exact hown _ (List.mem_singleton_self _)
    · intro hstart m hm
      cases List.mem_singleton.mp hm
      rcases h with ht | ⟨-, hsn⟩
      · exact hstart ht
      · exact congrArg (· % _) hsn
  · rw [toSlotMoves_of_not h]
    constructor
    · exact fun _ ht => absurd (.inl ht) h
    · exact fun _ m hm => by cases hm

theorem own_rxTodo (hd : ws ∣ 4096) (hws : ws ≤ 2048) (hsize : x.tid.winSize = ws)
    (hs : x.StartsAt) : ∀ m ∈ x.rxTodoMoves, m.Own ws := by
  have hunlink : x.unlinkTodo.tid.winSize = ws ∧ x.unlinkTodo.StartsAt := ⟨hsize, hs⟩
  have hclear : ∀ z : Rx, z.tid.winSize = ws ∧ z.StartsAt →
      ∀ m ∈ z.clearActived.reorderReleaseMoves, m.Own ws :=
    fun z hz => own_reorderRelease (x := z.clearActived) hd hws hz.1 hz.2
  intro m hm
  unfold rxTodoMoves at hm
  split at hm
  · rcases List.mem_cons.mp hm with rfl | hm
    · trivial
    · exact hclear _ ⟨(winSize_forceRelease ..).trans hunlink.1,
        stable_startsAt.forceRelease hunlink.2 _⟩ m hm
  · cases hm

theorem own_ampduReorder_iff (hd : ws ∣ 4096) (hws : ws ≤ 2048) (hsize : x.tid.winSize = ws)
    (hs : x.StartsAt) : (∀ m ∈ x.ampduReorderMoves skb, m.Own ws) ↔
      ∀ y ∈ x.slotState skb, y.CompletesTainted skb →
        skb.sn % y.tid.winSize = y.tid.winStart % y.tid.winSize := by
  unfold ampduReorderMoves
  cases hy : x.slotState skb with
  | none =>
    have hcall : ∀ m ∈ ((x.ampduReorderCall skb).map OutCall.moves).getD [], m.Own ws := by
      cases hc : x.ampduReorderCall skb with
      | none => exact fun m hm => by cases hm
      | some c =>
        rcases ampduReorderCall_cases hc with ⟨-, rfl⟩ | ⟨y, _, hs', -⟩
        · exact OutCall.own_moves hd hws (c := ⟨(x.received skb).free [skb], false, none⟩) hsize hs
        · rw [hy] at hs'
          cases hs'
    exact iff_of_true hcall fun y h => by cases h
  | some y =>
    have hysize : y.tid.winSize = ws := (stable_winSize ws).slotState hsize hy
    obtain ⟨release, hc⟩ := ampduReorderCall_of_slotState hy
    have hcall := OutCall.own_moves hd hws (c := y.toSlotCall release skb)
      ((winSize_toSlotCall ..).trans hysize)
      (stable_startsAt.toSlotCall (stable_startsAt.slotState hs hy) release skb)
    have hiff := own_toSlotMoves_iff y skb
    rw [hysize] at hiff
    rw [hc]
    simp only [Option.map_some, Option.getD_some, List.cons_append, List.forall_mem_cons,
      List.forall_mem_append, Option.mem_some_iff, forall_eq', hysize, hiff]
    exact ⟨fun h => h.2.1, fun h => ⟨trivial, h, hcall⟩⟩

/-- A tainted A-MSDU that a frame completes is the one at the start of the window. -/
def CompletesAtStart (x : Rx) : BufCall → Prop
  | .event (.frame skb) => ∀ y ∈ x.slotState (x.fresh skb), y.CompletesTainted (x.fresh skb) →
    skb.sn % y.tid.winSize = y.tid.winStart % y.tid.winSize
  | _ => True

instance (x : Rx) : ∀ c, Decidable (x.CompletesAtStart c)
  | .event (.frame _) => inferInstanceAs (Decidable (∀ y ∈ (_ : Option Rx), _))
  | .event .timeout => isTrue trivial
  | .event .todo => isTrue trivial
  | .event (.tick _) => isTrue trivial
  | .forceRelease _ => isTrue trivial
  | .reorderRelease => isTrue trivial
  | .freeTidRx => isTrue trivial

/-- The window leaves a sequence number with the slot of another one in one case only. -/
theorem own_iff (hd : ws ∣ 4096) (hws : ws ≤ 2048) (hsize : x.tid.winSize = ws) (hs : x.StartsAt)
    (c : BufCall) : (∀ m ∈ x.moves c, m.Own ws) ↔ x.CompletesAtStart c := by
  cases c with
  | forceRelease toSn => simp [moves, forceMove, Move.Own, CompletesAtStart]
  | reorderRelease => exact iff_of_true (own_reorderRelease hd hws hsize hs) trivial
  | freeTidRx => simp [moves, forceMove, Move.Own, CompletesAtStart]
  | event e =>
    cases e with
    | timeout => simp [moves, CompletesAtStart]
    | tick n => simp [moves, CompletesAtStart]
    | todo => exact iff_of_true (own_rxTodo hd hws hsize hs) trivial
    | frame skb => exact own_ampduReorder_iff hd hws hsize hs

end Rx
end Skw
