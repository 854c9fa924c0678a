import Mathlib.Algebra.BigOperators.Group.Finset.Basic
import Skw.Rx.Order

/-! What the releases do to a session whatever it stores: frames leave their slots, the window moves
on over empty slots only, and `stored_num` stays at least the number of slots in use. It may be
more, since a release that purges a tainted slot does not count it down. -/
namespace Skw

/-- A frame without the control block, which reordering writes. -/
def Skb.bare (skb : Skb) : Skb := { skb with cb := ⟨0, 0, 0, false, false, false⟩ }

def bareCount (l : List Skb) (a : Skb) : ℕ := (l.map Skb.bare).count a

theorem bareCount_append (l m : List Skb) (a : Skb) :
    bareCount (l ++ m) a = bareCount l a + bareCount m a := by
  unfold bareCount
  rw [List.map_append, List.count_append]

namespace Rx

def held (x : Rx) (a : Skb) : ℕ :=
  ∑ i ∈ Finset.range x.tid.winSize, bareCount (x.tid.reorderBuf i) a

/-- How often a frame is among those released, freed and stored. -/
def copies (x : Rx) (a : Skb) : ℕ :=
  bareCount (x.released.map fun r => r.skb) a + bareCount x.freed a + x.held a

variable {ws : ℕ} {x y z : Rx} {i p q sn : ℕ} {c : Bool}

theorem slot_setSlot (x : Rx) (i : ℕ) (l : List Skb) : (x.setSlot i l).tid.reorderBuf i = l :=
  Function.update_self ..

theorem slot_setSlot_of_ne (x : Rx) {i j : ℕ} (l : List Skb) (h : j ≠ i) :
    (x.setSlot i l).tid.reorderBuf j = x.tid.reorderBuf j := Function.update_of_ne h ..

@[simp] theorem pos_releaseSlot (x : Rx) (i : ℕ) : (x.releaseSlot i).pos = x.pos := rfl

@[simp] theorem pos_purgeSlot (x : Rx) (i : ℕ) : (x.purgeSlot i).pos = x.pos := rfl

@[simp] theorem reorder_purgeSlot (x : Rx) (i : ℕ) : (x.purgeSlot i).reorder = x.reorder := rfl

@[simp] theorem winSize_purgeSlot (x : Rx) (i : ℕ) :
    (x.purgeSlot i).tid.winSize = x.tid.winSize := rfl

theorem slot_releaseSlot (x : Rx) (i : ℕ) : (x.releaseSlot i).tid.reorderBuf i = [] :=
  slot_setSlot ..

theorem slot_purgeSlot (x : Rx) (i : ℕ) : (x.purgeSlot i).tid.reorderBuf i = [] :=
  slot_setSlot ..

theorem slot_purgeSlot_of_ne (x : Rx) {i j : ℕ} (h : j ≠ i) :
    (x.purgeSlot i).tid.reorderBuf j = x.tid.reorderBuf j := slot_setSlot_of_ne _ _ h

theorem held_setSlot (x : Rx) {i : ℕ} (hi : i < x.tid.winSize) (l : List Skb) (a : Skb) :
    (x.setSlot i l).held a + bareCount (x.tid.reorderBuf i) a = x.held a + bareCount l a := by
  have hmem : i ∈ Finset.range x.tid.winSize := Finset.mem_range.mpr hi
  have hold := Finset.add_sum_erase _ (fun j => bareCount (x.tid.reorderBuf j) a) hmem
  have hnew := Finset.add_sum_erase _ (fun j => bareCount ((x.setSlot i l).tid.reorderBuf j) a) hmem
  have hoff : ∑ j ∈ (Finset.range x.tid.winSize).erase i,
      bareCount ((x.setSlot i l).tid.reorderBuf j) a =
      ∑ j ∈ (Finset.range x.tid.winSize).erase i, bareCount (x.tid.reorderBuf j) a := by
    apply Finset.sum_congr rfl
    intro j hj
    rw [slot_setSlot_of_ne x l (Finset.ne_of_mem_erase hj)]
  have hdef : (x.setSlot i l).held a = ∑ j ∈ Finset.range x.tid.winSize,
    bareCount ((x.setSlot i l).tid.reorderBuf j) a := rfl
  rw [hoff, slot_setSlot] at hnew
  unfold held at hdef ⊢
  omega

theorem copies_setSlot (x : Rx) {i : ℕ} (hi : i < x.tid.winSize) (l : List Skb) (a : Skb) :
    (x.setSlot i l).copies a + bareCount (x.tid.reorderBuf i) a = x.copies a + bareCount l a := by
  have h := x.held_setSlot hi l a
  have hdef : (x.setSlot i l).copies a =
    bareCount (x.released.map fun r => r.skb) a + bareCount x.freed a + (x.setSlot i l).held a := rfl
  unfold copies at hdef ⊢
  omega

theorem copies_release (x : Rx) (l : List Skb) (a : Skb) :
    (x.release l).copies a = x.copies a + bareCount l a := by
  have hlog : (x.release l).released.map (fun r => r.skb) =
      (x.released.map fun r => r.skb) ++ l := by
    simp [release, Function.comp_def]
  have hdef : (x.release l).copies a =
    bareCount ((x.release l).released.map fun r => r.skb) a + bareCount x.freed a + x.held a := rfl
  rw [hdef, hlog, bareCount_append]
  unfold copies
  omega

theorem copies_free (x : Rx) (l : List Skb) (a : Skb) :
    (x.free l).copies a = x.copies a + bareCount l a := by
  have hdef : (x.free l).copies a =
    bareCount (x.released.map fun r => r.skb) a + bareCount (x.freed ++ l) a + x.held a := rfl
  rw [hdef, bareCount_append]
  unfold copies
  omega

theorem copies_releaseSlot (x : Rx) (hi : i < x.tid.winSize) (a : Skb) :
    (x.releaseSlot i).copies a = x.copies a := by
  have hclear := (x.release (x.tid.reorderBuf i)).copies_setSlot hi [] a
  have hrel := x.copies_release (x.tid.reorderBuf i) a
  have hslot : (x.release (x.tid.reorderBuf i)).tid.reorderBuf i = x.tid.reorderBuf i := rfl
  have hnil : bareCount [] a = 0 := rfl
  rw [hslot, hnil] at hclear
  unfold releaseSlot
  omega

theorem copies_purgeSlot (x : Rx) (hi : i < x.tid.winSize) (a : Skb) :
    (x.purgeSlot i).copies a = x.copies a := by
  have hclear := (x.free (x.tid.reorderBuf i)).copies_setSlot hi [] a
  have hfree := x.copies_free (x.tid.reorderBuf i) a
  have hslot : (x.free (x.tid.reorderBuf i)).tid.reorderBuf i = x.tid.reorderBuf i := rfl
  have hnil : bareCount [] a = 0 := rfl
  rw [hslot, hnil] at hclear
  unfold purgeSlot
  omega

/-- Timers, the clock and the window do not matter. -/
theorem copies_congr (hs : y.tid.winSize = x.tid.winSize) (hb : y.tid.reorderBuf = x.tid.reorderBuf)
    (hr : y.released = x.released) (hf : y.freed = x.freed) (a : Skb) :
    y.copies a = x.copies a := by
  unfold copies held
  rw [hs, hb, hr, hf]

/-- The counter does not fall behind the slots. -/
structure Counted (ws : ℕ) (x : Rx) : Prop where
  size : x.tid.winSize = ws
  start : x.tid.winStart % 4096 = x.pos % 4096
  card : x.tid.occupied.card ≤ x.tid.storedNum.toNat

/-- The timer is that of the session's buffer. -/
structure Timed (x : Rx) : Prop where
  refCnt : x.reorder.refCnt = x.tid.refCnt
  expired : x.timerPending = true → x.reorder.expired.refCnt = x.reorder.refCnt

/-- What is to be done is in the todo list. -/
def Linked (x : Rx) : Prop := x.reorder.todo.actived = true → x.reorder.todo.linked = true

structure Ready (x : Rx) : Prop extends Timed x where
  linked : x.Linked

theorem Ready.congr (h : x.Ready) (hr : y.reorder = x.reorder)
    (ht : y.tid.refCnt = x.tid.refCnt) : y.Ready := by
  refine ⟨⟨by rw [hr, ht]; exact h.refCnt, ?_⟩, ?_⟩
  · unfold timerPending
    rw [hr]
    exact h.expired
  · unfold Linked
    rw [hr]
    exact h.linked

/-- Frames leave their slots, and the window moves over empty slots only. -/
structure Drains (ws : ℕ) (x y : Rx) : Prop where
  counted : Counted ws y
  stored : y.tid.storedNum.toNat ≤ x.tid.storedNum.toNat
  excess : x.tid.storedNum.toNat + y.tid.occupied.card ≤
    y.tid.storedNum.toNat + x.tid.occupied.card
  slots : ∀ i, y.tid.reorderBuf i = [] ∨ y.tid.reorderBuf i = x.tid.reorderBuf i
  pos : x.pos ≤ y.pos
  passed : ∀ p, x.pos ≤ p → p < y.pos → p < x.pos + ws → y.tid.reorderBuf (p % ws) = []
  copies : ∀ a, y.copies a = x.copies a
  timed : x.Timed → y.Timed
  linked : x.Linked → y.Linked

theorem Drains.trans (h : Drains ws x y) (h' : Drains ws y z) : Drains ws x z where
  counted := h'.counted
  stored := h'.stored.trans h.stored
  excess := by
    have := h.excess
    have := h'.excess
    omega
  slots i := by
    rcases h'.slots i with hz | hz
    · exact .inl hz
    · rw [hz]
      exact h.slots i
  pos := h.pos.trans h'.pos
  passed p hp hlt hws := by
    by_cases hy : p < y.pos
    · rcases h'.slots (p % ws) with hz | hz
      · exact hz
      · rw [hz]
        exact h.passed p hp hy hws
    · have := h.pos
      exact h'.passed p (by omega) hlt (by omega)
  copies a := (h'.copies a).trans (h.copies a)
  timed hr := h'.timed (h.timed hr)
  linked hr := h'.linked (h.linked hr)

theorem Drains.ready (h : Drains ws x y) (hr : x.Ready) : y.Ready :=
  ⟨h.timed hr.toTimed, h.linked hr.linked⟩

/-- Only the timer and the todo node change. -/
theorem Counted.drains (h : Counted ws x) (ht : y.tid = x.tid) (hp : y.pos = x.pos)
    (hr : y.released = x.released) (hf : y.freed = x.freed) (htimed : x.Timed → y.Timed)
    (hlinked : x.Linked → y.Linked) : Drains ws x y where
  counted := ⟨ht ▸ h.size, by rw [ht, hp]; exact h.start, ht ▸ h.card⟩
  stored := by rw [ht]
  excess := by rw [ht]
  slots i := .inr (by rw [ht])
  pos := hp.ge
  passed p hle hlt _ := by omega
  copies := copies_congr (by rw [ht]) (by rw [ht]) hr hf
  timed := htimed
  linked := hlinked

theorem Counted.refl (h : Counted ws x) : Drains ws x x := h.drains rfl rfl rfl rfl id id

theorem Counted.delTimer (h : Counted ws x) : Drains ws x x.delTimer :=
  h.drains rfl rfl rfl rfl (fun hr => ⟨hr.refCnt, fun hp => absurd hp Bool.false_ne_true⟩) id

theorem Counted.delTimerIf (h : Counted ws x) (c : Bool) : Drains ws x (x.delTimerIf c) := by
  cases c with
  | false => exact h.refl
  | true => exact h.delTimer

theorem ieee80211SnSub_inc (a : ℕ) : ieee80211SnSub (ieee80211SnInc a) a = 1 :=
  (ieee80211SnSub_eq (ieee80211SnInc_mod rfl) rfl (Nat.le_succ a) (by omega)).trans (by omega)

/-- Nothing is stored when the counter is zero. -/
theorem Counted.empty (h : Counted ws x) (h0 : x.tid.storedNum = 0) {i : ℕ} (hi : i < ws) :
    x.tid.reorderBuf i = [] := by
  by_contra hne
  have hm : i ∈ x.tid.occupied := Window.mem_occupied.mpr ⟨h.size ▸ hi, hne⟩
  have hcard : x.tid.occupied.card ≤ 0 := h.card.trans_eq (congrArg BitVec.toNat h0)
  rw [Finset.card_eq_zero.mp (Nat.le_zero.mp hcard)] at hm
  exact absurd hm (Finset.notMem_empty i)

theorem Counted.storedNum_pos (h : Counted ws x) (hi : i < ws) (hne : x.tid.reorderBuf i ≠ []) :
    0 < x.tid.occupied.card ∧ 0 < x.tid.storedNum.toNat := by
  have hm : i ∈ x.tid.occupied := Window.mem_occupied.mpr ⟨h.size ▸ hi, hne⟩
  have hpos := Finset.card_pos.mpr ⟨i, hm⟩
  have := h.card
  exact ⟨hpos, by omega⟩

/-- A slot is emptied; the window stays, or it starts at this slot and moves on by one. -/
theorem Counted.clear (h : Counted ws x) (hi : i < ws) (hs : y.tid.winSize = x.tid.winSize)
    (hb : y.tid.reorderBuf = Function.update x.tid.reorderBuf i [])
    (hn : y.tid.storedNum = x.tid.storedNum ∨
      x.tid.reorderBuf i ≠ [] ∧ y.tid.storedNum = x.tid.storedNum - 1)
    (hw : y.tid.winStart = x.tid.winStart ∧ y.pos = x.pos ∨ i = x.pos % ws ∧
      y.tid.winStart = ieee80211SnInc x.tid.winStart ∧ y.pos = x.pos + 1)
    (hc : ∀ a, y.copies a = x.copies a)
    (hr : y.reorder = x.reorder ∧ y.tid.refCnt = x.tid.refCnt) : Drains ws x y := by
  have hocc : y.tid.occupied = x.tid.occupied.erase i := Window.occupied_clear hs hb
  have hle : (x.tid.occupied.erase i).card ≤ x.tid.occupied.card := Finset.card_erase_le
  have hcard := h.card
  have hexc : x.tid.storedNum.toNat + y.tid.occupied.card ≤
      y.tid.storedNum.toNat + x.tid.occupied.card := by
    rw [hocc]
    rcases hn with hn | ⟨hne, hn⟩
    · rw [hn]
      omega
    · have hm : i ∈ x.tid.occupied := Window.mem_occupied.mpr ⟨h.size ▸ hi, hne⟩
      obtain ⟨hpos, hpos'⟩ := h.storedNum_pos hi hne
      rw [Finset.card_erase_of_mem hm, hn]
      bv_omega
  have hst : y.tid.storedNum.toNat ≤ x.tid.storedNum.toNat := by
    rcases hn with hn | ⟨hne, hn⟩
    · rw [hn]
    · have := (h.storedNum_pos hi hne).2
      rw [hn]
      bv_omega
  constructor
  · refine ⟨hs.trans h.size, ?_, by omega⟩
    rcases hw with ⟨hst, hp⟩ | ⟨-, hst, hp⟩
    · rw [hst, hp]
      exact h.start
    · rw [hst, hp]
      exact ieee80211SnInc_mod h.start
  · exact hst
  · exact hexc
  · intro j
    rw [hb]
    by_cases hj : j = i
    · rw [hj, Function.update_self]
      exact .inl rfl
    · exact .inr (Function.update_of_ne hj ..)
  · omega
  · intro p hp hlt _
    rcases hw with ⟨-, hpos⟩ | ⟨hi, -, hpos⟩
    · omega
    · have hpi : p % ws = i := by rw [hi, show p = x.pos by omega]
      rw [hb, hpi, Function.update_self]
  · exact hc
  · intro ht
    refine ⟨by rw [hr.1, hr.2]; exact ht.refCnt, ?_⟩
    unfold timerPending
    rw [hr.1]
    exact ht.expired
  · intro hl
    unfold Linked
    rw [hr.1]
    exact hl

theorem Counted.start_slot (hz : ws ∣ 4096) (h : Counted ws x) :
    x.tid.winStart % x.tid.winSize = x.pos % ws := by
  rw [h.size]
  exact Window.index hz h.start

theorem Counted.forceSlot (hz : ws ∣ 4096) (h : Counted ws x) :
    Drains ws x x.forceSlot ∧ x.forceSlot.pos = x.pos + 1 := by
  have hi := Nat.mod_lt x.pos (pos_of_dvd hz)
  have hsize : x.pos % ws < x.tid.winSize := h.size ▸ hi
  unfold Rx.forceSlot
  simp only [h.start_slot hz]
  split
  · next he =>
    have hpos : (x.setWinStart (ieee80211SnInc x.tid.winStart)).pos = x.pos + 1 :=
      congrArg _ (ieee80211SnSub_inc _)
    refine ⟨h.clear hi rfl ?_ (.inl rfl) (.inr ⟨rfl, rfl, hpos⟩) (copies_congr rfl rfl rfl rfl)
      ⟨rfl, rfl⟩, hpos⟩
    rw [← he, Function.update_eq_self]
    rfl
  · next skb l he =>
    have hne : x.tid.reorderBuf (x.pos % ws) ≠ [] := by
      rw [he]
      exact List.cons_ne_nil skb l
    cases skb.cb.taint with
    | true =>
      have hpos : ((x.purgeSlot (x.pos % ws)).setStoredNum (x.tid.storedNum - 1)).pos +
        ieee80211SnSub (ieee80211SnInc x.tid.winStart) x.tid.winStart = x.pos + 1 :=
          congrArg _ (ieee80211SnSub_inc _)
      exact ⟨h.clear hi rfl rfl (.inr ⟨hne, rfl⟩) (.inr ⟨rfl, rfl, hpos⟩)
        (fun a => x.copies_purgeSlot hsize a) ⟨rfl, rfl⟩, hpos⟩
    | false =>
      have hpos : ((x.releaseSlot (x.pos % ws)).setStoredNum (x.tid.storedNum - 1)).pos +
        ieee80211SnSub (ieee80211SnInc x.tid.winStart) x.tid.winStart = x.pos + 1 :=
          congrArg _ (ieee80211SnSub_inc _)
      exact ⟨h.clear hi rfl rfl (.inr ⟨hne, rfl⟩) (.inr ⟨rfl, rfl, hpos⟩)
        (fun a => x.copies_releaseSlot hsize a) ⟨rfl, rfl⟩, hpos⟩

/-- A forced release towards position `q`: it gets past it when the counter is ahead of the slots
or a frame is stored at `q` or behind, and else it may stop there with nothing stored. -/
theorem Counted.forceLoop (hz : ws ∣ 4096) {toSn target : ℕ} (fuel : ℕ) (h : Counted ws x)
    (hs : toSn % 4096 = q % 4096) (ht : target % 4096 = (q + 1) % 4096) (hle : x.pos ≤ q + 1)
    (hlt : q + 1 < x.pos + 2048) (hfuel : q + 1 ≤ x.pos + fuel) :
    Drains ws x (forceLoop toSn target fuel x) ∧ (forceLoop toSn target fuel x).pos ≤ q + 1 ∧
      ((forceLoop toSn target fuel x).pos = q + 1 ∨
        (forceLoop toSn target fuel x).pos = q ∧
          (forceLoop toSn target fuel x).tid.storedNum = 0) := by
  induction fuel generalizing x with
  | zero => exact ⟨h.refl, hle, .inl (by simp only [Rx.forceLoop]; omega)⟩
  | succ fuel ih =>
    have hless := ieee80211SnLess_iff h.start ht (by omega) hlt
    unfold Rx.forceLoop
    by_cases hl : x.pos < q + 1
    · rw [if_pos (hless.mpr hl)]
      by_cases h0 : x.tid.storedNum = 0
      · -- Nothing is stored: the window moves to `q` at once.
        rw [if_pos h0]
        have hpos := pos_setWinStart h.start hs (by omega) (by omega)
        refine ⟨⟨⟨h.size, ?_, h.card⟩, le_rfl, le_rfl, fun _ => .inr rfl, by omega, ?_,
          copies_congr rfl rfl rfl rfl, fun hr => ⟨hr.refCnt, hr.expired⟩, id⟩, by omega,
          .inr ⟨hpos, h0⟩⟩
        · rw [hpos]
          exact hs
        · exact fun p _ _ _ => h.empty h0 (Nat.mod_lt _ (pos_of_dvd hz))
      · rw [if_neg h0]
        obtain ⟨hd, hpos⟩ := h.forceSlot hz
        obtain ⟨hr, hle', hend⟩ := ih hd.counted (by omega) (by omega) (by omega)
        exact ⟨hd.trans hr, hle', hend⟩
    · rw [if_neg fun hc => hl (hless.mp hc)]
      exact ⟨h.refl, by omega, .inl (by omega)⟩

theorem Counted.forceRelease_pos (hz : ws ∣ 4096) (toSn : ℕ) (h : Counted ws x)
    (hs : toSn % 4096 = q % 4096) (hle : x.pos ≤ q + 1) (hlt : q + 1 < x.pos + 2048) :
    Drains ws x (x.forceRelease toSn) ∧ (x.forceRelease toSn).pos ≤ q + 1 ∧
      ((x.forceRelease toSn).pos = q + 1 ∨
        (x.forceRelease toSn).pos = q ∧ (x.forceRelease toSn).tid.storedNum = 0) := by
  unfold Rx.forceRelease
  generalize (x.timerPending && x.reorder.refCnt == x.tid.refCnt && _) = c
  have hy := h.delTimerIf c
  have hpos : (x.delTimerIf c).pos = x.pos := delTimerIf_pos
  obtain ⟨hd, hend⟩ := hy.counted.forceLoop hz 2048 hs (ieee80211SnInc_mod hs) (by omega)
    (by omega) (by omega)
  exact ⟨hy.trans hd, hend⟩

/-- A forced release to any sequence number. -/
theorem Counted.forceRelease (hz : ws ∣ 4096) (h : Counted ws x) (toSn : ℕ) :
    Drains ws x (x.forceRelease toSn) := by
  cases hl : ieee80211SnLess x.tid.winStart (ieee80211SnInc toSn) with
  | true =>
    have hlt := ieee80211SnSub_lt hl
    exact (h.forceRelease_pos hz toSn (sn_pos h.start toSn) (by omega) (by omega)).1
  | false =>
    unfold Rx.forceRelease
    rw [forceLoop_of_not_less _ (by simpa using hl)]
    exact h.delTimerIf _

theorem Counted.setReorderTimer (h : Counted ws x) (sn : ℕ) :
    Drains ws x (x.setReorderTimer sn) := by
  unfold Rx.setReorderTimer
  split
  · exact h.refl
  · next hc =>
    split
    · exact h.refl
    · dsimp only
      split_ifs
      · exact h.drains rfl rfl rfl rfl (fun hr => ⟨hr.refCnt, fun _ => hr.refCnt.symm⟩) id
      · exact h.refl
      · exact h.drains rfl rfl rfl rfl (fun hr => ⟨hr.refCnt, hr.expired⟩) fun _ _ => rfl

/-- Something is under way for the frames that are stored, if there are any. -/
def Armed (x : Rx) : Prop :=
  (∃ i < x.tid.winSize, x.tid.reorderBuf i ≠ []) →
    x.timerPending = true ∨ x.reorder.todo.actived = true ∧ x.reorder.todo.linked = true

theorem armed_of_pending (h : x.timerPending = true) : x.Armed := fun _ => .inl h

/-- The timer and the node stay, and no slot is filled. -/
theorem Armed.congr (h : x.Armed) (hr : y.reorder = x.reorder)
    (hw : y.tid.winSize = x.tid.winSize)
    (hb : ∀ i, y.tid.reorderBuf i ≠ [] → x.tid.reorderBuf i ≠ []) : y.Armed := by
  rintro ⟨i, hi, hne⟩
  unfold timerPending
  rw [hr]
  exact h ⟨i, hw ▸ hi, hb i hne⟩

theorem Counted.armed_of_zero (h : Counted ws x) (h0 : x.tid.storedNum = 0) : x.Armed := by
  rintro ⟨i, hi, hne⟩
  exact absurd (h.empty h0 (h.size ▸ hi)) hne

/-- The timer is set for a frame that is there, or its time is over and the node is linked. -/
theorem Ready.armed_setReorderTimer (h : x.Ready)
    (hne : x.tid.reorderBuf (sn % x.tid.winSize) ≠ []) : (x.setReorderTimer sn).Armed := by
  unfold Rx.setReorderTimer
  by_cases hp : x.timerPending = true
  · rw [hp, Bool.true_or, if_pos rfl]
    exact armed_of_pending hp
  · have hp : x.timerPending = false := Bool.eq_false_of_not_eq_true hp
    have hc : (x.timerPending || x.reorder.refCnt != x.tid.refCnt) = false := by
      rw [hp, h.refCnt]
      simp
    rw [if_neg (by rw [hc]; exact Bool.false_ne_true)]
    split
    · next he => exact absurd he hne
    · dsimp only
      split_ifs with ht ha
      · exact fun _ => .inl rfl
      · exact fun _ => .inr ⟨ha, h.linked ha⟩
      · exact fun _ => .inr ⟨rfl, rfl⟩

theorem Drains.empty (h : Drains ws x y) (he : x.tid.reorderBuf i = []) :
    y.tid.reorderBuf i = [] := by
  rcases h.slots i with hy | hy
  · exact hy
  · exact hy.trans he

/-- The slots that the loop has looked at stay empty, and the next one joins them. -/
theorem Drains.visited (h : Drains ws x y) (hvis : ∀ j < i, x.tid.reorderBuf ((p + j) % ws) = [])
    (hy : y.tid.reorderBuf ((p + i) % ws) = []) :
    ∀ j < i + 1, y.tid.reorderBuf ((p + j) % ws) = [] := by
  intro j hj
  by_cases hji : j = i
  · exact hji ▸ hy
  · exact h.empty (hvis j (by omega))

/-- The slot that a forced release is to reach is empty after it: the window passed the slot, or
nothing is left. -/
theorem Counted.forceRelease_slot (hz : ws ∣ 4096) (h : Counted ws x) {toSn : ℕ}
    (hs : toSn % 4096 = q % 4096) (hle : x.pos ≤ q) (hlt : q + 1 < x.pos + 2048)
    (hws : q < x.pos + ws) : (x.forceRelease toSn).tid.reorderBuf (q % ws) = [] := by
  obtain ⟨hd, -, hend⟩ := h.forceRelease_pos hz toSn hs (by omega) hlt
  rcases hend with hpos | ⟨-, h0⟩
  · exact hd.passed q hle (by omega) hws
  · exact hd.counted.empty h0 (Nat.mod_lt q (pos_of_dvd hz))

/-- A slot is purged and neither the counter nor the window follows. -/
theorem Counted.purge (h : Counted ws x) (hi : i < ws) : Drains ws x (x.purgeSlot i) :=
  h.clear hi rfl rfl (.inl rfl) (.inl ⟨rfl, rfl⟩) (fun a => x.copies_purgeSlot (h.size ▸ hi) a)
    ⟨rfl, rfl⟩

/-- The slot at the start of the window is released. -/
theorem Counted.releaseStart (hz : ws ∣ 4096) (h : Counted ws x)
    (hne : x.tid.reorderBuf (x.pos % ws) ≠ [])
    (hy : y = (x.releaseSlot (x.pos % ws)).setWinStart (ieee80211SnInc x.tid.winStart)) :
    Drains ws x (y.setStoredNum (y.tid.storedNum - 1)) ∧
      (y.setStoredNum (y.tid.storedNum - 1)).pos = x.pos + 1 := by
  subst hy
  have hi := Nat.mod_lt x.pos (pos_of_dvd hz)
  have hpos : ((x.releaseSlot (x.pos % ws)).setWinStart (ieee80211SnInc x.tid.winStart)).pos =
    x.pos + 1 := congrArg _ (ieee80211SnSub_inc _)
  exact ⟨h.clear hi rfl rfl (.inr ⟨hne, rfl⟩) (.inr ⟨rfl, rfl, hpos⟩)
    (fun a => x.copies_releaseSlot (h.size ▸ hi) a) ⟨rfl, rfl⟩, hpos⟩

/-- Round `i` looks at position `p + i`, and the slots before it are empty. The loop ends with
nothing stored, with the timer pending, or where it sets the timer for a frame. -/
theorem Counted.releaseLoop (hz : WinSize ws) {winStart n : ℕ} {release : Bool}
    (h : Counted ws x) (hrdy : x.Ready) (hs : winStart % 4096 = p % 4096) (hp : p ≤ x.pos)
    (hle : x.pos ≤ p + i) (hi : i + n = ws)
    (hrel : release = true → x.pos = p + i ∨ x.tid.storedNum = 0)
    (hvis : ∀ j < i, x.tid.reorderBuf ((p + j) % ws) = []) :
    Drains ws x (releaseLoop winStart n i release x) ∧
      (releaseLoop winStart n i release x).Armed := by
  induction n generalizing i release x with
  | zero =>
    refine ⟨h.refl, ?_⟩
    rintro ⟨k, hk, hne⟩
    have hk : k < ws := h.size ▸ hk
    -- Every slot was looked at.
    obtain ⟨j, hj, hjk⟩ := Lib.exists_mod_eq p hk
    exact absurd (hjk ▸ hvis j (by omega)) hne
  | succ n ih =>
    have hindex : (winStart + i) % x.tid.winSize = (p + i) % ws := by
      rw [h.size]
      exact Window.index hz.dvd (by omega)
    have hiws : (p + i) % ws < ws := Nat.mod_lt _ hz.pos
    unfold Rx.releaseLoop
    split
    · next h0 => exact ⟨h.delTimer, h.delTimer.counted.armed_of_zero h0⟩
    · next h0 =>
      simp only [hindex]
      split
      · next he =>
        split
        · next ht => exact ⟨h.refl, armed_of_pending ht⟩
        · exact ih h hrdy hp (by omega) (by omega) (fun hf => absurd hf Bool.false_ne_true)
            (h.refl.visited hvis he)
      · next skb l he =>
        have hne : x.tid.reorderBuf ((p + i) % ws) ≠ [] := by
          rw [he]
          exact List.cons_ne_nil skb l
        have htimer : u16 (winStart + i) % x.tid.winSize = (p + i) % ws := by
          rw [h.size]
          exact Window.index hz.dvd (by rw [u16_mod]; omega)
        cases release with
        | false =>
          simp only [Bool.not_false, if_true]
          split
          · exact ⟨h.setReorderTimer _, hrdy.armed_setReorderTimer (by rwa [htimer])⟩
          · -- The window passes the slot that timed out, unless nothing is left.
            have hsn : u16 (winStart + i) % 4096 = (p + i) % 4096 := by
              rw [u16_mod]
              omega
            have hlt : p + i + 1 < x.pos + 2048 := by have := hz.le; omega
            obtain ⟨hd, -, hend⟩ := h.forceRelease_pos hz.dvd _ hsn (by omega) hlt
            have hclear := h.forceRelease_slot hz.dvd hsn hle hlt (by omega)
            obtain ⟨hrest, harmed⟩ := ih hd.counted (hd.ready hrdy) (hp.trans hd.pos) (by omega)
              (by omega) (fun _ => hend.imp (fun hpos => by omega) fun hpos => hpos.2)
              (hd.visited hvis hclear)
            exact ⟨hd.trans hrest, harmed⟩
        | true =>
          have hx : x.pos = p + i := (hrel rfl).resolve_right h0
          simp only [Bool.not_true, Bool.false_eq_true, if_false]
          generalize (x.timerPending && x.reorder.expired.sn == x.tid.winStart) = c
          have hy := h.delTimerIf c
          have hypos : (x.delTimerIf c).pos = x.pos := delTimerIf_pos
          have hyne : (x.delTimerIf c).tid.reorderBuf ((p + i) % ws) ≠ [] := by
            rwa [delTimerIf_tid]
          split
          · have hd := hy.trans (hy.counted.purge hiws)
            have hdpos : ((x.delTimerIf c).purgeSlot ((p + i) % ws)).pos = x.pos := hypos
            obtain ⟨hrest, harmed⟩ := ih hd.counted (hd.ready hrdy) (hp.trans hd.pos) (by omega)
              (by omega) (fun hf => absurd hf Bool.false_ne_true)
              (hd.visited hvis (slot_purgeSlot ..))
            exact ⟨hd.trans hrest, harmed⟩
          · split
            · rw [← hx, ← hypos] at hyne ⊢
              obtain ⟨hr, hpos⟩ := hy.counted.releaseStart hz.dvd hyne rfl
              have hd := hy.trans hr
              rw [hypos, hx] at hd hpos ⊢
              obtain ⟨hrest, harmed⟩ := ih hd.counted (hd.ready hrdy) (hp.trans hd.pos) (by omega)
                (by omega) (fun _ => .inl (by omega)) (hd.visited hvis (Function.update_self ..))
              exact ⟨hd.trans hrest, harmed⟩
            · split
              · next ht => exact ⟨hy, armed_of_pending ht⟩
              · refine ⟨hy.trans (hy.counted.setReorderTimer _),
                  (hy.ready hrdy).armed_setReorderTimer ?_⟩
                rw [delTimerIf_tid, htimer]
                exact hne

theorem Counted.reorderRelease (hz : WinSize ws) (h : Counted ws x) (hrdy : x.Ready)
    (hlive : x.live = true) : Drains ws x x.reorderRelease ∧ x.reorderRelease.Armed := by
  unfold Rx.reorderRelease
  rw [if_pos hlive]
  exact h.releaseLoop hz hrdy h.start le_rfl le_rfl (by rw [h.size, Nat.zero_add])
    (fun _ => .inl rfl) fun j hj => absurd hj (Nat.not_lt_zero j)

theorem live_of_env (h : y.env = x.env) (hx : x.live = true) : y.live = true :=
  (congrArg (fun e => e.2.1) h).trans hx

theorem Counted.timeout (h : Counted ws x) : Drains ws x x.delTimer.reorderTimeoutFn := by
  unfold reorderTimeoutFn
  split
  · exact h.delTimer
  · split
    · exact h.delTimer
    · exact h.drains rfl rfl rfl rfl
        (fun hr => ⟨hr.refCnt, fun hf => absurd hf Bool.false_ne_true⟩) fun _ _ => rfl

def unlinkTodo (x : Rx) : Rx :=
  { x with reorder := { x.reorder with todo := { x.reorder.todo with linked := false } } }

def clearActived (x : Rx) : Rx :=
  { x with reorder := { x.reorder with todo := { x.reorder.todo with actived := false } } }

theorem rxTodo_of_live (hlive : x.live = true) :
    x.rxTodo =
      ((x.unlinkTodo.forceRelease x.reorder.todo.seq).clearActived).reorderRelease := by
  have hif : x.rxTodo = (clearActived (if x.unlinkTodo.live = true then
    x.unlinkTodo.forceRelease x.unlinkTodo.reorder.todo.seq else x.unlinkTodo)).reorderRelease := rfl
  have hl : x.unlinkTodo.live = true := hlive
  rw [hif, if_pos hl]
  rfl

theorem rxTodo_of_not_live (hlive : x.live = false) : x.rxTodo = x.unlinkTodo.clearActived := by
  have hif : x.rxTodo = (clearActived (if x.unlinkTodo.live = true then
    x.unlinkTodo.forceRelease x.unlinkTodo.reorder.todo.seq else x.unlinkTodo)).reorderRelease := rfl
  have hl : x.unlinkTodo.live = false := hlive
  have hl' : x.unlinkTodo.clearActived.live = false := hlive
  rw [hif, hl, if_neg Bool.false_ne_true]
  unfold Rx.reorderRelease
  rw [hl', if_neg Bool.false_ne_true]

/-- The node is unlinked and then no longer active. -/
theorem Counted.forceTodo (hz : ws ∣ 4096) (h : Counted ws x) (toSn : ℕ) :
    Drains ws x (x.unlinkTodo.forceRelease toSn).clearActived := by
  have hc : Counted ws x.unlinkTodo := ⟨h.size, h.start, h.card⟩
  have hd := hc.forceRelease hz toSn
  refine ⟨⟨hd.counted.size, hd.counted.start, hd.counted.card⟩, hd.stored, hd.excess, hd.slots,
    hd.pos, hd.passed, hd.copies, fun ht => ?_, fun _ hf => absurd hf Bool.false_ne_true⟩
  have htimed := hd.timed ⟨ht.refCnt, ht.expired⟩
  exact ⟨htimed.refCnt, htimed.expired⟩

/-- What is left is armed again. -/
theorem Counted.rxTodo (hz : WinSize ws) (h : Counted ws x) (hx : x.Timed) (hlive : x.live = true) :
    Drains ws x x.rxTodo ∧ x.rxTodo.Ready ∧ x.rxTodo.Armed := by
  have hd := h.forceTodo hz.dvd x.reorder.todo.seq
  have hdlive : (x.unlinkTodo.forceRelease x.reorder.todo.seq).clearActived.live = true :=
    live_of_env (env_forceRelease _ _) hlive
  have hrdy : (x.unlinkTodo.forceRelease x.reorder.todo.seq).clearActived.Ready :=
    ⟨hd.timed hx, fun hf => absurd hf Bool.false_ne_true⟩
  rw [rxTodo_of_live hlive]
  obtain ⟨hr, harmed⟩ := hd.counted.reorderRelease hz hrdy hdlive
  exact ⟨hd.trans hr, hr.ready hrdy, harmed⟩

end Rx
end Skw
