import Skw.Rx.Arrival

/-! Frames are kept, in the slots where they belong, until the buffer of a session is freed. Each
frame goes to one place whatever happens. It is stored outside the window in two ways: an
incomplete A-MSDU behind a window that ran out of frames, and one at the start of a window that
moves on because a tainted A-MSDU elsewhere is complete. -/
namespace Skw

/-- The calls that a session's buffer gets, the last of them `skw_free_tid_rx`. -/
inductive BufCall
  | event (e : RxEvent)
  | forceRelease (toSn : Fin 65536)
  | reorderRelease
  | freeTidRx

def ieee80211SnAdd (sn1 sn2 : ℕ) : ℕ := (sn1 + sn2) % IEEE80211_SN_MODULO

/-- A session with the frames that were passed to `skw_ampdu_reorder`. -/
structure RxRun where
  rx : Rx
  passed : List Skb
  flushed : Bool

namespace Rx

/-- What `skw_free_tid_rx` does to the buffer before it frees it. -/
def freeTidRx (x : Rx) : Rx :=
  x.forceRelease (ieee80211SnAdd x.tid.winStart (x.tid.winSize - 1))

/-- Every slot holds frames of its position in the window. -/
def Placed (ws : ℕ) (x : Rx) : Prop :=
  ∀ p, x.pos ≤ p → p < x.pos + ws → ∀ skb ∈ x.tid.reorderBuf (p % ws), skb.sn = p % 4096

/-- A subframe behind the window that leaves its A-MSDU incomplete comes while the counter is ahead
of the slots, or a stored frame is left in the window that it forces. -/
def LeavesRoom (x : Rx) (skb : Skb) : Prop :=
  let cb := markAmsdu skb (x.fresh skb).cb
  cb.amsduBitmap ≠ cb.amsduMask → cb.taint = false →
    x.tid.storedNum.toNat = x.tid.occupied.card →
      x.LeavesStored (ieee80211SnSub skb.sn x.tid.winStart)

instance (x : Rx) (skb : Skb) : Decidable (x.LeavesRoom skb) :=
  inferInstanceAs (Decidable (_ → _ → _ → _))

/-- How far the window moves for a frame that is `d` ahead of its start. -/
def forcedBy (ws d : ℕ) : ℕ := if d < ws then 0 else d + 1 - ws

/-- A subframe that completes a tainted A-MSDU elsewhere finds the slot at the start of the window
empty. -/
def StartsEmpty (x : Rx) (skb : Skb) : Prop :=
  let d := ieee80211SnSub skb.sn x.tid.winStart
  let cb := if d < x.tid.winSize then x.joined (x.fresh skb) else markAmsdu skb (x.fresh skb).cb
  x.isDup (x.fresh skb) = false ∨ x.tid.winSize ≤ d → cb.amsduBitmap = cb.amsduMask →
    cb.taint = true → d ≠ 0 → forcedBy x.tid.winSize d < x.tid.winSize →
      (x.tid.reorderBuf ((x.tid.winStart + forcedBy x.tid.winSize d) % x.tid.winSize)).isEmpty = true

instance (x : Rx) (skb : Skb) : Decidable (x.StartsEmpty skb) :=
  inferInstanceAs (Decidable (_ → _ → _ → _ → _ → _))

/-- A frame finds room in the counter, and a subframe leaves the window where its frames are. -/
def Fits (x : Rx) : BufCall → Prop
  | .event (.frame skb) => x.Reaches skb →
    x.tid.storedNum ≠ BitVec.allOnes 32 ∧
      (skb.desc.isAmsdu = true → x.LeavesRoom skb ∧ x.StartsEmpty skb)
  | _ => True

instance (x : Rx) (c : BufCall) : Decidable (x.Fits c) :=
  match c with
  | .event (.frame _) => inferInstanceAs (Decidable (_ → _ ∧ (_ → _ ∧ _)))
  | .event .timeout => inferInstanceAs (Decidable True)
  | .event .todo => inferInstanceAs (Decidable True)
  | .event (.tick _) => inferInstanceAs (Decidable True)
  | .forceRelease _ => inferInstanceAs (Decidable True)
  | .reorderRelease => inferInstanceAs (Decidable True)
  | .freeTidRx => inferInstanceAs (Decidable True)

variable {ws : ℕ} {x y z : Rx} {i p q : ℕ} {l : List Skb} {skb : Skb} {release : Bool}

theorem placed_congr (h : x.Placed ws) (hb : y.tid.reorderBuf = x.tid.reorderBuf)
    (hp : y.pos = x.pos) : y.Placed ws := by
  unfold Placed
  rw [hb, hp]
  exact h

theorem placed_of_empty (hw : 0 < ws) (h : ∀ i < ws, x.tid.reorderBuf i = []) : x.Placed ws := by
  intro p _ _ skb hm
  rw [h _ (Nat.mod_lt _ hw)] at hm
  cases hm

/-- What a release passes is empty, also where it passes a slot more than once. -/
theorem Drains.empty_of_passed (hz : ws ∣ 4096) (hd : Drains ws x y) (hp : x.pos ≤ p)
    (hlt : p < y.pos) : y.tid.reorderBuf (p % ws) = [] := by
  have hmod : (x.pos + (p - x.pos) % ws) % ws = p % ws := by
    rw [Nat.add_mod_mod, Nat.add_sub_cancel' hp]
  have hle : (p - x.pos) % ws ≤ p - x.pos := Nat.mod_le _ _
  have hless := Nat.mod_lt (p - x.pos) (pos_of_dvd hz)
  rw [← hmod]
  exact hd.passed _ (by omega) (by omega) (by omega)

/-- A release leaves frames where they belong. -/
theorem Drains.placed (hz : WinSize ws) (hd : Drains ws x y) (h : x.Placed ws) : y.Placed ws := by
  intro p hp hlt skb hm
  rcases hd.slots (p % ws) with he | hs
  · rw [he] at hm
    cases hm
  · by_cases hin : p < x.pos + ws
    · rw [hs] at hm
      exact h p (hd.pos.trans hp) hin skb hm
    · -- The slot was passed one turn earlier.
      have hpass := hd.empty_of_passed hz.dvd (p := p - ws) (by omega) (by omega)
      rw [← Nat.mod_eq_sub_mod (by omega)] at hpass
      rw [hpass] at hm
      cases hm

/-- The slot of a position in the window gets frames of that position. -/
theorem Placed.put (h : x.Placed ws) (hp : x.pos ≤ p) (hlt : p < x.pos + ws)
    (hl : ∀ skb ∈ l, skb.sn = p % 4096) : (x.put (p % ws) l).Placed ws := by
  intro q hq hqlt skb hm
  by_cases hpq : q = p
  · rw [hpq, slot_put] at hm
    exact hpq ▸ hl skb hm
  · have hne : q % ws ≠ p % ws := by
      rcases Nat.lt_or_gt_of_ne hpq with hlt' | hlt'
      · exact Lib.mod_ne_of_lt hlt' (by have : (x.put (p % ws) l).pos = x.pos := rfl; omega)
      · exact (Lib.mod_ne_of_lt hlt' (by have : (x.put (p % ws) l).pos = x.pos := rfl; omega)).symm
    rw [slot_put_of_ne x l hne] at hm
    exact h q hq hqlt skb hm

/-- The frames of a slot that a subframe joins have the sequence number that they had. -/
theorem Placed.withSubframe (h : x.Placed ws) (hp : x.pos ≤ p) (hlt : p < x.pos + ws)
    (hi : skb.sn % x.tid.winSize = p % ws) (hsn : skb.sn = p % 4096) :
    ∀ f ∈ x.withSubframe skb, f.sn = p % 4096 := by
  intro f hf
  obtain ⟨g, hg, hgf⟩ := exists_of_mem_withSubframe hf
  rw [← sn_congr hgf]
  rcases List.mem_append.mp hg with hg | hg
  · rw [hi] at hg
    exact h p hp hlt g hg
  · exact List.mem_singleton.mp hg ▸ hsn

/-- A frame at the start of the window that is tainted or ready leaves its slot at once. -/
theorem Counted.reorderRelease_head (hz : WinSize ws) (h : Counted ws x) (hrdy : x.Ready)
    (hlive : x.live = true) (hs : x.tid.reorderBuf (x.pos % ws) = skb :: l)
    (ht : skb.cb.taint = true ∨ isReleaseReady (skb :: l) = true) :
    x.reorderRelease.tid.reorderBuf (x.pos % ws) = [] := by
  have hne : x.tid.reorderBuf (x.pos % ws) ≠ [] := by
    rw [hs]
    exact List.cons_ne_nil skb l
  have hiws := Nat.mod_lt x.pos hz.pos
  have h0 : x.tid.storedNum ≠ 0 := fun h0 => hne (h.empty h0 hiws)
  obtain ⟨n, hn⟩ : ∃ n, ws = n + 1 := ⟨ws - 1, by have := hz.pos; omega⟩
  have hindex : (x.tid.winStart + 0) % x.tid.winSize = x.pos % ws := h.start_slot hz.dvd
  have hsize : x.tid.winSize = n + 1 := h.size.trans hn
  unfold Rx.reorderRelease
  rw [if_pos hlive, hsize, Rx.releaseLoop, if_neg h0]
  simp only [hindex, hs, Bool.not_true, Bool.false_eq_true, if_false]
  generalize (x.timerPending && x.reorder.expired.sn == x.tid.winStart) = c
  have hy := h.delTimerIf c
  have hypos : (x.delTimerIf c).pos = x.pos := delTimerIf_pos
  have hvis : ∀ {z : Rx}, z.tid.reorderBuf (x.pos % ws) = [] →
      ∀ j < 0 + 1, z.tid.reorderBuf ((x.pos + j) % ws) = [] := by
    intro z hz j hj
    rw [show j = 0 by omega]
    exact hz
  split
  · have hd := hy.trans (hy.counted.purge hiws)
    have hempty := (x.delTimerIf c).slot_purgeSlot (x.pos % ws)
    have hdpos : ((x.delTimerIf c).purgeSlot (x.pos % ws)).pos = x.pos := hypos
    exact (hd.counted.releaseLoop hz (hd.ready hrdy) h.start (by omega) (by omega) (by omega)
      (fun hf => absurd hf Bool.false_ne_true) (hvis hempty)).1.empty hempty
  · next hnt =>
    have hready := ht.resolve_left hnt
    rw [if_pos (by rw [hready, Bool.true_or])]
    have hyne : (x.delTimerIf c).tid.reorderBuf ((x.delTimerIf c).pos % ws) ≠ [] := by
      rwa [delTimerIf_tid, hypos]
    obtain ⟨hr, hpos⟩ := hy.counted.releaseStart hz.dvd hyne rfl
    have hd := hy.trans hr
    rw [hypos] at hd hpos
    apply (hd.counted.releaseLoop hz (hd.ready hrdy) h.start (by omega) (by omega) (by omega)
      (fun _ => .inl (by omega)) (hvis (Function.update_self ..))).1.empty
    exact Function.update_self ..

theorem forceSlot_of_ne (hz : ws ∣ 4096) (h : Counted ws x) {j : ℕ} (hj : j ≠ x.pos % ws) :
    x.forceSlot.tid.reorderBuf j = x.tid.reorderBuf j := by
  unfold Rx.forceSlot
  simp only [h.start_slot hz]
  split
  · rfl
  · next skb l he => cases skb.cb.taint <;> exact Function.update_of_ne hj ..

/-- A forced release leaves the slots that it does not get to. -/
theorem Counted.forceLoop_kept (hz : ws ∣ 4096) {toSn target : ℕ} (fuel : ℕ) (h : Counted ws x)
    (hs : toSn % 4096 = q % 4096) (ht : target % 4096 = (q + 1) % 4096) (hle : x.pos ≤ q + 1)
    (hlt : q + 1 < x.pos + 2048) (hfuel : q + 1 ≤ x.pos + fuel)
    (hp : (Rx.forceLoop toSn target fuel x).pos ≤ p) (hpw : p < x.pos + ws) :
    (Rx.forceLoop toSn target fuel x).tid.reorderBuf (p % ws) = x.tid.reorderBuf (p % ws) := by
  induction fuel generalizing x with
  | zero => rfl
  | succ fuel ih =>
    have hless := ieee80211SnLess_iff h.start ht (by omega) hlt
    unfold Rx.forceLoop at hp ⊢
    by_cases hl : x.pos < q + 1
    · rw [if_pos (hless.mpr hl)] at hp ⊢
      by_cases h0 : x.tid.storedNum = 0
      · rw [if_pos h0]
        rfl
      · rw [if_neg h0] at hp ⊢
        obtain ⟨hd, hpos⟩ := h.forceSlot hz
        have hmono := (hd.counted.forceLoop hz fuel hs ht (by omega) (by omega) (by omega)).1.pos
        rw [ih hd.counted (by omega) (by omega) (by omega) hp (by omega)]
        exact forceSlot_of_ne hz h (Lib.mod_ne_of_lt (by omega) hpw).symm
    · rw [if_neg fun hc => hl (hless.mp hc)]

theorem Counted.forceRelease_kept (hz : ws ∣ 4096) (toSn : ℕ) (h : Counted ws x)
    (hs : toSn % 4096 = q % 4096) (hle : x.pos ≤ q + 1) (hlt : q + 1 < x.pos + 2048)
    (hp : (x.forceRelease toSn).pos ≤ p) (hpw : p < x.pos + ws) :
    (x.forceRelease toSn).tid.reorderBuf (p % ws) = x.tid.reorderBuf (p % ws) := by
  unfold Rx.forceRelease at hp ⊢
  generalize (x.timerPending && x.reorder.refCnt == x.tid.refCnt && _) = c at hp ⊢
  have hpos : (x.delTimerIf c).pos = x.pos := delTimerIf_pos
  have hy := (h.delTimerIf c).counted
  rw [hy.forceLoop_kept hz 2048 hs (ieee80211SnInc_mod hs) (by omega) (by omega) (by omega) hp
    (by omega), delTimerIf_tid]

/-- A subframe in the window. -/
theorem Counted.placed_amsduInSlot (hz : WinSize ws) (h : Counted ws x) (hrdy : x.Ready)
    (hlive : x.live = true) (hpl : x.Placed ws) (hf : skb.cb.amsduBitmap = 0)
    (hroom : x.tid.storedNum ≠ BitVec.allOnes 32) (hp : x.pos ≤ p) (hlt : p < x.pos + ws)
    (hsn : skb.sn = p % 4096)
    (hg : x.isDup skb = false → (x.joined skb).amsduBitmap = (x.joined skb).amsduMask →
      (x.joined skb).taint = true → p ≠ x.pos → x.tid.reorderBuf (x.pos % ws) = []) :
    (x.amsduInSlot release skb).Placed ws := by
  have hi : skb.sn % x.tid.winSize = p % ws := by
    rw [h.size]
    exact Window.index hz.dvd (by rw [hsn, Nat.mod_mod])
  have hiws := Nat.mod_lt p hz.pos
  have hl := x.withSubframe_ne_nil skb
  have hw := h.put hiws hl hroom
  have hwrdy := hrdy.put (p % ws) (x.withSubframe skb)
  have hwpl := hpl.put hp hlt (hpl.withSubframe hp hlt hi hsn)
  rcases amsduInSlot_cases hi hf release with
    ⟨-, -, hin⟩ | ⟨hdup, ⟨-, hin⟩ | ⟨hm, ht, hin⟩ | ⟨-, -, hin⟩⟩
  · rw [hin]
    have hfree : Counted ws (x.free [skb]) := ⟨h.size, h.start, h.card⟩
    exact (hfree.out hz (hrdy.congr rfl rfl) hlive release none).placed hz
      (placed_congr hpl rfl rfl)
  · rw [hin]
    exact (hw.out hz hwrdy hlive release _).placed hz hwpl
  · rw [hin]
    have hd := hw.uncount_purgeSlot hiws (by rwa [slot_put])
    have hempty : ((x.put (p % ws) (x.withSubframe skb)).uncount.purgeSlot
        (p % ws)).tid.reorderBuf (x.pos % ws) = [] := by
      by_cases hpx : p = x.pos
      · rw [hpx]
        exact slot_purgeSlot ..
      · apply hd.empty
        rw [slot_put_of_ne x _ (Lib.mod_ne_of_lt (by omega) hlt)]
        exact hg hdup hm ht hpx
    have hd := hd.trans (hd.counted.advance_drains (by simpa only [pos_purgeSlot, pos_uncount,
      pos_put] using hempty))
    have hlive' := live_of_env (y := ((x.put (p % ws) (x.withSubframe skb)).uncount.purgeSlot
      (p % ws)).advance) (by simp) hlive
    exact (hd.trans (hd.counted.out hz (hd.ready hwrdy) hlive' release none)).placed hz hwpl
  · rw [hin]
    exact (h.drains_inSlot hz hrdy hlive hi hl hroom).placed hz hwpl

theorem Counted.placed_single (hz : WinSize ws) (h : Counted ws x) (hrdy : x.Ready)
    (hlive : x.live = true) (hpl : x.Placed ws) (hroom : x.tid.storedNum ≠ BitVec.allOnes 32)
    (hp : x.pos ≤ p) (hlt : p < x.pos + ws) (hsn : skb.sn = p % 4096)
    (he : x.tid.reorderBuf (skb.sn % x.tid.winSize) = []) :
    ((x.setSlot (skb.sn % x.tid.winSize) [skb]).inSlot release skb).Placed ws := by
  have hi : skb.sn % x.tid.winSize = p % ws := by
    rw [h.size]
    exact Window.index hz.dvd (by rw [hsn, Nat.mod_mod])
  rw [← uncount_put_of_empty he]
  apply (h.drains_inSlot hz hrdy hlive rfl (List.cons_ne_nil skb []) hroom).placed hz
  rw [hi]
  exact hpl.put hp hlt fun f hf => List.mem_singleton.mp hf ▸ hsn

/-- A frame that is put at the start of an empty window and is tainted or ready leaves it again. -/
theorem Counted.empty_out (hz : WinSize ws) (h : Counted ws x) (hrdy : x.Ready)
    (hlive : x.live = true) (hroom : x.tid.storedNum ≠ BitVec.allOnes 32)
    (hempty : ∀ j < ws, x.tid.reorderBuf j = [])
    (ht : skb.cb.taint = true ∨ isReleaseReady [skb] = true) (sn : Option ℕ) :
    ((x.put (x.pos % ws) [skb]).out true sn).Placed ws := by
  have hiws := Nat.mod_lt x.pos hz.pos
  have hw := h.put hiws (List.cons_ne_nil skb []) hroom
  have hwrdy := hrdy.put (x.pos % ws) [skb]
  have hd := hw.out hz hwrdy hlive true sn
  apply placed_of_empty hz.pos
  intro j hj
  by_cases hji : j = x.pos % ws
  · have h0 : (x.put (x.pos % ws) [skb]).tid.storedNum ≠ 0 := by
      intro h0
      have := hw.empty h0 hiws
      rw [slot_put] at this
      cases this
    unfold Rx.out
    rw [hji, if_pos h0, if_pos rfl]
    exact hw.reorderRelease_head hz hwrdy hlive (slot_put ..) ht
  · apply hd.empty
    rw [slot_put_of_ne x _ hji]
    exact hempty j hj

/-- A frame whose position is just behind an empty window. -/
theorem Counted.placed_single_runOut (hz : WinSize ws) (h : Counted ws x) (hrdy : x.Ready)
    (hlive : x.live = true) (hroom : x.tid.storedNum ≠ BitVec.allOnes 32)
    (hempty : ∀ j < ws, x.tid.reorderBuf j = []) (hsn : skb.sn = (x.pos + ws) % 4096)
    (hcb : skb.cb.valid = false) :
    ((x.setSlot (skb.sn % x.tid.winSize) [skb]).inSlot true skb).Placed ws := by
  have hi : skb.sn % x.tid.winSize = x.pos % ws := by
    rw [h.size, ← Nat.add_mod_right x.pos ws]
    exact Window.index hz.dvd (by rw [hsn, Nat.mod_mod])
  have hiws := Nat.mod_lt x.pos hz.pos
  rw [hi, ← uncount_put_of_empty (hempty _ hiws)]
  rcases inSlot_uncount hi with ⟨hs, -⟩ | ⟨-, hin⟩
  · have hstart := h.start
    rw [← hs, hsn] at hstart
    have := hz.ge
    have := hz.le
    omega
  · rw [hin]
    exact h.empty_out hz hrdy hlive hroom hempty (.inr (by simp [isReleaseReady, hcb])) _

theorem withSubframe_of_empty (he : x.tid.reorderBuf (skb.sn % x.tid.winSize) = []) :
    x.withSubframe skb = [{ skb with cb := markAmsdu skb skb.cb }] := by
  unfold withSubframe joined
  rw [he]
  rfl

/-- A subframe whose position is just behind an empty window, unless it waits for others. -/
theorem Counted.placed_amsdu_runOut (hz : WinSize ws) (h : Counted ws x) (hrdy : x.Ready)
    (hlive : x.live = true) (hroom : x.tid.storedNum ≠ BitVec.allOnes 32)
    (hempty : ∀ j < ws, x.tid.reorderBuf j = []) (hsn : skb.sn = (x.pos + ws) % 4096)
    (hf : skb.cb.amsduBitmap = 0)
    (hg : (markAmsdu skb skb.cb).amsduBitmap = (markAmsdu skb skb.cb).amsduMask ∨
      (markAmsdu skb skb.cb).taint = true) : (x.amsduInSlot true skb).Placed ws := by
  have hi : skb.sn % x.tid.winSize = x.pos % ws := by
    rw [h.size, ← Nat.add_mod_right x.pos ws]
    exact Window.index hz.dvd (by rw [hsn, Nat.mod_mod])
  have hiws := Nat.mod_lt x.pos hz.pos
  have he := hempty _ hiws
  have hl := withSubframe_of_empty (hi ▸ he)
  have hj : x.joined skb = markAmsdu skb skb.cb := by
    unfold joined
    rw [hi, he]
    rfl
  rcases amsduInSlot_cases hi hf true with
    ⟨-, hne, -⟩ | ⟨-, ⟨hm, hin⟩ | ⟨-, -, hin⟩ | ⟨hm, -, hin⟩⟩
  · exact absurd he hne
  · rw [hj] at hm
    rw [hin, hl]
    exact h.empty_out hz hrdy hlive hroom hempty (.inl (hg.resolve_left hm)) _
  · rw [hin]
    have hw := h.put hiws (x.withSubframe_ne_nil skb) hroom
    have hwrdy := hrdy.put (x.pos % ws) (x.withSubframe skb)
    have hd := hw.uncount_purgeSlot hiws (by rw [slot_put]; exact x.withSubframe_ne_nil skb)
    have hpurged := (x.put (x.pos % ws) (x.withSubframe skb)).uncount.slot_purgeSlot (x.pos % ws)
    have hd := hd.trans (hd.counted.advance_drains (by simpa only [pos_purgeSlot, pos_uncount,
      pos_put] using hpurged))
    have hlive' := live_of_env (y := ((x.put (x.pos % ws) (x.withSubframe skb)).uncount.purgeSlot
      (x.pos % ws)).advance) (by simp) hlive
    have hout := hd.counted.out hz (hd.ready hwrdy) hlive' true none
    apply placed_of_empty hz.pos
    intro j hj
    apply hout.empty
    by_cases hji : j = x.pos % ws
    · rw [hji, slot_advance]
      exact hpurged
    · apply hd.empty
      rw [slot_put_of_ne x _ hji]
      exact hempty j hj
  · rw [hj] at hm
    rw [hin, hl]
    rcases inSlot_uncount hi with ⟨hs, -⟩ | ⟨-, hin⟩
    · have hstart := h.start
      rw [← hs, hsn] at hstart
      have := hz.ge
      have := hz.le
      omega
    · rw [hin]
      apply h.empty_out hz hrdy hlive hroom hempty _ _
      right
      simp [isReleaseReady, hm]

theorem Counted.placed_freeOut (hz : WinSize ws) (h : Counted ws x) (hrdy : x.Ready)
    (hlive : x.live = true) (hpl : x.Placed ws) :
    ((x.free [skb]).out release none).Placed ws := by
  have hc : Counted ws (x.free [skb]) := ⟨h.size, h.start, h.card⟩
  exact (hc.out hz (hrdy.congr rfl rfl) hlive release none).placed hz (placed_congr hpl rfl rfl)

/-- A frame whose position is in the window. -/
theorem Counted.placed_toSlot (hz : WinSize ws) (h : Counted ws x) (hrdy : x.Ready)
    (hlive : x.live = true) (hpl : x.Placed ws) (hf : skb.cb.amsduBitmap = 0)
    (hroom : x.tid.storedNum ≠ BitVec.allOnes 32) (hp : x.pos ≤ p) (hlt : p < x.pos + ws)
    (hsn : skb.sn = p % 4096)
    (hg : skb.desc.isAmsdu = true → x.isDup skb = false →
      (x.joined skb).amsduBitmap = (x.joined skb).amsduMask → (x.joined skb).taint = true →
        p ≠ x.pos → x.tid.reorderBuf (x.pos % ws) = []) :
    (x.toSlot release skb).Placed ws := by
  unfold toSlot
  split
  · next ha => exact h.placed_amsduInSlot hz hrdy hlive hpl hf hroom hp hlt hsn (hg ha)
  · split
    · next he => exact h.placed_single hz hrdy hlive hpl hroom hp hlt hsn (by simpa using he)
    · exact h.placed_freeOut hz hrdy hlive hpl

/-- A frame whose position is just behind an empty window. -/
theorem Counted.placed_toSlot_runOut (hz : WinSize ws) (h : Counted ws x) (hrdy : x.Ready)
    (hlive : x.live = true) (hpl : x.Placed ws) (hroom : x.tid.storedNum ≠ BitVec.allOnes 32)
    (hempty : ∀ j < ws, x.tid.reorderBuf j = []) (hsn : skb.sn = (x.pos + ws) % 4096)
    (hf : skb.cb.amsduBitmap = 0) (hcb : skb.cb.valid = false)
    (hg : skb.desc.isAmsdu = true →
      (markAmsdu skb skb.cb).amsduBitmap = (markAmsdu skb skb.cb).amsduMask ∨
        (markAmsdu skb skb.cb).taint = true) : (x.toSlot true skb).Placed ws := by
  unfold toSlot
  split
  · next ha => exact h.placed_amsdu_runOut hz hrdy hlive hroom hempty hsn hf (hg ha)
  · split
    · exact h.placed_single_runOut hz hrdy hlive hroom hempty hsn hcb
    · exact h.placed_freeOut hz hrdy hlive hpl

/-- A stored frame that a forced release leaves in the window. -/
theorem Counted.stored_of_leavesStored (hz : WinSize ws) (h : Counted ws x) {d : ℕ}
    (hl : x.LeavesStored d) (hge : ws ≤ d) (hle : d ≤ 2048) {toSn : ℕ}
    (hs : toSn % 4096 = (x.pos + d - ws) % 4096)
    (hpos : (x.forceRelease toSn).pos = x.pos + d - ws) :
    ∃ i < ws, (x.forceRelease toSn).tid.reorderBuf i ≠ [] := by
  have hws := hz.ge
  have hstart := h.start
  obtain ⟨o, ho, hdo, hne⟩ := hl (h.size.trans_le hge) hle
  rw [h.size] at ho hdo hne
  have hslot : (x.tid.winStart + o) % ws = (x.pos + o) % ws := Window.index hz.dvd (by omega)
  refine ⟨(x.pos + o) % ws, Nat.mod_lt _ hz.pos, ?_⟩
  rw [h.forceRelease_kept hz.dvd toSn hs (by omega) (by omega) (by omega) (by omega), ← hslot]
  simpa using hne

theorem joined_of_empty (he : x.tid.reorderBuf (skb.sn % x.tid.winSize) = []) :
    x.joined skb = markAmsdu skb skb.cb := by
  unfold joined
  rw [he]
  rfl

/-- A frame behind the window, which moves on to have the frame at its end. -/
theorem Counted.placed_beyond (hz : WinSize ws) (h : Counted ws x) (hrdy : x.Ready)
    (hlive : x.live = true) (hpl : x.Placed ws) (hf : skb.cb.amsduBitmap = 0)
    (hcb : skb.cb.valid = false) (hroom : x.tid.storedNum ≠ BitVec.allOnes 32) {d : ℕ}
    (hsn : skb.sn = (x.pos + d) % 4096) (hge : ws ≤ d) (hle : d ≤ 2048)
    (hleaves : skb.desc.isAmsdu = true →
      (markAmsdu skb skb.cb).amsduBitmap ≠ (markAmsdu skb skb.cb).amsduMask →
        (markAmsdu skb skb.cb).taint = false →
          x.tid.storedNum.toNat = x.tid.occupied.card → x.LeavesStored d)
    (hstarts : skb.desc.isAmsdu = true →
      (markAmsdu skb skb.cb).amsduBitmap = (markAmsdu skb skb.cb).amsduMask →
        (markAmsdu skb skb.cb).taint = true → d + 1 - ws < ws →
          x.tid.reorderBuf ((x.pos + (d + 1 - ws)) % ws) = []) :
    ((x.forceRelease (ieee80211SnSub skb.sn x.tid.winSize)).toSlot true skb).Placed ws := by
  have hws := hz.ge
  have hto : ieee80211SnSub skb.sn x.tid.winSize % 4096 = (x.pos + d - ws) % 4096 := by
    rw [h.size]
    exact ieee80211SnSub_mod (by rw [hsn, Nat.mod_mod]) (by omega)
  obtain ⟨hd, -, hend⟩ := h.forceRelease_pos hz.dvd _ hto (by omega) (by omega)
  have hylive := live_of_env (env_forceRelease x (ieee80211SnSub skb.sn x.tid.winSize)) hlive
  have hypl := hd.placed hz hpl
  have hyroom := hd.room hroom
  rcases hend with hpos | ⟨hpos, h0⟩
  · -- The slot of the frame is the one that the window passed last.
    apply hd.counted.placed_toSlot hz (hd.ready hrdy) hylive hypl hf hyroom (p := x.pos + d)
      (by omega) (by omega) hsn
    intro ha _ hm ht _
    have hlast : (x.pos + d) % ws = (x.pos + d - ws) % ws := Nat.mod_eq_sub_mod (by omega)
    have he := hd.empty_of_passed hz.dvd (p := x.pos + d - ws) (by omega) (by omega)
    have hslot : skb.sn % (x.forceRelease (ieee80211SnSub skb.sn x.tid.winSize)).tid.winSize =
        (x.pos + d - ws) % ws := by
      rw [hd.counted.size, ← hlast]
      exact Window.index hz.dvd (by rw [hsn, Nat.mod_mod])
    rw [joined_of_empty (hslot ▸ he)] at hm ht
    by_cases hfew : d + 1 - ws < ws
    · apply hd.empty
      rw [hpos, show x.pos + d - ws + 1 = x.pos + (d + 1 - ws) by omega]
      exact hstarts ha hm ht hfew
    · have hturn := hd.empty_of_passed hz.dvd (p := x.pos + d - ws + 1 - ws) (by omega) (by omega)
      rw [hpos, Nat.mod_eq_sub_mod (by omega)]
      exact hturn
  · -- The window ran out of frames, one short of the frame.
    have hempty := fun j hj => hd.counted.empty h0 (i := j) hj
    apply hd.counted.placed_toSlot_runOut hz (hd.ready hrdy) hylive hypl hyroom hempty
      (by rw [hpos, hsn]; congr 1; omega) hf hcb
    intro ha
    by_contra hc
    rw [not_or, Bool.not_eq_true] at hc
    have hexc := hd.excess
    have hcard := h.card
    have hzero : (x.forceRelease (ieee80211SnSub skb.sn x.tid.winSize)).tid.storedNum.toNat = 0 :=
      congrArg BitVec.toNat h0
    have hnone := hd.counted.card
    have hl := hleaves ha hc.1 hc.2 (by omega)
    obtain ⟨i, hi, hne⟩ := h.stored_of_leavesStored hz hl hge hle hto hpos
    exact hne (hempty i hi)

theorem Counted.placed_tidReorder (hz : WinSize ws) (h : Counted ws x) (hrdy : x.Ready)
    (hlive : x.live = true) (hpl : x.Placed ws)
    (hg : ieee80211SnLess skb.sn x.tid.winStart = false →
      x.tid.storedNum ≠ BitVec.allOnes 32 ∧
        (skb.desc.isAmsdu = true → x.LeavesRoom skb ∧ x.StartsEmpty skb)) :
    (x.tidReorder (x.fresh skb)).Placed ws := by
  by_cases hl : ieee80211SnLess (x.fresh skb).sn x.tid.winStart = true
  · unfold Rx.tidReorder
    rw [if_pos hl]
    split
    · exact placed_congr hpl rfl rfl
    · exact h.placed_freeOut hz hrdy hlive hpl
  · have hl : ieee80211SnLess (x.fresh skb).sn x.tid.winStart = false :=
      Bool.eq_false_of_not_eq_true hl
    obtain ⟨hroom, hamsdu⟩ := hg hl
    have hge := hz.ge
    have hle := hz.le
    have hfar : ieee80211SnSub skb.sn x.tid.winStart ≤ 2048 := ieee80211SnSub_le hl
    unfold LeavesRoom StartsEmpty at hamsdu
    rw [h.size] at hamsdu
    have hsn : skb.sn % 4096 = (x.pos + ieee80211SnSub skb.sn x.tid.winStart) % 4096 :=
      sn_pos h.start skb.sn
    generalize ieee80211SnSub skb.sn x.tid.winStart = d at hfar hamsdu hsn
    have hlt4 : skb.sn < 4096 := skb.desc.sn.isLt
    have hfsn : (x.fresh skb).sn = (x.pos + d) % 4096 := (Nat.mod_eq_of_lt hlt4).symm.trans hsn
    have hslot : ∀ o, (x.tid.winStart + o) % ws = (x.pos + o) % ws := by
      intro o
      have hstart := h.start
      exact Window.index hz.dvd (by omega)
    have hless : ieee80211SnLess skb.sn (u16 (x.tid.winStart + x.tid.winSize)) = true ↔ d < ws := by
      have hstart := h.start
      rw [h.size, ieee80211SnLess_iff (q := x.pos + ws) hsn (by rw [u16_mod]; omega) (by omega)
        (by omega)]
      omega
    cases hin : ieee80211SnLess (x.fresh skb).sn (u16 (x.tid.winStart + x.tid.winSize)) with
    | true =>
      have hdws := hless.mp hin
      rw [tidReorder_of_in hl hin]
      apply h.placed_toSlot hz hrdy hlive hpl rfl hroom (p := x.pos + d) (by omega) (by omega) hfsn
      intro ha hdup hm ht hpos
      obtain ⟨-, hstarts⟩ := hamsdu ha
      simp only [forcedBy, if_pos hdws, hslot] at hstarts
      simpa using hstarts (.inl hdup) hm ht (by omega) hz.pos
    | false =>
      have hdws : ws ≤ d := by
        by_contra hc
        exact Bool.false_ne_true (hin.symm.trans (hless.mpr (by omega)))
      rw [tidReorder_of_beyond hl hin]
      apply h.placed_beyond hz hrdy hlive hpl rfl rfl hroom hfsn hdws hfar
      · exact fun ha => (hamsdu ha).1
      · intro ha hm ht hfew
        obtain ⟨-, hstarts⟩ := hamsdu ha
        simp only [forcedBy, if_neg (Nat.not_lt.mpr hdws), hslot] at hstarts
        simpa using hstarts (.inr hdws) hm ht (by omega) hfew

theorem Counted.placed_ampduReorder (hz : WinSize ws) (h : Counted ws x) (hrdy : x.Ready)
    (hx : x.env = (true, true, true)) (hpl : x.Placed ws)
    (hg : x.Fits (.event (.frame skb))) : (x.ampduReorder (x.fresh skb)).Placed ws := by
  have hlive : x.live = true := congrArg (fun e => e.2.1) hx
  obtain ⟨p, hin | hin | ⟨hreach, hin⟩⟩ := ampduReorder_cases hx (x.fresh skb)
  · rw [hin]
    exact placed_congr hpl rfl rfl
  · rw [hin]
    exact placed_congr hpl rfl rfl
  · rw [hin]
    have hc : Counted ws { x with peer := p } := ⟨h.size, h.start, h.card⟩
    exact hc.placed_tidReorder hz (hrdy.congr rfl rfl) hlive (placed_congr hpl rfl rfl)
      fun hl => hg (hreach hl)

/-- The final release passes the whole window, or it stops with nothing stored. -/
theorem Counted.freeTidRx_empty (hz : WinSize ws) (h : Counted ws x) (hi : i < ws) :
    x.freeTidRx.tid.reorderBuf i = [] := by
  have hge := hz.ge
  have hle := hz.le
  have hto : ieee80211SnAdd x.tid.winStart (x.tid.winSize - 1) % 4096 = (x.pos + ws - 1) % 4096 := by
    have hstart := h.start
    rw [h.size]
    unfold ieee80211SnAdd IEEE80211_SN_MODULO
    omega
  obtain ⟨hd, -, hend⟩ := h.forceRelease_pos hz.dvd _ hto (by omega) (by omega)
  unfold freeTidRx
  rcases hend with hpos | ⟨-, h0⟩
  · obtain ⟨j, hj, hji⟩ := Lib.exists_mod_eq x.pos hi
    rw [← hji]
    exact hd.passed _ (by omega) (by omega) (by omega)
  · exact hd.counted.empty h0 hi

/-- What holds of a session between calls. -/
structure Kept (ws : ℕ) (x : Rx) : Prop extends Counted ws x, Ready x where
  env : x.env = (true, true, true)
  placed : x.Placed ws

theorem Kept.live (h : Kept ws x) : x.live = true := congrArg (fun e => e.2.1) h.env

theorem Kept.drains (hz : WinSize ws) (h : Kept ws x) (hd : Drains ws x y) (he : y.env = x.env) :
    Kept ws y :=
  ⟨hd.counted, hd.ready h.toReady, he.trans h.env, hd.placed hz h.placed⟩

theorem Kept.frame (hz : WinSize ws) (h : Kept ws x) (hg : x.Fits (.event (.frame skb))) :
    Kept ws (x.ampduReorder (x.fresh skb)) ∧
      ∀ a, (x.ampduReorder (x.fresh skb)).copies a = x.copies a + bareCount [skb] a := by
  have ht : Takes ws (x.fresh skb) false x (x.ampduReorder (x.fresh skb)) :=
    h.toCounted.takes_ampduReorder hz h.toReady h.env rfl fun hr => (hg hr).1
  exact ⟨⟨ht.counted, ht.ready, (env_ampduReorder x _).trans h.env,
    h.toCounted.placed_ampduReorder hz h.toReady h.env h.placed hg⟩, ht.copies⟩

/-- What is not a frame only takes frames from the slots. -/
theorem Kept.step_drains (hz : WinSize ws) (h : Kept ws x) {e : RxEvent}
    (he : ∀ skb, e ≠ .frame skb) (hs : x.step e = some y) : Drains ws x y := by
  cases e with
  | frame skb => exact absurd rfl (he skb)
  | timeout =>
    simp only [Rx.step] at hs
    split at hs
    · split_ifs at hs
      cases hs
      exact h.toCounted.timeout
    · cases hs
  | todo =>
    simp only [Rx.step] at hs
    split_ifs at hs
    cases hs
    exact (h.toCounted.rxTodo hz h.toTimed h.live).1
  | tick n =>
    cases hs
    exact h.toCounted.drains rfl rfl rfl rfl (fun ht => ⟨ht.refCnt, ht.expired⟩) id

end Rx

namespace RxRun

def call (s : RxRun) (c : BufCall) : Option RxRun :=
  if s.flushed then none
  else
    match c with
    | .event (.frame skb) => (s.rx.step (.frame skb)).map fun x => ⟨x, s.passed ++ [skb], false⟩
    | .event e => (s.rx.step e).map fun x => ⟨x, s.passed, false⟩
    | .forceRelease toSn => some ⟨s.rx.forceRelease toSn, s.passed, false⟩
    | .reorderRelease => some ⟨s.rx.reorderRelease, s.passed, false⟩
    | .freeTidRx => some ⟨s.rx.freeTidRx, s.passed, true⟩

/-- Every frame is in one place as often as it was passed; a stored frame is in its slot and in the
window; and nothing is stored after the final release. -/
structure Conserved (s : RxRun) : Prop where
  once : ∀ a, s.rx.copies a = bareCount s.passed a
  placed : ∀ i < s.rx.tid.winSize, ∀ skb ∈ s.rx.tid.reorderBuf i,
    skb.sn % s.rx.tid.winSize = i ∧
      ieee80211SnSub skb.sn s.rx.tid.winStart < s.rx.tid.winSize
  flushed : s.flushed = true → ∀ i < s.rx.tid.winSize, s.rx.tid.reorderBuf i = []

def Fits (s : RxRun) (c : BufCall) : Prop := s.rx.Fits c

instance (s : RxRun) (c : BufCall) : Decidable (s.Fits c) :=
  inferInstanceAs (Decidable (Rx.Fits _ _))

variable {ws : ℕ} {s s' : RxRun}

/-- The invariant of a run. -/
structure Inv (ws : ℕ) (s : RxRun) : Prop where
  kept : Rx.Kept ws s.rx
  once : ∀ a, s.rx.copies a = bareCount s.passed a
  flushed : s.flushed = true → ∀ i < ws, s.rx.tid.reorderBuf i = []

theorem Inv.drains (hz : WinSize ws) (h : Inv ws s) {y : Rx} (hd : Rx.Drains ws s.rx y)
    (he : y.env = s.rx.env) : Inv ws ⟨y, s.passed, false⟩ :=
  ⟨h.kept.drains hz hd he, fun a => (hd.copies a).trans (h.once a),
    fun hf => absurd hf Bool.false_ne_true⟩

theorem Inv.call (hz : WinSize ws) (h : Inv ws s) {c : BufCall} (hg : s.Fits c)
    (hs : s.call c = some s') : Inv ws s' := by
  unfold RxRun.call at hs
  split_ifs at hs
  cases c with
  | forceRelease toSn =>
    cases hs
    exact h.drains hz (h.kept.toCounted.forceRelease hz.dvd toSn) (Rx.env_forceRelease ..)
  | reorderRelease =>
    cases hs
    exact h.drains hz (h.kept.toCounted.reorderRelease hz h.kept.toReady h.kept.live).1
      (Rx.env_reorderRelease ..)
  | freeTidRx =>
    cases hs
    have hd := h.kept.toCounted.forceRelease hz.dvd
      (ieee80211SnAdd s.rx.tid.winStart (s.rx.tid.winSize - 1))
    exact ⟨h.kept.drains hz hd (Rx.env_forceRelease ..), fun a => (hd.copies a).trans (h.once a),
      fun _ i hi => h.kept.toCounted.freeTidRx_empty hz hi⟩
  | event e =>
    cases e with
    | frame skb =>
      cases hs
      obtain ⟨hk, hc⟩ := h.kept.frame hz hg
      refine ⟨hk, fun a => ?_, fun hf => absurd hf Bool.false_ne_true⟩
      rw [hc, h.once, bareCount_append]
    | timeout | todo | tick =>
      obtain ⟨y, hy, rfl⟩ := Option.map_eq_some_iff.mp hs
      exact h.drains hz (h.kept.step_drains hz (by simp) hy) (Rx.env_step hy)

theorem Inv.conserved (hz : WinSize ws) (h : Inv ws s) : s.Conserved := by
  refine ⟨h.once, fun i hi skb hm => ?_, ?_⟩
  · rw [h.kept.size] at hi ⊢
    obtain ⟨j, hj, rfl⟩ := Lib.exists_mod_eq s.rx.pos hi
    have hsn := h.kept.placed (s.rx.pos + j) (by omega) (by omega) skb hm
    have hle := hz.le
    refine ⟨Window.index hz.dvd (by rw [hsn, Nat.mod_mod]), ?_⟩
    rw [ieee80211SnSub_eq (p := s.rx.pos + j) (by rw [hsn, Nat.mod_mod]) h.kept.start (by omega)
      (by omega)]
    omega
  · rw [h.kept.size]
    exact h.flushed

/-- In runs in which subframes leave the window where its frames are, frames are kept. -/
theorem conserved_of_fits (now reorderTimeout : Jiffies) (p : Peer) (r : ReorderRx)
    (ssn bufSize : Fin 65536) (hpow : ∃ k, (newTidRx r ssn bufSize).winSize = 2 ^ k)
    (hge : 128 ≤ (newTidRx r ssn bufSize).winSize) (hle : (newTidRx r ssn bufSize).winSize ≤ 1024)
    (s : RxRun)
    (h : Lib.Reach call Fits
      ⟨addTidRx now reorderTimeout p { r with timer := none } ssn bufSize, [], false⟩ s) :
    s.Conserved := by
  have hz := WinSize.of_pow hpow hge hle
  have hinit : Inv (newTidRx r ssn bufSize).winSize
      ⟨addTidRx now reorderTimeout p { r with timer := none } ssn bufSize, [], false⟩ := by
    refine ⟨⟨⟨rfl, rfl, ?_⟩, ⟨⟨rfl, fun hf => absurd hf Bool.false_ne_true⟩,
      fun hf => absurd hf Bool.false_ne_true⟩, rfl, ?_⟩, fun a => ?_, fun _ _ _ => rfl⟩
    · simp [addTidRx, newTidRx, TidRx.occupied]
    · exact Rx.placed_of_empty hz.pos fun _ _ => rfl
    · simp [Rx.copies, Rx.held, addTidRx, newTidRx, bareCount]
  exact (h.invariant hinit fun _ _ _ hi hg hs => hi.call hz hg hs).conserved hz

/-- The first or the second subframe of an A-MSDU of two. -/
def subframe (sn : Fin 4096) (second : Bool) : Skb :=
  { Rx.plain sn with
    desc :=
      { (Rx.plain sn).desc with
        amsduIdx := if second then (1#6).toFin else (0#6).toFin
        isAmsdu := true
        amsduFirstIdx := !second
        amsduLastIdx := second } }

def newRun : RxRun := ⟨Rx.session, [], false⟩

theorem conserved_of_fits_subframes :
    ∃ s, Lib.Reach call Fits newRun s ∧ (s.rx.released.map fun r => r.skb.sn) = [0, 3, 5, 5, 200] ∧
      s.flushed = true ∧ s.Conserved := by
  obtain ⟨s, hs, hp⟩ := Lib.exists_reach_of_exec call Fits newRun
    [.event (.frame (Rx.plain 3)), .event (.frame (subframe 5 false)),
      .event (.frame (subframe 5 true)), .event (.frame (Rx.plain 0)),
      .event (.frame (Rx.plain 200)), .freeTidRx]
    (fun s => (s.rx.released.map fun r => r.skb.sn) == [0, 3, 5, 5, 200] && s.flushed)
    (by decide +kernel)
  simp only [Bool.and_eq_true, beq_iff_eq] at hp
  exact ⟨s, hs, hp.1, hp.2, conserved_of_fits 0 100 ⟨0, 0, 0⟩ Rx.noReorder 0 64 ⟨7, rfl⟩
    (by decide) (by decide) s hs⟩

/-- The window that runs out of frames stops one short of a subframe, which waits for the other one
behind the window. -/
theorem beyondEmptyWindow_not_conserved :
    ¬ ∀ s, Lib.Reach call Lib.Free newRun s → s.Conserved := by
  intro h
  obtain ⟨s, hs, hp⟩ := Lib.exists_reach_of_exec call Lib.Free newRun
    [.event (.frame (subframe 200 false))]
    (fun s => s.rx.tid.winSize == 128 && s.rx.tid.winStart == 72 &&
      (s.rx.tid.reorderBuf 72).map (fun skb => skb.sn) == [200]) (by decide +kernel)
  simp only [Bool.and_eq_true, beq_iff_eq] at hp
  obtain ⟨⟨hsize, hstart⟩, hbuf⟩ := hp
  obtain ⟨skb, hm, hsn⟩ := List.mem_map.mp (hbuf ▸ List.mem_singleton_self 200)
  have hin := ((h s hs).placed 72 (by rw [hsize]; decide) skb hm).2
  rw [hsn, hsize, hstart] at hin
  exact absurd hin (by decide)

end RxRun
end Skw
