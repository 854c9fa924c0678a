import Skw.Rx.Drain

/-! What a frame does to a session whatever it stores: it is freed or released at once, or it joins
its slot, which then stays, is released at the start of the window, or is purged. -/
namespace Skw

/-- The frame is one that the window of a session is for. -/
def RxDesc.Ordered (d : RxDesc) : Prop :=
  d.isQosData = true ∧ d.isMcAddr = false ∧ d.moreFrag = false ∧ d.fragNum = 0

instance (d : RxDesc) : Decidable d.Ordered := inferInstanceAs (Decidable (_ ∧ _))

namespace Rx

variable {ws : ℕ} {x y : Rx} {i p q : ℕ} {l : List Skb} {skb : Skb} {release : Bool}

/-- The slot of a sequence number. -/
def slotOf (x : Rx) (sn : ℕ) : List Skb := x.tid.reorderBuf (sn % x.tid.winSize)

/-- The frames of a slot become `l`, and the slot counts as one in use. -/
def put (x : Rx) (i : ℕ) (l : List Skb) : Rx :=
  (x.setSlot i l).setStoredNum
    (if (x.tid.reorderBuf i).isEmpty then x.tid.storedNum + 1 else x.tid.storedNum)

def uncount (x : Rx) : Rx := x.setStoredNum (x.tid.storedNum - 1)

/-- The window moves on by one. -/
def advance (x : Rx) : Rx := x.setWinStart (ieee80211SnInc x.tid.winStart)

@[simp] theorem env_put (x : Rx) (i : ℕ) (l : List Skb) : (x.put i l).env = x.env := rfl

@[simp] theorem env_uncount (x : Rx) : x.uncount.env = x.env := rfl

@[simp] theorem env_advance (x : Rx) : x.advance.env = x.env := rfl

@[simp] theorem pos_put (x : Rx) (i : ℕ) (l : List Skb) : (x.put i l).pos = x.pos := rfl

@[simp] theorem pos_uncount (x : Rx) : x.uncount.pos = x.pos := rfl

@[simp] theorem reorder_put (x : Rx) (i : ℕ) (l : List Skb) : (x.put i l).reorder = x.reorder :=
  rfl

@[simp] theorem reorder_uncount (x : Rx) : x.uncount.reorder = x.reorder := rfl

@[simp] theorem winSize_put (x : Rx) (i : ℕ) (l : List Skb) :
    (x.put i l).tid.winSize = x.tid.winSize := rfl

@[simp] theorem winSize_uncount (x : Rx) : x.uncount.tid.winSize = x.tid.winSize := rfl

theorem slot_put (x : Rx) (i : ℕ) (l : List Skb) : (x.put i l).tid.reorderBuf i = l :=
  Function.update_self ..

theorem slot_put_of_ne (x : Rx) {i j : ℕ} (l : List Skb) (h : j ≠ i) :
    (x.put i l).tid.reorderBuf j = x.tid.reorderBuf j := Function.update_of_ne h ..

theorem setSlot_counted (x : Rx) (i : ℕ) (l : List Skb) :
    (if (x.tid.reorderBuf i).isEmpty = true then x.setStoredNum (x.tid.storedNum + 1)
      else x).setSlot i l = x.put i l := by
  unfold put
  split <;> rfl

theorem slot_uncount (x : Rx) (i : ℕ) : x.uncount.tid.reorderBuf i = x.tid.reorderBuf i := rfl

theorem slot_advance (x : Rx) (i : ℕ) : x.advance.tid.reorderBuf i = x.tid.reorderBuf i := rfl

theorem uncount_put_of_empty (he : x.tid.reorderBuf i = []) :
    (x.put i l).uncount = x.setSlot i l := by
  have hn : (x.put i l).tid.storedNum - 1 = x.tid.storedNum := by
    unfold put setStoredNum
    dsimp only
    rw [he, List.isEmpty_nil, if_pos rfl]
    exact BitVec.add_sub_cancel ..
  unfold uncount
  rw [hn]
  rfl

/-- A frame that is in its slot alone or complete. -/
theorem inSlot_uncount (hi : skb.sn % x.tid.winSize = i) :
    (skb.sn = x.tid.winStart ∧ ∃ c, ((x.put i l).uncount).inSlot release skb =
        ((((x.put i l).uncount.releaseSlot i).delTimerIf c).advance).out true (some skb.sn)) ∨
      skb.sn ≠ x.tid.winStart ∧
        ((x.put i l).uncount).inSlot release skb = (x.put i l).out release (some skb.sn) := by
  have hi' : skb.sn % (x.put i l).uncount.tid.winSize = i := hi
  unfold inSlot
  simp only [hi']
  split
  · next hs => exact .inl ⟨hs, _, rfl⟩
  · next hs =>
    have hn : (x.put i l).uncount.setStoredNum ((x.put i l).uncount.tid.storedNum + 1) =
        x.put i l := by
      have hback : (x.put i l).uncount.tid.storedNum + 1 = (x.put i l).tid.storedNum :=
        BitVec.sub_add_cancel ..
      rw [hback]
      rfl
    rw [hn]
    exact .inr ⟨hs, rfl⟩

/-- The control block of a slot after a subframe has joined it. -/
def joined (x : Rx) (skb : Skb) : SkbRxcb :=
  markAmsdu skb ((x.tid.reorderBuf (skb.sn % x.tid.winSize)).head?.getD skb).cb

/-- The frames of a slot after a subframe has joined it. -/
def withSubframe (x : Rx) (skb : Skb) : List Skb :=
  (x.tid.reorderBuf (skb.sn % x.tid.winSize) ++ [skb]).modifyHead fun head =>
    { head with cb := x.joined skb }

/-- The subframe is one of those that are there already. -/
def isDup (x : Rx) (skb : Skb) : Bool :=
  ((x.tid.reorderBuf (skb.sn % x.tid.winSize)).head?.getD skb).cb.amsduBitmap.getLsbD
    skb.desc.amsduIdx

theorem amsduInSlot_cases (hi : skb.sn % x.tid.winSize = i) (hf : skb.cb.amsduBitmap = 0)
    (release : Bool) :
    (x.isDup skb = true ∧ x.tid.reorderBuf i ≠ [] ∧
        x.amsduInSlot release skb = (x.free [skb]).out release none) ∨
      x.isDup skb = false ∧
      ((x.joined skb).amsduBitmap ≠ (x.joined skb).amsduMask ∧
        x.amsduInSlot release skb = (x.put i (x.withSubframe skb)).out release (some skb.sn) ∨
      (x.joined skb).amsduBitmap = (x.joined skb).amsduMask ∧ (x.joined skb).taint = true ∧
        x.amsduInSlot release skb =
          (((x.put i (x.withSubframe skb)).uncount.purgeSlot i).advance).out release none ∨
      (x.joined skb).amsduBitmap = (x.joined skb).amsduMask ∧ (x.joined skb).taint = false ∧
        x.amsduInSlot release skb =
          ((x.put i (x.withSubframe skb)).uncount).inSlot release skb) := by
  subst hi
  unfold amsduInSlot
  simp only [setSlot_counted]
  split
  · next hdup =>
    left
    have hne : x.tid.reorderBuf (skb.sn % x.tid.winSize) ≠ [] := by
      intro he
      rw [he] at hdup
      simp [hf] at hdup
    rw [if_neg (by simpa using hne)]
    exact ⟨hdup, hne, rfl⟩
  · next hdup =>
    right
    refine ⟨Bool.eq_false_of_not_eq_true hdup, ?_⟩
    split
    · next hm => exact .inl ⟨hm, rfl⟩
    · next hm =>
      right
      split
      · next ht => exact .inl ⟨not_not.mp hm, ht, rfl⟩
      · next ht => exact .inr ⟨not_not.mp hm, Bool.eq_false_of_not_eq_true ht, rfl⟩

theorem bareCount_withSubframe (x : Rx) (skb a : Skb) :
    bareCount (x.withSubframe skb) a =
      bareCount (x.tid.reorderBuf (skb.sn % x.tid.winSize)) a + bareCount [skb] a := by
  have hhead : ∀ (m : List Skb) (cb : SkbRxcb),
      (m.modifyHead fun head => { head with cb := cb }).map Skb.bare = m.map Skb.bare := by
    intro m cb
    cases m <;> rfl
  have hbare : bareCount (x.withSubframe skb) a =
      bareCount (x.tid.reorderBuf (skb.sn % x.tid.winSize) ++ [skb]) a :=
    congrArg (List.count a) (hhead _ _)
  rw [hbare, bareCount_append]

theorem withSubframe_eq (x : Rx) (skb : Skb) : ∃ head l,
    x.tid.reorderBuf (skb.sn % x.tid.winSize) ++ [skb] = head :: l ∧
      x.withSubframe skb = { head with cb := x.joined skb } :: l := by
  unfold withSubframe
  cases hl : x.tid.reorderBuf (skb.sn % x.tid.winSize) ++ [skb] with
  | nil => simp at hl
  | cons head l => exact ⟨head, l, rfl, rfl⟩

theorem exists_of_mem_withSubframe {f : Skb} (hf : f ∈ x.withSubframe skb) :
    ∃ g ∈ x.tid.reorderBuf (skb.sn % x.tid.winSize) ++ [skb], g.desc = f.desc := by
  obtain ⟨head, l, happ, hwith⟩ := x.withSubframe_eq skb
  rw [hwith] at hf
  rw [happ]
  rcases List.mem_cons.mp hf with rfl | hf
  · exact ⟨head, List.mem_cons_self, rfl⟩
  · exact ⟨f, List.mem_cons_of_mem head hf, rfl⟩

theorem sn_congr {f g : Skb} (h : g.desc = f.desc) : g.sn = f.sn := by
  unfold Skb.sn
  rw [h]

theorem withSubframe_ne_nil (x : Rx) (skb : Skb) : x.withSubframe skb ≠ [] := by
  unfold withSubframe
  cases x.tid.reorderBuf (skb.sn % x.tid.winSize) <;> simp

theorem copies_put (x : Rx) (hi : i < x.tid.winSize) (l : List Skb) (a : Skb) :
    (x.put i l).copies a + bareCount (x.tid.reorderBuf i) a = x.copies a + bareCount l a :=
  x.copies_setSlot hi l a

/-- One more slot is in use at most, and there is room for its count. -/
theorem Counted.put (h : Counted ws x) (hi : i < ws) (hl : l ≠ [])
    (hroom : x.tid.storedNum ≠ BitVec.allOnes 32) : Counted ws (x.put i l) where
  size := h.size
  start := h.start
  card := by
    have hocc : (x.put i l).tid.occupied = insert i x.tid.occupied :=
      Window.occupied_fill (t := x.tid) (u := (x.put i l).tid) rfl (h.size ▸ hi) hl rfl
    have hcard := h.card
    rw [hocc]
    by_cases he : x.tid.reorderBuf i = []
    · have hnot : i ∉ x.tid.occupied := fun hm => (Window.mem_occupied.mp hm).2 he
      have hnum : (x.put i l).tid.storedNum = x.tid.storedNum + 1 := by
        unfold Rx.put
        rw [he, List.isEmpty_nil, if_pos rfl]
        rfl
      rw [Finset.card_insert_of_notMem hnot, hnum]
      have hmax : x.tid.storedNum.toNat ≠ 2 ^ 32 - 1 := by
        intro hmax
        exact hroom (BitVec.eq_of_toNat_eq (hmax.trans (BitVec.toNat_allOnes ..).symm))
      bv_omega
    · have hm : i ∈ x.tid.occupied := Window.mem_occupied.mpr ⟨h.size ▸ hi, he⟩
      have hnum : (x.put i l).tid.storedNum = x.tid.storedNum := by
        unfold Rx.put
        rw [if_neg (by simpa using he)]
        rfl
      rw [Finset.insert_eq_of_mem hm, hnum]
      exact hcard

theorem Ready.put (h : x.Ready) (i : ℕ) (l : List Skb) : (x.put i l).Ready :=
  h.congr rfl rfl

/-- The slot is released, and it no longer counts. -/
theorem Counted.uncount_releaseSlot (h : Counted ws x) (hi : i < ws)
    (hne : x.tid.reorderBuf i ≠ []) : Drains ws x (x.uncount.releaseSlot i) :=
  h.clear hi rfl rfl (.inr ⟨hne, rfl⟩) (.inl ⟨rfl, rfl⟩)
    (fun a => x.uncount.copies_releaseSlot (h.size ▸ hi) a) ⟨rfl, rfl⟩

theorem Counted.uncount_purgeSlot (h : Counted ws x) (hi : i < ws)
    (hne : x.tid.reorderBuf i ≠ []) : Drains ws x (x.uncount.purgeSlot i) :=
  h.clear hi rfl rfl (.inr ⟨hne, rfl⟩) (.inl ⟨rfl, rfl⟩)
    (fun a => x.uncount.copies_purgeSlot (h.size ▸ hi) a) ⟨rfl, rfl⟩

theorem advance_pos (x : Rx) : x.advance.pos = x.pos + 1 := congrArg _ (ieee80211SnSub_inc _)

theorem copies_advance (x : Rx) (a : Skb) : x.advance.copies a = x.copies a :=
  copies_congr rfl rfl rfl rfl a

theorem Ready.advance (h : x.Ready) : x.advance.Ready := h.congr rfl rfl

theorem Armed.advance (h : x.Armed) : x.advance.Armed := h

/-- The other slots are as they were, and so are the timer and the node. -/
theorem armed_uncount_purgeSlot (h : x.Armed) (i : ℕ) (l : List Skb) :
    ((x.put i l).uncount.purgeSlot i).Armed := by
  refine h.congr (by simp) (by simp) fun j hne => ?_
  by_cases hji : j = i
  · rw [hji, slot_purgeSlot] at hne
    exact absurd rfl hne
  · rwa [slot_purgeSlot_of_ne _ hji, slot_uncount, slot_put_of_ne x l hji] at hne

theorem Counted.advance (h : Counted ws x) : Counted ws x.advance where
  size := h.size
  start := by
    rw [advance_pos]
    exact ieee80211SnInc_mod h.start
  card := h.card

/-- The window moves on over an empty slot. -/
theorem Counted.advance_drains (h : Counted ws x) (he : x.tid.reorderBuf (x.pos % ws) = []) :
    Drains ws x x.advance where
  counted := h.advance
  stored := le_rfl
  excess := le_rfl
  slots _ := .inr rfl
  pos := by
    rw [advance_pos]
    exact Nat.le_succ _
  passed p hp hlt _ := by
    rw [advance_pos] at hlt
    rw [show p = x.pos by omega]
    exact he
  copies := copies_congr rfl rfl rfl rfl
  timed hr := ⟨hr.refCnt, hr.expired⟩
  linked := id

theorem Counted.out (hz : WinSize ws) (h : Counted ws x) (hrdy : x.Ready) (hlive : x.live = true)
    (release : Bool) (sn : Option ℕ) : Drains ws x (x.out release sn) := by
  unfold Rx.out
  split
  · split
    · exact (h.reorderRelease hz hrdy hlive).1
    · split
      · exact h.setReorderTimer _
      · exact h.refl
  · exact h.delTimer

theorem Counted.armed_out (hz : WinSize ws) (h : Counted ws x) (hrdy : x.Ready)
    (hlive : x.live = true) (release : Bool) {sn : Option ℕ}
    (ha : release = false →
      (∀ n ∈ sn, x.tid.reorderBuf (n % x.tid.winSize) ≠ []) ∧ (sn = none → x.Armed)) :
    (x.out release sn).Armed := by
  unfold Rx.out
  split
  · split
    · exact (h.reorderRelease hz hrdy hlive).2
    · next hr =>
      obtain ⟨hslot, hnone⟩ := ha (Bool.eq_false_of_not_eq_true hr)
      split
      · exact hrdy.armed_setReorderTimer (hslot _ rfl)
      · exact hnone rfl
  · next h0 => exact h.delTimer.counted.armed_of_zero (not_not.mp h0)

/-- The frame gets as far as the window. -/
def Reaches (x : Rx) (skb : Skb) : Prop :=
  (x.peer.any fun p => filtered p skb) = false ∧ skb.desc.isQosData = true ∧
    skb.desc.isMcAddr = false ∧ skb.desc.moreFrag = false ∧ skb.desc.fragNum = 0 ∧
    ieee80211SnLess skb.sn x.tid.winStart = false

instance (x : Rx) (skb : Skb) : Decidable (x.Reaches skb) :=
  inferInstanceAs (Decidable (_ ∧ _ ∧ _ ∧ _ ∧ _ ∧ _))

/-- What a frame that reaches its slot leaves of a session. -/
structure Takes (ws : ℕ) (skb : Skb) (release : Bool) (x z : Rx) : Prop where
  counted : Counted ws z
  ready : z.Ready
  copies : ∀ a, z.copies a = x.copies a + bareCount [skb] a
  armed : release = true ∨ x.Armed → z.Armed

theorem Counted.takes_out (hz : WinSize ws) (h : Counted ws y) (hrdy : y.Ready)
    (hlive : y.live = true) {b : Bool} {sn : Option ℕ} (hb : release = true → b = true)
    (hc : ∀ a, y.copies a = x.copies a + bareCount [skb] a)
    (ha : b = false → (∀ n ∈ sn, y.tid.reorderBuf (n % y.tid.winSize) ≠ []) ∧
      (sn = none → x.Armed → y.Armed)) : Takes ws skb release x (y.out b sn) := by
  have hd := h.out hz hrdy hlive b sn
  refine ⟨hd.counted, hd.ready hrdy, fun a => (hd.copies a).trans (hc a), fun hx => ?_⟩
  apply h.armed_out hz hrdy hlive
  intro hf
  refine ⟨(ha hf).1, fun hs => (ha hf).2 hs (hx.resolve_left fun hr => ?_)⟩
  rw [hb hr] at hf
  cases hf

/-- The frames of the slot are released where the window starts, or they stay. -/
theorem Counted.inSlot_out (hz : WinSize ws) (h : Counted ws x) (hlive : x.live = true)
    (hi : skb.sn % x.tid.winSize = i) (hl : l ≠ []) (hroom : x.tid.storedNum ≠ BitVec.allOnes 32)
    (release : Bool) : ∃ y b, ((x.put i l).uncount).inSlot release skb = y.out b (some skb.sn) ∧
      Drains ws (x.put i l) y ∧ y.live = true ∧ (b = true ∨ b = release ∧ y = x.put i l) := by
  have hiws : i < ws := by
    rw [← hi, h.size]
    exact Nat.mod_lt _ hz.pos
  have hw := h.put hiws hl hroom
  rcases inSlot_uncount (l := l) hi with ⟨hs, c, hin⟩ | ⟨-, hin⟩
  · have hd := hw.uncount_releaseSlot hiws (by rwa [slot_put])
    have hd := hd.trans (hd.counted.delTimerIf c)
    have hpos : (((x.put i l).uncount.releaseSlot i).delTimerIf c).pos = x.pos := by
      rw [delTimerIf_pos, pos_releaseSlot, pos_uncount, pos_put]
    have hstart : i = x.pos % ws := by
      rw [← hi, hs]
      exact h.start_slot hz.dvd
    have hempty : (((x.put i l).uncount.releaseSlot i).delTimerIf c).tid.reorderBuf i = [] := by
      rw [delTimerIf_tid]
      exact slot_releaseSlot ..
    exact ⟨_, true, hin, hd.trans (hd.counted.advance_drains (by rwa [hpos, ← hstart])),
      live_of_env (by simp) hlive, .inl rfl⟩
  · exact ⟨_, release, hin, hw.refl, hlive, .inr ⟨rfl, rfl⟩⟩

theorem Counted.drains_inSlot (hz : WinSize ws) (h : Counted ws x) (hrdy : x.Ready)
    (hlive : x.live = true) (hi : skb.sn % x.tid.winSize = i) (hl : l ≠ [])
    (hroom : x.tid.storedNum ≠ BitVec.allOnes 32) :
    Drains ws (x.put i l) (((x.put i l).uncount).inSlot release skb) := by
  obtain ⟨y, b, hin, hd, hylive, -⟩ := h.inSlot_out hz hlive hi hl hroom release
  rw [hin]
  exact hd.trans (hd.counted.out hz (hd.ready (hrdy.put i l)) hylive b _)

theorem copies_put_of_bare (hi : i < x.tid.winSize)
    (hbare : ∀ a, bareCount l a = bareCount (x.tid.reorderBuf i) a + bareCount [skb] a) (a : Skb) :
    (x.put i l).copies a = x.copies a + bareCount [skb] a := by
  have hput := x.copies_put hi l a
  have := hbare a
  omega

theorem Counted.takes_inSlot (hz : WinSize ws) (h : Counted ws x) (hrdy : x.Ready)
    (hlive : x.live = true) (hi : skb.sn % x.tid.winSize = i) (hl : l ≠ [])
    (hbare : ∀ a, bareCount l a = bareCount (x.tid.reorderBuf i) a + bareCount [skb] a)
    (hroom : x.tid.storedNum ≠ BitVec.allOnes 32) :
    Takes ws skb release x (((x.put i l).uncount).inSlot release skb) := by
  have hisize : i < x.tid.winSize := by
    rw [← hi, h.size]
    exact Nat.mod_lt _ hz.pos
  obtain ⟨y, b, hin, hd, hylive, hb⟩ := h.inSlot_out hz hlive hi hl hroom release
  rw [hin]
  apply hd.counted.takes_out hz (hd.ready (hrdy.put i l)) hylive
  · intro hr
    rcases hb with hb | ⟨hb, -⟩
    · exact hb
    · exact hb.trans hr
  · exact fun a => (hd.copies a).trans (copies_put_of_bare hisize hbare a)
  · intro hf
    refine ⟨fun n hn => ?_, fun hnone => by cases hnone⟩
    cases hn
    rcases hb with hb | ⟨-, rfl⟩
    · rw [hb] at hf
      cases hf
    · rw [winSize_put, hi, slot_put]
      exact hl

/-- A frame that is dropped. -/
theorem Counted.takes_freeOut (hz : WinSize ws) (h : Counted ws x) (hrdy : x.Ready)
    (hlive : x.live = true) : Takes ws skb release x ((x.free [skb]).out release none) := by
  have hc : Counted ws (x.free [skb]) := ⟨h.size, h.start, h.card⟩
  apply hc.takes_out hz (hrdy.congr rfl rfl) hlive id (x.copies_free [skb])
  exact fun _ => ⟨fun _ hn => absurd hn (Option.not_mem_none _), fun _ hx => hx⟩

theorem Counted.takes_amsduInSlot (hz : WinSize ws) (h : Counted ws x) (hrdy : x.Ready)
    (hlive : x.live = true) (hf : skb.cb.amsduBitmap = 0)
    (hroom : x.tid.storedNum ≠ BitVec.allOnes 32) :
    Takes ws skb release x (x.amsduInSlot release skb) := by
  have hiws : skb.sn % x.tid.winSize < ws := by
    rw [h.size]
    exact Nat.mod_lt _ hz.pos
  have hl := x.withSubframe_ne_nil skb
  have hw := h.put hiws hl hroom
  have hwrdy := hrdy.put (skb.sn % x.tid.winSize) (x.withSubframe skb)
  have hcopies : ∀ a, (x.put (skb.sn % x.tid.winSize) (x.withSubframe skb)).copies a =
      x.copies a + bareCount [skb] a :=
    copies_put_of_bare (hiws.trans_eq h.size.symm) (x.bareCount_withSubframe skb)
  rcases amsduInSlot_cases rfl hf release with
    ⟨-, -, hin⟩ | ⟨-, ⟨-, hin⟩ | ⟨-, -, hin⟩ | ⟨-, -, hin⟩⟩
  · rw [hin]
    exact h.takes_freeOut hz hrdy hlive
  · rw [hin]
    apply hw.takes_out hz hwrdy hlive id hcopies
    intro _
    refine ⟨fun n hn => ?_, fun hf => by cases hf⟩
    cases hn
    rw [winSize_put, slot_put]
    exact hl
  · rw [hin]
    have hd := hw.uncount_purgeSlot hiws (by rwa [slot_put])
    apply hd.counted.advance.takes_out hz (hd.ready hwrdy).advance (live_of_env (by simp) hlive) id
    · intro a
      rw [copies_advance, hd.copies, hcopies]
    · intro _
      refine ⟨fun _ hn => absurd hn (Option.not_mem_none _), fun _ hx => ?_⟩
      exact (armed_uncount_purgeSlot hx _ _).advance
  · rw [hin]
    exact h.takes_inSlot hz hrdy hlive rfl hl (x.bareCount_withSubframe skb) hroom

/-- A frame that is no part of an A-MSDU. -/
theorem Counted.takes_single (hz : WinSize ws) (h : Counted ws x) (hrdy : x.Ready)
    (hlive : x.live = true) (hroom : x.tid.storedNum ≠ BitVec.allOnes 32)
    (he : x.tid.reorderBuf (skb.sn % x.tid.winSize) = []) :
    Takes ws skb release x ((x.setSlot (skb.sn % x.tid.winSize) [skb]).inSlot release skb) := by
  rw [← uncount_put_of_empty he]
  apply h.takes_inSlot hz hrdy hlive rfl (List.cons_ne_nil skb []) _ hroom
  intro a
  rw [he]
  exact (Nat.zero_add _).symm

/-- The counter has the room that it had before a release. -/
theorem Drains.room (hd : Drains ws x y) (hroom : x.tid.storedNum ≠ BitVec.allOnes 32) :
    y.tid.storedNum ≠ BitVec.allOnes 32 := by
  intro hmax
  have hle := hd.stored
  rw [hmax, BitVec.toNat_allOnes] at hle
  have hlt := x.tid.storedNum.isLt
  exact hroom (BitVec.eq_of_toNat_eq (by rw [BitVec.toNat_allOnes]; omega))

theorem Drains.takes (hd : Drains ws x y) (h : Takes ws skb true y z) : Takes ws skb false x z where
  counted := h.counted
  ready := h.ready
  copies a := by
    rw [h.copies, hd.copies]
  armed _ := h.armed (.inl rfl)

/-- A frame that the window has room for. -/
def toSlot (x : Rx) (release : Bool) (skb : Skb) : Rx :=
  if skb.desc.isAmsdu then x.amsduInSlot release skb
  else if (x.tid.reorderBuf (skb.sn % x.tid.winSize)).isEmpty then
    (x.setSlot (skb.sn % x.tid.winSize) [skb]).inSlot release skb
  else (x.free [skb]).out release none

theorem tidReorder_of_in (hl : ieee80211SnLess skb.sn x.tid.winStart = false)
    (hin : ieee80211SnLess skb.sn (u16 (x.tid.winStart + x.tid.winSize)) = true) :
    x.tidReorder skb = x.toSlot false skb := by
  unfold tidReorder
  rw [if_neg (by rw [hl]; exact Bool.false_ne_true)]
  simp only [hin, Bool.not_true, Bool.false_eq_true, if_false]
  rfl

theorem tidReorder_of_beyond (hl : ieee80211SnLess skb.sn x.tid.winStart = false)
    (hin : ieee80211SnLess skb.sn (u16 (x.tid.winStart + x.tid.winSize)) = false) :
    x.tidReorder skb =
      (x.forceRelease (ieee80211SnSub skb.sn x.tid.winSize)).toSlot true skb := by
  unfold tidReorder
  rw [if_neg (by rw [hl]; exact Bool.false_ne_true)]
  simp only [hin, Bool.not_false, if_true]
  rfl

theorem Counted.takes_toSlot (hz : WinSize ws) (h : Counted ws x) (hrdy : x.Ready)
    (hlive : x.live = true) (hf : skb.cb.amsduBitmap = 0)
    (hroom : x.tid.storedNum ≠ BitVec.allOnes 32) :
    Takes ws skb release x (x.toSlot release skb) := by
  unfold toSlot
  split
  · exact h.takes_amsduInSlot hz hrdy hlive hf hroom
  · split
    · next he => exact h.takes_single hz hrdy hlive hroom (by simpa using he)
    · exact h.takes_freeOut hz hrdy hlive

theorem Counted.takes_tidReorder (hz : WinSize ws) (h : Counted ws x) (hrdy : x.Ready)
    (hlive : x.live = true) (hf : skb.cb.amsduBitmap = 0)
    (hroom : ieee80211SnLess skb.sn x.tid.winStart = false →
      x.tid.storedNum ≠ BitVec.allOnes 32) : Takes ws skb false x (x.tidReorder skb) := by
  by_cases hl : ieee80211SnLess skb.sn x.tid.winStart = true
  · unfold Rx.tidReorder
    rw [if_pos hl]
    split
    · refine ⟨⟨h.size, h.start, h.card⟩, (hrdy.congr rfl rfl), fun a => ?_,
        fun hx => hx.resolve_left Bool.false_ne_true⟩
      exact x.copies_release _ a
    · exact h.takes_freeOut hz hrdy hlive
  · have hl : ieee80211SnLess skb.sn x.tid.winStart = false := Bool.eq_false_of_not_eq_true hl
    have hroom := hroom hl
    cases hin : ieee80211SnLess skb.sn (u16 (x.tid.winStart + x.tid.winSize)) with
    | true =>
      rw [tidReorder_of_in hl hin]
      exact h.takes_toSlot hz hrdy hlive hf hroom
    | false =>
      have hd := h.forceRelease hz.dvd (ieee80211SnSub skb.sn x.tid.winSize)
      rw [tidReorder_of_beyond hl hin]
      apply hd.takes
      apply hd.counted.takes_toSlot hz (hd.ready hrdy) _ hf (hd.room hroom)
      exact live_of_env (env_forceRelease x _) hlive

/-- Until `skw_del_tid_rx` a frame is dropped or passed on, or it gets to the window. -/
theorem ampduReorder_cases (hx : x.env = (true, true, true)) (skb : Skb) : ∃ p : Option Peer,
    x.ampduReorder skb = Rx.free { x with peer := p } [skb] ∨
      x.ampduReorder skb = Rx.release { x with peer := p } [skb] ∨
        (ieee80211SnLess skb.sn x.tid.winStart = false → x.Reaches skb) ∧
          x.ampduReorder skb = Rx.tidReorder { x with peer := p } skb := by
  simp only [env, Prod.mk.injEq] at hx
  obtain ⟨hflag, hlive, hpeer⟩ := hx
  obtain ⟨p, hp⟩ := Option.isSome_iff_exists.mp hpeer
  unfold Rx.ampduReorder
  rw [if_neg (by simp [hflag])]
  simp only [hp]
  split
  · exact ⟨some p, .inl (by rw [← hp])⟩
  · next hfil =>
    refine ⟨some { p with rxBytes := p.rxBytes + skb.len, rxPkts := p.rxPkts + 1 }, .inr ?_⟩
    split
    · exact .inl rfl
    · next hq =>
      split
      · exact .inl rfl
      · next hm =>
        rw [if_neg (by simp [hlive])]
        refine .inr ⟨fun hl => ?_, rfl⟩
        simp only [Bool.not_eq_true, Bool.or_eq_false_iff, Bool.not_eq_false', bne_eq_false_iff_eq]
          at hfil hq hm
        exact ⟨by rw [hp]; exact hfil, hq.1, hq.2, hm.1, hm.2, hl⟩

/-- The frame is counted for the peer. -/
def received (x : Rx) (skb : Skb) : Rx :=
  { x with
    peer := x.peer.map fun p =>
      { p with rxBytes := p.rxBytes + skb.len, rxPkts := p.rxPkts + 1 } }

/-- What is left of a session that a frame goes past. One that the window is for is passed on where it
is late and exempt from the window. -/
inductive Passes (x : Rx) (skb : Skb) : Rx → Prop
  | free (p : Option Peer) : Passes x skb (Rx.free { x with peer := p } [skb])
  | release (p : Option Peer) (f : Skb) (hf : f.desc = skb.desc)
      (hlate : x.env = (true, true, true) → skb.desc.Ordered →
        ieee80211SnLess skb.sn x.tid.winStart = true ∧ skb.desc.exclFilter = true) :
      Passes x skb (Rx.release { x with peer := p } [f])

theorem passes_of_not_reachesReorder (h : reachesReorder x.reorderFlag x.peer skb = false) :
    x.Passes skb (x.ampduReorder skb) := by
  unfold ampduReorder
  by_cases hf : x.reorderFlag = true
  · rw [if_neg (by simp [hf])]
    split
    · next hp => exact .release (x := x) x.peer skb rfl fun he => by simp [env, hp] at he
    · next p hp =>
      simp only [reachesReorder, hf, hp, Option.any_some, Bool.true_and] at h
      dsimp only
      split_ifs with hfil hqos hfrag hlive
      · exact .free (x := x) x.peer
      · refine .release (x := x) _ skb rfl fun _ ho => ?_
        simp [ho.1, ho.2.1] at hqos
      · refine .release (x := x) _ skb rfl fun _ ho => ?_
        simp [ho.2.2.1, ho.2.2.2] at hfrag
      · refine .release (x := x) _ skb rfl fun he => ?_
        simp only [Bool.not_eq_true'] at hlive
        simp [env, hlive] at he
      · simp only [Bool.not_eq_true, Bool.or_eq_false_iff, Bool.not_eq_false',
          bne_eq_false_iff_eq] at hfil hqos hfrag
        simp [hfil, hqos, hfrag] at h
  · rw [if_pos (by simpa using hf)]
    exact .release (x := x) x.peer skb rfl fun he => by simp [env, hf] at he

/-- A frame that does not get to `peer->reorder` leaves every session as it is. -/
theorem tid_of_not_reachesReorder (h : reachesReorder x.reorderFlag x.peer skb = false) :
    (x.ampduReorder skb).tid = x.tid := by
  have hp := passes_of_not_reachesReorder h
  generalize x.ampduReorder skb = y at hp ⊢
  cases hp <;> rfl

/-- A frame that does is counted for its peer and given to the session, if there is one. -/
theorem ampduReorder_of_reachesReorder (h : reachesReorder x.reorderFlag x.peer skb = true) :
    x.ampduReorder skb =
      if x.live then (x.received skb).tidReorder skb else (x.received skb).release [skb] := by
  simp only [reachesReorder, Bool.and_eq_true, Option.any_eq_true, Bool.not_eq_true',
    beq_iff_eq] at h
  obtain ⟨hf, p, hp, ⟨⟨⟨hfil, hqos⟩, hmc⟩, hmore⟩, hfrag⟩ := h
  unfold ampduReorder received
  rw [hf]
  simp only [hp, hfil, hqos, hmc, hmore, hfrag, Bool.not_true, Bool.or_self, Bool.false_eq_true,
    if_false, bne_self_eq_false, Option.map_some]
  cases x.live <;> rfl

/-- Every frame that the session is given goes to one place, and frames that wait are not
forgotten. -/
theorem Counted.takes_ampduReorder (hz : WinSize ws) (h : Counted ws x) (hrdy : x.Ready)
    (hx : x.env = (true, true, true)) (hf : skb.cb.amsduBitmap = 0)
    (hroom : x.Reaches skb → x.tid.storedNum ≠ BitVec.allOnes 32) :
    Takes ws skb false x (x.ampduReorder skb) := by
  have hlive : x.live = true := congrArg (fun e => e.2.1) hx
  obtain ⟨p, hin | hin | ⟨hreach, hin⟩⟩ := ampduReorder_cases hx skb
  · rw [hin]
    exact ⟨⟨h.size, h.start, h.card⟩, hrdy.congr rfl rfl, x.copies_free [skb],
      fun ha => ha.resolve_left Bool.false_ne_true⟩
  · rw [hin]
    exact ⟨⟨h.size, h.start, h.card⟩, hrdy.congr rfl rfl, x.copies_release [skb],
      fun ha => ha.resolve_left Bool.false_ne_true⟩
  · rw [hin]
    have hc : Counted ws { x with peer := p } := ⟨h.size, h.start, h.card⟩
    have hr : ({ x with peer := p } : Rx).Ready := hrdy.congr rfl rfl
    have ht := hc.takes_tidReorder hz hr hlive hf fun hl => hroom (hreach hl)
    exact ⟨ht.counted, ht.ready, fun a => (ht.copies a).trans rfl, ht.armed⟩

end Rx
end Skw
