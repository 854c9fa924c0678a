import Skw.Rx.Counter

/-! When the A-MSDU in a slot counts as complete. The subframes that came are bits of a `u8`, bit 0
stands for the last one, and an index goes up to 63. -/
namespace Skw

def Skb.idx (skb : Skb) : ℕ := skb.desc.amsduIdx

/-- A subframe of an A-MSDU of `n` subframes. -/
structure Skb.SubframeOf (skb : Skb) (n : ℕ) : Prop where
  isAmsdu : skb.desc.isAmsdu = true
  pos : 1 ≤ skb.idx
  le : skb.idx ≤ n
  last : skb.desc.amsduLastIdx = true ↔ skb.idx = n

instance (skb : Skb) (n : ℕ) : Decidable (skb.SubframeOf n) :=
  decidable_of_iff (skb.desc.isAmsdu = true ∧ 1 ≤ skb.idx ∧ skb.idx ≤ n ∧
      (skb.desc.amsduLastIdx = true ↔ skb.idx = n))
    ⟨fun ⟨ha, hpos, hle, hl⟩ => ⟨ha, hpos, hle, hl⟩, fun h => ⟨h.isAmsdu, h.pos, h.le, h.last⟩⟩

/-- Every one of `n` subframes is among those that arrived. -/
def AllArrived (n : ℕ) (arrived : List ℕ) : Prop := ∀ j, 1 ≤ j → j ≤ n → j ∈ arrived

namespace Rx

/-- The control block at the head of a slot knows which subframes have arrived. -/
structure Tracks (n : ℕ) (arrived : List ℕ) (l : List Skb) : Prop where
  members : ∀ j, j ∈ l.map Skb.idx ↔ j ∈ arrived
  nodup : (l.map Skb.idx).Nodup
  range : ∀ j ∈ arrived, 1 ≤ j ∧ j ≤ n
  bits : ∀ head ∈ l.head?, ∀ k < 8, head.cb.amsduBitmap.getLsbD k = true ↔
    k ≠ 0 ∧ k ∈ arrived ∨ k = 0 ∧ n ∈ arrived
  mask : ∀ head ∈ l.head?, ∀ k < 8, head.cb.amsduMask.getLsbD k = true ↔ n ∈ arrived ∧ k ≤ n
  valid : ∀ head ∈ l.head?, head.cb.valid = true

variable {n sn : ℕ} {arrived : List ℕ} {l : List Skb} {skb : Skb} {x y : Rx} {release : Bool}

theorem Tracks.nil : Tracks n [] [] where
  members _ := Iff.rfl
  nodup := List.nodup_nil
  range _ h := by cases h
  bits _ h := by cases h
  mask _ h := by cases h
  valid _ h := by cases h

/-- The bit of a subframe that the bitmap has room for. -/
theorem getLsbD_bit : ∀ j < 8, ∀ k < 8,
    (((1 <<< j : ℕ) : BitVec 64).setWidth 8).getLsbD k = decide (k = j) := by decide

/-- The mask of an A-MSDU that the bitmap has room for. -/
theorem getLsbD_mask : ∀ j < 8, ∀ k < 8,
    ((((1 : BitVec 64) <<< (j + 1)) - 1).setWidth 8).getLsbD k = decide (k ≤ j) := by decide

theorem getLsbD_one : ∀ k < 8, (1 : BitVec 8).getLsbD k = decide (k = 0) := by decide

theorem Tracks.eq_nil (h : Tracks n arrived []) : arrived = [] :=
  List.eq_nil_iff_forall_not_mem.mpr fun j hj => List.not_mem_nil ((h.members j).mpr hj)

/-- The bitmap and the mask agree when every subframe has arrived. -/
theorem Tracks.bitmap_iff (h : Tracks n arrived l) (hn : n < 8) {head : Skb}
    (hh : head ∈ l.head?) : head.cb.amsduBitmap = head.cb.amsduMask ↔ AllArrived n arrived := by
  have hbits := h.bits head hh
  have hmask := h.mask head hh
  have hmem : head.idx ∈ arrived :=
    (h.members _).mp (List.mem_map_of_mem (List.mem_of_mem_head? hh))
  have hrange := h.range _ hmem
  constructor
  · intro heq j hj hjn
    have hfirst : head.cb.amsduBitmap.getLsbD head.idx = true :=
      (hbits _ (by omega)).mpr (.inl ⟨by omega, hmem⟩)
    rw [heq] at hfirst
    have hlast := ((hmask _ (by omega)).mp hfirst).1
    have hbit : head.cb.amsduBitmap.getLsbD j = true := by
      rw [heq]
      exact (hmask j (by omega)).mpr ⟨hlast, hjn⟩
    rcases (hbits j (by omega)).mp hbit with ⟨-, hj'⟩ | ⟨h0, -⟩
    · exact hj'
    · omega
  · intro hall
    have hlast : n ∈ arrived := hall n (by omega) le_rfl
    apply BitVec.eq_of_getLsbD_eq
    intro k hk
    rw [Bool.eq_iff_iff, hbits k hk, hmask k hk]
    constructor
    · rintro (⟨-, hmem⟩ | ⟨rfl, -⟩)
      · exact ⟨hlast, (h.range k hmem).2⟩
      · exact ⟨hlast, n.zero_le⟩
    · intro ⟨_, hkn⟩
      by_cases h0 : k = 0
      · exact .inr ⟨h0, hlast⟩
      · exact .inl ⟨h0, hall k (by omega) hkn⟩

theorem Tracks.ready_iff (h : Tracks n arrived l) (hn : n < 8) (hl : l ≠ []) :
    isReleaseReady l = true ↔ AllArrived n arrived := by
  obtain ⟨head, tl, rfl⟩ := List.exists_cons_of_ne_nil hl
  rw [← h.bitmap_iff hn (by exact rfl : head ∈ (head :: tl).head?)]
  simp [isReleaseReady, h.valid head rfl]

/-- What a subframe leaves of the two masks. -/
theorem markAmsdu_bitmap (hs : skb.SubframeOf n) (hn : n < 8) (cb : SkbRxcb) {k : ℕ} (hk : k < 8) :
    (markAmsdu skb cb).amsduBitmap.getLsbD k = true ↔
      cb.amsduBitmap.getLsbD k = true ∨ k = skb.idx ∨ k = 0 ∧ skb.idx = n := by
  have hle := hs.le
  have hidx : (skb.desc.amsduIdx : ℕ) = skb.idx := rfl
  have hbit := getLsbD_bit skb.idx (by omega) k hk
  have hone := getLsbD_one k hk
  unfold markAmsdu
  dsimp only
  rw [hidx]
  cases hlast : skb.desc.amsduLastIdx with
  | true =>
    obtain rfl := hs.last.mp hlast
    rw [if_pos rfl]
    split <;> simp only [BitVec.getLsbD_or, hbit, hone, Bool.or_eq_true, decide_eq_true_eq,
      and_true, or_assoc]
  | false =>
    have hne : skb.idx ≠ n := fun he => by simp [hs.last.mpr he] at hlast
    rw [if_neg Bool.false_ne_true]
    split <;> simp only [BitVec.getLsbD_or, hbit, Bool.or_eq_true, decide_eq_true_eq, hne,
      and_false, or_false]

theorem markAmsdu_mask (hs : skb.SubframeOf n) (hn : n < 8) (cb : SkbRxcb) {k : ℕ} (hk : k < 8) :
    (markAmsdu skb cb).amsduMask.getLsbD k = true ↔
      skb.idx ≠ n ∧ cb.amsduMask.getLsbD k = true ∨ skb.idx = n ∧ k ≤ n := by
  have hidx : (skb.desc.amsduIdx : ℕ) = skb.idx := rfl
  unfold markAmsdu
  dsimp only
  rw [hidx]
  cases hlast : skb.desc.amsduLastIdx with
  | true =>
    obtain rfl := hs.last.mp hlast
    rw [if_pos rfl]
    have hmask := getLsbD_mask skb.idx hn k hk
    split <;> simp only [hmask, decide_eq_true_eq, ne_eq, not_true_eq_false, false_and, true_and,
      false_or]
  | false =>
    have hne : skb.idx ≠ n := fun he => by simp [hs.last.mpr he] at hlast
    rw [if_neg Bool.false_ne_true]
    split <;> simp [hne]

theorem markAmsdu_valid (skb : Skb) (cb : SkbRxcb) : (markAmsdu skb cb).valid = true := by
  unfold markAmsdu
  dsimp only
  split_ifs <;> rfl

/-- The control block in which a subframe is marked knows those that came before. -/
theorem Tracks.before (h : Tracks n arrived l) (hf : skb.cb.amsduBitmap = 0)
    (hf' : skb.cb.amsduMask = 0) {k : ℕ} (hk : k < 8) :
    ((l.head?.getD skb).cb.amsduBitmap.getLsbD k = true ↔
        k ≠ 0 ∧ k ∈ arrived ∨ k = 0 ∧ n ∈ arrived) ∧
      ((l.head?.getD skb).cb.amsduMask.getLsbD k = true ↔ n ∈ arrived ∧ k ≤ n) := by
  cases l with
  | nil => simp [hf, hf', h.eq_nil]
  | cons head l => exact ⟨h.bits head rfl k hk, h.mask head rfl k hk⟩

/-- The bit of a subframe says whether it has arrived. -/
theorem Tracks.isDup_iff (h : Tracks n arrived (x.tid.reorderBuf (skb.sn % x.tid.winSize)))
    (hs : skb.SubframeOf n) (hn : n < 8) (hf : skb.cb.amsduBitmap = 0)
    (hf' : skb.cb.amsduMask = 0) : x.isDup skb = true ↔ skb.idx ∈ arrived := by
  have hpos := hs.pos
  have hle := hs.le
  have hidx : (skb.desc.amsduIdx : ℕ) = skb.idx := rfl
  unfold isDup
  rw [hidx, (h.before hf hf' (by omega)).1]
  constructor
  · intro hbit
    exact hbit.elim (·.2) fun h0 => by omega
  · intro hm
    exact .inl ⟨by omega, hm⟩

theorem Tracks.again {j : ℕ} (h : Tracks n arrived l) (hj : j ∈ arrived) :
    Tracks n (arrived ++ [j]) l := by
  have hmem : ∀ k, k ∈ arrived ++ [j] ↔ k ∈ arrived := by
    intro k
    rw [List.mem_append, List.mem_singleton]
    exact or_iff_left_of_imp fun hk => hk ▸ hj
  constructor
  · exact fun k => (h.members k).trans (hmem k).symm
  · exact h.nodup
  · exact fun k hk => h.range k ((hmem k).mp hk)
  · simpa only [hmem] using h.bits
  · simpa only [hmem] using h.mask
  · exact h.valid

/-- A subframe that is not there yet joins the others. -/
theorem Tracks.join (h : Tracks n arrived (x.tid.reorderBuf (skb.sn % x.tid.winSize)))
    (hs : skb.SubframeOf n) (hn : n < 8) (hf : skb.cb.amsduBitmap = 0)
    (hf' : skb.cb.amsduMask = 0) (hnew : skb.idx ∉ arrived) :
    Tracks n (arrived ++ [skb.idx]) (x.withSubframe skb) := by
  obtain ⟨head, l, happ, hwith⟩ := x.withSubframe_eq skb
  have hidxs : (x.withSubframe skb).map Skb.idx =
      (x.tid.reorderBuf (skb.sn % x.tid.winSize)).map Skb.idx ++ [skb.idx] := by
    have hsame : ((x.withSubframe skb).map Skb.idx) = (head :: l).map Skb.idx := by
      rw [hwith]
      rfl
    rw [hsame, ← happ, List.map_append]
    rfl
  have hhead : ∀ f ∈ (x.withSubframe skb).head?, f.cb = x.joined skb := by
    intro f hf
    rw [hwith] at hf
    cases hf
    rfl
  have hmem : ∀ k, k ∈ arrived ++ [skb.idx] ↔ k ∈ arrived ∨ k = skb.idx := by
    intro k
    rw [List.mem_append, List.mem_singleton]
  have hpos := hs.pos
  constructor
  · intro j
    rw [hidxs, List.mem_append, List.mem_append, h.members]
  · rw [hidxs]
    refine List.Nodup.append h.nodup (List.nodup_singleton _) ?_
    rw [List.disjoint_singleton]
    exact fun hm => hnew ((h.members _).mp hm)
  · intro j hj
    rcases (hmem j).mp hj with hj | rfl
    · exact h.range j hj
    · exact ⟨hpos, hs.le⟩
  · intro f hfh k hk
    rw [hhead f hfh]
    unfold joined
    rw [markAmsdu_bitmap hs hn _ hk, (h.before hf hf' hk).1, hmem, hmem]
    constructor
    · rintro ((⟨h0, hk⟩ | ⟨h0, hk⟩) | rfl | ⟨h0, hk⟩)
      · exact .inl ⟨h0, .inl hk⟩
      · exact .inr ⟨h0, .inl hk⟩
      · exact .inl ⟨by omega, .inr rfl⟩
      · exact .inr ⟨h0, .inr hk.symm⟩
    · rintro (⟨h0, hk | hk⟩ | ⟨h0, hk | hk⟩)
      · exact .inl (.inl ⟨h0, hk⟩)
      · exact .inr (.inl hk)
      · exact .inl (.inr ⟨h0, hk⟩)
      · exact .inr (.inr ⟨h0, hk.symm⟩)
  · intro f hfh k hk
    rw [hhead f hfh]
    unfold joined
    rw [markAmsdu_mask hs hn _ hk, (h.before hf hf' hk).2, hmem]
    constructor
    · rintro (⟨_, hm, hk⟩ | ⟨he, hk⟩)
      · exact ⟨.inl hm, hk⟩
      · exact ⟨.inr he.symm, hk⟩
    · intro ⟨hm, hk⟩
      by_cases he : skb.idx = n
      · exact .inr ⟨he, hk⟩
      · exact .inl ⟨he, hm.resolve_right fun hn => he hn.symm, hk⟩
  · intro f hfh
    rw [hhead f hfh]
    exact markAmsdu_valid ..

theorem Tracks.joined_iff (h : Tracks n arrived (x.withSubframe skb)) (hn : n < 8) :
    (x.joined skb).amsduBitmap = (x.joined skb).amsduMask ↔ AllArrived n arrived := by
  obtain ⟨head, l, -, hwith⟩ := x.withSubframe_eq skb
  have hhead : { head with cb := x.joined skb } ∈ (x.withSubframe skb).head? := by
    rw [hwith]
    rfl
  exact h.bitmap_iff hn hhead

theorem slot_inSlotCall (x : Rx) (release : Bool) (skb : Skb) :
    (x.inSlotCall release skb).rx.tid.reorderBuf (skb.sn % x.tid.winSize) =
        x.tid.reorderBuf (skb.sn % x.tid.winSize) ∨
      (x.inSlotCall release skb).rx.tid.reorderBuf (skb.sn % x.tid.winSize) = [] := by
  unfold inSlotCall
  dsimp only
  split
  · right
    change (Rx.delTimerIf _ _).tid.reorderBuf _ = []
    rw [delTimerIf_tid]
    exact Function.update_self ..
  · exact .inl rfl

/-- What the slot of a subframe is when the subframe gets to `out`. -/
theorem slot_amsduInSlotCall (x : Rx) (release : Bool) (skb : Skb) :
    (x.isDup skb = true ∧ (x.amsduInSlotCall release skb).rx.tid.reorderBuf
        (skb.sn % x.tid.winSize) = x.tid.reorderBuf (skb.sn % x.tid.winSize)) ∨
      x.isDup skb = false ∧
        ((x.amsduInSlotCall release skb).rx.tid.reorderBuf (skb.sn % x.tid.winSize) =
            x.withSubframe skb ∨
          (x.joined skb).amsduBitmap = (x.joined skb).amsduMask ∧
            (x.amsduInSlotCall release skb).rx.tid.reorderBuf (skb.sn % x.tid.winSize) = []) := by
  rw [amsduInSlotCall_eq]
  dsimp only
  split
  · next hdup =>
    left
    refine ⟨hdup, ?_⟩
    split <;> rfl
  · next hdup =>
    right
    refine ⟨Bool.eq_false_of_not_eq_true hdup, ?_⟩
    have hslot := slot_put x (skb.sn % x.tid.winSize) (x.withSubframe skb)
    split
    · exact .inl hslot
    · next hm =>
      have hm := not_not.mp hm
      split
      · exact .inr ⟨hm, Function.update_self ..⟩
      · rcases slot_inSlotCall (x.put (skb.sn % x.tid.winSize) (x.withSubframe skb)).uncount
          release skb with hsame | hnil
        · exact .inl (hsame.trans hslot)
        · exact .inr ⟨hm, hnil⟩

/-- A frame that comes to another slot leaves this one as it was, or empty. -/
theorem slot_toSlotCall_of_ne {j : ℕ}
    (hy : y.tid.reorderBuf j = x.tid.reorderBuf j ∨ y.tid.reorderBuf j = [])
    (h : j ≠ skb.sn % y.tid.winSize) (ht : skb.cb.taint = false) (b : Bool) :
    (y.toSlotCall b skb).rx.tid.reorderBuf j = x.tid.reorderBuf j ∨
      (y.toSlotCall b skb).rx.tid.reorderBuf j = [] := by
  refine (clearing_slot x j).taking.toSlotCall (fun _ _ h => h) hy ht (fun _ _ => ?_)
    (fun _ => ?_) b
  · rwa [slot_put_of_ne y _ h]
  · rwa [slot_setSlot_of_ne y _ h]

/-- The frame gets to the slot of sequence number `sn`. -/
def ArrivesAt (x : Rx) (sn : ℕ) (skb : Skb) : Prop :=
  reachesReorder x.reorderFlag x.peer skb = true ∧ x.live = true ∧
    ieee80211SnLess skb.sn x.tid.winStart = false ∧ skb.sn % x.tid.winSize = sn % x.tid.winSize

instance (x : Rx) (sn : ℕ) (skb : Skb) : Decidable (x.ArrivesAt sn skb) :=
  inferInstanceAs (Decidable (_ ∧ _))

/-- A subframe of the one A-MSDU of the slot arrives inside the window. -/
structure AmsduFits (x : Rx) (n sn : ℕ) (skb : Skb) : Prop where
  sn_eq : skb.sn = sn
  subframe : skb.SubframeOf n
  lt : ieee80211SnLess skb.sn (u16 (x.tid.winStart + x.tid.winSize)) = true

instance (x : Rx) (n sn : ℕ) (skb : Skb) : Decidable (x.AmsduFits n sn skb) :=
  decidable_of_iff (skb.sn = sn ∧ skb.SubframeOf n ∧
      ieee80211SnLess skb.sn (u16 (x.tid.winStart + x.tid.winSize)) = true)
    ⟨fun ⟨hsn, hs, hlt⟩ => ⟨hsn, hs, hlt⟩, fun h => ⟨h.sn_eq, h.subframe, h.lt⟩⟩

/-- A slot after an allowed subframe has come to `out`. -/
theorem Tracks.arrival (h : Tracks n arrived (x.slotOf sn)) (hn : n < 8) (ha : x.ArrivesAt sn skb)
    (hw : x.AmsduFits n sn skb) (hf : skb.cb.amsduBitmap = 0) (hf' : skb.cb.amsduMask = 0) :
    ∃ c, x.ampduReorderCall skb = some c ∧
      (c.rx.slotOf sn = [] ∧ AllArrived n (arrived ++ [skb.idx]) ∨
        c.rx.slotOf sn ≠ [] ∧ Tracks n (arrived ++ [skb.idx]) (c.rx.slotOf sn)) := by
  obtain ⟨hreach, hlive, hlate, -⟩ := ha
  have hs := hw.subframe
  have hsn := hw.sn_eq
  have hcall : x.ampduReorderCall skb = some ((x.received skb).amsduInSlotCall false skb) := by
    have hlate' : ieee80211SnLess skb.sn (x.received skb).tid.winStart = false := hlate
    have hlt' : ieee80211SnLess skb.sn
      (u16 ((x.received skb).tid.winStart + (x.received skb).tid.winSize)) = true := hw.lt
    unfold ampduReorderCall tidReorderCall toSlotCall
    simp only [hreach, hlive, hlate', hlt', hs.isAmsdu, Bool.and_self, if_true,
      Bool.false_eq_true, if_false]
  refine ⟨_, hcall, ?_⟩
  have hslot : ((x.received skb).amsduInSlotCall false skb).rx.slotOf sn =
      ((x.received skb).amsduInSlotCall false skb).rx.tid.reorderBuf
        (skb.sn % (x.received skb).tid.winSize) := by
    have hsize := winSize_toSlotCall (x.received skb) false skb
    unfold toSlotCall at hsize
    rw [if_pos hs.isAmsdu] at hsize
    unfold slotOf
    rw [hsize, hsn]
  have h : Tracks n arrived ((x.received skb).tid.reorderBuf
      (skb.sn % (x.received skb).tid.winSize)) := by
    rw [hsn]
    exact h
  rw [hslot]
  rcases slot_amsduInSlotCall (x.received skb) false skb with ⟨hdup, hsame⟩ | ⟨hdup, hnew⟩
  · have hm := (h.isDup_iff hs hn hf hf').mp hdup
    right
    rw [hsame]
    refine ⟨fun hnil => ?_, h.again hm⟩
    rw [hnil] at h
    exact List.not_mem_nil (h.eq_nil ▸ hm)
  · have hm : skb.idx ∉ arrived := by
      intro hm
      rw [(h.isDup_iff hs hn hf hf').mpr hm] at hdup
      cases hdup
    have hj := h.join hs hn hf hf' hm
    rcases hnew with hnew | ⟨heq, hnil⟩
    · right
      rw [hnew]
      exact ⟨(x.received skb).withSubframe_ne_nil skb, hj⟩
    · left
      exact ⟨hnil, (hj.joined_iff hn).mp heq⟩

/-- The other frames leave the slot as it was, or empty. -/
theorem slot_of_not_arrivesAt {c : OutCall} (ha : ¬ x.ArrivesAt sn skb)
    (hc : x.ampduReorderCall skb = some c) (ht : skb.cb.taint = false) :
    c.rx.slotOf sn = x.slotOf sn ∨ c.rx.slotOf sn = [] := by
  unfold slotOf
  rw [winSize_ampduReorderCall hc]
  unfold ampduReorderCall at hc
  split_ifs at hc with hr
  obtain ⟨hreach, hlive⟩ := Bool.and_eq_true_iff.mp hr
  unfold tidReorderCall at hc
  have hne (hlate : ieee80211SnLess skb.sn x.tid.winStart ≠ true) :
      sn % x.tid.winSize ≠ skb.sn % x.tid.winSize :=
    fun he => ha ⟨hreach, hlive, Bool.eq_false_of_not_eq_true hlate, he.symm⟩
  split_ifs at hc with hlate _ hin <;> cases hc
  · exact .inl rfl
  · exact slot_toSlotCall_of_ne (y := x.received skb) (.inl rfl) (hne hlate) ht false
  · have hcleared := (clearing_slot x (sn % x.tid.winSize)).taking.forceRelease
      (x := x.received skb) (.inl rfl) (ieee80211SnSub skb.sn (x.received skb).tid.winSize)
    refine slot_toSlotCall_of_ne hcleared ?_ ht true
    rw [winSize_forceRelease]
    exact hne hlate

/-- A session, and what has arrived of the A-MSDU in one slot since the slot was last empty. -/
structure AmsduRun where
  rx : Rx
  arrived : List ℕ

/-- What a call brings to the slot of sequence number `sn`. -/
def arrival (x : Rx) (sn : ℕ) : CountEvent → List ℕ
  | .ampduReorder skb => if x.ArrivesAt sn skb then [skb.idx] else []
  | _ => []

def amsduStep (sn : ℕ) (s : AmsduRun) (e : CountEvent) : Option AmsduRun :=
  (s.rx.countStep e).map fun y =>
    ⟨y, if (y.slotOf sn).isEmpty then [] else s.arrived ++ s.rx.arrival sn e⟩

/-- Only the subframes of one A-MSDU of `n` come to the slot, and they come inside the window. -/
def OneAmsdu (n sn : ℕ) (s : AmsduRun) : CountEvent → Prop
  | .ampduReorder skb => s.rx.ArrivesAt sn skb → s.rx.AmsduFits n sn skb
  | _ => True

instance (n sn : ℕ) (s : AmsduRun) : ∀ e, Decidable (OneAmsdu n sn s e)
  | .ampduReorder _ => inferInstanceAs (Decidable (_ → _))
  | .forceRelease _ => isTrue trivial
  | .reorderRelease => isTrue trivial
  | .elsewhere .. => isTrue trivial

/-- The slot holds each subframe that arrived once, and it is ready when it holds all. -/
structure AmsduOk (n sn : ℕ) (s : AmsduRun) : Prop where
  stored : ∀ j, j ∈ (s.rx.slotOf sn).map Skb.idx ↔ j ∈ s.arrived
  once : ((s.rx.slotOf sn).map Skb.idx).Nodup
  ready : s.rx.slotOf sn ≠ [] → (isReleaseReady (s.rx.slotOf sn) = true ↔ AllArrived n s.arrived)

/-- The subframe that completes the A-MSDU, and no other, has the slot taken or makes it ready. -/
def ArrivalOk (n sn : ℕ) (s : AmsduRun) (skb : Skb) : Prop :=
  ∃ c, s.rx.ampduReorderCall (s.rx.fresh skb) = some c ∧
    (c.rx.slotOf sn = [] ∨ isReleaseReady (c.rx.slotOf sn) = true ↔
      AllArrived n (s.arrived ++ [skb.idx]))

/-- An A-MSDU of `n` subframes counts as complete when all of them have arrived, whatever else
happens to its session. -/
def AmsduComplete (n : ℕ) : Prop :=
  ∀ x sn, x.slotOf sn = [] → ∀ s, Lib.Reach (amsduStep sn) (OneAmsdu n sn) ⟨x, []⟩ s →
    AmsduOk n sn s ∧ ∀ skb, s.rx.ArrivesAt sn skb → s.rx.AmsduFits n sn skb → ArrivalOk n sn s skb

/-- A slot that is taken starts anew. -/
theorem Tracks.cleared {m : List Skb} (h : m = [] ∨ Tracks n arrived m) :
    Tracks n (if m.isEmpty then [] else arrived) m := by
  cases m with
  | nil => exact .nil
  | cons head l => exact h.resolve_left (List.cons_ne_nil head l)

/-- A call that brings nothing to the slot leaves what it finds, or nothing. -/
theorem Tracks.step_of_clearing (h : Tracks n arrived (x.slotOf sn))
    (hsize : y.tid.winSize = x.tid.winSize)
    (hy : y.tid.reorderBuf (sn % x.tid.winSize) = x.tid.reorderBuf (sn % x.tid.winSize) ∨
      y.tid.reorderBuf (sn % x.tid.winSize) = []) :
    Tracks n (if (y.slotOf sn).isEmpty then [] else arrived ++ []) (y.slotOf sn) := by
  have hslot : y.slotOf sn = y.tid.reorderBuf (sn % x.tid.winSize) := by
    unfold slotOf
    rw [hsize]
  rw [List.append_nil]
  apply Tracks.cleared
  rw [hslot]
  rcases hy with hsame | hnil
  · right
    rw [hsame]
    exact h
  · exact .inl hnil

/-- From `out` on the slot stays, or it is taken. -/
theorem slot_run (c : OutCall) (sn : ℕ) :
    c.run.slotOf sn = c.rx.slotOf sn ∨ c.run.slotOf sn = [] := by
  have hsize : c.run.tid.winSize = c.rx.tid.winSize := (stable_winSize _).out rfl ..
  unfold slotOf
  rw [hsize]
  exact (clearing_slot c.rx (sn % c.rx.tid.winSize)).taking.out (.inl rfl) ..

theorem arrival_of_arrivesAt (h : x.ArrivesAt sn skb) :
    x.arrival sn (.ampduReorder skb) = [skb.idx] := if_pos h

theorem arrival_of_not_arrivesAt (h : ¬ x.ArrivesAt sn skb) :
    x.arrival sn (.ampduReorder skb) = [] := if_neg h

theorem AmsduFits.fresh (h : x.AmsduFits n sn skb) : x.AmsduFits n sn (x.fresh skb) where
  sn_eq := h.sn_eq
  subframe := ⟨h.subframe.isAmsdu, h.subframe.pos, h.subframe.le, h.subframe.last⟩
  lt := h.lt

theorem Tracks.step_ampduReorder (h : Tracks n arrived (x.slotOf sn)) (hn : n < 8)
    (hg : x.ArrivesAt sn skb → x.AmsduFits n sn skb) :
    Tracks n (if ((x.ampduReorder (x.fresh skb)).slotOf sn).isEmpty then [] else
      arrived ++ x.arrival sn (.ampduReorder skb)) ((x.ampduReorder (x.fresh skb)).slotOf sn) := by
  apply Tracks.cleared
  by_cases ha : x.ArrivesAt sn skb
  · rw [arrival_of_arrivesAt ha]
    have ha' : x.ArrivesAt sn (x.fresh skb) := ha
    obtain ⟨c, hc, hslot⟩ := h.arrival hn ha' (hg ha).fresh rfl rfl
    rw [ampduReorder_of_call hc]
    rcases slot_run c sn with hsame | hnil
    · rw [hsame]
      exact hslot.imp (·.1) (·.2)
    · exact .inl hnil
  · rw [arrival_of_not_arrivesAt ha, List.append_nil]
    rcases ampduReorder_eq_run x (x.fresh skb) with ⟨c, hc, hrun⟩ | ⟨-, htid⟩
    · rw [hrun]
      have hc := slot_of_not_arrivesAt (show ¬ x.ArrivesAt sn (x.fresh skb) from ha) hc rfl
      rcases slot_run c sn with hsame | hnil
      · rw [hsame]
        rcases hc with hsame | hnil
        · exact .inr (hsame ▸ h)
        · exact .inl hnil
      · exact .inl hnil
    · right
      unfold slotOf
      rw [htid]
      exact h

theorem Tracks.amsduStep {s t : AmsduRun} {e : CountEvent} (h : Tracks n s.arrived (s.rx.slotOf sn))
    (hn : n < 8) (hg : OneAmsdu n sn s e) (hs : amsduStep sn s e = some t) :
    Tracks n t.arrived (t.rx.slotOf sn) := by
  obtain ⟨y, hy, rfl⟩ := Option.map_eq_some_iff.mp hs
  cases e with
  | ampduReorder skb =>
    cases Option.some.inj hy
    exact h.step_ampduReorder hn hg
  | forceRelease toSn =>
    cases Option.some.inj hy
    exact h.step_of_clearing (winSize_forceRelease ..)
      ((clearing_slot s.rx _).taking.forceRelease (.inl rfl) toSn)
  | reorderRelease =>
    cases Option.some.inj hy
    exact h.step_of_clearing ((stable_winSize _).reorderRelease rfl)
      ((clearing_slot s.rx _).taking.reorderRelease (.inl rfl))
  | elsewhere now reorder peer reorderFlag live =>
    cases Option.some.inj hy
    exact h.step_of_clearing rfl (.inl rfl)

/-- The bitmap has room for seven subframes. -/
theorem amsduComplete_of_le (hn : n ≤ 7) : AmsduComplete n := by
  intro x sn hx s hs
  have htracks : Tracks n s.arrived (s.rx.slotOf sn) := by
    refine hs.invariant (I := fun s => Tracks n s.arrived (s.rx.slotOf sn)) ?_ ?_
    · exact hx ▸ Tracks.nil
    · exact fun s e t h hg ht => h.amsduStep (by omega) hg ht
  constructor
  · exact ⟨htracks.members, htracks.nodup, htracks.ready_iff (by omega)⟩
  · intro skb ha hw
    have ha' : s.rx.ArrivesAt sn (s.rx.fresh skb) := ha
    obtain ⟨c, hc, hslot⟩ := htracks.arrival (by omega) ha' hw.fresh rfl rfl
    refine ⟨c, hc, ?_⟩
    rcases hslot with ⟨hnil, hall⟩ | ⟨hne, hjoined⟩
    · exact iff_of_true (.inl hnil) hall
    · rw [or_iff_right hne]
      exact hjoined.ready_iff (by omega) hne

/-- A subframe of a unicast A-MSDU of `n` subframes with sequence number 1. -/
def subframeOf (n idx : Fin 64) : Skb :=
  { plain 1 with
    desc := { (plain 1).desc with amsduIdx := idx, isAmsdu := true, amsduLastIdx := idx == n } }

/-- The bit of a subframe beyond the bitmap is lost, and the subframe is stored again. -/
theorem lastTwice_not_once : ∀ n : Fin 64, 8 ≤ n →
    (Lib.exec (Lib.guarded (amsduStep 1) (OneAmsdu n 1)) ⟨session, []⟩
      [.ampduReorder (subframeOf n n), .ampduReorder (subframeOf n n)]).any
      (fun s => decide ¬ ((s.rx.slotOf 1).map Skb.idx).Nodup) = true := by
  decide +kernel

/-- The subframes of an A-MSDU are tracked as they should be where their indices fit a `u8`. -/
theorem amsduComplete_iff (n : Fin 64) : AmsduComplete n ↔ n.val ≤ 7 := by
  refine ⟨fun h => ?_, amsduComplete_of_le⟩
  by_contra hn
  obtain ⟨s, hs, hp⟩ := Lib.exists_reach_of_exec _ _ _ _ _ (lastTwice_not_once n (by omega))
  exact of_decide_eq_true hp (h session 1 rfl s hs).1.once

/-- The A-MSDU has nine subframes, and it is ready when all but the eighth have arrived. -/
theorem eighthMissing_not_complete : ¬ ∀ n, 1 ≤ n → n ≤ 63 → AmsduComplete n := by
  intro h
  obtain ⟨s, hs, hp⟩ := Lib.exists_reach_of_exec (amsduStep 1) (OneAmsdu 9 1) ⟨session, []⟩
    ([1, 2, 3, 4, 5, 6, 7, 9].map fun idx => .ampduReorder (subframeOf 9 idx))
    (fun s => isReleaseReady (s.rx.slotOf 1) && s.arrived == [1, 2, 3, 4, 5, 6, 7, 9])
    (by decide +kernel)
  rw [Bool.and_eq_true, beq_iff_eq] at hp
  obtain ⟨hready, harrived⟩ := hp
  have hne : s.rx.slotOf 1 ≠ [] := by
    intro hnil
    rw [hnil] at hready
    cases hready
  have hok := (h 9 (by decide) (by decide) session 1 rfl s hs).1
  have hall := (hok.ready hne).mp hready 8 (by decide) (by decide)
  rw [harrived] at hall
  simp at hall

end Rx
end Skw
