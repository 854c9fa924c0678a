import Skw.Lib.Buffer
import Skw.Rx.Reorder
import Mathlib.Data.Finset.Card
import Mathlib.Data.Finset.Insert

/-! The reorder window over sequence numbers that do not wrap. The slot of a position is the
position modulo the window size, and its frame has the position as its sequence number. -/
namespace Skw

section
variable {a b p q : ℕ}

theorem u16_mod (n : ℕ) : u16 n % 4096 = n % 4096 := by
  unfold u16
  omega

theorem ieee80211SnInc_mod (h : a % 4096 = p % 4096) :
    ieee80211SnInc a % 4096 = (p + 1) % 4096 := by
  simp only [ieee80211SnInc, IEEE80211_SN_MODULO]
  omega

/-- Less than half the sequence numbers apart, they are in the order of their positions. -/
theorem ieee80211SnLess_iff (ha : a % 4096 = p % 4096) (hb : b % 4096 = q % 4096)
    (hpq : p ≤ q + 2048) (hqp : q < p + 2048) : ieee80211SnLess a b = true ↔ p < q := by
  simp only [ieee80211SnLess, decide_eq_true_eq]
  omega

theorem ieee80211SnSub_eq (ha : a % 4096 = p % 4096) (hb : b % 4096 = q % 4096) (hqp : q ≤ p)
    (hpq : p < q + 4096) : ieee80211SnSub a b = p - q := by
  unfold ieee80211SnSub
  omega

theorem ieee80211SnSub_mod (ha : a % 4096 = p % 4096) (h : b ≤ p) :
    ieee80211SnSub a b % 4096 = (p - b) % 4096 := by
  unfold ieee80211SnSub
  omega

/-- The position of a sequence number, counted from the start of the window. -/
theorem sn_pos (ha : a % 4096 = p % 4096) (b : ℕ) :
    b % 4096 = (p + ieee80211SnSub b a) % 4096 := by
  unfold ieee80211SnSub
  omega

theorem ieee80211SnSub_le (h : ieee80211SnLess b a = false) : ieee80211SnSub b a ≤ 2048 := by
  simp only [ieee80211SnLess, decide_eq_false_iff_not] at h
  unfold ieee80211SnSub
  omega

theorem ieee80211SnSub_lt (h : ieee80211SnLess a (ieee80211SnInc b) = true) :
    ieee80211SnSub b a < 2047 := by
  simp only [ieee80211SnLess, decide_eq_true_eq] at h
  simp only [ieee80211SnInc, IEEE80211_SN_MODULO] at h
  unfold ieee80211SnSub
  omega

end

/-- The slots that hold a frame. -/
def TidRx.occupied (t : TidRx) : Finset ℕ :=
  (Finset.range t.winSize).filter fun i => (t.reorderBuf i).isEmpty = false

/-- A frame that is stored at a position. -/
structure Belongs (p : ℕ) (skb : Skb) : Prop where
  sn : skb.sn = p % 4096
  taint : skb.cb.taint = false
  valid : skb.cb.valid = false

/-- The window of `ws` positions from `pos` on, and the releases so far. -/
structure Window (ws : ℕ) (t : TidRx) (pos : ℕ) (log : List Released) : Prop where
  size : t.winSize = ws
  start : t.winStart % 4096 = pos % 4096
  slot : ∀ p, pos ≤ p → p < pos + ws → ∀ skb ∈ t.reorderBuf (p % ws),
    t.reorderBuf (p % ws) = [skb] ∧ Belongs p skb
  stored : t.storedNum.toNat = t.occupied.card
  before : ∀ r ∈ log, r.pos < pos ∧ r.skb.sn = r.pos % 4096
  sorted : log.Pairwise fun a b => a.pos < b.pos

namespace Window
variable {ws : ℕ} {t u : TidRx} {pos p q : ℕ} {log : List Released} {l : List Skb}

theorem index (hd : ws ∣ 4096) {n p : ℕ} (hn : n % 4096 = p % 4096) : n % ws = p % ws := by
  rw [← Nat.mod_mod_of_dvd n hd, hn, Nat.mod_mod_of_dvd p hd]

theorem mem_occupied {i : ℕ} : i ∈ t.occupied ↔ i < t.winSize ∧ t.reorderBuf i ≠ [] := by
  simp [TidRx.occupied]

theorem occupied_card_le : t.occupied.card ≤ t.winSize := by
  calc t.occupied.card ≤ (Finset.range t.winSize).card := Finset.card_filter_le ..
    _ = t.winSize := Finset.card_range _

/-- Nothing is stored when the counter is zero. -/
theorem empty (h : Window ws t pos log) (h0 : t.storedNum = 0) {i : ℕ} (hi : i < ws) :
    t.reorderBuf i = [] := by
  by_contra hne
  have hc := h.stored
  rw [h0] at hc
  have hm : i ∈ t.occupied := mem_occupied.mpr ⟨h.size ▸ hi, hne⟩
  have hn : t.occupied = ∅ := Finset.card_eq_zero.mp (by simpa using hc.symm)
  simp [hn] at hm

theorem storedNum_ne_zero (h : Window ws t pos log) {i : ℕ} (hi : i < ws)
    (hne : t.reorderBuf i ≠ []) : t.storedNum ≠ 0 :=
  fun h0 => hne (h.empty h0 hi)

theorem occupied_clear (hs : u.winSize = t.winSize) {i : ℕ}
    (hb : u.reorderBuf = Function.update t.reorderBuf i []) : u.occupied = t.occupied.erase i := by
  ext j
  rw [Finset.mem_erase, mem_occupied, mem_occupied, hs, hb]
  rcases eq_or_ne j i with rfl | hne
  · simp
  · simp [hne]

theorem occupied_fill (hs : u.winSize = t.winSize) {i : ℕ} (hi : i < t.winSize)
    (hl : l ≠ []) (hb : u.reorderBuf = Function.update t.reorderBuf i l) :
    u.occupied = insert i t.occupied := by
  ext j
  rw [Finset.mem_insert, mem_occupied, mem_occupied, hs, hb]
  rcases eq_or_ne j i with rfl | hne
  · simp [hl, hi]
  · simp [hne]

/-- The window moves on by one position and the frames of the slot it leaves are released. -/
theorem shift (h : Window ws t pos log) (hs : u.winSize = t.winSize)
    (hst : u.winStart % 4096 = (pos + 1) % 4096)
    (hb : u.reorderBuf = Function.update t.reorderBuf (pos % ws) [])
    (hn : u.storedNum.toNat = (t.occupied.erase (pos % ws)).card)
    (hl : l = [] ∨ ∃ skb, l = [skb] ∧ Belongs pos skb) :
    Window ws u (pos + 1) (log ++ l.map fun skb => ⟨pos, skb⟩) where
  size := hs.trans h.size
  start := hst
  slot p hp hlt := by
    rw [hb]
    rcases eq_or_ne p (pos + ws) with rfl | hne
    · rw [Nat.add_mod_right, Function.update_self]
      simp
    · have hi : p % ws ≠ pos % ws := (Lib.mod_ne_of_lt (by omega) (by omega)).symm
      rw [Function.update_of_ne hi]
      exact h.slot p (by omega) (by omega)
  stored := by rw [occupied_clear hs hb, hn]
  before r hr := by
    rcases List.mem_append.mp hr with hr | hr
    · have := h.before r hr
      exact ⟨by omega, this.2⟩
    · rcases hl with rfl | ⟨skb, rfl, hf⟩
      · simp at hr
      · cases List.mem_singleton.mp hr
        exact ⟨by simp, hf.sn⟩
  sorted := by
    refine List.pairwise_append.mpr ⟨h.sorted, ?_, fun r hr r' hr' => ?_⟩
    · rcases hl with rfl | ⟨skb, rfl, -⟩ <;> simp
    · obtain ⟨skb, -, rfl⟩ := List.mem_map.mp hr'
      exact (h.before r hr).1

/-- An empty window may move on by any distance. -/
theorem jump (h : Window ws t pos log) (hw : 0 < ws) (h0 : t.storedNum = 0) (hq : pos ≤ q)
    (hu : u.winSize = t.winSize ∧ u.storedNum = t.storedNum ∧ u.reorderBuf = t.reorderBuf)
    (hst : u.winStart % 4096 = q % 4096) : Window ws u q log where
  size := hu.1.trans h.size
  start := hst
  slot p _ _ := by
    rw [hu.2.2, h.empty h0 (Nat.mod_lt _ hw)]
    simp
  stored := by
    unfold TidRx.occupied
    rw [hu.1, hu.2.1, hu.2.2]
    exact h.stored
  before r hr := ⟨(h.before r hr).1.trans_le hq, (h.before r hr).2⟩
  sorted := h.sorted

/-- A frame is stored in its empty slot. -/
theorem store (h : Window ws t pos log) (hw : 0 < ws) (hws : ws ≤ 1024) {skb : Skb}
    (hp : pos ≤ p) (hlt : p < pos + ws) (hf : Belongs p skb) (he : t.reorderBuf (p % ws) = [])
    (hs : u.winSize = t.winSize) (hst : u.winStart = t.winStart)
    (hb : u.reorderBuf = Function.update t.reorderBuf (p % ws) [skb])
    (hn : u.storedNum = t.storedNum + 1) : Window ws u pos log where
  size := hs.trans h.size
  start := hst ▸ h.start
  slot p' hp' hlt' := by
    rw [hb]
    rcases eq_or_ne p' p with rfl | hne
    · rw [Function.update_self]
      simp [hf]
    · have hi : p' % ws ≠ p % ws := by
        rcases Nat.lt_or_gt_of_ne hne with hlt | hlt
        · exact Lib.mod_ne_of_lt hlt (by omega)
        · exact (Lib.mod_ne_of_lt hlt (by omega)).symm
      rw [Function.update_of_ne hi]
      exact h.slot p' hp' hlt'
  stored := by
    have hi : p % ws < t.winSize := by
      rw [h.size]
      exact Nat.mod_lt _ hw
    have hnot : p % ws ∉ t.occupied := fun hm => (mem_occupied.mp hm).2 he
    have hc := h.stored
    have hle : t.occupied.card ≤ t.winSize := occupied_card_le
    rw [h.size] at hle
    rw [occupied_fill hs hi (by simp) hb, Finset.card_insert_of_notMem hnot, hn, ← hc]
    bv_omega
  before := h.before
  sorted := h.sorted

/-- The counter after the frame of an occupied slot is gone. -/
theorem storedNum_sub_one (h : Window ws t pos log) (hws : ws ≤ 1024) {i : ℕ} (hi : i < ws)
    (hne : t.reorderBuf i ≠ []) :
    (t.storedNum - 1).toNat = (t.occupied.erase i).card := by
  have hm : i ∈ t.occupied := mem_occupied.mpr ⟨h.size ▸ hi, hne⟩
  have hc := h.stored
  have hpos : 0 < t.occupied.card := Finset.card_pos.mpr ⟨i, hm⟩
  have hle : t.occupied.card ≤ t.winSize := occupied_card_le
  rw [h.size] at hle
  rw [Finset.card_erase_of_mem hm, ← hc]
  bv_omega

/-- The counter where the slot is empty anyway. -/
theorem storedNum_of_empty (h : Window ws t pos log) {i : ℕ} (he : t.reorderBuf i = []) :
    t.storedNum.toNat = (t.occupied.erase i).card := by
  rw [Finset.erase_eq_of_notMem fun hm => (mem_occupied.mp hm).2 he]
  exact h.stored

end Window
end Skw
