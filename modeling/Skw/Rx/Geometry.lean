import Skw.Lib.Machine
import Skw.Lib.Residue
import Skw.Rx.Order
import Mathlib.Data.Nat.Prime.Basic
import Mathlib.Tactic.IntervalCases

/-! The size that `skw_add_tid_rx` gives the reorder window: twice the buffer size of the event, at
least 128, allocated as a `u32` and stored as a `u16`. -/
namespace Skw

/-- `win_sz` of `skw_add_tid_rx`, a `u32`: the number of slots that `kcalloc` is asked for. -/
def winSz (bufSize : Fin 65536) : ℕ := (if bufSize.val > 64 then bufSize.val else 64) <<< 1

/-- The sequence numbers of the window from `winStart` on. -/
abbrev TidRx.InWindow (t : TidRx) (winStart sn : ℕ) : Prop :=
  Lib.InWindow IEEE80211_SN_MODULO t.winSize winStart sn

/-- A session with `slots` slots in `reorder_buf` has a window of that size, whose sequence numbers
have a slot each, wherever it starts. -/
structure TidRx.Geometry (t : TidRx) (slots : ℕ) : Prop where
  nonzero : t.winSize ≠ 0
  slots : t.winSize = slots
  apart : ∀ winStart a b, t.InWindow winStart a → t.InWindow winStart b → a ≠ b →
    a % t.winSize ≠ b % t.winSize

/-- Each stored frame is of the window and in the slot that its sequence number selects. -/
def TidRx.InPlace (t : TidRx) : Prop :=
  ∀ i, ∀ skb ∈ t.reorderBuf i, t.InWindow t.winStart skb.sn ∧ skb.sn % t.winSize = i

section
variable {t : TidRx} {n : ℕ} {r : ReorderRx} {ssn bufSize : Fin 65536}

/-- What is found in the slot of a frame of the window has the sequence number of the frame. -/
theorem TidRx.Geometry.sn_eq (h : t.Geometry n) (hp : t.InPlace) {sn : ℕ} {skb : Skb}
    (hsn : t.InWindow t.winStart sn) (hskb : skb ∈ t.reorderBuf (sn % t.winSize)) : skb.sn = sn := by
  obtain ⟨hw, hi⟩ := hp _ skb hskb
  by_contra hne
  exact h.apart _ _ _ hw hsn hne hi

theorem TidRx.inWindow_iff (h : t.winSize = n) (s a : ℕ) :
    t.InWindow s a ↔ Lib.InWindow IEEE80211_SN_MODULO n s a := by
  rw [TidRx.InWindow, h]

theorem winSize_newTidRx : (newTidRx r ssn bufSize).winSize = winSz bufSize % 65536 := rfl

theorem winSz_eq : winSz bufSize = 2 * max bufSize.val 64 := by
  unfold winSz
  rw [Nat.shiftLeft_eq]
  split_ifs <;> omega

/-- A buffer size that fits when doubled, and whose double is a power of two up to the number of
sequence numbers or no less than that. -/
def GoodBufSize (b : ℕ) : Prop := b ≤ 64 ∨ b ∈ [128, 256, 512, 1024] ∨ 2048 ≤ b ∧ b < 32768

instance (b : ℕ) : Decidable (GoodBufSize b) := inferInstanceAs (Decidable (_ ∨ _))

/-- The sizes between 128 and 4096 that divide the number of sequence numbers. -/
theorem dvd_snModulo_iff {b : ℕ} (hb : 64 < b) (hlt : b < 2048) :
    2 * b ∣ IEEE80211_SN_MODULO ↔ b ∈ [128, 256, 512, 1024] := by
  constructor
  · intro h
    obtain ⟨k, hk, he⟩ := (Nat.dvd_prime_pow (m := 12) Nat.prime_two).mp h
    interval_cases k <;> simp <;> omega
  · intro h
    simp only [List.mem_cons, List.not_mem_nil, or_false] at h
    rcases h with rfl | rfl | rfl | rfl <;> decide

/-- The size survives the narrowing, and divides the number of sequence numbers or covers it. -/
theorem goodBufSize_iff : GoodBufSize bufSize.val ↔ bufSize.val < 32768 ∧
    (winSz bufSize ∣ IEEE80211_SN_MODULO ∨ IEEE80211_SN_MODULO ≤ winSz bufSize) := by
  have hlt := bufSize.isLt
  rw [winSz_eq]
  rcases Nat.lt_trichotomy bufSize.val 64 with h | h | h
  · rw [max_eq_right h.le]
    have hdvd : 2 * 64 ∣ IEEE80211_SN_MODULO := by decide
    exact iff_of_true (.inl h.le) ⟨by omega, .inl hdvd⟩
  · rw [h]
    decide
  · rw [max_eq_left h.le]
    rcases Nat.lt_or_ge bufSize.val 2048 with hlt' | hge
    · rw [dvd_snModulo_iff h hlt']
      have hle : ¬ IEEE80211_SN_MODULO ≤ 2 * bufSize.val := by
        unfold IEEE80211_SN_MODULO
        omega
      constructor
      · rintro (hsmall | hmem | hbig)
        · omega
        · exact ⟨by omega, .inl hmem⟩
        · omega
      · rintro ⟨-, hmem | hcover⟩
        · exact .inr (.inl hmem)
        · exact absurd hcover hle
    · have hcover : IEEE80211_SN_MODULO ≤ 2 * bufSize.val := by
        unfold IEEE80211_SN_MODULO
        omega
      constructor
      · rintro (hsmall | hmem | hbig)
        · omega
        · simp only [List.mem_cons, List.not_mem_nil, or_false] at hmem
          omega
        · exact ⟨hbig.2, .inr hcover⟩
      · rintro ⟨hfit, -⟩
        exact .inr (.inr ⟨hge, hfit⟩)

/-- A size of the firmware that the window takes over unchanged and in which no sequence number is
taken for another. -/
theorem geometry_iff (r : ReorderRx) (ssn bufSize : Fin 65536) :
    (newTidRx r ssn bufSize).Geometry (winSz bufSize) ↔ GoodBufSize bufSize.val := by
  have hlt := bufSize.isLt
  have hsz : winSz bufSize = 2 * max bufSize.val 64 := winSz_eq
  rw [goodBufSize_iff]
  constructor
  · intro h
    have hin := TidRx.inWindow_iff h.slots
    have hn : winSz bufSize % 65536 = winSz bufSize := h.slots
    have hfit : bufSize.val < 32768 := by omega
    refine ⟨hfit, (Lib.slotsApart_iff (by decide) (by omega)).mp fun s a b ha hb hab => ?_⟩
    by_contra hne
    have hslot := h.apart s a b ((hin s a).mpr ha) ((hin s b).mpr hb) hne
    rw [h.slots] at hslot
    exact hslot hab
  · rintro ⟨hfit, hsize⟩
    have hn : (newTidRx r ssn bufSize).winSize = winSz bufSize := by
      rw [winSize_newTidRx, Nat.mod_eq_of_lt (by omega)]
    have hin := TidRx.inWindow_iff hn
    have happart := (Lib.slotsApart_iff (by decide) (by omega)).mpr hsize
    refine ⟨by omega, hn, fun s a b ha hb hne hab => ?_⟩
    rw [hn] at hab
    exact hne (happart s a b ((hin s a).mp ha) ((hin s b).mp hb) hab)

/-- A session of ssn 4000 whose reorder timer is idle. -/
def session4000 (bufSize : Fin 65536) : Rx :=
  addTidRx 0 100 ⟨0, 0, 0⟩ Rx.noReorder 4000 bufSize

/-- With a buffer size of 100 the frame of sequence number 1 is dropped as a duplicate of that of
4001, the only other one to arrive, and the 32768 of a larger one narrows to no window at all. -/
theorem bufSize_not_geometry :
    ¬ (session4000 100).tid.Geometry (winSz 100) ∧ ¬ (session4000 32768).tid.Geometry (winSz 32768) ∧
      (Lib.exec Rx.step (session4000 100) [.frame (Rx.plain 4001), .frame (Rx.plain 1)]).any
        (fun x => x.released = [] ∧ x.freed.map Skb.sn = [1]) = true := by
  refine ⟨fun h => ?_, fun h => h.nonzero (by decide), by decide⟩
  have h200 : (session4000 100).tid.winSize = 200 := by decide
  have hin := TidRx.inWindow_iff h200 4000
  refine h.apart 4000 4001 1 ((hin _).mpr ⟨1, by decide, by decide⟩)
    ((hin _).mpr ⟨97, by decide, by decide⟩) (by decide) ?_
  rw [h200]

end
end Skw
