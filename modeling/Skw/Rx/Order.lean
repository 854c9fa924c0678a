import Skw.Lib.Machine
import Skw.Rx.Env
import Skw.Rx.Window

/-! The order in which a session releases its frames. Every path moves the window over the frames
it releases, with one exception: where nothing is stored a forced release stops the window one
short, and the frame that forced it falls into the slot at its start. -/
namespace Skw

/-- What is assumed of a window size. -/
structure WinSize (ws : ℕ) : Prop where
  dvd : ws ∣ 4096
  ge : 128 ≤ ws
  le : ws ≤ 1024

theorem WinSize.pos {ws : ℕ} (hz : WinSize ws) : 0 < ws := by
  have := hz.ge
  omega

theorem pos_of_dvd {ws : ℕ} (h : ws ∣ 4096) : 0 < ws := Nat.pos_of_dvd_of_pos h (by decide)

theorem dvd_of_pow {ws : ℕ} (h : ∃ k, ws = 2 ^ k) (hle : ws ≤ 2 ^ 12) : ws ∣ 4096 := by
  obtain ⟨k, rfl⟩ := h
  exact pow_dvd_pow 2 ((Nat.pow_le_pow_iff_right (by decide)).mp hle)

/-- A power of two between the bounds. -/
theorem WinSize.of_pow {ws : ℕ} (h : ∃ k, ws = 2 ^ k) (hge : 128 ≤ ws) (hle : ws ≤ 1024) :
    WinSize ws := ⟨dvd_of_pow h (by omega), hge, hle⟩

namespace Rx

def Ok (ws : ℕ) (x : Rx) : Prop := Window ws x.tid x.pos x.released

variable {ws : ℕ} {x y : Rx} {c : Bool} {i p q sn : ℕ}

/-- The window is set to a sequence number at a position ahead. -/
theorem pos_setWinStart (hstart : x.tid.winStart % 4096 = x.pos % 4096) (hs : sn % 4096 = q % 4096)
    (hle : x.pos ≤ q) (hlt : q < x.pos + 4096) : (x.setWinStart sn).pos = q := by
  show x.pos + ieee80211SnSub sn x.tid.winStart = q
  rw [ieee80211SnSub_eq hs hstart hle hlt]
  omega

/-- Timers, the clock and freed frames do not matter. -/
theorem Ok.congr (h : Ok ws x) (ht : y.tid = x.tid) (hp : y.pos = x.pos)
    (hr : y.released = x.released) : Ok ws y := by
  unfold Ok
  rw [ht, hp, hr]
  exact h

theorem Ok.setReorderTimer (h : Ok ws x) (sn : ℕ) : Ok ws (x.setReorderTimer sn) := by
  unfold Rx.setReorderTimer
  split
  · exact h
  · split
    · exact h
    · dsimp only
      split_ifs <;> exact h

/-- The slot at the start of the window. -/
theorem Ok.start_slot (hz : WinSize ws) (h : Ok ws x) :
    x.tid.winStart % x.tid.winSize = x.pos % ws := by
  rw [h.size]
  exact Window.index hz.dvd h.start

theorem Ok.snSub_inc (h : Ok ws x) :
    ieee80211SnSub (ieee80211SnInc x.tid.winStart) x.tid.winStart = 1 :=
  (ieee80211SnSub_eq (ieee80211SnInc_mod h.start) h.start (by omega) (by omega)).trans (by omega)

/-- The window moves on by one and releases the slot at its start. -/
theorem Ok.shift (h : Ok ws x) (l : List Skb) (hl : l = [] ∨ ∃ skb, l = [skb] ∧ Belongs x.pos skb)
    (ht : y.tid.winSize = x.tid.winSize ∧ y.tid.winStart = ieee80211SnInc x.tid.winStart ∧
      y.tid.reorderBuf = Function.update x.tid.reorderBuf (x.pos % ws) [])
    (hn : y.tid.storedNum.toNat = (x.tid.occupied.erase (x.pos % ws)).card)
    (hp : y.pos = x.pos + ieee80211SnSub (ieee80211SnInc x.tid.winStart) x.tid.winStart)
    (hr : y.released = x.released ++ l.map fun skb => ⟨x.pos, skb⟩) :
    Ok ws y ∧ y.pos = x.pos + 1 := by
  rw [h.snSub_inc] at hp
  refine ⟨?_, hp⟩
  unfold Ok
  rw [hp, hr]
  exact Window.shift h ht.1 (ht.2.1 ▸ ieee80211SnInc_mod h.start) ht.2.2 hn hl

/-- The frame at the start of the window is released from its slot. -/
theorem Ok.releaseStart (hz : WinSize ws) (h : Ok ws x) (skb : Skb)
    (hone : x.tid.reorderBuf (x.pos % ws) = [skb]) (hf : Belongs x.pos skb)
    (hy : y = (x.releaseSlot (x.pos % ws)).setWinStart (ieee80211SnInc x.tid.winStart)) :
    Ok ws (y.setStoredNum (y.tid.storedNum - 1)) ∧
      (y.setStoredNum (y.tid.storedNum - 1)).pos = x.pos + 1 := by
  subst hy
  refine h.shift [skb] (.inr ⟨skb, rfl, hf⟩) ⟨rfl, rfl, rfl⟩
    (h.storedNum_sub_one hz.le (Nat.mod_lt _ hz.pos) (by simp [hone])) rfl ?_
  show x.released ++ (x.tid.reorderBuf (x.pos % ws)).map _ = _
  rw [hone]

theorem Ok.forceSlot (hz : WinSize ws) (h : Ok ws x) :
    (Ok ws x.forceSlot ∧ x.forceSlot.pos = x.pos + 1) ∧
      ∀ i, i ≠ x.pos % ws → x.forceSlot.tid.reorderBuf i = x.tid.reorderBuf i := by
  unfold Rx.forceSlot
  simp only [h.start_slot hz]
  split
  · next he =>
    refine ⟨h.shift [] (.inl rfl) ⟨rfl, rfl, ?_⟩ (h.storedNum_of_empty he) rfl
        (by simp [setWinStart]),
      fun _ _ => rfl⟩
    rw [← he, Function.update_eq_self]
    rfl
  · next skb l he =>
    obtain ⟨hone, hf⟩ := h.slot x.pos le_rfl (by have := hz.pos; omega) skb (by simp [he])
    rw [hf.taint]
    exact ⟨h.releaseStart hz _ hone hf rfl, fun i hi => Function.update_of_ne hi ..⟩

theorem forceLoop_of_not_less {toSn target : ℕ} (fuel : ℕ)
    (h : ieee80211SnLess x.tid.winStart target = false) : forceLoop toSn target fuel x = x := by
  cases fuel <;> simp [Rx.forceLoop, h]

/-- A forced release towards the position before `q + 1`: it gets there when a frame is stored
that it must not pass, and one short of it when it runs out of frames. -/
theorem Ok.forceLoop (hz : WinSize ws) {toSn target : ℕ} (fuel : ℕ) (h : Ok ws x)
    (hs : toSn % 4096 = q % 4096) (ht : target % 4096 = (q + 1) % 4096) (hle : x.pos ≤ q + 1)
    (hlt : q + 1 < x.pos + 2048) (hfuel : q + 1 ≤ x.pos + fuel) :
    Ok ws (forceLoop toSn target fuel x) ∧ x.pos ≤ (forceLoop toSn target fuel x).pos ∧
      (forceLoop toSn target fuel x).pos ≤ q + 1 ∧
      ∀ p, q ≤ p → p < x.pos + ws → x.tid.reorderBuf (p % ws) ≠ [] →
        (forceLoop toSn target fuel x).pos = q + 1 := by
  induction fuel generalizing x with
  | zero => exact ⟨h, le_rfl, hle, fun _ _ _ _ => by simp only [Rx.forceLoop]; omega⟩
  | succ fuel ih =>
    have hless := ieee80211SnLess_iff h.start ht (by omega) hlt
    unfold Rx.forceLoop
    by_cases hl : x.pos < q + 1
    · rw [if_pos (hless.mpr hl)]
      by_cases h0 : x.tid.storedNum = 0
      · -- Nothing is stored: the window moves to `q` at once.
        rw [if_pos h0]
        have hpos := pos_setWinStart h.start hs (by omega) (by omega)
        refine ⟨?_, by omega, by omega, fun p hqp hp hne => ?_⟩
        · unfold Ok
          rw [hpos]
          exact Window.jump h hz.pos h0 (by omega) ⟨rfl, rfl, rfl⟩ hs
        · exact absurd h0 (h.storedNum_ne_zero (Nat.mod_lt _ hz.pos) hne)
      · rw [if_neg h0]
        obtain ⟨⟨hok, hpos⟩, hbuf⟩ := h.forceSlot hz
        obtain ⟨hr, hge, hle', hlast⟩ := ih hok (by omega) (by omega) (by omega)
        refine ⟨hr, by omega, hle', fun p hqp hp hne => ?_⟩
        rcases eq_or_ne p x.pos with rfl | hne'
        · omega
        · refine hlast p hqp (by omega) ?_
          rwa [hbuf _ (Lib.mod_ne_of_lt (by omega) hp).symm]
    · rw [if_neg fun hc => hl (hless.mp hc)]
      exact ⟨h, le_rfl, hle, fun _ _ _ _ => by omega⟩

theorem Ok.forceRelease_pos (hz : WinSize ws) (toSn : ℕ) (h : Ok ws x)
    (hs : toSn % 4096 = q % 4096) (hle : x.pos ≤ q + 1) (hlt : q + 1 < x.pos + 2048) :
    Ok ws (x.forceRelease toSn) ∧ x.pos ≤ (x.forceRelease toSn).pos ∧
      (x.forceRelease toSn).pos ≤ q + 1 ∧
      ∀ p, q ≤ p → p < x.pos + ws → x.tid.reorderBuf (p % ws) ≠ [] →
        (x.forceRelease toSn).pos = q + 1 := by
  unfold Rx.forceRelease
  generalize (x.timerPending && x.reorder.refCnt == x.tid.refCnt && _) = c
  have hy : Ok ws (x.delTimerIf c) := h.congr (by simp) (by simp) (by simp)
  have := hy.forceLoop hz 2048 hs (ieee80211SnInc_mod hs) (by simpa using hle)
    (by simpa using hlt) (by simp; omega)
  simpa using this

/-- A forced release to any sequence number. -/
theorem Ok.forceRelease (hz : WinSize ws) (h : Ok ws x) (toSn : ℕ) :
    Ok ws (x.forceRelease toSn) := by
  cases hl : ieee80211SnLess x.tid.winStart (ieee80211SnInc toSn) with
  | true =>
    have hlt := ieee80211SnSub_lt hl
    exact (h.forceRelease_pos hz toSn (sn_pos h.start toSn) (by omega) (by omega)).1
  | false =>
    unfold Rx.forceRelease
    rw [forceLoop_of_not_less _ (by simpa using hl)]
    exact h.congr (by simp) (by simp) (by simp)

/-- Round `i` looks at position `p + i`. While the loop releases, that is the start of the window;
after a gap the window is behind it. -/
theorem Ok.releaseLoop (hz : WinSize ws) {winStart n : ℕ} {release : Bool} (h : Ok ws x)
    (hs : winStart % 4096 = p % 4096) (hp : p ≤ x.pos) (hle : x.pos ≤ p + i) (hi : i + n = ws)
    (hrel : release = true → x.pos = p + i) : Ok ws (releaseLoop winStart n i release x) := by
  induction n generalizing i release x with
  | zero => exact h
  | succ n ih =>
    have hindex : (winStart + i) % x.tid.winSize = (p + i) % ws := by
      rw [h.size]
      exact Window.index hz.dvd (by omega)
    unfold Rx.releaseLoop
    split
    · exact h
    · simp only [hindex]
      split
      · split
        · exact h
        · exact ih h hp (by omega) (by omega) (by simp)
      · next skb l he =>
        obtain ⟨hone, hf⟩ := h.slot (p + i) (by omega) (by omega) skb (by simp [he])
        cases release with
        | false =>
          simp only [Bool.not_false, if_true]
          split
          · exact h.setReorderTimer _
          · -- The slot that timed out is not empty, so that the window passes it.
            obtain ⟨hok, -, -, hlast⟩ := h.forceRelease_pos hz (u16 (winStart + i))
              (q := p + i) (by rw [u16_mod]; omega) (by omega) (by have := hz.le; omega)
            have hpos := hlast (p + i) le_rfl (by omega) (by simp [he])
            exact ih hok (by omega) (by omega) (by omega) fun _ => by omega
        | true =>
          have hx : x.pos = p + i := hrel rfl
          rw [← hx] at hone hf ⊢
          simp only [Bool.not_true, Bool.false_eq_true, if_false, hf.taint]
          generalize (x.timerPending && x.reorder.expired.sn == x.tid.winStart) = c
          have hy : Ok ws (x.delTimerIf c) := h.congr (by simp) (by simp) (by simp)
          split
          · obtain ⟨hok, hpos⟩ := hy.releaseStart hz skb (by simpa using hone)
              (by simpa using hf) rfl
            simp only [delTimerIf_pos] at hok hpos
            exact ih hok (by omega) (by omega) (by omega) fun _ => by omega
          · split
            · exact hy
            · exact hy.setReorderTimer _

theorem Ok.reorderRelease (hz : WinSize ws) (h : Ok ws x) : Ok ws x.reorderRelease := by
  unfold Rx.reorderRelease
  split
  · exact h.releaseLoop hz h.start le_rfl le_rfl (by rw [h.size]; omega) fun _ => rfl
  · exact h

theorem Ok.out (hz : WinSize ws) (h : Ok ws x) (release : Bool) (sn : Option ℕ) :
    Ok ws (x.out release sn) := by
  unfold Rx.out
  split
  · split
    · exact h.reorderRelease hz
    · split
      · exact h.setReorderTimer _
      · exact h
  · exact h

/-- A frame that has its slot to itself is stored, or released at once at the start of the
window. -/
theorem Ok.inSlot (hz : WinSize ws) (h : Ok ws x) {skb : Skb} (hp : x.pos ≤ p)
    (hlt : p < x.pos + ws) (hf : Belongs p skb) (he : x.tid.reorderBuf (skb.sn % x.tid.winSize) = [])
    (release : Bool) : Ok ws ((x.setSlot (skb.sn % x.tid.winSize) [skb]).inSlot release skb) := by
  have hi : skb.sn % x.tid.winSize = p % ws := by
    rw [h.size]
    exact Window.index hz.dvd (by rw [hf.sn, Nat.mod_mod])
  rw [hi] at he ⊢
  have hi' : skb.sn % (x.setSlot (p % ws) [skb]).tid.winSize = p % ws := hi
  unfold Rx.inSlot
  simp only [hi']
  split
  · next hsn =>
    have hstart := h.start
    have hpos : p = x.pos := by
      have hsn : skb.sn = x.tid.winStart := hsn
      have := hf.sn
      have := hz.le
      omega
    subst hpos
    generalize (Rx.timerPending _ && _) = c
    refine Ok.out hz (h.shift [skb] (.inr ⟨skb, rfl, hf⟩) ⟨?_, ?_, ?_⟩ ?_ ?_ ?_).1 ..
    · simp [setWinStart, releaseSlot, Rx.release, setSlot]
    · simp [setWinStart, releaseSlot, Rx.release, setSlot]
    · simp [setWinStart, releaseSlot, Rx.release, setSlot]
    · simpa [setWinStart, releaseSlot, Rx.release, setSlot] using h.storedNum_of_empty he
    · simp [setWinStart, releaseSlot, Rx.release, setSlot]
    · simp [setWinStart, releaseSlot, Rx.release, setSlot]
  · refine Ok.out hz ?_ ..
    exact h.store hz.pos hz.le hp hlt hf he rfl rfl rfl rfl

end Rx

/-- A unicast frame of the session that is neither a fragment nor a part of an A-MSDU and whose
filter does not exempt it from the window. -/
def RxDesc.Plain (d : RxDesc) : Prop :=
  d.isQosData = true ∧ d.isMcAddr = false ∧ d.moreFrag = false ∧ d.fragNum = 0 ∧
    d.isAmsdu = false ∧ d.exclFilter = false

instance (d : RxDesc) : Decidable d.Plain := inferInstanceAs (Decidable (_ ∧ _))

namespace Rx

/-- The frame that is `d` ahead of the window does not force it past the last stored frame. -/
def LeavesStored (x : Rx) (d : ℕ) : Prop :=
  x.tid.winSize ≤ d → d ≤ 2048 → ∃ o < x.tid.winSize, d ≤ o + x.tid.winSize ∧
    (x.tid.reorderBuf ((x.tid.winStart + o) % x.tid.winSize)).isEmpty = false

instance (x : Rx) (d : ℕ) : Decidable (x.LeavesStored d) :=
  inferInstanceAs (Decidable (_ → _ → _))

def PlainFrames (_ : Rx) : RxEvent → Prop
  | .frame skb => skb.desc.Plain
  | _ => True

/-- A frame that passes the filter of the peer leaves a stored frame in the window. -/
def KeepsStored (x : Rx) : RxEvent → Prop
  | .frame skb => skb.desc.Plain ∧
    ((x.peer.any fun p => filtered p skb) = false →
      x.LeavesStored (ieee80211SnSub skb.sn x.tid.winStart))
  | _ => True

instance (x : Rx) (e : RxEvent) : Decidable (x.PlainFrames e) := by
  cases e <;> unfold PlainFrames <;> infer_instance

instance (x : Rx) (e : RxEvent) : Decidable (x.KeepsStored e) := by
  cases e <;> unfold KeepsStored <;> infer_instance

/-- Of two releases less than half the sequence numbers of window movement apart, the first is
of the earlier sequence number. -/
def InOrder (x : Rx) : Prop :=
  x.released.Pairwise fun a b => b.pos < a.pos + 2048 → ieee80211SnLess a.skb.sn b.skb.sn = true

variable {ws : ℕ} {x y : Rx} {p q : ℕ}

theorem Ok.inOrder (h : Ok ws x) : x.InOrder := by
  refine h.sorted.imp_of_mem fun ha hb hlt hnear => ?_
  have hsa := (h.before _ ha).2
  have hsb := (h.before _ hb).2
  exact (ieee80211SnLess_iff (by rw [hsa, Nat.mod_mod]) (by rw [hsb, Nat.mod_mod]) (by omega)
    hnear).mpr hlt

/-- The window after making room for a frame that is not before it. -/
theorem Ok.makeRoom (hz : WinSize ws) (h : Ok ws x) {sn : ℕ}
    (hl : ieee80211SnLess sn x.tid.winStart = false)
    (hd : x.LeavesStored (ieee80211SnSub sn x.tid.winStart))
    (hp : p = x.pos + ieee80211SnSub sn x.tid.winStart)
    (hy : y = if !ieee80211SnLess sn (u16 (x.tid.winStart + x.tid.winSize)) then
      x.forceRelease (ieee80211SnSub sn x.tid.winSize) else x) :
    Ok ws y ∧ y.pos ≤ p ∧ p < y.pos + ws := by
  have hge := hz.ge
  have hle := hz.le
  have hstart := h.start
  have hsn : sn % 4096 = p % 4096 := hp ▸ sn_pos h.start sn
  have hfar := ieee80211SnSub_le hl
  unfold LeavesStored at hd
  rw [h.size] at hy hd
  have hless : ieee80211SnLess sn (u16 (x.tid.winStart + ws)) = true ↔ p < x.pos + ws :=
    ieee80211SnLess_iff hsn (by rw [u16_mod]; omega) (by omega) (by omega)
  cases hin : ieee80211SnLess sn (u16 (x.tid.winStart + ws)) with
  | true =>
    rw [hin] at hy hless
    have hy : y = x := hy
    subst hy
    exact ⟨h, by omega, hless.mp rfl⟩
  | false =>
    rw [hin] at hy hless
    have hout : x.pos + ws ≤ p := by
      by_contra hc
      exact absurd (hless.mpr (by omega)) (by simp)
    obtain ⟨o, ho, hdo, hne⟩ := hd (by omega) hfar
    obtain ⟨hok, -, -, hlast⟩ := h.forceRelease_pos hz (ieee80211SnSub sn ws) (q := p - ws)
      (ieee80211SnSub_mod hsn (by omega)) (by omega) (by omega)
    have hpos := hlast (x.pos + o) (by omega) (by omega) fun he => by
      rw [Window.index hz.dvd (show (x.tid.winStart + o) % 4096 = (x.pos + o) % 4096 by omega),
        he] at hne
      cases hne
    have hy : y = x.forceRelease (ieee80211SnSub sn ws) := hy
    subst hy
    exact ⟨hok, by omega, by omega⟩

theorem Ok.tidReorder (hz : WinSize ws) (h : Ok ws x) {skb : Skb} (hpl : skb.desc.Plain)
    (hcb : skb.cb.taint = false ∧ skb.cb.valid = false)
    (hd : x.LeavesStored (ieee80211SnSub skb.sn x.tid.winStart)) : Ok ws (x.tidReorder skb) := by
  obtain ⟨-, -, -, -, ham, hex⟩ := hpl
  have hfree : ∀ {z : Rx}, Ok ws z → Ok ws (z.free [skb]) := fun hz => hz
  unfold Rx.tidReorder
  simp only [ham, hex, Bool.false_eq_true, if_false]
  split
  · exact (hfree h).out hz ..
  · next hl =>
    have hl := Bool.eq_false_of_not_eq_true hl
    generalize hy : (if !ieee80211SnLess skb.sn (u16 (x.tid.winStart + x.tid.winSize)) then
      x.forceRelease (ieee80211SnSub skb.sn x.tid.winSize) else x) = y
    obtain ⟨hok, hge, hlt⟩ := h.makeRoom hz hl hd rfl hy.symm
    have hlt4 : skb.sn < 4096 := skb.desc.sn.isLt
    have hf : Belongs (x.pos + ieee80211SnSub skb.sn x.tid.winStart) skb :=
      ⟨by rw [← sn_pos h.start, Nat.mod_eq_of_lt hlt4], hcb.1, hcb.2⟩
    split
    · next he => exact hok.inSlot hz hge hlt hf (by simpa using he) _
    · exact (hfree hok).out hz ..

theorem Ok.ampduReorder (hz : WinSize ws) (h : Ok ws x) (hx : x.env = (true, true, true))
    {skb : Skb} (hg : x.KeepsStored (.frame skb)) : Ok ws (x.ampduReorder (x.fresh skb)) := by
  simp only [env, Prod.mk.injEq] at hx
  obtain ⟨hflag, hlive, hpeer⟩ := hx
  obtain ⟨p, hp⟩ := Option.isSome_iff_exists.mp hpeer
  obtain ⟨hpl, hd⟩ := hg
  obtain ⟨hqos, hmc, hmf, hfn, -, -⟩ := id hpl
  have hfil : filtered p (x.fresh skb) = filtered p skb := rfl
  rw [hp, Option.any_some] at hd
  unfold Rx.ampduReorder
  simp only [hflag, hp, hfil, Bool.not_true, Bool.false_eq_true, if_false]
  split
  · exact h
  · next hf =>
    have hdesc : (x.fresh skb).desc = skb.desc := rfl
    simp only [hdesc, hqos, hmc, hmf, hfn, hlive, Bool.not_true, Bool.or_self, bne_self_eq_false,
      Bool.false_eq_true, if_false]
    have hpl' : (x.fresh skb).desc.Plain := hpl
    refine Ok.tidReorder hz ?_ hpl' ⟨rfl, rfl⟩ ?_
    · exact h
    · exact hd (Bool.eq_false_of_not_eq_true hf)

theorem Ok.rxTodo (hz : WinSize ws) (h : Ok ws x) : Ok ws x.rxTodo := by
  unfold Rx.rxTodo
  generalize hy : ({ x with reorder := { x.reorder with
    todo := { x.reorder.todo with linked := false } } } : Rx) = y
  have hok : Ok ws y := hy ▸ h
  refine Ok.reorderRelease hz ?_
  split
  · exact (hok.forceRelease hz _).congr rfl rfl rfl
  · exact hok.congr rfl rfl rfl

theorem Ok.step (hz : WinSize ws) (h : Ok ws x) (hx : x.env = (true, true, true)) {e : RxEvent}
    (hg : x.KeepsStored e) (hs : x.step e = some y) : Ok ws y := by
  cases e with
  | frame skb =>
    cases Option.some.inj hs
    exact h.ampduReorder hz hx hg
  | timeout =>
    simp only [Rx.step] at hs
    split at hs
    · split_ifs at hs
      cases Option.some.inj hs
      unfold reorderTimeoutFn
      split_ifs <;> exact h
    · cases hs
  | todo =>
    simp only [Rx.step] at hs
    split_ifs at hs
    cases Option.some.inj hs
    exact h.rxTodo hz
  | tick n =>
    cases Option.some.inj hs
    exact h

private theorem addTidRx_ok (now reorderTimeout : Jiffies) (p : Peer) (r : ReorderRx)
    (ssn bufSize : Fin 65536) :
    Ok (newTidRx r ssn bufSize).winSize (addTidRx now reorderTimeout p r ssn bufSize) where
  size := rfl
  start := rfl
  slot _ _ _ _ hm := by cases hm
  stored := by simp [addTidRx, newTidRx, TidRx.occupied]
  before _ hr := by cases hr
  sorted := .nil

/-- Runs of plain frames in which no frame forces the window past the last stored one release in
order. -/
theorem inOrder_of_keepsStored (now reorderTimeout : Jiffies) (p : Peer) (r : ReorderRx)
    (ssn bufSize : Fin 65536) (hpow : ∃ k, (newTidRx r ssn bufSize).winSize = 2 ^ k)
    (hge : 128 ≤ (newTidRx r ssn bufSize).winSize) (hle : (newTidRx r ssn bufSize).winSize ≤ 1024)
    (x : Rx) (h : Lib.Reach step KeepsStored (addTidRx now reorderTimeout p r ssn bufSize) x) :
    x.InOrder := by
  have hz := WinSize.of_pow hpow hge hle
  obtain ⟨hok, -⟩ := h.invariant
    (I := fun x => Ok (newTidRx r ssn bufSize).winSize x ∧ x.env = (true, true, true))
    ⟨addTidRx_ok .., rfl⟩ fun x e y ⟨hok, hx⟩ hg hs =>
      ⟨hok.step hz hx hg hs, (env_step hs).trans hx⟩
  exact hok.inOrder

/-- A frame of the best-effort TID with nothing special to it. -/
def plain (sn : Fin 4096) : Skb :=
  ⟨⟨sn, 0, 0, 0, false, true, false, false, false, false⟩, ⟨0, 0, 0, false, false, false⟩, 0, 0, 0⟩

def noReorder : ReorderRx := ⟨0, none, ⟨0, 0⟩, ⟨false, 0, .invalid, false⟩⟩

/-- A new session from sequence number 0 with a window of 128. -/
def session : Rx := addTidRx 0 100 ⟨0, 0, 0⟩ noReorder 0 64

theorem inOrder_of_keepsStored_gap :
    ∃ x, Lib.Reach step KeepsStored session x ∧
      (x.released.map fun r => r.skb.sn) = [3, 100, 150] ∧ x.InOrder := by
  obtain ⟨x, hx, hp⟩ := Lib.exists_reach_of_exec step KeepsStored session
    [.frame (plain 3), .frame (plain 100), .frame (plain 150), .tick 200, .timeout, .todo]
    (fun x => (x.released.map fun r => r.skb.sn) == [3, 100, 150]) (by decide +kernel)
  exact ⟨x, hx, by simpa using hp,
    inOrder_of_keepsStored 0 100 ⟨0, 0, 0⟩ noReorder 0 64 ⟨7, rfl⟩ (by decide) (by decide) x hx⟩

/-- A frame that finds nothing stored and lies beyond the window is released from the slot at its
start, and the frame that belongs there is released after it. -/
theorem beyondEmptyWindow_not_inOrder :
    ¬ ∀ x, Lib.Reach step PlainFrames session x → x.InOrder := by
  intro h
  obtain ⟨x, hx, hp⟩ := Lib.exists_reach_of_exec step PlainFrames session
    [.frame (plain 500), .frame (plain 373)]
    (fun x => (x.released.map fun r => (r.pos, r.skb.sn)) == [(372, 500), (373, 373)])
    (by decide +kernel)
  have hlog : (x.released.map fun r => (r.pos, r.skb.sn)) = [(372, 500), (373, 373)] := by
    simpa using hp
  have hord : (x.released.map fun r => (r.pos, r.skb.sn)).Pairwise
      fun a b => b.1 < a.1 + 2048 → ieee80211SnLess a.2 b.2 = true :=
    List.pairwise_map.mpr (h x hx)
  rw [hlog] at hord
  exact absurd hord (by decide)

end Rx
end Skw
