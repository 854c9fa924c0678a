import Skw.Rx.Log
import Skw.Rx.Stranded

/-! The update of the window by a block ack request. The request waits in the todo node, which no
frame and no timeout overwrites, until `skw_rx_todo` serves it. -/
namespace Skw
namespace Rx

theorem stable_todo {t : RxTodo} (ha : t.actived = true) : Stable fun x => x.reorder.todo = t where
  setWinStart _ _ h := h
  setStoredNum _ _ h := h
  setSlot _ _ _ h := h
  release _ _ h := h
  free _ _ h := h
  setTimer _ _ _ h := h
  linkTodo x sn r hx h := by
    rw [h, ha] at hx
    cases hx
  setPeer _ _ _ _ h := h

/-- The window starts where the count of positions says. -/
def StartsAt (x : Rx) : Prop := x.tid.winStart % 4096 = x.pos % 4096

theorem stable_startsAt : Stable StartsAt where
  setWinStart x w h := by
    show w % 4096 = (x.pos + ieee80211SnSub w x.tid.winStart) % 4096
    exact sn_pos h w
  setStoredNum _ _ h := h
  setSlot _ _ _ h := h
  release _ _ h := h
  free _ _ h := h
  setTimer _ _ _ h := h
  linkTodo _ _ _ _ h := h
  setPeer _ _ _ _ h := h

/-- Frames from `m` to `n` behind sequence number `ssn` are all stored. -/
def GapFree (x : Rx) (ssn m n : ℕ) : Prop := ∀ j, m ≤ j → j ≤ n → x.slotOf (ssn + j) ≠ []

def Due (x : Rx) (sn : ℕ) : Prop := x.isMsduTimeout (x.slotOf sn) = true

/-- What `skw_rx_todo` does with the request: every frame before `ssn` goes, one `n` behind it only
as `ahead n` says, and frame `ssn` is not too old afterwards if `new` says that it is to come. -/
def Served (x y : Rx) (ssn : ℕ) (ahead : ℕ → Prop) (new : Prop) : Prop :=
  ∃ rel fr, y.released = x.released ++ rel ∧ y.freed = x.freed ++ fr ∧
    (∀ i < x.tid.winSize, ∀ skb ∈ x.tid.reorderBuf i, ieee80211SnLess skb.sn ssn = true →
      if isTainted (x.tid.reorderBuf i) then skb ∈ fr else ∃ r ∈ rel, r.skb = skb) ∧
    (∀ r ∈ rel, ieee80211SnLess r.skb.sn ssn = false → ahead (ieee80211SnSub r.skb.sn ssn)) ∧
    (new → ieee80211SnLess ssn y.tid.winStart = false)

/-- A frame is released in a run without a gap that begins with frame `ssn`, or when its own time
is over. -/
def AlongOrDue (x : Rx) (ssn n : ℕ) : Prop := x.GapFree ssn 0 n ∨ x.Due (ssn + n)

/-- The run may also begin with a frame whose time is over. -/
def AlongFromDue (x : Rx) (ssn n : ℕ) : Prop :=
  ∃ m ≤ n, x.GapFree ssn m n ∧ (m = 0 ∨ x.Due (ssn + m))

def StoresSn (x : Rx) (sn : ℕ) : Prop := ∃ skb ∈ x.slotOf sn, skb.sn = sn % 4096

/-- All that the counter counts is before `ssn`. -/
def CountsBefore (x : Rx) (ssn : ℕ) : Prop :=
  x.tid.storedNum.toNat = x.tid.occupied.card ∧
    ∀ i < x.tid.winSize, ∀ skb ∈ x.tid.reorderBuf i, ieee80211SnLess skb.sn ssn = true

/-- Every stored frame is in its slot and in the window, and its slot is counted. -/
structure Sound (x : Rx) : Prop where
  placed : ∀ i < x.tid.winSize, ∀ skb ∈ x.tid.reorderBuf i, skb.sn % x.tid.winSize = i ∧
    ieee80211SnSub skb.sn x.tid.winStart < x.tid.winSize
  counted : x.tid.occupied.card ≤ x.tid.storedNum.toNat

instance (x : Rx) : Decidable x.Sound :=
  decidable_of_iff (_ ∧ _) ⟨fun h => ⟨h.1, h.2⟩, fun h => ⟨h.placed, h.counted⟩⟩

/-- The same by positions. -/
structure InWindow (ws : ℕ) (x : Rx) : Prop extends Counted ws x where
  dvd : ws ∣ 4096
  le : ws ≤ 2048
  placed : x.Placed ws
  live : x.live = true

variable {ws : ℕ} {x y : Rx} {i p q ssn : ℕ}

/-- In a window of a divisor of the sequence numbers a slot stands for one of them. -/
theorem Sound.inWindow (h : x.Sound) (hs : x.StartsAt) (hlive : x.live = true)
    (hpow : ∃ k, x.tid.winSize = 2 ^ k) (hle : x.tid.winSize ≤ 2048) :
    InWindow x.tid.winSize x := by
  have hdvd : x.tid.winSize ∣ 4096 := dvd_of_pow hpow (by omega)
  refine ⟨⟨rfl, hs, h.counted⟩, hdvd, hle, fun p hp hlt skb hm => ?_, hlive⟩
  obtain ⟨hslot, hin⟩ := h.placed _ (Nat.mod_lt p (pos_of_dvd hdvd)) skb hm
  have hsn := sn_pos hs skb.sn
  have hmod : (x.pos + ieee80211SnSub skb.sn x.tid.winStart) % x.tid.winSize =
      p % x.tid.winSize := by
    rw [← hslot]
    exact (Window.index hdvd hsn).symm
  have heq : x.pos + ieee80211SnSub skb.sn x.tid.winStart = p := by
    by_contra hne
    rcases Nat.lt_or_gt_of_ne hne with hlt' | hlt'
    · exact Lib.mod_ne_of_lt hlt' (by omega) hmod
    · exact Lib.mod_ne_of_lt hlt' (by omega) hmod.symm
  have hskb : skb.sn < 4096 := skb.desc.sn.isLt
  rw [← heq, ← hsn, Nat.mod_eq_of_lt hskb]

/-- The position of what is stored in a slot. -/
theorem InWindow.exists_pos (h : InWindow ws x) (hi : i < ws) :
    ∃ p, x.pos ≤ p ∧ p < x.pos + ws ∧ p % ws = i ∧
      ∀ skb ∈ x.tid.reorderBuf i, skb.sn = p % 4096 := by
  obtain ⟨j, hj, rfl⟩ := Lib.exists_mod_eq x.pos hi
  exact ⟨x.pos + j, by omega, by omega, rfl, h.placed _ (by omega) (by omega)⟩

/-- A frame of the window is before position `q` in the order of sequence numbers too. -/
theorem InWindow.snLess_iff (h : InWindow ws x) {sn : ℕ} (hsn : sn = p % 4096)
    (hssn : ssn % 4096 = q % 4096) (hp : x.pos ≤ p) (hpw : p < x.pos + ws) (hq : x.pos ≤ q)
    (hqw : q < x.pos + 2047) : ieee80211SnLess sn ssn = true ↔ p < q := by
  have hle := h.le
  exact ieee80211SnLess_iff (by rw [hsn, Nat.mod_mod]) hssn (by omega) (by omega)

/-- A slot behind position `q`, by its sequence number. -/
theorem InWindow.slotOf_add (h : InWindow ws x) (hssn : ssn % 4096 = q % 4096) (j : ℕ) :
    x.slotOf (ssn + j) = x.tid.reorderBuf ((q + j) % ws) := by
  unfold slotOf
  rw [h.size, Window.index h.dvd (show (ssn + j) % 4096 = (q + j) % 4096 by omega)]

/-- What the forced release takes at position `q` and behind it. -/
theorem InWindow.ahead_of_passed (h : InWindow ws x) (hssn : ssn % 4096 = q % 4096)
    {r : Released} (hr : r.skb ∈ x.tid.reorderBuf (r.pos % ws)) (hq : r.pos = q) :
    x.AlongFromDue ssn 0 := by
  refine ⟨0, le_rfl, fun j _ hj => ?_, .inl rfl⟩
  rw [h.slotOf_add hssn, Nat.le_zero.mp hj, Nat.add_zero, ← hq]
  exact List.ne_nil_of_mem hr

/-- A run behind the window that the forced release leaves. -/
theorem InWindow.ahead_of_inRun (h : InWindow ws x) (hssn : ssn % 4096 = q % 4096)
    (hq : x.pos ≤ q) (hd : Drains ws x y) (hc : y.clock = x.clock)
    (hy : y.pos = q + 1 ∨ y.pos = q) (hstores : x.StoresSn (ssn + 1) → x.StoresSn ssn)
    {r : Released} (hrw : r.pos < x.pos + ws) (hrun : InRun ws y y.pos true r) :
    x.AlongFromDue ssn (r.pos - q) := by
  obtain ⟨-, s, hs, hsr, hall, hbegin⟩ := hrun
  have hsame : ∀ p, s ≤ p → p ≤ r.pos → x.tid.reorderBuf (p % ws) = y.tid.reorderBuf (p % ws) :=
    fun p hp hpr => ((hd.slots (p % ws)).resolve_left (hall p hp hpr)).symm
  have hfree : ∀ j, s - q ≤ j → j ≤ r.pos - q → x.slotOf (ssn + j) ≠ [] := by
    intro j hj hjr
    rw [h.slotOf_add hssn, hsame (q + j) (by omega) (by omega)]
    exact hall (q + j) (by omega) (by omega)
  by_cases hsq : s = q
  · exact ⟨0, Nat.zero_le _, fun j _ hjr => hfree j (by omega) hjr, .inl rfl⟩
  · rcases hbegin with ⟨hsy, -⟩ | hdue
    · -- The run begins right behind `q`, where frame `ssn` is stored.
      have hs1 : s = q + 1 := by omega
      have hone : x.StoresSn (ssn + 1) := by
        obtain ⟨skb, hm⟩ := List.exists_mem_of_ne_nil _ (hfree 1 (by omega) (by omega))
        refine ⟨skb, hm, ?_⟩
        rw [h.slotOf_add hssn] at hm
        rw [h.placed (q + 1) (by omega) (by omega) skb hm]
        omega
      obtain ⟨skb, hm, -⟩ := hstores hone
      refine ⟨0, Nat.zero_le _, fun j _ hjr => ?_, .inl rfl⟩
      by_cases hj : j = 0
      · rw [hj]
        exact List.ne_nil_of_mem hm
      · exact hfree j (by omega) hjr
    · refine ⟨s - q, by omega, hfree, .inr ?_⟩
      unfold Due
      rw [h.slotOf_add hssn, Nat.add_sub_cancel' (by omega), hsame s le_rfl hsr,
        ← isMsduTimeout_congr hc]
      exact hdue

/-- Nothing is left for the release that follows a forced release which ran out of frames. -/
theorem reorderRelease_of_zero (hw : 0 < x.tid.winSize) (h0 : x.tid.storedNum = 0) :
    x.reorderRelease.tid = x.tid ∧ x.reorderRelease.pos = x.pos := by
  obtain ⟨n, hn⟩ : ∃ n, x.tid.winSize = n + 1 := ⟨x.tid.winSize - 1, by omega⟩
  unfold Rx.reorderRelease
  split
  · rw [hn, Rx.releaseLoop, if_pos h0]
    exact ⟨rfl, rfl⟩
  · exact ⟨rfl, rfl⟩

/-- The forced release of a request has passed position `q`, or it has stopped there with nothing
stored, as it does when everything that is counted was before. -/
structure Forced (ws q : ℕ) (x y : Rx) (ssn : ℕ) (rel : List Released) (fr : List Skb) : Prop
    extends Drains ws x y, Passed ws x y rel fr where
  ends : y.pos = q + 1 ∨ y.pos = q ∧ y.tid.storedNum = 0
  runOut : x.CountsBefore ssn → y.pos = q ∧ y.tid.storedNum = 0
  clock : y.clock = x.clock
  live : y.live = true

theorem InWindow.forced (h : InWindow ws x) (hssn : ssn % 4096 = q % 4096)
    (hq : x.pos ≤ q) (hqw : q < x.pos + 2047) :
    ∃ rel fr, Forced ws q x (x.unlinkTodo.forceRelease ssn).clearActived ssn rel fr := by
  have hc : Counted ws x.unlinkTodo := ⟨h.size, h.start, h.card⟩
  have hle : x.unlinkTodo.pos ≤ q := hq
  have hlt : q + 1 < x.unlinkTodo.pos + 2048 := show q + 1 < x.pos + 2048 by omega
  obtain ⟨-, -, hend⟩ := hc.forceRelease_pos h.dvd ssn hssn (by omega) hlt
  obtain ⟨rel, fr, hpass⟩ := hc.passed_forceRelease h.dvd ssn hssn (by omega) hlt
  refine ⟨rel, fr, h.toCounted.forceTodo h.dvd ssn,
    ⟨hpass.released, hpass.freed, hpass.inside, hpass.left⟩, hend, fun hb => ?_,
    clock_forceRelease _ _, live_of_env (env_forceRelease _ _) h.live⟩
  apply hc.forceRelease_runOut h.dvd ssn hssn hle hlt hb.1
  intro p hp hpw
  by_contra hne
  obtain ⟨skb, hm⟩ := List.exists_mem_of_ne_nil _ hne
  have hsn := h.placed p (hq.trans hp) hpw skb hm
  have hless := hb.2 (p % ws) (by
    rw [h.size]
    exact Nat.mod_lt p (pos_of_dvd h.dvd)) skb hm
  have := (h.snLess_iff hsn hssn (hq.trans hp) hpw hq hqw).mp hless
  omega

/-- A request that is less than half the sequence numbers ahead is served. -/
theorem InWindow.served_rxTodo (h : InWindow ws x) (hseq : x.reorder.todo.seq = ssn)
    (hssn : ssn % 4096 = q % 4096) (hq : x.pos ≤ q) (hqw : q < x.pos + 2047) :
    Served x x.rxTodo ssn
      (fun n => (x.StoresSn (ssn + 1) → x.StoresSn ssn) → x.AlongFromDue ssn n)
      (x.CountsBefore ssn) := by
  obtain ⟨rel, fr, hf⟩ := h.forced hssn hq hqw
  rw [rxTodo_of_live h.live, hseq]
  generalize (x.unlinkTodo.forceRelease ssn).clearActived = y at hf ⊢
  obtain ⟨rel', fr', htake⟩ := hf.counted.takesRuns_releaseLoop h.dvd h.le (i := 0) (n := ws)
    hf.counted.start le_rfl le_rfl (Nat.zero_add ws) (fun _ : true = true => .inl rfl)
    fun j hj => absurd hj (Nat.not_lt_zero j)
  have hloop : y.reorderRelease = Rx.releaseLoop y.tid.winStart ws 0 true y := by
    rw [Rx.reorderRelease, if_pos hf.live, hf.counted.size]
  rw [← hloop] at htake
  refine ⟨rel ++ rel', fr ++ fr', ?_, ?_, ?_, ?_, ?_⟩
  · rw [htake.released, hf.released, List.append_assoc]
  · rw [htake.freed, hf.freed, List.append_assoc]
  · intro i hi skb hm hless
    obtain ⟨p, hp, hpw, rfl, hsn⟩ := h.exists_pos (h.size ▸ hi)
    have hpq := (h.snLess_iff (hsn skb hm) hssn hp hpw hq hqw).mp
      hless
    have hleft := hf.left p hp (by have := hf.ends; omega) hpw skb hm
    split_ifs at hleft ⊢
    · exact List.mem_append_left fr' hleft
    · obtain ⟨r, hr, hrs⟩ := hleft
      exact ⟨r, List.mem_append_left rel' hr, hrs⟩
  · intro r hr hless hstores
    have hpos : x.pos ≤ r.pos ∧ r.pos < x.pos + ws ∧ r.skb ∈ x.tid.reorderBuf (r.pos % ws) ∧
        (r.pos < q + 1 ∨ InRun ws y y.pos true r) := by
      rcases List.mem_append.mp hr with hr | hr
      · obtain ⟨hle, hlt, hws, hm⟩ := hf.inside r hr
        exact ⟨hle, hws, hm, .inl (by have := hf.ends; omega)⟩
      · obtain ⟨hb, hrun⟩ := htake.inRun r hr
        have hle := hf.pos.trans hrun.le
        refine ⟨hle, ?_, mem_of_drained hf.toDrains hrun.mem ▸ hrun.mem, .inr hrun⟩
        by_contra hge
        have hempty := hf.empty_of_passed h.dvd (p := r.pos - ws) (by omega) (by omega)
        rw [← Nat.mod_eq_sub_mod (by omega)] at hempty
        exact absurd hempty (List.ne_nil_of_mem hrun.mem)
    obtain ⟨hle, hlt, hm, hcase⟩ := hpos
    have hsn := h.placed r.pos hle hlt r.skb hm
    have hge : q ≤ r.pos := by
      by_contra hc
      rw [(h.snLess_iff hsn hssn hle hlt hq hqw).mpr
        (by omega)] at hless
      cases hless
    rw [ieee80211SnSub_eq (p := r.pos) (by rw [hsn, Nat.mod_mod]) hssn hge
      (by have := h.le; omega)]
    rcases hcase with hrq | hrun
    · rw [Nat.sub_eq_zero_of_le (by omega)]
      exact h.ahead_of_passed hssn hm (by omega)
    · exact h.ahead_of_inRun hssn hq hf.toDrains hf.clock (hf.ends.imp_right And.left) hstores
        hlt hrun
  · intro hb
    obtain ⟨hpos, h0⟩ := hf.runOut hb
    rw [(reorderRelease_of_zero (hf.counted.size.symm ▸ pos_of_dvd h.dvd) h0).1]
    have hless := ieee80211SnLess_iff hssn (hf.counted.start.trans (by rw [hpos])) (q := q)
      (by omega) (by omega)
    exact Bool.eq_false_of_not_eq_true fun hc => Nat.lt_irrefl q (hless.mp hc)

/-- What holds in every state of a session. -/
structure Alive (x : Rx) : Prop where
  start : x.StartsAt
  linked : x.Linked
  live : x.live = true

theorem stable_linked : Stable Linked where
  setWinStart _ _ h := h
  setStoredNum _ _ h := h
  setSlot _ _ _ h := h
  release _ _ h := h
  free _ _ h := h
  setTimer _ _ _ h := h
  linkTodo _ _ _ _ _ := fun _ => rfl
  setPeer _ _ _ _ h := h

/-- The node is unlinked first, but it is no longer active when it may be linked again. -/
theorem linked_rxTodo (hlive : x.live = true) : x.rxTodo.Linked := by
  rw [rxTodo_of_live hlive]
  apply stable_linked.reorderRelease
  exact fun hf => absurd hf Bool.false_ne_true

theorem Alive.step (h : x.Alive) {e : RxEvent} (hs : x.step e = some y) : y.Alive := by
  have hlive : y.live = true := live_of_env (env_step hs) h.live
  have hstart : y.StartsAt := stable_startsAt.step (fun _ _ h => h) (fun _ _ h => h) h.start hs
  refine ⟨hstart, ?_, hlive⟩
  cases e with
  | frame skb =>
    cases Option.some.inj hs
    exact stable_linked.ampduReorder h.linked _
  | timeout =>
    simp only [Rx.step] at hs
    split at hs
    · split_ifs at hs
      cases Option.some.inj hs
      exact stable_linked.taking.reorderTimeoutFn (stable_linked.delTimer h.linked)
    · cases hs
  | todo =>
    simp only [Rx.step] at hs
    split_ifs at hs
    cases Option.some.inj hs
    exact linked_rxTodo h.live
  | tick n =>
    cases Option.some.inj hs
    exact h.linked

/-- A request is in the todo list, also where the node was there before. -/
theorem Alive.updateTidRx (h : x.Alive) (ssn : ℕ) : (x.updateTidRx ssn).Alive ∧
    (x.updateTidRx ssn).reorder.todo = ⟨true, ssn, .bar, true⟩ := by
  unfold Rx.updateTidRx
  rw [if_pos h.live]
  cases ha : x.reorder.todo.actived with
  | true =>
    have hl := h.linked ha
    simp only [ha, hl, if_true]
    exact ⟨⟨h.start, fun _ => rfl, h.live⟩, trivial⟩
  | false =>
    simp only [ha, Bool.false_eq_true, if_false]
    exact ⟨⟨h.start, fun _ => rfl, h.live⟩, trivial⟩

theorem Alive.call (h : x.Alive) {c : TidCall} (hs : x.call c = some y) : y.Alive := by
  cases c with
  | event e => exact h.step hs
  | updateTidRx ssn =>
    cases Option.some.inj hs
    exact (h.updateTidRx ssn).1

/-- What may come before the request is served. -/
def Waits (_ : Rx) : TidCall → Prop
  | .event .todo => False
  | .event _ => True
  | .updateTidRx _ => False

instance (x : Rx) (c : TidCall) : Decidable (x.Waits c) :=
  match c with
  | .event (.frame _) => inferInstanceAs (Decidable True)
  | .event .timeout => inferInstanceAs (Decidable True)
  | .event .todo => inferInstanceAs (Decidable False)
  | .event (.tick _) => inferInstanceAs (Decidable True)
  | .updateTidRx _ => inferInstanceAs (Decidable False)

/-- The request stays as it is until it is served. -/
theorem todo_call {t : RxTodo} (ha : t.actived = true) (h : x.reorder.todo = t) {c : TidCall}
    (hc : x.Waits c) (hs : x.call c = some y) : y.reorder.todo = t := by
  cases c with
  | updateTidRx ssn => exact absurd hc id
  | event e =>
    cases e with
    | frame skb =>
      cases Option.some.inj hs
      exact (stable_todo ha).ampduReorder h _
    | timeout =>
      simp only [Rx.call, Rx.step] at hs
      split at hs
      · split_ifs at hs
        cases Option.some.inj hs
        exact (stable_todo ha).taking.reorderTimeoutFn ((stable_todo ha).delTimer h)
      · cases hs
    | todo => exact absurd hc id
    | tick n =>
      cases Option.some.inj hs
      exact h

/-- In every state of a session in which a request waits, with its frames in the window and
counted, the request is served: what is before its sequence number goes, what is behind goes in
runs, and its own frame is accepted when all that is counted was before. -/
theorem served_of_sound (now reorderTimeout : Jiffies) (p : Peer) (r : ReorderRx)
    (start bufSize : Fin 65536) (x : Rx)
    (h : Lib.Reach call Lib.Free (addTidRx now reorderTimeout p r start bufSize) x)
    (ssn : Fin 4096) (y : Rx) (hy : Lib.Reach call Waits (x.updateTidRx ssn) y)
    (hpow : ∃ k, y.tid.winSize = 2 ^ k) (hle : y.tid.winSize ≤ 2048) (hsound : y.Sound)
    (hahead : ieee80211SnSub ssn y.tid.winStart < 2047) :
    ∃ z, y.call (.event .todo) = some z ∧ Served y z ssn
      (fun n => (y.StoresSn (ssn + 1) → y.StoresSn ssn) → y.AlongFromDue ssn n)
      (y.CountsBefore ssn) := by
  have hx : x.Alive := h.invariant ⟨rfl, fun hf => absurd hf Bool.false_ne_true, rfl⟩
    fun _ _ _ hi _ hs => hi.call hs
  obtain ⟨hux, hasked⟩ := hx.updateTidRx ssn
  have hya : y.Alive ∧ y.reorder.todo = ⟨true, ssn, .bar, true⟩ :=
    hy.invariant (I := fun y => y.Alive ∧ y.reorder.todo = ⟨true, ssn, .bar, true⟩) ⟨hux, hasked⟩
      fun _ _ _ hi hc hs => ⟨hi.1.call hs, todo_call rfl hi.2 hc hs⟩
  obtain ⟨halive, htodo⟩ := hya
  have hw := hsound.inWindow halive.start halive.live hpow hle
  refine ⟨y.rxTodo, ?_, ?_⟩
  · rw [Rx.call, Rx.step, htodo, if_pos rfl]
  · apply hw.served_rxTodo (by rw [htodo]) (sn_pos halive.start ssn) (Nat.le_add_right _ _)
    omega

def three : Fin 4096 := ⟨3, by decide⟩

/-- With one frame stored before it, the frame of the request is the next one. -/
theorem served_of_sound_before :
    ∃ x y z, Lib.Reach call Lib.Free session x ∧
      Lib.Reach call Waits (x.updateTidRx three) y ∧ y.call (.event .todo) = some z ∧
      Served y z three
        (fun n => (y.StoresSn (three + 1) → y.StoresSn three) → y.AlongFromDue three n)
        (y.CountsBefore three) ∧
      y.tid.storedNum = 1 ∧ (z.released.map fun r => r.skb.sn) = [2] ∧ z.tid.winStart = 3 := by
  obtain ⟨x, hx, hp⟩ := Lib.exists_reach_of_exec call Lib.Free session
    [.event (.frame (plain 2))]
    (fun x => decide (x.updateTidRx three).Sound && (x.updateTidRx three).tid.winSize == 128 &&
      (x.updateTidRx three).tid.winStart == 0 && (x.updateTidRx three).tid.storedNum == 1 &&
      ((x.updateTidRx three).call (.event .todo)).any fun z =>
        (z.released.map fun r => r.skb.sn) == [2] && z.tid.winStart == 3)
    (by decide +kernel)
  simp only [Bool.and_eq_true, decide_eq_true_eq, beq_iff_eq] at hp
  obtain ⟨⟨⟨⟨hsound, hsize⟩, hstart⟩, hstored⟩, hcall⟩ := hp
  obtain ⟨z, hz, hserved⟩ := served_of_sound 0 100 ⟨0, 0, 0⟩ noReorder 0 64 x hx three _ .init
    ⟨7, hsize⟩ (by rw [hsize]; decide) hsound (by rw [hstart]; decide)
  rw [hz, Option.any_some] at hcall
  simp only [Bool.and_eq_true, beq_iff_eq] at hcall
  exact ⟨x, _, z, hx, .init, hz, hserved, hstored, hcall.1, hcall.2⟩

/-- The updates as they are claimed to be served, with a frame let go only along with frame `ssn`
or when its own time is over. Frame 6 goes with frame 5, whose time is over, but it is new. -/
theorem dueRun_not_served :
    ¬ ∀ (x y z : Rx) (ssn : Fin 4096), Lib.Reach call Lib.Free session x →
      Lib.Reach call Waits (x.updateTidRx ssn) y →
      ieee80211SnLess ssn y.tid.winStart = false → y.call (.event .todo) = some z →
      Served y z ssn (y.AlongOrDue ssn) (¬ y.StoresSn ssn) := by
  intro h
  obtain ⟨x, hx, hp⟩ := Lib.exists_reach_of_exec call Lib.Free session
    [.event (.frame (plain 3)), .event (.frame (plain 5)), .event (.tick 60),
      .event (.frame (plain 6)), .event (.tick 41), .event .timeout]
    (fun x => (x.updateTidRx three).tid.winStart == 0 &&
      ((x.updateTidRx three).slotOf 4).isEmpty &&
      !(x.updateTidRx three).isMsduTimeout ((x.updateTidRx three).slotOf 6) &&
      ((x.updateTidRx three).call (.event .todo)).any fun z =>
        (z.released.drop (x.updateTidRx three).released.length).any fun r => r.skb.sn == 6)
    (by decide +kernel)
  simp only [Bool.and_eq_true, beq_iff_eq, Bool.not_eq_true', Option.any_eq_true,
    List.isEmpty_iff, List.any_eq_true] at hp
  obtain ⟨⟨⟨hstart, hgap⟩, hnew⟩, z, hz, r, hr, hsn⟩ := hp
  obtain ⟨rel, fr, hrel, -, -, hahead, -⟩ := h x _ z three hx .init (by rw [hstart]; decide) hz
  rw [hrel, List.drop_left] at hr
  rcases hahead r hr (by rw [hsn]; decide) with hfree | hdue
  · exact hfree 1 (by decide) (by rw [hsn]; decide) hgap
  · have hn : (three : ℕ) + ieee80211SnSub r.skb.sn three = 6 := by
      rw [hsn]
      decide
    unfold Due at hdue
    rw [hn, hnew] at hdue
    cases hdue

end Rx
end Skw
