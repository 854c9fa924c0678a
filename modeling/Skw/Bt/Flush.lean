import Skw.Bt.Transmit

/-! Each accepted frame has one place, and each queue is sent in order. A flush keeps what was
accepted before it from being sent later, unless the work has such a frame in hand while the flush
passes its queue: the flush waits for the work only if this is pending, not if it runs. -/
namespace Skw
namespace BtTx

/-- What is promised of the frames in every state. -/
structure Handled (s : BtTx) : Prop where
  once : ∀ f < s.accepted, s.copies f = 1
  inOrder : ∀ q, (s.sentOf q).Pairwise (· < ·)
  notLate : ∀ t ∈ s.sent, t.flushed ≤ t.frame

/-- Where a flush passes a queue, the work has none of its frames in hand that was accepted before
the call. -/
def PassesHand (s : BtTx) : BtFlush → Prop
  | .purge n q => s.txq q = [] → ∀ f ∈ s.handOf q, n ≤ f
  | _ => True

instance (s : BtTx) (pc : BtFlush) : Decidable (s.PassesHand pc) :=
  match pc with
  | .purge _ _ => inferInstanceAs (Decidable (_ → ∀ f ∈ _, _))
  | .idle | .notified | .entered _ | .cancel _ | .waiting _ => inferInstanceAs (Decidable True)

def HandEmpty (s : BtTx) : BtEvent → Prop
  | .flushing k => s.PassesHand (s.flush k)
  | _ => True

instance (s : BtTx) (e : BtEvent) : Decidable (s.HandEmpty e) :=
  match e with
  | .flushing k => inferInstanceAs (Decidable (s.PassesHand (s.flush k)))
  | .sendFrame _ | .scheduleWork | .startWork | .work _ | .callFlush _ | .assertEvent
  | .bspreadyEvent _ => inferInstanceAs (Decidable True)

/-- The flush has passed queue `q` for the first `n` frames. -/
def Past (pc : BtFlush) (q : TxQueue) (n : ℕ) : Prop :=
  ∃ q', pc = .purge n q' ∧ q.idx < q'.idx

/-- The frames of a queue, those that were sent first. -/
def line (s : BtTx) (q : TxQueue) : List ℕ := s.sentOf q ++ s.rest q

/-- The number that a flush call goes by. -/
def bound : BtFlush → ℕ
  | .entered n | .cancel n | .waiting n | .purge n _ => n
  | _ => 0

structure Inv (s : BtTx) : Prop where
  once : ∀ f, s.copies f = if f < s.accepted then 1 else 0
  line : ∀ q, (s.line q).Pairwise (· < ·)
  bounds : s.flushed ≤ s.accepted ∧ ∀ k, bound (s.flush k) ≤ s.accepted
  flushed : ∀ q, ∀ f ∈ s.rest q, s.flushed ≤ f
  past : ∀ k q n, Past (s.flush k) q n → ∀ f ∈ s.rest q, n ≤ f
  notLate : ∀ t ∈ s.sent, t.flushed ≤ t.frame

variable {s t : BtTx} {q q' : TxQueue} {f k n : ℕ} {l : List ℕ}

theorem placesOf_eq_line (s : BtTx) (f : ℕ) (q : TxQueue) : s.placesOf f q = (s.line q).count f := by
  unfold placesOf line
  rw [List.count_append]

/-- A frame of a queue was accepted. -/
theorem Inv.lt_of_mem (h : s.Inv) (hf : f ∈ s.line q) : f < s.accepted := by
  by_contra hc
  have hcopies := h.once f
  rw [if_neg hc] at hcopies
  have hpos : 0 < (s.line q).count f := List.count_pos_iff.mpr hf
  unfold copies at hcopies
  simp only [placesOf_eq_line] at hcopies
  cases q <;> omega

theorem handOf_none (h : s.work.hand = none) (q : TxQueue) : s.handOf q = [] := by
  unfold handOf
  rw [h]

theorem handOf_self (h : s.work.hand = some (q, f)) : s.handOf q = [f] := by
  unfold handOf
  rw [h]
  exact if_pos rfl

theorem handOf_of_ne (h : s.work.hand = some (q, f)) (hq : q' ≠ q) : s.handOf q' = [] := by
  unfold handOf
  rw [h]
  exact if_neg hq.symm

/-- Where a frame may be, without what the steps leave alone. -/
structure Same (s t : BtTx) : Prop where
  line : ∀ q, t.line q = s.line q
  rest : ∀ q, t.rest q ⊆ s.rest q
  purged : t.purged = s.purged
  accepted : t.accepted = s.accepted
  notLate : (∀ u ∈ s.sent, u.flushed ≤ u.frame) → (∀ q, ∀ f ∈ s.rest q, s.flushed ≤ f) →
    ∀ u ∈ t.sent, u.flushed ≤ u.frame

theorem Same.of_hand (hh : t.work.hand = s.work.hand) (hq : t.txq = s.txq) (hs : t.sent = s.sent)
    (hp : t.purged = s.purged) (ha : t.accepted = s.accepted) : Same s t := by
  have hrest : ∀ q, t.rest q = s.rest q := by
    intro q
    unfold BtTx.rest handOf
    rw [hh, hq]
  have hline : ∀ q, t.line q = s.line q := by
    intro q
    unfold BtTx.line sentOf
    rw [hrest, hs]
  exact ⟨hline, fun q => hrest q ▸ List.Subset.refl _, hp, ha, fun h _ => hs ▸ h⟩

/-- A frame goes from the head of its queue to the hand. -/
theorem same_take (hw : s.work.hand = none) (hq : s.txq q = f :: l) : Same s (s.take q f l) := by
  have hrest : ∀ q', (s.take q f l).rest q' = s.rest q' := by
    intro q'
    unfold rest
    rw [handOf_none hw]
    by_cases hqq : q' = q
    · subst hqq
      rw [handOf_self rfl, hq]
      exact congrArg ([f] ++ ·) (Function.update_self ..)
    · rw [handOf_of_ne rfl hqq]
      exact congrArg ([] ++ ·) (Function.update_of_ne hqq ..)
  exact ⟨fun q' => congrArg (s.sentOf q' ++ ·) (hrest q'),
    fun q' => hrest q' ▸ List.Subset.refl _, rfl, rfl, fun h _ => h⟩

/-- A frame goes from the hand to the head of its queue. -/
theorem same_putBack (hw : s.work.hand = some (q, f)) : Same s (s.putBack q f) := by
  have hrest : ∀ q', (s.putBack q f).rest q' = s.rest q' := by
    intro q'
    unfold rest
    rw [handOf_none rfl]
    by_cases hqq : q' = q
    · subst hqq
      rw [handOf_self hw]
      exact congrArg ([] ++ ·) (Function.update_self ..)
    · rw [handOf_of_ne hw hqq]
      exact congrArg ([] ++ ·) (Function.update_of_ne hqq ..)
  exact ⟨fun q' => congrArg (s.sentOf q' ++ ·) (hrest q'),
    fun q' => hrest q' ▸ List.Subset.refl _, rfl, rfl, fun h _ => h⟩

/-- A frame in hand is sent. -/
theorem same_sentDone (hw : s.work.hand = some (q, f)) : Same s (s.sentDone q f) := by
  have hlog : ∀ q', (s.sentDone q f).sentOf q' = s.sentOf q' ++ s.handOf q' := by
    intro q'
    have hsent : (s.sentDone q f).sent = s.sent ++ [⟨q, f, s.flushed⟩] := rfl
    unfold sentOf
    rw [hsent, List.filter_append, List.map_append]
    by_cases hqq : q' = q
    · subst hqq
      rw [handOf_self hw]
      simp
    · rw [handOf_of_ne hw hqq]
      simp [Ne.symm hqq]
  have hrest : ∀ q', (s.sentDone q f).rest q' = s.txq q' := by
    intro q'
    unfold rest
    rw [handOf_none rfl]
    rfl
  refine ⟨fun q' => ?_, fun q' => ?_, rfl, rfl, fun h hr u hu => ?_⟩
  · unfold line
    rw [hlog, hrest, List.append_assoc]
    rfl
  · rw [hrest]
    exact List.subset_append_right ..
  · rcases List.mem_append.mp hu with hu | hu
    · exact h u hu
    · rw [List.mem_singleton.mp hu]
      apply hr q
      unfold rest
      rw [handOf_self hw]
      exact List.mem_cons_self

/-- Steps that leave the lines of the queues as they are. The flushes may go on where they have not
passed more. -/
theorem Inv.of_same (h : s.Inv) (hs : Same s t) (hf : t.flushed = s.flushed)
    (hb : ∀ k, bound (t.flush k) ≤ s.accepted)
    (hp : ∀ k q n, Past (t.flush k) q n → ∀ f ∈ s.rest q, n ≤ f) : t.Inv where
  once f := by
    have ho := h.once f
    unfold copies at ho ⊢
    simp only [placesOf_eq_line, hs.line, hs.purged, hs.accepted] at ho ⊢
    exact ho
  line q := by
    rw [hs.line]
    exact h.line q
  bounds := by
    rw [hf, hs.accepted]
    exact ⟨h.bounds.1, hb⟩
  flushed q f hm := by
    rw [hf]
    exact h.flushed q f (hs.rest q hm)
  past k q n hpast f hm := hp k q n hpast f (hs.rest q hm)
  notLate := hs.notLate h.notLate h.flushed

/-- The work goes on. -/
theorem Inv.of_work (h : s.Inv) (hs : Same s t) (hf : t.flushed = s.flushed)
    (hfl : t.flush = s.flush) : t.Inv := by
  apply h.of_same hs hf
  · rw [hfl]
    exact h.bounds.2
  · rw [hfl]
    exact h.past

/-- A flush goes on. -/
theorem Inv.of_flush (h : s.Inv) (hs : Same s t) (hf : t.flushed = s.flushed) {pc : BtFlush}
    (hfl : t.flush = Function.update s.flush k pc) (hb : bound pc ≤ s.accepted)
    (hp : ∀ q n, Past pc q n → ∀ f ∈ s.rest q, n ≤ f) : t.Inv := by
  apply h.of_same hs hf
  · intro j
    rw [hfl]
    by_cases hj : j = k
    · rw [hj, Function.update_self]
      exact hb
    · rw [Function.update_of_ne hj]
      exact h.bounds.2 j
  · intro j q n
    rw [hfl]
    by_cases hj : j = k
    · rw [hj, Function.update_self]
      exact hp q n
    · rw [Function.update_of_ne hj]
      exact h.past j q n

/-- A new frame is behind all others. -/
theorem Inv.accept (h : s.Inv) (q : TxQueue) : (s.accept q).Inv := by
  have hrest : ∀ q', (s.accept q).rest q' =
      s.rest q' ++ if q' = q then [s.accepted] else [] := by
    intro q'
    unfold rest
    rw [List.append_assoc]
    apply congrArg (s.handOf q' ++ ·)
    by_cases hqq : q' = q
    · subst hqq
      rw [if_pos rfl]
      exact Function.update_self ..
    · rw [if_neg hqq, List.append_nil]
      exact Function.update_of_ne hqq ..
  have hline : ∀ q', (s.accept q).line q' =
      s.line q' ++ if q' = q then [s.accepted] else [] := by
    intro q'
    unfold BtTx.line
    rw [hrest, ← List.append_assoc]
    rfl
  have hmem : ∀ q', ∀ f ∈ (s.accept q).rest q', f ∈ s.rest q' ∨ f = s.accepted := by
    intro q' f hf
    rw [hrest] at hf
    rcases List.mem_append.mp hf with hf | hf
    · exact .inl hf
    · split_ifs at hf
      · exact .inr (List.mem_singleton.mp hf)
      · cases hf
  refine ⟨fun f => ?_, fun q' => ?_, ⟨?_, fun k => ?_⟩, fun q' f hf => ?_,
    fun k q' n hpast f hf => ?_, h.notLate⟩
  · have hone := h.once f
    have hacc : (s.accept q).accepted = s.accepted + 1 := rfl
    have hpur : (s.accept q).purged = s.purged := rfl
    unfold copies at hone ⊢
    simp only [placesOf_eq_line, hline, List.count_append, hacc, hpur] at hone ⊢
    by_cases hf : f = s.accepted
    · subst hf
      rw [if_neg (Nat.lt_irrefl _)] at hone
      rw [if_pos (Nat.lt_succ_self _)]
      cases q <;> simp <;> omega
    · have hzero : ([s.accepted] : List ℕ).count f = 0 :=
        List.count_eq_zero.mpr fun hm => hf (List.mem_singleton.mp hm)
      have hlt : (f < s.accepted + 1) = (f < s.accepted) := propext (by omega)
      simp only [hlt, ← hone]
      cases q <;> simp [hzero]
  · rw [hline]
    split_ifs
    · refine List.pairwise_append.mpr ⟨h.line q', List.pairwise_singleton .., fun a ha b hb => ?_⟩
      rw [List.mem_singleton.mp hb]
      exact h.lt_of_mem ha
    · rw [List.append_nil]
      exact h.line q'
  · exact h.bounds.1.trans (Nat.le_succ _)
  · exact (h.bounds.2 k).trans (Nat.le_succ _)
  · rcases hmem q' f hf with hf | rfl
    · exact h.flushed q' f hf
    · exact h.bounds.1
  · rcases hmem q' f hf with hf | rfl
    · exact h.past k q' n hpast f hf
    · obtain ⟨q'', hpc, -⟩ := hpast
      have hb := h.bounds.2 k
      have hpc : s.flush k = .purge n q'' := hpc
      rw [hpc] at hb
      exact hb

/-- A frame goes from the head of its queue to those that are freed. -/
theorem Inv.purgeOne (h : s.Inv) (hq : s.txq q = f :: l) : (s.purgeOne q f l).Inv := by
  have htxq : ∀ q', (s.purgeOne q f l).txq q' = if q' = q then l else s.txq q' := by
    intro q'
    by_cases hqq : q' = q
    · subst hqq
      rw [if_pos rfl]
      exact Function.update_self ..
    · rw [if_neg hqq]
      exact Function.update_of_ne hqq ..
  have hsub : ∀ q', ((s.purgeOne q f l).txq q').Sublist (s.txq q') := by
    intro q'
    rw [htxq]
    split_ifs with hqq
    · rw [hqq, hq]
      exact List.sublist_cons_self f l
    · exact List.Sublist.refl _
  have hrest : ∀ q', ((s.purgeOne q f l).rest q').Sublist (s.rest q') :=
    fun q' => (List.Sublist.refl _).append (hsub q')
  have hcount : ∀ q' a, (s.line q').count a =
      ((s.purgeOne q f l).line q').count a + if q' = q then [f].count a else 0 := by
    intro q' a
    have hl : (s.purgeOne q f l).line q' =
      s.sentOf q' ++ (s.handOf q' ++ (s.purgeOne q f l).txq q') := rfl
    rw [hl, htxq]
    unfold BtTx.line rest
    simp only [List.count_append]
    split_ifs with hqq
    · rw [hqq, hq, List.count_cons, List.count_singleton]
      omega
    · rfl
  refine ⟨fun a => ?_, fun q' => ?_, h.bounds, fun q' a ha => ?_, fun k q' n hpast a ha => ?_,
    h.notLate⟩
  · have hone := h.once a
    have hpur : (s.purgeOne q f l).purged = s.purged ++ [f] := rfl
    have hacc : (s.purgeOne q f l).accepted = s.accepted := rfl
    unfold copies at hone ⊢
    simp only [placesOf_eq_line, hcount, hpur, hacc, List.count_append] at hone ⊢
    rw [← hone]
    cases q <;> simp <;> omega
  · exact (h.line q').sublist ((List.Sublist.refl _).append (hrest q'))
  · exact h.flushed q' a ((hrest q').subset ha)
  · exact h.past k q' n hpast a ((hrest q').subset ha)

theorem Inv.workStep (h : s.Inv) {err : ℤ} (hs : s.workStep err = some t) : t.Inv := by
  unfold BtTx.workStep at hs
  split at hs
  · cases hs
  · next hw =>
    cases hs
    refine h.of_work (.of_hand ?_ rfl rfl rfl rfl) rfl rfl
    rw [hw]
    split_ifs <;> rfl
  · next q hw =>
    have hhand : s.work.hand = none := by
      rw [hw]
      rfl
    split at hs
    · cases hs
      refine h.of_work (.of_hand ?_ rfl rfl rfl rfl) rfl rfl
      rw [hhand]
      cases q <;> rfl
    · next f l hq =>
      cases hs
      exact h.of_work (same_take hhand hq) rfl rfl
  · next q f hw =>
    have hhand : s.work.hand = some (q, f) := by
      rw [hw]
      rfl
    split_ifs at hs
    · cases hs
      exact h.of_work (.of_hand hhand.symm rfl rfl rfl rfl) rfl rfl
    · cases hs
      exact h.of_work (same_sentDone hhand) rfl rfl
  · next q f hw =>
    cases hs
    have hhand : s.work.hand = some (q, f) := by
      rw [hw]
      rfl
    exact h.of_work (same_putBack hhand) rfl rfl

/-- A flush that is not in its purges has passed no queue. -/
theorem not_past {pc : BtFlush} (h : ∀ n q, pc ≠ .purge n q) (q : TxQueue) (n : ℕ) :
    ¬ Past pc q n := by
  rintro ⟨q', hpc, -⟩
  exact h n q' hpc

theorem not_past_cmd (n m : ℕ) (q : TxQueue) : ¬ Past (.purge n .cmd) q m := by
  rintro ⟨q', hpc, hlt⟩
  cases hpc
  cases q <;> exact absurd hlt (Nat.not_lt_zero _)

/-- What a flush has passed once it finds a queue empty. -/
theorem Inv.passed (h : s.Inv) (hpc : s.flush k = .purge n q) (hq : s.txq q = [])
    (hg : ∀ f ∈ s.handOf q, n ≤ f) (hle : q'.idx ≤ q.idx) : ∀ f ∈ s.rest q', n ≤ f := by
  intro f hf
  by_cases hqq : q' = q
  · subst hqq
    unfold rest at hf
    rw [hq, List.append_nil] at hf
    exact hg f hf
  · have hlt : q'.idx < q.idx := by
      cases q' <;> cases q <;> first | exact absurd rfl hqq | exact Nat.lt_of_le_of_ne hle (by decide)
    exact h.past k q' n ⟨q, hpc, hlt⟩ f hf

theorem Inv.flushStep (h : s.Inv) (hg : s.HandEmpty (.flushing k)) (hs : s.flushStep k = some t) :
    t.Inv := by
  have hb := h.bounds.2 k
  unfold BtTx.flushStep at hs
  split at hs
  · cases hs
  · cases hs
    exact h.of_flush (.of_hand rfl rfl rfl rfl rfl) rfl rfl le_rfl
      fun q n hp => absurd hp (not_past (by simp) q n)
  · next n hpc =>
    rw [hpc] at hb
    cases hs
    refine h.of_flush (.of_hand rfl rfl rfl rfl rfl) rfl rfl ?_ ?_
    · split_ifs <;> exact hb
    · intro q m hp
      split_ifs at hp
      · exact absurd hp (not_past (by simp) q m)
      · exact absurd hp (not_past_cmd n m q)
  · next n hpc =>
    rw [hpc] at hb
    split_ifs at hs
    cases hs
    exact h.of_flush (.of_hand rfl rfl rfl rfl rfl) rfl rfl hb
      fun q m hp => absurd hp (not_past (by simp) q m)
  · next n hpc =>
    rw [hpc] at hb
    split_ifs at hs
    cases hs
    exact h.of_flush (.of_hand rfl rfl rfl rfl rfl) rfl rfl hb
      fun q m hp => absurd hp (not_past_cmd n m q)
  · next n q hpc =>
    rw [hpc] at hb
    split at hs
    · next f l hq =>
      cases hs
      exact h.purgeOne hq
    · next hq =>
      have hhand : ∀ f ∈ s.handOf q, n ≤ f := by
        have hpass : s.PassesHand (s.flush k) := hg
        rw [hpc] at hpass
        exact hpass hq
      split at hs
      · next q₁ hnext =>
        cases hs
        refine h.of_flush (.of_hand rfl rfl rfl rfl rfl) rfl rfl hb ?_
        rintro q' m ⟨q₂, hq₂, hlt⟩
        cases hq₂
        apply h.passed hpc hq hhand
        cases q <;> cases hnext <;> exact Nat.le_of_lt_succ hlt
      · next hnext =>
        cases hs
        have hall : ∀ q', ∀ f ∈ s.rest q', n ≤ f := by
          intro q'
          apply h.passed hpc hq hhand
          cases q <;> cases hnext
          cases q' <;> decide
        have hidle := h.of_flush (t := s.setFlush k .idle) (.of_hand rfl rfl rfl rfl rfl) rfl rfl
          (Nat.zero_le _) fun q n hp => absurd hp (not_past (by simp) q n)
        exact ⟨hidle.once, hidle.line, ⟨max_le hidle.bounds.1 hb, hidle.bounds.2⟩,
          fun q' f hf => max_le (h.flushed q' f hf) (hall q' f hf), hidle.past, hidle.notLate⟩

theorem Inv.step (h : s.Inv) {e : BtEvent} (hg : s.HandEmpty e) (hs : s.step e = some t) :
    t.Inv := by
  cases e with
  | sendFrame pktType =>
    cases hs
    unfold sendFrame
    split
    · exact h
    · exact h.accept _
  | scheduleWork =>
    simp only [BtTx.step] at hs
    split_ifs at hs
    cases hs
    exact h.of_work (.of_hand rfl rfl rfl rfl rfl) rfl rfl
  | startWork =>
    simp only [BtTx.step] at hs
    split_ifs at hs with hw
    cases hs
    refine h.of_work (.of_hand ?_ rfl rfl rfl rfl) rfl rfl
    rw [hw.1]
    rfl
  | work err => exact h.workStep hs
  | callFlush k =>
    simp only [BtTx.step] at hs
    split_ifs at hs
    cases hs
    exact h.of_flush (.of_hand rfl rfl rfl rfl rfl) rfl rfl le_rfl
      fun q n hp => absurd hp (not_past (by simp) q n)
  | flushing k => exact h.flushStep hg hs
  | assertEvent =>
    cases hs
    exact h.of_work (.of_hand rfl rfl rfl rfl rfl) rfl rfl
  | bspreadyEvent k =>
    simp only [BtTx.step] at hs
    split_ifs at hs
    · cases hs
      exact h.of_flush (.of_hand rfl rfl rfl rfl rfl) rfl rfl (Nat.zero_le _)
        fun q n hp => absurd hp (not_past (by simp) q n)
    · cases hs
      exact h

theorem Inv.handled (h : s.Inv) : s.Handled where
  once f hf := by
    rw [h.once, if_pos hf]
  inOrder q := (List.pairwise_append.mp (h.line q)).1
  notLate := h.notLate

/-- In runs in which no flush passes the queue of an earlier frame in the hand of the work, every
frame has one place, each queue is sent in order and nothing is sent after it was to be flushed. -/
theorem handled_of_handEmpty (pdata : Option BtPlatform) (s : BtTx)
    (h : Lib.Reach step HandEmpty (init pdata) s) : s.Handled := by
  have hinit : (init pdata).Inv :=
    ⟨fun f => rfl, fun q => .nil, ⟨le_rfl, fun k => le_rfl⟩, fun q f hf => absurd hf List.not_mem_nil,
      fun k q n hp => absurd hp (not_past (by simp [init]) q n), by simp [init]⟩
  exact (h.invariant hinit fun _ _ _ hi hg hs => hi.step hg hs).handled

/-- The first frame cannot be sent and is flushed, the second one is sent. -/
theorem handled_of_handEmpty_failed :
    ∃ s, Lib.Reach step HandEmpty (init (some ⟨1, 2⟩)) s ∧
      s.sent = [⟨.cmd, 1, 1⟩] ∧ s.purged = [0] ∧ s.Handled := by
  obtain ⟨s, hs, hp⟩ := Lib.exists_reach_of_exec step HandEmpty (init (some ⟨1, 2⟩))
    [.sendFrame HCI_COMMAND_PKT, .scheduleWork, .startWork, .work 0, .work 0, .work (- EIO), .work 0,
      .callFlush 0, .flushing 0, .flushing 0, .flushing 0, .flushing 0, .flushing 0,
      .sendFrame HCI_COMMAND_PKT, .scheduleWork, .startWork, .work 0, .work 0, .work 0]
    (fun s => s.sent == [⟨.cmd, 1, 1⟩] && s.purged == [0]) (by decide)
  simp only [Bool.and_eq_true, beq_iff_eq] at hp
  exact ⟨s, hs, hp.1, hp.2, handled_of_handEmpty (some ⟨1, 2⟩) s hs⟩

/-- The work runs and is not pending when the flush is called, so that the flush does not wait for
it; the frame in its hand is put back afterwards and sent by the next run. -/
theorem sendingFlush_not_handled :
    ¬ ∀ s, Lib.Reach step Lib.Free (init (some ⟨1, 2⟩)) s → s.Handled := by
  intro h
  obtain ⟨s, hs, hp⟩ := Lib.exists_reach_of_exec step Lib.Free (init (some ⟨1, 2⟩))
    [.sendFrame HCI_COMMAND_PKT, .scheduleWork, .startWork, .work 0, .work 0, .callFlush 0,
      .flushing 0, .flushing 0, .flushing 0, .flushing 0, .work (- EIO), .work 0,
      .sendFrame HCI_COMMAND_PKT, .scheduleWork, .startWork, .work 0, .work 0, .work 0]
    (fun s => s.sent == [⟨.cmd, 0, 1⟩]) (by decide)
  have hsent : s.sent = [⟨.cmd, 0, 1⟩] := beq_iff_eq.mp hp
  have hlate := (h s hs).notLate ⟨.cmd, 0, 1⟩ (by rw [hsent]; exact List.mem_cons_self)
  exact absurd hlate (by decide)

end BtTx
end Skw
