import Skw.Sdio.Frag
import Mathlib.Data.List.Nodup

/-! Who has the fragments after a round. Each was freed or stored once, exactly if the read
succeeds and no scatter list overflows, or if there was no fragment: a failed read frees the scatter
list only, and what does not fit is neither stored nor freed. -/
namespace Skw
namespace FragSdio

/-- What is promised of the fragments of a round. -/
structure Owned (s : FragSdio) (r : RxRound) (t : FragSdio) : Prop where
  once : ∀ f < s.fragments r, t.copies f = 1
  slots : (t.stored.map fun e => (e.port, e.slot)).Nodup ∧ ∀ e ∈ t.stored, e.slot < MAX_SG_COUNT
  sgs : t.sgsFreed = if r.kzalloc then 1 else 0

/-- The port whose scatter list a packet is for. -/
def sgPort (s : FragSdio) (k : RxPacket) : Option ℕ :=
  if k.eof = false ∧ k.channel < s.cpVer.maxChNum ∧ k.data.length ≠ 0 ∧
      k.data.length ≤ s.cpVer.maxPacSize - 4 ∧ k.channel ≠ s.cpVer.loopcheckPort ∧
      (s.ports k.channel).ring.state ≠ .idle ∧ takesSg s.cpVer (s.ports k.channel) then
    some k.channel
  else none

/-- How many of the first `i` packets are for the scatter list of a port. -/
def wanted (s : FragSdio) (packet : ℕ → RxPacket) (p : ℕ) : ℕ → ℕ
  | 0 => 0
  | i + 1 => s.wanted packet p i + if s.sgPort (packet i) = some p then 1 else 0

/-- The scatter lists have room for the packets. -/
def Fits (s : FragSdio) (packet : ℕ → RxPacket) (i : ℕ) : Prop :=
  ∀ p, s.wanted packet p i = 0 ∨ (s.ports p).sgIndex + s.wanted packet p i ≤ MAX_SG_COUNT

/-- There is no fragment, or the read succeeds and the scatter lists have room for what it reads. -/
def Spared (s : FragSdio) (r : RxRound) : Prop :=
  s.fragments r = 0 ∨
    s.powerOff = false ∧ r.readRet = 0 ∧ s.Fits r.packet (s.fragments r)

/-- Steps that leave alone who has which fragment and where the next packets go. -/
structure Same (s t : FragSdio) : Prop where
  cpVer : t.cpVer = s.cpVer
  idle : ∀ p, (t.ports p).ring.state = .idle ↔ (s.ports p).ring.state = .idle
  takes : ∀ p, (t.ports p).sgRx = (s.ports p).sgRx ∧ (t.ports p).rxData = (s.ports p).rxData
  index : ∀ p, (t.ports p).sgIndex = (s.ports p).sgIndex
  logs : t.freed = s.freed ∧ t.stored = s.stored ∧ t.sgsFreed = s.sgsFreed

variable {s t u : FragSdio} {r : RxRound} {k : RxPacket} {packet : ℕ → RxPacket} {f i p q : ℕ}

theorem Same.refl (s : FragSdio) : Same s s :=
  ⟨rfl, fun _ => Iff.rfl, fun _ => ⟨rfl, rfl⟩, fun _ => rfl, rfl, rfl, rfl⟩

theorem Same.trans (h : Same s t) (h' : Same t u) : Same s u where
  cpVer := h'.cpVer.trans h.cpVer
  idle p := (h'.idle p).trans (h.idle p)
  takes p := ⟨(h'.takes p).1.trans (h.takes p).1, (h'.takes p).2.trans (h.takes p).2⟩
  index p := (h'.index p).trans (h.index p)
  logs := ⟨h'.logs.1.trans h.logs.1, h'.logs.2.1.trans h.logs.2.1, h'.logs.2.2.trans h.logs.2.2⟩

/-- Only the ring of one port changes. -/
theorem same_setRing {x : SdioPort} (hx : x.state = .idle ↔ (s.ports p).ring.state = .idle) :
    Same s (s.setRing p x) := by
  have hcase : ∀ j, (s.setRing p x).ports j = s.ports j ∨
      j = p ∧ (s.setRing p x).ports j = { s.ports p with ring := x } := by
    intro j
    by_cases hj : j = p
    · subst hj
      exact .inr ⟨rfl, Function.update_self ..⟩
    · exact .inl (Function.update_of_ne hj ..)
  refine ⟨rfl, fun j => ?_, fun j => ?_, fun j => ?_, rfl, rfl, rfl⟩
  · rcases hcase j with h | ⟨rfl, h⟩ <;> rw [h]
    exact hx
  · rcases hcase j with h | ⟨rfl, h⟩ <;> rw [h] <;> exact ⟨rfl, rfl⟩
  · rcases hcase j with h | ⟨rfl, h⟩ <;> rw [h]

theorem same_cpState (s : FragSdio) (v : ℕ) : Same s { s with cpState := v } :=
  ⟨rfl, fun _ => Iff.rfl, fun _ => ⟨rfl, rfl⟩, fun _ => rfl, rfl, rfl, rfl⟩

theorem assertRing_idle (ver : CpVer) (i : ℕ) (x : SdioPort) :
    (assertRing ver i x).state = .idle ↔ x.state = .idle := by
  unfold assertRing
  split_ifs with h
  · exact Iff.rfl
  · constructor
    · intro hi
      cases hi
    · exact fun hi => absurd (.inl hi) h

theorem same_assertPorts (s : FragSdio) : Same s s.assertPorts := by
  have hcase : ∀ j, s.assertPorts.ports j = s.ports j ∨
      s.assertPorts.ports j = { s.ports j with ring := assertRing s.cpVer j (s.ports j).ring } := by
    intro j
    by_cases hj : j < 5
    · exact .inr (if_pos hj)
    · exact .inl (if_neg hj)
  refine ⟨rfl, fun j => ?_, fun j => ?_, fun j => ?_, rfl, rfl, rfl⟩
  · rcases hcase j with h | h <;> rw [h]
    exact assertRing_idle ..
  · rcases hcase j with h | h <;> rw [h] <;> exact ⟨rfl, rfl⟩
  · rcases hcase j with h | h <;> rw [h]

theorem reopenRing_idle (x : SdioPort) : (reopenRing x).state = .idle ↔ x.state = .idle := by
  unfold reopenRing
  split_ifs with h
  · simp [h]
  · exact Iff.rfl

/-- A control message moves no fragment. -/
theorem same_control (s : FragSdio) (k : RxPacket) : Same s (s.control k) := by
  unfold control
  split_ifs
  · exact .refl s
  · exact .refl s
  · exact same_cpState s 1
  · exact .refl s
  · exact (same_assertPorts s).trans (same_cpState _ _)
  · exact .refl s
  · exact (same_setRing (reopenRing_idle _)).trans (same_cpState _ _)
  · exact .refl s

theorem same_countPacket (s : FragSdio) (k : RxPacket) : Same s (s.countPacket k) :=
  same_setRing Iff.rfl

theorem countSeqno_state (x : SdioPort) (k : PortPacket) : (x.countSeqno k).state = x.state := by
  unfold SdioPort.countSeqno
  split_ifs <;> rfl

theorem storePayload_state (x : SdioPort) (addr : List (BitVec 8)) :
    (x.storePayload addr).state = x.state := by
  unfold SdioPort.storePayload SdioPort.pauseIfFull SdioPort.writeRing
  split_ifs <;> rfl

/-- A packet for the ring leaves the state of its port. -/
theorem handlePacket_state (x : SdioPort) (k : PortPacket) : (x.handlePacket k).state = x.state := by
  unfold SdioPort.handlePacket
  split_ifs
  · rfl
  · rfl
  · rw [storePayload_state, countSeqno_state]
    rfl

theorem same_handleRing (s : FragSdio) (k : RxPacket) : Same s (s.handleRing k) := by
  unfold handleRing
  dsimp only
  split_ifs
  · exact same_setRing Iff.rfl
  · apply same_setRing
    rw [countSeqno_state]
    exact Iff.rfl
  · apply same_setRing
    rw [handlePacket_state]

/-- A packet that is for no scatter list is freed. -/
theorem parsePacket_none (h : s.sgPort k = none) :
    ∃ t, Same s t ∧ s.parsePacket f k = t.free f := by
  unfold parsePacket handlePacket
  by_cases hk : k.eof = false ∧ k.channel < s.cpVer.maxChNum ∧ k.data.length ≠ 0
  · rw [if_pos hk]
    split_ifs with hlen hch hloop hidle hsg
    · exact ⟨s, .refl s, rfl⟩
    · omega
    · exact ⟨_, (same_countPacket s k).trans (same_control _ k), rfl⟩
    · exact ⟨_, same_countPacket s k, rfl⟩
    · have hsome : s.sgPort k = some k.channel :=
        if_pos ⟨hk.1, hk.2.1, hk.2.2, Nat.not_lt.mp hlen, hloop, hidle, hsg⟩
      cases h.symm.trans hsome
    · exact ⟨_, same_handleRing s k, rfl⟩
  · rw [if_neg hk]
    exact ⟨s, .refl s, rfl⟩

/-- A packet that is for a scatter list is stored there or dropped. -/
theorem parsePacket_some (h : s.sgPort k = some q) :
    ∃ t, Same s t ∧ s.parsePacket f k = t.storeOrDrop q f := by
  unfold sgPort at h
  split_ifs at h with hk
  obtain ⟨heof, hch, hlen, hmax, hloop, hidle, hsg⟩ := hk
  cases h
  refine ⟨_, same_countPacket s k, ?_⟩
  unfold parsePacket handlePacket
  rw [if_pos ⟨heof, hch, hlen⟩, if_neg (Nat.not_lt.mpr hmax), if_neg (Nat.not_le.mpr hch),
    if_neg hloop, if_neg hidle, if_pos hsg]

/-- The same packets go to scatter lists. -/
theorem Same.sgPort (h : Same s t) (k : RxPacket) : t.sgPort k = s.sgPort k := by
  unfold FragSdio.sgPort takesSg
  simp only [h.cpVer, ne_eq, h.idle, (h.takes _).1, (h.takes _).2]

theorem count_push (l : List ℕ) (a b : ℕ) :
    (l ++ [a]).count b = l.count b + if b = a then 1 else 0 := by
  rw [List.count_append, List.count_singleton]
  by_cases h : b = a
  · simp [h]
  · simp [h, Ne.symm h]

theorem copies_free (s : FragSdio) (f i : ℕ) :
    (s.free f).copies i = s.copies i + if i = f then 1 else 0 := by
  have hfreed : (s.free f).freed = s.freed ++ [f] := rfl
  have hstored : (s.free f).stored = s.stored := rfl
  unfold copies
  rw [hfreed, hstored, count_push, Nat.add_right_comm]

theorem copies_store (s : FragSdio) (p f i : ℕ) :
    (s.store p f).copies i = s.copies i + if i = f then 1 else 0 := by
  have hfreed : (s.store p f).freed = s.freed := rfl
  have hstored : (s.store p f).stored = s.stored ++ [⟨p, (s.ports p).sgIndex, f⟩] := rfl
  unfold copies
  rw [hfreed, hstored, List.map_append, List.map_singleton, count_push, Nat.add_assoc]

theorem Same.copies (h : Same s t) (i : ℕ) : t.copies i = s.copies i := by
  unfold FragSdio.copies
  rw [h.logs.1, h.logs.2.1]

/-- Every slot of a scatter list that was filled in the round is below its index. -/
structure Slots (s : FragSdio) : Prop where
  nodup : (s.stored.map fun e => (e.port, e.slot)).Nodup
  lt : ∀ e ∈ s.stored, e.slot < MAX_SG_COUNT ∧ e.slot < (s.ports e.port).sgIndex

theorem Slots.same (h : s.Slots) (hs : Same s t) : t.Slots where
  nodup := by
    rw [hs.logs.2.1]
    exact h.nodup
  lt e he := by
    rw [hs.logs.2.1] at he
    rw [hs.index]
    exact h.lt e he

theorem index_store (s : FragSdio) (p f q : ℕ) : ((s.store p f).ports q).sgIndex =
    (s.ports q).sgIndex + if q = p then 1 else 0 := by
  change (Function.update s.ports p _ q).sgIndex = _
  by_cases hq : q = p
  · subst hq
    rw [Function.update_self, if_pos rfl]
  · rw [Function.update_of_ne hq, if_neg hq]
    rfl

theorem Slots.store (h : s.Slots) (hp : (s.ports p).sgIndex < MAX_SG_COUNT) :
    (s.store p f).Slots := by
  have hstored : (s.store p f).stored = s.stored ++ [⟨p, (s.ports p).sgIndex, f⟩] := rfl
  constructor
  · rw [hstored, List.map_append, List.map_singleton]
    refine List.nodup_append.mpr ⟨h.nodup, List.nodup_singleton _, ?_⟩
    rintro a ha b hb rfl
    obtain ⟨e, he, hk⟩ := List.mem_map.mp ha
    rw [List.mem_singleton] at hb
    rw [hb, Prod.mk.injEq] at hk
    have hlt := (h.lt e he).2
    rw [hk.1, hk.2] at hlt
    exact absurd hlt (Nat.lt_irrefl _)
  · intro e he
    rw [hstored] at he
    rw [index_store]
    rcases List.mem_append.mp he with he | he
    · have hlt := h.lt e he
      exact ⟨hlt.1, Nat.lt_add_right _ hlt.2⟩
    · rw [List.mem_singleton.mp he]
      exact ⟨hp, by simp⟩

theorem sgPort_store (s : FragSdio) (p f : ℕ) (k : RxPacket) :
    (s.store p f).sgPort k = s.sgPort k := by
  have hport : ∀ q, ((s.store p f).ports q).ring = (s.ports q).ring ∧
      ((s.store p f).ports q).sgRx = (s.ports q).sgRx ∧
      ((s.store p f).ports q).rxData = (s.ports q).rxData := by
    intro q
    change (Function.update s.ports p _ q).ring = _ ∧ (Function.update s.ports p _ q).sgRx = _ ∧
      (Function.update s.ports p _ q).rxData = _
    by_cases hq : q = p
    · subst hq
      rw [Function.update_self]
      exact ⟨rfl, rfl, rfl⟩
    · rw [Function.update_of_ne hq]
      exact ⟨rfl, rfl, rfl⟩
  have hver : (s.store p f).cpVer = s.cpVer := rfl
  unfold sgPort takesSg
  simp only [hver, (hport _).1, (hport _).2.1, (hport _).2.2]

/-- After `i` packets. -/
structure Parsed (s : FragSdio) (packet : ℕ → RxPacket) (i : ℕ) (t : FragSdio) : Prop where
  sgPort : ∀ k, t.sgPort k = s.sgPort k
  fresh : ∀ f, i ≤ f → t.copies f = 0
  once : (∀ f < i, t.copies f = 1) ↔ s.Fits packet i
  index : s.Fits packet i →
    ∀ p, (t.ports p).sgIndex = (s.ports p).sgIndex + s.wanted packet p i
  slots : t.Slots
  sgsFreed : t.sgsFreed = s.sgsFreed

/-- Room for one more packet is needed where it is for a scatter list. -/
theorem fits_succ_none (h : s.sgPort (packet i) = none) :
    s.Fits packet (i + 1) ↔ s.Fits packet i := by
  have hw : ∀ p, s.wanted packet p (i + 1) = s.wanted packet p i := by
    intro p
    change s.wanted packet p i + _ = _
    rw [if_neg (by simp [h])]
    rfl
  unfold Fits
  simp only [hw]

theorem wanted_succ_some (h : s.sgPort (packet i) = some q) (p : ℕ) :
    s.wanted packet p (i + 1) = s.wanted packet p i + if p = q then 1 else 0 := by
  change s.wanted packet p i + _ = _
  rw [h]
  simp only [Option.some.injEq, eq_comm]

theorem fits_succ_some (h : s.sgPort (packet i) = some q) : s.Fits packet (i + 1) ↔
    s.Fits packet i ∧ (s.ports q).sgIndex + s.wanted packet q i < MAX_SG_COUNT := by
  unfold Fits
  simp only [wanted_succ_some h]
  constructor
  · intro hf
    have hq := hf q
    rw [if_pos rfl] at hq
    refine ⟨fun p => ?_, by omega⟩
    have hp := hf p
    split_ifs at hp with hpq
    · subst hpq
      omega
    · exact hp
  · rintro ⟨hf, hq⟩ p
    split_ifs with hpq
    · subst hpq
      exact .inr hq
    · exact hf p

/-- What the next packet does to the fragments before it and to its own. -/
theorem once_succ (h : Parsed s packet i t) (hu : ∀ f < i, u.copies f = t.copies f) :
    (∀ f < i + 1, u.copies f = 1) ↔ s.Fits packet i ∧ u.copies i = 1 := by
  rw [← h.once]
  constructor
  · intro hall
    exact ⟨fun f hf => (hu f hf).symm.trans (hall f (Nat.lt_succ_of_lt hf)),
      hall i (Nat.lt_succ_self i)⟩
  · rintro ⟨hold, hnew⟩ f hf
    rcases Nat.lt_succ_iff_lt_or_eq.mp hf with hf | rfl
    · exact (hu f hf).trans (hold f hf)
    · exact hnew

theorem Parsed.free (h : Parsed s packet i t) (hk : s.sgPort (packet i) = none) (hu : Same t u) :
    Parsed s packet (i + 1) (u.free i) where
  sgPort k := (hu.sgPort k).trans (h.sgPort k)
  fresh f hf := by
    rw [copies_free, if_neg (by omega), hu.copies]
    exact h.fresh f (by omega)
  once := by
    rw [once_succ h fun f hf => ?_, fits_succ_none hk, copies_free, if_pos rfl, hu.copies,
      h.fresh i le_rfl]
    · exact and_iff_left rfl
    · rw [copies_free, if_neg (by omega), hu.copies]
      rfl
  index hf p := by
    rw [fits_succ_none hk] at hf
    have hw : s.wanted packet p (i + 1) = s.wanted packet p i := by
      change s.wanted packet p i + _ = _
      rw [if_neg (by simp [hk])]
      rfl
    rw [hw, ← h.index hf p]
    exact hu.index p
  slots := by
    have hslots := h.slots.same hu
    exact ⟨hslots.nodup, hslots.lt⟩
  sgsFreed := hu.logs.2.2.trans h.sgsFreed

theorem Parsed.store (h : Parsed s packet i t) (hk : s.sgPort (packet i) = some q) (hu : Same t u)
    (hroom : (u.ports q).sgIndex < MAX_SG_COUNT) : Parsed s packet (i + 1) (u.store q i) where
  sgPort k := (sgPort_store ..).trans ((hu.sgPort k).trans (h.sgPort k))
  fresh f hf := by
    rw [copies_store, if_neg (by omega), hu.copies]
    exact h.fresh f (by omega)
  once := by
    rw [once_succ h fun f hf => ?_, fits_succ_some hk, copies_store, if_pos rfl, hu.copies,
      h.fresh i le_rfl]
    · refine and_congr_right fun hf => ?_
      rw [← h.index hf q, ← hu.index]
      exact iff_of_true rfl hroom
    · rw [copies_store, if_neg (by omega), hu.copies]
      rfl
  index hf p := by
    rw [index_store, wanted_succ_some hk, hu.index, h.index ((fits_succ_some hk).mp hf).1 p,
      Nat.add_assoc]
  slots := (h.slots.same hu).store hroom
  sgsFreed := hu.logs.2.2.trans h.sgsFreed

/-- A packet that is dropped has no room. -/
theorem Parsed.drop (h : Parsed s packet i t) (hk : s.sgPort (packet i) = some q) (hu : Same t u)
    (hfull : MAX_SG_COUNT ≤ (u.ports q).sgIndex) : Parsed s packet (i + 1) u := by
  have hnot : ¬ s.Fits packet (i + 1) := by
    rw [fits_succ_some hk]
    rintro ⟨hf, hroom⟩
    rw [← h.index hf q, ← hu.index] at hroom
    exact absurd hroom (Nat.not_lt.mpr hfull)
  refine ⟨fun k => (hu.sgPort k).trans (h.sgPort k), fun f hf => ?_, ?_, fun hf => absurd hf hnot,
    h.slots.same hu, hu.logs.2.2.trans h.sgsFreed⟩
  · rw [hu.copies]
    exact h.fresh f (by omega)
  · refine iff_of_false (fun hall => ?_) hnot
    have hone := hall i (Nat.lt_succ_self i)
    rw [hu.copies, h.fresh i le_rfl] at hone
    cases hone

/-- By induction on the packets. -/
theorem parsed_admaParser (hc : ∀ f, s.copies f = 0) (hs : s.Slots) (packet : ℕ → RxPacket) (i : ℕ) :
    Parsed s packet i (s.admaParser packet i) := by
  induction i with
  | zero =>
    refine ⟨fun _ => rfl, fun f _ => hc f, ?_, fun _ _ => rfl, hs, rfl⟩
    exact iff_of_true (fun f hf => absurd hf (Nat.not_lt_zero f)) fun p => .inl rfl
  | succ i ih =>
    change Parsed s packet (i + 1) ((s.admaParser packet i).parsePacket i (packet i))
    cases hk : s.sgPort (packet i) with
    | none =>
      obtain ⟨u, hu, heq⟩ := parsePacket_none (f := i) ((ih.sgPort _).trans hk)
      rw [heq]
      exact ih.free hk hu
    | some q =>
      obtain ⟨u, hu, heq⟩ := parsePacket_some (f := i) ((ih.sgPort _).trans hk)
      rw [heq]
      unfold storeOrDrop
      split_ifs with hfull
      · exact ih.drop hk hu hfull
      · exact ih.store hk hu (Nat.not_le.mp hfull)

theorem fits_start (s : FragSdio) (packet : ℕ → RxPacket) (i : ℕ) :
    s.start.Fits packet i ↔ s.Fits packet i := by
  have hw : ∀ p, s.start.wanted packet p i = s.wanted packet p i := by
    intro p
    induction i with
    | zero => rfl
    | succ i ih => exact congrArg (· + _) ih
  unfold Fits
  simp only [hw]
  rfl

/-- Who has the fragments is settled when the packets are dispatched. -/
theorem owned_receive (s : FragSdio) (r : RxRound) :
    Owned s r (s.receive r) ↔ Owned s r (s.start.readPackets r) :=
  ⟨fun h => ⟨h.once, h.slots, h.sgs⟩, fun h => ⟨h.once, h.slots, h.sgs⟩⟩

/-- A round that gives up after the allocation has its fragments in no place. -/
theorem owned_of_no_copies (hc : ∀ f, t.copies f = 0) (hs : t.stored = [])
    (hsgs : t.sgsFreed = if r.kzalloc then 1 else 0) : Owned s r t ↔ s.fragments r = 0 := by
  constructor
  · intro h
    by_contra hne
    have hone := h.once 0 (Nat.pos_of_ne_zero hne)
    rw [hc] at hone
    cases hone
  · intro hzero
    refine ⟨fun f hf => ?_, ?_, hsgs⟩
    · rw [hzero] at hf
      exact absurd hf (Nat.not_lt_zero f)
    · rw [hs]
      exact ⟨List.nodup_nil, fun e he => absurd he List.not_mem_nil⟩

/-- Each fragment is freed or stored once, and the scatter list of the round freed once, exactly if
there is no fragment, or the read succeeds and the scatter lists of the ports have room for the
packets. -/
theorem owned_iff_spared (s : FragSdio) (r : RxRound) : Owned s r (s.receive r) ↔ s.Spared r := by
  rw [owned_receive]
  unfold readPackets
  have hfrag : s.start.fragments r = s.fragments r := rfl
  rw [hfrag]
  split_ifs with hk hn hpower hret
  · have hzero : s.fragments r = 0 := if_neg (by simp [hk])
    rw [owned_of_no_copies (fun _ => rfl) rfl (by rw [hk]; rfl)]
    exact iff_of_true hzero (.inl hzero)
  · rw [owned_of_no_copies (fun _ => rfl) rfl (by rw [Bool.eq_true_of_not_eq_false hk]; rfl)]
    exact iff_of_true hn (.inl hn)
  · rw [owned_of_no_copies (fun _ => rfl) rfl (by rw [Bool.eq_true_of_not_eq_false hk]; rfl)]
    refine iff_of_false hn (not_or.mpr ⟨hn, fun h => ?_⟩)
    cases hpower.symm.trans h.1
  · rw [owned_of_no_copies (fun _ => rfl) rfl (by rw [Bool.eq_true_of_not_eq_false hk]; rfl)]
    exact iff_of_false hn (not_or.mpr ⟨hn, fun h => hret h.2.1⟩)
  · have hparsed := parsed_admaParser (s := s.start) (fun _ => rfl)
      ⟨List.nodup_nil, fun e he => absurd he List.not_mem_nil⟩ r.packet (s.fragments r)
    have hfits := hparsed.once.trans (fits_start s r.packet (s.fragments r))
    constructor
    · intro h
      exact .inr ⟨Bool.eq_false_iff.mpr hpower, not_not.mp hret, hfits.mp h.once⟩
    · rintro (h | ⟨-, -, hroom⟩)
      · exact absurd h hn
      · refine ⟨hfits.mpr hroom, ⟨hparsed.slots.nodup, fun e he => (hparsed.slots.lt e he).1⟩, ?_⟩
        rw [Bool.eq_true_of_not_eq_false hk]
        exact congrArg (· + 1) hparsed.sgsFreed

/-- The read fails after a fragment has been allocated. -/
theorem failedRead_not_owned : ¬ ∀ s r, Owned s r (s.receive r) := by
  intro h
  have hone := (h (init .v10) ⟨true, fun _ => true, - EIO, fun _ => ⟨false, 0, []⟩, 0⟩).once 0
    (by decide)
  exact absurd hone (by decide)

end FragSdio
end Skw
