import Skw.Sdio.Port

/-! What `sdio_read` returns is what was stored, byte by byte in the same order. -/
namespace Skw
namespace SdioPort

/-- The indices are in the ring, and so was every access; what was stored and not yet read is what
the ring holds. -/
structure Stream (p : SdioPort) : Prop where
  wp : p.rxWp < p.length
  rp : p.rxRp < p.length
  bytes : p.stored = p.taken ++ Lib.ringLoad p.readBuffer p.length p.rxRp p.used
  inside : ∀ a ∈ p.touched, a.1 + a.2 ≤ p.length

/-- The chip is not paused when there is nothing to read. -/
structure Fifo (p : SdioPort) : Prop extends Stream p where
  resumed : p.rxWp = p.rxRp → p.rxFlowCtrl = false

/-- A packet is stored as a whole or changes nothing of the ring, and it changes nothing where it
does not fit. No other call stores. -/
def WholeOrNothing (p : SdioPort) (c : PortCall) (q : SdioPort) : Prop :=
  match c with
  | .handlePacket k =>
    (k.payload.length ≤ p.bufSize ∧ q.stored = p.stored ++ k.payload) ∨
      (q.readBuffer = p.readBuffer ∧ q.rxWp = p.rxWp ∧ q.rxRp = p.rxRp ∧ q.stored = p.stored)
  | _ => q.readBuffer = p.readBuffer ∧ q.stored = p.stored

variable {p q : SdioPort} {addr : List (BitVec 8)} {size : ℕ}

theorem used_eq (hw : p.rxWp < p.length) (hr : p.rxRp < p.length) :
    p.used = if p.rxRp ≤ p.rxWp then p.rxWp - p.rxRp else p.length + p.rxWp - p.rxRp := by
  unfold used
  rw [Lib.mod_eq_ite (show p.length + p.rxWp - p.rxRp < 2 * p.length by omega)]
  split_ifs <;> omega

theorem used_eq_zero_iff (hw : p.rxWp < p.length) (hr : p.rxRp < p.length) :
    p.used = 0 ↔ p.rxWp = p.rxRp := by
  rw [used_eq hw hr]
  split_ifs <;> omega

theorem Stream.used_lt (h : p.Stream) : p.used < p.length := by
  have := h.wp
  exact Nat.mod_lt _ (by omega)

/-- Only the ring and what is logged about it matter. -/
theorem Stream.congr (h : p.Stream) (hl : q.length = p.length) (hb : q.readBuffer = p.readBuffer)
    (hw : q.rxWp = p.rxWp) (hr : q.rxRp = p.rxRp) (hs : q.stored = p.stored)
    (ht : q.taken = p.taken) (hi : q.touched = p.touched) : q.Stream where
  wp := by
    rw [hw, hl]
    exact h.wp
  rp := by
    rw [hr, hl]
    exact h.rp
  bytes := by
    unfold used
    rw [hs, ht, hb, hl, hw, hr]
    exact h.bytes
  inside := by
    rw [hi, hl]
    exact h.inside

theorem writeRing_readBuffer (p : SdioPort) (addr : List (BitVec 8)) :
    (p.writeRing addr).readBuffer = Lib.ringStore p.readBuffer p.length p.rxWp addr := by
  unfold writeRing Lib.ringStore
  by_cases h : addr.length < p.length - p.rxWp
  · rw [if_pos h]
    exact congrArg readBuffer (if_pos h)
  · rw [if_neg h]
    exact congrArg readBuffer (if_neg h)

theorem writeRing_rxWp (addr : List (BitVec 8)) (hw : p.rxWp < p.length)
    (hl : addr.length < p.length) :
    (p.writeRing addr).rxWp = (p.rxWp + addr.length) % p.length := by
  rw [Lib.mod_eq_ite (by omega)]
  unfold writeRing
  have hend : p.wpToEnd = p.length - p.rxWp := rfl
  by_cases h : addr.length < p.wpToEnd
  · rw [if_pos h, if_pos (by omega)]
  · rw [if_neg h, if_neg (by omega)]
    show addr.length - p.wpToEnd = _
    omega

theorem writeRing_same (p : SdioPort) (addr : List (BitVec 8)) :
    (p.writeRing addr).length = p.length ∧ (p.writeRing addr).rxRp = p.rxRp ∧
      (p.writeRing addr).taken = p.taken ∧ (p.writeRing addr).stored = p.stored ++ addr ∧
      (p.writeRing addr).rxFlowCtrl = p.rxFlowCtrl := by
  unfold writeRing
  split_ifs <;> exact ⟨rfl, rfl, rfl, rfl, rfl⟩

/-- A packet that fits goes behind what the ring holds. -/
theorem Stream.writeRing (h : p.Stream) (hfit : addr.length ≤ p.bufSize) :
    (p.writeRing addr).Stream ∧ (p.writeRing addr).used = p.used + addr.length := by
  obtain ⟨hl, hr, ht, hs, -⟩ := p.writeRing_same addr
  have hwp := h.wp
  have hrp := h.rp
  have hlt := h.used_lt
  unfold bufSize at hfit
  have hw := writeRing_rxWp addr hwp (by omega)
  have hwlt : (p.writeRing addr).rxWp < (p.writeRing addr).length := by
    rw [hw, hl]
    exact Nat.mod_lt _ (by omega)
  have hused : (p.writeRing addr).used = p.used + addr.length := by
    have hu := used_eq hwp hrp
    rw [used_eq hwlt (by rw [hr, hl]; exact hrp), hr, hl, hw, Lib.mod_eq_ite (by omega)]
    split_ifs at hu ⊢ <;> omega
  have hstart : p.rxWp = (p.rxRp + p.used) % p.length := by
    have hu := used_eq hwp hrp
    rw [Lib.mod_eq_ite (by omega)]
    split_ifs at hu ⊢ <;> omega
  refine ⟨⟨hwlt, by rw [hr, hl]; exact hrp, ?_, ?_⟩, hused⟩
  · rw [hs, ht, hl, hr, hused, writeRing_readBuffer, Lib.ringLoad_add,
      Lib.ringLoad_ringStore_of_le hrp hstart (by omega) hlt, ← Lib.ringLoad_mod _ _ (_ + _),
      ← hstart, Lib.ringLoad_ringStore_self hwp (by omega), ← List.append_assoc, ← h.bytes]
  · rw [hl]
    unfold SdioPort.writeRing
    intro a ha
    have hend : p.wpToEnd = p.length - p.rxWp := rfl
    split_ifs at ha with hc
    · rcases List.mem_append.mp ha with ha | ha
      · exact h.inside a ha
      · rw [List.mem_singleton.mp ha]
        show p.rxWp + addr.length ≤ p.length
        omega
    · rcases List.mem_append.mp ha with ha | ha
      · exact h.inside a ha
      · rcases List.mem_pair.mp ha with rfl | rfl
        · show p.rxWp + p.wpToEnd ≤ p.length
          omega
        · show 0 + (addr.length - p.wpToEnd) ≤ p.length
          omega

theorem takeRing_same (p : SdioPort) (size : ℕ) :
    (p.takeRing size).wrapRp.length = p.length ∧ (p.takeRing size).wrapRp.rxWp = p.rxWp ∧
      (p.takeRing size).wrapRp.readBuffer = p.readBuffer ∧
      (p.takeRing size).wrapRp.stored = p.stored ∧
      (p.takeRing size).wrapRp.touched = (p.takeRing size).touched := by
  unfold takeRing wrapRp
  split_ifs <;> exact ⟨rfl, rfl, rfl, rfl, rfl⟩

theorem wrapRp_rxRp (p : SdioPort) :
    p.wrapRp.rxRp = if p.rxRp = p.length then 0 else p.rxRp := by
  unfold wrapRp
  by_cases h : p.rxRp = p.length
  · rw [if_pos h, if_pos h]
  · rw [if_neg h, if_neg h]

theorem takeRing_rxRp (size : ℕ) (hr : p.rxRp < p.length) (hl : size < p.length) :
    (p.takeRing size).wrapRp.rxRp = (p.rxRp + size) % p.length := by
  have hend : p.rpToEnd = p.length - p.rxRp := rfl
  rw [Lib.mod_eq_ite (by omega), wrapRp_rxRp]
  unfold takeRing
  by_cases h : p.rpToEnd < size
  · rw [if_pos h, if_neg (by show size - p.rpToEnd ≠ p.length; omega), if_neg (by omega)]
    show size - p.rpToEnd = _
    omega
  · rw [if_neg h]
    show (if p.rxRp + size = p.length then 0 else p.rxRp + size) = _
    by_cases he : p.rxRp + size = p.length
    · rw [if_pos he, if_neg (by omega)]
      omega
    · rw [if_neg he, if_pos (by omega)]

theorem takeRing_taken (hr : p.rxRp < p.length) (hl : size < p.length) :
    (p.takeRing size).wrapRp.taken =
      p.taken ++ Lib.ringLoad p.readBuffer p.length p.rxRp size := by
  have hend : p.rpToEnd = p.length - p.rxRp := rfl
  have hwrap : (p.takeRing size).wrapRp.taken = (p.takeRing size).taken := by
    unfold wrapRp
    split_ifs <;> rfl
  rw [hwrap]
  unfold takeRing
  by_cases h : p.rpToEnd < size
  · rw [if_pos h, ← Lib.load_append_load hr.le (by omega) hl.le]
    rfl
  · rw [if_neg h, ← Lib.load_eq_ringLoad (by omega)]

/-- A read takes the first bytes that the ring holds. -/
theorem Stream.takeRing (h : p.Stream) (hle : size ≤ p.used) :
    (p.takeRing size).wrapRp.Stream ∧ (p.takeRing size).wrapRp.used = p.used - size := by
  obtain ⟨hl, hw, hb, hs, hi⟩ := p.takeRing_same size
  have hwp := h.wp
  have hrp := h.rp
  have hlt := h.used_lt
  have hr := takeRing_rxRp size hrp (by omega)
  have hrlt : (p.takeRing size).wrapRp.rxRp < (p.takeRing size).wrapRp.length := by
    rw [hr, hl]
    exact Nat.mod_lt _ (by omega)
  have hused : (p.takeRing size).wrapRp.used = p.used - size := by
    have hu := used_eq hwp hrp
    rw [used_eq (by rw [hw, hl]; exact hwp) hrlt, hr, hl, hw, Lib.mod_eq_ite (by omega)]
    split_ifs at hu ⊢ <;> omega
  refine ⟨⟨by rw [hw, hl]; exact hwp, hrlt, ?_, ?_⟩, hused⟩
  · rw [hs, takeRing_taken hrp (by omega), hb, hl, hr, hused, Lib.ringLoad_mod, List.append_assoc,
      ← Lib.ringLoad_add, Nat.add_sub_cancel' hle]
    exact h.bytes
  · rw [hi, hl]
    unfold SdioPort.takeRing
    intro a ha
    have hend : p.rpToEnd = p.length - p.rxRp := rfl
    split_ifs at ha with hc
    · rcases List.mem_append.mp ha with ha | ha
      · exact h.inside a ha
      · rcases List.mem_pair.mp ha with rfl | rfl
        · show p.rxRp + p.rpToEnd ≤ p.length
          omega
        · show 0 + (size - p.rpToEnd) ≤ p.length
          omega
    · rcases List.mem_append.mp ha with ha | ha
      · exact h.inside a ha
      · rw [List.mem_singleton.mp ha]
        show p.rxRp + size ≤ p.length
        omega

/-- Indices that meet anywhere mean the same as both at the start. -/
theorem Stream.rewind (h : p.Stream) :
    p.rewind.Stream ∧ p.rewind.length = p.length ∧ p.rewind.used = p.used := by
  unfold SdioPort.rewind
  by_cases he : p.rxRp = p.rxWp
  · have hlt := h.wp
    have h0 : p.used = 0 := (used_eq_zero_iff h.wp h.rp).mpr he.symm
    have h0' : ({ p with rxRp := 0, rxWp := 0 } : SdioPort).used = 0 := by
      show (p.length + 0 - 0) % p.length = 0
      simp
    have hbytes := h.bytes
    rw [h0] at hbytes
    rw [if_pos he]
    refine ⟨⟨by show 0 < p.length; omega, by show 0 < p.length; omega, ?_, h.inside⟩, rfl,
      h0'.trans h0.symm⟩
    rw [h0']
    exact hbytes
  · rw [if_neg he]
    exact ⟨h, rfl, rfl⟩

/-- The chip is resumed when nothing is left. -/
theorem Stream.resumeIfDrained (h : p.Stream) (hl : 4 ≤ p.length) : p.resumeIfDrained.Fifo := by
  unfold SdioPort.resumeIfDrained
  by_cases hc : (p.rxFlowCtrl && decide (p.length * 2 / 3 < p.bufSize)) = true
  · rw [if_pos hc]
    exact ⟨h.congr rfl rfl rfl rfl rfl rfl rfl, fun _ => rfl⟩
  · rw [if_neg hc]
    refine ⟨h, fun he => ?_⟩
    have h0 : p.used = 0 := (used_eq_zero_iff h.wp h.rp).mpr he
    have hroom : p.length * 2 / 3 < p.bufSize := by
      unfold bufSize
      omega
    rw [decide_eq_true hroom, Bool.and_true] at hc
    exact Bool.eq_false_of_not_eq_true hc

/-- A packet that is stored leaves something to read. -/
theorem Fifo.storePayload (h : p.Fifo) (addr : List (BitVec 8)) :
    (p.storePayload addr).Fifo ∧ (p.storePayload addr).length = p.length ∧
      ((addr.length ≤ p.bufSize ∧ (p.storePayload addr).stored = p.stored ++ addr) ∨
        p.storePayload addr = p) := by
  unfold SdioPort.storePayload
  by_cases hfit : p.bufSize < addr.length
  · rw [if_pos hfit]
    exact ⟨h, rfl, .inr rfl⟩
  · rw [if_neg hfit]
    by_cases hst : p.state ≠ .idle ∧ addr ≠ []
    · rw [if_pos hst]
      obtain ⟨hs, hused⟩ := h.toStream.writeRing (Nat.not_lt.mp hfit)
      obtain ⟨hl, -, -, hstored, -⟩ := p.writeRing_same addr
      have hne : (p.writeRing addr).rxWp ≠ (p.writeRing addr).rxRp := by
        intro he
        have h0 := (used_eq_zero_iff hs.wp hs.rp).mpr he
        have hpos := List.length_pos_iff.mpr hst.2
        omega
      unfold pauseIfFull
      split_ifs with hc
      · exact ⟨⟨hs.congr rfl rfl rfl rfl rfl rfl rfl, fun he => absurd he hne⟩, hl,
          .inl ⟨Nat.not_lt.mp hfit, hstored⟩⟩
      · exact ⟨⟨hs, fun he => absurd he hne⟩, hl, .inl ⟨Nat.not_lt.mp hfit, hstored⟩⟩
    · rw [if_neg hst]
      exact ⟨h, rfl, .inr rfl⟩

theorem Fifo.countPacket (h : p.Fifo) (k : PortPacket) : (p.countPacket k).Fifo :=
  ⟨h.toStream.congr rfl rfl rfl rfl rfl rfl rfl, h.resumed⟩

theorem Fifo.countSeqno (h : p.Fifo) (k : PortPacket) : (p.countSeqno k).Fifo := by
  unfold SdioPort.countSeqno
  split_ifs <;> exact ⟨h.toStream.congr rfl rfl rfl rfl rfl rfl rfl, h.resumed⟩

theorem countSeqno_same (p : SdioPort) (k : PortPacket) :
    (p.countSeqno k).length = p.length ∧ (p.countSeqno k).bufSize = p.bufSize ∧
      (p.countSeqno k).readBuffer = p.readBuffer ∧ (p.countSeqno k).rxWp = p.rxWp ∧
      (p.countSeqno k).rxRp = p.rxRp ∧ (p.countSeqno k).stored = p.stored := by
  unfold SdioPort.countSeqno
  split_ifs <;> exact ⟨rfl, rfl, rfl, rfl, rfl, rfl⟩

theorem Fifo.handlePacket (h : p.Fifo) (k : PortPacket) :
    (p.handlePacket k).Fifo ∧ (p.handlePacket k).length = p.length ∧
      p.WholeOrNothing (.handlePacket k) (p.handlePacket k) := by
  have hc := h.countPacket k
  unfold SdioPort.handlePacket
  split_ifs
  · exact ⟨hc, rfl, .inr ⟨rfl, rfl, rfl, rfl⟩⟩
  · exact ⟨hc, rfl, .inr ⟨rfl, rfl, rfl, rfl⟩⟩
  · obtain ⟨hl, hbuf, hb, hw, hr, hs⟩ := (p.countPacket k).countSeqno_same k
    obtain ⟨hf, hlen, hcase⟩ := (hc.countSeqno k).storePayload k.payload
    refine ⟨hf, hlen.trans hl, ?_⟩
    rcases hcase with ⟨hfit, hstored⟩ | hsame
    · exact .inl ⟨hfit.trans_eq hbuf, hstored.trans (congrArg (· ++ k.payload) hs)⟩
    · rw [hsame]
      exact .inr ⟨hb, hw, hr, hs⟩

theorem Fifo.setState (h : p.Fifo) (st : PortState) : ({ p with state := st } : SdioPort).Fifo :=
  ⟨h.toStream.congr rfl rfl rfl rfl rfl rfl rfl, h.resumed⟩

theorem rewind_same (p : SdioPort) : p.rewind.readBuffer = p.readBuffer ∧
    p.rewind.stored = p.stored := by
  unfold rewind
  split_ifs <;> exact ⟨rfl, rfl⟩

theorem resumeIfDrained_same (p : SdioPort) : p.resumeIfDrained.length = p.length ∧
    p.resumeIfDrained.readBuffer = p.readBuffer ∧ p.resumeIfDrained.stored = p.stored := by
  unfold resumeIfDrained
  split_ifs <;> exact ⟨rfl, rfl, rfl⟩

/-- What a read leaves: the ring is a stream, and it stores nothing. -/
structure Reads (p q : SdioPort) : Prop where
  fifo : q.Fifo
  length : q.length = p.length
  readBuffer : q.readBuffer = p.readBuffer
  stored : q.stored = p.stored

theorem Fifo.readData (h : p.Fifo) (hl : 4 ≤ p.length) (size : ℕ) :
    Reads p (p.readData size).1 := by
  obtain ⟨htl, -, htb, hts, -⟩ := p.takeRing_same (min size p.used)
  obtain ⟨ht, -⟩ := h.toStream.takeRing (Nat.min_le_right size p.used)
  obtain ⟨hw, hwl, -⟩ := ht.rewind
  obtain ⟨hwb, hws⟩ := (p.takeRing (min size p.used)).wrapRp.rewind_same
  obtain ⟨hdl, hdb, hds⟩ := (p.takeRing (min size p.used)).wrapRp.rewind.resumeIfDrained_same
  have hlen := hwl.trans htl
  exact ⟨hw.resumeIfDrained (hl.trans_eq hlen.symm), hdl.trans hlen, hdb.trans (hwb.trans htb),
    hds.trans (hws.trans hts)⟩

theorem Fifo.readAsserted (h : p.Fifo) {c : ReadCall} {r : ℤ}
    (hr : p.readAsserted c = some (q, r)) : Reads p q := by
  unfold SdioPort.readAsserted at hr
  by_cases ha : p.state = .asst ∧ c.cpState ≠ 0
  · rw [if_pos ha] at hr
    cases hr
    exact ⟨h.setState _, rfl, rfl, rfl⟩
  · rw [if_neg ha] at hr
    cases hr

theorem Fifo.read (h : p.Fifo) (hl : 4 ≤ p.length) {c : ReadCall} {r : ℤ}
    (hr : p.read c = some (q, r)) : Reads p q := by
  unfold SdioPort.read at hr
  split at hr
  · exact h.readAsserted hr
  · split_ifs at hr
    cases hr
    exact ⟨h, rfl, rfl, rfl⟩
  · cases hr
    exact ⟨h, rfl, rfl, rfl⟩
  · cases hr
    exact ⟨h, rfl, rfl, rfl⟩
  · split_ifs at hr
    cases hr
    exact ⟨h.setState .idle, rfl, rfl, rfl⟩
  · exact h.readAsserted hr
  · split_ifs at hr
    cases hr
    exact h.readData hl c.size

theorem Fifo.step (h : p.Fifo) (hl : 4 ≤ p.length) {c : PortCall} (hs : p.step c = some q) :
    q.Fifo ∧ q.length = p.length ∧ p.WholeOrNothing c q := by
  cases c with
  | handlePacket k =>
    cases hs
    exact h.handlePacket k
  | read c =>
    obtain ⟨⟨q, r⟩, hr, rfl⟩ := Option.map_eq_some_iff.mp hs
    have hq := h.read hl hr
    exact ⟨hq.fifo, hq.length, hq.readBuffer, hq.stored⟩
  | setState st =>
    cases hs
    exact ⟨h.setState st, rfl, rfl, rfl⟩

/-- A packet of twelve header bytes and five for a ring of eight. -/
def fivePacket : PortPacket :=
  ⟨.v20, true, false, [0, 0, 0, 0, 0, 0, 0, 0, 0, 0, 0, 0, 1, 2, 3, 4, 5]⟩

def readCall (size : ℕ) (h : 0 < size) (ends : ReadExit) : ReadCall :=
  ⟨size, h, false, false, false, 0, ends⟩

/-- The second packet does not fit, the third one wraps around the end of the ring. -/
def wrappingRun : List PortCall :=
  [.handlePacket fivePacket, .handlePacket fivePacket, .read (readCall 4 (by decide) .data),
    .handlePacket fivePacket, .read (readCall 9 (by decide) .data)]

end SdioPort
end Skw
