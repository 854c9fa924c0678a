import Skw.Sdio.Port

/-! A port and the packets that the chip numbers for it, some of which never get there. The first
version goes on where a missed packet is missed by a whole round of the numbers only. -/
namespace Skw

/-- A port with the number of packets sent to it so far. `behind` counts the packets sent from the
first one on that the port did not take, until it takes one again; `follows` says that the packet
before was received. -/
structure SeqLink where
  port : SdioPort
  sent : ℕ
  behind : ℕ
  follows : Bool

/-- `packet` carries the next number and `link` none. -/
inductive SeqEvent
  | packet (admaRxEnable : Bool) (data : List (BitVec 8))
  | lost
  | link (admaRxEnable : Bool) (data : List (BitVec 8))
  | read (c : ReadCall)
  | setState (st : PortState)

namespace SeqLink

/-- A port that was opened with the number that the chip sends next. -/
def opened (length : ℕ) (readBuffer : ℕ → BitVec 8) (n : Fin 65536) : SeqLink :=
  ⟨.opened length readBuffer n, n, 0, false⟩

/-- A packet for a port that is no log port. -/
def portPacket (ver : CpVer) (adma : Bool) (data : List (BitVec 8)) : PortPacket :=
  ⟨ver, adma, false, data⟩

/-- The packet is discarded before its number is looked at. -/
def Discards (s : SeqLink) (adma : Bool) : Prop := s.port.state = .idle ∧ adma = true

instance (s : SeqLink) (adma : Bool) : Decidable (s.Discards adma) :=
  inferInstanceAs (Decidable (_ ∧ _))

def step (ver : CpVer) (s : SeqLink) : SeqEvent → Option SeqLink
  | .packet adma data =>
    let k := portPacket ver adma data
    if 12 < data.length ∧ k.seqno = s.sent % 65536 then
      some
        { port := s.port.handlePacket k
          sent := s.sent + 1
          behind := if ¬ s.Discards adma ∧ s.behind % 65536 = 0 then 0 else s.behind + 1
          follows := true }
    else none
  | .lost => some { s with sent := s.sent + 1, behind := s.behind + 1, follows := false }
  | .link adma data =>
    if data.length ≤ 12 then
      some { s with port := s.port.handlePacket (portPacket ver adma data) }
    else none
  | .read c => (s.port.read c).map fun r => { s with port := r.1 }
  | .setState st => some { s with port := { s.port with state := st } }

/-- The packet follows one that was received, the port is open, and the ring has room for it. -/
def Due (ver : CpVer) (s : SeqLink) : SeqEvent → Prop
  | .packet adma data =>
    s.follows = true ∧ s.port.state ≠ .idle ∧
      (portPacket ver adma data).payload.length ≤ s.port.bufSize
  | _ => False

/-- A packet that is due is appended to the ring. -/
def Resumes (ver : CpVer) (s : SeqLink) (e : SeqEvent) (t : SeqLink) : Prop :=
  match e with
  | .packet adma data => s.Due ver (.packet adma data) →
    t.port.stored = s.port.stored ++ (portPacket ver adma data).payload
  | _ => True

/-- With the first version, no missed packet is outstanding where a packet is due, unless a whole
round of the numbers has passed since. -/
def InStep (ver : CpVer) (s : SeqLink) (e : SeqEvent) (_ : SeqLink) : Prop :=
  ver = .v10 → s.Due ver e → s.behind % 65536 = 0

instance (ver : CpVer) (s : SeqLink) : ∀ e, Decidable (s.Due ver e)
  | .packet .. => inferInstanceAs (Decidable (_ ∧ _ ∧ _))
  | .lost | .link .. | .read _ | .setState _ => inferInstanceAs (Decidable False)

instance (ver : CpVer) (s t : SeqLink) : ∀ e, Decidable (s.Resumes ver e t)
  | .packet .. => inferInstanceAs (Decidable (_ → _))
  | .lost | .link .. | .read _ | .setState _ => inferInstanceAs (Decidable True)

/-- The number that the first version expects is that of the first packet that it did not take. -/
def Expects (s : SeqLink) : Prop :=
  s.port.nextSeqno < 65536 ∧ (s.port.nextSeqno + s.behind) % 65536 = s.sent % 65536

variable {ver : CpVer} {s t : SeqLink} {e : SeqEvent} {adma : Bool} {data : List (BitVec 8)}

theorem storePayload_nextSeqno (p : SdioPort) (addr : List (BitVec 8)) :
    (p.storePayload addr).nextSeqno = p.nextSeqno := by
  unfold SdioPort.storePayload SdioPort.pauseIfFull SdioPort.writeRing
  split_ifs <;> rfl

theorem readData_nextSeqno (p : SdioPort) (size : ℕ) :
    (p.readData size).1.nextSeqno = p.nextSeqno := by
  unfold SdioPort.readData SdioPort.resumeIfDrained SdioPort.rewind SdioPort.wrapRp
    SdioPort.takeRing
  split_ifs <;> rfl

theorem readAsserted_nextSeqno {p : SdioPort} {c : ReadCall} {r : SdioPort × ℤ}
    (h : p.readAsserted c = some r) : r.1.nextSeqno = p.nextSeqno := by
  unfold SdioPort.readAsserted at h
  by_cases ha : p.state = .asst ∧ c.cpState ≠ 0
  · rw [if_pos ha] at h
    cases h
    rfl
  · rw [if_neg ha] at h
    cases h

theorem read_nextSeqno {p : SdioPort} {c : ReadCall} {r : SdioPort × ℤ} (h : p.read c = some r) :
    r.1.nextSeqno = p.nextSeqno := by
  unfold SdioPort.read at h
  split at h
  · exact readAsserted_nextSeqno h
  · split_ifs at h
    cases h
    rfl
  · cases h
    rfl
  · cases h
    rfl
  · split_ifs at h
    cases h
    rfl
  · exact readAsserted_nextSeqno h
  · split_ifs at h
    cases h
    exact readData_nextSeqno ..

/-- The number goes on with a packet that is taken, and with no other. -/
theorem handlePacket_nextSeqno (p : SdioPort) (k : PortPacket) (hk : 12 < k.data.length) :
    (p.handlePacket k).nextSeqno =
      if p.state = .idle ∧ k.admaRxEnable ∨ p.dropsLost k then p.nextSeqno
      else ((if k.ver = .v20 then k.seqno else p.nextSeqno) + 1) % 65536 := by
  unfold SdioPort.handlePacket
  by_cases hd : p.state = .idle ∧ k.admaRxEnable
  · rw [if_pos hd, if_pos (.inl hd)]
    rfl
  · rw [if_neg hd]
    by_cases hl : p.dropsLost k = true
    · rw [if_pos hl, if_pos (.inr hl)]
      rfl
    · rw [if_neg hl, if_neg (by tauto), storePayload_nextSeqno]
      unfold SdioPort.countSeqno
      rw [if_pos hk]
      rfl

/-- A packet without a number leaves the expected one alone. -/
theorem handlePacket_nextSeqno_of_link (p : SdioPort) (k : PortPacket) (hk : k.data.length ≤ 12) :
    (p.handlePacket k).nextSeqno = p.nextSeqno := by
  unfold SdioPort.handlePacket
  split_ifs
  · rfl
  · rfl
  · rw [storePayload_nextSeqno]
    unfold SdioPort.countSeqno
    rw [if_neg (by omega)]
    split_ifs <;> rfl

/-- The packet that a `packet` event stands for. -/
theorem step_packet (hs : step ver s (.packet adma data) = some t) :
    12 < data.length ∧ (portPacket ver adma data).seqno = s.sent % 65536 ∧
      t = { port := s.port.handlePacket (portPacket ver adma data)
            sent := s.sent + 1
            behind := if ¬ s.Discards adma ∧ s.behind % 65536 = 0 then 0 else s.behind + 1
            follows := true } := by
  simp only [step] at hs
  by_cases hk : 12 < data.length ∧ (portPacket ver adma data).seqno = s.sent % 65536
  · rw [if_pos hk] at hs
    exact ⟨hk.1, hk.2, (Option.some.inj hs).symm⟩
  · rw [if_neg hk] at hs
    cases hs

theorem Expects.dropsLost_iff (h : s.Expects) (hlen : 12 < data.length)
    (hseq : (portPacket .v10 adma data).seqno = s.sent % 65536) :
    s.port.dropsLost (portPacket .v10 adma data) = true ↔ s.behind % 65536 ≠ 0 := by
  obtain ⟨hlt, heq⟩ := h
  have hdata : 12 < (portPacket .v10 adma data).data.length := hlen
  have hdrop : s.port.dropsLost (portPacket .v10 adma data) = true ↔
      (portPacket .v10 adma data).seqno ≠ s.port.nextSeqno := by
    unfold SdioPort.dropsLost
    simp [hdata, show (portPacket .v10 adma data).isLogPort = false from rfl,
      show (portPacket .v10 adma data).ver = .v10 from rfl]
  rw [hdrop, hseq]
  omega

theorem Expects.packet (h : s.Expects) (hlen : 12 < data.length)
    (hseq : (portPacket .v10 adma data).seqno = s.sent % 65536) :
    Expects
      { port := s.port.handlePacket (portPacket .v10 adma data)
        sent := s.sent + 1
        behind := if ¬ s.Discards adma ∧ s.behind % 65536 = 0 then 0 else s.behind + 1
        follows := true } := by
  have hdrop := h.dropsLost_iff hlen hseq
  obtain ⟨hlt, heq⟩ := h
  have hnext := handlePacket_nextSeqno s.port (portPacket .v10 adma data) hlen
  have htaken : (s.port.state = .idle ∧ (portPacket .v10 adma data).admaRxEnable = true ∨
      s.port.dropsLost (portPacket .v10 adma data) = true) ↔
        ¬ (¬ s.Discards adma ∧ s.behind % 65536 = 0) := by
    rw [hdrop, not_and_or, not_not]
    exact Iff.rfl
  unfold Expects
  simp only
  by_cases hc : ¬ s.Discards adma ∧ s.behind % 65536 = 0
  · rw [if_neg (by rw [htaken]; exact not_not.mpr hc)] at hnext
    have hver : (portPacket .v10 adma data).ver ≠ .v20 := CpVer.noConfusion
    rw [hnext, if_pos hc, if_neg hver]
    omega
  · rw [if_pos (htaken.mpr hc)] at hnext
    rw [hnext, if_neg hc]
    omega

theorem Expects.step (h : s.Expects) (hs : step .v10 s e = some t) : t.Expects := by
  cases e with
  | packet adma data =>
    obtain ⟨hlen, hseq, rfl⟩ := step_packet hs
    exact h.packet hlen hseq
  | lost =>
    cases hs
    obtain ⟨hlt, heq⟩ := h
    unfold Expects
    simp only
    omega
  | link adma data =>
    simp only [SeqLink.step] at hs
    split_ifs at hs with hk
    cases hs
    unfold Expects
    rw [handlePacket_nextSeqno_of_link _ _ hk]
    exact h
  | read c =>
    obtain ⟨r, hr, rfl⟩ := Option.map_eq_some_iff.mp hs
    unfold Expects
    rw [read_nextSeqno hr]
    exact h
  | setState st =>
    cases hs
    exact h

/-- What is stored of a packet that fits an open port. -/
theorem handlePacket_stored (p : SdioPort) (k : PortPacket) (hk : 12 < k.data.length)
    (ho : p.state ≠ .idle) (hfit : k.payload.length ≤ p.bufSize) :
    (p.handlePacket k).stored = p.stored ++ k.payload ↔ p.dropsLost k = false := by
  have hne : k.payload ≠ [] := by
    unfold PortPacket.payload
    rw [if_pos hk.le]
    intro h
    have := List.drop_eq_nil_iff.mp h
    omega
  unfold SdioPort.handlePacket
  rw [if_neg fun h => ho h.1]
  by_cases hl : p.dropsLost k = true
  · rw [if_pos hl, hl]
    refine iff_of_false (fun h => hne ?_) (by decide)
    exact List.self_eq_append_right.mp h
  · rw [if_neg hl, Bool.eq_false_of_not_eq_true hl]
    refine iff_of_true ?_ rfl
    unfold SdioPort.storePayload SdioPort.countSeqno
    rw [if_pos hk]
    have hroom : ¬ SdioPort.bufSize { p.countPacket k with
        nextSeqno := ((if k.ver = .v20 then k.seqno else (p.countPacket k).nextSeqno) + 1) % 65536 } <
          k.payload.length := not_lt.mpr hfit
    rw [if_neg hroom, if_pos ⟨ho, hne⟩]
    unfold SdioPort.pauseIfFull SdioPort.writeRing
    split_ifs <;> rfl

/-- A due packet is appended if and only if no missed packet is outstanding. -/
theorem resumes_iff_inStep (h : ver = .v10 → s.Expects) (hs : step ver s e = some t) :
    s.Resumes ver e t ↔ s.InStep ver e t := by
  cases e with
  | packet adma data =>
    obtain ⟨hlen, hseq, rfl⟩ := step_packet hs
    unfold Resumes InStep
    constructor
    · rintro hr rfl hdue
      have := (handlePacket_stored s.port _ hlen hdue.2.1 hdue.2.2).mp (hr hdue)
      by_contra hb
      rw [((h rfl).dropsLost_iff hlen hseq).mpr hb] at this
      cases this
    · intro hin hdue
      refine (handlePacket_stored s.port _ hlen hdue.2.1 hdue.2.2).mpr ?_
      cases ver with
      | v10 =>
        have hb := hin rfl hdue
        by_contra hd
        exact ((h rfl).dropsLost_iff hlen hseq).mp (Bool.eq_true_of_not_eq_false hd) hb
      | v20 => rfl
  | lost | link _ _ | read _ | setState _ => exact iff_of_true trivial fun _ hd => hd.elim

/-- Along every run of sent and lost packets, reads and changes of the state, the due packets are
appended if and only if, with the first version, none of them is due while a missed packet is
outstanding. -/
theorem along_resumes_iff (ver : CpVer) (length : ℕ) (readBuffer : ℕ → BitVec 8) (n : Fin 65536)
    (es : List SeqEvent) :
    Lib.Along (step ver) (Resumes ver) (opened length readBuffer n) es ↔
      Lib.Along (step ver) (InStep ver) (opened length readBuffer n) es := by
  apply Lib.along_iff (I := fun s => ver = .v10 → s.Expects)
  · rintro s e t hi hs - rfl
    exact (hi rfl).step hs
  · exact fun s e t hi hs => resumes_iff_inStep hi hs
  · exact fun _ => ⟨n.isLt, rfl⟩

/-- A packet of one byte with a number. -/
def numbered (seqno : BitVec 8) : List (BitVec 8) := [0, 0, 0, 0, 0, 0, 0, 0, seqno, 0, 0, 0, 7]

/-- The second of four packets is lost. The last one follows the third, and only the second
version appends it. -/
theorem gap_not_resumed :
    (¬ Lib.Along (step .v10) (Resumes .v10) (opened 64 (fun _ => 0) 1)
      [.packet true (numbered 1), .lost, .packet true (numbered 3), .packet true (numbered 4)]) ∧
      Lib.Along (step .v20) (Resumes .v20) (opened 64 (fun _ => 0) 1)
        [.packet true (numbered 1), .lost, .packet true (numbered 3),
          .packet true (numbered 4)] := by
  decide

end SeqLink
end Skw
