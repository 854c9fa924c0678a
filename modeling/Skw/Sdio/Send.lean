import Skw.Ap.Beacon
import Skw.Lib.Buffer
import Skw.Lib.Fixed
import Skw.Sdio.Frag
import Skw.Sdio.Wake

/-! Sending on a port of the SDIO bus. A message that fits the port's buffer goes out in a frame and
waits for the acknowledgement of the chip; a larger one goes out as it is. -/
namespace Skw

/-- The fields of `sdio_port` that sending uses. -/
structure SendPort where
  channel : BitVec 32
  length : ℕ
  writeBuffer : Lib.Fixed (BitVec 8) length
  state : PortState
  txFlowCtrl : ℤ
  total : ℕ
  sentPacket : ℕ

/-- The word of a `skw_packet_header` or a `skw_packet2_header`. -/
def packetHeader (ver : CpVer) (channel : BitVec 8) (len : BitVec 16) (eof : Bool) : BitVec 32 :=
  let len : BitVec 32 := len.setWidth 32
  let len := match ver with
    | .v10 => len <<< 7
    | .v20 => len
  len ||| (BitVec.ofBool eof).setWidth 32 <<< 23 ||| channel.setWidth 32 <<< 24

/-- A message of `size` bytes in the frame of a channel. -/
def frame (ver : CpVer) (channel : BitVec 8) (msg : ℕ → BitVec 8) (size : ℕ) : List (BitVec 8) :=
  le32 (packetHeader ver channel (.ofNat 16 size) false) ++ Lib.load msg 0 size ++
    le32 (packetHeader ver 0 0 true)

/-- The body of `setup_sdio_packet` and `setup_sdio2_packet`, that differ in their header. -/
def setupPacket (ver : CpVer) {n : ℕ} (packet : Lib.Fixed (BitVec 8) n) (channel : BitVec 8)
    (msg : ℕ → BitVec 8) (size : ℕ) : Option (ℕ × Lib.Fixed (BitVec 8) n) := do
  let packet ← packet.write 0 (le32 (packetHeader ver channel (.ofNat 16 size) false))
  let packet ← packet.write 4 (Lib.load msg 0 size)
  let packet ← packet.write (4 + size / 4 * 4) (le32 (packetHeader ver 0 0 true))
  some (size + 8, packet)

/-- `setup_sdio_packet`. -/
def setupSdioPacket {n : ℕ} := @setupPacket .v10 n

/-- `setup_sdio2_packet`. -/
def setupSdio2Packet {n : ℕ} := @setupPacket .v20 n

/-- A port, the request map, and the transfers of a call with their results. -/
structure SendState where
  port : SendPort
  req : ReqMap
  transfers : List (List (BitVec 8) × ℤ)

/-- What one round of a sending loop meets: its wakeup, `cp_state` after it, the result of
`skw_sdio_sdma_write`, whether the port is in `PORT_STATE_ASST`, the wait for `tx_done`, and
`tx_flow_ctrl` after that. -/
structure Attempt where
  wake : Wakeup
  cpState : Bool
  write : ℤ
  asst : Bool
  wait : ℤ
  txFlowCtrl : ℤ
deriving DecidableEq

/-- The transfer succeeds, and its acknowledgement does not come in time. -/
def Attempt.Late (a : Attempt) : Prop :=
  a.write = 0 ∧ ¬a.asst ∧ a.wait = 0 ∧ a.txFlowCtrl ≠ 0

instance (a : Attempt) : Decidable a.Late := inferInstanceAs (Decidable (_ ∧ _))

/-- How a round ends: with a return, a `break`, or the next round, if there is one. -/
inductive AttemptEnd
  | leave (err : ℤ)
  | finish (ret : ℤ)
  | next (ret : ℤ)
deriving DecidableEq

/-- The result with which a round leaves the loop, if it does. -/
def AttemptEnd.ret : AttemptEnd → ℤ
  | leave err => err
  | finish ret => ret
  | next ret => ret

namespace SendState

def wakeup (s : SendState) (g : GpioPins) (w : Wakeup) (portno : ℕ) : SendState :=
  { s with req := (tryToWakeupModem g w portno s.req).2 }

def transfer (s : SendState) (bytes : List (BitVec 8)) (ret : ℤ) : SendState :=
  { s with transfers := s.transfers ++ [(bytes, ret)] }

/-- `total` and `sent_packet` after a message. -/
def counted (s : SendState) (count : ℕ) : SendState :=
  { s with
    port.total := s.port.total + count
    port.sentPacket := s.port.sentPacket + 1 }

def setFlow (s : SendState) (txFlowCtrl : ℤ) : SendState := { s with port.txFlowCtrl := txFlowCtrl }

def released (s : SendState) (portno : ℕ) : SendState := { s with req := s.req.release portno }

end SendState

/-- A round of the loop for framed messages. -/
def framedRound (g : GpioPins) (portno size : ℕ) (bytes : List (BitVec 8)) (a : Attempt)
    (s : SendState) : AttemptEnd × SendState :=
  let s := s.wakeup g a.wake portno
  if a.cpState then (.leave (- EIO), s)
  else
    let s := s.transfer bytes a.write
    if a.write = 0 then
      if a.Late then (.next a.wait, s.setFlow (a.txFlowCtrl - 1))
      else
        let flow := if a.asst then s.port.txFlowCtrl + 1 else a.txFlowCtrl
        (.finish size, (s.setFlow flow).counted bytes.length)
    else (.next a.write, s)

/-- A round of the loop for messages that do not fit the buffer. -/
def plainRound (g : GpioPins) (portno size : ℕ) (bytes : List (BitVec 8)) (a : Attempt)
    (s : SendState) : AttemptEnd × SendState :=
  let s := (s.wakeup g a.wake portno).transfer bytes a.write
  if a.write = 0 then (.finish size, s.counted bytes.length) else (.next a.write, s)

/-- The loop of two rounds; the request bit is cleared behind it. -/
def twoRounds (portno : ℕ) (round : Attempt → SendState → AttemptEnd × SendState) (a b : Attempt)
    (s : SendState) : ℤ × SendState :=
  match round a s with
  | (.leave err, s) => (err, s)
  | (.finish ret, s) => (ret, s.released portno)
  | (.next _, s) =>
    match round b s with
    | (.leave err, s) => (err, s)
    | (.finish ret, s) => (ret, s.released portno)
    | (.next ret, s) => (ret, s.released portno)

/-- The bus below the ports: the chip's version and the lines to it. -/
structure SdioLink where
  ver : CpVer
  pins : GpioPins
deriving DecidableEq

/-- The tests before a message is sent, with the error where one fails. -/
def sendRefused (l : SdioLink) (cpState : Bool) (portno : ℕ) (s : SendState) :
    Option (ℤ × SendState) :=
  if l.ver.maxChNum ≤ portno then some (-EINVAL, s)
  else if s.port.state = .idle ∨ cpState then some (- EIO, s)
  else if s.port.state = .clse then some (- EIO, { s with port.state := .idle })
  else none

/-- The message in the port's buffer, in the frame of the chip's version. -/
def framed (l : SdioLink) (msg : ℕ → BitVec 8) (count : ℕ) (s : SendState) :
    Option (List (BitVec 8) × SendState) := do
  let (count, packet) ←
    match l.ver with
    | .v10 => setupSdioPacket s.port.writeBuffer (s.port.channel.setWidth 8) msg count
    | .v20 => setupSdio2Packet s.port.writeBuffer (s.port.channel.setWidth 8) msg count
  let bytes ← packet.read 0 count
  some (bytes, { s with port.writeBuffer := packet })

/-- `send_data`, with `cp_state` at its start and what its two rounds meet. `none` is a write
outside the port's buffer. -/
def sendData (l : SdioLink) (cpState : Bool) (a b : Attempt) (portno : ℕ) (msg : ℕ → BitVec 8)
    (size : ℕ) (s : SendState) : Option (ℤ × SendState) :=
  if size = 0 then some (0, s)
  else
    match sendRefused l cpState portno s with
    | some r => some r
    | none =>
      let count := roundUp size 4
      if count + 8 < s.port.length then do
        let (bytes, s) ← framed l msg count s
        some (twoRounds portno (framedRound l.pins portno size bytes) a b s)
      else
        some (twoRounds portno (plainRound l.pins portno size (Lib.load msg 0 count)) a b s)

/-- What a call returns, and its transfers with their results. -/
def sendOutcome (r : ℤ × SendState) : ℤ × List (List (BitVec 8) × ℤ) := (r.1, r.2.transfers)

/-- What a caller may rely on: a message whose frame fits the buffer is sent in its frame, and the
result tells whether a transfer succeeded. -/
structure SendReported (ver : CpVer) (port : SendPort) (msg : ℕ → BitVec 8) (n : ℕ)
    (r : ℤ × List (List (BitVec 8) × ℤ)) : Prop where
  frames : roundUp n 4 + 8 ≤ port.length →
    ∀ t ∈ r.2, t.1 = frame ver (port.channel.setWidth 8) msg (roundUp n 4)
  sent : (∃ t ∈ r.2, t.2 = 0) → r.1 = n
  unsent : (∀ t ∈ r.2, t.2 ≠ 0) → r.1 < 0

/-- Behind a first transfer without acknowledgement comes a second one that succeeds, and a second
one that succeeds is acknowledged. -/
def Acknowledged (a b : Attempt) : Prop :=
  a.cpState = true ∨ ((a.Late → b.cpState = false ∧ b.write = 0) ∧
    (a.write ≠ 0 ∨ a.Late → b.cpState = false → ¬b.Late))

/-- The port takes messages. -/
structure SendAdmitted (l : SdioLink) (cpState : Bool) (portno : ℕ) (port : SendPort) : Prop where
  channel : portno < l.ver.maxChNum
  running : cpState = false
  opened : port.state ≠ .idle ∧ port.state ≠ .clse

section
variable {ver : CpVer} {l : SdioLink} {n size portno : ℕ} {channel : BitVec 8}
  {msg : ℕ → BitVec 8} {a b : Attempt} {s : SendState}

@[simp] theorem length_frame (ver : CpVer) (channel : BitVec 8) (msg : ℕ → BitVec 8) (size : ℕ) :
    (frame ver channel msg size).length = size + 8 := by
  simp [frame]
  omega

theorem four_dvd_roundUp (n : ℕ) : 4 ∣ roundUp n 4 := Dvd.intro_left _ rfl

/-- A frame that fits is built inside the buffer, at its start. -/
theorem exists_setupPacket (ver : CpVer) (packet : Lib.Fixed (BitVec 8) n) (channel : BitVec 8)
    (msg : ℕ → BitVec 8) (hd : 4 ∣ size) (hn : size + 8 ≤ n) :
    ∃ packet', setupPacket ver packet channel msg size = some (size + 8, packet') ∧
      packet'.read 0 (size + 8) = some (frame ver channel msg size) := by
  have hcells := packet.length_cells
  set head := le32 (packetHeader ver channel (.ofNat 16 size) false) with hhead
  set tail := le32 (packetHeader ver 0 0 true) with htail
  set body := Lib.load msg 0 size with hbody
  have hheadLen : head.length = 4 := rfl
  have htailLen : tail.length = 4 := rfl
  have hbodyLen : body.length = size := Lib.length_load msg 0 size
  -- the header, the message and the end marker replace what the buffer held there
  obtain ⟨p₁, h₁, hc₁⟩ := packet.write_zero (s := head) (by omega)
  have hold₁ : p₁.cells = head ++ (packet.cells.drop 4).take size ++
      (packet.cells.drop 4).drop size := by
    rw [hc₁, List.append_assoc, List.take_append_drop, hheadLen]
  obtain ⟨p₂, h₂, hc₂⟩ := p₁.write_of_cells (v := body) hold₁ (by
    simp only [List.length_take, List.length_drop]
    omega)
  have hold₂ : p₂.cells = head ++ body ++ ((packet.cells.drop 4).drop size).take 4 ++
      ((packet.cells.drop 4).drop size).drop 4 := by
    rw [hc₂, List.append_assoc _ (List.take _ _), List.take_append_drop]
  obtain ⟨p₃, h₃, hc₃⟩ := p₂.write_of_cells (v := tail) hold₂ (by
    simp only [List.length_take, List.length_drop]
    omega)
  refine ⟨p₃, ?_, ?_⟩
  · have hsize : 4 + size / 4 * 4 = (head ++ body).length := by
      rw [Nat.div_mul_cancel hd, List.length_append, hheadLen, hbodyLen]
    simp only [setupPacket, Option.bind_eq_bind, ← hhead, ← htail, ← hbody, h₁, Option.bind_some]
    rw [← hheadLen, h₂, Option.bind_some, hheadLen, hsize, h₃, Option.bind_some]
  · have hread := Lib.Fixed.read_of_cells (s := []) (t := head ++ body ++ tail) hc₃
    have hlen : (head ++ body ++ tail).length = size + 8 := length_frame ver channel msg size
    rwa [hlen] at hread

theorem exists_framed (l : SdioLink) (msg : ℕ → BitVec 8) (hd : 4 ∣ size)
    (hn : size + 8 ≤ s.port.length) :
    ∃ packet, framed l msg size s =
      some (frame l.ver (s.port.channel.setWidth 8) msg size,
        { s with port.writeBuffer := packet }) := by
  obtain ⟨packet, hsetup, hread⟩ :=
    exists_setupPacket l.ver s.port.writeBuffer (s.port.channel.setWidth 8) msg hd hn
  refine ⟨packet, ?_⟩
  cases hver : l.ver with
  | v10 =>
    rw [hver] at hsetup hread
    simp [framed, hver, setupSdioPacket, hsetup, hread]
  | v20 =>
    rw [hver] at hsetup hread
    simp [framed, hver, setupSdio2Packet, hsetup, hread]

/-- The rounds of a framed message, by what they meet: a crash, a failed transfer, a late one, an
acknowledged one. -/
theorem framedRound_end (g : GpioPins) (portno size : ℕ) (bytes : List (BitVec 8)) (a : Attempt)
    (s : SendState) :
    (framedRound g portno size bytes a s).1 =
        (if a.cpState then .leave (- EIO) else if a.write = 0 then
          if a.Late then .next 0 else .finish size else .next a.write) ∧
      (framedRound g portno size bytes a s).2.transfers =
        if a.cpState then s.transfers else s.transfers ++ [(bytes, a.write)] := by
  unfold framedRound
  split_ifs with hcp hw hl
  · exact ⟨rfl, rfl⟩
  · exact ⟨congrArg _ hl.2.2.1, rfl⟩
  · exact ⟨rfl, rfl⟩
  · exact ⟨rfl, rfl⟩
  · exact ⟨rfl, rfl⟩

theorem plainRound_end (g : GpioPins) (portno size : ℕ) (bytes : List (BitVec 8)) (a : Attempt)
    (s : SendState) :
    (plainRound g portno size bytes a s).1 =
        (if a.write = 0 then .finish size else .next a.write) ∧
      (plainRound g portno size bytes a s).2.transfers = s.transfers ++ [(bytes, a.write)] := by
  unfold plainRound
  split_ifs with hw
  · exact ⟨rfl, rfl⟩
  · exact ⟨rfl, rfl⟩

/-- The loop ends with its first round, unless that goes on. -/
theorem twoRounds_outcome (round : Attempt → SendState → AttemptEnd × SendState) :
    sendOutcome (twoRounds portno round a b s) =
      match (round a s).1 with
      | .next _ => ((round b (round a s).2).1.ret, (round b (round a s).2).2.transfers)
      | e => (e.ret, (round a s).2.transfers) := by
  unfold twoRounds
  obtain ⟨e, t⟩ := round a s
  cases e with
  | leave err => rfl
  | finish ret => rfl
  | next ret =>
    obtain ⟨e', t', hsecond⟩ : ∃ e' t', round b t = (e', t') := ⟨_, _, rfl⟩
    simp only [hsecond]
    cases e' with
    | leave err => rfl
    | finish ret => rfl
    | next ret => rfl

/-- What the loop for framed messages returns, with the transfers it made. -/
theorem twoRounds_framed (g : GpioPins) (portno size : ℕ) (bytes : List (BitVec 8))
    (a b : Attempt) (s : SendState) :
    sendOutcome (twoRounds portno (framedRound g portno size bytes) a b s) =
      if a.cpState then (- EIO, s.transfers)
      else if a.write = 0 ∧ ¬a.Late then ((size : ℤ), s.transfers ++ [(bytes, a.write)])
      else if b.cpState then (- EIO, s.transfers ++ [(bytes, a.write)])
      else
        (if b.write = 0 then if b.Late then 0 else (size : ℤ) else b.write,
          s.transfers ++ [(bytes, a.write)] ++ [(bytes, b.write)]) := by
  obtain ⟨hend, htransfers⟩ := framedRound_end g portno size bytes a s
  obtain ⟨hend', htransfers'⟩ :=
    framedRound_end g portno size bytes b (framedRound g portno size bytes a s).2
  rw [twoRounds_outcome, hend, hend', htransfers', htransfers]
  by_cases hcp : a.cpState = true
  · simp [hcp, AttemptEnd.ret]
  by_cases hacked : a.write = 0 ∧ ¬a.Late
  · simp [hcp, hacked, AttemptEnd.ret]
  have hnext : ∃ r, (if a.write = 0 then if a.Late then AttemptEnd.next 0 else .finish size
      else .next a.write) = .next r := by
    split_ifs with hw hl
    · exact ⟨_, rfl⟩
    · exact absurd ⟨hw, hl⟩ hacked
    · exact ⟨_, rfl⟩
  obtain ⟨r, hr⟩ := hnext
  rw [if_neg hcp, if_neg hcp, if_neg hcp, hr, if_neg hacked]
  split_ifs
  all_goals rfl

theorem twoRounds_plain (g : GpioPins) (portno size : ℕ) (bytes : List (BitVec 8))
    (a b : Attempt) (s : SendState) :
    sendOutcome (twoRounds portno (plainRound g portno size bytes) a b s) =
      if a.write = 0 then ((size : ℤ), s.transfers ++ [(bytes, a.write)])
      else
        (if b.write = 0 then (size : ℤ) else b.write,
          s.transfers ++ [(bytes, a.write)] ++ [(bytes, b.write)]) := by
  obtain ⟨hend, htransfers⟩ := plainRound_end g portno size bytes a s
  obtain ⟨hend', htransfers'⟩ :=
    plainRound_end g portno size bytes b (plainRound g portno size bytes a s).2
  rw [twoRounds_outcome, hend, hend', htransfers', htransfers]
  split_ifs
  all_goals rfl

theorem reported_nil {port : SendPort} {ret : ℤ} (h : ret < 0) :
    SendReported ver port msg n (ret, []) := by
  constructor
  · simp
  · simp
  · exact fun _ => h

theorem reported_one {port : SendPort} {bytes : List (BitVec 8)} {ret x : ℤ} :
    SendReported ver port msg n (ret, [(bytes, x)]) ↔
      (roundUp n 4 + 8 ≤ port.length →
        bytes = frame ver (port.channel.setWidth 8) msg (roundUp n 4)) ∧
      (x = 0 → ret = n) ∧ (x ≠ 0 → ret < 0) := by
  constructor
  · intro h
    exact ⟨by simpa using h.frames, by simpa using h.sent, by simpa using h.unsent⟩
  · rintro ⟨hf, hs, hu⟩
    exact ⟨by simpa using hf, by simpa using hs, by simpa using hu⟩

theorem reported_two {port : SendPort} {bytes : List (BitVec 8)} {ret x y : ℤ} :
    SendReported ver port msg n (ret, [(bytes, x), (bytes, y)]) ↔
      (roundUp n 4 + 8 ≤ port.length →
        bytes = frame ver (port.channel.setWidth 8) msg (roundUp n 4)) ∧
      (x = 0 ∨ y = 0 → ret = n) ∧ (x ≠ 0 ∧ y ≠ 0 → ret < 0) := by
  constructor
  · intro h
    exact ⟨by simpa using h.frames, by simpa using h.sent, by simpa using h.unsent⟩
  · rintro ⟨hf, hs, hu⟩
    exact ⟨by simpa using hf, by simpa using hs, by simpa using hu⟩

/-- A message in its frame is reported as it went out, when its transfers are acknowledged. -/
theorem reported_framed_iff (ver : CpVer) (port : SendPort) (msg : ℕ → BitVec 8) (g : GpioPins)
    (portno : ℕ) (a : Attempt) (hn : 1 ≤ n) (hb : b.write ≤ 0) (hs : s.transfers = []) :
    SendReported ver port msg n (sendOutcome (twoRounds portno (framedRound g portno n
        (frame ver (port.channel.setWidth 8) msg (roundUp n 4))) a b s)) ↔
      Acknowledged a b := by
  rw [twoRounds_framed, hs]
  unfold Acknowledged
  have hpos : (n : ℤ) ≠ 0 := by omega
  by_cases hcp : a.cpState = true
  · rw [if_pos hcp]
    exact iff_of_true (reported_nil (by decide)) (.inl hcp)
  rw [if_neg hcp]
  by_cases hacked : a.write = 0 ∧ ¬a.Late
  · rw [if_pos hacked, List.nil_append, reported_one]
    simp [hacked]
  rw [if_neg hacked]
  by_cases hcb : b.cpState = true
  · -- the crash is returned, also behind a transfer that succeeded
    rw [if_pos hcb, List.nil_append, reported_one]
    by_cases hl : a.Late
    · have hne : ¬(- EIO : ℤ) = n := by
        unfold EIO
        omega
      simp [hcp, hcb, hl, hl.1, hne]
    · have hw : a.write ≠ 0 := fun hw => hacked ⟨hw, hl⟩
      simp [hcp, hcb, hl, hw]
  rw [if_neg hcb, List.nil_append, List.cons_append, List.nil_append, reported_two]
  by_cases hw : b.write = 0
  · by_cases hl : b.Late
    · have hor : a.write ≠ 0 ∨ a.Late := by
        by_contra hno
        rw [not_or, not_not] at hno
        exact hacked hno
      simp [hcp, hcb, hw, hl, hor, hpos.symm]
    · simp [hcp, hcb, hw, hl]
  · have hneg : b.write < 0 := lt_of_le_of_ne hb hw
    have hlate : ¬b.Late := fun hl => hw hl.1
    by_cases hl : a.Late
    · have hne : ¬b.write = n := by omega
      simp [hcp, hcb, hw, hl, hl.1, hne]
    · have hwa : a.write ≠ 0 := fun hwa => hacked ⟨hwa, hl⟩
      simp [hcp, hcb, hw, hl, hwa, hneg, hlate]

/-- A message without frame is reported as it went out, but its transfers are no frames. -/
theorem reported_plain_iff (ver : CpVer) (port : SendPort) (msg : ℕ → BitVec 8) (g : GpioPins)
    (portno n : ℕ) (a : Attempt) (hb : b.write ≤ 0) (hs : s.transfers = []) :
    SendReported ver port msg n (sendOutcome (twoRounds portno (plainRound g portno n
        (Lib.load msg 0 (roundUp n 4))) a b s)) ↔
      port.length < roundUp n 4 + 8 := by
  have hframe : Lib.load msg 0 (roundUp n 4) ≠
      frame ver (port.channel.setWidth 8) msg (roundUp n 4) := by
    intro h
    have hlen := congrArg List.length h
    rw [Lib.length_load, length_frame] at hlen
    omega
  rw [twoRounds_plain, hs]
  by_cases hw : a.write = 0
  · rw [if_pos hw, List.nil_append, reported_one]
    simp [hframe, hw]
  rw [if_neg hw, List.nil_append, List.cons_append, List.nil_append, reported_two]
  by_cases hwb : b.write = 0
  · simp [hframe, hwb]
  · have hneg : b.write < 0 := lt_of_le_of_ne hb hwb
    simp [hframe, hw, hwb, hneg]

/-- The tests let through what `SendAdmitted` says, and answer everything else with an error. -/
theorem sendRefused_eq_none_iff {cpState : Bool} :
    sendRefused l cpState portno s = none ↔ SendAdmitted l cpState portno s.port := by
  unfold sendRefused
  constructor
  · intro h
    split_ifs at h with hch hidle hclse
    rw [not_or, Bool.not_eq_true] at hidle
    exact ⟨not_le.mp hch, hidle.2, hidle.1, hclse⟩
  · intro h
    have hidle : ¬(s.port.state = .idle ∨ cpState = true) := by
      rw [not_or, Bool.not_eq_true]
      exact ⟨h.opened.1, h.running⟩
    rw [if_neg (not_le.mpr h.channel), if_neg hidle, if_neg h.opened.2]

theorem outcome_of_refused {cpState : Bool} {r : ℤ × SendState}
    (h : sendRefused l cpState portno s = some r) : r.1 < 0 ∧ r.2.transfers = s.transfers := by
  have hio : - EIO < 0 := by decide
  have hinval : -EINVAL < 0 := by decide
  unfold sendRefused at h
  split_ifs at h
  all_goals rw [← Option.some.inj h]
  · exact ⟨hinval, rfl⟩
  · exact ⟨hio, rfl⟩
  · exact ⟨hio, rfl⟩

end

/-- A message is reported as it went out exactly when it is refused, or its frame does not just fill
the buffer and, where it goes out in its frame, the transfers are acknowledged. -/
theorem sendData_reported_iff (l : SdioLink) (cpState : Bool) (a b : Attempt) (portno : ℕ)
    (msg : ℕ → BitVec 8) {n : ℕ} (hn : 1 ≤ n) (port : SendPort) (req : ReqMap)
    (hb : b.write ≤ 0) :
    (∃ r, sendData l cpState a b portno msg n ⟨port, req, []⟩ = some r ∧
        SendReported l.ver port msg n (sendOutcome r)) ↔
      (SendAdmitted l cpState portno port → roundUp n 4 + 8 ≠ port.length ∧
        (roundUp n 4 + 8 < port.length → Acknowledged a b)) := by
  have hrefused : sendRefused l cpState portno ⟨port, req, []⟩ = none ↔
      SendAdmitted l cpState portno port := sendRefused_eq_none_iff
  rw [sendData, if_neg (by omega)]
  cases hr : sendRefused l cpState portno ⟨port, req, []⟩ with
  | some r =>
    have hno : ¬SendAdmitted l cpState portno port := by simpa [hr] using hrefused
    obtain ⟨hneg, htransfers⟩ := outcome_of_refused hr
    refine iff_of_true ⟨r, rfl, ?_⟩ fun had => absurd had hno
    rw [sendOutcome, htransfers]
    exact reported_nil hneg
  | none =>
    have had : SendAdmitted l cpState portno port := hrefused.mp hr
    by_cases hlt : roundUp n 4 + 8 < port.length
    · obtain ⟨packet, hframed⟩ := exists_framed (s := ⟨port, req, []⟩) l msg
        (four_dvd_roundUp n) hlt.le
      have hiff := reported_framed_iff (s := ⟨{ port with writeBuffer := packet }, req, []⟩) l.ver
        port msg l.pins portno a hn hb rfl
      simp only [hlt, if_true, hframed, Option.bind_eq_bind, Option.bind_some, Option.some.injEq,
        exists_eq_left']
      rw [hiff]
      simp [had, hlt.ne]
    · have hiff := reported_plain_iff (s := ⟨port, req, []⟩) l.ver port msg l.pins portno n a hb rfl
      simp only [hlt, if_false, Option.some.injEq, exists_eq_left']
      rw [hiff]
      simp only [had, false_implies, and_true, true_implies]
      omega

/-- A transfer that is acknowledged at once by a modem that is awake. -/
def Attempt.acked : Attempt := ⟨⟨true, true, 0, true, 0, true, none⟩, false, 0, false, 10, 0⟩

/-- One without acknowledgement. -/
def Attempt.late : Attempt := { Attempt.acked with wait := 0, txFlowCtrl := 1 }

def SendPort.small : SendPort := ⟨3, 32, .fill 32 0, .open, 0, 0, 0⟩

def SdioLink.v10 : SdioLink := ⟨.v10, ⟨1, 2⟩⟩

theorem three_bytes_reported_iff :
    (∃ r, sendData .v10 false .acked .acked 3 (fun _ => 7) 3 ⟨.small, ⟨0, []⟩, []⟩ = some r ∧
        SendReported .v10 .small (fun _ => 7) 3 (sendOutcome r)) ↔
      (SendAdmitted .v10 false 3 .small → roundUp 3 4 + 8 ≠ 32 ∧
        (roundUp 3 4 + 8 < 32 → Acknowledged .acked .acked)) :=
  sendData_reported_iff .v10 false .acked .acked 3 _ (by decide) .small _ (by decide)

/-- Two transfers that succeed and are acknowledged late give the result 0. -/
theorem late_twice_not_reported :
    ¬∃ r, sendData .v10 false .late .late 3 (fun _ => 7) 3 ⟨.small, ⟨0, []⟩, []⟩ = some r ∧
        SendReported .v10 .small (fun _ => 7) 3 (sendOutcome r) := by
  rintro ⟨r, hr, h⟩
  have hresult : (sendData .v10 false .late .late 3 (fun _ => 7) 3
      ⟨.small, ⟨0, []⟩, []⟩).map (fun r => (r.1, r.2.transfers.map Prod.snd)) =
        some (0, [0, 0]) := by decide
  rw [hr, Option.map_some, Option.some.injEq, Prod.mk.injEq] at hresult
  have hsent : ∃ t ∈ r.2.transfers, t.2 = 0 := by
    have hmem : (0 : ℤ) ∈ r.2.transfers.map Prod.snd := by simp [hresult.2]
    simpa using hmem
  exact absurd (hresult.1.symm.trans (h.sent hsent)) (by decide)

end Skw
