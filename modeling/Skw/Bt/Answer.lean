import Skw.Bt.Nv
import Skw.Bt.Transmit

/-! How the commands of `btseekwave_download_nv` are answered. The receiver counts the packets that
it accepts, and a command has its answer as soon as the count is not 0, whatever the packets are. -/
namespace Skw

abbrev SKW_CHIPID_6160 : BitVec 16 := 0x0017
abbrev HCI_EVENT_PKT : ℕ := 4
abbrev HCI_EVENT_SKWLOG : ℕ := 7
abbrev HCI_COMMAND_COMPLETE_EVENT : BitVec 8 := 0x0E

/-- What the port hands to `btseekwave_rx_complete`: the size, negative after an exception of the
chip, and the memory from `buf` on. -/
structure BtPacket where
  size : ℤ
  buf : ℕ → BitVec 8

/-- The packet of these octets. -/
def BtPacket.ofBytes (l : List (BitVec 8)) : BtPacket := ⟨l.length, fun i => l.getD i 0⟩

/-! `hci_cmd_cmpl_evt_st`, and `hci_rev` of `struct hci_rp_read_local_version` behind it -/

def BtPacket.pktType (p : BtPacket) : ℕ := (p.buf 0).toNat

def BtPacket.evtOp (p : BtPacket) : BitVec 8 := p.buf 1

def BtPacket.cmdOp (p : BtPacket) : BitVec 16 := p.buf 5 ++ p.buf 4

def BtPacket.hciRev (p : BtPacket) : BitVec 16 := p.buf 9 ++ p.buf 8

/-- What the receiver works on; `host` is what `btseekwave_rx_packet` got. -/
structure BtInit where
  isInitMode : Bool
  evtRecv : BitVec 32
  chipVersion : BitVec 16
  host : List BtPacket

/-- The packet is one of those that the receiver looks at. -/
def BtPacket.Accepted (p : BtPacket) : Prop :=
  0 < p.size ∧ p.pktType ≠ HCI_EVENT_SKWLOG ∧
    (p.pktType = HCI_EVENT_PKT ∨ p.pktType = HCI_ACLDATA_PKT ∨ p.pktType = HCI_SCODATA_PKT)

instance BtPacket.decidableAccepted (p : BtPacket) : Decidable p.Accepted :=
  inferInstanceAs (Decidable (_ ∧ _))

namespace BtInit

/-- `btseekwave_rx_complete` -/
def rxComplete (s : BtInit) (p : BtPacket) : BtInit :=
  if ¬p.Accepted then s
  else if s.isInitMode then
    let version :=
      if p.pktType = HCI_EVENT_PKT ∧ p.evtOp = HCI_COMMAND_COMPLETE_EVENT ∧
          p.cmdOp = HCI_CMD_READ_LOCAL_VERSION_INFO then p.hciRev
      else s.chipVersion
    { s with chipVersion := version, evtRecv := s.evtRecv + 1 }
  else { s with host := s.host ++ [p] }

def receive (s : BtInit) (l : List BtPacket) : BtInit := l.foldl rxComplete s

end BtInit

/-- A round of the wait: what arrives until `wait_event_timeout` looks at the count for the last
time, the jiffies that it has left then, and what arrives until the count is read once more. -/
structure HciWait where
  waiting : List BtPacket
  left : ℕ
  late : List BtPacket

/-- What a call of `btseekwave_send_hci_command` meets: whether it gets its buffer, what arrives
before the count is reset and until the command is queued, what `btseekwave_send_frame` returns, and
the rounds of the wait. -/
structure HciCall where
  prepare : Bool
  early : List BtPacket
  unsent : List BtPacket
  sendFrame : ℤ
  waits : Fin 3 → HciWait

def waitEventTimeout (evtRecv : BitVec 32) (left : ℕ) : ℤ :=
  if evtRecv ≠ 0 then max 1 left else 0

/-- The rounds that are left. -/
def waitLoop : List HciWait → BtInit → ℤ × BtInit
  | [], s => (-1, s)
  | w :: ws, s =>
    let s := s.receive w.waiting
    let ret := waitEventTimeout s.evtRecv w.left
    if 0 < ret then (0, s)
    else
      let s := s.receive w.late
      if s.evtRecv ≠ 0 then (0, s)
      else if ret = 0 then (-1, s)
      else waitLoop ws s

/-- `btseekwave_send_hci_command` -/
def sendHciCommand (c : HciCall) (s : BtInit) : ℤ × BtInit :=
  let s := s.receive c.early
  if ¬c.prepare then (-1, s)
  else
    let s := { s with evtRecv := 0 }.receive c.unsent
    if c.sendFrame ≠ 0 then (-1, s)
    else waitLoop [c.waits 0, c.waits 1, c.waits 2] s

/-- What the calls of a download meet one after the other, and what arrives behind the first one
before `chip_version` is read. -/
structure NvWire where
  call : ℕ → HciCall
  version : List BtPacket

/-- The receiver when the `k`-th call begins. -/
def NvWire.state (w : NvWire) (s : BtInit) : ℕ → BtInit
  | 0 => { s with isInitMode := true, chipVersion := SKW_CHIPID_6160 }
  | k + 1 => (sendHciCommand (w.call k) (w.state s k)).2.receive (if k = 0 then w.version else [])

def NvWire.ret (w : NvWire) (s : BtInit) (k : ℕ) : ℤ := (sendHciCommand (w.call k) (w.state s k)).1

/-- The run meets what the packets make of the commands and of `chip_version`. -/
def NvEnv.wired (env : NvEnv) (w : NvWire) (s : BtInit) : NvEnv :=
  { env with
    chipVersion := (w.state s 1).chipVersion
    answer := fun k => decide (0 ≤ w.ret s k) }

/-- The packet is the event by which the chip reports that it has carried out a command. -/
def BtPacket.Completes (p : BtPacket) (opcode : BitVec 16) : Prop :=
  6 ≤ p.size ∧ p.pktType = HCI_EVENT_PKT ∧ p.evtOp = HCI_COMMAND_COMPLETE_EVENT ∧ p.cmdOp = opcode

instance BtPacket.decidableCompletes (p : BtPacket) (opcode : BitVec 16) :
    Decidable (p.Completes opcode) :=
  inferInstanceAs (Decidable (_ ∧ _))

/-- The number of packets that are counted. -/
def counted (l : List BtPacket) : ℕ := l.countP fun p => decide p.Accepted

namespace HciCall

/-- What arrives from the command's being queued until the call returns. -/
def answers (c : HciCall) : List BtPacket :=
  (c.waits 0).waiting ++
    if 2 ^ 32 ∣ counted (c.unsent ++ (c.waits 0).waiting) then (c.waits 0).late else []

/-- Nothing that arrives between the reset of the count and the return is counted, or so much that
the count is 0 again. -/
def Silent (c : HciCall) : Prop := 2 ^ 32 ∣ counted (c.unsent ++ c.answers)

/-- The chip's answer to the command is among what arrives. -/
def Answered (c : HciCall) (opcode : BitVec 16) : Prop := ∃ p ∈ c.answers, p.Completes opcode

/-- The command is not sent, or nothing comes that could be taken for its answer, or its answer
comes. -/
def Clear (c : HciCall) (opcode : BitVec 16) : Prop :=
  c.prepare = false ∨ c.sendFrame ≠ 0 ∨ c.Silent ∨ c.Answered opcode

end HciCall

/-- The states between the pages, at most `fuel` ones. -/
def NvEnv.paging (env : NvEnv) (fw : Firmware) (fuel : ℕ) : List NvState :=
  if env.Lite then Lib.passes (recordPass env fw) fuel (.init 4)
  else Lib.passes (blockPass env fw) fuel ((NvState.init 0).read 0x131 1)

/-- The `k`-th command of a download, which need not return. -/
inductive NvEnv.Sends (env : NvEnv) (k : ℕ) (c : HciCommand) : Prop
  | returned (fuel : ℕ) {r : NvRun} (hrun : downloadNv fuel env = some r)
      (hc : r.cmds[k]? = some c) : Sends env k c
  | paging {fuel : ℕ} {fw : Firmware} {u : NvState} (hans : env.answer 0)
      (hfile : env.file = .ok fw) (halloc : env.kzalloc) (hu : u ∈ env.paging fw fuel)
      (hc : u.cmds[k]? = some c) : Sends env k c

/-- Every command of a download for which `btseekwave_send_hci_command` returns 0 was answered. -/
def NvWire.Paired (w : NvWire) (s : BtInit) (env : NvEnv) : Prop :=
  ∀ k c, (env.wired w s).Sends k c → w.ret s k = 0 → (w.call k).Answered c.opcode

/-! ### The count -/

section
variable {s : BtInit} {p : BtPacket} {l m : List BtPacket} {c : HciCall}

theorem counted_append (l m : List BtPacket) : counted (l ++ m) = counted l + counted m :=
  List.countP_append

theorem isInitMode_rxComplete (s : BtInit) (p : BtPacket) :
    (s.rxComplete p).isInitMode = s.isInitMode := by
  unfold BtInit.rxComplete
  split_ifs <;> rfl

theorem isInitMode_receive (s : BtInit) (l : List BtPacket) :
    (s.receive l).isInitMode = s.isInitMode := by
  induction l generalizing s with
  | nil => rfl
  | cons p l ih => exact (ih (s.rxComplete p)).trans (isInitMode_rxComplete s p)

theorem evtRecv_rxComplete (hs : s.isInitMode) (p : BtPacket) :
    (s.rxComplete p).evtRecv = s.evtRecv + BitVec.ofNat 32 (counted [p]) := by
  by_cases hp : p.Accepted
  · have hone : counted [p] = 1 := by simp [counted, hp]
    unfold BtInit.rxComplete
    rw [if_neg (not_not.2 hp), if_pos hs, hone]
    rfl
  · have hzero : counted [p] = 0 := by simp [counted, hp]
    unfold BtInit.rxComplete
    rw [if_pos hp, hzero]
    exact (BitVec.add_zero _).symm

theorem evtRecv_receive (hs : s.isInitMode) (l : List BtPacket) :
    (s.receive l).evtRecv = s.evtRecv + BitVec.ofNat 32 (counted l) := by
  induction l generalizing s with
  | nil => exact (BitVec.add_zero _).symm
  | cons p l ih =>
    have hinit : (s.rxComplete p).isInitMode := (isInitMode_rxComplete s p).trans hs
    show ((s.rxComplete p).receive l).evtRecv = _
    rw [ih hinit, evtRecv_rxComplete hs, show p :: l = [p] ++ l from rfl, counted_append,
      BitVec.ofNat_add, BitVec.add_assoc]

/-- After the reset the count is 0 exactly if a multiple of `2 ^ 32` packets were counted. -/
theorem evtRecv_eq_zero_iff (hs : s.isInitMode) (h0 : s.evtRecv = 0) (l : List BtPacket) :
    (s.receive l).evtRecv = 0 ↔ 2 ^ 32 ∣ counted l := by
  have hsum : (s.receive l).evtRecv = BitVec.ofNat 32 (counted l) := by
    rw [evtRecv_receive hs, h0]
    exact BitVec.zero_add _
  rw [hsum, ← BitVec.toNat_inj, BitVec.toNat_ofNat, Nat.dvd_iff_mod_eq_zero]
  exact Iff.rfl

theorem waitEventTimeout_pos_iff (evt : BitVec 32) (left : ℕ) :
    0 < waitEventTimeout evt left ↔ evt ≠ 0 := by
  unfold waitEventTimeout
  split_ifs with h
  · exact iff_of_true (by omega) h
  · exact iff_of_false (lt_irrefl 0) h

/-- The wait has at most one round, since it ends when the time is over. -/
theorem waitLoop_eq_zero_iff (w : HciWait) (ws : List HciWait) (s : BtInit) :
    (waitLoop (w :: ws) s).1 = 0 ↔ (s.receive w.waiting).evtRecv ≠ 0 ∨
      (s.receive (w.waiting ++ w.late)).evtRecv ≠ 0 := by
  have happ : s.receive (w.waiting ++ w.late) = (s.receive w.waiting).receive w.late :=
    List.foldl_append
  have hpos := waitEventTimeout_pos_iff (s.receive w.waiting).evtRecv w.left
  rw [waitLoop, happ]
  dsimp only
  by_cases hw : (s.receive w.waiting).evtRecv = 0
  · have hzero : waitEventTimeout (s.receive w.waiting).evtRecv w.left = 0 :=
      if_neg (not_not.2 hw)
    rw [if_neg (mt hpos.1 (not_not.2 hw))]
    by_cases hl : ((s.receive w.waiting).receive w.late).evtRecv = 0
    · rw [if_neg (not_not.2 hl), if_pos hzero]
      exact iff_of_false (by simp) (not_or.2 ⟨not_not.2 hw, not_not.2 hl⟩)
    · rw [if_pos hl]
      exact iff_of_true rfl (.inr hl)
  · rw [if_pos (hpos.2 hw)]
    exact iff_of_true rfl (.inl hw)

/-- A call returns 0 where the command was queued and something was counted. -/
theorem sendHciCommand_eq_zero_iff (hs : s.isInitMode) : (sendHciCommand c s).1 = 0 ↔
    c.prepare = true ∧ c.sendFrame = 0 ∧ ¬c.Silent := by
  unfold sendHciCommand
  dsimp only
  cases hprep : c.prepare with
  | false => simp
  | true =>
    rw [if_neg (by simp)]
    by_cases hsend : c.sendFrame = 0
    · rw [if_neg (not_not.2 hsend)]
      let u : BtInit := { s.receive c.early with evtRecv := 0 }
      have hu : u.isInitMode := (isInitMode_receive s c.early).trans hs
      have happ (l : List BtPacket) : (u.receive c.unsent).receive l = u.receive (c.unsent ++ l) :=
        List.foldl_append.symm
      show (waitLoop _ (u.receive c.unsent)).1 = 0 ↔ _
      rw [waitLoop_eq_zero_iff, happ, happ, Ne, Ne, evtRecv_eq_zero_iff hu rfl,
        evtRecv_eq_zero_iff hu rfl]
      unfold HciCall.Silent HciCall.answers
      by_cases hd : 2 ^ 32 ∣ counted (c.unsent ++ (c.waits 0).waiting)
      · rw [if_pos hd]
        exact ⟨fun h => ⟨rfl, hsend, h.resolve_left (not_not.2 hd)⟩, fun h => .inr h.2.2⟩
      · rw [if_neg hd, List.append_nil]
        exact ⟨fun _ => ⟨rfl, hsend, hd⟩, fun _ => .inl hd⟩
    · rw [if_pos hsend]
      simp [hsend]

theorem sendHciCommand_isInitMode (c : HciCall) (s : BtInit) :
    (sendHciCommand c s).2.isInitMode = s.isInitMode := by
  have hloop (ws : List HciWait) (t : BtInit) : (waitLoop ws t).2.isInitMode = t.isInitMode := by
    induction ws generalizing t with
    | nil => rfl
    | cons w ws ih =>
      rw [waitLoop]
      dsimp only
      split_ifs
      · exact isInitMode_receive t _
      · rw [isInitMode_receive, isInitMode_receive]
      · rw [isInitMode_receive, isInitMode_receive]
      · rw [ih, isInitMode_receive, isInitMode_receive]
  have hearly := isInitMode_receive s c.early
  unfold sendHciCommand
  dsimp only
  split_ifs with hprep hsend
  · exact (isInitMode_receive _ _).trans hearly
  · exact ((hloop _ _).trans (isInitMode_receive _ _)).trans hearly
  · exact hearly

theorem NvWire.state_isInitMode (w : NvWire) (s : BtInit) (k : ℕ) : (w.state s k).isInitMode := by
  induction k with
  | zero => rfl
  | succ k ih =>
    rw [NvWire.state, isInitMode_receive, sendHciCommand_isInitMode]
    exact ih

/-- A command that the call reports as answered was answered exactly if the call is clear. -/
theorem ret_imp_answered_iff (w : NvWire) (s : BtInit) (k : ℕ) (opcode : BitVec 16) :
    (w.ret s k = 0 → (w.call k).Answered opcode) ↔ (w.call k).Clear opcode := by
  unfold NvWire.ret HciCall.Clear
  rw [sendHciCommand_eq_zero_iff (w.state_isInitMode s k)]
  cases (w.call k).prepare with
  | false => simp
  | true =>
    simp only [true_and, Bool.true_eq_false, false_or]
    tauto

end

/-- A call whose command is sent and that sees these packets while it waits. -/
def HciCall.seeing (l : List BtPacket) : HciCall where
  prepare := true
  early := []
  unsent := []
  sendFrame := 0
  waits _ := ⟨l, 100, []⟩

/-- The answer to the version command, and for the first page only a vendor event. -/
def vendorWire : NvWire where
  call k := .seeing [.ofBytes (if k = 0 then [4, 0x0E, 12, 1, 0x01, 0x10, 0, 8, 0x17, 0]
    else [4, 0xFF, 1, 0])]
  version := []

def BtInit.boot : BtInit := ⟨false, 0, 0, []⟩

/-- A file of one page. -/
def onePageEnv : NvEnv where
  chipVersion := 0
  requestFirmware _ := .ok ⟨fun _ => 0, 3, by decide⟩
  kzalloc := true
  bdAddr := none
  wakeupAdvInfo := none
  answer _ := false

end Skw
