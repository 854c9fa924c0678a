import Skw.Cmd.Lock
import Skw.Lib.Buffer

/-! `skw_cmd_ack_handler` with the bytes that it reads and the reply buffer that it fills, called
as the receive path calls it: with any message of type `SKW_MSG_CMD_ACK`, whatever its length. -/
namespace Skw

/-- An skb handed to `skw_cmd_ack_handler`. Its memory goes on past its length, and the header is
read from it before the length is looked at. -/
structure AckMsg where
  data : ℕ → BitVec 8
  len : ℕ

namespace AckMsg

/-- `sizeof(struct skw_msg) + sizeof(u16)`. -/
abbrev hdrLen : ℕ := 8 + 2

def id (m : AckMsg) : ℕ := (m.data 1).toNat

def seq (m : AckMsg) : BitVec 16 := m.data 3 ++ m.data 2

def status (m : AckMsg) : BitVec 16 := m.data 9 ++ m.data 8

/-- The message carries the id and the seq of the command. -/
def Answers (m : AckMsg) (c : Cmd) : Prop := m.id = c.id ∧ m.seq = c.seq

instance (m : AckMsg) (c : Cmd) : Decidable (m.Answers c) := inferInstanceAs (Decidable (_ ∧ _))

/-- Too short for header and status word, or not for the command. -/
def Malformed (m : AckMsg) (c : Cmd) : Prop := m.len < hdrLen ∨ ¬ m.Answers c

/-- What the steps of the slot know of the message. -/
def toAck (m : AckMsg) (call : ℕ) : Ack where
  sent := ⟨call, m.id, m.seq⟩
  status := m.status
  short := m.len < hdrLen

end AckMsg

namespace CmdSys
variable {s t : CmdSys} {e : CmdStep} {a : Ack} {k : ℕ} {pc : CallPc}

/-- Until a callback is set, nothing was handed over and nothing can be. -/
def Silent (s : CmdSys) : Prop :=
  s.cmd.callback = .null → s.cmd.xmit = false ∧ s.tx = .idle ∧ s.handed = [] ∧
    ∀ k, s.pc k ≠ .armed ∧ s.pc k ≠ .tryArmed

theorem Silent.goto (h : s.Silent) (hpc : s.cmd.callback = .null → pc ≠ .armed ∧ pc ≠ .tryArmed) :
    (s.goto k pc).Silent := by
  intro hcb
  obtain ⟨hx, ht, hh, hp⟩ := h hcb
  refine ⟨hx, ht, hh, fun j => ?_⟩
  rcases eq_or_ne j k with rfl | hne
  · simpa using hpc hcb
  · simpa [hne] using hp j

theorem Silent.of_same (h : s.Silent) (hcb : t.cmd.callback = s.cmd.callback)
    (hx : t.cmd.xmit = true → s.cmd.xmit = true) (ht : t.tx = s.tx) (hh : t.handed = s.handed)
    (hp : t.pc = s.pc) : t.Silent := by
  intro hnull
  obtain ⟨hx', ht', hh', hp'⟩ := h (hcb.symm.trans hnull)
  refine ⟨?_, ht.trans ht', hh.trans hh', hp ▸ hp'⟩
  rw [hx'] at hx
  simpa using hx

private theorem Silent.stepCall (h : s.Silent) (hs : s.stepCall e = some t) : t.Silent := by
  cases e <;> simp only [CmdSys.stepCall] at hs
  case setCallback | trySetCallback =>
    split_ifs at hs
    cases hs
    intro hcb
    cases hcb
  case setXmit k | trySetXmit k =>
    split_ifs at hs with hpc
    cases hs
    intro hcb
    have hk := (h hcb).2.2.2
    simp [hk] at hpc
  case xmitTimeout | wake | timeout | giveUp | out | trySend | tryAddTimer =>
    split_ifs at hs <;> cases hs <;>
      exact Silent.goto (h.of_same rfl id rfl rfl rfl) (fun _ => by simp)
  case up | tryUp =>
    split at hs <;> cases hs
    exact Silent.goto (h.of_same rfl id rfl rfl rfl) (fun _ => by simp)
  case down =>
    split at hs
    · split_ifs at hs
      cases hs
      exact Silent.goto (h.of_same rfl id rfl rfl rfl) (fun _ => by simp)
    · cases hs
  case tryAllowed =>
    split at hs
    · cases hs
      exact h.goto fun _ => by split_ifs <;> simp
    · cases hs
  case setCmd | trySetCmd =>
    split at hs
    · cases hs
      split_ifs
      · exact h.goto fun _ => by simp
      · exact Silent.goto (h.of_same rfl (by simp [fill, Cmd.setCmd]) rfl rfl rfl)
          (fun _ => by simp)
    · cases hs
  all_goals cases hs

private theorem Silent.runCallback (h : s.Silent) (hs : s.runCallback = some t) : t.Silent := by
  unfold CmdSys.runCallback at hs
  split at hs <;> cases hs <;> exact h.of_same rfl id rfl rfl rfl

private theorem Silent.stepWork (h : s.Silent) (hs : s.stepWork e = some t) : t.Silent := by
  cases e <;> simp only [CmdSys.stepWork] at hs
  case txTake =>
    split_ifs at hs with hx
    cases hs
    intro hcb
    simp [(h hcb).1] at hx
  case txXmit | txAbort | txNoAck | txDone =>
    split at hs
    · next htx =>
      cases hs
      intro hcb
      have hnull : s.cmd.callback = .null := by
        refine Eq.trans ?_ hcb
        first | rfl | (split_ifs <;> rfl) | (unfold abortCmd; split_ifs <;> rfl)
      rw [(h hnull).2.1] at htx
      cases htx
    · cases hs
  case txCallback =>
    split at hs
    · next htx =>
      have hidle : { s with tx := .idle }.Silent := fun hcb => by
        rw [(h hcb).2.1] at htx
        cases htx
      exact hidle.runCallback hs
    · cases hs
  case abort =>
    cases hs
    unfold abortCmd
    split_ifs
    · exact h.of_same rfl id rfl rfl rfl
    · exact h
  case abortCallback =>
    split_ifs at hs
    have hsame : { s with aborts := s.aborts - 1 }.Silent := h.of_same rfl id rfl rfl rfl
    exact hsame.runCallback hs
  case ackCallback =>
    split at hs
    · have hsame : { s with ack := .idle }.Silent := h.of_same rfl id rfl rfl rfl
      exact hsame.runCallback hs
    · cases hs
  case ackCompare =>
    split_ifs at hs <;> cases hs <;> exact h.of_same rfl id rfl rfl rfl
  case setFlags =>
    cases hs
    exact h.of_same rfl id rfl rfl rfl
  case ackTest | ackStatus | timerExpire | timeoutFn | timeoutUp | unlockStart | unlockDelTimer |
      unlockUp =>
    split at hs <;> cases hs
    exact h.of_same rfl id rfl rfl rfl
  all_goals cases hs

/-- Once a command was handed over, the slot has a callback to call. -/
theorem callback_ne_null_of_handed {flags : SkwFlags} {cmd : Cmd} {G : CmdSys → CmdStep → Prop}
    (h : Lib.Reach CmdSys.step G (init flags cmd) s) (hh : s.handed ≠ []) :
    s.cmd.callback ≠ .null := by
  have hsil : s.Silent := h.invariant (fun _ => ⟨rfl, rfl, rfl, fun _ => by simp [init]⟩)
    fun u e v hu _ hv => (step_cases hv).elim hu.stepCall hu.stepWork
  exact fun hcb => hh (hsil hcb).2.2.1

theorem step_ackCompare (hin : a.sent ∈ s.handed) (hidle : s.ack = .idle)
    (hans : a.sent.id = s.cmd.id ∧ a.sent.seq = s.cmd.seq) :
    s.step (.ackCompare a) = some { s with ack := .matched a s.cmd.call } := by
  unfold step stepCall stepWork
  simp [hin, hidle, hans]

theorem runCallback_frame (s : CmdSys) (ack : AckPc) (accepted : List Ack) :
    { s with ack := ack, accepted := accepted }.runCallback =
      s.runCallback.map fun u => { u with ack := ack, accepted := accepted } := by
  unfold runCallback
  cases s.cmd.callback <;> rfl

end CmdSys

/-- The command slot with `skw->cmd.arg`, the memory it points to or NULL, and `arg_size`. -/
structure AckSys where
  sys : CmdSys
  arg : Option (ℕ → BitVec 8)
  argSize : BitVec 16

namespace AckSys

def setAcked (s : AckSys) : AckSys :=
  { s with sys := { s.sys with cmd := { s.sys.cmd with acked := true } } }

/-- The copies of the status and of the payload. -/
def copyReply (s : AckSys) (m : AckMsg) : AckSys :=
  { s with
    sys := { s.sys with cmd := { s.sys.cmd with status := m.status } }
    arg := s.arg.map fun buf =>
      Lib.store buf 0 (Lib.load m.data AckMsg.hdrLen (min (m.len - AckMsg.hdrLen) s.argSize.toNat)) }

/-- `skw_cmd_ack_handler`; there is no result where it calls through a NULL callback. -/
def cmdAckHandler (s : AckSys) (m : AckMsg) : Option (ℤ × AckSys) :=
  if ¬ m.Answers s.sys.cmd then some (-EINVAL, s)
  else if s.sys.cmd.acked then some (-EINVAL, s)
  -- `test_and_set_bit` has set ACKED by now
  else if m.len < AckMsg.hdrLen then some (-EINVAL, s.setAcked)
  else
    let s := s.setAcked.copyReply m
    s.sys.runCallback.map fun sys => (0, { s with sys := sys })

def step (s : AckSys) (m : AckMsg) : Option AckSys := (s.cmdAckHandler m).map Prod.snd

/-- A command waits for its ack: nothing has acknowledged, aborted or finished it. -/
structure InFlight (s : AckSys) : Prop where
  acked : s.sys.cmd.acked = false
  done : s.sys.cmd.done = false
  callback : s.sys.cmd.callback ≠ .null

/-- What the callback does: it wakes the waiting caller, or schedules the work that unlocks. -/
def Notified (s : AckSys) : Prop :=
  match s.sys.cmd.callback with
  | .null => False
  | .xmitTimeoutCb => s.sys.cmd.done = true
  | .trySendCb => s.sys.unlockPending ≠ none

/-- The handler takes `m` as the ack of the command: its status, and of its payload no more than
fits the reply buffer. -/
structure Completes (s : AckSys) (m : AckMsg) (t : AckSys) : Prop where
  handled : s.cmdAckHandler m = some (0, t)
  acked : t.sys.cmd.acked = true
  status : t.sys.cmd.status = m.status
  arg : ∃ n ≤ s.argSize.toNat, AckMsg.hdrLen + n ≤ m.len ∧
    t.arg = s.arg.map fun buf => Lib.store buf 0 (Lib.load m.data AckMsg.hdrLen n)
  notified : t.Notified

/-- The messages leave the command as it is, and a proper ack after them completes it. -/
structure Harmless (s : AckSys) (bad : List AckMsg) : Prop where
  unchanged : Lib.exec step s bad = some s
  completes : ∀ good : AckMsg, good.Answers s.sys.cmd → AckMsg.hdrLen ≤ good.len →
    ∃ t u, Lib.exec step s bad = some t ∧ t.Completes good u

variable {s t : AckSys} {m : AckMsg}

theorem setAcked_of_acked (h : s.sys.cmd.acked = true) : s.setAcked = s := by
  unfold setAcked
  rw [← h]

/-- The handler does what the steps of the slot do, one after the other, for the ack that the
message is. -/
theorem exec_of_step {call : ℕ} (hin : ⟨call, m.id, m.seq⟩ ∈ s.sys.handed)
    (hidle : s.sys.ack = .idle) (h : s.step m = some t) :
    ∃ es u, Lib.exec CmdSys.step s.sys es = some u ∧
      t.sys = { u with accepted := s.sys.accepted } := by
  obtain ⟨r, hr, rfl⟩ := Option.map_eq_some_iff.mp h
  have hcmp (hm : m.Answers s.sys.cmd) := CmdSys.step_ackCompare (a := m.toAck call) hin hidle hm
  have htest : CmdSys.step { s.sys with ack := .matched (m.toAck call) s.sys.cmd.call } .ackTest =
      some { s.setAcked.sys with
        ack := if s.sys.cmd.acked || (m.toAck call).short then .idle
          else .accepted (m.toAck call) s.sys.cmd.call } := rfl
  unfold cmdAckHandler at hr
  split_ifs at hr with hm hacked hshort
  · cases hr
    rw [hacked, Bool.true_or, if_pos rfl, setAcked_of_acked hacked] at htest
    refine ⟨[.ackCompare (m.toAck call), .ackTest], { s.sys with ack := .idle }, ?_, ?_⟩
    · rw [Lib.exec, hcmp hm, Option.bind_some, Lib.exec, htest]
      rfl
    · rw [← hidle]
  · cases hr
    have hs : (m.toAck call).short = true := decide_eq_true hshort
    rw [hs, Bool.or_true, if_pos rfl] at htest
    refine ⟨[.ackCompare (m.toAck call), .ackTest], { s.setAcked.sys with ack := .idle }, ?_, ?_⟩
    · rw [Lib.exec, hcmp hm, Option.bind_some, Lib.exec, htest]
      rfl
    · rw [← hidle]
      rfl
  · obtain ⟨u, hu, rfl⟩ := Option.map_eq_some_iff.mp hr
    have hs : (m.toAck call).short = false := decide_eq_false hshort
    rw [Bool.eq_false_of_not_eq_true hacked, hs, Bool.false_or,
      if_neg Bool.false_ne_true] at htest
    have hcb := CmdSys.runCallback_frame (s.setAcked.copyReply m).sys .idle
      (s.sys.accepted ++ [m.toAck call])
    rw [hu, Option.map_some] at hcb
    refine ⟨[.ackCompare (m.toAck call), .ackTest, .ackStatus, .ackCallback],
      { u with ack := .idle, accepted := s.sys.accepted ++ [m.toAck call] }, ?_, ?_⟩
    · rw [Lib.exec, hcmp hm, Option.bind_some, Lib.exec, htest, Option.bind_some]
      change (CmdSys.runCallback _).bind (Lib.exec CmdSys.step · []) = _
      exact (congrArg (Option.bind · _) hcb).trans rfl
    · have hack : u.ack = .idle := by
        unfold CmdSys.runCallback at hu
        split at hu <;> cases hu <;> exact hidle
      have haccepted : u.accepted = s.sys.accepted := by
        unfold CmdSys.runCallback at hu
        split at hu <;> cases hu <;> rfl
      rw [← hack, ← haccepted]
  · cases hr
    exact ⟨[], s.sys, by simp [Lib.exec], rfl⟩

/-- A command that was handed over and neither acknowledged nor finished since is in flight. -/
theorem inFlight_of_reach {flags : SkwFlags} {cmd : Cmd} {G : CmdSys → CmdStep → Prop}
    (h : Lib.Reach CmdSys.step G (.init flags cmd) s.sys) (hh : s.sys.handed ≠ [])
    (ha : s.sys.cmd.acked = false) (hd : s.sys.cmd.done = false) : s.InFlight :=
  ⟨ha, hd, CmdSys.callback_ne_null_of_handed h hh⟩

/-- An ack that arrives in time is taken. -/
theorem InFlight.completes (h : s.InFlight) (hm : m.Answers s.sys.cmd)
    (hlen : AckMsg.hdrLen ≤ m.len) : ∃ t, s.Completes m t := by
  have hshort : ¬ m.len < AckMsg.hdrLen := by omega
  have harg : ∃ n ≤ s.argSize.toNat, AckMsg.hdrLen + n ≤ m.len ∧ (s.setAcked.copyReply m).arg =
      s.arg.map fun buf => Lib.store buf 0 (Lib.load m.data AckMsg.hdrLen n) := by
    refine ⟨min (m.len - AckMsg.hdrLen) s.argSize.toNat, Nat.min_le_right _ _, ?_, rfl⟩
    omega
  cases hcb : s.sys.cmd.callback with
  | null => exact absurd hcb h.callback
  | xmitTimeoutCb =>
    have hrun : s.cmdAckHandler m = some (0, { s.setAcked.copyReply m with
        sys := { (s.setAcked.copyReply m).sys with
          cmd := { (s.setAcked.copyReply m).sys.cmd with done := true } } }) := by
      simp [cmdAckHandler, hm, h.acked, hshort, CmdSys.runCallback, setAcked, copyReply, hcb]
    refine ⟨_, hrun, rfl, rfl, harg, ?_⟩
    simp [Notified, setAcked, copyReply, hcb]
  | trySendCb =>
    have hrun : s.cmdAckHandler m = some (0, { s.setAcked.copyReply m with
        sys := { (s.setAcked.copyReply m).sys with
          unlockPending := some (s.sys.unlockPending.getD s.sys.cmd.call) } }) := by
      simp [cmdAckHandler, hm, h.acked, hshort, CmdSys.runCallback, setAcked, copyReply, hcb]
    refine ⟨_, hrun, rfl, rfl, harg, ?_⟩
    simp [Notified, setAcked, copyReply, hcb]

/-- A malformed message changes ACKED at most, and that when it answers the command. -/
theorem step_malformed (h : m.Malformed s.sys.cmd) :
    s.step m = some (if m.Answers s.sys.cmd then s.setAcked else s) := by
  unfold step cmdAckHandler
  by_cases hm : m.Answers s.sys.cmd
  · have hshort : m.len < AckMsg.hdrLen := h.resolve_right (not_not_intro hm)
    cases ha : s.sys.cmd.acked with
    | false => simp [hm, hshort]
    | true => simp [hm, setAcked_of_acked ha]
  · simp [hm]

@[simp] theorem answers_setAcked : m.Answers s.setAcked.sys.cmd ↔ m.Answers s.sys.cmd := Iff.rfl

@[simp] theorem malformed_setAcked : m.Malformed s.setAcked.sys.cmd ↔ m.Malformed s.sys.cmd :=
  Iff.rfl

/-- Malformed messages together change no more than one of them. -/
theorem exec_malformed {bad : List AckMsg} (h : ∀ m ∈ bad, m.Malformed s.sys.cmd) :
    Lib.exec step s bad =
      some (if ∃ m ∈ bad, m.Answers s.sys.cmd then s.setAcked else s) := by
  induction bad generalizing s with
  | nil => simp [Lib.exec]
  | cons m bad ih =>
    have htail : ∀ m ∈ bad, m.Malformed s.sys.cmd := fun m hm => h m (List.mem_cons_of_mem _ hm)
    rw [Lib.exec, step_malformed (h m List.mem_cons_self), Option.bind_some]
    by_cases hm : m.Answers s.sys.cmd
    · rw [if_pos hm, ih (by simpa using htail)]
      have hset : s.setAcked.setAcked = s.setAcked := setAcked_of_acked rfl
      simp [hm, hset]
    · rw [if_neg hm, ih htail]
      simp [hm]

/-- The messages that cannot hold header and status are harmless as long as none of them answers
the command: ACKED is taken before the length is looked at. -/
theorem harmless_iff (s : AckSys) (h : s.InFlight) (bad : List AckMsg)
    (hbad : ∀ m ∈ bad, m.Malformed s.sys.cmd) :
    s.Harmless bad ↔ ∀ m ∈ bad, ¬ m.Answers s.sys.cmd := by
  have hrun := exec_malformed hbad
  constructor
  · intro hh m hm hans
    have hset : s.setAcked = s := by
      have := hrun.symm.trans hh.unchanged
      rw [if_pos ⟨m, hm, hans⟩] at this
      exact Option.some.inj this
    have hacked : s.setAcked.sys.cmd.acked = true := by simp [setAcked]
    rw [hset, h.acked] at hacked
    cases hacked
  · intro hnone
    have hsame : Lib.exec step s bad = some s := by
      rw [hrun, if_neg]
      rintro ⟨m, hm, hans⟩
      exact hnone m hm hans
    refine ⟨hsame, fun good hgood hlen => ?_⟩
    obtain ⟨u, hu⟩ := h.completes hgood hlen
    exact ⟨s, u, hsame, hu⟩

/-- A message of these bytes, in memory that is zero after them. -/
def msgOf (bytes : List (BitVec 8)) : AckMsg := ⟨fun i => bytes.getD i 0, bytes.length⟩

/-- A call for `SKW_CMD_GET_INFO` whose message, of seq 1, was handed over. -/
def getInfoRun : List CmdStep :=
  [.xmitTimeout 0 ⟨0, none, SKW_CMD_GET_INFO, false, false, false⟩, .down 0, .setCmd 0,
    .setCallback 0, .setXmit 0, .txTake, .txXmit]

/-- No bit of `skw->flags` is set and no command was given yet. -/
def idleSys : CmdSys :=
  .init ⟨false, false, false, false, false⟩
    ⟨0, false, 0, 0, 0, false, false, false, false, false, .null⟩

theorem harmless_iff_example :
    AckSys.Harmless ⟨{ idleSys with cmd := { idleSys.cmd with callback := .trySendCb, id := 1 } },
      some fun _ => 0, 4⟩ [msgOf [0x10, 1], msgOf [0x10, 2, 0, 0, 10, 0, 0, 0, 0, 0]] ↔
        ∀ m ∈ [msgOf [0x10, 1], msgOf [0x10, 2, 0, 0, 10, 0, 0, 0, 0, 0]],
          ¬ m.Answers { idleSys.cmd with callback := .trySendCb, id := 1 } :=
  harmless_iff _ ⟨by decide, by decide, by decide⟩ _ (by simp [AckMsg.Malformed]; decide)

/-- The header of an ack alone makes the slot refuse the ack itself. -/
theorem shortAck_not_harmless :
    ∃ s : AckSys, Lib.Reach CmdSys.step Lib.Free idleSys s.sys ∧ s.InFlight ∧
      (∀ m ∈ [msgOf [0x10, 1, 1, 0, 8, 0, 0, 0]], m.Malformed s.sys.cmd) ∧
        ¬ s.Harmless [msgOf [0x10, 1, 1, 0, 8, 0, 0, 0]] := by
  obtain ⟨sys, hr, hp⟩ := Lib.exists_reach_of_exec CmdSys.step Lib.Free idleSys getInfoRun
    (fun t => t.handed ≠ [] ∧ t.cmd.acked = false ∧ t.cmd.done = false ∧ t.cmd.id = 1 ∧
      t.cmd.seq = 1) (by decide)
  obtain ⟨hh, ha, hd, hid, hseq⟩ := of_decide_eq_true hp
  have hbad : ∀ m ∈ [msgOf [0x10, 1, 1, 0, 8, 0, 0, 0]], m.Malformed sys.cmd := by
    intro m hm
    rw [List.mem_singleton.mp hm]
    left
    decide
  refine ⟨⟨sys, none, 0⟩, hr, inFlight_of_reach hr hh ha hd, hbad, fun hharm => ?_⟩
  have hans : (msgOf [0x10, 1, 1, 0, 10, 0, 0, 0, 0, 0]).Answers sys.cmd := by
    rw [AckMsg.Answers, hid, hseq]
    decide
  obtain ⟨t, u, ht, hu⟩ := hharm.completes _ hans (by decide)
  have hacked : t = AckSys.setAcked ⟨sys, none, 0⟩ := by
    have hrun := exec_malformed (s := ⟨sys, none, 0⟩) hbad
    have hshort : (msgOf [0x10, 1, 1, 0, 8, 0, 0, 0]).Answers sys.cmd := hans
    rw [if_pos ⟨_, List.mem_singleton_self _, hshort⟩] at hrun
    exact Option.some.inj (ht.symm.trans hrun)
  have hrefused : t.cmdAckHandler (msgOf [0x10, 1, 1, 0, 10, 0, 0, 0, 0, 0]) =
      some (-EINVAL, t) := by
    subst hacked
    simp [cmdAckHandler, setAcked]
  have hret := hrefused.symm.trans hu.handled
  simp [EINVAL] at hret

end AckSys

end Skw
