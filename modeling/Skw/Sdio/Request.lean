import Skw.Lib.Machine
import Skw.Sdio.Send

/-! The calls that wake the modem for a port, and what they leave in `tx_req_map`. -/
namespace Skw

abbrev WIFI_CMD_PORT : ℕ := 5
abbrev LOOPCHECK_PORT : ℕ := 7

/-- `skw_sdio_suspend_send_data`, with the wakeup behind a late acknowledgement. -/
def skwSdioSuspendSendData (l : SdioLink) (cpState : Bool) (a b : Attempt) (again : Wakeup)
    (portno : ℕ) (msg : ℕ → BitVec 8) (size : ℕ) (s : SendState) : Option (ℤ × SendState) :=
  if size = 0 then some (0, s)
  else
    match sendRefused l cpState portno s with
    | some r => some r
    | none =>
      let count := roundUp size 4
      if count + 8 < s.port.length then do
        let (bytes, s) ← framed l msg count s
        let s := s.wakeup l.pins a.wake portno
        if a.cpState then some (- EIO, s)
        else
          let s := s.transfer bytes a.write
          if a.write = 0 then
            let s :=
              if a.Late then (s.wakeup l.pins again portno).setFlow (a.txFlowCtrl - 1)
              else s.setFlow (if a.asst then s.port.txFlowCtrl + 1 else a.txFlowCtrl)
            some (size, (s.counted bytes.length).released portno)
          else some (a.write, s.released portno)
      else
        some (twoRounds portno (plainRound l.pins portno size (Lib.load msg 0 count)) a b s)

/-- `loopcheck_send_data`, on the loop-check port of the chip. -/
def loopcheckSendData (l : SdioLink) (a : Attempt) (msg : ℕ → BitVec 8) (size : ℕ)
    (s : SendState) : Option (ℤ × SendState) :=
  let count := roundUp size 4
  if count + 8 < s.port.length then do
    let (bytes, s) ← framed l msg count s
    let s := (s.wakeup l.pins a.wake l.ver.loopcheckPort).transfer bytes a.write
    if a.write = 0 then some (size, (s.counted bytes.length).released l.ver.loopcheckPort)
    else some (a.write, s.released l.ver.loopcheckPort)
  else some (-ENOMEM, s)

/-- A round of the loops around `skw_sdio_adma_write`. -/
def admaRound (g : GpioPins) (portno : ℕ) (a : Attempt) (s : SendState) :
    AttemptEnd × SendState :=
  let s := s.wakeup g a.wake portno
  if a.write = 0 then (.finish 0, s) else (.next a.write, s)

/-- The port's counters after a scatter list. -/
def SendState.countedSg (s : SendState) (sgNum total : ℕ) : SendState :=
  { s with
    port.total := s.port.total + total
    port.sentPacket := s.port.sentPacket + sgNum }

/-- `wifi_send_cmd`. -/
def wifiSendCmd (l : SdioLink) (a b : Attempt) (portno sgNum total : ℕ) (s : SendState) :
    ℤ × SendState :=
  if total = 0 then (0, s)
  else if l.ver.maxChNum ≤ portno then (-EINVAL, s)
  else if s.port.state = .idle then (- EIO, s)
  else
    let (ret, s) := twoRounds portno (admaRound l.pins portno) a b s
    (ret, s.countedSg sgNum total)

/-- `skw_sdio_suspend_adma_cmd`, with the line after the command and the wakeup it leads to. -/
def skwSdioSuspendAdmaCmd (l : SdioLink) (a b : Attempt) (gpioVal : Bool) (again : Wakeup)
    (portno sgNum total : ℕ) (s : SendState) : ℤ × SendState :=
  if total = 0 then (0, s)
  else if l.ver.maxChNum ≤ portno then (-EINVAL, s)
  else if s.port.state = .idle then (- EIO, s)
  else
    let (ret, s) := twoRounds portno (admaRound l.pins portno) a b s
    -- behind the release of the bit
    let s :=
      if portno = WIFI_CMD_PORT ∧ 0 ≤ l.pins.gpioIn ∧ ¬gpioVal then s.wakeup l.pins again portno
      else s
    (ret, s.countedSg sgNum total)

/-- `kick_rx_thread`, with the line that it reads: whether it starts the receive thread. -/
def kickRxThread (g : GpioPins) (gpioVal : Bool) (w : Wakeup) (m : ReqMap) : Bool × ReqMap :=
  if g.gpioOut < 0 ∨ gpioVal then (true, m) else (false, (tryToWakeupModem g w LOOPCHECK_PORT m).2)

/-- A call that wakes the modem, with what it meets. The state of its port is part of that. -/
inductive RequestCall
  | sendData (cpState : Bool) (a b : Attempt) (portno : ℕ) (port : SendPort)
      (msg : ℕ → BitVec 8) (size : ℕ)
  | suspendSendData (cpState : Bool) (a b : Attempt) (again : Wakeup) (portno : ℕ)
      (port : SendPort) (msg : ℕ → BitVec 8) (size : ℕ)
  | loopcheck (a : Attempt) (port : SendPort) (msg : ℕ → BitVec 8) (size : ℕ)
  | wifiCmd (a b : Attempt) (portno : ℕ) (port : SendPort) (sgNum total : ℕ)
  | suspendAdmaCmd (a b : Attempt) (gpioVal : Bool) (again : Wakeup) (portno : ℕ)
      (port : SendPort) (sgNum total : ℕ)
  | kick (gpioVal : Bool) (w : Wakeup)

namespace RequestCall

/-- The port for which the call wakes the modem. -/
def portno (l : SdioLink) : RequestCall → ℕ
  | sendData _ _ _ portno _ _ _ => portno
  | suspendSendData _ _ _ _ portno _ _ _ => portno
  | loopcheck _ _ _ _ => l.ver.loopcheckPort
  | wifiCmd _ _ portno _ _ _ => portno
  | suspendAdmaCmd _ _ _ _ portno _ _ _ => portno
  | kick _ _ => LOOPCHECK_PORT

/-- The request map through the call. -/
def run (l : SdioLink) (c : RequestCall) (m : ReqMap) : Option ReqMap :=
  match c with
  | sendData cpState a b portno port msg size =>
    (Skw.sendData l cpState a b portno msg size ⟨port, m, []⟩).map (·.2.req)
  | suspendSendData cpState a b again portno port msg size =>
    (skwSdioSuspendSendData l cpState a b again portno msg size ⟨port, m, []⟩).map (·.2.req)
  | loopcheck a port msg size => (loopcheckSendData l a msg size ⟨port, m, []⟩).map (·.2.req)
  | wifiCmd a b portno port sgNum total =>
    some (wifiSendCmd l a b portno sgNum total ⟨port, m, []⟩).2.req
  | suspendAdmaCmd a b gpioVal again portno port sgNum total =>
    some (skwSdioSuspendAdmaCmd l a b gpioVal again portno sgNum total ⟨port, m, []⟩).2.req
  | kick gpioVal w => some (kickRxThread l.pins gpioVal w m).2

/-- The rounds of a framed message end in a crash behind a wakeup that left its request. -/
def GivenUp (g : GpioPins) (a b : Attempt) : Prop :=
  a.cpState = true ∧ a.wake.effect g = some true ∨
    a.cpState = false ∧ (a.write = 0 → a.Late) ∧ b.cpState = true ∧
      (b.wake.effect g = some true ∨
        b.wake.effect g = none ∧ a.wake.effect g = some true)

/-- The call does not end behind a wakeup that left its request: a framed message is not given up
for a crash, a command is not followed by another wakeup, and the receive thread is not kicked over
the line. -/
def Ends (l : SdioLink) : RequestCall → Prop
  | sendData cpState a b portno port _ size =>
    size ≠ 0 → SendAdmitted l cpState portno port → roundUp size 4 + 8 < port.length →
      portno < 8 → ¬GivenUp l.pins a b
  | suspendSendData cpState a _ _ portno port _ size =>
    size ≠ 0 → SendAdmitted l cpState portno port → roundUp size 4 + 8 < port.length →
      portno < 8 → a.cpState = true → a.wake.effect l.pins ≠ some true
  | suspendAdmaCmd _ _ gpioVal again portno port _ total =>
    total ≠ 0 → portno = WIFI_CMD_PORT → port.state ≠ .idle → 0 ≤ l.pins.gpioIn →
      gpioVal = false → again.effect l.pins ≠ some true
  | kick gpioVal w =>
    0 ≤ l.pins.gpioOut → gpioVal = false → w.effect l.pins ≠ some true
  | _ => True

/-- A call on the map that the calls before it left. -/
def step (l : SdioLink) (m : ReqMap) (c : RequestCall) : Option ReqMap := c.run l ⟨m.bits, []⟩

end RequestCall

section
variable {l : SdioLink} {g : GpioPins} {portno size : ℕ} {a b : Attempt} {s : SendState}
  {bytes : List (BitVec 8)} {round : Attempt → SendState → AttemptEnd × SendState}

/-- The request map behind the two rounds: released, unless a round left the call. -/
theorem req_twoRounds :
    (twoRounds portno round a b s).2.req =
      match (round a s).1 with
      | .leave _ => (round a s).2.req
      | .finish _ => (round a s).2.req.release portno
      | .next _ =>
        match (round b (round a s).2).1 with
        | .leave _ => (round b (round a s).2).2.req
        | _ => (round b (round a s).2).2.req.release portno := by
  unfold twoRounds
  obtain ⟨e, t⟩ := round a s
  cases e with
  | leave err => rfl
  | finish ret => rfl
  | next ret =>
    obtain ⟨e', t', hsecond⟩ : ∃ e' t', round b t = (e', t') := ⟨_, _, rfl⟩
    simp only [hsecond]
    cases e' with
    | leave err => rfl
    | finish ret => rfl
    | next ret => rfl

/-- The rounds wake the modem for the port and do nothing else to the map. -/
def WakesOnly (g : GpioPins) (portno : ℕ)
    (round : Attempt → SendState → AttemptEnd × SendState) : Prop :=
  ∀ a s, (round a s).2.req = (tryToWakeupModem g a.wake portno s.req).2

theorem WakesOnly.framed : WakesOnly g portno (framedRound g portno size bytes) := by
  intro a s
  unfold framedRound
  split_ifs
  all_goals rfl

theorem WakesOnly.plain : WakesOnly g portno (plainRound g portno size bytes) := by
  intro a s
  unfold plainRound
  split_ifs
  all_goals rfl

theorem WakesOnly.adma : WakesOnly g portno (admaRound g portno) := by
  intro a s
  unfold admaRound
  split_ifs
  all_goals rfl

theorem only_twoRounds (hw : WakesOnly g portno round) (h : s.req.Only portno) :
    (twoRounds portno round a b s).2.req.Only portno := by
  have hfirst : (round a s).2.req.Only portno := by
    rw [hw]
    exact only_tryToWakeupModem h
  have hsecond : (round b (round a s).2).2.req.Only portno := by
    rw [hw]
    exact only_tryToWakeupModem hfirst
  rw [req_twoRounds]
  split
  · exact hfirst
  · exact hfirst.release
  · split
    · exact hsecond
    · exact hsecond.release

/-- A loop that always comes to its end leaves no request. -/
theorem not_pending_twoRounds (hr : ∀ a s err, (round a s).1 ≠ .leave err) :
    ¬(twoRounds portno round a b s).2.req.Pending portno := by
  rw [req_twoRounds]
  split
  · next he => exact absurd he (hr a s _)
  · exact ReqMap.not_pending_release_self
  · split
    · next he => exact absurd he (hr b _ _)
    · exact ReqMap.not_pending_release_self

theorem plainRound_ne_leave (a : Attempt) (s : SendState) (err : ℤ) :
    (plainRound g portno size bytes a s).1 ≠ .leave err := by
  unfold plainRound
  split_ifs
  all_goals simp

theorem admaRound_ne_leave (a : Attempt) (s : SendState) (err : ℤ) :
    (admaRound g portno a s).1 ≠ .leave err := by
  unfold admaRound
  split_ifs
  all_goals simp

/-- The loop for framed messages leaves a request where it is left for a crash. -/
theorem pending_framed_iff (h : ¬s.req.Pending portno) :
    (twoRounds portno (framedRound g portno size bytes) a b s).2.req.Pending portno ↔
      portno < 8 ∧ RequestCall.GivenUp g a b := by
  have hfirst : (framedRound g portno size bytes a s).2.req.Pending portno ↔
      a.wake.effect g = some true ∧ portno < 8 := by
    rw [WakesOnly.framed, pending_tryToWakeupModem_iff]
    simp [h]
  have hsecond : (framedRound g portno size bytes b
      (framedRound g portno size bytes a s).2).2.req.Pending portno ↔
        b.wake.effect g = some true ∧ portno < 8 ∨
          b.wake.effect g = none ∧ a.wake.effect g = some true ∧ portno < 8 := by
    rw [WakesOnly.framed, pending_tryToWakeupModem_iff, hfirst]
  have hend := (framedRound_end g portno size bytes a s).1
  have hend' := (framedRound_end g portno size bytes b
    (framedRound g portno size bytes a s).2).1
  rw [req_twoRounds, hend, hend', RequestCall.GivenUp]
  by_cases hcp : a.cpState = true
  · simp only [hcp, if_true]
    rw [hfirst]
    simp [and_comm]
  rw [Bool.not_eq_true] at hcp
  by_cases hacked : a.write = 0 ∧ ¬a.Late
  · have hno : ¬(a.write = 0 → a.Late) := fun hl => hacked.2 (hl hacked.1)
    simp [hcp, hacked]
  · have hlate : a.write = 0 → a.Late := fun hw => not_not.mp fun hl => hacked ⟨hw, hl⟩
    have hnext : ∃ r, (if a.write = 0 then if a.Late then AttemptEnd.next 0 else .finish size
        else .next a.write) = .next r := by
      split_ifs with hw hl
      · exact ⟨_, rfl⟩
      · exact absurd (hlate hw) hl
      · exact ⟨_, rfl⟩
    obtain ⟨r, hr⟩ := hnext
    by_cases hcb : b.cpState = true
    · have hgoes : (a.write = 0 → a.Late) ↔ True := iff_true_intro hlate
      simp only [hcp, hr, hcb, if_true, Bool.false_eq_true, if_false, hgoes, false_and, false_or,
        true_and]
      rw [hsecond, ← and_assoc, ← or_and_right, and_comm]
    · have hreleased : ∀ e, (if b.write = 0 then if b.Late then AttemptEnd.next 0 else
          .finish size else .next b.write) ≠ .leave e := by
        intro e
        split_ifs
        all_goals simp
      simp only [hcp, hr, hcb, Bool.false_eq_true, if_false]
      simp

/-- What a call leaves: at most the bit of its port, and that one under `pending`. -/
structure Leaves (portno : ℕ) (pending : Prop) (m : ReqMap) : Prop where
  only : m.Only portno
  pending_iff : m.Pending portno ↔ pending

theorem Leaves.of_not {m : ReqMap} {p : Prop} (ho : m.Only portno) (hm : ¬m.Pending portno)
    (hp : ¬p) : Leaves portno p m := ⟨ho, iff_of_false hm hp⟩

theorem not_pending_empty : ¬ReqMap.Pending ⟨0, []⟩ portno := by simp [ReqMap.Pending]

theorem pending_wake_empty (g : GpioPins) (w : Wakeup) (portno : ℕ) :
    (tryToWakeupModem g w portno ⟨0, []⟩).2.Pending portno ↔
      w.effect g = some true ∧ portno < 8 := by
  rw [pending_tryToWakeupModem_iff]
  simp [ReqMap.Pending]

theorem req_of_refused {cpState : Bool} {r : ℤ × SendState}
    (h : sendRefused l cpState portno s = some r) : r.2.req = s.req := by
  unfold sendRefused at h
  split_ifs at h
  all_goals
    rw [← Option.some.inj h]

/-- A send that is refused leaves the map as it was. -/
theorem leaves_of_refused {cpState : Bool} {port : SendPort} {r : ℤ × SendState} {p : Prop}
    (hr : sendRefused l cpState portno ⟨port, ⟨0, []⟩, []⟩ = some r)
    (hp : ¬SendAdmitted l cpState portno port → ¬p) : Leaves portno p r.2.req := by
  have hno : ¬SendAdmitted l cpState portno port := by
    intro had
    rw [sendRefused_eq_none_iff.mpr had] at hr
    cases hr
  rw [req_of_refused hr]
  exact .of_not (ReqMap.Only.empty portno) not_pending_empty (hp hno)

theorem sendData_leaves (l : SdioLink) (cpState : Bool) (a b : Attempt) (portno : ℕ)
    (port : SendPort) (msg : ℕ → BitVec 8) (size : ℕ) :
    ∃ r, sendData l cpState a b portno msg size ⟨port, ⟨0, []⟩, []⟩ = some r ∧
      Leaves portno (¬(RequestCall.sendData cpState a b portno port msg size).Ends l) r.2.req := by
  have hempty := ReqMap.Only.empty portno
  have hnone : ¬ReqMap.Pending ⟨0, []⟩ portno := not_pending_empty
  unfold sendData RequestCall.Ends
  by_cases hsize : size = 0
  · refine ⟨_, if_pos hsize, .of_not hempty hnone ?_⟩
    simp [hsize]
  rw [if_neg hsize]
  cases hr : sendRefused l cpState portno ⟨port, ⟨0, []⟩, []⟩ with
  | some r => exact ⟨r, rfl, leaves_of_refused hr fun hno => by simp [hno]⟩
  | none =>
    have had : SendAdmitted l cpState portno port := sendRefused_eq_none_iff.mp hr
    by_cases hlt : roundUp size 4 + 8 < port.length
    · obtain ⟨packet, hframed⟩ := exists_framed (s := ⟨port, ⟨0, []⟩, []⟩) l msg
        (four_dvd_roundUp size) hlt.le
      simp only [hlt, if_true, hframed, Option.bind_eq_bind, Option.bind_some, Option.some.injEq,
        exists_eq_left']
      refine ⟨only_twoRounds WakesOnly.framed hempty, ?_⟩
      rw [pending_framed_iff hnone]
      simp [hsize, had]
    · simp only [hlt, if_false, Option.some.injEq, exists_eq_left']
      apply Leaves.of_not (only_twoRounds WakesOnly.plain hempty)
      · exact not_pending_twoRounds plainRound_ne_leave
      · simp

theorem suspendSendData_leaves (l : SdioLink) (cpState : Bool) (a b : Attempt) (again : Wakeup)
    (portno : ℕ) (port : SendPort) (msg : ℕ → BitVec 8) (size : ℕ) :
    ∃ r, skwSdioSuspendSendData l cpState a b again portno msg size ⟨port, ⟨0, []⟩, []⟩ = some r ∧
      Leaves portno
        (¬(RequestCall.suspendSendData cpState a b again portno port msg size).Ends l)
        r.2.req := by
  have hempty := ReqMap.Only.empty portno
  have hnone : ¬ReqMap.Pending ⟨0, []⟩ portno := not_pending_empty
  unfold skwSdioSuspendSendData RequestCall.Ends
  by_cases hsize : size = 0
  · refine ⟨_, if_pos hsize, .of_not hempty hnone ?_⟩
    simp [hsize]
  rw [if_neg hsize]
  cases hr : sendRefused l cpState portno ⟨port, ⟨0, []⟩, []⟩ with
  | some r => exact ⟨r, rfl, leaves_of_refused hr fun hno => by simp [hno]⟩
  | none =>
    have had : SendAdmitted l cpState portno port := sendRefused_eq_none_iff.mp hr
    by_cases hlt : roundUp size 4 + 8 < port.length
    · obtain ⟨packet, hframed⟩ := exists_framed (s := ⟨port, ⟨0, []⟩, []⟩) l msg
        (four_dvd_roundUp size) hlt.le
      have hwake : (tryToWakeupModem l.pins a.wake portno ⟨0, []⟩).2.Only portno :=
        only_tryToWakeupModem hempty
      simp only [hlt, if_true, hframed, Option.bind_eq_bind, Option.bind_some]
      split_ifs with hcp hw hl
      · refine ⟨_, rfl, hwake, ?_⟩
        refine (pending_wake_empty l.pins a.wake portno).trans ?_
        simp [hsize, had, hcp, and_comm]
      all_goals
        refine ⟨_, rfl, .of_not ?_ ReqMap.not_pending_release_self (by simp [hcp])⟩
      · exact (only_tryToWakeupModem hwake).release
      · exact hwake.release
      · exact hwake.release
      · exact hwake.release
    · simp only [hlt, if_false, Option.some.injEq, exists_eq_left']
      apply Leaves.of_not (only_twoRounds WakesOnly.plain hempty)
      · exact not_pending_twoRounds plainRound_ne_leave
      · simp

theorem loopcheck_leaves (l : SdioLink) (a : Attempt) (port : SendPort) (msg : ℕ → BitVec 8)
    (size : ℕ) :
    ∃ r, loopcheckSendData l a msg size ⟨port, ⟨0, []⟩, []⟩ = some r ∧
      Leaves l.ver.loopcheckPort False r.2.req := by
  have hempty := ReqMap.Only.empty l.ver.loopcheckPort
  unfold loopcheckSendData
  by_cases hlt : roundUp size 4 + 8 < port.length
  · obtain ⟨packet, hframed⟩ := exists_framed (s := ⟨port, ⟨0, []⟩, []⟩) l msg
      (four_dvd_roundUp size) hlt.le
    have hwake := only_tryToWakeupModem (g := l.pins) (w := a.wake) hempty
    simp only [hlt, if_true, hframed, Option.bind_eq_bind, Option.bind_some]
    split_ifs
    all_goals
      exact ⟨_, rfl, .of_not hwake.release ReqMap.not_pending_release_self not_false⟩
  · simp only [hlt, if_false]
    exact ⟨_, rfl, .of_not hempty not_pending_empty not_false⟩

theorem wifiSendCmd_leaves (l : SdioLink) (a b : Attempt) (portno sgNum total : ℕ)
    (port : SendPort) :
    Leaves portno False (wifiSendCmd l a b portno sgNum total ⟨port, ⟨0, []⟩, []⟩).2.req := by
  have hempty := ReqMap.Only.empty portno
  unfold wifiSendCmd
  split_ifs
  · exact .of_not hempty not_pending_empty not_false
  · exact .of_not hempty not_pending_empty not_false
  · exact .of_not hempty not_pending_empty not_false
  · apply Leaves.of_not (only_twoRounds WakesOnly.adma hempty)
    · exact not_pending_twoRounds admaRound_ne_leave
    · exact not_false

theorem suspendAdmaCmd_leaves (l : SdioLink) (a b : Attempt) (gpioVal : Bool) (again : Wakeup)
    (portno sgNum total : ℕ) (port : SendPort) :
    Leaves portno
      (¬(RequestCall.suspendAdmaCmd a b gpioVal again portno port sgNum total).Ends l)
      (skwSdioSuspendAdmaCmd l a b gpioVal again portno sgNum total ⟨port, ⟨0, []⟩, []⟩).2.req := by
  have hempty := ReqMap.Only.empty portno
  unfold skwSdioSuspendAdmaCmd RequestCall.Ends
  by_cases htotal : total = 0
  · rw [if_pos htotal]
    exact .of_not hempty not_pending_empty (by simp [htotal])
  rw [if_neg htotal]
  by_cases hch : l.ver.maxChNum ≤ portno
  · have hport : portno ≠ WIFI_CMD_PORT := by
      rintro rfl
      cases hver : l.ver with
      | v10 =>
        rw [hver] at hch
        exact absurd hch (by decide)
      | v20 =>
        rw [hver] at hch
        exact absurd hch (by decide)
    rw [if_pos hch]
    exact .of_not hempty not_pending_empty (by simp [hport])
  rw [if_neg hch]
  by_cases hidle : port.state = .idle
  · rw [if_pos hidle]
    exact .of_not hempty not_pending_empty (by simp [hidle])
  rw [if_neg hidle]
  set r := twoRounds portno (admaRound l.pins portno) a b ⟨port, ⟨0, []⟩, []⟩
  have honly : r.2.req.Only portno := only_twoRounds WakesOnly.adma hempty
  have hnone : ¬r.2.req.Pending portno := not_pending_twoRounds admaRound_ne_leave
  simp only
  split_ifs with hagain
  · refine ⟨only_tryToWakeupModem honly, pending_tryToWakeupModem_iff.trans ?_⟩
    obtain ⟨hport, hin, hval⟩ := hagain
    have hlt : portno < 8 := by
      rw [hport]
      decide
    rw [Bool.not_eq_true] at hval
    rw [or_iff_left fun h => hnone h.2, and_iff_left hlt]
    simp [hport, hin, hval, htotal, hidle]
  · refine .of_not honly hnone ?_
    rw [not_not]
    intro _ hport _ hin hval
    exact absurd ⟨hport, hin, by simp [hval]⟩ hagain

/-- What each call leaves behind an empty map. -/
theorem run_leaves (l : SdioLink) (c : RequestCall) :
    ∃ m, c.run l ⟨0, []⟩ = some m ∧ Leaves (c.portno l) (¬c.Ends l) m := by
  cases c with
  | sendData cpState a b portno port msg size =>
    obtain ⟨r, hr, h⟩ := sendData_leaves l cpState a b portno port msg size
    exact ⟨_, by rw [RequestCall.run, hr, Option.map_some], h⟩
  | suspendSendData cpState a b again portno port msg size =>
    obtain ⟨r, hr, h⟩ := suspendSendData_leaves l cpState a b again portno port msg size
    exact ⟨_, by rw [RequestCall.run, hr, Option.map_some], h⟩
  | loopcheck a port msg size =>
    obtain ⟨r, hr, h⟩ := loopcheck_leaves l a port msg size
    refine ⟨_, by rw [RequestCall.run, hr, Option.map_some], h.only, h.pending_iff.trans ?_⟩
    simp [RequestCall.Ends]
  | wifiCmd a b portno port sgNum total =>
    have h := wifiSendCmd_leaves l a b portno sgNum total port
    refine ⟨_, rfl, h.only, h.pending_iff.trans ?_⟩
    simp [RequestCall.Ends]
  | suspendAdmaCmd a b gpioVal again portno port sgNum total =>
    exact ⟨_, rfl, suspendAdmaCmd_leaves l a b gpioVal again portno sgNum total port⟩
  | kick gpioVal w =>
    refine ⟨_, rfl, ?_⟩
    unfold kickRxThread RequestCall.Ends
    have hempty := ReqMap.Only.empty LOOPCHECK_PORT
    split_ifs with hkick
    · refine .of_not hempty not_pending_empty ?_
      rw [not_not]
      intro hout hval
      rcases hkick with h | h
      · omega
      · rw [hval] at h
        cases h
    · rw [not_or, not_lt, Bool.not_eq_true] at hkick
      refine ⟨only_tryToWakeupModem hempty, (pending_wake_empty l.pins w _).trans ?_⟩
      simp [hkick]

end

/-- Along a run the map has no bit but that of the port of the call in progress, and none between
the calls, exactly when every call ends its request. -/
theorem released_iff_ends (l : SdioLink) (cs : List RequestCall) :
    Lib.Along (RequestCall.step l) (fun _ c m => m.Only (c.portno l) ∧ m.bits = 0) ⟨0, []⟩ cs ↔
      Lib.Along (RequestCall.step l) (fun _ c _ => c.Ends l) ⟨0, []⟩ cs := by
  have hcall : ∀ m c m', m.bits = 0 → RequestCall.step l m c = some m' →
      ((m'.Only (c.portno l) ∧ m'.bits = 0) ↔ c.Ends l) := by
    intro m c m' hm hs
    obtain ⟨m'', hrun, hleaves⟩ := run_leaves l c
    have heq : m' = m'' := by
      rw [RequestCall.step, hm, hrun] at hs
      exact (Option.some.inj hs).symm
    rw [heq, and_iff_right hleaves.only, hleaves.only.bits_eq_zero_iff, hleaves.pending_iff,
      not_not]
  refine Lib.along_iff (I := fun m => m.bits = 0) ?_ hcall rfl cs
  intro m c m' hm hs hends
  exact ((hcall m c m' hm hs).mpr hends).2

/-- A modem that sleeps and wakes up within the first wait. -/
def Wakeup.slept : Wakeup := ⟨false, false, 10, true, 0, true, none⟩

/-- Kicking the receive thread leaves the request of the loop-check port. -/
theorem kick_not_released :
    ¬Lib.Along (RequestCall.step .v10) (fun _ c m => m.Only (c.portno .v10) ∧ m.bits = 0) ⟨0, []⟩
      [.kick false .slept] := by
  intro h
  exact absurd (h _ rfl).1.2 (by decide)

end Skw
