import Skw.Kernel.Types
import Skw.Lib.Machine

/-! The interrupt line of the SDIO chip is masked while the chip is reset and while the host sends
what puts it to sleep, and unmasked again by other code than that which masks it. -/
namespace Skw

inductive SdioIrqType
  | inband
  | external
deriving DecidableEq

/-- What the masking and unmasking functions read and write of `skw_sdio_data_t`, with the number
of `disable_irq` and `enable_irq` calls for `irq_num`. -/
structure SdioIrq where
  irqType : SdioIrqType
  irqNum : BitVec 32
  gpioOut : ℤ
  gpioIn : ℤ
  resumeCom : Bool
  hostActive : Bool
  deviceActive : Bool
  powerOff : Bool
  sdioExtiGpioState : BitVec 32
  cpDownloadedFlag : Bool
  serviceIndexMap : ℕ
  cpFifoStatus : ℕ
  suspendWakeUnlockEnable : Bool
  disabled : ℕ
  enabled : ℕ
deriving DecidableEq

/-- What `skw_recovery_mode` finds: the images, the results of the calls it makes and the two
values that `skw_sdio_boot_cp` reads from `cp_state`. -/
structure RecoveryRun where
  hasBootData : Bool
  recoveryDebugStatus : ℤ
  dramDlSize : ℕ
  iramDlSize : ℕ
  cpReset : ℤ
  dramWrite : ℤ
  iramWrite : ℤ
  cpState : ℕ
  setValWrite : ℤ
  saveSetupWrite : ℤ
  cpStateThen : ℕ
  checkCpReady : ℤ

/-- One `skw_sdio_suspend_adma_cmd` call; `gpio` and `admaWrite` are what its reads of the pin and
its writes return, in this order. -/
structure SuspendCmd where
  portno : ℕ
  maxChNum : ℕ
  portState : ℕ
  total : ℕ
  gpio : ℕ → ℤ
  admaWrite : ℕ → ℤ

/-- `setResumeCom` is what the suspend, the resume and every transfer do to `resume_com`. -/
inductive IrqCall
  | recoveryMode (r : RecoveryRun)
  | hostSuspendIndication (gpio : ℕ → ℤ)
  | suspendAdmaCmd (c : SuspendCmd)
  | setResumeCom (b : Bool)

namespace SdioIrq

def disableIrq (s : SdioIrq) : SdioIrq := { s with disabled := s.disabled + 1 }

def enableIrq (s : SdioIrq) : SdioIrq := { s with enabled := s.enabled + 1 }

/-- The number is unsigned, so that its test in the source never fails. -/
def hasExternalIrq (s : SdioIrq) : Bool := s.irqType = .external && decide (0 ≤ s.irqNum.toNat)

/-- The result of the register writes of `skw_sdio_boot_cp`; `|=` of results is nonzero when one
of them is. -/
def writeResult (s : SdioIrq) (r : RecoveryRun) : ℤ :=
  let ret := if r.cpState ≠ 0 ∧ s.sdioExtiGpioState ≠ 0 then r.setValWrite else 0
  let ret := if ret = 0 then r.saveSetupWrite else ret
  if r.cpStateThen = 0 ∧ ret = 0 then r.checkCpReady else ret

/-- `skw_sdio_boot_cp` in the mode `RECOVERY_BOOT`. -/
def bootCp (s : SdioIrq) (r : RecoveryRun) : SdioIrq × ℤ :=
  if r.dramDlSize ≠ 0 ∧ r.dramWrite ≠ 0 then (s, r.dramWrite)
  else if r.iramDlSize ≠ 0 ∧ r.iramWrite ≠ 0 then (s, r.iramWrite)
  else
    ({ (if r.cpState ≠ 0 ∧ s.hasExternalIrq then s.enableIrq else s) with cpDownloadedFlag := true },
      s.writeResult r)

/-- The chip is about to be reset. -/
def maskForReset (s : SdioIrq) : SdioIrq :=
  { (if s.hasExternalIrq then s.disableIrq else s) with powerOff := true }

/-- The chip has been reset. -/
def resetDone (s : SdioIrq) : SdioIrq :=
  { s with powerOff := false, serviceIndexMap := 0, cpFifoStatus := 0 }

def recoveryMode (s : SdioIrq) (r : RecoveryRun) : SdioIrq × ℤ :=
  if !r.hasBootData then (s, -ENODEV)
  else if r.dramDlSize = 0 ∨ r.iramDlSize = 0 ∨ r.recoveryDebugStatus ≠ 0 then (s, -1)
  else if r.cpReset ≠ 0 then (s.maskForReset, -1)
  else
    let boot := s.maskForReset.resetDone.bootCp r
    (boot.1, if boot.2 ≠ 0 then -1 else 0)

/-- The loop of `send_host_suspend_indication` that waits for the chip with the interrupt masked;
`k` pin readings came before it. -/
def awaitWakeup (gpio : ℕ → ℤ) : ℕ → ℕ → SdioIrq → SdioIrq
  | 0, _, s => s.enableIrq
  | timeout + 1, k, s => if gpio k ≠ 0 then s.enableIrq else awaitWakeup gpio timeout (k + 1) s

def hostSuspendIndication (s : SdioIrq) (gpio : ℕ → ℤ) : SdioIrq :=
  if 0 ≤ s.gpioOut ∧ 0 ≤ s.gpioIn ∧ s.resumeCom then
    { (if gpio 0 = 0 ∧ gpio 1 = 0 then awaitWakeup gpio 20 2 s.disableIrq else s) with
      hostActive := false
      deviceActive := false }
  else s

/-- `skw_sdio_irq_ops(0)`, with the two pin readings that decide. -/
def irqOpsDisable (s : SdioIrq) (first second : ℤ) : SdioIrq × ℤ :=
  if s.gpioIn < 0 then (s, -1)
  else if first = 0 then
    if second = 0 then (s.disableIrq, 0) else (s, -2)
  else (s, -1)

/-- `skw_sdio_irq_ops(1)`. -/
def irqOpsEnable (s : SdioIrq) : SdioIrq × ℤ :=
  if s.gpioIn < 0 then (s, -1)
  else ({ s with suspendWakeUnlockEnable := true }.enableIrq, 0)

def suspendAdmaCmd (s : SdioIrq) (c : SuspendCmd) : SdioIrq × ℤ :=
  if c.total = 0 then (s, 0)
  else if c.maxChNum ≤ c.portno then (s, -EINVAL)
  else if c.portState = 0 then (s, - EIO)
  else
    let irqOps := s.irqOpsDisable (c.gpio 0) (c.gpio 1)
    (if irqOps.2 = 0 then irqOps.1.irqOpsEnable.1 else irqOps.1,
      if c.admaWrite 0 = 0 then 0 else c.admaWrite 1)

def step (s : SdioIrq) : IrqCall → Option SdioIrq
  | .recoveryMode r => some (s.recoveryMode r).1
  | .hostSuspendIndication gpio => some (s.hostSuspendIndication gpio)
  | .suspendAdmaCmd c => some (s.suspendAdmaCmd c).1
  | .setResumeCom b => some { s with resumeCom := b }

/-- The interrupt is masked as often as it is unmasked. -/
def Balanced (s : SdioIrq) : Prop := s.disabled = s.enabled

/-- A recovery that masks the interrupt gets to where it is unmasked. -/
def Unmasks (_ : SdioIrq) : IrqCall → Prop
  | .recoveryMode r =>
    r.hasBootData = true → r.dramDlSize ≠ 0 → r.iramDlSize ≠ 0 → r.recoveryDebugStatus = 0 →
      r.cpReset = 0 ∧ r.dramWrite = 0 ∧ r.iramWrite = 0 ∧ r.cpState ≠ 0
  | _ => True

variable {s t : SdioIrq} {r : RecoveryRun}

theorem hasExternalIrq_of_external (hx : s.irqType = .external) : s.hasExternalIrq = true := by
  simp [hasExternalIrq, hx]

/-- Whatever the pin reads, the loop unmasks. -/
theorem awaitWakeup_eq (gpio : ℕ → ℤ) (timeout k : ℕ) (s : SdioIrq) :
    awaitWakeup gpio timeout k s = s.enableIrq := by
  induction timeout generalizing k with
  | zero => rfl
  | succ timeout ih =>
    unfold awaitWakeup
    by_cases h : gpio k ≠ 0
    · rw [if_pos h]
    · rw [if_neg h]
      exact ih (k + 1)

theorem hostSuspendIndication_calls (gpio : ℕ → ℤ) (hb : s.Balanced) :
    (s.hostSuspendIndication gpio).irqType = s.irqType ∧
      (s.hostSuspendIndication gpio).Balanced := by
  unfold hostSuspendIndication
  by_cases hg : 0 ≤ s.gpioOut ∧ 0 ≤ s.gpioIn ∧ s.resumeCom = true
  · rw [if_pos hg]
    by_cases hp : gpio 0 = 0 ∧ gpio 1 = 0
    · rw [if_pos hp, awaitWakeup_eq]
      exact ⟨rfl, congrArg (· + 1) hb⟩
    · rw [if_neg hp]
      exact ⟨rfl, hb⟩
  · rw [if_neg hg]
    exact ⟨rfl, hb⟩

/-- Masking returns zero when it is done, and only then the caller unmasks. -/
theorem irqOps_calls (first second : ℤ) (hb : s.Balanced) {o : SdioIrq × ℤ}
    (ho : o = s.irqOpsDisable first second) {u : SdioIrq}
    (hu : u = if o.2 = 0 then o.1.irqOpsEnable.1 else o.1) :
    u.irqType = s.irqType ∧ u.Balanced := by
  subst ho hu
  unfold irqOpsDisable
  by_cases hi : s.gpioIn < 0
  · simp [hi, hb]
  · by_cases h0 : first = 0
    · by_cases h1 : second = 0
      · have hi' : ¬ s.disableIrq.gpioIn < 0 := hi
        simp only [hi, h0, h1, if_true, if_false, irqOpsEnable, hi']
        exact ⟨rfl, congrArg (· + 1) hb⟩
      · simp [hi, h0, h1, hb]
    · simp [hi, h0, hb]

theorem suspendAdmaCmd_calls (c : SuspendCmd) (hb : s.Balanced) :
    (s.suspendAdmaCmd c).1.irqType = s.irqType ∧ (s.suspendAdmaCmd c).1.Balanced := by
  unfold suspendAdmaCmd
  by_cases ht : c.total = 0
  · rw [if_pos ht]
    exact ⟨rfl, hb⟩
  · by_cases hn : c.maxChNum ≤ c.portno
    · rw [if_neg ht, if_pos hn]
      exact ⟨rfl, hb⟩
    · by_cases hs : c.portState = 0
      · rw [if_neg ht, if_neg hn, if_pos hs]
        exact ⟨rfl, hb⟩
      · rw [if_neg ht, if_neg hn, if_neg hs]
        exact irqOps_calls (c.gpio 0) (c.gpio 1) hb rfl rfl

/-- The boot unmasks once, unless an image is not written or the chip state is zero. -/
theorem bootCp_calls (hx : s.irqType = .external) (hd : r.dramDlSize ≠ 0) (hi : r.iramDlSize ≠ 0) :
    (s.bootCp r).1.irqType = .external ∧ (s.bootCp r).1.disabled = s.disabled ∧
      (s.bootCp r).1.enabled = s.enabled +
        if r.dramWrite = 0 ∧ r.iramWrite = 0 ∧ r.cpState ≠ 0 then 1 else 0 := by
  have hirq := hasExternalIrq_of_external hx
  unfold bootCp
  by_cases hdw : r.dramWrite = 0
  · by_cases hiw : r.iramWrite = 0
    · by_cases hc : r.cpState = 0
      · simp [hdw, hiw, hc, hx]
      · simp [hdw, hiw, hc, hirq, hx, enableIrq]
    · simp [hdw, hi, hiw, hx]
  · simp [hd, hdw, hx]

theorem maskForReset_calls (hx : s.irqType = .external) (hb : s.Balanced) :
    s.maskForReset.irqType = .external ∧ s.maskForReset.disabled = s.enabled + 1 ∧
      s.maskForReset.enabled = s.enabled := by
  unfold maskForReset
  rw [if_pos (hasExternalIrq_of_external hx)]
  exact ⟨hx, congrArg (· + 1) hb, rfl⟩

theorem recoveryMode_calls (hx : s.irqType = .external) (hb : s.Balanced) :
    (s.recoveryMode r).1.irqType = .external ∧
      ((s.recoveryMode r).1.Balanced ↔ s.Unmasks (.recoveryMode r)) := by
  unfold recoveryMode Unmasks
  by_cases hboot : r.hasBootData = true
  · rw [if_neg (by simp [hboot])]
    by_cases hskip : r.dramDlSize = 0 ∨ r.iramDlSize = 0 ∨ r.recoveryDebugStatus ≠ 0
    · rw [if_pos hskip]
      refine ⟨hx, fun _ _ hd hi hs => ?_, fun _ => hb⟩
      rcases hskip with h | h | h
      · exact absurd h hd
      · exact absurd h hi
      · exact absurd hs h
    · rw [if_neg hskip]
      simp only [not_or, not_not] at hskip
      obtain ⟨hd, hi, hs⟩ := hskip
      obtain ⟨hmx, hmd, hme⟩ := maskForReset_calls hx hb
      by_cases hr : r.cpReset = 0
      · rw [if_neg (not_not.mpr hr)]
        obtain ⟨hbx, hbd, hbe⟩ := bootCp_calls (s := s.maskForReset.resetDone) hmx hd hi
        refine ⟨hbx, ?_⟩
        have hd' : s.maskForReset.resetDone.disabled = s.enabled + 1 := hmd
        have he' : s.maskForReset.resetDone.enabled = s.enabled := hme
        unfold Balanced
        rw [hbd, hbe, hd', he']
        by_cases hok : r.dramWrite = 0 ∧ r.iramWrite = 0 ∧ r.cpState ≠ 0
        · rw [if_pos hok]
          exact ⟨fun _ _ _ _ _ => ⟨hr, hok⟩, fun _ => rfl⟩
        · rw [if_neg hok]
          exact ⟨fun h => by omega, fun h => absurd (h hboot hd hi hs).2 hok⟩
      · rw [if_pos hr]
        refine ⟨hmx, fun hbal => ?_, fun h => absurd (h hboot hd hi hs).1 hr⟩
        have hbal : s.maskForReset.disabled = s.maskForReset.enabled := hbal
        omega
  · rw [if_pos (by simp [hboot])]
    exact ⟨hx, fun _ h => absurd h hboot, fun _ => hb⟩

/-- After a call the interrupt is masked as often as unmasked exactly when the call unmasks. -/
theorem step_balanced_iff {c : IrqCall} (hx : s.irqType = .external) (hb : s.Balanced)
    (h : s.step c = some t) : t.irqType = .external ∧ (t.Balanced ↔ s.Unmasks c) := by
  cases c with
  | recoveryMode r =>
    cases h
    exact recoveryMode_calls hx hb
  | hostSuspendIndication gpio =>
    cases h
    obtain ⟨ht, hbal⟩ := hostSuspendIndication_calls gpio hb
    exact ⟨ht.trans hx, fun _ => trivial, fun _ => hbal⟩
  | suspendAdmaCmd c =>
    cases h
    obtain ⟨ht, hbal⟩ := suspendAdmaCmd_calls c hb
    exact ⟨ht.trans hx, fun _ => trivial, fun _ => hbal⟩
  | setResumeCom b =>
    cases h
    exact ⟨hx, fun _ => trivial, fun _ => hb⟩

/-- A run leaves the interrupt as often masked as unmasked after each call exactly when every
recovery that masks it gets to where it is unmasked. -/
theorem along_balanced_iff (s : SdioIrq) (hx : s.irqType = .external) (hb : s.Balanced)
    (cs : List IrqCall) :
    Lib.Along step (fun _ _ t => t.Balanced) s cs ↔ Lib.Along step (fun s c _ => s.Unmasks c) s cs :=
  Lib.along_iff (I := fun s => s.irqType = .external ∧ s.Balanced)
    (fun _ _ _ hi h hu => by
      obtain ⟨ht, hiff⟩ := step_balanced_iff hi.1 hi.2 h
      exact ⟨ht, hiff.mpr hu⟩)
    (fun _ _ _ hi h => (step_balanced_iff hi.1 hi.2 h).2) ⟨hx, hb⟩ cs

/-- The chip with an external interrupt that was never masked. -/
def probed : SdioIrq :=
  ⟨.external, 44, 12, 13, true, true, true, false, 0, true, 0, 0, false, 0, 0⟩

/-- A recovery in which everything succeeds but the result of the reset is `ret`. -/
def recoveryAfter (ret : ℤ) : RecoveryRun := ⟨true, 0, 1, 1, ret, 0, 0, 1, 0, 0, 1, 0⟩

theorem along_balanced_iff_recovery :
    Lib.Along step (fun _ _ t => t.Balanced) probed
      [.suspendAdmaCmd ⟨6, 12, 1, 1, fun _ => 0, fun _ => 0⟩, .recoveryMode (recoveryAfter 0),
        .hostSuspendIndication fun _ => 0] := by
  rw [along_balanced_iff probed rfl rfl]
  refine fun _ _ => ⟨trivial, fun _ _ => ⟨fun _ _ _ _ => ⟨rfl, rfl, rfl, Nat.one_ne_zero⟩, ?_⟩⟩
  exact fun _ _ => ⟨trivial, trivial⟩

/-- A reset that fails leaves the interrupt masked. -/
theorem failedReset_not_balanced :
    ¬ ∀ cs, Lib.Along step (fun _ _ t => t.Balanced) probed cs := by
  intro h
  have hb : (probed.recoveryMode (recoveryAfter (-5))).1.Balanced :=
    (h [.recoveryMode (recoveryAfter (-5))] _ rfl).1
  revert hb
  unfold Balanced
  decide

end SdioIrq
end Skw
