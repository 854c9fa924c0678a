import Skw.Kernel.Types
import Skw.Lib.Machine
import Mathlib.Logic.Function.Basic

/-! The deep-sleep policy of the firmware: the module parameter `fw_deepsleep`, the register of the
chip and `boot_data->slp_disable`. Writes of the parameter run beside recoveries that boot the chip
again. -/
namespace Skw

/-- A call of `skw_set_fw_deepsleep_param`. It waits for `skw_fw_deepsleep_lock`, and behind
`skw_sdio_apply_fw_deepsleep` it knows whether it has changed anything. -/
inductive SetDeepSleep
  | idle
  | waiting (enabled : Bool)
  | locked (enabled : Bool)
  | applied (enabled changed : Bool)
deriving DecidableEq

/-- The policy that a call has applied and is about to store. -/
def SetDeepSleep.pending : SetDeepSleep → Option Bool
  | applied enabled _ => some enabled
  | _ => none

/-- The call holds the lock. -/
def SetDeepSleep.holds : SetDeepSleep → Bool
  | locked _ | applied .. => true
  | _ => false

/-- A run of `skw_recovery_mode` before `skw_sdio_boot_cp` has read `fw_deepsleep`, before it
applies the value, and behind that. -/
inductive RecoverDeepSleep
  | idle
  | entered
  | read (enabled : Bool)
  | applied
deriving DecidableEq

/-- What a call returned, and whether it changed the register, `slp_disable` or the parameter. -/
structure SetDeepSleepReturn where
  ret : ℤ
  changed : Bool
deriving DecidableEq

/-- `chip` is the value last written to the register; `failed` says that a register write has
failed. -/
structure DeepSleep where
  bootData : Bool
  chip : ℕ
  slpDisable : ℕ
  fwDeepsleep : Bool
  lock : Option ℕ
  setter : ℕ → SetDeepSleep
  recovery : ℕ → RecoverDeepSleep
  failed : Bool
  returns : List SetDeepSleepReturn

/-- `write` is a call with the outcome of `kstrtobool`; `ok` is that of the register write. -/
inductive DeepSleepEvent
  | write (k : ℕ) (enabled : Option Bool)
  | lock (k : ℕ)
  | apply (k : ℕ) (ok : Bool)
  | store (k : ℕ)
  | recover (j : ℕ)
  | read (j : ℕ)
  | bootApply (j : ℕ) (ok : Bool)
  | recovered (j : ℕ)
deriving DecidableEq

/-- `firmware_value`. -/
def firmwareValue (enabled : Bool) : ℕ := if enabled then 0 else 1

namespace DeepSleep

/-- The register, `slp_disable` and the parameter. -/
def values (s : DeepSleep) : ℕ × ℕ × Bool := (s.chip, s.slpDisable, s.fwDeepsleep)

def setSetter (s : DeepSleep) (k : ℕ) (pc : SetDeepSleep) : DeepSleep :=
  { s with setter := Function.update s.setter k pc }

@[simp] theorem setter_setSetter (s : DeepSleep) (k : ℕ) (pc : SetDeepSleep) :
    (s.setSetter k pc).setter k = pc := Function.update_self ..

theorem setter_setSetter_of_ne (s : DeepSleep) {k i : ℕ} (h : i ≠ k) (pc : SetDeepSleep) :
    (s.setSetter k pc).setter i = s.setter i := Function.update_of_ne h ..

def setRecovery (s : DeepSleep) (j : ℕ) (pc : RecoverDeepSleep) : DeepSleep :=
  { s with recovery := Function.update s.recovery j pc }

/-- The register write of a policy, and `slp_disable` behind it. -/
def setChip (s : DeepSleep) (enabled : Bool) : DeepSleep :=
  { s with chip := firmwareValue enabled, slpDisable := firmwareValue enabled }

/-- `skw_sdio_apply_fw_deepsleep` under `transfer_mutex`, and what it returns. -/
def applyFwDeepsleep (s : DeepSleep) (enabled ok : Bool) : ℤ × DeepSleep :=
  if ¬s.bootData then (-ENODEV, s)
  else if ok then (0, s.setChip enabled)
  else (-1, { s with failed := true })

/-- `skw_set_fw_deepsleep_param` with the lock up to the assignment of the parameter. -/
def applyStep (s : DeepSleep) (k : ℕ) (enabled ok : Bool) : DeepSleep :=
  if s.bootData then
    let (ret, t) := s.applyFwDeepsleep enabled ok
    let changed := t.values != s.values
    if ret ≠ 0 then { t.setSetter k .idle with lock := none, returns := ⟨ret, changed⟩ :: t.returns }
    else t.setSetter k (.applied enabled changed)
  else s.setSetter k (.applied enabled false)

def step (s : DeepSleep) : DeepSleepEvent → Option DeepSleep
  | .write k enabled =>
    if s.setter k = .idle then
      some (match enabled with
        | none => { s with returns := ⟨-EINVAL, false⟩ :: s.returns }
        | some enabled => s.setSetter k (.waiting enabled))
    else none
  | .lock k =>
    match s.setter k with
    | .waiting enabled =>
      if s.lock = none then some { s.setSetter k (.locked enabled) with lock := some k } else none
    | _ => none
  | .apply k ok =>
    match s.setter k with
    | .locked enabled => some (s.applyStep k enabled ok)
    | _ => none
  | .store k =>
    match s.setter k with
    | .applied enabled changed =>
      let t := { s with fwDeepsleep := enabled }
      some { t.setSetter k .idle with
        lock := none
        returns := ⟨0, changed || t.values != s.values⟩ :: t.returns }
    | _ => none
  | .recover j =>
    if s.recovery j = .idle then
      some (if s.bootData then s.setRecovery j .entered else s)
    else none
  | .read j =>
    if s.recovery j = .entered then some (s.setRecovery j (.read s.fwDeepsleep)) else none
  | .bootApply j ok =>
    match s.recovery j with
    | .read enabled => some ((s.applyFwDeepsleep enabled ok).2.setRecovery j .applied)
    | _ => none
  | .recovered j => if s.recovery j = .applied then some (s.setRecovery j .idle) else none

/-- Nothing is in progress, and the chip has been booted with the policy of the parameter. -/
def init (bootData enabled : Bool) : DeepSleep where
  bootData := bootData
  chip := firmwareValue enabled
  slpDisable := firmwareValue enabled
  fwDeepsleep := enabled
  lock := none
  setter := fun _ => .idle
  recovery := fun _ => .idle
  failed := false
  returns := []

/-- The policy that the parameter has, or will have when the call that has applied one stores it. -/
def policy (s : DeepSleep) : Bool :=
  (s.lock.bind fun k => (s.setter k).pending).getD s.fwDeepsleep

/-- A recovery applies a value that is still the policy. -/
def Fresh (s : DeepSleep) : DeepSleepEvent → Prop
  | .bootApply j _ =>
    match s.recovery j with
    | .read enabled => enabled = s.policy
    | _ => True
  | _ => True

instance : ∀ s e, Decidable (Fresh s e)
  | s, .bootApply j _ =>
    match h : s.recovery j with
    | .read enabled => decidable_of_iff (enabled = s.policy) (by simp [Fresh, h])
    | .idle | .entered | .applied => isTrue (by simp [Fresh, h])
  | _, .write .. | _, .lock _ | _, .apply .. | _, .store _ | _, .recover _ | _, .read _
  | _, .recovered _ => isTrue trivial

/-- No operation is in progress. -/
def Quiet (s : DeepSleep) : Prop := (∀ k, s.setter k = .idle) ∧ ∀ j, s.recovery j = .idle

/-- The register, `slp_disable` and the parameter express one policy between the operations, as
long as no register write has failed; and a call that returned an error has changed none of them. -/
structure Consistent (s : DeepSleep) : Prop where
  agree : s.bootData = true → s.failed = false → s.Quiet →
    s.chip = firmwareValue s.fwDeepsleep ∧ s.slpDisable = firmwareValue s.fwDeepsleep
  unchanged : ∀ r ∈ s.returns, r.ret ≠ 0 → r.changed = false

/-- The lock is held by the call that is inside, and the register and `slp_disable` have the
policy. -/
structure Inv (s : DeepSleep) : Prop where
  holder : ∀ k, (s.setter k).holds = true → s.lock = some k
  chip : s.bootData = true → s.failed = false → s.chip = firmwareValue s.policy
  slpDisable : s.bootData = true → s.failed = false → s.slpDisable = firmwareValue s.policy
  unchanged : ∀ r ∈ s.returns, r.ret ≠ 0 → r.changed = false

section
variable {s t : DeepSleep}

theorem policy_of_setter {k : ℕ} (h : s.lock = some k) :
    s.policy = (s.setter k).pending.getD s.fwDeepsleep := by
  rw [policy, h]
  rfl

theorem policy_of_unlocked (h : s.lock = none) : s.policy = s.fwDeepsleep := by
  rw [policy, h]
  rfl

/-- A call that neither comes to its applied policy nor leaves it. -/
theorem policy_setSetter {k : ℕ} {pc : SetDeepSleep}
    (h : pc.pending = (s.setter k).pending) : (s.setSetter k pc).policy = s.policy := by
  have hpending : ∀ i, ((s.setSetter k pc).setter i).pending = (s.setter i).pending := by
    intro i
    rcases eq_or_ne i k with rfl | hne
    · rw [setter_setSetter, h]
    · rw [setter_setSetter_of_ne _ hne]
  simp only [policy, hpending]
  rfl

/-- Nothing is said about the policy any more once a register write has failed. -/
theorem Inv.of_failed (hf : t.failed = true) (hh : ∀ k, (t.setter k).holds = true → t.lock = some k)
    (hr : ∀ r ∈ t.returns, r.ret ≠ 0 → r.changed = false) : t.Inv :=
  ⟨hh, fun _ h => absurd (hf.symm.trans h) (by decide),
    fun _ h => absurd (hf.symm.trans h) (by decide),
    hr⟩

theorem applyStep_of_ok (h : s.bootData = true) (k : ℕ) (enabled : Bool) :
    s.applyStep k enabled true = (s.setChip enabled).setSetter k
      (.applied enabled ((s.setChip enabled).values != s.values)) := by
  have happly : s.applyFwDeepsleep enabled true = (0, s.setChip enabled) :=
    (if_neg (not_not.mpr h)).trans (if_pos rfl)
  rw [applyStep, if_pos h, happly]
  exact if_neg (not_not.mpr rfl)

theorem applyStep_of_failed (h : s.bootData = true) (k : ℕ) (enabled : Bool) :
    s.applyStep k enabled false = { s.setSetter k .idle with
      failed := true, lock := none, returns := ⟨-1, s.values != s.values⟩ :: s.returns } := by
  have happly : s.applyFwDeepsleep enabled false = (-1, { s with failed := true }) :=
    (if_neg (not_not.mpr h)).trans (if_neg Bool.false_ne_true)
  rw [applyStep, if_pos h, happly]
  rfl

/-- What a change of the recoveries keeps. -/
theorem Inv.setRecovery (h : s.Inv) (j : ℕ) (pc : RecoverDeepSleep) : (s.setRecovery j pc).Inv :=
  ⟨h.holder, h.chip, h.slpDisable, h.unchanged⟩

theorem holder_setSetter {k : ℕ} {pc : SetDeepSleep} (hpc : pc.holds = false) {lock : Option ℕ}
    (h : ∀ i ≠ k, (s.setter i).holds = true → lock = some i) :
    ∀ i, ((s.setSetter k pc).setter i).holds = true → lock = some i := by
  intro i hi
  rcases eq_or_ne i k with rfl | hne
  · rw [setter_setSetter, hpc] at hi
    cases hi
  · rw [setter_setSetter_of_ne _ hne] at hi
    exact h i hne hi

/-- A call inside the lock is alone in it. -/
theorem Inv.alone (h : s.Inv) {k : ℕ} (hk : (s.setter k).holds = true) {i : ℕ} (hi : i ≠ k) :
    (s.setter i).holds = false := by
  by_contra hne
  have := (h.holder i (Bool.not_eq_false _ ▸ hne)).symm.trans (h.holder k hk)
  exact hi (Option.some.inj this)

theorem Inv.write (h : s.Inv) {k : ℕ} {enabled : Option Bool}
    (hs : s.step (.write k enabled) = some t) : t.Inv := by
  simp only [DeepSleep.step] at hs
  split_ifs at hs with hidle
  cases hs
  cases enabled with
  | none =>
    refine ⟨h.holder, h.chip, h.slpDisable, fun r hr => ?_⟩
    rcases List.mem_cons.mp hr with rfl | hr
    · exact fun _ => rfl
    · exact h.unchanged r hr
  | some enabled =>
    have hp : (s.setSetter k (.waiting enabled)).policy = s.policy :=
      policy_setSetter (by rw [hidle]; rfl)
    exact ⟨holder_setSetter rfl fun i _ => h.holder i, fun hb hf => (h.chip hb hf).trans (by rw [hp]),
      fun hb hf => (h.slpDisable hb hf).trans (by rw [hp]), h.unchanged⟩

theorem Inv.lock (h : s.Inv) {k : ℕ} (hs : s.step (.lock k) = some t) : t.Inv := by
  simp only [DeepSleep.step] at hs
  split at hs
  · next enabled hpc =>
    split_ifs at hs with hlock
    cases hs
    have hnone : ∀ i, (s.setter i).holds = false := by
      intro i
      by_contra hne
      have := h.holder i (Bool.not_eq_false _ ▸ hne)
      rw [hlock] at this
      cases this
    have hp : ({ s.setSetter k (.locked enabled) with lock := some k } : DeepSleep).policy =
        s.policy := by
      rw [policy_of_setter rfl, policy_of_unlocked hlock]
      simp only [setter_setSetter]
      rfl
    refine ⟨fun i hi => ?_, fun hb hf => (h.chip hb hf).trans (by rw [hp]),
      fun hb hf => (h.slpDisable hb hf).trans (by rw [hp]), h.unchanged⟩
    rcases eq_or_ne i k with rfl | hne
    · rfl
    · change ((s.setSetter k (.locked enabled)).setter i).holds = true at hi
      rw [setter_setSetter_of_ne _ hne, hnone i] at hi
      cases hi
  · cases hs

theorem Inv.apply (h : s.Inv) {k : ℕ} {ok : Bool} (hs : s.step (.apply k ok) = some t) :
    t.Inv := by
  simp only [DeepSleep.step] at hs
  split at hs
  · next enabled hpc =>
    cases hs
    have hholds : (s.setter k).holds = true := by rw [hpc]; rfl
    have hlock := h.holder k hholds
    have hkeep : ∀ pc i, ((s.setSetter k pc).setter i).holds = true → s.lock = some i := by
      intro pc i hi
      rcases eq_or_ne i k with rfl | hne
      · exact hlock
      · rw [setter_setSetter_of_ne _ hne] at hi
        exact h.holder i hi
    cases hb : s.bootData with
    | false =>
      have hstep : s.applyStep k enabled ok = s.setSetter k (.applied enabled false) :=
        if_neg (by rw [hb]; exact Bool.false_ne_true)
      rw [hstep]
      exact ⟨hkeep _, fun h' => absurd (hb.symm.trans h') (by decide),
        fun h' => absurd (hb.symm.trans h') (by decide), h.unchanged⟩
    | true =>
      cases ok with
      | true =>
        rw [applyStep_of_ok hb]
        have hpol (changed : Bool) :
            ((s.setChip enabled).setSetter k (.applied enabled changed)).policy = enabled := by
          have hlock' : ((s.setChip enabled).setSetter k (.applied enabled changed)).lock = some k :=
            hlock
          rw [policy_of_setter hlock', setter_setSetter]
          rfl
        exact ⟨hkeep _, fun _ _ => congrArg firmwareValue (hpol _).symm,
          fun _ _ => congrArg firmwareValue (hpol _).symm, h.unchanged⟩
      | false =>
        rw [applyStep_of_failed hb]
        refine .of_failed rfl (holder_setSetter rfl fun i hi hh => ?_) fun r hr => ?_
        · rw [h.alone hholds hi] at hh
          cases hh
        · rcases List.mem_cons.mp hr with rfl | hr
          · exact fun _ => bne_self_eq_false _
          · exact h.unchanged r hr
  · cases hs

theorem Inv.store (h : s.Inv) {k : ℕ} (hs : s.step (.store k) = some t) : t.Inv := by
  simp only [DeepSleep.step] at hs
  split at hs
  · next enabled changed hpc =>
    cases hs
    have hholds : (s.setter k).holds = true := by rw [hpc]; rfl
    have hpol : s.policy = enabled := by
      rw [policy_of_setter (h.holder k hholds), hpc]
      rfl
    refine ⟨holder_setSetter rfl fun i hi hh => ?_, fun hb hf => ?_, fun hb hf => ?_,
      fun r hr => ?_⟩
    · rw [h.alone hholds hi] at hh
      cases hh
    · rw [policy_of_unlocked rfl]
      exact hpol ▸ h.chip hb hf
    · rw [policy_of_unlocked rfl]
      exact hpol ▸ h.slpDisable hb hf
    · rcases List.mem_cons.mp hr with rfl | hr
      · exact fun hne => absurd rfl hne
      · exact h.unchanged r hr
  · cases hs

theorem Inv.bootApply (h : s.Inv) {j : ℕ} {ok : Bool} (hg : s.Fresh (.bootApply j ok))
    (hs : s.step (.bootApply j ok) = some t) : t.Inv := by
  simp only [DeepSleep.step] at hs
  split at hs
  · next enabled hpc =>
    cases hs
    have hpol : enabled = s.policy := by
      simp only [Fresh, hpc] at hg
      exact hg
    refine Inv.setRecovery ?_ j .applied
    rw [applyFwDeepsleep]
    split_ifs
    · exact ⟨h.holder, fun _ _ => congrArg firmwareValue hpol, fun _ _ => congrArg firmwareValue hpol,
        h.unchanged⟩
    · exact .of_failed rfl h.holder h.unchanged
    · exact h
  · cases hs

theorem Inv.step (h : s.Inv) {e : DeepSleepEvent} (hg : s.Fresh e) (hs : s.step e = some t) :
    t.Inv := by
  cases e with
  | write k enabled => exact h.write hs
  | lock k => exact h.lock hs
  | apply k ok => exact h.apply hs
  | store k => exact h.store hs
  | recover j =>
    simp only [DeepSleep.step] at hs
    split_ifs at hs
    · cases hs
      exact h.setRecovery j .entered
    · cases hs
      exact h
  | read j =>
    simp only [DeepSleep.step] at hs
    split_ifs at hs
    cases hs
    exact h.setRecovery j _
  | bootApply j ok => exact h.bootApply hg hs
  | recovered j =>
    simp only [DeepSleep.step] at hs
    split_ifs at hs
    cases hs
    exact h.setRecovery j .idle

theorem init_inv (bootData enabled : Bool) : (init bootData enabled).Inv where
  holder k h := by cases h
  chip _ _ := rfl
  slpDisable _ _ := rfl
  unchanged r h := by cases h

/-- Between the operations the parameter is the policy. -/
theorem Quiet.policy_eq (h : s.Quiet) : s.policy = s.fwDeepsleep := by
  cases hl : s.lock with
  | none => exact policy_of_unlocked hl
  | some k =>
    rw [policy_of_setter hl, h.1 k]
    rfl

theorem Inv.consistent (h : s.Inv) : s.Consistent where
  agree hb hf hq := ⟨hq.policy_eq ▸ h.chip hb hf, hq.policy_eq ▸ h.slpDisable hb hf⟩
  unchanged := h.unchanged

/-- In runs in which no recovery applies a value that is no longer the policy, the register,
`slp_disable` and the parameter agree between the operations, and a failed write changes nothing. -/
theorem consistent_of_fresh (bootData enabled : Bool) (s : DeepSleep)
    (h : Lib.Reach step Fresh (init bootData enabled) s) : s.Consistent :=
  (h.invariant (init_inv bootData enabled) fun _ _ _ hi hg hs => hi.step hg hs).consistent

/-- A recovery between two writes of the parameter, one of which waits for the other. -/
theorem consistent_of_fresh_writes :
    ∃ s, Lib.Reach step Fresh (init true false) s ∧ s.fwDeepsleep = true ∧ s.chip = 0 ∧
      s.Consistent := by
  obtain ⟨s, hs, hp⟩ := Lib.exists_reach_of_exec step Fresh (init true false)
    [.write 0 (some true), .write 1 none, .lock 0, .recover 0, .apply 0 true, .store 0, .read 0,
      .bootApply 0 true, .recovered 0]
    (fun s => s.fwDeepsleep && s.chip == 0) (by decide)
  simp only [Bool.and_eq_true, beq_iff_eq] at hp
  exact ⟨s, hs, hp.1, hp.2, consistent_of_fresh true false s hs⟩

/-- A write of the parameter between the read and the apply of a recovery. -/
def staleRun : List DeepSleepEvent :=
  [.recover 0, .read 0, .write 0 (some true), .lock 0, .apply 0 true, .store 0, .bootApply 0 true,
    .recovered 0]

theorem exec_staleRun : (Lib.exec (Lib.guarded step Lib.Free) (init true false) staleRun) =
    some { init true false with
      chip := 1, slpDisable := 1, fwDeepsleep := true, returns := [⟨0, true⟩]
      setter := Function.update (Function.update (Function.update (Function.update
        (fun _ => .idle) 0 (.waiting true)) 0 (.locked true)) 0 (.applied true true)) 0 .idle
      recovery := Function.update (Function.update (Function.update (Function.update
        (fun _ => .idle) 0 .entered) 0 (.read false)) 0 .applied) 0 .idle } := rfl

/-- The recovery writes the policy that the parameter had before. -/
theorem staleRecovery_not_consistent :
    ¬∀ s, Lib.Reach step Lib.Free (init true false) s → s.Consistent := by
  intro h
  have hagree := (h _ (.of_exec exec_staleRun)).agree rfl rfl ⟨fun k => by simp, fun j => by simp⟩
  exact absurd hagree.1 (by decide)

end

end DeepSleep
end Skw
