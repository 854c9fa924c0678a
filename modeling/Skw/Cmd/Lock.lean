import Skw.Cmd.Slot

/-! Who holds the semaphore `cmd.lock`, and what the calls themselves do to it. -/
namespace Skw

/-- The call has taken the semaphore and will release it itself. -/
def CallPc.owns : CallPc → Bool
  | locked _ | set | armed | wait1 | wait2 | timedOut | out | unlocking _ | tryLocked _
  | tryChecked _ | tryUnlocking _ => true
  | _ => false

/-- The command is set by `skw_msg_try_send`, whose caller leaves the release to others. -/
def CallPc.detached : CallPc → Bool
  | trySet | tryTimer | tryArmed | tryReturned _ => true
  | _ => false

namespace CmdSys
variable {s t u : CmdSys} {o : Option ℕ} {e : CmdStep} {k : ℕ} {pc : CallPc}

@[simp] theorem goto_self (s : CmdSys) (k : ℕ) (pc : CallPc) : (s.goto k pc).pc k = pc :=
  Function.update_self ..

@[simp] theorem goto_of_ne (s : CmdSys) {j k : ℕ} (pc : CallPc) (h : j ≠ k) :
    (s.goto k pc).pc j = s.pc j :=
  Function.update_of_ne h ..

/-- `u` differs from `s` in nothing the semaphore and the calls are about. -/
def SameHold (s u : CmdSys) : Prop :=
  u.count = s.count ∧ u.acquired = s.acquired ∧ u.released = s.released ∧ u.pc = s.pc

/-- What a step of a call does to the semaphore: nothing, or it takes it, or it releases it. -/
inductive CallMove (s : CmdSys) (k : ℕ) (pc : CallPc) (u : CmdSys) : Prop
  | keep : s.SameHold u → (pc.owns = true → (s.pc k).owns = true) →
    ((s.pc k).detached = true → pc.detached = true) → CallMove s k pc u
  | take : u = s.acquire k → s.count ≠ 0 → (s.pc k).detached = false → CallMove s k pc u
  | drop : u = s.release k → (s.pc k).owns = true → pc.owns = false →
    (s.pc k).detached = false → CallMove s k pc u

private theorem CallMove.same (hpc : s.pc k = pc) {pc' : CallPc} (hu : s.SameHold u)
    (ho : pc'.owns = true → pc.owns = true) (hd : pc.detached = true → pc'.detached = true) :
    CallMove s k pc' u := by
  subst hpc
  exact .keep hu ho hd

theorem stepCall_cases (hs : s.stepCall e = some t) :
    ∃ k pc u, t = u.goto k pc ∧ CallMove s k pc u := by
  cases e <;> simp only [CmdSys.stepCall] at hs
  case xmitTimeout k r =>
    split_ifs at hs with hpc <;> cases hs <;>
      exact ⟨k, _, s, rfl, .same hpc (by simp [SameHold]) (by simp [CallPc.owns])
        (by simp [CallPc.detached])⟩
  case down k =>
    split at hs
    · next r hpc =>
      split_ifs at hs with hc
      cases hs
      exact ⟨k, _, _, rfl, .take rfl hc (by rw [hpc]; rfl)⟩
    · cases hs
  case setCmd k | trySetCmd k =>
    split at hs
    · next r hpc =>
      cases hs
      split_ifs
      · exact ⟨k, _, s, rfl,
          .same hpc (by simp [SameHold]) (fun _ => rfl) (by simp [CallPc.detached])⟩
      · exact ⟨k, _, _, rfl,
          .same hpc (by simp [SameHold, fill]) (fun _ => rfl) (by simp [CallPc.detached])⟩
    · cases hs
  case setCallback k | setXmit k | giveUp k | out k =>
    split_ifs at hs with hpc
    cases hs
    exact ⟨k, _, _, rfl, .same hpc (by simp [SameHold]) (fun _ => rfl) (by simp [CallPc.detached])⟩
  case wake k =>
    split_ifs at hs with hpc
    cases hs
    rcases hpc.1 with hpc | hpc <;>
      exact ⟨k, _, s, rfl,
        .same hpc (by simp [SameHold]) (fun _ => rfl) (by simp [CallPc.detached])⟩
  case timeout k =>
    split_ifs at hs with _ hpc hpc <;> cases hs <;>
      exact ⟨k, _, s, rfl,
        .same hpc (by simp [SameHold]) (fun _ => rfl) (by simp [CallPc.detached])⟩
  case up k | tryUp k =>
    split at hs
    · next ret hpc =>
      cases hs
      exact ⟨k, _, _, rfl, .drop rfl (by rw [hpc]; rfl) rfl (by rw [hpc]; rfl)⟩
    · cases hs
  case trySend k r =>
    split_ifs at hs with hpc hc <;> cases hs
    · exact ⟨k, _, s, rfl,
        .same hpc (by simp [SameHold]) (by simp [CallPc.owns]) (fun _ => rfl)⟩
    · exact ⟨k, _, _, rfl, .take rfl hc (by rw [hpc]; rfl)⟩
  case tryAllowed k =>
    split at hs
    · next r hpc =>
      cases hs
      exact ⟨k, _, s, rfl,
        .same hpc (by simp [SameHold]) (fun _ => rfl) (by simp [CallPc.detached])⟩
    · cases hs
  case tryAddTimer k ok | trySetCallback k | trySetXmit k =>
    split_ifs at hs with hpc <;> cases hs <;>
      exact ⟨k, _, _, rfl,
        .same hpc (by simp [SameHold]) (by simp [CallPc.owns]) (fun _ => rfl)⟩
  all_goals cases hs

/-- Call `o`, if any, holds the semaphore; it was the last to take it. -/
structure Held (s : CmdSys) (o : Option ℕ) : Prop where
  count : s.count + o.toList.length = 1
  log : s.acquired = s.released ++ o.toList
  owns : ∀ k, (s.pc k).owns = true → o = some k

theorem init_held (flags : SkwFlags) (cmd : Cmd) : (init flags cmd).Held none :=
  ⟨rfl, rfl, fun _ h => by simp [init, CallPc.owns] at h⟩

theorem Held.of_same (h : s.Held o) (hu : s.SameHold u) : u.Held o := by
  obtain ⟨hc, ha, hr, hpc⟩ := hu
  exact ⟨hc ▸ h.count, ha ▸ hr ▸ h.log, hpc ▸ h.owns⟩

private theorem Held.goto (h : s.Held o) (hpc : pc.owns = true → (s.pc k).owns = true) :
    (s.goto k pc).Held o := by
  refine ⟨h.count, h.log, fun j hj => ?_⟩
  rcases eq_or_ne j k with rfl | hne
  · exact h.owns j (hpc (by simpa using hj))
  · exact h.owns j (by simpa [hne] using hj)

private theorem Held.acquire (h : s.Held o) (hc : s.count ≠ 0) (k : ℕ) (pc : CallPc) :
    o = none ∧ ((s.acquire k).goto k pc).Held (some k) := by
  have hcount := h.count
  have hlog := h.log
  have ho : o = none := by
    cases o with
    | none => rfl
    | some j => simp at hcount; omega
  subst ho
  refine ⟨rfl, ?_, ?_, fun j hj => ?_⟩
  · simp only [Option.toList_none, List.length_nil, Nat.add_zero] at hcount
    simp [CmdSys.acquire, CmdSys.goto, hcount]
  · simpa [CmdSys.acquire, CmdSys.goto] using hlog
  · rcases eq_or_ne j k with rfl | hne
    · rfl
    · cases h.owns j (by simpa [hne, CmdSys.acquire] using hj)

/-- A release on behalf of the holder, once its call does not own the semaphore any more. -/
theorem Held.release (h : s.Held (some k)) (hk : (t.pc k).owns = false)
    (hpc : ∀ j, j ≠ k → t.pc j = s.pc j)
    (ht : t.count = s.count + 1 ∧ t.acquired = s.acquired ∧ t.released = s.released ++ [k]) :
    t.Held none := by
  obtain ⟨hc, ha, hr⟩ := ht
  have hcount := h.count
  have hlog := h.log
  refine ⟨?_, ?_, fun j hj => ?_⟩
  · simp only [Option.toList_some, List.length_singleton] at hcount
    simp only [hc, Option.toList_none, List.length_nil]
    omega
  · simpa [ha, hr] using hlog
  · rcases eq_or_ne j k with rfl | hne
    · simp [hk] at hj
    · rw [hpc j hne] at hj
      exact absurd (Option.some.inj (h.owns j hj)).symm hne

theorem CallPc.owns_of_detached (h : pc.detached = true) : pc.owns = false := by
  cases pc <;> simp_all [CallPc.detached, CallPc.owns]

/-- The calls themselves take and release the semaphore in turn, and touch it no more while a
detached command holds it. -/
theorem Held.stepCall (h : s.Held o) (hs : s.stepCall e = some t) :
    ∃ o', t.Held o' ∧ ∀ j, o = some j → (s.pc j).detached = true → o' = some j := by
  obtain ⟨k, pc, u, rfl, hm⟩ := stepCall_cases hs
  cases hm with
  | keep hu ho _ =>
    refine ⟨o, (h.of_same hu).goto fun hp => ?_, fun j hj _ => hj⟩
    rw [hu.2.2.2]
    exact ho hp
  | take hu hc _ =>
    subst hu
    obtain ⟨ho, hh⟩ := h.acquire hc k pc
    exact ⟨some k, hh, fun j hj _ => by simp [ho] at hj⟩
  | drop hu hown hpc _ =>
    subst hu
    have ho := h.owns k hown
    subst ho
    refine ⟨none, h.release (by simpa using hpc) (fun j hj => ?_) ⟨rfl, rfl, rfl⟩, fun j hj hd => ?_⟩
    · simp [hj, CmdSys.release]
    · cases hj
      rw [CallPc.owns_of_detached hd] at hown
      cases hown

theorem detached_stepCall (hs : s.stepCall e = some t) {j : ℕ} (hj : (s.pc j).detached = true) :
    (t.pc j).detached = true := by
  obtain ⟨k, pc, u, rfl, hm⟩ := stepCall_cases hs
  rcases eq_or_ne j k with rfl | hne
  · cases hm with
    | keep _ _ hd => simpa using hd hj
    | take _ _ hd => simp [hd] at hj
    | drop _ _ _ hd => simp [hd] at hj
  · rw [goto_of_ne _ _ hne]
    cases hm with
    | keep hu _ _ => rwa [hu.2.2.2]
    | take hu _ _ => rwa [hu]
    | drop hu _ _ _ => rwa [hu]

end CmdSys
end Skw
