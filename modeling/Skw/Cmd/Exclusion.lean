import Skw.Cmd.Lock

/-! Mutual exclusion of commands. The semaphore taken by `skw_msg_try_send` is released by
`skw_cmd_timeout_fn` or by the work item that `skw_msg_try_send_cb` schedules, and nothing but the
order of events keeps the two apart. -/
namespace Skw
namespace CmdSys

/-- Every acquisition of the semaphore was released once, in order, except that of at most one
call, which then alone owns the slot. -/
def Exclusive (s : CmdSys) : Prop :=
  ∃ owner : Option ℕ, s.acquired = s.released ++ owner.toList ∧
    s.count + owner.toList.length = 1 ∧ ∀ k, (s.pc k).owns = true → owner = some k

/-- The calls for which a release outside `skw_msg_xmit_timeout` and `skw_msg_try_send` is under
way. -/
def releasing (s : CmdSys) : List ℕ :=
  s.timeoutFn.toList ++ s.unlockPending.toList ++ (s.unlockRunning.map Prod.fst).toList

/-- The command in the slot is one of `skw_msg_try_send` that was not released and that nothing
is about to release. -/
def Unreleased (s : CmdSys) : Prop :=
  s.cmd.trySend = true ∧ s.cmd.call ∉ s.released ∧ s.releasing = []

instance (s : CmdSys) : Decidable s.Unreleased := inferInstanceAs (Decidable (_ ∧ _))

/-- The timeout function starts for, and `skw_msg_try_send_cb` is called for, an unreleased
command. -/
def OneRelease (s : CmdSys) : CmdStep → Prop
  | .timeoutFn => s.expired.head? = some s.cmd.call ∧ s.Unreleased
  | .txCallback | .abortCallback | .ackCallback => s.cmd.callback = .trySendCb → s.Unreleased
  | _ => True

instance (s : CmdSys) (e : CmdStep) : Decidable (s.OneRelease e) := by
  cases e <;> unfold OneRelease <;> infer_instance

structure Inv (s : CmdSys) (o : Option ℕ) : Prop where
  held : s.Held o
  releasing : s.releasing = [] ∨ ∃ k, s.releasing = [k] ∧ o = some k ∧ (s.pc k).detached = true
  slot : s.cmd.trySend = true → (s.pc s.cmd.call).detached = true ∧ s.cmd.call ∈ s.acquired

variable {s t u : CmdSys} {o : Option ℕ} {e : CmdStep}

theorem init_inv (flags : SkwFlags) (cmd : Cmd) : (init flags cmd).Inv none where
  held := init_held flags cmd
  releasing := .inl rfl
  slot h := by simp [init] at h

/-- The semaphore, the calls and the slot's call. -/
def holdData (s : CmdSys) :=
  (s.count, s.acquired, s.released, s.pc, s.cmd.call, s.cmd.trySend)

private theorem slot_of_same (h : s.Inv o) (hu : t.holdData = s.holdData) :
    t.Held o ∧ t.pc = s.pc ∧
      (t.cmd.trySend = true → (t.pc t.cmd.call).detached = true ∧ t.cmd.call ∈ t.acquired) := by
  simp only [holdData, Prod.mk.injEq] at hu
  obtain ⟨hn, ha, hr, hpc, hc, ht⟩ := hu
  refine ⟨h.held.of_same ⟨hn, ha, hr, hpc⟩, hpc, ?_⟩
  rw [hc, ht, hpc, ha]
  exact h.slot

/-- A step that leaves the semaphore, the slot's call and the releases under way as they are. -/
private theorem Inv.of_same (h : s.Inv o) (hu : t.holdData = s.holdData)
    (hr : t.releasing = s.releasing) : t.Inv o := by
  obtain ⟨hheld, hpc, hslot⟩ := slot_of_same h hu
  refine ⟨hheld, ?_, hslot⟩
  rw [hr, hpc]
  exact h.releasing

/-- An unreleased command of `skw_msg_try_send` holds the semaphore. -/
private theorem Inv.holder (h : s.Inv o) (hu : s.Unreleased) :
    o = some s.cmd.call ∧ (s.pc s.cmd.call).detached = true := by
  obtain ⟨hd, ha⟩ := h.slot hu.1
  rw [h.held.log, List.mem_append] at ha
  exact ⟨by simpa using ha.resolve_left hu.2.1, hd⟩

/-- A release begins for the unreleased command in the slot. -/
private theorem Inv.begin (h : s.Inv o) (hun : s.Unreleased) (hu : t.holdData = s.holdData)
    (hr : t.releasing = [s.cmd.call]) : t.Inv o := by
  obtain ⟨hheld, hpc, hslot⟩ := slot_of_same h hu
  obtain ⟨ho, hd⟩ := h.holder hun
  exact ⟨hheld, .inr ⟨_, hr, ho, hpc ▸ hd⟩, hslot⟩

/-- A release ends: the semaphore is free and nothing else is about to release it. -/
private theorem Inv.finish {k : ℕ} (h : s.Inv o) (hk : k ∈ s.releasing)
    (hc : t.cmd = s.cmd) (hpc : t.pc = s.pc)
    (ht : t.count = s.count + 1 ∧ t.acquired = s.acquired ∧ t.released = s.released ++ [k])
    (hr : t.releasing.length + 1 = s.releasing.length) : t.Inv none := by
  rcases h.releasing with hnil | ⟨j, hj, rfl, hd⟩
  · simp [hnil] at hk
  · have hkj : k = j := by simpa [hj] using hk
    subst hkj
    refine ⟨h.held.release ?_ (fun i _ => by rw [hpc]) ht, .inl ?_, ?_⟩
    · rw [hpc]
      exact CallPc.owns_of_detached hd
    · rw [hj, List.length_singleton] at hr
      exact List.length_eq_zero_iff.mp (by omega)
    · rw [hc, hpc, ht.2.1]
      exact h.slot

private theorem Inv.runCallback (h : s.Inv o)
    (hg : s.cmd.callback = .trySendCb → s.Unreleased) (hs : s.runCallback = some t) : t.Inv o := by
  unfold CmdSys.runCallback at hs
  cases hcb : s.cmd.callback <;> simp only [hcb] at hs <;> cases hs
  case xmitTimeoutCb => exact h.of_same rfl rfl
  case trySendCb =>
    have hun := hg hcb
    have hr := hun.2.2
    refine h.begin hun rfl ?_
    simp only [CmdSys.releasing, List.append_eq_nil_iff, Option.toList_eq_nil_iff] at hr ⊢
    simp [hr]

/-- The calls begin and end no release outside them, and what they put into the slot is theirs:
of `skw_msg_xmit_timeout`, or of a `skw_msg_try_send` that holds the semaphore. -/
private theorem stepCall_slot (hs : s.stepCall e = some t) :
    t.releasing = s.releasing ∧ (∀ j ∈ s.acquired, j ∈ t.acquired) ∧
      (t.cmd.call = s.cmd.call ∧ t.cmd.trySend = s.cmd.trySend ∨ t.cmd.trySend = false ∨
        (t.pc t.cmd.call).detached = true ∧ (s.pc t.cmd.call).owns = true) := by
  cases e <;> simp only [CmdSys.stepCall] at hs
  case xmitTimeout | setCallback | setXmit | wake | timeout | giveUp | out | tryAddTimer |
      trySetCallback | trySetXmit =>
    split_ifs at hs <;> cases hs <;> exact ⟨rfl, fun _ h => h, .inl ⟨rfl, rfl⟩⟩
  case up | tryUp | tryAllowed =>
    split at hs <;> cases hs
    exact ⟨rfl, fun _ h => h, .inl ⟨rfl, rfl⟩⟩
  case down =>
    split at hs
    · split_ifs at hs
      cases hs
      exact ⟨rfl, fun _ h => List.mem_append_left _ h, .inl ⟨rfl, rfl⟩⟩
    · cases hs
  case trySend =>
    split_ifs at hs <;> cases hs
    · exact ⟨rfl, fun _ h => h, .inl ⟨rfl, rfl⟩⟩
    · exact ⟨rfl, fun _ h => List.mem_append_left _ h, .inl ⟨rfl, rfl⟩⟩
  case setCmd k =>
    split at hs
    · cases hs
      split_ifs
      · exact ⟨rfl, fun _ h => h, .inl ⟨rfl, rfl⟩⟩
      · exact ⟨rfl, fun _ h => h, .inr (.inl rfl)⟩
    · cases hs
  case trySetCmd k =>
    split at hs
    · next r hpc =>
      cases hs
      split_ifs
      · exact ⟨rfl, fun _ h => h, .inl ⟨rfl, rfl⟩⟩
      · refine ⟨rfl, fun _ h => h, .inr (.inr ⟨?_, ?_⟩)⟩
        · show (((s.fill k true r).goto k .trySet).pc k).detached = true
          rw [goto_self]
          rfl
        · show (s.pc k).owns = true
          rw [hpc]
          rfl
    · cases hs
  all_goals cases hs

theorem Inv.stepCall (h : s.Inv o) (hs : s.stepCall e = some t) : ∃ o', t.Inv o' := by
  obtain ⟨o', hheld, hkeep⟩ := h.held.stepCall hs
  obtain ⟨hrel, hacq, hslot⟩ := stepCall_slot hs
  refine ⟨o', hheld, ?_, fun htry => ?_⟩
  · rw [hrel]
    refine h.releasing.imp id ?_
    rintro ⟨k, hk, ho, hd⟩
    exact ⟨k, hk, hkeep k ho hd, detached_stepCall hs hd⟩
  · rcases hslot with ⟨hc, hts⟩ | hfalse | ⟨hd, hown⟩
    · rw [hc]
      obtain ⟨hd, ha⟩ := h.slot (hts ▸ htry)
      exact ⟨detached_stepCall hs hd, hacq _ ha⟩
    · rw [hfalse] at htry
      cases htry
    · refine ⟨hd, hacq _ ?_⟩
      rw [h.held.log, h.held.owns _ hown]
      simp

theorem Inv.stepWork (h : s.Inv o) (hg : s.OneRelease e) (hs : s.stepWork e = some t) :
    ∃ o', t.Inv o' := by
  cases e <;> simp only [CmdSys.stepWork] at hs
  case txTake =>
    split_ifs at hs
    cases hs
    exact ⟨o, h.of_same rfl rfl⟩
  case txXmit =>
    split at hs <;> cases hs
    split_ifs <;> exact ⟨o, h.of_same rfl rfl⟩
  case txAbort =>
    split at hs <;> cases hs
    unfold abortCmd
    split_ifs <;> exact ⟨o, h.of_same rfl rfl⟩
  case txNoAck | txDone | ackTest | ackStatus =>
    split at hs <;> cases hs
    exact ⟨o, h.of_same rfl rfl⟩
  case abort =>
    cases hs
    unfold abortCmd
    split_ifs <;> exact ⟨o, h.of_same rfl rfl⟩
  case ackCompare =>
    split_ifs at hs <;> cases hs <;>
      exact ⟨o, h.of_same rfl rfl⟩
  case txCallback =>
    split at hs
    · have hi : Inv { s with tx := .idle } o := h.of_same rfl rfl
      exact ⟨o, hi.runCallback hg hs⟩
    · cases hs
  case ackCallback =>
    split at hs
    · have hi : Inv { s with ack := .idle } o := h.of_same rfl rfl
      exact ⟨o, hi.runCallback hg hs⟩
    · cases hs
  case abortCallback =>
    split_ifs at hs
    have hi : Inv { s with aborts := s.aborts - 1 } o :=
      h.of_same rfl rfl
    exact ⟨o, hi.runCallback hg hs⟩
  case timerExpire =>
    split at hs <;> cases hs
    exact ⟨o, h.of_same rfl rfl⟩
  case timeoutFn =>
    split at hs
    · next k rest hexp hfn =>
      cases hs
      obtain ⟨hk, hun⟩ := hg
      have hk : k = s.cmd.call := by simpa [hexp] using hk
      have hr := hun.2.2
      refine ⟨o, h.begin hun rfl ?_⟩
      simp only [CmdSys.releasing, List.append_eq_nil_iff, Option.toList_eq_nil_iff] at hr ⊢
      simp [hr, hk]
    · cases hs
  case timeoutUp =>
    split at hs
    · next k hfn =>
      cases hs
      exact ⟨none, h.finish (k := k) (by simp [CmdSys.releasing, hfn]) rfl rfl ⟨rfl, rfl, rfl⟩
        (by simp [CmdSys.releasing, CmdSys.release, hfn])⟩
    · cases hs
  case unlockStart =>
    split at hs
    · next k hpe hru =>
      cases hs
      exact ⟨o, h.of_same rfl (by simp [CmdSys.releasing, hpe, hru])⟩
    · cases hs
  case unlockDelTimer =>
    split at hs
    · next k hru =>
      cases hs
      exact ⟨o, h.of_same rfl (by simp [CmdSys.releasing, hru])⟩
    · cases hs
  case unlockUp =>
    split at hs
    · next k hru =>
      cases hs
      exact ⟨none, h.finish (k := k) (by simp [CmdSys.releasing, hru]) rfl rfl ⟨rfl, rfl, rfl⟩
        (by simp [CmdSys.releasing, CmdSys.release, hru]; omega)⟩
    · cases hs
  case setFlags =>
    cases hs
    exact ⟨o, h.of_same rfl rfl⟩
  all_goals cases hs

/-- Runs in which only one release is begun for each command of `skw_msg_try_send` keep the
commands apart. -/
theorem exclusive_of_oneRelease (flags : SkwFlags) (cmd : Cmd) (s : CmdSys)
    (h : Lib.Reach step OneRelease (init flags cmd) s) : s.Exclusive := by
  obtain ⟨o, hi⟩ := h.invariant (I := fun s => ∃ o, s.Inv o) ⟨none, init_inv flags cmd⟩
    fun s e t ⟨o, hi⟩ hg hs => by
      rcases step_cases hs with hs | hs
      · exact hi.stepCall hs
      · exact hi.stepWork hg hs
  exact ⟨o, hi.held.log, hi.held.count, hi.held.owns⟩

/-- An open interface and a slot that was never used. -/
def dataFrame : CmdReq := ⟨0, some ⟨true, false, true⟩, 15, false, false, false⟩

def unused : Cmd := ⟨0, false, 0, 0, 0, false, false, false, false, false, .null⟩

def running : SkwFlags := ⟨false, false, false, false, false⟩

/-- `skw_msg_try_send` up to its return, and the command handed over. -/
def sendFrame (k : ℕ) : List CmdStep :=
  [.trySend k dataFrame, .tryAllowed k, .trySetCmd k, .tryAddTimer k true, .trySetCallback k,
    .trySetXmit k, .txTake, .txXmit, .txNoAck]

/-- The ack of call `k` and the work item it schedules. -/
def ackFrame (k : ℕ) (seq : BitVec 16) : List CmdStep :=
  [.ackCompare ⟨⟨k, 15, seq⟩, 0, false⟩, .ackTest, .ackStatus, .ackCallback, .unlockStart,
    .unlockDelTimer, .unlockUp]

theorem exclusive_of_oneRelease_acked :
    ∃ s, Lib.Reach step OneRelease (init running unused) s ∧ s.released = [1, 2] ∧
      s.Exclusive := by
  obtain ⟨s, hs, hp⟩ := Lib.exists_reach_of_exec step OneRelease (init running unused)
    (sendFrame 1 ++ ackFrame 1 1 ++ sendFrame 2 ++ ackFrame 2 2)
    (fun s => s.released == [1, 2]) (by decide)
  exact ⟨s, hs, by simpa using hp, exclusive_of_oneRelease running unused s hs⟩

/-- The command timer expires, and then the ack arrives: the timeout function has left ACKED
clear, so that the ack is accepted and schedules a second release. -/
theorem late_ack_not_exclusive :
    ¬ ∀ s, Lib.Reach step Lib.Free (init running unused) s → s.Exclusive := by
  intro h
  obtain ⟨s, hs, hp⟩ := Lib.exists_reach_of_exec step Lib.Free (init running unused)
    (sendFrame 1 ++ [.timerExpire, .timeoutFn, .timeoutUp] ++ ackFrame 1 1)
    (fun s => s.count == 2) (by decide)
  obtain ⟨owner, -, hc, -⟩ := h s hs
  have h2 : s.count = 2 := by simpa using hp
  omega

end CmdSys
end Skw
