import Skw.Usb.Service

/-! When a start of a service returns what the chip has accepted, and a failed one is repeated. The
bit of a service is set behind the transfer of a start whatever that returned, so that a failed
transfer must be followed by something that clears the bit. -/
namespace Skw
namespace UsbServices

/-- No start finds the bit that a failed transfer has left, the chip is ready only for what it was told
to start and boots only while no bit is set and no start waits, and a start behind a failed one finds
the chip there. -/
def Sound (s : UsbServices) : ServiceEvent → Prop
  | .call .bt .start => s.wifiDataPdev = false →
      s.serviceStateMap .bt = false ∧ ((s.trace .bt).failed && (s.trace .bt).unready) = false
  | .caller _ =>
    match s.pc with
    | .startCheck v => (s.trace v).unsettled = false
    | .command v .start => (s.trace v).retrying → s.cpState = 0
    | .transfer v .start => (s.trace v).retrying → s.PortUp
    | _ => True
  | .ready v => (s.trace v).accepted
  | .boot => (∀ v, s.serviceStateMap v = false) ∧
      match s.pc with
      | .waiting _ .start _ => False
      | _ => True
  | _ => True

instance (p : Service → Prop) [∀ v, Decidable (p v)] : Decidable (∀ v, p v) :=
  decidable_of_iff (p .wifi ∧ p .bt)
    ⟨fun h v => by cases v with
      | wifi => exact h.1
      | bt => exact h.2, fun h => ⟨h .wifi, h .bt⟩⟩

instance (s : UsbServices) (e : ServiceEvent) : Decidable (s.Sound e) := by
  unfold Sound
  split
  · infer_instance
  · split <;> infer_instance
  · infer_instance
  · refine @instDecidableAnd _ _ inferInstance ?_
    split <;> infer_instance
  · infer_instance

/-- The caller is where no start is being sent and no stop waits. -/
def Quiet : ServicePc → Prop
  | .command _ .start | .transfer _ .start | .waiting .. => False
  | _ => True

/-- The invariant: a bit that is set is one of a service that was accepted, unless a start failed or
a stop is about to clear it; and the bit of a service whose start failed is not set without either. -/
structure Inv (s : UsbServices) : Prop where
  bit : ∀ v, s.serviceStateMap v → (s.trace v).accepted ∨ (s.trace v).unsettled ∨
    ∃ ret, s.pc = .waiting v .stop ret
  due : ∀ v, ((s.trace v).failed ∧ (s.trace v).unready) ∨ (s.trace v).retrying →
    s.serviceStateMap v = false ∨ (s.trace v).unsettled
  fresh : ∀ v, s.pc = .command v .start ∨ s.pc = .transfer v .start → (s.trace v).unready →
    s.serviceStateMap v = false
  waiting : ∀ v ret, s.pc = .waiting v .start ret →
    (0 ≤ ret → (s.trace v).accepted) ∧ ((s.trace v).retrying → s.sent)
  reflects : s.Reflects

/-- A step is about `v`: it leaves the other services as they are, and the caller neither comes to
one of them nor leaves the wait behind a stop of one. -/
structure About (v : Service) (s t : UsbServices) : Prop where
  bit : ∀ w ≠ v, t.serviceStateMap w = s.serviceStateMap w
  trace : ∀ w ≠ v, t.trace w = s.trace w
  stop : ∀ w ≠ v, ∀ ret, s.pc = .waiting w .stop ret → t.pc = .waiting w .stop ret
  sending : ∀ w ≠ v, t.pc = .command w .start ∨ t.pc = .transfer w .start →
    s.pc = .command w .start ∨ s.pc = .transfer w .start
  waiting : ∀ w ≠ v, ∀ ret, t.pc = .waiting w .start ret →
    s.pc = .waiting w .start ret ∧ t.sent = s.sent

/-- The invariant as far as it is about one service. -/
structure InvAt (s : UsbServices) (v : Service) : Prop where
  bit : s.serviceStateMap v → (s.trace v).accepted ∨ (s.trace v).unsettled ∨
    ∃ ret, s.pc = .waiting v .stop ret
  due : ((s.trace v).failed ∧ (s.trace v).unready) ∨ (s.trace v).retrying →
    s.serviceStateMap v = false ∨ (s.trace v).unsettled
  fresh : s.pc = .command v .start ∨ s.pc = .transfer v .start → (s.trace v).unready →
    s.serviceStateMap v = false
  waiting : ∀ ret, s.pc = .waiting v .start ret →
    (0 ≤ ret → (s.trace v).accepted) ∧ ((s.trace v).retrying → s.sent)

variable {s t : UsbServices} {v w : Service} {p : ServicePc} {ret err : ℤ} {cmd : ServiceCommand}

theorem quiet_ne_waiting (h : Quiet p) : p ≠ .waiting v cmd ret := by
  rintro rfl
  exact h

theorem quiet_ne_sending (h : Quiet p) : ¬(p = .command v .start ∨ p = .transfer v .start) := by
  rintro (rfl | rfl) <;> exact h

theorem Inv.bit_of_pc (h : s.Inv) (hs : ∀ v ret, s.pc ≠ .waiting v .stop ret)
    (hv : s.serviceStateMap v) : (s.trace v).accepted ∨ (s.trace v).unsettled := by
  rcases h.bit v hv with ha | hu | ⟨ret, hw⟩
  · exact .inl ha
  · exact .inr hu
  · exact absurd hw (hs v ret)

theorem note_trace_self (f : ServiceTrace → ServiceTrace) :
    (s.note v f).trace v = f (s.trace v) := Function.update_self ..

theorem About.of_quiet (hbit : ∀ w ≠ v, t.serviceStateMap w = s.serviceStateMap w)
    (htrace : ∀ w ≠ v, t.trace w = s.trace w)
    (hs : ∀ w ≠ v, ∀ ret, s.pc ≠ .waiting w .stop ret) (hp : Quiet t.pc) : About v s t where
  bit := hbit
  trace := htrace
  stop w hne ret hw := absurd hw (hs w hne ret)
  sending _ _ hw := absurd hw (quiet_ne_sending hp)
  waiting _ _ _ hw := absurd hw (quiet_ne_waiting hp)

/-- A step about one service keeps the invariant of the others. -/
theorem Inv.about (h : s.Inv) (ha : About v s t) (hv : t.InvAt v) (hr : t.Reflects) : t.Inv where
  bit w hw := by
    rcases eq_or_ne w v with rfl | hne
    · exact hv.bit hw
    · rw [ha.bit w hne] at hw
      rw [ha.trace w hne]
      rcases h.bit w hw with hacc | hset | ⟨ret, hpc⟩
      · exact .inl hacc
      · exact .inr (.inl hset)
      · exact .inr (.inr ⟨ret, ha.stop w hne ret hpc⟩)
  due w := by
    rcases eq_or_ne w v with rfl | hne
    · exact hv.due
    · rw [ha.bit w hne, ha.trace w hne]
      exact h.due w
  fresh w hw := by
    rcases eq_or_ne w v with rfl | hne
    · exact hv.fresh hw
    · rw [ha.bit w hne, ha.trace w hne]
      exact h.fresh w (ha.sending w hne hw)
  waiting w ret hw := by
    rcases eq_or_ne w v with rfl | hne
    · exact hv.waiting ret hw
    · obtain ⟨hpc, hsent⟩ := ha.waiting w hne ret hw
      rw [ha.trace w hne, hsent]
      exact h.waiting w ret hpc
  reflects := hr

/-- Steps that touch neither the bits nor what has happened. -/
theorem Inv.congr (h : s.Inv) (hm : t.serviceStateMap = s.serviceStateMap)
    (ht : t.trace = s.trace) (hp : t.pc = s.pc) (hsent : t.sent = s.sent)
    (hr : t.starts = s.starts) : t.Inv where
  bit := by
    rw [hm, ht, hp]
    exact h.bit
  due := by
    rw [hm, ht]
    exact h.due
  fresh := by
    rw [hm, ht, hp]
    exact h.fresh
  waiting := by
    rw [ht, hp, hsent]
    exact h.waiting
  reflects := by
    unfold Reflects
    rw [hr]
    exact h.reflects

/-- The caller goes on, and no stop has been waiting. -/
theorem Inv.move (h : s.Inv) (hs : ∀ v ret, s.pc ≠ .waiting v .stop ret) (hp : Quiet p) :
    (s.setPc p).Inv where
  bit _ hv := or_assoc.1 (.inl (h.bit_of_pc hs hv))
  due := h.due
  fresh _ hv := absurd hv (quiet_ne_sending hp)
  waiting _ _ hw := absurd hw (quiet_ne_waiting hp)
  reflects := h.reflects

theorem Inv.clearMap (h : s.Inv) : s.clearMap.Inv where
  bit _ hv := by cases hv
  due _ _ := .inl rfl
  fresh _ _ _ := rfl
  waiting := h.waiting
  reflects := h.reflects

theorem Reflects.concat (h : s.Reflects) (hok : 0 ≤ ret → (t.trace v).accepted)
    (hsent : (t.trace v).retrying → t.sent) (ht : t.starts = s.starts) :
    (t.returnStart v ret).Reflects := by
  intro r hr
  rcases List.mem_append.1 hr with hr | hr
  · rw [ht] at hr
    exact h r hr
  · rw [List.mem_singleton.1 hr]
    exact ⟨hok, hsent⟩

/-- A start returns what it may return. -/
theorem Inv.returnStart (h : s.Inv) (hs : ∀ v ret, s.pc ≠ .waiting v .stop ret)
    (hok : 0 ≤ ret → (s.trace v).accepted) (hsent : (s.trace v).retrying → s.sent)
    (hbit : ret < 0 → (s.trace v).unready →
      s.serviceStateMap v = false ∨ (s.trace v).unsettled) : (s.returnStart v ret).Inv := by
  have htrace : (s.returnStart v ret).trace v =
    { s.trace v with failed := decide (ret < 0), retrying := false } := Function.update_self ..
  refine h.about (v := v) (.of_quiet (fun _ _ => rfl) (fun _ hne => Function.update_of_ne hne ..)
    (fun w _ => hs w) trivial) ⟨fun hw => ?_, fun hw => ?_, fun hw => ?_, fun _ hw => ?_⟩
    (h.reflects.concat hok hsent rfl)
  · rw [htrace]
    exact or_assoc.1 (.inl (h.bit_of_pc hs hw))
  · rw [htrace] at hw ⊢
    obtain ⟨hret, hready⟩ := hw.resolve_right Bool.false_ne_true
    exact hbit (of_decide_eq_true hret) hready
  · rcases hw with hw | hw <;> cases hw
  · cases hw

theorem Inv.beginStart (h : s.Inv) (hidle : s.pc = .idle) (v : Service) :
    (s.beginStart v).Inv := by
  have hs : ∀ v ret, s.pc ≠ .waiting v .stop ret := by simp [hidle]
  have hpc : (s.beginStart v).pc = .idle := hidle
  have htrace : (s.beginStart v).trace v = { s.trace v with
    retrying := (s.trace v).failed && (s.trace v).unready, unready := true, failed := false } :=
    Function.update_self ..
  refine h.about (v := v) (.of_quiet (fun _ _ => rfl) (fun _ hne => Function.update_of_ne hne ..)
    (fun w _ => hs w) (by rw [hpc]; trivial))
    ⟨fun hw => ?_, fun hw => ?_, fun hw => ?_, fun _ hw => ?_⟩ h.reflects
  · rw [htrace]
    exact or_assoc.1 (.inl (h.bit_of_pc hs hw))
  · rw [htrace] at hw ⊢
    have hw : (s.trace v).failed ∧ (s.trace v).unready := by simpa using hw
    exact h.due v (.inl hw)
  · rw [hpc] at hw
    rcases hw with hw | hw <;> cases hw
  · cases hidle.symm.trans hw

theorem Inv.callStart (h : s.Inv) (hidle : s.pc = .idle) (hg : s.Sound (.call v .start)) :
    (s.callStart v).Inv := by
  have hbegin := h.beginStart hidle v
  have hstop : ∀ v ret, s.pc ≠ .waiting v .stop ret := by simp [hidle]
  cases v with
  | wifi =>
    apply hbegin.move hstop
    split_ifs <;> trivial
  | bt =>
    unfold UsbServices.callStart
    dsimp only
    split_ifs with hpdev
    · exact hbegin.move hstop trivial
    · obtain ⟨hbit, hdue⟩ := hg (Bool.eq_false_iff.2 hpdev)
      have hretry : ((s.trace .bt).failed && (s.trace .bt).unready) ≠ true := by simp [hdue]
      refine hbegin.returnStart hstop (fun hret => absurd hret (by decide)) ?_
        fun _ _ => .inl hbit
      intro hr
      exact absurd (by simpa [UsbServices.beginStart, note] using hr) hretry

/-- A bit is cleared, and with it what a failed start has left. -/
theorem Inv.settle (h : s.Inv) (hp : Quiet p) (hs : ∀ w ≠ v, ∀ ret, s.pc ≠ .waiting w .stop ret) :
    (((s.setBit v false).note v fun t => { t with unsettled := false }).setPc p).Inv := by
  have hbit : (s.setBit v false).serviceStateMap v = false := Function.update_self ..
  exact h.about (v := v) (.of_quiet (fun _ hne => Function.update_of_ne hne ..)
    (fun _ hne => Function.update_of_ne hne ..) hs hp)
    ⟨fun hw => absurd (hbit.symm.trans hw) Bool.false_ne_true, fun _ => .inl hbit,
      fun hw => absurd hw (quiet_ne_sending hp), fun _ hw => absurd hw (quiet_ne_waiting hp)⟩
    h.reflects

theorem Inv.callStop (h : s.Inv) (hidle : s.pc = .idle) (v : Service) : (s.callStop v).Inv := by
  have hstop : ∀ v ret, s.pc ≠ .waiting v .stop ret := by simp [hidle]
  cases v with
  | wifi =>
    unfold UsbServices.callStop
    dsimp only
    split_ifs
    · exact h.settle trivial fun w _ => hstop w
    · exact h.move hstop trivial
  | bt =>
    unfold UsbServices.callStop
    dsimp only
    split_ifs
    · exact h.move hstop trivial
    · exact h

/-- The test of the bit. -/
theorem Inv.startCheck (h : s.Inv) (hp : s.pc = .startCheck v)
    (hg : (s.trace v).unsettled = false) :
    (if s.serviceStateMap v then s.returnStart v 0 else s.setPc (.command v .start)).Inv := by
  have hstop : ∀ v ret, s.pc ≠ .waiting v .stop ret := by simp [hp]
  have hset : (s.trace v).unsettled ≠ true := by simp [hg]
  split_ifs with hbit
  · refine h.returnStart hstop (fun _ => ?_) (fun hr => ?_) fun hlt => absurd hlt (by decide)
    · exact (h.bit_of_pc hstop hbit).resolve_right hset
    · rcases h.due v (.inr hr) with hb | hu
      · rw [hbit] at hb
        cases hb
      · exact absurd hu hset
  · have hclear : s.serviceStateMap v = false := Bool.eq_false_iff.2 hbit
    refine ⟨fun w hw => or_assoc.1 (.inl (h.bit_of_pc hstop hw)), h.due, ?_, fun w ret hw => ?_,
      h.reflects⟩
    · rintro w (hw | hw) _
      · cases hw
        exact hclear
      · cases hw
    · cases hw

theorem Inv.command (h : s.Inv) (hp : s.pc = .command v cmd)
    (hg : cmd = .start → (s.trace v).retrying → s.cpState = 0) :
    (if s.cpState = 0 then s.setPc (.transfer v cmd) else s.refuse v cmd).Inv := by
  have hstop : ∀ v ret, s.pc ≠ .waiting v .stop ret := by simp [hp]
  split_ifs with hcp
  · refine ⟨fun w hw => or_assoc.1 (.inl (h.bit_of_pc hstop hw)), h.due, ?_, fun w ret hw => ?_,
      h.reflects⟩
    · rintro w (hw | hw)
      · cases hw
      · cases hw
        exact h.fresh v (.inl hp)
    · cases hw
  · cases cmd with
    | start =>
      exact h.returnStart hstop (fun hret => absurd hret (by decide))
        (fun hr => absurd (hg rfl hr) hcp) fun _ hu => .inl (h.fresh v (.inl hp) hu)
    | stop => exact h.move hstop trivial

theorem Inv.transfer (h : s.Inv) (hp : s.pc = .transfer v cmd)
    (hg : cmd = .start → (s.trace v).retrying → s.PortUp) : (s.transfer v cmd err).Inv := by
  have hstop : ∀ v ret, s.pc ≠ .waiting v .stop ret := by simp [hp]
  unfold UsbServices.transfer
  by_cases hup : s.PortUp
  · rw [if_pos hup]
    refine h.about (v := v) ⟨fun _ _ => rfl, fun _ hne => Function.update_of_ne hne ..,
      fun w _ ret hw => absurd hw (hstop w ret), fun _ _ hw => ?_, fun w hne _ hw => ?_⟩
      ⟨fun hw => ?_, fun hw => ?_, fun hw => ?_, fun ret hw => ?_⟩ h.reflects
    · rcases hw with hw | hw <;> cases hw
    · cases hw
      exact absurd rfl hne
    · cases cmd with
      | start =>
        by_cases herr : 0 ≤ err
        · exact .inl (by simp [note_trace_self, herr])
        · refine or_assoc.1 (.inl ?_)
          simpa [note_trace_self, herr] using h.bit_of_pc hstop hw
      | stop => exact .inr (.inr ⟨err, rfl⟩)
    · simp only [note_trace_self] at hw ⊢
      exact h.due v hw
    · rcases hw with hw | hw <;> cases hw
    · cases hw
      exact ⟨fun herr => by simp [note_trace_self, herr], fun _ => rfl⟩
  · rw [if_neg hup]
    refine ⟨fun w hw => or_assoc.1 (.inl (h.bit_of_pc hstop hw)), h.due, fun w hw => ?_,
      fun w ret hw => ?_, h.reflects⟩
    · rcases hw with hw | hw <;> cases hw
    · cases hw
      exact ⟨fun hret => absurd hret (by decide), fun hr => absurd (hg rfl hr) hup⟩

/-- The bit is set whatever the transfer has returned. -/
theorem Inv.finishStart (h : s.Inv) (hp : s.pc = .waiting v .start ret) :
    (s.finish v .start ret).Inv := by
  have hstop : ∀ v ret, s.pc ≠ .waiting v .stop ret := by simp [hp]
  obtain ⟨hacc, hsent⟩ := h.waiting v ret hp
  have hnote : ((s.setBit v true).note v fun t => { t with unsettled := decide (ret < 0) }).trace v =
    { s.trace v with unsettled := decide (ret < 0) } := Function.update_self ..
  have htrace : (s.finish v .start ret).trace v = { s.trace v with
      unsettled := decide (ret < 0), failed := decide (ret < 0), retrying := false } := by
    unfold finish UsbServices.returnStart
    simp only [note_trace_self, setBit]
  have hother (w : Service) (hne : w ≠ v) : (s.finish v .start ret).trace w = s.trace w := by
    unfold finish UsbServices.returnStart
    simp only [note, setBit, Function.update_of_ne hne]
  refine h.about (v := v) (.of_quiet (fun _ hne => Function.update_of_ne hne ..) hother
    (fun w _ => hstop w) trivial) ⟨fun _ => ?_, fun hw => ?_, fun hw => ?_, fun _ hw => ?_⟩
    (h.reflects.concat (fun hret => ?_) (fun hr => ?_) rfl)
  · rw [htrace]
    by_cases hret : 0 ≤ ret
    · exact .inl (hacc hret)
    · exact .inr (.inl (decide_eq_true (not_le.1 hret)))
  · rw [htrace] at hw ⊢
    exact .inr (hw.resolve_right Bool.false_ne_true).1
  · rcases hw with hw | hw <;> cases hw
  · cases hw
  · rw [hnote]
    exact hacc hret
  · rw [hnote] at hr
    exact hsent hr

theorem Inv.callerStep (h : s.Inv) (hg : s.Sound (.caller err)) (ht : s.callerStep err = some t) :
    t.Inv := by
  unfold UsbServices.callerStep at ht
  simp only [Sound] at hg
  cases hp : s.pc with
  | idle =>
    rw [hp] at ht
    cases ht
  | startPolling n =>
    rw [hp] at ht
    cases ht
    apply h.move (by simp [hp])
    split_ifs <;> trivial
  | startCheck v =>
    rw [hp] at ht hg
    cases ht
    exact h.startCheck hp hg
  | stopPolling n =>
    rw [hp] at ht
    cases ht
    apply h.move (by simp [hp])
    split_ifs <;> trivial
  | stopCheck v =>
    rw [hp] at ht
    cases ht
    apply h.move (by simp [hp])
    split_ifs <;> trivial
  | command v cmd =>
    rw [hp] at ht hg
    cases ht
    apply h.command hp
    rintro rfl
    exact hg
  | transfer v cmd =>
    rw [hp] at ht hg
    cases ht
    apply h.transfer hp
    rintro rfl
    exact hg
  | waiting v cmd ret =>
    rw [hp] at ht
    cases ht
    cases cmd with
    | start => exact h.finishStart hp
    | stop =>
      refine h.settle trivial fun w hne ret hw => ?_
      cases hp.symm.trans hw
      exact hne rfl

/-- The chip is ready for a service that it was to start. -/
theorem Inv.ready (h : s.Inv) (hacc : (s.trace v).accepted) : (s.ready v).Inv := by
  have htrace : (s.ready v).trace v = { s.trace v with unready := false, retrying := false } :=
    Function.update_self ..
  refine h.about (v := v) ⟨fun _ hne => Function.update_of_ne hne ..,
    fun _ hne => Function.update_of_ne hne .., fun _ _ _ hw => hw, fun _ _ hw => hw,
    fun _ _ _ hw => ⟨hw, rfl⟩⟩ ⟨fun _ => ?_, fun hw => ?_, fun _ hu => ?_, fun ret _ => ?_⟩ h.reflects
  · rw [htrace]
    exact .inl hacc
  · rw [htrace] at hw
    rcases hw with ⟨-, hu⟩ | hr
    · cases hu
    · cases hr
  · rw [htrace] at hu
    cases hu
  · rw [htrace]
    exact ⟨fun _ => hacc, fun hr => absurd hr Bool.false_ne_true⟩

/-- The chip boots while it has no service that the driver knows of. -/
theorem Inv.boot (h : s.Inv) (hbit : ∀ v, s.serviceStateMap v = false)
    (hp : ∀ v ret, s.pc ≠ .waiting v .start ret) : s.boot.Inv where
  bit v hv := by
    rw [show s.boot.serviceStateMap v = false from hbit v] at hv
    cases hv
  due v _ := .inl (hbit v)
  fresh v _ _ := hbit v
  waiting v ret hw := absurd hw (hp v ret)
  reflects := h.reflects

theorem Inv.step (h : s.Inv) {e : ServiceEvent} (hg : s.Sound e) (ht : s.step e = some t) :
    t.Inv := by
  cases e with
  | call v cmd =>
    simp only [UsbServices.step] at ht
    split_ifs at ht with hidle
    cases ht
    cases cmd with
    | start => exact h.callStart hidle hg
    | stop => exact h.callStop hidle v
  | caller err => exact h.callerStep hg ht
  | ready v =>
    simp only [UsbServices.step] at ht
    split_ifs at ht
    cases ht
    exact h.ready hg
  | btExit =>
    simp only [UsbServices.step] at ht
    split_ifs at ht
    cases ht
    exact h.congr rfl rfl rfl rfl rfl
  | bspReady =>
    simp only [UsbServices.step] at ht
    split_ifs at ht <;> cases ht
    · exact h
    · exact h.congr rfl rfl rfl rfl rfl
  | bspAssert =>
    simp only [UsbServices.step] at ht
    split_ifs at ht
    cases ht
    unfold bspAssert
    split_ifs <;> exact h.congr rfl rfl rfl rfl rfl
  | boot =>
    simp only [UsbServices.step] at ht
    split_ifs at ht
    cases ht
    obtain ⟨hbit, hp⟩ := hg
    refine h.boot hbit fun v ret hw => ?_
    rw [hw] at hp
    exact hp
  | dumped =>
    simp only [UsbServices.step] at ht
    split_ifs at ht
    cases ht
    exact h.clearMap.congr rfl rfl rfl rfl rfl
  | modemAssert =>
    cases ht
    unfold modemAssert
    split_ifs
    · exact h
    · exact h.congr rfl rfl rfl rfl rfl
  | except =>
    simp only [UsbServices.step] at ht
    split_ifs at ht
    cases ht
    unfold except
    split_ifs <;> exact h.congr rfl rfl rfl rfl rfl
  | exceptClear =>
    simp only [UsbServices.step] at ht
    split_ifs at ht
    cases ht
    exact h.clearMap.congr rfl rfl rfl rfl rfl
  | suspend =>
    cases ht
    split_ifs
    · exact h.congr rfl rfl rfl rfl rfl
    · exact h
  | loopStart | loopStop | setPort1 _ | setPdev _ | setModemStatus _ =>
    cases ht
    exact h.congr rfl rfl rfl rfl rfl

theorem inv_init : init.Inv where
  bit v hv := by cases hv
  due v _ := .inl rfl
  fresh v _ _ := rfl
  waiting v ret hw := by cases hw
  reflects r hr := by cases hr

/-- In runs in which no start finds the bit that a failed transfer has left, the chip reports only
what it was told to start and boots only behind a crash that has cleared the bits, and a start
behind a failed one finds the chip, a start returns no error only where it was accepted, and one
behind a failed start sends the command again. -/
theorem reflects_of_sound (s : UsbServices) (h : Lib.Reach step Sound init s) : s.Reflects :=
  (h.invariant inv_init fun _ _ _ hi hg ht => hi.step hg ht).reflects

/-- A start fails while the chip has crashed, and the next one is sent. -/
theorem reflects_of_sound_retried :
    ∃ s, Lib.Reach step Sound init s ∧
      s.starts = [⟨.wifi, -1, false, false, false⟩, ⟨.wifi, 0, true, true, true⟩] ∧
      s.Reflects := by
  obtain ⟨s, hs, hp⟩ := Lib.exists_reach_of_exec step Sound init
    [.setPort1 (some 1), .loopStart, .modemAssert, .call .wifi .start, .caller 0, .caller 0,
      .caller 0, .suspend, .call .wifi .start, .caller 0, .caller 0, .caller 0, .caller 0, .caller 0,
      .ready .wifi]
    (fun s => s.starts == [⟨.wifi, -1, false, false, false⟩, ⟨.wifi, 0, true, true, true⟩])
    (by decide)
  exact ⟨s, hs, by simpa using hp, reflects_of_sound s hs⟩

/-- The transfer of a start fails, and the next start finds the bit set. -/
theorem failedStart_not_reflects : ¬ ∀ s, Lib.Reach step Lib.Free init s → s.Reflects := by
  intro h
  obtain ⟨s, hs, hp⟩ := Lib.exists_reach_of_exec step Lib.Free init
    [.setPort1 (some 1), .call .wifi .start, .caller 0, .caller 0, .caller (-ETIMEDOUT), .caller 0,
      .call .wifi .start, .caller 0]
    (fun s => s.starts ==
      [⟨.wifi, -ETIMEDOUT, false, false, true⟩, ⟨.wifi, 0, false, true, false⟩]) (by decide)
  have hstarts : s.starts =
      [⟨.wifi, -ETIMEDOUT, false, false, true⟩, ⟨.wifi, 0, false, true, false⟩] := by
    simpa using hp
  have hlast := (h s hs ⟨.wifi, 0, false, true, false⟩ (by simp [hstarts])).1 le_rfl
  cases hlast

end UsbServices
end Skw
