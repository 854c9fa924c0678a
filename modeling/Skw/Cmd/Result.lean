import Skw.Cmd.Exclusion

/-! The result of `skw_msg_xmit_timeout`. It is read from the slot once DONE is set, so that it is
sound as long as DONE is set for the command in the slot by its own ack. -/
namespace Skw

/-- Whose command the ack handler compared with. -/
def AckPc.call : AckPc → Option ℕ
  | idle => none
  | matched _ k | accepted _ k | copied _ k => some k

/-- Whose XMIT the tx worker took. -/
def TxPc.call : TxPc → Option ℕ
  | idle => none
  | taken k | refused k | sent k | noAck k | doneSet k => some k

namespace CmdSys

/-- A call that asks for an ack returns 0 only for a command that was handed to the bus and whose
ack was accepted with status 0, and otherwise a negative error. -/
def Sound (s : CmdSys) (k : ℕ) (ret : ℤ) : Prop :=
  (∀ i, s.issued k = some i → i.noAck = false) → ret ≤ 0 ∧
    (ret = 0 → ∃ i, s.issued k = some i ∧ i.sent ∈ s.handed ∧
      ∃ a ∈ s.accepted, a.sent.id = i.sent.id ∧ a.sent.seq = i.sent.seq ∧ a.status = 0)

def ResultSound (s : CmdSys) : Prop := ∀ k ret, s.pc k = .returned ret → s.Sound k ret

/-- Transmission is allowed when the tx worker looks, no abort finds an unanswered command, an ack
that matches the slot answers the command in it, and the ack handler and the completion of a
command without ack end before that command is replaced. -/
def Undisturbed (s : CmdSys) (e : CmdStep) : Prop :=
  s.OneRelease e ∧ match e with
    | .txXmit => s.xmitAllowed = true
    | .abort => s.count = 0 → s.cmd.acked = true
    | .ackCompare a => a.sent.id = s.cmd.id → a.sent.seq = s.cmd.seq → a.sent.call = s.cmd.call
    | .ackTest | .ackStatus | .ackCallback => s.ack.call = some s.cmd.call
    | .txDone | .txCallback => s.tx.call = some s.cmd.call
    | _ => True

instance (s : CmdSys) : ∀ e, Decidable (s.Undisturbed e)
  | .txXmit => inferInstanceAs (Decidable (_ ∧ s.xmitAllowed = true))
  | .abort => inferInstanceAs (Decidable (_ ∧ (s.count = 0 → s.cmd.acked = true)))
  | .ackCompare a => inferInstanceAs (Decidable
      (_ ∧ (a.sent.id = s.cmd.id → a.sent.seq = s.cmd.seq → a.sent.call = s.cmd.call)))
  | .ackTest | .ackStatus | .ackCallback =>
    inferInstanceAs (Decidable (_ ∧ s.ack.call = some s.cmd.call))
  | .txDone | .txCallback => inferInstanceAs (Decidable (_ ∧ s.tx.call = some s.cmd.call))
  | .xmitTimeout .. | .down _ | .setCmd _ | .setCallback _ | .setXmit _ | .wake _ | .timeout _
  | .giveUp _ | .out _ | .up _ | .trySend .. | .tryAllowed _ | .trySetCmd _ | .tryAddTimer ..
  | .trySetCallback _ | .trySetXmit _ | .tryUp _ | .txTake | .txAbort | .txNoAck
  | .abortCallback | .timerExpire | .timeoutFn | .timeoutUp | .unlockStart | .unlockDelTimer
  | .unlockUp | .setFlags _ => inferInstanceAs (Decidable (_ ∧ True))

/-- The header in the slot. -/
def header (s : CmdSys) : Sent := ⟨s.cmd.call, s.cmd.id, s.cmd.seq⟩

/-- The command in the slot is still to be answered, which only matters where it asks for an
ack. -/
def Unanswered (s : CmdSys) : Prop := s.cmd.acked = true ∧ (s.cmd.noAck = false → s.cmd.done = false)

/-- What the ack handler relies on; its `call` keeps its command while it is in the slot. -/
def AckOk (s : CmdSys) : AckPc → Prop
  | .idle => True
  | .matched a k => s.issued k ≠ none ∧ a.sent ∈ s.handed ∧ a.sent.call = k
  | .accepted a k => s.issued k ≠ none ∧ a.sent ∈ s.handed ∧ a.sent.call = k ∧
    (s.cmd.call = k → s.Unanswered)
  | .copied a k => s.issued k ≠ none ∧ a.sent ∈ s.handed ∧ a.sent.call = k ∧ a ∈ s.accepted ∧
    (s.cmd.call = k → s.Unanswered ∧ s.cmd.status = a.status)

/-- What a call relies on. -/
def CallOk (s : CmdSys) (k : ℕ) : CallPc → Prop
  | .start | .waiting _ | .locked _ | .tryLocked _ | .tryChecked _ => s.issued k = none
  | .set | .armed | .wait1 | .wait2 | .timedOut => s.cmd.call = k ∧ s.issued k ≠ none
  | .out => s.cmd.call = k ∧ s.issued k ≠ none ∧ s.cmd.done = true
  | .unlocking ret | .returned ret => s.Sound k ret
  | .trySet | .tryTimer | .tryArmed => s.issued k ≠ none
  | .tryUnlocking _ | .tryReturned _ => True

structure SlotInv (s : CmdSys) : Prop where
  slot : s.issued s.cmd.call = some ⟨s.header, s.cmd.noAck⟩ ∨ ∀ k, s.issued k = none
  sent : ∀ x ∈ s.handed, ∃ b, s.issued x.call = some ⟨x, b⟩
  xmit : s.cmd.xmit = true → s.issued s.cmd.call ≠ none
  tx : ∀ k, s.tx.call = some k → s.issued k ≠ none
  noAck : ∀ k, s.tx = .noAck k ∨ s.tx = .doneSet k → s.cmd.call = k → s.cmd.noAck = true
  allowed : ∀ k, s.tx ≠ .refused k
  aborts : s.aborts = 0
  ack : s.AckOk s.ack
  done : s.cmd.done = true → s.cmd.noAck = false → s.cmd.acked = true ∧
    s.header ∈ s.handed ∧ ∃ a ∈ s.accepted, a.sent = s.header ∧ a.status = s.cmd.status

variable {s t u : CmdSys} {o : Option ℕ} {e : CmdStep} {k : ℕ} {pc : CallPc}

private theorem init_slotInv (flags : SkwFlags) (cmd : Cmd) : (init flags cmd).SlotInv := by
  constructor <;> simp [init, TxPc.call, AckOk]

/-- Once a command was issued, the slot holds the one issued last. -/
theorem SlotInv.issued_slot (h : s.SlotInv) (hk : s.issued k ≠ none) :
    s.issued s.cmd.call = some ⟨s.header, s.cmd.noAck⟩ :=
  h.slot.resolve_right fun hn => hk (hn k)

/-- What a call leaves alone that does not fill the slot. -/
def slotData (s : CmdSys) :=
  (s.header, s.cmd.noAck, s.cmd.done, s.cmd.status, s.issued, s.handed, s.accepted, s.tx, s.ack,
    s.aborts)

/-- `t` keeps what the calls rely on. -/
structure Frame (s t : CmdSys) : Prop where
  issued : t.issued = s.issued
  call : t.cmd.call = s.cmd.call
  done : s.cmd.done = true → t.cmd.done = true
  handed : s.handed ⊆ t.handed
  accepted : s.accepted ⊆ t.accepted

private theorem Frame.of_eq (hi : t.issued = s.issued)
    (hc : t.cmd.call = s.cmd.call ∧ t.cmd.done = s.cmd.done) (hh : t.handed = s.handed)
    (ha : t.accepted = s.accepted) : s.Frame t :=
  ⟨hi, hc.1, fun h => hc.2.trans h, fun _ h => hh ▸ h, fun _ h => ha ▸ h⟩

theorem Sound.mono {ret : ℤ} (h : s.Sound k ret) (hi : t.issued k = s.issued k)
    (hh : s.handed ⊆ t.handed) (ha : s.accepted ⊆ t.accepted) : t.Sound k ret := by
  intro hn
  rw [hi] at hn
  obtain ⟨hle, hz⟩ := h hn
  refine ⟨hle, fun h0 => ?_⟩
  obtain ⟨i, hik, hs, a, haa, hm⟩ := hz h0
  exact ⟨i, hi.trans hik, hh hs, a, ha haa, hm⟩

theorem CallOk.mono (h : s.CallOk k pc) (hf : s.Frame t) : t.CallOk k pc := by
  cases pc <;> simp only [CallOk, hf.issued, hf.call] at h ⊢
  case out => exact ⟨h.1, h.2.1, hf.done h.2.2⟩
  case unlocking | returned => exact h.mono (by rw [hf.issued]) hf.handed hf.accepted
  all_goals exact h

private theorem callOk_of_pc (hc : ∀ j, s.CallOk j (s.pc j)) (hpc : s.pc k = pc) : s.CallOk k pc :=
  hpc ▸ hc k

/-- One call moves, the others rely on what is kept. -/
private theorem calls_goto (h : ∀ j, s.CallOk j (s.pc j)) (hf : s.Frame u) (hpc : u.pc = s.pc)
    (hk : u.CallOk k pc) (j : ℕ) : (u.goto k pc).CallOk j ((u.goto k pc).pc j) := by
  rcases eq_or_ne j k with rfl | hne
  · rw [goto_self]
    exact hk.mono (.of_eq rfl ⟨rfl, rfl⟩ rfl rfl)
  · rw [goto_of_ne _ _ hne, hpc]
    exact (h j).mono ⟨hf.issued, hf.call, hf.done, hf.handed, hf.accepted⟩

/-- An error is sound whatever happened to the command. -/
theorem sound_of_neg {ret : ℤ} (h : ret < 0) : s.Sound k ret :=
  fun _ => ⟨h.le, fun h0 => absurd h0 h.ne⟩

/-- The status of a command whose DONE is set is a sound result. -/
theorem SlotInv.sound_status (h : s.SlotInv) (hk : s.issued s.cmd.call ≠ none)
    (hd : s.cmd.done = true) : s.Sound s.cmd.call (0 - s.cmd.status.toNat) := by
  intro hn
  have hi := h.issued_slot hk
  obtain ⟨-, hh, a, ha, hs, hst⟩ := h.done hd (hn _ hi)
  refine ⟨by omega, fun h0 => ⟨_, hi, hh, a, ha, by rw [hs], by rw [hs], ?_⟩⟩
  rw [hst]
  exact BitVec.eq_of_toNat_eq (by simp; omega)

/-- A step of a call that leaves the header, DONE and the status in the slot alone. -/
private theorem SlotInv.of_same (h : s.SlotInv) (hu : u.slotData = s.slotData)
    (ha : s.cmd.acked = true → u.cmd.acked = true)
    (hx : u.cmd.xmit = true → s.issued s.cmd.call ≠ none) : u.SlotInv := by
  simp only [slotData, Prod.mk.injEq] at hu
  obtain ⟨hhd, hno, hdn, hst, hi, hh, hac, htx, hak, hab⟩ := hu
  have hcall : u.cmd.call = s.cmd.call := congrArg Sent.call hhd
  have hun : s.Unanswered → u.Unanswered := fun ⟨h₁, h₂⟩ => ⟨ha h₁, by rwa [hno, hdn]⟩
  refine ⟨?_, ?_, ?_, ?_, ?_, ?_, ?_, ?_, ?_⟩
  · rw [hi, hcall, hhd, hno]; exact h.slot
  · rw [hh, hi]; exact h.sent
  · rw [hi, hcall]; exact hx
  · rw [htx, hi]; exact h.tx
  · rw [htx, hcall, hno]; exact h.noAck
  · rw [htx]; exact h.allowed
  · rw [hab]; exact h.aborts
  · rw [hak]
    have hok := h.ack
    cases hcase : s.ack <;> simp only [hcase, AckOk, hi, hh, hac, hcall, hst] at hok ⊢
    case matched => exact hok
    case accepted => exact ⟨hok.1, hok.2.1, hok.2.2.1, fun hk => hun (hok.2.2.2 hk)⟩
    case copied =>
      exact ⟨hok.1, hok.2.1, hok.2.2.1, hok.2.2.2.1, fun hk => (hok.2.2.2.2 hk).imp hun id⟩
  · rw [hdn, hno, hhd, hh, hac, hst]
    exact fun hd hn => (h.done hd hn).imp ha id

/-- One call moves, and the slot stays. -/
private theorem SlotInv.goto (h : s.SlotInv) (hc : ∀ j, s.CallOk j (s.pc j))
    (hu : u.slotData = s.slotData) (hpc : u.pc = s.pc)
    (ha : s.cmd.acked = true → u.cmd.acked = true)
    (hx : u.cmd.xmit = true → s.issued s.cmd.call ≠ none) (hk : u.CallOk k pc) :
    (u.goto k pc).SlotInv ∧ ∀ j, (u.goto k pc).CallOk j ((u.goto k pc).pc j) := by
  refine ⟨h.of_same hu ha hx, calls_goto hc ?_ hpc hk⟩
  simp only [slotData, Prod.mk.injEq] at hu
  obtain ⟨hhd, -, hdn, -, hi, hh, hac, -⟩ := hu
  exact .of_eq hi ⟨congrArg Sent.call hhd, hdn⟩ hh hac

/-- A new command in the slot. -/
private theorem SlotInv.fill (h : s.SlotInv) (hk : s.issued k = none) (b : Bool) (r : CmdReq) :
    (s.fill k b r).SlotInv := by
  have hne : ∀ j, s.issued j ≠ none → j ≠ k := fun j hj he => hj (he ▸ hk)
  have hup : ∀ j, j ≠ k → (s.fill k b r).issued j = s.issued j :=
    fun j hj => Function.update_of_ne hj ..
  have hself : (s.fill k b r).issued k = some ⟨(s.fill k b r).header, r.noAck⟩ :=
    Function.update_self ..
  refine ⟨.inl hself, fun x hx => ?_, (by intro hx; cases hx), fun j hj => ?_,
    fun j hj he => ?_, h.allowed, h.aborts, ?_, (by intro hd; cases hd)⟩
  · obtain ⟨b', hb⟩ := h.sent x hx
    exact ⟨b', by rw [hup _ (hne _ (by simp [hb])), hb]⟩
  · have := h.tx j hj
    rwa [hup j (hne j this)]
  · have hj' : s.issued j ≠ none :=
      h.tx j (by rcases hj with hj | hj <;> rw [show s.tx = _ from hj] <;> rfl)
    exact absurd he.symm (hne j hj')
  · have hok := h.ack
    show (s.fill k b r).AckOk s.ack
    cases hcase : s.ack <;> simp only [hcase, AckOk] at hok ⊢
    case matched a j => rwa [hup j (hne j hok.1)]
    case accepted a j =>
      refine ⟨by rw [hup j (hne j hok.1)]; exact hok.1, hok.2.1, hok.2.2.1, fun he => ?_⟩
      exact absurd he.symm (hne j hok.1)
    case copied a j =>
      refine ⟨by rw [hup j (hne j hok.1)]; exact hok.1, hok.2.1, hok.2.2.1, hok.2.2.2.1,
        fun he => ?_⟩
      exact absurd he.symm (hne j hok.1)

/-- The holder of the semaphore fills the slot: no other call relies on what was there. -/
private theorem calls_fill (hc : ∀ j, s.CallOk j (s.pc j)) (hh : s.Held o)
    (hk : (s.pc k).owns = true) (b : Bool) (r : CmdReq) (hpc : (s.fill k b r).CallOk k pc)
    (j : ℕ) : ((s.fill k b r).goto k pc).CallOk j (((s.fill k b r).goto k pc).pc j) := by
  rcases eq_or_ne j k with rfl | hne
  · rw [goto_self]
    exact hpc
  · rw [goto_of_ne _ _ hne]
    have hi : (s.fill k b r).issued j = s.issued j := Function.update_of_ne hne ..
    have hown : (s.pc j).owns = false := by
      by_contra ho
      have hj := hh.owns j (by simpa using ho)
      rw [hh.owns k hk] at hj
      exact hne (Option.some.inj hj).symm
    have hj := hc j
    show (s.fill k b r).CallOk j (s.pc j)
    cases hp : s.pc j <;> rw [hp] at hj hown <;> simp only [CallPc.owns, Bool.true_eq_false] at hown
    case returned ret => exact Sound.mono hj hi (fun _ h => h) fun _ h => h
    case tryReturned => exact trivial
    all_goals
      simp only [CallOk, hi] at hj ⊢
      exact hj

theorem stepCall_result (h : s.SlotInv) (hc : ∀ j, s.CallOk j (s.pc j)) (hh : s.Held o)
    (hs : s.stepCall e = some t) : t.SlotInv ∧ ∀ j, t.CallOk j (t.pc j) := by
  have hsame : ∀ (k : ℕ) (pc : CallPc), s.CallOk k pc →
      (s.goto k pc).SlotInv ∧ ∀ j, (s.goto k pc).CallOk j ((s.goto k pc).pc j) :=
    fun k pc hk => h.goto hc rfl rfl id h.xmit hk
  cases e <;> simp only [CmdSys.stepCall] at hs
  case xmitTimeout k r =>
    split_ifs at hs with hpc hal <;> cases hs
    · have hk := callOk_of_pc hc hpc
      exact hsame k _ hk
    · exact hsame k _ (sound_of_neg (by decide))
  case down k =>
    split at hs
    · next r hpc =>
      split_ifs at hs
      cases hs
      have hk := callOk_of_pc hc hpc
      exact h.goto hc rfl rfl id h.xmit hk
    · cases hs
  case setCmd k =>
    split at hs
    · next r hpc =>
      cases hs
      have hk := callOk_of_pc hc hpc
      split_ifs
      · exact hsame k _ (sound_of_neg (by decide))
      · exact ⟨(h.fill hk false r).of_same rfl id (by intro hx; cases hx),
          calls_fill hc hh (by rw [hpc]; rfl) false r
            ⟨rfl, by simp [CmdSys.fill]⟩⟩
    · cases hs
  case setCallback k =>
    split_ifs at hs with hpc
    cases hs
    have hk := callOk_of_pc hc hpc
    exact h.goto hc rfl rfl id h.xmit hk
  case setXmit k =>
    split_ifs at hs with hpc
    cases hs
    have hk := callOk_of_pc hc hpc
    exact h.goto hc rfl rfl id (fun _ => hk.1 ▸ hk.2) hk
  case wake k =>
    split_ifs at hs with hpc
    cases hs
    have hk := hc k
    rcases hpc.1 with hw | hw <;> rw [hw] at hk <;> exact hsame k _ ⟨hk.1, hk.2, hpc.2⟩
  case timeout k =>
    split_ifs at hs with hd hpc hpc <;> cases hs
    all_goals
      have hk := callOk_of_pc hc hpc
      exact hsame k _ hk
  case giveUp k =>
    split_ifs at hs with hpc
    cases hs
    exact h.goto hc rfl rfl (fun _ => rfl) h.xmit (sound_of_neg (by decide))
  case out k =>
    split_ifs at hs with hpc
    cases hs
    have hk := callOk_of_pc hc hpc
    obtain ⟨rfl, hi, hd⟩ := hk
    exact hsame _ _ (h.sound_status hi hd)
  case up k =>
    split at hs
    · next ret hpc =>
      cases hs
      have hk := callOk_of_pc hc hpc
      exact h.goto hc rfl rfl id h.xmit hk
    · cases hs
  case trySend k r =>
    split_ifs at hs with hpc hcount <;> cases hs
    · exact hsame k _ trivial
    · have hk := callOk_of_pc hc hpc
      exact h.goto hc rfl rfl id h.xmit hk
  case tryAllowed k =>
    split at hs
    · next r hpc =>
      cases hs
      have hk := callOk_of_pc hc hpc
      split_ifs
      · exact hsame k _ hk
      · exact hsame k _ trivial
    · cases hs
  case trySetCmd k =>
    split at hs
    · next r hpc =>
      cases hs
      have hk := callOk_of_pc hc hpc
      split_ifs
      · exact hsame k _ trivial
      · exact ⟨(h.fill hk true r).of_same rfl id (by intro hx; cases hx),
          calls_fill hc hh (by rw [hpc]; rfl) true r (by simp [CallOk, CmdSys.fill])⟩
    · cases hs
  case tryAddTimer k ok =>
    split_ifs at hs with hpc <;> cases hs
    all_goals
      have hk := callOk_of_pc hc hpc
      exact h.goto hc rfl rfl id h.xmit hk
  case trySetCallback k =>
    split_ifs at hs with hpc
    cases hs
    have hk := callOk_of_pc hc hpc
    exact h.goto hc rfl rfl id h.xmit hk
  case trySetXmit k =>
    split_ifs at hs with hpc
    cases hs
    have hk := callOk_of_pc hc hpc
    exact h.goto hc rfl rfl id (fun _ => by simp [h.issued_slot hk]) trivial
  case tryUp k =>
    split at hs
    · cases hs
      exact h.goto hc rfl rfl id h.xmit trivial
    · cases hs
  all_goals cases hs

private theorem AckOk.mono {p : AckPc} (h : s.AckOk p) (hf : s.Frame t)
    (hu : s.Unanswered → t.Unanswered) (hst : t.cmd.status = s.cmd.status) : t.AckOk p := by
  cases p <;> simp only [AckOk, hf.issued, hf.call, hst] at h ⊢
  case matched => exact ⟨h.1, hf.handed h.2.1, h.2.2⟩
  case accepted =>
    exact ⟨h.1, hf.handed h.2.1, h.2.2.1, fun hk => hu (h.2.2.2 hk)⟩
  case copied =>
    exact ⟨h.1, hf.handed h.2.1, h.2.2.1, hf.accepted h.2.2.2.1, fun hk => (h.2.2.2.2 hk).imp hu id⟩

/-- The callback of the command in the slot: for `skw_cmd_xmit_timeout_cb` DONE needs its
reason. -/
private theorem SlotInv.runCallback (h : s.SlotInv) (hc : ∀ j, s.CallOk j (s.pc j))
    (hi : s.cmd.noAck = true ∨ s.ack = .idle) (hd : s.cmd.noAck = false →
      s.cmd.acked = true ∧ s.header ∈ s.handed ∧
        ∃ a ∈ s.accepted, a.sent = s.header ∧ a.status = s.cmd.status)
    (hs : s.runCallback = some t) : t.SlotInv ∧ ∀ j, t.CallOk j (t.pc j) := by
  unfold CmdSys.runCallback at hs
  split at hs <;> cases hs
  · refine ⟨{ h with ack := ?_, done := fun _ => hd },
      fun j => (hc j).mono ⟨rfl, rfl, fun _ => rfl, fun _ h => h, fun _ h => h⟩⟩
    rcases hi with hn | hi
    · exact h.ack.mono ⟨rfl, rfl, fun _ => rfl, fun _ h => h, fun _ h => h⟩
        (fun hu => ⟨hu.1, fun hf => by simp [hn] at hf⟩) rfl
    · show AckOk _ s.ack
      rw [hi]
      exact trivial
  · exact ⟨{ h with }, fun j => (hc j).mono (.of_eq rfl ⟨rfl, rfl⟩ rfl rfl)⟩

/-- The tx worker hands the command in the slot over. -/
private theorem SlotInv.handOver (h : s.SlotInv) (hk : s.issued k ≠ none) :
    SlotInv { s with
      handed := s.handed ++ [⟨s.cmd.call, s.cmd.id, s.cmd.seq⟩], tx := .sent k } := by
  refine { h with sent := ?_, tx := ?_, noAck := ?_, allowed := ?_, ack := ?_, done := ?_ }
  · intro x hx
    rcases List.mem_append.mp hx with hx | hx
    · exact h.sent x hx
    · cases List.mem_singleton.mp hx
      exact ⟨_, h.issued_slot hk⟩
  · rintro j ⟨rfl⟩
    exact hk
  · rintro j (hj | hj) <;> cases hj
  · intro j hj
    cases hj
  · exact h.ack.mono ⟨rfl, rfl, id, List.subset_append_left .., fun _ h => h⟩ id rfl
  · exact fun hd hn => (h.done hd hn).imp id (And.imp (List.mem_append_left _) id)

private theorem SlotInv.testNoAck (h : s.SlotInv) (hk : s.issued k ≠ none) :
    SlotInv { s with tx := if s.cmd.noAck then .noAck k else .idle } := by
  refine { h with tx := ?_, noAck := ?_, allowed := ?_ }
  · intro j hj
    split_ifs at hj <;> cases hj
    exact hk
  · intro j hj
    split_ifs at hj with hn
    · exact fun _ => hn
    · rcases hj with hj | hj <;> cases hj
  · intro j hj
    split_ifs at hj

/-- The tx worker sets DONE for a command without acknowledgement. -/
private theorem SlotInv.setDone (h : s.SlotInv) (hk : s.issued k ≠ none)
    (hn : s.cmd.noAck = true) :
    SlotInv { s with cmd := { s.cmd with done := true }, tx := .doneSet k } := by
  refine { h with tx := ?_, noAck := ?_, allowed := ?_, ack := ?_, done := ?_ }
  · rintro j ⟨rfl⟩
    exact hk
  · exact fun _ _ _ => hn
  · intro j hj
    cases hj
  · exact h.ack.mono ⟨rfl, rfl, fun _ => rfl, fun _ h => h, fun _ h => h⟩
      (fun hu => ⟨hu.1, fun hf => by simp [hn] at hf⟩) rfl
  · intro _ hf
    simp [hn] at hf

/-- The first ack of a command that is long enough is accepted, and nothing was DONE before. -/
private theorem SlotInv.testAck {a : Ack} (h : s.SlotInv) (hack : s.ack = .matched a k) :
    SlotInv { s with
      cmd := { s.cmd with acked := true }
      ack := if s.cmd.acked || a.short then .idle else .accepted a k } := by
  have hok := h.ack
  simp only [hack, AckOk] at hok
  refine { h with ack := ?_, done := ?_ }
  · split_ifs with hr
    · exact trivial
    · refine ⟨hok.1, hok.2.1, hok.2.2, fun _ => ⟨rfl, fun hn => ?_⟩⟩
      by_contra hd
      have hacked := (h.done (by simpa using hd) hn).1
      simp [hacked] at hr
  · exact fun hd hn => ⟨rfl, (h.done hd hn).2⟩

private theorem SlotInv.copyStatus {a : Ack} (h : s.SlotInv) (hack : s.ack = .accepted a k)
    (hcall : s.cmd.call = k) :
    SlotInv { s with
      cmd := { s.cmd with status := a.status }, ack := .copied a k
      accepted := s.accepted ++ [a] } := by
  have hok := h.ack
  simp only [hack, AckOk] at hok
  have hun := hok.2.2.2 hcall
  refine { h with ack := ?_, done := ?_ }
  · exact ⟨hok.1, hok.2.1, hok.2.2.1, by simp, fun _ => ⟨hun, rfl⟩⟩
  · intro hd hn
    have hnd := hun.2 hn
    rw [show s.cmd.done = true from hd] at hnd
    cases hnd

theorem stepWork_result (h : s.SlotInv) (hc : ∀ j, s.CallOk j (s.pc j)) (hg : s.Undisturbed e)
    (hs : s.stepWork e = some t) : t.SlotInv ∧ ∀ j, t.CallOk j (t.pc j) := by
  have hframe : ∀ u : CmdSys, s.Frame u → u.pc = s.pc → ∀ j, u.CallOk j (u.pc j) :=
    fun u hu hpc j => hpc ▸ (hc j).mono hu
  obtain ⟨-, hg⟩ := hg
  cases e <;> simp only [CmdSys.stepWork] at hs
  case txTake =>
    split_ifs at hs with hx
    cases hs
    refine ⟨{ h with xmit := ?_, tx := ?_, noAck := ?_, allowed := ?_ },
      hframe _ (.of_eq rfl ⟨rfl, rfl⟩ rfl rfl) rfl⟩
    · exact fun hf => by cases hf
    · rintro k ⟨rfl⟩
      exact h.xmit hx.2
    · rintro k (hk | hk) <;> cases hk
    · exact fun k hk => by cases hk
  case txXmit =>
    split at hs
    · next k htx =>
      rw [if_pos hg] at hs
      cases hs
      exact ⟨h.handOver (h.tx k (by rw [htx]; rfl)),
        hframe _ ⟨rfl, rfl, id, List.subset_append_left .., fun _ h => h⟩ rfl⟩
    · cases hs
  case txAbort =>
    split at hs
    · next k htx => exact absurd htx (h.allowed k)
    · cases hs
  case txNoAck =>
    split at hs
    · next k htx =>
      cases hs
      exact ⟨h.testNoAck (h.tx k (by rw [htx]; rfl)),
        hframe _ (.of_eq rfl ⟨rfl, rfl⟩ rfl rfl) rfl⟩
    · cases hs
  case txDone =>
    split at hs
    · next k htx =>
      cases hs
      have hn : s.cmd.noAck = true :=
        h.noAck k (.inl htx) (by simpa [htx, TxPc.call] using hg.symm)
      exact ⟨h.setDone (h.tx k (by rw [htx]; rfl)) hn,
        hframe _ ⟨rfl, rfl, fun _ => rfl, fun _ h => h, fun _ h => h⟩ rfl⟩
    · cases hs
  case txCallback =>
    split at hs
    · next k htx =>
      have hn : s.cmd.noAck = true :=
        h.noAck k (.inr htx) (by simpa [htx, TxPc.call] using hg.symm)
      have hidle : SlotInv { s with tx := .idle } :=
        { h with
          tx := fun j hj => by cases hj
          noAck := fun j hj => by rcases hj with hj | hj <;> cases hj
          allowed := fun j hj => by cases hj }
      exact hidle.runCallback (hframe _ (.of_eq rfl ⟨rfl, rfl⟩ rfl rfl) rfl) (.inl hn)
        (fun hf => by simp [hn] at hf) hs
    · cases hs
  case abort =>
    cases hs
    have hab : s.abortCmd = s := if_neg fun hx => by simp [hg hx.1] at hx
    rw [hab]
    exact ⟨h, hc⟩
  case abortCallback =>
    rw [if_pos h.aborts] at hs
    cases hs
  case ackCompare a =>
    split_ifs at hs with ha hm <;> cases hs
    · obtain ⟨b, hb⟩ := h.sent _ ha.1
      have hcall := hg hm.1 hm.2
      exact ⟨{ h with ack := ⟨by simp [hcall ▸ hb], ha.1, hcall⟩ },
        hframe _ (.of_eq rfl ⟨rfl, rfl⟩ rfl rfl) rfl⟩
    · exact ⟨{ h with ack := trivial }, hframe _ (.of_eq rfl ⟨rfl, rfl⟩ rfl rfl) rfl⟩
  case ackTest =>
    split at hs
    · next a k hack =>
      cases hs
      exact ⟨h.testAck hack, hframe _ (.of_eq rfl ⟨rfl, rfl⟩ rfl rfl) rfl⟩
    · cases hs
  case ackStatus =>
    split at hs
    · next a k hack =>
      cases hs
      simp only [hack, AckPc.call, Option.some.injEq] at hg
      exact ⟨h.copyStatus hack hg.symm,
        hframe _ ⟨rfl, rfl, id, fun _ h => h, List.subset_append_left ..⟩ rfl⟩
    · cases hs
  case ackCallback =>
    split at hs
    · next a k hack =>
      have hok := h.ack
      simp only [hack, AckOk, AckPc.call, Option.some.injEq] at hok hg
      obtain ⟨hk, hsent, hcall, hacc, hslot⟩ := hok
      obtain ⟨hun, hst⟩ := hslot hg.symm
      have hhd : a.sent = s.header := by
        obtain ⟨b, hb⟩ := h.sent _ hsent
        rw [hcall, hg, h.issued_slot (hg ▸ hk)] at hb
        exact (congrArg Issued.sent (Option.some.inj hb)).symm
      have hidle : SlotInv { s with ack := .idle } := { h with ack := trivial }
      exact hidle.runCallback (hframe _ (.of_eq rfl ⟨rfl, rfl⟩ rfl rfl) rfl) (.inr rfl)
        (fun _ => ⟨hun.1, hhd ▸ hsent, a, hacc, hhd, hst.symm⟩) hs
    · cases hs
  case timerExpire | timeoutFn | timeoutUp | unlockStart | unlockDelTimer | unlockUp =>
    split at hs <;> cases hs
    exact ⟨{ h with }, hframe _ (.of_eq rfl ⟨rfl, rfl⟩ rfl rfl) rfl⟩
  case setFlags =>
    cases hs
    exact ⟨{ h with }, hframe _ (.of_eq rfl ⟨rfl, rfl⟩ rfl rfl) rfl⟩
  all_goals cases hs

/-- Undisturbed runs return sound results. -/
theorem resultSound_of_undisturbed (flags : SkwFlags) (cmd : Cmd) (s : CmdSys)
    (h : Lib.Reach step Undisturbed (init flags cmd) s) : s.ResultSound := by
  obtain ⟨-, -, hc⟩ := h.invariant
    (I := fun s => (∃ o, s.Inv o) ∧ s.SlotInv ∧ ∀ j, s.CallOk j (s.pc j))
    ⟨⟨none, init_inv flags cmd⟩, init_slotInv flags cmd, fun _ => rfl⟩
    fun s e t ⟨⟨o, hi⟩, hsl, hc⟩ hg hs => by
      rcases step_cases hs with hs | hs
      · exact ⟨hi.stepCall hs, stepCall_result hsl hc hi.held hs⟩
      · exact ⟨hi.stepWork hg.1 hs, stepWork_result hsl hc hg hs⟩
  intro k ret hk
  have := hc k
  rwa [hk] at this

/-- `skw_msg_xmit_timeout` up to its first wait, and the tx worker waking. -/
def callFrame (k : ℕ) : List CmdStep :=
  [.xmitTimeout k dataFrame, .down k, .setCmd k, .setCallback k, .setXmit k, .txTake]

theorem resultSound_of_undisturbed_acked :
    ∃ s, Lib.Reach step Undisturbed (init running unused) s ∧ s.pc 1 = .returned 0 ∧
      s.ResultSound := by
  obtain ⟨s, hs, hp⟩ := Lib.exists_reach_of_exec step Undisturbed (init running unused)
    (callFrame 1 ++ [.txXmit, .txNoAck, .ackCompare ⟨⟨1, 15, 1⟩, 0, false⟩, .ackTest, .ackStatus,
      .ackCallback, .wake 1, .out 1, .up 1])
    (fun s => s.pc 1 == .returned 0) (by decide)
  exact ⟨s, hs, by simpa using hp, resultSound_of_undisturbed running unused s hs⟩

/-- BLOCK_TX is set between the checks of `skw_msg_xmit_timeout` and of `skw_bus_cmd_xmit`: the
abort wakes the caller with status 0. -/
theorem aborted_not_resultSound :
    ¬ ∀ s, Lib.Reach step Lib.Free (init running unused) s → s.ResultSound := by
  intro h
  obtain ⟨s, hs, hp⟩ := Lib.exists_reach_of_exec step Lib.Free (init running unused)
    (callFrame 1 ++ [.setFlags { running with blockTx := true }, .txXmit, .txAbort,
      .abortCallback, .wake 1, .out 1, .up 1])
    (fun s => s.pc 1 == .returned 0 && s.handed == [] &&
      s.issued 1 == some ⟨⟨1, 15, 1⟩, false⟩) (by decide)
  simp only [Bool.and_eq_true, beq_iff_eq] at hp
  obtain ⟨⟨hpc, hhanded⟩, hissued⟩ := hp
  obtain ⟨-, hz⟩ := h s hs 1 0 hpc fun i hi => by
    rw [hissued] at hi
    cases hi
    rfl
  obtain ⟨i, -, hmem, -⟩ := hz rfl
  simp [hhanded] at hmem

end CmdSys
end Skw
