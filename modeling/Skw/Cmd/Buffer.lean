import Skw.Cmd.Result

/-! The lifetime of the buffer that a call supplies for the payload of its ack. The handler writes
through the pointer in the slot, and nothing but ACKED, which it sets before it writes, keeps it
from a call that has timed out meanwhile. -/
namespace Skw

def CallPc.isReturned : CallPc → Bool
  | returned _ => true
  | _ => false

/-- `arg` is the buffer of each call and `payload` says that the ack handler has copied the payload.
`argWrites` lists the calls whose buffer was written, and whether the call had returned;
`touched` the command of each ack that changed a status or set DONE, and the command in the
slot. -/
structure ArgSys where
  sys : CmdSys
  arg : ℕ → Ptr
  payload : Bool
  argWrites : List (ℕ × Bool)
  touched : List (ℕ × ℕ)

/-- `len` is the smaller of the lengths of the payload and of the buffer. -/
inductive ArgStep
  | cmd (e : CmdStep)
  | ackPayload (len : ℕ)
deriving DecidableEq

namespace CmdSys

/-- A step of the ack handler that writes the status or sets DONE. -/
def touches (s : CmdSys) (e : CmdStep) : List (ℕ × ℕ) :=
  match e, s.ack with
  | .ackStatus, .accepted a _ => [(a.sent.call, s.cmd.call)]
  | .ackCallback, .copied a _ =>
    if s.cmd.callback = .xmitTimeoutCb then [(a.sent.call, s.cmd.call)] else []
  | _, _ => []

/-- The calls on whose behalf a step releases the semaphore. -/
def releases (s : CmdSys) : CmdStep → List ℕ
  | .up k | .tryUp k => [k]
  | .timeoutUp => s.timeoutFn.toList
  | .unlockUp => (s.unlockRunning.map Prod.fst).toList
  | _ => []

/-- The ack handler works on a command while its call holds the semaphore: an ack matches only
the command it answers, before the semaphore is released for it, and no release for it comes
before the handler ends. -/
def WithinLock (s : CmdSys) (e : CmdStep) : Prop :=
  s.OneRelease e ∧ (∀ k ∈ s.releases e, s.ack.call ≠ some k) ∧ match e with
    | .ackCompare a => a.sent.id = s.cmd.id → a.sent.seq = s.cmd.seq →
      a.sent.call = s.cmd.call ∧ s.cmd.call ∉ s.released
    | _ => True

instance (s : CmdSys) : ∀ e, Decidable (s.WithinLock e)
  | .ackCompare a => inferInstanceAs (Decidable (_ ∧ _ ∧ (a.sent.id = s.cmd.id →
      a.sent.seq = s.cmd.seq → a.sent.call = s.cmd.call ∧ s.cmd.call ∉ s.released)))
  | .xmitTimeout .. | .down _ | .setCmd _ | .setCallback _ | .setXmit _ | .wake _ | .timeout _
  | .giveUp _ | .out _ | .up _ | .trySend .. | .tryAllowed _ | .trySetCmd _ | .tryAddTimer ..
  | .trySetCallback _ | .trySetXmit _ | .tryUp _ | .txTake | .txXmit | .txAbort | .txNoAck
  | .txDone | .txCallback | .abort | .abortCallback | .ackTest | .ackStatus | .ackCallback
  | .timerExpire | .timeoutFn | .timeoutUp | .unlockStart | .unlockDelTimer | .unlockUp
  | .setFlags _ => inferInstanceAs (Decidable (_ ∧ _ ∧ True))

/-- Whether a call has filled the slot, and whether its return released the semaphore. -/
def CallBook (s : CmdSys) (k : ℕ) : CallPc → Prop
  | .start | .waiting _ | .locked _ | .tryLocked _ | .tryChecked _ => s.issued k = none
  | .set | .armed | .wait1 | .wait2 | .timedOut | .out | .trySet | .tryTimer | .tryArmed =>
    s.issued k ≠ none
  | .returned _ => s.issued k ≠ none → k ∈ s.released
  | .unlocking _ | .tryUnlocking _ | .tryReturned _ => True

/-- What the ack handler works on is the command in the slot, whose call holds the semaphore. -/
def AckBook (s : CmdSys) : AckPc → Prop
  | .idle => True
  | .matched a k | .accepted a k | .copied a k =>
    s.cmd.call = k ∧ a.sent.call = k ∧ k ∉ s.released ∧ s.issued k ≠ none

structure Book (s : CmdSys) : Prop where
  calls : ∀ k, s.CallBook k (s.pc k)
  slot : (∃ k, s.issued k ≠ none) → s.issued s.cmd.call ≠ none
  xmit : s.cmd.xmit = true ∨ s.tx ≠ .idle → ∃ k, s.issued k ≠ none
  handed : ∀ x ∈ s.handed, s.issued x.call ≠ none
  acquired : ∀ k, s.issued k ≠ none → k ∈ s.acquired
  ack : s.AckBook s.ack

variable {s t u : CmdSys} {o : Option ℕ} {e : CmdStep} {k : ℕ} {pc : CallPc}

theorem init_book (flags : SkwFlags) (cmd : Cmd) : (init flags cmd).Book := by
  constructor <;> simp [init, CallBook, AckBook]

/-- `u` keeps what the book is about, and releases no semaphore while the handler works on the
command of its holder. -/
structure SameBook (s u : CmdSys) : Prop where
  pc : u.pc = s.pc
  issued : u.issued = s.issued
  call : u.cmd.call = s.cmd.call
  xmit : u.cmd.xmit = true ∨ u.tx ≠ .idle → ∃ k, s.issued k ≠ none
  handed : ∀ x ∈ u.handed, s.issued x.call ≠ none
  acquired : s.acquired ⊆ u.acquired
  released : s.released ⊆ u.released
  free : ∀ k, s.ack.call = some k → k ∉ s.released → k ∉ u.released
  ack : u.ack = s.ack

private theorem CallBook.mono (h : s.CallBook k pc) (hi : u.issued = s.issued)
    (hr : s.released ⊆ u.released) : u.CallBook k pc := by
  cases pc <;> simp only [CallBook, hi] at h ⊢
  case returned => exact fun hk => hr (h hk)
  all_goals exact h

theorem Book.of_same (h : s.Book) (hu : s.SameBook u) : u.Book where
  calls k := hu.pc ▸ (h.calls k).mono hu.issued hu.released
  slot := by rw [hu.issued, hu.call]; exact h.slot
  xmit := by rw [hu.issued]; exact hu.xmit
  handed := by rw [hu.issued]; exact hu.handed
  acquired k := by rw [hu.issued]; exact fun hk => hu.acquired (h.acquired k hk)
  ack := by
    have hb := h.ack
    have hw : ∀ a : Ack, ∀ k, s.ack.call = some k → (s.cmd.call = k ∧ a.sent.call = k ∧
        k ∉ s.released ∧ s.issued k ≠ none) → u.cmd.call = k ∧ a.sent.call = k ∧
        k ∉ u.released ∧ u.issued k ≠ none := by
      intro a k hk hh
      rw [hu.call, hu.issued]
      exact ⟨hh.1, hh.2.1, hu.free k hk hh.2.2.1, hh.2.2.2⟩
    rw [hu.ack]
    cases hs : s.ack with
    | idle => trivial
    | _ a k =>
      rw [hs] at hb
      exact hw a k (by rw [hs]; rfl) hb

/-- What the book is about. -/
def bookData (s : CmdSys) :=
  (s.pc, s.issued, s.cmd.call, s.cmd.xmit, s.tx, s.handed, s.acquired, s.released, s.ack)

private theorem Book.congr (h : s.Book) (hu : u.bookData = s.bookData) : u.Book := by
  simp only [bookData, Prod.mk.injEq] at hu
  obtain ⟨hpc, hi, hc, hx, htx, hh, ha, hr, hack⟩ := hu
  apply h.of_same
  exact { pc := hpc, issued := hi, call := hc, xmit := by rw [hx, htx]; exact h.xmit,
          handed := by rw [hh]; exact h.handed, acquired := fun _ hm => ha ▸ hm,
          released := fun _ hm => hr ▸ hm, free := fun _ _ hn => hr ▸ hn, ack := hack }

private theorem Book.call_of_pc (h : s.Book) (hpc : s.pc k = pc) : s.CallBook k pc :=
  hpc ▸ h.calls k

/-- One call moves. -/
private theorem Book.goto (h : s.Book) (hk : s.CallBook k pc) : (s.goto k pc).Book where
  calls j := by
    rcases eq_or_ne j k with rfl | hne
    · rw [goto_self]
      exact hk.mono rfl fun _ h => h
    · rw [goto_of_ne _ _ hne]
      exact (h.calls j).mono rfl fun _ h => h
  slot := h.slot
  xmit := h.xmit
  handed := h.handed
  acquired := h.acquired
  ack := h.ack

/-- `u` differs from `s` at most in what a call leaves besides its own place. -/
private theorem SameBook.of_eq (h : s.Book) (hp : u.pc = s.pc ∧ u.issued = s.issued)
    (hc : u.cmd.call = s.cmd.call ∧ u.tx = s.tx ∧ u.handed = s.handed ∧ u.ack = s.ack)
    (hx : u.cmd.xmit = true → s.cmd.xmit = true ∨ ∃ k, s.issued k ≠ none)
    (ha : u.acquired = s.acquired ∨ ∃ k, u.acquired = s.acquired ++ [k])
    (hr : u.released = s.released ∨
      ∃ k, u.released = s.released ++ [k] ∧ s.ack.call ≠ some k) : s.SameBook u where
  pc := hp.1
  issued := hp.2
  call := hc.1
  xmit := by
    rw [hc.2.1]
    rintro (hu | hu)
    · exact (hx hu).elim (fun hs => h.xmit (.inl hs)) id
    · exact h.xmit (.inr hu)
  handed := by rw [hc.2.2.1]; exact h.handed
  acquired := by
    rcases ha with ha | ⟨k, ha⟩
    · exact fun _ hm => ha ▸ hm
    · exact fun _ hm => ha ▸ List.mem_append_left _ hm
  released := by
    rcases hr with hr | ⟨k, hr, -⟩
    · exact fun _ hm => hr ▸ hm
    · exact fun _ hm => hr ▸ List.mem_append_left _ hm
  free k hk hn := by
    rcases hr with hr | ⟨j, hr, hj⟩
    · rwa [hr]
    · rw [hr, List.mem_append, List.mem_singleton]
      rintro (hm | rfl)
      · exact hn hm
      · exact hj hk
  ack := hc.2.2.2

/-- A call that holds the semaphore fills the slot; the handler is idle, since it would work on
a command of the holder. -/
private theorem Book.fill (h : s.Book) (hh : s.Held o) (hk : s.issued k = none)
    (hown : (s.pc k).owns = true) (b : Bool) (r : CmdReq)
    (hb : ∀ u : CmdSys, u.issued k ≠ none → u.CallBook k pc) :
    ((s.fill k b r).goto k pc).Book := by
  have ho := hh.owns k hown
  have hlog := hh.log
  rw [ho] at hlog
  have hup : ∀ j, j ≠ k → (s.fill k b r).issued j = s.issued j :=
    fun j hj => Function.update_of_ne hj ..
  have hself : (s.fill k b r).issued k ≠ none := by simp [CmdSys.fill]
  have hne : ∀ j, s.issued j ≠ none → j ≠ k := fun j hj he => hj (he ▸ hk)
  constructor
  · intro j
    rcases eq_or_ne j k with rfl | hj
    · rw [goto_self]
      exact hb _ hself
    · rw [goto_of_ne _ _ hj]
      have hc := h.calls j
      show ((s.fill k b r).goto k pc).CallBook j (s.pc j)
      cases hp : s.pc j <;> simp only [hp, CallBook] at hc ⊢
      case returned =>
        rw [show ((s.fill k b r).goto k pc).issued j = s.issued j from hup j hj]
        exact hc
      all_goals
        first
          | trivial
          | (rw [show ((s.fill k b r).goto k pc).issued j = s.issued j from hup j hj]; exact hc)
  · exact fun _ => hself
  · exact fun _ => ⟨k, hself⟩
  · intro x hx
    have hx := h.handed x hx
    exact (hup _ (hne _ hx)).symm ▸ hx
  · intro j hj
    rcases eq_or_ne j k with rfl | hjk
    · show j ∈ s.acquired
      rw [hlog]
      simp
    · exact h.acquired j ((hup j hjk) ▸ hj)
  · have hb := h.ack
    show AckBook _ s.ack
    cases ha : s.ack with
    | idle => trivial
    | _ a j =>
      rw [ha] at hb
      obtain ⟨-, -, hnot, hj⟩ := hb
      have hmem := h.acquired j hj
      rw [hlog, List.mem_append] at hmem
      exact absurd (by simpa using hmem.resolve_left hnot) (hne j hj)

theorem Book.stepCall (h : s.Book) (hh : s.Held o)
    (hg : ∀ k ∈ s.releases e, s.ack.call ≠ some k) (hs : s.stepCall e = some t) : t.Book := by
  have hstay : ∀ k pc, s.CallBook k pc → (s.goto k pc).Book := fun k pc hk => h.goto hk
  cases e <;> simp only [CmdSys.stepCall] at hs
  case xmitTimeout k r =>
    split_ifs at hs with hpc hal <;> cases hs
    all_goals
      have hk := h.call_of_pc hpc
    · exact hstay k _ hk
    · exact hstay k _ fun hi => absurd hk hi
  case down k =>
    split at hs
    · next r hpc =>
      split_ifs at hs
      cases hs
      have hk := h.call_of_pc hpc
      apply Book.goto
      · exact h.of_same (.of_eq h ⟨rfl, rfl⟩ ⟨rfl, rfl, rfl, rfl⟩ .inl (.inr ⟨k, rfl⟩) (.inl rfl))
      · exact hk
    · cases hs
  case setCmd k =>
    split at hs
    · next r hpc =>
      cases hs
      have hk := h.call_of_pc hpc
      split_ifs
      · exact hstay k _ trivial
      · exact h.fill hh hk (by rw [hpc]; rfl) false r fun _ hi => hi
    · cases hs
  case setCallback k =>
    split_ifs at hs with hpc
    cases hs
    have hk := h.call_of_pc hpc
    apply Book.goto
    · exact h.congr rfl
    · exact hk
  case setXmit k =>
    split_ifs at hs with hpc
    cases hs
    have hk := h.call_of_pc hpc
    apply Book.goto
    · exact h.of_same (.of_eq h ⟨rfl, rfl⟩ ⟨rfl, rfl, rfl, rfl⟩ (fun _ => .inr ⟨k, hk⟩)
        (.inl rfl) (.inl rfl))
    · exact hk
  case wake k =>
    split_ifs at hs with hpc
    cases hs
    have hk := h.calls k
    rcases hpc.1 with hw | hw <;> rw [hw] at hk <;> exact hstay k _ hk
  case timeout k =>
    split_ifs at hs with hd hpc hpc <;> cases hs
    all_goals
      have hk := h.call_of_pc hpc
      exact hstay k _ hk
  case giveUp k =>
    split_ifs at hs
    cases hs
    apply Book.goto
    · exact h.congr rfl
    · exact trivial
  case out k =>
    split_ifs at hs
    cases hs
    exact hstay k _ trivial
  case up k =>
    split at hs
    · cases hs
      have hk := hg k (List.mem_singleton.mpr rfl)
      apply Book.goto
      · exact h.of_same (.of_eq h ⟨rfl, rfl⟩ ⟨rfl, rfl, rfl, rfl⟩ .inl (.inl rfl)
          (.inr ⟨k, rfl, hk⟩))
      · exact fun _ => by simp [CmdSys.release]
    · cases hs
  case trySend k r =>
    split_ifs at hs with hpc hcount <;> cases hs
    · exact hstay k _ trivial
    · have hk := h.call_of_pc hpc
      apply Book.goto
      · exact h.of_same (.of_eq h ⟨rfl, rfl⟩ ⟨rfl, rfl, rfl, rfl⟩ .inl (.inr ⟨k, rfl⟩) (.inl rfl))
      · exact hk
  case tryAllowed k =>
    split at hs
    · next r hpc =>
      cases hs
      have hk := h.call_of_pc hpc
      split_ifs
      · exact hstay k _ hk
      · exact hstay k _ trivial
    · cases hs
  case trySetCmd k =>
    split at hs
    · next r hpc =>
      cases hs
      have hk := h.call_of_pc hpc
      split_ifs
      · exact hstay k _ trivial
      · exact h.fill hh hk (by rw [hpc]; rfl) true r fun _ hi => hi
    · cases hs
  case tryAddTimer k ok =>
    split_ifs at hs with hpc <;> cases hs
    all_goals
      have hk := h.call_of_pc hpc
      apply Book.goto
      · exact h.congr rfl
      · exact hk
  case trySetCallback k =>
    split_ifs at hs with hpc
    cases hs
    have hk := h.call_of_pc hpc
    apply Book.goto
    · exact h.congr rfl
    · exact hk
  case trySetXmit k =>
    split_ifs at hs with hpc
    cases hs
    have hk := h.call_of_pc hpc
    apply Book.goto
    · exact h.of_same (.of_eq h ⟨rfl, rfl⟩ ⟨rfl, rfl, rfl, rfl⟩ (fun _ => .inr ⟨k, hk⟩)
        (.inl rfl) (.inl rfl))
    · exact trivial
  case tryUp k =>
    split at hs
    · cases hs
      have hk := hg k (List.mem_singleton.mpr rfl)
      apply Book.goto
      · exact h.of_same (.of_eq h ⟨rfl, rfl⟩ ⟨rfl, rfl, rfl, rfl⟩ .inl (.inl rfl)
          (.inr ⟨k, rfl, hk⟩))
      · exact trivial
    · cases hs
  all_goals cases hs

private theorem Book.runCallback (h : s.Book) (hs : s.runCallback = some t) : t.Book := by
  unfold CmdSys.runCallback at hs
  split at hs <;> cases hs
  · exact h.congr rfl
  · exact h.congr rfl

/-- A step of the tx worker. -/
private theorem SameBook.of_tx (h : s.Book) {tx : TxPc} (hu : u.pc = s.pc ∧ u.issued = s.issued)
    (hc : u.cmd.call = s.cmd.call ∧ u.tx = tx ∧ u.handed = s.handed ∧ u.ack = s.ack)
    (hx : u.cmd.xmit = true → s.cmd.xmit = true)
    (htx : tx ≠ .idle → s.cmd.xmit = true ∨ s.tx ≠ .idle)
    (hr : u.acquired = s.acquired ∧ u.released = s.released) : s.SameBook u where
  pc := hu.1
  issued := hu.2
  call := hc.1
  xmit := by
    rw [hc.2.1]
    rintro (hu | hu)
    · exact h.xmit (.inl (hx hu))
    · exact h.xmit (htx hu)
  handed := by rw [hc.2.2.1]; exact h.handed
  acquired _ hm := hr.1 ▸ hm
  released _ hm := hr.2 ▸ hm
  free _ _ hn := hr.2 ▸ hn
  ack := hc.2.2.2

theorem Book.stepWork (h : s.Book) (hg : s.WithinLock e) (hs : s.stepWork e = some t) :
    t.Book := by
  obtain ⟨-, hrel, hg⟩ := hg
  cases e <;> simp only [CmdSys.stepWork] at hs
  case txTake =>
    split_ifs at hs with hx
    cases hs
    exact h.of_same (.of_tx h ⟨rfl, rfl⟩ ⟨rfl, rfl, rfl, rfl⟩ (fun hf => by cases hf)
      (fun _ => .inl hx.2) ⟨rfl, rfl⟩)
  case txXmit =>
    split at hs
    · next k htx =>
      have hk : s.tx ≠ .idle := by simp [htx]
      cases hs
      split_ifs
      · have hi := h.slot (h.xmit (.inr hk))
        refine h.of_same
          { pc := rfl, issued := rfl, call := rfl, xmit := fun _ => h.xmit (.inr hk), handed := ?_
            acquired := fun _ h => h, released := fun _ h => h, free := fun _ _ hn => hn
            ack := rfl }
        intro x hx
        rcases List.mem_append.mp hx with hx | hx
        · exact h.handed x hx
        · cases List.mem_singleton.mp hx
          exact hi
      · exact h.of_same (.of_tx h ⟨rfl, rfl⟩ ⟨rfl, rfl, rfl, rfl⟩ id (fun _ => .inr hk) ⟨rfl, rfl⟩)
    · cases hs
  case txAbort =>
    split at hs
    · next k htx =>
      have hk : s.tx ≠ .idle := by simp [htx]
      cases hs
      unfold abortCmd
      split_ifs <;>
        exact h.of_same (.of_tx h ⟨rfl, rfl⟩ ⟨rfl, rfl, rfl, rfl⟩ id (fun _ => .inr hk) ⟨rfl, rfl⟩)
    · cases hs
  case txNoAck | txDone =>
    split at hs
    · next k htx =>
      have hk : s.tx ≠ .idle := by simp [htx]
      cases hs
      exact h.of_same (.of_tx h ⟨rfl, rfl⟩ ⟨rfl, rfl, rfl, rfl⟩ id (fun _ => .inr hk) ⟨rfl, rfl⟩)
    · cases hs
  case txCallback =>
    split at hs
    · next k htx =>
      have hi : Book { s with tx := .idle } := h.of_same (.of_tx h ⟨rfl, rfl⟩
        ⟨rfl, rfl, rfl, rfl⟩ id (fun hf => absurd rfl hf) ⟨rfl, rfl⟩)
      exact hi.runCallback hs
    · cases hs
  case abort =>
    cases hs
    unfold abortCmd
    split_ifs
    · exact h.congr rfl
    · exact h
  case abortCallback =>
    split_ifs at hs
    have hi : Book { s with aborts := s.aborts - 1 } :=
      h.congr rfl
    exact hi.runCallback hs
  case ackCompare a =>
    split_ifs at hs with ha hm <;> cases hs
    · obtain ⟨hcall, hnot⟩ := hg hm.1 hm.2
      exact { h with ack := ⟨rfl, hcall, hnot, hcall ▸ h.handed _ ha.1⟩ }
    · exact { h with ack := trivial }
  case ackTest =>
    split at hs
    · next a k hack =>
      cases hs
      have hb := h.ack
      rw [hack] at hb
      refine { h with ack := ?_ }
      dsimp only
      split_ifs
      · exact trivial
      · exact hb
    · cases hs
  case ackStatus =>
    split at hs
    · next a k hack =>
      cases hs
      have hb := h.ack
      rw [hack] at hb
      exact { h with ack := hb }
    · cases hs
  case ackCallback =>
    split at hs
    · have hi : Book { s with ack := .idle } := { h with ack := trivial }
      exact hi.runCallback hs
    · cases hs
  case timerExpire | timeoutFn | unlockStart | unlockDelTimer =>
    split at hs <;> cases hs
    exact h.congr rfl
  case timeoutUp =>
    split at hs
    · next k hfn =>
      cases hs
      have hk := hrel k (by simp [CmdSys.releases, hfn])
      exact h.of_same (.of_eq h ⟨rfl, rfl⟩ ⟨rfl, rfl, rfl, rfl⟩ .inl (.inl rfl) (.inr ⟨k, rfl, hk⟩))
    · cases hs
  case unlockUp =>
    split at hs
    · next k hru =>
      cases hs
      have hk := hrel k (by simp [CmdSys.releases, hru])
      exact h.of_same (.of_eq h ⟨rfl, rfl⟩ ⟨rfl, rfl, rfl, rfl⟩ .inl (.inl rfl) (.inr ⟨k, rfl, hk⟩))
    · cases hs
  case setFlags =>
    cases hs
    exact h.congr rfl
  all_goals cases hs

end CmdSys

namespace ArgSys

/-- The callback comes after the copy of the payload. -/
def step (s : ArgSys) : ArgStep → Option ArgSys
  | .cmd e =>
    if e = .ackCallback ∧ s.payload = false then none
    else (s.sys.step e).map fun sys =>
      { s with
        sys, payload := if e = .ackCallback then false else s.payload
        touched := s.touched ++ s.sys.touches e }
  | .ackPayload len =>
    match s.sys.ack with
    | .copied _ _ =>
      if s.payload then none
      else
        let k := s.sys.cmd.call
        some { s with
          payload := true
          argWrites := if s.arg k ≠ 0 ∧ 0 < len then
            s.argWrites ++ [(k, (s.sys.pc k).isReturned)] else s.argWrites }
    | _ => none

/-- A slot that was never used, and any buffers. -/
def init (flags : SkwFlags) (cmd : Cmd) (arg : ℕ → Ptr) : ArgSys where
  sys := .init flags cmd
  arg := arg
  payload := false
  argWrites := []
  touched := []

/-- No buffer is written after its call has returned, and no ack touches another command. -/
def BufferSafe (s : ArgSys) : Prop :=
  (∀ w ∈ s.argWrites, w.2 = false) ∧ ∀ p ∈ s.touched, p.1 = p.2

def Locked (s : ArgSys) : ArgStep → Prop
  | .cmd e => s.sys.WithinLock e
  | .ackPayload _ => True

instance (s : ArgSys) : ∀ e, Decidable (s.Locked e)
  | .cmd e => inferInstanceAs (Decidable (s.sys.WithinLock e))
  | .ackPayload _ => inferInstanceAs (Decidable True)

structure Inv (s : ArgSys) : Prop where
  excl : ∃ o, s.sys.Inv o
  book : s.sys.Book
  safe : s.BufferSafe

variable {s t : ArgSys} {e : ArgStep}

/-- What an ack touches is the command it answers. -/
theorem touches_eq {s : CmdSys} {e : CmdStep} (h : s.Book) : ∀ p ∈ s.touches e, p.1 = p.2 := by
  intro p hp
  have hb := h.ack
  unfold CmdSys.touches at hp
  split at hp
  · next a k hack =>
    rw [hack] at hb
    rw [List.mem_singleton.mp hp]
    exact hb.2.1.trans hb.1.symm
  · next a k hack =>
    rw [hack] at hb
    split at hp
    · rw [List.mem_singleton.mp hp]
      exact hb.2.1.trans hb.1.symm
    · cases hp
  · cases hp

/-- The call that the handler works for has not returned. -/
theorem not_returned {s : CmdSys} {a : Ack} {k : ℕ} (h : s.Book) (hack : s.ack = .copied a k) :
    (s.pc s.cmd.call).isReturned = false := by
  have hb := h.ack
  rw [hack] at hb
  obtain ⟨hcall, -, hnot, hi⟩ := hb
  rw [hcall]
  have hc := h.calls k
  cases hp : s.pc k with
  | returned ret =>
    rw [hp] at hc
    exact absurd (hc hi) hnot
  | _ => rfl

theorem Inv.step (h : s.Inv) (hg : s.Locked e) (hs : step s e = some t) : t.Inv := by
  obtain ⟨⟨o, hi⟩, hb, hw, ht⟩ := h
  cases e with
  | cmd e =>
    simp only [ArgSys.step] at hs
    by_cases hx : e = .ackCallback ∧ s.payload = false
    · rw [if_pos hx] at hs
      cases hs
    rw [if_neg hx] at hs
    obtain ⟨u, hu, rfl⟩ := Option.map_eq_some_iff.mp hs
    refine ⟨?_, ?_, hw, fun p hp => ?_⟩
    · rcases CmdSys.step_cases hu with hu | hu
      · exact hi.stepCall hu
      · exact hi.stepWork hg.1 hu
    · rcases CmdSys.step_cases hu with hu | hu
      · exact hb.stepCall hi.held hg.2.1 hu
      · exact hb.stepWork hg hu
    · rcases List.mem_append.mp hp with hp | hp
      · exact ht p hp
      · exact touches_eq hb p hp
  | ackPayload len =>
    simp only [ArgSys.step] at hs
    split at hs
    · next a k hack =>
      split_ifs at hs <;> cases hs
      · refine ⟨⟨o, hi⟩, hb, fun w hw' => ?_, ht⟩
        rcases List.mem_append.mp hw' with hw' | hw'
        · exact hw w hw'
        · rw [List.mem_singleton.mp hw']
          exact not_returned hb hack
      · exact ⟨⟨o, hi⟩, hb, hw, ht⟩
    · cases hs

/-- Runs in which the ack handler works on a command only while its call holds the semaphore
write no buffer after the return of its call, and touch no later command. -/
theorem bufferSafe_of_locked (flags : SkwFlags) (cmd : Cmd) (arg : ℕ → Ptr) (s : ArgSys)
    (h : Lib.Reach step Locked (init flags cmd arg) s) : s.BufferSafe :=
  (h.invariant (I := Inv)
    ⟨⟨none, CmdSys.init_inv flags cmd⟩, CmdSys.init_book flags cmd, by simp [init], by simp [init]⟩
    fun _ _ _ hi hg hs => hi.step hg hs).safe

/-- Steps other than the copy of the payload. -/
def others (l : List CmdStep) : List ArgStep := l.map .cmd

/-- A call whose ack comes in time. -/
theorem bufferSafe_of_locked_acked :
    ∃ s, Lib.Reach step Locked (init CmdSys.running CmdSys.unused fun _ => 1) s ∧
      s.argWrites = [(1, false)] ∧ s.BufferSafe := by
  obtain ⟨s, hs, hp⟩ := Lib.exists_reach_of_exec step Locked
    (init CmdSys.running CmdSys.unused fun _ => 1)
    (others (CmdSys.callFrame 1) ++ others [.txXmit, .txNoAck, .ackCompare ⟨⟨1, 15, 1⟩, 0, false⟩,
      .ackTest, .ackStatus] ++ [.ackPayload 4] ++ others [.ackCallback, .wake 1, .out 1, .up 1])
    (fun s => s.argWrites == [(1, false)]) (by decide)
  exact ⟨s, hs, by simpa using hp, bufferSafe_of_locked _ _ _ s hs⟩

/-- The call times out after the handler has set ACKED, and the payload is copied when it has
returned. -/
theorem timedOut_not_bufferSafe :
    ¬ ∀ s, Lib.Reach step Lib.Free (init CmdSys.running CmdSys.unused fun _ => 1) s →
      s.BufferSafe := by
  intro h
  obtain ⟨s, hs, hp⟩ := Lib.exists_reach_of_exec step Lib.Free
    (init CmdSys.running CmdSys.unused fun _ => 1)
    (others (CmdSys.callFrame 1) ++ others [.txXmit, .txNoAck, .timeout 1,
      .ackCompare ⟨⟨1, 15, 1⟩, 0, false⟩, .ackTest, .timeout 1, .giveUp 1, .up 1, .ackStatus] ++
      [.ackPayload 4])
    (fun s => s.argWrites == [(1, true)]) (by decide)
  obtain ⟨hw, -⟩ := h s hs
  have hx := hw (1, true) (by rw [beq_iff_eq.mp hp]; exact List.mem_singleton.mpr rfl)
  cases hx

end ArgSys
end Skw
