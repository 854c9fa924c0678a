import Skw.Lib.Machine
import Skw.Kernel.Types
import Mathlib.Data.List.Perm.Basic

/-! The work that handles events, `skw_event_work`: buffers go into its list by
`skw_queue_event_work`, which looks at `enabled` before and queues the work after, and the work takes
them out one by one. `skw_event_work_deinit` stops it. Senders, work and deinit run side by side. -/
namespace Skw
variable {P : Type*}

/-- A call of `skw_queue_event_work`: it has seen `enabled`, or its buffer is in the list and the
work is still to be queued. -/
inductive EventSender
  | idle
  | checked (skb : Ptr)
  | tailed
deriving DecidableEq

/-- The work: at the head of its loop, or in the handler with a buffer. -/
inductive EventWorker
  | idle
  | loop
  | handling (skb : Ptr)
deriving DecidableEq

/-- `skw_event_work_deinit`: `cancel_work_sync` holds the pending bit while it waits. -/
inductive EventDeinit
  | off
  | disabled
  | cancelling
  | cancelled
  | done
deriving DecidableEq

/-- The work with all calls under way, and a record of what became of the buffers. -/
structure EventWork (P : Type*) where
  enabled : Bool
  qlist : List Ptr
  pending : Bool
  worker : EventWorker
  sender : P → EventSender
  deinit : EventDeinit
  tailed : List Ptr
  handled : List Ptr
  purged : List Ptr
  refused : List Ptr

inductive EventWorkStep (P : Type*)
  | offer (p : P) (skb : Ptr)
  | tail (p : P)
  | kick (p : P)
  | start
  | dequeue
  | handle
  | disable
  | cancel
  | cancelled
  | purge

namespace EventWork

/-- `skw_event_work_init`. -/
def init : EventWork P where
  enabled := true
  qlist := []
  pending := false
  worker := .idle
  sender _ := .idle
  deinit := .off
  tailed := []
  handled := []
  purged := []
  refused := []

/-- The buffer in the handler. -/
def hand (s : EventWork P) : List Ptr :=
  match s.worker with
  | .handling skb => [skb]
  | _ => []

/-- What is not handled yet is on its way to the handler. -/
def Driven (s : EventWork P) : Prop :=
  s.pending = true ∨ s.worker ≠ .idle ∨ ∃ p, s.sender p = .tailed

/-- No work is left, and none is queued. -/
structure Quiet (s : EventWork P) : Prop where
  qlist : s.qlist = []
  pending : s.pending = false
  worker : s.worker = .idle

/-- Where every buffer is that went into the list. -/
structure Kept (s : EventWork P) : Prop where
  order : (s.handled ++ s.hand ++ s.qlist).Sublist s.tailed
  perm : s.tailed.Perm (s.handled ++ s.hand ++ s.qlist ++ s.purged)
  purged : s.deinit ≠ .done → s.purged = []
  driven : s.deinit ≠ .cancelling → s.deinit ≠ .cancelled → s.qlist ≠ [] → s.Driven

theorem kept_init : (init : EventWork P).Kept where
  order := .refl _
  perm := .refl _
  purged _ := rfl
  driven _ _ h := absurd rfl h

/-- The steps of the work and of the calls that are about to queue it. -/
def EventWorkStep.Serves : EventWorkStep P → Prop
  | .start | .dequeue | .handle | .kick _ => True
  | _ => False

/-- The loop of the work over a list of `n` buffers. -/
def drainSteps : ℕ → List (EventWorkStep P)
  | 0 => [.dequeue]
  | n + 1 => .dequeue :: .handle :: drainSteps n

theorem serves_drainSteps (n : ℕ) : ∀ e ∈ drainSteps (P := P) n, EventWorkStep.Serves e := by
  induction n with
  | zero => simp [drainSteps, EventWorkStep.Serves]
  | succ n ih => simpa [drainSteps, EventWorkStep.Serves] using ih

variable [DecidableEq P]

def setSender (s : EventWork P) (p : P) (x : EventSender) : EventWork P :=
  { s with sender := Function.update s.sender p x }

def step (s : EventWork P) : EventWorkStep P → Option (EventWork P)
  | .offer p skb =>
    match s.sender p with
    | .idle => some (if s.enabled then s.setSender p (.checked skb)
        else { s with refused := s.refused ++ [skb] })
    | _ => none
  | .tail p =>
    match s.sender p with
    | .checked skb => some ({ s with
        qlist := s.qlist ++ [skb]
        tailed := s.tailed ++ [skb] }.setSender p .tailed)
    | _ => none
  -- whether or not the work is pending already, it is pending then
  | .kick p =>
    match s.sender p with
    | .tailed => some ({ s with pending := true }.setSender p .idle)
    | _ => none
  | .start =>
    if s.pending ∧ s.worker = .idle ∧ s.deinit ≠ .cancelling then
      some { s with pending := false, worker := .loop }
    else none
  | .dequeue =>
    if s.worker = .loop then
      match s.qlist with
      | [] => some { s with worker := .idle }
      | skb :: rest => some { s with qlist := rest, worker := .handling skb }
    else none
  | .handle =>
    match s.worker with
    | .handling skb => some { s with handled := s.handled ++ [skb], worker := .loop }
    | _ => none
  | .disable =>
    if s.deinit = .off then some { s with enabled := false, deinit := .disabled } else none
  | .cancel =>
    if s.deinit = .disabled then some { s with pending := true, deinit := .cancelling } else none
  | .cancelled =>
    if s.deinit = .cancelling ∧ s.worker = .idle then
      some { s with pending := false, deinit := .cancelled }
    else none
  | .purge =>
    if s.deinit = .cancelled then
      some { s with qlist := [], purged := s.purged ++ s.qlist, deinit := .done }
    else none

variable {s t u : EventWork P} {e : EventWorkStep P}

theorem sender_setSender (s : EventWork P) (p q : P) (x : EventSender) :
    (s.setSender p x).sender q = if q = p then x else s.sender q :=
  Function.update_apply _ _ _ _

/-- A sender that does not come to stand before the kick leaves a driven work driven. -/
theorem Driven.setSender (h : s.Driven) {p : P} {x : EventSender}
    (hp : s.sender p ≠ .tailed) : (s.setSender p x).Driven := by
  rcases h with h | h | ⟨q, hq⟩
  · exact .inl h
  · exact .inr (.inl h)
  · refine .inr (.inr ⟨q, ?_⟩)
    rw [sender_setSender, if_neg fun hqp => hp (by rw [← hqp, hq])]
    exact hq

theorem Kept.step (h : s.Kept) (hs : s.step e = some t) : t.Kept := by
  obtain ⟨horder, hperm, hpurged, hdriven⟩ := h
  cases e with
  | offer p skb =>
    cases hp : s.sender p with
    | idle =>
      simp only [EventWork.step, hp, Option.some.injEq] at hs
      subst hs
      split
      · exact ⟨horder, hperm, hpurged, fun h₁ h₂ h₃ =>
          (hdriven h₁ h₂ h₃).setSender (by simp [hp])⟩
      · exact ⟨horder, hperm, hpurged, hdriven⟩
    | checked _ => simp [EventWork.step, hp] at hs
    | tailed => simp [EventWork.step, hp] at hs
  | tail p =>
    cases hp : s.sender p with
    | checked skb =>
      simp only [EventWork.step, hp, Option.some.injEq] at hs
      subst hs
      refine ⟨?_, ?_, hpurged, fun _ _ _ => .inr (.inr ⟨p, ?_⟩)⟩
      · simp only [setSender, ← List.append_assoc]
        exact horder.append (.refl _)
      · have hmove := (hperm.append_right [skb]).trans
          (List.Perm.of_eq (List.append_assoc _ _ _))
        have hlast := hmove.trans (List.perm_append_comm.append_left _)
        simp only [← List.append_assoc] at hlast
        simp only [setSender, ← List.append_assoc]
        exact hlast
      · rw [sender_setSender, if_pos rfl]
    | idle => simp [EventWork.step, hp] at hs
    | tailed => simp [EventWork.step, hp] at hs
  | kick p =>
    cases hp : s.sender p with
    | tailed =>
      simp only [EventWork.step, hp, Option.some.injEq] at hs
      subst hs
      exact ⟨horder, hperm, hpurged, fun _ _ _ => .inl rfl⟩
    | idle => simp [EventWork.step, hp] at hs
    | checked _ => simp [EventWork.step, hp] at hs
  | start =>
    simp only [EventWork.step, Option.ite_none_right_eq_some, Option.some.injEq] at hs
    obtain ⟨⟨hpend, hidle, hcancel⟩, rfl⟩ := hs
    have hhand : s.hand = [] := by rw [hand, hidle]
    rw [hhand] at horder hperm
    exact ⟨horder, hperm, hpurged, fun _ _ _ => .inr (.inl (by simp))⟩
  | dequeue =>
    simp only [EventWork.step, Option.ite_none_right_eq_some] at hs
    obtain ⟨hloop, hs⟩ := hs
    have hhand : s.hand = [] := by rw [hand, hloop]
    rw [hhand, List.append_nil] at horder hperm
    cases hq : s.qlist with
    | nil =>
      simp only [hq, Option.some.injEq] at hs
      subst hs
      rw [hq, List.append_nil] at horder hperm
      refine ⟨?_, ?_, hpurged, fun _ _ hne => absurd rfl hne⟩
      · simpa [hand, hq] using horder
      · simpa [hand, hq] using hperm
    | cons skb rest =>
      simp only [hq, Option.some.injEq] at hs
      subst hs
      rw [hq] at horder hperm
      refine ⟨?_, ?_, hpurged, fun _ _ _ => .inr (.inl (by simp))⟩
      · simpa [hand] using horder
      · simpa [hand] using hperm
  | handle =>
    cases hw : s.worker with
    | handling skb =>
      simp only [EventWork.step, hw, Option.some.injEq] at hs
      subst hs
      have hhand : s.hand = [skb] := by rw [hand, hw]
      rw [hhand] at horder hperm
      refine ⟨?_, ?_, hpurged, fun _ _ _ => .inr (.inl (by simp))⟩
      · simpa [hand] using horder
      · simpa [hand] using hperm
    | idle => simp [EventWork.step, hw] at hs
    | loop => simp [EventWork.step, hw] at hs
  | disable =>
    simp only [EventWork.step, Option.ite_none_right_eq_some, Option.some.injEq] at hs
    obtain ⟨hoff, rfl⟩ := hs
    refine ⟨horder, hperm, fun _ => hpurged (by simp [hoff]), fun _ _ hq => ?_⟩
    exact hdriven (by simp [hoff]) (by simp [hoff]) hq
  | cancel =>
    simp only [EventWork.step, Option.ite_none_right_eq_some, Option.some.injEq] at hs
    obtain ⟨hdis, rfl⟩ := hs
    exact ⟨horder, hperm, fun _ => hpurged (by simp [hdis]), fun hne => absurd rfl hne⟩
  | cancelled =>
    simp only [EventWork.step, Option.ite_none_right_eq_some, Option.some.injEq] at hs
    obtain ⟨⟨hcan, _⟩, rfl⟩ := hs
    exact ⟨horder, hperm, fun _ => hpurged (by simp [hcan]), fun _ hne => absurd rfl hne⟩
  | purge =>
    simp only [EventWork.step, Option.ite_none_right_eq_some, Option.some.injEq] at hs
    obtain ⟨hcan, rfl⟩ := hs
    have hnone := hpurged (by simp [hcan])
    refine ⟨?_, ?_, fun hne => absurd rfl hne, fun _ _ hne => absurd rfl hne⟩
    · have hsub : (s.handled ++ s.hand ++ []).Sublist (s.handled ++ s.hand ++ s.qlist) :=
        (List.nil_sublist _).append_left _
      exact hsub.trans horder
    · rw [hnone, List.append_nil] at hperm
      simpa [hand, hnone] using hperm

/-- The loop handles all that is in the list. -/
theorem exec_drainSteps (s : EventWork P) (h : s.worker = .loop) :
    Lib.exec EventWork.step s (drainSteps s.qlist.length) =
      some { s with qlist := [], handled := s.handled ++ s.qlist, worker := .idle } := by
  obtain ⟨enabled, qlist, pending, worker, sender, deinit, tailed, handled, purged, refused⟩ := s
  subst h
  induction qlist generalizing handled with
  | nil => simp [drainSteps, Lib.exec, EventWork.step]
  | cons skb rest ih =>
    have hrest := ih (handled ++ [skb])
    simp only [List.length_cons, drainSteps, Lib.exec, EventWork.step, if_true, Option.bind_some]
    simpa using hrest

theorem exists_exec_drainSteps (h : s.worker = .loop) :
    ∃ v, Lib.exec EventWork.step s (drainSteps s.qlist.length) = some v ∧ v.qlist = [] ∧
      v.worker = .idle ∧ v.handled = s.handled ++ s.qlist ∧ v.sender = s.sender ∧
      v.deinit = s.deinit :=
  ⟨_, exec_drainSteps s h, rfl, rfl, rfl, rfl, rfl⟩

/-- From the handler or the head of the loop the work comes to its end. -/
theorem exists_finished (h : s.worker ≠ .idle) : ∃ es v, (∀ e ∈ es, EventWorkStep.Serves e) ∧
    Lib.exec EventWork.step s es = some v ∧ v.qlist = [] ∧ v.worker = .idle ∧
      v.handled = s.handled ++ s.hand ++ s.qlist ∧ v.sender = s.sender ∧ v.deinit = s.deinit := by
  cases hw : s.worker with
  | idle => exact absurd hw h
  | loop =>
    obtain ⟨v, hv, hq, hidle, hh, hrest⟩ := exists_exec_drainSteps hw
    have hhand : s.hand = [] := by rw [hand, hw]
    exact ⟨_, v, serves_drainSteps _, hv, hq, hidle, by rw [hh, hhand, List.append_nil], hrest⟩
  | handling skb =>
    obtain ⟨v, hv, hq, hidle, hh, hrest⟩ := exists_exec_drainSteps
      (s := { s with handled := s.handled ++ [skb], worker := .loop }) rfl
    have hhand : s.hand = [skb] := by rw [hand, hw]
    refine ⟨.handle :: drainSteps s.qlist.length, v, ?_, ?_, hq, hidle, by rw [hh, hhand], hrest⟩
    · simpa [EventWorkStep.Serves] using serves_drainSteps (P := P) s.qlist.length
    · rw [Lib.exec, EventWork.step, hw]
      exact hv

/-- With the work pending or under way all buffers of the list get handled. -/
theorem exists_drained (hd : s.deinit = .off) (h : s.pending = true ∨ s.worker ≠ .idle) :
    ∃ es v, (∀ e ∈ es, EventWorkStep.Serves e) ∧ Lib.exec EventWork.step s es = some v ∧
      v.qlist = [] ∧ v.worker = .idle ∧ v.handled = s.handled ++ s.hand ++ s.qlist := by
  by_cases hw : s.worker = .idle
  · have hp : s.pending = true := h.resolve_right fun hne => hne hw
    have hhand : s.hand = [] := by rw [hand, hw]
    obtain ⟨es, v, hes, hv, hq, hidle, hh, -⟩ := exists_finished
      (s := { s with pending := false, worker := .loop }) (by simp)
    refine ⟨.start :: es, v, ?_, ?_, hq, hidle, ?_⟩
    · simpa [EventWorkStep.Serves] using hes
    · rw [Lib.exec, EventWork.step, if_pos ⟨hp, hw, by simp [hd]⟩]
      exact hv
    · rw [hh, hhand]
      rfl
  · obtain ⟨es, v, hes, hv, hq, hidle, hh, -⟩ := exists_finished hw
    exact ⟨es, v, hes, hv, hq, hidle, hh⟩

theorem kept_of_reach (h : Lib.Reach EventWork.step Lib.Free (init : EventWork P) s) : s.Kept :=
  h.invariant kept_init fun _ _ _ hk _ hs => hk.step hs

/-- In every run each buffer that went into the list is handled, in the handler, in the list or
purged, once, and the handled ones came first. While the work is in service it has lost none, and
the work itself and the calls under way take it to where all are handled. -/
theorem served_of_reach (h : Lib.Reach EventWork.step Lib.Free (init : EventWork P) s) :
    s.tailed.Perm (s.handled ++ s.hand ++ s.qlist ++ s.purged) ∧ s.handled.Sublist s.tailed ∧
      (s.deinit = .off → s.tailed = s.handled ++ s.hand ++ s.qlist ∧
        ∃ es v, (∀ e ∈ es, EventWorkStep.Serves e) ∧ Lib.exec EventWork.step s es = some v ∧
          v.qlist = [] ∧ v.worker = .idle ∧ v.handled = s.tailed) := by
  have hk := kept_of_reach h
  have hsub : s.handled.Sublist (s.handled ++ s.hand ++ s.qlist) := by
    rw [List.append_assoc]
    exact List.sublist_append_left _ _
  refine ⟨hk.perm, hsub.trans hk.order, fun hoff => ?_⟩
  have hwhole : s.tailed = s.handled ++ s.hand ++ s.qlist := by
    have hperm := hk.perm
    rw [hk.purged (by simp [hoff]), List.append_nil] at hperm
    exact (hk.order.eq_of_length hperm.length_eq.symm).symm
  refine ⟨hwhole, ?_⟩
  rw [hwhole]
  by_cases hq : s.qlist = [] ∧ s.worker = .idle
  · refine ⟨[], s, by simp, rfl, hq.1, hq.2, ?_⟩
    rw [hq.1, hand, hq.2, List.append_nil, List.append_nil]
  · have hdriven : s.Driven := by
      by_cases hne : s.qlist = []
      · exact .inr (.inl fun hw => hq ⟨hne, hw⟩)
      · exact hk.driven (by simp [hoff]) (by simp [hoff]) hne
    rcases hdriven with hp | hw | ⟨p, hp⟩
    · exact exists_drained hoff (.inl hp)
    · exact exists_drained hoff (.inr hw)
    · -- the call that put the last buffer in still queues the work
      obtain ⟨es, v, hes, hv, hrest⟩ := exists_drained
        (s := { s with pending := true }.setSender p .idle) hoff (.inl rfl)
      refine ⟨.kick p :: es, v, ?_, ?_, hrest⟩
      · simpa [EventWorkStep.Serves] using hes
      · rw [Lib.exec, EventWork.step, hp]
        exact hv

/-- Two calls, of which the second to look is the first to put its buffer in. -/
theorem served_of_reach_two : ∃ s v : EventWork Bool, ∃ es, s.worker = .handling 2 ∧
    Lib.exec EventWork.step s es = some v ∧ v.qlist = [] ∧ v.handled = [2, 1] := by
  obtain ⟨s, hs, hp⟩ := Lib.exists_reach_of_exec EventWork.step Lib.Free (init : EventWork Bool)
    [.offer true 1, .offer false 2, .tail false, .tail true, .kick true, .start, .dequeue]
    (fun s => s.worker = .handling 2 ∧ s.deinit = .off ∧ s.tailed = [2, 1]) (by decide)
  simp only [decide_eq_true_eq] at hp
  obtain ⟨hw, hoff, htailed⟩ := hp
  obtain ⟨-, es, v, -, hv, hq, -, hh⟩ := (served_of_reach hs).2.2 hoff
  exact ⟨s, v, es, hw, hv, hq, hh.trans htailed⟩

/-- What holds once `enabled` is cleared with no call under way. -/
structure Closed (s : EventWork P) : Prop where
  enabled : s.enabled = false
  senders : ∀ p, s.sender p = .idle
  off : s.deinit ≠ .off
  stopped : s.deinit = .cancelled → s.pending = false ∧ s.worker = .idle
  done : s.deinit = .done → s.Quiet

theorem Closed.step (h : s.Closed) (hs : s.step e = some t) : t.Closed := by
  obtain ⟨hen, hsend, hoff, hstop, hdone⟩ := h
  cases e with
  | offer p skb =>
    simp only [EventWork.step, hsend p, hen, Bool.false_eq_true, if_false,
      Option.some.injEq] at hs
    subst hs
    exact ⟨rfl, hsend, hoff, hstop, fun hd => ⟨(hdone hd).1, (hdone hd).2, (hdone hd).3⟩⟩
  | tail p => simp [EventWork.step, hsend p] at hs
  | kick p => simp [EventWork.step, hsend p] at hs
  | start =>
    simp only [EventWork.step, Option.ite_none_right_eq_some, Option.some.injEq] at hs
    obtain ⟨⟨hp, -, -⟩, rfl⟩ := hs
    refine ⟨hen, hsend, hoff, fun hc => ?_, fun hd => ?_⟩
    · exact absurd (hp.symm.trans (hstop hc).1) (by simp)
    · exact absurd (hp.symm.trans (hdone hd).2) (by simp)
  | dequeue =>
    simp only [EventWork.step, Option.ite_none_right_eq_some] at hs
    obtain ⟨hw, hs⟩ := hs
    have hbusy : s.deinit ≠ .cancelled ∧ s.deinit ≠ .done :=
      ⟨fun hc => absurd (hw.symm.trans (hstop hc).2) (by simp),
        fun hd => absurd (hw.symm.trans (hdone hd).3) (by simp)⟩
    split at hs
    · cases Option.some.inj hs
      exact ⟨hen, hsend, hoff, fun hc => absurd hc hbusy.1, fun hd => absurd hd hbusy.2⟩
    · cases Option.some.inj hs
      exact ⟨hen, hsend, hoff, fun hc => absurd hc hbusy.1, fun hd => absurd hd hbusy.2⟩
  | handle =>
    cases hw : s.worker with
    | idle => simp [EventWork.step, hw] at hs
    | loop => simp [EventWork.step, hw] at hs
    | handling skb =>
      simp only [EventWork.step, hw, Option.some.injEq] at hs
      subst hs
      refine ⟨hen, hsend, hoff, fun hc => ?_, fun hd => ?_⟩
      · exact absurd (hw.symm.trans (hstop hc).2) (by simp)
      · exact absurd (hw.symm.trans (hdone hd).3) (by simp)
  | disable =>
    simp only [EventWork.step, Option.ite_none_right_eq_some] at hs
    exact absurd hs.1 hoff
  | cancel =>
    simp only [EventWork.step, Option.ite_none_right_eq_some, Option.some.injEq] at hs
    obtain ⟨-, rfl⟩ := hs
    exact ⟨hen, hsend, by simp, by simp, by simp⟩
  | cancelled =>
    simp only [EventWork.step, Option.ite_none_right_eq_some, Option.some.injEq] at hs
    obtain ⟨⟨-, hw⟩, rfl⟩ := hs
    exact ⟨hen, hsend, by simp, fun _ => ⟨rfl, hw⟩, by simp⟩
  | purge =>
    simp only [EventWork.step, Option.ite_none_right_eq_some, Option.some.injEq] at hs
    obtain ⟨hc, rfl⟩ := hs
    exact ⟨hen, hsend, by simp, by simp, fun _ => ⟨rfl, (hstop hc).1, (hstop hc).2⟩⟩

/-- The deinit gets to its end, and the calls under way stay where they are. -/
theorem exists_done (hd : s.deinit = .disabled) :
    ∃ es v, Lib.exec EventWork.step s es = some v ∧ v.deinit = .done ∧ v.sender = s.sender := by
  have hidle : ∃ es v, Lib.exec EventWork.step { s with pending := true, deinit := .cancelling } es =
      some v ∧ v.worker = .idle ∧ v.sender = s.sender ∧ v.deinit = .cancelling := by
    by_cases hw : s.worker = .idle
    · exact ⟨[], _, rfl, hw, rfl, rfl⟩
    · obtain ⟨es, v, -, hv, -, hidle, -, hsend, hcan⟩ := exists_finished
        (s := { s with pending := true, deinit := .cancelling }) hw
      exact ⟨es, v, hv, hidle, hsend, hcan⟩
  obtain ⟨es, v, hv, hw, hsend, hcan⟩ := hidle
  have hlast : Lib.exec EventWork.step v [.cancelled, .purge] = some { v with
      pending := false, qlist := [], purged := v.purged ++ v.qlist, deinit := .done } := by
    simp [Lib.exec, EventWork.step, hcan, hw]
  refine ⟨.cancel :: (es ++ [.cancelled, .purge]), { v with
    pending := false, qlist := [], purged := v.purged ++ v.qlist, deinit := .done }, ?_, rfl, hsend⟩
  rw [Lib.exec, EventWork.step, if_pos hd, Option.bind_some, Lib.exec_append _ _ hv, hlast]

/-- After `skw_event_work_deinit` nothing is left and nothing is queued, whatever comes, exactly if no
call of `skw_queue_event_work` was under way when it began: one that has seen `enabled` already puts
its buffer into the list, or queues the work, after the purge. -/
theorem deinit_quiet_iff (hoff : s.deinit = .off) (hs : s.step .disable = some t) :
    (∀ es u, Lib.exec EventWork.step t es = some u → u.deinit = .done → u.Quiet) ↔
      ∀ p, s.sender p = .idle := by
  simp only [EventWork.step, if_pos hoff, Option.some.injEq] at hs
  subst hs
  constructor
  · intro hquiet p
    by_contra hp
    obtain ⟨es, v, hv, hdone, hsend⟩ := exists_done
      (s := { s with enabled := false, deinit := .disabled }) rfl
    have hlate : v.sender p = s.sender p := congrFun hsend p
    cases hq : s.sender p with
    | idle => exact hp hq
    | checked skb =>
      have htail : Lib.exec EventWork.step v [.tail p] = some ({ v with
          qlist := v.qlist ++ [skb]
          tailed := v.tailed ++ [skb] }.setSender p .tailed) := by
        simp [Lib.exec, EventWork.step, hlate, hq]
      have hnil := (hquiet _ _ ((Lib.exec_append _ _ hv).trans htail) hdone).qlist
      exact List.append_ne_nil_of_right_ne_nil _ (List.cons_ne_nil _ _) hnil
    | tailed =>
      have hkick : Lib.exec EventWork.step v [.kick p] =
          some ({ v with pending := true }.setSender p .idle) := by
        simp [Lib.exec, EventWork.step, hlate, hq]
      have hfalse := (hquiet _ _ ((Lib.exec_append _ _ hv).trans hkick) hdone).pending
      exact Bool.false_ne_true hfalse.symm
  · intro hidle es u hu hd
    have hclosed : Closed { s with enabled := false, deinit := .disabled } :=
      ⟨rfl, hidle, by simp, by simp, by simp⟩
    exact (Lib.exec_invariant (fun _ _ _ h hs => h.step hs) hclosed hu).done hd

/-- A call that has seen `enabled` when the deinit begins. -/
theorem deinit_quiet_iff_late : ∃ t, EventWork.step ((init : EventWork Unit).setSender () (.checked 7))
    .disable = some t ∧
    ¬ ∀ es u, Lib.exec EventWork.step t es = some u → u.deinit = .done → u.Quiet := by
  refine ⟨_, rfl, fun h => ?_⟩
  have hidle := (deinit_quiet_iff (s := (init : EventWork Unit).setSender () (.checked 7)) rfl
    rfl).mp h ()
  cases hidle

end EventWork
end Skw
