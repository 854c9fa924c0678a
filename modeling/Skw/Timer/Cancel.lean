import Skw.Lib.Machine
import Skw.Timer.Queue
import Mathlib.Data.List.TakeWhile

/-! Cancelling timers while the timer function runs. The steps are the critical sections of
`timer_data.lock` and the single callback starts of `skw_timer_work`, taken in any order; the
kernel never runs two instances of one timer's function. -/
namespace Skw

/-- What becomes of timers, as seen from outside. -/
inductive TimerObs
  | added (t : Timer)
  | started (t : Timer)
  | removed (t : Timer)
  | deleted (id : Ptr)
deriving DecidableEq

/-- How far a run of `skw_timer_work` has come: called by the kernel, or past its first
critical section with the entries that are left on its private `timeout_list`. -/
inductive TimerRun
  | idle
  | fired
  | calling (timeoutList : List Timer)
deriving DecidableEq

def TimerRun.timeoutList : TimerRun → List Timer
  | calling l => l
  | _ => []

/-- `adding` holds the entries of the callers between the check of the id and the insertion,
`flushList` is the private list of `skw_timer_deinit`, and `hist` is what happened, the newest
first. -/
structure CancelSys where
  now : Jiffies
  data : TimerData
  key : ℕ
  adding : List Timer
  work : TimerRun
  closing : Bool
  flushList : List Timer
  hist : List TimerObs

inductive CancelStep
  | addCheck (a : TimerData.AddCall)
  | addInsert (t : Timer)
  | delTimerWork (id : Ptr)
  | timerFire
  | workCollect
  | workCallback
  | workRearm
  | deinitDelTimer
  | deinitSplice
  | deinitFree
  | tick (n : ℕ)
deriving DecidableEq

namespace CancelSys
open TimerData TimerObs

def init (now : Jiffies) : CancelSys := ⟨now, timerInit, 0, [], .idle, false, [], []⟩

section
variable (msecsToJiffies : ℕ → Jiffies)

def step (s : CancelSys) : CancelStep → Option CancelSys
  | .addCheck a =>
    if a.id = 0 ∨ a.cb = 0 ∨ a.name = 0 ∨ s.data.timerIdExist a.id = true ∨ a.alloc = false then
      some s
    else
      some { s with adding := a.timer msecsToJiffies s.now s.key :: s.adding, key := s.key + 1 }
  | .addInsert t =>
    if t ∈ s.adding then
      some { s with
        adding := s.adding.erase t
        data := s.data.insertTimer t
        hist := added t :: s.hist }
    else none
  | .delTimerWork id =>
    some { s with
      data := s.data.delTimerWork id
      hist := deleted id :: ((s.data.timerOf id).map removed).toList ++ s.hist }
  | .timerFire =>
    match s.data.timer, s.work with
    | some expires, .idle =>
      if timeBeforeEq expires s.now then
        some { s with data := { s.data with timer := none }, work := .fired }
      else none
    | _, _ => none
  | .workCollect =>
    match s.work with
    | .fired => some { s with data := collect s.now s.data, work := .calling (expired s.now s.data) }
    | _ => none
  | .workCallback =>
    match s.work with
    | .calling (t :: rest) =>
      some { s with
        data := { s.data with count := s.data.count - 1 }
        work := .calling rest
        hist := started t :: s.hist }
    | _ => none
  | .workRearm =>
    match s.work with
    | .calling [] => some { s with data := s.data.rearm, work := .idle }
    | _ => none
  | .deinitDelTimer => some { s with data := { s.data with timer := none }, closing := true }
  | .deinitSplice =>
    if s.closing then
      some { s with
        data := { s.data with list := [] }, closing := false, flushList := s.flushList ++ s.data.list }
    else none
  | .deinitFree =>
    match s.flushList with
    | t :: rest => some { s with flushList := rest, hist := removed t :: s.hist }
    | [] => none
  | .tick n => some { s with now := s.now + n }

end

/-- The timers that wait for their callback or for being freed. -/
def waiting (s : CancelSys) : List Timer :=
  s.data.list ++ s.work.timeoutList ++ s.flushList

/-- A timer is added at most once, and from then on either waits or was consumed, by one
callback start or by one removal. -/
def ConsumedOnce (s : CancelSys) : Prop :=
  ∀ t, s.hist.count (started t) + s.hist.count (removed t) + s.waiting.count t =
    s.hist.count (added t) ∧ s.hist.count (added t) ≤ 1

/-- While a timer is queued the kernel timer is pending, its function is running, or the
queue is being taken down. -/
def Served (s : CancelSys) : Prop :=
  s.data.list ≠ [] → s.data.timer ≠ none ∨ s.work ≠ .idle ∨ s.closing = true

/-- No callback starts after the deletion of an id under which its timer had been added. -/
def DeletionFinal (s : CancelSys) : Prop :=
  ∀ t, ¬ List.Sublist [started t, deleted t.id, added t] s.hist

/-- The deleted id has no timer on the private list of `skw_timer_work` and at most one in the
queue. -/
def Deletable (s : CancelSys) : CancelStep → Prop
  | .delTimerWork id =>
    (∀ t ∈ s.work.timeoutList, t.id ≠ id) ∧ (s.data.list.filter fun t => t.id == id).length ≤ 1
  | _ => True

instance (s : CancelSys) (e : CancelStep) : Decidable (Deletable s e) := by
  cases e <;> unfold Deletable <;> infer_instance

section
variable {msecsToJiffies : ℕ → Jiffies} {s s' : CancelSys}

/-- What every step keeps, with or without the guard on deletions. -/
structure Inv (s : CancelSys) : Prop where
  fresh : ∀ t, s.hist.count (added t) + s.adding.count t ≤ 1
  keys : ∀ t, t ∈ s.adding ∨ added t ∈ s.hist → t.key < s.key
  balance : ∀ t, s.hist.count (started t) + s.hist.count (removed t) + s.waiting.count t =
    s.hist.count (added t)
  served : s.Served

private theorem init_inv (now : Jiffies) : (init now).Inv := by
  constructor <;> simp [init, timerInit, waiting, TimerRun.timeoutList, Served]

/-- A step that adds nothing keeps the entries fresh. -/
private theorem Inv.fresh_of_eq (h : s.Inv) (ha : s'.adding = s.adding)
    (hh : ∀ t, s'.hist.count (added t) = s.hist.count (added t)) (t : Timer) :
    s'.hist.count (added t) + s'.adding.count t ≤ 1 := by
  rw [ha, hh]
  exact h.fresh t

private theorem rearm_timer_ne_none {d : TimerData} (h : d.list ≠ []) :
    d.rearm.timer ≠ none := by
  unfold rearm
  split
  · contradiction
  · simp

private theorem Inv.addCheck (h : s.Inv) (a : AddCall) :
    { s with adding := a.timer msecsToJiffies s.now s.key :: s.adding, key := s.key + 1 }.Inv where
  fresh := by
    intro t
    have hf := h.fresh t
    simp only [List.count_cons]
    split_ifs with ht
    · have hk : t.key = s.key := by rw [← eq_of_beq ht]; rfl
      have h₁ : added t ∉ s.hist := fun hm => by have := h.keys t (.inr hm); omega
      have h₂ : t ∉ s.adding := fun hm => by have := h.keys t (.inl hm); omega
      simp [List.count_eq_zero_of_not_mem h₁, List.count_eq_zero_of_not_mem h₂]
    · exact hf
  keys := by
    rintro t (ht | ht)
    · rcases List.mem_cons.mp ht with rfl | ht
      · exact Nat.lt_succ_self _
      · exact Nat.lt_succ_of_lt (h.keys t (.inl ht))
    · exact Nat.lt_succ_of_lt (h.keys t (.inr ht))
  balance := h.balance
  served := h.served

private theorem Inv.addInsert (h : s.Inv) {u : Timer} (hu : u ∈ s.adding) :
    { s with
      adding := s.adding.erase u, data := s.data.insertTimer u, hist := added u :: s.hist }.Inv where
  fresh := by
    intro t
    have hf := h.fresh t
    have hc := List.count_pos_iff.mpr hu
    simp only [List.count_cons, List.count_erase, beq_iff_eq, added.injEq]
    grind
  keys := by
    rintro t (ht | ht)
    · exact h.keys t (.inl (List.mem_of_mem_erase ht))
    · rcases List.mem_cons.mp ht with ht | ht
      · cases ht; exact h.keys u (.inl hu)
      · exact h.keys t (.inr ht)
  balance := by
    intro t
    have hb := h.balance t
    have hl := (linkTimer_perm u s.data.list).count_eq t
    simp only [waiting, List.count_append, List.count_cons, insertTimer_list, beq_iff_eq,
      reduceCtorEq, if_false, added.injEq] at hb hl ⊢
    omega
  served := by
    intro _
    refine .inl (rearm_timer_ne_none fun hn => ?_)
    have hm : u ∈ linkTimer u s.data.list := mem_linkTimer.mpr (.inl rfl)
    rw [show linkTimer u s.data.list = [] from hn] at hm
    exact List.not_mem_nil hm

private theorem Inv.delTimerWork (h : s.Inv) (id : Ptr) :
    { s with
      data := s.data.delTimerWork id
      hist := deleted id :: ((s.data.timerOf id).map removed).toList ++ s.hist }.Inv where
  fresh := h.fresh_of_eq rfl fun t => by cases s.data.timerOf id <;> simp
  keys := by
    rintro t (ht | ht)
    · exact h.keys t (.inl ht)
    · refine h.keys t (.inr ?_)
      cases hf : s.data.timerOf id <;> simpa [hf] using ht
  balance := by
    intro t
    have hb := h.balance t
    cases hf : s.data.timerOf id with
    | none => simpa [waiting, delTimerWork_none hf] using hb
    | some u =>
      have hl := (delTimerWork_perm hf).count_eq t
      simp [waiting, List.count_cons] at hb hl ⊢
      omega
  served := by
    intro hn
    exact .inl (rearm_timer_ne_none fun hn' => hn (by simpa [TimerData.delTimerWork] using hn'))

theorem Inv.step (h : s.Inv) {e : CancelStep} (hs : step msecsToJiffies s e = some s') :
    s'.Inv := by
  cases e with
  | addCheck a =>
    simp only [CancelSys.step] at hs
    split_ifs at hs
    · cases hs; exact h
    · cases hs; exact h.addCheck a
  | addInsert t =>
    simp only [CancelSys.step] at hs
    split_ifs at hs with ht
    cases hs
    exact h.addInsert ht
  | delTimerWork id =>
    cases hs
    exact h.delTimerWork id
  | timerFire =>
    simp only [CancelSys.step] at hs
    split at hs
    · split_ifs at hs
      cases hs
      exact ⟨h.fresh, h.keys, by simpa [waiting, TimerRun.timeoutList, *] using h.balance,
        fun _ => by simp⟩
    · cases hs
  | workCollect =>
    simp only [CancelSys.step] at hs
    split at hs
    · cases hs
      refine ⟨h.fresh, h.keys, fun t => ?_, fun _ => by simp⟩
      have hb := h.balance t
      have hl := (expired_append_collect_perm s.now s.data).count_eq t
      simp [waiting, TimerRun.timeoutList, *] at hb hl ⊢
      omega
    · cases hs
  | workCallback =>
    simp only [CancelSys.step] at hs
    split at hs
    · next u rest hw =>
      cases hs
      refine ⟨h.fresh_of_eq rfl fun t => by simp, fun t ht => h.keys t (by simpa using ht),
        fun t => ?_, fun _ => by simp⟩
      have hb := h.balance t
      simp [waiting, TimerRun.timeoutList, hw, List.count_cons] at hb ⊢
      omega
    · cases hs
  | workRearm =>
    simp only [CancelSys.step] at hs
    split at hs
    · next hw =>
      cases hs
      refine ⟨h.fresh, h.keys, by simpa [waiting, TimerRun.timeoutList, hw] using h.balance, ?_⟩
      intro hn
      exact .inl (rearm_timer_ne_none (by simpa using hn))
    · cases hs
  | deinitDelTimer =>
    cases hs
    exact ⟨h.fresh, h.keys, h.balance, fun _ => by simp⟩
  | deinitSplice =>
    simp only [CancelSys.step] at hs
    split_ifs at hs
    cases hs
    refine ⟨h.fresh, h.keys, fun t => ?_, fun hn => absurd rfl hn⟩
    have hb := h.balance t
    simp [waiting] at hb ⊢
    omega
  | deinitFree =>
    simp only [CancelSys.step] at hs
    split at hs
    · next u rest hf =>
      cases hs
      refine ⟨h.fresh_of_eq rfl fun t => by simp, fun t ht => h.keys t (by simpa using ht),
        fun t => ?_, h.served⟩
      have hb := h.balance t
      simp [waiting, hf, List.count_cons] at hb ⊢
      omega
    · cases hs
  | tick n =>
    cases hs
    exact ⟨h.fresh, h.keys, h.balance, h.served⟩

/-- A timer whose id was deleted after it had been added is out of reach of the timer function. -/
def Gone (s : CancelSys) : Prop :=
  ∀ t, List.Sublist [deleted t.id, added t] s.hist →
    t ∉ s.data.list ∧ t ∉ s.work.timeoutList

/-- A step that takes entries from the queue or the private list and deletes no id. -/
private theorem Gone.of_subset (h : s.Gone)
    (hd : ∀ t, List.Sublist [deleted t.id, added t] s'.hist →
      List.Sublist [deleted t.id, added t] s.hist)
    (hsub : ∀ t, t ∈ s'.data.list ∨ t ∈ s'.work.timeoutList →
      t ∈ s.data.list ∨ t ∈ s.work.timeoutList) : s'.Gone := by
  intro t ht
  obtain ⟨h₁, h₂⟩ := h t (hd t ht)
  constructor <;> intro hm
  · exact (hsub t (.inl hm)).elim h₁ h₂
  · exact (hsub t (.inr hm)).elim h₁ h₂

private theorem sublist_cons_of_ne {α : Type*} {a b c : α} {l : List α} (hne : a ≠ c)
    (h : List.Sublist [a, b] (c :: l)) : List.Sublist [a, b] l := by
  rcases List.sublist_cons_iff.mp h with h | ⟨r, hr, -⟩
  · exact h
  · exact absurd (List.cons.inj hr).1 hne

private theorem Gone.delTimerWork (h : s.Gone) {id : Ptr} (hg : s.Deletable (.delTimerWork id)) :
    { s with
      data := s.data.delTimerWork id
      hist := deleted id :: ((s.data.timerOf id).map removed).toList ++ s.hist }.Gone := by
  have hsub : ∀ t ∈ (s.data.delTimerWork id).list, t ∈ s.data.list := by
    intro t ht
    rw [delTimerWork_list] at ht
    exact List.mem_of_mem_eraseP ht
  intro t ht
  rcases List.sublist_cons_iff.mp ht with ht | ⟨r, hr, -⟩
  · have hold : List.Sublist [deleted t.id, added t] s.hist := by
      cases hf : s.data.timerOf id with
      | none => simpa [hf] using ht
      | some u =>
        have hne : deleted t.id ≠ removed u := by simp
        exact sublist_cons_of_ne hne (by simpa [hf] using ht)
    obtain ⟨h₁, h₂⟩ := h t hold
    exact ⟨fun hm => h₁ (hsub t hm), h₂⟩
  · have hid : t.id = id := by simpa using (List.cons.inj hr).1
    exact ⟨fun hm => id_ne_of_mem_delTimerWork hg.2 hm hid, fun hm => hg.1 t hm hid⟩

theorem Gone.step (hi : s.Inv) (h : s.Gone) {e : CancelStep} (hg : s.Deletable e)
    (hs : step msecsToJiffies s e = some s') : s'.Gone := by
  cases e with
  | addCheck a =>
    simp only [CancelSys.step] at hs
    split_ifs at hs <;> cases hs <;> exact h
  | addInsert u =>
    simp only [CancelSys.step] at hs
    split_ifs at hs with hu
    cases hs
    intro t ht
    have hold := sublist_cons_of_ne (by simp) ht
    obtain ⟨h₁, h₂⟩ := h t hold
    refine ⟨fun hm => ?_, h₂⟩
    rcases mem_linkTimer.mp (by simpa using hm) with rfl | hm
    · have hf := hi.fresh t
      have hc := List.count_pos_iff.mpr hu
      have ha : added t ∈ s.hist := hold.mem (by simp)
      have := List.count_pos_iff.mpr ha
      omega
    · exact h₁ hm
  | delTimerWork id =>
    cases hs
    exact h.delTimerWork hg
  | timerFire =>
    simp only [CancelSys.step] at hs
    split at hs
    · split_ifs at hs
      cases hs
      exact h.of_subset (fun t ht => ht) fun t ht => .inl (by simpa [TimerRun.timeoutList] using ht)
    · cases hs
  | workCollect =>
    simp only [CancelSys.step] at hs
    split at hs
    · cases hs
      refine h.of_subset (fun t ht => ht) fun t ht => .inl ?_
      refine (expired_append_collect_perm s.now s.data).mem_iff.mp (List.mem_append.mpr ?_)
      exact ht.symm
    · cases hs
  | workCallback =>
    simp only [CancelSys.step] at hs
    split at hs
    · next u rest hw =>
      cases hs
      refine h.of_subset (fun t ht => sublist_cons_of_ne (by simp) ht) fun t ht => ?_
      rw [hw]
      exact ht.imp id (List.mem_cons_of_mem u)
    · cases hs
  | workRearm =>
    simp only [CancelSys.step] at hs
    split at hs
    · cases hs
      refine h.of_subset (fun t ht => ht) fun t ht => .inl ?_
      simpa [TimerRun.timeoutList] using ht
    · cases hs
  | deinitDelTimer =>
    cases hs
    exact h
  | deinitSplice =>
    simp only [CancelSys.step] at hs
    split_ifs at hs
    cases hs
    exact h.of_subset (fun t ht => ht) fun t ht => .inr (by simpa using ht)
  | deinitFree =>
    simp only [CancelSys.step] at hs
    split at hs
    · cases hs
      exact h.of_subset (fun t ht => sublist_cons_of_ne (by simp) ht) fun t ht => ht
    · cases hs
  | tick n =>
    cases hs
    exact h

/-- Only the start of a callback can break the finality of a deletion, and it starts a timer
of the private list. -/
theorem DeletionFinal.step (hg : s.Gone) (h : s.DeletionFinal) {e : CancelStep}
    (hs : step msecsToJiffies s e = some s') : s'.DeletionFinal := by
  have hcons : ∀ o : TimerObs, (∀ t, o ≠ started t) → ∀ t, ∀ l : List TimerObs,
      List.Sublist [started t, deleted t.id, added t] (o :: l) →
        List.Sublist [started t, deleted t.id, added t] l := by
    intro o ho t l hl
    rcases List.sublist_cons_iff.mp hl with hl | ⟨r, hr, -⟩
    · exact hl
    · exact absurd (List.cons.inj hr).1.symm (ho t)
  cases e with
  | addCheck a =>
    simp only [CancelSys.step] at hs
    split_ifs at hs <;> cases hs <;> exact h
  | addInsert u =>
    simp only [CancelSys.step] at hs
    split_ifs at hs
    cases hs
    exact fun t ht => h t (hcons _ (by simp) t _ ht)
  | delTimerWork id =>
    cases hs
    intro t ht
    have ht := hcons _ (by simp) t _ ht
    cases hf : s.data.timerOf id with
    | none => exact h t (by simpa [hf] using ht)
    | some u => exact h t (hcons (removed u) (by simp) t _ (by simpa [hf] using ht))
  | workCallback =>
    simp only [CancelSys.step] at hs
    split at hs
    · next u rest hw =>
      cases hs
      intro t ht
      rcases List.sublist_cons_iff.mp ht with ht | ⟨r, hr, hsub⟩
      · exact h t ht
      · obtain ⟨htu, rfl⟩ := List.cons.inj hr
        cases htu
        exact (hg u hsub).2 (by simp [hw, TimerRun.timeoutList])
    · cases hs
  | deinitFree =>
    simp only [CancelSys.step] at hs
    split at hs
    · cases hs
      exact fun t ht => h t (hcons _ (by simp) t _ ht)
    · cases hs
  | timerFire | workCollect | workRearm =>
    simp only [CancelSys.step] at hs
    split at hs <;> try split_ifs at hs
    all_goals cases hs
    all_goals exact h
  | deinitSplice =>
    simp only [CancelSys.step] at hs
    split_ifs at hs
    cases hs
    exact h
  | deinitDelTimer | tick =>
    cases hs
    exact h

end

/-- A run whose deletions find no expired timer of the id that waits for its callback, and not
two queued ones, consumes every timer once and starts no callback of a deleted one. -/
theorem cancelled_of_deletable (msecsToJiffies : ℕ → Jiffies) (now : Jiffies) (s : CancelSys)
    (h : Lib.Reach (step msecsToJiffies) Deletable (init now) s) :
    s.ConsumedOnce ∧ s.Served ∧ s.DeletionFinal := by
  have hall : s.Inv ∧ s.Gone ∧ s.DeletionFinal := by
    refine h.invariant (I := fun s => s.Inv ∧ s.Gone ∧ s.DeletionFinal) ?_ ?_
    · exact ⟨init_inv now, fun t ht => by simp [init] at ht, fun t ht => by simp [init] at ht⟩
    · rintro s e t ⟨hi, hgone, hfin⟩ hg hs
      exact ⟨hi.step hs, hgone.step hi hg hs, hfin.step hgone hs⟩
  obtain ⟨hi, -, hfin⟩ := hall
  exact ⟨fun t => ⟨hi.balance t, by have := hi.fresh t; omega⟩, hi.served, hfin⟩

/-- A timer of id 1 expires while the timers of id 2 are deleted. -/
def expireAndDelete : List CancelStep :=
  let t : Timer := ⟨0, 11, 1, 1, 0, 1⟩
  let u : Timer := ⟨1, 22, 1, 2, 0, 1⟩
  [.addCheck ⟨1, 1, 0, 10, 1, true⟩, .addInsert t, .tick 11, .timerFire,
    .workCollect, .addCheck ⟨1, 1, 0, 10, 2, true⟩, .addInsert u, .delTimerWork 2, .workCallback,
    .workRearm]

theorem cancelled_of_deletable_expireAndDelete :
    ∃ s, Lib.Reach (step (BitVec.ofNat 64)) Deletable (init 0) s ∧ s.hist.length = 5 ∧
      s.ConsumedOnce ∧ s.Served ∧ s.DeletionFinal := by
  obtain ⟨s, hs, hp⟩ := Lib.exists_reach_of_exec (step (BitVec.ofNat 64)) Deletable (init 0)
    expireAndDelete (fun s => s.hist.length == 5) (by decide)
  exact ⟨s, hs, by simpa using hp, cancelled_of_deletable (BitVec.ofNat 64) 0 s hs⟩

/-- The deletion of id 1 falls between the two critical sections of `skw_timer_work`. -/
def deleteExpired : List CancelStep :=
  [.addCheck ⟨1, 1, 0, 10, 1, true⟩, .addInsert ⟨0, 11, 1, 1, 0, 1⟩, .tick 11, .timerFire,
    .workCollect, .delTimerWork 1, .workCallback]

theorem deleteExpired_not_final :
    ¬ ∀ s, Lib.Reach (step (BitVec.ofNat 64)) Lib.Free (init 0) s →
      s.ConsumedOnce ∧ s.DeletionFinal := by
  intro h
  obtain ⟨s, hs, hp⟩ := Lib.exists_reach_of_exec (step (BitVec.ofNat 64)) Lib.Free (init 0)
    deleteExpired
    (fun s => s.hist == [started ⟨0, 11, 1, 1, 0, 1⟩, deleted 1, added ⟨0, 11, 1, 1, 0, 1⟩])
    (by decide)
  have hfin := (h s hs).2 ⟨0, 11, 1, 1, 0, 1⟩
  rw [eq_of_beq hp] at hfin
  exact hfin (List.Sublist.refl _)


end CancelSys
end Skw
