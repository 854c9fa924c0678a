import Skw.Lib.Machine
import Skw.Timer.Queue
import Mathlib.Data.List.TakeWhile

/-! The order of the timer queue. The entry is linked behind the one it should precede, or in
front of all when it should come last, so that the list is sorted exactly as long as every
entry joins entries of its own timeout. -/
namespace Skw
namespace TimerData

def Sorted (d : TimerData) : Prop :=
  d.list.Pairwise fun a b => timeBeforeEq a.timeout b.timeout

/-- The kernel timer of a non-empty queue is pending at the smallest timeout in it. -/
def ArmedAtMin (d : TimerData) : Prop :=
  d.list ≠ [] → ∃ m, d.timer = some m ∧ (∃ t ∈ d.list, t.timeout = m) ∧
    ∀ t ∈ d.list, timeBeforeEq m t.timeout

/-- Every queued timer whose timeout is not after `now` has its callback started. -/
def RunsDue (now : Jiffies) (d : TimerData) : Prop :=
  ∀ t ∈ d.list, timeBefore now t.timeout = false → t ∈ (timerWork now d).2

/-- All queued timers are due at one instant, at which the kernel timer is armed. -/
structure Uniform (d : TimerData) : Prop where
  same : ∀ t ∈ d.list, ∀ u ∈ d.list, t.timeout = u.timeout
  armed : d.rearm = d

end TimerData

/-- The queue and the clock. `key` numbers the entries that were linked. -/
structure TimerSys where
  now : Jiffies
  data : TimerData
  key : ℕ

inductive TimerCall
  | addTimerWork (a : TimerData.AddCall)
  | delTimerWork (id : Ptr)
  | timerWork
  | tick (n : ℕ)

namespace TimerSys
open TimerData

def init (now : Jiffies) : TimerSys := ⟨now, timerInit, 0⟩

section
variable (msecsToJiffies : ℕ → Jiffies)

/-- One call, run to its end, or the passing of time. The kernel timer is not pending while
its function runs. -/
def step (s : TimerSys) : TimerCall → Option TimerSys
  | .addTimerWork a =>
    some { s with data := (addTimerWork msecsToJiffies s.data s.now s.key a).2, key := s.key + 1 }
  | .delTimerWork id => some { s with data := s.data.delTimerWork id }
  | .timerWork => some { s with data := (timerWork s.now { s.data with timer := none }).1 }
  | .tick n => some { s with now := s.now + n }

/-- An entry is linked by the call, and then the queue is empty or holds an entry due at the
same instant. -/
def Joins (s : TimerSys) : TimerCall → Prop
  | .addTimerWork a =>
    a.id ≠ 0 → a.cb ≠ 0 → a.name ≠ 0 → s.data.timerIdExist a.id = false → a.alloc = true →
      s.data.list = [] ∨
        ∃ t ∈ s.data.list, t.timeout = (a.timer msecsToJiffies s.now s.key).timeout
  | _ => True

end

/-- What the queue promises of one call: it is left sorted and armed, and the timer function
starts what is due. -/
def Ordered (s : TimerSys) (e : TimerCall) (t : TimerSys) : Prop :=
  t.data.Sorted ∧ t.data.ArmedAtMin ∧ (e = .timerWork → s.data.RunsDue s.now)

end TimerSys

namespace TimerData

theorem Uniform.sorted {d : TimerData} (h : d.Uniform) : d.Sorted :=
  List.pairwise_of_forall_mem_list fun t ht u hu => by simp [h.same t ht u hu]

theorem Uniform.armedAtMin {d : TimerData} (h : d.Uniform) : d.ArmedAtMin := by
  intro hne
  obtain ⟨t, l, hl⟩ := List.exists_cons_of_ne_nil hne
  have ht : t ∈ d.list := by simp [hl]
  refine ⟨t.timeout, ?_, ⟨t, ht, rfl⟩, fun u hu => by simp [h.same t ht u hu]⟩
  have ha := congrArg TimerData.timer h.armed
  simpa [rearm, hl] using ha.symm

theorem Uniform.rearm_of_subset {d : TimerData} (h : d.Uniform) {e : TimerData}
    (hs : ∀ t ∈ e.list, t ∈ d.list) : e.rearm.Uniform := by
  constructor
  · intro t ht u hu
    rw [rearm_list] at ht hu
    exact h.same t (hs t ht) u (hs u hu)
  · exact rearm_rearm e

/-- Where all timeouts agree the search for expired entries stops at none or at all. -/
theorem Uniform.runsDue {d : TimerData} (h : d.Uniform) (now : Jiffies) : d.RunsDue now := by
  intro t ht hdue
  have hall : ∀ u ∈ d.list, (!timeBefore now u.timeout) = true := by
    intro u hu
    rw [h.same u hu t ht, hdue]
    rfl
  simpa [timerWork, expired, List.takeWhile_eq_self_iff.mpr hall] using ht

private theorem linkBehind_head {timer t : Timer} {l : List Timer}
    (hle : timeBeforeEq timer.timeout t.timeout = true) :
    linkTimer timer (t :: l) = t :: timer :: l := by
  simp [linkTimer, linkBehind, hle]

private theorem linkBehind_none {timer : Timer} {l : List Timer}
    (h : ∀ t ∈ l, timeBeforeEq timer.timeout t.timeout = false) :
    linkTimer timer l = timer :: l := by
  have hn : linkBehind timer l = none := by
    induction l with
    | nil => rfl
    | cons t l ih =>
      simp only [List.forall_mem_cons] at h
      simp [linkBehind, h.1, ih h.2]
  simp [linkTimer, hn]

/-- An entry of another timeout is always linked on the wrong side. -/
theorem Uniform.linkTimer_sorted_iff {d : TimerData} (h : d.Uniform) (timer : Timer) :
    ((linkTimer timer d.list).Pairwise fun a b => timeBeforeEq a.timeout b.timeout) ↔
      d.list = [] ∨ ∃ t ∈ d.list, t.timeout = timer.timeout := by
  cases hl : d.list with
  | nil => simp [linkTimer, linkBehind]
  | cons t l =>
    have hsame : ∀ u ∈ d.list, u.timeout = t.timeout := fun u hu => h.same u hu t (by simp [hl])
    simp only [reduceCtorEq, false_or]
    constructor
    · intro hp
      refine ⟨t, by simp, ?_⟩
      cases hle : timeBeforeEq timer.timeout t.timeout with
      | true =>
        rw [linkBehind_head hle] at hp
        exact timeBeforeEq_antisymm (List.rel_of_pairwise_cons hp (by simp)) hle
      | false =>
        have hn : ∀ u ∈ t :: l, timeBeforeEq timer.timeout u.timeout = false := by
          intro u hu
          rw [hsame u (hl ▸ hu), hle]
        rw [linkBehind_none hn] at hp
        have hrel := List.rel_of_pairwise_cons hp List.mem_cons_self
        simp [hle] at hrel
    · rintro ⟨u, hu, hut⟩
      have hall : ∀ v ∈ linkTimer timer (t :: l), v.timeout = timer.timeout := by
        intro v hv
        rcases mem_linkTimer.mp hv with rfl | hv
        · rfl
        · rw [hsame v (hl ▸ hv), ← hsame u (hl ▸ hu), hut]
      exact List.pairwise_of_forall_mem_list fun a ha b hb => by simp [hall a ha, hall b hb]

theorem Uniform.insertTimer {d : TimerData} (h : d.Uniform) {timer : Timer}
    (hj : d.list = [] ∨ ∃ t ∈ d.list, t.timeout = timer.timeout) :
    (d.insertTimer timer).Uniform := by
  have hall : ∀ v ∈ linkTimer timer d.list, v.timeout = timer.timeout := by
    intro v hv
    rcases mem_linkTimer.mp hv with rfl | hv
    · rfl
    · rcases hj with hnil | ⟨t, ht, htt⟩
      · simp [hnil] at hv
      · rw [h.same v hv t ht, htt]
  constructor
  · intro t ht u hu
    rw [insertTimer_list] at ht hu
    rw [hall t ht, hall u hu]
  · exact rearm_rearm _

end TimerData

namespace TimerSys
open TimerData

section
variable {msecsToJiffies : ℕ → Jiffies}

private theorem init_uniform (now : Jiffies) : (init now).data.Uniform :=
  ⟨by simp [init, timerInit], rfl⟩

/-- Only the linking of an entry can end uniformity. -/
theorem Joins.uniform {s t : TimerSys} {e : TimerCall} (hu : s.data.Uniform)
    (hj : Joins msecsToJiffies s e) (h : step msecsToJiffies s e = some t) : t.data.Uniform := by
  cases e with
  | addTimerWork a =>
    cases Option.some.inj h
    show (addTimerWork msecsToJiffies s.data s.now s.key a).2.Uniform
    unfold addTimerWork
    split_ifs with hn he ha
    · exact hu
    · exact hu
    · exact hu
    · push Not at hn
      exact hu.insertTimer (hj hn.1 hn.2.1 hn.2.2 (by simpa using he) (by simpa using ha))
  | delTimerWork id =>
    cases Option.some.inj h
    show (s.data.delTimerWork id).Uniform
    unfold delTimerWork
    refine hu.rearm_of_subset fun t ht => ?_
    split at ht
    · exact ht
    · exact List.mem_of_mem_eraseP ht
  | timerWork =>
    cases Option.some.inj h
    exact hu.rearm_of_subset fun t ht => (List.dropWhile_sublist _).mem ht
  | tick n =>
    cases Option.some.inj h
    exact hu

/-- From a uniform queue a call keeps the promise exactly when the entry it links joins. -/
theorem ordered_iff_joins {s t : TimerSys} {e : TimerCall} (hu : s.data.Uniform)
    (h : step msecsToJiffies s e = some t) : Ordered s e t ↔ Joins msecsToJiffies s e := by
  constructor
  · intro ho
    cases e with
    | addTimerWork a =>
      intro hid hcb hname hex hal
      cases Option.some.inj h
      have hs := ho.1
      simp only [addTimerWork, hid, hcb, hname, hex, hal, Sorted, or_self, if_false,
        Bool.false_eq_true, Bool.not_true, insertTimer_list] at hs
      exact (hu.linkTimer_sorted_iff _).mp hs
    | delTimerWork id => trivial
    | timerWork => trivial
    | tick n => trivial
  · intro hj
    have ht := hj.uniform hu h
    exact ⟨ht.sorted, ht.armedAtMin, fun _ => hu.runsDue s.now⟩

/-- A run keeps the queue in order exactly when every entry it links finds the queue empty or
meets one due at the same instant. -/
theorem along_ordered_iff (msecsToJiffies : ℕ → Jiffies) (now : Jiffies) (es : List TimerCall) :
    Lib.Along (step msecsToJiffies) Ordered (init now) es ↔
      Lib.Along (step msecsToJiffies) (fun s e _ => Joins msecsToJiffies s e) (init now) es :=
  Lib.along_iff (Q := fun s e _ => Joins msecsToJiffies s e)
    (fun _ _ _ hu h hj => Joins.uniform hu hj h)
    (fun _ _ _ hu h => ordered_iff_joins hu h) (init_uniform now) es

end

/-- A timeout of 10 and then one of 5: the second is linked behind the first, the kernel timer
stays at 11, and the timer function run at 7 does not start what was due at 6. -/
def shorterAfterLonger : List TimerCall :=
  [.addTimerWork ⟨1, 1, 0, 10, 1, true⟩, .addTimerWork ⟨1, 1, 0, 5, 2, true⟩, .tick 7]

theorem shorterAfterLonger_not_ordered :
    ((Lib.exec (step (BitVec.ofNat 64)) (init 0) shorterAfterLonger).map fun s =>
        (s.now, s.data.list.map Timer.timeout, s.data.timer, (timerWork s.now s.data).2)) =
      some (7, [11, 6], some 11, []) ∧
    ¬ ∀ es, Lib.Along (step (BitVec.ofNat 64)) Ordered (init 0) es := by
  refine ⟨by decide, fun h => ?_⟩
  have hs : Sorted _ := (((h shorterAfterLonger) _ rfl).2 _ rfl).1.1
  unfold Sorted at hs
  revert hs
  decide

end TimerSys
end Skw
