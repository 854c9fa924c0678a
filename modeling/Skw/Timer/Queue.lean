import Skw.Kernel.Types
import Mathlib.Data.List.Basic

/-! The timer queue of `skw_timer.c`: one sorted list served by one kernel timer. Each critical
section of `timer_data.lock` is one function; the entry points are put together from them. -/
namespace Skw

/-- `struct skw_timer`. `key` tells one allocation from another. -/
structure Timer where
  key : ℕ
  timeout : Jiffies
  cb : Ptr
  id : Ptr
  data : Ptr
  name : Ptr
deriving DecidableEq

/-- `struct skw_timer_data`. `timer` is the expiry of the kernel timer while it is pending. -/
structure TimerData where
  count : ℤ
  list : List Timer
  timer : Option Jiffies

namespace TimerData

/-- `skw_timer_init`. -/
def timerInit : TimerData := ⟨0, [], none⟩

/-- Arm the kernel timer for the first entry, where there is one. -/
def rearm (d : TimerData) : TimerData :=
  match d.list with
  | [] => d
  | t :: _ => { d with timer := some t.timeout }

def timerIdExist (d : TimerData) (id : Ptr) : Bool :=
  d.list.any fun t => id == t.id

/-- The search of `skw_add_timer_work` and the `list_add` behind the entry it stops at. -/
def linkBehind (timer : Timer) : List Timer → Option (List Timer)
  | [] => none
  | node :: rest =>
    if timeBeforeEq timer.timeout node.timeout then some (node :: timer :: rest)
    else (linkBehind timer rest).map (node :: ·)

/-- When the search runs to the end, `head` is still the list head, so the entry is linked
in front of all others. -/
def linkTimer (timer : Timer) (list : List Timer) : List Timer :=
  (linkBehind timer list).getD (timer :: list)

/-- The critical section of `skw_add_timer_work`. -/
def insertTimer (d : TimerData) (timer : Timer) : TimerData :=
  rearm { d with list := linkTimer timer d.list, count := d.count + 1 }

/-- The arguments of `skw_add_timer_work`, and whether its allocation succeeds. -/
structure AddCall where
  name : Ptr
  cb : Ptr
  data : Ptr
  timeout : ℕ
  id : Ptr
  alloc : Bool
deriving DecidableEq

section
variable (msecsToJiffies : ℕ → Jiffies)

/-- The entry `skw_add_timer_work` fills in; one `jiffies` is added to the timeout. -/
def AddCall.timer (a : AddCall) (now : Jiffies) (key : ℕ) : Timer :=
  ⟨key, msecsToJiffies a.timeout + now + 1, a.cb, a.id, a.data, a.name⟩

/-- `skw_add_timer_work`: its result and the queue after it. -/
def addTimerWork (d : TimerData) (now : Jiffies) (key : ℕ) (a : AddCall) : ℤ × TimerData :=
  if a.id = 0 ∨ a.cb = 0 ∨ a.name = 0 then (-EINVAL, d)
  else if d.timerIdExist a.id then (-EINVAL, d)
  else if !a.alloc then (-ENOMEM, d)
  else (0, d.insertTimer (a.timer msecsToJiffies now key))

end

/-- The search of `skw_del_timer_work`: the entry it unlinks. -/
def timerOf (d : TimerData) (id : Ptr) : Option Timer :=
  d.list.find? fun t => t.id == id

/-- `skw_del_timer_work`. -/
def delTimerWork (d : TimerData) (id : Ptr) : TimerData :=
  rearm (match d.timerOf id with
    | none => d
    | some _ => { d with list := d.list.eraseP fun t => t.id == id, count := d.count - 1 })

/-- The first critical section of `skw_timer_work`: the expired entries, up to the first that
is not, go to the private `timeout_list`, each to its front. -/
def expired (now : Jiffies) (d : TimerData) : List Timer :=
  (d.list.takeWhile fun t => !timeBefore now t.timeout).reverse

def collect (now : Jiffies) (d : TimerData) : TimerData :=
  { d with list := d.list.dropWhile fun t => !timeBefore now t.timeout }

/-- `skw_timer_work` run without interruption: the queue after it and the timers whose
callbacks it started, in order. -/
def timerWork (now : Jiffies) (d : TimerData) : TimerData × List Timer :=
  let c := collect now d
  (rearm { c with count := c.count - (expired now d).length }, expired now d)

@[simp] theorem rearm_list (d : TimerData) : d.rearm.list = d.list := by
  unfold rearm; split <;> simp_all

@[simp] theorem rearm_rearm (d : TimerData) : d.rearm.rearm = d.rearm := by
  cases h : d.list <;> simp [rearm, h]

@[simp] theorem insertTimer_list (d : TimerData) (timer : Timer) :
    (d.insertTimer timer).list = linkTimer timer d.list := by
  simp [insertTimer]

theorem delTimerWork_list (d : TimerData) (id : Ptr) :
    (d.delTimerWork id).list = d.list.eraseP fun t => t.id == id := by
  unfold delTimerWork
  rw [rearm_list]
  cases h : d.timerOf id with
  | some t => rfl
  | none =>
    have hn := List.find?_eq_none.mp h
    exact (List.eraseP_of_forall_not hn).symm

@[simp] theorem collect_list (now : Jiffies) (d : TimerData) :
    (collect now d).list = d.list.dropWhile fun t => !timeBefore now t.timeout := rfl

/-- Linking adds the new entry and loses none. -/
theorem linkTimer_perm (timer : Timer) (list : List Timer) :
    (linkTimer timer list).Perm (timer :: list) := by
  have hb : ∀ l l', linkBehind timer l = some l' → l'.Perm (timer :: l) := by
    intro l
    induction l with
    | nil => intro l' h; simp [linkBehind] at h
    | cons node rest ih =>
      intro l' h
      simp only [linkBehind] at h
      split_ifs at h with hle
      · cases Option.some.inj h
        exact .swap timer node rest
      · obtain ⟨r, hr, rfl⟩ := Option.map_eq_some_iff.mp h
        exact ((ih r hr).cons node).trans (.swap timer node rest)
  unfold linkTimer
  cases h : linkBehind timer list with
  | none => exact .refl _
  | some l' => exact hb list l' h

/-- The first critical section of `skw_timer_work` moves entries and loses none. -/
theorem expired_append_collect_perm (now : Jiffies) (d : TimerData) :
    (expired now d ++ (collect now d).list).Perm d.list := by
  refine ((List.reverse_perm _).append_right _).trans ?_
  rw [collect_list, List.takeWhile_append_dropWhile]

theorem delTimerWork_perm {d : TimerData} {id : Ptr} {t : Timer} (h : d.timerOf id = some t) :
    d.list.Perm (t :: (d.delTimerWork id).list) := by
  obtain ⟨hid, l₁, l₂, hl, hno⟩ := List.find?_eq_some_iff_append.mp h
  have hno' : ∀ u ∈ l₁, ¬ (u.id == id) = true := fun u hu => by simpa using hno u hu
  rw [delTimerWork_list, hl, List.eraseP_append_right (t :: l₂) hno',
    List.eraseP_cons_of_pos (p := fun u : Timer => u.id == id) hid]
  exact List.perm_middle

theorem delTimerWork_none {d : TimerData} {id : Ptr} (h : d.timerOf id = none) :
    (d.delTimerWork id).list = d.list := by
  rw [delTimerWork_list]
  exact List.eraseP_of_forall_not (List.find?_eq_none.mp h)

theorem timerOf_id {d : TimerData} {id : Ptr} {t : Timer} (h : d.timerOf id = some t) :
    t.id = id := by
  simpa using List.find?_some h

/-- A deletion leaves no entry of the id behind when there was at most one. -/
theorem id_ne_of_mem_delTimerWork {d : TimerData} {id : Ptr}
    (h : (d.list.filter fun t => t.id == id).length ≤ 1) {t : Timer}
    (ht : t ∈ (d.delTimerWork id).list) : t.id ≠ id := by
  intro hid
  cases hf : d.timerOf id with
  | none =>
    rw [delTimerWork_none hf] at ht
    simpa [hid] using List.find?_eq_none.mp hf t ht
  | some u =>
    have hp := (delTimerWork_perm hf).filter fun t => t.id == id
    rw [hp.length_eq] at h
    have hm : t ∈ (d.delTimerWork id).list.filter fun t => t.id == id :=
      List.mem_filter.mpr ⟨ht, by simp [hid]⟩
    have := List.length_pos_of_mem hm
    simp only [List.filter_cons, timerOf_id hf, beq_self_eq_true, if_true, List.length_cons] at h
    omega

@[simp] theorem mem_linkTimer {t timer : Timer} {list : List Timer} :
    t ∈ linkTimer timer list ↔ t = timer ∨ t ∈ list := by
  rw [(linkTimer_perm timer list).mem_iff, List.mem_cons]

end TimerData
end Skw
