import Skw.Rx.Todo

/-! Consistency of the todo lists. Two functions act on a node that others may have linked
without taking it out of its list in order: `skw_del_tid_rx` releases `todo.lock` twice for a
linked node, and `skw_add_tid_rx` clears ACTIVED under it. -/
namespace Skw

namespace TodoPc
variable {ι : Type*}

/-- The call has set ACTIVED of a node that it has not linked yet, or has unlinked it and not
cleared ACTIVED. -/
def busy : TodoPc ι → Option ι
  | linking n _ _ | processing _ n => some n
  | _ => none

theorem todoLock_of_busy {pc : TodoPc ι} {n : ι} (h : pc.busy = some n) : pc.todoLock = some n := by
  cases pc <;> simp_all [busy, todoLock]

end TodoPc

namespace TodoSys
variable {ι : Type*}

/-- Every node is in at most one list and in it once, the counts are those of the lists, a node
is active as long as it is in a list or processed (or is about to be linked), nodes leave the
lists they were added to, and the locks are released once for each time they are taken. -/
structure Consistent (s : TodoSys ι) : Prop where
  lists : Lib.Scattered s.lists
  linked : ∀ n, (s.node n).linked = true ↔ ∃ p, n ∈ s.lists p
  count : ∀ l, s.count l = (s.lists (.todo l)).length
  actived : ∀ n, (∀ k l src, s.pc k ≠ .linking n l src) →
    ((s.node n).actived = true ↔ (∃ p, n ∈ s.lists p) ∨ ∃ k l, s.pc k = .processing l n)
  removed : ∀ r ∈ s.removed, r.1 = r.2
  todoLock : Lib.Locked s.todoLock (TodoPc.todoLock ∘ s.pc)
  lock : Lib.Locked s.lock (TodoPc.lock ∘ s.pc)

/-- A node is in no list where `skw_del_tid_rx` tests it and where `skw_add_tid_rx` resets it. -/
def Unlinked (s : TodoSys ι) : TodoStep ι → Prop
  | .next k =>
    match s.pc k with
    | .delTodo n | .adding n _ => (s.node n).linked = false
    | _ => True
  | _ => True

instance (s : TodoSys ι) (e : TodoStep ι) : Decidable (s.Unlinked e) := by
  unfold Unlinked
  split
  · split <;> infer_instance
  · infer_instance

/-- The todo list whose nodes a list head leads to. -/
def origin (s : TodoSys ι) : ListHead → Option TodoList
  | .todo l => some l
  | .spliced k => (s.pc k).list

/-- What a call relies on. -/
def PcOk (s : TodoSys ι) (k : ℕ) : TodoPc ι → Prop
  | .linking n _ _ | .processing _ n => (s.node n).actived = true ∧ (s.node n).linked = false
  | .unlinking _ n => n ∈ s.lists (.spliced k)
  | .delLinked _ | .delUnlink _ => False
  | _ => True

structure Inv (s : TodoSys ι) : Prop where
  lists : Lib.Scattered s.lists
  linked : ∀ n, (s.node n).linked = true ↔ ∃ p, n ∈ s.lists p
  count : ∀ l, s.count l = (s.lists (.todo l)).length
  origin : ∀ p n, n ∈ s.lists p → s.origin p = some (s.node n).addedTo
  actived : ∀ n, (s.node n).linked = true → (s.node n).actived = true
  busy : ∀ n, (s.node n).actived = true → (s.node n).linked = true ∨ ∃ k, (s.pc k).busy = some n
  pc : ∀ k, s.PcOk k (s.pc k)
  removed : ∀ r ∈ s.removed, r.1 = r.2
  todoLock : Lib.Locked s.todoLock (TodoPc.todoLock ∘ s.pc)
  lock : Lib.Locked s.lock (TodoPc.lock ∘ s.pc)

variable {s t u : TodoSys ι} {k : ℕ} {pc : TodoPc ι} {n : ι}

theorem Inv.consistent (h : s.Inv) : s.Consistent where
  lists := h.lists
  linked := h.linked
  count := h.count
  actived n hn := by
    rw [← h.linked]
    constructor
    · intro ha
      rcases h.busy n ha with hl | ⟨k, hk⟩
      · exact .inl hl
      · cases hpc : s.pc k <;> simp only [hpc, TodoPc.busy, Option.some.injEq, reduceCtorEq] at hk
        case linking m l src => exact absurd (hk ▸ hpc) (hn k l src)
        case processing l m => exact .inr ⟨k, l, hk ▸ hpc⟩
    · rintro (hl | ⟨k, l, hk⟩)
      · exact h.actived n hl
      · have := h.pc k
        rw [hk] at this
        exact this.1
  removed := h.removed
  todoLock := h.todoLock
  lock := h.lock

/-- Only one call is inside `todo.lock` of a node. -/
theorem Inv.alone (h : s.Inv) (hk : (s.pc k).todoLock = some n) {j : ℕ}
    (hj : (s.pc j).todoLock = some n) : j = k :=
  h.todoLock.one j k n hj hk

/-- A call moves on without touching the lists; ACTIVED is at most set, for a node that the call
is about to link. -/
theorem Inv.move (h : s.Inv) (hpc : t.pc = Function.update s.pc k pc)
    (hl : t.lists = s.lists ∧ t.count = s.count ∧ t.removed = s.removed)
    (hn : ∀ n, (t.node n).linked = (s.node n).linked ∧ (t.node n).addedTo = (s.node n).addedTo)
    (ha : ∀ n, (s.node n).actived = true → (t.node n).actived = true)
    (ha' : ∀ n, (t.node n).actived = true → (s.node n).actived = true ∨ pc.busy = some n)
    (hb : (s.pc k).busy = none) (ho : pc.list = (s.pc k).list ∨ s.lists (.spliced k) = [])
    (hok : t.PcOk k pc) (htodo : Lib.Locked t.todoLock (TodoPc.todoLock ∘ t.pc))
    (hlock : Lib.Locked t.lock (TodoPc.lock ∘ t.pc)) : t.Inv where
  lists := hl.1 ▸ h.lists
  linked n := by rw [(hn n).1, hl.1]; exact h.linked n
  count l := by rw [hl.1, hl.2.1]; exact h.count l
  origin p n hp := by
    rw [hl.1] at hp
    rw [(hn n).2, ← h.origin p n hp]
    cases p with
    | todo l => rfl
    | spliced j =>
      simp only [TodoSys.origin, hpc]
      rcases eq_or_ne j k with rfl | hj
      · rw [Function.update_self]
        exact ho.resolve_right fun he => by simp [he] at hp
      · rw [Function.update_of_ne hj]
  actived n hl := ha n (h.actived n ((hn n).1 ▸ hl))
  busy n hna := by
    rw [(hn n).1, hpc]
    rcases ha' n hna with hs | hk
    · refine (h.busy n hs).imp id ?_
      rintro ⟨j, hj⟩
      have hjk : j ≠ k := fun he => by simp [he, hb] at hj
      exact ⟨j, by rwa [Function.update_of_ne hjk]⟩
    · exact .inr ⟨k, by rwa [Function.update_self]⟩
  pc j := by
    rw [hpc]
    rcases eq_or_ne j k with rfl | hj
    · rwa [Function.update_self]
    · rw [Function.update_of_ne hj]
      have := h.pc j
      cases hcase : s.pc j <;> simp only [hcase, PcOk, hl.1, (hn _).1] at this ⊢
      case linking | processing => exact ⟨ha _ this.1, this.2⟩
      all_goals exact this
  removed := hl.2.2 ▸ h.removed
  todoLock := htodo
  lock := hlock

private theorem locked_keep {c : ι → Lib.Lock} {f : TodoPc ι → Option ι}
    (h : Lib.Locked c (f ∘ s.pc)) (hf : f pc = f (s.pc k)) :
    Lib.Locked c (f ∘ Function.update s.pc k pc) := by
  rw [Function.comp_update]
  exact h.keep hf

variable [DecidableEq ι] {l : TodoList} {src : TodoSource}

@[simp] theorem setNode_self (s : TodoSys ι) (n : ι) (d : TodoNode) :
    (s.setNode n d).node n = d :=
  Function.update_self ..

private theorem locked_take {c : ι → Lib.Lock} {f : TodoPc ι → Option ι}
    (h : Lib.Locked c (f ∘ s.pc)) (hc : (c n).Free) (hk : f (s.pc k) = none) (hf : f pc = some n) :
    Lib.Locked (Function.update c n (c n).take) (f ∘ Function.update s.pc k pc) := by
  rw [Function.comp_update, hf]
  exact h.take hc hk

private theorem locked_drop {c : ι → Lib.Lock} {f : TodoPc ι → Option ι}
    (h : Lib.Locked c (f ∘ s.pc)) (hk : f (s.pc k) = some n) (hf : f pc = none) :
    Lib.Locked (Function.update c n (c n).drop) (f ∘ Function.update s.pc k pc) := by
  rw [Function.comp_update, hf]
  exact h.drop hk

omit [DecidableEq ι] in
/-- What another call relies on is kept with the node it is busy with and with its local list. -/
private theorem PcOk.mono {j : ℕ} (h : s.PcOk j pc)
    (hb : ∀ m, pc.busy = some m → t.node m = s.node m)
    (hu : ∀ l m, pc = .unlinking l m → m ∈ s.lists (.spliced j) → m ∈ t.lists (.spliced j)) :
    t.PcOk j pc := by
  cases pc <;> simp only [PcOk] at h ⊢
  case linking m _ _ | processing _ m => rwa [hb m rfl]
  case unlinking l m => exact hu l m rfl h

omit [DecidableEq ι] in
/-- A call that keeps its local list leaves the origins alone. -/
private theorem origin_goto (hu : u.pc = s.pc) (hl : pc.list = (s.pc k).list) (p : ListHead) :
    (u.goto k pc).origin p = s.origin p := by
  cases p with
  | todo l => rfl
  | spliced j =>
    simp only [TodoSys.origin, TodoSys.goto, hu]
    rcases eq_or_ne j k with rfl | hj
    · rw [Function.update_self, hl]
    · rw [Function.update_of_ne hj]

omit [DecidableEq ι] in
/-- The call that is busy with a node is not the one that moves on. -/
private theorem busy_goto {m : ι} (hu : u.pc = s.pc) (hk : (s.pc k).busy ≠ some m)
    (h : ∃ j, (s.pc j).busy = some m) : ∃ j, ((u.goto k pc).pc j).busy = some m := by
  obtain ⟨j, hj⟩ := h
  have hjk : j ≠ k := fun he => hk (he ▸ hj)
  refine ⟨j, ?_⟩
  simp only [TodoSys.goto, hu]
  rwa [Function.update_of_ne hjk]

omit [DecidableEq ι] in
private theorem pcOk_goto (hu : u.pc = s.pc) (hk : (u.goto k pc).PcOk k pc)
    (h : ∀ j, j ≠ k → (u.goto k pc).PcOk j (s.pc j)) (j : ℕ) :
    (u.goto k pc).PcOk j ((u.goto k pc).pc j) := by
  show PcOk _ j (Function.update u.pc k pc j)
  rcases eq_or_ne j k with rfl | hj
  · rwa [Function.update_self]
  · rw [Function.update_of_ne hj, hu]
    exact h j hj

/-- `skw_list_add` of an active node that is in no list. -/
theorem Inv.link (h : s.Inv) (hk : s.pc k = .linking n l src) :
    ((s.listAdd l n).goto k (.leave n src)).Inv := by
  have hok := h.pc k
  rw [hk] at hok
  obtain ⟨hact, hlnk⟩ := hok
  have hno : ∀ p, n ∉ s.lists p := fun p hp => by simp [(h.linked n).mpr ⟨p, hp⟩] at hlnk
  have hne : ∀ {p m}, m ∈ s.lists p → m ≠ n := fun hm he => hno _ (he ▸ hm)
  have hmem : ∀ p m, m ∈ (s.listAdd l n).lists p ↔ m ∈ s.lists p ∨ m = n ∧ p = .todo l := by
    intro p m
    simp only [listAdd]
    rcases eq_or_ne p (.todo l) with rfl | hp
    · simp
    · simp [hp]
  have hnode : ∀ m, m ≠ n → (s.listAdd l n).node m = s.node m := fun m hm =>
    Function.update_of_ne hm ..
  have hself : (s.listAdd l n).node n = { s.node n with linked := true, addedTo := l } :=
    Function.update_self ..
  refine ⟨h.lists.push hno _, fun m => ?_, fun l' => ?_, fun p m hp => ?_, fun m hm => ?_,
    fun m hm => ?_, pcOk_goto (s := s) rfl trivial fun j hj => ?_, h.removed,
    locked_keep (s := s) h.todoLock (by rw [hk]; rfl),
    locked_keep (s := s) h.lock (by rw [hk]; rfl)⟩
  · show ((s.listAdd l n).node m).linked = true ↔ ∃ p, m ∈ (s.listAdd l n).lists p
    rcases eq_or_ne m n with rfl | hm
    · rw [hself]
      exact iff_of_true rfl ⟨.todo l, (hmem _ _).mpr (.inr ⟨rfl, rfl⟩)⟩
    · rw [hnode m hm, h.linked]
      simp [hmem, hm]
  · show Function.update s.count l (s.count l + 1) l' =
      (Function.update s.lists (.todo l) (s.lists (.todo l) ++ [n]) (.todo l')).length
    rcases eq_or_ne l' l with rfl | hl
    · simp [h.count]
    · rw [Function.update_of_ne hl, Function.update_of_ne (by simpa using hl)]
      exact h.count l'
  · show TodoSys.origin _ p = some ((s.listAdd l n).node m).addedTo
    have ho : TodoSys.origin ((s.listAdd l n).goto k (.leave n src)) p = s.origin p :=
      origin_goto (s := s) rfl (by rw [hk]; rfl) p
    rcases (hmem p m).mp hp with hp | ⟨rfl, rfl⟩
    · rw [ho, hnode m (hne hp)]
      exact h.origin p m hp
    · rw [hself]
      rfl
  · have hm : ((s.listAdd l n).node m).linked = true := hm
    show ((s.listAdd l n).node m).actived = true
    rcases eq_or_ne m n with rfl | hmn
    · rw [hself]
      exact hact
    · rw [hnode m hmn] at hm ⊢
      exact h.actived m hm
  · have hm : ((s.listAdd l n).node m).actived = true := hm
    show ((s.listAdd l n).node m).linked = true ∨ _
    rcases eq_or_ne m n with rfl | hmn
    · rw [hself]
      exact .inl rfl
    · rw [hnode m hmn] at hm ⊢
      have hbk : (s.pc k).busy ≠ some m := fun hb => by
        rw [hk] at hb
        exact hmn (Option.some.inj hb).symm
      exact (h.busy m hm).imp id (busy_goto (s := s) rfl hbk)
  · refine (h.pc j).mono (fun m hb => hnode m fun he => hj ?_) fun l' m _ hm =>
      (hmem _ m).mpr (.inl hm)
    exact h.alone (by rw [hk]; rfl) (TodoPc.todoLock_of_busy (he ▸ hb))

omit [DecidableEq ι] in
/-- The nodes of a todo list move to the local list of `skw_rx_todo`. -/
theorem Inv.splice (h : s.Inv) (hk : s.pc k = .splice l) :
    ((s.spliceList k l).goto k (.walk l)).Inv := by
  have hnil : s.lists (.spliced k) = [] := List.eq_nil_iff_forall_not_mem.mpr fun n hn => by
    have := h.origin _ n hn
    simp [TodoSys.origin, hk, TodoPc.list] at this
  have hpck : ∀ j, j ≠ k → ((s.spliceList k l).goto k (.walk l)).pc j = s.pc j := fun j hj =>
    Function.update_of_ne hj ..
  have hself : (s.spliceList k l).lists (.spliced k) = s.lists (.todo l) := Function.update_self ..
  have htodo : (s.spliceList k l).lists (.todo l) = [] := by simp [spliceList]
  have hother : ∀ p, p ≠ .spliced k → p ≠ .todo l → (s.spliceList k l).lists p = s.lists p :=
    fun p h₁ h₂ => by simp [spliceList, h₁, h₂]
  have hmem : ∀ m, (∃ p, m ∈ (s.spliceList k l).lists p) ↔ ∃ p, m ∈ s.lists p := by
    intro m
    constructor
    · rintro ⟨p, hp⟩
      by_cases h₁ : p = .spliced k
      · exact ⟨.todo l, by rwa [h₁, hself] at hp⟩
      · by_cases h₂ : p = .todo l
        · simp [h₂, htodo] at hp
        · exact ⟨p, by rwa [hother p h₁ h₂] at hp⟩
    · rintro ⟨p, hp⟩
      by_cases h₁ : p = .spliced k
      · simp [h₁, hnil] at hp
      · by_cases h₂ : p = .todo l
        · exact ⟨.spliced k, by rwa [hself, ← h₂]⟩
        · exact ⟨p, by rwa [hother p h₁ h₂]⟩
  refine ⟨h.lists.splice hnil (by simp), fun m => (h.linked m).trans (hmem m).symm, fun l' => ?_,
    fun p m hp => ?_, h.actived, fun m hm => ?_, pcOk_goto (s := s) rfl trivial fun j hj => ?_,
    h.removed, locked_keep (s := s) h.todoLock (by rw [hk]; rfl),
    locked_keep (s := s) h.lock (by rw [hk]; rfl)⟩
  · show Function.update s.count l 0 l' = ((s.spliceList k l).lists (.todo l')).length
    rcases eq_or_ne l' l with rfl | hl
    · simp [htodo]
    · rw [Function.update_of_ne hl, hother _ (by simp) (by simpa using hl)]
      exact h.count l'
  · have hp : m ∈ (s.spliceList k l).lists p := hp
    show _ = some (s.node m).addedTo
    by_cases h₁ : p = .spliced k
    · subst h₁
      rw [hself] at hp
      simpa [TodoSys.origin, TodoSys.goto, TodoPc.list] using h.origin _ m hp
    · have h₂ : p ≠ .todo l := fun h₂ => by simp [h₂, htodo] at hp
      rw [hother p h₁ h₂] at hp
      rw [← h.origin p m hp]
      cases p with
      | todo l => rfl
      | spliced j => simp only [TodoSys.origin, hpck j fun hj => h₁ (by rw [hj])]
  · exact (h.busy m hm).imp id (busy_goto (s := s) rfl (by simp [hk, TodoPc.busy]))
  · refine (h.pc j).mono (fun _ _ => rfl) fun _ m _ hm => ?_
    show m ∈ (s.spliceList k l).lists (.spliced j)
    rwa [hother _ (by simpa using hj) (by simp)]

/-- The first node of the local list is unlinked. -/
theorem Inv.unlink (h : s.Inv) (hk : s.pc k = .unlinking l n) :
    ((s.listDel l n).goto k (.processing l n)).Inv := by
  have hin : n ∈ s.lists (.spliced k) := by
    have := h.pc k
    rwa [hk] at this
  have hlnk : (s.node n).linked = true := (h.linked n).mpr ⟨_, hin⟩
  have hnode : ∀ m, m ≠ n → (s.listDel l n).node m = s.node m := fun m hm =>
    Function.update_of_ne hm ..
  have hself : (s.listDel l n).node n = { s.node n with linked := false } :=
    Function.update_self ..
  have hsame : ∀ m, ((s.listDel l n).node m).actived = (s.node m).actived ∧
      ((s.listDel l n).node m).addedTo = (s.node m).addedTo := by
    intro m
    rcases eq_or_ne m n with rfl | hm
    · simp [hself]
    · simp [hnode m hm]
  refine ⟨h.lists.unlink n, fun m => ?_, fun l' => ?_, fun p m hp => ?_, fun m hm => ?_,
    fun m hm => ?_, pcOk_goto (s := s) rfl ?_ fun j hj => ?_, fun r hr => ?_,
    locked_keep (s := s) h.todoLock (by rw [hk]; rfl), locked_keep (s := s) h.lock (by rw [hk]; rfl)⟩
  · show ((s.listDel l n).node m).linked = true ↔ ∃ p, m ∈ Lib.unlink s.lists n p
    rcases eq_or_ne m n with rfl | hm
    · rw [hself]
      simp [h.lists.mem_unlink]
    · rw [hnode m hm, h.linked]
      simp [h.lists.mem_unlink, hm]
  · show s.count l' = ((s.lists (.todo l')).erase n).length
    rw [List.erase_of_not_mem fun hm => by simpa using h.lists.one _ _ n hm hin]
    exact h.count l'
  · show _ = some ((s.listDel l n).node m).addedTo
    rw [(hsame m).2, ← h.origin p m (h.lists.mem_unlink.mp hp).2]
    exact origin_goto (s := s) rfl (by rw [hk]; rfl) p
  · have hm : ((s.listDel l n).node m).linked = true := hm
    show ((s.listDel l n).node m).actived = true
    rw [(hsame m).1]
    refine h.actived m ?_
    rcases eq_or_ne m n with rfl | hmn
    · exact hlnk
    · rwa [hnode m hmn] at hm
  · have hm : ((s.listDel l n).node m).actived = true := hm
    show ((s.listDel l n).node m).linked = true ∨ _
    rcases eq_or_ne m n with rfl | hmn
    · exact .inr ⟨k, by simp [TodoSys.goto, TodoPc.busy]⟩
    · rw [hnode m hmn] at hm ⊢
      exact (h.busy m hm).imp id (busy_goto (s := s) rfl (by simp [hk, TodoPc.busy]))
  · show ((s.listDel l n).node n).actived = true ∧ ((s.listDel l n).node n).linked = false
    rw [hself]
    exact ⟨h.actived n hlnk, rfl⟩
  · have hne : ∀ m, (s.pc j).todoLock = some m → m ≠ n := fun m hm he =>
      hj (h.alone (by rw [hk]; rfl) (he ▸ hm))
    exact (h.pc j).mono (fun m hb => hnode m (hne m (TodoPc.todoLock_of_busy hb)))
      fun _ m hu hm => h.lists.mem_unlink.mpr ⟨hne m (by rw [hu]; rfl), hm⟩
  · rcases List.mem_append.mp hr with hr | hr
    · exact h.removed r hr
    · have := h.origin _ n hin
      simp only [TodoSys.origin, hk, TodoPc.list, Option.some.injEq] at this
      simp only [List.mem_singleton] at hr
      rw [hr, this]

/-- ACTIVED is cleared for the node that was unlinked. -/
theorem Inv.done (h : s.Inv) (hk : s.pc k = .processing l n) :
    ((s.setNode n { s.node n with actived := false }).goto k (.processed l n)).Inv := by
  have hok := h.pc k
  rw [hk] at hok
  obtain ⟨-, hlnk⟩ := hok
  obtain ⟨d, hd⟩ : ∃ d, d = { s.node n with actived := false } := ⟨_, rfl⟩
  have hdn : d.linked = (s.node n).linked ∧ d.addedTo = (s.node n).addedTo ∧ d.actived = false :=
    hd ▸ ⟨rfl, rfl, rfl⟩
  rw [← hd]
  have hnode : ∀ m, m ≠ n → (s.setNode n d).node m = s.node m := fun m hm =>
    Function.update_of_ne hm ..
  have hself : (s.setNode n d).node n = d := Function.update_self ..
  have hsame : ∀ m, ((s.setNode n d).node m).linked = (s.node m).linked ∧
      ((s.setNode n d).node m).addedTo = (s.node m).addedTo := by
    intro m
    rcases eq_or_ne m n with rfl | hm
    · rw [hself]
      exact ⟨hdn.1, hdn.2.1⟩
    · simp [hnode m hm]
  refine ⟨h.lists, fun m => ?_, h.count, fun p m hp => ?_, fun m hm => ?_, fun m hm => ?_,
    pcOk_goto (s := s) rfl trivial fun j hj => ?_, h.removed,
    locked_keep (s := s) h.todoLock (by rw [hk]; rfl),
    locked_keep (s := s) h.lock (by rw [hk]; rfl)⟩
  · show ((s.setNode n d).node m).linked = true ↔ _
    rw [(hsame m).1]
    exact h.linked m
  · show _ = some ((s.setNode n d).node m).addedTo
    rw [(hsame m).2, ← h.origin p m hp]
    exact origin_goto (s := s) rfl (by rw [hk]; rfl) p
  · have hm : ((s.setNode n d).node m).linked = true := hm
    rw [(hsame m).1] at hm
    have hmn : m ≠ n := fun he => by simp [he, hlnk] at hm
    show ((s.setNode n d).node m).actived = true
    rw [hnode m hmn]
    exact h.actived m hm
  · have hm : ((s.setNode n d).node m).actived = true := hm
    have hmn : m ≠ n := fun he => by simp [he, hdn] at hm
    show ((s.setNode n d).node m).linked = true ∨ _
    rw [hnode m hmn] at hm ⊢
    have hbk : (s.pc k).busy ≠ some m := fun hb => by
      rw [hk] at hb
      exact hmn (Option.some.inj hb).symm
    exact (h.busy m hm).imp id (busy_goto (s := s) rfl hbk)
  · refine (h.pc j).mono (fun m hb => hnode m fun he => hj ?_) fun _ _ _ hm => hm
    exact h.alone (by rw [hk]; rfl) (TodoPc.todoLock_of_busy (he ▸ hb))

section
variable {pcie : Bool} {lmacId : ι → ℕ}

/-- A call moves on and writes nothing of its node that the lists are about. -/
private theorem Inv.write (h : s.Inv) {d : TodoNode} (ht : t.node = Function.update s.node n d)
    (hd : d.linked = (s.node n).linked ∧ d.addedTo = (s.node n).addedTo ∧
      ((s.node n).actived = true → d.actived = true) ∧
      (d.actived = true → (s.node n).actived = true ∨ pc.busy = some n))
    (hpc : t.pc = Function.update s.pc k pc)
    (hl : t.lists = s.lists ∧ t.count = s.count ∧ t.removed = s.removed)
    (hb : (s.pc k).busy = none) (ho : pc.list = (s.pc k).list ∨ s.lists (.spliced k) = [])
    (hok : t.PcOk k pc) (htodo : Lib.Locked t.todoLock (TodoPc.todoLock ∘ t.pc))
    (hlock : Lib.Locked t.lock (TodoPc.lock ∘ t.pc)) : t.Inv := by
  have hself : t.node n = d := by rw [ht, Function.update_self]
  have hnode : ∀ m, m ≠ n → t.node m = s.node m := fun m hm => by
    rw [ht, Function.update_of_ne hm]
  refine h.move hpc hl (fun m => ?_) (fun m hm => ?_) (fun m hm => ?_) hb ho hok htodo hlock
  all_goals rcases eq_or_ne m n with rfl | hmn
  · rw [hself]
    exact ⟨hd.1, hd.2.1⟩
  · rw [hnode m hmn]
    exact ⟨rfl, rfl⟩
  · rw [hself]
    exact hd.2.2.1 hm
  · rwa [hnode m hmn]
  · rw [hself] at hm
    exact hd.2.2.2 hm
  · rw [hnode m hmn] at hm
    exact .inl hm

/-- A call takes `todo.lock`. -/
private theorem Inv.take (h : s.Inv) (hf : (s.todoLock n).Free) (hb : (s.pc k).todoLock = none)
    (ho : pc.list = (s.pc k).list) (ht : pc.todoLock = some n) (hl : pc.lock = (s.pc k).lock)
    (hok : s.PcOk k pc) : ((s.takeTodo n).goto k pc).Inv := by
  have hbusy : (s.pc k).busy = none := by
    by_contra hne
    obtain ⟨m, hm⟩ := Option.ne_none_iff_exists'.mp hne
    simp [TodoPc.todoLock_of_busy hm] at hb
  exact h.move rfl ⟨rfl, rfl, rfl⟩ (fun _ => ⟨rfl, rfl⟩) (fun _ => id) (fun _ => .inl) hbusy
    (.inl ho) hok (locked_take h.todoLock hf hb ht) (locked_keep (s := s) h.lock hl)

/-- A call releases `todo.lock`. -/
private theorem Inv.drop (h : s.Inv) (hb : (s.pc k).busy = none)
    (hk : (s.pc k).todoLock = some n) (ho : pc.list = (s.pc k).list) (ht : pc.todoLock = none)
    (hl : pc.lock = (s.pc k).lock) (hok : s.PcOk k pc) : ((s.dropTodo n).goto k pc).Inv :=
  h.move rfl ⟨rfl, rfl, rfl⟩ (fun _ => ⟨rfl, rfl⟩) (fun _ => id) (fun _ => .inl) hb (.inl ho) hok
    (locked_drop h.todoLock hk ht) (locked_keep (s := s) h.lock hl)

omit [DecidableEq ι] in
private theorem requestNode_cases (pcie : Bool) (lmacId : ι → ℕ) (n : ι) (d : TodoNode)
    (src : TodoSource)
    (hd : d.linked = true → d.actived = true) :
    let r := requestNode pcie lmacId n d src
    r.1.linked = d.linked ∧ r.1.addedTo = d.addedTo ∧ (d.actived = true → r.1.actived = true) ∧
      (r.2 = none ∧ r.1.actived = d.actived ∨
        ∃ l, r.2 = some l ∧ r.1.actived = true ∧ d.linked = false) := by
  cases hact : d.actived with
  | true => cases src <;> simp [requestNode, hact]
  | false =>
    have hl : d.linked = false := by
      by_contra hne
      simp [hd (by simpa using hne)] at hact
    cases src <;> simp [requestNode, hact, hl]

theorem Inv.next (h : s.Inv) (hg : s.Unlinked (.next k)) (hs : s.next pcie lmacId k = some t) :
    t.Inv := by
  have hlock : ∀ {pc}, pc.lock = (s.pc k).lock →
      Lib.Locked s.lock (TodoPc.lock ∘ Function.update s.pc k pc) :=
    fun hp => locked_keep (s := s) h.lock hp
  have htodo : ∀ {pc}, pc.todoLock = (s.pc k).todoLock →
      Lib.Locked s.todoLock (TodoPc.todoLock ∘ Function.update s.pc k pc) :=
    fun hp => locked_keep (s := s) h.todoLock hp
  have hgoto : ∀ pc, (s.pc k).busy = none → pc.list = (s.pc k).list ∨ s.lists (.spliced k) = [] →
      s.PcOk k pc → pc.todoLock = (s.pc k).todoLock → pc.lock = (s.pc k).lock →
      (s.goto k pc).Inv := fun pc hb ho hok ht hl =>
    h.move rfl ⟨rfl, rfl, rfl⟩ (fun _ => ⟨rfl, rfl⟩) (fun _ => id) (fun _ => .inl) hb ho hok
      (htodo ht) (hlock hl)
  have hpc := h.pc k
  unfold TodoSys.next at hs
  unfold Unlinked at hg
  cases hk : s.pc k <;> simp only [hk] at hs hg hpc hlock htodo hgoto
  case idle => cases hs
  case request n src | add n | trace l n =>
    split_ifs at hs with hf
    cases hs
    exact h.take hf (by rw [hk]; rfl) (by rw [hk]; rfl) rfl (by rw [hk]; rfl) trivial
  case requested n src =>
    cases hs
    obtain ⟨hl, ha, hup, hr⟩ := requestNode_cases pcie lmacId n
      (s.node n) src (h.actived n)
    rcases hr with ⟨hnone, hact⟩ | ⟨l, hsome, hact, hlnk⟩
    · rw [hnone]
      exact h.write rfl ⟨hl, ha, hup, fun hd => .inl (hact ▸ hd)⟩ rfl ⟨rfl, rfl, rfl⟩
        (by rw [hk]; rfl) (.inl (by rw [hk]; rfl)) trivial (htodo rfl) (hlock rfl)
    · rw [hsome]
      refine h.write rfl ⟨hl, ha, hup, fun _ => .inr rfl⟩ rfl ⟨rfl, rfl, rfl⟩ (by rw [hk]; rfl)
        (.inl (by rw [hk]; rfl)) ?_ (htodo rfl) (hlock rfl)
      show ((s.setNode n _).node n).actived = true ∧ ((s.setNode n _).node n).linked = false
      rw [setNode_self, hl]
      exact ⟨hact, hlnk⟩
  case linking n l src =>
    cases hs
    exact h.link hk
  case leave n src =>
    cases hs
    refine h.write rfl ?_ rfl ⟨rfl, rfl, rfl⟩ (by rw [hk]; rfl) (.inl (by rw [hk]; rfl)) trivial
      (locked_drop (s := s) h.todoLock (by rw [hk]; rfl) rfl) (hlock rfl)
    split_ifs <;> exact ⟨rfl, rfl, id, .inl⟩
  case adding n ref =>
    cases hs
    have hact : (s.node n).actived = false := by
      by_contra hne
      rcases h.busy n (by simpa using hne) with hl | ⟨j, hj⟩
      · simp [hg] at hl
      · have hjk := h.alone (k := k) (by rw [hk]; rfl) (TodoPc.todoLock_of_busy hj)
        simp [hjk, hk, TodoPc.busy] at hj
    exact h.write rfl ⟨rfl, rfl, fun ha => by simp [hact] at ha, fun ha => by cases ha⟩ rfl
      ⟨rfl, rfl, rfl⟩ (by rw [hk]; rfl) (.inl (by rw [hk]; rfl)) trivial (htodo rfl) (hlock rfl)
  case added n ref | processed l n | tracing l n | delUnlock n =>
    cases hs
    exact h.drop (by rw [hk]; rfl) (by rw [hk]; rfl) (by rw [hk]; rfl) rfl (by rw [hk]; rfl) trivial
  case assign n ref =>
    cases hs
    exact h.write rfl ⟨rfl, rfl, id, .inl⟩ rfl ⟨rfl, rfl, rfl⟩ (by rw [hk]; rfl)
      (.inl (by rw [hk]; rfl)) trivial (htodo rfl) (hlock rfl)
  case del n =>
    split_ifs at hs with hnull hf <;> cases hs
    · exact hgoto _ rfl (.inl rfl) trivial rfl rfl
    · exact h.take hf (by rw [hk]; rfl) (by rw [hk]; rfl) rfl (by rw [hk]; rfl) trivial
  case delTodo n =>
    cases hs
    rw [hg, if_neg (by simp)]
    exact hgoto _ rfl (.inl rfl) trivial rfl rfl
  case delLinked n | delUnlink n => exact hpc.elim
  case delNull n =>
    cases hs
    exact h.write rfl ⟨rfl, rfl, id, .inl⟩ rfl ⟨rfl, rfl, rfl⟩ (by rw [hk]; rfl)
      (.inl (by rw [hk]; rfl)) trivial (htodo rfl) (hlock rfl)
  case delTimer n =>
    split_ifs at hs
    cases hs
    exact h.write rfl ⟨rfl, rfl, id, .inl⟩ rfl ⟨rfl, rfl, rfl⟩ (by rw [hk]; rfl)
      (.inl (by rw [hk]; rfl)) trivial (htodo rfl) (hlock rfl)
  case delLeave n =>
    cases hs
    exact h.move rfl ⟨rfl, rfl, rfl⟩ (fun _ => ⟨rfl, rfl⟩) (fun _ => id) (fun _ => .inl)
      (by rw [hk]; rfl) (.inl (by rw [hk]; rfl)) trivial (htodo rfl)
      (locked_drop (s := s) h.lock (by rw [hk]; rfl) rfl)
  case splice l =>
    cases hs
    exact h.splice hk
  case walk l =>
    split at hs
    · next he =>
      cases hs
      exact hgoto _ rfl (.inr he) trivial rfl rfl
    · next n l' he =>
      split_ifs at hs with hf
      cases hs
      refine h.take hf (by rw [hk]; rfl) (by rw [hk]; rfl) rfl (by rw [hk]; rfl) ?_
      show n ∈ s.lists (.spliced k)
      simp [he]
  case unlinking l n =>
    cases hs
    exact h.unlink hk
  case processing l n =>
    cases hs
    exact h.done hk

/-- A call that begins links and unlinks nothing. -/
theorem Inv.start (h : s.Inv) {e : TodoStep ι} {r : ℕ × TodoSys ι} (hs : s.start e = some r)
    (hk : s.pc r.1 = .idle) : r.2.Inv := by
  have hlock : ∀ {k pc}, s.pc k = .idle → pc.lock = none →
      Lib.Locked s.lock (TodoPc.lock ∘ Function.update s.pc k pc) :=
    fun hk hp => locked_keep (s := s) h.lock (by rw [hk]; exact hp)
  have htodo : ∀ {k pc}, s.pc k = .idle → pc.todoLock = none →
      Lib.Locked s.todoLock (TodoPc.todoLock ∘ Function.update s.pc k pc) :=
    fun hk hp => locked_keep (s := s) h.todoLock (by rw [hk]; exact hp)
  have hgoto : ∀ {k} pc, s.pc k = .idle → pc.list = none → s.PcOk k pc → pc.todoLock = none →
      pc.lock = none → (s.goto k pc).Inv := fun pc hk ho hok ht hl =>
    h.move rfl ⟨rfl, rfl, rfl⟩ (fun _ => ⟨rfl, rfl⟩) (fun _ => id) (fun _ => .inl)
      (by rw [hk]; rfl) (.inl (by rw [hk]; exact ho)) hok (htodo hk ht) (hlock hk hl)
  have hset : ∀ {k} n d, s.pc k = .idle → (d.linked = (s.node n).linked ∧
      d.addedTo = (s.node n).addedTo ∧ ((s.node n).actived = true → d.actived = true) ∧
      (d.actived = true → (s.node n).actived = true)) → (s.setNode n d).Inv := by
    intro k n d hk hd
    have hpc : (s.setNode n d).pc = Function.update s.pc k .idle := by
      rw [← hk, Function.update_eq_self]
      rfl
    exact h.write (k := k) rfl ⟨hd.1, hd.2.1, hd.2.2.1, fun ha => .inl (hd.2.2.2 ha)⟩ hpc
      ⟨rfl, rfl, rfl⟩ (by rw [hk]; rfl) (.inl (by rw [hk])) trivial h.todoLock h.lock
  cases e <;> simp only [TodoSys.start] at hs
  case reorderTimeout k n =>
    split_ifs at hs <;> cases hs
    · exact h.write rfl ⟨rfl, rfl, id, .inl⟩ rfl ⟨rfl, rfl, rfl⟩ (by rw [hk]; rfl)
        (.inl (by rw [hk]; rfl)) trivial (htodo hk rfl) (hlock hk rfl)
    · exact hset n _ hk ⟨rfl, rfl, id, id⟩
  case setReorderTimer k n ref sn due =>
    cases hs
    split_ifs
    · exact h
    · cases due with
      | none => exact h
      | some due =>
        cases due with
        | false => exact hset n _ hk ⟨rfl, rfl, id, id⟩
        | true => exact hgoto _ hk rfl trivial rfl rfl
  case updateTidRx k n ssn =>
    split_ifs at hs <;> cases hs
    · exact h
    · exact hgoto _ hk rfl trivial rfl rfl
  case addTidRx k n ssn alloc =>
    split_ifs at hs <;> cases hs
    · exact hgoto _ hk rfl trivial rfl rfl
    · exact hgoto _ hk rfl trivial rfl rfl
    · exact h
  case delTidRx k n =>
    split_ifs at hs with hf
    cases hs
    have hk : s.pc k = .idle := hk
    exact h.move rfl ⟨rfl, rfl, rfl⟩ (fun _ => ⟨rfl, rfl⟩) (fun _ => id) (fun _ => .inl)
      (by rw [hk]; rfl) (.inl (by rw [hk]; rfl)) trivial (htodo hk rfl)
      (locked_take (s := s) h.lock hf (by rw [hk]; rfl) rfl)
  case rxTodo k l =>
    split_ifs at hs <;> cases hs
    · exact h
    · exact hgoto _ hk rfl trivial rfl rfl
  case next => cases hs

omit [DecidableEq ι] in
private theorem init_inv : (init : TodoSys ι).Inv where
  lists := ⟨fun _ => List.nodup_nil, fun _ _ _ h => by cases h⟩
  linked n := by simp [init]
  count _ := rfl
  origin _ _ h := by cases h
  actived _ h := by cases h
  busy _ h := by cases h
  pc _ := trivial
  removed _ h := by cases h
  todoLock := ⟨fun _ _ => rfl, (fun _ _ h => by cases h), fun _ _ _ h => by cases h⟩
  lock := ⟨fun _ _ => rfl, (fun _ _ h => by cases h), fun _ _ _ h => by cases h⟩

/-- Runs that delete and recreate only sessions whose node is in no list keep the lists
consistent, on every bus and for any set of sessions. -/
theorem consistent_of_unlinked (pcie : Bool) (lmacId : ι → ℕ) (s : TodoSys ι)
    (h : Lib.Reach (step pcie lmacId) Unlinked init s) : s.Consistent := by
  refine (h.invariant (I := Inv) init_inv fun s e t hi hg hs => ?_).consistent
  rcases step_cases hs with ⟨k, rfl, hn⟩ | ⟨k, hb, hk⟩
  · exact hi.next hg hn
  · exact hi.start hb hk

end

/-- A request of `skw_update_tid_rx` for a session, with the lock not contended. -/
def requestSteps (k : ℕ) : List (TodoStep ℕ) := [.next k, .next k, .next k, .next k]

/-- A new session with its node linked by a block-ack request. -/
def linkSession (n : ℕ) : List (TodoStep ℕ) :=
  [.addTidRx 0 n 0 true, .next 0, .next 0, .next 0, .next 0, .updateTidRx 0 n 7] ++ requestSteps 0

theorem consistent_of_unlinked_served :
    ∃ s : TodoSys ℕ, Lib.Reach (step false fun _ => 0) Unlinked init s ∧
      s.removed = [(.core, .core), (.core, .core)] ∧ (s.node 3).tidRx = none ∧ s.Consistent := by
  obtain ⟨s, hs, hp⟩ := Lib.exists_reach_of_exec (step false fun _ => 0) Unlinked
    (init : TodoSys ℕ)
    (linkSession 3 ++ linkSession 4 ++ .rxTodo 0 .core :: List.replicate 14 (.next 0) ++
      .delTidRx 0 3 :: List.replicate 6 (.next 0))
    (fun s => s.removed == [(.core, .core), (.core, .core)] && (s.node 3).tidRx == none)
    (by decide +kernel)
  simp only [Bool.and_eq_true, beq_iff_eq] at hp
  exact ⟨s, hs, hp.1, hp.2, consistent_of_unlinked false (fun _ => 0) s hs⟩

/-- A session is deleted while its node waits for `skw_rx_todo`: `skw_del_tid_rx` releases
`todo.lock` before it unlinks the node and again after. -/
theorem deleteLinked_not_consistent :
    ¬ ∀ s : TodoSys ℕ, Lib.Reach (step false fun _ => 0) Lib.Free init s → s.Consistent := by
  intro h
  obtain ⟨s, hs, hp⟩ := Lib.exists_reach_of_exec (step false fun _ => 0) Lib.Free
    (init : TodoSys ℕ)
    (linkSession 3 ++ .delTidRx 0 3 :: List.replicate 8 (.next 0))
    (fun s => s.todoLock 3 == ⟨3, 4⟩) (by decide +kernel)
  have hle := (h s hs).todoLock.released_le 3
  rw [beq_iff_eq.mp hp] at hle
  exact absurd hle (by decide)

end TodoSys
end Skw
