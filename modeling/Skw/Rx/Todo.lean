import Skw.Lib.Machine
import Skw.Lib.Sharing
import Skw.Rx.Reorder

/-! The todo lists of the receive path. Six functions link and unlink the node of a session, each
in sections of two locks: `todo.lock` of the session and the lock of the list. A section of a
list's lock is one step, in which it is taken and released. The releases of frames between the
sections are those of the session's own model, and `skw_reorder_release` at the end of a round
of `skw_rx_todo` is a call of `skw_set_reorder_timer` of its own. -/
namespace Skw

/-- The todo lists: that of `skw_core` and those of the lmacs. -/
inductive TodoList
  | core
  | lmac (id : ℕ)
deriving DecidableEq

/-- The list heads: of a todo list, and the local one of `skw_rx_todo` in call `k`. -/
inductive ListHead
  | todo (l : TodoList)
  | spliced (k : ℕ)
deriving DecidableEq

/-- `linked` says that the node's pointers lead to others, `addedTo` is the list it was added to
last, and `running` says that `skw_reorder_timeout` runs. -/
structure TodoNode where
  linked : Bool
  addedTo : TodoList
  actived : Bool
  seq : ℕ
  reason : ReleaseReason
  tidRx : Option ℤ
  refCnt : ℤ
  timer : Bool
  running : Bool
  expired : RxTimer
deriving DecidableEq

/-- Who asks for the node to be linked: `skw_reorder_timeout`, `skw_set_reorder_timer` or
`skw_update_tid_rx`. -/
inductive TodoSource
  | timeout
  | timer (sn : ℕ)
  | update (ssn : ℕ)
deriving DecidableEq

/-- Where a call stands. -/
inductive TodoPc (ι : Type*)
  | idle
  | request (n : ι) (src : TodoSource)
  | requested (n : ι) (src : TodoSource)
  | linking (n : ι) (l : TodoList) (src : TodoSource)
  | leave (n : ι) (src : TodoSource)
  | add (n : ι)
  | adding (n : ι) (ref : ℤ)
  | added (n : ι) (ref : ℤ)
  | assign (n : ι) (ref : ℤ)
  | del (n : ι)
  | delTodo (n : ι)
  | delLinked (n : ι)
  | delUnlink (n : ι)
  | delUnlock (n : ι)
  | delNull (n : ι)
  | delTimer (n : ι)
  | delLeave (n : ι)
  | splice (l : TodoList)
  | walk (l : TodoList)
  | unlinking (l : TodoList) (n : ι)
  | processing (l : TodoList) (n : ι)
  | processed (l : TodoList) (n : ι)
  | trace (l : TodoList) (n : ι)
  | tracing (l : TodoList) (n : ι)
deriving DecidableEq

namespace TodoPc
variable {ι : Type*}

/-- Whose `todo.lock` the call holds where it stands. -/
def todoLock : TodoPc ι → Option ι
  | requested n _ | linking n _ _ | leave n _ | adding n _ | added n _ | delTodo n | delLinked n
  | delUnlock n | unlinking _ n | processing _ n | processed _ n | tracing _ n => some n
  | _ => none

/-- Whose `reorder->lock` it holds. -/
def lock : TodoPc ι → Option ι
  | del n | delTodo n | delLinked n | delUnlink n | delUnlock n | delNull n | delTimer n
  | delLeave n => some n
  | _ => none

/-- Whose nodes are in its local list. -/
def list : TodoPc ι → Option TodoList
  | walk l | unlinking l _ | processing l _ | processed l _ | trace l _ | tracing l _ => some l
  | _ => none

end TodoPc

/-- `removed` logs, for each node taken out of a list, the list it was added to and the one whose
count was meant. -/
structure TodoSys (ι : Type*) where
  node : ι → TodoNode
  todoLock : ι → Lib.Lock
  lock : ι → Lib.Lock
  lists : ListHead → List ι
  count : TodoList → ℤ
  pc : ℕ → TodoPc ι
  removed : List (TodoList × TodoList)

/-- Calls of the six functions and the step of a call. Of `skw_set_reorder_timer` the caller says
which `tid_rx` it has and whether the frame is there and due. -/
inductive TodoStep (ι : Type*)
  | reorderTimeout (k : ℕ) (n : ι)
  | setReorderTimer (k : ℕ) (n : ι) (ref : ℤ) (sn : ℕ) (due : Option Bool)
  | updateTidRx (k : ℕ) (n : ι) (ssn : ℕ)
  | addTidRx (k : ℕ) (n : ι) (ssn : ℕ) (alloc : Bool)
  | delTidRx (k : ℕ) (n : ι)
  | rxTodo (k : ℕ) (l : TodoList)
  | next (k : ℕ)
deriving DecidableEq

namespace TodoSys
variable {ι : Type*} [DecidableEq ι]

def init : TodoSys ι where
  node _ := ⟨false, .core, false, 0, .invalid, none, 0, false, false, ⟨0, 0⟩⟩
  todoLock _ := ⟨0, 0⟩
  lock _ := ⟨0, 0⟩
  lists _ := []
  count _ := 0
  pc _ := .idle
  removed := []

def goto (s : TodoSys ι) (k : ℕ) (pc : TodoPc ι) : TodoSys ι :=
  { s with pc := Function.update s.pc k pc }

def setNode (s : TodoSys ι) (n : ι) (d : TodoNode) : TodoSys ι :=
  { s with node := Function.update s.node n d }

def takeTodo (s : TodoSys ι) (n : ι) : TodoSys ι :=
  { s with todoLock := Function.update s.todoLock n (s.todoLock n).take }

def dropTodo (s : TodoSys ι) (n : ι) : TodoSys ι :=
  { s with todoLock := Function.update s.todoLock n (s.todoLock n).drop }

def takeLock (s : TodoSys ι) (n : ι) : TodoSys ι :=
  { s with lock := Function.update s.lock n (s.lock n).take }

def dropLock (s : TodoSys ι) (n : ι) : TodoSys ι :=
  { s with lock := Function.update s.lock n (s.lock n).drop }

def listAdd (s : TodoSys ι) (l : TodoList) (n : ι) : TodoSys ι :=
  { s with
    node := Function.update s.node n { s.node n with linked := true, addedTo := l }
    lists := Function.update s.lists (.todo l) (s.lists (.todo l) ++ [n])
    count := Function.update s.count l (s.count l + 1) }

/-- The node leaves whatever list it is in; the list that is meant is `l`. -/
def listDel (s : TodoSys ι) (l : TodoList) (n : ι) : TodoSys ι :=
  { s with
    node := Function.update s.node n { s.node n with linked := false }
    lists := Lib.unlink s.lists n
    removed := s.removed ++ [((s.node n).addedTo, l)] }

def spliceList (s : TodoSys ι) (k : ℕ) (l : TodoList) : TodoSys ι :=
  { s with
    lists := Function.update (Function.update s.lists (.todo l) []) (.spliced k) (s.lists (.todo l))
    count := Function.update s.count l 0 }

section
variable (pcie : Bool) (lmacId : ι → ℕ)

/-- The list that all but the timer function choose for a node. -/
def todoList (n : ι) : TodoList := if pcie then .lmac (lmacId n) else .core

/-- The section of `todo.lock` that asks for node `n` to be linked: what it writes and where it
links the node, if it does. -/
def requestNode (n : ι) (d : TodoNode) : TodoSource → TodoNode × Option TodoList
  | .timeout =>
    if d.actived then (d, none)
    else ({ d with actived := true, seq := d.expired.sn, reason := .expired, linked := false },
      some .core)
  | .timer sn =>
    if d.actived then (d, none)
    else ({ d with seq := sn, actived := true, reason := .expired }, some (todoList pcie lmacId n))
  | .update ssn =>
    let d := { d with seq := ssn, reason := .bar }
    if d.actived then (d, none)
    else ({ d with actived := true, linked := false }, some (todoList pcie lmacId n))

/-- The next step of call `k`. -/
def next (s : TodoSys ι) (k : ℕ) : Option (TodoSys ι) :=
  match s.pc k with
  | .idle => none
  | .request n src =>
    if (s.todoLock n).Free then some ((s.takeTodo n).goto k (.requested n src)) else none
  | .requested n src =>
    let r := requestNode pcie lmacId n (s.node n) src
    some ((s.setNode n r.1).goto k
      (match r.2 with
        | some l => .linking n l src
        | none => .leave n src))
  | .linking n l src => some ((s.listAdd l n).goto k (.leave n src))
  | .leave n src =>
    let d := if src = .timeout then { s.node n with running := false } else s.node n
    some (((s.setNode n d).dropTodo n).goto k .idle)
  | .add n =>
    if (s.todoLock n).Free then some ((s.takeTodo n).goto k (.adding n (s.node n).refCnt)) else none
  | .adding n ref =>
    some ((s.setNode n { s.node n with seq := 0, actived := false, reason := .invalid }).goto k
      (.added n ref))
  | .added n ref => some ((s.dropTodo n).goto k (.assign n ref))
  | .assign n ref => some ((s.setNode n { s.node n with tidRx := some ref }).goto k .idle)
  | .del n =>
    if (s.node n).tidRx = none then some (s.goto k (.delNull n))
    else if (s.todoLock n).Free then some ((s.takeTodo n).goto k (.delTodo n))
    else none
  | .delTodo n => some (s.goto k (if (s.node n).linked then .delLinked n else .delUnlock n))
  | .delLinked n => some ((s.dropTodo n).goto k (.delUnlink n))
  | .delUnlink n =>
    let l := todoList pcie lmacId n
    let s := s.listDel l n
    some ({ s with count := Function.update s.count l (s.count l - 1) }.goto k (.delUnlock n))
  | .delUnlock n => some ((s.dropTodo n).goto k (.delNull n))
  | .delNull n =>
    some ((s.setNode n { s.node n with tidRx := none, refCnt := (s.node n).refCnt + 1 }).goto k
      (.delTimer n))
  | .delTimer n =>
    if (s.node n).running then none
    else some ((s.setNode n { s.node n with timer := false }).goto k (.delLeave n))
  | .delLeave n => some ((s.dropLock n).goto k .idle)
  | .splice l => some ((s.spliceList k l).goto k (.walk l))
  | .walk l =>
    match s.lists (.spliced k) with
    | [] => some (s.goto k .idle)
    | n :: _ =>
      if (s.todoLock n).Free then some ((s.takeTodo n).goto k (.unlinking l n)) else none
  | .unlinking l n => some ((s.listDel l n).goto k (.processing l n))
  | .processing l n =>
    some ((s.setNode n { s.node n with actived := false }).goto k (.processed l n))
  | .processed l n => some ((s.dropTodo n).goto k (.trace l n))
  | .trace l n =>
    if (s.todoLock n).Free then some ((s.takeTodo n).goto k (.tracing l n)) else none
  | .tracing l n => some ((s.dropTodo n).goto k (.walk l))

/-- A call begins. -/
def start (s : TodoSys ι) : TodoStep ι → Option (ℕ × TodoSys ι)
  | .reorderTimeout k n =>
    let d := s.node n
    if d.timer then
      some (k, if d.refCnt = d.expired.refCnt then
          (s.setNode n { d with timer := false, running := true }).goto k (.request n .timeout)
        else s.setNode n { d with timer := false })
    else none
  | .setReorderTimer k n ref sn due =>
    let d := s.node n
    some (k, if d.timer || d.refCnt != ref then s
      else
        match due with
        | none => s
        | some false => s.setNode n { d with timer := true, expired := ⟨sn, ref⟩ }
        | some true => s.goto k (.request n (.timer sn)))
  | .updateTidRx k n ssn =>
    some (k, if (s.node n).tidRx = none then s else s.goto k (.request n (.update ssn)))
  | .addTidRx k n ssn alloc =>
    let d := s.node n
    some (k, if d.tidRx ≠ none then s.goto k (.request n (.update ssn))
      else if alloc then s.goto k (.add n)
      else s)
  | .delTidRx k n => if (s.lock n).Free then some (k, (s.takeLock n).goto k (.del n)) else none
  | .rxTodo k l => some (k, if s.count l = 0 then s else s.goto k (.splice l))
  | .next _ => none

def step (s : TodoSys ι) : TodoStep ι → Option (TodoSys ι)
  | .next k => s.next pcie lmacId k
  | e => (s.start e).bind fun r => if s.pc r.1 = .idle then some r.2 else none

theorem step_cases {pcie : Bool} {lmacId : ι → ℕ} {s t : TodoSys ι} {e : TodoStep ι}
    (h : s.step pcie lmacId e = some t) :
    (∃ k, e = .next k ∧ s.next pcie lmacId k = some t) ∨
      ∃ k, s.start e = some (k, t) ∧ s.pc k = .idle := by
  cases e
  case next k => exact .inl ⟨k, rfl, h⟩
  all_goals
    right
    simp only [step, Option.bind_eq_some_iff] at h
    obtain ⟨⟨k, u⟩, hr, ht⟩ := h
    split_ifs at ht with hk
    cases ht
    exact ⟨k, hr, hk⟩

end
end TodoSys
end Skw
