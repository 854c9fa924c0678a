import Skw.Kernel.Types
import Skw.Lib.Machine
import Skw.Lib.Chain

/-! The deferred-free queue of `skw_work.c`: `skw_call_rcu` appends through `rcu_tail`, the loop
of `skw_work` unlinks at `rcu_hdr` and resets `rcu_tail` and the flag outside the lock. -/
namespace Skw
open Lib (Link Links)

/-- What happens to an `rcu_head`: queued, stored into, its function called. -/
inductive RcuObs
  | queued (head : Ptr) (func : Ptr)
  | wrote (head : Ptr)
  | called (head : Ptr) (func : Ptr)
deriving DecidableEq

/-- Where the loop of `skw_work` stands: before the test of the flag, before the lock, with an
unlinked head, and past an empty list before the reset of `rcu_tail` and of the flag. -/
inductive RcuPc
  | idle
  | tested
  | got (head : Ptr)
  | empty
  | reset
deriving DecidableEq

/-- The head that the loop has unlinked and not yet called. -/
def RcuPc.inHand : RcuPc → List Ptr
  | got h => [h]
  | _ => []

/-- `setting` counts the callers of `skw_call_rcu` that have yet to set the flag; `hist` has
the newest first. -/
structure RcuSys where
  links : Links Ptr
  func : Ptr → Ptr
  tail : Link Ptr
  flag : Bool
  pc : RcuPc
  setting : ℕ
  hist : List RcuObs

inductive RcuStep
  | append (head : Ptr) (func : Ptr)
  | setBit
  | test
  | pop
  | call
  | resetTail
  | clearBit
deriving DecidableEq

namespace RcuSys
open RcuObs

def queuedOf : RcuObs → Option (Ptr × Ptr)
  | .queued h f => some (h, f)
  | _ => none

def calledOf : RcuObs → Option (Ptr × Ptr)
  | .called h f => some (h, f)
  | _ => none

/-- The heads queued so far with their functions, in order. -/
def queue (s : RcuSys) : List (Ptr × Ptr) := (s.hist.filterMap queuedOf).reverse

/-- The heads whose functions were called, in order. -/
def freed (s : RcuSys) : List (Ptr × Ptr) := (s.hist.filterMap calledOf).reverse

/-- `skw_work_init`. -/
def init : RcuSys := ⟨⟨none, fun _ => none⟩, fun _ => 0, .hdr, false, .idle, 0, []⟩

/-- The stores of the critical section of `skw_call_rcu`, as seen by the heads. -/
def stores (tail : Link Ptr) (head func : Ptr) : List RcuObs :=
  (match tail with
    | .hdr => []
    | .next z => [wrote z]) ++ [wrote head, queued head func]

def step (s : RcuSys) : RcuStep → Option RcuSys
  | .append head func =>
    if head ∈ s.queue.map Prod.fst then none
    else
      some { s with
        func := Function.update s.func head func
        links := (s.links.set (.next head) none).set s.tail (some head)
        tail := .next head
        setting := s.setting + 1
        hist := stores s.tail head func ++ s.hist }
  | .setBit => if s.setting = 0 then none else some { s with flag := true, setting := s.setting - 1 }
  | .test =>
    match s.pc with
    | .idle => some { s with pc := if s.flag then .tested else .idle }
    | _ => none
  | .pop =>
    match s.pc, s.links.hdr with
    | .tested, some h => some { s with links := { s.links with hdr := s.links.next h }, pc := .got h }
    | .tested, none => some { s with pc := .empty }
    | _, _ => none
  | .call =>
    match s.pc with
    | .got h => some { s with pc := .idle, hist := called h (s.func h) :: s.hist }
    | _ => none
  | .resetTail =>
    match s.pc with
    | .empty => some { s with tail := .hdr, pc := .reset }
    | _ => none
  | .clearBit =>
    match s.pc with
    | .reset => some { s with flag := false, pc := .idle }
    | _ => none

/-- The functions called are those of the heads queued first, each once and in queue order. -/
def InOrder (s : RcuSys) : Prop := s.freed <+: s.queue ∧ (s.queue.map Prod.fst).Nodup

/-- When the loop is done, the flag is clear and no caller is about to set it, all were called. -/
def Drained (s : RcuSys) : Prop :=
  s.pc = .idle → s.flag = false → s.setting = 0 → s.freed = s.queue

/-- No head is stored into after its function was called. -/
def NoLateWrite (s : RcuSys) : Prop :=
  ∀ h f, ¬ List.Sublist [wrote h, called h f] s.hist

/-- `rcu_tail` points to the link that ends the list: `rcu_hdr` when the list is empty, else the
link in the head queued last. -/
def TailAtEnd (s : RcuSys) : Prop :=
  s.tail = if s.links.hdr = none then .hdr else Links.endOf (s.queue.map Prod.fst)

/-- Heads are appended where `rcu_tail` is at the end of the list, and the flag is cleared with
the list empty or with a caller about to set it again. -/
def Settled (s : RcuSys) : RcuStep → Prop
  | .append _ _ => s.TailAtEnd
  | .clearBit => s.links.hdr = none ∨ s.setting ≠ 0
  | _ => True

instance (s : RcuSys) (e : RcuStep) : Decidable (s.Settled e) := by
  cases e <;> unfold Settled <;> try unfold TailAtEnd
  all_goals infer_instance


structure Inv (s : RcuSys) (l : List Ptr) : Prop where
  lists : s.links.Lists l
  split : s.queue = s.freed ++ (s.pc.inHand ++ l).map fun h => (h, s.func h)
  nodup : (s.queue.map Prod.fst).Nodup
  flagged : s.flag = false → s.setting = 0 → s.links.hdr = none
  clean : s.NoLateWrite

private theorem stores_queue (tail : Link Ptr) (h f : Ptr) :
    (stores tail h f).filterMap queuedOf = [(h, f)] := by
  cases tail <;> rfl

private theorem stores_freed (tail : Link Ptr) (h f : Ptr) :
    (stores tail h f).filterMap calledOf = [] := by
  cases tail <;> rfl

private theorem Inv.heads {s : RcuSys} {l : List Ptr} (h : s.Inv l) :
    s.queue.map Prod.fst = s.freed.map Prod.fst ++ (s.pc.inHand ++ l) := by
  rw [h.split, List.map_append, List.map_map]
  exact congrArg _ (List.map_id _)

private theorem mem_freed {s : RcuSys} {a f : Ptr} (h : called a f ∈ s.hist) :
    (a, f) ∈ s.freed :=
  List.mem_reverse.mpr (List.mem_filterMap.mpr ⟨_, h, rfl⟩)

private theorem Inv.mem_queue {s : RcuSys} {l : List Ptr} (h : s.Inv l) {a : Ptr}
    (ha : a ∈ s.pc.inHand ++ l) : a ∈ s.queue.map Prod.fst := by
  rw [h.heads]
  exact List.mem_append_right _ ha

/-- What is in hand or in the list was not called yet. -/
private theorem Inv.notMem_freed {s : RcuSys} {l : List Ptr} (h : s.Inv l) {a : Ptr}
    (ha : a ∈ s.pc.inHand ++ l) (f : Ptr) : called a f ∉ s.hist := by
  intro hm
  have hn := h.nodup
  rw [h.heads, List.nodup_append] at hn
  exact hn.2.2 a (List.mem_map.mpr ⟨_, mem_freed hm, rfl⟩) a ha rfl

private theorem noLateWrite_cons {hist : List RcuObs} {o : RcuObs}
    (h : ∀ a f, ¬ List.Sublist [wrote a, called a f] hist)
    (ho : ∀ a f, o = wrote a → called a f ∉ hist) (a f : Ptr) :
    ¬ List.Sublist [wrote a, called a f] (o :: hist) := by
  intro hs
  rcases List.sublist_cons_iff.mp hs with hs | ⟨r, hr, hs⟩
  · exact h a f hs
  · obtain ⟨hoa, rfl⟩ := List.cons.inj hr
    exact ho a f hoa.symm (List.singleton_sublist.mp hs)

/-- With the list not empty the head queued last ends it. -/
private theorem Inv.tail_eq {s : RcuSys} {l : List Ptr} (h : s.Inv l) (ht : s.TailAtEnd) :
    s.tail = Links.endOf l := by
  have hhdr := h.lists.hdr_eq
  unfold TailAtEnd at ht
  split_ifs at ht with hn
  · rw [hn] at hhdr
    rw [ht, List.head?_eq_none_iff.mp hhdr.symm]
    rfl
  · have hl : l ≠ [] := fun he => hn (by rw [hhdr, he]; rfl)
    rw [ht, h.heads, ← List.append_assoc]
    unfold Links.endOf
    rw [List.getLast?_append_of_ne_nil _ hl]

private theorem Inv.append {s : RcuSys} {l : List Ptr} (h : s.Inv l) {head : Ptr} (func : Ptr)
    (hfresh : head ∉ s.queue.map Prod.fst) (ht : s.TailAtEnd) :
    Inv { s with
      func := Function.update s.func head func
      links := (s.links.set (.next head) none).set s.tail (some head)
      tail := .next head
      setting := s.setting + 1
      hist := stores s.tail head func ++ s.hist } (l ++ [head]) := by
  have hne : ∀ a ∈ s.pc.inHand ++ l, a ≠ head := fun a ha he => hfresh (he ▸ h.mem_queue ha)
  have hl : l.Nodup := by
    have hn := h.nodup
    rw [h.heads] at hn
    exact (hn.of_append_right).of_append_right
  have hcalled : ∀ f, called head f ∉ s.hist := by
    intro f hm
    refine hfresh ?_
    rw [h.heads]
    exact List.mem_append_left _ (List.mem_map.mpr ⟨_, mem_freed hm, rfl⟩)
  constructor
  · rw [h.tail_eq ht]
    exact h.lists.append hl fun hm => hne head (List.mem_append_right _ hm) rfl
  · have hq : s.queue ++ [(head, func)] =
        s.freed ++ (s.pc.inHand ++ (l ++ [head])).map fun a =>
          (a, Function.update s.func head func a) := by
      have hold : (s.pc.inHand ++ l).map (fun a => (a, Function.update s.func head func a)) =
          (s.pc.inHand ++ l).map fun a => (a, s.func a) :=
        List.map_congr_left fun a ha => by rw [Function.update_of_ne (hne a ha)]
      rw [← List.append_assoc s.pc.inHand, List.map_append, hold, h.split, List.append_assoc]
      simp
    simpa [queue, freed, stores_queue, stores_freed] using hq
  · have hq := h.nodup.concat hfresh
    simpa [queue, stores_queue, List.concat_eq_append] using hq
  · intro _ hs
    cases hs
  · have hfin := noLateWrite_cons (o := wrote head) (noLateWrite_cons (o := queued head func)
      h.clean (by simp)) fun a f ha hm => by
        cases ha
        simp only [List.mem_cons, reduceCtorEq, false_or] at hm
        exact hcalled f hm
    intro a f
    cases htl : s.tail with
    | hdr => exact hfin a f
    | next z =>
      refine noLateWrite_cons hfin (fun b g hb hm => ?_) a f
      cases hb
      have hz : z ∈ l := by
        have he := (h.tail_eq ht).symm.trans htl
        unfold Links.endOf at he
        split at he
        · cases he
        · next hlast => cases he; exact List.mem_of_getLast? hlast
      simp only [List.mem_cons, reduceCtorEq, false_or] at hm
      exact h.notMem_freed (List.mem_append_right _ hz) g hm

theorem Inv.step {s t : RcuSys} {l : List Ptr} (h : s.Inv l) {e : RcuStep} (hg : s.Settled e)
    (hs : step s e = some t) : ∃ l', t.Inv l' := by
  cases e with
  | append head func =>
    simp only [RcuSys.step] at hs
    split_ifs at hs with hfresh
    cases hs
    exact ⟨_, h.append func hfresh hg⟩
  | setBit =>
    simp only [RcuSys.step] at hs
    split_ifs at hs
    cases hs
    exact ⟨l, h.lists, h.split, h.nodup, fun hf => by simp at hf, h.clean⟩
  | test =>
    simp only [RcuSys.step] at hs
    split at hs
    · next hpc =>
      cases hs
      refine ⟨l, h.lists, ?_, h.nodup, h.flagged, h.clean⟩
      have hsp := h.split
      rw [hpc] at hsp
      show s.queue = s.freed ++ ((if s.flag = true then RcuPc.tested else .idle).inHand ++ l).map _
      split_ifs <;> exact hsp
    · cases hs
  | pop =>
    simp only [RcuSys.step] at hs
    split at hs
    · next a hpc ha =>
      cases hs
      obtain ⟨r, rfl, hr⟩ := h.lists.pop ha
      refine ⟨r, hr, ?_, h.nodup, fun hf hn => ?_, h.clean⟩
      · have hsp := h.split
        rw [hpc] at hsp
        exact hsp
      · rw [h.flagged hf hn] at ha
        cases ha
    · next hpc _ =>
      cases hs
      have hsp := h.split
      rw [hpc] at hsp
      exact ⟨l, h.lists, hsp, h.nodup, h.flagged, h.clean⟩
    · cases hs
  | call =>
    simp only [RcuSys.step] at hs
    split at hs
    · next a hpc =>
      cases hs
      refine ⟨l, h.lists, ?_, h.nodup, h.flagged, noLateWrite_cons h.clean (by simp)⟩
      have hsp := h.split
      rw [hpc] at hsp
      simpa [queue, freed, queuedOf, calledOf, RcuPc.inHand, List.filterMap_cons] using hsp
    · cases hs
  | resetTail =>
    simp only [RcuSys.step] at hs
    split at hs
    · next hpc =>
      cases hs
      have hsp := h.split
      rw [hpc] at hsp
      exact ⟨l, h.lists, hsp, h.nodup, h.flagged, h.clean⟩
    · cases hs
  | clearBit =>
    simp only [RcuSys.step] at hs
    split at hs
    · next hpc =>
      cases hs
      have hsp := h.split
      rw [hpc] at hsp
      exact ⟨l, h.lists, hsp, h.nodup, fun _ hn => hg.resolve_right (absurd hn), h.clean⟩
    · cases hs

private theorem init_inv : init.Inv [] :=
  ⟨.nil, rfl, List.nodup_nil, fun _ _ => rfl, fun a f h => by simp [init] at h⟩

/-- Runs that append at the end of the list and leave no head behind a clear flag call every
head's function once, in queue order, and touch no head afterwards. -/
theorem freed_of_settled (s : RcuSys) (h : Lib.Reach step Settled init s) :
    s.InOrder ∧ s.Drained ∧ s.NoLateWrite := by
  obtain ⟨l, hi⟩ := h.invariant (I := fun s => ∃ l, s.Inv l) ⟨[], init_inv⟩
    fun s e t ⟨l, hi⟩ hg hs => hi.step hg hs
  refine ⟨⟨⟨_, hi.split.symm⟩, hi.nodup⟩, fun hpc hf hn => ?_, hi.clean⟩
  have hl : l = [] := by
    have := hi.lists.hdr_eq
    rw [hi.flagged hf hn] at this
    exact List.head?_eq_none_iff.mp this.symm
  have hsp := hi.split
  rw [hpc, hl] at hsp
  simpa [RcuPc.inHand] using hsp.symm

/-- Two heads queued before the loop starts, and it runs until the flag is clear. -/
def drainTwo : List RcuStep :=
  [.append 1 7, .append 2 8, .setBit, .setBit, .test, .pop, .call, .test, .pop, .call, .test, .pop,
    .resetTail, .clearBit]

theorem freed_of_settled_drainTwo :
    ∃ s, Lib.Reach step Settled init s ∧ s.freed = [(1, 7), (2, 8)] ∧
      s.InOrder ∧ s.Drained ∧ s.NoLateWrite := by
  obtain ⟨s, hs, hp⟩ := Lib.exists_reach_of_exec step Settled init drainTwo
    (fun s => s.freed == [(1, 7), (2, 8)]) (by decide)
  exact ⟨s, hs, by simpa using hp, freed_of_settled s hs⟩

/-- The second head is queued after the first was unlinked and its function called, before the
loop has reset `rcu_tail`: it is linked behind the freed head. -/
def appendAfterLast : List RcuStep :=
  [.append 1 7, .setBit, .test, .pop, .call, .append 2 8, .setBit, .test, .pop, .resetTail,
    .clearBit]

theorem appendAfterLast_lost :
    ¬ ∀ s, Lib.Reach step Lib.Free init s → s.Drained ∧ s.NoLateWrite := by
  intro h
  obtain ⟨s, hs, hp⟩ := Lib.exists_reach_of_exec step Lib.Free init appendAfterLast
    (fun s => s.pc == .idle && !s.flag && s.setting == 0 && s.freed == [(1, 7)] &&
      s.queue == [(1, 7), (2, 8)]) (by decide)
  simp only [Bool.and_eq_true, beq_iff_eq, Bool.not_eq_true'] at hp
  obtain ⟨⟨⟨⟨hpc, hf⟩, hn⟩, hfr⟩, hq⟩ := hp
  have hd := (h s hs).1 hpc hf hn
  rw [hfr, hq] at hd
  simp at hd

end RcuSys
end Skw
