import Skw.Rx.Reorder

/-! What no operation of a session changes. Reordering writes a session through few functions, and
a property that these keep is kept by all of it. -/
namespace Skw
namespace Rx

section
variable {x : Rx} {c : Bool}

@[simp] theorem delTimerIf_tid : (x.delTimerIf c).tid = x.tid := by
  cases c <;> rfl

@[simp] theorem delTimerIf_pos : (x.delTimerIf c).pos = x.pos := by
  cases c <;> rfl

@[simp] theorem delTimerIf_released : (x.delTimerIf c).released = x.released := by
  cases c <;> rfl

end

/-- A property that the functions which write to a session keep. The timer is set and deleted; the
todo node is linked only where it is not active. -/
structure Stable (P : Rx → Prop) : Prop where
  setWinStart : ∀ x w, P x → P (x.setWinStart w)
  setStoredNum : ∀ x n, P x → P (x.setStoredNum n)
  setSlot : ∀ x i l, P x → P (x.setSlot i l)
  release : ∀ x l, P x → P (x.release l)
  free : ∀ x l, P x → P (x.free l)
  setTimer : ∀ x timer expired, P x → P { x with reorder := { x.reorder with timer, expired } }
  linkTodo : ∀ x sn r, x.reorder.todo.actived = false → P x → P (x.linkTodo sn r)
  setPeer : ∀ x p q, x.peer = some q → P x → P { x with peer := some p }

/-- A property that the functions keep which take frames out of the slots and put none there. A
slot is released where its first frame is not tainted. -/
structure Taking (P : Rx → Prop) : Prop where
  setWinStart : ∀ x w, P x → P (x.setWinStart w)
  setStoredNum : ∀ x n, P x → P (x.setStoredNum n)
  purgeSlot : ∀ x i, P x → P (x.purgeSlot i)
  releaseSlot : ∀ x i skb l, x.tid.reorderBuf i = skb :: l → skb.cb.taint = false → P x →
    P (x.releaseSlot i)
  setTimer : ∀ x timer expired, P x → P { x with reorder := { x.reorder with timer, expired } }
  linkTodo : ∀ x sn r, x.reorder.todo.actived = false → P x → P (x.linkTodo sn r)

namespace Taking
variable {P : Rx → Prop} {x : Rx}

theorem delTimer (hP : Taking P) (h : P x) : P x.delTimer :=
  hP.setTimer x none x.reorder.expired h

theorem delTimerIf (hP : Taking P) (h : P x) (c : Bool) : P (x.delTimerIf c) := by
  cases c with
  | false => exact h
  | true => exact hP.delTimer h

theorem setReorderTimer (hP : Taking P) (h : P x) (sn : ℕ) : P (x.setReorderTimer sn) := by
  unfold Rx.setReorderTimer
  split
  · exact h
  · split
    · exact h
    · dsimp only
      split_ifs with _ ha
      · exact hP.setTimer _ _ _ h
      · exact h
      · exact hP.linkTodo _ _ _ (Bool.eq_false_of_not_eq_true ha) h

theorem forceSlot (hP : Taking P) (h : P x) : P x.forceSlot := by
  unfold Rx.forceSlot
  apply hP.setWinStart
  split
  · exact h
  · next hs =>
    apply hP.setStoredNum
    split
    · exact hP.purgeSlot _ _ h
    · next ht => exact hP.releaseSlot _ _ _ _ hs (Bool.eq_false_of_not_eq_true ht) h

theorem forceLoop (hP : Taking P) (h : P x) (toSn target fuel : ℕ) :
    P (Rx.forceLoop toSn target fuel x) := by
  induction fuel generalizing x with
  | zero => exact h
  | succ fuel ih =>
    unfold Rx.forceLoop
    split_ifs
    · exact hP.setWinStart _ _ h
    · exact ih (hP.forceSlot h)
    · exact h

theorem forceRelease (hP : Taking P) (h : P x) (toSn : ℕ) : P (x.forceRelease toSn) :=
  hP.forceLoop (hP.delTimerIf h _) _ _ _

theorem releaseLoop (hP : Taking P) (h : P x) (winStart n i : ℕ) (release : Bool) :
    P (Rx.releaseLoop winStart n i release x) := by
  induction n generalizing i release x with
  | zero => exact h
  | succ n ih =>
    unfold Rx.releaseLoop
    dsimp only
    split
    · exact hP.delTimer h
    · split
      · split
        · exact h
        · exact ih h ..
      · next hs =>
        split
        · split
          · exact hP.setReorderTimer h _
          · exact ih (hP.forceRelease h _) ..
        · generalize hy : x.delTimerIf _ = y
          have hy' : P y := hy ▸ hP.delTimerIf h _
          have htid : y.tid = x.tid := hy ▸ delTimerIf_tid
          rw [← htid] at hs ⊢
          split
          · exact ih (hP.purgeSlot _ _ hy') ..
          · next ht =>
            split
            · apply ih
              apply hP.setStoredNum
              apply hP.setWinStart
              exact hP.releaseSlot _ _ _ _ hs (Bool.eq_false_of_not_eq_true ht) hy'
            · split
              · exact hy'
              · exact hP.setReorderTimer hy' _

theorem reorderRelease (hP : Taking P) (h : P x) : P x.reorderRelease := by
  unfold Rx.reorderRelease
  split
  · exact hP.releaseLoop h ..
  · exact h

theorem out (hP : Taking P) (h : P x) (release : Bool) (sn : Option ℕ) : P (x.out release sn) := by
  unfold Rx.out
  split
  · split
    · exact hP.reorderRelease h
    · split
      · exact hP.setReorderTimer h _
      · exact h
  · exact hP.delTimer h

theorem reorderTimeoutFn (hP : Taking P) (h : P x) : P x.reorderTimeoutFn := by
  unfold Rx.reorderTimeoutFn
  split
  · exact h
  · split
    · exact h
    · next ha => exact hP.linkTodo _ _ _ (Bool.eq_false_of_not_eq_true ha) h

/-- The rest of `skw_rx_todo` writes to the todo node only. -/
theorem rxTodo (hP : Taking P)
    (htodo : ∀ x t, P x → P { x with reorder := { x.reorder with todo := t } }) (h : P x) :
    P x.rxTodo := by
  unfold Rx.rxTodo
  apply hP.reorderRelease
  apply htodo
  split
  · exact hP.forceRelease (htodo _ _ h) _
  · exact htodo _ _ h

/-- What is not a frame takes frames out of the slots at most. -/
theorem step {y : Rx} {e : RxEvent} (hP : Taking P)
    (htodo : ∀ x t, P x → P { x with reorder := { x.reorder with todo := t } })
    (htick : ∀ x n, P x → P { x with now := n })
    (hframe : ∀ skb, e = .frame skb → P (x.ampduReorder (x.fresh skb))) (h : P x)
    (hs : x.step e = some y) : P y := by
  cases e with
  | frame skb =>
    cases Option.some.inj hs
    exact hframe skb rfl
  | timeout =>
    simp only [Rx.step] at hs
    split at hs
    · split_ifs at hs
      cases Option.some.inj hs
      exact hP.reorderTimeoutFn (hP.delTimer h)
    · cases hs
  | todo =>
    simp only [Rx.step] at hs
    split_ifs at hs
    cases Option.some.inj hs
    exact hP.rxTodo htodo h
  | tick n =>
    cases Option.some.inj hs
    exact htick x _ h

end Taking

/-- A property that the functions keep which empty a slot, whatever becomes of the frames. -/
structure Clearing (P : Rx → Prop) : Prop where
  setWinStart : ∀ x w, P x → P (x.setWinStart w)
  setStoredNum : ∀ x n, P x → P (x.setStoredNum n)
  clearSlot : ∀ x i, P x → P (x.setSlot i [])
  release : ∀ x l, P x → P (x.release l)
  free : ∀ x l, P x → P (x.free l)
  setTimer : ∀ x timer expired, P x → P { x with reorder := { x.reorder with timer, expired } }
  linkTodo : ∀ x sn r, x.reorder.todo.actived = false → P x → P (x.linkTodo sn r)

theorem Clearing.taking {P : Rx → Prop} (hP : Clearing P) : Taking P where
  setWinStart := hP.setWinStart
  setStoredNum := hP.setStoredNum
  purgeSlot x i h := hP.clearSlot _ i (hP.free x _ h)
  releaseSlot x i _ _ _ _ h := hP.clearSlot _ i (hP.release x _ h)
  setTimer := hP.setTimer
  linkTodo := hP.linkTodo

namespace Stable
variable {P : Rx → Prop} {x : Rx}

theorem clearing (hP : Stable P) : Clearing P where
  setWinStart := hP.setWinStart
  setStoredNum := hP.setStoredNum
  clearSlot x i := hP.setSlot x i []
  release := hP.release
  free := hP.free
  setTimer := hP.setTimer
  linkTodo := hP.linkTodo

theorem taking (hP : Stable P) : Taking P := hP.clearing.taking

theorem releaseSlot (hP : Stable P) (h : P x) (i : ℕ) : P (x.releaseSlot i) :=
  hP.setSlot _ i [] (hP.release x _ h)

theorem purgeSlot (hP : Stable P) (h : P x) (i : ℕ) : P (x.purgeSlot i) :=
  hP.taking.purgeSlot x i h

theorem delTimer (hP : Stable P) (h : P x) : P x.delTimer := hP.taking.delTimer h

theorem delTimerIf (hP : Stable P) (h : P x) (c : Bool) : P (x.delTimerIf c) :=
  hP.taking.delTimerIf h c

theorem forceSlot (hP : Stable P) (h : P x) : P x.forceSlot := hP.taking.forceSlot h

theorem forceRelease (hP : Stable P) (h : P x) (toSn : ℕ) : P (x.forceRelease toSn) :=
  hP.taking.forceRelease h toSn

theorem reorderRelease (hP : Stable P) (h : P x) : P x.reorderRelease := hP.taking.reorderRelease h

theorem out (hP : Stable P) (h : P x) (release : Bool) (sn : Option ℕ) : P (x.out release sn) :=
  hP.taking.out h release sn

theorem inSlot (hP : Stable P) (h : P x) (release : Bool) (skb : Skb) :
    P (x.inSlot release skb) := by
  unfold Rx.inSlot
  dsimp only
  split
  · apply hP.out
    apply hP.setWinStart
    exact hP.delTimerIf (hP.releaseSlot h _) _
  · exact hP.out (hP.setStoredNum _ _ h) _ _

theorem amsduInSlot (hP : Stable P) (h : P x) (release : Bool) (skb : Skb) :
    P (x.amsduInSlot release skb) := by
  unfold Rx.amsduInSlot
  dsimp only
  generalize hy : (if (x.tid.reorderBuf (skb.sn % x.tid.winSize)).isEmpty = true then
    x.setStoredNum (x.tid.storedNum + 1) else x) = y
  have hy : P y := by
    subst hy
    split
    · exact hP.setStoredNum _ _ h
    · exact h
  split
  · exact hP.out (hP.free _ _ hy) _ _
  · have hset := hP.setSlot y (skb.sn % x.tid.winSize)
    split
    · exact hP.out (hset _ hy) _ _
    · split
      · apply hP.out
        apply hP.setWinStart
        exact hP.purgeSlot (hP.setStoredNum _ _ (hset _ hy)) _
      · exact hP.inSlot (hP.setStoredNum _ _ (hset _ hy)) _ _

theorem tidReorder (hP : Stable P) (h : P x) (skb : Skb) : P (x.tidReorder skb) := by
  unfold Rx.tidReorder
  dsimp only
  generalize hy : (if (!ieee80211SnLess skb.sn (u16 (x.tid.winStart + x.tid.winSize))) = true then
    x.forceRelease (ieee80211SnSub skb.sn x.tid.winSize) else x) = y
  have hy : P y := by
    subst hy
    split
    · exact hP.forceRelease h _
    · exact h
  split
  · split
    · exact hP.release _ _ h
    · exact hP.out (hP.free _ _ h) _ _
  · split
    · exact hP.amsduInSlot hy _ _
    · split
      · exact hP.inSlot (hP.setSlot _ _ _ hy) _ _
      · exact hP.out (hP.free _ _ hy) _ _

theorem ampduReorder (hP : Stable P) (h : P x) (skb : Skb) : P (x.ampduReorder skb) := by
  unfold Rx.ampduReorder
  dsimp only
  split
  · exact hP.release _ _ h
  · split
    · exact hP.release _ _ h
    · next q hq =>
      have hp := fun p => hP.setPeer x p q hq h
      split
      · exact hP.free _ _ h
      · split
        · exact hP.release _ _ (hp _)
        · split
          · exact hP.release _ _ (hp _)
          · split
            · exact hP.release _ _ (hp _)
            · exact hP.tidReorder (hp _) _

theorem rxTodo (hP : Stable P)
    (htodo : ∀ x t, P x → P { x with reorder := { x.reorder with todo := t } }) (h : P x) :
    P x.rxTodo := hP.taking.rxTodo htodo h

theorem step {y : Rx} {e : RxEvent} (hP : Stable P)
    (htodo : ∀ x t, P x → P { x with reorder := { x.reorder with todo := t } })
    (htick : ∀ x n, P x → P { x with now := n }) (h : P x) (hs : x.step e = some y) : P y :=
  hP.taking.step htodo htick (fun _ _ => hP.ampduReorder h _) h hs

end Stable

/-- What decides whether a frame reaches the session at all. -/
def env (x : Rx) : Bool × Bool × Bool := (x.reorderFlag, x.live, x.peer.isSome)

theorem stable_env (e : Bool × Bool × Bool) : Stable fun x => x.env = e where
  setWinStart _ _ h := h
  setStoredNum _ _ h := h
  setSlot _ _ _ h := h
  release _ _ h := h
  free _ _ h := h
  setTimer _ _ _ h := h
  linkTodo _ _ _ _ h := h
  setPeer x p q hq h := by
    rw [← h]
    simp [env, hq]

@[simp] theorem env_purgeSlot (x : Rx) (i : ℕ) : (x.purgeSlot i).env = x.env := rfl

@[simp] theorem env_releaseSlot (x : Rx) (i : ℕ) : (x.releaseSlot i).env = x.env := rfl

@[simp] theorem env_delTimerIf (x : Rx) (c : Bool) : (x.delTimerIf c).env = x.env :=
  (stable_env x.env).delTimerIf rfl c

theorem env_forceRelease (x : Rx) (toSn : ℕ) : (x.forceRelease toSn).env = x.env :=
  (stable_env x.env).forceRelease rfl toSn

theorem env_reorderRelease (x : Rx) : x.reorderRelease.env = x.env :=
  (stable_env x.env).reorderRelease rfl

theorem env_ampduReorder (x : Rx) (skb : Skb) : (x.ampduReorder skb).env = x.env :=
  (stable_env x.env).ampduReorder rfl skb

theorem env_rxTodo (x : Rx) : x.rxTodo.env = x.env :=
  (stable_env x.env).rxTodo (fun _ _ h => h) rfl

theorem env_step {x y : Rx} {e : RxEvent} (h : x.step e = some y) : y.env = x.env :=
  (stable_env x.env).step (fun _ _ h => h) (fun _ _ h => h) rfl h

/-- A slot of the session stays as it was, or it is emptied. -/
theorem clearing_slot (x : Rx) (i : ℕ) : Clearing fun y =>
    y.tid.reorderBuf i = x.tid.reorderBuf i ∨ y.tid.reorderBuf i = [] where
  setWinStart _ _ h := h
  setStoredNum _ _ h := h
  clearSlot y j h := by
    rcases eq_or_ne i j with rfl | hne
    · exact .inr (Function.update_self ..)
    · have hsame : (y.setSlot j []).tid.reorderBuf i = y.tid.reorderBuf i :=
        Function.update_of_ne hne ..
      rwa [hsame]
  release _ _ h := h
  free _ _ h := h
  setTimer _ _ _ h := h
  linkTodo _ _ _ _ h := h

end Rx
end Skw
