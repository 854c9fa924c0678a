import Skw.Lib.Machine
import Mathlib.Data.BitVec
import Mathlib.Logic.Function.Basic
import Mathlib.Logic.Nontrivial.Basic

/-! The address registers of the direct transfers, which all calls share. `skw_sdio_dt_write`,
`skw_sdio_writel` and `skw_sdio_readl` set the address with `transfer_mutex` held, and
`skw_sdio_dt_read` sets it before it takes the mutex. Claiming the host makes one step of the four
writes of an address, and one of the transfers of a call. -/
namespace Skw
variable {P : Type*}

/-- `skw_sdio_dt_read`, or one of the calls that lock first. -/
inductive DtKind
  | read
  | locking
deriving DecidableEq

/-- Where a call stands: it has the mutex and no address set yet, the address is set, or it has
taken the mutex after it. -/
inductive DtPhase
  | idle
  | locked (address : BitVec 32)
  | addressed (kind : DtKind) (address : BitVec 32)
  | ready (address : BitVec 32)
deriving DecidableEq

/-- The registers, `transfer_mutex` and the calls; `moved` has, for each call that moved its
octets, its address and what the registers held. -/
structure DtBus (P : Type*) where
  reg : BitVec 32
  mutex : Option P
  phase : P → DtPhase
  moved : List (BitVec 32 × BitVec 32)

/-- The steps of the calls; `left` is what an address that could not be set leaves in the
registers. -/
inductive DtStep (P : Type*)
  | lock (p : P) (address : BitVec 32)
  | set (p : P)
  | setFails (p : P) (left : BitVec 32)
  | move (p : P)
  | readSet (p : P) (address : BitVec 32)
  | readSetFails (p : P) (left : BitVec 32)
  | readLock (p : P)
  | readMove (p : P)

def DtStep.kind : DtStep P → DtKind
  | .lock .. | .set _ | .setFails .. | .move _ => .locking
  | .readSet .. | .readSetFails .. | .readLock _ | .readMove _ => .read

namespace DtBus

def init (reg : BitVec 32) : DtBus P := ⟨reg, none, fun _ => .idle, []⟩

/-- Only the call that has the mutex is under way, and an address that it has set is there. -/
structure Owned (s : DtBus P) : Prop where
  mutex : ∀ p, s.phase p ≠ .idle → s.mutex = some p
  reg : ∀ p k a, s.phase p = .addressed k a → k = .locking ∧ s.reg = a
  ready : ∀ p a, s.phase p ≠ .ready a
  moved : ∀ x ∈ s.moved, x.1 = x.2

theorem owned_init (reg : BitVec 32) : (init reg : DtBus P).Owned where
  mutex p hp := absurd rfl hp
  reg p k a h := by cases h
  ready p a h := by cases h
  moved x hx := by cases hx

variable {s t : DtBus P} {p : P}

/-- Beside a call under way there is no other one. -/
theorem Owned.idle_of_ne (h : s.Owned) (hp : s.phase p ≠ .idle) {q : P} (hq : q ≠ p) :
    s.phase q = .idle := by
  by_contra hne
  have hmp := h.mutex p hp
  have hmq := h.mutex q hne
  rw [hmp] at hmq
  exact hq (Option.some.inj hmq).symm

variable [DecidableEq P]

def setPhase (s : DtBus P) (p : P) (x : DtPhase) : DtBus P :=
  { s with phase := Function.update s.phase p x }

def unlock (s : DtBus P) (p : P) : DtBus P := { s with mutex := none }.setPhase p .idle

def step (s : DtBus P) : DtStep P → Option (DtBus P)
  | .lock p address =>
    match s.phase p, s.mutex with
    | .idle, none => some ({ s with mutex := some p }.setPhase p (.locked address))
    | _, _ => none
  | .set p =>
    match s.phase p with
    | .locked address => some ({ s with reg := address }.setPhase p (.addressed .locking address))
    | _ => none
  | .setFails p left =>
    match s.phase p with
    | .locked _ => some ({ s with reg := left }.unlock p)
    | _ => none
  | .move p =>
    match s.phase p with
    | .addressed .locking address =>
      some ({ s with moved := s.moved ++ [(address, s.reg)] }.unlock p)
    | _ => none
  | .readSet p address =>
    match s.phase p with
    | .idle => some ({ s with reg := address }.setPhase p (.addressed .read address))
    | _ => none
  | .readSetFails p left =>
    match s.phase p with
    | .idle => some { s with reg := left }
    | _ => none
  | .readLock p =>
    match s.phase p, s.mutex with
    | .addressed .read address, none =>
      some ({ s with mutex := some p }.setPhase p (.ready address))
    | _, _ => none
  | .readMove p =>
    match s.phase p with
    | .ready address => some ({ s with moved := s.moved ++ [(address, s.reg)] }.unlock p)
    | _ => none

/-- The last step of a call, whatever it leaves in the registers. -/
theorem Owned.unlock (h : s.Owned) (hp : s.phase p ≠ .idle) (reg : BitVec 32)
    {moved : List (BitVec 32 × BitVec 32)} (hm : ∀ x ∈ moved, x.1 = x.2) :
    ({ s with reg, moved }.unlock p).Owned := by
  have hidle : ∀ q, ({ s with reg, moved }.unlock p).phase q = .idle := by
    intro q
    by_cases hq : q = p
    · subst hq
      exact Function.update_self ..
    · exact (Function.update_of_ne hq ..).trans (h.idle_of_ne hp hq)
  refine ⟨fun q hq => absurd (hidle q) hq, ?_, ?_, hm⟩
  · intro q k a hq
    rw [hidle q] at hq
    cases hq
  · intro q a hq
    rw [hidle q] at hq
    cases hq

/-- A call that has the mutex goes on alone. -/
theorem owned_setPhase (hm : s.mutex = some p) (hothers : ∀ q, q ≠ p → s.phase q = .idle)
    (hmoved : ∀ x ∈ s.moved, x.1 = x.2) {x : DtPhase}
    (hreg : ∀ k a, x = .addressed k a → k = .locking ∧ s.reg = a) (hready : ∀ a, x ≠ .ready a) :
    (s.setPhase p x).Owned := by
  have hself : (s.setPhase p x).phase p = x := Function.update_self ..
  have hother : ∀ q, q ≠ p → (s.setPhase p x).phase q = .idle := fun q hq =>
    (Function.update_of_ne hq ..).trans (hothers q hq)
  refine ⟨?_, ?_, ?_, hmoved⟩
  · intro q hq
    by_cases hqp : q = p
    · rw [hqp]
      exact hm
    · exact absurd (hother q hqp) hq
  · intro q k a hq
    by_cases hqp : q = p
    · rw [hqp, hself] at hq
      exact hreg k a hq
    · rw [hother q hqp] at hq
      cases hq
  · intro q a hq
    by_cases hqp : q = p
    · rw [hqp, hself] at hq
      exact hready a hq
    · rw [hother q hqp] at hq
      cases hq

/-- A step of a call that locks first. -/
theorem Owned.step (h : s.Owned) {e : DtStep P} (he : e.kind ≠ .read) (ht : s.step e = some t) :
    t.Owned := by
  cases e with
  | lock p address =>
    simp only [DtBus.step] at ht
    split at ht
    · next hidle hnone =>
      cases ht
      have hothers : ∀ q, s.phase q = .idle := by
        intro q
        by_contra hq
        have := h.mutex q hq
        rw [hnone] at this
        cases this
      refine owned_setPhase (s := { s with mutex := some p }) rfl (fun q _ => hothers q) h.moved
        (fun k a hka => ?_) fun a ha => ?_
      · cases hka
      · cases ha
    · cases ht
  | set p =>
    simp only [DtBus.step] at ht
    split at ht
    · next address hp =>
      cases ht
      have hne : s.phase p ≠ .idle := by
        rw [hp]
        exact DtPhase.noConfusion
      refine owned_setPhase (s := { s with reg := address }) (h.mutex p hne)
        (fun q hq => h.idle_of_ne hne hq) h.moved (fun k a hka => ?_) fun a ha => ?_
      · cases hka
        exact ⟨rfl, rfl⟩
      · cases ha
    · cases ht
  | setFails p left =>
    simp only [DtBus.step] at ht
    split at ht
    · next address hp =>
      cases ht
      exact h.unlock (by rw [hp]; exact DtPhase.noConfusion) left h.moved
    · cases ht
  | move p =>
    simp only [DtBus.step] at ht
    split at ht
    · next address hp =>
      cases ht
      refine h.unlock (by rw [hp]; exact DtPhase.noConfusion) s.reg ?_
      intro x hx
      rcases List.mem_append.mp hx with hx | hx
      · exact h.moved x hx
      · rw [List.mem_singleton.mp hx]
        exact (h.reg p _ address hp).2.symm
    · cases ht
  | readSet p address => exact absurd rfl he
  | readSetFails p left => exact absurd rfl he
  | readLock p => exact absurd rfl he
  | readMove p => exact absurd rfl he

/-- A read that finds the registers with the address of another one. -/
def overtaken (p q : P) : List (DtStep P) :=
  [.readSet p 0, .readSet q 1, .readLock p, .readMove p]

theorem exec_overtaken {p q : P} (h : p ≠ q) (reg : BitVec 32) :
    (Lib.exec step (init reg) (overtaken p q)).map moved = some [(0, 1)] := by
  simp [overtaken, Lib.exec, step, init, setPhase, unlock, Function.update_of_ne h,
    Function.update_of_ne h.symm]

/-- Whatever calls there are and however they interleave, each of them moves its octets at its own
address, exactly when `skw_sdio_dt_read` is not among them. -/
theorem moved_own_iff [Nontrivial P] (allowed : DtKind → Prop) (reg : BitVec 32) :
    (∀ s : DtBus P, Lib.Reach step (fun _ e => allowed e.kind) (init reg) s →
      ∀ x ∈ s.moved, x.1 = x.2) ↔ ¬allowed .read := by
  constructor
  · intro h hread
    obtain ⟨p, q, hpq⟩ := exists_pair_ne P
    obtain ⟨t, ht, hmoved⟩ := Option.map_eq_some_iff.mp (exec_overtaken hpq reg)
    have hall : ∀ e ∈ overtaken p q, allowed e.kind := by
      intro e he
      have hkind : e.kind = .read := by
        simp only [overtaken, List.mem_cons, List.not_mem_nil, or_false] at he
        rcases he with rfl | rfl | rfl | rfl <;> rfl
      rw [hkind]
      exact hread
    have hown := h t (Lib.Reach.of_exec_forall (fun _ => hall) ht) (0, 1) (by simp [hmoved])
    cases hown
  · intro hread s hs
    refine (hs.invariant (I := Owned) (owned_init reg) ?_).moved
    intro s e t hi hg ht
    refine hi.step ?_ ht
    intro he
    exact hread (he ▸ hg)

/-- Two calls of `skw_sdio_dt_read` are enough to fail. -/
theorem moved_own_iff_read : ¬∀ s : DtBus Bool,
    Lib.Reach step (fun _ e => e.kind = .read) (init 0) s → ∀ x ∈ s.moved, x.1 = x.2 :=
  fun h => (moved_own_iff (· = .read) 0).mp h rfl

end DtBus
end Skw
