import Mathlib.Logic.Relation

/-! Deterministic event machines, their runs and the invariant rule. A machine is a step
function into `Option`, with `none` for an event that is not enabled; whatever is not
determined by the state is in the event. -/
namespace Lib
variable {σ ε : Type*}

/-- The state after a list of events, `none` when one of them is not enabled. -/
def exec (step : σ → ε → Option σ) : σ → List ε → Option σ
  | s, [] => some s
  | s, e :: es => (step s e).bind fun t => exec step t es

/-- The states reached by runs that take each event where `G` allows it. -/
inductive Reach (step : σ → ε → Option σ) (G : σ → ε → Prop) (s₀ : σ) : σ → Prop
  | init : Reach step G s₀ s₀
  | next {s t : σ} {e : ε} : Reach step G s₀ s → G s e → step s e = some t → Reach step G s₀ t

/-- The guard that allows every event. -/
def Free (_ : σ) (_ : ε) : Prop := True

/-- Every step of the run satisfies `P`, up to the first event that is not enabled. -/
def Along (step : σ → ε → Option σ) (P : σ → ε → σ → Prop) : σ → List ε → Prop
  | _, [] => True
  | s, e :: es => ∀ t, step s e = some t → P s e t ∧ Along step P t es

section
variable {step : σ → ε → Option σ} {G H : σ → ε → Prop} {s₀ s t : σ}

/-- What holds at the start and is kept by every guarded step holds in every reached state. -/
theorem Reach.invariant {I : σ → Prop} (h : Reach step G s₀ s) (h₀ : I s₀)
    (hs : ∀ s e t, I s → G s e → step s e = some t → I t) : I s := by
  induction h with
  | init => exact h₀
  | next _ hg ht ih => exact hs _ _ _ ih hg ht

theorem Reach.mono (h : Reach step G s₀ s) (hgh : ∀ s e, G s e → H s e) :
    Reach step H s₀ s := by
  induction h with
  | init => exact .init
  | next _ hg ht ih => exact .next ih (hgh _ _ hg) ht

theorem Reach.trans (h : Reach step G s₀ s) (h' : Reach step G s t) : Reach step G s₀ t := by
  induction h' with
  | init => exact h
  | next _ hg ht ih => exact .next ih hg ht

/-- The machine that refuses the events its guard does not allow. -/
def guarded (step : σ → ε → Option σ) (G : σ → ε → Prop) [∀ s e, Decidable (G s e)] (s : σ)
    (e : ε) : Option σ :=
  if G s e then step s e else none

theorem exec_append (es fs : List ε) (h : exec step s es = some t) :
    exec step s (es ++ fs) = exec step t fs := by
  induction es generalizing s with
  | nil =>
    cases h
    rfl
  | cons e es ih =>
    obtain ⟨u, hu, ht⟩ := Option.bind_eq_some_iff.mp h
    rw [List.cons_append, exec, hu, Option.bind_some]
    exact ih ht

/-- What every step keeps, a run keeps. -/
theorem exec_invariant {I : σ → Prop} (hI : ∀ s e t, I s → step s e = some t → I t) {es : List ε}
    (hs : I s) (h : exec step s es = some t) : I t := by
  induction es generalizing s with
  | nil =>
    cases h
    exact hs
  | cons e es ih =>
    obtain ⟨u, hu, ht⟩ := Option.bind_eq_some_iff.mp h
    exact ih (hI s e u hs hu) ht

/-- A run goes through exactly when every event is enabled where the ones before it lead. -/
theorem exists_exec_iff {es : List ε} :
    (∃ t, exec step s es = some t) ↔
      ∀ pre e post, es = pre ++ e :: post → ∀ t, exec step s pre = some t →
        (step t e).isSome = true := by
  induction es generalizing s with
  | nil => simp [exec]
  | cons a es ih =>
    constructor
    · rintro ⟨t, ht⟩ pre e post hes u hu
      obtain ⟨v, hv, ht⟩ := Option.bind_eq_some_iff.mp ht
      cases pre with
      | nil =>
        cases hu
        obtain ⟨rfl, rfl⟩ := List.cons.inj hes
        rw [hv, Option.isSome_some]
      | cons b pre =>
        obtain ⟨rfl, rfl⟩ := List.cons.inj hes
        obtain ⟨w, hw, hu⟩ := Option.bind_eq_some_iff.mp hu
        cases hv.symm.trans hw
        exact ih.mp ⟨t, ht⟩ pre e post rfl u hu
    · intro h
      obtain ⟨v, hv⟩ := Option.isSome_iff_exists.mp (h [] a es rfl s rfl)
      have hrest : ∃ t, exec step v es = some t := by
        refine ih.mpr fun pre e post hes u hu => h (a :: pre) e post (congrArg (a :: ·) hes) u ?_
        rw [exec, hv, Option.bind_some]
        exact hu
      obtain ⟨t, ht⟩ := hrest
      exact ⟨t, by rw [exec, hv, Option.bind_some, ht]⟩

/-- A run of the guarded machine reaches its last state under the guard. -/
theorem Reach.of_exec [∀ s e, Decidable (G s e)] {es : List ε}
    (h : exec (guarded step G) s es = some t) : Reach step G s t := by
  induction es generalizing s with
  | nil => cases Option.some.inj h; exact .init
  | cons e es ih =>
    obtain ⟨u, hu, ht⟩ := Option.bind_eq_some_iff.mp h
    unfold guarded at hu
    split at hu
    · next hg => exact (Reach.next .init hg hu).trans (ih ht)
    · cases hu

/-- A run of events that the guard allows wherever they come. -/
theorem Reach.of_exec_forall {es : List ε} (hG : ∀ s, ∀ e ∈ es, G s e)
    (h : exec step s es = some t) : Reach step G s t := by
  induction es generalizing s with
  | nil =>
    cases h
    exact .init
  | cons e es ih =>
    obtain ⟨u, hu, ht⟩ := Option.bind_eq_some_iff.mp h
    have hrest := ih (fun s e he => hG s e (List.mem_cons_of_mem _ he)) ht
    exact (Reach.next .init (hG s e List.mem_cons_self) hu).trans hrest

instance (s : σ) (e : ε) : Decidable (Free s e) := inferInstanceAs (Decidable True)

/-- Executing a run decides a property of the state it reaches. -/
theorem exists_reach_of_exec (step : σ → ε → Option σ) (G : σ → ε → Prop)
    [∀ s e, Decidable (G s e)] (s₀ : σ) (es : List ε) (p : σ → Bool)
    (h : (exec (guarded step G) s₀ es).any p = true) : ∃ t, Reach step G s₀ t ∧ p t = true := by
  obtain ⟨t, ht, hp⟩ := Option.any_eq_true .. |>.mp h
  exact ⟨t, Reach.of_exec ht, hp⟩

end

section
variable {step : σ → ε → Option σ} {P Q : σ → ε → σ → Prop} {s : σ}

/-- A step property holds along the runs along which another one does that keeps an invariant. -/
theorem Along.imp {I : σ → Prop}
    (hI : ∀ s e t, I s → step s e = some t → Q s e t → I t ∧ P s e t) (h : I s) (es : List ε)
    (hq : Along step Q s es) : Along step P s es := by
  induction es generalizing s with
  | nil => trivial
  | cons e es ih =>
    intro t ht
    obtain ⟨hq, ha⟩ := hq t ht
    obtain ⟨hi, hp⟩ := hI s e t h ht hq
    exact ⟨hp, ih hi ha⟩

theorem along_true (step : σ → ε → Option σ) (s : σ) (es : List ε) :
    Along step (fun _ _ _ => True) s es := by
  induction es generalizing s with
  | nil => trivial
  | cons e es ih => exact fun t _ => ⟨trivial, ih t⟩

/-- Running the machine decides a step property of the run. -/
instance decidableAlong [∀ s e t, Decidable (P s e t)] :
    ∀ (s : σ) (es : List ε), Decidable (Along step P s es)
  | _, [] => isTrue trivial
  | s, e :: es =>
    match h : step s e with
    | none => isTrue fun t ht => by
        rw [h] at ht
        cases ht
    | some t =>
      have := decidableAlong t es
      decidable_of_iff (P s e t ∧ Along step P t es)
        ⟨fun ha u hu => by
          rw [h] at hu
          cases hu
          exact ha,
        fun ha => ha t h⟩

/-- What every step does from a state of an invariant that it keeps, it does along every run. -/
theorem Along.of_invariant {I : σ → Prop}
    (hI : ∀ s e t, I s → step s e = some t → I t ∧ P s e t) (h : I s) (es : List ε) :
    Along step P s es :=
  (along_true step s es).imp (fun s e t hi ht _ => hI s e t hi ht) h es

/-- Two step properties agree along every run from a state of an invariant that either one
keeps, when they agree step by step under the invariant. -/
theorem along_iff {I : σ → Prop} (hI : ∀ s e t, I s → step s e = some t → Q s e t → I t)
    (hPQ : ∀ s e t, I s → step s e = some t → (P s e t ↔ Q s e t)) (h : I s) (es : List ε) :
    Along step P s es ↔ Along step Q s es := by
  constructor
  · refine Along.imp (fun s e t hi ht hp => ?_) h es
    have hq := (hPQ s e t hi ht).mp hp
    exact ⟨hI s e t hi ht hq, hq⟩
  · refine Along.imp (fun s e t hi ht hq => ?_) h es
    exact ⟨hI s e t hi ht hq, (hPQ s e t hi ht).mpr hq⟩

end

/-- Every event of a list satisfies `P` at the value that the events before it leave. -/
def Throughout {α : Type*} (after : α → ε → α) (P : α → ε → Prop) : α → List ε → Prop
  | _, [] => True
  | a, e :: es => P a e ∧ Throughout after P (after a e) es

/-- A view of a machine follows the values of a fold along a run, as long as each step does. -/
theorem view_of_exec {α : Type*} {step : σ → ε → Option σ} {view : σ → α} {after : α → ε → α}
    {P : α → ε → Prop}
    (hs : ∀ s e t, P (view s) e → step s e = some t → view t = after (view s) e) {s t : σ}
    {es : List ε} (h : Throughout after P (view s) es) (ht : exec step s es = some t) :
    view t = es.foldl after (view s) := by
  induction es generalizing s with
  | nil =>
    cases ht
    rfl
  | cons e es ih =>
    obtain ⟨u, hu, ht⟩ := Option.bind_eq_some_iff.mp ht
    have hview := hs s e u h.1 hu
    rw [List.foldl_cons, ← hview]
    apply ih _ ht
    rw [hview]
    exact h.2

end Lib
