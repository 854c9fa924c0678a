import Skw.Scan.Request

/-! A request for which `skw_scan` returned 0 is completed once unless it is pending, and a refused
one never, where `skw_scan` clears its own request while no `skw_scan_done` is about to take it. -/
namespace Skw
namespace ScanState

/-- What is promised of the requests in every state. -/
structure CompletedOnce (s : ScanState) : Prop where
  accepted : ∀ i, s.ret i = some 0 → s.passed i = if s.Pending i then 0 else 1
  refused : ∀ i err, s.ret i = some err → err ≠ 0 → s.passed i = 0
  scanned : ∀ c ∈ s.completed, ∃ i, c.req = some i ∧ c.scanned = some i
  alive : s.done ≠ .crashed

/-- The call is between its first test of `scan_req` and taking it. -/
def taking : ScanDone → Bool
  | .tested | .matched | .read _ => true
  | .idle | .locked | .cleared _ | .deleted _ | .crashed => false

/-- Where `skw_scan` clears `scan_req`, it is its own request and not about to be taken. -/
def ClearsOwn (s : ScanState) : Prop :=
  match s.scan with
  | .failed i _ => s.scanReq = some i ∧ taking s.done = false
  | _ => True

instance (s : ScanState) : Decidable s.ClearsOwn := by
  unfold ClearsOwn
  split <;> infer_instance

def Sound (s : ScanState) : ScanEvent → Prop
  | .scanning _ => s.ClearsOwn
  | _ => True

instance (s : ScanState) (e : ScanEvent) : Decidable (s.Sound e) :=
  match e with
  | .scanning _ => inferInstanceAs (Decidable s.ClearsOwn)
  | .scan .. | .timeout .. | .abortScan _ | .call _ | .done => inferInstanceAs (Decidable True)

/-- How often the driver has a request. -/
def places (s : ScanState) (i : ℕ) : ℕ :=
  (if s.scanReq = some i then 1 else 0) + if s.done.taken = some i then 1 else 0

/-- `skw_scan` has stored the request, and not cleared it again or refused it. -/
def Kept (s : ScanState) (i : ℕ) : Prop := s.ret i = some 0 ∨ s.scan.kept = some i

instance (s : ScanState) (i : ℕ) : Decidable (s.Kept i) := inferInstanceAs (Decidable (_ ∨ _))

/-- What `skw_scan_done` knows of `scan_req`. -/
def Knows (req : Option ℕ) : ScanDone → Prop
  | .idle | .locked => True
  | .tested | .matched => req ≠ none
  | .read r => r = req ∧ req ≠ none
  | .cleared r | .deleted r => r ≠ none
  | .crashed => False

structure Inv (s : ScanState) : Prop where
  count : ∀ i, s.passed i + s.places i = if s.Kept i then 1 else 0
  scanned : ∀ i, 0 < s.places i → s.outstanding = some i
  unkept : ∀ i, s.scan.unkept = some i → s.outstanding = some i
  running : ∀ i, s.scan.req = some i → i < s.calls ∧ s.ret i = none
  fresh : ∀ i, s.calls ≤ i → s.ret i = none
  failed : ∀ i err, s.scan = .failed i err ∨ s.scan = .cleared i err → err ≠ 0
  knows : Knows s.scanReq s.done
  completed : ∀ c ∈ s.completed, ∃ i, c.req = some i ∧ c.scanned = some i

variable {s t : ScanState} {i j w : ℕ} {err : ℤ} {c : ScanCaller} {d : ScanDone} {e : ScanEvent}

/-- The request of a call is kept or not. -/
theorem req_of_unkept {c : ScanCall} (h : c.unkept = some i) : c.req = some i ∧ c.kept = none := by
  cases c with
  | idle | stored _ | timed _ | failed _ _ => cases h
  | filled _ | cleared _ _ => exact ⟨h, rfl⟩

theorem kept_returned :
    (s.returned i err).Kept j ↔ Function.update s.ret i (some err) j = some 0 := by
  constructor
  · rintro (hr | hk)
    · exact hr
    · cases hk
  · exact Or.inl

theorem kept_of_scan (hs : s.scan.kept = none) : s.Kept i ↔ s.ret i = some 0 := by
  constructor
  · rintro (hr | hk)
    · exact hr
    · rw [hs] at hk
      cases hk
  · exact Or.inl

theorem Inv.not_kept (h : s.Inv) (hu : s.scan.unkept = some i) : ¬ s.Kept i := by
  obtain ⟨hreq, hkept⟩ := req_of_unkept hu
  rw [kept_of_scan hkept, (h.running i hreq).2]
  simp

/-- While the request of the call is not kept, the driver has none. -/
theorem Inv.vacant (h : s.Inv) (hu : s.scan.unkept = some i) (j : ℕ) : s.places j = 0 := by
  have hi : s.places i = 0 := by
    have hc := h.count i
    rw [if_neg (h.not_kept hu)] at hc
    omega
  by_contra hj
  have hsj := h.scanned j (Nat.pos_of_ne_zero hj)
  rw [h.unkept i hu] at hsj
  cases Option.some.inj hsj
  exact hj hi

theorem Inv.passed_eq_zero (h : s.Inv) (hk : ¬ s.Kept i) : s.passed i = 0 := by
  have hc := h.count i
  rw [if_neg hk] at hc
  omega

theorem scanReq_eq_none (h : ∀ j, s.places j = 0) : s.scanReq = none := by
  cases hr : s.scanReq with
  | none => rfl
  | some i =>
    have hi := h i
    unfold places at hi
    rw [if_pos hr] at hi
    omega

theorem taken_ne (h : ∀ j, s.places j = 0) (j : ℕ) : s.done.taken ≠ some j := by
  intro ht
  have hj := h j
  unfold places at hj
  rw [if_pos ht] at hj
  omega

/-- A call starts for a new request. -/
theorem Inv.fill (h : s.Inv) (hs : s.scan = .idle) (ho : s.outstanding = none) (w : ℕ) :
    Inv { s with
      calls := s.calls + 1
      wdev := Function.update s.wdev s.calls w
      outstanding := some s.calls
      scan := .filled s.calls } where
  count i := by
    have hk : s.Kept i ↔ s.ret i = some 0 := kept_of_scan (by rw [hs]; rfl)
    have hc := h.count i
    rw [if_congr hk rfl rfl] at hc
    rw [if_congr (kept_of_scan rfl) rfl rfl]
    exact hc
  scanned i hp := by
    have hi := h.scanned i hp
    rw [ho] at hi
    cases hi
  unkept i hi := hi
  running i hi := by
    cases Option.some.inj hi
    exact ⟨Nat.lt_succ_self _, h.fresh _ le_rfl⟩
  fresh i hi := h.fresh i (Nat.le_of_succ_le hi)
  failed := by
    rintro i err (hf | hf) <;> cases hf
  knows := h.knows
  completed := h.completed

/-- A call whose request is not kept refuses it. -/
theorem Inv.refuse (h : s.Inv) (hu : s.scan.unkept = some i) (he : err ≠ 0) :
    (s.returned i err).Inv where
  count j := by
    have hc := h.count j
    by_cases hj : j = i
    · subst hj
      rw [if_neg (h.not_kept hu)] at hc
      have hk : ¬ (s.returned j err).Kept j := by
        rw [kept_returned, Function.update_self]
        simp [he]
      rw [if_neg hk]
      exact hc
    · have hk : (s.returned i err).Kept j ↔ s.Kept j := by
        rw [kept_returned, Function.update_of_ne hj, kept_of_scan (req_of_unkept hu).2]
      rw [if_congr hk rfl rfl]
      exact hc
  scanned j hj := by
    have hz := h.vacant hu j
    change 0 < s.places j at hj
    omega
  unkept j hj := by cases hj
  running j hj := by cases hj
  fresh j hj := by
    have hlt := (h.running i (req_of_unkept hu).1).1
    change Function.update s.ret i (some err) j = none
    change s.calls ≤ j at hj
    rw [Function.update_of_ne (by omega)]
    exact h.fresh j hj
  failed := by
    rintro j err (hf | hf) <;> cases hf
  knows := h.knows
  completed := h.completed

/-- The request of a call is stored. -/
theorem Inv.store (h : s.Inv) (hs : s.scan = .filled i) :
    Inv { s with scanReq := some i, scan := .stored i } := by
  have hu : s.scan.unkept = some i := by rw [hs]; rfl
  have hz := h.vacant hu
  have hplaces : ∀ j, places { s with scanReq := some i, scan := .stored i } j =
      if i = j then 1 else 0 := by
    intro j
    unfold places
    rw [if_neg (taken_ne hz j)]
    simp
  constructor
  · intro j
    rw [hplaces]
    by_cases hj : i = j
    · subst hj
      have hp := h.passed_eq_zero (h.not_kept hu)
      have hk : Kept { s with scanReq := some i, scan := .stored i } i := .inr rfl
      rw [if_pos rfl, if_pos hk]
      exact congrArg (· + 1) hp
    · have hc := h.count j
      have hk : Kept { s with scanReq := some i, scan := .stored i } j ↔ s.Kept j := by
        unfold Kept
        rw [hs]
        simp [ScanCall.kept, hj]
      rw [if_neg hj, if_congr hk rfl rfl, ← hc, hz j]
      rfl
  · intro j hj
    rw [hplaces] at hj
    split_ifs at hj with hij
    · subst hij
      exact h.unkept i hu
    · omega
  · intro j hj
    cases hj
  · intro j hj
    apply h.running j
    rw [hs]
    exact hj
  · exact h.fresh
  · rintro j err (hf | hf) <;> cases hf
  · have hn := scanReq_eq_none hz
    have hk := h.knows
    change Knows (some i) s.done
    cases hd : s.done with
    | idle | locked => trivial
    | tested | matched => exact Option.some_ne_none i
    | read r =>
      rw [hd] at hk
      exact absurd hn hk.2
    | cleared r | deleted r | crashed =>
      rw [hd] at hk
      exact hk
  · exact h.completed

/-- The call goes on and keeps its request. -/
theorem Inv.goOn (h : s.Inv) {c : ScanCall} (hk : c.kept = s.scan.kept) (hu : c.unkept = none)
    (hr : c.req = s.scan.req) (hf : ∀ i err, c = .failed i err → err ≠ 0) :
    Inv { s with scan := c } := by
  have hkept : ∀ i, Kept { s with scan := c } i ↔ s.Kept i := by
    intro i
    unfold Kept
    rw [hk]
  refine { h with count := fun i => ?_, unkept := ?_, running := ?_, failed := ?_ }
  · rw [if_congr (hkept i) rfl rfl]
    exact h.count i
  · intro i hi
    rw [hu] at hi
    cases hi
  · intro i hi
    rw [hr] at hi
    exact h.running i hi
  · rintro i err (he | he)
    · exact hf i err he
    · subst he
      cases hu

/-- The command was acknowledged. -/
theorem Inv.accept (h : s.Inv) (hs : s.scan = .timed i) : (s.returned i 0).Inv := by
  have hkept : ∀ j, (s.returned i 0).Kept j ↔ s.Kept j := by
    intro j
    rw [kept_returned]
    by_cases hj : j = i
    · subst hj
      have hk : s.Kept j := .inr (by rw [hs]; rfl)
      rw [Function.update_self]
      simp [hk]
    · rw [Function.update_of_ne hj]
      unfold Kept
      rw [hs]
      simp [ScanCall.kept, Ne.symm hj]
  refine { h with count := fun j => ?_, unkept := ?_, running := ?_, fresh := ?_, failed := ?_ }
  · rw [if_congr (hkept j) rfl rfl]
    exact h.count j
  · intro j hj
    cases hj
  · intro j hj
    cases hj
  · intro j hj
    have hlt := (h.running i (by rw [hs]; rfl)).1
    change Function.update s.ret i (some 0) j = none
    change s.calls ≤ j at hj
    rw [Function.update_of_ne (by omega)]
    exact h.fresh j hj
  · rintro j err (hf | hf) <;> cases hf

/-- The call clears its own request. -/
theorem Inv.clear (h : s.Inv) (hs : s.scan = .failed i err) (hr : s.scanReq = some i)
    (ht : taking s.done = false) : Inv { s with scanReq := none, scan := .cleared i err } := by
  have hkept : ∀ j, Kept { s with scanReq := none, scan := .cleared i err } j ↔
      s.Kept j ∧ j ≠ i := by
    intro j
    rw [kept_of_scan rfl]
    unfold Kept
    rw [hs]
    constructor
    · intro hj
      refine ⟨.inl hj, ?_⟩
      rintro rfl
      have hn := (h.running j (by rw [hs]; rfl)).2
      rw [hn] at hj
      cases hj
    · rintro ⟨hj | hj, hne⟩
      · exact hj
      · exact absurd (Option.some.inj hj).symm hne
  have hplaces : ∀ j, places { s with scanReq := none, scan := .cleared i err } j +
      (if i = j then 1 else 0) = s.places j := by
    intro j
    unfold places
    rw [hr]
    simp [add_comm]
  have hout := h.scanned i (by unfold places; rw [if_pos hr]; omega)
  constructor
  · intro j
    have hc := h.count j
    have hp := hplaces j
    change s.passed j + _ = _
    rw [if_congr (hkept j) rfl rfl]
    by_cases hj : i = j
    · subst hj
      have hk : s.Kept i := .inr (by rw [hs]; rfl)
      rw [if_pos hk] at hc
      rw [if_pos rfl] at hp
      rw [if_neg (by simp)]
      omega
    · rw [if_neg hj] at hp
      rw [if_congr (and_iff_left (Ne.symm hj)) rfl rfl, ← hc]
      omega
  · intro j hj
    have hp := hplaces j
    exact h.scanned j (by omega)
  · intro j hj
    cases Option.some.inj hj
    exact hout
  · intro j hj
    apply h.running j
    rw [hs]
    exact hj
  · exact h.fresh
  · rintro j err' (hf | hf)
    · cases hf
    · cases hf
      exact h.failed i err (.inl hs)
  · have hk := h.knows
    change Knows none s.done
    cases hd : s.done with
    | idle | locked => trivial
    | tested | matched | read _ =>
      rw [hd] at ht
      cases ht
    | cleared r | deleted r | crashed =>
      rw [hd] at hk
      exact hk
  · exact h.completed

/-- `skw_scan_done` goes on and takes nothing. -/
theorem Inv.look (h : s.Inv) (ht : d.taken = s.done.taken) (hk : Knows s.scanReq d) :
    Inv { s with done := d } := by
  have hplaces : ∀ i, places { s with done := d } i = s.places i := by
    intro i
    unfold places
    rw [ht]
  refine { h with count := fun i => ?_, scanned := fun i hi => ?_, knows := hk }
  · rw [hplaces]
    exact h.count i
  · rw [hplaces] at hi
    exact h.scanned i hi

/-- `skw_scan_done` takes the request. -/
theorem Inv.take {req : Option ℕ} (h : s.Inv) (hd : s.done = .read req) :
    Inv { s with scanReq := none, done := .cleared req } := by
  have hk := h.knows
  rw [hd] at hk
  obtain ⟨hreq, hne⟩ := hk
  have hplaces : ∀ i, places { s with scanReq := none, done := .cleared req } i = s.places i := by
    intro i
    unfold places
    rw [hd, hreq]
    exact Nat.add_comm ..
  refine { h with count := fun i => ?_, scanned := fun i hi => ?_, knows := ?_ }
  · rw [hplaces]
    exact h.count i
  · rw [hplaces] at hi
    exact h.scanned i hi
  · change req ≠ none
    rw [hreq]
    exact hne

/-- `skw_scan_done` completes the request it has taken. -/
theorem Inv.complete {req : Option ℕ} (h : s.Inv) (hd : s.done = .deleted req) :
    (s.complete req).Inv := by
  have hk : req ≠ none := by
    have hk := h.knows
    rw [hd] at hk
    exact hk
  obtain ⟨i, rfl⟩ := Option.ne_none_iff_exists'.mp hk
  have hplaces : ∀ j, (s.complete (some i)).places j + (if i = j then 1 else 0) = s.places j := by
    intro j
    unfold places ScanState.complete
    rw [hd]
    simp [ScanDone.taken]
  have hpassed : ∀ j, (s.complete (some i)).passed j =
      s.passed j + if i = j then 1 else 0 := by
    intro j
    unfold passed ScanState.complete
    rw [List.countP_append]
    by_cases hj : i = j <;> simp [hj]
  have hpos : 0 < s.places i := by
    have hp := hplaces i
    rw [if_pos rfl] at hp
    omega
  have hout := h.scanned i hpos
  have hone : s.places i ≤ 1 := by
    have hc := h.count i
    split_ifs at hc <;> omega
  constructor
  · intro j
    have hc := h.count j
    have hp := hplaces j
    have hq := hpassed j
    change _ = if s.Kept j then 1 else 0
    omega
  · intro j hj
    exfalso
    have hp := hplaces j
    have hj' := h.scanned j (by omega)
    rw [hout] at hj'
    cases Option.some.inj hj'
    rw [if_pos rfl] at hp
    omega
  · intro j hj
    exfalso
    have hu := h.vacant hj i
    omega
  · exact h.running
  · exact h.fresh
  · exact h.failed
  · trivial
  · intro c hc
    rcases List.mem_append.mp hc with hc | hc
    · exact h.completed c hc
    · rw [List.mem_singleton.mp hc]
      exact ⟨i, rfl, hout⟩

theorem Inv.scanStep (h : s.Inv) (hg : s.ClearsOwn) (ht : s.scanStep err = some t) : t.Inv := by
  unfold ScanState.scanStep at ht
  cases hs : s.scan with
  | idle =>
    rw [hs] at ht
    cases ht
  | filled i =>
    rw [hs] at ht
    cases Option.some.inj ht
    exact h.store hs
  | stored i =>
    rw [hs] at ht
    cases Option.some.inj ht
    have hi : (ScanCall.timed i).kept = s.scan.kept := by rw [hs]; rfl
    have hr : (ScanCall.timed i).req = s.scan.req := by rw [hs]; rfl
    exact { h.goOn hi rfl hr (by rintro _ _ ⟨⟩) with }
  | timed i =>
    rw [hs] at ht
    cases Option.some.inj ht
    split_ifs with he
    · exact h.accept hs
    · have hi : (ScanCall.failed i err).kept = s.scan.kept := by rw [hs]; rfl
      have hr : (ScanCall.failed i err).req = s.scan.req := by rw [hs]; rfl
      apply h.goOn hi rfl hr
      rintro _ _ ⟨⟩
      exact he
  | failed i err =>
    rw [hs] at ht
    cases Option.some.inj ht
    have hg' : s.scanReq = some i ∧ taking s.done = false := by
      unfold ClearsOwn at hg
      rw [hs] at hg
      exact hg
    exact h.clear hs hg'.1 hg'.2
  | cleared i err =>
    rw [hs] at ht
    cases Option.some.inj ht
    have hd : (s.delTimer (some i)).Inv := { h with }
    have hu : (s.delTimer (some i)).scan.unkept = some i := by
      change s.scan.unkept = some i
      rw [hs]
      rfl
    exact hd.refuse hu (h.failed i err (.inr hs))

theorem Inv.doneStep (h : s.Inv) (ht : s.doneStep = some t) : t.Inv := by
  have hk := h.knows
  unfold ScanState.doneStep at ht
  cases hd : s.done with
  | idle | crashed =>
    rw [hd] at ht
    cases ht
  | locked =>
    rw [hd] at ht
    cases Option.some.inj ht
    have htaken : s.done.taken = none := by rw [hd]; rfl
    split_ifs with hr
    · exact h.look htaken.symm trivial
    · have hne : s.scanReq ≠ none := fun hn => hr (by rw [hn]; rfl)
      exact h.look htaken.symm hne
  | tested =>
    rw [hd] at ht hk
    have htaken : s.done.taken = none := by rw [hd]; rfl
    dsimp only at ht
    split at ht
    · next hr => exact absurd hr hk
    · next i hr =>
      cases Option.some.inj ht
      split_ifs with hw
      · exact h.look htaken.symm trivial
      · exact h.look htaken.symm hk
  | matched =>
    rw [hd] at ht hk
    cases Option.some.inj ht
    exact h.look (by rw [hd]; rfl) ⟨rfl, hk⟩
  | read req =>
    rw [hd] at ht
    cases Option.some.inj ht
    exact h.take hd
  | cleared req =>
    rw [hd] at ht hk
    cases Option.some.inj ht
    have hi : Inv { s with done := .deleted req } := h.look (by rw [hd]; rfl) hk
    exact { hi with }
  | deleted req =>
    rw [hd] at ht
    cases Option.some.inj ht
    exact h.complete hd

theorem Inv.lock (h : s.Inv) (hd : s.done = .idle) (c : ScanCaller) : (s.lock c).Inv := by
  have hi : Inv { s with done := .locked } := h.look (by rw [hd]; rfl) trivial
  exact { hi with }

theorem Inv.call (h : s.Inv) (hd : s.done = .idle)
    (ht : (s.leave c).map (fun u => u.lock c) = some t) :
    t.Inv := by
  obtain ⟨u, hu, rfl⟩ := Option.map_eq_some_iff.mp ht
  have hi : u.Inv ∧ u.done = .idle := by
    cases c with
    | eventScanComplete w | ifaceTeardown w | ndoStop w =>
      cases Option.some.inj hu
      exact ⟨h, hd⟩
    | workTimeout w | abortScan w =>
      unfold leave at hu
      dsimp only at hu
      split_ifs at hu
      cases Option.some.inj hu
      exact ⟨{ h with }, hd⟩
  exact hi.1.lock hi.2 c

theorem Inv.step (h : s.Inv) (hg : s.Sound e) (ht : s.step e = some t) : t.Inv := by
  cases e with
  | scan w alloc =>
    unfold ScanState.step at ht
    dsimp only at ht
    split_ifs at ht with hi
    cases Option.some.inj ht
    have hf := h.fill hi.1 hi.2 w
    unfold startScan
    cases alloc with
    | true => exact hf
    | false => exact hf.refuse rfl (by decide)
  | scanning ret => exact h.scanStep hg ht
  | timeout i queued =>
    unfold ScanState.step at ht
    dsimp only at ht
    split_ifs at ht
    cases Option.some.inj ht
    exact { h with }
  | abortScan w =>
    cases Option.some.inj ht
    unfold ScanState.abortScan
    split_ifs
    · exact h
    · exact { h with }
  | call c =>
    unfold ScanState.step at ht
    dsimp only at ht
    split_ifs at ht with hd
    exact h.call hd ht
  | done => exact h.doneStep ht

theorem inv_init : init.Inv where
  count _ := rfl
  scanned _ hp := absurd hp (lt_irrefl 0)
  unkept _ hi := by cases hi
  running _ hi := by cases hi
  fresh _ _ := rfl
  failed := by rintro i err (hf | hf) <;> cases hf
  knows := trivial
  completed _ hc := by cases hc

/-- The driver has a request once where it has it at all. -/
theorem Inv.places_pos (h : s.Inv) : 0 < s.places i ↔ s.Pending i := by
  have hk := h.knows
  unfold places Pending
  cases hd : s.done with
  | idle | locked | tested | matched | crashed | cleared _ | deleted _ =>
    simp [ScanDone.taken, ScanDone.hand]
    split_ifs <;> simp_all
  | read req =>
    rw [hd] at hk
    rw [hk.1]
    simp [ScanDone.taken, ScanDone.hand]
    split_ifs <;> simp_all

theorem Inv.completedOnce (h : s.Inv) : s.CompletedOnce where
  accepted i hi := by
    have hk : s.Kept i := .inl hi
    have hc := h.count i
    rw [if_pos hk] at hc
    split_ifs with hp
    · have hpos := h.places_pos.mpr hp
      omega
    · have hpos : ¬ 0 < s.places i := fun hq => hp (h.places_pos.mp hq)
      omega
  refused i err hi he := by
    apply h.passed_eq_zero
    rintro (hr | hk)
    · rw [hi] at hr
      exact he (Option.some.inj hr)
    · have hreq : s.scan.req = some i := by
        cases hs : s.scan <;> rw [hs] at hk <;> first | exact hk | cases hk
      rw [(h.running i hreq).2] at hi
      cases hi
  scanned := h.completed
  alive hd := by
    have hk := h.knows
    rw [hd] at hk
    exact hk

/-- The property in every state of every run in which each request that is cleared is the call's
own and not about to be taken. -/
theorem completedOnce_of_sound (s : ScanState) (h : Lib.Reach step Sound init s) :
    s.CompletedOnce := by
  have hi : s.Inv := h.invariant inv_init fun _ _ _ hs hg ht => hs.step hg ht
  exact hi.completedOnce

theorem completedOnce_of_sound_early : ∃ s, Lib.Reach step Sound init s ∧
    (s.ret 0 = some 0 ∧ s.passed 0 = 1 ∧ s.ret 1 = some (- EIO)) ∧ s.CompletedOnce := by
  obtain ⟨s, hs, hp⟩ := Lib.exists_reach_of_exec step Sound init
    [.scan 0 true, .scanning 0, .scanning 0, .call (.eventScanComplete 0), .done, .done, .done,
      .done, .done, .done, .scanning 0, .scan 0 true, .scanning 0, .scanning 0, .scanning (- EIO),
      .scanning 0, .scanning 0]
    (fun s => decide (s.ret 0 = some 0 ∧ s.passed 0 = 1 ∧ s.ret 1 = some (- EIO))) (by decide)
  exact ⟨s, hs, of_decide_eq_true hp, completedOnce_of_sound s hs⟩

/-- The scan is done before the acknowledgement of its command, which is lost: `skw_scan` returns
an error for a request that was completed. -/
theorem lostAck_not_completedOnce :
    ¬ ∀ s, Lib.Reach step Lib.Free init s → s.CompletedOnce := by
  intro h
  obtain ⟨s, hs, hp⟩ := Lib.exists_reach_of_exec step Lib.Free init
    [.scan 0 true, .scanning 0, .scanning 0, .call (.eventScanComplete 0), .done, .done, .done,
      .done, .done, .done, .scanning (-ETIMEDOUT), .scanning 0, .scanning 0]
    (fun s => decide (s.ret 0 = some (-ETIMEDOUT) ∧ s.passed 0 = 1)) (by decide)
  obtain ⟨hret, hpassed⟩ := of_decide_eq_true hp
  have hzero := (h s hs).refused 0 (-ETIMEDOUT) hret (by decide)
  omega

end ScanState
end Skw
