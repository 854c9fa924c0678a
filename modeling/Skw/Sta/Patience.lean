import Skw.Sta.Watched

/-! How long a supervised connection waits, where the timer and the work are not late. The clock
stays in the lower half of `jiffies`, in which a 64-bit kernel starts it. -/
namespace Skw

section
variable {a b : Jiffies}

/-- In the lower half of the range the comparisons are those of numbers. -/
theorem timeBefore_iff_of_lt (ha : a.toNat < 2 ^ 63) (hb : b.toNat < 2 ^ 63) :
    timeBefore a b = true ↔ a.toNat < b.toNat := by
  unfold timeBefore
  rw [decide_eq_true_eq, BitVec.toInt_eq_toNat_cond, BitVec.toNat_sub]
  split_ifs <;> omega

theorem timeBeforeEq_iff_of_lt (ha : a.toNat < 2 ^ 63) (hb : b.toNat < 2 ^ 63) :
    timeBeforeEq a b = true ↔ a.toNat ≤ b.toNat := by
  unfold timeBeforeEq
  rw [decide_eq_true_eq, BitVec.toInt_eq_toNat_cond, BitVec.toNat_sub]
  split_ifs <;> omega

theorem toNat_add_of_lt (h : a.toNat + b.toNat < 2 ^ 64) : (a + b).toNat = a.toNat + b.toNat := by
  rw [BitVec.toNat_add, Nat.mod_eq_of_lt h]

end

namespace StaCore
variable {m : ℕ → Jiffies} {cfg : StaCfg} {c : ℕ} {s t : StaCore} {e : StaInput}

/-- `jiffies`, as long as it does not wrap. -/
def uptime (s : StaCore) : ℕ := s.boot.toNat + s.clock

theorem jiffies_toNat (h : s.uptime < 2 ^ 64) : s.jiffies.toNat = s.uptime := by
  unfold jiffies
  unfold uptime at h ⊢
  have hc : (BitVec.ofNat 64 s.clock).toNat = s.clock := by
    rw [BitVec.toNat_ofNat]
    omega
  rw [toNat_add_of_lt (by omega), hc]

/-- The time that a connection has from `skw_auth` to its end. -/
def deadline (m : ℕ → Jiffies) : ℕ := (m SKW_AUTH_TIMEOUT).toNat + (m SKW_ASSOC_TIMEOUT).toNat

def stepTime (m : ℕ → Jiffies) : ℕ := (m SKW_STEP_TIMEOUT).toNat

/-- The clock and what is added to it stay in the lower half. -/
def Early (m : ℕ → Jiffies) (s : StaCore) : Prop := s.uptime + deadline m + stepTime m < 2 ^ 63

instance (m : ℕ → Jiffies) (s : StaCore) : Decidable (s.Early m) :=
  inferInstanceAs (Decidable (_ < _))

theorem late_iff (hs : s.Early m) (ha : s.authStart.toNat ≤ s.uptime) :
    s.Late m ↔ s.authStart.toNat + deadline m < s.uptime := by
  unfold Early at hs
  have hj : s.jiffies.toNat = s.uptime := jiffies_toNat (by omega)
  have hd : (s.authStart + m SKW_AUTH_TIMEOUT + m SKW_ASSOC_TIMEOUT).toNat =
      s.authStart.toNat + deadline m := by
    unfold deadline at hs ⊢
    rw [toNat_add_of_lt, toNat_add_of_lt (by omega), Nat.add_assoc]
    rw [toNat_add_of_lt (by omega)]
    omega
  unfold Late timeAfter
  rw [timeBefore_iff_of_lt (by omega) (by omega), hj, hd]

theorem stepOver_iff (hs : s.Early m) (hp : s.stepStart.toNat ≤ s.uptime) :
    s.StepOver m ↔ s.stepStart.toNat + stepTime m < s.uptime := by
  unfold Early at hs
  have hj : s.jiffies.toNat = s.uptime := jiffies_toNat (by omega)
  have hd : (s.stepStart + m SKW_STEP_TIMEOUT).toNat = s.stepStart.toNat + stepTime m := by
    unfold stepTime at hs ⊢
    exact toNat_add_of_lt (by omega)
  unfold StepOver timeAfter
  rw [timeBefore_iff_of_lt (by omega) (by omega), hj, hd]

/-- The timer and the work come before time passes, and no command takes longer than `c`. The
authentication in user space starts no deadline. -/
def Timely (cfg : StaCfg) (c : ℕ) (s : StaCore) (e : StaInput) : Prop :=
  s.Supervised cfg e ∧
    match e with
    | .tick => s.queued = false ∧ ¬ s.Due
    | .auth _ _ _ ticks => ticks ≤ c ∧ (0 < ticks → s.queued = false ∧ ¬ s.Due)
    | .assoc _ _ ticks => ticks ≤ c ∧ (0 < ticks → s.queued = false ∧ ¬ s.Due)
    | .work x => x.deauthTicks ≤ c ∧ x.cmdTicks ≤ c
    | .connectSaeAuth bss _ x => ¬ s.StartsSae cfg.n bss x
    | .externalAuth _ success _ _ _ _ => cfg.smeExternal = true ∨ success = false
    | _ => True

instance (cfg : StaCfg) (c : ℕ) (s : StaCore) : ∀ e : StaInput, Decidable (s.Timely cfg c e)
  | .tick => inferInstanceAs (Decidable (_ ∧ _))
  | .auth .. => inferInstanceAs (Decidable (_ ∧ _))
  | .assoc .. => inferInstanceAs (Decidable (_ ∧ _))
  | .work _ => inferInstanceAs (Decidable (_ ∧ _))
  | .connectSaeAuth .. => inferInstanceAs (Decidable (_ ∧ _))
  | .externalAuth .. => inferInstanceAs (Decidable (_ ∧ _))
  | .timer => inferInstanceAs (Decidable (_ ∧ True))
  | .rxMgmt .. => inferInstanceAs (Decidable (_ ∧ True))
  | .staLeave .. => inferInstanceAs (Decidable (_ ∧ True))
  | .changeStation .. => inferInstanceAs (Decidable (_ ∧ True))

/-- The end of the attempt that the work enforces. -/
def attemptEnd (m : ℕ → Jiffies) (s : StaCore) : ℕ :=
  max (s.authStart.toNat + deadline m) s.ctxStart.toNat

/-- What a timely run keeps: how far the timer is away, and by when it or the work that it has
queued ends the wait. -/
structure Patient (m : ℕ → Jiffies) (c : ℕ) (s : StaCore) : Prop where
  watched : s.Watched
  pending : ∀ e, s.timer = some e →
    s.uptime ≤ e.toNat + 2 * c ∧ e.toNat ≤ s.uptime + stepTime m ∧
      (s.queued = true → s.uptime ≤ e.toNat)
  authStart : s.authStart.toNat ≤ s.ctxStart.toNat
  ctxStart : s.ctxStart.toNat ≤ s.uptime
  authed : s.sta.state = .authed → s.rtyState ≠ .assoc ∧ s.stepStart.toNat ≤ s.uptime ∧
    (s.queued = true → s.uptime ≤ s.stepStart.toNat + 2 * stepTime m + 3 * c) ∧
    ∀ e, s.timer = some e → e.toNat ≤ s.stepStart.toNat + 2 * stepTime m + c
  asking : s.Asking ∨ s.rtyState = .assoc →
    (s.queued = true → s.uptime ≤ s.attemptEnd m + stepTime m + 4 * c) ∧
    ∀ e, s.timer = some e → e.toNat ≤ s.attemptEnd m + stepTime m + 2 * c

theorem due_iff (hs : s.Early m) (hp : s.Patient m c) {e : Jiffies} (he : s.timer = some e) :
    s.Due ↔ e.toNat ≤ s.uptime := by
  unfold Early at hs
  have hj : s.jiffies.toNat = s.uptime := jiffies_toNat (by omega)
  have hle := (hp.pending e he).2.1
  unfold Due
  rw [he, Option.any_some, timeBeforeEq_iff_of_lt (by omega) (by omega), hj]

theorem setStaTimer_timer (hs : s.Early m) {e : Jiffies} (he : (s.setStaTimer m).timer = some e) :
    s.timer = some e ∨ e.toNat = s.uptime + stepTime m := by
  unfold Early at hs
  unfold setStaTimer at he
  split_ifs at he with h
  · exact .inl he
  · right
    have hj : s.jiffies.toNat = s.uptime := jiffies_toNat (by omega)
    rw [← Option.some.inj he, toNat_add_of_lt, hj]
    · rfl
    · unfold stepTime at hs
      omega

/-- Time may pass up to `k` ticks where the timer is not due. -/
theorem Patient.pass (hs : s.Early m) (hp : s.Patient m c) {k : ℕ} (hk : k ≤ 2 * c ∨ k = 1)
    (hd : 0 < k → s.queued = false ∧ ¬ s.Due) : (s.pass k).Patient m c := by
  rcases Nat.eq_zero_or_pos k with rfl | hpos
  · exact hp
  obtain ⟨hq, hdue⟩ := hd hpos
  have hup : (s.pass k).uptime = s.uptime + k := (Nat.add_assoc ..).symm
  have hnq : (s.pass k).queued ≠ true := by
    change s.queued ≠ true
    rw [hq]
    exact Bool.false_ne_true
  have hnd : ∀ e, s.timer = some e → s.uptime < e.toNat := fun e he => by
    have := (due_iff hs hp he).not.mp hdue
    omega
  refine ⟨hp.watched, fun e he => ?_, hp.authStart, ?_, fun ha => ?_, fun ha => ?_⟩
  · have := hnd e he
    obtain ⟨_, h, _⟩ := hp.pending e he
    rw [hup]
    exact ⟨by omega, by omega, fun h => absurd h hnq⟩
  · rw [hup]
    exact hp.ctxStart.trans (Nat.le_add_right ..)
  · obtain ⟨h₁, h₂, _, h₄⟩ := hp.authed ha
    refine ⟨h₁, ?_, fun h => absurd h hnq, h₄⟩
    rw [hup]
    exact h₂.trans (Nat.le_add_right ..)
  · exact ⟨fun h => absurd h hnq, (hp.asking ha).2⟩

theorem Passive.patient (h : s.Passive t) (hp : s.Patient m c) : t.Patient m c := by
  have hw := h.watched hp.watched
  obtain ⟨a, l, rfl, ha⟩ := h
  refine ⟨hw, hp.pending, hp.authStart, hp.ctxStart, fun hst => ?_, fun hask => ?_⟩
  · have hs : s.sta.state = .authed := by
      rcases ha with ha | ha
      · exact ha.symm.trans hst
      · exact absurd (.inr (.inl hst)) ha
    exact hp.authed hs
  · have hs : s.Asking ∨ s.rtyState = .assoc := by
      refine hask.imp_left fun h => ?_
      rcases ha with ha | ha
      · exact h.imp (ha.symm.trans ·) (ha.symm.trans ·)
      · exact absurd (Asking.waiting (s := { s with sta := a }) h) ha
    exact hp.asking hs

/-- A state in which nothing waits and the timer is off. -/
theorem patient_of_off (hst : s.sta.state = .none) (ht : s.timer = none)
    (ha : s.authStart.toNat ≤ s.ctxStart.toNat) (hc : s.ctxStart.toNat ≤ s.uptime)
    (hq : s.rtyState = .assoc → s.queued = true →
      s.uptime ≤ s.attemptEnd m + stepTime m + 4 * c) : s.Patient m c := by
  refine ⟨watched_of_not_waiting (Sta.not_waiting_of_none hst), ?_, ha, hc, ?_, ?_⟩
  · simp [ht]
  · simp [hst]
  · rintro (h | h)
    · simp [Asking, hst] at h
    · exact ⟨hq h, by simp [ht]⟩

theorem Left.patient (h : Left s t) (hp : s.Patient m c) : t.Patient m c := by
  obtain ⟨a, l, rfl, ha⟩ := h
  exact patient_of_off ha rfl hp.authStart hp.ctxStart fun hr => (hp.asking (.inr hr)).1

/-- The timer is set where the wait may still last for a step. -/
theorem patient_of_armed (hs : s.Early m)
    (hpend : ∀ e, s.timer = some e →
      s.uptime ≤ e.toNat + 2 * c ∧ e.toNat ≤ s.uptime + stepTime m ∧
        (s.queued = true → s.uptime ≤ e.toNat))
    (ha : s.authStart.toNat ≤ s.ctxStart.toNat) (hc : s.ctxStart.toNat ≤ s.uptime)
    (hauthed : s.sta.state = .authed → s.rtyState ≠ .assoc ∧ s.stepStart.toNat ≤ s.uptime ∧
      s.uptime ≤ s.stepStart.toNat + stepTime m + c ∧
      ∀ e, s.timer = some e → e.toNat ≤ s.stepStart.toNat + 2 * stepTime m + c)
    (hask : s.Asking ∨ s.rtyState = .assoc → s.uptime ≤ s.attemptEnd m + 2 * c ∧
      ∀ e, s.timer = some e → e.toNat ≤ s.attemptEnd m + stepTime m + 2 * c) :
    (s.setStaTimer m).Patient m c := by
  have halive := setStaTimer_alive m s
  have htimer : ∀ e, (s.setStaTimer m).timer = some e →
      s.timer = some e ∨ e.toNat = s.uptime + stepTime m := fun e => setStaTimer_timer hs
  rw [setStaTimer_eq] at halive ⊢
  generalize (s.setStaTimer m).timer = x at halive htimer ⊢
  refine ⟨watched_of_alive halive, fun e he => ?_, ha, hc, fun hst => ?_, fun h => ?_⟩
  · change s.uptime ≤ _ ∧ _ ≤ s.uptime + _ ∧ (_ → s.uptime ≤ _)
    rcases htimer e he with h | h
    · exact hpend e h
    · omega
  · obtain ⟨h₁, h₂, h₃, h₄⟩ := hauthed hst
    refine ⟨h₁, h₂, fun _ => ?_, fun e he => ?_⟩
    · change s.uptime ≤ s.stepStart.toNat + _ + _
      omega
    · change e.toNat ≤ s.stepStart.toNat + _ + _
      rcases htimer e he with h | h
      · exact h₄ e h
      · omega
  · obtain ⟨h₁, h₂⟩ := hask h
    refine ⟨fun _ => ?_, fun e he => ?_⟩
    · change s.uptime ≤ s.attemptEnd m + _ + _
      omega
    · change e.toNat ≤ s.attemptEnd m + _ + _
      rcases htimer e he with h | h
      · exact h₂ e h
      · omega

theorem early_of_pass {k : ℕ} (h : (s.pass k).Early m) : s.Early m := by
  have hup : (s.pass k).uptime = s.uptime + k := (Nat.add_assoc ..).symm
  unfold Early at h ⊢
  omega

theorem AuthSent.patient {o : Bool} {k : ℕ} (h : AuthSent m o k s t) (hp : s.Patient m c)
    (ht : (s.pass k).Early m) (hk : k ≤ c) (hd : 0 < k → s.queued = false ∧ ¬ s.Due) :
    t.Patient m c := by
  have hs : s.Early m := early_of_pass ht
  have hj : s.jiffies.toNat = s.uptime := by
    unfold Early at hs
    exact jiffies_toNat (by omega)
  have hpend := (hp.pass hs (.inl (by omega)) hd).pending
  have hup : (s.pass k).uptime = s.uptime + k := (Nat.add_assoc ..).symm
  have hcs : s.jiffies.toNat ≤ (s.pass k).uptime := by omega
  rcases h with ⟨a, ha, rfl⟩ | ⟨a, _, rfl⟩
  · refine ⟨watched_of_not_waiting (Sta.not_waiting_of_none ha), hpend, le_refl _, hcs, ?_, ?_⟩
    · intro hst
      cases ha.symm.trans hst
    · rintro ((h | h) | h)
      · cases ha.symm.trans h
      · cases ha.symm.trans h
      · cases h
  · refine patient_of_armed ht hpend (le_refl _) hcs (fun _ => ?_) (fun _ => ?_)
    · change StaRetry.none ≠ .assoc ∧ s.jiffies.toNat ≤ (s.pass k).uptime ∧
        (s.pass k).uptime ≤ s.jiffies.toNat + stepTime m + c ∧
        ∀ e, s.timer = some e → e.toNat ≤ s.jiffies.toNat + 2 * stepTime m + c
      refine ⟨nofun, hcs, by omega, fun e he => ?_⟩
      have := (hp.pending e he).2.1
      omega
    · have hend : s.uptime + deadline m ≤
          attemptEnd m (({ s with sta := a }.startAuth m o).pass k) := by
        rw [← hj]
        exact le_max_left ..
      change (s.pass k).uptime ≤ _ ∧ ∀ e, s.timer = some e → _
      refine ⟨by omega, fun e he => ?_⟩
      have := (hp.pending e he).2.1
      omega

theorem AssocSent.patient {k : ℕ} (h : AssocSent m k s t) (hp : s.Patient m c)
    (ht : (s.pass k).Early m) (hk : k ≤ c) (hd : 0 < k → s.queued = false ∧ ¬ s.Due) :
    t.Patient m c := by
  have hs : s.Early m := early_of_pass ht
  have hj : s.jiffies.toNat = s.uptime := by
    unfold Early at hs
    exact jiffies_toNat (by omega)
  have hpend := (hp.pass hs (.inl (by omega)) hd).pending
  have hup : (s.pass k).uptime = s.uptime + k := (Nat.add_assoc ..).symm
  have hcs : s.jiffies.toNat ≤ (s.pass k).uptime := by omega
  have has : s.authStart.toNat ≤ s.jiffies.toNat := by
    rw [hj]
    exact hp.authStart.trans hp.ctxStart
  rcases h with ⟨a, ha, rfl⟩ | ⟨a, ha, rfl⟩
  · refine patient_of_off ha rfl has hcs fun _ _ => ?_
    have hend : s.uptime ≤
        attemptEnd m { ({ s with sta := a }.startAssoc m).pass k with timer := none } := by
      rw [← hj]
      exact le_max_right ..
    change (s.pass k).uptime ≤ _
    omega
  · refine patient_of_armed ht hpend has hcs (fun hst => ?_) (fun _ => ?_)
    · cases ha.symm.trans hst
    · have hend : s.uptime ≤ attemptEnd m (({ s with sta := a }.startAssoc m).pass k) := by
        rw [← hj]
        exact le_max_right ..
      change (s.pass k).uptime ≤ _ ∧ ∀ e, s.timer = some e → _
      refine ⟨by omega, fun e he => ?_⟩
      have := (hp.pending e he).2.1
      omega

theorem RxAuth.patient {f : StaFrame} (h : RxAuth f s t) (hp : s.Patient m c) (hs : s.Early m)
    (hsup : if authOk f.statusCode then s.Alive else s.rtyState = .assoc → s.queued = true) :
    t.Patient m c := by
  have hw := h.watched_iff.mpr hsup
  have hj : s.jiffies.toNat = s.uptime := by
    unfold Early at hs
    exact jiffies_toNat (by omega)
  obtain ⟨a, l, rfl, ha⟩ := h
  have htimer : ∀ e, (if authOk f.statusCode then s.timer else none) = some e →
      s.timer = some e := by
    intro e he
    split_ifs at he
    exact he
  refine ⟨hw, fun e he => hp.pending e (htimer e he), hp.authStart, hp.ctxStart, ?_, ?_⟩
  · intro hst
    have hr : s.rtyState ≠ .assoc := by
      intro hr
      rw [if_pos hr] at ha
      cases ha.symm.trans hst
    change s.rtyState ≠ .assoc ∧ s.jiffies.toNat ≤ s.uptime ∧
      (_ → s.uptime ≤ s.jiffies.toNat + _ + _) ∧
      ∀ e : Jiffies, _ → e.toNat ≤ s.jiffies.toNat + _ + _
    refine ⟨hr, hj.le, fun _ => by omega, fun e he => ?_⟩
    have := (hp.pending e (htimer e he)).2.1
    omega
  · intro h
    have hr : s.rtyState = .assoc := by
      refine h.elim (fun h => ?_) id
      by_contra hr
      rw [if_neg hr] at ha
      unfold Asking at h
      dsimp only at h
      rw [ha] at h
      split_ifs at h <;> simp at h
    obtain ⟨h₁, h₂⟩ := hp.asking (.inr hr)
    exact ⟨h₁, fun e he => h₂ e (htimer e he)⟩

theorem Kept.uptime {x : StaWorkEnv} (h : Kept x s t) :
    s.uptime ≤ t.uptime ∧ t.uptime ≤ s.uptime + (x.deauthTicks + x.cmdTicks) := by
  have hb := h.boot
  have h₁ := h.clock_ge
  have h₂ := h.clock_le
  unfold StaCore.uptime
  rw [hb]
  omega

theorem staWork_patient {x : StaWorkEnv} (hp : s.Patient m c) (hq : s.queued = true)
    (ht : ({ s with queued := false }.staWork m cfg x).Early m) (hx : x.deauthTicks ≤ c)
    (hy : x.cmdTicks ≤ c) : ({ s with queued := false }.staWork m cfg x).Patient m c := by
  have hpend : ∀ e, s.timer = some e → s.uptime ≤ e.toNat ∧ e.toNat ≤ s.uptime + stepTime m :=
    fun e he => ⟨(hp.pending e he).2.2 hq, (hp.pending e he).2.1⟩
  have has := hp.authStart.trans hp.ctxStart
  rcases staWork_cases m cfg { s with queued := false } x with
    ⟨hw, he⟩ | ⟨u, o, hk, he⟩ | ⟨u, hk, he, h⟩
  · rw [he]
    refine ⟨watched_of_not_waiting hw, fun e h => ?_, hp.authStart, hp.ctxStart, ?_, fun h => ?_⟩
    · exact ⟨(hp.pending e h).1, (hp.pending e h).2.1, nofun⟩
    · intro hst
      exact absurd (.inr (.inl hst)) hw
    · exact ⟨nofun, (hp.asking h).2⟩
  · rw [he] at ht ⊢
    obtain ⟨hge, hle⟩ := hk.uptime
    refine patient_of_off (staLeave_state ..) rfl ?_ ?_ ?_
    · change u.authStart.toNat ≤ u.ctxStart.toNat
      rw [hk.authStart, hk.ctxStart]
      exact hp.authStart
    · change u.ctxStart.toNat ≤ u.uptime
      rw [hk.ctxStart]
      exact hp.ctxStart.trans hge
    · intro _ h
      change u.queued = true at h
      rw [hk.queued] at h
      cases h
  · rw [he] at ht ⊢
    obtain ⟨hge, hle⟩ := hk.uptime
    change s.uptime ≤ u.uptime at hge
    change u.uptime ≤ s.uptime + _ at hle
    have hue : u.Early m := by
      rw [setStaTimer_eq] at ht
      exact ht
    have hse : s.Early m := by
      unfold Early at hue ⊢
      omega
    have hend : u.attemptEnd m = s.attemptEnd m := by
      unfold attemptEnd
      rw [hk.authStart, hk.ctxStart]
    have htimer : u.timer = s.timer := hk.timer
    refine patient_of_armed hue (fun e h => ?_) ?_ ?_ (fun hst => ?_) (fun ha => ?_)
    · rw [htimer] at h
      have := hpend e h
      refine ⟨by omega, by omega, fun hqu => ?_⟩
      rw [hk.queued] at hqu
      cases hqu
    · rw [hk.authStart, hk.ctxStart]
      exact hp.authStart
    · rw [hk.ctxStart]
      exact hp.ctxStart.trans hge
    · rcases h with ⟨hs, rfl, hover⟩ | ⟨_, hask, _⟩
      · obtain ⟨h₁, h₂, _, h₄⟩ := hp.authed hs
        have := (stepOver_iff (s := s) hse h₂).not.mp hover
        refine ⟨h₁, h₂, ?_, h₄⟩
        change s.uptime ≤ s.stepStart.toNat + _ + _
        omega
      · rcases hask with h | h <;> cases hst.symm.trans h
    · rw [hend, htimer]
      rcases h with ⟨hs, rfl, _⟩ | ⟨hs, _, hlate⟩
      · have hr := (hp.authed hs).1
        rcases ha with (h | h) | h
        · cases hs.symm.trans h
        · cases hs.symm.trans h
        · exact absurd h hr
      · have := (late_iff (s := s) hse has).not.mp hlate
        have hmax : s.authStart.toNat + deadline m ≤ s.attemptEnd m := le_max_left ..
        refine ⟨by omega, (hp.asking (.inl hs)).2⟩

/-- The clock only goes on. -/
theorem staWork_uptime (m : ℕ → Jiffies) (cfg : StaCfg) (s : StaCore) (x : StaWorkEnv) :
    s.uptime ≤ (s.staWork m cfg x).uptime := by
  rcases staWork_cases m cfg s x with ⟨_, he⟩ | ⟨u, o, hk, he⟩ | ⟨u, hk, he, _⟩
  · rw [he]
  · rw [he]
    exact hk.uptime.1
  · rw [he, setStaTimer_eq]
    exact hk.uptime.1

theorem step_early (h : s.step m cfg e = some t) (ht : t.Early m) : s.Early m := by
  have hpass : ∀ k, (s.pass k).Early m → s.Early m := fun k => early_of_pass
  have hsent : ∀ {o k}, AuthSent m o k s t → s.Early m := by
    rintro o k (⟨a, _, rfl⟩ | ⟨a, _, rfl⟩)
    · exact hpass k ht
    · rw [setStaTimer_eq] at ht
      exact hpass k ht
  have hassoc : ∀ {k}, AssocSent m k s t → s.Early m := by
    rintro k (⟨a, _, rfl⟩ | ⟨a, _, rfl⟩)
    · exact hpass k ht
    · rw [setStaTimer_eq] at ht
      exact hpass k ht
  have hpassive : s.Passive t → s.Early m := by
    rintro ⟨a, l, rfl, _⟩
    exact ht
  have hleft : Left s t → s.Early m := by
    rintro ⟨a, l, rfl, _⟩
    exact ht
  cases e with
  | tick =>
    cases h
    exact hpass 1 ht
  | timer =>
    obtain ⟨_, h⟩ := Option.ite_none_right_eq_some.mp h
    cases h
    exact ht
  | work x =>
    obtain ⟨_, h⟩ := Option.ite_none_right_eq_some.mp h
    cases h
    have hle := staWork_uptime m cfg { s with queued := false } x
    change s.uptime ≤ _ at hle
    unfold Early at ht ⊢
    omega
  | auth req o x ticks =>
    cases h
    rcases auth_cases s.enter req o x ticks with hr | hr
    · exact hpassive ((enter_returns s).trans hr).passive
    · exact hsent hr
  | assoc b x ticks =>
    cases h
    rcases assoc_cases s.enter b x ticks with hr | hr
    · exact hpassive ((enter_returns s).trans hr).passive
    · exact hassoc hr
  | connectSaeAuth bss b x =>
    cases h
    rcases connectSaeAuth_cases (n := cfg.n) s bss b x with ⟨_, a, _, he⟩ | ⟨_, hp⟩
    · rw [he] at ht
      exact ht
    · exact hpassive hp
  | externalAuth b success unjoin bss x ticks =>
    cases h
    rcases externalAuth_cases m cfg s b success unjoin bss x ticks with
      ⟨_, a, _, he⟩ | ⟨_, hp | hp⟩
    · rw [he] at ht
      exact ht
    · exact hpassive hp
    · exact hassoc hp
  | rxMgmt f unjoin =>
    cases h
    rcases staRxMgmt_cases (n := cfg.n) s f unjoin with ⟨_, a, l, he, _⟩ | ⟨_, hp | hp⟩
    · rw [he] at ht
      exact ht
    · exact hpassive hp
    · exact hleft hp
  | staLeave b unjoin =>
    cases h
    exact ht
  | changeStation b authorized =>
    cases h
    exact hpassive (changeStation_passive s b authorized)

/-- Each timely step keeps the bounds. -/
theorem step_patient (hp : s.Patient m c) (hg : s.Timely cfg c e) (h : s.step m cfg e = some t)
    (ht : t.Early m) : t.Patient m c := by
  have hs := step_early h ht
  obtain ⟨hsup, hg⟩ := hg
  have hpassive : s.Passive t → t.Patient m c := fun h => h.patient hp
  cases e with
  | tick =>
    cases h
    exact hp.pass hs (.inr rfl) fun _ => hg
  | timer =>
    obtain ⟨hdue, h⟩ := Option.ite_none_right_eq_some.mp h
    cases h
    obtain ⟨e, he, _⟩ := Option.any_eq_true .. |>.mp hdue
    have hle := (hp.pending e he).1
    refine ⟨watched_of_alive (.inr rfl), nofun, hp.authStart, hp.ctxStart, fun ha => ?_, fun ha => ?_⟩
    · obtain ⟨h₁, h₂, _, h₄⟩ := hp.authed ha
      refine ⟨h₁, h₂, fun _ => ?_, nofun⟩
      have := h₄ e he
      change s.uptime ≤ s.stepStart.toNat + _ + _
      omega
    · refine ⟨fun _ => ?_, nofun⟩
      have := (hp.asking ha).2 e he
      change s.uptime ≤ s.attemptEnd m + _ + _
      omega
  | work x =>
    obtain ⟨hq, h⟩ := Option.ite_none_right_eq_some.mp h
    cases h
    exact staWork_patient hp hq ht hg.1 hg.2
  | auth req o x ticks =>
    cases h
    rcases auth_cases s.enter req o x ticks with hr | hr
    · exact hpassive ((enter_returns s).trans hr).passive
    · have hpass : (s.pass ticks).Early m := by
        rcases hr with ⟨a, _, he⟩ | ⟨a, _, he⟩
        · rw [he] at ht
          exact ht
        · rw [he, setStaTimer_eq] at ht
          exact ht
      exact AuthSent.patient (s := s) hr hp hpass hg.1 hg.2
  | assoc b x ticks =>
    cases h
    rcases assoc_cases s.enter b x ticks with hr | hr
    · exact hpassive ((enter_returns s).trans hr).passive
    · have hpass : (s.pass ticks).Early m := by
        rcases hr with ⟨a, _, he⟩ | ⟨a, _, he⟩
        · rw [he] at ht
          exact ht
        · rw [he, setStaTimer_eq] at ht
          exact ht
      exact AssocSent.patient (s := s) hr hp hpass hg.1 hg.2
  | connectSaeAuth bss b x =>
    cases h
    rcases connectSaeAuth_cases (n := cfg.n) s bss b x with ⟨hx, _⟩ | ⟨_, hr⟩
    · exact absurd hx hg
    · exact hpassive hr
  | externalAuth b success unjoin bss x ticks =>
    cases h
    refine hpassive ?_
    unfold externalAuth
    rcases hg with hsme | rfl
    · rw [if_pos hsme]
      exact ⟨_, s.lastSeqCtrl, rfl, .inr (Sta.not_waiting_of_none rfl)⟩
    · rw [if_pos rfl]
      split_ifs
      · exact ⟨_, s.lastSeqCtrl, rfl, .inr (Sta.not_waiting_of_none rfl)⟩
      · exact ⟨_, s.lastSeqCtrl, rfl, .inr (Sta.not_waiting_of_none (Sta.unjoin_state ..))⟩
  | rxMgmt f unjoin =>
    cases h
    rcases staRxMgmt_cases (n := cfg.n) s f unjoin with ⟨ha, hr⟩ | ⟨_, hr | hr⟩
    · exact hr.patient hp hs (hsup ha)
    · exact hpassive hr
    · exact hr.patient hp
  | staLeave b unjoin =>
    cases h
    exact (staLeave_left (l := s.lastSeqCtrl) rfl b unjoin).patient hp
  | changeStation b authorized =>
    cases h
    exact hpassive (changeStation_passive s b authorized)

theorem init_patient (peers : PeerSys MacAddr) (boot : Jiffies) :
    (init peers boot).Patient m c :=
  patient_of_off rfl rfl (le_refl _) (Nat.zero_le _) nofun

theorem patient_of_reach {peers : PeerSys MacAddr} {boot : Jiffies}
    (h : Lib.Reach (step m cfg) (fun s e => s.Timely cfg c e) (init peers boot) s)
    (hs : s.Early m) : s.Patient m c := by
  refine h.invariant (I := fun s => s.Early m → s.Patient m c) (fun _ => init_patient ..) ?_ hs
  intro s e t ih hg ht he
  exact step_patient (ih (step_early ht he)) hg ht he

theorem sub_toNat_le {a b : Jiffies} {k : ℕ} (hb : b.toNat ≤ a.toNat) (h : a.toNat ≤ b.toNat + k) :
    (a - b).toNat ≤ k := by
  rw [BitVec.toNat_sub_of_le (BitVec.le_def.mpr hb)]
  omega

end StaCore
end Skw
