import Skw.Sta.Core

/-! What each call does to the supervision of a connection, apart from what it does to the peers.
The station inside takes the steps of `Sta`. -/
namespace Skw

namespace Sta
variable (s : Sta) (n : IfaceId)

@[simp] theorem setState_state (st : StaState) : (s.setState st).state = st := rfl

@[simp] theorem unjoin_state (b : MacAddr) (ret : ℤ) : (s.unjoin n b ret).2.state = s.state := by
  unfold unjoin
  dsimp only
  split_ifs <;> rfl

@[simp] theorem join_state (b : MacAddr) (a : JoinAnswer) : (s.join n b a).2.state = s.state := by
  unfold join
  dsimp only
  split_ifs <;> rfl

@[simp] theorem staLeave_state (b : MacAddr) (ret : ℤ) :
    (s.staLeave n b ret).2.state = .none := by
  unfold staLeave
  exact unjoin_state ..

@[simp] theorem giveUp_state (b : MacAddr) (unjoin ret : ℤ) :
    (s.giveUp n b unjoin ret).2.state = .none := rfl

@[simp] theorem authJoin_state (req : AuthReq) (x : AuthAnswer) :
    (s.authJoin n req x).2.state = s.state := by
  unfold authJoin
  dsimp only
  split_ifs <;> simp

/-- The connection waits for a frame of its access point, or for the next request. -/
def Waiting : Prop := s.state = .authing ∨ s.state = .authed ∨ s.state = .associng

instance : Decidable s.Waiting := inferInstanceAs (Decidable (_ ∨ _ ∨ _))

variable {s}

theorem not_waiting_of_none (h : s.state = .none) : ¬ s.Waiting := by
  simp [Waiting, h]

theorem not_waiting_of_assoced (h : s.state = .assoced) : ¬ s.Waiting := by
  simp [Waiting, h]

theorem waiting_congr {t : Sta} (h : t.state = s.state) : t.Waiting ↔ s.Waiting := by
  unfold Waiting
  rw [h]

end Sta

namespace StaCore
variable {m : ℕ → Jiffies} {cfg : StaCfg} {s t : StaCore} {n : IfaceId}

def Waiting (s : StaCore) : Prop := s.sta.Waiting

instance (s : StaCore) : Decidable s.Waiting := inferInstanceAs (Decidable s.sta.Waiting)

/-- The work will run: it is queued, or its timer is pending. -/
def Alive (s : StaCore) : Prop := s.timer.isSome = true ∨ s.queued = true

instance (s : StaCore) : Decidable s.Alive := inferInstanceAs (Decidable (_ ∨ _))

@[simp] theorem call_sta (s : StaCore) (n : IfaceId) (e : StaEvent) :
    (s.call n e).sta = (s.sta.call n e).2 := rfl

@[simp] theorem setState_state (s : StaCore) (n : IfaceId) (st : StaState) :
    (s.setState n st).sta.state = st := rfl

@[simp] theorem staLeave_state (s : StaCore) (n : IfaceId) (b : MacAddr) (ret : ℤ) :
    (s.staLeave n b ret).sta.state = .none := Sta.staLeave_state ..

theorem setStaTimer_alive (m : ℕ → Jiffies) (s : StaCore) : (s.setStaTimer m).Alive := by
  unfold setStaTimer
  split_ifs with h
  · exact .inl h
  · exact .inl rfl

@[simp] theorem setStaTimer_sta (m : ℕ → Jiffies) (s : StaCore) :
    (s.setStaTimer m).sta = s.sta := by
  unfold setStaTimer
  split_ifs <;> rfl

theorem setStaTimer_eq (m : ℕ → Jiffies) (s : StaCore) :
    s.setStaTimer m = { s with timer := (s.setStaTimer m).timer } := by
  unfold setStaTimer
  split_ifs <;> rfl

/-- A call that ends with nothing sent: at most it has left the old access point. -/
def Returns (s t : StaCore) : Prop :=
  ∃ a : Sta, t = { s with sta := a } ∧ (a.state = s.sta.state ∨ a.state = .none)

theorem Returns.refl (s : StaCore) : s.Returns s := ⟨s.sta, rfl, .inl rfl⟩

theorem Returns.trans {u : StaCore} (h : s.Returns t) (h' : t.Returns u) : s.Returns u := by
  obtain ⟨a, rfl, ha⟩ := h
  obtain ⟨b, rfl, hb⟩ := h'
  refine ⟨b, rfl, ?_⟩
  rcases hb with hb | hb
  · rcases ha with ha | ha
    · exact .inl (hb.trans ha)
    · exact .inr (hb.trans ha)
  · exact .inr hb

theorem onSta_returns {f : Sta → ℤ × Sta}
    (h : (f s.sta).2.state = s.sta.state ∨ (f s.sta).2.state = .none) :
    s.Returns (s.onSta f).2 := ⟨_, rfl, h⟩

/-- A call of `skw_auth` that sends its command: it fails, or the timer is set. -/
def AuthSent (m : ℕ → Jiffies) (o : Bool) (ticks : ℕ) (s t : StaCore) : Prop :=
  (∃ a : Sta, a.state = .none ∧ t = ({ s with sta := a }.startAuth m o).pass ticks) ∨
  (∃ a : Sta, (a.state = .authing ∨ a.state = .authed) ∧
    t = (({ s with sta := a }.startAuth m o).pass ticks).setStaTimer m)

theorem authSend_cases {u : StaCore} (hu : s.Returns u) (req : AuthReq) (o : Bool)
    (x : AuthAnswer) (ticks : ℕ) :
    s.Returns (u.authSend m n req o x ticks).2 ∨
      AuthSent m o ticks s (u.authSend m n req o x ticks).2 := by
  obtain ⟨b, rfl, hb⟩ := hu
  unfold authSend Sta.authSend onSta
  dsimp only
  by_cases hkey : req.key = true ∧ x.addKey < 0
  · rw [if_pos hkey, if_pos hkey]
    exact .inl ⟨_, rfl, .inr rfl⟩
  rw [if_neg hkey, if_neg hkey]
  by_cases hauth : x.auth ≠ 0
  · rw [if_pos hauth, if_pos hauth]
    exact .inr (.inl ⟨_, rfl, rfl⟩)
  rw [if_neg hauth, if_neg hauth]
  refine .inr (.inr ⟨_, ?_, rfl⟩)
  rw [Sta.setState_state]
  split_ifs
  · exact .inr rfl
  · exact .inl rfl

theorem auth_cases (s : StaCore) (req : AuthReq) (o : Bool) (x : AuthAnswer) (ticks : ℕ) :
    s.Returns (s.auth m n req o x ticks).2 ∨
      AuthSent m o ticks s (s.auth m n req o x ticks).2 := by
  have hjoin : ∀ u : StaCore, s.Returns u → s.Returns (u.onSta (·.authJoin n req x)).2 :=
    fun u hu => hu.trans (onSta_returns (.inl (Sta.authJoin_state ..)))
  have hnone : ∀ u : StaCore, s.Returns u →
      s.Returns (if (u.onSta (·.authJoin n req x)).1 ≠ 0 then u.onSta (·.authJoin n req x)
        else (u.onSta (·.authJoin n req x)).2.authSend m n req o x ticks).2 ∨
      AuthSent m o ticks s (if (u.onSta (·.authJoin n req x)).1 ≠ 0
        then u.onSta (·.authJoin n req x)
        else (u.onSta (·.authJoin n req x)).2.authSend m n req o x ticks).2 := by
    intro u hu
    split_ifs
    · exact .inl (hjoin u hu)
    · exact authSend_cases (hjoin u hu) req o x ticks
  have hleave : s.Returns (s.onSta fun a => (a.setState .none).unjoin n a.bssid x.leave).2 :=
    onSta_returns (.inr (Sta.unjoin_state ..))
  unfold auth
  dsimp only
  split
  · exact .inl (Returns.refl s)
  · exact .inl (Returns.refl s)
  · split
    · exact .inl (Returns.refl s)
    · split
      · exact .inl hleave
      · exact hnone _ hleave
  · split
    · exact .inl (Returns.refl s)
    · split
      · exact .inl hleave
      · exact hnone _ hleave
  · exact hnone s (Returns.refl s)
  · exact authSend_cases (Returns.refl s) req o x ticks

/-- A call of `skw_assoc` that sends its command: it fails and stops the timer, or the timer is
set. -/
def AssocSent (m : ℕ → Jiffies) (ticks : ℕ) (s t : StaCore) : Prop :=
  (∃ a : Sta, a.state = .none ∧
    t = { ({ s with sta := a }.startAssoc m).pass ticks with timer := none }) ∨
  (∃ a : Sta, a.state = .associng ∧ t = (({ s with sta := a }.startAssoc m).pass ticks).setStaTimer m)

theorem assocSend_cases {u : StaCore} {b : Sta} (hu : u = { s with sta := b }) (bssid : MacAddr)
    (x : AssocAnswer) (ticks : ℕ) : AssocSent m ticks s (u.assocSend m n bssid x ticks).2 := by
  subst hu
  unfold assocSend Sta.assocSend onSta
  dsimp only
  by_cases hassoc : x.assoc ≠ 0
  · rw [if_pos hassoc, if_pos hassoc]
    exact .inl ⟨_, rfl, rfl⟩
  · rw [if_neg hassoc, if_neg hassoc]
    exact .inr ⟨_, rfl, rfl⟩

theorem assoc_cases (s : StaCore) (bssid : MacAddr) (x : AssocAnswer) (ticks : ℕ) :
    s.Returns (s.assoc m n bssid x ticks).2 ∨ AssocSent m ticks s (s.assoc m n bssid x ticks).2 := by
  have hleave : s.Returns (s.onSta fun a => (a.setState .none).unjoin n a.bssid x.leave).2 :=
    onSta_returns (.inr (Sta.unjoin_state ..))
  have hjoin : ∀ u : StaCore, s.Returns u → s.Returns (u.onSta (·.join n bssid x.join)).2 :=
    fun u hu => hu.trans (onSta_returns (.inl (Sta.join_state ..)))
  have hroam : ∀ u : StaCore, s.Returns u →
      s.Returns (if (u.onSta (·.join n bssid x.join)).1 ≠ 0 then u.onSta (·.join n bssid x.join)
        else ((u.onSta (·.join n bssid x.join)).2.onSta
          fun a => (0, a.setState .authed)).2.assocSend m n bssid x ticks).2 ∨
      AssocSent m ticks s (if (u.onSta (·.join n bssid x.join)).1 ≠ 0
        then u.onSta (·.join n bssid x.join)
        else ((u.onSta (·.join n bssid x.join)).2.onSta
          fun a => (0, a.setState .authed)).2.assocSend m n bssid x ticks).2 := by
    intro u hu
    split_ifs
    · exact .inl (hjoin u hu)
    · obtain ⟨b, rfl, _⟩ := hu
      exact .inr (assocSend_cases rfl bssid x ticks)
  unfold assoc
  dsimp only
  split
  · exact .inl (Returns.refl s)
  · exact .inl (Returns.refl s)
  · split
    · exact .inl (Returns.refl s)
    · split
      · exact .inl hleave
      · exact hroam _ hleave
  · split
    · exact .inl (Returns.refl s)
    · split
      · exact .inl hleave
      · exact hroam _ hleave
  · exact .inr (assocSend_cases rfl bssid x ticks)
  · exact .inl (Returns.refl s)

theorem assoc_cases_of_authed {u : StaCore} {b : Sta} (hu : u = { s with sta := b })
    (hb : b.state = .authed) (bssid : MacAddr) (x : AssocAnswer) (ticks : ℕ) :
    AssocSent m ticks s (u.assoc m n bssid x ticks).2 := by
  have he : u.assoc m n bssid x ticks = u.assocSend m n bssid x ticks := by
    subst hu
    unfold assoc
    dsimp only
    rw [hb]
  rw [he]
  exact assocSend_cases hu bssid x ticks

/-- What the work leaves alone before its end, and the time it takes. -/
structure Kept (x : StaWorkEnv) (s u : StaCore) : Prop where
  timer : u.timer = s.timer
  queued : u.queued = s.queued
  boot : u.boot = s.boot
  authStart : u.authStart = s.authStart
  ctxStart : u.ctxStart = s.ctxStart
  clock_ge : s.clock ≤ u.clock
  clock_le : u.clock ≤ s.clock + (x.deauthTicks + x.cmdTicks)

theorem Kept.refl (x : StaWorkEnv) (s : StaCore) : s.Kept x s :=
  ⟨rfl, rfl, rfl, rfl, rfl, le_refl _, Nat.le_add_right ..⟩

/-- A frame is awaited. -/
def Asking (s : StaCore) : Prop := s.sta.state = .authing ∨ s.sta.state = .associng

instance (s : StaCore) : Decidable s.Asking := inferInstanceAs (Decidable (_ ∨ _))

theorem Asking.waiting (h : s.Asking) : s.Waiting := h.imp_right .inr

theorem redoAuth_kept (s : StaCore) (rty : StaRetry) (x : StaWorkEnv) :
    s.Kept x (s.redoAuth n rty x).2 ∧
      ((s.redoAuth n rty x).1 = false → (s.redoAuth n rty x).2.sta.state = .authing) := by
  unfold redoAuth
  dsimp only
  split_ifs
  · exact ⟨Kept.refl x s, nofun⟩
  · refine ⟨⟨rfl, rfl, rfl, rfl, rfl, Nat.le_add_right .., ?_⟩, nofun⟩
    exact Nat.add_le_add_left (Nat.le_add_right ..) _
  · refine ⟨⟨rfl, rfl, rfl, rfl, rfl, ?_, ?_⟩, nofun⟩
    · change s.clock ≤ s.clock + x.deauthTicks + x.cmdTicks
      omega
    · exact (Nat.add_assoc ..).le
  · refine ⟨⟨rfl, rfl, rfl, rfl, rfl, ?_, ?_⟩, fun _ => rfl⟩
    · change s.clock ≤ s.clock + x.deauthTicks + x.cmdTicks
      omega
    · exact (Nat.add_assoc ..).le

theorem waitStep_kept (m : ℕ → Jiffies) (cfg : StaCfg) (hs : s.Asking) (maxRetry : ℕ)
    (cmd : StaOut) (rty : StaRetry) (x : StaWorkEnv) :
    s.Kept x (s.waitStep m cfg maxRetry cmd rty x).2 ∧
      ((s.waitStep m cfg maxRetry cmd rty x).1 = false →
        (s.waitStep m cfg maxRetry cmd rty x).2.Asking) := by
  unfold waitStep
  dsimp only
  split_ifs
  · obtain ⟨hk, ha⟩ := redoAuth_kept (n := cfg.n) { s with retry := s.retry + 1 } rty x
    exact ⟨⟨hk.timer, hk.queued, hk.boot, hk.authStart, hk.ctxStart, hk.clock_ge, hk.clock_le⟩,
      fun h => .inl (ha h)⟩
  · exact ⟨⟨rfl, rfl, rfl, rfl, rfl, le_refl _, Nat.le_add_right ..⟩, nofun⟩
  · refine ⟨⟨rfl, rfl, rfl, rfl, rfl, Nat.le_add_right .., ?_⟩, fun _ => hs⟩
    exact Nat.add_le_add_left (Nat.le_add_left ..) _
  · exact ⟨Kept.refl x s, fun _ => hs⟩

/-- The deadline of the whole connection has passed. -/
def Late (m : ℕ → Jiffies) (s : StaCore) : Prop :=
  timeAfter s.jiffies (s.authStart + m SKW_AUTH_TIMEOUT + m SKW_ASSOC_TIMEOUT) = true

/-- The last answer was a step ago. -/
def StepOver (m : ℕ → Jiffies) (s : StaCore) : Prop :=
  timeAfter s.jiffies (s.stepStart + m SKW_STEP_TIMEOUT) = true

/-- A run of the work: nothing waits, the connection is given up, or the timer is set again. -/
theorem staWork_cases (m : ℕ → Jiffies) (cfg : StaCfg) (s : StaCore) (x : StaWorkEnv) :
    (¬ s.Waiting ∧ s.staWork m cfg x = s) ∨
    (∃ u o, s.Kept x u ∧ s.staWork m cfg x = u.fail cfg o x.unjoin) ∨
    (∃ u, s.Kept x u ∧ s.staWork m cfg x = u.setStaTimer m ∧
      (s.sta.state = .authed ∧ u = s ∧ ¬ s.StepOver m ∨ s.Asking ∧ u.Asking ∧ ¬ s.Late m)) := by
  have hwait : ∀ (maxRetry : ℕ) (cmd o : StaOut) (rty : StaRetry), s.Asking →
      ∀ t, t = waitEnd m cfg o x.unjoin (timeAfter s.jiffies
          (s.authStart + m SKW_AUTH_TIMEOUT + m SKW_ASSOC_TIMEOUT))
        (s.waitStep m cfg maxRetry cmd rty x) →
      (∃ u o, s.Kept x u ∧ t = u.fail cfg o x.unjoin) ∨
      (∃ u, s.Kept x u ∧ t = u.setStaTimer m ∧ s.Asking ∧ u.Asking ∧ ¬ s.Late m) := by
    rintro maxRetry cmd o rty hs t rfl
    obtain ⟨hk, ha⟩ := waitStep_kept m cfg hs maxRetry cmd rty x
    unfold waitEnd
    split_ifs with h
    · exact .inl ⟨_, o, hk, rfl⟩
    · rw [Bool.or_eq_true, not_or] at h
      exact .inr ⟨_, hk, rfl, hs, ha (Bool.eq_false_iff.mpr h.2), h.1⟩
  unfold staWork
  dsimp only
  cases hst : s.sta.state with
  | authed =>
    right
    dsimp only
    split_ifs with h
    · exact .inl ⟨s, _, Kept.refl x s, rfl⟩
    · exact .inr ⟨s, Kept.refl x s, rfl, .inl ⟨rfl, rfl, h⟩⟩
  | authing =>
    right
    refine (hwait _ _ _ _ (.inl hst) _ rfl).imp_right ?_
    rintro ⟨u, hk, he, h⟩
    exact ⟨u, hk, he, .inr h⟩
  | associng =>
    right
    refine (hwait _ _ _ _ (.inr hst) _ rfl).imp_right ?_
    rintro ⟨u, hk, he, h⟩
    exact ⟨u, hk, he, .inr h⟩
  | none | assoced | completed =>
    left
    simp [Waiting, Sta.Waiting, hst]

/-- A step that touches neither the timer nor the account of the attempt, and begins no wait. -/
def Passive (s t : StaCore) : Prop :=
  ∃ (a : Sta) (l : BitVec 16), t = { s with sta := a, lastSeqCtrl := l } ∧
    (a.state = s.sta.state ∨ ¬ a.Waiting)

theorem Returns.passive (h : s.Returns t) : s.Passive t := by
  obtain ⟨a, rfl, ha⟩ := h
  exact ⟨a, s.lastSeqCtrl, rfl, ha.imp_right Sta.not_waiting_of_none⟩

theorem enter_returns (s : StaCore) : s.Returns s.enter := ⟨_, rfl, .inl rfl⟩

/-- The frame is one of the current access point that `skw_sta_rx_auth` handles. -/
def Answers (s : StaCore) (f : StaFrame) : Prop :=
  ¬ (f.retry = true ∧ s.lastSeqCtrl = f.seqCtrl) ∧ f.stype = .auth ∧ s.sta.bssid = f.bssid

instance (s : StaCore) (f : StaFrame) : Decidable (s.Answers f) :=
  inferInstanceAs (Decidable (_ ∧ _))

/-- What an authentication frame does: after a failure the timer is stopped, and where the work had
started the authentication anew, an association is awaited in both cases. -/
def RxAuth (f : StaFrame) (s t : StaCore) : Prop :=
  ∃ (a : Sta) (l : BitVec 16),
    t = { s with
      sta := a, lastSeqCtrl := l, stepStart := s.jiffies, retry := 0
      timer := if authOk f.statusCode then s.timer else none } ∧
    a.state =
      if s.rtyState = .assoc then .associng else if authOk f.statusCode then .authed else .none

theorem staRxAuth_of_eq {u : StaCore} {l : BitVec 16} {f : StaFrame}
    (hu : u = { s with lastSeqCtrl := l }) (hb : u.sta.bssid = f.bssid) (ret : ℤ) :
    RxAuth f s (u.staRxAuth n f ret) := by
  unfold staRxAuth
  rw [if_neg (not_not.mpr hb)]
  subst hu
  unfold RxAuth
  by_cases hr : s.rtyState = .assoc
  · rw [if_pos hr]
    cases hok : authOk f.statusCode with
    | true => exact ⟨_, l, if_pos hr, rfl⟩
    | false => exact ⟨_, l, if_pos hr, rfl⟩
  · rw [if_neg hr]
    cases hok : authOk f.statusCode with
    | true => exact ⟨_, l, if_neg hr, rfl⟩
    | false => exact ⟨_, l, if_neg hr, Sta.staLeave_state ..⟩

/-- The access point is left. -/
def Left (s t : StaCore) : Prop :=
  ∃ (a : Sta) (l : BitVec 16), t = { s with sta := a, lastSeqCtrl := l, timer := none } ∧
    a.state = .none

theorem staLeave_left {u : StaCore} {l : BitVec 16} (hu : u = { s with lastSeqCtrl := l })
    (b : MacAddr) (ret : ℤ) : Left s (u.staLeave n b ret) := by
  subst hu
  exact ⟨_, l, rfl, Sta.staLeave_state ..⟩

theorem staRxAssoc_passive {u : StaCore} {l : BitVec 16} (hu : u = { s with lastSeqCtrl := l })
    (f : StaFrame) : s.Passive (u.staRxAssoc n f) := by
  subst hu
  unfold staRxAssoc
  split
  · exact ⟨s.sta, l, rfl, .inl rfl⟩
  · split_ifs
    · exact ⟨s.sta, l, rfl, .inl rfl⟩
    · exact ⟨_, l, rfl, .inr (Sta.not_waiting_of_assoced rfl)⟩
    · exact ⟨_, l, rfl, .inr (Sta.not_waiting_of_none rfl)⟩

theorem staRxMgmt_cases (s : StaCore) (f : StaFrame) (ret : ℤ) :
    s.Answers f ∧ RxAuth f s (s.staRxMgmt n f ret) ∨
      ¬ s.Answers f ∧ (s.Passive (s.staRxMgmt n f ret) ∨ Left s (s.staRxMgmt n f ret)) := by
  have hsame : ∀ l, s.Passive { s with lastSeqCtrl := l } := fun l => ⟨s.sta, l, rfl, .inl rfl⟩
  have hother : f.stype ≠ .auth → ¬ s.Answers f := fun h ha => h ha.2.1
  unfold staRxMgmt
  dsimp only
  split_ifs with hdup
  · exact .inr ⟨fun h => h.1 hdup, .inl (hsame s.lastSeqCtrl)⟩
  cases hst : f.stype with
  | auth =>
    by_cases hb : s.sta.bssid = f.bssid
    · have hr : RxAuth f s (({ s with lastSeqCtrl := f.seqCtrl } : StaCore).staRxAuth n f ret) :=
        staRxAuth_of_eq (l := f.seqCtrl) rfl hb ret
      exact .inl ⟨⟨hdup, hst, hb⟩, hr⟩
    · refine .inr ⟨fun h => hb h.2.2, .inl ?_⟩
      dsimp only
      unfold staRxAuth
      rw [if_pos hb]
      exact hsame f.seqCtrl
  | disassoc | deauth =>
    refine .inr ⟨hother (by simp [hst]), ?_⟩
    dsimp only
    unfold staRxDeauth
    split_ifs
    · exact .inl (hsame f.seqCtrl)
    · exact .inl (hsame f.seqCtrl)
    · exact .inr (staLeave_left rfl ..)
  | assocResp | reassocResp =>
    exact .inr ⟨hother (by simp [hst]), .inl (staRxAssoc_passive rfl f)⟩
  | assocReq | reassocReq | other =>
    exact .inr ⟨hother (by simp [hst]), .inl (hsame f.seqCtrl)⟩

theorem changeStation_passive (s : StaCore) (b : MacAddr) (authorized : Bool) :
    s.Passive (s.changeStation n b authorized) := by
  unfold changeStation
  split_ifs
  · exact (Returns.refl s).passive
  · refine ⟨_, s.lastSeqCtrl, rfl, .inr ?_⟩
    simp [Sta.Waiting, Sta.call]
  · exact (Returns.refl s).passive

/-- `skw_connect_sae_auth` asks user space to authenticate. -/
def StartsSae (s : StaCore) (n : IfaceId) : Option MacAddr → SaeAnswer → Prop
  | none, _ => False
  | some b, x => (s.enter.sta.join n b x.join).1 = 0 ∧ x.externalAuth = 0

instance (s : StaCore) (n : IfaceId) (bss : Option MacAddr) (x : SaeAnswer) :
    Decidable (s.StartsSae n bss x) := by
  cases bss with
  | none => exact inferInstanceAs (Decidable False)
  | some b => exact inferInstanceAs (Decidable (_ ∧ _))

theorem connectSaeAuth_cases (s : StaCore) (bss : Option MacAddr) (b : MacAddr) (x : SaeAnswer) :
    s.StartsSae n bss x ∧ (∃ a : Sta, a.state = .authing ∧
      (s.enter.onSta (·.connectSaeAuth n bss b x)).2 = { s with sta := a }) ∨
    ¬ s.StartsSae n bss x ∧ s.Passive (s.enter.onSta (·.connectSaeAuth n bss b x)).2 := by
  cases bss with
  | none => exact .inr ⟨id, (enter_returns s).passive⟩
  | some c =>
    unfold onSta Sta.connectSaeAuth
    dsimp only
    by_cases hj : (s.enter.sta.join n c x.join).1 = 0
    · rw [if_neg (not_not.mpr hj)]
      by_cases hx : x.externalAuth = 0
      · rw [if_neg (not_not.mpr hx)]
        exact .inl ⟨⟨hj, hx⟩, _, rfl, rfl⟩
      · rw [if_pos hx]
        exact .inr ⟨fun h => hx h.2, _, s.lastSeqCtrl, rfl, .inr (Sta.not_waiting_of_none rfl)⟩
    · rw [if_pos hj]
      exact .inr ⟨fun h => hj h.1, _, s.lastSeqCtrl, rfl, .inl (Sta.join_state ..)⟩

/-- User space has authenticated, but the access point is not known any more. -/
def LosesBss (cfg : StaCfg) (success : Bool) (bss : Option MacAddr) : Prop :=
  cfg.smeExternal = false ∧ success = true ∧ bss = none

instance (cfg : StaCfg) (success : Bool) (bss : Option MacAddr) :
    Decidable (LosesBss cfg success bss) := inferInstanceAs (Decidable (_ ∧ _))

theorem externalAuth_cases (m : ℕ → Jiffies) (cfg : StaCfg) (s : StaCore) (b : MacAddr)
    (success : Bool) (unjoin : ℤ) (bss : Option MacAddr) (x : AssocAnswer) (ticks : ℕ) :
    LosesBss cfg success bss ∧ (∃ a : Sta, a.state = .authed ∧
      (s.enter.externalAuth m cfg b success unjoin bss x ticks).2 = { s with sta := a }) ∨
    ¬ LosesBss cfg success bss ∧
      (s.Passive (s.enter.externalAuth m cfg b success unjoin bss x ticks).2 ∨
        AssocSent m ticks s (s.enter.externalAuth m cfg b success unjoin bss x ticks).2) := by
  unfold externalAuth LosesBss
  cases hsme : cfg.smeExternal with
  | true =>
    refine .inr ⟨nofun, .inl ⟨_, s.lastSeqCtrl, rfl, .inr ?_⟩⟩
    exact Sta.not_waiting_of_none rfl
  | false =>
    cases success with
    | false =>
      refine .inr ⟨nofun, .inl ⟨_, s.lastSeqCtrl, rfl, .inr (Sta.not_waiting_of_none ?_)⟩⟩
      exact Sta.unjoin_state ..
    | true =>
      cases bss with
      | none => exact .inl ⟨⟨rfl, rfl, rfl⟩, _, rfl, rfl⟩
      | some c =>
        have ht : AssocSent m ticks s
            ((s.enter.setState cfg.n .authed).assoc m cfg.n c x ticks).2 :=
          assoc_cases_of_authed (b := (s.enter.setState cfg.n .authed).sta) rfl rfl c x ticks
        exact .inr ⟨nofun, .inr ht⟩

end StaCore
end Skw
