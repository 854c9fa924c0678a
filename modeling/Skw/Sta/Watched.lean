import Skw.Sta.Steps

/-! While a connection waits, the work runs again, unless the wait begins without the timer: with
the external authentication of user space, and with an authentication frame that comes when the
timer is off. -/
namespace Skw
namespace StaCore
variable {m : ℕ → Jiffies} {cfg : StaCfg} {s t : StaCore} {e : StaInput}

/-- A connection that waits will be looked at. -/
def Watched (s : StaCore) : Prop := s.Waiting → s.Alive

/-- The input begins no wait that nothing supervises. -/
def Supervised (cfg : StaCfg) (s : StaCore) : StaInput → Prop
  | .connectSaeAuth bss _ x => s.StartsSae cfg.n bss x → s.Alive
  | .externalAuth _ success _ bss _ _ => LosesBss cfg success bss → s.Alive
  | .rxMgmt f _ =>
    s.Answers f →
      if authOk f.statusCode then s.Alive else s.rtyState = .assoc → s.queued = true
  | _ => True

instance (cfg : StaCfg) (s : StaCore) (e : StaInput) : Decidable (s.Supervised cfg e) := by
  cases e <;> unfold Supervised <;> infer_instance

theorem watched_of_not_waiting (h : ¬ s.Waiting) : s.Watched := fun hw => absurd hw h

theorem watched_of_alive (h : s.Alive) : s.Watched := fun _ => h

theorem Passive.watched (h : s.Passive t) (hs : s.Watched) : t.Watched := by
  obtain ⟨a, l, rfl, ha | ha⟩ := h
  · exact fun hw => hs ((Sta.waiting_congr ha).mp hw)
  · exact watched_of_not_waiting ha

theorem Left.watched (h : Left s t) : t.Watched := by
  obtain ⟨a, l, rfl, ha⟩ := h
  exact watched_of_not_waiting (Sta.not_waiting_of_none ha)

theorem AuthSent.watched {o : Bool} {ticks : ℕ} (h : AuthSent m o ticks s t) : t.Watched := by
  rcases h with ⟨a, ha, rfl⟩ | ⟨a, _, rfl⟩
  · exact watched_of_not_waiting (Sta.not_waiting_of_none ha)
  · exact watched_of_alive (setStaTimer_alive ..)

theorem AssocSent.watched {ticks : ℕ} (h : AssocSent m ticks s t) : t.Watched := by
  rcases h with ⟨a, ha, rfl⟩ | ⟨a, _, rfl⟩
  · exact watched_of_not_waiting (Sta.not_waiting_of_none ha)
  · exact watched_of_alive (setStaTimer_alive ..)

/-- An authentication frame finds the timer on, or the connection waits for nothing after it. -/
theorem RxAuth.watched_iff {f : StaFrame} (h : RxAuth f s t) :
    t.Watched ↔
      if authOk f.statusCode then s.Alive else s.rtyState = .assoc → s.queued = true := by
  obtain ⟨a, l, rfl, ha⟩ := h
  unfold Watched Waiting Alive Sta.Waiting
  dsimp only
  rw [ha]
  cases authOk f.statusCode with
  | true => by_cases hr : s.rtyState = .assoc <;> simp [hr]
  | false => by_cases hr : s.rtyState = .assoc <;> simp [hr]

theorem staWork_watched (s : StaCore) (x : StaWorkEnv) : (s.staWork m cfg x).Watched := by
  rcases staWork_cases m cfg s x with ⟨hw, he⟩ | ⟨u, o, _, he⟩ | ⟨u, _, he, _⟩
  · rw [he]
    exact watched_of_not_waiting hw
  · rw [he]
    exact watched_of_not_waiting (Sta.not_waiting_of_none (staLeave_state ..))
  · rw [he]
    exact watched_of_alive (setStaTimer_alive ..)

theorem step_watched (hs : s.Watched) (h : s.step m cfg e = some t) :
    t.Watched ↔ s.Supervised cfg e := by
  have hno {p : Prop} (hp : p) : t.Watched → (t.Watched ↔ p) := fun ht => iff_of_true ht hp
  cases e with
  | tick =>
    cases h
    exact iff_of_true hs trivial
  | timer =>
    obtain ⟨_, h⟩ := Option.ite_none_right_eq_some.mp h
    cases h
    exact iff_of_true (watched_of_alive (.inr rfl)) trivial
  | work x =>
    obtain ⟨_, h⟩ := Option.ite_none_right_eq_some.mp h
    cases h
    exact iff_of_true (staWork_watched _ x) trivial
  | auth req o x ticks =>
    cases h
    refine hno trivial ?_
    rcases auth_cases s.enter req o x ticks with hr | hr
    · exact ((enter_returns s).trans hr).passive.watched hs
    · exact hr.watched
  | assoc b x ticks =>
    cases h
    refine hno trivial ?_
    rcases assoc_cases s.enter b x ticks with hr | hr
    · exact ((enter_returns s).trans hr).passive.watched hs
    · exact hr.watched
  | connectSaeAuth bss b x =>
    cases h
    rcases connectSaeAuth_cases (n := cfg.n) s bss b x with ⟨hx, a, ha, he⟩ | ⟨hx, hp⟩
    · rw [he]
      exact ⟨fun ht _ => ht (.inl ha), fun ht => watched_of_alive (ht hx)⟩
    · exact hno (fun h => absurd h hx) (hp.watched hs)
  | externalAuth b success unjoin bss x ticks =>
    cases h
    rcases externalAuth_cases m cfg s b success unjoin bss x ticks with
      ⟨hx, a, ha, he⟩ | ⟨hx, hp | hp⟩
    · rw [he]
      exact ⟨fun ht _ => ht (.inr (.inl ha)), fun ht => watched_of_alive (ht hx)⟩
    · exact hno (fun h => absurd h hx) (hp.watched hs)
    · exact hno (fun h => absurd h hx) hp.watched
  | rxMgmt f unjoin =>
    cases h
    rcases staRxMgmt_cases (n := cfg.n) s f unjoin with ⟨ha, hr⟩ | ⟨ha, hp | hp⟩
    · rw [hr.watched_iff]
      exact ⟨fun h _ => h, fun h => h ha⟩
    · exact hno (fun h => absurd h ha) (hp.watched hs)
    · exact hno (fun h => absurd h ha) hp.watched
  | staLeave b unjoin =>
    cases h
    exact hno trivial (staLeave_left (l := s.lastSeqCtrl) rfl b unjoin).watched
  | changeStation b authorized =>
    cases h
    exact hno trivial ((changeStation_passive s b authorized).watched hs)

end StaCore
end Skw
