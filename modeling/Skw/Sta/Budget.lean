import Skw.Lib.Account
import Skw.Sta.Steps

/-! How many frames the work sends: what a request or a received authentication frame allows it.
-/
namespace Skw
namespace StaCore
variable {m : ℕ → Jiffies} {cfg : StaCfg} {s t : StaCore} {e : StaInput}

/-- The commands that the work has sent. -/
def commands (s : StaCore) : ℕ := s.out.countP StaOut.isCmd

/-- The commands that one authentication allows: two for each new start and four retries after it,
and four before the first one. -/
abbrev attemptCredit : ℕ := 22

/-- What the work can still send without another input. -/
def credit (s : StaCore) : ℕ :=
  if s.Waiting then 6 * (SKW_MAX_REAUTH_REDO_NUM - s.redo) + (4 - s.retry) else 0

/-- What an input allows in addition: the retries anew, or a whole attempt. -/
def grant (s : StaCore) : StaInput → ℕ
  | .auth _ _ _ _ => attemptCredit
  | .assoc _ _ _ | .connectSaeAuth _ _ _ | .externalAuth _ _ _ _ _ _ =>
    if s.Waiting then 4 else attemptCredit
  | .rxMgmt f _ => if s.Answers f then if s.Waiting then 4 else attemptCredit else 0
  | _ => 0

theorem credit_le (s : StaCore) : s.credit ≤ attemptCredit := by
  unfold credit SKW_MAX_REAUTH_REDO_NUM attemptCredit
  split_ifs <;> omega

theorem credit_of_waiting (h : s.Waiting) : s.credit = 6 * (3 - s.redo) + (4 - s.retry) := if_pos h

theorem credit_of_not_waiting (h : ¬ s.Waiting) : s.credit = 0 := if_neg h

/-- Where only the retries are forgiven. -/
theorem credit_le_of_redo (h : t.redo = s.redo) :
    t.credit ≤ s.credit + if s.Waiting then 4 else attemptCredit := by
  split_ifs with hs
  · rw [credit_of_waiting hs]
    unfold credit SKW_MAX_REAUTH_REDO_NUM
    rw [h]
    split_ifs <;> omega
  · exact (credit_le t).trans (Nat.le_add_left ..)

theorem Passive.credit_le (h : s.Passive t) : t.credit ≤ s.credit := by
  obtain ⟨a, l, rfl, ha⟩ := h
  by_cases hw : a.Waiting
  · have hs : s.Waiting := by
      rcases ha with ha | ha
      · exact (Sta.waiting_congr ha).mp hw
      · exact absurd hw ha
    have ht : ({ s with sta := a, lastSeqCtrl := l } : StaCore).Waiting := hw
    rw [credit_of_waiting hs, credit_of_waiting ht]
  · have ht : ¬ ({ s with sta := a, lastSeqCtrl := l } : StaCore).Waiting := hw
    rw [credit_of_not_waiting ht]
    exact Nat.zero_le _

theorem Left.credit_eq (h : Left s t) : t.credit = 0 := by
  obtain ⟨a, l, rfl, ha⟩ := h
  exact credit_of_not_waiting (Sta.not_waiting_of_none ha)

/-- The end of an authentication that the work starts anew. -/
theorem redoAuth_cases (s : StaCore) (n : IfaceId) (rty : StaRetry) (x : StaWorkEnv) :
    (s.redoAuth n rty x).1 = true ∧
      ((s.redoAuth n rty x).2.out = s.out ∨ s.redo < 3 ∧
        ((s.redoAuth n rty x).2.out = .cmdDeauth :: s.out ∨
          (s.redoAuth n rty x).2.out = .cmdAuth :: .cmdDeauth :: s.out)) ∨
    s.redo < 3 ∧ (s.redoAuth n rty x).2.out = .cmdAuth :: .cmdDeauth :: s.out ∧
      (s.redoAuth n rty x).2.redo = s.redo + 1 := by
  unfold redoAuth
  dsimp only
  by_cases hend : timeAfter s.jiffies (s.ctxStart + s.ctxTo) = true ∨
      SKW_MAX_REAUTH_REDO_NUM ≤ s.redo
  · rw [if_pos hend]
    exact .inl ⟨rfl, .inl rfl⟩
  rw [if_neg hend]
  have hredo : s.redo < 3 := not_le.mp (not_or.mp hend).2
  by_cases hdeauth : x.deauth ≠ 0
  · rw [if_pos hdeauth]
    exact .inl ⟨rfl, .inr ⟨hredo, .inl rfl⟩⟩
  rw [if_neg hdeauth]
  by_cases hcmd : x.cmd ≠ 0
  · rw [if_pos hcmd]
    exact .inl ⟨rfl, .inr ⟨hredo, .inr rfl⟩⟩
  · rw [if_neg hcmd]
    exact .inr ⟨hredo, rfl, rfl⟩

/-- A run that waits on spends of its credit, and one that gives up has had it. -/
def Spends (s : StaCore) (r : Bool × StaCore) : Prop :=
  r.2.commands + (if r.1 then 0 else r.2.credit) ≤ s.commands + s.credit

theorem spends_of_failed {r : Bool × StaCore} (hf : r.1 = true)
    (h : r.2.commands ≤ s.commands + s.credit) : s.Spends r := by
  unfold Spends
  rw [if_pos hf]
  exact h

theorem commands_of_out (h : t.out = s.out) : t.commands = s.commands :=
  congrArg (List.countP StaOut.isCmd) h

theorem commands_of_cons {u : StaCore} {o : StaOut} (ho : o.isCmd = true)
    (h : t.out = o :: u.out) : t.commands = u.commands + 1 := by
  unfold commands
  rw [h, List.countP_cons_of_pos ho]

theorem redoAuth_spends (hs : s.Waiting) (n : IfaceId) (rty : StaRetry) (x : StaWorkEnv) :
    s.Spends (({ s with retry := s.retry + 1 } : StaCore).redoAuth n rty x) := by
  have hcredit := credit_of_waiting hs
  have hcases := redoAuth_cases { s with retry := s.retry + 1 } n rty x
  generalize ({ s with retry := s.retry + 1 } : StaCore).redoAuth n rty x = r at hcases ⊢
  have htwo : r.2.out = .cmdAuth :: .cmdDeauth :: s.out → r.2.commands = s.commands + 2 := by
    intro ho
    unfold commands
    rw [ho, List.countP_cons_of_pos rfl, List.countP_cons_of_pos rfl]
  rcases hcases with ⟨hf, ho | ⟨hlt, ho | ho⟩⟩ | ⟨hlt, ho, hredo⟩
  · have hc : r.2.commands = s.commands := commands_of_out ho
    exact spends_of_failed hf (by omega)
  · have hc : r.2.commands = s.commands + 1 := commands_of_cons rfl ho
    change s.redo < 3 at hlt
    exact spends_of_failed hf (by omega)
  · have hc := htwo ho
    change s.redo < 3 at hlt
    exact spends_of_failed hf (by omega)
  · have hc := htwo ho
    change s.redo < 3 at hlt
    change r.2.redo = s.redo + 1 at hredo
    have hle : r.2.credit ≤ 6 * (3 - r.2.redo) + 4 := by
      unfold credit
      split_ifs
      · exact Nat.add_le_add_left (Nat.sub_le ..) _
      · exact Nat.zero_le _
    unfold Spends
    split_ifs <;> omega

theorem waitStep_spends (hs : s.Asking) {maxRetry : ℕ} (hmax : maxRetry ≤ 5) {cmd : StaOut}
    (hcmd : cmd.isCmd = true) (rty : StaRetry) (x : StaWorkEnv) :
    s.Spends (s.waitStep m cfg maxRetry cmd rty x) := by
  have hcredit := credit_of_waiting hs.waiting
  unfold waitStep
  dsimp only
  split_ifs with hover hredo hmany
  · exact redoAuth_spends hs.waiting cfg.n rty x
  · exact spends_of_failed rfl (Nat.le_add_right ..)
  · let u := ({ s with retry := s.retry + 1 } : StaCore).send cmd x.cmdTicks
    have hc : u.commands = s.commands + 1 := commands_of_cons hcmd rfl
    have hu : u.credit = 6 * (3 - s.redo) + (4 - (s.retry + 1)) := credit_of_waiting hs.waiting
    unfold Spends
    change u.commands + (if decide (x.cmd ≠ 0) then 0 else u.credit) ≤ _
    split_ifs <;> omega
  · exact le_refl _

theorem fail_spent (s : StaCore) {o : StaOut} (ho : o.isCmd = false) (unjoin : ℤ) :
    (s.fail cfg o unjoin).commands + (s.fail cfg o unjoin).credit = s.commands := by
  have hcredit : (s.fail cfg o unjoin).credit = 0 :=
    credit_of_not_waiting (Sta.not_waiting_of_none (staLeave_state ..))
  rw [hcredit]
  refine List.countP_cons_of_neg ?_
  split_ifs
  · simp [ho]
  · decide

theorem waitEnd_spent {o : StaOut} (ho : o.isCmd = false) (unjoin : ℤ) (failed : Bool)
    {r : Bool × StaCore} (h : s.Spends r) :
    (waitEnd m cfg o unjoin failed r).commands + (waitEnd m cfg o unjoin failed r).credit ≤
      s.commands + s.credit := by
  unfold Spends at h
  unfold waitEnd
  split_ifs with hf
  · rw [fail_spent r.2 ho unjoin]
    exact (Nat.le_add_right ..).trans h
  · rw [Bool.or_eq_true, not_or] at hf
    rw [if_neg hf.2] at h
    rw [setStaTimer_eq]
    exact h

/-- The work sends from the credit. -/
theorem staWork_spent (s : StaCore) (x : StaWorkEnv) :
    (s.staWork m cfg x).commands + (s.staWork m cfg x).credit ≤ s.commands + s.credit := by
  unfold staWork
  dsimp only
  cases hst : s.sta.state with
  | authing =>
    exact waitEnd_spent rfl _ _ (waitStep_spends (.inl hst) (by decide) rfl _ x)
  | associng =>
    exact waitEnd_spent rfl _ _ (waitStep_spends (.inr hst) (by decide) rfl _ x)
  | authed =>
    dsimp only
    split_ifs
    · rw [fail_spent s rfl]
      exact Nat.le_add_right ..
    · rw [setStaTimer_eq]
      exact le_refl _
  | none | assoced | completed => exact le_refl _

/-- A step pays for what it sends with its credit and with what its input grants. -/
theorem step_spent (h : s.step m cfg e = some t) :
    t.commands + t.credit ≤ s.commands + s.credit + s.grant e := by
  have hpassive {g : ℕ} : s.Passive t → t.commands + t.credit ≤ s.commands + s.credit + g := by
    intro hp
    have hc := hp.credit_le
    obtain ⟨a, l, rfl, _⟩ := hp
    exact (Nat.add_le_add_left hc _).trans (Nat.le_add_right ..)
  have hleft {g : ℕ} : Left s t → t.commands + t.credit ≤ s.commands + s.credit + g := by
    intro hl
    have hc := hl.credit_eq
    obtain ⟨a, l, rfl, _⟩ := hl
    rw [hc]
    exact (Nat.le_add_right ..).trans (Nat.le_add_right ..)
  have hredo : t.out = s.out → t.redo = s.redo →
      t.commands + t.credit ≤ s.commands + s.credit + if s.Waiting then 4 else attemptCredit := by
    intro ho hr
    rw [commands_of_out ho, Nat.add_assoc]
    exact Nat.add_le_add_left (credit_le_of_redo hr) _
  have hassoc : ∀ {k}, AssocSent m k s t →
      t.commands + t.credit ≤ s.commands + s.credit + if s.Waiting then 4 else attemptCredit := by
    rintro k (⟨a, _, rfl⟩ | ⟨a, _, rfl⟩)
    · exact hredo rfl rfl
    · rw [setStaTimer_eq] at hredo ⊢
      exact hredo rfl rfl
  cases e with
  | tick =>
    cases h
    exact le_refl _
  | timer =>
    obtain ⟨_, h⟩ := Option.ite_none_right_eq_some.mp h
    cases h
    exact le_refl _
  | work x =>
    obtain ⟨_, h⟩ := Option.ite_none_right_eq_some.mp h
    cases h
    exact staWork_spent { s with queued := false } x
  | auth req o x ticks =>
    cases h
    rcases auth_cases s.enter req o x ticks with hr | hr
    · exact hpassive ((enter_returns s).trans hr).passive
    · have hout : (s.enter.auth m cfg.n req o x ticks).2.out = s.out := by
        rcases hr with ⟨a, _, he⟩ | ⟨a, _, he⟩
        · rw [he]
          rfl
        · rw [he, setStaTimer_eq]
          rfl
      rw [commands_of_out hout]
      exact Nat.add_le_add (Nat.le_add_right ..) (credit_le _)
  | assoc b x ticks =>
    cases h
    rcases assoc_cases s.enter b x ticks with hr | hr
    · exact hpassive ((enter_returns s).trans hr).passive
    · exact hassoc hr
  | connectSaeAuth bss b x =>
    cases h
    rcases connectSaeAuth_cases (n := cfg.n) s bss b x with ⟨_, a, _, he⟩ | ⟨_, hr⟩
    · rw [he] at hredo ⊢
      exact hredo rfl rfl
    · exact hpassive hr
  | externalAuth b success unjoin bss x ticks =>
    cases h
    rcases externalAuth_cases m cfg s b success unjoin bss x ticks with
      ⟨_, a, _, he⟩ | ⟨_, hr | hr⟩
    · rw [he] at hredo ⊢
      exact hredo rfl rfl
    · exact hpassive hr
    · exact hassoc hr
  | rxMgmt f unjoin =>
    cases h
    rcases staRxMgmt_cases (n := cfg.n) s f unjoin with ⟨ha, a, l, he, _⟩ | ⟨_, hr | hr⟩
    · change _ ≤ _ + if s.Answers f then _ else _
      rw [if_pos ha]
      rw [he] at hredo ⊢
      exact hredo rfl rfl
    · exact hpassive hr
    · exact hleft hr
  | staLeave b unjoin =>
    cases h
    exact hleft (staLeave_left (l := s.lastSeqCtrl) rfl b unjoin)
  | changeStation b authorized =>
    cases h
    exact hpassive (changeStation_passive s b authorized)

/-- In every run the work sends no more commands than the requests and the authentication frames
of the run allow it. -/
theorem commands_le_granted (m : ℕ → Jiffies) (cfg : StaCfg) (peers : PeerSys MacAddr)
    (boot : Jiffies) {es : List StaInput} (h : Lib.exec (step m cfg) (init peers boot) es = some t) :
    t.commands ≤ Lib.granted (step m cfg) grant (init peers boot) es := by
  have hrun : t.commands + t.credit ≤ (init peers boot).commands + (init peers boot).credit +
      Lib.granted (step m cfg) grant (init peers boot) es :=
    Lib.exec_spent (I := fun _ => True) (fun _ _ _ _ _ => trivial)
      (fun _ _ _ _ ht => step_spent ht) trivial h
  have hcredit : (init peers boot).credit = 0 :=
    credit_of_not_waiting (Sta.not_waiting_of_none rfl)
  have hcmd : (init peers boot).commands = 0 := rfl
  omega

/-- An access point does not answer, and the authentication is sent again. -/
theorem commands_le_granted_retry :
    let es : List StaInput :=
      [.auth ⟨0x020000000001, false, false⟩ true ⟨0, 0, true, ⟨true, 0, 0, 3, 0⟩, 0, 0, 0⟩ 0,
        .tick, .timer, .work ⟨0, 0, 0, 0, 0⟩, .tick, .timer, .work ⟨0, 0, 0, 0, 0⟩]
    ∃ t, Lib.exec (step (fun _ => 1) ⟨0, true, true⟩) (init Sta.stations.peers 0) es = some t ∧
      t.out = [.cmdAuth] ∧
      t.commands ≤ Lib.granted (step (fun _ => 1) ⟨0, true, true⟩) grant
        (init Sta.stations.peers 0) es := by
  intro es
  have hrun : (Lib.exec (step (fun _ => 1) ⟨0, true, true⟩) (init Sta.stations.peers 0) es).any
      (fun t => decide (t.out = [.cmdAuth])) = true := by decide +kernel
  obtain ⟨t, ht, hp⟩ := Option.any_eq_true .. |>.mp hrun
  exact ⟨t, ht, of_decide_eq_true hp, commands_le_granted _ _ _ _ ht⟩

end StaCore
end Skw
