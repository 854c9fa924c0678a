import Skw.Mlme.Frame

/-! What an event of the access point shows: which clients are out of `SKW_STATE_NONE`, whom it
answers an association request with success, and which exchange it ends. Two facts are read off
the handlers: how a client comes out of `SKW_STATE_NONE`, and that only a request of a client
out of it is answered with success. -/
namespace Skw

/-- The station that is told the success of its association. -/
def ApOut.success {α : Type*} : ApOut α → Option α
  | .assocReply da _ _ status _ _ => if status = WLAN_STATUS_SUCCESS then some da else none
  | _ => none

namespace ApIface
variable {α : Type*} [DecidableEq α]

/-- The station has a client that is not in `SKW_STATE_NONE`. -/
def live (s : ApIface α) (a : α) : Bool := (s.clients a).any fun c => c.state ≠ .none

/-- The stations to which the last event made a successful association response. -/
def answered (s : ApIface α) : List α := s.out.filterMap ApOut.success

/-- The last reply of an open or shared key exchange, successful and taken for transmission. -/
def lastReply (s : ApIface α) (a : α) : Bool :=
  s.out.any fun
    | .authReply da _ alg transaction status _ ret =>
      da = a && status = WLAN_STATUS_SUCCESS && ret = 0 &&
        ((alg = WLAN_AUTH_OPEN && transaction = 2) ||
          (alg = WLAN_AUTH_SHARED_KEY && transaction = 4))
    | _ => false

/-- An SAE confirm went to user space. -/
def confirmed (s : ApIface α) (a : α) : Bool :=
  s.out.any fun
    | .rxMgmt sa stype alg transaction =>
      sa = a && stype = .auth && alg = WLAN_AUTH_SAE && transaction = 2
    | _ => false

end ApIface

namespace ApEvent
variable {α : Type*} [DecidableEq α]

/-- Station `a` is reported to have left, by a frame of its own or by the firmware. -/
def leaves (a : α) : ApEvent α → Bool
  | rxLeave sa _ | eventDelSta sa => sa = a
  | _ => false

/-- User space accepts the confirm of `a`. -/
def accepts (a : α) : ApEvent α → Bool
  | saeAccept b => b = a
  | _ => false

/-- An authentication frame of `a`, whose reply can end the exchange. -/
def authFrom (a : α) : ApEvent α → Bool
  | rxAuth f _ => f.sa = a
  | _ => false

/-- An authentication frame of `a` that starts an exchange without ending it: the first one of a
shared key exchange, one of SAE, or an open one that already carries a failure. -/
def opens (a : α) : ApEvent α → Bool
  | rxAuth f _ => f.sa = a &&
    (f.authAlg = WLAN_AUTH_SAE ||
      (f.authAlg = WLAN_AUTH_SHARED_KEY && f.authTransaction = 1) ||
      (f.authAlg = WLAN_AUTH_OPEN && f.statusCode ≠ WLAN_STATUS_SUCCESS))
  | _ => false

/-- An association response to `a` is reported as received. -/
def associates (a : α) : ApEvent α → Bool
  | txStatus t _ => t.da = a && t.ack && t.statusCode = WLAN_STATUS_SUCCESS &&
    (t.stype = .assocResp || t.stype = .reassocResp)
  | _ => false

end ApEvent

namespace ApIface

section
variable {α : Type*} {s t u : ApIface α}

/-- No client comes out of `SKW_STATE_NONE` and nobody is answered with success. -/
structure Quiet (s t : ApIface α) : Prop where
  live : ∀ a, t.live a = true → s.live a = true
  answered : t.answered = s.answered

theorem Quiet.refl (s : ApIface α) : s.Quiet s := ⟨fun _ h => h, rfl⟩

theorem Quiet.trans (h : s.Quiet t) (h' : t.Quiet u) : s.Quiet u :=
  ⟨fun a ha => h.live a (h'.live a ha), h'.answered.trans h.answered⟩

theorem quiet_of_same (hc : t.clients = s.clients) (ho : t.out = s.out) : s.Quiet t :=
  ⟨fun a ha => by simpa only [ApIface.live, hc] using ha, by simp only [ApIface.answered, ho]⟩

theorem emit_quiet {o : ApOut α} (ho : ∀ da reassoc capa status aid ret,
    o ≠ .assocReply da reassoc capa status aid ret) : s.Quiet (s.emit o) := by
  refine ⟨fun a ha => ha, ?_⟩
  unfold answered emit
  rw [List.filterMap_append]
  cases o with
  | assocReply da reassoc capa status aid ret => exact (ho _ _ _ _ _ _ rfl).elim
  | _ => exact List.append_nil _

theorem mlmeApNewAid_quiet (s : ApIface α) : s.Quiet s.mlmeApNewAid.1 := quiet_of_same rfl rfl

end

variable {α : Type*} [DecidableEq α] {s t : ApIface α} {a : α}

theorem live_setClient (s : ApIface α) (b : α) (c : Client) (a : α) :
    (s.setClient b c).live a = if a = b then decide (c.state ≠ .none) else s.live a := by
  unfold setClient live
  by_cases h : a = b
  · subst h
    simp
  · simp [h]

theorem live_setState_none (s : ApIface α) (b a : α) :
    (s.setState b .none).live a = (decide (a ≠ b) && s.live a) := by
  unfold setState live
  by_cases h : a = b
  · subst h
    simp [Option.any_map]
  · simp [h]

/-- A change of one client that keeps its state. -/
theorem quiet_update {g : Client → Client} (hg : ∀ c, (g c).state = c.state)
    (hc : t.clients = Function.update s.clients a ((s.clients a).map g)) (ho : t.out = s.out) :
    s.Quiet t := by
  constructor
  · intro b hb
    simp only [live, hc] at hb ⊢
    by_cases h : b = a
    · subst h
      simpa [Option.any_map, hg] using hb
    · simpa [h] using hb
  · simp only [answered, ho]

theorem setState_none_quiet (b : α) : s.Quiet (s.setState b .none) := by
  constructor
  · intro a ha
    rw [live_setState_none, Bool.and_eq_true] at ha
    exact ha.2
  · rfl

theorem mlmeApDelClient_quiet (s : ApIface α) (a : α) : s.Quiet (s.mlmeApDelClient a) := by
  unfold mlmeApDelClient
  cases s.clients a with
  | none => exact .refl s
  | some c =>
    refine ⟨fun b hb => ?_, rfl⟩
    unfold live at hb ⊢
    by_cases h : b = a
    · simp [h] at hb
    · simpa [h] using hb

theorem mlmeApAddClient_quiet (s : ApIface α) (a : α) : s.Quiet (s.mlmeApAddClient a) := by
  constructor
  · intro b hb
    rw [mlmeApAddClient, live_setClient] at hb
    split at hb
    · cases hb
    · exact hb
  · rfl

/-- The changes of which the handlers consist. -/
theorem quiet_closed : Closed (Quiet (α := α)) where
  refl := Quiet.refl
  trans := Quiet.trans
  same hc _ ho := quiet_of_same hc ho
  update _ _ hg hc _ ho := quiet_update (fun c => (hg c).1) hc ho
  emit _ _ ho := emit_quiet ho
  setState _ a := setState_none_quiet a
  delClient := mlmeApDelClient_quiet
  addClient s a _ := mlmeApAddClient_quiet s a

/-- The checks return early only for an open frame that carries a failure. -/
theorem authNext_drop {f : AuthFrame α} {text : Option Challenge} {c : Client}
    (h : s.authNext f text c = .drop) :
    f.authAlg = WLAN_AUTH_OPEN ∧ f.statusCode ≠ WLAN_STATUS_SUCCESS := by
  unfold authNext at h
  split_ifs at h with h₁ h₂ h₃ h₄
  · exact ⟨h₂, h₄⟩
  · cases text <;> simp at h

theorem authNext_forward {f : AuthFrame α} {text : Option Challenge} {c : Client}
    (h : s.authNext f text c = .forward) : f.authAlg = WLAN_AUTH_SAE := by
  unfold authNext at h
  split_ifs at h with h₁ h₂ h₃ h₄ h₅ h₆
  · exact h₅
  · cases text <;> simp at h

/-- A successful reply is to the last frame of an exchange, or to the first one of a shared key
exchange. -/
theorem authNext_success {f : AuthFrame α} {text ies : Option Challenge} {c c' : Client}
    (h : s.authNext f text c = .reply WLAN_STATUS_SUCCESS c' ies) :
    f.authAlg = WLAN_AUTH_OPEN ∧ f.authTransaction = 1 ∨
      f.authAlg = WLAN_AUTH_SHARED_KEY ∧ (f.authTransaction = 1 ∨ f.authTransaction = 3) := by
  unfold authNext at h
  split_ifs at h with h₁ h₂ h₃ h₄ h₅ h₆ h₇ h₈ h₉
  · cases h
  · cases h
  · exact .inl ⟨h₂, not_not.mp h₃⟩
  · exact .inr ⟨h₆, .inl h₇⟩
  · exact .inr ⟨h₆, .inr h₈⟩
  · cases h
  · cases h
  · cases h

theorem lastReply_authReply {bssid : α} {alg transaction : BitVec 16} {ies : Option Challenge}
    {tx : MgmtTx} (ht : alg = WLAN_AUTH_OPEN ∧ transaction = 2 ∨
      alg = WLAN_AUTH_SHARED_KEY ∧ transaction = 4)
    (hr : (s.mlmeApAuthReply a bssid alg transaction WLAN_STATUS_SUCCESS ies tx).2 = 0) :
    (s.mlmeApAuthReply a bssid alg transaction WLAN_STATUS_SUCCESS ies tx).1.lastReply a = true := by
  change (s.mgmtTx a .auth tx).2 = 0 at hr
  unfold mlmeApAuthReply lastReply emit
  dsimp only
  rw [List.any_append, hr]
  rcases ht with ⟨rfl, rfl⟩ | ⟨rfl, rfl⟩ <;> simp

/-- Failed replies leave the client in `SKW_STATE_NONE`, or remove it. -/
private theorem live_failed {t : ApIface α} {b : α} {ret : ℤ}
    (h : ((t.setState b .none).mlmeApDelSta b ret).live a = true) : a ≠ b ∧ t.live a = true := by
  have hs := (quiet_closed.mlmeApDelSta ..).live a h
  rw [live_setState_none, Bool.and_eq_true, decide_eq_true_eq] at hs
  exact hs

/-- What an authentication frame of `b` can do with the client of `b`. -/
theorem authFinish_live {f : AuthFrame α} {r : AuthEnv} {c : Client} {n : AuthNext}
    (hn : s.authNext f r.text c = n) (h : (s.authFinish f r c n).live a = true) :
    s.live a = true ∨ (ApEvent.rxAuth f r).opens a = true ∨
      f.sa = a ∧ (s.authFinish f r c n).lastReply a = true := by
  by_cases ha : a = f.sa
  · subst ha
    right
    cases n with
    | drop =>
      obtain ⟨h₁, h₂⟩ := authNext_drop hn
      exact .inl (by simpa [ApEvent.opens, h₁] using h₂)
    | forward => simp [ApEvent.opens, authNext_forward hn]
    | reply status c' ies =>
      unfold authFinish at h ⊢
      dsimp only at h ⊢
      split_ifs at h ⊢ with hf
      · exact absurd rfl (live_failed h).1
      · obtain ⟨hr, rfl⟩ := not_or.mp hf |>.imp not_not.mp not_not.mp
        rcases authNext_success hn with ⟨h₁, h₂⟩ | ⟨h₁, h₂ | h₂⟩
        · exact .inr ⟨rfl, lastReply_authReply (.inl ⟨h₁, by rw [h₂]; rfl⟩) hr⟩
        · exact .inl (by simp [ApEvent.opens, h₁, h₂])
        · exact .inr ⟨rfl, lastReply_authReply (.inr ⟨h₁, by rw [h₂]; rfl⟩) hr⟩
  · left
    have hc : ∀ c, (s.setClient f.sa c).live a = true → s.live a = true := by
      intro c hc
      rwa [live_setClient, if_neg ha] at hc
    cases n with
    | drop => exact hc _ h
    | forward => exact hc _ h
    | reply status c' ies =>
      have hq := quiet_closed.mlmeApAuthReply (s.setClient f.sa c') f.sa f.bssid f.authAlg
        (f.authTransaction + 1) status ies r.tx
      unfold authFinish at h
      dsimp only at h
      split_ifs at h
      · exact hc _ (hq.live a (live_failed h).2)
      · exact hc _ (hq.live a h)

theorem authFinish_answered (f : AuthFrame α) (r : AuthEnv) (c : Client) (n : AuthNext) :
    (s.authFinish f r c n).answered = s.answered := by
  cases n with
  | drop => rfl
  | forward => exact (emit_quiet nofun).answered (s := s.setClient f.sa c)
  | reply status c' ies =>
    have hq := quiet_closed.mlmeApAuthReply (s.setClient f.sa c') f.sa f.bssid f.authAlg
      (f.authTransaction + 1) status ies r.tx
    unfold authFinish
    dsimp only
    split_ifs
    · exact (hq.trans (quiet_closed.failed ..)).answered
    · exact hq.answered

/-- An authentication frame brings only its sender's client out of `SKW_STATE_NONE`, with the
last reply of an exchange or with one that is still open. -/
theorem mlmeApAuthHandler_live {f : AuthFrame α} {r : AuthEnv}
    (h : (s.mlmeApAuthHandler f r).live a = true) :
    s.live a = true ∨ (ApEvent.rxAuth f r).opens a = true ∨
      f.sa = a ∧ (s.mlmeApAuthHandler f r).lastReply a = true := by
  have hq := quiet_closed.authClient s f.sa r
  unfold mlmeApAuthHandler at h ⊢
  dsimp only at h ⊢
  generalize s.authClient f.sa r = u at h hq ⊢
  cases hc : u.clients f.sa with
  | none => 
    rw [hc] at h
    exact .inl (hq.live a h)
  | some c =>
    rw [hc] at h
    dsimp only at h ⊢
    split_ifs at h ⊢
    · exact .inl (hq.live a h)
    · exact (authFinish_live rfl h).imp_left (hq.live a)

theorem mlmeApAuthHandler_answered (s : ApIface α) (f : AuthFrame α) (r : AuthEnv) :
    (s.mlmeApAuthHandler f r).answered = s.answered := by
  rw [← (quiet_closed.authClient s f.sa r).answered]
  unfold mlmeApAuthHandler
  dsimp only
  split
  · rfl
  · split_ifs
    · rfl
    · exact authFinish_answered _ _ _ _

theorem setClient_quiet {b : α} {c c' : Client} (hc : s.clients b = some c)
    (hs : c'.state = c.state) : s.Quiet (s.setClient b c') := by
  refine ⟨fun a ha => ?_, rfl⟩
  rw [live_setClient, hs] at ha
  split at ha
  · next hb => simpa [live, hb, hc] using ha
  · exact ha

theorem mem_answered_assocReply {b : α} {c : Client} {status : BitVec 16} {reassoc : Bool}
    {tx : MgmtTx} (h : a ∈ (s.mlmeApAssocReply b c status reassoc tx).1.answered) :
    a ∈ s.answered ∨ a = b := by
  rw [← (quiet_closed.mgmtTx s b (if reassoc then .reassocResp else .assocResp) tx).answered]
  unfold mlmeApAssocReply answered emit at h
  rw [List.filterMap_append, List.mem_append] at h
  refine h.imp_right fun h => ?_
  obtain ⟨o, ho, hb⟩ := List.mem_filterMap.mp h
  rw [List.mem_singleton.mp ho] at hb
  change (if status = WLAN_STATUS_SUCCESS then some b else none) = some a at hb
  split at hb
  · exact (Option.some.inj hb).symm
  · cases hb

/-- The end of an association request brings no client out of `SKW_STATE_NONE` and answers
nobody but its sender. -/
theorem assocFinish_live {f : AssocFrame α} {r : AssocEnv} {c c' : Client} {status : BitVec 16}
    (hc : s.clients f.sa = some c) (hs : c'.state = c.state)
    (h : (s.assocFinish f r c' status).live a = true) : s.live a = true := by
  have hq : s.Quiet (s.mlmeApNewAid.1.setClient f.sa { c' with aid := s.mlmeApNewAid.2 }) :=
    Quiet.trans (mlmeApNewAid_quiet s) (setClient_quiet hc hs)
  unfold assocFinish at h
  dsimp only at h
  generalize (if s.mlmeApNewAid.2 = 0 then _ else status) = st at h
  split_ifs at h
  · exact hq.live a ((quiet_closed.mgmtTx ..).live a h)
  · exact hq.live a ((quiet_closed.mgmtTx ..).live a ((quiet_closed.keepAssocIe ..).live a h))

theorem assocFinish_answered {f : AssocFrame α} {r : AssocEnv} {c : Client} {status : BitVec 16}
    (h : a ∈ (s.assocFinish f r c status).answered) : a ∈ s.answered ∨ a = f.sa := by
  unfold assocFinish at h
  dsimp only at h
  generalize (if s.mlmeApNewAid.2 = 0 then _ else status) = st at h
  split_ifs at h
  · have ha := mem_answered_assocReply h
    exact ha
  · rw [(quiet_closed.keepAssocIe ..).answered] at h
    have ha := mem_answered_assocReply h
    exact ha

theorem mlmeApAssocHandler_live {f : AssocFrame α} {r : AssocEnv}
    (h : (s.mlmeApAssocHandler f r).live a = true) : s.live a = true := by
  unfold mlmeApAssocHandler at h
  cases hc : s.clients f.sa with
  | none => rwa [hc] at h
  | some c =>
    rw [hc] at h
    dsimp only at h
    have hq : s.Quiet (s.setClient f.sa
        { c with lastSeqCtrl := f.seqCtrl, capa := f.capabInfo.setWidth 32 }) :=
      setClient_quiet hc rfl
    split_ifs at h
    · exact (quiet_closed.apSimpleReply ..).live a h
    · exact h
    · exact hq.live a ((quiet_closed.apSimpleReply ..).live a h)
    · apply assocFinish_live hc _ h
      rfl

/-- An association request is answered with success only when the client of its sender is out
of `SKW_STATE_NONE`. -/
theorem mlmeApAssocHandler_answered {f : AssocFrame α} {r : AssocEnv} (hs : s.answered = [])
    (h : a ∈ (s.mlmeApAssocHandler f r).answered) : a = f.sa ∧ s.live a = true := by
  have hq : ∀ u, s.Quiet u → a ∉ u.answered := by
    intro u hu
    rw [hu.answered, hs]
    exact List.not_mem_nil
  unfold mlmeApAssocHandler at h
  cases hc : s.clients f.sa with
  | none =>
    rw [hc] at h
    exact absurd h (hq s (.refl s))
  | some c =>
    rw [hc] at h
    dsimp only at h
    split_ifs at h with hn
    · exact absurd h (hq _ (quiet_closed.apSimpleReply ..))
    · exact absurd h (hq s (.refl s))
    · refine absurd h (hq _ (Quiet.trans (setClient_quiet hc ?_) (quiet_closed.apSimpleReply ..)))
      rfl
    · have ha := assocFinish_answered h
      rw [hs] at ha
      obtain rfl := ha.resolve_left List.not_mem_nil
      exact ⟨rfl, by simp [live, hc, hn]⟩

/-- A report of an acknowledged association response brings its client out of
`SKW_STATE_NONE`. -/
theorem mlmeApAssocCb_live {t : TxStatus α} {c : Client} {ret : ℤ}
    (h : (s.mlmeApAssocCb t c ret).live a = true) :
    s.live a = true ∨ t.da = a ∧ t.ack = true ∧ t.statusCode = WLAN_STATUS_SUCCESS := by
  unfold mlmeApAssocCb at h
  dsimp only at h
  split at h
  · next ht =>
    rw [live_setClient] at h
    split at h
    · next ha => exact .inr ⟨ha.symm, ht⟩
    · have hq : s.Quiet { s with authTimeout := Function.update s.authTimeout t.da false } :=
        quiet_of_same rfl rfl
      exact .inl ((hq.trans (quiet_closed.changeStation ..)).live a h)
  · exact .inl (live_failed h).2

theorem mlmeApAssocCb_answered (s : ApIface α) (t : TxStatus α) (c : Client) (ret : ℤ) :
    (s.mlmeApAssocCb t c ret).answered = s.answered := by
  unfold mlmeApAssocCb
  dsimp only
  split
  · have hq : s.Quiet { s with authTimeout := Function.update s.authTimeout t.da false } :=
      quiet_of_same rfl rfl
    refine ((hq.trans (quiet_closed.changeStation ..)).trans (emit_quiet ?_)).answered
    nofun
  · exact (quiet_closed.failed ..).answered

theorem mlmeApTxStatus_live {t : TxStatus α} {ret : ℤ}
    (h : (s.mlmeApTxStatus t ret).live a = true) :
    s.live a = true ∨ (ApEvent.txStatus t ret).associates a = true := by
  unfold mlmeApTxStatus at h
  split at h
  · exact .inl h
  · split_ifs at h
    · exact .inl h
    · cases hst : t.stype <;> rw [hst] at h <;> dsimp only at h
      case auth => exact .inl ((quiet_closed.mlmeApAuthCb ..).live a h)
      case assocResp | reassocResp =>
        refine (mlmeApAssocCb_live h).imp_right ?_
        rintro ⟨h₁, h₂, h₃⟩
        simp [ApEvent.associates, hst, h₁, h₂, h₃]
      all_goals exact .inl h

theorem mlmeApTxStatus_answered (s : ApIface α) (t : TxStatus α) (ret : ℤ) :
    (s.mlmeApTxStatus t ret).answered = s.answered := by
  unfold mlmeApTxStatus
  split
  · exact (emit_quiet nofun).answered
  · split
    · exact (emit_quiet nofun).answered
    · split
      · exact (quiet_closed.mlmeApAuthCb ..).answered
      · exact mlmeApAssocCb_answered _ _ _ _
      · exact mlmeApAssocCb_answered _ _ _ _
      · rfl

variable {msecsToJiffies : ℕ → Jiffies} {e : ApEvent α}

/-- How a client comes out of `SKW_STATE_NONE`. -/
theorem step_live (h : s.step msecsToJiffies e = some t) (ha : t.live a = true) :
    s.live a = true ∨ e.opens a = true ∨ e.associates a = true ∨
      e.authFrom a = true ∧ t.lastReply a = true := by
  have hs : ({ s with out := [] } : ApIface α).live a = true → s.live a = true := id
  rcases quiet_closed.handle_cases h with
    ⟨f, r, rfl, rfl⟩ | ⟨f, r, rfl, rfl⟩ | ⟨u, ret, rfl, rfl⟩ | hq
  · rcases quiet_closed.sapRxAuth_cases _ f r with hq | ⟨u, hu, he⟩
    · exact .inl (hs (hq.live a ha))
    · rw [he] at ha ⊢
      rcases mlmeApAuthHandler_live ha with h₁ | h₁ | ⟨h₁, h₂⟩
      · exact .inl (hs (hu.live a h₁))
      · exact .inr (.inl h₁)
      · exact .inr (.inr (.inr ⟨by simpa [ApEvent.authFrom] using h₁, h₂⟩))
  · exact .inl (hs (mlmeApAssocHandler_live ha))
  · rcases mlmeApTxStatus_live ha with h₁ | h₁
    · exact .inl (hs h₁)
    · exact .inr (.inr (.inl h₁))
  · exact .inl (hs (hq.live a ha))

/-- Whom an event answers with success. -/
theorem step_answered (h : s.step msecsToJiffies e = some t) (ha : a ∈ t.answered) :
    ∃ f r, e = .rxAssoc f r ∧ f.sa = a ∧ s.live a = true := by
  have hs : ({ s with out := [] } : ApIface α).answered = [] := rfl
  rcases quiet_closed.handle_cases h with
    ⟨f, r, rfl, rfl⟩ | ⟨f, r, rfl, rfl⟩ | ⟨u, ret, rfl, rfl⟩ | hq
  · rcases quiet_closed.sapRxAuth_cases { s with out := [] } f r with hq | ⟨u, hu, he⟩
    · rw [hq.answered, hs] at ha
      cases ha
    · rw [he, mlmeApAuthHandler_answered, hu.answered, hs] at ha
      cases ha
  · obtain ⟨h₁, h₂⟩ := mlmeApAssocHandler_answered hs ha
    exact ⟨f, r, rfl, h₁.symm, h₂⟩
  · rw [mlmeApTxStatus_answered, hs] at ha
    cases ha
  · rw [hq.answered, hs] at ha
    cases ha

end ApIface

end Skw
