import Skw.Lib.Machine
import Skw.Lib.Allocation
import Skw.Mlme.Watch

/-! The association identifiers of an access point: the bits of its map and the clients that hold
them. A second association of a client takes a new identifier and forgets the old one, and with
a full map the identifier is 64, which the map does not cover. -/
namespace Skw
namespace ApIface
variable {α : Type*} [DecidableEq α]

/-- The identifier of a client; 0 stands for none. -/
def heldAid (s : ApIface α) (a : α) : Option ℕ :=
  (s.clients a).bind fun c => if c.aid = 0 then none else some c.aid.toNat

def usesAid (s : ApIface α) (n : ℕ) : Prop := s.aidMap.getLsbD n = true

/-- No identifier is left. -/
def aidMapFull (s : ApIface α) : Prop := ∀ n ∈ List.range' 1 63, s.usesAid n

/-- The bits of the map are the identifiers of the clients, each of one client, and the map
covers them. -/
structure AidMapExact (s : ApIface α) : Prop where
  allocated : Lib.Allocated s.usesAid s.heldAid
  covered : ∀ a n, s.heldAid a = some n → n < 64

/-- Nobody is told a success, and the map and the clients' states and identifiers stay. -/
structure RefusesAssoc (s t : ApIface α) : Prop where
  answered : t.answered = s.answered
  aidMap : t.aidMap = s.aidMap
  clients : ∀ a, (t.clients a).map (fun c => (c.state, c.aid)) =
    (s.clients a).map fun c => (c.state, c.aid)

/-- The request is neither refused for want of authentication nor dropped as a repetition. -/
def takesUp (s : ApIface α) (f : AssocFrame α) : Bool :=
  (s.clients f.sa).any fun c => c.state ≠ .none && !(f.retry && c.lastSeqCtrl = f.seqCtrl)

/-- A request that is taken up comes from a client without an identifier, and one is left. -/
def RoomForAid (s : ApIface α) : ApEvent α → Prop
  | .rxAssoc f _ => s.takesUp f = true → s.heldAid f.sa = none ∧
    ∃ n ∈ List.range' 1 63, s.aidMap.getLsbD n = false
  | _ => True

instance (s : ApIface α) (e : ApEvent α) : Decidable (RoomForAid s e) :=
  match e with
  | .rxAssoc f _ => inferInstanceAs (Decidable (s.takesUp f = true → s.heldAid f.sa = none ∧
      ∃ n ∈ List.range' 1 63, s.aidMap.getLsbD n = false))
  | .rxAuth .. | .rxLeave .. | .rxOther .. | .txStatus .. | .authTimeout .. | .localEvent ..
  | .delStation .. | .flushSta .. | .addStation .. | .changeStation .. | .saeAccept ..
  | .setMacAcl .. | .aclCheck .. | .eventDelSta .. | .recover .. | .tick .. =>
    inferInstanceAs (Decidable True)

/-- An access point without clients, with any configuration. -/
def initial (bssid : α) (maxStaAllowed : ℕ) (acl : Option (AclData α)) (nAkmSuites : ℕ)
    (skwCookie : BitVec 64) (now : Jiffies) : ApIface α where
  bssid := bssid
  maxStaAllowed := maxStaAllowed
  acl := acl
  nAkmSuites := nAkmSuites
  clients _ := none
  peerCtx _ := none
  aidMap := 0
  skwCookie := skwCookie
  jiffies := now
  authTimeout _ := false
  localEvents := []
  out := []

section
variable {α : Type*} {s t : ApIface α} {a : α}

theorem heldAid_of_clients {c : Client} (hc : s.clients a = some c) :
    s.heldAid a = if c.aid = 0 then none else some c.aid.toNat := by
  rw [heldAid, hc, Option.bind_some]

/-- What is in use is covered. -/
theorem AidMapExact.of_allocated (h : Lib.Allocated s.usesAid s.heldAid) : s.AidMapExact :=
  ⟨h, fun a n ha => BitVec.lt_of_getLsbD ((h.used_iff n).mpr ⟨a, ha⟩)⟩

theorem AidMapExact.congr (h : s.AidMapExact) (hm : t.aidMap = s.aidMap)
    (hh : ∀ a, t.heldAid a = s.heldAid a) : t.AidMapExact := by
  apply AidMapExact.of_allocated
  exact h.allocated.congr (fun n => by rw [usesAid, usesAid, hm]) hh

end

variable {s t : ApIface α} {a : α}

/-- A client is replaced by one with the same identifier. -/
theorem heldAid_update {g : Client → Client} (hg : ∀ c, (g c).aid = c.aid)
    (hc : t.clients = Function.update s.clients a ((s.clients a).map g)) (b : α) :
    t.heldAid b = s.heldAid b := by
  simp only [heldAid, hc]
  rcases eq_or_ne b a with rfl | hne
  · rw [Function.update_self]
    cases s.clients b with
    | none => rfl
    | some c => simp [hg]
  · rw [Function.update_of_ne hne]

theorem heldAid_setClient (s : ApIface α) (a : α) (c : Client) :
    (s.setClient a c).heldAid =
      Function.update s.heldAid a (if c.aid = 0 then none else some c.aid.toNat) := by
  funext b
  rcases eq_or_ne b a with rfl | hne
  · simp [heldAid, setClient]
  · simp [heldAid, setClient, hne]

theorem heldAid_delClient (s : ApIface α) (a : α) :
    (s.mlmeApDelClient a).heldAid = Function.update s.heldAid a none := by
  funext b
  unfold mlmeApDelClient
  cases hc : s.clients a with
  | none =>
    rcases eq_or_ne b a with rfl | hne
    · simp [heldAid, hc]
    · rw [Function.update_of_ne hne]
  | some c =>
    rcases eq_or_ne b a with rfl | hne
    · simp [heldAid]
    · simp [heldAid, hne]

theorem usesAid_delClient (s : ApIface α) (a : α) (n : ℕ) :
    (s.mlmeApDelClient a).usesAid n ↔ s.usesAid n ∧ s.heldAid a ≠ some n := by
  unfold mlmeApDelClient usesAid
  cases hc : s.clients a with
  | none => simp [heldAid, hc]
  | some c =>
    rw [heldAid_of_clients hc]
    dsimp only
    by_cases h0 : c.aid = 0
    · simp [h0]
    · rw [if_neg h0, if_pos h0]
      by_cases hn : c.aid.toNat = n
      · simp [hn, BitVec.getLsbD_twoPow]
      · have hlt := BitVec.lt_of_getLsbD (x := s.aidMap) (i := n)
        simp [hn, BitVec.getLsbD_twoPow]
        exact hlt

theorem AidMapExact.delClient (h : s.AidMapExact) (a : α) : (s.mlmeApDelClient a).AidMapExact := by
  apply AidMapExact.of_allocated
  exact h.allocated.release (usesAid_delClient s a) (heldAid_delClient s a)

omit [DecidableEq α] in
/-- The first free identifier is not in use before, and is the only one that comes into use. -/
theorem mlmeApNewAid_eq (h : ∃ n ∈ List.range' 1 63, s.aidMap.getLsbD n = false) :
    ∃ n, s.mlmeApNewAid.2.toNat = n ∧ 0 < n ∧ ¬ s.usesAid n ∧
      ∀ m, s.mlmeApNewAid.1.usesAid m ↔ s.usesAid m ∨ m = n := by
  obtain ⟨k, hk, hfree⟩ := h
  have hsome : ((List.range' 1 63).find? fun aid => !s.aidMap.getLsbD aid).isSome = true :=
    List.find?_isSome.mpr ⟨k, hk, by simp [hfree]⟩
  obtain ⟨n, hn⟩ := Option.isSome_iff_exists.mp hsome
  have hmem := List.mem_range'_1.mp (List.mem_of_find?_eq_some hn)
  have hfree := List.find?_some hn
  refine ⟨n, ?_, by omega, by simpa [usesAid] using hfree, fun m => ?_⟩
  · rw [mlmeApNewAid, hn]
    exact Nat.mod_eq_of_lt (show n < 65536 by omega)
  · simp only [mlmeApNewAid, hn, usesAid, Option.getD_some, BitVec.getLsbD_or,
      BitVec.getLsbD_twoPow, Bool.or_eq_true, Bool.and_eq_true, decide_eq_true_eq]
    have : n < 64 := by omega
    grind

/-- `AidMapExact` is kept by the changes of which the handlers consist. -/
theorem aidMapExact_closed : Closed fun s t : ApIface α => s.AidMapExact → t.AidMapExact where
  refl _ := id
  trans h h' := h' ∘ h
  same hc hm _ h := h.congr hm fun a => by rw [heldAid, heldAid, hc]
  update _ _ hg hc hm _ h := h.congr hm (heldAid_update (fun c => (hg c).2) hc)
  emit _ _ _ h := h.congr rfl fun _ => rfl
  setState _ a h :=
    h.congr rfl (heldAid_update (a := a) (g := ({ · with state := .none })) (fun _ => rfl) rfl)
  delClient _ a h := h.delClient a
  addClient s a hn h := h.congr rfl fun b => by
    rw [mlmeApAddClient, heldAid_setClient]
    rcases eq_or_ne b a with rfl | hne
    · simp [heldAid, hn]
    · rw [Function.update_of_ne hne]

/-- The checks of an authentication frame leave the identifier. -/
theorem authNext_aid {f : AuthFrame α} {text ies : Option Challenge} {c c' : Client}
    {status : BitVec 16} (h : s.authNext f text c = .reply status c' ies) : c'.aid = c.aid := by
  unfold authNext at h
  cases text with
  | none => split_ifs at h <;> cases h <;> rfl
  | some t => split_ifs at h <;> cases h <;> rfl

/-- A client is replaced by one with the same identifier. -/
theorem AidMapExact.setClient (h : s.AidMapExact) {c c' : Client} (hc : s.clients a = some c)
    (ha : c'.aid = c.aid) : (s.setClient a c').AidMapExact := by
  have hm : (s.setClient a c').aidMap = s.aidMap := rfl
  apply h.congr hm
  intro b
  rw [heldAid_setClient]
  rcases eq_or_ne b a with rfl | hne
  · rw [Function.update_self, heldAid_of_clients hc, ha]
  · rw [Function.update_of_ne hne]

@[simp] theorem clients_changeStation (s : ApIface α) (a : α) (associated authorized : Bool) :
    (s.changeStation a associated authorized).clients = s.clients := by
  unfold changeStation
  split <;> rfl

theorem AidMapExact.authHandler (h : s.AidMapExact) (f : AuthFrame α) (r : AuthEnv) :
    (s.mlmeApAuthHandler f r).AidMapExact := by
  have hu := aidMapExact_closed.authClient s f.sa r h
  unfold mlmeApAuthHandler
  dsimp only
  generalize s.authClient f.sa r = u at hu
  split
  · exact hu
  · next c hc =>
    split
    · exact hu
    · have hnext : ∀ st c' ies,
          u.authNext f r.text { c with lastSeqCtrl := f.seqCtrl, state := .authed } =
            .reply st c' ies → c'.aid = c.aid := fun _ _ _ => authNext_aid
      cases hn : u.authNext f r.text { c with lastSeqCtrl := f.seqCtrl, state := .authed } with
      | drop => exact hu.setClient hc rfl
      | forward => exact aidMapExact_closed.emit _ _ (by simp) (hu.setClient hc rfl)
      | reply status c' ies =>
        have hr := aidMapExact_closed.mlmeApAuthReply (u.setClient f.sa c') f.sa f.bssid f.authAlg
          (f.authTransaction + 1) status ies r.tx (hu.setClient hc (hnext _ _ _ hn))
        unfold authFinish
        dsimp only
        split
        · exact aidMapExact_closed.failed _ _ _ hr
        · exact hr

theorem AidMapExact.txStatus (h : s.AidMapExact) (u : TxStatus α) (ret : ℤ) :
    (s.mlmeApTxStatus u ret).AidMapExact := by
  unfold mlmeApTxStatus
  split
  · exact aidMapExact_closed.emit _ _ nofun h
  · next c hc =>
    have hcb : (s.mlmeApAssocCb u c ret).AidMapExact := by
      unfold mlmeApAssocCb
      dsimp only
      split
      · have hq := aidMapExact_closed.changeStation
          { s with authTimeout := Function.update s.authTimeout u.da false } u.da true false
          (h.congr rfl fun _ => rfl)
        exact AidMapExact.setClient (aidMapExact_closed.emit _ _ nofun hq)
          ((congrFun (clients_changeStation ..) _).trans hc) rfl
      · exact aidMapExact_closed.failed _ _ _ h
    split
    · exact aidMapExact_closed.emit _ _ nofun h
    · split
      · exact aidMapExact_closed.mlmeApAuthCb _ _ _ h
      · exact hcb
      · exact hcb
      · exact h

/-- The map and the identifiers of the clients are the same. -/
def SameAids (s t : ApIface α) : Prop := t.aidMap = s.aidMap ∧ ∀ a, t.heldAid a = s.heldAid a

theorem sameAids_mild : Mild (SameAids (α := α)) where
  refl _ := ⟨rfl, fun _ => rfl⟩
  trans h h' := ⟨h'.1.trans h.1, fun a => (h'.2 a).trans (h.2 a)⟩
  same hc hm _ := ⟨hm, fun a => by rw [heldAid, heldAid, hc]⟩
  update _ _ hg hc hm _ := ⟨hm, heldAid_update (fun c => (hg c).2) hc⟩
  emit _ _ _ := ⟨rfl, fun _ => rfl⟩

/-- What the end of an association request leaves: the client has the new identifier. -/
theorem assocFinish_aids (s : ApIface α) (f : AssocFrame α) (r : AssocEnv) (c : Client)
    (status : BitVec 16) :
    SameAids (s.mlmeApNewAid.1.setClient f.sa { c with aid := s.mlmeApNewAid.2 })
      (s.assocFinish f r c status) := by
  unfold ApIface.assocFinish
  dsimp only
  generalize (if s.mlmeApNewAid.2 = 0 then _ else status) = st
  generalize s.mlmeApNewAid.1.setClient f.sa { c with aid := s.mlmeApNewAid.2 } = u
  have hr : SameAids u (u.mlmeApAssocReply f.sa { c with aid := s.mlmeApNewAid.2 } st
      f.reassoc r.tx).1 := sameAids_mild.mgmtTx u f.sa _ r.tx
  split
  · exact hr
  · exact sameAids_mild.trans hr (sameAids_mild.keepAssocIe ..)

/-- A client without an identifier takes a free one. -/
theorem AidMapExact.assocFinish (h : s.AidMapExact) {f : AssocFrame α} (r : AssocEnv) (c : Client)
    (status : BitVec 16) (hn : s.heldAid f.sa = none)
    (hfree : ∃ n ∈ List.range' 1 63, s.aidMap.getLsbD n = false) :
    (s.assocFinish f r c status).AidMapExact := by
  obtain ⟨n, hn', hpos, hnot, hu⟩ := mlmeApNewAid_eq hfree
  have hne : s.mlmeApNewAid.2 ≠ 0 := by
    intro h0
    rw [h0] at hn'
    exact hpos.ne hn'
  obtain ⟨hm, hh⟩ := assocFinish_aids s f r c status
  refine AidMapExact.congr (AidMapExact.of_allocated ?_) hm hh
  apply h.allocated.take hnot hn hu
  rw [heldAid_setClient, if_neg hne, hn']
  rfl

/-- A second identifier, or one that the map does not cover, breaks the agreement. -/
theorem AidMapExact.not_assocFinish (h : s.AidMapExact) {f : AssocFrame α} (r : AssocEnv)
    (c : Client) (status : BitVec 16)
    (hn : s.heldAid f.sa ≠ none ∨ ∀ n ∈ List.range' 1 63, s.aidMap.getLsbD n = true) :
    ¬ (s.assocFinish f r c status).AidMapExact := by
  intro ht
  obtain ⟨hm, hh⟩ := assocFinish_aids s f r c status
  have hsa := hh f.sa
  rw [heldAid_setClient, Function.update_self] at hsa
  by_cases hfree : ∃ n ∈ List.range' 1 63, s.aidMap.getLsbD n = false
  · -- the old identifier stays in the map
    obtain ⟨n, hn', hpos, hnot, hu⟩ := mlmeApNewAid_eq hfree
    have hheld : s.heldAid f.sa ≠ none := hn.resolve_right fun hall => by
      obtain ⟨k, hk, hk'⟩ := hfree
      rw [hall k hk] at hk'
      cases hk'
    obtain ⟨m, hmm⟩ := Option.ne_none_iff_exists'.mp hheld
    have hused : (s.assocFinish f r c status).usesAid m := by
      rw [usesAid, hm]
      exact (hu m).mpr (.inl ((h.allocated.used_iff m).mpr ⟨f.sa, hmm⟩))
    obtain ⟨b, hb⟩ := (ht.allocated.used_iff m).mp hused
    have hmn : m ≠ n := fun he => hnot (he ▸ (h.allocated.used_iff m).mpr ⟨f.sa, hmm⟩)
    by_cases hbs : b = f.sa
    · rw [hbs, hsa] at hb
      split at hb
      · cases hb
      · exact hmn ((Option.some.inj hb).symm.trans hn')
    · rw [hh, heldAid_setClient, Function.update_of_ne hbs] at hb
      exact hbs (h.allocated.inj b f.sa m hb hmm)
  · -- the identifier is 64
    have hnone : ((List.range' 1 63).find? fun aid => !s.aidMap.getLsbD aid) = none := by
      rw [List.find?_eq_none]
      intro k hk hk'
      exact hfree ⟨k, hk, by simpa using hk'⟩
    have haid : s.mlmeApNewAid.2 = 64 := by rw [mlmeApNewAid, hnone]; rfl
    have h64 : (64 : BitVec 16) ≠ 0 := by decide
    rw [haid, if_neg h64] at hsa
    have hlt : 64 < 64 := ht.covered _ _ hsa
    exact lt_irrefl _ hlt

omit [DecidableEq α] in
theorem takesUp_of {f : AssocFrame α} {c : Client} (hc : s.clients f.sa = some c)
    (h₁ : c.state ≠ .none) (h₂ : ¬(f.retry && c.lastSeqCtrl = f.seqCtrl) = true) :
    s.takesUp f = true := by
  have h₂ := Bool.eq_false_of_not_eq_true h₂
  rw [takesUp, hc, Option.any_some, h₂]
  simp [h₁]

theorem AidMapExact.assocHandler (h : s.AidMapExact) (f : AssocFrame α) (r : AssocEnv)
    (hg : s.RoomForAid (.rxAssoc f r)) : (s.mlmeApAssocHandler f r).AidMapExact := by
  unfold mlmeApAssocHandler
  split
  · exact h
  · next c hc =>
    dsimp only
    split_ifs with h₁ h₂
    · exact aidMapExact_closed.apSimpleReply _ _ _ _ _ h
    · exact h
    · exact aidMapExact_closed.apSimpleReply _ _ _ _ _ (h.setClient hc rfl)
    · obtain ⟨hn, hfree⟩ := hg (takesUp_of hc h₁ h₂)
      exact h.assocFinish r _ _ hn hfree

/-- The condition is exact: any other request that is taken up breaks the agreement. -/
theorem AidMapExact.assocHandler_iff (h : s.AidMapExact) (f : AssocFrame α) (r : AssocEnv) :
    (s.mlmeApAssocHandler f r).AidMapExact ↔ s.RoomForAid (.rxAssoc f r) := by
  refine ⟨fun ht hup => ?_, h.assocHandler f r⟩
  by_contra hg
  unfold mlmeApAssocHandler at ht
  cases hc : s.clients f.sa with
  | none => simp [takesUp, hc] at hup
  | some c =>
    rw [hc] at ht
    have hup' := hup
    rw [takesUp, hc, Option.any_some, Bool.and_eq_true, decide_eq_true_eq,
      Bool.not_eq_true'] at hup'
    dsimp only at ht
    rw [if_neg hup'.1, hup'.2] at ht
    refine h.not_assocFinish r _ _ ?_ ht
    by_cases hn : s.heldAid f.sa = none
    · right
      intro n hmem
      by_contra hfree
      exact hg ⟨hn, n, hmem, Bool.eq_false_of_not_eq_true hfree⟩
    · exact .inl hn

variable {msecsToJiffies : ℕ → Jiffies} {e : ApEvent α}

theorem AidMapExact.step (h : s.AidMapExact) (hg : s.RoomForAid e)
    (hs : step msecsToJiffies s e = some t) : t.AidMapExact := by
  have h : ({ s with out := [] } : ApIface α).AidMapExact := h.congr rfl fun _ => rfl
  rcases aidMapExact_closed.handle_cases hs with ⟨f, r, rfl, rfl⟩ | ⟨f, r, rfl, rfl⟩ |
    ⟨u, ret, rfl, rfl⟩ | hq
  · rcases aidMapExact_closed.sapRxAuth_cases { s with out := [] } f r with hq | ⟨u, hu, he⟩
    · exact hq h
    · rw [he]
      exact (hu h).authHandler f r
  · exact h.assocHandler f r hg
  · exact h.txStatus u ret
  · exact hq h

theorem refusesAssoc_mild : Mild (RefusesAssoc (α := α)) where
  refl _ := ⟨rfl, rfl, fun _ => rfl⟩
  trans h h' := ⟨h'.answered.trans h.answered, h'.aidMap.trans h.aidMap,
    fun a => (h'.clients a).trans (h.clients a)⟩
  same hc hm ho := ⟨(quiet_of_same hc ho).answered, hm, fun a => by rw [hc]⟩
  update a g hg hc hm ho := by
    refine ⟨(quiet_update (fun c => (hg c).1) hc ho).answered, hm, fun b => ?_⟩
    rw [hc]
    rcases eq_or_ne b a with rfl | hne
    · rw [Function.update_self, Option.map_map]
      congr 1
      funext c
      simp [hg c]
    · rw [Function.update_of_ne hne]
  emit s o ho := ⟨(emit_quiet ho).answered, rfl, fun _ => rfl⟩

/-- A request that is not taken up changes neither the map nor the clients' identifiers. -/
theorem refusesAssoc_of_not_takesUp {f : AssocFrame α} (r : AssocEnv)
    (hn : s.takesUp f = false) : s.RefusesAssoc (s.mlmeApAssocHandler f r) := by
  unfold mlmeApAssocHandler
  split
  · exact refusesAssoc_mild.refl s
  · next c hc =>
    dsimp only
    split_ifs with h₁ h₂
    · exact refusesAssoc_mild.apSimpleReply ..
    · exact refusesAssoc_mild.refl s
    all_goals
      rw [takesUp_of hc h₁ h₂] at hn
      cases hn

/-- In runs that take up an association request only from a client without an identifier while
one is left, the map and the clients agree, and a request that meets a full map is refused. -/
theorem aidMap_of_roomForAid (msecsToJiffies : ℕ → Jiffies) (bssid : α) (maxStaAllowed : ℕ)
    (acl : Option (AclData α)) (nAkmSuites : ℕ) (skwCookie : BitVec 64) (now : Jiffies)
    (s : ApIface α) (h : Lib.Reach (ApIface.step msecsToJiffies) RoomForAid
      (initial bssid maxStaAllowed acl nAkmSuites skwCookie now) s) :
    s.AidMapExact ∧ ∀ f r t, s.RoomForAid (.rxAssoc f r) → s.aidMapFull →
      s.step msecsToJiffies (.rxAssoc f r) = some t → { s with out := [] }.RefusesAssoc t := by
  have hi : (initial bssid maxStaAllowed acl nAkmSuites skwCookie now).AidMapExact := by
    apply AidMapExact.of_allocated
    constructor
    · intro n
      simp [usesAid, initial, heldAid]
    · intro a b n ha
      cases ha
  refine ⟨h.invariant hi fun _ _ _ h hg hs => h.step hg hs, fun f r t hg hfull hs => ?_⟩
  cases Option.some.inj hs
  apply refusesAssoc_of_not_takesUp
  apply Bool.eq_false_of_not_eq_true
  intro ht
  obtain ⟨-, n, hn, hfree⟩ := hg ht
  have hused := hfull n hn
  rw [usesAid, hfree] at hused
  cases hused

/-- Two stations associate, and the first one leaves. -/
theorem aidMap_of_roomForAid_leave :
    ∃ s : ApIface ℕ, Lib.Reach (step (BitVec.ofNat 64)) RoomForAid
      (initial 100 8 none 0 0 0) s ∧ s.aidMap = 4 ∧ s.AidMapExact := by
  let auth (a : ℕ) (idx : ℕ) : ApEvent ℕ :=
    .rxAuth ⟨a, 100, false, 7, 0, 1, 0, 0⟩ ⟨true, ⟨true, 0, idx⟩, some 5, .xmit 0, 0⟩
  let assoc (a : ℕ) : ApEvent ℕ := .rxAssoc ⟨a, false, false, 8, 0x11, []⟩ ⟨.xmit 0, true⟩
  obtain ⟨s, hs, hp⟩ := Lib.exists_reach_of_exec (step (BitVec.ofNat 64)) RoomForAid
    (initial 100 8 none 0 0 0 : ApIface ℕ)
    [auth 1 0, assoc 1, auth 2 1, assoc 2, .delStation 1 12 3 0] (fun s => s.aidMap == 4)
    (by decide +kernel)
  exact ⟨s, hs, beq_iff_eq.mp hp, (aidMap_of_roomForAid (BitVec.ofNat 64) 100 8 none 0 0 0 s hs).1⟩

/-- A station that associates twice keeps two bits of the map and one identifier. -/
theorem reassoc_not_aidMapExact :
    ¬ ∀ s : ApIface ℕ, Lib.Reach (step (BitVec.ofNat 64)) Lib.Free
      (initial 100 8 none 0 0 0) s → s.AidMapExact := by
  intro h
  obtain ⟨s, hs, hp⟩ := Lib.exists_reach_of_exec (step (BitVec.ofNat 64)) Lib.Free
    (initial 100 8 none 0 0 0 : ApIface ℕ)
    [.rxAuth ⟨1, 100, false, 7, 0, 1, 0, 0⟩ ⟨true, ⟨true, 0, 0⟩, some 5, .xmit 0, 0⟩,
      .rxAssoc ⟨1, false, false, 8, 0x11, []⟩ ⟨.xmit 0, true⟩]
    (fun s => s.heldAid 1 == some 1 && s.takesUp ⟨1, true, false, 9, 0x11, []⟩) (by decide +kernel)
  simp only [Bool.and_eq_true, beq_iff_eq] at hp
  have hu : ({ s with out := [] } : ApIface ℕ).AidMapExact := (h s hs).congr rfl fun _ => rfl
  have ht := h _ (.next hs (e := .rxAssoc ⟨1, true, false, 9, 0x11, []⟩ ⟨.xmit 0, true⟩) trivial rfl)
  obtain ⟨hn, -⟩ := (hu.assocHandler_iff ⟨1, true, false, 9, 0x11, []⟩ ⟨.xmit 0, true⟩).mp ht hp.2
  have hn : s.heldAid 1 = none := hn
  rw [hp.1] at hn
  cases hn

end ApIface
end Skw
