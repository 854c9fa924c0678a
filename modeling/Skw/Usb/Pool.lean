import Skw.Usb.Bulkout
import Skw.Lib.Placed

/-! The pool of transmit URBs. Every URB is in one place, and every accepted submission leads to
its own callback, as long as no caller that has waited finds the list empty again and the callback
for the kind of each submission is registered when it completes. -/
namespace Skw

/-- Where a URB may be. A URB that the USB core gives back is submitted until it is back in the
list. -/
inductive TxPlace
  | txUrbList
  | submitted
  | hand (k : ℕ)
deriving DecidableEq

namespace UsbTx

def At (s : UsbTx) (u : ℕ) : TxPlace → Prop
  | .txUrbList => u ∈ s.txUrbList
  | .submitted => s.hcd u ≠ .idle
  | .hand k => (s.caller k).hand = some u

/-- A submission that has not been completed. -/
def Pending (s : UsbTx) (j : ℕ) : Prop := ∃ u, s.hcd u = .submitted j

/-- What is promised of the pool in every state. -/
structure Pooled (s : UsbTx) : Prop where
  placed : Lib.Placed (· < s.urbCount) s.At
  nodup : s.txUrbList.Nodup
  notEmpty : ∀ k, ¬ (s.caller k).HasNoUrb
  count : s.txUrbCount = {u | ∃ p, p ≠ .txUrbList ∧ s.At u p}.ncard
  pending : ∀ j, s.Pending j → s.callbacks j = []
  answered : ∀ j r, s.submissions[j]? = some r → ¬ s.Pending j →
    ∃ status, s.callbacks j = [r.callback status]

/-- The callback for the kind of a request is registered. -/
def Answers (s : UsbTx) : TxReq → Prop
  | .buffer b _ => b ≠ 0 ∧ s.sdmaTxCallback
  | .sg sgs _ _ => sgs ≠ 0 ∧ s.admaTxCallback

instance (s : UsbTx) (r : TxReq) : Decidable (s.Answers r) :=
  match r with
  | .buffer .. | .sg .. => inferInstanceAs (Decidable (_ ∧ _))

/-- The request that a URB was submitted for. -/
def request (s : UsbTx) (u : ℕ) : Option TxReq :=
  match s.hcd u with
  | .submitted j => s.submissions[j]?
  | _ => none

/-- A caller that has waited finds the list not empty, and what is given back has its callback. -/
def Sound (s : UsbTx) : UsbTxEvent → Prop
  | .relock _ => s.state ≠ 0 → s.txUrbList ≠ []
  | .giveBack u _ => ∀ r ∈ s.request u, s.Answers r
  | _ => True

instance (s : UsbTx) (e : UsbTxEvent) : Decidable (s.Sound e) :=
  match e with
  | .relock _ => inferInstanceAs (Decidable (_ → _))
  | .giveBack u _ => inferInstanceAs (Decidable (∀ r ∈ s.request u, _))
  | .call .. | .lock _ | .wake .. | .submit .. | .putBack _ | .completed _ | .setState _
  | .setSuspend _ | .registerTxCallback _ => inferInstanceAs (Decidable True)

/-- What a filled URB has of its request. -/
def Carries (urb : TxUrb) : TxReq → Prop
  | .buffer b size => urb.transferBuffer = b ∧ urb.transferBufferLength = size
  | .sg sgs sgNum _ => urb.sg = sgs ∧ urb.numSgs = sgNum

theorem carries_fill (urb : TxUrb) (r : TxReq) : Carries (fill urb r) r := by
  cases r <;> exact ⟨rfl, rfl⟩

/-- Where the URBs are. -/
structure Places (s : UsbTx) : Prop where
  placed : Lib.Placed (· < s.urbCount) s.At
  nodup : s.txUrbList.Nodup
  notEmpty : ∀ k, ¬ (s.caller k).HasNoUrb
  count : s.txUrbCount + s.txUrbList.length = s.urbCount

/-- What the URBs that are submitted stand for. -/
structure Flights (s : UsbTx) : Prop where
  kinds : (s.sdmaTxCallback → s.txSdma) ∧ (s.admaTxCallback → s.txSdma = false)
  carried : ∀ u j, s.hcd u = .submitted j → ∃ r, s.submissions[j]? = some r ∧ Carries (s.urb u) r
  inj : ∀ u v j, s.hcd u = .submitted j → s.hcd v = .submitted j → u = v
  unanswered : ∀ j, s.Pending j ∨ s.submissions.length ≤ j → s.callbacks j = []
  answered : ∀ j r, s.submissions[j]? = some r → ¬ s.Pending j →
    ∃ status, s.callbacks j = [r.callback status]

structure Inv (s : UsbTx) : Prop extends Places s, Flights s

theorem Inv.pooled {s : UsbTx} (h : s.Inv) : s.Pooled where
  placed := h.placed
  nodup := h.nodup
  notEmpty := h.notEmpty
  count := by
    have hn := h.placed.ncard_add_length h.nodup (p := .txUrbList) fun i => Iff.rfl
    have hc := h.count
    omega
  pending j hj := h.unanswered j (.inl hj)
  answered := h.answered

variable {s t : UsbTx} {u j k : ℕ} {r : TxReq} {c : TxCaller} {urb : Option ℕ} {l : List ℕ}

/-- Steps that move no URB. -/
theorem Places.congr (h : s.Places) (hu : t.urbCount = s.urbCount) (hl : t.txUrbList = s.txUrbList)
    (hn : t.txUrbCount = s.txUrbCount) (hh : ∀ u, t.hcd u ≠ .idle ↔ s.hcd u ≠ .idle)
    (hc : ∀ k, (t.caller k).hand = (s.caller k).hand)
    (he : ∀ k, ¬ (t.caller k).HasNoUrb) : t.Places where
  placed := by
    rw [hu]
    apply h.placed.congr
    intro u p
    cases p with
    | txUrbList => exact iff_of_eq (congrArg (u ∈ ·) hl)
    | submitted => exact hh u
    | hand k => exact iff_of_eq (congrArg (· = some u) (hc k))
  nodup := hl ▸ h.nodup
  notEmpty := he
  count := by
    rw [hn, hl, hu]
    exact h.count

theorem at_hand : s.At j (.hand k) ↔ (s.caller k).hand = some j := Iff.rfl

theorem notEmpty_update {f : ℕ → TxCaller} (h : ∀ k, ¬ (f k).HasNoUrb) (hc : ¬ c.HasNoUrb) (i : ℕ) :
    ¬ (Function.update f k c i).HasNoUrb := by
  by_cases hi : i = k
  · subst hi
    rw [Function.update_self]
    exact hc
  · rw [Function.update_of_ne hi]
    exact h i

/-- A caller goes on with the same hand. -/
theorem Places.setCaller (h : s.Places) (hh : c.hand = (s.caller k).hand) (hc : ¬ c.HasNoUrb) :
    (s.setCaller k c).Places := by
  exact h.congr rfl rfl rfl (fun _ => Iff.rfl) (Lib.hand_keep TxCaller.hand hh)
    (notEmpty_update h.notEmpty hc)

/-- The first URB goes from the list to a hand. -/
theorem Places.take (h : s.Places) (hk : (s.caller k).hand = none) (hl : s.txUrbList = u :: l) :
    (s.take k r (some u) l).Places := by
  have hc := h.count
  have hnodup := h.nodup
  have hin : u ∈ s.txUrbList := hl ▸ List.mem_cons_self
  rw [hl, List.length_cons] at hc
  rw [hl, List.nodup_cons] at hnodup
  refine ⟨h.placed.move (p := .txUrbList) (q := .hand k) hin (by simp) (fun j => ?_) (fun j => ?_)
    fun p hp hq j => ?_, hnodup.2, notEmpty_update h.notEmpty id, ?_⟩
  · exact Lib.mem_pop h.nodup hl j
  · exact Lib.hand_take TxCaller.hand hk rfl j
  · cases p with
    | txUrbList => exact absurd rfl hp
    | submitted => exact Iff.rfl
    | hand i => exact Lib.hand_of_ne TxCaller.hand (fun hi => hq (congrArg TxPlace.hand hi)) j
  · change s.txUrbCount + 1 + (l.length : ℤ) = s.urbCount
    omega

/-- A URB that is at no other place goes to the end of the list. -/
theorem nodup_append (h : s.Places) {p : TxPlace} (hp : s.At u p) (hl : p ≠ .txUrbList) :
    (s.txUrbList ++ [u]).Nodup :=
  Lib.nodup_push h.nodup fun hm => hl (h.placed.eq hp hm)

/-- After a failed submission the URB goes back from the hand to the list. -/
theorem Places.putBack (h : s.Places) (hk : s.caller k = .failed urb) :
    (s.putBack k urb).Places := by
  cases urb with
  | none =>
    have hbad := h.notEmpty k
    rw [hk] at hbad
    exact absurd trivial hbad
  | some u =>
    have hat : s.At u (.hand k) := by
      rw [at_hand, hk]
      rfl
    have hc := h.count
    refine ⟨h.placed.move hat (q := .txUrbList) (by simp) (fun j => ?_) (fun j => ?_)
      fun p hp hq j => ?_, nodup_append h hat (by simp), notEmpty_update h.notEmpty id, ?_⟩
    · exact Lib.hand_leave TxCaller.hand hat rfl j
    · exact Lib.mem_push s.txUrbList u _
    · cases p with
      | txUrbList => exact absurd rfl hq
      | submitted => exact Iff.rfl
      | hand i => exact Lib.hand_of_ne TxCaller.hand (fun hi => hp (congrArg TxPlace.hand hi)) j
    · change s.txUrbCount - 1 + ((s.txUrbList ++ [u]).length : ℤ) = s.urbCount
      rw [List.length_append, List.length_singleton]
      push_cast
      omega

/-- The core accepts the URB in a hand. -/
theorem Places.submit (h : s.Places) (hk : s.caller k = .holding r (some u)) :
    (s.submit k r u).Places := by
  have hat : s.At u (.hand k) := by
    rw [at_hand, hk]
    rfl
  refine ⟨h.placed.move hat (q := .submitted) (by simp) (fun j => ?_) (fun j => ?_)
    fun p hp hq j => ?_, h.nodup, notEmpty_update h.notEmpty id, h.count⟩
  · exact Lib.hand_leave TxCaller.hand hat rfl j
  · change Function.update s.hcd u _ j ≠ _ ↔ j = u ∨ s.hcd j ≠ _
    by_cases hj : j = u
    · rw [hj, Function.update_self]
      simp
    · rw [Function.update_of_ne hj]
      exact (or_iff_right hj).symm
  · cases p with
    | txUrbList => exact Iff.rfl
    | submitted => exact absurd rfl hq
    | hand i => exact Lib.hand_of_ne TxCaller.hand (fun hi => hp (congrArg TxPlace.hand hi)) j

/-- A completed URB goes back to the list. -/
theorem Places.completed (h : s.Places) (hu : s.hcd u = .given j) : (s.completed u).Places := by
  have hat : s.At u .submitted := by
    have hne : s.hcd u ≠ .idle := by simp [hu]
    exact hne
  have hc := h.count
  refine ⟨h.placed.move hat (q := .txUrbList) (by simp) (fun i => ?_) (fun i => ?_)
    fun p hp hq i => ?_, nodup_append h hat (by simp), h.notEmpty, ?_⟩
  · change Function.update s.hcd u _ i ≠ _ ↔ i ≠ u ∧ s.hcd i ≠ _
    by_cases hi : i = u
    · rw [hi, Function.update_self]
      simp
    · rw [Function.update_of_ne hi]
      exact (and_iff_right hi).symm
  · exact Lib.mem_push s.txUrbList u _
  · cases p with
    | txUrbList => exact absurd rfl hq
    | submitted => exact absurd rfl hp
    | hand i => exact Iff.rfl
  · change s.txUrbCount - 1 + ((s.txUrbList ++ [u]).length : ℤ) = s.urbCount
    rw [List.length_append, List.length_singleton]
    push_cast
    omega

/-- Steps that leave alone what is submitted. -/
theorem Flights.congr (h : s.Flights)
    (hh : ∀ u j, t.hcd u = .submitted j ↔ s.hcd u = .submitted j)
    (hu : ∀ u j, s.hcd u = .submitted j → t.urb u = s.urb u)
    (hs : t.submissions = s.submissions) (hc : t.callbacks = s.callbacks)
    (hk : (t.sdmaTxCallback → t.txSdma) ∧ (t.admaTxCallback → t.txSdma = false)) :
    t.Flights := by
  have hpend : ∀ j, t.Pending j ↔ s.Pending j := fun j => exists_congr fun u => hh u j
  refine ⟨hk, fun u j hj => ?_, fun u v j hj hv => ?_, fun j hj => ?_, fun j r hr hj => ?_⟩
  · rw [hh] at hj
    rw [hs, hu u j hj]
    exact h.carried u j hj
  · exact h.inj u v j ((hh u j).mp hj) ((hh v j).mp hv)
  · rw [hpend, hs] at hj
    rw [hc]
    exact h.unanswered j hj
  · rw [hs] at hr
    rw [hpend] at hj
    rw [hc]
    exact h.answered j r hr hj

/-- Steps of the callers before their submission. -/
theorem Flights.of_eq (h : s.Flights) (hh : t.hcd = s.hcd) (hu : t.urb = s.urb)
    (hs : t.submissions = s.submissions) (hc : t.callbacks = s.callbacks)
    (hk : (t.sdmaTxCallback → t.txSdma) ∧ (t.admaTxCallback → t.txSdma = false)) : t.Flights :=
  h.congr (fun _ _ => by rw [hh]) (fun _ _ _ => by rw [hu]) hs hc hk

theorem submitted_update {h : TxHcd} {v : ℕ} {i : ℕ} :
    Function.update s.hcd u h v = .submitted i ↔
      v = u ∧ h = .submitted i ∨ v ≠ u ∧ s.hcd v = .submitted i := by
  by_cases hv : v = u
  · subst hv
    simp
  · simp [hv]

/-- A new submission. -/
theorem Flights.submit (h : s.Flights) (hu : s.hcd u = .idle) : (s.submit k r u).Flights := by
  have hlt : ∀ v i, s.hcd v = .submitted i → i < s.submissions.length := by
    intro v i hv
    obtain ⟨r', hr', -⟩ := h.carried v i hv
    exact (List.getElem?_eq_some_iff.mp hr').1
  have hold : ∀ v i, s.hcd v = .submitted i → v ≠ u := by
    rintro v i hv rfl
    cases hu.symm.trans hv
  have hsub : (s.submit k r u).submissions = s.submissions ++ [r] := rfl
  have hpend : ∀ i, (s.submit k r u).Pending i ↔ s.Pending i ∨ i = s.submissions.length := by
    intro i
    constructor
    · rintro ⟨v, hv⟩
      rcases submitted_update.mp hv with ⟨-, hi⟩ | ⟨-, hi⟩
      · cases hi
        exact .inr rfl
      · exact .inl ⟨v, hi⟩
    · rintro (⟨v, hv⟩ | rfl)
      · exact ⟨v, submitted_update.mpr (.inr ⟨hold v i hv, hv⟩)⟩
      · exact ⟨u, submitted_update.mpr (.inl ⟨rfl, rfl⟩)⟩
  refine ⟨h.kinds, fun v i hv => ?_, fun v w i hv hw => ?_, fun i hi => ?_, fun i r' hr' hi => ?_⟩
  · rw [hsub]
    rcases submitted_update.mp hv with ⟨rfl, hi⟩ | ⟨hne, hi⟩
    · cases hi
      refine ⟨r, List.getElem?_concat_length, ?_⟩
      change Carries (Function.update s.urb v (fill (s.urb v) r) v) r
      rw [Function.update_self]
      exact carries_fill _ r
    · obtain ⟨r', hr', hc⟩ := h.carried v i hi
      refine ⟨r', ?_, ?_⟩
      · rw [List.getElem?_append_left (hlt v i hi)]
        exact hr'
      · change Carries (Function.update s.urb u (fill (s.urb u) r) v) r'
        rw [Function.update_of_ne hne]
        exact hc
  · rcases submitted_update.mp hv with ⟨rfl, hi⟩ | ⟨-, hi⟩ <;>
      rcases submitted_update.mp hw with ⟨rfl, hj⟩ | ⟨-, hj⟩
    · rfl
    · cases hi
      exact absurd (hlt w _ hj) (Nat.lt_irrefl _)
    · cases hj
      exact absurd (hlt v _ hi) (Nat.lt_irrefl _)
    · exact h.inj v w i hi hj
  · rw [hpend, hsub, List.length_append, List.length_singleton] at hi
    apply h.unanswered
    rcases hi with (hi | hi) | hi
    · exact .inl hi
    · exact .inr hi.ge
    · exact .inr (by omega)
  · rw [hpend, not_or] at hi
    have hne : i ≠ s.submissions.length := hi.2
    rw [hsub] at hr'
    have hlen := (List.getElem?_eq_some_iff.mp hr').1
    rw [List.length_append, List.length_singleton] at hlen
    rw [List.getElem?_append_left (by omega)] at hr'
    exact h.answered i r' hr' hi.1

/-- What is called for a URB that carries a request whose callback is registered. -/
theorem callbackOf_of_carries (h : s.Flights) {urb : TxUrb} (hc : Carries urb r) (ha : s.Answers r)
    (status : ℤ) : s.callbackOf urb status = some (r.callback status) := by
  unfold callbackOf
  cases r with
  | buffer b size =>
    obtain ⟨rfl, rfl⟩ := hc
    -- both kinds are never registered at once, so what an earlier use left in `sg` is not called
    have hadma : ¬ (urb.sg ≠ 0 ∧ s.admaTxCallback) := by
      rintro ⟨-, hadma⟩
      have hsdma := h.kinds.1 ha.2
      rw [h.kinds.2 hadma] at hsdma
      cases hsdma
    have ha : urb.transferBuffer ≠ 0 ∧ s.sdmaTxCallback := ha
    rw [if_neg hadma, if_pos ha]
    rfl
  | sg sgs sgNum total =>
    obtain ⟨rfl, rfl⟩ := hc
    have ha : urb.sg ≠ 0 ∧ s.admaTxCallback := ha
    rw [if_pos ha]
    rfl

/-- The callback of a submission. -/
theorem Flights.giveBack (h : s.Flights) (hu : s.hcd u = .submitted j) (status : ℤ)
    (ha : ∀ r, s.submissions[j]? = some r → s.Answers r) : (s.giveBack u j status).Flights := by
  obtain ⟨r, hr, hc⟩ := h.carried u j hu
  have hcb : (s.giveBack u j status).callbacks =
      Function.update s.callbacks j [r.callback status] := by
    have hnone := h.unanswered j (.inl ⟨u, hu⟩)
    change Function.update s.callbacks j _ = _
    rw [hnone, callbackOf_of_carries h hc (ha r hr)]
    rfl
  have hold : ∀ v i, (s.giveBack u j status).hcd v = .submitted i ↔
      v ≠ u ∧ s.hcd v = .submitted i := by
    intro v i
    refine submitted_update.trans (or_iff_right ?_)
    rintro ⟨-, hi⟩
    cases hi
  have hpend : ∀ i, i ≠ j → ((s.giveBack u j status).Pending i ↔ s.Pending i) := by
    intro i hi
    apply exists_congr
    intro v
    refine (hold v i).trans (and_iff_right_of_imp ?_)
    rintro hv rfl
    cases hu.symm.trans hv
    exact hi rfl
  have hdone : ¬ (s.giveBack u j status).Pending j := by
    rintro ⟨v, hv⟩
    obtain ⟨hne, hv⟩ := (hold v j).mp hv
    exact hne (h.inj v u j hv hu)
  refine ⟨h.kinds, fun v i hv => h.carried v i ((hold v i).mp hv).2,
    fun v w i hv hw => h.inj v w i ((hold v i).mp hv).2 ((hold w i).mp hw).2, fun i hi => ?_,
    fun i r' hr' hi => ?_⟩
  · have hne : i ≠ j := by
      rintro rfl
      have hlen := (List.getElem?_eq_some_iff.mp hr).1
      exact hi.elim hdone (Nat.not_le.mpr hlen)
    rw [hcb, Function.update_of_ne hne]
    rw [hpend i hne] at hi
    exact h.unanswered i hi
  · rw [hcb]
    by_cases hij : i = j
    · subst hij
      cases hr.symm.trans hr'
      exact ⟨status, Function.update_self ..⟩
    · rw [Function.update_of_ne hij]
      rw [hpend i hij] at hi
      exact h.answered i r' hr' hi

/-- What is in a hand is not submitted. -/
theorem idle_of_hand (h : s.Places) (hk : s.At u (.hand k)) : s.hcd u = .idle := by
  by_contra hne
  have hsub : s.At u .submitted := hne
  cases h.placed.eq hk hsub

theorem Inv.setCaller (h : s.Inv) (hh : c.hand = (s.caller k).hand) (hc : ¬ c.HasNoUrb) :
    (s.setCaller k c).Inv :=
  ⟨h.toPlaces.setCaller hh hc, h.toFlights.of_eq rfl rfl rfl rfl h.kinds⟩

/-- The section that takes a URB, when the list is not empty. -/
theorem Inv.takeFirst (h : s.Inv) (hk : (s.caller k).hand = none)
    (hl : s.state ≠ 0 → s.txUrbList ≠ []) : (s.takeFirst k r).Inv := by
  unfold UsbTx.takeFirst
  split_ifs with hstate
  · exact h.setCaller hk.symm id
  · split
    · next hnil => exact absurd hnil (hl hstate)
    · next u l hcons =>
      exact ⟨h.toPlaces.take hk hcons, h.toFlights.of_eq rfl rfl rfl rfl h.kinds⟩

theorem Inv.submitStep (h : s.Inv) {err : ℤ} (hs : s.submitStep k err = some t) : t.Inv := by
  unfold UsbTx.submitStep at hs
  split at hs
  · next r u hk =>
    have hat : s.At u (.hand k) := by
      rw [at_hand, hk]
      rfl
    have hidle := idle_of_hand h.toPlaces hat
    split_ifs at hs
    · cases hs
      have hset := h.setCaller (c := .failed (some u)) hat.symm id
      refine ⟨hset.toPlaces.congr rfl rfl rfl (fun _ => Iff.rfl) (fun _ => rfl) hset.notEmpty, ?_⟩
      refine h.toFlights.congr (fun _ _ => Iff.rfl) (fun v i hv => ?_) rfl rfl h.kinds
      apply Function.update_of_ne
      rintro rfl
      cases hidle.symm.trans hv
    · cases hs
      exact ⟨h.toPlaces.submit hk, h.toFlights.submit hidle⟩
  · next r hk =>
    have hbad := h.notEmpty k
    rw [hk] at hbad
    exact absurd trivial hbad
  · cases hs

theorem Inv.completed (h : s.Inv) (hu : s.hcd u = .given j) : (s.completed u).Inv := by
  refine ⟨h.toPlaces.completed hu, ?_⟩
  refine h.toFlights.congr (fun v i => ?_) (fun _ _ _ => rfl) rfl rfl h.kinds
  refine submitted_update.trans ?_
  constructor
  · rintro (⟨-, hi⟩ | ⟨-, hi⟩)
    · cases hi
    · exact hi
  · intro hi
    refine .inr ⟨?_, hi⟩
    rintro rfl
    cases hu.symm.trans hi

theorem Inv.giveBack (h : s.Inv) (hu : s.hcd u = .submitted j) {status : ℤ}
    (hg : s.Sound (.giveBack u status)) : (s.giveBack u j status).Inv := by
  have hreq : s.request u = s.submissions[j]? := by
    unfold request
    rw [hu]
  refine ⟨h.toPlaces.congr rfl rfl rfl (fun v => ?_) (fun _ => rfl) h.notEmpty,
    h.toFlights.giveBack hu status fun r hr => hg r (hreq.trans hr)⟩
  change Function.update s.hcd u _ v ≠ _ ↔ s.hcd v ≠ _
  by_cases hv : v = u
  · rw [hv, Function.update_self, hu]
    simp
  · rw [Function.update_of_ne hv]

theorem Inv.registerTxCallback (h : s.Inv) (func : Bool) : (s.registerTxCallback func).Inv := by
  unfold UsbTx.registerTxCallback
  split_ifs with hasyn hsdma
  · exact ⟨h.toPlaces.congr rfl rfl rfl (fun _ => Iff.rfl) (fun _ => rfl) h.notEmpty,
      h.toFlights.of_eq rfl rfl rfl rfl ⟨fun _ => hsdma, h.kinds.2⟩⟩
  · exact ⟨h.toPlaces.congr rfl rfl rfl (fun _ => Iff.rfl) (fun _ => rfl) h.notEmpty,
      h.toFlights.of_eq rfl rfl rfl rfl ⟨h.kinds.1, fun _ => Bool.eq_false_iff.mpr hsdma⟩⟩
  · exact h

theorem Inv.step (h : s.Inv) {e : UsbTxEvent} (hg : s.Sound e) (hs : s.step e = some t) :
    t.Inv := by
  cases e with
  | call k r =>
    simp only [UsbTx.step] at hs
    split_ifs at hs with hk
    cases hs
    unfold call
    split
    · split_ifs
      · exact h
      · exact h.setCaller (by rw [hk]; rfl) id
    · exact h.setCaller (by rw [hk]; rfl) id
  | lock k =>
    simp only [UsbTx.step] at hs
    split at hs
    · next r hk =>
      cases hs
      have hhand : (s.caller k).hand = none := by
        rw [hk]
        rfl
      unfold lock
      split_ifs with hl
      · exact h.setCaller hhand.symm id
      · exact h.takeFirst hhand fun _ => hl
    · cases hs
  | wake k interrupted =>
    simp only [UsbTx.step] at hs
    split at hs
    · next r hk =>
      split_ifs at hs
      cases hs
      exact h.setCaller (by rw [hk]; rfl) id
    · cases hs
  | relock k =>
    simp only [UsbTx.step] at hs
    split at hs
    · next r hk =>
      cases hs
      exact h.takeFirst (by rw [hk]; rfl) hg
    · cases hs
  | submit k err => exact h.submitStep hs
  | putBack k =>
    simp only [UsbTx.step] at hs
    split at hs
    · next urb hk =>
      cases hs
      exact ⟨h.toPlaces.putBack hk, h.toFlights.of_eq rfl rfl rfl rfl h.kinds⟩
    · cases hs
  | giveBack u status =>
    simp only [UsbTx.step] at hs
    split at hs
    · next j hu =>
      cases hs
      exact h.giveBack hu hg
    · cases hs
  | completed u =>
    simp only [UsbTx.step] at hs
    split at hs
    · next j hu =>
      cases hs
      exact h.completed hu
    · cases hs
  | setState state =>
    cases hs
    exact ⟨h.toPlaces.congr rfl rfl rfl (fun _ => Iff.rfl) (fun _ => rfl) h.notEmpty,
      h.toFlights.of_eq rfl rfl rfl rfl h.kinds⟩
  | setSuspend suspend =>
    cases hs
    exact ⟨h.toPlaces.congr rfl rfl rfl (fun _ => Iff.rfl) (fun _ => rfl) h.notEmpty,
      h.toFlights.of_eq rfl rfl rfl rfl h.kinds⟩
  | registerTxCallback func =>
    cases hs
    exact h.registerTxCallback func

theorem inv_init (urbCount : ℕ) (txAsyn txSdma : Bool) : (init urbCount txAsyn txSdma).Inv where
  placed := by
    constructor
    · intro u hu
      refine ⟨.txUrbList, List.mem_range.mpr hu, fun p hp => ?_⟩
      cases p with
      | txUrbList => rfl
      | submitted => exact absurd rfl hp
      | hand k => cases hp
    · intro u p hp
      cases p with
      | txUrbList => exact List.mem_range.mp hp
      | submitted => exact absurd rfl hp
      | hand k => cases hp
  nodup := List.nodup_range
  notEmpty _ := id
  count := by simp [init]
  kinds := by simp [init]
  carried u j hj := by cases hj
  inj u v j hj := by cases hj
  unanswered _ _ := rfl
  answered j r hr := by cases hr

/-- In runs in which no caller that has waited finds the list empty and every URB is given back with
its kind of callback registered, each URB is in one place, none is taken from the empty list,
`tx_urb_count` counts those outside and every accepted submission has its own callback. -/
theorem pooled_of_sound (urbCount : ℕ) (txAsyn txSdma : Bool) (s : UsbTx)
    (h : Lib.Reach step Sound (init urbCount txAsyn txSdma) s) : s.Pooled :=
  (h.invariant (inv_init ..) fun _ _ _ hi hg hs => hi.step hg hs).pooled

/-- Two callers share one URB: the second one waits until the first submission, that of a buffer, is
completed with an error. -/
theorem pooled_of_sound_shared :
    ∃ s, Lib.Reach step Sound (init 1 true true) s ∧
      s.submissions = [.buffer 100 8, .buffer 200 9] ∧
      s.callbacks 0 = [.sdma 100 8 (- EIO)] ∧ s.Pooled := by
  obtain ⟨s, hs, hp⟩ := Lib.exists_reach_of_exec step Sound (init 1 true true)
    [.registerTxCallback true, .call 0 (.buffer 100 8), .lock 0, .submit 0 0,
      .call 1 (.buffer 200 9), .lock 1, .giveBack 0 (- EIO), .completed 0, .wake 1 false, .relock 1,
      .submit 1 0]
    (fun s => s.submissions == [.buffer 100 8, .buffer 200 9] &&
      s.callbacks 0 == [.sdma 100 8 (- EIO)]) (by decide)
  simp only [Bool.and_eq_true, beq_iff_eq] at hp
  exact ⟨s, hs, hp.1, hp.2, pooled_of_sound 1 true true s hs⟩

/-- A signal ends the wait of a caller, which then takes the first entry of the empty list. -/
theorem interruptedWait_not_pooled :
    ¬ ∀ s, Lib.Reach step Lib.Free (init 1 true true) s → s.Pooled := by
  intro h
  obtain ⟨s, hs, hp⟩ := Lib.exists_reach_of_exec step Lib.Free (init 1 true true)
    [.registerTxCallback true, .call 0 (.buffer 100 8), .lock 0, .submit 0 0,
      .call 1 (.buffer 200 9), .lock 1, .wake 1 true, .relock 1]
    (fun s => s.caller 1 == .holding (.buffer 200 9) none) (by decide)
  have hhold : s.caller 1 = .holding (.buffer 200 9) none := beq_iff_eq.mp hp
  have hempty := (h s hs).notEmpty 1
  rw [hhold] at hempty
  exact hempty trivial

end UsbTx
end Skw
