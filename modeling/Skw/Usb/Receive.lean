import Skw.Usb.Bulkin
import Skw.Lib.Placed
import Skw.Lib.Tally

/-! Where the receive URBs are. Each is in one place and `bulk_async_read` counts those that are
submitted, unless `bulkin_read_async` finds the list empty that its caller found not empty, or
takes the URB whose buffer is being parsed, or a resume finds a URB to submit. -/
namespace Skw
variable {n : ℕ}

/-- Where a receive URB may be. -/
inductive RxPlace
  | rxUrbList
  | rxDoneUrbList
  | suspendUrbList
  | submitted
  | completing
  | bulkin (c : RxCtx)
  | resume
deriving DecidableEq

namespace UsbRx

def Completing (h : RxHcd) : Prop := ∃ b, h = .given b

def At (s : UsbRx n) (u : Fin n) : RxPlace → Prop
  | .rxUrbList => u ∈ s.rxUrbList
  | .rxDoneUrbList => u ∈ s.rxDoneUrbList
  | .suspendUrbList => u ∈ s.suspendUrbList
  | .submitted => s.hcd u = .submitted
  | .completing => Completing (s.hcd u)
  | .bulkin c => (s.bulkin c).hand = some u
  | .resume => s.pm.hand = some u

def submitted (s : UsbRx n) (u : Fin n) : Bool := s.hcd u = .submitted

/-- What is promised of the URBs in every state. -/
structure Received (s : UsbRx n) : Prop where
  placed : Lib.Placed (fun _ => True) s.At
  nodup : s.rxUrbList.Nodup ∧ s.rxDoneUrbList.Nodup ∧ s.suspendUrbList.Nodup
  notSubmitted : ∀ u, s.handle.reading = some u → s.hcd u ≠ .submitted
  notEmpty : (∀ c, s.bulkin c ≠ .took none) ∧ s.handle ≠ .got none ∧ s.pm ≠ .took none
  count : s.bulkAsyncRead = Lib.tally s.submitted

/-- The first URB of `rx_urb_list` is there and not being read by `usb_handle`. -/
def TakesFree (s : UsbRx n) : Prop :=
  match s.rxUrbList with
  | [] => False
  | u :: _ => s.handle.reading ≠ some u

instance (s : UsbRx n) : Decidable s.TakesFree := by
  unfold TakesFree
  split <;> infer_instance

/-- Where `bulkin_read_async` takes a URB, it finds one that is free, and a resume finds none. -/
def Sound (s : UsbRx n) : UsbRxEvent n → Prop
  | .bulkin c _ => s.bulkin c = .take → s.TakesFree
  | .resuming _ => s.pm = .loop → s.suspendUrbList = []
  | _ => True

instance (s : UsbRx n) (e : UsbRxEvent n) : Decidable (s.Sound e) :=
  match e with
  | .bulkin .. | .resuming _ => inferInstanceAs (Decidable (_ → _))
  | .setState _ | .kick _ | .complete .. | .completed _ | .tasklet | .handle .. | .suspend
  | .resume _ => inferInstanceAs (Decidable True)

/-- Where the URBs are. -/
structure Places (s : UsbRx n) : Prop where
  placed : Lib.Placed (fun _ => True) s.At
  rxNodup : s.rxUrbList.Nodup
  doneNodup : s.rxDoneUrbList.Nodup
  suspendNodup : s.suspendUrbList.Nodup

/-- What the fields of a URB and the contexts are where they matter. -/
structure Fields (s : UsbRx n) : Prop where
  count : s.bulkAsyncRead = Lib.tally s.submitted
  sent : ∀ u, s.hcd u = .submitted → (s.urb u).context
  given : ∀ u, s.hcd u = .given false → (s.urb u).context = false
  listed : ∀ u, u ∈ s.rxUrbList ∨ u ∈ s.rxDoneUrbList → (s.urb u).context = false
  took : ∀ c u, s.bulkin c = .took (some u) → (s.urb u).context = false
  notEmpty : ∀ c, s.bulkin c ≠ .took none
  reading : ∀ u, s.handle.reading = some u → u ∈ s.rxUrbList
  handle : s.handle ≠ .got none ∧ (s.handle = .take → s.rxDoneUrbList ≠ [])
  pm : s.pm = .idle ∨ s.pm = .loop

structure Inv (s : UsbRx n) : Prop extends Places s, Fields s

variable {s t : UsbRx n} {u v : Fin n} {c : RxCtx} {b : BulkinRead n} {l : List (Fin n)}

theorem Inv.received (h : s.Inv) : s.Received where
  placed := h.placed
  nodup := ⟨h.rxNodup, h.doneNodup, h.suspendNodup⟩
  notSubmitted u hu hs := by
    have hrx : s.At u .rxUrbList := h.reading u hu
    have hsub : s.At u .submitted := hs
    cases h.placed.eq hrx hsub
  notEmpty := by
    refine ⟨h.notEmpty, h.handle.1, ?_⟩
    rcases h.pm with hp | hp <;> rw [hp] <;> simp
  count := h.count

/-- Steps that move no URB. -/
theorem Places.congr (h : s.Places) (hr : t.rxUrbList = s.rxUrbList)
    (hd : t.rxDoneUrbList = s.rxDoneUrbList) (hs : t.suspendUrbList = s.suspendUrbList)
    (hh : t.hcd = s.hcd) (hb : ∀ c, (t.bulkin c).hand = (s.bulkin c).hand)
    (hp : t.pm.hand = s.pm.hand) : t.Places where
  placed := by
    apply h.placed.congr
    intro u p
    cases p with
    | rxUrbList => exact iff_of_eq (congrArg (u ∈ ·) hr)
    | rxDoneUrbList => exact iff_of_eq (congrArg (u ∈ ·) hd)
    | suspendUrbList => exact iff_of_eq (congrArg (u ∈ ·) hs)
    | submitted => exact iff_of_eq (congrArg (fun f : Fin n → RxHcd => f u = .submitted) hh)
    | completing => exact iff_of_eq (congrArg (fun f : Fin n → RxHcd => Completing (f u)) hh)
    | bulkin c => exact iff_of_eq (congrArg (· = some u) (hb c))
    | resume => exact iff_of_eq (congrArg (· = some u) hp)
  rxNodup := hr ▸ h.rxNodup
  doneNodup := hd ▸ h.doneNodup
  suspendNodup := hs ▸ h.suspendNodup

theorem at_bulkin : s.At u (.bulkin c) ↔ (s.bulkin c).hand = some u := Iff.rfl

theorem hcd_update {h h' : RxHcd} :
    Function.update s.hcd u h v = h' ↔ v = u ∧ h = h' ∨ v ≠ u ∧ s.hcd v = h' := by
  by_cases hv : v = u
  · subst hv
    simp
  · simp [hv]

theorem completing_update {h : RxHcd} : Completing (Function.update s.hcd u h v) ↔
    v = u ∧ Completing h ∨ v ≠ u ∧ Completing (s.hcd v) := by
  by_cases hv : v = u
  · subst hv
    simp
  · simp [hv]

/-- A `bulkin_read_async` call takes the first URB. -/
theorem Places.bulkinTake (h : s.Places) (hb : s.bulkin c = .take) (hl : s.rxUrbList = u :: l) :
    ({ s.setBulkin c (.took (some u)) with rxUrbList := l } : UsbRx n).Places := by
  have hin : s.At u .rxUrbList := by
    have hmem : u ∈ s.rxUrbList := hl ▸ List.mem_cons_self
    exact hmem
  have hnodup := h.rxNodup
  rw [hl] at hnodup
  refine ⟨h.placed.move hin (q := .bulkin c) (by simp) (fun v => Lib.mem_pop h.rxNodup hl v)
    (fun v => ?_) (fun p hp hq v => ?_), hnodup.of_cons, h.doneNodup, h.suspendNodup⟩
  · have hnone : (s.bulkin c).hand = none := by
      rw [hb]
      rfl
    exact Lib.hand_take BulkinRead.hand hnone rfl v
  · cases p with
    | rxUrbList => exact absurd rfl hp
    | bulkin c' =>
      exact Lib.hand_of_ne BulkinRead.hand (fun hc => hq (congrArg RxPlace.bulkin hc)) v
    | rxDoneUrbList | suspendUrbList | submitted | completing | resume => exact Iff.rfl

/-- A URB that is not submitted waits for a resume. -/
theorem Places.bulkinPark (h : s.Places) (hu : s.At u (.bulkin c)) : (s.bulkinPark c u).Places := by
  refine ⟨h.placed.move hu (q := .suspendUrbList) (by simp) (Lib.hand_leave BulkinRead.hand hu rfl)
    (fun v => Lib.mem_push s.suspendUrbList u v) (fun p hp hq v => ?_), h.rxNodup, h.doneNodup,
    Lib.nodup_push h.suspendNodup fun hm => ?_⟩
  · cases p with
    | suspendUrbList => exact absurd rfl hq
    | bulkin c' =>
      exact Lib.hand_of_ne BulkinRead.hand (fun hc => hp (congrArg RxPlace.bulkin hc)) v
    | rxUrbList | rxDoneUrbList | submitted | completing | resume => exact Iff.rfl
  · have hs : s.At u .suspendUrbList := hm
    cases h.placed.eq hu hs

/-- A URB is submitted. -/
theorem Places.bulkinSubmit (h : s.Places) (hu : s.At u (.bulkin c)) :
    ((s.setBulkin c .idle).setHcd u .submitted).Places := by
  have hcompl : ¬ Completing (s.hcd u) := fun hc => by
    have hat : s.At u .completing := hc
    cases h.placed.eq hu hat
  refine ⟨h.placed.move hu (q := .submitted) (by simp) (Lib.hand_leave BulkinRead.hand hu rfl)
    (fun v => ?_)
    (fun p hp hq v => ?_), h.rxNodup, h.doneNodup, h.suspendNodup⟩
  · refine hcd_update.trans ?_
    change _ ↔ v = u ∨ s.hcd v = .submitted
    by_cases hv : v = u
    · simp [hv]
    · rw [or_iff_right hv, or_iff_right fun hc => hv hc.1]
      exact and_iff_right hv
  · cases p with
    | submitted => exact absurd rfl hq
    | bulkin c' =>
      exact Lib.hand_of_ne BulkinRead.hand (fun hc => hp (congrArg RxPlace.bulkin hc)) v
    | completing =>
      refine completing_update.trans ?_
      constructor
      · rintro (⟨-, b, hb⟩ | ⟨-, hv⟩)
        · cases hb
        · exact hv
      · intro hv
        refine .inr ⟨?_, hv⟩
        rintro rfl
        exact hcompl hv
    | rxUrbList | rxDoneUrbList | suspendUrbList | resume => exact Iff.rfl

/-- A URB is given back. -/
theorem Places.complete (h : s.Places) (hu : s.hcd u = .submitted) (suspended : Bool) :
    (s.setHcd u (.given suspended)).Places := by
  have hat : s.At u .submitted := hu
  refine ⟨h.placed.move hat (q := .completing) (by simp) (fun v => ?_) (fun v => ?_)
    (fun p hp hq v => ?_), h.rxNodup, h.doneNodup, h.suspendNodup⟩
  · refine hcd_update.trans (or_iff_right ?_)
    rintro ⟨-, hv⟩
    cases hv
  · refine completing_update.trans ?_
    change _ ↔ v = u ∨ Completing (s.hcd v)
    by_cases hv : v = u
    · simp [hv, Completing]
    · rw [or_iff_right hv, or_iff_right fun hc => hv hc.1]
      exact and_iff_right hv
  · cases p with
    | submitted => exact absurd rfl hp
    | completing => exact absurd rfl hq
    | rxUrbList | rxDoneUrbList | suspendUrbList | bulkin _ | resume => exact Iff.rfl

/-- A completion ends: the URB is no longer in its hand, and what is submitted stays so. -/
theorem given_idle (hu : Completing (s.hcd u)) (v : Fin n) :
    (Completing (Function.update s.hcd u .idle v) ↔ v ≠ u ∧ Completing (s.hcd v)) ∧
      (Function.update s.hcd u .idle v = .submitted ↔ s.hcd v = .submitted) := by
  obtain ⟨b, hb⟩ := hu
  constructor
  · refine completing_update.trans (or_iff_right ?_)
    rintro ⟨-, b', hb'⟩
    cases hb'
  · refine hcd_update.trans ?_
    constructor
    · rintro (⟨-, hv⟩ | ⟨-, hv⟩)
      · cases hv
      · exact hv
    · intro hv
      refine .inr ⟨?_, hv⟩
      rintro rfl
      cases hb.symm.trans hv

/-- A completion lists its URB. -/
theorem Places.completed (h : s.Places) (hu : Completing (s.hcd u)) (suspended : Bool) :
    (s.completed u suspended).Places := by
  have hat : s.At u .completing := hu
  have hfree : ∀ p, p ≠ .completing → ¬ s.At u p := fun p hp hc => hp (h.placed.eq hc hat)
  have hfrom := fun v => (given_idle hu v).1
  have hsub := fun v => (given_idle hu v).2
  unfold UsbRx.completed
  split_ifs
  · refine ⟨h.placed.move hat (q := .suspendUrbList) (by simp) hfrom
      (fun v => Lib.mem_push s.suspendUrbList u v) (fun p hp hq v => ?_), h.rxNodup, h.doneNodup,
      Lib.nodup_push h.suspendNodup (hfree .suspendUrbList (by simp))⟩
    cases p with
    | suspendUrbList => exact absurd rfl hq
    | completing => exact absurd rfl hp
    | submitted => exact hsub v
    | rxUrbList | rxDoneUrbList | bulkin _ | resume => exact Iff.rfl
  · refine ⟨h.placed.move hat (q := .rxDoneUrbList) (by simp) hfrom
      (fun v => Lib.mem_push s.rxDoneUrbList u v) (fun p hp hq v => ?_), h.rxNodup,
      Lib.nodup_push h.doneNodup (hfree .rxDoneUrbList (by simp)), h.suspendNodup⟩
    cases p with
    | rxDoneUrbList => exact absurd rfl hq
    | completing => exact absurd rfl hp
    | submitted => exact hsub v
    | rxUrbList | suspendUrbList | bulkin _ | resume => exact Iff.rfl
  · refine ⟨h.placed.move hat (q := .rxUrbList) (by simp) hfrom
      (fun v => Lib.mem_push s.rxUrbList u v) (fun p hp hq v => ?_),
      Lib.nodup_push h.rxNodup (hfree .rxUrbList (by simp)), h.doneNodup, h.suspendNodup⟩
    cases p with
    | rxUrbList => exact absurd rfl hq
    | completing => exact absurd rfl hp
    | submitted => exact hsub v
    | rxDoneUrbList | suspendUrbList | bulkin _ | resume => exact Iff.rfl

/-- `usb_handle` moves the first URB that is done. -/
theorem Places.handleTake (h : s.Places) (hl : s.rxDoneUrbList = u :: l) : s.handleTake.Places := by
  have hat : s.At u .rxDoneUrbList := by
    have hmem : u ∈ s.rxDoneUrbList := hl ▸ List.mem_cons_self
    exact hmem
  have hfree : ¬ s.At u .rxUrbList := fun hc => by cases h.placed.eq hat hc
  have hnodup := h.doneNodup
  rw [hl] at hnodup
  unfold UsbRx.handleTake
  rw [hl]
  refine ⟨h.placed.move hat (q := .rxUrbList) (by simp) (fun v => Lib.mem_pop h.doneNodup hl v)
    (fun v => Lib.mem_push s.rxUrbList u v) (fun p hp hq v => ?_),
    Lib.nodup_push h.rxNodup hfree, hnodup.of_cons, h.suspendNodup⟩
  cases p with
  | rxUrbList => exact absurd rfl hq
  | rxDoneUrbList => exact absurd rfl hp
  | suspendUrbList | submitted | completing | bulkin _ | resume => exact Iff.rfl

theorem setBulkin_self (s : UsbRx n) (c : RxCtx) (b : BulkinRead n) :
    (s.setBulkin c b).bulkin c = b :=
  Function.update_self ..

theorem setBulkin_of_ne {c' : RxCtx} (hc : c' ≠ c) (s : UsbRx n) (b : BulkinRead n) :
    (s.setBulkin c b).bulkin c' = s.bulkin c' :=
  Function.update_of_ne hc ..

/-- A call that goes on to another step. -/
theorem Fields.setBulkin (h : s.Fields)
    (hb : ∀ o, b = .took o → ∃ u, o = some u ∧ (s.urb u).context = false) :
    (s.setBulkin c b).Fields := by
  have hcase : ∀ c' o, (s.setBulkin c b).bulkin c' = .took o →
      b = .took o ∨ s.bulkin c' = .took o := by
    intro c' o hc
    by_cases hcc : c' = c
    · subst hcc
      rw [setBulkin_self] at hc
      exact .inl hc
    · rw [setBulkin_of_ne hcc] at hc
      exact .inr hc
  refine { h with took := fun c' u hu => ?_, notEmpty := fun c' hc => ?_ }
  · rcases hcase c' _ hu with hu | hu
    · obtain ⟨v, hv, hcontext⟩ := hb _ hu
      cases hv
      exact hcontext
    · exact h.took c' u hu
  · rcases hcase c' _ hc with hc | hc
    · obtain ⟨v, hv, -⟩ := hb _ hc
      cases hv
    · exact h.notEmpty c' hc

/-- A URB that is at none of the places where `context` matters. -/
def Loose (s : UsbRx n) (u : Fin n) : Prop :=
  s.hcd u = .idle ∧ u ∉ s.rxUrbList ∧ u ∉ s.rxDoneUrbList ∧ ∀ c, s.bulkin c ≠ .took (some u)

/-- What a call has in its hand is at no other place, once the call has gone on. -/
theorem loose_of_hand (h : s.Places) (hu : s.At u (.bulkin c)) (hb : ∀ o, b ≠ .took o) :
    (s.setBulkin c b).Loose u := by
  have hne : ∀ p, s.At u p → p = .bulkin c := fun p hp => h.placed.eq hp hu
  refine ⟨?_, fun hm => ?_, fun hm => ?_, fun c' hc => ?_⟩
  · cases hh : s.hcd u with
    | idle => exact hh
    | submitted => cases hne .submitted hh
    | given b => cases hne .completing ⟨b, hh⟩
  · cases hne .rxUrbList hm
  · cases hne .rxDoneUrbList hm
  · by_cases hcc : c' = c
    · subst hcc
      rw [setBulkin_self] at hc
      exact hb _ hc
    · rw [setBulkin_of_ne hcc] at hc
      have hat : s.At u (.bulkin c') := by
        rw [at_bulkin, hc]
        rfl
      exact hcc (RxPlace.bulkin.inj (hne _ hat))

theorem Fields.setContext (h : s.Fields) (hu : s.Loose u) (context : Bool) :
    (s.setContext u context).Fields := by
  have hurb : ∀ v, v ≠ u → (s.setContext u context).urb v = s.urb v :=
    fun v hv => Function.update_of_ne hv ..
  refine { h with
    sent := fun v hv => ?_
    given := fun v hv => ?_
    listed := fun v hv => ?_
    took := fun c v hv => ?_ }
  · rw [hurb v]
    · exact h.sent v hv
    · rintro rfl
      cases hu.1.symm.trans hv
  · rw [hurb v]
    · exact h.given v hv
    · rintro rfl
      cases hu.1.symm.trans hv
  · rw [hurb v]
    · exact h.listed v hv
    · rintro rfl
      exact hv.elim hu.2.1 hu.2.2.1
  · rw [hurb v]
    · exact h.took c v hv
    · rintro rfl
      exact hu.2.2.2 c hv

/-- Only one URB is marked or unmarked as submitted. -/
theorem tally_setHcd {h : RxHcd} (hb : (s.submitted u) = !decide (h = .submitted)) :
    (Lib.tally (s.setHcd u h).submitted : ℤ) =
      Lib.tally s.submitted + if h = .submitted then 1 else -1 := by
  have hself : (s.setHcd u h).submitted u = decide (h = .submitted) := by
    unfold submitted setHcd
    simp only [Function.update_self]
  have hoff : ∀ v, v ≠ u → (s.setHcd u h).submitted v = s.submitted v := by
    intro v hv
    unfold submitted setHcd
    simp only [Function.update_of_ne hv]
  split_ifs with hh
  · subst hh
    have hset := Lib.tally_set hb hself hoff
    rw [hset]
    push_cast
    rfl
  · rw [decide_eq_false hh] at hb hself
    have hset := Lib.tally_set hself hb fun v hv => (hoff v hv).symm
    rw [hset]
    push_cast
    omega

/-- A call starts. -/
theorem Inv.call (h : s.Inv) (hb : s.bulkin c = .idle) : (s.setBulkin c .take).Inv := by
  have hkeep : BulkinRead.hand .take = (s.bulkin c).hand := by
    rw [hb]
    rfl
  exact ⟨h.toPlaces.congr rfl rfl rfl rfl (Lib.hand_keep BulkinRead.hand hkeep) rfl,
    h.toFields.setBulkin fun o ho => by cases ho⟩

/-- A URB is submitted and counted. -/
theorem Fields.submit (h : s.Fields) (hu : s.Loose u) (hc : (s.urb u).context) :
    ({ s.setHcd u .submitted with bulkAsyncRead := s.bulkAsyncRead + 1 } : UsbRx n).Fields := by
  refine { h with count := ?_, sent := fun v hv => ?_, given := fun v hv => ?_ }
  · have hnone : s.submitted u = !decide (RxHcd.submitted = .submitted) := by
      unfold submitted
      rw [hu.1]
      rfl
    have htally := tally_setHcd hnone
    rw [if_pos rfl, ← h.count] at htally
    exact htally.symm
  · rcases hcd_update.mp hv with ⟨rfl, -⟩ | ⟨-, hv⟩
    · exact hc
    · exact h.sent v hv
  · rcases hcd_update.mp hv with ⟨-, hv⟩ | ⟨-, hv⟩
    · cases hv
    · exact h.given v hv

/-- `bulkin_read_async` takes the first URB of the list. -/
theorem Inv.bulkinTake (h : s.Inv) (hb : s.bulkin c = .take) (hfree : s.TakesFree) :
    (s.bulkinTake c).Inv := by
  unfold TakesFree at hfree
  cases hl : s.rxUrbList with
  | nil =>
    rw [hl] at hfree
    exact absurd hfree id
  | cons u l =>
    rw [hl] at hfree
    have hin : u ∈ s.rxUrbList := hl ▸ List.mem_cons_self
    have hf := h.toFields.setBulkin (c := c) (b := .took (some u))
      fun o ho => ⟨u, (BulkinRead.took.inj ho).symm, h.listed u (.inl hin)⟩
    unfold UsbRx.bulkinTake
    rw [hl]
    refine ⟨h.toPlaces.bulkinTake hb hl,
      { hf with listed := fun v hv => ?_, reading := fun v hv => ?_ }⟩
    · apply h.listed v
      exact hv.imp_left fun hm => ((Lib.mem_pop h.rxNodup hl v).mp hm).2
    · have hne : v ≠ u := by
        rintro rfl
        exact hfree hv
      exact (Lib.mem_pop h.rxNodup hl v).mpr ⟨hne, h.reading v hv⟩

theorem Inv.bulkinStep (h : s.Inv) {err : ℤ} (hg : s.Sound (.bulkin c err))
    (hs : s.bulkinStep c err = some t) : t.Inv := by
  unfold UsbRx.bulkinStep at hs
  split at hs
  · cases hs
  · next hb =>
    cases hs
    exact h.bulkinTake hb (hg hb)
  · cases hs
  · next u hb =>
    cases hs
    have hat : s.At u (.bulkin c) := by
      rw [at_bulkin, hb]
      rfl
    have hcontext := h.took c u hb
    unfold UsbRx.bulkinSubmit
    rw [if_neg (by simp [hcontext])]
    have hpark : ∀ context, ((s.setContext u context).setBulkin c (.park u)).Inv := by
      intro context
      have hf := (h.toFields.setBulkin (c := c) (b := .park u) fun o ho => by cases ho).setContext
        (loose_of_hand h.toPlaces hat fun o ho => by cases ho) context
      exact ⟨h.toPlaces.congr rfl rfl rfl rfl (Lib.hand_keep BulkinRead.hand hat.symm) rfl, hf⟩
    split_ifs
    · exact hpark true
    · exact hpark false
    · have hf := (h.toFields.setBulkin (c := c) (b := .idle) fun o ho => by cases ho).setContext
        (loose_of_hand h.toPlaces hat fun o ho => by cases ho) true
      have hloose := loose_of_hand (b := .idle) h.toPlaces hat fun o ho => by cases ho
      refine ⟨(h.toPlaces.bulkinSubmit hat).congr rfl rfl rfl rfl (fun _ => rfl) rfl,
        hf.submit hloose ?_⟩
      change (Function.update s.urb u _ u).context = true
      rw [Function.update_self]
  · next u hb =>
    cases hs
    have hat : s.At u (.bulkin c) := by
      rw [at_bulkin, hb]
      rfl
    have hf := h.toFields.setBulkin (c := c) (b := .idle) fun o ho => by cases ho
    exact ⟨h.toPlaces.bulkinPark hat, { hf with }⟩

/-- A completion writes the fields of its URB. -/
theorem Inv.complete (h : s.Inv) (hu : s.hcd u = .submitted) (status : ℤ) :
    (s.complete u status).Inv := by
  have hsent := h.sent u hu
  have hloose : ∀ v, v ∈ s.rxUrbList ∨ v ∈ s.rxDoneUrbList → v ≠ u := by
    rintro v hv rfl
    have hat : s.At v .submitted := hu
    rcases hv with hv | hv
    · have hin : s.At v .rxUrbList := hv
      cases h.placed.eq hin hat
    · have hin : s.At v .rxDoneUrbList := hv
      cases h.placed.eq hin hat
  have htook : ∀ c v, s.bulkin c = .took (some v) → v ≠ u := by
    rintro c v hv rfl
    have hat : s.At v .submitted := hu
    have hin : s.At v (.bulkin c) := by
      rw [at_bulkin, hv]
      rfl
    cases h.placed.eq hin hat
  -- the completion clears `context` exactly when it will list the URB for another use
  have hgive : ∀ suspended, ({ s.setHcd u (.given suspended) with
      urb := Function.update s.urb u ⟨suspended, status⟩
      bulkAsyncRead := s.bulkAsyncRead - 1 } : UsbRx n).Inv := by
    intro suspended
    refine ⟨(h.toPlaces.complete hu suspended).congr rfl rfl rfl rfl (fun _ => rfl) rfl,
      { h.toFields with
        count := ?_
        sent := fun v hv => ?_
        given := fun v hv => ?_
        listed := fun v hv => ?_
        took := fun c v hv => ?_ }⟩
    · have hmark : s.submitted u = !decide (RxHcd.given suspended = .submitted) := by
        unfold submitted
        rw [hu]
        rfl
      have htally := tally_setHcd hmark
      rw [if_neg (by simp), ← h.count] at htally
      exact htally.symm
    · rcases hcd_update.mp hv with ⟨-, hv⟩ | ⟨hne, hv⟩
      · cases hv
      · change (Function.update s.urb u _ v).context = true
        rw [Function.update_of_ne hne]
        exact h.sent v hv
    · change (Function.update s.urb u _ v).context = false
      rcases hcd_update.mp hv with ⟨rfl, hs⟩ | ⟨hne, hv⟩
      · cases hs
        rw [Function.update_self]
      · rw [Function.update_of_ne hne]
        exact h.given v hv
    · change (Function.update s.urb u _ v).context = false
      rw [Function.update_of_ne (hloose v hv)]
      exact h.listed v hv
    · change (Function.update s.urb u _ v).context = false
      rw [Function.update_of_ne (htook c v hv)]
      exact h.took c v hv
  unfold UsbRx.complete
  rw [if_neg (by simp [hsent])]
  split_ifs
  · exact hgive true
  · exact hgive false

theorem Inv.completed (h : s.Inv) {suspended : Bool} (hu : s.hcd u = .given suspended) :
    (s.completed u suspended).Inv := by
  have hplaces := h.toPlaces.completed (u := u) ⟨suspended, hu⟩ suspended
  have hidle : ∀ v, Function.update s.hcd u .idle v = .submitted → s.hcd v = .submitted :=
    fun v => ((given_idle ⟨suspended, hu⟩ v).2).mp
  have hsub : (s.setHcd u .idle).submitted = s.submitted := by
    funext v
    unfold submitted
    exact decide_eq_decide.mpr (given_idle ⟨suspended, hu⟩ v).2
  have hf : (s.setHcd u .idle).Fields := by
    refine { h.toFields with
      count := ?_
      sent := fun v hv => h.sent v (hidle v hv)
      given := fun v hv => ?_ }
    · rw [hsub]
      exact h.count
    · rcases hcd_update.mp hv with ⟨-, hv⟩ | ⟨-, hv⟩
      · cases hv
      · exact h.given v hv
  refine ⟨hplaces, ?_⟩
  unfold UsbRx.completed
  split_ifs with hsus
  · exact { hf with }
  · have hcontext := h.given u (by rw [hu, Bool.eq_false_iff.mpr hsus])
    refine { hf with listed := fun v hv => ?_, handle := ⟨h.handle.1, fun _ => by simp⟩ }
    rcases hv with hv | hv
    · exact h.listed v (.inl hv)
    · rcases (Lib.mem_push _ _ _).mp hv with rfl | hv
      · exact hcontext
      · exact h.listed v (.inr hv)
  · have hcontext := h.given u (by rw [hu, Bool.eq_false_iff.mpr hsus])
    refine { hf with listed := fun v hv => ?_, reading := fun v hv => ?_ }
    · rcases hv with hv | hv
      · rcases (Lib.mem_push _ _ _).mp hv with rfl | hv
        · exact hcontext
        · exact h.listed v (.inl hv)
      · exact h.listed v (.inr hv)
    · exact List.mem_append_left _ (h.reading v hv)

theorem Inv.handleStep (h : s.Inv) {rxSubmit modemOn : Bool}
    (hs : s.handleStep rxSubmit modemOn = some t) : t.Inv := by
  -- where the tasklet goes on, it reads what it has read before or nothing
  have hgo : ∀ p : UsbHandle n, (∀ u, p.reading = some u → u ∈ s.rxUrbList) → p ≠ .got none →
      (p = .take → s.rxDoneUrbList ≠ []) → ({ s with handle := p } : UsbRx n).Inv := by
    intro p hread hgot htake
    exact ⟨h.toPlaces.congr rfl rfl rfl rfl (fun _ => rfl) rfl,
      { h.toFields with reading := hread, handle := ⟨hgot, htake⟩ }⟩
  unfold UsbRx.handleStep at hs
  split at hs
  · cases hs
  · cases hs
    split_ifs with hl
    · exact hgo .refill (by simp [UsbHandle.reading]) (by simp) (by simp)
    · exact hgo .take (by simp [UsbHandle.reading]) (by simp) fun _ hc => hl (.inl hc)
  · next hp =>
    cases hs
    cases hl : s.rxDoneUrbList with
    | nil => exact absurd hl (h.handle.2 hp)
    | cons u l =>
      have hin : u ∈ s.rxDoneUrbList := hl ▸ List.mem_cons_self
      have hplaces := h.toPlaces.handleTake hl
      unfold UsbRx.handleTake at hplaces ⊢
      rw [hl] at hplaces ⊢
      refine ⟨hplaces,
        { h.toFields with listed := fun v hv => ?_, reading := ?_, handle := by simp }⟩
      · rcases hv with hv | hv
        · rcases (Lib.mem_push _ _ _).mp hv with rfl | hv
          · exact h.listed v (.inr hin)
          · exact h.listed v (.inl hv)
        · exact h.listed v (.inr ((Lib.mem_pop h.doneNodup hl v).mp hv).2)
      · intro v hv
        cases hv
        exact List.mem_append_right _ List.mem_cons_self
  · cases hs
  · next u hp =>
    cases hs
    have hread := h.reading u (by rw [hp]; rfl)
    split_ifs
    · exact hgo .idle (by simp [UsbHandle.reading]) (by simp) (by simp)
    · refine hgo (.parsing u) (fun v hv => ?_) (by simp) (by simp)
      cases hv
      exact hread
    · exact hgo .loop (by simp [UsbHandle.reading]) (by simp) (by simp)
  · cases hs
    split_ifs
    · exact hgo .loop (by simp [UsbHandle.reading]) (by simp) (by simp)
    · exact hgo .idle (by simp [UsbHandle.reading]) (by simp) (by simp)
  · split_ifs at hs with hb hl
    · cases hs
      exact hgo .idle (by simp [UsbHandle.reading]) (by simp) (by simp)
    · cases hs
      exact h.call hb

/-- A resume finds nothing to submit. -/
theorem Inv.resumeStep (h : s.Inv) {err : ℤ} (hg : s.Sound (.resuming err))
    (hs : s.resumeStep err = some t) : t.Inv := by
  unfold UsbRx.resumeStep at hs
  rcases h.pm with hp | hp
  · rw [hp] at hs
    cases hs
  · have hnil : s.suspendUrbList = [] := hg hp
    rw [hp] at hs
    cases hs
    rw [if_pos hnil]
    exact ⟨h.toPlaces.congr rfl rfl rfl rfl (fun _ => rfl) (by rw [hp]; rfl),
      { h.toFields with pm := .inl rfl }⟩

theorem Inv.step (h : s.Inv) {e : UsbRxEvent n} (hg : s.Sound e) (hs : s.step e = some t) :
    t.Inv := by
  cases e with
  | setState state =>
    cases hs
    exact ⟨h.toPlaces.congr rfl rfl rfl rfl (fun _ => rfl) rfl, { h.toFields with }⟩
  | kick k =>
    simp only [UsbRx.step] at hs
    split_ifs at hs with hb
    cases hs
    unfold kick
    split_ifs
    · exact h.call hb
    · exact h
  | bulkin c err => exact h.bulkinStep hg hs
  | complete u status =>
    simp only [UsbRx.step] at hs
    split_ifs at hs with hu
    cases hs
    exact h.complete hu status
  | completed u =>
    simp only [UsbRx.step] at hs
    split at hs
    · next suspended hu =>
      cases hs
      exact h.completed hu
    · cases hs
  | tasklet =>
    simp only [UsbRx.step] at hs
    split_ifs at hs
    cases hs
    exact ⟨h.toPlaces.congr rfl rfl rfl rfl (fun _ => rfl) rfl,
      { h.toFields with reading := by simp [UsbHandle.reading], handle := by simp }⟩
  | handle rxSubmit modemOn => exact h.handleStep hs
  | suspend =>
    simp only [UsbRx.step] at hs
    split_ifs at hs
    cases hs
    exact ⟨h.toPlaces.congr rfl rfl rfl rfl (fun _ => rfl) rfl, { h.toFields with }⟩
  | resume reset =>
    simp only [UsbRx.step] at hs
    split at hs
    · next hp =>
      cases hs
      exact ⟨h.toPlaces.congr rfl rfl rfl rfl (fun _ => rfl) (by rw [hp]; rfl),
        { h.toFields with pm := .inr rfl }⟩
    · cases hs
  | resuming err => exact h.resumeStep hg hs

theorem bulkin_init (n : ℕ) (c : RxCtx) :
    (init n).bulkin c = .take ∨ (init n).bulkin c = .idle := by
  unfold init
  dsimp only
  split_ifs
  · exact .inl rfl
  · exact .inr rfl

theorem inv_init (n : ℕ) : (init n).Inv where
  placed := by
    constructor
    · intro u _
      refine ⟨.rxUrbList, List.mem_finRange u, fun p hp => ?_⟩
      cases p with
      | rxUrbList => rfl
      | completing =>
        obtain ⟨b, hb⟩ := hp
        cases hb
      | bulkin c =>
        rw [at_bulkin] at hp
        rcases bulkin_init n c with hc | hc <;> rw [hc] at hp <;> cases hp
      | rxDoneUrbList | suspendUrbList => cases hp
      | submitted | resume => cases hp
    · exact fun _ _ _ => trivial
  rxNodup := List.nodup_finRange n
  doneNodup := .nil
  suspendNodup := .nil
  count := by
    have hnone : (init n).submitted = fun _ => false := rfl
    rw [hnone, Lib.tally_false]
    rfl
  sent u hu := by cases hu
  given u hu := by cases hu
  listed _ _ := rfl
  took c u hu := by rcases bulkin_init n c with hc | hc <;> cases hc.symm.trans hu
  notEmpty c hu := by rcases bulkin_init n c with hc | hc <;> cases hc.symm.trans hu
  reading u hu := by cases hu
  handle := ⟨by simp [init], by simp [init]⟩
  pm := .inl rfl

/-- In runs in which `bulkin_read_async` never finds the list empty nor takes the URB that
`usb_handle` reads, and no resume finds a URB that waits, each URB is in one place, none is
submitted while its buffer is read, and `bulk_async_read` counts those that are submitted. -/
theorem received_of_sound (n : ℕ) (s : UsbRx n) (h : Lib.Reach step Sound (init n) s) :
    s.Received :=
  (h.invariant (inv_init n) fun _ _ _ hi hg hs => hi.step hg hs).received

/-- A URB is received, parsed and submitted again by the tasklet. -/
theorem received_of_sound_parsed :
    ∃ s, Lib.Reach step Sound (init 1) s ∧ s.hcd 0 = .submitted ∧ s.bulkAsyncRead = 1 ∧
      s.handle = .refill ∧ s.Received := by
  obtain ⟨s, hs, hp⟩ := Lib.exists_reach_of_exec step Sound (init 1)
    [.bulkin .entry 0, .bulkin .entry 0, .complete 0 0, .completed 0, .tasklet,
      .handle true true, .handle true true, .handle true true, .handle true true, .handle true true,
      .handle true true, .bulkin .tasklet 0, .bulkin .tasklet 0]
    (fun s => s.hcd 0 == .submitted && s.bulkAsyncRead == 1 && s.handle == .refill) (by decide)
  simp only [Bool.and_eq_true, beq_iff_eq] at hp
  exact ⟨s, hs, hp.1.1, hp.1.2, hp.2, received_of_sound 1 s hs⟩

/-- While the tasklet parses the only URB, which it has put back in the list, `kick_rx_thread` takes
and submits it. -/
theorem parsedKick_not_received :
    ¬ ∀ s, Lib.Reach step Lib.Free (init 1) s → s.Received := by
  intro h
  obtain ⟨s, hs, hp⟩ := Lib.exists_reach_of_exec step Lib.Free (init 1)
    [.bulkin .entry 0, .bulkin .entry 0, .complete 0 0, .completed 0, .tasklet,
      .handle true true, .handle true true, .handle true true, .kick 0, .bulkin (.kick 0) 0,
      .bulkin (.kick 0) 0]
    (fun s => s.handle == .parsing 0 && s.hcd 0 == .submitted) (by decide)
  simp only [Bool.and_eq_true, beq_iff_eq] at hp
  exact (h s hs).notSubmitted 0 (by rw [hp.1]; rfl) hp.2

end UsbRx
end Skw
