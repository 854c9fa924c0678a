import Skw.Rx.Moves

/-! A tainted A-MSDU and its neighbours. Its mark is at the head of its slot and is gone with the
slot. -/
namespace Skw

/-- A subframe of the A-MSDU at position `p`, by its sequence number. -/
def Skb.OfAmsdu (skb : Skb) (p : ℕ) : Prop :=
  skb.desc.isAmsdu = true ∧ skb.desc.Ordered ∧ skb.sn = p % 4096

instance (skb : Skb) (p : ℕ) : Decidable (skb.OfAmsdu p) :=
  inferInstanceAs (Decidable (_ ∧ _ ∧ _))

namespace Rx

variable {p k ws : ℕ} {x y : Rx} {i : ℕ} {l : List Skb} {skb f : Skb}

/-- Frames are in the slot of their sequence number. -/
def Filed (x : Rx) : Prop := ∀ i, ∀ f ∈ x.tid.reorderBuf i, f.sn % x.tid.winSize = i

/-- Since `k` frames were on the release list no subframe of the A-MSDU has joined them, and those
that are stored are in a tainted slot. Half the sequence numbers behind, the numbers are used
again. -/
structure Barred (p k : ℕ) (x : Rx) : Prop where
  logged : k ≤ x.released.length
  slots : x.pos < p + 2048 → ∀ i skb l, x.tid.reorderBuf i = skb :: l → skb.cb.taint = false →
    ∀ f ∈ skb :: l, ¬ f.OfAmsdu p
  released : ∀ r ∈ x.released.drop k, r.pos < p + 2048 → ¬ r.skb.OfAmsdu p

theorem filed_setSlot (h : x.Filed) (hl : ∀ f ∈ l, f.sn % x.tid.winSize = i) :
    (x.setSlot i l).Filed := by
  intro j f hf
  rcases eq_or_ne j i with rfl | hne
  · rw [slot_setSlot] at hf
    exact hl f hf
  · rw [slot_setSlot_of_ne x l hne] at hf
    exact h j f hf

theorem clearing_filed : Clearing Filed where
  setWinStart _ _ h := h
  setStoredNum _ _ h := h
  clearSlot _ _ h := filed_setSlot h fun f hf => by cases hf
  release _ _ h := h
  free _ _ h := h
  setTimer _ _ _ h := h
  linkTodo _ _ _ _ h := h

theorem Barred.setSlot (h : Barred p k x)
    (hl : x.pos < p + 2048 → ∀ skb m, l = skb :: m → skb.cb.taint = false →
      ∀ f ∈ l, ¬ f.OfAmsdu p) : Barred p k (x.setSlot i l) where
  logged := h.logged
  slots hp j skb m hs ht f hf := by
    rcases eq_or_ne j i with rfl | hne
    · rw [slot_setSlot] at hs
      exact hl hp skb m hs ht f (hs ▸ hf)
    · rw [slot_setSlot_of_ne x l hne] at hs
      exact h.slots hp j skb m hs ht f hf
  released := h.released

theorem Barred.release (h : Barred p k x)
    (hl : x.pos < p + 2048 → ∀ f ∈ l, ¬ f.OfAmsdu p) : Barred p k (x.release l) where
  logged := by
    have hlog := h.logged
    unfold Rx.release
    rw [List.length_append]
    omega
  slots := h.slots
  released r hr := by
    unfold Rx.release at hr
    rw [List.drop_append_of_le_length h.logged] at hr
    rcases List.mem_append.mp hr with hr | hr
    · exact h.released r hr
    · obtain ⟨f, hf, rfl⟩ := List.mem_map.mp hr
      exact fun hp => hl hp f hf

theorem Barred.free (h : Barred p k x) (l : List Skb) : Barred p k (x.free l) :=
  ⟨h.logged, h.slots, h.released⟩

theorem taking_barred (p k : ℕ) : Taking (Barred p k) where
  setWinStart x w h := by
    refine ⟨h.logged, fun hp => h.slots ?_, h.released⟩
    have hpos : (x.setWinStart w).pos = x.pos + ieee80211SnSub w x.tid.winStart := rfl
    omega
  setStoredNum _ _ h := ⟨h.logged, h.slots, h.released⟩
  purgeSlot _ _ h := (h.free _).setSlot fun _ _ _ hnil => by cases hnil
  releaseSlot x i skb l hs ht h := by
    refine (h.release fun hp => ?_).setSlot fun _ _ _ hnil => by cases hnil
    rw [hs]
    exact h.slots hp i skb l hs ht
  setTimer _ _ _ h := ⟨h.logged, h.slots, h.released⟩
  linkTodo _ _ _ _ h := ⟨h.logged, h.slots, h.released⟩

theorem ofAmsdu_congr {g : Skb} (h : g.desc = f.desc) : g.OfAmsdu p ↔ f.OfAmsdu p := by
  unfold Skb.OfAmsdu
  rw [h, sn_congr h]

/-- A slot that is tainted stays so. -/
theorem taint_of_markAmsdu {cb : SkbRxcb} (h : (markAmsdu skb cb).taint = false) :
    cb.taint = false := by
  unfold markAmsdu at h
  dsimp only at h
  split_ifs at h
  · exact h
  · exact h

theorem Filed.put (h : x.Filed) (skb : Skb) :
    (x.put (skb.sn % x.tid.winSize) (x.withSubframe skb)).Filed := by
  refine filed_setSlot h fun f hf => ?_
  obtain ⟨g, hg, hgf⟩ := exists_of_mem_withSubframe hf
  rw [← sn_congr hgf]
  rcases List.mem_append.mp hg with hg | hg
  · exact h _ g hg
  · cases List.mem_singleton.mp hg
    rfl

theorem Filed.toSlotCall (h : x.Filed) (ht : skb.cb.taint = false) (b : Bool) :
    (x.toSlotCall b skb).rx.Filed := by
  refine clearing_filed.taking.toSlotCall (fun _ _ h => h) h ht (fun _ _ => h.put skb)
    (fun _ => filed_setSlot h fun f hf => ?_) b
  cases List.mem_singleton.mp hf
  rfl

/-- The first frame of a slot that a subframe has joined. -/
theorem joined_of_withSubframe (h : x.withSubframe skb = f :: l) : f.cb = x.joined skb := by
  obtain ⟨head, m, -, hwith⟩ := x.withSubframe_eq skb
  rw [hwith] at h
  cases h
  rfl

/-- A subframe of the A-MSDU joins a tainted slot, and others join any. -/
theorem Barred.put (h : Barred p k x)
    (hg : skb.OfAmsdu p → x.pos < p + 2048 → (x.joined skb).taint = true) :
    Barred p k (x.put (skb.sn % x.tid.winSize) (x.withSubframe skb)) := by
  refine (taking_barred p k).setStoredNum _ _ (h.setSlot fun hp head m hs ht f hf => ?_)
  rw [joined_of_withSubframe hs] at ht
  obtain ⟨g, hmem, hgf⟩ := exists_of_mem_withSubframe hf
  rw [← ofAmsdu_congr hgf]
  rcases List.mem_append.mp hmem with hmem | hmem
  · obtain ⟨first, rest, hslot⟩ := List.exists_cons_of_ne_nil (List.ne_nil_of_mem hmem)
    unfold joined at ht
    rw [hslot] at ht
    exact h.slots hp _ first rest hslot (taint_of_markAmsdu ht) g (hslot ▸ hmem)
  · cases List.mem_singleton.mp hmem
    intro ha
    rw [hg ha hp] at ht
    cases ht

/-- Where the A-MSDU is found to be tainted all of it that is stored is in that slot. -/
theorem Filed.barred (h : x.Filed) (ha : skb.OfAmsdu p) (ht : (x.joined skb).taint = true) :
    Barred p x.released.length (x.put (skb.sn % x.tid.winSize) (x.withSubframe skb)) where
  logged := le_rfl
  slots hp j first rest hs htaint f hf hfa := by
    have hsn : f.sn = skb.sn := hfa.2.2.trans ha.2.2.symm
    have hj : skb.sn % x.tid.winSize = j := by
      rw [← hsn]
      exact h.put skb j f (hs ▸ hf)
    subst hj
    rw [slot_put] at hs
    rw [joined_of_withSubframe hs, ht] at htaint
    cases htaint
  released r hr := by
    have hnil : x.released.drop x.released.length = [] := List.drop_length ..
    change r ∈ x.released.drop x.released.length at hr
    rw [hnil] at hr
    cases hr

theorem Barred.toSlotCall (h : Barred p k x) (ht : skb.cb.taint = false)
    (hg : skb.OfAmsdu p → x.pos < p + 2048 →
      x.isDup skb = true ∨ (x.joined skb).taint = true) (b : Bool) :
    Barred p k (x.toSlotCall b skb).rx := by
  refine (taking_barred p k).toSlotCall (fun _ l h => h.free l) h ht (fun _ hd => h.put ?_)
    (fun hn => h.setSlot ?_) b
  · intro ha hp
    refine (hg ha hp).resolve_left fun hdup => ?_
    rw [hd] at hdup
    cases hdup
  · intro _ _ _ _ _ f hf ha
    cases List.mem_singleton.mp hf
    rw [ha.1] at hn
    cases hn

theorem Filed.ampduReorder (h : x.Filed) (ht : skb.cb.taint = false) :
    (x.ampduReorder skb).Filed := by
  cases hc : x.ampduReorderCall skb with
  | none =>
    have hp := passes_of_call_none hc
    generalize x.ampduReorder skb = y at hp ⊢
    cases hp <;> exact h
  | some c =>
    rw [ampduReorder_of_call hc]
    apply clearing_filed.taking.out
    rcases ampduReorderCall_cases hc with ⟨-, rfl⟩ | ⟨y, b, hs, rfl⟩
    · exact h
    · exact Filed.toSlotCall (clearing_filed.taking.slotState (x := x) h hs) ht b

/-- A frame of the A-MSDU is dropped or comes to a tainted slot. -/
theorem Barred.ampduReorder (h : Barred p k x) (he : x.env = (true, true, true))
    (ht : skb.cb.taint = false)
    (hlate : skb.OfAmsdu p → x.pos < p + 2048 → ieee80211SnLess skb.sn x.tid.winStart = true →
      skb.desc.exclFilter = false)
    (hslot : skb.OfAmsdu p → ∀ y ∈ x.slotState skb, y.pos < p + 2048 →
      y.isDup skb = true ∨ (y.joined skb).taint = true) : Barred p k (x.ampduReorder skb) := by
  have hrecv : ∀ q, Barred p k { x with peer := q } := fun _ => ⟨h.logged, h.slots, h.released⟩
  cases hc : x.ampduReorderCall skb with
  | none =>
    have hp := passes_of_call_none hc
    generalize x.ampduReorder skb = y at hp ⊢
    cases hp with
    | free q => exact (hrecv q).free _
    | release q f hf hexcl =>
      refine (hrecv q).release fun hpos g hg ha => ?_
      cases List.mem_singleton.mp hg
      have ha : skb.OfAmsdu p := (ofAmsdu_congr hf).mp ha
      obtain ⟨hl, hex⟩ := hexcl he ha.2.1
      rw [hlate ha hpos hl] at hex
      cases hex
  | some c =>
    rw [ampduReorder_of_call hc]
    apply (taking_barred p k).out
    rcases ampduReorderCall_cases hc with ⟨-, rfl⟩ | ⟨y, b, hs, rfl⟩
    · exact (hrecv _).free _
    · exact Barred.toSlotCall ((taking_barred p k).slotState (hrecv _) hs) ht
        (fun ha hp => hslot ha y hs hp) b

/-- How many frames are on the release list when the A-MSDU at position `p` is found to be
tainted. -/
def detected (x : Rx) (p : ℕ) : BufCall → Option ℕ
  | .event (.frame skb) => (x.slotState (x.fresh skb)).bind fun y =>
    if skb.OfAmsdu p ∧ y.pos + ieee80211SnSub skb.sn y.tid.winStart = p ∧
        y.isDup (x.fresh skb) = false ∧ (y.joined (x.fresh skb)).taint = true then
      some y.released.length
    else none
  | _ => none

theorem Filed.barred_of_detected (h : x.Filed) (hd : x.detected p (.event (.frame skb)) = some k) :
    Barred p k (x.ampduReorder (x.fresh skb)) := by
  obtain ⟨y, hs, hy⟩ := Option.bind_eq_some_iff.mp hd
  split_ifs at hy with hc
  cases hy
  obtain ⟨ha, -, hdup, ht⟩ := hc
  have hfiled : y.Filed := clearing_filed.taking.slotState (x := x) h hs
  obtain ⟨b, hc⟩ := ampduReorderCall_of_slotState hs
  rw [ampduReorder_of_call hc]
  apply (taking_barred p _).out
  unfold Rx.toSlotCall
  have hamsdu : (x.fresh skb).desc.isAmsdu = true := ha.1
  rw [if_pos hamsdu]
  exact (taking_barred p _).amsduInSlotCall hdup (hfiled.barred ha ht) b

/-- A session, and how many frames were on the release list when the A-MSDU at one position was
found to be tainted. -/
structure TaintRun where
  run : RxRun
  since : Option ℕ

def taintStep (p : ℕ) (s : TaintRun) (c : BufCall) : Option TaintRun :=
  (s.run.call c).map fun t => ⟨t, s.since.or (s.run.rx.detected p c)⟩

/-- What is left of an A-MSDU comes to its slot as a duplicate or while the slot is tainted, and
where it is late the window is not open to it. -/
def NoStray (x : Rx) (p : ℕ) : BufCall → Prop
  | .event (.frame skb) => skb.OfAmsdu p →
    (x.pos < p + 2048 → ieee80211SnLess skb.sn x.tid.winStart = true →
      skb.desc.exclFilter = false) ∧
    ∀ y ∈ x.slotState (x.fresh skb), y.pos < p + 2048 →
      y.isDup (x.fresh skb) = true ∨ (y.joined (x.fresh skb)).taint = true
  | _ => True

instance (x : Rx) (p : ℕ) : ∀ c, Decidable (x.NoStray p c)
  | .event (.frame _) => inferInstanceAs (Decidable (_ → _ ∧ ∀ y ∈ (_ : Option Rx), _))
  | .event .timeout => isTrue trivial
  | .event .todo => isTrue trivial
  | .event (.tick _) => isTrue trivial
  | .forceRelease _ => isTrue trivial
  | .reorderRelease => isTrue trivial
  | .freeTidRx => isTrue trivial

/-- No subframe of the A-MSDU is released after it was found to be tainted, the window leaves a
sequence number with its own slot or in a forced release, and a frame that it waits for is not late
after a tainted A-MSDU elsewhere was complete. -/
structure Undisturbed (p : ℕ) (s : TaintRun) (c : BufCall) (t : TaintRun) : Prop where
  unreleased : ∀ k ∈ t.since, ∀ r ∈ t.run.rx.released.drop k, r.pos < p + 2048 →
    ¬ r.skb.OfAmsdu p
  steps : t.run.rx.pos = s.run.rx.pos + totalSteps (s.run.rx.moves c)
  own : ∀ m ∈ s.run.rx.moves c, m.Own s.run.rx.tid.winSize
  accepted : ∀ skb, c = .event (.frame skb) → ∀ y ∈ s.run.rx.slotState (s.run.rx.fresh skb),
    y.CompletesTainted (s.run.rx.fresh skb) → 0 < ieee80211SnSub skb.sn y.tid.winStart →
      ieee80211SnSub skb.sn y.tid.winStart < y.tid.winSize → y.slotOf y.tid.winStart = [] →
        ieee80211SnLess y.tid.winStart t.run.rx.tid.winStart = false

structure TaintInv (p ws : ℕ) (s : TaintRun) : Prop where
  size : s.run.rx.tid.winSize = ws
  start : s.run.rx.StartsAt
  env : s.run.rx.env = (true, true, true)
  filed : s.run.rx.Filed
  barred : ∀ k ∈ s.since, Barred p k s.run.rx

theorem rx_of_frame {s t : RxRun} (h : s.call (.event (.frame skb)) = some t) :
    t.rx = s.rx.ampduReorder (s.rx.fresh skb) := by
  unfold RxRun.call at h
  split_ifs at h
  cases h
  rfl

theorem frame_of_detected {c : BufCall} (h : x.detected p c = some k) :
    ∃ skb, c = .event (.frame skb) := by
  unfold detected at h
  split at h
  · exact ⟨_, rfl⟩
  · cases h

theorem TaintInv.step {s t : TaintRun} {c : BufCall} (h : TaintInv p ws s)
    (hg : s.since.isSome = true → s.run.rx.NoStray p c) (hs : taintStep p s c = some t) :
    TaintInv p ws t := by
  obtain ⟨u, hu, rfl⟩ := Option.map_eq_some_iff.mp hs
  constructor
  · exact (stable_winSize ws).call (fun _ _ h => h) (fun _ _ h => h) h.size hu
  · exact stable_startsAt.call (fun _ _ h => h) (fun _ _ h => h) h.start hu
  · exact (stable_env _).call (fun _ _ h => h) (fun _ _ h => h) h.env hu
  · exact clearing_filed.taking.call (fun _ _ h => h) (fun _ _ h => h)
      (fun skb _ => h.filed.ampduReorder rfl) h.filed hu
  · intro k hk
    cases hsince : s.since with
    | none =>
      rw [hsince, Option.none_or] at hk
      obtain ⟨skb, rfl⟩ := frame_of_detected hk
      rw [rx_of_frame hu]
      exact h.filed.barred_of_detected hk
    | some k' =>
      rw [hsince, Option.some_or] at hk
      cases hk
      have hno := hg (by rw [hsince]; rfl)
      have hbarred := h.barred k (by rw [hsince]; rfl)
      refine (taking_barred p k).call ?_ ?_ ?_ hbarred hu
      · exact fun _ _ h => ⟨h.logged, h.slots, h.released⟩
      · exact fun _ _ h => ⟨h.logged, h.slots, h.released⟩
      · rintro skb rfl
        exact hbarred.ampduReorder h.env rfl (fun ha hp hl => (hno ha).1 hp hl)
          fun ha y hy hp => (hno ha).2 y hy hp

/-- A position of the window that is not its start has a slot of its own. -/
theorem slot_ne_start (hd : ws ∣ 4096) {sn winStart : ℕ} (h0 : 0 < ieee80211SnSub sn winStart)
    (hlt : ieee80211SnSub sn winStart < ws) : sn % ws ≠ winStart % ws := by
  have hsn : sn % ws = (winStart + ieee80211SnSub sn winStart) % ws :=
    Window.index hd (sn_pos rfl sn)
  rw [hsn]
  exact (Lib.mod_ne_of_lt (by omega) (by omega)).symm

theorem TaintInv.undisturbed {s t : TaintRun} {c : BufCall} (hd : ws ∣ 4096) (hws : ws ≤ 2048)
    (h : TaintInv p ws s) (ht : TaintInv p ws t) (hg : s.run.rx.CompletesAtStart c)
    (hs : taintStep p s c = some t) : Undisturbed p s c t := by
  obtain ⟨u, hu, rfl⟩ := Option.map_eq_some_iff.mp hs
  constructor
  · exact fun k hk => (ht.barred k hk).released
  · exact pos_call hu
  · rw [h.size]
    exact (own_iff hd hws h.size h.start c).mpr hg
  · rintro skb rfl y hy hc h0 hlt -
    have hysize : y.tid.winSize = ws := (stable_winSize ws).slotState h.size hy
    have hslot := hg y hy hc
    rw [hysize] at hlt hslot
    exact absurd hslot (slot_ne_start hd h0 hlt)

/-- Where each tainted A-MSDU is complete at the start of the window, and what is left of the one
at position `p` comes to its slot only while the mark is there, its neighbours are undisturbed. -/
theorem undisturbed_of_completesAtStart (now reorderTimeout : Jiffies) (peer : Peer)
    (r : ReorderRx) (ssn bufSize : Fin 65536) (hd : (newTidRx r ssn bufSize).winSize ∣ 4096)
    (hws : (newTidRx r ssn bufSize).winSize ≤ 2048) (p : ℕ) (cs : List BufCall)
    (h : Lib.Along (taintStep p) (fun s c _ => s.run.rx.CompletesAtStart c ∧
        (s.since.isSome = true → s.run.rx.NoStray p c))
      ⟨⟨addTidRx now reorderTimeout peer r ssn bufSize, [], false⟩, none⟩ cs) :
    Lib.Along (taintStep p) (Undisturbed p)
      ⟨⟨addTidRx now reorderTimeout peer r ssn bufSize, [], false⟩, none⟩ cs := by
  refine Lib.Along.imp (I := TaintInv p (newTidRx r ssn bufSize).winSize) ?_ ?_ cs h
  · intro s c t hi hs hg
    have ht := hi.step hg.2 hs
    exact ⟨ht, hi.undisturbed hd hws ht hg.1 hs⟩
  · constructor
    · rfl
    · rfl
    · rfl
    · exact fun _ f hf => by cases hf
    · exact fun k hk => by cases hk

/-- The last subframe of a tainted A-MSDU, its only one or the second of two. -/
def snapLast (sn : Fin 4096) (only : Bool) : Skb :=
  { snapSubframe sn with
    desc :=
      { (snapSubframe sn).desc with
        amsduIdx := if only then 1 else 2, amsduFirstIdx := only, amsduLastIdx := true } }

/-- The A-MSDU is purged where the window starts, and a subframe of it that is repeated is late. -/
theorem undisturbed_of_completesAtStart_example :
    Lib.Along (taintStep 1) (Undisturbed 1)
      ⟨⟨addTidRx 0 100 ⟨0, 0, 0⟩ noReorder 1 64, [], false⟩, none⟩
      ([snapSubframe 1, snapLast 1 false, plain 2, snapSubframe 1].map fun skb =>
        .event (.frame skb)) :=
  undisturbed_of_completesAtStart 0 100 ⟨0, 0, 0⟩ noReorder 1 64 (by decide) (by decide) 1 _
    (by decide +kernel)

/-- The tainted A-MSDU is purged behind the start of the window, and frame 0 is too late. -/
theorem completeBehind_not_undisturbed :
    ¬ ∀ p cs, Lib.Along (taintStep p) (Undisturbed p) ⟨RxRun.newRun, none⟩ cs := by
  intro h
  have hstep := (h 1 [.event (.frame (snapLast 1 true))] _ rfl).1
  have hacc := hstep.accepted (snapLast 1 true) rfl _ rfl (by decide +kernel) (by decide +kernel)
    (by decide +kernel) (by decide +kernel)
  revert hacc
  decide +kernel

end Rx
end Skw
