import Skw.Tx.NdoPlaced

/-! Who has the frame after `skw_ndo_xmit`. The stack keeps it when the function says that it is
busy, and the driver has it otherwise: each buffer that the driver has then is freed once or lies
in a queue. A frame that the stack gets back comes again, and its tries are counted in it. -/
namespace Skw

/-- The buffers that lie in a queue. -/
def XmitOut.kept (o : XmitOut) : List Ptr :=
  match o.sent with
  | some (.queue _, t) => [t.id]
  | _ => []

/-- Every buffer is accounted for: a frame given back is the one that came, as long as it was, and
of the others each was freed or queued, once. -/
def XmitOut.Settled (o : XmitOut) (skb : SkBuff) : Prop :=
  if o.busy then
    o.freed.Perm o.made ∧
      ∃ b, o.back = some b ∧ b.id = skb.id ∧ b.data.length = skb.data.length
  else (o.freed ++ o.kept).Perm (skb.id :: o.made)

namespace XmitEnv
variable {e : XmitEnv} {c : XmitClass} {p : XmitPeer} {r : XmitRoom} {s t skb : SkBuff} {tid : ℕ}
  {o : XmitOut} {b : List (BitVec 8)}

/-- Whose buffer gets the descriptor: the frame's own or a new one, and then the frame waits for the
command or is freed. -/
inductive RoomOf (c : XmitClass) (r : XmitRoom) : Prop
  | own (hskb : r.skb = c.skb) (hpre : r.pre = none) (hmade : r.made = []) (hfreed : r.freed = [])
  | kept (hfilter : c.txFilter = true) (hretry : r.skb.txRetry = 0) (hpre : r.pre = some c.skb)
    (hmade : r.made = [r.skb.id]) (hfreed : r.freed = [])
  | copied (hfilter : c.txFilter = false) (hpre : r.pre = none) (hmade : r.made = [r.skb.id])
    (hfreed : r.freed = [c.skb.id])

theorem roomOf_makeRoom (halign : 0 < e.hwAlign) (h : e.makeRoom c = some (some r)) :
    RoomOf c r := by
  by_cases hb : e.bus = .pcie
  · rw [makeRoom, if_pos hb] at h
    cases h
    exact .own rfl rfl rfl rfl
  · rcases Nat.lt_or_ge 4 e.dmaAddrAlign with hd | hd
    · rcases makeRoom_copy halign hb hd c with hm | ⟨s, u, hm, hskb, -, -, -, -, hretry, -,
        hmade, -, -, hpre, hfreed, -⟩
      · rw [hm] at h
        cases h
      · rw [hm] at h
        cases h
        rw [← hskb] at hmade hretry
        cases hf : c.txFilter with
        | true =>
          rw [hf] at hpre hfreed
          exact .kept hf hretry hpre hmade hfreed
        | false =>
          rw [hf] at hpre hfreed
          exact .copied hf hpre hmade hfreed
    · rw [makeRoom_inPlace hb hd] at h
      cases h
      exact .own rfl rfl rfl rfl

theorem settled_class (h : e.Stands skb c) : c.freed ++ [c.skb.id] = skb.id :: c.made := by
  cases h with
  | own _ hkeeps hmade hfreed => rw [hmade, hfreed, hkeeps.id, List.nil_append]
  | arp _ _ hkeeps hmade hfreed => rw [hmade, hfreed, hkeeps.id, List.singleton_append]

theorem settled_room (h : RoomOf c r) :
    (r.freed ++ r.skb.id :: (r.pre.map (·.id)).toList).Perm (c.skb.id :: r.made) := by
  cases h with
  | own hskb hpre hmade hfreed => rw [hpre, hmade, hfreed, hskb]; rfl
  | kept _ _ hpre hmade hfreed =>
    rw [hpre, hmade, hfreed]
    exact .swap _ _ _
  | copied _ hpre hmade hfreed => rw [hpre, hmade, hfreed]; rfl

/-- Freeing the buffer with the descriptor and the frame that it is a copy of leaves nothing. -/
theorem settled_free (hc : e.Stands skb c) (hr : RoomOf c r) :
    (c.freed ++ r.freed ++ r.skb.id :: (r.pre.map (·.id)).toList).Perm
      (skb.id :: (c.made ++ r.made)) := by
  have hroom := (settled_room hr).append_left c.freed
  have hsplit : c.freed ++ c.skb.id :: r.made = skb.id :: (c.made ++ r.made) := by
    rw [← List.singleton_append, ← List.append_assoc, settled_class hc, List.cons_append]
  rw [← List.append_assoc, hsplit] at hroom
  exact hroom

/-- The frame that goes back is the one whose buffer got the descriptor, or that it was copied
from. -/
theorem back_pull (hs : e.expand r = some s) (hskb : r.skb = c.skb)
    (hpre : SkBuff.Prefixed s t b) (hlen : c.msduLen = c.skb.data.length) (n : BitVec 8) :
    (if c.msduLen ≤ t.data.length then
      SkBuff.pull { t with txRetry := n } (t.data.length - c.msduLen)
      else { t with txRetry := n }).data = c.skb.data := by
  have hdata : s.data = c.skb.data := hskb ▸ (expand_eq hs).2.2.1
  have hcount : t.data.length = b.length + c.msduLen := by
    rw [hpre.data, List.length_append, hdata, hlen]
  have hpre' : SkBuff.Prefixed { s with txRetry := n } { t with txRetry := n } b :=
    ⟨hpre.id, rfl, hpre.head, hpre.back, hpre.front, hpre.data⟩
  rw [if_pos (by omega), hcount, Nat.add_sub_cancel, hpre'.pull]
  exact hdata

theorem back_id (t : SkBuff) (n : BitVec 8) (k m : ℕ) :
    (if k ≤ t.data.length then SkBuff.pull { t with txRetry := n } m
      else { t with txRetry := n }).id = t.id := by
  split_ifs
  · exact SkBuff.pull_id _ _
  · rfl

/-- A call that keeps the frame has freed or queued each buffer. -/
theorem settled_of_idle (hb : o.busy = false) (hp : (o.freed ++ o.kept).Perm (skb.id :: o.made)) :
    o.Settled skb ↔ ¬ (e.replaces skb = true ∧ o.busy = true) := by
  rw [XmitOut.Settled, if_neg (by simp [hb])]
  exact ⟨fun _ hbusy => by simp [hb] at hbusy, fun _ => hp⟩

/-- A frame that is given back is the stack's own one, unless an ARP frame took its place. -/
theorem settled_of_busy {u : SkBuff} (hfresh : ∀ arp, e.arpCreate = some arp → arp.id ≠ skb.id)
    (hc : e.Stands skb c) (hb : o.busy = true) (hback : o.back = some u) (hid : u.id = c.skb.id)
    (hown : e.replaces skb = false → u.data.length = skb.data.length ∧ o.freed.Perm o.made) :
    o.Settled skb ↔ ¬ (e.replaces skb = true ∧ o.busy = true) := by
  rw [XmitOut.Settled, if_pos hb, hback]
  cases hc with
  | own hrep hkeeps _ _ =>
    obtain ⟨hlen, hperm⟩ := hown hrep
    rw [hrep]
    exact ⟨fun _ h => absurd h.1 Bool.false_ne_true, fun _ =>
      ⟨hperm, u, rfl, hid.trans hkeeps.id, hlen⟩⟩
  | arp hrep harp hkeeps _ _ =>
    constructor
    · rintro ⟨-, v, hv, hvid, -⟩ -
      cases Option.some.inj hv
      exact hfresh _ harp (hkeeps.id.symm.trans (hid.symm.trans hvid))
    · intro h
      exact absurd ⟨hrep, hb⟩ h

theorem stands_own (h : e.Stands skb c) (hrep : e.replaces skb = false) :
    Keeps skb c.skb ∧ c.made = [] ∧ c.freed = [] := by
  cases h with
  | own _ hkeeps hmade hfreed => exact ⟨hkeeps, hmade, hfreed⟩
  | arp hrep' _ _ _ _ => exact absurd (hrep.symm.trans hrep') Bool.false_ne_true

/-- What a call does with the buffers of its own frame; of one in whose place an ARP frame went this
holds unless that is given back. -/
theorem settled_iff_of_run (halign : 0 < e.hwAlign)
    (hfresh : ∀ arp, e.arpCreate = some arp → arp.id ≠ skb.id) (h : XmitRun e skb o) :
    o.Settled skb ↔ ¬ (e.replaces skb = true ∧ o.busy = true) := by
  have hquiet : ∀ {o : XmitOut}, o.Quiet → o.kept = [] := fun hq => by
    rw [XmitOut.kept, hq.sent]
  cases h with
  | gone hq hmade hfreed =>
    exact settled_of_idle hq.busy (by rw [hmade, hfreed, hquiet hq, List.append_nil])
  | drop hc hq hmade hfreed =>
    refine settled_of_idle hq.busy ?_
    rw [hmade, hfreed, hquiet hq, List.append_nil, settled_class (stands_classify hc).2]
  | noBuffer hc hr hq hmade hfreed =>
    refine settled_of_idle hq.busy ?_
    rw [hmade, hfreed, hquiet hq, List.append_nil]
    exact settled_free (stands_classify hc).2 (roomOf_makeRoom halign hr)
  | @sent o c p r s t hc hp hr hs ht hq hmade hfreed =>
    obtain ⟨hlen, hstands⟩ := stands_classify hc
    obtain ⟨b, hpre⟩ := prefixed_describe ht
    have hroom := roomOf_makeRoom halign hr
    have hid : t.id = r.skb.id := hpre.id.trans (expand_eq hs).1
    have hall := settled_free hstands hroom
    rw [← hid, ← hmade, ← hfreed] at hall
    obtain ⟨hmade', hdel⟩ :=
      delivered e c (skwDowngradeAc e.acm (skwUpToAc c.skb.priority)) r.pre t hq
    rw [← hmade'] at hall
    generalize e.deliver c _ o r.pre t = x at hmade' hdel hall ⊢
    cases hdel with
    | work _ _ _ hbusy hsent hx =>
      refine settled_of_idle hbusy ?_
      rw [XmitOut.kept, hsent, List.append_nil, hx]
      exact hall
    | command _ hbusy hsent hx =>
      refine settled_of_idle hbusy ?_
      rw [XmitOut.kept, hsent, List.append_nil, hx]
      exact hall
    | queue q hfilter hbusy hsent hx =>
      have hnone : r.pre = none := by
        cases hroom with
        | own _ hpre' _ _ => exact hpre'
        | kept hf _ _ _ _ => exact absurd (hfilter.symm.trans hf) Bool.false_ne_true
        | copied _ hpre' _ _ => exact hpre'
      refine settled_of_idle hbusy ?_
      rw [hnone] at hall hx
      rw [XmitOut.kept, hsent, hx]
      simpa using hall
    | busyCopy hfilter hu hretry hbusy hsent hx hback =>
      cases hroom with
      | own _ hpre' _ _ => cases hpre'.symm.trans hu
      | copied hf _ _ _ => exact absurd (hf.symm.trans hfilter) Bool.false_ne_true
      | kept _ _ hpre' hm hf =>
        cases hpre'.symm.trans hu
        refine settled_of_busy hfresh hstands hbusy hback rfl fun hrep => ?_
        obtain ⟨hkeeps, hm', hf'⟩ := stands_own hstands hrep
        refine ⟨hkeeps.length, ?_⟩
        rw [hx, hmade', hmade, hfreed, hm, hm', hf, hf', hid]
        rfl
    | busy hfilter hu hretry hbusy hsent hx hback =>
      cases hroom with
      | kept _ _ hpre' _ _ => cases hpre'.symm.trans hu
      | copied hf _ _ _ => exact absurd (hf.symm.trans hfilter) Bool.false_ne_true
      | own hskb _ hm hf =>
        refine settled_of_busy hfresh hstands hbusy hback ?_ fun hrep => ?_
        · rw [back_id, hid, hskb]
        · obtain ⟨hkeeps, hm', hf'⟩ := stands_own hstands hrep
          rw [back_pull hs hskb hpre (hlen.trans hkeeps.length.symm)]
          refine ⟨hkeeps.length, ?_⟩
          rw [hx, hmade', hmade, hfreed, hm, hm', hf, hf']

/-- Whatever the headers, the peer, the bus and the allocators do: every buffer of a call is
accounted for, unless an ARP frame in the place of the stack's one is given back to it as busy. -/
theorem skwNdoXmit_settled_iff (halign : 0 < e.hwAlign)
    (hfresh : ∀ arp, e.arpCreate = some arp → arp.id ≠ skb.id)
    (h : e.skwNdoXmit skb = some o) :
    o.Settled skb ↔ ¬ (e.replaces skb = true ∧ o.busy = true) :=
  settled_iff_of_run halign hfresh (xmitRun h)

end XmitEnv

/-- The stack is told to keep a frame that was freed. -/
theorem skwNdoXmit_settled_iff_repeater :
    ∃ o, busyRepeater.skwNdoXmit (arpSkb 1) = some o ∧ ¬ o.Settled (arpSkb 1) := by
  obtain ⟨o, ho, hbusy⟩ : ∃ o, busyRepeater.skwNdoXmit (arpSkb 1) = some o ∧ o.busy = true :=
    ⟨_, rfl, rfl⟩
  have hfresh : ∀ arp, busyRepeater.arpCreate = some arp → arp.id ≠ (arpSkb 1).id := by
    intro arp harp
    cases harp
    decide
  refine ⟨o, ho, ?_⟩
  rw [XmitEnv.skwNdoXmit_settled_iff (by decide) hfresh ho, not_not]
  exact ⟨by decide, hbusy⟩

namespace XmitEnv
variable {e : XmitEnv} {skb : SkBuff} {o : XmitOut}

/-- The calls for a frame that comes again each time the function is busy, in the states that it
finds. -/
def resend : List XmitEnv → SkBuff → List XmitOut
  | [], _ => []
  | e :: es, skb =>
    match e.skwNdoXmit skb with
    | none => []
    | some o =>
      match o.busy, o.back with
      | true, some b => o :: resend es b
      | _, _ => [o]

def busyCount (outs : List XmitOut) : ℕ := outs.countP (·.busy)

theorem room_inPlace {c : XmitClass} {r : XmitRoom} (hd : e.bus = .pcie ∨ e.dmaAddrAlign ≤ 4)
    (h : e.makeRoom c = some (some r)) : r.skb = c.skb ∧ r.pre = none := by
  by_cases hb : e.bus = .pcie
  · rw [makeRoom, if_pos hb] at h
    cases h
    exact ⟨rfl, rfl⟩
  · rw [makeRoom_inPlace hb (hd.resolve_left hb)] at h
    cases h
    exact ⟨rfl, rfl⟩

/-- The frame keeps its buffer, so that the count of its tries comes back with it. -/
theorem busy_inPlace (hd : e.bus = .pcie ∨ e.dmaAddrAlign ≤ 4) (hrep : e.repeater = false)
    (h : e.skwNdoXmit skb = some o) :
    (o.busy = true → skb.txRetry.toNat ≤ 3 ∧ ∃ b, o.back = some b ∧
      b.txRetry = skb.txRetry + 1) ∧
    ∀ t, o.sent = some (.work, t) → o.busy = false ∧ 3 < skb.txRetry.toNat := by
  have hquiet : ∀ {o : XmitOut}, o.Quiet → (o.busy = true → skb.txRetry.toNat ≤ 3 ∧
      ∃ b, o.back = some b ∧ b.txRetry = skb.txRetry + 1) ∧
      ∀ t, o.sent = some (.work, t) → o.busy = false ∧ 3 < skb.txRetry.toNat := by
    intro o hq
    refine ⟨fun hb => ?_, fun t ht => ?_⟩
    · exact absurd (hq.busy.symm.trans hb) Bool.false_ne_true
    · cases hq.sent.symm.trans ht
  cases xmitRun h with
  | gone hq _ _ => exact hquiet hq
  | drop _ hq _ _ => exact hquiet hq
  | noBuffer _ _ hq _ _ => exact hquiet hq
  | @sent o c p r s t hc hp hr hs ht hq _ _ =>
    obtain ⟨hskb, hnone⟩ := room_inPlace hd hr
    have hown : e.replaces skb = false := by simp [replaces, hrep]
    obtain ⟨b, hpre⟩ := prefixed_describe ht
    have hretry : t.txRetry = skb.txRetry := by
      rw [hpre.txRetry, (expand_eq hs).2.1, hskb]
      exact (stands_own (stands_classify hc).2 hown).1.txRetry
    have hdel := (delivered e c (skwDowngradeAc e.acm (skwUpToAc c.skb.priority)) r.pre t hq).2
    generalize e.deliver c _ o r.pre t = x at hdel ⊢
    rw [← hretry]
    cases hdel with
    | work _ _ hlt hbusy _ _ =>
      refine ⟨fun hb => ?_, fun _ _ => ⟨hbusy, hlt⟩⟩
      exact absurd (hbusy.symm.trans hb) Bool.false_ne_true
    | busyCopy _ hu _ _ _ _ _ => cases hnone.symm.trans hu
    | busy _ _ hle _ hsent _ hback =>
      refine ⟨fun _ => ⟨hle, _, hback, ?_⟩, fun u hu => ?_⟩
      · split_ifs
        · exact SkBuff.pull_txRetry _ _
        · rfl
      · cases hsent.symm.trans hu
    | command _ hbusy hsent _ =>
      refine ⟨fun hb => ?_, fun u hu => ?_⟩
      · exact absurd (hbusy.symm.trans hb) Bool.false_ne_true
      · cases hsent.symm.trans hu
    | queue _ _ hbusy hsent _ =>
      refine ⟨fun hb => ?_, fun u hu => ?_⟩
      · exact absurd (hbusy.symm.trans hb) Bool.false_ne_true
      · cases hsent.symm.trans hu

/-- A copy begins to count anew. -/
theorem work_copy (halign : 0 < e.hwAlign) (hb : e.bus ≠ .pcie) (hd : 4 < e.dmaAddrAlign)
    (h : e.skwNdoXmit skb = some o) (t : SkBuff) : o.sent ≠ some (.work, t) := by
  intro hwork
  cases xmitRun h with
  | gone hq _ _ => cases hq.sent.symm.trans hwork
  | drop _ hq _ _ => cases hq.sent.symm.trans hwork
  | noBuffer _ _ hq _ _ => cases hq.sent.symm.trans hwork
  | @sent o c p r s u hc hp hr hs ht hq _ _ =>
    obtain ⟨b, hpre⟩ := prefixed_describe ht
    have hzero : u.txRetry = 0 := by
      rcases makeRoom_copy halign hb hd c with hm | ⟨v, r', hm, hskb, -, -, -, -, hretry, -⟩
      · cases hm.symm.trans hr
      · cases hm.symm.trans hr
        rw [hpre.txRetry, (expand_eq hs).2.1, hskb, hretry]
    cases (delivered e c (skwDowngradeAc e.acm (skwUpToAc c.skb.priority)) r.pre u hq).2 with
    | work _ _ hlt _ _ _ =>
      rw [hzero] at hlt
      exact absurd hlt (by decide)
    | busyCopy _ _ _ _ hsent _ _ => cases hsent.symm.trans hwork
    | busy _ _ _ _ hsent _ _ => cases hsent.symm.trans hwork
    | command _ _ hsent _ => cases hsent.symm.trans hwork
    | queue _ _ _ hsent _ => cases hsent.symm.trans hwork

/-- The calls of a frame are its first one, with those that follow when it is given back. -/
theorem resend_cons (e : XmitEnv) (es : List XmitEnv) (skb : SkBuff) :
    resend (e :: es) skb = [] ∨ ∃ o, e.skwNdoXmit skb = some o ∧
      ((∃ b, o.busy = true ∧ o.back = some b ∧ resend (e :: es) skb = o :: resend es b) ∨
        resend (e :: es) skb = [o]) := by
  rw [resend]
  cases ho : e.skwNdoXmit skb with
  | none => exact .inl rfl
  | some o =>
    right
    refine ⟨o, rfl, ?_⟩
    cases hb : o.busy with
    | false => exact .inr (by simp only [hb])
    | true =>
      cases hk : o.back with
      | none => exact .inr (by simp only [hb, hk])
      | some b => exact .inl ⟨b, rfl, rfl, by simp only [hb, hk]⟩

theorem resend_inPlace (es : List XmitEnv) (skb : SkBuff) (hrep : ∀ e ∈ es, e.repeater = false)
    (hd : ∀ e ∈ es, e.bus = .pcie ∨ e.dmaAddrAlign ≤ 4) :
    busyCount (resend es skb) ≤ 4 - skb.txRetry.toNat ∧
      ((∃ o ∈ resend es skb, ∃ t, o.sent = some (.work, t)) →
        busyCount (resend es skb) = 4 - skb.txRetry.toNat) := by
  induction es generalizing skb with
  | nil => simp [resend, busyCount]
  | cons e es ih =>
    have hd' := hd e List.mem_cons_self
    have hrep' := hrep e List.mem_cons_self
    obtain h | ⟨o, ho, ⟨b, hb, hk, h⟩ | h⟩ := resend_cons e es skb
    · simp [h, busyCount]
    · obtain ⟨hbusy, hwork⟩ := busy_inPlace hd' hrep' ho
      obtain ⟨hle, u, hu, hretry⟩ := hbusy hb
      cases hk.symm.trans hu
      obtain ⟨hcount, hexact⟩ := ih b (fun e he => hrep e (List.mem_cons_of_mem _ he))
        (fun e he => hd e (List.mem_cons_of_mem _ he))
      have hsucc : b.txRetry.toNat = skb.txRetry.toNat + 1 := by
        rw [hretry]
        bv_omega
      have hhead : busyCount (o :: resend es b) = busyCount (resend es b) + 1 :=
        List.countP_cons_of_pos hb
      rw [h, hhead]
      refine ⟨by omega, ?_⟩
      rintro ⟨x, hx, t, ht⟩
      rcases List.mem_cons.mp hx with rfl | hx
      · exact absurd ((hwork t ht).1.symm.trans hb) Bool.false_ne_true
      · have := hexact ⟨x, hx, t, ht⟩
        omega
    · obtain ⟨hbusy, hwork⟩ := busy_inPlace hd' hrep' ho
      rw [h]
      cases hb : o.busy with
      | true =>
        have := (hbusy hb).1
        have hone : busyCount [o] = 1 := by simp [busyCount, hb]
        refine ⟨by omega, ?_⟩
        rintro ⟨x, hx, t, ht⟩
        cases List.mem_singleton.mp hx
        exact absurd ((hwork t ht).1.symm.trans hb) Bool.false_ne_true
      | false =>
        have hzero : busyCount [o] = 0 := by simp [busyCount, hb]
        refine ⟨by omega, ?_⟩
        rintro ⟨x, hx, t, ht⟩
        cases List.mem_singleton.mp hx
        have := (hwork t ht).2
        omega

theorem resend_copy (es : List XmitEnv) (skb : SkBuff) (halign : ∀ e ∈ es, 0 < e.hwAlign)
    (hd : ∀ e ∈ es, e.bus ≠ .pcie ∧ 4 < e.dmaAddrAlign) :
    ∀ o ∈ resend es skb, ∀ t, o.sent ≠ some (.work, t) := by
  induction es generalizing skb with
  | nil => simp [resend]
  | cons e es ih =>
    have he := List.mem_cons_self (a := e) (l := es)
    intro x hx t
    obtain h | ⟨o, ho, ⟨b, _, _, h⟩ | h⟩ := resend_cons e es skb
    · rw [h] at hx
      cases hx
    · rw [h] at hx
      rcases List.mem_cons.mp hx with rfl | hx
      · exact work_copy (halign e he) (hd e he).1 (hd e he).2 ho t
      · exact ih b (fun e he => halign e (List.mem_cons_of_mem _ he))
          (fun e he => hd e (List.mem_cons_of_mem _ he)) x hx t
    · rw [h] at hx
      cases List.mem_singleton.mp hx
      exact work_copy (halign e he) (hd e he).1 (hd e he).2 ho t

end XmitEnv

end Skw
