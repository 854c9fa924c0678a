import Skw.Peer.Active

/-! The peers of one interface through its joins and unjoins, when one of them at most is bound and
the interface's fields name it. -/
namespace Skw
namespace PeerSys
section
variable {α : Type*}

/-- Peer `p` stands in context `c` and is bound to interface `n`. -/
def Holds (s : PeerSys α) (n : IfaceId) (c : CtxId) (p : Ptr) : Prop :=
  (s.ctx c).peer = some p ∧ (s.peer p).iface = some n

/-- A peer of the interface is the one that `bssCtxIdx` and the address `a` name. -/
structure Single (s : PeerSys α) (n : IfaceId) (a : α) : Prop where
  old : ∀ c p, (s.ctx c).peer = some p → p < s.next
  peerMap : ∀ c, ((s.iface n).lmacId = c.1 ∧ (s.iface n).peerMap c.2 = true) ↔
    s.owner c = some n
  named : ∀ c p, s.Holds n c p →
    getCtx (s.iface n).lmacId (s.iface n).bssCtxIdx = some c ∧ (s.peer p).addr = some a

variable {s t u : PeerSys α} {n : IfaceId} {c d : CtxId} {p q : Ptr} {a : α}

theorem bind_addr (s : PeerSys α) (n : IfaceId) (c : CtxId) (peer : Option Ptr) (q : Ptr) :
    ((s.peerCtxBind n (some c) peer).2.peer q).addr = (s.peer q).addr := by
  cases peer with
  | none => cases hp : (s.ctx c).peer <;> simp [peerCtxBind, peerFree, setBit, setIface, setCtx, hp]
  | some p =>
    rcases eq_or_ne q p with rfl | hne
    · cases hp : (s.ctx c).peer <;>
        simp [peerCtxBind, peerFree, setBit, setIface, setCtx, setPeer, hp]
    · cases hp : (s.ctx c).peer <;>
        simp [peerCtxBind, peerFree, setBit, setIface, setCtx, setPeer, hp,
          Function.update_of_ne hne]

theorem bind_nrLmac (s : PeerSys α) (n : IfaceId) (c : CtxId) (peer : Option Ptr) :
    (s.peerCtxBind n (some c) peer).2.nrLmac = s.nrLmac := by
  cases peer <;> cases hp : (s.ctx c).peer <;>
    simp [peerCtxBind, peerFree, setBit, setIface, setCtx, setPeer, hp]

theorem owner_eq_some : s.owner c = some n ↔ ∃ p, s.Holds n c p := Option.bind_eq_some_iff

theorem Keeps.holds (h : s.Keeps t) (ho : ∀ c p, (s.ctx c).peer = some p → p < s.next) :
    t.Holds n c p ↔ s.Holds n c p := by
  unfold Holds
  rw [h.ctx]
  apply and_congr_right
  intro hp
  rw [(h.peer p (ho c p hp)).1]

theorem Single.keeps (h : s.Single n a) (hk : s.Keeps t) : t.Single n a where
  old c p hp := by
    rw [hk.ctx] at hp
    exact (h.old c p hp).trans_le hk.next
  peerMap c := by
    rw [(hk.iface n).1, (hk.iface n).2.1, h.peerMap, hk.owner h.old]
  named c p hp := by
    have hp' := (hk.holds h.old).mp hp
    rw [(hk.iface n).1, (hk.iface n).2.2, (hk.peer p (h.old c p hp'.1)).2]
    exact h.named c p hp'

/-- The interface has no peer. -/
theorem Single.of_none (hold : ∀ c p, (s.ctx c).peer = some p → p < s.next)
    (hmap : ∀ i, (s.iface n).peerMap i = false) (hno : ∀ c, s.owner c ≠ some n) (a : α) :
    s.Single n a where
  old := hold
  peerMap c := by
    constructor
    · rintro ⟨-, hm⟩
      rw [hmap] at hm
      cases hm
    · exact fun ho => absurd ho (hno c)
  named c p hp := absurd (owner_eq_some.mpr ⟨p, hp⟩) (hno c)

theorem Single.unique (h : s.Single n a) (hc : s.owner c = some n) (hd : s.owner d = some n) :
    c = d := by
  obtain ⟨p, hp⟩ := owner_eq_some.mp hc
  obtain ⟨q, hq⟩ := owner_eq_some.mp hd
  have hcd := (h.named c p hp).1.symm.trans (h.named d q hq).1
  exact Option.some.inj hcd

/-- The peer of a context is unbound that was the interface's only one. -/
theorem Single.unbind (h : s.Single n a) (hc : s.owner c = some n) (idx : BitVec 8) (b : α) :
    let t := ((s.setIface n fun x => { x with bssCtxIdx := idx }).peerCtxBind n (some c) none).2
    t.Single n b ∧ ∀ d, t.owner d ≠ some n := by
  intro t
  obtain ⟨hctx, hiface, -, hpeer, -, hnext, -⟩ :=
    (s.setIface n fun x => { x with bssCtxIdx := idx }).binds_peerCtxBind n c none
  have hmap : ((s.setIface n fun x => { x with bssCtxIdx := idx }).iface n).peerMap =
      (s.iface n).peerMap := by
    simp [setIface]
  have hat : (t.ctx c).peer = none := by
    rw [hctx, Function.update_self]
  have hoff : ∀ d, d ≠ c → (t.ctx d).peer = (s.ctx d).peer := by
    intro d hd
    rw [hctx, Function.update_of_ne hd]
    rfl
  have hno : ∀ d, t.owner d ≠ some n := by
    intro d hd
    by_cases hdc : d = c
    · subst hdc
      rw [owner_of_none hat] at hd
      cases hd
    · obtain ⟨p, hp, hi⟩ := owner_eq_some.mp hd
      rw [hoff d hdc] at hp
      rw [hpeer p] at hi
      exact hdc (h.unique (owner_eq_some.mpr ⟨p, hp, hi⟩) hc)
  refine ⟨.of_none ?_ ?_ hno b, hno⟩
  · intro d p hp
    rw [hnext]
    by_cases hdc : d = c
    · subst hdc
      rw [hat] at hp
      cases hp
    · rw [hoff d hdc] at hp
      exact h.old d p hp
  · intro i
    rw [hiface, Function.update_self, hmap]
    change Function.update (s.iface n).peerMap c.2 false i = false
    by_cases hi : i = c.2
    · rw [hi, Function.update_self]
    · rw [Function.update_of_ne hi]
      by_contra hm
      have ho := (h.peerMap ((s.iface n).lmacId, i)).mp ⟨rfl, by simpa using hm⟩
      exact hi (congrArg Prod.snd (h.unique ho hc))

/-- A new peer is bound to a context, when the interface has none in another one, and the interface
names it. -/
theorem Single.bind (h : s.Single n a) (hp : s.next ≤ p) (hu : s.Keeps u) (hpu : p < u.next)
    {b : α} (hb : (u.peer p).addr = some b) {idx : BitVec 8} (hc : getCtx c.1 idx = some c)
    (hother : ∀ d, s.owner d = some n → d = c) :
    let t := (u.peerCtxBind n (some c) (some p)).2.setIface n fun x =>
      { x with lmacId := c.1, bssCtxIdx := idx }
    t.Single n b ∧ t.owner c = some n := by
  intro t
  have hs := h.keeps hu
  obtain ⟨hctx, hiface, -, hpeer, -, hnext, -⟩ := u.binds_peerCtxBind n c (some p)
  have hat : (t.ctx c).peer = some p := by
    change ((u.peerCtxBind n (some c) (some p)).2.ctx c).peer = some p
    rw [hctx, Function.update_self]
  have hoff : ∀ d, d ≠ c → (t.ctx d).peer = (u.ctx d).peer := by
    intro d hd
    change ((u.peerCtxBind n (some c) (some p)).2.ctx d).peer = (u.ctx d).peer
    rw [hctx, Function.update_of_ne hd]
  have hmine : (t.peer p).iface = some n := (hpeer p).trans (if_pos rfl)
  -- the other contexts hold what they held, and so no peer of the interface
  have hno : ∀ d q, d ≠ c → ¬ t.Holds n d q := by
    rintro d q hd ⟨hq, hi⟩
    rw [hoff d hd] at hq
    have hqs : (s.ctx d).peer = some q := (hu.ctx d).symm.trans hq
    have hne : p ≠ q := fun hpq => absurd (h.old d q hqs) (not_lt.mpr (hpq ▸ hp))
    have hi' : (u.peer q).iface = some n := by
      rw [← hi]
      exact ((hpeer q).trans (if_neg fun he => hne (Option.some.inj he))).symm
    have ho : u.owner d = some n := owner_eq_some.mpr ⟨q, hq, hi'⟩
    exact hd (hother d (owner_eq_some.mpr ⟨q, (hu.holds h.old).mp ⟨hq, hi'⟩⟩))
  have hown : t.owner c = some n := owner_eq_some.mpr ⟨p, hat, hmine⟩
  have hface : t.iface n = { u.iface n with
      lmacId := c.1
      bssCtxIdx := idx
      peerMap := Function.update (u.iface n).peerMap c.2 true } := by
    change Function.update _ n _ n = _
    rw [Function.update_self, hiface, Function.update_self]
    rfl
  refine ⟨⟨fun d q hq => ?_, fun d => ?_, fun d q hq => ?_⟩, hown⟩
  · change q < (u.peerCtxBind n (some c) (some p)).2.next
    rw [hnext]
    by_cases hd : d = c
    · subst hd
      rw [hat] at hq
      exact Option.some.inj hq ▸ hpu
    · rw [hoff d hd] at hq
      exact hs.old d q hq
  · rw [hface]
    by_cases hd : d = c
    · subst hd
      simp [hown]
    · have hnot : t.owner d ≠ some n := by
        intro ho
        obtain ⟨q, hq⟩ := owner_eq_some.mp ho
        exact hno d q hd hq
      constructor
      · rintro ⟨hl, hm⟩
        exfalso
        have hl' : c.1 = d.1 := hl
        have hm' : Function.update (u.iface n).peerMap c.2 true d.2 = true := hm
        have h2 : d.2 ≠ c.2 := fun h2 => hd (Prod.ext hl'.symm h2)
        rw [Function.update_of_ne h2] at hm'
        have ho := (hs.peerMap ((u.iface n).lmacId, d.2)).mp ⟨rfl, hm'⟩
        obtain ⟨q, hq⟩ := owner_eq_some.mp ho
        have he := congrArg Prod.snd (hother _ (owner_eq_some.mpr ⟨q, (hu.holds h.old).mp hq⟩))
        exact h2 he
      · exact fun ho => absurd ho hnot
  · have hd : d = c := by
      by_contra hd
      exact hno d q hd hq
    subst hd
    have hqp : q = p := by
      have hq' := hq.1
      rw [hat] at hq'
      exact (Option.some.inj hq').symm
    subst hqp
    rw [hface]
    exact ⟨hc, (bind_addr u n d (some q) q).trans hb⟩

/-- A join that is not accepted binds no peer; it returns the error of the command, or `-EFAULT` for
an answer without a context. -/
theorem join_refused (s : PeerSys α) (n : IfaceId) (b : α) {alloc : Bool} {ret : ℤ}
    (lmac : BitVec 8) {idx : BitVec 8}
    (h : ¬ (alloc = true ∧ 0 ≤ ret ∧ idx.toNat < SKW_MAX_PEER_SUPPORT)) :
    s.Keeps (s.join n b alloc ret lmac idx).2 ∧ (s.join n b alloc ret lmac idx).1 =
      if alloc = false then -ENOMEM else if ret < 0 then ret else -EFAULT := by
  unfold join
  split_ifs with halloc hret hidx
  · exact ⟨.refl s, rfl⟩
  · exact ⟨s.keeps_peerAlloc.trans (s.peerAlloc.keeps_peerFree (some s.next)), rfl⟩
  · have hfree := (s.peerAlloc.peerInit s.next (some b) idx.toNat).keeps_peerFree (some s.next)
    exact ⟨(s.keeps_peerInit (some b) idx.toNat).trans hfree, rfl⟩
  all_goals exact absurd ⟨by simpa using halloc, not_lt.mp hret, not_le.mp hidx⟩ h

/-- A join that is accepted leaves its peer as the only one, when there was none in another
context. -/
theorem Single.join (h : s.Single n a) (b : α) {alloc : Bool} {ret : ℤ} {lmac idx : BitVec 8}
    {l : Fin SKW_MAX_LMAC_SUPPORT} (halloc : alloc = true) (hret : 0 ≤ ret)
    (hidx : idx.toNat < SKW_MAX_PEER_SUPPORT) (hl : l.val = lmac.toNat)
    (hmove : (s.iface n).lmacId = l ∨ l.val < s.nrLmac)
    (hother : ∀ d, s.owner d = some n → d = (l, ⟨idx.toNat, hidx⟩)) :
    (s.join n b alloc ret lmac idx).1 = 0 ∧ (s.join n b alloc ret lmac idx).2.Single n b ∧
      ∃ c, (s.join n b alloc ret lmac idx).2.owner c = some n := by
  rw [s.join_accepted halloc hret hidx hl hmove]
  have hget : getCtx l idx = some (l, ⟨idx.toNat, hidx⟩) := dif_pos hidx
  have hu := s.keeps_peerInit (some b) idx.toNat
  have haddr : ((s.peerAlloc.peerInit s.next (some b) idx.toNat).peer s.next).addr = some b := by
    simp [peerInit, peerAlloc, setPeer]
  obtain ⟨hs, ho⟩ := h.bind le_rfl hu (Nat.lt_succ_self _) haddr hget hother
  exact ⟨rfl, hs, _, ho⟩

end

section
variable {α : Type*} [DecidableEq α] {s : PeerSys α} {n : IfaceId} {c : CtxId} {a b : α} {ret : ℤ}

/-- By its address the peer of the interface is found, and no other context. -/
theorem Single.peerCtx_eq (h : s.Single n a) :
    s.peerCtx n b = some c ↔ s.owner c = some n ∧ a = b := by
  have hfind : ∀ c, s.peerCtx n b = some c → s.owner c = some n ∧ a = b := by
    intro c hc
    obtain ⟨i, hi, rfl⟩ := Option.map_eq_some_iff.mp hc
    have hbit := List.find?_some hi
    rw [Bool.and_eq_true, Option.any_eq_true] at hbit
    obtain ⟨hm, p, hp, haddr⟩ := hbit
    have ho := (h.peerMap ((s.iface n).lmacId, i)).mp ⟨rfl, hm⟩
    obtain ⟨q, hq⟩ := owner_eq_some.mp ho
    have hpq : p = q := Option.some.inj (hp.symm.trans hq.1)
    subst hpq
    have hnamed := (h.named _ p hq).2
    rw [hnamed] at haddr
    exact ⟨ho, Option.some.inj (beq_iff_eq.mp haddr)⟩
  constructor
  · exact hfind c
  · rintro ⟨ho, rfl⟩
    obtain ⟨p, hp⟩ := owner_eq_some.mp ho
    obtain ⟨hl, hm⟩ := (h.peerMap c).mpr ho
    cases hf : s.peerCtx n a with
    | some d => rw [h.unique (hfind d hf).1 ho]
    | none =>
      exfalso
      have hnone := List.find?_eq_none.mp (Option.map_eq_none_iff.mp hf) c.2 (List.mem_finRange _)
      rw [hm, hl, hp.1] at hnone
      simp [(h.named c p hp).2] at hnone

/-- Without a peer of that address, an unjoin sends no command. -/
theorem Single.peerCtx_eq_none (h : s.Single n a) :
    s.peerCtx n b = none ↔ ¬ ((∃ c, s.owner c = some n) ∧ a = b) := by
  rw [← not_iff_not, not_not, ← Ne, Option.ne_none_iff_exists']
  simp only [h.peerCtx_eq]
  exact exists_and_right

theorem keeps_unjoin (s : PeerSys α) (n : IfaceId) (b : α) (hr : ret ≠ 0) :
    s.Keeps (s.unjoin n b ret).2 := by
  unfold unjoin
  split
  · exact .refl s
  · next c _ =>
    rw [if_pos hr]
    exact s.keeps_transmit c false

/-- An unjoin does not move the interface. -/
theorem unjoin_lmac (s : PeerSys α) (n : IfaceId) (b : α) (ret : ℤ) :
    ((s.unjoin n b ret).2.iface n).lmacId = (s.iface n).lmacId ∧
      (s.unjoin n b ret).2.nrLmac = s.nrLmac := by
  unfold unjoin
  split
  · exact ⟨rfl, rfl⟩
  · next c _ =>
    have hk := s.keeps_transmit c false
    dsimp only
    split_ifs
    · exact ⟨(hk.iface n).1, hk.nrLmac⟩
    · refine ⟨?_, (bind_nrLmac _ n c none).trans hk.nrLmac⟩
      rw [(binds_peerCtxBind _ n c none).iface, Function.update_self]
      simpa [setIface] using (hk.iface n).1

/-- The peer that is found is unbound, and the interface has none any more. -/
theorem Single.unjoin (h : s.Single n a) (hc : s.peerCtx n b = some c) (x : α) :
    (s.unjoin n b 0).2.Single n x ∧ ∀ d, (s.unjoin n b 0).2.owner d ≠ some n := by
  have ho := (h.peerCtx_eq.mp hc).1
  have hk := s.keeps_transmit c false
  have ht := h.keeps hk
  have ho' : (s.peerCtxTransmit c false).owner c = some n := (hk.owner h.old c).trans ho
  unfold PeerSys.unjoin
  rw [hc]
  exact ht.unbind ho' 0xff x

end
end PeerSys
end Skw
