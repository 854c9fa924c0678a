import Skw.Peer.Active

/-! Where the peers are while the chip recovers. `skw_recovery_prepare` moves them from the
contexts to a table, and only a run of `skw_recovery_work` that succeeds, or
`skw_recovery_deinit`, frees what is in the table. -/
namespace Skw

inductive RecoveryEvent (α : Type*)
  | start
  | recoverIface (n : IfaceId) (upTo : ℕ)
  | finish (ret : ℤ)
  | delPeer (n : IfaceId) (idx : BitVec 8)
  | peers (e : PeerEvent α)
  | deinit

/-- `held` are the peers that were bound when a run started, `succeeded` tells whether the last run
ended with success, and `badAccess` whether an empty slot of the table, or none, was followed. -/
structure RecoverySys (α : Type*) where
  peers : PeerSys α
  working : Bool
  succeeded : Bool
  held : List Ptr
  badAccess : Bool
  closed : Bool

/-- The contexts in the order of the loops. -/
def allCtx : List CtxId :=
  (List.finRange SKW_MAX_LMAC_SUPPORT).flatMap fun i =>
    (List.finRange SKW_MAX_PEER_SUPPORT).map fun j => (i, j)

namespace PeerSys
variable {α : Type*}

/-- What `skw_recovery_sta` and `skw_recovery_sap_flush_sta` do to the saved peers of an interface:
each that is there is marked. The latter stops when the firmware asserts again. -/
def markSaved (s : PeerSys α) (n : IfaceId) (upTo : ℕ) : PeerSys α :=
  ((List.finRange SKW_MAX_PEER_SUPPORT).take upTo).foldl
    (fun t i =>
      if s.rdPeerMap n i = true then
        match s.rdPeer ((s.iface n).lmacId, i) with
        | none => t
        | some p => t.setPeer p fun x => { x with deauthed := true }
      else t) s

def recoveryIface (s : PeerSys α) (n : IfaceId) (upTo : ℕ) : PeerSys α :=
  match (s.iface n).iftype with
  | .station =>
    if (s.iface n).legacyP2pDev = true then s
    else (s.markSaved n SKW_MAX_PEER_SUPPORT).setIface n fun x => { x with activedCtx := 0 }
  | .p2pClient =>
    (s.markSaved n SKW_MAX_PEER_SUPPORT).setIface n fun x => { x with activedCtx := 0 }
  | .ap | .p2pGo => s.markSaved n upTo
  | _ => s

/-- The loop that frees the table, in `skw_recovery_work` and in `skw_recovery_deinit`. -/
def freeSaved (s : PeerSys α) : PeerSys α :=
  { s with freed := (allCtx.filterMap s.rdPeer).reverse ++ s.freed, rdPeer := fun _ => none }

/-- The peers that are bound. -/
def bound (s : PeerSys α) : List Ptr := allCtx.filterMap fun c => (s.ctx c).peer

/-- In how many places a peer is: contexts, slots of the table, and releases. -/
def places (s : PeerSys α) (p : Ptr) : ℕ :=
  Lib.tally (fun c => decide ((s.ctx c).peer = some p)) +
    Lib.tally (fun c => decide (s.rdPeer c = some p)) + s.freed.count p

end PeerSys

namespace RecoverySys
section
variable {α : Type*} [DecidableEq α]

/-- `rd->peer[lmac_id]`, which is tested, is an array and never NULL. -/
def delPeer (s : RecoverySys α) (n : IfaceId) (idx : BitVec 8) : RecoverySys α :=
  if s.peers.chipRecovery = false then s
  else
    match PeerSys.getCtx (s.peers.iface n).lmacId idx with
    | none => { s with badAccess := true }
    | some c =>
      match s.peers.rdPeer c with
      | none => { s with badAccess := true }
      | some p => { s with peers := s.peers.setPeer p fun x => { x with deauthed := true } }

/-- A work item does not run beside itself, and `skw_recovery_deinit`, which waits for it, is
final. -/
def step (s : RecoverySys α) : RecoveryEvent α → Option (RecoverySys α)
  | .start =>
    if s.working = true ∨ s.closed = true then none
    else
      some
        { s with
          peers := s.peers.recoveryPrepare
          working := true
          succeeded := false
          held := s.held ++ s.peers.bound }
  | .recoverIface n upTo =>
    if s.working = true then some { s with peers := s.peers.recoveryIface n upTo } else none
  | .finish ret =>
    if s.working = false then none
    else if ret ≠ 0 then some { s with working := false }
    else
      some
        { s with
          peers := { s.peers.freeSaved with chipRecovery := false }
          working := false
          succeeded := true }
  | .delPeer n idx => if s.closed = true then none else some (s.delPeer n idx)
  | .peers .recoveryPrepare => none
  | .peers e =>
    if s.closed = true then none else (s.peers.step e).map fun t => { s with peers := t }
  | .deinit =>
    if s.working = true ∨ s.closed = true then none
    else some { s with peers := s.peers.freeSaved, closed := true }

/-- The peers of the contexts that a run found are in one place each, no empty slot was followed,
and a run that succeeded left the table empty and no peer freed twice. -/
structure Kept (s : RecoverySys α) : Prop where
  once : ∀ p ∈ s.held, s.peers.places p = 1
  filled : s.badAccess = false
  emptied : s.succeeded = true → (∀ c, s.peers.rdPeer c = none) ∧ s.peers.freed.Nodup

/-- A run that starts before an earlier recovery succeeded finds no peer bound, and
`skw_recovery_del_peer` is called during a recovery for slots that are filled. -/
def Guarded (s : RecoverySys α) : RecoveryEvent α → Prop
  | .start => s.peers.chipRecovery = true → ∀ c, (s.peers.ctx c).peer = none
  | .delPeer n idx =>
    s.peers.chipRecovery = true →
      ((PeerSys.getCtx (s.peers.iface n).lmacId idx).bind s.peers.rdPeer).isSome = true
  | _ => True

instance (s : RecoverySys α) (e : RecoveryEvent α) : Decidable (s.Guarded e) :=
  match e with
  | .start => inferInstanceAs (Decidable (_ → ∀ _, _ = none))
  | .recoverIface .. => inferInstanceAs (Decidable True)
  | .finish _ => inferInstanceAs (Decidable True)
  | .delPeer .. => inferInstanceAs (Decidable (_ → _))
  | .peers _ => inferInstanceAs (Decidable True)
  | .deinit => inferInstanceAs (Decidable True)

end
end RecoverySys

namespace PeerSys
section
variable {α : Type*} {s t u : PeerSys α} {o : Option Ptr} {p : Ptr}

/-- The table stays, and one peer, if any, is in one more place. -/
structure Adds (s t : PeerSys α) (o : Option Ptr) : Prop where
  rdPeer : t.rdPeer = s.rdPeer
  chipRecovery : t.chipRecovery = s.chipRecovery
  next : s.next ≤ t.next
  places : ∀ p, t.places p = s.places p + if o = some p then 1 else 0

theorem Adds.refl (s : PeerSys α) : s.Adds s none := ⟨rfl, rfl, le_rfl, fun _ => by simp⟩

theorem Adds.trans (h : s.Adds t none) (h' : t.Adds u o) : s.Adds u o where
  rdPeer := h'.rdPeer.trans h.rdPeer
  chipRecovery := h'.chipRecovery.trans h.chipRecovery
  next := h.next.trans h'.next
  places p := by
    rw [h'.places, h.places]
    simp

theorem Adds.then (h : s.Adds t o) (h' : t.Adds u none) : s.Adds u o where
  rdPeer := h'.rdPeer.trans h.rdPeer
  chipRecovery := h'.chipRecovery.trans h.chipRecovery
  next := h.next.trans h'.next
  places p := by
    rw [h'.places, h.places]
    simp

/-- Contexts, table and releases are as before. -/
theorem adds_none (hc : ∀ d, (t.ctx d).peer = (s.ctx d).peer) (hr : t.rdPeer = s.rdPeer)
    (hf : t.freed = s.freed) (hchip : t.chipRecovery = s.chipRecovery) (hn : s.next ≤ t.next) :
    s.Adds t none :=
  ⟨hr, hchip, hn, fun p => by simp [PeerSys.places, hc, hr, hf]⟩

theorem adds_setPeer (s : PeerSys α) (p : Ptr) (f : CtxPeer α → CtxPeer α) :
    s.Adds (s.setPeer p f) none :=
  adds_none (fun _ => rfl) rfl rfl rfl le_rfl

theorem adds_setIface (s : PeerSys α) (n : IfaceId) (f : PeerIface → PeerIface) :
    s.Adds (s.setIface n f) none :=
  adds_none (fun _ => rfl) rfl rfl rfl le_rfl

theorem adds_peerFree (s : PeerSys α) (o : Option Ptr) : s.Adds (s.peerFree o) o := by
  cases o with
  | none => exact .refl s
  | some q =>
    refine ⟨rfl, rfl, le_rfl, fun p => ?_⟩
    have hcount : (q :: s.freed).count p = s.freed.count p + if some q = some p then 1 else 0 := by
      rw [List.count_cons]
      simp
    exact (congrArg (_ + ·) hcount).trans (Nat.add_assoc _ _ _).symm

theorem adds_transmit (s : PeerSys α) (c : CtxId) (enable : Bool) :
    s.Adds (s.peerCtxTransmit c enable) none := by
  have hadd : ∀ (u : PeerSys α) (q : Ptr) (k : ℤ), (u.addActived q k).rdPeer = u.rdPeer ∧
      (u.addActived q k).chipRecovery = u.chipRecovery := by
    intro u q k
    unfold addActived
    split <;> exact ⟨rfl, rfl⟩
  obtain ⟨hc, hn, hf⟩ := s.transmit_frame c enable
  have hrd : (s.peerCtxTransmit c enable).rdPeer = s.rdPeer ∧
      (s.peerCtxTransmit c enable).chipRecovery = s.chipRecovery := by
    unfold peerCtxTransmit
    split
    · split
      · exact ⟨rfl, rfl⟩
      · split
        · exact ⟨rfl, rfl⟩
        · exact hadd _ _ _
    · split
      · exact ⟨rfl, rfl⟩
      · exact hadd _ _ _
  exact adds_none hc hrd.1 hf hrd.2 hn.ge

/-- The peer that was bound goes from the context to the releases, the new one to the context. -/
theorem adds_bind (s : PeerSys α) (n : IfaceId) (ctx : Option CtxId) (hctx : ctx.isSome = true) :
    s.Adds (s.peerCtxBind n ctx o).2 o := by
  obtain ⟨c, rfl⟩ := Option.isSome_iff_exists.mp hctx
  obtain ⟨hc, -, -, -, hf, hn, -⟩ := s.binds_peerCtxBind n c o
  have hrd : (s.peerCtxBind n (some c) o).2.rdPeer = s.rdPeer ∧
      (s.peerCtxBind n (some c) o).2.chipRecovery = s.chipRecovery := by
    cases hp : (s.ctx c).peer <;> cases o <;> simp [peerCtxBind, peerFree, setBit, setIface, setCtx,
      setPeer, hp]
  refine ⟨hrd.1, hrd.2, hn.ge, fun p => ?_⟩
  have htally := Lib.tally_of_eq_off c (p := fun d => decide ((s.ctx d).peer = some p))
    (q := fun d => decide (((s.peerCtxBind n (some c) o).2.ctx d).peer = some p))
    fun d hne => by rw [hc, Function.update_of_ne hne]
  have hcount : (s.peerCtxBind n (some c) o).2.freed.count p =
      (decide ((s.ctx c).peer = some p)).toNat + s.freed.count p := by
    rw [hf, List.count_append]
    congr 1
    cases (s.ctx c).peer with
    | none => rfl
    | some q => rcases eq_or_ne q p with rfl | hne <;> simp [*]
  have hat : (decide (((s.peerCtxBind n (some c) o).2.ctx c).peer = some p)).toNat =
      if o = some p then 1 else 0 := by
    rw [hc, Function.update_self]
    dsimp only
    split <;> simp [*]
  simp only [PeerSys.places, hrd.1, hcount]
  omega

theorem adds_peerInit (s : PeerSys α) (addr : Option α) (idx : ℕ) :
    s.Adds (s.peerAlloc.peerInit s.next addr idx) none :=
  adds_none (fun _ => rfl) rfl rfl rfl (Nat.le_succ _)

theorem adds_markSaved (s : PeerSys α) (n : IfaceId) (upTo : ℕ) :
    s.Adds (s.markSaved n upTo) none := by
  unfold markSaved
  generalize (List.finRange SKW_MAX_PEER_SUPPORT).take upTo = l
  have hfold : ∀ u : PeerSys α, s.Adds u none → s.Adds (l.foldl (fun t i =>
      if s.rdPeerMap n i = true then
        match s.rdPeer ((s.iface n).lmacId, i) with
        | none => t
        | some p => t.setPeer p fun x => { x with deauthed := true }
      else t) u) none := by
    induction l with
    | nil => exact fun u h => h
    | cons i l ih =>
      intro u h
      apply ih
      dsimp only
      split
      · split
        · exact h
        · exact h.trans (u.adds_setPeer _ _)
      · exact h
  exact hfold s (.refl s)

theorem adds_recoveryIface (s : PeerSys α) (n : IfaceId) (upTo : ℕ) :
    s.Adds (s.recoveryIface n upTo) none := by
  unfold recoveryIface
  split
  · split
    · exact .refl s
    · exact (s.adds_markSaved n _).trans (adds_setIface _ n _)
  · exact (s.adds_markSaved n _).trans (adds_setIface _ n _)
  · exact s.adds_markSaved n upTo
  · exact s.adds_markSaved n upTo
  · exact .refl s

end

section
variable {α : Type*} {s t : PeerSys α} {p : Ptr}

/-- What an operation on peers does to the places: none changes, or a new peer gets its first. -/
structure Settles (s t : PeerSys α) : Prop where
  rdPeer : t.rdPeer = s.rdPeer
  chipRecovery : t.chipRecovery = s.chipRecovery
  next : s.next ≤ t.next
  old : ∀ p, p < s.next → t.places p = s.places p
  new : (∀ p, s.next ≤ p → s.places p = 0) → ∀ p, s.next ≤ p →
    t.places p ≤ 1 ∧ (t.next ≤ p → t.places p = 0)

theorem Adds.settles (h : s.Adds t none) : s.Settles t where
  rdPeer := h.rdPeer
  chipRecovery := h.chipRecovery
  next := h.next
  old p _ := by simp [h.places]
  new h₀ p hp := by simp [h.places, h₀ p hp]

theorem Adds.settles_new (h : s.Adds t (some s.next)) (hn : s.next < t.next) : s.Settles t where
  rdPeer := h.rdPeer
  chipRecovery := h.chipRecovery
  next := h.next
  old p hp := by simp [h.places, hp.ne']
  new h₀ p hp := by
    rw [h.places, h₀ p hp]
    constructor
    · split <;> omega
    · intro hle
      rw [if_neg]
      intro he
      cases he
      exact absurd hle hn.not_ge

theorem adds_unbind (s : PeerSys α) (n : IfaceId) (ctx : Option CtxId) :
    s.Adds (s.peerCtxBind n ctx none).2 none := by
  cases ctx with
  | none => exact .refl s
  | some c => exact s.adds_bind n (some c) rfl

/-- A context is bound to a new peer. -/
theorem adds_bindNew (s : PeerSys α) (n : IfaceId) (c : CtxId) (addr : Option α) (idx : ℕ) :
    let t := ((s.peerAlloc.peerInit s.next addr idx).peerCtxBind n (some c) (some s.next)).2
    s.Adds t (some s.next) ∧ s.next < t.next := by
  intro t
  have hn : t.next = s.next + 1 :=
    (binds_peerCtxBind (s.peerAlloc.peerInit s.next addr idx) n c (some s.next)).next
  exact ⟨(s.adds_peerInit addr idx).trans (adds_bind _ n (some c) rfl),
    (Nat.lt_succ_self _).trans_eq hn.symm⟩

theorem adds_fault (s : PeerSys α) : s.Adds { s with fault := true } none :=
  adds_none (fun _ => rfl) rfl rfl rfl le_rfl

theorem adds_peerAlloc (s : PeerSys α) : s.Adds s.peerAlloc none :=
  adds_none (fun _ => rfl) rfl rfl rfl (Nat.le_succ _)

/-- A peer is allocated and released before it has an address. -/
theorem settles_peerAlloc (s : PeerSys α) :
    s.Settles (s.peerAlloc.peerFree (some s.next)) :=
  (s.adds_peerAlloc.trans (adds_peerFree _ _)).settles_new (Nat.lt_succ_self _)

/-- A peer is allocated and released again. -/
theorem settles_discard (s : PeerSys α) {addr : Option α} {idx : ℕ} :
    s.Settles ((s.peerAlloc.peerInit s.next addr idx).peerFree (some s.next)) :=
  ((s.adds_peerInit addr idx).trans (adds_peerFree _ _)).settles_new (Nat.lt_succ_self _)

theorem settles_modeDeinit (s : PeerSys α) (n : IfaceId) (iftype : Iftype) :
    s.Settles (s.modeDeinit n iftype) := by
  unfold modeDeinit
  split
  · exact ((s.adds_unbind n _).trans (adds_setIface _ n _)).settles
  · exact (Adds.refl s).settles

theorem settles_sapDelSta (s : PeerSys α) (n : IfaceId) (ctx : Option CtxId) (ret : ℤ) :
    s.Settles (s.sapDelSta n ctx ret).2 := by
  unfold sapDelSta
  split
  · exact (Adds.refl s).settles
  · next c =>
    split
    · exact (Adds.refl s).settles
    · next p hp =>
      have hd := (s.adds_transmit c false).trans
        (adds_setPeer _ p fun x => { x with deauthed := true })
      dsimp only
      split
      · exact hd.settles
      · exact (hd.trans (adds_unbind _ n (some c))).settles

theorem settles_join (s : PeerSys α) (n : IfaceId) (bssid : α) (alloc : Bool) (ret : ℤ)
    (lmac idx : BitVec 8) : s.Settles (s.join n bssid alloc ret lmac idx).2 := by
  unfold join
  split
  · exact (Adds.refl s).settles
  · split
    · exact s.settles_peerAlloc
    · dsimp only
      split
      · exact s.settles_discard
      · next hidx =>
        split
        · next hl =>
          have hget : getCtx ⟨lmac.toNat, hl⟩ idx =
            some (⟨lmac.toNat, hl⟩, ⟨idx.toNat, not_le.mp hidx⟩) := dif_pos (not_le.mp hidx)
          rw [hget]
          obtain ⟨hb, hn⟩ := s.adds_bindNew n (⟨lmac.toNat, hl⟩, ⟨idx.toNat, not_le.mp hidx⟩)
            (some bssid) idx.toNat
          dsimp only
          exact (hb.then (adds_setIface _ n _)).settles_new hn
        · exact ((s.adds_peerInit (some bssid) idx.toNat).trans (adds_fault _)).settles

variable [DecidableEq α]

theorem settles_unjoin (s : PeerSys α) (n : IfaceId) (bssid : α) (ret : ℤ) :
    s.Settles (s.unjoin n bssid ret).2 := by
  unfold unjoin
  split
  · exact (Adds.refl s).settles
  · next c _ =>
    have ht := s.adds_transmit c false
    dsimp only
    split
    · exact ht.settles
    · apply Adds.settles
      apply ht.trans
      exact (adds_setIface _ n fun x => { x with bssCtxIdx := 0xff }).trans (adds_unbind _ n _)

theorem settles_addStation (s : PeerSys α) (n : IfaceId) (mac : α) (alloc : Bool) (ret : ℤ)
    (idx : BitVec 8) : s.Settles (s.addStation n mac alloc ret idx).2 := by
  unfold addStation
  split
  · next c _ => exact (s.adds_transmit c false).settles
  · split
    · exact (Adds.refl s).settles
    · split
      · exact s.settles_peerAlloc
      · dsimp only
        split
        · exact s.settles_discard
        · next c _ =>
          obtain ⟨hb, hn⟩ := s.adds_bindNew n c (some mac) idx.toNat
          apply (hb.then (adds_transmit _ c false)).settles_new
          rw [(transmit_frame _ c false).2.1]
          exact hn

theorem settles_step {e : PeerEvent α} (he : e ≠ .recoveryPrepare) (hs : s.step e = some t) :
    s.Settles t := by
  cases e with
  | addStation n mac alloc ret idx =>
    cases hs
    exact s.settles_addStation n mac alloc ret idx
  | sapDelSta n ctx ret =>
    cases hs
    exact s.settles_sapDelSta n ctx ret
  | join n bssid alloc ret lmac idx =>
    cases hs
    exact s.settles_join n bssid alloc ret lmac idx
  | unjoin n bssid ret =>
    cases hs
    exact s.settles_unjoin n bssid ret
  | transmit ctx enable =>
    cases ctx with
    | none =>
      cases hs
      exact (Adds.refl s).settles
    | some c =>
      cases hs
      exact (s.adds_transmit c enable).settles
  | ifaceTeardown n =>
    cases hs
    exact s.settles_modeDeinit n _
  | modeDeinit n iftype =>
    cases hs
    exact s.settles_modeDeinit n iftype
  | recoveryPrepare => exact absurd rfl he

end
end PeerSys

theorem mem_allCtx (c : CtxId) : c ∈ allCtx := by
  simp only [allCtx, List.mem_flatMap, List.mem_map]
  exact ⟨c.1, List.mem_finRange _, c.2, List.mem_finRange _, rfl⟩

theorem nodup_allCtx : allCtx.Nodup := by decide

namespace PeerSys
variable {α : Type*} {s : PeerSys α} {p : Ptr}

theorem mem_bound : p ∈ s.bound ↔ ∃ c, (s.ctx c).peer = some p := by
  simp [bound, mem_allCtx]

theorem count_saved (s : PeerSys α) (p : Ptr) :
    (allCtx.filterMap s.rdPeer).count p = Lib.tally fun c => decide (s.rdPeer c = some p) :=
  Lib.count_filterMap_eq_tally nodup_allCtx mem_allCtx s.rdPeer p

theorem places_freeSaved (s : PeerSys α) (p : Ptr) : s.freeSaved.places p = s.places p := by
  have hnone : (fun c : CtxId => decide (s.freeSaved.rdPeer c = some p)) = fun _ => false := rfl
  have hfreed : s.freeSaved.freed.count p =
      Lib.tally (fun c => decide (s.rdPeer c = some p)) + s.freed.count p := by
    have hrev : s.freeSaved.freed = (allCtx.filterMap s.rdPeer).reverse ++ s.freed := rfl
    rw [hrev, List.count_append, List.count_reverse, count_saved]
  rw [places, places, hnone, Lib.tally_false, hfreed, ← Nat.add_assoc]
  rfl

/-- The contexts' peers go to the empty table, or there are none. -/
theorem places_recoveryPrepare (h₀ : s.chipRecovery = false → ∀ c, s.rdPeer c = none)
    (h₁ : s.chipRecovery = true → ∀ c, (s.ctx c).peer = none) (p : Ptr) :
    s.recoveryPrepare.places p = s.places p := by
  have hctx : (fun c : CtxId => decide ((s.recoveryPrepare.ctx c).peer = some p)) =
    fun _ => false := rfl
  rw [places, places, hctx, Lib.tally_false]
  cases hchip : s.chipRecovery with
  | false =>
    have hrd : s.recoveryPrepare.rdPeer = fun c => (s.ctx c).peer := by
      simp [recoveryPrepare, hchip]
    have hnone : (fun c : CtxId => decide (s.rdPeer c = some p)) = fun _ => false := by
      funext c
      simp [h₀ hchip c]
    rw [hrd, hnone, Lib.tally_false, Nat.zero_add, Nat.add_zero]
    rfl
  | true =>
    have hrd : s.recoveryPrepare.rdPeer = s.rdPeer := by simp [recoveryPrepare, hchip]
    have hnone : (fun c : CtxId => decide ((s.ctx c).peer = some p)) = fun _ => false := by
      funext c
      simp [h₁ hchip c]
    rw [hrd, hnone, Lib.tally_false]
    rfl

theorem one_le_places (h : p ∈ s.bound) : 1 ≤ s.places p := by
  obtain ⟨c, hc⟩ := mem_bound.mp h
  have hpos : Lib.tally (fun c => decide ((s.ctx c).peer = some p)) ≠ 0 := by
    intro h0
    have := Lib.tally_eq_zero.mp h0 c
    simp [hc] at this
  rw [places]
  omega

end PeerSys

namespace RecoverySys
section
variable {α : Type*}

structure Inv (s : RecoverySys α) : Prop where
  atMost : ∀ p, s.peers.places p ≤ 1
  fresh : ∀ p, s.peers.next ≤ p → s.peers.places p = 0
  held : ∀ p ∈ s.held, p < s.peers.next ∧ s.peers.places p = 1
  idle : s.peers.chipRecovery = false → ∀ c, s.peers.rdPeer c = none
  filled : s.badAccess = false
  emptied : s.succeeded = true → ∀ c, s.peers.rdPeer c = none

variable {s t : RecoverySys α} {p : Ptr}

theorem Inv.lt_next (h : s.Inv) (hp : 1 ≤ s.peers.places p) : p < s.peers.next := by
  by_contra hge
  have := h.fresh p (not_lt.mp hge)
  omega

theorem Inv.kept (h : s.Inv) : s.Kept where
  once p hp := (h.held p hp).2
  filled := h.filled
  emptied hs := by
    refine ⟨h.emptied hs, List.nodup_iff_count_le_one.mpr fun p => ?_⟩
    have := h.atMost p
    rw [PeerSys.places] at this
    omega

/-- The peers change as one of their operations changes them. -/
theorem Inv.settles (h : s.Inv) {t : PeerSys α} (ht : s.peers.Settles t) :
    Inv { s with peers := t } where
  atMost p := by
    rcases lt_or_ge p s.peers.next with hp | hp
    · exact (ht.old p hp).trans_le (h.atMost p)
    · exact (ht.new h.fresh p hp).1
  fresh p hp := (ht.new h.fresh p (ht.next.trans hp)).2 hp
  held p hp := by
    obtain ⟨hlt, hone⟩ := h.held p hp
    exact ⟨hlt.trans_le ht.next, (ht.old p hlt).trans hone⟩
  idle hchip c := by
    have := h.idle (ht.chipRecovery ▸ hchip) c
    exact (congrFun ht.rdPeer c).trans this
  filled := h.filled
  emptied hs c := (congrFun ht.rdPeer c).trans (h.emptied hs c)

theorem Inv.start (h : s.Inv)
    (hg : s.peers.chipRecovery = true → ∀ c, (s.peers.ctx c).peer = none) :
    Inv { s with
      peers := s.peers.recoveryPrepare
      working := true
      succeeded := false
      held := s.held ++ s.peers.bound } where
  atMost p := by
    rw [PeerSys.places_recoveryPrepare h.idle hg]
    exact h.atMost p
  fresh p hp := by
    rw [PeerSys.places_recoveryPrepare h.idle hg]
    exact h.fresh p hp
  held p hp := by
    rw [PeerSys.places_recoveryPrepare h.idle hg]
    rcases List.mem_append.mp hp with hp | hp
    · exact h.held p hp
    · have hone := PeerSys.one_le_places hp
      exact ⟨h.lt_next hone, (h.atMost p).antisymm hone⟩
  idle hchip := by cases hchip
  filled := h.filled
  emptied hs := by cases hs

theorem Inv.freeSaved (h : s.Inv) {chip working succeeded closed : Bool} :
    Inv { s with
      peers := { s.peers.freeSaved with chipRecovery := chip }
      working := working
      succeeded := succeeded
      closed := closed } where
  atMost p := (s.peers.places_freeSaved p).trans_le (h.atMost p)
  fresh p hp := (s.peers.places_freeSaved p).trans (h.fresh p hp)
  held p hp := ⟨(h.held p hp).1, (s.peers.places_freeSaved p).trans (h.held p hp).2⟩
  idle _ _ := rfl
  filled := h.filled
  emptied _ _ := rfl

theorem Inv.delPeer (h : s.Inv) {n : IfaceId} {idx : BitVec 8}
    (hg : s.peers.chipRecovery = true →
      ((PeerSys.getCtx (s.peers.iface n).lmacId idx).bind s.peers.rdPeer).isSome = true) :
    (s.delPeer n idx).Inv := by
  unfold RecoverySys.delPeer
  split
  · exact h
  · next hchip =>
    have hsome := hg (by simpa using hchip)
    cases hc : PeerSys.getCtx (s.peers.iface n).lmacId idx with
    | none => simp [hc] at hsome
    | some c =>
      cases hp : s.peers.rdPeer c with
      | none => simp [hc, hp] at hsome
      | some p =>
        dsimp only
        rw [hp]
        exact h.settles (s.peers.adds_setPeer p _).settles

variable [DecidableEq α]

theorem Inv.step (h : s.Inv) {e : RecoveryEvent α} (hg : s.Guarded e) (hs : s.step e = some t) :
    t.Inv := by
  cases e with
  | start =>
    simp only [RecoverySys.step] at hs
    split at hs
    · cases hs
    · cases hs
      exact h.start hg
  | recoverIface n upTo =>
    simp only [RecoverySys.step] at hs
    split at hs
    · cases hs
      exact h.settles (s.peers.adds_recoveryIface n upTo).settles
    · cases hs
  | finish ret =>
    simp only [RecoverySys.step] at hs
    split at hs
    · cases hs
    · split at hs
      · cases hs
        exact ⟨h.atMost, h.fresh, h.held, h.idle, h.filled, h.emptied⟩
      · cases hs
        exact h.freeSaved
  | delPeer n idx =>
    simp only [RecoverySys.step] at hs
    split at hs
    · cases hs
    · cases hs
      exact h.delPeer hg
  | peers e =>
    by_cases he : e = .recoveryPrepare
    · subst he
      cases hs
    · have hstep : s.step (.peers e) = if s.closed = true then none
          else (s.peers.step e).map fun t => { s with peers := t } := by
        cases e <;> first | rfl | exact absurd rfl he
      rw [hstep] at hs
      split at hs
      · cases hs
      · obtain ⟨u, hu, rfl⟩ := Option.map_eq_some_iff.mp hs
        exact h.settles (PeerSys.settles_step he hu)
  | deinit =>
    simp only [RecoverySys.step] at hs
    split at hs
    · cases hs
    · cases hs
      exact h.freeSaved

end

section
variable {α : Type*} [DecidableEq α]

def init (peers : PeerSys α) : RecoverySys α := ⟨peers, false, false, [], false, false⟩

/-- Runs whose steps are guarded keep every peer in one place. -/
theorem kept_of_guarded (nrLmac : ℕ) (peer : Ptr → CtxPeer α)
    (lmacId : IfaceId → Fin SKW_MAX_LMAC_SUPPORT) (iftype : IfaceId → Iftype)
    (legacy : IfaceId → Bool) (s : RecoverySys α)
    (h : Lib.Reach step Guarded (init (PeerSys.init nrLmac peer lmacId iftype legacy)) s) :
    s.Kept := by
  have hzero : ∀ p, (PeerSys.init nrLmac peer lmacId iftype legacy).places p = 0 := by
    intro p
    have hctx : Lib.tally (fun _ : CtxId => false) = 0 := Lib.tally_false
    exact congrArg₂ (· + · + 0) hctx hctx
  have h₀ : (init (PeerSys.init nrLmac peer lmacId iftype legacy)).Inv :=
    ⟨fun p => (hzero p).trans_le (Nat.zero_le 1), fun p _ => hzero p, nofun, fun _ _ => rfl, rfl,
      fun _ _ => rfl⟩
  exact (h.invariant h₀ fun _ _ _ hi hg hs => hi.step hg hs).kept

end

/-- A station that joined is saved, and a recovery fails once before it succeeds. -/
theorem kept_of_guarded_twice :
    ∃ s, Lib.Reach step Guarded (init PeerSys.twoLmacs) s ∧ s.held = [1] ∧
      s.peers.freed = [1] ∧ s.Kept := by
  obtain ⟨s, hs, hp⟩ := Lib.exists_reach_of_exec step Guarded (init PeerSys.twoLmacs)
    [.peers (.join 0 7 true 0 1 3), .start, .delPeer 0 3, .finish 5, .start, .recoverIface 0 32,
      .finish 0]
    (fun s => s.held == [1] && s.peers.freed == [1]) (by decide +kernel)
  simp only [Bool.and_eq_true, beq_iff_eq] at hp
  exact ⟨s, hs, hp.1, hp.2, kept_of_guarded _ _ _ _ _ s hs⟩

/-- A station joins after a recovery failed, and the next run starts. -/
theorem restarted_not_kept :
    ¬ ∀ s, Lib.Reach step Lib.Free (init PeerSys.twoLmacs) s → s.Kept := by
  intro h
  obtain ⟨s, hs, hp⟩ := Lib.exists_reach_of_exec step Lib.Free (init PeerSys.twoLmacs)
    [.start, .finish 5, .peers (.join 0 7 true 0 1 3), .start]
    (fun s => s.held == [1] && s.peers.places 1 == 0) (by decide +kernel)
  simp only [Bool.and_eq_true, beq_iff_eq] at hp
  have hone := (h s hs).once 1 (by rw [hp.1]; exact List.mem_singleton.mpr rfl)
  rw [hp.2] at hone
  cases hone

end RecoverySys
end Skw
