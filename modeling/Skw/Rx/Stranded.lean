import Skw.Rx.Arrival

/-! Frames that wait in a session are not forgotten as long as `stored_num` does not wrap. A release
that purges a tainted slot leaves it counted, so that the counter can grow without bound. -/
namespace Skw

/-- What calls the reordering of a session until `skw_del_tid_rx`. -/
inductive TidCall
  | event (e : RxEvent)
  | updateTidRx (ssn : Fin 65536)

namespace Rx

def updateTidRx (x : Rx) (ssn : ℕ) : Rx :=
  if x.live then
    let todo := { x.reorder.todo with seq := ssn, reason := .bar }
    { x with
      reorder :=
        { x.reorder with
          todo := if todo.actived then todo else { todo with actived := true, linked := true } } }
  else x

def call (x : Rx) : TidCall → Option Rx
  | .event e => x.step e
  | .updateTidRx ssn => some (x.updateTidRx ssn)

/-- A frame that gets as far as the window finds room in the counter. -/
def Room (x : Rx) : TidCall → Prop
  | .event (.frame skb) => x.Reaches skb → x.tid.storedNum ≠ BitVec.allOnes 32
  | _ => True

instance (x : Rx) (c : TidCall) : Decidable (x.Room c) :=
  match c with
  | .event (.frame _) => inferInstanceAs (Decidable (_ → _ ≠ _))
  | .event .timeout => inferInstanceAs (Decidable True)
  | .event .todo => inferInstanceAs (Decidable True)
  | .event (.tick _) => inferInstanceAs (Decidable True)
  | .updateTidRx _ => inferInstanceAs (Decidable True)

/-- What holds between calls. -/
structure Attended (ws : ℕ) (x : Rx) : Prop extends Counted ws x, Ready x where
  env : x.env = (true, true, true)
  armed : x.Armed

variable {ws : ℕ} {x y : Rx}

theorem Attended.frame (hz : WinSize ws) (h : Attended ws x)
    {skb : Skb} (hroom : x.Reaches skb → x.tid.storedNum ≠ BitVec.allOnes 32) :
    Attended ws (x.ampduReorder (x.fresh skb)) := by
  have ht : Takes ws (x.fresh skb) false x (x.ampduReorder (x.fresh skb)) :=
    h.toCounted.takes_ampduReorder hz h.toReady h.env rfl hroom
  exact ⟨ht.counted, ht.ready, (env_ampduReorder x _).trans h.env, ht.armed (.inr h.armed)⟩

/-- The timer that fires is that of the session, so that its node is linked. -/
theorem Attended.timeout (h : Attended ws x) (hp : x.timerPending = true) :
    Attended ws x.delTimer.reorderTimeoutFn := by
  have href : x.delTimer.reorder.refCnt = x.delTimer.reorder.expired.refCnt :=
    (h.expired hp).symm
  have hd := h.toCounted.timeout
  have hrdy := hd.ready h.toReady
  have hlinked : x.delTimer.reorderTimeoutFn.reorder.todo.actived = true ∧
      x.delTimer.reorderTimeoutFn.reorder.todo.linked = true ∧
      x.delTimer.reorderTimeoutFn.env = x.env := by
    unfold reorderTimeoutFn at hrdy ⊢
    rw [if_neg (not_not.mpr href)] at hrdy ⊢
    split_ifs at hrdy ⊢ with ha
    · exact ⟨ha, hrdy.linked ha, rfl⟩
    · exact ⟨rfl, rfl, rfl⟩
  exact ⟨hd.counted, hrdy, hlinked.2.2.trans h.env, fun _ => .inr ⟨hlinked.1, hlinked.2.1⟩⟩

theorem Attended.todo (hz : WinSize ws) (h : Attended ws x) : Attended ws x.rxTodo := by
  have hlive : x.live = true := congrArg (fun e => e.2.1) h.env
  obtain ⟨hd, hrdy, harmed⟩ := h.toCounted.rxTodo hz h.toTimed hlive
  exact ⟨hd.counted, hrdy, (env_rxTodo x).trans h.env, harmed⟩

theorem Attended.updateTidRx (h : Attended ws x) (ssn : ℕ) : Attended ws (x.updateTidRx ssn) := by
  have hlive : x.live = true := congrArg (fun e => e.2.1) h.env
  unfold Rx.updateTidRx
  rw [if_pos hlive]
  refine ⟨⟨h.size, h.start, h.card⟩, ⟨⟨h.refCnt, h.expired⟩, ?_⟩, h.env, fun _ => .inr ?_⟩
  · unfold Linked
    dsimp only
    split
    · next ha => exact fun _ => h.linked ha
    · exact fun _ => rfl
  · dsimp only
    split
    · next ha => exact ⟨ha, h.linked ha⟩
    · exact ⟨rfl, rfl⟩

theorem Attended.call (hz : WinSize ws) (h : Attended ws x) {c : TidCall} (hg : x.Room c)
    (hs : x.call c = some y) : Attended ws y := by
  cases c with
  | updateTidRx ssn =>
    cases hs
    exact h.updateTidRx ssn
  | event e =>
    cases e with
    | frame skb =>
      cases hs
      exact h.frame hz hg
    | timeout =>
      simp only [Rx.call, Rx.step] at hs
      split at hs
      · next e he =>
        split_ifs at hs
        cases hs
        exact h.timeout (by rw [timerPending, he]; rfl)
      · cases hs
    | todo =>
      simp only [Rx.call, Rx.step] at hs
      split_ifs at hs
      cases hs
      exact h.todo hz
    | tick n =>
      cases hs
      exact ⟨⟨h.size, h.start, h.card⟩, ⟨⟨h.refCnt, h.expired⟩, h.linked⟩, h.env, h.armed⟩

/-- In runs in which the counter has room for every frame no stored frame is stranded. -/
theorem armed_of_room (now reorderTimeout : Jiffies) (p : Peer) (r : ReorderRx)
    (ssn bufSize : Fin 65536) (hpow : ∃ k, (newTidRx r ssn bufSize).winSize = 2 ^ k)
    (hge : 128 ≤ (newTidRx r ssn bufSize).winSize) (hle : (newTidRx r ssn bufSize).winSize ≤ 1024)
    (x : Rx)
    (h : Lib.Reach call Room (addTidRx now reorderTimeout p { r with timer := none } ssn bufSize)
      x) : x.Armed := by
  have hz := WinSize.of_pow hpow hge hle
  have hinit : Attended (newTidRx r ssn bufSize).winSize
      (addTidRx now reorderTimeout p { r with timer := none } ssn bufSize) := by
    refine ⟨⟨rfl, rfl, ?_⟩, ⟨⟨rfl, fun hf => absurd hf Bool.false_ne_true⟩,
      fun hf => absurd hf Bool.false_ne_true⟩, rfl, ?_⟩
    · simp [addTidRx, newTidRx, TidRx.occupied]
    · rintro ⟨i, -, hne⟩
      exact absurd rfl hne
  exact (h.invariant hinit fun _ _ _ hi hg hs => hi.call hz hg hs).armed

/-- Two frames behind a gap: the first is released when its time is over, and the timer is set for
the second. -/
theorem armed_of_room_gap :
    ∃ x, Lib.Reach call Room session x ∧ (x.released.map fun r => r.skb.sn) = [3] ∧
      x.tid.storedNum = 1 ∧ x.timerPending = true ∧ x.Armed := by
  obtain ⟨x, hx, hp⟩ := Lib.exists_reach_of_exec call Room session
    [.event (.frame (plain 3)), .event (.tick 60), .event (.frame (plain 7)), .event (.tick 60),
      .event .timeout, .event .todo]
    (fun x => (x.released.map fun r => r.skb.sn) == [3] && x.tid.storedNum == 1 && x.timerPending)
    (by decide +kernel)
  simp only [Bool.and_eq_true, beq_iff_eq] at hp
  exact ⟨x, hx, hp.1.1, hp.1.2, hp.2,
    armed_of_room 0 100 ⟨0, 0, 0⟩ noReorder 0 64 ⟨7, rfl⟩ (by decide) (by decide) x hx⟩

/-- The first subframe of an A-MSDU, with a SNAP header where its addresses should be. -/
def attack : Skb :=
  { plain (0#12).toFin with
    desc := { (plain (0#12).toFin).desc with isAmsdu := true, amsduFirstIdx := true }
    hDest := 0xAAAA03000000 }

/-- The session with nothing stored, whatever its counter says. -/
def drained (n : BitVec 32) (bytes pkts : BitVec 64) (e : RxTimer) (t : RxTodo)
    (freed : List Skb) : Rx :=
  { session with
    peer := some ⟨0, bytes, pkts⟩
    reorder := { noReorder with expired := e, todo := { t with actived := false } }
    tid := { session.tid with storedNum := n }
    freed }

/-- The loop finds nothing and no timer. -/
theorem releaseLoop_of_empty (h : ∀ i, x.tid.reorderBuf i = []) (ht : x.timerPending = false)
    (h0 : x.tid.storedNum ≠ 0) (winStart n i : ℕ) (release : Bool) :
    releaseLoop winStart n i release x = x := by
  induction n generalizing i release with
  | zero => rfl
  | succ n ih =>
    unfold releaseLoop
    rw [if_neg h0]
    simp only [h, ht]
    exact ih ..

variable {n : BitVec 32} {bytes pkts : BitVec 64} {e : RxTimer} {t : RxTodo} {freed : List Skb}

/-- The attack in its slot. -/
def marked : Skb := { attack with cb := ⟨0, 1, 0, true, true, false⟩ }

/-- The session with the attack stored; `timer` and `t` are what is under way for it. -/
def attacked (n : BitVec 32) (bytes pkts : BitVec 64) (timer : Option Jiffies) (t : RxTodo)
    (freed : List Skb) : Rx :=
  { (drained n bytes pkts ⟨0, 0⟩ t freed).put 0 [marked] with
    reorder := { noReorder with timer, expired := ⟨0, 0⟩, todo := t } }

theorem slot_drained (i : ℕ) : (drained n bytes pkts e t freed).tid.reorderBuf i = [] := rfl

theorem markAmsdu_attack : markAmsdu attack attack.cb = marked.cb := by decide

theorem joined_attack : (drained n bytes pkts e t freed).joined attack = marked.cb := by
  unfold joined
  rw [slot_drained]
  exact markAmsdu_attack

theorem withSubframe_attack : (drained n bytes pkts e t freed).withSubframe attack = [marked] := by
  unfold withSubframe
  rw [joined_attack, slot_drained]
  rfl

/-- A frame that passes the filters gets to the window. -/
theorem ampduReorder_drained {skb : Skb} (hf : filtered ⟨0, bytes, pkts⟩ skb = false)
    (hq : (!skb.desc.isQosData || skb.desc.isMcAddr) = false)
    (hm : (skb.desc.moreFrag || skb.desc.fragNum != 0) = false) :
    (drained n bytes pkts e t freed).ampduReorder skb =
      (drained n (bytes + skb.len) (pkts + 1) e t freed).tidReorder skb := by
  have hflag : (drained n bytes pkts e t freed).reorderFlag = true := rfl
  have hpeer : (drained n bytes pkts e t freed).peer = some ⟨0, bytes, pkts⟩ := rfl
  have hlive : (drained n bytes pkts e t freed).live = true := rfl
  unfold ampduReorder
  rw [if_neg (by simp [hflag])]
  simp only [hpeer, hf, hq, hm, Bool.false_eq_true, if_false]
  rw [if_neg (by simp [hlive])]
  rfl

theorem amsduInSlot_attack :
    (drained n bytes pkts e t freed).amsduInSlot false attack =
      ((drained n bytes pkts e t freed).put 0 [marked]).out false (some 0) := by
  have hi : attack.sn % (drained n bytes pkts e t freed).tid.winSize = 0 := rfl
  rcases amsduInSlot_cases hi rfl false with ⟨-, hne, -⟩ | ⟨-, ⟨-, hin⟩ | ⟨hm, -⟩ | ⟨hm, -⟩⟩
  · exact absurd rfl hne
  · rw [hin, withSubframe_attack]
    rfl
  · rw [joined_attack] at hm
    exact absurd hm (by decide)
  · rw [joined_attack] at hm
    exact absurd hm (by decide)

theorem out_attack (h0 : n + 1 ≠ 0) :
    ((drained n bytes pkts e t freed).put 0 [marked]).out false (some 0) =
      attacked n bytes pkts (some 100) { t with actived := false } freed := by
  have hn : ((drained n bytes pkts e t freed).put 0 [marked]).tid.storedNum = n + 1 := rfl
  unfold out
  rw [hn, if_pos h0]
  rfl

/-- The attack is stored and the timer set for it. -/
theorem call_attack (h0 : n + 1 ≠ 0) :
    (drained n bytes pkts e t freed).call (.event (.frame attack)) =
      some (attacked n (bytes + (attack.len : BitVec 64)) (pkts + 1) (some 100)
        { t with actived := false } freed) := by
  have hpass : (drained n bytes pkts e t freed).ampduReorder attack =
      (drained n (bytes + attack.len) (pkts + 1) e t freed).tidReorder attack :=
    ampduReorder_drained (by simp [filtered]) rfl rfl
  have hslot : ∀ b p, (drained n b p e t freed).tidReorder attack =
      (drained n b p e t freed).amsduInSlot false attack := by
    intro b p
    have hl : ieee80211SnLess 0 0 = false := by decide
    have hin : ieee80211SnLess 0 (u16 (0 + u16 128)) = true := by decide
    exact tidReorder_of_in hl hin
  have hfresh : (drained n bytes pkts e t freed).fresh attack = attack := rfl
  rw [Rx.call, Rx.step, hfresh, hpass, hslot, amsduInSlot_attack, out_attack h0]

/-- A block ack request from before the window puts the node in the list. -/
theorem call_updateTidRx (ha : t.actived = false) :
    (attacked n bytes pkts (some 100) t freed).call (.updateTidRx (4094#16).toFin) =
      some (attacked n bytes pkts (some 100) ⟨true, 4094, .bar, true⟩ freed) := by
  have hlive : (attacked n bytes pkts (some 100) t freed).live = true := rfl
  rw [Rx.call, updateTidRx, if_pos hlive]
  have htodo : (attacked n bytes pkts (some 100) t freed).reorder.todo = t := rfl
  simp only [htodo, ha]
  rfl

/-- The request is before the window, so that only the timer goes. -/
theorem forceRelease_attacked :
    (attacked n bytes pkts (some 100) ⟨false, 4094, .bar, true⟩ freed).forceRelease 4094 =
      attacked n bytes pkts none ⟨false, 4094, .bar, true⟩ freed := by
  have hless : ieee80211SnLess 0 (ieee80211SnInc 4094) = false := by decide
  unfold forceRelease
  rw [forceLoop_of_not_less _ (by rw [delTimerIf_tid]; exact hless)]
  rfl

theorem purgeSlot_attacked :
    (attacked n bytes pkts none { t with actived := false } freed).purgeSlot 0 =
      drained (n + 1) bytes pkts ⟨0, 0⟩ t (freed ++ [marked]) := by
  have hbuf : Function.update (Function.update (fun _ => []) 0 [marked]) 0 [] =
      (fun _ => [] : ℕ → List Skb) := by
    rw [Function.update_idem, Function.update_eq_self_iff]
  have htid : (attacked n bytes pkts none { t with actived := false } freed).purgeSlot 0 =
    { drained (n + 1) bytes pkts ⟨0, 0⟩ t (freed ++ [marked]) with
      tid := { (attacked n bytes pkts none t freed).tid with
        reorderBuf := Function.update (Function.update (fun _ => []) 0 [marked]) 0 [] } } := rfl
  rw [htid, hbuf]
  rfl

/-- A tainted slot is purged. -/
theorem releaseLoop_of_tainted {winStart i m : ℕ} {skb : Skb} {l : List Skb}
    (h0 : x.tid.storedNum ≠ 0)
    (hs : x.tid.reorderBuf ((winStart + i) % x.tid.winSize) = skb :: l)
    (ht : skb.cb.taint = true) (hp : x.timerPending = false) :
    releaseLoop winStart (m + 1) i true x =
      releaseLoop winStart m (i + 1) false (x.purgeSlot ((winStart + i) % x.tid.winSize)) := by
  rw [releaseLoop, if_neg h0]
  simp only [hs, ht, hp, Bool.not_true, Bool.false_eq_true, if_false, if_true, Bool.false_and,
    delTimerIf]

/-- The release finds the attack at the start of the window, and then nothing. -/
theorem reorderRelease_attacked (h0 : n + 1 ≠ 0) :
    (attacked n bytes pkts none { t with actived := false } freed).reorderRelease =
      drained (n + 1) bytes pkts ⟨0, 0⟩ t (freed ++ [marked]) := by
  have hlive : (attacked n bytes pkts none { t with actived := false } freed).live = true := rfl
  have hsize : (attacked n bytes pkts none { t with actived := false } freed).tid.winSize =
    127 + 1 := rfl
  have hstart : (attacked n bytes pkts none { t with actived := false } freed).tid.winStart = 0 :=
    rfl
  have hindex : (0 + 0) % (127 + 1) = 0 := rfl
  have hslot : (attacked n bytes pkts none { t with actived := false } freed).tid.reorderBuf
    ((0 + 0) % (attacked n bytes pkts none { t with actived := false } freed).tid.winSize) =
      [marked] := rfl
  unfold reorderRelease
  rw [if_pos hlive, hstart, hsize, releaseLoop_of_tainted h0 hslot rfl rfl, hsize, hindex,
    purgeSlot_attacked]
  exact releaseLoop_of_empty (fun _ => rfl) rfl h0 ..

/-- The request is before the window, and the release that follows purges the slot. -/
theorem call_todo (h0 : n + 1 ≠ 0) :
    (attacked n bytes pkts (some 100) ⟨true, 4094, .bar, true⟩ freed).call (.event .todo) =
      some (drained (n + 1) bytes pkts ⟨0, 0⟩ ⟨false, 4094, .bar, false⟩ (freed ++ [marked])) := by
  have hlive : (attacked n bytes pkts (some 100) ⟨true, 4094, .bar, true⟩ freed).live = true := rfl
  have hunlink : (attacked n bytes pkts (some 100) ⟨true, 4094, .bar, true⟩ freed).unlinkTodo =
    attacked n bytes pkts (some 100) ⟨false, 4094, .bar, true⟩ freed := rfl
  have hseq : (attacked n bytes pkts (some 100) ⟨true, 4094, .bar, true⟩ freed).reorder.todo.seq =
    4094 := rfl
  have hclear : (attacked n bytes pkts none ⟨false, 4094, .bar, true⟩ freed).clearActived =
    attacked n bytes pkts none ⟨false, 4094, .bar, false⟩ freed := rfl
  have htodo : (attacked n bytes pkts (some 100) ⟨true, 4094, .bar, true⟩ freed).rxTodo =
      drained (n + 1) bytes pkts ⟨0, 0⟩ ⟨false, 4094, .bar, false⟩ (freed ++ [marked]) := by
    rw [rxTodo_of_live hlive, hunlink, hseq, forceRelease_attacked, hclear]
    exact reorderRelease_attacked (t := ⟨false, 4094, .bar, false⟩) h0
  have hlinked : (attacked n bytes pkts (some 100) ⟨true, 4094, .bar, true⟩
    freed).reorder.todo.linked = true := rfl
  rw [Rx.call, Rx.step, if_pos hlinked, htodo]

/-- Every attack that is purged leaves one more in the counter. -/
theorem reach_drained (k : ℕ) (hk : k < 2 ^ 32) : ∃ bytes pkts e t freed,
    Lib.Reach call Lib.Free session (drained (BitVec.ofNat 32 k) bytes pkts e t freed) := by
  induction k with
  | zero => exact ⟨0, 0, ⟨0, 0⟩, ⟨false, 0, .invalid, false⟩, [], .init⟩
  | succ k ih =>
    obtain ⟨bytes, pkts, e, t, freed, hr⟩ := ih (by omega)
    have hn : BitVec.ofNat 32 k + 1 = BitVec.ofNat 32 (k + 1) := by
      rw [BitVec.ofNat_add]
      rfl
    have h0 : BitVec.ofNat 32 k + 1 ≠ 0 := by
      rw [hn]
      intro hz
      have hmod : (k + 1) % 2 ^ 32 = 0 := congrArg BitVec.toNat hz
      omega
    have h1 := hr.next trivial (call_attack h0)
    have h2 := h1.next trivial (call_updateTidRx rfl)
    have h3 := h2.next trivial (call_todo h0)
    rw [hn] at h3
    exact ⟨_, _, _, _, _, h3⟩

/-- The counter is zero after a frame is stored, and the timer is not set. -/
theorem call_wrapped (h0 : n + 1 = 0) :
    ∃ x, (drained n bytes pkts e t freed).call (.event (.frame (plain 5))) = some x ∧
      ¬ x.Armed := by
  have hpass : (drained n bytes pkts e t freed).ampduReorder (plain 5) =
      (drained n (bytes + (plain 5).len) (pkts + 1) e t freed).tidReorder (plain 5) :=
    ampduReorder_drained (by simp [filtered]) rfl rfl
  generalize bytes + ((plain 5).len : BitVec 64) = b at hpass
  generalize pkts + 1 = p at hpass
  have hslot : (drained n b p e t freed).tidReorder (plain 5) =
      ((drained n b p e t freed).put 5 [plain 5]).uncount.inSlot false (plain 5) := by
    have hl : ieee80211SnLess 5 0 = false := by decide
    have hin : ieee80211SnLess 5 (u16 (0 + u16 128)) = true := by decide
    rw [uncount_put_of_empty rfl]
    exact tidReorder_of_in hl hin
  have hstay : ((drained n b p e t freed).put 5 [plain 5]).uncount.inSlot false (plain 5) =
      ((drained n b p e t freed).put 5 [plain 5]).out false (some 5) := by
    have hi : (plain 5).sn % (drained n b p e t freed).tid.winSize = 5 := rfl
    rcases inSlot_uncount hi with ⟨hs, -⟩ | ⟨-, hin⟩
    · have hs : 5 = 0 := hs
      omega
    · exact hin
  have hout : ((drained n b p e t freed).put 5 [plain 5]).out false (some 5) =
      ((drained n b p e t freed).put 5 [plain 5]).delTimer := by
    have hn : ((drained n b p e t freed).put 5 [plain 5]).tid.storedNum = n + 1 := rfl
    rw [out, hn, if_neg (not_not.mpr h0)]
  have hfresh : (drained n bytes pkts e t freed).fresh (plain 5) = plain 5 := rfl
  refine ⟨((drained n b p e t freed).put 5 [plain 5]).delTimer, ?_, fun harmed => ?_⟩
  · rw [Rx.call, Rx.step, hfresh, hpass, hslot, hstay, hout]
  · have hlt : 5 < u16 128 := by decide
    rcases harmed ⟨5, hlt, List.cons_ne_nil (plain 5) []⟩ with hp | ⟨ha, -⟩
    · cases hp
    · cases ha

/-- A frame that is stored after so many attacks is stranded. -/
theorem wrapped_not_armed : ¬ ∀ x, Lib.Reach call Lib.Free session x → x.Armed := by
  intro h
  obtain ⟨bytes, pkts, e, t, freed, hr⟩ := reach_drained (2 ^ 32 - 1) (by omega)
  have h0 : BitVec.ofNat 32 (2 ^ 32 - 1) + 1 = 0 := by decide
  obtain ⟨x, hx, hnot⟩ := @call_wrapped _ bytes pkts e t freed h0
  exact hnot (h x (hr.next trivial hx))

end Rx
end Skw
