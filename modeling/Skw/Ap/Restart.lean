import Skw.Ap.Start
import Skw.Lib.Machine

/-! The recovery's copy of an access point against what the firmware was told: the copy is made by
a start and dropped by a stop, and a change of the beacon leaves it alone. -/
namespace Skw

inductive SapCall
  | startAp (g : SapSettings) (e : StartEnv)
  | changeBeacon (bcn : Option BeaconData) (e : BeaconEnv)
  | stopAp (ret : ℤ)

/-- A start comes to its command. -/
def StartEnv.Sends (e : StartEnv) (g : SapSettings) : Prop :=
  ¬ SapSys.EndsEarly g e ∧ e.recoveryAlloc = true

instance (g : SapSettings) (e : StartEnv) : Decidable (e.Sends g) :=
  inferInstanceAs (Decidable (_ ∧ _))

namespace SapCall

/-- The beacon that the firmware was told last, after a call; there is none while no access point
is started. -/
def after (last : Option FwBeacon) : SapCall → Option FwBeacon
  | .startAp g e => if e.Sends g ∧ e.startRet = 0 then some g.beacon.parts else last
  | .changeBeacon none _ => last
  | .changeBeacon (some b) e =>
    if e.alloc = true ∧ e.ret = 0 then last.map fun old => old.update b.parts else last
  | .stopAp ret => if ret = 0 then none else last

/-- The call does not take the copy away from what the firmware was told: an access point that runs
is neither started nor stopped without success, and a change of its beacon changes nothing. -/
def Keeps (last : Option FwBeacon) : SapCall → Prop
  | .startAp g e => e.Sends g → e.startRet ≠ 0 → last = none
  | .changeBeacon bcn e => SapCall.after last (.changeBeacon bcn e) = last
  | .stopAp ret => ret ≠ 0 → last = none

/-- The offsets in the message of a change have 16 bits. -/
def Addressable : SapCall → Prop
  | .changeBeacon (some b) _ => beaconFixed + b.ies.length < 2 ^ 16
  | _ => True

end SapCall

namespace SapSys

def step (s : SapSys) : SapCall → Option SapSys
  | .startAp g e => (s.startAp g e).map Prod.snd
  | .changeBeacon bcn e => (s.changeBeacon bcn e).map Prod.snd
  | .stopAp ret => some (s.stopAp ret).2

/-- The beacon in the recovery's copy. -/
def saved (s : SapSys) : Option FwBeacon :=
  s.rdParam.map fun x => startapBeacon (x.2.cells.take s.rdSize)

section
variable {s t : SapSys} {g : SapSettings} {e : StartEnv} {c : SapCall}

/-- What follows an accepted start leaves the copy and the firmware's beacon alone. -/
theorem startFinish_beacons (s : SapSys) (g : SapSettings) (e : StartEnv) :
    (s.startFinish g e).2.saved = s.saved ∧ (s.startFinish g e).2.fw = s.fw := by
  obtain ⟨heap, acl, hacl⟩ := s.setMacAcl_frame g.acl e.aclAlloc
  unfold startFinish
  split_ifs
  · exact ⟨rfl, rfl⟩
  · exact ⟨rfl, rfl⟩
  · rw [hacl]
    exact ⟨rfl, rfl⟩

/-- What a start does to the copy, and to what the firmware runs. -/
theorem startAp_beacons (ht : (s.startAp g e).map Prod.snd = some t) :
    (t.saved = if e.Sends g then if e.startRet = 0 then some g.beacon.parts else none
      else s.saved) ∧
    t.fw = if e.Sends g ∧ e.startRet = 0 then some g.beacon.parts else s.fw := by
  have hend := startAp_end s g e
  revert ht hend
  generalize s.startAp g e = r
  intro ht hend
  cases hend with
  | early ret hret hearly =>
    cases ht
    have hsends : ¬ e.Sends g := fun h => h.1 hearly
    rw [if_neg hsends, if_neg fun h => hsends h.1]
    exact ⟨rfl, rfl⟩
  | probeOverflow => cases ht
  | noCopy buf len hearly hfit hcopy =>
    cases ht
    have hne : e.recoveryAlloc ≠ true := by
      rw [hcopy]
      exact Bool.false_ne_true
    have hsends : ¬ e.Sends g := fun h => hne h.2
    rw [if_neg hsends, if_neg fun h => hsends h.1]
    exact ⟨rfl, rfl⟩
  | copyOverflow => cases ht
  | refused buf len size data hearly hfit hcopy hfits hret =>
    cases ht
    rw [if_pos ⟨hearly, hcopy⟩, if_neg hret, if_neg fun h => hret h.2]
    exact ⟨rfl, rfl⟩
  | accepted buf len bw data u hearly hfit hcopy hfits hret hdata hu =>
    cases ht
    rw [if_pos ⟨hearly, hcopy⟩, if_pos hret, if_pos ⟨⟨hearly, hcopy⟩, hret⟩]
    have hbeacon : startapBeacon (startapParam g bw) = g.beacon.parts := by
      apply startapBeacon_startapParam
      rw [length_startapParam]
      exact hfits.trans_lt (by decide)
    obtain ⟨hsaved, hfw⟩ := (u.lmacBindIface e.respLmac).startFinish_beacons g e
    obtain ⟨lmacId, ifaceBitmap, hbind⟩ := u.lmacBindIface_frame e.respLmac
    rw [← hbeacon]
    constructor
    · refine hsaved.trans ?_
      rw [hbind, hu]
      exact congrArg (fun msg => some (startapBeacon msg)) hdata
    · refine hfw.trans ?_
      rw [hbind, hu]

theorem changeBeacon_beacons {bcn : Option BeaconData} {e : BeaconEnv}
    (ht : (s.changeBeacon bcn e).map Prod.snd = some t) :
    t.saved = s.saved ∧ t.fw = (if e.alloc = true ∧ e.ret = 0 then
      bcn.elim s.fw fun b => s.fw.map fun old => old.update (changedBeacon (beaconParams b))
      else s.fw) := by
  have hend := changeBeacon_end s bcn e
  revert ht hend
  generalize s.changeBeacon bcn e = r
  intro ht hend
  cases hend with
  | noBeacon =>
    cases ht
    exact ⟨rfl, (ite_self _).symm⟩
  | noMemory b halloc =>
    cases ht
    rw [halloc, if_neg fun h => Bool.false_ne_true h.1]
    exact ⟨rfl, rfl⟩
  | overflow => cases ht
  | sent b buf len halloc hfit =>
    cases ht
    simp only [halloc, true_and]
    exact ⟨rfl, rfl⟩

/-- A stop drops the copy before it asks the firmware. -/
theorem stopAp_beacons (s : SapSys) (ret : ℤ) :
    (s.stopAp ret).2.saved = none ∧ (s.stopAp ret).2.fw = if ret = 0 then none else s.fw := by
  unfold stopAp lmacUnbindIface
  by_cases hret : ret = 0
  · rw [if_neg (not_not.mpr hret), if_pos hret]
    dsimp only
    split_ifs
    · exact ⟨rfl, rfl⟩
    · exact ⟨rfl, rfl⟩
  · rw [if_pos hret, if_neg hret]
    exact ⟨rfl, rfl⟩

/-- The copy follows what the firmware was told, as long as each call keeps it. -/
theorem saved_step (hk : c.Keeps s.saved) (ht : s.step c = some t) : t.saved = c.after s.saved := by
  cases c with
  | startAp g e =>
    rw [(startAp_beacons ht).1, SapCall.after]
    by_cases hsends : e.Sends g
    · by_cases hret : e.startRet = 0
      · rw [if_pos hsends, if_pos hret, if_pos ⟨hsends, hret⟩]
      · rw [if_pos hsends, if_neg hret, if_neg fun h => hret h.2, hk hsends hret]
    · rw [if_neg hsends, if_neg fun h => hsends h.1]
  | changeBeacon bcn e => exact (changeBeacon_beacons ht).1.trans hk.symm
  | stopAp ret =>
    cases ht
    rw [(s.stopAp_beacons ret).1, SapCall.after]
    split_ifs with hret
    · rfl
    · exact (hk hret).symm

/-- The firmware runs what it was told last. -/
theorem fw_step (ha : c.Addressable) (ht : s.step c = some t) : t.fw = c.after s.fw := by
  cases c with
  | startAp g e => exact (startAp_beacons ht).2
  | changeBeacon bcn e =>
    rw [(changeBeacon_beacons ht).2]
    cases bcn with
    | none => exact ite_self _
    | some b =>
      have hlen : (beaconParams b).length < 2 ^ 16 := by
        rw [length_beaconParams]
        exact ha
      rw [SapCall.after, Option.elim_some, changedBeacon_beaconParams hlen]
  | stopAp ret =>
    cases ht
    exact (s.stopAp_beacons ret).2

theorem fw_of_exec {calls : List SapCall} (hrun : Lib.exec step s calls = some t)
    (ha : Lib.Throughout SapCall.after (fun _ c => c.Addressable) s.fw calls) :
    t.fw = calls.foldl SapCall.after s.fw :=
  Lib.view_of_exec (fun _ _ _ => fw_step) ha hrun

/-- A call keeps the pointers to what was allocated. -/
theorem Held.step (hs : s.Held) (ht : s.step c = some t) : t.Held := by
  cases c with
  | startAp g e =>
    obtain ⟨⟨ret, u⟩, hu, rfl⟩ := Option.map_eq_some_iff.mp ht
    exact hs.startAp hu
  | changeBeacon bcn e =>
    obtain ⟨⟨ret, u⟩, hu, rfl⟩ := Option.map_eq_some_iff.mp ht
    exact hs.changeBeacon hu
  | stopAp ret =>
    cases ht
    exact hs.stopAp ret

theorem held_of_reach {s₀ : SapSys} (h : Lib.Reach step Lib.Free s₀ s) (h₀ : s₀.Held) : s.Held :=
  h.invariant h₀ fun _ _ _ hs _ ht => hs.step ht

/-- What a recovery sends: the copy, if there is one and the MIB could be set. -/
theorem recoverySap_sends (s : SapSys) (mibRet startRet : ℤ) (l : BitVec 8) :
    (s.recoverySap mibRet startRet l).2.1.map startapBeacon =
      if mibRet = 0 then s.saved else none := by
  unfold recoverySap saved
  cases s.rdParam with
  | none => exact (ite_self _).symm
  | some x =>
    dsimp only
    by_cases hmib : mibRet = 0
    · rw [if_neg (not_not.mpr hmib), if_pos hmib]
      split_ifs
      · rfl
      · rfl
    · rw [if_pos hmib, if_neg hmib]
      rfl

end

/-- A recovery after calls that keep the copy restarts the access point as it was told last exactly
if it is stopped, or the MIB is set. -/
theorem recoverySap_restarts_iff (s₀ s : SapSys) (calls : List SapCall)
    (mibRet startRet : ℤ) (l : BitVec 8) (h₀ : s₀.rdParam = none)
    (hrun : Lib.exec step s₀ calls = some s)
    (hkeeps : Lib.Throughout SapCall.after SapCall.Keeps none calls) :
    (s.recoverySap mibRet startRet l).2.1.map startapBeacon = calls.foldl SapCall.after none ↔
      ((calls.foldl SapCall.after none).isSome = true → mibRet = 0) := by
  have hsaved₀ : s₀.saved = none := by rw [saved, h₀, Option.map_none]
  rw [← hsaved₀] at hkeeps
  have hsaved := Lib.view_of_exec (fun s c t => saved_step) hkeeps hrun
  rw [hsaved₀] at hsaved
  rw [recoverySap_sends, ← hsaved]
  cases hs : s.saved with
  | none => simp
  | some b => simp

/-- A start on the channel of `radarSettings` is always defined. -/
theorem exists_step_radarSettings (s : SapSys) (head tail : BitVec 8) :
    ∃ t, s.step (.startAp (radarSettings head tail) smoothStart) = some t := by
  have hsome := (isSome_startAp_iff s (radarSettings head tail) smoothStart).mpr fun _ =>
    ⟨fun _ => Nat.zero_le _, fun _ => (by decide : startapFixed + 2 ≤ SKW_2K_SIZE)⟩
  obtain ⟨r, hr⟩ := Option.isSome_iff_exists.mp hsome
  exact ⟨r.2, congrArg (Option.map Prod.snd) hr⟩

/-- Stopped and started again with another beacon: a recovery sends that one. -/
theorem restarted_ap_restarts :
    ∃ s, Lib.exec step freshSap.toSapSys
        [.startAp (radarSettings 0x80 0x2a) smoothStart, .stopAp 0,
          .startAp (radarSettings 0x80 0x2b) smoothStart] = some s ∧
      (s.recoverySap 0 0 0).2.1.map startapBeacon =
        ([.startAp (radarSettings 0x80 0x2a) smoothStart, .stopAp 0,
          .startAp (radarSettings 0x80 0x2b) smoothStart] :
            List SapCall).foldl SapCall.after none := by
  obtain ⟨s₁, h₁⟩ := exists_step_radarSettings freshSap.toSapSys 0x80 0x2a
  obtain ⟨s₃, h₃⟩ := exists_step_radarSettings (s₁.stopAp 0).2 0x80 0x2b
  have hrun : Lib.exec step freshSap.toSapSys
      [.startAp (radarSettings 0x80 0x2a) smoothStart, .stopAp 0,
        .startAp (radarSettings 0x80 0x2b) smoothStart] = some s₃ := by
    rw [Lib.exec, h₁, Option.bind_some, Lib.exec]
    change Lib.exec step (s₁.stopAp 0).2 _ = _
    rw [Lib.exec, h₃]
    rfl
  refine ⟨s₃, hrun, ?_⟩
  apply (recoverySap_restarts_iff freshSap.toSapSys s₃ _ 0 0 0 rfl hrun ?_).mpr fun _ => rfl
  exact ⟨fun _ h => absurd rfl h, fun h => absurd rfl h, fun _ h => absurd rfl h, trivial⟩

/-- The beacon is changed while the access point runs: a recovery sends the old one. -/
theorem changed_beacon_is_lost :
    ∃ s, Lib.exec step freshSap.toSapSys
        [.startAp (radarSettings 0x80 0x2a) smoothStart,
          .changeBeacon (some (radarSettings 0x80 0x2b).beacon) ⟨true, 0⟩] = some s ∧
      (s.recoverySap 0 0 0).2.1.map startapBeacon ≠
        ([.startAp (radarSettings 0x80 0x2a) smoothStart,
          .changeBeacon (some (radarSettings 0x80 0x2b).beacon) ⟨true, 0⟩] :
            List SapCall).foldl SapCall.after none := by
  obtain ⟨s₁, h₁⟩ := exists_step_radarSettings freshSap.toSapSys 0x80 0x2a
  have hsome := (isSome_changeBeacon_iff s₁ (some (radarSettings 0x80 0x2b).beacon)
    ⟨true, 0⟩).mpr fun b hb _ _ => by cases hb; exact Nat.zero_le _
  obtain ⟨r, hr⟩ := Option.isSome_iff_exists.mp hsome
  have h₂ : (s₁.changeBeacon (some (radarSettings 0x80 0x2b).beacon) ⟨true, 0⟩).map Prod.snd =
      some r.2 := congrArg (Option.map Prod.snd) hr
  have h₁' : (freshSap.startAp (radarSettings 0x80 0x2a) smoothStart).map Prod.snd = some s₁ := h₁
  refine ⟨r.2, ?_, ?_⟩
  · rw [Lib.exec, h₁, Option.bind_some, Lib.exec, step, h₂]
    rfl
  · rw [recoverySap_sends, if_pos rfl, (changeBeacon_beacons h₂).1, (startAp_beacons h₁').1]
    decide

end SapSys

end Skw
