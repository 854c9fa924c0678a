import Skw.Usb.Loader
import Mathlib.Algebra.Order.BigOperators.Group.List

/-! What the boot loader has when the start over USB is through. -/
namespace Skw
variable {replies : ℕ → BulkReply} {m : LoaderMsg} {ms : List LoaderMsg} {n : ℕ}

/-! The messages that go out -/

theorem runMsgs_out_sublist (replies : ℕ → BulkReply) (n : ℕ) (ms : List LoaderMsg) :
    (runMsgs replies n ms).out.Sublist ms := by
  induction ms generalizing n with
  | nil => exact List.Sublist.refl _
  | cons m ms ih =>
    have hhere : (if (replies n).Sent m.len then [m] else []).Sublist [m] := by
      split_ifs
      · exact List.Sublist.refl _
      · exact List.nil_sublist _
    rw [runMsgs]
    dsimp only
    by_cases hr : (replies n).ret m < 0
    · rw [if_pos hr]
      exact hhere.trans (List.sublist_append_left [m] ms)
    · rw [if_neg hr]
      exact hhere.append (ih (n + 1))

theorem runMsgs_failed_iff (replies : ℕ → BulkReply) (n : ℕ) (ms : List LoaderMsg) :
    (runMsgs replies n ms).failed = false ↔
      ∀ i (h : i < ms.length), 0 ≤ (replies (n + i)).ret ms[i] := by
  induction ms generalizing n with
  | nil => simp [runMsgs]
  | cons m ms ih =>
    rw [runMsgs]
    dsimp only
    by_cases hr : (replies n).ret m < 0
    · rw [if_pos hr]
      refine iff_of_false (Bool.noConfusion ·) ?_
      intro hall
      have hfirst := hall 0 (Nat.succ_pos _)
      exact absurd hr (not_lt.mpr hfirst)
    · rw [if_neg hr]
      dsimp only
      rw [ih (n + 1)]
      constructor
      · intro hall i hi
        cases i with
        | zero => exact not_lt.mp hr
        | succ i =>
          have hnext := hall i (Nat.lt_of_succ_lt_succ hi)
          rw [Nat.add_assoc, Nat.add_comm 1] at hnext
          exact hnext
      · intro hall i hi
        have hnext := hall (i + 1) (Nat.succ_lt_succ hi)
        rw [Nat.add_assoc, Nat.add_comm 1]
        exact hnext

theorem runMsgs_n (hok : (runMsgs replies n ms).failed = false) :
    (runMsgs replies n ms).n = n + ms.length := by
  induction ms generalizing n with
  | nil => rfl
  | cons m ms ih =>
    have hr : ¬(replies n).ret m < 0 := by
      have hfirst := (runMsgs_failed_iff replies n (m :: ms)).mp hok 0 (Nat.succ_pos _)
      exact not_lt.mpr hfirst
    rw [runMsgs] at hok ⊢
    dsimp only at hok ⊢
    rw [if_neg hr] at hok ⊢
    dsimp only at hok ⊢
    rw [ih hok, List.length_cons]
    omega

/-- Where no message fails, all are there exactly when all have gone out. -/
theorem runMsgs_out_eq_iff (hok : (runMsgs replies n ms).failed = false) :
    (runMsgs replies n ms).out = ms ↔
      ∀ i (h : i < ms.length), (replies (n + i)).Sent ms[i].len := by
  induction ms generalizing n with
  | nil => simp [runMsgs]
  | cons m ms ih =>
    have hr : ¬(replies n).ret m < 0 := by
      have hfirst := (runMsgs_failed_iff replies n (m :: ms)).mp hok 0 (Nat.succ_pos _)
      exact not_lt.mpr hfirst
    rw [runMsgs] at hok ⊢
    dsimp only at hok ⊢
    rw [if_neg hr] at hok ⊢
    dsimp only at hok ⊢
    have hlen := (runMsgs_out_sublist replies (n + 1) ms).length_le
    have hsplit : (∀ i (h : i < (m :: ms).length), (replies (n + i)).Sent (m :: ms)[i].len) ↔
        (replies n).Sent m.len ∧
          ∀ i (h : i < ms.length), (replies (n + 1 + i)).Sent ms[i].len := by
      constructor
      · intro hall
        refine ⟨hall 0 (Nat.succ_pos _), ?_⟩
        intro i hi
        have hnext := hall (i + 1) (Nat.succ_lt_succ hi)
        rw [Nat.add_assoc, Nat.add_comm 1]
        exact hnext
      · rintro ⟨hfirst, hall⟩ i hi
        cases i with
        | zero => exact hfirst
        | succ i =>
          have hnext := hall i (Nat.lt_of_succ_lt_succ hi)
          rw [Nat.add_assoc, Nat.add_comm 1] at hnext
          exact hnext
    rw [hsplit, ← ih hok]
    by_cases hs : (replies n).Sent m.len
    · rw [if_pos hs, List.singleton_append, List.cons.injEq]
      simp [hs]
    · rw [if_neg hs, List.nil_append]
      refine iff_of_false ?_ fun h => hs h.1
      intro heq
      have hcount := congrArg List.length heq
      rw [List.length_cons] at hcount
      omega

/-! How much the messages amount to -/

def LoaderMsg.weight : LoaderMsg → ℕ
  | .start .. => 1
  | .data body => body.length
  | .exec _ => 1

namespace Rom
variable {rom : Rom}

def weight (rom : Rom) : ℕ :=
  (rom.segments.map fun x => 1 + x.data.length).sum + rom.running.toList.length

theorem weight_receive_le (rom : Rom) (m : LoaderMsg) :
    (rom.receive m).weight ≤ rom.weight + m.weight := by
  unfold weight
  cases m with
  | start addr size =>
    simp [receive, LoaderMsg.weight]
    omega
  | data body =>
    cases hs : rom.segments with
    | nil => simp [receive, hs]
    | cons x xs =>
      simp [receive, hs, LoaderMsg.weight]
      omega
  | exec addr => simp [receive, LoaderMsg.weight]

theorem weight_foldl_le (rom : Rom) (ms : List LoaderMsg) :
    (ms.foldl receive rom).weight ≤ rom.weight + (ms.map LoaderMsg.weight).sum := by
  induction ms generalizing rom with
  | nil => exact Nat.le_add_right _ _
  | cons m ms ih =>
    have hfirst := weight_receive_le rom m
    have hrest := ih (rom.receive m)
    rw [List.foldl_cons, List.map_cons, List.sum_cons]
    omega

theorem foldl_data (x : RomSegment) (xs : List RomSegment) (running : Option (BitVec 32))
    (ps : List (List (BitVec 8))) :
    (ps.map LoaderMsg.data).foldl receive ⟨x :: xs, running⟩ =
      ⟨{ x with data := x.data ++ ps.flatten } :: xs, running⟩ := by
  induction ps generalizing x with
  | nil => rw [List.map_nil, List.foldl_nil, List.flatten_nil, List.append_nil]
  | cons p ps ih =>
    rw [List.map_cons, List.foldl_cons, receive, ih, List.flatten_cons, List.append_assoc]

/-- The messages of an image put it behind those that are there. -/
theorem foldl_imageMsgs {mps : ℕ} (hmps : 0 < mps) (img : BootImage) (rom : Rom) :
    (imageMsgs mps img).foldl receive rom =
      { rom with
        segments :=
          ⟨img.addr, BitVec.ofNat 32 img.data.length, img.data⟩ :: rom.segments } := by
  rw [imageMsgs, List.foldl_cons, receive, foldl_data, Lib.flatten_pieces (cuts_pieceLen hmps),
    List.nil_append]

theorem foldl_loaderMsgs {mps : ℕ} (hmps : 0 < mps) (dram iram : BootImage) :
    (loaderMsgs mps dram iram).foldl receive empty = loaded dram iram := by
  rw [loaderMsgs, List.foldl_append, List.foldl_append, foldl_imageMsgs hmps,
    foldl_imageMsgs hmps]
  rfl

/-- Only the last message lets it run. -/
theorem running_foldl (h : ∀ m ∈ ms, ∀ addr, m ≠ .exec addr) :
    (ms.foldl receive rom).running = rom.running := by
  induction ms generalizing rom with
  | nil => rfl
  | cons m ms ih =>
    rw [List.foldl_cons, ih fun m hm => h m (List.mem_cons_of_mem _ hm)]
    cases m with
    | start addr size => rfl
    | data body =>
      unfold receive
      cases rom.segments <;> rfl
    | exec addr => exact absurd rfl (h _ List.mem_cons_self addr)

end Rom

/-- A part of a row of messages that amounts to as much is all of it. -/
theorem eq_of_sublist_of_weight {l l' : List LoaderMsg} (h : l.Sublist l')
    (hpos : ∀ m ∈ l', 0 < m.weight)
    (hle : (l'.map LoaderMsg.weight).sum ≤ (l.map LoaderMsg.weight).sum) : l = l' := by
  induction h with
  | slnil => rfl
  | cons m hsub ih =>
    have hm := hpos m List.mem_cons_self
    have hsum := (hsub.map LoaderMsg.weight).sum_le_sum fun _ _ => Nat.zero_le _
    rw [List.map_cons, List.sum_cons] at hle
    omega
  | cons_cons m hsub ih =>
    rw [List.map_cons, List.map_cons, List.sum_cons, List.sum_cons] at hle
    rw [ih (fun m hm => hpos m (List.mem_cons_of_mem _ hm)) (by omega)]

theorem weight_pos_of_mem_imageMsgs {mps : ℕ} (hmps : 0 < mps) {img : BootImage}
    (h : m ∈ imageMsgs mps img) : 0 < m.weight ∧ ∀ addr, m ≠ .exec addr := by
  rcases List.mem_cons.mp h with rfl | h
  · exact ⟨Nat.succ_pos _, fun _ => LoaderMsg.noConfusion⟩
  · obtain ⟨body, hbody, rfl⟩ := List.mem_map.mp h
    obtain ⟨pre, post, hp⟩ := List.append_of_mem hbody
    have hne := (Lib.length_piece (cuts_pieceLen hmps) hp).2
    exact ⟨List.length_pos_iff.mpr hne, fun _ => LoaderMsg.noConfusion⟩

theorem weight_imageMsgs {mps : ℕ} (hmps : 0 < mps) (img : BootImage) :
    ((imageMsgs mps img).map LoaderMsg.weight).sum = 1 + img.data.length := by
  have hflat := congrArg List.length (Lib.flatten_pieces (cuts_pieceLen hmps) img.data)
  rw [List.length_flatten] at hflat
  rw [imageMsgs, List.map_cons, List.sum_cons, List.map_map, ← hflat]
  rfl

/-- What has gone out loads both images only if nothing is missing. -/
theorem foldl_eq_loaded_iff {mps : ℕ} (hmps : 0 < mps) {dram iram : BootImage}
    (h : ms.Sublist (loaderMsgs mps dram iram)) :
    ms.foldl Rom.receive .empty = .loaded dram iram ↔ ms = loaderMsgs mps dram iram := by
  constructor
  · intro heq
    have hweight := Rom.weight_foldl_le .empty ms
    have hempty : Rom.empty.weight = 0 := rfl
    have hloaded : (Rom.loaded dram iram).weight = 3 + dram.data.length + iram.data.length := by
      simp [Rom.weight, Rom.loaded]
      omega
    have hall : ((loaderMsgs mps dram iram).map LoaderMsg.weight).sum =
        3 + dram.data.length + iram.data.length := by
      rw [loaderMsgs, List.map_append, List.map_append, List.sum_append, List.sum_append,
        weight_imageMsgs hmps, weight_imageMsgs hmps]
      simp [LoaderMsg.weight]
      omega
    rw [heq, hempty, hloaded] at hweight
    refine eq_of_sublist_of_weight h ?_ (by omega)
    intro m hm
    rw [loaderMsgs, List.mem_append, List.mem_append, List.mem_singleton] at hm
    rcases hm with (hm | hm) | rfl
    · exact (weight_pos_of_mem_imageMsgs hmps hm).1
    · exact (weight_pos_of_mem_imageMsgs hmps hm).1
    · exact Nat.succ_pos _
  · rintro rfl
    exact Rom.foldl_loaderMsgs hmps dram iram

/-- The messages in front of the last one. -/
def frontMsgs (mps : ℕ) (dram iram : BootImage) : List LoaderMsg :=
  imageMsgs mps dram ++ imageMsgs mps iram

/-- The boot loader has what the messages that went out make of it. -/
theorem LoaderRun.Follows.rom {s t : LoaderRun} {r : ℤ} (h : s.Follows replies t r ms)
    (hs : s.got = []) : t.rom = (runMsgs replies s.n ms).out.foldl Rom.receive .empty := by
  obtain ⟨ps, hps, hmap⟩ := h.got
  rw [hs, List.nil_append] at hps
  unfold LoaderRun.rom
  have hmsgs : ps.filterMap decodePacket = (runMsgs replies s.n ms).out := by
    have hid : ps.filterMap decodePacket = (ps.map decodePacket).filterMap id := by
      rw [List.filterMap_map]
      rfl
    rw [hid, hmap, List.filterMap_map]
    exact List.filterMap_some
  rw [hps, hmsgs]

/-- It runs something else than both images exactly when no message before the last one fails, the
last one goes out, and one before it has not gone out as a whole. -/
theorem runs_incomplete_iff (replies : ℕ → BulkReply) {mps : ℕ} (hmps : 0 < mps)
    (dram iram : BootImage) {rom : Rom}
    (hrom : rom = (runMsgs replies 0 (loaderMsgs mps dram iram)).out.foldl Rom.receive .empty) :
    rom.running ≠ none ∧ rom ≠ .loaded dram iram ↔
      (∀ i (h : i < (frontMsgs mps dram iram).length),
        0 ≤ (replies i).ret (frontMsgs mps dram iram)[i]) ∧
      (replies (frontMsgs mps dram iram).length).Sent 16 ∧
      ∃ i, ∃ h : i < (frontMsgs mps dram iram).length,
        ¬(replies i).Sent (frontMsgs mps dram iram)[i].len := by
  have hloaded :=
    foldl_eq_loaded_iff hmps (runMsgs_out_sublist replies 0 (loaderMsgs mps dram iram))
  rw [← hrom] at hloaded
  have hmsgs : loaderMsgs mps dram iram = frontMsgs mps dram iram ++ [.exec START_ADDR] := rfl
  have hfailed := runMsgs_failed_iff replies 0 (frontMsgs mps dram iram)
  have hnone : ((runMsgs replies 0 (frontMsgs mps dram iram)).out.foldl Rom.receive
      .empty).running = none := by
    refine Rom.running_foldl fun m hm => ?_
    rcases List.mem_append.mp ((runMsgs_out_sublist replies 0 _).subset hm) with hm | hm
    · exact (weight_pos_of_mem_imageMsgs hmps hm).2
    · exact (weight_pos_of_mem_imageMsgs hmps hm).2
  have hrun := runMsgs_append replies 0 (frontMsgs mps dram iram) [.exec START_ADDR]
  dsimp only at hrun
  simp only [Nat.zero_add] at hfailed
  rw [← hmsgs] at hrun
  by_cases hf : (runMsgs replies 0 (frontMsgs mps dram iram)).failed = true
  · rw [if_pos hf] at hrun
    rw [hrun] at hrom
    refine iff_of_false (fun h => h.1 (hrom ▸ hnone)) fun h => ?_
    rw [hfailed.mpr h.1] at hf
    cases hf
  · have hok := Bool.not_eq_true _ ▸ hf
    have hn := runMsgs_n hok
    rw [if_neg hf, hn, Nat.zero_add] at hrun
    have hlast : (runMsgs replies (frontMsgs mps dram iram).length [.exec START_ADDR]).out =
        if (replies (frontMsgs mps dram iram).length).Sent 16 then [.exec START_ADDR] else [] := by
      have hlen : (LoaderMsg.exec START_ADDR).len = 16 := rfl
      rw [runMsgs]
      dsimp only
      rw [hlen]
      by_cases hr : (replies (frontMsgs mps dram iram).length).ret (.exec START_ADDR) < 0
      · rw [if_pos hr]
      · rw [if_neg hr]
        exact List.append_nil _
    have hout := congrArg MsgRun.out hrun
    dsimp only at hout
    rw [hlast] at hout
    by_cases hs : (replies (frontMsgs mps dram iram).length).Sent 16
    · rw [if_pos hs] at hout
      have hrunning : rom.running ≠ none := by
        rw [hrom, hout, List.foldl_append]
        exact Option.some_ne_none _
      have heq := runMsgs_out_eq_iff hok
      simp only [Nat.zero_add] at heq
      rw [ne_eq rom, hloaded, hout, hmsgs, List.append_left_inj, heq]
      constructor
      · rintro ⟨-, hnot⟩
        refine ⟨hfailed.mp hok, hs, ?_⟩
        by_contra hall
        exact hnot fun i hi => not_not.mp fun hn => hall ⟨i, hi, hn⟩
      · rintro ⟨-, -, i, hi, hn⟩
        exact ⟨hrunning, fun hall => hn (hall i hi)⟩
    · rw [if_neg hs, List.append_nil] at hout
      rw [hout] at hrom
      exact iff_of_false (fun h => h.1 (hrom ▸ hnone)) fun h => hs h.2.1

/-- The boot loader runs both images and the start reports success exactly when every message goes
out as a whole and none fails. It runs without one of them, or with a part of one, exactly when no
message before the last one fails but one of them has not gone out as a whole. -/
theorem dloaderWork_loads_iff (replies : ℕ → BulkReply) {mps : ℕ} (hmps : 0 < mps)
    (hfit : mps + 24 ≤ 5120) {dram iram : BootImage} (hdram : dram.data.length < 2 ^ 31)
    (hiram : iram.data.length < 2 ^ 31) (hd : dram.data ≠ []) (hi : iram.data ≠ []) {f : ℕ}
    (hdf : dram.data.length < f) (hif : iram.data.length < f) (buf : ℕ → BitVec 8) :
    ∃ ret t, dloaderWork replies mps dram iram f ⟨0, buf, [], false⟩ = some (ret, t) ∧
      t.overrun = false ∧
      (ret = 0 ∧ t.rom = .loaded dram iram ↔
        ∀ i (h : i < (loaderMsgs mps dram iram).length),
          (replies i).Sent (loaderMsgs mps dram iram)[i].len ∧
            0 ≤ (replies i).ret (loaderMsgs mps dram iram)[i]) ∧
      (t.rom.running ≠ none ∧ t.rom ≠ .loaded dram iram ↔
        (∀ i (h : i < (frontMsgs mps dram iram).length),
          0 ≤ (replies i).ret (frontMsgs mps dram iram)[i]) ∧
        (replies (frontMsgs mps dram iram).length).Sent 16 ∧
        ∃ i, ∃ h : i < (frontMsgs mps dram iram).length,
          ¬(replies i).Sent (frontMsgs mps dram iram)[i].len) := by
  obtain ⟨ret, t, ht, hf⟩ := dloaderWork_follows replies hmps hfit hdram hiram hd hi hdf hif
    ⟨0, buf, [], false⟩
  have hrom := hf.rom rfl
  have hloaded :=
    foldl_eq_loaded_iff hmps (runMsgs_out_sublist replies 0 (loaderMsgs mps dram iram))
  have hret : ret = 0 ↔ (runMsgs replies 0 (loaderMsgs mps dram iram)).failed = false := by
    have hle := hf.ret.1
    have hneg := hf.ret.2
    rw [← Bool.not_eq_true, ← hneg]
    omega
  refine ⟨ret, t, ht, hf.overrun, ?_, ?_⟩
  · rw [hrom, hloaded, hret]
    constructor
    · rintro ⟨hok, hout⟩ i hi
      have hsent := (runMsgs_out_eq_iff hok).mp hout i hi
      have hnonneg := (runMsgs_failed_iff replies 0 _).mp hok i hi
      rw [Nat.zero_add] at hsent hnonneg
      exact ⟨hsent, hnonneg⟩
    · intro hall
      have hok : (runMsgs replies 0 (loaderMsgs mps dram iram)).failed = false := by
        refine (runMsgs_failed_iff replies 0 _).mpr fun i hi => ?_
        rw [Nat.zero_add]
        exact (hall i hi).2
      refine ⟨hok, (runMsgs_out_eq_iff hok).mpr fun i hi => ?_⟩
      rw [Nat.zero_add]
      exact (hall i hi).1
  · exact runs_incomplete_iff replies hmps dram iram hrom

/-- Two small images and a boot loader that takes all. -/
theorem dloaderWork_loads_iff_small :
    let replies i : BulkReply := ⟨true, 0, [20, 14, 20, 13, 16].getD i 0, 0, commonAck⟩
    ∃ ret t, dloaderWork replies 4096 ⟨0x20200000, [1, 2]⟩ ⟨START_ADDR, [3]⟩ 3
      ⟨0, fun _ => 0, [], false⟩ = some (ret, t) ∧
      ret = 0 ∧ t.rom = .loaded ⟨0x20200000, [1, 2]⟩ ⟨START_ADDR, [3]⟩ := by
  intro replies
  obtain ⟨ret, t, ht, -, hloads, -⟩ := @dloaderWork_loads_iff replies 4096 (by decide) (by decide)
    ⟨0x20200000, [1, 2]⟩ ⟨START_ADDR, [3]⟩ (by decide) (by decide) (by decide) (by decide) 3
    (by decide) (by decide) fun _ => 0
  exact ⟨ret, t, ht, hloads.mpr (by decide)⟩

end Skw
