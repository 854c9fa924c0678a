import Skw.Lib.Fixed
import Skw.Lib.Transfer
import Skw.Kernel.Types

/-! The download of the calibration file by `skw_calib_download`, in numbered messages of which
the last is marked. -/
namespace Skw

/-- `struct skw_calib_param`; `endFlag` is its `end`. -/
structure CalibParam where
  seq : BitVec 8
  endFlag : BitVec 8
  len : BitVec 16
  data : Lib.Fixed (BitVec 8) 512

/-- The octets of the file that a message carries. -/
def CalibParam.payload (m : CalibParam) : List (BitVec 8) := m.data.cells.take m.len.toNat

/-- The variables of `skw_calib_bin_download`, and what it has sent. -/
structure CalibDl where
  i : ℕ
  remain : ℤ
  data : List (BitVec 8)
  calib : CalibParam
  ret : ℤ
  sent : List CalibParam

namespace CalibDl

/-- A pass of the loop; `reply` has the results of the commands. The copy stays inside `data`, as
at most 512 octets are copied. -/
def pass (reply : ℕ → ℤ) (s : CalibDl) : Lib.Pass CalibDl :=
  if s.remain ≤ 0 then .done s
  else
    let len := if s.remain < 512 then s.remain.toNat else 512
    let remain := s.remain - len
    let calib : CalibParam :=
      { seq := BitVec.ofNat 8 s.i
        endFlag := if remain = 0 then 1 else 0
        len := BitVec.ofNat 16 len
        data := (s.calib.data.write 0 (s.data.take len)).getD s.calib.data }
    let t := { s with remain, calib, ret := reply s.i, sent := s.sent ++ [calib] }
    if t.ret ≠ 0 then .done t else .next { t with i := s.i + 1, data := s.data.drop len }

/-- `skw_calib_bin_download`; the variable `calib` is not initialised. -/
def binDownload (reply : ℕ → ℤ) (calib : CalibParam) (data : List (BitVec 8)) (size : BitVec 32)
    (fuel : ℕ) : Option CalibDl :=
  Lib.loop (pass reply) fuel ⟨0, size.toInt, data, calib, 0, []⟩

/-- `skw_calib_download` with the result of `request_firmware` and the file. -/
def download (request : ℤ) (file : List (BitVec 8)) (reply : ℕ → ℤ) (calib : CalibParam)
    (fuel : ℕ) : Option (ℤ × List CalibParam) :=
  if request ≠ 0 then some (request, [])
  else (binDownload reply calib file (BitVec.ofNat 32 file.length) fuel).map fun s => (s.ret, s.sent)

/-- The file arrives: messages in sequence carry its octets, and the last one is marked. -/
structure Delivers (file : List (BitVec 8)) (sent : List CalibParam) : Prop where
  file : (sent.map CalibParam.payload).flatten = file
  seq : sent.map CalibParam.seq = (List.range sent.length).map (BitVec.ofNat 8)
  marked : ∃ pre m, sent = pre ++ [m] ∧ m.endFlag = 1 ∧ ∀ x ∈ pre, x.endFlag = 0

/-- What a message shows, apart from the octets behind its payload. -/
def shown (m : CalibParam) : BitVec 8 × BitVec 8 × List (BitVec 8) := (m.seq, m.endFlag, m.payload)

def message (i left : ℕ) (p : List (BitVec 8)) : BitVec 8 × BitVec 8 × List (BitVec 8) :=
  (BitVec.ofNat 8 i, if left = 0 then 1 else 0, p)

abbrev pieceSize (n : ℕ) : ℕ := min n 512

theorem cuts_pieceSize : Lib.Cuts pieceSize := by
  intro n hn
  unfold pieceSize
  omega

/-- Before each pass no command has failed, and the transfer has left what remains of the file. -/
structure Follows (s : CalibDl)
    (u : Lib.Transfer (BitVec 8) (BitVec 8 × BitVec 8 × List (BitVec 8))) : Prop where
  remain : s.remain.toNat ≤ s.data.length
  number : s.i = s.sent.length
  ret : s.ret = 0
  rest : u.rest = s.data.take s.remain.toNat
  sent : u.sent = s.sent.map shown
  failed : u.failed = false

/-- The download and the transfer have sent the same, and fail together. -/
structure EndsWith (s : CalibDl)
    (u : Lib.Transfer (BitVec 8) (BitVec 8 × BitVec 8 × List (BitVec 8))) : Prop where
  sent : u.sent = s.sent.map shown
  failed : u.failed = true ↔ s.ret ≠ 0

/-- A message shows the piece that has been copied into it. -/
theorem shown_write (c : CalibParam) (data : List (BitVec 8)) {k : ℕ} (hk : k ≤ 512)
    (hd : k ≤ data.length) (seq endFlag : BitVec 8) :
    shown { seq, endFlag, len := BitVec.ofNat 16 k,
            data := (c.data.write 0 (data.take k)).getD c.data } = (seq, endFlag, data.take k) := by
  have hlen : (data.take k).length = k := by
    rw [List.length_take, min_eq_left hd]
  obtain ⟨b, hb, hcells⟩ := c.data.write_zero (s := data.take k) (by omega)
  have hk16 : (BitVec.ofNat 16 k).toNat = k := by
    rw [BitVec.toNat_ofNat]
    omega
  unfold shown CalibParam.payload
  rw [hb, Option.getD_some, hcells, hk16, List.take_left' hlen]

/-- A pass with something left sends the next piece. -/
theorem pass_of_pos (reply : ℕ → ℤ) {s : CalibDl} (hle : s.remain.toNat ≤ s.data.length)
    (hpos : 0 < s.remain) {k : ℕ} (hk : k = pieceSize s.remain.toNat) :
    ∃ c, shown c = message s.i (s.remain.toNat - k) (s.data.take k) ∧
      pass reply s =
        if reply s.i ≠ 0 then
          .done { s with remain := s.remain - k, calib := c, ret := reply s.i, sent := s.sent ++ [c] }
        else
          .next
            { s with
              i := s.i + 1, remain := s.remain - k, data := s.data.drop k, calib := c
              ret := reply s.i, sent := s.sent ++ [c] } := by
  have hlen : (if s.remain < 512 then s.remain.toNat else 512) = k := by
    unfold pieceSize at hk
    split_ifs <;> omega
  have hflag : (s.remain - k = 0) ↔ s.remain.toNat - k = 0 := by
    unfold pieceSize at hk
    omega
  have hkd : k ≤ s.data.length := by
    unfold pieceSize at hk
    omega
  have hshown := shown_write s.calib s.data (hk ▸ min_le_right ..) hkd (BitVec.ofNat 8 s.i)
    (if s.remain - k = 0 then 1 else 0)
  refine ⟨_, hshown.trans ?_, ?_⟩
  · unfold message
    simp only [hflag]
  · unfold pass
    rw [if_neg (not_le.mpr hpos), hlen]

theorem pass_follows (reply : ℕ → ℤ) (s : CalibDl)
    (u : Lib.Transfer (BitVec 8) (BitVec 8 × BitVec 8 × List (BitVec 8))) (h : s.Follows u) :
    (∃ s' u', pass reply s = .next s' ∧
      Lib.Transfer.pass pieceSize message (fun i => decide (reply i ≠ 0)) u = .next u' ∧
      s'.Follows u') ∨
    (∃ s' u', pass reply s = .done s' ∧
      Lib.Transfer.pass pieceSize message (fun i => decide (reply i ≠ 0)) u = .done u' ∧
      s'.EndsWith u') := by
  have hlen : u.rest.length = s.remain.toNat := by
    rw [h.rest, List.length_take, min_eq_left h.remain]
  unfold Lib.Transfer.pass
  by_cases hr : s.remain ≤ 0
  · have hnil : u.rest = [] := by
      rw [← List.length_eq_zero_iff, hlen]
      omega
    refine .inr ⟨s, u, ?_, if_pos hnil, h.sent, ?_⟩
    · unfold pass
      rw [if_pos hr]
    · rw [h.failed, h.ret]
      simp
  have hpos := not_le.mp hr
  have hne : u.rest ≠ [] := by
    rw [← List.length_pos_iff, hlen]
    omega
  have hk : pieceSize s.remain.toNat ≤ s.remain.toNat := min_le_left ..
  have hnum : u.sent.length = s.i := by
    rw [h.sent, h.number, List.length_map]
  obtain ⟨c, hc, he⟩ := pass_of_pos reply h.remain hpos rfl
  have hmsg : (s.sent ++ [c]).map shown = u.sent ++ [message u.sent.length
      (u.rest.drop (pieceSize u.rest.length)).length (u.rest.take (pieceSize u.rest.length))] := by
    rw [List.map_append, List.map_singleton, hc, ← h.sent, List.length_drop, hnum, hlen, h.rest,
      List.take_take, min_eq_left hk]
  rw [if_neg hne, he]
  dsimp only
  rw [hnum]
  by_cases hrep : reply s.i ≠ 0
  · right
    rw [if_pos hrep, if_pos (decide_eq_true hrep)]
    refine ⟨_, _, rfl, rfl, ?_, iff_of_true rfl hrep⟩
    rw [hmsg, hnum]
  · left
    rw [if_neg hrep, if_neg (by simpa using hrep)]
    refine ⟨_, _, rfl, rfl, ?_, ?_, not_not.mp hrep, ?_, ?_, h.failed⟩
    · have := h.remain
      change (s.remain - pieceSize s.remain.toNat).toNat ≤
        (s.data.drop (pieceSize s.remain.toNat)).length
      rw [List.length_drop]
      omega
    · rw [List.length_append, h.number]
      rfl
    · have hleft : s.remain.toNat - pieceSize s.remain.toNat =
          (s.remain - pieceSize s.remain.toNat).toNat := by omega
      rw [hlen, h.rest, List.drop_take, hleft]
    · rw [hmsg, hnum]

/-- The octets that the loop takes from a file: its size goes through a 32-bit variable without a
sign into one with it. -/
def taken (file : List (BitVec 8)) : ℕ := (BitVec.ofNat 32 file.length).toInt.toNat

theorem taken_le (file : List (BitVec 8)) : taken file ≤ file.length := by
  unfold taken
  rw [BitVec.toInt_eq_toNat_cond, BitVec.toNat_ofNat]
  split_ifs <;> omega

theorem taken_eq_iff {file : List (BitVec 8)} : taken file = file.length ↔ file.length < 2 ^ 31 := by
  unfold taken
  rw [BitVec.toInt_eq_toNat_cond, BitVec.toNat_ofNat]
  split_ifs <;> omega

/-- What the download of a file comes to. -/
theorem exists_download (file : List (BitVec 8)) (reply : ℕ → ℤ) (calib : CalibParam) :
    ∃ ret sent, (∃ fuel, download 0 file reply calib fuel = some (ret, sent)) ∧
      (ret ≠ 0 ↔ ∃ j < (taken file + 511) / 512, reply j ≠ 0) ∧
      sent.map shown = (Lib.messages message 0 (taken file)
        (Lib.pieces pieceSize (file.take (taken file)))).take
          (Lib.sentCount (fun i => decide (reply i ≠ 0)) 0 ((taken file + 511) / 512)) := by
  have hlen : (file.take (taken file)).length = taken file := by
    rw [List.length_take, min_eq_left (taken_le file)]
  have hcount : (Lib.pieces pieceSize (file.take (taken file))).length =
      (taken file + 511) / 512 := by
    rw [Lib.length_pieces_min (by decide), hlen]
  obtain ⟨u, hu, hsent, hfail⟩ := Lib.loop_transfer message
    (fun i => decide (reply i ≠ 0)) cuts_pieceSize [] (file.take (taken file))
    (Nat.lt_succ_self _)
  have hstart : Follows ⟨0, (BitVec.ofNat 32 file.length).toInt, file, calib, 0, []⟩
      ⟨file.take (taken file), [], false⟩ := ⟨taken_le file, rfl, rfl, rfl, rfl, rfl⟩
  obtain ⟨t, ht, hend⟩ := Lib.loop_follows (pass_follows reply) hstart hu
  have hrun : download 0 file reply calib (file.take (taken file)).length.succ =
      some (t.ret, t.sent) := by
    unfold download binDownload
    rw [if_neg (not_not.mpr rfl), ht]
    rfl
  refine ⟨t.ret, t.sent, ⟨_, hrun⟩, ?_, ?_⟩
  · rw [← hend.failed, hfail, hcount]
    simp
  · rw [← hend.sent, hsent, hcount, hlen]
    rfl

/-- The messages of octets carry them. -/
theorem flatten_payload {xs : List (BitVec 8)} {sent : List CalibParam} {n : ℕ}
    (h : sent.map shown = Lib.messages message 0 n (Lib.pieces pieceSize xs)) :
    (sent.map CalibParam.payload).flatten = xs := by
  have hmap : sent.map CalibParam.payload = (sent.map shown).map fun x => x.2.2 := by
    rw [List.map_map]
    rfl
  have hall : (Lib.pieces pieceSize xs).mapIdx (fun _ p => p) = Lib.pieces pieceSize xs :=
    List.mapIdx_eq_iff.mpr fun i => by simp
  rw [hmap, h, Lib.map_messages (f := fun _ p => p) fun _ _ _ => rfl, hall,
    Lib.flatten_pieces cuts_pieceSize]

/-- Without a failure everything is sent. -/
theorem shown_of_accepted {xs : List (BitVec 8)} {sent : List CalibParam} {reply : ℕ → ℤ}
    (hall : ∀ j < (xs.length + 511) / 512, reply j = 0)
    (h : sent.map shown = (Lib.messages message 0 xs.length (Lib.pieces pieceSize xs)).take
      (Lib.sentCount (fun i => decide (reply i ≠ 0)) 0 ((xs.length + 511) / 512))) :
    sent.map shown = Lib.messages message 0 xs.length (Lib.pieces pieceSize xs) := by
  have hcount : Lib.sentCount (fun i => decide (reply i ≠ 0)) 0 ((xs.length + 511) / 512) =
      (xs.length + 511) / 512 := by
    refine Lib.sentCount_eq fun j hj => ?_
    rw [Nat.zero_add, hall j hj]
    rfl
  rw [h, hcount, List.take_of_length_le]
  rw [Lib.length_messages, Lib.length_pieces_min (by decide)]

/-- The messages of a whole file deliver it. -/
theorem delivers_of_shown {file : List (BitVec 8)} {sent : List CalibParam} (hpos : file ≠ [])
    (h : sent.map shown =
      Lib.messages message 0 file.length (Lib.pieces pieceSize file)) : Delivers file sent := by
  have hflat := Lib.flatten_pieces cuts_pieceSize file
  have hlen : sent.length = (Lib.pieces pieceSize file).length := by
    rw [← Lib.length_messages message 0 file.length, ← h, List.length_map]
  refine ⟨flatten_payload h, ?_, ?_⟩
  · have hmap : sent.map CalibParam.seq = (sent.map shown).map Prod.fst := by
      rw [List.map_map]
      rfl
    rw [hmap, h, Lib.map_messages (g := Prod.fst) (f := fun i _ => BitVec.ofNat 8 i)
      fun _ _ _ => rfl, hlen]
    refine List.ext_getElem (by simp) fun i _ _ => ?_
    simp
  · have hne : Lib.pieces pieceSize file ≠ [] :=
      (Lib.pieces_eq_nil_iff cuts_pieceSize).not.mpr hpos
    obtain ⟨pre, p, hp⟩ := (List.eq_nil_or_concat _).resolve_left hne
    rw [List.concat_eq_append] at hp
    rw [hp, List.flatten_append, List.flatten_singleton] at hflat
    have hp0 : p ≠ [] := (Lib.length_piece cuts_pieceSize hp).2
    have hsplit : file.length = pre.flatten.length + p.length := by
      rw [← List.length_append, hflat]
    rw [hp, Lib.messages_append] at h
    obtain ⟨s₁, s₂, rfl, h₁, h₂⟩ := List.map_eq_append_iff.mp h
    have hlast : file.length - pre.flatten.length - p.length = 0 := by omega
    rw [Lib.messages, hlast] at h₂
    obtain ⟨m, l, rfl, hm, hl⟩ := List.map_eq_cons_iff.mp h₂
    rw [List.map_eq_nil_iff.mp hl]
    refine ⟨s₁, m, rfl, congrArg (fun x => x.2.1) hm, fun x hx => ?_⟩
    have hmem : shown x ∈ Lib.messages message 0 file.length pre := by
      rw [← h₁]
      exact List.mem_map_of_mem hx
    have hlt : pre.flatten.length < file.length := by
      have := List.length_pos_iff.mpr hp0
      omega
    obtain ⟨j, left, q, hleft, he⟩ := Lib.left_of_mem_messages hlt hmem
    have hflag : (shown x).2.1 = if left = 0 then 1 else 0 := congrArg (fun x => x.2.1) he
    rw [if_neg hleft.ne'] at hflag
    exact hflag

/-- The download returns 0 with the whole file delivered, exactly when the file is not empty, is
below 2 GiB, and each of its messages is accepted. -/
theorem download_delivers_iff (file : List (BitVec 8)) (reply : ℕ → ℤ) (calib : CalibParam) :
    ∃ ret sent, (∃ fuel, download 0 file reply calib fuel = some (ret, sent)) ∧
      (ret = 0 ∧ Delivers file sent ↔
        file ≠ [] ∧ file.length < 2 ^ 31 ∧ ∀ j < (file.length + 511) / 512, reply j = 0) := by
  obtain ⟨ret, sent, hrun, hret, hsent⟩ := exists_download file reply calib
  have hlen : (file.take (taken file)).length = taken file := by
    rw [List.length_take, min_eq_left (taken_le file)]
  have haccepted : ret = 0 ↔ ∀ j < (taken file + 511) / 512, reply j = 0 := by
    rw [← not_iff_not, ← ne_eq, hret]
    push Not
    rfl
  refine ⟨ret, sent, hrun, ?_, ?_⟩
  · rintro ⟨h₀, hd⟩
    have hall := haccepted.mp h₀
    have hacc : ∀ j < ((file.take (taken file)).length + 511) / 512, reply j = 0 := by
      rwa [hlen]
    have hshown := shown_of_accepted hacc (by rwa [hlen])
    have hfile : file.take (taken file) = file := (flatten_payload hshown).symm.trans hd.file
    rw [hfile] at hlen
    refine ⟨?_, taken_eq_iff.mp hlen.symm, fun j hj => hall j (by rwa [← hlen])⟩
    rintro rfl
    obtain ⟨pre, m, rfl, _⟩ := hd.marked
    rw [List.take_nil] at hsent
    simp [Lib.messages] at hsent
  · rintro ⟨hne, hlt, hall⟩
    have htaken := taken_eq_iff.mpr hlt
    rw [htaken] at haccepted hsent
    rw [List.take_length] at hsent
    exact ⟨haccepted.mpr hall, delivers_of_shown hne (shown_of_accepted hall hsent)⟩

end CalibDl
end Skw
