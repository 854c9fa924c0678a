import Skw.Lib.Fixed
import Skw.Lib.Transfer
import Skw.Kernel.Types

/-! The direct transfers of the SDIO bus: `skw_sdio_dt_set_address` puts an address into four
registers, and `skw_sdio_dt_write` and `skw_sdio_dt_read` move octets through one more register, by
blocks as long as one is left and then by what a transfer in byte mode can hold. -/
namespace Skw

abbrev SKW_BUF_SIZE : ℕ := 2048

/-- What bounds a transfer of a function: the fields of `struct sdio_func` and of its card. -/
structure SdioFunc where
  hostMaxBlkSize : ℕ
  blkszForByteMode : Bool
  brokenByteMode512 : Bool
  curBlksize : ℕ
  maxBlksize : ℕ

namespace SdioFunc

def maxBytes (f : SdioFunc) : ℕ :=
  let mval :=
    if f.blkszForByteMode then min f.hostMaxBlkSize f.curBlksize
    else min f.hostMaxBlkSize f.maxBlksize
  if f.brokenByteMode512 then min mval 511 else min mval 512

/-- `trans_len` of a pass of `skw_sdio_dt_write` and of `skw_sdio_dt_read`. -/
def transLen (f : SdioFunc) (remainder : ℕ) : ℕ :=
  if f.curBlksize ≤ remainder then f.curBlksize else min remainder f.maxBytes

/-- A function that can transfer: a block and a transfer in byte mode both hold something, and a
block fits the buffer through which `skw_sdio_dt_write` goes. -/
structure Ready (f : SdioFunc) : Prop where
  block : 0 < f.curBlksize
  byteMode : 0 < f.maxBytes
  fits : f.curBlksize ≤ SKW_BUF_SIZE

/-- The transfers of `n` octets. -/
def pieceCount (f : SdioFunc) (n : ℕ) : ℕ :=
  n / f.curBlksize + (n % f.curBlksize + (f.maxBytes - 1)) / f.maxBytes

variable {f : SdioFunc}

theorem maxBytes_le (f : SdioFunc) : f.maxBytes ≤ 512 := by
  unfold maxBytes
  dsimp only
  split_ifs <;> omega

theorem Ready.cuts (h : f.Ready) : Lib.Cuts f.transLen := by
  intro n hn
  have := h.block
  have := h.byteMode
  unfold transLen
  split_ifs <;> omega

theorem Ready.transLen_le (h : f.Ready) (n : ℕ) : f.transLen n ≤ SKW_BUF_SIZE := by
  unfold transLen
  split_ifs
  · exact h.fits
  · exact (min_le_right _ _).trans (f.maxBytes_le.trans (by decide))

variable {α : Type*}

/-- Below a block only byte mode is left. -/
theorem pieces_of_lt (xs : List α) (h : xs.length < f.curBlksize) :
    Lib.pieces f.transLen xs = Lib.pieces (fun n => min n f.maxBytes) xs := by
  suffices ∀ fuel (ys : List α), ys.length < f.curBlksize →
      Lib.piecesWithin f.transLen fuel ys = Lib.piecesWithin (fun n => min n f.maxBytes) fuel ys from
    this xs.length xs h
  intro fuel
  induction fuel with
  | zero =>
    intro ys _
    rfl
  | succ fuel ih =>
    intro ys hy
    have hcut : f.transLen ys.length = min ys.length f.maxBytes := if_neg (not_le.mpr hy)
    have hdrop : (ys.drop (min ys.length f.maxBytes)).length < f.curBlksize :=
      (List.length_drop ..).trans_lt (by omega)
    rw [Lib.piecesWithin, Lib.piecesWithin, hcut, ih _ hdrop]

theorem Ready.length_pieces (h : f.Ready) (xs : List α) :
    (Lib.pieces f.transLen xs).length = f.pieceCount xs.length := by
  induction hn : xs.length using Nat.strong_induction_on generalizing xs with
  | _ n ih =>
    have hblk := h.block
    by_cases hlt : n < f.curBlksize
    · rw [pieces_of_lt xs (hn.trans_lt hlt), Lib.length_pieces_min h.byteMode, hn, pieceCount,
        Nat.div_eq_of_lt hlt, Nat.zero_add, Nat.mod_eq_of_lt hlt]
    · have hle := not_lt.mp hlt
      have hne : xs ≠ [] := by
        rw [← List.length_pos_iff]
        omega
      have hcut : f.transLen xs.length = f.curBlksize := if_pos (hn ▸ hle)
      have hdrop : (xs.drop f.curBlksize).length = n - f.curBlksize := by
        rw [List.length_drop, hn]
      rw [Lib.pieces_of_ne_nil h.cuts hne, hcut, List.length_cons, ih _ (by omega) _ hdrop,
        pieceCount, pieceCount, Nat.mod_eq_sub_mod hle, Nat.div_eq_sub_div hblk hle]
      omega

end SdioFunc

/-- `skw_sdio_dt_set_address` with `n` octets to go, the first of which has number `i`; `reply` has
the errors of `sdio_writeb`. The octets that were written stand beside the result. -/
def dtSetAddress (reply : ℕ → ℤ) (address : BitVec 32) : ℕ → ℕ → ℤ × List (BitVec 8)
  | 0, _ => (0, [])
  | n + 1, i =>
    let value := (address >>> (8 * i)).setWidth 8
    if reply i ≠ 0 then (reply i, [value])
    else
      let (err, rest) := dtSetAddress reply address n (i + 1)
      (err, value :: rest)

/-- `reg_val` of `skw_sdio_dt_get_address` when the registers from number `i` on hold `regs`. -/
def dtGetAddress : List (BitVec 8) → ℕ → BitVec 32
  | [], _ => 0
  | reg :: regs, i => reg.setWidth 32 <<< (8 * i) ||| dtGetAddress regs (i + 1)

theorem dtSetAddress_fst_eq_zero_iff (reply : ℕ → ℤ) (address : BitVec 32) (n i : ℕ) :
    (dtSetAddress reply address n i).1 = 0 ↔ ∀ j < n, reply (i + j) = 0 := by
  induction n generalizing i with
  | zero => simp [dtSetAddress]
  | succ n ih =>
    rw [dtSetAddress, Nat.forall_lt_succ_left]
    split_ifs with h
    · exact iff_of_false h fun hall => h hall.1
    · have h₀ : reply (i + 0) = 0 := not_not.mp h
      rw [ih, and_iff_right h₀]
      simp only [Nat.add_assoc, Nat.add_comm 1]

theorem dtSetAddress_snd (reply : ℕ → ℤ) (address : BitVec 32) (n i : ℕ)
    (h : ∀ j < n, reply (i + j) = 0) :
    (dtSetAddress reply address n i).2 =
      (List.range' i n).map fun j => (address >>> (8 * j)).setWidth 8 := by
  induction n generalizing i with
  | zero => rfl
  | succ n ih =>
    have h₀ : reply i = 0 := h 0 (Nat.succ_pos n)
    have hrest : ∀ j < n, reply (i + 1 + j) = 0 := by
      intro j hj
      rw [Nat.add_assoc, Nat.add_comm 1]
      exact h (j + 1) (Nat.succ_lt_succ hj)
    rw [dtSetAddress, if_neg (not_not.mpr h₀), List.range'_succ, List.map_cons]
    dsimp only
    rw [ih (i + 1) hrest]

/-- The octets of an address are read back as its upper bits. -/
theorem getLsbD_dtGetAddress (address : BitVec 32) (n i k : ℕ) (hk : k < 32) :
    (dtGetAddress ((List.range' i n).map fun j => (address >>> (8 * j)).setWidth 8) i).getLsbD k =
      (decide (8 * i ≤ k) && decide (k < 8 * (i + n)) && address.getLsbD k) := by
  induction n generalizing i with
  | zero =>
    have hlt : (decide (8 * i ≤ k) && decide (k < 8 * (i + 0))) = false := by
      simp
    rw [hlt]
    simp [dtGetAddress]
  | succ n ih =>
    rw [List.range'_succ, List.map_cons, dtGetAddress, BitVec.getLsbD_or, ih,
      BitVec.getLsbD_shiftLeft, BitVec.getLsbD_setWidth, BitVec.getLsbD_setWidth,
      BitVec.getLsbD_ushiftRight]
    by_cases hlo : 8 * i ≤ k
    · have hadd : 8 * i + (k - 8 * i) = k := by omega
      rw [hadd]
      by_cases hhi : k < 8 * (i + 1)
      · have h₁ : k - 8 * i < 8 := by omega
        have h₂ : k - 8 * i < 32 := by omega
        have h₃ : k < 8 * (i + (n + 1)) := by omega
        have h₄ : ¬8 * (i + 1) ≤ k := by omega
        simp [hk, hlo, h₁, h₂, h₃, h₄]
      · have h₁ : ¬k - 8 * i < 8 := by omega
        have h₂ : 8 * (i + 1) ≤ k := by omega
        have h₃ : i + 1 + n = i + (n + 1) := by omega
        simp [hlo, h₁, h₂, h₃]
    · have h₁ : k < 8 * i := by omega
      have h₂ : ¬8 * (i + 1) ≤ k := by omega
      simp [hlo, h₁, h₂]

/-- The four octets of an address are read back as the address. -/
theorem dtGetAddress_octets (address : BitVec 32) :
    dtGetAddress ((List.range' 0 4).map fun j => (address >>> (8 * j)).setWidth 8) 0 = address := by
  apply BitVec.eq_of_getLsbD_eq
  intro k hk
  rw [getLsbD_dtGetAddress address 4 0 k hk]
  simp [hk]

/-! The loop of `skw_sdio_dt_write` -/

/-- The variables of `skw_sdio_dt_write` with its buffer `next_size_buf`, what it has handed to
`sdio_memcpy_toio`, and whether a copy would have gone beyond the buffer. -/
structure DtWrite where
  remainder : ℕ
  buf : List (BitVec 8)
  data : Lib.Fixed (BitVec 8) SKW_BUF_SIZE
  ret : ℤ
  sent : List (List (BitVec 8))
  overrun : Bool

/-- What comes of a call: its result, the octets of the address, the transfers, and whether the
card is told to abort. -/
structure DtResult where
  ret : ℤ
  octets : List (BitVec 8)
  sent : List (List (BitVec 8))
  aborted : Bool
  overrun : Bool

namespace DtWrite

def pass (f : SdioFunc) (reply : ℕ → ℤ) (s : DtWrite) : Lib.Pass DtWrite :=
  if s.remainder = 0 then .done s
  else
    let transLen := f.transLen s.remainder
    match s.data.write 0 (s.buf.take transLen) with
    | none => .done { s with overrun := true }
    | some data =>
      let t :=
        { s with
          data, ret := reply s.sent.length, sent := s.sent ++ [data.cells.take transLen] }
      if t.ret ≠ 0 then .done t
      else .next { t with remainder := s.remainder - transLen, buf := s.buf.drop transLen }

end DtWrite

/-- `skw_sdio_dt_write`; `addrReply` and `copyReply` have the results of `sdio_writeb` and of
`sdio_memcpy_toio`. -/
def dtWrite (f : SdioFunc) (addrReply copyReply : ℕ → ℤ) (data : Lib.Fixed (BitVec 8) SKW_BUF_SIZE)
    (address : BitVec 32) (buf : List (BitVec 8)) (len : BitVec 32) (fuel : ℕ) : Option DtResult :=
  let (err, octets) := dtSetAddress addrReply address 4 0
  if err ≠ 0 then some ⟨err, octets, [], false, false⟩
  else
    (Lib.loop (DtWrite.pass f copyReply) fuel ⟨len.toNat, buf, data, 0, [], false⟩).map fun s =>
      ⟨s.ret, octets, s.sent, decide (s.ret ≠ 0), s.overrun⟩

/-- A transfer shows its octets only. -/
def dtPiece (_ _ : ℕ) (p : List (BitVec 8)) : List (BitVec 8) := p

theorem messages_dtPiece (i n : ℕ) (ps : List (List (BitVec 8))) :
    Lib.messages dtPiece i n ps = ps := by
  induction ps generalizing i n with
  | nil => rfl
  | cons p ps ih => rw [Lib.messages, ih, dtPiece]

namespace DtWrite

/-- Before each pass nothing has gone wrong, and the transfer has left what remains. -/
structure Follows (s : DtWrite) (u : Lib.Transfer (BitVec 8) (List (BitVec 8))) : Prop where
  remainder : s.remainder ≤ s.buf.length
  ret : s.ret = 0
  overrun : s.overrun = false
  rest : u.rest = s.buf.take s.remainder
  sent : u.sent = s.sent
  failed : u.failed = false

structure EndsWith (s : DtWrite) (u : Lib.Transfer (BitVec 8) (List (BitVec 8))) : Prop where
  overrun : s.overrun = false
  sent : u.sent = s.sent
  failed : u.failed = true ↔ s.ret ≠ 0

variable {f : SdioFunc}

/-- A pass with something left hands on the next piece. -/
theorem pass_of_pos (hf : f.Ready) (reply : ℕ → ℤ) {s : DtWrite}
    (hle : s.remainder ≤ s.buf.length) (hpos : 0 < s.remainder) {k : ℕ}
    (hk : k = f.transLen s.remainder) :
    ∃ data, s.pass f reply =
      if reply s.sent.length ≠ 0 then
        .done { s with data, ret := reply s.sent.length, sent := s.sent ++ [s.buf.take k] }
      else
        .next
          { s with
            remainder := s.remainder - k, buf := s.buf.drop k, data
            ret := reply s.sent.length, sent := s.sent ++ [s.buf.take k] } := by
  have hcut := (hf.cuts s.remainder hpos).2
  have hfit := hf.transLen_le s.remainder
  rw [← hk] at hcut hfit
  have hlen : (s.buf.take k).length = k := by
    rw [List.length_take, min_eq_left (hcut.trans hle)]
  obtain ⟨data, hw, hcells⟩ := s.data.write_zero (s := s.buf.take k) (hlen.trans_le hfit)
  refine ⟨data, ?_⟩
  unfold pass
  rw [if_neg hpos.ne', ← hk]
  dsimp only
  rw [hw]
  dsimp only
  rw [hcells, List.take_left' hlen]

theorem pass_follows (hf : f.Ready) (reply : ℕ → ℤ) (s : DtWrite)
    (u : Lib.Transfer (BitVec 8) (List (BitVec 8))) (h : s.Follows u) :
    (∃ s' u', s.pass f reply = .next s' ∧
      Lib.Transfer.pass f.transLen dtPiece (fun i => decide (reply i ≠ 0)) u = .next u' ∧
      s'.Follows u') ∨
    (∃ s' u', s.pass f reply = .done s' ∧
      Lib.Transfer.pass f.transLen dtPiece (fun i => decide (reply i ≠ 0)) u = .done u' ∧
      s'.EndsWith u') := by
  have hlen : u.rest.length = s.remainder := by
    rw [h.rest, List.length_take, min_eq_left h.remainder]
  unfold Lib.Transfer.pass
  by_cases hr : s.remainder = 0
  · have hnil : u.rest = [] := List.length_eq_zero_iff.mp (hlen.trans hr)
    refine .inr ⟨s, u, ?_, if_pos hnil, h.overrun, h.sent, ?_⟩
    · unfold pass
      rw [if_pos hr]
    · simp [h.failed, h.ret]
  have hpos := Nat.pos_of_ne_zero hr
  have hne : u.rest ≠ [] := by
    rw [← List.length_pos_iff, hlen]
    exact hpos
  have hcut := (hf.cuts s.remainder hpos).2
  obtain ⟨data, hp⟩ := pass_of_pos hf reply h.remainder hpos rfl
  have hpiece : u.rest.take (f.transLen u.rest.length) = s.buf.take (f.transLen s.remainder) := by
    rw [hlen, h.rest, List.take_take, min_eq_left hcut]
  rw [if_neg hne, hp]
  dsimp only
  rw [h.sent, dtPiece, hpiece]
  by_cases hrep : reply s.sent.length ≠ 0
  · right
    rw [if_pos hrep, if_pos (decide_eq_true hrep)]
    exact ⟨_, _, rfl, rfl, h.overrun, rfl, iff_of_true rfl hrep⟩
  · left
    rw [if_neg hrep, if_neg (by simpa using hrep)]
    refine ⟨_, _, rfl, rfl, ?_, not_not.mp hrep, h.overrun, ?_, rfl, h.failed⟩
    · have := h.remainder
      dsimp only
      rw [List.length_drop]
      omega
    · dsimp only
      rw [hlen, h.rest, List.drop_take]

end DtWrite

/-- The address stands in the registers, and the transfers carry the octets in their order, each as
long as what is left allows. -/
structure DtDelivers (f : SdioFunc) (address : BitVec 32) (xs : List (BitVec 8)) (r : DtResult) :
    Prop where
  address : dtGetAddress r.octets 0 = address
  data : r.sent.flatten = xs
  lengths : ∀ pre p post, r.sent = pre ++ p :: post →
    p.length = f.transLen (xs.length - pre.flatten.length)

/-- A write whose address is refused. -/
theorem dtWrite_of_refused {f : SdioFunc} {addrReply copyReply : ℕ → ℤ}
    {data : Lib.Fixed (BitVec 8) SKW_BUF_SIZE} {address : BitVec 32} {buf : List (BitVec 8)}
    {len : BitVec 32} (h : ¬∀ i < 4, addrReply i = 0) (fuel : ℕ) :
    dtWrite f addrReply copyReply data address buf len fuel =
      some ⟨(dtSetAddress addrReply address 4 0).1, (dtSetAddress addrReply address 4 0).2, [],
        false, false⟩ := by
  have hne : (dtSetAddress addrReply address 4 0).1 ≠ 0 := by
    rw [ne_eq, dtSetAddress_fst_eq_zero_iff]
    simpa only [Nat.zero_add] using h
  unfold dtWrite
  exact if_pos hne

/-- A write whose address is taken runs like the transfer of its octets. -/
theorem exists_dtWrite {f : SdioFunc} (hf : f.Ready) {addrReply : ℕ → ℤ} (copyReply : ℕ → ℤ)
    (data : Lib.Fixed (BitVec 8) SKW_BUF_SIZE) (address : BitVec 32) {buf : List (BitVec 8)}
    {len : BitVec 32} (hlen : len.toNat ≤ buf.length) (h : ∀ i < 4, addrReply i = 0) :
    ∃ r, (∃ fuel, dtWrite f addrReply copyReply data address buf len fuel = some r) ∧
      dtGetAddress r.octets 0 = address ∧ r.overrun = false ∧ (r.aborted = true ↔ r.ret ≠ 0) ∧
      (r.ret = 0 ↔ ∀ j < f.pieceCount len.toNat, copyReply j = 0) ∧
      r.sent = (Lib.pieces f.transLen (buf.take len.toNat)).take
        (Lib.sentCount (fun i => decide (copyReply i ≠ 0)) 0 (f.pieceCount len.toNat)) := by
  have hxs : (buf.take len.toNat).length = len.toNat := by
    rw [List.length_take, min_eq_left hlen]
  have hcount : (Lib.pieces f.transLen (buf.take len.toNat)).length = f.pieceCount len.toNat := by
    rw [hf.length_pieces, hxs]
  obtain ⟨u, hu, hsent, hfail⟩ := Lib.loop_transfer dtPiece
    (fun i => decide (copyReply i ≠ 0)) hf.cuts [] (buf.take len.toNat)
    (Nat.lt_succ_self _)
  have hstart : DtWrite.Follows ⟨len.toNat, buf, data, 0, [], false⟩
      ⟨buf.take len.toNat, [], false⟩ := ⟨hlen, rfl, rfl, rfl, rfl, rfl⟩
  obtain ⟨t, ht, hend⟩ := Lib.loop_follows (DtWrite.pass_follows hf copyReply) hstart hu
  have hset : dtSetAddress addrReply address 4 0 =
      ((0 : ℤ), (List.range' 0 4).map fun j => (address >>> (8 * j)).setWidth 8) := by
    have h' : ∀ i < 4, addrReply (0 + i) = 0 := by
      simpa only [Nat.zero_add] using h
    exact Prod.ext ((dtSetAddress_fst_eq_zero_iff addrReply address 4 0).mpr h')
      (dtSetAddress_snd addrReply address 4 0 h')
  have hrun : dtWrite f addrReply copyReply data address buf len
      (buf.take len.toNat).length.succ =
      some ⟨t.ret, (List.range' 0 4).map fun j => (address >>> (8 * j)).setWidth 8, t.sent,
        decide (t.ret ≠ 0), t.overrun⟩ := by
    unfold dtWrite
    rw [hset]
    dsimp only
    rw [if_neg (not_not.mpr rfl), ht]
    rfl
  refine ⟨_, ⟨_, hrun⟩, dtGetAddress_octets address, hend.overrun, decide_eq_true_iff, ?_, ?_⟩
  · dsimp only
    rw [← not_iff_not, ← ne_eq, ← hend.failed, hfail, hcount]
    simp
  · dsimp only
    rw [← hend.sent, hsent, hcount, List.nil_append, List.length_nil, messages_dtPiece]

end Skw
