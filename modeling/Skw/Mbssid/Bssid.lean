import Skw.Kernel.Types
import Skw.Lib.Fixed
import Skw.Lib.Octets
import Mathlib.Tactic.Ring
import Mathlib.Data.Int.ModEq

/-! `skw_gen_new_bssid`: the address of a BSSID of a set, out of the one that the set is known by
and an index. -/
namespace Skw
open Lib (beNat splice lowMask)

/-- An address as it is in memory. -/
abbrev EthAddr := Lib.Fixed (BitVec 8) ETH_ALEN

abbrev BITS_PER_LONG_LONG : ℕ := 64

def SKW_GENMASK_ULL (h l : ℕ) : BitVec 64 :=
  (~~~0#64 - 1#64 <<< l + 1) &&& (~~~0#64) >>> (BITS_PER_LONG_LONG - 1 - h)

def macToU64 (addr : EthAddr) : BitVec 64 :=
  addr.cells.foldl (fun u a => u <<< 8 ||| a.setWidth 64) 0

/-- The loop of `skw_u64_to_mac` with `i` octets left, in front of those that it has written. -/
def u64ToMacLoop : ℕ → BitVec 64 → List (BitVec 8) → List (BitVec 8)
  | 0, _, addr => addr
  | i + 1, u, addr => u64ToMacLoop i (u >>> 8) ((u &&& 0xff).setWidth 8 :: addr)

theorem length_u64ToMacLoop (i : ℕ) (u : BitVec 64) (addr : List (BitVec 8)) :
    (u64ToMacLoop i u addr).length = i + addr.length := by
  induction i generalizing u addr with
  | zero => exact (Nat.zero_add _).symm
  | succ i ih =>
    rw [u64ToMacLoop, ih, List.length_cons]
    omega

def u64ToMac (u : BitVec 64) : EthAddr := ⟨u64ToMacLoop ETH_ALEN u [], length_u64ToMacLoop ..⟩

/-- `max_bssid` is at least 1. -/
def genNewBssid (bssid : EthAddr) (maxBssid mbssidIndex : BitVec 8) : EthAddr :=
  let bssidU64 := macToU64 bssid
  let mask := SKW_GENMASK_ULL (maxBssid.toNat - 1) 0
  let newBssidU64 := bssidU64 &&& ~~~mask
  let newBssidU64 := newBssidU64 ||| (bssidU64 &&& mask) + mbssidIndex.setWidth 64 &&& mask
  u64ToMac newBssidU64

/-- The lowest `n` bits of an address have moved on by `i`, and the others are those of the
reference. -/
structure Derived (reference bssid : EthAddr) (n i : ℕ) : Prop where
  upper : beNat bssid.cells / 2 ^ n = beNat reference.cells / 2 ^ n
  lower : beNat bssid.cells % 2 ^ n = (beNat reference.cells % 2 ^ n + i) % 2 ^ n

section
variable {s : List (BitVec 8)} {u : BitVec 64} {n i : ℕ}

theorem toNat_shift_or (b : BitVec 8) (hu : u.toNat < 2 ^ 56) :
    (u <<< 8 ||| b.setWidth 64).toNat = u.toNat * 256 + b.toNat := by
  have hb := b.isLt
  have hshift : u.toNat <<< 8 % 2 ^ 64 = u.toNat <<< 8 := by
    apply Nat.mod_eq_of_lt
    rw [Nat.shiftLeft_eq]
    omega
  rw [BitVec.toNat_or, BitVec.toNat_shiftLeft, hshift, BitVec.toNat_setWidth,
    Nat.mod_eq_of_lt (by omega), ← Nat.shiftLeft_add_eq_or_of_lt hb, Nat.shiftLeft_eq]

/-- The octets go below what is there as long as there is room above. -/
theorem toNat_foldl_shift (s : List (BitVec 8)) (hroom : (u.toNat + 1) * 256 ^ s.length ≤ 2 ^ 64) :
    (s.foldl (fun (u : BitVec 64) a => u <<< 8 ||| a.setWidth 64) u).toNat =
      u.toNat * 256 ^ s.length + beNat s := by
  induction s generalizing u with
  | nil => simp [beNat]
  | cons b s ih =>
    have hb := b.isLt
    rw [List.length_cons, pow_succ'] at hroom
    have hpow := Nat.one_le_pow s.length 256 (by decide)
    have hu : u.toNat < 2 ^ 56 := by nlinarith
    have hstep := toNat_shift_or b hu
    have hroom' : ((u <<< 8 ||| b.setWidth 64).toNat + 1) * 256 ^ s.length ≤ 2 ^ 64 := by
      rw [hstep]
      nlinarith
    rw [List.foldl_cons, ih hroom', hstep, Lib.beNat_cons, List.length_cons, pow_succ']
    ring

theorem toNat_macToU64 (addr : EthAddr) : (macToU64 addr).toNat = beNat addr.cells := by
  have hzero : (0 : BitVec 64).toNat = 0 := rfl
  rw [macToU64, toNat_foldl_shift _ (by rw [addr.length_cells]; decide), hzero, Nat.zero_mul,
    Nat.zero_add]

/-- The octets that are written are those of the lowest places. -/
theorem beNat_u64ToMacLoop (k : ℕ) (u : BitVec 64) (s : List (BitVec 8)) :
    beNat (u64ToMacLoop k u s) = u.toNat % 256 ^ k * 256 ^ s.length + beNat s := by
  induction k generalizing u s with
  | zero => simp [u64ToMacLoop, Nat.mod_one]
  | succ k ih =>
    have hlow : ((u &&& 0xff).setWidth 8).toNat = u.toNat % 256 := by
      rw [BitVec.toNat_setWidth, BitVec.toNat_and]
      exact (congrArg (· % 2 ^ 8) (Nat.and_two_pow_sub_one_eq_mod u.toNat 8)).trans
        (Nat.mod_mod ..)
    have hhigh : (u >>> 8).toNat = u.toNat / 256 := by
      rw [BitVec.toNat_ushiftRight, Nat.shiftRight_eq_div_pow]
    rw [u64ToMacLoop, ih, Lib.beNat_cons, List.length_cons, hlow, hhigh, pow_succ' 256 k, Nat.mod_mul,
      pow_succ' 256 s.length]
    ring

theorem beNat_u64ToMac (u : BitVec 64) : beNat (u64ToMac u).cells = u.toNat % 2 ^ 48 := by
  have h := beNat_u64ToMacLoop ETH_ALEN u []
  rw [List.length_nil, Nat.pow_zero, Nat.mul_one] at h
  exact h

theorem EthAddr.eq_of_beNat {a b : EthAddr} (h : beNat a.cells = beNat b.cells) : a = b :=
  Lib.Fixed.ext (Lib.beNat_inj (a.length_cells.trans b.length_cells.symm) h)

theorem beNat_ethAddr_lt (addr : EthAddr) : beNat addr.cells < 2 ^ 48 := by
  have h := Lib.beNat_lt addr.cells
  rwa [addr.length_cells] at h

theorem u64ToMac_macToU64 (addr : EthAddr) : u64ToMac (macToU64 addr) = addr := by
  apply EthAddr.eq_of_beNat
  rw [beNat_u64ToMac, toNat_macToU64, Nat.mod_eq_of_lt (beNat_ethAddr_lt addr)]

theorem genmask_eq (hn : 1 ≤ n) (hle : n ≤ 64) : SKW_GENMASK_ULL (n - 1) 0 = lowMask 64 n := by
  have hshift : BITS_PER_LONG_LONG - 1 - (n - 1) = 64 - n := by
    show 64 - 1 - (n - 1) = 64 - n
    omega
  have hones : ~~~0#64 - 1#64 <<< 0 + 1 = BitVec.allOnes 64 := by decide
  rw [SKW_GENMASK_ULL, hshift, hones, BitVec.allOnes_and]
  rfl

/-- The new address is that of the reference with the lowest bits of a sum. -/
theorem genNewBssid_eq (bssid : EthAddr) {maxBssid : BitVec 8} (h : 1 ≤ maxBssid.toNat)
    (h8 : maxBssid.toNat ≤ 8) (mbssidIndex : BitVec 8) :
    genNewBssid bssid maxBssid mbssidIndex =
      u64ToMac (splice (lowMask 64 maxBssid.toNat) (macToU64 bssid)
        ((macToU64 bssid &&& lowMask 64 maxBssid.toNat) + mbssidIndex.setWidth 64)) := by
  rw [genNewBssid, genmask_eq h (by omega)]
  rfl

theorem derived_genNewBssid (bssid : EthAddr) {maxBssid : BitVec 8} (h : 1 ≤ maxBssid.toNat)
    (h8 : maxBssid.toNat ≤ 8) (mbssidIndex : BitVec 8) :
    Derived bssid (genNewBssid bssid maxBssid mbssidIndex) maxBssid.toNat mbssidIndex.toNat := by
  have hn : maxBssid.toNat ≤ 64 := by omega
  have hi := mbssidIndex.isLt
  have hlt := beNat_ethAddr_lt bssid
  have hdvd : 2 ^ maxBssid.toNat ∣ 2 ^ 48 := pow_dvd_pow 2 (by omega)
  have hlow := Nat.mod_le (beNat bssid.cells) (2 ^ maxBssid.toNat)
  have hsum : ((macToU64 bssid &&& lowMask 64 maxBssid.toNat) + mbssidIndex.setWidth 64).toNat =
      beNat bssid.cells % 2 ^ maxBssid.toNat + mbssidIndex.toNat := by
    rw [BitVec.toNat_add, Lib.toNat_and_lowMask hn, toNat_macToU64, BitVec.toNat_setWidth,
      Nat.mod_eq_of_lt (by omega : mbssidIndex.toNat < 2 ^ 64), Nat.mod_eq_of_lt (by omega)]
  have hupper := Lib.toNat_splice_div hn (macToU64 bssid)
    ((macToU64 bssid &&& lowMask 64 maxBssid.toNat) + mbssidIndex.setWidth 64)
  have hlower := Lib.toNat_splice_mod hn (macToU64 bssid)
    ((macToU64 bssid &&& lowMask 64 maxBssid.toNat) + mbssidIndex.setWidth 64)
  rw [toNat_macToU64] at hupper
  rw [hsum] at hlower
  -- The word has no bits above those of an address, since its upper part is the reference's.
  have hsmall : (splice (lowMask 64 maxBssid.toNat) (macToU64 bssid)
      ((macToU64 bssid &&& lowMask 64 maxBssid.toNat) + mbssidIndex.setWidth 64)).toNat <
        2 ^ 48 := by
    have hdiv := Nat.div_lt_div_of_lt_of_dvd hdvd hlt
    exact Nat.lt_of_div_lt_div (hupper ▸ hdiv)
  rw [genNewBssid_eq bssid h h8]
  constructor
  · rw [beNat_u64ToMac, Nat.mod_eq_of_lt hsmall, hupper]
  · rw [beNat_u64ToMac, Nat.mod_eq_of_lt hsmall, hlower]

theorem Derived.index_eq {r a : EthAddr} {j : ℕ} (h : Derived r a n i) (h' : Derived r a n j)
    (hi : i < 2 ^ n) (hj : j < 2 ^ n) : i = j := by
  have hmod : beNat r.cells % 2 ^ n + i ≡ beNat r.cells % 2 ^ n + j [MOD 2 ^ n] :=
    h.lower.symm.trans h'.lower
  exact (Nat.ModEq.add_left_cancel' _ hmod).eq_of_lt_of_lt hi hj

end

/-- A set of up to 256 BSSIDs has an address for each index. -/
theorem genNewBssid_derives (bssid : EthAddr) (maxBssid : BitVec 8) (h : 1 ≤ maxBssid.toNat)
    (h8 : maxBssid.toNat ≤ 8) :
    (∀ i : BitVec 8, i.toNat < 2 ^ maxBssid.toNat →
      Derived bssid (genNewBssid bssid maxBssid i) maxBssid.toNat i.toNat) ∧
    (∀ i j : BitVec 8, i.toNat < 2 ^ maxBssid.toNat → j.toNat < 2 ^ maxBssid.toNat → i ≠ j →
      genNewBssid bssid maxBssid i ≠ genNewBssid bssid maxBssid j) ∧
    ∀ addr, u64ToMac (macToU64 addr) = addr := by
  refine ⟨fun i _ => derived_genNewBssid bssid h h8 i, fun i j hi hj hne heq => hne ?_,
    u64ToMac_macToU64⟩
  apply BitVec.eq_of_toNat_eq
  have hd := derived_genNewBssid bssid h h8 i
  rw [heq] at hd
  exact hd.index_eq (derived_genNewBssid bssid h h8 j) hi hj

/-- The last two of four addresses, where the lowest bits of the reference wrap. -/
theorem genNewBssid_derives_wrapping :
    Derived ⟨[0x02, 0, 0, 0, 0, 0xff], rfl⟩ (genNewBssid ⟨[0x02, 0, 0, 0, 0, 0xff], rfl⟩ 2 3) 2 3 ∧
      (genNewBssid ⟨[0x02, 0, 0, 0, 0, 0xff], rfl⟩ 2 3).cells = [0x02, 0, 0, 0, 0, 0xfe] ∧
      genNewBssid ⟨[0x02, 0, 0, 0, 0, 0xff], rfl⟩ 2 3 ≠
        genNewBssid ⟨[0x02, 0, 0, 0, 0, 0xff], rfl⟩ 2 2 := by
  obtain ⟨hderived, hdistinct, -⟩ := genNewBssid_derives ⟨[0x02, 0, 0, 0, 0, 0xff], rfl⟩ 2
    (by decide) (by decide)
  exact ⟨hderived 3 (by decide), by decide, hdistinct 3 2 (by decide) (by decide) (by decide)⟩

end Skw
