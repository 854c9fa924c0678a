import Skw.Kernel.Types

/-! Words in memory, the lowest octet first. -/
namespace Skw

def le16 (x : BitVec 16) : List (BitVec 8) := [x.setWidth 8, (x >>> 8).setWidth 8]

def le32 (x : BitVec 32) : List (BitVec 8) :=
  [x.setWidth 8, (x >>> 8).setWidth 8, (x >>> 16).setWidth 8, (x >>> 24).setWidth 8]

def macBytes (a : MacAddr) : List (BitVec 8) :=
  [(a >>> 40).setWidth 8, (a >>> 32).setWidth 8, (a >>> 24).setWidth 8, (a >>> 16).setWidth 8,
    (a >>> 8).setWidth 8, a.setWidth 8]

/-- The number that octets stand for, the lowest first. -/
def leNat (l : List (BitVec 8)) : ℕ := l.foldr (fun b n => b.toNat + 2 ^ 8 * n) 0

@[simp] theorem length_le16 (x : BitVec 16) : (le16 x).length = 2 := rfl

@[simp] theorem length_macBytes (a : MacAddr) : (macBytes a).length = 6 := rfl

@[simp] theorem length_le32 (x : BitVec 32) : (le32 x).length = 4 := rfl

theorem leNat_le16 (x : BitVec 16) : leNat (le16 x) = x.toNat := by
  have := x.isLt
  simp only [leNat, le16, List.foldr_cons, List.foldr_nil, BitVec.toNat_setWidth,
    BitVec.toNat_ushiftRight, Nat.shiftRight_eq_div_pow]
  omega

theorem leNat_le32 (x : BitVec 32) : leNat (le32 x) = x.toNat := by
  have := x.isLt
  simp only [leNat, le32, List.foldr_cons, List.foldr_nil, BitVec.toNat_setWidth,
    BitVec.toNat_ushiftRight, Nat.shiftRight_eq_div_pow]
  omega

end Skw
