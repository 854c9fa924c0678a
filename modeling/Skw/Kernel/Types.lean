import Mathlib.Data.BitVec

/-! What the driver takes from the kernel's headers: pointers that are only stored and compared,
error numbers, interface types, `jiffies` and the comparisons of `linux/jiffies.h`, which read the
sign of a wrapping difference. With them stand the limits of `skw_core.h`. -/
namespace Skw

/-- A pointer that the code only stores and compares; 0 is NULL. -/
abbrev Ptr := ℕ

abbrev ENOENT : ℤ := 2
abbrev EIO : ℤ := 5
abbrev E2BIG : ℤ := 7
abbrev EAGAIN : ℤ := 11
abbrev ENOMEM : ℤ := 12
abbrev EFAULT : ℤ := 14
abbrev EBUSY : ℤ := 16
abbrev ENODEV : ℤ := 19
abbrev EINVAL : ℤ := 22
abbrev ERANGE : ℤ := 34
abbrev ENOLINK : ℤ := 67
abbrev EOPNOTSUPP : ℤ := 95
abbrev ETIMEDOUT : ℤ := 110
abbrev ENOTSUPP : ℤ := 524

abbrev ETH_ALEN : ℕ := 6
abbrev ETH_P_PAE : ℕ := 0x888E
abbrev SKW_ETH_P_WAPI : ℕ := 0x88B4
abbrev IPPROTO_TCP : BitVec 8 := 6
abbrev IPPROTO_UDP : ℕ := 17
abbrev SKW_INVALID_ID : ℕ := 0xff

-- The ranges of the indices whose numerals the model writes.
instance neZeroLmac : NeZero 2 := ⟨by decide⟩
instance neZeroAc : NeZero 4 := ⟨by decide⟩
instance neZeroKey : NeZero 6 := ⟨by decide⟩
instance neZeroFragNum : NeZero 16 := ⟨by decide⟩
instance neZeroSubframe : NeZero 64 := ⟨by decide⟩
instance neZeroOctet : NeZero 256 := ⟨by decide⟩
instance neZeroWord : NeZero 65536 := ⟨by decide⟩

abbrev SKW_MAX_LMAC_SUPPORT : ℕ := 2
abbrev SKW_NR_IFACE : ℕ := 4
abbrev SKW_MAX_PEER_SUPPORT : ℕ := 32

/-- The slots of `vif.iface`. -/
abbrev IfaceId := Fin SKW_NR_IFACE

/-- The first octet is the highest; its lowest bit marks a group address. -/
abbrev MacAddr := BitVec 48

inductive Band
  | band2ghz
  | band5ghz
  | band6ghz
deriving DecidableEq

/-- `enum nl80211_iftype`. -/
inductive Iftype
  | unspecified
  | adhoc
  | station
  | ap
  | apVlan
  | wds
  | monitor
  | meshPoint
  | p2pClient
  | p2pGo
  | p2pDevice
  | ocb
  | nan
deriving DecidableEq

/-- `skw->hw.bus`. -/
inductive SkwBus
  | sdio
  | usb
  | pcie
  | sdio2
  | usb2
deriving DecidableEq

/-- The kernel's `round_up`, for an alignment that is a power of two. -/
def roundUp (n align : ℕ) : ℕ := (n + (align - 1)) / align * align

/-- `jiffies` is an unsigned long of the 64-bit target. -/
abbrev Jiffies := BitVec 64

def timeBefore (a b : Jiffies) : Bool := (a - b).toInt < 0

def timeAfter (a b : Jiffies) : Bool := timeBefore b a

def timeBeforeEq (a b : Jiffies) : Bool := 0 ≤ (b - a).toInt

@[simp] theorem timeBeforeEq_refl (a : Jiffies) : timeBeforeEq a a = true := by
  simp [timeBeforeEq]

/-- Two instants that are not after each other are the same: half the range apart is after
in both directions. -/
theorem timeBeforeEq_antisymm {a b : Jiffies} (hab : timeBeforeEq a b = true)
    (hba : timeBeforeEq b a = true) : a = b := by
  simp only [timeBeforeEq, decide_eq_true_eq, BitVec.toInt_eq_toNat_cond] at hab hba
  split_ifs at hab hba with h₁ h₂ <;> bv_omega

end Skw
