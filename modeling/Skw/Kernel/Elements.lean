import Skw.Lib.Packing
import Skw.Lib.Tlv

/-! Lists of information elements as octets. -/
namespace Skw
open Lib (Tlv)

abbrev WLAN_EID_VENDOR_SPECIFIC : BitVec 8 := 221
abbrev SKW_WLAN_EID_EXTENSION : BitVec 8 := 255

/-- The octets of a list of elements. -/
def elementBytes (es : List Lib.Tlv) : List (BitVec 8) := es.flatMap Lib.Tlv.bytes

section
variable {e : Lib.Tlv} {es : List Lib.Tlv}

@[simp] theorem elementBytes_cons (e : Lib.Tlv) (es : List Lib.Tlv) :
    elementBytes (e :: es) = e.bytes ++ elementBytes es := List.flatMap_cons

@[simp] theorem elementBytes_append (es fs : List Lib.Tlv) :
    elementBytes (es ++ fs) = elementBytes es ++ elementBytes fs := List.flatMap_append

@[simp] theorem length_elementBytes (es : List Lib.Tlv) :
    (elementBytes es).length = Lib.totalSize Lib.Tlv.size es := by
  induction es with
  | nil => rfl
  | cons e es ih => simp [ih]

theorem elementBytes_eq_nil_iff : elementBytes es = [] ↔ es = [] := by
  cases es <;> simp [elementBytes, Lib.Tlv.bytes]

theorem toNat_length (e : Lib.Tlv) : (BitVec.ofNat 8 e.data.length).toNat = e.data.length := by
  rw [BitVec.toNat_ofNat, Nat.mod_eq_of_lt e.length_lt]

theorem length_le_length_elementBytes (es : List Tlv) : es.length ≤ (elementBytes es).length := by
  induction es with
  | nil => exact Nat.zero_le _
  | cons e es ih =>
    rw [elementBytes_cons, List.length_append, Tlv.length_bytes, List.length_cons, Tlv.size]
    omega

end

end Skw
