import Skw.Kernel.Types
import Skw.Kernel.Str
import Mathlib.Logic.Function.Basic

/-! The values of the `[mib]` section. `skw_mib_parser` checks the number of a line against its type
and stores it as a long; `skw_config_set_mib` hands its low bytes on. -/
namespace Skw

/-- The lists of `skw_cfg_mib`. -/
inductive MibMode
  | init
  | sta
  | sap
  | gc
  | go
deriving DecidableEq

/-- The numeric types of `SKW_MIB_TYPE`. -/
inductive MibType
  | s8
  | u8
  | s16
  | u16
  | s32
  | u32
  | bool
deriving DecidableEq

/-- `type` and `value` of `skw_mib_data`: a long of a numeric type, or a copied string. -/
inductive MibValue
  | num (type : MibType) (val : BitVec 64)
  | string (s : Str)
deriving DecidableEq

structure MibData where
  id : BitVec 32
  value : MibValue
deriving DecidableEq

abbrev CfgMib := MibMode → List MibData

/-- Whether `kmemdup_nul` and `SKW_ZALLOC` succeed in a call. -/
structure MibAlloc where
  dup : Bool
  zalloc : Bool

def mibHead (key : Str) : Option MibMode :=
  if (str "init@").isPrefixOf key then some .init
  else if (str "sta@").isPrefixOf key then some .sta
  else if (str "sap@").isPrefixOf key then some .sap
  else if (str "gc@").isPrefixOf key then some .gc
  else if (str "go@").isPrefixOf key then some .go
  else none

/-- The type that a name stands for, if the value lies in its range. -/
def mibType (name : Str) (val : ℤ) : Option MibType :=
  if name = str "s8" then if -127 ≤ val ∧ val ≤ 128 then some .s8 else none
  else if name = str "s16" then if -32767 ≤ val ∧ val ≤ 32768 then some .s16 else none
  else if name = str "s32" then if -2147483647 ≤ val ∧ val ≤ 2147483648 then some .s32 else none
  else if name = str "u8" then if 0 ≤ val ∧ val ≤ 0xff then some .u8 else none
  else if name = str "u16" then if 0 ≤ val ∧ val ≤ 0xffff then some .u16 else none
  else if name = str "u32" then if 0 ≤ val ∧ val ≤ 0xffffffff then some .u32 else none
  else if name = str "bool" then if val = 0 ∨ val = 1 then some .bool else none
  else none

def mibValue (a : MibAlloc) (value : Str) : Except ℤ MibValue :=
  match strrchr (ch '/') value with
  | none => .error (-EINVAL)
  | some name =>
    if name = str "string" then
      if a.dup then .ok (.string (value.take (value.length - name.length - 1)))
      else .error (-ENOMEM)
    else
      let (val, endp) := simpleStrtol value 0
      if endp.head? ≠ some (ch '/') then .error (-EINVAL)
      else
        match mibType endp.tail val.toInt with
        | none => .error (-EINVAL)
        | some type => .ok (.num type val)

/-- The value that is returned, and the lists. -/
def skwMibParser (a : MibAlloc) (mib : CfgMib) (key value : Str) : ℤ × CfgMib :=
  match strchr (ch '@') key with
  | none => (-EINVAL, mib)
  | some s =>
    let (id, endp) := simpleStrtol s 0
    if endp ≠ [] then (-EINVAL, mib)
    else
      match mibHead key with
      | none => (-EINVAL, mib)
      | some mode =>
        match mibValue a value with
        | .error err => (err, mib)
        | .ok value =>
          if a.zalloc then
            (0, Function.update mib mode (mib mode ++ [⟨id.setWidth 32, value⟩]))
          else (-ENOMEM, mib)

/-- The low bytes of a long, in the order of memory. -/
def longBytes : ℕ → BitVec 64 → List (BitVec 8)
  | 0, _ => []
  | n + 1, v => v.setWidth 8 :: longBytes n (v >>> 8)

namespace MibType

/-- The bytes of the casts of `skw_config_set_mib`. -/
def size : MibType → ℕ
  | s8 | u8 | bool => 1
  | s16 | u16 => 2
  | s32 | u32 => 4

end MibType

/-- What `skw_config_set_mib` passes on for an entry: the id and the data. -/
def setMib (md : MibData) : BitVec 32 × List (BitVec 8) :=
  match md.value with
  | .num type val => (md.id, longBytes type.size val)
  | .string s => (md.id, s ++ [0])

def skwConfigSetMib (head : List MibData) : List (BitVec 32 × List (BitVec 8)) := head.map setMib

namespace MibType

def text : MibType → Str
  | s8 => str "s8"
  | u8 => str "u8"
  | s16 => str "s16"
  | u16 => str "u16"
  | s32 => str "s32"
  | u32 => str "u32"
  | bool => str "bool"

def signed : MibType → Bool
  | s8 | s16 | s32 => true
  | u8 | u16 | u32 | bool => false

/-- The numbers of a type. -/
def lo : MibType → ℤ
  | s8 => -2 ^ 7
  | s16 => -2 ^ 15
  | s32 => -2 ^ 31
  | u8 | u16 | u32 | bool => 0

def hi : MibType → ℤ
  | s8 => 2 ^ 7 - 1
  | s16 => 2 ^ 15 - 1
  | s32 => 2 ^ 31 - 1
  | u8 => 2 ^ 8 - 1
  | u16 => 2 ^ 16 - 1
  | u32 => 2 ^ 32 - 1
  | bool => 1

def Represents (t : MibType) (n : ℤ) : Prop := t.lo ≤ n ∧ n ≤ t.hi

instance (t : MibType) (n : ℤ) : Decidable (t.Represents n) := inferInstanceAs (Decidable (_ ∧ _))

/-- The number that bytes mean in a type. -/
def decode (t : MibType) (bytes : List (BitVec 8)) : ℤ :=
  let n : ℕ := Nat.ofDigits 256 (bytes.map BitVec.toNat)
  if t.signed then (n : ℤ).bmod (256 ^ bytes.length) else n

/-- How far the range that the parser checks lies above that of the type. -/
def shift (t : MibType) : ℤ := if t.signed then 1 else 0

/-- The longs that the parser lets pass. -/
def Accepts (t : MibType) (val : ℤ) : Prop := t.lo + t.shift ≤ val ∧ val ≤ t.hi + t.shift

instance (t : MibType) (val : ℤ) : Decidable (t.Accepts val) := inferInstanceAs (Decidable (_ ∧ _))

/-- The number is the least of a signed type or the one above its greatest, or it is no long and
wraps to a long that the parser lets pass. -/
def Misread (t : MibType) (n : ℤ) : Prop :=
  t.signed = true ∧ (n = t.lo ∨ n = t.hi + 1) ∨
    ¬ (-2 ^ 63 ≤ n ∧ n < 2 ^ 63) ∧ t.Accepts (n.bmod (2 ^ 64))

/-- The checks of the parser are those of the types, moved up by one where the type is signed. -/
theorem mibType_text (t : MibType) (val : ℤ) :
    mibType t.text val = if t.Accepts val then some t else none := by
  have hbool : val = 0 ∨ val = 1 ↔ 0 ≤ val ∧ val ≤ 1 := by omega
  cases t with
  | s8 =>
    rw [mibType, if_pos (by rfl)]
    exact if_congr Iff.rfl rfl rfl
  | s16 =>
    rw [mibType, if_neg (by decide), if_pos (by rfl)]
    exact if_congr Iff.rfl rfl rfl
  | s32 =>
    rw [mibType, if_neg (by decide), if_neg (by decide), if_pos (by rfl)]
    exact if_congr Iff.rfl rfl rfl
  | u8 =>
    rw [mibType, if_neg (by decide), if_neg (by decide), if_neg (by decide), if_pos (by rfl)]
    exact if_congr Iff.rfl rfl rfl
  | u16 =>
    rw [mibType, if_neg (by decide), if_neg (by decide), if_neg (by decide),
      if_neg (by decide), if_pos (by rfl)]
    exact if_congr Iff.rfl rfl rfl
  | u32 =>
    rw [mibType, if_neg (by decide), if_neg (by decide), if_neg (by decide),
      if_neg (by decide), if_neg (by decide), if_pos (by rfl)]
    exact if_congr Iff.rfl rfl rfl
  | bool =>
    rw [mibType, if_neg (by decide), if_neg (by decide), if_neg (by decide),
      if_neg (by decide), if_neg (by decide), if_neg (by decide), if_pos (by rfl)]
    exact if_congr hbool rfl rfl

/-- The parser accepts the numbers of a type, and no others, but for those that it misreads. -/
theorem accepts_bmod_iff (t : MibType) (n : ℤ) :
    (t.Accepts (n.bmod (2 ^ 64)) ↔ t.Represents n) ↔ ¬ t.Misread n := by
  have hlo : -2 ^ 31 ≤ t.lo ∧ t.lo + t.shift ≤ t.hi ∧ t.hi < 2 ^ 32 := by cases t <;> decide
  have hs : t.signed = true ∧ t.shift = 1 ∨ ¬ t.signed = true ∧ t.shift = 0 := by
    cases t <;> decide
  by_cases hl : -2 ^ 63 ≤ n ∧ n < 2 ^ 63
  · have hn : n.bmod (2 ^ 64) = n := Int.bmod_eq_of_le (by omega) (by omega)
    have hm : t.Misread n ↔ t.signed = true ∧ (n = t.lo ∨ n = t.hi + 1) :=
      or_iff_left fun h => h.1 hl
    rw [hn, hm]
    unfold Accepts Represents
    rcases hs with ⟨hs, hshift⟩ | ⟨hs, hshift⟩
    · rw [and_iff_right hs, hshift]
      omega
    · rw [hshift, add_zero, add_zero]
      exact iff_of_true Iff.rfl fun h => hs h.1
  · have hr : ¬ t.Represents n := by
      unfold Represents
      omega
    have hm : t.Misread n ↔ t.Accepts (n.bmod (2 ^ 64)) := by
      unfold Misread
      refine ⟨fun h => ?_, fun h => Or.inr ⟨hl, h⟩⟩
      rcases h with ⟨-, h⟩ | h
      · exfalso
        omega
      · exact h.2
    rw [hm, iff_false_right hr]

theorem toNat_longBytes (n : ℕ) (v : BitVec 64) :
    Nat.ofDigits 256 ((longBytes n v).map BitVec.toNat) = v.toNat % 256 ^ n := by
  induction n generalizing v with
  | zero => simp [longBytes, Nat.mod_one]
  | succ n ih =>
    rw [longBytes, List.map_cons, Nat.ofDigits_cons, ih, BitVec.toNat_setWidth,
      BitVec.toNat_ushiftRight, Nat.shiftRight_eq_div_pow, pow_succ' 256 n, Nat.mod_mul]

theorem length_longBytes (n : ℕ) (v : BitVec 64) : (longBytes n v).length = n := by
  induction n generalizing v with
  | zero => rfl
  | succ n ih => rw [longBytes, List.length_cons, ih]

/-- The low bytes of a number of the type mean the number. -/
theorem decode_longBytes {t : MibType} {n : ℤ} (h : t.Represents n) :
    t.decode (longBytes t.size (BitVec.ofInt 64 n)) = n := by
  have hv : ((BitVec.ofInt 64 n).toNat : ℤ) = n % 2 ^ 64 := by
    rw [BitVec.toNat_ofInt]
    omega
  have hd : ((256 ^ t.size : ℕ) : ℤ) ∣ 2 ^ 64 := by cases t <;> decide
  have hb : t.signed = true ∧ -(((256 ^ t.size : ℕ) : ℤ) / 2) ≤ t.lo ∧
      t.hi < (((256 ^ t.size : ℕ) : ℤ) + 1) / 2 ∨
      ¬ t.signed = true ∧ 0 ≤ t.lo ∧ t.hi < ((256 ^ t.size : ℕ) : ℤ) := by
    cases t <;> decide
  unfold decode
  dsimp only
  rw [toNat_longBytes, length_longBytes, Int.natCast_mod, hv, Int.emod_emod_of_dvd n hd]
  rcases hb with ⟨hs, hlo, hhi⟩ | ⟨hs, hlo, hhi⟩
  · rw [if_pos hs, Int.emod_bmod]
    exact Int.bmod_eq_of_le (hlo.trans h.1) (h.2.trans_lt hhi)
  · rw [if_neg hs]
    exact Int.emod_eq_of_lt (hlo.trans h.1) (h.2.trans_lt hhi)

end MibType

namespace MibMode

def text : MibMode → Str
  | init => str "init"
  | sta => str "sta"
  | sap => str "sap"
  | gc => str "gc"
  | go => str "go"

theorem mibHead_text (m : MibMode) (s : Str) : mibHead (m.text ++ ch '@' :: s) = some m := by
  cases m <;> rfl

theorem strchr_text (m : MibMode) (s : Str) : strchr (ch '@') (m.text ++ ch '@' :: s) = some s :=
  strchr_append (by cases m <;> decide) s

end MibMode

/-- A line `<mode>@<id>=<number>/<type>`. -/
structure MibLine where
  mode : MibMode
  idText : Str
  id : ℤ
  isId : Numeral idText id
  numberText : Str
  number : ℤ
  isNumber : Numeral numberText number
  type : MibType

namespace MibLine

def key (l : MibLine) : Str := l.mode.text ++ ch '@' :: l.idText

def value (l : MibLine) : Str := l.numberText ++ ch '/' :: l.type.text

end MibLine

theorem mibValue_line (a : MibAlloc) (l : MibLine) : mibValue a l.value =
    if l.type.Accepts (l.number.bmod (2 ^ 64)) then
      .ok (.num l.type (BitVec.ofInt 64 l.number))
    else .error (-EINVAL) := by
  have hslash : ch '/' ∉ l.type.text := by cases l.type <;> decide
  have hname : l.type.text ≠ str "string" := by cases l.type <;> decide
  have hstop : Stops (ch '/' :: l.type.text) := fun c hc => (Option.some.inj hc).symm
  have hval : simpleStrtol l.value 0 = (BitVec.ofInt 64 l.number, ch '/' :: l.type.text) :=
    simpleStrtol_of_numeral hstop l.isNumber
  have hr : strrchr (ch '/') l.value = some l.type.text := strrchr_append hslash l.numberText
  simp only [mibValue, hr, if_neg hname, hval, List.head?_cons, List.tail_cons, ne_eq,
    not_true_eq_false, if_false, MibType.mibType_text, BitVec.toInt_ofInt]
  split_ifs with h
  · rfl
  · rfl

/-- What the parser does with a line of the section. -/
theorem skwMibParser_line (a : MibAlloc) (mib : CfgMib) (l : MibLine) :
    skwMibParser a mib l.key l.value =
      if l.type.Accepts (l.number.bmod (2 ^ 64)) then
        if a.zalloc then
          (0, Function.update mib l.mode
            (mib l.mode ++ [⟨BitVec.ofInt 32 l.id, .num l.type (BitVec.ofInt 64 l.number)⟩]))
        else (-ENOMEM, mib)
      else (-EINVAL, mib) := by
  have hid : simpleStrtol l.idText 0 = (BitVec.ofInt 64 l.id, []) := by
    have hstop : Stops [] := nofun
    have := simpleStrtol_of_numeral hstop l.isId
    rwa [List.append_nil] at this
  have hw : (BitVec.ofInt 64 l.id).setWidth 32 = BitVec.ofInt 32 l.id := by
    apply BitVec.eq_of_toNat_eq
    rw [BitVec.toNat_setWidth, BitVec.toNat_ofInt, BitVec.toNat_ofInt]
    omega
  have hs : strchr (ch '@') l.key = some l.idText := l.mode.strchr_text _
  have hm : mibHead l.key = some l.mode := l.mode.mibHead_text _
  simp only [skwMibParser, hs, hid, hm, mibValue_line, ne_eq, not_true_eq_false, if_false]
  by_cases hacc : l.type.Accepts (l.number.bmod (2 ^ 64))
  · simp only [if_pos hacc, hw]
  · simp only [if_neg hacc]

end Skw
