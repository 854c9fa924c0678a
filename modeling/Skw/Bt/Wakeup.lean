import Skw.Kernel.Str
import Skw.Lib.Fixed
import Mathlib.Algebra.BigOperators.Group.List.Basic
import Mathlib.Algebra.Group.Nat.Even
import Mathlib.Algebra.Order.BigOperators.Group.List

/-! The advertising patterns that wake the host: `BLE_WAKEUP_ADV_INFO` is read into groups of an
address offset, octets and their mask, and the groups are written to the chip in one command, the
last one of the download of the settings. -/
namespace Skw
open Lib (Fixed)

abbrev BLE_ADV_WAKEUP_GRP_NUMS : ℕ := 3

/-- The arrays of a `Wakeup_ADV_Grp_St` -/
abbrev WAKEUP_ADV_SIZE : ℕ := 32

/-- How many characters stand in front of the first `c` of a line. -/
def skwStrchr (c : BitVec 8) : Str → Option ℕ
  | [] => none
  | a :: s =>
    if a = 0x0D ∨ a = 0x0A then none
    else if a = c then some 0
    else (skwStrchr c s).map (· + 1)

def skwChar2hex (c : BitVec 8) : BitVec 8 :=
  if ch '0' ≤ c ∧ c ≤ ch '9' then c - 48
  else if ch 'a' ≤ c ∧ c ≤ ch 'f' then c + 10 - 97
  else if ch 'A' ≤ c ∧ c ≤ ch 'F' then c + 10 - 65
  else 0

/-- The number in front of a semicolon and the text behind it. The length is an octet. -/
def skwbtConfigGetUint8 (s : Str) : Option (BitVec 8 × Str) :=
  match skwStrchr (ch ';') s with
  | none => none
  | some n =>
    if n = 0 then none
    else
      let len := (BitVec.ofNat 8 n).toNat
      if 4 < len then none
      else some ((simpleStrtol (s.take len) 10).1.setWidth 8, s.drop (n + 1))

structure WakeupAdvGrp where
  grpLen : BitVec 8
  addrOffset : BitVec 8
  data : Fixed (BitVec 8) WAKEUP_ADV_SIZE
  mask : Fixed (BitVec 8) WAKEUP_ADV_SIZE

/-- `grp_nums` groups of `adv_group` are set. -/
structure WakeupAdvInfo where
  gpioNo : BitVec 8
  level : BitVec 8
  dataLen : BitVec 8
  grpNums : BitVec 8
  advGroup : List WakeupAdvGrp

/-- Octet `j` of a text, of the characters at `2 * j` and behind it. -/
def hexPair (s : Str) (j : ℕ) : BitVec 8 :=
  (skwChar2hex (s.getD (2 * j) 0) <<< 4) ||| skwChar2hex (s.getD (2 * j + 1) 0)

/-- The loop over the digits, from octet `j` on. The octets `i` and `j` of the source do not wrap in
front of the end of the arrays. -/
def advOctets (data mask : Str) : ℕ → ℕ → Fixed (BitVec 8) WAKEUP_ADV_SIZE →
    Fixed (BitVec 8) WAKEUP_ADV_SIZE →
    Option (Fixed (BitVec 8) WAKEUP_ADV_SIZE × Fixed (BitVec 8) WAKEUP_ADV_SIZE)
  | 0, _, d, m => some (d, m)
  | n + 1, j, d, m => do
    let d ← d.write j [hexPair data j]
    let m ← m.write j [hexPair mask j]
    advOctets data mask n (j + 1) d m

/-- The loop over the groups with room for `k` of them. It returns `none` in the place of the groups
where the source leaves the function. -/
def advGroups : ℕ → Str → Option (Option (List WakeupAdvGrp))
  | 0, _ => some (some [])
  | k + 1, s =>
    match skwbtConfigGetUint8 s with
    | none => some (some [])
    | some (addrOffset, s) =>
      if addrOffset = 1 ∨ 26 < addrOffset then some none
      else
        match strchr (ch ';') s with
        | none => some none
        | some mask =>
          let advLen := BitVec.ofNat 8 (s.takeWhile (· ≠ ch ';')).length
          let maskLen := BitVec.ofNat 8 (mask.takeWhile (· ≠ ch ';')).length
          if maskLen ≠ advLen then some none
          else do
            let (d, m) ← advOctets s mask ((advLen.toNat + 1) / 2) 0 (.fill _ 0) (.fill _ 0)
            let grp : WakeupAdvGrp := ⟨advLen + 2, addrOffset, d, m⟩
            match strchr (ch ';') mask with
            | none => some (some [grp])
            | some s => (advGroups k s).map fun grps => grps.map (grp :: ·)

/-- `skw_parse_wakeup_adv_conf` on the static `wakeup_adv_info`. Nothing is read of it where
`data_len` is zero. -/
def parseWakeupAdvConf (s : Str) : Option WakeupAdvInfo :=
  let unset : WakeupAdvInfo := ⟨0, 0, 0, 0, []⟩
  if 512 < s.length then some unset
  else
    match skwbtConfigGetUint8 s with
    | none => some unset
    | some (gpioNo, s) =>
      match skwbtConfigGetUint8 s with
      | none => some unset
      | some (level, s) =>
        (advGroups BLE_ADV_WAKEUP_GRP_NUMS s).map fun
          | none => unset
          | some grps =>
            { gpioNo, level
              dataLen := BitVec.ofNat 8 (grps.map (·.grpLen.toNat)).sum
              grpNums := BitVec.ofNat 8 grps.length
              advGroup := grps }

/-- What is written of a group: as many octets as half of its digits, rounded down. -/
def WakeupAdvGrp.stream (grp : WakeupAdvGrp) : Option (List (BitVec 8)) := do
  let advLen := (BitVec.ofInt 8 (((grp.grpLen.toNat : ℤ) - 2) / 2)).toNat
  let data ← grp.data.read 0 advLen
  let mask ← grp.mask.read 0 advLen
  some (grp.grpLen :: grp.addrOffset :: (data ++ mask))

/-- `btseekwave_write_ble_wakeup_adv_info`: the parameters of the command, if there is one. -/
def writeBleWakeupAdvInfo (info : WakeupAdvInfo) : Option (Option (List (BitVec 8))) :=
  if info.dataLen = 0 then some none
  else do
    let grps ← info.advGroup.mapM WakeupAdvGrp.stream
    let pBuf ← (Fixed.fill 256 0).write 0
      (info.gpioNo :: info.level :: info.grpNums :: info.dataLen :: grps.flatten)
    let pld ← pBuf.read 0 (info.dataLen + 4).toNat
    some (some pld)

/-- What goes to the chip for a text, both steps in their memory. -/
def wakeupCommand (s : Str) : Option (Option (List (BitVec 8))) :=
  (parseWakeupAdvConf s).bind writeBleWakeupAdvInfo

/-! What a text of the documented form stands for. -/

/-- A number of a text: one to four characters of a line. -/
structure AdvNumber where
  text : Str
  ne_nil : text ≠ []
  length_le : text.length ≤ 4
  line : ∀ c ∈ text, c ≠ ch ';' ∧ c ≠ 0x0D ∧ c ≠ 0x0A

def AdvNumber.value (n : AdvNumber) : BitVec 8 := (simpleStrtol n.text 10).1.setWidth 8

/-- A group of a text, `addr offset;ADVData;Mask`. -/
structure AdvPattern where
  offset : AdvNumber
  data : Str
  mask : Str
  length_mask : mask.length = data.length
  data_sep : ch ';' ∉ data
  mask_sep : ch ';' ∉ mask

def hexOctets : Str → List (BitVec 8)
  | [] => []
  | [h] => [skwChar2hex h <<< 4]
  | h :: l :: s => ((skwChar2hex h <<< 4) ||| skwChar2hex l) :: hexOctets s

namespace AdvPattern

/-- How many octets the digits of a group make. -/
def octets (p : AdvPattern) : ℕ := (p.data.length + 1) / 2

def bytes (p : AdvPattern) : List (BitVec 8) :=
  BitVec.ofNat 8 (2 + 2 * p.octets) :: p.offset.value :: (hexOctets p.data ++ hexOctets p.mask)

/-- The source takes the address offset of the group. -/
def Taken (p : AdvPattern) : Prop := p.offset.value ≠ 1 ∧ p.offset.value ≤ 26

/-- It has room for the group as well. -/
def Fits (p : AdvPattern) : Prop := p.Taken ∧ p.data.length ≤ 64

/-- Behind groups that fit comes one that is taken and has more digits than there is room for. -/
inductive Overrun : List AdvPattern → Prop
  | head {p : AdvPattern} {ps : List AdvPattern} (ht : p.Taken) (hlen : 64 < p.data.length) :
    Overrun (p :: ps)
  | tail {p : AdvPattern} {ps : List AdvPattern} (hfits : p.Fits) (h : Overrun ps) :
    Overrun (p :: ps)

end AdvPattern

/-- `GPIO_No;Level;` and one to three groups -/
structure AdvText where
  gpioNo : AdvNumber
  level : AdvNumber
  patterns : List AdvPattern
  ne_nil : patterns ≠ []
  length_le : patterns.length ≤ BLE_ADV_WAKEUP_GRP_NUMS

def patternsText : List AdvPattern → Str
  | [] => []
  | [p] => p.offset.text ++ ch ';' :: (p.data ++ ch ';' :: p.mask)
  | p :: q :: ps =>
    p.offset.text ++ ch ';' :: (p.data ++ ch ';' :: (p.mask ++ ch ';' :: patternsText (q :: ps)))

namespace AdvText

def text (t : AdvText) : Str :=
  t.gpioNo.text ++ ch ';' :: (t.level.text ++ ch ';' :: patternsText t.patterns)

/-- Each group in full behind the head of the command. -/
def command (t : AdvText) : List (BitVec 8) :=
  t.gpioNo.value :: t.level.value :: BitVec.ofNat 8 t.patterns.length ::
    BitVec.ofNat 8 (t.patterns.map fun p => 2 + 2 * p.octets).sum ::
    t.patterns.flatMap AdvPattern.bytes

end AdvText
section
variable {s rest : Str}

theorem skwStrchr_append (hs : ∀ c ∈ s, c ≠ ch ';' ∧ c ≠ 0x0D ∧ c ≠ 0x0A) (rest : Str) :
    skwStrchr (ch ';') (s ++ ch ';' :: rest) = some s.length := by
  induction s with
  | nil => rfl
  | cons a s ih =>
    obtain ⟨hsep, hcr, hlf⟩ := hs a List.mem_cons_self
    rw [List.cons_append, skwStrchr, if_neg (not_or.mpr ⟨hcr, hlf⟩), if_neg hsep,
      ih fun c hc => hs c (List.mem_cons_of_mem _ hc)]
    rfl

theorem skwbtConfigGetUint8_number (n : AdvNumber) (rest : Str) :
    skwbtConfigGetUint8 (n.text ++ ch ';' :: rest) = some (n.value, rest) := by
  have hne : n.text.length ≠ 0 := mt List.length_eq_zero_iff.mp n.ne_nil
  have hle : n.text.length ≤ 4 := n.length_le
  have hlen : (BitVec.ofNat 8 n.text.length).toNat = n.text.length := by
    rw [BitVec.toNat_ofNat]
    omega
  have hdrop : (n.text ++ ch ';' :: rest).drop (n.text.length + 1) = rest := by
    rw [List.drop_append, List.drop_of_length_le (by omega), Nat.add_sub_cancel_left]
    rfl
  rw [skwbtConfigGetUint8, skwStrchr_append n.line]
  dsimp only
  rw [if_neg hne, hlen, if_neg (not_lt.mpr hle), List.take_left, hdrop]
  rfl

theorem takeWhile_sep (hs : ch ';' ∉ s) (rest : Str) :
    (s ++ ch ';' :: rest).takeWhile (· ≠ ch ';') = s :=
  Fixed.takeWhile_ne_append hs rest

theorem takeWhile_end (hs : ch ';' ∉ s) : s.takeWhile (· ≠ ch ';') = s := by
  refine List.takeWhile_eq_self_iff.mpr fun c hc => ?_
  exact decide_eq_true fun he => hs (he ▸ hc)

/-- The octets of an even number of digits, whatever is behind them. -/
theorem map_hexPair {m : ℕ} (hs : s.length = 2 * m) (rest : Str) :
    (List.range m).map (hexPair (s ++ rest)) = hexOctets s := by
  induction m generalizing s with
  | zero =>
    rw [List.length_eq_zero_iff.mp hs]
    rfl
  | succ m ih =>
    obtain ⟨h, l, t, rfl⟩ : ∃ h l t, s = h :: l :: t := by
      match s, hs with
      | h :: l :: t, _ => exact ⟨h, l, t, rfl⟩
    have ht : t.length = 2 * m := by
      rw [List.length_cons, List.length_cons] at hs
      omega
    rw [List.range_succ_eq_map, List.map_cons, List.map_map, hexOctets, ← ih ht]
    rfl

theorem length_hexOctets (s : Str) : (hexOctets s).length = (s.length + 1) / 2 := by
  fun_induction hexOctets s with
  | case1 => rfl
  | case2 => simp
  | case3 h l s ih =>
    rw [List.length_cons, ih, List.length_cons, List.length_cons]
    omega

end

section
variable (data mask : Str) {d m : Fixed (BitVec 8) WAKEUP_ADV_SIZE}

/-- The octets from `j` on are put behind those in front of them. -/
theorem advOctets_eq {n j : ℕ} (h : j + n ≤ WAKEUP_ADV_SIZE) :
    ∃ d' m', advOctets data mask n j d m = some (d', m') ∧
      d'.cells.take (j + n) = d.cells.take j ++ (List.range' j n).map (hexPair data) ∧
      m'.cells.take (j + n) = m.cells.take j ++ (List.range' j n).map (hexPair mask) := by
  induction n generalizing j d m with
  | zero => exact ⟨d, m, rfl, (List.append_nil _).symm, (List.append_nil _).symm⟩
  | succ n ih =>
    have hput (a : Fixed (BitVec 8) WAKEUP_ADV_SIZE) (x : BitVec 8) :
        ∃ b, a.write j [x] = some b ∧ b.cells.take (j + 1) = a.cells.take j ++ [x] := by
      obtain ⟨b, hb⟩ := a.exists_write (i := j) (s := [x]) (by
        change j + 1 ≤ _
        omega)
      have hj : (a.cells.take j ++ [x]).length = j + 1 := by
        rw [List.length_append, List.length_take, a.length_cells]
        change min j 32 + 1 = j + 1
        change j + (n + 1) ≤ 32 at h
        omega
      refine ⟨b, hb, ?_⟩
      rw [Fixed.cells_of_write hb, ← hj, List.take_left]
    obtain ⟨d₁, hd₁, hdata⟩ := hput d (hexPair data j)
    obtain ⟨m₁, hm₁, hmask⟩ := hput m (hexPair mask j)
    obtain ⟨d', m', hrun, hd', hm'⟩ := ih (j := j + 1) (d := d₁) (m := m₁) (by omega)
    refine ⟨d', m', ?_, ?_, ?_⟩
    · rw [advOctets, hd₁, Option.bind_eq_bind, Option.bind_some, hm₁, Option.bind_some, hrun]
    · rw [Nat.add_right_comm j 1 n] at hd'
      rw [← Nat.add_assoc, hd', hdata, List.range'_succ, List.map_cons, List.append_assoc]
      rfl
    · rw [Nat.add_right_comm j 1 n] at hm'
      rw [← Nat.add_assoc, hm', hmask, List.range'_succ, List.map_cons, List.append_assoc]
      rfl

theorem advOctets_eq_none {n j : ℕ} (hj : j ≤ WAKEUP_ADV_SIZE) (h : WAKEUP_ADV_SIZE < j + n) :
    advOctets data mask n j d m = none := by
  induction n generalizing j d m with
  | zero => omega
  | succ n ih =>
    rw [advOctets]
    cases hd : d.write j [hexPair data j] with
    | none => rfl
    | some d₁ =>
      have hj₁ : j + 1 ≤ WAKEUP_ADV_SIZE :=
        Fixed.isSome_write_iff.mp (Option.isSome_of_eq_some hd)
      rw [Option.bind_eq_bind, Option.bind_some]
      cases hm : m.write j [hexPair mask j] with
      | none => rfl
      | some m₁ => exact ih hj₁ (by omega)

end

/-- A group as it is kept. The octets are those of the digits if their number is even. -/
structure AdvPattern.Holds (p : AdvPattern) (grp : WakeupAdvGrp) : Prop where
  grpLen : grp.grpLen = BitVec.ofNat 8 (2 + p.data.length)
  addrOffset : grp.addrOffset = p.offset.value
  data : Even p.data.length → grp.data.cells.take p.octets = hexOctets p.data
  mask : Even p.data.length → grp.mask.cells.take p.octets = hexOctets p.mask

section
variable {p : AdvPattern} {ps : List AdvPattern} {k : ℕ}

/-- The text of a group: `mask` is the text from its mask on, `more` that of the next groups. -/
theorem advGroups_pattern (hlen : p.data.length < 256) {mask : Str} {more : Option Str}
    (hpre : p.mask <+: mask) (hmask : mask.takeWhile (· ≠ ch ';') = p.mask)
    (hmore : strchr (ch ';') mask = more) :
    (p.Fits ∧ ∃ grp, p.Holds grp ∧
      advGroups (k + 1) (p.offset.text ++ ch ';' :: (p.data ++ ch ';' :: mask)) =
        more.elim (some (some [grp])) fun s =>
          (advGroups k s).map fun grps => grps.map (grp :: ·)) ∨
      ((p.Taken ∧ 64 < p.data.length) ∧
        advGroups (k + 1) (p.offset.text ++ ch ';' :: (p.data ++ ch ';' :: mask)) = none) ∨
      ¬p.Taken ∧
        advGroups (k + 1) (p.offset.text ++ ch ';' :: (p.data ++ ch ';' :: mask)) = some none := by
  have hadv : (BitVec.ofNat 8 p.data.length).toNat = p.data.length := by
    rw [BitVec.toNat_ofNat]
    omega
  rw [advGroups, skwbtConfigGetUint8_number]
  dsimp only
  by_cases hoff : p.offset.value = 1 ∨ 26 < p.offset.value
  · rw [if_pos hoff]
    refine Or.inr (Or.inr ⟨fun ht => ?_, rfl⟩)
    exact hoff.elim ht.1 fun h => absurd ht.2 (BitVec.not_le.mpr h)
  · have ht : p.Taken := ⟨fun h => hoff (Or.inl h), BitVec.not_lt.mp fun h => hoff (Or.inr h)⟩
    rw [if_neg hoff, strchr_append p.data_sep]
    dsimp only
    rw [takeWhile_sep p.data_sep, hmask, p.length_mask, if_neg (not_not.mpr rfl), hadv]
    by_cases hroom : p.octets ≤ WAKEUP_ADV_SIZE
    · obtain ⟨d, m, hrun, hd, hm⟩ :=
        advOctets_eq (p.data ++ ch ';' :: mask) mask (d := .fill _ 0) (m := .fill _ 0)
          ((Nat.zero_add p.octets).trans_le hroom)
      rw [Nat.zero_add, List.take_zero, List.nil_append, ← List.range_eq_range'] at hd hm
      have hfits : p.Fits := by
        refine ⟨ht, ?_⟩
        unfold AdvPattern.octets at hroom
        change _ ≤ 32 at hroom
        omega
      have heven (h : Even p.data.length) : p.data.length = 2 * p.octets := by
        obtain ⟨r, hr⟩ := h
        unfold AdvPattern.octets
        omega
      refine Or.inl ⟨hfits, ⟨BitVec.ofNat 8 p.data.length + 2, p.offset.value, d, m⟩, ?_, ?_⟩
      · refine ⟨?_, rfl, fun h => ?_, fun h => ?_⟩
        · rw [BitVec.ofNat_add, BitVec.add_comm]
          rfl
        · rw [hd, map_hexPair (heven h)]
        · obtain ⟨rest, rfl⟩ := hpre
          rw [hm, map_hexPair (p.length_mask.trans (heven h))]
      · change (advOctets _ _ p.octets _ _ _).bind _ = _
        rw [hrun, Option.bind_some, hmore]
        cases more <;> rfl
    · refine Or.inr (Or.inl ⟨⟨ht, ?_⟩, ?_⟩)
      · unfold AdvPattern.octets at hroom
        change ¬_ ≤ 32 at hroom
        omega
      · change (advOctets _ _ p.octets _ _ _).bind _ = _
        rw [advOctets_eq_none _ _ (Nat.zero_le _) (by omega)]
        rfl

theorem AdvPattern.Overrun.exists_not_fits (h : AdvPattern.Overrun ps) : ¬∀ p ∈ ps, p.Fits := by
  induction h with
  | head ht hlen => exact fun h => absurd (h _ List.mem_cons_self).2 (not_le.mpr hlen)
  | tail hfits _ ih => exact fun h => ih fun q hq => h q (List.mem_cons_of_mem _ hq)

/-- All groups are kept, or the reading leaves the arrays, or it ends at an offset. -/
theorem advGroups_patterns (hne : ps ≠ []) (hk : ps.length ≤ k)
    (hlen : ∀ p ∈ ps, p.data.length < 256) :
    ((∀ p ∈ ps, p.Fits) ∧ ∃ grps, advGroups k (patternsText ps) = some (some grps) ∧
      List.Forall₂ AdvPattern.Holds ps grps) ∨
      (AdvPattern.Overrun ps ∧ advGroups k (patternsText ps) = none) ∨
      ((¬∀ p ∈ ps, p.Fits) ∧ ¬AdvPattern.Overrun ps) ∧
        advGroups k (patternsText ps) = some none := by
  induction ps generalizing k with
  | nil => exact absurd rfl hne
  | cons p ps ih =>
    obtain ⟨k, rfl⟩ : ∃ n, k = n + 1 := Nat.exists_eq_succ_of_ne_zero (by
      rw [List.length_cons] at hk
      omega)
    have hp := hlen p List.mem_cons_self
    have hoff (ht : ¬p.Taken) : (¬∀ q ∈ p :: ps, q.Fits) ∧ ¬AdvPattern.Overrun (p :: ps) := by
      refine ⟨fun h => ht (h p List.mem_cons_self).1, ?_⟩
      rintro (⟨htaken, -⟩ | ⟨hfits, -⟩)
      · exact ht htaken
      · exact ht hfits.1
    cases ps with
    | nil =>
      have hpat := advGroups_pattern (k := k) hp List.prefix_rfl (takeWhile_end p.mask_sep)
        (strchr_eq_none p.mask_sep)
      obtain ⟨hfits, grp, hgrp, heq⟩ | ⟨⟨ht, hover⟩, heq⟩ | ⟨ht, heq⟩ := hpat
      · exact Or.inl ⟨List.forall_mem_singleton.mpr hfits, [grp], heq, .cons hgrp .nil⟩
      · exact Or.inr (Or.inl ⟨.head ht hover, heq⟩)
      · exact Or.inr (Or.inr ⟨hoff ht, heq⟩)
    | cons q ps =>
      have hpat := advGroups_pattern (k := k) hp (List.prefix_append ..)
        (takeWhile_sep p.mask_sep (patternsText (q :: ps))) (strchr_append p.mask_sep _)
      obtain ⟨hfits, grp, hgrp, heq⟩ | ⟨⟨ht, hover⟩, heq⟩ | ⟨ht, heq⟩ := hpat
      · rw [patternsText, heq, Option.elim_some]
        obtain ⟨hall, grps, hgrps, hholds⟩ | ⟨hover, hend⟩ | ⟨⟨hbad, hin⟩, hend⟩ :=
          ih (List.cons_ne_nil q ps) (Nat.le_of_succ_le_succ hk)
            fun r hr => hlen r (List.mem_cons_of_mem p hr)
        · rw [hgrps]
          exact Or.inl ⟨List.forall_mem_cons.mpr ⟨hfits, hall⟩, _, rfl, .cons hgrp hholds⟩
        · rw [hend]
          exact Or.inr (Or.inl ⟨.tail hfits hover, rfl⟩)
        · rw [hend]
          refine Or.inr (Or.inr ⟨⟨fun h => hbad (List.forall_mem_cons.mp h).2, ?_⟩, rfl⟩)
          rintro (⟨-, hlong⟩ | ⟨-, hover⟩)
          · exact absurd hfits.2 (not_le.mpr hlong)
          · exact hin hover
      · exact Or.inr (Or.inl ⟨.head ht hover, heq⟩)
      · exact Or.inr (Or.inr ⟨hoff ht, heq⟩)

end

section
variable {p : AdvPattern} {ps : List AdvPattern} {grp : WakeupAdvGrp} {grps : List WakeupAdvGrp}

theorem AdvPattern.Holds.toNat_grpLen (h : p.Holds grp) (hfits : p.Fits) :
    grp.grpLen.toNat = 2 + p.data.length := by
  have hle : p.data.length ≤ 64 := hfits.2
  rw [h.grpLen, BitVec.toNat_ofNat]
  omega

/-- What is written of a group lacks the last digits of an odd number of them. -/
theorem AdvPattern.Holds.exists_stream (h : p.Holds grp) (hfits : p.Fits) :
    ∃ l, grp.stream = some l ∧ l.length = 2 + 2 * (p.data.length / 2) ∧
      (Even p.data.length → l = p.bytes) := by
  have hle : p.data.length ≤ 64 := hfits.2
  have hadv : (BitVec.ofInt 8 (((grp.grpLen.toNat : ℤ) - 2) / 2)).toNat = p.data.length / 2 := by
    rw [h.toNat_grpLen hfits, BitVec.toNat_ofInt]
    omega
  have hread (b : Fixed (BitVec 8) WAKEUP_ADV_SIZE) :
      b.read 0 (p.data.length / 2) = some (b.cells.take (p.data.length / 2)) :=
    b.read_of_le (by
      change 0 + p.data.length / 2 ≤ 32
      omega)
  have hlen (b : Fixed (BitVec 8) WAKEUP_ADV_SIZE) :
      (b.cells.take (p.data.length / 2)).length = p.data.length / 2 := by
    rw [List.length_take, b.length_cells]
    change min _ 32 = _
    omega
  refine ⟨grp.grpLen :: grp.addrOffset :: (grp.data.cells.take (p.data.length / 2) ++
    grp.mask.cells.take (p.data.length / 2)), ?_, ?_, fun heven => ?_⟩
  · rw [WakeupAdvGrp.stream, hadv, hread, Option.bind_eq_bind, Option.bind_some, hread,
      Option.bind_some]
  · rw [List.length_cons, List.length_cons, List.length_append, hlen, hlen]
    omega
  · have hoctets : p.data.length / 2 = p.octets := by
      obtain ⟨r, hr⟩ := heven
      unfold AdvPattern.octets
      omega
    have htwo : 2 + p.data.length = 2 + 2 * p.octets := by
      obtain ⟨r, hr⟩ := heven
      unfold AdvPattern.octets
      omega
    rw [hoctets, h.data heven, h.mask heven, h.grpLen, h.addrOffset, htwo, AdvPattern.bytes]

theorem exists_streams (h : List.Forall₂ AdvPattern.Holds ps grps) (hfits : ∀ p ∈ ps, p.Fits) :
    ∃ ls, grps.mapM WakeupAdvGrp.stream = some ls ∧
      ls.flatten.length = (ps.map fun p => 2 + 2 * (p.data.length / 2)).sum ∧
      ((∀ p ∈ ps, Even p.data.length) → ls.flatten = ps.flatMap AdvPattern.bytes) := by
  induction h with
  | nil => exact ⟨[], rfl, rfl, fun _ => rfl⟩
  | @cons p grp ps grps hp _ ih =>
    obtain ⟨l, hl, hlen, hbytes⟩ := hp.exists_stream (hfits p List.mem_cons_self)
    obtain ⟨ls, hls, hlens, hflat⟩ := ih fun q hq => hfits q (List.mem_cons_of_mem p hq)
    refine ⟨l :: ls, ?_, ?_, fun heven => ?_⟩
    · rw [List.mapM_cons, hl, Option.bind_eq_bind, Option.bind_some, hls]
      rfl
    · rw [List.flatten_cons, List.length_append, hlen, hlens, List.map_cons, List.sum_cons]
    · rw [List.flatten_cons, List.flatMap_cons, hbytes (heven p List.mem_cons_self),
        hflat fun q hq => heven q (List.mem_cons_of_mem p hq)]

theorem sum_grpLen (h : List.Forall₂ AdvPattern.Holds ps grps) (hfits : ∀ p ∈ ps, p.Fits) :
    (grps.map (·.grpLen.toNat)).sum = (ps.map fun p => 2 + p.data.length).sum := by
  induction h with
  | nil => rfl
  | @cons p grp ps grps hp _ ih =>
    rw [List.map_cons, List.sum_cons, hp.toNat_grpLen (hfits p List.mem_cons_self),
      ih fun q hq => hfits q (List.mem_cons_of_mem p hq), List.map_cons, List.sum_cons]

theorem sum_length_le (hfits : ∀ p ∈ ps, p.Fits) :
    (ps.map fun p => 2 + p.data.length).sum ≤ 66 * ps.length ∧
      2 * ps.length ≤ (ps.map fun p => 2 + p.data.length).sum := by
  induction ps with
  | nil => exact ⟨le_refl 0, le_refl 0⟩
  | cons p ps ih =>
    have hle : p.data.length ≤ 64 := (hfits p List.mem_cons_self).2
    have hps := ih fun q hq => hfits q (List.mem_cons_of_mem p hq)
    rw [List.map_cons, List.sum_cons, List.length_cons]
    omega

theorem length_bytes (p : AdvPattern) : p.bytes.length = 2 + 2 * p.octets := by
  rw [AdvPattern.bytes, List.length_cons, List.length_cons, List.length_append, length_hexOctets,
    length_hexOctets, p.length_mask, AdvPattern.octets]
  omega

/-- The lengths that the source states are those of the groups in full exactly if no group has an
odd number of digits. -/
theorem sum_length_iff (ps : List AdvPattern) :
    (ps.map fun p => 2 + p.data.length).sum ≤ (ps.flatMap AdvPattern.bytes).length ∧
      ((ps.map fun p => 2 + p.data.length).sum = (ps.flatMap AdvPattern.bytes).length ↔
        ∀ p ∈ ps, Even p.data.length) := by
  induction ps with
  | nil => exact ⟨le_refl 0, iff_of_true rfl (List.forall_mem_nil _)⟩
  | cons p ps ih =>
    obtain ⟨hle, hiff⟩ := ih
    have hp : p.octets = (p.data.length + 1) / 2 := rfl
    rw [List.map_cons, List.sum_cons, List.flatMap_cons, List.length_append, length_bytes,
      List.forall_mem_cons, ← hiff, Nat.even_iff]
    omega

theorem sum_octets (h : ∀ p ∈ ps, Even p.data.length) :
    (ps.map fun p => 2 + 2 * p.octets).sum = (ps.map fun p => 2 + p.data.length).sum := by
  refine congrArg List.sum (List.map_congr_left fun p hp => ?_)
  obtain ⟨r, hr⟩ := h p hp
  unfold AdvPattern.octets
  omega

theorem length_data_le (hp : p ∈ ps) : 2 * p.data.length < (patternsText ps).length := by
  fun_induction patternsText ps with
  | case1 => cases hp
  | case2 q =>
    rw [List.mem_singleton.mp hp]
    simp only [List.length_append, List.length_cons, q.length_mask]
    omega
  | case3 q r ps ih =>
    simp only [List.length_append, List.length_cons, q.length_mask]
    rcases List.mem_cons.mp hp with rfl | hp
    · omega
    · have := ih hp
      omega

end

/-- What is sent has the stated length, and is the head and the groups if these have it. -/
theorem exists_pld {info : WakeupAdvInfo} {ls : List (List (BitVec 8))} {total : ℕ}
    (hls : info.advGroup.mapM WakeupAdvGrp.stream = some ls)
    (hdata : info.dataLen = BitVec.ofNat 8 total) (hpos : 0 < total) (hmax : total ≤ 198)
    (hle : ls.flatten.length ≤ total) :
    ∃ pld, writeBleWakeupAdvInfo info = some (some pld) ∧ pld.length = 4 + total ∧
      (ls.flatten.length = total →
        pld = info.gpioNo :: info.level :: info.grpNums :: info.dataLen :: ls.flatten) := by
  have hne : info.dataLen ≠ 0 := by
    rw [hdata, Ne, ← BitVec.toNat_inj, BitVec.toNat_ofNat]
    change total % 256 ≠ 0
    omega
  have hpld : (info.dataLen + 4).toNat = total + 4 := by
    rw [hdata, BitVec.toNat_add, BitVec.toNat_ofNat]
    change (total % 256 + 4) % 256 = total + 4
    omega
  have hroom : (info.gpioNo :: info.level :: info.grpNums :: info.dataLen ::
      ls.flatten).length ≤ 256 := by
    simp only [List.length_cons]
    omega
  obtain ⟨pBuf, hpBuf, hcells⟩ := (Fixed.fill 256 0).write_zero hroom
  have hread := pBuf.read_of_le (show 0 + (total + 4) ≤ 256 by omega)
  refine ⟨_, ?_, (Fixed.length_of_read hread).trans (Nat.add_comm ..), fun hlen => ?_⟩
  · rw [writeBleWakeupAdvInfo, if_neg hne, hls, Option.bind_eq_bind, Option.bind_some, hpBuf,
      Option.bind_eq_bind, Option.bind_some, hpld, hread]
    rfl
  · rw [List.drop_zero, hcells, List.take_append_of_le_length (by simp [hlen]),
      List.take_of_length_le (by simp [hlen])]

namespace AdvText
variable {t : AdvText}

/-- What is read of the groups of a text, the two numbers put in front. -/
def info (t : AdvText) (grps : List WakeupAdvGrp) : WakeupAdvInfo where
  gpioNo := t.gpioNo.value
  level := t.level.value
  dataLen := BitVec.ofNat 8 (grps.map (·.grpLen.toNat)).sum
  grpNums := BitVec.ofNat 8 grps.length
  advGroup := grps

theorem wakeupCommand_text (h : t.text.length ≤ 512) : wakeupCommand t.text =
    (advGroups BLE_ADV_WAKEUP_GRP_NUMS (patternsText t.patterns)).bind fun grps =>
      grps.elim (some none) fun grps => writeBleWakeupAdvInfo (t.info grps) := by
  rw [wakeupCommand, parseWakeupAdvConf, if_neg (not_lt.mpr h), text, skwbtConfigGetUint8_number]
  dsimp only
  rw [skwbtConfigGetUint8_number]
  dsimp only
  cases advGroups BLE_ADV_WAKEUP_GRP_NUMS (patternsText t.patterns) with
  | none => rfl
  | some grps => cases grps <;> rfl

theorem groups_of_text (h : t.text.length ≤ 512) :
    ((∀ p ∈ t.patterns, p.Fits) ∧ ∃ grps,
      wakeupCommand t.text = writeBleWakeupAdvInfo (t.info grps) ∧
        List.Forall₂ AdvPattern.Holds t.patterns grps) ∨
      (AdvPattern.Overrun t.patterns ∧ wakeupCommand t.text = none) ∨
      ((¬∀ p ∈ t.patterns, p.Fits) ∧ ¬AdvPattern.Overrun t.patterns) ∧
        wakeupCommand t.text = some none := by
  have hlen (p : AdvPattern) (hp : p ∈ t.patterns) : p.data.length < 256 := by
    have hp := length_data_le hp
    simp only [text, List.length_append, List.length_cons] at h
    omega
  rw [wakeupCommand_text h]
  obtain ⟨hfits, grps, hgrps, hholds⟩ | ⟨hover, hend⟩ | ⟨hbad, hend⟩ :=
    advGroups_patterns t.ne_nil t.length_le hlen
  · rw [hgrps]
    exact Or.inl ⟨hfits, grps, rfl, hholds⟩
  · rw [hend]
    exact Or.inr (Or.inl ⟨hover, rfl⟩)
  · rw [hend]
    exact Or.inr (Or.inr ⟨hbad, rfl⟩)

/-- Nothing is read of a text that is too long. -/
theorem wakeupCommand_long (h : ¬t.text.length ≤ 512) : wakeupCommand t.text = some none := by
  rw [wakeupCommand, parseWakeupAdvConf, if_pos (not_le.mp h)]
  rfl

theorem exists_command (hfits : ∀ p ∈ t.patterns, p.Fits) {grps : List WakeupAdvGrp}
    (hholds : List.Forall₂ AdvPattern.Holds t.patterns grps) :
    ∃ pld, writeBleWakeupAdvInfo (t.info grps) = some (some pld) ∧
      pld.length = 4 + (t.patterns.map fun p => 2 + p.data.length).sum ∧
      ((∀ p ∈ t.patterns, Even p.data.length) → pld = t.command) := by
  obtain ⟨hmax, hmin⟩ := sum_length_le hfits
  have hpos : t.patterns.length ≠ 0 := mt List.length_eq_zero_iff.mp t.ne_nil
  have hnum : t.patterns.length ≤ 3 := t.length_le
  obtain ⟨ls, hls, hlens, hflat⟩ := exists_streams hholds hfits
  have hdata : (t.info grps).dataLen =
      BitVec.ofNat 8 (t.patterns.map fun p => 2 + p.data.length).sum :=
    congrArg (BitVec.ofNat 8) (sum_grpLen hholds hfits)
  have hshort : ls.flatten.length ≤ (t.patterns.map fun p => 2 + p.data.length).sum := by
    rw [hlens]
    refine List.sum_le_sum fun p _ => ?_
    omega
  obtain ⟨pld, hpld, hsize, heq⟩ := exists_pld hls hdata (by omega) (by omega) hshort
  refine ⟨pld, hpld, hsize, fun heven => ?_⟩
  have hcount : grps.length = t.patterns.length := hholds.length_eq.symm
  have hfull : ls.flatten.length = (t.patterns.map fun p => 2 + p.data.length).sum := by
    rw [hflat heven, (sum_length_iff _).2.mpr heven]
  rw [heq hfull, hdata, hflat heven, command, sum_octets heven, ← hcount]
  rfl

end AdvText

/-- A text of the documented form goes to the chip with all its groups exactly if it is short enough,
each offset is taken, no group has more digits than its arrays have room for, and no number of digits
is odd: the length of a group counts a digit that is not written, and those behind it move. -/
theorem wakeupCommand_eq_iff (t : AdvText) : wakeupCommand t.text = some (some t.command) ↔
    t.text.length ≤ 512 ∧ ∀ p ∈ t.patterns, p.Fits ∧ Even p.data.length := by
  by_cases hlen : t.text.length ≤ 512
  · obtain ⟨hfits, grps, hgrps, hholds⟩ | ⟨hover, hend⟩ | ⟨⟨hbad, -⟩, hend⟩ :=
      AdvText.groups_of_text hlen
    · obtain ⟨pld, hpld, hsize, heq⟩ := AdvText.exists_command hfits hholds
      rw [hgrps, hpld, Option.some_inj, Option.some_inj, and_iff_right hlen]
      constructor
      · rintro rfl p hp
        refine ⟨hfits p hp, ((sum_length_iff _).2.mp ?_) p hp⟩
        simp only [AdvText.command, List.length_cons] at hsize
        omega
      · exact fun h => heq fun p hp => (h p hp).2
    · rw [hend]
      exact iff_of_false nofun fun h => hover.exists_not_fits fun p hp => (h.2 p hp).1
    · rw [hend]
      exact iff_of_false nofun fun h => hbad fun p hp => (h.2 p hp).1
  · rw [AdvText.wakeupCommand_long hlen]
    exact iff_of_false nofun fun h => hlen h.1

/-- The third digits go to the length only, and an octet that nothing was written to is sent. -/
example : wakeupCommand (str "19;1;0;020;00F") = some (some [19, 1, 1, 5, 5, 0, 2, 0, 0]) := by
  decide +kernel

/-- The reading leaves the arrays of a group exactly at the first group that does not fit, if its
offset is taken: the arrays have no part in the checks. What is read is written in its memory. -/
theorem wakeupCommand_eq_none_iff (t : AdvText) :
    wakeupCommand t.text = none ↔ t.text.length ≤ 512 ∧ AdvPattern.Overrun t.patterns := by
  by_cases hlen : t.text.length ≤ 512
  · obtain ⟨hfits, grps, hgrps, hholds⟩ | ⟨hover, hend⟩ | ⟨⟨-, hin⟩, hend⟩ :=
      AdvText.groups_of_text hlen
    · obtain ⟨pld, hpld, -⟩ := AdvText.exists_command hfits hholds
      rw [hgrps, hpld]
      exact iff_of_false nofun fun h => h.2.exists_not_fits hfits
    · exact iff_of_true hend ⟨hlen, hover⟩
    · rw [hend]
      exact iff_of_false nofun fun h => hin h.2
  · rw [AdvText.wakeupCommand_long hlen]
    exact iff_of_false nofun fun h => hlen h.1

end Skw
