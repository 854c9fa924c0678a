import Skw.Kernel.Types
import Skw.Lib.Extent
import Skw.Lib.Fixed
import Mathlib.Data.BitVec

/-! `skw_wow_enable` makes a rule of each pattern that is to wake the host: the runs of masked
octets become blocks with a header each, in 64 octets. -/
namespace Skw

abbrev wowRuleSize : ℕ := 64

/-- The size of a `struct skw_pkt_pattern`. -/
abbrev pktPatternSize : ℕ := 5

/-- `struct cfg80211_pkt_pattern`; `pattern` is as long as `pattern_len` says. -/
structure WowPattern where
  pktOffset : ℕ
  pattern : List (BitVec 8)
  mask : List (BitVec 8)
deriving DecidableEq

abbrev RuleBuf := Lib.Fixed (BitVec 8) wowRuleSize

structure WowRule where
  rule : RuleBuf
  len : ℕ

/-- The variables of the loop over a pattern. `ptn` is the place of the header it points to. -/
structure RuleLoop where
  rule : RuleBuf
  vi : ℕ
  ptn : ℕ
  start : Bool
  gap : ℕ

/-- A `struct skw_pkt_pattern` with `PAT_OP_TYPE_SAME` and `PAT_TYPE_ETH`. -/
def pktPattern (offset : BitVec 16) (len : BitVec 8) : List (BitVec 8) :=
  [0, 0, offset.setWidth 8, (offset >>> 8).setWidth 8, len]

/-- `patterns[i].mask[y] & BIT(b)`. -/
def WowPattern.maskBit (p : WowPattern) (j : ℕ) : Bool :=
  let y := roundUp (j + 1) 8 / 8 - 1
  let b := j % 8
  (p.mask.getD y 0).getLsbD b

namespace RuleLoop

/-- A header at `vi`. -/
def openBlock (s : RuleLoop) (pktOffset : ℕ) : Option RuleLoop :=
  (s.rule.write s.vi (pktPattern (BitVec.ofNat 16 pktOffset + BitVec.ofNat 16 s.gap) 0)).map
    fun rule => { s with rule, ptn := s.vi, vi := s.vi + pktPatternSize }

/-- An octet at `vi`, which the header counts. -/
def putByte (s : RuleLoop) (c : BitVec 8) : Option RuleLoop :=
  (s.rule.write s.vi [c]).bind fun rule =>
  (rule.read (s.ptn + 4) 1).bind fun len =>
  (rule.write (s.ptn + 4) [len.headD 0 + 1]).map fun rule =>
    { s with rule, vi := s.vi + 1, start := true, gap := s.gap + 1 }

end RuleLoop

/-- The loop over a pattern from the octet `j` on; without a value if it writes outside of the rule.
Both warnings of an overage end the loop. -/
def ruleLoop (p : WowPattern) : List (BitVec 8) → ℕ → RuleLoop → Option RuleLoop
  | [], _, s => some s
  | c :: cs, j, s =>
    if p.maskBit j then
      if s.start = false ∧ wowRuleSize ≤ s.vi + pktPatternSize then some s
      else
        (if s.start then some s else s.openBlock p.pktOffset).bind fun s =>
        (s.putByte c).bind fun s =>
          if wowRuleSize ≤ s.vi then some s else ruleLoop p cs (j + 1) s
    else ruleLoop p cs (j + 1) { s with gap := s.gap + 1, start := false }

/-- The rule of a pattern, in memory that is zero. -/
def wowRule (p : WowPattern) : Option WowRule :=
  (ruleLoop p p.pattern 0 ⟨.fill wowRuleSize 0, 0, 0, false, 0⟩).map fun s => ⟨s.rule, s.vi⟩

/-- `wiphy->wowlan_config`. -/
structure WowConfig where
  any : Bool
  disconnect : Bool
  magicPkt : Bool
  gtkRekeyFailure : Bool
  eapIdentityReq : Bool
  fourWayHandshake : Bool
  rfkillRelease : Bool
  patterns : List WowPattern

/-- The command `ACTION_EN_WOW`. -/
structure WowCmd where
  len : ℕ
  wowFlags : BitVec 32
  rules : List WowRule

def WowConfig.flags (w : WowConfig) : BitVec 32 :=
  (if w.disconnect then 1 else 0) ||| (if w.magicPkt then 2 else 0) |||
    (if w.gtkRekeyFailure then 4 else 0) ||| (if w.eapIdentityReq then 8 else 0) |||
    (if w.fourWayHandshake then 16 else 0) ||| (if w.rfkillRelease then 32 else 0)

/-- The return value and the command that is sent; without a value if a rule is written outside.
`rule_num` is an octet. -/
def wowEnable (w : WowConfig) (alloc : Bool) (ret : ℤ) : Option (ℤ × Option WowCmd) :=
  if alloc = false then some (- ENOMEM, none)
  else if w.any then some (ret, some ⟨5, 0xff, []⟩)
  else
    let ruleNum := w.patterns.length % 2 ^ 8
    ((w.patterns.take ruleNum).mapM wowRule).map fun rules =>
      (ret, some ⟨5 + 66 * ruleNum, w.flags, rules⟩)

abbrev WowBlock := Lib.Extent (BitVec 8)

def WowBlock.bytes (b : WowBlock) : List (BitVec 8) :=
  pktPattern (BitVec.ofNat 16 b.offset) (BitVec.ofNat 8 b.data.length) ++ b.data

/-- The octets of some blocks. -/
def blockBytes (bs : List WowBlock) : List (BitVec 8) := bs.flatMap WowBlock.bytes

/-- The size of some blocks. -/
abbrev blockSize (bs : List WowBlock) : ℕ := Lib.extentSize pktPatternSize bs

/-- The first blocks of a rule, and the one that is open. -/
structure RuleLoop.Built (s : RuleLoop) (bs : List WowBlock) (cur : Option WowBlock) : Prop where
  cells : ∃ junk, s.rule.cells = blockBytes (bs ++ cur.toList) ++ junk
  vi : s.vi = blockSize (bs ++ cur.toList)
  ptn : ∀ b ∈ cur, s.ptn = blockSize bs

section
variable {s : RuleLoop} {p : WowPattern} {bs : List WowBlock} {cur : Option WowBlock} {b : WowBlock}
  {c : BitVec 8}

theorem WowBlock.length_bytes (b : WowBlock) :
    (WowBlock.bytes b).length = pktPatternSize + b.data.length := by
  simp only [WowBlock.bytes, pktPattern, List.length_append, List.length_cons, List.length_nil]

@[simp] theorem length_blockBytes (bs : List WowBlock) :
    (blockBytes bs).length = blockSize bs := by
  induction bs with
  | nil => rfl
  | cons b bs ih =>
    rw [blockBytes, List.flatMap_cons, List.length_append]
    change _ + (blockBytes bs).length = _
    rw [ih, WowBlock.length_bytes]
    exact (Lib.extentSize_cons ..).symm

@[simp] theorem blockBytes_append (bs cs : List WowBlock) :
    blockBytes (bs ++ cs) = blockBytes bs ++ blockBytes cs := List.flatMap_append

@[simp] theorem blockBytes_singleton (b : WowBlock) : blockBytes [b] = b.bytes :=
  List.flatMap_singleton ..

/-- A new block is empty. -/
theorem RuleLoop.Built.openBlock (h : s.Built bs none)
    (hroom : s.vi + pktPatternSize < wowRuleSize) :
    ∃ t, s.openBlock p.pktOffset = some t ∧ t.Built bs (some ⟨p.pktOffset + s.gap, []⟩) ∧
      t.vi = s.vi + pktPatternSize ∧ t.gap = s.gap := by
  obtain ⟨junk, hcells⟩ := h.cells
  have hvi := h.vi
  simp only [Option.toList_none, List.append_nil] at hcells hvi
  have hlen : pktPatternSize ≤ junk.length := by
    have hsize := s.rule.length_cells
    rw [hcells, List.length_append, length_blockBytes] at hsize
    simp only [pktPatternSize, wowRuleSize] at *
    omega
  have hsplit : s.rule.cells =
      blockBytes bs ++ junk.take pktPatternSize ++ junk.drop pktPatternSize := by
    rw [hcells, List.append_assoc, List.take_append_drop]
  obtain ⟨r, hr, hrcells⟩ := Lib.Fixed.write_of_cells
    (v := pktPattern (BitVec.ofNat 16 p.pktOffset + BitVec.ofNat 16 s.gap) 0) hsplit
    (by simp [pktPattern, hlen])
  rw [length_blockBytes, ← hvi] at hr
  let t : RuleLoop := { s with rule := r, ptn := s.vi, vi := s.vi + pktPatternSize }
  refine ⟨t, by rw [RuleLoop.openBlock, hr]; rfl, ⟨⟨junk.drop pktPatternSize, ?_⟩, ?_, ?_⟩, rfl,
    rfl⟩
  · rw [hrcells, Option.toList_some, blockBytes_append, blockBytes_singleton, WowBlock.bytes,
      List.append_nil, BitVec.ofNat_add]
    rfl
  · simp [t, hvi]
  · intro b _
    exact hvi

/-- An octet goes to the open block. -/
theorem RuleLoop.Built.putByte (h : s.Built bs (some b)) (hroom : s.vi < wowRuleSize)
    (c : BitVec 8) :
    ∃ t, s.putByte c = some t ∧ t.Built bs (some (b.push c)) ∧ t.vi = s.vi + 1 ∧
      t.start = true ∧ t.gap = s.gap + 1 := by
  obtain ⟨junk, hcells⟩ := h.cells
  have hvi := h.vi
  have hptn := h.ptn b rfl
  simp only [Option.toList_some] at hcells hvi
  obtain ⟨x, junk, rfl⟩ : ∃ x junk', junk = x :: junk' := by
    apply List.exists_cons_of_ne_nil
    rintro rfl
    have hsize := s.rule.length_cells
    rw [hcells, List.append_nil, length_blockBytes, ← hvi] at hsize
    omega
  have hsplit : s.rule.cells = blockBytes (bs ++ [b]) ++ [x] ++ junk := by
    rw [hcells, List.append_assoc, List.singleton_append]
  obtain ⟨r₁, hr₁, hcells₁⟩ := Lib.Fixed.write_of_cells (v := [c]) hsplit rfl
  rw [length_blockBytes, ← hvi] at hr₁
  -- The header of the block before its length octet, and what follows.
  have hsplit₁ : r₁.cells =
      (blockBytes bs ++ (pktPattern (BitVec.ofNat 16 b.offset) 0).take 4) ++
        [BitVec.ofNat 8 b.data.length] ++ (b.data ++ [c] ++ junk) := by
    rw [hcells₁]
    simp [WowBlock.bytes, pktPattern]
  have hplace : (blockBytes bs ++ (pktPattern (BitVec.ofNat 16 b.offset) 0).take 4).length =
      s.ptn + 4 := by
    rw [List.length_append, length_blockBytes, hptn]
    rfl
  have hread := Lib.Fixed.read_of_cells hsplit₁
  obtain ⟨r₂, hr₂, hcells₂⟩ := Lib.Fixed.write_of_cells
    (v := [BitVec.ofNat 8 b.data.length + 1]) hsplit₁ rfl
  rw [hplace] at hread hr₂
  let t : RuleLoop := { s with rule := r₂, vi := s.vi + 1, start := true, gap := s.gap + 1 }
  refine ⟨t, ?_, ⟨⟨junk, ?_⟩, ?_, ?_⟩, rfl, rfl, rfl⟩
  · change (s.rule.write s.vi [c]).bind _ = _
    rw [hr₁, Option.bind_some]
    change r₁.read (s.ptn + 4) 1 = _ at hread
    rw [hread, Option.bind_some]
    change (r₁.write (s.ptn + 4) [BitVec.ofNat 8 b.data.length + 1]).map _ = _
    rw [hr₂]
    rfl
  · change r₂.cells = _
    rw [hcells₂]
    simp [WowBlock.bytes, pktPattern, Lib.Extent.push, BitVec.ofNat_add]
  · simp [t, hvi, Lib.Extent.push, Nat.add_assoc]
  · intro b' hb'
    exact hptn

/-- Bit `j` of a mask. -/
def WowPattern.masks (p : WowPattern) (j : ℕ) : Bool := (p.mask.getD (j / 8) 0).getLsbD (j % 8)

theorem WowPattern.maskBit_eq (p : WowPattern) (j : ℕ) : p.maskBit j = p.masks j := by
  have hy : roundUp (j + 1) 8 / 8 - 1 = j / 8 := by
    simp only [roundUp]
    omega
  simp only [maskBit, masks, hy]

/-- The masked octets of a pattern from the octet `j` on. -/
def WowPattern.items (p : WowPattern) (j : ℕ) : List (BitVec 8) → List (Option (BitVec 8))
  | [] => []
  | c :: cs => (if p.masks j then some c else none) :: p.items (j + 1) cs

/-- What a rule holds when the loop is over: all blocks if they fit, and else less data. -/
structure RuleLoop.Ended (s : RuleLoop) (full : List WowBlock) (bs : List WowBlock) : Prop where
  cells : ∃ junk, s.rule.cells = blockBytes bs ++ junk
  vi : s.vi = blockSize bs
  room : s.vi ≤ wowRuleSize
  fits : blockSize full ≤ wowRuleSize → bs = full
  truncated : wowRuleSize < blockSize full → Lib.dataLength bs < Lib.dataLength full

/-- A loop that ends here has all blocks, or leaves something out. -/
theorem RuleLoop.Built.ended (h : s.Built bs cur) (hroom : s.vi ≤ wowRuleSize) (at₀ : ℕ)
    (l : List (Option (BitVec 8)))
    (hfull : Lib.present at₀ l = [] ∨
      wowRuleSize < blockSize (bs ++ Lib.extents at₀ cur l)) :
    s.Ended (bs ++ Lib.extents at₀ cur l) (bs ++ cur.toList) := by
  obtain ⟨hdata, -, hnil⟩ := Lib.extents_size pktPatternSize at₀ cur l
  have hvi := h.vi
  refine ⟨h.cells, h.vi, hroom, ?_, ?_⟩
  · intro hfit
    rcases hfull with hp | hlong
    · rw [hnil hp]
    · omega
  · intro hlong
    have hne : Lib.present at₀ l ≠ [] := by
      intro hp
      rw [hnil hp] at hlong
      omega
    have := List.length_pos_of_ne_nil hne
    rw [Lib.dataLength_append, Lib.dataLength_append, hdata]
    omega

/-- Without room for another header a block is left out. -/
theorem RuleLoop.Built.overage (h : s.Built bs none) (hroom : s.vi < wowRuleSize)
    (hlong : wowRuleSize ≤ s.vi + pktPatternSize) (at₀ : ℕ) (c : BitVec 8)
    (l : List (Option (BitVec 8))) :
    s.Ended (bs ++ Lib.extents at₀ none (some c :: l)) (bs ++ (none : Option WowBlock).toList) := by
  apply h.ended hroom.le
  right
  obtain ⟨-, hsize, -⟩ := Lib.extents_size pktPatternSize (at₀ + 1)
    (some ((⟨at₀, []⟩ : WowBlock).push c)) l
  have hvi := h.vi
  simp only [Lib.extents, blockSize, Lib.extentSize_append, Lib.Extent.push, Option.getD_none,
    List.nil_append, Option.toList_none, Option.toList_some, List.append_nil,
    Lib.extentSize_singleton, List.length_singleton] at hsize hvi ⊢
  omega

/-- A full rule has all blocks if no other masked octet comes. -/
theorem RuleLoop.Built.filled (h : s.Built bs (some b)) (hroom : s.vi ≤ wowRuleSize)
    (hfull : wowRuleSize ≤ s.vi) (at₀ : ℕ) (l : List (Option (BitVec 8))) :
    s.Ended (bs ++ Lib.extents at₀ (some b) l) (bs ++ (some b).toList) := by
  apply h.ended hroom
  by_cases hp : Lib.present at₀ l = []
  · exact .inl hp
  · right
    obtain ⟨-, hsize, -⟩ := Lib.extents_size pktPatternSize at₀ (some b) l
    have hpos := List.length_pos_of_ne_nil hp
    have hvi := h.vi
    rw [blockSize, Lib.extentSize_append] at hvi ⊢
    omega

/-- What the loop does with a masked octet when there is room for it. -/
theorem RuleLoop.Built.take (h : s.Built bs cur) (hstart : s.start = cur.isSome)
    (hroom : s.vi < wowRuleSize)
    (hopen : ¬ (s.start = false ∧ wowRuleSize ≤ s.vi + pktPatternSize)) (c : BitVec 8) :
    ∃ t, ((if s.start then some s else s.openBlock p.pktOffset).bind fun s => s.putByte c) =
        some t ∧
      t.Built bs (some ((cur.getD ⟨p.pktOffset + s.gap, []⟩).push c)) ∧ t.start = true ∧
      t.gap = s.gap + 1 ∧ t.vi ≤ wowRuleSize := by
  cases cur with
  | some b =>
    obtain ⟨t, ht, hbuilt, hvi, hst, hgap⟩ := h.putByte hroom c
    refine ⟨t, ?_, hbuilt, hst, hgap, by omega⟩
    have hst : s.start = true := hstart
    rw [if_pos hst, Option.bind_some, ht]
  | none =>
    have hst : s.start = false := hstart
    have hlt : s.vi + pktPatternSize < wowRuleSize := by
      by_contra hge
      exact hopen ⟨hst, Nat.not_lt.mp hge⟩
    obtain ⟨s₁, hs₁, hbuilt₁, hvi₁, hgap₁⟩ := h.openBlock hlt
    obtain ⟨t, ht, hbuilt, hvi, htst, hgap⟩ := hbuilt₁.putByte (hvi₁ ▸ hlt) c
    refine ⟨t, ?_, hbuilt, htst, hgap.trans (congrArg (· + 1) hgap₁), by omega⟩
    rw [hst, if_neg Bool.false_ne_true, hs₁, Option.bind_some, ht]

/-- The loop over a pattern never writes outside of the rule, and ends as `Ended` says. -/
theorem ruleLoop_spec (p : WowPattern) (cs : List (BitVec 8)) (j : ℕ) (s : RuleLoop)
    (bs : List WowBlock) (cur : Option WowBlock) (h : s.Built bs cur)
    (hends : Lib.EndsAt cur (p.pktOffset + j)) (hgap : s.gap = j) (hstart : s.start = cur.isSome)
    (hroom : s.vi < wowRuleSize) :
    ∃ t out, ruleLoop p cs j s = some t ∧
      t.Ended (bs ++ Lib.extents (p.pktOffset + j) cur (p.items j cs)) out := by
  induction cs generalizing j s bs cur with
  | nil => exact ⟨s, _, rfl, h.ended hroom.le _ _ (.inl rfl)⟩
  | cons c cs ih =>
    rw [ruleLoop, p.maskBit_eq, WowPattern.items]
    by_cases hmask : p.masks j = true
    · rw [if_pos hmask, if_pos hmask, Lib.extents]
      have hpush := Lib.endsAt_push hends c
      by_cases hopen : s.start = false ∧ wowRuleSize ≤ s.vi + pktPatternSize
      · rw [if_pos hopen]
        have hcur : cur = none := by
          rw [← Option.isNone_iff_eq_none, ← Option.not_isSome, ← hstart, hopen.1]
          rfl
        subst hcur
        exact ⟨s, _, rfl, h.overage hroom hopen.2 (p.pktOffset + j) c (p.items (j + 1) cs)⟩
      · rw [if_neg hopen]
        obtain ⟨t, ht, hbuilt, htstart, htgap, htroom⟩ := h.take (p := p) hstart hroom hopen c
        rw [← Option.bind_assoc, ht, Option.bind_some]
        rw [hgap] at hbuilt htgap
        by_cases hend : wowRuleSize ≤ t.vi
        · rw [if_pos hend]
          exact ⟨t, _, rfl, hbuilt.filled htroom hend _ _⟩
        · rw [if_neg hend]
          apply ih (j + 1) t bs _ hbuilt hpush htgap htstart
          omega
    · rw [if_neg hmask, if_neg hmask, Lib.extents, ← List.append_assoc]
      have hnone : Lib.EndsAt (none : Option WowBlock) (p.pktOffset + (j + 1)) := by
        intro b hb
        cases hb
      apply ih (j + 1) _ (bs ++ cur.toList) none _ hnone
      · exact congrArg (· + 1) hgap
      · rfl
      · exact hroom
      · exact ⟨by simpa using h.cells, by simpa using h.vi, fun b hb => by cases hb⟩

end

/-- The blocks in the octets of a rule. -/
def decodeRule (l : List (BitVec 8)) : Option (List WowBlock) :=
  match l with
  | [] => some []
  | op :: type :: lo :: hi :: len :: rest =>
    if op = 0 ∧ type = 0 ∧ len.toNat ≤ rest.length then
      (decodeRule (rest.drop len.toNat)).map
        (⟨lo.toNat + 2 ^ 8 * hi.toNat, rest.take len.toNat⟩ :: ·)
    else none
  | _ => none
termination_by l.length
decreasing_by
  simp only [List.length_drop, List.length_cons]
  omega

/-- An offset in the 16 bits of a header. -/
def wrapOffset (n : ℕ) : ℕ := n % 2 ^ 16

theorem decodeRule_bytes (b : WowBlock) (rest : List (BitVec 8)) (h : b.data.length < 2 ^ 8) :
    decodeRule (WowBlock.bytes b ++ rest) =
      (decodeRule rest).map (b.shift wrapOffset :: ·) := by
  have hlen : (BitVec.ofNat 8 b.data.length).toNat = b.data.length := by
    rw [BitVec.toNat_ofNat, Nat.mod_eq_of_lt h]
  have hoff : ((BitVec.ofNat 16 b.offset).setWidth 8).toNat +
      2 ^ 8 * (((BitVec.ofNat 16 b.offset) >>> 8).setWidth 8).toNat = wrapOffset b.offset := by
    simp only [BitVec.toNat_setWidth, BitVec.toNat_ushiftRight, BitVec.toNat_ofNat,
      Nat.shiftRight_eq_div_pow, wrapOffset]
    omega
  have hbytes : WowBlock.bytes b ++ rest =
      0 :: 0 :: (BitVec.ofNat 16 b.offset).setWidth 8 ::
        ((BitVec.ofNat 16 b.offset) >>> 8).setWidth 8 :: BitVec.ofNat 8 b.data.length ::
        (b.data ++ rest) := rfl
  rw [hbytes, decodeRule, hlen, hoff]
  rw [if_pos ⟨rfl, rfl, by simp⟩, List.drop_left, List.take_left]
  rfl

theorem decodeRule_blockBytes (bs : List WowBlock) (h : ∀ b ∈ bs, b.data.length < 2 ^ 8) :
    decodeRule (blockBytes bs) = some (bs.map (Lib.Extent.shift wrapOffset)) := by
  induction bs with
  | nil =>
    rw [blockBytes, List.flatMap_nil, decodeRule]
    rfl
  | cons b bs ih =>
    rw [blockBytes, List.flatMap_cons, decodeRule_bytes b _ (h b List.mem_cons_self)]
    change (decodeRule (blockBytes bs)).map _ = _
    rw [ih fun b hb => h b (List.mem_cons_of_mem _ hb)]
    rfl

namespace WowPattern

/-- What the pattern asks for: an octet at each offset whose mask bit is set. -/
def wanted (p : WowPattern) : List (ℕ × BitVec 8) :=
  Lib.present p.pktOffset (p.items 0 p.pattern)

/-- The blocks of a pattern: its runs of masked octets. -/
def blocks (p : WowPattern) : List WowBlock :=
  Lib.extents p.pktOffset none (p.items 0 p.pattern)

/-- The blocks have room in a rule, and their offsets in the headers. -/
def Compiles (p : WowPattern) : Prop :=
  blockSize p.blocks ≤ wowRuleSize ∧ ∀ b ∈ p.blocks, b.offset < 2 ^ 16

end WowPattern

/-- The blocks of a rule denote what the pattern asks for. -/
def RuleDenotes (p : WowPattern) (rule : WowRule) : Prop :=
  ∃ bs, decodeRule (rule.rule.cells.take rule.len) = some bs ∧
    ∀ x, x ∈ bs.flatMap Lib.Extent.pairs ↔ x ∈ p.wanted

section
variable {p : WowPattern} {bs : List WowBlock} {s : RuleLoop} {b : WowBlock}

/-- A rule that begins with some blocks denotes them, with the offsets that their headers hold. -/
theorem RuleLoop.Ended.decode {full : List WowBlock} (h : s.Ended full bs) :
    decodeRule (s.rule.cells.take s.vi) = some (bs.map (Lib.Extent.shift wrapOffset)) := by
  obtain ⟨junk, hcells⟩ := h.cells
  have htake : s.rule.cells.take s.vi = blockBytes bs := by
    rw [hcells, h.vi]
    exact List.take_left' (length_blockBytes bs)
  rw [htake]
  apply decodeRule_blockBytes
  intro b hb
  have hone := Lib.le_extentSize_of_mem pktPatternSize hb
  have hroom := h.room
  have hvi := h.vi
  simp only [blockSize, pktPatternSize, wowRuleSize] at hone hroom hvi
  omega

theorem endsAt_none (at₀ : ℕ) : Lib.EndsAt (none : Option WowBlock) at₀ := by
  intro b hb
  cases hb

theorem WowPattern.pairs_blocks (p : WowPattern) :
    p.blocks.flatMap Lib.Extent.pairs = p.wanted :=
  Lib.flatMap_pairs_extents (endsAt_none _) _

/-- Offsets that fit are as they were in the headers. -/
theorem WowPattern.shift_blocks (hoff : ∀ b ∈ p.blocks, b.offset < 2 ^ 16) :
    p.blocks.map (Lib.Extent.shift wrapOffset) = p.blocks := by
  conv_rhs => rw [← List.map_id p.blocks]
  apply List.map_congr_left
  intro b hb
  rw [Lib.Extent.shift, wrapOffset, Nat.mod_eq_of_lt (hoff b hb)]
  rfl

/-- Only offsets that fit denote what the pattern asks for. -/
theorem WowPattern.offset_lt_of_perm
    (hperm : ((p.blocks.map (Lib.Extent.shift wrapOffset)).flatMap Lib.Extent.pairs).Perm p.wanted)
    (hb : b ∈ p.blocks) : b.offset < 2 ^ 16 := by
  rw [← p.pairs_blocks] at hperm
  have hne := Lib.data_ne_nil_of_mem_extents (fun e he => by cases he) hb
  have hwrap := Lib.eq_of_perm_shift (fun n => Nat.mod_le n _) hperm hb hne
  rw [← hwrap]
  exact Nat.mod_lt _ (by decide)

/-- A rule denotes its pattern exactly if nothing was left out and the offsets fit. -/
theorem RuleLoop.Ended.denotes_iff (h : s.Ended p.blocks bs) :
    RuleDenotes p ⟨s.rule, s.vi⟩ ↔ p.Compiles := by
  have hlength : p.wanted.length = Lib.dataLength p.blocks := by
    rw [← p.pairs_blocks, Lib.length_flatMap_pairs]
  constructor
  · rintro ⟨cs, hcs, hsame⟩
    rw [h.decode] at hcs
    cases hcs
    have hlen : ((bs.map (Lib.Extent.shift wrapOffset)).flatMap Lib.Extent.pairs).length =
        Lib.dataLength bs := by
      rw [Lib.length_flatMap_pairs, Lib.dataLength_shift]
    have hsub := (Lib.nodup_present p.pktOffset (p.items 0 p.pattern)).subperm
      fun x hx => (hsame x).mpr hx
    change p.wanted.Subperm _ at hsub
    have hfit : blockSize p.blocks ≤ wowRuleSize := by
      by_contra hlong
      have hless := h.truncated (Nat.not_le.mp hlong)
      have hle := hsub.length_le
      omega
    have hbs := h.fits hfit
    subst hbs
    have hperm := hsub.perm_of_length_le (by rw [hlen, hlength])
    exact ⟨hfit, fun b hb => p.offset_lt_of_perm hperm.symm hb⟩
  · rintro ⟨hfit, hoff⟩
    have hbs := h.fits hfit
    subst hbs
    refine ⟨p.blocks, h.decode.trans (congrArg some (p.shift_blocks hoff)), ?_⟩
    rw [p.pairs_blocks]
    exact fun _ => Iff.rfl

theorem wowRule_spec (p : WowPattern) :
    ∃ rule, wowRule p = some rule ∧ (RuleDenotes p rule ↔ p.Compiles) := by
  have hbuilt : (⟨.fill wowRuleSize 0, 0, 0, false, 0⟩ : RuleLoop).Built [] none :=
    ⟨⟨_, rfl⟩, rfl, fun b hb => by cases hb⟩
  obtain ⟨t, bs, ht, hend⟩ :=
    ruleLoop_spec p p.pattern 0 _ [] none hbuilt (endsAt_none _) rfl rfl (by decide)
  change t.Ended p.blocks bs at hend
  refine ⟨⟨t.rule, t.vi⟩, ?_, hend.denotes_iff⟩
  rw [wowRule, ht]
  rfl

theorem wowRules_spec (ps : List WowPattern) :
    ∃ rules, ps.mapM wowRule = some rules ∧ rules.length = ps.length ∧
      (List.Forall₂ RuleDenotes ps rules ↔ ∀ p ∈ ps, p.Compiles) := by
  induction ps with
  | nil => exact ⟨[], rfl, rfl, by simp⟩
  | cons p ps ih =>
    obtain ⟨rule, hrule, hone⟩ := wowRule_spec p
    obtain ⟨rules, hrules, hlen, hall⟩ := ih
    refine ⟨rule :: rules, ?_, congrArg (· + 1) hlen, ?_⟩
    · rw [List.mapM_cons, hrule, hrules]
      rfl
    · rw [List.forall₂_cons, hone, hall, List.forall_mem_cons]

end

/-- Nothing is written outside, there is room for every rule, and a call that returns zero has sent
a rule for each pattern that denotes it. -/
def WowFaithful (w : WowConfig) (r : Option (ℤ × Option WowCmd)) : Prop :=
  ∃ ret cmd, r = some (ret, cmd) ∧ (∀ c ∈ cmd, c.rules.length ≤ w.patterns.length) ∧
    (ret = 0 → ∃ c, cmd = some c ∧ List.Forall₂ RuleDenotes w.patterns c.rules)

/-- The patterns are compiled faithfully exactly if the call fails, or if their number fits its
octet and each one has room in a rule. -/
theorem wowEnable_faithful_iff (w : WowConfig) (alloc : Bool) (ret : ℤ) (hany : w.any = false) :
    WowFaithful w (wowEnable w alloc ret) ↔
      (alloc = true → ret = 0 → w.patterns.length < 2 ^ 8 ∧ ∀ p ∈ w.patterns, p.Compiles) := by
  unfold wowEnable WowFaithful
  cases halloc : alloc with
  | false =>
    rw [if_pos rfl]
    constructor
    · intro _ h
      cases h
    · intro _
      refine ⟨- ENOMEM, none, rfl, fun c hc => ?_, fun h => ?_⟩
      · cases hc
      · exact absurd h (by decide)
  | true =>
    have htake := List.length_take_le (w.patterns.length % 2 ^ 8) w.patterns
    obtain ⟨rules, hrules, hlen, hall⟩ :=
      wowRules_spec (w.patterns.take (w.patterns.length % 2 ^ 8))
    rw [if_neg (by decide), hany, if_neg Bool.false_ne_true]
    simp only [hrules, Option.map_some]
    rw [List.length_take] at hlen
    constructor
    · rintro ⟨ret', cmd, h, -, hok⟩ - hret
      cases h
      obtain ⟨c, hc, hrel⟩ := hok hret
      cases hc
      have hnum : w.patterns.length < 2 ^ 8 := by
        have hsame := hrel.length_eq
        simp only at hsame
        omega
      rw [Nat.mod_eq_of_lt hnum, List.take_length] at hall
      exact ⟨hnum, hall.mp hrel⟩
    · intro h
      refine ⟨ret, _, rfl, fun c hc => ?_, fun hret => ?_⟩
      · cases hc
        simp only
        omega
      · obtain ⟨hnum, hfit⟩ := h trivial hret
        rw [Nat.mod_eq_of_lt hnum, List.take_length] at hall
        exact ⟨_, rfl, hall.mpr hfit⟩

/-- A pattern for the destination address and the type of a frame. -/
def addressAndType : WowPattern := ⟨0, [2, 0, 0, 0, 0, 1, 9, 9, 8, 0], [0x3f, 0x3]⟩

theorem addressAndType_compiles : addressAndType.Compiles := by
  constructor
  · decide
  · decide

theorem wowEnable_faithful_addressAndType :
    WowFaithful ⟨false, true, true, false, false, false, false, [addressAndType]⟩
      (wowEnable ⟨false, true, true, false, false, false, false, [addressAndType]⟩ true 0) := by
  apply (wowEnable_faithful_iff _ true 0 rfl).mpr
  intro _ _
  constructor
  · decide
  · intro p hp
    rw [List.mem_singleton.mp hp]
    exact addressAndType_compiles

/-- A pattern of 60 octets, all of them masked. -/
def sixtyOctets : WowPattern := ⟨0, List.replicate 60 7, List.replicate 8 0xff⟩

/-- The last octet has no room, the pattern that is sent is a wider one, and zero is returned. -/
theorem wow_truncates_silently :
    ¬ WowFaithful ⟨false, false, false, false, false, false, false, [sixtyOctets]⟩
      (wowEnable ⟨false, false, false, false, false, false, false, [sixtyOctets]⟩ true 0) := by
  obtain ⟨rule, hrule, hdenotes⟩ := wowRule_spec sixtyOctets
  intro h
  obtain ⟨ret, cmd, hr, -, hok⟩ := h
  have hcmd : wowEnable ⟨false, false, false, false, false, false, false, [sixtyOctets]⟩ true 0 =
      some (0, some ⟨71, 0, [rule]⟩) := by
    simp [wowEnable, hrule, WowConfig.flags]
  rw [hcmd] at hr
  cases hr
  obtain ⟨c, hc, hrel⟩ := hok rfl
  cases hc
  rw [List.forall₂_cons] at hrel
  have hfit := (hdenotes.mp hrel.1).1
  exact absurd hfit (by decide)

end Skw
