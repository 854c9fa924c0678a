import Skw.Iw.KeepActive
import Skw.Lib.Machine

/-! Sending the keep-alive rules: a first command with up to nine of them and one with the others,
each filled from the bitmap of the slots that are enabled. -/
namespace Skw
open Lib (Fixed)

abbrev SKW_KEEPACTIVE_CMD_BUF_MAX : ℕ := 1300

abbrev ACTION_DIS_KEEPALIVE : BitVec 16 := 2
abbrev ACTION_EN_KEEPALIVE : BitVec 16 := 4
abbrev ACTION_EN_KEEPALIVE_APPEND : BitVec 16 := 8

/-- `sizeof(struct skw_spd_action_param)` -/
abbrev spdSize : ℕ := 4

/-- Behind `struct skw_spd_action_param` and `rule_num` -/
abbrev keepFixed : ℕ := spdSize + 1

abbrev keepTotal : ℕ := keepFixed + SKW_KEEPACTIVE_CMD_BUF_MAX

/-- The set bits of `en_bitmap`, as `ffs` and `SKW_CLEAR` take them. -/
def KpSet.enabled (s : KpSet) : List ℕ :=
  (List.range 32).filter fun i => s.enBitmap.getLsbD i

/-- The memory of a rule. -/
def KeepRule.memory (rule : KeepRule) : Fixed (BitVec 8) rule.length := ⟨rule, rfl⟩

/-- A buffer of rules: how far it is filled and how many there are, whether the limit was reached,
and the slots that are left. -/
structure KeepBuffer where
  buf : Fixed (BitVec 8) keepTotal
  offset : ℕ
  rules : ℕ
  full : Bool
  idxMap : List ℕ

/-- The loop of `skw_keep_active_cmd`, with `limit` 9, and of `skw_keep_active_append_cmd`, which
stops behind the tenth rule. A slot without a rule and one without room end it. -/
def fillRules (s : KpSet) (limit : ℕ) (buf : Fixed (BitVec 8) keepTotal) (offset rules : ℕ) :
    List ℕ → Option KeepBuffer
  | [] => some ⟨buf, offset, rules, false, []⟩
  | idx :: idxMap =>
    match s.rule idx with
    | none => some ⟨buf, offset, rules, false, idxMap⟩
    | some rule => do
      let size := keepRuleSize + leNat (← rule.memory.read 5 1)
      if keepTotal < offset + size then some ⟨buf, offset, rules, false, idxMap⟩
      else do
        let buf ← buf.write offset (← rule.memory.read 0 size)
        if limit ≤ rules + 1 then some ⟨buf, offset + size, rules + 1, true, idxMap⟩
        else fillRules s limit buf (offset + size) (rules + 1) idxMap

/-- The contents of a command, which is sent when it has a rule. -/
def keepCommand (b : KeepBuffer) (subCmd : BitVec 16) : Option (List (List (BitVec 8))) := do
  let buf ← b.buf.write spdSize [BitVec.ofNat 8 b.rules]
  let buf ← buf.write 2 (le16 (BitVec.ofNat 16 (b.offset - spdSize)))
  let buf ← buf.write 0 (le16 subCmd)
  if b.rules = 0 then some []
  else do
    let spd ← buf.read 0 b.offset
    some [spd]

/-- `skw_keep_active_disable_cmd` -/
def keepDisable : List (BitVec 8) := le16 ACTION_DIS_KEEPALIVE ++ le16 0

def fillCommand (s : KpSet) (limit : ℕ) (idxMap : List ℕ) : Option KeepBuffer :=
  fillRules s limit (Fixed.fill keepTotal 0) keepFixed 0 idxMap

/-- `skw_keep_active_append_cmd`: its result and what it sends. `alloc` tells whether there is
memory, and every command is acknowledged. -/
def keepActiveAppendCmd (alloc : Bool) (s : KpSet) (idxMap : List ℕ) :
    Option (ℤ × List (List (BitVec 8))) :=
  if alloc then do
    let b ← fillCommand s (SKW_KEEPACTIVE_RULE_MAX / 2 + 1) idxMap
    let spd ← keepCommand b ACTION_EN_KEEPALIVE_APPEND
    some (0, spd)
  else some (- ENOMEM, [])

/-- `skw_keep_active_cmd`; there is memory for the first command, and for the second one. -/
def keepActiveCmd (alloc append : Bool) (s : KpSet) : Option (ℤ × List (List (BitVec 8))) :=
  if alloc then do
    let b ← fillCommand s (SKW_KEEPACTIVE_RULE_MAX / 2) s.enabled
    let spd ← keepCommand b ACTION_EN_KEEPALIVE
    if b.full then do
      let (ret, more) ← keepActiveAppendCmd append s b.idxMap
      some (ret, keepDisable :: spd ++ more)
    else some (0, keepDisable :: spd)
  else some (- ENOMEM, [])

/-! What the firmware reads -/

/-- Rules one behind the other, and nothing behind the last one. -/
def decodeRules : ℕ → List (BitVec 8) → Option (List KeepRule)
  | 0, l => if l = [] then some [] else none
  | count + 1, l => do
    let size := keepRuleSize + leNat ((l.drop 5).take 1)
    if size ≤ l.length then do
      let rest ← decodeRules count (l.drop size)
      some (l.take size :: rest)
    else none

/-- The rules of a command. -/
def commandRules (cmd : List (BitVec 8)) : Option (List KeepRule) :=
  if leNat ((cmd.drop 2).take 2) = cmd.length - spdSize then
    if cmd.take 2 = le16 ACTION_DIS_KEEPALIVE then some []
    else if cmd.take 2 = le16 ACTION_EN_KEEPALIVE ∨
        cmd.take 2 = le16 ACTION_EN_KEEPALIVE_APPEND then
      decodeRules (leNat ((cmd.drop spdSize).take 1)) (cmd.drop keepFixed)
    else none
  else none

/-- The rules that should be sent: the slots that are enabled and have a packet, in their order. -/
def KpSet.due (s : KpSet) : List KeepRule := s.enabled.filterMap s.rule

/-- A call of `skw_keep_active_set`: there is memory for the rule, what is on the stack, and the
text. -/
structure KeepCall where
  alloc : Bool
  stack : Fixed (BitVec 8) SKW_KEEPACTIVE_LENGTH_MAX
  param : Str

/-- What a call makes of the rules; sending them, which follows, leaves them as they are. -/
def KpSet.step (s : KpSet) (c : KeepCall) : Option KpSet :=
  (keepActiveStore c.alloc c.stack s c.param).map Prod.snd

/-! The rules in the table -/

/-- A rule has the length that it says, at most that of the buffer on the stack. -/
structure KeepRule.Valid (rule : KeepRule) : Prop where
  length_eq : rule.length = keepRuleSize + leNat ((rule.drop 5).take 1)
  length_le : rule.length ≤ SKW_KEEPACTIVE_LENGTH_MAX

structure KpSet.Valid (s : KpSet) : Prop where
  rules : ∀ i rule, s.rule i = some rule → rule.Valid
  enabled : ∀ i, SKW_KEEPACTIVE_RULE_MAX ≤ i → s.enBitmap.getLsbD i = false

section
variable {n : ℕ} {alloc append : Bool} {kp : Fixed (BitVec 8) SKW_KEEPACTIVE_LENGTH_MAX}
  {rule c : Fixed (BitVec 8) n} {flags : BitVec 32} {s t : KpSet} {i j k : ℕ}

/-- The checksums leave the head of a rule as it is. -/
theorem keepAliveAddChecksum_head {len : BitVec 32} {hwFlag : Bool}
    (h : keepAliveAddChecksum rule len hwFlag = some c) : c.read 5 1 = rule.read 5 1 := by
  have hip : 5 + 1 ≤ payloadAt + 14 + 10 := by decide
  have hudp : 5 + 1 ≤ payloadAt + 14 + 20 + 6 := by decide
  simp only [keepAliveAddChecksum, Option.bind_eq_bind, Option.bind_eq_some_iff] at h
  obtain ⟨r₁, h₁, header, -, r₂, h₂, r₃, h₃, saddr, -, daddr, -, h⟩ := h
  have hhead : r₃.read 5 1 = rule.read 5 1 := by
    rw [Fixed.read_of_write_disjoint h₃ (.inl hudp), Fixed.read_of_write_disjoint h₂ (.inl hip),
      Fixed.read_of_write_disjoint h₁ (.inl hip)]
  cases hwFlag with
  | true =>
    simp only [if_true, Option.bind_eq_some_iff] at h
    obtain ⟨protocol, -, conf, -, r₄, h₄, h₅⟩ := h
    rw [Fixed.read_of_write_disjoint h₅ (.inl hudp),
      Fixed.read_of_write_disjoint h₄ (.inl (by decide)), hhead]
  | false =>
    simp only [Bool.false_eq_true, if_false, Option.bind_eq_some_iff] at h
    obtain ⟨datagram, -, h₄⟩ := h
    rw [Fixed.read_of_write_disjoint h₄ (.inl hudp), hhead]

theorem ruleChecksum_head {payloadLen : ℕ} (h : ruleChecksum rule payloadLen flags = some c) :
    c.read 5 1 = rule.read 5 1 := by
  simp only [ruleChecksum] at h
  split_ifs at h with hneed hfw
  · exact keepAliveAddChecksum_head h
  · simp only [Option.bind_eq_bind, Option.bind_eq_some_iff] at h
    obtain ⟨r, hr, hc⟩ := h
    rw [Fixed.read_of_write_disjoint hc (.inl (by decide)), keepAliveAddChecksum_head hr]
  · exact Fixed.read_of_write_disjoint h (.inl (by decide))

theorem copyRule_head {payloadLen : ℕ} {r : Fixed (BitVec 8) (payloadLen + keepRuleSize)}
    (h : copyRule alloc kp flags payloadLen = some r) :
    payloadLen + keepRuleSize ≤ SKW_KEEPACTIVE_LENGTH_MAX ∧ r.read 5 1 = kp.read 5 1 := by
  simp only [copyRule, Option.bind_eq_bind, Option.bind_eq_some_iff] at h
  obtain ⟨bytes, hbytes, fresh, -, r₁, h₁, h₂⟩ := h
  have hle := Fixed.isSome_read_iff.mp (Option.isSome_of_eq_some hbytes)
  rw [Nat.zero_add] at hle
  refine ⟨hle, ?_⟩
  have hwhole := Fixed.read_of_write_self h₁
  rw [Fixed.length_of_read hbytes] at hwhole
  rw [read_of_modify h₂ (.inr le_rfl), Fixed.read_of_read hwhole (by unfold keepRuleSize; omega),
    Fixed.read_of_read hbytes (by unfold keepRuleSize; omega)]

/-- What is stored is a rule. -/
theorem storedRule_valid {r : KeepRule} (h : storedRule alloc kp flags = some r) : r.Valid := by
  simp only [storedRule, Option.bind_eq_bind, Option.bind_eq_some_iff] at h
  obtain ⟨len, hlen, r₁, h₁, r₂, h₂, hr⟩ := h
  obtain rfl := Option.some.inj hr
  obtain ⟨hle, hhead⟩ := copyRule_head h₁
  have hread := (ruleChecksum_head h₂).trans (hhead.trans hlen)
  have hfield : (r₂.cells.drop 5).take 1 = len := by
    rw [Fixed.read_of_le _ (by unfold keepRuleSize; omega), Option.some.injEq] at hread
    exact hread
  constructor
  · rw [hfield, r₂.length_cells, Nat.add_comm]
  · rwa [r₂.length_cells]

theorem KpSet.enable_enabled {en : Bool} (hs : ∀ i, SKW_KEEPACTIVE_RULE_MAX ≤ i →
    s.enBitmap.getLsbD i = false) (hj : j < SKW_KEEPACTIVE_RULE_MAX)
    (hi : SKW_KEEPACTIVE_RULE_MAX ≤ i) : (s.enable j en).enBitmap.getLsbD i = false := by
  have hne : ¬(j ≤ i ∧ i - j < 1) := by omega
  cases en with
  | true => simp [KpSet.enable, BitVec.getLsbD_or, hs i hi]; omega
  | false => simp [KpSet.enable, BitVec.getLsbD_and, hs i hi]

theorem KpSet.Valid.enable {en : Bool} (hs : s.Valid) (hj : j < SKW_KEEPACTIVE_RULE_MAX) :
    (s.enable j en).Valid where
  rules := hs.rules
  enabled _ hi := KpSet.enable_enabled hs.enabled hj hi

theorem KpSet.Valid.store {r : KeepRule} (hs : s.Valid) (hr : r.Valid) :
    (s.store j r flags).Valid where
  rules i rule h := by
    have hrule : Function.update s.rule j (some r) i = some rule := h
    by_cases hij : i = j
    · subst hij
      rw [Function.update_self, Option.some.injEq] at hrule
      rwa [← hrule]
    · rw [Function.update_of_ne hij] at hrule
      exact hs.rules i rule hrule
  enabled := hs.enabled

/-- The rules stay valid over every call. -/
theorem KpSet.step_valid (s : KpSet) (call : KeepCall) (t : KpSet) (hs : s.Valid)
    (h : s.step call = some t) : t.Valid := by
  simp only [KpSet.step, keepActiveStore, Option.bind_eq_bind, Option.map_eq_some_iff,
    Option.bind_eq_some_iff] at h
  obtain ⟨⟨ret, t'⟩, ⟨read, -, h⟩, rfl⟩ := h
  cases read with
  | error e =>
    simp only [Option.some.injEq, Prod.mk.injEq] at h
    rwa [← h.2]
  | ok r =>
    simp only [Option.bind_eq_some_iff] at h
    obtain ⟨interval, -, h⟩ := h
    unfold keepActiveRuleSave at h
    split_ifs at h with hidx hkp
    · simp only [Option.some.injEq, Prod.mk.injEq] at h
      rwa [← h.2]
    · simp only [Option.map_eq_some_iff, Prod.mk.injEq] at h
      obtain ⟨rule, hrule, -, rfl⟩ := h
      exact (hs.store (storedRule_valid hrule)).enable (not_le.mp hidx)
    · simp only [Option.some.injEq, Prod.mk.injEq] at h
      rw [← h.2]
      exact hs.enable (not_le.mp hidx)

theorem KpSet.init_valid : KpSet.init.Valid where
  rules _ _ h := by cases h
  enabled _ _ := BitVec.getLsbD_zero

/-- At most all slots of the table are enabled. -/
theorem KpSet.Valid.length_enabled (hs : s.Valid) : s.enabled.length ≤ SKW_KEEPACTIVE_RULE_MAX := by
  have hsplit : s.enabled = (List.range SKW_KEEPACTIVE_RULE_MAX).filter fun i =>
      s.enBitmap.getLsbD i := by
    have hrange : List.range 32 = List.range SKW_KEEPACTIVE_RULE_MAX ++
        (List.range 14).map (SKW_KEEPACTIVE_RULE_MAX + ·) := by rw [← List.range_add]
    rw [KpSet.enabled, hrange, List.filter_append, List.append_right_eq_self,
      List.filter_eq_nil_iff]
    intro i hi
    obtain ⟨j, -, rfl⟩ := List.mem_map.mp hi
    rw [hs.enabled _ (Nat.le_add_right _ _)]
    exact Bool.false_ne_true
  rw [hsplit]
  exact (List.length_filter_le _ _).trans_eq List.length_range

end

/-! Filling and sending -/

/-- The rules before the first slot that has none. -/
def KpSet.ready (s : KpSet) (idxMap : List ℕ) : List KeepRule :=
  (idxMap.takeWhile fun i => (s.rule i).isSome).filterMap s.rule

/-- A buffer in which `sent` stands behind its head. -/
structure KeepBuffer.Holds (b : KeepBuffer) (head : List (BitVec 8)) (sent : List KeepRule) :
    Prop where
  cells : ∃ tail, b.buf.cells = head ++ (sent.flatten ++ tail)
  offset : b.offset = head.length + sent.flatten.length
  rules : b.rules = sent.length

section
variable {s : KpSet} {idxMap : List ℕ} {rule : KeepRule} {head tail : List (BitVec 8)}
  {sent rules : List KeepRule} {limit : ℕ} {b : KeepBuffer} {subCmd : BitVec 16}

theorem ready_none {i : ℕ} (h : s.rule i = none) : s.ready (i :: idxMap) = [] := by
  rw [KpSet.ready, List.takeWhile_cons_of_neg (by simp [h]), List.filterMap_nil]

theorem ready_some {i : ℕ} (h : s.rule i = some rule) :
    s.ready (i :: idxMap) = rule :: s.ready idxMap := by
  rw [KpSet.ready, List.takeWhile_cons_of_pos (by simp [h]), List.filterMap_cons_some h,
    KpSet.ready]

theorem length_ready_le (s : KpSet) (idxMap : List ℕ) : (s.ready idxMap).length ≤ idxMap.length :=
  (List.length_filterMap_le _ _).trans (List.takeWhile_prefix _).length_le

/-- Behind slots that all have a rule. -/
theorem ready_drop {k : ℕ} (h : k ≤ (s.ready idxMap).length) :
    s.ready (idxMap.drop k) = (s.ready idxMap).drop k := by
  induction k generalizing idxMap with
  | zero => rfl
  | succ k ih =>
    cases idxMap with
    | nil => simp [KpSet.ready] at h
    | cons i idxMap =>
      cases hrule : s.rule i with
      | none => simp [ready_none hrule] at h
      | some rule =>
        rw [ready_some hrule, List.length_cons, Nat.add_le_add_iff_right] at h
        rw [ready_some hrule, List.drop_succ_cons, List.drop_succ_cons, ih h]

/-- A rule is copied as a whole. -/
theorem KeepRule.Valid.memory (h : rule.Valid) :
    rule.memory.read 5 1 = some ((rule.drop 5).take 1) ∧
      rule.memory.read 0 (keepRuleSize + leNat ((rule.drop 5).take 1)) = some rule := by
  have hlen := h.length_eq
  constructor
  · exact Fixed.read_of_le _ (by rw [hlen]; unfold keepRuleSize; omega)
  · rw [← hlen, Fixed.read_of_le _ (Nat.zero_add _).le, List.drop_zero]
    exact congrArg some (List.take_length)

/-- Where the loop ends without another rule. -/
theorem holds_stopped {buf : Fixed (BitVec 8) keepTotal} {offset n : ℕ}
    (hcells : buf.cells = head ++ (sent.flatten ++ tail))
    (hoffset : offset = head.length + sent.flatten.length) (hn : n = sent.length) (k : ℕ)
    (m : List ℕ) :
    (⟨buf, offset, n, false, m⟩ : KeepBuffer).Holds head (sent ++ ([] : List KeepRule).take k) := by
  rw [List.take_nil, List.append_nil]
  exact ⟨⟨tail, hcells⟩, hoffset, hn⟩

/-- A rule of the first slot goes behind those that were put in. -/
theorem exists_fillRule (hvalid : rule.Valid) {i : ℕ} (hrule : s.rule i = some rule)
    {buf : Fixed (BitVec 8) keepTotal} {offset : ℕ} (n limit : ℕ) (idxMap : List ℕ)
    (hcells : buf.cells = head ++ (sent.flatten ++ tail))
    (hoffset : offset = head.length + sent.flatten.length)
    (hroom : offset + SKW_KEEPACTIVE_LENGTH_MAX ≤ keepTotal) :
    ∃ buf', buf'.cells = head ++ ((sent ++ [rule]).flatten ++ tail.drop rule.length) ∧
      offset + rule.length = head.length + (sent ++ [rule]).flatten.length ∧
      fillRules s limit buf offset n (i :: idxMap) =
        if limit ≤ n + 1 then some ⟨buf', offset + rule.length, n + 1, true, idxMap⟩
        else fillRules s limit buf' (offset + rule.length) (n + 1) idxMap := by
  obtain ⟨hlen, hbytes⟩ := hvalid.memory
  rw [← hvalid.length_eq] at hbytes
  have hle := hvalid.length_le
  have htail : tail.length = keepTotal - offset := by
    have := congrArg List.length hcells
    rw [buf.length_cells, List.length_append, List.length_append] at this
    omega
  obtain ⟨buf', hwrite, hcells'⟩ := Fixed.write_behind (v := rule) (i := offset)
    (s := head ++ sent.flatten) (t := tail) (by rw [hcells, List.append_assoc])
    (by rw [List.length_append, hoffset]) (by omega)
  refine ⟨buf', ?_, ?_, ?_⟩
  · rw [hcells', List.flatten_append, List.flatten_singleton]
    simp only [List.append_assoc]
  · rw [List.flatten_append, List.flatten_singleton, List.length_append, hoffset]
    omega
  · rw [fillRules, hrule]
    simp only [hlen, Option.bind_eq_bind, Option.bind_some, ← hvalid.length_eq, hbytes, hwrite]
    rw [if_neg (by omega)]

/-- The loop puts in the rules that are ready, up to its limit. -/
theorem exists_fillRules (hs : s.Valid) {buf : Fixed (BitVec 8) keepTotal} {offset n : ℕ}
    (hcells : buf.cells = head ++ (sent.flatten ++ tail))
    (hoffset : offset = head.length + sent.flatten.length) (hn : n = sent.length)
    (hlimit : n < limit)
    (hroom : offset + min (limit - n) idxMap.length * SKW_KEEPACTIVE_LENGTH_MAX ≤ keepTotal) :
    ∃ b, fillRules s limit buf offset n idxMap = some b ∧
      b.Holds head (sent ++ (s.ready idxMap).take (limit - n)) ∧
      (b.full = true ↔ limit - n ≤ (s.ready idxMap).length) ∧
      (b.full = true → b.idxMap = idxMap.drop (limit - n)) := by
  induction idxMap generalizing buf offset n sent tail with
  | nil =>
    refine ⟨_, rfl, holds_stopped hcells hoffset hn _ [], ?_, fun h => by contradiction⟩
    simp [KpSet.ready]
    omega
  | cons i idxMap ih =>
    cases hrule : s.rule i with
    | none =>
      rw [fillRules, hrule, ready_none hrule]
      refine ⟨_, rfl, holds_stopped hcells hoffset hn _ idxMap, ?_, fun h => by contradiction⟩
      simp
      omega
    | some rule =>
      have hmin : min (limit - n) (i :: idxMap).length =
          min (limit - (n + 1)) idxMap.length + 1 := by
        rw [List.length_cons]
        omega
      rw [hmin, Nat.add_mul, Nat.one_mul] at hroom
      obtain ⟨buf₁, hcells₁, hoffset₁, hfill⟩ := exists_fillRule (hs.rules i rule hrule) hrule n
        limit idxMap hcells hoffset (by omega)
      have hle := (hs.rules i rule hrule).length_le
      have hn₁ : n + 1 = (sent ++ [rule]).length := by rw [List.length_append, hn]; rfl
      rw [hfill, ready_some hrule]
      split_ifs with hlast
      · have hone : limit - n = 1 := by omega
        rw [hone]
        refine ⟨_, rfl, ⟨⟨_, hcells₁⟩, hoffset₁, hn₁⟩, ?_, ?_⟩
        · simp
        · intro _
          rfl
      · obtain ⟨b, hb, hholds, hfull, hmap⟩ := ih hcells₁ hoffset₁ hn₁ (by omega) (by omega)
        have hstep : limit - n = (limit - (n + 1)) + 1 := by omega
        rw [hstep, List.take_succ_cons, List.length_cons, List.drop_succ_cons,
          Nat.add_le_add_iff_right]
        refine ⟨b, hb, ?_, hfull, hmap⟩
        rwa [List.append_assoc, List.singleton_append] at hholds

/-- The head of a fresh buffer. -/
def freshHead : List (BitVec 8) := List.replicate keepFixed 0

/-- The contents of a command with some rules. -/
def commandBytes (subCmd : BitVec 16) (rules : List KeepRule) : List (BitVec 8) :=
  le16 subCmd ++ (le16 (BitVec.ofNat 16 (1 + rules.flatten.length)) ++
    ([BitVec.ofNat 8 rules.length] ++ rules.flatten))

theorem length_commandBytes (subCmd : BitVec 16) (rules : List KeepRule) :
    (commandBytes subCmd rules).length = keepFixed + rules.flatten.length := by
  simp only [commandBytes, List.length_append, length_le16, List.length_singleton]
  unfold keepFixed spdSize
  omega

theorem keepCommand_of_holds (h : b.Holds freshHead rules) (subCmd : BitVec 16) :
    b.offset ≤ keepTotal ∧
      keepCommand b subCmd = some (if rules = [] then [] else [commandBytes subCmd rules]) := by
  obtain ⟨tail, hcells⟩ := h.cells
  have hoffset : b.offset = keepFixed + rules.flatten.length := h.offset
  have hle : b.offset ≤ keepTotal := by
    have hlen := congrArg List.length hcells
    rw [b.buf.length_cells, List.length_append, List.length_append] at hlen
    have hhead : freshHead.length = keepFixed := List.length_replicate
    omega
  refine ⟨hle, ?_⟩
  obtain ⟨b₁, h₁, c₁⟩ := Fixed.write_at (b := b.buf) (i := spdSize) (s := [0, 0, 0, 0]) (t := [0])
    (v := [BitVec.ofNat 8 rules.length]) hcells rfl rfl
  obtain ⟨b₂, h₂, c₂⟩ := Fixed.write_at (b := b₁) (i := 2) (s := [0, 0]) (t := [0, 0])
    (v := le16 (BitVec.ofNat 16 (b.offset - spdSize))) c₁ rfl rfl
  obtain ⟨b₃, h₃, c₃⟩ := Fixed.write_at (b := b₂) (i := 0) (s := []) (t := [0, 0])
    (v := le16 subCmd) c₂ rfl rfl
  have hlength : b.offset - spdSize = 1 + rules.flatten.length := by
    rw [hoffset]
    unfold keepFixed
    omega
  have hread : b₃.read 0 b.offset = some (commandBytes subCmd rules) := by
    refine Fixed.read_at (s := []) (u := tail) ?_ rfl ?_
    · rw [c₃, commandBytes, hlength]
      simp only [List.append_assoc]
    · rw [length_commandBytes, hoffset]
  simp only [keepCommand, h₁, h₂, h₃, Option.bind_eq_bind, Option.bind_some, h.rules,
    List.length_eq_zero_iff, hread]
  split_ifs
  · rfl
  · rfl

/-- Rules one behind the other are read back. -/
theorem decodeRules_flatten (h : ∀ rule ∈ rules, rule.Valid) :
    decodeRules rules.length rules.flatten = some rules := by
  induction rules with
  | nil => rfl
  | cons rule rules ih =>
    have hvalid := h rule List.mem_cons_self
    have hlen := hvalid.length_eq
    have hfield : ((rule ++ rules.flatten).drop 5).take 1 = (rule.drop 5).take 1 := by
      rw [List.drop_append_of_le_length (by rw [hlen]; unfold keepRuleSize; omega),
        List.take_append_of_le_length]
      rw [List.length_drop, hlen]
      unfold keepRuleSize
      omega
    have hrest := ih fun r hr => h r (List.mem_cons_of_mem _ hr)
    rw [List.length_cons, List.flatten_cons, decodeRules, hfield, ← hlen]
    simp only [List.length_append, Nat.le_add_right, if_true, List.drop_left, List.take_left, hrest,
      Option.bind_eq_bind, Option.bind_some]

theorem commandRules_commandBytes (h : ∀ rule ∈ rules, rule.Valid) (hcount : rules.length < 2 ^ 8)
    (hlen : keepFixed + rules.flatten.length ≤ keepTotal)
    (hsub : subCmd = ACTION_EN_KEEPALIVE ∨ subCmd = ACTION_EN_KEEPALIVE_APPEND) :
    commandRules (commandBytes subCmd rules) = some rules := by
  have hlength : leNat (((commandBytes subCmd rules).drop 2).take 2) =
      (commandBytes subCmd rules).length - spdSize := by
    have hfield : ((commandBytes subCmd rules).drop 2).take 2 =
        le16 (BitVec.ofNat 16 (1 + rules.flatten.length)) := rfl
    rw [hfield, leNat_le16, BitVec.toNat_ofNat, length_commandBytes, Nat.mod_eq_of_lt]
    · unfold keepFixed
      omega
    · have hbound : keepTotal < 2 ^ 16 := by decide
      unfold keepFixed at hlen
      omega
  have htake : (commandBytes subCmd rules).take 2 = le16 subCmd := rfl
  have hbyte : leNat (((commandBytes subCmd rules).drop spdSize).take 1) = rules.length := by
    have hfield : ((commandBytes subCmd rules).drop spdSize).take 1 =
        [BitVec.ofNat 8 rules.length] := rfl
    rw [hfield, leNat, List.foldr_cons, List.foldr_nil, BitVec.toNat_ofNat,
      Nat.mod_eq_of_lt hcount, Nat.mul_zero, Nat.add_zero]
  have hdrop : (commandBytes subCmd rules).drop keepFixed = rules.flatten := rfl
  rw [commandRules, if_pos hlength, htake, hbyte, hdrop, decodeRules_flatten h]
  rcases hsub with rfl | rfl
  · rw [if_neg (by decide), if_pos (by decide)]
  · rw [if_neg (by decide), if_pos (by decide)]

theorem ready_valid (hs : s.Valid) (idxMap : List ℕ) : ∀ rule ∈ s.ready idxMap, rule.Valid := by
  intro rule h
  obtain ⟨i, -, hi⟩ := List.mem_filterMap.mp h
  exact hs.rules i rule hi

/-- What commands tell the firmware. -/
structure Tells (cmds : List (List (BitVec 8))) (rules : List KeepRule) : Prop where
  fits : ∀ cmd ∈ cmds, cmd.length ≤ keepTotal
  reads : ∃ sent : List (List KeepRule),
    cmds.map commandRules = sent.map some ∧ sent.flatten = rules

theorem Tells.unique {cmds : List (List (BitVec 8))} {rules' : List KeepRule}
    (h : Tells cmds rules) (h' : Tells cmds rules') : rules = rules' := by
  obtain ⟨sent, hsent, rfl⟩ := h.reads
  obtain ⟨sent', hsent', rfl⟩ := h'.reads
  rw [List.map_injective_iff.mpr (Option.some_injective _) (hsent.symm.trans hsent')]

theorem Tells.append {cmds cmds' : List (List (BitVec 8))} {rules' : List KeepRule}
    (h : Tells cmds rules) (h' : Tells cmds' rules') : Tells (cmds ++ cmds') (rules ++ rules') where
  fits cmd hcmd := (List.mem_append.mp hcmd).elim (h.fits cmd) (h'.fits cmd)
  reads := by
    obtain ⟨sent, hsent, hflat⟩ := h.reads
    obtain ⟨sent', hsent', hflat'⟩ := h'.reads
    exact ⟨sent ++ sent', by rw [List.map_append, hsent, hsent', List.map_append],
      by rw [List.flatten_append, hflat, hflat']⟩

theorem tells_nil : Tells [] [] where
  fits _ h := absurd h List.not_mem_nil
  reads := ⟨[], rfl, rfl⟩

theorem tells_disable : Tells [keepDisable] [] where
  fits cmd h := by
    rw [List.mem_singleton.mp h]
    decide
  reads := ⟨[[]], by decide, rfl⟩

/-- A command that is filled with rules tells them. -/
theorem exists_command (hs : s.Valid) (limit : ℕ) (idxMap : List ℕ) (hlimit : 0 < limit)
    (hroom : min limit idxMap.length ≤ SKW_KEEPACTIVE_RULE_MAX / 2)
    (hsub : subCmd = ACTION_EN_KEEPALIVE ∨ subCmd = ACTION_EN_KEEPALIVE_APPEND) :
    ∃ b cmds, fillCommand s limit idxMap = some b ∧ keepCommand b subCmd = some cmds ∧
      Tells cmds ((s.ready idxMap).take limit) ∧
      (b.full = true ↔ limit ≤ (s.ready idxMap).length) ∧
      (b.full = true → b.idxMap = idxMap.drop limit) := by
  have hcells : (Fixed.fill keepTotal (0 : BitVec 8)).cells =
      freshHead ++ (([] : List KeepRule).flatten ++
        List.replicate SKW_KEEPACTIVE_CMD_BUF_MAX 0) :=
    List.replicate_add keepFixed SKW_KEEPACTIVE_CMD_BUF_MAX 0
  have hfits : keepFixed + min (limit - 0) idxMap.length * SKW_KEEPACTIVE_LENGTH_MAX ≤
      keepTotal := by
    rw [Nat.sub_zero]
    calc
      keepFixed + min limit idxMap.length * SKW_KEEPACTIVE_LENGTH_MAX ≤
          keepFixed + SKW_KEEPACTIVE_RULE_MAX / 2 * SKW_KEEPACTIVE_LENGTH_MAX :=
        Nat.add_le_add_left (Nat.mul_le_mul_right _ hroom) _
      _ ≤ keepTotal := by decide
  obtain ⟨b, hb, hholds, hfull, hmap⟩ := exists_fillRules hs hcells rfl rfl hlimit hfits
  rw [List.length_nil, Nat.sub_zero] at hholds hfull hmap
  rw [List.nil_append] at hholds
  obtain ⟨hle, hcmd⟩ := keepCommand_of_holds hholds subCmd
  refine ⟨b, _, hb, hcmd, ?_, hfull, hmap⟩
  split_ifs with hnil
  · rw [hnil]
    exact tells_nil
  · have hcount : ((s.ready idxMap).take limit).length < 2 ^ 8 := by
      have hready := length_ready_le s idxMap
      have hmax : SKW_KEEPACTIVE_RULE_MAX / 2 = 9 := rfl
      rw [List.length_take]
      omega
    have hlen : keepFixed + ((s.ready idxMap).take limit).flatten.length ≤ keepTotal := by
      have hoffset : b.offset = keepFixed + _ := hholds.offset
      rwa [hoffset] at hle
    have hvalid : ∀ rule ∈ (s.ready idxMap).take limit, rule.Valid :=
      fun rule hr => ready_valid hs idxMap rule (List.mem_of_mem_take hr)
    refine ⟨fun cmd h => ?_, [(s.ready idxMap).take limit], ?_, by simp⟩
    · rwa [List.mem_singleton.mp h, length_commandBytes]
    · rw [List.map_singleton, List.map_singleton, commandRules_commandBytes hvalid hcount hlen hsub]

/-- The rules of both commands, of those that are ready when `k` have been put in. -/
def batches (alloc append : Bool) (k : ℕ) (rules : List KeepRule) : List KeepRule :=
  if alloc then
    rules.take (SKW_KEEPACTIVE_RULE_MAX / 2 - k) ++
      (if append then rules.drop (SKW_KEEPACTIVE_RULE_MAX / 2 - k) else [])
  else []

theorem keepActiveCmd_tells (hs : s.Valid) (alloc append : Bool) :
    ∃ ret cmds, keepActiveCmd alloc append s = some (ret, cmds) ∧
      Tells cmds (batches alloc append 0 (s.ready s.enabled)) := by
  cases alloc with
  | false => exact ⟨_, [], rfl, tells_nil⟩
  | true =>
    have henabled := hs.length_enabled
    have hmax : SKW_KEEPACTIVE_RULE_MAX = 18 := rfl
    obtain ⟨b, first, hb, hfirst, htells, hfull, hmap⟩ := exists_command hs
      (SKW_KEEPACTIVE_RULE_MAX / 2) s.enabled (by decide) (min_le_left _ _) (.inl rfl)
    have hdisable := tells_disable.append htells
    rw [List.nil_append] at hdisable
    by_cases hmore : b.full = true
    · have hready := hfull.mp hmore
      cases append with
      | false =>
        refine ⟨- ENOMEM, keepDisable :: first ++ [], ?_, ?_⟩
        · simp only [keepActiveCmd, hb, hfirst, hmore, keepActiveAppendCmd, Option.bind_eq_bind,
            Option.bind_some, if_true, Bool.false_eq_true, if_false]
        · rw [List.append_nil]
          simpa [batches] using hdisable
      | true =>
        obtain ⟨c, second, hc, hsecond, htells', -, -⟩ := exists_command hs
          (SKW_KEEPACTIVE_RULE_MAX / 2 + 1) (s.enabled.drop (SKW_KEEPACTIVE_RULE_MAX / 2))
          (by decide) (by rw [List.length_drop]; omega) (.inr rfl)
        refine ⟨0, keepDisable :: first ++ second, ?_, ?_⟩
        · simp only [keepActiveCmd, hb, hfirst, hmore, keepActiveAppendCmd, hmap hmore, hc, hsecond,
            Option.bind_eq_bind, Option.bind_some, if_true]
        · have hlen := length_ready_le s s.enabled
          have hrest : ((s.ready s.enabled).drop (SKW_KEEPACTIVE_RULE_MAX / 2)).length ≤
              SKW_KEEPACTIVE_RULE_MAX / 2 + 1 := by
            rw [List.length_drop]
            omega
          have hboth := hdisable.append htells'
          rw [ready_drop hready, List.take_of_length_le hrest] at hboth
          exact hboth
    · have hready : (s.ready s.enabled).length < SKW_KEEPACTIVE_RULE_MAX / 2 :=
        not_le.mp (hfull.not.mp hmore)
      refine ⟨0, keepDisable :: first, ?_, ?_⟩
      · simp only [keepActiveCmd, hb, hfirst, hmore, Option.bind_eq_bind, Option.bind_some, if_true,
          if_false, Bool.false_eq_true]
      · simpa [batches, List.drop_of_length_le hready.le] using hdisable

theorem batches_cons (alloc append : Bool) (k : ℕ) (rule : KeepRule) (rules : List KeepRule) :
    batches alloc append k (rule :: rules) =
      if alloc = true ∧ (SKW_KEEPACTIVE_RULE_MAX / 2 ≤ k → append = true) then
        rule :: batches alloc append (k + 1) rules
      else [] := by
  have hmax : SKW_KEEPACTIVE_RULE_MAX / 2 = 9 := rfl
  cases alloc with
  | false => simp [batches]
  | true =>
    by_cases hk : SKW_KEEPACTIVE_RULE_MAX / 2 ≤ k
    · have hzero : SKW_KEEPACTIVE_RULE_MAX / 2 - k = 0 := Nat.sub_eq_zero_of_le hk
      have hzero' : SKW_KEEPACTIVE_RULE_MAX / 2 - (k + 1) = 0 := Nat.sub_eq_zero_of_le (by omega)
      cases append with
      | false => simp [batches, hzero, hk]
      | true => simp [batches, hzero, hzero']
    · have hsucc : SKW_KEEPACTIVE_RULE_MAX / 2 - k = SKW_KEEPACTIVE_RULE_MAX / 2 - (k + 1) + 1 := by
        omega
      rw [batches, batches, hsucc]
      simp [hk]

theorem batches_eq_due_iff (s : KpSet) (alloc append : Bool) (k : ℕ) (idxMap : List ℕ) :
    batches alloc append k (s.ready idxMap) = idxMap.filterMap s.rule ↔
      ∀ pre i post, idxMap = pre ++ i :: post → (s.rule i).isSome →
        alloc = true ∧ (SKW_KEEPACTIVE_RULE_MAX / 2 ≤ k + pre.length → append = true) ∧
        ∀ j ∈ pre, (s.rule j).isSome := by
  induction idxMap generalizing k with
  | nil => simp [KpSet.ready, batches]
  | cons i idxMap ih =>
    cases hrule : s.rule i with
    | none =>
      have hnil : batches alloc append k [] = [] := by simp [batches]
      rw [ready_none hrule, hnil, List.filterMap_cons_none hrule, eq_comm,
        List.filterMap_eq_nil_iff]
      constructor
      · intro hnone pre j post hsplit hj
        cases pre with
        | nil =>
          rw [List.nil_append, List.cons.injEq] at hsplit
          rw [← hsplit.1, hrule] at hj
          contradiction
        | cons x pre =>
          rw [List.cons_append, List.cons.injEq] at hsplit
          rw [hnone j (by rw [hsplit.2]; exact List.mem_append_cons_self)] at hj
          contradiction
      · intro hall j hj
        by_contra hsome
        obtain ⟨pre, post, hsplit⟩ := List.append_of_mem hj
        have hcond := hall (i :: pre) j post (by rw [hsplit, List.cons_append])
          (Option.isSome_iff_ne_none.mpr hsome)
        have hi := hcond.2.2 i List.mem_cons_self
        rw [hrule] at hi
        contradiction
    | some rule =>
      rw [ready_some hrule, batches_cons, List.filterMap_cons_some hrule]
      have hi : (s.rule i).isSome := by rw [hrule]; rfl
      by_cases hfirst : alloc = true ∧ (SKW_KEEPACTIVE_RULE_MAX / 2 ≤ k → append = true)
      · rw [if_pos hfirst, List.cons.injEq, eq_self, true_and, ih]
        constructor
        · intro hall pre j post hsplit hj
          cases pre with
          | nil => exact ⟨hfirst.1, hfirst.2, fun x hx => absurd hx List.not_mem_nil⟩
          | cons x pre =>
            rw [List.cons_append, List.cons.injEq] at hsplit
            obtain ⟨halloc, happend, hbelow⟩ := hall pre j post hsplit.2 hj
            refine ⟨halloc, fun hle => happend ?_, fun y hy => ?_⟩
            · rw [List.length_cons] at hle
              omega
            · rcases List.mem_cons.mp hy with rfl | hy
              · rwa [← hsplit.1]
              · exact hbelow y hy
        · intro hall pre j post hsplit hj
          obtain ⟨halloc, happend, hbelow⟩ := hall (i :: pre) j post
            (by rw [hsplit, List.cons_append]) hj
          refine ⟨halloc, fun hle => happend ?_, fun y hy => hbelow y (List.mem_cons_of_mem _ hy)⟩
          rw [List.length_cons]
          omega
      · rw [if_neg hfirst]
        constructor
        · intro h
          contradiction
        · intro hall
          obtain ⟨halloc, happend, -⟩ := hall [] i idxMap rfl hi
          exact absurd ⟨halloc, happend⟩ hfirst

end

/-- In every state that calls lead to, the commands tell each rule of an enabled slot once and in
order exactly when, for every enabled slot with a rule, the first buffer was allocated, and the
second one where nine enabled slots or more are below it, and these all have a rule. -/
theorem keepActiveCmd_tells_due_iff (calls : List KeepCall) (s : KpSet)
    (h : Lib.exec KpSet.step KpSet.init calls = some s) (alloc append : Bool) :
    (∃ ret cmds, keepActiveCmd alloc append s = some (ret, cmds) ∧ Tells cmds s.due) ↔
      ∀ pre i post, s.enabled = pre ++ i :: post → (s.rule i).isSome →
        alloc = true ∧ (SKW_KEEPACTIVE_RULE_MAX / 2 ≤ pre.length → append = true) ∧
        ∀ j ∈ pre, (s.rule j).isSome := by
  have hs : s.Valid := Lib.exec_invariant KpSet.step_valid KpSet.init_valid h
  obtain ⟨ret, cmds, hcmd, htells⟩ := keepActiveCmd_tells hs alloc append
  have hdue := batches_eq_due_iff s alloc append 0 s.enabled
  simp only [Nat.zero_add] at hdue
  rw [← hdue]
  constructor
  · rintro ⟨ret', cmds', hcmd', htells'⟩
    rw [hcmd, Option.some.injEq, Prod.mk.injEq] at hcmd'
    obtain ⟨-, rfl⟩ := hcmd'
    exact htells.unique htells'
  · intro heq
    rw [heq] at htells
    exact ⟨ret, cmds, hcmd, htells⟩

/-- A call with a text, on a stack of zeros. -/
def keepCall (text : String) : KeepCall := ⟨true, Fixed.fill _ 0, str text⟩

theorem one_rule_told :
    ∃ s, Lib.exec KpSet.step KpSet.init [keepCall "idx=3,en=1,period=1000,flags=1,pkt=7c:2"] =
        some s ∧
      ∃ ret cmds, keepActiveCmd true false s = some (ret, cmds) ∧ Tells cmds s.due := by
  have hrun : (Lib.exec KpSet.step KpSet.init
      [keepCall "idx=3,en=1,period=1000,flags=1,pkt=7c:2"]).map KpSet.enabled = some [3] := by
    decide +kernel
  obtain ⟨s, hs, henabled⟩ := Option.map_eq_some_iff.mp hrun
  refine ⟨s, hs, (keepActiveCmd_tells_due_iff _ s hs true false).mpr ?_⟩
  intro pre i post hsplit _
  rw [henabled] at hsplit
  have hpre : pre = [] := by
    have hlen := congrArg List.length hsplit
    simp only [List.length_append, List.length_cons, List.length_nil] at hlen
    exact List.eq_nil_of_length_eq_zero (by omega)
  rw [hpre]
  exact ⟨rfl, fun h => absurd h (by decide), fun j hj => absurd hj List.not_mem_nil⟩

/-- A slot that is enabled without a packet hides the rules behind it. -/
theorem rule_behind_empty_slot_not_told :
    ∃ s, Lib.exec KpSet.step KpSet.init
        [keepCall "idx=0,en=1", keepCall "idx=1,en=1,period=1000,flags=1,pkt=7c"] = some s ∧
      ¬∃ ret cmds, keepActiveCmd true true s = some (ret, cmds) ∧ Tells cmds s.due := by
  have hrun : (Lib.exec KpSet.step KpSet.init
      [keepCall "idx=0,en=1", keepCall "idx=1,en=1,period=1000,flags=1,pkt=7c"]).map
        (fun s => (s.due, keepActiveCmd true true s)) =
      some ([[0xE8, 0x03, 0, 0, 0x81, 3, 0, 0, 0x7C]], some (0, [keepDisable])) := by
    decide +kernel
  obtain ⟨s, hs, heval⟩ := Option.map_eq_some_iff.mp hrun
  rw [Prod.mk.injEq] at heval
  obtain ⟨hdue, hcmd⟩ := heval
  refine ⟨s, hs, ?_⟩
  rintro ⟨ret, cmds, hsent, htells⟩
  rw [hcmd, Option.some.injEq, Prod.mk.injEq] at hsent
  rw [← hsent.2, hdue] at htells
  have hnil := tells_disable.unique htells
  contradiction

end Skw
