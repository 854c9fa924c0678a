import Skw.Kernel.Str
import Skw.Kernel.Types
import Skw.Kernel.Words
import Skw.Lib.Fixed
import Skw.Lib.OnesSum
import Mathlib.Logic.Function.Basic

/-! The keep-alive rules that a text sets: the text is read into a buffer on the stack, the rule is
copied into memory of its own, and the checksums of its packet are put in. -/
namespace Skw
open Lib (Fixed wordSum)

abbrev SKW_KEEPACTIVE_RULE_MAX : ℕ := 18
abbrev SKW_KEEPACTIVE_LENGTH_MAX : ℕ := 135
abbrev SKW_KEEPACTIVE_RULE_SEND_CNT_DEF : ℕ := 1
abbrev SKW_KEEPACTIVE_RULE_SEND_CNT_MAX : ℕ := 10
abbrev SKW_KEEPALIVE_ALWAYS_FLAG : BitVec 32 := 1
abbrev SKW_KEEPALIVE_NEEDCHKSUM_FLAG : BitVec 32 := 2
abbrev SKW_KEEPALIVE_FWCHKSUM_FLAG : BitVec 32 := 4

abbrev EBADF : ℤ := 9
abbrev ENOSPC : ℤ := 28

/-! The layout of `struct skw_keep_active_rule` -/

/-- `sizeof(struct skw_keep_active_rule)`: `keep_interval`, the octet of `send_cnt` and `always`,
and `payload_len`. -/
abbrev keepRuleSize : ℕ := 6

/-- `sizeof(struct skw_keep_active_rule_data)`, which is `is_chksumed` -/
abbrev keepDataSize : ℕ := 2

/-- Where the packet of a rule begins. -/
abbrev payloadAt : ℕ := keepRuleSize + keepDataSize

/-- A rule in the memory that was allocated for it. -/
abbrev KeepRule := List (BitVec 8)

/-- `struct skw_keep_active_setup`, the static `kp_set` -/
structure KpSet where
  enBitmap : BitVec 32
  flags : ℕ → BitVec 32
  rule : ℕ → Option KeepRule

def KpSet.init : KpSet := ⟨0, fun _ => 0, fun _ => none⟩

/-- One octet is read and changed. -/
def modify {n : ℕ} (b : Fixed (BitVec 8) n) (i : ℕ) (f : BitVec 8 → BitVec 8) :
    Option (Fixed (BitVec 8) n) := do
  let old ← b.read i 1
  b.write i (old.map f)

/-! Checksums -/

def csumPartial (buff : List (BitVec 8)) (sum : ℕ) : ℕ := sum + wordSum buff

def ipComputeCsum (buff : List (BitVec 8)) : BitVec 16 := Lib.complement (csumPartial buff 0)

/-- With the pseudo header, whose protocol and length are words in network order. -/
def csumTcpudpMagic (saddr daddr : List (BitVec 8)) (len proto sum : ℕ) : BitVec 16 :=
  Lib.complement (wordSum saddr + wordSum daddr + 2 ^ 8 * (proto + len) + sum)

/-- The fields of `struct skw_tx_desc_conf` that are set, over `is_chksumed`. -/
def descConf (old : BitVec 16) (tcp : Bool) : BitVec 16 :=
  (old &&& 0xF000) ||| 34 ||| 0x400 ||| (if tcp then 0x800 else 0)

/-- `skw_keep_alive_add_checksum`, of a packet that is said to have `len` octets. -/
def keepAliveAddChecksum {n : ℕ} (rule : Fixed (BitVec 8) n) (len : BitVec 32) (hwFlag : Bool) :
    Option (Fixed (BitVec 8) n) := do
  let ip := payloadAt + 14
  let udp := ip + 20
  let rule ← rule.write (ip + 10) (le16 0)
  let header ← rule.read ip 20
  let rule ← rule.write (ip + 10) (le16 (ipComputeCsum header))
  let rule ← rule.write (udp + 6) (le16 0)
  let udpLen := (len - 14 - 20).toNat
  let saddr ← rule.read (ip + 12) 4
  let daddr ← rule.read (ip + 16) 4
  if hwFlag then do
    let protocol ← rule.read (ip + 9) 1
    let conf ← rule.read keepRuleSize 2
    let rule ← rule.write keepRuleSize
      (le16 (descConf (BitVec.ofNat 16 (leNat conf)) (protocol = [IPPROTO_TCP])))
    rule.write (udp + 6) (le16 (~~~csumTcpudpMagic saddr daddr udpLen IPPROTO_UDP 0))
  else do
    let datagram ← rule.read udp udpLen
    let sum1 := csumPartial datagram 0
    rule.write (udp + 6) (le16 (csumTcpudpMagic saddr daddr udpLen IPPROTO_UDP sum1))

/-! Storing a rule -/

/-- Both flags that ask for checksums, and the one of them that leaves them to the firmware. -/
def needChksum (flags : BitVec 32) : Bool := flags &&& SKW_KEEPALIVE_NEEDCHKSUM_FLAG ≠ 0

def fwChksum (flags : BitVec 32) : Bool := flags &&& SKW_KEEPALIVE_FWCHKSUM_FLAG ≠ 0

/-- The rule is copied into memory of its own; without memory it is copied to NULL. -/
def copyRule (alloc : Bool) (kp : Fixed (BitVec 8) SKW_KEEPACTIVE_LENGTH_MAX) (flags : BitVec 32)
    (payloadLen : ℕ) : Option (Fixed (BitVec 8) (payloadLen + keepRuleSize)) := do
  let bytes ← kp.read 0 (payloadLen + keepRuleSize)
  let rule ← (if alloc then some (Fixed.fill (payloadLen + keepRuleSize) 0) else none)
  let rule ← rule.write 0 bytes
  modify rule 4 fun b =>
    if flags &&& SKW_KEEPALIVE_ALWAYS_FLAG ≠ 0 then b ||| 0x80 else b &&& 0x7F

/-- The checksums that the flags ask for. -/
def ruleChecksum {n : ℕ} (rule : Fixed (BitVec 8) n) (payloadLen : ℕ) (flags : BitVec 32) :
    Option (Fixed (BitVec 8) n) :=
  let len := BitVec.ofNat 32 payloadLen - 2
  if needChksum flags then
    if fwChksum flags then keepAliveAddChecksum rule len true
    else do
      let rule ← keepAliveAddChecksum rule len false
      rule.write keepRuleSize (le16 0)
  else rule.write keepRuleSize (le16 0)

/-- The rule that is stored for `kp`. -/
def storedRule (alloc : Bool) (kp : Fixed (BitVec 8) SKW_KEEPACTIVE_LENGTH_MAX)
    (flags : BitVec 32) : Option KeepRule := do
  let payloadLen := leNat (← kp.read 5 1)
  let rule ← copyRule alloc kp flags payloadLen
  let rule ← ruleChecksum rule payloadLen flags
  some rule.cells

def KpSet.enable (s : KpSet) (idx : ℕ) (en : Bool) : KpSet :=
  { s with
    enBitmap := if en then s.enBitmap ||| 1#32 <<< idx else s.enBitmap &&& ~~~(1#32 <<< idx) }

def KpSet.store (s : KpSet) (idx : ℕ) (rule : KeepRule) (flags : BitVec 32) : KpSet :=
  { s with
    rule := Function.update s.rule idx (some rule)
    flags := Function.update s.flags idx flags }

/-- `skw_keep_active_rule_save`; `alloc` tells whether there is memory. -/
def keepActiveRuleSave (alloc : Bool) (s : KpSet)
    (kp : Option (Fixed (BitVec 8) SKW_KEEPACTIVE_LENGTH_MAX)) (idx : ℕ) (en : Bool)
    (flags : BitVec 32) : Option (ℤ × KpSet) :=
  if SKW_KEEPACTIVE_RULE_MAX ≤ idx then some (-EFAULT, s)
  else match kp with
    | none => some (0, s.enable idx en)
    | some kp => (storedRule alloc kp flags).map fun rule =>
        (0, (s.store idx rule flags).enable idx en)

/-! Reading a text -/

/-- How a field of a text can be. -/
inductive Field
  | absent
  | bad (err : ℤ)
  | value (v : ℕ) (rest : Option Str)
deriving DecidableEq

/-- The field `key`, whose value goes up to the next comma; behind the last one there is no text. -/
def field (key : String) (bits : ℕ) (hex : Str) : Field :=
  match strstr (str key) hex with
  | none => .absent
  | some hex =>
    let (text, rest) := strsep (ch ',') hex
    if text = [] then .bad (-ERANGE)
    else match kstrtou bits 0 text with
      | none => .bad (-EINVAL)
      | some v => .value v rest

/-- The locals of `skw_keep_active_set` that its text is read into. -/
structure KeepRequest where
  keepAlive : Fixed (BitVec 8) SKW_KEEPACTIVE_LENGTH_MAX
  idx : ℕ
  en : ℕ
  flags : BitVec 32
  getPkt : Bool

/-- The loop over the octets of a packet, which `:` separates. `pos` of them have been read. -/
def readPacket (kp : Fixed (BitVec 8) SKW_KEEPACTIVE_LENGTH_MAX) (pos : ℕ) :
    List Str → Option (Except ℤ (Fixed (BitVec 8) SKW_KEEPACTIVE_LENGTH_MAX × ℕ))
  | [] => some (.ok (kp, pos))
  | hex :: rest =>
    match kstrtou 8 16 hex with
    | none => some (.error (- EINVAL))
    | some temp => do
      let kp ← kp.write (payloadAt + pos) [BitVec.ofNat 8 temp]
      -- behind the last octet the room is not asked for
      if rest = [] then some (.ok (kp, pos + 1))
      else if SKW_KEEPACTIVE_LENGTH_MAX ≤ pos + 1 + keepRuleSize + keepDataSize then
        some (.error (- ENOSPC))
      else readPacket kp (pos + 1) rest

/-- The packet and its length. -/
def readOctets (r : KeepRequest) (toks : List Str) : Option (Except ℤ KeepRequest) := do
  match ← readPacket r.keepAlive 0 toks with
  | .error e => some (.error e)
  | .ok (kp, resultLen) =>
    let kp ← kp.write 5 [BitVec.ofNat 8 (resultLen + keepDataSize)]
    some (.ok { r with keepAlive := kp, getPkt := true })

def readPkt (r : KeepRequest) (hex : Str) : Option (Except ℤ KeepRequest) :=
  match strstr (str "pkt=") hex with
  | none => do
    let kp ← r.keepAlive.write 5 [BitVec.ofNat 8 keepDataSize]
    some (.ok { r with keepAlive := kp })
  | some hex => readOctets r (hex.splitOn (ch ':'))

def readFlags (r : KeepRequest) (hex : Str) : Option (Except ℤ KeepRequest) :=
  match field "flags=" 32 hex with
  | .absent => some (.ok r)
  | .bad e => some (.error e)
  | .value flags none => some (.ok { r with flags := BitVec.ofNat 32 flags })
  | .value flags (some hex) => readPkt { r with flags := BitVec.ofNat 32 flags } hex

/-- A count outside its range is set to the default or to the maximum. -/
def sendCnt (v : ℕ) : BitVec 8 :=
  let c := v % 2 ^ 7
  if c = 0 then BitVec.ofNat 8 SKW_KEEPACTIVE_RULE_SEND_CNT_DEF
  else BitVec.ofNat 8 (min c SKW_KEEPACTIVE_RULE_SEND_CNT_MAX)

/-- Behind the count the text is not asked to go on: `strstr` is called with NULL at its end. -/
def readSendCnt (r : KeepRequest) (hex : Str) : Option (Except ℤ KeepRequest) :=
  match field "send_cnt=" 8 hex with
  | .absent => readFlags r hex
  | .bad e => some (.error e)
  | .value cnt rest => do
    let kp ← modify r.keepAlive 4 fun b => b &&& 0x80 ||| sendCnt cnt
    readFlags { r with keepAlive := kp } (← rest)

def readPeriod (r : KeepRequest) (hex : Str) : Option (Except ℤ KeepRequest) :=
  match field "period=" 32 hex with
  | .absent => some (.ok r)
  | .bad e => some (.error e)
  | .value period rest => do
    let kp ← r.keepAlive.write 0 (le32 (BitVec.ofNat 32 period))
    match rest with
    | none => some (.ok { r with keepAlive := kp })
    | some hex => readSendCnt { r with keepAlive := kp } hex

/-- The text of `skw_keep_active_set`, read over what the stack held before. -/
def readKeepActive (stack : Fixed (BitVec 8) SKW_KEEPACTIVE_LENGTH_MAX) (param : Str) :
    Option (Except ℤ KeepRequest) := do
  let kp ← stack.write 0 (List.replicate keepRuleSize 0)
  let kp ← modify kp 4 fun b => b &&& 0x80 ||| BitVec.ofNat 8 SKW_KEEPACTIVE_RULE_SEND_CNT_DEF
  match field "idx=" 8 param with
  | .absent => some (.error (- EFAULT))
  | .bad e => some (.error e)
  | .value _ none => some (.error (- EBADF))
  | .value idx (some hex) =>
    match field "en=" 8 hex with
    | .absent => some (.error (- EFAULT))
    | .bad e => some (.error e)
    | .value en none => some (.ok ⟨kp, idx, en, 0, false⟩)
    | .value en (some hex) => readPeriod ⟨kp, idx, en, 0, false⟩ hex

/-- `skw_keep_active_set` up to where the rules are sent. -/
def keepActiveStore (alloc : Bool) (stack : Fixed (BitVec 8) SKW_KEEPACTIVE_LENGTH_MAX) (s : KpSet)
    (param : Str) : Option (ℤ × KpSet) := do
  match ← readKeepActive stack param with
  | .error e => some (e, s)
  | .ok r =>
    let keepInterval := leNat (← r.keepAlive.read 0 4)
    let kp := if keepInterval ≠ 0 ∧ r.getPkt = true then some r.keepAlive else none
    keepActiveRuleSave alloc s kp r.idx (r.en ≠ 0) r.flags

/-! What a text gives -/

/-- The values of a text that gives a packet. -/
structure KeepFields where
  idx : ℕ
  en : ℕ
  period : ℕ
  flags : ℕ
  packet : List (BitVec 8)

/-- A text gives the fields in their order, and `send_cnt` among them or not. -/
structure KeepText (param : Str) (f : KeepFields) : Prop where
  reads : ∃ t₁ t₂ t₃ t₄ t₅ t₆,
    field "idx=" 8 param = .value f.idx (some t₁) ∧ field "en=" 8 t₁ = .value f.en (some t₂) ∧
    field "period=" 32 t₂ = .value f.period (some t₃) ∧
    (field "send_cnt=" 8 t₃ = .absent ∧ t₄ = t₃ ∨
      ∃ c, field "send_cnt=" 8 t₃ = .value c (some t₄)) ∧
    field "flags=" 32 t₄ = .value f.flags (some t₅) ∧ strstr (str "pkt=") t₅ = some t₆ ∧
    (t₆.splitOn (ch ':')).map (kstrtou 8 16) = f.packet.map fun b => some b.toNat

/-- A packet that the parse buffer has room for. -/
abbrev maxPacket : ℕ := SKW_KEEPACTIVE_LENGTH_MAX - payloadAt

section
variable {kp : Fixed (BitVec 8) SKW_KEEPACTIVE_LENGTH_MAX} {r : KeepRequest} {hex param : Str}
  {f : KeepFields} {packet : List (BitVec 8)} {pos period : ℕ}

/-- What a buffer says of the packet in it. -/
structure HasPacket (kp : Fixed (BitVec 8) SKW_KEEPACTIVE_LENGTH_MAX) (period : ℕ)
    (packet : List (BitVec 8)) : Prop where
  interval : kp.read 0 4 = some (le32 (BitVec.ofNat 32 period))
  payloadLen : kp.read 5 1 = some [BitVec.ofNat 8 (packet.length + keepDataSize)]
  payload : kp.read payloadAt packet.length = some packet

/-- The octets go behind those that were read, while there is room. -/
theorem readPacket_of_fits (kp : Fixed (BitVec 8) SKW_KEEPACTIVE_LENGTH_MAX) (pos : ℕ)
    (toks : List Str) (hne : toks ≠ [])
    (htoks : toks.map (kstrtou 8 16) = packet.map fun b => some b.toNat)
    (hfits : pos + packet.length ≤ maxPacket) :
    ∃ kp', readPacket kp pos toks = some (.ok (kp', pos + packet.length)) ∧
      kp'.read (payloadAt + pos) packet.length = some packet ∧
      ∀ j k, j + k ≤ payloadAt + pos → kp'.read j k = kp.read j k := by
  induction toks generalizing kp pos packet with
  | nil => contradiction
  | cons hex rest ih =>
    cases packet with
    | nil => contradiction
    | cons b packet =>
      rw [List.map_cons, List.map_cons, List.cons.injEq] at htoks
      obtain ⟨hb, hrest⟩ := htoks
      rw [List.length_cons] at hfits ⊢
      obtain ⟨kp₁, h₁⟩ := kp.exists_write (i := payloadAt + pos) (s := [b])
        (by rw [List.length_singleton]; unfold maxPacket at hfits; omega)
      have hbefore : ∀ j k, j + k ≤ payloadAt + pos → kp₁.read j k = kp.read j k :=
        fun j k hjk => Fixed.read_of_write_disjoint h₁ (.inl hjk)
      have hself : kp₁.read (payloadAt + pos) 1 = some [b] := Fixed.read_of_write_self h₁
      rw [readPacket, hb]
      simp only [BitVec.ofNat_toNat, BitVec.setWidth_eq, h₁, Option.bind_eq_bind, Option.bind_some]
      by_cases hr : rest = []
      · have hp : packet = [] := by
          rw [hr, List.map_nil] at hrest
          exact List.map_eq_nil_iff.mp hrest.symm
        subst hr hp
        exact ⟨kp₁, by simp, hself, hbefore⟩
      · have hroom : ¬ SKW_KEEPACTIVE_LENGTH_MAX ≤ pos + 1 + keepRuleSize + keepDataSize := by
          have hlen : 0 < packet.length := by
            rw [List.length_pos_iff]
            intro hp
            rw [hp, List.map_nil, List.map_eq_nil_iff] at hrest
            exact hr hrest
          unfold maxPacket payloadAt at hfits
          omega
        obtain ⟨kp₂, h₂, hread, hkept⟩ := ih kp₁ (pos + 1) hr hrest (by omega)
        rw [if_neg hr, if_neg hroom]
        refine ⟨kp₂, by rw [h₂, Nat.add_assoc, Nat.add_comm 1], ?_, fun j k hjk => ?_⟩
        · have hfirst : kp₂.read (payloadAt + pos) 1 = some [b] := by
            rw [hkept _ _ (by omega), hself]
          rw [Nat.add_comm packet.length]
          exact Fixed.read_add hfirst hread
        · rw [hkept j k (by omega), hbefore j k hjk]

theorem readPacket_of_not_fits (kp : Fixed (BitVec 8) SKW_KEEPACTIVE_LENGTH_MAX)
    (toks : List Str) (hpos : pos < maxPacket)
    (htoks : toks.map (kstrtou 8 16) = packet.map fun b => some b.toNat)
    (hfits : maxPacket < pos + packet.length) :
    readPacket kp pos toks = some (.error (- ENOSPC)) := by
  induction toks generalizing kp pos packet with
  | nil =>
    rw [List.map_nil] at htoks
    rw [List.map_eq_nil_iff.mp htoks.symm, List.length_nil] at hfits
    omega
  | cons hex rest ih =>
    cases packet with
    | nil => contradiction
    | cons b packet =>
      rw [List.map_cons, List.map_cons, List.cons.injEq] at htoks
      obtain ⟨hb, hrest⟩ := htoks
      rw [List.length_cons] at hfits
      obtain ⟨kp₁, h₁⟩ := kp.exists_write (i := payloadAt + pos) (s := [b])
        (by rw [List.length_singleton]; unfold maxPacket at hpos; omega)
      have hr : rest ≠ [] := by
        intro hr
        rw [hr, List.map_nil] at hrest
        rw [List.map_eq_nil_iff.mp hrest.symm, List.length_nil] at hfits
        omega
      rw [readPacket, hb]
      simp only [BitVec.ofNat_toNat, BitVec.setWidth_eq, h₁, Option.bind_eq_bind, Option.bind_some,
        if_neg hr]
      by_cases hroom : SKW_KEEPACTIVE_LENGTH_MAX ≤ pos + 1 + keepRuleSize + keepDataSize
      · rw [if_pos hroom]
      · rw [if_neg hroom]
        exact ih kp₁ (by unfold maxPacket payloadAt; omega) hrest (by omega)

theorem read_of_modify {n i j k : ℕ} {b c : Fixed (BitVec 8) n} {g : BitVec 8 → BitVec 8}
    (h : modify b i g = some c) (hd : j + k ≤ i ∨ i + 1 ≤ j) : c.read j k = b.read j k := by
  simp only [modify, Option.bind_eq_bind, Option.bind_eq_some_iff] at h
  obtain ⟨old, hold, hwrite⟩ := h
  refine Fixed.read_of_write_disjoint hwrite (hd.imp_right fun hle => ?_)
  rw [List.length_map, Fixed.length_of_read hold]
  exact hle

theorem exists_modify {n i : ℕ} (b : Fixed (BitVec 8) n) (hi : i < n) (g : BitVec 8 → BitVec 8) :
    ∃ c, modify b i g = some c ∧ ∀ j k, j + k ≤ i ∨ i + 1 ≤ j → c.read j k = b.read j k := by
  have hread : b.read i 1 = some ((b.cells.drop i).take 1) := b.read_of_le hi
  have hlen : ((b.cells.drop i).take 1).length = 1 := by
    rw [List.length_take, List.length_drop, b.length_cells]
    omega
  obtain ⟨c, hc⟩ := b.exists_write (i := i) (s := ((b.cells.drop i).take 1).map g)
    (by rw [List.length_map, hlen]; exact hi)
  have hmodify : modify b i g = some c := by
    rw [modify, hread]
    exact hc
  exact ⟨c, hmodify, fun j k hjk => read_of_modify hmodify hjk⟩

/-- A text that gives a packet is read up to it, and the interval stands in the buffer. -/
theorem readKeepActive_eq (hf : KeepText param f)
    (stack : Fixed (BitVec 8) SKW_KEEPACTIVE_LENGTH_MAX) :
    ∃ kp toks, kp.read 0 4 = some (le32 (BitVec.ofNat 32 f.period)) ∧ toks ≠ [] ∧
      (toks.map (kstrtou 8 16) = f.packet.map fun b => some b.toNat) ∧
      readKeepActive stack param =
        readOctets ⟨kp, f.idx, f.en, BitVec.ofNat 32 f.flags, false⟩ toks := by
  obtain ⟨t₁, t₂, t₃, t₄, t₅, t₆, h₁, h₂, h₃, h₄, h₅, h₆, htoks⟩ := hf.reads
  obtain ⟨kp₁, hkp₁⟩ := stack.exists_write (i := 0) (s := List.replicate keepRuleSize 0)
    (by rw [List.length_replicate]; decide)
  obtain ⟨kp₂, hkp₂, -⟩ := exists_modify kp₁ (i := 4) (by decide)
    fun b => b &&& 0x80 ||| BitVec.ofNat 8 SKW_KEEPACTIVE_RULE_SEND_CNT_DEF
  obtain ⟨kp₃, hkp₃⟩ := kp₂.exists_write (i := 0) (s := le32 (BitVec.ofNat 32 f.period))
    (by rw [length_le32]; decide)
  have hinterval : kp₃.read 0 4 = some (le32 (BitVec.ofNat 32 f.period)) :=
    Fixed.read_of_write_self hkp₃
  have hstart : readKeepActive stack param =
      readSendCnt ⟨kp₃, f.idx, f.en, 0, false⟩ t₃ := by
    simp only [readKeepActive, hkp₁, hkp₂, h₁, h₂, readPeriod, h₃, hkp₃, Option.bind_eq_bind,
      Option.bind_some]
  have hend : ∀ kp, readFlags ⟨kp, f.idx, f.en, 0, false⟩ t₄ =
      readOctets ⟨kp, f.idx, f.en, BitVec.ofNat 32 f.flags, false⟩ (t₆.splitOn (ch ':')) := by
    intro kp
    simp only [readFlags, h₅, readPkt, h₆]
  rcases h₄ with ⟨habsent, rfl⟩ | ⟨c, hc⟩
  · refine ⟨kp₃, _, hinterval, List.splitOn_ne_nil _ _, htoks, ?_⟩
    rw [hstart, ← hend, readSendCnt, habsent]
  · obtain ⟨kp₄, hkp₄, hkept⟩ := exists_modify kp₃ (i := 4) (by decide)
      fun b => b &&& 0x80 ||| sendCnt c
    refine ⟨kp₄, _, ?_, List.splitOn_ne_nil _ _, htoks, ?_⟩
    · rw [hkept 0 4 (.inl le_rfl), hinterval]
    · rw [hstart, ← hend, readSendCnt, hc]
      simp only [hkp₄, Option.bind_eq_bind, Option.bind_some]

/-- A text with a packet that fits. -/
theorem readKeepActive_of_fits (hf : KeepText param f) (hfits : f.packet.length ≤ maxPacket)
    (stack : Fixed (BitVec 8) SKW_KEEPACTIVE_LENGTH_MAX) :
    ∃ kp, readKeepActive stack param =
        some (.ok ⟨kp, f.idx, f.en, BitVec.ofNat 32 f.flags, true⟩) ∧
      HasPacket kp f.period f.packet := by
  obtain ⟨kp, toks, hinterval, hne, htoks, hread⟩ := readKeepActive_eq hf stack
  obtain ⟨kp₁, h₁, hpayload, hkept⟩ := readPacket_of_fits kp 0 toks hne htoks
    (by rwa [Nat.zero_add])
  rw [Nat.zero_add] at h₁
  obtain ⟨kp₂, h₂⟩ := kp₁.exists_write (i := 5)
    (s := [BitVec.ofNat 8 (f.packet.length + keepDataSize)]) (by rw [List.length_singleton]; decide)
  refine ⟨kp₂, ?_, ?_, Fixed.read_of_write_self h₂, ?_⟩
  · simp only [hread, readOctets, h₁, h₂, Option.bind_eq_bind, Option.bind_some]
  · rw [Fixed.read_of_write_disjoint h₂ (.inl (by decide)), hkept 0 4 (by decide), hinterval]
  · rw [Fixed.read_of_write_disjoint h₂ (.inr (by rw [List.length_singleton]; decide))]
    exact hpayload

theorem readKeepActive_of_not_fits (hf : KeepText param f) (hfits : maxPacket < f.packet.length)
    (stack : Fixed (BitVec 8) SKW_KEEPACTIVE_LENGTH_MAX) :
    readKeepActive stack param = some (.error (- ENOSPC)) := by
  obtain ⟨kp, toks, -, -, htoks, hread⟩ := readKeepActive_eq hf stack
  have hroom : 0 < maxPacket := by decide
  have herr := readPacket_of_not_fits kp toks hroom htoks (by rwa [Nat.zero_add])
  simp only [hread, readOctets, herr, Option.bind_eq_bind, Option.bind_some]

end

end Skw
