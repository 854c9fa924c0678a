import Skw.Kernel.Str
import Skw.Kernel.Types
import Skw.Kernel.Words
import Skw.Lib.Fixed
import Skw.Lib.Overlay
import Skw.Power.Wow
import Mathlib.Logic.Function.Basic

/-! A wake filter set from a text `idx=i,pattern=P`. The blocks of the pattern go into the rule of
the slot while the text is read. -/
namespace Skw
open Lib (Fixed)

abbrev SKW_IW_WOW_BUF_SIZE : ℕ := 1024
abbrev SKW_MAX_WOW_RULE_NUM : ℕ := 64
abbrev SKW_MAX_WOW_USER_RULE_LEN : ℕ := 128
abbrev ETH_DATA_LEN : ℤ := 1500

abbrev PAT_OP_TYPE_DIFF : BitVec 8 := 1
abbrev PAT_OP_TYPE_CONTINUE_MATCH : BitVec 8 := 2
abbrev PAT_TYPE_ETH : BitVec 8 := 0

/-- The statics `wow_rules_set` and `wow_user_rules`, without the flags. -/
structure WowTables where
  enBitmap : BitVec 64
  rules : ℕ → WowRule
  userBitmap : BitVec 64
  userRules : ℕ → Fixed (BitVec 8) SKW_MAX_WOW_USER_RULE_LEN

/-- One of the three formats that the start of a block is tried against. -/
def scanForm (mark : Str) (hex : Str) : Option (BitVec 32) := do
  let (offset, hex) ← scanInt hex
  let hex ← expect (ch '+' :: mark) hex
  if scansHex hex then some offset else none

def scanOffset (hex : Str) : Option (BitVec 32) :=
  scanForm [] hex <|> scanForm [ch '!'] hex <|> scanForm [ch '*'] hex

/-- The octet of two hexadecimal digits. -/
def hexOctet (h l : BitVec 8) : BitVec 8 :=
  BitVec.ofNat 8 (16 * (digitVal h).getD 0 + (digitVal l).getD 0)

/-- The loop over the octets of a block whose data begin at `val`. With the rule it returns an
error, or how many octets and how much of the rule there are and where the text goes on. -/
def wowOctets (rule : RuleBuf) (val pos resultLen : ℕ) :
    Str → Option (RuleBuf × Except ℤ (ℕ × ℕ × Str))
  | [] => some (rule, .ok (pos, resultLen, []))
  | [_] => some (rule, .error (- EINVAL))
  | h :: l :: hex =>
    if isDigit 16 h && isDigit 16 l then do
      let rule ← rule.write (val + pos) [hexOctet h l]
      if wowRuleSize ≤ resultLen + 1 then some (rule, .error (- ERANGE))
      else match hex with
        | [] => some (rule, .ok (pos + 1, resultLen + 1, []))
        | c :: t =>
          if c = ch ',' ∨ c = ch '#' then
            some (rule, .ok (pos + 1, resultLen + 1, h :: l :: c :: t))
          else if c = ch ':' then wowOctets rule val (pos + 1) (resultLen + 1) t
          else some (rule, .error (- EINVAL))
    else some (rule, .error (- EINVAL))

/-- An octet of the text's buffer, behind the place where `hex` begins; `total` is the length of the
text, and the buffer is zero behind it. -/
def hexAt (total : ℕ) (hex : Str) (i : ℕ) : Option (BitVec 8) :=
  if total - hex.length + i < SKW_IW_WOW_BUF_SIZE then some (hex.getD i 0) else none

/-- The operator of a block, which is written for `!` and for `*`. -/
def wowOp (rule : RuleBuf) (ptn : ℕ) (hex : Str) : Option (RuleBuf × Str) :=
  match hex with
  | [] => some (rule, [])
  | c :: t =>
    if c = ch '!' then (rule.write ptn [PAT_OP_TYPE_DIFF]).map fun rule => (rule, t)
    else if c = ch '*' then (rule.write ptn [PAT_OP_TYPE_CONTINUE_MATCH]).map fun rule => (rule, t)
    else some (rule, c :: t)

/-- The loop over the blocks of a pattern, as often as `fuel` tells. With the rule it returns an
error or the length of the rule; without a value it writes, or reads, outside of a buffer. -/
def wowBlocks (total : ℕ) : ℕ → RuleBuf → ℕ → ℕ → Str → Option (RuleBuf × Except ℤ ℕ)
  | 0, _, _, _, _ => none
  | fuel + 1, rule, val, resultLen, hex =>
    if hex = [] then some (rule, .ok resultLen)
    else match scanOffset hex with
      | none => some (rule, .error (- EINVAL))
      | some offset =>
        if ETH_DATA_LEN < offset.toInt then some (rule, .error (- EINVAL))
        else if wowRuleSize ≤ resultLen + pktPatternSize then some (rule, .error (- ERANGE))
        else do
          let ptn := val
          let rule ← rule.write (ptn + 1) [PAT_TYPE_ETH]
          let rule ← rule.write (ptn + 2) (le16 (offset.setWidth 16))
          let hex ← strchr (ch '+') hex
          let (rule, hex) ← wowOp rule ptn hex
          let (rule, read) ←
            wowOctets rule (val + pktPatternSize) 0 (resultLen + pktPatternSize) hex
          match read with
          | .error e => some (rule, .error e)
          | .ok (pos, resultLen, hex) => do
            let rule ← rule.write (ptn + 4) [BitVec.ofNat 8 pos]
            let c ← hexAt total hex 2
            if c = ch ',' then some (rule, .ok resultLen)
            else
              -- behind the last `#` of a NULL there is no text
              let hex ← (if c = ch '#' then strchr (ch '#') hex else some hex)
              wowBlocks total fuel rule (val + pktPatternSize + pos) resultLen hex

/-- `strncpy` of a text into an array of the user's rules. -/
def userRule (text : Str) : Fixed (BitVec 8) SKW_MAX_WOW_USER_RULE_LEN where
  cells := text.take SKW_MAX_WOW_USER_RULE_LEN ++
    List.replicate (SKW_MAX_WOW_USER_RULE_LEN - text.length) 0
  length_cells := by
    rw [List.length_append, List.length_take, List.length_replicate]
    omega

/-- The branch of `skw_wow_filter_set` for a text that begins with `idx=`: the value of `ret` at its
end and the tables. `alloc` tells whether there is memory for the text. -/
def wowFilterSet (alloc : Bool) (s : WowTables) (text : Str) : Option (ℤ × WowTables) :=
  if alloc then do
    let (token, hex) := strsep (ch ',') text
    let idx ← strchr (ch '=') token
    match kstrtou 8 0 idx with
    | none => some (- EINVAL, s)
    | some ruleIdx =>
      if SKW_MAX_WOW_RULE_NUM ≤ ruleIdx then some (- EINVAL, s)
      else
        match expect (str "pattern=") (← hex) with
        | none => some (- EINVAL, s)
        | some hex => do
          let old := s.rules ruleIdx
          let (rule, read) ← wowBlocks text.length (text.length + 1) old.rule 0 0 hex
          match read with
          | .error e =>
            some (e, { s with rules := Function.update s.rules ruleIdx ⟨rule, old.len⟩ })
          | .ok resultLen => some (0,
            { enBitmap := s.enBitmap ||| 1#64 <<< ruleIdx
              rules := Function.update s.rules ruleIdx ⟨rule, resultLen⟩
              userBitmap := s.userBitmap ||| 1#64 <<< ruleIdx
              userRules := Function.update s.userRules ruleIdx (userRule text) })
  else some (- ENOMEM, s)

end Skw
