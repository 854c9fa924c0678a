import Skw.Iw.WowText

/-! What the loops over a pattern read, and what they leave of it in a rule. -/
namespace Skw
open Lib (Fixed overlay)

inductive PatOp
  | same
  | diff
  | continueMatch
deriving DecidableEq

namespace PatOp

def code : PatOp → BitVec 8
  | same => 0
  | diff => PAT_OP_TYPE_DIFF
  | continueMatch => PAT_OP_TYPE_CONTINUE_MATCH

def mark : PatOp → Str
  | same => []
  | diff => [ch '!']
  | continueMatch => [ch '*']

/-- The octet that is written; for equality there is none. -/
def octet : PatOp → Option (BitVec 8)
  | same => none
  | op => some op.code

end PatOp

/-- A block of a pattern. -/
structure PatBlock where
  op : PatOp
  offset : ℕ
  data : List (BitVec 8)
deriving DecidableEq

namespace PatBlock

/-- `struct skw_pkt_pattern` with its octets -/
def bytes (b : PatBlock) : List (BitVec 8) :=
  [b.op.code, PAT_TYPE_ETH] ++ (le16 (BitVec.ofNat 16 b.offset) ++
    (BitVec.ofNat 8 b.data.length :: b.data))

/-- What is written of it, the length being so or missing. -/
def draft (b : PatBlock) (len : Option (BitVec 8)) : List (Option (BitVec 8)) :=
  [b.op.octet, some PAT_TYPE_ETH] ++ ((le16 (BitVec.ofNat 16 b.offset)).map some ++
    (len :: b.data.map some))

def whole (b : PatBlock) : List (Option (BitVec 8)) := b.draft (some (BitVec.ofNat 8 b.data.length))

end PatBlock

/-! What the loops read -/

/-- Where the octets of a block end. -/
inductive OctetsEnd
  | refused (err : ℤ)
  | comma
  | hash (rest : Str)
  | finish
deriving DecidableEq

/-- Octets of which the rule takes less than `room`. -/
def scanOctets (room : ℕ) : Str → List (BitVec 8) × OctetsEnd
  | [] => ([], .finish)
  | [_] => ([], .refused (- EINVAL))
  | h :: l :: hex =>
    if isDigit 16 h && isDigit 16 l then
      if room ≤ 1 then ([hexOctet h l], .refused (- ERANGE))
      else match hex with
        | [] => ([hexOctet h l], .finish)
        | c :: t =>
          if c = ch ',' then ([hexOctet h l], .comma)
          else if c = ch '#' then ([hexOctet h l], .hash t)
          else if c = ch ':' then
            let (data, stop) := scanOctets (room - 1) t
            (hexOctet h l :: data, stop)
          else ([hexOctet h l], .refused (- EINVAL))
    else ([], .refused (- EINVAL))

def scanOp : Str → PatOp × Str
  | [] => (.same, [])
  | c :: t =>
    if c = ch '!' then (.diff, t) else if c = ch '*' then (.continueMatch, t) else (.same, c :: t)

/-- The blocks that are read, one at which the text is refused, and the error; whether the last
block goes up to the end of the text. -/
structure Reading where
  blocks : List PatBlock
  part : Option PatBlock
  err : Option ℤ
  atEnd : Bool
deriving DecidableEq

def Reading.refused (err : ℤ) : Reading := ⟨[], none, some err, false⟩

/-- The block that the start of a text is read as, and where its octets end. -/
def scanBlock (n : ℕ) (offset : BitVec 32) (hex : Str) : PatBlock × OctetsEnd :=
  let (op, hex) := scanOp ((strchr (ch '+') hex).getD [])
  let (data, stop) := scanOctets (wowRuleSize - (n + pktPatternSize)) hex
  (⟨op, (offset.setWidth 16).toNat, data⟩, stop)

/-- How a reading goes on behind a block. -/
def Reading.behind (b : PatBlock) (more : Str → Reading) : OctetsEnd → Reading
  | .refused e => ⟨[], some b, some e, false⟩
  | .comma => ⟨[b], none, none, false⟩
  | .finish => ⟨[b], none, none, true⟩
  | .hash rest => { more rest with blocks := b :: (more rest).blocks }

/-- The blocks of a text, of which the rule holds `n` octets already. -/
def scanBlocks : ℕ → ℕ → Str → Reading
  | 0, _, _ => .refused (- EINVAL)
  | fuel + 1, n, hex =>
    if hex = [] then ⟨[], none, none, false⟩
    else match scanOffset hex with
      | none => .refused (- EINVAL)
      | some offset =>
        if ETH_DATA_LEN < offset.toInt then .refused (- EINVAL)
        else if wowRuleSize ≤ n + pktPatternSize then .refused (- ERANGE)
        else
          let (block, stop) := scanBlock n offset hex
          .behind block (scanBlocks fuel (n + pktPatternSize + block.data.length)) stop

/-- What is written of a text. -/
def Reading.draft (r : Reading) : List (Option (BitVec 8)) :=
  r.blocks.flatMap PatBlock.whole ++ (r.part.elim [] fun b => b.draft none)

def Reading.result (r : Reading) (len : ℕ) : Except ℤ ℕ :=
  match r.err with
  | none => .ok len
  | some e => .error e

theorem scanOctets_refused {room : ℕ} {hex : Str} {e : ℤ}
    (h : (scanOctets room hex).2 = .refused e) : e ≠ 0 := by
  fun_induction scanOctets room hex with
  | case1 => cases h
  | case2 =>
    cases h
    decide
  | case3 =>
    cases h
    decide
  | case4 => cases h
  | case5 => cases h
  | case6 => cases h
  | case7 _ _ _ _ _ _ _ _ hread _ _ ih =>
    rw [hread] at ih
    exact ih h
  | case8 =>
    cases h
    decide
  | case9 =>
    cases h
    decide

/-- An error is a number, and a text that is refused has no last block. -/
theorem scanBlocks_refused {fuel n : ℕ} {hex : Str} {e : ℤ}
    (h : (scanBlocks fuel n hex).err = some e) :
    e ≠ 0 ∧ (scanBlocks fuel n hex).atEnd = false := by
  have hinval : - EINVAL ≠ 0 := by decide
  have hrange : - ERANGE ≠ 0 := by decide
  induction fuel generalizing n hex with
  | zero => exact ⟨fun he => hinval (Option.some.inj (h.trans (congrArg some he))), rfl⟩
  | succ fuel ih =>
    by_cases hnil : hex = []
    · rw [scanBlocks, if_pos hnil] at h
      cases h
    rw [scanBlocks, if_neg hnil] at h ⊢
    cases hoffset : scanOffset hex with
    | none =>
      rw [hoffset] at h
      exact ⟨fun he => hinval (Option.some.inj (h.trans (congrArg some he))), rfl⟩
    | some offset =>
      rw [hoffset] at h
      simp only at h ⊢
      split_ifs at h ⊢ with hmax hroom
      · exact ⟨fun he => hinval (Option.some.inj (h.trans (congrArg some he))), rfl⟩
      · exact ⟨fun he => hrange (Option.some.inj (h.trans (congrArg some he))), rfl⟩
      · rcases hblock : scanBlock n offset hex with ⟨b, stop⟩
        rw [hblock] at h
        cases stop with
        | refused e' =>
          obtain rfl : e' = e := Option.some.inj h
          exact ⟨scanOctets_refused (congrArg Prod.snd hblock), rfl⟩
        | comma => cases h
        | finish => cases h
        | hash rest => exact ih h

section
variable {rule : RuleBuf} {val pos n room total fuel : ℕ} {hex t rest : Str}
  {A C data old : List (BitVec 8)} {stop : OctetsEnd} {offset : BitVec 32}

theorem strchr_length {c : BitVec 8} (h : strchr c hex = some t) : t.length < hex.length := by
  induction hex with
  | nil => cases h
  | cons b s ih =>
    rw [strchr] at h
    split_ifs at h with hb
    · rw [← Option.some.inj h]
      exact Nat.lt_succ_self _
    · exact Nat.lt_succ_of_lt (ih h)

/-- How a loop over octets ends for the place where they end. -/
def StopsAt (total : ℕ) (stop : OctetsEnd) (read : Except ℤ (ℕ × ℕ × Str)) (pos n : ℕ) : Prop :=
  match stop with
  | .refused e => read = .error e
  | .comma => ∃ hex, read = .ok (pos, n, hex) ∧ hexAt total hex 2 = some (ch ',')
  | .hash rest => ∃ hex, read = .ok (pos, n, hex) ∧ hexAt total hex 2 = some (ch '#') ∧
      strchr (ch '#') hex = some rest
  | .finish => read = .ok (pos, n, [])

/-- What the loop over the octets does with those that are read: they go behind what the rule
holds. -/
structure OctetsRun (total val pos n : ℕ) (rule : RuleBuf) (A C : List (BitVec 8)) (hex : Str)
    (data : List (BitVec 8)) (stop : OctetsEnd) : Prop where
  runs : ∃ rule' read, wowOctets rule val pos n hex = some (rule', read) ∧
    rule'.cells = A ++ (data ++ C.drop data.length) ∧
    StopsAt total stop read (pos + data.length) (n + data.length)
  room : n + data.length ≤ wowRuleSize
  room_lt : (∀ e, stop ≠ .refused e) → n + data.length < wowRuleSize
  rest_lt : ∀ rest, stop = .hash rest → rest.length < hex.length

theorem octetsRun_nil (hcells : rule.cells = A ++ C) (hlt : n < wowRuleSize) :
    OctetsRun total val pos n rule A C [] [] .finish where
  runs := ⟨rule, _, rfl, hcells, rfl⟩
  room := hlt.le
  room_lt _ := hlt
  rest_lt _ h := by cases h

theorem octetsRun_refused (hcells : rule.cells = A ++ C) (hlt : n < wowRuleSize)
    (hrun : wowOctets rule val pos n hex = some (rule, .error (- EINVAL))) :
    OctetsRun total val pos n rule A C hex [] (.refused (- EINVAL)) where
  runs := ⟨rule, _, hrun, hcells, rfl⟩
  room := hlt.le
  room_lt h := absurd rfl (h _)
  rest_lt _ h := by cases h

/-- The loop ends behind an octet that is written. -/
theorem octetsRun_one {rule' : RuleBuf} {read : Except ℤ (ℕ × ℕ × Str)} {b : BitVec 8}
    (hcells : rule'.cells = A ++ ([b] ++ C.drop 1)) (hlt : n < wowRuleSize)
    (hrun : wowOctets rule val pos n hex = some (rule', read))
    (hends : StopsAt total stop read (pos + 1) (n + 1))
    (hroom : (∀ e, stop ≠ .refused e) → n + 1 < wowRuleSize)
    (hrest : ∀ rest, stop = .hash rest → rest.length < hex.length) :
    OctetsRun total val pos n rule A C hex [b] stop where
  runs := ⟨rule', read, hrun, hcells, hends⟩
  room := hlt
  room_lt := hroom
  rest_lt := hrest

/-- The loop goes on behind an octet. -/
theorem octetsRun_cons {rule' : RuleBuf} {b : BitVec 8}
    (hrun : wowOctets rule val pos n hex = wowOctets rule' val (pos + 1) (n + 1) t)
    (hnext : OctetsRun total val (pos + 1) (n + 1) rule' (A ++ [b]) (C.drop 1) t data stop)
    (hlt : t.length < hex.length) : OctetsRun total val pos n rule A C hex (b :: data) stop where
  runs := by
    obtain ⟨rule'', read, hread, hcells, hends⟩ := hnext.runs
    refine ⟨rule'', read, hrun.trans hread, ?_, ?_⟩
    · rw [hcells, List.append_assoc, List.drop_drop, List.length_cons, Nat.add_comm 1]
      rfl
    · rwa [List.length_cons, Nat.add_comm data.length, ← Nat.add_assoc, ← Nat.add_assoc]
  room := by
    have := hnext.room
    rw [List.length_cons]
    omega
  room_lt h := by
    have := hnext.room_lt h
    rw [List.length_cons]
    omega
  rest_lt rest h := (hnext.rest_lt rest h).trans hlt

/-- What is behind the place `val` of a rule. -/
theorem length_behind (hcells : rule.cells = A ++ C) (hA : A.length = val) :
    val + C.length = wowRuleSize := by
  rw [← hA, ← List.length_append, ← hcells, rule.length_cells]

theorem hexAt_of_le {hex : Str} (hle : hex.length ≤ total) (htotal : total < SKW_IW_WOW_BUF_SIZE)
    (hlen : 2 ≤ hex.length) : hexAt total hex 2 = some (hex.getD 2 0) :=
  if_pos (by omega)

theorem ne_of_isDigit {c d : BitVec 8} (hc : isDigit 16 c = true) (hd : isDigit 16 d = false) :
    c ≠ d := by
  rintro rfl
  rw [hc] at hd
  contradiction

/-- One octet is written, unless there is no room, and what follows it tells how to go on. -/
theorem wowOctets_digits (n : ℕ) (hex : Str) {h l : BitVec 8} {rule' : RuleBuf}
    (hdigits : (isDigit 16 h && isDigit 16 l) = true)
    (hw : rule.write (val + pos) [hexOctet h l] = some rule') :
    wowOctets rule val pos n (h :: l :: hex) =
      if wowRuleSize ≤ n + 1 then some (rule', .error (- ERANGE))
      else match hex with
        | [] => some (rule', .ok (pos + 1, n + 1, []))
        | c :: t =>
          if c = ch ',' ∨ c = ch '#' then some (rule', .ok (pos + 1, n + 1, h :: l :: c :: t))
          else if c = ch ':' then wowOctets rule' val (pos + 1) (n + 1) t
          else some (rule', .error (- EINVAL)) := by
  rw [wowOctets, if_pos hdigits, hw]
  rfl

/-- The run from an octet on that a mark follows. -/
theorem octetsRun_mark {h l c : BitVec 8} {rule' : RuleBuf}
    (hboth : isDigit 16 h = true ∧ isDigit 16 l = true)
    (hcells : rule'.cells = A ++ ([hexOctet h l] ++ C.drop 1)) (hfits : n + 1 < wowRuleSize)
    (hat : hexAt total (h :: l :: c :: t) 2 = some c)
    (hrun : wowOctets rule val pos n (h :: l :: c :: t) =
      if c = ch ',' ∨ c = ch '#' then some (rule', .ok (pos + 1, n + 1, h :: l :: c :: t))
      else if c = ch ':' then wowOctets rule' val (pos + 1) (n + 1) t
      else some (rule', .error (- EINVAL)))
    (hscan : (if c = ch ',' then ([hexOctet h l], OctetsEnd.comma)
      else if c = ch '#' then ([hexOctet h l], .hash t)
      else if c = ch ':' then (hexOctet h l :: (scanOctets (wowRuleSize - n - 1) t).1,
        (scanOctets (wowRuleSize - n - 1) t).2)
      else ([hexOctet h l], .refused (- EINVAL))) = (data, stop))
    (hmore : ∀ data', scanOctets (wowRuleSize - n - 1) t = (data', stop) →
      OctetsRun total val (pos + 1) (n + 1) rule' (A ++ [hexOctet h l]) (C.drop 1) t data' stop) :
    OctetsRun total val pos n rule A C (h :: l :: c :: t) data stop := by
  have hlt : n < wowRuleSize := (Nat.lt_succ_self n).trans hfits
  by_cases hcomma : c = ch ','
  · rw [if_pos hcomma, Prod.mk.injEq] at hscan
    rw [if_pos (Or.inl hcomma)] at hrun
    rw [← hscan.1, ← hscan.2]
    refine octetsRun_one hcells hlt hrun ⟨_, rfl, ?_⟩ (fun _ => hfits) (by simp)
    rw [hat, hcomma]
  by_cases hhash : c = ch '#'
  · rw [if_neg hcomma, if_pos hhash, Prod.mk.injEq] at hscan
    rw [if_pos (Or.inr hhash)] at hrun
    rw [← hscan.1, ← hscan.2]
    refine octetsRun_one hcells hlt hrun ⟨_, rfl, ?_, ?_⟩ (fun _ => hfits) ?_
    · rw [hat, hhash]
    · rw [strchr, if_neg (ne_of_isDigit hboth.1 (by decide)), strchr,
        if_neg (ne_of_isDigit hboth.2 (by decide)), strchr, if_pos hhash]
    · intro rest hrest
      cases hrest
      simp only [List.length_cons]
      omega
  rw [if_neg hcomma, if_neg hhash] at hscan
  rw [if_neg (not_or.mpr ⟨hcomma, hhash⟩)] at hrun
  by_cases hcolon : c = ch ':'
  · rw [if_pos hcolon, Prod.mk.injEq] at hscan
    rw [if_pos hcolon] at hrun
    rw [← hscan.1]
    have hnext := hmore (scanOctets (wowRuleSize - n - 1) t).1 (by rw [← hscan.2])
    exact octetsRun_cons hrun hnext (by simp only [List.length_cons]; omega)
  · rw [if_neg hcolon, Prod.mk.injEq] at hscan
    rw [if_neg hcolon] at hrun
    rw [← hscan.1, ← hscan.2]
    exact octetsRun_one hcells hlt hrun rfl (fun h => absurd rfl (h _)) (by simp)

/-- The loop over the octets does with a text what is read of it. -/
theorem octetsRun (hex : Str) (hA : A.length = val + pos) (hcells : rule.cells = A ++ C)
    (hn : n = val + pos) (hlt : n < wowRuleSize) (hle : hex.length ≤ total)
    (htotal : total < SKW_IW_WOW_BUF_SIZE)
    (hscan : scanOctets (wowRuleSize - n) hex = (data, stop)) :
    OctetsRun total val pos n rule A C hex data stop := by
  induction h : hex.length using Nat.strong_induction_on generalizing hex rule pos n A C data with
  | _ k ih =>
    rcases hex with _ | ⟨h₁, _ | ⟨l, hex⟩⟩
    · rw [scanOctets, Prod.mk.injEq] at hscan
      rw [← hscan.1, ← hscan.2]
      exact octetsRun_nil hcells hlt
    · rw [scanOctets, Prod.mk.injEq] at hscan
      rw [← hscan.1, ← hscan.2]
      exact octetsRun_refused hcells hlt rfl
    rw [scanOctets.eq_def] at hscan
    by_cases hdigits : (isDigit 16 h₁ && isDigit 16 l) = true
    · have hC : 1 ≤ C.length := by
        have hlen := length_behind hcells hA
        omega
      obtain ⟨rule₁, hw, hcells₁⟩ := Fixed.write_behind (v := [hexOctet h₁ l]) (i := val + pos)
        hcells hA hC
      have hrun := wowOctets_digits n hex hdigits hw
      simp only [if_pos hdigits] at hscan
      by_cases hroom : wowRuleSize ≤ n + 1
      · rw [if_pos (by omega), Prod.mk.injEq] at hscan
        rw [if_pos hroom] at hrun
        rw [← hscan.1, ← hscan.2]
        exact octetsRun_one hcells₁ hlt hrun rfl (fun h => absurd rfl (h _)) (by simp)
      rw [if_neg (by omega)] at hscan
      rw [if_neg hroom] at hrun
      have hfits : n + 1 < wowRuleSize := not_le.mp hroom
      cases hex with
      | nil =>
        simp only [Prod.mk.injEq] at hscan
        rw [← hscan.1, ← hscan.2]
        exact octetsRun_one hcells₁ hlt hrun rfl (fun _ => hfits) (by simp)
      | cons c t =>
        have hat : hexAt total (h₁ :: l :: c :: t) 2 = some c := hexAt_of_le hle htotal (by simp)
        refine octetsRun_mark (Bool.and_eq_true_iff.mp hdigits) hcells₁ hfits hat hrun hscan ?_
        intro data' hmore
        have hA₁ : (A ++ [hexOctet h₁ l]).length = val + (pos + 1) := by
          rw [List.length_append, hA, List.length_singleton, Nat.add_assoc]
        have hcells₂ : rule₁.cells = A ++ [hexOctet h₁ l] ++ C.drop 1 := by
          rw [hcells₁, List.append_assoc]
          rfl
        simp only [List.length_cons] at hle h
        rw [Nat.sub_sub] at hmore
        exact ih t.length (by omega) t hA₁ hcells₂ (by omega) hfits (by omega) hmore rfl
    · simp only [if_neg hdigits, Prod.mk.injEq] at hscan
      rw [← hscan.1, ← hscan.2]
      exact octetsRun_refused hcells hlt (by rw [wowOctets, if_neg hdigits])

/-- The operator is written at the head of a block, or what was there stays. -/
theorem exists_wowOp (hex : Str) {x : BitVec 8} (hcells : rule.cells = A ++ (x :: C))
    (hA : A.length = val) : ∃ rule', wowOp rule val hex = some (rule', (scanOp hex).2) ∧
      rule'.cells = A ++ ((scanOp hex).1.octet.getD x :: C) := by
  have hwrite : ∀ y, ∃ c, rule.write val [y] = some c ∧ c.cells = A ++ ([y] ++ C) :=
    fun y => Fixed.write_at (t := [x]) hcells hA rfl
  cases hex with
  | nil => exact ⟨rule, rfl, hcells⟩
  | cons c t =>
    by_cases hdiff : c = ch '!'
    · obtain ⟨r, hr, hc⟩ := hwrite PAT_OP_TYPE_DIFF
      refine ⟨r, ?_, ?_⟩
      · simp only [wowOp, scanOp, if_pos hdiff, hr, Option.map_some]
      · simp only [scanOp, if_pos hdiff]
        exact hc
    · by_cases hcont : c = ch '*'
      · obtain ⟨r, hr, hc⟩ := hwrite PAT_OP_TYPE_CONTINUE_MATCH
        refine ⟨r, ?_, ?_⟩
        · simp only [wowOp, scanOp, if_neg hdiff, if_pos hcont, hr, Option.map_some]
        · simp only [scanOp, if_neg hdiff, if_pos hcont]
          exact hc
      · refine ⟨rule, ?_, ?_⟩
        · simp only [wowOp, scanOp, if_neg hdiff, if_neg hcont]
        · simp only [scanOp, if_neg hdiff, if_neg hcont]
          exact hcells

theorem length_scanOp_le (hex : Str) : (scanOp hex).2.length ≤ hex.length := by
  cases hex with
  | nil => exact le_rfl
  | cons c t =>
    rw [scanOp]
    split_ifs
    · exact Nat.le_succ _
    · exact Nat.le_succ _
    · exact le_rfl

/-- The type and the offset of a block. -/
theorem exists_blockHead {x₀ x₁ x₂ x₃ : BitVec 8} (y : BitVec 16)
    (hcells : rule.cells = A ++ (x₀ :: x₁ :: x₂ :: x₃ :: C)) (hA : A.length = val) :
    ∃ r₁ r₂, rule.write (val + 1) [PAT_TYPE_ETH] = some r₁ ∧ r₁.write (val + 2) (le16 y) = some r₂ ∧
      r₂.cells = A ++ (x₀ :: PAT_TYPE_ETH :: (le16 y ++ C)) := by
  obtain ⟨r₁, h₁, c₁⟩ := Fixed.write_at (b := rule) (s := A ++ [x₀]) (t := [x₁])
    (u := x₂ :: x₃ :: C) (v := [PAT_TYPE_ETH]) (i := val + 1)
    (by rw [hcells, List.append_assoc]; rfl) (by rw [List.length_append, hA]; rfl) rfl
  obtain ⟨r₂, h₂, c₂⟩ := Fixed.write_at (b := r₁) (s := A ++ [x₀, PAT_TYPE_ETH]) (t := [x₂, x₃])
    (u := C) (v := le16 y) (i := val + 2)
    (by rw [c₁, List.append_assoc, List.append_assoc]; rfl)
    (by rw [List.length_append, hA]; rfl) rfl
  exact ⟨r₁, r₂, h₁, h₂, by rw [c₂, List.append_assoc]; rfl⟩

theorem mem_of_expect {first : Str} {c : BitVec 8} (h : expect (c :: first) hex = some t) :
    c ∈ hex := by
  unfold expect at h
  split_ifs at h with hp
  exact (List.isPrefixOf_iff_prefix.mp hp).subset List.mem_cons_self

theorem parseInteger_suffix (base : ℕ) (acc : BitVec 64) (s : Str) :
    (parseInteger base acc s).2 <:+ s := by
  induction s generalizing acc with
  | nil => exact List.suffix_refl _
  | cons c s ih =>
    rw [parseInteger]
    cases digitVal c with
    | none => exact List.suffix_refl _
    | some d =>
      dsimp only
      split_ifs
      · exact (ih _).trans (List.suffix_cons _ _)
      · exact List.suffix_refl _

theorem scanInt_suffix {v : BitVec 32} (h : scanInt hex = some (v, t)) : t <:+ hex := by
  have hspace : hex.dropWhile isspace <:+ hex := List.dropWhile_suffix isspace
  simp only [scanInt] at h
  split_ifs at h with hneg hdigit hdigit
  · simp only [Option.some.injEq, Prod.mk.injEq] at h
    rw [← h.2]
    exact ((parseInteger_suffix _ _ _).trans (List.tail_suffix _)).trans hspace
  · simp only [Option.some.injEq, Prod.mk.injEq] at h
    rw [← h.2]
    exact (parseInteger_suffix _ _ _).trans hspace

theorem strchr_of_mem {c : BitVec 8} (h : c ∈ hex) : ∃ t, strchr c hex = some t := by
  induction hex with
  | nil => cases h
  | cons b s ih =>
    rw [strchr]
    split_ifs with hb
    · exact ⟨s, rfl⟩
    · exact ih ((List.mem_cons.mp h).resolve_left (Ne.symm hb))

/-- Behind an offset there is a `+`. -/
theorem exists_strchr_of_scanOffset {v : BitVec 32} (h : scanOffset hex = some v) :
    ∃ t, strchr (ch '+') hex = some t := by
  have hform : ∀ mark, scanForm mark hex = some v → ch '+' ∈ hex := by
    intro mark hm
    simp only [scanForm, Option.bind_eq_bind, Option.bind_eq_some_iff] at hm
    obtain ⟨⟨offset, rest⟩, hint, behind, hexpect, -⟩ := hm
    exact (scanInt_suffix hint).subset (mem_of_expect hexpect)
  have hmem : ch '+' ∈ hex := by
    rw [scanOffset] at h
    cases h₁ : scanForm [] hex with
    | some w =>
      rw [h₁] at h
      exact hform _ (h₁.trans h)
    | none =>
      cases h₂ : scanForm [ch '!'] hex with
      | some w =>
        rw [h₁, h₂] at h
        exact hform _ (h₂.trans h)
      | none =>
        rw [h₁, h₂] at h
        exact hform _ h
  exact strchr_of_mem hmem

theorem overlay_draft (b : PatBlock) (len : Option (BitVec 8)) {x₀ x₁ x₂ x₃ x₄ : BitVec 8}
    (h : b.data.length ≤ C.length) :
    overlay (b.draft len) (x₀ :: x₁ :: x₂ :: x₃ :: x₄ :: C) =
      b.op.octet.getD x₀ :: PAT_TYPE_ETH :: (le16 (BitVec.ofNat 16 b.offset) ++
        (len.getD x₄ :: b.data)) := by
  have hdata : overlay (b.data.map some) C = b.data := Lib.overlay_map_some h
  simp only [PatBlock.draft, le16, List.map_cons, List.map_nil, List.cons_append, List.nil_append,
    overlay, hdata, Option.getD_some]

@[simp] theorem length_draft (b : PatBlock) (len : Option (BitVec 8)) :
    (b.draft len).length = pktPatternSize + b.data.length := by
  simp only [PatBlock.draft, List.length_append, List.length_cons, List.length_nil,
    List.length_map, length_le16, pktPatternSize]
  omega

theorem exists_five {l : List (BitVec 8)} (h : pktPatternSize ≤ l.length) :
    ∃ x₀ x₁ x₂ x₃ x₄ C, l = x₀ :: x₁ :: x₂ :: x₃ :: x₄ :: C := by
  match l, h with
  | x₀ :: x₁ :: x₂ :: x₃ :: x₄ :: C, _ => exact ⟨x₀, x₁, x₂, x₃, x₄, C, rfl⟩

/-- What follows the octets of a block. -/
def wowBlockEnd (total fuel ptn : ℕ) (rule : RuleBuf) :
    Except ℤ (ℕ × ℕ × Str) → Option (RuleBuf × Except ℤ ℕ)
  | .error e => some (rule, .error e)
  | .ok (pos, resultLen, hex) => do
    let rule ← rule.write (ptn + 4) [BitVec.ofNat 8 pos]
    let c ← hexAt total hex 2
    if c = ch ',' then some (rule, .ok resultLen)
    else
      let hex ← (if c = ch '#' then strchr (ch '#') hex else some hex)
      wowBlocks total fuel rule (ptn + pktPatternSize + pos) resultLen hex

/-- What the loop over the blocks does with one up to the end of its octets: they go behind what the
rule holds. -/
structure BlockRun (total fuel val : ℕ) (rule : RuleBuf) (A O : List (BitVec 8)) (hex : Str)
    (b : PatBlock) (stop : OctetsEnd) : Prop where
  runs : ∃ rule' read, wowBlocks total (fuel + 1) rule val val hex =
      wowBlockEnd total fuel val rule' read ∧
    rule'.cells = A ++ (overlay (b.draft none) O ++ O.drop (b.draft none).length) ∧
    StopsAt total stop read b.data.length (val + pktPatternSize + b.data.length)
  room : val + pktPatternSize + b.data.length ≤ wowRuleSize
  room_lt : (∀ e, stop ≠ .refused e) → val + pktPatternSize + b.data.length < wowRuleSize
  rest_lt : ∀ rest, stop = .hash rest → rest.length < hex.length

theorem blockRun {O : List (BitVec 8)} {b : PatBlock} (fuel : ℕ)
    (hoffset : scanOffset hex = some offset) (hmax : offset.toInt ≤ ETH_DATA_LEN)
    (hroom : val + pktPatternSize < wowRuleSize) (hcells : rule.cells = A ++ O)
    (hA : A.length = val) (hle : hex.length ≤ total) (htotal : total < SKW_IW_WOW_BUF_SIZE)
    (hblock : scanBlock val offset hex = (b, stop)) :
    BlockRun total fuel val rule A O hex b stop := by
  obtain ⟨behind, hplus⟩ := exists_strchr_of_scanOffset hoffset
  have hbehind := strchr_length hplus
  have hO := length_behind hcells hA
  obtain ⟨x₀, x₁, x₂, x₃, x₄, C, rfl⟩ := exists_five (l := O) (by omega)
  obtain ⟨r₁, r₂, hw₁, hw₂, hcells₂⟩ := exists_blockHead (offset.setWidth 16) hcells hA
  obtain ⟨r₃, hw₃, hcells₃⟩ := exists_wowOp behind hcells₂ hA
  have hop := length_scanOp_le behind
  simp only [scanBlock, hplus, Option.getD_some, Prod.mk.injEq] at hblock
  obtain ⟨rfl, hstop⟩ := hblock
  have hocts : OctetsRun total (val + pktPatternSize) 0 (val + pktPatternSize) r₃
      (A ++ (scanOp behind).1.octet.getD x₀ :: PAT_TYPE_ETH ::
        (le16 (offset.setWidth 16) ++ [x₄])) C (scanOp behind).2
      (scanOctets (wowRuleSize - (val + pktPatternSize)) (scanOp behind).2).1 stop :=
    octetsRun _ (by rw [List.length_append, hA]; rfl) (by rw [hcells₃, List.append_assoc]; rfl)
      rfl hroom (by omega) htotal (by rw [← hstop])
  have hdata := hocts.room
  refine ⟨?_, hdata, hocts.room_lt, fun rest h => (hocts.rest_lt rest h).trans ?_⟩
  · obtain ⟨r₄, read, hread, hcells₄, hends⟩ := hocts.runs
    refine ⟨r₄, read, ?_, ?_, ?_⟩
    · have hne : hex ≠ [] := by
        rintro rfl
        cases hplus
      rw [wowBlocks, if_neg hne]
      simp only [hoffset]
      rw [if_neg (not_lt.mpr hmax), if_neg (not_le.mpr hroom), hw₁, Option.bind_eq_bind,
        Option.bind_some, hw₂, Option.bind_eq_bind, Option.bind_some, hplus, Option.bind_eq_bind,
        Option.bind_some, hw₃, Option.bind_eq_bind, Option.bind_some]
      dsimp only
      rw [hread]
      cases read with
      | error e => rfl
      | ok v => rfl
    · have hword : BitVec.ofNat 16 (offset.setWidth 16).toNat = offset.setWidth 16 :=
        BitVec.eq_of_toNat_eq (by rw [BitVec.toNat_ofNat, Nat.mod_eq_of_lt (BitVec.isLt _)])
      have hC : (scanOctets (wowRuleSize - (val + pktPatternSize)) (scanOp behind).2).1.length ≤
          C.length := by
        simp only [List.length_cons] at hO
        have hfive : pktPatternSize = 5 := rfl
        omega
      rw [hcells₄, overlay_draft _ _ hC, length_draft, Nat.add_comm pktPatternSize, hword,
        List.append_assoc]
      rfl
    · rw [Nat.zero_add] at hends
      exact hends
  · omega

@[simp] theorem length_whole (b : PatBlock) : b.whole.length = pktPatternSize + b.data.length :=
  length_draft b _

/-- The length of a block is written where it is missing. -/
theorem exists_blockLen {O : List (BitVec 8)} {b : PatBlock}
    (hcells : rule.cells = A ++ (overlay (b.draft none) O ++ O.drop (b.draft none).length))
    (hA : A.length = val) (hO : (b.draft none).length ≤ O.length) :
    ∃ rule', rule.write (val + 4) [BitVec.ofNat 8 b.data.length] = some rule' ∧
      rule'.cells = A ++ (overlay b.whole O ++ O.drop b.whole.length) := by
  rw [length_draft] at hO
  obtain ⟨x₀, x₁, x₂, x₃, x₄, C, rfl⟩ := exists_five (l := O) (by omega)
  have hC : b.data.length ≤ C.length := by
    have hfive : pktPatternSize = 5 := rfl
    simp only [List.length_cons] at hO
    omega
  rw [overlay_draft _ _ hC, length_draft] at hcells
  obtain ⟨rule', hw, hcells'⟩ := Fixed.write_at (b := rule) (i := val + 4)
    (s := A ++ b.op.octet.getD x₀ :: PAT_TYPE_ETH :: le16 (BitVec.ofNat 16 b.offset)) (t := [x₄])
    (u := b.data ++ (x₀ :: x₁ :: x₂ :: x₃ :: x₄ :: C).drop (pktPatternSize + b.data.length))
    (v := [BitVec.ofNat 8 b.data.length]) (by rw [hcells, List.append_assoc]; rfl)
    (by rw [List.length_append, hA]; rfl) rfl
  refine ⟨rule', hw, ?_⟩
  rw [hcells', PatBlock.whole, overlay_draft _ _ hC, length_draft, List.append_assoc]
  rfl

/-- What the loop over the blocks does with those that are read: what is written of them goes over
what the rule holds. -/
structure BlocksRun (total fuel val : ℕ) (rule : RuleBuf) (A O : List (BitVec 8)) (hex : Str)
    (r : Reading) : Prop where
  room : val + r.draft.length ≤ wowRuleSize
  overrun : r.atEnd = true → SKW_IW_WOW_BUF_SIZE ≤ total + 2 →
    wowBlocks total fuel rule val val hex = none
  runs : (r.atEnd = true → total + 2 < SKW_IW_WOW_BUF_SIZE) → ∃ rule',
    wowBlocks total fuel rule val val hex = some (rule', r.result (val + r.draft.length)) ∧
      rule'.cells = A ++ (overlay r.draft O ++ O.drop r.draft.length)

theorem blocksRun_refused {O : List (BitVec 8)} {e : ℤ} (hcells : rule.cells = A ++ O)
    (hlt : val < wowRuleSize)
    (hrun : wowBlocks total fuel rule val val hex = some (rule, .error e)) :
    BlocksRun total fuel val rule A O hex (.refused e) where
  room := hlt.le
  overrun h := by cases h
  runs _ := ⟨rule, hrun, hcells⟩

theorem StopsAt.exists_ok {read : Except ℤ (ℕ × ℕ × Str)} (h : StopsAt total stop read pos n)
    (hstop : ∀ e, stop ≠ .refused e) : ∃ hex, read = .ok (pos, n, hex) := by
  cases stop with
  | refused e => exact absurd rfl (hstop e)
  | comma => exact h.imp fun _ hread => hread.1
  | hash rest => exact h.imp fun _ hread => hread.1
  | finish => exact ⟨[], h⟩

/-- A block that is read up to the end of its octets is written as a whole. -/
theorem BlockRun.exists_whole {O : List (BitVec 8)} {b : PatBlock}
    (hrun : BlockRun total fuel val rule A O hex b stop) (hstop : ∀ e, stop ≠ .refused e)
    (hcells : rule.cells = A ++ O) (hA : A.length = val) : ∃ rule' hex',
      rule'.cells = A ++ (overlay b.whole O ++ O.drop b.whole.length) ∧
      StopsAt total stop (.ok (b.data.length, val + b.whole.length, hex')) b.data.length
        (val + b.whole.length) ∧
      wowBlocks total (fuel + 1) rule val val hex = (hexAt total hex' 2).bind fun c =>
        if c = ch ',' then some (rule', .ok (val + b.whole.length))
        else (if c = ch '#' then strchr (ch '#') hex' else some hex').bind fun hex =>
          wowBlocks total fuel rule' (val + b.whole.length) (val + b.whole.length) hex := by
  have hroom := hrun.room
  have hO := length_behind hcells hA
  obtain ⟨r₁, read, hblock, hcells₁, hends⟩ := hrun.runs
  obtain ⟨hex', rfl⟩ := hends.exists_ok hstop
  obtain ⟨r₂, hw, hcells₂⟩ := exists_blockLen hcells₁ hA (by rw [length_draft]; omega)
  rw [Nat.add_assoc, ← length_whole] at hends
  refine ⟨r₂, hex', hcells₂, hends, ?_⟩
  rw [hblock, wowBlockEnd, hw, Nat.add_assoc, ← length_whole]
  rfl

/-- The text is refused within a block. -/
theorem blocksRun_part {O : List (BitVec 8)} {b : PatBlock} {e : ℤ}
    (hrun : BlockRun total fuel val rule A O hex b (.refused e)) :
    BlocksRun total (fuel + 1) val rule A O hex ⟨[], some b, some e, false⟩ where
  room := by
    have hroom := hrun.room
    simp only [Reading.draft, List.flatMap_nil, List.nil_append, Option.elim_some, length_draft]
    omega
  overrun h := by cases h
  runs _ := by
    obtain ⟨rule', read, hblock, hcells, hends⟩ := hrun.runs
    refine ⟨rule', ?_, hcells⟩
    rw [hblock, hends]
    rfl

theorem draft_single (b : PatBlock) (atEnd : Bool) :
    (⟨[b], none, none, atEnd⟩ : Reading).draft = b.whole := by
  simp only [Reading.draft, List.flatMap_cons, List.flatMap_nil, List.append_nil, Option.elim_none]

theorem draft_cons (b : PatBlock) (r : Reading) :
    ({ r with blocks := b :: r.blocks } : Reading).draft = b.whole ++ r.draft := by
  simp only [Reading.draft, List.flatMap_cons, List.append_assoc]

/-- The pattern ends at a comma behind a block. -/
theorem blocksRun_comma {O : List (BitVec 8)} {b : PatBlock}
    (hrun : BlockRun total fuel val rule A O hex b .comma) (hcells : rule.cells = A ++ O)
    (hA : A.length = val) :
    BlocksRun total (fuel + 1) val rule A O hex ⟨[b], none, none, false⟩ where
  room := by
    have hroom := hrun.room
    rw [draft_single, length_whole]
    omega
  overrun h := by cases h
  runs _ := by
    obtain ⟨rule', hex', hcells', hends, hblock⟩ := hrun.exists_whole (fun _ h => by cases h)
      hcells hA
    obtain ⟨hex'', heq, hat⟩ := hends
    cases heq
    refine ⟨rule', ?_, ?_⟩
    · rw [hblock, hat, draft_single]
      rfl
    · rw [draft_single]
      exact hcells'

/-- Behind the last block there is no text, and the third octet from there is read. -/
theorem blocksRun_finish {O : List (BitVec 8)} {b : PatBlock}
    (hrun : BlockRun total (fuel + 1) val rule A O hex b .finish) (hcells : rule.cells = A ++ O)
    (hA : A.length = val) :
    BlocksRun total (fuel + 2) val rule A O hex ⟨[b], none, none, true⟩ := by
  have hroom := hrun.room
  obtain ⟨rule', hex', hcells', hends, hblock⟩ := hrun.exists_whole (fun _ h => by cases h)
    hcells hA
  cases hends
  refine ⟨?_, ?_, ?_⟩
  · rw [draft_single, length_whole]
    omega
  · intro _ hbeyond
    have hat : hexAt total [] 2 = none := if_neg (by simpa using hbeyond)
    rw [hblock, hat]
    rfl
  · intro hinside
    have hat : hexAt total [] 2 = some 0 := if_pos (by simpa using hinside rfl)
    refine ⟨rule', ?_, ?_⟩
    · rw [hblock, hat, draft_single]
      rfl
    · rw [draft_single]
      exact hcells'

/-- Behind a `#` the loop goes on. -/
theorem blocksRun_hash {O : List (BitVec 8)} {b : PatBlock} {r : Reading}
    (hrun : BlockRun total fuel val rule A O hex b (.hash rest)) (hcells : rule.cells = A ++ O)
    (hA : A.length = val)
    (hnext : ∀ rule' : RuleBuf,
      rule'.cells = A ++ overlay b.whole O ++ O.drop b.whole.length →
      BlocksRun total fuel (val + b.whole.length) rule' (A ++ overlay b.whole O)
        (O.drop b.whole.length) rest r) :
    BlocksRun total (fuel + 1) val rule A O hex { r with blocks := b :: r.blocks } := by
  have hroom := hrun.room
  have hO := length_behind hcells hA
  have hb : b.whole.length ≤ O.length := by
    rw [length_whole]
    omega
  obtain ⟨rule', hex', hcells', hends, hblock⟩ := hrun.exists_whole (fun _ h => by cases h)
    hcells hA
  obtain ⟨hex'', heq, hat, hbehind⟩ := hends
  cases heq
  have hruns : wowBlocks total (fuel + 1) rule val val hex =
      wowBlocks total fuel rule' (val + b.whole.length) (val + b.whole.length) rest := by
    have hne : ¬ch '#' = ch ',' := by decide
    rw [hblock, hat, Option.bind_some, if_neg hne, if_pos rfl, hbehind, Option.bind_some]
  have hgo := hnext rule' (by rw [hcells', List.append_assoc])
  refine ⟨?_, ?_, ?_⟩
  · rw [draft_cons, List.length_append, ← Nat.add_assoc]
    exact hgo.room
  · intro hend hbeyond
    rw [hruns]
    exact hgo.overrun hend hbeyond
  · intro hinside
    obtain ⟨rule'', hread, hcells''⟩ := hgo.runs hinside
    refine ⟨rule'', ?_, ?_⟩
    · rw [hruns, hread, draft_cons, List.length_append, Nat.add_assoc]
      rfl
    · rw [hcells'', draft_cons, Lib.overlay_append hb, List.length_append, List.drop_drop,
        List.append_assoc, List.append_assoc]

theorem blocksRun {O : List (BitVec 8)} (hfuel : hex.length < fuel) (hlt : val < wowRuleSize)
    (hcells : rule.cells = A ++ O) (hA : A.length = val) (hle : hex.length ≤ total)
    (htotal : total < SKW_IW_WOW_BUF_SIZE) :
    BlocksRun total fuel val rule A O hex (scanBlocks fuel val hex) := by
  induction fuel generalizing rule val A O hex with
  | zero => exact absurd hfuel (Nat.not_lt_zero _)
  | succ fuel ih =>
    by_cases hnil : hex = []
    · have hrun : wowBlocks total (fuel + 1) rule val val hex = some (rule, .ok val) := by
        rw [wowBlocks, if_pos hnil]
      rw [scanBlocks, if_pos hnil]
      exact
        { room := hlt.le
          overrun := fun h => by cases h
          runs := fun _ => ⟨rule, hrun, hcells⟩ }
    rw [scanBlocks, if_neg hnil]
    cases hoffset : scanOffset hex with
    | none =>
      have hrun : wowBlocks total (fuel + 1) rule val val hex = some (rule, .error (- EINVAL)) := by
        rw [wowBlocks, if_neg hnil, hoffset]
      exact blocksRun_refused hcells hlt hrun
    | some offset =>
      dsimp only
      by_cases hmax : ETH_DATA_LEN < offset.toInt
      · have hrun : wowBlocks total (fuel + 1) rule val val hex =
            some (rule, .error (- EINVAL)) := by
          rw [wowBlocks, if_neg hnil, hoffset]
          exact if_pos hmax
        rw [if_pos hmax]
        exact blocksRun_refused hcells hlt hrun
      by_cases hroom : wowRuleSize ≤ val + pktPatternSize
      · have hrun : wowBlocks total (fuel + 1) rule val val hex =
            some (rule, .error (- ERANGE)) := by
          rw [wowBlocks, if_neg hnil, hoffset]
          exact (if_neg hmax).trans (if_pos hroom)
        rw [if_neg hmax, if_pos hroom]
        exact blocksRun_refused hcells hlt hrun
      rw [if_neg hmax, if_neg hroom]
      rcases hblock : scanBlock val offset hex with ⟨b, stop⟩
      have hrun := blockRun fuel hoffset (not_lt.mp hmax) (not_le.mp hroom) hcells hA hle htotal
        hblock
      dsimp only
      cases stop with
      | refused e => exact blocksRun_part hrun
      | comma => exact blocksRun_comma hrun hcells hA
      | finish =>
        cases fuel with
        | zero => exact absurd (List.eq_nil_of_length_eq_zero (Nat.lt_one_iff.mp hfuel)) hnil
        | succ fuel => exact blocksRun_finish hrun hcells hA
      | hash rest =>
        have hlt' := hrun.room_lt fun _ h => by cases h
        have hrest := hrun.rest_lt rest rfl
        have hlen := length_behind hcells hA
        have hO : (overlay b.whole O).length = b.whole.length :=
          Lib.length_overlay (by rw [length_whole]; omega)
        refine blocksRun_hash hrun hcells hA fun rule' hcells' => ?_
        rw [Nat.add_assoc, ← length_whole] at hlt'
        rw [Nat.add_assoc, ← length_whole]
        exact ih (by omega) hlt' hcells' (by rw [List.length_append, hA, hO]) (by omega)

end

end Skw
