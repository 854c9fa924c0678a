import Skw.Iw.WowReading

/-! The texts of wake filters, and what becomes of the tables when one is set. -/
namespace Skw
open Lib (Fixed overlay)

/-- Octets in two digits each, with `:` between them. -/
inductive OctetsText : Str → List (BitVec 8) → Prop
  | one {h l : BitVec 8} (hh : isDigit 16 h = true) (hl : isDigit 16 l = true) :
    OctetsText [h, l] [hexOctet h l]
  | more {h l : BitVec 8} {t : Str} {data : List (BitVec 8)} (hh : isDigit 16 h = true)
    (hl : isDigit 16 l = true) (ht : OctetsText t data) :
    OctetsText (h :: l :: ch ':' :: t) (hexOctet h l :: data)

/-- An offset, the operator and octets. -/
inductive BlockText : Str → PatBlock → Prop
  | mk {digits octets : Str} {n : ℕ} {data : List (BitVec 8)} (op : PatOp) (hne : digits ≠ [])
    (hn : digitsValue 10 0 digits = some n) (ho : OctetsText octets data) :
    BlockText (digits ++ (ch '+' :: (op.mark ++ octets))) ⟨op, n, data⟩

/-- Blocks with `#` between them, up to a comma. -/
inductive PatternText : Str → List PatBlock → Prop
  | nil : PatternText [] []
  | last {t : Str} {b : PatBlock} (ht : BlockText t b) : PatternText t [b]
  | comma {t rest : Str} {b : PatBlock} (ht : BlockText t b) : PatternText (t ++ ch ',' :: rest) [b]
  | more {t p : Str} {b : PatBlock} {bs : List PatBlock} (ht : BlockText t b)
    (hp : PatternText p bs) (hne : bs ≠ []) : PatternText (t ++ ch '#' :: p) (b :: bs)

/-- A text `idx=i,pattern=P` in the buffer. -/
structure WowText where
  idx : Str
  pattern : Str
  comma : ch ',' ∉ idx
  nul : 0 ∉ idx ++ pattern
  fits : (str "idx=" ++ (idx ++ ch ',' :: (str "pattern=" ++ pattern))).length < SKW_IW_WOW_BUF_SIZE

namespace WowText

def bytes (t : WowText) : Str := str "idx=" ++ (t.idx ++ ch ',' :: (str "pattern=" ++ t.pattern))

/-- The number that the index means, and what the pattern is read as. -/
def slot (t : WowText) : Option ℕ := (kstrtou 8 0 t.idx).filter (· < SKW_MAX_WOW_RULE_NUM)

def reading (t : WowText) : Reading := scanBlocks (t.bytes.length + 1) 0 t.pattern

end WowText

/-- A rule consists of the blocks. -/
structure WowRule.Holds (r : WowRule) (bs : List PatBlock) : Prop where
  len : r.len = (bs.flatMap PatBlock.bytes).length
  cells : r.rule.cells.take r.len = bs.flatMap PatBlock.bytes
  offsets : ∀ b ∈ bs, b.offset < 2 ^ 16

/-- Every rule that was enabled is as before. -/
structure WowTables.Kept (s s' : WowTables) : Prop where
  enBitmap : s'.enBitmap = s.enBitmap
  userBitmap : s'.userBitmap = s.userBitmap
  rules : ∀ k, s.enBitmap.getLsbD k = true → s'.rules k = s.rules k
  userRules : ∀ k, s.userBitmap.getLsbD k = true → s'.userRules k = s.userRules k

/-- Slot `i` holds the blocks and is enabled, and nothing else is different. -/
structure WowTables.Added (s s' : WowTables) (i : ℕ) (bs : List PatBlock) : Prop where
  enBitmap : s'.enBitmap = s.enBitmap ||| 1#64 <<< i
  userBitmap : s'.userBitmap = s.userBitmap ||| 1#64 <<< i
  holds : (s'.rules i).Holds bs
  rules : ∀ k ≠ i, s'.rules k = s.rules k
  userRules : ∀ k ≠ i, s'.userRules k = s.userRules k

/-- The text is refused and leaves the rules alone, or its blocks are the rule of its slot. -/
def WowText.SetIn (t : WowText) (s : WowTables) (out : Option (ℤ × WowTables)) : Prop :=
  ∃ ret s', out = some (ret, s') ∧ (ret ≠ 0 ∧ s.Kept s' ∨
    ret = 0 ∧ ∃ i bs, t.slot = some i ∧ PatternText t.pattern bs ∧ s.Added s' i bs)

/-- What a slot must hold for the text: to a text that is refused, the octets that it leaves there,
if the slot is enabled; to a pattern, a zero for the operator of every block that compares for
equality. Of a pattern that ends with the buffer the octets behind are read. -/
def WowText.Safe (t : WowText) (s : WowTables) (i : ℕ) : Prop :=
  if t.reading.err.isSome then
    s.enBitmap.getLsbD i = true →
      ∀ (k : ℕ) (b : BitVec 8), t.reading.draft[k]? = some (some b) →
        (s.rules i).rule.cells[k]? = some b
  else
    (∃ bs, PatternText t.pattern bs ∧ ∀ b ∈ bs, b.offset < 2 ^ 16) ∧
      (∀ k : ℕ, t.reading.draft[k]? = some none → (s.rules i).rule.cells[k]? = some 0) ∧
      (t.reading.atEnd = true → t.bytes.length + 2 < SKW_IW_WOW_BUF_SIZE)

section
variable {room n fuel : ℕ} {t octets rest pattern : Str} {data : List (BitVec 8)} {b : PatBlock}
  {bs : List PatBlock} {stop : OctetsEnd}

/-- How octets end at what follows them. -/
inductive EndsAt : Str → OctetsEnd → Prop
  | finish : EndsAt [] .finish
  | comma (t : Str) : EndsAt (ch ',' :: t) .comma
  | hash (t : Str) : EndsAt (ch '#' :: t) (.hash t)

/-- The octets of a text are read up to their end, unless the rule has no room for them. -/
theorem scanOctets_of_text (ho : OctetsText octets data) (hrest : EndsAt rest stop) (room : ℕ) :
    scanOctets room (octets ++ rest) = (data, stop) ∨
      ∃ e, (scanOctets room (octets ++ rest)).2 = .refused e := by
  induction ho generalizing room with
  | @one h l hh hl =>
    have hdigits : (isDigit 16 h && isDigit 16 l) = true := by rw [hh, hl]; rfl
    rw [scanOctets.eq_def]
    simp only [List.cons_append, List.nil_append, if_pos hdigits]
    split_ifs with hroom
    · exact Or.inr ⟨_, rfl⟩
    · left
      cases hrest <;> rfl
  | @more h l t data hh hl ht ih =>
    have hdigits : (isDigit 16 h && isDigit 16 l) = true := by rw [hh, hl]; rfl
    have hcomma : ¬ch ':' = ch ',' := by decide
    have hhash : ¬ch ':' = ch '#' := by decide
    rw [scanOctets.eq_def]
    simp only [List.cons_append, if_pos hdigits]
    split_ifs with hroom
    · exact Or.inr ⟨_, rfl⟩
    · rcases ih (room - 1) with hread | ⟨e, hread⟩
      · left
        rw [hread]
      · exact Or.inr ⟨e, hread⟩

theorem OctetsText.exists_head (ho : OctetsText octets data) :
    ∃ h t, octets = h :: t ∧ isDigit 16 h = true := by
  cases ho with
  | one hh hl => exact ⟨_, _, rfl, hh⟩
  | more hh hl ht => exact ⟨_, _, rfl, hh⟩

theorem isDigit_of_mem {base acc : ℕ} {digits : Str} {c : BitVec 8}
    (h : digitsValue base acc digits = some n) (hc : c ∈ digits) : isDigit base c = true := by
  induction digits generalizing acc with
  | nil => cases hc
  | cons d s ih =>
    rw [digitsValue] at h
    cases hd : digitVal d with
    | none => simp [hd] at h
    | some v =>
      simp only [hd] at h
      split_ifs at h with hlt
      rcases List.mem_cons.mp hc with rfl | hmem
      · rw [isDigit, hd]
        exact decide_eq_true hlt
      · exact ih h hmem

theorem isspace_of_isDigit : ∀ c, isDigit 16 c = true → isspace c = false := by decide

theorem isDigit_sixteen : ∀ c, isDigit 10 c = true → isDigit 16 c = true := by decide

/-- `%d` reads an offset up to the `+`. -/
theorem scanInt_digits {digits body : Str} (hne : digits ≠ [])
    (h : digitsValue 10 0 digits = some n) :
    scanInt (digits ++ ch '+' :: body) = some (BitVec.ofNat 32 n, ch '+' :: body) := by
  have hplus : ∀ v, parseInteger 10 v (ch '+' :: body) = (v, ch '+' :: body) := by
    intro v
    rw [parseInteger, show digitVal (ch '+') = none by decide]
  have hread : parseInteger 10 0 (digits ++ ch '+' :: body) = (BitVec.ofNat 64 n, ch '+' :: body) :=
    parseInteger_digits hplus h
  cases digits with
  | nil => exact absurd rfl hne
  | cons d s =>
    have hd := isDigit_of_mem h List.mem_cons_self
    have hspace := isspace_of_isDigit d (isDigit_sixteen d hd)
    have hminus : d ≠ ch '-' := by
      rintro rfl
      exact absurd hd (by decide)
    have hdrop : (d :: s ++ ch '+' :: body).dropWhile isspace = d :: s ++ ch '+' :: body := by
      rw [List.cons_append, List.dropWhile_cons_of_neg (by rw [hspace]; decide)]
    have hneg : ¬(d :: s ++ ch '+' :: body).head? = some (ch '-') := fun h =>
      hminus (Option.some.inj h)
    have hdigit : (d :: s ++ ch '+' :: body).head?.any (isDigit 10) = true := hd
    simp only [scanInt, hdrop, if_neg hneg, hdigit, if_true]
    rw [hread]
    have hword : (BitVec.ofNat 64 n).setWidth 32 = BitVec.ofNat 32 n :=
      BitVec.setWidth_ofNat_of_le (by decide) n
    rw [hword]

theorem scansHex_cons {c : BitVec 8} (h : isspace c = false) (t : Str) :
    scansHex (c :: t) = isDigit 16 c := by
  rw [scansHex, List.dropWhile_cons_of_neg (by rw [h]; decide)]
  rfl

/-- One of the formats on an offset and what follows the `+`. -/
theorem scanForm_digits {digits body : Str} (mark : Str) (hne : digits ≠ [])
    (h : digitsValue 10 0 digits = some n) :
    scanForm mark (digits ++ ch '+' :: body) =
      (expect mark body).bind fun hex =>
        if scansHex hex then some (BitVec.ofNat 32 n) else none := by
  have hexpect : expect (ch '+' :: mark) (ch '+' :: body) = expect mark body := by
    simp only [expect, List.isPrefixOf, BEq.rfl, Bool.true_and, List.length_cons,
      List.drop_succ_cons]
  rw [scanForm, scanInt_digits hne h]
  simp only [Option.bind_eq_bind, Option.bind_some, hexpect]

theorem scanOffset_block {digits : Str} (op : PatOp) (hne : digits ≠ [])
    (h : digitsValue 10 0 digits = some n) (ho : OctetsText octets data) (rest : Str) :
    scanOffset (digits ++ ch '+' :: (op.mark ++ octets ++ rest)) = some (BitVec.ofNat 32 n) := by
  obtain ⟨d, t, rfl, hd⟩ := ho.exists_head
  have hscans : scansHex (d :: t ++ rest) = true :=
    (scansHex_cons (isspace_of_isDigit d hd) _).trans hd
  have hdiff : scansHex (ch '!' :: (d :: t ++ rest)) = false := scansHex_cons (by decide) _
  have hcont : scansHex (ch '*' :: (d :: t ++ rest)) = false := scansHex_cons (by decide) _
  rw [scanOffset, scanForm_digits _ hne h, scanForm_digits _ hne h, scanForm_digits _ hne h]
  cases op with
  | same =>
    have hfirst : expect [] (PatOp.same.mark ++ (d :: t) ++ rest) = some (d :: t ++ rest) := rfl
    rw [hfirst, Option.bind_some, if_pos hscans]
    rfl
  | diff =>
    have hfirst : expect [] (PatOp.diff.mark ++ (d :: t) ++ rest) =
        some (ch '!' :: (d :: t ++ rest)) := rfl
    have hsecond : expect [ch '!'] (PatOp.diff.mark ++ (d :: t) ++ rest) =
        some (d :: t ++ rest) := rfl
    rw [hfirst, hsecond, Option.bind_some, Option.bind_some, hdiff, if_pos hscans]
    rfl
  | continueMatch =>
    have hfirst : expect [] (PatOp.continueMatch.mark ++ (d :: t) ++ rest) =
        some (ch '*' :: (d :: t ++ rest)) := rfl
    have hsecond : expect [ch '!'] (PatOp.continueMatch.mark ++ (d :: t) ++ rest) = none := rfl
    have hthird : expect [ch '*'] (PatOp.continueMatch.mark ++ (d :: t) ++ rest) =
        some (d :: t ++ rest) := rfl
    rw [hfirst, hsecond, hthird, Option.bind_some, Option.bind_some, Option.bind_none, hcont,
      if_pos hscans]
    rfl

theorem scanOp_text (op : PatOp) (ho : OctetsText octets data) (rest : Str) :
    scanOp (op.mark ++ octets ++ rest) = (op, octets ++ rest) := by
  cases op with
  | same =>
    obtain ⟨d, t, rfl, hd⟩ := ho.exists_head
    have hdiff : d ≠ ch '!' := ne_of_isDigit hd (by decide)
    have hcont : d ≠ ch '*' := ne_of_isDigit hd (by decide)
    exact (if_neg hdiff).trans (if_neg hcont)
  | diff => rfl
  | continueMatch => rfl

/-- The text of a block is read as the block, unless the rule has no room for it. -/
theorem scanBlock_text (hb : BlockText t b) (hoffset : b.offset < 2 ^ 16) (hrest : EndsAt rest stop)
    (n : ℕ) : scanOffset (t ++ rest) = some (BitVec.ofNat 32 b.offset) ∧
      (scanBlock n (BitVec.ofNat 32 b.offset) (t ++ rest) = (b, stop) ∨
        ∃ e, (scanBlock n (BitVec.ofNat 32 b.offset) (t ++ rest)).2 = .refused e) := by
  cases hb with
  | @mk digits octets m data op hne hm ho =>
    have hplus : ch '+' ∉ digits := by
      intro hmem
      exact absurd (isDigit_of_mem hm hmem) (by decide)
    have hword : ((BitVec.ofNat 32 m).setWidth 16).toNat = m := by
      rw [BitVec.setWidth_ofNat_of_le (by decide), BitVec.toNat_ofNat, Nat.mod_eq_of_lt hoffset]
    have htext : digits ++ ch '+' :: (op.mark ++ octets) ++ rest =
        digits ++ ch '+' :: (op.mark ++ octets ++ rest) := by
      rw [List.append_assoc, List.cons_append]
    rw [htext]
    refine ⟨scanOffset_block op hne hm ho rest, ?_⟩
    simp only [scanBlock, strchr_append hplus, Option.getD_some, scanOp_text op ho, hword]
    rcases scanOctets_of_text ho hrest (wowRuleSize - (n + pktPatternSize)) with hread | hread
    · left
      rw [hread]
    · exact Or.inr hread

theorem scanBlocks_text (hb : BlockText t b) (hoffset : b.offset < 2 ^ 16)
    (hrest : EndsAt rest stop) (herr : (scanBlocks (fuel + 1) n (t ++ rest)).err = none) :
    scanBlocks (fuel + 1) n (t ++ rest) =
      .behind b (scanBlocks fuel (n + pktPatternSize + b.data.length)) stop := by
  obtain ⟨hoff, hblock⟩ := scanBlock_text hb hoffset hrest n
  have hne : ¬t ++ rest = [] := by
    intro hnil
    rw [hnil] at hoff
    cases hoff
  rw [scanBlocks, if_neg hne, hoff] at herr ⊢
  simp only at herr ⊢
  split_ifs at herr ⊢ with hmax hroom
  · cases herr
  · cases herr
  · rcases hblock with hread | ⟨e, hread⟩
    · rw [hread]
    · exfalso
      rcases hpair : scanBlock n (BitVec.ofNat 32 b.offset) (t ++ rest) with ⟨b', stop'⟩
      rw [hpair] at hread herr
      obtain rfl : stop' = .refused e := hread
      cases herr

/-- A pattern that is not refused is read as its blocks. -/
theorem reading_of_text (hp : PatternText pattern bs) (hoffsets : ∀ b ∈ bs, b.offset < 2 ^ 16)
    (herr : (scanBlocks fuel n pattern).err = none) :
    (scanBlocks fuel n pattern).blocks = bs ∧ (scanBlocks fuel n pattern).part = none := by
  induction hp generalizing fuel n with
  | nil =>
    cases fuel with
    | zero => cases herr
    | succ fuel => exact ⟨rfl, rfl⟩
  | @last t b ht =>
    cases fuel with
    | zero => cases herr
    | succ fuel =>
      have hread := scanBlocks_text ht (hoffsets b List.mem_cons_self) .finish
        (by rwa [List.append_nil])
      rw [List.append_nil] at hread
      rw [hread]
      exact ⟨rfl, rfl⟩
  | @comma t rest b ht =>
    cases fuel with
    | zero => cases herr
    | succ fuel =>
      rw [scanBlocks_text ht (hoffsets b List.mem_cons_self) (.comma rest) herr]
      exact ⟨rfl, rfl⟩
  | @more t p b bs ht hp hne ih =>
    cases fuel with
    | zero => cases herr
    | succ fuel =>
      have hread := scanBlocks_text ht (hoffsets b List.mem_cons_self) (.hash p) herr
      rw [hread] at herr ⊢
      obtain ⟨hblocks, hpart⟩ := ih (fun b hb => hoffsets b (List.mem_cons_of_mem _ hb)) herr
      exact ⟨congrArg (b :: ·) hblocks, hpart⟩

theorem bytes_code (b : PatBlock) : b.whole.map (fun x => x.getD 0) = b.bytes := by
  have hop : b.op.octet.getD 0 = b.op.code := by cases b.op <;> rfl
  simp only [PatBlock.whole, PatBlock.draft, PatBlock.bytes, List.map_append, List.map_cons,
    List.map_nil, List.map_map, Function.comp_def, Option.getD_some, List.map_id', hop]

/-- Where the gaps of whole blocks are zero there are the blocks. -/
theorem map_draft {r : Reading} (h : r.part = none) :
    r.draft.map (fun x => x.getD 0) = r.blocks.flatMap PatBlock.bytes := by
  rw [Reading.draft, h, Option.elim_none, List.append_nil, List.map_flatMap]
  simp only [bytes_code]

theorem expect_append (first rest : Str) : expect first (first ++ rest) = some rest := by
  rw [expect, if_pos (List.isPrefixOf_iff_prefix.mpr (List.prefix_append _ _)), List.drop_left]

/-- The setting of a text, by its parts. -/
theorem wowFilterSet_eq (s : WowTables) (t : WowText) : wowFilterSet true s t.bytes =
    match t.slot with
    | none => some (- EINVAL, s)
    | some i =>
      (wowBlocks t.bytes.length (t.bytes.length + 1) (s.rules i).rule 0 0 t.pattern).map fun out =>
        match out.2 with
        | .error e => (e, { s with rules := Function.update s.rules i ⟨out.1, (s.rules i).len⟩ })
        | .ok resultLen => (0,
          { enBitmap := s.enBitmap ||| 1#64 <<< i
            rules := Function.update s.rules i ⟨out.1, resultLen⟩
            userBitmap := s.userBitmap ||| 1#64 <<< i
            userRules := Function.update s.userRules i (userRule t.bytes) }) := by
  have hcomma : ch ',' ∉ str "idx=" ++ t.idx := by
    rw [List.mem_append, not_or]
    exact ⟨by decide, t.comma⟩
  have hbytes : t.bytes = str "idx=" ++ t.idx ++ ch ',' :: (str "pattern=" ++ t.pattern) := by
    rw [List.append_assoc]
    rfl
  have hsep : strsep (ch ',') t.bytes =
      (str "idx=" ++ t.idx, some (str "pattern=" ++ t.pattern)) := by
    rw [strsep, hbytes, strchr_append hcomma, Fixed.takeWhile_ne_append hcomma]
  have hidx : strchr (ch '=') (str "idx=" ++ t.idx) = some t.idx :=
    strchr_append (s := str "idx") (by decide) t.idx
  simp only [wowFilterSet, if_true, hsep, hidx, Option.bind_eq_bind, Option.bind_some,
    expect_append, WowText.slot]
  cases hnum : kstrtou 8 0 t.idx with
  | none => rfl
  | some i =>
    by_cases hlt : i < SKW_MAX_WOW_RULE_NUM
    · have hslot : (some i).filter (fun i => decide (i < SKW_MAX_WOW_RULE_NUM)) = some i :=
        if_pos (decide_eq_true hlt)
      rw [hslot]
      simp only [if_neg (not_le.mpr hlt)]
      cases wowBlocks t.bytes.length (t.bytes.length + 1) (s.rules i).rule 0 0 t.pattern with
      | none => rfl
      | some out =>
        obtain ⟨rule, read⟩ := out
        cases read <;> rfl
    · have hslot : (some i).filter (fun i => decide (i < SKW_MAX_WOW_RULE_NUM)) = none :=
        if_neg (by simpa using hlt)
      rw [hslot]
      simp only [if_pos (not_lt.mp hlt)]

theorem setIn_refused_iff {t : WowText} {s s' : WowTables} {e : ℤ} (he : e ≠ 0) :
    t.SetIn s (some (e, s')) ↔ s.Kept s' := by
  constructor
  · rintro ⟨ret, s'', hout, hset⟩
    cases hout
    rcases hset with ⟨-, hkept⟩ | ⟨hret, -⟩
    · exact hkept
    · exact absurd hret he
  · intro hkept
    exact ⟨e, s', rfl, Or.inl ⟨he, hkept⟩⟩

theorem setIn_stored_iff {t : WowText} {s s' : WowTables} {i : ℕ} (hslot : t.slot = some i) :
    t.SetIn s (some (0, s')) ↔ ∃ bs, PatternText t.pattern bs ∧ s.Added s' i bs := by
  constructor
  · rintro ⟨ret, s'', hout, hset⟩
    cases hout
    rcases hset with ⟨hret, -⟩ | ⟨-, j, bs, hj, hp, hadded⟩
    · exact absurd rfl hret
    · rw [hslot, Option.some.injEq] at hj
      subst hj
      exact ⟨bs, hp, hadded⟩
  · rintro ⟨bs, hp, hadded⟩
    exact ⟨0, s', rfl, Or.inr ⟨rfl, i, bs, hslot, hp, hadded⟩⟩

theorem kept_update_iff {s : WowTables} {i : ℕ} {r : WowRule} :
    s.Kept { s with rules := Function.update s.rules i r } ↔
      (s.enBitmap.getLsbD i = true → r = s.rules i) := by
  constructor
  · intro h hi
    exact (Function.update_self i r s.rules).symm.trans (h.rules i hi)
  · intro h
    refine ⟨rfl, rfl, fun k hk => ?_, fun _ _ => rfl⟩
    by_cases hki : k = i
    · subst hki
      exact (Function.update_self k r s.rules).trans (h hk)
    · exact Function.update_of_ne hki _ _

/-- A text that is refused leaves a slot alone when what is written is there already. -/
theorem kept_iff {s : WowTables} {i : ℕ} {rule : RuleBuf} {draft : List (Option (BitVec 8))}
    (hcells : rule.cells = overlay draft (s.rules i).rule.cells ++
      (s.rules i).rule.cells.drop draft.length)
    (hlen : draft.length ≤ (s.rules i).rule.cells.length) :
    s.Kept { s with rules := Function.update s.rules i ⟨rule, (s.rules i).len⟩ } ↔
      (s.enBitmap.getLsbD i = true → ∀ (k : ℕ) (b : BitVec 8), draft[k]? = some (some b) →
        (s.rules i).rule.cells[k]? = some b) := by
  rw [kept_update_iff, ← Lib.overlay_eq_iff hlen, ← hcells]
  constructor
  · intro h hi
    rw [← h hi]
  · intro h hi
    have hrule : rule = (s.rules i).rule := Fixed.ext (h hi)
    rw [hrule]

/-- A slot holds the blocks of a draft when its gaps are zero there. -/
theorem holds_iff {rule : RuleBuf} {old : List (BitVec 8)} {r : Reading} (hpart : r.part = none)
    (hcells : rule.cells = overlay r.draft old ++ old.drop r.draft.length)
    (hlen : r.draft.length ≤ old.length) :
    (⟨rule, r.draft.length⟩ : WowRule).Holds r.blocks ↔
      (∀ b ∈ r.blocks, b.offset < 2 ^ 16) ∧
        ∀ k : ℕ, r.draft[k]? = some none → old[k]? = some 0 := by
  have htake : rule.cells.take r.draft.length = overlay r.draft old := by
    rw [hcells, List.take_left' (Lib.length_overlay hlen)]
  rw [← Lib.overlay_eq_map_iff hlen, map_draft hpart, ← htake]
  constructor
  · intro h
    exact ⟨h.offsets, h.cells⟩
  · rintro ⟨hoffsets, hbytes⟩
    have hsize : r.draft.length = (r.blocks.flatMap PatBlock.bytes).length := by
      rw [← map_draft hpart, List.length_map]
    exact ⟨hsize, hbytes, hoffsets⟩

theorem length_pattern_le (t : WowText) : t.pattern.length ≤ t.bytes.length := by
  simp only [WowText.bytes, List.length_append, List.length_cons]
  omega

theorem added_iff {s : WowTables} {i : ℕ} {r : WowRule} {user : Fixed (BitVec 8) _}
    {bs : List PatBlock} : s.Added
      { enBitmap := s.enBitmap ||| 1#64 <<< i
        rules := Function.update s.rules i r
        userBitmap := s.userBitmap ||| 1#64 <<< i
        userRules := Function.update s.userRules i user } i bs ↔ r.Holds bs := by
  constructor
  · intro h
    have hholds : (Function.update s.rules i r i).Holds bs := h.holds
    rwa [Function.update_self] at hholds
  · intro h
    have hholds : (Function.update s.rules i r i).Holds bs := by rwa [Function.update_self]
    exact ⟨rfl, rfl, hholds, fun k hk => Function.update_of_ne hk _ _,
      fun k hk => Function.update_of_ne hk _ _⟩

/-- A text with a slot keeps to it when the slot holds what it must. -/
theorem setIn_slot_iff {s : WowTables} {t : WowText} {i : ℕ} (hslot : t.slot = some i) :
    t.SetIn s (wowFilterSet true s t.bytes) ↔ t.Safe s i := by
  have hrun : BlocksRun t.bytes.length (t.bytes.length + 1) 0 (s.rules i).rule []
      (s.rules i).rule.cells t.pattern t.reading :=
    blocksRun (Nat.lt_succ_of_le (length_pattern_le t)) (by decide) rfl rfl (length_pattern_le t)
      t.fits
  have hlen : t.reading.draft.length ≤ (s.rules i).rule.cells.length := by
    have hroom := hrun.room
    rwa [Nat.zero_add, ← (s.rules i).rule.length_cells] at hroom
  rw [wowFilterSet_eq, hslot, WowText.Safe]
  simp only
  cases herr : t.reading.err with
  | some e =>
    obtain ⟨he, hatEnd⟩ := scanBlocks_refused herr
    obtain ⟨rule, hread, hcells⟩ := hrun.runs fun h => by
      rw [WowText.reading, hatEnd] at h
      cases h
    rw [hread, Reading.result, herr]
    exact (setIn_refused_iff he).trans (kept_iff hcells hlen)
  | none =>
    have hnone : ¬(none : Option ℤ).isSome = true := by decide
    rw [if_neg hnone]
    by_cases hend : t.reading.atEnd = true → t.bytes.length + 2 < SKW_IW_WOW_BUF_SIZE
    · obtain ⟨rule, hread, hcells⟩ := hrun.runs hend
      rw [hread, Reading.result, herr, Nat.zero_add]
      refine (setIn_stored_iff hslot).trans ?_
      constructor
      · rintro ⟨bs, hp, hadded⟩
        have hholds := added_iff.mp hadded
        obtain ⟨rfl, hpart⟩ := reading_of_text hp hholds.offsets herr
        obtain ⟨hoffsets, hgaps⟩ := (holds_iff hpart hcells hlen).mp hholds
        exact ⟨⟨_, hp, hoffsets⟩, hgaps, hend⟩
      · rintro ⟨⟨bs, hp, hoffsets⟩, hgaps, -⟩
        obtain ⟨rfl, hpart⟩ := reading_of_text hp hoffsets herr
        exact ⟨_, hp, added_iff.mpr ((holds_iff hpart hcells hlen).mpr ⟨hoffsets, hgaps⟩)⟩
    · obtain ⟨hatEnd, hbeyond⟩ := Classical.not_imp.mp hend
      rw [hrun.overrun hatEnd (not_lt.mp hbeyond)]
      constructor
      · rintro ⟨ret, s', hout, -⟩
        cases hout
      · rintro ⟨-, -, hinside⟩
        exact absurd hinside hend

/-- The setting of a text keeps the rules exactly when the slot holds what it must. -/
theorem wowFilterSet_iff (alloc : Bool) (s : WowTables) (t : WowText) :
    t.SetIn s (wowFilterSet alloc s t.bytes) ↔
      (alloc = true → ∀ i, t.slot = some i → t.Safe s i) := by
  have hsame : s.Kept s := ⟨rfl, rfl, fun _ _ => rfl, fun _ _ => rfl⟩
  cases alloc with
  | false =>
    constructor
    · intro _ h
      cases h
    · intro _
      exact (setIn_refused_iff (by decide)).mpr hsame
  | true =>
    cases hslot : t.slot with
    | none =>
      rw [wowFilterSet_eq, hslot]
      constructor
      · intro _ _ i hi
        cases hi
      · intro _
        exact (setIn_refused_iff (by decide)).mpr hsame
    | some i =>
      rw [setIn_slot_iff hslot]
      constructor
      · intro hsafe _ j hj
        rwa [← Option.some.inj hj]
      · intro h
        exact h rfl i rfl

end

/-- Slot 0 holds the rule that `6+!7c` gives. -/
def diffSet : WowTables where
  enBitmap := 1
  rules _ :=
    { rule := ⟨[1, 0, 6, 0, 1, 0x7c] ++ List.replicate 58 0, rfl⟩
      len := 6 }
  userBitmap := 1
  userRules _ := userRule (str "idx=0,pattern=6+!7c")

def sameText : WowText where
  idx := str "0"
  pattern := str "6+7c"
  comma := by decide
  nul := by decide
  fits := by decide

/-- Over the rule for another octet than `7c` the text for `7c` leaves the operator. -/
theorem operator_stays : ¬sameText.SetIn diffSet (wowFilterSet true diffSet sameText.bytes) := by
  rw [setIn_slot_iff (i := 0) (by decide +kernel)]
  intro hsafe
  have hread : ¬sameText.reading.err.isSome = true := by decide +kernel
  rw [WowText.Safe, if_neg hread] at hsafe
  have hgap := hsafe.2.1 0 (by decide +kernel)
  revert hgap
  decide +kernel

end Skw
