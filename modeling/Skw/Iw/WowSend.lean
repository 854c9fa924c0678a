import Skw.Iw.WowText
import Skw.Lib.Machine
import Skw.Lib.Octets

/-! The commands that enable the wake filters: the rules of the enabled slots, at most twenty in a
command, and `skw_wow_filter_remap_idx`, which finds the slot of a rule by its number among those
that were sent. -/
namespace Skw

abbrev SKW_MAX_WOW_RULE_NUM_ONE_TIME : ℕ := 20
abbrev SKW_WOW_RULE_CMD_BUF_MAX : ℕ := 1400

abbrev ACTION_DIS_ALL : BitVec 16 := 0
abbrev ACTION_EN_WOW : BitVec 16 := 3
abbrev ACTION_EN_WOW_APPEND : BitVec 16 := 17

/-- `sizeof(struct skw_wow_input_param)` -/
abbrev wowParamSize : ℕ := 5

/-- `sizeof(struct skw_wow_rule)` -/
abbrev wowRuleCmdSize : ℕ := wowRuleSize + 2

/-- `sizeof(struct skw_spd_action_param)` and `sizeof(struct skw_wow_input_param)` -/
abbrev wowFixed : ℕ := 4 + wowParamSize

abbrev wowTotal : ℕ := wowFixed + SKW_WOW_RULE_CMD_BUF_MAX

def ffs64 (x : BitVec 64) : ℕ :=
  if x = 0 then 0
  else ([56, 48, 40, 32, 24, 16, 8, 4, 2, 1].foldl Lib.skipStep (x, 1)).2

/-- A `struct skw_spd_action_param` and what is behind it. -/
structure WowSpd where
  subCmd : BitVec 16
  len : ℕ
  wowFlags : BitVec 32
  rules : List WowRule

/-- The rules of a command, the slots that are left, and whether another command is to be sent. -/
structure WowFill where
  rules : List WowRule
  idxMap : BitVec 64
  append : Bool

/-- The loop over the slots with room for `n` rules. `offset` stays as it is. -/
def fillWow (s : WowTables) : ℕ → BitVec 64 → WowFill
  | 0, idxMap => ⟨[], idxMap, true⟩
  | n + 1, idxMap =>
    if idxMap = 0 then ⟨[], idxMap, false⟩
    else
      let idx := ffs64 idxMap - 1
      if wowTotal < wowFixed + wowParamSize + (s.rules idx).len then ⟨[], idxMap, false⟩
      else
        let f := fillWow s n (Lib.clearBit idxMap idx)
        { f with rules := s.rules idx :: f.rules }

/-- The memory is zero, and `sub_cmd` and `wow_flags` are set with every rule. -/
def wowSpd (subCmd : BitVec 16) (wowFlags : BitVec 32) (f : WowFill) : WowSpd where
  subCmd := if f.rules = [] then ACTION_DIS_ALL else subCmd
  len := wowParamSize + wowRuleCmdSize * f.rules.length
  wowFlags := if f.rules = [] then 0 else wowFlags
  rules := f.rules

/-- Whether the `k`-th call finds memory, and what `skw_msg_xmit` returns to it. -/
structure WowEnv where
  alloc : ℕ → Bool
  ret : ℕ → ℤ

/-- `skw_send_wow_filter_cmd` and, with its `sub_cmd`, `skw_send_wow_filter_append_cmd`, which calls
itself. The result of a call that is followed by another one is lost. -/
def sendWow (env : WowEnv) (s : WowTables) (wowFlags : BitVec 32) :
    ℕ → ℕ → BitVec 16 → BitVec 64 → Option (ℤ × List WowSpd)
  | 0, _, _, _ => none
  | fuel + 1, k, subCmd, idxMap =>
    if env.alloc k = false then some (- ENOMEM, [])
    else
      let f := fillWow s SKW_MAX_WOW_RULE_NUM_ONE_TIME idxMap
      let spd := wowSpd subCmd wowFlags f
      if f.append then
        (sendWow env s wowFlags fuel (k + 1) ACTION_EN_WOW_APPEND f.idxMap).map fun r =>
          (r.1, spd :: r.2)
      else some (env.ret k, [spd])

def sendWowFilterCmd (fuel : ℕ) (env : WowEnv) (s : WowTables) (wowFlags : BitVec 32) :
    Option (ℤ × List WowSpd) :=
  sendWow env s wowFlags fuel 0 ACTION_EN_WOW s.enBitmap

/-- The loop of `skw_wow_filter_remap_idx`. -/
def remapLoop (count : ℕ) : ℕ → BitVec 64 → ℕ → ℕ → Option ℕ
  | 0, _, _, _ => none
  | fuel + 1, idxMap, idx, rules =>
    if idxMap = 0 then some idx
    else
      let idx := ffs64 idxMap - 1
      if rules = count then some idx
      else remapLoop count fuel (Lib.clearBit idxMap idx) idx (rules + 1)

def wowFilterRemapIdx (fuel : ℕ) (s : WowTables) (count : BitVec 8) : Option ℕ :=
  if SKW_MAX_WOW_RULE_NUM ≤ count.toNat then some 0xff
  else remapLoop count.toNat fuel s.enBitmap 0 0

theorem ffs64_of_isLowest {x : BitVec 64} {p : ℕ} (h : Lib.IsLowest x p) : ffs64 x = p + 1 := by
  have hne : x ≠ 0 := by
    rintro rfl
    exact absurd h.1 (by rw [BitVec.ofNat_eq_ofNat, BitVec.getLsbD_zero]; decide)
  rw [ffs64, if_neg hne, Lib.foldl_skipStep (b := 64) (by decide) (by decide) h h.lt, Nat.add_comm]

/-- A bitmap with a slot has a first one, which `ffs64` finds. -/
theorem exists_first {m : BitVec 64} (h : m ≠ 0) :
    ∃ p, ffs64 m - 1 = p ∧ Lib.setBits m = p :: Lib.setBits (Lib.clearBit m p) := by
  obtain ⟨p, hp⟩ := Lib.exists_isLowest h
  exact ⟨p, by rw [ffs64_of_isLowest hp, Nat.add_sub_cancel], Lib.setBits_of_isLowest hp⟩

section
variable {env : WowEnv} {s : WowTables} {wowFlags : BitVec 32} {m : BitVec 64}

/-- The rules of the slots in a bitmap are no longer than their memory. -/
def WowTables.Short (s : WowTables) (m : BitVec 64) : Prop :=
  ∀ i ∈ Lib.setBits m, (s.rules i).len ≤ wowRuleSize

theorem fillWow_eq (hs : s.Short m) (n : ℕ) :
    (fillWow s n m).rules = ((Lib.setBits m).take n).map s.rules ∧
      Lib.setBits (fillWow s n m).idxMap = (Lib.setBits m).drop n ∧
      ((fillWow s n m).append = true ↔ n ≤ (Lib.setBits m).length) := by
  induction n generalizing m with
  | zero => exact ⟨rfl, rfl, iff_of_true rfl (Nat.zero_le _)⟩
  | succ n ih =>
    by_cases hm : m = 0
    · have hbits : Lib.setBits m = [] := hm ▸ Lib.setBits_zero
      rw [fillWow, if_pos hm, hbits]
      exact ⟨rfl, hbits ▸ List.drop_nil.symm,
        iff_of_false Bool.false_ne_true (Nat.not_succ_le_zero n)⟩
    · obtain ⟨p, hp, hbits⟩ := exists_first hm
      have hlen : (s.rules p).len ≤ 64 := hs p (hbits ▸ List.mem_cons_self)
      have hfits : ¬wowTotal < wowFixed + wowParamSize + (s.rules p).len := by
        change ¬4 + 5 + 1400 < 4 + 5 + 5 + (s.rules p).len
        omega
      have hs' : s.Short (Lib.clearBit m p) := fun i hi => hs i (hbits ▸ List.mem_cons_of_mem _ hi)
      obtain ⟨hrules, hmap, happend⟩ := ih hs'
      rw [fillWow, if_neg hm, hp, if_neg hfits, hbits]
      refine ⟨?_, hmap, happend.trans Nat.succ_le_succ_iff.symm⟩
      rw [List.take_succ_cons, List.map_cons, ← hrules]

/-- What the calls from the `k`-th on send, and the last result: the rules of the slots in their
order, no command over its memory, all of them or those in front of a call that finds no memory, and
a command that disables everything exactly if the last one has no rule left. -/
structure Sends (env : WowEnv) (s : WowTables) (k : ℕ) (slots : List ℕ) (ret : ℤ)
    (cmds : List WowSpd) : Prop where
  rules : cmds.flatMap (·.rules) =
    (slots.take (SKW_MAX_WOW_RULE_NUM_ONE_TIME * cmds.length)).map s.rules
  size : ∀ spd ∈ cmds, spd.len = wowParamSize + wowRuleCmdSize * spd.rules.length ∧
    4 + spd.len ≤ wowTotal
  count : cmds.length ≤ slots.length / SKW_MAX_WOW_RULE_NUM_ONE_TIME + 1
  stopped : cmds.length ≤ slots.length / SKW_MAX_WOW_RULE_NUM_ONE_TIME →
    env.alloc (k + cmds.length) = false ∧ ret = - ENOMEM
  ended : cmds.length = slots.length / SKW_MAX_WOW_RULE_NUM_ONE_TIME + 1 →
    ret = env.ret (k + slots.length / SKW_MAX_WOW_RULE_NUM_ONE_TIME)
  disAll : (∃ spd ∈ cmds, spd.subCmd = ACTION_DIS_ALL) ↔
    cmds.length = slots.length / SKW_MAX_WOW_RULE_NUM_ONE_TIME + 1 ∧
      SKW_MAX_WOW_RULE_NUM_ONE_TIME ∣ slots.length

theorem size_wowSpd {f : WowFill} (h : f.rules.length ≤ SKW_MAX_WOW_RULE_NUM_ONE_TIME)
    (subCmd : BitVec 16) : 4 + (wowSpd subCmd wowFlags f).len ≤ wowTotal := by
  have hlen : f.rules.length ≤ 20 := h
  change 4 + (5 + 66 * f.rules.length) ≤ 4 + 5 + 1400
  omega

theorem subCmd_wowSpd {subCmd : BitVec 16} (h : subCmd ≠ ACTION_DIS_ALL) (f : WowFill) :
    (wowSpd subCmd wowFlags f).subCmd = ACTION_DIS_ALL ↔ f.rules = [] := by
  change (if f.rules = [] then ACTION_DIS_ALL else subCmd) = ACTION_DIS_ALL ↔ _
  split_ifs with hnil
  · exact iff_of_true rfl hnil
  · exact iff_of_false h hnil

/-- A full command is followed by those for the slots that are left. -/
theorem Sends.cons {k : ℕ} {f : WowFill} {ret : ℤ} {cmds : List WowSpd} {subCmd : BitVec 16}
    (h : Sends env s (k + 1) (Lib.setBits f.idxMap) ret cmds)
    (hrules : f.rules = ((Lib.setBits m).take 20).map s.rules)
    (hmap : Lib.setBits f.idxMap = (Lib.setBits m).drop 20)
    (hsize : 4 + (wowSpd subCmd wowFlags f).len ≤ wowTotal)
    (hdiv : (Lib.setBits f.idxMap).length / 20 + 1 = (Lib.setBits m).length / 20)
    (hsub : (wowSpd subCmd wowFlags f).subCmd ≠ ACTION_DIS_ALL) :
    Sends env s k (Lib.setBits m) ret (wowSpd subCmd wowFlags f :: cmds) where
  rules := by
    rw [List.flatMap_cons, h.rules, hmap, List.length_cons, Nat.mul_succ, Nat.add_comm,
      List.take_add, List.map_append, ← hrules]
    rfl
  size := by
    rintro spd (_ | ⟨_, hspd⟩)
    · exact ⟨rfl, hsize⟩
    · exact h.size spd hspd
  count := hdiv ▸ Nat.succ_le_succ h.count
  stopped hle := by
    rw [← hdiv] at hle
    obtain ⟨halloc, hret⟩ := h.stopped (Nat.le_of_succ_le_succ hle)
    rw [List.length_cons, Nat.add_comm cmds.length, ← Nat.add_assoc]
    exact ⟨halloc, hret⟩
  ended heq := by
    rw [← hdiv] at heq ⊢
    rw [h.ended (Nat.succ.inj heq), Nat.add_assoc, Nat.add_comm 1]
  disAll := by
    rw [List.exists_mem_cons_iff, or_iff_right hsub, h.disAll, List.length_cons, ← hdiv,
      Nat.succ_inj]
    refine and_congr_right fun _ => ?_
    rw [hmap, List.length_drop]
    change 20 ∣ _ ↔ 20 ∣ _
    omega

/-- A command with less than twenty rules is the last. -/
theorem Sends.last {k : ℕ} {f : WowFill} {subCmd : BitVec 16}
    (hrules : f.rules = ((Lib.setBits m).take 20).map s.rules)
    (hsize : 4 + (wowSpd subCmd wowFlags f).len ≤ wowTotal)
    (hdiv : (Lib.setBits m).length / 20 = 0)
    (hsub : (wowSpd subCmd wowFlags f).subCmd = ACTION_DIS_ALL ↔ 20 ∣ (Lib.setBits m).length) :
    Sends env s k (Lib.setBits m) (env.ret k) [wowSpd subCmd wowFlags f] where
  rules := by
    rw [List.flatMap_singleton]
    exact hrules
  size spd hspd := by
    rw [List.mem_singleton.mp hspd]
    exact ⟨rfl, hsize⟩
  count := Nat.succ_le_succ (Nat.zero_le _)
  stopped hle := by
    rw [hdiv] at hle
    exact absurd hle (Nat.not_succ_le_zero 0)
  ended _ := by rw [hdiv, Nat.add_zero]
  disAll := by
    rw [hdiv, List.exists_mem_cons_iff, or_iff_left (by simp), hsub]
    exact (and_iff_right rfl).symm

theorem sendWow_sends {fuel : ℕ} (hs : s.Short m) (hfuel : (Lib.setBits m).length / 20 < fuel)
    (k : ℕ) {subCmd : BitVec 16} (hsub : subCmd ≠ ACTION_DIS_ALL) :
    ∃ ret cmds, sendWow env s wowFlags fuel k subCmd m = some (ret, cmds) ∧
      Sends env s k (Lib.setBits m) ret cmds := by
  induction fuel generalizing m k subCmd with
  | zero => omega
  | succ fuel ih =>
    rw [sendWow]
    by_cases halloc : env.alloc k = false
    · rw [if_pos halloc]
      refine ⟨_, _, rfl, rfl, nofun, Nat.zero_le _, fun _ => ⟨halloc, rfl⟩, nofun, ?_⟩
      exact iff_of_false (fun ⟨spd, hspd, _⟩ => nomatch hspd) fun h => nomatch h.1
    · rw [if_neg halloc]
      dsimp only
      obtain ⟨hrules, hmap, happend⟩ := fillWow_eq hs SKW_MAX_WOW_RULE_NUM_ONE_TIME
      generalize fillWow s SKW_MAX_WOW_RULE_NUM_ONE_TIME m = f at hrules hmap happend
      have hlen : f.rules.length = min 20 (Lib.setBits m).length := by
        rw [hrules, List.length_map, List.length_take]
      have hle : f.rules.length ≤ SKW_MAX_WOW_RULE_NUM_ONE_TIME := hlen.trans_le (min_le_left ..)
      have hsize : 4 + (wowSpd subCmd wowFlags f).len ≤ wowTotal := size_wowSpd hle subCmd
      have hsubCmd : (wowSpd subCmd wowFlags f).subCmd = ACTION_DIS_ALL ↔ f.rules = [] :=
        subCmd_wowSpd hsub f
      rw [← List.length_eq_zero_iff, hlen] at hsubCmd
      by_cases hmore : 20 ≤ (Lib.setBits m).length
      · have hdrop : (Lib.setBits f.idxMap).length = (Lib.setBits m).length - 20 := by
          rw [hmap, List.length_drop]
        have hdiv : (Lib.setBits f.idxMap).length / 20 + 1 = (Lib.setBits m).length / 20 := by
          omega
        have hs' : s.Short f.idxMap := fun i hi => hs i (List.mem_of_mem_drop (hmap ▸ hi))
        obtain ⟨ret, cmds, hsend, hcmds⟩ := ih hs' (by omega) (k + 1)
          (show ACTION_EN_WOW_APPEND ≠ ACTION_DIS_ALL by decide)
        rw [if_pos (happend.mpr hmore), hsend]
        exact ⟨_, _, rfl, hcmds.cons hrules hmap hsize hdiv (mt hsubCmd.mp (by omega))⟩
      · rw [if_neg (mt happend.mp hmore)]
        refine ⟨_, _, rfl, ?_⟩
        exact Sends.last hrules hsize (Nat.div_eq_of_lt (not_le.mp hmore))
          (hsubCmd.trans (by omega))

theorem remapLoop_eq (count : ℕ) {fuel : ℕ} (hfuel : (Lib.setBits m).length < fuel) (idx : ℕ)
    {rules : ℕ} (hle : rules ≤ count) :
    remapLoop count fuel m idx rules =
      some ((Lib.setBits m).getD (count - rules) ((Lib.setBits m).getLastD idx)) := by
  induction fuel generalizing m idx rules with
  | zero => omega
  | succ fuel ih =>
    rw [remapLoop]
    by_cases hm : m = 0
    · have hbits : Lib.setBits m = [] := hm ▸ Lib.setBits_zero
      rw [if_pos hm, hbits]
      rfl
    · obtain ⟨p, hp, hbits⟩ := exists_first hm
      rw [hbits, List.length_cons] at hfuel
      rw [if_neg hm, hp, hbits]
      dsimp only
      by_cases heq : rules = count
      · rw [if_pos heq, heq, Nat.sub_self]
        rfl
      · obtain ⟨n, hn⟩ : ∃ n, count - rules = n + 1 :=
          Nat.exists_eq_succ_of_ne_zero (by omega)
        rw [if_neg heq, ih (by omega) p (by omega), hn, List.getD_cons_succ, List.getLastD_cons]
        congr 2
        omega

end

namespace WowTables

/-- The static tables before anything is set. -/
def empty : WowTables where
  enBitmap := 0
  rules _ := ⟨.fill wowRuleSize 0, 0⟩
  userBitmap := 0
  userRules _ := .fill SKW_MAX_WOW_USER_RULE_LEN 0

end WowTables

/-- The texts of `skw_wow_filter_set` that change the tables, with what `skw_wow_disable` returns. -/
inductive WowEvent
  | set (alloc : Bool) (text : Str)
  | disable (ret : ℤ)

namespace WowTables

def step (s : WowTables) : WowEvent → Option WowTables
  | .set alloc text => (wowFilterSet alloc s text).map (·.2)
  | .disable ret => some (if ret = 0 then empty else s)

theorem lt_of_wowOctets {rule rule' : RuleBuf} {val pos n pos' n' : ℕ} {hex hex' : Str}
    (h : wowOctets rule val pos n hex = some (rule', .ok (pos', n', hex'))) (hn : n < 64) :
    n' < 64 := by
  fun_induction wowOctets rule val pos n hex with
  | case1 =>
    cases h
    exact hn
  | case2 => cases h
  | case3 rule pos n a b hex hdigit ih =>
    obtain ⟨rule₁, -, h⟩ := Option.bind_eq_some_iff.mp h
    by_cases hfull : wowRuleSize ≤ n + 1
    · rw [if_pos hfull] at h
      cases h
    · have hlt : n + 1 < 64 := not_le.mp hfull
      rw [if_neg hfull] at h
      cases hex with
      | nil =>
        cases h
        exact hlt
      | cons c t =>
        dsimp only at h
        split_ifs at h
        · cases h
          exact hlt
        · exact ih _ h hlt
        · cases h
  | case4 => cases h

theorem lt_of_wowBlocks {total fuel val n len : ℕ} {rule rule' : RuleBuf} {hex : Str}
    (h : wowBlocks total fuel rule val n hex = some (rule', .ok len)) (hn : n < 64) : len < 64 := by
  induction fuel generalizing rule val n hex with
  | zero => cases h
  | succ fuel ih =>
    rw [wowBlocks] at h
    by_cases hnil : hex = []
    · rw [if_pos hnil] at h
      cases h
      exact hn
    · rw [if_neg hnil] at h
      cases hscan : scanOffset hex with
      | none =>
        rw [hscan] at h
        cases h
      | some offset =>
        rw [hscan] at h
        dsimp only at h
        by_cases hbig : ETH_DATA_LEN < offset.toInt
        · rw [if_pos hbig] at h
          cases h
        · rw [if_neg hbig] at h
          by_cases hfull : wowRuleSize ≤ n + pktPatternSize
          · rw [if_pos hfull] at h
            cases h
          · rw [if_neg hfull] at h
            obtain ⟨rule₁, -, h⟩ := Option.bind_eq_some_iff.mp h
            obtain ⟨rule₂, -, h⟩ := Option.bind_eq_some_iff.mp h
            obtain ⟨hex₁, -, h⟩ := Option.bind_eq_some_iff.mp h
            obtain ⟨⟨rule₃, hex₂⟩, -, h⟩ := Option.bind_eq_some_iff.mp h
            obtain ⟨⟨rule₄, read⟩, hread, h⟩ := Option.bind_eq_some_iff.mp h
            cases read with
            | error e => cases h
            | ok r =>
              obtain ⟨pos, n', hex₃⟩ := r
              have hlt : n' < 64 := lt_of_wowOctets hread (not_le.mp hfull)
              obtain ⟨rule₅, -, h⟩ := Option.bind_eq_some_iff.mp h
              obtain ⟨c, -, h⟩ := Option.bind_eq_some_iff.mp h
              by_cases hcomma : c = ch ','
              · rw [if_pos hcomma] at h
                cases h
                exact hlt
              · rw [if_neg hcomma] at h
                obtain ⟨hex₄, -, h⟩ := Option.bind_eq_some_iff.mp h
                exact ih h hlt

variable {s t : WowTables} {e : WowEvent}

/-- What a text makes of the tables: nothing, or it is refused behind octets of its rule, or it is
read and its slot is set. -/
theorem wowFilterSet_cases {alloc : Bool} {text : Str} {ret : ℤ}
    (h : wowFilterSet alloc s text = some (ret, t)) :
    t = s ∨
      (∃ i rule, t = { s with rules := Function.update s.rules i ⟨rule, (s.rules i).len⟩ }) ∨
      ∃ i rule len, len < 64 ∧ t = {
        enBitmap := s.enBitmap ||| 1#64 <<< i
        rules := Function.update s.rules i ⟨rule, len⟩
        userBitmap := s.userBitmap ||| 1#64 <<< i
        userRules := Function.update s.userRules i (userRule text) } := by
  unfold wowFilterSet at h
  by_cases halloc : alloc = true
  · rw [if_pos halloc] at h
    obtain ⟨idx, -, h⟩ := Option.bind_eq_some_iff.mp h
    cases hidx : kstrtou 8 0 idx with
    | none =>
      rw [hidx] at h
      cases h
      exact Or.inl rfl
    | some ruleIdx =>
      rw [hidx] at h
      dsimp only at h
      by_cases hbig : SKW_MAX_WOW_RULE_NUM ≤ ruleIdx
      · rw [if_pos hbig] at h
        cases h
        exact Or.inl rfl
      · rw [if_neg hbig] at h
        obtain ⟨hex, -, h⟩ := Option.bind_eq_some_iff.mp h
        cases hpat : expect (str "pattern=") hex with
        | none =>
          rw [hpat] at h
          cases h
          exact Or.inl rfl
        | some hex =>
          rw [hpat] at h
          obtain ⟨⟨rule, read⟩, hread, h⟩ := Option.bind_eq_some_iff.mp h
          cases read with
          | error e =>
            cases h
            exact Or.inr (Or.inl ⟨ruleIdx, rule, rfl⟩)
          | ok len =>
            cases h
            exact Or.inr (Or.inr ⟨ruleIdx, rule, len, lt_of_wowBlocks hread (by decide), rfl⟩)
  · rw [if_neg halloc] at h
    cases h
    exact Or.inl rfl

theorem Short.wowFilterSet {alloc : Bool} {text : Str} {ret : ℤ} (hs : s.Short s.enBitmap)
    (h : wowFilterSet alloc s text = some (ret, t)) : t.Short t.enBitmap := by
  obtain rfl | ⟨r, rule, rfl⟩ | ⟨r, rule, len, hlen, rfl⟩ := wowFilterSet_cases h
  · exact hs
  · intro i hi
    change (Function.update s.rules r ⟨rule, (s.rules r).len⟩ i).len ≤ wowRuleSize
    by_cases hr : i = r
    · rw [hr, Function.update_self]
      exact hs r (hr ▸ hi)
    · rw [Function.update_of_ne hr]
      exact hs i hi
  · intro i hi
    change (Function.update s.rules r ⟨rule, len⟩ i).len ≤ wowRuleSize
    by_cases hr : i = r
    · rw [hr, Function.update_self]
      exact hlen.le
    · rw [Function.update_of_ne hr]
      rw [Lib.mem_setBits, BitVec.getLsbD_or, Lib.getLsbD_one_shiftLeft _ _ hr,
        Bool.or_false] at hi
      exact hs i (Lib.mem_setBits.mpr hi)

theorem Short.step (hs : s.Short s.enBitmap) (h : s.step e = some t) : t.Short t.enBitmap := by
  cases e with
  | set alloc text =>
    obtain ⟨⟨ret, u⟩, hu, rfl⟩ := Option.map_eq_some_iff.mp h
    exact hs.wowFilterSet hu
  | disable ret =>
    change some (if ret = 0 then empty else s) = some t at h
    split_ifs at h
    · cases h
      exact fun i _ => Nat.zero_le _
    · cases h
      exact hs

theorem short_of_reach (h : Lib.Reach step Lib.Free empty s) : s.Short s.enBitmap :=
  h.invariant (I := fun s => s.Short s.enBitmap) (fun _ _ => Nat.zero_le _)
    fun _ _ _ hs _ ht => hs.step ht

end WowTables

section
variable (env : WowEnv) {s : WowTables} (wowFlags : BitVec 32) {fuel : ℕ}

theorem sendWowFilterCmd_eq (hs : s.Short s.enBitmap)
    (hfuel : (Lib.setBits s.enBitmap).length / 20 < fuel) :
    ∃ ret cmds, sendWowFilterCmd fuel env s wowFlags = some (ret, cmds) ∧
      Sends env s 0 (Lib.setBits s.enBitmap) ret cmds :=
  sendWow_sends hs hfuel 0 (show ACTION_EN_WOW ≠ ACTION_DIS_ALL by decide)

/-- A number is mapped to the slot of the rule that was sent under it exactly if so many rules were
sent. -/
theorem wowFilterRemapIdx_sent (h : Lib.Reach WowTables.step Lib.Free .empty s)
    (hfuel : 65 ≤ fuel) :
    ∃ ret cmds, sendWowFilterCmd fuel env s wowFlags = some (ret, cmds) ∧
      ∀ count : BitVec 8, ∃ idx, wowFilterRemapIdx fuel s count = some idx ∧
        ((s.enBitmap.getLsbD idx = true ∧
            (cmds.flatMap (·.rules))[count.toNat]? = some (s.rules idx)) ↔
          count.toNat < (cmds.flatMap (·.rules)).length) := by
  have hle : (Lib.setBits s.enBitmap).length ≤ 64 := Lib.length_setBits_le _
  have hfuel' : (Lib.setBits s.enBitmap).length / 20 < fuel := by omega
  obtain ⟨ret, cmds, hsend, hcmds⟩ :=
    sendWowFilterCmd_eq env wowFlags (WowTables.short_of_reach h) hfuel'
  refine ⟨ret, cmds, hsend, fun count => ?_⟩
  have hremap : ∃ idx, wowFilterRemapIdx fuel s count = some idx ∧
      ∀ hlt : count.toNat < (Lib.setBits s.enBitmap).length,
        idx = (Lib.setBits s.enBitmap)[count.toNat] := by
    unfold wowFilterRemapIdx
    split_ifs with hbig
    · exact ⟨_, rfl, fun hlt => absurd (hlt.trans_le hle) (not_lt.mpr hbig)⟩
    · rw [remapLoop_eq _ (by omega) 0 (Nat.zero_le _), Nat.sub_zero]
      refine ⟨_, rfl, fun hlt => ?_⟩
      rw [List.getD_eq_getElem?_getD, List.getElem?_eq_getElem hlt, Option.getD_some]
  obtain ⟨idx, hidx, hslot⟩ := hremap
  refine ⟨idx, hidx, fun h => (List.getElem?_eq_some_iff.mp h.2).1, fun hlt => ?_⟩
  have hrules := hcmds.rules
  have hlt' : count.toNat < (Lib.setBits s.enBitmap).length := by
    rw [hrules, List.length_map, List.length_take] at hlt
    exact hlt.trans_le (min_le_right ..)
  rw [hslot hlt']
  refine ⟨Lib.mem_setBits.mp (List.getElem_mem hlt'), ?_⟩
  rw [List.getElem?_eq_getElem hlt]
  simp only [hrules, List.getElem_map, List.getElem_take]

/-- The second rule that was sent is that of slot 9. -/
theorem wowFilterRemapIdx_sent_second : ∃ s ret cmds,
    sendWowFilterCmd 65 ⟨fun _ => true, fun _ => 0⟩ s 0 = some (ret, cmds) ∧
      wowFilterRemapIdx 65 s 1 = some 9 ∧
        ((cmds.flatMap (·.rules))[1]? = some (s.rules 9) ↔ 1 < (cmds.flatMap (·.rules)).length) := by
  obtain ⟨s, hexec, hp⟩ := Option.any_eq_true .. |>.mp
    (show ((Lib.exec WowTables.step .empty
      [.set true (str "idx=9,pattern=6+7c"), .set true (str "idx=4,pattern=20+!ee:66")]).any fun s =>
        s.enBitmap.getLsbD 9 = true ∧ wowFilterRemapIdx 65 s 1 = some 9) = true by decide +kernel)
  have hreach : Lib.Reach WowTables.step Lib.Free .empty s :=
    Lib.Reach.of_exec_forall (fun _ _ _ => trivial) hexec
  obtain ⟨hon, hnine⟩ := of_decide_eq_true hp
  obtain ⟨ret, cmds, hsend, hremap⟩ :=
    wowFilterRemapIdx_sent ⟨fun _ => true, fun _ => 0⟩ 0 hreach (le_refl 65)
  obtain ⟨idx, hidx, hsent⟩ := hremap 1
  obtain rfl : idx = 9 := Option.some.inj (hidx.symm.trans hnine)
  exact ⟨s, ret, cmds, hsend, hnine, (and_iff_right hon).symm.trans hsent⟩

end
end Skw
