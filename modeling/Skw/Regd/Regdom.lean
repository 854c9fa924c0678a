import Skw.Kernel.Types
import Skw.Lib.Runs
import Mathlib.Data.List.ModifyLast

/-! The rules of a regulatory domain: which domains are accepted, the rule that holds at a frequency,
and the rules that are sent to the firmware. `skw_cmd_set_regdom` walks the channels of all bands and
compresses those with one rule to a range of channel numbers. -/
namespace Skw

/-- `IEEE80211_CHAN_NO_IR` as the tables of rules write it. -/
abbrev SKW_RRF_NO_IR : BitVec 32 := 0x80

structure FreqRange where
  startFreqKhz : BitVec 32
  endFreqKhz : BitVec 32
  maxBandwidthKhz : BitVec 32
deriving DecidableEq

/-- In mBi and mBm. -/
structure PowerRule where
  maxAntennaGain : BitVec 32
  maxEirp : BitVec 32
deriving DecidableEq

/-- What is used of `ieee80211_reg_rule`. -/
structure RegRule where
  freqRange : FreqRange
  powerRule : PowerRule
  flags : BitVec 32
deriving DecidableEq

/-- What is used of `ieee80211_regdomain`. -/
structure Regdomain where
  regRules : List RegRule

/-- A pointer to a rule: where it points, and the rule there. -/
structure RegRulePtr where
  addr : ℕ
  rule : RegRule
deriving DecidableEq

def mhzToKhz (freq : BitVec 32) : BitVec 32 := freq * 1000

def isSkwValidRegRule (rule : RegRule) : Bool :=
  let range := rule.freqRange
  if range.startFreqKhz ≤ 0 ∨ range.endFreqKhz ≤ 0 then false
  else if range.startFreqKhz > range.endFreqKhz then false
  else
    let freqDiff := range.endFreqKhz - range.startFreqKhz
    !(range.endFreqKhz ≤ range.startFreqKhz ∨ range.maxBandwidthKhz > freqDiff)

def isSkwValidRd (rd : Regdomain) : Bool := rd.regRules.all isSkwValidRegRule

/-- The differences wrap, and `abs` takes them as signed. -/
def skwFreqInRuleBand (range : FreqRange) (freqKhz : BitVec 32) : Bool :=
  let limit : BitVec 32 := if freqKhz > 45000000 then 20000000 else 2000000
  (freqKhz - range.startFreqKhz).abs ≤ limit ∨ (freqKhz - range.endFreqKhz).abs ≤ limit

def skwDoesBwFitRange (range : FreqRange) (centerFreqKhz bwKhz : BitVec 32) : Bool :=
  range.startFreqKhz ≤ centerFreqKhz - bwKhz / 2 ∧ centerFreqKhz + bwKhz / 2 ≤ range.endFreqKhz

/-- The loop of `skw_freq_reg_info` from the rule at `addr` on. -/
def freqRegInfoLoop (freq : BitVec 32) : List RegRule → ℕ → Bool → Except ℤ RegRulePtr
  | [], _, bandRuleFound => .error (if bandRuleFound then -EINVAL else -ERANGE)
  | rr :: rules, addr, bandRuleFound =>
    let bandRuleFound := bandRuleFound || skwFreqInRuleBand rr.freqRange freq
    if bandRuleFound && skwDoesBwFitRange rr.freqRange freq (mhzToKhz 20) then .ok ⟨addr, rr⟩
    else freqRegInfoLoop freq rules (addr + 1) bandRuleFound

/-- The address of a rule is one more than its place, so that none is NULL. -/
def skwFreqRegInfo (regd : Option Regdomain) (freq : BitVec 32) : Except ℤ RegRulePtr :=
  match regd with
  | none => .error (-EINVAL)
  | some rd => freqRegInfoLoop freq rd.regRules 1 false

/-- What `skw_regd_rule` reads: the domain that the driver was given, whether it manages the
domain itself, and the lookup of cfg80211, which is only asked otherwise. -/
structure RegdWiphy where
  regd : Option Regdomain
  privRegd : Bool
  freqRegInfo : BitVec 32 → Except ℤ RegRulePtr

def skwRegdRule (wiphy : RegdWiphy) (freq : BitVec 32) : Except ℤ RegRulePtr :=
  if wiphy.regd.isSome ∨ wiphy.privRegd then skwFreqRegInfo wiphy.regd (mhzToKhz freq)
  else wiphy.freqRegInfo (mhzToKhz freq)

theorem getElem?_of_freqRegInfoLoop {freq : BitVec 32} {rules : List RegRule} {addr : ℕ}
    {bandRuleFound : Bool} {rr : RegRulePtr}
    (h : freqRegInfoLoop freq rules addr bandRuleFound = .ok rr) :
    addr ≤ rr.addr ∧ rules[rr.addr - addr]? = some rr.rule := by
  induction rules generalizing addr bandRuleFound with
  | nil => cases h
  | cons r rules ih =>
    rw [freqRegInfoLoop] at h
    split_ifs at h with hfit
    · cases h
      simp
    · obtain ⟨hle, hget⟩ := ih h
      refine ⟨by omega, ?_⟩
      have : rr.addr - addr = rr.addr - (addr + 1) + 1 := by omega
      rw [this, List.getElem?_cons_succ, hget]

/-- A pointer that is found points to the rule of the domain at its place. -/
theorem getElem?_of_skwRegdRule {wiphy : RegdWiphy} {rd : Regdomain} {freq : BitVec 32}
    {rr : RegRulePtr} (hrd : wiphy.regd = some rd) (h : skwRegdRule wiphy freq = .ok rr) :
    rd.regRules[rr.addr - 1]? = some rr.rule := by
  have h : skwFreqRegInfo (some rd) (mhzToKhz freq) = .ok rr := by
    simpa [skwRegdRule, hrd] using h
  exact (getElem?_of_freqRegInfoLoop h).2

/-- So two pointers to one place point to one rule. -/
theorem skwRegdRule_inj {wiphy : RegdWiphy} {rd : Regdomain} {freq freq' : BitVec 32}
    {rr rr' : RegRulePtr} (hrd : wiphy.regd = some rd) (h : skwRegdRule wiphy freq = .ok rr)
    (h' : skwRegdRule wiphy freq' = .ok rr') (ha : rr.addr = rr'.addr) : rr.rule = rr'.rule := by
  have hr := getElem?_of_skwRegdRule hrd h
  have hr' := getElem?_of_skwRegdRule hrd h'
  rw [← ha, hr] at hr'
  exact Option.some.inj hr'

/-- The size of `skw_regdom.rules`. -/
abbrev SKW_REGDOM_RULES : ℕ := 8

/-- What is used of `ieee80211_channel`. -/
structure Ieee80211Channel where
  centerFreq : BitVec 32
  hwValue : BitVec 16
deriving DecidableEq

/-- The channels of a band, in ascending order. -/
structure SupportedBand where
  channels : List Ieee80211Channel
  ascending : channels.Pairwise fun c d => c.hwValue.toNat < d.hwValue.toNat

/-- `skw_reg_rule`. -/
structure SkwRegRule where
  startChannel : BitVec 8
  nrChannel : BitVec 8
  maxPower : BitVec 8
  maxGain : BitVec 8
  flags : BitVec 32
deriving DecidableEq

/-- `skw_regdom`. The rules stand in the order in which they are written; those from
`SKW_REGDOM_RULES` on lie outside the array. -/
structure SkwRegdom where
  country : BitVec 8 × BitVec 8
  nrRegRules : BitVec 8
  rules : List SkwRegRule
deriving DecidableEq

def mbmToDbm (gain : BitVec 32) : BitVec 8 := (gain / 100).setWidth 8

def mbiToDbi (gain : BitVec 32) : BitVec 8 := (gain / 100).setWidth 8

/-- The walk: the message, `_rr`, and the band in which each rule was begun, which is not sent. -/
structure RegdomWalk where
  regd : SkwRegdom
  lastRr : Option ℕ
  begun : List ℕ

namespace RegdomWalk

/-- A new rule at `rules[idx++]`. -/
def newRule (w : RegdomWalk) (band : ℕ) (chn : Ieee80211Channel) (rr : RegRulePtr) :
    RegdomWalk where
  regd :=
    { w.regd with
      nrRegRules := w.regd.nrRegRules + 1
      rules := w.regd.rules ++
        [{ startChannel := chn.hwValue.setWidth 8
           nrChannel := 0
           maxPower := mbmToDbm rr.rule.powerRule.maxEirp
           maxGain := mbiToDbi rr.rule.powerRule.maxAntennaGain
           flags := rr.rule.flags }] }
  lastRr := some rr.addr
  begun := w.begun ++ [band]

/-- The newest rule is made to reach to the channel. -/
def reach (w : RegdomWalk) (chn : Ieee80211Channel) : RegdomWalk :=
  { w with regd := { w.regd with rules := w.regd.rules.modifyLast fun rule =>
      { rule with nrChannel := chn.hwValue.setWidth 8 - rule.startChannel + 1 } } }

/-- A channel with a rule that lets it be used. -/
def add (w : RegdomWalk) (band : ℕ) (chn : Ieee80211Channel) (rr : RegRulePtr) : RegdomWalk :=
  let w := if w.lastRr = some rr.addr then w else w.newRule band chn rr
  w.reach chn

/-- One pass of the inner loop. -/
def step (wiphy : RegdWiphy) (band : ℕ) (w : RegdomWalk) (chn : Ieee80211Channel) : RegdomWalk :=
  match skwRegdRule wiphy chn.centerFreq with
  | .error _ => w
  | .ok rr => if rr.rule.flags &&& SKW_RRF_NO_IR ≠ 0 then w else w.add band chn rr

def stepBand (wiphy : RegdWiphy) (w : RegdomWalk) : Option SupportedBand × ℕ → RegdomWalk
  | (none, _) => w
  | (some sband, band) => sband.channels.foldl (step wiphy band) w

end RegdomWalk

/-- The rules that are built from the channels of the bands. -/
def buildRegdom (wiphy : RegdWiphy) (bands : List (Option SupportedBand))
    (alpha2 : BitVec 8 × BitVec 8) : RegdomWalk :=
  bands.zipIdx.foldl (RegdomWalk.stepBand wiphy) ⟨⟨alpha2, 0, []⟩, none, []⟩

/-- What the call leaves: its value, the message that was sent, and `skw->country`. -/
structure SetRegdomResult where
  ret : ℤ
  sent : Option SkwRegdom
  country : BitVec 8 × BitVec 8

def skwCmdSetRegdom (wiphy : RegdWiphy) (bands : List (Option SupportedBand))
    (country alpha2 : BitVec 8 × BitVec 8) (xmit : SkwRegdom → ℤ) : SetRegdomResult :=
  let regd := (buildRegdom wiphy bands alpha2).regd
  if regd.nrRegRules = 0 then ⟨0, none, country⟩
  else
    let ret := xmit regd
    ⟨ret, some regd, if ret = 0 then alpha2 else country⟩

/-- The rule that lets a channel be used: one without `SKW_RRF_NO_IR`. -/
def usableRule (wiphy : RegdWiphy) (chn : Ieee80211Channel) : Option RegRulePtr :=
  match skwRegdRule wiphy chn.centerFreq with
  | .error _ => none
  | .ok rr => if rr.rule.flags &&& SKW_RRF_NO_IR ≠ 0 then none else some rr

theorem skwRegdRule_of_usableRule {wiphy : RegdWiphy} {chn : Ieee80211Channel} {rr : RegRulePtr}
    (h : usableRule wiphy chn = some rr) : skwRegdRule wiphy chn.centerFreq = .ok rr := by
  unfold usableRule at h
  cases hr : skwRegdRule wiphy chn.centerFreq with
  | error e => simp [hr] at h
  | ok rr' =>
    simp only [hr] at h
    split_ifs at h
    rw [← Option.some.inj h]

theorem usableRule_inj {wiphy : RegdWiphy} {rd : Regdomain} {chn chn' : Ieee80211Channel}
    {rr rr' : RegRulePtr} (hrd : wiphy.regd = some rd) (h : usableRule wiphy chn = some rr)
    (h' : usableRule wiphy chn' = some rr') (ha : rr.addr = rr'.addr) : rr.rule = rr'.rule :=
  skwRegdRule_inj hrd (skwRegdRule_of_usableRule h) (skwRegdRule_of_usableRule h') ha

/-- A channel that can be used, with its band and its rule. -/
structure UsableChannel where
  band : ℕ
  chn : Ieee80211Channel
  rr : RegRulePtr

namespace UsableChannel

/-- The order in which the walk meets the channels. -/
def Before (x y : UsableChannel) : Prop :=
  x.band < y.band ∨ x.band = y.band ∧ x.chn.hwValue.toNat < y.chn.hwValue.toNat

end UsableChannel

def usableChannels (wiphy : RegdWiphy) (bands : List (Option SupportedBand)) :
    List UsableChannel :=
  bands.zipIdx.flatMap fun
    | (none, _) => []
    | (some sband, band) => sband.channels.filterMap fun chn =>
        (usableRule wiphy chn).map fun rr => ⟨band, chn, rr⟩

/-- The channels that can be used, cut into runs of neighbours with the same rule. -/
def ruleRuns (wiphy : RegdWiphy) (bands : List (Option SupportedBand)) :
    List (List UsableChannel) :=
  Lib.runs (fun x => x.rr.addr) (usableChannels wiphy bands)

/-- The rule that a run leads to: it starts with the first channel and reaches to the last. -/
def ruleOf : List UsableChannel → SkwRegRule
  | [] => ⟨0, 0, 0, 0, 0⟩
  | x :: xs =>
    { startChannel := x.chn.hwValue.setWidth 8
      nrChannel := (xs.getLastD x).chn.hwValue.setWidth 8 - x.chn.hwValue.setWidth 8 + 1
      maxPower := mbmToDbm x.rr.rule.powerRule.maxEirp
      maxGain := mbiToDbi x.rr.rule.powerRule.maxAntennaGain
      flags := x.rr.rule.flags }

def bandOf : List UsableChannel → ℕ
  | [] => 0
  | x :: _ => x.band

section
variable {wiphy : RegdWiphy} {bands : List (Option SupportedBand)} {alpha2 : BitVec 8 × BitVec 8}

theorem step_eq (w : RegdomWalk) (band : ℕ) (chn : Ieee80211Channel) :
    w.step wiphy band chn =
      match usableRule wiphy chn with
      | none => w
      | some rr => w.add band chn rr := by
  unfold RegdomWalk.step usableRule
  cases skwRegdRule wiphy chn.centerFreq with
  | error e => rfl
  | ok rr =>
    dsimp only
    split_ifs with hno
    · rfl
    · rfl

/-- The walk over the bands goes over the channels that can be used. -/
theorem buildRegdom_eq (alpha2 : BitVec 8 × BitVec 8) : buildRegdom wiphy bands alpha2 =
    (usableChannels wiphy bands).foldl (fun w x => w.add x.band x.chn x.rr)
      ⟨⟨alpha2, 0, []⟩, none, []⟩ := by
  rw [buildRegdom, usableChannels, List.foldl_flatMap]
  congr 1
  funext w p
  rcases p with ⟨_ | sband, band⟩
  · rfl
  · rw [RegdomWalk.stepBand, List.foldl_filterMap]
    congr 1
    funext w chn
    rw [step_eq]
    cases usableRule wiphy chn with
    | none => rfl
    | some rr => rfl

/-- What the walk holds after some channels. -/
structure Built (l : List UsableChannel) (w : RegdomWalk) : Prop where
  rules : w.regd.rules = (Lib.runs (fun x => x.rr.addr) l).map ruleOf
  begun : w.begun = (Lib.runs (fun x => x.rr.addr) l).map bandOf
  lastRr : w.lastRr = l.getLast?.map fun x => x.rr.addr
  nrRegRules : w.regd.nrRegRules = BitVec.ofNat 8 w.regd.rules.length

theorem Built.add {l : List UsableChannel} {w : RegdomWalk} (h : Built l w) (x : UsableChannel) :
    Built (l ++ [x]) (w.add x.band x.chn x.rr) := by
  by_cases hx : w.lastRr = some x.rr.addr
  · -- the newest run goes on
    obtain ⟨y, hy, ha⟩ := Option.map_eq_some_iff.1 (h.lastRr ▸ hx)
    obtain ⟨gs, g, hg, hyg⟩ := Lib.exists_runs_eq_concat (fun x => x.rr.addr) hy
    have hruns := Lib.runs_concat_of_eq hg (a := x) fun z hz => by
      rw [Option.mem_unique hz hyg, ha]
    obtain ⟨f, fs, rfl⟩ : ∃ f fs, g = f :: fs :=
      List.exists_cons_of_ne_nil (by rintro rfl; simp at hyg)
    have hrules := h.rules
    have hbegun := h.begun
    rw [hg, List.map_append, List.map_singleton] at hrules hbegun
    simp only [RegdomWalk.add, if_pos hx, RegdomWalk.reach]
    refine ⟨?_, ?_, ?_, ?_⟩
    · rw [hruns, hrules, List.modifyLast_concat]
      simp [ruleOf]
    · rw [hruns, hbegun]
      simp [bandOf]
    · simp [hx]
    · rw [hrules, List.modifyLast_concat, h.nrRegRules, hrules]
      simp
  · have hne : ∀ y ∈ l.getLast?, y.rr.addr ≠ x.rr.addr := by
      intro y hy he
      rw [h.lastRr, Option.mem_def.1 hy, Option.map_some, he] at hx
      exact hx rfl
    have hruns := Lib.runs_concat_of_ne hne
    simp only [RegdomWalk.add, if_neg hx, RegdomWalk.reach, RegdomWalk.newRule]
    refine ⟨?_, ?_, ?_, ?_⟩
    · rw [hruns, h.rules, List.modifyLast_concat]
      simp [ruleOf]
    · rw [hruns, h.begun]
      simp [bandOf]
    · simp
    · rw [List.modifyLast_concat, h.nrRegRules]
      simp [BitVec.ofNat_add]

theorem built_buildRegdom (alpha2 : BitVec 8 × BitVec 8) :
    Built (usableChannels wiphy bands) (buildRegdom wiphy bands alpha2) := by
  rw [buildRegdom_eq]
  induction usableChannels wiphy bands using List.reverseRecOn with
  | nil => exact ⟨rfl, rfl, rfl, rfl⟩
  | append_singleton l x ih =>
    rw [List.foldl_append]
    exact ih.add x

/-- With at most eight runs the message has their number and is left out only when no channel can
be used. -/
theorem skwCmdSetRegdom_sent (country : BitVec 8 × BitVec 8) (xmit : SkwRegdom → ℤ)
    (hfit : (ruleRuns wiphy bands).length ≤ SKW_REGDOM_RULES) :
    (buildRegdom wiphy bands alpha2).regd.nrRegRules.toNat = (ruleRuns wiphy bands).length ∧
      (skwCmdSetRegdom wiphy bands country alpha2 xmit).sent =
        if usableChannels wiphy bands = [] then none
        else some (buildRegdom wiphy bands alpha2).regd := by
  have hb : Built (usableChannels wiphy bands) (buildRegdom wiphy bands alpha2) :=
    built_buildRegdom alpha2
  have hfit : (ruleRuns wiphy bands).length ≤ 8 := hfit
  have hlen : (buildRegdom wiphy bands alpha2).regd.rules.length =
      (ruleRuns wiphy bands).length := by
    rw [hb.rules, List.length_map]
    rfl
  have hnr : (buildRegdom wiphy bands alpha2).regd.nrRegRules.toNat =
      (ruleRuns wiphy bands).length := by
    rw [hb.nrRegRules, hlen, BitVec.toNat_ofNat]
    omega
  have hnil : (ruleRuns wiphy bands).length = 0 ↔ usableChannels wiphy bands = [] := by
    rw [List.length_eq_zero_iff]
    exact List.splitBy_eq_nil
  have hzero : (buildRegdom wiphy bands alpha2).regd.nrRegRules = 0 ↔
      usableChannels wiphy bands = [] := by
    rw [← hnil, ← hnr]
    exact BitVec.toNat_eq
  refine ⟨hnr, ?_⟩
  simp only [skwCmdSetRegdom]
  by_cases hu : usableChannels wiphy bands = []
  · rw [if_pos (hzero.2 hu), if_pos hu]
  · rw [if_neg (mt hzero.1 hu), if_neg hu]

/-- A message that fails leaves the country. -/
theorem skwCmdSetRegdom_country {country : BitVec 8 × BitVec 8} {xmit : SkwRegdom → ℤ}
    (h : (skwCmdSetRegdom wiphy bands country alpha2 xmit).ret ≠ 0) :
    (skwCmdSetRegdom wiphy bands country alpha2 xmit).country = country := by
  simp only [skwCmdSetRegdom] at h ⊢
  split_ifs at h ⊢ with hn hx
  · rfl
  · exact absurd hx h
  · rfl

end

end Skw
