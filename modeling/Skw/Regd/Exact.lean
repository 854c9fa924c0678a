import Skw.Regd.Regdom

/-! When the ranges that are sent say of every channel what the rules of the domain say. A range
goes on over what lies between two channels with one rule, over channels that cannot be used and
over the end of a band, and its numbers have 8 bits. -/
namespace Skw

/-- The channel number lies in the range of the rule. -/
def SkwRegRule.Covers (r : SkwRegRule) (n : ℕ) : Prop :=
  r.startChannel.toNat ≤ n ∧ n < r.startChannel.toNat + r.nrChannel.toNat

/-- A rule of a band whose range has the number. -/
def RegdomWalk.Covers (w : RegdomWalk) (band n : ℕ) (r : SkwRegRule) : Prop :=
  ∃ k : ℕ, w.regd.rules[k]? = some r ∧ w.begun[k]? = some band ∧ r.Covers n

/-- The rules fit into the array; a channel lies in the range of a rule of its band exactly when a
rule of the domain lets it be used; and such a range has the values of that rule. -/
structure RegdomExact (wiphy : RegdWiphy) (bands : List (Option SupportedBand))
    (w : RegdomWalk) : Prop where
  fits : w.regd.rules.length ≤ SKW_REGDOM_RULES
  covered : ∀ band sband, bands[band]? = some (some sband) → ∀ chn ∈ sband.channels,
    (∃ r, w.Covers band chn.hwValue.toNat r) ↔ ∃ rr, usableRule wiphy chn = some rr
  values : ∀ band sband, bands[band]? = some (some sband) → ∀ chn ∈ sband.channels,
    ∀ rr, usableRule wiphy chn = some rr → ∀ r, w.Covers band chn.hwValue.toNat r →
      r.maxPower = mbmToDbm rr.rule.powerRule.maxEirp ∧
        r.maxGain = mbiToDbi rr.rule.powerRule.maxAntennaGain ∧ r.flags = rr.rule.flags

/-- A run lies in one band, begins with a number of 8 bits and has fewer than 256 numbers, and no
channel of the band between two of the run is without a rule that lets it be used. -/
structure RunExact (wiphy : RegdWiphy) (bands : List (Option SupportedBand))
    (g : List UsableChannel) : Prop where
  band : ∀ x ∈ g, x.band = bandOf g
  narrow : ∀ x ∈ g.head?, x.chn.hwValue.toNat ≤ 255 ∧
    ∀ y ∈ g, y.chn.hwValue.toNat < x.chn.hwValue.toNat + 255
  whole : ∀ x ∈ g, ∀ y ∈ g, ∀ sband, bands[x.band]? = some (some sband) →
    ∀ chn ∈ sband.channels, x.chn.hwValue.toNat ≤ chn.hwValue.toNat →
      chn.hwValue.toNat ≤ y.chn.hwValue.toNat → ∃ rr, usableRule wiphy chn = some rr

section
variable {wiphy : RegdWiphy} {bands : List (Option SupportedBand)} {alpha2 : BitVec 8 × BitVec 8}
  {g h : List UsableChannel} {x y z : UsableChannel}

theorem mem_usableChannels : x ∈ usableChannels wiphy bands ↔
    ∃ sband, bands[x.band]? = some (some sband) ∧ x.chn ∈ sband.channels ∧
      usableRule wiphy x.chn = some x.rr := by
  rw [usableChannels, List.mem_flatMap]
  constructor
  · rintro ⟨⟨_ | sband, band⟩, hb, hx⟩
    · simp at hx
    · obtain ⟨chn, hchn, hx⟩ := List.mem_filterMap.1 hx
      obtain ⟨rr, hrr, rfl⟩ := Option.map_eq_some_iff.1 hx
      exact ⟨sband, List.mem_zipIdx_iff_getElem?.1 hb, hchn, hrr⟩
  · rintro ⟨sband, hb, hchn, hrr⟩
    refine ⟨(some sband, x.band), List.mem_zipIdx_iff_getElem?.2 hb, ?_⟩
    exact List.mem_filterMap.2 ⟨x.chn, hchn, by rw [hrr]; rfl⟩

theorem pairwise_usableChannels :
    (usableChannels wiphy bands).Pairwise UsableChannel.Before := by
  rw [usableChannels, List.pairwise_flatMap]
  constructor
  · rintro ⟨_ | sband, band⟩ -
    · exact List.Pairwise.nil
    · refine List.pairwise_filterMap.2 (sband.ascending.imp fun hlt => ?_)
      rintro x hx y hy
      obtain ⟨rr, -, rfl⟩ := Option.map_eq_some_iff.1 hx
      obtain ⟨rr', -, rfl⟩ := Option.map_eq_some_iff.1 hy
      exact Or.inr ⟨rfl, hlt⟩
  · have hlt : (bands.zipIdx.map Prod.snd).Pairwise (· < ·) := by
      rw [List.zipIdx_map_snd]
      exact List.pairwise_lt_range'
    refine (List.pairwise_map.1 hlt).imp ?_
    rintro ⟨_ | sband, band⟩ ⟨_ | sband', band'⟩ hlt x hx y hy
    · simp at hx
    · simp at hx
    · simp at hy
    · obtain ⟨chn, -, hx⟩ := List.mem_filterMap.1 hx
      obtain ⟨chn', -, hy⟩ := List.mem_filterMap.1 hy
      obtain ⟨rr, -, rfl⟩ := Option.map_eq_some_iff.1 hx
      obtain ⟨rr', -, rfl⟩ := Option.map_eq_some_iff.1 hy
      exact Or.inl hlt

/-- The first and the last channel of a run, and the rule that it leads to. -/
structure Ends (g : List UsableChannel) (x z : UsableChannel) : Prop where
  head : g.head? = some x
  band : bandOf g = x.band
  firstMem : x ∈ g
  lastMem : z ∈ g
  le : ∀ y ∈ g, x = y ∨ x.Before y
  ge : ∀ y ∈ g, y = z ∨ y.Before z
  rule : ruleOf g =
    { startChannel := x.chn.hwValue.setWidth 8
      nrChannel := z.chn.hwValue.setWidth 8 - x.chn.hwValue.setWidth 8 + 1
      maxPower := mbmToDbm x.rr.rule.powerRule.maxEirp
      maxGain := mbiToDbi x.rr.rule.powerRule.maxAntennaGain
      flags := x.rr.rule.flags }

theorem exists_ends (hg : g ∈ ruleRuns wiphy bands) : ∃ x z, Ends g x z := by
  have hp := Lib.pairwise_of_mem_runs pairwise_usableChannels hg
  obtain ⟨x, xs, rfl⟩ := List.exists_cons_of_ne_nil (Lib.ne_nil_of_mem_runs hg)
  have hlast : (x :: xs).dropLast ++ [xs.getLastD x] = x :: xs := by
    rw [← List.getLast_eq_getLastD (List.cons_ne_nil x xs)]
    exact List.dropLast_append_getLast _
  refine ⟨x, xs.getLastD x, rfl, rfl, List.mem_cons_self, List.getLastD_mem_cons ..,
    fun y hy => ?_, fun y hy => ?_, rfl⟩
  · rcases List.mem_cons.1 hy with rfl | hy
    · exact Or.inl rfl
    · exact Or.inr ((List.pairwise_cons.1 hp).1 y hy)
  · rw [← hlast] at hp hy
    rcases List.mem_append.1 hy with hy | hy
    · exact Or.inr ((List.pairwise_append.1 hp).2.2 y hy _ (List.mem_singleton_self _))
    · exact Or.inl (List.mem_singleton.1 hy)

namespace Ends

theorem eq_head (e : Ends g x z) (hy : y ∈ g.head?) : y = x := Option.mem_unique hy e.head

/-- Within a band a range does not reach beyond the last channel of its run. -/
theorem not_covers_of_lt (e : Ends g x z) (hb : x.band = y.band)
    (hlt : ∀ w ∈ g, w.Before y) : ¬ (ruleOf g).Covers y.chn.hwValue.toNat := by
  intro hc
  have hzy := hlt z e.lastMem
  have hxz : x.chn.hwValue.toNat ≤ z.chn.hwValue.toNat ∧
      z.chn.hwValue.toNat < y.chn.hwValue.toNat := by
    rcases e.le z e.lastMem with rfl | hxz
    · unfold UsableChannel.Before at hzy
      omega
    · unfold UsableChannel.Before at hzy hxz
      omega
  rw [e.rule] at hc
  unfold SkwRegRule.Covers at hc
  dsimp only at hc
  bv_omega

/-- The range of a run in one band is exact unless its numbers need more than 8 bits. -/
theorem covers_iff (e : Ends g x z) (hx : x.chn.hwValue.toNat ≤ 255)
    (hz : z.chn.hwValue.toNat < x.chn.hwValue.toNat + 255)
    (hle : x.chn.hwValue.toNat ≤ z.chn.hwValue.toNat) (n : ℕ) :
    (ruleOf g).Covers n ↔ x.chn.hwValue.toNat ≤ n ∧ n ≤ z.chn.hwValue.toNat := by
  rw [e.rule]
  unfold SkwRegRule.Covers
  dsimp only
  bv_omega

/-- A range that begins with a number of more than 8 bits leaves out this number. -/
theorem not_covers_first (e : Ends g x z) (hx : 256 ≤ x.chn.hwValue.toNat) :
    ¬ (ruleOf g).Covers x.chn.hwValue.toNat := by
  rw [e.rule]
  unfold SkwRegRule.Covers
  dsimp only
  bv_omega

/-- A number of a range is not less than that of the first channel, if that has 8 bits. -/
theorem le_of_covers (e : Ends g x z) (hx : x.chn.hwValue.toNat ≤ 255) {n : ℕ}
    (hc : (ruleOf g).Covers n) :
    x.chn.hwValue.toNat ≤ n ∧ n < x.chn.hwValue.toNat + 255 := by
  rw [e.rule] at hc
  unfold SkwRegRule.Covers at hc
  dsimp only at hc
  bv_omega

end Ends

/-- The rules of a band are those that its runs lead to. -/
theorem covers_buildRegdom_iff {band n : ℕ} {r : SkwRegRule} :
    (buildRegdom wiphy bands alpha2).Covers band n r ↔
      ∃ g ∈ ruleRuns wiphy bands, bandOf g = band ∧ ruleOf g = r ∧ r.Covers n := by
  have hb : Built (usableChannels wiphy bands) (buildRegdom wiphy bands alpha2) :=
    built_buildRegdom alpha2
  unfold RegdomWalk.Covers
  rw [hb.rules, hb.begun]
  change (∃ k : ℕ, ((ruleRuns wiphy bands).map ruleOf)[k]? = some r ∧
    ((ruleRuns wiphy bands).map bandOf)[k]? = some band ∧ r.Covers n) ↔ _
  simp only [List.getElem?_map, Option.map_eq_some_iff]
  constructor
  · rintro ⟨k, ⟨g, hg, hr⟩, ⟨g', hg', hband⟩, hc⟩
    obtain rfl : g = g' := Option.some.inj (hg.symm.trans hg')
    exact ⟨g, List.mem_of_getElem? hg, hband, hr, hc⟩
  · rintro ⟨g, hg, hband, hr, hc⟩
    obtain ⟨k, hk⟩ := List.getElem?_of_mem hg
    exact ⟨k, ⟨g, hk, hr⟩, ⟨g, hk, hband⟩, hc⟩

/-- Every channel that can be used lies in the range of a run that begins in its band. -/
def AllCovered (wiphy : RegdWiphy) (bands : List (Option SupportedBand)) : Prop :=
  ∀ x ∈ usableChannels wiphy bands,
    ∃ g ∈ ruleRuns wiphy bands, bandOf g = x.band ∧ (ruleOf g).Covers x.chn.hwValue.toNat

/-- Then no run begins with a number of more than 8 bits: the last of them in a band would not be
covered by itself, nor by those before it. -/
theorem AllCovered.first_le (hc : AllCovered wiphy bands) (hg : g ∈ ruleRuns wiphy bands)
    (e : Ends g x z) : x.chn.hwValue.toNat ≤ 255 := by
  induction hn : 2 ^ 16 - x.chn.hwValue.toNat using Nat.strong_induction_on generalizing g x z with
  | h n ih =>
    by_contra hx
    obtain ⟨h, hh, hb, hcov⟩ := hc x (Lib.mem_of_mem_runs hg e.firstMem)
    obtain ⟨x', z', e'⟩ := exists_ends hh
    have hb' : x'.band = x.band := e'.band.symm.trans hb
    rcases Lib.runs_trichotomy pairwise_usableChannels hg hh with rfl | hlt | hlt
    · exact e.not_covers_first (by omega) hcov
    · -- the run that covers it begins later in the band
      have hxx : x.Before x' := hlt x e.firstMem x' e'.firstMem
      unfold UsableChannel.Before at hxx
      have := ih (2 ^ 16 - x'.chn.hwValue.toNat) (by omega) hh e' rfl
      omega
    · exact e'.not_covers_of_lt hb' (fun w hw => hlt x e.firstMem w hw) hcov

/-- Then each channel that can be used is covered by its own run, which begins in its band. -/
theorem AllCovered.own (hc : AllCovered wiphy bands) (hg : g ∈ ruleRuns wiphy bands)
    (hy : y ∈ g) : bandOf g = y.band ∧ (ruleOf g).Covers y.chn.hwValue.toNat := by
  obtain ⟨h, hh, hb, hcov⟩ := hc y (Lib.mem_of_mem_runs hg hy)
  obtain ⟨x', z', e'⟩ := exists_ends hh
  have hb' : x'.band = y.band := e'.band.symm.trans hb
  rcases Lib.runs_trichotomy pairwise_usableChannels hg hh with rfl | hlt | hlt
  · exact ⟨hb, hcov⟩
  · have hyx : y.Before x' := hlt y hy x' e'.firstMem
    have := e'.le_of_covers (hc.first_le hh e') hcov
    unfold UsableChannel.Before at hyx
    omega
  · exact absurd hcov (e'.not_covers_of_lt hb' fun w hw => hlt y hy w hw)

theorem RegdomExact.runExact (he : RegdomExact wiphy bands (buildRegdom wiphy bands alpha2))
    (hg : g ∈ ruleRuns wiphy bands) : RunExact wiphy bands g := by
  have hc : AllCovered wiphy bands := by
    intro x hx
    obtain ⟨sband, hb, hchn, hrr⟩ := mem_usableChannels.1 hx
    obtain ⟨r, hr⟩ := (he.covered x.band sband hb x.chn hchn).2 ⟨x.rr, hrr⟩
    obtain ⟨g, hg, hband, rfl, hcov⟩ := covers_buildRegdom_iff.1 hr
    exact ⟨g, hg, hband, hcov⟩
  obtain ⟨x, z, e⟩ := exists_ends hg
  have hx := hc.first_le hg e
  refine ⟨fun y hy => (hc.own hg hy).1.symm, fun y hy => ?_, ?_⟩
  · rw [e.eq_head hy]
    exact ⟨hx, fun w hw => (e.le_of_covers hx (hc.own hg hw).2).2⟩
  · intro y hy w hw sband hb chn hchn hle hge
    refine (he.covered y.band sband hb chn hchn).1 ⟨ruleOf g, ?_⟩
    refine covers_buildRegdom_iff.2 ⟨g, hg, (hc.own hg hy).1, rfl, ?_⟩
    have hcy := (hc.own hg hy).2
    have hcw := (hc.own hg hw).2
    exact ⟨hcy.1.trans hle, hge.trans_lt hcw.2⟩

/-- A run in one band with numbers of 8 bits covers exactly what lies between its ends. -/
theorem RunExact.covers_iff (hr : RunExact wiphy bands g) (e : Ends g x z) (n : ℕ) :
    (ruleOf g).Covers n ↔ x.chn.hwValue.toNat ≤ n ∧ n ≤ z.chn.hwValue.toNat := by
  obtain ⟨hx, hn⟩ := hr.narrow x e.head
  refine e.covers_iff hx (hn z e.lastMem) ?_ n
  have hb : x.band = z.band := (hr.band x e.firstMem).trans (hr.band z e.lastMem).symm
  rcases e.le z e.lastMem with rfl | hxz
  · exact Nat.le_refl _
  · unfold UsableChannel.Before at hxz
    omega

/-- A channel that can be used is covered by its own run and by no other run of its band. -/
theorem mem_iff_covers (hr : ∀ g ∈ ruleRuns wiphy bands, RunExact wiphy bands g)
    (hx : x ∈ usableChannels wiphy bands) (hg : g ∈ ruleRuns wiphy bands)
    (hb : bandOf g = x.band) : (ruleOf g).Covers x.chn.hwValue.toNat ↔ x ∈ g := by
  obtain ⟨f, z, e⟩ := exists_ends hg
  have hbf : f.band = x.band := e.band.symm.trans hb
  have hbz : z.band = x.band := ((hr g hg).band z e.lastMem).trans hb
  rw [(hr g hg).covers_iff e]
  constructor
  · intro hc
    obtain ⟨h, hh, hxh⟩ := Lib.exists_mem_runs (fun x => x.rr.addr) hx
    rcases Lib.runs_trichotomy pairwise_usableChannels hg hh with rfl | hlt | hlt
    · exact hxh
    · have hzx : z.Before x := hlt z e.lastMem x hxh
      unfold UsableChannel.Before at hzx
      omega
    · have hxf : x.Before f := hlt f e.firstMem x hxh
      unfold UsableChannel.Before at hxf
      omega
  · intro hxg
    have hfx := e.le x hxg
    have hxz := e.ge x hxg
    constructor
    · rcases hfx with rfl | hfx
      · exact Nat.le_refl _
      · unfold UsableChannel.Before at hfx
        omega
    · rcases hxz with rfl | hxz
      · exact Nat.le_refl _
      · unfold UsableChannel.Before at hxz
        omega

end

/-- The rules that are sent for a domain are exact in just these cases: the channels that can be
used make at most eight runs, and each run is exact. -/
theorem buildRegdom_exact_iff (rd : Regdomain) (privRegd : Bool)
    (freqRegInfo : BitVec 32 → Except ℤ RegRulePtr) (bands : List (Option SupportedBand))
    (alpha2 : BitVec 8 × BitVec 8) :
    RegdomExact ⟨some rd, privRegd, freqRegInfo⟩ bands
        (buildRegdom ⟨some rd, privRegd, freqRegInfo⟩ bands alpha2) ↔
      (ruleRuns ⟨some rd, privRegd, freqRegInfo⟩ bands).length ≤ SKW_REGDOM_RULES ∧
        ∀ g ∈ ruleRuns ⟨some rd, privRegd, freqRegInfo⟩ bands,
          RunExact ⟨some rd, privRegd, freqRegInfo⟩ bands g := by
  generalize hw : (⟨some rd, privRegd, freqRegInfo⟩ : RegdWiphy) = wiphy
  have hrd : wiphy.regd = some rd := by rw [← hw]
  have hlen : (buildRegdom wiphy bands alpha2).regd.rules.length =
      (ruleRuns wiphy bands).length := by
    rw [(built_buildRegdom alpha2).rules, List.length_map]
    rfl
  constructor
  · intro he
    exact ⟨hlen ▸ he.fits, fun g hg => he.runExact hg⟩
  · rintro ⟨hfit, hr⟩
    refine ⟨hlen ▸ hfit, ?_, ?_⟩
    · intro band sband hb chn hchn
      constructor
      · rintro ⟨r, hc⟩
        obtain ⟨g, hg, hband, rfl, hc⟩ := covers_buildRegdom_iff.1 hc
        obtain ⟨x, z, e⟩ := exists_ends hg
        obtain ⟨hle, hge⟩ := ((hr g hg).covers_iff e _).1 hc
        have hx : x.band = band := e.band.symm.trans hband
        exact (hr g hg).whole x e.firstMem z e.lastMem sband (hx ▸ hb) chn hchn hle hge
      · rintro ⟨rr, hrr⟩
        have hx : (⟨band, chn, rr⟩ : UsableChannel) ∈ usableChannels wiphy bands :=
          mem_usableChannels.2 ⟨sband, hb, hchn, hrr⟩
        obtain ⟨g, hg, hxg⟩ := Lib.exists_mem_runs (fun x => x.rr.addr) hx
        have hband := ((hr g hg).band _ hxg).symm
        exact ⟨ruleOf g, covers_buildRegdom_iff.2
          ⟨g, hg, hband, rfl, (mem_iff_covers hr hx hg hband).2 hxg⟩⟩
    · intro band sband hb chn hchn rr hrr r hc
      have hx : (⟨band, chn, rr⟩ : UsableChannel) ∈ usableChannels wiphy bands :=
        mem_usableChannels.2 ⟨sband, hb, hchn, hrr⟩
      obtain ⟨g, hg, hband, rfl, hc⟩ := covers_buildRegdom_iff.1 hc
      have hxg := (mem_iff_covers hr hx hg hband).1 hc
      obtain ⟨f, z, e⟩ := exists_ends hg
      -- the rule was begun by the first channel of the run, which has the same rule
      have ha : f.rr.addr = rr.addr := Lib.key_eq_of_mem_runs hg e.firstMem hxg
      obtain ⟨-, -, -, hf⟩ := mem_usableChannels.1 (Lib.mem_of_mem_runs hg e.firstMem)
      have hrule : f.rr.rule = rr.rule := usableRule_inj hrd hf hrr ha
      rw [e.rule, hrule]
      exact ⟨rfl, rfl, rfl⟩

/-- Channels 6, 7 and 8. -/
def threeChannels : SupportedBand where
  channels := [⟨2437, 6⟩, ⟨2442, 7⟩, ⟨2447, 8⟩]
  ascending := by decide

/-- A domain that forbids to begin on channel 7, and lets the band be used otherwise. -/
def channelSevenNoIr : Regdomain where
  regRules :=
    [⟨⟨2432000, 2452000, 20000⟩, ⟨0, 2000⟩, SKW_RRF_NO_IR⟩,
     ⟨⟨2402000, 2482000, 40000⟩, ⟨0, 2000⟩, 0⟩]

/-- The domain is accepted, and the range that is sent goes from channel 6 to channel 8. -/
theorem channelSevenNoIr_not_exact : isSkwValidRd channelSevenNoIr = true ∧
    ¬ RegdomExact ⟨some channelSevenNoIr, false, fun _ => .error (-EINVAL)⟩ [some threeChannels]
      (buildRegdom ⟨some channelSevenNoIr, false, fun _ => .error (-EINVAL)⟩
        [some threeChannels] (0x44, 0x45)) := by
  refine ⟨by decide, fun he => ?_⟩
  obtain ⟨rr, hrr⟩ := (he.covered 0 threeChannels rfl ⟨2442, 7⟩ (by decide)).1
    ⟨⟨6, 3, 20, 0, 0⟩, 0, by decide, by decide, by decide, by decide⟩
  revert hrr
  have hnone : usableRule ⟨some channelSevenNoIr, false, fun _ => .error (-EINVAL)⟩
      ⟨2442, 7⟩ = none := by decide
  rw [hnone]
  exact nofun

end Skw
