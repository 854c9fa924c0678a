import Skw.Config.Fields

/-! When parsing the configuration file is safe. Three things go wrong: a line that fills its buffer
without an end, an address with more than six fields, and an interface entry with a negative
instance. Everything else stays inside its object, for every file. -/
namespace Skw

/-- The characters that are kept of each line of the file. -/
def fileLines (data : Str) : List Str :=
  if h : data = [] then []
  else
    have := length_scanLine_lt 0 h
    (scanLine 0 data).1 :: fileLines (scanLine 0 data).2
termination_by data.length

/-- What a line says; one without an end says nothing. -/
def lineSays (kept : Str) : Line :=
  match lineText SKW_LINE_BUFF_LEN kept with
  | none => .error
  | some s => parseText s

/-- The section behind a line. -/
def nextCfg (cfg : Option CfgSection) : Line → Option CfgSection
  | .config name => CfgSection.find name
  | _ => cfg

/-- The item of a line that goes to the parser of a section, with the section, key and value. -/
def lineItems (cfg : Option CfgSection) : Line → List (CfgSection × Str × Str)
  | .item k v => if k = [] ∨ v = [] then [] else cfg.toList.map fun sec => (sec, k, v)
  | _ => []

/-- The items of lines behind a section. -/
def fileItems : Option CfgSection → List Str → List (CfgSection × Str × Str)
  | _, [] => []
  | cfg, kept :: lines =>
    lineItems cfg (lineSays kept) ++ fileItems (nextCfg cfg (lineSays kept)) lines

/-- The value of an item overruns neither an address nor the array of the interfaces. -/
def ItemOk (detail : Bool) (item : CfgSection × Str × Str) : Prop :=
  (item.1 = .global → item.2.1 = str "mac_addr" → MacOk item.2.2) ∧
    (item.1 = .interface → item.2.1 = str "intf" → IntfOk detail item.2.2)

/-- Every line has an end in its buffer, and every item is in order. -/
structure FileOk (detail : Bool) (cfg : Option CfgSection) (data : Str) : Prop where
  ended : ∀ kept ∈ fileLines data, ¬ (kept.length = SKW_LINE_BUFF_LEN ∧ 0 ∉ kept)
  items : ∀ item ∈ fileItems cfg (fileLines data), ItemOk detail item

/-- The parser ends, without an access outside an object. -/
def ParserSafe (env : CfgEnv) (s : ParserState) : Prop :=
  ∃ fuel t, Lib.loop (ParserState.pass env) fuel (some s) = some (some t)

section
variable {env : CfgEnv} {c : SkwConfig} {key value : CharBuf SKW_LINE_BUFF_LEN}
  {k v : Str}

theorem isSome_skwSetString {n : ℕ} (buff : CharBuf n) {src : Str} (hsrc : 0 ∉ src) :
    ∃ b, skwSetString buff src = some b := by
  unfold skwSetString
  split_ifs with h
  · obtain ⟨c, d, hc, hd, -⟩ := buff.string_of_write hsrc h
    exact ⟨d, by rw [hc]; exact hd⟩
  · exact ⟨buff, rfl⟩

theorem isSome_skwGlobalParser_iff (hk : key.string 0 = some k) (hv : value.string 0 = some v) :
    (skwGlobalParser c key value).isSome ↔ (k = str "mac_addr" → MacOk v) := by
  have hmac : (skwGetMacAddr value c.mac).isSome ↔ MacOk v := by
    rw [← isSome_macOf_iff (Lib.Fixed.cells_of_string hv).1, skwGetMacAddr, hv]
    change ((macOf v).bind _).isSome ↔ _
    cases macOf v with
    | none => rfl
    | some a => rfl
  rw [skwGlobalParser, hk, hv]
  change (if k = str "mac_addr" then (skwGetMacAddr value c.mac).bind fun mac =>
    some { c with mac := mac } else _).isSome ↔ _
  split_ifs with h₁ h₂ h₃
  · rw [forall_prop_of_true h₁, ← hmac]
    cases skwGetMacAddr value c.mac with
    | none => rfl
    | some m => rfl
  · simp [h₁]
  · simp [h₁]
  · simp [h₁]

theorem isSome_skwIntfParser_iff {detail : Bool} (hk : key.string 0 = some k)
    (hv : value.string 0 = some v) :
    (skwIntfParser c key value detail).isSome ↔ (k = str "intf" → IntfOk detail v) := by
  rw [skwIntfParser, hk]
  change (if k = str "intf" then (skwConfigIntf detail c.intf value).bind fun intf =>
    some { c with intf := intf } else some c).isSome ↔ _
  split_ifs with h
  · rw [forall_prop_of_true h, ← isSome_skwConfigIntf_iff hv]
    cases skwConfigIntf detail c.intf value with
    | none => rfl
    | some m => rfl
  · simp [h]

theorem isSome_skwFirmwareParser (hk : key.string 0 = some k) (hv : value.string 0 = some v) :
    (skwFirmwareParser c key value).isSome := by
  rw [skwFirmwareParser, hk, hv]
  change Option.isSome (if k = str "beacon_timeout" then _ else _)
  split_ifs <;> rfl

theorem isSome_skwCalibParser (hk : key.string 0 = some k) (hv : value.string 0 = some v) :
    (skwCalibParser c key value).isSome := by
  obtain ⟨hv0, -⟩ := Lib.Fixed.cells_of_string hv
  obtain ⟨a, ha⟩ := isSome_skwSetString c.chipAliasName hv0
  obtain ⟨p, hp⟩ := isSome_skwSetString c.project hv0
  rw [skwCalibParser, hk, hv]
  change (if k = str "append_bus_name" then _ else if k = str "append_module_id" then _ else
    if k = str "chip_alias_name" then (skwSetString c.chipAliasName v).bind _ else
    if k = str "project_name" then (skwSetString c.project v).bind _ else _).isSome
  rw [ha, hp]
  split_ifs <;> rfl

theorem isSome_skwRegdomParser (hk : key.string 0 = some k) (hv : value.string 0 = some v) :
    (skwRegdomParser c key value).isSome := by
  have hlen : ((value.cells.drop 0).take 2).length = 2 := by
    rw [List.length_take, List.length_drop, value.length_cells]
    rfl
  have hread : value.read 0 2 = some ((value.cells.drop 0).take 2) := if_pos (by decide)
  obtain ⟨country, hw⟩ := c.country.exists_write (i := 0) (s := (value.cells.drop 0).take 2)
    (by omega)
  rw [skwRegdomParser, hk, hv]
  change Option.isSome (if k = str "self_managed" then _ else if k = str "country" then
    if v.length = 2 then (value.read 0 2).bind fun s => (c.country.write 0 s).bind _ else _ else
      if k = str "ignore_user_hint" then _ else if k = str "ignore_country_ie" then _ else _)
  rw [hread, Option.bind_some, hw]
  split_ifs <;> rfl

theorem isSome_mibParser (a : MibAlloc) (hk : key.string 0 = some k)
    (hv : value.string 0 = some v) : (mibParser c key value a).isSome := by
  rw [mibParser, hk, hv]
  rfl

/-- The parser of a section stays inside the objects unless it is one of two. -/
theorem isSome_parser_iff (env : CfgEnv) (left : ℕ) (c : SkwConfig) (sec : CfgSection)
    (hk : key.string 0 = some k) (hv : value.string 0 = some v) :
    (sec.parser env left c key value).isSome ↔ ItemOk env.detail (sec, k, v) := by
  unfold ItemOk
  cases sec with
  | global => simpa [CfgSection.parser] using isSome_skwGlobalParser_iff hk hv
  | interface => simpa [CfgSection.parser] using isSome_skwIntfParser_iff hk hv
  | calib => simpa [CfgSection.parser] using isSome_skwCalibParser hk hv
  | regdom => simpa [CfgSection.parser] using isSome_skwRegdomParser hk hv
  | roaming => simp [CfgSection.parser]
  | firmware => simpa [CfgSection.parser] using isSome_skwFirmwareParser hk hv
  | band => simp [CfgSection.parser]
  | mib => simpa [CfgSection.parser] using isSome_mibParser (env.alloc left) hk hv

theorem item_eq {s : ParserState} (hk : s.bufs.key.string 0 = some k)
    (hv : s.bufs.value.string 0 = some v) :
    s.item env = if k = [] ∨ v = [] then some s else
      match s.cfg with
      | none => some s
      | some cfg =>
        (cfg.parser env s.data.length s.config s.bufs.key s.bufs.value).bind fun config =>
          some { s with config := config } := by
  rw [ParserState.item, hk, hv]
  rfl

/-- What a pass hands on: the data, the section, and whether its items are in order. -/
theorem item_spec {s : ParserState} (hk : s.bufs.key.string 0 = some k)
    (hv : s.bufs.value.string 0 = some v) :
    ((s.item env).isSome ↔ ∀ i ∈ lineItems s.cfg (.item k v), ItemOk env.detail i) ∧
      ∀ t, s.item env = some t → t.data = s.data ∧ t.cfg = s.cfg := by
  rw [item_eq hk hv, lineItems]
  by_cases he : k = [] ∨ v = []
  · rw [if_pos he, if_pos he]
    exact ⟨by simp, fun t ht => by rw [← Option.some.inj ht]; exact ⟨rfl, rfl⟩⟩
  · rw [if_neg he, if_neg he]
    cases hcfg : s.cfg with
    | none => exact ⟨by simp, fun t ht => by rw [← Option.some.inj ht]; exact ⟨rfl, hcfg⟩⟩
    | some cfg =>
      have hiff := isSome_parser_iff env s.data.length s.config cfg hk hv
      dsimp only
      cases hp : cfg.parser env s.data.length s.config s.bufs.key s.bufs.value with
      | none =>
        rw [hp] at hiff
        refine ⟨?_, fun t ht => by cases ht⟩
        simpa using hiff
      | some config =>
        rw [hp] at hiff
        refine ⟨by simpa using hiff, fun t ht => ?_⟩
        rw [← Option.some.inj ht]
        exact ⟨rfl, rfl⟩

/-- A line that has an end, behind the section that holds there. -/
theorem line_spec (env : CfgEnv) (s : ParserState) {buf : CharBuf SKW_LINE_BUFF_LEN} {text : Str}
    (h : buf.string 0 = some text) :
    ((s.line env buf).isSome ↔
        ∀ i ∈ lineItems s.cfg (parseText text), ItemOk env.detail i) ∧
      ∀ t, s.line env buf = some t → t.data = s.data ∧ t.cfg = nextCfg s.cfg (parseText text) := by
  obtain ⟨ty, b, hb, hmeaning⟩ := skwLineParser_eq h s.bufs
  cases hp : parseText text with
  | error =>
    rw [hp] at hmeaning
    subst hmeaning
    rw [ParserState.line, hb]
    exact ⟨by simp [lineItems], fun t ht => by rw [← Option.some.inj ht]; exact ⟨rfl, rfl⟩⟩
  | comment =>
    rw [hp] at hmeaning
    subst hmeaning
    rw [ParserState.line, hb]
    exact ⟨by simp [lineItems], fun t ht => by rw [← Option.some.inj ht]; exact ⟨rfl, rfl⟩⟩
  | config name =>
    rw [hp] at hmeaning
    obtain ⟨rfl, hname⟩ := hmeaning
    have hline : s.line env buf =
        some { s with bufs := b, cfg := CfgSection.find name } := by
      rw [ParserState.line, hb]
      change (b.sec.string 0).bind _ = _
      rw [hname]
      rfl
    rw [hline]
    exact ⟨by simp [lineItems], fun t ht => by rw [← Option.some.inj ht]; exact ⟨rfl, rfl⟩⟩
  | item k v =>
    rw [hp] at hmeaning
    obtain ⟨rfl, hk, hv⟩ := hmeaning
    have hline : s.line env buf = ParserState.item env { s with bufs := b } := by
      rw [ParserState.line, hb]
      rfl
    rw [hline]
    exact item_spec hk hv

theorem lineText_eq_none_iff {n : ℕ} {kept : Str} :
    lineText n kept = none ↔ kept.length = n ∧ 0 ∉ kept := by
  unfold lineText
  split_ifs with hlong hfull
  · exact iff_of_false nofun fun h => absurd h.1 (by omega)
  · exact iff_of_true rfl hfull
  · exact iff_of_false nofun hfull

theorem fileOk_nil (detail : Bool) (cfg : Option CfgSection) : FileOk detail cfg [] := by
  have h : fileLines [] = [] := by rw [fileLines, dif_pos rfl]
  refine ⟨?_, ?_⟩
  · rw [h]
    exact List.forall_mem_nil _
  · rw [h]
    exact List.forall_mem_nil _

theorem fileOk_iff {detail : Bool} {cfg : Option CfgSection} {data : Str} (h : data ≠ []) :
    FileOk detail cfg data ↔
      ¬ ((scanLine 0 data).1.length = SKW_LINE_BUFF_LEN ∧ 0 ∉ (scanLine 0 data).1) ∧
        (∀ i ∈ lineItems cfg (lineSays (scanLine 0 data).1), ItemOk detail i) ∧
        FileOk detail (nextCfg cfg (lineSays (scanLine 0 data).1)) (scanLine 0 data).2 := by
  have hlines : fileLines data = (scanLine 0 data).1 :: fileLines (scanLine 0 data).2 := by
    rw [fileLines, dif_neg h]
  constructor
  · rintro ⟨hended, hitems⟩
    rw [hlines] at hended hitems
    rw [List.forall_mem_cons] at hended
    rw [fileItems, List.forall_mem_append] at hitems
    exact ⟨hended.1, hitems.1, hended.2, hitems.2⟩
  · rintro ⟨hend, hitem, hended, hitems⟩
    refine ⟨?_, ?_⟩
    · rw [hlines, List.forall_mem_cons]
      exact ⟨hend, hended⟩
    · rw [hlines, fileItems, List.forall_mem_append]
      exact ⟨hitem, hitems⟩

theorem parserSafe_of_next {s t : ParserState}
    (h : ParserState.pass env (some s) = .next (some t)) :
    ParserSafe env s ↔ ParserSafe env t := by
  constructor
  · rintro ⟨_ | fuel, u, hu⟩
    · cases hu
    · rw [Lib.loop, h] at hu
      exact ⟨fuel, u, hu⟩
  · rintro ⟨fuel, u, hu⟩
    exact ⟨fuel + 1, u, by rw [Lib.loop, h]; exact hu⟩

theorem not_parserSafe_of_done {s : ParserState}
    (h : ParserState.pass env (some s) = .done none) : ¬ ParserSafe env s := by
  rintro ⟨_ | fuel, u, hu⟩
  · cases hu
  · rw [Lib.loop, h] at hu
    cases hu

/-- A pass over a line, with the buffer that `skw_read_line` leaves. -/
theorem exists_pass_eq (env : CfgEnv) {s : ParserState} (hdata : s.data ≠ []) : ∃ buf,
    buf.string 0 = lineText SKW_LINE_BUFF_LEN (scanLine 0 s.data).1 ∧
      ParserState.pass env (some s) =
        match ParserState.line env { s with data := (scanLine 0 s.data).2 } buf with
        | none => .done none
        | some t => .next (some t) := by
  obtain ⟨buf, hread, hstr⟩ := skwReadLine_eq (by decide : 0 < SKW_LINE_BUFF_LEN) s.data
  have hlt := length_scanLine_lt 0 hdata
  refine ⟨buf, hstr, ?_⟩
  rw [ParserState.pass, hread]
  exact if_neg (by omega)

theorem parserSafe_iff (s : ParserState) :
    ParserSafe env s ↔ FileOk env.detail s.cfg s.data := by
  induction hn : s.data.length using Nat.strong_induction_on generalizing s with
  | h n ih =>
    by_cases hdata : s.data = []
    · have hpass : ParserState.pass env (some s) = .done (some s) := by
        rw [ParserState.pass, hdata]
        rfl
      rw [hdata]
      exact iff_of_true ⟨1, s, by rw [Lib.loop, hpass]⟩ (fileOk_nil _ _)
    · obtain ⟨buf, hstr, hpass⟩ := exists_pass_eq env hdata
      rw [fileOk_iff hdata]
      cases htext : lineText SKW_LINE_BUFF_LEN (scanLine 0 s.data).1 with
      | none =>
        -- the line has no end, and its length is asked for
        rw [htext] at hstr
        have hline : ParserState.line env { s with data := (scanLine 0 s.data).2 } buf = none := by
          rw [ParserState.line, skwLineParser, hstr]
          rfl
        rw [hline] at hpass
        refine iff_of_false (not_parserSafe_of_done hpass) fun h => h.1 ?_
        exact lineText_eq_none_iff.1 htext
      | some text =>
        rw [htext] at hstr
        have hmeaning : lineSays (scanLine 0 s.data).1 = parseText text := by rw [lineSays, htext]
        have hend : ¬ ((scanLine 0 s.data).1.length = SKW_LINE_BUFF_LEN ∧
            0 ∉ (scanLine 0 s.data).1) := fun h => by
          rw [lineText_eq_none_iff.2 h] at htext
          cases htext
        have hspec := line_spec env { s with data := (scanLine 0 s.data).2 } hstr
        rw [hmeaning, and_iff_right hend, ← hspec.1]
        cases hline : ParserState.line env { s with data := (scanLine 0 s.data).2 } buf with
        | none =>
          rw [hline] at hpass
          exact iff_of_false (not_parserSafe_of_done hpass) fun h => Bool.false_ne_true h.1
        | some t =>
          rw [hline] at hpass
          obtain ⟨hdata', hcfg⟩ := hspec.2 t hline
          dsimp only at hdata' hcfg
          have hlt := length_scanLine_lt 0 hdata
          rw [parserSafe_of_next hpass, and_iff_right (by rfl), ← hdata', ← hcfg]
          exact ih t.data.length (by rw [hdata', ← hn]; exact hlt) t rfl

end

/-- The parser ends for every file: a pass that goes on has used up a character. -/
theorem exists_parserLoop (env : CfgEnv) (s : ParserState) :
    ∃ fuel r, Lib.loop (ParserState.pass env) fuel (some s) = some r := by
  let μ : Option ParserState → ℕ := fun s => (s.map fun s => s.data.length).getD 0
  have hpass : ∀ s t, ParserState.pass env s = .next t → μ t < μ s := by
    intro s t h
    cases s with
    | none => cases h
    | some s =>
      by_cases hdata : s.data = []
      · rw [ParserState.pass, hdata] at h
        cases h
      · obtain ⟨buf, hstr, hline⟩ := exists_pass_eq env hdata
        rw [hline] at h
        cases hu : ParserState.line env { s with data := (scanLine 0 s.data).2 } buf with
        | none =>
          rw [hu] at h
          cases h
        | some u =>
          rw [hu] at h
          cases h
          cases htext : lineText SKW_LINE_BUFF_LEN (scanLine 0 s.data).1 with
          | none =>
            rw [htext] at hstr
            rw [ParserState.line, skwLineParser, hstr] at hu
            cases hu
          | some text =>
            rw [htext] at hstr
            have hu' := ((line_spec env _ hstr).2 u hu).1
            change u.data.length < s.data.length
            rw [hu']
            exact length_scanLine_lt 0 hdata
  exact ⟨_, Lib.exists_loop_eq μ hpass (Nat.lt_succ_self _)⟩

def blankBufs : LineBufs where
  sec := Lib.Fixed.fill SKW_LINE_BUFF_LEN 0
  key := Lib.Fixed.fill SKW_LINE_BUFF_LEN 0
  value := Lib.Fixed.fill SKW_LINE_BUFF_LEN 0

def blankConfig : SkwConfig where
  mac := Lib.Fixed.fill ETH_ALEN 0
  dmaAddrAlign := 0
  reorderTimeout := 0
  intf := Lib.Fixed.fill SKW_NR_IFACE
    ⟨Lib.Fixed.fill IFNAMSIZ 0, Lib.Fixed.fill ETH_ALEN 0, .station⟩
  calibFlags := 0
  chipAliasName := Lib.Fixed.fill 16 0
  project := Lib.Fixed.fill 16 0
  regdFlags := 0
  country := Lib.Fixed.fill 2 0
  fwFlags := 0
  beaconTimeout := 0
  mib := fun _ => []

theorem scanLine_replicate (n : ℕ) :
    scanLine 0 (List.replicate n (ch 'a')) = (List.replicate n (ch 'a'), []) := by
  induction n with
  | zero => rfl
  | succ n ih =>
    have hchar : lineChar 0 (ch 'a') = ⟨0, ch 'a', true⟩ := rfl
    have hne : ch 'a' ≠ 0 := by decide
    rw [List.replicate_succ, scanLine, hchar]
    simp only [if_neg hne, ih, if_pos]

end Skw
