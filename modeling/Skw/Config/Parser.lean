import Skw.Config.Line
import Skw.Config.Mib
import Skw.Lib.Loop

/-! The parser of the configuration file: the sections and their parsers, and the loop over the
lines. An access outside the object it is meant for is `none`. -/
namespace Skw

abbrev IFNAMSIZ : ℕ := 16

abbrev MacBytes := CharBuf ETH_ALEN

/-- `skw_get_mac_addr` within its loop; what stands in `dat` behind `j` is never read. -/
structure MacState where
  dat : CharBuf 8
  j : ℕ
  addr : MacBytes
  idx : ℕ

/-- The field in `dat` is complete. -/
def MacState.endField (m : MacState) : Option (MacState × Bool) := do
  let f ← m.dat.string 0
  let val := (simpleStrtol f 16).1
  if val.toInt > 0xff then some (m, true)
  else do
    let addr ← m.addr.write m.idx [val.setWidth 8]
    some ({ m with j := 0, addr := addr, idx := m.idx + 1 }, false)

/-- The loop over the characters of the string, the NUL among them. -/
def macLoop : Str → MacState → Option MacState
  | [], m => some m
  | c :: s, m =>
    let chr := if c = ch ':' then 0 else c
    if 8 ≤ m.j then some m
    else do
      let dat ← m.dat.write m.j [chr]
      let m := { m with dat := dat, j := m.j + 1 }
      if chr = 0 then do
        let (m, stop) ← m.endField
        if stop then some m else macLoop s m
      else macLoop s m

/-- Neither a multicast address nor zero. -/
def MacBytes.isValidEtherAddr (addr : MacBytes) : Bool :=
  addr.cells.getD 0 0 &&& 1 = 0 ∧ addr.cells ≠ List.replicate ETH_ALEN 0

/-- The address of a string, if it is taken. -/
def macOf (s : Str) : Option (Option MacBytes) := do
  let m ← macLoop (s ++ [0]) ⟨Lib.Fixed.fill 8 0, 0, Lib.Fixed.fill ETH_ALEN 0, 0⟩
  some (if m.idx = ETH_ALEN ∨ MacBytes.isValidEtherAddr m.addr then some m.addr else none)

def skwGetMacAddr {n : ℕ} (buff : CharBuf n) (mac : MacBytes) : Option MacBytes := do
  let s ← buff.string 0
  let addr ← macOf s
  some (addr.getD mac)

def skwSetString {n : ℕ} (buff : CharBuf n) (src : Str) : Option (CharBuf n) :=
  if src.length < n then do
    let buff ← buff.write 0 src
    buff.write src.length [0]
  else some buff

/-- The flags after `skw_bool_flag`. -/
def skwBoolFlag (flags : BitVec 64) (nr : ℕ) (value : Str) : BitVec 64 :=
  let (val, endp) := simpleStrtol value 0
  if endp ≠ [] then flags
  else if val = 0 then flags &&& ~~~(1#64 <<< nr)
  else if val = 1 then flags ||| 1#64 <<< nr
  else flags

/-- What is used of `skw_cfg_interface`. -/
structure CfgInterface where
  name : CharBuf IFNAMSIZ
  mac : MacBytes
  iftype : Iftype

/-- `interface[]`. -/
abbrev CfgIntf := Lib.Fixed CfgInterface SKW_NR_IFACE

/-- `skw_config_intf` within its loop: the entries, and the place of `ifa` among them. -/
structure IntfState where
  intf : CfgIntf
  ifa : ℤ

namespace IntfState

/-- `*ifa`. -/
def entry (s : IntfState) : Option CfgInterface :=
  if 0 ≤ s.ifa then s.intf.cells[s.ifa.toNat]? else none

def setEntry (s : IntfState) (x : CfgInterface) : Option IntfState := do
  let intf ← s.intf.write s.ifa.toNat [x]
  some { s with intf := intf }

/-- The mode of an entry. -/
def mode (buff : Str) : Option Iftype :=
  if buff = str "sta" then some .station
  else if buff = str "sap" then some .ap
  else if buff = str "go" then some .p2pGo
  else if buff = str "gc" then some .p2pClient
  else if buff = str "p2p_dev" then some .p2pDevice
  else none

/-- `strncpy` of all but the last character, which becomes NUL. -/
def setName (x : CfgInterface) (buff : Str) : Option CfgInterface := do
  let s := buff.take (IFNAMSIZ - 1)
  let name ← x.name.write 0 (s ++ List.replicate (IFNAMSIZ - 1 - s.length) 0)
  let name ← name.write (IFNAMSIZ - 1) [0]
  some { x with name := name }

/-- The instance that a text means, an int. -/
def inst (buff : Str) : ℤ := ((simpleStrtol buff 0).1.setWidth 32).toInt

/-- The switch over the index of a field, and `exit`. -/
def field (idx : ℕ) (buff : Str) (s : IntfState) : Option (IntfState × Bool) :=
  match idx with
  | 0 =>
    if inst buff ≥ SKW_NR_IFACE then some (s, true)
    else some ({ s with ifa := inst buff }, false)
  | 1 =>
    match mode buff with
    | none => some (s, false)
    | some t => do
      let x ← s.entry
      let s ← s.setEntry { x with iftype := t }
      some (s, false)
  | 2 =>
    if buff.length > IFNAMSIZ then some (s, false)
    else do
      let x ← s.entry
      let x ← setName x buff
      let s ← s.setEntry x
      some (s, false)
  | _ => do
    let addr ← macOf buff
    match addr with
    | none => some (s, false)
    | some a => do
      let x ← s.entry
      let s ← s.setEntry { x with mac := a }
      some (s, false)

/-- The loop over at most `n` fields. -/
def loop : ℕ → Str → ℕ → IntfState → Option IntfState
  | 0, _, _, s => some s
  | n + 1, pos, idx, s =>
    if pos = [] then some s
    else
      let len := (pos.idxOf? (ch ',')).getD pos.length
      if len = 0 then loop n (pos.drop (len + 1)) (idx + 1) s
      else do
        let buff ← (Lib.Fixed.fill SKW_LINE_BUFF_LEN 0).write 0 (pos.take len)
        let b ← buff.string 0
        let (s, stop) ← field idx b s
        if stop ∨ pos.idxOf? (ch ',') = none then some s
        else loop n (pos.drop (len + 1)) (idx + 1) s

end IntfState

/-- `detail` says whether the last line is logged, which reads the entry. -/
def skwConfigIntf (detail : Bool) (intf : CfgIntf) (value : CharBuf SKW_LINE_BUFF_LEN) :
    Option CfgIntf := do
  let pos ← value.string 0
  let s ← IntfState.loop 4 pos 0 ⟨intf, 0⟩
  if detail then do
    let _ ← s.entry
    some s.intf
  else some s.intf

/-- What the file changes of `skw_config`. -/
structure SkwConfig where
  mac : MacBytes
  dmaAddrAlign : BitVec 8
  reorderTimeout : BitVec 8
  intf : CfgIntf
  calibFlags : BitVec 64
  chipAliasName : CharBuf 16
  project : CharBuf 16
  regdFlags : BitVec 64
  country : CharBuf 2
  fwFlags : BitVec 64
  beaconTimeout : BitVec 8
  mib : CfgMib

/-- The sections of `g_cfg_table`, each with its parser. -/
inductive CfgSection
  | global
  | interface
  | calib
  | regdom
  | roaming
  | firmware
  | band
  | mib
deriving DecidableEq

namespace CfgSection

def name : CfgSection → Str
  | global => str "global"
  | interface => str "interface"
  | calib => str "calib"
  | regdom => str "regdom"
  | roaming => str "roaming"
  | firmware => str "firmware"
  | band => str "band"
  | mib => str "mib"

/-- `skw_cfg_match`. -/
def find (s : Str) : Option CfgSection :=
  [global, interface, calib, regdom, roaming, firmware, band, mib].find? fun t => t.name = s

end CfgSection

section
variable (c : SkwConfig) (key value : CharBuf SKW_LINE_BUFF_LEN)

def skwGlobalParser : Option SkwConfig := do
  let k ← key.string 0
  let v ← value.string 0
  if k = str "mac_addr" then do
    let mac ← skwGetMacAddr value c.mac
    some { c with mac := mac }
  else if k = str "dma_addr_align" then
    some { c with dmaAddrAlign := (simpleStrtol v 0).1.setWidth 8 }
  else if k = str "reorder_timeout" then
    some { c with reorderTimeout := (simpleStrtol v 0).1.setWidth 8 }
  else some c

def skwFirmwareParser : Option SkwConfig := do
  let k ← key.string 0
  let v ← value.string 0
  if k = str "beacon_timeout" then
    some { c with beaconTimeout := (simpleStrtol v 0).1.setWidth 8 }
  else if k = str "cca_enable" then some { c with fwFlags := skwBoolFlag c.fwFlags 0 v }
  else if k = str "use_4addr" then some { c with fwFlags := skwBoolFlag c.fwFlags 1 v }
  else some c

def skwIntfParser (detail : Bool) : Option SkwConfig := do
  let k ← key.string 0
  if k = str "intf" then do
    let intf ← skwConfigIntf detail c.intf value
    some { c with intf := intf }
  else some c

def skwCalibParser : Option SkwConfig := do
  let k ← key.string 0
  let v ← value.string 0
  if k = str "append_bus_name" then some { c with calibFlags := skwBoolFlag c.calibFlags 0 v }
  else if k = str "append_module_id" then
    some { c with calibFlags := skwBoolFlag c.calibFlags 1 v }
  else if k = str "chip_alias_name" then do
    let s ← skwSetString c.chipAliasName v
    some { c with chipAliasName := s }
  else if k = str "project_name" then do
    let s ← skwSetString c.project v
    some { c with project := s }
  else some c

def skwRegdomParser : Option SkwConfig := do
  let k ← key.string 0
  let v ← value.string 0
  if k = str "self_managed" then some { c with regdFlags := skwBoolFlag c.regdFlags 0 v }
  else if k = str "country" then
    if v.length = 2 then do
      let s ← value.read 0 2
      let country ← c.country.write 0 s
      some { c with country := country, regdFlags := c.regdFlags ||| 1#64 <<< 1 }
    else some c
  else if k = str "ignore_user_hint" then some { c with regdFlags := skwBoolFlag c.regdFlags 2 v }
  else if k = str "ignore_country_ie" then some { c with regdFlags := skwBoolFlag c.regdFlags 3 v }
  else if k = str "outdoor" then some { c with regdFlags := skwBoolFlag c.regdFlags 4 v }
  else some c

/-- `skw_mib_parser` reads its arguments as strings, and up to five characters of the key as
memory. -/
def mibParser (a : MibAlloc) : Option SkwConfig := do
  let k ← key.string 0
  let v ← value.string 0
  let _ ← key.read 0 5
  some { c with mib := (skwMibParser a c.mib k v).2 }

end

/-- What the parser meets: whether details are logged, and the outcome of the allocations for the
line behind which so many characters are left. -/
structure CfgEnv where
  detail : Bool
  alloc : ℕ → MibAlloc

def CfgSection.parser (env : CfgEnv) (left : ℕ) (c : SkwConfig)
    (key value : CharBuf SKW_LINE_BUFF_LEN) : CfgSection → Option SkwConfig
  | global => skwGlobalParser c key value
  | interface => skwIntfParser c key value env.detail
  | calib => skwCalibParser c key value
  | regdom => skwRegdomParser c key value
  | roaming => some c
  | firmware => skwFirmwareParser c key value
  | band => some c
  | mib => mibParser c key value (env.alloc left)

/-- `skw_parser`: the data from `offset` on, `cfg`, the buffers, and the configuration. -/
structure ParserState where
  data : Str
  cfg : Option CfgSection
  bufs : LineBufs
  config : SkwConfig

namespace ParserState

/-- An item with a key and a value goes to the parser of its section. -/
def item (env : CfgEnv) (s : ParserState) : Option ParserState := do
  let k ← s.bufs.key.string 0
  let v ← s.bufs.value.string 0
  if k = [] ∨ v = [] then some s
  else
    match s.cfg with
    | none => some s
    | some cfg => do
      let config ← cfg.parser env s.data.length s.config s.bufs.key s.bufs.value
      some { s with config := config }

/-- The switch over the type of a line. -/
def line (env : CfgEnv) (s : ParserState) (buf : CharBuf SKW_LINE_BUFF_LEN) :
    Option ParserState := do
  let (t, b) ← skwLineParser buf s.bufs
  let s := { s with bufs := b }
  match t with
  | .config => do
    let name ← b.sec.string 0
    some { s with cfg := CfgSection.find name }
  | .item => s.item env
  | .comment | .error => some s

/-- One pass of the loop, which ends when no line is read. -/
def pass (env : CfgEnv) : Option ParserState → Lib.Pass (Option ParserState)
  | none => .done none
  | some s =>
    match skwReadLine SKW_LINE_BUFF_LEN s.data with
    | none => .done none
    | some (ret, buf, rest) =>
      if ret = 0 then .done (some s)
      else
        match line env { s with data := rest } buf with
        | none => .done none
        | some t => .next (some t)

end ParserState

end Skw
