import Skw.Boot.Image
import Skw.Lib.Loop
import Mathlib.Algebra.Order.BigOperators.Group.List
import Mathlib.Algebra.Group.Action.Defs
import Mathlib.Algebra.Order.Ring.Nat

/-! The NV file of the Bluetooth controller. `btseekwave_download_nv` sends it in pages, for two of
the chips with whole records in each page, for the others in blocks of one size. -/
namespace Skw

abbrev SKW_CHIPID_6316 : BitVec 16 := 0x5301
abbrev SKW_CHIPID_6160_LITE : BitVec 16 := 0x5302

abbrev NV_FILE_NAME : String := "sv6160.nvbin"
abbrev NV_FILE_NAME_6316 : String := "sv6316.nvbin"
abbrev NV_FILE_NAME_6160_LITE : String := "sv6160lite.nvbin"

abbrev NV_FILE_RD_BLOCK_SIZE : ℕ := 252
abbrev NV_TAG_DSP_LOG_SETTING : BitVec 8 := 5
abbrev BT_CP_LOG_EN : ℕ := 0

/-- What `cmd_pld` is allocated with. -/
abbrev CMD_PLD_SIZE : ℕ := 512

abbrev HCI_CMD_READ_LOCAL_VERSION_INFO : BitVec 16 := 0x1001
abbrev HCI_CMD_SKW_BT_NVDS : BitVec 16 := 0xFC80
abbrev HCI_CMD_WRITE_BD_ADDR : BitVec 16 := 0xFC82
abbrev HCI_CMD_WRITE_WAKEUP_ADV_DATA : BitVec 16 := 0xFC84

structure HciCommand where
  opcode : BitVec 16
  param : List (BitVec 8)
deriving DecidableEq

/-- What a run of `btseekwave_download_nv` meets: `chip_version` after the version command, the
files, the allocation of `cmd_pld`, what `btseekwave_write_bd_addr` and
`btseekwave_write_ble_wakeup_adv_info` find to send, and whether the `k`-th command is answered. -/
structure NvEnv where
  chipVersion : BitVec 16
  requestFirmware : String → Except ℤ Firmware
  kzalloc : Bool
  bdAddr : Option (List (BitVec 8))
  wakeupAdvInfo : Option (List (BitVec 8))
  answer : ℕ → Bool

/-- The bytes from `a` to `a + n - 1` of the file, which are read, or of `cmd_pld`. -/
inductive NvAccess
  | file (a n : ℕ)
  | cmdPld (a n : ℕ)
deriving DecidableEq

def NvAccess.Inside (size : ℕ) : NvAccess → Prop
  | .file a n => a + n ≤ size
  | .cmdPld a n => a + n ≤ CMD_PLD_SIZE

structure NvState where
  cmdPld : ℕ → BitVec 8
  count : ℕ
  totalLen : ℕ
  pageOffset : ℕ
  err : ℤ
  cmds : List HciCommand
  log : List NvAccess

def versionCommand : HciCommand := ⟨HCI_CMD_READ_LOCAL_VERSION_INFO, []⟩

namespace NvState

/-- Before the first page, which for the records leaves out the header of the file. -/
def init (count : ℕ) : NvState := ⟨fun _ => 0, count, 0, 0, 0, [versionCommand], []⟩

def read (s : NvState) (a n : ℕ) : NvState := { s with log := s.log ++ [.file a n] }

/-- The two bytes in front of a page. -/
def header (s : NvState) (len : ℕ) : NvState :=
  { s with
    cmdPld := Lib.store s.cmdPld 0 [BitVec.ofNat 8 s.pageOffset, BitVec.ofNat 8 len]
    log := s.log ++ [.cmdPld 0 2] }

/-- `memcpy` of `n` bytes of the file from `count` on. -/
def copy (s : NvState) (fw : Firmware) (a n : ℕ) : NvState :=
  { s with
    cmdPld := Lib.store s.cmdPld a (Lib.load fw.data s.count n)
    log := s.log ++ [.file s.count n, .cmdPld a n] }

def force (s : NvState) (a : ℕ) (x : BitVec 8) : NvState :=
  { s with cmdPld := Lib.store s.cmdPld a [x], log := s.log ++ [.cmdPld a 1] }

def sendNvds (s : NvState) (len : ℕ) : NvState :=
  { s with
    cmds := s.cmds ++ [⟨HCI_CMD_SKW_BT_NVDS, Lib.load s.cmdPld 0 (len + 2)⟩]
    log := s.log ++ [.cmdPld 0 (len + 2)] }

def advance (s : NvState) (n : ℕ) : NvState :=
  { s with count := s.count + n, totalLen := s.totalLen + n }

def send (s : NvState) (opcode : BitVec 16) (param : Option (List (BitVec 8))) : NvState :=
  { s with cmds := s.cmds ++ (param.map (HciCommand.mk opcode)).toList }

end NvState

/-- `log_disable` as it is sent. -/
def logDisable (fromFile : BitVec 8) : BitVec 8 := if BT_CP_LOG_EN = 1 then fromFile else 1

/-- The byte behind the header of a record of the DSP log that was copied. -/
def forceDspLog (fw : Firmware) (s : NvState) : NvState :=
  let t := s.read (s.count + 3) 1
  if s.totalLen < NV_FILE_RD_BLOCK_SIZE then
    t.force (2 + s.totalLen + 3) (logDisable (fw.data (s.count + 3)))
  else t

/-- A pass of the record loop: the page is sent where the record at `count` does not fit in it. -/
def recordPass (env : NvEnv) (fw : Firmware) (s : NvState) : Lib.Pass NvState :=
  if s.count < fw.size then
    let nvTag := fw.data s.count
    let nvPktLen := (fw.data (s.count + 2)).toNat + 3
    let u := (s.read s.count 1).read (s.count + 2) 1
    if nvPktLen + s.totalLen ≥ NV_FILE_RD_BLOCK_SIZE then
      let t := (u.header s.totalLen).sendNvds s.totalLen
      if env.answer s.cmds.length then
        .next { t with pageOffset := s.pageOffset + 1, totalLen := 0 }
      else .done { t with totalLen := 0, err := -1 }
    else
      let t := u.copy fw (2 + s.totalLen) nvPktLen
      .next ((if nvTag = NV_TAG_DSP_LOG_SETTING then forceDspLog fw t else t).advance nvPktLen)
  else .done s

/-- The last page. The answer to it is not looked at. -/
def lastPage (s : NvState) : NvState :=
  if s.totalLen > 0 then (s.header s.totalLen).sendNvds s.totalLen else s

/-- A pass of the loop over the blocks. -/
def blockPass (env : NvEnv) (fw : Firmware) (s : NvState) : Lib.Pass NvState :=
  if s.count < fw.size then
    let len :=
      if fw.size - s.count < NV_FILE_RD_BLOCK_SIZE then fw.size - s.count
      else NV_FILE_RD_BLOCK_SIZE
    let t := (s.header len).copy fw 2 len
    let t := if s.pageOffset = 1 then t.force (2 + 53) (logDisable (fw.data 0x131)) else t
    let t := { t.sendNvds len with count := s.count + len }
    if env.answer s.cmds.length then .next { t with pageOffset := s.pageOffset + 1 } else .done t
  else .done s

/-- The two commands behind the pages. Their answers are not looked at. -/
def sendTrailer (env : NvEnv) (s : NvState) : NvState :=
  if s.err = 0 then
    (s.send HCI_CMD_WRITE_BD_ADDR env.bdAddr).send HCI_CMD_WRITE_WAKEUP_ADV_DATA env.wakeupAdvInfo
  else s

def NvEnv.Lite (env : NvEnv) : Prop :=
  env.chipVersion = SKW_CHIPID_6316 ∨ env.chipVersion = SKW_CHIPID_6160_LITE

instance (env : NvEnv) : Decidable env.Lite := inferInstanceAs (Decidable (_ ∨ _))

def nvFileName (chipVersion : BitVec 16) : String :=
  if chipVersion = SKW_CHIPID_6316 then NV_FILE_NAME_6316
  else if chipVersion = SKW_CHIPID_6160_LITE then NV_FILE_NAME_6160_LITE
  else NV_FILE_NAME

def NvEnv.file (env : NvEnv) : Except ℤ Firmware := env.requestFirmware (nvFileName env.chipVersion)

/-- The pages of a file, if the loop ends within `fuel` passes. -/
def sendPages (fuel : ℕ) (env : NvEnv) (fw : Firmware) : Option NvState :=
  if env.Lite then (Lib.loop (recordPass env fw) fuel (.init 4)).map lastPage
  else Lib.loop (blockPass env fw) fuel ((NvState.init 0).read 0x131 1)

structure NvRun where
  ret : ℤ
  cmds : List HciCommand
  log : List NvAccess

/-- `btseekwave_download_nv`. -/
def downloadNv (fuel : ℕ) (env : NvEnv) : Option NvRun :=
  if ¬env.answer 0 then some ⟨-1, [versionCommand], []⟩
  else
    match env.file with
    | .error err => some ⟨err, [versionCommand], []⟩
    | .ok fw =>
      if ¬env.kzalloc then some ⟨-1, [versionCommand], []⟩
      else
        (sendPages fuel env fw).map fun s =>
          let s := sendTrailer env s
          ⟨s.err, s.cmds, s.log⟩

/-! ### The passes of the record loop -/

section
variable {env : NvEnv} {fw : Firmware} {s : NvState}

theorem load_header (s : NvState) (len : ℕ) : Lib.load (s.header len).cmdPld 0 (len + 2) =
    BitVec.ofNat 8 s.pageOffset :: BitVec.ofNat 8 len :: Lib.load s.cmdPld 2 len := by
  have hkeep : Lib.load (s.header len).cmdPld (0 + 2) len = Lib.load s.cmdPld 2 len := by
    rw [NvState.header, Lib.load_store_disjoint (.inr (by simp))]
  rw [Nat.add_comm, Lib.load_add, hkeep]
  rfl

theorem cmds_sendNvds_header (s : NvState) (len : ℕ) : ((s.header len).sendNvds len).cmds =
    s.cmds ++ [⟨HCI_CMD_SKW_BT_NVDS,
      BitVec.ofNat 8 s.pageOffset :: BitVec.ofNat 8 len :: Lib.load s.cmdPld 2 len⟩] := by
  rw [← load_header]
  rfl

theorem recordPass_of_ge (h : fw.size ≤ s.count) : recordPass env fw s = .done s :=
  if_neg (not_lt.mpr h)

variable (env) in
/-- What a pass does whose record does not fit in the page. -/
theorem recordPass_of_full (h : s.count < fw.size)
    (hfull : 252 ≤ (fw.data (s.count + 2)).toNat + 3 + s.totalLen) :
    ∃ t : NvState, recordPass env fw s =
        (if env.answer s.cmds.length then .next { t with pageOffset := s.pageOffset + 1 }
          else .done { t with err := -1 }) ∧
      t.count = s.count ∧ t.totalLen = 0 ∧ t.pageOffset = s.pageOffset ∧ t.err = s.err ∧
      t.cmds = s.cmds ++ [⟨HCI_CMD_SKW_BT_NVDS, BitVec.ofNat 8 s.pageOffset ::
        BitVec.ofNat 8 s.totalLen :: Lib.load s.cmdPld 2 s.totalLen⟩] ∧
      t.log = s.log ++ [.file s.count 1, .file (s.count + 2) 1, .cmdPld 0 2,
        .cmdPld 0 (s.totalLen + 2)] := by
  let u := (s.read s.count 1).read (s.count + 2) 1
  refine ⟨{ (u.header s.totalLen).sendNvds s.totalLen with totalLen := 0 }, ?_, rfl, rfl, rfl, rfl,
    cmds_sendNvds_header u s.totalLen, ?_⟩
  · exact (if_pos h).trans (if_pos hfull)
  · show ((((s.log ++ _) ++ _) ++ _) ++ _) = _
    simp only [List.append_assoc, List.cons_append, List.nil_append]

variable (env) in
/-- What a pass does whose record fits. -/
theorem recordPass_of_fits (h : s.count < fw.size)
    (hfits : (fw.data (s.count + 2)).toNat + 3 + s.totalLen < 252) :
    ∃ t : NvState, recordPass env fw s = .next t ∧
      t.count = s.count + ((fw.data (s.count + 2)).toNat + 3) ∧
      t.totalLen = s.totalLen + ((fw.data (s.count + 2)).toNat + 3) ∧
      t.pageOffset = s.pageOffset ∧ t.err = s.err ∧ t.cmds = s.cmds ∧
      t.log = s.log ++ [.file s.count 1, .file (s.count + 2) 1,
        .file s.count ((fw.data (s.count + 2)).toNat + 3),
        .cmdPld (2 + s.totalLen) ((fw.data (s.count + 2)).toNat + 3)] ++
          (if fw.data s.count = NV_TAG_DSP_LOG_SETTING then
            [.file (s.count + 3) 1, .cmdPld (2 + s.totalLen + 3) 1] else []) ∧
      Lib.load t.cmdPld 2 t.totalLen = Lib.load s.cmdPld 2 s.totalLen ++
        (if fw.data s.count = NV_TAG_DSP_LOG_SETTING then
          (Lib.load fw.data s.count ((fw.data (s.count + 2)).toNat + 3)).set 3 1
          else Lib.load fw.data s.count ((fw.data (s.count + 2)).toNat + 3)) := by
  generalize hlen : (fw.data (s.count + 2)).toNat + 3 = len at hfits
  let u := ((s.read s.count 1).read (s.count + 2) 1).copy fw (2 + s.totalLen) len
  have hpass : recordPass env fw s = .next ((if fw.data s.count = NV_TAG_DSP_LOG_SETTING then
      forceDspLog fw u else u).advance len) := by
    subst hlen
    exact (if_pos h).trans (if_neg (not_le.mpr hfits))
  have hlog : u.log = s.log ++ [.file s.count 1, .file (s.count + 2) 1, .file s.count len,
      .cmdPld (2 + s.totalLen) len] := by
    show (((s.log ++ _) ++ _) ++ _) = _
    simp only [List.append_assoc, List.cons_append, List.nil_append]
    rfl
  have hkeep : Lib.load u.cmdPld 2 s.totalLen = Lib.load s.cmdPld 2 s.totalLen :=
    Lib.load_store_disjoint (.inl le_rfl)
  have hself : Lib.load u.cmdPld (2 + s.totalLen) len = Lib.load fw.data s.count len := by
    have := Lib.load_store_self s.cmdPld (2 + s.totalLen) (Lib.load fw.data s.count len)
    rwa [Lib.length_load] at this
  by_cases htag : fw.data s.count = NV_TAG_DSP_LOG_SETTING
  · have hroom : u.totalLen < NV_FILE_RD_BLOCK_SIZE := by
      show s.totalLen < 252
      omega
    have hforce : forceDspLog fw u = (u.read (s.count + 3) 1).force (2 + s.totalLen + 3) 1 :=
      if_pos hroom
    rw [if_pos htag, hforce] at hpass
    refine ⟨_, hpass, rfl, rfl, rfl, rfl, rfl, ?_, ?_⟩
    · rw [if_pos htag, ← hlog]
      show (u.log ++ _) ++ _ = _
      rw [List.append_assoc]
      rfl
    · rw [if_pos htag]
      show Lib.load (Lib.store u.cmdPld (2 + s.totalLen + 3) [1]) 2 (s.totalLen + len) = _
      rw [Lib.load_add, Lib.load_store_disjoint (.inl (by omega)), Lib.load_store_singleton, hkeep,
        hself]
  · rw [if_neg htag] at hpass
    refine ⟨_, hpass, rfl, rfl, rfl, rfl, rfl, ?_, ?_⟩
    · rw [if_neg htag, List.append_nil]
      exact hlog
    · rw [if_neg htag]
      show Lib.load u.cmdPld 2 (s.totalLen + len) = _
      rw [Lib.load_add, hkeep, hself]

end

/-! ### The records in the pages -/

/-- A record of the file that fits in a page. -/
structure NvRecord where
  tag : BitVec 8
  aux : BitVec 8
  payload : List (BitVec 8)
  fits : payload.length ≤ 248

namespace NvRecord

def bytes (r : NvRecord) : List (BitVec 8) :=
  r.tag :: r.aux :: BitVec.ofNat 8 r.payload.length :: r.payload

/-- As it is sent: the setting of the DSP log is forced. -/
def sent (r : NvRecord) : List (BitVec 8) :=
  if r.tag = NV_TAG_DSP_LOG_SETTING then r.bytes.set 3 1 else r.bytes

@[simp] theorem length_bytes (r : NvRecord) : r.bytes.length = r.payload.length + 3 := rfl

@[simp] theorem length_sent (r : NvRecord) : r.sent.length = r.payload.length + 3 := by
  unfold sent
  split_ifs
  · rw [List.length_set, length_bytes]
  · rfl

end NvRecord

/-- The file is a header of four bytes and these records. -/
structure Firmware.Holds (fw : Firmware) (rs : List NvRecord) : Prop where
  size : fw.size = 4 + (rs.flatMap NvRecord.bytes).length
  data : Lib.load fw.data 4 (rs.flatMap NvRecord.bytes).length = rs.flatMap NvRecord.bytes

/-- The command of page `i`. -/
def nvdsCommand (i : ℕ) (page : List NvRecord) : HciCommand :=
  ⟨HCI_CMD_SKW_BT_NVDS, BitVec.ofNat 8 i :: BitVec.ofNat 8 (page.flatMap NvRecord.sent).length ::
    page.flatMap NvRecord.sent⟩

/-- Where a record stands in the file. -/
theorem Firmware.Holds.record {fw : Firmware} {pre rest : List NvRecord} {r : NvRecord}
    (h : fw.Holds (pre ++ r :: rest)) :
    4 + (pre.flatMap NvRecord.bytes).length < fw.size ∧
      Lib.load fw.data (4 + (pre.flatMap NvRecord.bytes).length) r.bytes.length = r.bytes := by
  obtain ⟨hsize, hdata⟩ := h
  rw [List.flatMap_append, List.flatMap_cons, List.length_append, List.length_append] at hsize hdata
  have hlen : r.bytes.length = r.payload.length + 3 := rfl
  refine ⟨by omega, ?_⟩
  rw [Lib.load_add] at hdata
  have hrest := (List.append_inj hdata (by simp)).2
  rw [Lib.load_add] at hrest
  exact (List.append_inj hrest (by simp)).1

/-- The pages that were sent, the one that is filled, and the records that are left. -/
structure NvState.Paged (s : NvState) (rs : List NvRecord) (pages : List (List NvRecord))
    (page rest : List NvRecord) : Prop where
  split : pages.flatten ++ page ++ rest = rs
  count : s.count = 4 + ((pages.flatten ++ page).flatMap NvRecord.bytes).length
  totalLen : s.totalLen = (page.flatMap NvRecord.sent).length
  small : s.totalLen ≤ 251
  filled : Lib.load s.cmdPld 2 s.totalLen = page.flatMap NvRecord.sent
  pageOffset : s.pageOffset = pages.length
  err : s.err = 0
  cmds : s.cmds = versionCommand :: pages.mapIdx nvdsCommand
  sent : ∀ p ∈ pages, (p.flatMap NvRecord.sent).length ≤ 251

namespace NvState.Paged
variable {env : NvEnv} {fw : Firmware} {s : NvState} {rs page rest : List NvRecord}
  {pages : List (List NvRecord)} {r : NvRecord}

/-- The record at `count`. -/
theorem record (h : s.Paged rs pages page (r :: rest)) (hfw : fw.Holds rs) :
    s.count < fw.size ∧ fw.data s.count = r.tag ∧
      (fw.data (s.count + 2)).toNat + 3 = r.payload.length + 3 ∧
      Lib.load fw.data s.count (r.payload.length + 3) = r.bytes := by
  obtain ⟨hlt, hload⟩ := (h.split ▸ hfw).record
  rw [← h.count] at hlt hload
  have hfits := r.fits
  have hlen : r.bytes.length = r.payload.length + 3 := rfl
  have htag : fw.data s.count = r.tag := by
    have := congrArg (·[0]?) hload
    rw [Lib.getElem?_load _ _ (by omega)] at this
    exact Option.some.inj this
  have hbyte : fw.data (s.count + 2) = BitVec.ofNat 8 r.payload.length := by
    have := congrArg (·[2]?) hload
    rw [Lib.getElem?_load _ _ (by omega)] at this
    exact Option.some.inj this
  refine ⟨hlt, htag, ?_, hload⟩
  rw [hbyte, BitVec.toNat_ofNat, Nat.mod_eq_of_lt (by omega)]

variable (env) in
theorem take (h : s.Paged rs pages page (r :: rest)) (hfw : fw.Holds rs)
    (hfits : r.payload.length + 3 + s.totalLen < 252) :
    ∃ t, recordPass env fw s = .next t ∧ t.Paged rs pages (page ++ [r]) rest := by
  obtain ⟨hlt, htag, hlen, hload⟩ := h.record hfw
  obtain ⟨t, hpass, hcount, htotal, hoff, herr, hcmds, -, hfill⟩ :=
    recordPass_of_fits env hlt (by omega)
  refine ⟨t, hpass, ?_⟩
  constructor
  case split => rw [← h.split]; simp
  case count =>
    have hsplit : (pages.flatten ++ (page ++ [r])).flatMap NvRecord.bytes =
        (pages.flatten ++ page).flatMap NvRecord.bytes ++ r.bytes := by simp
    rw [hcount, hlen, h.count, hsplit, List.length_append, NvRecord.length_bytes, Nat.add_assoc]
  case totalLen =>
    rw [htotal, hlen, h.totalLen, List.flatMap_append, List.length_append, List.flatMap_singleton,
      NvRecord.length_sent]
  case small => omega
  case filled =>
    rw [hfill, h.filled, htag, hlen, hload, List.flatMap_append, List.flatMap_singleton]
    rfl
  case pageOffset => rw [hoff, h.pageOffset]
  case err => rw [herr, h.err]
  case cmds => rw [hcmds, h.cmds]
  case sent => exact h.sent

theorem nvdsCommand_eq (h : s.Paged rs pages page rest) :
    (⟨HCI_CMD_SKW_BT_NVDS, BitVec.ofNat 8 s.pageOffset :: BitVec.ofNat 8 s.totalLen ::
      Lib.load s.cmdPld 2 s.totalLen⟩ : HciCommand) = nvdsCommand pages.length page := by
  rw [h.filled, h.pageOffset, h.totalLen]
  rfl

theorem flush (h : s.Paged rs pages page (r :: rest)) (hfw : fw.Holds rs)
    (hfull : 252 ≤ r.payload.length + 3 + s.totalLen) (hans : ∀ k, env.answer k = true) :
    ∃ t, recordPass env fw s = .next t ∧ t.Paged rs (pages ++ [page]) [] (r :: rest) := by
  obtain ⟨hlt, htag, hlen, hload⟩ := h.record hfw
  obtain ⟨t, hpass, hcount, htotal, hoff, herr, hcmds, -⟩ :=
    recordPass_of_full env hlt (by omega)
  rw [if_pos (hans _)] at hpass
  refine ⟨_, hpass, ?_⟩
  constructor
  case split => rw [← h.split]; simp
  case count => rw [show _ = _ from hcount, h.count]; simp
  case totalLen => exact htotal
  case small => exact htotal.trans_le (Nat.zero_le _)
  case filled => rw [show _ = _ from htotal]; rfl
  case pageOffset => simp [h.pageOffset]
  case err => exact herr.trans h.err
  case cmds =>
    rw [show _ = _ from hcmds, h.nvdsCommand_eq, h.cmds, List.mapIdx_concat]
    rfl
  case sent =>
    intro p hp
    rcases List.mem_append.mp hp with hp | hp
    · exact h.sent p hp
    · rw [List.mem_singleton.mp hp, ← h.totalLen]
      exact h.small

/-- The record loop takes all records. -/
theorem exists_loop (h : s.Paged rs pages page rest) (hfw : fw.Holds rs)
    (hans : ∀ k, env.answer k = true) :
    ∃ fuel t pages' page', Lib.loop (recordPass env fw) fuel s = some t ∧
      t.Paged rs pages' page' [] := by
  induction rest generalizing s pages page with
  | nil =>
    have hend : fw.size ≤ s.count := by
      rw [h.count, hfw.size, ← h.split, List.append_nil]
    exact ⟨1, s, pages, page, by rw [Lib.loop, recordPass_of_ge hend], h⟩
  | cons r rest ih =>
    rcases Nat.lt_or_ge (r.payload.length + 3 + s.totalLen) 252 with hfits | hfull
    · obtain ⟨t, hpass, ht⟩ := h.take env hfw hfits
      obtain ⟨fuel, t', pages', page', hl, ht'⟩ := ih ht
      exact ⟨fuel + 1, t', pages', page', by rw [Lib.loop, hpass]; exact hl, ht'⟩
    · -- the same record again, in an empty page
      obtain ⟨u, hpassu, hu⟩ := h.flush hfw hfull hans
      have hsize := r.fits
      have hzero : u.totalLen = 0 := hu.totalLen
      obtain ⟨t, hpass, ht⟩ := hu.take env hfw (by omega)
      obtain ⟨fuel, t', pages', page', hl, ht'⟩ := ih ht
      refine ⟨fuel + 2, t', pages', page', ?_, ht'⟩
      rw [Lib.loop, hpassu]
      dsimp only
      rw [Lib.loop, hpass]
      exact hl

end NvState.Paged

theorem NvState.init_paged (rs : List NvRecord) : (NvState.init 4).Paged rs [] [] rs :=
  ⟨rfl, rfl, rfl, Nat.zero_le _, rfl, rfl, rfl, rfl, fun p hp => by cases hp⟩

/-- The commands behind the pages. -/
def NvEnv.trailer (env : NvEnv) : List HciCommand :=
  (env.bdAddr.map (HciCommand.mk HCI_CMD_WRITE_BD_ADDR)).toList ++
    (env.wakeupAdvInfo.map (HciCommand.mk HCI_CMD_WRITE_WAKEUP_ADV_DATA)).toList

theorem cmds_sendTrailer {env : NvEnv} {s : NvState} (h : s.err = 0) :
    (sendTrailer env s).cmds = s.cmds ++ env.trailer := by
  rw [sendTrailer, if_pos h]
  exact List.append_assoc ..

@[simp] theorem err_sendTrailer (env : NvEnv) (s : NvState) : (sendTrailer env s).err = s.err := by
  unfold sendTrailer
  split_ifs <;> rfl

@[simp] theorem log_sendTrailer (env : NvEnv) (s : NvState) : (sendTrailer env s).log = s.log := by
  unfold sendTrailer
  split_ifs <;> rfl

/-- The commands of a file of records, whatever the record loop needs. -/
theorem exists_downloadNv {env : NvEnv} {fw : Firmware} {rs : List NvRecord} (hlite : env.Lite)
    (hfile : env.file = .ok fw) (halloc : env.kzalloc = true) (hans : ∀ k, env.answer k = true)
    (hfw : fw.Holds rs) :
    ∃ fuel r, downloadNv fuel env = some r ∧ r.ret = 0 ∧
      ∃ pages : List (List NvRecord), pages.flatten = rs ∧
        (∀ page ∈ pages, (page.flatMap NvRecord.sent).length ≤ 251) ∧
        r.cmds = versionCommand :: pages.mapIdx nvdsCommand ++ env.trailer := by
  obtain ⟨fuel, t, pages, page, hl, ht⟩ := (NvState.init_paged rs).exists_loop hfw hans
  have hsplit : pages.flatten ++ page = rs := (List.append_nil _).symm.trans ht.split
  have hrun : downloadNv fuel env = some ⟨(lastPage t).err,
      (sendTrailer env (lastPage t)).cmds, (lastPage t).log⟩ := by
    rw [downloadNv, if_neg (not_not.mpr (hans 0)), hfile]
    dsimp only
    rw [if_neg (not_not.mpr halloc), sendPages, if_pos hlite, hl]
    simp
  cases page with
  | nil =>
    have hlast : lastPage t = t := by
      rw [lastPage, if_neg]
      rw [ht.totalLen]
      exact lt_irrefl 0
    rw [hlast] at hrun
    refine ⟨fuel, _, hrun, ht.err, pages, by rw [← hsplit, List.append_nil], ht.sent, ?_⟩
    rw [cmds_sendTrailer ht.err, ht.cmds]
  | cons r page =>
    have hpos : 0 < t.totalLen := by
      rw [ht.totalLen, List.flatMap_cons, List.length_append, NvRecord.length_sent]
      omega
    have hlast : lastPage t = (t.header t.totalLen).sendNvds t.totalLen := if_pos hpos
    have herr : (lastPage t).err = 0 := by
      rw [hlast]
      exact ht.err
    refine ⟨fuel, _, hrun, herr, pages ++ [r :: page], by simpa using hsplit, ?_, ?_⟩
    · intro p hp
      rcases List.mem_append.mp hp with hp | hp
      · exact ht.sent p hp
      · rw [List.mem_singleton.mp hp, ← ht.totalLen]
        exact ht.small
    · rw [cmds_sendTrailer herr, hlast, cmds_sendNvds_header, ht.nvdsCommand_eq, ht.cmds,
        List.mapIdx_concat]
      rfl

/-- What the NVDS commands carry. -/
def NvRun.nvds (r : NvRun) : List (List (BitVec 8)) :=
  (r.cmds.filter fun c => c.opcode = HCI_CMD_SKW_BT_NVDS).map HciCommand.param

theorem NvRun.nvds_eq {env : NvEnv} {r : NvRun} {pages : List (List NvRecord)}
    (h : r.cmds = versionCommand :: pages.mapIdx nvdsCommand ++ env.trailer) :
    r.nvds = pages.mapIdx fun i page =>
      BitVec.ofNat 8 i :: BitVec.ofNat 8 (page.flatMap NvRecord.sent).length ::
        page.flatMap NvRecord.sent := by
  have htrailer : env.trailer.filter (fun c => c.opcode = HCI_CMD_SKW_BT_NVDS) = [] := by
    unfold NvEnv.trailer
    cases env.bdAddr <;> cases env.wakeupAdvInfo <;> rfl
  have hpages : (pages.mapIdx nvdsCommand).filter (fun c => c.opcode = HCI_CMD_SKW_BT_NVDS) =
      pages.mapIdx nvdsCommand := by
    refine List.filter_eq_self.mpr fun c hc => ?_
    obtain ⟨i, hi, rfl⟩ := List.mem_mapIdx.mp hc
    rfl
  rw [nvds, h, List.filter_append, htrailer, List.append_nil, List.filter_cons_of_neg (by decide),
    hpages]
  refine List.ext_getElem? fun i => ?_
  rw [List.getElem?_map, List.getElem?_mapIdx, List.getElem?_mapIdx, Option.map_map]
  rfl

/-- The file of these records. -/
def Firmware.ofRecords (rs : List NvRecord) (h : (rs.flatMap NvRecord.bytes).length < 2 ^ 30) :
    Firmware where
  data i := ((rs.flatMap NvRecord.bytes)[i - 4]?).getD 0
  size := 4 + (rs.flatMap NvRecord.bytes).length
  size_lt := by omega

theorem Firmware.holds_ofRecords (rs : List NvRecord)
    (h : (rs.flatMap NvRecord.bytes).length < 2 ^ 30) : (Firmware.ofRecords rs h).Holds rs where
  size := rfl
  data := by
    refine List.ext_getElem (by simp) fun i hi hi' => ?_
    simp only [Lib.load, ofRecords, List.getElem_map, List.getElem_range]
    rw [Nat.add_sub_cancel_left, List.getElem?_eq_getElem hi', Option.getD_some]

/-- On a chip with record pages, with this file and every command answered. -/
def NvEnv.answered (fw : Firmware) : NvEnv where
  chipVersion := SKW_CHIPID_6316
  requestFirmware _ := .ok fw
  kzalloc := true
  bdAddr := some (List.replicate 6 1)
  wakeupAdvInfo := none
  answer _ := true

/-- The pages carry the records of the file in order, whole records in each of them, and their
numbers count from 0 modulo 256. -/
theorem downloadNv_nvds {env : NvEnv} {fw : Firmware} {rs : List NvRecord} (hlite : env.Lite)
    (hfile : env.file = .ok fw) (halloc : env.kzalloc = true) (hans : ∀ k, env.answer k = true)
    (hfw : fw.Holds rs) :
    ∃ fuel r, downloadNv fuel env = some r ∧
      ∃ pages : List (List NvRecord), pages.flatten = rs ∧
        r.nvds = pages.mapIdx (fun i page =>
          BitVec.ofNat 8 i :: BitVec.ofNat 8 (page.flatMap NvRecord.sent).length ::
            page.flatMap NvRecord.sent) ∧
        ∀ page ∈ pages, (page.flatMap NvRecord.sent).length ≤ 251 ∧
          (BitVec.ofNat 8 (page.flatMap NvRecord.sent).length).toNat =
            (page.flatMap NvRecord.sent).length := by
  obtain ⟨fuel, r, hrun, -, pages, hflat, hlen, hcmds⟩ :=
    exists_downloadNv hlite hfile halloc hans hfw
  refine ⟨fuel, r, hrun, pages, hflat, NvRun.nvds_eq hcmds, fun page hp => ⟨hlen page hp, ?_⟩⟩
  have := hlen page hp
  rw [BitVec.toNat_ofNat, Nat.mod_eq_of_lt (by omega)]

/-- A record with `n` bytes behind its header. -/
def NvRecord.ofLength (tag : BitVec 8) (n : ℕ) (h : n ≤ 248) : NvRecord :=
  ⟨tag, 0, List.replicate n 0, by rwa [List.length_replicate]⟩

@[simp] theorem NvRecord.length_payload_ofLength (tag : BitVec 8) {n : ℕ} (h : n ≤ 248) :
    (ofLength tag n h).payload.length = n := List.length_replicate

/-- A file whose second record does not fit in the first page. -/
def twoRecords : List NvRecord :=
  [.ofLength 1 200 (by decide), .ofLength NV_TAG_DSP_LOG_SETTING 60 (by decide)]

theorem length_twoRecords : (twoRecords.flatMap NvRecord.bytes).length < 2 ^ 30 := by
  simp [twoRecords]

theorem twoRecords_nvds :
    ∃ fuel r, downloadNv fuel (.answered (.ofRecords twoRecords length_twoRecords)) = some r ∧
      ∃ pages : List (List NvRecord), pages.flatten = twoRecords ∧
        r.nvds = pages.mapIdx (fun i page =>
          BitVec.ofNat 8 i :: BitVec.ofNat 8 (page.flatMap NvRecord.sent).length ::
            page.flatMap NvRecord.sent) ∧
        ∀ page ∈ pages, (page.flatMap NvRecord.sent).length ≤ 251 ∧
          (BitVec.ofNat 8 (page.flatMap NvRecord.sent).length).toNat =
            (page.flatMap NvRecord.sent).length :=
  downloadNv_nvds (.inl rfl) rfl rfl (fun _ => rfl) (Firmware.holds_ofRecords _ _)

/-- A record that fills a page. -/
def pageRecord : NvRecord := .ofLength 1 248 le_rfl

theorem length_manyRecords :
    ((List.replicate 257 pageRecord).flatMap NvRecord.bytes).length < 2 ^ 30 := by
  rw [List.length_flatMap, List.map_replicate, List.sum_replicate_nat, NvRecord.length_bytes,
    pageRecord, NvRecord.length_payload_ofLength]
  decide

def manyRecords : Firmware := .ofRecords (List.replicate 257 pageRecord) length_manyRecords

/-- Each record needs a page. -/
theorem length_le_of_page {pages : List (List NvRecord)} {n : ℕ}
    (hflat : pages.flatten = List.replicate n pageRecord)
    (hlen : ∀ page ∈ pages, (page.flatMap NvRecord.sent).length ≤ 251) : n ≤ pages.length := by
  have hone : ∀ page ∈ pages, page.length ≤ 1 := by
    intro page hp
    have hrep : page = List.replicate page.length pageRecord :=
      List.eq_replicate_of_mem fun r hr =>
        List.eq_of_mem_replicate (hflat ▸ List.mem_flatten.mpr ⟨page, hp, hr⟩)
    have hbytes := hlen page hp
    rw [hrep, List.length_flatMap, List.map_replicate, List.sum_replicate_nat,
      NvRecord.length_sent, pageRecord, NvRecord.length_payload_ofLength] at hbytes
    omega
  have hn := congrArg List.length hflat
  rw [List.length_flatten, List.length_replicate] at hn
  have hsum := List.sum_le_card_nsmul (pages.map List.length) 1 (by simpa using hone)
  simp only [List.length_map, smul_eq_mul, mul_one] at hsum
  omega

/-- The number of the 257th page is 0 again. -/
theorem manyRecords_wrap : ∃ fuel r p, downloadNv fuel (.answered manyRecords) = some r ∧
    r.nvds[256]? = some p ∧ p[0]? = some 0 := by
  obtain ⟨fuel, r, hrun, -, pages, hflat, hlen, hcmds⟩ :=
    exists_downloadNv (.inl rfl : (NvEnv.answered manyRecords).Lite) rfl rfl (fun _ => rfl)
      (Firmware.holds_ofRecords _ _)
  have hmany := length_le_of_page hflat hlen
  obtain ⟨page, hpage⟩ : ∃ page, pages[256]? = some page := ⟨_, List.getElem?_eq_getElem hmany⟩
  have hnvds : r.nvds[256]? = some (0 :: BitVec.ofNat 8 (page.flatMap NvRecord.sent).length ::
      page.flatMap NvRecord.sent) := by
    rw [NvRun.nvds_eq hcmds, List.getElem?_mapIdx, hpage]
    rfl
  exact ⟨fuel, r, _, hrun, hnvds, rfl⟩

end Skw
