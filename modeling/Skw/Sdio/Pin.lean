import Skw.Kernel.Types
import Skw.Lib.Loop

/-! The pin configuration that `skw_pin_config` takes from the PNFG table of the NV file. It goes to
the pin registers between setting and clearing the download flag. -/
namespace Skw

abbrev PN_CNT : ℕ := 20
abbrev PN_FUNCSEL_ONEGRP_CNT : ℕ := 10
abbrev PN_FUNC_SEL0_OFFSET : BitVec 32 := 0x5c
abbrev PN_FUNC_SEL1_OFFSET : BitVec 32 := 0x60
abbrev SKW_PINREG_BASE : BitVec 32 := 0x40102000
abbrev SKW_DL_FLAG_BIT_MASK : BitVec 32 := BitVec.twoPow 32 8

/-- The results of `force_cp_wakeup`, `skw_sdio_dt_read` and `skw_sdio_dt_write` in a run of
`update_download_flag`, each in the order of the calls in the source. -/
structure FlagIo where
  wakeup : Fin 5 → ℤ
  read : Fin 2 → ℤ
  write : Fin 2 → ℤ

/-- An access that is made again after a wakeup. -/
def retried (first wakeup second : ℤ) : ℤ :=
  if first = 0 then 0 else if wakeup ≠ 0 then wakeup else second

/-- `update_download_flag`: what it returns, and the register. -/
def updateDownloadFlag (io : FlagIo) (enable : Bool) (reg : BitVec 32) : ℤ × BitVec 32 :=
  if io.wakeup 0 ≠ 0 then (io.wakeup 0, reg)
  else if retried (io.read 0) (io.wakeup 1) (io.read 1) ≠ 0 then
    (retried (io.read 0) (io.wakeup 1) (io.read 1), reg)
  else
    let buffer := if enable then reg ||| SKW_DL_FLAG_BIT_MASK else reg &&& ~~~SKW_DL_FLAG_BIT_MASK
    if io.wakeup 2 ≠ 0 then (io.wakeup 2, reg)
    else if retried (io.write 0) (io.wakeup 3) (io.write 1) ≠ 0 then
      (retried (io.write 0) (io.wakeup 3) (io.write 1), reg)
    else (io.wakeup 4, buffer)

theorem updateDownloadFlag_of_eq_zero {io : FlagIo} {enable : Bool} {reg : BitVec 32}
    (h : (updateDownloadFlag io enable reg).1 = 0) : (updateDownloadFlag io enable reg).2 =
      if enable then reg ||| SKW_DL_FLAG_BIT_MASK else reg &&& ~~~SKW_DL_FLAG_BIT_MASK := by
  revert h
  unfold updateDownloadFlag
  dsimp only
  split_ifs with h₀ h₁ h₂ h₃ h₄ h₅ h₆
  all_goals first | exact fun _ => rfl | exact fun h => absurd h ‹_›

/-- `nv_mem_pnfg_data`, a pointer into the NV file, and `nv_mem_pnfg_size`. -/
structure PinTable where
  data : ℤ → BitVec 8
  size : BitVec 32

/-- A byte of the table that is read, or an element of an array that is written. -/
inductive PinAccess
  | table (addr : ℤ)
  | pinOff (i : ℕ)
  | pinVal (i : ℕ)
  | funcSelVal (i : ℕ)
deriving DecidableEq

def PinAccess.Inside (size : ℕ) : PinAccess → Prop
  | .table a => 0 ≤ a ∧ a < size
  | .pinOff i | .pinVal i => i < PN_CNT
  | .funcSelVal i => i < 2

/-- The local variables of the record loop. -/
structure PinState where
  gOffset : BitVec 32
  funcIndex : ℕ
  pinGroupIndex : ℕ
  funcGroupIndex : ℕ
  pinOff : ℕ → BitVec 8
  pinVal : ℕ → BitVec 32
  funcSelVal : ℕ → BitVec 32
  log : List PinAccess

def PinState.init : PinState := ⟨0, 0, 0, 0, fun _ => 0, fun _ => 0, fun _ => 0, []⟩

/-- `GENMASK` of 32 bits. -/
def genmask (hi lo : ℕ) : BitVec 32 :=
  BitVec.allOnes 32 <<< lo &&& BitVec.allOnes 32 >>> (31 - hi)

namespace PinTable

def byte (t : PinTable) (a : ℤ) (i : ℕ) : BitVec 32 := (t.data (a + i)).setWidth 32

/-- `pin_val` with the fields of the record at `a`: dslp_en, drv_strength, normal wpu and wpd,
schmitt trigger, sleep wpu and wpd, sleep ie and oe. -/
def packed (t : PinTable) (a : ℤ) (val : BitVec 32) : BitVec 32 :=
  val ||| (t.byte a 2 <<< 17 &&& genmask 21 17) ||| (t.byte a 3 <<< 14 &&& genmask 16 14) |||
    (t.byte a 4 <<< 8 &&& genmask 10 8) ||| (t.byte a 5 <<< 11 &&& genmask 11 11) |||
    (t.byte a 6 <<< 2 &&& genmask 4 2) ||| (t.byte a 7 &&& genmask 1 0)

/-- A round of the record loop. -/
def round (t : PinTable) (s : PinState) : PinState :=
  let a := s.gOffset.toInt
  let full := s.funcIndex + 1 = PN_FUNCSEL_ONEGRP_CNT
  { gOffset := s.gOffset + 8
    funcIndex := if full then 0 else s.funcIndex + 1
    pinGroupIndex := s.pinGroupIndex + 1
    funcGroupIndex := if full then s.funcGroupIndex + 1 else s.funcGroupIndex
    pinOff := Function.update s.pinOff s.pinGroupIndex (t.data a)
    pinVal := Function.update s.pinVal s.pinGroupIndex (t.packed a (s.pinVal s.pinGroupIndex))
    funcSelVal := Function.update s.funcSelVal s.funcGroupIndex
      (s.funcSelVal s.funcGroupIndex |||
        (t.byte a 1 <<< (3 * s.funcIndex) &&& 7#32 <<< (3 * s.funcIndex)))
    log := s.log ++ (List.range 8).map (fun i : ℕ => .table (a + i)) ++
      [.pinOff s.pinGroupIndex, .pinVal s.pinGroupIndex, .funcSelVal s.funcGroupIndex] }

/-- The record loop goes on while `g_offset` is below the size, as unsigned numbers. -/
def pass (t : PinTable) (s : PinState) : Lib.Pass PinState :=
  if s.gOffset.toNat < t.size.toNat then .next (t.round s) else .done s

end PinTable

/-- Register writes up to the first that fails, and its result. The results are counted from
`i`. -/
def writeRegs (dtWrite : ℕ → ℤ) :
    ℕ → List (BitVec 32 × BitVec 32) → ℤ × List (BitVec 32 × BitVec 32)
  | _, [] => (0, [])
  | i, w :: ws =>
    if dtWrite i ≠ 0 then (dtWrite i, [w])
    else
      let (ret, issued) := writeRegs dtWrite (i + 1) ws
      (ret, w :: issued)

/-- What the calls of a run of `skw_pin_config` return: both updates of the flag, the allocation
and the writes of the pin registers. -/
structure PinEnv where
  setFlag : FlagIo
  kzalloc : Bool
  dtWrite : ℕ → ℤ
  clearFlag : FlagIo

structure PinResult where
  ret : ℤ
  dlFlag : BitVec 32
  writes : List (BitVec 32 × BitVec 32)
  log : List PinAccess

/-- The writes of the two function-select registers, and those of the pins. -/
def PinState.selWrites (s : PinState) : List (BitVec 32 × BitVec 32) :=
  [(SKW_PINREG_BASE + PN_FUNC_SEL0_OFFSET, s.funcSelVal 0),
    (SKW_PINREG_BASE + PN_FUNC_SEL1_OFFSET, s.funcSelVal 1)]

def PinState.pinWrites (s : PinState) : List (BitVec 32 × BitVec 32) :=
  (List.range PN_CNT).map fun i => (SKW_PINREG_BASE + (s.pinOff i).setWidth 32, s.pinVal i)

/-- `skw_pin_config` from the register of the download flag on, if the record loop ends within
`fuel` passes. -/
def pinConfig (fuel : ℕ) (t : PinTable) (env : PinEnv) (dlFlag : BitVec 32) : Option PinResult :=
  let (ret, dlFlag) := updateDownloadFlag env.setFlag true dlFlag
  if ret ≠ 0 then some ⟨ret, dlFlag, [], []⟩
  else if ¬env.kzalloc then some ⟨-ENOMEM, dlFlag, [], []⟩
  else
    (Lib.loop t.pass fuel .init).map fun s =>
      let (ret, sel) := writeRegs env.dtWrite 0 s.selWrites
      if ret ≠ 0 then ⟨ret, dlFlag, sel, s.log⟩
      else
        let (ret, pins) := writeRegs env.dtWrite 2 s.pinWrites
        if ret ≠ 0 then ⟨ret, dlFlag, sel ++ pins, s.log⟩
        else
          let (ret, dlFlag) := updateDownloadFlag env.clearFlag false dlFlag
          ⟨ret, dlFlag, sel ++ pins, s.log⟩

/-! ### The rounds of the record loop -/

namespace PinTable
variable (t : PinTable)

/-- The state after `j` rounds. -/
def rounds (j : ℕ) : PinState := t.round^[j] .init

theorem rounds_succ (j : ℕ) : t.rounds (j + 1) = t.round (t.rounds j) :=
  Function.iterate_succ_apply' ..

theorem gOffset_rounds (j : ℕ) : (t.rounds j).gOffset = BitVec.ofNat 32 (8 * j) := by
  induction j with
  | zero => rfl
  | succ j ih =>
    rw [rounds_succ]
    show (t.rounds j).gOffset + 8 = _
    rw [ih, show (8 : BitVec 32) = BitVec.ofNat 32 8 from rfl, ← BitVec.ofNat_add]
    congr 1

theorem toNat_gOffset {j : ℕ} (hj : j ≤ 21) : (t.rounds j).gOffset.toNat = 8 * j := by
  rw [gOffset_rounds, BitVec.toNat_ofNat, Nat.mod_eq_of_lt (by omega)]

theorem toInt_gOffset {j : ℕ} (hj : j ≤ 21) : (t.rounds j).gOffset.toInt = 8 * j := by
  rw [BitVec.toInt_eq_toNat_of_lt (by rw [toNat_gOffset t hj]; omega), toNat_gOffset t hj]
  push_cast
  rfl

/-- The three indices count the rounds, the function-select ones in groups of ten. -/
theorem indices_rounds (j : ℕ) : (t.rounds j).pinGroupIndex = j ∧
    (t.rounds j).funcIndex = j % 10 ∧ (t.rounds j).funcGroupIndex = j / 10 := by
  induction j with
  | zero => exact ⟨rfl, rfl, rfl⟩
  | succ j ih =>
    obtain ⟨hp, hf, hg⟩ := ih
    rw [rounds_succ]
    simp only [round, hp, hf, hg, true_and, PN_FUNCSEL_ONEGRP_CNT]
    split_ifs with h
    · omega
    · omega

/-- The arrays of the pins after some rounds. -/
theorem pins_rounds {j : ℕ} (hj : j ≤ 21) (k : ℕ) :
    (t.rounds j).pinOff k = (if k < j then t.data (8 * k) else 0) ∧
      (t.rounds j).pinVal k = if k < j then t.packed (8 * k) 0 else 0 := by
  induction j with
  | zero => exact ⟨rfl, rfl⟩
  | succ j ih =>
    obtain ⟨ho, hv⟩ := ih (by omega)
    have hself := (t.indices_rounds j).1
    rw [rounds_succ]
    simp only [round, hself, t.toInt_gOffset (j := j) (by omega)]
    rcases Nat.lt_trichotomy k j with hk | rfl | hk
    · rw [Function.update_of_ne hk.ne, Function.update_of_ne hk.ne, ho, hv]
      simp [hk, Nat.lt_succ_of_lt hk]
    · rw [Function.update_self, Function.update_self, hv]
      simp
    · rw [Function.update_of_ne hk.ne', Function.update_of_ne hk.ne', ho, hv]
      simp [hk.not_gt, show ¬k < j + 1 by omega]

private theorem getLsbD_seven (m : ℕ) : (7#32).getLsbD m = decide (m < 3) := by
  by_cases hm : m < 32
  · revert m
    decide
  · rw [BitVec.getLsbD_of_ge _ _ (by omega)]
    simp [show ¬m < 3 by omega]

/-- Three bits for each record, ten records in a register. -/
theorem getLsbD_funcSelVal {j : ℕ} (hj : j ≤ 21) (g b : ℕ) :
    ((t.rounds j).funcSelVal g).getLsbD b =
      (decide (b < 30 ∧ 10 * g + b / 3 < j) &&
        (t.data (8 * (10 * g + b / 3 : ℕ) + 1)).getLsbD (b % 3)) := by
  induction j with
  | zero => simp [rounds, PinState.init]
  | succ j ih =>
    have ih := ih (by omega)
    obtain ⟨-, hf, hg⟩ := t.indices_rounds j
    rw [rounds_succ]
    simp only [round, hf, hg, t.toInt_gOffset (j := j) (by omega)]
    rcases eq_or_ne g (j / 10) with rfl | hne
    · rw [Function.update_self, BitVec.getLsbD_or, ih, BitVec.getLsbD_and, BitVec.getLsbD_shiftLeft,
        BitVec.getLsbD_shiftLeft, getLsbD_seven, byte, BitVec.getLsbD_setWidth]
      rcases Nat.lt_trichotomy (10 * (j / 10) + b / 3) j with hlt | heq | hgt
      · have hb : b < 3 * (j % 10) := by omega
        simp [hlt, Nat.lt_succ_of_lt hlt, hb]
      · have hb : 3 * (j % 10) ≤ b ∧ b - 3 * (j % 10) = b % 3 ∧ b < 30 := by omega
        have hm : b % 3 < 3 := Nat.mod_lt _ (by omega)
        simp [heq, hb, not_lt.mpr hb.1, show b < 32 by omega, show b % 3 < 32 by omega, hm]
      · have hb : ¬b - 3 * (j % 10) < 3 := by omega
        have hj : ¬10 * (j / 10) + b / 3 < j ∧ ¬10 * (j / 10) + b / 3 < j + 1 := by omega
        simp [hj, hb]
    · rw [Function.update_of_ne hne, ih]
      have hiff : (b < 30 ∧ 10 * g + b / 3 < j) ↔ (b < 30 ∧ 10 * g + b / 3 < j + 1) := by omega
      rw [decide_eq_decide.mpr hiff]

/-- In the first twenty rounds every access to an array is inside, and every byte read is of a
record. -/
theorem inside_log_rounds {j : ℕ} (hj : j ≤ PN_CNT) : ∀ x ∈ (t.rounds j).log, x.Inside (8 * j) := by
  induction j with
  | zero => exact fun x hx => by cases hx
  | succ j ih =>
    have hj' : j < 20 := hj
    obtain ⟨hp, -, hg⟩ := t.indices_rounds j
    intro x hx
    rw [rounds_succ] at hx
    simp only [round, hp, hg, t.toInt_gOffset (j := j) (by omega), List.mem_append] at hx
    rcases hx with (hx | hx) | hx
    · have hin := ih (by omega) x hx
      cases x with
      | table a => exact ⟨hin.1, by have := hin.2; push_cast at this ⊢; omega⟩
      | pinOff i | pinVal i | funcSelVal i => exact hin
    · obtain ⟨i, hi, rfl⟩ := List.mem_map.mp hx
      have hi := List.mem_range.mp hi
      exact ⟨by omega, by push_cast; omega⟩
    · simp only [List.mem_cons, List.not_mem_nil, or_false] at hx
      rcases hx with rfl | rfl | rfl
      · exact hj'
      · exact hj'
      · show j / 10 < 2
        omega

/-- The loop goes on while a record begins inside the table. -/
theorem pass_rounds {j : ℕ} (hj : j ≤ 21) : t.pass (t.rounds j) =
    if 8 * j < t.size.toNat then .next (t.rounds (j + 1)) else .done (t.rounds j) := by
  rw [pass, toNat_gOffset t hj, rounds_succ]

/-- A table of at most `PN_CNT` records is read to its end. -/
theorem exists_loop_iff {s : PinState} (hs : t.size.toNat ≤ 8 * PN_CNT) :
    (∃ fuel, Lib.loop t.pass fuel .init = some s) ↔ t.rounds ((t.size.toNat + 7) / 8) = s := by
  have hn : (t.size.toNat + 7) / 8 ≤ 21 := by
    have hcnt : PN_CNT = 20 := rfl
    omega
  rw [Lib.exists_loop_iterate (f := t.round) (n := (t.size.toNat + 7) / 8) fun j hj => ?_]
  · refine Lib.exists_loop_of_done ?_
    have := t.pass_rounds hn
    rwa [if_neg (by omega)] at this
  · have := t.pass_rounds (j := j) (by omega)
    rwa [if_pos (by omega)] at this

/-- Of a longer table, the record behind those is taken as well. -/
theorem mem_log_of_gt {s : PinState} {fuel : ℕ} (hs : 8 * PN_CNT < t.size.toNat)
    (h : Lib.loop t.pass fuel .init = some s) : .pinOff PN_CNT ∈ s.log := by
  have hcnt : PN_CNT = 20 := rfl
  obtain ⟨fuel', hl⟩ := (Lib.exists_loop_iterate (f := t.round) (n := 21) (t := s) fun j hj => by
    have := t.pass_rounds (j := j) (by omega)
    rwa [if_pos (by omega)] at this).mp ⟨fuel, h⟩
  refine Lib.of_loop_eq (I := fun s => .pinOff PN_CNT ∈ s.log)
    (Q := fun s => .pinOff PN_CNT ∈ s.log) ?_ ?_ ?_ hl
  · intro u v hu hp
    unfold pass at hp
    split_ifs at hp
    cases hp
    exact List.mem_append_left _ (List.mem_append_left _ hu)
  · intro u v hu hp
    unfold pass at hp
    split_ifs at hp
    cases hp
    exact hu
  · show .pinOff PN_CNT ∈ (t.rounds 21).log
    rw [rounds_succ]
    refine List.mem_append_right _ ?_
    rw [(t.indices_rounds 20).1]
    simp

/-- The registers that the records of the table name get their values, behind the selectors of all
pins, nothing outside the table and the arrays is touched, and the download flag is cleared. -/
structure Configured (r : PinResult) : Prop where
  inside : ∀ x ∈ r.log, x.Inside t.size.toNat
  writes : ∃ sel : Fin 2 → BitVec 32,
    r.writes = [(SKW_PINREG_BASE + PN_FUNC_SEL0_OFFSET, sel 0),
      (SKW_PINREG_BASE + PN_FUNC_SEL1_OFFSET, sel 1)] ++
        (List.range (t.size.toNat / 8)).map (fun k : ℕ =>
          (SKW_PINREG_BASE + (t.data (8 * k)).setWidth 32, t.packed (8 * k) 0)) ∧
    ∀ k < t.size.toNat / 8, ∀ g, g.val = k / PN_FUNCSEL_ONEGRP_CNT →
      (sel g).extractLsb' (3 * (k % PN_FUNCSEL_ONEGRP_CNT)) 3 = (t.data (8 * k + 1)).setWidth 3
  cleared : r.dlFlag &&& SKW_DL_FLAG_BIT_MASK = 0

theorem pinWrites_rounds : (t.rounds PN_CNT).pinWrites = (List.range PN_CNT).map fun k : ℕ =>
    (SKW_PINREG_BASE + (t.data (8 * k)).setWidth 32, t.packed (8 * k) 0) := by
  refine List.map_congr_left fun k hk => ?_
  have hk := List.mem_range.mp hk
  obtain ⟨ho, hv⟩ := t.pins_rounds (j := PN_CNT) (by decide) k
  rw [ho, hv, if_pos hk, if_pos hk]

/-- The field of a record in its function-select register. -/
theorem funcSelVal_field {j k : ℕ} (hj : j ≤ 21) (hk : k < j) :
    ((t.rounds j).funcSelVal (k / 10)).extractLsb' (3 * (k % 10)) 3 =
      (t.data (8 * k + 1)).setWidth 3 := by
  apply BitVec.eq_of_getLsbD_eq
  intro i hi
  rw [BitVec.getLsbD_extractLsb', getLsbD_funcSelVal t hj, BitVec.getLsbD_setWidth]
  have hrec : 10 * (k / 10) + (3 * (k % 10) + i) / 3 = k := by omega
  have hbit : (3 * (k % 10) + i) % 3 = i := by omega
  rw [hrec, hbit]
  simp [hi, hk, show 3 * (k % 10) + i < 30 by omega]

end PinTable

section
variable {dtWrite : ℕ → ℤ} {i : ℕ} {ws : List (BitVec 32 × BitVec 32)}

theorem writeRegs_of_ok (h : ∀ j < ws.length, dtWrite (i + j) = 0) :
    writeRegs dtWrite i ws = (0, ws) := by
  induction ws generalizing i with
  | nil => rfl
  | cons w ws ih =>
    have h₀ : dtWrite i = 0 := h 0 (by simp)
    rw [writeRegs, if_neg (not_not.mpr h₀), ih fun j hj => ?_]
    have := h (j + 1) (by simpa using hj)
    rwa [show i + 1 + j = i + (j + 1) by omega]

theorem ok_of_writeRegs (h : (writeRegs dtWrite i ws).1 = 0) :
    ∀ j < ws.length, dtWrite (i + j) = 0 := by
  induction ws generalizing i with
  | nil => exact fun j hj => absurd hj (Nat.not_lt_zero j)
  | cons w ws ih =>
    rw [writeRegs] at h
    split_ifs at h with hw
    · exact absurd h hw
    · intro j hj
      cases j with
      | zero => exact not_not.mp hw
      | succ j =>
        have := ih h j (by simpa using hj)
        rwa [show i + 1 + j = i + (j + 1) by omega] at this

end

theorem dlFlag_set_ne (flag : BitVec 32) :
    (flag ||| SKW_DL_FLAG_BIT_MASK) &&& SKW_DL_FLAG_BIT_MASK ≠ 0 := by
  intro h
  have hb := congrArg (fun x : BitVec 32 => x.getLsbD 8) h
  simp at hb

/-- The flag is left set unless the configuration is written to the end. -/
theorem writes_of_cleared {fuel : ℕ} {t : PinTable} {env : PinEnv} {flag : BitVec 32}
    {r : PinResult} (hset : (updateDownloadFlag env.setFlag true flag).1 = 0)
    (h : pinConfig fuel t env flag = some r) (hc : r.dlFlag &&& SKW_DL_FLAG_BIT_MASK = 0) :
    env.kzalloc = true ∧ (∀ i < 2 + PN_CNT, env.dtWrite i = 0) ∧
      ∃ s, Lib.loop t.pass fuel .init = some s ∧ r.log = s.log ∧
        r.writes = s.selWrites ++ s.pinWrites := by
  have hflag : updateDownloadFlag env.setFlag true flag = (0, flag ||| SKW_DL_FLAG_BIT_MASK) :=
    Prod.ext hset (updateDownloadFlag_of_eq_zero hset)
  rw [pinConfig, hflag] at h
  dsimp only at h
  rw [if_neg (not_not.mpr rfl)] at h
  cases halloc : env.kzalloc with
  | false =>
    rw [halloc, if_pos Bool.false_ne_true] at h
    cases h
    exact absurd hc (dlFlag_set_ne flag)
  | true =>
    rw [halloc, if_neg (not_not.mpr rfl)] at h
    obtain ⟨s, hs, hr⟩ := Option.map_eq_some_iff.mp h
    split_ifs at hr with hsel hpin
    · subst hr
      exact absurd hc (dlFlag_set_ne flag)
    · subst hr
      exact absurd hc (dlFlag_set_ne flag)
    · have hsel := ok_of_writeRegs (not_not.mp hsel)
      have hpin := ok_of_writeRegs (not_not.mp hpin)
      refine ⟨rfl, fun i hi => ?_, s, hs, ?_⟩
      · rcases Nat.lt_or_ge i 2 with hlt | hge
        · simpa using hsel i hlt
        · have hlen : (s.pinWrites).length = PN_CNT := by
            rw [PinState.pinWrites, List.length_map, List.length_range]
          have := hpin (i - 2) (by omega)
          rwa [show 2 + (i - 2) = i by omega] at this
      · rw [writeRegs_of_ok hsel, writeRegs_of_ok hpin] at hr
        subst hr
        exact ⟨rfl, rfl⟩

/-- What is written where nothing fails and the table has all pins. -/
theorem exists_pinConfig (t : PinTable) (env : PinEnv) (flag : BitVec 32)
    (hset : (updateDownloadFlag env.setFlag true flag).1 = 0)
    (hclear : (updateDownloadFlag env.clearFlag false
      (updateDownloadFlag env.setFlag true flag).2).1 = 0)
    (hsize : t.size.toNat = 8 * PN_CNT) (halloc : env.kzalloc = true)
    (hwrite : ∀ i < 2 + PN_CNT, env.dtWrite i = 0) :
    ∃ fuel, pinConfig fuel t env flag =
      some ⟨0, (flag ||| SKW_DL_FLAG_BIT_MASK) &&& ~~~SKW_DL_FLAG_BIT_MASK,
        (t.rounds 20).selWrites ++ (t.rounds 20).pinWrites, (t.rounds 20).log⟩ := by
  have hcnt : PN_CNT = 20 := rfl
  obtain ⟨fuel, hs⟩ := (t.exists_loop_iff (by omega)).mpr rfl
  have hn : (t.size.toNat + 7) / 8 = 20 := by omega
  rw [hn] at hs
  have hsel : writeRegs env.dtWrite 0 (t.rounds 20).selWrites = (0, (t.rounds 20).selWrites) :=
    writeRegs_of_ok fun j hj => hwrite _ (by
      simp only [PinState.selWrites, List.length_cons, List.length_nil] at hj; omega)
  have hpin : writeRegs env.dtWrite 2 (t.rounds 20).pinWrites = (0, (t.rounds 20).pinWrites) :=
    writeRegs_of_ok fun j hj => hwrite _ (by
      simp only [PinState.pinWrites, List.length_map, List.length_range] at hj; omega)
  have hflag : updateDownloadFlag env.setFlag true flag = (0, flag ||| SKW_DL_FLAG_BIT_MASK) :=
    Prod.ext hset (updateDownloadFlag_of_eq_zero hset)
  have hcleared : updateDownloadFlag env.clearFlag false (flag ||| SKW_DL_FLAG_BIT_MASK) =
      (0, (flag ||| SKW_DL_FLAG_BIT_MASK) &&& ~~~SKW_DL_FLAG_BIT_MASK) := by
    rw [hflag] at hclear
    exact Prod.ext hclear (updateDownloadFlag_of_eq_zero hclear)
  refine ⟨fuel, ?_⟩
  rw [pinConfig, hflag]
  dsimp only
  rw [if_neg (not_not.mpr rfl), if_neg (not_not.mpr halloc), hs, Option.map_some, hsel]
  dsimp only
  rw [if_neg (not_not.mpr rfl), hpin]
  dsimp only
  rw [if_neg (not_not.mpr rfl), hcleared]

/-- That is the configuration of the table. -/
theorem PinTable.configured_rounds (t : PinTable) (flag : BitVec 32)
    (hsize : t.size.toNat = 8 * PN_CNT) :
    t.Configured ⟨0, flag &&& ~~~SKW_DL_FLAG_BIT_MASK,
      (t.rounds 20).selWrites ++ (t.rounds 20).pinWrites, (t.rounds 20).log⟩ := by
  have hcnt : PN_CNT = 20 := rfl
  have hn : t.size.toNat / 8 = 20 := by omega
  refine ⟨fun x hx => ?_, ⟨fun g => (t.rounds 20).funcSelVal g, ?_, ?_⟩, ?_⟩
  · have := t.inside_log_rounds (j := 20) le_rfl x hx
    rwa [hsize]
  · rw [hn, t.pinWrites_rounds]
    rfl
  · intro k hk g hg
    show BitVec.extractLsb' _ 3 ((t.rounds 20).funcSelVal g) = _
    rw [hg]
    exact t.funcSelVal_field (by omega) (by omega)
  · show (_ &&& ~~~SKW_DL_FLAG_BIT_MASK) &&& SKW_DL_FLAG_BIT_MASK = 0
    rw [BitVec.and_assoc, BitVec.not_and_self]
    exact BitVec.and_zero

/-- The pin configuration of a table is written and the download flag cleared again exactly where
the table has a record for every pin, and neither the allocation nor a write fails. -/
theorem pinConfig_configured_iff (t : PinTable) (env : PinEnv) (flag : BitVec 32)
    (hset : (updateDownloadFlag env.setFlag true flag).1 = 0)
    (hclear : (updateDownloadFlag env.clearFlag false
      (updateDownloadFlag env.setFlag true flag).2).1 = 0) :
    (∃ fuel r, pinConfig fuel t env flag = some r ∧ t.Configured r) ↔
      t.size.toNat = 8 * PN_CNT ∧ env.kzalloc = true ∧ ∀ i < 2 + PN_CNT, env.dtWrite i = 0 := by
  have hcnt : PN_CNT = 20 := rfl
  constructor
  · rintro ⟨fuel, r, h, hr⟩
    obtain ⟨halloc, hwrite, s, hs, hlog, hw⟩ := writes_of_cleared hset h hr.cleared
    have hle : t.size.toNat ≤ 8 * PN_CNT := by
      by_contra hgt
      have hin := hr.inside _ (hlog ▸ t.mem_log_of_gt (not_le.mp hgt) hs)
      exact lt_irrefl PN_CNT hin
    obtain ⟨sel, hsel, -⟩ := hr.writes
    have hlen := congrArg List.length (hw.symm.trans hsel)
    simp only [PinState.selWrites, PinState.pinWrites, List.length_append, List.length_map,
      List.length_range, List.length_cons, List.length_nil] at hlen
    exact ⟨by omega, halloc, hwrite⟩
  · rintro ⟨hsize, halloc, hwrite⟩
    obtain ⟨fuel, hrun⟩ := exists_pinConfig t env flag hset hclear hsize halloc hwrite
    exact ⟨fuel, _, hrun, t.configured_rounds _ hsize⟩

/-- Every access succeeds. -/
def FlagIo.ok : FlagIo := ⟨fun _ => 0, fun _ => 0, fun _ => 0⟩

def PinEnv.ok : PinEnv := ⟨.ok, true, fun _ => 0, .ok⟩

/-- A table whose records select function 1 of every pin. -/
def PinTable.ofRecords (n : ℕ) : PinTable :=
  ⟨fun a => if a % 8 = 0 then BitVec.ofInt 8 (0x10 + a / 2) else if a % 8 = 1 then 1 else 0,
    BitVec.ofNat 32 (8 * n)⟩

theorem fullTable_configured :
    ∃ fuel r, pinConfig fuel (.ofRecords 20) .ok 0 = some r ∧
      (PinTable.ofRecords 20).Configured r :=
  (pinConfig_configured_iff (.ofRecords 20) .ok 0 rfl rfl).mpr ⟨rfl, rfl, fun _ _ => rfl⟩

/-- With one record, the register at the base is written 19 times; and where the allocation fails,
the flag stays set. -/
theorem oneRecord_not_configured :
    (∃ r, pinConfig 2 (.ofRecords 1) .ok 0 = some r ∧
      r.writes.drop 3 = List.replicate 19 (SKW_PINREG_BASE, 0) ∧
      ¬(PinTable.ofRecords 1).Configured r) ∧
    ∃ r, pinConfig 21 (.ofRecords 20) { PinEnv.ok with kzalloc := false } 0 = some r ∧
      r.dlFlag = SKW_DL_FLAG_BIT_MASK := by
  have hrun : (pinConfig 2 (.ofRecords 1) .ok 0).map (fun r => (r.writes.length, r.writes.drop 3)) =
      some (22, List.replicate 19 (SKW_PINREG_BASE, 0)) := by decide
  obtain ⟨r, hr, hw⟩ := Option.map_eq_some_iff.mp hrun
  obtain ⟨hlen, hdrop⟩ := Prod.ext_iff.mp hw
  refine ⟨⟨r, hr, hdrop, fun h => ?_⟩, _, rfl, by decide⟩
  obtain ⟨sel, hsel, -⟩ := h.writes
  rw [hsel, List.length_append, List.length_map, List.length_range] at hlen
  have hlen : 2 + 1 = 22 := hlen
  omega

end Skw
