import Skw.Boot.Image

/-! The download of the modules of a service by `skw_dloader_module`, and the signal that tells the
chip which load is the last. -/
namespace Skw

/-- The services that `skw_dloader_module` is called for. -/
inductive DlService
  | wifi
  | bt
  | all
deriving DecidableEq

/-- `SKW_BSP` of `skw_subsys`, and the number of a service there. -/
abbrev SKW_BSP : BitVec 32 := 1

def DlService.index : DlService → BitVec 32
  | .wifi => 2
  | .bt => 3
  | .all => 4

/-- The records that the loop of `skw_dloader_module` loads. -/
def DlService.Selects (service : DlService) (r : ImgHeadData) : Prop :=
  service.index = r.index ∨ SKW_BSP = r.index ∨ service = .all

instance (service : DlService) : DecidablePred service.Selects := fun r => by
  unfold DlService.Selects; infer_instance

/-- The records that `skw_boot_init` has counted for a service. -/
def DlService.Counted (service : DlService) (r : ImgHeadData) : Prop :=
  r.index = 1 ∨ r.index = 2 ∧ service ≠ .bt ∨ r.index = 3 ∧ service ≠ .wifi

instance (service : DlService) : DecidablePred service.Counted := fun r => by
  unfold DlService.Counted; infer_instance

inductive BaseImg
  | dram
  | iram
deriving DecidableEq

/-- What `skw_boot_loader` is called with: `dl_base_img`, `dl_offset_addr`, `dl_base_addr` and
`dl_size`. -/
structure Load where
  baseImg : BaseImg
  offsetAddr : BitVec 32
  baseAddr : BitVec 32
  size : BitVec 32
deriving DecidableEq

/-- A call of `skw_download_signal_ops`, or one of `skw_boot_loader`. -/
inductive DlEvent
  | signal
  | load (l : Load)
deriving DecidableEq

structure DlState where
  gblCountFlag : Bool
  dlDoneSignal : ℕ
  gpioVal : ℕ
  totalCount : ℕ
  visited : List ℕ
  events : List DlEvent

namespace DlState

def visit (s : DlState) (a : ℕ) : DlState := { s with visited := s.visited ++ [a] }

/-- `skw_download_signal_ops`. -/
def downloadSignalOps (s : DlState) : DlState :=
  { s with
    dlDoneSignal := (s.dlDoneSignal + 1) % 256
    gpioVal := if s.gpioVal ≠ 0 then 0 else 1
    events := s.events ++ [.signal] }

/-- A selected record up to the call of `skw_boot_loader`, which is the last event. -/
def download (s : DlState) (tmpCount : ℕ) (l : Load) : DlState :=
  let s := { s with totalCount := s.totalCount + 1 }
  let s := if tmpCount = s.totalCount then s.downloadSignalOps else s
  { s with events := s.events ++ [.load l] }

end DlState

namespace BootData

/-- The part of an image that a record names. -/
def load (b : BootData) (r : ImgHeadData) : Load :=
  if b.dramDlAddr ≤ r.dlAddr then ⟨.dram, r.dlAddr - b.dramDlAddr, r.writeAddr, r.dataSize⟩
  else ⟨.iram, r.dlAddr - b.iramDlAddr, r.writeAddr, r.dataSize⟩

/-- The record loop of `skw_dloader_module` from round `i` on with the last value of `ret`, if it
ends within `fuel` rounds. -/
def dloaderLoop (b : BootData) (service : DlService) (loader : Load → ℤ) (tmpCount : ℕ) :
    ℕ → ℕ → DlState → Option (DlState × ℤ)
  | 0, _, _ => none
  | fuel + 1, i, s =>
    if InTable b.headAddr b.tailAddr i then
      let a := b.headAddr + i * MODULE_INFO_LEN
      let r := imgHeadData b.iramImgData a
      let s := s.visit a
      if service.Selects r then
        let s := s.download tmpCount (b.load r)
        if loader (b.load r) = 0 then dloaderLoop b service loader tmpCount fuel (i + 1) s
        else some (s, loader (b.load r))
      else dloaderLoop b service loader tmpCount fuel (i + 1) s
    else some (s, 0)

def dlCount (b : BootData) : DlService → ℕ
  | .wifi => b.wifiDlCount
  | .bt => b.btDlCount
  | .all => b.allDlCount

/-- `skw_dloader_module` where an IRAM image is there. -/
def dloaderModule (fuel : ℕ) (b : BootData) (service : DlService) (loader : Load → ℤ)
    (s : DlState) : Option (DlState × ℤ) :=
  let s := if s.gblCountFlag then s else { s with dlDoneSignal := 0, gblCountFlag := true }
  dloaderLoop b service loader (b.dlCount service) fuel 0 { s with totalCount := 0 }

end BootData

/-! Where every load succeeds the loop is a fold over the records that it visits. -/

/-- A record whose load, if there is one, succeeds. -/
def DlState.record (b : BootData) (service : DlService) (tmpCount : ℕ) (s : DlState) (a : ℕ) :
    DlState :=
  let r := imgHeadData b.iramImgData a
  if service.Selects r then (s.visit a).download tmpCount (b.load r) else s.visit a

/-- The loads of the records at the addresses. -/
def BootData.loads (b : BootData) (service : DlService) (addrs : List ℕ) : List Load :=
  ((addrs.map (imgHeadData b.iramImgData)).filter (service.Selects ·)).map b.load

/-- The events of some loads, where `total` loads went before. -/
def signalled (tmpCount : ℕ) : ℕ → List Load → List DlEvent
  | _, [] => []
  | total, l :: ls =>
    (if tmpCount = total + 1 then [.signal, .load l] else [.load l]) ++
      signalled tmpCount (total + 1) ls

section
variable {b : BootData} {service : DlService} {loader : Load → ℤ} {tmpCount : ℕ}

theorem BootData.dloaderLoop_eq (hl : ∀ l, loader l = 0) (fuel i : ℕ) (s : DlState) :
    b.dloaderLoop service loader tmpCount fuel i s =
      (recordLoop b.headAddr b.tailAddr fuel i).map fun addrs =>
        (addrs.foldl (DlState.record b service tmpCount) s, 0) := by
  induction fuel generalizing i s with
  | zero => rfl
  | succ fuel ih =>
    simp only [dloaderLoop, recordLoop]
    by_cases hi : InTable b.headAddr b.tailAddr i
    · simp only [if_pos hi, if_pos (hl _), Option.map_map]
      by_cases hs : service.Selects
          (imgHeadData b.iramImgData (b.headAddr + i * MODULE_INFO_LEN))
      · rw [if_pos hs, ih]
        simp [Function.comp_def, DlState.record, hs]
      · rw [if_neg hs, ih]
        simp [Function.comp_def, DlState.record, hs]
    · rw [if_neg hi, if_neg hi]
      rfl

namespace DlState

@[simp] theorem visited_download (s : DlState) (l : Load) :
    (s.download tmpCount l).visited = s.visited := by
  unfold download downloadSignalOps
  dsimp only
  split <;> rfl

@[simp] theorem totalCount_download (s : DlState) (l : Load) :
    (s.download tmpCount l).totalCount = s.totalCount + 1 := by
  unfold download downloadSignalOps
  dsimp only
  split <;> rfl

theorem events_download (s : DlState) (l : Load) :
    (s.download tmpCount l).events =
      s.events ++ if tmpCount = s.totalCount + 1 then [.signal, .load l] else [.load l] := by
  unfold download downloadSignalOps
  dsimp only
  split <;> simp

theorem visited_record (s : DlState) (a : ℕ) :
    (s.record b service tmpCount a).visited = s.visited ++ [a] := by
  unfold record
  dsimp only
  split
  · rw [visited_download]; rfl
  · rfl

theorem visited_foldl (addrs : List ℕ) (s : DlState) :
    (addrs.foldl (record b service tmpCount) s).visited = s.visited ++ addrs := by
  induction addrs generalizing s with
  | nil => simp
  | cons a addrs ih => rw [List.foldl_cons, ih, visited_record, List.append_assoc]; rfl

theorem events_foldl (addrs : List ℕ) (s : DlState) :
    (addrs.foldl (record b service tmpCount) s).events =
      s.events ++ signalled tmpCount s.totalCount (b.loads service addrs) := by
  induction addrs generalizing s with
  | nil => simp [BootData.loads, signalled]
  | cons a addrs ih =>
    rw [List.foldl_cons, ih]
    by_cases hs : service.Selects (imgHeadData b.iramImgData a)
    · simp [record, BootData.loads, signalled, hs, events_download, visit]
    · simp [record, BootData.loads, hs, visit]

end DlState
end

/-! The signal stands before the load whose number `tmp_count` is. -/

theorem signalled_of_le {tmpCount total : ℕ} (h : tmpCount ≤ total) (ls : List Load) :
    signalled tmpCount total ls = ls.map .load := by
  induction ls generalizing total with
  | nil => rfl
  | cons l ls ih =>
    rw [signalled, if_neg (by omega), ih (by omega)]
    rfl

theorem signalled_of_lt {tmpCount total : ℕ} {ls : List Load} (h : total + ls.length < tmpCount) :
    signalled tmpCount total ls = ls.map .load := by
  induction ls generalizing total with
  | nil => rfl
  | cons l ls ih =>
    rw [List.length_cons] at h
    rw [signalled, if_neg (by omega), ih (by omega)]
    rfl

theorem signalled_append (tmpCount : ℕ) (l : Load) (ls ls' : List Load) (total : ℕ)
    (h : total + ls.length + 1 = tmpCount) :
    signalled tmpCount total (ls ++ l :: ls') =
      ls.map .load ++ .signal :: .load l :: ls'.map .load := by
  induction ls generalizing total with
  | nil => simp [signalled, ← h, signalled_of_le]
  | cons k ls ih =>
    rw [List.length_cons] at h
    rw [List.cons_append, signalled, if_neg (by omega), ih (total + 1) (by omega)]
    rfl

theorem notMem_map_load (ls : List Load) : DlEvent.signal ∉ ls.map DlEvent.load := by
  simp

/-- The signal stands just before the last load exactly when the counts agree. -/
theorem signalled_eq_iff {tmpCount : ℕ} {loads : List Load} :
    (∃ ls l, loads = ls ++ [l] ∧
      signalled tmpCount 0 loads = ls.map .load ++ [.signal, .load l]) ↔
      tmpCount = loads.length ∧ 0 < tmpCount := by
  constructor
  · rintro ⟨ls, l, rfl, he⟩
    have hle : 0 < tmpCount := by
      by_contra h
      rw [signalled_of_le (by omega)] at he
      exact notMem_map_load (ls ++ [l]) (he ▸ by simp)
    have hlt : tmpCount ≤ (ls ++ [l]).length := by
      by_contra h
      rw [signalled_of_lt (by omega)] at he
      exact notMem_map_load (ls ++ [l]) (he ▸ by simp)
    refine ⟨?_, hle⟩
    -- Both sides have one signal; its place is the number of loads before it.
    obtain ⟨as, bs, hab, hlen⟩ : ∃ as bs, ls ++ [l] = as ++ bs ∧ as.length = tmpCount - 1 :=
      ⟨_, _, (List.take_append_drop (tmpCount - 1) _).symm, List.length_take_of_le (by omega)⟩
    obtain _ | ⟨k, bs⟩ := bs
    · have := congrArg List.length hab
      simp only [List.append_nil] at this
      omega
    · rw [hab, signalled_append _ _ _ _ _ (by omega)] at he
      have hi := congrArg (List.idxOf DlEvent.signal) he
      rw [List.idxOf_append_of_notMem (notMem_map_load _),
        List.idxOf_append_of_notMem (notMem_map_load _)] at hi
      simp at hi
      simp
      omega
  · rintro ⟨hc, hp⟩
    obtain ⟨ls, l, rfl⟩ : ∃ ls l, loads = ls ++ [l] := by
      obtain rfl | ⟨ls, l, h⟩ := List.eq_nil_or_concat loads
      · simp at hc
        omega
      · exact ⟨ls, l, by simpa using h⟩
    refine ⟨ls, l, rfl, ?_⟩
    rw [signalled_append _ _ _ _ _ (by rw [hc]; simp)]
    rfl

namespace BootData

theorem length_loads (b : BootData) (service : DlService) (addrs : List ℕ) :
    (b.loads service addrs).length =
      (addrs.map (imgHeadData b.iramImgData)).countP (service.Selects ·) := by
  rw [loads, List.length_map, List.countP_eq_length_filter]

/-- What is counted for a service is what `dlCount` adds up. -/
theorem countP_counted (service : DlService) (rs : List ImgHeadData) :
    rs.countP (service.Counted ·) =
      rs.countP (·.index = 1) + (if service = .bt then 0 else rs.countP (·.index = 2)) +
        if service = .wifi then 0 else rs.countP (·.index = 3) := by
  induction rs with
  | nil => cases service <;> rfl
  | cons r rs ih =>
    have hr : (if decide (service.Counted r) = true then 1 else 0) =
        (if decide (r.index = 1) = true then 1 else 0) +
          (if service = .bt then 0 else if decide (r.index = 2) = true then 1 else 0) +
          if service = .wifi then 0 else if decide (r.index = 3) = true then 1 else 0 := by
      unfold DlService.Counted
      by_cases h1 : r.index = 1
      · cases service <;> simp [h1]
      by_cases h2 : r.index = 2
      · cases service <;> simp [h2]
      by_cases h3 : r.index = 3
      · cases service <;> simp [h3]
      · simp only [h1, h2, h3]
        cases service <;> rfl
    simp only [List.countP_cons, ih, hr]
    cases service <;> simp only [reduceCtorEq, if_true, if_false] <;> omega

theorem dlCount_eq_countP (service : DlService) {iram : Firmware} {nv : Option Firmware}
    {headOffset tailOffset : ℕ} {addrs : List ℕ} :
    (inited iram nv headOffset tailOffset addrs).dlCount service =
      (addrs.map (imgHeadData iram.data)).countP (service.Counted ·) := by
  obtain ⟨m, hm⟩ := inited_eq iram nv headOffset tailOffset addrs
  rw [hm, countP_counted]
  cases service <;> simp [dlCount, countDl]

/-- Where every load succeeds the modules of a service are loaded with the signal just before the
last exactly when as many records are selected as the initialisation has counted. -/
theorem dloaderModule_signals_iff {fuel : ℕ} {iram : Firmware} {nv : Option Firmware}
    {b : BootData} {addrs : List ℕ} {loader : Load → ℤ} (service : DlService) (s : DlState)
    (hb : bootInit fuel (requested iram nv) nv = some (b, addrs, 0)) (hl : ∀ l, loader l = 0) :
    (∃ fuel s' ls l, b.dloaderModule fuel service loader s = some (s', 0) ∧
      b.loads service addrs = ls ++ [l] ∧
      s'.events = s.events ++ (ls.map .load ++ [.signal, .load l])) ↔
      (addrs.map (imgHeadData iram.data)).countP (service.Counted ·) =
          (addrs.map (imgHeadData b.iramImgData)).countP (service.Selects ·) ∧
        0 < (addrs.map (imgHeadData iram.data)).countP (service.Counted ·) := by
  obtain ⟨hr, hc⟩ : recordLoop b.headAddr b.tailAddr fuel 0 = some addrs ∧
      b.dlCount service = (addrs.map (imgHeadData iram.data)).countP (service.Counted ·) := by
    rw [bootInit_requested] at hb
    split at hb
    · simp at hb
    · obtain ⟨l, hl, he⟩ := Option.map_eq_some_iff.mp hb
      simp only [Prod.mk.injEq, and_true] at he
      obtain ⟨rfl, rfl⟩ := he
      exact ⟨by simpa using hl, dlCount_eq_countP service⟩
  rw [← hc, ← length_loads, ← signalled_eq_iff]
  -- The loop ends as that of the initialisation does, and has logged the loads in between.
  have hrun (fuel : ℕ) (s' : DlState) (h : b.dloaderModule fuel service loader s = some (s', 0)) :
      s'.events = s.events ++ signalled (b.dlCount service) 0 (b.loads service addrs) := by
    rw [dloaderModule, dloaderLoop_eq hl] at h
    obtain ⟨l, hl, he⟩ := Option.map_eq_some_iff.mp h
    simp only [Prod.mk.injEq, and_true] at he
    rw [← he, DlState.events_foldl, recordLoop_unique hl hr]
    split <;> rfl
  constructor
  · rintro ⟨fuel, s', ls, l, hs, hls, he⟩
    exact ⟨ls, l, hls, List.append_cancel_left ((hrun fuel s' hs).symm.trans he)⟩
  · rintro ⟨ls, l, hls, he⟩
    obtain ⟨s', hs⟩ : ∃ s', b.dloaderModule fuel service loader s = some (s', 0) := by
      rw [dloaderModule, dloaderLoop_eq hl, hr]
      exact ⟨_, rfl⟩
    exact ⟨fuel, s', ls, l, hs, hls, (hrun fuel s' hs).trans (by rw [he])⟩

/-- A table of two modules, of which the second has the index 0. -/
def twoModules : Firmware :=
  .ofWords [0x7365656B, 0x36313630, 0x100000, 0x20200000, 0x100010, 0x01000010, 0x100000,
    0x20200040, 0x00000020, 0x20200000, 0x77617665, 0x36313630] 0x200 headInforRange_lt

theorem dloaderModule_signals_twoModules :
    ∃ fuel s' ls l, (inited twoModules none 4 36 [16, 28]).dloaderModule fuel .wifi (fun _ => 0)
        ⟨false, 0, 0, 0, [], []⟩ = some (s', 0) ∧
      (inited twoModules none 4 36 [16, 28]).loads .wifi [16, 28] = ls ++ [l] ∧
      s'.events = [] ++ (ls.map .load ++ [.signal, .load l]) := by
  have hscan : headScan twoModules.data SCAN_ROUNDS 0 0 = (4, 36) := by decide +kernel
  have hb : bootInit 3 (requested twoModules none) none =
      some (inited twoModules none 4 36 [16, 28], [16, 28], 0) := by
    rw [bootInit_requested, hscan]
    rfl
  exact (dloaderModule_signals_iff .wifi _ hb fun _ => rfl).mpr (by decide +kernel)

/-- With the record of another index every service is loaded, and the signal comes too early. -/
theorem all_signalled_early :
    ((bootInit 3 (requested twoModules none) none).bind fun b =>
      (b.1.dloaderModule 3 .all (fun _ => 0) ⟨false, 0, 0, 0, [], []⟩).map fun s =>
        (s.1.events, s.2)) =
      some ([.signal, .load ⟨.iram, 0x10, 0x100000, 0x10⟩,
        .load ⟨.dram, 0x40, 0x20200000, 0x20⟩], 0) := by
  decide +kernel

end BootData
end Skw
