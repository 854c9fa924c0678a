import Skw.Boot.Download

/-! The module table of an IRAM image as `skw_boot_init` and `skw_dloader_module` walk it. -/
namespace Skw

/-- The first head marker is at word `i`, and behind it are the two load addresses, `n` records and
the tail marker, which begins within the range that is scanned. -/
structure Tabled (m : ℕ → BitVec 8) (i n : ℕ) : Prop where
  head : headAt m i = true
  first : ∀ k < i, headAt m k = false
  tail : tailAt m (i + 4 + 3 * n) = true
  inside : i + 4 + 3 * n < SCAN_ROUNDS

/-- The addresses of the records behind a head marker at word `i`. -/
def tableAddrs (i n : ℕ) : List ℕ := recordAddrs ((i + 4) * IMG_HEAD_OPS_LEN) n

/-- The load addresses and the counts of `skw_boot_init` are those of the table, and its record loop
and that of `skw_dloader_module`, where no load fails, end after the records of the table. -/
def TableRead (iram : Firmware) (nv : Option Firmware) (i n : ℕ) : Prop :=
  ∃ fuel b, BootData.bootInit fuel (.requested iram nv) nv = some (b, tableAddrs i n, 0) ∧
    b.iramDlAddr = u32At iram.data ((i + 2) * IMG_HEAD_OPS_LEN) ∧
    b.dramDlAddr = u32At iram.data ((i + 3) * IMG_HEAD_OPS_LEN) ∧
    (∀ service loader s, (∀ l, loader l = 0) → ∃ s',
      b.dloaderModule fuel service loader s = some (s', 0) ∧
        s'.visited = s.visited ++ tableAddrs i n) ∧
    b.bspIndexCount = ((tableAddrs i n).map (imgHeadData iram.data)).countP (·.index = 1) ∧
    b.wifiIndexCount = ((tableAddrs i n).map (imgHeadData iram.data)).countP (·.index = 2) ∧
    b.btIndexCount = ((tableAddrs i n).map (imgHeadData iram.data)).countP (·.index = 3)

namespace Tabled
variable {m : ℕ → BitVec 8} {i n : ℕ}

theorem headWord_eq (h : Tabled m i n) : headWord m = some i := by
  refine List.find?_range'_eq_some.mpr ⟨h.head, ?_, fun k _ hk => ?_⟩
  · have := h.inside
    exact List.mem_range'_1.mpr ⟨Nat.zero_le i, by omega⟩
  · simp [h.first k hk]

/-- The scan ends at the first tail marker, which may be before that of the table. -/
theorem exists_tailWord_eq (h : Tabled m i n) :
    ∃ t, tailWord m i = some t ∧ i + 2 ≤ t ∧ t ≤ i + 4 + 3 * n ∧ tailAt m t = true ∧
      ∀ k, i < k → k < t → tailAt m k = false := by
  have hi := h.inside
  cases ht : tailWord m i with
  | none =>
    have := List.find?_range'_eq_none.mp ht (i + 4 + 3 * n) (by omega) (by omega)
    simp [h.tail] at this
  | some t =>
    obtain ⟨hat, -, hfirst⟩ := List.find?_range'_eq_some.mp ht
    refine ⟨t, rfl, (tailWord_bounds h.headWord_eq ht).1, ?_, hat,
      fun k hik hkt => by simpa using hfirst k hik hkt⟩
    by_contra hgt
    have := hfirst (i + 4 + 3 * n) (by omega) (by omega)
    simp [h.tail] at this

end Tabled

/-- The loop that ends at a tail marker at word `t` visits the records of the table. -/
theorem inTable_iff {i n t : ℕ} (hlo : i + 2 ≤ t) (hhi : t ≤ i + 4 + 3 * n)
    (hin : i + 4 + 3 * n < SCAN_ROUNDS) :
    ((∀ j < n, InTable ((i + 4) * IMG_HEAD_OPS_LEN) ((t - 1) * IMG_HEAD_OPS_LEN) j) ∧
      ¬InTable ((i + 4) * IMG_HEAD_OPS_LEN) ((t - 1) * IMG_HEAD_OPS_LEN) n) ↔
      0 < n ∧ i + 2 + 3 * n ≤ t := by
  have hlt : i + 4 + 3 * n < 128 := hin
  simp only [InTable, IMG_HEAD_OPS_LEN, MODULE_INFO_LEN]
  by_cases h : i + 5 ≤ t
  · have hd : ((t - 1) * 4 + 2 ^ 32 - (i + 4) * 4) % 2 ^ 32 = (t - i - 5) * 4 := by omega
    rw [hd]
    constructor
    · rintro ⟨hall, hout⟩
      have hn : 0 < n := by
        rcases Nat.eq_zero_or_pos n with rfl | hn
        · simp at hout
        · exact hn
      have := hall (n - 1) (by omega)
      omega
    · rintro ⟨hn, ht⟩
      exact ⟨fun j hj => by omega, by omega⟩
  · constructor
    · rintro ⟨-, hout⟩
      omega
    · omega

/-- What the record loop of `skw_boot_init` visits decides the rest. -/
theorem tableRead_iff_exists_recordLoop {iram : Firmware} {nv : Option Firmware} {i n t : ℕ}
    (ht : 1 < t) (hscan : headScan iram.data SCAN_ROUNDS 0 0 =
      ((i + 1) * IMG_HEAD_OPS_LEN, (t - 1) * IMG_HEAD_OPS_LEN)) :
    TableRead iram nv i n ↔ ∃ fuel, recordLoop ((i + 4) * IMG_HEAD_OPS_LEN)
      ((t - 1) * IMG_HEAD_OPS_LEN) fuel 0 = some (tableAddrs i n) := by
  have hhead : (i + 1) * IMG_HEAD_OPS_LEN + RAM_ADDR_OPS_LEN + IMG_HEAD_OPS_LEN =
      (i + 4) * IMG_HEAD_OPS_LEN := by simp only [IMG_HEAD_OPS_LEN, RAM_ADDR_OPS_LEN]; omega
  have htail : (t - 1) * IMG_HEAD_OPS_LEN ≠ 0 := by simp only [IMG_HEAD_OPS_LEN]; omega
  have hinit (fuel : ℕ) := BootData.bootInit_requested fuel iram nv
  simp only [hscan, if_neg htail, hhead] at hinit
  constructor
  · rintro ⟨fuel, b, hb, -⟩
    rw [hinit] at hb
    obtain ⟨l, hl, he⟩ := Option.map_eq_some_iff.mp hb
    simp only [Prod.mk.injEq] at he
    exact ⟨fuel, he.2.1 ▸ hl⟩
  · rintro ⟨fuel, hf⟩
    refine ⟨fuel, _, by rw [hinit, hf]; rfl, ?_, ?_, fun service loader s hl => ?_,
      BootData.count_inited⟩
    · rw [BootData.iramDlAddr_inited]
      congr 1
      simp only [IMG_HEAD_OPS_LEN]
      omega
    · rw [BootData.dramDlAddr_inited]
      congr 1
      simp only [IMG_HEAD_OPS_LEN]
      omega
    · rw [BootData.dloaderModule, BootData.dloaderLoop_eq hl, BootData.headAddr_inited,
        BootData.tailAddr_inited, hhead, hf]
      refine ⟨_, rfl, ?_⟩
      rw [DlState.visited_foldl]
      split <;> rfl

/-- The table is read exactly when it is not empty and no tail marker comes before the last two
words of the records. -/
theorem tableRead_iff {iram : Firmware} {i n : ℕ} (nv : Option Firmware)
    (h : Tabled iram.data i n) :
    TableRead iram nv i n ↔
      0 < n ∧ ∀ t, i < t → t + 2 < i + 4 + 3 * n → tailAt iram.data t = false := by
  obtain ⟨t, ht, hlo, hhi, hat, hfirst⟩ := h.exists_tailWord_eq
  have hscan : headScan iram.data SCAN_ROUNDS 0 0 =
      ((i + 1) * IMG_HEAD_OPS_LEN, (t - 1) * IMG_HEAD_OPS_LEN) := by
    rw [headScan_eq, h.headWord_eq, Option.elim_some, ht, Option.elim_some]
  rw [tableRead_iff_exists_recordLoop (by omega) hscan, tableAddrs, exists_recordLoop_iff,
    inTable_iff hlo hhi h.inside]
  refine and_congr_right fun _ => ⟨fun hle k hik hk => hfirst k hik (by omega), fun hno => ?_⟩
  by_contra hlt
  rw [hno t (by omega) (by omega)] at hat
  cases hat

/-- An image whose table is empty. -/
def emptyTable : Firmware :=
  .ofWords [0x7365656B, 0x36313630, 0x100000, 0x20200000, 0x77617665, 0x36313630] 0x200
    headInforRange_lt

theorem tabled_emptyTable : Tabled emptyTable.data 0 0 where
  head := by decide
  first k hk := absurd hk k.not_lt_zero
  tail := by decide
  inside := by decide

/-- No record is in the empty table, and the record loop goes on for ever. -/
theorem emptyTable_not_read :
    Tabled emptyTable.data 0 0 ∧ (∀ fuel, BootData.bootInit fuel (.requested emptyTable none) none =
      none) ∧ ¬TableRead emptyTable none 0 0 := by
  have hinit (fuel : ℕ) : BootData.bootInit fuel (.requested emptyTable none) none = none := by
    have hscan : headScan emptyTable.data SCAN_ROUNDS 0 0 = (4, 12) := by decide
    rw [BootData.bootInit_requested, hscan, if_neg (by decide), Option.map_eq_none_iff]
    cases hl : recordLoop (4 + RAM_ADDR_OPS_LEN + IMG_HEAD_OPS_LEN) 12 fuel 0 with
    | none => rfl
    | some l =>
      refine absurd ?_ (recordLoop_eq_some hl).2.2
      simp only [InTable, MODULE_INFO_LEN, RAM_ADDR_OPS_LEN, IMG_HEAD_OPS_LEN]
      omega
  refine ⟨tabled_emptyTable, hinit, ?_⟩
  rintro ⟨fuel, b, hb, -⟩
  rw [hinit fuel] at hb
  cases hb

theorem tabled_twoModules : Tabled BootData.twoModules.data 0 2 where
  head := by decide
  first k hk := absurd hk k.not_lt_zero
  tail := by decide
  inside := by decide

theorem twoModules_read : TableRead BootData.twoModules none 0 2 :=
  (tableRead_iff none tabled_twoModules).mpr
    ⟨by decide, fun t _ hlt =>
      (by decide : ∀ t < 8, tailAt BootData.twoModules.data t = false) t (by omega)⟩

end Skw
