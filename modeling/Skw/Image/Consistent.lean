import Skw.Image.Factory
import Mathlib.Tactic.Ring
import Mathlib.Algebra.Group.Action.Defs
import Mathlib.Algebra.Order.BigOperators.Group.List

/-! When the partitions of a factory image are disjoint and hold their images, and when the rows of
`partition-metadata.txt` follow each other. The sizes come from the raw image and the starts from the
settings, so that it takes bounds on the sizes. -/
namespace Skw
open Lib (Span Laid)

/-! What the texts say -/

def MtdPart.span (p : MtdPart) : Option Span := do
  some ⟨← hexNumber p.start, ← hexNumber p.size⟩

/-- Where the file of a row is, in octets. -/
def MetaRow.span (r : MetaRow) : Option Span := do
  some ⟨← hexNumber r.offset, (← hexNumber r.blocks) * 0x800⟩

/-- The partition of a row, in sectors. -/
def MetaRow.part (r : MetaRow) : Option Span := do
  some ⟨← hexNumber r.partStart, ← hexNumber r.partSize⟩

/-- The range that a name has in a list of named ranges. -/
def rangeOf (name : String) (l : List (String × Option Span)) : Option Span :=
  (l.lookup name).join

namespace FactoryDump

def parts (d : FactoryDump) : List (String × Option Span) :=
  d.mtdparts.map fun p => (p.name, p.span)

def rows (d : FactoryDump) : List (String × Option Span) :=
  d.metadata.map fun r => (r.name, r.part)

/-- The files in the order of the rows. -/
def files (d : FactoryDump) : List (List (BitVec 8)) :=
  [d.packageFile, d.bootloader, d.parameter, d.uboot, d.boot, d.rootfs]

/-- An image fits in its partition. -/
def Fits (d : FactoryDump) (name : String) (image : List (BitVec 8)) : Prop :=
  ∃ e, rangeOf name d.parts = some e ∧ image.length ≤ e.size * 512

/-- The layout is consistent. -/
structure Consistent (d : FactoryDump) : Prop where
  names : d.mtdparts.map MtdPart.name = ["security", "uboot", "boot", "rootfs"]
  disjoint : ∃ l, d.mtdparts.mapM MtdPart.span = some l ∧ l.Pairwise Span.Disjoint
  uboot : d.Fits "uboot" d.uboot
  boot : d.Fits "boot" d.boot
  rootfs : d.Fits "rootfs" d.rootfs
  same : ∀ name ∈ ["uboot", "boot", "rootfs"], (rangeOf name d.parts).isSome ∧
    rangeOf name d.rows = rangeOf name d.parts
  ranges : ∃ l, d.metadata.mapM MetaRow.span = some l ∧ Laid 0x800 l ∧
    List.Forall₂ (fun (e : Span) (f : List (BitVec 8)) => f.length ≤ e.size) l d.files

end FactoryDump

/-- The lengths of the files in front of the root file system. -/
def FactoryEnv.lengths (env : FactoryEnv) (b : PartxRow) (blob : List (BitVec 8)) : List ℕ :=
  [packageFile.length, blob.length, (parameterText env (mtdparts b.sectors)).length,
    env.uboot.length, (env.boot b).length]

/-- The boot partition ends before the root file system, the images that are not cut to their
partitions fit, and the offsets of the rows are less than `2 ^ 64`. -/
structure FactoryEnv.Sized (env : FactoryEnv) (b r : PartxRow) (blob : List (BitVec 8)) : Prop where
  boot : b.sectors.toNat ≤ 0x80800
  uboot : ∀ u, env.uBootImage = some u → u.length ≤ 0x4000 * 512
  rootfs : min (512 * r.sectors.toNat) (env.rawImage.length - 512 * r.start.toNat) ≤
    0x39B4FBF * 512
  small : ∀ n ∈ env.lengths b blob, n + 0x7ff < 2 ^ 63
  offsets : 0x800 + ((env.lengths b blob).map (roundUp · 0x800)).sum < 2 ^ 64

/-! The numbers in the texts -/

section
variable {n k fuel acc : ℕ}

theorem digitVal_hexChar : ∀ d < 16, digitVal (hexChar d) = some d := by decide

theorem digitsValue_hexDigits (k acc n : ℕ) :
    digitsValue 16 acc (hexDigits k n) = some (acc * 16 ^ k + n % 16 ^ k) := by
  induction k generalizing acc with
  | zero => simp [hexDigits, digitsValue, Nat.mod_one]
  | succ k ih =>
    have hlt : n / 16 ^ k % 16 < 16 := Nat.mod_lt _ (by omega)
    rw [hexDigits, digitsValue, digitVal_hexChar _ hlt]
    dsimp only
    rw [if_pos hlt, ih, Nat.pow_succ, Nat.mod_mul]
    congr 1
    ring

theorem lt_pow_hexWidth (h : n < 16 ^ (k + fuel)) : n < 16 ^ hexWidth n fuel k := by
  induction fuel generalizing k with
  | zero => exact h
  | succ fuel ih =>
    rw [hexWidth]
    split_ifs with hk
    · exact hk
    · exact ih (by rwa [Nat.succ_add])

/-- A printed number is read again. -/
@[simp] theorem hexNumber_printf08X (v : BitVec 64) : hexNumber (printf08X v) = some v.toNat := by
  have hlt : v.toNat < 16 ^ hexWidth v.toNat 8 8 := lt_pow_hexWidth v.isLt
  have htext : printf08X v = ch '0' :: ch 'x' :: hexDigits (hexWidth v.toNat 8 8) v.toNat := rfl
  rw [htext, hexNumber, if_pos ⟨rfl, rfl⟩, digitsValue_hexDigits, Nat.zero_mul, Nat.zero_add,
    Nat.mod_eq_of_lt hlt]

end

/-! The rows -/

/-- The ranges of files of these lengths. -/
def rowSpans (a : BitVec 64) : List ℕ → List Span
  | [] => []
  | n :: l =>
    ⟨a.toNat, (alignTo0x800Blocks (BitVec.ofNat 64 n)).toNat * 0x800⟩ ::
      rowSpans (a + alignTo0x800Blocks (BitVec.ofNat 64 n) * 0x800#64) l

theorem mapM_span_metadataRows (a : BitVec 64) (fs : List PackFile) :
    (metadataRows a fs).mapM MetaRow.span = some (rowSpans a (fs.map fun f => f.bytes.length)) := by
  induction fs generalizing a with
  | nil => rfl
  | cons f fs ih =>
    rw [metadataRows, List.mapM_cons, ih]
    simp [MetaRow.span, rowSpans]

theorem toNat_sdiv_of_lt {s : BitVec 64} (h : s.toNat < 2 ^ 63) :
    (s.sdiv 0x800#64).toNat = s.toNat / 0x800 := by
  have hmsb : s.msb = false := by
    rw [BitVec.msb_eq_false_iff_two_mul_lt]
    omega
  rw [BitVec.sdiv_eq, hmsb, show (0x800#64).msb = false by decide]
  dsimp only
  rw [BitVec.udiv_eq, BitVec.toNat_udiv]
  rfl

theorem toNat_sdiv_of_ge {s : BitVec 64} (h : 2 ^ 63 ≤ s.toNat) :
    (s.sdiv 0x800#64).toNat = (2 ^ 64 - (2 ^ 64 - s.toNat) / 0x800) % 2 ^ 64 := by
  have hlt := s.isLt
  have hmsb : s.msb = true := by
    rw [BitVec.msb_eq_true_iff_two_mul_ge]
    omega
  rw [BitVec.sdiv_eq, hmsb, show (0x800#64).msb = false by decide]
  dsimp only
  rw [BitVec.udiv_eq, BitVec.toNat_neg, BitVec.toNat_udiv, BitVec.toNat_neg, Nat.mod_eq_of_lt
    (show 2 ^ 64 - s.toNat < 2 ^ 64 by omega)]
  rfl

/-- A size is rounded up to blocks as long as the sum does not turn negative. -/
theorem toNat_alignTo0x800Blocks {n : ℕ} (h : n + 0x7ff < 2 ^ 63) :
    (alignTo0x800Blocks (BitVec.ofNat 64 n)).toNat * 0x800 = roundUp n 0x800 := by
  have hs : (BitVec.ofNat 64 n + 0x7ff#64).toNat = n + 0x7ff := by
    rw [BitVec.toNat_add, BitVec.toNat_ofNat, BitVec.toNat_ofNat]
    omega
  unfold alignTo0x800Blocks
  rw [toNat_sdiv_of_lt (by omega), hs]
  rfl

/-- A range that holds its file and ends below `2 ^ 64` is that of a size that does not. -/
theorem lt_of_le_alignTo0x800Blocks {n : ℕ}
    (hle : n ≤ (alignTo0x800Blocks (BitVec.ofNat 64 n)).toNat * 0x800)
    (hlt : (alignTo0x800Blocks (BitVec.ofNat 64 n)).toNat * 0x800 < 2 ^ 64) :
    n + 0x7ff < 2 ^ 63 := by
  have hs : (BitVec.ofNat 64 n + 0x7ff#64).toNat = (n + 0x7ff) % 2 ^ 64 := by
    rw [BitVec.toNat_add, BitVec.toNat_ofNat, BitVec.toNat_ofNat]
    omega
  unfold alignTo0x800Blocks at hle hlt
  by_cases h : (BitVec.ofNat 64 n + 0x7ff#64).toNat < 2 ^ 63
  · rw [toNat_sdiv_of_lt h] at hle hlt
    omega
  · rw [toNat_sdiv_of_ge (Nat.not_lt.1 h)] at hle hlt
    omega

/-- A file and its range. -/
def Covers (l : List Span) (lens : List ℕ) : Prop :=
  List.Forall₂ (fun (e : Span) n => n ≤ e.size) l lens

theorem start_of_laid {c n : ℕ} {a : BitVec 64} {l : List ℕ}
    (h : Laid c (rowSpans a (l ++ [n]))) : c = a.toNat := by
  cases l with
  | nil => exact h.1.symm
  | cons m l => exact h.1.symm

theorem laid_covers_cons (a : BitVec 64) (n : ℕ) (l : List ℕ) :
    (Laid a.toNat (rowSpans a (n :: l)) ∧ Covers (rowSpans a (n :: l)) (n :: l)) ↔
      n ≤ (alignTo0x800Blocks (BitVec.ofNat 64 n)).toNat * 0x800 ∧
        Laid (a.toNat + (alignTo0x800Blocks (BitVec.ofNat 64 n)).toNat * 0x800)
          (rowSpans (a + alignTo0x800Blocks (BitVec.ofNat 64 n) * 0x800#64) l) ∧
        Covers (rowSpans (a + alignTo0x800Blocks (BitVec.ofNat 64 n) * 0x800#64) l) l := by
  unfold Covers
  rw [rowSpans, List.forall₂_cons]
  show ((_ = _ ∧ Laid _ _) ∧ _) ↔ _
  constructor
  · rintro ⟨⟨-, hl⟩, hn, hc⟩
    exact ⟨hn, hl, hc⟩
  · rintro ⟨hn, hl, hc⟩
    exact ⟨⟨rfl, hl⟩, hn, hc⟩

/-- The ranges follow each other and hold their files exactly if no sum on the way to the last one
wraps. -/
theorem laid_rowSpans_iff {last : ℕ} (a : BitVec 64) (l : List ℕ)
    (hlast : last + 0x7ff < 2 ^ 63) :
    (Laid a.toNat (rowSpans a (l ++ [last])) ∧ Covers (rowSpans a (l ++ [last])) (l ++ [last])) ↔
      (∀ n ∈ l, n + 0x7ff < 2 ^ 63) ∧ a.toNat + (l.map (roundUp · 0x800)).sum < 2 ^ 64 := by
  have hcover {n : ℕ} (hn : n + 0x7ff < 2 ^ 63) :
      n ≤ (alignTo0x800Blocks (BitVec.ofNat 64 n)).toNat * 0x800 := by
    rw [toNat_alignTo0x800Blocks hn]
    unfold roundUp
    omega
  induction l generalizing a with
  | nil =>
    have hlt := a.isLt
    refine iff_of_true ⟨⟨rfl, trivial⟩, .cons (hcover hlast) .nil⟩ ⟨List.forall_mem_nil _, ?_⟩
    rwa [List.map_nil, List.sum_nil, Nat.add_zero]
  | cons n l ih =>
    have hround := toNat_alignTo0x800Blocks (n := n)
    have hsmall := lt_of_le_alignTo0x800Blocks (n := n)
    have hle := hcover (n := n)
    rw [List.cons_append, laid_covers_cons, List.forall_mem_cons, List.map_cons, List.sum_cons]
    generalize alignTo0x800Blocks (BitVec.ofNat 64 n) = blocks at *
    have hnext : (a + blocks * 0x800#64).toNat = (a.toNat + blocks.toNat * 0x800) % 2 ^ 64 := by
      rw [BitVec.toNat_add, BitVec.toNat_mul, Nat.add_mod_mod]
      rfl
    constructor
    · rintro ⟨hn, hl, hc⟩
      have hstart := start_of_laid hl
      have hlt := (a + blocks * 0x800#64).isLt
      have hn := hsmall hn (by omega)
      have hblocks := hround hn
      rw [hstart] at hl
      obtain ⟨hrest, hsum⟩ := (ih _).1 ⟨hl, hc⟩
      exact ⟨⟨hn, hrest⟩, by omega⟩
    · rintro ⟨⟨hn, hrest⟩, hsum⟩
      have hblocks := hround hn
      have hstart : a.toNat + blocks.toNat * 0x800 = (a + blocks * 0x800#64).toNat := by
        rw [hnext, Nat.mod_eq_of_lt (by omega)]
      obtain ⟨hl, hc⟩ := (ih (a + blocks * 0x800#64)).2 ⟨hrest, by omega⟩
      exact ⟨hle hn, hstart ▸ hl, hc⟩

/-! The parts of a dump -/

section
variable {env : FactoryEnv} {b r : PartxRow} {blob : List (BitVec 8)} {d : FactoryDump}

theorem hexNumber_zero : hexNumber (str "0x00000000") = some 0 := by decide

theorem hexNumber_security : hexNumber (str "0x00002000") = some 0x2000 := by decide

theorem hexNumber_uboot : hexNumber (str "0x00004000") = some 0x4000 := by decide

theorem hexNumber_none : hexNumber (str "0xffffffff") = some 0xffffffff := by decide

theorem mapM_span_mtdparts (v : BitVec 64) : (mtdparts v).mapM MtdPart.span =
    some [⟨0x2000, 0x2000⟩, ⟨0x4000, 0x4000⟩, ⟨0x8800, v.toNat⟩, ⟨0x89000, 0x39B4FBF⟩] := by
  simp [mtdparts, MtdPart.span, hexNumber_security, hexNumber_uboot]

theorem parts_dump (env : FactoryEnv) (b r : PartxRow) (blob : List (BitVec 8)) :
    (env.dump b r blob).parts = [("security", some ⟨0x2000, 0x2000⟩),
      ("uboot", some ⟨0x4000, 0x4000⟩), ("boot", some ⟨0x8800, b.sectors.toNat⟩),
      ("rootfs", some ⟨0x89000, 0x39B4FBF⟩)] := by
  simp [FactoryDump.parts, FactoryEnv.dump, mtdparts, MtdPart.span, hexNumber_security,
    hexNumber_uboot]

theorem rows_dump (env : FactoryEnv) (b r : PartxRow) (blob : List (BitVec 8)) :
    (env.dump b r blob).rows = [("package-file", some ⟨0xffffffff, 0⟩),
      ("bootloader", some ⟨0xffffffff, 0⟩), ("parameter", some ⟨0, 0x2000⟩),
      ("uboot", some ⟨0x4000, 0x4000⟩), ("boot", some ⟨0x8800, b.sectors.toNat⟩),
      ("rootfs", some ⟨0x89000, 0x39B4FBF⟩)] := by
  simp [FactoryDump.rows, FactoryEnv.dump, metadataRows, packFiles, MetaRow.part, hexNumber_zero,
    hexNumber_none]

/-- Only the boot partition may reach into another one. -/
theorem pairwise_disjoint_iff (n : ℕ) :
    [(⟨0x2000, 0x2000⟩ : Span), ⟨0x4000, 0x4000⟩, ⟨0x8800, n⟩, ⟨0x89000, 0x39B4FBF⟩].Pairwise
      Span.Disjoint ↔ n ≤ 0x80800 := by
  simp [Span.Disjoint, Span.stop]
  omega

theorem length_dd (raw : List (BitVec 8)) (skip count : ℕ) :
    (dd raw skip count).length = min (512 * count) (raw.length - 512 * skip) := by
  rw [dd, List.length_take, List.length_drop]

theorem length_boot_le (env : FactoryEnv) (b : PartxRow) :
    (env.boot b).length ≤ b.sectors.toNat * 512 := by
  have h := length_dd env.rawImage b.start.toNat b.sectors.toNat
  have hle : (dd env.rawImage b.start.toNat b.sectors.toNat).length ≤ b.sectors.toNat * 512 := by
    omega
  unfold FactoryEnv.boot
  cases env.mkfs with
  | none => exact hle
  | some mkfs =>
    dsimp only
    rwa [patchBootImage, List.length_map, List.length_range]

/-- A u-boot image that is cut out of the raw image fits. -/
theorem length_uboot_le_iff (env : FactoryEnv) : env.uboot.length ≤ 0x4000 * 512 ↔
    ∀ u, env.uBootImage = some u → u.length ≤ 0x4000 * 512 := by
  unfold FactoryEnv.uboot
  cases env.uBootImage with
  | none =>
    have h := length_dd env.rawImage 16384 16384
    exact iff_of_true (by dsimp only; omega) fun u hu => by cases hu
  | some v =>
    constructor
    · rintro h u ⟨⟩
      exact h
    · exact fun h => h v rfl

/-- An image fits in the partition that the line has for it. -/
theorem fits_iff {name : String} {image : List (BitVec 8)} {e : Span}
    (he : rangeOf name d.parts = some e) : d.Fits name image ↔ image.length ≤ e.size * 512 := by
  unfold FactoryDump.Fits
  rw [he]
  simp

theorem rangeOf_uboot : rangeOf "uboot" (env.dump b r blob).parts = some ⟨0x4000, 0x4000⟩ := by
  rw [parts_dump]
  rfl

theorem rangeOf_boot :
    rangeOf "boot" (env.dump b r blob).parts = some ⟨0x8800, b.sectors.toNat⟩ := by
  rw [parts_dump]
  rfl

theorem rangeOf_rootfs :
    rangeOf "rootfs" (env.dump b r blob).parts = some ⟨0x89000, 0x39B4FBF⟩ := by
  rw [parts_dump]
  rfl

/-- The two texts agree about the partitions. -/
theorem rangeOf_rows (env : FactoryEnv) (b r : PartxRow) (blob : List (BitVec 8)) :
    ∀ name ∈ ["uboot", "boot", "rootfs"], (rangeOf name (env.dump b r blob).parts).isSome ∧
      rangeOf name (env.dump b r blob).rows = rangeOf name (env.dump b r blob).parts := by
  rw [parts_dump, rows_dump, List.forall_mem_cons, List.forall_mem_cons, List.forall_mem_singleton]
  exact ⟨⟨rfl, rfl⟩, ⟨rfl, rfl⟩, rfl, rfl⟩

/-- The rows are laid out as they should be, for a root file system that fits. -/
theorem ranges_iff (h : (env.rootfs r).length ≤ 0x39B4FBF * 512) :
    (∃ l, (env.dump b r blob).metadata.mapM MetaRow.span = some l ∧ Laid 0x800 l ∧
      List.Forall₂ (fun (e : Span) (f : List (BitVec 8)) => f.length ≤ e.size) l
        (env.dump b r blob).files) ↔
    (∀ n ∈ env.lengths b blob, n + 0x7ff < 2 ^ 63) ∧
      0x800 + ((env.lengths b blob).map (roundUp · 0x800)).sum < 2 ^ 64 := by
  have hlens : (env.dump b r blob).files.map List.length =
      env.lengths b blob ++ [(env.rootfs r).length] := rfl
  have hrows : (env.dump b r blob).metadata.mapM MetaRow.span =
      some (rowSpans 0x800 (env.lengths b blob ++ [(env.rootfs r).length])) :=
    mapM_span_metadataRows 0x800 _
  have hcovers (l : List Span) :
      List.Forall₂ (fun (e : Span) (f : List (BitVec 8)) => f.length ≤ e.size) l
        (env.dump b r blob).files ↔ Covers l (env.lengths b blob ++ [(env.rootfs r).length]) := by
    unfold Covers
    rw [← hlens, List.forall₂_map_right_iff]
  have hlaid := laid_rowSpans_iff 0x800 (env.lengths b blob)
    (show (env.rootfs r).length + 0x7ff < 2 ^ 63 by omega)
  have hstart : BitVec.toNat (0x800 : BitVec 64) = 0x800 := rfl
  rw [hstart] at hlaid
  rw [← hlaid, hrows]
  simp only [Option.some.injEq, exists_eq_left', hcovers]

/-- A dump is consistent exactly if the sizes are within their bounds. -/
theorem dump_consistent_iff (env : FactoryEnv) (b r : PartxRow) (blob : List (BitVec 8)) :
    (env.dump b r blob).Consistent ↔ env.Sized b r blob := by
  have hroot : (env.rootfs r).length =
      min (512 * r.sectors.toNat) (env.rawImage.length - 512 * r.start.toNat) :=
    length_dd ..
  have huboot := length_uboot_le_iff env
  constructor
  · intro h
    obtain ⟨l, hl, hdisj⟩ := h.disjoint
    have hparts := mapM_span_mtdparts b.sectors
    cases hl.symm.trans hparts
    have hrootfs := (fits_iff rangeOf_rootfs).1 h.rootfs
    obtain ⟨hsmall, hoffsets⟩ := (ranges_iff hrootfs).1 h.ranges
    exact ⟨(pairwise_disjoint_iff _).1 hdisj, huboot.1 ((fits_iff rangeOf_uboot).1 h.uboot),
      hroot ▸ hrootfs, hsmall, hoffsets⟩
  · intro h
    have hrootfs : (env.rootfs r).length ≤ 0x39B4FBF * 512 := hroot ▸ h.rootfs
    exact ⟨rfl, ⟨_, mapM_span_mtdparts b.sectors, (pairwise_disjoint_iff _).2 h.boot⟩,
      (fits_iff rangeOf_uboot).2 (huboot.2 h.uboot),
      (fits_iff rangeOf_boot).2 (length_boot_le env b), (fits_iff rangeOf_rootfs).2 hrootfs,
      rangeOf_rows env b r blob, (ranges_iff hrootfs).2 ⟨h.small, h.offsets⟩⟩

end

/-- When `extract_partition_images` succeeds, the layout that it has written is consistent exactly if
the boot partition ends before the root file system, the images fit and no offset wraps. -/
theorem extractPartitionImages_consistent_iff (env : FactoryEnv) (d : FactoryDump)
    (h : extractPartitionImages env = some d) : d.Consistent ↔
      ∀ b r blob, env.partition "bootfs" = some b → env.partition "rootfs" = some r →
        env.bootloaderBlob = some blob → env.Sized b r blob := by
  unfold extractPartitionImages at h
  cases hb : env.partition "bootfs" with
  | none => simp [hb] at h
  | some b =>
    cases hr : env.partition "rootfs" with
    | none => simp [hb, hr] at h
    | some r =>
      cases hblob : env.bootloaderBlob with
      | none => simp [hb, hr, hblob] at h
      | some blob =>
        have hd : env.succeeds = true ∧ env.dump b r blob = d := by
          simpa [hb, hr, hblob] using h
        rw [← hd.2, dump_consistent_iff]
        constructor
        · rintro hs b' r' blob' ⟨⟩ ⟨⟩ ⟨⟩
          exact hs
        · exact fun hs => hs b r blob rfl rfl rfl

/-- The bounds hold for partitions and texts that are small, where no u-boot file is given. -/
theorem FactoryEnv.Sized.of_small {env : FactoryEnv} {b r : PartxRow} {blob : List (BitVec 8)}
    (hfile : env.uBootImage = none) (hb : b.sectors.toNat ≤ 0x80800)
    (hr : r.sectors.toNat ≤ 0x39B4FBF) (hblob : blob.length < 2 ^ 32)
    (htext : (parameterText env (mtdparts b.sectors)).length < 2 ^ 32) : env.Sized b r blob := by
  have hpackage : packageFile.length = 157 := by decide +kernel
  have huboot : ∀ u, env.uBootImage = some u → u.length ≤ 0x4000 * 512 := fun u hu => by
    rw [hfile] at hu
    cases hu
  have hcut := (length_uboot_le_iff env).2 huboot
  have hboot := length_boot_le env b
  have hsmall : ∀ n ∈ env.lengths b blob, n < 2 ^ 33 := by
    simp only [FactoryEnv.lengths, List.forall_mem_cons]
    exact ⟨by omega, by omega, by omega, by omega, by omega, fun _ h => by cases h⟩
  have hsum := List.sum_le_card_nsmul ((env.lengths b blob).map (roundUp · 0x800)) (2 ^ 34) (by
    intro m hm
    obtain ⟨n, hn, rfl⟩ := List.mem_map.1 hm
    have := hsmall n hn
    simp only [roundUp]
    omega)
  rw [List.length_map, show (env.lengths b blob).length = 5 from rfl, smul_eq_mul] at hsum
  refine ⟨hb, huboot, by omega, fun n hn => ?_, by omega⟩
  have := hsmall n hn
  omega

/-- A raw image with its two partitions and a loader of one octet. -/
def FactoryEnv.sample (rawSectors : ℕ) (bootSectors rootfsStart : BitVec 64) : FactoryEnv where
  rawImage := List.replicate (512 * rawSectors) 0
  partx := [⟨0x8000, bootSectors, "bootfs"⟩, ⟨rootfsStart, 0x100, "rootfs"⟩]
  uBootImage := none
  bootloaderBlob := some [0]
  mkfs := none
  machineModel := str "LinknLink-iSG-Box-SE"
  machineId := str "ISGSE"
  manufacturer := str "LinknLink"
  succeeds := true

/-- A boot partition of 256 MiB. -/
theorem sample_consistent :
    ∃ d, extractPartitionImages (.sample 0x88100 0x80000 0x88000) = some d ∧ d.Consistent := by
  let env := FactoryEnv.sample 0x88100 0x80000 0x88000
  refine ⟨_, rfl, (extractPartitionImages_consistent_iff env _ rfl).2 ?_⟩
  rintro b r blob ⟨⟩ ⟨⟩ ⟨⟩
  exact FactoryEnv.Sized.of_small rfl (by decide) (by decide) (by decide) (by decide +kernel)

/-- A boot partition of one sector more than the settings leave room for. -/
theorem wideBoot_not_consistent :
    ¬ ∀ d, extractPartitionImages (.sample 0x88901 0x80801 0x88801) = some d → d.Consistent := by
  intro h
  have hs := (dump_consistent_iff _ _ _ _).1 (h _ rfl)
  exact absurd hs.boot (by decide)

end Skw
