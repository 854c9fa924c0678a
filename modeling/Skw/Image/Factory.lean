import Skw.Kernel.Str
import Skw.Kernel.Types
import Skw.Lib.Layout

/-! The source dump of a factory image, as `extract_partition_images` makes it from a raw image: the
images of the partitions, the partitions as `parameter.txt` has them, and the rows of
`partition-metadata.txt`. The arithmetic of the shell wraps at 64 bits. -/
namespace Skw

/-! `printf '0x%08X'` -/

def hexChar (d : ℕ) : BitVec 8 := (str "0123456789ABCDEF").getD d 0

/-- The last `k` digits of a number. -/
def hexDigits : ℕ → ℕ → Str
  | 0, _ => []
  | k + 1, n => hexChar (n / 16 ^ k % 16) :: hexDigits k n

/-- The least width from `k` to `k + fuel` that a number fits in. -/
def hexWidth (n : ℕ) : ℕ → ℕ → ℕ
  | 0, k => k
  | fuel + 1, k => if n < 16 ^ k then k else hexWidth n fuel (k + 1)

def printf08X (v : BitVec 64) : Str := str "0x" ++ hexDigits (hexWidth v.toNat 8 8) v.toNat

/-- The number that a text of this form stands for. -/
def hexNumber : Str → Option ℕ
  | z :: x :: t => if z = ch '0' ∧ x = ch 'x' then digitsValue 16 0 t else none
  | _ => none

/-! The settings by default -/

abbrev FACTORY_BOOT_START_SECTORS : BitVec 64 := 0x8800
abbrev FACTORY_ROOTFS_START_SECTORS : BitVec 64 := 0x89000
abbrev FACTORY_ROOTFS_PARAMETER_SECTORS : BitVec 64 := 0x39B4FBF

/-- A row of `partx`, without what is not looked at. -/
structure PartxRow where
  start : BitVec 64
  sectors : BitVec 64
  name : String

/-- What a run without a source dump finds: the raw image with its partitions, the files that
`resolve_u_boot_image` and `resolve_bootloader_blob` find, what `mkfs.ext4` writes into an image where
`resolve_boot_dtb_path` finds a file, the settings in the text, and whether all commands succeed. -/
structure FactoryEnv where
  rawImage : List (BitVec 8)
  partx : List PartxRow
  uBootImage : Option (List (BitVec 8))
  bootloaderBlob : Option (List (BitVec 8))
  mkfs : Option (List (BitVec 8) → ℕ → BitVec 8)
  machineModel : Str
  machineId : Str
  manufacturer : Str
  succeeds : Bool

/-- A partition of the mtdparts line. -/
structure MtdPart where
  size : Str
  start : Str
  name : String
  flags : String

/-- A row of `partition-metadata.txt`. -/
structure MetaRow where
  name : String
  path : String
  partSize : Str
  partStart : Str
  offset : Str
  blocks : Str
  size : Str

/-- A file with the columns in front of its place. -/
structure PackFile where
  name : String
  path : String
  partSize : Str
  partStart : Str
  bytes : List (BitVec 8)

/-- What is written, but for `image.cfg`, with what the two texts are made of. -/
structure FactoryDump where
  packageFile : List (BitVec 8)
  bootloader : List (BitVec 8)
  parameter : List (BitVec 8)
  uboot : List (BitVec 8)
  boot : List (BitVec 8)
  rootfs : List (BitVec 8)
  partitionMetadata : Str
  mtdparts : List MtdPart
  metadata : List MetaRow

def MtdPart.text (p : MtdPart) : Str :=
  p.size ++ str "@" ++ p.start ++ str "(" ++ str p.name ++ str p.flags ++ str ")"

def MetaRow.text (r : MetaRow) : Str :=
  (str ",").intercalate [str r.name, str r.path, r.partSize, r.partStart, r.offset, r.blocks, r.size] ++
    str "\n"

/-- `dd` with blocks of 512 octets -/
def dd (raw : List (BitVec 8)) (skip count : ℕ) : List (BitVec 8) :=
  (raw.drop (512 * skip)).take (512 * count)

/-- `patch_boot_image`: the image is rebuilt in its size. -/
def patchBootImage (mkfs : List (BitVec 8) → ℕ → BitVec 8) (boot : List (BitVec 8)) :
    List (BitVec 8) :=
  (List.range boot.length).map (mkfs boot)

namespace FactoryEnv

/-- The last row of a name. -/
def partition (env : FactoryEnv) (name : String) : Option PartxRow :=
  env.partx.foldl (fun p r => if r.name = name then some r else p) none

def uboot (env : FactoryEnv) : List (BitVec 8) :=
  match env.uBootImage with
  | some u => u
  | none => dd env.rawImage 16384 16384

def boot (env : FactoryEnv) (b : PartxRow) : List (BitVec 8) :=
  let boot := dd env.rawImage b.start.toNat b.sectors.toNat
  match env.mkfs with
  | some mkfs => patchBootImage mkfs boot
  | none => boot

def rootfs (env : FactoryEnv) (r : PartxRow) : List (BitVec 8) :=
  dd env.rawImage r.start.toNat r.sectors.toNat

end FactoryEnv

def packageFile : Str :=
  str "package-file\tpackage-file\nbootloader\tImage/MiniLoaderAll.bin\n" ++
    str "parameter\tImage/parameter.txt\nuboot\tImage/uboot.img\nboot\tImage/boot.img\n" ++
    str "rootfs Image/rootfs.img\n"

def mtdparts (bootSectors : BitVec 64) : List MtdPart :=
  [⟨str "0x00002000", str "0x00002000", "security", ""⟩,
    ⟨str "0x00004000", str "0x00004000", "uboot", ""⟩,
    ⟨printf08X bootSectors, printf08X FACTORY_BOOT_START_SECTORS, "boot", ":bootable"⟩,
    ⟨printf08X FACTORY_ROOTFS_PARAMETER_SECTORS, printf08X FACTORY_ROOTFS_START_SECTORS, "rootfs",
      ":grow"⟩]

/-- `Image/parameter.txt` -/
def parameterText (env : FactoryEnv) (parts : List MtdPart) : Str :=
  str "FIRMWARE_VER: 12.0\nMACHINE_MODEL: " ++ env.machineModel ++ str "\nMACHINE_ID: " ++
    env.machineId ++ str "\nMANUFACTURER: " ++ env.manufacturer ++
    str "\nMAGIC: 0x5041524B\nATAG: 0x00200800\nMACHINE: rockchip012\nCHECK_MASK: 0x80\n" ++
    str "PWR_HLD: 0,0,A,0,1\nTYPE: GPT\nCMDLINE:mtdparts=rk29xxnand:" ++
    (str ",").intercalate (parts.map MtdPart.text) ++ str "\n"

/-- `align_to_0x800_blocks` -/
def alignTo0x800Blocks (size : BitVec 64) : BitVec 64 := (size + 0x7ff#64).sdiv 0x800#64

/-- The rows of `write_partition_metadata` from an offset on. -/
def metadataRows (partOffset : BitVec 64) : List PackFile → List MetaRow
  | [] => []
  | f :: fs =>
    let size := BitVec.ofNat 64 f.bytes.length
    let paddedBlocks := alignTo0x800Blocks size
    ⟨f.name, f.path, f.partSize, f.partStart, printf08X partOffset, printf08X paddedBlocks,
      printf08X size⟩ :: metadataRows (partOffset + paddedBlocks * 0x800#64) fs

def packFiles (bootSectors : BitVec 64) (blob parameter uboot boot rootfs : List (BitVec 8)) :
    List PackFile :=
  [⟨"package-file", "package-file", str "0x00000000", str "0xffffffff", packageFile⟩,
    ⟨"bootloader", "Image/MiniLoaderAll.bin", str "0x00000000", str "0xffffffff", blob⟩,
    ⟨"parameter", "Image/parameter.txt", printf08X 0x2000, printf08X 0, parameter⟩,
    ⟨"uboot", "Image/uboot.img", printf08X 0x4000, printf08X 0x4000, uboot⟩,
    ⟨"boot", "Image/boot.img", printf08X bootSectors, printf08X FACTORY_BOOT_START_SECTORS, boot⟩,
    ⟨"rootfs", "Image/rootfs.img", printf08X FACTORY_ROOTFS_PARAMETER_SECTORS,
      printf08X FACTORY_ROOTFS_START_SECTORS, rootfs⟩]

/-- What is written for these partitions and this loader -/
def FactoryEnv.dump (env : FactoryEnv) (b r : PartxRow) (blob : List (BitVec 8)) : FactoryDump :=
  let parts := mtdparts b.sectors
  let parameter := parameterText env parts
  let metadata := metadataRows 0x800
    (packFiles b.sectors blob parameter env.uboot (env.boot b) (env.rootfs r))
  { packageFile := packageFile
    bootloader := blob
    parameter := parameter
    uboot := env.uboot
    boot := env.boot b
    rootfs := env.rootfs r
    partitionMetadata := metadata.flatMap MetaRow.text
    mtdparts := parts
    metadata := metadata }

/-- `extract_partition_images` without `FACTORY_SOURCE_DUMP_DIR` -/
def extractPartitionImages (env : FactoryEnv) : Option FactoryDump := do
  let b ← env.partition "bootfs"
  let r ← env.partition "rootfs"
  let blob ← env.bootloaderBlob
  if env.succeeds then some (env.dump b r blob) else none

end Skw
