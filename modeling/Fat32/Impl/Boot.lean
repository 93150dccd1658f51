import Mathlib
import Fat32.Impl.Cls

/-!
# The boot sector (`fat32_read_boot` in `fat32_vfs.c`)

`BootInfo` is `Fsi` with the fields that only the mount uses. Sector 0 is either
the boot sector itself or a master boot record, whose partition table says where
the boot sector is.
-/

namespace Fat32

open Bytes Exec Prog

def log2Loop : Nat → Nat → Nat → Nat
  | 0, _, bit => bit
  | fuel + 1, n, bit => if n > 1 then log2Loop fuel (n >>> 1) (bit + 1) else bit

/-- `fat32_log2`: the loop of a `uint32_t` ends after 32 rounds. -/
def log2 (n : Nat) : Nat := log2Loop 32 n 0

structure BootInfo extends Fsi where
  partitionOffset : Nat
  bytesPerSector : Nat
  reservedSectors : Nat
  totalSectors : Nat

/-- `FAT32_SECTOR_SIGNATURE`. -/
abbrev sectorSignature : Nat := 0xAA55

/-! ## `fat32_br_t` -/

namespace Br

def bytesPerSector (br : Nat → UInt8) : Nat := rle16 br 11
def sectorsPerCluster (br : Nat → UInt8) : Nat := (br 13).toNat
def reservedSectors (br : Nat → UInt8) : Nat := rle16 br 14
def numFats (br : Nat → UInt8) : Nat := (br 16).toNat
def totalSectors (br : Nat → UInt8) : Nat := rle32 br 32
def fatSize (br : Nat → UInt8) : Nat := rle32 br 36
def rootCluster (br : Nat → UInt8) : Nat := rle32 br 44
def fsInfo (br : Nat → UInt8) : Nat := rle16 br 48
def signature (br : Nat → UInt8) : Nat := rle16 br 510

/-- `fs_type` starts with `FAT3`. -/
def isFat32 (br : Nat → UInt8) : Bool := br 82 = 70 ∧ br 83 = 65 ∧ br 84 = 84 ∧ br 85 = 51

end Br

/-! ## `fat32_mbr_t` -/

namespace Mbr

/-- The `system_id` of partition `i` is one of FAT32. -/
def isFat32 (mbr : Nat → UInt8) (i : Nat) : Bool :=
  mbr (446 + 16 * i + 4) = 0x0C ∨ mbr (446 + 16 * i + 4) = 0x0B

def relativeSector (mbr : Nat → UInt8) (i : Nat) : Nat := rle32 mbr (446 + 16 * i + 8)

/-- `part_to_use`: the partition asked for, else the first one of FAT32. -/
def partToUse (partitionNum : Int) (mbr : Nat → UInt8) : Option Nat :=
  if partitionNum ≥ 0 ∧ partitionNum < 4 then some partitionNum.toNat
  else (List.range 4).find? (isFat32 mbr)

end Mbr

/-! ## The mount -/

/-- The part of `fat32_read_boot` that finds the boot sector: the buffer, and
`fsi_partition_offset`. -/
def bootSector (fsi : Fsi) (partitionNum : Int) : FsM (Buf × Nat) := do
  let bp ← bread fsi 0 1
  if rle16 bp.data 510 ≠ sectorSignature then fail .einval
  else if Br.isFat32 bp.data then pure (bp, 0)
  else match Mbr.partToUse partitionNum bp.data with
    | none => fail .einval
    | some i =>
      if ¬ Mbr.isFat32 bp.data i then fail .einval else do
        let boot ← bread fsi (Mbr.relativeSector bp.data i) 1
        pure (boot, Mbr.relativeSector bp.data i)

/-- What `fat32_read_boot` computes from the boot sector. -/
def bootInfo (fsi : Fsi) (br : Nat → UInt8) (partitionOffset : Nat) : BootInfo :=
  let bytesPerCluster := u32 (Br.bytesPerSector br * Br.sectorsPerCluster br)
  let dataStart := u32 (Br.reservedSectors br + u32 (Br.numFats br * Br.fatSize br))
  { kernel := fsi.kernel
    vfsRdonly := fsi.vfsRdonly
    uid := fsi.uid
    gid := fsi.gid
    partitionOffset := partitionOffset
    bytesPerSector := Br.bytesPerSector br
    sectorsPerCluster := Br.sectorsPerCluster br
    reservedSectors := Br.reservedSectors br
    numFats := Br.numFats br
    fatSize := Br.fatSize br
    rootCluster := Br.rootCluster br
    totalSectors := Br.totalSectors br
    bytesPerCluster := bytesPerCluster
    sectorShift := log2 (Br.bytesPerSector br)
    sectorMask := sub32 (Br.bytesPerSector br) 1
    clusterShift := log2 bytesPerCluster
    clusterMask := sub32 bytesPerCluster 1
    spcShift := log2 (Br.sectorsPerCluster br)
    clusterCount := sub32 (Br.totalSectors br) dataStart / Br.sectorsPerCluster br
    fsinfoSector := u32 (partitionOffset + Br.fsInfo br)
    fatStart := u32 (partitionOffset + Br.reservedSectors br)
    dataStart := u32 (dataStart + partitionOffset) }

/-- The three signatures of `fat32_fsinfo_t`. -/
def fsinfoValid (data : Nat → UInt8) : Bool :=
  rle32 data 0 = 0x41615252 ∧ rle32 data 484 = 0x61417272 ∧ rle32 data 508 = 0xAA550000

/-- The counters of the FSInfo sector, which is optional. -/
def readFsinfo (fsi : Fsi) : FsM Unit := do
  match ← attempt (bread fsi fsi.fsinfoSector 1) with
  | .error _ => modify fun v => { v with freeCount := 0xFFFFFFFF, nextFree := 0xFFFFFFFF }
  | .ok bp =>
    if ¬ fsinfoValid bp.data then
      modify fun v => { v with freeCount := 0xFFFFFFFF, nextFree := 0xFFFFFFFF }
    else
      modify fun v => { v with
        freeCount := rle32 bp.data fsinfoFreeCount, nextFree := rle32 bp.data fsinfoNextFree }

/-- `fat32_read_boot`, for the mount options in `fsi`; the division by
`sectors_per_cluster` traps when it is 0. -/
def readBoot (fsi : Fsi) (partitionNum : Int) : FsM BootInfo := do
  let boot ← bootSector fsi partitionNum
  if Br.signature boot.1.data ≠ sectorSignature then fail .einval
  else if Br.sectorsPerCluster boot.1.data = 0 then hang
  else do
    readFsinfo (bootInfo fsi boot.1.data boot.2).toFsi
    pure (bootInfo fsi boot.1.data boot.2)

end Fat32
