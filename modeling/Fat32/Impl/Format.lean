import Mathlib
import Fat32.Lib.Bytes

/-!
# The on-disk format (`fat32.h`)

Constants, the little-endian accessors and the 32-byte directory slot, read
through the two structures that overlay it: the 8.3 entry and the long name
entry. Buffers are functions from offsets to bytes.
-/

namespace Fat32

open Bytes

/-! ## Cluster values -/

abbrev clusterFree : Nat := 0x00000000
abbrev clusterMin : Nat := 0x00000002
abbrev clusterBad : Nat := 0x0FFFFFF7
abbrev clusterEocMin : Nat := 0x0FFFFFF8
abbrev clusterEoc : Nat := 0x0FFFFFFF
abbrev clusterMask : Nat := 0x0FFFFFFF

/-! ## Attributes -/

abbrev attrReadOnly : UInt8 := 0x01
abbrev attrVolumeId : UInt8 := 0x08
abbrev attrDirectory : UInt8 := 0x10
abbrev attrLongName : UInt8 := 0x0F

/-! ## Long names -/

abbrev lfnLast : UInt8 := 0x40
abbrev lfnDeleted : UInt8 := 0xE5
abbrev lfnSeqMask : UInt8 := 0x1F
abbrev lfnFill : Nat := 0xFFFF
abbrev maxName : Nat := 255

/-- `FAT32_DENTRY_SIZE`. -/
abbrev dentrySize : Nat := 32

/-- The value of a `uint16_t` and of a `uint32_t` after an assignment. -/
def u16 (n : Nat) : Nat := n % 0x10000
def u32 (n : Nat) : Nat := n % 0x100000000

/-! ## Little-endian words -/

def rle16 (data : Nat → UInt8) (o : Nat) : Nat := le16 (data o) (data (o + 1))

def rle32 (data : Nat → UInt8) (o : Nat) : Nat :=
  le32 (data o) (data (o + 1)) (data (o + 2)) (data (o + 3))

def wle16 (val : Nat) (data : Nat → UInt8) (o : Nat) : Nat → UInt8 := poke data o 2 (byteOf val)

def wle32 (val : Nat) (data : Nat → UInt8) (o : Nat) : Nat → UInt8 := poke data o 4 (byteOf val)

/-! ## Directory slots -/

/-- The 32 bytes of a directory slot. -/
abbrev Slot := Fin 32 → UInt8

/-- The cast of `data + o` to a directory entry. -/
def slotAt (data : Nat → UInt8) (o : Nat) : Slot := fun i => data (o + i)

/-- `bcopy` of a directory entry to `data + o`. -/
def putSlot (data : Nat → UInt8) (o : Nat) (s : Slot) : Nat → UInt8 := fun i =>
  if h : o ≤ i ∧ i < o + 32 then s ⟨i - o, by omega⟩ else data i

namespace Slot

/-- `name[0]`, which is also the `sequence` of a long name entry. -/
def first (s : Slot) : UInt8 := s 0

/-! ### `fat32_dirent83_t` -/

def name (s : Slot) : Fin 11 → UInt8 := fun i => s (i.castLE (by decide))
def attr (s : Slot) : UInt8 := s 11
def createTimeTenth (s : Slot) : UInt8 := s 13
def createTime (s : Slot) : Nat := le16 (s 14) (s 15)
def createDate (s : Slot) : Nat := le16 (s 16) (s 17)
def lastAccessDate (s : Slot) : Nat := le16 (s 18) (s 19)
def firstClusterHi (s : Slot) : Nat := le16 (s 20) (s 21)
def writeTime (s : Slot) : Nat := le16 (s 22) (s 23)
def writeDate (s : Slot) : Nat := le16 (s 24) (s 25)
def firstClusterLo (s : Slot) : Nat := le16 (s 26) (s 27)
def fileSize (s : Slot) : Nat := le32 (s 28) (s 29) (s 30) (s 31)

/-- `RLE16(first_cluster_lo) | (RLE16(first_cluster_hi) << 16)`. -/
def firstCluster (s : Slot) : Nat := s.firstClusterLo + 0x10000 * s.firstClusterHi

/-! ### `fat32_dirent_lfn_t` -/

def sequence (s : Slot) : UInt8 := s 0
def checksum (s : Slot) : UInt8 := s 13

/-- Where the 13 UCS-2 units of `name1`, `name2` and `name3` start. -/
def unitOffset : Fin 13 → Fin 32 := ![1, 3, 5, 7, 9, 14, 16, 18, 20, 22, 24, 28, 30]

/-- The `j`-th UCS-2 unit of a long name entry. -/
def lfnUnit (s : Slot) (j : Fin 13) : Nat := le16 (s (unitOffset j)) (s (unitOffset j + 1))

/-- The sequence number of a long name entry. -/
def seqNum (s : Slot) : Nat := (s.sequence &&& lfnSeqMask).toNat

end Slot

/-- A `fat32_dirent83_t` under construction; the defaults are what `bzero` leaves. -/
structure Dirent83 where
  name : Fin 11 → UInt8
  attr : UInt8 := 0
  ntReserved : UInt8 := 0
  createTimeTenth : UInt8 := 0
  createTime : Nat := 0
  createDate : Nat := 0
  lastAccessDate : Nat := 0
  firstClusterHi : Nat := 0
  writeTime : Nat := 0
  writeDate : Nat := 0
  firstClusterLo : Nat := 0
  fileSize : Nat := 0

/-- The bytes of an 8.3 entry. -/
def Dirent83.toSlot (d : Dirent83) : Slot := fun i =>
  if h : i.val < 11 then d.name ⟨i, h⟩
  else ![d.attr, d.ntReserved, d.createTimeTenth, byteOf d.createTime 0, byteOf d.createTime 1,
    byteOf d.createDate 0, byteOf d.createDate 1, byteOf d.lastAccessDate 0,
    byteOf d.lastAccessDate 1, byteOf d.firstClusterHi 0, byteOf d.firstClusterHi 1,
    byteOf d.writeTime 0, byteOf d.writeTime 1, byteOf d.writeDate 0, byteOf d.writeDate 1,
    byteOf d.firstClusterLo 0, byteOf d.firstClusterLo 1, byteOf d.fileSize 0,
    byteOf d.fileSize 1, byteOf d.fileSize 2, byteOf d.fileSize 3] ⟨i - 11, by omega⟩

/-- The bytes of a long name entry with sequence byte `seq`, checksum `sum`
and UCS-2 units `unit`, each a byte pair. -/
def lfnSlot (seq sum : UInt8) (unit : Nat → UInt8 × UInt8) : Slot :=
  ![seq, (unit 0).1, (unit 0).2, (unit 1).1, (unit 1).2, (unit 2).1, (unit 2).2,
    (unit 3).1, (unit 3).2, (unit 4).1, (unit 4).2, attrLongName, 0, sum,
    (unit 5).1, (unit 5).2, (unit 6).1, (unit 6).2, (unit 7).1, (unit 7).2,
    (unit 8).1, (unit 8).2, (unit 9).1, (unit 9).2, (unit 10).1, (unit 10).2, 0, 0,
    (unit 11).1, (unit 11).2, (unit 12).1, (unit 12).2]

end Fat32
