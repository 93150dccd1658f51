import Mathlib
import Fat32.Lib.Exec
import Fat32.Impl.Format

/-!
# The mounted volume and the block layer (`fat32fs.h`)

`Fsi` is `fat32fs_info_t`: what `fat32_read_boot` sets once, and what the driver
sees of the kernel around it (`Kernel`). The two counters that change while the
volume is mounted, `fsi_free_count` and `fsi_next_free`, are in the state `Vol`
with the bytes of the disk.

The disk is seen through the block cache: `bread` gives the bytes of a range of
512-byte blocks, `bdwrite` stores them. Locks are taken as granted. A `bread`
whose buffer carries `B_ERROR` ends with the error code that all its callers
compute from it, `b_error ? b_error : eio`.
-/

namespace Fat32

open Bytes Exec Prog

inductive Errno where
  | eio | eacces | ebusy | eexist | efault | einval | eisdir | enoent | enomem | enospc
  | enotblk | enotdir | enotempty | erofs | enosys
  /-- Any other code a device or `uiomove` reports. -/
  | other (code : Nat)
  deriving DecidableEq, Repr

/-- `timespec_t`, with a 64-bit `tv_sec`. -/
structure Timespec where
  sec : Int := 0
  nsec : Nat := 0
  deriving DecidableEq, Repr

/-- The kernel around the driver. What it answers may depend on how often it was
asked before. -/
structure Kernel where
  /-- The error of the `n`-th `bread`, if it fails. -/
  readErr : Nat → Option Errno := fun _ => none
  /-- The error of the `n`-th `uiomove`, if it faults. -/
  uiomoveErr : Nat → Option Errno := fun _ => none
  /-- The `n`-th time read by `nanotime`. -/
  nanotime : Nat → Timespec := fun _ => {}
  /-- Whether the `n`-th `vn_alloc` returns a vnode. -/
  vnAlloc : Nat → Bool := fun _ => true
  /-- What an uninitialised buffer on the stack holds. -/
  stack : Nat → UInt8 := fun _ => 0
  /-- What an uninitialised `int error` on the stack holds. -/
  stackErr : Option Errno := none
  /-- `DIRENTBASESIZE` and `DIRENTSIZE`, or those of IRIX5, as the ABI of the caller
  has them. -/
  direntBase : Nat := 18
  direntSize : Nat → Nat := fun n => (18 + n + 1 + 7) / 8 * 8
  /-- How long a loop without a bound of its own is followed. -/
  fuel : Nat := 1000

/-- `fat32fs_info_t`, less the counters that change. -/
structure Fsi where
  kernel : Kernel := {}
  /-- `fsi_vfsp->vfs_flag & VFS_RDONLY`. -/
  vfsRdonly : Bool := false
  uid : Nat := 0
  gid : Nat := 0
  fsinfoSector : Nat
  fatStart : Nat
  sectorsPerCluster : Nat
  bytesPerCluster : Nat
  sectorShift : Nat
  sectorMask : Nat
  clusterShift : Nat
  clusterMask : Nat
  spcShift : Nat
  numFats : Nat
  fatSize : Nat
  rootCluster : Nat
  dataStart : Nat
  clusterCount : Nat

/-- A request to the block cache: first block and number of blocks. -/
inductive BufReq where
  | bread (sector nblk : Nat)
  | getblk (sector nblk : Nat)
  | bdwrite (sector nblk : Nat)
  deriving DecidableEq, Repr

/-- How often the kernel was asked, and what was asked of the block cache. `clusters`
are the clusters whose blocks were asked for as file or directory data; a buffer
is written where it was read. -/
structure Io where
  nread : Nat := 0
  nmove : Nat := 0
  nclock : Nat := 0
  nvn : Nat := 0
  log : List BufReq := []
  clusters : List Nat := []

structure Vol where
  disk : Nat → UInt8
  freeCount : Nat
  nextFree : Nat
  io : Io := {}

/-- `buf_t`: the blocks it caches and their bytes. -/
structure Buf where
  sector : Nat
  nblk : Nat
  data : Nat → UInt8

abbrev FsM := Prog Errno Vol

def Vol.logged (v : Vol) (r : BufReq) : Vol := { v with io := { v.io with log := r :: v.io.log } }

def bread (fsi : Fsi) (sector nblk : Nat) : FsM Buf := fun v =>
  let v' := { v with io := { v.io with nread := v.io.nread + 1,
                                       log := .bread sector nblk :: v.io.log } }
  match fsi.kernel.readErr v.io.nread with
  | some e => (.err e, v')
  | none => (.ok ⟨sector, nblk, fun o => v.disk (512 * sector + o)⟩, v')

/-- The blocks of a cluster are asked for as data. -/
def askCluster (cluster : Nat) : FsM Unit := modify fun v =>
  { v with io := { v.io with clusters := cluster :: v.io.clusters } }

/-- `getblk` then `clrbuf`: a buffer of zeros, without reading the disk. -/
def getblkClear (sector nblk : Nat) : FsM Buf := fun v =>
  (.ok ⟨sector, nblk, fun _ => 0⟩, v.logged (.getblk sector nblk))

def bdwrite (b : Buf) : FsM Unit := fun v =>
  (.ok (), ({ v with disk := poke v.disk (512 * b.sector) (512 * b.nblk) b.data }).logged
    (.bdwrite b.sector b.nblk))

def nanotime (fsi : Fsi) : FsM Timespec := fun v =>
  (.ok (fsi.kernel.nanotime v.io.nclock), { v with io := { v.io with nclock := v.io.nclock + 1 } })

/-- `uiomove`, as far as it can fail: a fault is taken to move nothing. -/
def uiomove (fsi : Fsi) : FsM Unit := fun v =>
  let v' := { v with io := { v.io with nmove := v.io.nmove + 1 } }
  match fsi.kernel.uiomoveErr v.io.nmove with
  | some e => (.err e, v')
  | none => (.ok (), v')

/-- `vn_alloc`: a new system vnode, unless there is none. -/
def vnAlloc (fsi : Fsi) : FsM (Option Nat) := fun v =>
  (.ok (if fsi.kernel.vnAlloc v.io.nvn then some v.io.nvn else none),
    { v with io := { v.io with nvn := v.io.nvn + 1 } })

end Fat32
