import Mathlib
import Fat32.Impl.Boot
import Fat32.Impl.Vnode

/-!
# Mounting (`fat32_vfs.c`)

`fat32_mount` parses the options, looks the device up, reads the boot sector and makes the root vnode. What it takes of
the kernel on the way is counted (`Acquired`); every error path gives some of it back.
-/

namespace Fat32

open Bytes Exec Prog

/-! ## Options -/

def isSpace (c : UInt8) : Bool := c = 32 ∨ 9 ≤ c ∧ c ≤ 13

def isDigit (c : UInt8) : Bool := 48 ≤ c ∧ c ≤ 57

/-- The number that the leading digits are. -/
def digits (s : List UInt8) : Nat := (s.takeWhile isDigit).foldl (fun n c => 10 * n + (c.toNat - 48)) 0

/-- `atoi`, which says nothing about numbers that are no `int`. -/
def atoi (s : List UInt8) : Int :=
  match s.dropWhile isSpace with
  | 45 :: s => - digits s
  | 43 :: s => digits s
  | s => digits s

/-- The options, with the values for those that are not given. -/
structure MountOpts where
  partitionNum : Int := -1
  uid : Nat := 0
  gid : Nat := 0
  deriving DecidableEq, Repr

/-- `part=`. -/
abbrev optPart : List UInt8 := [112, 97, 114, 116, 61]

/-- `uid=`. -/
abbrev optUid : List UInt8 := [117, 105, 100, 61]

/-- `gid=`. -/
abbrev optGid : List UInt8 := [103, 105, 100, 61]

/-- One option. -/
def parseOpt (o : MountOpts) (opt : List UInt8) : Except Errno MountOpts :=
  if optPart.isPrefixOf opt then
    if atoi (opt.drop 5) < 0 ∨ atoi (opt.drop 5) > 3 then .error .einval
    else .ok { o with partitionNum := atoi (opt.drop 5) }
  else if optUid.isPrefixOf opt then .ok { o with uid := (atoi (opt.drop 4) % 2 ^ 32).toNat }
  else if optGid.isPrefixOf opt then .ok { o with gid := (atoi (opt.drop 4) % 2 ^ 32).toNat }
  else .ok o

/-- The loop over the options; each ends at a comma or with the string. -/
def parseLoop : Nat → List UInt8 → MountOpts → Except Errno MountOpts
  | 0, _, o => .ok o
  | n + 1, p, o =>
    if p = [] then .ok o
    else
      let opt := p.takeWhile (· ≠ 44)
      let p := (p.dropWhile (· ≠ 44)).tail
      if opt = [] then parseLoop n p o
      else
        match parseOpt o opt with
        | .error e => .error e
        | .ok o => parseLoop n p o

/-- The options in the bytes of `uap->dataptr`, up to a NUL. -/
def parseOpts (data : List UInt8) : Except Errno MountOpts :=
  let opts := data.takeWhile (· ≠ 0)
  parseLoop opts.length opts {}

/-! ## The mount command (`mount_fat32.c`) -/

/-- An option that `getopt` finds. -/
inductive MountArg
  | r
  | o (optarg : List UInt8)

/-- `MS_RDONLY` of `flags`, and the string in `mount_data`. -/
structure MountCmd where
  rdonly : Bool := false
  mountData : List UInt8 := []

/-- `ro`. -/
abbrev optRo : List UInt8 := [114, 111]

/-- `rw`. -/
abbrev optRw : List UInt8 := [114, 119]

/-- One round of the loop of `main`; `mount_data` has 256 bytes. -/
def mountArg (c : MountCmd) : MountArg → MountCmd
  | .r => { c with rdonly := true }
  | .o optarg =>
    let rdonly : Bool := if optRo <:+: optarg then true else c.rdonly
    { rdonly := if optRw <:+: optarg then false else rdonly
      mountData := optarg.take 255 }

/-! ## The kernel -/

/-- The device vnode that `lookupname` finds. -/
structure Device where
  /-- `v_type` is `VBLK`. -/
  isBlock : Bool
  rdev : Nat

/-- What `fat32_mount` is told, and what the kernel answers. -/
structure MountEnv where
  /-- The bytes at `uap->dataptr`, if there are any. -/
  data : Option (List UInt8)
  copyinFails : Bool
  /-- `lookupname` of `uap->spec`. -/
  lookupname : Except Errno Device
  /-- `vfs_devsearch`. -/
  devsearch : Nat → Bool
  /-- Whether `kmem_zalloc` has memory for the structure of the volume, and for that of the root. -/
  zallocFsi : Bool := true
  zallocFv : Bool := true
  kernel : Kernel := {}
  /-- `vfsp->vfs_flag & VFS_RDONLY`. -/
  vfsRdonly : Bool := false
  /-- `fat32fstype`. -/
  fstype : Nat

/-- How many of each the driver has taken and not given back. -/
structure Acquired where
  opts : Int := 0
  /-- References to the device vnode. -/
  devvp : Int := 0
  fsi : Int := 0
  fsiLock : Int := 0
  /-- The descriptor that leads from the VFS to the structure of the volume. -/
  bhv : Int := 0
  fv : Int := 0
  fvLock : Int := 0
  cacheLock : Int := 0
  deriving DecidableEq, Repr

/-- What `fat32_mount` sets of `vfs_t`. -/
structure Vfs where
  bcount : Nat := 0
  bsize : Nat := 0
  fstype : Nat := 0
  dev : Nat := 0
  notrunc : Bool := false
  isLocal : Bool := false
  fsid : Nat × Nat := (0, 0)
  deriving DecidableEq, Repr

structure MountSt where
  sys : Sys
  acquired : Acquired
  vfs : Vfs

abbrev MountM := Prog Errno MountSt

def onSys {α : Type} (m : SysM α) : MountM α := Prog.on MountSt.sys (fun u s => { s with sys := u }) m

def take (f : Acquired → Acquired) : MountM Unit := modify fun s => { s with acquired := f s.acquired }

/-- A mount: `fsi` and `fsi_rootvp`. -/
structure Mount where
  info : BootInfo
  dev : Nat
  rootvp : Nat

/-! ## The operations -/

/-- `kmem_zalloc`, and what is set before `fat32_read_boot`. -/
def newFsi (env : MountEnv) (o : MountOpts) : Fsi where
  kernel := env.kernel
  vfsRdonly := env.vfsRdonly
  uid := o.uid
  gid := o.gid
  fsinfoSector := 0
  fatStart := 0
  sectorsPerCluster := 0
  bytesPerCluster := 0
  sectorShift := 0
  sectorMask := 0
  clusterShift := 0
  clusterMask := 0
  spcShift := 0
  numFats := 0
  fatSize := 0
  rootCluster := 0
  dataStart := 0
  clusterCount := 0

/-- The part of `fat32_mount` that reads the options. -/
def mountOpts (env : MountEnv) : MountM MountOpts :=
  match env.data with
  | none => pure {}
  | some data =>
    if data = [] then pure {}
    else do
      take fun t => { t with opts := t.opts + 1 }
      let r : Except Errno MountOpts := if env.copyinFails then .error .efault else parseOpts data
      take fun t => { t with opts := t.opts - 1 }
      match r with
      | .error e => fail e
      | .ok o => pure o

/-- The part that finds the device. -/
def mountDevice (env : MountEnv) : MountM Nat :=
  match env.lookupname with
  | .error e => fail e
  | .ok dev => do
    take fun t => { t with devvp := t.devvp + 1 }
    if ¬ dev.isBlock then do
      take fun t => { t with devvp := t.devvp - 1 }
      fail .enotblk
    else if env.devsearch dev.rdev then do
      take fun t => { t with devvp := t.devvp - 1 }
      fail .ebusy
    else pure dev.rdev

/-- Give back the structure of the volume and the device. -/
def mountUndo : MountM Unit :=
  take fun t => { t with fsiLock := t.fsiLock - 1, fsi := t.fsi - 1, devvp := t.devvp - 1 }

/-- The root vnode, with `fat32_vnode_new` and, if there is no system vnode for it, `fat32_vnode_delete`. -/
def mountRoot (env : MountEnv) (fsi : Fsi) : MountM Nat :=
  if ¬ env.zallocFv then do
    mountUndo
    fail .enomem
  else do
    take fun t => { t with fv := t.fv + 1, cacheLock := t.cacheLock + 1 }
    match ← attempt (onSys (makeRoot fsi)) with
    | .error e => do
      take fun t => { t with fvLock := t.fvLock - 1, cacheLock := t.cacheLock - 1, fv := t.fv - 1 }
      mountUndo
      fail e
    | .ok none => hang
    | .ok (some vp) => do
      take fun t => { t with fvLock := t.fvLock + 1 }
      onSys (vnHold vp)
      pure vp

/-- `fat32_mount`. -/
def mount (env : MountEnv) : MountM Mount := do
  let o ← mountOpts env
  let dev ← mountDevice env
  if ¬ env.zallocFsi then do
    take fun t => { t with devvp := t.devvp - 1 }
    fail .enomem
  else do
    take fun t => { t with fsi := t.fsi + 1, fsiLock := t.fsiLock + 1 }
    match ← attempt (onSys (onSysVol (readBoot (newFsi env o) o.partitionNum))) with
    | .error e => do
      mountUndo
      fail e
    | .ok info => do
      take fun t => { t with bhv := t.bhv + 1 }
      modify fun s => { s with vfs := {
        bcount := 0
        bsize := info.bytesPerCluster
        fstype := env.fstype
        dev := dev
        notrunc := true
        isLocal := true
        fsid := (dev, env.fstype) } }
      let rootvp ← mountRoot env info.toFsi
      pure ⟨info, dev, rootvp⟩

/-- `fat32_root`. -/
def root (m : Mount) : SysM Nat := do
  vnHold m.rootvp
  pure m.rootvp

/-- `fat32_unmount`. -/
def unmount (m : Mount) : MountM Unit := do
  onSys (vnRele m.rootvp)
  take fun t => { t with fsiLock := t.fsiLock - 1, devvp := t.devvp - 1, bhv := t.bhv - 1, fsi := t.fsi - 1 }

end Fat32
