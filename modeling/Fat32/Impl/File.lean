import Mathlib
import Fat32.Impl.Cls
import Fat32.Impl.Util

/-!
# FAT32 vnodes (`fat32_file.c`, and the vnode parts of `fat32_util.c` and
`fat32_cls.c`)

`Fv` is `fat32fs_vnode_t`. A function of one vnode is a program over that vnode
and the volume (`FvM`); pointers to other vnodes are passed as values.
-/

namespace Fat32

open Exec Prog

inductive Vtype where
  | vnon | vreg | vdir
  deriving DecidableEq, Repr

/-- `fv_flags`. -/
structure VnFlags where
  modified : Bool := false
  root : Bool := false
  atime : Bool := false
  mtime : Bool := false
  size : Bool := false
  cluster : Bool := false
  ctime : Bool := false
  attr : Bool := false
  deriving DecidableEq, Repr

/-- `fv_flags & FV_DIRTY_MASK`. -/
def VnFlags.dirty (f : VnFlags) : Bool :=
  f.atime || f.mtime || f.size || f.cluster || f.ctime || f.attr

/-- `fv_flags &= ~FV_DIRTY_MASK`. -/
def VnFlags.clearDirty (f : VnFlags) : VnFlags := { modified := f.modified, root := f.root }

structure ClsCacheEntry where
  index : Nat := 0
  cluster : Nat := 0
  deriving DecidableEq, Repr

abbrev clsCacheSize : Nat := 16

/-- The cache after `bzero`. -/
def emptyCache : List ClsCacheEntry := List.replicate clsCacheSize {}

/-- File types and permissions of `mode_t`. -/
abbrev sIfdir : Nat := 0o40000
abbrev sIfreg : Nat := 0o100000
abbrev sIwusr : Nat := 0o200

/-- `fat32fs_vnode_t`. Vnode pointers are numbers, with `none` for `NULL`. -/
structure Fv where
  vnode : Option Nat := none
  cluster : Nat := clusterBad
  type : Vtype := .vnon
  mode : Nat := 0
  uid : Nat := 0
  gid : Nat := 0
  size : Nat := 0
  atime : Timespec := {}
  mtime : Timespec := {}
  ctime : Timespec := {}
  attr : UInt8 := 0
  diroff : Nat := 0
  dirsz : Nat := 0
  parentCluster : Nat := clusterBad
  parentVp : Option Nat := none
  clsCache : List ClsCacheEntry := emptyCache
  flags : VnFlags := {}
  deriving DecidableEq

/-- `fat32_vnode_new`, with `fat32_vnode_init`. -/
def vnodeNew (fsi : Fsi) : Fv := { uid := fsi.uid, gid := fsi.gid }

/-- `fat32_vnode_reset`: the cluster cache is left alone. -/
def vnodeReset (fsi : Fsi) (fv : Fv) : Fv := { vnodeNew fsi with clsCache := fv.clsCache }

/-- The state of a program on one vnode. -/
structure VnSt where
  vol : Vol
  fv : Fv

abbrev FvM := Prog Errno VnSt

/-- A program on the volume. -/
def onVol {α : Type} (m : FsM α) : FvM α := Prog.on VnSt.vol (fun v s => { s with vol := v }) m

def modifyFv (f : Fv → Fv) : FvM Unit := modify fun s => { s with fv := f s.fv }

/-! ## The cluster cache -/

/-- `fat32_vnode_update_cache`: the first empty slot or duplicate goes, else the
oldest entry, and the new entry is last. -/
def updateCache (cache : List ClsCacheEntry) (index cluster : Nat) : List ClsCacheEntry :=
  let slot := (cache.findIdx? fun e => e.cluster = 0 ∨ e.index = index).getD 0
  cache.eraseIdx slot ++ [⟨index, cluster⟩]

def vnodeUpdateCache (index cluster : Nat) : FvM Unit :=
  modifyFv fun fv => { fv with clsCache := updateCache fv.clsCache index cluster }

/-- One step of the search for the best entry at or before `skip`. -/
def bestStep (skip : Nat) (best e : ClsCacheEntry) : ClsCacheEntry :=
  if e.cluster = 0 then best
  else if e.index ≤ skip ∧ e.index > best.index then e else best

def bestEntry (cache : List ClsCacheEntry) (start skip : Nat) : ClsCacheEntry :=
  cache.foldl (bestStep skip) ⟨0, start⟩

def vnodeSeekCluster (fsi : Fsi) (skipClusters : Nat) (flags : NcFlags) : FvM Nat := do
  let s ← get
  let best := bestEntry s.fv.clsCache s.fv.cluster skipClusters
  let remainingSkip := sub32 skipClusters best.index
  let foundCluster ← (if remainingSkip > 0 then
      onVol (seekCluster fsi best.cluster remainingSkip flags)
    else pure best.cluster)
  vnodeUpdateCache skipClusters foundCluster
  pure foundCluster

/-! ## Truncation -/

/-- The part of `fat32_truncate` for a size that needs no cluster. -/
def truncateZero (fsi : Fsi) : FvM Unit := do
  let s ← get
  if s.fv.cluster ≥ clusterMin then do
    onVol (freeClusters fsi s.fv.cluster true)
    modifyFv fun fv => { fv with cluster := 0 }
  else pure ()
  modifyFv fun fv => { fv with
    clsCache := emptyCache
    size := 0
    flags := { fv.flags with size := true, cluster := true, modified := true } }

/-- Drop the cache entries from index `n` on. -/
def dropCache (cache : List ClsCacheEntry) (n : Nat) : List ClsCacheEntry :=
  cache.map fun e => if e.cluster ≠ 0 ∧ e.index ≥ n then { e with cluster := 0 } else e

/-- The first cluster of an empty file or directory. -/
def firstCluster (fsi : Fsi) (flags : NcFlags) : FvM Unit := do
  let s ← get
  if s.fv.cluster = 0 then do
    let cluster ← onVol (nextCluster fsi 0 flags)
    modifyFv fun fv => { fv with
      cluster := cluster
      flags := { fv.flags with cluster := true, modified := true } }
  else pure ()

/-- Free what follows `cluster`, the last of the `neededClusters`. -/
def freeExtra (fsi : Fsi) (neededClusters cluster : Nat) : FvM Unit := do
  match ← attempt (onVol (nextCluster fsi cluster {})) with
  | .error e => if e = .enospc then pure () else fail e
  | .ok next =>
    if next ≥ clusterMin ∧ next < clusterEocMin then do
      onVol (freeClusters fsi cluster false)
      modifyFv fun fv => { fv with clsCache := dropCache fv.clsCache neededClusters }
    else pure ()

def truncate (fsi : Fsi) (size : Nat) : FvM Unit := do
  let neededClusters := if size = 0 then 0
    else u32 ((size + fsi.bytesPerCluster - 1) >>> fsi.clusterShift)
  if neededClusters = 0 then truncateZero fsi else do
    let s ← get
    let flags : NcFlags := { alloc := true, clear := s.fv.type = .vdir }
    firstCluster fsi flags
    let cluster ← vnodeSeekCluster fsi (neededClusters - 1) flags
    freeExtra fsi neededClusters cluster
    modifyFv fun fv => { fv with
      size := if fv.type = .vdir then 0 else size
      flags := { fv.flags with size := true, modified := true } }

/-! ## Vnodes -/

/-- `fat32_make_vnode`; `parent` is the vnode pointer of the parent with its
`fv_cluster`. The result is `fv` attached to a new system vnode. -/
def makeVnode (fsi : Fsi) (cluster : Nat) (type : Vtype) (fv : Fv)
    (parent : Option (Nat × Nat)) : FsM Fv := do
  match ← vnAlloc fsi with
  | none => fail .enomem
  | some vp =>
    let isRoot : Bool := cluster = fsi.rootCluster ∧ type = .vdir
    pure { fv with
      vnode := some vp
      cluster := cluster
      type := type
      parentVp := parent.map Prod.fst
      parentCluster := (parent.map Prod.snd).getD 0
      flags := if isRoot then { fv.flags with root := true } else {}
      mode := if isRoot then sIfdir ||| 0o755
        else if fv.mode = 0 then (if type = .vdir then sIfdir ||| 0o755 else sIfreg ||| 0o644)
        else fv.mode
      uid := fsi.uid
      gid := fsi.gid }

/-- `fat32_touch` with the flags `FV_ATIME_DIRTY` and `FV_MTIME_DIRTY`; with
neither it sets all three times. -/
def touch (fsi : Fsi) (atime mtime : Bool) (fv : Fv) : FsM Fv := do
  let now ← nanotime fsi
  if ¬ atime ∧ ¬ mtime then
    pure { fv with
      ctime := now
      mtime := now
      atime := now
      flags := { fv.flags with mtime := true, atime := true, modified := true } }
  else
    pure { fv with
      atime := if atime then now else fv.atime
      mtime := if mtime then now else fv.mtime
      flags := { fv.flags with
        atime := fv.flags.atime || atime
        mtime := fv.flags.mtime || mtime
        modified := true } }

/-- `fat32_touch` of the vnode of the state. -/
def touchFv (fsi : Fsi) (atime mtime : Bool) : FvM Unit := do
  let s ← get
  let fv ← onVol (touch fsi atime mtime s.fv)
  modifyFv fun _ => fv

/-! ## Permissions -/

/-- `VREAD`, `VWRITE` and `VEXEC`. -/
structure Access where
  read : Bool := false
  write : Bool := false
  exec : Bool := false
  deriving DecidableEq, Repr

/-- `cred_t`; `groups` are those for which `groupmember` answers yes. -/
structure Cred where
  uid : Nat
  groups : List Nat := []

/-- Whether a mode is denied by the permission bits `r`, `w` and `x`. -/
def Access.denied (mode : Access) (fmode r w x : Nat) : Bool :=
  mode.read ∧ fmode &&& r = 0 ∨ mode.write ∧ fmode &&& w = 0 ∨ mode.exec ∧ fmode &&& x = 0

/-- The result is the error, if access is refused. -/
def faccess (fsi : Fsi) (fv : Fv) (mode : Access) (cr : Cred) : Option Errno :=
  if mode.write ∧ fsi.vfsRdonly then some .erofs
  else if mode.write ∧ fv.attr &&& attrReadOnly ≠ 0 then some .eacces
  else if cr.uid = 0 then none
  else
    let denied :=
      if cr.uid = fv.uid then mode.denied fv.mode 0o400 0o200 0o100
      else if fv.gid ∈ cr.groups then mode.denied fv.mode 0o040 0o020 0o010
      else mode.denied fv.mode 0o004 0o002 0o001
    if denied then some .eacces else none

end Fat32
