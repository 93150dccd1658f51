import Mathlib
import Fat32.Impl.Volume

/-!
# Clusters and the FAT (`fat32_cls.c`)

The vnode part of the file, the cluster cache, is in `Impl/File.lean`.
-/

namespace Fat32

open Exec Prog

/-- `a - b` of two `uint32_t`. -/
def sub32 (a b : Nat) : Nat := u32 (a + 0x100000000 - b)

def clusterToSector (fsi : Fsi) (cluster : Nat) : Nat :=
  u32 (fsi.dataStart + u32 (sub32 cluster clusterMin <<< fsi.spcShift))

def readCluster (fsi : Fsi) (cluster : Nat) : FsM Buf := do
  askCluster cluster
  bread fsi (clusterToSector fsi cluster) fsi.sectorsPerCluster

/-- `fsi->fsi_cluster_count + 1`. -/
def maxCluster (fsi : Fsi) : Nat := u32 (fsi.clusterCount + 1)

/-- The loop of `fat32_rmw_cluster` over the last `n` FAT copies, from the buffer
of the first of them. -/
def rmwCopies (fsi : Fsi) (newValue entryOffset : Nat) : Nat → Nat → Buf → FsM Unit
  | 0, _, _ => pure ()
  | n + 1, fatSector, bp => do
    bdwrite { bp with data := wle32 newValue bp.data entryOffset }
    if n = 0 then pure () else do
      let bp ← bread fsi (u32 (fatSector + fsi.fatSize)) 1
      rmwCopies fsi newValue entryOffset n (u32 (fatSector + fsi.fatSize)) bp

/-- Read a FAT entry, and store `newValue` in all copies if there is one. -/
def rmwCluster (fsi : Fsi) (cluster : Nat) (newValue : Option Nat) : FsM Nat :=
  if cluster < clusterMin ∨ cluster > maxCluster fsi then fail .einval else do
    let fatOffset := u32 (cluster * 4)
    let fatSector := u32 (fsi.fatStart + (fatOffset >>> fsi.sectorShift))
    let entryOffset := fatOffset &&& fsi.sectorMask
    let bp ← bread fsi fatSector 1
    let value := rle32 bp.data entryOffset &&& clusterMask
    match newValue with
    | none => pure value
    | some x => do
      rmwCopies fsi x entryOffset fsi.numFats fatSector bp
      pure value

/-- Flags of `fat32_next_cluster`. -/
structure NcFlags where
  alloc : Bool := false
  clear : Bool := false
  deriving DecidableEq, Repr

def clearLoop (sector : Nat) : Nat → FsM Unit
  | 0 => pure ()
  | n + 1 => do
    let bp ← getblkClear (u32 sector) 1
    bdwrite bp
    clearLoop (sector + 1) n

/-- Zero a cluster, one block at a time. -/
def clearCluster (fsi : Fsi) (cluster : Nat) : FsM Unit := do
  askCluster cluster
  clearLoop (clusterToSector fsi cluster) fsi.sectorsPerCluster

/-- The search of `fat32_allocate_cluster`: at most `n` more entries, from
`cluster` and around to `start`. -/
def searchFree (fsi : Fsi) (start : Nat) : Nat → Nat → FsM Nat
  | 0, _ => fail .enospc
  | n + 1, cluster => do
    let value ← rmwCluster fsi cluster none
    if value = clusterFree then pure cluster else
      let next := if u32 (cluster + 1) > maxCluster fsi then clusterMin else u32 (cluster + 1)
      if next = start then fail .enospc else searchFree fsi start n next

/-- Offsets in the FSInfo sector. -/
abbrev fsinfoFreeCount : Nat := 488
abbrev fsinfoNextFree : Nat := 492

def allocateCluster (fsi : Fsi) (parent : Nat) (flags : NcFlags) : FsM Nat := do
  let v ← get
  let freeCount := v.freeCount
  if freeCount = 0 ∨ freeCount = 0xFFFFFFFF then fail .enospc else do
    let start := if v.nextFree < clusterMin ∨ v.nextFree > maxCluster fsi then clusterMin
      else v.nextFree
    let cluster ← searchFree fsi start fsi.clusterCount start
    let _ ← rmwCluster fsi cluster (some clusterEoc)
    let linked ← (if parent ≠ 0 then attempt (rmwCluster fsi parent (some cluster))
      else pure (.ok 0))
    match linked with
    | .error e => do
      -- the link failed: try to give the cluster back
      let _ ← attempt (rmwCluster fsi cluster (some clusterFree))
      fail e
    | .ok _ => do
      let bp ← bread fsi fsi.fsinfoSector 1
      let newFreeCount := sub32 freeCount 1
      let newNextFree := if u32 (cluster + 1) > maxCluster fsi then clusterMin
        else u32 (cluster + 1)
      bdwrite { bp with data := wle32 newNextFree
                          (wle32 newFreeCount bp.data fsinfoFreeCount) fsinfoNextFree }
      modify fun v => { v with freeCount := newFreeCount, nextFree := newNextFree }
      if flags.clear then clearCluster fsi cluster else pure ()
      pure cluster

/-- The next cluster of a chain, appending one at its end with `NC_ALLOC`;
`current = 0` allocates a cluster that nothing links to. At the end of a chain
without `NC_ALLOC` the code also stores the end mark in `*next`, which no caller
reads. -/
def nextCluster (fsi : Fsi) (current : Nat) (flags : NcFlags) : FsM Nat :=
  if current = 0 then
    if ¬ flags.alloc then fail .einval else allocateCluster fsi current flags
  else if current < clusterMin ∨ current > maxCluster fsi then fail .einval
  else do
    let next ← rmwCluster fsi current none
    if next ≥ clusterEocMin then
      if ¬ flags.alloc then fail .enospc else allocateCluster fsi current flags
    else if next = clusterBad then fail .eio
    else if next = clusterFree then fail .eio
    else if next < clusterMin ∨ next > maxCluster fsi then fail .eio
    else pure next

/-- The loop of `fat32_free_clusters`; the result is the number of clusters freed. -/
def freeLoop (fsi : Fsi) : Nat → Nat → Nat → FsM Nat
  | 0, _, _ => hang
  | fuel + 1, current, freed =>
    if current ≥ clusterMin ∧ current < clusterEocMin then do
      let next ← rmwCluster fsi current (some clusterFree)
      freeLoop fsi fuel next (u32 (freed + 1))
    else pure freed

/-- The FSInfo update of `fat32_free_clusters`; a failing read is not fatal. -/
def freeUpdate (fsi : Fsi) (freed : Nat) : FsM Unit :=
  if freed > 0 then do
    match ← attempt (bread fsi fsi.fsinfoSector 1) with
    | .error _ => pure ()
    | .ok bp => do
      let v ← get
      if v.freeCount ≠ 0xFFFFFFFF then do
        let newFreeCount := u32 (v.freeCount + freed)
        bdwrite { bp with data := wle32 newFreeCount bp.data fsinfoFreeCount }
        modify fun v => { v with freeCount := newFreeCount }
      else pure ()
  else pure ()

def freeClusters (fsi : Fsi) (start : Nat) (freeStart : Bool) : FsM Unit :=
  if start < clusterMin ∨ start > maxCluster fsi then fail .einval
  else if ¬ freeStart then do
    let next ← rmwCluster fsi start (some clusterEoc)
    if next ≥ clusterEocMin then pure () else do
      let freed ← freeLoop fsi fsi.kernel.fuel next 0
      freeUpdate fsi freed
  else do
    let freed ← freeLoop fsi fsi.kernel.fuel start 0
    freeUpdate fsi freed

def seekLoop (fsi : Fsi) (flags : NcFlags) : Nat → Nat → FsM Nat
  | 0, current => pure current
  | n + 1, current => do
    let next ← nextCluster fsi current flags
    seekLoop fsi flags n next

/-- The cluster `skip` links after `start`. -/
def seekCluster (fsi : Fsi) (start skip : Nat) (flags : NcFlags) : FsM Nat :=
  if skip = 0 then pure start else seekLoop fsi flags skip start

end Fat32
