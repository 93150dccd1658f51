import Mathlib
import Fat32.Lib.Locks

/-!
# The locks of the driver

Each vnode has `fv_lock`, and the mount `fsi_lock`. What a function does with
them is the set of the sequences of lock actions that its paths have, as a
language: `+` is a branch, `*` sequence and `∗` a loop, and a branch to `1` an
early return. Conditions on the data are left open, except those that decide how
vnode locks are taken; these are parameters of a `Call`.

`V` are the vnodes, and `parent` is `fv_parent_vp`. The mutex around the cluster
cache is never held when another lock is taken.
-/

namespace Fat32.Locking

open Locks Computability

inductive Lock (V : Type) where
  | vnode (v : V)
  | fsi
  deriving DecidableEq

variable {V : Type}

abbrev Paths (V : Type) := Language (Act (Lock V))

def acts (as : List (Act (Lock V))) : Paths V := {as}

/-- A lock taken, the paths `P`, and the lock let go. -/
def locked (l : Lock V) (m : Mode) (P : Paths V) : Paths V := acts [.acquire l m] * P * acts [.release l]

/-! ## `fat32_cls.c` -/

/-- `mraccess` for the FAT entry, `mrupdate` for an allocation. -/
def nextCluster : Paths V :=
  1 + locked .fsi .access 1 * (1 + locked .fsi .update 1) + locked .fsi .update 1

def freeClusters : Paths V := 1 + locked .fsi .update 1

def seekCluster : Paths V := nextCluster∗

/-! ## `fat32_dir.c`, `fat32_file.c` -/

def truncate : Paths V := freeClusters + nextCluster * seekCluster * nextCluster * freeClusters

/-- The scans of a directory: `fat32_find_dirent` and `fat32_dirempty`. -/
def scan : Paths V := (seekCluster * nextCluster∗)∗

def updateFdentry : Paths V := 1 + seekCluster

/-- `fat32_read_fdentry` and `fat32_write_fdentry`. -/
def fdentry : Paths V := seekCluster

def initDir : Paths V := 1 + fdentry * (1 + fdentry)

def allocFdentry : Paths V :=
  nextCluster * (1 + freeClusters + initDir * (1 + freeClusters)) + nextCluster∗

def createFdentry : Paths V :=
  (1 + allocFdentry) * (1 + nextCluster * initDir) * fdentry∗

/-! ## `fat32_vnode.c` -/

def deleteFdentryChain : Paths V := seekCluster * nextCluster∗

/-- `fat32_sync_metadata`. -/
def syncMetadata (parent : V → Option V) (v : V) : Paths V :=
  match parent v with
  | none => locked (.vnode v) .update updateFdentry
  | some q => locked (.vnode q) .update (locked (.vnode v) .update updateFdentry)

/-- `fat32_remove_common`; `bad` is that `fv_cluster` of the directory is
`FAT32_CLUSTER_BAD`, so that an entry found in it has a bad `fv_parent_cluster`: then
the function returns without `mrunlock`. -/
def removeCommon (dir : V) (bad : Bool) : Paths V :=
  if bad then
    1 + locked (.vnode dir) .update (scan * scan) + acts [.acquire (.vnode dir) .update] * scan * scan
  else
    1 + locked (.vnode dir) .update (scan * scan * (1 + deleteFdentryChain * (1 + freeClusters)))

inductive Call (V : Type) where
  | lookup (dir : V)
  | read (v : V)
  | write (v : V)
  | setattr (v : V)
  | create (dir : V)
  | mkdir (dir : V)
  | remove (dir : V) (bad : Bool)
  | rmdir (dir : V) (bad : Bool)
  /-- `sameDir` compares the first clusters; `target` is that `fat32_remove_common` is
  called for an entry with the target name. -/
  | rename (sdir tdir : V) (sameDir target bad : Bool)
  | syncMetadata (v : V)

/-- What `fat32_rename` does while it holds the locks of the directories. -/
def renameLocked (tdir : V) (target bad : Bool) : Paths V :=
  scan * scan * (if target then scan * removeCommon tdir bad else 1) *
    (1 + createFdentry * (1 + deleteFdentryChain) + deleteFdentryChain * (1 + createFdentry)) *
    (1 + fdentry * (1 + fdentry))

def Call.paths (parent : V → Option V) : Call V → Paths V
  | lookup dir => 1 + locked (.vnode dir) .access scan
  | read v => 1 + acts [.acquire (.vnode v) .update, .demote (.vnode v)] *
      (1 + seekCluster * nextCluster∗) * acts [.release (.vnode v)]
  | write v => 1 + locked (.vnode v) .update
      ((1 + nextCluster) * (1 + seekCluster * nextCluster∗))
  | setattr v => 1 + locked (.vnode v) .update (1 + truncate) *
      (1 + Locking.syncMetadata parent v)
  | create dir => 1 + locked (.vnode dir) .update (scan * (1 + truncate + createFdentry))
  | mkdir dir => 1 + locked (.vnode dir) .update (scan * (1 + createFdentry))
  | remove dir bad => removeCommon dir bad
  | rmdir dir bad => removeCommon dir bad
  | rename sdir tdir sameDir target bad =>
    if sameDir then 1 + locked (.vnode sdir) .update (renameLocked tdir target bad)
    else locked (.vnode sdir) .update (locked (.vnode tdir) .update (renameLocked tdir target bad))
  | syncMetadata v => Locking.syncMetadata parent v

end Fat32.Locking
