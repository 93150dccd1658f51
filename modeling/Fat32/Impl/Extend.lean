import Mathlib
import Fat32.Impl.Cls

/-!
# Concurrent calls of `fat32_next_cluster`

A call with `NC_ALLOC` takes `fsi_lock` twice: in access mode for the entry of the
current cluster (`nextRead`), and in update mode for the allocation. Any number of
calls, named by `ι`, go on in any order, one critical section at a time.
-/

namespace Fat32

open Exec Prog

/-- `fat32_next_cluster` before `allocate_new`: the next cluster, or `none` if one has
to be allocated. -/
def nextRead (fsi : Fsi) (current : Nat) (flags : NcFlags) : FsM (Option Nat) :=
  if current = 0 then
    if ¬ flags.alloc then fail .einval else pure none
  else if current < clusterMin ∨ current > maxCluster fsi then fail .einval
  else do
    let next ← rmwCluster fsi current none
    if next ≥ clusterEocMin then
      if ¬ flags.alloc then fail .enospc else pure none
    else if next = clusterBad then fail .eio
    else if next = clusterFree then fail .eio
    else if next < clusterMin ∨ next > maxCluster fsi then fail .eio
    else pure (some next)

structure ExtendCall where
  current : Nat
  clear : Bool

def ExtendCall.flags (c : ExtendCall) : NcFlags := { alloc := true, clear := c.clear }

/-- Where a call is: before its first critical section, before the second one, or at
its end. -/
inductive Phase where
  | start
  | allocate
  | returned (r : Out Errno Nat)
  deriving DecidableEq, Repr

/-- The volume, and where each call is. -/
structure Extending (ι : Type) where
  vol : Vol
  phase : ι → Phase

variable {ι : Type} [DecidableEq ι]

/-- Call `i` goes on with its next critical section. -/
def Extending.step (fsi : Fsi) (calls : ι → ExtendCall) (i : ι) (s : Extending ι) : Extending ι :=
  match s.phase i with
  | .start =>
    let r := nextRead fsi (calls i).current (calls i).flags s.vol
    let next : Phase := match r.1 with
      | .ok none => .allocate
      | .ok (some d) => .returned (.ok d)
      | .err e => .returned (.err e)
      | .hang => .returned .hang
    ⟨r.2, Function.update s.phase i next⟩
  | .allocate =>
    let r := allocateCluster fsi (calls i).current (calls i).flags s.vol
    ⟨r.2, Function.update s.phase i (.returned r.1)⟩
  | .returned _ => s

end Fat32
