import Mathlib
import Fat32.Impl.Vnode

/-!
# The driver as a transition system

`VnOp` are the calls the kernel makes of the driver, each atomic, and the two by
which it counts references. A run is a sequence of calls; `SysRun` takes only
those that a condition on the state before the call admits.
-/

namespace Fat32

open Bytes Exec Prog

inductive VnOp where
  | lookup (dir : Nat) (nm : List UInt8)
  | read (p : Nat) (uio : Uio)
  | write (p : Nat) (append : Bool) (uio : Uio)
  | readdir (p offset resid : Nat)
  | getattr (p : Nat)
  | setattr (p : Nat) (vap : Vattr)
  | create (dir : Nat) (name : List UInt8) (vap : Vattr) (excl : Bool) (mode : Access) (cr : Cred)
  | mkdir (dir : Nat) (dirname : List UInt8) (vap : Vattr) (cr : Cred)
  | remove (dir : Nat) (nm : List UInt8) (cr : Cred)
  | rmdir (dir : Nat) (nm : List UInt8) (cdir : Option Nat) (cr : Cred)
  | rename (sdir : Nat) (snm : List UInt8) (tdir : Nat) (tnm : List UInt8) (cr : Cred)
  | fsync (p : Nat)
  | close (p : Nat) (lastclose : Bool)
  | inactive (p : Nat)
  | hold (p : Nat)
  | rele (p : Nat)

/-- A call, without its results. -/
def VnOp.exec (fsi : Fsi) : VnOp → SysM Unit
  | lookup dir nm => do let _ ← Fat32.lookup fsi dir nm; pure ()
  | read p uio => rwVnode p (Fat32.read fsi) uio
  | write p append uio => rwVnode p (Fat32.write fsi append) uio
  | readdir p offset resid => do let _ ← onVnode p (Fat32.readdir fsi offset resid); pure ()
  | getattr p => do let _ ← onVnode p (Fat32.getattr fsi); pure ()
  | setattr p vap => Fat32.setattr fsi p vap
  | create dir name vap excl mode cr => do
    let _ ← Fat32.create fsi dir name vap excl mode cr; pure ()
  | mkdir dir dirname vap cr => do let _ ← Fat32.mkdir fsi dir dirname vap cr; pure ()
  | remove dir nm cr => Fat32.remove fsi dir nm cr
  | rmdir dir nm cdir cr => Fat32.rmdir fsi dir nm cdir cr
  | rename sdir snm tdir tnm cr => Fat32.rename fsi sdir snm tdir tnm cr
  | fsync p => Fat32.fsync fsi p
  | close p lastclose => Fat32.close fsi p lastclose
  | inactive p => Fat32.inactive fsi p
  | hold p => vnHold p
  | rele p => vnRele p

/-- Runs of calls that `P` admits. -/
inductive SysRun (fsi : Fsi) (P : Sys → VnOp → Prop) : Sys → Sys → Prop
  | refl (s : Sys) : SysRun fsi P s s
  | step {s s' : Sys} (op : VnOp) (ha : P s op) (t : SysRun fsi P (op.exec fsi s).2 s') :
      SysRun fsi P s s'

/-- The run of a list of calls. -/
def runOps (fsi : Fsi) (s : Sys) (ops : List VnOp) : Sys :=
  ops.foldl (fun s op => (op.exec fsi s).2) s

/-- An invariant of every admitted call holds in every state of a run. -/
theorem SysRun.invariant {fsi : Fsi} {P : Sys → VnOp → Prop} {I : Sys → Prop}
    (hstep : ∀ s op, I s → P s op → I (op.exec fsi s).2) {s s' : Sys} (run : SysRun fsi P s s')
    (h : I s) : I s' := by
  induction run with
  | refl s => exact h
  | step op ha t ih => exact ih (hstep _ op h ha)

/-! ## Small volumes -/

/-- Sector 0 is FSInfo, sector 1 the FAT, and cluster `c` is sector `c`. -/
def small (clusterCount : Nat) : Fsi where
  fsinfoSector := 0
  fatStart := 1
  sectorsPerCluster := 1
  bytesPerCluster := 512
  sectorShift := 9
  sectorMask := 511
  clusterShift := 9
  clusterMask := 511
  spcShift := 0
  numFats := 1
  fatSize := 1
  rootCluster := 2
  dataStart := 2
  clusterCount := clusterCount

/-- The volume with the entries `fat` for the clusters from 2 on and the slots `dir c`
in cluster `c`. -/
def image (fat : List Nat) (dir : Nat → List Slot) : Vol where
  disk a :=
    if a < 512 then if 488 ≤ a ∧ a < 492 then byteOf (fat.count 0) (a - 488) else 0
    else if a < 1024 then byteOf (fat.getD ((a - 512) / 4 - 2) clusterEoc) (a % 4)
    else (dir (a / 512)).getD (a % 512 / 32) (fun _ => 0) ⟨a % 32, Nat.mod_lt _ (by decide)⟩
  freeCount := fat.count 0
  nextFree := clusterMin

/-- The entry of a file or directory with a name of one letter. -/
def shortEntry (c : UInt8) (attr : UInt8) (cluster size : Nat) : Slot :=
  Dirent83.toSlot {
    name := fun i => if i.val = 0 then c else 32
    attr := attr
    firstClusterHi := cluster / 0x10000
    firstClusterLo := cluster % 0x10000
    fileSize := size }

/-- A request for the first byte of a file. -/
def oneByte : Uio := { offset := 0, resid := 1, mem := fun _ => 0 }

/-- The system after `fat32_mount`: the root is the vnode at 0. -/
def mounted (fsi : Fsi) (vol : Vol) : Sys :=
  (makeRoot fsi ⟨vol, fun _ => none, fun _ => 0⟩).2

end Fat32
