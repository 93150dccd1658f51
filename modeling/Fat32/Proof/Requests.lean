import Mathlib
import Fat32.Proof.AddressMap
import Fat32.Proof.System
import Fat32.Lib.BlockCache

/-!
# What the driver asks of the block cache

Every program of the driver reaches the disk through four requests: `bread` of one
block (the FAT, FSInfo) or of a cluster, `getblk` of one block (the zeroing of a
cluster), and `bdwrite`. A relation on volumes that those keep is kept by every
operation (`BlockRel.exec`).
-/

namespace Fat32

open Bytes Exec Prog

variable {fsi : Fsi} {R : Vol → Vol → Prop}

/-- A relation that clusters and the FAT keep: of what is not asked of the block cache
it may look at how often `uiomove` was called, and at how many vnodes were asked for. -/
structure FatRel (fsi : Fsi) (R : Vol → Vol → Prop) : Prop where
  trans : ∀ {u v w}, R u v → R v w → R u w
  quiet : ∀ {v w}, w.io.log = v.io.log → w.io.nmove = v.io.nmove → v.io.nvn ≤ w.io.nvn → R v w
  bread : ∀ s, Keeps R (bread fsi s 1)
  cluster : ∀ s, Keeps R (Fat32.bread fsi s fsi.sectorsPerCluster)
  getblk : ∀ s, Keeps R (getblkClear s 1)
  bdwrite : ∀ b, Keeps R (bdwrite b)

/-- A relation that the block layer keeps. -/
structure BlockRel (fsi : Fsi) (R : Vol → Vol → Prop) : Prop where
  trans : ∀ {u v w}, R u v → R v w → R u w
  /-- What the block cache is not asked about. -/
  other : ∀ {v w}, w.io.log = v.io.log → v.io.nvn ≤ w.io.nvn → R v w
  bread : ∀ s, Keeps R (bread fsi s 1)
  cluster : ∀ s, Keeps R (Fat32.bread fsi s fsi.sectorsPerCluster)
  getblk : ∀ s, Keeps R (getblkClear s 1)
  bdwrite : ∀ b, Keeps R (bdwrite b)

/-- `R` relates the volumes before and after a run. -/
def Through {σ α : Type} (R : Vol → Vol → Prop) (π : σ → Vol) (m : Prog Errno σ α) : Prop :=
  Keeps (fun s t => R (π s) (π t)) m

namespace Through

variable {σ τ α : Type} {π : σ → Vol} {ρ : τ → Vol} {m n : Prog Errno σ α}

theorem wp (h : Through R π m) (s : σ) : WP m s fun _ t => R (π s) (π t) := by
  unfold WP
  exact h s

theorem attempt (hm : Through R π m) : Through R π (Prog.attempt m) := Keeps.attempt hm

theorem ite {c : Prop} [Decidable c] (hm : c → Through R π m) (hn : ¬ c → Through R π n) :
    Through R π (if c then m else n) := Keeps.ite hm hn

theorem on {proj : τ → σ} {put : σ → τ → τ} (hm : Through R π m) (hp : ∀ t, ρ t = π (proj t))
    (hput : ∀ s t, ρ (put s t) = π s) : Through R ρ (Prog.on proj put m) := by
  intro t
  have h : R (π (proj t)) (π (m (proj t)).2) := hm (proj t)
  show R (ρ t) (ρ (put (m (proj t)).2 t))
  rwa [hput, hp]

theorem onVol {m : FsM α} (h : Through R id m) : Through R VnSt.vol (Fat32.onVol m) :=
  .on h (fun _ => rfl) fun _ _ => rfl

/-- The volume under a read or a write. -/
theorem onVn {m : FvM α} (h : Through R VnSt.vol m) :
    Through R (fun s : RwSt => s.vn.vol) (Fat32.onVn m) :=
  .on h (fun _ => rfl) fun _ _ => rfl

theorem onSysVol {m : FsM α} (h : Through R id m) : Through R Sys.vol (Fat32.onSysVol m) :=
  .on h (fun _ => rfl) fun _ _ => rfl

theorem withFv (fv : Fv) {m : FvM α} (h : Through R VnSt.vol m) :
    Through R id (Fat32.withFv fv m) := fun v => h ⟨v, fv⟩

end Through

namespace FatRel

variable (B : FatRel fsi R)
include B

section

variable {σ α β : Type} {π : σ → Vol} {m : Prog Errno σ α} {f : α → Prog Errno σ β}

theorem refl (v : Vol) : R v v := B.quiet rfl rfl (Nat.le_refl _)

theorem pure (a : α) : Through R π (Pure.pure a : Prog Errno σ α) := fun _ => B.refl _

theorem fail (e : Errno) : Through R π (Prog.fail e : Prog Errno σ α) := fun _ => B.refl _

theorem hang : Through R π (Prog.hang : Prog Errno σ α) := fun _ => B.refl _

theorem bind (hm : Through R π m) (hf : ∀ a, Through R π (f a)) : Through R π (m >>= f) :=
  Keeps.bind (R := fun s t => R (π s) (π t)) (fun h k => B.trans h k) hm hf

theorem get_bind {g : σ → Prog Errno σ α} (h : ∀ s, Through R π (g s)) :
    Through R π (Prog.get >>= g) := B.bind (fun _ => B.refl _) h

/-- A change of the state that asks for nothing. -/
theorem modify {g : σ → σ} (hlog : ∀ s, (π (g s)).io.log = (π s).io.log)
    (hmove : ∀ s, (π (g s)).io.nmove = (π s).io.nmove) (hvn : ∀ s, (π s).io.nvn ≤ (π (g s)).io.nvn) :
    Through R π (Prog.modify g : Prog Errno σ Unit) := fun s => B.quiet (hlog s) (hmove s) (hvn s)

end

/-! ## Clusters and the FAT -/

theorem askCluster (c : Nat) : Through R id (askCluster c) :=
  B.modify (fun _ => rfl) (fun _ => rfl) fun _ => Nat.le_refl _

theorem readCluster (c : Nat) : Through R id (readCluster fsi c) :=
  B.bind (B.askCluster c) fun _ => B.cluster _

theorem rmwCluster (c : Nat) (new : Option Nat) : Through R id (rmwCluster fsi c new) := by
  have hcopies (x o n : Nat) : ∀ s b, Through R id (rmwCopies fsi x o n s b) := by
    induction n with
    | zero => exact fun _ _ => B.pure _
    | succ n ih =>
      exact fun s b => B.bind (B.bdwrite _) fun _ => .ite (fun _ => B.pure _) fun _ =>
        B.bind (B.bread _) fun _ => ih _ _
  refine .ite (fun _ => B.fail _) fun _ => B.bind (B.bread _) fun b => ?_
  cases new with
  | none => exact B.pure _
  | some x => exact B.bind (hcopies _ _ _ _ _) fun _ => B.pure _

theorem clearLoop (n : Nat) : ∀ s, Through R id (clearLoop s n) := by
  induction n with
  | zero => exact fun _ => B.pure _
  | succ n ih => exact fun s => B.bind (B.getblk _) fun _ => B.bind (B.bdwrite _) fun _ => ih _

theorem clearCluster (c : Nat) : Through R id (clearCluster fsi c) :=
  B.bind (B.askCluster c) fun _ => B.clearLoop _ _

theorem searchFree (start n : Nat) : ∀ c, Through R id (searchFree fsi start n c) := by
  induction n with
  | zero => exact fun _ => B.fail _
  | succ n ih =>
    exact fun c => B.bind (B.rmwCluster _ _) fun _ => .ite (fun _ => B.pure _) fun _ =>
      .ite (fun _ => B.fail _) fun _ => ih _

theorem setCounters (n m : Nat) :
    Through R id (Prog.modify fun v : Vol => { v with freeCount := n, nextFree := m }) :=
  B.modify (fun _ => rfl) (fun _ => rfl) fun _ => Nat.le_refl _

theorem setFreeCount (n : Nat) :
    Through R id (Prog.modify fun v : Vol => { v with freeCount := n }) :=
  B.modify (fun _ => rfl) (fun _ => rfl) fun _ => Nat.le_refl _

theorem allocateCluster (p : Nat) (fl : NcFlags) : Through R id (allocateCluster fsi p fl) := by
  refine B.get_bind fun v => .ite (fun _ => B.fail _) fun _ => B.bind (B.searchFree _ _ _) fun r =>
    B.bind (B.rmwCluster _ _) fun _ =>
    B.bind (.ite (fun _ => .attempt (B.rmwCluster _ _)) fun _ => B.pure _) fun linked => ?_
  cases linked with
  | error e => exact B.bind (.attempt (B.rmwCluster _ _)) fun _ => B.fail _
  | ok _ =>
    exact B.bind (B.bread _) fun _ => B.bind (B.bdwrite _) fun _ =>
      B.bind (B.setCounters _ _) fun _ =>
      .ite (fun _ => B.bind (B.clearCluster _) fun _ => B.pure _) fun _ => B.pure _

theorem nextCluster (c : Nat) (fl : NcFlags) : Through R id (nextCluster fsi c fl) := by
  refine .ite (fun _ => .ite (fun _ => B.fail _) fun _ => B.allocateCluster _ _) fun _ =>
    .ite (fun _ => B.fail _) fun _ => B.bind (B.rmwCluster _ _) fun x => ?_
  exact .ite (fun _ => .ite (fun _ => B.fail _) fun _ => B.allocateCluster _ _) fun _ =>
    .ite (fun _ => B.fail _) fun _ => .ite (fun _ => B.fail _) fun _ =>
    .ite (fun _ => B.fail _) fun _ => B.pure _

theorem freeClusters (c : Nat) (all : Bool) : Through R id (freeClusters fsi c all) := by
  have hloop (n : Nat) : ∀ c k, Through R id (freeLoop fsi n c k) := by
    induction n with
    | zero => exact fun _ _ => B.hang
    | succ n ih =>
      exact fun c k => .ite (fun _ => B.bind (B.rmwCluster _ _) fun _ => ih _ _) fun _ => B.pure _
  have hupdate (n : Nat) : Through R id (freeUpdate fsi n) := by
    refine .ite (fun _ => B.bind (.attempt (B.bread _)) fun r => ?_) fun _ => B.pure _
    cases r with
    | error e => exact B.pure _
    | ok bp =>
      exact B.get_bind fun _ => .ite (fun _ => B.bind (B.bdwrite _) fun _ => B.setFreeCount _)
        fun _ => B.pure _
  exact .ite (fun _ => B.fail _) fun _ =>
    .ite (fun _ => B.bind (B.rmwCluster _ _) fun _ => .ite (fun _ => B.pure _) fun _ =>
      B.bind (hloop _ _ _) hupdate) fun _ => B.bind (hloop _ _ _) hupdate

theorem seekCluster (c n : Nat) (fl : NcFlags) : Through R id (seekCluster fsi c n fl) := by
  have hloop (n : Nat) : ∀ c, Through R id (seekLoop fsi fl n c) := by
    induction n with
    | zero => exact fun c => B.pure c
    | succ n ih => exact fun c => B.bind (B.nextCluster c fl) ih
  exact .ite (fun _ => B.pure _) fun _ => hloop _ _

/-! ## Vnodes and times -/

theorem nanotime : Through R id (nanotime fsi) := fun _ => B.quiet rfl rfl (Nat.le_refl _)

theorem touch (atime mtime : Bool) (fv : Fv) : Through R id (touch fsi atime mtime fv) :=
  B.bind B.nanotime fun _ => .ite (fun _ => B.pure _) fun _ => B.pure _

theorem modifyFv (f : Fv → Fv) : Through R VnSt.vol (modifyFv f) :=
  B.modify (fun _ => rfl) (fun _ => rfl) fun _ => Nat.le_refl _

theorem touchFv (atime mtime : Bool) : Through R VnSt.vol (touchFv fsi atime mtime) :=
  B.get_bind fun _ => B.bind (.onVol (B.touch _ _ _)) fun _ => B.modifyFv _

theorem vnodeSeekCluster (n : Nat) (fl : NcFlags) :
    Through R VnSt.vol (vnodeSeekCluster fsi n fl) :=
  B.get_bind fun _ => B.bind (.ite (fun _ => .onVol (B.seekCluster _ _ _)) fun _ => B.pure _)
    fun _ => B.bind (B.modifyFv _) fun _ => B.pure _

end FatRel

namespace BlockRel

variable (B : BlockRel fsi R)
include B

section

variable {σ α β : Type} {π : σ → Vol} {m : Prog Errno σ α} {f : α → Prog Errno σ β}

/-- The base of the relation. -/
theorem fat : FatRel fsi R :=
  ⟨B.trans, fun h _ => B.other h, B.bread, B.cluster, B.getblk, B.bdwrite⟩

theorem pure (a : α) : Through R π (Pure.pure a : Prog Errno σ α) := B.fat.pure a

theorem fail (e : Errno) : Through R π (Prog.fail e : Prog Errno σ α) := B.fat.fail e

theorem hang : Through R π (Prog.hang : Prog Errno σ α) := B.fat.hang

theorem bind (hm : Through R π m) (hf : ∀ a, Through R π (f a)) : Through R π (m >>= f) :=
  B.fat.bind hm hf

theorem get_bind {g : σ → Prog Errno σ α} (h : ∀ s, Through R π (g s)) :
    Through R π (Prog.get >>= g) := B.fat.get_bind h

/-- A change of the state that asks nothing of the cache. -/
theorem modify {g : σ → σ} (h : ∀ s, (π (g s)).io.log = (π s).io.log)
    (hvn : ∀ s, (π s).io.nvn ≤ (π (g s)).io.nvn) :
    Through R π (Prog.modify g : Prog Errno σ Unit) := fun s => B.other (h s) (hvn s)

end

theorem readCluster (c : Nat) : Through R id (readCluster fsi c) := B.fat.readCluster c

theorem clearCluster (c : Nat) : Through R id (clearCluster fsi c) := B.fat.clearCluster c

theorem nextCluster (c : Nat) (fl : NcFlags) : Through R id (nextCluster fsi c fl) :=
  B.fat.nextCluster c fl

theorem freeClusters (c : Nat) (all : Bool) : Through R id (freeClusters fsi c all) :=
  B.fat.freeClusters c all

theorem seekCluster (c n : Nat) (fl : NcFlags) : Through R id (seekCluster fsi c n fl) :=
  B.fat.seekCluster c n fl

/-! ## Vnodes -/

theorem nanotime : Through R id (nanotime fsi) := B.fat.nanotime

theorem vnAlloc : Through R id (vnAlloc fsi) := fun v => B.other rfl (Nat.le_succ v.io.nvn)

theorem uiomove : Through R id (uiomove fsi) := by
  intro v
  unfold Fat32.uiomove
  dsimp only
  split
  · exact B.other rfl (Nat.le_refl _)
  · exact B.other rfl (Nat.le_refl _)

theorem touch (atime mtime : Bool) (fv : Fv) : Through R id (touch fsi atime mtime fv) :=
  B.fat.touch atime mtime fv

theorem makeVnode (c : Nat) (type : Vtype) (fv : Fv) (parent : Option (Nat × Nat)) :
    Through R id (makeVnode fsi c type fv parent) := by
  refine B.bind B.vnAlloc fun r => ?_
  cases r with
  | none => exact B.fail _
  | some vp => exact B.pure _

theorem modifyFv (f : Fv → Fv) : Through R VnSt.vol (modifyFv f) := B.fat.modifyFv f

theorem touchFv (atime mtime : Bool) : Through R VnSt.vol (touchFv fsi atime mtime) :=
  B.fat.touchFv atime mtime

theorem vnodeSeekCluster (n : Nat) (fl : NcFlags) :
    Through R VnSt.vol (vnodeSeekCluster fsi n fl) := B.fat.vnodeSeekCluster n fl

theorem truncate (size : Nat) : Through R VnSt.vol (truncate fsi size) := by
  have hzero : Through R VnSt.vol (truncateZero fsi) :=
    B.get_bind fun _ => .ite (fun _ => B.bind (.onVol (B.freeClusters _ _)) fun _ =>
      B.bind (B.modifyFv _) fun _ => B.modifyFv _) fun _ => B.modifyFv _
  have hfirst (fl : NcFlags) : Through R VnSt.vol (firstCluster fsi fl) :=
    B.get_bind fun _ => .ite (fun _ => B.bind (.onVol (B.nextCluster _ _)) fun _ => B.modifyFv _)
      fun _ => B.pure _
  have hextra (n c : Nat) : Through R VnSt.vol (freeExtra fsi n c) := by
    refine B.bind (.attempt (.onVol (B.nextCluster _ _))) fun r => ?_
    cases r with
    | error e => exact .ite (fun _ => B.pure _) fun _ => B.fail _
    | ok next =>
      exact .ite (fun _ => B.bind (.onVol (B.freeClusters _ _)) fun _ => B.modifyFv _)
        fun _ => B.pure _
  exact .ite (fun _ => hzero) fun _ => B.get_bind fun _ => B.bind (hfirst _) fun _ =>
    B.bind (B.vnodeSeekCluster _ _) fun _ => B.bind (hextra _ _) fun _ => B.modifyFv _

theorem updateFdentry : Through R VnSt.vol (updateFdentry fsi) := by
  refine B.get_bind fun s => .ite (fun _ => B.pure _) fun _ => .ite (fun _ => B.modifyFv _) fun _ =>
    .ite (fun _ => B.bind (B.modifyFv _) fun _ => B.fail _) fun _ => ?_
  exact B.bind (.onVol (B.seekCluster _ _ _)) fun _ => B.bind (.onVol (B.readCluster _)) fun _ =>
    B.bind (B.modifyFv _) fun _ => .onVol (B.bdwrite _)

theorem readFdentry (d o : Nat) : Through R id (readFdentry fsi d o) :=
  B.bind (B.seekCluster _ _ _) fun _ => B.bind (B.readCluster _) fun _ => B.pure _

theorem writeFdentry (d o : Nat) (s : Slot) : Through R id (writeFdentry fsi d o s) :=
  B.bind (B.seekCluster _ _ _) fun _ => B.bind (B.readCluster _) fun _ => B.bdwrite _

/-! ## Directories -/

theorem getDirent (o : Nat) (d : DName) (efv : Option Fv) :
    Through R VnSt.vol (getDirent fsi o d efv) := by
  have hloop (dn n : Nat) : ∀ c o st, Through R id (getDirentLoop fsi dn n c o st) := by
    induction n with
    | zero => exact fun _ _ _ => B.hang
    | succ n ih =>
      intro c o st
      unfold getDirentLoop
      refine B.bind (B.readCluster c) fun bp => ?_
      split
      · exact B.fail _
      · exact B.pure _
      · refine B.bind (.attempt (B.nextCluster c _)) fun r => ?_
        cases r with
        | error e => exact B.fail _
        | ok next => exact ih _ _ _
  refine B.get_bind fun s => .ite (fun _ => B.fail _) fun _ =>
    B.bind (.attempt (B.vnodeSeekCluster _ _)) fun r => ?_
  cases r with
  | error e => exact B.fail _
  | ok c => exact B.bind (.onVol (hloop _ _ _ _ _)) fun _ => B.pure _

theorem findDirent (name : List UInt8) (efv : Fv) :
    Through R VnSt.vol (findDirent fsi name efv) := by
  have hloop (name : List UInt8) (n : Nat) :
      ∀ o d efv, Through R VnSt.vol (findLoop fsi name n o d efv) := by
    induction n with
    | zero => exact fun _ _ _ => B.hang
    | succ n ih =>
      exact fun o d efv => B.bind (B.getDirent _ _ _) fun _ =>
        .ite (fun _ => B.pure _) fun _ => ih _ _ _
  exact B.get_bind fun _ => .ite (fun _ => B.fail _) fun _ => hloop _ _ _ _ _

theorem initDir (c parent : Nat) : Through R id (initDir fsi c parent) :=
  B.bind (B.clearCluster c) fun _ => B.bind B.nanotime fun _ =>
    B.bind (B.writeFdentry _ _ _) fun _ => B.writeFdentry _ _ _

theorem allocFdentry (num : Nat) : Through R VnSt.vol (allocFdentry fsi num) := by
  have hfirst : Through R VnSt.vol (allocFirst fsi) := by
    refine B.bind (.onVol (B.nextCluster _ _)) fun c => B.get_bind fun s =>
      .ite (fun _ => B.bind (.attempt (.onVol (B.freeClusters _ _))) fun _ => B.fail _) fun _ =>
      B.bind (.attempt (.onVol (B.initDir _ _))) fun r => ?_
    cases r with
    | error e => exact B.bind (.attempt (.onVol (B.freeClusters _ _))) fun _ => B.fail _
    | ok _ => exact B.bind (B.modifyFv _) fun _ => B.pure _
  have hgrow (n : Nat) : ∀ c, Through R id (growLoop fsi n c) := by
    induction n with
    | zero => exact fun _ => B.pure _
    | succ n ih => exact fun c => B.bind (B.nextCluster _ _) ih
  have hloop (n : Nat) : ∀ c cur run found,
      Through R id (allocLoop fsi num n c cur run found) := by
    induction n with
    | zero => exact fun _ _ _ _ => B.hang
    | succ n ih =>
      intro c cur run found
      unfold allocLoop
      refine B.bind (.ite (fun _ => B.pure _) fun _ =>
        B.bind (B.readCluster c) fun _ => B.pure _) fun step => ?_
      have hnext (run : Run) (found : Bool) {k : Except Errno Nat → FsM (Except Nat AllocEnd)}
          (herr : ∀ e, k (.error e) = Pure.pure (.ok ⟨c, u32 (cur + fsi.bytesPerCluster), run, found⟩))
          (hok : ∀ d, k (.ok d) = Fat32.allocLoop fsi num n d (u32 (cur + fsi.bytesPerCluster)) run found) :
          Through R id (Prog.attempt (Fat32.nextCluster fsi c {}) >>= k) := by
        refine B.bind (.attempt (B.nextCluster _ _)) fun r => ?_
        cases r with
        | error e =>
          rw [herr]
          exact B.pure _
        | ok d =>
          rw [hok]
          exact ih _ _ _ _
      cases step with
      | full start => exact B.pure _
      | last run => exact hnext run true (fun _ => rfl) fun _ => rfl
      | more run => exact hnext run found (fun _ => rfl) fun _ => rfl
  refine B.get_bind fun s => .ite (fun _ => hfirst) fun _ => .onVol (B.bind (hloop _ _ _ _ _) fun r => ?_)
  cases r with
  | error start => exact B.pure _
  | ok e => exact .ite (fun _ => B.bind (hgrow _ _) fun _ => B.pure _) fun _ => B.pure _

theorem createCluster (d : Nat) (flags : CreFlags) (fv : Fv) :
    Through R id (createCluster fsi d flags fv) :=
  .ite (fun _ => B.pure _) fun _ => .ite (fun _ => B.bind (B.nextCluster _ _) fun _ =>
    B.bind (B.initDir _ _) fun _ => B.pure _) fun _ => B.pure _

/-- The part of `createFdentry` after the allocation of the cluster. -/
theorem writeNewEntry (d diroff : Nat) (d83 : Dirent83) (name : List UInt8) (short : Bool) :
    Through R id (if short then Fat32.writeFdentry fsi d diroff d83.toSlot
      else writeLfnFdentry fsi d diroff d83 name) := by
  have hloop (sum : UInt8) (n : Nat) : Through R id (lfnLoop fsi d diroff name sum n) := by
    induction n with
    | zero => exact B.pure _
    | succ n ih => exact B.bind (B.writeFdentry _ _ _) fun _ => ih
  exact .ite (fun _ => B.writeFdentry _ _ _) fun _ =>
    B.bind (hloop _ _) fun _ => B.writeFdentry _ _ _

theorem createFdentry (fv : Fv) (name : List UInt8) (flags : CreFlags) :
    Through R VnSt.vol (createFdentry fsi fv name flags) :=
  B.bind (.ite (fun _ => B.pure _) fun _ => B.allocFdentry _) fun _ => B.get_bind fun _ =>
    B.bind (.onVol (B.createCluster _ _ _)) fun _ =>
    B.bind (.ite (fun _ => B.pure _) fun _ => .onVol B.nanotime) fun _ =>
    B.bind (.onVol (B.writeNewEntry _ _ _ _ _)) fun _ =>
    .ite (fun _ => B.pure _) fun _ => .onVol (B.makeVnode _ _ _ _)

/-! ## Operations on one vnode -/

theorem dirempty (fv : Fv) : Through R id (dirempty fsi fv) := by
  have hloop (n : Nat) : ∀ c, Through R id (emptyLoop fsi n c) := by
    induction n with
    | zero => exact fun _ => B.hang
    | succ n ih =>
      intro c
      unfold emptyLoop
      refine B.bind (.attempt (B.readCluster c)) fun r => ?_
      cases r with
      | error e => exact B.fail _
      | ok bp =>
        dsimp only
        split
        · exact B.pure _
        · exact B.fail _
        · refine B.bind (.attempt (B.nextCluster c _)) fun r => ?_
          cases r with
          | error e => exact B.pure _
          | ok next => exact ih _
  exact .ite (fun _ => B.fail _) fun _ => .ite (fun _ => B.pure _) fun _ => hloop _ _

theorem deleteFdentryChain (d o n : Nat) : Through R id (deleteFdentryChain fsi d o n) := by
  have hloop (n : Nat) : ∀ c b o, Through R id (deleteLoop fsi n c b o) := by
    induction n with
    | zero => exact fun _ b _ => B.bdwrite b
    | succ n ih =>
      intro c b o
      unfold deleteLoop
      refine B.bind (.ite (fun _ => B.bind (B.bdwrite _) fun _ => B.bind (B.nextCluster _ _) fun next =>
        B.bind (B.readCluster next) fun _ => B.pure _) fun _ => B.pure _) fun r => ?_
      exact ih _ _ _
  exact B.bind (B.seekCluster _ _ _) fun _ => B.bind (B.readCluster _) fun _ => hloop _ _ _ _

theorem removeCommon (name : List UInt8) (isDir : Bool) (cdir : Option Nat) (cr : Cred) :
    Through R VnSt.vol (removeCommon fsi name isDir cdir cr) := by
  have hcheck (fv : Fv) : Through R id (removeCheck fsi fv isDir cdir) :=
    .ite (fun _ => .ite (fun _ => B.fail _) fun _ => .ite (fun _ => B.fail _) fun _ => B.dirempty _)
      fun _ => .ite (fun _ => B.fail _) fun _ => B.pure _
  refine .ite (fun _ => B.fail _) fun _ => B.get_bind fun dir => ?_
  cases faccess fsi dir.fv { write := true, exec := true } cr with
  | some e => exact B.fail _
  | none =>
    exact B.bind (B.findDirent _ _) fun fv => B.bind (.onVol (hcheck fv)) fun _ =>
      .ite (fun _ => B.fail _) fun _ => B.bind (.attempt (.onVol (B.deleteFdentryChain _ _ _))) fun _ =>
      B.bind (.ite (fun _ => .attempt (.onVol (B.freeClusters _ _))) fun _ => B.pure _) fun _ =>
      B.touchFv _ _

theorem countLoop (n : Nat) : ∀ c num, Through R id (countLoop fsi n c num) := by
  induction n with
  | zero => exact fun _ _ => B.hang
  | succ n ih =>
    intro c num
    refine .ite (fun _ => B.bind (.attempt (B.nextCluster c _)) fun r => ?_) fun _ => B.pure _
    cases r with
    | error e => exact B.pure _
    | ok next => exact ih _ _

theorem getattr : Through R VnSt.vol (getattr fsi) :=
  B.get_bind fun _ => .ite (fun _ => B.bind (.onVol (B.countLoop _ _ _)) fun _ => B.pure _)
    fun _ => B.pure _

theorem setattrFv (vap : Vattr) : Through R VnSt.vol (setattrFv fsi vap) :=
  B.get_bind fun _ => .ite (fun _ => B.fail _) fun _ =>
    .ite (fun _ => .ite (fun _ => B.bind (B.fail _) fun _ => B.modifyFv _) fun _ =>
      B.bind (B.truncate _) fun _ => B.modifyFv _) fun _ => B.modifyFv _

theorem emitEntry (d : Dirent) (name : DName) (next : Nat) (st : Readdir) :
    Through R id (emitEntry fsi d name next st) := by
  have hemit (a b : Nat) : Through R id (emitDirent fsi a b) :=
    .ite (fun _ => B.fail _) fun _ => B.bind B.uiomove fun _ => B.bind B.uiomove fun _ =>
      .ite (fun _ => B.bind B.uiomove fun _ => B.pure _) fun _ => B.pure _
  refine B.bind (.attempt (hemit _ _)) fun r => ?_
  cases r with
  | error e => exact B.pure _
  | ok resid => exact B.pure _

theorem readdir (offset resid : Nat) : Through R VnSt.vol (readdir fsi offset resid) := by
  have hloop (n : Nat) : ∀ st, Through R VnSt.vol (readdirLoop fsi n st) := by
    induction n with
    | zero => exact fun _ => B.hang
    | succ n ih =>
      intro st
      have hgo (r : Bool × Readdir) :
          Through R VnSt.vol (if r.1 then readdirLoop fsi n r.2 else Pure.pure r.2) :=
        .ite (fun _ => ih _) fun _ => B.pure _
      refine .ite (fun _ => B.pure _) fun _ => B.get_bind fun s =>
        .ite (fun _ => B.bind (.onVol (B.emitEntry _ _ _ _)) hgo) fun _ =>
        .ite (fun _ => B.bind (.onVol (B.emitEntry _ _ _ _)) hgo) fun _ =>
        B.bind (.attempt (B.getDirent _ _ _)) fun r => ?_
      cases r with
      | error e => exact .ite (fun _ => B.pure _) fun _ => B.pure _
      | ok out => exact B.bind (.onVol (B.emitEntry _ _ _ _)) hgo
  exact B.get_bind fun _ => .ite (fun _ => B.fail _) fun _ => hloop _ _

theorem uiomoveOut (data : Nat → UInt8) (n : Nat) :
    Through R (fun s : RwSt => s.vn.vol) (uiomoveOut fsi data n) :=
  B.bind (.onVn (.onVol B.uiomove)) fun _ => B.modify (fun _ => rfl) fun _ => Nat.le_refl _

theorem uiomoveIn (data : Nat → UInt8) (o n : Nat) :
    Through R (fun s : RwSt => s.vn.vol) (uiomoveIn fsi data o n) :=
  B.bind (.onVn (.onVol B.uiomove)) fun _ => B.get_bind fun _ =>
    B.bind (B.modify (fun _ => rfl) fun _ => Nat.le_refl _) fun _ => B.pure _

theorem read : Through R (fun s : RwSt => s.vn.vol) (read fsi) := by
  have hloop (n : Nat) : ∀ c k o r, Through R (fun s : RwSt => s.vn.vol) (readLoop fsi n c k o r) := by
    induction n with
    | zero => exact fun _ _ _ _ => B.hang
    | succ n ih =>
      intro c k o r
      refine B.bind (.onVn (.onVol (B.readCluster c))) fun bp => B.bind (B.uiomoveOut _ _) fun _ =>
        .ite (fun _ => B.pure _) fun _ =>
        B.bind (.attempt (.onVn (.onVol (B.nextCluster _ _)))) fun r => ?_
      cases r with
      | error e => exact B.fail _
      | ok next => exact ih _ _ _ _
  exact B.get_bind fun _ => .ite (fun _ => B.fail _) fun _ => B.bind (.onVn (B.touchFv _ _)) fun _ =>
    .ite (fun _ => B.fail _) fun _ => .ite (fun _ => B.pure _) fun _ => .ite (fun _ => B.pure _)
    fun _ => B.bind (.onVn (B.vnodeSeekCluster _ _)) fun _ => B.bind (hloop _ _ _ _ _) fun _ =>
    .onVn (B.modifyFv _)

theorem write (append : Bool) : Through R (fun s : RwSt => s.vn.vol) (write fsi append) := by
  have hgrow : Through R (fun s : RwSt => s.vn.vol) growSize := by
    refine B.modify (fun s => ?_) fun s => ?_
    · split <;> rfl
    · split <;> exact Nat.le_refl _
  have hloop (n : Nat) : ∀ c k o r, Through R (fun s : RwSt => s.vn.vol) (writeLoop fsi n c k o r) := by
    induction n with
    | zero => exact fun _ _ _ _ => B.hang
    | succ n ih =>
      exact fun c k o r => B.bind (.onVn (.onVol (B.readCluster c))) fun bp =>
        B.bind (B.uiomoveIn _ _ _) fun _ => B.bind (.onVn (.onVol (B.bdwrite _))) fun _ =>
        B.bind hgrow fun _ => .ite (fun _ => B.pure _) fun _ =>
        B.bind (.onVn (.onVol (B.nextCluster _ _))) fun next => ih _ _ _ _
  have hfirst : Through R VnSt.vol (writeFirst fsi) :=
    B.get_bind fun _ => .ite (fun _ => B.bind (.onVol (B.nextCluster _ _)) fun _ => B.modifyFv _)
      fun _ => B.pure _
  have hoffset (o : Int) : Through R (fun s : RwSt => s.vn.vol)
      (Prog.modify fun s : RwSt => { s with uio := { s.uio with offset := o } }) :=
    B.modify (fun _ => rfl) fun _ => Nat.le_refl _
  exact B.get_bind fun _ => .ite (fun _ => B.fail _) fun _ => B.bind (.onVn (B.touchFv _ _)) fun _ =>
    .ite (fun _ => B.pure _) fun _ => B.bind (hoffset _) fun _ => B.bind (.onVn hfirst) fun _ =>
    B.bind (.onVn (B.vnodeSeekCluster _ _)) fun _ => B.bind (hloop _ _ _ _ _) fun _ =>
    .onVn (B.modifyFv _)

/-! ## The system -/

theorem onVnode {α : Type} (p : Nat) {m : FvM α} (h : Through R VnSt.vol m) :
    Through R Sys.vol (onVnode p m) := by
  intro s
  show R s.vol (Fat32.onVnode p m s).2.vol
  unfold Fat32.onVnode
  cases s.vnodes p with
  | none => exact B.fat.refl _
  | some fv => exact h ⟨s.vol, fv⟩

theorem getVnode (p : Nat) : Through R Sys.vol (getVnode p) := by
  intro s
  unfold Fat32.getVnode
  split <;> exact B.fat.refl _

theorem vnHold (p : Nat) : Through R Sys.vol (vnHold p) := B.modify (fun _ => rfl) fun _ => Nat.le_refl _

theorem vnRele (p : Nat) : Through R Sys.vol (vnRele p) := B.modify (fun _ => rfl) fun _ => Nat.le_refl _

theorem attach (fv : Fv) : Through R Sys.vol (attach fv) := by
  unfold Fat32.attach
  cases fv.vnode with
  | none => exact B.pure _
  | some vp =>
    refine B.bind (B.modify (fun _ => rfl) fun _ => Nat.le_refl _) fun _ => ?_
    cases fv.parentVp with
    | none => exact B.pure _
    | some q => exact B.bind (B.vnHold q) fun _ => B.pure _

theorem makeEntryVnode (dir fv : Fv) : Through R Sys.vol (makeEntryVnode fsi dir fv) :=
  B.bind (.onSysVol (B.makeVnode _ _ _ _)) fun _ => B.attach _

theorem makeRoot : Through R Sys.vol (makeRoot fsi) :=
  B.bind (.onSysVol (B.makeVnode _ _ _ _)) fun _ => B.attach _

theorem lookup (dir : Nat) (nm : List UInt8) : Through R Sys.vol (lookup fsi dir nm) := by
  refine B.bind (B.getVnode dir) fun dirFv => .ite (fun _ => B.fail _) fun _ =>
    .ite (fun _ => B.bind (B.vnHold _) fun _ => B.pure _) fun _ =>
    .ite (fun _ => .ite (fun _ => B.pure _) fun _ => ?_) fun _ =>
    B.bind (B.onVnode dir (B.findDirent _ _)) fun _ => B.makeEntryVnode _ _
  cases dirFv.parentVp with
  | none => exact B.fail _
  | some q => exact B.bind (B.vnHold q) fun _ => B.pure _

theorem createExisting (dir : Nat) (dirFv fv : Fv) (vap : Vattr) (excl : Bool) (mode : Access)
    (cr : Cred) : Through R Sys.vol (createExisting fsi dir dirFv fv vap excl mode cr) := by
  refine .ite (fun _ => .ite (fun _ => B.fail _) fun _ => B.makeEntryVnode _ _) fun _ =>
    .ite (fun _ => B.fail _) fun _ => ?_
  cases faccess fsi fv mode cr with
  | some e => exact B.fail _
  | none =>
    refine B.bind (.onSysVol (.withFv _ (.ite (fun _ => B.truncate _) fun _ => B.pure _))) fun r => ?_
    exact B.bind (.onSysVol (B.touch _ _ _)) fun _ => B.bind (B.onVnode _ (B.touchFv _ _)) fun _ =>
      B.makeEntryVnode _ _

theorem createNew (dir : Nat) (name : List UInt8) (mode : Nat) (flags : CreFlags) :
    Through R Sys.vol (createNew fsi dir name mode flags) :=
  B.bind (B.onVnode _ (B.createFdentry _ _ _)) fun _ => B.bind (.onSysVol (B.touch _ _ _)) fun _ =>
    B.bind (B.onVnode _ (B.touchFv _ _)) fun _ => B.attach _

theorem create (dir : Nat) (name : List UInt8) (vap : Vattr) (excl : Bool) (mode : Access)
    (cr : Cred) : Through R Sys.vol (create fsi dir name vap excl mode cr) := by
  refine B.bind (B.getVnode dir) fun dirFv => .ite (fun _ => B.fail _) fun _ => ?_
  cases faccess fsi dirFv { write := true, exec := true } cr with
  | some e => exact B.fail _
  | none =>
    refine B.bind (.attempt (B.onVnode _ (B.findDirent _ _))) fun r => ?_
    cases r with
    | ok fv => exact B.createExisting _ _ _ _ _ _ _
    | error e => exact .ite (fun _ => B.fail _) fun _ => B.createNew _ _ _ _

theorem mkdir (dir : Nat) (name : List UInt8) (vap : Vattr) (cr : Cred) :
    Through R Sys.vol (mkdir fsi dir name vap cr) := by
  refine B.bind (B.getVnode dir) fun dirFv => .ite (fun _ => B.fail _) fun _ => ?_
  cases faccess fsi dirFv { write := true, exec := true } cr with
  | some e => exact B.fail _
  | none =>
    refine B.bind (.attempt (B.onVnode _ (B.findDirent _ _))) fun r => ?_
    cases r with
    | ok fv => exact .ite (fun _ => B.fail _) fun _ => B.fail _
    | error e => exact .ite (fun _ => B.fail _) fun _ => B.createNew _ _ _ _

theorem rmdir (dir : Nat) (nm : List UInt8) (cdir : Option Nat) (cr : Cred) :
    Through R Sys.vol (rmdir fsi dir nm cdir cr) := by
  refine B.bind ?_ fun _ => B.onVnode _ (B.removeCommon _ _ _ _)
  cases cdir with
  | none => exact B.pure _
  | some p => exact B.bind (B.getVnode p) fun _ => B.pure _

theorem rename (sdir : Nat) (snm : List UInt8) (tdir : Nat) (tnm : List UInt8) (cr : Cred) :
    Through R Sys.vol (rename fsi sdir snm tdir tnm cr) := by
  have hrest (target fv : Fv) : Through R Sys.vol
      (Fat32.onVnode tdir (Fat32.removeCommon fsi tnm (target.type = .vdir) none cr)) :=
    B.onVnode _ (B.removeCommon _ _ _ _)
  have htarget (fv : Fv) : Through R Sys.vol (renameTarget fsi tdir tnm fv cr) := by
    refine B.bind (.attempt (B.onVnode _ (B.findDirent _ _))) fun r => ?_
    cases r with
    | error e => exact .ite (fun _ => B.fail _) fun _ => B.pure _
    | ok target =>
      refine .ite (fun _ => .ite (fun _ => B.bind (B.fail _) fun _ => hrest target fv) fun _ =>
        B.bind (.attempt (.onSysVol (B.dirempty _))) fun r => ?_) fun _ =>
        .ite (fun _ => B.bind (B.fail _) fun _ => hrest target fv) fun _ => hrest target fv
      cases r with
      | ok _ => exact B.bind (B.fail _) fun _ => hrest target fv
      | error e => exact hrest target fv
  have hreuse (fv : Fv) : Through R VnSt.vol (renameReuse fsi fv tnm) :=
    B.bind (B.createFdentry _ _ _) fun _ => .ite (fun _ => B.get_bind fun _ =>
      B.bind (.attempt (.onVol (B.deleteFdentryChain _ _ _))) fun _ => B.pure _) fun _ => B.pure _
  have hdotdot (c parent : Nat) : Through R id (renameDotdot fsi c parent) := by
    refine .ite (fun _ => B.pure _) fun _ => B.bind (.attempt (B.readFdentry _ _)) fun r => ?_
    cases r with
    | error e => exact B.pure _
    | ok s => exact B.bind (.attempt (B.writeFdentry _ _ _)) fun _ => B.pure _
  -- what is left once the entry is in its new place
  have htouch (same : Bool) : Through R Sys.vol (do
      Fat32.onVnode sdir (Fat32.touchFv fsi false true)
      if ¬ same then Fat32.onVnode tdir (Fat32.touchFv fsi false true) else Pure.pure ()) :=
    B.bind (B.onVnode _ (B.touchFv _ _)) fun _ =>
      .ite (fun _ => B.onVnode _ (B.touchFv _ _)) fun _ => B.pure _
  have hafter (fv : Fv) (same : Bool) : Through R Sys.vol (do
      let tdvp ← Fat32.getVnode tdir
      if fv.type = .vdir ∧ ¬ same then
        Fat32.onSysVol (Fat32.renameDotdot fsi fv.cluster tdvp.cluster)
      else Pure.pure ()
      Fat32.onVnode sdir (Fat32.touchFv fsi false true)
      if ¬ same then Fat32.onVnode tdir (Fat32.touchFv fsi false true) else Pure.pure ()) :=
    B.bind (B.getVnode tdir) fun _ => .ite (fun _ =>
      B.bind (.onSysVol (hdotdot _ _)) fun _ => htouch same) fun _ => htouch same
  refine B.bind (B.getVnode sdir) fun sdvp => B.bind (B.getVnode tdir) fun tdvp =>
    .ite (fun _ => B.pure _) fun _ => B.bind (B.onVnode _ (B.findDirent _ _)) fun fv =>
    B.bind (htarget fv) fun _ => .ite (fun _ =>
      B.bind (B.onVnode _ (hreuse fv)) fun _ => hafter fv _) fun _ => ?_
  exact B.bind (B.getVnode sdir) fun _ => B.bind (.onSysVol (B.deleteFdentryChain _ _ _)) fun _ =>
    B.bind (B.onVnode _ (B.createFdentry _ _ _)) fun _ => hafter fv _

theorem syncMetadata (p : Nat) : Through R Sys.vol (syncMetadata fsi p) := by
  refine B.bind (B.getVnode p) fun fv => ?_
  cases fv.parentVp with
  | none => exact B.onVnode p B.updateFdentry
  | some q => exact B.bind (B.getVnode q) fun _ => B.onVnode p B.updateFdentry

theorem flushDirty (p : Nat) : Through R Sys.vol (flushDirty fsi p) :=
  B.bind (B.getVnode p) fun _ => .ite (fun _ => B.bind (.attempt (B.syncMetadata p)) fun _ => B.pure _)
    fun _ => B.pure _

theorem inactive (p : Nat) : Through R Sys.vol (inactive fsi p) := by
  have hdown : Through R Sys.vol (Prog.modify fun s : Sys =>
      { s with vnodes := Function.update s.vnodes p none }) := B.modify (fun _ => rfl) fun _ => Nat.le_refl _
  refine B.bind (B.getVnode p) fun fv => B.get_bind fun _ => .ite (fun _ => B.pure _) fun _ =>
    B.bind (B.flushDirty p) fun _ => ?_
  cases fv.parentVp with
  | none => exact hdown
  | some q => exact B.bind (B.vnRele q) fun _ => hdown

theorem rwVnode (p : Nat) {m : RwM Unit} (h : Through R (fun s : RwSt => s.vn.vol) m) (uio : Uio) :
    Through R Sys.vol (rwVnode p m uio) := B.onVnode p fun s => h ⟨s, uio⟩

/-- Every operation keeps the relation. -/
theorem exec (op : VnOp) : Through R Sys.vol (op.exec fsi) := by
  cases op with
  | lookup dir nm => exact B.bind (B.lookup _ _) fun _ => B.pure _
  | read p uio => exact B.rwVnode p B.read uio
  | write p append uio => exact B.rwVnode p (B.write append) uio
  | readdir p offset resid => exact B.bind (B.onVnode p (B.readdir _ _)) fun _ => B.pure _
  | getattr p => exact B.bind (B.onVnode p B.getattr) fun _ => B.pure _
  | setattr p vap =>
    exact B.bind (B.onVnode p (B.setattrFv vap)) fun _ => B.bind (B.getVnode p) fun _ =>
      .ite (fun _ => B.syncMetadata p) fun _ => B.pure _
  | create dir name vap excl mode cr => exact B.bind (B.create _ _ _ _ _ _) fun _ => B.pure _
  | mkdir dir dirname vap cr => exact B.bind (B.mkdir _ _ _ _) fun _ => B.pure _
  | remove dir nm cr => exact B.onVnode dir (B.removeCommon _ _ _ _)
  | rmdir dir nm cdir cr => exact B.rmdir _ _ _ _
  | rename sdir snm tdir tnm cr => exact B.rename _ _ _ _ _
  | fsync p => exact B.flushDirty p
  | close p lastclose =>
    exact B.bind (B.getVnode p) fun _ => .ite (fun _ => B.flushDirty p) fun _ => B.pure _
  | inactive p => exact B.inactive p
  | hold p => exact B.vnHold p
  | rele p => exact B.vnRele p

/-- So does every run. -/
theorem runOps (ops : List VnOp) (s : Sys) : R s.vol (runOps fsi s ops).vol := by
  induction ops generalizing s with
  | nil => exact B.fat.refl _
  | cons op ops ih => exact B.trans (B.exec op s) (ih _)

theorem run (vol : Vol) (ops : List VnOp) :
    R vol (Fat32.runOps fsi (mounted fsi vol) ops).vol := by
  have hmount : R vol (mounted fsi vol).vol := B.makeRoot ⟨vol, fun _ => none, fun _ => 0⟩
  exact B.trans hmount (B.runOps ops _)

end BlockRel

end Fat32
