import Mathlib
import Fat32.Proof.System
import Fat32.Proof.Fat

/-!
# Programs that only read

`Quiet π m`: every run of `m` only reads the disk, the volume being the part `π`
of its state. It is closed under what programs are built from, and holds of all
searches, of `read`, `readdir`, `getattr` and `lookup`, and on a read-only mount
of everything that asks for write permission first.
-/

namespace Fat32

open Bytes Exec Prog

/-- The disk and the counters are the same, and all requests were reads. -/
structure NoWrite (v v' : Vol) : Prop where
  same : Same v v'
  log : ∃ rs, v'.io.log = rs ++ v.io.log ∧ ∀ r ∈ rs, ∃ s n, r = .bread s n

theorem NoWrite.refl (v : Vol) : NoWrite v v := ⟨.refl v, [], rfl, nofun⟩

theorem NoWrite.trans {u v w : Vol} (h : NoWrite u v) (k : NoWrite v w) : NoWrite u w := by
  obtain ⟨hs, rs, hr, hb⟩ := h
  obtain ⟨ks, qs, kr, kb⟩ := k
  refine ⟨hs.trans ks, qs ++ rs, by rw [kr, hr, List.append_assoc], fun r hmem => ?_⟩
  rcases List.mem_append.mp hmem with h | h
  · exact kb r h
  · exact hb r h

def Quiet {σ α : Type} (π : σ → Vol) (m : Prog Errno σ α) : Prop :=
  Keeps (fun s t => NoWrite (π s) (π t)) m

namespace Quiet

variable {σ τ α β : Type} {π : σ → Vol} {ρ : τ → Vol} {m m' : Prog Errno σ α}
  {f : α → Prog Errno σ β}

theorem pure (a : α) : Quiet π (Pure.pure a : Prog Errno σ α) := Keeps.pure (fun _ => .refl _) a

theorem fail (e : Errno) : Quiet π (Prog.fail e : Prog Errno σ α) := Keeps.fail (fun _ => .refl _) e

theorem hang : Quiet π (Prog.hang : Prog Errno σ α) := Keeps.hang fun _ => .refl _

theorem get : Quiet π (Prog.get : Prog Errno σ σ) := Keeps.get fun _ => .refl _

theorem bind (hm : Quiet π m) (hf : ∀ a, Quiet π (f a)) : Quiet π (m >>= f) :=
  Keeps.bind (R := fun s t => NoWrite (π s) (π t)) (fun h k => h.trans k) hm hf

theorem attempt (hm : Quiet π m) : Quiet π (Prog.attempt m) := Keeps.attempt hm

theorem ite {c : Prop} [Decidable c] (hm : c → Quiet π m) (hm' : ¬ c → Quiet π m') :
    Quiet π (if c then m else m') := Keeps.ite hm hm'

/-- A change of something else than the volume. -/
theorem modify {g : σ → σ} (hg : ∀ s, π (g s) = π s) : Quiet π (Prog.modify g) := by
  intro s
  show NoWrite (π s) (π (g s))
  rw [hg]
  exact .refl _

theorem on {proj : τ → σ} {put : σ → τ → τ} (hm : Quiet π m) (hproj : ∀ t, π (proj t) = ρ t)
    (hput : ∀ s t, ρ (put s t) = π s) : Quiet ρ (Prog.on proj put m) := by
  intro t
  have h : NoWrite (π (proj t)) (π (m (proj t)).2) := hm (proj t)
  rw [hproj] at h
  show NoWrite (ρ t) (ρ (put (m (proj t)).2 t))
  rwa [hput]

end Quiet

variable {fsi : Fsi} {α : Type}

/-! ## The volume -/

theorem bread_quiet (s n : Nat) : Quiet id (bread fsi s n) := by
  intro v
  have h : NoWrite v { v with io := { v.io with
      nread := v.io.nread + 1, log := .bread s n :: v.io.log } } :=
    ⟨⟨rfl, rfl, rfl⟩, [.bread s n], rfl, fun r hr => ⟨s, n, List.mem_singleton.mp hr⟩⟩
  unfold bread
  dsimp only
  split <;> exact h

/-- A program that only counts a question to the kernel. -/
theorem io_quiet {m : FsM α} (h : ∀ v, Same v (m v).2 ∧ (m v).2.io.log = v.io.log) :
    Quiet id m := fun v => ⟨(h v).1, [], (h v).2, nofun⟩

theorem nanotime_quiet : Quiet id (nanotime fsi) :=
  io_quiet fun _ => ⟨⟨rfl, rfl, rfl⟩, rfl⟩

theorem uiomove_quiet : Quiet id (uiomove fsi) := by
  refine io_quiet fun v => ?_
  unfold uiomove
  dsimp only
  split <;> exact ⟨⟨rfl, rfl, rfl⟩, rfl⟩

theorem vnAlloc_quiet : Quiet id (vnAlloc fsi) := io_quiet fun _ => ⟨⟨rfl, rfl, rfl⟩, rfl⟩

theorem rmwCluster_quiet (c : Nat) : Quiet id (rmwCluster fsi c none) := by
  unfold rmwCluster
  exact .ite (fun _ => .fail _) fun _ => .bind (bread_quiet _ _) fun _ => .pure _

theorem nextCluster_quiet (c : Nat) {fl : NcFlags} (hfl : fl.alloc = false) :
    Quiet id (nextCluster fsi c fl) := by
  unfold nextCluster
  simp only [hfl, Bool.false_eq_true, not_false_eq_true, if_true]
  refine .ite (fun _ => .fail _) fun _ => .ite (fun _ => .fail _) fun _ => ?_
  refine .bind (rmwCluster_quiet c) fun next => .ite (fun _ => .fail _) fun _ => ?_
  refine .ite (fun _ => .fail _) fun _ => .ite (fun _ => .fail _) fun _ => ?_
  exact .ite (fun _ => .fail _) fun _ => .pure _

theorem seekLoop_quiet {fl : NcFlags} (hfl : fl.alloc = false) (n : Nat) :
    ∀ c, Quiet id (seekLoop fsi fl n c) := by
  induction n with
  | zero => exact fun c => .pure c
  | succ n ih => exact fun c => .bind (nextCluster_quiet c hfl) ih

theorem seekCluster_quiet (c n : Nat) {fl : NcFlags} (hfl : fl.alloc = false) :
    Quiet id (seekCluster fsi c n fl) := by
  unfold seekCluster
  exact .ite (fun _ => .pure _) fun _ => seekLoop_quiet hfl n c

theorem readCluster_quiet (c : Nat) : Quiet id (readCluster fsi c) :=
  .bind (io_quiet fun _ => ⟨⟨rfl, rfl, rfl⟩, rfl⟩) fun _ => bread_quiet _ _

theorem getDirentLoop_quiet (size n : Nat) : ∀ c o st, Quiet id (getDirentLoop fsi size n c o st) := by
  induction n with
  | zero => exact fun _ _ _ => .hang
  | succ n ih =>
    intro c o st
    unfold getDirentLoop
    refine .bind (readCluster_quiet c) fun bp => ?_
    split
    · exact .fail _
    · exact .pure _
    · refine .bind (.attempt (nextCluster_quiet c rfl)) fun r => ?_
      split
      · exact .fail _
      · exact ih _ _ _

theorem emptyLoop_quiet (n : Nat) : ∀ c, Quiet id (emptyLoop fsi n c) := by
  induction n with
  | zero => exact fun _ => .hang
  | succ n ih =>
    intro c
    unfold emptyLoop
    refine .bind (.attempt (readCluster_quiet c)) fun r => ?_
    split
    · exact .fail _
    · split
      · exact .pure _
      · exact .fail _
      · refine .bind (.attempt (nextCluster_quiet c rfl)) fun r => ?_
        split
        · exact .pure _
        · exact ih _

theorem dirempty_quiet (fv : Fv) : Quiet id (dirempty fsi fv) := by
  unfold dirempty
  exact .ite (fun _ => .fail _) fun _ => .ite (fun _ => .pure _) fun _ => emptyLoop_quiet _ _

theorem countLoop_quiet (n : Nat) : ∀ c num, Quiet id (countLoop fsi n c num) := by
  induction n with
  | zero => exact fun _ _ => .hang
  | succ n ih =>
    intro c num
    unfold countLoop
    refine .ite (fun _ => .bind (.attempt (nextCluster_quiet c rfl)) fun r => ?_) fun _ => .pure _
    split
    · exact .pure _
    · exact ih _ _

theorem touch_quiet (atime mtime : Bool) (fv : Fv) : Quiet id (touch fsi atime mtime fv) := by
  unfold touch
  exact .bind nanotime_quiet fun _ => .ite (fun _ => .pure _) fun _ => .pure _

theorem makeVnode_quiet (c : Nat) (type : Vtype) (fv : Fv) (parent : Option (Nat × Nat)) :
    Quiet id (makeVnode fsi c type fv parent) := by
  unfold makeVnode
  refine .bind vnAlloc_quiet fun r => ?_
  split
  · exact .fail _
  · exact .pure _

theorem emitEntry_quiet (d : Dirent) (name : DName) (next : Nat) (st : Readdir) :
    Quiet id (emitEntry fsi d name next st) := by
  have hemit (a b : Nat) : Quiet id (emitDirent fsi a b) := by
    unfold emitDirent
    refine .ite (fun _ => .fail _) fun _ => .bind uiomove_quiet fun _ => ?_
    refine .bind uiomove_quiet fun _ => ?_
    exact .ite (fun _ => .bind uiomove_quiet fun _ => .pure _) fun _ => .pure _
  unfold emitEntry
  refine .bind (.attempt (hemit _ _)) fun r => ?_
  split
  · exact .pure _
  · exact .pure _

/-! ## A vnode -/

theorem onVol_quiet {m : FsM α} (h : Quiet id m) : Quiet VnSt.vol (onVol m) :=
  .on h (fun _ => rfl) fun _ _ => rfl

theorem modifyFv_quiet (f : Fv → Fv) : Quiet VnSt.vol (modifyFv f) := .modify fun _ => rfl

theorem vnodeSeekCluster_quiet (n : Nat) {fl : NcFlags} (hfl : fl.alloc = false) :
    Quiet VnSt.vol (vnodeSeekCluster fsi n fl) := by
  unfold vnodeSeekCluster
  refine .bind .get fun s => .bind (.ite (fun _ => ?_) fun _ => .pure _) fun c => ?_
  · exact onVol_quiet (seekCluster_quiet _ _ hfl)
  · exact .bind (modifyFv_quiet _) fun _ => .pure _

theorem getDirent_quiet (offset : Nat) (dName : DName) (fv : Option Fv) :
    Quiet VnSt.vol (getDirent fsi offset dName fv) := by
  unfold getDirent
  refine .bind .get fun s => .ite (fun _ => .fail _) fun _ => ?_
  refine .bind (.attempt (vnodeSeekCluster_quiet _ rfl)) fun r => ?_
  split
  · exact .fail _
  · exact .bind (onVol_quiet (getDirentLoop_quiet _ _ _ _ _)) fun _ => .pure _

theorem findLoop_quiet (name : List UInt8) (n : Nat) : ∀ offset dName fv,
    Quiet VnSt.vol (findLoop fsi name n offset dName fv) := by
  induction n with
  | zero => exact fun _ _ _ => .hang
  | succ n ih =>
    intro offset dName fv
    unfold findLoop
    exact .bind (getDirent_quiet _ _ _) fun _ => .ite (fun _ => .pure _) fun _ => ih _ _ _

theorem findDirent_quiet (name : List UInt8) (fv : Fv) :
    Quiet VnSt.vol (findDirent fsi name fv) := by
  unfold findDirent
  exact .bind .get fun _ => .ite (fun _ => .fail _) fun _ => findLoop_quiet _ _ _ _ _

theorem touchFv_quiet (atime mtime : Bool) : Quiet VnSt.vol (touchFv fsi atime mtime) := by
  unfold touchFv
  exact .bind .get fun _ => .bind (onVol_quiet (touch_quiet _ _ _)) fun _ => modifyFv_quiet _

theorem readdirLoop_quiet (n : Nat) : ∀ st, Quiet VnSt.vol (readdirLoop fsi n st) := by
  induction n with
  | zero => exact fun _ => .hang
  | succ n ih =>
    intro st
    unfold readdirLoop
    -- after an entry was emitted the loop goes on or stops
    have emit (d : Dirent) (name : DName) (next : Nat) : Quiet VnSt.vol (do
        let r ← onVol (emitEntry fsi d name next st)
        if r.1 then readdirLoop fsi n r.2 else pure r.2) :=
      .bind (onVol_quiet (emitEntry_quiet _ _ _ _)) fun _ => .ite (fun _ => ih _) fun _ => .pure _
    refine .ite (fun _ => .pure _) fun _ => .bind .get fun s => ?_
    refine .ite (fun _ => emit _ _ _) fun _ => .ite (fun _ => emit _ _ _) fun _ => ?_
    refine .bind (.attempt (getDirent_quiet _ _ _)) fun r => ?_
    split
    · exact .ite (fun _ => .pure _) fun _ => .pure _
    · exact emit _ _ _

theorem readdir_quiet (offset resid : Nat) : Quiet VnSt.vol (readdir fsi offset resid) := by
  unfold readdir
  exact .bind .get fun _ => .ite (fun _ => .fail _) fun _ => readdirLoop_quiet _ _

theorem getattr_quiet : Quiet VnSt.vol (getattr fsi) := by
  unfold getattr
  refine .bind .get fun _ => .ite (fun _ => ?_) fun _ => .pure _
  exact .bind (onVol_quiet (countLoop_quiet _ _ _)) fun _ => .pure _

/-! ## A transfer -/

theorem onVn_quiet {m : FvM α} (h : Quiet VnSt.vol m) : Quiet (fun t => t.vn.vol) (onVn m) :=
  .on h (fun _ => rfl) fun _ _ => rfl

theorem readLoop_quiet (n : Nat) : ∀ c i o rem,
    Quiet (fun t => t.vn.vol) (readLoop fsi n c i o rem) := by
  induction n with
  | zero => exact fun _ _ _ _ => .hang
  | succ n ih =>
    intro c i o rem
    unfold readLoop
    refine .bind (onVn_quiet (onVol_quiet (readCluster_quiet c))) fun bp => ?_
    refine .bind ?_ fun _ => .ite (fun _ => .pure _) fun _ => ?_
    · unfold uiomoveOut
      exact .bind (onVn_quiet (onVol_quiet uiomove_quiet)) fun _ => .modify fun _ => rfl
    · refine .bind (.attempt (onVn_quiet (onVol_quiet (nextCluster_quiet c rfl)))) fun r => ?_
      split
      · exact .fail _
      · exact ih _ _ _ _

theorem read_quiet : Quiet (fun t => t.vn.vol) (read fsi) := by
  unfold read
  refine .bind .get fun _ => .ite (fun _ => .fail _) fun _ => ?_
  refine .bind (onVn_quiet (touchFv_quiet _ _)) fun _ => .ite (fun _ => .fail _) fun _ => ?_
  refine .ite (fun _ => .pure _) fun _ => .ite (fun _ => .pure _) fun _ => ?_
  refine .bind (onVn_quiet (vnodeSeekCluster_quiet _ rfl)) fun _ => ?_
  exact .bind (readLoop_quiet _ _ _ _ _) fun _ => onVn_quiet (modifyFv_quiet _)

/-! ## The system -/

theorem onSysVol_quiet {m : FsM α} (h : Quiet id m) : Quiet Sys.vol (onSysVol m) :=
  .on h (fun _ => rfl) fun _ _ => rfl

theorem onVnode_quiet (p : Nat) {m : FvM α} (h : Quiet VnSt.vol m) :
    Quiet Sys.vol (onVnode p m) := by
  intro s
  unfold onVnode
  split
  · exact .refl _
  · rename_i fv _
    exact h ⟨s.vol, fv⟩

theorem rwVnode_quiet (p : Nat) {m : RwM Unit} (uio : Uio) (h : Quiet (fun t => t.vn.vol) m) :
    Quiet Sys.vol (rwVnode p m uio) := onVnode_quiet p fun s => h ⟨s, uio⟩

theorem getVnode_quiet (p : Nat) : Quiet Sys.vol (getVnode p) := by
  intro s
  unfold getVnode
  split <;> exact .refl _

theorem vnHold_quiet (p : Nat) : Quiet Sys.vol (vnHold p) := .modify fun _ => rfl

theorem vnRele_quiet (p : Nat) : Quiet Sys.vol (vnRele p) := .modify fun _ => rfl

theorem attach_quiet (fv : Fv) : Quiet Sys.vol (attach fv) := by
  unfold attach
  split
  · exact .pure _
  · refine .bind (.modify fun _ => rfl) fun _ => ?_
    split
    · exact .pure _
    · exact .bind (vnHold_quiet _) fun _ => .pure _

theorem lookup_quiet (dir : Nat) (nm : List UInt8) : Quiet Sys.vol (lookup fsi dir nm) := by
  unfold lookup
  refine .bind (getVnode_quiet dir) fun fv => .ite (fun _ => .fail _) fun _ => ?_
  refine .ite (fun _ => .bind (vnHold_quiet _) fun _ => .pure _) fun _ => .ite (fun _ => ?_) fun _ => ?_
  · refine .ite (fun _ => .pure _) fun _ => ?_
    split
    · exact .fail _
    · exact .bind (vnHold_quiet _) fun _ => .pure _
  · refine .bind (onVnode_quiet dir (findDirent_quiet _ _)) fun _ => ?_
    unfold makeEntryVnode
    exact .bind (onSysVol_quiet (makeVnode_quiet _ _ _ _)) fun _ => attach_quiet _

end Fat32
