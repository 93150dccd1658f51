import Mathlib
import Fat32.Proof.ReadOnly

/-!
# Read-only mounts

On a read-only mount `create`, `mkdir`, `remove`, `rmdir` and `setattr` are
refused before they change anything. Two paths do not look at the mount flag: a
flush of a vnode whose access time a read has marked, and a `rename` to a name
that does not exist. Without them a run writes nothing (`rdonlyRun_noWrite`).
-/

namespace Fat32

open Bytes Exec Prog

variable {fsi : Fsi} {s s' : Sys}

theorem Quiet.wp {σ α : Type} {π : σ → Vol} {m : Prog Errno σ α} (h : Quiet π m) (s : σ) :
    WP m s fun _ s' => NoWrite (π s) (π s') := by
  unfold WP
  exact h s

theorem getVnode_some {p : Nat} {fv : Fv} (h : s.vnodes p = some fv) :
    getVnode p s = (.ok fv, s) := by
  unfold getVnode
  rw [h]

theorem getVnode_none {p : Nat} (h : s.vnodes p = none) : getVnode p s = (.hang, s) := by
  unfold getVnode
  rw [h]

/-- The flush of this vnode writes to the disk. -/
def Flushable (fv : Fv) : Prop :=
  fv.flags.dirty = true ∧ fv.flags.root = false ∧ fv.parentCluster ≠ clusterBad

/-- The call is a `rename` of an entry that exists to a name that does not. -/
def Renames (fsi : Fsi) (s : Sys) (sdir : Nat) (snm : List UInt8) (tdir : Nat)
    (tnm : List UInt8) : Prop :=
  ∃ sfv tfv fv, s.vnodes sdir = some sfv ∧ s.vnodes tdir = some tfv ∧
    ¬ (sfv.cluster = tfv.cluster ∧ snm = tnm) ∧
    (onVnode sdir (findDirent fsi snm (vnodeNew fsi)) s).1 = .ok fv ∧
    (onVnode tdir (findDirent fsi tnm (vnodeNew fsi))
      (onVnode sdir (findDirent fsi snm (vnodeNew fsi)) s).2).1 = .err .enoent

/-- The calls that write nothing on a read-only mount. -/
def RdonlySafe (fsi : Fsi) (s : Sys) : VnOp → Prop
  | .write _ _ _ => False
  | .fsync p => ∀ fv, s.vnodes p = some fv → ¬ Flushable fv
  | .close p lastclose => lastclose = true → ∀ fv, s.vnodes p = some fv → ¬ Flushable fv
  | .inactive p => s.vcount p = 0 → ∀ fv, s.vnodes p = some fv → ¬ Flushable fv
  | .rename sdir snm tdir tnm _ => ¬ Renames fsi s sdir snm tdir tnm
  | _ => True

/-! ## Refused calls -/

theorem faccess_rdonly (hro : fsi.vfsRdonly = true) (fv : Fv) {mode : Access}
    (hw : mode.write = true) (cr : Cred) : faccess fsi fv mode cr = some .erofs := by
  simp [faccess, hro, hw]

theorem removeCommon_rdonly (hro : fsi.vfsRdonly = true) (name : List UInt8) (isDir : Bool)
    (cdir : Option Nat) (cr : Cred) (t : VnSt) :
    ∃ e, removeCommon fsi name isDir cdir cr t = (.err e, t) := by
  unfold removeCommon
  by_cases h : isDot name = true
  · rw [if_pos h]
    exact ⟨_, rfl⟩
  · rw [if_neg h, get_bind_run, faccess_rdonly hro _ rfl]
    exact ⟨_, rfl⟩

theorem removeCommon_quiet (hro : fsi.vfsRdonly = true) (name : List UInt8) (isDir : Bool)
    (cdir : Option Nat) (cr : Cred) : Quiet VnSt.vol (removeCommon fsi name isDir cdir cr) := by
  intro t
  obtain ⟨e, h⟩ := removeCommon_rdonly hro name isDir cdir cr t
  rw [h]
  exact .refl _

theorem rmdir_quiet (hro : fsi.vfsRdonly = true) (dir : Nat) (nm : List UInt8)
    (cdir : Option Nat) (cr : Cred) : Quiet Sys.vol (rmdir fsi dir nm cdir cr) := by
  have hrm (c : Option Nat) := onVnode_quiet dir (removeCommon_quiet hro nm true c cr)
  unfold rmdir
  refine .bind ?_ hrm
  split
  · exact .pure _
  · exact .bind (getVnode_quiet _) fun _ => .pure _

theorem create_quiet (hro : fsi.vfsRdonly = true) (dir : Nat) (name : List UInt8) (vap : Vattr)
    (excl : Bool) (mode : Access) (cr : Cred) :
    Quiet Sys.vol (create fsi dir name vap excl mode cr) := by
  unfold create
  refine .bind (getVnode_quiet dir) fun fv => .ite (fun _ => .fail _) fun _ => ?_
  rw [faccess_rdonly hro fv rfl]
  exact .fail _

theorem mkdir_quiet (hro : fsi.vfsRdonly = true) (dir : Nat) (name : List UInt8) (vap : Vattr)
    (cr : Cred) : Quiet Sys.vol (mkdir fsi dir name vap cr) := by
  unfold mkdir
  refine .bind (getVnode_quiet dir) fun fv => .ite (fun _ => .fail _) fun _ => ?_
  rw [faccess_rdonly hro fv rfl]
  exact .fail _

theorem setattr_quiet (hro : fsi.vfsRdonly = true) (p : Nat) (vap : Vattr) :
    Quiet Sys.vol (setattr fsi p vap) := by
  intro s
  unfold setattr
  rcases hp : s.vnodes p with _ | fv
  · have h : onVnode p (setattrFv fsi vap) s = (.hang, s) := by
      unfold onVnode
      rw [hp]
    rw [bind_hang h]
    exact .refl _
  · have h : ∃ s', onVnode p (setattrFv fsi vap) s = (.err .erofs, s') ∧ s'.vol = s.vol := by
      unfold onVnode setattrFv
      rw [hp]
      simp only [get_bind_run, if_pos hro, fail_run]
      exact ⟨_, rfl, rfl⟩
    obtain ⟨s', e, hv⟩ := h
    rw [bind_err e, hv]
    exact .refl _

/-! ## Flushes -/

theorem updateFdentry_noWrite {t : VnSt} (h : ¬ Flushable t.fv) :
    (updateFdentry fsi t).2.vol = t.vol := by
  unfold updateFdentry
  rw [get_bind_run]
  by_cases hd : t.fv.flags.dirty = true
  · rw [if_neg (not_not.mpr hd)]
    by_cases hr : t.fv.flags.root = true
    · rw [if_pos hr]
      rfl
    · rw [if_neg hr]
      by_cases hp : t.fv.parentCluster = clusterBad
      · rw [if_pos hp]
        rfl
      · exact absurd ⟨hd, Bool.not_eq_true _ ▸ hr, hp⟩ h
  · rw [if_pos hd]
    rfl

theorem syncMetadata_noWrite {p : Nat} (h : ∀ fv, s.vnodes p = some fv → ¬ Flushable fv) :
    NoWrite s.vol (syncMetadata fsi p s).2.vol := by
  have hup : NoWrite s.vol (onVnode p (updateFdentry fsi) s).2.vol := by
    unfold onVnode
    rcases hp : s.vnodes p with _ | fv
    · exact .refl _
    · show NoWrite s.vol (updateFdentry fsi ⟨s.vol, fv⟩).2.vol
      rw [updateFdentry_noWrite (h fv hp)]
      exact .refl _
  unfold syncMetadata
  rcases hp : s.vnodes p with _ | fv
  · rw [bind_hang (getVnode_none hp)]
    exact .refl _
  · rw [bind_ok (getVnode_some hp)]
    rcases fv.parentVp with _ | q
    · exact hup
    · show NoWrite s.vol ((do let _ ← getVnode q; onVnode p (updateFdentry fsi)) s).2.vol
      rcases hq : s.vnodes q with _ | qfv
      · rw [bind_hang (getVnode_none hq)]
        exact .refl _
      · rw [bind_ok (getVnode_some hq)]
        exact hup

theorem flushDirty_noWrite {p : Nat} (h : ∀ fv, s.vnodes p = some fv → ¬ Flushable fv) :
    NoWrite s.vol (flushDirty fsi p s).2.vol := by
  have hsync : NoWrite s.vol (syncMetadata fsi p s).2.vol := syncMetadata_noWrite h
  unfold flushDirty
  rcases hp : s.vnodes p with _ | fv
  · rw [bind_hang (getVnode_none hp)]
    exact .refl _
  · rw [bind_ok (getVnode_some hp)]
    split
    · rw [attempt_drop]
      exact hsync
    · exact .refl _

theorem inactive_noWrite {p : Nat}
    (h : s.vcount p = 0 → ∀ fv, s.vnodes p = some fv → ¬ Flushable fv) :
    NoWrite s.vol (inactive fsi p s).2.vol := by
  unfold inactive
  rcases hp : s.vnodes p with _ | fv
  · rw [bind_hang (getVnode_none hp)]
    exact .refl _
  rw [bind_ok (getVnode_some hp), get_bind_run]
  by_cases hc : s.vcount p > 0
  · rw [if_pos hc]
    exact .refl _
  rw [if_neg hc]
  have hflush : NoWrite s.vol (flushDirty fsi p s).2.vol := flushDirty_noWrite (h (by omega))
  have hrelease : Quiet Sys.vol
      (Prog.modify fun s : Sys => { s with vnodes := Function.update s.vnodes p none } : SysM Unit) := .modify fun _ => rfl
  rw [bind_run]
  rcases hr : flushDirty fsi p s with ⟨_ | _ | _, s'⟩ <;> rw [hr] at hflush
  · refine hflush.trans ?_
    cases fv.parentVp with
    | none => exact hrelease s'
    | some q => exact (Quiet.bind (vnRele_quiet q) fun _ => hrelease) s'
  · exact hflush
  · exact hflush

/-! ## Renames -/

theorem onVnode_ne_ok {α : Type} {p : Nat} {m : FvM α} (h : ∀ t, ∃ e, m t = (.err e, t)) (a : α) :
    (onVnode p m s).1 ≠ .ok a := by
  rcases hp : s.vnodes p with _ | fv
  · rw [show onVnode p m s = (.hang, s) by unfold onVnode; rw [hp]]
    exact nofun
  · obtain ⟨e, he⟩ := h ⟨s.vol, fv⟩
    unfold onVnode
    simp only [hp, he]
    exact nofun

/-- The target exists: `rename` ends when it asks for write permission. -/
theorem renameTarget_rdonly (hro : fsi.vfsRdonly = true) (tdir : Nat) (tnm : List UInt8) (fv : Fv)
    (cr : Cred)
    (h : (onVnode tdir (findDirent fsi tnm (vnodeNew fsi)) s).1 ≠ .err .enoent) :
    WP (renameTarget fsi tdir tnm fv cr) s fun r s' => NoWrite s.vol s'.vol ∧ ∀ a, r ≠ .ok a := by
  have hfind : NoWrite s.vol (onVnode tdir (findDirent fsi tnm (vnodeNew fsi)) s).2.vol :=
    onVnode_quiet tdir (findDirent_quiet tnm (vnodeNew fsi)) s
  -- the last step, on a volume that was only read
  have hrm (isDir : Bool) (s' : Sys) (hs' : NoWrite s.vol s'.vol) :
      WP (onVnode tdir (removeCommon fsi tnm isDir none cr)) s'
        fun r s'' => NoWrite s.vol s''.vol ∧ ∀ a, r ≠ .ok a := by
    refine .of_run rfl ⟨hs'.trans (onVnode_quiet tdir (removeCommon_quiet hro _ _ _ _) s'), ?_⟩
    exact onVnode_ne_ok fun t => removeCommon_rdonly hro tnm isDir none cr t
  unfold renameTarget
  rcases hr : onVnode tdir (findDirent fsi tnm (vnodeNew fsi)) s with ⟨target | e | _, s1⟩ <;>
    simp only [hr] at hfind h
  · refine .ok_bind (attempt_ok hr) ?_
    dsimp only
    have stop (e : Errno) : WP (do
        fail e
        onVnode tdir (removeCommon fsi tnm (decide (target.type = .vdir)) none cr)) s1
          fun r s' => NoWrite s.vol s'.vol ∧ ∀ a, r ≠ .ok a :=
      .of_run rfl ⟨hfind, nofun⟩
    refine .ite (fun _ => .ite (fun _ => stop _) fun _ => ?_) fun _ =>
      .ite (fun _ => stop _) fun _ => hrm _ s1 hfind
    refine .bind ((onSysVol_quiet (dirempty_quiet target)).attempt.wp s1) ?_ ?_ ?_
    · intro r s2 h2
      cases r with
      | ok a => exact .of_run rfl ⟨hfind.trans h2, nofun⟩
      | error e => exact hrm _ s2 (hfind.trans h2)
    · exact fun e s2 h2 => ⟨hfind.trans h2, nofun⟩
    · exact fun s2 h2 => ⟨hfind.trans h2, nofun⟩
  · refine .ok_bind (attempt_err hr) ?_
    refine .ite (fun _ => .of_run rfl ⟨hfind, nofun⟩) fun he => ?_
    exact absurd (congrArg Out.err (not_not.mp he)) h
  · refine .of_run (bind_hang ?_) ⟨hfind, nofun⟩
    rw [attempt, hr]

theorem rename_rdonly (hro : fsi.vfsRdonly = true) {sdir tdir : Nat} {snm tnm : List UInt8}
    (cr : Cred) (h : ¬ Renames fsi s sdir snm tdir tnm) :
    WP (rename fsi sdir snm tdir tnm cr) s fun _ s' => NoWrite s.vol s'.vol := by
  unfold rename
  rcases hs : s.vnodes sdir with _ | sfv
  · exact .of_run (bind_hang (getVnode_none hs)) (.refl _)
  refine .ok_bind (getVnode_some hs) ?_
  rcases ht : s.vnodes tdir with _ | tfv
  · exact .of_run (bind_hang (getVnode_none ht)) (.refl _)
  refine .ok_bind (getVnode_some ht) (.ite (fun _ => .of_run rfl (.refl _)) fun hne => ?_)
  have hfind : NoWrite s.vol (onVnode sdir (findDirent fsi snm (vnodeNew fsi)) s).2.vol :=
    onVnode_quiet sdir (findDirent_quiet snm (vnodeNew fsi)) s
  rcases hr : onVnode sdir (findDirent fsi snm (vnodeNew fsi)) s with ⟨fv | e | _, s1⟩ <;>
    rw [hr] at hfind
  · refine .ok_bind hr (.bind (renameTarget_rdonly hro tdir tnm fv cr fun htgt => ?_) ?_ ?_ ?_)
    · refine h ⟨sfv, tfv, fv, hs, ht, fun heq => hne ⟨decide_eq_true heq.1, heq.2⟩, ?_, ?_⟩
      · rw [hr]
      · rw [hr]
        exact htgt
    · exact fun a s2 h2 => absurd rfl (h2.2 a)
    · exact fun e s2 h2 => hfind.trans h2.1
    · exact fun s2 h2 => hfind.trans h2.1
  · exact .of_run (bind_err hr) hfind
  · exact .of_run (bind_hang hr) hfind

/-! ## Runs -/

/-- The results of a call are dropped. -/
theorem drop_quiet {α : Type} {m : SysM α} (h : Quiet Sys.vol m) :
    Quiet Sys.vol (do let _ ← m; pure ()) := .bind h fun _ => .pure _

theorem VnOp.rdonly (hro : fsi.vfsRdonly = true) (op : VnOp) (ha : RdonlySafe fsi s op) :
    NoWrite s.vol (op.exec fsi s).2.vol := by
  cases op with
  | lookup dir nm => exact drop_quiet (lookup_quiet dir nm) s
  | read p uio => exact rwVnode_quiet p uio read_quiet s
  | write p append uio => exact ha.elim
  | readdir p offset resid => exact drop_quiet (onVnode_quiet p (readdir_quiet offset resid)) s
  | getattr p => exact drop_quiet (onVnode_quiet p getattr_quiet) s
  | setattr p vap => exact setattr_quiet hro p vap s
  | create dir name vap excl mode cr => exact drop_quiet (create_quiet hro dir name vap excl mode cr) s
  | mkdir dir dirname vap cr => exact drop_quiet (mkdir_quiet hro dir dirname vap cr) s
  | remove dir nm cr => exact onVnode_quiet dir (removeCommon_quiet hro nm false none cr) s
  | rmdir dir nm cdir cr => exact rmdir_quiet hro dir nm cdir cr s
  | rename sdir snm tdir tnm cr =>
    have h := rename_rdonly hro cr ha
    unfold WP at h
    exact h
  | fsync p => exact flushDirty_noWrite ha
  | close p lastclose =>
    show NoWrite s.vol (Fat32.close fsi p lastclose s).2.vol
    unfold Fat32.close
    rcases hp : s.vnodes p with _ | fv
    · rw [bind_hang (getVnode_none hp)]
      exact .refl _
    · rw [bind_ok (getVnode_some hp)]
      split
      · rename_i hl
        exact flushDirty_noWrite (ha hl)
      · exact .refl _
  | inactive p => exact inactive_noWrite ha
  | hold p => exact vnHold_quiet p s
  | rele p => exact vnRele_quiet p s

/-- On a read-only mount, a run without a write, without a flush of a marked vnode
and without a `rename` to a new name writes nothing. -/
theorem rdonlyRun_noWrite (hro : fsi.vfsRdonly = true) (run : SysRun fsi (RdonlySafe fsi) s s') :
    s'.vol.disk = s.vol.disk ∧
      ∃ rs, s'.vol.io.log = rs ++ s.vol.io.log ∧ ∀ r ∈ rs, ∃ b n, r = .bread b n := by
  have h : NoWrite s.vol s'.vol :=
    SysRun.invariant (I := fun t => NoWrite s.vol t.vol)
      (fun t op ht ha => ht.trans (op.rdonly hro ha)) run (.refl _)
  exact ⟨h.same.disk, h.log⟩

def rdonlyFsi : Fsi := { small 2 with vfsRdonly := true }

/-- The root directory holds the file `A`, of one byte. -/
def fileVol : Vol := image [clusterEoc, clusterEoc] fun c =>
  if c = 2 then [shortEntry 65 0 3 1] else []

theorem rdonlyRun_noWrite_lookup :
    let s := mounted rdonlyFsi fileVol
    let s' := runOps rdonlyFsi s [.lookup 0 [65], .read 1 oneByte]
    s'.vol.disk = s.vol.disk ∧
      ∃ rs, s'.vol.io.log = rs ++ s.vol.io.log ∧ ∀ r ∈ rs, ∃ b n, r = .bread b n := by
  have hro : rdonlyFsi.vfsRdonly = true := rfl
  have run : SysRun rdonlyFsi (RdonlySafe rdonlyFsi) (mounted rdonlyFsi fileVol)
      (runOps rdonlyFsi (mounted rdonlyFsi fileVol) [.lookup 0 [65], .read 1 oneByte]) :=
    .step (.lookup 0 [65]) trivial (.step (.read 1 oneByte) trivial (.refl _))
  exact rdonlyRun_noWrite hro run

/-- The access time of a file that was read is stored at the last close. -/
theorem rdonly_close_writes : rdonlyFsi.vfsRdonly = true ∧
    let s := mounted rdonlyFsi fileVol
    let s' := runOps rdonlyFsi s [.lookup 0 [65], .read 1 oneByte, .close 1 true]
    s'.vol.io.log.head? = some (.bdwrite 2 1) ∧ s'.vol.disk (2 * 512 + 18) ≠ s.vol.disk (2 * 512 + 18) := by
  decide +kernel

end Fat32
