import Mathlib
import Fat32.Impl.Mount
import Fat32.Lib.RefCount
import Fat32.Proof.Entry
import Fat32.Proof.Requests

/-!
# References to vnodes

A vnode holds a reference to the vnode of its directory, and the users of the driver hold those that `fat32_lookup`,
`fat32_create` and `fat32_mkdir` returned to them. Over every run of calls the kernel's count of each vnode is the number of
these references (`Referenced`), so that no live vnode refers to a parent that was taken down.
-/

namespace Fat32

open Bytes Exec Prog RefCount

variable {fsi : Fsi} {u t : Sys} {p q dir : Nat} {fv : Fv}

/-! ## What no call changes -/

/-- The system vnode and the parent. -/
def Fv.links (fv : Fv) : Option Nat × Option Nat := (fv.vnode, fv.parentVp)

theorem touchFv_links (atime mtime : Bool) : Fixes Fv.links (touchFv fsi atime mtime) := fun s => by
  obtain ⟨fv', v', e, -, hfv⟩ := touch_ok fsi atime mtime s.fv s.vol
  have hrun : touchFv fsi atime mtime s = (.ok (), ⟨v', fv'⟩) :=
    bind_ok (f := fun fv => modifyFv fun _ => fv) (onVol_run e)
  show Fv.links (touchFv fsi atime mtime s).2.fv = _
  rw [hrun, hfv]
  rfl

theorem vnodeSeekCluster_links (n : Nat) (fl : NcFlags) : Fixes Fv.links (vnodeSeekCluster fsi n fl) :=
  .caches (vnodeSeekCluster_caches n fl) fun _ _ => rfl

theorem getDirent_links (o : Nat) (d : DName) (efv : Option Fv) : Fixes Fv.links (getDirent fsi o d efv) :=
  .caches (getDirent_caches o d efv) fun _ _ => rfl

theorem findDirent_links (name : List UInt8) (efv : Fv) : Fixes Fv.links (findDirent fsi name efv) :=
  .caches (findDirent_caches name efv) fun _ _ => rfl

theorem truncate_links (size : Nat) : Fixes Fv.links (truncate fsi size) := by
  have hset {f : Fv → Fv} (h : ∀ fv, (f fv).links = fv.links) : Fixes Fv.links (modifyFv f) := .modifyFv h
  have hzero : Fixes Fv.links (truncateZero fsi) :=
    .get_bind fun _ => .ite (fun _ => .bind (.onVol _) fun _ => .bind (hset fun _ => rfl) fun _ => hset fun _ => rfl)
      fun _ => hset fun _ => rfl
  have hfirst (fl : NcFlags) : Fixes Fv.links (firstCluster fsi fl) :=
    .get_bind fun _ => .ite (fun _ => .bind (.onVol _) fun _ => hset fun _ => rfl) fun _ => .pure _
  have hextra (n c : Nat) : Fixes Fv.links (freeExtra fsi n c) := by
    refine .bind (.attempt (.onVol _)) fun r => ?_
    cases r with
    | error e => exact .ite (fun _ => .pure _) fun _ => .fail _
    | ok next => exact .ite (fun _ => .bind (.onVol _) fun _ => hset fun _ => rfl) fun _ => .pure _
  unfold truncate
  exact .ite (fun _ => hzero) fun _ => .get_bind fun _ => .bind (hfirst _) fun _ =>
    .bind (vnodeSeekCluster_links _ _) fun _ => .bind (hextra _ _) fun _ => hset fun _ => rfl

theorem updateFdentry_links : Fixes Fv.links (updateFdentry fsi) :=
  .get_bind fun _ => .ite (fun _ => .pure _) fun _ => .ite (fun _ => .modifyFv fun _ => rfl) fun _ =>
    .ite (fun _ => .bind (.modifyFv fun _ => rfl) fun _ => .fail _) fun _ => .bind (.onVol _) fun _ =>
    .bind (.onVol _) fun _ => .bind (.modifyFv fun _ => rfl) fun _ => .onVol _

theorem allocFdentry_links (num : Nat) : Fixes Fv.links (allocFdentry fsi num) := by
  have hfirst : Fixes Fv.links (allocFirst fsi) := by
    refine .bind (.onVol _) fun c => .get_bind fun s => .ite (fun _ => .bind (.attempt (.onVol _)) fun _ => .fail _) fun _ =>
      .bind (.attempt (.onVol _)) fun r => ?_
    cases r with
    | error e => exact .bind (.attempt (.onVol _)) fun _ => .fail _
    | ok _ => exact .bind (.modifyFv fun _ => rfl) fun _ => .pure _
  exact .get_bind fun _ => .ite (fun _ => hfirst) fun _ => .onVol _

theorem createFdentry_links (fv : Fv) (name : List UInt8) (flags : CreFlags) : Fixes Fv.links (createFdentry fsi fv name flags) :=
  .bind (.ite (fun _ => .pure _) fun _ => allocFdentry_links _) fun _ => .get_bind fun _ => .bind (.onVol _) fun _ =>
    .bind (.ite (fun _ => .pure _) fun _ => .onVol _) fun _ => .bind (.onVol _) fun _ => .ite (fun _ => .pure _) fun _ => .onVol _

theorem removeCommon_links (name : List UInt8) (isDir : Bool) (cdir : Option Nat) (cr : Cred) :
    Fixes Fv.links (removeCommon fsi name isDir cdir cr) := by
  refine .ite (fun _ => .fail _) fun _ => .get_bind fun dir => ?_
  cases faccess fsi dir.fv { write := true, exec := true } cr with
  | some e => exact .fail _
  | none =>
    exact .bind (findDirent_links _ _) fun _ => .bind (.onVol _) fun _ => .ite (fun _ => .fail _) fun _ =>
      .bind (.attempt (.onVol _)) fun _ => .bind (.ite (fun _ => .attempt (.onVol _)) fun _ => .pure _) fun _ => touchFv_links _ _

theorem renameReuse_links (fv : Fv) (name : List UInt8) : Fixes Fv.links (renameReuse fsi fv name) :=
  .bind (createFdentry_links _ _ _) fun _ => .ite (fun _ => .get_bind fun _ => .bind (.attempt (.onVol _)) fun _ => .pure _)
    fun _ => .pure _

theorem getattr_links : Fixes Fv.links (getattr fsi) :=
  .get_bind fun _ => .ite (fun _ => .bind (.onVol _) fun _ => .pure _) fun _ => .pure _

theorem setattrFv_links (vap : Vattr) : Fixes Fv.links (setattrFv fsi vap) := by
  have hset : Fixes Fv.links (modifyFv (setFields vap)) := .modifyFv fun fv => by
    have hmode : (setMode vap.mode fv).links = fv.links := by
      simp only [setMode, apply_ite Fv.links]
      split_ifs <;> rfl
    have hset : (setFields vap fv).links = if vap.atMode then (setMode vap.mode fv).links else fv.links := by
      simp only [setFields, Fv.links, apply_ite Fv.vnode, apply_ite Fv.parentVp, ite_self]
      split_ifs <;> rfl
    rw [hset, hmode, ite_self]
  exact .get_bind fun _ => .ite (fun _ => .fail _) fun _ => .ite (fun _ => .ite (fun _ => .bind (.fail _) fun _ => hset) fun _ =>
    .bind (truncate_links _) fun _ => hset) fun _ => hset

theorem readdir_links (offset resid : Nat) : Fixes Fv.links (readdir fsi offset resid) := by
  have hloop (n : Nat) : ∀ st, Fixes Fv.links (readdirLoop fsi n st) := by
    induction n with
    | zero => exact fun _ _ => rfl
    | succ n ih =>
      intro st
      have hgo (r : Bool × Readdir) : Fixes Fv.links (if r.1 then readdirLoop fsi n r.2 else Pure.pure r.2) :=
        .ite (fun _ => ih _) fun _ => .pure _
      refine .ite (fun _ => .pure _) fun _ => .get_bind fun s => .ite (fun _ => .bind (.onVol _) hgo) fun _ =>
        .ite (fun _ => .bind (.onVol _) hgo) fun _ => .bind (.attempt (getDirent_links _ _ _)) fun r => ?_
      cases r with
      | error e => exact .ite (fun _ => .pure _) fun _ => .pure _
      | ok out => exact .bind (.onVol _) hgo
  exact .get_bind fun _ => .ite (fun _ => .fail _) fun _ => hloop _ _

/-- A read or a write that leaves `g` of the vnode alone. -/
def RwFixes {α β : Type} (g : Fv → β) (m : RwM α) : Prop := Keeps (fun s t => g t.vn.fv = g s.vn.fv) m

namespace RwFixes

variable {α β γ : Type} {g : Fv → γ} {m : RwM α}

theorem pure (a : α) : RwFixes g (Pure.pure a) := fun _ => rfl

theorem fail (e : Errno) : RwFixes g (Prog.fail e : RwM α) := fun _ => rfl

theorem bind {f : α → RwM β} (hm : RwFixes g m) (hf : ∀ a, RwFixes g (f a)) : RwFixes g (m >>= f) :=
  Keeps.bind (R := fun (s t : RwSt) => g t.vn.fv = g s.vn.fv) (fun h k => k.trans h) hm hf

theorem get_bind {f : RwSt → RwM α} (hf : ∀ s, RwFixes g (f s)) : RwFixes g (Prog.get >>= f) := .bind (fun _ => rfl) hf

theorem attempt (hm : RwFixes g m) : RwFixes g (Prog.attempt m) := Keeps.attempt hm

theorem onVn {n : FvM α} (h : Fixes g n) : RwFixes g (Fat32.onVn n) := fun s => h s.vn

theorem ite {c : Prop} [Decidable c] {m' : RwM α} (hm : c → RwFixes g m) (hm' : ¬ c → RwFixes g m') :
    RwFixes g (if c then m else m') := Keeps.ite hm hm'

end RwFixes

theorem read_links : RwFixes Fv.links (read fsi) := by
  have hloop (n : Nat) : ∀ c k o r, RwFixes Fv.links (readLoop fsi n c k o r) := by
    induction n with
    | zero => exact fun _ _ _ _ _ => rfl
    | succ n ih =>
      intro c k o r
      refine .bind (.onVn (.onVol _)) fun bp => .bind (.bind (.onVn (.onVol _)) fun _ _ => rfl) fun _ => .ite (fun _ => .pure _)
        fun _ => .bind (.attempt (.onVn (.onVol _))) fun r => ?_
      cases r with
      | error e => exact .fail _
      | ok next => exact ih _ _ _ _
  exact .get_bind fun _ => .ite (fun _ => .fail _) fun _ => .bind (.onVn (touchFv_links _ _)) fun _ =>
    .ite (fun _ => .fail _) fun _ => .ite (fun _ => .pure _) fun _ => .ite (fun _ => .pure _) fun _ =>
    .bind (.onVn (vnodeSeekCluster_links _ _)) fun _ => .bind (hloop _ _ _ _ _) fun _ => .onVn (.modifyFv fun _ => rfl)

theorem write_links (append : Bool) : RwFixes Fv.links (write fsi append) := by
  have hin (data : Nat → UInt8) (o n : Nat) : RwFixes Fv.links (uiomoveIn fsi data o n) :=
    .bind (.onVn (.onVol _)) fun _ => .get_bind fun _ => .bind (fun _ => rfl) fun _ => .pure _
  have hgrow : RwFixes Fv.links growSize := fun s => by
    unfold growSize Prog.modify
    dsimp only
    split <;> rfl
  have hloop (n : Nat) : ∀ c k o r, RwFixes Fv.links (writeLoop fsi n c k o r) := by
    induction n with
    | zero => exact fun _ _ _ _ _ => rfl
    | succ n ih =>
      exact fun c k o r => .bind (.onVn (.onVol _)) fun bp => .bind (hin _ _ _) fun _ => .bind (.onVn (.onVol _)) fun _ =>
        .bind hgrow fun _ => .ite (fun _ => .pure _) fun _ => .bind (.onVn (.onVol _)) fun next => ih _ _ _ _
  have hfirst : Fixes Fv.links (writeFirst fsi) :=
    .get_bind fun _ => .ite (fun _ => .bind (.onVol _) fun _ => .modifyFv fun _ => rfl) fun _ => .pure _
  exact .get_bind fun _ => .ite (fun _ => .fail _) fun _ => .bind (.onVn (touchFv_links _ _)) fun _ =>
    .ite (fun _ => .pure _) fun _ => .bind (fun _ => rfl) fun _ => .bind (.onVn hfirst) fun _ =>
    .bind (.onVn (vnodeSeekCluster_links _ _)) fun _ => .bind (hloop _ _ _ _ _) fun _ => .onVn (.modifyFv fun _ => rfl)

/-! ## Calls that make no vnode -/

/-- The same vnodes are live, with the same parents and counts. -/
structure SameLinks (u t : Sys) : Prop where
  vcount : t.vcount = u.vcount
  links : ∀ p, (t.vnodes p).map Fv.links = (u.vnodes p).map Fv.links

theorem SameLinks.refl (u : Sys) : SameLinks u u := ⟨rfl, fun _ => rfl⟩

theorem SameLinks.trans {v : Sys} (h : SameLinks u v) (k : SameLinks v t) : SameLinks u t :=
  ⟨k.vcount.trans h.vcount, fun p => (k.links p).trans (h.links p)⟩

theorem SameLinks.live (h : SameLinks u t) (hp : u.vnodes p ≠ none) : t.vnodes p ≠ none := by
  intro hnone
  have hl := h.links p
  rw [hnone] at hl
  exact hp (Option.map_eq_none_iff.mp hl.symm)

/-- The call makes no vnode, and neither takes nor gives back a reference. -/
def KeepsLinks {α : Type} (m : SysM α) : Prop := Keeps SameLinks m

namespace KeepsLinks

variable {α β : Type} {m : SysM α}

theorem pure (a : α) : KeepsLinks (Pure.pure a : SysM α) := Keeps.pure SameLinks.refl a

theorem fail (e : Errno) : KeepsLinks (Prog.fail e : SysM α) := Keeps.fail SameLinks.refl e

theorem bind {f : α → SysM β} (hm : KeepsLinks m) (hf : ∀ a, KeepsLinks (f a)) : KeepsLinks (m >>= f) :=
  Keeps.bind (R := SameLinks) (fun h k => h.trans k) hm hf

theorem attempt (hm : KeepsLinks m) : KeepsLinks (Prog.attempt m) := Keeps.attempt hm

theorem ite {c : Prop} [Decidable c] {n : SysM α} (hm : c → KeepsLinks m) (hn : ¬ c → KeepsLinks n) :
    KeepsLinks (if c then m else n) := Keeps.ite hm hn

theorem onSysVol (m : FsM α) : KeepsLinks (Fat32.onSysVol m) := fun _ => ⟨rfl, fun _ => rfl⟩

theorem onVnode (p : Nat) {m : FvM α} (h : Fixes Fv.links m) : KeepsLinks (Fat32.onVnode p m) := by
  intro s
  cases hp : s.vnodes p with
  | none =>
    unfold Fat32.onVnode
    rw [hp]
    exact .refl s
  | some fv =>
    rw [onVnode_some hp]
    refine ⟨rfl, fun q => ?_⟩
    by_cases hq : q = p
    · subst hq
      have hl : (m ⟨s.vol, fv⟩).2.fv.links = fv.links := h ⟨s.vol, fv⟩
      show (Function.update s.vnodes q _ q).map _ = _
      rw [Function.update_self, hp, Option.map_some, Option.map_some, hl]
    · show (Function.update s.vnodes p _ q).map _ = _
      rw [Function.update_of_ne hq]

theorem getVnode (p : Nat) : KeepsLinks (Fat32.getVnode p) := fun s => by
  unfold Fat32.getVnode
  split
  · exact .refl s
  · exact .refl s

end KeepsLinks

theorem syncMetadata_links (p : Nat) : KeepsLinks (syncMetadata fsi p) := by
  refine .bind (.getVnode p) fun fv => ?_
  cases fv.parentVp with
  | none => exact .onVnode p updateFdentry_links
  | some q => exact .bind (.getVnode q) fun _ => .onVnode p updateFdentry_links

theorem flushDirty_links (p : Nat) : KeepsLinks (flushDirty fsi p) :=
  .bind (.getVnode p) fun _ => .ite (fun _ => .bind (.attempt (syncMetadata_links p)) fun _ => .pure _) fun _ => .pure _

theorem rename_links (sdir : Nat) (snm : List UInt8) (tdir : Nat) (tnm : List UInt8) (cr : Cred) :
    KeepsLinks (rename fsi sdir snm tdir tnm cr) := by
  have hrest (target : Fv) : KeepsLinks (onVnode tdir (removeCommon fsi tnm (target.type = .vdir) none cr)) :=
    .onVnode tdir (removeCommon_links _ _ _ _)
  have htarget (fv : Fv) : KeepsLinks (renameTarget fsi tdir tnm fv cr) := by
    refine .bind (.attempt (.onVnode _ (findDirent_links _ _))) fun r => ?_
    cases r with
    | error e => exact .ite (fun _ => .fail _) fun _ => .pure _
    | ok target =>
      refine .ite (fun _ => .ite (fun _ => .bind (.fail _) fun _ => hrest target) fun _ =>
        .bind (.attempt (.onSysVol _)) fun r => ?_) fun _ => .ite (fun _ => .bind (.fail _) fun _ => hrest target) fun _ => hrest target
      cases r with
      | ok _ => exact .bind (.fail _) fun _ => hrest target
      | error e => exact hrest target
  -- what is left once the entry is in its new place
  have htouch (same : Bool) : KeepsLinks (do
      onVnode sdir (touchFv fsi false true)
      if ¬ same then onVnode tdir (touchFv fsi false true) else Pure.pure ()) :=
    .bind (.onVnode _ (touchFv_links _ _)) fun _ => .ite (fun _ => .onVnode _ (touchFv_links _ _)) fun _ => .pure _
  have hafter (fv : Fv) (same : Bool) : KeepsLinks (do
      let tdvp ← getVnode tdir
      if fv.type = .vdir ∧ ¬ same then onSysVol (renameDotdot fsi fv.cluster tdvp.cluster)
      else Pure.pure ()
      onVnode sdir (touchFv fsi false true)
      if ¬ same then onVnode tdir (touchFv fsi false true) else Pure.pure ()) :=
    .bind (.getVnode tdir) fun _ => .ite (fun _ => .bind (.onSysVol _) fun _ => htouch same) fun _ => htouch same
  refine .bind (.getVnode sdir) fun sdvp => .bind (.getVnode tdir) fun tdvp => .ite (fun _ => .pure _) fun _ =>
    .bind (.onVnode _ (findDirent_links _ _)) fun fv => .bind (htarget fv) fun _ => .ite (fun _ =>
      .bind (.onVnode _ (renameReuse_links fv tnm)) fun _ => hafter fv _) fun _ => ?_
  exact .bind (.getVnode sdir) fun _ => .bind (.onSysVol _) fun _ => .bind (.onVnode _ (createFdentry_links _ _ _)) fun _ => hafter fv _

/-- A call that is not about references. -/
def VnOp.Plain : VnOp → Prop
  | lookup .. | create .. | mkdir .. | hold _ | rele _ | inactive _ => False
  | _ => True

theorem exec_links {op : VnOp} (h : op.Plain) : KeepsLinks (op.exec fsi) := by
  have hrw (p : Nat) {m : RwM Unit} (hm : RwFixes Fv.links m) (uio : Uio) : KeepsLinks (rwVnode p m uio) :=
    .onVnode p fun s => hm ⟨s, uio⟩
  cases op with
  | read p uio => exact hrw p read_links uio
  | write p append uio => exact hrw p (write_links append) uio
  | readdir p offset resid => exact .bind (.onVnode p (readdir_links _ _)) fun _ => .pure _
  | getattr p => exact .bind (.onVnode p getattr_links) fun _ => .pure _
  | setattr p vap =>
    refine .bind (.onVnode p (setattrFv_links vap)) fun _ => .bind (.getVnode p) fun fv => .ite (fun _ => ?_) fun _ => .pure _
    exact syncMetadata_links p
  | remove dir nm cr => exact .onVnode dir (removeCommon_links _ _ _ _)
  | rmdir dir nm cdir cr =>
    refine .bind ?_ fun _ => .onVnode dir (removeCommon_links _ _ _ _)
    cases cdir with
    | none => exact .pure _
    | some p => exact .bind (.getVnode p) fun _ => .pure _
  | rename sdir snm tdir tnm cr => exact rename_links sdir snm tdir tnm cr
  | fsync p => exact flushDirty_links p
  | close p lastclose => exact .bind (.getVnode p) fun _ => .ite (fun _ => flushDirty_links p) fun _ => .pure _
  | lookup => exact h.elim
  | create => exact h.elim
  | mkdir => exact h.elim
  | hold => exact h.elim
  | rele => exact h.elim
  | inactive => exact h.elim

/-! ## Calls that make one -/

/-- The number of the next vnode only grows. -/
theorem nvn_blockRel (fsi : Fsi) : BlockRel fsi fun v w => v.io.nvn ≤ w.io.nvn where
  trans h k := Nat.le_trans h k
  other _ h := h
  bread s v := by
    unfold bread
    dsimp only
    split
    · exact Nat.le_refl _
    · exact Nat.le_refl _
  cluster s v := by
    unfold bread
    dsimp only
    split
    · exact Nat.le_refl _
    · exact Nat.le_refl _
  getblk _ _ := Nat.le_refl _
  bdwrite _ _ := Nat.le_refl _

/-- What a call that returns a vnode does to the vnodes and their counts: it returns none, or a live one with one more
reference, or a new one, which refers to a live one. -/
inductive Effect (u : Sys) : Out Errno (Option Nat) → Sys → Prop
  | same {r : Out Errno (Option Nat)} {t : Sys} (hr : ∀ p, r ≠ .ok (some p)) (h : SameLinks u t) : Effect u r t
  | held {p : Nat} {t : Sys} (hp : u.vnodes p ≠ none) (hlinks : ∀ x, (t.vnodes x).map Fv.links = (u.vnodes x).map Fv.links)
      (hcount : t.vcount = Function.update u.vcount p (u.vcount p + 1)) : Effect u (.ok (some p)) t
  | made {p q : Nat} {t : Sys} (hnew : u.vol.io.nvn ≤ p) (hlt : p < t.vol.io.nvn) (hq : u.vnodes q ≠ none)
      (hlinks : ∀ x, (t.vnodes x).map Fv.links = if x = p then some (some p, some q) else (u.vnodes x).map Fv.links)
      (hcount : t.vcount = Function.update (Function.update u.vcount p 1) q (Function.update u.vcount p 1 q + 1)) :
      Effect u (.ok (some p)) t

/-- The calls in front are not about references. -/
theorem Effect.after {s : Sys} {r : Out Errno (Option Nat)} (h : SameLinks u s) (hn : u.vol.io.nvn ≤ s.vol.io.nvn)
    (e : Effect s r t) : Effect u r t := by
  have hlive {q : Nat} (hq : s.vnodes q ≠ none) : u.vnodes q ≠ none := fun hnone => hq (by
    have hl := h.links q
    rw [hnone] at hl
    exact Option.map_eq_none_iff.mp hl)
  cases e with
  | same hr k => exact .same hr (h.trans k)
  | held hp hlinks hcount =>
    refine .held (hlive hp) (fun x => (hlinks x).trans (h.links x)) ?_
    rw [hcount, h.vcount]
  | made hnew hlt hq hlinks hcount =>
    refine .made (hn.trans hnew) hlt (hlive hq) (fun x => ?_) ?_
    · rw [hlinks, h.links]
    · rw [hcount, h.vcount]

theorem effect_bind {α : Type} {m : SysM α} {f : α → SysM (Option Nat)} (hm : KeepsLinks m)
    (hn : Through (fun v w => v.io.nvn ≤ w.io.nvn) Sys.vol m) (hf : ∀ a s, SameLinks u s → WP (f a) s (Effect s)) :
    WP (m >>= f) u (Effect u) := by
  refine .bind (R := fun _ s => SameLinks u s ∧ u.vol.io.nvn ≤ s.vol.io.nvn) (.of_run rfl ⟨hm u, hn u⟩) (fun a s h => ?_)
    (fun _ _ h => .same (fun _ => Out.err_ne_ok) h.1) fun _ h => .same (fun _ => Out.hang_ne_ok) h.1
  exact (hf a s h.1).mono fun _ _ e => e.after h.1 h.2

theorem effect_fail (e : Errno) : WP (fail e : SysM (Option Nat)) u (Effect u) :=
  .of_run (fail_run _ _) (.same (fun _ => Out.err_ne_ok) (.refl u))

/-- The new vnode is put into the table. -/
theorem attach_effect {s : Sys} (hv : fv.links = (some p, some q)) (h : SameLinks u s) (hnew : u.vol.io.nvn ≤ p)
    (hlt : p < s.vol.io.nvn) (hq : u.vnodes q ≠ none) : WP (attach fv) s (Effect u) := by
  obtain ⟨hvp, hpar⟩ := Prod.mk.inj hv
  unfold attach
  rw [hvp, hpar]
  refine .of_run rfl (.made hnew hlt hq (fun x => ?_) ?_)
  · show (Function.update s.vnodes p (some fv) x).map Fv.links = _
    by_cases hx : x = p
    · subst hx
      rw [Function.update_self, if_pos rfl, Option.map_some, hv]
    · rw [Function.update_of_ne hx, if_neg hx, h.links]
  · show Function.update (Function.update s.vcount p 1) q (Function.update s.vcount p 1 q + 1) = _
    rw [h.vcount]

theorem makeVnode_new (c : Nat) (type : Vtype) (fv : Fv) (parent : Option (Nat × Nat)) (v : Vol) :
    WP (makeVnode fsi c type fv parent) v fun r w => ∀ fv', r = .ok fv' →
      fv'.links = (some v.io.nvn, parent.map Prod.fst) ∧ w.io.nvn = v.io.nvn + 1 := by
  unfold makeVnode
  refine .bind (R := fun r w => w.io.nvn = v.io.nvn + 1 ∧ ∀ p, r = .ok (some p) → p = v.io.nvn) (.of_run rfl ⟨rfl, fun p hp => ?_⟩)
    (fun r w hw => ?_) (fun _ _ _ _ h => absurd h Out.err_ne_ok) fun _ _ _ h => absurd h Out.hang_ne_ok
  · have hval : (if fsi.kernel.vnAlloc v.io.nvn then some v.io.nvn else none) = some p := Out.ok.inj hp
    by_cases hn : fsi.kernel.vnAlloc v.io.nvn = true
    · rw [if_pos hn] at hval
      exact (Option.some.inj hval).symm
    · rw [if_neg hn] at hval
      cases hval
  · cases r with
    | none => exact .of_run (fail_run _ _) fun _ h => absurd h Out.err_ne_ok
    | some p =>
      obtain rfl := hw.2 p rfl
      refine .of_run (pure_run _ _) fun fv' h => ?_
      rw [← Out.ok.inj h]
      exact ⟨rfl, hw.1⟩

theorem makeEntryVnode_effect {dfv : Fv} (hself : dfv.vnode = some q) (hq : u.vnodes q ≠ none) (fv : Fv) :
    WP (makeEntryVnode fsi dfv fv) u (Effect u) := by
  unfold makeEntryVnode
  refine .on_bind (makeVnode_new _ _ _ _ _) (fun fv' v hv => ?_) (fun _ v _ => .same (fun _ => Out.err_ne_ok) ⟨rfl, fun _ => rfl⟩)
    fun v _ => .same (fun _ => Out.hang_ne_ok) ⟨rfl, fun _ => rfl⟩
  obtain ⟨hlinks, hnvn⟩ := hv fv' rfl
  rw [hself] at hlinks
  exact attach_effect hlinks ⟨rfl, fun _ => rfl⟩ (Nat.le_refl _) (by
    show _ < v.io.nvn
    rw [hnvn]
    exact Nat.lt_succ_self _) hq

/-- A vnode knows its system vnode, and those with numbers to come are not live. -/
structure SelfLinked (u : Sys) : Prop where
  self : ∀ p fv, u.vnodes p = some fv → fv.vnode = some p
  fresh : ∀ p, u.vol.io.nvn ≤ p → u.vnodes p = none
  parent : ∀ p fv q, u.vnodes p = some fv → fv.parentVp = some q → u.vnodes q ≠ none

theorem vnHold_effect (hp : u.vnodes p ≠ none) : WP (do vnHold p; pure (some p)) u (Effect u) :=
  .of_run rfl (.held hp (fun _ => rfl) rfl)

theorem getVnode_bind {f : Fv → SysM (Option Nat)} (hf : ∀ fv, u.vnodes p = some fv → WP (f fv) u (Effect u)) :
    WP (getVnode p >>= f) u (Effect u) := by
  cases hp : u.vnodes p with
  | none =>
    refine .of_run (bind_hang ?_) (.same (fun _ => Out.hang_ne_ok) (.refl u))
    unfold getVnode
    rw [hp]
  | some fv => exact .ok_bind (getVnode_some hp) (hf fv hp)

theorem lookup_effect (h : SelfLinked u) (nm : List UInt8) : WP (lookup fsi dir nm) u (Effect u) := by
  unfold lookup
  refine getVnode_bind fun dfv hd => .ite (fun _ => effect_fail _) fun _ => ?_
  have hlive : u.vnodes dir ≠ none := by
    rw [hd]
    exact Option.some_ne_none _
  refine .ite (fun _ => vnHold_effect hlive) fun _ => .ite (fun _ => .ite (fun _ => ?_) fun _ => ?_) fun _ => ?_
  · exact .of_run (pure_run _ _) (.same (fun _ h => absurd (Out.ok.inj h).symm (Option.some_ne_none _)) (.refl u))
  · cases hpar : dfv.parentVp with
    | none => exact effect_fail _
    | some q => exact vnHold_effect (h.parent dir dfv q hd hpar)
  · exact effect_bind (.onVnode _ (findDirent_links _ _)) ((nvn_blockRel fsi).onVnode _ ((nvn_blockRel fsi).findDirent _ _))
      fun fv s hs => makeEntryVnode_effect (h.self dir dfv hd) (hs.live hlive) fv

theorem createExisting_effect {dfv : Fv} (hself : dfv.vnode = some dir) (hlive : u.vnodes dir ≠ none) (fv : Fv) (vap : Vattr)
    (excl : Bool) (mode : Access) (cr : Cred) : WP (createExisting fsi dir dfv fv vap excl mode cr) u (Effect u) := by
  have B := nvn_blockRel fsi
  unfold createExisting
  refine .ite (fun _ => .ite (fun _ => effect_fail _) fun _ => makeEntryVnode_effect hself hlive fv) fun _ =>
    .ite (fun _ => effect_fail _) fun _ => ?_
  cases faccess fsi fv mode cr with
  | some e => exact effect_fail e
  | none =>
    refine effect_bind (.onSysVol _) (.onSysVol (.withFv _ (.ite (fun _ => B.truncate _) fun _ => B.pure _))) fun x s hs => ?_
    refine effect_bind (.onSysVol _) (.onSysVol (B.touch _ _ _)) fun fv' s2 hs2 => ?_
    refine effect_bind (.onVnode _ (touchFv_links _ _)) (B.onVnode _ (B.touchFv _ _)) fun _ s3 hs3 => ?_
    exact makeEntryVnode_effect hself (hs3.live (hs2.live (hs.live hlive))) fv'

/-- The vnode that `fat32_create_fdentry` makes. -/
theorem createFdentry_new (fv : Fv) (name : List UInt8) {flags : CreFlags} (hren : flags.rename = false) (s : VnSt) :
    WP (createFdentry fsi fv name flags) s fun r t => ∀ fv', r = .ok fv' →
      ∃ p, fv'.links = (some p, s.fv.vnode) ∧ s.vol.io.nvn ≤ p ∧ p < t.vol.io.nvn := by
  have B := nvn_blockRel fsi
  have hno : ¬ flags.rename = true := by
    rw [hren]
    decide
  -- what is done before the vnode is made
  have hstep {α β : Type} {m : FvM α} {f : α → FvM β} {s : VnSt} {Q : β → VnSt → Prop} (hm : Fixes Fv.links m)
      (hn : Through (fun v w => v.io.nvn ≤ w.io.nvn) VnSt.vol m)
      (hf : ∀ a t, t.fv.links = s.fv.links → s.vol.io.nvn ≤ t.vol.io.nvn → WP (f a) t fun r t => ∀ b, r = .ok b → Q b t) :
      WP (m >>= f) s fun r t => ∀ b, r = .ok b → Q b t :=
    .bind (R := fun _ t => t.fv.links = s.fv.links ∧ s.vol.io.nvn ≤ t.vol.io.nvn) (.of_run rfl ⟨hm s, hn s⟩)
      (fun a t h => hf a t h.1 h.2) (fun _ _ _ _ h => absurd h Out.err_ne_ok) fun _ _ _ h => absurd h Out.hang_ne_ok
  unfold createFdentry
  refine hstep (.ite (fun _ => .pure _) fun _ => allocFdentry_links _) (.ite (fun _ => B.pure _) fun _ => B.allocFdentry _)
    fun o s1 hl1 hn1 => .get_bind ?_
  refine hstep (.onVol _) (.onVol (B.createCluster _ _ _)) fun c s2 hl2 hn2 => ?_
  refine hstep (.ite (fun _ => .pure _) fun _ => .onVol _) (.ite (fun _ => B.pure _) fun _ => .onVol B.nanotime)
    fun now s3 hl3 hn3 => ?_
  refine hstep (.onVol _) (.onVol (B.writeNewEntry _ _ _ _ _)) fun _ s4 hl4 hn4 => .ite (fun h => absurd h hno) fun _ => ?_
  refine .on ((makeVnode_new _ _ _ _ s4.vol).mono fun r w hw fv' hr => ?_)
  obtain ⟨hlinks, hnvn⟩ := hw fv' hr
  have hvp : s1.fv.vnode = s.fv.vnode := congrArg Prod.fst hl1
  refine ⟨s4.vol.io.nvn, ?_, by omega, ?_⟩
  · rw [hlinks, Option.map_map, hvp]
    cases s.fv.vnode with
    | none => rfl
    | some vp => rfl
  · show _ < w.io.nvn
    omega

theorem createNew_effect (h : SelfLinked u) (hlive : u.vnodes dir ≠ none) (name : List UInt8) (mode : Nat) {flags : CreFlags}
    (hren : flags.rename = false) : WP (createNew fsi dir name mode flags) u (Effect u) := by
  have B := nvn_blockRel fsi
  obtain ⟨dfv, hd⟩ := Option.ne_none_iff_exists'.mp hlive
  have hmade : WP (onVnode dir (createFdentry fsi { vnodeNew fsi with mode := mode } name flags)) u fun r s =>
      SameLinks u s ∧ ∀ fv, r = .ok fv → ∃ p, fv.links = (some p, some dir) ∧ u.vol.io.nvn ≤ p ∧ p < s.vol.io.nvn := by
    refine .and (.of_run rfl (KeepsLinks.onVnode dir (createFdentry_links _ name flags) u)) ?_
    refine onVnode_wp hd ((createFdentry_new _ name hren _).mono fun r s hs fv hr => ?_)
    obtain ⟨p, hlinks, hp⟩ := hs fv hr
    rw [show dfv.vnode = some dir from h.self dir dfv hd] at hlinks
    exact ⟨p, hlinks, hp⟩
  unfold createNew
  refine .bind hmade (fun fv s hs => ?_) (fun _ _ h => .same (fun _ => Out.err_ne_ok) h.1)
    fun _ h => .same (fun _ => Out.hang_ne_ok) h.1
  obtain ⟨hlinks, hnew⟩ := hs
  obtain ⟨p, hv, hp, hlt⟩ := hnew fv rfl
  obtain ⟨fv', v, e, -, hfv⟩ := touch_ok fsi false false fv s.vol
  have hv' : fv'.links = (some p, some dir) := by
    rw [hfv]
    exact hv
  have hnv : s.vol.io.nvn ≤ v.io.nvn := by
    have hle : s.vol.io.nvn ≤ (touch fsi false false fv s.vol).2.io.nvn := B.touch false false fv s.vol
    rwa [e] at hle
  refine .ok_bind (on_run e) ?_
  obtain ⟨s2, hs2⟩ : ∃ s2 : Sys, ({ s with vol := v } : Sys) = s2 := ⟨_, rfl⟩
  have hlinks2 : SameLinks u s2 := hs2 ▸ ⟨hlinks.vcount, hlinks.links⟩
  have hlt2 : p < s2.vol.io.nvn := hs2 ▸ Nat.lt_of_lt_of_le hlt hnv
  show WP (onVnode dir (touchFv fsi false true) >>= fun _ => attach fv') { s with vol := v } (Effect u)
  rw [hs2]
  have hdir := KeepsLinks.onVnode dir (@touchFv_links fsi false true) s2
  have hmore := B.onVnode dir (B.touchFv false true) s2
  refine .bind (R := fun _ s3 => SameLinks u s3 ∧ p < s3.vol.io.nvn) (.of_run rfl ⟨hlinks2.trans hdir, Nat.lt_of_lt_of_le hlt2 hmore⟩)
    (fun _ s3 h3 => attach_effect hv' h3.1 hp h3.2 hlive) (fun _ _ h => .same (fun _ => Out.err_ne_ok) h.1)
    fun _ h => .same (fun _ => Out.hang_ne_ok) h.1

theorem SameLinks.selfLinked {s : Sys} (h : SelfLinked u) (k : SameLinks u s) (hn : u.vol.io.nvn ≤ s.vol.io.nvn) : SelfLinked s := by
  have hback {p : Nat} {fv : Fv} (hp : s.vnodes p = some fv) : ∃ fv₀, u.vnodes p = some fv₀ ∧ fv.links = fv₀.links := by
    have hl := k.links p
    rw [hp, Option.map_some] at hl
    obtain ⟨fv₀, hp₀, heq⟩ := Option.map_eq_some_iff.mp hl.symm
    exact ⟨fv₀, hp₀, heq.symm⟩
  refine ⟨fun p fv hp => ?_, fun p hp => ?_, fun p fv q hp hq => ?_⟩
  · obtain ⟨fv₀, hp₀, heq⟩ := hback hp
    exact (congrArg Prod.fst heq).trans (h.self p fv₀ hp₀)
  · have hl := k.links p
    rw [h.fresh p (hn.trans hp)] at hl
    exact Option.map_eq_none_iff.mp hl
  · obtain ⟨fv₀, hp₀, heq⟩ := hback hp
    have hpar : fv.parentVp = fv₀.parentVp := congrArg Prod.snd heq
    exact k.live (h.parent p fv₀ q hp₀ (hpar.symm.trans hq))

/-- `fat32_create` and `fat32_mkdir` after the search. -/
theorem search_effect {α : Type} {m : SysM α} {f : Except Errno α → SysM (Option Nat)} (h : SelfLinked u) (hm : KeepsLinks m)
    (hn : Through (fun v w => v.io.nvn ≤ w.io.nvn) Sys.vol m)
    (hf : ∀ r s, SelfLinked s → SameLinks u s → WP (f r) s (Effect s)) : WP (attempt m >>= f) u (Effect u) := by
  refine .bind (R := fun _ s => SameLinks u s ∧ u.vol.io.nvn ≤ s.vol.io.nvn) (.of_run rfl ⟨hm.attempt u, hn.attempt u⟩)
    (fun r s hs => ?_) (fun _ _ h => .same (fun _ => Out.err_ne_ok) h.1) fun _ h => .same (fun _ => Out.hang_ne_ok) h.1
  exact (hf r s (hs.1.selfLinked h hs.2) hs.1).mono fun _ _ e => e.after hs.1 hs.2

theorem create_effect (h : SelfLinked u) (name : List UInt8) (vap : Vattr) (excl : Bool) (mode : Access) (cr : Cred) :
    WP (create fsi dir name vap excl mode cr) u (Effect u) := by
  have B := nvn_blockRel fsi
  unfold create
  refine getVnode_bind fun dfv hd => .ite (fun _ => effect_fail _) fun _ => ?_
  have hlive : u.vnodes dir ≠ none := by
    rw [hd]
    exact Option.some_ne_none _
  cases faccess fsi dfv { write := true, exec := true } cr with
  | some e => exact effect_fail e
  | none =>
    refine search_effect h (.onVnode _ (findDirent_links _ _)) (B.onVnode _ (B.findDirent _ _)) fun r s hself hs => ?_
    cases r with
    | ok fv => exact createExisting_effect (h.self dir dfv hd) (hs.live hlive) fv vap excl mode cr
    | error e => exact .ite (fun _ => effect_fail e) fun _ => createNew_effect hself (hs.live hlive) name vap.mode rfl

theorem mkdir_effect (h : SelfLinked u) (name : List UInt8) (vap : Vattr) (cr : Cred) :
    WP (mkdir fsi dir name vap cr) u (Effect u) := by
  have B := nvn_blockRel fsi
  unfold mkdir
  refine getVnode_bind fun dfv hd => .ite (fun _ => effect_fail _) fun _ => ?_
  have hlive : u.vnodes dir ≠ none := by
    rw [hd]
    exact Option.some_ne_none _
  cases faccess fsi dfv { write := true, exec := true } cr with
  | some e => exact effect_fail e
  | none =>
    refine search_effect h (.onVnode _ (findDirent_links _ _)) (B.onVnode _ (B.findDirent _ _)) fun r s hself hs => ?_
    cases r with
    | ok fv => exact .ite (fun _ => effect_fail _) fun _ => effect_fail _
    | error e => exact .ite (fun _ => effect_fail e) fun _ => createNew_effect hself (hs.live hlive) name vap.mode rfl

/-- Whether a vnode is taken down. -/
inductive Retired (u : Sys) (p : Nat) : Sys → Prop
  | kept {t : Sys} (h : SameLinks u t) : Retired u p t
  | gone {t : Sys} {fv : Fv} (hp : u.vnodes p = some fv) (h0 : u.vcount p = 0)
      (hlinks : ∀ x, (t.vnodes x).map Fv.links = if x = p then none else (u.vnodes x).map Fv.links)
      (hcount : ∀ x, t.vcount x = if fv.parentVp = some x then u.vcount x - 1 else u.vcount x) : Retired u p t

theorem inactive_retired (p : Nat) : WP (inactive fsi p) u fun _ t => Retired u p t := by
  unfold inactive
  cases hp : u.vnodes p with
  | none =>
    refine .of_run (bind_hang ?_) (.kept (.refl u))
    unfold getVnode
    rw [hp]
  | some fv =>
    refine .ok_bind (getVnode_some hp) (.get_bind (.ite (fun _ => .of_run (pure_run _ _) (.kept (.refl u))) fun hcount => ?_))
    refine .bind (R := fun _ s => SameLinks u s) (.of_run rfl (flushDirty_links p u)) (fun _ s hs => ?_) (fun _ _ h => .kept h)
      fun _ h => .kept h
    have hlinks (x : Nat) : (Function.update s.vnodes p none x).map Fv.links =
        if x = p then none else (u.vnodes x).map Fv.links := by
      by_cases hx : x = p
      · rw [hx, Function.update_self, if_pos rfl]
        rfl
      · rw [Function.update_of_ne hx, if_neg hx, hs.links]
    cases hpar : fv.parentVp with
    | none =>
      refine .of_run rfl (.gone hp (Nat.eq_zero_of_not_pos hcount) hlinks fun x => ?_)
      rw [hpar, if_neg (Option.some_ne_none x).symm, hs.vcount]
    | some q =>
      refine .of_run rfl (.gone hp (Nat.eq_zero_of_not_pos hcount) hlinks fun x => ?_)
      show Function.update s.vcount q (s.vcount q - 1) x = _
      rw [hpar, hs.vcount]
      by_cases hx : x = q
      · rw [hx, Function.update_self, if_pos rfl]
      · rw [Function.update_of_ne hx, if_neg fun h => hx (Option.some.inj h).symm]

/-! ## The counts -/

/-- The vnodes as counted objects, with the references that are held outside. -/
def Sys.refs (u : Sys) (held : Nat → Nat) : Refs Nat where
  parent := fun p => (u.vnodes p).map Fv.parentVp
  count := u.vcount
  held := held

/-- The count of every vnode is the number of the references to it. -/
structure Referenced (u : Sys) (held : Nat → Nat) : Prop where
  self : ∀ p fv, u.vnodes p = some fv → fv.vnode = some p
  fresh : ∀ p, u.vol.io.nvn ≤ p → u.vnodes p = none
  counted : (u.refs held).Counted

variable {held : Nat → Nat}

theorem Sys.refs_live : (u.refs held).Live p ↔ u.vnodes p ≠ none := not_congr Option.map_eq_none_iff

theorem Sys.refs_parent : (u.refs held).parent p = some (some q) ↔ ∃ fv, u.vnodes p = some fv ∧ fv.parentVp = some q :=
  Option.map_eq_some_iff

theorem Referenced.selfLinked (h : Referenced u held) : SelfLinked u where
  self := h.self
  fresh := h.fresh
  parent p fv q hp hq := Sys.refs_live.mp (h.counted.parent p q (Sys.refs_parent.mpr ⟨fv, hp, hq⟩))

theorem map_parentVp (x : Option Fv) : x.map Fv.parentVp = (x.map Fv.links).map Prod.snd := by
  rw [Option.map_map]
  rfl

/-- One vnode is put into the table or taken out. -/
theorem parents_update {l : Option (Option Nat × Option Nat)}
    (h : ∀ x, (t.vnodes x).map Fv.links = if x = p then l else (u.vnodes x).map Fv.links) :
    (fun x => (t.vnodes x).map Fv.parentVp) = Function.update (fun x => (u.vnodes x).map Fv.parentVp) p (l.map Prod.snd) :=
  funext fun x => by
    rw [map_parentVp, h]
    by_cases hx : x = p
    · rw [hx, if_pos rfl, Function.update_self]
    · rw [if_neg hx, Function.update_of_ne hx, map_parentVp]

theorem SameLinks.refs (h : SameLinks u t) : t.refs held = u.refs held := by
  have hpar : (fun p => (t.vnodes p).map Fv.parentVp) = fun p => (u.vnodes p).map Fv.parentVp := funext fun p => by
    rw [map_parentVp, map_parentVp, h.links]
  unfold Sys.refs
  rw [hpar, h.vcount]

theorem Referenced.same (h : Referenced u held) (k : SameLinks u t) (hn : u.vol.io.nvn ≤ t.vol.io.nvn) : Referenced t held where
  self := (k.selfLinked h.selfLinked hn).self
  fresh := (k.selfLinked h.selfLinked hn).fresh
  counted := by
    rw [k.refs]
    exact h.counted

/-- The caller gets the reference to the vnode that is returned. -/
def given (held : Nat → Nat) : Out Errno (Option Nat) → Nat → Nat
  | .ok (some p) => Function.update held p (held p + 1)
  | _ => held

theorem given_other {r : Out Errno (Option Nat)} (hr : ∀ p, r ≠ .ok (some p)) : given held r = held := by
  rcases r with (_ | p) | _ | _
  · rfl
  · exact absurd rfl (hr p)
  · rfl
  · rfl

theorem Referenced.effect {r : Out Errno (Option Nat)} (h : Referenced u held) (e : Effect u r t)
    (hn : u.vol.io.nvn ≤ t.vol.io.nvn) : Referenced t (given held r) := by
  cases e with
  | same hr k =>
    rw [given_other hr]
    exact h.same k hn
  | @held p _ hp hlinks hcount =>
    have k : SameLinks u { t with vcount := u.vcount } := ⟨rfl, hlinks⟩
    have hself := k.selfLinked h.selfLinked hn
    have hrefs : t.refs (given held (.ok (some p))) = (u.refs held).hold p := by
      have hpar : (fun p => (t.vnodes p).map Fv.parentVp) = fun p => (u.vnodes p).map Fv.parentVp := funext fun p => by
        rw [map_parentVp, map_parentVp, hlinks]
      unfold Sys.refs Refs.hold
      rw [hpar, hcount]
      rfl
    refine ⟨hself.self, hself.fresh, ?_⟩
    rw [hrefs]
    exact h.counted.hold (Sys.refs_live.mpr hp)
  | @made p q _ hnew hlt hq hlinks hcount =>
    have hdead : u.vnodes p = none := h.fresh p hnew
    have hnot : ¬ (u.refs held).Live p := fun hl => Sys.refs_live.mp hl hdead
    have hheld : held p = 0 := Nat.eq_zero_of_not_pos fun hpos => hnot (h.counted.held p hpos)
    have hqp : q ≠ p := fun heq => hq (heq ▸ hdead)
    have hrefs : t.refs (given held (.ok (some p))) = (u.refs held).make p (some q) := by
      have hpar := parents_update hlinks
      have hcnt : t.vcount = fun x => if x = p then 1 else if some q = some x then u.vcount x + 1 else u.vcount x :=
        funext fun x => by
          rw [hcount]
          by_cases hxq : x = q
          · rw [hxq, Function.update_self, Function.update_of_ne hqp, if_neg hqp, if_pos rfl]
          · rw [Function.update_of_ne hxq, if_neg fun heq : some q = some x => hxq (Option.some.inj heq).symm]
            by_cases hxp : x = p
            · rw [hxp, Function.update_self, if_pos rfl]
            · rw [Function.update_of_ne hxp, if_neg hxp]
      unfold Sys.refs Refs.make
      rw [hpar, hcnt]
      rw [given, hheld]
      rfl
    refine ⟨fun x fv hx => ?_, fun x hx => ?_, ?_⟩
    · have hl := hlinks x
      rw [hx, Option.map_some] at hl
      by_cases hxp : x = p
      · rw [if_pos hxp] at hl
        rw [hxp]
        exact congrArg Prod.fst (Option.some.inj hl)
      · rw [if_neg hxp] at hl
        obtain ⟨fv₀, hx₀, heq⟩ := Option.map_eq_some_iff.mp hl.symm
        exact (congrArg Prod.fst heq).symm.trans (h.self x fv₀ hx₀)
    · have hl := hlinks x
      rw [if_neg (by omega), h.fresh x (hn.trans hx)] at hl
      exact Option.map_eq_none_iff.mp hl
    · rw [hrefs]
      refine h.counted.make hnot fun x hx => ?_
      rw [← Option.some.inj hx]
      exact Sys.refs_live.mpr hq

theorem Referenced.retired (h : Referenced u held) (k : Retired u p t) (hn : u.vol.io.nvn ≤ t.vol.io.nvn) : Referenced t held := by
  cases k with
  | kept k => exact h.same k hn
  | @gone fv hp h0 hlinks hcount =>
    have hlive : (u.refs held).Live p := Sys.refs_live.mpr (by
      rw [hp]
      exact Option.some_ne_none _)
    have hpar : (u.refs held).parent p = some fv.parentVp := by
      show (u.vnodes p).map Fv.parentVp = _
      rw [hp]
      rfl
    have hrefs : t.refs held = (u.refs held).drop p := by
      have hparents := parents_update hlinks
      have hcnt : t.vcount = fun x => if (u.refs held).parent p = some (some x) then u.vcount x - 1 else u.vcount x :=
        funext fun x => by
          rw [hcount, hpar]
          simp only [Option.some.injEq]
      show Refs.mk _ _ _ = Refs.mk _ _ _
      rw [hparents, hcnt]
      rfl
    have hback {x : Nat} {w : Fv} (hx : t.vnodes x = some w) : x ≠ p ∧ ∃ w₀, u.vnodes x = some w₀ ∧ w.links = w₀.links := by
      have hl := hlinks x
      rw [hx, Option.map_some] at hl
      by_cases hxp : x = p
      · rw [if_pos hxp] at hl
        cases hl
      · rw [if_neg hxp] at hl
        obtain ⟨w₀, hx₀, heq⟩ := Option.map_eq_some_iff.mp hl.symm
        exact ⟨hxp, w₀, hx₀, heq.symm⟩
    refine ⟨fun x w hx => ?_, fun x hx => ?_, ?_⟩
    · obtain ⟨-, w₀, hx₀, heq⟩ := hback hx
      exact (congrArg Prod.fst heq).trans (h.self x w₀ hx₀)
    · have hl := hlinks x
      rw [h.fresh x (hn.trans hx)] at hl
      have hnone : (t.vnodes x).map Fv.links = none := by
        rw [hl]
        split <;> rfl
      exact Option.map_eq_none_iff.mp hnone
    · rw [hrefs]
      exact h.counted.drop hlive h0

theorem Referenced.hold (h : Referenced u held) (hp : u.vnodes p ≠ none) :
    Referenced (vnHold p u).2 (Function.update held p (held p + 1)) where
  self := h.self
  fresh := h.fresh
  counted := h.counted.hold (Sys.refs_live.mpr hp)

theorem Referenced.rele (h : Referenced u held) (hp : 0 < held p) :
    Referenced (vnRele p u).2 (Function.update held p (held p - 1)) where
  self := h.self
  fresh := h.fresh
  counted := h.counted.release hp

/-- What is referred to is live. -/
theorem Referenced.live (h : Referenced u held) (hp : 0 < held p) : u.vnodes p ≠ none := Sys.refs_live.mp (h.counted.held p hp)

/-! ## Runs -/

/-- The system, and how many references to each vnode its users hold. -/
structure Session where
  sys : Sys
  mine : Nat → Nat

/-- The references to the root that the mount itself holds: that of `fat32_make_vnode`, and the one on top. -/
def Mount.own (m : Mount) (n p : Nat) : Nat := if p = m.rootvp then n else 0

/-- All references to `p`, of which the mount holds `n` to the root. -/
def Session.refCount (s : Session) (m : Mount) (n p : Nat) : Nat := s.mine p + m.own n p

/-- A call by the users, or by the kernel: `fat32_inactive` comes for any vnode at any time, and a reference is given back
only by those who hold it. -/
inductive RefStep (fsi : Fsi) (m : Mount) (s : Session) : Session → Prop
  | lookup (dir : Nat) (nm : List UInt8) :
      RefStep fsi m s ⟨(lookup fsi dir nm s.sys).2, given s.mine (lookup fsi dir nm s.sys).1⟩
  | create (dir : Nat) (name : List UInt8) (vap : Vattr) (excl : Bool) (mode : Access) (cr : Cred) :
      RefStep fsi m s ⟨(create fsi dir name vap excl mode cr s.sys).2, given s.mine (create fsi dir name vap excl mode cr s.sys).1⟩
  | mkdir (dir : Nat) (dirname : List UInt8) (vap : Vattr) (cr : Cred) :
      RefStep fsi m s ⟨(mkdir fsi dir dirname vap cr s.sys).2, given s.mine (mkdir fsi dir dirname vap cr s.sys).1⟩
  | root : RefStep fsi m s ⟨(root m s.sys).2, Function.update s.mine m.rootvp (s.mine m.rootvp + 1)⟩
  | call (op : VnOp) (hop : op.Plain) : RefStep fsi m s ⟨(op.exec fsi s.sys).2, s.mine⟩
  | hold (p : Nat) (hp : 0 < s.mine p) : RefStep fsi m s ⟨(vnHold p s.sys).2, Function.update s.mine p (s.mine p + 1)⟩
  | rele (p : Nat) (hp : 0 < s.mine p) : RefStep fsi m s ⟨(vnRele p s.sys).2, Function.update s.mine p (s.mine p - 1)⟩
  | inactive (p : Nat) : RefStep fsi m s ⟨(inactive fsi p s.sys).2, s.mine⟩

/-- Every reference of a session is counted, the `n` of the mount too. -/
def Session.Counts (s : Session) (m : Mount) (n : Nat) : Prop := Referenced s.sys (s.refCount m n)

section Steps

variable {m : Mount} {s s' : Session} {n : Nat}

theorem refCount_update (s : Session) (m : Mount) (n : Nat) (u : Sys) (p k : Nat) :
    (Session.mk u (Function.update s.mine p k)).refCount m n = Function.update (s.refCount m n) p (k + m.own n p) := by
  funext x
  show Function.update s.mine p k x + m.own n x = _
  by_cases hx : x = p
  · rw [hx, Function.update_self, Function.update_self]
  · rw [Function.update_of_ne hx, Function.update_of_ne hx]
    rfl

theorem given_refCount (s : Session) (m : Mount) (n : Nat) (r : Out Errno (Option Nat)) (u : Sys) :
    given (s.refCount m n) r = (Session.mk u (given s.mine r)).refCount m n := by
  rcases r with (_ | p) | _ | _
  · rfl
  · refine Eq.trans ?_ (refCount_update s m n u p _).symm
    show Function.update (s.refCount m n) p (s.mine p + m.own n p + 1) = _
    rw [Nat.add_right_comm]
  · rfl
  · rfl

theorem Session.Counts.root_pos (hn : 0 < n) : 0 < s.refCount m n m.rootvp := by
  show 0 < s.mine m.rootvp + m.own n m.rootvp
  rw [Mount.own, if_pos rfl]
  exact Nat.add_pos_right _ hn

theorem Session.Counts.hold (h : s.Counts m n) (hp : s.sys.vnodes p ≠ none) :
    Session.Counts ⟨(vnHold p s.sys).2, Function.update s.mine p (s.mine p + 1)⟩ m n := by
  have hheld := Referenced.hold h hp
  rw [show s.refCount m n p = s.mine p + m.own n p from rfl, Nat.add_right_comm] at hheld
  unfold Session.Counts
  rwa [refCount_update]

theorem Session.Counts.rele (h : s.Counts m n) (hp : 0 < s.mine p) :
    Session.Counts ⟨(vnRele p s.sys).2, Function.update s.mine p (s.mine p - 1)⟩ m n := by
  have hheld := Referenced.rele h (Nat.add_pos_left hp (m.own n p))
  rw [show s.refCount m n p = s.mine p + m.own n p from rfl, Nat.sub_add_comm hp] at hheld
  unfold Session.Counts
  rwa [refCount_update]

/-- The mount gives back one of its own. -/
theorem Session.Counts.rele_root (h : s.Counts m (n + 1)) : Session.Counts ⟨(vnRele m.rootvp s.sys).2, s.mine⟩ m n := by
  have hheld := Referenced.rele h (Session.Counts.root_pos (Nat.succ_pos n))
  have hown : Function.update (s.refCount m (n + 1)) m.rootvp (s.refCount m (n + 1) m.rootvp - 1) = s.refCount m n := funext fun x => by
    unfold Session.refCount Mount.own
    by_cases hx : x = m.rootvp
    · rw [hx, Function.update_self, if_pos rfl, if_pos rfl]
      rfl
    · rw [Function.update_of_ne hx, if_neg hx, if_neg hx]
  rwa [hown] at hheld

theorem RefStep.counts (hstep : RefStep fsi m s s') (hn : 0 < n) (h : s.Counts m n) : s'.Counts m n := by
  have B := nvn_blockRel fsi
  have hself := Referenced.selfLinked h
  -- a call that returns a vnode
  have hopen {c : SysM (Option Nat)} (he : WP c s.sys (Effect s.sys)) (hn : s.sys.vol.io.nvn ≤ (c s.sys).2.vol.io.nvn) :
      Session.Counts ⟨(c s.sys).2, given s.mine (c s.sys).1⟩ m n := by
    unfold WP at he
    have href := Referenced.effect h he hn
    rwa [given_refCount s m n _ (c s.sys).2] at href
  cases hstep with
  | lookup dir nm => exact hopen (lookup_effect hself nm) (B.lookup _ _ s.sys)
  | create dir name vap excl mode cr => exact hopen (create_effect hself name vap excl mode cr) (B.create _ _ _ _ _ _ s.sys)
  | mkdir dir name vap cr => exact hopen (mkdir_effect hself name vap cr) (B.mkdir _ _ _ _ s.sys)
  | root => exact h.hold (Referenced.live h (Session.Counts.root_pos hn))
  | call op hop => exact Referenced.same h (exec_links hop s.sys) (B.exec op s.sys)
  | hold p hp => exact h.hold (Referenced.live h (Nat.add_pos_left hp (m.own n p)))
  | rele p hp => exact h.rele hp
  | inactive p =>
    have hret := @inactive_retired fsi s.sys p
    unfold WP at hret
    exact Referenced.retired h hret (B.inactive p s.sys)

/-- A run of calls. -/
abbrev RefRun (fsi : Fsi) (m : Mount) : Session → Session → Prop := Relation.ReflTransGen (RefStep fsi m)

theorem RefRun.counts (hrun : RefRun fsi m s s') (hn : 0 < n) (h : s.Counts m n) : s'.Counts m n := by
  induction hrun with
  | refl => exact h
  | tail _ hstep ih => exact hstep.counts hn ih

end Steps

end Fat32
