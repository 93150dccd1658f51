import Mathlib
import Fat32.Proof.RenameFat

/-!
# Renaming and the file that is renamed

`rename` searches for the source, searches for the target and removes it, and
enters the source under its new name. The two searches see the same volume
(`SysSeen`), so both entries can be named in the state before the call (`Found`).
-/

namespace Fat32

open Bytes Exec Prog Linked

variable {fsi : Fsi} {s t u : Sys}

/-! ## Programs on a live vnode -/

theorem onVnode_wp {α : Type} {p : Nat} {fv : Fv} {m : FvM α} {Q : Out Errno α → Sys → Prop}
    (hp : s.vnodes p = some fv) (hm : WP m ⟨s.vol, fv⟩ fun r v =>
      Q r { s with vol := v.vol, vnodes := Function.update s.vnodes p (some v.fv) }) :
    WP (onVnode p m) s Q := by
  unfold WP at hm ⊢
  unfold onVnode
  rw [hp]
  exact hm

theorem onVnode_some {α : Type} {p : Nat} {fv : Fv} {m : FvM α} (hp : s.vnodes p = some fv) :
    onVnode p m s = ((m ⟨s.vol, fv⟩).1, { s with
      vol := (m ⟨s.vol, fv⟩).2.vol
      vnodes := Function.update s.vnodes p (some (m ⟨s.vol, fv⟩).2.fv) }) := by
  unfold onVnode
  rw [hp]

/-- The live vnodes lead to the same clusters. -/
def SameDirs (s t : Sys) : Prop :=
  ∀ p fv, s.vnodes p = some fv → ∃ fv', t.vnodes p = some fv' ∧ fv'.cluster = fv.cluster

theorem SameDirs.refl (s : Sys) : SameDirs s s := fun _ fv h => ⟨fv, h, rfl⟩

theorem SameDirs.trans (h : SameDirs s t) (k : SameDirs t u) : SameDirs s u := by
  intro p fv hp
  obtain ⟨fv', hp', e⟩ := h p fv hp
  obtain ⟨fv'', hp'', e'⟩ := k p fv' hp'
  exact ⟨fv'', hp'', e'.trans e⟩

theorem SameDirs.update {p : Nat} {fv fv' : Fv} (hp : s.vnodes p = some fv)
    (h : fv'.cluster = fv.cluster) (v : Vol) :
    SameDirs s { s with vol := v, vnodes := Function.update s.vnodes p (some fv') } := by
  intro q fw hq
  by_cases hqp : q = p
  · subst hqp
    obtain rfl : fv = fw := Option.some.inj (hp.symm.trans hq)
    exact ⟨fv', Function.update_self _ _ _, h⟩
  · exact ⟨fw, (Function.update_of_ne hqp _ _).trans hq, rfl⟩

/-- A state with the disk of `s`, reached by searches. -/
structure SysSeen (fsi : Fsi) (s t : Sys) : Prop where
  vol : Same s.vol t.vol
  vnode : ∀ p fv, s.vnodes p = some fv → ∃ fv', t.vnodes p = some fv' ∧ CacheOnly fv fv' ∧
    (CacheOk fsi (view fsi s.vol.disk).fat fv.cluster fv.clsCache →
      CacheOk fsi (view fsi s.vol.disk).fat fv'.cluster fv'.clsCache)

theorem SysSeen.refl (s : Sys) : SysSeen fsi s s := ⟨.refl _, fun _ fv h => ⟨fv, h, .refl _, id⟩⟩

theorem SysSeen.sameDirs (h : SysSeen fsi s t) : SameDirs s t := by
  intro p fv hp
  obtain ⟨fv', hp', hc, -⟩ := h.vnode p fv hp
  exact ⟨fv', hp', hc.cluster⟩

/-- The volume is still the same after a program that only reads it. -/
theorem SysSeen.vol_same (h : SysSeen fsi s t) {v : Vol} (hv : Same t.vol v) :
    SysSeen fsi s { t with vol := v } := ⟨h.vol.trans hv, h.vnode⟩

/-- The entry that a search for `nm` in the directory at `p` finds. -/
def Found (fsi : Fsi) (s : Sys) (p : Nat) (nm : List UInt8) (fv : Fv) : Prop :=
  (onVnode p (findDirent fsi nm (vnodeNew fsi)) s).1 = .ok fv

theorem found_iff {p : Nat} {dir : Fv} (hp : s.vnodes p = some dir) {nm : List UInt8} {fv : Fv} :
    Found fsi s p nm fv ↔ (findDirent fsi nm (vnodeNew fsi) ⟨s.vol, dir⟩).1 = .ok fv := by
  unfold Found onVnode
  rw [hp]

section Search

variable (hk : Reliable fsi.kernel) (hg : Geometry fsi) (h : SysSeen fsi s t) {p : Nat} {fv : Fv}
  (hp : s.vnodes p = some fv)
  (hc : CacheOk fsi (view fsi s.vol.disk).fat fv.cluster fv.clsCache) (nm : List UInt8)
include hk hg h hp hc

omit hk hg in
theorem SysSeen.seen : ∃ fv', t.vnodes p = some fv' ∧ Seen fsi ⟨s.vol, fv⟩ ⟨t.vol, fv'⟩ := by
  obtain ⟨fv', hp', hfv, hc'⟩ := h.vnode p fv hp
  refine ⟨fv', hp', h.vol, hfv, hc, ?_⟩
  show CacheOk fsi (view fsi t.vol.disk).fat fv'.cluster fv'.clsCache
  rw [h.vol.disk]
  exact hc' hc

/-- A search finds what it finds in the first state. -/
theorem SysSeen.search : WP (onVnode p (findDirent fsi nm (vnodeNew fsi))) t fun r u =>
    r = (onVnode p (findDirent fsi nm (vnodeNew fsi)) s).1 ∧ SysSeen fsi s u := by
  obtain ⟨fv', hp', hseen⟩ := h.seen hp hc
  obtain ⟨e, hafter⟩ := findDirent_again hk hg nm (vnodeNew fsi) hseen
  have hs : (onVnode p (findDirent fsi nm (vnodeNew fsi)) s).1 =
      (findDirent fsi nm (vnodeNew fsi) ⟨s.vol, fv⟩).1 := by
    unfold onVnode
    rw [hp]
  refine onVnode_wp hp' (.of_run rfl ⟨e.trans hs.symm, hafter.vol, fun q fw hq => ?_⟩)
  by_cases hqp : q = p
  · subst hqp
    obtain rfl : fv = fw := Option.some.inj (hp.symm.trans hq)
    refine ⟨_, Function.update_self _ _ _, hafter.fv, fun _ => ?_⟩
    have hr := hafter.right
    rw [hafter.vol.disk] at hr
    exact hr
  · obtain ⟨fw', hw, hcw, hkw⟩ := h.vnode q fw hq
    exact ⟨fw', (Function.update_of_ne hqp _ _).trans hw, hcw, hkw⟩

end Search

/-! ## Making way for the target -/

/-- The write permission that removing an entry asks for. -/
def mayWrite (fsi : Fsi) (dir : Fv) (cr : Cred) : Prop :=
  faccess fsi dir { write := true, exec := true } cr = none

theorem mayWrite_congr {dir dir' : Fv} (h : CacheOnly dir dir') (cr : Cred) :
    faccess fsi dir' { write := true, exec := true } cr =
      faccess fsi dir { write := true, exec := true } cr := by
  obtain ⟨c, rfl⟩ := h
  rfl

/-- The entry `T` called `nm` in the directory `dir` may be removed as a file. -/
def Removable (fsi : Fsi) (dir : Fv) (nm : List UInt8) (cr : Cred) (T : Fv) : Prop :=
  T.type ≠ .vdir ∧ isDot nm = false ∧ mayWrite fsi dir cr

theorem InRange.ne_bad (hg : Geometry fsi) {c : Nat} (h : InRange fsi c) : c ≠ clusterBad := by
  have := h.2
  have := hg.count
  omega

/-- Marking slots ends, and changes no FAT entry. -/
theorem deleteFdentryChain_wp (hg : Geometry fsi) {d : Nat} (hd : InRange fsi d) {b : VnSt}
    (offset count : Nat) : WP (onVol (deleteFdentryChain fsi d offset count)) b fun r c =>
      r ≠ .hang ∧ c.fv = b.fv ∧ (view fsi c.vol.disk).fat = (view fsi b.vol.disk).fat := by
  have hkept : FatKept fsi (view fsi b.vol.disk).fat _ _ := deleteFdentryChain_kept hg hd offset count
  exact .on (.of_run rfl ⟨deleteFdentryChain_terminates _ _ _ b.vol, rfl, (hkept b.vol rfl trivial).1⟩)

/-- Removing a file frees what its first cluster leads to. -/
theorem removeCommon_fat (hk : Reliable fsi.kernel) (hg : Geometry fsi)
    (hfuel : fsi.clusterCount + 2 ≤ fsi.kernel.fuel) {a b : VnSt} (h : Seen fsi a b)
    (hc : InRange fsi a.fv.cluster) (nm : List UInt8) (cr : Cred) :
    WP (removeCommon fsi nm false none cr) b fun _ b' => b'.fv.cluster = a.fv.cluster ∧
      ((∃ T, (findDirent fsi nm (vnodeNew fsi) a).1 = .ok T ∧ Removable fsi a.fv nm cr T ∧
          ZeroedFrom fsi T.cluster (view fsi a.vol.disk).fat (view fsi b'.vol.disk).fat) ∨
        (view fsi b'.vol.disk).fat = (view fsi a.vol.disk).fat ∧
          ∀ T, (findDirent fsi nm (vnodeNew fsi) a).1 = .ok T → ¬ Removable fsi a.fv nm cr T) := by
  have hfat : (view fsi b.vol.disk).fat = (view fsi a.vol.disk).fat := by rw [h.vol.disk]
  obtain ⟨hres, hseen⟩ := findDirent_again hk hg nm (vnodeNew fsi) h
  have hfat' : (view fsi (findDirent fsi nm (vnodeNew fsi) b).2.vol.disk).fat =
      (view fsi a.vol.disk).fat := by rw [hseen.vol.disk]
  unfold removeCommon
  refine .ite (fun hd => .of_run rfl ⟨h.cluster, .inr ⟨hfat, fun T _ hT => ?_⟩⟩) fun hd => ?_
  · rw [hT.2.1] at hd
    cases hd
  refine .get_bind ?_
  rw [mayWrite_congr h.fv]
  split
  · rename_i e he
    refine .of_run rfl ⟨h.cluster, .inr ⟨hfat, fun T _ hT => ?_⟩⟩
    rw [hT.2.2] at he
    cases he
  rename_i hacc
  rcases hr : findDirent fsi nm (vnodeNew fsi) b with ⟨T | e | _, b1⟩ <;>
    simp only [hr] at hres hseen hfat'
  · have hparent : T.parentCluster = b.fv.cluster := by
      have hentry := (findDirent_entry b.fv.cluster nm b rfl trivial).2 T (by rw [hr])
      obtain ⟨e, st, hT⟩ := hentry
      rw [hT]
      rfl
    refine .ok_bind hr ?_
    by_cases ht : T.type = .vdir
    · have hcheck : removeCheck fsi T false none = fail .eisdir := by
        unfold removeCheck
        rw [if_neg (by decide), if_pos ht]
      rw [hcheck]
      refine .of_run rfl ⟨hseen.cluster, .inr ⟨hfat', fun T' hT' hrem => ?_⟩⟩
      obtain rfl := Out.ok.inj (hres.trans hT')
      exact hrem.1 ht
    · have hcheck : removeCheck fsi T false none = pure () := by
        unfold removeCheck
        rw [if_neg (by decide), if_neg ht]
      have hrun : onVol (removeCheck fsi T false none) b1 = (.ok (), b1) := by
        rw [hcheck]
        rfl
      refine .ok_bind hrun (.ite (fun hbad => ?_) fun _ => ?_)
      · rw [hparent, h.cluster] at hbad
        exact absurd hbad (hc.ne_bad hg)
      have hrange : InRange fsi T.parentCluster := by rwa [hparent, h.cluster]
      have hrem : Removable fsi a.fv nm cr T := ⟨ht, by simpa using hd, hacc⟩
      -- the slots are marked, then the clusters freed
      have hdel := deleteFdentryChain_wp (b := b1) hg hrange T.diroff T.dirsz
      rw [hfat'] at hdel
      refine .attempt_bind hdel fun _ b2 ⟨hfv2, hfat2⟩ => ?_
      have hcl : b2.fv.cluster = a.fv.cluster := by rw [hfv2, hseen.cluster]
      -- the modification time comes last
      have hend (b3 : VnSt) (hcl3 : b3.fv.cluster = a.fv.cluster) (hZ : ZeroedFrom fsi T.cluster
          (view fsi a.vol.disk).fat (view fsi b3.vol.disk).fat) :
          WP (touchFv fsi false true) b3 fun _ b' => b'.fv.cluster = a.fv.cluster ∧
            ((∃ T, (findDirent fsi nm (vnodeNew fsi) a).1 = .ok T ∧ Removable fsi a.fv nm cr T ∧
              ZeroedFrom fsi T.cluster (view fsi a.vol.disk).fat (view fsi b'.vol.disk).fat) ∨
              (view fsi b'.vol.disk).fat = (view fsi a.vol.disk).fat ∧ ∀ T,
                (findDirent fsi nm (vnodeNew fsi) a).1 = .ok T → ¬ Removable fsi a.fv nm cr T) := by
        obtain ⟨b4, e4, hway⟩ := touchFv_way fsi false true b3
        have hq : Same b3.vol (touchFv fsi false true b3).2.vol := (touchFv_quiet false true b3).same
        rw [e4] at hq
        refine .of_run e4 ⟨hway.cluster.trans hcl3, .inl ⟨T, hres.symm, hrem, ?_⟩⟩
        rwa [hq.disk]
      by_cases h0 : T.cluster = 0
      · rw [if_neg (not_not.mpr h0)]
        refine .ok_bind rfl (hend _ hcl ?_)
        rw [hfat2, h0]
        exact .none (fun h => absurd h.1 (by decide)) _
      · rw [if_pos h0]
        have hfree : WP (onVol (freeClusters fsi T.cluster true)) b2 fun r b3 => r ≠ .hang ∧
            b3.fv.cluster = a.fv.cluster ∧ ZeroedFrom fsi T.cluster (view fsi a.vol.disk).fat
              (view fsi b3.vol.disk).fat := by
          refine .on ((freeClusters_any hk hg hfuel T.cluster b2.vol).mono fun r v hv => ?_)
          rw [← hfat2]
          exact ⟨hv.1, hcl, hv.2⟩
        exact .attempt_bind hfree fun _ b3 h3 => hend b3 h3.1 h3.2
  · refine .of_run (bind_err hr) ⟨hseen.cluster, .inr ⟨hfat', fun T' hT' => ?_⟩⟩
    cases hres.trans hT'
  · refine .of_run (bind_hang hr) ⟨hseen.cluster, .inr ⟨hfat', fun T' hT' => ?_⟩⟩
    cases hres.trans hT'

/-- Removing a directory that is not empty changes no FAT entry. -/
theorem removeCommon_full (hk : Reliable fsi.kernel) (hg : Geometry fsi) {a b : VnSt}
    (h : Seen fsi a b) (nm : List UInt8) (cr : Cred) {T : Fv}
    (hT : (findDirent fsi nm (vnodeNew fsi) a).1 = .ok T)
    (hne : ∀ x, (dirempty fsi T a.vol).1 ≠ .ok x) :
    WP (removeCommon fsi nm true none cr) b fun _ b' => b'.fv.cluster = a.fv.cluster ∧
      (view fsi b'.vol.disk).fat = (view fsi a.vol.disk).fat := by
  have hstop {b' : VnSt} (hb : Seen fsi a b') : b'.fv.cluster = a.fv.cluster ∧
      (view fsi b'.vol.disk).fat = (view fsi a.vol.disk).fat := ⟨hb.cluster, by rw [hb.vol.disk]⟩
  obtain ⟨hres, hseen⟩ := findDirent_again hk hg nm (vnodeNew fsi) h
  unfold removeCommon
  refine .ite (fun _ => .of_run rfl (hstop h)) fun _ => .get_bind ?_
  split
  · exact .of_run rfl (hstop h)
  rcases hr : findDirent fsi nm (vnodeNew fsi) b with ⟨T' | e | _, b1⟩ <;>
    simp only [hr] at hres hseen
  · obtain rfl := Out.ok.inj (hres.trans hT)
    refine .ok_bind hr ?_
    -- the check of emptiness fails as it did before
    have hcheck : WP (removeCheck fsi T' true none) b1.vol
        fun r v => (∀ x, r ≠ .ok x) ∧ Same b1.vol v := by
      have hempty : WP (dirempty fsi T') b1.vol fun r v => (∀ x, r ≠ .ok x) ∧ Same b1.vol v := by
        have hq : Same b1.vol (dirempty fsi T' b1.vol).2 := (dirempty_quiet T' b1.vol).same
        have hsim := (dirempty_sim hk T' a.vol b1.vol hseen.vol).1
        exact .of_run rfl ⟨fun x hx => hne x (hsim.trans hx), hq⟩
      exact .ite (fun _ => .ite (fun _ => .of_run rfl ⟨nofun, .refl _⟩) fun _ =>
        .ite (fun _ => .of_run rfl ⟨nofun, .refl _⟩) fun _ => hempty) fun hn => absurd rfl hn
    refine .on_bind hcheck (fun x _ hx => absurd rfl (hx.1 x)) (fun _ _ hx => ?_) fun _ hx => ?_
    · exact hstop (hseen.vol_same hx.2)
    · exact hstop (hseen.vol_same hx.2)
  · exact .of_run (bind_err hr) (hstop hseen)
  · exact .of_run (bind_hang hr) (hstop hseen)

/-- The target `T` is removed to make way for the file `src`. -/
def Replaces (fsi : Fsi) (dir : Fv) (tnm : List UInt8) (cr : Cred) (src T : Fv) : Prop :=
  src.type ≠ .vdir ∧ Removable fsi dir tnm cr T

theorem renameTarget_fat (hk : Reliable fsi.kernel) (hg : Geometry fsi)
    (hfuel : fsi.clusterCount + 2 ≤ fsi.kernel.fuel) (h : SysSeen fsi s t) {tdir : Nat} {dir : Fv}
    (hp : s.vnodes tdir = some dir) (hr : InRange fsi dir.cluster)
    (hc : CacheOk fsi (view fsi s.vol.disk).fat dir.cluster dir.clsCache) (tnm : List UInt8)
    (cr : Cred) (src : Fv) :
    WP (renameTarget fsi tdir tnm src cr) t fun _ u => SameDirs s u ∧
      ((∃ T, Found fsi s tdir tnm T ∧ Replaces fsi dir tnm cr src T ∧
          ZeroedFrom fsi T.cluster (view fsi s.vol.disk).fat (view fsi u.vol.disk).fat) ∨
        (view fsi u.vol.disk).fat = (view fsi s.vol.disk).fat ∧
          ∀ T, Found fsi s tdir tnm T → ¬ Replaces fsi dir tnm cr src T) := by
  have hstop {u : Sys} (hu : SysSeen fsi s u)
      (hn : ∀ T, Found fsi s tdir tnm T → ¬ Replaces fsi dir tnm cr src T) : SameDirs s u ∧
      ((∃ T, Found fsi s tdir tnm T ∧ Replaces fsi dir tnm cr src T ∧
          ZeroedFrom fsi T.cluster (view fsi s.vol.disk).fat (view fsi u.vol.disk).fat) ∨
        (view fsi u.vol.disk).fat = (view fsi s.vol.disk).fat ∧
          ∀ T, Found fsi s tdir tnm T → ¬ Replaces fsi dir tnm cr src T) :=
    ⟨hu.sameDirs, .inr ⟨by rw [hu.vol.disk], hn⟩⟩
  have hsearch := h.search hk hg hp hc tnm
  unfold WP at hsearch
  unfold renameTarget
  rcases hrun : onVnode tdir (findDirent fsi tnm (vnodeNew fsi)) t with ⟨T | e | _, t1⟩ <;>
    simp only [hrun] at hsearch <;> obtain ⟨hres, hseen⟩ := hsearch
  · have hfound : Found fsi s tdir tnm T := hres.symm
    have honly (P : Fv → Prop) (hP : P T) : ∀ T', Found fsi s tdir tnm T' → P T' := by
      intro T' hT'
      obtain rfl : T = T' := Out.ok.inj (hfound.symm.trans hT')
      exact hP
    obtain ⟨dir1, hp1, hdir1⟩ := hseen.seen hp hc
    have hdirs {fv : Fv} (he : fv.cluster = dir1.cluster) (v : Vol) := hseen.sameDirs.trans
      (.update hp1 he v)
    refine .ok_bind (attempt_ok hrun) ?_
    dsimp only
    by_cases ht : T.type = .vdir
    · have hn := honly (fun T => ¬ Replaces fsi dir tnm cr src T) fun hR => hR.2.1 ht
      rw [if_pos ht]
      refine .ite (fun _ => .of_run rfl (hstop hseen hn)) fun _ => ?_
      have hempty : Same t1.vol (dirempty fsi T t1.vol).2 := (dirempty_quiet T t1.vol).same
      have hsim := (dirempty_sim hk T s.vol t1.vol hseen.vol).1
      rcases hd : dirempty fsi T t1.vol with ⟨x | e | _, v2⟩ <;> rw [hd] at hempty hsim
      · have hrun2 : onSysVol (dirempty fsi T) t1 = (.ok x, { t1 with vol := v2 }) := on_run hd
        refine .ok_bind (attempt_ok hrun2) (.of_run rfl (hstop (hseen.vol_same hempty) hn))
      · have hrun2 : onSysVol (dirempty fsi T) t1 = (.err e, { t1 with vol := v2 }) := on_run hd
        refine .ok_bind (attempt_err hrun2) ?_
        rw [decide_eq_true ht]
        have hfull : ∀ x, (dirempty fsi T s.vol).1 ≠ .ok x := by
          intro x hx
          rw [hx] at hsim
          cases hsim
        have hT : (findDirent fsi tnm (vnodeNew fsi) ⟨s.vol, dir⟩).1 = .ok T := by
          rwa [← found_iff hp]
        refine onVnode_wp hp1
          ((removeCommon_full hk hg (hdir1.vol_same hempty) tnm cr hT hfull).mono fun r b hb => ?_)
        exact ⟨hdirs (hb.1.trans hdir1.cluster.symm) _, .inr ⟨hb.2, hn⟩⟩
      · have hrun2 : onSysVol (dirempty fsi T) t1 = (.hang, { t1 with vol := v2 }) := on_run hd
        have hhang : attempt (onSysVol (dirempty fsi T)) t1 = (.hang, { t1 with vol := v2 }) := by
          rw [attempt, hrun2]
        exact .of_run (bind_hang hhang) (hstop (hseen.vol_same hempty) hn)
    · rw [if_neg ht]
      refine .ite (fun hd => .of_run rfl (hstop hseen ?_)) fun hd => ?_
      · exact honly (fun T => ¬ Replaces fsi dir tnm cr src T) fun hR => hR.1 hd
      · rw [decide_eq_false ht]
        refine onVnode_wp hp1 ((removeCommon_fat hk hg hfuel hdir1 hr tnm cr).mono fun r b hb => ?_)
        refine ⟨hdirs (hb.1.trans hdir1.cluster.symm) _, hb.2.imp ?_ (And.imp id ?_)⟩
        · rintro ⟨T, hT, hrem, hZ⟩
          exact ⟨T, (found_iff hp).mpr hT, ⟨hd, hrem⟩, hZ⟩
        · exact fun hnot T hT hR => hnot T ((found_iff hp).mp hT) hR.2
  · refine .ok_bind (attempt_err hrun) ?_
    have hn : ∀ T, Found fsi s tdir tnm T → ¬ Replaces fsi dir tnm cr src T :=
      fun T hT => absurd (hres.trans hT) Out.err_ne_ok
    exact .ite (fun _ => .of_run rfl (hstop hseen hn)) fun _ => .of_run rfl (hstop hseen hn)
  · have hhang : attempt (onVnode tdir (findDirent fsi tnm (vnodeNew fsi))) t = (.hang, t1) := by
      rw [attempt, hrun]
    exact .of_run (bind_hang hhang) (hstop hseen fun T hT => absurd (hres.trans hT) Out.hang_ne_ok)

/-! ## The call -/

/-- The directories are where they were in `s`, and the FAT is as `K` tells. -/
def Stays (fsi : Fsi) (s : Sys) (K : (Nat → Nat) → Prop) (u : Sys) : Prop :=
  SameDirs s u ∧ K (view fsi u.vol.disk).fat

section Stays

variable {K : (Nat → Nat) → Prop} {P : Sys → Prop}

theorem touchFv_stays (p : Nat) (a m : Bool) :
    Maintains (Stays fsi s K) P (onVnode p (touchFv fsi a m)) fun _ _ => True := by
  intro u ⟨hd, hK⟩ _
  refine ⟨?_, fun _ _ => trivial⟩
  unfold onVnode
  split
  · exact ⟨hd, hK⟩
  · rename_i fv hfv
    obtain ⟨b, e, hway⟩ := touchFv_way fsi a m ⟨u.vol, fv⟩
    have hq : Same u.vol (touchFv fsi a m ⟨u.vol, fv⟩).2.vol := (touchFv_quiet a m ⟨u.vol, fv⟩).same
    rw [e] at hq
    rw [e]
    refine ⟨hd.trans (.update hfv hway.cluster _), ?_⟩
    rw [← hq.disk] at hK
    exact hK

theorem onSysVol_stays {α : Type} {m : FsM α} (hm : ∀ fat, FatKept fsi fat m fun _ => True) :
    Maintains (Stays fsi s K) P (onSysVol m) fun _ _ => True := by
  intro u ⟨hd, hK⟩ _
  have h : (view fsi (m u.vol).2.disk).fat = (view fsi u.vol.disk).fat :=
    (hm _ u.vol rfl trivial).1
  refine ⟨⟨hd, ?_⟩, fun _ _ => trivial⟩
  rw [← h] at hK
  exact hK

theorem getVnode_stays (p : Nat) : Maintains (Stays fsi s K) P (getVnode p) fun fv u =>
    u.vnodes p = some fv := by
  intro u hu _
  rcases hp : u.vnodes p with _ | fv
  · rw [getVnode_none hp]
    refine ⟨hu, fun a ha => ?_⟩
    cases ha
  · rw [getVnode_some hp]
    refine ⟨hu, fun a ha => ?_⟩
    rw [← Out.ok.inj ha]
    exact hp

end Stays

/-- `src` and `T` are the entries that the call finds when it removes the target. -/
def Replaced (fsi : Fsi) (s : Sys) (sdir : Nat) (snm : List UInt8) (tdir : Nat) (tnm : List UInt8)
    (cr : Cred) (src T : Fv) : Prop :=
  ∃ sfv tfv, s.vnodes sdir = some sfv ∧ s.vnodes tdir = some tfv ∧
    ¬ (sfv.cluster = tfv.cluster ∧ snm = tnm) ∧ Found fsi s sdir snm src ∧
    Found fsi s tdir tnm T ∧ Replaces fsi tfv tnm cr src T

section Rename

variable {sdir tdir : Nat} {snm tnm : List UInt8} {cr : Cred} {sfv tfv : Fv}

/-- What comes after the new entry. -/
theorem rename_tail {K : (Nat → Nat) → Prop} (sdir tdir : Nat) (hg : Geometry fsi) (src : Fv) (sameDir : Bool)
    (hsub : src.type = .vdir → sameDir = false → InRange fsi src.cluster ∨ src.cluster < clusterMin) :
    Maintains (Stays fsi s K) (fun _ => True) (do
      let tdvp ← getVnode tdir
      if src.type = .vdir ∧ ¬ sameDir then onSysVol (renameDotdot fsi src.cluster tdvp.cluster)
      else pure ()
      onVnode sdir (touchFv fsi false true)
      if ¬ sameDir then onVnode tdir (touchFv fsi false true) else pure ()) fun _ _ => True := by
  have htouch : Maintains (Stays fsi s K) (fun _ => True) (do
      onVnode sdir (touchFv fsi false true)
      if ¬ sameDir then onVnode tdir (touchFv fsi false true) else pure ()) fun _ _ => True :=
    .bind (touchFv_stays sdir _ _) fun _ => .ite (fun _ => touchFv_stays tdir _ _) fun _ =>
      .pure fun _ _ _ => trivial
  refine .bind ((getVnode_stays tdir).mono (fun _ _ _ => trivial) fun _ _ _ _ => trivial) fun tdvp => ?_
  refine .ite (fun h => .bind (onSysVol_stays fun fat => ?_) fun _ => htouch) fun _ => htouch
  exact renameDotdot_kept hg (hsub h.1 (Bool.not_eq_true _ ▸ h.2)) _

/-- The new entry in the slots of the old one. -/
theorem renameReuse_appends (hk : Reliable fsi.kernel) (hg : Geometry fsi) (src : Fv) {a : VnSt}
    (hc : InRange fsi a.fv.cluster) : WP (renameReuse fsi src tnm) a fun _ b => b.fv = a.fv ∧
      Appends fsi a.fv.cluster (view fsi a.vol.disk).fat (view fsi b.vol.disk).fat := by
  unfold renameReuse
  have hrename : ({ rename := true, reuse := true, dir := src.type = .vdir } : CreFlags).rename :=
    rfl
  have hcreate := createFdentry_appends hk hg src tnm hrename hc
  refine .bind hcreate (fun _ b hb => ?_) (fun _ _ h => h) fun _ h => h
  refine .ite (fun _ => .get_bind ?_) fun _ => .of_run rfl hb
  have hrange : InRange fsi b.fv.cluster := by rwa [hb.1]
  refine .attempt_bind (deleteFdentryChain_wp hg hrange _ _) fun _ c hc => .of_run rfl ?_
  rw [hc.1, hc.2]
  exact hb

/-- From the removal of the target on, clusters are only appended. -/
theorem rename_entry (hk : Reliable fsi.kernel) (hg : Geometry fsi) (hs : s.vnodes sdir = some sfv)
    (ht : s.vnodes tdir = some tfv) (hsr : InRange fsi sfv.cluster) (htr : InRange fsi tfv.cluster)
    (src : Fv) (hsub : src.type = .vdir → sfv.cluster ≠ tfv.cluster →
      InRange fsi src.cluster ∨ src.cluster < clusterMin) (hd : SameDirs s u) :
    WP (do
      if decide (sfv.cluster = tfv.cluster) = true ∧ nameSlots tnm ≤ src.dirsz then
        onVnode sdir (renameReuse fsi src tnm)
      else do
        let sdvp ← getVnode sdir
        onSysVol (deleteFdentryChain fsi sdvp.cluster src.diroff src.dirsz)
        let _ ← onVnode tdir (createFdentry fsi src tnm { rename := true, dir := src.type = .vdir })
        pure ()
      let tdvp ← getVnode tdir
      if src.type = .vdir ∧ ¬ decide (sfv.cluster = tfv.cluster) then
        onSysVol (renameDotdot fsi src.cluster tdvp.cluster)
      else pure ()
      onVnode sdir (touchFv fsi false true)
      if ¬ decide (sfv.cluster = tfv.cluster) then onVnode tdir (touchFv fsi false true)
      else pure ()) u fun _ w =>
        Appends fsi tfv.cluster (view fsi u.vol.disk).fat (view fsi w.vol.disk).fat := by
  obtain ⟨su, hsu, hscl⟩ := hd sdir sfv hs
  obtain ⟨tu, htu, htcl⟩ := hd tdir tfv ht
  have htail (w : Sys) (hw : Stays fsi s (Appends fsi tfv.cluster (view fsi u.vol.disk).fat) w) :=
    ((rename_tail sdir tdir hg src (decide (sfv.cluster = tfv.cluster))
      fun h hne => hsub h (of_decide_eq_false hne)).wp hw trivial).mono fun _ _ h => h.2
  refine .ite (fun h => ?_) fun _ => ?_
  · have hsame := of_decide_eq_true h.1
    have hreuse : WP (onVnode sdir (renameReuse fsi src tnm)) u fun _ w =>
        Stays fsi s (Appends fsi tfv.cluster (view fsi u.vol.disk).fat) w := by
      refine onVnode_wp hsu ((renameReuse_appends hk hg src (hscl.symm ▸ hsr)).mono fun _ b hb => ?_)
      refine ⟨hd.trans (.update hsu (by rw [hb.1]) _), ?_⟩
      have happ := hb.2
      rw [hscl, hsame] at happ
      exact happ
    exact .bind hreuse (fun _ w hw => htail w hw) (fun _ _ hw => hw.2) fun _ hw => hw.2
  · refine .ok_bind (getVnode_some hsu) ?_
    rw [hscl]
    have hdel : WP (onSysVol (deleteFdentryChain fsi sfv.cluster src.diroff src.dirsz)) u
        fun _ w => Stays fsi s (· = (view fsi u.vol.disk).fat) w :=
      (onSysVol_stays (P := fun _ => True) fun fat =>
        deleteFdentryChain_kept hg hsr src.diroff src.dirsz).wp ⟨hd, rfl⟩ trivial
    refine .bind hdel (fun _ w hw => ?_) (fun _ _ hw => .inl hw.2) fun _ hw => .inl hw.2
    obtain ⟨tw, htw, htwcl⟩ := hw.1 tdir tfv ht
    have hcreate : WP (onVnode tdir (createFdentry fsi src tnm
        { rename := true, dir := src.type = .vdir })) w fun _ w' =>
        Stays fsi s (Appends fsi tfv.cluster (view fsi u.vol.disk).fat) w' := by
      refine onVnode_wp htw ((createFdentry_appends hk hg src tnm rfl (htwcl.symm ▸ htr)).mono
        fun _ b hb => ?_)
      refine ⟨hw.1.trans (.update htw (by rw [hb.1]) _), ?_⟩
      have happ := hb.2
      rw [htwcl, hw.2] at happ
      exact happ
    exact .bind hcreate (fun _ w hw => htail w hw) (fun _ _ hw => hw.2) fun _ hw => hw.2

/-- The removal frees the target, then clusters are appended to its directory. -/
theorem rename_steps (tnm : List UInt8) (cr : Cred) (hk : Reliable fsi.kernel) (hg : Geometry fsi)
    (hfuel : fsi.clusterCount + 2 ≤ fsi.kernel.fuel)
    (hs : s.vnodes sdir = some sfv) (ht : s.vnodes tdir = some tfv)
    (hsr : InRange fsi sfv.cluster) (htr : InRange fsi tfv.cluster)
    (hsc : CacheOk fsi (view fsi s.vol.disk).fat sfv.cluster sfv.clsCache)
    (htc : CacheOk fsi (view fsi s.vol.disk).fat tfv.cluster tfv.clsCache)
    (hsub : ∀ src, Found fsi s sdir snm src → src.type = .vdir → sfv.cluster ≠ tfv.cluster →
      InRange fsi src.cluster ∨ src.cluster < clusterMin) :
    WP (rename fsi sdir snm tdir tnm cr) s fun _ u => ∃ fat₁,
      Appends fsi tfv.cluster fat₁ (view fsi u.vol.disk).fat ∧
      ((∃ src T, Replaced fsi s sdir snm tdir tnm cr src T ∧
          ZeroedFrom fsi T.cluster (view fsi s.vol.disk).fat fat₁) ∨
        fat₁ = (view fsi s.vol.disk).fat ∧ ∀ src T, ¬ Replaced fsi s sdir snm tdir tnm cr src T) := by
  have hstop {u : Sys} (hu : SysSeen fsi s u)
      (hn : ∀ src T, ¬ Replaced fsi s sdir snm tdir tnm cr src T) :
      ∃ fat₁, Appends fsi tfv.cluster fat₁ (view fsi u.vol.disk).fat ∧
        ((∃ src T, Replaced fsi s sdir snm tdir tnm cr src T ∧
          ZeroedFrom fsi T.cluster (view fsi s.vol.disk).fat fat₁) ∨
        fat₁ = (view fsi s.vol.disk).fat ∧ ∀ src T, ¬ Replaced fsi s sdir snm tdir tnm cr src T) :=
    ⟨_, .inl rfl, .inr ⟨by rw [hu.vol.disk], hn⟩⟩
  have hseen₀ : SysSeen fsi s s := .refl s
  have hsearch := hseen₀.search hk hg hs hsc snm
  unfold WP at hsearch
  unfold rename
  refine .ok_bind (getVnode_some hs) (.ok_bind (getVnode_some ht) ?_)
  dsimp only
  refine .ite (fun hsame => .of_run rfl (hstop (.refl s) ?_)) fun hne => ?_
  · rintro src T ⟨sfv', tfv', hs', ht', hne, -⟩
    obtain rfl := Option.some.inj (hs.symm.trans hs')
    obtain rfl := Option.some.inj (ht.symm.trans ht')
    exact hne ⟨of_decide_eq_true hsame.1, hsame.2⟩
  rcases hrun : onVnode sdir (findDirent fsi snm (vnodeNew fsi)) s with ⟨src | e | _, s1⟩
  · have hseen : SysSeen fsi s s1 := by
      rw [hrun] at hsearch
      exact hsearch.2
    have hsrc : Found fsi s sdir snm src := by
      unfold Found
      rw [hrun]
    -- the entries found are the only ones
    have hfreed {fat₁ : Nat → Nat} (h : (∃ T, Found fsi s tdir tnm T ∧
          Replaces fsi tfv tnm cr src T ∧ ZeroedFrom fsi T.cluster (view fsi s.vol.disk).fat fat₁) ∨
        fat₁ = (view fsi s.vol.disk).fat ∧
          ∀ T, Found fsi s tdir tnm T → ¬ Replaces fsi tfv tnm cr src T) :
        (∃ src T, Replaced fsi s sdir snm tdir tnm cr src T ∧
          ZeroedFrom fsi T.cluster (view fsi s.vol.disk).fat fat₁) ∨
        fat₁ = (view fsi s.vol.disk).fat ∧
          ∀ src T, ¬ Replaced fsi s sdir snm tdir tnm cr src T := by
      refine h.imp ?_ (And.imp id ?_)
      · rintro ⟨T, hT, hR, hZ⟩
        exact ⟨src, T, ⟨sfv, tfv, hs, ht, fun h => hne ⟨decide_eq_true h.1, h.2⟩, hsrc, hT, hR⟩, hZ⟩
      · rintro hnot src' T ⟨sfv', tfv', -, ht', -, hsrc', hT, hR⟩
        obtain rfl := Option.some.inj (ht.symm.trans ht')
        obtain rfl : src = src' := Out.ok.inj (hsrc.symm.trans hsrc')
        exact hnot T hT hR
    refine .ok_bind hrun (.bind (renameTarget_fat hk hg hfuel hseen ht htr htc tnm cr src) ?_ ?_ ?_)
    · intro x u ⟨hdirs, hfat⟩
      exact (rename_entry hk hg hs ht hsr htr src (hsub src hsrc) hdirs).mono
        fun _ w hw => ⟨_, hw, hfreed hfat⟩
    · exact fun _ u hu => ⟨_, .inl rfl, hfreed hu.2⟩
    · exact fun u hu => ⟨_, .inl rfl, hfreed hu.2⟩
  · refine .of_run (bind_err hrun) (hstop ?_ ?_)
    · rw [hrun] at hsearch
      exact hsearch.2
    · rintro src T ⟨sfv', tfv', hs', ht', hne, hsrc, -⟩
      unfold Found at hsrc
      rw [hrun] at hsrc
      cases hsrc
  · refine .of_run (bind_hang hrun) (hstop ?_ ?_)
    · rw [hrun] at hsearch
      exact hsearch.2
    · rintro src T ⟨sfv', tfv', hs', ht', hne, hsrc, -⟩
      unfold Found at hsrc
      rw [hrun] at hsrc
      cases hsrc

/-- The FAT before a rename and after it: the chain of another entry `T` was freed, free
clusters were appended to the chain of the target directory, and the chain of the source
is what it was. -/
def RenamedFat (fsi : Fsi) (s : Sys) (sdir : Nat) (snm : List UInt8) (tdir : Nat)
    (tnm : List UInt8) (cr : Cred) (dir : Nat) (fat fat' : Nat → Nat) : Prop :=
  ∃ fat₁, Appends fsi dir fat₁ fat' ∧
    (∀ c, fat₁ c = fat c ∨ fat₁ c = 0 ∧ ∃ src T, Replaced fsi s sdir snm tdir tnm cr src T ∧
      T ≠ src ∧ Reaches fsi fat T.cluster c) ∧
    ∀ src, Found fsi s sdir snm src → ∀ i c, walk (fatNext fsi fat) i src.cluster = some c →
      walk (fatNext fsi fat') i src.cluster = some c ∧
        (InRange fsi c → fat₁ c = fat c ∧ (fat c ≠ 0 → fat' c ≠ 0))

/-- The target that is removed leads to a cluster that the source leads to. -/
def FreesSource (fsi : Fsi) (s : Sys) (sdir : Nat) (snm : List UInt8) (tdir : Nat)
    (tnm : List UInt8) (cr : Cred) (fat : Nat → Nat) : Prop :=
  ∃ src T c, Replaced fsi s sdir snm tdir tnm cr src T ∧ fat c ≠ 0 ∧
    Reaches fsi fat T.cluster c ∧ Reaches fsi fat src.cluster c

/-- A chain of a FAT in which some entries were cleared. -/
theorem FatChain.uncleared {fat fat₁ : Nat → Nat} {a : Nat} {l : List Nat}
    (h : ∀ c, fat₁ c = fat c ∨ fat₁ c = 0) (hl : FatChain fsi fat₁ a l) : FatChain fsi fat a l :=
  hl.congr fun c hc => ((h c).resolve_right (hl.ne_zero c hc)).symm

/-- A freed cluster is not in the source's chain any more, also when it was appended to
the target directory. -/
theorem Appends.freed (hg : Geometry fsi) {fat fat₁ fat₂ fat' : Nat → Nat} {d c : Nat}
    (h₁ : ∀ c, fat₁ c = fat c ∨ fat₁ c = 0) (h₂ : ∀ c, fat₂ c = fat c ∨ fat₂ c = 0)
    (k₁ : Appends fsi d fat₁ fat') (k₂ : Appends fsi d fat₂ fat') (hz : fat₁ c = 0)
    (hn : fat₂ c ≠ 0) : fat' c = 0 := by
  by_contra hc
  have hends := fatEnds hg
  rcases k₁ with rfl | ⟨m, ext, hm, hm', -, hframe⟩
  · exact hc hz
  have hcm : c ∉ m := fun h => hm.ne_zero c h hz
  have hcx : c ∈ ext := by
    by_contra h
    exact hc ((hframe c hcm h).trans hz)
  rcases k₂ with rfl | ⟨m₂, ext₂, hm₂, hm₂', hfresh, -⟩
  · have hlen := congrArg List.length
      ((hm.uncleared h₁).unique (hends fat) (hm'.uncleared h₂))
    rw [List.length_append] at hlen
    have := List.length_pos_of_mem hcx
    omega
  · obtain rfl := (hm.uncleared h₁).unique (hends fat) (hm₂.uncleared h₂)
    obtain rfl := List.append_cancel_left (hm'.unique (hends fat') hm₂')
    exact hn (hfresh c hcx).2

/-- Without read errors, a rename frees no cluster of the file that is renamed, unless the
entry that it removes leads there. -/
theorem rename_fat_iff (hk : Reliable fsi.kernel) (hg : Geometry fsi)
    (hfuel : fsi.clusterCount + 2 ≤ fsi.kernel.fuel)
    (hs : s.vnodes sdir = some sfv) (ht : s.vnodes tdir = some tfv)
    (hsr : InRange fsi sfv.cluster) (htr : InRange fsi tfv.cluster)
    (hsc : CacheOk fsi (view fsi s.vol.disk).fat sfv.cluster sfv.clsCache)
    (htc : CacheOk fsi (view fsi s.vol.disk).fat tfv.cluster tfv.clsCache)
    (hsub : ∀ src, Found fsi s sdir snm src → src.type = .vdir → sfv.cluster ≠ tfv.cluster →
      InRange fsi src.cluster ∨ src.cluster < clusterMin) :
    RenamedFat fsi s sdir snm tdir tnm cr tfv.cluster (view fsi s.vol.disk).fat
        (view fsi (rename fsi sdir snm tdir tnm cr s).2.vol.disk).fat ↔
      ¬ FreesSource fsi s sdir snm tdir tnm cr (view fsi s.vol.disk).fat := by
  have hsteps := rename_steps tnm cr hk hg hfuel hs ht hsr htr hsc htc hsub
  unfold WP at hsteps
  obtain ⟨fat₁, happ, hfree⟩ := hsteps
  generalize (view fsi (rename fsi sdir snm tdir tnm cr s).2.vol.disk).fat = fat' at happ ⊢
  generalize (view fsi s.vol.disk).fat = fat at hfree ⊢
  have hclear : ∀ c, fat₁ c = fat c ∨ fat₁ c = 0 := by
    rcases hfree with ⟨src, T, -, hZ⟩ | ⟨rfl, -⟩
    · exact fun c => (hZ.step c).imp_right And.left
    · exact fun c => .inl rfl
  constructor
  · rintro ⟨fat₂, happ₂, hclear₂, hsrc⟩ ⟨src, T, c, hR, hc, hTc, hr, i, hw⟩
    obtain ⟨-, hkeep⟩ := hsrc src (by obtain ⟨_, _, _, _, _, h, -⟩ := hR; exact h) i c hw
    obtain ⟨h2, hne⟩ := hkeep hr
    have hzero : fat₁ c = 0 := by
      rcases hfree with ⟨src', T', hR', hZ⟩ | ⟨-, hnot⟩
      · obtain rfl : T' = T := by
          obtain ⟨_, _, _, _, _, _, hT, -⟩ := hR
          obtain ⟨_, _, _, _, _, _, hT', -⟩ := hR'
          exact Out.ok.inj (hT'.symm.trans hT)
        exact hZ.reached hTc
      · exact absurd hR (hnot src T)
    refine hne hc (happ.freed hg hclear (fun c => ?_) happ₂ hzero (by rwa [h2]))
    exact (hclear₂ c).imp_right And.left
  · intro hnot
    refine ⟨fat₁, happ, fun c => ?_, fun src hsrc i c hw => ?_⟩
    · rcases hfree with ⟨src, T, hR, hZ⟩ | ⟨rfl, -⟩
      · rcases hZ.step c with h | ⟨hz, hr, -⟩
        · exact .inl h
        · by_cases h0 : fat c = 0
          · exact .inl (hz.trans h0.symm)
          · refine .inr ⟨hz, src, T, hR, ?_, hr⟩
            rintro rfl
            exact hnot ⟨T, T, c, hR, h0, hr, hr⟩
      · exact .inl rfl
    -- a cluster of the source was not freed
    have hkept (i x : Nat) (hw : walk (fatNext fsi fat) i src.cluster = some x)
        (hx : InRange fsi x) : fat₁ x = fat x := by
      rcases hfree with ⟨src', T, hR, hZ⟩ | ⟨rfl, -⟩
      · rcases hZ.step x with h | ⟨hz, hr, -⟩
        · exact h
        · by_contra hne
          have h0 : fat x ≠ 0 := fun h => hne (hz.trans h.symm)
          obtain rfl : src' = src := by
            obtain ⟨_, _, _, _, _, h, -⟩ := hR
            exact Out.ok.inj (h.symm.trans hsrc)
          exact hnot ⟨src', T, x, hR, h0, hr, hx, i, hw⟩
      · rfl
    have hwalk (i x : Nat) (hw : walk (fatNext fsi fat) i src.cluster = some x) :
        walk (fatNext fsi fat₁) i src.cluster = some x := by
      induction i generalizing x with
      | zero => exact hw
      | succ i ih =>
        rw [walk_succ] at hw ⊢
        obtain ⟨b, hb, hbx⟩ := Option.bind_eq_some_iff.mp hw
        rw [ih b hb, Option.bind_some, ← hbx]
        exact fatNext_congr (hkept i b hb (fatNext_some.mp hbx).1)
    refine ⟨happ.walk hg (hwalk i c hw), fun hr => ⟨hkept i c hw hr, fun h0 => ?_⟩⟩
    exact happ.ne_zero (by rwa [hkept i c hw hr])

end Rename

/-- The vnode of the root of a small volume. -/
def rootFv : Fv := { vnodeNew (small 2) with
  vnode := some 0
  cluster := 2
  type := .vdir
  mode := sIfdir ||| 0o755
  parentCluster := 0
  flags := { root := true } }

theorem rename_fat_iff_file :
    let s := mounted (small 2) fileVol
    RenamedFat (small 2) s 0 [65] 0 [66] ⟨0, []⟩ 2 (view (small 2) s.vol.disk).fat
        (view (small 2) (rename (small 2) 0 [65] 0 [66] ⟨0, []⟩ s).2.vol.disk).fat ↔
      ¬ FreesSource (small 2) s 0 [65] 0 [66] ⟨0, []⟩ (view (small 2) s.vol.disk).fat := by
  have hk : Reliable (small 2).kernel := ⟨fun _ => rfl⟩
  have hfuel : (small 2).clusterCount + 2 ≤ (small 2).kernel.fuel := by decide
  have hroot : (mounted (small 2) fileVol).vnodes 0 = some rootFv := by decide +kernel
  have hr : InRange (small 2) rootFv.cluster := by decide
  exact rename_fat_iff hk small_geometry hfuel hroot hroot hr hr .empty .empty
    fun _ _ _ h => absurd rfl h

/-- Renaming `A` to `a` in one directory finds the source as the target. -/
theorem rename_frees_source :
    let s := mounted (small 2) fileVol
    let r := rename (small 2) 0 [65] 0 [97] ⟨0, []⟩ s
    (∃ src, Found (small 2) s 0 [65] src ∧ src.cluster = 3) ∧ r.1 = .ok () ∧
      (view (small 2) s.vol.disk).fat 3 ≠ 0 ∧ (view (small 2) r.2.vol.disk).fat 3 = 0 := by
  refine ⟨⟨fillEntry 2 (shortEntry 65 0 3 1) { offset := 0, name := ⟨fun _ => 0, 0⟩ }
    (vnodeNew (small 2)), ?_, rfl⟩, ?_⟩
  · unfold Found
    decide +kernel
  · decide +kernel

end Fat32
