import Mathlib
import Fat32.Proof.Directory

/-!
# Removing a name from a directory

What `fat32_remove_common` does when everything can be read: it refuses for a reason that can be read off the entry
(`removeErr`), or the entry leaves the directory and its clusters become free (`removeCommon_ends`).
-/

namespace Fat32

open Bytes Exec Prog Linked Dictionary

variable {fsi : Fsi} {H : Finset Nat} {cs l : List Nat} {D P : List Slot} {e : Slot} {s t : VnSt} {v v' w : Vol} {c d i : Nat}
  {nm : List UInt8} {es : List DirEntry} {x : DirEntry} {fv : Fv}

/-! ## Empty directories -/

theorem live_skip (h : ∀ x ∈ P, x.Skipped) : Live (P ++ D) e ↔ Live D e := by
  induction P with
  | nil => exact Iff.rfl
  | cons x P ih =>
    have hx := h x List.mem_cons_self
    have hno : ¬ (x = e ∧ e.IsEntry) := by
      rintro ⟨rfl, he⟩
      exact not_skipped_entry hx he
    rw [List.cons_append, live_cons hx.1, or_iff_right hno]
    exact ih fun y hy => h y (List.mem_cons_of_mem _ hy)

/-- The live 8.3 entries are those of the entries. -/
theorem Tidy.live (h : Tidy i D es) : Live D e ↔ ∃ x ∈ es, x.dentry = e := by
  induction h with
  | nil =>
    refine iff_of_false ?_ fun ⟨x, hx, _⟩ => List.not_mem_nil hx
    rintro ⟨j, hj, -⟩
    rw [List.getElem?_nil] at hj
    cases hj
  | stop h0 => exact iff_of_false (not_live_end h0) fun ⟨x, hx, _⟩ => List.not_mem_nil hx
  | @pass i s l es hs hl _ ih =>
    have hno : ¬ (s = e ∧ e.IsEntry) := by
      rintro ⟨rfl, he⟩
      exact not_skipped_entry hs he
    rw [live_cons hs.1, or_iff_right hno, ih]
  | @entry i S e' l es hS he _ ih =>
    have hskip : ∀ x ∈ S, x.Skipped := by
      rcases hS with rfl | hS
      · exact fun x hx => absurd hx List.not_mem_nil
      · exact hS.skipped
    rw [live_skip hskip, live_cons he.1, ih, List.exists_mem_cons_iff]
    exact or_congr_left ⟨fun h => h.1, fun h => ⟨h, h ▸ he⟩⟩

theorem proper_eq_nil : proper es = [] ↔ ∀ x ∈ es, x.dentry.first = 46 := by
  rw [proper, List.filter_eq_nil_iff]
  refine forall₂_congr fun x _ => ?_
  rw [DirEntry.isDots, Bool.not_eq_true, Bool.not_eq_false', decide_eq_true_iff]

/-- The test for emptiness finds out whether a name was given in the directory. -/
theorem Holds.dirempty (hk : Reliable fsi.kernel) (hg : Geometry fsi) (hfuel : fsi.clusterCount < fsi.kernel.fuel)
    (h : Holds fsi fv.cluster cs es v) (htype : fv.type = .vdir) :
    (Fat32.dirempty fsi fv v).1 = if proper es = [] then .ok () else .err .enotempty := by
  have h0 : fv.cluster ≠ 0 := h.chain.head_ne_zero
  have hlen := h.chain.length_le hg
  have hc : cs[0]? = some fv.cluster := by
    obtain ⟨m, hm⟩ := h.chain.head_eq
    rw [hm]
    rfl
  have hrun := emptyLoop_slots hk hg fsi.kernel.fuel (h.chain.path hg) hc (by omega)
  rw [Nat.zero_mul, List.drop_zero, readSlots_eq hg h.chain.inRange] at hrun
  have hlive : emptySlots (volSlots fsi cs v) ≠ .occupied ↔ proper es = [] := by
    rw [emptySlots_iff, proper_eq_nil]
    constructor
    · exact fun hall x hx => hall x.dentry (h.tidy.live.mpr ⟨x, hx, rfl⟩)
    · intro hall e he
      obtain ⟨x, hx, rfl⟩ := h.tidy.live.mp he
      exact hall x hx
  rw [Fat32.dirempty, if_neg (not_not.mpr htype), if_neg h0, hrun]
  by_cases hocc : emptySlots (volSlots fsi cs v) = .occupied
  · rw [if_neg fun hnil => hlive.mpr hnil hocc, hocc]
    rfl
  · rw [if_pos (hlive.mp hocc)]
    cases hsl : emptySlots (volSlots fsi cs v) with
    | occupied => exact absurd hsl hocc
    | stop => rfl
    | more => rfl

/-! ## What is refused -/

/-- Why a name is not removed; `empty` is whether the directory that it names is. -/
def removeErr (isDir : Bool) (cdir : Option Nat) (i : Item) (empty : Bool) : Option Errno :=
  if isDir then
    if ¬ i.dir then some .enotdir
    else if cdir = some i.cluster then some .einval
    else if empty then none else some .enotempty
  else if i.dir then some .eisdir
  else none

/-- What is removed is not a directory with names in it. -/
theorem removeErr_none {isDir empty : Bool} {cdir : Option Nat} {i : Item} (h : removeErr isDir cdir i empty = none)
    (hdir : i.dir = true) : empty = true := by
  by_contra hno
  unfold removeErr at h
  rw [hdir, if_neg hno] at h
  split at h
  · rw [if_neg (by decide)] at h
    split at h <;> cases h
  · rw [if_pos rfl] at h
    cases h

/-- What is known of the file or directory that an entry of the directory at `d` names. -/
structure Target (fsi : Fsi) (H : Finset Nat) (d : Nat) (x : DirEntry) (empty : Bool) (v : Vol) : Prop where
  head : x.dentry.firstCluster ≠ 0 → x.dentry.firstCluster ∈ H
  dir : x.isDir = true → ∃ cs es, Holds fsi x.dentry.firstCluster cs es v ∧ (empty = true ↔ proper es = [])
  apart : (x.isDir = true → empty = true) → x.dentry.firstCluster ≠ d

theorem removeCheck_run (hk : Reliable fsi.kernel) (hg : Geometry fsi) (hfuel : fsi.clusterCount < fsi.kernel.fuel)
    (F : FilledFrom fsi d x fv) {empty : Bool} (T : Target fsi H d x empty v) (isDir : Bool) (cdir : Option Nat) :
    (removeCheck fsi fv isDir cdir v).1 = match removeErr isDir cdir x.item empty with
      | some e => .err e
      | none => .ok () := by
  have hdir : x.item.dir = x.isDir := rfl
  have hcl : x.item.cluster = fv.cluster := F.cluster.symm
  have htype : fv.type = .vdir ↔ x.isDir = true := by
    rw [F.type]
    cases x.isDir with
    | false => exact iff_of_false (by decide) (by decide)
    | true => exact iff_of_true rfl rfl
  unfold removeCheck removeErr
  rw [hdir, hcl]
  by_cases hd : x.isDir = true
  · have hv := htype.mpr hd
    obtain ⟨cs, es, h, hempty⟩ := T.dir hd
    rw [← F.cluster] at h
    have hrun := h.dirempty hk hg hfuel hv
    cases isDir with
    | false =>
      rw [if_neg (by decide), if_pos hv, if_neg (by decide), if_pos hd]
      rfl
    | true =>
      rw [if_pos rfl, if_neg (not_not.mpr hv), if_pos rfl, if_neg (not_not.mpr hd)]
      by_cases hcd : cdir = some fv.cluster
      · rw [if_pos hcd, if_pos hcd]
        rfl
      · rw [if_neg hcd, if_neg hcd, hrun]
        by_cases he : empty = true
        · rw [if_pos he, if_pos (hempty.mp he)]
        · rw [if_neg he, if_neg fun hnil => he (hempty.mpr hnil)]
  · have hv : ¬ fv.type = .vdir := fun h => hd (htype.mp h)
    cases isDir with
    | false =>
      rw [if_neg (by decide), if_neg hv, if_neg (by decide), if_neg hd]
      rfl
    | true =>
      rw [if_pos rfl, if_pos hv, if_pos rfl, if_pos hd]
      rfl

/-! ## The directory's vnode -/

/-- What the operations on the names in a directory leave of its vnode. -/
def Fv.core (fv : Fv) : Fv := { fv with
  atime := {}
  mtime := {}
  ctime := {}
  clsCache := emptyCache
  flags := { root := fv.flags.root } }

theorem CacheOnly.core {fv fv' : Fv} (h : CacheOnly fv fv') : fv'.core = fv.core := by
  obtain ⟨cache, rfl⟩ := h
  rfl

theorem touchFv_core (fsi : Fsi) (atime mtime : Bool) (s : VnSt) : ∃ s', touchFv fsi atime mtime s = (.ok (), s') ∧
    Same s.vol s'.vol ∧ s'.fv.core = s.fv.core ∧ s'.fv.clsCache = s.fv.clsCache := by
  obtain ⟨fv', v', e, hs, hfv⟩ := touch_ok fsi atime mtime s.fv s.vol
  refine ⟨⟨v', fv'⟩, bind_ok (f := fun fv => modifyFv fun _ => fv) (onVol_run e), hs, ?_, ?_⟩
  · rw [hfv]
    rfl
  · rw [hfv]

/-- A search may fill the cache of the clusters, and changes nothing else. -/
theorem findDirent_core (hk : Reliable fsi.kernel) (hg : Geometry fsi) (h : IsDir fsi cs s) (nm : List UInt8) :
    Seen fsi s (findDirent fsi nm (vnodeNew fsi) s).2 :=
  (findDirent_again hk hg nm (vnodeNew fsi) h.seen).2

/-! ## The removal -/

/-- The end of a removal from the directory at `d`; `acc` is what the check of the access says. -/
inductive Removes (fsi : Fsi) (H : Finset Nat) (d : Nat) (cs : List Nat) (es : List DirEntry) (nm : List UInt8) (isDir : Bool)
    (cdir : Option Nat) (acc : Option Errno) (empty : DirEntry → Bool) (v : Vol) : Out Errno Unit → Vol → Prop
  | dots {w : Vol} (hdot : isDot nm = true) (hs : Same v w) : Removes fsi H d cs es nm isDir cdir acc empty v (.err .einval) w
  | denied {w : Vol} {e : Errno} (hdot : isDot nm = false) (hacc : acc = some e) (hs : Same v w) :
      Removes fsi H d cs es nm isDir cdir acc empty v (.err e) w
  | absent {w : Vol} (hdot : isDot nm = false) (hacc : acc = none) (hno : ∀ x ∈ es, x.key ≠ fold (nm.take 255)) (hs : Same v w) :
      Removes fsi H d cs es nm isDir cdir acc empty v (.err .enoent) w
  | refused {w : Vol} {e : Errno} (hdot : isDot nm = false) (hacc : acc = none) (x : DirEntry) (hx : x ∈ es)
      (hkey : x.key = fold (nm.take 255)) (he : removeErr isDir cdir x.item (empty x) = some e) (hs : Same v w) :
      Removes fsi H d cs es nm isDir cdir acc empty v (.err e) w
  | removed {w : Vol} (hdot : isDot nm = false) (hacc : acc = none) (es1 es2 : List DirEntry) (x : DirEntry)
      (hes : es = es1 ++ x :: es2) (hkey : x.key = fold (nm.take 255))
      (he : removeErr isDir cdir x.item (empty x) = none) (l : List Nat)
      (hl : x.dentry.firstCluster = 0 ∧ l = [] ∨ FatChain fsi (view fsi v.disk).fat x.dentry.firstCluster l)
      (beside : Beside fsi (cs ++ l) v w) (holds : Holds fsi d cs (es1 ++ es2) w)
      (good : Good fsi (if x.dentry.firstCluster = 0 then H else H.erase x.dentry.firstCluster) w) :
      Removes fsi H d cs es nm isDir cdir acc empty v (.ok ()) w

/-- The slots of an entry are marked as deleted. -/
theorem Holds.deleted (hk : Reliable fsi.kernel) (hg : Geometry fsi) (h : Holds fsi d cs es v) (hx : x ∈ es) :
    ∃ v' es1 es2, deleteFdentryChain fsi d (32 * x.start) (x.set.length + 1) v = (.ok (), v') ∧ DataOnly fsi v v' ∧
      Beside fsi cs v v' ∧ es = es1 ++ x :: es2 ∧ Holds fsi d cs (es1 ++ es2) v' := by
  have hslot := h.tidy.slot_lt x hx
  have hle := (h.tidy.le x hx).2
  obtain ⟨v', e, E⟩ := deleteFdentryChain_slots hk hg h.chain (i := x.start) (n := x.set.length + 1) (by omega) (by omega)
  have hdata : DataOnly fsi v v' := by
    have hd := deleteFdentryChain_dataOnly hk hg h.chain (32 * x.start) (x.set.length + 1)
    unfold WP at hd
    rwa [e] at hd
  obtain ⟨es1, es2, hes, ht⟩ := h.tidy.remove hx
  have hdist : Distinct DirEntry.key (es1 ++ x :: es2) := by
    rw [← hes]
    exact h.distinct
  refine ⟨v', es1, es2, e, hdata, E.beside, hes, E.chain h.chain, ?_, ?_, fun y hy => h.sound y ?_, hdist.remove.1⟩
  · rw [E.slots]
    exact ht
  · rw [E.slots]
    exact h.closed.remove fun j hj hlt => h.tidy.slots_used hx hj hlt
  · rw [hes]
    exact List.mem_append.mpr ((List.mem_append.mp hy).imp_right (List.mem_cons_of_mem x))

/-- The clusters of a file or an empty directory become free. -/
theorem freed_beside (hk : Reliable fsi.kernel) (hg : Geometry fsi) (hfuel : fsi.clusterCount < fsi.kernel.fuel) (G : Good fsi H v)
    (hc : c ∈ H) (hl : FatChain fsi (view fsi v.disk).fat c l) :
    ∃ v', freeClusters fsi c true v = (.ok (), v') ∧ Good fsi (H.erase c) v' ∧ Beside fsi l v v' := by
  obtain ⟨v', e, F⟩ := freeClusters_all hk hg hfuel hl
  have G' : Good fsi (H.erase c) v' := by
    obtain ⟨w, he, G'⟩ := freeClusters_good_all hk hg hfuel G hc
    obtain ⟨-, rfl⟩ := Prod.mk.inj (e.symm.trans he)
    exact G'
  refine ⟨v', e, G', fun b hb _ => ⟨?_, by rw [F.data]⟩⟩
  rw [F.fat, zeroFat, if_neg hb]

/-- Removing the entry, and the clusters of what it names. -/
theorem Holds.unlinked (hk : Reliable fsi.kernel) (hg : Geometry fsi) (hfuel : fsi.clusterCount < fsi.kernel.fuel)
    (h : Holds fsi d cs es v) (G : Good fsi H v) (hd : d ∈ H) (hx : x ∈ es) (hc : x.dentry.firstCluster ≠ 0 → x.dentry.firstCluster ∈ H)
    (hne : x.dentry.firstCluster ≠ d) : ∃ v1 v2 es1 es2 l, deleteFdentryChain fsi d (32 * x.start) (x.set.length + 1) v = (.ok (), v1) ∧
      (if x.dentry.firstCluster = 0 then v2 = v1 else freeClusters fsi x.dentry.firstCluster true v1 = (.ok (), v2)) ∧
      es = es1 ++ x :: es2 ∧ (x.dentry.firstCluster = 0 ∧ l = [] ∨ FatChain fsi (view fsi v.disk).fat x.dentry.firstCluster l) ∧
      Beside fsi (cs ++ l) v v2 ∧ Holds fsi d cs (es1 ++ es2) v2 ∧
      Good fsi (if x.dentry.firstCluster = 0 then H else H.erase x.dentry.firstCluster) v2 := by
  obtain ⟨v1, es1, es2, e1, hdata, hb1, hes, h1⟩ := h.deleted hk hg hx
  have G1 := hdata.good H G
  by_cases h0 : x.dentry.firstCluster = 0
  · refine ⟨v1, v1, es1, es2, [], e1, by rw [if_pos h0], hes, .inl ⟨h0, rfl⟩, ?_, h1, by rwa [if_pos h0]⟩
    rwa [List.append_nil]
  · have hmem := hc h0
    obtain ⟨l, hl⟩ := G.owned.chain _ hmem
    have hl1 := hdata.chain hl
    obtain ⟨v2, e2, G2, hb2⟩ := freed_beside hk hg hfuel G1 hmem hl1
    have hdisj : l.Disjoint cs := G1.owned.forest.apart hmem hd hne hl1 h1.chain
    refine ⟨v1, v2, es1, es2, l, e1, by rwa [if_neg h0], hes, .inr hl, ?_, h1.beside hb2 hdisj, by rwa [if_neg h0]⟩
    intro c hcs hused
    obtain ⟨hfat, hdat⟩ := hb1 c (fun h => hcs (List.mem_append_left _ h)) hused
    obtain ⟨hfat', hdat'⟩ := hb2 c (fun h => hcs (List.mem_append_right _ h)) (by rwa [hfat])
    exact ⟨hfat'.trans hfat, hdat'.trans hdat⟩

/-- The part of the call behind the search: the checks, and the removal. -/
theorem remove_found (hk : Reliable fsi.kernel) (hg : Geometry fsi) (hfuel : fsi.clusterCount < fsi.kernel.fuel)
    {isDir : Bool} {cdir : Option Nat} {acc : Option Errno} (hdot : isDot nm = false) (hacc : acc = none)
    (h : Holds fsi d cs es v) (G : Good fsi H v) (hd : d ∈ H) (hs : Same v s.vol)
    (hcache : CacheOk fsi (view fsi s.vol.disk).fat d s.fv.clsCache) (hx : x ∈ es) (hkey : x.key = fold (nm.take 255))
    (F : FilledFrom fsi d x fv) {empty : DirEntry → Bool} (T : Target fsi H d x (empty x) v) :
    WP (do
      onVol (removeCheck fsi fv isDir cdir)
      if fv.parentCluster = clusterBad then fail .einval else do
        let _ ← attempt (onVol (deleteFdentryChain fsi fv.parentCluster fv.diroff fv.dirsz))
        let _ ← (if fv.cluster ≠ 0 then attempt (onVol (freeClusters fsi fv.cluster true)) else pure (.ok ()))
        touchFv fsi false true : FvM Unit) s fun r t => CacheOk fsi (view fsi t.vol.disk).fat d t.fv.clsCache ∧
      t.fv.core = s.fv.core ∧ Removes fsi H d cs es nm isDir cdir acc empty v r t.vol := by
  have T1 : Target fsi H d x (empty x) s.vol := by
    refine ⟨T.head, fun hdir => ?_, T.apart⟩
    obtain ⟨cs', es', h', he⟩ := T.dir hdir
    exact ⟨cs', es', h'.same hs, he⟩
  have hcheck := removeCheck_run hk hg hfuel F T1 isDir cdir
  have hsame : Same v (removeCheck fsi fv isDir cdir s.vol).2 := hs.trans (removeCheck_quiet fv isDir cdir s.vol).same
  generalize hv2 : (removeCheck fsi fv isDir cdir s.vol).2 = v2 at hsame
  have hcache2 : CacheOk fsi (view fsi v2.disk).fat d s.fv.clsCache := by
    rw [hsame.disk, ← hs.disk]
    exact hcache
  cases herr : removeErr isDir cdir x.item (empty x) with
  | some e =>
    rw [herr] at hcheck
    exact .err_bind (onVol_run (Prod.ext hcheck hv2)) ⟨hcache2, rfl, .refused hdot hacc x hx hkey herr hsame⟩
  | none =>
    rw [herr] at hcheck
    refine .ok_bind (onVol_run (Prod.ext hcheck hv2)) ?_
    obtain ⟨hpar, hoff, hsz⟩ := Identity.mk.inj F.identity
    have h2 := h.same hsame
    have hbad : ¬ d = clusterBad := (h.chain.inRange d h.chain.head_mem).ne_bad hg
    have hne : x.dentry.firstCluster ≠ d := T.apart fun hdir => removeErr_none herr hdir
    obtain ⟨v3, v4, es1, es2, l, e3, e4, hes, hl, hb, h4, G4⟩ := h2.unlinked hk hg hfuel (G.same hsame) hd hx T.head hne
    rw [hpar, hoff, hsz, F.cluster]
    refine .ite (fun hb => absurd hb hbad) fun _ => .ok_bind (attempt_ok (onVol_run e3)) ?_
    have hchain4 : FatChain fsi (view fsi v4.disk).fat d (cs ++ []) := by
      rw [List.append_nil]
      exact h4.chain
    have hcache4 : CacheOk fsi (view fsi v4.disk).fat d s.fv.clsCache := hcache2.append hg h2.chain hchain4
    have hend {t : VnSt} (hvol : t.vol = v4) (hfv : t.fv = s.fv) : WP (touchFv fsi false true) t fun r t =>
        CacheOk fsi (view fsi t.vol.disk).fat d t.fv.clsCache ∧ t.fv.core = s.fv.core ∧
          Removes fsi H d cs es nm isDir cdir acc empty v r t.vol := by
      obtain ⟨u, e, hsu, hcore, hca⟩ := touchFv_core fsi false true t
      rw [hvol] at hsu
      rw [hfv] at hcore hca
      refine .of_run e ⟨by rw [hca, hsu.disk]; exact hcache4, hcore, .removed hdot hacc es1 es2 x hes hkey herr l ?_ ?_
        (h4.same hsu) (G4.same hsu)⟩
      · rw [hsame.disk] at hl
        exact hl
      · intro c hc hused
        rw [hsu.disk, ← hsame.disk]
        exact hb c hc (by rwa [hsame.disk])
    by_cases h0 : x.dentry.firstCluster = 0
    · rw [if_pos h0] at e4
      rw [if_neg (not_not.mpr h0)]
      exact .ok_bind (pure_run _ _) (hend e4.symm rfl)
    · rw [if_neg h0] at e4
      rw [if_pos h0]
      exact .ok_bind (attempt_ok (onVol_run e4)) (hend rfl rfl)

theorem isDot_take (h : isDot nm = false) : isDot (nm.take 255) = false := by
  unfold isDot at h ⊢
  rw [decide_eq_false_iff_not] at h ⊢
  rcases nm with _ | ⟨a, _ | ⟨b, _ | ⟨c, l⟩⟩⟩
  · exact h
  · exact h
  · exact h
  · simp

/-- What `fat32_remove_common` does to a directory that can be read and written. -/
theorem removeCommon_ends (hk : Reliable fsi.kernel) (hg : Geometry fsi) (hfuel : fsi.clusterCount < fsi.kernel.fuel)
    (h : Holds fsi s.fv.cluster cs es s.vol) (hlist : Listable fsi cs) (hdir : IsDir fsi cs s) (G : Good fsi H s.vol)
    (hd : s.fv.cluster ∈ H) (isDir : Bool) (cdir : Option Nat) (cr : Cred)
    {empty : DirEntry → Bool} (htarget : ∀ x ∈ es, x.isDots = false → Target fsi H s.fv.cluster x (empty x) s.vol) :
    WP (removeCommon fsi nm isDir cdir cr) s fun r t => CacheOk fsi (view fsi t.vol.disk).fat s.fv.cluster t.fv.clsCache ∧
      t.fv.core = s.fv.core ∧ Removes fsi H s.fv.cluster cs es nm isDir cdir
        (faccess fsi s.fv { write := true, exec := true } cr) empty s.vol r t.vol := by
  unfold removeCommon
  by_cases hdot : isDot nm = true
  · rw [if_pos hdot]
    exact .of_run (fail_run _ _) ⟨hdir.cache, rfl, .dots hdot (.refl _)⟩
  · have hdot' : isDot nm = false := Bool.eq_false_iff.mpr hdot
    rw [if_neg hdot]
    refine .get_bind ?_
    cases hacc : faccess fsi s.fv { write := true, exec := true } cr with
    | some e => exact .of_run (fail_run _ _) ⟨hdir.cache, rfl, .denied hdot' rfl (.refl _)⟩
    | none =>
      have hseen := findDirent_core hk hg hdir nm
      generalize hs1 : (findDirent fsi nm (vnodeNew fsi) s).2 = s1 at hseen
      have hcache := hseen.right
      rw [hseen.cluster] at hcache
      rcases h.find hk hg hlist hdir nm with ⟨hno, hrun⟩ | ⟨x, hx, hkey, fv, hrun, F⟩
      · exact .err_bind (Prod.ext hrun hs1) ⟨hcache, hseen.fv.core, .absent hdot' rfl hno hseen.vol⟩
      · have hxdots := (h.sound x hx).isDots hkey (isDot_take hdot')
        have T := htarget x hx hxdots
        refine .ok_bind (Prod.ext hrun hs1) ((remove_found hk hg hfuel hdot' rfl h G hd hseen.vol hcache hx hkey F T).mono
          fun r t ht => ?_)
        obtain ⟨hca, hcore, hend⟩ := ht
        exact ⟨hca, hcore.trans hseen.fv.core, hend⟩

end Fat32
