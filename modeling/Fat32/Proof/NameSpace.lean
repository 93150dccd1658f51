import Mathlib
import Fat32.Proof.Tree

/-!
# The names on a volume

To a caller the tree of directories is a map that gives each directory its names (`Space`). Searches, the creation and the
removal of names do to it what `Says` says, in any order and however they end (`names_refined`), and they leave a tree with
the table accounted for (`names_sound`). So a search tells whether the name was made and not taken away (`name_stays`,
`name_stays_away`), and a listing has the names of the map (`names_listed`).
-/

namespace Fat32

open Bytes Exec Prog Linked Dictionary

variable {fsi : Fsi} {H dirs : Finset Nat} {chain : Nat → List Nat} {es : Nat → List DirEntry} {cs l : List Nat}
  {v w : Vol} {c d e : Nat} {x : DirEntry} {es1 es2 : List DirEntry} {name nm : List UInt8} {k : List DirEntry}

/-! ## The names -/

/-- What a caller sees: the names in each directory. -/
abbrev Space := Nat → Option (List UInt8 → Option Item)

def space (dirs : Finset Nat) (es : Nat → List DirEntry) : Space := fun d => if d ∈ dirs then some (names (es d)) else none

/-- A name is given to a file, or to a directory without names. -/
def Space.create (S : Space) (d : Nat) (N : List UInt8 → Option Item) (key : List UInt8) (i : Item) : Space :=
  Function.update (if i.dir = true then Function.update S i.cluster (some fun _ => none) else S) d
    (some (Function.update N key (some i)))

/-- A name is taken away, and the directory that had it. -/
def Space.remove (S : Space) (d : Nat) (N : List UInt8 → Option Item) (key : List UInt8) (i : Item) : Space :=
  Function.update (if i.dir = true then Function.update S i.cluster none else S) d (some (Function.update N key none))

theorem space_mem (hd : d ∈ dirs) : space dirs es d = some (names (es d)) := if_pos hd

theorem space_update (hd : d ∈ dirs) : space dirs (Function.update es d k) = Function.update (space dirs es) d (some (names k)) := by
  funext e
  by_cases he : e = d
  · subst he
    rw [space_mem hd, Function.update_self, Function.update_self]
  · rw [Function.update_of_ne he, space, space, Function.update_of_ne he]

theorem space_insert : space (insert c dirs) (Function.update es c k) = Function.update (space dirs es) c (some (names k)) := by
  funext e
  by_cases he : e = c
  · subst he
    rw [space_mem (Finset.mem_insert_self _ _), Function.update_self, Function.update_self]
  · rw [Function.update_of_ne he, space, space, Function.update_of_ne he, if_congr (Finset.mem_insert.trans (or_iff_right he)) rfl rfl]

theorem space_erase : space (dirs.erase c) es = Function.update (space dirs es) c none := by
  funext e
  by_cases he : e = c
  · subst he
    rw [Function.update_self]
    exact if_neg (Finset.notMem_erase _ _)
  · rw [Function.update_of_ne he, space, space, if_congr (Finset.mem_erase.trans (and_iff_right he)) rfl rfl]

/-! ## Calls -/

/-- A call on the names of a directory, with its result. -/
inductive NameCall
  | find (nm : List UInt8) (r : Out Errno Fv)
  | create (name : List UInt8) (flags : CreFlags) (fv : Fv) (r : Out Errno Fv)
  | remove (nm : List UInt8) (isDir : Bool) (cdir : Option Nat) (cr : Cred) (r : Out Errno Unit)

/-- The call takes the directory's vnode and the volume from `s` to `t`. -/
def NameCall.Runs (fsi : Fsi) (s t : VnSt) : NameCall → Prop
  | .find nm r => findDirent fsi nm (vnodeNew fsi) s = (r, t)
  | .create name flags fv r => createFdentry fsi fv name flags s = (r, t)
  | .remove nm isDir cdir cr r => removeCommon fsi nm isDir cdir cr s = (r, t)

/-- A name of up to 255 characters below 128 is made when a search has not found it, as `fat32_create` and `fat32_mkdir` do. -/
def NameCall.Allowed (fsi : Fsi) (s : VnSt) : NameCall → Prop
  | .create name flags _ _ => SevenBit name ∧ isDot name = false ∧ flags.rename = false ∧ flags.reuse = false ∧
      (findDirent fsi name (vnodeNew fsi) s).1 = .err .enoent
  | _ => True

/-- The directories that are found from the root. -/
inductive InTree (fsi : Fsi) (v : Vol) : Nat → Prop
  | root : InTree fsi v fsi.rootCluster
  | sub {d : Nat} {cs : List Nat} {e : Slot} (h : InTree fsi v d) (hl : FatChain fsi (view fsi v.disk).fat d cs)
      (he : Live (volSlots fsi cs v) e) (hdir : e.attr &&& attrDirectory ≠ 0) (hdots : e.first ≠ 46) : InTree fsi v e.firstCluster

/-- A volume, and the vnodes of directories that are in use. -/
structure Dirs where
  vol : Vol
  vnodes : Set Fv

/-- A vnode of a directory of the tree, with a cache that agrees with the table. -/
structure InUse (fsi : Fsi) (v : Vol) (fv : Fv) : Prop where
  tree : InTree fsi v fv.cluster
  type : fv.type = .vdir
  vnode : fv.vnode ≠ none
  cache : CacheOk fsi (view fsi v.disk).fat fv.cluster fv.clsCache

/-- A call through a vnode in use. Then the vnodes of directories that are not found from the root any more are given up, and
new ones are made with an empty cache. -/
structure DirStep (fsi : Fsi) (s : Dirs) (a : Fv × NameCall) (t : Dirs) : Prop where
  used : a.1 ∈ s.vnodes
  room : ∀ cs, FatChain fsi (view fsi s.vol.disk).fat a.1.cluster cs → Room fsi cs
  allowed : a.2.Allowed fsi ⟨s.vol, a.1⟩
  runs : ∃ fv', a.2.Runs fsi ⟨s.vol, a.1⟩ ⟨t.vol, fv'⟩ ∧ ∀ fv ∈ t.vnodes, InTree fsi t.vol fv.cluster ∧
    (fv = fv' ∨ fv ∈ s.vnodes ∨ fv.type = .vdir ∧ fv.vnode ≠ none ∧ fv.clsCache = emptyCache)

/-- What a call does to the names, and what it returns. -/
inductive Says (fsi : Fsi) (S : Space) : Fv × NameCall → Space → Prop
  /-- `.` and `..` are found by their entries, or are not there. -/
  | dots {dir : Fv} {nm : List UInt8} {r : Out Errno Fv} (hdot : isDot nm = true) : Says fsi S (dir, .find nm r) S
  | found {dir fv : Fv} {nm : List UInt8} {N : List UInt8 → Option Item} {i : Item} (hN : S dir.cluster = some N) (hdot : isDot nm = false)
      (hi : N (fold (nm.take 255)) = some i) (hc : fv.cluster = i.cluster) (ht : fv.type = if i.dir then .vdir else .vreg) :
      Says fsi S (dir, .find nm (.ok fv)) S
  | absent {dir : Fv} {nm : List UInt8} {N : List UInt8 → Option Item} (hN : S dir.cluster = some N) (hdot : isDot nm = false)
      (hi : N (fold (nm.take 255)) = none) : Says fsi S (dir, .find nm (.err .enoent)) S
  | full {dir fv : Fv} {name : List UInt8} {flags : CreFlags} : Says fsi S (dir, .create name flags fv (.err .enospc)) S
  /-- The name is made, also when there is no vnode for it. -/
  | made {dir fv : Fv} {name : List UInt8} {flags : CreFlags} {N : List UInt8 → Option Item} {c : Nat} {r : Out Errno Fv}
      (hN : S dir.cluster = some N) (hno : N (fold name) = none) (hc : if flags.dir then S c = none else c = 0)
      (hr : r = .err .enomem ∨ ∃ fv', r = .ok fv' ∧ fv'.cluster = c ∧ fv'.type = if flags.dir then .vdir else .vreg) :
      Says fsi S (dir, .create name flags fv r) (S.create dir.cluster N (fold name) ⟨name, flags.dir, c⟩)
  | notDots {dir : Fv} {nm : List UInt8} {isDir : Bool} {cdir : Option Nat} {cr : Cred} (hdot : isDot nm = true) :
      Says fsi S (dir, .remove nm isDir cdir cr (.err .einval)) S
  | denied {dir : Fv} {nm : List UInt8} {isDir : Bool} {cdir : Option Nat} {cr : Cred} {err : Errno} (hdot : isDot nm = false)
      (hacc : faccess fsi dir { write := true, exec := true } cr = some err) : Says fsi S (dir, .remove nm isDir cdir cr (.err err)) S
  | missing {dir : Fv} {nm : List UInt8} {isDir : Bool} {cdir : Option Nat} {cr : Cred} {N : List UInt8 → Option Item}
      (hN : S dir.cluster = some N) (hdot : isDot nm = false) (hacc : faccess fsi dir { write := true, exec := true } cr = none)
      (hi : N (fold (nm.take 255)) = none) : Says fsi S (dir, .remove nm isDir cdir cr (.err .enoent)) S
  | refused {dir : Fv} {nm : List UInt8} {isDir : Bool} {cdir : Option Nat} {cr : Cred} {N : List UInt8 → Option Item} {i : Item}
      {empty : Bool} {err : Errno} (hN : S dir.cluster = some N) (hdot : isDot nm = false)
      (hacc : faccess fsi dir { write := true, exec := true } cr = none) (hi : N (fold (nm.take 255)) = some i)
      (hempty : i.dir = true → (empty = true ↔ S i.cluster = some fun _ => none)) (herr : removeErr isDir cdir i empty = some err) :
      Says fsi S (dir, .remove nm isDir cdir cr (.err err)) S
  | removed {dir : Fv} {nm : List UInt8} {isDir : Bool} {cdir : Option Nat} {cr : Cred} {N : List UInt8 → Option Item} {i : Item}
      {empty : Bool} (hN : S dir.cluster = some N) (hdot : isDot nm = false)
      (hacc : faccess fsi dir { write := true, exec := true } cr = none) (hi : N (fold (nm.take 255)) = some i)
      (hempty : i.dir = true → (empty = true ↔ S i.cluster = some fun _ => none)) (herr : removeErr isDir cdir i empty = none) :
      Says fsi S (dir, .remove nm isDir cdir cr (.ok ())) (S.remove dir.cluster N (fold (nm.take 255)) i)

/-! ## One call -/

variable {s t : VnSt} {flags : CreFlags} {fv : Fv}

/-- What a call leaves of its vnode, and of the chains of the directories. -/
structure Kept (fsi : Fsi) (dirs dirs' : Finset Nat) (chain chain' : Nat → List Nat) (s t : VnSt) : Prop where
  core : t.fv.core = s.fv.core
  cache : t.fv.clsCache = s.fv.clsCache ∨ CacheOk fsi (view fsi t.vol.disk).fat s.fv.cluster t.fv.clsCache
  grows : ∀ e ∈ dirs, e ∈ dirs' → ∃ ext, chain' e = chain e ++ ext

theorem grows_refl (chain : Nat → List Nat) (e : Nat) : ∃ ext, chain e = chain e ++ ext := ⟨[], (List.append_nil _).symm⟩

theorem grows_update (chain : Nat → List Nat) (d : Nat) (ext : List Nat) (e : Nat) :
    ∃ ext', Function.update chain d (chain d ++ ext) e = chain e ++ ext' := by
  by_cases hed : e = d
  · subst hed
    exact ⟨ext, Function.update_self _ _ _⟩
  · rw [Function.update_of_ne hed]
    exact grows_refl chain e

theorem Tree.inTree (hg : Geometry fsi) (T : Tree fsi dirs chain es H v) (h : InTree fsi v d) : d ∈ dirs := by
  induction h with
  | root => exact T.root
  | @sub d cs e _ hl he hdir hdots ih =>
    obtain rfl := hl.unique (fatEnds hg _) (T.holds d ih).chain
    obtain ⟨x, hx, rfl⟩ := (T.holds d ih).tidy.live.mp he
    exact T.sub ih hx (decide_eq_false hdots) (decide_eq_true hdir)

/-- A caller sees whether a directory is empty. -/
theorem Tree.empty (T : Tree fsi dirs chain es H v) (hd : d ∈ dirs) (hx : x ∈ es d) (hdots : x.isDots = false)
    (hdir : x.item.dir = true) : emptyDir es x = true ↔ space dirs es x.item.cluster = some fun _ => none := by
  rw [show space dirs es x.item.cluster = _ from space_mem (T.sub hd hx hdots hdir), Option.some_inj, names_empty]
  exact List.isEmpty_iff

/-- A search reads the dictionary. -/
theorem Tree.find (hk : Reliable fsi.kernel) (hg : Geometry fsi) (T : Tree fsi dirs chain es H s.vol) (hd : s.fv.cluster ∈ dirs)
    (hlist : Listable fsi (chain s.fv.cluster)) (hdir : IsDir fsi (chain s.fv.cluster) s) {r : Out Errno Fv}
    (hrun : findDirent fsi nm (vnodeNew fsi) s = (r, t)) :
    Tree fsi dirs chain es H t.vol ∧ Kept fsi dirs dirs chain chain s t ∧
      Says fsi (space dirs es) (s.fv, .find nm r) (space dirs es) := by
  have h := T.holds _ hd
  have hseen := findDirent_core hk hg hdir nm
  have hfind := h.find hk hg hlist hdir nm
  rw [hrun] at hseen hfind
  have hcache := hseen.right
  rw [hseen.cluster] at hcache
  refine ⟨T.same hseen.vol, ⟨hseen.fv.core, .inr hcache, fun e _ _ => grows_refl chain e⟩, ?_⟩
  by_cases hdot : isDot nm = true
  · exact .dots hdot
  · have hdot' : isDot nm = false := Bool.eq_false_iff.mpr hdot
    rcases hfind with ⟨hno, rfl⟩ | ⟨x, hx, hkey, fv, rfl, F⟩
    · exact .absent (space_mem hd) hdot' (names_none hno)
    · have hitem := names_some h.distinct hx ((h.sound x hx).isDots hkey (isDot_take hdot'))
      rw [hkey] at hitem
      exact .found (space_mem hd) hdot' hitem F.cluster F.type

/-- An entry that is made is an insertion, and a directory with it is empty. -/
theorem Tree.made (hg : Geometry fsi) (T : Tree fsi dirs chain es H v) (hd : d ∈ dirs) (hname : SevenBit name) (hdot : isDot name = false)
    (hren : flags.rename = false) (hnew : ∀ y ∈ es d, y.key ≠ fold name) {ext : List Nat} {n : Nat} {now : Timespec}
    (E : EntryWritten fsi d (chain d) ext name (newDirent flags fv name d n c now) n v w) (hb : Beside fsi (chain d) v w)
    (htakes : Takes fsi H d flags c w) : ∃ dirs' chain' es' H', Tree fsi dirs' chain' es' H' w ∧
      (∀ e ∈ dirs, e ∈ dirs' → ∃ ext, chain' e = chain e ++ ext) ∧
      space dirs' es' = (space dirs es).create d (names (es d)) (fold name) ⟨name, flags.dir, c⟩ ∧
      if flags.dir then space dirs es c = none else c = 0 := by
  have h := T.holds d hd
  unfold Takes at htakes
  by_cases hdir : flags.dir = true
  · rw [if_pos hdir] at htakes
    obtain ⟨hc, G, hl, ft, hslots⟩ := htakes
    have hc28 : c < 2 ^ 28 := (hl.inRange c hl.head_mem).2.trans_lt (hg.count.trans (by decide))
    have F := newEntry_fresh hname hdot hren hc28 (fun _ => hl.head_ne_zero) fv d n now
    obtain ⟨es1, es2, hes, hin⟩ := h.added hnew E F
    have hisDir : (newEntry flags fv name d n c now).isDir = true := F.isDir.trans hdir
    have hcd : c ∉ dirs := fun hmem => hc (T.head hmem)
    have T' := T.mkdir hd hin hb hc (holds_new hg hl hslots) (proper_dots fsi ft c d) G (by
      rw [files_middle F.dots, fileHead, if_pos (.inl hisDir), zero_add, hes]) (by
      rw [subdirs_middle F.dots, dirHead, if_pos hisDir, F.cluster, hes])
    refine ⟨_, _, _, _, T', fun e he _ => ?_, ?_, ?_⟩
    · have hgrows := grows_update (Function.update chain c [c]) d ext e
      rw [Function.update_of_ne (ne_of_mem_of_not_mem hd hcd)] at hgrows
      rwa [Function.update_of_ne (ne_of_mem_of_not_mem he hcd)] at hgrows
    · rw [space_update (Finset.mem_insert_of_mem hd), space_insert, F.names_eq (hes ▸ hnew), ← hes, Space.create, if_pos hdir,
        names_empty.mpr (proper_dots fsi ft c d)]
    · rw [if_pos hdir]
      exact if_neg hcd
  · rw [if_neg hdir] at htakes
    obtain ⟨rfl, G⟩ := htakes
    have F := newEntry_fresh hname hdot hren (show 0 < 2 ^ 28 by decide) (fun h => absurd h hdir) fv d n now
    obtain ⟨es1, es2, hes, hin⟩ := h.added hnew E F
    have hisDir : ¬ (newEntry flags fv name d n 0 now).isDir = true := by rwa [F.isDir]
    have T' := T.changed hd hin hb G (by
      rw [files_middle F.dots, fileHead, if_pos (.inr F.cluster), zero_add, hes]) (by
      rw [subdirs_middle F.dots, dirHead, if_neg hisDir, zero_add, hes])
    refine ⟨_, _, _, _, T', fun e _ _ => grows_update chain d ext e, ?_, ?_⟩
    · rw [space_update hd, F.names_eq (hes ▸ hnew), ← hes, Space.create, if_neg hdir]
    · rw [if_neg hdir]

/-- A call that makes a name. -/
theorem Tree.create (hk : Reliable fsi.kernel) (hg : Geometry fsi) (T : Tree fsi dirs chain es H s.vol) (hd : s.fv.cluster ∈ dirs)
    (hroom : Room fsi (chain s.fv.cluster)) (hdir : IsDir fsi (chain s.fv.cluster) s) (hvp : s.fv.vnode ≠ none) {r : Out Errno Fv}
    (ha : (NameCall.create name flags fv r).Allowed fsi s) (hrun : createFdentry fsi fv name flags s = (r, t)) :
    ∃ dirs' chain' es' H', Tree fsi dirs' chain' es' H' t.vol ∧ Kept fsi dirs dirs' chain chain' s t ∧
      Says fsi (space dirs es) (s.fv, .create name flags fv r) (space dirs' es') := by
  obtain ⟨hname, hdot, hren, hreuse, hsearch⟩ := ha
  obtain ⟨vp, hvp⟩ := Option.ne_none_iff_exists'.mp hvp
  have h := T.holds _ hd
  have hnew : ∀ y ∈ es s.fv.cluster, y.key ≠ fold name := by
    have hfind := h.find hk hg (hroom.listable hg) hdir name
    rw [hsearch, List.take_of_length_le hname.short] at hfind
    rcases hfind with ⟨hno, -⟩ | ⟨x, -, -, fv, hok, -⟩
    · exact hno
    · cases hok
  have hends : WP (createFdentry fsi fv name flags) s _ := createFdentry_adds hk hg hroom T.good (T.head hd) h.chain hname.short hvp hren hreuse
  unfold WP at hends
  rw [hrun] at hends
  obtain ⟨hfv, hb, hadds⟩ := hends
  have hcore : t.fv.core = s.fv.core := by rw [hfv]
  have hcache : t.fv.clsCache = s.fv.clsCache := by rw [hfv]
  cases hadds with
  | full ext Z hl hslots hZ G =>
    have T' := T.changed hd (h.grown hl hslots hZ) hb G rfl rfl
    rw [Function.update_eq_self] at T'
    exact ⟨_, _, _, _, T', ⟨hcore, .inl hcache, fun e _ _ => grows_update chain _ ext e⟩, .full⟩
  | lost ext n c now E htakes =>
    obtain ⟨dirs', chain', es', H', T', hgrows, hspace, hc⟩ := T.made hg hd hname hdot hren hnew E hb htakes
    exact ⟨dirs', chain', es', H', T', ⟨hcore, .inl hcache, hgrows⟩,
      hspace ▸ .made (space_mem hd) (names_none hnew) hc (.inl rfl)⟩
  | made ext n c now u fv' E htakes hmade =>
    obtain ⟨dirs', chain', es', H', T', hgrows, hspace, hc⟩ := T.made hg hd hname hdot hren hnew E hb htakes
    obtain ⟨_, _, rfl⟩ := makeVnode_made hmade
    exact ⟨dirs', chain', es', H', T', ⟨hcore, .inl hcache, hgrows⟩,
      hspace ▸ .made (space_mem hd) (names_none hnew) hc (.inr ⟨_, rfl, rfl, rfl⟩)⟩

/-- A call that takes a name away. -/
theorem Tree.remove (hk : Reliable fsi.kernel) (hg : Geometry fsi) (hfuel : fsi.clusterCount < fsi.kernel.fuel)
    (T : Tree fsi dirs chain es H s.vol) (hd : s.fv.cluster ∈ dirs) (hlist : Listable fsi (chain s.fv.cluster))
    (hdir : IsDir fsi (chain s.fv.cluster) s) {isDir : Bool} {cdir : Option Nat} {cr : Cred} {r : Out Errno Unit}
    (hrun : removeCommon fsi nm isDir cdir cr s = (r, t)) : ∃ dirs' chain' es' H', Tree fsi dirs' chain' es' H' t.vol ∧
      Kept fsi dirs dirs' chain chain' s t ∧ Says fsi (space dirs es) (s.fv, .remove nm isDir cdir cr r) (space dirs' es') := by
  have h := T.holds _ hd
  have hends : WP (removeCommon fsi nm isDir cdir cr) s _ := removeCommon_ends hk hg hfuel h hlist hdir T.good (T.head hd) isDir cdir cr
    fun x hx hdots => T.target hd hx hdots
  unfold WP at hends
  rw [hrun] at hends
  obtain ⟨hcache, hcore, hend⟩ := hends
  have hkept (dirs' : Finset Nat) : Kept fsi dirs dirs' chain chain s t := ⟨hcore, .inr hcache, fun e _ _ => grows_refl chain e⟩
  cases hend with
  | dots hdot hs => exact ⟨dirs, chain, es, H, T.same hs, hkept dirs, .notDots hdot⟩
  | denied hdot hacc hs => exact ⟨dirs, chain, es, H, T.same hs, hkept dirs, .denied hdot hacc⟩
  | absent hdot hacc hno hs => exact ⟨dirs, chain, es, H, T.same hs, hkept dirs, .missing (space_mem hd) hdot hacc (names_none hno)⟩
  | refused hdot hacc x hx hkey he hs =>
    have hdots := (h.sound x hx).isDots hkey (isDot_take hdot)
    have hitem := names_some h.distinct hx hdots
    rw [hkey] at hitem
    exact ⟨dirs, chain, es, H, T.same hs, hkept dirs, .refused (space_mem hd) hdot hacc hitem (T.empty hd hx hdots) he⟩
  | removed hdot hacc es1 es2 x hes hkey he l hl hb hin G =>
    have hx : x ∈ es s.fv.cluster := hes ▸ List.mem_append_cons_self
    have hdots := (h.sound x hx).isDots hkey (isDot_take hdot)
    have hitem := names_some h.distinct hx hdots
    rw [hkey] at hitem
    have hdist : Distinct DirEntry.key (es1 ++ x :: es2) := hes ▸ h.distinct
    have hsays : Says fsi (space dirs es) (s.fv, .remove nm isDir cdir cr (.ok ())) _ :=
      .removed (space_mem hd) hdot hacc hitem (T.empty hd hx hdots) he
    have hnames : names (es1 ++ es2) = Function.update (names (es s.fv.cluster)) (fold (nm.take 255)) none := by
      rw [names_remove hdots hdist, ← hes, hkey]
    by_cases hisDir : x.isDir = true
    · have hnil : proper (es x.dentry.firstCluster) = [] := List.isEmpty_iff.mp (removeErr_none he hisDir)
      have h0 := (h.sound x hx).placed hisDir hdots
      have hne : x.dentry.firstCluster ≠ s.fv.cluster := (T.target hd hx hdots).apart fun _ => List.isEmpty_iff.mpr hnil
      rw [if_neg h0] at G
      have T' := T.rmdir hd hin hes hdots hisDir hnil (hl.resolve_left fun h => h0 h.1) hb G
      rw [Function.update_eq_self] at T'
      refine ⟨_, _, _, _, T', hkept _, ?_⟩
      rw [space_update (Finset.mem_erase_of_ne_of_mem hne.symm hd), space_erase, hnames]
      rwa [Space.remove, if_pos (show x.item.dir = true from hisDir)] at hsays
    · have T' := T.unlink hd hin hes hdots (Bool.eq_false_iff.mpr hisDir) hl hb G
      rw [Function.update_eq_self] at T'
      refine ⟨_, _, _, _, T', hkept _, ?_⟩
      rw [space_update hd, hnames]
      rwa [Space.remove, if_neg (show ¬ x.item.dir = true from hisDir)] at hsays

/-! ## Runs -/

variable {S : Space} {p q : Dirs} {a : Fv × NameCall} {calls : List (Fv × NameCall)}

/-- The volume has a tree of directories with the names of `S`, and the vnodes are of directories of the tree. -/
structure Shows (fsi : Fsi) (p : Dirs) (S : Space) : Prop where
  tree : ∃ dirs chain es H, Tree fsi dirs chain es H p.vol ∧ S = space dirs es
  used : ∀ fv ∈ p.vnodes, InUse fsi p.vol fv

/-- A call on one directory leaves the caches of all vnodes as accurate as they were. -/
theorem Kept.used (hg : Geometry fsi) {dirs' : Finset Nat} {chain' : Nat → List Nat} {es' : Nat → List DirEntry} {H' : Finset Nat}
    (K : Kept fsi dirs dirs' chain chain' s t) (T : Tree fsi dirs chain es H s.vol) (T' : Tree fsi dirs' chain' es' H' t.vol)
    (hs : InUse fsi s.vol s.fv) (htree : InTree fsi t.vol fv.cluster)
    (h : fv = t.fv ∨ InUse fsi s.vol fv ∨ fv.type = .vdir ∧ fv.vnode ≠ none ∧ fv.clsCache = emptyCache) : InUse fsi t.vol fv := by
  have hlater {f : Fv} (hf : InUse fsi s.vol f) (ht : InTree fsi t.vol f.cluster) :
      CacheOk fsi (view fsi t.vol.disk).fat f.cluster f.clsCache := by
    have hd := T.inTree hg hf.tree
    have hd' := T'.inTree hg ht
    obtain ⟨ext, hext⟩ := K.grows _ hd hd'
    have hl := (T'.holds _ hd').chain
    rw [hext] at hl
    exact hf.cache.append hg (T.holds _ hd).chain hl
  rcases h with rfl | hused | ⟨htype, hvnode, hempty⟩
  · have hcluster : t.fv.cluster = s.fv.cluster := (congrArg Fv.cluster K.core :)
    have hvnode : t.fv.vnode = s.fv.vnode := (congrArg Fv.vnode K.core :)
    refine ⟨htree, (congrArg Fv.type K.core).trans hs.type, hvnode ▸ hs.vnode, ?_⟩
    rw [hcluster] at htree ⊢
    rcases K.cache with hcache | hcache
    · rw [hcache]
      exact hlater hs htree
    · exact hcache
  · exact ⟨htree, hused.type, hused.vnode, hlater hused htree⟩
  · refine ⟨htree, htype, hvnode, ?_⟩
    rw [hempty]
    exact CacheOk.empty

theorem Shows.step (hk : Reliable fsi.kernel) (hg : Geometry fsi) (hfuel : fsi.clusterCount < fsi.kernel.fuel) (h : Shows fsi p S)
    (st : DirStep fsi p a q) : ∃ S', Says fsi S a S' ∧ Shows fsi q S' := by
  obtain ⟨⟨dirs, chain, es, H, T, rfl⟩, hopen⟩ := h
  obtain ⟨dir, call⟩ := a
  obtain ⟨hmem, hroom, hallowed, fv, hruns, hvnodes⟩ := st
  have hused : InUse fsi p.vol dir := hopen dir hmem
  have hd := T.inTree hg hused.tree
  have h := T.holds _ hd
  have hrm := hroom _ h.chain
  have hdir : IsDir fsi (chain dir.cluster) ⟨p.vol, dir⟩ := ⟨hused.type, h.chain.path hg, hused.cache⟩
  have hend : ∃ dirs' chain' es' H', Tree fsi dirs' chain' es' H' q.vol ∧ Kept fsi dirs dirs' chain chain' ⟨p.vol, dir⟩ ⟨q.vol, fv⟩ ∧
      Says fsi (space dirs es) (dir, call) (space dirs' es') := by
    cases call with
    | find nm r => exact ⟨_, _, _, _, Tree.find (s := ⟨p.vol, dir⟩) (t := ⟨q.vol, fv⟩) hk hg T hd (hrm.listable hg) hdir hruns⟩
    | create name flags new r => exact Tree.create (s := ⟨p.vol, dir⟩) (t := ⟨q.vol, fv⟩) hk hg T hd hrm hdir hused.vnode hallowed hruns
    | remove nm isDir cdir cr r =>
      exact Tree.remove (s := ⟨p.vol, dir⟩) (t := ⟨q.vol, fv⟩) hk hg hfuel T hd (hrm.listable hg) hdir hruns
  obtain ⟨dirs', chain', es', H', T', K, hsays⟩ := hend
  refine ⟨_, hsays, ⟨dirs', chain', es', H', T', rfl⟩, fun f hf => ?_⟩
  obtain ⟨htree, hfrom⟩ := hvnodes f hf
  exact K.used hg T T' hused htree (hfrom.imp_right (Or.imp_left (hopen f)))

/-- The integrity check accepts every directory. -/
theorem Tree.checked (hk : Reliable fsi.kernel) (hg : Geometry fsi) (hfuel : fsi.clusterCount < fsi.kernel.fuel)
    (T : Tree fsi dirs chain es H v) (hd : fv.cluster ∈ dirs) (htype : fv.type = .vdir) :
    (checkDirIntegrity fsi fv v).1 = .ok () := by
  have h := T.holds _ hd
  have hdir : IsDir fsi (chain fv.cluster) ⟨v, { fv with clsCache := emptyCache }⟩ := ⟨htype, h.chain.path hg, CacheOk.empty⟩
  have hle := h.chain.length_le hg
  refine (checkDir_slots hk hg (hle.trans hfuel.le) hdir h.chain.head_ne_zero).mpr ?_
  rw [readSlots_eq hg h.chain.inRange]
  exact ⟨_, h.tidy, fun x hx => (h.sound x hx).unsized⟩

/-! ### A volume with an empty root directory -/

theorem twoClusters_slots : ∀ z ∈ volSlots twoClusters [2] twoClustersVol, z.first = 0 := by
  intro z hz
  obtain ⟨c, hc, hz⟩ := List.mem_flatMap.mp hz
  obtain rfl := List.mem_singleton.mp hc
  obtain ⟨i, -, rfl⟩ := List.mem_map.mp hz
  have haddr : clusterAddr twoClusters 2 = 1024 := by decide
  show (if InRange twoClusters 2 ∧ dentrySize * i + 0 < 512 then
    twoClustersVol.disk (clusterAddr twoClusters 2 + (dentrySize * i + 0)) else 0) = 0
  rw [haddr]
  split
  · simp only [twoClustersVol]
    rw [if_neg (by omega), if_neg (by omega), if_neg (by omega)]
  · rfl

theorem twoClusters_tree : Tree twoClusters {2} (fun _ => [2]) (fun _ => []) {2} twoClustersVol :=
  .fresh (.last (by constructor <;> decide)) twoClusters_slots twoClusters_good

/-- The volume and the vnode after a call that makes a name through the only vnode. -/
def madeName (fsi : Fsi) (fv : Fv) (name : List UInt8) (flags : CreFlags) (s : VnSt) : (Fv × NameCall) × Dirs :=
  let run := createFdentry fsi fv name flags s
  ((s.fv, .create name flags fv run.1), ⟨run.2.vol, {run.2.fv}⟩)

theorem dirStep_create (hroom : ∀ cs, FatChain fsi (view fsi s.vol.disk).fat s.fv.cluster cs → Room fsi cs)
    (hallowed : ∀ r, (NameCall.create name flags fv r).Allowed fsi s)
    (htree : InTree fsi (createFdentry fsi fv name flags s).2.vol (createFdentry fsi fv name flags s).2.fv.cluster) :
    DirStep fsi ⟨s.vol, {s.fv}⟩ (madeName fsi fv name flags s).1 (madeName fsi fv name flags s).2 :=
  ⟨rfl, hroom, hallowed _, (createFdentry fsi fv name flags s).2.fv, rfl, fun _ hf => ⟨hf ▸ htree, .inl hf⟩⟩

theorem dirStep_find (hroom : ∀ cs, FatChain fsi (view fsi s.vol.disk).fat s.fv.cluster cs → Room fsi cs) : DirStep fsi ⟨s.vol, {s.fv}⟩
    (s.fv, .find nm (findDirent fsi nm (vnodeNew fsi) s).1) ⟨(findDirent fsi nm (vnodeNew fsi) s).2.vol, ∅⟩ :=
  ⟨rfl, hroom, trivial, (findDirent fsi nm (vnodeNew fsi) s).2.fv, rfl, fun _ hf => absurd hf (Set.notMem_empty _)⟩

def twoClustersRoot : VnSt := ⟨twoClustersVol, { vnode := some 1, cluster := 2, type := .vdir }⟩

theorem twoClusters_shows : Shows twoClusters ⟨twoClustersRoot.vol, {twoClustersRoot.fv}⟩ (space {2} fun _ => []) := by
  refine ⟨⟨_, _, _, _, twoClusters_tree, rfl⟩, fun fv hfv => ?_⟩
  obtain rfl : fv = twoClustersRoot.fv := hfv
  exact ⟨.root, rfl, Option.some_ne_none 1, CacheOk.empty⟩

theorem sevenBit_A : SevenBit [65] := by
  refine ⟨fun c hc => ?_, by decide⟩
  obtain rfl := List.mem_singleton.mp hc
  decide

theorem twoClustersRoot_room : Room twoClusters [2] := ⟨by decide, by decide⟩

/-- A directory `A` is made in it. -/
theorem twoClusters_mkdir : DirStep twoClusters ⟨twoClustersRoot.vol, {twoClustersRoot.fv}⟩
    (madeName twoClusters {} [65] { dir := true } twoClustersRoot).1 (madeName twoClusters {} [65] { dir := true } twoClustersRoot).2 := by
  have hk : Reliable twoClusters.kernel := ⟨fun _ => rfl⟩
  have h : Holds twoClusters twoClustersRoot.fv.cluster [2] [] twoClustersRoot.vol := twoClusters_tree.holds 2 (by decide)
  have hdir : IsDir twoClusters [2] twoClustersRoot := ⟨rfl, h.chain.path twoClusters_geometry, CacheOk.empty⟩
  have hfind := h.find hk twoClusters_geometry (twoClustersRoot_room.listable twoClusters_geometry) hdir [65]
  have habsent := hfind.elim And.right fun hx => hx.elim fun _ hx => absurd hx.1 List.not_mem_nil
  have hsame : WP (createFdentry twoClusters {} [65] { dir := true }) twoClustersRoot _ :=
    createFdentry_adds hk twoClusters_geometry twoClustersRoot_room twoClusters_good (by decide) h.chain sevenBit_A.short rfl rfl rfl
  have htree : InTree twoClusters (createFdentry twoClusters {} [65] { dir := true } twoClustersRoot).2.vol
      (createFdentry twoClusters {} [65] { dir := true } twoClustersRoot).2.fv.cluster := by
    obtain ⟨⟨r, t⟩, hrun⟩ : ∃ p, createFdentry twoClusters {} [65] { dir := true } twoClustersRoot = p := ⟨_, rfl⟩
    unfold WP at hsame
    rw [hrun] at hsame ⊢
    rw [hsame.1]
    exact .root
  refine dirStep_create (fun cs hcs => ?_) (fun _ => ⟨sevenBit_A, rfl, rfl, rfl, habsent⟩) htree
  rw [hcs.unique (fatEnds twoClusters_geometry _) h.chain]
  exact twoClustersRoot_room

/-! ### All calls -/

/-- Whatever is called on the names of the directories, and however it ends, is what a map from directories to names says. -/
theorem names_refined (hk : Reliable fsi.kernel) (hg : Geometry fsi) (hfuel : fsi.clusterCount < fsi.kernel.fuel) (h : Shows fsi p S)
    (run : Trace (DirStep fsi) p calls q) : ∃ S', Trace (Says fsi) S calls S' ∧ Shows fsi q S' :=
  run.simulates (fun h st => h.step hk hg hfuel st) h

theorem names_refined_mkdir : ∃ S', Trace (Says twoClusters) (space {2} fun _ => [])
    [(madeName twoClusters {} [65] { dir := true } twoClustersRoot).1] S' ∧
      Shows twoClusters (madeName twoClusters {} [65] { dir := true } twoClustersRoot).2 S' :=
  names_refined ⟨fun _ => rfl⟩ twoClusters_geometry (by decide) twoClusters_shows (.cons twoClusters_mkdir (.nil _))

/-- After any calls every directory that is found from the root passes the integrity check and has a chain of its own, and
the caches of the vnodes in use agree with the table. -/
theorem names_sound (hk : Reliable fsi.kernel) (hg : Geometry fsi) (hfuel : fsi.clusterCount < fsi.kernel.fuel) (h : Shows fsi p S)
    (run : Trace (DirStep fsi) p calls q) : ∃ H, Good fsi H q.vol ∧ (∀ d, InTree fsi q.vol d → d ∈ H) ∧
      (∀ fv ∈ q.vnodes, CacheOk fsi (view fsi q.vol.disk).fat fv.cluster fv.clsCache) ∧
      ∀ fv : Fv, InTree fsi q.vol fv.cluster → fv.type = .vdir → (checkDirIntegrity fsi fv q.vol).1 = .ok () := by
  have hend : ∃ S, Shows fsi q S := by
    refine @Trace.invariant _ _ _ _ _ _ (fun p => ∃ S, Shows fsi p S) (fun {s a t} _ h st => ?_) run ⟨S, h⟩
    obtain ⟨S, h⟩ := h
    obtain ⟨S', -, h'⟩ := h.step hk hg hfuel st
    exact ⟨S', h'⟩
  obtain ⟨_, ⟨dirs, chain, es, H, T, -⟩, hused⟩ := hend
  exact ⟨H, T.good, fun d hd => T.head (T.inTree hg hd), fun fv hfv => (hused fv hfv).cache,
    fun fv hd htype => T.checked hk hg hfuel (T.inTree hg hd) htype⟩

theorem names_sound_mkdir : ∃ H, Good twoClusters H (madeName twoClusters {} [65] { dir := true } twoClustersRoot).2.vol ∧
    (∀ d, InTree twoClusters (madeName twoClusters {} [65] { dir := true } twoClustersRoot).2.vol d → d ∈ H) ∧
    (∀ fv ∈ (madeName twoClusters {} [65] { dir := true } twoClustersRoot).2.vnodes,
      CacheOk twoClusters (view twoClusters (madeName twoClusters {} [65] { dir := true } twoClustersRoot).2.vol.disk).fat
        fv.cluster fv.clsCache) ∧
    ∀ fv : Fv, InTree twoClusters (madeName twoClusters {} [65] { dir := true } twoClustersRoot).2.vol fv.cluster → fv.type = .vdir →
      (checkDirIntegrity twoClusters fv (madeName twoClusters {} [65] { dir := true } twoClustersRoot).2.vol).1 = .ok () :=
  names_sound ⟨fun _ => rfl⟩ twoClusters_geometry (by decide) twoClusters_shows (.cons twoClusters_mkdir (.nil _))

/-! ## What a search tells -/

variable {dir : Fv} {key : List UInt8} {i : Item} {N : List UInt8 → Option Item} {S' : Space} {r : Out Errno Fv}

/-- The name is in the directory. -/
def Space.Named (S : Space) (d : Nat) (key : List UInt8) (i : Item) : Prop := ∃ N, S d = some N ∧ N key = some i

/-- It is not, if there is a directory. -/
def Space.Unnamed (S : Space) (d : Nat) (key : List UInt8) : Prop := ∀ N, S d = some N → N key = none

/-- The call takes the name away. -/
def Unlinks (d : Nat) (key : List UInt8) (a : Fv × NameCall) : Prop :=
  a.1.cluster = d ∧ ∃ nm isDir cdir cr, a.2 = .remove nm isDir cdir cr (.ok ()) ∧ fold (nm.take 255) = key

/-- The call asks for the name to be made. -/
def Makes (d : Nat) (key : List UInt8) (a : Fv × NameCall) : Prop :=
  a.1.cluster = d ∧ ∃ name flags fv r, a.2 = .create name flags fv r ∧ fold name = key

/-- A directory with a name in it is not removed. -/
theorem Space.Named.not_empty (hn : S.Named d key i) : S d ≠ some fun _ => none := by
  obtain ⟨N, hN, hi⟩ := hn
  intro hempty
  rw [Option.some.inj (hN.symm.trans hempty)] at hi
  cases hi

/-- One call. -/
theorem Says.named (h : Says fsi S a S') (hn : S.Named d key i) (hno : ¬ Unlinks d key a) : S'.Named d key i := by
  cases h with
  | dots => exact hn
  | found => exact hn
  | absent => exact hn
  | full => exact hn
  | @made dir fv name flags N c r hN hfree hc hr =>
    obtain ⟨M, hM, hi⟩ := hn
    by_cases hd : d = dir.cluster
    · subst hd
      obtain rfl := Option.some.inj (hM.symm.trans hN)
      refine ⟨_, Function.update_self _ _ _, ?_⟩
      rw [Function.update_of_ne, hi]
      rintro rfl
      rw [hi] at hfree
      cases hfree
    · refine ⟨M, ?_, hi⟩
      rw [Space.create, Function.update_of_ne hd]
      by_cases hdir : flags.dir = true
      · rw [if_pos hdir] at hc ⊢
        rw [Function.update_of_ne, hM]
        rintro rfl
        rw [hM] at hc
        cases hc
      · rwa [if_neg hdir]
  | notDots => exact hn
  | denied => exact hn
  | missing => exact hn
  | refused => exact hn
  | @removed dir nm isDir cdir cr N i' empty hN hdot hacc hi' hempty herr =>
    by_cases hd : d = dir.cluster
    · obtain ⟨M, hM, hi⟩ := hn
      subst hd
      obtain rfl := Option.some.inj (hM.symm.trans hN)
      refine ⟨_, Function.update_self _ _ _, ?_⟩
      rw [Function.update_of_ne, hi]
      exact fun hkey => hno ⟨rfl, nm, isDir, cdir, cr, rfl, hkey.symm⟩
    · have hne := hn.not_empty
      obtain ⟨M, hM, hi⟩ := hn
      refine ⟨M, ?_, hi⟩
      rw [Space.remove, Function.update_of_ne hd]
      by_cases hdir : i'.dir = true
      · rw [if_pos hdir, Function.update_of_ne, hM]
        rintro rfl
        exact hne ((hempty hdir).mp (removeErr_none herr hdir))
      · rwa [if_neg hdir]

/-- One call. -/
theorem Says.unnamed (h : Says fsi S a S') (hn : S.Unnamed d key) (hno : ¬ Makes d key a) : S'.Unnamed d key := by
  cases h with
  | dots => exact hn
  | found => exact hn
  | absent => exact hn
  | full => exact hn
  | @made dir fv name flags N c r hN hfree hc hr =>
    intro M hM
    by_cases hd : d = dir.cluster
    · subst hd
      rw [Space.create, Function.update_self] at hM
      rw [← Option.some.inj hM, Function.update_of_ne]
      · exact hn N hN
      · exact fun hkey => hno ⟨rfl, name, flags, fv, r, rfl, hkey.symm⟩
    · rw [Space.create, Function.update_of_ne hd] at hM
      by_cases hdir : flags.dir = true
      · rw [if_pos hdir] at hM
        by_cases hdc : d = c
        · subst hdc
          rw [Function.update_self] at hM
          rw [← Option.some.inj hM]
        · rw [Function.update_of_ne hdc] at hM
          exact hn M hM
      · rw [if_neg hdir] at hM
        exact hn M hM
  | notDots => exact hn
  | denied => exact hn
  | missing => exact hn
  | refused => exact hn
  | @removed dir nm isDir cdir cr N i' empty hN hdot hacc hi' hempty herr =>
    intro M hM
    by_cases hd : d = dir.cluster
    · subst hd
      rw [Space.remove, Function.update_self] at hM
      rw [← Option.some.inj hM]
      by_cases hkey : key = fold (nm.take 255)
      · rw [hkey, Function.update_self]
      · rw [Function.update_of_ne hkey]
        exact hn N hN
    · rw [Space.remove, Function.update_of_ne hd] at hM
      by_cases hdir : i'.dir = true
      · rw [if_pos hdir] at hM
        by_cases hdc : d = i'.cluster
        · rw [hdc, Function.update_self] at hM
          cases hM
        · rw [Function.update_of_ne hdc] at hM
          exact hn M hM
      · rw [if_neg hdir] at hM
        exact hn M hM

/-! ### A volume with a file -/

/-- The file `A` is written into the root directory. -/
def fileA : Vol := (writeFdentry twoClusters 2 0 (newDirent {} {} [65] 2 0 0 {}).toSlot twoClustersVol).2

/-- The names on the volume. -/
def spaceA : Space := (space {2} fun _ => []).create 2 (names []) (fold [65]) ⟨[65], false, 0⟩

theorem spaceA_root : spaceA 2 = some (Function.update (names []) (fold [65]) (some ⟨[65], false, 0⟩)) := by
  rw [spaceA, Space.create, Function.update_self]

theorem fileA_tree : (∃ dirs chain es H, Tree twoClusters dirs chain es H fileA ∧ spaceA = space dirs es) ∧
    FatChain twoClusters (view twoClusters fileA.disk).fat 2 [2] := by
  have hk : Reliable twoClusters.kernel := ⟨fun _ => rfl⟩
  have hg := twoClusters_geometry
  have T := twoClusters_tree
  have h : Holds twoClusters 2 [2] [] twoClustersVol := T.holds 2 (by decide)
  have hlen : (volSlots twoClusters [2] twoClustersVol).length = 16 := length_dirSlots _ _
  obtain ⟨v, e, E⟩ := writeFdentry_slots hk hg h.chain (i := 0) (by omega) (newDirent {} {} [65] 2 0 0 {}).toSlot
  have hdata := writeFdentry_dataOnly hk hg h.chain 0 (newDirent {} {} [65] 2 0 0 {}).toSlot
  unfold WP at hdata
  rw [Nat.mul_zero] at e
  rw [e] at hdata
  have hv : fileA = v := congrArg Prod.snd e
  have hshort : nameIsShort [65] = true := by decide
  have hslots : nameSlots [65] = 1 := by decide
  have hset : entrySet [65] (newDirent {} {} [65] 2 0 0 {}) = [] := if_pos hshort
  have hl : FatChain twoClusters (view twoClusters v.disk).fat 2 [2] := E.chain h.chain
  have hentry : EntryWritten twoClusters 2 [2] [] [65] (newDirent {} {} [65] 2 0 0 {}) 0 twoClustersVol v := by
    refine ⟨⟨fun j _ => .inr ⟨0, Nat.zero_le _, fun x hx => ?_⟩, fun j hj => absurd hj (Nat.not_lt_zero j)⟩, ?_, hl, [], ?_, ?_, ?_⟩
    · exact twoClusters_slots x (List.mem_of_getElem? hx)
    · rw [hslots]
      decide
    · exact fun z hz => absurd hz List.not_mem_nil
    · rw [List.append_nil, hlen, hslots]
      decide
    · rw [List.append_nil, List.append_nil, hset]
      exact E.slots
  have htakes : Takes twoClusters {2} 2 {} 0 v := by
    rw [Takes, if_neg Bool.false_ne_true]
    exact ⟨rfl, hdata.good _ twoClusters_good⟩
  obtain ⟨dirs, chain, es, H, T', -, hspace, -⟩ := T.made hg (by decide) sevenBit_A (by decide) rfl (fun y hy => absurd hy List.not_mem_nil)
    hentry E.beside htakes
  rw [hv]
  exact ⟨⟨dirs, chain, es, H, T', hspace.symm⟩, hl⟩

theorem fileA_shows : Shows twoClusters ⟨fileA, {twoClustersRoot.fv}⟩ spaceA := by
  refine ⟨fileA_tree.1, fun fv hfv => ?_⟩
  obtain rfl : fv = twoClustersRoot.fv := hfv
  exact ⟨.root, rfl, Option.some_ne_none 1, CacheOk.empty⟩

theorem DirEntry.Named.name_eq (h : x.Named) : x.name = x.shown := by
  unfold DirEntry.name DirEntry.shown
  by_cases hset : x.set = []
  · rw [if_pos hset, hset]
    rfl
  · obtain ⟨hne, hlen, -⟩ := h hset
    rw [if_neg hset, if_neg hne, List.take_of_length_le (hlen.trans (Nat.le_succ _))]

theorem DirEntry.Named.unfilled {l : List DirEntry} (h : ∀ x ∈ l, x.Named) : Unfilled l := by
  intro x hx u hu
  by_cases hset : x.set = []
  · rw [hset] at hu
    exact absurd hu List.not_mem_nil
  · exact (h x hx hset).2.2 u hu

/-- The names that are listed, but the dots, are those of the directory. -/
theorem Holds.listing (h : Holds fsi d cs k v) (root : Bool) :
    (((Fat32.listing root d k).filter fun e => !isDot e.name).map Emitted.name).Nodup ∧
      ∀ name, (∃ e ∈ Fat32.listing root d k, e.name = name ∧ isDot name = false) ↔ ∃ i, names k (fold name) = some i ∧ i.name = name := by
  have hname (x : DirEntry) (hx : x ∈ k) : (x.record d).name = x.shown := (h.sound x hx).named.name_eq
  have hroot : ∀ e ∈ (if root then [⟨0, 1, [46]⟩, ⟨0, 2, [46, 46]⟩] else [] : List Emitted), isDot e.name = true := by
    cases root <;> decide
  constructor
  · have hkeys : ((k.map (DirEntry.record d)).map Emitted.name).map fold = k.map DirEntry.key := by
      rw [List.map_map, List.map_map]
      exact List.map_congr_left fun x hx => congrArg fold (hname x hx)
    have hnodup : ((k.map (DirEntry.record d)).map Emitted.name).Nodup := List.Nodup.of_map fold (by rw [hkeys]; exact h.distinct)
    rw [Fat32.listing, List.filter_append, List.filter_eq_nil_iff.mpr fun e he => by rw [hroot e he]; decide, List.nil_append]
    exact hnodup.sublist (List.filter_sublist.map _)
  · intro name
    constructor
    · rintro ⟨e, he, rfl, hdot⟩
      rcases List.mem_append.mp he with he | he
      · exact absurd ((hroot e he).symm.trans hdot) (by decide)
      · obtain ⟨x, hx, rfl⟩ := List.mem_map.mp he
        rw [hname x hx] at hdot ⊢
        exact ⟨x.item, names_some h.distinct hx ((h.sound x hx).isDots rfl hdot), rfl⟩
    · rintro ⟨i, hi, rfl⟩
      obtain ⟨x, hx, -, rfl⟩ := mem_of_dict hi
      obtain ⟨hx, hdots⟩ := List.mem_filter.mp hx
      refine ⟨x.record d, List.mem_append_right _ (List.mem_map_of_mem hx), hname x hx, ?_⟩
      rw [Bool.eq_false_iff]
      intro hdot
      rw [(h.sound x hx).dots.mpr hdot] at hdots
      cases hdots

end Fat32
