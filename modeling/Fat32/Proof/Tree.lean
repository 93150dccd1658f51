import Mathlib
import Fat32.Proof.Unlink

/-!
# The tree of directories

Each directory but the root has its entry in one of them, and the chains in the table are those of the directories and the
files in them (`Tree`). Making a file or a directory, and removing one, leaves a tree.
-/

namespace Fat32

open Linked

variable {fsi : Fsi} {H dirs : Finset Nat} {chain : Nat → List Nat} {es : Nat → List DirEntry} {cs l : List Nat}
  {v w : Vol} {c d e : Nat} {x : DirEntry} {es1 es2 : List DirEntry} {name nm : List UInt8}

/-! ## Clusters that the directories list -/

/-- What all the directories list. -/
def total (g : List DirEntry → List Nat) (es : Nat → List DirEntry) (dirs : Finset Nat) : Multiset Nat :=
  ∑ d ∈ dirs, (g (es d) : Multiset Nat)

variable {g : List DirEntry → List Nat} {m : Multiset Nat} {k : List DirEntry}

theorem total_update (hd : d ∈ dirs) (h : (g k : Multiset Nat) = m + g (es d)) :
    total g (Function.update es d k) dirs = m + total g es dirs := by
  unfold total
  have hrest : ∑ i ∈ dirs.erase d, (g (Function.update es d k i) : Multiset Nat) = ∑ i ∈ dirs.erase d, (g (es i) : Multiset Nat) :=
    Finset.sum_congr rfl fun i hi => by rw [Function.update_of_ne (Finset.ne_of_mem_erase hi)]
  rw [← Finset.add_sum_erase _ _ hd, hrest, Function.update_self, h, add_assoc,
    Finset.add_sum_erase dirs (fun i => (g (es i) : Multiset Nat)) hd]

/-- One directory lists an entry less. -/
theorem total_remove (hd : d ∈ dirs) (hes : es d = es1 ++ x :: es2)
    (h : (g (es1 ++ x :: es2) : Multiset Nat) = m + g (es1 ++ es2)) :
    total g es dirs = m + total g (Function.update es d (es1 ++ es2)) dirs := by
  have hk : (g (es d) : Multiset Nat) = m + g (Function.update es d (es1 ++ es2) d) := by
    rw [Function.update_self, hes, h]
  have ht := total_update hd hk
  rwa [Function.update_idem, Function.update_eq_self] at ht

theorem total_insert (hc : c ∉ dirs) (hk : g k = []) : total g (Function.update es c k) (insert c dirs) = total g es dirs := by
  unfold total
  rw [Finset.sum_insert hc, Function.update_self, hk, Multiset.coe_nil, zero_add]
  exact Finset.sum_congr rfl fun i hi => by rw [Function.update_of_ne (ne_of_mem_of_not_mem hi hc)]

theorem total_erase (hc : c ∈ dirs) (hk : g (es c) = []) : total g es (dirs.erase c) = total g es dirs := by
  unfold total
  rw [← Finset.add_sum_erase dirs _ hc, hk, Multiset.coe_nil, zero_add]

theorem mem_total (hd : d ∈ dirs) (hc : c ∈ g (es d)) : c ∈ total g es dirs :=
  Multiset.mem_sum.mpr ⟨d, hd, hc⟩

/-- The chain of the file that an entry names. -/
def fileHead (x : DirEntry) : Multiset Nat := if x.isDir = true ∨ x.dentry.firstCluster = 0 then 0 else {x.dentry.firstCluster}

/-- That of the directory. -/
def dirHead (x : DirEntry) : Multiset Nat := if x.isDir = true then {x.dentry.firstCluster} else 0

theorem files_middle (hx : x.isDots = false) :
    (files (es1 ++ x :: es2) : Multiset Nat) = fileHead x + files (es1 ++ es2) := by
  rw [Multiset.coe_eq_coe.mpr (files_perm List.perm_middle), files_cons hx]
  by_cases h : x.isDir = true ∨ x.dentry.firstCluster = 0
  · rw [fileHead, if_pos h, if_pos h, zero_add]
  · rw [fileHead, if_neg h, if_neg h]
    rfl

theorem subdirs_middle (hx : x.isDots = false) :
    (subdirs (es1 ++ x :: es2) : Multiset Nat) = dirHead x + subdirs (es1 ++ es2) := by
  rw [Multiset.coe_eq_coe.mpr (subdirs_perm List.perm_middle), subdirs_cons hx]
  by_cases h : x.isDir = true
  · rw [dirHead, if_pos h, if_pos h]
    rfl
  · rw [dirHead, if_neg h, if_neg h, zero_add]

theorem files_nil (h : proper k = []) : files k = [] := by
  rw [files, h]
  rfl

theorem subdirs_nil (h : proper k = []) : subdirs k = [] := by
  rw [subdirs, h]
  rfl

/-! ## The tree -/

/-- The directories have the clusters `chain` and the entries `es`; every chain in the table is that of a directory or
of a file in one, and every directory but the root is in one of them. -/
structure Tree (fsi : Fsi) (dirs : Finset Nat) (chain : Nat → List Nat) (es : Nat → List DirEntry) (H : Finset Nat) (v : Vol) : Prop where
  holds : ∀ d ∈ dirs, Holds fsi d (chain d) (es d) v
  good : Good fsi H v
  heads : H.val = dirs.val + total files es dirs
  parents : dirs.val = fsi.rootCluster ::ₘ total subdirs es dirs

theorem Tree.head (T : Tree fsi dirs chain es H v) (hd : d ∈ dirs) : d ∈ H := by
  show d ∈ H.val
  rw [T.heads]
  exact Multiset.mem_add.mpr (.inl hd)

theorem Tree.root (T : Tree fsi dirs chain es H v) : fsi.rootCluster ∈ dirs := by
  show fsi.rootCluster ∈ dirs.val
  rw [T.parents]
  exact Multiset.mem_cons_self _ _

/-- A directory that is listed is one of the tree. -/
theorem Tree.sub (T : Tree fsi dirs chain es H v) (hd : d ∈ dirs) (hx : x ∈ es d) (hdots : x.isDots = false) (hdir : x.isDir = true) :
    x.dentry.firstCluster ∈ dirs := by
  show x.dentry.firstCluster ∈ dirs.val
  rw [T.parents]
  exact Multiset.mem_cons_of_mem (mem_total hd (mem_subdirs hx hdots hdir))

/-- The chain of a file is not that of a directory. -/
theorem Tree.file (T : Tree fsi dirs chain es H v) (hd : d ∈ dirs) (hx : x ∈ es d) (hdots : x.isDots = false)
    (hdir : x.isDir = false) (h0 : x.dentry.firstCluster ≠ 0) : x.dentry.firstCluster ∈ H ∧ x.dentry.firstCluster ∉ dirs := by
  have hmem := mem_total hd (mem_files hx hdots hdir h0)
  have hnodup := H.nodup
  rw [T.heads] at hnodup
  refine ⟨?_, fun hin => Multiset.disjoint_left.mp (Multiset.nodup_add.mp hnodup).2.2 hin hmem⟩
  show x.dentry.firstCluster ∈ H.val
  rw [T.heads]
  exact Multiset.mem_add.mpr (.inr hmem)

/-- Whether the directory of an entry is empty. -/
def emptyDir (es : Nat → List DirEntry) (x : DirEntry) : Bool := (proper (es x.dentry.firstCluster)).isEmpty

theorem Tree.target (T : Tree fsi dirs chain es H v) (hd : d ∈ dirs) (hx : x ∈ es d) (hdots : x.isDots = false) :
    Target fsi H d x (emptyDir es x) v := by
  have hmem : x ∈ proper (es d) := List.mem_filter.mpr ⟨hx, by rw [hdots]; rfl⟩
  by_cases hdir : x.isDir = true
  · have hsub := T.sub hd hx hdots hdir
    refine ⟨fun _ => T.head hsub, fun _ => ⟨_, _, T.holds _ hsub, List.isEmpty_iff⟩, fun hempty heq => ?_⟩
    have hnil := List.isEmpty_iff.mp (hempty hdir)
    rw [heq] at hnil
    exact List.ne_nil_of_mem hmem hnil
  · refine ⟨fun h0 => (T.file hd hx hdots (Bool.eq_false_iff.mpr hdir) h0).1, fun h => absurd h hdir, fun _ heq => ?_⟩
    have h0 : x.dentry.firstCluster ≠ 0 := by
      rw [heq]
      exact (T.holds d hd).chain.head_ne_zero
    have hnot := (T.file hd hx hdots (Bool.eq_false_iff.mpr hdir) h0).2
    rw [heq] at hnot
    exact hnot hd

theorem Tree.same (T : Tree fsi dirs chain es H v) (hs : Same v w) : Tree fsi dirs chain es H w :=
  ⟨fun d hd => (T.holds d hd).same hs, T.good.same hs, T.heads, T.parents⟩

/-- What is written to the clusters of one directory leaves the others alone. -/
theorem Tree.other (T : Tree fsi dirs chain es H v) (hd : d ∈ dirs) (hb : Beside fsi (chain d) v w) (he : e ∈ dirs) (hne : e ≠ d) :
    Holds fsi e (chain e) (es e) w :=
  (T.holds e he).beside hb
    (T.good.owned.forest.apart (T.head hd) (T.head he) hne.symm (T.holds d hd).chain (T.holds e he).chain)

theorem holds_update (h : Holds fsi d cs k w) (hother : ∀ e ∈ dirs, e ≠ d → Holds fsi e (chain e) (es e) w) :
    ∀ e ∈ dirs, Holds fsi e (Function.update chain d cs e) (Function.update es d k e) w := by
  intro e he
  by_cases hed : e = d
  · subst hed
    rwa [Function.update_self, Function.update_self]
  · rw [Function.update_of_ne hed, Function.update_of_ne hed]
    exact hother e he hed

/-- One directory changes, and lists the same clusters. -/
theorem Tree.changed (T : Tree fsi dirs chain es H v) (hd : d ∈ dirs) (h : Holds fsi d cs k w) (hb : Beside fsi (chain d) v w)
    (G : Good fsi H w) (hf : (files k : Multiset Nat) = files (es d)) (hs : (subdirs k : Multiset Nat) = subdirs (es d)) :
    Tree fsi dirs (Function.update chain d cs) (Function.update es d k) H w := by
  refine ⟨holds_update h fun e he hne => T.other hd hb he hne, G, ?_, ?_⟩
  · rw [total_update hd (hf.trans (zero_add _).symm), zero_add]
    exact T.heads
  · rw [total_update hd (hs.trans (zero_add _).symm), zero_add]
    exact T.parents

/-- A new directory is made, and one directory lists it. -/
theorem Tree.mkdir (T : Tree fsi dirs chain es H v) (hd : d ∈ dirs) (h : Holds fsi d cs k w) (hb : Beside fsi (chain d) v w)
    (hc : c ∉ H) {k0 : List DirEntry} (hnew : Holds fsi c [c] k0 w) (hnil : proper k0 = []) (G : Good fsi (insert c H) w)
    (hf : (files k : Multiset Nat) = files (es d)) (hs : (subdirs k : Multiset Nat) = {c} + subdirs (es d)) :
    Tree fsi (insert c dirs) (Function.update (Function.update chain c [c]) d cs) (Function.update (Function.update es c k0) d k)
      (insert c H) w := by
  have hcd : c ∉ dirs := fun hin => hc (T.head hin)
  have hdc : d ≠ c := ne_of_mem_of_not_mem hd hcd
  have hd' : d ∈ insert c dirs := Finset.mem_insert_of_mem hd
  have hk : Function.update es c k0 d = es d := Function.update_of_ne hdc _ _
  refine ⟨holds_update h fun e he hne => ?_, G, ?_, ?_⟩
  · by_cases hec : e = c
    · subst hec
      rwa [Function.update_self, Function.update_self]
    · rw [Function.update_of_ne hec, Function.update_of_ne hec]
      exact T.other hd hb (Finset.mem_of_mem_insert_of_ne he hec) hne
  · rw [total_update hd' (by rw [hk, hf, zero_add]), zero_add, total_insert hcd (files_nil hnil),
      Finset.insert_val_of_notMem hc, Finset.insert_val_of_notMem hcd, T.heads, Multiset.cons_add]
  · rw [total_update hd' (by rw [hk, hs]), total_insert hcd (subdirs_nil hnil), Finset.insert_val_of_notMem hcd, T.parents,
      Multiset.singleton_add, Multiset.cons_swap]

/-- The clusters of what an entry names are not those of another directory. -/
theorem Tree.beside (T : Tree fsi dirs chain es H v) (hd : d ∈ dirs)
    (hc : c = 0 ∧ l = [] ∨ c ∈ H ∧ FatChain fsi (view fsi v.disk).fat c l) (hb : Beside fsi (chain d ++ l) v w) (he : e ∈ dirs) (hne : e ≠ d) (hec : e ≠ c) : Holds fsi e (chain e) (es e) w := by
  have F := T.good.owned.forest
  have h := T.holds e he
  have hdis : (chain d).Disjoint (chain e) := F.apart (T.head hd) (T.head he) hne.symm (T.holds d hd).chain h.chain
  refine h.beside hb (List.disjoint_append_left.mpr ⟨hdis, ?_⟩)
  rcases hc with ⟨-, rfl⟩ | ⟨hc, hl⟩
  · exact List.disjoint_nil_left _
  · exact F.apart hc (T.head he) hec.symm hl h.chain

/-- A file is removed. -/
theorem Tree.unlink (T : Tree fsi dirs chain es H v) (hd : d ∈ dirs) (h : Holds fsi d cs (es1 ++ es2) w) (hes : es d = es1 ++ x :: es2)
    (hdots : x.isDots = false) (hdir : x.isDir = false)
    (hl : x.dentry.firstCluster = 0 ∧ l = [] ∨ FatChain fsi (view fsi v.disk).fat x.dentry.firstCluster l)
    (hb : Beside fsi (chain d ++ l) v w) (G : Good fsi (if x.dentry.firstCluster = 0 then H else H.erase x.dentry.firstCluster) w) :
    Tree fsi dirs (Function.update chain d cs) (Function.update es d (es1 ++ es2))
      (if x.dentry.firstCluster = 0 then H else H.erase x.dentry.firstCluster) w := by
  have hx : x ∈ es d := hes ▸ List.mem_append_cons_self
  have hfiles := total_remove hd hes (files_middle hdots)
  have hsubs := total_remove hd hes (subdirs_middle hdots)
  rw [dirHead, if_neg (Bool.eq_false_iff.mp hdir), zero_add] at hsubs
  refine ⟨holds_update h fun e he hne => ?_, G, ?_, by rw [← hsubs]; exact T.parents⟩
  · rcases hl with hl | hl
    · exact T.beside hd (.inl hl) hb he hne fun heq => (T.holds e he).chain.head_ne_zero (heq.trans hl.1)
    · obtain ⟨hmem, hnot⟩ := T.file hd hx hdots hdir hl.head_ne_zero
      exact T.beside hd (.inr ⟨hmem, hl⟩) hb he hne fun heq => hnot (heq ▸ he)
  · have hheads := T.heads
    rw [hfiles, fileHead] at hheads
    by_cases h0 : x.dentry.firstCluster = 0
    · rw [if_pos (.inr h0), zero_add] at hheads
      rwa [if_pos h0]
    · rw [if_neg (not_or.mpr ⟨Bool.eq_false_iff.mp hdir, h0⟩), Multiset.singleton_add, Multiset.add_cons] at hheads
      rw [if_neg h0, Finset.erase_val, hheads, Multiset.erase_cons_head]

/-- An empty directory is removed. -/
theorem Tree.rmdir (T : Tree fsi dirs chain es H v) (hd : d ∈ dirs) (h : Holds fsi d cs (es1 ++ es2) w) (hes : es d = es1 ++ x :: es2)
    (hdots : x.isDots = false) (hdir : x.isDir = true) (hnil : proper (es x.dentry.firstCluster) = [])
    (hl : FatChain fsi (view fsi v.disk).fat x.dentry.firstCluster l) (hb : Beside fsi (chain d ++ l) v w)
    (G : Good fsi (H.erase x.dentry.firstCluster) w) :
    Tree fsi (dirs.erase x.dentry.firstCluster) (Function.update chain d cs) (Function.update es d (es1 ++ es2))
      (H.erase x.dentry.firstCluster) w := by
  have hx : x ∈ es d := hes ▸ List.mem_append_cons_self
  have hsub := T.sub hd hx hdots hdir
  have hne : x.dentry.firstCluster ≠ d := (T.target hd hx hdots).apart fun _ => List.isEmpty_iff.mpr hnil
  have hgone : Function.update es d (es1 ++ es2) x.dentry.firstCluster = es x.dentry.firstCluster := Function.update_of_ne hne _ _
  have hfiles := total_remove hd hes (files_middle hdots)
  have hsubs := total_remove hd hes (subdirs_middle hdots)
  rw [fileHead, if_pos (.inl hdir), zero_add] at hfiles
  rw [dirHead, if_pos hdir] at hsubs
  refine ⟨holds_update h fun e he hne' => ?_, G, ?_, ?_⟩
  · exact T.beside hd (.inr ⟨T.head hsub, hl⟩) hb (Finset.mem_of_mem_erase he) hne' (Finset.ne_of_mem_erase he)
  · rw [total_erase hsub (by rw [hgone]; exact files_nil hnil), ← hfiles, Finset.erase_val, Finset.erase_val, T.heads,
      Multiset.erase_add_left_pos _ hsub]
  · rw [total_erase hsub (by rw [hgone]; exact subdirs_nil hnil), Finset.erase_val, T.parents, hsubs, Multiset.singleton_add,
      Multiset.cons_swap, Multiset.erase_cons_head]

/-- A volume with an empty root directory is a tree. -/
theorem Tree.fresh (hl : FatChain fsi (view fsi v.disk).fat fsi.rootCluster cs) (hzero : ∀ z ∈ volSlots fsi cs v, z.first = 0)
    (G : Good fsi {fsi.rootCluster} v) : Tree fsi {fsi.rootCluster} (fun _ => cs) (fun _ => []) {fsi.rootCluster} v := by
  have htotal (g : List DirEntry → List Nat) (hg : g [] = []) : total g (fun _ => []) {fsi.rootCluster} = 0 := by
    rw [total, Finset.sum_singleton, hg]
    rfl
  refine ⟨fun d hd => ?_, G, ?_, ?_⟩
  · obtain rfl := Finset.mem_singleton.mp hd
    refine ⟨hl, tidy_zeros hzero, fun k s hs hused => ?_, fun x hx => absurd hx List.not_mem_nil, List.nodup_nil⟩
    exact absurd (hzero s (List.mem_of_getElem? hs)) hused
  · rw [htotal files (files_nil rfl), add_zero]
  · rw [htotal subdirs (subdirs_nil rfl)]
    rfl

end Fat32
