import Mathlib
import Fat32.Lib.Dictionary
import Fat32.Proof.Adding
import Fat32.Proof.Integrity
import Fat32.Proof.Opening

/-!
# A directory is a dictionary

The entries of a tidy directory, under the names in upper case, are a dictionary (`names`). A search reads it
(`Holds.find`), a new entry is an insertion (`Holds.added`), and one that is removed is taken out of it (`names_remove`).
-/

namespace Fat32

open Bytes Exec Prog Linked FirstFit Dictionary

variable {fsi : Fsi} {H : Finset Nat} {cs cs' ext : List Nat} {D : List Slot} {v v' : Vol} {a c d k n : Nat} {name nm : List UInt8}
  {es es1 es2 : List DirEntry} {x : DirEntry} {flags : CreFlags} {fv : Fv}

/-! ## What an entry says -/

/-- What a name is compared as. -/
def fold (name : List UInt8) : List UInt8 := name.map toupper

/-- What an entry says of a file: its name as it was given, whether it is a directory, and the first cluster. -/
structure Item where
  name : List UInt8
  dir : Bool
  cluster : Nat
  deriving DecidableEq, Repr

namespace DirEntry

def key (x : DirEntry) : List UInt8 := fold x.shown

def isDir (x : DirEntry) : Bool := x.dentry.attr &&& attrDirectory ≠ 0

/-- `.` or `..`, as `fat32_dirempty` knows them. -/
def isDots (x : DirEntry) : Bool := x.dentry.first = 46

def item (x : DirEntry) : Item := ⟨x.shown, x.isDir, x.dentry.firstCluster⟩

/-- An entry as the operations make them. -/
structure Sound (x : DirEntry) : Prop where
  named : x.Named
  dots : x.isDots = true ↔ isDot x.shown = true
  unsized : x.dentry.DirUnsized
  placed : x.isDir = true → x.isDots = false → x.dentry.firstCluster ≠ 0

end DirEntry

/-- The entries with a name that was given to them. -/
def proper (es : List DirEntry) : List DirEntry := es.filter fun x => !x.isDots

/-- The first clusters of the files in a directory. -/
def files (es : List DirEntry) : List Nat :=
  (((proper es).filter fun x => !x.isDir).map fun x => x.dentry.firstCluster).filter (· ≠ 0)

/-- Those of the directories. -/
def subdirs (es : List DirEntry) : List Nat := ((proper es).filter DirEntry.isDir).map fun x => x.dentry.firstCluster

/-- The names in a directory. -/
def names (es : List DirEntry) : List UInt8 → Option Item := dict DirEntry.key DirEntry.item (proper es)

/-- The directory at `d` has the clusters `cs` and the entries `es`. -/
structure Holds (fsi : Fsi) (d : Nat) (cs : List Nat) (es : List DirEntry) (v : Vol) : Prop where
  chain : FatChain fsi (view fsi v.disk).fat d cs
  tidy : Tidy 0 (volSlots fsi cs v) es
  closed : Closed (volSlots fsi cs v)
  sound : ∀ x ∈ es, x.Sound
  distinct : Distinct DirEntry.key es

theorem Holds.same (h : Holds fsi d cs es v) (hs : Same v v') : Holds fsi d cs es v' := by
  refine ⟨by rw [hs.disk]; exact h.chain, ?_, ?_, h.sound, h.distinct⟩
  · rw [volSlots_same hs]
    exact h.tidy
  · rw [volSlots_same hs]
    exact h.closed

/-- What is done to another directory does not touch it. -/
theorem Holds.beside (h : Holds fsi d cs es v) (hb : Beside fsi cs' v v') (hd : cs'.Disjoint cs) : Holds fsi d cs es v' := by
  have hslots := hb.slots h.chain hd
  refine ⟨hb.chain h.chain hd, ?_, ?_, h.sound, h.distinct⟩
  · rw [hslots]
    exact h.tidy
  · rw [hslots]
    exact h.closed

theorem proper_append (es1 es2 : List DirEntry) : proper (es1 ++ es2) = proper es1 ++ proper es2 := List.filter_append _ _

theorem proper_cons (hx : x.isDots = false) : proper (x :: es) = x :: proper es :=
  List.filter_cons_of_pos (by rw [hx]; rfl)

/-! ## The dots -/

theorem toupper_dot {c : UInt8} : toupper c = 46 ↔ c = 46 := by
  by_cases h : 97 ≤ c ∧ c ≤ 122
  · have hle : (97 : UInt8).toNat ≤ c.toNat ∧ c.toNat ≤ (122 : UInt8).toNat := h
    have hc : c ≠ 46 := by
      rintro rfl
      exact absurd h.1 (by decide)
    have hsub : (c - 32).toNat = c.toNat - 32 := UInt8.toNat_sub_of_le _ _ (by
      show (32 : UInt8).toNat ≤ c.toNat
      exact le_trans (by decide) hle.1)
    rw [toupper, if_pos h]
    refine iff_of_false (fun h46 => ?_) hc
    rw [h46] at hsub
    simp at hsub hle
    omega
  · rw [toupper, if_neg h]

theorem fold_dot : isDot (fold name) = true ↔ isDot name = true := by
  unfold isDot fold
  rw [decide_eq_true_iff, decide_eq_true_iff]
  rcases name with _ | ⟨a, _ | ⟨b, _ | ⟨c, l⟩⟩⟩ <;> simp [toupper_dot]

theorem DirEntry.Sound.isDots (h : x.Sound) (hkey : x.key = fold nm) (hdot : isDot nm = false) : x.isDots = false := by
  have hshown : ¬ isDot x.shown = true := by
    rw [← fold_dot, show fold x.shown = fold nm from hkey, fold_dot, hdot]
    decide
  exact Bool.eq_false_iff.mpr fun hd => hshown (h.dots.mp hd)

/-! ## Searching -/

/-- The first of two lists that correspond. -/
theorem Forall₂.find {α β : Type} {R S : α → β → Prop} {p : α → Bool} {q : β → Bool} {l : List α} {m : List β}
    (h : List.Forall₂ R l m) : List.Forall₂ S l m → (∀ a b, R a b → S a b → p a = q b) →
      l.find? p = none ∧ m.find? q = none ∨ ∃ a b, l.find? p = some a ∧ m.find? q = some b ∧ R a b ∧ S a b := by
  induction h with
  | nil => exact fun _ _ => .inl ⟨rfl, rfl⟩
  | @cons a b l m hab _ ih =>
    intro hS hpq
    obtain ⟨hSab, hS⟩ := List.forall₂_cons.mp hS
    have heq := hpq a b hab hSab
    by_cases hq : q b = true
    · exact .inr ⟨a, b, List.find?_cons_of_pos (heq.trans hq), List.find?_cons_of_pos hq, hab, hSab⟩
    · rw [List.find?_cons_of_neg hq, List.find?_cons_of_neg (by rwa [heq])]
      exact ih hS hpq

/-- What a search stores of an entry of the directory at `d`. -/
structure FilledFrom (fsi : Fsi) (d : Nat) (x : DirEntry) (fv : Fv) : Prop where
  identity : fv.identity = x.identity d
  cluster : fv.cluster = x.dentry.firstCluster
  type : fv.type = if x.isDir then .vdir else .vreg
  cache : fv.clsCache = emptyCache
  attr : fv.attr = x.dentry.attr

theorem FilledFrom.of_scanned {z : Slot × Scan} (h : Scanned z x) (hstart : x.start + x.set.length = x.slot) (hlt : 32 * x.slot < 2 ^ 32)
    (d : Nat) : FilledFrom fsi d x (fillEntry d z.1 z.2 (vnodeNew fsi)) := by
  refine ⟨h.identity hstart hlt d _, ?_, ?_, rfl, ?_⟩
  · show z.1.firstCluster = _
    rw [h.dentry]
  · show (if (decide (z.1.attr &&& attrDirectory ≠ 0)) = true then Vtype.vdir else .vreg) = _
    rw [h.dentry]
    rfl
  · show z.1.attr = _
    rw [h.dentry]

/-- A search finds the entry with the name, or there is none. -/
theorem Holds.find (hk : Reliable fsi.kernel) (hg : Geometry fsi) {s : VnSt} (h : Holds fsi s.fv.cluster cs es s.vol)
    (hl : Listable fsi cs) (hdir : IsDir fsi cs s) (nm : List UInt8) :
    (∀ x ∈ es, x.key ≠ fold (nm.take 255)) ∧ (findDirent fsi nm (vnodeNew fsi) s).1 = .err .enoent ∨
      ∃ x ∈ es, x.key = fold (nm.take 255) ∧ ∃ fv, (findDirent fsi nm (vnodeNew fsi) s).1 = .ok fv ∧
        FilledFrom fsi s.fv.cluster x fv := by
  have hr := h.chain.inRange
  have hlen : (volSlots fsi cs s.vol).length = cs.length * slotsPer fsi := length_dirSlots _ _
  have hread := readSlots_eq hg hr s.vol
  have hbytes := hl.volSlots_bytes s.vol
  have hfind := findDirent_slots hk hg hl.chain hdir (by rw [hread, hlen]; exact hl.slots) (by rwa [hread]) nm
  rw [hread, lookupEntry, ← listed] at hfind
  have hmatch (z : Slot × Scan) (x : DirEntry) (_ : Scanned z x) (hname : nameBytes z.2.name = x.shown) :
      nameMatch (nm.take 255) z.2.name = decide (x.key = fold (nm.take 255)) := by
    rw [Bool.eq_iff_iff, nameMatch_iff, hname, decide_eq_true_iff]
    exact eq_comm
  rcases Forall₂.find (listed_tidy h.tidy hbytes) (listed_names h.tidy fun x hx => (h.sound x hx).named) hmatch with
    ⟨hz, hx⟩ | ⟨z, x, hz, hx, hscan, -⟩
  · rw [hz] at hfind
    exact .inl ⟨fun x hmem hkey => List.find?_eq_none.mp hx x hmem (decide_eq_true hkey), hfind⟩
  · rw [hz] at hfind
    have hmem := List.mem_of_find?_eq_some hx
    have hslot := h.tidy.slot_lt x hmem
    exact .inr ⟨x, hmem, by simpa using List.find?_some hx, _, hfind, .of_scanned hscan (h.tidy.le x hmem).2 (by omega) _⟩

/-! ## A new entry -/

/-- The entry of a name in slot `k` of the directory at `d`. -/
def newEntry (flags : CreFlags) (fv : Fv) (name : List UInt8) (d k c : Nat) (now : Timespec) : DirEntry :=
  ⟨k + (entrySet name (newDirent flags fv name d k c now)).length, entrySet name (newDirent flags fv name d k c now),
    (newDirent flags fv name d k c now).toSlot⟩

/-- The attributes of a new entry are those of a directory, or of a file. -/
theorem newEntry_isDir (hren : flags.rename = false) (fv : Fv) (name : List UInt8) (d k c : Nat) (now : Timespec) :
    (newEntry flags fv name d k c now).isDir = flags.dir := by
  have hattr : (newDirent flags fv name d k c now).toSlot.attr = (if flags.dir then attrDirectory else 0) |||
      (if fv.mode &&& sIwusr = 0 then attrReadOnly else 0) := by
    show (if flags.rename then _ else _) = _
    rw [hren]
    rfl
  show decide ((newDirent flags fv name d k c now).toSlot.attr &&& attrDirectory ≠ 0) = _
  rw [hattr]
  cases flags.dir <;> by_cases hmode : fv.mode &&& sIwusr = 0 <;> simp only [hmode, if_true, if_false] <;> decide

theorem newEntry_cluster (hc : c < 2 ^ 28) (fv : Fv) (name : List UInt8) (d k : Nat) (now : Timespec) :
    (newEntry flags fv name d k c now).dentry.firstCluster = c := by
  have hlo : (newDirent flags fv name d k c now).firstClusterLo = c % 2 ^ 16 := Nat.and_two_pow_sub_one_eq_mod c 16
  have hhi : (newDirent flags fv name d k c now).firstClusterHi = c / 2 ^ 16 % 2 ^ 16 := by
    show u16 (c >>> 16) = _
    rw [Nat.shiftRight_eq_div_pow]
    rfl
  show (newDirent flags fv name d k c now).toSlot.firstCluster = c
  rw [Dirent83.toSlot_firstCluster, hlo, hhi]
  omega

theorem newEntry_dots (fv : Fv) (name : List UInt8) (d k c : Nat) (now : Timespec) :
    (newEntry flags fv name d k c now).isDots = false := by
  have hfirst : (newDirent flags fv name d k c now).toSlot.first =
      (if nameIsShort name then formatShort name else generateShortName d (32 * k)) 0 :=
    congrFun (toSlot_name (newDirent flags fv name d k c now)) 0
  refine Bool.eq_false_iff.mpr fun h => ?_
  have h46 : (newDirent flags fv name d k c now).toSlot.first = 46 := of_decide_eq_true h
  rw [hfirst] at h46
  by_cases hs : nameIsShort name = true
  · rw [if_pos hs] at h46
    have hbase : formatShort name 0 = (name.takeWhile (· ≠ 46)).getD 0 32 := rfl
    rw [hbase] at h46
    cases hw : name.takeWhile (· ≠ 46) with
    | nil =>
      rw [hw] at h46
      exact absurd h46 (by decide)
    | cons x xs =>
      rw [hw] at h46
      have hmem : x ∈ name.takeWhile (· ≠ 46) := by
        rw [hw]
        exact List.mem_cons_self
      have hx : decide (x ≠ 46) = true := @List.mem_takeWhile_imp _ (fun x => decide (x ≠ 46)) _ _ hmem
      exact of_decide_eq_true hx h46
  · rw [if_neg hs] at h46
    exact (generateShortName_char d (32 * k) 0).2.2.2 h46

/-- What is said of an entry that a name was written to. -/
structure Fresh (name : List UInt8) (dir : Bool) (c : Nat) (x : DirEntry) : Prop where
  entry : x.dentry.IsEntry
  set : x.set = [] ∨ CompleteSet x.set x.dentry
  sound : x.Sound
  dots : x.isDots = false
  item : x.item = ⟨name, dir, c⟩

theorem newEntry_fresh (hname : SevenBit name) (hdot : isDot name = false) (hren : flags.rename = false) (hc : c < 2 ^ 28)
    (hdir : flags.dir = true → c ≠ 0) (fv : Fv) (d k : Nat) (now : Timespec) :
    Fresh name flags.dir c (newEntry flags fv name d k c now) := by
  obtain ⟨d83, hd83⟩ : ∃ d83, newDirent flags fv name d k c now = d83 := ⟨_, rfl⟩
  have hform : d83.name = if nameIsShort name then formatShort name else generateShortName d (32 * k) := by
    rw [← hd83]
    rfl
  obtain ⟨h0, hdel⟩ := hname.first d (32 * k) d83 hform
  have hattr : d83.toSlot.attr &&& attrVolumeId = 0 := by
    rw [← hd83]
    exact createDirent_attr flags hren _ _ _ _
  have hname' := @entrySet_name name hname hdot d83 (k + (entrySet name d83).length) fun hs => by rw [hform, if_pos hs]
  have hdots := @newEntry_dots flags fv name d k c now
  have hcl := @newEntry_cluster c flags hc fv name d k now
  have hisDir := newEntry_isDir hren fv name d k c now
  unfold newEntry at hdots hcl hisDir ⊢
  rw [hd83] at hdots hcl hisDir ⊢
  refine ⟨⟨h0, hdel, hattr⟩, ?_, ⟨hname'.2, ?_, ?_, ?_⟩, hdots, ?_⟩
  · by_cases hs : nameIsShort name = true
    · exact .inl (if_pos hs)
    · have hempty : entrySet name d83 = lfnSet name (checksum d83.name) (numLfn name) := if_neg hs
      dsimp only
      rw [hempty]
      by_cases hz : numLfn name = 0
      · rw [hz]
        exact .inl rfl
      · exact .inr (lfnSet_complete hz hname.numLfn_lt)
  · rw [hdots, hname'.1, hdot]
  · intro _
    show d83.toSlot.fileSize = 0
    rw [Dirent83.toSlot_fileSize, ← hd83]
    rfl
  · intro hd _
    rw [hcl]
    exact hdir (hisDir.symm.trans hd)
  · rw [DirEntry.item, hname'.1, hisDir, hcl]

/-- The clusters of a list of entries do not depend on the order. -/
theorem files_perm {l l' : List DirEntry} (h : l.Perm l') : (files l).Perm (files l') := (((h.filter _).filter _).map _).filter _

theorem subdirs_perm {l l' : List DirEntry} (h : l.Perm l') : (subdirs l).Perm (subdirs l') := ((h.filter _).filter _).map _

theorem files_cons (hx : x.isDots = false) :
    files (x :: es) = if x.isDir = true ∨ x.dentry.firstCluster = 0 then files es else x.dentry.firstCluster :: files es := by
  unfold files
  rw [proper_cons hx]
  by_cases hd : x.isDir = true
  · rw [if_pos (.inl hd), List.filter_cons_of_neg (by simpa using hd)]
  · rw [List.filter_cons_of_pos (by simpa using hd), List.map_cons]
    by_cases h0 : x.dentry.firstCluster = 0
    · rw [if_pos (.inr h0)]
      exact List.filter_cons_of_neg (by simpa using h0)
    · rw [if_neg (not_or.mpr ⟨hd, h0⟩)]
      exact List.filter_cons_of_pos (by simpa using h0)

theorem subdirs_cons (hx : x.isDots = false) :
    subdirs (x :: es) = if x.isDir then x.dentry.firstCluster :: subdirs es else subdirs es := by
  unfold subdirs
  rw [proper_cons hx]
  by_cases hd : x.isDir = true
  · rw [if_pos hd, List.filter_cons_of_pos hd, List.map_cons]
  · rw [if_neg hd, List.filter_cons_of_neg hd]

theorem mem_files (hx : x ∈ es) (hdots : x.isDots = false) (hdir : x.isDir = false) (h0 : x.dentry.firstCluster ≠ 0) :
    x.dentry.firstCluster ∈ files es := by
  refine List.mem_filter.mpr ⟨List.mem_map.mpr ⟨x, List.mem_filter.mpr ⟨List.mem_filter.mpr ⟨hx, ?_⟩, ?_⟩, rfl⟩, decide_eq_true h0⟩
  · rw [hdots]
    rfl
  · rw [hdir]
    rfl

theorem mem_subdirs (hx : x ∈ es) (hdots : x.isDots = false) (hdir : x.isDir = true) : x.dentry.firstCluster ∈ subdirs es := by
  refine List.mem_map.mpr ⟨x, List.mem_filter.mpr ⟨List.mem_filter.mpr ⟨hx, ?_⟩, hdir⟩, rfl⟩
  rw [hdots]
  rfl

theorem names_none (hno : ∀ x ∈ es, x.key ≠ nm) : names es nm = none :=
  dict_eq_none.mpr fun x hx => hno x (List.mem_of_mem_filter hx)

theorem names_some (h : Distinct DirEntry.key es) (hx : x ∈ es) (hdots : x.isDots = false) : names es x.key = some x.item := by
  refine dict_mem (h.sublist (List.filter_sublist.map _)) (List.mem_filter.mpr ⟨hx, ?_⟩)
  rw [hdots]
  rfl

theorem names_empty : names es = (fun _ => none) ↔ proper es = [] := by
  constructor
  · intro h
    refine List.eq_nil_iff_forall_not_mem.mpr fun x hx => ?_
    exact dict_eq_none.mp (congrFun h x.key) x hx rfl
  · intro h
    funext k
    rw [names, h]
    rfl

/-- The entry of a name is in the dictionary. -/
theorem names_insert (hx : x.isDots = false) (hnew : ∀ y ∈ es1 ++ es2, y.key ≠ x.key) :
    names (es1 ++ x :: es2) = Function.update (names (es1 ++ es2)) x.key (some x.item) := by
  unfold names
  rw [proper_append, proper_cons hx, proper_append]
  refine dict_insert fun y hy => hnew y ?_
  rw [← proper_append] at hy
  exact List.mem_of_mem_filter hy

/-- One that is taken out is not. -/
theorem names_remove (hx : x.isDots = false) (h : Distinct DirEntry.key (es1 ++ x :: es2)) :
    names (es1 ++ es2) = Function.update (names (es1 ++ x :: es2)) x.key none := by
  unfold names
  rw [proper_append, proper_append, proper_cons hx]
  refine dict_remove ?_
  rw [← proper_cons hx, ← proper_append]
  exact h.sublist (List.filter_sublist.map _)

theorem Fresh.key {dir : Bool} (F : Fresh name dir c x) : x.key = fold name := congrArg (fun i : Item => fold i.name) F.item

theorem Fresh.isDir {dir : Bool} (F : Fresh name dir c x) : x.isDir = dir := congrArg Item.dir F.item

theorem Fresh.cluster {dir : Bool} (F : Fresh name dir c x) : x.dentry.firstCluster = c := congrArg Item.cluster F.item

/-- The name that was written is in the dictionary. -/
theorem Fresh.names_eq {dir : Bool} (F : Fresh name dir c x) (hnew : ∀ y ∈ es1 ++ es2, y.key ≠ fold name) :
    names (es1 ++ x :: es2) = Function.update (names (es1 ++ es2)) (fold name) (some ⟨name, dir, c⟩) := by
  rw [names_insert F.dots (by rwa [F.key]), F.key, F.item]

/-- An entry that is written with a new name goes into the list. -/
theorem Holds.added {now : Timespec} (h : Holds fsi d cs es v) (hnew : ∀ y ∈ es, y.key ≠ fold name)
    (E : EntryWritten fsi d cs ext name (newDirent flags fv name d k c now) k v v') {dir : Bool}
    (F : Fresh name dir c (newEntry flags fv name d k c now)) :
    ∃ es1 es2, es = es1 ++ es2 ∧ Holds fsi d (cs ++ ext) (es1 ++ newEntry flags fv name d k c now :: es2) v' := by
  obtain ⟨Z, hZ, hin, hslots⟩ := E.slots
  have hset := length_entrySet name (newDirent flags fv name d k c now)
  have hfirst := E.first
  rw [← hset] at hin hfirst
  obtain ⟨es1, es2, rfl, ht⟩ := h.tidy.insert h.closed hfirst hZ hin F.set F.entry
  have hlen : (entrySet name (newDirent flags fv name d k c now) ++ [(newDirent flags fv name d k c now).toSlot]).length =
      (entrySet name (newDirent flags fv name d k c now)).length + 1 := List.length_append
  refine ⟨es1, es2, rfl, E.chain, ?_, ?_, fun x hx => ?_, ?_⟩
  · rw [hslots]
    exact ht
  · rw [hslots]
    exact h.closed.insert (by rwa [hlen]) hZ (by rwa [hlen]) fun w hw => (entry_used F.set F.entry w hw).1
  · rcases List.mem_append.mp hx with hx | hx
    · exact h.sound x (List.mem_append_left _ hx)
    · rcases List.mem_cons.mp hx with rfl | hx
      · exact F.sound
      · exact h.sound x (List.mem_append_right _ hx)
  · refine h.distinct.insert fun y hy => ?_
    rw [F.key]
    exact hnew y hy

/-- A directory that has only grown has the same entries. -/
theorem Holds.grown (h : Holds fsi d cs es v) {Z : List Slot} (hl : FatChain fsi (view fsi v'.disk).fat d (cs ++ ext))
    (hslots : volSlots fsi (cs ++ ext) v' = volSlots fsi cs v ++ Z) (hZ : ∀ z ∈ Z, z.first = 0) : Holds fsi d (cs ++ ext) es v' := by
  refine ⟨hl, ?_, ?_, h.sound, h.distinct⟩
  · rw [hslots]
    exact h.tidy.append_zeros hZ
  · rw [hslots]
    exact h.closed.append hZ

/-! ## A new directory -/

/-- The entries of a new directory. -/
def dotEntries (fsi : Fsi) (t : FatTime) (r parent : Nat) : List DirEntry :=
  [⟨0, [], dotEntry t dotName r⟩, ⟨1, [], dotEntry t dotdotName (if parent = fsi.rootCluster then 0 else parent)⟩]

theorem newDirSlots_eq (hg : Geometry fsi) (t : FatTime) (r parent : Nat) : newDirSlots fsi t r parent =
    dotEntry t dotName r :: dotEntry t dotdotName (if parent = fsi.rootCluster then 0 else parent) ::
      List.replicate (slotsPer fsi - 2) fun _ => 0 := by
  have hper := bpc_slots hg
  have hpos := bpc_pos hg
  obtain ⟨n, hn⟩ : ∃ n, slotsPer fsi = n + 2 := ⟨slotsPer fsi - 2, by omega⟩
  rw [newDirSlots, hn]
  rfl

theorem dotEntry_name (t : FatTime) (nm : Fin 11 → UInt8) (c : Nat) : (dotEntry t nm c).name = nm := toSlot_name _

theorem dotEntry_isEntry (t : FatTime) {nm : Fin 11 → UInt8} (h : nm 0 = 46) (c : Nat) : (dotEntry t nm c).IsEntry := by
  have hfirst : (dotEntry t nm c).first = nm 0 := congrFun (dotEntry_name t nm c) 0
  have hattr : (dotEntry t nm c).attr = attrDirectory := rfl
  refine ⟨?_, ?_, ?_⟩
  · rw [hfirst, h]
    decide
  · rw [hfirst, h]
    decide
  · rw [hattr]
    decide

theorem dotEntry_sound (t : FatTime) {nm : Fin 11 → UInt8} {k : Nat} {c : Nat} (h : nm 0 = 46)
    (hdot : isDot (dotEntry t nm c).decodeName = true) : (DirEntry.mk k [] (dotEntry t nm c)).Sound ∧
      (DirEntry.mk k [] (dotEntry t nm c)).isDots = true := by
  have hfirst : (dotEntry t nm c).first = 46 := (congrFun (dotEntry_name t nm c) 0).trans h
  have hdots : (DirEntry.mk k [] (dotEntry t nm c)).isDots = true := decide_eq_true hfirst
  refine ⟨⟨fun hne => absurd rfl hne, iff_of_true hdots hdot, fun _ => ?_, fun _ hno => ?_⟩, hdots⟩
  · show (dotEntry t nm c).fileSize = 0
    rw [dotEntry, Dirent83.toSlot_fileSize]
    exact Nat.zero_mod _
  · rw [hdots] at hno
    cases hno

theorem decodeName_dot (t : FatTime) (c : Nat) : (dotEntry t dotName c).decodeName = [46] := by
  rw [Slot.decodeName, dotEntry_name]
  decide

theorem decodeName_dotdot (t : FatTime) (c : Nat) : (dotEntry t dotdotName c).decodeName = [46, 46] := by
  rw [Slot.decodeName, dotEntry_name]
  decide

/-- A new directory has no names in it. -/
theorem holds_new (hg : Geometry fsi) {t : FatTime} {parent : Nat} (hl : FatChain fsi (view fsi v.disk).fat c [c])
    (hslots : volSlots fsi [c] v = newDirSlots fsi t c parent) : Holds fsi c [c] (dotEntries fsi t c parent) v := by
  rw [newDirSlots_eq hg] at hslots
  refine ⟨hl, ?_, ?_, fun x hx => ?_, ?_⟩
  · rw [hslots]
    exact .entry (S := []) (.inl rfl) (dotEntry_isEntry t rfl c) (.entry (S := []) (.inl rfl) (dotEntry_isEntry t rfl _)
      (tidy_zeros fun z hz => by rw [List.eq_of_mem_replicate hz]; rfl))
  · rw [hslots]
    refine fun k s hs hused j hj y hy => ?_
    rcases k with _ | _ | k
    · exact absurd hj (Nat.not_lt_zero j)
    · obtain rfl := Nat.lt_one_iff.mp hj
      obtain rfl := Option.some.inj hy
      exact (dotEntry_isEntry t rfl c).1
    · have hmem : s ∈ List.replicate (slotsPer fsi - 2) fun _ => 0 := List.mem_of_getElem? hs
      rw [List.eq_of_mem_replicate hmem] at hused
      exact absurd rfl hused
  · rcases List.mem_cons.mp hx with rfl | hx
    · exact (dotEntry_sound t rfl (by rw [decodeName_dot]; decide)).1
    · rw [List.mem_singleton.mp hx]
      exact (dotEntry_sound t rfl (by rw [decodeName_dotdot]; decide)).1
  · show ([fold (dotEntry t dotName c).decodeName, fold (dotEntry t dotdotName _).decodeName] : List _).Nodup
    rw [decodeName_dot, decodeName_dotdot]
    decide

theorem proper_dots (fsi : Fsi) (t : FatTime) (c parent : Nat) : proper (dotEntries fsi t c parent) = [] :=
  List.filter_eq_nil_iff.mpr fun x hx => by
    rcases List.mem_cons.mp hx with rfl | hx
    · rw [(dotEntry_sound t rfl (by rw [decodeName_dot]; decide)).2]
      decide
    · rw [List.mem_singleton.mp hx, (dotEntry_sound t rfl (by rw [decodeName_dotdot]; decide)).2]
      decide

end Fat32
