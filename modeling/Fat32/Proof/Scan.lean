import Mathlib
import Fat32.Proof.Slots

/-!
# Reading a directory

What the scanners find is a function of the list of the directory's slots.
`entries` lists the 8.3 entries that `fat32_get_dirent` returns from one call to
the next, each with the state its scan ended in; `fat32_find_dirent` returns the
first of them whose name matches.
-/

namespace Fat32

open Bytes Exec Prog Linked

variable {fsi : Fsi} {cs : List Nat} {s t : VnSt}

/-- The links from `c` lead to the clusters `cs`, and no further. -/
abbrev Path (fsi : Fsi) (fat : Nat → Nat) : Nat → List Nat → Prop :=
  Chain (fatNext fsi fat) fun c => fatNext fsi fat c = none

theorem path_ends (fat : Nat → Nat) :
    Ends (fatNext fsi fat) fun c => fatNext fsi fat c = none := fun _ h => h

theorem FatChain.path (hg : Geometry fsi) {fat : Nat → Nat} {a : Nat} (h : FatChain fsi fat a cs) :
    Path fsi fat a cs :=
  Chain.congr h (fun _ _ => rfl) fun b _ hb => fatEnds hg fat b hb

/-- The vnode of a directory whose links lead to the clusters `cs`. -/
structure IsDir (fsi : Fsi) (cs : List Nat) (s : VnSt) : Prop where
  type : s.fv.type = .vdir
  path : Path fsi (view fsi s.vol.disk).fat s.fv.cluster cs
  cache : CacheOk fsi (view fsi s.vol.disk).fat s.fv.cluster s.fv.clsCache

theorem IsDir.seen (h : IsDir fsi cs s) : Seen fsi s s := ⟨.refl _, .refl _, h.cache, h.cache⟩

theorem IsDir.of_seen (h : IsDir fsi cs s) (hs : Seen fsi s t) : IsDir fsi cs t := by
  refine ⟨hs.type.trans h.type, ?_, hs.right⟩
  rw [hs.cluster, hs.vol.disk]
  exact h.path

/-- The bytes of the blocks asked for as cluster `c`. -/
def clusterBytes (fsi : Fsi) (disk : Nat → UInt8) (c : Nat) : Nat → UInt8 := fun o =>
  disk (512 * clusterToSector fsi c + o)

/-- The slots read from the clusters `cs`. -/
abbrev readSlots (fsi : Fsi) (cs : List Nat) (v : Vol) : List Slot :=
  dirSlots fsi (clusterBytes fsi v.disk) cs

theorem readSlots_same {v v' : Vol} (hs : Same v v') : readSlots fsi cs v' = readSlots fsi cs v := by
  rw [readSlots, hs.disk]

/-- The slots of a volume's directory. -/
abbrev volSlots (fsi : Fsi) (cs : List Nat) (v : Vol) : List Slot :=
  dirSlots fsi (view fsi v.disk).data cs

theorem volSlots_same {v v' : Vol} (hs : Same v v') : volSlots fsi cs v' = volSlots fsi cs v := by
  rw [volSlots, hs.disk]

/-! ## The scan for an entry -/

/-- `scanCluster` on a list of slots. -/
def scanSlots (dn : Nat) : List Slot → Scan → ScanOut
  | [], st => .more st
  | s :: l, st =>
    match scanSlot dn s st with
    | .stop => .stop
    | .skip st => scanSlots dn l st
    | .entry st => .entry s st

/-- What becomes of a scan that ends with the directory. -/
def ScanOut.result : ScanOut → Out Errno (Slot × Scan)
  | .entry s st => .ok (s, st)
  | .stop => .err .enoent
  | .more _ => .err .enoent

theorem scanSlots_append (dn : Nat) (l m : List Slot) (st : Scan) :
    scanSlots dn (l ++ m) st = match scanSlots dn l st with
      | .more st => scanSlots dn m st
      | r => r := by
  induction l generalizing st with
  | nil => rfl
  | cons s l ih =>
    rw [List.cons_append, scanSlots, scanSlots]
    cases scanSlot dn s st with
    | stop => rfl
    | skip st => exact ih st
    | entry st => rfl

theorem scanCluster_slots (hg : Geometry fsi) (dn : Nat) (data : Nat → UInt8) (n : Nat) :
    ∀ (i : Nat) (st : Scan), slotsPer fsi ≤ i + n →
      scanCluster fsi dn data n (32 * i) st = scanSlots dn ((clusterSlots fsi data).drop i) st := by
  induction n with
  | zero =>
    intro i st h
    rw [clusterSlots_drop_all data (by omega)]
    rfl
  | succ n ih =>
    intro i st h
    have hb := bpc_slots hg
    rw [scanCluster]
    by_cases hi : i < slotsPer fsi
    · rw [if_pos (by omega), clusterSlots_drop data hi, scanSlots]
      cases scanSlot dn (slotAt data (32 * i)) st with
      | stop => rfl
      | skip st => exact ih (i + 1) st (by omega)
      | entry st => rfl
    · rw [if_neg (by omega), clusterSlots_drop_all data (by omega)]
      rfl

/-- The buffer of a cluster. -/
theorem readCluster_bytes (hk : Reliable fsi.kernel) (c : Nat) (v : Vol) :
    ∃ v', readCluster fsi c v = (.ok ⟨clusterToSector fsi c, fsi.sectorsPerCluster,
      clusterBytes fsi v.disk c⟩, v') ∧ Same v v' := by
  obtain ⟨v0, e0, s0⟩ := askCluster_ok c v
  obtain ⟨v1, e1, s1⟩ := bread_ok hk (clusterToSector fsi c) fsi.sectorsPerCluster v0
  rw [s0.disk] at e1
  exact ⟨v1, by rw [readCluster, bind_ok e0, e1]; rfl, s0.trans s1⟩

theorem getDirentLoop_slots (hk : Reliable fsi.kernel) (hg : Geometry fsi) (dn : Nat) {a : Nat}
    (n : Nat) : ∀ {q c i : Nat} (st : Scan) {v : Vol}, Path fsi (view fsi v.disk).fat a cs →
      cs[q]? = some c → cs.length ≤ q + n → i ≤ slotsPer fsi →
      (getDirentLoop fsi dn n c (32 * i) st v).1 =
        (scanSlots dn ((readSlots fsi cs v).drop (q * slotsPer fsi + i)) st).result := by
  induction n with
  | zero =>
    intro q c i st v _ hc hlen _
    obtain ⟨hq, -⟩ := List.getElem?_eq_some_iff.mp hc
    omega
  | succ n ih =>
    intro q c i st v hl hc hlen hi
    obtain ⟨v1, e1, s1⟩ := readCluster_bytes hk c v
    have hper := bpc_slots hg
    rw [getDirentLoop, bind_ok e1, scanCluster_slots hg dn _ _ i st (by omega),
      dirSlots_drop_in _ hc hi, scanSlots_append]
    cases scanSlots dn ((clusterSlots fsi (clusterBytes fsi v.disk c)).drop i) st with
    | stop => rfl
    | entry s st => rfl
    | more st =>
      dsimp only
      rcases hl.step hc with ⟨hnone, hlast⟩ | ⟨d, hd, hdi⟩
      · obtain ⟨e, v2, he, -⟩ := nextCluster_none (v := v1) hk hg noAlloc (by rwa [s1.disk])
        rw [bind_ok (attempt_err he), List.drop_of_length_le (by omega)]
        rfl
      · obtain ⟨v2, e2, s2⟩ := nextCluster_link (v := v1) hk hg (by rwa [s1.disk]) {}
        have s12 := s1.trans s2
        rw [bind_ok (attempt_ok e2)]
        have hrec := ih (q := q + 1) (c := d) (i := 0) st (v := v2) (by rwa [s12.disk]) hdi
          (by omega) (Nat.zero_le _)
        rw [Nat.mul_zero, Nat.add_zero, readSlots_same s12, dirSlots_drop] at hrec
        exact hrec

/-- What `fat32_get_dirent` makes of the end of a scan. -/
def direntOut (dir : Nat) (efv : Option Fv) (s : Slot) (st : Scan) : DirentOut where
  offset := u32 (st.offset + dentrySize)
  dirent := {
    ino := packIno dir st.entryStart (u32 (sub32 st.offset st.entryStart / dentrySize + 1))
    off := u32 (st.offset + dentrySize) }
  name := st.name
  entryFv := efv.map (fillEntry dir s st)

/-- What a search for the next entry finds in the slots `l`. -/
def direntScan (dir : Nat) (efv : Option Fv) (dn : Nat) (l : List Slot) (st : Scan) :
    Out Errno DirentOut :=
  match scanSlots dn l st with
  | .entry e st => .ok (direntOut dir efv e st)
  | _ => .err .enoent

/-- `fat32_get_dirent` from slot `i` on. -/
theorem getDirent_slots (hk : Reliable fsi.kernel) (hg : Geometry fsi)
    (hfuel : cs.length ≤ fsi.kernel.fuel) (h : IsDir fsi cs s) {i : Nat}
    (hi : 32 * i < 2 ^ 32) (d : DName) (efv : Option Fv) :
    (getDirent fsi (32 * i) d efv s).1 = direntScan s.fv.cluster efv d.size
      ((readSlots fsi cs s.vol).drop i) { offset := 32 * i, name := d } := by
  obtain ⟨hsplit, hlt⟩ := slot_split hg i
  have hskip : i / slotsPer fsi < 2 ^ 32 :=
    lt_of_le_of_lt (Nat.div_le_self _ _) (by omega)
  have hrun : WP (getDirent fsi (32 * i) d efv) s fun r _ => r = direntScan s.fv.cluster efv d.size
      ((readSlots fsi cs s.vol).drop i) { offset := 32 * i, name := d } := by
    unfold getDirent direntScan
    rw [slot_cluster hg, slot_offset hg]
    refine .get_bind (.ite (fun hne => absurd h.type hne) fun _ => ?_)
    obtain ⟨v, hs, hseek⟩ := vnodeSeekCluster_walk hk hg hskip noAlloc h.cache
    rw [h.path.walk_eq (path_ends _)] at hseek
    rcases hseek with ⟨c, e, hc⟩ | ⟨x, e, hnone⟩
    · have hloop := getDirentLoop_slots hk hg d.size fsi.kernel.fuel
        { offset := 32 * i, name := d } (v := v) (by rw [hs.disk]; exact h.path) hc
        (hfuel.trans (Nat.le_add_left _ _)) (le_of_lt hlt)
      rw [hsplit, readSlots_same hs] at hloop
      refine .ok_bind (attempt_ok e) ?_
      rcases hl : getDirentLoop fsi d.size fsi.kernel.fuel c (32 * (i % slotsPer fsi))
        { offset := 32 * i, name := d } v with ⟨r, v'⟩
      rw [hl] at hloop
      obtain rfl : r = _ := hloop
      revert hl
      cases scanSlots d.size ((readSlots fsi cs s.vol).drop i) { offset := 32 * i, name := d } with
      | stop => exact fun hl => .err_bind (onVol_run hl) rfl
      | entry e st => exact fun hl => .ok_bind (onVol_run hl) (.of_run rfl rfl)
      | more st => exact fun hl => .err_bind (onVol_run hl) rfl
    · have hdrop : (dirSlots fsi _ cs).drop _ = [] := dirSlots_drop_all
        (clusterBytes fsi s.vol.disk) (List.getElem?_eq_none_iff.mp hnone) (i % slotsPer fsi)
      rw [hsplit] at hdrop
      rw [readSlots, hdrop]
      exact .ok_bind (attempt_err e) (.of_run rfl rfl)
  unfold WP at hrun
  exact hrun

/-- The run of a search for the next entry. -/
theorem getDirent_run (hk : Reliable fsi.kernel) (hg : Geometry fsi)
    (hfuel : cs.length ≤ fsi.kernel.fuel) (h : IsDir fsi cs s) {i : Nat}
    (hi : 32 * i < 2 ^ 32) (d : DName) (efv : Option Fv) :
    ∃ t, getDirent fsi (32 * i) d efv s = (direntScan s.fv.cluster efv d.size
        ((readSlots fsi cs s.vol).drop i) { offset := 32 * i, name := d }, t) ∧
      IsDir fsi cs t ∧ Same s.vol t.vol ∧ t.fv.cluster = s.fv.cluster := by
  have hseen := getDirent_sim hk hg hi d efv s s h.seen
  have hsame : Same s.vol (getDirent fsi (32 * i) d efv s).2.vol := (getDirent_quiet _ _ _ s).same
  have hcache : CacheOnly s.fv (getDirent fsi (32 * i) d efv s).2.fv := getDirent_caches _ _ _ s
  refine ⟨_, Prod.ext (getDirent_slots hk hg hfuel h hi d efv) rfl, ?_, hsame, hcache.cluster⟩
  exact h.of_seen ⟨hsame, hcache, h.cache, hseen.2.right⟩

/-! ## All entries -/

/-- The state from which the callers of `fat32_get_dirent` go on. -/
def Scan.restart (st : Scan) : Scan where
  offset := u32 (st.offset + dentrySize)
  name := ⟨Function.update st.name.data 0 0, dNameSize⟩

/-- The 8.3 entries, each with the state its scan ended in. -/
def entries : List Slot → Scan → List (Slot × Scan)
  | [], _ => []
  | s :: l, st =>
    match scanSlot dNameSize s st with
    | .stop => []
    | .skip st => entries l st
    | .entry st => (s, st) :: entries l st.restart

/-- A slot leaves the offset alone. -/
theorem scanSlot_offset {dn : Nat} {s : Slot} {st st' : Scan} :
    (scanSlot dn s st = .skip st' → st'.offset = u32 (st.offset + dentrySize)) ∧
      (scanSlot dn s st = .entry st' → st'.offset = st.offset) := by
  unfold scanSlot
  refine ⟨fun h => ?_, fun h => ?_⟩
  · split at h
    · cases h
    split at h
    · cases h
      rfl
    split at h
    · cases h
      unfold scanLfn Scan.next
      dsimp only
      split <;> rfl
    split at h
    · cases h
      rfl
    · cases h
  · split at h
    · cases h
    split at h
    · cases h
    split at h
    · cases h
    split at h
    · cases h
    · cases h
      rfl

/-- The first entry and the rest. -/
theorem scanSlots_entries {l : List Slot} {st : Scan} {i : Nat} (ho : st.offset = 32 * i)
    (hlt : 32 * (i + l.length) < 2 ^ 32) :
    match scanSlots dNameSize l st with
    | .entry s st' => ∃ j < l.length, l[j]? = some s ∧ st'.offset = 32 * (i + j) ∧
        entries l st = (s, st') :: entries (l.drop (j + 1)) st'.restart
    | _ => entries l st = [] := by
  induction l generalizing st i with
  | nil => rfl
  | cons s l ih =>
    rw [List.length_cons] at hlt
    rw [scanSlots, entries]
    have hoff := @scanSlot_offset dNameSize s st
    cases hs : scanSlot dNameSize s st with
    | stop => rfl
    | entry st' => exact ⟨0, Nat.succ_pos _, rfl, ((@hoff st').2 hs).trans ho, rfl⟩
    | skip st' =>
      have ho' : st'.offset = 32 * (i + 1) := by
        rw [(@hoff st').1 hs, ho, u32, dentrySize]
        exact Nat.mod_eq_of_lt (by omega)
      have hrec := ih ho' (by omega)
      dsimp only
      revert hrec
      cases scanSlots dNameSize l st' with
      | stop => exact id
      | more st => exact id
      | entry e st =>
        rintro ⟨j, hj, hje, hoj, he⟩
        exact ⟨j + 1, by rw [List.length_cons]; omega, hje, by rw [hoj]; omega, he⟩

/-! ## Searching a name -/

/-- The entry with the name, as `fat32_find_dirent` returns it. -/
def lookupEntry (fsi : Fsi) (dir : Nat) (name : List UInt8) (es : List (Slot × Scan)) :
    Out Errno Fv :=
  match es.find? fun e => nameMatch name e.2.name with
  | some (e, st) => .ok (fillEntry dir e st (vnodeNew fsi))
  | none => .err .enoent

theorem lookupEntry_cons (dir : Nat) (name : List UInt8) (e : Slot) (st : Scan)
    (es : List (Slot × Scan)) : lookupEntry fsi dir name ((e, st) :: es) =
      if nameMatch name st.name = true then .ok (fillEntry dir e st (vnodeNew fsi))
      else lookupEntry fsi dir name es := by
  rw [lookupEntry, List.find?_cons]
  cases nameMatch name st.name <;> rfl

theorem findLoop_slots (hk : Reliable fsi.kernel) (hg : Geometry fsi)
    (hfuel : cs.length ≤ fsi.kernel.fuel) (name : List UInt8) (n : Nat) :
    ∀ {i : Nat} (d : Nat → UInt8) {efv : Fv} {s : VnSt}, IsDir fsi cs s →
      vnodeReset fsi efv = vnodeNew fsi → (readSlots fsi cs s.vol).length < i + n →
      i ≤ (readSlots fsi cs s.vol).length → 32 * (readSlots fsi cs s.vol).length < 2 ^ 32 →
      (findLoop fsi name n (32 * i) d efv s).1 = lookupEntry fsi s.fv.cluster name
        (entries ((readSlots fsi cs s.vol).drop i)
          { offset := 32 * i, name := ⟨Function.update d 0 0, dNameSize⟩ }) := by
  induction n with
  | zero => intro i d efv s _ _ hn hi _; omega
  | succ n ih =>
    intro i d efv s h hefv hn hi hlt
    obtain ⟨t, hrun, h', hsame, hcl⟩ := getDirent_run hk hg hfuel h (i := i) (by omega)
      ⟨Function.update d 0 0, dNameSize⟩ (some (vnodeReset fsi efv))
    have hlen : 32 * (i + ((readSlots fsi cs s.vol).drop i).length) < 2 ^ 32 := by
      rw [List.length_drop]
      omega
    have hent := @scanSlots_entries _
      { offset := 32 * i, name := ⟨Function.update d 0 0, dNameSize⟩ } i rfl hlen
    rw [findLoop]
    unfold direntScan at hrun
    revert hrun hent
    dsimp only
    cases scanSlots dNameSize ((readSlots fsi cs s.vol).drop i)
      { offset := 32 * i, name := ⟨Function.update d 0 0, dNameSize⟩ } with
    | stop =>
      intro hrun hent
      rw [bind_err hrun, hent]
      rfl
    | more st =>
      intro hrun hent
      rw [bind_err hrun, hent]
      rfl
    | entry e st =>
      rintro hrun ⟨j, hj, -, ho, hent⟩
      rw [bind_ok hrun, hent, hefv]
      rw [List.length_drop] at hj
      have hnext : u32 (st.offset + dentrySize) = 32 * (i + j + 1) := by
        rw [ho, u32, dentrySize]
        exact Nat.mod_eq_of_lt (by omega)
      have hrestart : st.restart =
          { offset := 32 * (i + j + 1), name := ⟨Function.update st.name.data 0 0, dNameSize⟩ } := by
        rw [Scan.restart, hnext]
      have hoff : (direntOut s.fv.cluster (some (vnodeNew fsi)) e st).offset =
        32 * (i + j + 1) := hnext
      have hname : (direntOut s.fv.cluster (some (vnodeNew fsi)) e st).name = st.name := rfl
      have hfv : (direntOut s.fv.cluster (some (vnodeNew fsi)) e st).entryFv.getD efv =
        fillEntry s.fv.cluster e st (vnodeNew fsi) := rfl
      rw [hname, hfv, hoff]
      by_cases hm : nameMatch name st.name = true
      · rw [if_pos hm, lookupEntry_cons, if_pos hm]
        rfl
      · rw [if_neg hm, lookupEntry_cons, if_neg hm, hrestart]
        have hvol : readSlots fsi cs t.vol = readSlots fsi cs s.vol := readSlots_same hsame
        have hrec := @ih (i + j + 1) st.name.data (fillEntry s.fv.cluster e st (vnodeNew fsi)) t h'
          rfl (by rw [hvol]; omega) (by rw [hvol]; omega) (by rw [hvol]; omega)
        rw [hvol, hcl] at hrec
        rw [List.drop_drop]
        exact hrec

/-- `fat32_find_dirent` is a search in the list of entries. -/
theorem findDirent_slots (hk : Reliable fsi.kernel) (hg : Geometry fsi)
    (hfuel : cs.length ≤ fsi.kernel.fuel) (h : IsDir fsi cs s)
    (hn : (readSlots fsi cs s.vol).length < fsi.kernel.fuel)
    (hlt : 32 * (readSlots fsi cs s.vol).length < 2 ^ 32) (name : List UInt8) :
    (findDirent fsi name (vnodeNew fsi) s).1 = lookupEntry fsi s.fv.cluster (name.take 255)
      (entries (readSlots fsi cs s.vol)
        { offset := 0, name := ⟨Function.update fsi.kernel.stack 0 0, dNameSize⟩ }) := by
  rw [findDirent, get_bind_run, if_neg (by rw [h.type]; exact fun hne => hne rfl)]
  exact findLoop_slots hk hg hfuel (name.take 255) fsi.kernel.fuel (i := 0) fsi.kernel.stack
    h rfl (by omega) (Nat.zero_le _) hlt

end Fat32
