import Mathlib
import Fat32.Proof.Removal

/-!
# Listing a directory in pieces

`fat32_readdir` lists as many entries as the buffer of the caller holds, and the next call goes on where
it stopped. A place in the listing is an offset: that of the slot behind an entry on the disk, and 0, 1 and 2
around the two entries that the root directory is given. Calls that each go on from the place of the one before
list a tidy directory once, in the order of its slots, as long as no read of the FAT fails: such a failure is
taken for the end of the directory.
-/

namespace Fat32

open Bytes Exec Prog Linked

variable {D L P S : List Slot} {e s : Slot} {es : List DirEntry} {x : DirEntry} {d i k m : Nat} {f : Nat → UInt8}

/-! ## The listing -/

/-- The name that an entry is listed with: that of its set, as far as the buffer goes, or its short name. -/
def DirEntry.name (x : DirEntry) : List UInt8 :=
  if spelled x.set = [] then x.dentry.decodeName else (spelled x.set).take dNameSize

/-- The record of an entry of the directory at `d`. -/
def DirEntry.record (d : Nat) (x : DirEntry) : Emitted where
  ino := packIno d (32 * x.start) (x.set.length + 1)
  off := 32 * (x.slot + 1)
  name := x.name

/-- The records of the directory at `d`, those that only the root has first. -/
def listing (root : Bool) (d : Nat) (es : List DirEntry) : List Emitted :=
  (if root then [⟨0, 1, [46]⟩, ⟨0, 2, [46, 46]⟩] else []) ++ es.map (DirEntry.record d)

/-- The sets hold no filler in front of the end of a name. -/
def Unfilled (es : List DirEntry) : Prop := ∀ x ∈ es, ∀ u ∈ (setUnits x.set).takeWhile (· ≠ 0), u ≠ lfnFill

/-! ## The next entry -/

theorem CompleteSet.skipped (h : CompleteSet S e) : ∀ s ∈ S, s.Skipped := fun s hs =>
  ⟨Slot.first_ne_zero (h.numbered.seqNum_pos s hs), .inr (.inl (h.numbered.isLfn s hs).2)⟩

/-- The slots up to the first entry. -/
theorem Tidy.first (h : Tidy k L (x :: es)) : ∃ P l, L = P ++ (x.set ++ x.dentry :: l) ∧
    (∀ s ∈ P, s.Skipped ∧ ¬ s.IsLfn) ∧ x.slot = k + P.length + x.set.length ∧
    (x.set = [] ∨ CompleteSet x.set x.dentry) ∧ x.dentry.IsEntry ∧ Tidy (x.slot + 1) l es := by
  generalize hxs : x :: es = xs at h
  induction h with
  | nil => cases hxs
  | stop => cases hxs
  | @pass i s l _ hs hl _ ih =>
    obtain ⟨P, l', hL, hP, hslot, hset, he, h⟩ := ih hxs
    refine ⟨s :: P, l', by rw [hL]; rfl, fun y hy => ?_, ?_, hset, he, h⟩
    · rcases List.mem_cons.mp hy with rfl | hy
      · exact ⟨hs, hl⟩
      · exact hP y hy
    · rw [hslot, List.length_cons]
      omega
  | entry hS he h =>
    cases hxs
    exact ⟨[], _, rfl, fun _ hy => absurd hy List.not_mem_nil, rfl, hS, he, h⟩

/-- What is left in the buffer in front of the slots of an entry. -/
theorem nameAfter_plain (hf : f 0 = 0) (hP : ∀ s ∈ P, s.Skipped ∧ ¬ s.IsLfn) :
    (nameAfter ⟨f, dNameSize⟩ P).size = dNameSize ∧ (nameAfter ⟨f, dNameSize⟩ P).data 0 = 0 := by
  have hno : ∀ s ∈ afterLabel P, ¬ s.IsLfn := fun s hs => (hP s ((List.rtakeWhile_suffix _ P).subset hs)).2
  obtain ⟨h1, h2⟩ := @nameAfter_open P ⟨f, dNameSize⟩ rfl hf fun s hs => (hP s hs).1
  have hsize := h1.mpr fun s hs hlfn => absurd hlfn (hno s hs)
  refine ⟨hsize, by_contra fun h0 => ?_⟩
  obtain ⟨s, hs, hlfn, -⟩ := (h2 hsize).mp h0
  exact hno s hs hlfn

/-- The name that the search returns. -/
theorem nameBytes_entry (hf : f 0 = 0) (hP : ∀ s ∈ P, s.Skipped ∧ ¬ s.IsLfn)
    (hS : x.set = [] ∨ CompleteSet x.set x.dentry) (hfill : ∀ u ∈ (setUnits x.set).takeWhile (· ≠ 0), u ≠ lfnFill) :
    nameBytes (if (nameAfter ⟨f, dNameSize⟩ (P ++ x.set)).data 0 = 0 then
        (nameAfter ⟨f, dNameSize⟩ (P ++ x.set)).store (x.dentry.decodeName.take (sub32 dNameSize 1))
      else nameAfter ⟨f, dNameSize⟩ (P ++ x.set)) = x.name := by
  have happ : nameAfter ⟨f, dNameSize⟩ (P ++ x.set) = nameAfter (nameAfter ⟨f, dNameSize⟩ P) x.set := List.foldl_append
  obtain ⟨hsize, h0⟩ := nameAfter_plain hf hP
  have hshort : x.dentry.decodeName.take (sub32 dNameSize 1) = x.dentry.decodeName :=
    List.take_of_length_le ((length_decodeName _).trans (by decide))
  rw [happ, hshort, DirEntry.name]
  rcases hS with hS | hS
  · have hspell : spelled x.set = [] := by
      rw [hS]
      rfl
    have hdata : (nameAfter (nameAfter ⟨f, dNameSize⟩ P) x.set).data 0 = 0 := by
      rw [hS]
      exact h0
    rw [if_pos hspell, if_pos hdata, nameBytes_store]
  · obtain ⟨hname, hne⟩ := nameAfter_cut hS (.inr hsize) hfill
    by_cases hspell : spelled x.set = []
    · -- an empty name leaves the buffer empty
      have hheld : Held (nameAfter (nameAfter ⟨f, dNameSize⟩ P) x.set) :=
        nameAfter_held ⟨hsize.le, fun hlt => absurd hsize hlt.ne⟩ _
      rw [hspell, List.take_nil] at hname
      have hlen : (nameAfter (nameAfter ⟨f, dNameSize⟩ P) x.set).size = 0 := by
        have hlen := congrArg List.length hname
        rwa [nameBytes, List.length_map, List.length_range] at hlen
      have hdata := hheld.2 (by rw [hlen]; decide)
      rw [hlen] at hdata
      rw [if_pos hspell, if_pos hdata, nameBytes_store]
    · rw [if_neg hspell, if_neg (hne hspell), hname]

/-- The search from a slot on finds the first of the entries behind it. -/
theorem scanSlots_tidy (h : Tidy k L (x :: es)) (hlt : 32 * (k + L.length) < 2 ^ 32) (hf : f 0 = 0)
    (hfill : ∀ u ∈ (setUnits x.set).takeWhile (· ≠ 0), u ≠ lfnFill) :
    ∃ st, scanSlots dNameSize L { offset := 32 * k, name := ⟨f, dNameSize⟩ } = .entry x.dentry st ∧
      st.offset = 32 * x.slot ∧ st.entryStart = 32 * x.start ∧ nameBytes st.name = x.name := by
  obtain ⟨P, l, hL, hP, -, hS, he, -⟩ := h.first
  have hskip : ∀ s ∈ P ++ x.set, s.Skipped := fun s hs => by
    rcases List.mem_append.mp hs with hs | hs
    · exact (hP s hs).1
    · rcases hS with hS | hS
      · rw [hS] at hs
        exact absurd hs List.not_mem_nil
      · exact hS.skipped s hs
  obtain ⟨st, hst, hname⟩ := (@scanSlots_entry_iff x.dentry L { offset := 32 * k, name := ⟨f, dNameSize⟩ } _).mpr
    ⟨P ++ x.set, l, by rw [hL, List.append_assoc], hskip, he, rfl⟩
  have hent := @scanSlots_entries L { offset := 32 * k, name := ⟨f, dNameSize⟩ } k rfl hlt
  have hall : List.Forall₂ Scanned (entries L { offset := 32 * k, name := ⟨f, dNameSize⟩ }) (x :: es) :=
    entries_tidy h rfl rfl hlt
  rw [hst] at hent
  obtain ⟨j, hj, hje, hoj, hent⟩ := hent
  rw [hent] at hall
  cases hall with
  | cons hx _ => exact ⟨st, hst, hx.offset, hx.start, by rw [hname]; exact nameBytes_entry hf hP hS hfill⟩

/-- Behind the last entry it finds none. -/
theorem scanSlots_none (h : Tidy k L []) (hlt : 32 * (k + L.length) < 2 ^ 32) :
    (scanSlots dNameSize L { offset := 32 * k, name := ⟨f, dNameSize⟩ }).result = .err .enoent := by
  have hent := @scanSlots_entries L { offset := 32 * k, name := ⟨f, dNameSize⟩ } k rfl hlt
  have hall : List.Forall₂ Scanned (entries L { offset := 32 * k, name := ⟨f, dNameSize⟩ }) [] := entries_tidy h rfl rfl hlt
  rcases hst : scanSlots dNameSize L { offset := 32 * k, name := ⟨f, dNameSize⟩ } with _ | ⟨e, st⟩ | st
  · rfl
  · rw [hst] at hent
    obtain ⟨j, hj, hje, hoj, hent⟩ := hent
    rw [hent] at hall
    cases hall
  · rfl

/-! ## The search, whatever the device answers -/

variable {fsi : Fsi} {cs : List Nat} {a c n q r : Nat} {t u : VnSt} {v : Vol} {st : Scan} {efv : Option Fv}

/-- The search from slot `i` of the slots `D` passes over what is in front of the `x`-th cluster behind it. -/
structure Comes (fsi : Fsi) (D : List Slot) (i x : Nat) : Prop where
  inside : (i / slotsPer fsi + x) * slotsPer fsi < D.length
  skipped : ∀ s ∈ (D.drop i).take ((i / slotsPer fsi + x) * slotsPer fsi - i), s.Skipped

/-- The number of the first read of a search in the cluster of slot `i`: the links from the best entry of the
cache on are read before. -/
def firstRead (fsi : Fsi) (t : VnSt) (i : Nat) : Nat :=
  t.vol.reads + (i / slotsPer fsi - (seekFrom t.fv (i / slotsPer fsi)).index)

/-- The reads of links that a search from slot `i` makes do not fail, and no error of a read of the directory
says that there is no entry. -/
structure SearchReads (fsi : Fsi) (D : List Slot) (t : VnSt) (i : Nat) : Prop where
  seek : i < D.length → Answers fsi t.vol.reads (i / slotsPer fsi - (seekFrom t.fv (i / slotsPer fsi)).index)
  link : ∀ x, Comes fsi D i (x + 1) → Answers fsi (firstRead fsi t i) (2 * x + 1) →
    Answers fsi (firstRead fsi t i + (2 * x + 1)) 1
  data : ∀ x, Comes fsi D i x → Answers fsi (firstRead fsi t i) (2 * x) →
    fsi.kernel.readErr (firstRead fsi t i + 2 * x) ≠ some .enoent

/-- Nor do the reads of the directory fail. -/
def DataAnswers (fsi : Fsi) (D : List Slot) (t : VnSt) (i : Nat) : Prop :=
  ∀ x, Comes fsi D i x → Answers fsi (firstRead fsi t i) (2 * x) → Answers fsi (firstRead fsi t i + 2 * x) 1

theorem scanSlots_skips : ∀ {L : List Slot} {st st' : Scan}, scanSlots dNameSize L st = .more st' →
    ∀ s ∈ L, s.Skipped
  | [], _, _, _ => fun _ h => absurd h List.not_mem_nil
  | s :: L, st, st', h => by
    rw [scanSlots] at h
    rcases slot_kinds s with h0 | hs | hs
    · have hstop : scanSlot dNameSize s st = .stop := by rw [scanSlot, if_pos h0]
      rw [hstop] at h
      cases h
    · obtain ⟨st1, hst, -⟩ := scanSlot_skipped hs st
      rw [hst] at h
      intro x hx
      rcases List.mem_cons.mp hx with rfl | hx
      · exact hs
      · exact scanSlots_skips h x hx
    · obtain ⟨st1, hst, -⟩ := scanSlot_entry hs st
      rw [hst] at h
      cases h

/-- The loop over the clusters finds what the slots say, or a read of the directory fails. -/
theorem getDirentLoop_any (hg : Geometry fsi) (hD : readSlots fsi cs v = D)
    (hlink : ∀ x, Comes fsi D i (x + 1) → Answers fsi m (2 * x + 1) → Answers fsi (m + (2 * x + 1)) 1)
    (hdata : ∀ x, Comes fsi D i x → Answers fsi m (2 * x) → fsi.kernel.readErr (m + 2 * x) ≠ some .enoent) (n : Nat) :
    ∀ {x c r : Nat} {A : List Slot} (st : Scan) {w : Vol}, Same v w → Path fsi (view fsi v.disk).fat a cs →
      cs[i / slotsPer fsi + x]? = some c → cs.length ≤ i / slotsPer fsi + x + n → r ≤ slotsPer fsi →
      D.drop i = A ++ D.drop ((i / slotsPer fsi + x) * slotsPer fsi + r) →
      (i / slotsPer fsi + x) * slotsPer fsi + r = i + A.length → (∀ s ∈ A, s.Skipped) → Comes fsi D i x →
      w.reads = m + 2 * x → Answers fsi m (2 * x) →
      WP (getDirentLoop fsi dNameSize n c (32 * r) st) w fun res u => Same v u ∧
        (res = (scanSlots dNameSize (D.drop ((i / slotsPer fsi + x) * slotsPer fsi + r)) st).result ∨
          ∃ e, e ≠ .enoent ∧ res = .err e ∧ ∃ x, Comes fsi D i x ∧ Answers fsi m (2 * x) ∧
            ¬ Answers fsi (m + 2 * x) 1) := by
  induction n with
  | zero =>
    intro x c r A st w _ _ hc hlen
    obtain ⟨hq, -⟩ := List.getElem?_eq_some_iff.mp hc
    omega
  | succ n ih =>
    intro x c r A st w hs hl hc hlen hr hA hpos hskip hcomes hreads hans
    rw [getDirentLoop]
    obtain ⟨v1, s1, hn1, ⟨e, he, e1⟩ | ⟨he, e1⟩⟩ := readCluster_answer fsi c w
    · -- a read of the directory fails
      rw [hreads] at he
      refine .err_bind e1 ⟨hs.trans s1, .inr ⟨e, fun hno => hdata x hcomes hans (by rw [he, hno]), rfl, x, hcomes, hans, fun h => ?_⟩⟩
      rw [answers_one.mp h] at he
      cases he
    · have hper := bpc_slots hg
      have hpos' := slotsPer_pos hg
      have hlenD : D.length = cs.length * slotsPer fsi := by rw [← hD, length_dirSlots]
      have hrest : D.drop ((i / slotsPer fsi + (x + 1)) * slotsPer fsi) =
          dirSlots fsi (clusterBytes fsi v.disk) (cs.drop (i / slotsPer fsi + x + 1)) := by
        rw [← hD, ← Nat.add_assoc, dirSlots_drop]
      have hcl : D.drop ((i / slotsPer fsi + x) * slotsPer fsi + r) =
          (clusterSlots fsi (clusterBytes fsi v.disk c)).drop r ++
            D.drop ((i / slotsPer fsi + (x + 1)) * slotsPer fsi) := by
        rw [hrest, ← hD]
        exact dirSlots_drop_in _ hc hr
      refine .ok_bind e1 ?_
      rw [hs.disk, scanCluster_slots hg _ _ _ r st (by omega), hcl, scanSlots_append]
      have hs1 := hs.trans s1
      rcases hscan : scanSlots dNameSize ((clusterSlots fsi (clusterBytes fsi v.disk c)).drop r) st with _ | ⟨e, st'⟩ | st'
      · exact .of_run rfl ⟨hs1, .inl rfl⟩
      · exact .of_run rfl ⟨hs1, .inl rfl⟩
      · dsimp only
        rcases hl.step hc with ⟨hnone, hlast⟩ | ⟨d, hd, hdi⟩
        · -- the last cluster
          have hnil : D.drop ((i / slotsPer fsi + (x + 1)) * slotsPer fsi) = [] := by
            rw [hrest, List.drop_of_length_le (by omega)]
            rfl
          rw [hnil]
          rcases nextCluster_plain hg (show ({} : NcFlags).alloc = false from rfl) c v1 with
            ⟨e, v2, h, s2⟩ | ⟨d, v2, h, -, -, hd, -⟩
          · exact .ok_bind (attempt_err h) (.of_run rfl ⟨hs1.trans s2, .inl rfl⟩)
          · rw [hs1.disk, hnone] at hd
            cases hd
        · have hcomes' : Comes fsi D i (x + 1) := by
            obtain ⟨hin, -⟩ := List.getElem?_eq_some_iff.mp hdi
            refine ⟨?_, ?_⟩
            · rw [hlenD, ← Nat.add_assoc]
              exact Nat.mul_lt_mul_of_pos_right hin hpos'
            · have hlen : (i / slotsPer fsi + (x + 1)) * slotsPer fsi - i =
                  (A ++ (clusterSlots fsi (clusterBytes fsi v.disk c)).drop r).length := by
                rw [List.length_append, List.length_drop, length_clusterSlots, ← Nat.add_assoc, Nat.succ_mul]
                omega
              rw [hA, hcl, ← List.append_assoc, hlen, List.take_left]
              intro s hs
              exact (List.mem_append.mp hs).elim (hskip s) (scanSlots_skips hscan s)
          have hans' : Answers fsi m (2 * x + 1) := answers_add.mpr ⟨hans, answers_one.mpr (by rwa [← hreads])⟩
          have hlink' := hlink x hcomes' hans'
          obtain ⟨v2, s2, hn2, ⟨hno, e, e2⟩ | ⟨-, e2⟩⟩ := nextCluster_once (v := v1) hg (by rwa [hs1.disk])
          · rw [hn1, hreads, Nat.add_assoc] at hno
            exact absurd hlink' hno
          · refine .ok_bind (attempt_ok e2) ?_
            have hrec := ih (x := x + 1) (c := d) (r := 0) (A := A ++ (clusterSlots fsi (clusterBytes fsi v.disk c)).drop r)
              st' (w := v2) (hs1.trans s2) hl hdi (by omega) (Nat.zero_le _) ?_ ?_ ?_ hcomes' (by omega) ?_
            · exact hrec
            · rw [hA, hcl, List.append_assoc]
              rfl
            · rw [List.length_append, List.length_drop, length_clusterSlots, ← Nat.add_assoc, Nat.succ_mul]
              omega
            · exact fun s hs => (List.mem_append.mp hs).elim (hskip s) (scanSlots_skips hscan s)
            · rw [show 2 * (x + 1) = 2 * x + 1 + 1 by omega]
              exact answers_add.mpr ⟨hans', hlink'⟩

/-- The search from slot `i` finds what the slots say, or a read of the directory fails. -/
theorem getDirent_any (hg : Geometry fsi) (hfuel : cs.length ≤ fsi.kernel.fuel) (h : IsDir fsi cs t)
    (hD : readSlots fsi cs t.vol = D) (hi : i ≤ D.length) (hlt : 32 * D.length < 2 ^ 32) (hr : SearchReads fsi D t i) :
    WP (getDirent fsi (32 * i) ⟨f, dNameSize⟩ efv) t fun res u => IsDir fsi cs u ∧ Same t.vol u.vol ∧ CacheOnly t.fv u.fv ∧
      (res = direntScan t.fv.cluster efv dNameSize (D.drop i) { offset := 32 * i, name := ⟨f, dNameSize⟩ } ∨
        ∃ e, e ≠ .enoent ∧ res = .err e ∧ ¬ DataAnswers fsi D t i) := by
  have hsame : Same t.vol (getDirent fsi (32 * i) ⟨f, dNameSize⟩ efv t).2.vol := (getDirent_quiet _ _ _ t).same
  have hcaches : CacheOnly t.fv (getDirent fsi (32 * i) ⟨f, dNameSize⟩ efv t).2.fv := getDirent_caches _ _ _ t
  have hlenD : D.length = cs.length * slotsPer fsi := by rw [← hD, length_dirSlots]
  have hper := slotsPer_pos hg
  obtain ⟨hsplit, hmod⟩ := slot_split hg i
  have hskip : i / slotsPer fsi < 2 ^ 32 := lt_of_le_of_lt (Nat.div_le_self _ _) (by omega)
  obtain ⟨hw, hle⟩ := bestEntry_onWay h.cache (i / slotsPer fsi)
  have hseek := @vnodeSeekCluster_best _ _ _ hskip ({} : NcFlags) t h.cache
  have hwalk : walk (fatNext fsi (view fsi t.vol.disk).fat) (i / slotsPer fsi - (seekFrom t.fv (i / slotsPer fsi)).index)
      (seekFrom t.fv (i / slotsPer fsi)).cluster = cs[i / slotsPer fsi]? := by
    rw [← h.path.walk_eq (path_ends _), ← Nat.add_sub_cancel' hle, walk_add, hw, Nat.add_sub_cancel' hle]
    rfl
  have hcore : WP (getDirent fsi (32 * i) ⟨f, dNameSize⟩ efv) t fun res u =>
      CacheOk fsi (view fsi t.vol.disk).fat t.fv.cluster u.fv.clsCache ∧
      (res = direntScan t.fv.cluster efv dNameSize (D.drop i) { offset := 32 * i, name := ⟨f, dNameSize⟩ } ∨
        ∃ e, e ≠ .enoent ∧ res = .err e ∧ ¬ DataAnswers fsi D t i) := by
    unfold getDirent direntScan
    rw [slot_cluster hg, slot_offset hg]
    refine .get_bind (.ite (fun hne => absurd h.type hne) fun _ => ?_)
    rcases Nat.lt_or_ge i D.length with hin | hend
    · have hq : i / slotsPer fsi < cs.length := by
        rw [Nat.div_lt_iff_lt_mul hper, ← hlenD]
        exact hin
      obtain ⟨c, hc⟩ : ∃ c, cs[i / slotsPer fsi]? = some c := ⟨_, List.getElem?_eq_getElem hq⟩
      obtain ⟨v, e1, s1, hn1⟩ := seekLoop_answers hg {} _ (hwalk.trans hc) (hr.seek hin)
      unfold seekFrom at e1
      rw [e1] at hseek
      have hcache : CacheOk fsi (view fsi t.vol.disk).fat t.fv.cluster (updateCache t.fv.clsCache (i / slotsPer fsi) c) :=
        h.cache.update fun _ => by rw [h.path.walk_eq (path_ends _), hc]
      have hcomes : Comes fsi D i 0 := by
        refine ⟨lt_of_le_of_lt (Nat.div_mul_le_self i _) hin, ?_⟩
        rw [Nat.add_zero, Nat.sub_eq_zero_of_le (Nat.div_mul_le_self i _), List.take_zero]
        exact fun s hs => absurd hs List.not_mem_nil
      have hloop := getDirentLoop_any hg hD hr.link hr.data fsi.kernel.fuel (x := 0) (c := c) (r := i % slotsPer fsi) (A := [])
        { offset := 32 * i, name := ⟨f, dNameSize⟩ } (w := v) s1 h.path hc (by omega) hmod.le
        (by rw [Nat.add_zero, hsplit]; rfl) (by rw [Nat.add_zero, hsplit]; rfl) (fun s hs => absurd hs List.not_mem_nil) hcomes
        hn1 .zero
      rw [Nat.add_zero, hsplit] at hloop
      refine .ok_bind (attempt_ok hseek) (.on_bind hloop (fun y v2 h2 => ?_) (fun e v2 h2 => ⟨hcache, ?_⟩) fun v2 h2 => ?_)
      · obtain ⟨-, h2 | ⟨e, -, h2, -⟩⟩ := h2
        · obtain ⟨e, st⟩ := y
          rcases hscan : scanSlots dNameSize (D.drop i) { offset := 32 * i, name := ⟨f, dNameSize⟩ } with _ | ⟨e', st'⟩ | st' <;>
            rw [hscan] at h2 <;> cases h2
          exact .of_run rfl ⟨hcache, .inl rfl⟩
        · cases h2
      · obtain ⟨-, h2 | ⟨e', hne, h2, x, hx, hans, hno⟩⟩ := h2
        · rcases hscan : scanSlots dNameSize (D.drop i) { offset := 32 * i, name := ⟨f, dNameSize⟩ } with _ | ⟨e', st'⟩ | st' <;>
            rw [hscan] at h2 <;> cases h2 <;> exact .inl rfl
        · exact .inr ⟨e', hne, by rw [Out.err.inj h2], fun hall => hno (hall x hx hans)⟩
      · obtain ⟨-, h2 | ⟨e', -, h2, -⟩⟩ := h2
        · rcases hscan : scanSlots dNameSize (D.drop i) { offset := 32 * i, name := ⟨f, dNameSize⟩ } with _ | ⟨e', st'⟩ | st' <;>
            rw [hscan] at h2 <;> cases h2
        · cases h2
    · have hnone : cs[i / slotsPer fsi]? = none := by
        rw [List.getElem?_eq_none_iff, Nat.le_div_iff_mul_le hper, ← hlenD]
        exact hend
      rcases seekLoop_plain hg (show ({} : NcFlags).alloc = false from rfl)
          (i / slotsPer fsi - (seekFrom t.fv (i / slotsPer fsi)).index) (seekFrom t.fv (i / slotsPer fsi)).cluster t.vol with
        ⟨e, v, e1⟩ | ⟨d, v, -, hd, -⟩
      · unfold seekFrom at e1
        rw [e1] at hseek
        rw [List.drop_of_length_le hend]
        exact .ok_bind (attempt_err hseek) (.of_run rfl ⟨h.cache, .inl rfl⟩)
      · rw [hwalk, hnone] at hd
        cases hd
  unfold WP at hcore ⊢
  obtain ⟨hcache, hres⟩ := hcore
  obtain ⟨cache, hfv⟩ := id hcaches
  refine ⟨⟨?_, ?_, ?_⟩, hsame, hcaches, hres⟩
  · rw [hfv]
    exact h.type
  · rw [hsame.disk, hfv]
    exact h.path
  · rw [hsame.disk, hcaches.cluster]
    exact hcache

/-! ## One record -/

/-- One round of the loop of `fat32_readdir`, which tells whether it listed an entry. -/
def readdirRound (fsi : Fsi) (st : Readdir) : FvM (Bool × Readdir) := do
  let s ← get
  if st.offset = 0 ∧ s.fv.flags.root then onVol (emitEntry fsi ⟨0, 1⟩ (dotDName st.dName 1) 1 st)
  else if st.offset = 1 ∧ s.fv.flags.root then onVol (emitEntry fsi ⟨0, 2⟩ (dotDName st.dName 2) 2 st)
  else do
    let diskOffset := if s.fv.flags.root ∧ st.offset < dentrySize then 0 else st.offset
    match ← attempt (getDirent fsi diskOffset ⟨Function.update st.dName 0 0, dNameSize⟩ none) with
    | .error e =>
      pure (false, if e = .enoent then { st with eof := true, err := none } else { st with err := some e })
    | .ok out => onVol (emitEntry fsi out.dirent out.name out.offset st)

theorem readdirLoop_succ (n : Nat) {st : Readdir} (h : st.resid ≠ 0) (s : VnSt) :
    readdirLoop fsi (n + 1) st s =
      (do let y ← readdirRound fsi st; if y.1 then readdirLoop fsi n y.2 else pure y.2) s := by
  rw [readdirLoop, if_neg h, get_bind_run, bind_run, readdirRound, get_bind_run]
  by_cases h0 : st.offset = 0 ∧ s.fv.flags.root = true
  · rw [if_pos h0, if_pos h0]
    rfl
  rw [if_neg h0, if_neg h0]
  by_cases h1 : st.offset = 1 ∧ s.fv.flags.root = true
  · rw [if_pos h1, if_pos h1]
    rfl
  rw [if_neg h1, if_neg h1]
  rcases hdirent : attempt (getDirent fsi (if s.fv.flags.root = true ∧ st.offset < dentrySize then 0 else st.offset)
      ⟨Function.update st.dName 0 0, dNameSize⟩ none) s with ⟨(e | out) | e | _, u⟩
  · rw [bind_ok hdirent, bind_ok hdirent]
    by_cases he : e = .enoent
    · simp only [he, if_true, pure_run]
      rfl
    · simp only [he, if_false, pure_run]
      rfl
  · rw [bind_ok hdirent, bind_ok hdirent]
    rfl
  · rw [bind_err hdirent, bind_err hdirent]
  · rw [bind_hang hdirent, bind_hang hdirent]

/-- What the buffer takes a record for. -/
def Emitted.size (fsi : Fsi) (x : Emitted) : Nat := fsi.kernel.direntSize x.name.length

/-- A record is listed when the buffer holds it. -/
theorem emitEntry_run (hf : ¬ Faults fsi) (e : Dirent) (name : DName) (next : Nat) (st : Readdir)
    (v : Vol) : ∃ v', Same v v' ∧ emitEntry fsi e name next st v =
      (.ok (if Emitted.size fsi ⟨e.ino, e.off, nameBytes name⟩ ≤ st.resid then (true, { st with
            dName := name.data
            offset := next
            resid := st.resid - Emitted.size fsi ⟨e.ino, e.off, nameBytes name⟩
            err := none
            entries := st.entries ++ [⟨e.ino, e.off, nameBytes name⟩] })
          else (false, { st with
            dName := name.data
            err := if st.entries ≠ [] then none else some .einval })), v') := by
  have hsize : Emitted.size fsi ⟨e.ino, e.off, nameBytes name⟩ = fsi.kernel.direntSize name.size := by
    rw [Emitted.size, nameBytes, List.length_map, List.length_range]
  rw [hsize, emitEntry]
  rcases Nat.lt_or_ge st.resid (fsi.kernel.direntSize name.size) with hlt | hge
  · have hfull : emitDirent fsi name.size st.resid v = (.err .einval, v) := by
      rw [emitDirent]
      exact congrFun (if_pos hlt) v
    refine ⟨v, .refl v, ?_⟩
    rw [bind_ok (attempt_err hfull), if_neg (not_le.mpr hlt)]
    by_cases hne : st.entries = [] <;> simp [hne]
  · obtain ⟨v1, e1, s1⟩ := uiomove_run hf v
    obtain ⟨v2, e2, s2⟩ := uiomove_run hf v1
    obtain ⟨v3, s3, hok⟩ : ∃ v3, Same v2 v3 ∧ emitDirent fsi name.size st.resid v =
        (.ok (st.resid - fsi.kernel.direntSize name.size), v3) := by
      rw [emitDirent]
      show ∃ v3, _ ∧ (if fsi.kernel.direntSize name.size > st.resid then _ else _ : FsM Nat) v = _
      rw [if_neg (not_lt.mpr hge), bind_ok e1, bind_ok e2]
      split
      · obtain ⟨v3, e3, s3⟩ := uiomove_run hf v2
        exact ⟨v3, s3, bind_ok e3⟩
      · exact ⟨v2, .refl v2, rfl⟩
    refine ⟨v3, (s1.trans s2).trans s3, ?_⟩
    rw [bind_ok (attempt_ok hok), if_pos hge]
    rfl

/-! ## Places in the listing -/

/-- The slot at which the search from an offset begins. -/
def diskSlot (root : Bool) (offset : Nat) : Nat :=
  (if root = true ∧ offset < dentrySize then 0 else offset) / dentrySize

/-- The offset is the place in the listing of the directory at `d` in front of the records `rest`. -/
inductive At (root : Bool) (d : Nat) (D : List Slot) : Nat → List Emitted → Prop
  | dot {es : List DirEntry} (hroot : root = true) (h : Tidy 0 D es) (hfill : Unfilled es) :
      At root d D 0 (⟨0, 1, [46]⟩ :: ⟨0, 2, [46, 46]⟩ :: es.map (DirEntry.record d))
  | dotdot {es : List DirEntry} (hroot : root = true) (h : Tidy 0 D es) (hfill : Unfilled es) :
      At root d D 1 (⟨0, 2, [46, 46]⟩ :: es.map (DirEntry.record d))
  | disk {o k : Nat} {es : List DirEntry} (hroot : root = true → 2 ≤ o)
      (ho : (if root = true ∧ o < dentrySize then 0 else o) = 32 * k) (hk : k ≤ D.length) (h : Tidy k (D.drop k) es)
      (hfill : Unfilled es) : At root d D o (es.map (DirEntry.record d))

theorem diskSlot_eq {root : Bool} {o : Nat} (h : (if root = true ∧ o < dentrySize then 0 else o) = 32 * k) :
    diskSlot root o = k := by
  rw [diskSlot, h]
  exact Nat.mul_div_cancel_left k (by decide)

/-- The entries behind the first one. -/
theorem Tidy.rest (h : Tidy k (D.drop k) (x :: es)) :
    x.slot < D.length ∧ Tidy (x.slot + 1) (D.drop (x.slot + 1)) es := by
  obtain ⟨P, l, hL, -, hslot, -, -, hl⟩ := h.first
  have hlen := congrArg List.length hL
  have hdrop : D.drop (x.slot + 1) = l := by
    rw [show x.slot + 1 = k + (P ++ (x.set ++ [x.dentry])).length by
      simp only [List.length_append, List.length_singleton]; omega, ← List.drop_drop, hL,
      show P ++ (x.set ++ x.dentry :: l) = (P ++ (x.set ++ [x.dentry])) ++ l by simp, List.drop_left]
  simp only [List.length_append, List.length_cons, List.length_drop] at hlen
  exact ⟨by omega, by rwa [hdrop]⟩

theorem At.behind (root : Bool) (h : Tidy k (D.drop k) (x :: es)) (hfill : Unfilled (x :: es)) :
    At root d D (32 * (x.slot + 1)) (es.map (DirEntry.record d)) := by
  obtain ⟨hlt, hrest⟩ := h.rest
  refine .disk (fun _ => by omega) (if_neg fun h => ?_) hlt hrest fun y hy => hfill y (List.mem_cons_of_mem _ hy)
  have h2 := h.2
  simp only [dentrySize] at h2
  omega

/-- A place is the start of the listing, or the last field but the name of the record in front of it. -/
def Place (all : List Emitted) (o : Nat) (rest : List Emitted) : Prop :=
  o = 0 ∧ rest = all ∨ ∃ done x, all = done ++ x :: rest ∧ o = x.off

theorem Place.at {root : Bool} {o : Nat} {rest : List Emitted} (h : Tidy 0 D es) (hfill : Unfilled es)
    (hp : Place (listing root d es) o rest) : At root d D o rest := by
  have hstart (hroot : root = true → 2 ≤ o) (ho : o < dentrySize) (h0 : root = false → o = 0) :
      At root d D o (es.map (DirEntry.record d)) := by
    refine .disk hroot (k := 0) ?_ (Nat.zero_le _) h hfill
    cases root with
    | true => exact if_pos ⟨rfl, ho⟩
    | false =>
      rw [h0 rfl]
      rfl
  have hdisk : ∀ (k : Nat) (es1 es2 : List DirEntry) (y : DirEntry), Tidy k (D.drop k) (es1 ++ y :: es2) →
      Unfilled (es1 ++ y :: es2) → At root d D (32 * (y.slot + 1)) (es2.map (DirEntry.record d)) := by
    intro k es1
    induction es1 generalizing k with
    | nil => exact fun es2 y h hfill => .behind root h hfill
    | cons z es1 ih =>
      exact fun es2 y h hfill => ih (z.slot + 1) es2 y h.rest.2 fun w hw => hfill w (List.mem_cons_of_mem _ hw)
  have hmap {done : List Emitted} {x : Emitted} (hall : es.map (DirEntry.record d) = done ++ x :: rest) :
      At root d D x.off rest := by
    obtain ⟨es1, es2, hes, -, h2⟩ := List.map_eq_append_iff.mp hall
    obtain ⟨y, es3, rfl, rfl, rfl⟩ := List.map_eq_cons_iff.mp h2
    rw [hes] at h hfill
    exact hdisk 0 es1 es3 y h hfill
  rcases hp with ⟨rfl, rfl⟩ | ⟨done, x, hall, rfl⟩
  · cases root with
    | true => exact .dot rfl h hfill
    | false => exact hstart (fun h => absurd h Bool.false_ne_true) (by decide) fun _ => rfl
  · cases root with
    | false => exact hmap hall
    | true =>
      have hall : ⟨0, 1, [46]⟩ :: ⟨0, 2, [46, 46]⟩ :: es.map (DirEntry.record d) = done ++ x :: rest := hall
      rcases done with _ | ⟨y, _ | ⟨z, done⟩⟩
      · obtain ⟨rfl, rfl⟩ := List.cons.inj hall
        exact .dotdot rfl h hfill
      · obtain ⟨-, hall⟩ := List.cons.inj hall
        obtain ⟨rfl, rfl⟩ := List.cons.inj hall
        exact hstart (fun _ => le_rfl) (by decide) fun h => absurd h.symm Bool.false_ne_true
      · obtain ⟨-, hall⟩ := List.cons.inj hall
        obtain ⟨-, hall⟩ := List.cons.inj hall
        exact hmap hall

/-! ## A call -/

/-- A search leaves the directory as it was. -/
structure Looked (fsi : Fsi) (cs : List Nat) (t u : VnSt) : Prop where
  dir : IsDir fsi cs u
  vol : Same t.vol u.vol
  fv : CacheOnly t.fv u.fv

theorem Looked.trans {w : VnSt} (h : Looked fsi cs t u) (h' : Looked fsi cs u w) : Looked fsi cs t w :=
  ⟨h'.dir, h.vol.trans h'.vol, h.fv.trans h'.fv⟩

theorem Looked.root (h : Looked fsi cs t u) : u.fv.flags.root = t.fv.flags.root := by
  obtain ⟨c, hc⟩ := h.fv
  rw [hc]

/-- How a round in front of the records `rest` ends. -/
inductive RoundEnds (fsi : Fsi) (D : List Slot) (t : VnSt) (st : Readdir) (rest : List Emitted) : Bool × Readdir → Prop
  | listed {x : Emitted} {todo : List Emitted} {st' : Readdir} (hrest : rest = x :: todo) (hsize : x.size fsi ≤ st.resid)
      (hat : At t.fv.flags.root t.fv.cluster D st'.offset todo) (hent : st'.entries = st.entries ++ [x])
      (heof : st'.eof = st.eof) (herr : st'.err = none) : RoundEnds fsi D t st rest (true, st')
  | full {x : Emitted} {todo : List Emitted} {st' : Readdir} (hrest : rest = x :: todo) (hsize : st.resid < x.size fsi)
      (ho : st'.offset = st.offset) (hent : st'.entries = st.entries) (heof : st'.eof = st.eof)
      (herr : st'.err = if st.entries ≠ [] then none else some .einval) : RoundEnds fsi D t st rest (false, st')
  | ended {st' : Readdir} (hrest : rest = []) (ho : st'.offset = st.offset) (hent : st'.entries = st.entries)
      (heof : st'.eof = true) (herr : st'.err = none) : RoundEnds fsi D t st rest (false, st')
  | failed {st' : Readdir} {e : Errno} (hdisk : t.fv.flags.root = true → 2 ≤ st.offset)
      (hno : ¬ DataAnswers fsi D t (diskSlot t.fv.flags.root st.offset)) (ho : st'.offset = st.offset)
      (hent : st'.entries = st.entries) (heof : st'.eof = st.eof) (herr : st'.err = some e) :
      RoundEnds fsi D t st rest (false, st')

variable {st st' : Readdir} {rest todo : List Emitted}

/-- The next record is listed, or the buffer is full. -/
theorem emitEntry_ends (hf : ¬ Faults fsi) (h : IsDir fsi cs t) {e : Dirent} {name : DName} {next : Nat}
    (hrest : rest = ⟨e.ino, e.off, nameBytes name⟩ :: todo) (hat : At u.fv.flags.root u.fv.cluster D next todo) :
    WP (onVol (emitEntry fsi e name next st)) t fun res t' => Looked fsi cs t t' ∧ ∃ y, res = .ok y ∧
      RoundEnds fsi D u st rest y := by
  obtain ⟨v', hs, hrun⟩ := emitEntry_run hf e name next st t.vol
  have hlook : Looked fsi cs t ⟨v', t.fv⟩ := by
    refine ⟨⟨h.type, ?_, ?_⟩, hs, .refl _⟩
    · rw [hs.disk]
      exact h.path
    · rw [hs.disk]
      exact h.cache
  refine .of_run (onVol_run hrun) ⟨hlook, _, rfl, ?_⟩
  split
  · rename_i hle
    exact .listed hrest hle hat rfl rfl rfl
  · rename_i hle
    exact .full hrest (not_le.mp hle) rfl rfl rfl rfl

theorem readdirRound_ends (hg : Geometry fsi) (hf : ¬ Faults fsi) (hfuel : cs.length ≤ fsi.kernel.fuel)
    (h : IsDir fsi cs t) (hD : readSlots fsi cs t.vol = D) (hlt : 32 * D.length < 2 ^ 32)
    (hat : At t.fv.flags.root t.fv.cluster D st.offset rest)
    (hr : (t.fv.flags.root = true → 2 ≤ st.offset) → SearchReads fsi D t (diskSlot t.fv.flags.root st.offset)) :
    WP (readdirRound fsi st) t fun res u => Looked fsi cs t u ∧ ∃ y, res = .ok y ∧ RoundEnds fsi D t st rest y := by
  unfold readdirRound
  refine .get_bind ?_
  obtain ⟨o, hoff⟩ : ∃ o, o = st.offset := ⟨_, rfl⟩
  rw [← hoff] at hat
  cases hat with
  | dot hroot htidy hfill =>
    rw [if_pos ⟨hoff.symm, hroot⟩]
    exact emitEntry_ends hf h rfl (.dotdot hroot htidy hfill)
  | dotdot hroot htidy hfill =>
    rw [if_neg fun h => absurd (hoff.trans h.1) Nat.one_ne_zero, if_pos ⟨hoff.symm, hroot⟩]
    refine emitEntry_ends hf h rfl (.disk (k := 0) (fun _ => le_rfl) (if_pos ⟨hroot, by decide⟩) (Nat.zero_le _) htidy hfill)
  | @disk _ k es hroot ho hk htidy hfill =>
    subst hoff
    have hk' : diskSlot t.fv.flags.root st.offset = k := diskSlot_eq ho
    have h0 : ¬ (st.offset = 0 ∧ t.fv.flags.root = true) := fun h => absurd (hroot h.2) (by omega)
    have h1 : ¬ (st.offset = 1 ∧ t.fv.flags.root = true) := fun h => absurd (hroot h.2) (by omega)
    rw [if_neg h0, if_neg h1, ho]
    dsimp only
    have hreads := hr hroot
    rw [hk'] at hreads
    have hrun := @getDirent_any D k (Function.update st.dName 0 0) fsi cs t none hg hfuel h hD hk hlt hreads
    unfold WP at hrun
    obtain ⟨res, t', hget⟩ : ∃ res t', getDirent fsi (32 * k) ⟨Function.update st.dName 0 0, dNameSize⟩ none t = (res, t') :=
      ⟨_, _, rfl⟩
    rw [hget] at hrun
    obtain ⟨hdir, hs, hc, hres⟩ := hrun
    dsimp only at hdir hs hc hres
    have hlook : Looked fsi cs t t' := ⟨hdir, hs, hc⟩
    have hlen : 32 * (k + (D.drop k).length) < 2 ^ 32 := by
      rw [List.length_drop]
      omega
    rcases hres with hres | ⟨e, hne, hres, hno⟩
    · cases es with
      | nil =>
        have hnone := @scanSlots_none (D.drop k) k (Function.update st.dName 0 0) htidy hlen
        have hend : res = .err .enoent := by
          rw [hres, direntScan]
          revert hnone
          cases scanSlots dNameSize (D.drop k) { offset := 32 * k, name := ⟨Function.update st.dName 0 0, dNameSize⟩ } with
          | stop => exact fun _ => rfl
          | entry e st => exact fun h => absurd h.symm Out.err_ne_ok
          | more st => exact fun _ => rfl
        rw [hend] at hget
        refine .ok_bind (attempt_err hget) (.of_run rfl ⟨hlook, _, rfl, ?_⟩)
        rw [if_pos rfl]
        exact .ended rfl rfl rfl rfl rfl
      | cons x es =>
        obtain ⟨st1, hscan, ho1, hstart, hname⟩ := scanSlots_tidy htidy hlen (Function.update_self 0 0 st.dName)
          (hfill x List.mem_cons_self)
        rw [hres, direntScan, hscan] at hget
        have hrec : (⟨(direntOut t.fv.cluster none x.dentry st1).dirent.ino, (direntOut t.fv.cluster none x.dentry st1).dirent.off,
            nameBytes st1.name⟩ : Emitted) = x.record t.fv.cluster := by
          obtain ⟨hin, -⟩ := htidy.rest
          obtain ⟨-, hslot⟩ := htidy.le x List.mem_cons_self
          have hcount : u32 (sub32 (32 * x.slot) (32 * x.start) / dentrySize + 1) = x.set.length + 1 := by
            rw [sub32_of_le (by omega) (by omega), u32, dentrySize]
            omega
          have hoff : u32 (32 * x.slot + dentrySize) = 32 * (x.slot + 1) := u32_slot (by omega)
          rw [DirEntry.record, direntOut, ho1, hstart, hname, hcount, hoff]
        refine .ok_bind (attempt_ok hget) ?_
        have hnext : (direntOut t.fv.cluster none x.dentry st1).offset = 32 * (x.slot + 1) := by
          rw [direntOut, ho1]
          exact u32_slot (by have := htidy.rest.1; omega)
        refine (emitEntry_ends hf hdir (congrArg (· :: es.map _) hrec.symm) ?_).mono fun r w h => ⟨hlook.trans h.1, h.2⟩
        rw [hnext]
        exact .behind _ htidy hfill
    · rw [hres] at hget
      have hno' : ¬ DataAnswers fsi D t (diskSlot t.fv.flags.root st.offset) := by rwa [hk']
      refine .ok_bind (attempt_err hget) (.of_run rfl ⟨hlook, _, rfl, ?_⟩)
      rw [if_neg hne]
      exact .failed hroot hno' rfl rfl rfl rfl

/-- Rounds of a call that each list an entry. -/
inductive Rounds (fsi : Fsi) : Readdir → VnSt → Readdir → VnSt → Prop
  | refl {st : Readdir} {t : VnSt} : Rounds fsi st t st t
  | next {st st' st'' : Readdir} {t t' t'' : VnSt} (h0 : st.resid ≠ 0) (h : readdirRound fsi st t = (.ok (true, st'), t'))
      (h' : Rounds fsi st' t' st'' t'') : Rounds fsi st t st'' t''

/-- `P` holds of the vnode and the slot where each search of a call begins. -/
def EachSearch (fsi : Fsi) (P : VnSt → Nat → Prop) (st : Readdir) (t : VnSt) : Prop :=
  ∀ st' t', Rounds fsi st t st' t' → st'.resid ≠ 0 → (t'.fv.flags.root = true → 2 ≤ st'.offset) →
    P t' (diskSlot t'.fv.flags.root st'.offset)

theorem EachSearch.next {P : VnSt → Nat → Prop} (h : EachSearch fsi P st t) (h0 : st.resid ≠ 0)
    (hrun : readdirRound fsi st t = (.ok (true, st'), u)) : EachSearch fsi P st' u :=
  fun st'' t'' hrounds => h st'' t'' (.next h0 hrun hrounds)

/-- What a call, or the rest of one, in front of the records `rest` leaves. -/
structure CallLists (fsi : Fsi) (D : List Slot) (t : VnSt) (st : Readdir) (rest : List Emitted) (st' : Readdir) : Prop where
  place : ∃ done todo, rest = done ++ todo ∧ st'.entries = st.entries ++ done ∧
    At t.fv.flags.root t.fv.cluster D st'.offset todo ∧ (st'.eof = true → todo = [])
  goes_on : st.resid ≠ 0 → st'.err = none → st'.eof = true ∨ st'.entries ≠ []
  full : st.resid ≠ 0 → st.entries = [] → (∃ x ∈ rest.head?, st.resid < x.size fsi) →
    ((t.fv.flags.root = true → 2 ≤ st.offset) → DataAnswers fsi D t (diskSlot t.fv.flags.root st.offset)) →
    st'.err = some .einval ∧ st'.offset = st.offset ∧ st'.entries = [] ∧ st'.eof = false
  clean : EachSearch fsi (DataAnswers fsi D) st t → (st.resid = 0 → st.err = none) →
    (st.entries = [] → ∀ x ∈ rest.head?, x.size fsi ≤ st.resid) → st'.err = none

/-- The rounds list the records one by one. -/
theorem readdirLoop_lists (hg : Geometry fsi) (hf : ¬ Faults fsi) (hfuel : cs.length ≤ fsi.kernel.fuel)
    (hlt : 32 * D.length < 2 ^ 32) (n : Nat) : ∀ {st : Readdir} {t : VnSt} {rest : List Emitted}, IsDir fsi cs t →
      readSlots fsi cs t.vol = D → At t.fv.flags.root t.fv.cluster D st.offset rest → rest.length < n → st.eof = false →
      EachSearch fsi (SearchReads fsi D) st t →
      WP (readdirLoop fsi n st) t fun res u => Looked fsi cs t u ∧ ∃ st', res = .ok st' ∧ CallLists fsi D t st rest st' := by
  induction n with
  | zero => exact fun _ _ _ h _ _ => absurd h (Nat.not_lt_zero _)
  | succ n ih =>
    intro st t rest h hD hat hn heof hr
    by_cases h0 : st.resid = 0
    · have hrun : readdirLoop fsi (n + 1) st t = (.ok st, t) := by
        rw [readdirLoop, if_pos h0]
        rfl
      refine .of_run hrun ⟨⟨h, .refl _, .refl _⟩, st, rfl, ⟨[], rest, rfl, (List.append_nil _).symm, hat, fun h => ?_⟩,
        fun h => absurd h0 h, fun h => absurd h0 h, fun _ herr _ => herr h0⟩
      rw [heof] at h
      exact absurd h Bool.false_ne_true
    have hround := readdirRound_ends hg hf hfuel h hD hlt hat (hr st t .refl h0)
    unfold WP at hround ⊢
    rw [readdirLoop_succ n h0]
    obtain ⟨res, u, hrun⟩ : ∃ res u, readdirRound fsi st t = (res, u) := ⟨_, _, rfl⟩
    rw [hrun] at hround
    obtain ⟨hlook, y, hres, hends⟩ := hround
    dsimp only at hlook hres
    rw [hres] at hrun
    rw [bind_ok hrun]
    cases hends with
    | @listed x todo st' hrest hsize hat' hent heof' herr =>
      rw [← hlook.root, ← hlook.fv.cluster] at hat'
      have hrec := ih hlook.dir (by rw [readSlots_same hlook.vol, hD]) hat' (by rw [hrest, List.length_cons] at hn; omega)
        (heof'.trans heof) (hr.next h0 hrun)
      unfold WP at hrec
      obtain ⟨hlook', st'', hres', hlist⟩ := hrec
      obtain ⟨done, todo', hdone, hent', hat'', heof''⟩ := hlist.place
      rw [hlook.root, hlook.fv.cluster] at hat''
      rw [hent, List.append_assoc] at hent'
      have hne : st''.entries ≠ [] := by
        rw [hent']
        simp
      refine ⟨hlook.trans hlook', st'', hres', ⟨x :: done, todo', by rw [hrest, hdone]; rfl, hent', hat'', heof''⟩,
        fun _ _ => .inr hne, fun _ _ hfull => ?_, fun hdata _ _ => ?_⟩
      · obtain ⟨z, hz, hlt'⟩ := hfull
        rw [hrest] at hz
        obtain rfl := Option.some.inj hz
        omega
      · refine hlist.clean (hdata.next h0 hrun) (fun _ => herr) fun hnil => ?_
        rw [hent] at hnil
        simp at hnil
    | @full x todo st' hrest hsize ho hent heof' herr =>
      refine ⟨hlook, st', rfl, ⟨[], rest, rfl, hent.trans (List.append_nil _).symm, by rwa [ho], fun h => ?_⟩,
        fun _ hnone => .inr ?_, fun _ hnil _ _ => ⟨?_, ho, hent.trans hnil, heof'.trans heof⟩, fun _ _ hfit => ?_⟩
      · rw [heof', heof] at h
        exact absurd h Bool.false_ne_true
      · rw [hent]
        intro hnil
        rw [herr, if_neg (not_not.mpr hnil)] at hnone
        cases hnone
      · rw [herr, if_neg (not_not.mpr hnil)]
      · rw [herr]
        by_cases hnil : st.entries = []
        · have hle := hfit hnil x (by rw [hrest]; rfl)
          omega
        · rw [if_pos hnil]
    | @ended st' hrest ho hent heof' herr =>
      refine ⟨hlook, st', rfl, ⟨[], rest, rfl, hent.trans (List.append_nil _).symm, by rwa [ho], fun _ => hrest⟩,
        fun _ _ => .inl heof', fun _ _ hfull => ?_, fun _ _ _ => herr⟩
      obtain ⟨z, hz, -⟩ := hfull
      rw [hrest] at hz
      cases hz
    | @failed st' e hdisk hno ho hent heof' herr =>
      refine ⟨hlook, st', rfl, ⟨[], rest, rfl, hent.trans (List.append_nil _).symm, by rwa [ho], fun h => ?_⟩,
        fun _ hnone => ?_, fun _ _ _ hdata => absurd (hdata hdisk) hno, fun hdata _ _ => absurd (hdata st t .refl h0 hdisk) hno⟩
      · rw [heof', heof] at h
        exact absurd h Bool.false_ne_true
      · rw [herr] at hnone
        cases hnone

/-! ## Calls one after the other -/

/-- The state of the loop at the start of a call. -/
def Readdir.start (fsi : Fsi) (offset resid : Nat) : Readdir where
  offset := u32 offset
  resid := resid
  dName := fsi.kernel.stack
  err := fsi.kernel.stackErr

/-- A vnode of the directory at `d` with the slots `D`. -/
structure Opened (fsi : Fsi) (cs : List Nat) (D : List Slot) (root : Bool) (d : Nat) (t : VnSt) : Prop where
  dir : IsDir fsi cs t
  slots : readSlots fsi cs t.vol = D
  root : t.fv.flags.root = root
  cluster : t.fv.cluster = d

/-- Calls of `fat32_readdir` of the directory, each from the place where the one before stopped, lead from one
place to another and list `l` on the way. -/
inductive Calls (fsi : Fsi) (cs : List Nat) (D : List Slot) (root : Bool) (d : Nat) : Nat → List Emitted → Nat → Prop
  | nil {o : Nat} : Calls fsi cs D root d o [] o
  | call {o o' resid : Nat} {t : VnSt} {r : Readdir} {l : List Emitted} (h : Opened fsi cs D root d t)
      (hr : EachSearch fsi (SearchReads fsi D) (.start fsi o resid) t) (hcall : (readdir fsi o resid t).1 = .ok r)
      (h' : Calls fsi cs D root d r.offset l o') : Calls fsi cs D root d o (r.entries ++ l) o'

/-- What a call for `resid` bytes from the place `o` in front of the records `next` returns. -/
structure Resumes (fsi : Fsi) (D : List Slot) (t : VnSt) (o resid : Nat) (next : List Emitted) (r : Readdir) : Prop where
  part : r.entries <+: next
  whole : r.eof = true → r.entries = next
  goes_on : r.err = none → r.eof = true ∨ r.entries ≠ []
  full : (∃ x ∈ next.head?, resid < x.size fsi) →
    ((t.fv.flags.root = true → 2 ≤ o) → DataAnswers fsi D t (diskSlot t.fv.flags.root o)) →
    r.err = some .einval ∧ r.offset = o ∧ r.entries = [] ∧ r.eof = false
  clean : EachSearch fsi (DataAnswers fsi D) (.start fsi o resid) t → (∀ x ∈ next.head?, x.size fsi ≤ resid) → r.err = none

theorem Tidy.length_le (h : Tidy i D es) : es.length ≤ D.length := by
  induction h with
  | nil => exact le_rfl
  | stop => exact Nat.zero_le _
  | pass _ _ _ ih => exact Nat.le_succ_of_le ih
  | entry _ _ _ ih =>
    rw [List.length_append, List.length_cons, List.length_cons]
    omega

variable {root : Bool} {o o' resid : Nat} {l next : List Emitted}

theorem At.bounds (hlt : 32 * D.length < 2 ^ 32) (h : At root d D o rest) : o < 2 ^ 32 ∧ rest.length ≤ D.length + 2 := by
  have hlen {k : Nat} {es : List DirEntry} (h : Tidy k (D.drop k) es) : (es.map (DirEntry.record d)).length ≤ D.length := by
    have hle := h.length_le
    rw [List.length_drop] at hle
    rw [List.length_map]
    omega
  cases h with
  | dot _ h _ => exact ⟨by decide, Nat.add_le_add_right (hlen (k := 0) h) 2⟩
  | dotdot _ h _ => exact ⟨by decide, Nat.le_succ_of_le (Nat.succ_le_succ (hlen (k := 0) h))⟩
  | @disk _ k es _ ho hk h _ =>
    refine ⟨?_, (hlen h).trans (Nat.le_add_right _ 2)⟩
    split at ho
    · rename_i hsmall
      have h2 := hsmall.2
      simp only [dentrySize] at h2
      omega
    · omega

/-- One call from a place. -/
theorem readdir_lists (hg : Geometry fsi) (hf : ¬ Faults fsi) (hfuel : D.length + 3 ≤ fsi.kernel.fuel)
    (hlt : 32 * D.length < 2 ^ 32) (hopen : Opened fsi cs D root d t) (hat : At root d D o rest)
    (hr : EachSearch fsi (SearchReads fsi D) (.start fsi o resid) t) :
    ∃ r, (readdir fsi o resid t).1 = .ok r ∧ CallLists fsi D t (.start fsi o resid) rest r := by
  obtain ⟨hdir, hD, rfl, rfl⟩ := hopen
  obtain ⟨ho, hlen⟩ := hat.bounds hlt
  have hcs : cs.length ≤ fsi.kernel.fuel := by
    have hle := Nat.le_mul_of_pos_right cs.length (slotsPer_pos hg)
    have hlenD : D.length = cs.length * slotsPer fsi := by rw [← hD, length_dirSlots]
    omega
  have ho' : (Readdir.start fsi o resid).offset = o := Nat.mod_eq_of_lt ho
  have hat' : At t.fv.flags.root t.fv.cluster D (Readdir.start fsi o resid).offset rest := by rwa [ho']
  have hloop := readdirLoop_lists hg hf hcs hlt fsi.kernel.fuel hdir hD hat' (by omega) rfl hr
  unfold WP at hloop
  obtain ⟨-, r, hres, hlist⟩ := hloop
  refine ⟨r, ?_, hlist⟩
  rw [readdir, get_bind_run, if_neg (not_not.mpr hdir.type)]
  exact hres

theorem Calls.at (hg : Geometry fsi) (hf : ¬ Faults fsi) (hfuel : D.length + 3 ≤ fsi.kernel.fuel)
    (hlt : 32 * D.length < 2 ^ 32) (h : Calls fsi cs D root d o l o') : ∀ {rest : List Emitted}, At root d D o rest →
      ∃ next, rest = l ++ next ∧ At root d D o' next := by
  induction h with
  | nil => exact fun h => ⟨_, rfl, h⟩
  | call hopen hr hcall _ ih =>
    intro rest hat
    obtain ⟨r, hres, hlist⟩ := readdir_lists hg hf hfuel hlt hopen hat hr
    obtain rfl := Out.ok.inj (hcall.symm.trans hres)
    obtain ⟨done, todo, hdone, hent, hat', -⟩ := hlist.place
    rw [hopen.root, hopen.cluster] at hat'
    obtain ⟨next, hnext, hat''⟩ := ih hat'
    refine ⟨next, ?_, hat''⟩
    have hent : _ = done := hent
    rw [hdone, hnext, hent, List.append_assoc]

/-- On a device that answers every search has its reads. -/
theorem searchReads_of_reliable (hk : Reliable fsi.kernel) (D : List Slot) (t : VnSt) (i : Nat) :
    SearchReads fsi D t i ∧ DataAnswers fsi D t i := by
  have hall (m n : Nat) : Answers fsi m n := fun _ _ => hk.read _
  refine ⟨⟨fun _ => hall _ _, fun _ _ _ => hall _ _, fun _ _ _ h => ?_⟩, fun _ _ _ => hall _ _⟩
  rw [hk.read] at h
  cases h

/-- An entry with a short name and nothing else. -/
theorem Tidy.single (he : ∃ e ∈ L.head?, e.IsEntry) (hz : ∃ z ∈ (L.drop 1).head?, z.first = 0) :
    ∃ e, Tidy i L [⟨i, [], e⟩] := by
  obtain ⟨e, he, hent⟩ := he
  obtain ⟨z, hz, h0⟩ := hz
  rcases L with _ | ⟨e', _ | ⟨z', L⟩⟩
  · cases he
  · cases hz
  · obtain rfl := Option.some.inj he
    obtain rfl := Option.some.inj hz
    exact ⟨_, .entry (S := []) (.inl rfl) hent (.stop h0)⟩

theorem Tidy.passes {Q : List Slot} (hP : ∀ s ∈ P, s.Skipped ∧ ¬ s.IsLfn) (h : Tidy (i + P.length) Q es) :
    Tidy i (P ++ Q) es := by
  induction P generalizing i with
  | nil => exact h
  | cons s P ih =>
    obtain ⟨hs, hl⟩ := hP s List.mem_cons_self
    refine .pass hs hl (ih (fun y hy => hP y (List.mem_cons_of_mem _ hy)) ?_)
    rwa [List.length_cons, Nat.add_comm P.length, ← Nat.add_assoc] at h

/-- A directory of two clusters, the first with deleted slots only, the second with one entry. -/
def spreadDir : VnSt where
  vol := image [3, clusterEoc] fun c =>
    if c = 2 then List.replicate 16 fun i => if i.val = 0 then lfnDeleted else 0
    else if c = 3 then [shortEntry 65 0 0 0] else []
  fv := { vnodeNew (small 2) with type := .vdir, cluster := 2 }

theorem spreadDir_deleted : ∀ s ∈ clusterSlots (small 2) (clusterBytes (small 2) spreadDir.vol.disk 2),
    s.Skipped ∧ ¬ s.IsLfn := by
  have hall : ∀ k < 16, (slotAt (clusterBytes (small 2) spreadDir.vol.disk 2) (32 * k)).Skipped ∧
      ¬ (slotAt (clusterBytes (small 2) spreadDir.vol.disk 2) (32 * k)).IsLfn := by decide +kernel
  intro s hs
  obtain ⟨k, hk⟩ := List.mem_iff_getElem?.mp hs
  rw [clusterSlots_getElem?] at hk
  split at hk
  · rename_i hlt
    rw [← Option.some.inj hk]
    exact hall k hlt
  · cases hk

/-- What a call has in the buffer, its error, and whether it was the end. -/
def readdirOut : Out Errno Readdir → Option (List Emitted × Option Errno × Bool)
  | .ok r => some (r.entries, r.err, r.eof)
  | _ => none

end Fat32
