import Mathlib
import Fat32.Proof.FailedRead

/-!
# An allocation that fails

`fat32_allocate_cluster` marks a cluster in each FAT copy, links it in each copy and
then brings FSInfo up to date. Only a link that fails is undone, and only the mark of
the new cluster. So a failed call leaves the volume as it was if the read that fails
comes before the first write, or is that of the entry to link from
(`nextCluster_unchanged_iff`).
-/

namespace Fat32

open Bytes Exec Prog

variable {fsi : Fsi} {j : Nat} {e : Errno} {c p r : Nat} {fl : NcFlags} {v v1 v2 v3 u : Vol}

/-- Every FAT entry and the counters, on the disk and in memory, are the same. -/
structure Unchanged (fsi : Fsi) (v v' : Vol) : Prop where
  fat : ∀ k < fsi.numFats, ∀ c ≤ fsi.clusterCount + 1, fatCopy fsi v'.disk k c = fatCopy fsi v.disk k c
  diskFree : rle32 v'.disk (512 * fsi.fsinfoSector + fsinfoFreeCount) =
    rle32 v.disk (512 * fsi.fsinfoSector + fsinfoFreeCount)
  diskNext : rle32 v'.disk (512 * fsi.fsinfoSector + fsinfoNextFree) =
    rle32 v.disk (512 * fsi.fsinfoSector + fsinfoNextFree)
  free : v'.freeCount = v.freeCount
  next : v'.nextFree = v.nextFree

/-- A run that ends with an error changed nothing. -/
def Atomic (fsi : Fsi) {α : Type} (m : FsM α) (v : Vol) : Prop :=
  ∀ e, (m v).1 = .err e → Unchanged fsi v (m v).2

/-- The first read that precedes a write: that of the entry of the cluster to allocate. -/
def markRead (fsi : Fsi) (v : Vol) (cur r : Nat) : Nat :=
  v.reads + (if cur = 0 then 0 else 1) + cyclicDist fsi (searchStart fsi v.nextFree) r + 1

/-- Nothing is there to allocate, or read `j` comes before the first write, is the first
one of the link, or comes after the call. -/
def HarmlessRead (fsi : Fsi) (v : Vol) (cur j : Nat) : Prop :=
  v.freeCount = 0 ∨ v.freeCount = 0xFFFFFFFF ∨
    ∀ r, FirstFree fsi (view fsi v.disk).fat (searchStart fsi v.nextFree) r →
      j ≤ markRead fsi v cur r ∨ cur ≠ 0 ∧ j = markRead fsi v cur r + fsi.numFats ∨
        markRead fsi v cur r + fsi.numFats + (if cur = 0 then 0 else fsi.numFats) < j

theorem Same.unchanged (h : Same v u) : Unchanged fsi v u :=
  ⟨fun _ _ _ _ => by rw [h.disk], by rw [h.disk], by rw [h.disk], h.free, h.next⟩

theorem Unchanged.trans (h : Unchanged fsi v v1) (h' : Unchanged fsi v1 v2) : Unchanged fsi v v2 :=
  ⟨fun k hk c hc => (h'.fat k hk c hc).trans (h.fat k hk c hc), h'.diskFree.trans h.diskFree,
    h'.diskNext.trans h.diskNext, h'.free.trans h.free, h'.next.trans h.next⟩

theorem Atomic.of_ok {α : Type} {m : FsM α} {a : α} (h : m v = (.ok a, u)) : Atomic fsi m v := by
  intro e he
  rw [h] at he
  exact nomatch he

theorem atomic_err {α : Type} {m : FsM α} (h : m v = (.err e, u)) :
    Atomic fsi m v ↔ Unchanged fsi v u := by
  unfold Atomic
  rw [h]
  exact ⟨fun h => h e rfl, fun h _ _ => h⟩

/-- An entry of the first copy that is not what it was. -/
theorem not_unchanged (hg : Geometry fsi) (hc : c ≤ fsi.clusterCount + 1)
    (h : fatCopy fsi u.disk 0 c ≠ fatCopy fsi v.disk 0 c) : ¬ Unchanged fsi v u :=
  fun hu => h (hu.fat 0 hg.numFats c hc)

/-- FSInfo does not change with the FAT. -/
theorem FatSet.info (hg : Geometry fsi) {x : Nat} {d d' : Nat → UInt8} (h : FatSet fsi c x d d')
    (hc : InRange fsi c) {o : Nat} (ho : o + 4 ≤ 512) :
    rle32 d' (512 * fsi.fsinfoSector + o) = rle32 d (512 * fsi.fsinfoSector + o) := by
  refine rle32_congr fun i hi => h.frame _ fun k hk => ?_
  have := fatAddr_area hg hk hc.2
  have := hg.infoFat
  omega

/-- A cluster that was free, was marked and is free again. -/
theorem unchanged_of_undo (hg : Geometry fsi) (hcopies : ∀ k < fsi.numFats,
    ∀ c ≤ fsi.clusterCount + 1, fatCopy fsi v.disk k c = fatCopy fsi v.disk 0 c)
    (hr : InRange fsi r) (hfree : (view fsi v.disk).fat r = 0)
    (h1 : FatSet fsi r clusterEoc v.disk v1.disk) (h2 : FatSet fsi r clusterFree v1.disk v2.disk)
    (hfc : v2.freeCount = v.freeCount) (hnf : v2.nextFree = v.nextFree) : Unchanged fsi v v2 := by
  refine ⟨fun k hk c hc => ?_, ?_, ?_, hfc, hnf⟩
  · rw [h2.copy hg hr hk hc, h1.copy hg hr hk hc]
    split
    · rename_i heq
      rw [heq, hcopies k hk r hr.2, ← view_fat hr, hfree]
      rfl
    · rfl
  · rw [h2.info hg hr (by decide), h1.info hg hr (by decide)]
  · rw [h2.info hg hr (by decide), h1.info hg hr (by decide)]

/-! ## The steps of an allocation -/

section Steps

variable (hcount : ¬ (v.freeCount = 0 ∨ v.freeCount = 0xFFFFFFFF))
include hcount

theorem allocateCluster_searchErr (h : searchFree fsi (searchStart fsi v.nextFree) fsi.clusterCount
    (searchStart fsi v.nextFree) v = (.err e, u)) : allocateCluster fsi p fl v = (.err e, u) := by
  unfold searchStart at h
  simp only [allocateCluster, get_bind_run, if_neg hcount]
  exact bind_err h

variable (hsearch : searchFree fsi (searchStart fsi v.nextFree) fsi.clusterCount
  (searchStart fsi v.nextFree) v = (.ok r, v1))
include hsearch

theorem allocateCluster_markErr (h : rmwCluster fsi r (some clusterEoc) v1 = (.err e, u)) :
    allocateCluster fsi p fl v = (.err e, u) := by
  unfold searchStart at hsearch
  simp only [allocateCluster, get_bind_run, if_neg hcount]
  rw [bind_ok hsearch]
  exact bind_err h

variable {x : Nat} (hmark : rmwCluster fsi r (some clusterEoc) v1 = (.ok x, v2))
include hmark

/-- The mark is taken back. -/
theorem allocateCluster_linkErr (hp : p ≠ 0) (h : rmwCluster fsi p (some r) v2 = (.err e, u))
    {y : Nat} (hundo : rmwCluster fsi r (some clusterFree) u = (.ok y, v3)) :
    allocateCluster fsi p fl v = (.err e, v3) := by
  unfold searchStart at hsearch
  simp only [allocateCluster, get_bind_run, if_neg hcount]
  rw [bind_ok hsearch, bind_ok hmark, if_pos hp, bind_ok (attempt_err h)]
  simp only
  rw [bind_ok (attempt_ok hundo)]
  rfl

variable {y : Nat} (hlink : (if p ≠ 0 then attempt (rmwCluster fsi p (some r)) else pure (.ok 0)) v2 =
  (.ok (.ok y), v3))
include hlink

theorem allocateCluster_infoErr (h : bread fsi fsi.fsinfoSector 1 v3 = (.err e, u)) :
    allocateCluster fsi p fl v = (.err e, u) := by
  unfold searchStart at hsearch
  simp only [allocateCluster, get_bind_run, if_neg hcount]
  rw [bind_ok hsearch, bind_ok hmark, bind_ok hlink]
  exact bind_err h

/-- Behind the last read nothing fails. -/
theorem allocateCluster_infoOk (hg : Geometry fsi) (hr : InRange fsi r) {b : Buf}
    (h : bread fsi fsi.fsinfoSector 1 v3 = (.ok b, u)) :
    ∃ v', allocateCluster fsi p fl v = (.ok r, v') := by
  unfold searchStart at hsearch
  simp only [allocateCluster, get_bind_run, if_neg hcount]
  rw [bind_ok hsearch, bind_ok hmark, bind_ok hlink]
  simp only
  rw [bind_ok h]
  obtain ⟨v4, e4, -⟩ := bdwrite_ok b.sector b.nblk (wle32 (if u32 (r + 1) > maxCluster fsi then clusterMin
    else u32 (r + 1)) (wle32 (sub32 v.freeCount 1) b.data fsinfoFreeCount) fsinfoNextFree) u
  rw [bind_ok e4, modify_bind_run]
  by_cases hclear : fl.clear = true
  · obtain ⟨v5, e5, -⟩ := clearCluster_ok hg hr { v4 with
      freeCount := sub32 v.freeCount 1
      nextFree := if u32 (r + 1) > maxCluster fsi then clusterMin else u32 (r + 1) }
    exact ⟨v5, by rw [if_pos hclear, bind_ok e5]; rfl⟩
  · exact ⟨_, by rw [if_neg hclear]; rfl⟩

end Steps

/-! ## Every read that can fail -/

theorem FirstFree.unique {fat : Nat → Nat} {start r' : Nat} (hs : InRange fsi start)
    (h : FirstFree fsi fat start r) (h' : FirstFree fsi fat start r') : r = r' :=
  cyclicDist_inj hs h.inRange h'.inRange
    (Nat.le_antisymm (h.first r' h'.inRange h'.free) (h'.first r h.inRange h.free))

/-- An allocation that searches and finds `r`. -/
theorem allocateCluster_atomic_iff (hk : Reliable fsi.kernel) (hg : Geometry fsi)
    (hcopies : ∀ k < fsi.numFats, ∀ c ≤ fsi.clusterCount + 1,
      fatCopy fsi v.disk k c = fatCopy fsi v.disk 0 c)
    (hp : p = 0 ∨ fatFin fsi (view fsi v.disk).fat p)
    (hcount : ¬ (v.freeCount = 0 ∨ v.freeCount = 0xFFFFFFFF))
    (hfirst : FirstFree fsi (view fsi v.disk).fat (searchStart fsi v.nextFree) r) {m : Nat}
    (hm : m = v.reads + cyclicDist fsi (searchStart fsi v.nextFree) r + 1) :
    Atomic fsi (allocateCluster (fsi.failAt j e) p fl) v ↔
      j ≤ m ∨ p ≠ 0 ∧ j = m + fsi.numFats ∨
        m + fsi.numFats + (if p = 0 then 0 else fsi.numFats) < j := by
  have hpos : 0 < fsi.clusterCount := by
    have h2 := hfirst.inRange.1
    have hle := hfirst.inRange.2
    omega
  have hs := searchStart_inRange hg hpos v.nextFree
  have hr := hfirst.inRange
  have hnumFats := hg.numFats
  -- the run of the search on a device that answers
  obtain ⟨v1, s1, hsearch⟩ : ∃ v1, Same v v1 ∧ searchFree fsi (searchStart fsi v.nextFree)
      fsi.clusterCount (searchStart fsi v.nextFree) v = (.ok r, v1) := by
    obtain ⟨v1, s1, ⟨r', h, hr'⟩ | ⟨-, hall⟩⟩ := searchFree_first hk hg hs fsi.clusterCount (v := v) hs
      (by rw [cyclicDist_self, Nat.add_zero]) fun e _ hlt => by
        rw [cyclicDist_self] at hlt
        exact absurd hlt (Nat.not_lt_zero _)
    · exact ⟨v1, s1, by rw [hfirst.unique hs hr', h]⟩
    · exact absurd hfirst.free (hall r hr)
  have hv1 : v1.reads = m := by
    have h := searchFree_reads hk hg hs fsi.clusterCount (v := v) (r := r) hs (by rw [hsearch])
    rw [hsearch, cyclicDist_self, Nat.add_zero] at h
    exact h.trans hm.symm
  rcases (searchFree_interrupted (j := j) (e := e) hk (searchStart fsi v.nextFree) fsi.clusterCount
    (searchStart fsi v.nextFree) v).cases with ⟨u, hu, -, hhi, -⟩ | ⟨hu, hj⟩
  · -- a read of the search
    rw [hsearch] at hhi
    have hhi : j < v1.reads := hhi
    have hsame := (@searchFree_quiet (fsi.failAt j e) (searchStart fsi v.nextFree)
      fsi.clusterCount (searchStart fsi v.nextFree) v).same
    rw [hu] at hsame
    rw [atomic_err (allocateCluster_searchErr hcount hu)]
    exact ⟨fun _ => .inl (by omega), fun _ => Same.unchanged hsame⟩
  rw [hsearch] at hu hj
  have hj : j < v.reads ∨ v1.reads ≤ j := hj
  rcases rmwCluster_failAt (j := j) (e := e) hk hg hr clusterEoc v1 with
    ⟨hj2, x, v2, hmark, set2, hf2, hn2, hv2⟩ | ⟨hj2, v2, hmark, s2, -⟩ |
    ⟨⟨hlo, hhi⟩, v2, hmark, torn2, -⟩
  · rw [s1.disk] at set2
    have hne : (view fsi v.disk).fat r ≠ clusterEoc % 2 ^ 28 := by
      rw [hfirst.free]
      decide
    -- behind the link, nothing is undone
    have info {y : Nat} {w : Vol} (hlink : (if p ≠ 0 then attempt (rmwCluster (fsi.failAt j e) p (some r))
          else pure (.ok 0)) v2 = (.ok (.ok y), w))
        (hchanged : fatCopy fsi w.disk 0 r ≠ fatCopy fsi v.disk 0 r) :
        Atomic fsi (allocateCluster (fsi.failAt j e) p fl) v ↔ j ≠ w.reads := by
      obtain ⟨u, su, ⟨x, he, h⟩ | ⟨hnone, h⟩⟩ := bread_cases (fsi.failAt j e) fsi.fsinfoSector 1 w
      · rw [atomic_err (allocateCluster_infoErr hcount hu hmark hlink h)]
        rw [failAt_readErr] at he
        refine ⟨fun h => absurd h (not_unchanged hg hr.2 ?_), fun h => absurd he.1.symm h⟩
        rwa [su.disk]
      · obtain ⟨v', h'⟩ : ∃ v', allocateCluster (fsi.failAt j e) p fl v = (.ok r, v') :=
          allocateCluster_infoOk hcount hu hmark hlink (hg.failAt j e) hr h
        exact ⟨fun _ heq => failAt_ne hnone heq.symm, fun _ => Atomic.of_ok h'⟩
    by_cases hp0 : p = 0
    · rw [if_pos hp0]
      have h := info (y := 0) (w := v2) (by rw [if_neg (not_not.mpr hp0)]; rfl) (by
        rw [set2.copy hg hr hg.numFats hr.2, if_pos rfl, ← view_fat hr]
        exact hne.symm)
      rw [h]
      constructor <;> omega
    · rw [if_neg hp0]
      obtain ⟨hpr, hpend⟩ := hp.resolve_left hp0
      have hne' : p ≠ r := by
        rintro rfl
        rw [hfirst.free] at hpend
        exact absurd hpend (by decide)
      -- after a failing link no read fails
      have undo {u : Vol} (h : j < u.reads) : ∃ y v4,
          rmwCluster (fsi.failAt j e) r (some clusterFree) u = (.ok y, v4) ∧
            FatSet fsi r clusterFree u.disk v4.disk ∧ v4.freeCount = u.freeCount ∧
            v4.nextFree = u.nextFree := by
        rcases rmwCluster_failAt (j := j) (e := e) hk hg hr clusterFree u with
          ⟨-, y, v4, h4, set4, hf4, hn4, -⟩ | ⟨heq, -⟩ | ⟨⟨hlt, -⟩, -⟩
        · exact ⟨y, v4, h4, set4, hf4, hn4⟩
        · omega
        · omega
      rcases rmwCluster_failAt (j := j) (e := e) hk hg hpr r v2 with
        ⟨hj3, y, v3, hlink, set3, -, -, hv3⟩ | ⟨hj3, u, hlink, s3, hlt⟩ |
        ⟨⟨hlo, hhi⟩, u, hlink, torn3, -, -, hlt⟩
      · have h := info (y := y) (w := v3) (by rw [if_pos hp0, attempt_ok hlink]) (by
          rw [set3.copy hg hpr hg.numFats hr.2, if_neg hne'.symm, set2.copy hg hr hg.numFats hr.2,
            if_pos rfl, ← view_fat hr]
          exact hne.symm)
        rw [h]
        constructor <;> omega
      · obtain ⟨y, v4, hundo, set4, hf4, hn4⟩ := undo hlt
        rw [atomic_err (allocateCluster_linkErr hcount hu hmark hp0 hlink hundo)]
        refine ⟨fun _ => .inr (.inl ⟨hp0, by omega⟩), fun _ => ?_⟩
        rw [s3.disk] at set4
        exact unchanged_of_undo hg hcopies hr hfirst.free set2 set4
          (hf4.trans (s3.free.trans (hf2.trans s1.free))) (hn4.trans (s3.next.trans (hn2.trans s1.next)))
      · obtain ⟨y, v4, hundo, set4, -, -⟩ := undo hlt
        rw [atomic_err (allocateCluster_linkErr hcount hu hmark hp0 hlink hundo)]
        refine ⟨fun h => absurd h (not_unchanged hg hpr.2 ?_), fun _ => by omega⟩
        -- the first copy links to the cluster that was given back
        rw [set4.copy hg hr hg.numFats hpr.2, if_neg hne', torn3.copy hg hpr hpr.2, if_pos rfl,
          ← view_fat hpr]
        have hcnt := hg.count
        have hle := hr.2
        simp only [clusterBad, clusterEocMin] at hcnt hpend
        omega
  · rw [atomic_err (allocateCluster_markErr hcount hu hmark)]
    exact ⟨fun _ => .inl (by omega), fun _ => (s1.trans s2).unchanged⟩
  · -- the mark is in some copies only
    rw [atomic_err (allocateCluster_markErr hcount hu hmark)]
    refine ⟨fun h => absurd h (not_unchanged hg hr.2 ?_), fun h => ?_⟩
    · rw [torn2.copy hg hr hr.2, if_pos rfl, ← view_fat hr, hfirst.free]
      decide
    · have hno : ¬ (j ≤ m ∨ p ≠ 0 ∧ j = m + fsi.numFats ∨
          m + fsi.numFats + (if p = 0 then 0 else fsi.numFats) < j) := by
        split <;> omega
      exact absurd h hno

/-- An allocation, when there is a free cluster or not. -/
theorem allocateCluster_atomic (hk : Reliable fsi.kernel) (hg : Geometry fsi)
    (hcopies : ∀ k < fsi.numFats, ∀ c ≤ fsi.clusterCount + 1,
      fatCopy fsi v.disk k c = fatCopy fsi v.disk 0 c)
    (hp : p = 0 ∨ fatFin fsi (view fsi v.disk).fat p) :
    Atomic fsi (allocateCluster (fsi.failAt j e) p fl) v ↔
      v.freeCount = 0 ∨ v.freeCount = 0xFFFFFFFF ∨
        ∀ r, FirstFree fsi (view fsi v.disk).fat (searchStart fsi v.nextFree) r → ∀ m,
          m = v.reads + cyclicDist fsi (searchStart fsi v.nextFree) r + 1 →
          j ≤ m ∨ p ≠ 0 ∧ j = m + fsi.numFats ∨
            m + fsi.numFats + (if p = 0 then 0 else fsi.numFats) < j := by
  by_cases hcount : v.freeCount = 0 ∨ v.freeCount = 0xFFFFFFFF
  · have h : allocateCluster (fsi.failAt j e) p fl v = (.err .enospc, v) := by
      simp only [allocateCluster, get_bind_run, if_pos hcount]
      rfl
    rw [atomic_err h]
    exact ⟨fun _ => hcount.elim .inl fun h => .inr (.inl h), fun _ => (Same.refl v).unchanged⟩
  by_cases hfree : ∃ r, FirstFree fsi (view fsi v.disk).fat (searchStart fsi v.nextFree) r
  · obtain ⟨r, hr⟩ := hfree
    have hpos : 0 < fsi.clusterCount := by
      have h2 := hr.inRange.1
      have hle := hr.inRange.2
      omega
    rw [allocateCluster_atomic_iff hk hg hcopies hp hcount hr rfl]
    refine ⟨fun h => .inr (.inr fun r' hr' m hm => ?_), fun h => ?_⟩
    · rw [hm, hr'.unique (searchStart_inRange hg hpos _) hr]
      exact h
    · exact ((h.resolve_left fun h => hcount (.inl h)).resolve_left fun h => hcount (.inr h)) r hr _ rfl
  · -- the search ends without a result, or with the error of the device
    have herr : ∃ x u, allocateCluster (fsi.failAt j e) p fl v = (.err x, u) ∧ Same v u := by
      have hquiet := (@searchFree_quiet (fsi.failAt j e) (searchStart fsi v.nextFree)
        fsi.clusterCount (searchStart fsi v.nextFree) v).same
      rcases (searchFree_interrupted (j := j) (e := e) hk (searchStart fsi v.nextFree) fsi.clusterCount
        (searchStart fsi v.nextFree) v).cases with ⟨u, hu, -⟩ | ⟨hu, -⟩
      · rw [hu] at hquiet
        exact ⟨e, u, allocateCluster_searchErr hcount hu, hquiet⟩
      · obtain ⟨u, su, hsearch⟩ : ∃ u, Same v u ∧ searchFree fsi (searchStart fsi v.nextFree)
            fsi.clusterCount (searchStart fsi v.nextFree) v = (.err .enospc, u) := by
          rcases Nat.eq_zero_or_pos fsi.clusterCount with hz | hpos
          · rw [hz]
            exact ⟨v, .refl v, rfl⟩
          · have hs := searchStart_inRange hg hpos v.nextFree
            obtain ⟨u, su, ⟨r, -, hr⟩ | ⟨h, -⟩⟩ := searchFree_first hk hg hs fsi.clusterCount (v := v) hs
              (by rw [cyclicDist_self, Nat.add_zero]) fun e _ hlt => by
                rw [cyclicDist_self] at hlt
                exact absurd hlt (Nat.not_lt_zero _)
            · exact absurd ⟨r, hr⟩ hfree
            · exact ⟨u, su, h⟩
        exact ⟨.enospc, u, allocateCluster_searchErr hcount (hu.trans hsearch), su⟩
    obtain ⟨x, u, h, su⟩ := herr
    rw [atomic_err h]
    exact ⟨fun _ => .inr (.inr fun r hr => absurd ⟨r, hr⟩ hfree), fun _ => su.unchanged⟩

/-- A failing read leaves no trace just where `HarmlessRead` says. -/
theorem nextCluster_atomic_iff (hk : Reliable fsi.kernel) (hg : Geometry fsi) (hfl : fl.alloc = true)
    (hcopies : ∀ k < fsi.numFats, ∀ c ≤ fsi.clusterCount + 1,
      fatCopy fsi v.disk k c = fatCopy fsi v.disk 0 c)
    (hc : c = 0 ∨ fatFin fsi (view fsi v.disk).fat c) :
    Atomic fsi (nextCluster (fsi.failAt j e) c fl) v ↔ HarmlessRead fsi v c j := by
  unfold HarmlessRead markRead
  by_cases h0 : c = 0
  · have h : Atomic fsi (nextCluster (fsi.failAt j e) c fl) v ↔
        Atomic fsi (allocateCluster (fsi.failAt j e) c fl) v := by
      unfold Atomic
      rw [h0, nextCluster_zero hfl]
    rw [h, allocateCluster_atomic hk hg hcopies hc]
    simp only [if_pos h0, Nat.add_zero]
    refine or_congr Iff.rfl (or_congr Iff.rfl (forall₂_congr fun r _ => ?_))
    exact forall_eq
  · obtain ⟨hcr, hend⟩ := hc.resolve_left h0
    obtain ⟨v1, e1, s1⟩ := rmwCluster_read hk hg hcr v
    have hv1 : v1.reads = v.reads + 1 := by
      rw [← rmwCluster_read_reads hk hg hcr v, e1]
    have hout : ¬ (c < clusterMin ∨ c > maxCluster (fsi.failAt j e)) := hcr.not_outside hg
    rcases (rmwCluster_interrupted (j := j) (e := e) hk c none v).cases with ⟨u, hu, -, hhi, -⟩ | ⟨hu, hj⟩
    · -- the read of the entry of `c`
      have h : nextCluster (fsi.failAt j e) c fl v = (.err e, u) := by
        rw [nextCluster, if_neg h0, if_neg hout]
        exact bind_err hu
      have hsame := (@rmwCluster_quiet (fsi.failAt j e) c v).same
      rw [hu] at hsame
      rw [e1] at hhi
      have hhi : j < v1.reads := hhi
      rw [atomic_err h]
      refine ⟨fun _ => .inr (.inr fun r _ => .inl ?_), fun _ => Same.unchanged hsame⟩
      rw [if_neg h0]
      omega
    · rw [e1] at hu
      have h : nextCluster (fsi.failAt j e) c fl v = allocateCluster (fsi.failAt j e) c fl v1 := by
        rw [nextCluster, if_neg h0, if_neg hout, bind_ok hu, if_pos hend, hfl, if_neg (by decide)]
      have hatomic : Atomic fsi (nextCluster (fsi.failAt j e) c fl) v ↔
          Atomic fsi (allocateCluster (fsi.failAt j e) c fl) v1 := by
        unfold Atomic
        rw [h]
        exact forall₂_congr fun _ _ => ⟨s1.symm.unchanged.trans, s1.unchanged.trans⟩
      rw [hatomic, allocateCluster_atomic hk hg (by rw [s1.disk]; exact hcopies) (by
        rw [s1.disk]
        exact hc), s1.free, s1.next, s1.disk, hv1]
      simp only [if_neg h0]
      refine or_congr Iff.rfl (or_congr Iff.rfl (forall₂_congr fun r _ => ?_))
      exact forall_eq

/-- The read of the first entry fails. -/
theorem nextCluster_atomic_first :
    Atomic (small 2) (nextCluster ((small 2).failAt 0 .eio) 0 { alloc := true })
      (image [0, 0] fun _ => []) :=
  (@nextCluster_atomic_iff (small 2) 0 .eio 0 { alloc := true } (image [0, 0] fun _ => [])
    ⟨fun _ => rfl⟩ small_geometry rfl (fun k hk c _ => by
      rw [Nat.lt_one_iff.mp hk]) (.inl rfl)).mpr (.inr (.inr fun _ _ => .inl (Nat.zero_le _)))

/-- The read of FSInfo fails: the call ends with the error, and the cluster stays marked. -/
theorem infoRead_not_atomic :
    (nextCluster ((small 2).failAt 2 .eio) 0 { alloc := true } (image [0, 0] fun _ => [])).1 = .err .eio ∧
    fatCopy (small 2) (image [0, 0] fun _ => []).disk 0 2 = 0 ∧
    fatCopy (small 2) (nextCluster ((small 2).failAt 2 .eio) 0 { alloc := true }
      (image [0, 0] fun _ => [])).2.disk 0 2 = clusterEoc ∧
    ¬ Atomic (small 2) (nextCluster ((small 2).failAt 2 .eio) 0 { alloc := true })
      (image [0, 0] fun _ => []) := by
  have hend : (nextCluster ((small 2).failAt 2 .eio) 0 { alloc := true }
      (image [0, 0] fun _ => [])).1 = .err .eio := by decide +kernel
  have hbefore : fatCopy (small 2) (image [0, 0] fun _ => []).disk 0 2 = 0 := by decide +kernel
  have hafter : fatCopy (small 2) (nextCluster ((small 2).failAt 2 .eio) 0 { alloc := true }
      (image [0, 0] fun _ => [])).2.disk 0 2 = clusterEoc := by decide +kernel
  refine ⟨hend, hbefore, hafter, fun h => ?_⟩
  have hsame := (h .eio hend).fat 0 (by decide) 2 (by decide)
  rw [hbefore, hafter] at hsame
  exact absurd hsame (by decide)

end Fat32
