import Mathlib
import Fat32.Lib.Linked
import Fat32.Proof.Fat

/-!
# Links and allocation

The FAT of a view as linked cells (`fatNext`, `fatFin`), what `nextCluster` does
at each kind of cell, and what `allocateCluster` does: on a device that answers
it either changes nothing and reports that there is no space, or takes a free
cluster `r` (`Allocated`).
-/

namespace Fat32

open Bytes Exec Prog Linked

/-- The link of a cluster, if its entry is one. -/
def fatNext (fsi : Fsi) (fat : Nat → Nat) (c : Nat) : Option Nat :=
  if InRange fsi c ∧ InRange fsi (fat c) then some (fat c) else none

/-- The entry of the cluster is an end mark. -/
def fatFin (fsi : Fsi) (fat : Nat → Nat) (c : Nat) : Prop :=
  InRange fsi c ∧ clusterEocMin ≤ fat c

/-- The clusters of the chain from `a`. -/
abbrev FatChain (fsi : Fsi) (fat : Nat → Nat) : Nat → List Nat → Prop :=
  Chain (fatNext fsi fat) (fatFin fsi fat)

variable {fsi : Fsi} {fat : Nat → Nat}

theorem fatEnds (hg : Geometry fsi) (fat : Nat → Nat) : Ends (fatNext fsi fat) (fatFin fsi fat) := by
  intro a h
  have hcnt := hg.count
  have h2 := h.2
  simp only [clusterBad] at hcnt
  simp only [clusterEocMin] at h2
  rw [fatNext, if_neg]
  intro hr
  have := hr.2.2
  omega

theorem fatNext_some {c d : Nat} :
    fatNext fsi fat c = some d ↔ InRange fsi c ∧ InRange fsi d ∧ fat c = d := by
  rw [fatNext]
  split
  · rename_i h
    rw [Option.some_inj]
    exact ⟨fun e => ⟨h.1, e ▸ h.2, e⟩, fun e => e.2.2⟩
  · rename_i h
    exact ⟨fun e => (by cases e), fun e => absurd ⟨e.1, e.2.2.symm ▸ e.2.1⟩ h⟩

theorem FatChain.inRange {a : Nat} {l : List Nat} (h : FatChain fsi fat a l) :
    ∀ c ∈ l, InRange fsi c := by
  induction h with
  | last h => intro c hc; rw [List.mem_singleton.mp hc]; exact h.1
  | link h _ ih =>
    intro c hc
    rcases List.mem_cons.mp hc with rfl | hc
    · exact (fatNext_some.mp h).1
    · exact ih c hc

/-- No cluster of a chain is free. -/
theorem FatChain.ne_zero {a : Nat} {l : List Nat} (h : FatChain fsi fat a l) :
    ∀ c ∈ l, fat c ≠ 0 := by
  induction h with
  | last h =>
    intro c hc
    have := h.2
    simp only [clusterEocMin] at this
    rw [List.mem_singleton.mp hc]; omega
  | link h _ ih =>
    intro c hc
    rcases List.mem_cons.mp hc with rfl | hc
    · obtain ⟨-, hr, e⟩ := fatNext_some.mp h
      rw [e]; have := hr.1; omega
    · exact ih c hc

theorem fatNext_congr {fat' : Nat → Nat} {c : Nat} (h : fat' c = fat c) :
    fatNext fsi fat' c = fatNext fsi fat c := by
  simp only [fatNext, h]

theorem fatFin_congr {fat' : Nat → Nat} {c : Nat} (h : fat' c = fat c) :
    fatFin fsi fat c → fatFin fsi fat' c := by
  simp only [fatFin, h]; exact id

theorem FatChain.congr {fat' : Nat → Nat} {a : Nat} {l : List Nat} (h : FatChain fsi fat a l)
    (hf : ∀ c ∈ l, fat' c = fat c) : FatChain fsi fat' a l :=
  Chain.congr h (fun c hc => fatNext_congr (hf c hc)) fun c hc => fatFin_congr (hf c hc)

/-! ## The next cluster -/

variable {v : Vol} {c d : Nat} {fl : NcFlags}

/-- The entry that `nextCluster` reads. -/
theorem nextCluster_eq (hk : Reliable fsi.kernel) (hg : Geometry fsi) (hc : InRange fsi c)
    (fl : NcFlags) (v : Vol) : ∃ v', Same v v' ∧ nextCluster fsi c fl v =
      (if (view fsi v.disk).fat c ≥ clusterEocMin then
        if ¬ fl.alloc then fail .enospc else allocateCluster fsi c fl
      else if InRange fsi ((view fsi v.disk).fat c) then pure ((view fsi v.disk).fat c)
      else fail .eio) v' := by
  obtain ⟨v', e, s⟩ := rmwCluster_read hk hg hc v
  refine ⟨v', s, ?_⟩
  have hc0 : c ≠ 0 := by have := hc.1; omega
  have hcnt := hg.count
  simp only [clusterBad] at hcnt
  rw [nextCluster, if_neg hc0, if_neg (hc.not_outside hg), bind_ok e]
  by_cases h1 : (view fsi v.disk).fat c ≥ clusterEocMin
  · rw [if_pos h1, if_pos h1]
  · rw [if_neg h1, if_neg h1]
    by_cases h2 : InRange fsi ((view fsi v.disk).fat c)
    · have hlt := h2.2
      have hge := h2.1
      rw [if_neg (by simp only [clusterBad]; omega), if_neg (by simp only [clusterFree]; omega),
        if_neg (h2.not_outside hg), if_pos h2]
    · have h3 : (view fsi v.disk).fat c < clusterMin ∨
          (view fsi v.disk).fat c > maxCluster fsi := by
        rw [inRange_iff hg] at h2; exact not_not.mp h2
      simp only [if_neg h2, if_pos h3, ite_self]

/-- Following a link. -/
theorem nextCluster_link (hk : Reliable fsi.kernel) (hg : Geometry fsi)
    (h : fatNext fsi (view fsi v.disk).fat c = some d) (fl : NcFlags) :
    ∃ v', nextCluster fsi c fl v = (.ok d, v') ∧ Same v v' := by
  obtain ⟨hc, hd, rfl⟩ := fatNext_some.mp h
  obtain ⟨v', s, e⟩ := nextCluster_eq hk hg hc fl v
  have hcnt := hg.count
  have hdle := hd.2
  simp only [clusterBad] at hcnt
  rw [if_neg (by simp only [clusterEocMin]; omega), if_pos hd] at e
  exact ⟨v', e, s⟩

/-- The end of a chain, without `NC_ALLOC`. -/
theorem nextCluster_fin (hk : Reliable fsi.kernel) (hg : Geometry fsi)
    (h : fatFin fsi (view fsi v.disk).fat c) (hfl : fl.alloc = false) :
    ∃ v', nextCluster fsi c fl v = (.err .enospc, v') ∧ Same v v' := by
  obtain ⟨v', s, e⟩ := nextCluster_eq hk hg h.1 fl v
  rw [if_pos h.2, hfl, if_pos (by decide)] at e
  exact ⟨v', e, s⟩

/-- A cluster whose entry is neither a link nor an end mark. -/
theorem nextCluster_broken (hk : Reliable fsi.kernel) (hg : Geometry fsi) (hc : InRange fsi c)
    (h : fatNext fsi (view fsi v.disk).fat c = none) (hf : ¬ fatFin fsi (view fsi v.disk).fat c)
    (fl : NcFlags) : ∃ v', nextCluster fsi c fl v = (.err .eio, v') ∧ Same v v' := by
  obtain ⟨v', s, e⟩ := nextCluster_eq hk hg hc fl v
  rw [if_neg (fun h' => hf ⟨hc, h'⟩), if_neg] at e
  · exact ⟨v', e, s⟩
  · intro h'
    rw [fatNext, if_pos ⟨hc, h'⟩] at h
    cases h

/-- The end of a chain, with `NC_ALLOC`. -/
theorem nextCluster_append (hk : Reliable fsi.kernel) (hg : Geometry fsi)
    (h : fatFin fsi (view fsi v.disk).fat c) (hfl : fl.alloc = true) :
    ∃ v', Same v v' ∧ nextCluster fsi c fl v = allocateCluster fsi c fl v' := by
  obtain ⟨v', s, e⟩ := nextCluster_eq hk hg h.1 fl v
  rw [if_pos h.2, hfl, if_neg (by decide)] at e
  exact ⟨v', s, e⟩

theorem nextCluster_zero (hfl : fl.alloc = true) :
    nextCluster fsi 0 fl v = allocateCluster fsi 0 fl v := by
  rw [nextCluster, if_pos rfl, hfl, if_neg (by decide)]

theorem nextCluster_zero_refused (hfl : fl.alloc = false) :
    nextCluster fsi 0 fl v = (.err .einval, v) := by
  rw [nextCluster, if_pos rfl, hfl, if_pos (by decide)]
  rfl

/-- A cluster that no link leaves, without `NC_ALLOC`. -/
theorem nextCluster_none (hk : Reliable fsi.kernel) (hg : Geometry fsi) (hfl : fl.alloc = false)
    (h : fatNext fsi (view fsi v.disk).fat c = none) :
    ∃ e v', nextCluster fsi c fl v = (.err e, v') ∧ Same v v' := by
  by_cases hc : InRange fsi c
  · by_cases hf : fatFin fsi (view fsi v.disk).fat c
    · exact ⟨_, nextCluster_fin hk hg hf hfl⟩
    · exact ⟨_, nextCluster_broken hk hg hc h hf fl⟩
  · by_cases h0 : c = 0
    · rw [h0]
      exact ⟨_, v, nextCluster_zero_refused hfl, .refl v⟩
    · rw [inRange_iff hg, not_not] at hc
      exact ⟨_, v, by rw [nextCluster, if_neg h0, if_pos hc]; rfl, .refl v⟩

/-! ## Allocation -/

/-- The FAT after cluster `r` was allocated and linked from `parent`. -/
def linkFat (fat : Nat → Nat) (parent r : Nat) : Nat → Nat :=
  if parent = 0 then Function.update fat r clusterEoc
  else Function.update (Function.update fat r clusterEoc) parent r

/-- What a successful allocation of `r` changed. -/
structure Allocated (fsi : Fsi) (parent r : Nat) (clear : Bool) (v v' : Vol) : Prop where
  inRange : InRange fsi r
  free : (view fsi v.disk).fat r = 0
  fat : (view fsi v'.disk).fat = linkFat (view fsi v.disk).fat parent r
  data : (view fsi v'.disk).data =
    if clear then Function.update (view fsi v.disk).data r (fun _ => 0) else (view fsi v.disk).data
  copies : ∀ k < fsi.numFats, ∀ e ≤ fsi.clusterCount + 1,
    fatCopy fsi v'.disk k e = linkFat (fatCopy fsi v.disk k) parent r e
  count : v.freeCount ≠ 0
  freeCount : v'.freeCount = sub32 v.freeCount 1
  info : rle32 v'.disk (512 * fsi.fsinfoSector + fsinfoFreeCount) = v'.freeCount

theorem linkFat_zero (fat : Nat → Nat) (r e : Nat) :
    linkFat fat 0 r e = if e = r then clusterEoc else fat e := by
  rw [linkFat, if_pos rfl, Function.update_apply]

theorem linkFat_ne (fat : Nat → Nat) {parent : Nat} (hp : parent ≠ 0) (r e : Nat) :
    linkFat fat parent r e = if e = parent then r else if e = r then clusterEoc else fat e := by
  rw [linkFat, if_neg hp, Function.update_apply, Function.update_apply]

theorem searchFree_ok (hk : Reliable fsi.kernel) (hg : Geometry fsi) (start : Nat) :
    ∀ (n c : Nat) (v : Vol), InRange fsi c → ∃ v', Same v v' ∧
      (searchFree fsi start n c v = (.err .enospc, v') ∨
        ∃ r, searchFree fsi start n c v = (.ok r, v') ∧ InRange fsi r ∧
          (view fsi v.disk).fat r = 0) := by
  intro n
  induction n with
  | zero => exact fun c v _ => ⟨v, Same.refl v, .inl rfl⟩
  | succ n ih =>
    intro c v hc
    obtain ⟨v1, e1, s1⟩ := rmwCluster_read hk hg hc v
    have hcnt := hg.count
    simp only [clusterBad] at hcnt
    obtain ⟨h2, hm⟩ := hc
    have hu : u32 (c + 1) = c + 1 := Nat.mod_eq_of_lt (by omega)
    rw [searchFree, bind_ok e1, hu, maxCluster_eq hg]
    by_cases hz : (view fsi v.disk).fat c = 0
    · rw [if_pos hz]
      exact ⟨v1, s1, .inr ⟨c, rfl, ⟨h2, hm⟩, hz⟩⟩
    · rw [if_neg hz]
      generalize hd : (if c + 1 > fsi.clusterCount + 1 then clusterMin else c + 1) = d
      have hd' : InRange fsi d := by
        rw [← hd, InRange]; simp only [clusterMin]; split <;> omega
      by_cases hs : d = start
      · simp only [if_pos hs]
        exact ⟨v1, s1, .inl rfl⟩
      · simp only [if_neg hs]
        obtain ⟨v2, s2, h⟩ := ih d v1 hd'
        rw [s1.disk] at h
        exact ⟨v2, s1.trans s2, h⟩

/-- The FAT copies do not change with the FSInfo sector. -/
theorem fatCopy_congr_info (hg : Geometry fsi) {d d' : Nat → UInt8}
    (h : ∀ a, a < 512 * fsi.fsinfoSector ∨ 512 * fsi.fsinfoSector + 512 ≤ a → d' a = d a)
    {k e : Nat} (hk : k < fsi.numFats) (he : e ≤ fsi.clusterCount + 1) :
    fatCopy fsi d' k e = fatCopy fsi d k e := by
  rw [fatCopy, fatCopy]
  congr 1
  refine rle32_congr fun i hi => h _ ?_
  have := fatAddr_area hg hk he; have := hg.infoFat
  omega

/-- The FAT copies and the FSInfo sector do not change with a cluster. -/
theorem DataSet.outside (hg : Geometry fsi) {f : Nat → UInt8} {d d' : Nat → UInt8}
    (h : DataSet fsi c f d d') (hc : InRange fsi c) {a : Nat}
    (ha : a < 512 * fsi.dataStart ∨
      512 * (fsi.dataStart + fsi.clusterCount * fsi.sectorsPerCluster) ≤ a) : d' a = d a := by
  have hb := bpc_pos hg
  have h1 := clusterAddr_area hg hc (o := 0) (by omega)
  have h2 := clusterAddr_area hg hc (o := fsi.bytesPerCluster - 1) (by omega)
  exact h.frame a (by omega)

theorem DataSet.fatCopy (hg : Geometry fsi) {f : Nat → UInt8} {d d' : Nat → UInt8}
    (h : DataSet fsi c f d d') (hc : InRange fsi c) {k e : Nat} (hk : k < fsi.numFats)
    (he : e ≤ fsi.clusterCount + 1) : fatCopy fsi d' k e = Fat32.fatCopy fsi d k e := by
  rw [Fat32.fatCopy, Fat32.fatCopy]
  congr 1
  refine rle32_congr fun i hi => h.outside hg hc ?_
  have := fatAddr_area hg hk he; have := hg.fatData
  omega

/-- The FSInfo update of `allocateCluster`. -/
theorem info_ok (hk : Reliable fsi.kernel) (hg : Geometry fsi) (x y : Nat) (v : Vol) :
    ∃ v1 v2, bread fsi fsi.fsinfoSector 1 v =
        (.ok ⟨fsi.fsinfoSector, 1, fun o => v.disk (512 * fsi.fsinfoSector + o)⟩, v1) ∧
      bdwrite ⟨fsi.fsinfoSector, 1, wle32 y (wle32 x
        (fun o => v.disk (512 * fsi.fsinfoSector + o)) fsinfoFreeCount) fsinfoNextFree⟩ v1 =
        (.ok (), v2) ∧
      view fsi v2.disk = view fsi v.disk ∧
      (∀ k < fsi.numFats, ∀ e ≤ fsi.clusterCount + 1,
        fatCopy fsi v2.disk k e = fatCopy fsi v.disk k e) ∧
      rle32 v2.disk (512 * fsi.fsinfoSector + fsinfoFreeCount) = u32 x := by
  obtain ⟨v1, e1, s1⟩ := bread_ok hk fsi.fsinfoSector 1 v
  obtain ⟨v2, e2, d2, -, -⟩ := bdwrite_ok fsi.fsinfoSector 1 (wle32 y (wle32 x
    (fun o => v.disk (512 * fsi.fsinfoSector + o)) fsinfoFreeCount) fsinfoNextFree) v1
  rw [s1.disk] at d2
  have frame (a) (ha : a < 512 * fsi.fsinfoSector ∨ 512 * fsi.fsinfoSector + 512 ≤ a) :
      v2.disk a = v.disk a := by
    rw [d2, poke_outside ha]
  have here (i) (hi : i < 4) : v2.disk (512 * fsi.fsinfoSector + fsinfoFreeCount + i) =
      byteOf x i := by
    simp only [wle32, fsinfoFreeCount, fsinfoNextFree] at d2 ⊢
    rw [d2, Nat.add_assoc, poke_inside (by omega), poke_outside (by omega), poke_inside hi]
  refine ⟨v1, v2, e1, e2, view_congr hg frame,
    fun k hk e he => fatCopy_congr_info hg frame hk he, ?_⟩
  rw [rle32, here 1 (by decide), here 2 (by decide), here 3 (by decide),
    show v2.disk (512 * fsi.fsinfoSector + fsinfoFreeCount) = byteOf x 0 from here 0 (by decide),
    le32_byteOf, u32]

theorem allocateCluster_ok (hk : Reliable fsi.kernel) (hg : Geometry fsi) {parent : Nat}
    (hp : parent = 0 ∨ InRange fsi parent ∧ (view fsi v.disk).fat parent ≠ 0) (fl : NcFlags) :
    ∃ v', (allocateCluster fsi parent fl v = (.err .enospc, v') ∧ Same v v') ∨
      ∃ r, allocateCluster fsi parent fl v = (.ok r, v') ∧ Allocated fsi parent r fl.clear v v' := by
  have hcnt := hg.count
  simp only [clusterBad] at hcnt
  simp only [allocateCluster, get_bind_run]
  by_cases h0 : v.freeCount = 0 ∨ v.freeCount = 0xFFFFFFFF
  · rw [if_pos h0]
    exact ⟨v, .inl ⟨rfl, Same.refl v⟩⟩
  rw [if_neg h0]
  generalize hst : (if v.nextFree < clusterMin ∨ v.nextFree > maxCluster fsi then clusterMin
    else v.nextFree) = start
  by_cases hne : fsi.clusterCount = 0
  · -- no clusters at all
    rw [hne]
    exact ⟨v, .inl ⟨rfl, Same.refl v⟩⟩
  have hstart : InRange fsi start := by
    rw [← hst]
    split
    · simp only [InRange, clusterMin]; omega
    · rename_i h; exact (inRange_iff hg _).mpr h
  obtain ⟨v1, s1, h1⟩ := searchFree_ok hk hg start fsi.clusterCount start v hstart
  rcases h1 with h1 | ⟨r, h1, hr, hz⟩
  · rw [bind_err h1]
    exact ⟨v1, .inl ⟨rfl, s1⟩⟩
  rw [bind_ok h1]
  obtain ⟨v2, e2, f2, c2, n2⟩ := rmwCluster_write hk hg hr clusterEoc v1
  rw [s1.disk] at f2 e2
  rw [bind_ok e2]
  have w2 := f2.view hg hr
  -- linking the parent
  have link : ∃ v3, (if parent ≠ 0 then attempt (rmwCluster fsi parent (some r))
        else pure (.ok 0)) v2 = (.ok (.ok (if parent ≠ 0 then (view fsi v2.disk).fat parent else 0)),
          v3) ∧ (view fsi v3.disk).fat = linkFat (view fsi v.disk).fat parent r ∧
        (view fsi v3.disk).data = (view fsi v.disk).data ∧
        (∀ k < fsi.numFats, ∀ e ≤ fsi.clusterCount + 1,
          fatCopy fsi v3.disk k e = linkFat (fatCopy fsi v.disk k) parent r e) := by
    rcases hp with rfl | ⟨hp, hpz⟩
    · refine ⟨v2, rfl, ?_, ?_, fun k hk e he => ?_⟩
      · rw [w2, linkFat, if_pos rfl]; rfl
      · rw [w2]; rfl
      · rw [f2.copy hg hr hk he, linkFat_zero]
        rfl
    · have hp0 : parent ≠ 0 := by have := hp.1; omega
      have hrlt : r % 2 ^ 28 = r := Nat.mod_eq_of_lt (by have := hr.2; omega)
      obtain ⟨v3, e3, f3, c3, n3⟩ := rmwCluster_write hk hg hp r v2
      have w3 := f3.view hg hp
      refine ⟨v3, ?_, ?_, ?_, fun k hk e he => ?_⟩
      · rw [if_pos hp0, if_pos hp0, attempt_ok e3]
      · rw [w3, w2, linkFat, if_neg hp0, hrlt]; rfl
      · rw [w3, w2]; rfl
      · rw [f3.copy hg hp hk he, f2.copy hg hr hk he, hrlt, linkFat_ne _ hp0]
        rfl
  obtain ⟨v3, e3, fat3, data3, copies3⟩ := link
  rw [bind_ok e3]
  simp only
  obtain ⟨v4, v5, e4, e5, w5, copies5, info5⟩ := info_ok hk hg (sub32 v.freeCount 1)
    (if u32 (r + 1) > maxCluster fsi then clusterMin else u32 (r + 1)) v3
  rw [bind_ok e4, bind_ok e5, modify_bind_run]
  have hsub : u32 (sub32 v.freeCount 1) = sub32 v.freeCount 1 := Nat.mod_mod _ _
  rw [hsub] at info5
  have hcount : v.freeCount ≠ 0 := fun h => h0 (.inl h)
  by_cases hcl : fl.clear = true
  · rw [if_pos hcl]
    obtain ⟨v6, e6, d6, c6, n6⟩ := clearCluster_ok hg hr
      { v5 with freeCount := sub32 v.freeCount 1,
                nextFree := if u32 (r + 1) > maxCluster fsi then clusterMin else u32 (r + 1) }
    have w6 := d6.view hg hr
    simp only [ite_self] at w6
    refine ⟨v6, .inr ⟨r, by rw [bind_ok e6]; rfl, hr, hz, ?_, ?_, fun k hk e he => ?_, hcount, c6, ?_⟩⟩
    · rw [w6, View.setData_fat, w5, fat3]
    · rw [w6, w5, if_pos hcl, ← data3]; rfl
    · rw [d6.fatCopy hg hr hk he, copies5 k hk e he, copies3 k hk e he]
    · rw [c6, ← info5]
      refine rle32_congr fun i hi => d6.outside hg hr ?_
      have := hg.infoData
      simp only [fsinfoFreeCount]; omega
  · rw [if_neg hcl]
    refine ⟨_, .inr ⟨r, rfl, hr, hz, ?_, ?_, fun k hk e he => ?_, hcount, rfl, info5⟩⟩
    · rw [w5, fat3]
    · rw [w5, if_neg hcl, data3]
    · rw [copies5 k hk e he, copies3 k hk e he]

end Fat32
