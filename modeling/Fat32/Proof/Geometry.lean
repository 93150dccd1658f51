import Mathlib
import Fat32.Impl.Cls

/-!
# Valid geometries and the two views of the disk

`Geometry` states what a usable volume looks like to the driver: 512-byte
blocks, clusters of a power of two of them, FAT copies with room for every
entry, and the FAT, the FSInfo sector and the data area apart. On such a volume
a disk is read as a `View`: the FAT as a map from clusters to entries, the data
area as a map from clusters to bytes. `FatSet` and `DataSet` say what a write to
the FAT or to a cluster changes, byte by byte; both are an update of the view.
-/

namespace Fat32

open Bytes Exec Prog

/-- A device that answers every request. -/
structure Reliable (k : Kernel) : Prop where
  read : ∀ n, k.readErr n = none

structure Geometry (fsi : Fsi) : Prop where
  sectorShift : fsi.sectorShift = 9
  sectorMask : fsi.sectorMask = 511
  spc : fsi.sectorsPerCluster = 2 ^ fsi.spcShift
  bpc : fsi.bytesPerCluster = 512 * fsi.sectorsPerCluster
  clusterShift : fsi.clusterShift = 9 + fsi.spcShift
  clusterMask : fsi.clusterMask = fsi.bytesPerCluster - 1
  count : fsi.clusterCount + 1 < clusterBad
  numFats : 1 ≤ fsi.numFats
  fatSize : 4 * (fsi.clusterCount + 2) ≤ 512 * fsi.fatSize
  fatEnd : fsi.fatStart + fsi.numFats * fsi.fatSize ≤ 2 ^ 32
  dataEnd : fsi.dataStart + fsi.clusterCount * fsi.sectorsPerCluster ≤ 2 ^ 32
  fatData : fsi.fatStart + fsi.numFats * fsi.fatSize ≤ fsi.dataStart ∨
    fsi.dataStart + fsi.clusterCount * fsi.sectorsPerCluster ≤ fsi.fatStart
  infoFat : fsi.fsinfoSector < fsi.fatStart ∨
    fsi.fatStart + fsi.numFats * fsi.fatSize ≤ fsi.fsinfoSector
  infoData : fsi.fsinfoSector < fsi.dataStart ∨
    fsi.dataStart + fsi.clusterCount * fsi.sectorsPerCluster ≤ fsi.fsinfoSector

/-- The clusters of the data area. -/
def InRange (fsi : Fsi) (c : Nat) : Prop := 2 ≤ c ∧ c ≤ fsi.clusterCount + 1

instance (fsi : Fsi) (c : Nat) : Decidable (InRange fsi c) :=
  inferInstanceAs (Decidable (_ ∧ _))

/-- Where copy `k` of the FAT has the entry of cluster `c`. -/
def fatAddr (fsi : Fsi) (k c : Nat) : Nat := 512 * (fsi.fatStart + k * fsi.fatSize) + 4 * c

/-- The entry of cluster `c` in copy `k` of the FAT. -/
def fatCopy (fsi : Fsi) (disk : Nat → UInt8) (k c : Nat) : Nat :=
  rle32 disk (fatAddr fsi k c) % 2 ^ 28

/-- Where cluster `c` starts. -/
def clusterAddr (fsi : Fsi) (c : Nat) : Nat :=
  512 * (fsi.dataStart + (c - 2) * fsi.sectorsPerCluster)

/-- What a disk says: the entries of the first FAT copy, and the bytes of the
clusters. Both are zero outside the data area. -/
@[ext] structure View where
  fat : Nat → Nat
  data : Nat → Nat → UInt8

def view (fsi : Fsi) (disk : Nat → UInt8) : View where
  fat c := if InRange fsi c then fatCopy fsi disk 0 c else 0
  data c o := if InRange fsi c ∧ o < fsi.bytesPerCluster then disk (clusterAddr fsi c + o) else 0

def View.setFat (w : View) (c x : Nat) : View := { w with fat := Function.update w.fat c x }

def View.setData (w : View) (c : Nat) (f : Nat → UInt8) : View :=
  { w with data := Function.update w.data c f }

@[simp] theorem View.setFat_data (w : View) (c x : Nat) : (w.setFat c x).data = w.data := rfl
@[simp] theorem View.setData_fat (w : View) (c : Nat) (f : Nat → UInt8) :
    (w.setData c f).fat = w.fat := rfl
@[simp] theorem View.setFat_same (w : View) (c x : Nat) : (w.setFat c x).fat c = x := by
  simp [View.setFat]
@[simp] theorem View.setData_same (w : View) (c : Nat) (f : Nat → UInt8) :
    (w.setData c f).data c = f := by
  simp [View.setData]

theorem View.setFat_ne (w : View) {c d : Nat} (x : Nat) (h : d ≠ c) :
    (w.setFat c x).fat d = w.fat d := by
  simp [View.setFat, h]

theorem View.setData_ne (w : View) {c d : Nat} (f : Nat → UInt8) (h : d ≠ c) :
    (w.setData c f).data d = w.data d := by
  simp [View.setData, h]

variable {fsi : Fsi}

theorem view_fat {disk : Nat → UInt8} {c : Nat} (h : InRange fsi c) :
    (view fsi disk).fat c = fatCopy fsi disk 0 c := if_pos h

theorem view_data {disk : Nat → UInt8} {c o : Nat} (h : InRange fsi c)
    (ho : o < fsi.bytesPerCluster) : (view fsi disk).data c o = disk (clusterAddr fsi c + o) :=
  if_pos ⟨h, ho⟩

theorem fat_lt (disk : Nat → UInt8) (c : Nat) : (view fsi disk).fat c < 2 ^ 28 := by
  simp only [view, fatCopy]
  split
  · exact Nat.mod_lt _ (by decide)
  · decide

theorem fat_outside {disk : Nat → UInt8} {c : Nat} (h : ¬ InRange fsi c) :
    (view fsi disk).fat c = 0 := if_neg h

theorem maxCluster_eq (hg : Geometry fsi) : maxCluster fsi = fsi.clusterCount + 1 := by
  have := hg.count
  simp only [clusterBad] at this
  exact Nat.mod_eq_of_lt (by omega)

theorem inRange_iff (hg : Geometry fsi) (c : Nat) :
    InRange fsi c ↔ ¬ (c < clusterMin ∨ c > maxCluster fsi) := by
  rw [maxCluster_eq hg, InRange, clusterMin]; omega

theorem InRange.not_outside (hg : Geometry fsi) {c : Nat} (h : InRange fsi c) :
    ¬ (c < clusterMin ∨ c > maxCluster fsi) := (inRange_iff hg c).mp h

/-! ## Where things are -/

/-- Two entries of the FAT area do not overlap. -/
theorem fatAddr_apart (hg : Geometry fsi) {k l c d : Nat} (hc : c ≤ fsi.clusterCount + 1)
    (hd : d ≤ fsi.clusterCount + 1) (hne : k ≠ l ∨ c ≠ d) :
    fatAddr fsi k c + 4 ≤ fatAddr fsi l d ∨ fatAddr fsi l d + 4 ≤ fatAddr fsi k c := by
  have hs := hg.fatSize
  have mul {i j : Nat} (h : i < j) : i * fsi.fatSize + fsi.fatSize ≤ j * fsi.fatSize := by
    rw [← Nat.succ_mul]; exact Nat.mul_le_mul_right _ h
  simp only [fatAddr]
  rcases Nat.lt_trichotomy k l with h | h | h
  · have := mul h; omega
  · subst h; omega
  · have := mul h; omega

/-- An entry lies in the FAT area. -/
theorem fatAddr_area (hg : Geometry fsi) {k c : Nat} (hk : k < fsi.numFats)
    (hc : c ≤ fsi.clusterCount + 1) : 512 * fsi.fatStart ≤ fatAddr fsi k c ∧
      fatAddr fsi k c + 4 ≤ 512 * (fsi.fatStart + fsi.numFats * fsi.fatSize) := by
  have hs := hg.fatSize
  have h : k * fsi.fatSize + fsi.fatSize ≤ fsi.numFats * fsi.fatSize := by
    rw [← Nat.succ_mul]; exact Nat.mul_le_mul_right _ hk
  simp only [fatAddr]; omega

theorem bpc_pos (hg : Geometry fsi) : 512 ≤ fsi.bytesPerCluster := by
  have := Nat.two_pow_pos fsi.spcShift
  rw [hg.bpc, hg.spc]; omega

/-- A cluster lies in the data area. -/
theorem clusterAddr_area (hg : Geometry fsi) {c o : Nat} (hc : InRange fsi c)
    (ho : o < fsi.bytesPerCluster) : 512 * fsi.dataStart ≤ clusterAddr fsi c + o ∧
      clusterAddr fsi c + o < 512 * (fsi.dataStart + fsi.clusterCount * fsi.sectorsPerCluster) := by
  have hb := hg.bpc
  have h : (c - 2) * fsi.sectorsPerCluster + fsi.sectorsPerCluster ≤
      fsi.clusterCount * fsi.sectorsPerCluster := by
    rw [← Nat.succ_mul]; exact Nat.mul_le_mul_right _ (by have := hc.1; have := hc.2; omega)
  simp only [clusterAddr]; omega

/-- Two clusters do not overlap. -/
theorem clusterAddr_apart (hg : Geometry fsi) {c d : Nat} (hc : InRange fsi c)
    (hd : InRange fsi d) (h : c ≠ d) :
    clusterAddr fsi c + fsi.bytesPerCluster ≤ clusterAddr fsi d ∨
      clusterAddr fsi d + fsi.bytesPerCluster ≤ clusterAddr fsi c := by
  have hb := hg.bpc
  have mul {i j : Nat} (h : i < j) :
      i * fsi.sectorsPerCluster + fsi.sectorsPerCluster ≤ j * fsi.sectorsPerCluster := by
    rw [← Nat.succ_mul]; exact Nat.mul_le_mul_right _ h
  obtain ⟨hc1, -⟩ := hc
  obtain ⟨hd1, -⟩ := hd
  simp only [clusterAddr]
  rcases Nat.lt_or_gt_of_ne h with h | h
  · have := mul (show c - 2 < d - 2 by omega); omega
  · have := mul (show d - 2 < c - 2 by omega); omega

/-- The sector of a cluster, as the code computes it. -/
theorem clusterToSector_eq (hg : Geometry fsi) {c : Nat} (hc : InRange fsi c) :
    clusterToSector fsi c = fsi.dataStart + (c - 2) * fsi.sectorsPerCluster := by
  have hcnt := hg.count
  have hend := hg.dataEnd
  have hle : (c - 2) * fsi.sectorsPerCluster + fsi.sectorsPerCluster ≤
      fsi.clusterCount * fsi.sectorsPerCluster := by
    rw [← Nat.succ_mul]; exact Nat.mul_le_mul_right _ (by have := hc.1; have := hc.2; omega)
  have hpos : 0 < fsi.sectorsPerCluster := by rw [hg.spc]; exact Nat.two_pow_pos _
  obtain ⟨h2, hm⟩ := hc
  simp only [clusterBad] at hcnt
  have hsub : sub32 c clusterMin = c - 2 := by simp only [sub32, u32, clusterMin]; omega
  simp only [clusterToSector, hsub, Nat.shiftLeft_eq, ← hg.spc, u32]
  rw [Nat.mod_eq_of_lt (a := (c - 2) * fsi.sectorsPerCluster) (by omega)]
  exact Nat.mod_eq_of_lt (by omega)

/-! ## Changes of the disk -/

/-- `d'` is `d` with `x` stored in the entry of cluster `c` in every FAT copy. -/
structure FatSet (fsi : Fsi) (c x : Nat) (d d' : Nat → UInt8) : Prop where
  here : ∀ k < fsi.numFats, rle32 d' (fatAddr fsi k c) = u32 x
  frame : ∀ a, (∀ k < fsi.numFats, a < fatAddr fsi k c ∨ fatAddr fsi k c + 4 ≤ a) → d' a = d a

/-- `d'` is `d` with the bytes `f` in cluster `c`. -/
structure DataSet (fsi : Fsi) (c : Nat) (f : Nat → UInt8) (d d' : Nat → UInt8) : Prop where
  here : ∀ o < fsi.bytesPerCluster, d' (clusterAddr fsi c + o) = f o
  frame : ∀ a, (a < clusterAddr fsi c ∨ clusterAddr fsi c + fsi.bytesPerCluster ≤ a) → d' a = d a

theorem rle32_congr {d d' : Nat → UInt8} {a : Nat} (h : ∀ i < 4, d' (a + i) = d (a + i)) :
    rle32 d' a = rle32 d a := by
  simp only [rle32, ← h 1 (by decide), ← h 2 (by decide), ← h 3 (by decide)]
  rw [show d' a = d a from h 0 (by decide)]

theorem FatSet.copy (hg : Geometry fsi) {c x : Nat} {d d' : Nat → UInt8} (h : FatSet fsi c x d d')
    (hc : InRange fsi c) {k e : Nat} (hk : k < fsi.numFats) (he : e ≤ fsi.clusterCount + 1) :
    fatCopy fsi d' k e = if e = c then x % 2 ^ 28 else fatCopy fsi d k e := by
  split
  · subst e
    rw [fatCopy, h.here k hk, u32]; omega
  · rename_i hne
    rw [fatCopy, fatCopy]
    congr 1
    refine rle32_congr fun i hi => h.frame _ fun l _ => ?_
    have := fatAddr_apart hg (k := k) (l := l) he hc.2 (.inr hne)
    omega

theorem FatSet.view (hg : Geometry fsi) {c x : Nat} {d d' : Nat → UInt8} (h : FatSet fsi c x d d')
    (hc : InRange fsi c) : view fsi d' = (view fsi d).setFat c (x % 2 ^ 28) := by
  refine View.ext (funext fun e => ?_) (funext₂ fun e o => ?_)
  · by_cases he : InRange fsi e
    · rw [view_fat he, h.copy hg hc hg.numFats he.2]
      split
      · subst e; simp
      · rename_i hne; rw [View.setFat_ne _ _ hne, view_fat he]
    · have hne : e ≠ c := fun e' => he (e'.symm ▸ hc)
      rw [fat_outside he, View.setFat_ne _ _ hne, fat_outside he]
  · simp only [Fat32.view, View.setFat]
    split
    · rename_i ho
      refine h.frame _ fun k hk => ?_
      have h1 := clusterAddr_area hg ho.1 ho.2
      have h2 := fatAddr_area hg hk hc.2
      have := hg.fatData
      omega
    · rfl

theorem DataSet.view (hg : Geometry fsi) {c : Nat} {f : Nat → UInt8} {d d' : Nat → UInt8}
    (h : DataSet fsi c f d d') (hc : InRange fsi c) : view fsi d' =
      (view fsi d).setData c fun o => if o < fsi.bytesPerCluster then f o else 0 := by
  refine View.ext (funext fun e => ?_) (funext₂ fun e o => ?_)
  · by_cases he : InRange fsi e
    · rw [view_fat he, View.setData_fat, view_fat he, fatCopy, fatCopy]
      congr 1
      refine rle32_congr fun i hi => h.frame _ ?_
      have h1 := clusterAddr_area hg hc (o := 0) (by have := bpc_pos hg; omega)
      have h2 := clusterAddr_area hg hc (o := fsi.bytesPerCluster - 1)
        (by have := bpc_pos hg; omega)
      have h3 := fatAddr_area hg hg.numFats he.2
      have := bpc_pos hg; have := hg.fatData
      omega
    · rw [fat_outside he, View.setData_fat, fat_outside he]
  · by_cases hec : e = c
    · subst e
      simp only [Fat32.view, View.setData_same, hc, true_and]
      split
      · rename_i ho; exact h.here o ho
      · rfl
    · rw [View.setData_ne _ _ hec]
      simp only [Fat32.view]
      split
      · rename_i ho
        refine h.frame _ ?_
        have := clusterAddr_apart hg hc ho.1 (Ne.symm hec)
        omega
      · rfl

/-- Two disks that agree on the FAT and data areas have the same view. -/
theorem view_congr (hg : Geometry fsi) {d d' : Nat → UInt8}
    (h : ∀ a, a < 512 * fsi.fsinfoSector ∨ 512 * fsi.fsinfoSector + 512 ≤ a → d' a = d a) :
    view fsi d' = view fsi d := by
  refine View.ext (funext fun e => ?_) (funext₂ fun e o => ?_)
  · by_cases he : InRange fsi e
    · rw [view_fat he, view_fat he, fatCopy, fatCopy]
      congr 1
      refine rle32_congr fun i hi => h _ ?_
      have := fatAddr_area hg hg.numFats he.2; have := hg.infoFat
      omega
    · rw [fat_outside he, fat_outside he]
  · simp only [Fat32.view]
    split
    · rename_i ho
      refine h _ ?_
      have := clusterAddr_area hg ho.1 ho.2; have := hg.infoData
      omega
    · rfl

end Fat32
