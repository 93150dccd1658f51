import Mathlib
import Fat32.Proof.Geometry

/-!
# Reading and writing FAT entries

The block layer and `rmwCluster` on a device that answers: each run is an
equation, with what it changes. `Same` says that a run changed neither the disk
nor the counters.
-/

namespace Fat32

open Bytes Exec Prog

/-- The disk and the counters are the same; the kernel was asked more often. -/
structure Same (v v' : Vol) : Prop where
  disk : v'.disk = v.disk
  free : v'.freeCount = v.freeCount
  next : v'.nextFree = v.nextFree

theorem Same.refl (v : Vol) : Same v v := ⟨rfl, rfl, rfl⟩

theorem Same.trans {u v w : Vol} (h : Same u v) (k : Same v w) : Same u w :=
  ⟨k.disk.trans h.disk, k.free.trans h.free, k.next.trans h.next⟩

theorem Same.symm {v w : Vol} (h : Same v w) : Same w v :=
  ⟨h.disk.symm, h.free.symm, h.next.symm⟩

variable {fsi : Fsi}

theorem bread_ok (hk : Reliable fsi.kernel) (s n : Nat) (v : Vol) :
    ∃ v', bread fsi s n v = (.ok ⟨s, n, fun o => v.disk (512 * s + o)⟩, v') ∧ Same v v' := by
  refine ⟨{ v with io := { v.io with nread := v.io.nread + 1, log := .bread s n :: v.io.log } },
    ?_, rfl, rfl, rfl⟩
  simp only [bread, hk.read]

theorem bdwrite_ok (s n : Nat) (f : Nat → UInt8) (v : Vol) :
    ∃ v', bdwrite ⟨s, n, f⟩ v = (.ok (), v') ∧ v'.disk = poke v.disk (512 * s) (512 * n) f ∧
      v'.freeCount = v.freeCount ∧ v'.nextFree = v.nextFree :=
  ⟨_, rfl, rfl, rfl, rfl⟩

/-- Writing back a block that was changed in `m` bytes. -/
theorem bdwrite_poke {s n o m : Nat} (h : o + m ≤ 512 * n) (bs : Nat → UInt8) (v : Vol) :
    ∃ v', bdwrite ⟨s, n, poke (fun i => v.disk (512 * s + i)) o m bs⟩ v = (.ok (), v') ∧
      v'.disk = poke v.disk (512 * s + o) m bs ∧
      v'.freeCount = v.freeCount ∧ v'.nextFree = v.nextFree := by
  obtain ⟨v', h1, h2, h3⟩ := bdwrite_ok s n (poke (fun i => v.disk (512 * s + i)) o m bs) v
  refine ⟨v', h1, ?_, h3⟩
  rw [h2, poke_back h]

/-- Asking for a cluster is only counted. -/
theorem askCluster_ok (c : Nat) (v : Vol) : ∃ v', askCluster c v = (.ok (), v') ∧ Same v v' :=
  ⟨_, rfl, rfl, rfl, rfl⟩

theorem rle32_poke (d : Nat → UInt8) (a x : Nat) : rle32 (poke d a 4 (byteOf x)) a = u32 x := by
  have h0 : poke d a 4 (byteOf x) a = byteOf x 0 := poke_inside (i := 0) (by decide)
  rw [rle32, h0, poke_inside (by decide), poke_inside (by decide), poke_inside (by decide),
    le32_byteOf, u32]

/-- The sector and the offset of an entry in copy `k`, as the code computes them. -/
theorem entry_at (fsi : Fsi) (k c : Nat) :
    512 * (fsi.fatStart + k * fsi.fatSize + c * 4 / 512) + c * 4 % 512 = fatAddr fsi k c := by
  simp only [fatAddr]; omega

theorem rmwCopies_ok (hk : Reliable fsi.kernel) (hg : Geometry fsi) {c : Nat} (hc : InRange fsi c)
    (x : Nat) : ∀ (n k : Nat) (v : Vol), 0 < n → k + n = fsi.numFats →
      ∃ v', rmwCopies fsi x (c * 4 % 512) n (fsi.fatStart + k * fsi.fatSize + c * 4 / 512)
          ⟨fsi.fatStart + k * fsi.fatSize + c * 4 / 512, 1,
            fun o => v.disk (512 * (fsi.fatStart + k * fsi.fatSize + c * 4 / 512) + o)⟩ v =
          (.ok (), v') ∧
        (∀ j, k ≤ j → j < fsi.numFats → rle32 v'.disk (fatAddr fsi j c) = u32 x) ∧
        (∀ a, (∀ j, k ≤ j → j < fsi.numFats → a < fatAddr fsi j c ∨ fatAddr fsi j c + 4 ≤ a) →
          v'.disk a = v.disk a) ∧
        v'.freeCount = v.freeCount ∧ v'.nextFree = v.nextFree := by
  intro n
  induction n with
  | zero => intro _ _ h; omega
  | succ n ih =>
    intro k v _ hkn
    have ho : c * 4 % 512 + 4 ≤ 512 * 1 := by omega
    obtain ⟨v1, e1, d1, f1, n1⟩ := bdwrite_poke (s := fsi.fatStart + k * fsi.fatSize + c * 4 / 512)
      ho (byteOf x) v
    rw [entry_at] at d1
    rw [rmwCopies, wle32, bind_ok e1]
    by_cases hn : n = 0
    · subst hn
      refine ⟨v1, rfl, fun j hj hj' => ?_, fun a ha => ?_, f1, n1⟩
      · obtain rfl : j = k := by omega
        rw [d1, rle32_poke]
      · rw [d1, poke_outside (ha k (Nat.le_refl _) (by omega))]
    · rw [if_neg hn]
      -- the sector of the next copy does not wrap
      have harea := fatAddr_area hg (k := k + 1) (c := c) (by omega) hc.2
      have hend := hg.fatEnd
      have hsec : u32 (fsi.fatStart + k * fsi.fatSize + c * 4 / 512 + fsi.fatSize) =
          fsi.fatStart + (k + 1) * fsi.fatSize + c * 4 / 512 := by
        have hmul : (k + 1) * fsi.fatSize = k * fsi.fatSize + fsi.fatSize := Nat.succ_mul _ _
        rw [← entry_at] at harea
        simp only [u32]; omega
      obtain ⟨v2, e2, s2⟩ := bread_ok hk (fsi.fatStart + (k + 1) * fsi.fatSize + c * 4 / 512) 1 v1
      obtain ⟨v3, e3, r3, o3, f3, n3⟩ := ih (k + 1) v2 (by omega) (by omega)
      rw [hsec, bind_ok e2]
      rw [s2.disk] at e3 o3
      refine ⟨v3, e3, fun j hj hj' => ?_, fun a ha => ?_, ?_, ?_⟩
      · by_cases hjk : j = k
        · subst hjk
          have hap (i : Nat) (hi : j + 1 ≤ i) :=
            fatAddr_apart hg (k := j) (l := i) hc.2 hc.2 (.inl (by omega))
          rw [← rle32_poke v.disk (fatAddr fsi j c) x, ← d1]
          refine rle32_congr fun i hi => o3 _ fun l hl _ => ?_
          have := hap l hl; omega
        · exact r3 j (by omega) hj'
      · rw [o3 a fun j hj hj' => ha j (by omega) hj', d1,
          poke_outside (ha k (Nat.le_refl _) (by omega))]
      · rw [f3, s2.free, f1]
      · rw [n3, s2.next, n1]

theorem mask_eq (x : Nat) : x &&& clusterMask = x % 2 ^ 28 :=
  Nat.and_two_pow_sub_one_eq_mod x 28

/-- The part of `rmwCluster` that reads the entry. -/
theorem rmwCluster_eq (hg : Geometry fsi) {c : Nat} (hc : InRange fsi c) (new : Option Nat) :
    rmwCluster fsi c new = (do
      let bp ← bread fsi (fsi.fatStart + c * 4 / 512) 1
      match new with
      | none => pure (rle32 bp.data (c * 4 % 512) % 2 ^ 28)
      | some x => do
        rmwCopies fsi x (c * 4 % 512) fsi.numFats (fsi.fatStart + c * 4 / 512) bp
        pure (rle32 bp.data (c * 4 % 512) % 2 ^ 28)) := by
  have hcnt := hg.count
  have hend := hg.fatEnd
  have harea := fatAddr_area hg (k := 0) (c := c) hg.numFats hc.2
  simp only [clusterBad] at hcnt
  simp only [fatAddr] at harea
  obtain ⟨h2, hm⟩ := hc
  have h1 : u32 (c * 4) = c * 4 := Nat.mod_eq_of_lt (by omega)
  have h2 : u32 (fsi.fatStart + c * 4 / 2 ^ 9) = fsi.fatStart + c * 4 / 512 :=
    Nat.mod_eq_of_lt (by omega)
  have h3 : c * 4 &&& 511 = c * 4 % 512 := Nat.and_two_pow_sub_one_eq_mod _ 9
  rw [rmwCluster, if_neg (InRange.not_outside hg ⟨‹_›, hm⟩)]
  simp only [h1, hg.sectorShift, hg.sectorMask, Nat.shiftRight_eq_div_pow, h2, h3, mask_eq] <;> rfl

theorem read_entry (v : Vol) {c : Nat} (hc : InRange fsi c) :
    rle32 (fun o => v.disk (512 * (fsi.fatStart + c * 4 / 512) + o)) (c * 4 % 512) % 2 ^ 28 =
      (view fsi v.disk).fat c := by
  have h := entry_at fsi 0 c
  rw [Nat.zero_mul, Nat.add_zero] at h
  rw [view_fat hc, fatCopy, ← h]
  rfl

theorem rmwCluster_read (hk : Reliable fsi.kernel) (hg : Geometry fsi) {c : Nat}
    (hc : InRange fsi c) (v : Vol) :
    ∃ v', rmwCluster fsi c none v = (.ok ((view fsi v.disk).fat c), v') ∧ Same v v' := by
  obtain ⟨v', e, s⟩ := bread_ok hk (fsi.fatStart + c * 4 / 512) 1 v
  refine ⟨v', ?_, s⟩
  rw [rmwCluster_eq hg hc, bind_ok e, ← read_entry v hc]
  rfl

theorem rmwCluster_write (hk : Reliable fsi.kernel) (hg : Geometry fsi) {c : Nat}
    (hc : InRange fsi c) (x : Nat) (v : Vol) :
    ∃ v', rmwCluster fsi c (some x) v = (.ok ((view fsi v.disk).fat c), v') ∧
      FatSet fsi c x v.disk v'.disk ∧ v'.freeCount = v.freeCount ∧ v'.nextFree = v.nextFree := by
  obtain ⟨v1, e1, s1⟩ := bread_ok hk (fsi.fatStart + c * 4 / 512) 1 v
  obtain ⟨v2, e2, r2, o2, f2, n2⟩ := rmwCopies_ok hk hg hc x fsi.numFats 0 v1 hg.numFats
    (by omega)
  rw [Nat.zero_mul, Nat.add_zero, s1.disk] at e2
  refine ⟨v2, ?_, ⟨fun k hk => r2 k (by omega) hk, fun a ha => ?_⟩, ?_, ?_⟩
  · rw [rmwCluster_eq hg hc, bind_ok e1, ← read_entry v hc]
    exact bind_ok e2
  · rw [o2 a fun j _ hj => ha j hj, s1.disk]
  · rw [f2, s1.free]
  · rw [n2, s1.next]

theorem rmwCluster_outside (hg : Geometry fsi) {c : Nat} (hc : ¬ InRange fsi c) (new : Option Nat)
    (v : Vol) : rmwCluster fsi c new v = (.err .einval, v) := by
  rw [rmwCluster, if_pos (by rw [inRange_iff hg] at hc; exact not_not.mp hc)]
  rfl

/-! ## Zeroing a cluster -/

theorem clearLoop_ok : ∀ (n s : Nat) (v : Vol), s + n ≤ 2 ^ 32 →
    ∃ v', clearLoop s n v = (.ok (), v') ∧ v'.disk = poke v.disk (512 * s) (512 * n) (fun _ => 0) ∧
      v'.freeCount = v.freeCount ∧ v'.nextFree = v.nextFree := by
  intro n
  induction n with
  | zero =>
    intro s v _
    refine ⟨v, rfl, ?_, rfl, rfl⟩
    funext a
    rw [poke_outside (by omega)]
  | succ n ih =>
    intro s v hs
    obtain ⟨v1, e1, d1, f1, n1⟩ := bdwrite_ok s 1 (fun _ => 0) (v.logged (.getblk s 1))
    obtain ⟨v2, e2, d2, f2, n2⟩ := ih (s + 1) v1 (by omega)
    have hu : u32 s = s := Nat.mod_eq_of_lt (by omega)
    have e0 : getblkClear (u32 s) 1 v = (.ok ⟨s, 1, fun _ => 0⟩, v.logged (.getblk s 1)) := by
      rw [hu]; rfl
    refine ⟨v2, ?_, ?_, f2.trans f1, n2.trans n1⟩
    · rw [clearLoop, bind_ok e0, bind_ok e1, e2]
    · have h := poke_append v.disk (512 * s) 512 (512 * n) (fun _ => 0)
      rw [d2, d1, show 512 * (s + 1) = 512 * s + 512 by ring, show 512 * (n + 1) = 512 + 512 * n by ring,
        ← h]
      rfl

theorem clearCluster_ok (hg : Geometry fsi) {c : Nat} (hc : InRange fsi c) (v : Vol) :
    ∃ v', clearCluster fsi c v = (.ok (), v') ∧
      DataSet fsi c (fun _ => 0) v.disk v'.disk ∧
      v'.freeCount = v.freeCount ∧ v'.nextFree = v.nextFree := by
  have harea := clusterAddr_area hg hc (o := fsi.bytesPerCluster - 1) (by have := bpc_pos hg; omega)
  have hend := hg.dataEnd
  have hb := bpc_pos hg
  have haddr : clusterAddr fsi c =
    512 * (fsi.dataStart + (c - 2) * fsi.sectorsPerCluster) := rfl
  have hbpc := hg.bpc
  obtain ⟨v0, e0, s0⟩ := askCluster_ok c v
  obtain ⟨v', e, d, f, n⟩ := clearLoop_ok fsi.sectorsPerCluster
    (fsi.dataStart + (c - 2) * fsi.sectorsPerCluster) v0 (by omega)
  refine ⟨v', ?_, ⟨fun o ho => ?_, fun a ha => ?_⟩, f.trans s0.free, n.trans s0.next⟩
  · rw [clearCluster, bind_ok e0, clusterToSector_eq hg hc, e]
  · rw [d, haddr, poke_inside (by omega)]
  · rw [d, s0.disk, poke_outside (by omega)]

/-- The bytes of a cluster, as `readCluster` gives them. -/
theorem readCluster_ok (hk : Reliable fsi.kernel) (hg : Geometry fsi) {c : Nat}
    (hc : InRange fsi c) (v : Vol) :
    ∃ v', readCluster fsi c v = (.ok ⟨fsi.dataStart + (c - 2) * fsi.sectorsPerCluster,
        fsi.sectorsPerCluster, fun o => v.disk (clusterAddr fsi c + o)⟩, v') ∧ Same v v' := by
  obtain ⟨v0, e0, s0⟩ := askCluster_ok c v
  obtain ⟨v', e, s⟩ := bread_ok hk (fsi.dataStart + (c - 2) * fsi.sectorsPerCluster)
    fsi.sectorsPerCluster v0
  refine ⟨v', ?_, s0.trans s⟩
  rw [readCluster, bind_ok e0, clusterToSector_eq hg hc, e, s0.disk]
  rfl

/-- Writing a cluster back. -/
theorem bdwrite_cluster (hg : Geometry fsi) (c : Nat) (f : Nat → UInt8) (v : Vol) :
    ∃ v', bdwrite ⟨fsi.dataStart + (c - 2) * fsi.sectorsPerCluster, fsi.sectorsPerCluster, f⟩ v =
        (.ok (), v') ∧ DataSet fsi c f v.disk v'.disk ∧
      v'.freeCount = v.freeCount ∧ v'.nextFree = v.nextFree := by
  obtain ⟨v', e, d, hf, hn⟩ := bdwrite_ok (fsi.dataStart + (c - 2) * fsi.sectorsPerCluster)
    fsi.sectorsPerCluster f v
  have hb := hg.bpc
  have haddr : clusterAddr fsi c = 512 * (fsi.dataStart + (c - 2) * fsi.sectorsPerCluster) := rfl
  rw [← hb, ← haddr] at d
  refine ⟨v', e, ⟨fun o ho => ?_, fun a ha => ?_⟩, hf, hn⟩
  · rw [d, poke_inside ho]
  · rw [d, poke_outside ha]

end Fat32
