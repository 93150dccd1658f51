import Mathlib
import Fat32.Proof.AnyRead
import Fat32.Proof.DataArea

/-!
# The bytes of a FAT entry

`fat32_rmw_cluster` reads 28 bits of an entry and stores all 32 of the new value. When it returns 0
the entry is the new value in every copy, also in the four bits that are never read, and no other
byte of the disk has changed (`rmwCluster_exact`).
-/

namespace Fat32

open Bytes Exec Prog

variable {fsi : Fsi} {c x old : Nat} {v v' : Vol}

/-- When all reads succeed all copies are stored. -/
theorem rmwCopies_stored (hg : Geometry fsi) (hc : InRange fsi c) (x n : Nat) : ∀ (k : Nat) (v : Vol),
    k + n = fsi.numFats →
    WP (rmwCopies fsi x (c * 4 % 512) n (fsi.fatStart + k * fsi.fatSize + c * 4 / 512)
        ⟨fsi.fatStart + k * fsi.fatSize + c * 4 / 512, 1,
          fun o => v.disk (512 * (fsi.fatStart + k * fsi.fatSize + c * 4 / 512) + o)⟩) v fun r v' =>
      r = .ok () → ∀ j, k ≤ j → j < fsi.numFats → rle32 v'.disk (fatAddr fsi j c) = u32 x := by
  induction n with
  | zero => exact fun k _ hk => .of_run rfl fun _ j hj hj' => by omega
  | succ n ih =>
    intro k v hkn
    obtain ⟨v1, e1, d1, -, -⟩ := bdwrite_poke (s := fsi.fatStart + k * fsi.fatSize + c * 4 / 512)
      (show c * 4 % 512 + 4 ≤ 512 * 1 by omega) (byteOf x) v
    rw [entry_at] at d1
    have here : rle32 v1.disk (fatAddr fsi k c) = u32 x := by rw [d1, rle32_poke]
    rw [rmwCopies, wle32]
    refine .ok_bind e1 (.ite (fun hn => .of_run rfl fun _ j hj hj' => ?_) fun hn => ?_)
    · obtain rfl : j = k := by omega
      exact here
    have hsec : u32 (fsi.fatStart + k * fsi.fatSize + c * 4 / 512 + fsi.fatSize) =
        fsi.fatStart + (k + 1) * fsi.fatSize + c * 4 / 512 := by
      have harea := fatAddr_area hg (k := k + 1) (c := c) (by omega) hc.2
      have hend := hg.fatEnd
      have hmul : (k + 1) * fsi.fatSize = k * fsi.fatSize + fsi.fatSize := Nat.succ_mul _ _
      rw [← entry_at] at harea
      simp only [u32]
      omega
    rw [hsec]
    obtain ⟨v2, s2, ⟨e, -, e2⟩ | ⟨-, e2⟩⟩ := bread_cases fsi
      (fsi.fatStart + (k + 1) * fsi.fatSize + c * 4 / 512) 1 v1
    · exact .err_bind e2 fun h => absurd h Out.err_ne_ok
    · refine .ok_bind e2 ?_
      have hrest := (ih (k + 1) v2 (by omega)).and (rmwCopies_torn hg hc x n (k + 1) v2 (by omega))
      rw [s2.disk] at hrest
      refine hrest.mono fun r v3 h hr j hj hj' => ?_
      by_cases hjk : j = k
      · -- the later copies are apart
        subst hjk
        rw [← here]
        refine rle32_congr fun i hi => h.2.2.1 _ fun l hl _ => ?_
        have := fatAddr_apart hg (k := j) (l := l) hc.2 hc.2 (.inl (by omega))
        omega
      · exact h.1 hr j (by omega) hj'

theorem rmwCluster_set (hg : Geometry fsi) (hc : InRange fsi c) (x : Nat) (v : Vol) :
    WP (rmwCluster fsi c (some x)) v fun r v' => ∀ y, r = .ok y →
      y = (view fsi v.disk).fat c ∧ FatSet fsi c x v.disk v'.disk := by
  rw [rmwCluster_some hg hc]
  obtain ⟨v1, s1, ⟨e, -, e1⟩ | ⟨-, e1⟩⟩ := bread_cases fsi (fsi.fatStart + c * 4 / 512) 1 v
  · exact .err_bind e1 nofun
  · have h := (rmwCopies_stored hg hc x fsi.numFats 0 v1 (Nat.zero_add _)).and
      (rmwCopies_torn hg hc x fsi.numFats 0 v1 (Nat.zero_add _))
    rw [Nat.zero_mul, Nat.add_zero, s1.disk] at h
    refine .ok_bind e1 (.bind h (fun _ v2 h2 => .of_run rfl fun y hy => ?_) (fun _ _ _ => nofun) fun _ _ => nofun)
    refine ⟨?_, fun k hk => h2.1 rfl k (Nat.zero_le k) hk, fun a ha => h2.2.2.1 a fun l _ hl => ha l hl⟩
    rw [← Out.ok.inj hy]
    exact read_entry v hc

/-- What a stored entry is in every copy, and what else is on the disk. -/
theorem rmwCluster_exact (hg : Geometry fsi) (hc : InRange fsi c) (hx : x < 2 ^ 28)
    (h : rmwCluster fsi c (some x) v = (.ok old, v')) :
    old = rle32 v.disk (fatAddr fsi 0 c) % 2 ^ 28 ∧
      (∀ r t, rmwCluster fsi c none v' = (.ok r, t) → r = x) ∧
      (∀ k < fsi.numFats, rle32 v'.disk (fatAddr fsi k c) = x) ∧
      ∀ a, (∀ k < fsi.numFats, a < fatAddr fsi k c ∨ fatAddr fsi k c + 4 ≤ a) → v'.disk a = v.disk a := by
  have hset := rmwCluster_set hg hc x v
  unfold WP at hset
  rw [h] at hset
  obtain ⟨hold, hset⟩ := hset old rfl
  have hall : ∀ k < fsi.numFats, rle32 v'.disk (fatAddr fsi k c) = x := fun k hk => by
    rw [hset.here k hk]
    exact Nat.mod_eq_of_lt (by omega)
  refine ⟨?_, fun r t hr => ?_, hall, hset.frame⟩
  · rw [hold, view_fat hc]
    rfl
  · -- the entry that is read again
    have hread : (view fsi v'.disk).fat c = x := by
      rw [view_fat hc, fatCopy, hall 0 hg.numFats]
      exact Nat.mod_eq_of_lt hx
    obtain ⟨v1, -, -, ⟨e, -, h1⟩ | ⟨-, h1⟩⟩ := rmwCluster_answer hg hc v'
    · rw [h1] at hr
      cases hr
    · rw [h1, hread] at hr
      exact (Out.ok.inj (congrArg Prod.fst hr)).symm

/-- A volume whose entry of cluster 3 has reserved bits. -/
def reservedBits : Vol := image [clusterEoc, 0xF0000004] fun _ => []

theorem reservedBits_run : rmwCluster (small 2) 3 (some 7) reservedBits =
    (.ok 4, (rmwCluster (small 2) 3 (some 7) reservedBits).2) :=
  Prod.ext (by decide +kernel) rfl

/-- All 32 bits of the entry are the new value. -/
theorem reservedBits_entry :
    rle32 (rmwCluster (small 2) 3 (some 7) reservedBits).2.disk (fatAddr (small 2) 0 3) = 7 :=
  (rmwCluster_exact small_geometry (by decide) (by decide) reservedBits_run).2.2.1 0 (by decide)

/-- The reserved bits were set before, and are not after. -/
theorem reservedBits_lost : (rmwCluster (small 2) 3 (some 7) reservedBits).1 = .ok 4 ∧
    rle32 reservedBits.disk (fatAddr (small 2) 0 3) / 2 ^ 28 = 15 ∧
    rle32 (rmwCluster (small 2) 3 (some 7) reservedBits).2.disk (fatAddr (small 2) 0 3) / 2 ^ 28 = 0 := by
  decide +kernel

end Fat32
