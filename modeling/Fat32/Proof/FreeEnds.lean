import Mathlib
import Fat32.Proof.AddressMap
import Fat32.Proof.FailedRead
import Fat32.Proof.RenameFat
import Fat32.Proof.DataArea

/-!
# The loop that frees a chain ends

On any FAT, and whatever the device answers, the loop of `fat32_free_clusters` ends: a round that
reads an entry in use clears it, and no round makes a cleared entry used again; a round that reads a
cleared entry is the last. Entries are words of the disk, and clearing one clears nothing but words
(`Cleared`), so this needs no more of the geometry than `FatEntries`.
-/

namespace Fat32

open Bytes Exec Prog

variable {fsi : Fsi} {c d : Nat} {v v' : Vol}

/-- There is a FAT, and an entry lies in the block that is read for it. -/
structure FatEntries (fsi : Fsi) : Prop where
  numFats : 1 ≤ fsi.numFats
  block : fsi.sectorMask < 512

theorem Geometry.fatEntries (hg : Geometry fsi) : FatEntries fsi :=
  ⟨hg.numFats, by rw [hg.sectorMask]; decide⟩

/-- The entry of a cluster, as `rmwCluster` reads it. -/
def entryValue (fsi : Fsi) (disk : Nat → UInt8) (c : Nat) : Nat :=
  rle32 (fun o => disk (512 * entrySector fsi c 0 + o)) (entryOffset fsi c) &&& clusterMask

/-- The body of the loop runs that often, if `fuel` rounds are allowed. -/
def freeRounds (fsi : Fsi) : Nat → Nat → Vol → Nat
  | 0, _, _ => 0
  | fuel + 1, current, v =>
    if current ≥ clusterMin ∧ current < clusterEocMin then
      match rmwCluster fsi current (some clusterFree) v with
      | (.ok next, v') => freeRounds fsi fuel next v' + 1
      | _ => 1
    else 0

/-! ## Clearing words -/

/-- Every word of the disk is as before, or zero. -/
def Cleared (d d' : Nat → UInt8) : Prop :=
  ∀ w, (∀ i < 4, d' (4 * w + i) = d (4 * w + i)) ∨ ∀ i < 4, d' (4 * w + i) = 0

theorem Cleared.refl (d : Nat → UInt8) : Cleared d d := fun _ => .inl fun _ _ => rfl

theorem Cleared.trans {d d' d'' : Nat → UInt8} (h : Cleared d d') (k : Cleared d' d'') : Cleared d d'' := by
  intro w
  rcases k w with k | k
  · rcases h w with h | h
    · exact .inl fun i hi => (k i hi).trans (h i hi)
    · exact .inr fun i hi => (k i hi).trans (h i hi)
  · exact .inr k

theorem Cleared.poke (d : Nat → UInt8) (w : Nat) : Cleared d (poke d (4 * w) 4 (byteOf 0)) := by
  intro u
  by_cases hu : u = w
  · subst hu
    refine .inr fun i hi => ?_
    rw [poke_inside hi]
    interval_cases i <;> rfl
  · exact .inl fun i hi => poke_outside (by omega)

/-- An entry is a word of the disk. -/
theorem entryOffset_dvd (fsi : Fsi) (c : Nat) : 4 ∣ entryOffset fsi c := by
  have h4 : fatOffset c % 2 ^ 2 = 0 := by
    simp only [fatOffset, u32]
    omega
  apply Nat.dvd_of_mod_eq_zero
  rw [entryOffset, show 4 = 2 ^ 2 from rfl, Nat.and_mod_two_pow, h4, Nat.zero_and]

theorem entryOffset_lt (h : FatEntries fsi) (c : Nat) : entryOffset fsi c + 4 ≤ 512 := by
  have hle : entryOffset fsi c ≤ fsi.sectorMask := Nat.and_le_right
  have hblock := h.block
  obtain ⟨k, hk⟩ := entryOffset_dvd fsi c
  omega

/-- The word of an entry. -/
theorem exists_entryWord (fsi : Fsi) (s c : Nat) : ∃ w, 512 * s + entryOffset fsi c = 4 * w := by
  obtain ⟨k, hk⟩ := entryOffset_dvd fsi c
  exact ⟨128 * s + k, by omega⟩

theorem entryValue_zero {d : Nat → UInt8}
    (h : ∀ i < 4, d (512 * entrySector fsi c 0 + entryOffset fsi c + i) = 0) : entryValue fsi d c = 0 := by
  have hword : rle32 (fun o => d (512 * entrySector fsi c 0 + o)) (entryOffset fsi c) =
      rle32 (fun _ => 0) (entryOffset fsi c) := rle32_congr fun i hi => by
    rw [← Nat.add_assoc]
    exact h i hi
  have hzero : rle32 (fun _ => 0) (entryOffset fsi c) = 0 := rfl
  rw [entryValue, hword, hzero, Nat.zero_and]

/-- A cleared entry stays free. -/
theorem Cleared.entry {d d' : Nat → UInt8} (h : Cleared d d') (hc : entryValue fsi d c = 0) :
    entryValue fsi d' c = 0 := by
  obtain ⟨w, hw⟩ := exists_entryWord fsi (entrySector fsi c 0) c
  rcases h w with h | h
  · have hword : rle32 (fun o => d' (512 * entrySector fsi c 0 + o)) (entryOffset fsi c) =
        rle32 (fun o => d (512 * entrySector fsi c 0 + o)) (entryOffset fsi c) := rle32_congr fun i hi => by
      rw [← Nat.add_assoc, hw]
      exact h i hi
    rw [entryValue, hword]
    exact hc
  · refine entryValue_zero fun i hi => ?_
    rw [hw]
    exact h i hi

/-- Clearing the copies of an entry, whatever the device answers. -/
theorem rmwCopies_cleared (h : FatEntries fsi) (c n : Nat) : ∀ (s : Nat) (v : Vol),
    WP (rmwCopies fsi clusterFree (entryOffset fsi c) n s ⟨s, 1, fun o => v.disk (512 * s + o)⟩) v
      fun r v' => r ≠ .hang ∧ Cleared v.disk v'.disk ∧
        (0 < n → ∃ d, Cleared d v'.disk ∧ ∀ i < 4, d (512 * s + entryOffset fsi c + i) = 0) := by
  induction n with
  | zero => exact fun _ _ => .of_run rfl ⟨nofun, .refl _, fun h => absurd h (lt_irrefl 0)⟩
  | succ n ih =>
    intro s v
    obtain ⟨w, hw⟩ := exists_entryWord fsi s c
    obtain ⟨v1, e1, d1, -, -⟩ := bdwrite_poke (s := s) (show entryOffset fsi c + 4 ≤ 512 * 1 from entryOffset_lt h c)
      (byteOf clusterFree) v
    have hclear : Cleared v.disk v1.disk := by
      rw [d1, hw]
      exact Cleared.poke v.disk w
    have hzero : ∀ i < 4, v1.disk (512 * s + entryOffset fsi c + i) = 0 := fun i hi => by
      rw [d1, poke_inside hi]
      interval_cases i <;> rfl
    rw [rmwCopies, wle32]
    refine .ok_bind e1 (.ite (fun _ => .of_run rfl ⟨Out.ok_ne_hang, hclear, fun _ => ⟨_, .refl _, hzero⟩⟩) fun _ => ?_)
    obtain ⟨v2, s2, ⟨e, -, e2⟩ | ⟨-, e2⟩⟩ := bread_cases fsi (u32 (s + fsi.fatSize)) 1 v1
    · refine .err_bind e2 ⟨Out.err_ne_hang, ?_, fun _ => ⟨v1.disk, ?_, hzero⟩⟩
      · rw [s2.disk]
        exact hclear
      · rw [s2.disk]
        exact .refl _
    · refine .ok_bind e2 ?_
      have hrest := ih (u32 (s + fsi.fatSize)) v2
      rw [s2.disk] at hrest
      exact hrest.mono fun r v3 h3 => ⟨h3.1, hclear.trans h3.2.1, fun _ => ⟨v1.disk, h3.2.1, hzero⟩⟩

/-- A round of the loop. -/
theorem rmwCluster_clears (h : FatEntries fsi) (c : Nat) (v : Vol) :
    WP (rmwCluster fsi c (some clusterFree)) v fun r v' => r ≠ .hang ∧ ∀ y, r = .ok y →
      ¬ (c < clusterMin ∨ c > maxCluster fsi) ∧ y = entryValue fsi v.disk c ∧
        Cleared v.disk v'.disk ∧ entryValue fsi v'.disk c = 0 := by
  rw [rmwCluster_at]
  refine .ite (fun _ => .of_run rfl ⟨nofun, nofun⟩) fun hc => ?_
  obtain ⟨v1, s1, ⟨e, -, e1⟩ | ⟨-, e1⟩⟩ := bread_cases fsi (entrySector fsi c 0) 1 v
  · exact .err_bind e1 ⟨nofun, nofun⟩
  · refine .ok_bind e1 ?_
    have hcopies := rmwCopies_cleared h c fsi.numFats (entrySector fsi c 0) v1
    rw [s1.disk] at hcopies
    refine .bind hcopies (fun _ v2 h2 => .of_run rfl ⟨nofun, fun y hy => ⟨hc, ?_, h2.2.1, ?_⟩⟩)
      (fun e v2 _ => ⟨nofun, nofun⟩) fun v2 h2 => absurd rfl h2.1
    · exact (Out.ok.inj hy).symm
    · obtain ⟨d, hd, hzero⟩ := h2.2.2 h.numFats
      exact hd.entry (entryValue_zero hzero)

/-! ## The loop -/

/-- The clusters whose entries are in use. -/
def usedEntries (fsi : Fsi) (disk : Nat → UInt8) : Finset Nat :=
  (Finset.Icc clusterMin (maxCluster fsi)).filter fun c => entryValue fsi disk c ≠ 0

theorem card_usedEntries_le (fsi : Fsi) (disk : Nat → UInt8) :
    (usedEntries fsi disk).card ≤ fsi.clusterCount := by
  refine (Finset.card_filter_le _ _).trans ?_
  rw [Nat.card_Icc, maxCluster, u32, clusterMin]
  omega

/-- A round that reads an entry in use takes it away. -/
theorem card_usedEntries_lt {disk disk' : Nat → UInt8} (hc : ¬ (c < clusterMin ∨ c > maxCluster fsi))
    (h : Cleared disk disk') (hused : entryValue fsi disk c ≠ 0) (hfree : entryValue fsi disk' c = 0) :
    (usedEntries fsi disk').card < (usedEntries fsi disk).card := by
  refine Finset.card_lt_card (Finset.ssubset_iff_subset_ne.mpr ⟨fun b hb => ?_, fun heq => ?_⟩)
  · rw [usedEntries, Finset.mem_filter] at hb ⊢
    exact ⟨hb.1, fun h0 => hb.2 (h.entry h0)⟩
  · have hmem : c ∈ usedEntries fsi disk := by
      rw [usedEntries, Finset.mem_filter, Finset.mem_Icc]
      exact ⟨by omega, hused⟩
    rw [← heq, usedEntries, Finset.mem_filter] at hmem
    exact hmem.2 hfree

/-- A free entry ends the loop. -/
theorem freeRounds_free (fuel : Nat) (v : Vol) : freeRounds fsi fuel 0 v = 0 := by
  cases fuel with
  | zero => rfl
  | succ fuel => rw [freeRounds, if_neg (by decide)]

/-- There are no more rounds than entries in use, and one. -/
theorem freeRounds_le (h : FatEntries fsi) (fuel : Nat) : ∀ (c : Nat) (v : Vol),
    freeRounds fsi fuel c v ≤ (usedEntries fsi v.disk).card + 1 := by
  induction fuel with
  | zero => exact fun _ _ => Nat.zero_le _
  | succ fuel ih =>
    intro c v
    have hround := rmwCluster_clears h c v
    unfold WP at hround
    rw [freeRounds]
    split
    · rcases hrun : rmwCluster fsi c (some clusterFree) v with ⟨y | e | _, v1⟩
      · rw [hrun] at hround
        obtain ⟨hc, rfl, hclear, hzero⟩ := hround.2 y rfl
        dsimp only
        by_cases hused : entryValue fsi v.disk c = 0
        · rw [hused, freeRounds_free]
          omega
        · have := ih (entryValue fsi v.disk c) v1
          have hlt : (usedEntries fsi v1.disk).card < (usedEntries fsi v.disk).card :=
            card_usedEntries_lt hc hclear hused hzero
          omega
      · dsimp only
        omega
      · dsimp only
        omega
    · omega

/-- With more fuel than rounds the loop ends. -/
theorem freeLoop_ne_hang (h : FatEntries fsi) (fuel : Nat) : ∀ (c freed : Nat) (v : Vol),
    freeRounds fsi fuel c v < fuel → (freeLoop fsi fuel c freed v).1 ≠ .hang := by
  induction fuel with
  | zero => exact fun _ _ _ h => absurd h (Nat.not_lt_zero _)
  | succ fuel ih =>
    intro c freed v hlt
    have hround := rmwCluster_clears h c v
    unfold WP at hround
    rw [freeRounds] at hlt
    rw [freeLoop]
    split at hlt
    · rename_i hloop
      rw [if_pos hloop]
      rcases hrun : rmwCluster fsi c (some clusterFree) v with ⟨y | e | _, v1⟩ <;> rw [hrun] at hlt hround
      · rw [bind_ok hrun]
        exact ih y _ v1 (Nat.lt_of_succ_lt_succ hlt)
      · rw [bind_err hrun]
        exact Out.err_ne_hang
      · exact absurd rfl hround.1
    · rename_i hloop
      rw [if_neg hloop]
      exact Out.ok_ne_hang

theorem freeUpdate_terminates (n : Nat) : Terminates (freeUpdate fsi n) := by
  refine .ite (fun _ => .bind (.attempt (bread_terminates _ _)) fun r => ?_) fun _ => .pure _
  cases r with
  | error e => exact .pure _
  | ok b => exact .bind (fun _ => nofun) fun _ => .ite (fun _ => .bind (fun _ => nofun) fun _ => nofun) fun _ => .pure _

/-- The loop of `fat32_free_clusters` makes at most one round more than there are clusters. -/
theorem freeClusters_ends (h : FatEntries fsi) (start : Nat) (freeStart : Bool) (v : Vol) :
    (∀ fuel c w, freeRounds fsi fuel c w ≤ fsi.clusterCount + 1) ∧
      (fsi.clusterCount + 2 ≤ fsi.kernel.fuel → (freeClusters fsi start freeStart v).1 ≠ .hang) := by
  have hrounds (fuel c : Nat) (w : Vol) : freeRounds fsi fuel c w ≤ fsi.clusterCount + 1 := by
    have := freeRounds_le h fuel c w
    have := card_usedEntries_le fsi w.disk
    omega
  refine ⟨hrounds, fun hfuel => ?_⟩
  have hloop (c : Nat) : Terminates (freeLoop fsi fsi.kernel.fuel c 0) := fun w =>
    freeLoop_ne_hang h fsi.kernel.fuel c 0 w (by have := hrounds fsi.kernel.fuel c w; omega)
  refine Terminates.ite (fun _ => .fail _) (fun _ => .ite (fun _ => .bind (rmwCluster_terminates _ _) fun _ =>
    .ite (fun _ => .pure _) fun _ => .bind (hloop _) fun _ => freeUpdate_terminates _) fun _ =>
    .bind (hloop _) fun _ => freeUpdate_terminates _) v

/-- Two clusters that are linked to each other. -/
theorem freeClusters_ends_cycle :
    freeRounds (small 2) 100 2 (image [3, 2] fun _ => []) ≤ 3 ∧
      (freeClusters (small 2) 2 true (image [3, 2] fun _ => [])).1 ≠ .hang := by
  have h := freeClusters_ends small_geometry.fatEntries 2 true (image [3, 2] fun _ => [])
  exact ⟨h.1 100 2 _, h.2 (by decide)⟩

end Fat32
