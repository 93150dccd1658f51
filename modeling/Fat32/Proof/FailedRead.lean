import Mathlib
import Fat32.Lib.Fault
import Fat32.Proof.FirstFree

/-!
# A device on which one read fails

`Fsi.failAt` is a volume whose block layer answers every read but one. Reading an
entry and searching the FAT are then interrupted or not (`Interrupted`), and leave the
disk as it was. A write to the FAT reads the sector of each copy before it changes it:
a failing read of a later copy leaves the first one changed (`rmwCluster_torn`), which
is the one that the driver reads from then on.
-/

namespace Fat32

open Bytes Exec Prog

/-- The volume whose read number `j` fails. -/
def Fsi.failAt (fsi : Fsi) (j : Nat) (e : Errno) : Fsi :=
  { fsi with kernel := { fsi.kernel with readErr := fun n => if n = j then some e else none } }

/-- How often blocks were read. -/
abbrev Vol.reads (v : Vol) : Nat := v.io.nread

variable {fsi : Fsi} {j : Nat} {e : Errno} {c r start : Nat} {v : Vol}

theorem Geometry.failAt (hg : Geometry fsi) (j : Nat) (e : Errno) : Geometry (fsi.failAt j e) :=
  ⟨hg.sectorShift, hg.sectorMask, hg.spc, hg.bpc, hg.clusterShift, hg.clusterMask, hg.count,
    hg.numFats, hg.fatSize, hg.fatEnd, hg.dataEnd, hg.fatData, hg.infoFat, hg.infoData⟩

theorem failAt_readErr {n : Nat} {x : Errno} :
    (fsi.failAt j e).kernel.readErr n = some x ↔ n = j ∧ e = x := by
  show (if n = j then some e else none) = some x ↔ _
  split <;> simp [*]

theorem failAt_ne {n : Nat} (h : (fsi.failAt j e).kernel.readErr n = none) : n ≠ j := by
  intro heq
  rw [failAt_readErr.mpr ⟨heq, rfl⟩] at h
  exact nomatch h

/-- The two ends of a read. -/
theorem bread_cases (fsi : Fsi) (s n : Nat) (v : Vol) : ∃ v', Same v v' ∧
    ((∃ e, fsi.kernel.readErr v.reads = some e ∧ bread fsi s n v = (.err e, v')) ∨
      fsi.kernel.readErr v.reads = none ∧
        bread fsi s n v = (.ok ⟨s, n, fun o => v.disk (512 * s + o)⟩, v')) := by
  refine ⟨{ v with io := { v.io with nread := v.io.nread + 1, log := .bread s n :: v.io.log } },
    ⟨rfl, rfl, rfl⟩, ?_⟩
  unfold bread
  cases h : fsi.kernel.readErr v.io.nread with
  | some e => exact .inl ⟨e, rfl, rfl⟩
  | none => exact .inr ⟨rfl, rfl⟩

theorem bread_interrupted (hk : Reliable fsi.kernel) (s n : Nat) :
    Interrupted Vol.reads j e (bread fsi s n) (bread (fsi.failAt j e) s n) := by
  intro v
  have hcount : (bread fsi s n v).2.reads = v.reads + 1 := by
    simp only [bread, hk.read]
  refine ⟨hcount ▸ Nat.le_succ _, fun h => ?_, fun h => ?_⟩
  · obtain ⟨h1, h2⟩ := h
    rw [hcount] at h2
    obtain rfl : v.reads = j := Nat.le_antisymm h1 (Nat.lt_succ_iff.mp h2)
    simp only [bread, Fsi.failAt, if_true, true_and]
    exact Nat.lt_succ_self _
  · have hne : v.io.nread ≠ j := fun heq => h ⟨heq.le, by rw [hcount]; exact Nat.lt_succ_of_le heq.ge⟩
    simp only [bread, Fsi.failAt, hk.read, if_neg hne]

theorem rmwCopies_interrupted (hk : Reliable fsi.kernel) (x o n : Nat) : ∀ s b,
    Interrupted Vol.reads j e (rmwCopies fsi x o n s b) (rmwCopies (fsi.failAt j e) x o n s b) := by
  induction n with
  | zero => exact fun _ _ => .pure ()
  | succ n ih =>
    intro s b
    refine .bind (.of_still fun _ => rfl) fun _ => .ite (fun _ => .pure ()) fun _ => ?_
    exact .bind (bread_interrupted hk _ _) fun b => ih _ b

theorem rmwCluster_interrupted (hk : Reliable fsi.kernel) (c : Nat) (new : Option Nat) :
    Interrupted Vol.reads j e (rmwCluster fsi c new) (rmwCluster (fsi.failAt j e) c new) := by
  refine .ite (fun _ => .fail _) fun _ => .bind (bread_interrupted hk _ _) fun b => ?_
  cases new with
  | none => exact .pure _
  | some x => exact .bind (rmwCopies_interrupted hk _ _ _ _ b) fun _ => .pure _

theorem searchFree_interrupted (hk : Reliable fsi.kernel) (start n : Nat) : ∀ c,
    Interrupted Vol.reads j e (searchFree fsi start n c) (searchFree (fsi.failAt j e) start n c) := by
  induction n with
  | zero => exact fun _ => .fail _
  | succ n ih =>
    intro c
    refine .bind (rmwCluster_interrupted hk c none) fun _ => .ite (fun _ => .pure _) fun _ => ?_
    exact .ite (fun _ => .fail _) fun _ => ih _

theorem searchFree_quiet (start n : Nat) : ∀ c, Quiet id (searchFree fsi start n c) := by
  induction n with
  | zero => exact fun _ => .fail _
  | succ n ih =>
    intro c
    refine .bind (rmwCluster_quiet c) fun _ => .ite (fun _ => .pure _) fun _ => ?_
    exact .ite (fun _ => .fail _) fun _ => ih _

/-! ## How many reads -/

theorem bread_reads (hk : Reliable fsi.kernel) (s n : Nat) (v : Vol) :
    (bread fsi s n v).2.reads = v.reads + 1 := by
  simp only [bread, hk.read]

theorem rmwCopies_reads (hk : Reliable fsi.kernel) (x o n : Nat) : ∀ s b (v : Vol),
    (rmwCopies fsi x o (n + 1) s b v).2.reads = v.reads + n := by
  induction n with
  | zero => exact fun _ _ _ => rfl
  | succ n ih =>
    intro s b v
    obtain ⟨v1, e1, -, -, -⟩ := bdwrite_ok b.sector b.nblk (wle32 x b.data o) v
    have h1 : v1.reads = v.reads := by
      cases e1
      rfl
    obtain ⟨v2, e2, -⟩ := bread_ok hk (u32 (s + fsi.fatSize)) 1 v1
    have h2 : v2.reads = v1.reads + 1 := by
      rw [← bread_reads hk (u32 (s + fsi.fatSize)) 1 v1, e2]
    rw [rmwCopies, bind_ok e1, if_neg (Nat.succ_ne_zero n), bind_ok e2, ih]
    omega

/-- The part of `rmwCluster` that stores a value. -/
theorem rmwCluster_some (hg : Geometry fsi) (hc : InRange fsi c) (x : Nat) :
    rmwCluster fsi c (some x) = (do
      let bp ← bread fsi (fsi.fatStart + c * 4 / 512) 1
      rmwCopies fsi x (c * 4 % 512) fsi.numFats (fsi.fatStart + c * 4 / 512) bp
      pure (rle32 bp.data (c * 4 % 512) % 2 ^ 28)) :=
  rmwCluster_eq hg hc (some x)

theorem rmwCluster_write_reads (hk : Reliable fsi.kernel) (hg : Geometry fsi) (hc : InRange fsi c)
    (x : Nat) (v : Vol) : (rmwCluster fsi c (some x) v).2.reads = v.reads + fsi.numFats := by
  obtain ⟨n, hn⟩ : ∃ n, fsi.numFats = n + 1 := ⟨fsi.numFats - 1, by have := hg.numFats; omega⟩
  obtain ⟨v1, e1, -⟩ := bread_ok hk (fsi.fatStart + c * 4 / 512) 1 v
  have h1 : v1.reads = v.reads + 1 := by
    rw [← bread_reads hk (fsi.fatStart + c * 4 / 512) 1 v, e1]
  rw [rmwCluster_some hg hc, bind_ok e1, hn, bind_pure_state, rmwCopies_reads hk]
  omega

theorem rmwCluster_read_reads (hk : Reliable fsi.kernel) (hg : Geometry fsi) (hc : InRange fsi c)
    (v : Vol) : (rmwCluster fsi c none v).2.reads = v.reads + 1 := by
  obtain ⟨v1, e1, -⟩ := bread_ok hk (fsi.fatStart + c * 4 / 512) 1 v
  rw [rmwCluster_eq hg hc, bind_ok e1, ← bread_reads hk (fsi.fatStart + c * 4 / 512) 1 v, e1]
  rfl

/-- The search reads one entry after the other up to the one it finds. -/
theorem searchFree_reads (hk : Reliable fsi.kernel) (hg : Geometry fsi) (hs : InRange fsi start)
    (n : Nat) : ∀ {c : Nat} {v : Vol}, InRange fsi c → (searchFree fsi start n c v).1 = .ok r →
      (searchFree fsi start n c v).2.reads + cyclicDist fsi start c =
        v.reads + cyclicDist fsi start r + 1 := by
  induction n with
  | zero => exact fun _ h => nomatch h
  | succ n ih =>
    intro c v hc h
    obtain ⟨v1, -, e1, hstep⟩ := searchFree_step hk hg hc start n v
    have h1 : v1.reads = v.reads + 1 := by
      rw [← rmwCluster_read_reads hk hg hc v, e1]
    rw [hstep] at h ⊢
    by_cases hz : (view fsi v.disk).fat c = 0
    · rw [if_pos hz] at h ⊢
      obtain rfl : c = r := Out.ok.inj h
      show v1.reads + _ = _
      omega
    · rw [if_neg hz] at h ⊢
      by_cases hd : cyclicNext fsi c = start
      · rw [if_pos hd] at h
        exact nomatch h
      · rw [if_neg hd] at h ⊢
        have hnext := cyclicDist_next hs hc
        rw [if_neg hd] at hnext
        have := ih (cyclicNext_inRange hc) h
        omega

/-! ## A write to the FAT that stops half-way -/

/-- `d'` is `d` with `x` stored in the entry of cluster `c`, in the first FAT copy and in
some of the others. -/
structure FatTorn (fsi : Fsi) (c x : Nat) (d d' : Nat → UInt8) : Prop where
  here : rle32 d' (fatAddr fsi 0 c) = u32 x
  frame : ∀ a, (∀ k < fsi.numFats, a < fatAddr fsi k c ∨ fatAddr fsi k c + 4 ≤ a) → d' a = d a

theorem FatTorn.copy (hg : Geometry fsi) {x d : Nat} {f f' : Nat → UInt8} (h : FatTorn fsi c x f f')
    (hc : InRange fsi c) (hd : d ≤ fsi.clusterCount + 1) :
    fatCopy fsi f' 0 d = if d = c then x % 2 ^ 28 else fatCopy fsi f 0 d := by
  split
  · subst d
    rw [fatCopy, h.here, u32]
    omega
  · rename_i hne
    rw [fatCopy, fatCopy]
    congr 1
    refine rle32_congr fun i hi => h.frame _ fun l _ => ?_
    have := fatAddr_apart hg (k := 0) (l := l) hd hc.2 (.inr hne)
    omega

/-- Whatever the device answers: the first copy is written, and only entries of the
cluster are. -/
theorem rmwCopies_torn (hg : Geometry fsi) (hc : InRange fsi c) (x n : Nat) : ∀ (k : Nat) (v : Vol),
    k + n = fsi.numFats →
    WP (rmwCopies fsi x (c * 4 % 512) n (fsi.fatStart + k * fsi.fatSize + c * 4 / 512)
        ⟨fsi.fatStart + k * fsi.fatSize + c * 4 / 512, 1,
          fun o => v.disk (512 * (fsi.fatStart + k * fsi.fatSize + c * 4 / 512) + o)⟩) v fun _ v' =>
      (0 < n → rle32 v'.disk (fatAddr fsi k c) = u32 x) ∧
      (∀ a, (∀ l, k ≤ l → l < fsi.numFats → a < fatAddr fsi l c ∨ fatAddr fsi l c + 4 ≤ a) →
        v'.disk a = v.disk a) ∧
      v'.freeCount = v.freeCount ∧ v'.nextFree = v.nextFree := by
  induction n with
  | zero => exact fun _ _ _ => .of_run rfl ⟨fun h => absurd h (lt_irrefl 0), fun _ _ => rfl, rfl, rfl⟩
  | succ n ih =>
    intro k v hkn
    have ho : c * 4 % 512 + 4 ≤ 512 * 1 := by omega
    obtain ⟨v1, e1, d1, f1, n1⟩ := bdwrite_poke (s := fsi.fatStart + k * fsi.fatSize + c * 4 / 512)
      ho (byteOf x) v
    rw [entry_at] at d1
    have here : rle32 v1.disk (fatAddr fsi k c) = u32 x := by rw [d1, rle32_poke]
    have frame (a) (ha : ∀ l, k ≤ l → l < fsi.numFats →
        a < fatAddr fsi l c ∨ fatAddr fsi l c + 4 ≤ a) : v1.disk a = v.disk a := by
      rw [d1, poke_outside (ha k (Nat.le_refl _) (by omega))]
    rw [rmwCopies, wle32]
    refine .ok_bind e1 (.ite (fun _ => .of_run rfl ⟨fun _ => here, frame, f1, n1⟩) fun hn => ?_)
    -- the sector of the next copy does not wrap
    have harea := fatAddr_area hg (k := k + 1) (c := c) (by omega) hc.2
    have hend := hg.fatEnd
    have hsec : u32 (fsi.fatStart + k * fsi.fatSize + c * 4 / 512 + fsi.fatSize) =
        fsi.fatStart + (k + 1) * fsi.fatSize + c * 4 / 512 := by
      have hmul : (k + 1) * fsi.fatSize = k * fsi.fatSize + fsi.fatSize := Nat.succ_mul _ _
      rw [← entry_at] at harea
      simp only [u32]
      omega
    rw [hsec]
    obtain ⟨v2, s2, ⟨e, -, e2⟩ | ⟨-, e2⟩⟩ := bread_cases fsi
      (fsi.fatStart + (k + 1) * fsi.fatSize + c * 4 / 512) 1 v1
    · refine .err_bind e2 ⟨fun _ => ?_, fun a ha => ?_, s2.free.trans f1, s2.next.trans n1⟩
      · rw [s2.disk, here]
      · rw [s2.disk, frame a ha]
    · refine .ok_bind e2 ?_
      have hrest := ih (k + 1) v2 (by omega)
      rw [s2.disk] at hrest
      refine hrest.mono fun _ v3 h3 => ?_
      obtain ⟨-, f3, c3, n3⟩ := h3
      refine ⟨fun _ => ?_, fun a ha => ?_, c3.trans (s2.free.trans f1), n3.trans (s2.next.trans n1)⟩
      · rw [← here]
        refine rle32_congr fun i hi => f3 _ fun l hl _ => ?_
        have := fatAddr_apart hg (k := k) (l := l) hc.2 hc.2 (.inl (by omega))
        omega
      · rw [f3 a fun l hl hl' => ha l (by omega) hl', frame a ha]

/-- A write of an entry, whatever the device answers: it fails before it changed
anything, or the first copy is written. -/
theorem rmwCluster_torn (hg : Geometry fsi) (hc : InRange fsi c) (x : Nat) (v : Vol) :
    (∃ e v', fsi.kernel.readErr v.reads = some e ∧ Same v v' ∧
      rmwCluster fsi c (some x) v = (.err e, v')) ∨
    fsi.kernel.readErr v.reads = none ∧
      WP (rmwCluster fsi c (some x)) v fun _ v' => FatTorn fsi c x v.disk v'.disk ∧
        v'.freeCount = v.freeCount ∧ v'.nextFree = v.nextFree := by
  rw [rmwCluster_some hg hc]
  obtain ⟨v1, s1, ⟨e, he, e1⟩ | ⟨he, e1⟩⟩ := bread_cases fsi (fsi.fatStart + c * 4 / 512) 1 v
  · exact .inl ⟨e, v1, he, s1, bind_err e1⟩
  · refine .inr ⟨he, .ok_bind e1 ?_⟩
    have h := rmwCopies_torn hg hc x fsi.numFats 0 v1 (Nat.zero_add _)
    rw [Nat.zero_mul, Nat.add_zero, s1.disk] at h
    have torn (v2 : Vol) (h : (0 < fsi.numFats → rle32 v2.disk (fatAddr fsi 0 c) = u32 x) ∧
        (∀ a, (∀ l, 0 ≤ l → l < fsi.numFats → a < fatAddr fsi l c ∨ fatAddr fsi l c + 4 ≤ a) →
          v2.disk a = v.disk a) ∧ v2.freeCount = v1.freeCount ∧ v2.nextFree = v1.nextFree) :
        FatTorn fsi c x v.disk v2.disk ∧ v2.freeCount = v.freeCount ∧ v2.nextFree = v.nextFree := by
      obtain ⟨h1, h2, h3, h4⟩ := h
      exact ⟨⟨h1 hg.numFats, fun a ha => h2 a fun l _ hl => ha l hl⟩, h3.trans s1.free,
        h4.trans s1.next⟩
    exact .bind h (fun _ v2 h => .of_run rfl (torn v2 h)) (fun _ v2 h => torn v2 h)
      fun v2 h => torn v2 h

/-- The write of the entry of the cluster, when read `j` fails: it is not reached or over
(and then all copies are written), it is the first one, or a later one. -/
theorem rmwCluster_failAt (hk : Reliable fsi.kernel) (hg : Geometry fsi) (hc : InRange fsi c)
    (x : Nat) (v : Vol) :
    ((j < v.reads ∨ v.reads + fsi.numFats ≤ j) ∧ ∃ y v',
      rmwCluster (fsi.failAt j e) c (some x) v = (.ok y, v') ∧ FatSet fsi c x v.disk v'.disk ∧
        v'.freeCount = v.freeCount ∧ v'.nextFree = v.nextFree ∧ v'.reads = v.reads + fsi.numFats) ∨
    (j = v.reads ∧ ∃ v', rmwCluster (fsi.failAt j e) c (some x) v = (.err e, v') ∧ Same v v' ∧
      j < v'.reads) ∨
    ((v.reads < j ∧ j < v.reads + fsi.numFats) ∧ ∃ v',
      rmwCluster (fsi.failAt j e) c (some x) v = (.err e, v') ∧ FatTorn fsi c x v.disk v'.disk ∧
        v'.freeCount = v.freeCount ∧ v'.nextFree = v.nextFree ∧ j < v'.reads) := by
  have hreads := rmwCluster_write_reads hk hg hc x v
  rcases (rmwCluster_interrupted (j := j) (e := e) hk c (some x) v).cases with
    ⟨u, hu, hlo, hhi, hlt⟩ | ⟨hu, hj⟩
  · rw [hreads] at hhi
    rcases @rmwCluster_torn (fsi.failAt j e) c (hg.failAt j e) hc x v with
      ⟨x, v', he, s, h⟩ | ⟨hnone, h⟩
    · rw [hu] at h
      cases h
      exact .inr (.inl ⟨(failAt_readErr.mp he).1.symm, u, hu, s, hlt⟩)
    · unfold WP at h
      rw [hu] at h
      obtain ⟨h, hf, hn⟩ := h
      exact .inr (.inr ⟨⟨lt_of_le_of_ne hlo (failAt_ne hnone), hhi⟩, u, hu, ⟨h.here, h.frame⟩, hf, hn, hlt⟩)
  · rw [hreads] at hj
    obtain ⟨v', h, hset, hf, hn⟩ := rmwCluster_write hk hg hc x v
    rw [h] at hreads
    exact .inl ⟨hj, _, v', hu.trans h, hset, hf, hn, hreads⟩


end Fat32
