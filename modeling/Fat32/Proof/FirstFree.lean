import Mathlib
import Fat32.Proof.DataArea

/-!
# The search for a free cluster

`fat32_allocate_cluster` looks at the entries in cyclic order from the hint on
(`cyclicDist`), at each of them once, so that it finds the first free one
(`searchFree_first`). It does not look at all when the cached count of free clusters
is zero or unknown (`nextCluster_zero_iff`).
-/

namespace Fat32

open Bytes Exec Prog

variable {fsi : Fsi} {fat : Nat → Nat} {start c r : Nat} {fl : NcFlags} {v : Vol}

/-- How many entries come before that of `e` in the order from `start` on. -/
def cyclicDist (fsi : Fsi) (start e : Nat) : Nat :=
  if start ≤ e then e - start else e + fsi.clusterCount - start

/-- The first free cluster from `start` on. -/
structure FirstFree (fsi : Fsi) (fat : Nat → Nat) (start r : Nat) : Prop where
  inRange : InRange fsi r
  free : fat r = 0
  first : ∀ e, InRange fsi e → fat e = 0 → cyclicDist fsi start r ≤ cyclicDist fsi start e

/-- Where the search starts. -/
def searchStart (fsi : Fsi) (hint : Nat) : Nat :=
  if hint < clusterMin ∨ hint > maxCluster fsi then clusterMin else hint

theorem cyclicDist_lt (hs : InRange fsi start) (hc : InRange fsi c) :
    cyclicDist fsi start c < fsi.clusterCount := by
  obtain ⟨hs2, hsm⟩ := hs
  obtain ⟨hc2, hcm⟩ := hc
  unfold cyclicDist
  split <;> omega

theorem cyclicDist_self (fsi : Fsi) (start : Nat) : cyclicDist fsi start start = 0 := by
  rw [cyclicDist, if_pos (le_refl _), Nat.sub_self]

/-- Different clusters have different places in the order. -/
theorem cyclicDist_inj (hs : InRange fsi start) (hc : InRange fsi c) (hr : InRange fsi r)
    (h : cyclicDist fsi start c = cyclicDist fsi start r) : c = r := by
  obtain ⟨hs2, hsm⟩ := hs
  obtain ⟨hc2, hcm⟩ := hc
  obtain ⟨hr2, hrm⟩ := hr
  unfold cyclicDist at h
  split at h <;> split at h <;> omega

/-- The next cluster in the order. -/
def cyclicNext (fsi : Fsi) (c : Nat) : Nat :=
  if c + 1 > fsi.clusterCount + 1 then clusterMin else c + 1

theorem cyclicNext_inRange (hc : InRange fsi c) : InRange fsi (cyclicNext fsi c) := by
  obtain ⟨hc2, hcm⟩ := hc
  unfold cyclicNext InRange clusterMin
  split <;> omega

theorem cyclicDist_next (hs : InRange fsi start) (hc : InRange fsi c) :
    if cyclicNext fsi c = start then cyclicDist fsi start c + 1 = fsi.clusterCount
    else cyclicDist fsi start (cyclicNext fsi c) = cyclicDist fsi start c + 1 := by
  obtain ⟨hs2, hsm⟩ := hs
  obtain ⟨hc2, hcm⟩ := hc
  simp only [cyclicNext, cyclicDist, clusterMin]
  split_ifs <;> omega

/-- One step of the search. -/
theorem searchFree_step (hk : Reliable fsi.kernel) (hg : Geometry fsi) (hc : InRange fsi c)
    (start n : Nat) (v : Vol) : ∃ v', Same v v' ∧
      rmwCluster fsi c none v = (.ok ((view fsi v.disk).fat c), v') ∧
      searchFree fsi start (n + 1) c v = (if (view fsi v.disk).fat c = 0 then pure c
        else if cyclicNext fsi c = start then fail .enospc
        else searchFree fsi start n (cyclicNext fsi c)) v' := by
  obtain ⟨v1, e1, s1⟩ := rmwCluster_read hk hg hc v
  have hcnt := hg.count
  simp only [clusterBad] at hcnt
  have hu : u32 (c + 1) = c + 1 := Nat.mod_eq_of_lt (by
    have := hc.2
    omega)
  refine ⟨v1, s1, e1, ?_⟩
  rw [searchFree, bind_ok e1, hu, maxCluster_eq hg]
  rfl

/-- The search finds the first free cluster, if there is one. -/
theorem searchFree_first (hk : Reliable fsi.kernel) (hg : Geometry fsi) (hs : InRange fsi start)
    (n : Nat) : ∀ {c : Nat} {v : Vol}, InRange fsi c → n + cyclicDist fsi start c = fsi.clusterCount →
      (∀ e, InRange fsi e → cyclicDist fsi start e < cyclicDist fsi start c →
        (view fsi v.disk).fat e ≠ 0) →
      ∃ v', Same v v' ∧ ((∃ r, searchFree fsi start n c v = (.ok r, v') ∧
          FirstFree fsi (view fsi v.disk).fat start r) ∨
        searchFree fsi start n c v = (.err .enospc, v') ∧
          ∀ e, InRange fsi e → (view fsi v.disk).fat e ≠ 0) := by
  induction n with
  | zero =>
    intro c v hc hn
    have := cyclicDist_lt hs hc
    omega
  | succ n ih =>
    intro c v hc hn hbefore
    obtain ⟨v1, s1, -, hstep⟩ := searchFree_step hk hg hc start n v
    rw [hstep]
    by_cases hz : (view fsi v.disk).fat c = 0
    · rw [if_pos hz]
      refine ⟨v1, s1, .inl ⟨c, rfl, hc, hz, fun e he h0 => ?_⟩⟩
      by_contra hlt
      exact hbefore e he (not_le.mp hlt) h0
    · rw [if_neg hz]
      have hnext := cyclicDist_next hs hc
      -- everything up to `c` is in use
      have hupto : ∀ e, InRange fsi e → cyclicDist fsi start e < cyclicDist fsi start c + 1 →
          (view fsi v.disk).fat e ≠ 0 := fun e he hlt => by
        rcases Nat.lt_succ_iff_lt_or_eq.mp hlt with hlt | heq
        · exact hbefore e he hlt
        · rwa [cyclicDist_inj hs he hc heq]
      by_cases hd : cyclicNext fsi c = start
      · rw [if_pos hd] at hnext
        rw [if_pos hd]
        refine ⟨v1, s1, .inr ⟨rfl, fun e he => hupto e he ?_⟩⟩
        rw [hnext]
        exact cyclicDist_lt hs he
      · rw [if_neg hd] at hnext
        rw [if_neg hd]
        have hrec := ih (c := cyclicNext fsi c) (v := v1) (cyclicNext_inRange hc) (by omega) (by
          rw [s1.disk, hnext]
          exact hupto)
        rw [s1.disk] at hrec
        obtain ⟨v2, s2, h⟩ := hrec
        exact ⟨v2, s1.trans s2, h⟩

/-- What is left to do for a cluster that was found does not fail. -/
theorem allocateCluster_found (hk : Reliable fsi.kernel) (hg : Geometry fsi) {v v1 : Vol} {p : Nat}
    (hp : p = 0 ∨ InRange fsi p) (hcount : ¬ (v.freeCount = 0 ∨ v.freeCount = 0xFFFFFFFF))
    (hr : InRange fsi r)
    (h : searchFree fsi (searchStart fsi v.nextFree) fsi.clusterCount
      (searchStart fsi v.nextFree) v = (.ok r, v1)) (fl : NcFlags) :
    ∃ v', allocateCluster fsi p fl v = (.ok r, v') := by
  unfold searchStart at h
  obtain ⟨v2, e2, -⟩ := rmwCluster_write hk hg hr clusterEoc v1
  obtain ⟨x, v3, e3⟩ : ∃ x v3, (if p ≠ 0 then attempt (rmwCluster fsi p (some r))
      else pure (.ok 0)) v2 = (.ok (.ok x), v3) := by
    by_cases hp0 : p = 0
    · rw [if_neg (not_not.mpr hp0)]
      exact ⟨0, v2, rfl⟩
    · rw [if_pos hp0]
      obtain ⟨v3, e3, -⟩ := rmwCluster_write hk hg (hp.resolve_left hp0) r v2
      exact ⟨_, v3, attempt_ok e3⟩
  simp only [allocateCluster, get_bind_run, if_neg hcount]
  rw [bind_ok h, bind_ok e2, bind_ok e3]
  simp only
  obtain ⟨v4, v5, e4, e5, -⟩ := info_ok hk hg (sub32 v.freeCount 1)
    (if u32 (r + 1) > maxCluster fsi then clusterMin else u32 (r + 1)) v3
  rw [bind_ok e4, bind_ok e5, modify_bind_run]
  by_cases hclear : fl.clear = true
  · obtain ⟨v6, e6, -⟩ := clearCluster_ok hg hr { v5 with
      freeCount := sub32 v.freeCount 1
      nextFree := if u32 (r + 1) > maxCluster fsi then clusterMin else u32 (r + 1) }
    exact ⟨v6, by rw [if_pos hclear, bind_ok e6]; rfl⟩
  · exact ⟨_, by rw [if_neg hclear]; rfl⟩

theorem searchStart_inRange (hg : Geometry fsi) (hpos : 0 < fsi.clusterCount) (hint : Nat) :
    InRange fsi (searchStart fsi hint) := by
  unfold searchStart
  split
  · exact ⟨le_refl _, by show 2 ≤ _; omega⟩
  · rename_i h
    exact (inRange_iff hg _).mpr h

/-- Without a search there is nothing to give. -/
theorem allocateCluster_full (hk : Reliable fsi.kernel) (hg : Geometry fsi) (p : Nat) (fl : NcFlags)
    (h : v.freeCount = 0 ∨ v.freeCount = 0xFFFFFFFF ∨
      ∀ e, InRange fsi e → (view fsi v.disk).fat e ≠ 0) :
    (allocateCluster fsi p fl v).1 = .err .enospc := by
  simp only [allocateCluster, get_bind_run]
  by_cases h0 : v.freeCount = 0 ∨ v.freeCount = 0xFFFFFFFF
  · rw [if_pos h0]
    rfl
  · rw [if_neg h0]
    have hall := h.resolve_left fun h => h0 (.inl h)
    have hall := hall.resolve_left fun h => h0 (.inr h)
    show (( searchFree fsi (searchStart fsi v.nextFree) fsi.clusterCount
      (searchStart fsi v.nextFree) >>= _) v).1 = _
    rcases Nat.eq_zero_or_pos fsi.clusterCount with hz | hpos
    · rw [hz]
      rfl
    · have hs := searchStart_inRange hg hpos v.nextFree
      obtain ⟨v1, -, ⟨r, -, hr⟩ | ⟨e, -⟩⟩ := searchFree_first hk hg hs fsi.clusterCount (v := v) hs
        (by rw [cyclicDist_self, Nat.add_zero]) fun e _ hlt => by
          rw [cyclicDist_self] at hlt
          exact absurd hlt (Nat.not_lt_zero _)
      · exact absurd hr.free (hall r hr.inRange)
      · rw [bind_err e]

/-- With a known count that is not zero, a cluster is given if there is one, and it is
the first free one from the hint on. -/
theorem nextCluster_zero_iff (hk : Reliable fsi.kernel) (hg : Geometry fsi) (hfl : fl.alloc = true) :
    ((∃ r, (nextCluster fsi 0 fl v).1 = .ok r) ↔ v.freeCount ≠ 0 ∧ v.freeCount ≠ 0xFFFFFFFF ∧
      ∃ e, InRange fsi e ∧ (view fsi v.disk).fat e = 0) ∧
    (∀ r, (nextCluster fsi 0 fl v).1 = .ok r →
      FirstFree fsi (view fsi v.disk).fat (searchStart fsi v.nextFree) r) ∧
    ((∀ r, (nextCluster fsi 0 fl v).1 ≠ .ok r) → (nextCluster fsi 0 fl v).1 = .err .enospc) := by
  rw [nextCluster_zero hfl]
  by_cases h : v.freeCount ≠ 0 ∧ v.freeCount ≠ 0xFFFFFFFF ∧
      ∃ e, InRange fsi e ∧ (view fsi v.disk).fat e = 0
  · obtain ⟨h0, hunknown, e, he, hz⟩ := h
    have hpos : 0 < fsi.clusterCount := by
      have := he.1
      have := he.2
      omega
    have hs := searchStart_inRange hg hpos v.nextFree
    obtain ⟨v1, -, ⟨r, hsearch, hr⟩ | ⟨-, hall⟩⟩ := searchFree_first hk hg hs fsi.clusterCount (v := v)
      hs (by rw [cyclicDist_self, Nat.add_zero]) fun e _ hlt => by
        rw [cyclicDist_self] at hlt
        exact absurd hlt (Nat.not_lt_zero _)
    · obtain ⟨v2, e2⟩ := allocateCluster_found hk hg (.inl rfl) (fun h => h.elim h0 hunknown)
        hr.inRange hsearch fl
      rw [e2]
      refine ⟨⟨fun _ => ⟨h0, hunknown, e, he, hz⟩, fun _ => ⟨r, rfl⟩⟩, fun r' hr' => ?_,
        fun h => absurd rfl (h r)⟩
      cases hr'
      exact hr
    · exact absurd hz (hall e he)
  · have hfull : (allocateCluster fsi 0 fl v).1 = .err .enospc := by
      refine allocateCluster_full hk hg 0 fl ?_
      by_contra hno
      push Not at hno
      exact h hno
    rw [hfull]
    refine ⟨⟨?_, fun h' => absurd h' h⟩, nofun, fun _ => rfl⟩
    rintro ⟨r, hr⟩
    cases hr

/-- The only free cluster. -/
theorem nextCluster_zero_last :
    FirstFree (small 2) (view (small 2) (image [clusterEoc, 0] fun _ => []).disk).fat 2 3 :=
  (@nextCluster_zero_iff (small 2) { alloc := true } (image [clusterEoc, 0] fun _ => [])
    ⟨fun _ => rfl⟩ small_geometry rfl).2.1 3 (by decide +kernel)

/-- Both clusters are free, and their number is not known. -/
theorem unknownCount_refused : InRange (small 2) 2 ∧
    (view (small 2) (image [0, 0] fun _ => []).disk).fat 2 = 0 ∧
    (nextCluster (small 2) 0 { alloc := true }
      { image [0, 0] fun _ => [] with freeCount := 0xFFFFFFFF, nextFree := 0xFFFFFFFF }).1 =
      .err .enospc := by
  refine ⟨by decide, by decide +kernel, by decide +kernel⟩

end Fat32
