import Mathlib
import Fat32.Impl.File
import Fat32.Proof.Chain

/-!
# The cluster cache

`CacheOk`: every live entry of the cache is the cluster that its index leads to.
Adding what a seek found keeps this, and so does a chain that grows or is cut
together with the cache. The best entry for an index is then a point on the way
to it, from which `vnodeSeekCluster` does the rest of what `seekCluster` does
(`vnodeSeekCluster_refines`).
-/

namespace Fat32

open Bytes Exec Prog Linked

/-- Every live entry is the cluster that many links after `start`. -/
def CacheOk (fsi : Fsi) (fat : Nat → Nat) (start : Nat) (cache : List ClsCacheEntry) : Prop :=
  ∀ e ∈ cache, e.cluster ≠ 0 → walk (fatNext fsi fat) e.index start = some e.cluster

variable {fsi : Fsi} {fat fat' : Nat → Nat} {a start skip : Nat} {l ext m : List Nat}
  {cache : List ClsCacheEntry}

theorem CacheOk.empty : CacheOk fsi fat start emptyCache := by
  intro e he hne
  rw [List.eq_of_mem_replicate he] at hne
  exact absurd rfl hne

theorem CacheOk.update (h : CacheOk fsi fat start cache) {index cluster : Nat}
    (hc : cluster ≠ 0 → walk (fatNext fsi fat) index start = some cluster) :
    CacheOk fsi fat start (updateCache cache index cluster) := by
  intro e he hne
  rcases List.mem_append.mp he with he | he
  · exact h e (List.mem_of_mem_eraseIdx he) hne
  · obtain rfl := List.mem_singleton.mp he
    exact hc hne

/-- Chains that agree where the cache has entries. -/
theorem CacheOk.of_chain (hg : Geometry fsi) (h : CacheOk fsi fat a cache)
    (hl : FatChain fsi fat a l) (hm : FatChain fsi fat' a m)
    (hlm : ∀ e ∈ cache, e.cluster ≠ 0 → m[e.index]? = l[e.index]?) :
    CacheOk fsi fat' a cache := by
  intro e he hne
  rw [hm.walk_eq (fatEnds hg _), hlm e he hne, ← hl.walk_eq (fatEnds hg _)]
  exact h e he hne

theorem CacheOk.append (hg : Geometry fsi) (h : CacheOk fsi fat a cache)
    (hl : FatChain fsi fat a l) (hm : FatChain fsi fat' a (l ++ ext)) :
    CacheOk fsi fat' a cache := by
  refine h.of_chain hg hl hm fun e he hne => ?_
  have hw := h e he hne
  rw [hl.walk_eq (fatEnds hg _)] at hw
  obtain ⟨hi, -⟩ := List.getElem?_eq_some_iff.mp hw
  exact List.getElem?_append_left hi

/-- The chain is cut to `n` clusters, and the cache to the indices before `n`. -/
theorem CacheOk.drop (hg : Geometry fsi) (h : CacheOk fsi fat a cache)
    (hl : FatChain fsi fat a l) {n : Nat} (hm : FatChain fsi fat' a (l.take n)) :
    CacheOk fsi fat' a (dropCache cache n) := by
  intro e he hne
  obtain ⟨e', he', rfl⟩ := List.mem_map.mp he
  by_cases hd : e'.cluster ≠ 0 ∧ e'.index ≥ n
  · rw [if_pos hd] at hne
    exact absurd rfl hne
  · rw [if_neg hd] at hne ⊢
    rw [hm.walk_eq (fatEnds hg _), List.getElem?_take_of_lt (by
      by_contra hlt; exact hd ⟨hne, not_lt.mp hlt⟩), ← hl.walk_eq (fatEnds hg _)]
    exact h e' he' hne

/-- A file without clusters has no live entry. -/
theorem CacheOk.dead (h : CacheOk fsi fat 0 cache) : ∀ e ∈ cache, e.cluster = 0 := by
  intro e he
  by_contra hne
  have hw := h e he hne
  cases hi : e.index with
  | zero =>
    rw [hi] at hw
    exact hne (Option.some.inj hw).symm
  | succ i =>
    have h0 : fatNext fsi fat 0 = none := if_neg fun h => by have := h.1.1; omega
    rw [hi, walk, h0] at hw
    cases hw

/-! ## The best entry -/

/-- A point on the way from `start` to the index `skip`. -/
def OnWay (fsi : Fsi) (fat : Nat → Nat) (start skip : Nat) (e : ClsCacheEntry) : Prop :=
  walk (fatNext fsi fat) e.index start = some e.cluster ∧ e.index ≤ skip

theorem OnWay.step {best e : ClsCacheEntry} (hb : OnWay fsi fat start skip best)
    (he : e.cluster ≠ 0 → walk (fatNext fsi fat) e.index start = some e.cluster) :
    OnWay fsi fat start skip (bestStep skip best e) := by
  unfold bestStep
  by_cases h0 : e.cluster = 0
  · rwa [if_pos h0]
  · rw [if_neg h0]
    split
    · rename_i h
      exact ⟨he h0, h.1⟩
    · exact hb

theorem bestEntry_onWay (h : CacheOk fsi fat start cache) (skip : Nat) :
    OnWay fsi fat start skip (bestEntry cache start skip) := by
  have fold : ∀ (cs : List ClsCacheEntry) (best : ClsCacheEntry), (∀ e ∈ cs, e ∈ cache) →
      OnWay fsi fat start skip best → OnWay fsi fat start skip (cs.foldl (bestStep skip) best) := by
    intro cs
    induction cs with
    | nil => exact fun _ _ hb => hb
    | cons e cs ih =>
      intro best hmem hb
      exact ih _ (fun e he => hmem e (List.mem_cons_of_mem _ he))
        (hb.step (h e (hmem e List.mem_cons_self)))
  exact fold cache ⟨0, start⟩ (fun _ he => he) ⟨rfl, Nat.zero_le _⟩

/-- From a state without live entries the search starts at the first cluster. -/
theorem bestEntry_dead (h : ∀ e ∈ cache, e.cluster = 0) (start skip : Nat) :
    bestEntry cache start skip = ⟨0, start⟩ := by
  have fold : ∀ (cs : List ClsCacheEntry) (best : ClsCacheEntry), (∀ e ∈ cs, e ∈ cache) →
      cs.foldl (bestStep skip) best = best := by
    intro cs
    induction cs with
    | nil => exact fun _ _ => rfl
    | cons e cs ih =>
      intro best hmem
      have hstep : bestStep skip best e = best := if_pos (h e (hmem e List.mem_cons_self))
      rw [List.foldl_cons, hstep]
      exact ih best fun e he => hmem e (List.mem_cons_of_mem _ he)
  exact fold cache _ fun _ he => he

/-! ## Seeking through the cache -/

theorem seekLoop_zero (fl : NcFlags) (c : Nat) (v : Vol) : seekLoop fsi fl 0 c v = (.ok c, v) := rfl

/-- Seeking from a point on the way. -/
theorem seekLoop_from (hk : Reliable fsi.kernel) (hg : Geometry fsi) (fl : NcFlags) {c i : Nat}
    {v : Vol} (h : walk (fatNext fsi (view fsi v.disk).fat) i start = some c) (n : Nat) :
    ∃ v', Same v v' ∧ seekLoop fsi fl (i + n) start v = seekLoop fsi fl n c v' := by
  induction i generalizing start v with
  | zero =>
    obtain rfl := Option.some.inj h
    exact ⟨v, .refl v, by rw [Nat.zero_add]⟩
  | succ i ih =>
    obtain ⟨d, hd, hw⟩ := Option.bind_eq_some_iff.mp h
    obtain ⟨v1, e1, s1⟩ := nextCluster_link hk hg hd fl
    obtain ⟨v2, s2, e2⟩ := ih (v := v1) (s1.disk.symm ▸ hw)
    refine ⟨v2, s1.trans s2, ?_⟩
    rw [Nat.succ_add, seekLoop, bind_ok e1, e2]

theorem sub32_of_le {x y : Nat} (h : y ≤ x) (hx : x < 2 ^ 32) : sub32 x y = x - y := by
  simp only [sub32, u32]
  omega

/-- `vnodeSeekCluster` is a seek from the best entry, and a new cache entry. -/
theorem vnodeSeekCluster_run {skip n : Nat} (fl : NcFlags) {s : VnSt} {best : ClsCacheEntry}
    (hbest : bestEntry s.fv.clsCache s.fv.cluster skip = best) (hn : sub32 skip best.index = n) :
    vnodeSeekCluster fsi skip fl s =
      match seekLoop fsi fl n best.cluster s.vol with
      | (.ok d, v) => (.ok d, ⟨v, { s.fv with clsCache := updateCache s.fv.clsCache skip d }⟩)
      | (.err e, v) => (.err e, ⟨v, s.fv⟩)
      | (.hang, v) => (.hang, ⟨v, s.fv⟩) := by
  rw [vnodeSeekCluster, get_bind_run]
  simp only [hbest, hn, seekCluster_eq]
  by_cases hr : n > 0
  · rw [if_pos hr, bind_run, onVol, on]
    rcases seekLoop fsi fl n best.cluster s.vol with ⟨d | e | _, v⟩ <;> rfl
  · rw [if_neg hr, Nat.eq_zero_of_not_pos hr, seekLoop_zero]
    rfl
theorem vnodeSeekCluster_best (hskip : skip < 2 ^ 32) (fl : NcFlags) {s : VnSt}
    (h : CacheOk fsi fat s.fv.cluster s.fv.clsCache) :
    vnodeSeekCluster fsi skip fl s =
      match seekLoop fsi fl (skip - (bestEntry s.fv.clsCache s.fv.cluster skip).index)
        (bestEntry s.fv.clsCache s.fv.cluster skip).cluster s.vol with
      | (.ok d, v) => (.ok d, ⟨v, { s.fv with clsCache := updateCache s.fv.clsCache skip d }⟩)
      | (.err e, v) => (.err e, ⟨v, s.fv⟩)
      | (.hang, v) => (.hang, ⟨v, s.fv⟩) := by
  obtain ⟨-, hle⟩ := bestEntry_onWay h skip
  exact vnodeSeekCluster_run fl rfl (sub32_of_le hle hskip)

/-- The best entry is a point on the way. -/
theorem vnodeSeekCluster_eq (hskip : skip < 2 ^ 32) (fl : NcFlags) {s : VnSt}
    (h : CacheOk fsi fat s.fv.cluster s.fv.clsCache) :
    ∃ i c, walk (fatNext fsi fat) i s.fv.cluster = some c ∧ i ≤ skip ∧
      vnodeSeekCluster fsi skip fl s = match seekLoop fsi fl (skip - i) c s.vol with
        | (.ok d, v) => (.ok d,
            ⟨v, { s.fv with clsCache := updateCache s.fv.clsCache skip d }⟩)
        | (.err e, v) => (.err e, ⟨v, s.fv⟩)
        | (.hang, v) => (.hang, ⟨v, s.fv⟩) := by
  obtain ⟨hw, hle⟩ := bestEntry_onWay h skip
  exact ⟨_, _, hw, hle, vnodeSeekCluster_best hskip fl h⟩

/-- The cached seek returns what the plain seek returns, and leaves the same disk
and counters. -/
theorem vnodeSeekCluster_refines (hk : Reliable fsi.kernel) (hg : Geometry fsi)
    (hskip : skip < 2 ^ 32) (fl : NcFlags) {s : VnSt}
    (h : CacheOk fsi (view fsi s.vol.disk).fat s.fv.cluster s.fv.clsCache) :
    (vnodeSeekCluster fsi skip fl s).1 = (seekCluster fsi s.fv.cluster skip fl s.vol).1 ∧
      Same (vnodeSeekCluster fsi skip fl s).2.vol (seekCluster fsi s.fv.cluster skip fl s.vol).2 := by
  obtain ⟨i, c, hw, hi, e⟩ := vnodeSeekCluster_eq hskip fl h
  obtain ⟨v1, s1, e1⟩ := seekLoop_from hk hg fl hw (skip - i)
  rw [Nat.add_sub_cancel' hi] at e1
  have hsim := (same_fatSim hk fl).seekLoop (skip - i) c s.vol v1 s1
  rw [e, seekCluster_eq, e1]
  rcases hs : seekLoop fsi fl (skip - i) c s.vol with ⟨d | x | _, v⟩ <;> rw [hs] at hsim <;>
    exact hsim

/-- Seeking in a chain through the cache. -/
theorem vnodeSeekCluster_ok (hk : Reliable fsi.kernel) (hg : Geometry fsi) (hskip : skip < 2 ^ 32)
    (fl : NcFlags) {s : VnSt} (hl : FatChain fsi (view fsi s.vol.disk).fat s.fv.cluster l)
    (h : CacheOk fsi (view fsi s.vol.disk).fat s.fv.cluster s.fv.clsCache) :
    ∃ v ext, Grown fsi s.fv.cluster l ext fl.clear s.vol v ∧
      ((∃ d, vnodeSeekCluster fsi skip fl s = (.ok d,
          ⟨v, { s.fv with clsCache := updateCache s.fv.clsCache skip d }⟩) ∧
          (l ++ ext)[skip]? = some d) ∨
        (vnodeSeekCluster fsi skip fl s = (.err .enospc, ⟨v, s.fv⟩) ∧
          (l ++ ext).length ≤ skip)) := by
  obtain ⟨i, c, hw, hi, e⟩ := vnodeSeekCluster_eq hskip fl h
  rw [hl.walk_eq (fatEnds hg _)] at hw
  obtain ⟨v, ext, g, ⟨d, hd, hdi⟩ | ⟨he, hlen⟩⟩ := seekLoop_grown hk hg fl (skip - i) hl hw
  · rw [Nat.add_sub_cancel' hi] at hdi
    exact ⟨v, ext, g, .inl ⟨d, by rw [e, hd], hdi⟩⟩
  · rw [Nat.add_sub_cancel' hi] at hlen
    exact ⟨v, ext, g, .inr ⟨by rw [e, he], hlen⟩⟩

/-- Without `NC_ALLOC` nothing grows. -/
theorem vnodeSeekCluster_read (hk : Reliable fsi.kernel) (hg : Geometry fsi)
    (hskip : skip < 2 ^ 32) {fl : NcFlags} (hfl : fl.alloc = false) {s : VnSt}
    (hl : FatChain fsi (view fsi s.vol.disk).fat s.fv.cluster l)
    (h : CacheOk fsi (view fsi s.vol.disk).fat s.fv.cluster s.fv.clsCache) :
    ∃ v, Same s.vol v ∧
      ((∃ d, vnodeSeekCluster fsi skip fl s = (.ok d,
          ⟨v, { s.fv with clsCache := updateCache s.fv.clsCache skip d }⟩) ∧ l[skip]? = some d) ∨
        (vnodeSeekCluster fsi skip fl s = (.err .enospc, ⟨v, s.fv⟩) ∧ l.length ≤ skip)) := by
  obtain ⟨i, c, hw, hi, e⟩ := vnodeSeekCluster_eq hskip fl h
  rw [hl.walk_eq (fatEnds hg _)] at hw
  obtain ⟨v, s', h'⟩ := seekLoop_read hk hg hfl (skip - i) hl hw
  rw [Nat.add_sub_cancel' hi] at h'
  refine ⟨v, s', ?_⟩
  rcases h' with ⟨d, hd, hdi⟩ | ⟨he, hlen⟩
  · exact .inl ⟨d, by rw [e, hd], hdi⟩
  · exact .inr ⟨by rw [e, he], hlen⟩

end Fat32
