import Mathlib
import Fat32.Lib.Recent
import Fat32.Impl.File

/-!
# The order of the cluster cache

`fat32_vnode_update_cache` takes the first slot that is empty or has the index. From the zeroed
cache the empty slots come first, so the first 16 entries are only added (`cacheAfter_fill`), also
when the index is there already. Once the cache is full of different indices it is an LRU cache
(`cacheAfter_full`).
-/

namespace Fat32

open Recent

variable {cache calls : List ClsCacheEntry} {e : ClsCacheEntry}

/-- The zeroed cache after a sequence of calls. -/
def cacheAfter (calls : List ClsCacheEntry) : List ClsCacheEntry :=
  calls.foldl (fun cache e => updateCache cache e.index e.cluster) emptyCache

def liveEntries (cache : List ClsCacheEntry) : List ClsCacheEntry := cache.filter fun e => e.cluster ≠ 0

/-- The slot that is taken: the first empty one or duplicate. -/
def Taken (index : Nat) (e : ClsCacheEntry) : Bool := e.cluster = 0 ∨ e.index = index

/-- The cache holds the last uses of the 16 newest indices, the newest in the last position. -/
structure IsLru (cache calls : List ClsCacheEntry) : Prop where
  distinct : ((liveEntries cache).map (·.index)).Nodup
  recent : liveEntries cache = (lastUses (·.index) calls).rtake clsCacheSize
  newest : ∀ e, calls.getLast? = some e → cache.getLast? = some e

theorem cacheAfter_snoc (calls : List ClsCacheEntry) (e : ClsCacheEntry) :
    cacheAfter (calls ++ [e]) = updateCache (cacheAfter calls) e.index e.cluster := by
  rw [cacheAfter, List.foldl_append]
  rfl

theorem updateCache_found (h : ∃ x ∈ cache, Taken e.index x = true) :
    updateCache cache e.index e.cluster = cache.eraseP (Taken e.index) ++ [e] := by
  rw [List.eraseP_eq_eraseIdx]
  obtain ⟨i, hi⟩ : ∃ i, cache.findIdx? (Taken e.index) = some i :=
    Option.isSome_iff_exists.mp (by rw [List.findIdx?_isSome]; exact List.any_eq_true.mpr h)
  have hslot : (cache.findIdx? fun x => decide (x.cluster = 0 ∨ x.index = e.index)) = some i := hi
  rw [updateCache, hi, hslot]
  rfl

theorem updateCache_missed (h : ∀ x ∈ cache, Taken e.index x = false) :
    updateCache cache e.index e.cluster = cache.tail ++ [e] := by
  have hnone : (cache.findIdx? fun x => decide (x.cluster = 0 ∨ x.index = e.index)) = none :=
    List.findIdx?_eq_none_iff.mpr h
  rw [updateCache, hnone, Option.getD_none, List.eraseIdx_zero]

/-- The first 16 calls fill the cache. -/
theorem cacheAfter_fill (h : calls.length ≤ clsCacheSize) :
    cacheAfter calls = List.replicate (clsCacheSize - calls.length) ⟨0, 0⟩ ++ calls := by
  induction calls using List.reverseRecOn with
  | nil => rfl
  | append_singleton calls e ih =>
    rw [List.length_append, List.length_singleton] at h
    obtain ⟨n, hn⟩ : ∃ n, clsCacheSize - calls.length = n + 1 := ⟨clsCacheSize - calls.length - 1, by omega⟩
    have hempty : Taken e.index ⟨0, 0⟩ = true := by simp [Taken]
    rw [cacheAfter_snoc, ih (by omega), hn, List.replicate_succ, List.cons_append,
      updateCache_found ⟨_, List.mem_cons_self, hempty⟩, List.eraseP_cons_of_pos hempty, List.append_assoc,
      List.length_append, List.length_singleton, show clsCacheSize - (calls.length + 1) = n by omega]

/-- A full cache of different indices holds the newest of them. -/
theorem cacheAfter_full (hlive : ∀ e ∈ calls, e.cluster ≠ 0) (h : clsCacheSize ≤ calls.length)
    (hfirst : ((calls.take clsCacheSize).map (·.index)).Nodup) :
    cacheAfter calls = (lastUses (·.index) calls).rtake clsCacheSize ∧
      clsCacheSize ≤ (lastUses (·.index) calls).length := by
  induction calls using List.reverseRecOn with
  | nil => exact absurd h (by decide)
  | append_singleton calls e ih =>
    by_cases hlast : calls.length < clsCacheSize
    · -- the last place is filled
      have hlen : (calls ++ [e]).length = clsCacheSize := by
        rw [List.length_append, List.length_singleton] at h ⊢
        omega
      rw [List.take_of_length_le hlen.le] at hfirst
      rw [cacheAfter_fill hlen.le, lastUses_of_nodup hfirst, List.rtake, hlen, Nat.sub_self]
      exact ⟨rfl, le_refl _⟩
    · have hle : clsCacheSize ≤ calls.length := not_lt.mp hlast
      rw [List.take_append_of_le_length hle] at hfirst
      obtain ⟨hcache, hlen⟩ := ih (fun x hx => hlive x (List.mem_append_left _ hx)) hle hfirst
      have hused : ∀ x ∈ cacheAfter calls, x.cluster ≠ 0 := by
        rw [hcache]
        intro x hx
        exact hlive x (List.mem_append_left _ ((lastUses_sublist calls).subset (List.mem_of_mem_drop hx)))
      have htaken : ∀ x ∈ cacheAfter calls, Taken e.index x = decide (x.index = e.index) := fun x hx => by
        simp [Taken, hused x hx]
      refine ⟨?_, hlen.trans (length_lastUses_le calls e)⟩
      rw [cacheAfter_snoc]
      by_cases hmem : e.index ∈ ((lastUses (·.index) calls).rtake clsCacheSize).map (·.index)
      · obtain ⟨x, hx, hxe⟩ := List.mem_map.mp hmem
        rw [← hcache] at hx
        rw [updateCache_found ⟨x, hx, by rw [htaken x hx, decide_eq_true hxe]⟩,
          rtake_lastUses_hit hlen hmem, ← hcache]
        congr 1
        exact eraseP_congr htaken
      · rw [rtake_lastUses_miss (by decide) hlen hmem, ← hcache]
        refine updateCache_missed fun x hx => ?_
        rw [htaken x hx, decide_eq_false]
        rw [hcache] at hx
        exact fun hxe => hmem (List.mem_map.mpr ⟨x, hx, hxe⟩)

/-- In every state of a sequence of calls the cache is an LRU cache if and only if the first 16 calls
are for different indices. -/
theorem cacheAfter_isLru_iff (hlive : ∀ e ∈ calls, e.cluster ≠ 0) :
    (∀ m, m <+: calls → IsLru (cacheAfter m) m) ↔ ((calls.take clsCacheSize).map (·.index)).Nodup := by
  have hfill {m : List ClsCacheEntry} (hm : m <+: calls) (h : m.length ≤ clsCacheSize) :
      liveEntries (cacheAfter m) = m := by
    have hkept : m.filter (fun e => e.cluster ≠ 0) = m :=
      List.filter_eq_self.mpr fun e he => decide_eq_true (hlive e (hm.subset he))
    have hempty : (List.replicate (clsCacheSize - m.length) (⟨0, 0⟩ : ClsCacheEntry)).filter
        (fun e => e.cluster ≠ 0) = [] := by
      rw [List.filter_eq_nil_iff]
      intro e he
      rw [(List.mem_replicate.mp he).2]
      decide
    rw [liveEntries, cacheAfter_fill h, List.filter_append, hempty, hkept, List.nil_append]
  constructor
  · intro h
    have hpre : calls.take clsCacheSize <+: calls := List.take_prefix _ _
    have hdistinct := (h _ hpre).distinct
    rwa [hfill hpre (List.length_take_le _ _)] at hdistinct
  · intro hfirst m hm
    have hfirst : ((m.take clsCacheSize).map (·.index)).Nodup :=
      hfirst.sublist (((hm.take clsCacheSize).sublist).map _)
    have hlive : ∀ e ∈ m, e.cluster ≠ 0 := fun e he => hlive e (hm.subset he)
    have hrecent : liveEntries (cacheAfter m) = (lastUses (·.index) m).rtake clsCacheSize := by
      by_cases hlen : m.length ≤ clsCacheSize
      · rw [List.take_of_length_le hlen] at hfirst
        rw [hfill hm hlen, lastUses_of_nodup hfirst, List.rtake, Nat.sub_eq_zero_of_le hlen, List.drop_zero]
      · obtain ⟨hcache, -⟩ := cacheAfter_full hlive (le_of_not_ge hlen) hfirst
        rw [hcache]
        exact List.filter_eq_self.mpr fun e he =>
          decide_eq_true (hlive e ((lastUses_sublist m).subset (List.mem_of_mem_drop he)))
    refine ⟨?_, hrecent, fun e he => ?_⟩
    · rw [hrecent]
      exact (lastUses_nodup m).sublist ((List.drop_sublist _ _).map _)
    · obtain ⟨m', rfl⟩ := List.getLast?_eq_some_iff.mp he
      rw [cacheAfter_snoc]
      exact List.getLast?_concat ..

/-- Seventeen calls for different indices, and one more for the second of them. -/
theorem seventeen_isLru : IsLru
    (cacheAfter ((List.range 17).map (fun i => ⟨i, i + 2⟩) ++ [⟨1, 3⟩]))
    ((List.range 17).map (fun i => ⟨i, i + 2⟩) ++ [⟨1, 3⟩]) :=
  (@cacheAfter_isLru_iff ((List.range 17).map (fun i => ⟨i, i + 2⟩) ++ [⟨1, 3⟩]) (by decide)).mpr
    (by decide) _ (List.prefix_refl _)

/-- Two calls for one index: both entries are live. -/
theorem cacheAfter_duplicate :
    liveEntries (cacheAfter [⟨5, 7⟩, ⟨5, 7⟩]) = [⟨5, 7⟩, ⟨5, 7⟩] ∧
      ¬ IsLru (cacheAfter [⟨5, 7⟩, ⟨5, 7⟩]) [⟨5, 7⟩, ⟨5, 7⟩] := by
  have hlive : liveEntries (cacheAfter [⟨5, 7⟩, ⟨5, 7⟩]) = [⟨5, 7⟩, ⟨5, 7⟩] := by decide
  refine ⟨hlive, fun h => ?_⟩
  have hdistinct := h.distinct
  rw [hlive] at hdistinct
  exact absurd hdistinct (by decide)

end Fat32
