import Mathlib
import Fat32.Proof.Chain

/-!
# Who owns the clusters

`Owned fsi H fat`: every used cluster is on exactly one chain from a head in
`H`. Each change the driver makes to the FAT keeps it, with the heads that the
change makes or takes away. `Good` adds what the rest of the volume says about
the FAT: the other copies agree, and both counters of free clusters are right.
The steps of a run are `FatOp`; from any cluster of a chain, none of them leaves
a state that is not good.
-/

namespace Fat32

open Bytes Exec Prog Linked

/-- Every used cluster is on exactly one chain that starts in `H`. A chain never
leaves the data area, visits no cluster twice (`Chain.nodup`) and ends at an end
mark. -/
structure Owned (fsi : Fsi) (H : Finset Nat) (fat : Nat → Nat) : Prop where
  chain : ∀ h ∈ H, ∃ l, FatChain fsi fat h l
  owner : ∀ c, InRange fsi c → fat c ≠ 0 → ∃! h, h ∈ H ∧ ∃ l, FatChain fsi fat h l ∧ c ∈ l

/-- The number of free clusters. -/
def freeEntries (fsi : Fsi) (fat : Nat → Nat) : Nat :=
  ((Finset.Icc 2 (fsi.clusterCount + 1)).filter fun c => fat c = 0).card

structure Good (fsi : Fsi) (H : Finset Nat) (v : Vol) : Prop where
  owned : Owned fsi H (view fsi v.disk).fat
  copies : ∀ k < fsi.numFats, ∀ e ≤ fsi.clusterCount + 1,
    fatCopy fsi v.disk k e = fatCopy fsi v.disk 0 e
  count : v.freeCount = freeEntries fsi (view fsi v.disk).fat
  info : rle32 v.disk (512 * fsi.fsinfoSector + fsinfoFreeCount) = v.freeCount

variable {fsi : Fsi} {H : Finset Nat} {fat fat' : Nat → Nat} {v v' : Vol} {a c h p r : Nat}
  {l m s : List Nat}

/-! ## Heads and chains -/

theorem Owned.forest (O : Owned fsi H fat) :
    Forest (fatNext fsi fat) (fatFin fsi fat) (H : Set Nat) := by
  refine ⟨fun h hh => O.chain h hh, fun {g h l m} hg hh hne hl hm c hc hc' => hne ?_⟩
  have hcr := FatChain.inRange hl c hc
  have hcz := FatChain.ne_zero hl c hc
  exact (O.owner c hcr hcz).unique ⟨hg, l, hl, hc⟩ ⟨hh, m, hm, hc'⟩

/-- A forest of chains that covers the used clusters. -/
theorem Owned.of_forest (F : Forest (fatNext fsi fat) (fatFin fsi fat) (H : Set Nat))
    (hc : ∀ c, InRange fsi c → fat c ≠ 0 → ∃ h ∈ H, ∃ l, FatChain fsi fat h l ∧ c ∈ l) :
    Owned fsi H fat := by
  refine ⟨F.chain, fun c hr hz => ?_⟩
  obtain ⟨h, hh, l, hl, hcl⟩ := hc c hr hz
  refine ⟨h, ⟨hh, l, hl, hcl⟩, fun g ⟨hg, m, hm, hcm⟩ => ?_⟩
  exact F.head_unique hg hh hm hl hcm hcl

/-- The head `a` gets the chain `m`, and the other chains lie where the FAT did
not change. -/
theorem Owned.replace (hg : Geometry fsi) (O : Owned fsi H fat)
    (hother : ∀ g ∈ H, g ≠ a → ∀ l, FatChain fsi fat g l → ∀ b ∈ l, fat' b = fat b ∧ b ∉ m)
    (hm : FatChain fsi fat' a m)
    (hnew : ∀ b, InRange fsi b → fat' b ≠ 0 → b ∉ m →
      ∃ g ∈ H, g ≠ a ∧ ∃ l, FatChain fsi fat g l ∧ b ∈ l) :
    Owned fsi (insert a H) fat' := by
  have keep (b) (hb : ¬ fat' b ≠ fat b) : fat' b = fat b := not_not.mp hb
  have F := O.forest.replace (fatEnds hg fat') (fun b hb => fatNext_congr (keep b hb))
    (fun b hb => fatFin_congr (keep b hb))
    (fun g hgH hga l hl b hb => ⟨not_not.mpr (hother g hgH hga l hl b hb).1,
      (hother g hgH hga l hl b hb).2⟩) hm
  refine .of_forest (by rwa [Finset.coe_insert]) fun b hr hz => ?_
  by_cases hbm : b ∈ m
  · exact ⟨a, Finset.mem_insert_self _ _, m, hm, hbm⟩
  · obtain ⟨g, hgH, hga, l, hl, hbl⟩ := hnew b hr hz hbm
    exact ⟨g, Finset.mem_insert_of_mem hgH, l,
      hl.congr fun e he => (hother g hgH hga l hl e he).1, hbl⟩

/-- A cluster allocated for itself is a new head. -/
theorem Owned.alloc (hg : Geometry fsi) (O : Owned fsi H fat) (hr : InRange fsi r)
    (hz : fat r = 0) : Owned fsi (insert r H) (linkFat fat 0 r) := by
  have other (g) (hgH : g ∈ H) (l) (hl : FatChain fsi fat g l) (b) (hb : b ∈ l) : b ≠ r :=
    fun e => hl.ne_zero b hb (e ▸ hz)
  have hne {b} (hb : b ≠ r) : linkFat fat 0 r b = fat b := by rw [linkFat_zero, if_neg hb]
  refine O.replace hg (m := [r]) (fun g hgH _ l hl b hb => ?_) (.last ⟨hr, ?_⟩) ?_
  · have := other g hgH l hl b hb
    exact ⟨hne this, by simpa using this⟩
  · rw [linkFat_zero, if_pos rfl]
    decide
  · intro b hbr hbz hbm
    have hb : b ≠ r := by simpa using hbm
    rw [hne hb] at hbz
    obtain ⟨g, ⟨hgH, l, hl, hbl⟩, -⟩ := O.owner b hbr hbz
    refine ⟨g, hgH, ?_, l, hl, hbl⟩
    rintro rfl
    exact other g hgH l hl g hl.head_mem rfl

/-- A cluster appended to a chain. -/
theorem Owned.append (hg : Geometry fsi) (O : Owned fsi H fat) (hh : h ∈ H)
    (hl : FatChain fsi fat h l) (hp : p ∈ l) (hf : fatFin fsi fat p) (hr : InRange fsi r)
    (hz : fat r = 0) : Owned fsi H (linkFat fat p r) ∧
      FatChain fsi (linkFat fat p r) h (l ++ [r]) := by
  have hp0 : p ≠ 0 := by have := hf.1.1; omega
  have hne {b} (hb : b ≠ p) (hb' : b ≠ r) : linkFat fat p r b = fat b :=
    linkFat_other hp0 hb hb'
  have hm := FatChain.append hg hl hp hf hr hz
  refine ⟨?_, hm⟩
  rw [← Finset.insert_eq_of_mem hh]
  refine O.replace hg (fun g hgH hga k hk b hb => ?_) hm fun b hbr hbz hbm => ?_
  · have hbl : b ∉ l := fun hbl => O.forest.apart hgH hh hga hk hl hb hbl
    have hbr : b ≠ r := by rintro rfl; exact hk.ne_zero _ hb hz
    refine ⟨hne (ne_of_mem_of_not_mem hp hbl).symm hbr, ?_⟩
    rw [List.mem_append, List.mem_singleton]
    exact not_or.mpr ⟨hbl, hbr⟩
  · rw [List.mem_append, List.mem_singleton, not_or] at hbm
    rw [hne (ne_of_mem_of_not_mem hp hbm.1).symm hbm.2] at hbz
    obtain ⟨g, ⟨hgH, k, hk, hbk⟩, -⟩ := O.owner b hbr hbz
    refine ⟨g, hgH, ?_, k, hk, hbk⟩
    rintro rfl
    exact hbm.1 (hl.unique (fatEnds hg fat) hk ▸ hbk)

/-- A chain that is freed takes its head away. -/
theorem Owned.erase (hg : Geometry fsi) (O : Owned fsi H fat) (hh : h ∈ H)
    (hl : FatChain fsi fat h l) : Owned fsi (H.erase h) (zeroFat l fat) := by
  have hne {b} (hb : b ∉ l) : zeroFat l fat b = fat b := if_neg hb
  have other {g k} (hgH : g ∈ H) (hga : g ≠ h) (hk : FatChain fsi fat g k) : ∀ b ∈ k, b ∉ l :=
    fun b hb hbl => O.forest.apart hgH hh hga hk hl hb hbl
  have F := O.forest.erase (a := h) (fatEnds hg (zeroFat l fat))
    (fun b hb => fatNext_congr (hne hb)) (fun b hb => fatFin_congr (hne hb))
    fun g hgH hga k hk => other hgH hga hk
  refine .of_forest (by rwa [Finset.coe_erase]) fun b hbr hbz => ?_
  have hbl : b ∉ l := fun hb => hbz (if_pos hb)
  rw [hne hbl] at hbz
  obtain ⟨g, ⟨hgH, k, hk, hbk⟩, -⟩ := O.owner b hbr hbz
  have hga : g ≠ h := by
    rintro rfl
    exact hbl (hl.unique (fatEnds hg fat) hk ▸ hbk)
  exact ⟨g, Finset.mem_erase.mpr ⟨hga, hgH⟩, k, hk.congr fun e he => hne (other hgH hga hk e he),
    hbk⟩

/-- A chain that is cut after `c` keeps the clusters up to `c`. -/
theorem Owned.cut (hg : Geometry fsi) (O : Owned fsi H fat) (hh : h ∈ H)
    (hl : FatChain fsi fat h (m ++ c :: s)) :
    Owned fsi H (cutFat c s fat) ∧ FatChain fsi (cutFat c s fat) h (m ++ [c]) := by
  have hne {b} (hb : b ≠ c) (hbs : b ∉ s) : cutFat c s fat b = fat b := cutFat_other hb hbs
  have hm := FatChain.cut hg hl
  refine ⟨?_, hm⟩
  rw [← Finset.insert_eq_of_mem hh]
  refine O.replace hg (fun g hgH hga k hk b hb => ?_) hm fun b hbr hbz hbm => ?_
  · have hbl : ¬ b ∈ m ++ c :: s := fun hbl => O.forest.apart hgH hh hga hk hl hb hbl
    simp only [List.mem_append, List.mem_cons, not_or] at hbl
    exact ⟨hne hbl.2.1 hbl.2.2, by simp [hbl.1, hbl.2.1]⟩
  · simp only [List.mem_append, List.mem_singleton, not_or] at hbm
    have hbs : b ∉ s := fun hb => hbz (if_pos hb)
    rw [hne hbm.2 hbs] at hbz
    obtain ⟨g, ⟨hgH, k, hk, hbk⟩, -⟩ := O.owner b hbr hbz
    refine ⟨g, hgH, ?_, k, hk, hbk⟩
    rintro rfl
    rw [← hl.unique (fatEnds hg fat) hk] at hbk
    simp [hbm.1, hbm.2, hbs] at hbk

/-! ## Counting free clusters -/

theorem mem_freeEntries {b : Nat} :
    b ∈ (Finset.Icc 2 (fsi.clusterCount + 1)).filter (fun c => fat c = 0) ↔
      InRange fsi b ∧ fat b = 0 := by
  rw [Finset.mem_filter, Finset.mem_Icc]
  rfl

theorem freeEntries_le (fsi : Fsi) (fat : Nat → Nat) : freeEntries fsi fat ≤ fsi.clusterCount := by
  refine (Finset.card_filter_le _ _).trans ?_
  rw [Nat.card_Icc]
  omega

/-- A change between used entries. -/
theorem freeEntries_congr (h : ∀ b, InRange fsi b → (fat' b = 0 ↔ fat b = 0)) :
    freeEntries fsi fat' = freeEntries fsi fat := by
  unfold freeEntries
  congr 1
  ext b
  rw [mem_freeEntries, mem_freeEntries]
  exact and_congr_right (h b)

theorem freeEntries_link (hr : InRange fsi r) (hz : fat r = 0)
    (hp : p = 0 ∨ InRange fsi p ∧ fat p ≠ 0) :
    freeEntries fsi (linkFat fat p r) + 1 = freeEntries fsi fat := by
  have hr0 : r ≠ 0 := by have := hr.1; omega
  have hset : (Finset.Icc 2 (fsi.clusterCount + 1)).filter (fun c => linkFat fat p r c = 0) =
      ((Finset.Icc 2 (fsi.clusterCount + 1)).filter fun c => fat c = 0).erase r := by
    ext b
    rw [mem_freeEntries, Finset.mem_erase, mem_freeEntries]
    rcases hp with rfl | ⟨hp, hpz⟩
    · rw [linkFat_zero]
      by_cases hb : b = r <;> simp [hb]
    · rw [linkFat_ne _ (by have := hp.1; omega)]
      by_cases hbp : b = p
      · subst hbp
        simp [hr0, hpz]
      · rw [if_neg hbp]
        by_cases hb : b = r <;> simp [hb]
  unfold freeEntries
  rw [hset]
  exact Finset.card_erase_add_one (mem_freeEntries.mpr ⟨hr, hz⟩)

theorem freeEntries_zero (hnd : l.Nodup) (hl : ∀ b ∈ l, InRange fsi b ∧ fat b ≠ 0) :
    freeEntries fsi (zeroFat l fat) = freeEntries fsi fat + l.length := by
  have hset : (Finset.Icc 2 (fsi.clusterCount + 1)).filter (fun c => zeroFat l fat c = 0) =
      ((Finset.Icc 2 (fsi.clusterCount + 1)).filter fun c => fat c = 0) ∪ l.toFinset := by
    ext b
    rw [mem_freeEntries, Finset.mem_union, mem_freeEntries, List.mem_toFinset, zeroFat]
    by_cases hb : b ∈ l
    · simp [hb, (hl b hb).1]
    · simp [hb]
  have hdisj : Disjoint ((Finset.Icc 2 (fsi.clusterCount + 1)).filter fun c => fat c = 0)
      l.toFinset := by
    rw [Finset.disjoint_left]
    intro b hb hbl
    exact (hl b (List.mem_toFinset.mp hbl)).2 (mem_freeEntries.mp hb).2
  unfold freeEntries
  rw [hset, Finset.card_union_of_disjoint hdisj, List.toFinset_card_of_nodup hnd]

theorem freeEntries_cut (hnd : (c :: s).Nodup) (hl : ∀ b ∈ c :: s, InRange fsi b ∧ fat b ≠ 0) :
    freeEntries fsi (cutFat c s fat) = freeEntries fsi fat + s.length := by
  have hc := hl c List.mem_cons_self
  obtain ⟨hcs, hnd⟩ := List.nodup_cons.mp hnd
  have heq : ∀ b, Function.update fat c clusterEoc b = 0 ↔ fat b = 0 := fun b => by
    by_cases hb : b = c
    · subst hb; simp [hc.2]
    · rw [Function.update_of_ne hb]
  unfold cutFat
  rw [freeEntries_zero hnd fun b hb => ?_, freeEntries_congr fun b _ => heq b]
  have hb' := hl b (List.mem_cons_of_mem _ hb)
  exact ⟨hb'.1, fun h => hb'.2 ((heq b).mp h)⟩

/-! ## Good states -/

theorem Good.same (G : Good fsi H v) (s : Same v v') : Good fsi H v' := by
  obtain ⟨owned, copies, count, info⟩ := G
  refine ⟨?_, ?_, ?_, ?_⟩
  · rwa [s.disk]
  · rwa [s.disk]
  · rwa [s.disk, s.free]
  · rwa [s.disk, s.free]

/-- A cluster of a chain. -/
def OnChain (fsi : Fsi) (H : Finset Nat) (v : Vol) (c : Nat) : Prop :=
  ∃ h ∈ H, ∃ l, FatChain fsi (view fsi v.disk).fat h l ∧ c ∈ l

theorem OnChain.same (h : OnChain fsi H v c) (s : Same v v') : OnChain fsi H v' c := by
  unfold OnChain
  rwa [s.disk]

theorem OnChain.inRange (h : OnChain fsi H v c) : InRange fsi c := by
  obtain ⟨h, -, l, hl, hc⟩ := h
  exact hl.inRange c hc

/-- The FAT copies stay equal under a change that looks at one entry at a time. -/
theorem copies_local {T : (Nat → Nat) → Nat → Nat} (hg : Geometry fsi) {d d' : Nat → UInt8}
    (h : ∀ k < fsi.numFats, ∀ e ≤ fsi.clusterCount + 1, fatCopy fsi d k e = fatCopy fsi d 0 e)
    (hT : ∀ k < fsi.numFats, ∀ e ≤ fsi.clusterCount + 1,
      fatCopy fsi d' k e = T (fatCopy fsi d k) e)
    (hlocal : ∀ {f g : Nat → Nat}, (∀ e ≤ fsi.clusterCount + 1, f e = g e) →
      ∀ e ≤ fsi.clusterCount + 1, T f e = T g e) :
    ∀ k < fsi.numFats, ∀ e ≤ fsi.clusterCount + 1, fatCopy fsi d' k e = fatCopy fsi d' 0 e := by
  intro k hk e he
  rw [hT k hk e he, hT 0 hg.numFats e he]
  exact hlocal (h k hk) e he

theorem linkFat_local {n : Nat} {f g : Nat → Nat} (h : ∀ e ≤ n, f e = g e) :
    ∀ e ≤ n, linkFat f p r e = linkFat g p r e := by
  intro e he
  by_cases hp : p = 0
  · subst hp; simp only [linkFat_zero, h e he]
  · simp only [linkFat_ne _ hp, h e he]

theorem cutFat_local {n : Nat} {f g : Nat → Nat} (h : ∀ e ≤ n, f e = g e) :
    ∀ e ≤ n, cutFat c s f e = cutFat c s g e := by
  refine zeroFat_local s fun e he => ?_
  simp only [Function.update_apply, h e he]

/-- What an allocation does to the counters and the copies. -/
theorem Good.allocated (hg : Geometry fsi) (G : Good fsi H v) {H' : Finset Nat} {cl : Bool}
    (A : Allocated fsi p r cl v v') (hp : p = 0 ∨ InRange fsi p ∧ (view fsi v.disk).fat p ≠ 0)
    (O : Owned fsi H' (linkFat (view fsi v.disk).fat p r)) : Good fsi H' v' := by
  have hle := freeEntries_le fsi (view fsi v.disk).fat
  have hcnt := hg.count
  have hlink := freeEntries_link A.inRange A.free hp
  have hcount := G.count
  simp only [clusterBad] at hcnt
  refine ⟨by rwa [A.fat], copies_local hg G.copies A.copies linkFat_local, ?_, A.info⟩
  rw [A.freeCount, A.fat, sub32, u32]
  omega

/-- What freeing does to the counters and the copies. -/
theorem Good.freed (hg : Geometry fsi) (G : Good fsi H v) {H' : Finset Nat} {n : Nat}
    {T : (Nat → Nat) → Nat → Nat} (F : Freed fsi T n v v')
    (hlocal : ∀ {f g : Nat → Nat}, (∀ e ≤ fsi.clusterCount + 1, f e = g e) →
      ∀ e ≤ fsi.clusterCount + 1, T f e = T g e)
    (hn : freeEntries fsi (T (view fsi v.disk).fat) = freeEntries fsi (view fsi v.disk).fat + n)
    (O : Owned fsi H' (T (view fsi v.disk).fat)) : Good fsi H' v' := by
  have hle := freeEntries_le fsi (T (view fsi v.disk).fat)
  have hcnt := hg.count
  have hcount := G.count
  simp only [clusterBad] at hcnt
  have hlt : v.freeCount < 0xFFFFFFFF := by omega
  refine ⟨by rwa [F.fat], copies_local hg G.copies F.copies hlocal, ?_, F.info hlt G.info⟩
  rw [F.freeCount hlt, F.fat, hn, u32]
  omega

/-! ## The operations -/

/-- Allocating a cluster that nothing links to. -/
theorem nextCluster_zero_good (hk : Reliable fsi.kernel) (hg : Geometry fsi) (G : Good fsi H v)
    (fl : NcFlags) : ∃ v', (∃ e, nextCluster fsi 0 fl v = (.err e, v') ∧ Good fsi H v') ∨
      ∃ r, nextCluster fsi 0 fl v = (.ok r, v') ∧ Good fsi (insert r H) v' ∧
        OnChain fsi (insert r H) v' r := by
  by_cases hfl : fl.alloc = true
  · rw [nextCluster_zero hfl]
    obtain ⟨v', ⟨e, s⟩ | ⟨r, e, A⟩⟩ := allocateCluster_ok hk hg (v := v) (.inl rfl) fl
    · exact ⟨v', .inl ⟨_, e, G.same s⟩⟩
    · have O := G.owned.alloc hg A.inRange A.free
      have G' := G.allocated hg A (.inl rfl) O
      obtain ⟨l, hl⟩ := G'.owned.chain r (Finset.mem_insert_self _ _)
      exact ⟨v', .inr ⟨r, e, G', r, Finset.mem_insert_self _ _, l, hl, hl.head_mem⟩⟩
  · rw [Bool.not_eq_true] at hfl
    exact ⟨v, .inl ⟨_, nextCluster_zero_refused hfl, G⟩⟩

/-- The next cluster of a chain is on the same chain, also where it is appended. -/
theorem nextCluster_good (hk : Reliable fsi.kernel) (hg : Geometry fsi) (G : Good fsi H v)
    (hc : OnChain fsi H v c) (fl : NcFlags) :
    ∃ v', Good fsi H v' ∧ ((∃ e, nextCluster fsi c fl v = (.err e, v')) ∨
      ∃ d, nextCluster fsi c fl v = (.ok d, v') ∧ OnChain fsi H v' d) := by
  obtain ⟨h, hh, l, hl, hcl⟩ := hc
  obtain ⟨q, s, rfl, hs⟩ := hl.suffix hcl
  cases hs with
  | link hn ht =>
    obtain ⟨v', e, s⟩ := nextCluster_link hk hg hn fl
    refine ⟨v', G.same s, .inr ⟨_, e, .same ⟨h, hh, _, hl, ?_⟩ s⟩⟩
    exact List.mem_append_right _ (List.mem_cons_of_mem _ ht.head_mem)
  | last hf =>
    by_cases hfl : fl.alloc = true
    · obtain ⟨v1, s1, e1⟩ := nextCluster_append hk hg hf hfl
      have hp : InRange fsi c ∧ (view fsi v1.disk).fat c ≠ 0 :=
        ⟨hf.1, by rw [s1.disk]; exact hl.ne_zero c hcl⟩
      obtain ⟨v', ⟨e, s⟩ | ⟨r, e, A⟩⟩ := allocateCluster_ok hk hg (.inr hp) fl
      · exact ⟨v', (G.same s1).same s, .inl ⟨_, e1.trans e⟩⟩
      · have G1 := G.same s1
        rw [← s1.disk] at hl hf
        obtain ⟨O, hl'⟩ := G1.owned.append hg hh hl hcl hf A.inRange A.free
        rw [← A.fat] at hl'
        have hr : r ∈ q ++ [c] ++ [r] := by simp
        exact ⟨v', G1.allocated hg A (.inr hp) O, .inr ⟨r, e1.trans e, h, hh, _, hl', hr⟩⟩
    · rw [Bool.not_eq_true] at hfl
      obtain ⟨v', e, s⟩ := nextCluster_fin hk hg hf hfl
      exact ⟨v', G.same s, .inl ⟨_, e⟩⟩

theorem seekLoop_good (hk : Reliable fsi.kernel) (hg : Geometry fsi) (fl : NcFlags) (n : Nat) :
    ∀ {c : Nat} {v : Vol}, Good fsi H v → OnChain fsi H v c →
      Good fsi H (seekLoop fsi fl n c v).2 ∧ (seekLoop fsi fl n c v).1 ≠ .hang := by
  induction n with
  | zero => exact fun G _ => ⟨G, nofun⟩
  | succ n ih =>
    intro c v G hc
    rw [seekLoop]
    obtain ⟨v', G', ⟨e, he⟩ | ⟨d, he, hd⟩⟩ := nextCluster_good hk hg G hc fl
    · rw [bind_err he]
      exact ⟨G', Out.err_ne_hang⟩
    · rw [bind_ok he]
      exact ih G' hd

theorem freeClusters_good_all (hk : Reliable fsi.kernel) (hg : Geometry fsi)
    (hfuel : fsi.clusterCount < fsi.kernel.fuel) (G : Good fsi H v) (hh : h ∈ H) :
    ∃ v', freeClusters fsi h true v = (.ok (), v') ∧ Good fsi (H.erase h) v' := by
  obtain ⟨l, hl⟩ := G.owned.chain h hh
  obtain ⟨v', e, F⟩ := freeClusters_all hk hg hfuel hl
  refine ⟨v', e, G.freed hg F (zeroFat_local l) ?_ (G.owned.erase hg hh hl)⟩
  exact freeEntries_zero (hl.nodup (fatEnds hg _)) fun b hb => ⟨hl.inRange b hb, hl.ne_zero b hb⟩

theorem freeClusters_good_rest (hk : Reliable fsi.kernel) (hg : Geometry fsi)
    (hfuel : fsi.clusterCount < fsi.kernel.fuel) (G : Good fsi H v) (hc : OnChain fsi H v c) :
    ∃ v', freeClusters fsi c false v = (.ok (), v') ∧ Good fsi H v' := by
  obtain ⟨h, hh, l, hl, hcl⟩ := hc
  obtain ⟨q, s, rfl, hs⟩ := hl.suffix hcl
  obtain ⟨s, rfl⟩ := hs.head_eq
  obtain ⟨v', e, F⟩ := freeClusters_rest hk hg hfuel hs
  refine ⟨v', e, G.freed hg F cutFat_local ?_ (G.owned.cut hg hh hl).1⟩
  exact freeEntries_cut (hs.nodup (fatEnds hg _)) fun b hb =>
    ⟨FatChain.inRange hs b hb, FatChain.ne_zero hs b hb⟩

/-! ## Runs -/

/-- The operations on the FAT. -/
inductive FatOp where
  | next (current : Nat) (flags : NcFlags)
  | seek (start skip : Nat) (flags : NcFlags)
  | free (start : Nat) (freeStart : Bool)

namespace FatOp

def exec (fsi : Fsi) : FatOp → FsM Unit
  | next c fl => do let _ ← nextCluster fsi c fl; pure ()
  | seek c n fl => do let _ ← seekCluster fsi c n fl; pure ()
  | free c fs => freeClusters fsi c fs

/-- The clusters an operation may be called with. -/
def Allowed (fsi : Fsi) (H : Finset Nat) (v : Vol) : FatOp → Prop
  | next c _ => c = 0 ∨ OnChain fsi H v c
  | seek c _ _ => c = 0 ∨ OnChain fsi H v c
  | free c true => c ∈ H
  | free c false => OnChain fsi H v c

/-- The heads after `nextCluster` was called with `0`. -/
def headsZero (fsi : Fsi) (H : Finset Nat) (v : Vol) (fl : NcFlags) : Finset Nat :=
  match (nextCluster fsi 0 fl v).1 with
  | .ok r => insert r H
  | _ => H

/-- The heads after the operation: the first step from `0` makes a new one, and
freeing a chain takes its head away. -/
def heads (fsi : Fsi) (H : Finset Nat) (v : Vol) : FatOp → Finset Nat
  | next c fl => if c = 0 then headsZero fsi H v fl else H
  | seek c n fl => if c = 0 ∧ n ≠ 0 then headsZero fsi H v fl else H
  | free c true => H.erase c
  | free _ false => H

end FatOp

/-- Runs of allowed operations, with the heads they leave. -/
inductive FatRun (fsi : Fsi) : Finset Nat → Vol → Finset Nat → Vol → Prop
  | refl (H : Finset Nat) (v : Vol) : FatRun fsi H v H v
  | step {H H' : Finset Nat} {v v' : Vol} (op : FatOp) (ha : op.Allowed fsi H v)
      (t : FatRun fsi (op.heads fsi H v) (op.exec fsi v).2 H' v') : FatRun fsi H v H' v'

/-- An operation keeps a good state good, and returns. -/
theorem FatOp.good (hk : Reliable fsi.kernel) (hg : Geometry fsi)
    (hfuel : fsi.clusterCount < fsi.kernel.fuel) (G : Good fsi H v) (op : FatOp)
    (ha : op.Allowed fsi H v) :
    Good fsi (op.heads fsi H v) (op.exec fsi v).2 ∧ (op.exec fsi v).1 ≠ .hang := by
  have ne_zero {c} (hc : OnChain fsi H v c) : c ≠ 0 := by have := hc.inRange.1; omega
  cases op with
  | next c fl =>
    rw [FatOp.exec, FatOp.heads]
    rcases ha with rfl | hc
    · rw [if_pos rfl, FatOp.headsZero]
      obtain ⟨v', ⟨e, he, G'⟩ | ⟨r, he, G', -⟩⟩ := nextCluster_zero_good hk hg G fl
      · rw [bind_err he, he]
        exact ⟨G', Out.err_ne_hang⟩
      · rw [bind_ok he, he]
        exact ⟨G', Out.ok_ne_hang⟩
    · rw [if_neg (ne_zero hc)]
      obtain ⟨v', G', ⟨e, he⟩ | ⟨d, he, -⟩⟩ := nextCluster_good hk hg G hc fl
      · rw [bind_err he]
        exact ⟨G', Out.err_ne_hang⟩
      · rw [bind_ok he]
        exact ⟨G', Out.ok_ne_hang⟩
  | seek c n fl =>
    have drop (m : FsM Nat) (v : Vol) (hne : (m v).1 ≠ .hang) :
        ((do let _ ← m; pure ()) v : Out Errno Unit × Vol).2 = (m v).2 ∧
        ((do let _ ← m; pure ()) v : Out Errno Unit × Vol).1 ≠ .hang := by
      rw [bind_run]
      rcases hm : m v with ⟨a | e | _, v'⟩
      · exact ⟨rfl, Out.ok_ne_hang⟩
      · exact ⟨rfl, Out.err_ne_hang⟩
      · exact absurd (by rw [hm]) hne
    rw [FatOp.exec, FatOp.heads, seekCluster_eq]
    rcases ha with rfl | hc
    · cases n with
      | zero => exact ⟨by simpa [seekLoop] using G, Out.ok_ne_hang⟩
      | succ n =>
        rw [if_pos ⟨rfl, Nat.succ_ne_zero n⟩, FatOp.headsZero, seekLoop]
        obtain ⟨v', ⟨e, he, G'⟩ | ⟨r, he, G', hr⟩⟩ := nextCluster_zero_good hk hg G fl
        · rw [bind_err (bind_err he), he]
          exact ⟨G', Out.err_ne_hang⟩
        · obtain ⟨G'', hne⟩ := seekLoop_good hk hg fl n G' hr
          rw [he]
          have := drop (nextCluster fsi 0 fl >>= seekLoop fsi fl n) v
          rw [bind_ok he] at this
          rw [(this hne).1]
          exact ⟨G'', (this hne).2⟩
    · obtain ⟨G', hne⟩ := seekLoop_good hk hg fl n G hc
      rw [if_neg fun h => ne_zero hc h.1, (drop _ v hne).1]
      exact ⟨G', (drop _ v hne).2⟩
  | free c fs =>
    cases fs with
    | true =>
      obtain ⟨v', e, G'⟩ := freeClusters_good_all hk hg hfuel G ha
      rw [FatOp.exec, e]
      exact ⟨G', Out.ok_ne_hang⟩
    | false =>
      obtain ⟨v', e, G'⟩ := freeClusters_good_rest hk hg hfuel G ha
      rw [FatOp.exec, e]
      exact ⟨G', Out.ok_ne_hang⟩

/-- Every run from a good state reaches good states only, in which every allowed
operation returns. -/
theorem fatRun_good (hk : Reliable fsi.kernel) (hg : Geometry fsi)
    (hfuel : fsi.clusterCount < fsi.kernel.fuel) {H' : Finset Nat} (G : Good fsi H v)
    (run : FatRun fsi H v H' v') :
    Good fsi H' v' ∧ ∀ op : FatOp, op.Allowed fsi H' v' → (op.exec fsi v').1 ≠ .hang := by
  induction run with
  | refl H v => exact ⟨G, fun op ha => (op.good hk hg hfuel G ha).2⟩
  | step op ha _ ih => exact ih (op.good hk hg hfuel G ha).1

/-- A volume of two clusters, of which the first is a chain. -/
def twoClusters : Fsi where
  fsinfoSector := 0
  fatStart := 1
  sectorsPerCluster := 1
  bytesPerCluster := 512
  sectorShift := 9
  sectorMask := 511
  clusterShift := 9
  clusterMask := 511
  spcShift := 0
  numFats := 1
  fatSize := 1
  rootCluster := 2
  dataStart := 2
  clusterCount := 2

def twoClustersVol : Vol where
  disk a := if a = 488 then 1 else if 520 ≤ a ∧ a < 523 then 0xFF else if a = 523 then 0x0F else 0
  freeCount := 1
  nextFree := 3

theorem twoClusters_geometry : Geometry twoClusters := by
  constructor <;> decide

theorem twoClusters_good : Good twoClusters {2} twoClustersVol := by
  have hf : fatFin twoClusters (view twoClusters twoClustersVol.disk).fat 2 := by
    constructor <;> decide
  refine ⟨⟨fun h hh => ⟨[2], ?_⟩, fun c hc hz => ⟨2, ⟨by decide, [2], .last hf, ?_⟩, ?_⟩⟩,
    by decide, by decide, by decide⟩
  · rw [Finset.mem_singleton.mp hh]
    exact .last hf
  · obtain rfl | rfl : c = 2 ∨ c = 3 := by
      have := hc.1; have : c ≤ 3 := hc.2; omega
    · decide
    · exact absurd (by decide) hz
  · exact fun h hh => Finset.mem_singleton.mp hh.1

theorem fatRun_good_append :
    let op := FatOp.next 2 ⟨true, true⟩
    Good twoClusters {2} (op.exec twoClusters twoClustersVol).2 ∧
      ∀ op' : FatOp, op'.Allowed twoClusters {2} (op.exec twoClusters twoClustersVol).2 →
        (op'.exec twoClusters (op.exec twoClusters twoClustersVol).2).1 ≠ .hang := by
  have hk : Reliable twoClusters.kernel := ⟨fun _ => rfl⟩
  obtain ⟨l, hl⟩ := twoClusters_good.owned.chain 2 (by decide)
  exact fatRun_good hk twoClusters_geometry (by decide) twoClusters_good
    (.step (.next 2 ⟨true, true⟩) (.inr ⟨2, by decide, l, hl, hl.head_mem⟩) (.refl _ _))

end Fat32
