import Mathlib
import Fat32.Proof.Alloc

/-!
# Freeing and seeking

`freeLoop` follows the chain it destroys: it reads each entry in the step that
frees it. On a chain it therefore frees exactly the chain (`freeLoop_ok`), as no
cluster is met twice. `freeClusters` frees a whole chain, or cuts it after its
first cluster (`Freed`). `seekLoop` follows links (`seekLoop_walk`).
-/

namespace Fat32

open Bytes Exec Prog Linked

/-- The FAT with the entries of `l` cleared. -/
def zeroFat (l : List Nat) (fat : Nat → Nat) : Nat → Nat := fun e => if e ∈ l then 0 else fat e

/-- The FAT cut after `c`, with the entries of `l` cleared. -/
def cutFat (c : Nat) (l : List Nat) (fat : Nat → Nat) : Nat → Nat :=
  zeroFat l (Function.update fat c clusterEoc)

/-- Every FAT copy was changed by `T`, and nothing but the FAT. -/
structure FatOnly (fsi : Fsi) (T : (Nat → Nat) → Nat → Nat) (v v' : Vol) : Prop where
  fat : (view fsi v'.disk).fat = T (view fsi v.disk).fat
  data : (view fsi v'.disk).data = (view fsi v.disk).data
  copies : ∀ k < fsi.numFats, ∀ e ≤ fsi.clusterCount + 1,
    fatCopy fsi v'.disk k e = T (fatCopy fsi v.disk k) e
  outside : ∀ a, a < 512 * fsi.fatStart ∨ 512 * (fsi.fatStart + fsi.numFats * fsi.fatSize) ≤ a →
    v'.disk a = v.disk a
  freeCount : v'.freeCount = v.freeCount
  nextFree : v'.nextFree = v.nextFree

/-- What freeing `n` clusters changed. -/
structure Freed (fsi : Fsi) (T : (Nat → Nat) → Nat → Nat) (n : Nat) (v v' : Vol) : Prop where
  fat : (view fsi v'.disk).fat = T (view fsi v.disk).fat
  data : (view fsi v'.disk).data = (view fsi v.disk).data
  copies : ∀ k < fsi.numFats, ∀ e ≤ fsi.clusterCount + 1,
    fatCopy fsi v'.disk k e = T (fatCopy fsi v.disk k) e
  nextFree : v'.nextFree = v.nextFree
  freeCount : v.freeCount < 0xFFFFFFFF → v'.freeCount = u32 (v.freeCount + n)
  info : v.freeCount < 0xFFFFFFFF →
    rle32 v.disk (512 * fsi.fsinfoSector + fsinfoFreeCount) = v.freeCount →
    rle32 v'.disk (512 * fsi.fsinfoSector + fsinfoFreeCount) = v'.freeCount

variable {fsi : Fsi} {v : Vol} {a c : Nat} {l : List Nat}

theorem zeroFat_nil (fat : Nat → Nat) : zeroFat [] fat = fat := by
  funext e
  simp [zeroFat]

theorem zeroFat_cons (c : Nat) (l : List Nat) (fat : Nat → Nat) :
    zeroFat l (Function.update fat c 0) = zeroFat (c :: l) fat := by
  funext e
  by_cases he : e = c <;> simp [zeroFat, he]

theorem FatOnly.of_set (hg : Geometry fsi) {v' : Vol} {x : Nat} (hc : InRange fsi c)
    (h : FatSet fsi c x v.disk v'.disk) (hf : v'.freeCount = v.freeCount)
    (hn : v'.nextFree = v.nextFree) :
    FatOnly fsi (fun fat => Function.update fat c (x % 2 ^ 28)) v v' := by
  have hw := h.view hg hc
  refine ⟨by rw [hw]; rfl, by rw [hw]; rfl, fun k hk e he => ?_, fun a ha => h.frame a ?_, hf, hn⟩
  · rw [h.copy hg hc hk he, Function.update_apply]
  · intro k hk
    have := fatAddr_area hg hk hc.2
    omega

theorem FatOnly.trans {T U : (Nat → Nat) → Nat → Nat} {v' v'' : Vol} (h : FatOnly fsi T v v')
    (k : FatOnly fsi U v' v'') (hU : ∀ {f g : Nat → Nat}, (∀ e ≤ fsi.clusterCount + 1, f e = g e) →
      ∀ e ≤ fsi.clusterCount + 1, U f e = U g e) : FatOnly fsi (fun fat => U (T fat)) v v'' := by
  refine ⟨by rw [k.fat, h.fat], by rw [k.data, h.data], fun i hi e he => ?_, fun a ha => ?_,
    k.freeCount.trans h.freeCount, k.nextFree.trans h.nextFree⟩
  · rw [k.copies i hi e he]
    exact hU (h.copies i hi) e he
  · rw [k.outside a ha, h.outside a ha]

theorem zeroFat_local (l : List Nat) {n : Nat} {f g : Nat → Nat} (h : ∀ e ≤ n, f e = g e) :
    ∀ e ≤ n, zeroFat l f e = zeroFat l g e := by
  intro e he
  simp only [zeroFat, h e he]

/-! ## The loop -/

/-- What the loop takes for the number of a cluster to free. -/
abbrev Loops (x : Nat) : Prop := x ≥ clusterMin ∧ x < clusterEocMin

theorem freeLoop_stop {fuel : Nat} (h : ¬ Loops c) (freed : Nat) (v : Vol) :
    freeLoop fsi (fuel + 1) c freed v = (.ok freed, v) := by
  rw [freeLoop, if_neg h]
  rfl

theorem InRange.loops (hg : Geometry fsi) (hc : InRange fsi c) : Loops c := by
  have hcnt := hg.count
  simp only [clusterBad] at hcnt
  obtain ⟨h1, h2⟩ := hc
  exact ⟨h1, by simp only [clusterEocMin]; omega⟩

/-- The link that the loop follows. -/
def freeNext (fsi : Fsi) (fat : Nat → Nat) (c : Nat) : Option Nat :=
  if InRange fsi c ∧ Loops (fat c) then some (fat c) else none

/-- The loop ends behind a used cluster. -/
def freeFin (fsi : Fsi) (fat : Nat → Nat) (c : Nat) : Prop :=
  InRange fsi c ∧ fat c ≠ 0 ∧ ¬ Loops (fat c)

/-- The loop frees the clusters `l`, and comes to an end. -/
abbrev FreeChain (fsi : Fsi) (fat : Nat → Nat) : Nat → List Nat → Prop :=
  Chain (freeNext fsi fat) (freeFin fsi fat)

theorem freeNext_some {fat : Nat → Nat} {c d : Nat} :
    freeNext fsi fat c = some d ↔ InRange fsi c ∧ Loops (fat c) ∧ fat c = d := by
  unfold freeNext
  by_cases h : InRange fsi c ∧ Loops (fat c)
  · rw [if_pos h, Option.some_inj]
    exact ⟨fun e => ⟨h.1, h.2, e⟩, fun e => e.2.2⟩
  · rw [if_neg h]
    exact ⟨nofun, fun e => absurd ⟨e.1, e.2.1⟩ h⟩

theorem freeEnds (fat : Nat → Nat) : Ends (freeNext fsi fat) (freeFin fsi fat) :=
  fun _ h => if_neg fun h' => h.2.2 h'.2

/-- The clusters of the chain are used. -/
theorem FreeChain.used {fat : Nat → Nat} (h : FreeChain fsi fat a l) :
    ∀ c ∈ l, InRange fsi c ∧ fat c ≠ 0 := by
  induction h with
  | last hf =>
    intro c hc
    obtain rfl := List.mem_singleton.mp hc
    exact ⟨hf.1, hf.2.1⟩
  | link hn ht ih =>
    intro c hc
    rcases List.mem_cons.mp hc with rfl | hc
    · obtain ⟨hr, hl, -⟩ := freeNext_some.mp hn
      refine ⟨hr, fun h0 => ?_⟩
      rw [h0] at hl
      exact absurd hl.1 (by decide)
    · exact ih c hc

/-- Its links are those of a FAT that agrees on it. -/
theorem FreeChain.congr {fat fat' : Nat → Nat} (h : FreeChain fsi fat a l)
    (he : ∀ c ∈ l, fat' c = fat c) : FreeChain fsi fat' a l := by
  refine Chain.congr h (fun b hb => ?_) fun b hb hf => ?_
  · rw [freeNext, freeNext, he b hb]
  · rw [freeFin, he b hb]
    exact hf

theorem FatChain.freeChain (hg : Geometry fsi) {fat : Nat → Nat} (h : FatChain fsi fat a l) :
    FreeChain fsi fat a l := by
  induction h with
  | last hf =>
    refine .last ⟨hf.1, fun h0 => ?_, fun hl => absurd hl.2 (not_lt.mpr hf.2)⟩
    have := hf.2
    rw [h0] at this
    exact absurd this (by decide)
  | link hn ht ih =>
    obtain ⟨hr, hd, e⟩ := fatNext_some.mp hn
    exact .link (freeNext_some.mpr ⟨hr, e ▸ hd.loops hg, e⟩) ih

/-- On such a chain the loop frees the clusters of the chain, and counts them. -/
theorem freeLoop_chain (hk : Reliable fsi.kernel) (hg : Geometry fsi) (fuel : Nat) :
    ∀ {a : Nat} {l : List Nat} (freed : Nat) {v : Vol}, FreeChain fsi (view fsi v.disk).fat a l →
      l.length < fuel → freed + l.length < 2 ^ 32 →
      ∃ v', freeLoop fsi fuel a freed v = (.ok (freed + l.length), v') ∧
        FatOnly fsi (zeroFat l) v v' := by
  induction fuel with
  | zero => intro _ _ _ _ _ h; omega
  | succ fuel ih =>
    intro a l freed v h hl hfree
    have ha := (h.used a h.head_mem).1
    obtain ⟨v1, e1, f1, c1, n1⟩ := rmwCluster_write hk hg ha clusterFree v
    have o1 : FatOnly fsi (fun fat => Function.update fat a 0) v v1 := .of_set hg ha f1 c1 n1
    have hpos := h.length_pos
    have hu : u32 (freed + 1) = freed + 1 := Nat.mod_eq_of_lt (by omega)
    rw [freeLoop, if_pos (ha.loops hg), bind_ok e1, hu]
    obtain ⟨t, rfl⟩ := h.head_eq
    simp only [List.length_cons] at hl hfree ⊢
    have hnd := h.nodup (freeEnds _)
    cases h with
    | last hf =>
      obtain ⟨fuel, rfl⟩ : ∃ n, fuel = n + 1 := ⟨fuel - 1, by simp at hl; omega⟩
      refine ⟨v1, freeLoop_stop hf.2.2 _ _, ?_⟩
      have hT : zeroFat [a] = fun fat => Function.update fat a 0 := by
        funext fat
        rw [← zeroFat_cons, zeroFat_nil]
      rw [hT]
      exact o1
    | link hn ht =>
      -- the rest of the chain is not changed by the step
      rw [(freeNext_some.mp hn).2.2]
      have ht1 : FreeChain fsi (view fsi v1.disk).fat _ t := FreeChain.congr ht fun e he => by
        rw [o1.fat]
        exact Function.update_of_ne (ne_of_mem_of_not_mem he (List.nodup_cons.mp hnd).1) _ _
      obtain ⟨v2, e2, o2⟩ := ih (freed + 1) ht1 (by omega) (by omega)
      refine ⟨v2, by rw [e2, Nat.add_assoc, Nat.add_comm 1], ?_⟩
      simpa only [zeroFat_cons] using o1.trans o2 (zeroFat_local t)

/-- A whole chain is freed. -/
theorem freeLoop_ok (hk : Reliable fsi.kernel) (hg : Geometry fsi) (fuel : Nat) {a : Nat}
    {l : List Nat} (freed : Nat) {v : Vol} (h : FatChain fsi (view fsi v.disk).fat a l)
    (hl : l.length < fuel) (hfree : freed + l.length < 2 ^ 32) :
    ∃ v', freeLoop fsi fuel a freed v = (.ok (freed + l.length), v') ∧
      FatOnly fsi (zeroFat l) v v' :=
  freeLoop_chain hk hg fuel freed (h.freeChain hg) hl hfree

/-- A chain has at most `clusterCount` clusters. -/
theorem FatChain.length_le (hg : Geometry fsi) {fat : Nat → Nat} (h : FatChain fsi fat a l) :
    l.length ≤ fsi.clusterCount := by
  have hsub : l ⊆ List.range' 2 fsi.clusterCount := fun c hc => by
    have := h.inRange c hc
    rw [List.mem_range'_1]
    exact ⟨this.1, by have := this.2; omega⟩
  have := (h.nodup (fatEnds hg _)).length_le_of_subset hsub
  rwa [List.length_range'] at this

/-! ## The counter -/

theorem freeUpdate_ok (hk : Reliable fsi.kernel) (hg : Geometry fsi) (n : Nat) (v : Vol) :
    ∃ v', freeUpdate fsi n v = (.ok (), v') ∧ Freed fsi id n v v' := by
  have hadd (h : v.freeCount < 0xFFFFFFFF) : u32 (v.freeCount + 0) = v.freeCount :=
    Nat.mod_eq_of_lt (by omega)
  rw [freeUpdate]
  by_cases hn : n > 0
  · obtain ⟨v1, e1, s1⟩ := bread_ok hk fsi.fsinfoSector 1 v
    rw [if_pos hn, bind_ok (attempt_ok e1)]
    simp only [get_bind_run, s1.free]
    by_cases hs : v.freeCount = 0xFFFFFFFF
    · rw [if_neg (not_not.mpr hs)]
      refine ⟨v1, rfl, ?_, ?_, fun k _ e _ => ?_, s1.next, fun h => ?_, fun h => ?_⟩
      · rw [s1.disk]; rfl
      · rw [s1.disk]
      · rw [s1.disk]; rfl
      · omega
      · omega
    · rw [if_pos hs]
      have ho : fsinfoFreeCount + 4 ≤ 512 * 1 := by decide
      obtain ⟨v2, e2, d2, f2, n2⟩ := bdwrite_poke (s := fsi.fsinfoSector) ho
        (byteOf (u32 (v.freeCount + n))) v1
      rw [s1.disk] at e2 d2
      rw [wle32, bind_ok e2, modify_run]
      have frame (a) (ha : a < 512 * fsi.fsinfoSector ∨ 512 * fsi.fsinfoSector + 512 ≤ a) :
          v2.disk a = v.disk a := by
        rw [d2, poke_outside]
        simp only [fsinfoFreeCount]; omega
      have hw := view_congr hg frame
      refine ⟨_, rfl, ?_, ?_, fun k hk e he => ?_, n2.trans s1.next, fun _ => rfl, fun _ _ => ?_⟩
      · exact congrArg View.fat hw
      · exact congrArg View.data hw
      · exact fatCopy_congr_info hg frame hk he
      · show rle32 v2.disk _ = u32 (v.freeCount + n)
        rw [d2, rle32_poke]
        exact Nat.mod_mod _ _
  · obtain rfl : n = 0 := by omega
    rw [if_neg hn]
    exact ⟨v, rfl, rfl, rfl, fun _ _ _ _ => rfl, rfl, fun h => (hadd h).symm, fun _ h => h⟩

/-- An update of the counter after a change of the FAT. -/
theorem FatOnly.freed (hg : Geometry fsi) {T : (Nat → Nat) → Nat → Nat} {n : Nat} {v' v'' : Vol}
    (h : FatOnly fsi T v v') (k : Freed fsi id n v' v'') : Freed fsi T n v v'' := by
  have hinfo : rle32 v'.disk (512 * fsi.fsinfoSector + fsinfoFreeCount) =
      rle32 v.disk (512 * fsi.fsinfoSector + fsinfoFreeCount) := by
    refine rle32_congr fun i hi => h.outside _ ?_
    have := hg.infoFat
    simp only [fsinfoFreeCount]; omega
  refine ⟨by rw [k.fat, h.fat]; rfl, by rw [k.data, h.data], fun i hi e he => ?_,
    k.nextFree.trans h.nextFree, fun hv => ?_, fun hv hi => ?_⟩
  · rw [k.copies i hi e he]
    exact h.copies i hi e he
  · rw [k.freeCount (by rw [h.freeCount]; exact hv), h.freeCount]
  · exact k.info (by rw [h.freeCount]; exact hv) (by rw [hinfo, hi, h.freeCount])

/-! ## Freeing a chain -/

/-- Freeing a chain from its first cluster. -/
theorem freeClusters_all (hk : Reliable fsi.kernel) (hg : Geometry fsi)
    (hfuel : fsi.clusterCount < fsi.kernel.fuel) (h : FatChain fsi (view fsi v.disk).fat a l) :
    ∃ v', freeClusters fsi a true v = (.ok (), v') ∧ Freed fsi (zeroFat l) l.length v v' := by
  have hlen := h.length_le hg
  have hcnt := hg.count
  simp only [clusterBad] at hcnt
  obtain ⟨v1, e1, o1⟩ := freeLoop_ok hk hg fsi.kernel.fuel 0 h (by omega) (by omega)
  obtain ⟨v2, e2, u2⟩ := freeUpdate_ok hk hg (0 + l.length) v1
  rw [Nat.zero_add] at u2
  refine ⟨v2, ?_, o1.freed hg u2⟩
  rw [freeClusters, if_neg ((h.inRange a h.head_mem).not_outside hg), if_neg (by decide),
    bind_ok e1, e2]

/-- Cutting a chain after its first cluster. -/
theorem freeClusters_rest (hk : Reliable fsi.kernel) (hg : Geometry fsi)
    (hfuel : fsi.clusterCount < fsi.kernel.fuel)
    (h : FatChain fsi (view fsi v.disk).fat a (a :: l)) :
    ∃ v', freeClusters fsi a false v = (.ok (), v') ∧ Freed fsi (cutFat a l) l.length v v' := by
  have hlen := h.length_le hg
  have hcnt := hg.count
  simp only [clusterBad, List.length_cons] at hcnt hlen
  have ha := h.inRange a h.head_mem
  obtain ⟨v1, e1, f1, c1, n1⟩ := rmwCluster_write hk hg ha clusterEoc v
  have o1 : FatOnly fsi (fun fat => Function.update fat a clusterEoc) v v1 :=
    .of_set hg ha f1 c1 n1
  rw [freeClusters, if_neg (ha.not_outside hg), if_pos (by decide), bind_ok e1]
  have hnd := h.nodup (fatEnds hg _)
  cases h with
  | last hf =>
    rw [if_pos hf.2]
    refine ⟨v1, rfl, ?_⟩
    have h0 : Freed fsi id 0 v1 v1 :=
      ⟨rfl, rfl, fun _ _ _ _ => rfl, rfl, fun h => (Nat.mod_eq_of_lt (by omega)).symm, fun _ h => h⟩
    have hT : cutFat a [] = fun fat => Function.update fat a clusterEoc := by
      funext fat
      rw [cutFat, zeroFat_nil]
    rw [hT]
    exact o1.freed hg h0
  | link hn ht =>
    obtain ⟨-, hd, he⟩ := fatNext_some.mp hn
    rw [he, if_neg (by have := (hd.loops hg).2; omega)]
    have ht1 : FatChain fsi (view fsi v1.disk).fat _ l := FatChain.congr ht fun e he => by
      rw [o1.fat]
      exact Function.update_of_ne (ne_of_mem_of_not_mem he (List.nodup_cons.mp hnd).1) _ _
    obtain ⟨v2, e2, o2⟩ := freeLoop_ok hk hg fsi.kernel.fuel 0 ht1 (by omega) (by omega)
    obtain ⟨v3, e3, u3⟩ := freeUpdate_ok hk hg (0 + l.length) v2
    rw [Nat.zero_add] at u3
    refine ⟨v3, by rw [bind_ok e2, e3], ?_⟩
    exact (o1.trans o2 (zeroFat_local l)).freed hg u3

/-! ## Seeking -/

theorem seekCluster_eq (start n : Nat) (fl : NcFlags) :
    seekCluster fsi start n fl = seekLoop fsi fl n start := by
  cases n <;> simp [seekCluster, seekLoop]

/-- Seeking to a cluster of the chain follows the links. -/
theorem seekLoop_walk (hk : Reliable fsi.kernel) (hg : Geometry fsi) (fl : NcFlags) (n : Nat) :
    ∀ {c d : Nat} {v : Vol}, walk (fatNext fsi (view fsi v.disk).fat) n c = some d →
      ∃ v', seekLoop fsi fl n c v = (.ok d, v') ∧ Same v v' := by
  induction n with
  | zero =>
    intro c d v h
    obtain rfl := Option.some.inj h
    exact ⟨v, rfl, Same.refl v⟩
  | succ n ih =>
    intro c d v h
    obtain ⟨e, he, h⟩ := Option.bind_eq_some_iff.mp h
    obtain ⟨v1, e1, s1⟩ := nextCluster_link hk hg he fl
    obtain ⟨v2, e2, s2⟩ := ih (by rw [s1.disk]; exact h)
    exact ⟨v2, by rw [seekLoop, bind_ok e1, e2], s1.trans s2⟩

end Fat32
