import Mathlib
import Fat32.Proof.AnyRead
import Fat32.Proof.Space

/-!
# A truncation that fails

`fat32_free_clusters` clears one entry after the other and may stop at any of them: at a
link out of the data area, or at a read (`Stops`). Only behind a loop that comes to its
end does `fat32_truncate` forget the clusters, so what was cleared before is still in the
vnode. It is harmless where the vnode had nothing of it (`failsClean_iff`).
-/

namespace Fat32

open Bytes Exec Prog Linked

variable {fsi : Fsi} {fat : Nat → Nat} {c d n k : Nat} {l F : List Nat} {v v' : Vol} {s t : VnSt}

/-- A vnode refers to no cluster that was freed since `v`, and its first cluster is in use. -/
structure KeepsOff (fsi : Fsi) (v : Vol) (s : VnSt) : Prop where
  cluster : s.fv.cluster = 0 ∨ (view fsi s.vol.disk).fat s.fv.cluster ≠ 0
  cache : ∀ e ∈ s.fv.clsCache, e.cluster ≠ 0 →
    ¬ ((view fsi v.disk).fat e.cluster ≠ 0 ∧ (view fsi s.vol.disk).fat e.cluster = 0)

/-- A run that ends with an error leaves nothing of what it freed in the vnode. -/
def FailsClean (fsi : Fsi) (m : FvM Unit) (s : VnSt) : Prop :=
  ∀ e, (m s).1 = .err e → KeepsOff fsi s.vol (m s).2

/-- Clearing one entry after the other from `c` on, behind `n` reads, stops with an error; the entries
`F` have been cleared then. -/
inductive Stops (fsi : Fsi) : (Nat → Nat) → Nat → Nat → List Nat → Prop
  /-- A link out of the data area. -/
  | outside {fat : Nat → Nat} {n c : Nat} (hloop : Loops c) (hc : ¬ InRange fsi c) : Stops fsi fat n c []
  /-- The read of the entry fails. -/
  | unread {fat : Nat → Nat} {n c : Nat} (hc : InRange fsi c) (hn : fsi.kernel.readErr n ≠ none) :
      Stops fsi fat n c []
  /-- The read of a later copy of the entry fails. -/
  | torn {fat : Nat → Nat} {n c : Nat} (hc : InRange fsi c) (hn : fsi.kernel.readErr n = none)
      (hno : ¬ Answers fsi n fsi.numFats) : Stops fsi fat n c [c]
  | next {fat : Nat → Nat} {n c : Nat} {F : List Nat} (hc : InRange fsi c)
      (ha : Answers fsi n fsi.numFats)
      (h : Stops fsi (Function.update fat c 0) (n + fsi.numFats) (fat c) F) : Stops fsi fat n c (c :: F)

theorem failsClean_ok {m : FvM Unit} (h : m s = (.ok (), t)) : FailsClean fsi m s := by
  unfold FailsClean
  rw [h]
  exact nofun

theorem failsClean_err {m : FvM Unit} {e : Errno} (h : m s = (.err e, t)) :
    FailsClean fsi m s ↔ KeepsOff fsi s.vol t := by
  unfold FailsClean
  rw [h]
  exact ⟨fun h => h e rfl, fun h _ _ => h⟩

theorem failsClean_wp {m : FvM Unit} {p : Prop}
    (h : WP m s fun r t => (∀ e, r = .err e → KeepsOff fsi s.vol t) ↔ p) : FailsClean fsi m s ↔ p := by
  unfold WP at h
  exact h

/-! ## The loop -/

theorem Stops.loops (hg : Geometry fsi) (h : Stops fsi fat n c F) : Loops c := by
  cases h with
  | outside hloop _ => exact hloop
  | unread hc _ => exact hc.loops hg
  | torn hc _ _ => exact hc.loops hg
  | next hc _ _ => exact hc.loops hg

/-- What is cleared begins with the entry of the start. -/
theorem Stops.head (h : Stops fsi fat n c F) : F = [] ∨ c ∈ F := by
  cases h with
  | outside _ _ => exact .inl rfl
  | unread _ _ => exact .inl rfl
  | torn _ _ _ => exact .inr List.mem_cons_self
  | next _ _ _ => exact .inr List.mem_cons_self

/-- Clearing an entry that is in use makes one more free entry. -/
theorem freeEntries_clear (hc : InRange fsi c) (h : fat c ≠ 0) :
    freeEntries fsi (Function.update fat c 0) = freeEntries fsi fat + 1 := by
  have hone : ∀ b ∈ [c], InRange fsi b ∧ fat b ≠ 0 := fun b hb => by
    rw [List.mem_singleton.mp hb]
    exact ⟨hc, h⟩
  have hcount := freeEntries_zero (List.nodup_singleton c) hone
  rwa [← zeroFat_cons, zeroFat_nil, List.length_singleton] at hcount

/-- The loop does what `Stops` says. -/
theorem freeLoop_stops (hg : Geometry fsi) (h : Stops fsi fat n c F) : ∀ (fuel freed : Nat) (v : Vol),
    (view fsi v.disk).fat = fat → v.reads = n → fsi.clusterCount + 2 ≤ fuel + freeEntries fsi fat →
    ∃ e v', freeLoop fsi fuel c freed v = (.err e, v') ∧ (view fsi v'.disk).fat = zeroFat F fat := by
  have hloop := h.loops hg
  induction h with
  | @outside fat n c hl hc =>
    intro fuel freed v hfat hn hfuel
    have := freeEntries_le fsi fat
    obtain ⟨fuel, rfl⟩ : ∃ m, fuel = m + 1 := ⟨fuel - 1, by omega⟩
    refine ⟨.einval, v, ?_, by rw [zeroFat_nil, hfat]⟩
    rw [freeLoop, if_pos hl, bind_err (rmwCluster_outside hg hc _ v)]
  | @unread fat n c hc hread =>
    intro fuel freed v hfat hn hfuel
    have := freeEntries_le fsi fat
    obtain ⟨fuel, rfl⟩ : ∃ m, fuel = m + 1 := ⟨fuel - 1, by omega⟩
    obtain ⟨v', ⟨e, -, hs, h⟩ | ⟨hnone, -⟩⟩ := rmwCluster_stores hg hc clusterFree v
    · refine ⟨e, v', ?_, by rw [zeroFat_nil, hs.disk, hfat]⟩
      rw [freeLoop, if_pos hloop, bind_err h]
    · rw [hn] at hnone
      exact absurd hnone hread
  | @torn fat n c hc hread hno =>
    intro fuel freed v hfat hn hfuel
    have := freeEntries_le fsi fat
    obtain ⟨fuel, rfl⟩ : ∃ m, fuel = m + 1 := ⟨fuel - 1, by omega⟩
    obtain ⟨v', ⟨e, he, -⟩ | ⟨-, hfat', ⟨ha, -⟩ | ⟨-, e, h⟩⟩⟩ := rmwCluster_stores hg hc clusterFree v
    · rw [hn, hread] at he
      cases he
    · rw [hn] at ha
      exact absurd ha hno
    · refine ⟨e, v', ?_, ?_⟩
      · rw [freeLoop, if_pos hloop, bind_err h]
      · rw [hfat', hfat, ← zeroFat_cons, zeroFat_nil]
        rfl
  | @next fat n c F hc ha hF ih =>
    intro fuel freed v hfat hn hfuel
    have hle := freeEntries_le fsi fat
    obtain ⟨fuel, rfl⟩ : ∃ m, fuel = m + 1 := ⟨fuel - 1, by omega⟩
    have hfirst := ha 0 hg.numFats
    rw [Nat.add_zero] at hfirst
    have hused : fat c ≠ 0 := by
      intro hz
      have hl := (hF.loops hg).1
      rw [hz] at hl
      exact absurd hl (by decide)
    obtain ⟨v1, ⟨e, he, -⟩ | ⟨-, hfat1, ⟨-, hn1, h⟩ | ⟨hno, -⟩⟩⟩ := rmwCluster_stores hg hc clusterFree v
    · rw [hn, hfirst] at he
      cases he
    · have hfat1 : (view fsi v1.disk).fat = Function.update fat c 0 := by rw [hfat1, hfat]; rfl
      have hmeasure := freeEntries_clear hc hused
      obtain ⟨e, v2, h2, hfat2⟩ := ih (hF.loops hg) fuel (u32 (freed + 1)) v1 hfat1
        (by rw [hn1, hn]) (by omega)
      refine ⟨e, v2, ?_, by rw [hfat2, zeroFat_cons]⟩
      rw [freeLoop, if_pos hloop, bind_ok h, hfat, h2]
    · rw [hn] at hno
      exact absurd ha hno

/-- The loop comes to its end, or stops. -/
theorem freeLoop_ends (hg : Geometry fsi) (fuel : Nat) : ∀ (c freed : Nat) (v : Vol),
    fsi.clusterCount + 2 ≤ fuel + freeEntries fsi (view fsi v.disk).fat →
    (∃ m v', freeLoop fsi fuel c freed v = (.ok m, v')) ∨
      ∃ F, Stops fsi (view fsi v.disk).fat v.reads c F := by
  induction fuel with
  | zero =>
    intro c freed v hfuel
    have := freeEntries_le fsi (view fsi v.disk).fat
    omega
  | succ fuel ih =>
    intro c freed v hfuel
    by_cases hloop : Loops c
    · by_cases hc : InRange fsi c
      · obtain ⟨v1, ⟨e, he, -⟩ | ⟨hread, hfat, ⟨ha, hn, h⟩ | ⟨hno, -⟩⟩⟩ := rmwCluster_stores hg hc clusterFree v
        · exact .inr ⟨[], .unread hc (by rw [he]; exact nofun)⟩
        · have hrun : freeLoop fsi (fuel + 1) c freed v =
              freeLoop fsi fuel ((view fsi v.disk).fat c) (u32 (freed + 1)) v1 := by
            rw [freeLoop, if_pos hloop, bind_ok h]
          by_cases hz : (view fsi v.disk).fat c = 0
          · -- the loop ends at a free entry
            have hle := freeEntries_le fsi (view fsi v.disk).fat
            have h2 := hc.1
            have hcle := hc.2
            obtain ⟨fuel, rfl⟩ : ∃ m, fuel = m + 1 := ⟨fuel - 1, by omega⟩
            have hstop : freeLoop fsi (fuel + 1) 0 (u32 (freed + 1)) v1 = (.ok (u32 (freed + 1)), v1) :=
              freeLoop_stop (by decide) _ _
            rw [hz] at hrun
            exact .inl ⟨_, _, hrun.trans hstop⟩
          · have hmeasure := freeEntries_clear hc hz
            have hfat : (view fsi v1.disk).fat = Function.update (view fsi v.disk).fat c 0 := hfat
            rcases ih ((view fsi v.disk).fat c) (u32 (freed + 1)) v1 (by rw [hfat]; omega) with
              ⟨m, v2, h2⟩ | ⟨F, hF⟩
            · exact .inl ⟨m, v2, hrun.trans h2⟩
            · rw [hfat, hn] at hF
              exact .inr ⟨c :: F, .next hc ha hF⟩
        · exact .inr ⟨[c], .torn hc hread hno⟩
      · exact .inr ⟨[], .outside hloop hc⟩
    · exact .inl ⟨_, _, freeLoop_stop hloop freed v⟩

/-! ## Freeing a chain, and cutting one -/

/-- The update of the counter does not fail. -/
theorem freeUpdate_run (fsi : Fsi) (n : Nat) (v : Vol) : ∃ v', freeUpdate fsi n v = (.ok (), v') := by
  unfold freeUpdate
  by_cases hn : n > 0
  · rw [if_pos hn]
    obtain ⟨v1, -, ⟨e, -, h⟩ | ⟨-, h⟩⟩ := bread_cases fsi fsi.fsinfoSector 1 v
    · rw [bind_ok (attempt_err h)]
      exact ⟨v1, rfl⟩
    · rw [bind_ok (attempt_ok h)]
      dsimp only
      rw [get_bind_run]
      split
      · obtain ⟨v2, h2, -⟩ := bdwrite_ok fsi.fsinfoSector 1 (wle32 (u32 (v1.freeCount + n))
          (fun o => v.disk (512 * fsi.fsinfoSector + o)) fsinfoFreeCount) v1
        rw [bind_ok h2]
        exact ⟨_, rfl⟩
      · exact ⟨v1, rfl⟩
  · rw [if_neg hn]
    exact ⟨v, rfl⟩

/-- A chain is freed, or the loop stops. -/
theorem freeClusters_whole (hg : Geometry fsi) (hfuel : fsi.clusterCount + 2 ≤ fsi.kernel.fuel)
    (hc : InRange fsi c) (v : Vol) :
    (∃ v', freeClusters fsi c true v = (.ok (), v')) ∨
      ∃ F, Stops fsi (view fsi v.disk).fat v.reads c F := by
  rw [freeClusters, if_neg (hc.not_outside hg), if_neg (by decide)]
  rcases freeLoop_ends hg fsi.kernel.fuel c 0 v (by omega) with ⟨m, v1, h⟩ | hF
  · obtain ⟨v2, h2⟩ := freeUpdate_run fsi m v1
    exact .inl ⟨v2, (bind_ok h).trans h2⟩
  · exact .inr hF

theorem freeClusters_whole_stops (hg : Geometry fsi) (hfuel : fsi.clusterCount + 2 ≤ fsi.kernel.fuel)
    (hc : InRange fsi c) (h : Stops fsi (view fsi v.disk).fat v.reads c F) :
    ∃ e v', freeClusters fsi c true v = (.err e, v') ∧
      (view fsi v'.disk).fat = zeroFat F (view fsi v.disk).fat := by
  obtain ⟨e, v', hrun, hfat⟩ := freeLoop_stops hg h _ 0 _ rfl rfl
    (show fsi.clusterCount + 2 ≤ fsi.kernel.fuel + _ by omega)
  refine ⟨e, v', ?_, hfat⟩
  rw [freeClusters, if_neg (hc.not_outside hg), if_neg (by decide)]
  exact bind_err hrun

/-- The loop behind `c` stops, `c` being cut off; `n` reads have been made before. -/
def CutStops (fsi : Fsi) (fat : Nat → Nat) (n c : Nat) (F : List Nat) : Prop :=
  Answers fsi n fsi.numFats ∧
    Stops fsi (Function.update fat c clusterEoc) (n + fsi.numFats) (fat c) F

/-- A chain is cut, or changed nowhere but in the entry of `c`, or the loop stops. -/
theorem freeClusters_behind (hg : Geometry fsi) (hfuel : fsi.clusterCount + 2 ≤ fsi.kernel.fuel)
    (hd : fatNext fsi (view fsi v.disk).fat c = some d) :
    (∃ v', freeClusters fsi c false v = (.ok (), v')) ∨
      (∃ e v', freeClusters fsi c false v = (.err e, v') ∧ KeepsUsed fsi (view fsi v.disk).fat v') ∨
      ∃ F, CutStops fsi (view fsi v.disk).fat v.reads c F := by
  obtain ⟨hc, hdr, hfat⟩ := fatNext_some.mp hd
  have hnot : ¬ (view fsi v.disk).fat c ≥ clusterEocMin := by
    rw [hfat]
    exact not_le.mpr (hdr.loops hg).2
  rw [freeClusters, if_neg (hc.not_outside hg), if_pos (by decide)]
  obtain ⟨v1, ⟨e, -, hs, h⟩ | ⟨-, hf, ⟨ha, hn, h⟩ | ⟨-, e, h⟩⟩⟩ := rmwCluster_stores hg hc clusterEoc v
  · exact .inr (.inl ⟨e, v1, bind_err h, (KeepsUsed.refl fsi v).same hs⟩)
  · rw [bind_ok h, if_neg hnot]
    have hf : (view fsi v1.disk).fat = Function.update (view fsi v.disk).fat c clusterEoc := hf
    rcases freeLoop_ends hg fsi.kernel.fuel ((view fsi v.disk).fat c) 0 v1 (by omega) with ⟨m, v2, h2⟩ | ⟨F, hF⟩
    · obtain ⟨v3, h3⟩ := freeUpdate_run fsi m v2
      exact .inl ⟨v3, (bind_ok h2).trans h3⟩
    · rw [hf, hn] at hF
      exact .inr (.inr ⟨F, ha, hF⟩)
  · exact .inr (.inl ⟨e, v1, bind_err h, (KeepsUsed.refl fsi v).update (.inr (by decide)) hf⟩)

theorem freeClusters_behind_stops (hg : Geometry fsi) (hfuel : fsi.clusterCount + 2 ≤ fsi.kernel.fuel)
    (hd : fatNext fsi (view fsi v.disk).fat c = some d)
    (h : CutStops fsi (view fsi v.disk).fat v.reads c F) :
    ∃ e v', freeClusters fsi c false v = (.err e, v') ∧
      (view fsi v'.disk).fat = zeroFat F (Function.update (view fsi v.disk).fat c clusterEoc) := by
  obtain ⟨hc, hdr, hfat⟩ := fatNext_some.mp hd
  obtain ⟨ha, hF⟩ := h
  have hnot : ¬ (view fsi v.disk).fat c ≥ clusterEocMin := by
    rw [hfat]
    exact not_le.mpr (hdr.loops hg).2
  have hfirst := ha 0 hg.numFats
  rw [Nat.add_zero] at hfirst
  rw [freeClusters, if_neg (hc.not_outside hg), if_pos (by decide)]
  obtain ⟨v1, ⟨e, he, -⟩ | ⟨-, hf, ⟨-, hn, h⟩ | ⟨hno, -⟩⟩⟩ := rmwCluster_stores hg hc clusterEoc v
  · rw [hfirst] at he
    cases he
  · obtain ⟨e, v2, h2, hfat2⟩ := freeLoop_stops hg hF _ 0 v1 hf hn
      (show fsi.clusterCount + 2 ≤ fsi.kernel.fuel + _ by omega)
    refine ⟨e, v2, ?_, hfat2⟩
    rw [bind_ok h, if_neg hnot]
    exact bind_err h2
  · exact absurd ha hno

/-! ## The end of a truncation -/

/-- Freeing what follows `d` stops. -/
def ExtraStops (fsi : Fsi) (fat : Nat → Nat) (n d : Nat) (F : List Nat) : Prop :=
  (∃ x, fatNext fsi fat d = some x) ∧ Answers fsi n 1 ∧ CutStops fsi fat (n + 1) d F

theorem freeExtra_ends (hg : Geometry fsi) (hfuel : fsi.clusterCount + 2 ≤ fsi.kernel.fuel) (k d : Nat)
    (t : VnSt) : (∃ t', freeExtra fsi k d t = (.ok (), t')) ∨
      (∃ e v', freeExtra fsi k d t = (.err e, ⟨v', t.fv⟩) ∧
        KeepsUsed fsi (view fsi t.vol.disk).fat v') ∨
      ∃ F, ExtraStops fsi (view fsi t.vol.disk).fat t.vol.reads d F := by
  unfold freeExtra
  rcases nextCluster_plain hg (show ({} : NcFlags).alloc = false from rfl) d t.vol with ⟨e, v1, h, hs⟩ | ⟨x, v1, h, hs, hn, hx, ha⟩
  · rw [bind_ok (attempt_err (onVol_run h))]
    dsimp only
    by_cases he : e = .enospc
    · rw [if_pos he]
      exact .inl ⟨_, rfl⟩
    · rw [if_neg he]
      exact .inr (.inl ⟨e, v1, rfl, (KeepsUsed.refl fsi t.vol).same hs⟩)
  · have hloop := ((fatNext_some.mp hx).2.1).loops hg
    rw [bind_ok (attempt_ok (onVol_run h))]
    dsimp only
    rw [if_pos hloop]
    have hfat : (view fsi v1.disk).fat = (view fsi t.vol.disk).fat := by rw [hs.disk]
    rcases freeClusters_behind hg hfuel (v := v1) (by rw [hfat]; exact hx) with
      ⟨v2, h2⟩ | ⟨e, v2, h2, hkeep⟩ | ⟨F, hF⟩
    · exact .inl ⟨_, bind_ok (onVol_run h2)⟩
    · rw [hfat] at hkeep
      exact .inr (.inl ⟨e, v2, bind_err (onVol_run h2), hkeep⟩)
    · rw [hfat, hn] at hF
      exact .inr (.inr ⟨F, ⟨x, hx⟩, ha, hF⟩)

theorem freeExtra_stops (hg : Geometry fsi) (hfuel : fsi.clusterCount + 2 ≤ fsi.kernel.fuel) (k : Nat)
    {t : VnSt} (h : ExtraStops fsi (view fsi t.vol.disk).fat t.vol.reads d F) :
    ∃ e v', freeExtra fsi k d t = (.err e, ⟨v', t.fv⟩) ∧
      (view fsi v'.disk).fat = zeroFat F (Function.update (view fsi t.vol.disk).fat d clusterEoc) := by
  obtain ⟨⟨x, hx⟩, ha, hF⟩ := h
  have hloop := ((fatNext_some.mp hx).2.1).loops hg
  obtain ⟨v1, h1, hs, hn⟩ := nextCluster_answers hg {} t.vol hx ha
  have hfat : (view fsi v1.disk).fat = (view fsi t.vol.disk).fat := by rw [hs.disk]
  obtain ⟨e, v2, h2, hfat2⟩ := freeClusters_behind_stops hg hfuel (v := v1) (F := F)
    (by rw [hfat]; exact hx) (by rw [hfat, hn]; exact hF)
  refine ⟨e, v2, ?_, by rw [hfat2, hfat]⟩
  unfold freeExtra
  rw [bind_ok (attempt_ok (onVol_run h1))]
  dsimp only
  rw [if_pos hloop]
  exact bind_err (onVol_run h2)

/-- How many links are read from the best entry on. -/
def readsTo (fv : Fv) (skip : Nat) : Nat := skip - (bestEntry fv.clsCache fv.cluster skip).index

/-- The truncation comes to the cluster `d` with index `skip`, and freeing what follows stops. -/
structure RunsInto (fsi : Fsi) (t : VnSt) (skip d : Nat) (F : List Nat) : Prop where
  cluster : walk (fatNext fsi (view fsi t.vol.disk).fat) skip t.fv.cluster = some d
  reads : Answers fsi t.vol.reads (readsTo t.fv skip)
  extra : ExtraStops fsi (view fsi t.vol.disk).fat (t.vol.reads + readsTo t.fv skip) d F

/-- `fat32_truncate` behind the first cluster. -/
def truncateRest (fsi : Fsi) (k skip : Nat) (fl : NcFlags) (g : Fv → Fv) : FvM Unit := do
  let cluster ← vnodeSeekCluster fsi skip fl
  freeExtra fsi k cluster
  modifyFv g

theorem truncateRest_ends (hg : Geometry fsi) (hfuel : fsi.clusterCount + 2 ≤ fsi.kernel.fuel) (k : Nat)
    {skip : Nat} (hskip : skip < 2 ^ 32) (fl : NcFlags) (g : Fv → Fv)
    (h : CacheOk fsi (view fsi t.vol.disk).fat t.fv.cluster t.fv.clsCache) :
    WP (truncateRest fsi k skip fl g) t fun r t' => ∀ e, r = .err e →
      (t'.fv.cluster = t.fv.cluster ∧ KeepsUsed fsi (view fsi t.vol.disk).fat t'.vol) ∨
        ∃ d F, RunsInto fsi t skip d F := by
  obtain ⟨hw, hle⟩ := bestEntry_onWay h skip
  have hseek := seekLoop_reached hg fl (readsTo t.fv skip)
    (bestEntry t.fv.clsCache t.fv.cluster skip).cluster t.vol
  have hrun := vnodeSeekCluster_best hskip fl h
  unfold WP at hseek
  rw [← readsTo] at hrun
  obtain ⟨hkeep, hok⟩ := hseek
  unfold truncateRest
  rcases hs : seekLoop fsi fl (readsTo t.fv skip) (bestEntry t.fv.clsCache t.fv.cluster skip).cluster
    t.vol with ⟨d | e | _, v1⟩ <;> rw [hs] at hrun hkeep hok <;> dsimp only at hkeep hok
  · refine .ok_bind hrun ?_
    rcases freeExtra_ends hg hfuel k d ⟨v1, { t.fv with clsCache := updateCache t.fv.clsCache skip d }⟩ with
      ⟨t2, h2⟩ | ⟨e, v2, h2, hkeep2⟩ | ⟨F, hF⟩
    · exact .ok_bind h2 (.of_run rfl nofun)
    · exact .err_bind h2 fun _ _ => .inl ⟨rfl, hkeep.trans hkeep2⟩
    · dsimp only at hF
      rcases hok d rfl with ⟨hwd, hsame, ha, hn⟩ | hfin
      · refine .of_run rfl fun _ _ => .inr ⟨d, F, ?_, ha, ?_⟩
        · rw [← Nat.add_sub_cancel' hle, walk_add, hw]
          exact hwd
        · rwa [hsame.disk, hn] at hF
      · -- nothing follows a cluster that was appended
        obtain ⟨x, hx⟩ := hF.1
        rw [fatEnds hg _ d hfin] at hx
        cases hx
  · exact .err_bind hrun fun _ _ => .inl ⟨rfl, hkeep⟩
  · exact .of_run (Exec.bind_hang hrun) nofun

/-- The vnode after a seek. -/
def Fv.noted (fv : Fv) (index cluster : Nat) : Fv :=
  { fv with clsCache := updateCache fv.clsCache index cluster }

theorem truncateRest_stops (hg : Geometry fsi) (hfuel : fsi.clusterCount + 2 ≤ fsi.kernel.fuel) (k : Nat)
    {skip : Nat} (hskip : skip < 2 ^ 32) (fl : NcFlags) (g : Fv → Fv)
    (h : CacheOk fsi (view fsi t.vol.disk).fat t.fv.cluster t.fv.clsCache) (hF : RunsInto fsi t skip d F) :
    ∃ e v', truncateRest fsi k skip fl g t = (.err e, ⟨v', t.fv.noted skip d⟩) ∧
      (view fsi v'.disk).fat = zeroFat F (Function.update (view fsi t.vol.disk).fat d clusterEoc) := by
  obtain ⟨hw, hle⟩ := bestEntry_onWay h skip
  obtain ⟨hwd, ha, hextra⟩ := hF
  have hrest : walk (fatNext fsi (view fsi t.vol.disk).fat) (readsTo t.fv skip)
      (bestEntry t.fv.clsCache t.fv.cluster skip).cluster = some d := by
    have hsplit := walk_add (fatNext fsi (view fsi t.vol.disk).fat)
      (bestEntry t.fv.clsCache t.fv.cluster skip).index (readsTo t.fv skip) t.fv.cluster
    rw [hw, readsTo, Nat.add_sub_cancel' hle, hwd] at hsplit
    exact hsplit.symm
  obtain ⟨v1, h1, hs, hn⟩ := seekLoop_answers hg fl (readsTo t.fv skip) hrest ha
  have hrun : vnodeSeekCluster fsi skip fl t = (.ok d, ⟨v1, t.fv.noted skip d⟩) := by
    rw [vnodeSeekCluster_best hskip fl h, ← readsTo, h1]
    rfl
  have hextra' : ExtraStops fsi (view fsi v1.disk).fat v1.reads d F := by
    rw [hs.disk, hn]
    exact hextra
  obtain ⟨e, v2, h2, hfat2⟩ := freeExtra_stops (t := ⟨v1, t.fv.noted skip d⟩) hg hfuel k hextra'
  dsimp only at h2 hfat2
  rw [hs.disk] at hfat2
  refine ⟨e, v2, ?_, hfat2⟩
  have hend : (freeExtra fsi k d >>= fun _ => modifyFv g) ⟨v1, t.fv.noted skip d⟩ =
      (.err e, ⟨v2, t.fv.noted skip d⟩) := bind_err h2
  rw [truncateRest]
  refine Eq.trans (bind_ok hrun) ?_
  exact hend

/-- What the vnode refers to, when the FAT was cut after `d` and then cleared at `F`. -/
theorem keepsOff_iff (fv : Fv) (hc : (view fsi v.disk).fat fv.cluster ≠ 0)
    (hfat : (view fsi v'.disk).fat = zeroFat F (Function.update (view fsi v.disk).fat d clusterEoc)) :
    KeepsOff fsi v ⟨v', fv⟩ ↔ fv.cluster ∉ F ∧
      ∀ e ∈ fv.clsCache, e.cluster ∈ F → (view fsi v.disk).fat e.cluster = 0 := by
  have hc0 : fv.cluster ≠ 0 := by
    intro h0
    rw [h0] at hc
    exact hc (fat_outside fun h => absurd h.1 (by decide))
  have hkept (b : Nat) (hb : (view fsi v.disk).fat b ≠ 0) :
      (view fsi v'.disk).fat b = 0 ↔ b ∈ F := by
    rw [hfat, zeroFat]
    by_cases hbF : b ∈ F
    · rw [if_pos hbF]
      exact iff_of_true rfl hbF
    · rw [if_neg hbF, Function.update_apply]
      refine iff_of_false ?_ hbF
      split
      · decide
      · exact hb
  constructor
  · rintro ⟨hcl, hca⟩
    refine ⟨fun hmem => (hcl.resolve_left hc0) ((hkept _ hc).mpr hmem), fun e he hmem => ?_⟩
    by_contra hne
    have he0 : e.cluster ≠ 0 := by
      intro h0
      rw [h0] at hne
      exact hne (fat_outside fun h => absurd h.1 (by decide))
    exact hca e he he0 ⟨hne, (hkept _ hne).mpr hmem⟩
  · rintro ⟨hcl, hca⟩
    refine ⟨.inr fun h0 => hcl ((hkept _ hc).mp h0), fun e he _ hfreed => ?_⟩
    exact hfreed.1 (hca e he ((hkept _ hfreed.1).mp hfreed.2))

/-! ## Truncations that fail clean -/

/-- What a truncation that stops has cleared is nothing that the vnode refers to. -/
def Harmless (fsi : Fsi) (size : Nat) (s : VnSt) : Prop :=
  if neededClusters fsi size = 0 then
    s.fv.cluster < clusterMin ∨ InRange fsi s.fv.cluster ∧
      ∀ F, Stops fsi (view fsi s.vol.disk).fat s.vol.reads s.fv.cluster F →
        F = [] ∧ (view fsi s.vol.disk).fat s.fv.cluster ≠ 0
  else if s.fv.cluster = 0 then True
  else if (view fsi s.vol.disk).fat s.fv.cluster = 0 then
    -- the one error of the device that is taken for the end of the chain
    neededClusters fsi size = 1 ∧ InRange fsi s.fv.cluster ∧
      fsi.kernel.readErr s.vol.reads = some .enospc
  else ∀ d F, RunsInto fsi s (neededClusters fsi size - 1) d F → s.fv.cluster ∉ F ∧
    ∀ e ∈ updateCache s.fv.clsCache (neededClusters fsi size - 1) d, e.cluster ∈ F →
      (view fsi s.vol.disk).fat e.cluster = 0

theorem truncateZero_failsClean (hg : Geometry fsi) (hfuel : fsi.clusterCount + 2 ≤ fsi.kernel.fuel) :
    FailsClean fsi (truncateZero fsi) s ↔ s.fv.cluster < clusterMin ∨ InRange fsi s.fv.cluster ∧
      ∀ F, Stops fsi (view fsi s.vol.disk).fat s.vol.reads s.fv.cluster F →
        F = [] ∧ (view fsi s.vol.disk).fat s.fv.cluster ≠ 0 := by
  by_cases hmin : s.fv.cluster < clusterMin
  · have hrun : ∃ t, truncateZero fsi s = (.ok (), t) := by
      unfold truncateZero
      rw [get_bind_run, if_neg (not_le.mpr hmin)]
      exact ⟨_, rfl⟩
    obtain ⟨t, ht⟩ := hrun
    exact iff_of_true (failsClean_ok ht) (.inl hmin)
  have hge : s.fv.cluster ≥ clusterMin := not_lt.mp hmin
  have herr {e : Errno} {v : Vol} (h : freeClusters fsi s.fv.cluster true s.vol = (.err e, v)) :
      truncateZero fsi s = (.err e, ⟨v, s.fv⟩) := by
    unfold truncateZero
    rw [get_bind_run, if_pos hge]
    exact bind_err (onVol_run h)
  simp only [hmin, false_or]
  by_cases hc : InRange fsi s.fv.cluster
  · simp only [hc, true_and]
    constructor
    · intro hclean F hF
      obtain ⟨e, v, h, hfat⟩ := freeClusters_whole_stops hg hfuel hc hF
      rw [failsClean_err (herr h)] at hclean
      have hused : (view fsi v.disk).fat s.fv.cluster ≠ 0 :=
        hclean.cluster.resolve_left fun h0 => by
          rw [show s.fv.cluster = 0 from h0] at hmin
          exact hmin (by decide)
      rw [hfat, zeroFat] at hused
      by_cases hmem : s.fv.cluster ∈ F
      · rw [if_pos hmem] at hused
        exact absurd rfl hused
      · rw [if_neg hmem] at hused
        exact ⟨hF.head.resolve_right hmem, hused⟩
    · intro hcond
      rcases freeClusters_whole hg hfuel hc s.vol with ⟨v, h⟩ | ⟨F, hF⟩
      · have hrun : ∃ t, truncateZero fsi s = (.ok (), t) := by
          unfold truncateZero
          rw [get_bind_run, if_pos hge]
          exact ⟨_, bind_ok (onVol_run h)⟩
        obtain ⟨t, ht⟩ := hrun
        exact failsClean_ok ht
      · obtain ⟨rfl, hused⟩ := hcond F hF
        obtain ⟨e, v, h, hfat⟩ := freeClusters_whole_stops hg hfuel hc hF
        rw [zeroFat_nil] at hfat
        rw [failsClean_err (herr h)]
        refine ⟨.inr ?_, fun e _ _ hfreed => hfreed.1 ?_⟩
        · rw [hfat]
          exact hused
        · rw [← hfat]
          exact hfreed.2
  · -- the first cluster is refused
    have hrun : freeClusters fsi s.fv.cluster true s.vol = (.err .einval, s.vol) := by
      rw [freeClusters, if_pos (not_not.mp fun h => hc ((inRange_iff hg _).mpr h))]
      rfl
    rw [failsClean_err (herr hrun)]
    refine iff_of_false (fun h => ?_) fun h => hc h.1
    rcases h.cluster with h | h
    · exact hmin (by rw [show s.fv.cluster = 0 from h]; decide)
    · exact h (fat_outside hc)

theorem failsClean_congr {m m' : FvM Unit} (h : m s = m' s) :
    FailsClean fsi m s ↔ FailsClean fsi m' s := by
  unfold FailsClean
  rw [h]

theorem KeepsUsed.keepsOff (h : KeepsUsed fsi (view fsi v.disk).fat t.vol)
    (hc : t.fv.cluster = 0 ∨ (view fsi t.vol.disk).fat t.fv.cluster ≠ 0) : KeepsOff fsi v t :=
  ⟨hc, fun e _ _ hfreed => h e.cluster hfreed.1 hfreed.2⟩

/-- From a first cluster in use. -/
theorem truncateRest_failsClean (hg : Geometry fsi) (hfuel : fsi.clusterCount + 2 ≤ fsi.kernel.fuel)
    (k : Nat) {skip : Nat} (hskip : skip < 2 ^ 32) (fl : NcFlags) (g : Fv → Fv)
    (h : CacheOk fsi (view fsi s.vol.disk).fat s.fv.cluster s.fv.clsCache)
    (hc : (view fsi s.vol.disk).fat s.fv.cluster ≠ 0) :
    FailsClean fsi (truncateRest fsi k skip fl g) s ↔ ∀ d F, RunsInto fsi s skip d F →
      s.fv.cluster ∉ F ∧ ∀ e ∈ updateCache s.fv.clsCache skip d, e.cluster ∈ F →
        (view fsi s.vol.disk).fat e.cluster = 0 := by
  have hstops {d : Nat} {F : List Nat} (hF : RunsInto fsi s skip d F) :
      FailsClean fsi (truncateRest fsi k skip fl g) s ↔ s.fv.cluster ∉ F ∧
        ∀ e ∈ updateCache s.fv.clsCache skip d, e.cluster ∈ F →
          (view fsi s.vol.disk).fat e.cluster = 0 := by
    obtain ⟨e, v', hrun, hfat⟩ := truncateRest_stops hg hfuel k hskip fl g h hF
    rw [failsClean_err hrun]
    exact keepsOff_iff (s.fv.noted skip d) hc hfat
  refine ⟨fun hclean d F hF => (hstops hF).mp hclean, fun hall => ?_⟩
  by_cases hex : ∃ d F, RunsInto fsi s skip d F
  · obtain ⟨d, F, hF⟩ := hex
    exact (hstops hF).mpr (hall d F hF)
  · have hends := truncateRest_ends hg hfuel k hskip fl g h
    unfold WP at hends
    intro e he
    obtain ⟨hcl, hkeep⟩ := (hends e he).resolve_right hex
    refine hkeep.keepsOff (.inr ?_)
    rw [hcl]
    exact hkeep _ hc

/-- Behind an entry that is free there is nothing. -/
theorem nextCluster_unused (hg : Geometry fsi) (hc0 : c ≠ 0) (hc : (view fsi v.disk).fat c = 0) (fl : NcFlags) :
    ∃ e v', nextCluster fsi c fl v = (.err e, v') ∧ Same v v' ∧
      (e = .enospc ↔ InRange fsi c ∧ fsi.kernel.readErr v.reads = some .enospc) := by
  unfold nextCluster
  by_cases hr : InRange fsi c
  · simp only [if_neg hc0, if_neg (hr.not_outside hg), hr, true_and]
    obtain ⟨v1, hs, -, ⟨e, he, h⟩ | ⟨ha, h⟩⟩ := rmwCluster_answer hg hr v
    · refine ⟨e, v1, bind_err h, hs, ?_⟩
      rw [he, Option.some_inj]
    · rw [hc] at h
      refine ⟨.eio, v1, (bind_ok h).trans ?_, hs, ?_⟩
      · rw [if_neg (by decide), if_neg (by decide), if_pos rfl]
        rfl
      · rw [answers_one.mp ha]
        exact ⟨nofun, nofun⟩
  · have hout : c < clusterMin ∨ c > maxCluster fsi := not_not.mp fun h => hr ((inRange_iff hg c).mpr h)
    rw [if_neg hc0, if_pos hout]
    exact ⟨.einval, v, rfl, .refl v, nofun, fun h => absurd h.1 hr⟩

/-- From a first cluster whose entry is free. -/
theorem truncateRest_unused (hg : Geometry fsi) (k skip : Nat) (hskip : skip < 2 ^ 32) (fl : NcFlags)
    (g : Fv → Fv) (h : CacheOk fsi (view fsi s.vol.disk).fat s.fv.cluster s.fv.clsCache)
    (hc0 : s.fv.cluster ≠ 0) (hc : (view fsi s.vol.disk).fat s.fv.cluster = 0) :
    FailsClean fsi (truncateRest fsi k skip fl g) s ↔ skip = 0 ∧ InRange fsi s.fv.cluster ∧
      fsi.kernel.readErr s.vol.reads = some .enospc := by
  obtain ⟨hw, hle⟩ := bestEntry_onWay h skip
  have hseek := vnodeSeekCluster_best hskip fl h
  -- no entry of the cache leads on
  obtain ⟨hidx, hbest⟩ : (bestEntry s.fv.clsCache s.fv.cluster skip).index = 0 ∧
      (bestEntry s.fv.clsCache s.fv.cluster skip).cluster = s.fv.cluster := by
    cases hi : (bestEntry s.fv.clsCache s.fv.cluster skip).index with
    | zero =>
      rw [hi] at hw
      exact ⟨rfl, (Option.some.inj hw).symm⟩
    | succ i =>
      have hnone : fatNext fsi (view fsi s.vol.disk).fat s.fv.cluster = none := by
        refine if_neg fun h => ?_
        have := h.2.1
        rw [hc] at this
        exact absurd this (by decide)
      rw [hi, walk, hnone] at hw
      cases hw
  rw [hidx, hbest, Nat.sub_zero] at hseek
  have hdirty (v : Vol) (d : Nat) (hs : Same s.vol v) :
      ¬ KeepsOff fsi s.vol ⟨v, s.fv.noted skip d⟩ := by
    intro hk
    have hcl : s.fv.cluster = 0 ∨ (view fsi v.disk).fat s.fv.cluster ≠ 0 := hk.cluster
    rw [hs.disk] at hcl
    exact hcl.elim hc0 fun h => h hc
  have hclean (v : Vol) (hs : Same s.vol v) : ¬ KeepsOff fsi s.vol ⟨v, s.fv⟩ := by
    intro hk
    have hcl : s.fv.cluster = 0 ∨ (view fsi v.disk).fat s.fv.cluster ≠ 0 := hk.cluster
    rw [hs.disk] at hcl
    exact hcl.elim hc0 fun h => h hc
  refine failsClean_wp ?_
  unfold truncateRest
  cases skip with
  | zero =>
    have hrun : vnodeSeekCluster fsi 0 fl s = (.ok s.fv.cluster, ⟨s.vol, s.fv.noted 0 s.fv.cluster⟩) := hseek
    obtain ⟨e, v1, h1, hs, he⟩ := nextCluster_unused hg hc0 hc {}
    simp only [true_and]
    rw [← he]
    refine .ok_bind hrun (.bind (R := fun r t => t = ⟨v1, s.fv.noted 0 s.fv.cluster⟩ ∧
      (r = .err e ∧ e ≠ .enospc ∨ r = .ok () ∧ e = .enospc)) ?_ ?_ ?_ ?_)
    · unfold freeExtra
      refine .ok_bind (attempt_err (onVol_run h1)) (.ite (fun hno => ?_) fun hno => ?_)
      · exact .of_run rfl ⟨rfl, .inr ⟨rfl, hno⟩⟩
      · exact .of_run rfl ⟨rfl, .inl ⟨rfl, hno⟩⟩
    · rintro _ _ ⟨rfl, ⟨hr, -⟩ | ⟨-, hno⟩⟩
      · cases hr
      · exact .of_run (modifyFv_run _ _) (iff_of_true (fun _ h => by cases h) hno)
    · rintro e' _ ⟨rfl, ⟨hr, hno⟩ | ⟨hr, -⟩⟩
      · obtain rfl := Out.err.inj hr
        exact iff_of_false (fun h => hdirty v1 s.fv.cluster hs (h _ rfl)) hno
      · cases hr
    · rintro _ ⟨rfl, ⟨hr, -⟩ | ⟨hr, -⟩⟩ <;> cases hr
  | succ n =>
    obtain ⟨e, v1, h1, hs, -⟩ := nextCluster_unused hg hc0 hc fl
    have hloop : seekLoop fsi fl (n + 1) s.fv.cluster s.vol = (.err e, v1) := bind_err h1
    rw [hloop] at hseek
    exact .err_bind hseek (iff_of_false (fun h => hclean v1 hs (h _ rfl)) fun h =>
      absurd h.1 (Nat.succ_ne_zero n))

/-- A file without clusters. -/
theorem truncateFirst_failsClean (hg : Geometry fsi) (hfuel : fsi.clusterCount + 2 ≤ fsi.kernel.fuel)
    (k : Nat) {skip : Nat} (hskip : skip < 2 ^ 32) (fl : NcFlags) (g : Fv → Fv)
    (h : CacheOk fsi (view fsi s.vol.disk).fat s.fv.cluster s.fv.clsCache) (hc : s.fv.cluster = 0) :
    FailsClean fsi (firstCluster fsi fl >>= fun _ => truncateRest fsi k skip fl g) s := by
  have hdead : ∀ e ∈ s.fv.clsCache, e.cluster = 0 := by
    rw [hc] at h
    exact h.dead
  have hnext : WP (firstCluster fsi fl) s fun r t => KeepsUsed fsi (view fsi s.vol.disk).fat t.vol ∧
      t.fv.clsCache = s.fv.clsCache ∧ (t.fv.cluster = 0 ∨ fatFin fsi (view fsi t.vol.disk).fat t.fv.cluster) ∧
      (r = .ok () → fatFin fsi (view fsi t.vol.disk).fat t.fv.cluster) := by
    unfold firstCluster
    refine .get_bind (.ite (fun _ => ?_) fun hno => absurd hc hno)
    refine .on_bind (nextCluster_reached hg 0 fl s.vol) (fun d v1 h1 => ?_)
      (fun e v1 h1 => ⟨h1.1, rfl, .inl hc, fun h => absurd h Out.err_ne_ok⟩) fun v1 h1 =>
        ⟨h1.1, rfl, .inl hc, fun h => absurd h Out.hang_ne_ok⟩
    -- no link leads on from cluster 0
    have hfin : fatFin fsi (view fsi v1.disk).fat d := by
      refine (h1.2 d rfl).resolve_left fun hr => ?_
      have hw := hr.1
      have hnone : fatNext fsi (view fsi s.vol.disk).fat 0 = none := if_neg fun h => absurd h.1.1 (by decide)
      rw [walk, hnone] at hw
      cases hw
    exact .of_run (modifyFv_run _ _) ⟨h1.1, rfl, .inr hfin, fun _ => hfin⟩
  suffices hall : WP (firstCluster fsi fl >>= fun _ => truncateRest fsi k skip fl g) s
      fun r t => ∀ e, r = .err e → KeepsOff fsi s.vol t by
    unfold FailsClean
    unfold WP at hall
    exact hall
  refine .bind hnext (fun _ s1 h1 => ?_) (fun e s1 h1 _ _ => ?_) fun _ _ _ h => absurd h Out.hang_ne_err
  · have hfin := h1.2.2.2 rfl
    have hca : CacheOk fsi (view fsi s1.vol.disk).fat s1.fv.cluster s1.fv.clsCache := by
      intro e he hne
      rw [h1.2.1] at he
      exact absurd (hdead e he) hne
    refine (truncateRest_ends hg hfuel k hskip fl g hca).mono fun r t ht e he => ?_
    have hend := fatEnds hg _ _ hfin
    rcases ht e he with ⟨hcl, hkeep⟩ | ⟨d, F, hrun⟩
    · refine (h1.1.trans hkeep).keepsOff (.inr ?_)
      rw [hcl]
      refine hkeep _ fun h0 => ?_
      have hge := hfin.2
      rw [h0] at hge
      exact absurd hge (by decide)
    · -- nothing follows the new cluster
      obtain ⟨x, hx⟩ := hrun.extra.1
      cases skip with
      | zero =>
        rw [← Option.some.inj hrun.cluster, hend] at hx
        cases hx
      | succ n =>
        have hw := hrun.cluster
        rw [walk, hend] at hw
        cases hw
  · refine h1.1.keepsOff (h1.2.2.1.imp id fun hfin h0 => ?_)
    have hge := hfin.2
    rw [h0] at hge
    exact absurd hge (by decide)

/-- A file of two clusters, the second of them marked bad behind its link. -/
def badLink (cache : List ClsCacheEntry) : VnSt where
  vol := image [3, clusterBad] fun _ => []
  fv := { vnodeNew (small 2) with cluster := 2, size := 1024, clsCache := cache }

end Fat32
