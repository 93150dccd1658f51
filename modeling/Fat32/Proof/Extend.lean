import Mathlib
import Fat32.Impl.Extend
import Fat32.Proof.Ownership

/-!
# Concurrent extension

`fat32_next_cluster` looks for the end of the chain in one critical section and
appends a cluster in the next one. When no call on a cluster begins while another
call on the same cluster is between the two, the end is still there when a cluster
is appended, and nothing is lost (`extendRun_keeps`).
-/

namespace Fat32

open Bytes Exec Prog Linked

variable {fsi : Fsi} {H : Finset Nat} {fat : Nat → Nat} {v : Vol} {a c p q h : Nat} {l : List Nat}

/-- The two critical sections are the function. -/
theorem nextCluster_sections (fsi : Fsi) (c : Nat) (fl : NcFlags) :
    nextCluster fsi c fl = (do
      match ← nextRead fsi c fl with
      | some d => pure d
      | none => allocateCluster fsi c fl) := by
  funext v
  unfold nextCluster nextRead
  by_cases h0 : c = 0
  · simp only [if_pos h0]
    cases fl.alloc <;> rfl
  · simp only [if_neg h0]
    split
    · rfl
    · rw [bind_run, bind_run, bind_run]
      rcases rmwCluster fsi c none v with ⟨next | e | _, v'⟩
      · dsimp only
        split
        · cases fl.alloc <;> rfl
        · split
          · rfl
          split
          · rfl
          split <;> rfl
      · rfl
      · rfl

/-- The first section on a used cluster of the data area: its link, or the end. -/
theorem nextRead_used (hk : Reliable fsi.kernel) (hg : Geometry fsi)
    (hl : FatChain fsi (view fsi v.disk).fat a l) (hc : c ∈ l) (call : ExtendCall) :
    ∃ v', Same v v' ∧
      ((fatFin fsi (view fsi v.disk).fat c ∧ nextRead fsi c call.flags v = (.ok none, v')) ∨
        ∃ d, fatNext fsi (view fsi v.disk).fat c = some d ∧
          nextRead fsi c call.flags v = (.ok (some d), v')) := by
  have hr := hl.inRange c hc
  have hc0 : c ≠ 0 := by have := hr.1; omega
  have hcnt := hg.count
  simp only [clusterBad] at hcnt
  obtain ⟨v', e, s⟩ := rmwCluster_read hk hg hr v
  refine ⟨v', s, ?_⟩
  rw [nextRead, if_neg hc0, if_neg (hr.not_outside hg), bind_ok e]
  obtain ⟨i, hi⟩ := List.getElem?_of_mem hc
  rcases hl.step hi with ⟨hf, -⟩ | ⟨d, hn, -⟩
  · rw [if_pos hf.2]
    exact .inl ⟨hf, rfl⟩
  · obtain ⟨-, hd, hfat⟩ := fatNext_some.mp hn
    have hd2 := hd.2
    have hd1 := hd.1
    rw [hfat, if_neg (by simp only [clusterEocMin]; omega),
      if_neg (by simp only [clusterBad]; omega), if_neg (by simp only [clusterFree]; omega),
      if_neg (hd.not_outside hg)]
    exact .inr ⟨d, hn, rfl⟩

/-! ## Who links to a cluster -/

/-- The two ends of a link are on one chain. -/
theorem Owned.link_chain (hg : Geometry fsi) (O : Owned fsi H fat) {d : Nat}
    (hn : fatNext fsi fat p = some d) :
    ∃ h ∈ H, ∃ l, FatChain fsi fat h l ∧ p ∈ l ∧ d ∈ l := by
  obtain ⟨hp, hd, hfat⟩ := fatNext_some.mp hn
  obtain ⟨h, ⟨hh, l, hl, hpl⟩, -⟩ := O.owner p hp (by rw [hfat]; have := hd.1; omega)
  refine ⟨h, hh, l, hl, hpl, ?_⟩
  obtain ⟨i, hi⟩ := List.getElem?_of_mem hpl
  rcases hl.step hi with ⟨hf, -⟩ | ⟨e, he, hei⟩
  · rw [fatEnds hg fat p hf] at hn
    cases hn
  · rw [Option.some.inj (hn.symm.trans he)]
    exact List.mem_of_getElem? hei

theorem Owned.link_unique (hg : Geometry fsi) (O : Owned fsi H fat) {d : Nat}
    (hp : fatNext fsi fat p = some d) (hq : fatNext fsi fat q = some d) : p = q := by
  obtain ⟨g, hgH, l, hl, hpl, hdl⟩ := O.link_chain hg hp
  obtain ⟨h, hhH, m, hm, hqm, hdm⟩ := O.link_chain hg hq
  obtain rfl := O.forest.head_unique hgH hhH hl hm hdl hdm
  obtain rfl := hl.unique (fatEnds hg fat) hm
  exact hl.link_unique (fatEnds hg fat) hpl hqm hp hq

theorem Owned.head_not_linked (hg : Geometry fsi) (O : Owned fsi H fat) (hh : h ∈ H) :
    fatNext fsi fat p ≠ some h := by
  intro hn
  obtain ⟨g, hgH, l, hl, hpl, hhl⟩ := O.link_chain hg hn
  obtain ⟨m, hm⟩ := O.chain h hh
  obtain rfl := O.forest.head_unique hgH hh hl hm hhl hm.head_mem
  exact hl.head_not_linked (fatEnds hg fat) hpl hn

theorem Owned.used_chain (O : Owned fsi H fat) (hc : InRange fsi c) (hz : fat c ≠ 0) :
    ∃ h ∈ H, ∃ l, FatChain fsi fat h l ∧ c ∈ l := by
  obtain ⟨h, ⟨hh, l, hl, hcl⟩, -⟩ := O.owner c hc hz
  exact ⟨h, hh, l, hl, hcl⟩

/-! ## The invariant -/

variable {ι : Type} [DecidableEq ι] {calls : ι → ExtendCall} {s s' : Extending ι} {i j : ι}

/-- The call has returned the cluster. -/
def Extending.Got (s : Extending ι) (i : ι) (r : Nat) : Prop := s.phase i = .returned (.ok r)

/-- The FAT is good, with the clusters that calls from 0 got as new heads; every other
call that got a cluster is linked to it; and where a cluster will be appended, the chain
ends and no other call appends one. -/
structure Extended (fsi : Fsi) (H : Finset Nat) (calls : ι → ExtendCall) (s : Extending ι) :
    Prop where
  heads : ∃ H' : Finset Nat, Good fsi H' s.vol ∧
    ∀ h, h ∈ H' ↔ h ∈ H ∨ ∃ i, (calls i).current = 0 ∧ s.Got i h
  used : ∀ i, (calls i).current ≠ 0 →
    InRange fsi (calls i).current ∧ (view fsi s.vol.disk).fat (calls i).current ≠ 0
  ends : ∀ i, s.phase i = .allocate → (calls i).current ≠ 0 →
    fatFin fsi (view fsi s.vol.disk).fat (calls i).current
  once : ∀ i j, s.phase i = .allocate → s.phase j = .allocate → (calls i).current ≠ 0 →
    (calls i).current = (calls j).current → i = j
  linked : ∀ i r, (calls i).current ≠ 0 → s.Got i r →
    fatNext fsi (view fsi s.vol.disk).fat (calls i).current = some r
  fresh : ∀ i r, (calls i).current = 0 → s.Got i r → r ∉ H
  apart : ∀ i j r, (calls i).current = 0 → (calls j).current = 0 → s.Got i r → s.Got j r → i = j

/-- Call `i` may go on: it does not begin while another call on the same cluster is
between its critical sections. -/
def ExtendAllowed (calls : ι → ExtendCall) (s : Extending ι) (i : ι) : Prop :=
  s.phase i = .start → (calls i).current ≠ 0 →
    ∀ j, s.phase j = .allocate → (calls j).current ≠ (calls i).current

inductive ExtendRun (fsi : Fsi) (calls : ι → ExtendCall) : Extending ι → Extending ι → Prop
  | refl (s : Extending ι) : ExtendRun fsi calls s s
  | step {s s' : Extending ι} (i : ι) (ha : ExtendAllowed calls s i)
      (t : ExtendRun fsi calls (s.step fsi calls i) s') : ExtendRun fsi calls s s'

/-- A run that goes on. -/
theorem ExtendRun.snoc (run : ExtendRun fsi calls s s') (i : ι) (ha : ExtendAllowed calls s' i) :
    ExtendRun fsi calls s (s'.step fsi calls i) := by
  induction run with
  | refl s => exact .step i ha (.refl _)
  | step j hj _ ih => exact .step j hj (ih ha)

theorem update_phase {f : ι → Phase} {x y : Phase} (h : Function.update f i x j = y) :
    j = i ∧ x = y ∨ j ≠ i ∧ f j = y := by
  by_cases hj : j = i
  · rw [hj, Function.update_self] at h
    exact .inl ⟨hj, h⟩
  · rw [Function.update_of_ne hj] at h
    exact .inr ⟨hj, h⟩

/-- A call that returns without a change of the FAT: an error, or the link it found. -/
theorem Extended.return_same (E : Extended fsi H calls s) {r : Out Errno Nat} (hs : Same s.vol v)
    (hph : ∀ d, s.phase i ≠ .returned (.ok d))
    (hr : ∀ d, r = .ok d → (calls i).current ≠ 0 ∧
      fatNext fsi (view fsi s.vol.disk).fat (calls i).current = some d) :
    Extended fsi H calls ⟨v, Function.update s.phase i (.returned r)⟩ := by
  have got {j d} (hg : (⟨v, Function.update s.phase i (.returned r)⟩ : Extending ι).Got j d) :
      j = i ∧ r = .ok d ∨ j ≠ i ∧ s.Got j d := by
    rcases update_phase hg with ⟨hj, e⟩ | h
    · exact .inl ⟨hj, Phase.returned.inj e⟩
    · exact .inr h
  have alloc {j} (ha : Function.update s.phase i (.returned r) j = .allocate) :
      s.phase j = .allocate := by
    rcases update_phase ha with ⟨-, e⟩ | h
    · cases e
    · exact h.2
  have got0 {j d} (hj : (calls j).current = 0)
      (hg : (⟨v, Function.update s.phase i (.returned r)⟩ : Extending ι).Got j d) : s.Got j d := by
    rcases got hg with ⟨rfl, e⟩ | h
    · exact absurd hj (hr d e).1
    · exact h.2
  obtain ⟨H', G, hH⟩ := E.heads
  refine ⟨⟨H', G.same hs, fun h => (hH h).trans (or_congr_right ?_)⟩, fun j hj => ?_,
    fun j ha hj => ?_, fun j k ha hb => E.once j k (alloc ha) (alloc hb), fun j d hj hg => ?_,
    fun j d hj hg => E.fresh j d hj (got0 hj hg),
    fun j k d hj hk hg hg' => E.apart j k d hj hk (got0 hj hg) (got0 hk hg')⟩
  · refine exists_congr fun j => and_congr_right fun hj => ⟨fun hg => ?_, got0 hj⟩
    have hne : j ≠ i := fun e => hph h (e ▸ hg)
    exact (Function.update_of_ne hne _ _).trans hg
  · rw [hs.disk]
    exact E.used j hj
  · rw [hs.disk]
    exact E.ends j (alloc ha) hj
  · rw [hs.disk]
    rcases got hg with ⟨rfl, e⟩ | h
    · exact (hr d e).2
    · exact E.linked j d hj h.2

/-- A call that found the end of its chain, or that begins a new one. -/
theorem Extended.allocate_same (E : Extended fsi H calls s) (hs : Same s.vol v)
    (hph : ∀ d, s.phase i ≠ .returned (.ok d))
    (hend : (calls i).current ≠ 0 → fatFin fsi (view fsi s.vol.disk).fat (calls i).current ∧
      ∀ j, s.phase j = .allocate → (calls j).current ≠ (calls i).current) :
    Extended fsi H calls ⟨v, Function.update s.phase i .allocate⟩ := by
  have got {j d} (hg : (⟨v, Function.update s.phase i .allocate⟩ : Extending ι).Got j d) :
      s.Got j d := by
    rcases update_phase hg with ⟨-, e⟩ | h
    · cases e
    · exact h.2
  have alloc {j} (ha : Function.update s.phase i .allocate j = .allocate) :
      j = i ∨ j ≠ i ∧ s.phase j = .allocate := (update_phase ha).imp_left And.left
  obtain ⟨H', G, hH⟩ := E.heads
  refine ⟨⟨H', G.same hs, fun h => (hH h).trans (or_congr_right ?_)⟩, fun j hj => ?_,
    fun j ha hj => ?_, fun j k ha hb hj hjk => ?_, fun j d hj hg => ?_,
    fun j d hj hg => E.fresh j d hj (got hg),
    fun j k d hj hk hg hg' => E.apart j k d hj hk (got hg) (got hg')⟩
  · refine exists_congr fun j => and_congr_right fun _ => ⟨fun hg => ?_, got⟩
    have hne : j ≠ i := fun e => hph h (e ▸ hg)
    exact (Function.update_of_ne hne _ _).trans hg
  · rw [hs.disk]
    exact E.used j hj
  · rw [hs.disk]
    rcases alloc ha with rfl | h
    · exact (hend hj).1
    · exact E.ends j h.2 hj
  · rcases alloc ha with rfl | hja <;> rcases alloc hb with rfl | hkb
    · rfl
    · exact absurd hjk.symm ((hend hj).2 k hkb.2)
    · exact absurd hjk ((hend (hjk ▸ hj)).2 j hja.2)
    · exact E.once j k hja.2 hkb.2 hj hjk
  · rw [hs.disk]
    exact E.linked j d hj (got hg)

theorem linkFat_away {r b : Nat} (hp : b ≠ p) (hr : b ≠ r) : linkFat fat p r b = fat b := by
  by_cases h0 : p = 0
  · rw [h0, linkFat_zero, if_neg hr]
  · exact linkFat_other h0 hp hr

/-- A call that appended a cluster, or made a new head. -/
theorem Extended.allocated (hg : Geometry fsi) (E : Extended fsi H calls s) {r : Nat} {cl : Bool}
    (hi : s.phase i = .allocate) (A : Allocated fsi (calls i).current r cl s.vol v) :
    Extended fsi H calls ⟨v, Function.update s.phase i (.returned (.ok r))⟩ := by
  have got {j d} (h : (⟨v, Function.update s.phase i (.returned (.ok r))⟩ : Extending ι).Got j d) :
      j = i ∧ r = d ∨ j ≠ i ∧ s.Got j d := by
    rcases update_phase h with ⟨hj, e⟩ | h
    · exact .inl ⟨hj, Out.ok.inj (Phase.returned.inj e)⟩
    · exact .inr h
  have alloc {j} (ha : Function.update s.phase i (.returned (.ok r)) j = .allocate) :
      j ≠ i ∧ s.phase j = .allocate := by
    rcases update_phase ha with ⟨-, e⟩ | h
    · cases e
    · exact h
  have ungot {d} : ¬ s.Got i d := fun h => by
    have e : Phase.allocate = .returned (.ok d) := hi.symm.trans h
    cases e
  -- the entries of other calls' clusters are as before
  have entry {j} (hj : (calls j).current ≠ 0) (hne : (calls j).current ≠ (calls i).current) :
      (view fsi v.disk).fat (calls j).current = (view fsi s.vol.disk).fat (calls j).current := by
    rw [A.fat]
    exact linkFat_away hne fun e => (E.used j hj).2 (e ▸ A.free)
  have other {j} (hj : (calls j).current ≠ 0) (hji : j ≠ i) (ha : s.phase j = .allocate) :
      (calls j).current ≠ (calls i).current := fun e => hji (E.once j i ha hi hj e)
  obtain ⟨H', G, hH⟩ := E.heads
  have hnew : r ∉ H' := by
    intro hr
    obtain ⟨l, hl⟩ := G.owned.chain r hr
    exact hl.ne_zero r hl.head_mem A.free
  refine ⟨?_, fun j hj => ⟨(E.used j hj).1, ?_⟩, fun j ha hj => ?_,
    fun j k ha hb => E.once j k (alloc ha).2 (alloc hb).2, fun j d hj h => ?_, fun j d hj h => ?_,
    fun j k d hj hk h h' => ?_⟩
  · by_cases h0 : (calls i).current = 0
    · rw [h0] at A
      refine ⟨insert r H', G.allocated hg A (.inl rfl) (G.owned.alloc hg A.inRange A.free),
        fun h => ?_⟩
      rw [Finset.mem_insert, hH h]
      constructor
      · rintro (rfl | hh | ⟨j, hj, hgot⟩)
        · exact .inr ⟨i, h0, Function.update_self _ _ _⟩
        · exact .inl hh
        · refine .inr ⟨j, hj, ?_⟩
          have hne : j ≠ i := fun e => ungot (e ▸ hgot)
          exact (Function.update_of_ne hne _ _).trans hgot
      · rintro (hh | ⟨j, hj, hgot⟩)
        · exact .inr (.inl hh)
        · rcases got hgot with ⟨-, rfl⟩ | hgot
          · exact .inl rfl
          · exact .inr (.inr ⟨j, hj, hgot.2⟩)
    · obtain ⟨hr, hz⟩ := E.used i h0
      obtain ⟨g, hgH, l, hl, hcl⟩ := G.owned.used_chain hr hz
      have O := (G.owned.append hg hgH hl hcl (E.ends i hi h0) A.inRange A.free).1
      refine ⟨H', G.allocated hg A (.inr ⟨hr, hz⟩) O, fun h => (hH h).trans (or_congr_right ?_)⟩
      refine exists_congr fun j => and_congr_right fun hj => ⟨fun hgot => ?_, fun hgot => ?_⟩
      · have hne : j ≠ i := fun e => ungot (e ▸ hgot)
        exact (Function.update_of_ne hne _ _).trans hgot
      · rcases got hgot with ⟨rfl, -⟩ | hgot
        · exact absurd hj h0
        · exact hgot.2
  · by_cases hne : (calls j).current = (calls i).current
    · show (view fsi v.disk).fat (calls j).current ≠ 0
      rw [A.fat, hne, linkFat_ne _ (hne ▸ hj), if_pos rfl]
      have := A.inRange.1
      omega
    · show (view fsi v.disk).fat (calls j).current ≠ 0
      rw [entry hj hne]
      exact (E.used j hj).2
  · obtain ⟨hji, ha⟩ := alloc ha
    exact fatFin_congr (entry hj (other hj hji ha)) (E.ends j ha hj)
  · rcases got h with ⟨rfl, rfl⟩ | ⟨hji, h⟩
    · refine fatNext_some.mpr ⟨(E.used j hj).1, A.inRange, ?_⟩
      rw [A.fat, linkFat_ne _ hj, if_pos rfl]
    · -- a cluster that has a link is not one that gets a cluster appended
      have hlink := E.linked j d hj h
      refine (fatNext_congr (entry hj fun e => ?_)).trans hlink
      have hfin := E.ends i hi (e ▸ hj)
      rw [e, fatEnds hg _ _ hfin] at hlink
      cases hlink
  · rcases got h with ⟨-, rfl⟩ | ⟨-, h⟩
    · exact fun hr => hnew ((hH r).mpr (.inl hr))
    · exact E.fresh j d hj h
  · rcases got h with ⟨hji, hd⟩ | ⟨-, hgj⟩ <;> rcases got h' with ⟨hki, hd'⟩ | ⟨-, hgk⟩
    · rw [hji, hki]
    · rw [← hd] at hgk
      exact absurd ((hH r).mpr (.inr ⟨k, hk, hgk⟩)) hnew
    · rw [← hd'] at hgj
      exact absurd ((hH r).mpr (.inr ⟨j, hj, hgj⟩)) hnew
    · exact E.apart j k d hj hk hgj hgk

/-- A step of a call that may go on. -/
theorem Extended.step (hk : Reliable fsi.kernel) (hg : Geometry fsi) (E : Extended fsi H calls s)
    (ha : ExtendAllowed calls s i) : Extended fsi H calls (s.step fsi calls i) := by
  unfold Extending.step
  obtain ⟨H', G, -⟩ := E.heads
  cases hi : s.phase i with
  | returned r => exact E
  | start =>
    have hph : ∀ d, s.phase i ≠ .returned (.ok d) := fun d => by rw [hi]; exact nofun
    by_cases h0 : (calls i).current = 0
    · have hread : nextRead fsi (calls i).current (calls i).flags s.vol = (.ok none, s.vol) := by
        rw [h0]
        rfl
      dsimp only
      rw [hread]
      exact E.allocate_same (.refl _) hph fun h => absurd h0 h
    · obtain ⟨hr, hz⟩ := E.used i h0
      obtain ⟨g, -, l, hl, hcl⟩ := G.owned.used_chain hr hz
      obtain ⟨v, hs, ⟨hf, e⟩ | ⟨d, hn, e⟩⟩ := nextRead_used hk hg hl hcl (calls i)
      · dsimp only
        rw [e]
        exact E.allocate_same hs hph fun _ => ⟨hf, ha hi h0⟩
      · dsimp only
        rw [e]
        refine E.return_same hs hph fun d' hd => ⟨h0, ?_⟩
        rw [← Out.ok.inj hd]
        exact hn
  | allocate =>
    have hph : ∀ d, s.phase i ≠ .returned (.ok d) := fun d => by rw [hi]; exact nofun
    have hp : (calls i).current = 0 ∨ InRange fsi (calls i).current ∧
        (view fsi s.vol.disk).fat (calls i).current ≠ 0 := by
      by_cases h0 : (calls i).current = 0
      · exact .inl h0
      · exact .inr (E.used i h0)
    dsimp only
    obtain ⟨v, ⟨e, hs⟩ | ⟨r, e, A⟩⟩ := allocateCluster_ok hk hg hp (calls i).flags
    · rw [e]
      exact E.return_same hs hph nofun
    · rw [e]
      exact E.allocated hg hi A

theorem Extended.run (hk : Reliable fsi.kernel) (hg : Geometry fsi) (E : Extended fsi H calls s)
    (run : ExtendRun fsi calls s s') : Extended fsi H calls s' := by
  induction run with
  | refl s => exact E
  | step i ha _ ih => exact ih (E.step hk hg ha)

/-! ## Nothing is lost -/

/-- What the calls have to leave: every used cluster is reachable from a head of before
or a new one, every cluster handed out is linked from one place or is a new head, and
calls on different clusters got different ones. -/
structure NothingLost (fsi : Fsi) (H : Finset Nat) (calls : ι → ExtendCall) (s : Extending ι) :
    Prop where
  reachable : ∃ H' : Finset Nat, Good fsi H' s.vol ∧
    ∀ h, h ∈ H' ↔ h ∈ H ∨ ∃ i, (calls i).current = 0 ∧ s.Got i h
  linked : ∀ i r, (calls i).current ≠ 0 → s.Got i r →
    ∃! p, fatNext fsi (view fsi s.vol.disk).fat p = some r
  head : ∀ i r, (calls i).current = 0 → s.Got i r →
    r ∉ H ∧ ∀ p, fatNext fsi (view fsi s.vol.disk).fat p ≠ some r
  apart : ∀ i j r, s.Got i r → s.Got j r → (calls i).current = (calls j).current
  once : ∀ i j r, (calls i).current = 0 → s.Got i r → s.Got j r → i = j

omit [DecidableEq ι] in
theorem Extended.nothingLost (hg : Geometry fsi) (E : Extended fsi H calls s) :
    NothingLost fsi H calls s := by
  obtain ⟨H', G, hH⟩ := E.heads
  have head {i r} (h0 : (calls i).current = 0) (h : s.Got i r) (p) :
      fatNext fsi (view fsi s.vol.disk).fat p ≠ some r :=
    G.owned.head_not_linked hg ((hH r).mpr (.inr ⟨i, h0, h⟩))
  have apart (i j r) (h : s.Got i r) (h' : s.Got j r) : (calls i).current = (calls j).current := by
    by_cases hi : (calls i).current = 0 <;> by_cases hj : (calls j).current = 0
    · rw [hi, hj]
    · exact absurd (E.linked j r hj h') (head hi h _)
    · exact absurd (E.linked i r hi h) (head hj h' _)
    · exact G.owned.link_unique hg (E.linked i r hi h) (E.linked j r hj h')
  refine ⟨⟨H', G, hH⟩, fun i r h0 h => ⟨_, E.linked i r h0 h, fun q hq => ?_⟩,
    fun i r h0 h => ⟨E.fresh i r h0 h, head h0 h⟩, apart, fun i j r h0 h h' => ?_⟩
  · exact G.owned.link_unique hg hq (E.linked i r h0 h)
  · exact E.apart i j r h0 (apart i j r h h' ▸ h0) h h'

/-- Concurrent extension loses nothing, in every run in which no call on a cluster
begins while another call on it is between its critical sections. -/
theorem extendRun_keeps (hk : Reliable fsi.kernel) (hg : Geometry fsi) (G : Good fsi H v)
    (hcur : ∀ i, (calls i).current = 0 ∨ OnChain fsi H v (calls i).current)
    (run : ExtendRun fsi calls ⟨v, fun _ => .start⟩ s) : NothingLost fsi H calls s := by
  have got {i : ι} {r : Nat} : ¬ (⟨v, fun _ => .start⟩ : Extending ι).Got i r :=
    fun h => by cases (h : Phase.start = .returned (.ok r))
  have E : Extended fsi H calls ⟨v, fun _ => .start⟩ := by
    refine ⟨⟨H, G, fun h => ⟨.inl, ?_⟩⟩, fun i h0 => ?_, fun i h => ?_, fun i j h => ?_,
      fun i r _ h => absurd h got, fun i r _ h => absurd h got, fun i j r _ _ h => absurd h got⟩
    · rintro (hh | ⟨i, -, h⟩)
      · exact hh
      · exact absurd h got
    · obtain ⟨h, -, l, hl, hc⟩ := (hcur i).resolve_left h0
      exact ⟨hl.inRange _ hc, hl.ne_zero _ hc⟩
    · cases h
    · cases h
  exact (E.run hk hg run).nothingLost hg

/-- A volume of three clusters, of which the first is a chain. -/
def threeClusters : Fsi := { twoClusters with clusterCount := 3 }

def threeClustersVol : Vol where
  disk a := if a = 488 then 2 else twoClustersVol.disk a
  freeCount := 2
  nextFree := 3

theorem threeClusters_good : Geometry threeClusters ∧ Good threeClusters {2} threeClustersVol ∧
    OnChain threeClusters {2} threeClustersVol 2 := by
  have hf : fatFin threeClusters (view threeClusters threeClustersVol.disk).fat 2 := by
    constructor <;> decide
  refine ⟨by constructor <;> decide, ⟨⟨fun h hh => ⟨[2], ?_⟩, fun c hc hz =>
    ⟨2, ⟨by decide, [2], .last hf, ?_⟩, ?_⟩⟩, by decide +kernel, by decide +kernel,
    by decide +kernel⟩, 2, by decide, [2], .last hf, by decide⟩
  · rw [Finset.mem_singleton.mp hh]
    exact .last hf
  · obtain rfl | rfl | rfl : c = 2 ∨ c = 3 ∨ c = 4 := by
      have := hc.1; have : c ≤ 4 := hc.2; omega
    · decide
    · exact absurd (by decide) hz
    · exact absurd (by decide) hz
  · exact fun h hh => Finset.mem_singleton.mp hh.1

/-- Two calls on the last cluster of a file, and one for a new file. -/
def extendCalls : Fin 3 → ExtendCall := ![⟨2, false⟩, ⟨2, false⟩, ⟨0, true⟩]

def extendStart : Extending (Fin 3) := ⟨threeClustersVol, fun _ => .start⟩

/-- Call `i` on the volume of three clusters. -/
def extendOne (i : Fin 3) (s : Extending (Fin 3)) : Extending (Fin 3) :=
  s.step threeClusters extendCalls i

/-- The first call returns before the second one begins. -/
def extendApart : Extending (Fin 3) :=
  extendOne 1 (extendOne 2 (extendOne 0 (extendOne 2 (extendOne 0 extendStart))))

theorem extendRun_keeps_apart : NothingLost threeClusters {2} extendCalls extendApart := by
  obtain ⟨hg, G, hc⟩ := threeClusters_good
  have hcur : ∀ i, (extendCalls i).current = 0 ∨
      OnChain threeClusters {2} threeClustersVol (extendCalls i).current := by
    intro i
    match i with
    | 0 => exact .inr hc
    | 1 => exact .inr hc
    | 2 => exact .inl rfl
  have run : ExtendRun threeClusters extendCalls extendStart extendApart := by
    refine (((((ExtendRun.refl extendStart).snoc 0 ?_).snoc 2 ?_).snoc 0 ?_).snoc 2 ?_).snoc 1 ?_ <;>
    · unfold ExtendAllowed
      decide +kernel
  exact extendRun_keeps ⟨fun _ => rfl⟩ hg G hcur run

/-- Both calls on the last cluster have found the end before one appends. -/
def extendOverlap : Extending (Fin 3) :=
  extendOne 1 (extendOne 0 (extendOne 1 (extendOne 0 extendStart)))

/-- The cluster that the first call got is linked from nowhere. -/
theorem extendOverlap_lost : ¬ NothingLost threeClusters {2} extendCalls extendOverlap := by
  intro h
  have hgot : extendOverlap.Got 0 3 := by
    unfold Extending.Got
    decide +kernel
  obtain ⟨p, hp, -⟩ := h.linked 0 3 (by decide) hgot
  obtain ⟨hr, -, hfat⟩ := fatNext_some.mp hp
  have hentries : ∀ q ∈ [2, 3, 4], (view threeClusters extendOverlap.vol.disk).fat q ≠ 3 := by
    decide +kernel
  refine hentries p ?_ hfat
  have h2 := hr.1
  have h4 : p ≤ 4 := hr.2
  obtain rfl | rfl | rfl : p = 2 ∨ p = 3 ∨ p = 4 := by omega
  all_goals decide

end Fat32
