import Mathlib
import Fat32.Proof.Ownership
import Fat32.Proof.DataArea

/-!
# The counter of free clusters

`fat32_free_clusters` counts the rounds of its loop and adds them up once the loop
is over. On any FAT the loop clears some entries `l` and ends in one of three ways
(`freeLoop_cases`): behind a chain, the count being that of the cleared entries; at
an entry that is free already, which is counted too; or with an error, and then
nothing is added. So the counter is right on a chain only (`accounted_iff`).
-/

namespace Fat32

open Bytes Exec Prog Linked

variable {fsi : Fsi} {fat : Nat → Nat} {c : Nat} {l : List Nat} {v : Vol} {freeStart : Bool}

/-- The number of entries that were in use in `fat` and are free in `fat'`. -/
def cleared (fsi : Fsi) (fat fat' : Nat → Nat) : Nat :=
  ((Finset.Icc 2 (fsi.clusterCount + 1)).filter fun c => fat c ≠ 0 ∧ fat' c = 0).card

/-- `fat32_free_clusters` counts what it frees, and leaves the start of the chain that
it is to cut. -/
structure Accounted (fsi : Fsi) (c : Nat) (freeStart : Bool) (v : Vol) : Prop where
  count : (freeClusters fsi c freeStart v).2.freeCount = v.freeCount +
    cleared fsi (view fsi v.disk).fat (view fsi (freeClusters fsi c freeStart v).2.disk).fat
  start : freeStart = false → InRange fsi c →
    (view fsi (freeClusters fsi c freeStart v).2.disk).fat c ≠ 0

/-- The first cluster to free. -/
def firstFreed (fat : Nat → Nat) (c : Nat) (freeStart : Bool) : Nat :=
  if freeStart then c else fat c

/-- There is nothing to free, or a chain of used clusters, which the counter can take. -/
def FreesChain (fsi : Fsi) (fat : Nat → Nat) (freeCount c : Nat) (freeStart : Bool) : Prop :=
  ¬ InRange fsi (firstFreed fat c freeStart) ∨
    ∃ l, FreeChain fsi fat (firstFreed fat c freeStart) l ∧ freeCount + l.length < 2 ^ 32

/-! ## The loop on any FAT -/

/-- How the loop ends: behind the chain `l`, at a free entry, or with an error. -/
inductive LoopEnd (fsi : Fsi) (fat : Nat → Nat) (c freed : Nat) (l : List Nat) : Out Errno Nat → Prop
  | none (h : ¬ Loops c) : LoopEnd fsi fat c freed l (.ok (u32 (freed + l.length)))
  | chain (h : FreeChain fsi fat c l) : LoopEnd fsi fat c freed l (.ok (u32 (freed + l.length)))
  | again (h : InRange fsi c) (hno : ∀ m, ¬ FreeChain fsi fat c m) :
      LoopEnd fsi fat c freed l (.ok (u32 (freed + l.length + 1)))
  | error (e : Errno) (hloop : Loops c) (h : InRange fsi c → fat c ≠ 0)
      (hno : ∀ m, ¬ FreeChain fsi fat c m) : LoopEnd fsi fat c freed l (.err e)

/-- What the loop did: it cleared the used entries `l`. -/
structure Looped (fsi : Fsi) (c freed : Nat) (l : List Nat) (v : Vol) (r : Out Errno Nat)
    (v' : Vol) : Prop where
  nodup : l.Nodup
  used : ∀ b ∈ l, InRange fsi b ∧ (view fsi v.disk).fat b ≠ 0
  first : InRange fsi c → (view fsi v.disk).fat c ≠ 0 → c ∈ l
  outside : ¬ InRange fsi c → l = []
  fat : (view fsi v'.disk).fat = zeroFat l (view fsi v.disk).fat
  count : v'.freeCount = v.freeCount
  ends : LoopEnd fsi (view fsi v.disk).fat c freed l r

theorem Looped.nil {freed : Nat} {r : Out Errno Nat} (h : InRange fsi c → (view fsi v.disk).fat c = 0)
    {v' : Vol} (hfat : (view fsi v'.disk).fat = (view fsi v.disk).fat)
    (hcount : v'.freeCount = v.freeCount) (hend : LoopEnd fsi (view fsi v.disk).fat c freed [] r) :
    Looped fsi c freed [] v r v' :=
  ⟨List.nodup_nil, nofun, fun hr h0 => absurd (h hr) h0, fun _ => rfl, by rw [zeroFat_nil, hfat],
    hcount, hend⟩

theorem u32_succ_add (n k : Nat) : u32 (u32 (n + 1) + k) = u32 (n + (k + 1)) := by
  simp only [u32]
  omega

/-- A round that clears an entry. -/
theorem Looped.cons (hg : Geometry fsi) {freed : Nat} {r : Out Errno Nat} {v1 v' : Vol} (hr : InRange fsi c)
    (hz : (view fsi v.disk).fat c ≠ 0)
    (hfat : (view fsi v1.disk).fat = Function.update (view fsi v.disk).fat c 0)
    (hcount : v1.freeCount = v.freeCount)
    (h : Looped fsi ((view fsi v.disk).fat c) (u32 (freed + 1)) l v1 r v') :
    Looped fsi c freed (c :: l) v r v' := by
  have hne : ∀ b ∈ l, b ≠ c := by
    rintro b hb rfl
    have h0 := (h.used b hb).2
    rw [hfat, Function.update_self] at h0
    exact h0 rfl
  have hsame : ∀ b ∈ l, (view fsi v1.disk).fat b = (view fsi v.disk).fat b := fun b hb => by
    rw [hfat, Function.update_of_ne (hne b hb)]
  -- a chain from here would be one from the next cluster
  have hrest (hloop : Loops ((view fsi v.disk).fat c))
      (hno : ∀ m, ¬ FreeChain fsi (view fsi v1.disk).fat ((view fsi v.disk).fat c) m) (m : List Nat) :
      ¬ FreeChain fsi (view fsi v.disk).fat c m := by
    intro hm
    have hnd := hm.nodup (freeEnds _)
    cases hm with
    | last hf => exact hf.2.2 hloop
    | link hn ht =>
      rw [← (freeNext_some.mp hn).2.2] at ht
      refine hno _ (FreeChain.congr ht fun b hb => ?_)
      rw [hfat, Function.update_of_ne (ne_of_mem_of_not_mem hb (List.nodup_cons.mp hnd).1)]
  refine ⟨List.nodup_cons.mpr ⟨fun hc => hne c hc rfl, h.nodup⟩, fun b hb => ?_,
    fun _ _ => List.mem_cons_self, fun h' => absurd hr h', ?_, h.count.trans hcount, ?_⟩
  · rcases List.mem_cons.mp hb with rfl | hb
    · exact ⟨hr, hz⟩
    · exact ⟨(h.used b hb).1, hsame b hb ▸ (h.used b hb).2⟩
  · rw [h.fat, hfat, zeroFat_cons]
  · cases h.ends with
    | none hloop =>
      have hnil : l = [] := h.outside fun h' => hloop (h'.loops hg)
      subst hnil
      rw [u32_succ_add]
      exact .chain (.last ⟨hr, hz, hloop⟩)
    | chain hch =>
      rw [u32_succ_add]
      have hhead := (hch.used _ hch.head_mem).1
      have hnext : freeNext fsi (view fsi v.disk).fat c = some ((view fsi v.disk).fat c) :=
        freeNext_some.mpr ⟨hr, hhead.loops hg, rfl⟩
      exact .chain (.link hnext (hch.congr fun b hb => (hsame b hb).symm))
    | again ha hno =>
      rw [Nat.add_assoc, u32_succ_add]
      exact .again hr (hrest (ha.loops hg) hno)
    | error e hloop _ hno => exact .error e (hr.loops hg) (fun _ => hz) (hrest hloop hno)

/-- The loop on any FAT: an entry is cleared in each round but the last. -/
theorem freeLoop_cases (hk : Reliable fsi.kernel) (hg : Geometry fsi) (fuel : Nat) :
    ∀ (c freed : Nat) (v : Vol),
      fsi.clusterCount + 2 ≤ fuel + freeEntries fsi (view fsi v.disk).fat → freed < 2 ^ 32 →
      ∃ l, WP (freeLoop fsi fuel c freed) v (Looped fsi c freed l v) := by
  induction fuel with
  | zero =>
    intro c freed v h
    have := freeEntries_le fsi (view fsi v.disk).fat
    omega
  | succ fuel ih =>
    intro c freed v h hfreed
    by_cases hloop : Loops c
    · by_cases hr : InRange fsi c
      · obtain ⟨v1, e1, f1, c1, n1⟩ := rmwCluster_write hk hg hr clusterFree v
        have hfat : (view fsi v1.disk).fat = Function.update (view fsi v.disk).fat c 0 :=
          (FatOnly.of_set hg hr f1 c1 n1).fat
        have hlt : u32 (freed + 1) < 2 ^ 32 := Nat.mod_lt _ (by decide)
        by_cases hz : (view fsi v.disk).fat c = 0
        · -- a free entry ends the loop, and is counted
          have hsame : (view fsi v1.disk).fat = (view fsi v.disk).fat := by
            rw [hfat, ← hz]
            exact Function.update_eq_self c _
          obtain ⟨fuel, rfl⟩ : ∃ n, fuel = n + 1 := by
            have := freeEntries_le fsi (view fsi v.disk).fat
            have := hr.1
            have := hr.2
            exact ⟨fuel - 1, by omega⟩
          have e : freeLoop fsi (fuel + 1 + 1) c freed v = (.ok (u32 (freed + 1)), v1) := by
            rw [freeLoop, if_pos hloop, bind_ok e1, hz, freeLoop_stop (by decide)]
          exact ⟨[], .of_run e (.nil (fun _ => hz) hsame c1
            (.again hr fun m hm => (hm.used c hm.head_mem).2 hz))⟩
        · have hone : ∀ b ∈ [c], InRange fsi b ∧ (view fsi v.disk).fat b ≠ 0 := fun b hb => by
            rw [List.mem_singleton.mp hb]
            exact ⟨hr, hz⟩
          have hmeasure := freeEntries_zero (List.nodup_singleton c) hone
          rw [← zeroFat_cons, zeroFat_nil, List.length_singleton, ← hfat] at hmeasure
          obtain ⟨l, hl⟩ := ih ((view fsi v.disk).fat c) (u32 (freed + 1)) v1 (by omega) hlt
          have e : freeLoop fsi (fuel + 1) c freed v =
              freeLoop fsi fuel ((view fsi v.disk).fat c) (u32 (freed + 1)) v1 := by
            rw [freeLoop, if_pos hloop, bind_ok e1]
          refine ⟨c :: l, .of_run e ?_⟩
          unfold WP at hl
          exact hl.cons hg hr hz hfat c1
      · have e : freeLoop fsi (fuel + 1) c freed v = (.err .einval, v) := by
          rw [freeLoop, if_pos hloop, bind_err (rmwCluster_outside hg hr _ v)]
        exact ⟨[], .of_run e (.nil (fun h => absurd h hr) rfl rfl (.error _ hloop
          (fun h => absurd h hr) fun m hm => hr (hm.used c hm.head_mem).1))⟩
    · have hout : ¬ InRange fsi c := fun hr => hloop (hr.loops hg)
      have hu : u32 freed = freed := Nat.mod_eq_of_lt hfreed
      have hend : LoopEnd fsi (view fsi v.disk).fat c freed [] (.ok (u32 (freed + 0))) := .none hloop
      rw [Nat.add_zero, hu] at hend
      exact ⟨[], .of_run (freeLoop_stop hloop freed v)
        (.nil (fun hr => absurd hr hout) rfl rfl hend)⟩

/-! ## The counter -/

/-- The FAT that the loop starts on. -/
def startFat (fat : Nat → Nat) (c : Nat) (freeStart : Bool) : Nat → Nat :=
  if freeStart then fat else Function.update fat c clusterEoc

/-- `fat32_free_clusters` is the loop, and the update of the counter. -/
theorem freeClusters_loop (hk : Reliable fsi.kernel) (hg : Geometry fsi)
    (hfuel : 0 < fsi.kernel.fuel) (hc : InRange fsi c) (freeStart : Bool) (v : Vol) :
    ∃ v1, (view fsi v1.disk).fat = startFat (view fsi v.disk).fat c freeStart ∧
      v1.freeCount = v.freeCount ∧ freeClusters fsi c freeStart v =
        (freeLoop fsi fsi.kernel.fuel (firstFreed (view fsi v.disk).fat c freeStart) 0 >>=
          freeUpdate fsi) v1 := by
  cases freeStart with
  | true => exact ⟨v, rfl, rfl, by rw [freeClusters, if_neg (hc.not_outside hg), if_neg (by decide)]; rfl⟩
  | false =>
    obtain ⟨v1, e1, f1, c1, n1⟩ := rmwCluster_write hk hg hc clusterEoc v
    refine ⟨v1, (FatOnly.of_set hg hc f1 c1 n1).fat, c1, ?_⟩
    rw [freeClusters, if_neg (hc.not_outside hg), if_pos (by decide), bind_ok e1]
    by_cases hend : (view fsi v.disk).fat c ≥ clusterEocMin
    · obtain ⟨n, hn⟩ := Nat.exists_eq_add_of_lt hfuel
      have hstop : freeLoop fsi fsi.kernel.fuel ((view fsi v.disk).fat c) 0 v1 = (.ok 0, v1) := by
        rw [hn]
        exact freeLoop_stop (fun h => absurd h.2 (not_lt.mpr hend)) 0 v1
      rw [if_pos hend, show firstFreed (view fsi v.disk).fat c false = (view fsi v.disk).fat c from rfl,
        bind_ok hstop]
      rfl
    · rw [if_neg hend]
      rfl

/-- What became of the FAT and the counter, `l` being the entries cleared. -/
inductive FreeEnd (fsi : Fsi) (fat : Nat → Nat) (count first : Nat) (l : List Nat) : Nat → Prop
  | none (h : ¬ InRange fsi first) (hl : l = []) : FreeEnd fsi fat count first l count
  | chain (h : FreeChain fsi fat first l) : FreeEnd fsi fat count first l (u32 (count + l.length))
  | again (h : InRange fsi first) (hno : ∀ m, ¬ FreeChain fsi fat first m) :
      FreeEnd fsi fat count first l (u32 (count + l.length + 1))
  | error (h : InRange fsi first) (hl : l ≠ []) (hno : ∀ m, ¬ FreeChain fsi fat first m) :
      FreeEnd fsi fat count first l count

theorem freeClusters_cases (hk : Reliable fsi.kernel) (hg : Geometry fsi)
    (hfuel : fsi.clusterCount + 2 ≤ fsi.kernel.fuel) (hcount : v.freeCount < 0xFFFFFFFF)
    (hc : InRange fsi c) (freeStart : Bool) : ∃ l, l.Nodup ∧
      (∀ b ∈ l, InRange fsi b ∧ startFat (view fsi v.disk).fat c freeStart b ≠ 0) ∧
      (view fsi (freeClusters fsi c freeStart v).2.disk).fat =
        zeroFat l (startFat (view fsi v.disk).fat c freeStart) ∧
      FreeEnd fsi (startFat (view fsi v.disk).fat c freeStart) v.freeCount
        (firstFreed (view fsi v.disk).fat c freeStart) l
        (freeClusters fsi c freeStart v).2.freeCount := by
  obtain ⟨v1, hfat, hcount1, e⟩ := freeClusters_loop hk hg (by omega) hc freeStart v
  rw [e, ← hfat]
  generalize firstFreed (view fsi v.disk).fat c freeStart = first
  obtain ⟨l, hl⟩ := freeLoop_cases hk hg fsi.kernel.fuel first 0 v1 (by omega) (by decide)
  refine ⟨l, ?_⟩
  rcases hrun : freeLoop fsi fsi.kernel.fuel first 0 v1 with ⟨r, v2⟩
  unfold WP at hl
  rw [hrun] at hl
  refine ⟨hl.nodup, hl.used, ?_⟩
  have hv2 : v2.freeCount = v.freeCount := hl.count.trans hcount1
  -- the counter after the loop has counted `n`
  have hupdate (n : Nat) (hr : r = .ok n) :
      (view fsi ((freeLoop fsi fsi.kernel.fuel first 0 >>= freeUpdate fsi) v1).2.disk).fat =
        (view fsi v2.disk).fat ∧
      ((freeLoop fsi fsi.kernel.fuel first 0 >>= freeUpdate fsi) v1).2.freeCount =
        u32 (v.freeCount + n) := by
    rw [hr] at hrun
    obtain ⟨v3, e3, F⟩ := freeUpdate_ok hk hg n v2
    rw [bind_ok hrun, e3]
    exact ⟨F.fat, by rw [F.freeCount (by omega), hv2]⟩
  have hu (n : Nat) : u32 (v.freeCount + u32 n) = u32 (v.freeCount + n) := by
    simp only [u32]
    omega
  rcases r with n | e | _
  · obtain ⟨hf, hn⟩ := hupdate n rfl
    rw [hf, hn]
    refine ⟨hl.fat, ?_⟩
    cases hl.ends with
    | none h =>
      have hout : ¬ InRange fsi first := fun hr => h (hr.loops hg)
      have hnil := hl.outside hout
      subst hnil
      have h0 : u32 (v.freeCount + u32 (0 + 0)) = v.freeCount := Nat.mod_eq_of_lt (by
        show v.freeCount + 0 < _
        omega)
      rw [List.length_nil, h0]
      exact .none hout rfl
    | chain h =>
      rw [hu, Nat.zero_add]
      exact .chain h
    | again h hno =>
      rw [hu, Nat.zero_add]
      exact .again h hno
  · rw [bind_err hrun]
    refine ⟨hl.fat, ?_⟩
    show FreeEnd fsi _ _ _ l v2.freeCount
    rw [hv2]
    cases hl.ends with
    | error e _ h hno =>
      by_cases hr : InRange fsi first
      · exact .error hr (List.ne_nil_of_mem (hl.first hr (h hr))) hno
      · exact .none hr (hl.outside hr)
  · have hends := hl.ends
    cases hends

theorem cleared_eq {fat' : Nat → Nat} (hnd : l.Nodup) (hl : ∀ b ∈ l, InRange fsi b)
    (h : ∀ b, InRange fsi b → (fat b ≠ 0 ∧ fat' b = 0 ↔ b ∈ l)) :
    cleared fsi fat fat' = l.length := by
  have hset : ((Finset.Icc 2 (fsi.clusterCount + 1)).filter fun c => fat c ≠ 0 ∧ fat' c = 0) =
      l.toFinset := by
    refine Finset.ext fun b => ?_
    rw [Finset.mem_filter, Finset.mem_Icc, List.mem_toFinset]
    exact ⟨fun hb => (h b hb.1).mp hb.2, fun hb => ⟨hl b hb, (h b (hl b hb)).mpr hb⟩⟩
  rw [cleared, hset, List.toFinset_card_of_nodup hnd]

/-- A chain that the loop would follow before the start was cut off does not come back to it. -/
theorem FreeChain.not_start (hg : Geometry fsi) (hc : InRange fsi c) {m : List Nat}
    (h : FreeChain fsi fat (fat c) m) : c ∉ m := by
  intro hm
  have hfirst := (h.used _ h.head_mem).1
  exact h.head_not_linked (freeEnds fat) hm (freeNext_some.mpr ⟨hc, hfirst.loops hg, rfl⟩)

theorem freeChain_startFat (hg : Geometry fsi) (hc : InRange fsi c) {m : List Nat}
    (h : FreeChain fsi fat (firstFreed fat c freeStart) m) :
    FreeChain fsi (startFat fat c freeStart) (firstFreed fat c freeStart) m := by
  cases freeStart with
  | true => exact h
  | false =>
    have hnot : c ∉ m := FreeChain.not_start hg hc h
    exact h.congr fun b hb => Function.update_of_ne (ne_of_mem_of_not_mem hb hnot) _ _

/-- The entries cleared were in use before the start was cut off, too. -/
theorem cleared_zeroFat (hnd : l.Nodup)
    (hused : ∀ b ∈ l, InRange fsi b ∧ startFat fat c freeStart b ≠ 0)
    (hfirst : l ≠ [] → InRange fsi (firstFreed fat c freeStart)) :
    cleared fsi fat (zeroFat l (startFat fat c freeStart)) = l.length := by
  refine cleared_eq hnd (fun b hb => (hused b hb).1) fun b _ => ⟨fun ⟨h0, hz⟩ => ?_, fun hb => ?_⟩
  · by_contra hb
    rw [zeroFat, if_neg hb] at hz
    cases freeStart with
    | true => exact h0 hz
    | false =>
      by_cases hbc : b = c
      · rw [hbc, startFat, if_neg (by decide), Function.update_self] at hz
        exact absurd hz (by decide)
      · rw [startFat, if_neg (by decide), Function.update_of_ne hbc] at hz
        exact h0 hz
  · refine ⟨?_, if_pos hb⟩
    cases freeStart with
    | true => exact (hused b hb).2
    | false =>
      by_cases hbc : b = c
      · -- the start itself: it links to a cluster
        have hlink : InRange fsi (fat c) := hfirst (List.ne_nil_of_mem hb)
        have := hlink.1
        rw [hbc]
        omega
      · have h0 := (hused b hb).2
        rwa [startFat, if_neg (by decide), Function.update_of_ne hbc] at h0

/-- The counter is right, and the start of a chain that is cut stays, if, and only if,
there is nothing to free or a chain of used clusters. -/
theorem accounted_iff (hk : Reliable fsi.kernel) (hg : Geometry fsi)
    (hfuel : fsi.clusterCount + 2 ≤ fsi.kernel.fuel) (hcount : v.freeCount < 0xFFFFFFFF) :
    Accounted fsi c freeStart v ↔
      FreesChain fsi (view fsi v.disk).fat v.freeCount c freeStart := by
  by_cases hc : InRange fsi c
  · obtain ⟨l, hnd, hused, hfat, hend⟩ := freeClusters_cases hk hg hfuel hcount hc freeStart
    have hacc (hfirst : l ≠ [] → InRange fsi (firstFreed (view fsi v.disk).fat c freeStart)) :
        Accounted fsi c freeStart v ↔
          (freeClusters fsi c freeStart v).2.freeCount = v.freeCount + l.length ∧
            (freeStart = false → c ∉ l) := by
      have hcl := cleared_zeroFat hnd hused hfirst
      rw [← hfat] at hcl
      refine ⟨fun h => ⟨hcl ▸ h.count, fun hs hmem => h.start hs hc ?_⟩, fun h => ⟨?_, fun hs _ => ?_⟩⟩
      · rw [hfat, zeroFat, if_pos hmem]
      · rw [hcl, h.1]
      · rw [hfat, zeroFat, if_neg (h.2 hs), hs, startFat, if_neg (by decide), Function.update_self]
        decide
    revert hend
    generalize (freeClusters fsi c freeStart v).2.freeCount = n at hacc
    intro hend
    have hno_chain (hr : InRange fsi (firstFreed (view fsi v.disk).fat c freeStart))
        (hno : ∀ m, ¬ FreeChain fsi (startFat (view fsi v.disk).fat c freeStart)
          (firstFreed (view fsi v.disk).fat c freeStart) m) :
        ¬ FreesChain fsi (view fsi v.disk).fat v.freeCount c freeStart := by
      rintro (h | ⟨m, hm, -⟩)
      · exact h hr
      · exact hno m (freeChain_startFat hg hc hm)
    cases hend with
    | none h hl =>
      refine ⟨fun _ => .inl h, fun _ => (hacc fun hne => absurd hl hne).mpr ⟨?_, fun _ hmem => ?_⟩⟩
      · rw [hl]
        rfl
      · rw [hl] at hmem
        cases hmem
    | chain h =>
      have hr := (h.used _ h.head_mem).1
      rw [hacc fun _ => hr]
      constructor
      · rintro ⟨hsum, hnot⟩
        refine .inr ⟨l, ?_, hsum ▸ Nat.mod_lt _ (by decide)⟩
        cases freeStart with
        | true => exact h
        | false =>
          exact h.congr fun b hb =>
            (Function.update_of_ne (ne_of_mem_of_not_mem hb (hnot rfl)) _ _).symm
      · rintro (hout | ⟨m, hm, hlt⟩)
        · exact absurd hr hout
        · obtain rfl := h.unique (freeEnds _) (freeChain_startFat hg hc hm)
          refine ⟨Nat.mod_eq_of_lt hlt, fun hs => ?_⟩
          subst hs
          exact FreeChain.not_start hg hc hm
    | again h hno =>
      refine iff_of_false (fun ha => ?_) (hno_chain h hno)
      -- one more was counted than cleared
      have hsum := ((hacc fun _ => h).mp ha).1
      simp only [u32] at hsum
      omega
    | error h hl hno =>
      refine iff_of_false (fun ha => ?_) (hno_chain h hno)
      have hsum := ((hacc fun _ => h).mp ha).1
      exact hl (List.eq_nil_of_length_eq_zero (by omega))
  · -- the start is refused
    have hfirst : ¬ InRange fsi (firstFreed (view fsi v.disk).fat c freeStart) := by
      cases freeStart with
      | true => exact hc
      | false =>
        rw [firstFreed, if_neg (by decide), fat_outside hc]
        exact fun h => absurd h.1 (by decide)
    have hrun : freeClusters fsi c freeStart v = (.err .einval, v) := by
      rw [freeClusters, if_pos (not_not.mp fun h => hc ((inRange_iff hg c).mpr h))]
      rfl
    refine ⟨fun _ => .inl hfirst, fun _ => ⟨?_, fun _ h => absurd h hc⟩⟩
    have hnil (b : Nat) : b ∉ ([] : List Nat) := List.not_mem_nil
    rw [hrun, cleared_eq List.nodup_nil (fun b hb => absurd hb (hnil b)) fun b _ => ⟨fun h => absurd h.2 h.1, fun hb =>
      absurd hb (hnil b)⟩]
    rfl

/-- Two clusters are freed and counted. -/
theorem accounted_two : Accounted (small 2) 2 true (image [3, clusterEoc] fun _ => []) := by
  have h23 : freeNext (small 2) (view (small 2) (image [3, clusterEoc] fun _ => []).disk).fat 2 =
      some 3 := by decide +kernel
  have h3 : freeFin (small 2) (view (small 2) (image [3, clusterEoc] fun _ => []).disk).fat 3 := by
    unfold freeFin
    decide +kernel
  refine (accounted_iff ⟨fun _ => rfl⟩ small_geometry (by decide) (by decide +kernel)).mpr
    (.inr ⟨[2, 3], .link h23 (.last h3), ?_⟩)
  decide +kernel

/-- Cluster 3 ends in the mark of a bad cluster, or links back to cluster 2. -/
theorem badEnd_not_accounted :
    (freeClusters (small 2) 2 true (image [3, clusterBad] fun _ => [])).1 = .err .einval ∧
    ¬ Accounted (small 2) 2 true (image [3, clusterBad] fun _ => []) ∧
    ¬ Accounted (small 2) 2 true (image [3, 2] fun _ => []) ∧
    ¬ Accounted (small 2) 2 false (image [3, 2] fun _ => []) := by
  refine ⟨by decide +kernel, fun h => ?_, fun h => ?_, fun h => ?_⟩
  · exact absurd h.count (by decide +kernel)
  · exact absurd h.count (by decide +kernel)
  · exact h.start rfl (by decide) (by decide +kernel)

end Fat32
