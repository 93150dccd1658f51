import Mathlib
import Fat32.Proof.FailedRead
import Fat32.Proof.Cache

/-!
# The FAT, whatever the device answers

How reading an entry, storing one and following links end is decided by the reads that
they make (`Answers`). A store that fails has changed nothing, or the copy that the driver
reads (`rmwCluster_stores`). Allocation never frees an entry that is in use
(`KeepsUsed`), also where it fails and gives its cluster back.
-/

namespace Fat32

open Bytes Exec Prog Linked

variable {fsi : Fsi} {c d m n p r start : Nat} {fl : NcFlags} {v v' v'' : Vol}

/-- The `n` reads from read `m` on do not fail. -/
def Answers (fsi : Fsi) (m n : Nat) : Prop := ∀ k < n, fsi.kernel.readErr (m + k) = none

theorem Answers.zero : Answers fsi m 0 := nofun

theorem answers_one : Answers fsi m 1 ↔ fsi.kernel.readErr m = none :=
  ⟨fun h => h 0 Nat.one_pos, fun h k hk => by rwa [Nat.lt_one_iff.mp hk]⟩

theorem answers_add {a b : Nat} : Answers fsi m (a + b) ↔ Answers fsi m a ∧ Answers fsi (m + a) b := by
  constructor
  · intro h
    refine ⟨fun k hk => h k (by omega), fun k hk => ?_⟩
    rw [Nat.add_assoc]
    exact h (a + k) (by omega)
  · rintro ⟨ha, hb⟩ k hk
    by_cases hka : k < a
    · exact ha k hka
    · have := hb (k - a) (by omega)
      rwa [show m + a + (k - a) = m + k by omega] at this

theorem bread_count (fsi : Fsi) (s n : Nat) (v : Vol) : (bread fsi s n v).2.reads = v.reads + 1 := by
  unfold bread
  dsimp only
  split <;> rfl

/-! ## One entry -/

/-- Reading an entry. -/
theorem rmwCluster_answer (hg : Geometry fsi) (hc : InRange fsi c) (v : Vol) :
    ∃ v', Same v v' ∧ v'.reads = v.reads + 1 ∧
      ((∃ e, fsi.kernel.readErr v.reads = some e ∧ rmwCluster fsi c none v = (.err e, v')) ∨
        Answers fsi v.reads 1 ∧ rmwCluster fsi c none v = (.ok ((view fsi v.disk).fat c), v')) := by
  have hcount := bread_count fsi (fsi.fatStart + c * 4 / 512) 1 v
  obtain ⟨v', s, ⟨e, he, h⟩ | ⟨he, h⟩⟩ := bread_cases fsi (fsi.fatStart + c * 4 / 512) 1 v
  · rw [h] at hcount
    exact ⟨v', s, hcount, .inl ⟨e, he, by rw [rmwCluster_eq hg hc, bind_err h]⟩⟩
  · rw [h] at hcount
    refine ⟨v', s, hcount, .inr ⟨answers_one.mpr he, ?_⟩⟩
    rw [rmwCluster_eq hg hc, bind_ok h, ← read_entry v hc]
    rfl

theorem rmwCopies_ends (x o n : Nat) : ∀ s b (v : Vol), WP (rmwCopies fsi x o (n + 1) s b) v fun r v' =>
    (r = .ok () ∧ Answers fsi v.reads n ∧ v'.reads = v.reads + n) ∨
      (∃ e, r = .err e) ∧ ¬ Answers fsi v.reads n := by
  induction n with
  | zero => exact fun _ _ _ => .of_run rfl (.inl ⟨rfl, .zero, rfl⟩)
  | succ n ih =>
    intro s b v
    obtain ⟨v1, e1, -, -, -⟩ := bdwrite_ok b.sector b.nblk (wle32 x b.data o) v
    have h1 : v1.reads = v.reads := by
      cases e1
      rfl
    have hcount := bread_count fsi (u32 (s + fsi.fatSize)) 1 v1
    have hsplit : Answers fsi v.reads (n + 1) ↔
        fsi.kernel.readErr v.reads = none ∧ Answers fsi (v.reads + 1) n := by
      rw [Nat.add_comm, answers_add, answers_one]
    rw [rmwCopies]
    refine .ok_bind e1 ?_
    rw [if_neg (Nat.succ_ne_zero n)]
    obtain ⟨v2, -, ⟨e, he, h⟩ | ⟨he, h⟩⟩ := bread_cases fsi (u32 (s + fsi.fatSize)) 1 v1
    · refine .err_bind h (.inr ⟨⟨e, rfl⟩, fun ha => ?_⟩)
      rw [h1, (hsplit.mp ha).1] at he
      cases he
    · rw [h, h1] at hcount
      rw [h1] at he
      refine .ok_bind h ((ih _ _ v2).mono fun r v3 h3 => ?_)
      rw [show v2.reads = v.reads + 1 from hcount] at h3
      rcases h3 with ⟨hr, ha, hn⟩ | ⟨hr, hno⟩
      · exact .inl ⟨hr, hsplit.mpr ⟨he, ha⟩, by omega⟩
      · exact .inr ⟨hr, fun ha => hno (hsplit.mp ha).2⟩

theorem FatTorn.fat (hg : Geometry fsi) {x : Nat} (h : FatTorn fsi c x v.disk v'.disk)
    (hc : InRange fsi c) :
    (view fsi v'.disk).fat = Function.update (view fsi v.disk).fat c (x % 2 ^ 28) := by
  funext b
  rw [Function.update_apply]
  by_cases hb : InRange fsi b
  · rw [view_fat hb, h.copy hg hc hb.2, ← view_fat hb]
  · have hbc : b ≠ c := fun heq => hb (heq ▸ hc)
    rw [fat_outside hb, fat_outside hb, if_neg hbc]

/-- Storing an entry: the first read fails, or the entry is stored and it is the reads of
the other copies that decide. -/
theorem rmwCluster_stores (hg : Geometry fsi) (hc : InRange fsi c) (x : Nat) (v : Vol) :
    ∃ v', (∃ e, fsi.kernel.readErr v.reads = some e ∧ Same v v' ∧
        rmwCluster fsi c (some x) v = (.err e, v')) ∨
      fsi.kernel.readErr v.reads = none ∧
        (view fsi v'.disk).fat = Function.update (view fsi v.disk).fat c (x % 2 ^ 28) ∧
        ((Answers fsi v.reads fsi.numFats ∧ v'.reads = v.reads + fsi.numFats ∧
            rmwCluster fsi c (some x) v = (.ok ((view fsi v.disk).fat c), v')) ∨
          ¬ Answers fsi v.reads fsi.numFats ∧ ∃ e, rmwCluster fsi c (some x) v = (.err e, v')) := by
  rcases rmwCluster_torn hg hc x v with ⟨e, v', he, s, h⟩ | ⟨he, h⟩
  · exact ⟨v', .inl ⟨e, he, s, h⟩⟩
  obtain ⟨n, hn⟩ : ∃ n, fsi.numFats = n + 1 := ⟨fsi.numFats - 1, by have := hg.numFats; omega⟩
  have hcount := bread_count fsi (fsi.fatStart + c * 4 / 512) 1 v
  obtain ⟨v1, s1, ⟨e, he', -⟩ | ⟨-, h1⟩⟩ := bread_cases fsi (fsi.fatStart + c * 4 / 512) 1 v
  · rw [he] at he'
    cases he'
  rw [h1] at hcount
  have hends := @rmwCopies_ends fsi x (c * 4 % 512) n (fsi.fatStart + c * 4 / 512)
    ⟨fsi.fatStart + c * 4 / 512, 1, fun o => v.disk (512 * (fsi.fatStart + c * 4 / 512) + o)⟩ v1
  have hsplit : Answers fsi v.reads fsi.numFats ↔ Answers fsi v1.reads n := by
    rw [hn, Nat.add_comm, answers_add, answers_one, show v1.reads = v.reads + 1 from hcount]
    exact and_iff_right he
  rw [← hn] at hends
  unfold WP at h hends
  generalize hrun : rmwCopies fsi x (c * 4 % 512) fsi.numFats (fsi.fatStart + c * 4 / 512)
    ⟨fsi.fatStart + c * 4 / 512, 1, fun o => v.disk (512 * (fsi.fatStart + c * 4 / 512) + o)⟩ v1 = run
    at hends
  obtain ⟨r, v2⟩ := run
  rw [rmwCluster_some hg hc, bind_ok h1] at h ⊢
  rcases hends with ⟨rfl, ha, hv2⟩ | ⟨⟨e, rfl⟩, hno⟩
  · rw [bind_ok hrun] at h ⊢
    refine ⟨v2, .inr ⟨he, h.1.fat hg hc, .inl ⟨hsplit.mpr ha, ?_, ?_⟩⟩⟩
    · rw [hn]
      have hv1 : v1.reads = v.reads + 1 := hcount
      dsimp only at hv2
      omega
    · rw [← read_entry v hc]
      rfl
  · rw [bind_err hrun] at h ⊢
    exact ⟨v2, .inr ⟨he, h.1.fat hg hc, .inr ⟨fun ha => hno (hsplit.mp ha), e, rfl⟩⟩⟩

/-! ## What is in use stays in use -/

variable {fat : Nat → Nat}

/-- The entries that are in use in `fat` are in use. -/
def KeepsUsed (fsi : Fsi) (fat : Nat → Nat) (v : Vol) : Prop :=
  ∀ b, fat b ≠ 0 → (view fsi v.disk).fat b ≠ 0

theorem KeepsUsed.refl (fsi : Fsi) (v : Vol) : KeepsUsed fsi (view fsi v.disk).fat v := fun _ h => h

theorem KeepsUsed.of_eq (h : KeepsUsed fsi fat v)
    (he : (view fsi v'.disk).fat = (view fsi v.disk).fat) : KeepsUsed fsi fat v' := by
  intro b hb
  rw [he]
  exact h b hb

theorem KeepsUsed.same (h : KeepsUsed fsi fat v) (hs : Same v v') : KeepsUsed fsi fat v' :=
  h.of_eq (by rw [hs.disk])

theorem KeepsUsed.update (h : KeepsUsed fsi fat v) {x : Nat} (hx : fat c = 0 ∨ x ≠ 0)
    (he : (view fsi v'.disk).fat = Function.update (view fsi v.disk).fat c x) : KeepsUsed fsi fat v' := by
  intro b hb
  rw [he, Function.update_apply]
  split
  · subst b
    exact hx.resolve_left hb
  · exact h b hb

theorem rmwCluster_read_used (hg : Geometry fsi) (hc : InRange fsi c) {P : Vol → Prop} :
    Maintains (KeepsUsed fsi fat) P (rmwCluster fsi c none) fun a v => a = (view fsi v.disk).fat c := by
  intro v hi _
  obtain ⟨v', hs, -, ⟨e, -, h⟩ | ⟨-, h⟩⟩ := rmwCluster_answer hg hc v
  · rw [h]
    exact ⟨hi.same hs, nofun⟩
  · rw [h]
    refine ⟨hi.same hs, fun a ha => ?_⟩
    dsimp only
    rw [← Out.ok.inj ha, hs.disk]

/-- Storing an entry; `Q` is what else is wanted of the FAT. -/
theorem rmwCluster_store_used (hg : Geometry fsi) (hc : InRange fsi c) {x : Nat}
    (hx : fat c = 0 ∨ x % 2 ^ 28 ≠ 0) {P Q : (Nat → Nat) → Prop}
    (hq : ∀ f, P f → Q (Function.update f c (x % 2 ^ 28))) :
    Maintains (KeepsUsed fsi fat) (fun v => P (view fsi v.disk).fat) (rmwCluster fsi c (some x))
      fun _ v => Q (view fsi v.disk).fat := by
  intro v hi hp
  obtain ⟨v', ⟨e, -, hs, h⟩ | ⟨-, hfat, ⟨-, -, h⟩ | ⟨-, e, h⟩⟩⟩ := rmwCluster_stores hg hc x v
  · rw [h]
    exact ⟨hi.same hs, nofun⟩
  · rw [h]
    refine ⟨hi.update hx hfat, fun _ _ => ?_⟩
    show Q (view fsi v'.disk).fat
    rw [hfat]
    exact hq _ hp
  · rw [h]
    exact ⟨hi.update hx hfat, nofun⟩

theorem searchFree_used (hg : Geometry fsi) (start n : Nat) : ∀ {c : Nat} {P : Vol → Prop}, InRange fsi c →
    Maintains (KeepsUsed fsi fat) P (searchFree fsi start n c) fun r v =>
      InRange fsi r ∧ (view fsi v.disk).fat r = 0 := by
  induction n with
  | zero => exact fun _ => .fail _
  | succ n ih =>
    intro c P hc
    refine .bind (rmwCluster_read_used hg hc) fun value => .ite (fun hz => .pure fun v _ hv => ?_)
      fun _ => .ite (fun _ => .fail _) fun _ => ih ?_
    · exact ⟨hc, by rw [← hv]; exact hz⟩
    · have hcnt := hg.count
      simp only [clusterBad] at hcnt
      have h2 := hc.1
      have hle := hc.2
      rw [maxCluster_eq hg, show u32 (c + 1) = c + 1 from Nat.mod_eq_of_lt (by omega), InRange]
      simp only [clusterMin]
      split <;> omega

/-- An update of the FSInfo sector. -/
theorem updateInfo_used {α : Type} (hg : Geometry fsi) (g : (Nat → UInt8) → Nat → UInt8)
    {P : (Nat → Nat) → Prop} {m : FsM α} {Q : α → Vol → Prop}
    (hm : Maintains (KeepsUsed fsi fat) (fun v => P (view fsi v.disk).fat) m Q) :
    Maintains (KeepsUsed fsi fat) (fun v => P (view fsi v.disk).fat) (do
      let bp ← bread fsi fsi.fsinfoSector 1
      bdwrite { bp with data := g bp.data }
      m) Q := by
  intro v hi hp
  obtain ⟨v1, hs, ⟨e, -, h⟩ | ⟨-, h⟩⟩ := bread_cases fsi fsi.fsinfoSector 1 v
  · rw [bind_err h]
    exact ⟨hi.same hs, nofun⟩
  · obtain ⟨v2, h2, hd, -, -⟩ := bdwrite_ok fsi.fsinfoSector 1
      (g fun o => v.disk (512 * fsi.fsinfoSector + o)) v1
    have hview : view fsi v2.disk = view fsi v.disk := by
      rw [← hs.disk]
      exact view_congr hg fun a ha => by rw [hd, poke_outside ha]
    rw [bind_ok h, bind_ok h2]
    refine hm v2 (hi.of_eq (by rw [hview])) ?_
    dsimp only
    rwa [hview]

theorem clearCluster_used (hg : Geometry fsi) (hc : InRange fsi c) {P : (Nat → Nat) → Prop} :
    Maintains (KeepsUsed fsi fat) (fun v => P (view fsi v.disk).fat) (clearCluster fsi c)
      fun _ v => P (view fsi v.disk).fat := by
  intro v hi hp
  obtain ⟨v', h, hd, -, -⟩ := clearCluster_ok hg hc v
  have hfat : (view fsi v'.disk).fat = (view fsi v.disk).fat := by
    rw [hd.view hg hc]
    rfl
  rw [h]
  refine ⟨hi.of_eq hfat, fun _ _ => ?_⟩
  dsimp only
  rwa [hfat]

/-- The part of an allocation behind the search. -/
theorem allocateFound_used (hg : Geometry fsi) (hp : p = 0 ∨ InRange fsi p ∧ fat p ≠ 0)
    (hr : InRange fsi r) (hfree : fat r = 0) (x y : Nat) :
    Maintains (KeepsUsed fsi fat) (fun _ => True) (do
      let _ ← rmwCluster fsi r (some clusterEoc)
      let linked ← (if p ≠ 0 then attempt (rmwCluster fsi p (some r)) else pure (.ok 0))
      match linked with
      | .error e => do
        let _ ← attempt (rmwCluster fsi r (some clusterFree))
        fail e
      | .ok _ => do
        let bp ← bread fsi fsi.fsinfoSector 1
        bdwrite { bp with data := wle32 y (wle32 x bp.data fsinfoFreeCount) fsinfoNextFree }
        modify fun v => { v with freeCount := x, nextFree := y }
        if fl.clear then clearCluster fsi r else pure ()
        pure r) fun d v => fatFin fsi (view fsi v.disk).fat d := by
  have hcnt := hg.count
  simp only [clusterBad] at hcnt
  have hr2 := hr.1
  have hrle := hr.2
  have hback : Maintains (KeepsUsed fsi fat) (fun _ => True) (attempt (rmwCluster fsi r (some clusterFree)))
      fun _ _ => True := by
    intro v hi _
    have h := Maintains.attempt (rmwCluster_store_used hg hr (.inl hfree) (x := clusterFree)
      (P := fun _ => True) (Q := fun _ => True) fun _ _ => trivial) v hi trivial
    exact ⟨h.1, fun _ _ => trivial⟩
  have hlink : Maintains (KeepsUsed fsi fat) (fun v => (view fsi v.disk).fat r = clusterEoc)
      (if p ≠ 0 then attempt (rmwCluster fsi p (some r)) else pure (.ok 0))
      fun res v => ∀ a : Nat, res = .ok a → (view fsi v.disk).fat r = clusterEoc := by
    refine .ite (fun hp0 => ?_) fun _ => .pure fun v _ hv _ _ => hv
    obtain ⟨hpr, hused⟩ := hp.resolve_left hp0
    have hne : r ≠ p := fun heq => hused (heq ▸ hfree)
    refine .attempt (rmwCluster_store_used hg hpr (.inr ?_) (P := fun f => f r = clusterEoc)
      (Q := fun f => f r = clusterEoc) fun f hf => ?_)
    · rw [Nat.mod_eq_of_lt (by omega)]
      omega
    · rwa [Function.update_of_ne hne]
  have hmark : Maintains (KeepsUsed fsi fat) (fun _ => True) (rmwCluster fsi r (some clusterEoc))
      fun _ v => (view fsi v.disk).fat r = clusterEoc :=
    rmwCluster_store_used hg hr (.inl hfree) (P := fun _ => True) (Q := fun f => f r = clusterEoc)
      fun f _ => Function.update_self ..
  refine .bind hmark fun _ => .bind hlink fun res => ?_
  cases res with
  | error e => exact (Maintains.bind hback fun _ => .fail e).mono (fun _ _ _ => trivial) fun _ _ _ h => h
  | ok a =>
    have hrest : Maintains (KeepsUsed fsi fat) (fun v => (view fsi v.disk).fat r = clusterEoc) (do
        let bp ← bread fsi fsi.fsinfoSector 1
        bdwrite { bp with data := wle32 y (wle32 x bp.data fsinfoFreeCount) fsinfoNextFree }
        modify fun v => { v with freeCount := x, nextFree := y }
        if fl.clear then clearCluster fsi r else pure ()
        pure r) fun d v => fatFin fsi (view fsi v.disk).fat d := by
      refine updateInfo_used hg (fun data => wle32 y (wle32 x data fsinfoFreeCount) fsinfoNextFree)
        (P := fun f => f r = clusterEoc) ?_
      have hend : Maintains (KeepsUsed fsi fat) (fun v => (view fsi v.disk).fat r = clusterEoc)
          (pure r : FsM Nat) fun d v => fatFin fsi (view fsi v.disk).fat d :=
        .pure fun v _ hv => ⟨hr, by rw [hv]; decide⟩
      have hset : Maintains (KeepsUsed fsi fat) (fun v => (view fsi v.disk).fat r = clusterEoc)
          (modify fun v => { v with freeCount := x, nextFree := y } : FsM Unit)
          fun _ v => (view fsi v.disk).fat r = clusterEoc := .modify fun v hi hv => ⟨hi, hv⟩
      exact .bind hset fun _ => .ite (fun _ => .bind (clearCluster_used hg hr (P := fun f =>
        f r = clusterEoc)) fun _ => hend) fun _ => hend
    exact hrest.mono (fun _ _ h => h a rfl) fun _ _ _ h => h

/-- An allocation, also one that fails: the cluster that it gives back was free. -/
theorem allocateCluster_used (hg : Geometry fsi) (hp : p = 0 ∨ InRange fsi p ∧ fat p ≠ 0)
    {P : Vol → Prop} : Maintains (KeepsUsed fsi fat) P (allocateCluster fsi p fl) fun d v =>
      fatFin fsi (view fsi v.disk).fat d := by
  unfold allocateCluster
  refine .get_bind fun s _ _ => .ite (fun _ => .fail _) fun _ => ?_
  have hsearch : Maintains (KeepsUsed fsi fat) (fun t => t = s) (searchFree fsi
      (if s.nextFree < clusterMin ∨ s.nextFree > maxCluster fsi then clusterMin else s.nextFree)
      fsi.clusterCount (if s.nextFree < clusterMin ∨ s.nextFree > maxCluster fsi then clusterMin
        else s.nextFree)) fun r v => InRange fsi r ∧ (view fsi v.disk).fat r = 0 := by
    by_cases h0 : fsi.clusterCount = 0
    · rw [h0]
      exact .fail Errno.enospc
    · exact searchFree_used hg _ _ (searchStart_inRange hg (Nat.pos_of_ne_zero h0) s.nextFree)
  refine Maintains.bind hsearch fun r => ?_
  rintro v hi ⟨hrange, hfree⟩
  have hr0 : fat r = 0 := by
    by_contra hne
    exact hi r hne hfree
  exact allocateFound_used hg hp hrange hr0 _ _ v hi trivial

/-! ## Following links -/

theorem KeepsUsed.trans (h : KeepsUsed fsi (view fsi v.disk).fat v')
    (k : KeepsUsed fsi (view fsi v'.disk).fat v'') : KeepsUsed fsi (view fsi v.disk).fat v'' :=
  fun b hb => k b (h b hb)

/-- Behind `n` links from `c` is `d`, and they were only read; or `d` is the end of a chain. -/
def Reached (fsi : Fsi) (n c d : Nat) (v v' : Vol) : Prop :=
  (walk (fatNext fsi (view fsi v.disk).fat) n c = some d ∧ Same v v' ∧ Answers fsi v.reads n ∧
    v'.reads = v.reads + n) ∨ fatFin fsi (view fsi v'.disk).fat d

theorem Reached.trans (hg : Geometry fsi) {a b : Nat} {x : Nat} (h : Reached fsi a c d v v')
    (k : Reached fsi b d x v' v'') : Reached fsi (a + b) c x v v'' := by
  rcases k with ⟨hw, hs, ha, hn⟩ | hfin
  · rcases h with ⟨hw', hs', ha', hn'⟩ | hfin'
    · refine .inl ⟨?_, hs'.trans hs, answers_add.mpr ⟨ha', ?_⟩, by omega⟩
      · rw [hs'.disk] at hw
        rw [walk_add, hw']
        exact hw
      · rwa [hn'] at ha
    · -- no link follows the end
      cases b with
      | zero =>
        obtain rfl : d = x := Option.some.inj hw
        exact .inr (by rwa [hs.disk])
      | succ b =>
        rw [walk, fatEnds hg _ d hfin'] at hw
        cases hw
  · exact .inr hfin

theorem nextCluster_reached (hg : Geometry fsi) (c : Nat) (fl : NcFlags) (v : Vol) :
    WP (nextCluster fsi c fl) v fun r v' => KeepsUsed fsi (view fsi v.disk).fat v' ∧
      ∀ d, r = .ok d → Reached fsi 1 c d v v' := by
  have halloc {v1 : Vol} (hs : Same v v1) (hp : c = 0 ∨ InRange fsi c ∧ (view fsi v.disk).fat c ≠ 0) :
      WP (allocateCluster fsi c fl) v1 fun r v' => KeepsUsed fsi (view fsi v.disk).fat v' ∧
        ∀ d, r = .ok d → Reached fsi 1 c d v v' := by
    have h : Maintains (KeepsUsed fsi (view fsi v.disk).fat) (fun _ => True) (allocateCluster fsi c fl)
        fun d v => fatFin fsi (view fsi v.disk).fat d := allocateCluster_used hg hp
    obtain ⟨hkeep, hd⟩ := h v1 ((KeepsUsed.refl fsi v).same hs) trivial
    exact .of_run rfl ⟨hkeep, fun d hd' => .inr (hd d hd')⟩
  unfold nextCluster
  refine .ite (fun h0 => .ite (fun _ => .of_run rfl ⟨.refl fsi v, nofun⟩) fun _ =>
    halloc (.refl v) (.inl h0)) fun _ => .ite (fun _ => .of_run rfl ⟨.refl fsi v, nofun⟩) fun hc => ?_
  have hr : InRange fsi c := (inRange_iff hg c).mpr hc
  obtain ⟨v1, hs, hn, ⟨e, -, h⟩ | ⟨ha, h⟩⟩ := rmwCluster_answer hg hr v
  · exact .err_bind h ⟨(KeepsUsed.refl fsi v).same hs, nofun⟩
  · have hsame : KeepsUsed fsi (view fsi v.disk).fat v1 := (KeepsUsed.refl fsi v).same hs
    refine .ok_bind h (.ite (fun hend => .ite (fun _ => .of_run rfl ⟨hsame, nofun⟩) fun _ =>
      halloc hs (.inr ⟨hr, ?_⟩)) fun _ => .ite (fun _ => .of_run rfl ⟨hsame, nofun⟩) fun _ =>
      .ite (fun _ => .of_run rfl ⟨hsame, nofun⟩) fun _ => .ite (fun _ => .of_run rfl ⟨hsame, nofun⟩)
      fun hd => .of_run rfl ⟨hsame, fun d hd' => .inl ⟨?_, hs, ha, hn⟩⟩)
    · simp only [clusterEocMin] at hend
      omega
    · have hnext : fatNext fsi (view fsi v.disk).fat c = some d := by
        rw [← Out.ok.inj hd']
        exact if_pos ⟨hr, (inRange_iff hg _).mpr hd⟩
      rw [walk, hnext]
      rfl

theorem seekLoop_reached (hg : Geometry fsi) (fl : NcFlags) (n : Nat) : ∀ (c : Nat) (v : Vol),
    WP (seekLoop fsi fl n c) v fun r v' => KeepsUsed fsi (view fsi v.disk).fat v' ∧
      ∀ d, r = .ok d → Reached fsi n c d v v' := by
  induction n with
  | zero =>
    intro c v
    refine .of_run rfl ⟨.refl fsi v, fun d hd => .inl ⟨?_, .refl v, .zero, rfl⟩⟩
    rw [← Out.ok.inj hd]
    rfl
  | succ n ih =>
    intro c v
    refine .bind (nextCluster_reached hg c fl v) (fun d v1 h1 => ?_) (fun e v1 h1 => ⟨h1.1, nofun⟩)
      fun v1 h1 => ⟨h1.1, nofun⟩
    refine (ih d v1).mono fun r v2 h2 => ⟨h1.1.trans h2.1, fun x hx => ?_⟩
    rw [Nat.add_comm]
    exact (h1.2 d rfl).trans hg (h2.2 x hx)

/-- A link is followed when its read succeeds. -/
theorem nextCluster_answers (hg : Geometry fsi) (fl : NcFlags) (v : Vol)
    (hd : fatNext fsi (view fsi v.disk).fat c = some d) (ha : Answers fsi v.reads 1) :
    ∃ v', nextCluster fsi c fl v = (.ok d, v') ∧ Same v v' ∧ v'.reads = v.reads + 1 := by
  obtain ⟨hc, hr, hfat⟩ := fatNext_some.mp hd
  have hc0 : c ≠ 0 := by have := hc.1; omega
  have hcnt := hg.count
  simp only [clusterBad] at hcnt
  obtain ⟨v1, hs, hn, ⟨e, he, -⟩ | ⟨-, h⟩⟩ := rmwCluster_answer hg hc v
  · rw [answers_one.mp ha] at he
    cases he
  · refine ⟨v1, ?_, hs, hn⟩
    have hd2 := hr.2
    have hd1 := hr.1
    rw [nextCluster, if_neg hc0, if_neg (hc.not_outside hg), bind_ok h, hfat,
      if_neg (by simp only [clusterEocMin]; omega), if_neg (by simp only [clusterBad]; omega),
      if_neg (by simp only [clusterFree]; omega), if_neg (hr.not_outside hg)]
    rfl

theorem seekLoop_answers (hg : Geometry fsi) (fl : NcFlags) (n : Nat) : ∀ {c : Nat} {v : Vol},
    walk (fatNext fsi (view fsi v.disk).fat) n c = some d → Answers fsi v.reads n →
    ∃ v', seekLoop fsi fl n c v = (.ok d, v') ∧ Same v v' ∧ v'.reads = v.reads + n := by
  induction n with
  | zero =>
    intro c v hw _
    obtain rfl : c = d := Option.some.inj hw
    exact ⟨v, rfl, .refl v, rfl⟩
  | succ n ih =>
    intro c v hw ha
    rw [Nat.add_comm, answers_add] at ha
    rw [walk] at hw
    obtain ⟨x, hx, hw⟩ := Option.bind_eq_some_iff.mp hw
    obtain ⟨v1, h1, hs1, hn1⟩ := nextCluster_answers hg fl v hx ha.1
    obtain ⟨v2, h2, hs2, hn2⟩ := ih (v := v1) (by rwa [hs1.disk]) (by rw [hn1]; exact ha.2)
    refine ⟨v2, ?_, hs1.trans hs2, by omega⟩
    rw [seekLoop, bind_ok h1, h2]

/-- Without `NC_ALLOC` the link is followed, or nothing happens. -/
theorem nextCluster_plain (hg : Geometry fsi) (hfl : fl.alloc = false) (c : Nat) (v : Vol) :
    (∃ e v', nextCluster fsi c fl v = (.err e, v') ∧ Same v v') ∨
      ∃ d v', nextCluster fsi c fl v = (.ok d, v') ∧ Same v v' ∧ v'.reads = v.reads + 1 ∧
        fatNext fsi (view fsi v.disk).fat c = some d ∧ Answers fsi v.reads 1 := by
  have hno : ¬ fl.alloc = true := by
    rw [hfl]
    decide
  unfold nextCluster
  by_cases h0 : c = 0
  · rw [if_pos h0, if_pos hno]
    exact .inl ⟨_, v, rfl, .refl v⟩
  rw [if_neg h0]
  by_cases hout : c < clusterMin ∨ c > maxCluster fsi
  · rw [if_pos hout]
    exact .inl ⟨_, v, rfl, .refl v⟩
  have hr : InRange fsi c := (inRange_iff hg c).mpr hout
  rw [if_neg hout]
  obtain ⟨v1, hs, hn, ⟨e, -, h⟩ | ⟨ha, h⟩⟩ := rmwCluster_answer hg hr v
  · exact .inl ⟨e, v1, bind_err h, hs⟩
  · rw [bind_ok h]
    by_cases hend : (view fsi v.disk).fat c ≥ clusterEocMin
    · rw [if_pos hend, if_pos hno]
      exact .inl ⟨_, v1, rfl, hs⟩
    rw [if_neg hend]
    by_cases hbad : (view fsi v.disk).fat c = clusterBad
    · rw [if_pos hbad]
      exact .inl ⟨_, v1, rfl, hs⟩
    rw [if_neg hbad]
    by_cases hfree : (view fsi v.disk).fat c = clusterFree
    · rw [if_pos hfree]
      exact .inl ⟨_, v1, rfl, hs⟩
    rw [if_neg hfree]
    by_cases hd : (view fsi v.disk).fat c < clusterMin ∨ (view fsi v.disk).fat c > maxCluster fsi
    · rw [if_pos hd]
      exact .inl ⟨_, v1, rfl, hs⟩
    · rw [if_neg hd]
      exact .inr ⟨_, v1, rfl, hs, hn, if_pos ⟨hr, (inRange_iff hg _).mpr hd⟩, ha⟩

end Fat32
