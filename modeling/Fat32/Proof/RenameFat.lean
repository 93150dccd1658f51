import Mathlib
import Fat32.Proof.Ownership
import Fat32.Proof.DataArea
import Fat32.Proof.Search

/-!
# What `rename` does to the FAT

Of everything `fat32_rename` does, only the removal of an existing target and the
search for room in the target directory change FAT entries. The first frees what
can be reached from the target's first cluster (`ZeroedFrom`), the second appends
free clusters to the chain of the target directory (`Appends`), on any FAT. The
source and the target are found by two searches, which may find one entry: then
the file that is renamed is freed (`FreesSource`), and this is the only way it can
lose a cluster (`rename_fat_iff`).
-/

namespace Fat32

open Bytes Exec Prog Linked

variable {fsi : Fsi} {fat fat' fat₁ : Nat → Nat} {a c d : Nat} {v v' : Vol}

/-! ## Freeing what can be reached -/

/-- `c` is on the chain from `a`, as far as it can be followed. -/
def Reaches (fsi : Fsi) (fat : Nat → Nat) (a c : Nat) : Prop :=
  InRange fsi c ∧ ∃ i, walk (fatNext fsi fat) i a = some c

/-- Entries were cleared from `a` on, along the links. -/
structure ZeroedFrom (fsi : Fsi) (a : Nat) (fat fat' : Nat → Nat) : Prop where
  first : InRange fsi a → fat' a = 0
  step : ∀ x, fat' x = fat x ∨ fat' x = 0 ∧ Reaches fsi fat a x ∧
    (InRange fsi (fat x) → fat' (fat x) = 0)

theorem ZeroedFrom.none (h : ¬ InRange fsi a) (fat : Nat → Nat) : ZeroedFrom fsi a fat fat :=
  ⟨fun h' => absurd h' h, fun _ => .inl rfl⟩

/-- Links of the rest of a chain, after the entry of `c` was cleared. -/
theorem walk_cleared {i x : Nat}
    (h : walk (fatNext fsi (Function.update fat c 0)) i a = some x) :
    walk (fatNext fsi fat) i a = some x := by
  induction i generalizing a with
  | zero => exact h
  | succ i ih =>
    obtain ⟨b, hb, hw⟩ := Option.bind_eq_some_iff.mp h
    have hne : a ≠ c := by
      rintro rfl
      have hz := (fatNext_some.mp hb).2
      rw [Function.update_self] at hz
      have := hz.1.1
      omega
    have hb' : fatNext fsi fat a = some b := by
      rw [← hb]
      exact fatNext_congr (Function.update_of_ne hne _ _).symm
    rw [walk, hb']
    exact ih hw

theorem ZeroedFrom.cons (hc : InRange fsi c)
    (h : ZeroedFrom fsi (fat c) (Function.update fat c 0) fat') : ZeroedFrom fsi c fat fat' := by
  have hzero : fat' c = 0 := by
    rcases h.step c with e | e
    · rw [e, Function.update_self]
    · exact e.1
  refine ⟨fun _ => hzero, fun x => ?_⟩
  by_cases hx : x = c
  · subst hx
    exact .inr ⟨hzero, ⟨hc, 0, rfl⟩, h.first⟩
  · rcases h.step x with e | ⟨e, ⟨hr, i, hw⟩, hnext⟩
    · rw [Function.update_of_ne hx] at e
      exact .inl e
    · rw [Function.update_of_ne hx] at hnext
      refine .inr ⟨e, ⟨hr, i + 1, ?_⟩, hnext⟩
      -- the first cluster of the rest is in range, as it leads somewhere
      have hin : InRange fsi (fat c) := by
        cases i with
        | zero =>
          have h0 : fat c = x := Option.some.inj hw
          rw [h0]
          exact hr
        | succ i =>
          obtain ⟨b, hb, -⟩ := Option.bind_eq_some_iff.mp hw
          exact (fatNext_some.mp hb).1
      rw [walk, fatNext_some.mpr ⟨hc, hin, rfl⟩]
      exact walk_cleared hw

/-- Everything that can be reached was cleared. -/
theorem ZeroedFrom.reached (h : ZeroedFrom fsi a fat fat') (hr : Reaches fsi fat a c) :
    fat' c = 0 := by
  obtain ⟨hc, i, hw⟩ := hr
  induction i generalizing c with
  | zero =>
    obtain rfl : a = c := Option.some.inj hw
    exact h.first hc
  | succ i ih =>
    rw [walk_succ] at hw
    obtain ⟨b, hb, hbc⟩ := Option.bind_eq_some_iff.mp hw
    obtain ⟨hbr, -, rfl⟩ := fatNext_some.mp hbc
    have hz := ih hbr hb
    rcases h.step b with e | e
    · have := hc.1
      omega
    · exact e.2.2 hc

/-- The loop of `fat32_free_clusters` on any FAT. -/
theorem freeLoop_any (hk : Reliable fsi.kernel) (hg : Geometry fsi) (fuel : Nat) :
    ∀ (c freed : Nat) (v : Vol),
      fsi.clusterCount + 2 ≤ fuel + freeEntries fsi (view fsi v.disk).fat →
      WP (freeLoop fsi fuel c freed) v fun r v' => r ≠ .hang ∧
        ZeroedFrom fsi c (view fsi v.disk).fat (view fsi v'.disk).fat := by
  induction fuel with
  | zero =>
    intro c freed v h
    have := freeEntries_le fsi (view fsi v.disk).fat
    omega
  | succ fuel ih =>
    intro c freed v h
    refine .ite (fun _ => ?_) fun hc => .of_run rfl ⟨nofun, .none (fun hr => ?_) _⟩
    · by_cases hr : InRange fsi c
      · obtain ⟨v1, e1, f1, c1, n1⟩ := rmwCluster_write hk hg hr clusterFree v
        have o1 := FatOnly.of_set hg hr f1 c1 n1
        have hfat : (view fsi v1.disk).fat = Function.update (view fsi v.disk).fat c 0 := o1.fat
        refine .ok_bind e1 ?_
        by_cases hz : (view fsi v.disk).fat c = 0
        · -- a free entry ends the loop
          have hsame : Function.update (view fsi v.disk).fat c 0 = (view fsi v.disk).fat := by
            rw [← hz]
            exact Function.update_eq_self c _
          rw [hsame] at hfat
          obtain ⟨fuel, rfl⟩ : ∃ n, fuel = n + 1 := by
            have := freeEntries_le fsi (view fsi v.disk).fat
            have hpos : fsi.clusterCount ≠ 0 := by
              have := hr.1; have := hr.2; omega
            exact ⟨fuel - 1, by omega⟩
          rw [hz]
          refine .ite (fun h0 => absurd h0.1 (by decide)) fun _ => .of_run rfl ⟨nofun, ?_⟩
          rw [hfat]
          exact ⟨fun _ => hz, fun _ => .inl rfl⟩
        · have hone : ∀ b ∈ [c], InRange fsi b ∧ (view fsi v.disk).fat b ≠ 0 := fun b hb => by
            rw [List.mem_singleton.mp hb]
            exact ⟨hr, hz⟩
          have hcount := freeEntries_zero (List.nodup_singleton c) hone
          rw [← zeroFat_cons, zeroFat_nil, List.length_singleton, ← hfat] at hcount
          refine (ih _ _ v1 (by omega)).mono fun r v' ⟨hh, hZ⟩ => ⟨hh, ?_⟩
          rw [hfat] at hZ
          exact .cons hr hZ
      · refine .err_bind (rmwCluster_outside hg hr _ v) ⟨nofun, .none hr _⟩
    · exact hc (hr.loops hg)

theorem freeClusters_any (hk : Reliable fsi.kernel) (hg : Geometry fsi)
    (hfuel : fsi.clusterCount + 2 ≤ fsi.kernel.fuel) (c : Nat) (v : Vol) :
    WP (freeClusters fsi c true) v fun r v' => r ≠ .hang ∧
      ZeroedFrom fsi c (view fsi v.disk).fat (view fsi v'.disk).fat := by
  unfold freeClusters
  refine .ite (fun hc => .of_run rfl ⟨nofun, .none (fun hr => ?_) _⟩) fun _ =>
    .ite (fun h => absurd h (by decide)) fun _ => ?_
  · exact hr.not_outside hg hc
  refine .bind (freeLoop_any hk hg fsi.kernel.fuel c 0 v (by omega)) (fun n v1 h => ?_)
    (fun e v1 h => ⟨nofun, h.2⟩) fun v1 h => absurd rfl h.1
  obtain ⟨v2, e2, F⟩ := freeUpdate_ok hk hg n v1
  refine .of_run e2 ⟨nofun, ?_⟩
  rw [F.fat]
  exact h.2

/-! ## Appending to a chain -/

/-- Free clusters were appended to the chain from `dir`, if anything was changed. -/
def Appends (fsi : Fsi) (dir : Nat) (fat fat' : Nat → Nat) : Prop :=
  fat' = fat ∨ ∃ m ext, FatChain fsi fat dir m ∧ FatChain fsi fat' dir (m ++ ext) ∧
    (∀ c ∈ ext, InRange fsi c ∧ fat c = 0) ∧ ∀ c, c ∉ m → c ∉ ext → fat' c = fat c

theorem Grown.appends {m ext : List Nat} {clear : Bool} (g : Grown fsi d m ext clear v v')
    (hm : FatChain fsi (view fsi v.disk).fat d m) :
    Appends fsi d (view fsi v.disk).fat (view fsi v'.disk).fat :=
  .inr ⟨m, ext, hm, g.chain, g.fresh, g.fat⟩

/-- A link is kept when a chain is extended. -/
theorem Appends.link (hg : Geometry fsi) (h : Appends fsi d fat fat') {b : Nat}
    (hb : fatNext fsi fat c = some b) : fatNext fsi fat' c = some b := by
  rcases h with rfl | ⟨m, ext, hm, hm', hext, hframe⟩
  · exact hb
  by_cases hce : c ∈ ext
  · have hz := (fatNext_some.mp hb).2
    rw [(hext c hce).2] at hz
    have := hz.1.1
    omega
  by_cases hcm : c ∈ m
  · obtain ⟨i, hi⟩ := List.mem_iff_getElem?.mp hcm
    rcases hm.step hi with ⟨hf, -⟩ | ⟨b', hb', hi'⟩
    · rw [fatEnds hg fat c hf] at hb
      cases hb
    · obtain rfl : b' = b := Option.some.inj (hb'.symm.trans hb)
      obtain ⟨hlt, -⟩ := List.getElem?_eq_some_iff.mp hi
      obtain ⟨hlt', -⟩ := List.getElem?_eq_some_iff.mp hi'
      have hi : (m ++ ext)[i]? = some c := by rwa [List.getElem?_append_left hlt]
      have hi' : (m ++ ext)[i + 1]? = some b' := by rwa [List.getElem?_append_left hlt']
      rcases hm'.step hi with ⟨-, hlen⟩ | ⟨b'', hb'', hi''⟩
      · rw [List.length_append] at hlen
        omega
      · rw [hb'', ← hi'', hi']
  · rw [fatNext_congr (hframe c hcm hce)]
    exact hb

theorem Appends.walk (hg : Geometry fsi) (h : Appends fsi d fat fat') {i : Nat}
    (hw : walk (fatNext fsi fat) i a = some c) : walk (fatNext fsi fat') i a = some c := by
  induction i generalizing a with
  | zero => exact hw
  | succ i ih =>
    obtain ⟨b, hb, hw⟩ := Option.bind_eq_some_iff.mp hw
    rw [Linked.walk, h.link hg hb]
    exact ih hw

/-- A cluster in use stays in use. -/
theorem Appends.ne_zero (h : Appends fsi d fat fat') (hc : fat c ≠ 0) : fat' c ≠ 0 := by
  rcases h with rfl | ⟨m, ext, -, hm', -, hframe⟩
  · exact hc
  by_cases hcm : c ∈ m ++ ext
  · exact hm'.ne_zero c hcm
  · rw [List.mem_append, not_or] at hcm
    rw [hframe c hcm.1 hcm.2]
    exact hc

/-- Appending cleared clusters one by one. -/
theorem growLoop_grown (hk : Reliable fsi.kernel) (hg : Geometry fsi) (n : Nat) :
    ∀ {c : Nat} {m : List Nat} {v : Vol}, FatChain fsi (view fsi v.disk).fat d m → c ∈ m →
      WP (growLoop fsi n c) v fun _ v' => ∃ ext, Grown fsi d m ext true v v' := by
  induction n with
  | zero => exact fun hm _ => .of_run rfl ⟨[], .same hm (.refl _)⟩
  | succ n ih =>
    intro c m v hm hc
    obtain ⟨i, hi⟩ := List.mem_iff_getElem?.mp hc
    obtain ⟨v1, e1, g1, ⟨b, hb, hbi⟩ | ⟨he, -⟩⟩ :=
      nextCluster_grown hk hg { alloc := true, clear := true } hm hi
    · refine .ok_bind hb ((ih g1.chain (List.mem_of_getElem? hbi)).mono fun r v' ⟨ext, g⟩ => ?_)
      exact ⟨e1 ++ ext, g1.trans hg g⟩
    · exact .err_bind he ⟨e1, g1⟩

/-- Where the walk along a directory ended. -/
def AtEnd (fsi : Fsi) (fat : Nat → Nat) (dir last : Nat) : Prop :=
  InRange fsi last ∧ fatNext fsi fat last = none ∧
    (fatFin fsi fat last → ∃ m, FatChain fsi fat dir m ∧ last ∈ m)

theorem AtEnd.link {b last : Nat} (hb : fatNext fsi fat c = some b) (h : AtEnd fsi fat b last) :
    AtEnd fsi fat c last := by
  refine ⟨h.1, h.2.1, fun hf => ?_⟩
  obtain ⟨m, hm, hl⟩ := h.2.2 hf
  exact ⟨c :: m, .link hb hm, List.mem_cons_of_mem _ hl⟩

/-- A cluster after which there is none. -/
theorem AtEnd.here (hc : InRange fsi c) (hn : fatNext fsi fat c = none) : AtEnd fsi fat c c :=
  ⟨hc, hn, fun hf => ⟨[c], .last hf, List.mem_singleton_self c⟩⟩

theorem growLoop_appends (hk : Reliable fsi.kernel) (hg : Geometry fsi) (n : Nat)
    (h : AtEnd fsi (view fsi v.disk).fat d c) : WP (growLoop fsi n c) v fun _ v' =>
      Appends fsi d (view fsi v.disk).fat (view fsi v'.disk).fat := by
  obtain ⟨hr, hn, hfin⟩ := h
  by_cases hf : fatFin fsi (view fsi v.disk).fat c
  · obtain ⟨m, hm, hc⟩ := hfin hf
    exact (growLoop_grown hk hg n hm hc).mono fun _ _ ⟨_, g⟩ => g.appends hm
  · cases n with
    | zero => exact .of_run rfl (.inl rfl)
    | succ n =>
      obtain ⟨v1, e1, s1⟩ := nextCluster_broken hk hg hr hn hf { alloc := true, clear := true }
      exact .err_bind e1 (.inl (by rw [s1.disk]))

theorem allocLoop_end (hk : Reliable fsi.kernel) (hg : Geometry fsi) (num fuel : Nat) :
    ∀ {c : Nat} (cur : Nat) (run : Run) (found : Bool) {v : Vol}, InRange fsi c →
      WP (allocLoop fsi num fuel c cur run found) v fun r v' => Same v v' ∧
        ∀ e, r = .ok (.ok e) → AtEnd fsi (view fsi v.disk).fat c e.lastCluster := by
  induction fuel with
  | zero => exact fun _ _ _ _ _ => .of_run rfl ⟨.refl _, nofun⟩
  | succ fuel ih =>
    intro c cur run found v hc
    unfold allocLoop
    -- what comes behind the next cluster
    have hnext (run : Run) (found : Bool) {v1 : Vol} (s1 : Same v v1) {k : Except Errno Nat → FsM (Except Nat AllocEnd)}
        (herr : ∀ e, k (.error e) = pure (.ok ⟨c, u32 (cur + fsi.bytesPerCluster), run, found⟩))
        (hok : ∀ d, k (.ok d) = allocLoop fsi num fuel d (u32 (cur + fsi.bytesPerCluster)) run found) :
        WP (attempt (nextCluster fsi c {}) >>= k) v1 fun r v' => Same v v' ∧
          ∀ e, r = .ok (.ok e) → AtEnd fsi (view fsi v.disk).fat c e.lastCluster := by
      have hstop (hn : fatNext fsi (view fsi v1.disk).fat c = none) (x : Errno) (v2 : Vol)
          (e2 : nextCluster fsi c {} v1 = (.err x, v2)) (s2 : Same v1 v2) :
          WP (attempt (nextCluster fsi c {}) >>= k) v1 fun r v' => Same v v' ∧
            ∀ e, r = .ok (.ok e) → AtEnd fsi (view fsi v.disk).fat c e.lastCluster := by
        refine .ok_bind (attempt_err e2) ?_
        rw [herr]
        refine .of_run rfl ⟨s1.trans s2, fun e he => ?_⟩
        rw [← Except.ok.inj (Out.ok.inj he)]
        exact .here hc (by rw [← s1.disk]; exact hn)
      rcases hn : fatNext fsi (view fsi v1.disk).fat c with _ | b
      · by_cases hf : fatFin fsi (view fsi v1.disk).fat c
        · obtain ⟨v2, e2, s2⟩ := nextCluster_fin hk hg hf noAlloc
          exact hstop hn _ _ e2 s2
        · obtain ⟨v2, e2, s2⟩ := nextCluster_broken hk hg hc hn hf {}
          exact hstop hn _ _ e2 s2
      · obtain ⟨v2, e2, s2⟩ := nextCluster_link hk hg hn {}
        refine .ok_bind (attempt_ok e2) ?_
        rw [hok]
        refine (ih _ run found (fatNext_some.mp hn).2.1).mono fun r v' h => ?_
        obtain ⟨s3, h3⟩ := h
        have s : Same v v2 := s1.trans s2
        refine ⟨s.trans s3, fun e he => ?_⟩
        rw [s1.disk] at hn
        rw [s.disk] at h3
        exact .link hn (h3 e he)
    by_cases hfound : found = true
    · rw [if_pos hfound]
      exact hnext run true (.refl v) (fun _ => rfl) fun _ => rfl
    · rw [if_neg hfound]
      obtain ⟨v1, e1, s1⟩ := readCluster_ok hk hg hc v
      have hread : (do
          let bp ← readCluster fsi c
          (pure (allocCluster fsi num cur bp.data fsi.bytesPerCluster 0 run) : FsM AllocStep)) v =
          (.ok (allocCluster fsi num cur (fun o => v.disk (clusterAddr fsi c + o))
            fsi.bytesPerCluster 0 run), v1) := bind_ok e1
      refine .ok_bind hread ?_
      split
      · exact .of_run rfl ⟨s1, fun _ h => by cases h⟩
      · exact hnext _ _ s1 (fun _ => rfl) fun _ => rfl
      · exact hnext _ _ s1 (fun _ => rfl) fun _ => rfl

/-! ## Writing slots -/

/-- Runs of `m` leave the FAT as it is, and have results with `Φ`. -/
def FatKept {α : Type} (fsi : Fsi) (fat : Nat → Nat) (m : FsM α) (Φ : α → Prop) : Prop :=
  Maintains (fun v => (view fsi v.disk).fat = fat) (fun _ => True) m fun a _ => Φ a

namespace FatKept

variable {α β : Type} {m n : FsM α} {f : α → FsM β} {Φ : α → Prop} {Ψ : β → Prop}

theorem pure {x : α} (h : Φ x) : FatKept fsi fat (Pure.pure x) Φ := Maintains.pure fun _ _ _ => h

theorem bind (hm : FatKept fsi fat m Φ) (hf : ∀ x, Φ x → FatKept fsi fat (f x) Ψ) :
    FatKept fsi fat (m >>= f) Ψ :=
  Maintains.bind hm fun x s hi hx => hf x hx s hi trivial

theorem attempt (hm : FatKept fsi fat m Φ) :
    FatKept fsi fat (Prog.attempt m) fun r => ∀ x, r = .ok x → Φ x := Maintains.attempt hm

theorem ite {p : Prop} [Decidable p] (hm : p → FatKept fsi fat m Φ)
    (hn : ¬ p → FatKept fsi fat n Φ) : FatKept fsi fat (if p then m else n) Φ := Maintains.ite hm hn

theorem drop (hm : FatKept fsi fat m Φ) : FatKept fsi fat m fun _ => True :=
  Maintains.mono hm (fun _ _ _ => trivial) fun _ _ _ _ => trivial

/-- A program that only reads. -/
theorem of_quiet (hq : Quiet id m) (ha : Asks (fun _ => True) m Φ) : FatKept fsi fat m Φ := by
  intro v hv _
  have hs : Same v (m v).2 := (hq v).same
  refine ⟨?_, (ha v trivial trivial).2⟩
  show (view fsi (m v).2.disk).fat = fat
  rw [hs.disk]
  exact hv

theorem wp (hm : FatKept fsi fat m Φ) (hv : (view fsi v.disk).fat = fat) :
    WP m v fun _ v' => (view fsi v'.disk).fat = fat := Maintains.wp hm hv trivial

end FatKept

/-- Any cluster may be asked for. -/
theorem rangePolicy (fsi : Fsi) : Policy fsi (fun _ => True) (InRange fsi) :=
  ⟨fun _ _ _ _ => trivial, fun _ h => h⟩

/-- The buffer of cluster `c`. -/
def BufOf (fsi : Fsi) (c : Nat) (b : Buf) : Prop :=
  b.sector = fsi.dataStart + (c - 2) * fsi.sectorsPerCluster ∧ b.nblk = fsi.sectorsPerCluster

theorem readCluster_buf (hg : Geometry fsi) (hc : InRange fsi c) :
    Asks (fun _ => True) (readCluster fsi c) (BufOf fsi c) := by
  refine .bind (askCluster_asks (rangePolicy fsi) hc) fun _ _ v _ _ => ⟨trivial, fun b hb => ?_⟩
  unfold bread at hb
  dsimp only at hb
  split at hb
  · cases hb
  · rw [← Out.ok.inj hb]
    exact ⟨clusterToSector_eq hg hc, rfl⟩

theorem bdwrite_kept (hg : Geometry fsi) (hc : InRange fsi c) {b : Buf} (hb : BufOf fsi c b)
    (f : Nat → UInt8) : FatKept fsi fat (bdwrite { b with data := f }) fun _ => True := by
  intro v hv _
  obtain ⟨s, n, g⟩ := b
  obtain ⟨rfl, rfl⟩ := hb
  obtain ⟨v', e, hd, -, -⟩ := bdwrite_cluster hg c f v
  refine ⟨?_, fun _ _ => trivial⟩
  show (view fsi (bdwrite _ v).2.disk).fat = fat
  rw [e, hd.view hg hc]
  exact hv

theorem readCluster_kept (hg : Geometry fsi) (hc : InRange fsi c) :
    FatKept fsi fat (readCluster fsi c) (BufOf fsi c) :=
  .of_quiet (readCluster_quiet c) (readCluster_buf hg hc)

theorem seekCluster_kept (hg : Geometry fsi) (hd : InRange fsi d) (n : Nat) :
    FatKept fsi fat (seekCluster fsi d n {}) (InRange fsi) :=
  .of_quiet (seekCluster_quiet d n noAlloc) (seekCluster_asks (rangePolicy fsi) hg (.inl hd) _)

theorem writeFdentry_kept (hg : Geometry fsi) (hd : InRange fsi d) (offset : Nat) (s : Slot) :
    FatKept fsi fat (writeFdentry fsi d offset s) fun _ => True := by
  unfold writeFdentry
  exact .bind (seekCluster_kept hg hd _) fun _ hc => .bind (readCluster_kept hg hc) fun _ hb =>
    bdwrite_kept hg hc hb _

theorem lfnLoop_kept (hg : Geometry fsi) (hd : InRange fsi d) (start : Nat) (name : List UInt8)
    (sum : UInt8) (i : Nat) : FatKept fsi fat (lfnLoop fsi d start name sum i) fun _ => True := by
  induction i with
  | zero => exact .pure trivial
  | succ i ih => exact .bind (writeFdentry_kept hg hd _ _) fun _ _ => ih

theorem deleteLoop_kept (hg : Geometry fsi) (n : Nat) : ∀ {c : Nat} {b : Buf} (o : Nat),
    InRange fsi c → BufOf fsi c b → FatKept fsi fat (deleteLoop fsi n c b o) fun _ => True := by
  induction n with
  | zero => exact fun _ hc hb => bdwrite_kept hg hc hb _
  | succ n ih =>
    intro c b o hc hb
    unfold deleteLoop
    have hnext : FatKept fsi fat (if o ≥ fsi.bytesPerCluster then do
        bdwrite b
        let next ← nextCluster fsi c {}
        let bp ← readCluster fsi next
        pure (next, bp, 0)
      else pure (c, b, o)) fun r => InRange fsi r.1 ∧ BufOf fsi r.1 r.2.1 := by
      refine .ite (fun _ => ?_) fun _ => .pure ⟨hc, hb⟩
      refine .bind (bdwrite_kept hg hc hb _) fun _ _ => .bind (Φ := InRange fsi) ?_ fun next hn =>
        .bind (readCluster_kept hg hn) fun bp hbp => .pure ⟨hn, hbp⟩
      exact .of_quiet (nextCluster_quiet c noAlloc) (nextCluster_asks (rangePolicy fsi) hg c _)
    refine .bind hnext fun r hr => ?_
    obtain ⟨c', b', o'⟩ := r
    exact ih _ hr.1 hr.2

theorem deleteFdentryChain_kept (hg : Geometry fsi) (hd : InRange fsi d) (offset count : Nat) :
    FatKept fsi fat (deleteFdentryChain fsi d offset count) fun _ => True := by
  unfold deleteFdentryChain
  exact .bind (seekCluster_kept hg hd _) fun _ hc => .bind (readCluster_kept hg hc) fun _ hb =>
    deleteLoop_kept hg count _ hc hb

/-! ## Steps that end -/

theorem bread_terminates (s n : Nat) : Terminates (bread fsi s n) := by
  intro v
  unfold bread
  dsimp only
  split <;> exact nofun

theorem rmwCopies_terminates (x o n : Nat) : ∀ s b, Terminates (rmwCopies fsi x o n s b) := by
  induction n with
  | zero => exact fun _ _ => .pure _
  | succ n ih =>
    exact fun s b => .bind (fun _ => nofun) fun _ => .ite (fun _ => .pure _) fun _ =>
      .bind (bread_terminates _ _) fun _ => ih _ _

theorem rmwCluster_terminates (c : Nat) (new : Option Nat) :
    Terminates (rmwCluster fsi c new) := by
  refine .ite (fun _ => .fail _) fun _ => .bind (bread_terminates _ _) fun b => ?_
  cases new with
  | none => exact .pure _
  | some x => exact .bind (rmwCopies_terminates _ _ _ _ _) fun _ => .pure _

theorem searchFree_terminates (start n : Nat) : ∀ c, Terminates (searchFree fsi start n c) := by
  induction n with
  | zero => exact fun _ => .fail _
  | succ n ih =>
    exact fun c => .bind (rmwCluster_terminates _ _) fun _ => .ite (fun _ => .pure _) fun _ =>
      .ite (fun _ => .fail _) fun _ => ih _

theorem clearCluster_terminates (c : Nat) : Terminates (clearCluster fsi c) := by
  have hloop (n : Nat) : ∀ s, Terminates (clearLoop s n) := by
    induction n with
    | zero => exact fun _ => .pure _
    | succ n ih => exact fun s => .bind (fun _ => nofun) fun _ => .bind (fun _ => nofun) fun _ => ih _
  exact .bind (fun _ => nofun) fun _ => hloop _ _

theorem allocateCluster_terminates (p : Nat) (fl : NcFlags) :
    Terminates (allocateCluster fsi p fl) := by
  refine .bind (fun _ => nofun) fun v => .ite (fun _ => .fail _) fun _ =>
    .bind (searchFree_terminates _ _ _) fun r => .bind (rmwCluster_terminates _ _) fun _ =>
    .bind (.ite (fun _ => .attempt (rmwCluster_terminates _ _)) fun _ => .pure _) fun linked => ?_
  cases linked with
  | error e => exact .bind (.attempt (rmwCluster_terminates _ _)) fun _ => .fail _
  | ok _ =>
    exact .bind (bread_terminates _ _) fun _ => .bind (fun _ => nofun) fun _ =>
      .bind (fun _ => nofun) fun _ =>
      .ite (fun _ => .bind (clearCluster_terminates _) fun _ => .pure _) fun _ => .pure _

theorem nextCluster_terminates (c : Nat) (fl : NcFlags) : Terminates (nextCluster fsi c fl) := by
  refine .ite (fun _ => .ite (fun _ => .fail _) fun _ => allocateCluster_terminates _ _) fun _ =>
    .ite (fun _ => .fail _) fun _ => .bind (rmwCluster_terminates _ _) fun x => ?_
  exact .ite (fun _ => .ite (fun _ => .fail _) fun _ => allocateCluster_terminates _ _) fun _ =>
    .ite (fun _ => .fail _) fun _ => .ite (fun _ => .fail _) fun _ => .ite (fun _ => .fail _)
    fun _ => .pure _

theorem readCluster_terminates (c : Nat) : Terminates (readCluster fsi c) :=
  .bind (fun _ => nofun) fun _ => bread_terminates _ _

theorem seekCluster_terminates (c n : Nat) (fl : NcFlags) :
    Terminates (seekCluster fsi c n fl) := by
  have hloop (n : Nat) : ∀ c, Terminates (seekLoop fsi fl n c) := by
    induction n with
    | zero => exact fun c => .pure c
    | succ n ih => exact fun c => .bind (nextCluster_terminates c fl) ih
  rw [seekCluster_eq]
  exact hloop n c

theorem writeFdentry_terminates (d offset : Nat) (s : Slot) :
    Terminates (writeFdentry fsi d offset s) :=
  .bind (seekCluster_terminates _ _ _) fun _ => .bind (readCluster_terminates _) fun _ _ => nofun

theorem initDir_terminates (c parent : Nat) : Terminates (initDir fsi c parent) :=
  .bind (clearCluster_terminates c) fun _ => .bind (fun _ => nofun) fun _ =>
    .bind (writeFdentry_terminates _ _ _) fun _ => writeFdentry_terminates _ _ _

theorem growLoop_terminates (n : Nat) : ∀ c, Terminates (growLoop fsi n c) := by
  induction n with
  | zero => exact fun _ => .pure _
  | succ n ih => exact fun c => .bind (nextCluster_terminates _ _) ih

/-- Marking slots ends, as it takes one step for each of them. -/
theorem deleteFdentryChain_terminates (d offset count : Nat) :
    Terminates (deleteFdentryChain fsi d offset count) := by
  have hloop (n : Nat) : ∀ c b o, Terminates (deleteLoop fsi n c b o) := by
    induction n with
    | zero => exact fun _ _ _ _ => nofun
    | succ n ih =>
      intro c b o
      unfold deleteLoop
      refine .bind (.ite (fun _ => .bind (fun _ => nofun) fun _ =>
        .bind (nextCluster_terminates _ _) fun next =>
        .bind (readCluster_terminates next) fun _ => .pure _) fun _ => .pure _) fun r => ?_
      exact ih _ _ _
  exact .bind (seekCluster_terminates _ _ _) fun _ => .bind (readCluster_terminates _) fun _ =>
    hloop _ _ _ _

theorem renameDotdot_kept (hg : Geometry fsi) (hc : InRange fsi c ∨ c < clusterMin)
    (parent : Nat) : FatKept fsi fat (renameDotdot fsi c parent) fun _ => True := by
  unfold renameDotdot
  refine .ite (fun _ => .pure trivial) fun hne => ?_
  have hr : InRange fsi c := hc.resolve_right fun h => hne (.inl h)
  have hread : FatKept fsi fat (readFdentry fsi c 32) fun _ => True := by
    unfold readFdentry
    exact .bind (seekCluster_kept hg hr _) fun _ hc => .bind (readCluster_kept hg hc) fun _ _ =>
      .pure trivial
  refine .bind hread.attempt fun r _ => ?_
  cases r with
  | error e => exact .pure trivial
  | ok s => exact .bind (writeFdentry_kept hg hr _ _).attempt fun _ _ => .pure trivial

/-! ## The new entry -/

/-- Finding room for an entry. -/
theorem allocFdentry_appends (hk : Reliable fsi.kernel) (hg : Geometry fsi) (num : Nat) {t : VnSt}
    (hc : InRange fsi t.fv.cluster) : WP (allocFdentry fsi num) t fun _ t' => t'.fv = t.fv ∧
      Appends fsi t.fv.cluster (view fsi t.vol.disk).fat (view fsi t'.vol.disk).fat := by
  unfold allocFdentry
  refine .get_bind (.ite (fun h0 => ?_) fun _ => .on ?_)
  · rw [h0] at hc
    exact absurd hc.1 (by decide)
  have hsame {v : Vol} (s : Same t.vol v) :
      Appends fsi t.fv.cluster (view fsi t.vol.disk).fat (view fsi v.disk).fat :=
    .inl (by rw [s.disk])
  refine .bind (allocLoop_end hk hg num _ 0 {} false hc) ?_ ?_ ?_
  · intro r v1 ⟨s1, h1⟩
    cases r with
    | error start => exact .of_run rfl ⟨rfl, hsame s1⟩
    | ok e =>
      refine .ite (fun _ => ?_) fun _ => .of_run rfl ⟨rfl, hsame s1⟩
      have hend := h1 e rfl
      rw [← s1.disk] at hend ⊢
      refine .bind (growLoop_appends hk hg _ hend) ?_ ?_ ?_
      · exact fun _ v2 h2 => .of_run rfl ⟨rfl, h2⟩
      · exact fun _ v2 h2 => ⟨rfl, h2⟩
      · exact fun v2 h2 => ⟨rfl, h2⟩
  · exact fun _ v1 h1 => ⟨rfl, hsame h1.1⟩
  · exact fun v1 h1 => ⟨rfl, hsame h1.1⟩

/-- The slots of an entry, in the directory of the state. -/
theorem createFdentry_appends (hk : Reliable fsi.kernel) (hg : Geometry fsi) (fv : Fv)
    (name : List UInt8) {flags : CreFlags} (hf : flags.rename = true) {t : VnSt}
    (hc : InRange fsi t.fv.cluster) : WP (createFdentry fsi fv name flags) t fun _ t' =>
      t'.fv = t.fv ∧
        Appends fsi t.fv.cluster (view fsi t.vol.disk).fat (view fsi t'.vol.disk).fat := by
  unfold createFdentry
  have halloc : WP (if flags.reuse then pure fv.diroff else allocFdentry fsi (nameSlots name)) t
      fun _ t' => t'.fv = t.fv ∧
        Appends fsi t.fv.cluster (view fsi t.vol.disk).fat (view fsi t'.vol.disk).fat :=
    .ite (fun _ => .of_run rfl ⟨rfl, .inl rfl⟩) fun _ => allocFdentry_appends hk hg _ hc
  refine .bind halloc ?_ (fun _ _ h => h) fun _ h => h
  intro diroff t1 ⟨hfv, happ⟩
  refine .get_bind ?_
  have hcl : createCluster fsi t1.fv.cluster flags fv = pure fv.cluster := if_pos hf
  rw [hcl]
  have hpure : (onVol (pure fv.cluster) : FvM Nat) t1 = (.ok fv.cluster, t1) := rfl
  refine .ok_bind hpure ?_
  rw [if_pos hf]
  refine .ok_bind rfl ?_
  rw [← hfv] at hc
  have hpost {v : Vol} (h : (view fsi v.disk).fat = (view fsi t1.vol.disk).fat) :
      Appends fsi t.fv.cluster (view fsi t.vol.disk).fat (view fsi v.disk).fat := by rwa [h]
  refine .on_bind (R := fun _ v => (view fsi v.disk).fat = (view fsi t1.vol.disk).fat) ?_ ?_ ?_ ?_
  · refine FatKept.wp (Φ := fun _ => True) (.ite (fun _ => writeFdentry_kept hg hc _ _) fun _ => ?_) rfl
    exact .bind (lfnLoop_kept hg hc _ _ _ _) fun _ _ => writeFdentry_kept hg hc _ _
  · exact fun _ v h => .ite (fun _ => .of_run rfl ⟨hfv, hpost h⟩) fun hn => absurd hf hn
  · exact fun _ v h => ⟨hfv, hpost h⟩
  · exact fun v h => ⟨hfv, hpost h⟩

end Fat32
