import Mathlib
import Fat32.Proof.Create
import Fat32.Proof.Space

/-!
# What writing into a directory leaves of the FAT

The entries of a directory are written into its clusters, which changes no entry of the FAT and no count (`DataOnly`). A
directory that grows, or a new directory, takes free clusters only, also when there are too few of them
(`growLoop_good`, `createCluster_good`), and the clusters of all others stay as they were (`Beside`).
-/

namespace Fat32

open Bytes Exec Prog Linked

variable {fsi : Fsi} {H : Finset Nat} {cs : List Nat} {v v' v'' : Vol} {a c d k : Nat} {name : List UInt8}

/-! ## Clusters that are written -/

/-- Clusters were written, and nothing else: the FAT and the counts are as they were. -/
structure DataOnly (fsi : Fsi) (v v' : Vol) : Prop where
  fat : (view fsi v'.disk).fat = (view fsi v.disk).fat
  good : ∀ H, Good fsi H v → Good fsi H v'

theorem DataOnly.of_same (h : Same v v') : DataOnly fsi v v' := ⟨by rw [h.disk], fun _ G => G.same h⟩

theorem DataOnly.trans (h : DataOnly fsi v v') (k : DataOnly fsi v' v'') : DataOnly fsi v v'' :=
  ⟨k.fat.trans h.fat, fun H G => k.good H (h.good H G)⟩

theorem DataOnly.chain (h : DataOnly fsi v v') (hl : FatChain fsi (view fsi v.disk).fat a cs) :
    FatChain fsi (view fsi v'.disk).fat a cs := by rwa [h.fat]

theorem DataOnly.of_data (hg : Geometry fsi) {f : Nat → UInt8} (h : DataSet fsi c f v.disk v'.disk) (hc : InRange fsi c)
    (hfree : v'.freeCount = v.freeCount) : DataOnly fsi v v' := by
  refine ⟨?_, fun _ G => G.data hg h hc hfree⟩
  rw [h.view hg hc]
  rfl

theorem bdwrite_dataOnly (hg : Geometry fsi) (hc : InRange fsi c) (f : Nat → UInt8) (v : Vol) :
    WP (bdwrite ⟨fsi.dataStart + (c - 2) * fsi.sectorsPerCluster, fsi.sectorsPerCluster, f⟩) v fun _ v' => DataOnly fsi v v' := by
  obtain ⟨v', e, hset, hfree, -⟩ := bdwrite_cluster hg c f v
  exact .of_run e (.of_data hg hset hc hfree)

/-- A first step that stores, in front of others that do. -/
theorem dataOnly_bind {α β : Type} {m : FsM α} {f : α → FsM β} (hm : WP m v fun _ v' => DataOnly fsi v v')
    (hf : ∀ r v', DataOnly fsi v v' → WP (f r) v' fun _ v'' => DataOnly fsi v' v'') : WP (m >>= f) v fun _ v' => DataOnly fsi v v' :=
  .bind hm (fun r v1 h1 => (hf r v1 h1).mono fun _ _ h2 => h1.trans h2) (fun _ _ h => h) fun _ h => h

theorem writeFdentry_dataOnly (hk : Reliable fsi.kernel) (hg : Geometry fsi) (hl : FatChain fsi (view fsi v.disk).fat a cs) (o : Nat)
    (s : Slot) : WP (writeFdentry fsi a o s) v fun _ v' => DataOnly fsi v v' := by
  have h0 : cs[0]? = some a := by
    obtain ⟨t, rfl⟩ := hl.head_eq
    rfl
  unfold writeFdentry
  dsimp only
  rw [seekCluster_eq]
  obtain ⟨v1, s1, ⟨c, e1, hc⟩ | ⟨e1, -⟩⟩ := seekLoop_read hk hg noAlloc (o >>> fsi.clusterShift) hl h0
  · have hr := hl.inRange c (List.mem_of_getElem? hc)
    obtain ⟨v2, e2, s2⟩ := readCluster_ok hk hg hr v1
    refine .ok_bind e1 (.ok_bind e2 ((bdwrite_dataOnly hg hr _ v2).mono fun _ _ h => ?_))
    exact (DataOnly.of_same (s1.trans s2)).trans h
  · exact .err_bind e1 (.of_same s1)

theorem lfnLoop_dataOnly (hk : Reliable fsi.kernel) (hg : Geometry fsi) (o : Nat) (sum : UInt8) (n : Nat) : ∀ {v : Vol},
    FatChain fsi (view fsi v.disk).fat a cs → WP (lfnLoop fsi a o name sum n) v fun _ v' => DataOnly fsi v v' := by
  induction n with
  | zero => exact fun _ => .of_run rfl (.of_same (.refl _))
  | succ n ih =>
    intro v hl
    unfold lfnLoop
    exact dataOnly_bind (writeFdentry_dataOnly hk hg hl _ _) fun _ _ h => ih (h.chain hl)

/-- The entry of a name. -/
theorem writeEntry_dataOnly (hk : Reliable fsi.kernel) (hg : Geometry fsi) (hl : FatChain fsi (view fsi v.disk).fat a cs) (o : Nat)
    (d83 : Dirent83) : WP (if nameIsShort name then writeFdentry fsi a o d83.toSlot else writeLfnFdentry fsi a o d83 name) v
      fun _ v' => DataOnly fsi v v' := by
  refine .ite (fun _ => writeFdentry_dataOnly hk hg hl _ _) fun _ => ?_
  unfold writeLfnFdentry
  exact dataOnly_bind (lfnLoop_dataOnly hk hg _ _ _ hl) fun _ _ h => writeFdentry_dataOnly hk hg (h.chain hl) _ _

theorem initDir_dataOnly (hk : Reliable fsi.kernel) (hg : Geometry fsi) (hl : FatChain fsi (view fsi v.disk).fat a [a]) (parent : Nat) :
    WP (initDir fsi a parent) v fun _ v' => DataOnly fsi v v' := by
  obtain ⟨v1, e1, hset, hfree, -⟩ := clearCluster_ok hg (hl.inRange a (List.mem_singleton_self a)) v
  have h1 : DataOnly fsi v v1 := .of_data hg hset (hl.inRange a (List.mem_singleton_self a)) hfree
  obtain ⟨now, v2, e2, s2⟩ := nanotime_same fsi v1
  have h2 : DataOnly fsi v v2 := h1.trans (.of_same s2)
  unfold initDir
  refine .ok_bind e1 (.ok_bind e2 ((dataOnly_bind (writeFdentry_dataOnly hk hg (h2.chain hl) _ _) fun _ _ h =>
    writeFdentry_dataOnly hk hg (h.chain (h2.chain hl)) _ _).mono fun _ _ h => h2.trans h))

/-- Marking slots as deleted. -/
theorem deleteLoop_dataOnly (hk : Reliable fsi.kernel) (hg : Geometry fsi) (n : Nat) : ∀ {c o : Nat} {f : Nat → UInt8} {v : Vol},
    InRange fsi c → WP (deleteLoop fsi n c (clusterBuf fsi c f) o) v fun _ v' => DataOnly fsi v v' := by
  induction n with
  | zero => exact fun hc => bdwrite_dataOnly hg hc _ _
  | succ n ih =>
    intro c o f v hc
    rw [deleteLoop]
    by_cases ho : o ≥ fsi.bytesPerCluster
    · rw [if_pos ho]
      refine .bind (R := fun r v1 => DataOnly fsi v v1 ∧ ∀ x, r = .ok x → InRange fsi x.1 ∧ ∃ g, x.2.1 = clusterBuf fsi x.1 g)
        (.bind (bdwrite_dataOnly hg hc f v) (fun _ v1 h1 => ?_) (fun _ _ h => ⟨h, fun _ he => absurd he Out.err_ne_ok⟩)
          fun _ h => ⟨h, fun _ he => absurd he Out.hang_ne_ok⟩) (fun x v2 h2 => ?_) (fun _ _ h => h.1) fun _ h => h.1
      · rcases hn : fatNext fsi (view fsi v1.disk).fat c with _ | d
        · obtain ⟨e, v2, e2, s2⟩ := nextCluster_none hk hg noAlloc hn
          exact .err_bind e2 ⟨h1.trans (.of_same s2), fun _ he => absurd he Out.err_ne_ok⟩
        · obtain ⟨v2, e2, s2⟩ := nextCluster_link hk hg hn {}
          have hd : InRange fsi d := (fatNext_some.mp hn).2.1
          obtain ⟨v3, e3, s3⟩ := readCluster_ok hk hg hd v2
          refine .ok_bind e2 (.ok_bind e3 (.of_run (pure_run _ _) ⟨h1.trans (.of_same (s2.trans s3)), fun x hx => ?_⟩))
          rw [← Out.ok.inj hx]
          exact ⟨hd, _, rfl⟩
      · obtain ⟨d, bp, o'⟩ := x
        obtain ⟨hd, g, hbp⟩ := h2.2 _ rfl
        dsimp only at hd hbp ⊢
        subst hbp
        exact (ih hd).mono fun _ _ h => h2.1.trans h
    · rw [if_neg ho]
      exact .ok_bind (pure_run _ _) (ih hc)

theorem deleteFdentryChain_dataOnly (hk : Reliable fsi.kernel) (hg : Geometry fsi) (hl : FatChain fsi (view fsi v.disk).fat a cs)
    (o n : Nat) : WP (deleteFdentryChain fsi a o n) v fun _ v' => DataOnly fsi v v' := by
  have h0 : cs[0]? = some a := by
    obtain ⟨t, rfl⟩ := hl.head_eq
    rfl
  unfold deleteFdentryChain
  dsimp only
  rw [seekCluster_eq]
  obtain ⟨v1, s1, ⟨c, e1, hc⟩ | ⟨e1, -⟩⟩ := seekLoop_read hk hg noAlloc (o >>> fsi.clusterShift) hl h0
  · have hr := hl.inRange c (List.mem_of_getElem? hc)
    obtain ⟨v2, e2, s2⟩ := readCluster_ok hk hg hr v1
    exact .ok_bind e1 (.ok_bind e2 ((deleteLoop_dataOnly hk hg n hr).mono fun _ _ h => (DataOnly.of_same (s1.trans s2)).trans h))
  · exact .err_bind e1 (.of_same s1)

/-! ## The clusters of others -/

/-- The clusters in use that are not in `cs` are as they were. -/
def Beside (fsi : Fsi) (cs : List Nat) (v v' : Vol) : Prop := ∀ c, c ∉ cs → (view fsi v.disk).fat c ≠ 0 →
  (view fsi v'.disk).fat c = (view fsi v.disk).fat c ∧ (view fsi v'.disk).data c = (view fsi v.disk).data c

theorem Beside.of_same (h : Same v v') : Beside fsi cs v v' := fun _ _ _ => by
  rw [h.disk]
  exact ⟨rfl, rfl⟩

theorem Beside.trans {cs' : List Nat} (h : Beside fsi cs v v') (k : Beside fsi cs' v' v'')
    (hnew : ∀ c ∈ cs', c ∉ cs → (view fsi v'.disk).fat c = 0 ∨ (view fsi v.disk).fat c = 0) : Beside fsi cs v v'' := by
  intro c hc hused
  obtain ⟨hfat, hdata⟩ := h c hc hused
  have hc' : c ∉ cs' := fun hmem => (hnew c hmem hc).elim (fun h0 => hused (hfat.symm.trans h0)) hused
  obtain ⟨hfat', hdata'⟩ := k c hc' (by rwa [hfat])
  exact ⟨hfat'.trans hfat, hdata'.trans hdata⟩

theorem Grown.beside {ext : List Nat} (g : Grown fsi a cs ext true v v') : Beside fsi cs v v' := by
  intro c hc hused
  have hext : c ∉ ext := fun hmem => hused (g.fresh c hmem).2
  exact ⟨g.fat c hc hext, g.data c (.inl hext)⟩

theorem Edited.beside {D : List Slot} (E : Edited fsi cs D v v') : Beside fsi cs v v' := fun c hc _ => ⟨by rw [E.fat], E.data c hc⟩

theorem Beside.chain (h : Beside fsi cs v v') {m : List Nat} (hl : FatChain fsi (view fsi v.disk).fat a m) (hm : cs.Disjoint m) :
    FatChain fsi (view fsi v'.disk).fat a m :=
  hl.congr fun c hc => (h c (fun hcs => hm hcs hc) (hl.ne_zero c hc)).1

theorem Beside.slots (h : Beside fsi cs v v') {m : List Nat} (hl : FatChain fsi (view fsi v.disk).fat a m) (hm : cs.Disjoint m) :
    volSlots fsi m v' = volSlots fsi m v :=
  volSlots_congr fun c hc => (h c (fun hcs => hm hcs hc) (hl.ne_zero c hc)).2

/-! ## Clusters that are taken -/

/-- A directory grows by as many clusters as are free. -/
theorem growLoop_good (hk : Reliable fsi.kernel) (hg : Geometry fsi) (ha : a ∈ H) (n : Nat) :
    ∀ {c : Nat} {cs : List Nat} {v : Vol}, Good fsi H v → FatChain fsi (view fsi v.disk).fat a cs → c ∈ cs →
      fatFin fsi (view fsi v.disk).fat c → WP (growLoop fsi n c) v fun r v' => Good fsi H v' ∧
        ∃ ext, Grown fsi a cs ext true v v' ∧ (r = .ok () ∧ ext.length = n ∨ r = .err .enospc ∧ ext.length < n) := by
  induction n with
  | zero => exact fun G hl _ _ => .of_run rfl ⟨G, [], .same hl (.refl _), .inl ⟨rfl, rfl⟩⟩
  | succ n ih =>
    intro c cs v G hl hc hf
    unfold growLoop
    obtain ⟨v1, ⟨e, s1⟩ | ⟨r, e, g⟩⟩ := nextCluster_grown_end hk hg
      (rfl : ({ alloc := true, clear := true } : NcFlags).alloc = true) hl hc hf
    · exact .err_bind e ⟨G.same s1, [], .same hl s1, .inr ⟨rfl, Nat.succ_pos n⟩⟩
    · have hr : (cs ++ [r])[cs.length]? = some r := List.getElem?_concat_length
      have G1 : Good fsi H v1 := by
        obtain ⟨v1', G1, ⟨e', he⟩ | ⟨d, he, -⟩⟩ := nextCluster_good hk hg G ⟨a, ha, cs, hl, hc⟩ { alloc := true, clear := true }
        · rw [e] at he
          cases he
        · obtain ⟨-, rfl⟩ := Prod.mk.inj (e.symm.trans he)
          exact G1
      refine .ok_bind e ((ih G1 g.chain (List.mem_of_getElem? hr)
        (g.chain.last_fin hr (by rw [List.length_append]; rfl))).mono fun res v' hres => ?_)
      obtain ⟨G', ext, g', hend⟩ := hres
      refine ⟨G', [r] ++ ext, g.trans hg g', hend.imp (fun h => ⟨h.1, ?_⟩) fun h => ⟨h.1, ?_⟩⟩
      · rw [List.length_append, h.2, Nat.add_comm]
        rfl
      · have hlt := h.2
        rw [List.length_append, List.length_singleton]
        omega

/-- What the heads of the chains are when the call has taken the cluster `c`: the one of a new directory is a head. -/
def Takes (fsi : Fsi) (H : Finset Nat) (parent : Nat) (flags : CreFlags) (c : Nat) (v : Vol) : Prop :=
  if flags.dir then c ∉ H ∧ Good fsi (insert c H) v ∧ FatChain fsi (view fsi v.disk).fat c [c] ∧
    ∃ t, volSlots fsi [c] v = newDirSlots fsi t c parent
  else c = 0 ∧ Good fsi H v

theorem Takes.same {parent : Nat} {flags : CreFlags} (h : Takes fsi H parent flags c v) (hs : Same v v') :
    Takes fsi H parent flags c v' := by
  unfold Takes at h ⊢
  by_cases hdir : flags.dir = true
  · rw [if_pos hdir] at h ⊢
    obtain ⟨hnew, G, hl, t, ht⟩ := h
    exact ⟨hnew, G.same hs, by rwa [hs.disk], t, by rwa [volSlots_same hs]⟩
  · rw [if_neg hdir] at h ⊢
    exact ⟨h.1, h.2.same hs⟩

/-- Writing into a directory with other clusters leaves the new one alone. -/
theorem Takes.kept {parent : Nat} {flags : CreFlags} (h : Takes fsi H parent flags c v) (ha : a ∈ H)
    (hl : FatChain fsi (view fsi v.disk).fat a cs) (hk : DataOnly fsi v v') (hb : Beside fsi cs v v') :
    Takes fsi H parent flags c v' := by
  unfold Takes at h ⊢
  by_cases hdir : flags.dir = true
  · rw [if_pos hdir] at h ⊢
    obtain ⟨hnew, G, hc, t, ht⟩ := h
    have hne : a ≠ c := fun hac => hnew (hac ▸ ha)
    have hdisj : cs.Disjoint [c] :=
      G.owned.forest.apart (Finset.mem_insert_of_mem ha) (Finset.mem_insert_self c H) hne hl hc
    exact ⟨hnew, hk.good _ G, hk.chain hc, t, by rw [hb.slots hc hdisj, ht]⟩
  · rw [if_neg hdir] at h ⊢
    exact ⟨h.1, hk.good _ h.2⟩

/-- A new directory takes a free cluster, and no cluster in use is changed. -/
theorem createCluster_good (hk : Reliable fsi.kernel) (hg : Geometry fsi) (G : Good fsi H v) {flags : CreFlags}
    (hf : flags.rename = false) (parent : Nat) (fv : Fv) :
    WP (createCluster fsi parent flags fv) v fun r v' => Beside fsi [] v v' ∧
      (r = .err .enospc ∧ Good fsi H v' ∨ ∃ c, r = .ok c ∧ Takes fsi H parent flags c v') := by
  unfold createCluster
  refine .ite (fun h => absurd (h.symm.trans hf) (by decide)) fun _ => .ite (fun hdir => ?_) fun hfile =>
    .of_run (pure_run _ _) ⟨.of_same (.refl _), .inr ⟨0, rfl, by rw [Takes, if_neg hfile]; exact ⟨rfl, G⟩⟩⟩
  obtain ⟨v1, ⟨e1, s1⟩ | ⟨r, e1, A⟩⟩ :=
    nextCluster_grown_zero hk hg (rfl : ({ alloc := true, clear := true } : NcFlags).alloc = true) v
  · exact .err_bind e1 ⟨.of_same s1, .inl ⟨rfl, G.same s1⟩⟩
  · have g := A.grown_zero
    have hnew : r ∉ H := fun hr => by
      obtain ⟨l, hlr⟩ := G.owned.chain r hr
      exact hlr.ne_zero r hlr.head_mem A.free
    have G1 : Good fsi (insert r H) v1 := by
      obtain ⟨v1', ⟨e', he, -⟩ | ⟨r', he, G1, -⟩⟩ := nextCluster_zero_good hk hg G { alloc := true, clear := true }
      · rw [e1] at he
        cases he
      · obtain ⟨hr, rfl⟩ := Prod.mk.inj (e1.symm.trans he)
        rwa [Out.ok.inj hr]
    obtain ⟨t, v2, e2, E⟩ := initDir_made hk hg g.chain parent
    have hkept : DataOnly fsi v1 v2 := by
      have h := initDir_dataOnly hk hg g.chain parent
      unfold WP at h
      rwa [e2] at h
    refine .ok_bind e1 (.ok_bind e2 (.of_run (pure_run _ _) ⟨?_, .inr ⟨r, rfl, ?_⟩⟩))
    · refine g.beside.trans E.beside fun c hc _ => .inr ?_
      rw [List.mem_singleton.mp hc]
      exact A.free
    · rw [Takes, if_pos hdir]
      exact ⟨hnew, hkept.good _ G1, E.chain g.chain, t, E.slots⟩

end Fat32
