import Mathlib
import Fat32.Impl.Vnode
import Fat32.Proof.Cache

/-!
# Operations on one file

`Coherent fsi l s`: the clusters of the vnode are `l`, and its cache agrees with
them. Every operation on the vnode (`truncate`, `read`, `write` and what they are
made of) is a `FileStep`: it leaves a coherent vnode, touches only clusters of
the file and free ones (`OwnOnly`), and sets the dirty bit of what it changes
(`FvKeeps`).
-/

namespace Fat32

open Bytes Exec Prog Linked

/-- The clusters of a file: none, or a chain. -/
def FileChain (fsi : Fsi) (fat : Nat → Nat) (c : Nat) (l : List Nat) : Prop :=
  c = 0 ∧ l = [] ∨ FatChain fsi fat c l

structure Coherent (fsi : Fsi) (l : List Nat) (s : VnSt) : Prop where
  chain : FileChain fsi (view fsi s.vol.disk).fat s.fv.cluster l
  cache : CacheOk fsi (view fsi s.vol.disk).fat s.fv.cluster s.fv.clsCache

/-- The clusters `l` became `l'`; a used cluster outside `l` is as before, and
not in `l'`. -/
structure OwnOnly (fsi : Fsi) (l l' : List Nat) (v v' : Vol) : Prop where
  fat : ∀ e, (view fsi v.disk).fat e ≠ 0 → e ∉ l →
    (view fsi v'.disk).fat e = (view fsi v.disk).fat e
  data : ∀ e, (view fsi v.disk).fat e ≠ 0 → e ∉ l →
    (view fsi v'.disk).data e = (view fsi v.disk).data e
  away : ∀ e, (view fsi v.disk).fat e ≠ 0 → e ∉ l → e ∉ l'

/-- Where a vnode is stays, and what changes of its size, its first cluster or
its attributes is marked dirty. -/
structure FvKeeps (fv fv' : Fv) : Prop where
  vnode : fv'.vnode = fv.vnode
  type : fv'.type = fv.type
  diroff : fv'.diroff = fv.diroff
  dirsz : fv'.dirsz = fv.dirsz
  parentCluster : fv'.parentCluster = fv.parentCluster
  parentVp : fv'.parentVp = fv.parentVp
  root : fv'.flags.root = fv.flags.root
  cluster : fv'.cluster = fv.cluster ∨ fv'.flags.cluster = true
  clusterFlag : fv.flags.cluster = true → fv'.flags.cluster = true
  size : fv'.size = fv.size ∨ fv'.flags.size = true
  sizeFlag : fv.flags.size = true → fv'.flags.size = true
  attr : fv'.attr = fv.attr ∨ fv'.flags.attr = true
  attrFlag : fv.flags.attr = true → fv'.flags.attr = true

structure FileStep (fsi : Fsi) (l l' : List Nat) (s s' : VnSt) : Prop where
  coherent : Coherent fsi l' s'
  own : OwnOnly fsi l l' s.vol s'.vol
  fv : FvKeeps s.fv s'.fv

variable {fsi : Fsi} {l l' l'' m ext : List Nat} {v v' v'' : Vol} {s s' s'' : VnSt}
  {fv fv' fv'' : Fv} {fat : Nat → Nat} {a c : Nat}

/-! ## Their laws -/

theorem FileChain.of_ne (h : FileChain fsi fat c l) (hc : c ≠ 0) : FatChain fsi fat c l :=
  h.resolve_left fun h => hc h.1

theorem FatChain.head_ne_zero (h : FatChain fsi fat a l) : a ≠ 0 := by
  have := (h.inRange a h.head_mem).1
  omega

theorem FileChain.ne_zero (h : FileChain fsi fat c l) : ∀ e ∈ l, fat e ≠ 0 := by
  rcases h with ⟨-, rfl⟩ | h
  · exact nofun
  · exact FatChain.ne_zero h

theorem OwnOnly.of_same (h : Same v v') : OwnOnly fsi l l v v' :=
  ⟨fun _ _ _ => by rw [h.disk], fun _ _ _ => by rw [h.disk], fun _ _ he => he⟩

theorem OwnOnly.trans (h : OwnOnly fsi l l' v v') (k : OwnOnly fsi l' l'' v' v'') :
    OwnOnly fsi l l'' v v'' := by
  have used {e} (hz : (view fsi v.disk).fat e ≠ 0) (he : e ∉ l) :
      (view fsi v'.disk).fat e ≠ 0 ∧ e ∉ l' := ⟨by rwa [h.fat e hz he], h.away e hz he⟩
  refine ⟨fun e hz he => ?_, fun e hz he => ?_, fun e hz he => ?_⟩
  · rw [k.fat e (used hz he).1 (used hz he).2, h.fat e hz he]
  · rw [k.data e (used hz he).1 (used hz he).2, h.data e hz he]
  · exact k.away e (used hz he).1 (used hz he).2

/-- Another chain is kept, with its bytes. -/
theorem OwnOnly.chain (h : OwnOnly fsi l l' v v') (hm : FatChain fsi (view fsi v.disk).fat a m)
    (hd : m.Disjoint l) : FatChain fsi (view fsi v'.disk).fat a m ∧ m.Disjoint l' ∧
      ∀ e ∈ m, (view fsi v'.disk).data e = (view fsi v.disk).data e :=
  ⟨hm.congr fun e he => h.fat e (hm.ne_zero e he) (hd he),
    fun e he => h.away e (hm.ne_zero e he) (hd he),
    fun e he => h.data e (hm.ne_zero e he) (hd he)⟩

theorem Grown.ownOnly {clear : Bool} (g : Grown fsi a l ext clear v v') :
    OwnOnly fsi l (l ++ ext) v v' := by
  have hext {e} (hz : (view fsi v.disk).fat e ≠ 0) : e ∉ ext := fun he => hz (g.fresh e he).2
  refine ⟨fun e hz he => g.fat e he (hext hz), fun e hz _ => g.data e (.inl (hext hz)),
    fun e hz he => ?_⟩
  rw [List.mem_append]
  exact not_or.mpr ⟨he, hext hz⟩

theorem Freed.ownOnly_all {n : Nat} (F : Freed fsi (zeroFat l) n v v') :
    OwnOnly fsi l [] v v' :=
  ⟨fun e _ he => by rw [F.fat, zeroFat, if_neg he], fun e _ _ => by rw [F.data], fun _ _ _ => nofun⟩

theorem Freed.ownOnly_rest {n : Nat} {r : List Nat} (F : Freed fsi (cutFat c r) n v v') :
    OwnOnly fsi (m ++ c :: r) (m ++ [c]) v v' := by
  refine ⟨fun e _ he => ?_, fun e _ _ => by rw [F.data], fun e _ he => ?_⟩
  · simp only [List.mem_append, List.mem_cons, not_or] at he
    rw [F.fat, cutFat_other he.2.1 he.2.2]
  · simp only [List.mem_append, List.mem_cons, not_or] at he ⊢
    exact ⟨he.1, he.2.1, by simp⟩

theorem DataSet.ownOnly (hg : Geometry fsi) {f : Nat → UInt8} (h : DataSet fsi c f v.disk v'.disk)
    (hr : InRange fsi c) (hc : c ∈ l) : OwnOnly fsi l l v v' := by
  have hw := h.view hg hr
  refine ⟨fun e _ _ => by rw [hw]; rfl, fun e _ he => ?_, fun _ _ he => he⟩
  rw [hw, View.setData_ne _ _ (ne_of_mem_of_not_mem hc he).symm]

theorem FvKeeps.refl (fv : Fv) : FvKeeps fv fv :=
  ⟨rfl, rfl, rfl, rfl, rfl, rfl, rfl, .inl rfl, id, .inl rfl, id, .inl rfl, id⟩

/-- A value that is kept or marked, and a mark that stays. -/
theorem marked_trans {α : Type} {x y z : α} {f g : Bool} (h : y = x ∨ f = true)
    (k : z = y ∨ g = true) (hfg : f = true → g = true) : z = x ∨ g = true := by
  rcases k with rfl | k
  · exact h.imp_right hfg
  · exact .inr k

theorem FvKeeps.trans (h : FvKeeps fv fv') (k : FvKeeps fv' fv'') : FvKeeps fv fv'' where
  vnode := k.vnode.trans h.vnode
  type := k.type.trans h.type
  diroff := k.diroff.trans h.diroff
  dirsz := k.dirsz.trans h.dirsz
  parentCluster := k.parentCluster.trans h.parentCluster
  parentVp := k.parentVp.trans h.parentVp
  root := k.root.trans h.root
  cluster := marked_trans h.cluster k.cluster k.clusterFlag
  clusterFlag := fun e => k.clusterFlag (h.clusterFlag e)
  size := marked_trans h.size k.size k.sizeFlag
  sizeFlag := fun e => k.sizeFlag (h.sizeFlag e)
  attr := marked_trans h.attr k.attr k.attrFlag
  attrFlag := fun e => k.attrFlag (h.attrFlag e)

/-- Only the cluster cache is different. -/
def CacheOnly (fv fv' : Fv) : Prop := ∃ cache, fv' = { fv with clsCache := cache }

theorem CacheOnly.refl (fv : Fv) : CacheOnly fv fv := ⟨fv.clsCache, rfl⟩

theorem CacheOnly.trans (h : CacheOnly fv fv') (k : CacheOnly fv' fv'') : CacheOnly fv fv'' := by
  obtain ⟨_, rfl⟩ := h
  obtain ⟨cache, rfl⟩ := k
  exact ⟨cache, rfl⟩

theorem CacheOnly.size (h : CacheOnly fv fv') : fv'.size = fv.size := by
  obtain ⟨_, rfl⟩ := h
  rfl

theorem CacheOnly.cluster (h : CacheOnly fv fv') : fv'.cluster = fv.cluster := by
  obtain ⟨_, rfl⟩ := h
  rfl

theorem FileStep.refl (h : Coherent fsi l s) : FileStep fsi l l s s :=
  ⟨h, .of_same (.refl _), .refl _⟩

theorem FileStep.trans (h : FileStep fsi l l' s s') (k : FileStep fsi l' l'' s' s'') :
    FileStep fsi l l'' s s'' :=
  ⟨k.coherent, h.own.trans k.own, h.fv.trans k.fv⟩

theorem Coherent.same (h : Coherent fsi l s) (hs : Same s.vol v) (hc : fv.cluster = s.fv.cluster)
    (hca : fv.clsCache = s.fv.clsCache) : Coherent fsi l ⟨v, fv⟩ := by
  obtain ⟨chain, cache⟩ := h
  constructor
  · rwa [hs.disk, hc]
  · rwa [hs.disk, hc, hca]

theorem Coherent.of_chain (hl : FatChain fsi (view fsi s.vol.disk).fat s.fv.cluster l)
    (hca : CacheOk fsi (view fsi s.vol.disk).fat s.fv.cluster s.fv.clsCache) : Coherent fsi l s :=
  ⟨.inr hl, hca⟩

/-- A step that only changes fields of the vnode. -/
theorem FileStep.of_fv (h : Coherent fsi l s) (hs : Same s.vol v) (hf : FvKeeps s.fv fv)
    (hc : fv.cluster = s.fv.cluster) (hca : fv.clsCache = s.fv.clsCache) :
    FileStep fsi l l s ⟨v, fv⟩ :=
  ⟨h.same hs hc hca, .of_same hs, hf⟩

/-- A step that changes nothing of the vnode. -/
theorem FileStep.of_fv' (h : Coherent fsi l s) (hs : Same s.vol s'.vol) (hf : s'.fv = s.fv) :
    FileStep fsi l l s s' := by
  obtain ⟨v', fv'⟩ := s'
  obtain rfl : fv' = s.fv := hf
  exact .of_fv h hs (.refl _) rfl rfl

/-! ## Running on a part of the state -/

theorem onVol_run {α : Type} {m : FsM α} {r : Out Errno α} (h : m s.vol = (r, v)) :
    onVol m s = (r, ⟨v, s.fv⟩) := on_run h

theorem onVn_run {α : Type} {m : FvM α} {t : RwSt} {r : Out Errno α} (h : m t.vn = (r, s)) :
    onVn m t = (r, ⟨s, t.uio⟩) := on_run h

@[simp] theorem modifyFv_run (f : Fv → Fv) (s : VnSt) :
    modifyFv f s = (.ok (), ⟨s.vol, f s.fv⟩) := rfl

/-! ## Pieces -/

/-- `touch` changes times, and marks them. -/
theorem touch_ok (fsi : Fsi) (atime mtime : Bool) (fv : Fv) (v : Vol) :
    ∃ fv' v', touch fsi atime mtime fv v = (.ok fv', v') ∧ Same v v' ∧
      fv' = { fv with
        atime := fv'.atime, mtime := fv'.mtime, ctime := fv'.ctime
        flags := { fv.flags with
          atime := fv'.flags.atime, mtime := fv'.flags.mtime, modified := true } } := by
  have e : nanotime fsi v = (.ok (fsi.kernel.nanotime v.io.nclock),
    { v with io := { v.io with nclock := v.io.nclock + 1 } }) := rfl
  unfold touch
  rw [bind_ok e]
  split
  · exact ⟨_, _, rfl, ⟨rfl, rfl, rfl⟩, rfl⟩
  · exact ⟨_, _, rfl, ⟨rfl, rfl, rfl⟩, rfl⟩

theorem touchFv_step (h : Coherent fsi l s) (atime mtime : Bool) :
    ∃ s', touchFv fsi atime mtime s = (.ok (), s') ∧ FileStep fsi l l s s' ∧
      Same s.vol s'.vol ∧ s'.fv.cluster = s.fv.cluster ∧ s'.fv.size = s.fv.size := by
  obtain ⟨fv', v', e, hs, hfv⟩ := touch_ok fsi atime mtime s.fv s.vol
  refine ⟨⟨v', fv'⟩, bind_ok (f := fun fv => modifyFv fun _ => fv) (onVol_run e), ?_, hs, ?_, ?_⟩
  · refine .of_fv h hs ?_ ?_ ?_ <;> rw [hfv]
    exact ⟨rfl, rfl, rfl, rfl, rfl, rfl, rfl, .inl rfl, id, .inl rfl, id, .inl rfl, id⟩
  · rw [hfv]
  · rw [hfv]

/-- A new cache entry. -/
theorem updateCache_step (h : Coherent fsi l s) (hs : Same s.vol v) {i d : Nat}
    (hd : d ≠ 0 → walk (fatNext fsi (view fsi s.vol.disk).fat) i s.fv.cluster = some d) :
    FileStep fsi l l s ⟨v, { s.fv with clsCache := updateCache s.fv.clsCache i d }⟩ := by
  refine ⟨⟨?_, ?_⟩, .of_same hs,
    ⟨rfl, rfl, rfl, rfl, rfl, rfl, rfl, .inl rfl, id, .inl rfl, id, .inl rfl, id⟩⟩
  · rw [hs.disk]; exact h.chain
  · rw [hs.disk]; exact h.cache.update hd

/-- The clusters that were there keep their bytes. -/
theorem Grown.kept {clear : Bool} (g : Grown fsi a l ext clear v v')
    (hl : FatChain fsi (view fsi v.disk).fat a l) :
    ∀ c ∈ l, (view fsi v'.disk).data c = (view fsi v.disk).data c := fun c hc =>
  g.data c (.inl fun he => hl.ne_zero c hc (g.fresh c he).2)

/-- So do all without `NC_CLEAR`. -/
theorem Grown.kept_or {clear : Bool} (g : Grown fsi a l ext clear v v')
    (hl : FatChain fsi (view fsi v.disk).fat a l) (hc : c ∈ l ∨ clear = false) :
    (view fsi v'.disk).data c = (view fsi v.disk).data c :=
  hc.elim (g.kept hl c) fun hcl => g.data c (.inr hcl)

/-- A chain that grew, with the cache of before or a new entry. -/
theorem Grown.fileStep (hg : Geometry fsi) {clear : Bool} (h : Coherent fsi l s)
    (g : Grown fsi s.fv.cluster l ext clear s.vol v)
    (hl : FatChain fsi (view fsi s.vol.disk).fat s.fv.cluster l) :
    FileStep fsi l (l ++ ext) s ⟨v, s.fv⟩ :=
  ⟨.of_chain g.chain (h.cache.append hg hl g.chain), g.ownOnly, .refl _⟩

theorem vnodeSeekCluster_step (hk : Reliable fsi.kernel) (hg : Geometry fsi) {skip : Nat}
    (hskip : skip < 2 ^ 32) (fl : NcFlags) (h : Coherent fsi l s) (hc : s.fv.cluster ≠ 0) :
    WP (vnodeSeekCluster fsi skip fl) s fun r s' => ∃ ext, FileStep fsi l (l ++ ext) s s' ∧
      CacheOnly s.fv s'.fv ∧
      (∀ c, c ∈ l ∨ fl.clear = false →
        (view fsi s'.vol.disk).data c = (view fsi s.vol.disk).data c) ∧
      ((∃ d, r = .ok d ∧ (l ++ ext)[skip]? = some d) ∨
        r = .err .enospc ∧ (l ++ ext).length ≤ skip) := by
  have hl := h.chain.of_ne hc
  obtain ⟨v, ext, g, ⟨d, e, hd⟩ | ⟨e, hlen⟩⟩ := vnodeSeekCluster_ok hk hg hskip fl hl h.cache
  · refine .of_run e ⟨ext, ?_, ⟨_, rfl⟩, fun c => g.kept_or hl, .inl ⟨d, rfl, hd⟩⟩
    have hs := g.fileStep hg h hl
    refine hs.trans (updateCache_step hs.coherent (.refl _) fun _ => ?_)
    rw [g.chain.walk_eq (fatEnds hg _), hd]
  · exact .of_run e ⟨ext, g.fileStep hg h hl, .refl _, fun c => g.kept_or hl, .inr ⟨rfl, hlen⟩⟩

/-- A seek without `NC_ALLOC`, also in a file without clusters. -/
theorem vnodeSeekCluster_step_read (hk : Reliable fsi.kernel) (hg : Geometry fsi) {skip : Nat}
    (hskip : skip < 2 ^ 32) {fl : NcFlags} (hfl : fl.alloc = false) (h : Coherent fsi l s) :
    WP (vnodeSeekCluster fsi skip fl) s fun r s' => FileStep fsi l l s s' ∧ Same s.vol s'.vol ∧
      CacheOnly s.fv s'.fv ∧
      ((∃ d, r = .ok d ∧ (l[skip]? = some d ∨ l = [] ∧ d = 0 ∧ skip = 0)) ∨
        (∃ e, r = .err e) ∧ l.length ≤ skip) := by
  by_cases hc : s.fv.cluster = 0
  · obtain rfl : l = [] := by
      rcases h.chain with h | h
      · exact h.2
      · exact absurd hc (FatChain.head_ne_zero h)
    obtain ⟨i, c, hw, hi, e⟩ := vnodeSeekCluster_eq hskip fl h.cache
    -- without links from 0 the search starts at 0
    have hi0 : i = 0 ∧ c = 0 := by
      rw [hc] at hw
      cases i with
      | zero => exact ⟨rfl, (Option.some.inj hw).symm⟩
      | succ i =>
        have h0 : fatNext fsi (view fsi s.vol.disk).fat 0 = none :=
          if_neg fun h => by have := h.1.1; omega
        rw [walk, h0] at hw
        cases hw
    obtain ⟨rfl, rfl⟩ := hi0
    cases skip with
    | zero =>
      have e0 : vnodeSeekCluster fsi 0 fl s = (.ok 0,
        ⟨s.vol, { s.fv with clsCache := updateCache s.fv.clsCache 0 0 }⟩) := e
      refine .of_run e0 ⟨?_, .refl _, ⟨_, rfl⟩, .inl ⟨0, rfl, .inr ⟨rfl, rfl, rfl⟩⟩⟩
      exact updateCache_step h (.refl _) fun h => absurd rfl h
    | succ n =>
      have e1 : seekLoop fsi fl (n + 1 - 0) 0 s.vol = (.err .einval, s.vol) := by
        rw [Nat.sub_zero, seekLoop, bind_err (nextCluster_zero_refused hfl)]
      refine .of_run (by rw [e, e1]) ⟨.refl h, .refl _, .refl _, .inr ⟨⟨_, rfl⟩, Nat.zero_le _⟩⟩
  · have hl := h.chain.of_ne hc
    obtain ⟨v, hs, ⟨d, e, hd⟩ | ⟨e, hlen⟩⟩ := vnodeSeekCluster_read hk hg hskip hfl hl h.cache
    · refine .of_run e ⟨updateCache_step h hs fun _ => ?_, hs, ⟨_, rfl⟩, .inl ⟨d, rfl, .inl hd⟩⟩
      rw [hl.walk_eq (fatEnds hg _), hd]
    · exact .of_run e ⟨.of_fv h hs (.refl _) rfl rfl, hs, .refl _, .inr ⟨⟨_, rfl⟩, hlen⟩⟩

/-- Allocating the first cluster of a vnode that has none. -/
theorem first_step (hk : Reliable fsi.kernel) (hg : Geometry fsi) {fl : NcFlags}
    (hfl : fl.alloc = true) (h : Coherent fsi l s) (g : Bool → Bool) :
    WP (do
      let s ← get
      if s.fv.cluster = 0 then do
        let cluster ← onVol (nextCluster fsi 0 fl)
        modifyFv fun fv => { fv with
          cluster := cluster
          flags := { fv.flags with cluster := true, modified := g fv.flags.modified } }
      else pure ()) s fun r s' => ∃ ext, FileStep fsi l (l ++ ext) s s' ∧
        s'.fv.size = s.fv.size ∧
        (∀ c, c ∈ l ∨ fl.clear = false →
          (view fsi s'.vol.disk).data c = (view fsi s.vol.disk).data c) ∧
        (r = .ok () ∧ s'.fv.cluster ≠ 0 ∧ (l ≠ [] → ext = []) ∨
          r = .err .enospc ∧ l ++ ext = []) := by
  refine .get_bind ?_
  by_cases hc : s.fv.cluster = 0
  · obtain rfl : l = [] := by
      rcases h.chain with h | h
      · exact h.2
      · exact absurd hc (FatChain.head_ne_zero h)
    rw [if_pos hc]
    obtain ⟨v, ⟨e, hs⟩ | ⟨r, e, A⟩⟩ := nextCluster_grown_zero hk hg hfl s.vol
    · refine .of_run (bind_err (onVol_run e)) ⟨[], ?_, rfl, fun c _ => ?_, .inr ⟨rfl, rfl⟩⟩
      · exact .of_fv h hs (.refl _) rfl rfl
      · show (view fsi v.disk).data c = _
        rw [hs.disk]
    · refine .of_run (bind_ok (onVol_run e)) ⟨[r], ⟨?_, A.grown_zero.ownOnly, ?_⟩, rfl,
        fun c hc => A.grown_zero.data c (.inr (hc.resolve_left List.not_mem_nil)),
        .inl ⟨rfl, A.grown_zero.chain.head_ne_zero, fun h => absurd rfl h⟩⟩
      · refine .of_chain A.grown_zero.chain fun e he hne => ?_
        have hca := h.cache
        rw [hc] at hca
        exact absurd (hca.dead e he) hne
      · exact ⟨rfl, rfl, rfl, rfl, rfl, rfl, rfl, .inr rfl, fun _ => rfl, .inl rfl, id, .inl rfl, id⟩
  · rw [if_neg hc]
    exact .of_run rfl ⟨[], by rw [List.append_nil]; exact .refl h, rfl, fun _ _ => rfl,
      .inl ⟨rfl, hc, fun _ => rfl⟩⟩

/-! ## Truncation -/

theorem bpc_eq (hg : Geometry fsi) : fsi.bytesPerCluster = 2 ^ fsi.clusterShift := by
  rw [hg.bpc, hg.spc, hg.clusterShift, Nat.pow_add]

/-- The clusters a file of that size needs. -/
def clustersFor (fsi : Fsi) (size : Nat) : Nat :=
  (size + fsi.bytesPerCluster - 1) / fsi.bytesPerCluster

theorem clustersFor_zero (hg : Geometry fsi) : clustersFor fsi 0 = 0 := by
  have := bpc_pos hg
  rw [clustersFor]
  exact Nat.div_eq_of_lt (by omega)

theorem neededClusters_eq (hg : Geometry fsi) {size : Nat} (hsize : size < 2 ^ 32) :
    (if size = 0 then 0
      else u32 ((size + fsi.bytesPerCluster - 1) >>> fsi.clusterShift)) = clustersFor fsi size := by
  have hb := bpc_pos hg
  split
  · subst size; rw [clustersFor_zero hg]
  · rw [Nat.shiftRight_eq_div_pow, ← bpc_eq hg, ← clustersFor]
    refine Nat.mod_eq_of_lt ?_
    rw [clustersFor, Nat.div_lt_iff_lt_mul (by omega)]
    have : 2 ^ 32 * 512 ≤ 2 ^ 32 * fsi.bytesPerCluster := Nat.mul_le_mul_left _ hb
    have : 2 ^ 23 * 512 ≤ 2 ^ 23 * fsi.bytesPerCluster := Nat.mul_le_mul_left _ hb
    omega

theorem clustersFor_le (hg : Geometry fsi) {size : Nat} (hsize : size < 2 ^ 32) :
    clustersFor fsi size ≤ 2 ^ 23 := by
  have hb := bpc_pos hg
  rw [clustersFor, Nat.div_le_iff_le_mul_add_pred (by omega)]
  have : 2 ^ 23 * 512 ≤ fsi.bytesPerCluster * 2 ^ 23 := by
    rw [Nat.mul_comm]; exact Nat.mul_le_mul_right _ hb
  omega

theorem truncateZero_step (hk : Reliable fsi.kernel) (hg : Geometry fsi)
    (hfuel : fsi.clusterCount < fsi.kernel.fuel) (h : Coherent fsi l s) :
    ∃ s', truncateZero fsi s = (.ok (), s') ∧ FileStep fsi l [] s s' ∧ s'.fv.cluster = 0 ∧
      s'.fv.size = 0 ∧ s'.fv.flags.size = true ∧ s'.fv.flags.cluster = true ∧
      (view fsi s'.vol.disk).data = (view fsi s.vol.disk).data := by
  unfold truncateZero
  rw [get_bind_run]
  by_cases hc : s.fv.cluster = 0
  · have hl : l = [] := by
      rcases h.chain with h | h
      · exact h.2
      · exact absurd hc (FatChain.head_ne_zero h)
    rw [if_neg (by rw [hc]; decide)]
    refine ⟨_, rfl, ⟨⟨.inl ⟨hc, rfl⟩, .empty⟩, ?_, ?_⟩, hc, rfl, rfl, rfl, rfl⟩
    · rw [hl]; exact .of_same (.refl _)
    · exact ⟨rfl, rfl, rfl, rfl, rfl, rfl, rfl, .inl rfl, fun _ => rfl, .inr rfl, fun _ => rfl,
        .inl rfl, id⟩
  · have hl := h.chain.of_ne hc
    obtain ⟨v, e, F⟩ := freeClusters_all hk hg hfuel hl
    rw [if_pos (hl.inRange _ hl.head_mem).1]
    refine ⟨_, bind_ok (onVol_run e), ⟨⟨.inl ⟨rfl, rfl⟩, .empty⟩, F.ownOnly_all, ?_⟩,
      rfl, rfl, rfl, rfl, F.data⟩
    exact ⟨rfl, rfl, rfl, rfl, rfl, rfl, rfl, .inr rfl, fun _ => rfl, .inr rfl, fun _ => rfl,
      .inl rfl, id⟩

/-- Freeing what follows the `n`-th cluster. -/
theorem freeExtra_step (hk : Reliable fsi.kernel) (hg : Geometry fsi)
    (hfuel : fsi.clusterCount < fsi.kernel.fuel) (h : Coherent fsi l s) {n : Nat} (hn : 0 < n)
    (hc : l[n - 1]? = some c) :
    ∃ s', freeExtra fsi n c s = (.ok (), s') ∧ FileStep fsi l (l.take n) s s' ∧
      CacheOnly s.fv s'.fv ∧ (view fsi s'.vol.disk).data = (view fsi s.vol.disk).data := by
  have hl : FatChain fsi (view fsi s.vol.disk).fat s.fv.cluster l := by
    rcases h.chain with ⟨-, rfl⟩ | h
    · cases hc
    · exact h
  obtain ⟨hi, hci⟩ := List.getElem?_eq_some_iff.mp hc
  have hn1 : n - 1 + 1 = n := by omega
  unfold freeExtra
  obtain ⟨v1, s1, ⟨d, e, hd⟩ | ⟨e, hlen⟩⟩ := nextCluster_read hk hg noAlloc hl hc
  · rw [bind_ok (attempt_ok (onVol_run e))]
    have hsplit : l = l.take (n - 1) ++ c :: l.drop n := by
      conv_lhs => rw [← List.take_append_drop (n - 1) l, List.drop_eq_getElem_cons hi, hci, hn1]
    have htake : l.take n = l.take (n - 1) ++ [c] := by
      conv_lhs => rw [← hn1, List.take_add_one, hc]
      rfl
    have hl1 : FatChain fsi (view fsi v1.disk).fat s.fv.cluster l := by rwa [s1.disk]
    obtain ⟨v2, e2, F⟩ := freeClusters_rest hk hg hfuel (Chain.split hl1 hsplit)
    have hd' := (hl.inRange d (List.mem_of_getElem? hd)).loops hg
    refine ⟨⟨v2, { s.fv with clsCache := dropCache s.fv.clsCache n }⟩, ?_, ⟨?_, ?_, ?_⟩, ⟨_, rfl⟩, ?_⟩
    · simp only [if_pos hd']
      rw [bind_ok (onVol_run e2)]
      rfl
    · have hl2 : FatChain fsi (view fsi v2.disk).fat s.fv.cluster (l.take n) := by
        rw [F.fat, htake]
        rw [hsplit] at hl1
        exact FatChain.cut hg hl1
      exact .of_chain hl2 (h.cache.drop hg hl hl2)
    · rw [htake]
      refine (OwnOnly.of_same s1).trans ?_
      conv => arg 2; rw [hsplit]
      exact F.ownOnly_rest
    · exact ⟨rfl, rfl, rfl, rfl, rfl, rfl, rfl, .inl rfl, id, .inl rfl, id, .inl rfl, id⟩
    · rw [← s1.disk]
      exact F.data
  · rw [bind_ok (attempt_err (onVol_run e))]
    refine ⟨⟨v1, s.fv⟩, rfl, ?_, .refl _, ?_⟩
    · rw [List.take_of_length_le (by omega)]
      exact .of_fv h s1 (.refl _) rfl rfl
    · show (view fsi v1.disk).data = _
      rw [s1.disk]

/-- A prefix of a longer list is a prefix of the list, or longer than it. -/
theorem take_append_or (l k : List Nat) (n : Nat) :
    (l ++ k).take n = l.take n ∨ ∃ ext, (l ++ k).take n = l ++ ext := by
  by_cases hn : n ≤ l.length
  · exact .inl (List.take_append_of_le_length hn)
  · refine .inr ⟨k.take (n - l.length), ?_⟩
    rw [List.take_append, List.take_of_length_le (by omega)]

/-- `truncate` makes the chain one of `k` clusters, by allocating and freeing at its
end, and clears nothing in a file; with too little space it ends half done. -/
theorem truncate_to (hk : Reliable fsi.kernel) (hg : Geometry fsi)
    (hfuel : fsi.clusterCount < fsi.kernel.fuel) (h : Coherent fsi l s) {size k : Nat}
    (hkk : (if size = 0 then 0
      else u32 ((size + fsi.bytesPerCluster - 1) >>> fsi.clusterShift)) = k) :
    WP (truncate fsi size) s fun r s' => ∃ ext,
      (r = .ok () ∧ FileStep fsi l ((l ++ ext).take k) s s' ∧ k ≤ (l ++ ext).length ∧
          s'.fv.size = (if k = 0 ∨ s.fv.type = .vdir then 0 else size) ∧
          s'.fv.flags.size = true ∧ (s.fv.type ≠ .vdir → (view fsi s'.vol.disk).data =
            (view fsi s.vol.disk).data)) ∨
        r = .err .enospc ∧ FileStep fsi l (l ++ ext) s s' ∧ s'.fv.size = s.fv.size := by
  have hlt : k - 1 < 2 ^ 32 := by
    rw [← hkk]
    simp only [u32]
    split <;> omega
  unfold truncate
  rw [hkk]
  by_cases h0 : k = 0
  · simp only [h0, if_pos]
    obtain ⟨s', e, st, -, hsz, hfl, -, hdata⟩ := truncateZero_step hk hg hfuel h
    refine .of_run e ⟨[], .inl ⟨rfl, ?_, Nat.zero_le _, ?_, hfl, fun _ => hdata⟩⟩
    · rwa [List.take_zero]
    · rw [hsz, if_pos (.inl trivial)]
  · simp only [if_neg h0]
    have hcl (hty : s.fv.type ≠ .vdir) : (decide (s.fv.type = .vdir)) = false := decide_eq_false hty
    refine .get_bind (.bind (first_step hk hg rfl h fun _ => true) ?_ ?_ ?_)
    · rintro _ s1 ⟨ext1, st1, sz1, data1, ⟨-, hc1, hext1⟩ | ⟨he, -⟩⟩
      · refine .bind (vnodeSeekCluster_step hk hg hlt _ st1.coherent hc1) ?_ ?_ ?_
        · rintro c s2 ⟨ext2, st2, fv2, data2, ⟨d, hd, hdi⟩ | ⟨he, -⟩⟩
          · obtain rfl := Out.ok.inj hd
            obtain ⟨s3, e3, st3, fv3, data3⟩ :=
              freeExtra_step hk hg hfuel st2.coherent (Nat.pos_of_ne_zero h0) hdi
            have hlen := (List.getElem?_eq_some_iff.mp hdi).1
            have st := (st1.trans st2).trans st3
            have hty : s3.fv.type = s.fv.type := st.fv.type
            rw [List.append_assoc] at st hlen
            refine .of_run (bind_ok e3) ⟨ext1 ++ ext2, .inl ⟨rfl, st.trans (.of_fv
              st.coherent (.refl _) ?_ rfl rfl), by omega, ?_, rfl, fun hdir => ?_⟩⟩
            · exact ⟨rfl, rfl, rfl, rfl, rfl, rfl, rfl, .inl rfl, id, .inr rfl, fun _ => rfl,
                .inl rfl, id⟩
            · simp only [hty, h0, false_or]
            · refine data3.trans (funext fun c => ?_)
              rw [data2 c (.inr (hcl hdir)), data1 c (.inr (hcl hdir))]
          · cases he
        · rintro e s2 ⟨ext2, st2, fv2, -, ⟨d, hd, -⟩ | ⟨he, -⟩⟩
          · cases hd
          · cases he
            refine ⟨ext1 ++ ext2, .inr ⟨rfl, ?_, ?_⟩⟩
            · rw [← List.append_assoc]
              exact st1.trans st2
            · rw [fv2.size]
              exact sz1
        · rintro s2 ⟨ext2, st2, fv2, -, ⟨d, hd, -⟩ | ⟨he, -⟩⟩
          · cases hd
          · cases he
      · cases he
    · rintro e s1 ⟨ext1, st1, sz1, -, ⟨he, -⟩ | ⟨he, hnil⟩⟩
      · cases he
      · cases he
        exact ⟨ext1, .inr ⟨rfl, st1, sz1⟩⟩
    · rintro s1 ⟨ext1, st1, sz1, -, ⟨he, -⟩ | ⟨he, hnil⟩⟩
      · cases he
      · cases he

theorem clustersFor_eq_zero (hg : Geometry fsi) {size : Nat} :
    clustersFor fsi size = 0 ↔ size = 0 := by
  constructor
  · intro h0
    have hb := bpc_pos hg
    rw [clustersFor, Nat.div_eq_zero_iff_lt (by omega)] at h0
    omega
  · rintro rfl
    exact clustersFor_zero hg

theorem truncate_step (hk : Reliable fsi.kernel) (hg : Geometry fsi)
    (hfuel : fsi.clusterCount < fsi.kernel.fuel) (h : Coherent fsi l s) {size : Nat}
    (hsize : size < 2 ^ 32) :
    WP (truncate fsi size) s fun r s' => ∃ l', FileStep fsi l l' s s' ∧
      (r = .ok () ∧ l'.length = clustersFor fsi size ∧
          (l' = l.take (clustersFor fsi size) ∨ ∃ ext, l' = l ++ ext) ∧
          s'.fv.size = (if s.fv.type = .vdir then 0 else size) ∧ s'.fv.flags.size = true ∨
        r = .err .enospc ∧ (∃ ext, l' = l ++ ext) ∧ s'.fv.size = s.fv.size) := by
  refine (truncate_to hk hg hfuel h (neededClusters_eq hg hsize)).mono fun r s' hr => ?_
  obtain ⟨ext, ⟨hok, st, hle, hsz, hfl, -⟩ | ⟨he, st, hsz⟩⟩ := hr
  · refine ⟨_, st, .inl ⟨hok, List.length_take_of_le hle, take_append_or _ _ _, ?_, hfl⟩⟩
    simp only [hsz, clustersFor_eq_zero hg]
    by_cases hz : size = 0
    · rw [hz, ite_self, ite_self]
    · simp only [hz, false_or]
  · exact ⟨_, st, .inr ⟨he, ⟨ext, rfl⟩, hsz⟩⟩

end Fat32
