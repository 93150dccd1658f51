import Mathlib
import Fat32.Proof.File
import Fat32.Proof.Ownership

/-!
# Exact truncation

`Resized fsi l l' v v'`: the clusters `l` of a file became `l'`, what is new was
free, what is left out is free, and no other entry of the FAT is different. Each
step of `truncate` is a `ResizeStep`, which also leaves a good FAT; the number of
free clusters follows (`Resized.count`).
-/

namespace Fat32

open Bytes Exec Prog Linked

structure Resized (fsi : Fsi) (l l' : List Nat) (v v' : Vol) : Prop where
  fresh : ∀ c ∈ l', c ∉ l → (view fsi v.disk).fat c = 0
  freed : ∀ c ∈ l, c ∉ l' → (view fsi v'.disk).fat c = 0
  same : ∀ e, e ∉ l → e ∉ l' → (view fsi v'.disk).fat e = (view fsi v.disk).fat e

/-- A coherent vnode on a good FAT, which has its chain. -/
structure OnGood (fsi : Fsi) (l : List Nat) (s : VnSt) : Prop where
  coherent : Coherent fsi l s
  good : ∃ H, Good fsi H s.vol ∧ (s.fv.cluster = 0 ∨ s.fv.cluster ∈ H)

structure ResizeStep (fsi : Fsi) (l l' : List Nat) (s s' : VnSt) : Prop where
  next : OnGood fsi l' s'
  resized : Resized fsi l l' s.vol s'.vol
  type : s'.fv.type = s.fv.type

variable {fsi : Fsi} {l l' l'' m ext : List Nat} {v v' v'' : Vol} {s s' s'' : VnSt} {a c n : Nat}

/-! ## Resizing -/

theorem Resized.of_same (h : Same v v') : Resized fsi l l v v' := by
  refine ⟨fun c hc hn => absurd hc hn, fun c hc hn => absurd hc hn, fun e _ _ => ?_⟩
  rw [h.disk]

theorem Resized.trans (h : Resized fsi l l' v v') (k : Resized fsi l' l'' v' v'') :
    Resized fsi l l'' v v'' := by
  refine ⟨fun c hc hn => ?_, fun c hc hn => ?_, fun e he he'' => ?_⟩
  · by_cases hc' : c ∈ l'
    · exact h.fresh c hc' hn
    · rw [← h.same c hn hc']
      exact k.fresh c hc hc'
  · by_cases hc' : c ∈ l'
    · exact k.freed c hc' hn
    · rw [k.same c hc' hn]
      exact h.freed c hc hc'
  · by_cases he' : e ∈ l'
    · -- a cluster that came and went
      rw [k.freed e he' he'', h.fresh e he' he]
    · rw [k.same e he' he'', h.same e he he']

theorem Grown.resized {clear : Bool} (g : Grown fsi a l ext clear v v') :
    Resized fsi l (l ++ ext) v v' := by
  refine ⟨fun c hc hn => ?_, fun c hc hn => ?_, fun e he he' => ?_⟩
  · exact (g.fresh c ((List.mem_append.mp hc).resolve_left hn)).2
  · exact absurd (List.mem_append_left _ hc) hn
  · exact g.fat e he fun h => he' (List.mem_append_right _ h)

theorem Freed.resized_all (F : Freed fsi (zeroFat l) n v v') : Resized fsi l [] v v' := by
  refine ⟨nofun, fun c hc _ => ?_, fun e he _ => ?_⟩
  · rw [F.fat, zeroFat, if_pos hc]
  · rw [F.fat, zeroFat, if_neg he]

theorem Freed.resized_rest {r : List Nat} (F : Freed fsi (cutFat c r) n v v') :
    Resized fsi (m ++ c :: r) (m ++ [c]) v v' := by
  refine ⟨fun e he hn => ?_, fun e he hn => ?_, fun e he _ => ?_⟩
  · simp only [List.mem_append, List.mem_cons, not_or] at he hn
    rcases he with he | he | he
    · exact absurd he hn.1
    · exact absurd he hn.2.1
    · exact absurd he List.not_mem_nil
  · simp only [List.mem_append, List.mem_cons, not_or] at he hn
    have her : e ∈ r := (he.resolve_left hn.1).resolve_left hn.2.1
    rw [F.fat, cutFat, zeroFat, if_pos her]
  · simp only [List.mem_append, List.mem_cons, not_or] at he
    rw [F.fat, cutFat_other he.2.1 he.2.2]

/-- The clusters that the file gave or took are those that became or were free. -/
theorem Resized.count (h : Resized fsi l l' v v') (hl : l.Nodup) (hl' : l'.Nodup)
    (hr : ∀ c ∈ l, InRange fsi c ∧ (view fsi v.disk).fat c ≠ 0)
    (hr' : ∀ c ∈ l', InRange fsi c ∧ (view fsi v'.disk).fat c ≠ 0) :
    freeEntries fsi (view fsi v'.disk).fat + l'.length =
      freeEntries fsi (view fsi v.disk).fat + l.length := by
  -- the clusters of the file become free, before and after
  rw [← freeEntries_zero hl' hr', ← freeEntries_zero hl hr]
  refine freeEntries_congr fun b hb => ?_
  rw [zeroFat, zeroFat]
  by_cases hbl : b ∈ l <;> by_cases hbl' : b ∈ l'
  · rw [if_pos hbl, if_pos hbl']
  · rw [if_pos hbl, if_neg hbl', h.freed b hbl hbl']
  · rw [if_neg hbl, if_pos hbl', h.fresh b hbl' hbl]
  · rw [if_neg hbl, if_neg hbl', h.same b hbl hbl']

theorem ResizeStep.trans (h : ResizeStep fsi l l' s s') (k : ResizeStep fsi l' l'' s' s'') :
    ResizeStep fsi l l'' s s'' :=
  ⟨k.next, h.resized.trans k.resized, k.type.trans h.type⟩

theorem ResizeStep.refl (h : OnGood fsi l s) : ResizeStep fsi l l s s :=
  ⟨h, .of_same (.refl _), rfl⟩

/-! ## The steps -/

/-- A file without clusters or with the first one of a chain. -/
theorem Coherent.nil_of_zero (h : Coherent fsi l s) (hc : s.fv.cluster = 0) : l = [] := by
  rcases h.chain with h | h
  · exact h.2
  · exact absurd hc (FatChain.head_ne_zero h)

theorem firstCluster_resize (hk : Reliable fsi.kernel) (hg : Geometry fsi) {fl : NcFlags}
    (hfl : fl.alloc = true) (h : OnGood fsi l s) :
    WP (firstCluster fsi fl) s fun r s' => r = .ok () → ∃ ext, ResizeStep fsi l (l ++ ext) s s' ∧
      s'.fv.cluster ≠ 0 := by
  refine .get_bind (.ite (fun hc => ?_) fun hc => ?_)
  · obtain rfl := h.coherent.nil_of_zero hc
    obtain ⟨H, G, -⟩ := h.good
    have hn : nextCluster fsi 0 fl s.vol = allocateCluster fsi 0 fl s.vol := nextCluster_zero hfl
    obtain ⟨v, ⟨e, -⟩ | ⟨r, e, A⟩⟩ := allocateCluster_ok hk hg (v := s.vol) (.inl rfl) fl
    · exact .of_run (bind_err (onVol_run (hn.trans e))) nofun
    · have G' : Good fsi (insert r H) v :=
        G.allocated hg A (.inl rfl) (G.owned.alloc hg A.inRange A.free)
      have hdead := h.coherent.cache
      rw [hc] at hdead
      refine .of_run (bind_ok (onVol_run (hn.trans e))) fun _ => ⟨[r], ⟨⟨?_, insert r H, G', ?_⟩,
        A.grown_zero.resized, rfl⟩, A.grown_zero.chain.head_ne_zero⟩
      · exact .of_chain A.grown_zero.chain fun e he hne => absurd (hdead.dead e he) hne
      · exact .inr (Finset.mem_insert_self _ _)
  · refine .of_run rfl fun _ => ⟨[], ?_, hc⟩
    rw [List.append_nil]
    exact .refl h

theorem vnodeSeekCluster_resize (hk : Reliable fsi.kernel) (hg : Geometry fsi) {skip : Nat}
    (hskip : skip < 2 ^ 32) (fl : NcFlags) (h : OnGood fsi l s) (hc : s.fv.cluster ≠ 0) :
    WP (vnodeSeekCluster fsi skip fl) s fun r s' => ∀ d, r = .ok d →
      ∃ ext, ResizeStep fsi l (l ++ ext) s s' ∧ (l ++ ext)[skip]? = some d := by
  obtain ⟨hco, H, G, hH⟩ := h
  have hl := hco.chain.of_ne hc
  obtain ⟨i, b, hw, hi, e⟩ := vnodeSeekCluster_eq hskip fl hco.cache
  rw [hl.walk_eq (fatEnds hg _)] at hw
  have hb : OnChain fsi H s.vol b :=
    ⟨_, hH.resolve_left hc, l, hl, List.mem_of_getElem? hw⟩
  have hgood := (seekLoop_good hk hg fl (skip - i) G hb).1
  obtain ⟨v, ext, g, ⟨d, hd, hdi⟩ | ⟨he, -⟩⟩ := seekLoop_grown hk hg fl (skip - i) hl hw
  · rw [hd] at e hgood
    rw [Nat.add_sub_cancel' hi] at hdi
    refine .of_run e fun d' hd' => ⟨ext, ⟨⟨?_, H, hgood, hH⟩, g.resized, rfl⟩, ?_⟩
    · refine .of_chain g.chain ((hco.cache.append hg hl g.chain).update fun _ => ?_)
      rw [g.chain.walk_eq (fatEnds hg _), hdi]
    · rw [hdi, Out.ok.inj hd']
  · rw [he] at e
    exact .of_run e nofun

theorem freeExtra_resize (hk : Reliable fsi.kernel) (hg : Geometry fsi)
    (hfuel : fsi.clusterCount < fsi.kernel.fuel) (h : OnGood fsi l s) (hn : 0 < n)
    (hc : l[n - 1]? = some c) :
    WP (freeExtra fsi n c) s fun _ s' => ResizeStep fsi l (l.take n) s s' := by
  obtain ⟨hco, H, G, hH⟩ := h
  obtain ⟨s', erun, st, hcache, -⟩ := freeExtra_step hk hg hfuel hco hn hc
  have hcl : c ∈ l := List.mem_of_getElem? hc
  have hne : s.fv.cluster ≠ 0 := by
    intro hz
    rw [hco.nil_of_zero hz] at hcl
    exact List.not_mem_nil hcl
  have hl := hco.chain.of_ne hne
  obtain ⟨hi, hci⟩ := List.getElem?_eq_some_iff.mp hc
  have hn1 : n - 1 + 1 = n := by omega
  -- what the run did to the volume
  have hvol : Good fsi H s'.vol ∧ Resized fsi l (l.take n) s.vol s'.vol := by
    unfold freeExtra at erun
    obtain ⟨v1, s1, ⟨d, e, hd⟩ | ⟨e, hlen⟩⟩ := nextCluster_read hk hg noAlloc hl hc
    · rw [bind_ok (attempt_ok (onVol_run e))] at erun
      have hsplit : l = l.take (n - 1) ++ c :: l.drop n := by
        conv_lhs => rw [← List.take_append_drop (n - 1) l, List.drop_eq_getElem_cons hi, hci, hn1]
      have htake : l.take n = l.take (n - 1) ++ [c] := by
        conv_lhs => rw [← hn1, List.take_add_one, hc]
        rfl
      have hl1 : FatChain fsi (view fsi v1.disk).fat s.fv.cluster l := by rwa [s1.disk]
      obtain ⟨v2, e2, F⟩ := freeClusters_rest hk hg hfuel (Chain.split hl1 hsplit)
      obtain ⟨v3, e3, G3⟩ := freeClusters_good_rest hk hg hfuel (G.same s1)
        ⟨_, hH.resolve_left hne, l, hl1, hcl⟩
      obtain rfl : v3 = v2 := congrArg Prod.snd (e3.symm.trans e2)
      have hd' := (hl.inRange d (List.mem_of_getElem? hd)).loops hg
      simp only [if_pos hd'] at erun
      rw [bind_ok (onVol_run e2)] at erun
      obtain rfl := (Prod.mk.inj erun).2
      refine ⟨G3, (Resized.of_same s1).trans ?_⟩
      rw [htake]
      conv => arg 2; rw [hsplit]
      exact F.resized_rest
    · rw [bind_ok (attempt_err (onVol_run e))] at erun
      obtain rfl := (Prod.mk.inj erun).2
      refine ⟨G.same s1, ?_⟩
      rw [List.take_of_length_le (by omega)]
      exact .of_same s1
  refine .of_run erun ⟨⟨st.coherent, H, hvol.1, ?_⟩, hvol.2, st.fv.type⟩
  rw [hcache.cluster]
  exact hH

theorem truncateZero_resize (hk : Reliable fsi.kernel) (hg : Geometry fsi)
    (hfuel : fsi.clusterCount < fsi.kernel.fuel) (h : OnGood fsi l s) :
    WP (truncateZero fsi) s fun _ s' => ResizeStep fsi l [] s s' ∧ s'.fv.size = 0 := by
  obtain ⟨hco, H, G, hH⟩ := h
  refine .get_bind ?_
  by_cases hc : s.fv.cluster = 0
  · obtain rfl := hco.nil_of_zero hc
    rw [if_neg (by rw [hc]; decide)]
    exact .of_run rfl ⟨⟨⟨⟨.inl ⟨hc, rfl⟩, .empty⟩, H, G, .inl hc⟩, .of_same (.refl _), rfl⟩, rfl⟩
  · have hl := hco.chain.of_ne hc
    obtain ⟨v1, e1, F⟩ := freeClusters_all hk hg hfuel hl
    obtain ⟨v2, e2, G2⟩ := freeClusters_good_all hk hg hfuel G (hH.resolve_left hc)
    obtain rfl : v2 = v1 := congrArg Prod.snd (e2.symm.trans e1)
    rw [if_pos (hl.inRange _ hl.head_mem).1]
    exact .of_run (bind_ok (onVol_run e1)) ⟨⟨⟨⟨.inl ⟨rfl, rfl⟩, .empty⟩, _, G2, .inl rfl⟩,
      F.resized_all, rfl⟩, rfl⟩

/-- The steps together, for a regular file. -/
theorem truncate_resize (hk : Reliable fsi.kernel) (hg : Geometry fsi)
    (hfuel : fsi.clusterCount < fsi.kernel.fuel) (h : OnGood fsi l s) (hreg : s.fv.type = .vreg)
    {size : Nat} (hsize : size < 2 ^ 32) :
    WP (truncate fsi size) s fun r s' => r = .ok () → ∃ ext,
      ResizeStep fsi l ((l ++ ext).take (clustersFor fsi size)) s s' ∧
      clustersFor fsi size ≤ (l ++ ext).length ∧ s'.fv.size = size := by
  unfold truncate
  rw [neededClusters_eq hg hsize]
  by_cases h0 : clustersFor fsi size = 0
  · simp only [h0, if_pos]
    refine (truncateZero_resize hk hg hfuel h).mono fun r s' hs _ => ⟨[], ?_, Nat.zero_le _, ?_⟩
    · rw [List.take_zero]
      exact hs.1
    · rw [hs.2, (clustersFor_eq_zero hg).mp h0]
  · have hn : 0 < clustersFor fsi size := Nat.pos_of_ne_zero h0
    have hlt : clustersFor fsi size - 1 < 2 ^ 32 := by have := clustersFor_le hg hsize; omega
    simp only [if_neg h0]
    refine .get_bind (.bind (firstCluster_resize hk hg rfl h) (fun _ s1 h1 => ?_)
      (fun _ _ _ => nofun) fun _ _ => nofun)
    obtain ⟨ext1, st1, hc1⟩ := h1 rfl
    refine .bind (vnodeSeekCluster_resize hk hg hlt _ st1.next hc1) (fun c s2 h2 => ?_)
      (fun _ _ _ => nofun) fun _ _ => nofun
    obtain ⟨ext2, st2, hci⟩ := h2 c rfl
    refine .bind (freeExtra_resize hk hg hfuel st2.next hn hci) (fun _ s3 st3 => ?_)
      (fun _ _ _ => nofun) fun _ _ => nofun
    have st := (st1.trans st2).trans st3
    have hlen := (List.getElem?_eq_some_iff.mp hci).1
    rw [List.append_assoc] at st hlen
    refine .of_run rfl fun _ => ⟨ext1 ++ ext2, ⟨⟨⟨?_, ?_⟩, ?_⟩, st.resized, st.type⟩, by omega, ?_⟩
    · exact st.next.coherent.chain
    · exact st.next.coherent.cache
    · exact st.next.good
    · show (if s3.fv.type = .vdir then 0 else size) = size
      rw [st.type, hreg]
      rfl

/-! ## The result -/

/-- The clusters `l` and the size of a file before and after `fat32_truncate` to `size`;
`k` is the number of clusters that size takes. -/
structure Truncated (fsi : Fsi) (l l' : List Nat) (k size : Nat) (s s' : VnSt) : Prop where
  chain : FileChain fsi (view fsi s'.vol.disk).fat s'.fv.cluster l'
  length : l'.length = k
  zero : k = 0 → s'.fv.cluster = 0
  kept : l'.take (min k l.length) = l.take (min k l.length)
  fresh : ∀ c ∈ l'.drop l.length, InRange fsi c ∧ (view fsi s.vol.disk).fat c = 0
  freed : ∀ c ∈ l.drop k, (view fsi s'.vol.disk).fat c = 0
  same : ∀ e, e ∉ l → e ∉ l' → (view fsi s'.vol.disk).fat e = (view fsi s.vol.disk).fat e
  good : ∃ H, Good fsi H s'.vol
  count : s'.vol.freeCount + k = s.vol.freeCount + l.length
  size : s'.fv.size = size
  cache : ∀ e ∈ s'.fv.clsCache, e.cluster ≠ 0 → e.index < k

theorem FileChain.nodup (hg : Geometry fsi) {fat : Nat → Nat} (h : FileChain fsi fat c l) :
    l.Nodup := by
  rcases h with ⟨-, rfl⟩ | h
  · exact List.nodup_nil
  · exact Chain.nodup (fatEnds hg fat) h

theorem FileChain.inRange {fat : Nat → Nat} (h : FileChain fsi fat c l) :
    ∀ e ∈ l, InRange fsi e := by
  rcases h with ⟨-, rfl⟩ | h
  · exact nofun
  · exact FatChain.inRange h

/-- A live cache entry is at an index of the chain. -/
theorem Coherent.index_lt (hg : Geometry fsi) (h : Coherent fsi l s) {e : ClsCacheEntry}
    (he : e ∈ s.fv.clsCache) (hne : e.cluster ≠ 0) : e.index < l.length := by
  have hca := h.cache
  rcases h.chain with ⟨hz, -⟩ | hl
  · rw [hz] at hca
    exact absurd (hca.dead e he) hne
  · have hw := hca e he hne
    rw [hl.walk_eq (fatEnds hg _)] at hw
    exact (List.getElem?_eq_some_iff.mp hw).1

/-- `fat32_truncate` is exact. -/
theorem truncate_exact (hk : Reliable fsi.kernel) (hg : Geometry fsi)
    (hfuel : fsi.clusterCount < fsi.kernel.fuel) (h : OnGood fsi l s) (hreg : s.fv.type = .vreg)
    {size : Nat} (hsize : size < 2 ^ 32) :
    WP (truncate fsi size) s fun r s' => r = .ok () →
      ∃ l', Truncated fsi l l' (clustersFor fsi size) size s s' := by
  refine (truncate_resize hk hg hfuel h hreg hsize).mono fun r s' hs hr => ?_
  obtain ⟨ext, st, hle, hsz⟩ := hs hr
  generalize clustersFor fsi size = k at st hle
  have hco := st.next.coherent
  have hnd := hco.chain.nodup hg
  have hlen : ((l ++ ext).take k).length = k := List.length_take_of_le hle
  obtain ⟨H, G, -⟩ := h.good
  obtain ⟨H', G', -⟩ := st.next.good
  have hcount := st.resized.count (h.coherent.chain.nodup hg) hnd
    (fun c hc => ⟨h.coherent.chain.inRange c hc, h.coherent.chain.ne_zero c hc⟩)
    (fun c hc => ⟨hco.chain.inRange c hc, hco.chain.ne_zero c hc⟩)
  refine ⟨_, hco.chain, hlen, fun hk0 => ?_, ?_, fun c hc => ?_, fun c hc => ?_, st.resized.same,
    ⟨H', G'⟩, ?_, hsz, fun e he hne => ?_⟩
  · have hchain := hco.chain
    rw [hk0, List.take_zero] at hchain
    exact hchain.elim And.left fun h => absurd rfl h.ne_nil
  · rw [List.take_take, Nat.min_eq_left (Nat.min_le_left k _)]
    exact List.take_append_of_le_length (Nat.min_le_right k _)
  · have hmem := List.mem_of_mem_drop hc
    refine ⟨hco.chain.inRange c hmem, st.resized.fresh c hmem fun hcl => ?_⟩
    -- the clusters before are the first ones of the result
    have hkl : l.length ≤ k := by
      by_contra hlt
      rw [List.drop_of_length_le (by omega)] at hc
      exact List.not_mem_nil hc
    have htake : ((l ++ ext).take k).take l.length = l := by
      rw [List.take_take, Nat.min_eq_left hkl, List.take_left']
      rfl
    rw [← List.take_append_drop l.length ((l ++ ext).take k), htake] at hnd
    exact (List.nodup_append.mp hnd).2.2 c hcl c hc rfl
  · refine st.resized.freed c (List.mem_of_mem_drop hc) fun hcl => ?_
    have hkl : k < l.length := by
      by_contra hlt
      rw [List.drop_of_length_le (by omega)] at hc
      exact List.not_mem_nil hc
    rw [List.take_append_of_le_length (Nat.le_of_lt hkl)] at hcl
    have hndl := h.coherent.chain.nodup hg
    rw [← List.take_append_drop k l] at hndl
    exact (List.nodup_append.mp hndl).2.2 c hcl c hc rfl
  · rw [hlen] at hcount
    rw [G'.count, G.count]
    exact hcount
  · have hidx := hco.index_lt hg he hne
    rwa [hlen] at hidx

/-- A file of one cluster on the volume of two. -/
def oneCluster : VnSt := ⟨twoClustersVol, { cluster := 2, type := .vreg, size := 512 }⟩

theorem oneCluster_onGood : OnGood twoClusters [2] oneCluster := by
  have hf : fatFin twoClusters (view twoClusters twoClustersVol.disk).fat 2 := by
    constructor <;> decide
  exact ⟨.of_chain (.last hf) .empty, {2}, twoClusters_good, .inr (by decide)⟩

theorem truncate_exact_grow : ∃ l', Truncated twoClusters [2] l' 2 600 oneCluster
    (truncate twoClusters 600 oneCluster).2 := by
  have h := truncate_exact ⟨fun _ => rfl⟩ twoClusters_geometry (by decide) oneCluster_onGood rfl
    (show 600 < 2 ^ 32 by decide)
  unfold WP at h
  exact h (by decide +kernel)

end Fat32
