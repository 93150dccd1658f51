import Mathlib
import Fat32.Proof.Entry

/-!
# Opening a vnode

`fat32_lookup` fills a vnode from an entry, and `fat32_create` from one that it found or writes. In both cases the
vnode has the place of the entry, and `fat32_make_vnode` has cleared its flags (`makeEntryVnode_opens`,
`createNew_opens`).
-/

namespace Fat32

open Bytes Exec Prog Linked FirstFit

variable {fsi : Fsi} {cs l : List Nat} {u s t : Sys} {d i k p dir : Nat} {name nm : List UInt8} {fv fv' dfv w : Fv} {e : Slot}
  {v v' : Vol}

/-! ## The directory -/

/-- The directory at `dir` can be listed. The chains of its files are not its own, and no entry of it leads to the
root. -/
structure DirAt (fsi : Fsi) (cs : List Nat) (dir : Nat) (dfv : Fv) (u : Sys) : Prop where
  vnode : DirVnode fsi cs u dir dfv
  self : dfv.vnode = some dir
  chain : FatChain fsi (view fsi u.vol.disk).fat dfv.cluster cs
  file : ∀ z ∈ listed fsi (volSlots fsi cs u.vol), z.1.attr &&& attrDirectory = 0 →
    ∃ l, FileChain fsi (view fsi u.vol.disk).fat z.1.firstCluster l ∧ cs.Disjoint l
  notRoot : ∀ z ∈ listed fsi (volSlots fsi cs u.vol), z.1.attr &&& attrDirectory ≠ 0 →
    z.1.firstCluster ≠ fsi.rootCluster

/-- An enumerated entry is a slot, and a vnode filled from it has its place. -/
theorem listed_slot (hl : Listable fsi cs) {z : Slot × Scan} (hz : z ∈ listed fsi (volSlots fsi cs v)) (d : Nat) (fv : Fv) :
    ∃ i, (volSlots fsi cs v)[i]? = some z.1 ∧ (fillEntry d z.1 z.2 fv).targetOffset = 32 * i := by
  have hbytes := hl.volSlots_bytes v
  obtain ⟨i, hi, hoff, hp⟩ := entries_placed (i := 0) rfl (by omega) ⟨Nat.dvd_zero _, show 0 < 2 ^ 32 by decide⟩ hz
  rw [Nat.zero_add] at hoff
  have hlt := (List.getElem?_eq_some_iff.mp hi).1
  exact ⟨i, hi, fillEntry_targetOffset hoff (by omega) hp _ _ _⟩

theorem Slot.firstCluster_lt (e : Slot) : e.firstCluster < 2 ^ 32 := by
  have hhi : e.firstClusterHi < 2 ^ 16 := le16_lt _ _
  have hlo : e.firstClusterLo < 2 ^ 16 := le16_lt _ _
  rw [Slot.firstCluster]
  omega

/-! ## Vnodes of entries -/

/-- The entry has the value of the field. -/
def Field.Holds : Field → Fv → Slot → Prop
  | size, fv, e => e.fileSize = fv.size
  | cluster, fv, e => e.firstCluster = fv.cluster
  | attr, fv, e => e.attr = fv.attr

theorem Field.holds_fillEntry (f : Field) (d : Nat) (e : Slot) (st : Scan) (fv : Fv) : f.Holds (fillEntry d e st fv) e := by
  cases f <;> rfl

/-- A live vnode with the place of a slot is open. -/
theorem OpenAt.of_place (hg : Geometry fsi) (hl : FatChain fsi (view fsi t.vol.disk).fat d cs) (hp : t.vnodes p = some fv)
    (hoff : fv.targetOffset = 32 * i) (hi : i < (volSlots fsi cs t.vol).length) (hpc : fv.parentCluster = d)
    (hroot : fv.flags.root = false) (hfile : OwnsFile fsi cs ⟨t.vol, fv⟩)
    (hparent : ∀ q, fv.parentVp = some q → ∃ parent, t.vnodes q = some parent) : OpenAt fsi cs i p fv t := by
  refine ⟨hp, ⟨?_, hoff, hi, hroot, ?_⟩, hfile, hparent⟩
  · rw [Fv.dirCluster, hpc, if_neg (FatChain.head_ne_zero hl)]
    exact hl
  · rw [hpc]
    exact (hl.inRange _ hl.head_mem).ne_bad hg

/-- A vnode that `fat32_make_vnode` made from `fv`, in the directory at `dir` with the first cluster `d`. -/
structure MadeFrom (dir d : Nat) (fv fv' : Fv) : Prop where
  parentVp : fv'.parentVp = some dir
  parentCluster : fv'.parentCluster = d
  root : fv'.flags.root = false
  offset : fv'.targetOffset = fv.targetOffset
  type : fv'.type = fv.type
  attr : fv'.attr = fv.attr
  size : fv'.size = fv.size
  cluster : fv'.cluster = fv.cluster
  cache : fv'.clsCache = fv.clsCache

theorem MadeFrom.of_makeVnode {c : Nat} {type : Vtype} (hroot : ¬ (c = fsi.rootCluster ∧ type = .vdir))
    (h : makeVnode fsi c type fv (some (dir, d)) v = (.ok fv', v')) :
    MadeFrom dir d { fv with cluster := c, type := type } fv' := by
  obtain ⟨vp, mode, rfl⟩ := makeVnode_made h
  rw [if_neg hroot]
  exact ⟨rfl, rfl, rfl, rfl, rfl, rfl, rfl, rfl, rfl⟩

/-- Setting the times leaves the rest. -/
theorem MadeFrom.touched (m : MadeFrom dir d fv fv') (now : Timespec) : MadeFrom dir d fv { fv' with
    ctime := now
    mtime := now
    atime := now
    flags := { fv'.flags with mtime := true, atime := true, modified := true } } := by
  obtain ⟨parentVp, parentCluster, root, offset, type, attr, size, cluster, cache⟩ := m
  exact ⟨parentVp, parentCluster, root, offset, type, attr, size, cluster, cache⟩

/-- The made vnode has the fields. -/
theorem MadeFrom.holds {f : Field} (m : MadeFrom dir d fv fv') (h : f.Holds fv e) : f.Holds fv' e := by
  cases f with
  | size => exact h.trans m.size.symm
  | cluster => exact h.trans m.cluster.symm
  | attr => exact h.trans m.attr.symm

theorem OwnsFile.of_eq (h : OwnsFile fsi cs ⟨v, fv⟩) (htype : fv'.type = fv.type) (hc : fv'.cluster = fv.cluster)
    (hca : fv'.clsCache = fv.clsCache) : OwnsFile fsi cs ⟨v, fv'⟩ := by
  rcases h with ⟨hdir, hlt⟩ | ⟨hne, l, hcoh, hd⟩
  · exact .inl ⟨htype.trans hdir, by rw [show fv'.cluster = fv.cluster from hc]; exact hlt⟩
  · exact .inr ⟨fun h => hne (htype.symm.trans h), l, hcoh.same (.refl _) hc hca, hd⟩

theorem OwnsFile.same (h : OwnsFile fsi cs ⟨v, fv⟩) (hs : Same v v') : OwnsFile fsi cs ⟨v', fv⟩ := by
  rcases h with hdir | ⟨hty, l, hcoh, hd⟩
  · exact .inl hdir
  · exact .inr ⟨hty, l, hcoh.same hs rfl rfl, hd⟩

theorem MadeFrom.openAt (m : MadeFrom dir d fv fv') (hg : Geometry fsi)
    (hl : FatChain fsi (view fsi t.vol.disk).fat d cs) (hp : t.vnodes p = some fv') (hdir : ∃ w, t.vnodes dir = some w)
    (hi : i < (volSlots fsi cs t.vol).length) (hoff : fv.targetOffset = 32 * i)
    (hfile : OwnsFile fsi cs ⟨t.vol, fv⟩) : OpenAt fsi cs i p fv' t := by
  refine .of_place hg hl hp (m.offset.trans hoff) hi m.parentCluster m.root (hfile.of_eq m.type m.cluster m.cache) fun q hq => ?_
  obtain rfl : dir = q := Option.some.inj (m.parentVp.symm.trans hq)
  exact hdir

theorem makeEntryVnode_opens (hg : Geometry fsi) (hself : dfv.vnode = some dir)
    (hl : FatChain fsi (view fsi s.vol.disk).fat dfv.cluster cs) (hdir : ∃ w, s.vnodes dir = some w)
    (hslot : (volSlots fsi cs s.vol)[i]? = some e) (hoff : fv.targetOffset = 32 * i) (hfile : OwnsFile fsi cs ⟨s.vol, fv⟩)
    (hroot : ¬ (fv.cluster = fsi.rootCluster ∧ fv.type = .vdir)) (h : makeEntryVnode fsi dfv fv s = (.ok (some p), t)) :
    ∃ fv', OpenAt fsi cs i p fv' t ∧ (volSlots fsi cs t.vol)[i]? = some e ∧ MadeFrom dir dfv.cluster fv fv' := by
  obtain ⟨fv', v, hm, hvn, hs⟩ := makeEntryVnode_made h
  rw [hself] at hm
  have m : MadeFrom dir dfv.cluster fv fv' := .of_makeVnode hroot hm
  have hp : t.vnodes p = some fv' := by
    rw [hvn]
    exact Function.update_self ..
  have hlive : ∃ w, t.vnodes dir = some w := by
    rw [hvn]
    by_cases hqp : dir = p
    · exact ⟨fv', by rw [hqp]; exact Function.update_self ..⟩
    · obtain ⟨w, hw⟩ := hdir
      exact ⟨w, (Function.update_of_ne hqp ..).trans hw⟩
  rw [← hs.disk] at hl
  rw [← volSlots_same hs] at hslot
  exact ⟨fv', m.openAt hg hl hp hlive (List.getElem?_eq_some_iff.mp hslot).1 hoff (hfile.same hs), hslot, m⟩

/-- What the vnode of an entry owns. -/
theorem DirAt.ownsFile (h : DirAt fsi cs dir dfv u) {z : Slot × Scan} (hz : z ∈ listed fsi (volSlots fsi cs u.vol))
    (hs : Same u.vol v) : OwnsFile fsi cs ⟨v, fillEntry dfv.cluster z.1 z.2 (vnodeNew fsi)⟩ ∧
      ¬ ((fillEntry dfv.cluster z.1 z.2 (vnodeNew fsi)).cluster = fsi.rootCluster ∧
        (fillEntry dfv.cluster z.1 z.2 (vnodeNew fsi)).type = .vdir) := by
  have hcluster : (fillEntry dfv.cluster z.1 z.2 (vnodeNew fsi)).cluster = z.1.firstCluster := rfl
  have htype : (fillEntry dfv.cluster z.1 z.2 (vnodeNew fsi)).type =
      if z.1.attr &&& attrDirectory ≠ 0 then .vdir else .vreg := by
    show (if decide (z.1.attr &&& attrDirectory ≠ 0) = true then _ else _) = _
    simp only [decide_eq_true_eq]
  unfold OwnsFile
  dsimp only
  rw [htype, hcluster]
  by_cases hdir : z.1.attr &&& attrDirectory ≠ 0
  · rw [if_pos hdir]
    exact ⟨.inl ⟨rfl, z.1.firstCluster_lt⟩, fun hroot => h.notRoot z hz hdir hroot.1⟩
  · rw [if_neg hdir]
    obtain ⟨l, hl, hd⟩ := h.file z hz (not_not.mp hdir)
    refine ⟨.inr ⟨by decide, l, ⟨?_, .empty⟩, hd⟩, fun hroot => nomatch hroot.2⟩
    rwa [hs.disk]

/-- An entry that the search found in the directory, before its vnode is made. -/
structure EntryFound (fsi : Fsi) (cs : List Nat) (dfv : Fv) (v : Vol) (fv : Fv) (i : Nat) (e : Slot) : Prop where
  entry : EntryAt fsi cs i ⟨v, fv⟩
  slot : (volSlots fsi cs v)[i]? = some e
  parent : fv.parentCluster = dfv.cluster
  holds : ∀ f : Field, f.Holds fv e
  file : OwnsFile fsi cs ⟨v, fv⟩
  notRoot : ¬ (fv.cluster = fsi.rootCluster ∧ fv.type = .vdir)

theorem DirAt.found (hk : Reliable fsi.kernel) (hg : Geometry fsi) (h : DirAt fsi cs dir dfv u)
    (hf : (findDirent fsi nm (vnodeNew fsi) ⟨u.vol, dfv⟩).1 = .ok fv) :
    ∃ v dfv' i e, (onVnode dir (findDirent fsi nm (vnodeNew fsi)) u).2 =
      { u with vol := v, vnodes := Function.update u.vnodes dir (some dfv') } ∧
      FatChain fsi (view fsi v.disk).fat dfv.cluster cs ∧ EntryFound fsi cs dfv v fv i e := by
  obtain ⟨z, hz, rfl⟩ := findDirent_first hk hg h.vnode.listable h.vnode.dir h.vnode.inRange hf
  have hmem := List.mem_of_find?_eq_some hz
  have hs : Same u.vol (findDirent fsi nm (vnodeNew fsi) ⟨u.vol, dfv⟩).2.vol := (findDirent_quiet nm _ ⟨u.vol, dfv⟩).same
  rw [onVnode_some h.vnode.vnodes]
  rcases hrun : findDirent fsi nm (vnodeNew fsi) ⟨u.vol, dfv⟩ with ⟨r, v, dfv'⟩
  rw [hrun] at hs
  dsimp only at hs hmem ⊢
  obtain ⟨i, hi, hoff⟩ := listed_slot h.vnode.listable hmem dfv.cluster (vnodeNew fsi)
  obtain ⟨hfile, hroot⟩ := h.ownsFile hmem hs
  have hl : FatChain fsi (view fsi v.disk).fat dfv.cluster cs := by
    rw [hs.disk]
    exact h.chain
  rw [← volSlots_same hs] at hi
  have hentry : EntryAt fsi cs i ⟨v, fillEntry dfv.cluster z.1 z.2 (vnodeNew fsi)⟩ := by
    refine ⟨?_, hoff, (List.getElem?_eq_some_iff.mp hi).1, rfl, (hl.inRange _ hl.head_mem).ne_bad hg⟩
    show FatChain fsi (view fsi v.disk).fat (if dfv.cluster = 0 then fsi.rootCluster else dfv.cluster) cs
    rw [if_neg (FatChain.head_ne_zero hl)]
    exact hl
  exact ⟨v, dfv', i, z.1, rfl, hl, hentry, hi, rfl, fun f => f.holds_fillEntry .., hfile, hroot⟩

/-- A lookup opens the entry that it finds. -/
theorem lookup_opens (hk : Reliable fsi.kernel) (hg : Geometry fsi) (h : DirAt fsi cs dir dfv u) (hdot : isDot nm = false)
    (hlook : lookup fsi dir nm u = (.ok (some p), t)) : ∃ i e fv', OpenAt fsi cs i p fv' t ∧
      (volSlots fsi cs t.vol)[i]? = some e ∧ (∀ f : Field, f.Holds fv' e) ∧ fv'.attr = e.attr := by
  obtain ⟨fv, hf, hmade⟩ := lookup_made h.vnode.vnodes hdot hlook
  obtain ⟨v, dfv', i, e, hrun, hl, hfound⟩ := h.found hk hg hf
  rw [hrun] at hmade
  have hlive : ∃ w, Function.update u.vnodes dir (some dfv') dir = some w := ⟨dfv', Function.update_self ..⟩
  obtain ⟨fv', ho, he, m⟩ := makeEntryVnode_opens (s := { u with vol := v, vnodes := Function.update u.vnodes dir (some dfv') })
    hg h.self hl hlive hfound.slot hfound.entry.offset hfound.file hfound.notRoot hmade
  exact ⟨i, e, fv', ho, he, fun f => m.holds (hfound.holds f), m.attr.trans (hfound.holds .attr).symm⟩

/-- Setting the times of a vnode leaves its place, its type and its fields. -/
theorem touch_frame (fsi : Fsi) (atime mtime : Bool) (fv : Fv) (v : Vol) : ∃ fv' v', touch fsi atime mtime fv v = (.ok fv', v') ∧
    Same v v' ∧ fv'.targetOffset = fv.targetOffset ∧ fv'.type = fv.type ∧ fv'.cluster = fv.cluster ∧
    fv'.clsCache = fv.clsCache ∧ ∀ (f : Field) e, f.Holds fv e → f.Holds fv' e := by
  obtain ⟨fv', v', hrun, hs, hfv⟩ := touch_ok fsi atime mtime fv v
  refine ⟨fv', v', hrun, hs, ?_⟩
  rw [hfv]
  refine ⟨rfl, rfl, rfl, rfl, fun f e h => ?_⟩
  cases f with
  | size => exact h
  | cluster => exact h
  | attr => exact h

theorem withFv_wp {α : Type} {m : FvM α} {R : Out Errno α → VnSt → Prop} {Q : Out Errno (α × Fv) → Vol → Prop}
    (h : WP m ⟨v, fv⟩ R) (hok : ∀ a s', R (.ok a) s' → Q (.ok (a, s'.fv)) s'.vol)
    (herr : ∀ e s', R (.err e) s' → Q (.err e) s'.vol) (hhang : ∀ s', R .hang s' → Q .hang s'.vol) :
    WP (withFv fv m) v Q := by
  unfold WP at h ⊢
  unfold withFv
  rcases hrun : m ⟨v, fv⟩ with ⟨a | e | _, s'⟩ <;> rw [hrun] at h
  · exact hok a s' h
  · exact herr e s' h
  · exact hhang s' h

/-- The part of `fat32_create` for a name that exists. The size that it sets may be lost, the other fields are not. -/
theorem createExisting_opens (hk : Reliable fsi.kernel) (hg : Geometry fsi) (hfuel : fsi.clusterCount < fsi.kernel.fuel)
    (hself : dfv.vnode = some dir) (hl : FatChain fsi (view fsi s.vol.disk).fat dfv.cluster cs)
    (hdir : s.vnodes dir = some w) (hf : EntryFound fsi cs dfv s.vol fv i e) {vap : Vattr} {excl : Bool} {mode : Access}
    {cr : Cred} (h : createExisting fsi dir dfv fv vap excl mode cr s = (.ok (some p), t)) : ∃ fv', OpenAt fsi cs i p fv' t ∧
      (volSlots fsi cs t.vol)[i]? = some e ∧ (∀ f : Field, f = .attr ∨ vap.atSize = false → f.Holds fv' e) ∧
      fv'.attr = e.attr := by
  have hall : WP (createExisting fsi dir dfv fv vap excl mode cr) s fun r t => r = .ok (some p) → ∃ fv', OpenAt fsi cs i p fv' t ∧
      (volSlots fsi cs t.vol)[i]? = some e ∧ (∀ f : Field, f = .attr ∨ vap.atSize = false → f.Holds fv' e) ∧
      fv'.attr = e.attr := by
    unfold createExisting
    refine .ite (fun _ => .ite (fun _ => .of_run (fail_run _ _) fun h => absurd h Out.err_ne_ok) fun _ =>
      .of_run (Prod.mk.eta).symm fun hr => ?_) fun hty => .ite (fun _ => .of_run (fail_run _ _) fun h => absurd h Out.err_ne_ok)
      fun _ => ?_
    · obtain ⟨fv', ho, he, m⟩ := makeEntryVnode_opens hg hself hl ⟨w, hdir⟩ hf.slot hf.entry.offset hf.file hf.notRoot
        (Prod.ext hr rfl)
      exact ⟨fv', ho, he, fun f _ => m.holds (hf.holds f), m.attr.trans (hf.holds .attr).symm⟩
    · cases faccess fsi fv mode cr with
      | some e => exact .of_run (fail_run _ _) fun h => absurd h Out.err_ne_ok
      | none =>
        obtain ⟨-, l, hcoh, hd⟩ := hf.file.resolve_left fun hdir => hty hdir.1
        -- the truncation
        have htr : WP (if vap.atSize then truncate fsi vap.size else pure ()) ⟨s.vol, fv⟩ fun _ s' =>
            VnStep fsi cs ⟨s.vol, fv⟩ s' ∧ s'.fv.attr = fv.attr ∧ (vap.atSize = false → s'.fv = fv) := by
          refine .ite (fun hat => ?_) fun _ => .of_run (pure_run _ _) ⟨.refl hf.entry hf.file, rfl, fun _ => rfl⟩
          have hattr : WP (truncate fsi vap.size) ⟨s.vol, fv⟩ fun _ s' => s'.fv.attr = fv.attr :=
            .of_run (Prod.mk.eta).symm (truncate_fixes vap.size ⟨s.vol, fv⟩)
          refine ((truncate_vnStep hk hg hfuel hf.entry hty hcoh hd vap.size).and hattr).mono fun r s' hr => ?_
          exact ⟨hr.1.1, hr.2, fun hno => absurd hat (by rw [hno]; decide)⟩
        refine .on_bind (withFv_wp (Q := fun r v2 => ∀ x, r = .ok x → VnStep fsi cs ⟨s.vol, fv⟩ ⟨v2, x.2⟩ ∧
          x.2.attr = fv.attr ∧ (vap.atSize = false → x.2 = fv)) htr (fun _ s' hs' x hx => ?_)
          (fun _ _ _ _ h => absurd h Out.err_ne_ok) fun _ _ _ h => absurd h Out.hang_ne_ok) (fun x v2 h2 => ?_)
          (fun _ _ _ h => absurd h Out.err_ne_ok) fun _ _ h => absurd h Out.hang_ne_ok
        · rw [← Out.ok.inj hx]
          exact hs'
        · obtain ⟨st, hattr, hsame⟩ := h2 x rfl
          obtain ⟨⟨⟩, fv2⟩ := x
          dsimp only at st hattr hsame ⊢
          obtain ⟨fv3, v3, htouch, hs3, hoff, htype, hcluster, hcache, hholds⟩ := touch_frame fsi false false fv2 v2
          refine .ok_bind (on_run htouch) ?_
          obtain ⟨w', hw'⟩ : ∃ w', touchFv fsi false true ⟨v3, w⟩ = (.ok (), w') := ⟨_, rfl⟩
          have hs4 : Same v3 w'.vol := by
            have hq := (@touchFv_quiet fsi false true ⟨v3, w⟩).same
            rwa [hw'] at hq
          have hdirty := onVnode_some (s := ⟨v3, s.vnodes, s.vcount⟩) (m := touchFv fsi false true) hdir
          rw [hw'] at hdirty
          refine .ok_bind hdirty (.of_run (Prod.mk.eta).symm fun hr => ?_)
          -- what the truncation and the times leave
          have k := st.change.keeps
          have hsame' : Same v2 w'.vol := hs3.trans hs4
          have hdc : fv.dirCluster fsi = dfv.cluster := by
            rw [Fv.dirCluster, hf.parent, if_neg (FatChain.head_ne_zero hl)]
          have hl' : FatChain fsi (view fsi w'.vol.disk).fat dfv.cluster cs := by
            rw [hsame'.disk, ← hdc]
            exact st.chain
          have hslot : (volSlots fsi cs w'.vol)[i]? = some e := by
            rw [volSlots_same hsame', st.slots]
            exact hf.slot
          have hplace : fv2.targetOffset = fv.targetOffset := by
            rw [Fv.targetOffset, Fv.targetOffset, k.diroff, k.dirsz]
          have hty' : fv3.type ≠ .vdir := by
            rw [htype, k.type]
            exact hty
          have hfields (f : Field) (hor : f = .attr ∨ vap.atSize = false) : f.Holds fv3 e := by
            refine hholds f e ?_
            rcases hor with rfl | hno
            · exact (hf.holds .attr).trans hattr.symm
            · rw [hsame hno]
              exact hf.holds f
          obtain ⟨fv', ho, he, m⟩ := makeEntryVnode_opens (s := ⟨w'.vol, Function.update s.vnodes dir (some w'.fv), s.vcount⟩)
            hg hself hl' ⟨w'.fv, Function.update_self ..⟩ hslot (hoff.trans (hplace.trans hf.entry.offset))
            ((st.file.same hsame').of_eq htype hcluster hcache) (fun hroot => hty' hroot.2) (Prod.ext hr rfl)
          exact ⟨fv', ho, he, fun f hor => m.holds (hfields f hor), m.attr.trans (hfields .attr (.inl rfl)).symm⟩
  unfold WP at hall
  rw [h] at hall
  exact hall rfl

/-! ## New entries -/

theorem Dirent83.toSlot_attr (d : Dirent83) : d.toSlot.attr = d.attr := rfl

theorem Dirent83.toSlot_fileSize (d : Dirent83) : d.toSlot.fileSize = d.fileSize % 2 ^ 32 := le32_byteOf _

theorem Dirent83.toSlot_firstCluster (d : Dirent83) :
    d.toSlot.firstCluster = d.firstClusterLo % 2 ^ 16 + 2 ^ 16 * (d.firstClusterHi % 2 ^ 16) := by
  have hlo : d.toSlot.firstClusterLo = d.firstClusterLo % 2 ^ 16 := le16_byteOf _
  have hhi : d.toSlot.firstClusterHi = d.firstClusterHi % 2 ^ 16 := le16_byteOf _
  rw [Slot.firstCluster, hlo, hhi]
  rfl

/-- The 8.3 entry is in the last slot. -/
theorem EntryWritten.slot {d : Nat} {ext : List Nat} {d83 : Dirent83} (h : EntryWritten fsi d cs ext name d83 k v v') :
    (volSlots fsi (cs ++ ext) v')[k + (entrySet name d83).length]? = some d83.toSlot := by
  obtain ⟨Z, -, hin, hslots⟩ := h.slots
  have hset := length_entrySet name d83
  have hlen : (entrySet name d83 ++ [d83.toSlot]).length = nameSlots name := by
    rw [List.length_append, ← hset]
    rfl
  have htake := take_putSlots (entrySet name d83 ++ [d83.toSlot]) (volSlots fsi cs v ++ Z) (k := k) (by rw [hlen]; exact hin)
  have hk : ((volSlots fsi cs v ++ Z).take k).length = k := by
    rw [List.length_take]
    omega
  rw [hslots, ← List.getElem?_take_of_lt (show _ < k + (entrySet name d83 ++ [d83.toSlot]).length by rw [hlen]; omega), htake,
    List.getElem?_append_right (by omega), hk, Nat.add_sub_cancel_left, List.getElem?_append_right (Nat.le_refl _),
    Nat.sub_self]
  rfl

/-- What the vnode of a new file is made from. -/
def newFile (fsi : Fsi) (mode diroff dirsz : Nat) : Fv := { vnodeNew fsi with
  mode := mode
  dirsz := dirsz
  diroff := diroff
  cluster := 0
  type := .vreg }

theorem newFile_owns (mode diroff dirsz : Nat) (cs : List Nat) (v : Vol) :
    OwnsFile fsi cs ⟨v, newFile fsi mode diroff dirsz⟩ := by
  refine .inr ⟨?_, [], ⟨.inl ⟨rfl, rfl⟩, .empty⟩, List.disjoint_nil_right _⟩
  show Vtype.vreg ≠ .vdir
  decide

/-- The part of `fat32_create` that makes an entry. The vnode does not get the attributes of the entry. -/
theorem createNew_opens (hk : Reliable fsi.kernel) (hg : Geometry fsi) (hfuel : cs.length ≤ fsi.kernel.fuel)
    (hsize : fsi.bytesPerCluster * cs.length < 2 ^ 32) (hself : dfv.vnode = some dir) (hdir : s.vnodes dir = some dfv)
    (hl : FatChain fsi (view fsi s.vol.disk).fat dfv.cluster cs) (hname : name.length ≤ maxName) {mode : Nat}
    (h : createNew fsi dir name mode {} s = (.ok (some p), t)) : ∃ cs' i e fv', OpenAt fsi cs' i p fv' t ∧
      (volSlots fsi cs' t.vol)[i]? = some e ∧ (∀ f : Field, f ≠ .attr ∨ mode &&& sIwusr ≠ 0 → f.Holds fv' e) ∧
      fv'.attr ||| attrReadOnly = e.attr ||| attrReadOnly := by
  obtain ⟨fv1, t1, now, dfv', hrun, hs, hvn⟩ := createNew_attached hdir h
  obtain ⟨k, ext, c, now', v, hw, hc, hmake⟩ := createFdentry_written (s := ⟨s.vol, dfv⟩) hk hg hfuel hl hsize hname hself rfl rfl hrun
  obtain rfl : c = 0 := hc rfl
  have hw := hw.of_same hs
  have hslot := hw.slot
  have hset := length_entrySet name (createDirent {} { vnodeNew fsi with mode := mode } (if nameIsShort name then
    formatShort name else generateShortName dfv.cluster (32 * k)) 0 now')
  obtain ⟨d83, hd83⟩ : ∃ d83, createDirent {} { vnodeNew fsi with mode := mode } (if nameIsShort name then
    formatShort name else generateShortName dfv.cluster (32 * k)) 0 now' = d83 := ⟨_, rfl⟩
  dsimp only at hslot hset
  rw [hd83] at hslot hset
  have hattr : d83.toSlot.attr = if mode &&& sIwusr = 0 then attrReadOnly else 0 := by
    rw [← hd83, Dirent83.toSlot_attr]
    show 0 ||| (if mode &&& sIwusr = 0 then attrReadOnly else 0) = _
    split <;> rfl
  have hzero : d83.toSlot.fileSize = 0 ∧ d83.toSlot.firstCluster = 0 := by
    rw [Dirent83.toSlot_fileSize, Dirent83.toSlot_firstCluster, ← hd83]
    exact ⟨rfl, rfl⟩
  have m : MadeFrom dir dfv.cluster (newFile fsi mode (32 * k) (nameSlots name)) fv1 :=
    .of_makeVnode (fun hroot => absurd hroot.2 (by decide)) hmake
  have hplace : (newFile fsi mode (32 * k) (nameSlots name)).targetOffset = 32 * (k + (entrySet name d83).length) := by
    have hn := nameSlots_le hname
    have hbelow := hw.below
    show u32 (32 * k + u32 (sub32 (nameSlots name) 1 * 32)) = _
    simp only [u32, sub32]
    omega
  have hp : t.vnodes p = some { fv1 with
      ctime := now
      mtime := now
      atime := now
      flags := { fv1.flags with mtime := true, atime := true, modified := true } } := by
    rw [hvn]
    exact Function.update_self ..
  have hlive : ∃ w, t.vnodes dir = some w := by
    rw [hvn]
    by_cases hdp : dir = p
    · exact ⟨_, by rw [hdp]; exact Function.update_self ..⟩
    · exact ⟨dfv', by rw [Function.update_of_ne hdp]; exact Function.update_self ..⟩
  have hi := (List.getElem?_eq_some_iff.mp hslot).1
  have ho := (m.touched now).openAt hg hw.chain hp hlive hi hplace (newFile_owns ..)
  refine ⟨cs ++ ext, _, d83.toSlot, _, ho, hslot, fun f hf => ?_, ?_⟩
  · refine (m.touched now).holds ?_
    cases f with
    | size => exact hzero.1
    | cluster => exact hzero.2
    | attr =>
      show d83.toSlot.attr = 0
      rw [hattr, if_neg (hf.resolve_left fun hne => hne rfl)]
  · rw [(m.touched now).attr, hattr]
    show (0 : UInt8) ||| attrReadOnly = _
    split <;> rfl

/-! ## The calls that open -/

/-- The calls that make the vnode of an entry of a directory. -/
inductive OpenOp where
  | lookup (nm : List UInt8)
  | create (name : List UInt8) (vap : Vattr) (excl : Bool) (mode : Access) (cr : Cred)

namespace OpenOp

def run (fsi : Fsi) (dir : Nat) : OpenOp → SysM (Option Nat)
  | lookup nm => Fat32.lookup fsi dir nm
  | create name vap excl mode cr => Fat32.create fsi dir name vap excl mode cr

/-- The name is of an entry, and one that the system calls let pass. -/
def Named : OpenOp → Prop
  | lookup nm => isDot nm = false
  | create name _ _ _ _ => name.length ≤ maxName

/-- The search of the call succeeds. -/
def Exists (fsi : Fsi) (dir : Nat) (u : Sys) (name : List UInt8) : Prop :=
  ∃ fv, (onVnode dir (findDirent fsi name (vnodeNew fsi)) u).1 = .ok fv

/-- The field of the new vnode is that of the entry. A call of `fat32_create` may set a size that it does not store,
and does not put the attributes of a read-only entry that it makes into the vnode. -/
def Loads (fsi : Fsi) (dir : Nat) (u : Sys) : OpenOp → Field → Prop
  | lookup _, _ => True
  | create name vap _ _ _, .attr => Exists fsi dir u name ∨ vap.mode &&& sIwusr ≠ 0
  | create name vap _ _ _, _ => vap.atSize = false ∨ ¬ Exists fsi dir u name

end OpenOp

/-- The new vnode is open. -/
theorem OpenOp.opens (hk : Reliable fsi.kernel) (hg : Geometry fsi) (hfuel : fsi.clusterCount < fsi.kernel.fuel)
    (h : DirAt fsi cs dir dfv u) {op : OpenOp} (hnamed : op.Named) (hrun : op.run fsi dir u = (.ok (some p), t)) :
    ∃ cs' i e fv, OpenAt fsi cs' i p fv t ∧ (volSlots fsi cs' t.vol)[i]? = some e ∧
      (∀ f : Field, op.Loads fsi dir u f → f.Holds fv e) ∧ fv.attr ||| attrReadOnly = e.attr ||| attrReadOnly := by
  have hvn := h.vnode.vnodes
  cases op with
  | lookup nm =>
    obtain ⟨i, e, fv, ho, he, ha, hattr⟩ := lookup_opens hk hg h hnamed hrun
    exact ⟨cs, i, e, fv, ho, he, fun f _ => ha f, by rw [hattr]⟩
  | create name vap excl mode cr =>
    have hsearch : (onVnode dir (findDirent fsi name (vnodeNew fsi)) u).1 = (findDirent fsi name (vnodeNew fsi) ⟨u.vol, dfv⟩).1 := by
      rw [onVnode_some hvn]
    rcases create_cases hvn hrun with ⟨fv, hf, hold⟩ | ⟨hf, hnew⟩
    · obtain ⟨v, dfv', i, e, hsys, hl, hfound⟩ := h.found hk hg hf
      rw [hsys] at hold
      obtain ⟨fv', ho, he, ha, hattr⟩ := createExisting_opens (s := { u with
        vol := v
        vnodes := Function.update u.vnodes dir (some dfv') }) hk hg hfuel h.self hl (Function.update_self ..) hfound hold
      have hex : Exists fsi dir u name := ⟨fv, by rw [hsearch, hf]⟩
      refine ⟨cs, i, e, fv', ho, he, fun f hload => ha f ?_, by rw [hattr]⟩
      cases f with
      | attr => exact .inl rfl
      | size => exact .inr (hload.resolve_right fun hno => hno hex)
      | cluster => exact .inr (hload.resolve_right fun hno => hno hex)
    · have hno : ¬ Exists fsi dir u name := by
        rintro ⟨fv, hok⟩
        rw [hsearch, hf] at hok
        cases hok
      obtain ⟨w, hw⟩ : ∃ w, (findDirent fsi name (vnodeNew fsi) ⟨u.vol, dfv⟩).2 = w := ⟨_, rfl⟩
      have hs : Same u.vol w.vol := by
        rw [← hw]
        exact (findDirent_quiet name (vnodeNew fsi) ⟨u.vol, dfv⟩).same
      obtain ⟨cache, hcache⟩ : CacheOnly dfv w.fv := by
        rw [← hw]
        exact findDirent_caches name (vnodeNew fsi) ⟨u.vol, dfv⟩
      rw [onVnode_some hvn, hw] at hnew
      have hl : FatChain fsi (view fsi w.vol.disk).fat w.fv.cluster cs := by
        rw [hs.disk, hcache]
        exact h.chain
      have hsize : fsi.bytesPerCluster * cs.length < 2 ^ 32 := by
        have hbytes := h.vnode.listable.bytes
        rw [bpc_slots hg, Nat.mul_assoc, Nat.mul_comm (slotsPer fsi)]
        exact hbytes
      obtain ⟨cs', i, e, fv', ho, he, ha, hattr⟩ := createNew_opens (s := { u with
        vol := w.vol
        vnodes := Function.update u.vnodes dir (some w.fv) }) hk hg h.vnode.listable.chain hsize
        (by rw [hcache]; exact h.self) (Function.update_self ..) hl hnamed hnew
      refine ⟨cs', i, e, fv', ho, he, fun f hload => ha f ?_, hattr⟩
      cases f with
      | attr => exact .inr (hload.resolve_left hno)
        | size => exact .inl (by decide)
        | cluster => exact .inl (by decide)

end Fat32
