import Mathlib
import Fat32.Proof.DataOnly
import Fat32.Proof.TidyEdit

/-!
# Adding an entry to a directory

What `fat32_create_fdentry` does to a directory that can be written, however it ends: it makes the entry, or the directory has
at most grown (`createFdentry_adds`).
-/

namespace Fat32

open Bytes Exec Prog Linked FirstFit

variable {fsi : Fsi} {H : Finset Nat} {cs ext : List Nat} {D : List Slot} {s t : VnSt} {v v' : Vol} {a c d k n : Nat} {name : List UInt8}
  {flags : CreFlags} {fv : Fv}

/-- The directory with the clusters `cs` can be listed, and an entry more does not take it to 4 GiB. -/
structure Room (fsi : Fsi) (cs : List Nat) : Prop where
  fuel : cs.length * slotsPer fsi < fsi.kernel.fuel
  bytes : fsi.bytesPerCluster * cs.length + 32 * 21 < 2 ^ 32

theorem Room.listable (hg : Geometry fsi) (h : Room fsi cs) : Listable fsi cs := by
  have hpos := slotsPer_pos hg
  have hper := bpc_slots hg
  have hbytes := h.bytes
  rw [hper, Nat.mul_assoc, Nat.mul_comm (slotsPer fsi)] at hbytes
  refine ⟨?_, h.fuel, by omega⟩
  have hle : cs.length ≤ cs.length * slotsPer fsi := Nat.le_mul_of_pos_right _ hpos
  exact (hle.trans_lt h.fuel).le

/-! ## Finding room -/

theorem allocFdentry_good (hk : Reliable fsi.kernel) (hg : Geometry fsi) (hfuel : cs.length ≤ fsi.kernel.fuel) (hnum : 0 < n)
    (G : Good fsi H s.vol) (hd : s.fv.cluster ∈ H) (hl : FatChain fsi (view fsi s.vol.disk).fat s.fv.cluster cs) :
    WP (allocFdentry fsi n) s fun r t => t.fv = s.fv ∧ Good fsi H t.vol ∧ ((∃ o, r = .ok o) ∨
      r = .err .enospc ∧ ∃ ext, Grown fsi s.fv.cluster cs ext true s.vol t.vol) := by
  have hc0 : s.fv.cluster ≠ 0 := FatChain.head_ne_zero hl
  obtain ⟨r, k, v1, hrun, hs, -, hr⟩ := allocLoop_finds hk hg hfuel hnum hl
  have G1 : Good fsi H v1 := G.same hs
  unfold allocFdentry
  refine .get_bind (.ite (fun h0 => absurd h0 hc0) fun _ => .on (.ok_bind hrun ?_))
  rcases hr with ⟨rfl, -⟩ | ⟨-, e, rfl, hlast, -, -⟩
  · exact .of_run rfl ⟨rfl, G1, .inl ⟨_, rfl⟩⟩
  · dsimp only
    rw [hlast]
    have hpos : 0 < cs.length := List.length_pos_of_mem hl.head_mem
    have hc : cs[cs.length - 1]? = some (cs.getLastD 0) := by
      rw [List.getLastD_eq_getLast?, List.getLast?_eq_getElem?, List.getElem?_eq_getElem (by omega)]
      rfl
    have hl1 : FatChain fsi (view fsi v1.disk).fat s.fv.cluster cs := by rwa [hs.disk]
    have hfin := hl1.last_fin hc (by omega)
    refine .ite (fun _ => ?_) fun _ => .of_run (pure_run _ _) ⟨rfl, G1, .inl ⟨_, rfl⟩⟩
    refine .bind (growLoop_good hk hg hd _ G1 hl1 (List.mem_of_getElem? hc) hfin) (fun _ v2 h => ?_) (fun e v2 h => ?_)
      fun v2 h => ?_
    · exact .of_run (pure_run _ _) ⟨rfl, h.1, .inl ⟨_, rfl⟩⟩
    · obtain ⟨G2, ext, g, ⟨he, -⟩ | ⟨he, -⟩⟩ := h
      · cases he
      · exact ⟨rfl, G2, .inr ⟨by rw [Out.err.inj he], ext, .of_same hs g⟩⟩
    · obtain ⟨-, ext, -, ⟨he, -⟩ | ⟨he, -⟩⟩ := h
      · cases he
      · cases he

/-! ## Writing the entry -/

theorem lfnLoop_ok (hk : Reliable fsi.kernel) (hg : Geometry fsi) {sum : UInt8} (hbytes : 32 * (k + numLfn name) < 2 ^ 32) :
    ∀ {i : Nat} {v : Vol}, i ≤ numLfn name → FatChain fsi (view fsi v.disk).fat a cs →
      k + numLfn name ≤ (volSlots fsi cs v).length → ∃ v', lfnLoop fsi a (32 * k) name sum i v = (.ok (), v')
  | 0, v, _, _, _ => ⟨v, rfl⟩
  | i + 1, v, hi, hl, hin => by
    have hoff : u32 (32 * k + (numLfn name - (i + 1)) * dentrySize) = 32 * (k + (numLfn name - (i + 1))) := by
      simp only [u32, dentrySize]
      omega
    obtain ⟨v1, e1, E⟩ := writeFdentry_slots hk hg hl (i := k + (numLfn name - (i + 1))) (by omega) (lfnEntry name sum (i + 1))
    have hlen : (volSlots fsi cs v1).length = (volSlots fsi cs v).length := by rw [E.slots, List.length_set]
    obtain ⟨v', e⟩ := @lfnLoop_ok hk hg sum hbytes i v1 (by omega) (E.chain hl) (by rwa [hlen])
    refine ⟨v', ?_⟩
    rw [lfnLoop, hoff, bind_ok e1, e]

/-- An entry for which there is room is written. -/
theorem writeEntry_ok (hk : Reliable fsi.kernel) (hg : Geometry fsi) (hl : FatChain fsi (view fsi v.disk).fat a cs) {d83 : Dirent83}
    (hbytes : 32 * (k + nameSlots name) ≤ 2 ^ 32) (hin : k + nameSlots name ≤ (volSlots fsi cs v).length) :
    ∃ v', (if nameIsShort name then writeFdentry fsi a (32 * k) d83.toSlot else writeLfnFdentry fsi a (32 * k) d83 name) v =
      (.ok (), v') := by
  unfold nameSlots at hin hbytes
  by_cases hs : nameIsShort name = true
  · rw [if_pos hs] at hin ⊢
    obtain ⟨v', e, -⟩ := writeFdentry_slots hk hg hl (i := k) (by omega) d83.toSlot
    exact ⟨v', e⟩
  · rw [if_neg hs] at hin hbytes ⊢
    have hnum : numLfn name = (name.length + 12) / 13 := rfl
    rw [← hnum] at hin hbytes
    obtain ⟨v1, e1⟩ : ∃ v1, lfnLoop fsi a (32 * k) name (checksum d83.name) (numLfn name) v = (.ok (), v1) :=
      lfnLoop_ok hk hg (by omega) (le_refl _) hl (by omega)
    obtain ⟨-, E⟩ := lfnLoop_inside hk hg (Nat.lt_succ_self _) (le_refl _) hl (.inr ⟨hin, by omega⟩) (by omega) e1
    have hlen : (volSlots fsi cs v1).length = (volSlots fsi cs v).length := by rw [E.slots, length_putSlots]
    have hoff : u32 (32 * k + numLfn name * dentrySize) = 32 * (k + numLfn name) := by
      simp only [u32, dentrySize]
      omega
    obtain ⟨v2, e2, -⟩ := writeFdentry_slots hk hg (E.chain hl) (i := k + numLfn name) (by omega) d83.toSlot
    refine ⟨v2, ?_⟩
    rw [writeLfnFdentry, bind_ok e1, hoff, e2]

/-- The slots that were found, or made, are inside. -/
theorem Room.inside (hg : Geometry fsi) (h : Room fsi cs) (hpos : 0 < cs.length) (hn : n ≤ 21) (hn0 : 0 < n)
    (hle : k ≤ (volSlots fsi cs v).length) (hext : AllDeleted (volSlots fsi cs v) n k ∧ ext = [] ∨ ¬ AllDeleted (volSlots fsi cs v) n k ∧
      ext.length = growClusters fsi (u32 (fsi.bytesPerCluster * cs.length)) (u32 (32 * k)) n) :
    32 * (k + n) < 2 ^ 32 ∧ k + n ≤ (volSlots fsi (cs ++ ext) v').length := by
  have hper := bpc_slots hg
  have hbytes : fsi.bytesPerCluster * cs.length = 32 * (volSlots fsi cs v).length := by
    rw [length_dirSlots, hper, Nat.mul_assoc, Nat.mul_comm (slotsPer fsi)]
  have hsize := h.bytes
  have hlt : 32 * (k + n) < 2 ^ 32 := by omega
  refine ⟨hlt, ?_⟩
  have hlen : (volSlots fsi (cs ++ ext) v').length = (cs.length + ext.length) * slotsPer fsi := by
    rw [length_dirSlots, List.length_append]
  rw [hlen]
  rcases hext with ⟨hdel, rfl⟩ | ⟨-, hgrow⟩
  · obtain ⟨x, hx, -⟩ := hdel (n - 1) (by omega)
    have hlast := (List.getElem?_eq_some_iff.mp hx).1
    have hold : (volSlots fsi cs v).length = cs.length * slotsPer fsi := length_dirSlots _ _
    rw [List.length_nil, Nat.add_zero]
    omega
  · have hone : fsi.bytesPerCluster ≤ fsi.bytesPerCluster * cs.length := Nat.le_mul_of_pos_right _ hpos
    have hmax := (growClusters_iff hg (by omega) hpos hn (by omega) (by omega)).mpr (.inl ⟨by omega, hlt⟩)
    rw [hgrow, hmax]
    exact (clustersFor_slots hg).mp (Nat.le_max_right _ _)

/-! ## The whole call -/

/-- The 8.3 entry of a name in slot `k` of the directory at `d`. -/
def newDirent (flags : CreFlags) (fv : Fv) (name : List UInt8) (d k c : Nat) (now : Timespec) : Dirent83 :=
  createDirent flags fv (if nameIsShort name then formatShort name else generateShortName d (32 * k)) c now

/-- The end of a call that makes an entry. -/
inductive Adds (fsi : Fsi) (H : Finset Nat) (cs : List Nat) (name : List UInt8) (flags : CreFlags) (fv : Fv) (s : VnSt) (vp : Nat) :
    Out Errno Fv → Vol → Prop
  /-- There were too few clusters, and the directory has grown at most. -/
  | full {w : Vol} (ext : List Nat) (Z : List Slot) (chain : FatChain fsi (view fsi w.disk).fat s.fv.cluster (cs ++ ext))
      (slots : volSlots fsi (cs ++ ext) w = volSlots fsi cs s.vol ++ Z) (zero : ∀ z ∈ Z, z.first = 0) (good : Good fsi H w) :
      Adds fsi H cs name flags fv s vp (.err .enospc) w
  /-- The entry is written, but there is no vnode for it. -/
  | lost {w : Vol} (ext : List Nat) (k c : Nat) (now : Timespec)
      (entry : EntryWritten fsi s.fv.cluster cs ext name (newDirent flags fv name s.fv.cluster k c now) k s.vol w)
      (takes : Takes fsi H s.fv.cluster flags c w) : Adds fsi H cs name flags fv s vp (.err .enomem) w
  | made {w : Vol} (ext : List Nat) (k c : Nat) (now : Timespec) (u : Vol) (fv' : Fv)
      (entry : EntryWritten fsi s.fv.cluster cs ext name (newDirent flags fv name s.fv.cluster k c now) k s.vol w)
      (takes : Takes fsi H s.fv.cluster flags c w)
      (vnode : makeVnode fsi c (if flags.dir then .vdir else .vreg) { fv with dirsz := nameSlots name, diroff := 32 * k }
        (some (vp, s.fv.cluster)) u = (.ok fv', w)) : Adds fsi H cs name flags fv s vp (.ok fv') w

/-- A vnode is made, or there is none. -/
theorem makeVnode_ends (fsi : Fsi) (c : Nat) (type : Vtype) (fv : Fv) (parent : Option (Nat × Nat)) (v : Vol) :
    WP (makeVnode fsi c type fv parent) v fun r v' => Same v v' ∧ (r = .err .enomem ∨ ∃ fv', r = .ok fv') := by
  unfold makeVnode
  refine .ok_bind (a := if fsi.kernel.vnAlloc v.io.nvn then some v.io.nvn else none) rfl ?_
  cases (if fsi.kernel.vnAlloc v.io.nvn then some v.io.nvn else none : Option Nat) with
  | none => exact .of_run (fail_run _ _) ⟨⟨rfl, rfl, rfl⟩, .inl rfl⟩
  | some vp => exact .of_run (pure_run _ _) ⟨⟨rfl, rfl, rfl⟩, .inr ⟨_, rfl⟩⟩

theorem entry_made {vp : Nat} {ext : List Nat} {now : Timespec} {w : Fv} (hw : w = s.fv) (hb : Beside fsi cs s.vol v)
    (entry : EntryWritten fsi s.fv.cluster cs ext name (newDirent flags fv name s.fv.cluster k c now) k s.vol v)
    (takes : Takes fsi H s.fv.cluster flags c v) :
    WP (makeVnode fsi c (if flags.dir then .vdir else .vreg) { fv with dirsz := nameSlots name, diroff := 32 * k }
      (some (vp, s.fv.cluster))) v fun r v' => w = s.fv ∧ Beside fsi cs s.vol v' ∧ Adds fsi H cs name flags fv s vp r v' := by
  have hend := makeVnode_ends fsi c (if flags.dir then .vdir else .vreg) { fv with dirsz := nameSlots name, diroff := 32 * k }
    (some (vp, s.fv.cluster)) v
  unfold WP at hend
  obtain ⟨hs, hend⟩ := hend
  have hb' := hb.trans (@Beside.of_same fsi [] _ _ hs) fun _ hc => absurd hc List.not_mem_nil
  rcases hend with herr | ⟨fv', hok⟩
  · exact .of_run (Prod.ext herr rfl) ⟨hw, hb', .lost ext k c now (entry.of_same hs) (takes.same hs)⟩
  · exact .of_run (Prod.ext hok rfl) ⟨hw, hb', .made ext k c now v fv' (entry.of_same hs) (takes.same hs) (Prod.ext hok rfl)⟩

theorem createFdentry_adds (hk : Reliable fsi.kernel) (hg : Geometry fsi) {vp : Nat} (hroom : Room fsi cs) (G : Good fsi H s.vol)
    (hd : s.fv.cluster ∈ H) (hl : FatChain fsi (view fsi s.vol.disk).fat s.fv.cluster cs) (hname : name.length ≤ maxName)
    (hvp : s.fv.vnode = some vp) (hren : flags.rename = false) (hreuse : flags.reuse = false) :
    WP (createFdentry fsi fv name flags) s fun r t => t.fv = s.fv ∧ Beside fsi cs s.vol t.vol ∧
      Adds fsi H cs name flags fv s vp r t.vol := by
  have hno : ¬ flags.rename = true := by rw [hren]; decide
  have hnum := nameSlots_le hname
  have hlist := hroom.listable hg
  have hfuel := hlist.chain
  unfold createFdentry
  have hpos : 0 < cs.length := List.length_pos_of_mem hl.head_mem
  refine .bind (R := fun r t => t.fv = s.fv ∧ Good fsi H t.vol ∧ ((∃ k ext, r = .ok (32 * k) ∧
      First (FreeAt (volSlots fsi cs s.vol)) (nameSlots name) k ∧ Grown fsi s.fv.cluster cs ext true s.vol t.vol ∧
      32 * (k + nameSlots name) < 2 ^ 32 ∧ k + nameSlots name ≤ (volSlots fsi (cs ++ ext) t.vol).length) ∨
      r = .err .enospc ∧ ∃ ext, Grown fsi s.fv.cluster cs ext true s.vol t.vol)) ?_ (fun o t1 h1 => ?_) (fun e t1 h1 => ?_)
    fun t1 h1 => ?_
  · refine .ite (fun hr => absurd (hr.symm.trans hreuse) (by decide)) fun _ => ?_
    have hgood := allocFdentry_good hk hg hfuel hnum.1 G hd hl
    unfold WP at hgood
    obtain ⟨hfv, G1, ⟨o, ho⟩ | herr⟩ := hgood
    · refine .of_run (Prod.mk.eta).symm ⟨hfv, G1, .inl ?_⟩
      obtain ⟨k, ext, hfirst, rfl, -, g, hext⟩ := allocFdentry_grows hk hg hfuel hnum.1 hl (Prod.ext ho rfl)
      obtain ⟨hlt, hin⟩ := hroom.inside hg hpos hnum.2 hnum.1 (first_le hfirst) hext
      rw [ho, show u32 (32 * k) = 32 * k from Nat.mod_eq_of_lt (by omega)]
      exact ⟨k, ext, rfl, hfirst, g, hlt, hin⟩
    · exact .of_run (Prod.mk.eta).symm ⟨hfv, G1, .inr herr⟩
  · obtain ⟨hfv1, G1, ⟨k, ext, ho, hfirst, g, hlt, hin⟩ | ⟨ho, -⟩⟩ := h1
    · obtain rfl := Out.ok.inj ho
      obtain ⟨Z, hZ, hzero⟩ := g.slots hg
      refine .get_bind ?_
      rw [hfv1]
      refine .on_bind (createCluster_good hk hg G1 hren _ fv) (fun c v2 h2 => ?_) (fun e v2 h2 => ?_) fun v2 h2 => ?_
      · obtain ⟨hb2, ⟨hc, -⟩ | ⟨c', hc, htakes⟩⟩ := h2
        · cases hc
        · obtain rfl := Out.ok.inj hc
          have hl2 := hb2.chain g.chain (List.disjoint_nil_left _)
          have hs2 := hb2.slots g.chain (List.disjoint_nil_left _)
          obtain ⟨now, v3, e3, s3⟩ := nanotime_same fsi v2
          rw [if_neg hno]
          refine .ok_bind (onVol_run e3) ?_
          have hl3 : FatChain fsi (view fsi v3.disk).fat s.fv.cluster (cs ++ ext) := by rwa [s3.disk]
          have hs3 : volSlots fsi (cs ++ ext) v3 = volSlots fsi cs s.vol ++ Z := by rw [volSlots_same s3, hs2, hZ]
          have hin3 : k + nameSlots name ≤ (volSlots fsi (cs ++ ext) v3).length := by rwa [hs3, ← hZ]
          obtain ⟨v4, e4⟩ := @writeEntry_ok fsi (cs ++ ext) v3 s.fv.cluster k name hk hg hl3
            (newDirent flags fv name s.fv.cluster k c now) hlt.le hin3
          obtain ⟨-, E⟩ := writeEntry_inside hk hg hl3 (.inr ⟨hin3, hlt.le⟩) (by omega) (by omega) e4
          have hkept : DataOnly fsi v3 v4 := by
            have h := @writeEntry_dataOnly fsi (cs ++ ext) v3 s.fv.cluster name hk hg hl3 (32 * k) (newDirent flags fv name s.fv.cluster k c now)
            unfold WP at h
            rwa [e4] at h
          refine .ok_bind (onVol_run e4) (.ite (fun h => absurd h hno) fun _ => ?_)
          have htakes4 := (htakes.same s3).kept hd hl3 hkept E.beside
          have hb : Beside fsi cs s.vol v4 :=
            ((g.beside.trans hb2 fun _ hc => absurd hc List.not_mem_nil).trans (@Beside.of_same fsi [] _ _ s3)
              fun _ hc => absurd hc List.not_mem_nil).trans E.beside fun c hc hcs =>
                .inr (g.fresh c ((List.mem_append.mp hc).resolve_left hcs)).2
          have hentry : EntryWritten fsi s.fv.cluster cs ext name (newDirent flags fv name s.fv.cluster k c now) k s.vol v4 := by
            refine ⟨hfirst, hlt.le, E.chain hl3, Z, hzero, ?_, ?_⟩
            · rwa [← hZ]
            · rw [E.slots, hs3]
          rw [hvp]
          exact .on (entry_made hfv1 hb hentry htakes4)
      · obtain ⟨hb2, ⟨hc, G2⟩ | ⟨c', hc, -⟩⟩ := h2
        · obtain rfl := Out.err.inj hc
          exact ⟨hfv1, g.beside.trans hb2 fun _ hc => absurd hc List.not_mem_nil,
            .full ext Z (hb2.chain g.chain (List.disjoint_nil_left _))
              ((hb2.slots g.chain (List.disjoint_nil_left _)).trans hZ) hzero G2⟩
        · cases hc
      · obtain ⟨-, ⟨hc, -⟩ | ⟨c', hc, -⟩⟩ := h2
        · cases hc
        · cases hc
    · cases ho
  · obtain ⟨hfv1, G1, ⟨k, ext, ho, -⟩ | ⟨ho, ext, g⟩⟩ := h1
    · cases ho
    · obtain rfl := Out.err.inj ho
      obtain ⟨Z, hZ, hzero⟩ := g.slots hg
      exact ⟨hfv1, g.beside, .full ext Z g.chain hZ hzero G1⟩
  · obtain ⟨-, -, ⟨k, ext, ho, -⟩ | ⟨ho, -⟩⟩ := h1
    · cases ho
    · cases ho

end Fat32
