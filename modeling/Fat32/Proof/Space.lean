import Mathlib
import Fat32.Proof.Truncate
import Fat32.Proof.ReadWrite
import Fat32.Proof.FirstFree
import Fat32.Proof.Requests

/-!
# Running out of space

On a good FAT an allocation fails only when no cluster is free. The clusters of a file
and the free ones are its `room`: no step changes it, and a step that extends the
chain ends when it is used up. So what `truncate` and `write` do is known from the
request and the room (`truncate_room`, `write_room`).
-/

namespace Fat32

open Bytes Exec Prog Linked

variable {fsi : Fsi} {H : Finset Nat} {l l' ext : List Nat} {v v' : Vol} {s s' : VnSt} {c i p : Nat}
  {fl : NcFlags}

/-! ## Allocation -/

theorem freeEntries_pos (h : freeEntries fsi (view fsi v.disk).fat ≠ 0) :
    ∃ e, InRange fsi e ∧ (view fsi v.disk).fat e = 0 := by
  obtain ⟨e, he⟩ := Finset.card_pos.mp (Nat.pos_of_ne_zero h)
  exact ⟨e, mem_freeEntries.mp he⟩

/-- With a free cluster, an allocation succeeds. -/
theorem Good.allocates (hk : Reliable fsi.kernel) (hg : Geometry fsi) (G : Good fsi H v)
    (hp : p = 0 ∨ InRange fsi p) (fl : NcFlags) (hfree : freeEntries fsi (view fsi v.disk).fat ≠ 0) :
    ∃ r v', allocateCluster fsi p fl v = (.ok r, v') := by
  obtain ⟨e, he, hz⟩ := freeEntries_pos hfree
  have hcount : ¬ (v.freeCount = 0 ∨ v.freeCount = 0xFFFFFFFF) := by
    have hle := freeEntries_le fsi (view fsi v.disk).fat
    have hcnt := hg.count
    simp only [clusterBad] at hcnt
    rw [G.count]
    omega
  have hpos : 0 < fsi.clusterCount := by
    have := he.1
    have := he.2
    omega
  have hs := searchStart_inRange hg hpos v.nextFree
  obtain ⟨v1, -, ⟨r, hsearch, hr⟩ | ⟨-, hall⟩⟩ := searchFree_first hk hg hs fsi.clusterCount (v := v)
    hs (by rw [cyclicDist_self, Nat.add_zero]) fun e _ hlt => by
      rw [cyclicDist_self] at hlt
      exact absurd hlt (Nat.not_lt_zero _)
  · obtain ⟨v2, h2⟩ := allocateCluster_found hk hg hp hcount hr.inRange hsearch fl
    exact ⟨r, v2, h2⟩
  · exact absurd hz (hall e he)

/-- At the end of a chain `nextCluster` fails only when no cluster is free. -/
theorem Good.next_full (hk : Reliable fsi.kernel) (hg : Geometry fsi) (G : Good fsi H v)
    (hf : fatFin fsi (view fsi v.disk).fat c) (hfl : fl.alloc = true) {e : Errno}
    (h : nextCluster fsi c fl v = (.err e, v')) : freeEntries fsi (view fsi v.disk).fat = 0 := by
  by_contra hfree
  obtain ⟨v1, s1, e1⟩ := nextCluster_append hk hg hf hfl
  obtain ⟨r, v2, h2⟩ := (G.same s1).allocates hk hg (.inr hf.1) fl (by rwa [s1.disk])
  rw [e1, h2] at h
  exact absurd (congrArg Prod.fst h) nofun

/-! ## Room -/

/-- The clusters of a file and those it could get. -/
def room (fsi : Fsi) (l : List Nat) (v : Vol) : Nat :=
  l.length + freeEntries fsi (view fsi v.disk).fat

theorem ResizeStep.room_eq (hg : Geometry fsi) (h : OnGood fsi l s) (st : ResizeStep fsi l l' s s') :
    room fsi l' s'.vol = room fsi l s.vol := by
  have hchain := h.coherent.chain
  have hchain' := st.next.coherent.chain
  have hcount := st.resized.count (hchain.nodup hg) (hchain'.nodup hg)
    (fun c hc => ⟨hchain.inRange c hc, hchain.ne_zero c hc⟩)
    (fun c hc => ⟨hchain'.inRange c hc, hchain'.ne_zero c hc⟩)
  unfold room
  omega

/-- The next cluster of a file: it is there, was free, or no cluster is free. -/
theorem OnGood.next_room (hk : Reliable fsi.kernel) (hg : Geometry fsi) (h : OnGood fsi l s)
    (hfl : fl.alloc = true) (hc : l[i]? = some c) : ∃ v' ext, ResizeStep fsi l (l ++ ext) s ⟨v', s.fv⟩ ∧
      ((∃ d, nextCluster fsi c fl s.vol = (.ok d, v') ∧ (l ++ ext)[i + 1]? = some d) ∨
        nextCluster fsi c fl s.vol = (.err .enospc, v') ∧ (l ++ ext).length = i + 1 ∧
          room fsi l s.vol = i + 1) := by
  obtain ⟨hco, H, G, hH⟩ := h
  have hl := hco.of_index hc
  have hmem := List.mem_of_getElem? hc
  have hH := hH.resolve_left hl.head_ne_zero
  obtain ⟨v1, G1, hrun⟩ := nextCluster_good hk hg G ⟨_, hH, l, hl, hmem⟩ fl
  obtain ⟨v2, ext, g, hres⟩ := nextCluster_grown hk hg fl hl hc
  obtain rfl : v1 = v2 := by
    rcases hrun with ⟨_, e⟩ | ⟨_, e, -⟩ <;> rcases hres with ⟨_, e', -⟩ | ⟨e', -⟩ <;>
      exact congrArg Prod.snd (e.symm.trans e')
  have hstep := g.fileStep hg hco hl
  refine ⟨v1, ext, ⟨⟨hstep.coherent, H, G1, .inr hH⟩, g.resized, rfl⟩, hres.imp_right ?_⟩
  rintro ⟨e, rfl, hlen⟩
  refine ⟨e, by rw [List.append_nil, hlen], ?_⟩
  rcases hl.step hc with ⟨hf, -⟩ | ⟨d, hn, -⟩
  · rw [room, G.next_full hk hg hf hfl e, hlen]
  · obtain ⟨v3, e3, -⟩ := nextCluster_link hk hg hn fl
    rw [e3] at e
    exact absurd (congrArg Prod.fst e) nofun

/-- Seeking `n` clusters on from index `i`. -/
theorem OnGood.seek_room (hk : Reliable fsi.kernel) (hg : Geometry fsi) (hfl : fl.alloc = true)
    (n : Nat) : ∀ {c i : Nat} {l : List Nat} {s : VnSt}, OnGood fsi l s → l[i]? = some c →
      ∃ v' ext, ResizeStep fsi l (l ++ ext) s ⟨v', s.fv⟩ ∧
        ((∃ d, seekLoop fsi fl n c s.vol = (.ok d, v') ∧ (l ++ ext)[i + n]? = some d) ∨
          seekLoop fsi fl n c s.vol = (.err .enospc, v') ∧ room fsi l s.vol ≤ i + n ∧
            (l ++ ext).length = room fsi l s.vol) := by
  induction n with
  | zero =>
    intro c i l s h hc
    refine ⟨s.vol, [], ?_, .inl ⟨c, rfl, by rwa [List.append_nil]⟩⟩
    rw [List.append_nil]
    exact .refl h
  | succ n ih =>
    intro c i l s h hc
    obtain ⟨v1, e1, st1, ⟨d, hd, hdi⟩ | ⟨he, hlen, hroom⟩⟩ := h.next_room hk hg hfl hc
    · obtain ⟨v2, e2, st2, h2⟩ := ih (c := d) (i := i + 1) (l := l ++ e1) (s := ⟨v1, s.fv⟩)
        st1.next hdi
      have hroom := st1.room_eq hg h
      dsimp only at hroom
      have hrun : seekLoop fsi fl (n + 1) c s.vol = seekLoop fsi fl n d v1 := bind_ok hd
      rw [List.append_assoc] at st2 h2
      rw [show i + 1 + n = i + (n + 1) by omega] at h2
      refine ⟨v2, e1 ++ e2, st1.trans st2, ?_⟩
      rw [hrun, ← hroom]
      exact h2
    · have hrun : seekLoop fsi fl (n + 1) c s.vol = (.err .enospc, v1) := bind_err he
      refine ⟨v1, e1, st1, .inr ⟨hrun, ?_, ?_⟩⟩
      · rw [hroom]
        omega
      · rw [hroom, hlen]

/-- The first cluster of a file without clusters. -/
theorem OnGood.first_room (hk : Reliable fsi.kernel) (hg : Geometry fsi) (h : OnGood fsi l s)
    (hfl : fl.alloc = true) (g : Bool → Bool) :
    WP (do
      let s ← get
      if s.fv.cluster = 0 then do
        let cluster ← onVol (nextCluster fsi 0 fl)
        modifyFv fun fv => { fv with
          cluster := cluster
          flags := { fv.flags with cluster := true, modified := g fv.flags.modified } }
      else pure ()) s fun r s' => ∃ ext, ResizeStep fsi l (l ++ ext) s s' ∧
        s'.fv.size = s.fv.size ∧ (r = .ok () ∧ s'.fv.cluster ≠ 0 ∨
          r = .err .enospc ∧ l ++ ext = [] ∧ room fsi l s.vol = 0) := by
  refine .get_bind (.ite (fun hc => ?_) fun hc => ?_)
  · obtain rfl := h.coherent.nil_of_zero hc
    obtain ⟨H, G, -⟩ := h.good
    have hn : nextCluster fsi 0 fl s.vol = allocateCluster fsi 0 fl s.vol := nextCluster_zero hfl
    obtain ⟨v, ⟨e, hs⟩ | ⟨r, e, A⟩⟩ := allocateCluster_ok hk hg (v := s.vol) (.inl rfl) fl
    · have hfull : freeEntries fsi (view fsi s.vol.disk).fat = 0 := by
        by_contra hfree
        obtain ⟨r, v', hr⟩ := G.allocates hk hg (.inl rfl) fl hfree
        rw [e] at hr
        exact absurd (congrArg Prod.fst hr) nofun
      refine .of_run (bind_err (onVol_run (hn.trans e))) ⟨[], ⟨⟨?_, H, G.same hs, .inl hc⟩,
        .of_same hs, rfl⟩, rfl, .inr ⟨rfl, rfl, ?_⟩⟩
      · exact h.coherent.same hs rfl rfl
      · rw [room, hfull, List.length_nil]
    · have G' : Good fsi (insert r H) v :=
        G.allocated hg A (.inl rfl) (G.owned.alloc hg A.inRange A.free)
      have hdead := h.coherent.cache
      rw [hc] at hdead
      refine .of_run (bind_ok (onVol_run (hn.trans e))) ⟨[r], ⟨⟨?_, insert r H, G', ?_⟩,
        A.grown_zero.resized, rfl⟩, rfl, .inl ⟨rfl, A.grown_zero.chain.head_ne_zero⟩⟩
      · exact .of_chain A.grown_zero.chain fun e he hne => absurd (hdead.dead e he) hne
      · exact .inr (Finset.mem_insert_self _ _)
  · refine .of_run rfl ⟨[], ?_, rfl, .inl ⟨rfl, hc⟩⟩
    rw [List.append_nil]
    exact .refl h

/-- Seeking through the cache. -/
theorem OnGood.vnodeSeek_room (hk : Reliable fsi.kernel) (hg : Geometry fsi) (h : OnGood fsi l s)
    (hfl : fl.alloc = true) {skip : Nat} (hskip : skip < 2 ^ 32) (hc : s.fv.cluster ≠ 0) :
    WP (vnodeSeekCluster fsi skip fl) s fun r s' => ∃ ext, ResizeStep fsi l (l ++ ext) s s' ∧
      s'.fv.size = s.fv.size ∧ ((∃ d, r = .ok d ∧ (l ++ ext)[skip]? = some d) ∨
        r = .err .enospc ∧ room fsi l s.vol ≤ skip ∧ (l ++ ext).length = room fsi l s.vol) := by
  have hl := h.coherent.chain.of_ne hc
  obtain ⟨i, b, hw, hi, e⟩ := vnodeSeekCluster_eq hskip fl h.coherent.cache
  rw [hl.walk_eq (fatEnds hg _)] at hw
  obtain ⟨v, ext, st, ⟨d, hd, hdi⟩ | ⟨he, hroom, hlen⟩⟩ := h.seek_room hk hg hfl (skip - i) hw
  · rw [hd] at e
    rw [Nat.add_sub_cancel' hi] at hdi
    have hl' := st.next.coherent.chain.of_ne hc
    refine .of_run e ⟨ext, ⟨⟨?_, st.next.good⟩, st.resized, rfl⟩, rfl, .inl ⟨d, rfl, hdi⟩⟩
    refine .of_chain hl' (st.next.coherent.cache.update fun _ => ?_)
    rw [hl'.walk_eq (fatEnds hg _), hdi]
  · rw [he] at e
    rw [Nat.add_sub_cancel' hi] at hroom
    exact .of_run e ⟨ext, st, rfl, .inr ⟨rfl, hroom, hlen⟩⟩

/-! ## Truncation -/

/-- `needed_clusters` of `fat32_truncate`. -/
def neededClusters (fsi : Fsi) (size : Nat) : Nat :=
  if size = 0 then 0 else u32 ((size + fsi.bytesPerCluster - 1) >>> fsi.clusterShift)

theorem neededClusters_lt (fsi : Fsi) (size : Nat) : neededClusters fsi size < 2 ^ 32 := by
  simp only [neededClusters, u32]
  split <;> omega

/-- A regular file gets a size for which there is room; otherwise it gets all there is,
and keeps its size. -/
theorem truncate_room (hk : Reliable fsi.kernel) (hg : Geometry fsi)
    (hfuel : fsi.clusterCount < fsi.kernel.fuel) (h : OnGood fsi l s) (hreg : s.fv.type = .vreg)
    (size : Nat) : WP (truncate fsi size) s fun r s' =>
      (r = .ok () ∧ neededClusters fsi size ≤ room fsi l s.vol ∧ s'.fv.flags.size = true ∧
        s'.fv.size = if neededClusters fsi size = 0 then 0 else size) ∨
      r = .err .enospc ∧ room fsi l s.vol < neededClusters fsi size ∧ s'.fv.size = s.fv.size ∧
        ∃ l', OnGood fsi l' s' ∧ l'.length = room fsi l s.vol := by
  obtain ⟨k, hkk⟩ : ∃ k, neededClusters fsi size = k := ⟨_, rfl⟩
  have hlt := neededClusters_lt fsi size
  rw [hkk] at hlt ⊢
  rw [neededClusters] at hkk
  unfold truncate
  rw [hkk]
  by_cases h0 : k = 0
  · simp only [h0, if_pos]
    obtain ⟨s', e, -, -, hsz, hfl, -⟩ := truncateZero_step hk hg hfuel h.coherent
    exact .of_run e (.inl ⟨rfl, Nat.zero_le _, hfl, hsz⟩)
  · simp only [if_neg h0]
    refine .get_bind (.bind (h.first_room hk hg rfl fun _ => true) ?_ ?_ ?_)
    · rintro _ s1 ⟨ext1, st1, sz1, ⟨-, hc1⟩ | ⟨he, -⟩⟩
      · have hroom := st1.room_eq hg h
        refine .bind (st1.next.vnodeSeek_room hk hg rfl (by omega) hc1) ?_ ?_ ?_
        · rintro c s2 ⟨ext2, st2, -, ⟨d, hd, hdi⟩ | ⟨he, -⟩⟩
          · obtain rfl := Out.ok.inj hd
            have hroom2 := st2.room_eq hg st1.next
            have hlen := (List.getElem?_eq_some_iff.mp hdi).1
            obtain ⟨s3, e3, st3, -⟩ :=
              freeExtra_step hk hg hfuel st2.next.coherent (Nat.pos_of_ne_zero h0) hdi
            have hty : s3.fv.type = .vreg := st3.fv.type.trans (st2.type.trans (st1.type.trans hreg))
            refine .of_run (bind_ok e3) (.inl ⟨rfl, ?_, rfl, ?_⟩)
            · rw [← hroom, ← hroom2, room]
              omega
            · show (if s3.fv.type = .vdir then 0 else size) = size
              rw [hty]
              rfl
          · cases he
        · rintro e s2 ⟨ext2, st2, sz2, ⟨d, hd, -⟩ | ⟨he, hle, hlen⟩⟩
          · cases hd
          · cases he
            rw [hroom] at hle hlen
            exact .inr ⟨rfl, by omega, sz2.trans sz1, _, st2.next, hlen⟩
        · rintro s2 ⟨ext2, -, -, ⟨d, hd, -⟩ | ⟨he, -⟩⟩
          · cases hd
          · cases he
      · cases he
    · rintro e s1 ⟨ext1, st1, sz1, ⟨he, -⟩ | ⟨he, hnil, hroom⟩⟩
      · cases he
      · cases he
        have hnext := st1.next
        rw [hnil] at hnext
        refine .inr ⟨rfl, ?_, sz1, [], hnext, ?_⟩
        · rw [hroom]
          exact Nat.pos_of_ne_zero h0
        · rw [hroom, List.length_nil]
    · rintro s1 ⟨ext1, -, -, ⟨he, -⟩ | ⟨he, -⟩⟩ <;> cases he

/-! ## Rounds of a write -/

/-- `uiomove` was not called. -/
def SameMoves (v v' : Vol) : Prop := v'.io.nmove = v.io.nmove

theorem sameMoves_fatRel (fsi : Fsi) : FatRel fsi SameMoves where
  trans h k := Eq.trans k h
  quiet _ h _ := h
  bread s v := by
    show (bread fsi s 1 v).2.io.nmove = _
    unfold bread
    dsimp only
    split <;> rfl
  cluster s v := by
    show (bread fsi s _ v).2.io.nmove = _
    unfold bread
    dsimp only
    split <;> rfl
  getblk _ _ := rfl
  bdwrite _ _ := rfl

/-- The next `n` calls of `uiomove` do not fault. -/
def Moves (fsi : Fsi) (v : Vol) (n : Nat) : Prop :=
  ∀ j < n, fsi.kernel.uiomoveErr (v.io.nmove + j) = none

/-- The volume after a call of `uiomove`. -/
def Vol.moved (v : Vol) : Vol := { v with io := { v.io with nmove := v.io.nmove + 1 } }

theorem Vol.same_moved (v : Vol) : Same v v.moved := ⟨rfl, rfl, rfl⟩

theorem uiomove_moves (h : fsi.kernel.uiomoveErr v.io.nmove = none) :
    uiomove fsi v = (.ok (), v.moved) := by
  simp only [uiomove, h]
  rfl

theorem uiomove_faults {e : Errno} (h : fsi.kernel.uiomoveErr v.io.nmove = some e) :
    uiomove fsi v = (.err e, v.moved) := by
  simp only [uiomove, h]
  rfl

/-- Storing the bytes of a cluster keeps a good FAT. -/
theorem Good.data (hg : Geometry fsi) (G : Good fsi H v) {f : Nat → UInt8}
    (hd : DataSet fsi c f v.disk v'.disk) (hr : InRange fsi c) (hfree : v'.freeCount = v.freeCount) :
    Good fsi H v' := by
  obtain ⟨owned, copies, count, info⟩ := G
  have hfat : (view fsi v'.disk).fat = (view fsi v.disk).fat := by
    rw [hd.view hg hr]
    rfl
  refine ⟨by rwa [hfat], fun k hk e he => ?_, by rw [hfree, count, hfat], ?_⟩
  · rw [hd.fatCopy hg hr hk he, hd.fatCopy hg hr hg.numFats he]
    exact copies k hk e he
  · rw [hfree, ← info]
    refine rle32_congr fun i hi => hd.outside hg hr ?_
    have := hg.infoData
    simp only [fsinfoFreeCount]
    omega

/-- What a round of `writeLoop` that stores `n` bytes does. -/
structure Round (fsi : Fsi) (l : List Nat) (n : Nat) (t t' : RwSt) : Prop where
  step : ResizeStep fsi l l t.vn t'.vn
  offset : t'.uio.offset = t.uio.offset + n
  size : (t'.vn.fv.size : Int) = max (t.vn.fv.size : Int) (t.uio.offset + n)
  moves : t'.vn.vol.io.nmove = t.vn.vol.io.nmove + 1

theorem growSize_size (t : RwSt) :
    ((growSize t).2.vn.fv.size : Int) = max (t.vn.fv.size : Int) t.uio.offset := by
  simp only [growSize, modify_run]
  split
  · show (t.uio.offset.toNat : Int) = _
    omega
  · omega

/-- A round stores its bytes, or the user's memory faults. -/
theorem writeRound_room (hk : Reliable fsi.kernel) (hg : Geometry fsi) {t : RwSt} {o n : Nat}
    (h : OnGood fsi l t.vn) (hc : l[i]? = some c) {m : RwM (Nat × Nat)}
    {Q : Out Errno (Nat × Nat) → RwSt → Prop}
    (hok : fsi.kernel.uiomoveErr t.vn.vol.io.nmove = none → ∀ t', Round fsi l n t t' → WP m t' Q)
    (herr : ∀ e t', fsi.kernel.uiomoveErr t.vn.vol.io.nmove = some e → Q (.err e) t') :
    WP (do
      let bp ← onVn (onVol (readCluster fsi c))
      let data ← uiomoveIn fsi bp.data o n
      onVn (onVol (bdwrite { bp with data := data }))
      growSize
      m) t Q := by
  obtain ⟨hco, H, G, hH⟩ := h
  have hmem := List.mem_of_getElem? hc
  have hr := (hco.of_index hc).inRange _ hmem
  obtain ⟨v1, e1, sm1⟩ := readCluster_ok hk hg hr t.vn.vol
  have hn1 : v1.io.nmove = t.vn.vol.io.nmove := by
    have h := (sameMoves_fatRel fsi).readCluster c t.vn.vol
    rwa [e1] at h
  refine .ok_bind (onVn_run (onVol_run e1)) ?_
  unfold uiomoveIn
  rw [← hn1] at hok herr
  cases hmove : fsi.kernel.uiomoveErr v1.io.nmove with
  | some e =>
    exact .err_bind (bind_err (onVn_run (onVol_run (uiomove_faults hmove)))) (herr e _ hmove)
  | none =>
    refine .ok_bind (bind_ok (onVn_run (onVol_run (uiomove_moves hmove)))) ?_
    have sm2 : Same t.vn.vol v1.moved := sm1.trans v1.same_moved
    obtain ⟨v3, e3, hd, hfree, -⟩ := bdwrite_cluster hg c (poke (fun o => t.vn.vol.disk (clusterAddr fsi c + o))
      o n fun i => t.uio.mem (t.uio.pos + i)) v1.moved
    have hn3 : v3.io.nmove = v1.moved.io.nmove := by
      have h := (sameMoves_fatRel fsi).bdwrite ⟨fsi.dataStart + (c - 2) * fsi.sectorsPerCluster,
        fsi.sectorsPerCluster, poke (fun o => t.vn.vol.disk (clusterAddr fsi c + o))
          o n fun i => t.uio.mem (t.uio.pos + i)⟩ v1.moved
      rwa [e3] at h
    refine .ok_bind (onVn_run (onVol_run e3)) ?_
    obtain ⟨t4, e4, hv4, huio4, hf4, -⟩ := growSize_run ⟨⟨v3, t.vn.fv⟩, t.uio.moved n⟩
    have hsize := growSize_size ⟨⟨v3, t.vn.fv⟩, t.uio.moved n⟩
    rw [e4] at hsize
    have hfat : (view fsi v3.disk).fat = (view fsi t.vn.vol.disk).fat := by
      rw [hd.view hg hr, sm2.symm.disk]
      rfl
    rw [hn1] at hmove hok
    refine .ok_bind e4 (hok hmove t4 ⟨⟨⟨?_, H, ?_, ?_⟩, ?_, hf4.keeps.type⟩, ?_, hsize, ?_⟩)
    · constructor
      · rw [hv4, hfat, hf4.cluster]
        exact hco.chain
      · rw [hv4, hfat, hf4.cluster, hf4.clsCache]
        exact hco.cache
    · rw [hv4]
      exact (G.same sm2).data hg hd hr hfree
    · rwa [hf4.cluster]
    · rw [hv4]
      exact ⟨fun c hc hn => absurd hc hn, fun c hc hn => absurd hc hn, fun e _ _ => by rw [hfat]⟩
    · rw [huio4]
      rfl
    · rw [hv4, hn3, ← hn1]
      rfl

theorem clustersFor_add (hg : Geometry fsi) (n : Nat) :
    clustersFor fsi (fsi.bytesPerCluster + n) = clustersFor fsi n + 1 := by
  have hb := bpc_pos hg
  rw [clustersFor, clustersFor, show fsi.bytesPerCluster + n + fsi.bytesPerCluster - 1 =
    n + fsi.bytesPerCluster - 1 + fsi.bytesPerCluster by omega, Nat.add_div_right _ (by omega)]

theorem clustersFor_one (hg : Geometry fsi) {n : Nat} (hn : 0 < n) (hle : n ≤ fsi.bytesPerCluster) :
    clustersFor fsi n = 1 := by
  have hb := bpc_pos hg
  rw [clustersFor, Nat.div_eq_iff (by omega)]
  omega

/-- The transfers of the next rounds succeed. -/
theorem Moves.cons {v v' : Vol} {n : Nat} (h : fsi.kernel.uiomoveErr v.io.nmove = none)
    (hv : v'.io.nmove = v.io.nmove + 1) (hn : Moves fsi v' n) : Moves fsi v (n + 1) := by
  intro j hj
  cases j with
  | zero => exact h
  | succ j =>
    have := hn j (by omega)
    rwa [hv, Nat.add_assoc, Nat.add_comm 1] at this

/-- How a write of `rem` bytes from byte `o` of the cluster with index `skip` ends, when
the file has room for `T` clusters: all bytes are stored, the room is used up, or the
user's memory faults. -/
def WriteEnd {α : Type} (fsi : Fsi) (T skip o rem : Nat) (t : RwSt) (r : Out Errno α) (t' : RwSt) : Prop :=
  ((∃ x, r = .ok x) ∧ skip * fsi.bytesPerCluster + o + rem ≤ T * fsi.bytesPerCluster ∧
      Moves fsi t.vn.vol (clustersFor fsi (o + rem)) ∧
      (t'.vn.fv.size : Int) = max (t.vn.fv.size : Int) (t.uio.offset + rem)) ∨
    (r = .err .enospc ∧ T * fsi.bytesPerCluster < skip * fsi.bytesPerCluster + o + rem ∧
      Moves fsi t.vn.vol (T - skip) ∧ (∃ l, OnGood fsi l t'.vn ∧ l.length = T) ∧
      (t'.vn.fv.size : Int) = max (t.vn.fv.size : Int)
        (t.uio.offset + (T * fsi.bytesPerCluster - (skip * fsi.bytesPerCluster + o) : Nat))) ∨
    ∃ j e, r = .err e ∧ fsi.kernel.uiomoveErr (t.vn.vol.io.nmove + j) = some e ∧
      j < clustersFor fsi (o + rem) ∧ skip + j < T

/-- The same end, told of another run between states that agree on what it is about. -/
theorem WriteEnd.of {α β : Type} {T skip o rem : Nat} {t u t' u' : RwSt} {r : Out Errno α}
    {r' : Out Errno β} (h : WriteEnd fsi T skip o rem u r u')
    (hmoves : u.vn.vol.io.nmove = t.vn.vol.io.nmove) (hsize : u.vn.fv.size = t.vn.fv.size)
    (hoffset : u.uio.offset = t.uio.offset)
    (hok : ∀ x, r = .ok x → (∃ y, r' = .ok y) ∧ t'.vn.fv.size = u'.vn.fv.size)
    (herr : ∀ e, r = .err e → r' = .err e ∧ t' = u') : WriteEnd fsi T skip o rem t r' t' := by
  unfold WriteEnd Moves at h
  rw [hmoves, hsize, hoffset] at h
  rcases h with ⟨⟨x, hx⟩, h⟩ | ⟨he, h⟩ | ⟨j, e, he, h⟩
  · obtain ⟨hy, hsz⟩ := hok x hx
    rw [← hsz] at h
    exact .inl ⟨hy, h⟩
  · obtain ⟨he', rfl⟩ := herr _ he
    exact .inr (.inl ⟨he', h⟩)
  · exact .inr (.inr ⟨j, e, (herr e he).1, h⟩)

/-- A round before the others. -/
theorem WriteEnd.cons {α : Type} (hg : Geometry fsi) {T skip o rem m : Nat} {t u t' : RwSt}
    {r : Out Errno α} (hom : o + m = fsi.bytesPerCluster) (hrem : m < rem) (hT : skip < T)
    (hmove : fsi.kernel.uiomoveErr t.vn.vol.io.nmove = none)
    (hmoves : u.vn.vol.io.nmove = t.vn.vol.io.nmove + 1) (hoffset : u.uio.offset = t.uio.offset + m)
    (hsize : (u.vn.fv.size : Int) = max (t.vn.fv.size : Int) (t.uio.offset + m))
    (h : WriteEnd fsi T (skip + 1) 0 (rem - m) u r t') : WriteEnd fsi T skip o rem t r t' := by
  have hrounds : clustersFor fsi (o + rem) = clustersFor fsi (0 + (rem - m)) + 1 := by
    rw [← clustersFor_add hg]
    congr 1
    omega
  have hpos : (skip + 1) * fsi.bytesPerCluster = skip * fsi.bytesPerCluster + o + m := by
    rw [Nat.add_mul, Nat.one_mul]
    omega
  rcases h with ⟨hok, hle, hmv, hsz⟩ | ⟨herr, hlt, hmv, hl, hsz⟩ | ⟨j, e, herr, hj, hlt, hT'⟩
  · rw [hpos] at hle
    refine .inl ⟨hok, by omega, ?_, ?_⟩
    · rw [hrounds]
      exact hmv.cons hmove hmoves
    · rw [hsz, hsize, hoffset]
      omega
  · rw [hpos] at hlt hsz
    have hroom : (skip + 1) * fsi.bytesPerCluster ≤ T * fsi.bytesPerCluster :=
      Nat.mul_le_mul_right _ hT
    rw [hpos] at hroom
    refine .inr (.inl ⟨herr, by omega, ?_, hl, ?_⟩)
    · rw [show T - skip = T - (skip + 1) + 1 by omega]
      exact hmv.cons hmove hmoves
    · rw [hsz, hsize, hoffset]
      omega
  · refine .inr (.inr ⟨j + 1, e, herr, ?_, by omega, by omega⟩)
    rw [← hj, hmoves, Nat.add_right_comm, Nat.add_assoc]

theorem writeLoop_room (hk : Reliable fsi.kernel) (hg : Geometry fsi) (n : Nat) :
    ∀ {cluster skip o rem : Nat} {l : List Nat} {t : RwSt}, OnGood fsi l t.vn →
      l[skip]? = some cluster → o < fsi.bytesPerCluster → 0 < rem → rem ≤ n →
      WP (writeLoop fsi n cluster skip o rem) t fun r t' =>
        WriteEnd fsi (room fsi l t.vn.vol) skip o rem t r t' := by
  induction n with
  | zero => exact fun _ _ _ h h' => absurd h (by omega)
  | succ n ih =>
    intro cluster skip o rem l t h hc ho hrem hn
    have hlt := (List.getElem?_eq_some_iff.mp hc).1
    have hroom : skip < room fsi l t.vn.vol := Nat.lt_of_lt_of_le hlt (Nat.le_add_right _ _)
    have hmul : (skip + 1) * fsi.bytesPerCluster ≤ room fsi l t.vn.vol * fsi.bytesPerCluster :=
      Nat.mul_le_mul_right _ hroom
    rw [Nat.add_mul, Nat.one_mul] at hmul
    unfold writeLoop
    generalize hm : min (fsi.bytesPerCluster - o) rem = m
    refine writeRound_room hk hg h hc (fun hmove t1 R => ?_) fun e t1 hmove => ?_
    · have hroom1 := R.step.room_eq hg h
      refine .ite (fun hz => ?_) fun hmore => ?_
      · -- this was the last round
        refine .of_run rfl (.inl ⟨⟨_, rfl⟩, by omega, ?_, ?_⟩)
        · rw [clustersFor_one hg (by omega) (by omega)]
          exact Moves.cons hmove R.moves fun _ h => absurd h (Nat.not_lt_zero _)
        · rw [R.size, show m = rem by omega]
      · have hom : o + m = fsi.bytesPerCluster := by omega
        obtain ⟨v2, ext, st2, hres⟩ := R.step.next.next_room hk hg (show ({ alloc := true } : NcFlags).alloc = true from rfl) hc
        have hroom2 := st2.room_eq hg R.step.next
        dsimp only at hroom2
        have hmoves : v2.io.nmove = t1.vn.vol.io.nmove := by
          have hsame := (sameMoves_fatRel fsi).nextCluster cluster { alloc := true } t1.vn.vol
          rcases hres with ⟨d, e2, -⟩ | ⟨e2, -⟩ <;> rwa [e2] at hsame
        rcases hres with ⟨d, e2, hd⟩ | ⟨e2, hlen, hfull⟩
        · refine .ok_bind (onVn_run (onVol_run e2)) ?_
          rw [(R.step.next.coherent.of_index hc).index_lt hg hc]
          refine (ih (t := ⟨⟨v2, t1.vn.fv⟩, t1.uio⟩) st2.next hd (by omega) (by omega)
            (by omega)).mono fun r t3 h3 => ?_
          rw [hroom2, hroom1] at h3
          exact h3.cons (u := ⟨⟨v2, t1.vn.fv⟩, t1.uio⟩) hg hom (by omega) hroom hmove
            (hmoves.trans R.moves) R.offset R.size
        · rw [hroom1] at hfull
          refine .err_bind (onVn_run (onVol_run e2)) (.inr (.inl ⟨rfl, ?_, ?_, ⟨_, st2.next, ?_⟩, ?_⟩))
          · rw [hfull, Nat.add_mul, Nat.one_mul]
            omega
          · rw [hfull, Nat.add_sub_cancel_left]
            exact Moves.cons hmove R.moves fun _ h => absurd h (Nat.not_lt_zero _)
          · rw [hlen, hfull]
          · show (t1.vn.fv.size : Int) = _
            rw [R.size, hfull, Nat.add_mul, Nat.one_mul, show skip * fsi.bytesPerCluster +
              fsi.bytesPerCluster - (skip * fsi.bytesPerCluster + o) = m by omega]
    · refine .inr (.inr ⟨0, e, rfl, hmove, ?_, hroom⟩)
      have : clustersFor fsi (o + rem) = 0 ↔ o + rem = 0 := clustersFor_eq_zero hg
      omega

/-- How `write` ends: there is no room up to where it starts, or as `WriteEnd` says. -/
def WriteResult (fsi : Fsi) (T skip o rem : Nat) (t : RwSt) (r : Out Errno Unit) (t' : RwSt) : Prop :=
  (r = .err .enospc ∧ T ≤ skip ∧ (∃ l, OnGood fsi l t'.vn ∧ l.length = T) ∧
      t'.vn.fv.size = t.vn.fv.size) ∨
    skip < T ∧ WriteEnd fsi T skip o rem t r t'

theorem WriteResult.of {T skip o rem : Nat} {t u t' : RwSt} {r : Out Errno Unit}
    (h : WriteResult fsi T skip o rem u r t') (hmoves : u.vn.vol.io.nmove = t.vn.vol.io.nmove)
    (hsize : u.vn.fv.size = t.vn.fv.size) (hoffset : u.uio.offset = t.uio.offset) :
    WriteResult fsi T skip o rem t r t' := by
  rcases h with ⟨he, hle, hl, hsz⟩ | ⟨hlt, h⟩
  · exact .inl ⟨he, hle, hl, hsz.trans hsize⟩
  · exact .inr ⟨hlt, h.of hmoves hsize hoffset (fun x hx => ⟨⟨x, hx⟩, rfl⟩) fun e he => ⟨he, rfl⟩⟩

theorem writeFrom_room (hk : Reliable fsi.kernel) (hg : Geometry fsi) {t : RwSt} {skip o rem : Nat}
    (h : OnGood fsi l t.vn) (hc : t.vn.fv.cluster ≠ 0) (hskip : skip < 2 ^ 32)
    (ho : o < fsi.bytesPerCluster) (hrem : 0 < rem) :
    WP (do
      let cluster ← onVn (vnodeSeekCluster fsi skip { alloc := true })
      let last ← writeLoop fsi rem cluster skip o rem
      onVn (vnodeUpdateCache last.1 last.2)) t
      (WriteResult fsi (room fsi l t.vn.vol) skip o rem t) := by
  have hmoves := ((sameMoves_fatRel fsi).vnodeSeekCluster skip { alloc := true }).wp t.vn
  refine .on_bind ((h.vnodeSeek_room hk hg rfl hskip hc).and hmoves) ?_ ?_ ?_
  · rintro cluster s1 ⟨⟨ext, st1, sz1, ⟨d, hd, hdi⟩ | ⟨he, -⟩⟩, hmv⟩
    · obtain rfl := Out.ok.inj hd
      have hroom := st1.room_eq hg h
      have hlt : skip < room fsi l t.vn.vol := by
        rw [← hroom]
        exact Nat.lt_of_lt_of_le (List.getElem?_eq_some_iff.mp hdi).1 (Nat.le_add_right _ _)
      refine .bind (writeLoop_room (t := ⟨s1, t.uio⟩) hk hg rem st1.next hdi ho hrem (Nat.le_refl _))
        ?_ ?_ ?_
      · intro last t2 h2
        rw [hroom] at h2
        exact .of_run rfl (.inr ⟨hlt, h2.of hmv sz1 rfl (fun _ _ => ⟨⟨_, rfl⟩, rfl⟩) nofun⟩)
      · intro e t2 h2
        rw [hroom] at h2
        exact .inr ⟨hlt, h2.of hmv sz1 rfl nofun fun e' he => ⟨by rw [Out.err.inj he], rfl⟩⟩
      · rintro t2 (⟨⟨x, hx⟩, -⟩ | ⟨he, -⟩ | ⟨j, e, he, -⟩)
        · cases hx
        · cases he
        · cases he
    · cases he
  · rintro e s1 ⟨⟨ext, st1, sz1, ⟨d, hd, -⟩ | ⟨he, hle, hlen⟩⟩, -⟩
    · cases hd
    · cases he
      exact .inl ⟨rfl, hle, ⟨_, st1.next, hlen⟩, sz1⟩
  · rintro s1 ⟨⟨ext, -, -, ⟨d, hd, -⟩ | ⟨he, -⟩⟩, -⟩
    · cases hd
    · cases he

/-- The request of `write` with the place where it starts. -/
def RwSt.startAt (append : Bool) (t : RwSt) : RwSt :=
  { t with uio := { t.uio with offset := writePos append t } }

/-- The cluster where a write starts, and the offset there, as the code computes them. -/
def writeIndex (fsi : Fsi) (append : Bool) (t : RwSt) : Nat :=
  lo32 (writePos append t >>> fsi.clusterShift)

def writeOffset (fsi : Fsi) (append : Bool) (t : RwSt) : Nat :=
  lo32 (writePos append t) &&& fsi.clusterMask

/-- A request without bytes. -/
theorem write_nothing {t : RwSt} (h : Coherent fsi l t.vn) (hreg : t.vn.fv.type = .vreg)
    (append : Bool) (hz : t.uio.resid = 0) :
    (write fsi append t).1 = .ok () ∧ (write fsi append t).2.vn.fv.size = t.vn.fv.size := by
  obtain ⟨s1, e1, -, -, -, hz1⟩ := touchFv_step h false true
  unfold write
  rw [get_bind_run, if_neg (not_not.mpr hreg), bind_ok (onVn_run e1), if_pos hz]
  exact ⟨rfl, hz1⟩

/-- What `write` does to a regular file on a good FAT. -/
theorem write_room (hk : Reliable fsi.kernel) (hg : Geometry fsi) {t : RwSt} (h : OnGood fsi l t.vn)
    (hreg : t.vn.fv.type = .vreg) (append : Bool) (hrem : t.uio.resid ≠ 0) :
    WP (write fsi append) t (WriteResult fsi (room fsi l t.vn.vol) (writeIndex fsi append t)
      (writeOffset fsi append t) t.uio.resid (t.startAt append)) := by
  unfold write
  refine .get_bind (.ite (fun hno => absurd hreg hno) fun _ => ?_)
  obtain ⟨s1, e1, st1, sm1, hc1, hz1⟩ := touchFv_step h.coherent false true
  have hmv1 : s1.vol.io.nmove = t.vn.vol.io.nmove := by
    have hm := ((sameMoves_fatRel fsi).touchFv false true) t.vn
    rwa [e1] at hm
  have h1 : OnGood fsi l s1 := by
    obtain ⟨H, G, hH⟩ := h.good
    exact ⟨st1.coherent, H, G.same sm1, by rwa [hc1]⟩
  have hroom1 : room fsi l s1.vol = room fsi l t.vn.vol := by
    rw [room, room, sm1.disk]
  refine .ok_bind (onVn_run e1) (.ite (fun hz => absurd hz hrem) fun _ => ?_)
  refine .ok_bind (modify_run _ _) ?_
  have hmoves : Through SameMoves VnSt.vol (writeFirst fsi) :=
    (sameMoves_fatRel fsi).get_bind fun _ => .ite (fun _ => (sameMoves_fatRel fsi).bind
      (.onVol ((sameMoves_fatRel fsi).nextCluster _ _)) fun _ => (sameMoves_fatRel fsi).modifyFv _)
      fun _ => (sameMoves_fatRel fsi).pure _
  refine .on_bind ((h1.first_room hk hg rfl id).and (hmoves.wp s1)) ?_ ?_ ?_
  · rintro _ s2 ⟨⟨ext, st2, hz2, ⟨-, hc2⟩ | ⟨he, -⟩⟩, hmv2⟩
    · have hroom2 := st2.room_eq hg h1
      refine (writeFrom_room (t := ⟨s2, (t.startAt append).uio⟩) hk hg st2.next hc2 (lo32_lt _)
        (inCluster_lt hg _) (Nat.pos_of_ne_zero hrem)).mono fun r t3 h3 => ?_
      rw [hroom2, hroom1] at h3
      exact h3.of (Eq.trans hmv2 hmv1) (hz2.trans hz1) rfl
    · cases he
  · rintro e s2 ⟨⟨ext, st2, hz2, ⟨he, -⟩ | ⟨he, hnil, hroom2⟩⟩, -⟩
    · cases he
    · cases he
      have hnext := st2.next
      rw [hnil] at hnext
      rw [← hroom1, hroom2]
      exact .inl ⟨rfl, Nat.zero_le _, ⟨[], hnext, rfl⟩, hz2.trans hz1⟩
  · rintro s2 ⟨⟨ext, -, -, ⟨he, -⟩ | ⟨he, -⟩⟩, -⟩ <;> cases he

end Fat32
