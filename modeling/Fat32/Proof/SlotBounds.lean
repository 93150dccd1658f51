import Mathlib
import Fat32.Proof.AnyRead
import Fat32.Proof.DataArea
import Fat32.Proof.Search
import Fat32.Proof.Scan
import Fat32.Proof.ReadWrite

/-!
# The slots that `fat32_readdir` looks at

`fat32_get_dirent` scans the buffer of a cluster from the place of the offset on, 32 bytes at a
time, and tests only that a slot begins in the buffer. `SlotRead`, `LoopReads` and
`ReaddirReads` say where the slots are that a call looks at. From a multiple of 32 they
are inside the buffer; `fat32_readdir` takes any offset (`readdir_inside_iff`).
-/

namespace Fat32

open Bytes Exec Prog Linked

variable {fsi : Fsi} {c d n o p dn : Nat} {v v' : Vol} {s t : VnSt} {sc sc' : Scan}

/-! ## What is looked at -/

/-- The scan of a buffer from `o` on looks at the slot at `p`. -/
inductive SlotRead (fsi : Fsi) (dNameSize : Nat) (data : Nat → UInt8) : Nat → Scan → Nat → Prop
  | here {o : Nat} {st : Scan} (ho : o < fsi.bytesPerCluster) : SlotRead fsi dNameSize data o st o
  | skip {o p : Nat} {st st' : Scan} (ho : o < fsi.bytesPerCluster)
      (hs : scanSlot dNameSize (slotAt data o) st = .skip st')
      (h : SlotRead fsi dNameSize data (o + dentrySize) st' p) : SlotRead fsi dNameSize data o st p

/-- The loop of `fat32_get_dirent` looks at the slot at `p` of a buffer. -/
inductive LoopReads (fsi : Fsi) (dNameSize : Nat) : Nat → Nat → Scan → Vol → Nat → Prop
  | buffer {cluster o p : Nat} {st : Scan} {v v' : Vol} {bp : Buf} (hr : readCluster fsi cluster v = (.ok bp, v'))
      (h : SlotRead fsi dNameSize bp.data o st p) : LoopReads fsi dNameSize cluster o st v p
  | next {cluster next o p : Nat} {st st' : Scan} {v v' v'' : Vol} {bp : Buf}
      (hr : readCluster fsi cluster v = (.ok bp, v'))
      (hm : scanCluster fsi dNameSize bp.data fsi.bytesPerCluster o st = .more st')
      (hn : nextCluster fsi cluster {} v' = (.ok next, v''))
      (h : LoopReads fsi dNameSize next 0 st' v'' p) : LoopReads fsi dNameSize cluster o st v p

/-- A call of `fat32_get_dirent` looks at the slot at `p` of a buffer. -/
def DirentReads (fsi : Fsi) (offset : Nat) (dName : DName) (s : VnSt) (p : Nat) : Prop :=
  s.fv.type = .vdir ∧ ∃ cluster s', vnodeSeekCluster fsi (offset >>> fsi.clusterShift) {} s = (.ok cluster, s') ∧
    LoopReads fsi dName.size cluster (offset &&& fsi.clusterMask) { offset := offset, name := dName } s'.vol p

/-- `disk_offset`. -/
def diskOffset (offset : Nat) (fv : Fv) : Nat := if fv.flags.root ∧ offset < dentrySize then 0 else offset

/-- The loop of `fat32_readdir` looks at the slot at `p` of a buffer. -/
inductive ReaddirReads (fsi : Fsi) : Readdir → VnSt → Nat → Prop
  | dot {st st' : Readdir} {s : VnSt} {v : Vol} {p : Nat} (hres : st.resid ≠ 0)
      (h0 : st.offset = 0 ∧ s.fv.flags.root)
      (he : emitEntry fsi ⟨0, 1⟩ (dotDName st.dName 1) 1 st s.vol = (.ok (true, st'), v))
      (h : ReaddirReads fsi st' { s with vol := v } p) : ReaddirReads fsi st s p
  | dotdot {st st' : Readdir} {s : VnSt} {v : Vol} {p : Nat} (hres : st.resid ≠ 0)
      (h1 : st.offset = 1 ∧ s.fv.flags.root)
      (he : emitEntry fsi ⟨0, 2⟩ (dotDName st.dName 2) 2 st s.vol = (.ok (true, st'), v))
      (h : ReaddirReads fsi st' { s with vol := v } p) : ReaddirReads fsi st s p
  | dirent {st : Readdir} {s : VnSt} {p : Nat} (hres : st.resid ≠ 0)
      (h0 : ¬ (st.offset = 0 ∧ s.fv.flags.root)) (h1 : ¬ (st.offset = 1 ∧ s.fv.flags.root))
      (h : DirentReads fsi (diskOffset st.offset s.fv) ⟨Function.update st.dName 0 0, dNameSize⟩ s p) :
      ReaddirReads fsi st s p
  | next {st st' : Readdir} {s s' : VnSt} {v : Vol} {p : Nat} {out : DirentOut} (hres : st.resid ≠ 0)
      (h0 : ¬ (st.offset = 0 ∧ s.fv.flags.root)) (h1 : ¬ (st.offset = 1 ∧ s.fv.flags.root))
      (hd : getDirent fsi (diskOffset st.offset s.fv) ⟨Function.update st.dName 0 0, dNameSize⟩ none s =
        (.ok out, s'))
      (he : emitEntry fsi out.dirent out.name out.offset st s'.vol = (.ok (true, st'), v))
      (h : ReaddirReads fsi st' { s' with vol := v } p) : ReaddirReads fsi st s p

/-- `fat32_readdir` with the offset and the buffer of a request looks at the slot at `p`. -/
def RequestReads (fsi : Fsi) (offset resid : Nat) (s : VnSt) (p : Nat) : Prop :=
  s.fv.type = .vdir ∧ ReaddirReads fsi
    { offset := u32 offset, resid := resid, dName := fsi.kernel.stack, err := fsi.kernel.stackErr } s p

/-- A slot that is in the buffer, at a place for slots. -/
def SlotInside (fsi : Fsi) (p : Nat) : Prop := p % dentrySize = 0 ∧ p + dentrySize ≤ fsi.bytesPerCluster

/-! ## Places of slots -/

theorem bpc_dvd (hg : Geometry fsi) : dentrySize ∣ fsi.bytesPerCluster := by
  rw [hg.bpc]
  exact Dvd.dvd.mul_right (by decide) _

theorem clusterOffset_eq (hg : Geometry fsi) (o : Nat) : o &&& fsi.clusterMask = o % fsi.bytesPerCluster := by
  rw [hg.clusterMask, bpc_eq hg, Nat.and_two_pow_sub_one_eq_mod]

theorem SlotRead.inside (hg : Geometry fsi) {data : Nat → UInt8} (h : SlotRead fsi dn data o sc p)
    (ho : o % dentrySize = 0) : SlotInside fsi p := by
  induction h with
  | here hlt =>
    obtain ⟨k, hk⟩ := bpc_dvd hg
    refine ⟨ho, ?_⟩
    simp only [dentrySize] at *
    omega
  | skip _ _ _ ih => exact ih (by rw [Nat.add_mod_right]; exact ho)

theorem Scan.next_aligned (st : Scan) : u32 (st.offset + dentrySize) % dentrySize = st.offset % dentrySize := by
  simp only [u32, dentrySize]
  omega

/-- The offset goes on by whole slots. -/
theorem scanSlot_aligned {x : Slot} {st st' : Scan} (h : scanSlot dn x st = .skip st') :
    st'.offset % dentrySize = st.offset % dentrySize := by
  rw [scanSlot_offset.1 h]
  exact st.next_aligned

theorem scanCluster_offset (data : Nat → UInt8) (n : Nat) : ∀ (o : Nat) (st : Scan),
    (∀ st', scanCluster fsi dn data n o st = .more st' → st'.offset % dentrySize = st.offset % dentrySize) ∧
      ∀ x st', scanCluster fsi dn data n o st = .entry x st' →
        st'.offset % dentrySize = st.offset % dentrySize := by
  induction n with
  | zero =>
    refine fun o st => ⟨fun st' h => ?_, nofun⟩
    rw [← ScanOut.more.inj h]
  | succ n ih =>
    intro o st
    rw [scanCluster]
    split
    · rcases hs : scanSlot dn (slotAt data o) st with _ | st1 | st1
      · exact ⟨fun _ h => (by cases h), fun _ _ h => (by cases h)⟩
      · obtain ⟨h1, h2⟩ := ih (o + dentrySize) st1
        have hst := scanSlot_aligned hs
        exact ⟨fun st' h => (h1 st' h).trans hst, fun x st' h => (h2 x st' h).trans hst⟩
      · refine ⟨fun _ h => (by cases h), fun x st' h => ?_⟩
        rw [← (ScanOut.entry.inj h).2, scanSlot_offset.2 hs]
    · refine ⟨fun st' h => ?_, fun _ _ h => by cases h⟩
      rw [← ScanOut.more.inj h]

theorem LoopReads.inside (hg : Geometry fsi) (h : LoopReads fsi dn c o sc v p) (ho : o % dentrySize = 0) :
    SlotInside fsi p := by
  induction h with
  | buffer _ h => exact h.inside hg ho
  | next _ _ _ _ ih => exact ih (Nat.zero_mod _)

theorem DirentReads.inside (hg : Geometry fsi) {name : DName} (h : DirentReads fsi o name s p)
    (ho : o % dentrySize = 0) : SlotInside fsi p := by
  obtain ⟨-, cluster, s', -, h⟩ := h
  refine h.inside hg ?_
  rw [clusterOffset_eq hg, Nat.mod_mod_of_dvd _ (bpc_dvd hg)]
  exact ho

/-! ## When a call comes to its cluster -/

/-- A cluster of a directory is read at once. -/
theorem readCluster_answer (fsi : Fsi) (c : Nat) (v : Vol) : ∃ v', Same v v' ∧ v'.reads = v.reads + 1 ∧
    ((∃ e, fsi.kernel.readErr v.reads = some e ∧ readCluster fsi c v = (.err e, v')) ∨
      fsi.kernel.readErr v.reads = none ∧ readCluster fsi c v =
        (.ok ⟨clusterToSector fsi c, fsi.sectorsPerCluster, clusterBytes fsi v.disk c⟩, v')) := by
  obtain ⟨v0, e0, s0⟩ := askCluster_ok c v
  have hreads : v0.reads = v.reads := by
    cases e0
    rfl
  have hcount := bread_count fsi (clusterToSector fsi c) fsi.sectorsPerCluster v0
  obtain ⟨v1, s1, ⟨e, he, h⟩ | ⟨he, h⟩⟩ := bread_cases fsi (clusterToSector fsi c) fsi.sectorsPerCluster v0 <;>
    rw [hreads] at he <;> rw [h, hreads] at hcount
  · exact ⟨v1, s0.trans s1, hcount, .inl ⟨e, he, (bind_ok e0).trans h⟩⟩
  · rw [s0.disk] at h
    exact ⟨v1, s0.trans s1, hcount, .inr ⟨he, (bind_ok e0).trans h⟩⟩

/-- The loop of `fat32_get_dirent` reads its first cluster, and goes on by whole slots. -/
theorem getDirentLoop_ok (n : Nat) : ∀ (c o : Nat) (st : Scan) (v : Vol),
    WP (getDirentLoop fsi dn n c o st) v fun r _ => ∀ x, r = .ok x →
      fsi.kernel.readErr v.reads = none ∧ x.2.offset % dentrySize = st.offset % dentrySize := by
  induction n with
  | zero => exact fun _ _ _ _ => .of_run rfl nofun
  | succ n ih =>
    intro c o st v
    rw [getDirentLoop]
    obtain ⟨v1, -, -, ⟨e, -, h⟩ | ⟨he, h⟩⟩ := readCluster_answer fsi c v
    · exact .err_bind h fun _ h => absurd h Out.err_ne_ok
    · obtain ⟨bp, h⟩ : ∃ bp, readCluster fsi c v = (.ok bp, v1) := ⟨_, h⟩
      refine .ok_bind h ?_
      obtain ⟨hmore, hentry⟩ := @scanCluster_offset fsi dn bp.data fsi.bytesPerCluster o st
      rcases hs : scanCluster fsi dn bp.data fsi.bytesPerCluster o st with _ | ⟨x, st1⟩ | st1
      · exact .of_run rfl fun _ h => absurd h Out.err_ne_ok
      · refine .of_run rfl fun y hy => ⟨he, ?_⟩
        rw [← Out.ok.inj hy]
        exact hentry x st1 hs
      · have hst := hmore st1 hs
        refine .bind (R := fun _ _ => True) (.of_run rfl trivial) (fun r v2 _ => ?_) (fun _ _ _ _ h => absurd h Out.err_ne_ok) fun _ _ _ h => absurd h Out.hang_ne_ok
        cases r with
        | error e => exact .of_run rfl fun _ h => absurd h Out.err_ne_ok
        | ok next =>
          exact (ih next 0 st1 v2).mono fun r v3 h3 x hx => ⟨he, (h3 x hx).2.trans hst⟩

/-- Without `NC_ALLOC` the links are followed, or the walk fails. -/
theorem seekLoop_plain (hg : Geometry fsi) {fl : NcFlags} (hfl : fl.alloc = false) (n : Nat) :
    ∀ (c : Nat) (v : Vol), (∃ e v', seekLoop fsi fl n c v = (.err e, v')) ∨
      ∃ d v', seekLoop fsi fl n c v = (.ok d, v') ∧
        walk (fatNext fsi (view fsi v.disk).fat) n c = some d ∧ Answers fsi v.reads n ∧
        v'.reads = v.reads + n := by
  induction n with
  | zero => exact fun c v => .inr ⟨c, v, rfl, rfl, .zero, rfl⟩
  | succ n ih =>
    intro c v
    rw [seekLoop]
    rcases nextCluster_plain hg hfl c v with ⟨e, v1, h, -⟩ | ⟨d, v1, h, hs, hn, hd, ha⟩
    · exact .inl ⟨e, v1, bind_err h⟩
    · rcases ih d v1 with ⟨e, v2, h2⟩ | ⟨x, v2, h2, hw, ha2, hn2⟩
      · exact .inl ⟨e, v2, (bind_ok h).trans h2⟩
      · rw [hs.disk] at hw
        rw [hn] at ha2 hn2
        refine .inr ⟨x, v2, (bind_ok h).trans h2, ?_, ?_, by omega⟩
        · rw [walk, hd]
          exact hw
        · rw [Nat.add_comm, answers_add]
          exact ⟨ha, ha2⟩

/-- Where the walk to a cluster of the directory starts, and how far it is from there. -/
def seekFrom (fv : Fv) (skip : Nat) : ClsCacheEntry := bestEntry fv.clsCache fv.cluster skip

/-- The cluster of the offset is there and is read. -/
def SeekReaches (fsi : Fsi) (offset : Nat) (s : VnSt) : Prop :=
  let best := seekFrom s.fv (offset >>> fsi.clusterShift)
  let n := sub32 (offset >>> fsi.clusterShift) best.index
  (∃ c, walk (fatNext fsi (view fsi s.vol.disk).fat) n best.cluster = some c) ∧
    Answers fsi s.vol.reads (n + 1)

theorem vnodeSeekCluster_plain (hg : Geometry fsi) (offset : Nat) (s : VnSt) :
    (∃ e s', vnodeSeekCluster fsi (offset >>> fsi.clusterShift) {} s = (.err e, s')) ∧ ¬ SeekReaches fsi offset s ∨
    ∃ c s', vnodeSeekCluster fsi (offset >>> fsi.clusterShift) {} s = (.ok c, s') ∧
      (SeekReaches fsi offset s ↔ fsi.kernel.readErr s'.vol.reads = none) := by
  obtain ⟨best, hbest⟩ : ∃ b, bestEntry s.fv.clsCache s.fv.cluster (offset >>> fsi.clusterShift) = b := ⟨_, rfl⟩
  obtain ⟨n, hsub⟩ : ∃ n, sub32 (offset >>> fsi.clusterShift) best.index = n := ⟨_, rfl⟩
  have hrun := @vnodeSeekCluster_run fsi _ n {} s best hbest hsub
  unfold SeekReaches seekFrom
  dsimp only
  rw [hbest, hsub]
  rcases seekLoop_plain hg (show ({} : NcFlags).alloc = false from rfl) n best.cluster s.vol with
    ⟨e, v, h⟩ | ⟨c, v, h, hw, ha, hn⟩
  · rw [h] at hrun
    refine .inl ⟨⟨e, _, hrun⟩, ?_⟩
    rintro ⟨⟨c, hw⟩, ha⟩
    obtain ⟨v', h', -⟩ := seekLoop_answers hg {} n hw (answers_add.mp ha).1
    rw [h] at h'
    cases h'
  · rw [h] at hrun
    refine .inr ⟨c, _, hrun, ?_⟩
    rw [answers_add, answers_one, show v.reads = s.vol.reads + n from hn]
    exact ⟨fun hr => hr.2.2, fun hr => ⟨⟨c, hw⟩, ha, hr⟩⟩

/-- What a call that returns an entry has done. -/
theorem getDirent_reaches (hg : Geometry fsi) (o : Nat) (name : DName) (efv : Option Fv) (s : VnSt) :
    WP (getDirent fsi o name efv) s fun r _ => ∀ out, r = .ok out →
      SeekReaches fsi o s ∧ out.offset % dentrySize = o % dentrySize := by
  have hfail (e : Errno) (t : VnSt) : WP (fail e : FvM DirentOut) t fun r _ => ∀ out, r = .ok out →
      SeekReaches fsi o s ∧ out.offset % dentrySize = o % dentrySize :=
    .of_run (fail_run _ _) fun _ h => nomatch h
  unfold getDirent
  refine .get_bind (.ite (fun _ => hfail _ _) fun _ => ?_)
  rcases vnodeSeekCluster_plain hg o s with ⟨⟨e, s1, h⟩, -⟩ | ⟨c, s1, h, hreach⟩
  · exact .ok_bind (attempt_err h) (hfail _ _)
  · refine .ok_bind (attempt_ok h) (.on_bind (getDirentLoop_ok _ _ _ _ _) (fun x v hx => ?_)
      (fun _ _ _ _ h => nomatch h) fun _ _ _ h => nomatch h)
    obtain ⟨hread, hoff⟩ := hx x rfl
    obtain ⟨e, st⟩ := x
    refine .of_run (pure_run _ _) fun out hout => ⟨hreach.mpr hread, ?_⟩
    rw [← Out.ok.inj hout]
    exact st.next_aligned.trans hoff

theorem LoopReads.read (h : LoopReads fsi dn c o sc v p) : fsi.kernel.readErr v.reads = none := by
  have hok {bp : Buf} {v' : Vol} (hr : readCluster fsi c v = (.ok bp, v')) : fsi.kernel.readErr v.reads = none := by
    obtain ⟨v1, -, -, ⟨e, -, h⟩ | ⟨he, -⟩⟩ := readCluster_answer fsi c v
    · rw [hr] at h
      cases h
    · exact he
  cases h with
  | buffer hr _ => exact hok hr
  | next hr _ _ _ => exact hok hr

theorem DirentReads.reaches (hg : Geometry fsi) {name : DName} (h : DirentReads fsi o name s p) :
    SeekReaches fsi o s := by
  obtain ⟨-, c, s1, h1, h⟩ := h
  rcases vnodeSeekCluster_plain hg o s with ⟨⟨e, s2, h2⟩, -⟩ | ⟨c2, s2, h2, hreach⟩
  · rw [h1] at h2
    cases congrArg Prod.fst h2
  · have hs : s1 = s2 := congrArg Prod.snd (h1.symm.trans h2)
    rw [hs] at h
    exact hreach.mpr h.read

/-! ## A request -/

theorem emitEntry_offset {de : Dirent} {name : DName} {next : Nat} {st st' : Readdir}
    (h : emitEntry fsi de name next st v = (.ok (true, st'), v')) : st'.offset = next := by
  have hend : WP (emitEntry fsi de name next st) v fun r _ => ∀ x, r = .ok x → x.1 = true → x.2.offset = next := by
    unfold emitEntry
    refine .bind (R := fun _ _ => True) (.of_run rfl trivial) (fun r v1 _ => ?_) (fun _ _ _ => nofun) fun _ _ => nofun
    cases r with
    | ok n =>
      refine .of_run (pure_run _ _) fun x hx _ => ?_
      rw [← Out.ok.inj hx]
    | error e =>
      refine .of_run (pure_run _ _) fun x hx hx1 => ?_
      rw [← Out.ok.inj hx] at hx1
      cases hx1
  unfold WP at hend
  rw [h] at hend
  exact hend _ rfl rfl

/-- From a place for slots. -/
theorem ReaddirReads.inside (hg : Geometry fsi) {st : Readdir} (h : ReaddirReads fsi st s p)
    (ho : diskOffset st.offset s.fv % dentrySize = 0) : SlotInside fsi p := by
  induction h with
  | dot _ h0 he _ ih =>
    refine ih ?_
    rw [emitEntry_offset he]
    simp [diskOffset, h0.2, dentrySize]
  | dotdot _ h1 he _ ih =>
    refine ih ?_
    rw [emitEntry_offset he]
    simp [diskOffset, h1.2, dentrySize]
  | dirent _ _ _ h => exact h.inside hg ho
  | @next st st' s s' v p out _ _ _ hd he _ ih =>
    have hout := getDirent_reaches hg (diskOffset st.offset s.fv) ⟨Function.update st.dName 0 0, dNameSize⟩ none s
    unfold WP at hout
    rw [hd] at hout
    have hmod := (hout out rfl).2.trans ho
    refine ih ?_
    rw [emitEntry_offset he, diskOffset]
    split
    · rfl
    · exact hmod

/-- From another place: the slots are those of a cluster that is read. -/
theorem ReaddirReads.reaches (hg : Geometry fsi) {st : Readdir} (h : ReaddirReads fsi st s p)
    (ho : diskOffset st.offset s.fv % dentrySize ≠ 0) : SeekReaches fsi (diskOffset st.offset s.fv) s := by
  cases h with
  | dot _ h0 _ _ =>
    refine absurd ?_ ho
    simp [diskOffset, h0.1, dentrySize]
  | dotdot _ h1 _ _ =>
    refine absurd ?_ ho
    simp [diskOffset, h1.1, h1.2, dentrySize]
  | dirent _ _ _ h => exact h.reaches hg
  | next _ _ _ hd _ _ =>
    have hout := getDirent_reaches hg (diskOffset st.offset s.fv) ⟨Function.update st.dName 0 0, dNameSize⟩ none s
    unfold WP at hout
    rw [hd] at hout
    exact (hout _ rfl).1

/-- All slots that a request looks at are in the buffer and at places for slots, if and only if its
offset is one, or no slot is looked at: the buffer of the request is empty, the vnode is no directory,
or the cluster of the offset is not there or not read. -/
theorem readdir_inside_iff (hg : Geometry fsi) (offset resid : Nat) (s : VnSt) :
    (∀ p, RequestReads fsi offset resid s p → SlotInside fsi p) ↔
      diskOffset (u32 offset) s.fv % dentrySize = 0 ∨ resid = 0 ∨ s.fv.type ≠ .vdir ∨
        ¬ SeekReaches fsi (diskOffset (u32 offset) s.fv) s := by
  constructor
  · intro hall
    by_contra hno
    simp only [not_or, not_not] at hno
    obtain ⟨ho, hres, hdir, hreach⟩ := hno
    obtain ⟨o, hoo⟩ : ∃ o, diskOffset (u32 offset) s.fv = o := ⟨_, rfl⟩
    rw [hoo] at ho hreach
    -- the first slot that is looked at
    have hplace : SlotInside fsi (o % fsi.bytesPerCluster) := by
      refine hall _ ⟨hdir, .dirent hres (fun h => ?_) (fun h => ?_) ?_⟩
      · refine absurd ?_ ho
        rw [← hoo, show u32 offset = 0 from h.1]
        simp [diskOffset, dentrySize]
      · refine absurd ?_ ho
        rw [← hoo, show u32 offset = 1 from h.1]
        simp [diskOffset, h.2, dentrySize]
      · dsimp only
        rw [hoo]
        rcases vnodeSeekCluster_plain hg o s with ⟨-, hno⟩ | ⟨c, s1, h, hiff⟩
        · exact absurd hreach hno
        · obtain ⟨v1, -, -, ⟨e, he, -⟩ | ⟨-, hr⟩⟩ := readCluster_answer fsi c s1.vol
          · rw [hiff.mp hreach] at he
            cases he
          · refine ⟨hdir, c, s1, h, .buffer hr ?_⟩
            rw [clusterOffset_eq hg]
            exact .here (Nat.mod_lt _ (by have := bpc_pos hg; omega))
    refine ho ?_
    have hmod := hplace.1
    rwa [Nat.mod_mod_of_dvd _ (bpc_dvd hg)] at hmod
  · rintro hcond p ⟨hdir, h⟩
    by_cases ho : diskOffset (u32 offset) s.fv % dentrySize = 0
    · exact h.inside hg ho
    · rcases hcond.resolve_left ho with hres | hres | hres
      · cases h with
        | dot h0 _ _ _ => exact absurd hres h0
        | dotdot h0 _ _ _ => exact absurd hres h0
        | dirent h0 _ _ _ => exact absurd hres h0
        | next h0 _ _ _ _ _ => exact absurd hres h0
      · exact absurd hdir hres
      · exact absurd (h.reaches hg ho) hres

/-- A directory of one cluster, not the root directory. -/
def oneClusterDir : VnSt where
  vol := image [clusterEoc, 0] fun _ => []
  fv := { vnodeNew (small 2) with type := .vdir, cluster := 2 }

theorem oneClusterDir_reads (h : o < 512) : RequestReads (small 2) o 1000 oneClusterDir o := by
  have hskip : o >>> (small 2).clusterShift = 0 := by
    rw [Nat.shiftRight_eq_div_pow]
    exact Nat.div_eq_of_lt h
  have hmask : o &&& (small 2).clusterMask = o := by
    rw [clusterOffset_eq small_geometry]
    exact Nat.mod_eq_of_lt h
  have hu : u32 o = o := Nat.mod_eq_of_lt (by omega)
  have hseek := @vnodeSeekCluster_run (small 2) 0 0 {} oneClusterDir ⟨0, 2⟩ (by decide) (by decide)
  obtain ⟨v1, -, -, ⟨e, he, -⟩ | ⟨-, hr⟩⟩ := readCluster_answer (small 2) 2 oneClusterDir.vol
  · cases he
  · rw [RequestReads, hu]
    have hdisk : diskOffset o oneClusterDir.fv = o := if_neg fun h => nomatch h.1
    refine ⟨rfl, .dirent (show 1000 ≠ 0 by decide) (fun h => nomatch h.2) (fun h => nomatch h.2) ?_⟩
    dsimp only
    rw [hdisk, DirentReads, hskip, hmask]
    exact ⟨rfl, 2, _, hseek, .buffer hr (.here h)⟩

theorem oneClusterDir_inside : SlotInside (small 2) 64 :=
  (readdir_inside_iff small_geometry 64 1000 oneClusterDir).mpr (.inl (by decide)) 64
    (oneClusterDir_reads (by decide))

/-- From offset 511 the slot looked at ends 31 bytes behind the buffer. -/
theorem readdir_passes_buffer : RequestReads (small 2) 511 1000 oneClusterDir 511 ∧
    ¬ SlotInside (small 2) 511 :=
  ⟨oneClusterDir_reads (by decide), fun h => absurd h.1 (by decide)⟩

end Fat32
