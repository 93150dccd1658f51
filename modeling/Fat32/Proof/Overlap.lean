import Mathlib
import Fat32.Proof.Requests
import Fat32.Proof.Rename
import Fat32.Proof.FirstFree
import Fat32.Proof.Scan

/-!
# Overlapping buffers

The block cache takes buffers of different ranges for different data. `clearCluster`
takes a cluster one block at a time, everything else takes the whole cluster, so
the two ask for the same ranges only where a cluster is one block
(`disciplined_iff`).
-/

namespace Fat32

open Bytes Exec Prog BlockCache

variable {fsi : Fsi}

/-! ## The property -/

/-- The blocks of the buffer that a request gives. A `bdwrite` is of a buffer that
was given before. -/
def BufReq.range : BufReq → Option Range
  | bread s n => some ⟨s, n⟩
  | getblk s n => some ⟨s, n⟩
  | bdwrite _ _ => none

/-- The volume as it is mounted. -/
def Fsi.under (fsi : Fsi) (k : Kernel) (rdonly : Bool) : Fsi :=
  { fsi with kernel := k, vfsRdonly := rdonly }

/-- The buffers asked for from the mount to the end of a run. -/
def buffers (fsi : Fsi) (vol : Vol) (ops : List VnOp) : List Range :=
  (runOps fsi (mounted fsi vol) ops).vol.io.log.filterMap BufReq.range

/-- The range has a block of the data area. -/
def InData (fsi : Fsi) (k : Range) : Prop :=
  ∃ b, k.Has b ∧ fsi.dataStart ≤ b ∧ b < fsi.dataStart + fsi.clusterCount * fsi.sectorsPerCluster

theorem mem_buffers {vol : Vol} {ops : List VnOp} {r : BufReq} {k : Range}
    (h : r ∈ (runOps fsi (mounted fsi vol) ops).vol.io.log) (hk : r.range = some k) :
    k ∈ buffers fsi vol ops := by
  unfold buffers
  exact List.mem_filterMap.mpr ⟨r, h, hk⟩

/-- A range that some run asks for. -/
def Asked (fsi : Fsi) (k : Range) : Prop := ∃ kernel rdonly vol ops, vol.io.log = [] ∧
  k ∈ buffers (fsi.under kernel rdonly) vol ops

abbrev Block : Type := Fin 512 → UInt8

theorem under_geometry (hg : Geometry fsi) (k : Kernel) (rdonly : Bool) :
    Geometry (fsi.under k rdonly) := by
  obtain ⟨h1, h2, h3, h4, h5, h6, h7, h8, h9, h10, h11, h12, h13, h14⟩ := hg
  exact ⟨h1, h2, h3, h4, h5, h6, h7, h8, h9, h10, h11, h12, h13, h14⟩

/-- What `readCluster` asks for. -/
def clusterRange (fsi : Fsi) (c : Nat) : Range := ⟨clusterToSector fsi c, fsi.sectorsPerCluster⟩

/-- What `clearCluster` stores, in order. -/
def zeroing (fsi : Fsi) (c : Nat) : List (Request Block) :=
  (clearCluster fsi c ⟨fun _ => 0, 0, 0, {}⟩).2.io.log.reverse.filterMap fun
    | .bdwrite s n => some (.store ⟨s, n⟩ fun _ _ => 0)
    | _ => none

/-- Buffers that the driver asks for do not overlap in part, and a cluster that was
zeroed is read as zero, with anything before it and any requests that store nothing
in the cluster after it. -/
structure Disciplined (fsi : Fsi) : Prop where
  apart : ∀ kernel rdonly vol ops, vol.io.log = [] →
    ∀ k ∈ buffers (fsi.under kernel rdonly) vol ops,
    ∀ l ∈ buffers (fsi.under kernel rdonly) vol ops, InData fsi k → InData fsi l → k.Fits l
  zero : ∀ c, InRange fsi c → ∀ (disk : Nat → Block) (before after : List (Request Block)) s,
    (∀ q ∈ before, Asked fsi q.range) → (∀ q ∈ after, Asked fsi q.range) →
    (∀ k data, .store k data ∈ after → k.Apart (clusterRange fsi c)) →
    BlockCache.Run (before ++ zeroing fsi c ++ after) ⟨disk, fun _ => none⟩ s →
    ∀ b, (clusterRange fsi c).Has b → s.read (clusterRange fsi c) b = fun _ => 0

/-! ## What is asked for -/

theorem clearLoop_succ (s n : Nat) (v : Vol) : ∃ v',
    v'.io.log = .bdwrite (u32 s) 1 :: .getblk (u32 s) 1 :: v.io.log ∧
      clearLoop s (n + 1) v = clearLoop (s + 1) n v' := ⟨_, rfl, rfl⟩

/-- `clearCluster` asks for single blocks. -/
theorem clearCluster_requests (c : Nat) :
    Requests (fun r => ∃ s, r = .getblk s 1 ∨ r = .bdwrite s 1) id (clearCluster fsi c) := by
  have hloop (n : Nat) : ∀ s,
      Requests (fun r => ∃ s, r = .getblk s 1 ∨ r = .bdwrite s 1) id (clearLoop s n) := by
    induction n with
    | zero => exact fun _ => .pure _
    | succ n ih =>
      intro s v r hr
      obtain ⟨v', hlog, e⟩ := clearLoop_succ s n v
      rw [e] at hr
      rcases ih (s + 1) v' r hr with hr | hr
      · rw [id, hlog] at hr
        rcases List.mem_cons.mp hr with rfl | hr
        · exact .inr ⟨_, .inr rfl⟩
        · rcases List.mem_cons.mp hr with rfl | hr
          · exact .inr ⟨_, .inl rfl⟩
          · exact .inl hr
      · exact .inr hr
  exact .bind (.modify fun _ => rfl) fun _ => hloop _ _

/-- Every range asked for is of one block or of the size of a cluster. -/
theorem lengths_blockRel (fsi : Fsi) : BlockRel fsi fun v w => ∀ r ∈ w.io.log, r ∈ v.io.log ∨
    ∀ k, r.range = some k → k.len = 1 ∨ k.len = fsi.sectorsPerCluster where
  trans h k r hr := (k r hr).elim (h r) .inr
  other h _ r hr := .inl (h ▸ hr)
  bread s := bread_requests fun _ h => by cases h; exact .inl rfl
  cluster s := bread_requests fun _ h => by cases h; exact .inr rfl
  getblk s v r hr := by
    rcases List.mem_cons.mp hr with rfl | hr
    · exact .inr fun _ h => by cases h; exact .inl rfl
    · exact .inl hr
  bdwrite b := bdwrite_requests nofun

/-- The log only grows. -/
theorem grows_blockRel (fsi : Fsi) : BlockRel fsi fun v w => ∀ r ∈ v.io.log, r ∈ w.io.log where
  trans h k r hr := k r (h r hr)
  other h _ _ hr := h ▸ hr
  bread s v _ hr := bread_log s 1 v ▸ List.mem_cons_of_mem _ hr
  cluster s v _ hr := bread_log s _ v ▸ List.mem_cons_of_mem _ hr
  getblk _ _ _ hr := List.mem_cons_of_mem _ hr
  bdwrite _ _ _ hr := List.mem_cons_of_mem _ hr

/-! ## Clusters of one block -/

theorem buffers_len {vol : Vol} (hlog : vol.io.log = []) {ops : List VnOp} {k : Range}
    (hk : k ∈ buffers fsi vol ops) : k.len = 1 ∨ k.len = fsi.sectorsPerCluster := by
  obtain ⟨r, hr, hrk⟩ := List.mem_filterMap.mp hk
  rcases (lengths_blockRel fsi).run vol ops r hr with hr | h
  · rw [hlog] at hr
    cases hr
  · exact h k hrk

theorem clusterToSector_u32 (fsi : Fsi) (c : Nat) :
    u32 (clusterToSector fsi c) = clusterToSector fsi c := Nat.mod_mod _ _

theorem zeroing_one (h : fsi.sectorsPerCluster = 1) (c : Nat) :
    zeroing fsi c = [.store (clusterRange fsi c) fun _ _ => 0] := by
  obtain ⟨v0, e0, hlog0⟩ : ∃ v0, askCluster c ⟨fun _ => 0, 0, 0, {}⟩ = (.ok (), v0) ∧
      v0.io.log = [] := ⟨_, rfl, rfl⟩
  obtain ⟨v1, hlog1, e1⟩ := clearLoop_succ (clusterToSector fsi c) 0 v0
  have e2 : clearLoop (clusterToSector fsi c + 1) 0 v1 = (.ok (), v1) := rfl
  rw [zeroing, clearCluster, bind_ok e0, h, e1, e2, hlog1, hlog0, clusterToSector_u32, clusterRange, h]
  rfl

/-- The buffers of single blocks are one memory with the disk. -/
theorem disciplined_of_one (h : fsi.sectorsPerCluster = 1) : Disciplined fsi := by
  have hlen {k : Range} (hk : Asked fsi k) : k.len = 1 := by
    obtain ⟨kernel, rdonly, vol, ops, hlog, hk⟩ := hk
    exact (buffers_len hlog hk).elim id fun e => e.trans h
  refine ⟨fun kernel rdonly vol ops hlog k hk l hl _ _ => ?_, fun c hc disk before after s hb ha haway
    run b hcb => ?_⟩
  · exact .of_one (hlen ⟨kernel, rdonly, vol, ops, hlog, hk⟩)
      (hlen ⟨kernel, rdonly, vol, ops, hlog, hl⟩)
  · have hzero := zeroing_one h c
    have hP : ∀ k l : Range, k.len = 1 → l.len = 1 → k.Fits l := fun _ _ => .of_one
    have hholds := Holds.run hP run (.empty _ disk) fun q hq => ?_
    · rw [hholds.read hP h hcb, List.foldl_append, List.foldl_append, hzero,
        foldl_apply_away fun k data hq hkb => haway k data hq b hkb hcb, List.foldl_cons,
        List.foldl_nil, Request.apply_store hcb]
    · rcases List.mem_append.mp hq with hq | hq
      · rcases List.mem_append.mp hq with hq | hq
        · exact hlen (hb q hq)
        · rw [hzero] at hq
          obtain rfl := List.mem_singleton.mp hq
          exact h
      · exact hlen (ha q hq)

/-! ## Clusters of more blocks -/

section

variable {σ α β : Type} {π : σ → Vol} {m : Prog Errno σ α} {f : α → Prog Errno σ β} {s : σ}
  {P : BufReq → Prop}

/-- What was asked for before the rest of a program. -/
theorem WP.grown {r : BufReq} (h : WP m s fun _ t => r ∈ (π t).io.log)
    (hf : ∀ a, Through (fun v w => ∀ r ∈ v.io.log, r ∈ w.io.log) π (f a)) :
    WP (m >>= f) s fun _ t => r ∈ (π t).io.log := by
  refine .bind h (fun a t ht => ?_) (fun _ _ ht => ht) fun _ ht => ht
  exact .of_run rfl (hf a t r ht)

end

theorem readCluster_logs (c : Nat) (v : Vol) : WP (readCluster fsi c) v fun _ t =>
    .bread (clusterToSector fsi c) fsi.sectorsPerCluster ∈ t.io.log := by
  obtain ⟨v0, e0⟩ : ∃ v0, askCluster c v = (.ok (), v0) := ⟨_, rfl⟩
  refine .ok_bind e0 (.of_run rfl ?_)
  show _ ∈ (bread fsi (clusterToSector fsi c) fsi.sectorsPerCluster v0).2.io.log
  rw [bread_log]
  exact List.mem_cons_self

theorem clearCluster_logs (hspc : 0 < fsi.sectorsPerCluster) (c : Nat) (v : Vol) :
    WP (clearCluster fsi c) v fun _ t => .getblk (clusterToSector fsi c) 1 ∈ t.io.log := by
  obtain ⟨n, hn⟩ := Nat.exists_eq_add_of_lt hspc
  rw [Nat.zero_add] at hn
  obtain ⟨v0, e0⟩ : ∃ v0, askCluster c v = (.ok (), v0) := ⟨_, rfl⟩
  obtain ⟨v1, hlog, e1⟩ := clearLoop_succ (clusterToSector fsi c) n v0
  refine .ok_bind e0 ?_
  rw [hn]
  refine .of_run e1 ((grows_blockRel fsi).fat.clearLoop n _ v1 _ ?_)
  rw [id, hlog, clusterToSector_u32]
  exact List.mem_cons_of_mem _ List.mem_cons_self

theorem writeFdentry_logs (c : Nat) (d : Slot) (v : Vol) : WP (writeFdentry fsi c 0 d) v
    fun _ t => .bread (clusterToSector fsi c) fsi.sectorsPerCluster ∈ t.io.log := by
  have hseek : seekCluster fsi c (0 >>> fsi.clusterShift) {} v = (.ok c, v) := by
    rw [Nat.zero_shiftRight, seekCluster, if_pos rfl]
    rfl
  exact .ok_bind hseek (WP.grown (readCluster_logs c v) fun _ =>
    (grows_blockRel fsi).bdwrite _)

/-- The cluster of a new directory is asked for by the block. -/
theorem initDir_getblk (hg : Geometry fsi) (c parent : Nat) (v : Vol) :
    WP (initDir fsi c parent) v fun _ t => .getblk (clusterToSector fsi c) 1 ∈ t.io.log := by
  have B := grows_blockRel fsi
  have hspc : 0 < fsi.sectorsPerCluster := hg.spc ▸ Nat.two_pow_pos _
  refine WP.grown (clearCluster_logs hspc c v) fun _ => ?_
  exact B.bind B.nanotime fun _ => B.bind (B.writeFdentry _ _ _) fun _ => B.writeFdentry _ _ _

/-- It is asked for as a whole. -/
theorem initDir_bread (hg : Geometry fsi) {c : Nat} (hc : InRange fsi c) (parent : Nat) (v : Vol) :
    WP (initDir fsi c parent) v fun _ t =>
      .bread (clusterToSector fsi c) fsi.sectorsPerCluster ∈ t.io.log := by
  obtain ⟨v1, e1, -⟩ := clearCluster_ok hg hc v
  refine .ok_bind e1 (.ok_bind rfl ?_)
  exact WP.grown (writeFdentry_logs c _ _) fun _ => (grows_blockRel fsi).writeFdentry _ _ _

/-- A search that starts at a free cluster. -/
theorem allocateCluster_first (hk : Reliable fsi.kernel) (hg : Geometry fsi) {v : Vol}
    (hr : InRange fsi v.nextFree) (hz : (view fsi v.disk).fat v.nextFree = 0)
    (hcount : ¬ (v.freeCount = 0 ∨ v.freeCount = 0xFFFFFFFF)) (fl : NcFlags) :
    ∃ v', allocateCluster fsi 0 fl v = (.ok v.nextFree, v') := by
  obtain ⟨n, hn⟩ : ∃ n, fsi.clusterCount = n + 1 := ⟨fsi.clusterCount - 1, by
    have := hr.1
    have := hr.2
    omega⟩
  obtain ⟨v1, e1, s1⟩ := rmwCluster_read hk hg hr v
  have hsearch : searchFree fsi v.nextFree fsi.clusterCount v.nextFree v = (.ok v.nextFree, v1) := by
    rw [hn, searchFree, bind_ok e1, if_pos hz]
    rfl
  have hstart : searchStart fsi v.nextFree = v.nextFree := if_neg (hr.not_outside hg)
  have hfound : searchFree fsi (searchStart fsi v.nextFree) fsi.clusterCount
      (searchStart fsi v.nextFree) v = (.ok v.nextFree, v1) := by
    rw [hstart, hsearch]
  exact allocateCluster_found hk hg (.inl rfl) hcount hr hfound fl

/-! ## A new directory -/

/-- A disk of zeros. -/
def zeroVol : Vol := { disk := fun _ => 0, freeCount := 1, nextFree := clusterMin }

theorem zero_fat (c : Nat) {v : Vol} (hs : Same zeroVol v) : (view fsi v.disk).fat c = 0 := by
  rw [hs.disk]
  show (if InRange fsi c then rle32 (fun _ => 0) (fatAddr fsi 0 c) % 2 ^ 28 else 0) = 0
  split
  · rfl
  · rfl

/-- The vnode of a directory of one cluster on this disk. -/
structure ZeroDir (fsi : Fsi) (s : VnSt) : Prop where
  dir : IsDir fsi [s.fv.cluster] s
  zero : Same zeroVol s.vol
  cluster : InRange fsi s.fv.cluster

theorem ZeroDir.slots {s : VnSt} (h : ZeroDir fsi s) (hg : Geometry fsi) :
    ∃ l, readSlots fsi [s.fv.cluster] s.vol = (fun _ => 0) :: l := by
  have hbytes : clusterBytes fsi s.vol.disk s.fv.cluster = fun _ => 0 := by
    unfold clusterBytes
    rw [h.zero.disk]
    rfl
  have hdrop := clusterSlots_drop (fun _ => 0) (slotsPer_pos hg)
  rw [List.drop_zero] at hdrop
  exact ⟨_, by rw [readSlots, dirSlots_cons, hbytes, hdrop]; rfl⟩

/-- A directory that begins with its end has no entries. -/
theorem ZeroDir.findDirent {s : VnSt} (h : ZeroDir fsi s) (hk : Reliable fsi.kernel)
    (hg : Geometry fsi) (hfuel : 1 ≤ fsi.kernel.fuel) (name : List UInt8) (efv : Fv) :
    ∃ t, Fat32.findDirent fsi name efv s = (.err .enoent, t) ∧ ZeroDir fsi t := by
  obtain ⟨n, hn⟩ := Nat.exists_eq_succ_of_ne_zero (show fsi.kernel.fuel ≠ 0 by omega)
  have hlen : [s.fv.cluster].length ≤ fsi.kernel.fuel := hfuel
  obtain ⟨t, e, ht, hs, hc⟩ := getDirent_run hk hg hlen h.dir (i := 0)
    (by decide) ⟨Function.update fsi.kernel.stack 0 0, dNameSize⟩ (some (vnodeReset fsi efv))
  obtain ⟨l, hl⟩ := h.slots hg
  rw [hl, List.drop_zero] at e
  have e' : getDirent fsi 0 ⟨Function.update fsi.kernel.stack 0 0, dNameSize⟩
      (some (vnodeReset fsi efv)) s = (.err .enoent, t) := e
  refine ⟨t, ?_, hc ▸ ht, h.zero.trans hs, hc ▸ h.cluster⟩
  have htype : ¬ s.fv.type ≠ .vdir := fun hne => hne h.dir.type
  rw [Fat32.findDirent, get_bind_run, if_neg htype, hn, findLoop, bind_err e']

/-- It has room. -/
theorem ZeroDir.allocFdentry {s : VnSt} (h : ZeroDir fsi s) (hk : Reliable fsi.kernel)
    (hg : Geometry fsi) (hfuel : 1 ≤ fsi.kernel.fuel) :
    ∃ t, Fat32.allocFdentry fsi 1 s = (.ok 0, t) ∧ t.fv = s.fv ∧ Same zeroVol t.vol := by
  obtain ⟨n, hn⟩ := Nat.exists_eq_succ_of_ne_zero (show fsi.kernel.fuel ≠ 0 by omega)
  obtain ⟨m, hm⟩ : ∃ m, fsi.bytesPerCluster = m + 1 := ⟨fsi.bytesPerCluster - 1, by
    have := bpc_pos hg
    omega⟩
  obtain ⟨v1, e1, s1⟩ := readCluster_bytes hk s.fv.cluster s.vol
  have hz1 := h.zero.trans s1
  obtain ⟨x, v2, e2, s2⟩ := nextCluster_none (v := v1) hk hg noAlloc (c := s.fv.cluster) (by
    rw [fatNext, zero_fat _ hz1]
    exact if_neg fun h0 => absurd h0.2.1 (by decide))
  have hne : s.fv.cluster ≠ 0 := by
    have := h.cluster.1
    omega
  have hbytes : clusterBytes fsi s.vol.disk s.fv.cluster 0 = 0 := by
    rw [clusterBytes, h.zero.disk]
    rfl
  have hstep : allocCluster fsi 1 0 (clusterBytes fsi s.vol.disk s.fv.cluster)
      fsi.bytesPerCluster 0 {} = .last {} := by
    rw [hm, allocCluster, if_pos (by omega), hbytes]
    rfl
  have hloop : allocLoop fsi 1 fsi.kernel.fuel s.fv.cluster 0 {} false s.vol =
      (.ok (.ok ⟨s.fv.cluster, u32 (0 + fsi.bytesPerCluster), {}, true⟩), v2) := by
    have hread : (if false = true then pure (AllocStep.last {}) else do
        let bp ← readCluster fsi s.fv.cluster
        pure (allocCluster fsi 1 0 bp.data fsi.bytesPerCluster 0 {})) s.vol = (.ok (.last {}), v1) := by
      rw [if_neg Bool.false_ne_true, bind_ok e1, hstep]
      rfl
    rw [hn, allocLoop, bind_ok hread]
    dsimp only
    rw [bind_ok (attempt_err e2)]
    rfl
  -- no cluster has to be appended
  have hgrow : u32 (32 - u32 (0 + fsi.bytesPerCluster) + fsi.bytesPerCluster - 1) >>>
      fsi.clusterShift = 0 := by
    have hb : fsi.bytesPerCluster = 2 ^ fsi.clusterShift := by
      rw [hg.bpc, hg.spc, hg.clusterShift, Nat.pow_add]
    rw [Nat.shiftRight_eq_div_pow, ← hb, Nat.zero_add]
    refine Nat.div_eq_of_lt ?_
    have := bpc_pos hg
    by_cases hlt : fsi.bytesPerCluster < 2 ^ 32
    · rw [u32_eq hlt]
      exact lt_of_le_of_lt (Nat.mod_le _ _) (by omega)
    · exact lt_of_lt_of_le (Nat.mod_lt _ (by decide)) (not_lt.mp hlt)
  refine ⟨⟨v2, s.fv⟩, ?_, rfl, hz1.trans s2⟩
  rw [Fat32.allocFdentry, get_bind_run, if_neg hne]
  refine onVol_run ?_
  rw [bind_ok hloop]
  show (if 32 > u32 (0 + fsi.bytesPerCluster) then do
    growLoop fsi (u32 (32 - u32 (0 + fsi.bytesPerCluster) + fsi.bytesPerCluster - 1) >>>
      fsi.clusterShift) s.fv.cluster
    pure 0
    else pure 0 : FsM Nat) v2 = _
  rw [hgrow]
  split <;> rfl

/-- What is asked for the cluster of the new directory is asked for by `fat32_mkdir`. -/
theorem mkdir_logs (hk : Reliable fsi.kernel) (hg : Geometry fsi) (hfuel : 1 ≤ fsi.kernel.fuel)
    (hrw : fsi.vfsRdonly = false) {s : Sys} {p : Nat} {fv : Fv} (hp : s.vnodes p = some fv)
    (hdir : ZeroDir fsi ⟨s.vol, fv⟩) (hattr : fv.attr = 0) {r : BufReq}
    (hr : ∀ parent v, WP (initDir fsi clusterMin parent) v fun _ t => r ∈ t.io.log) :
    WP (mkdir fsi p [65] {} { uid := 0 }) s fun _ t => r ∈ t.vol.io.log := by
  have B := grows_blockRel fsi
  have htype : ¬ fv.type ≠ .vdir := fun hne => hne hdir.dir.type
  have haccess : faccess fsi fv { write := true, exec := true } { uid := 0 } = none := by
    rw [faccess, hrw, hattr]
    rfl
  obtain ⟨t, e, ht⟩ := hdir.findDirent hk hg hfuel [65] (vnodeNew fsi)
  have hfind : onVnode p (findDirent fsi [65] (vnodeNew fsi)) s = (.err .enoent,
      { s with vol := t.vol, vnodes := Function.update s.vnodes p (some t.fv) }) := by
    unfold onVnode
    rw [hp]
    simp only
    rw [e]
  unfold mkdir
  refine .ok_bind (getVnode_some hp) ?_
  rw [if_neg htype, haccess]
  refine .ok_bind (attempt_err hfind) ?_
  show WP (createNew fsi p [65] 0 { dir := true }) _ _
  unfold createNew
  refine WP.grown ?_ fun fv => B.bind (.onSysVol (B.touch _ _ _)) fun _ =>
    B.bind (B.onVnode _ (B.touchFv _ _)) fun _ => B.attach _
  refine onVnode_wp (Function.update_self ..) ?_
  unfold createFdentry
  obtain ⟨u, e1, hfv, hs⟩ := ht.allocFdentry hk hg hfuel
  refine .ok_bind (a := 0) e1 (.get_bind (WP.grown ?_ fun start => ?_))
  · -- the cluster of the new directory
    have hroom : InRange fsi clusterMin := ⟨le_refl _, le_trans (by decide) (hdir.cluster.1.trans
      hdir.cluster.2)⟩
    have hnext : u.vol.nextFree = clusterMin := hs.next
    obtain ⟨w, e2⟩ := allocateCluster_first hk hg (hnext ▸ hroom) (zero_fat _ hs)
      (by rw [hs.free]; decide) { alloc := true, clear := true }
    rw [hnext, ← nextCluster_zero rfl] at e2
    refine .on ?_
    unfold createCluster
    rw [if_neg Bool.false_ne_true, if_pos rfl]
    exact .ok_bind e2 (WP.grown (hr _ w) fun _ => B.pure _)
  · exact B.bind (.ite (fun _ => B.pure _) fun _ => .onVol B.nanotime) fun _ =>
      B.bind (.onVol (B.writeNewEntry _ _ _ _ _)) fun _ =>
      .ite (fun _ => B.pure _) fun _ => .onVol (B.makeVnode _ _ _ _)

/-- The root vnode. -/
theorem mounted_root {vol : Vol} (h : fsi.kernel.vnAlloc vol.io.nvn = true) :
    ∃ fv, (mounted fsi vol).vnodes vol.io.nvn = some fv ∧ fv.type = .vdir ∧
      fv.cluster = fsi.rootCluster ∧ fv.attr = 0 ∧ fv.clsCache = emptyCache ∧
      Same vol (mounted fsi vol).vol := by
  obtain ⟨v, e, hs⟩ : ∃ v, vnAlloc fsi vol = (.ok (some vol.io.nvn), v) ∧ Same vol v :=
    ⟨{ vol with io := { vol.io with nvn := vol.io.nvn + 1 } }, by unfold vnAlloc; rw [h]; rfl,
      ⟨rfl, rfl, rfl⟩⟩
  obtain ⟨fv, e1, htype, hcl, hattr, hcache, hvp, hpar⟩ : ∃ fv, makeVnode fsi fsi.rootCluster .vdir
      (vnodeNew fsi) none vol = (.ok fv, v) ∧ fv.type = .vdir ∧ fv.cluster = fsi.rootCluster ∧
      fv.attr = 0 ∧ fv.clsCache = emptyCache ∧ fv.vnode = some vol.io.nvn ∧ fv.parentVp = none :=
    ⟨_, by unfold makeVnode; rw [bind_ok e]; rfl, rfl, rfl, rfl, rfl, rfl, rfl⟩
  have hmount : mounted fsi vol = ⟨v, Function.update (fun _ => none) vol.io.nvn (some fv),
      Function.update (fun _ => 0) vol.io.nvn 1⟩ := by
    have e2 : onSysVol (makeVnode fsi fsi.rootCluster .vdir (vnodeNew fsi) none)
        ⟨vol, fun _ => none, fun _ => 0⟩ = (.ok fv, ⟨v, fun _ => none, fun _ => 0⟩) := by
      rw [onSysVol, on, e1]
    rw [mounted, makeRoot, bind_ok e2, attach, hvp]
    dsimp only
    rw [modify_bind_run, hpar]
    rfl
  rw [hmount]
  refine ⟨fv, ?_, htype, hcl, hattr, hcache, hs⟩
  exact Function.update_self vol.io.nvn (some fv) fun _ => none

theorem runOps_one (s : Sys) (op : VnOp) : runOps fsi s [op] = (op.exec fsi s).2 := by
  rw [runOps, List.foldl_cons, List.foldl_nil]

/-- A new directory in the root. -/
def oneMkdir : List VnOp := [.mkdir 0 [65] {} { uid := 0 }]

/-- The run asks for what `initDir` asks for. -/
theorem oneMkdir_wp (hg : Geometry fsi) (hroot : InRange fsi fsi.rootCluster) {r : BufReq}
    (hr : ∀ parent v, WP (initDir (fsi.under {} false) clusterMin parent) v
      fun _ t => r ∈ t.io.log) :
    WP (VnOp.exec (fsi.under {} false) (.mkdir 0 [65] {} { uid := 0 }))
      (mounted (fsi.under {} false) zeroVol) fun _ t => r ∈ t.vol.io.log := by
  obtain ⟨fv, hp, htype, hcl, hattr, hcache, hs⟩ :=
    @mounted_root (fsi.under {} false) zeroVol rfl
  have hg' : Geometry (fsi.under {} false) := under_geometry hg _ _
  have hpath : fatNext (fsi.under {} false) (view (fsi.under {} false)
      (mounted (fsi.under {} false) zeroVol).vol.disk).fat fv.cluster = none := by
    rw [fatNext, zero_fat _ hs]
    exact if_neg fun h0 => absurd h0.2.1 (by decide)
  have hdir : ZeroDir (fsi.under {} false) ⟨(mounted (fsi.under {} false) zeroVol).vol, fv⟩ := by
    refine ⟨⟨htype, .last hpath, ?_⟩, hs, hcl ▸ hroot⟩
    show CacheOk _ _ fv.cluster fv.clsCache
    rw [hcache]
    exact .empty
  have hfuel : 1 ≤ (fsi.under {} false).kernel.fuel := show 1 ≤ 1000 by decide
  exact WP.grown (mkdir_logs ⟨fun _ => rfl⟩ hg' hfuel rfl hp hdir hattr hr)
      fun _ => (grows_blockRel (fsi.under {} false)).pure _

theorem oneMkdir_logs (hg : Geometry fsi) (hroot : InRange fsi fsi.rootCluster) {r : BufReq}
    (hr : ∀ parent v, WP (initDir (fsi.under {} false) clusterMin parent) v
      fun _ t => r ∈ t.io.log) :
    r ∈ (runOps (fsi.under {} false) (mounted (fsi.under {} false) zeroVol) oneMkdir).vol.io.log := by
  have h := oneMkdir_wp hg hroot hr
  unfold WP at h
  rw [oneMkdir, runOps_one]
  exact h

/-- Both are buffers of the data area that the run asks for. -/
theorem oneMkdir_buffers (hg : Geometry fsi) (hroot : InRange fsi fsi.rootCluster) :
    ⟨clusterToSector fsi clusterMin, 1⟩ ∈ buffers (fsi.under {} false) zeroVol oneMkdir ∧
      clusterRange fsi clusterMin ∈ buffers (fsi.under {} false) zeroVol oneMkdir := by
  have hg' : Geometry (fsi.under {} false) := under_geometry hg _ _
  have hc : InRange (fsi.under {} false) clusterMin :=
    ⟨le_refl _, le_trans (by decide) (hroot.1.trans hroot.2)⟩
  have hblock := oneMkdir_logs hg hroot fun parent v => initDir_getblk hg' clusterMin parent v
  have hwhole := oneMkdir_logs hg hroot fun parent v => initDir_bread hg' hc parent v
  exact ⟨mem_buffers hblock rfl, mem_buffers hwhole rfl⟩

theorem zeroing_ranges (fsi : Fsi) (c : Nat) : ∀ q ∈ zeroing fsi c, q.range.len = 1 := by
  intro q hq
  obtain ⟨r, hr, hrq⟩ := List.mem_filterMap.mp hq
  rcases clearCluster_requests c ⟨fun _ => 0, 0, 0, {}⟩ r (List.mem_reverse.mp hr) with hr | ⟨s, rfl | rfl⟩
  · cases hr
  · cases hrq
  · cases hrq
    rfl

/-- A cluster that was read before it is zeroed is read as it was. -/
theorem not_disciplined (hg : Geometry fsi) (hroot : InRange fsi fsi.rootCluster)
    (h : fsi.sectorsPerCluster ≠ 1) :
    (∃ k ∈ buffers (fsi.under {} false) zeroVol oneMkdir,
      ∃ l ∈ buffers (fsi.under {} false) zeroVol oneMkdir,
        InData fsi k ∧ InData fsi l ∧ ¬ k.Fits l) ∧
    ∃ s, BlockCache.Run ([.load (clusterRange fsi clusterMin)] ++ zeroing fsi clusterMin ++ [])
      ⟨fun _ _ => 0xAA, fun _ => none⟩ s ∧ s.read (clusterRange fsi clusterMin) = fun _ _ => 0xAA := by
  have hc : InRange fsi clusterMin := ⟨le_refl _, le_trans (by decide) (hroot.1.trans hroot.2)⟩
  obtain ⟨hblock, hwhole⟩ := oneMkdir_buffers hg hroot
  have hspc : 0 < fsi.sectorsPerCluster := hg.spc ▸ Nat.two_pow_pos _
  have hdata {n : Nat} (hn : 0 < n) : InData fsi ⟨clusterToSector fsi clusterMin, n⟩ := by
    have hcount : 0 < fsi.clusterCount := by
      have := hroot.1
      have := hroot.2
      omega
    have harea := Nat.mul_pos hcount hspc
    refine ⟨clusterToSector fsi clusterMin, ⟨le_refl _, Nat.lt_add_of_pos_right hn⟩, ?_⟩
    rw [clusterToSector_eq hg hc]
    simp only [clusterMin]
    omega
  refine ⟨⟨_, hblock, _, hwhole, hdata (by decide), hdata hspc, ?_⟩, ?_⟩
  · rintro (e | hapart)
    · exact h (congrArg Range.len e).symm
    · exact hapart (clusterToSector fsi clusterMin) ⟨le_refl _, Nat.lt_succ_self _⟩
        ⟨le_refl _, Nat.lt_add_of_pos_right hspc⟩
  · rw [List.append_nil, List.singleton_append]
    refine exists_stale (fun q hq e => h ?_) _
    have hlen := zeroing_ranges fsi clusterMin q hq
    rw [e] at hlen
    exact hlen

/-- The buffers of the driver fit together if, and only if, a cluster is one block. -/
theorem disciplined_iff (hg : Geometry fsi) (hroot : InRange fsi fsi.rootCluster) :
    Disciplined fsi ↔ fsi.sectorsPerCluster = 1 := by
  refine ⟨fun h => ?_, disciplined_of_one⟩
  by_contra hne
  obtain ⟨⟨k, hk, l, hl, hkd, hld, hfit⟩, -⟩ := not_disciplined hg hroot hne
  exact hfit (h.apart {} false zeroVol oneMkdir rfl k hk l hl hkd hld)

theorem disciplined_small : Disciplined (small 2) :=
  (disciplined_iff small_geometry ⟨by decide, by decide⟩).mpr rfl

/-- Clusters of two blocks. -/
def wide : Fsi where
  fsinfoSector := 0
  fatStart := 1
  sectorsPerCluster := 2
  bytesPerCluster := 1024
  sectorShift := 9
  sectorMask := 511
  clusterShift := 10
  clusterMask := 1023
  spcShift := 1
  numFats := 1
  fatSize := 1
  rootCluster := 2
  dataStart := 2
  clusterCount := 2

theorem wide_geometry : Geometry wide := by
  constructor <;> decide

/-- A new directory in an empty root: the new cluster, cluster 3, is zeroed by the block
and read as a whole, and what was read of it before is what is read afterwards. -/
theorem wide_overlaps :
    ⟨4, 1⟩ ∈ buffers wide (image [clusterEoc, 0] fun _ => []) oneMkdir ∧
    ⟨4, 2⟩ ∈ buffers wide (image [clusterEoc, 0] fun _ => []) oneMkdir ∧
    (∃ s, BlockCache.Run ([.load ⟨4, 2⟩] ++ zeroing wide 3 ++ []) ⟨fun _ _ => 0xAA, fun _ => none⟩ s ∧
      s.read ⟨4, 2⟩ = fun _ _ => 0xAA) ∧
    ¬ Disciplined wide := by
  have hblock : ⟨4, 1⟩ ∈ buffers wide (image [clusterEoc, 0] fun _ => []) oneMkdir := by
    decide +kernel
  have hwhole : ⟨4, 2⟩ ∈ buffers wide (image [clusterEoc, 0] fun _ => []) oneMkdir := by
    decide +kernel
  refine ⟨hblock, hwhole, ?_, fun h => ?_⟩
  · rw [List.append_nil, List.singleton_append]
    refine exists_stale (fun q hq e => ?_) _
    have hlen := zeroing_ranges wide 3 q hq
    rw [e] at hlen
    cases hlen
  · have hfit := h.apart {} false (image [clusterEoc, 0] fun _ => []) oneMkdir rfl ⟨4, 1⟩ hblock
      ⟨4, 2⟩ hwhole ⟨4, by decide, by decide, by decide⟩ ⟨4, by decide, by decide, by decide⟩
    rcases hfit with e | hapart
    · cases e
    · exact hapart 4 (by decide) (by decide)

end Fat32
