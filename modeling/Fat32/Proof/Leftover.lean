import Mathlib
import Fat32.Proof.ReadWrite
import Fat32.Proof.DataArea

/-!
# What is left on the disk

A cluster that was freed keeps its bytes, and so does the last cluster of a file
behind the end of the file. `Differs fsi l s s'` is the state with other bytes
there. No operation on a file can tell such states apart before it reads data
(`Alike`), so an extension that succeeds in one succeeds in the other; and it
clears nothing, so what was left is then read as part of the file.
-/

namespace Fat32

open Bytes Exec Prog Linked

variable {fsi : Fsi} {l l' ext : List Nat} {v w : Vol} {s s' t : VnSt} {a c i n p : Nat}

/-! ## Volumes with the same FAT -/

/-- Volumes that differ in their data only. -/
structure Alike (fsi : Fsi) (v w : Vol) : Prop where
  fat : (view fsi w.disk).fat = (view fsi v.disk).fat
  free : w.freeCount = v.freeCount
  next : w.nextFree = v.nextFree

theorem Alike.same {v' w' : Vol} (h : Alike fsi v w) (hv : Same v v') (hw : Same w w') :
    Alike fsi v' w' := by
  refine ⟨?_, ?_, ?_⟩
  · rw [hv.disk, hw.disk, h.fat]
  · rw [hv.free, hw.free, h.free]
  · rw [hv.next, hw.next, h.next]

theorem rmwCluster_alike (hk : Reliable fsi.kernel) (hg : Geometry fsi) (c : Nat)
    (new : Option Nat) : Sim (Alike fsi) (rmwCluster fsi c new) (rmwCluster fsi c new) := by
  intro v w h
  by_cases hc : InRange fsi c
  · cases new with
    | none =>
      obtain ⟨v', e, s⟩ := rmwCluster_read hk hg hc v
      obtain ⟨w', e', s'⟩ := rmwCluster_read hk hg hc w
      rw [e, e', h.fat]
      exact ⟨rfl, h.same s s'⟩
    | some x =>
      obtain ⟨v', e, f, c1, n1⟩ := rmwCluster_write hk hg hc x v
      obtain ⟨w', e', f', c2, n2⟩ := rmwCluster_write hk hg hc x w
      rw [e, e', h.fat]
      refine ⟨rfl, ?_, ?_, ?_⟩
      · rw [f.view hg hc, f'.view hg hc, View.setFat, View.setFat, h.fat]
      · rw [c1, c2, h.free]
      · rw [n1, n2, h.next]
  · rw [rmwCluster_outside hg hc, rmwCluster_outside hg hc]
    exact ⟨rfl, h⟩

/-- The FAT operations do not look at the data. -/
theorem alike_fatSim (hk : Reliable fsi.kernel) (hg : Geometry fsi) {fl : NcFlags}
    (hfl : fl.clear = false) : FatSim fsi fl (Alike fsi) := by
  refine ⟨rmwCluster_alike hk hg, fun h => h.free, fun h => h.next, fun x y m n hmn => ?_,
    fun hc => ?_⟩
  · intro v w h
    obtain ⟨v1, v2, e1, e2, hv, -, -⟩ := info_ok hk hg x y v
    obtain ⟨w1, w2, e1', e2', hw, -, -⟩ := info_ok hk hg x y w
    rw [bind_ok e1, bind_ok e1', bind_ok e2, bind_ok e2', modify_bind_run, modify_bind_run]
    refine hmn _ _ ⟨?_, rfl, rfl⟩
    show (view fsi w2.disk).fat = (view fsi v2.disk).fat
    rw [hv, hw, h.fat]
  · rw [hfl] at hc
    cases hc

/-- Storing data changes no entry. -/
theorem DataSet.alike (hg : Geometry fsi) {f : Nat → UInt8} {v' : Vol} (hr : InRange fsi c)
    (h : DataSet fsi c f v.disk v'.disk) (hf : v'.freeCount = v.freeCount)
    (hn : v'.nextFree = v.nextFree) : Alike fsi v v' := by
  refine ⟨?_, hf, hn⟩
  rw [h.view hg hr]
  rfl

theorem Alike.symm (h : Alike fsi v w) : Alike fsi w v := ⟨h.fat.symm, h.free.symm, h.next.symm⟩

theorem Alike.trans {u : Vol} (h : Alike fsi u v) (k : Alike fsi v w) : Alike fsi u w :=
  ⟨k.fat.trans h.fat, k.free.trans h.free, k.next.trans h.next⟩

/-! ## Operations on one file -/

/-- A vnode on volumes that are alike. -/
structure AlikeVn (fsi : Fsi) (s t : VnSt) : Prop where
  vol : Alike fsi s.vol t.vol
  fv : t.fv = s.fv

structure AlikeRw (fsi : Fsi) (s t : RwSt) : Prop where
  vn : AlikeVn fsi s.vn t.vn
  uio : t.uio = s.uio

theorem onVol_alike {α : Type} {m : FsM α} (h : Sim (Alike fsi) m m) :
    Sim (AlikeVn fsi) (onVol m) (onVol m) :=
  .on h (fun _ _ hst => hst.vol) fun _ _ _ _ hst hvw => ⟨hvw, hst.fv⟩

theorem onVn_alike {α : Type} {m : FvM α} (h : Sim (AlikeVn fsi) m m) :
    Sim (AlikeRw fsi) (onVn m) (onVn m) :=
  .on h (fun _ _ hst => hst.vn) fun _ _ _ _ hst hvw => ⟨hvw, hst.uio⟩

theorem modifyFv_alike (f : Fv → Fv) : Sim (AlikeVn fsi) (modifyFv f) (modifyFv f) :=
  .modify fun _ _ h => ⟨h.vol, congrArg f h.fv⟩

theorem vnodeSeekCluster_alike (hk : Reliable fsi.kernel) (hg : Geometry fsi) (skip : Nat)
    {fl : NcFlags} (hfl : fl.clear = false) :
    Sim (AlikeVn fsi) (vnodeSeekCluster fsi skip fl) (vnodeSeekCluster fsi skip fl) := by
  refine .get_bind fun s t h => ?_
  rw [h.fv]
  refine .bind (.ite (fun _ => ?_) fun _ => .pure _) fun c => .bind (modifyFv_alike _) fun _ => .pure _
  rw [seekCluster_eq]
  exact onVol_alike ((alike_fatSim hk hg hfl).seekLoop _ _)

theorem firstCluster_alike (hk : Reliable fsi.kernel) (hg : Geometry fsi) {fl : NcFlags}
    (hfl : fl.clear = false) : Sim (AlikeVn fsi) (firstCluster fsi fl) (firstCluster fsi fl) := by
  refine .get_bind fun s t h => ?_
  rw [h.fv]
  exact .ite (fun _ => .bind (onVol_alike ((alike_fatSim hk hg hfl).nextCluster 0))
    fun _ => modifyFv_alike _) fun _ => .pure _

theorem writeFirst_alike (hk : Reliable fsi.kernel) (hg : Geometry fsi) :
    Sim (AlikeVn fsi) (writeFirst fsi) (writeFirst fsi) := by
  refine .get_bind fun s t h => ?_
  rw [h.fv]
  exact .ite (fun _ => .bind (onVol_alike ((alike_fatSim hk hg rfl).nextCluster 0))
    fun _ => modifyFv_alike _) fun _ => .pure _

theorem growSize_alike : Sim (AlikeRw fsi) growSize growSize := by
  refine .modify fun t u h => ?_
  rw [h.uio, h.vn.fv]
  split
  · exact ⟨⟨h.vn.vol, rfl⟩, rfl⟩
  · exact h

theorem touchFv_alike {s t : VnSt} (h : AlikeVn fsi s t)
    (hio : t.vol.io.nclock = s.vol.io.nclock) :
    ∃ s' t', touchFv fsi false true s = (.ok (), s') ∧ touchFv fsi false true t = (.ok (), t') ∧
      AlikeVn fsi s' t' := by
  refine ⟨_, _, rfl, rfl, ⟨h.vol.fat, h.vol.free, h.vol.next⟩, ?_⟩
  have hfv (x : VnSt) : (touchFv fsi false true x).2.fv = { x.fv with
      mtime := fsi.kernel.nanotime x.vol.io.nclock
      flags := { x.fv.flags with
        atime := x.fv.flags.atime || false
        mtime := x.fv.flags.mtime || true
        modified := true } } := rfl
  show (touchFv fsi false true t).2.fv = (touchFv fsi false true s).2.fv
  rw [hfv, hfv, h.fv, hio]

theorem uiomove_run (hf : ¬ Faults fsi) (v : Vol) :
    ∃ v', uiomove fsi v = (.ok (), v') ∧ Same v v' := by
  have h := uiomove_ok fsi v
  unfold WP at h
  obtain ⟨hs, hr | ⟨e, -, he⟩⟩ := h
  · exact ⟨_, Prod.ext hr rfl, hs⟩
  · exact absurd he hf

theorem uiomoveIn_run (hf : ¬ Faults fsi) (data : Nat → UInt8) (o n : Nat) (t : RwSt) :
    ∃ v', Same t.vn.vol v' ∧ uiomoveIn fsi data o n t =
      (.ok (poke data o n fun i => t.uio.mem (t.uio.pos + i)), ⟨⟨v', t.vn.fv⟩, t.uio.moved n⟩) := by
  obtain ⟨v', e, s⟩ := uiomove_run hf t.vn.vol
  refine ⟨v', s, ?_⟩
  rw [uiomoveIn, bind_ok (onVn_run (onVol_run e))]
  rfl

/-- A next cluster is a cluster. -/
theorem nextCluster_inRange (hg : Geometry fsi) {fl : NcFlags} {d : Nat} {v' : Vol}
    (h : nextCluster fsi c fl v = (.ok d, v')) : InRange fsi d := by
  have p : Policy fsi (fun _ => True) fun _ => True := ⟨fun _ _ _ _ => trivial, fun _ _ => trivial⟩
  exact (nextCluster_asks p hg c fl v trivial trivial).2 d (by rw [h])

/-- A round of `writeLoop`, up to the new size. -/
theorem writeRound_alike (hk : Reliable fsi.kernel) (hg : Geometry fsi) (hf : ¬ Faults fsi)
    (hc : InRange fsi c) (o m : Nat) {β : Type} (f : RwM β) (t : RwSt) :
    ∃ v', Alike fsi t.vn.vol v' ∧ (do
      let bp ← onVn (onVol (readCluster fsi c))
      let data ← uiomoveIn fsi bp.data o m
      onVn (onVol (bdwrite { bp with data := data }))
      f) t = f ⟨⟨v', t.vn.fv⟩, t.uio.moved m⟩ := by
  obtain ⟨v1, e1, s1⟩ := readCluster_ok hk hg hc t.vn.vol
  obtain ⟨v2, s2, e2⟩ := uiomoveIn_run hf (fun i => t.vn.vol.disk (clusterAddr fsi c + i)) o m
    ⟨⟨v1, t.vn.fv⟩, t.uio⟩
  obtain ⟨v3, e3, d3, c3, n3⟩ := bdwrite_cluster hg c
    (poke (fun i => t.vn.vol.disk (clusterAddr fsi c + i)) o m
      fun i => t.uio.mem (t.uio.pos + i)) v2
  have s12 : Same t.vn.vol v2 := s1.trans s2
  refine ⟨v3, Alike.trans ⟨?_, s12.free, s12.next⟩ (d3.alike hg hc c3 n3), ?_⟩
  · rw [s12.disk]
  · rw [bind_ok (onVn_run (onVol_run e1)), bind_ok e2, bind_ok (onVn_run (onVol_run e3))]

theorem writeLoop_alike (hk : Reliable fsi.kernel) (hg : Geometry fsi) (hf : ¬ Faults fsi) (n : Nat) :
    ∀ {c : Nat}, InRange fsi c → ∀ skip o rem,
      Sim (AlikeRw fsi) (writeLoop fsi n c skip o rem) (writeLoop fsi n c skip o rem) := by
  induction n with
  | zero => exact fun _ _ _ _ => .hang
  | succ n ih =>
    intro c hc skip o rem
    -- what a round does after its cluster was stored
    have hrest (m : Nat) : Sim (AlikeRw fsi)
        (do
          growSize
          if rem - m = 0 then pure (skip, c) else do
            let next ← onVn (onVol (nextCluster fsi c { alloc := true }))
            writeLoop fsi n next (u32 (skip + 1)) 0 (rem - m))
        (do
          growSize
          if rem - m = 0 then pure (skip, c) else do
            let next ← onVn (onVol (nextCluster fsi c { alloc := true }))
            writeLoop fsi n next (u32 (skip + 1)) 0 (rem - m)) := by
      refine .bind growSize_alike fun _ => .ite (fun _ => .pure _) fun _ => ?_
      refine .bind_of (onVn_alike (onVol_alike ((alike_fatSim hk hg rfl).nextCluster c)))
        (fun t d t' hd => ?_) fun d hd => ih hd _ _ _
      have hd1 : (nextCluster fsi c { alloc := true } t.vn.vol).1 = .ok d := congrArg Prod.fst hd
      exact nextCluster_inRange hg (Prod.ext hd1 rfl)
    intro t u h
    unfold writeLoop
    generalize min (fsi.bytesPerCluster - o) rem = m
    obtain ⟨v, hv, et⟩ := writeRound_alike hk hg hf hc o m _ t
    obtain ⟨w, hw, eu⟩ := writeRound_alike hk hg hf hc o m _ u
    rw [et, eu]
    exact hrest m _ _ ⟨⟨(hv.symm.trans h.vn.vol).trans hw, h.vn.fv⟩, congrArg (·.moved m) h.uio⟩

/-! ## Truncation -/

theorem freeUpdate_alike (hk : Reliable fsi.kernel) (hg : Geometry fsi) (n : Nat) :
    Sim (Alike fsi) (freeUpdate fsi n) (freeUpdate fsi n) := by
  refine .ite (fun _ => ?_) fun _ => .pure _
  intro v w h
  obtain ⟨v1, e1, s1⟩ := bread_ok hk fsi.fsinfoSector 1 v
  obtain ⟨w1, e1', s1'⟩ := bread_ok hk fsi.fsinfoSector 1 w
  rw [bind_ok (attempt_ok e1), bind_ok (attempt_ok e1')]
  simp only [get_bind_run, s1.free, s1'.free, h.free]
  by_cases hs : v.freeCount ≠ 0xFFFFFFFF
  · rw [if_pos hs, if_pos hs]
    refine ⟨rfl, ?_, rfl, ?_⟩
    · -- only the FSInfo sector is written
      have hinfo (u : Vol) (f : Nat → UInt8) :
          view fsi (poke u.disk (512 * fsi.fsinfoSector) (512 * 1) f) = view fsi u.disk :=
        view_congr hg fun a ha => poke_outside (by omega)
      show (view fsi (poke w1.disk _ _ _)).fat = (view fsi (poke v1.disk _ _ _)).fat
      rw [hinfo, hinfo, s1.disk, s1'.disk, h.fat]
    · show w1.nextFree = v1.nextFree
      rw [s1.next, s1'.next, h.next]
  · rw [if_neg hs, if_neg hs]
    exact ⟨rfl, h.same s1 s1'⟩

theorem freeClusters_alike (hk : Reliable fsi.kernel) (hg : Geometry fsi) (c : Nat) (b : Bool) :
    Sim (Alike fsi) (freeClusters fsi c b) (freeClusters fsi c b) := by
  have hloop (fuel : Nat) : ∀ c n, Sim (Alike fsi) (freeLoop fsi fuel c n) (freeLoop fsi fuel c n) := by
    induction fuel with
    | zero => exact fun _ _ => .hang
    | succ fuel ih =>
      exact fun c n => .ite (fun _ => .bind (rmwCluster_alike hk hg _ _) fun _ => ih _ _)
        fun _ => .pure _
  have hfree (c : Nat) := Sim.bind (hloop fsi.kernel.fuel c 0) fun n => freeUpdate_alike hk hg n
  exact .ite (fun _ => .fail _) fun _ => .ite (fun _ => .bind (rmwCluster_alike hk hg _ _) fun _ =>
    .ite (fun _ => .pure _) fun _ => hfree _) fun _ => hfree _

theorem truncateZero_alike (hk : Reliable fsi.kernel) (hg : Geometry fsi) :
    Sim (AlikeVn fsi) (truncateZero fsi) (truncateZero fsi) := by
  refine .get_bind fun s t h => ?_
  rw [h.fv]
  exact .ite (fun _ => .bind (onVol_alike (freeClusters_alike hk hg _ _)) fun _ =>
    .bind (modifyFv_alike _) fun _ => modifyFv_alike _) fun _ => modifyFv_alike _

theorem freeExtra_alike (hk : Reliable fsi.kernel) (hg : Geometry fsi) (n c : Nat) :
    Sim (AlikeVn fsi) (freeExtra fsi n c) (freeExtra fsi n c) := by
  refine .bind (.attempt (onVol_alike ((alike_fatSim hk hg rfl).nextCluster c))) fun r => ?_
  cases r with
  | error e => exact .ite (fun _ => .pure _) fun _ => .fail _
  | ok next =>
    exact .ite (fun _ => .bind (onVol_alike (freeClusters_alike hk hg _ _)) fun _ =>
      modifyFv_alike _) fun _ => .pure _

/-- Truncating a file does not depend on its bytes. -/
theorem truncate_alike (hk : Reliable fsi.kernel) (hg : Geometry fsi) (h : AlikeVn fsi s t)
    (hty : s.fv.type = .vreg) (size : Nat) :
    (truncate fsi size s).1 = (truncate fsi size t).1 := by
  have hcl : (decide (s.fv.type = .vdir)) = false := by rw [hty]; rfl
  unfold truncate
  generalize (if size = 0 then 0
    else u32 ((size + fsi.bytesPerCluster - 1) >>> fsi.clusterShift)) = k
  by_cases h0 : k = 0
  · rw [if_pos h0]
    exact (truncateZero_alike hk hg s t h).1
  · rw [if_neg h0, get_bind_run, get_bind_run, h.fv]
    exact (Sim.bind (firstCluster_alike hk hg hcl) (fun _ =>
      .bind (vnodeSeekCluster_alike hk hg _ hcl) fun _ =>
      .bind (freeExtra_alike hk hg _ _) fun _ => modifyFv_alike _) s t h).1

/-- A first cluster that was found or allocated. -/
theorem writeFirst_coherent (hk : Reliable fsi.kernel) (hg : Geometry fsi) (h : Coherent fsi l s) :
    WP (writeFirst fsi) s fun r s' => ∀ x, r = .ok x → ∃ m, Coherent fsi m s' ∧ s'.fv.cluster ≠ 0 := by
  refine (first_step hk hg rfl h id).mono fun r s' hr x hx => ?_
  obtain ⟨ext, st, -, -, ⟨-, hc, -⟩ | ⟨he, -⟩⟩ := hr
  · exact ⟨_, st.coherent, hc⟩
  · rw [he] at hx
    cases hx

theorem vnodeSeekCluster_inRange (hk : Reliable fsi.kernel) (hg : Geometry fsi) {skip : Nat}
    (hskip : skip < 2 ^ 32) (fl : NcFlags) (h : Coherent fsi l s) (hc : s.fv.cluster ≠ 0) :
    WP (vnodeSeekCluster fsi skip fl) s fun r _ => ∀ d, r = .ok d → InRange fsi d := by
  refine (vnodeSeekCluster_step hk hg hskip fl h hc).mono fun r s' hr d hd => ?_
  obtain ⟨ext, st, -, -, ⟨e, he, hei⟩ | ⟨he, -⟩⟩ := hr
  · rw [he] at hd
    rw [← Out.ok.inj hd]
    exact (st.coherent.of_index hei).inRange e (List.mem_of_getElem? hei)
  · rw [he] at hd
    cases hd

/-- Neither does writing one, from vnodes that read the same clock. -/
theorem write_alike (hk : Reliable fsi.kernel) (hg : Geometry fsi) (hf : ¬ Faults fsi)
    (h : AlikeVn fsi s t) (hio : t.vol.io.nclock = s.vol.io.nclock) (hs : Coherent fsi l s)
    (append : Bool) (uio : Uio) :
    SimAt (AlikeRw fsi) (write fsi append) (write fsi append) ⟨s, uio⟩ ⟨t, uio⟩ := by
  obtain ⟨v, fv⟩ := s
  obtain ⟨w, fv'⟩ := t
  obtain rfl : fv' = fv := h.fv
  unfold write
  refine .get_bind (.ite (fun _ => ⟨rfl, h, rfl⟩) fun _ => ?_)
  obtain ⟨s1, t1, es, et, h1⟩ := touchFv_alike h hio
  obtain ⟨s1', es', st1, -, -, -⟩ := touchFv_step hs false true
  obtain rfl : s1' = s1 := congrArg Prod.snd (es'.symm.trans es)
  refine .ok_bind (onVn_run es) (onVn_run et) (.ite (fun _ => ⟨rfl, h1, rfl⟩) fun _ => ?_)
  refine .ok_bind (modify_run _ _) (modify_run _ _) ?_
  refine SimAt.bind (Q := fun _ t => ∃ m, Coherent fsi m t.vn ∧ t.vn.fv.cluster ≠ 0)
    (onVn_alike (writeFirst_alike hk hg) _ _ ⟨h1, rfl⟩)
    (.on (writeFirst_coherent hk hg st1.coherent)) ?_
  rintro _ s2 t2 ⟨m, hs2, hc2⟩ h2
  refine SimAt.bind (Q := fun c _ => InRange fsi c)
    (onVn_alike (vnodeSeekCluster_alike hk hg _ rfl) _ _ h2)
    (.on (vnodeSeekCluster_inRange hk hg (lo32_lt _) _ hs2 hc2)) ?_
  intro c s3 t3 hc h3
  exact Sim.bind (writeLoop_alike hk hg hf _ hc _ _ _)
    (fun _ => onVn_alike (modifyFv_alike _)) s3 t3 h3

/-! ## Reading behind the chain -/

/-- Reading behind the last cluster of a file gets nothing. -/
theorem read_past (hk : Reliable fsi.kernel) (hg : Geometry fsi) {t : RwSt}
    (h : Coherent fsi l t.vn) (hl : l ≠ [] ∨ t.vn.fv.size = 0) (hp : t.uio.offset = p)
    (hpast : l.length * fsi.bytesPerCluster ≤ p) (hidx : p / fsi.bytesPerCluster < 2 ^ 32) :
    WP (read fsi) t fun r t' => r ≠ .ok () ∨ t'.uio = t.uio := by
  have hb := bpc_pos hg
  unfold read
  refine .get_bind (.ite (fun _ => .of_run rfl (.inl nofun)) fun _ => ?_)
  obtain ⟨s1, e1, st1, -, -, -⟩ := touchFv_step h true false
  refine .ok_bind (onVn_run e1) (.ite (fun _ => .of_run rfl (.inl nofun)) fun _ =>
    .ite (fun _ => .of_run rfl (.inr rfl)) fun heof => .ite (fun _ => .of_run rfl (.inr rfl))
    fun _ => ?_)
  have hskip : l.length ≤ lo32 (t.uio.offset >>> fsi.clusterShift) := by
    rw [hp, lo32_index hg hidx, Nat.le_div_iff_mul_le (by omega)]
    exact hpast
  refine .on_bind (vnodeSeekCluster_step_read hk hg (lo32_lt _) rfl st1.coherent) ?_ ?_ ?_
  · rintro c s2 ⟨-, -, -, ⟨d, -, hd | ⟨rfl, -, -⟩⟩ | ⟨⟨e, he⟩, -⟩⟩
    · obtain ⟨hlt, -⟩ := List.getElem?_eq_some_iff.mp hd
      omega
    · have hz := hl.resolve_left fun hne => hne rfl
      omega
    · cases he
  · exact fun e s2 _ => .inl nofun
  · exact fun s2 _ => .inl nofun

/-- A byte of the file is read back as zero. -/
def ReadsZero (fsi : Fsi) (s : VnSt) (i : Nat) : Prop :=
  ∀ uio : Uio, uio.offset = i → uio.resid = 1 → (read fsi ⟨s, uio⟩).1 = .ok () ∧
    (read fsi ⟨s, uio⟩).2.uio.resid = 0 ∧ (read fsi ⟨s, uio⟩).2.uio.mem uio.pos = 0

theorem not_readsZero_past (hk : Reliable fsi.kernel) (hg : Geometry fsi) (h : Coherent fsi l s)
    (hl : l ≠ [] ∨ s.fv.size = 0) (hpast : l.length * fsi.bytesPerCluster ≤ i)
    (hidx : i / fsi.bytesPerCluster < 2 ^ 32) : ¬ ReadsZero fsi s i := by
  intro hz
  obtain ⟨hok, hres, -⟩ := hz ⟨i, 1, fun _ => 0, 0⟩ rfl rfl
  have hr := read_past (t := ⟨s, ⟨i, 1, fun _ => 0, 0⟩⟩) hk hg h hl rfl hpast hidx
  unfold WP at hr
  rcases hr with hr | hr
  · exact hr hok
  · rw [hr] at hres
    cases hres

/-- A byte of the file that is not zero, or is not there. -/
theorem not_readsZero_byte (hk : Reliable fsi.kernel) (hg : Geometry fsi)
    (hb : fsi.bytesPerCluster < 2 ^ 32) (hf : ¬ Faults fsi) (h : Coherent fsi l s)
    (hty : s.fv.type = .vreg) (hi : i < l.length * fsi.bytesPerCluster)
    (hne : fileByte fsi (view fsi s.vol.disk) l i ≠ 0) : ¬ ReadsZero fsi s i := by
  intro hz
  obtain ⟨-, hres, hmem⟩ := hz ⟨i, 1, fun _ => 0, 0⟩ rfl rfl
  have hr := read_step (t := ⟨s, ⟨i, 1, fun _ => 0, 0⟩⟩) hk hg h
  unfold WP at hr
  obtain ⟨-, -, -, -, hbytes⟩ := hr
  have hlen : readLen s.fv.size i 1 ≤ 1 := Nat.min_le_left _ _
  obtain ⟨-, hu⟩ := (hbytes hty hb i rfl fun _ => by dsimp only; omega).resolve_left hf
  rw [hu] at hres hmem
  rcases Nat.eq_zero_or_pos (readLen s.fv.size i 1) with h0 | h1
  · -- the byte is behind the end of the file
    simp only [h0, Uio.filled_zero] at hres
    cases hres
  · have hone : readLen s.fv.size i 1 = 1 := by omega
    simp only [Uio.filled, hone] at hmem
    have hp : poke (fun _ => 0) 0 1 (fun j => fileByte fsi (view fsi s.vol.disk) l (i + j)) (0 + 0) =
        fileByte fsi (view fsi s.vol.disk) l (i + 0) := poke_inside Nat.one_pos
    exact hne (hp.symm.trans hmem)

/-! ## Extending a file -/

/-- The ways to make a file longer. -/
inductive Extension where
  | truncate (size : Nat)
  /-- `fat32_setattr`, up to the flush of the entry. -/
  | setattr (vap : Vattr)
  | write (uio : Uio)

namespace Extension

def exec (fsi : Fsi) : Extension → FvM Unit
  | truncate size => Fat32.truncate fsi size
  | setattr vap => setattrFv fsi vap
  | write uio => transfer (Fat32.write fsi false) uio

/-- The operation leaves to the file what is before position `n`: the new size, or the
place of the first byte written. -/
def UpTo (n : Nat) : Extension → Prop
  | truncate size => size = n
  | setattr vap => vap.atSize = true ∧ vap.size = n
  | write uio => uio.offset = n ∧ 0 < uio.resid

end Extension

/-- The chain `l` became `l'`, by clusters that were free; the bytes of `l'` before `n`
are as they were on the disk. -/
structure Enlarged (fsi : Fsi) (l l' : List Nat) (n : Nat) (s s' : VnSt) : Prop where
  coherent : Coherent fsi l' s'
  type : s'.fv.type = s.fv.type
  nonempty : l' ≠ [] ∨ s'.fv.size = 0
  clusters : ∀ k c : Nat, l'[k]? = some c →
    l[k]? = some c ∨ InRange fsi c ∧ (view fsi s.vol.disk).fat c = 0
  bytes : n / fsi.bytesPerCluster < 2 ^ 32 →
    SameBefore fsi l' n (view fsi s.vol.disk) (view fsi s'.vol.disk)

/-- A cluster of the file after a step is the one at its place before, or was free. -/
theorem FileStep.clusters (hg : Geometry fsi) {k : Nat}
    (st : FileStep fsi l ((l ++ ext).take k) s s') {i : Nat}
    (hi : ((l ++ ext).take k)[i]? = some c) :
    l[i]? = some c ∨ InRange fsi c ∧ (view fsi s.vol.disk).fat c = 0 := by
  have hik : i < k := (List.getElem?_eq_some_iff.mp hi).1.trans_le (List.length_take_le _ _)
  have before {j : Nat} (hj : j < l.length) (hjk : j < k) :
      ((l ++ ext).take k)[j]? = l[j]? := by
    rw [List.getElem?_take_of_lt hjk, List.getElem?_append_left hj]
  by_cases hlt : i < l.length
  · rw [before hlt hik] at hi
    exact .inl hi
  · have hmem : c ∈ (l ++ ext).take k := List.mem_of_getElem? hi
    have hnd : ((l ++ ext).take k).Nodup := by
      rcases st.coherent.chain with ⟨-, h⟩ | h
      · rw [h]
        exact List.nodup_nil
      · exact Chain.nodup (fatEnds hg _) h
    have hcl : c ∉ l := by
      intro hc
      obtain ⟨j, hj⟩ := List.mem_iff_getElem?.mp hc
      have hjl := (List.getElem?_eq_some_iff.mp hj).1
      have hj' : ((l ++ ext).take k)[j]? = some c := by
        rw [before hjl (by omega), hj]
      have hji := (List.getElem?_inj (List.getElem?_eq_some_iff.mp hj').1 hnd).mp (hj'.trans hi.symm)
      omega
    refine .inr ⟨(st.coherent.of_index hi).inRange c hmem, ?_⟩
    by_contra hz
    exact st.own.away c hz hcl hmem

theorem truncate_enlarged (hk : Reliable fsi.kernel) (hg : Geometry fsi)
    (hfuel : fsi.clusterCount < fsi.kernel.fuel) (h : Coherent fsi l s) (hty : s.fv.type = .vreg)
    (size n : Nat) :
    WP (truncate fsi size) s fun r s' => r = .ok () → ∃ l', Enlarged fsi l l' n s s' := by
  refine (truncate_to hk hg hfuel h rfl).mono fun r s' hr hok => ?_
  obtain ⟨ext, ⟨-, st, hle, hsz, -, hdata⟩ | ⟨he, -⟩⟩ := hr
  · refine ⟨_, st.coherent, st.fv.type, ?_, fun k c => st.clusters hg, fun _ i _ => ?_⟩
    · revert hsz hle
      generalize (if size = 0 then 0
        else u32 ((size + fsi.bytesPerCluster - 1) >>> fsi.clusterShift)) = k
      intro hle hsz
      by_cases h0 : k = 0
      · exact .inr (by rw [hsz, if_pos (.inl h0)])
      · refine .inl fun hnil => ?_
        have hlen := congrArg List.length hnil
        rw [List.length_take_of_le hle] at hlen
        exact h0 hlen
    · have hd : (view fsi s'.vol.disk).data = (view fsi s.vol.disk).data :=
        hdata (by rw [hty]; decide)
      rw [fileByte, fileByte, hd]
  · rw [he] at hok
    cases hok

theorem write_enlarged (hk : Reliable fsi.kernel) (hg : Geometry fsi)
    (hb : fsi.bytesPerCluster < 2 ^ 32) (h : Coherent fsi l s) {uio : Uio} (hn : uio.offset = n)
    (hres : 0 < uio.resid) :
    WP (write fsi false) ⟨s, uio⟩ fun r t => r = .ok () → ∃ l', Enlarged fsi l l' n s t.vn := by
  refine (write_step (t := ⟨s, uio⟩) hk hg h false).mono fun r t hr hok => ?_
  obtain ⟨ext, st, -, -, hne, hbytes⟩ := hr
  have hst : FileStep fsi l ((l ++ ext).take (l ++ ext).length) s t.vn := by
    rw [List.take_length]
    exact st
  refine ⟨l ++ ext, st.coherent, st.fv.type, .inl (hne hok (Nat.ne_of_gt hres)), fun k c hc => ?_,
    hbytes hok hb n hn⟩
  refine hst.clusters hg ?_
  rwa [List.take_length]

/-- What the chain and the bytes of a file depend on. -/
structure SameFile (fv fv' : Fv) : Prop where
  cluster : fv'.cluster = fv.cluster
  clsCache : fv'.clsCache = fv.clsCache
  type : fv'.type = fv.type
  size : fv'.size = fv.size

theorem SameFile.trans {fv fv' fv'' : Fv} (h : SameFile fv fv') (k : SameFile fv' fv'') :
    SameFile fv fv'' :=
  ⟨k.cluster.trans h.cluster, k.clsCache.trans h.clsCache, k.type.trans h.type, k.size.trans h.size⟩

theorem SameFile.ite {fv fv' : Fv} {b : Prop} [Decidable b] (h : SameFile fv fv') :
    SameFile fv (if b then fv' else fv) := by
  split
  · exact h
  · exact ⟨rfl, rfl, rfl, rfl⟩

theorem setMode_sameFile (mode : Nat) (fv : Fv) : SameFile fv (setMode mode fv) := by
  unfold setMode
  dsimp only
  split <;> split <;> exact ⟨rfl, rfl, rfl, rfl⟩

/-- A change of attributes. -/
theorem setFields_sameFile (vap : Vattr) (fv : Fv) : SameFile fv (setFields vap fv) := by
  have hmode : SameFile fv (if vap.atMode then setMode vap.mode fv else fv) :=
    .ite (setMode_sameFile _ _)
  unfold setFields
  refine .trans ?_ (.ite ⟨rfl, rfl, rfl, rfl⟩)
  refine .trans ?_ (.ite ⟨rfl, rfl, rfl, rfl⟩)
  refine .trans ?_ (.ite ⟨rfl, rfl, rfl, rfl⟩)
  refine .trans ?_ (.ite ⟨rfl, rfl, rfl, rfl⟩)
  exact hmode.trans (.ite ⟨rfl, rfl, rfl, rfl⟩)

theorem Enlarged.setFields {l' : List Nat} (h : Enlarged fsi l l' n s s') (vap : Vattr) :
    Enlarged fsi l l' n s ⟨s'.vol, setFields vap s'.fv⟩ := by
  have k := setFields_sameFile vap s'.fv
  refine ⟨h.coherent.same (.refl _) k.cluster k.clsCache, k.type.trans h.type, ?_, h.clusters,
    h.bytes⟩
  exact h.nonempty.imp_right k.size.trans

/-- `fat32_setattr` of the size of a file. -/
theorem setattrFv_size {vap : Vattr} (hat : vap.atSize = true) (hty : s.fv.type = .vreg) :
    setattrFv fsi vap s = (if fsi.vfsRdonly = true then fail .erofs else do
      truncate fsi vap.size
      modifyFv (setFields vap)) s := by
  unfold setattrFv
  rw [get_bind_run]
  by_cases hro : fsi.vfsRdonly = true
  · rw [if_pos hro, if_pos hro]
  · simp only [if_neg hro, hat, hty, if_true, reduceCtorEq, if_false]

/-- Every extension that succeeds enlarges the file. -/
theorem Extension.enlarged (hk : Reliable fsi.kernel) (hg : Geometry fsi)
    (hfuel : fsi.clusterCount < fsi.kernel.fuel) (hb : fsi.bytesPerCluster < 2 ^ 32)
    (h : Coherent fsi l s) (hty : s.fv.type = .vreg) {op : Extension} (hop : op.UpTo n)
    (hok : (op.exec fsi s).1 = .ok ()) : ∃ l', Enlarged fsi l l' n s (op.exec fsi s).2 := by
  cases op with
  | truncate size =>
    have ht := truncate_enlarged hk hg hfuel h hty size n
    unfold WP at ht
    exact ht hok
  | setattr vap =>
    have hrun : WP (setattrFv fsi vap) s fun r s' => r = .ok () → ∃ l', Enlarged fsi l l' n s s' := by
      have hrun : WP (if fsi.vfsRdonly = true then fail .erofs else do
          Fat32.truncate fsi vap.size
          modifyFv (setFields vap)) s fun r s' => r = .ok () → ∃ l', Enlarged fsi l l' n s s' := by
        refine .ite (fun _ => .of_run rfl nofun) fun _ =>
          .bind (truncate_enlarged hk hg hfuel h hty vap.size n) (fun _ s1 h1 => ?_)
            (fun _ _ _ => nofun) fun _ _ => nofun
        obtain ⟨l', E⟩ := h1 rfl
        exact .of_run rfl fun _ => ⟨l', E.setFields vap⟩
      unfold WP at hrun ⊢
      rwa [setattrFv_size hop.1 hty]
    unfold WP at hrun
    exact hrun hok
  | write uio =>
    have hw : WP (Fat32.write fsi false) ⟨s, uio⟩ fun r t => r = .ok () →
        ∃ l', Enlarged fsi l l' n s t.vn := write_enlarged hk hg hb h hop.1 hop.2
    have ht : WP (transfer (Fat32.write fsi false) uio) s fun r s' => r = .ok () →
        ∃ l', Enlarged fsi l l' n s s' := transfer_wp hw
    unfold WP at ht
    exact ht hok

/-- The end of an extension does not depend on bytes. -/
theorem Extension.alike (hk : Reliable fsi.kernel) (hg : Geometry fsi) (hf : ¬ Faults fsi)
    (h : Coherent fsi l s) (hty : s.fv.type = .vreg) (ht : AlikeVn fsi s t)
    (hio : t.vol.io.nclock = s.vol.io.nclock) {op : Extension} (hop : op.UpTo n) :
    (op.exec fsi s).1 = (op.exec fsi t).1 := by
  cases op with
  | truncate size => exact truncate_alike hk hg ht hty size
  | setattr vap =>
    show (setattrFv fsi vap s).1 = (setattrFv fsi vap t).1
    rw [setattrFv_size hop.1 hty, setattrFv_size hop.1 (by rw [ht.fv]; exact hty)]
    by_cases hro : fsi.vfsRdonly = true
    · rw [if_pos hro]
      rfl
    · rw [if_neg hro]
      have htr := truncate_alike hk hg ht hty vap.size
      rw [bind_run, bind_run]
      rcases hs' : Fat32.truncate fsi vap.size s with ⟨a | e | _, s'⟩ <;>
        rcases ht' : Fat32.truncate fsi vap.size t with ⟨b | e' | _, t'⟩ <;>
        rw [hs', ht'] at htr <;> simp only [Out.err.injEq, reduceCtorEq] at htr ⊢
      · rfl
      · rw [htr]
  | write uio => exact (write_alike hk hg hf ht hio h false uio).1

/-! ## What was left is read -/

/-- A byte in a free cluster, or in a cluster of the file behind its end. -/
def Leftover (fsi : Fsi) (l : List Nat) (s : VnSt) (a : Nat) : Prop :=
  (∃ c o, InRange fsi c ∧ (view fsi s.vol.disk).fat c = 0 ∧ o < fsi.bytesPerCluster ∧
    a = clusterAddr fsi c + o) ∨
  ∃ i c, s.fv.size ≤ i ∧ l[i / fsi.bytesPerCluster]? = some c ∧
    a = clusterAddr fsi c + i % fsi.bytesPerCluster

/-- States that differ in such bytes only. -/
structure Differs (fsi : Fsi) (l : List Nat) (s s' : VnSt) : Prop where
  fv : s'.fv = s.fv
  freeCount : s'.vol.freeCount = s.vol.freeCount
  nextFree : s'.vol.nextFree = s.vol.nextFree
  io : s'.vol.io = s.vol.io
  disk : ∀ a, ¬ Leftover fsi l s a → s'.vol.disk a = s.vol.disk a

theorem Leftover.area (hg : Geometry fsi) (h : Coherent fsi l s) (ha : Leftover fsi l s a) :
    512 * fsi.dataStart ≤ a ∧
      a < 512 * (fsi.dataStart + fsi.clusterCount * fsi.sectorsPerCluster) := by
  have hb := bpc_pos hg
  rcases ha with ⟨c, o, hc, -, ho, rfl⟩ | ⟨i, c, -, hc, rfl⟩
  · exact clusterAddr_area hg hc ho
  · have hr := (h.of_index hc).inRange c (List.mem_of_getElem? hc)
    exact clusterAddr_area hg hr (Nat.mod_lt _ (by omega))

theorem Differs.alike (hg : Geometry fsi) (h : Coherent fsi l s) (d : Differs fsi l s s') :
    AlikeVn fsi s s' := by
  refine ⟨⟨funext fun c => ?_, d.freeCount, d.nextFree⟩, d.fv⟩
  by_cases hc : InRange fsi c
  · rw [view_fat hc, view_fat hc, fatCopy, fatCopy]
    congr 1
    refine rle32_congr fun i hi => d.disk _ fun ha => ?_
    have h1 := ha.area hg h
    have h2 := fatAddr_area hg hg.numFats hc.2
    have := hg.fatData
    omega
  · rw [fat_outside hc, fat_outside hc]

theorem AlikeVn.coherent (h : AlikeVn fsi s t) (hs : Coherent fsi l s) : Coherent fsi l t := by
  obtain ⟨hl, hca⟩ := hs
  constructor
  · rwa [h.vol.fat, h.fv]
  · rwa [h.vol.fat, h.fv]

open Classical in
/-- A state with other bytes in all these places. -/
theorem exists_filled (h : Coherent fsi l s) : ∃ s', Differs fsi l s s' ∧
    ∀ l' : List Nat, (∀ k c : Nat, l'[k]? = some c →
      l[k]? = some c ∨ InRange fsi c ∧ (view fsi s.vol.disk).fat c = 0) →
    ∀ i, s.fv.size ≤ i → i < l'.length * fsi.bytesPerCluster →
      fileByte fsi (view fsi s'.vol.disk) l' i = 0xFF := by
  refine ⟨⟨{ s.vol with disk := fun a => if Leftover fsi l s a then 0xFF else s.vol.disk a }, s.fv⟩,
    ⟨rfl, rfl, rfl, rfl, fun a ha => if_neg ha⟩, fun l' hl' i hsz hi => ?_⟩
  obtain ⟨k, c, o, hk, ho, rfl⟩ := position hi
  rw [fileByte_at hk ho]
  have hdiv : (k * fsi.bytesPerCluster + o) / fsi.bytesPerCluster = k := by
    rw [Nat.mul_comm, Nat.mul_add_div (by omega), Nat.div_eq_of_lt ho, Nat.add_zero]
  have hmod : (k * fsi.bytesPerCluster + o) % fsi.bytesPerCluster = o := by
    rw [Nat.mul_comm, Nat.mul_add_mod, Nat.mod_eq_of_lt ho]
  have hboth : InRange fsi c ∧ Leftover fsi l s (clusterAddr fsi c + o) := by
    rcases hl' k c hk with hc | ⟨hr, hz⟩
    · exact ⟨(h.of_index hc).inRange c (List.mem_of_getElem? hc),
        .inr ⟨k * fsi.bytesPerCluster + o, c, hsz, by rw [hdiv]; exact hc, by rw [hmod]⟩⟩
    · exact ⟨hr, .inl ⟨c, o, hr, hz, ho, rfl⟩⟩
  rw [view_data hboth.1 ho]
  exact if_pos hboth.2

/-- After the extension the bytes that the file got before position `n` are read as
zero, whatever was left on the disk. -/
def Clears (fsi : Fsi) (l : List Nat) (s : VnSt) (op : Extension) (n : Nat) : Prop :=
  ∀ s', Differs fsi l s s' → (op.exec fsi s').1 = .ok () →
    ∀ i, s.fv.size ≤ i → i < n → ReadsZero fsi (op.exec fsi s').2 i

/-- No extension clears what it adds to the file. -/
theorem extension_not_clears (hk : Reliable fsi.kernel) (hg : Geometry fsi)
    (hfuel : fsi.clusterCount < fsi.kernel.fuel) (hb : fsi.bytesPerCluster < 2 ^ 32)
    (hf : ¬ Faults fsi) (h : Coherent fsi l s) (hty : s.fv.type = .vreg)
    (hcov : s.fv.size ≤ l.length * fsi.bytesPerCluster) {op : Extension} (hop : op.UpTo n)
    (hn : s.fv.size < n) (hok : (op.exec fsi s).1 = .ok ()) : ¬ Clears fsi l s op n := by
  intro hclear
  have hb0 := bpc_pos hg
  obtain ⟨s', d, hfill⟩ := exists_filled h
  have ha := d.alike hg h
  have h' := ha.coherent h
  have hty' : s'.fv.type = .vreg := by rw [d.fv]; exact hty
  have hok' : (op.exec fsi s').1 = .ok () := by
    rw [← Extension.alike hk hg hf h hty ha (by rw [d.io]) hop]
    exact hok
  have hz := hclear s' d hok'
  obtain ⟨l', E⟩ := Extension.enlarged hk hg hfuel hb h' hty' hop hok'
  have hcl : ∀ k c : Nat, l'[k]? = some c →
      l[k]? = some c ∨ InRange fsi c ∧ (view fsi s.vol.disk).fat c = 0 := by
    rw [← ha.vol.fat]
    exact E.clusters
  have hlen := E.coherent.length_lt hg
  have hlen' := h.length_lt hg
  by_cases hin : n / fsi.bytesPerCluster < 2 ^ 32 ∧ s.fv.size < l'.length * fsi.bytesPerCluster
  · -- the first byte behind the old end
    refine not_readsZero_byte hk hg hb hf E.coherent (E.type.trans hty') hin.2 ?_
      (hz _ (Nat.le_refl _) hn)
    rw [E.bytes hin.1 _ hn, hfill l' hcl _ (Nat.le_refl _) hin.2]
    decide
  · -- the position wrapped around, or the chain became shorter: there is no byte
    have hbound : max s.fv.size (l'.length * fsi.bytesPerCluster) < 2 ^ 32 * fsi.bytesPerCluster := by
      have h1 : l.length * fsi.bytesPerCluster < 2 ^ 32 * fsi.bytesPerCluster :=
        Nat.mul_lt_mul_of_pos_right (by omega) (by omega)
      have h2 : l'.length * fsi.bytesPerCluster < 2 ^ 32 * fsi.bytesPerCluster :=
        Nat.mul_lt_mul_of_pos_right (by omega) (by omega)
      omega
    have hlt : max s.fv.size (l'.length * fsi.bytesPerCluster) < n := by
      rw [Nat.div_lt_iff_lt_mul (by omega)] at hin
      omega
    refine not_readsZero_past hk hg E.coherent E.nonempty (Nat.le_max_right _ _) ?_
      (hz _ (Nat.le_max_left _ _) hlt)
    rwa [Nat.div_lt_iff_lt_mul (by omega)]

theorem twoClustersFile_coherent : Coherent twoClusters [2] twoClustersFile := by
  have hf : fatFin twoClusters (view twoClusters twoClustersVol.disk).fat 2 := by
    constructor <;> decide
  exact .of_chain (.last hf) .empty

theorem extension_not_clears_next : ¬ Clears twoClusters [2] twoClustersFile (.truncate 600) 600 := by
  have hf : ¬ Faults twoClusters := fun ⟨_, _, h⟩ => by cases h
  exact extension_not_clears ⟨fun _ => rfl⟩ twoClusters_geometry (by decide) (by decide) hf
    twoClustersFile_coherent rfl (by decide) (show 600 = 600 from rfl) (by decide) (by decide +kernel)

/-- The file of five bytes, with a deleted one in the other cluster. -/
def staleFile : VnSt :=
  ⟨{ twoClustersVol with disk := fun a => if 1536 ≤ a then 0xAA else twoClustersVol.disk a },
    twoClustersFile.fv⟩

/-- A request for one byte. -/
def requestAt (i : Nat) : Uio := ⟨i, 1, fun _ => 0, 0⟩

theorem truncate_reads_stale : staleFile.fv.size ≤ 550 ∧ 550 < 600 ∧
    (truncate twoClusters 600 staleFile).1 = .ok () ∧
    (read twoClusters ⟨(truncate twoClusters 600 staleFile).2, requestAt 550⟩).1 = .ok () ∧
    (read twoClusters ⟨(truncate twoClusters 600 staleFile).2, requestAt 550⟩).2.uio.mem 0 = 0xAA := by
  decide +kernel

end Fat32
