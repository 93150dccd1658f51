import Mathlib
import Fat32.Proof.Content
import Fat32.Proof.Ownership

/-!
# Reading and writing

`read` and `write` walk along the chain of the file, from the cluster a seek
found; the index and the cluster they stop at are a new cache entry. Both are a
`FileStep`, also when a transfer faults.
-/

namespace Fat32

open Bytes Exec Prog Linked

variable {fsi : Fsi} {l ext : List Nat} {s s' : VnSt} {fat : Nat → Nat} {a c : Nat}

/-! ## The request -/

/-- Some transfer faults. -/
def Faults (fsi : Fsi) : Prop := ∃ n e, fsi.kernel.uiomoveErr n = some e

/-- The request after `k` bytes went to the user. -/
def Uio.filled (u : Uio) (k : Nat) (src : Nat → UInt8) : Uio :=
  { u.moved k with mem := poke u.mem u.pos k src }

@[simp] theorem Uio.moved_zero (u : Uio) : u.moved 0 = u := by
  simp [Uio.moved]

@[simp] theorem Uio.moved_moved (u : Uio) (m n : Nat) : (u.moved m).moved n = u.moved (m + n) := by
  simp [Uio.moved, Nat.add_assoc, Nat.sub_sub, Int.add_assoc]

@[simp] theorem Uio.moved_pos (u : Uio) (m : Nat) : (u.moved m).pos = u.pos + m := rfl
@[simp] theorem Uio.moved_mem (u : Uio) (m : Nat) : (u.moved m).mem = u.mem := rfl
@[simp] theorem Uio.moved_offset (u : Uio) (m : Nat) : (u.moved m).offset = u.offset + m := rfl

@[simp] theorem Uio.filled_zero (u : Uio) (src : Nat → UInt8) : u.filled 0 src = u := by
  have hp : poke u.mem u.pos 0 src = u.mem := by
    funext i
    exact poke_outside (by omega)
  rw [Uio.filled, Uio.moved_zero, hp]

theorem Uio.filled_filled (u : Uio) (m n : Nat) (src : Nat → UInt8) :
    (u.filled m src).filled n (fun i => src (m + i)) = u.filled (m + n) src := by
  have hm : (u.filled m src).moved n = { u.moved (m + n) with mem := poke u.mem u.pos m src } := by
    rw [← Uio.moved_moved]
    rfl
  rw [Uio.filled, hm, Uio.filled]
  congr 1
  exact poke_append u.mem u.pos m n src

theorem Uio.filled_congr (u : Uio) {k : Nat} {src src' : Nat → UInt8}
    (h : ∀ i < k, src i = src' i) : u.filled k src = u.filled k src' := by
  rw [Uio.filled, Uio.filled, poke_congr h]

theorem uiomove_ok (fsi : Fsi) (v : Vol) :
    WP (uiomove fsi) v fun r v' => Same v v' ∧ (r = .ok () ∨ ∃ e, r = .err e ∧ Faults fsi) := by
  unfold WP uiomove
  split
  · rename_i e he
    exact ⟨⟨rfl, rfl, rfl⟩, .inr ⟨_, rfl, _, e, he⟩⟩
  · exact ⟨⟨rfl, rfl, rfl⟩, .inl rfl⟩

theorem uiomoveOut_ok (fsi : Fsi) (data : Nat → UInt8) (n : Nat) (t : RwSt) :
    WP (uiomoveOut fsi data n) t fun r t' => Same t.vn.vol t'.vn.vol ∧ t'.vn.fv = t.vn.fv ∧
      (r = .ok () ∧ t'.uio = t.uio.filled n data ∨
        (∃ e, r = .err e) ∧ Faults fsi ∧ t'.uio = t.uio) := by
  refine .on_bind (R := fun r s => Same t.vn.vol s.vol ∧ s.fv = t.vn.fv ∧
    (r = .ok () ∨ ∃ e, r = .err e ∧ Faults fsi)) ?_ ?_ ?_ ?_
  · exact .on ((uiomove_ok fsi t.vn.vol).mono fun r v h => ⟨h.1, rfl, h.2⟩)
  · exact fun _ s h => .of_run rfl ⟨h.1, h.2.1, .inl ⟨rfl, rfl⟩⟩
  · intro e s h
    obtain ⟨hs, hfv, h | ⟨e', -, hf⟩⟩ := h
    · cases h
    · exact ⟨hs, hfv, .inr ⟨⟨e, rfl⟩, hf, rfl⟩⟩
  · intro s h
    obtain ⟨-, -, h | ⟨e, h, -⟩⟩ := h <;> cases h

theorem uiomoveIn_ok (fsi : Fsi) (data : Nat → UInt8) (o n : Nat) (t : RwSt) :
    WP (uiomoveIn fsi data o n) t fun r t' => Same t.vn.vol t'.vn.vol ∧ t'.vn.fv = t.vn.fv ∧
      (r = .ok (poke data o n fun i => t.uio.mem (t.uio.pos + i)) ∧ t'.uio = t.uio.moved n ∨
        (∃ e, r = .err e) ∧ t'.uio = t.uio) := by
  refine .on_bind (R := fun r s => Same t.vn.vol s.vol ∧ s.fv = t.vn.fv ∧
    (r = .ok () ∨ ∃ e, r = .err e ∧ Faults fsi)) ?_ ?_ ?_ ?_
  · exact .on ((uiomove_ok fsi t.vn.vol).mono fun r v h => ⟨h.1, rfl, h.2⟩)
  · exact fun _ s h => .of_run rfl ⟨h.1, h.2.1, .inl ⟨rfl, rfl⟩⟩
  · exact fun e s h => ⟨h.1, h.2.1, .inr ⟨⟨e, rfl⟩, rfl⟩⟩
  · intro s h
    obtain ⟨-, -, h | ⟨e, h, -⟩⟩ := h <;> cases h

/-! ## Reading -/

/-- The cluster with an index in the file; an empty file has only cluster 0, from
which nothing leads on. -/
def AtIndex (l : List Nat) (i c : Nat) : Prop := l[i]? = some c ∨ l = [] ∧ c = 0

theorem readCluster_same (hk : Reliable fsi.kernel) (c : Nat) (v : Vol) :
    ∃ b v', readCluster fsi c v = (.ok b, v') ∧ Same v v' ∧
      b.data = fun o => v.disk (512 * clusterToSector fsi c + o) := by
  obtain ⟨v0, e0, s0⟩ := askCluster_ok c v
  obtain ⟨v', e, h⟩ := bread_ok hk (clusterToSector fsi c) fsi.sectorsPerCluster v0
  rw [readCluster, bind_ok e0, e, s0.disk]
  exact ⟨_, v', rfl, s0.trans h, rfl⟩

theorem FatChain.index_lt (hg : Geometry fsi) (hl : FatChain fsi fat a l) {i : Nat}
    (hi : l[i]? = some c) : u32 (i + 1) = i + 1 := by
  have hlt := (List.getElem?_eq_some_iff.mp hi).1
  have hlen := FatChain.length_le hg hl
  have hcnt := hg.count
  simp only [clusterBad] at hcnt
  simp only [u32]
  omega

/-- How `readLoop` ends: all was read, a transfer faulted, or the chain ended. -/
def ReadEnd (fsi : Fsi) (l : List Nat) (last rem k : Nat) (r : Out Errno (Nat × Nat)) : Prop :=
  (∃ i c, r = .ok (i, c) ∧ AtIndex l i c) ∧ k = rem ∨
    (∃ e, r = .err e) ∧ (Faults fsi ∨ l.length * fsi.bytesPerCluster < last)

/-- `readLoop` moves bytes of the file to the user, `k` of them. -/
theorem readLoop_ok (hk : Reliable fsi.kernel) (hg : Geometry fsi) (n : Nat) :
    ∀ {cluster skip o rem : Nat} {t : RwSt},
      FileChain fsi (view fsi t.vn.vol.disk).fat t.vn.fv.cluster l → AtIndex l skip cluster →
      o < fsi.bytesPerCluster → 0 < rem → rem ≤ n →
      WP (readLoop fsi n cluster skip o rem) t fun r t' => Same t.vn.vol t'.vn.vol ∧
        t'.vn.fv = t.vn.fv ∧ ∃ k,
        ReadEnd fsi l (skip * fsi.bytesPerCluster + o + rem) rem k r ∧
        (skip < l.length → t'.uio = t.uio.filled k fun i =>
          fileByte fsi (view fsi t.vn.vol.disk) l (skip * fsi.bytesPerCluster + o + i)) := by
  induction n with
  | zero => exact fun _ _ _ h h' => absurd h (by omega)
  | succ n ih =>
    intro cluster skip o rem t hl hc ho hrem hn
    have hb := bpc_pos hg
    obtain ⟨b, v1, e1, s1, hbd⟩ := readCluster_same hk cluster t.vn.vol
    -- the bytes of this round
    generalize hm : min (fsi.bytesPerCluster - o) rem = m
    have hbytes (hlt : skip < l.length) : ∀ i < m, b.data (o + i) =
        fileByte fsi (view fsi t.vn.vol.disk) l (skip * fsi.bytesPerCluster + o + i) := by
      intro i hi
      rcases hc with hc | ⟨rfl, -⟩
      · rcases hl with ⟨-, rfl⟩ | hl
        · cases hc
        · have hr := hl.inRange _ (List.mem_of_getElem? hc)
          rw [Nat.add_assoc, fileByte_at hc (by omega), view_data hr (by omega), hbd,
            clusterToSector_eq hg hr]
          rfl
      · simp at hlt
    unfold readLoop
    refine .ok_bind (onVn_run (onVol_run e1)) (.bind (uiomoveOut_ok fsi _ _ _) ?_ ?_ ?_)
    · intro _ t2 h2
      obtain ⟨s2, fv2, ⟨-, huio⟩ | ⟨⟨e, he⟩, -⟩⟩ := h2
      · have s12 : Same t.vn.vol t2.vn.vol := s1.trans s2
        have hmoved (hlt : skip < l.length) : t2.uio = t.uio.filled m fun i =>
            fileByte fsi (view fsi t.vn.vol.disk) l (skip * fsi.bytesPerCluster + o + i) := by
          rw [huio, hm]
          exact Uio.filled_congr _ (hbytes hlt)
        refine .ite (fun hz => ?_) fun hmore => ?_
        · rw [hm] at hz
          exact .of_run rfl ⟨s12, fv2, m, .inl ⟨⟨_, _, rfl, hc⟩, by omega⟩, hmoved⟩
        rw [hm] at hmore
        have hmo : o + m = fsi.bytesPerCluster := by omega
        have hsucc : (skip + 1) * fsi.bytesPerCluster = skip * fsi.bytesPerCluster + o + m := by
          rw [Nat.add_mul, Nat.one_mul]
          omega
        rcases hc with hc | ⟨rfl, rfl⟩
        · have hl' : FatChain fsi (view fsi t2.vn.vol.disk).fat t2.vn.fv.cluster l := by
            rw [s12.disk, fv2]
            rcases hl with ⟨-, rfl⟩ | hl
            · cases hc
            · exact hl
          obtain ⟨v3, s3, ⟨d, e3, hd⟩ | ⟨e3, hlen⟩⟩ := nextCluster_read hk hg noAlloc hl' hc
          · refine .ok_bind (attempt_ok (onVn_run (onVol_run e3))) ?_
            rw [hm, hl'.index_lt hg hc]
            refine (ih (t := ⟨⟨v3, t2.vn.fv⟩, t2.uio⟩) ?_ (.inl hd) (by omega) (by omega)
              (by omega)).mono ?_
            · rw [s3.disk]
              exact .inr hl'
            intro r t4 h4
            obtain ⟨s4, fv4, k, hend, huio4⟩ := h4
            refine ⟨(s12.trans s3).trans s4, fv4.trans fv2, m + k, ?_, fun hlt => ?_⟩
            · rcases hend with ⟨hok, hkr⟩ | ⟨herr, hwhy⟩
              · exact .inl ⟨hok, by omega⟩
              · rw [show (skip + 1) * fsi.bytesPerCluster + 0 + (rem - m) =
                  skip * fsi.bytesPerCluster + o + rem by omega] at hwhy
                exact .inr ⟨herr, hwhy⟩
            · rw [huio4 (List.getElem?_eq_some_iff.mp hd).1, hmoved hlt, s3.disk, s12.disk,
                ← Uio.filled_filled]
              refine Uio.filled_congr _ fun i _ => ?_
              rw [hsucc, Nat.add_zero, Nat.add_assoc _ m i]
          · refine .ok_bind (attempt_err (onVn_run (onVol_run e3))) (.of_run rfl
              ⟨s12.trans s3, fv2, m, .inr ⟨⟨_, rfl⟩, .inr ?_⟩, hmoved⟩)
            rw [hlen, hsucc]
            omega
        · refine .ok_bind (attempt_err (onVn_run (onVol_run (nextCluster_zero_refused rfl))))
            (.of_run rfl ⟨s12, fv2, m, .inr ⟨⟨_, rfl⟩, .inr ?_⟩, hmoved⟩)
          rw [List.length_nil]
          omega
      · cases he
    · intro e t2 h2
      obtain ⟨s2, fv2, ⟨he, -⟩ | ⟨-, hf, huio⟩⟩ := h2
      · cases he
      · exact ⟨s1.trans s2, fv2, 0, .inr ⟨⟨e, rfl⟩, .inl hf⟩, fun _ => by rw [huio]; simp⟩
    · intro t2 h2
      obtain ⟨-, -, ⟨he, -⟩ | ⟨⟨e, he⟩, -⟩⟩ := h2 <;> cases he

theorem Coherent.of_index (h : Coherent fsi l s) {i : Nat} (hi : l[i]? = some c) :
    FatChain fsi (view fsi s.vol.disk).fat s.fv.cluster l := by
  rcases h.chain with ⟨-, rfl⟩ | h
  · cases hi
  · exact h

theorem Coherent.length_lt (hg : Geometry fsi) (h : Coherent fsi l s) : l.length < 2 ^ 28 := by
  rcases h.chain with ⟨-, rfl⟩ | hl
  · decide
  · have hlen := FatChain.length_le hg hl
    have hcnt := hg.count
    simp only [clusterBad] at hcnt
    omega

theorem lo32_lt (x : Int) : lo32 x < 2 ^ 32 := by
  simp only [lo32]
  omega

theorem inCluster_lt (hg : Geometry fsi) (x : Nat) : x &&& fsi.clusterMask < fsi.bytesPerCluster := by
  have hb := bpc_pos hg
  have hle : x &&& fsi.clusterMask ≤ fsi.clusterMask := Nat.and_le_right
  rw [hg.clusterMask] at hle ⊢
  omega

/-- The index of the cluster of a position. -/
theorem lo32_index (hg : Geometry fsi) {p : Nat} (hp : p / fsi.bytesPerCluster < 2 ^ 32) :
    lo32 ((p : Int) >>> fsi.clusterShift) = p / fsi.bytesPerCluster := by
  have hshift : (p : Int) >>> fsi.clusterShift = ((p / fsi.bytesPerCluster : Nat) : Int) := by
    rw [Int.shiftRight_eq_div_pow, bpc_eq hg]
    push_cast
    rfl
  rw [hshift, lo32]
  generalize p / fsi.bytesPerCluster = q at hp
  omega

/-- The offset of a position in its cluster. -/
theorem lo32_offset (hg : Geometry fsi) (hb : fsi.bytesPerCluster < 2 ^ 32) (p : Nat) :
    lo32 (p : Int) &&& fsi.clusterMask = p % fsi.bytesPerCluster := by
  have hlo : lo32 (p : Int) = p % 2 ^ 32 := by
    simp only [lo32]
    omega
  have hdvd : 2 ^ fsi.clusterShift ∣ 2 ^ 32 := by
    rw [bpc_eq hg] at hb
    exact Nat.pow_dvd_pow 2 (Nat.le_of_lt ((Nat.pow_lt_pow_iff_right (by decide)).mp hb))
  rw [hlo, hg.clusterMask, bpc_eq hg, Nat.and_two_pow_sub_one_eq_mod, Nat.mod_mod_of_dvd _ hdvd]

/-- The transfer of `read`, from the first cluster on. -/
theorem readFrom_step (hk : Reliable fsi.kernel) (hg : Geometry fsi) {t : RwSt} {skip o rem : Nat}
    (h : Coherent fsi l t.vn) (hskip : skip < 2 ^ 32) (ho : o < fsi.bytesPerCluster)
    (hrem : 0 < rem) :
    WP (do
      let cluster ← onVn (vnodeSeekCluster fsi skip {})
      let last ← readLoop fsi rem cluster skip o rem
      onVn (vnodeUpdateCache last.1 last.2)) t fun r t' =>
        FileStep fsi l l t.vn t'.vn ∧ Same t.vn.vol t'.vn.vol ∧
        CacheOnly t.vn.fv t'.vn.fv ∧ r ≠ .hang ∧
        (skip * fsi.bytesPerCluster + o + rem ≤ l.length * fsi.bytesPerCluster →
          Faults fsi ∨ r = .ok () ∧ t'.uio = t.uio.filled rem fun i =>
            fileByte fsi (view fsi t.vn.vol.disk) l (skip * fsi.bytesPerCluster + o + i)) := by
  have hin (hroom : skip * fsi.bytesPerCluster + o + rem ≤ l.length * fsi.bytesPerCluster) :
      skip < l.length := by
    by_contra hge
    have := Nat.mul_le_mul_right fsi.bytesPerCluster (not_lt.mp hge)
    omega
  refine .on_bind (vnodeSeekCluster_step_read hk hg hskip rfl h) ?_ ?_ ?_
  · intro cluster s1 h1
    obtain ⟨st1, sm1, fv1, ⟨d, hd, hat⟩ | ⟨⟨e, he⟩, -⟩⟩ := h1
    · obtain rfl := Out.ok.inj hd
      have hat' : AtIndex l skip cluster := hat.imp_right fun h => ⟨h.1, h.2.1⟩
      refine .bind (readLoop_ok (t := ⟨s1, t.uio⟩) hk hg rem st1.coherent.chain hat' ho hrem
        (Nat.le_refl _)) ?_ ?_ ?_
      · intro last t2 h2
        obtain ⟨sm2, fv2, k, ⟨⟨i, c, he, hic⟩, rfl⟩ | ⟨⟨e, he⟩, -⟩, huio⟩ := h2
        · obtain rfl := Out.ok.inj he
          have st2 : FileStep fsi l l s1 t2.vn := .of_fv' st1.coherent sm2 fv2
          refine .of_run rfl ⟨(st1.trans st2).trans (updateCache_step st2.coherent (.refl _) ?_),
            sm1.trans sm2, ?_, nofun, fun hroom => .inr ⟨rfl, ?_⟩⟩
          · intro hc0
            rcases hic with hi | ⟨-, rfl⟩
            · rw [(st2.coherent.of_index hi).walk_eq (fatEnds hg _), hi]
            · exact absurd rfl hc0
          · have hfv : CacheOnly s1.fv t2.vn.fv := fv2 ▸ .refl _
            exact (fv1.trans hfv).trans ⟨_, rfl⟩
          · rw [← sm1.disk]
            exact huio (hin hroom)
        · cases he
      · intro e t2 h2
        obtain ⟨sm2, fv2, k, ⟨⟨i, c, he, -⟩, -⟩ | ⟨-, hwhy⟩, -⟩ := h2
        · cases he
        · refine ⟨st1.trans (.of_fv' st1.coherent sm2 fv2), sm1.trans sm2, fv2 ▸ fv1, nofun,
            fun hroom => .inl ?_⟩
          exact hwhy.resolve_right (not_lt.mpr hroom)
      · intro t2 h2
        obtain ⟨-, -, k, ⟨⟨i, c, he, -⟩, -⟩ | ⟨⟨e, he⟩, -⟩, -⟩ := h2 <;> cases he
    · cases he
  · intro e s1 h1
    obtain ⟨st1, sm1, fv1, ⟨d, hd, -⟩ | ⟨-, hlen⟩⟩ := h1
    · cases hd
    · exact ⟨st1, sm1, fv1, nofun, fun hroom => absurd (hin hroom) (not_lt.mpr hlen)⟩
  · intro s1 h1
    obtain ⟨-, -, -, ⟨d, hd, -⟩ | ⟨⟨e, he⟩, -⟩⟩ := h1
    · cases hd
    · cases he

/-- The bytes a read of `resid` bytes at `p` gets from a file of that size. -/
def readLen (size p resid : Nat) : Nat := min resid (size - p)

/-- `read` changes times and the cache only. When the clusters cover what is read it
moves the bytes of the file, up to its end. -/
theorem read_step (hk : Reliable fsi.kernel) (hg : Geometry fsi) {t : RwSt}
    (h : Coherent fsi l t.vn) :
    WP (read fsi) t fun r t' => FileStep fsi l l t.vn t'.vn ∧ Same t.vn.vol t'.vn.vol ∧
      t'.vn.fv.size = t.vn.fv.size ∧ r ≠ .hang ∧
      (t.vn.fv.type = .vreg → fsi.bytesPerCluster < 2 ^ 32 → ∀ p : Nat, t.uio.offset = p →
        (readLen t.vn.fv.size p t.uio.resid ≠ 0 →
          p + readLen t.vn.fv.size p t.uio.resid ≤ l.length * fsi.bytesPerCluster) →
        Faults fsi ∨ r = .ok () ∧ t'.uio = t.uio.filled (readLen t.vn.fv.size p t.uio.resid)
          fun i => fileByte fsi (view fsi t.vn.vol.disk) l (p + i)) := by
  unfold read
  refine .get_bind (.ite (fun hty => .of_run rfl ⟨.refl h, .refl _, rfl, nofun,
    fun hty' => absurd hty' hty⟩) fun _ => ?_)
  obtain ⟨s1, e1, st1, sm1, -, hz1⟩ := touchFv_step h true false
  refine .ok_bind (onVn_run e1) ?_
  refine .ite (fun hneg => .of_run rfl ⟨st1, sm1, hz1, nofun, fun _ _ p hp _ => ?_⟩) fun _ => ?_
  · omega
  refine .ite (fun heof => .of_run rfl ⟨st1, sm1, hz1, nofun, fun _ _ p hp _ => .inr ⟨rfl, ?_⟩⟩)
    fun heof => ?_
  · rw [readLen, show min t.uio.resid (t.vn.fv.size - p) = 0 by omega, Uio.filled_zero]
  have hlen (p : Nat) (hp : t.uio.offset = p) :
      (if t.uio.offset + t.uio.resid > t.vn.fv.size then (t.vn.fv.size - t.uio.offset).toNat
        else t.uio.resid) = readLen t.vn.fv.size p t.uio.resid := by
    rw [readLen]
    split <;> omega
  refine .ite (fun hz => .of_run rfl ⟨st1, sm1, hz1, nofun, fun _ _ p hp _ => .inr ⟨rfl, ?_⟩⟩)
    fun hrem => ?_
  · rw [← hlen p hp, hz, Uio.filled_zero]
  refine (readFrom_step (t := ⟨s1, t.uio⟩) hk hg st1.coherent (lo32_lt _) (inCluster_lt hg _)
    (Nat.pos_of_ne_zero hrem)).mono ?_
  intro r t2 h2
  obtain ⟨st2, sm2, fv2, hr, hbytes⟩ := h2
  refine ⟨st1.trans st2, sm1.trans sm2, fv2.size.trans hz1, hr, fun _ hb p hp hcov => ?_⟩
  have hb0 := bpc_pos hg
  have hpos : p / fsi.bytesPerCluster * fsi.bytesPerCluster + p % fsi.bytesPerCluster = p := by
    rw [Nat.mul_comm, Nat.div_add_mod]
  rw [hlen p hp] at hrem
  have hcov := hcov hrem
  have hidx : p / fsi.bytesPerCluster < 2 ^ 32 := by
    have hlt : p / fsi.bytesPerCluster < l.length := by
      rw [Nat.div_lt_iff_lt_mul (by omega)]
      omega
    have := h.length_lt hg
    omega
  rw [hlen p hp, hp, lo32_index hg hidx, lo32_offset hg hb, hpos] at hbytes
  rw [← sm1.disk]
  exact hbytes hcov

/-! ## Writing -/

/-- The size is kept, or it grew and is marked. -/
def SizeOnly (fv fv' : Fv) : Prop :=
  fv' = fv ∨ ∃ size, fv' = { fv with size := size, flags := { fv.flags with size := true } }

theorem SizeOnly.keeps {fv fv' : Fv} (h : SizeOnly fv fv') : FvKeeps fv fv' := by
  rcases h with rfl | ⟨size, rfl⟩
  · exact .refl _
  · exact ⟨rfl, rfl, rfl, rfl, rfl, rfl, rfl, .inl rfl, id, .inr rfl, fun _ => rfl, .inl rfl, id⟩

theorem SizeOnly.cluster {fv fv' : Fv} (h : SizeOnly fv fv') : fv'.cluster = fv.cluster := by
  rcases h with rfl | ⟨size, rfl⟩ <;> rfl

theorem SizeOnly.clsCache {fv fv' : Fv} (h : SizeOnly fv fv') : fv'.clsCache = fv.clsCache := by
  rcases h with rfl | ⟨size, rfl⟩ <;> rfl

theorem SizeOnly.trans {fv fv' fv'' : Fv} (h : SizeOnly fv fv') (k : SizeOnly fv' fv'') :
    SizeOnly fv fv'' := by
  rcases k with rfl | ⟨size, rfl⟩
  · exact h
  · rcases h with rfl | ⟨_, rfl⟩ <;> exact .inr ⟨size, rfl⟩

/-- The size after a write that ends at `p`. -/
def SizeTo (fv fv' : Fv) (p : Nat) : Prop := fv'.size = max fv.size p

theorem growSize_run (t : RwSt) : ∃ t', growSize t = (.ok (), t') ∧ t'.vn.vol = t.vn.vol ∧
    t'.uio = t.uio ∧ SizeOnly t.vn.fv t'.vn.fv ∧
    ∀ p : Nat, t.uio.offset = p → SizeTo t.vn.fv t'.vn.fv p := by
  refine ⟨_, rfl, ?_⟩
  dsimp only
  split
  · refine ⟨rfl, rfl, .inr ⟨_, rfl⟩, fun p hp => ?_⟩
    show t.uio.offset.toNat = _
    omega
  · refine ⟨rfl, rfl, .inl rfl, fun p hp => ?_⟩
    show t.vn.fv.size = _
    omega

/-- Storing a cluster of the file. -/
theorem storeCluster_step (hg : Geometry fsi) (h : Coherent fsi l s) (hc : c ∈ l)
    (hr : InRange fsi c) (f : Nat → UInt8) :
    ∃ v, bdwrite ⟨fsi.dataStart + (c - 2) * fsi.sectorsPerCluster, fsi.sectorsPerCluster, f⟩ s.vol =
      (.ok (), v) ∧ FileStep fsi l l s ⟨v, s.fv⟩ ∧ DataSet fsi c f s.vol.disk v.disk := by
  obtain ⟨v, e, hd, -, -⟩ := bdwrite_cluster hg c f s.vol
  have hfat : (view fsi v.disk).fat = (view fsi s.vol.disk).fat := by
    rw [hd.view hg hr]
    rfl
  refine ⟨v, e, ⟨⟨?_, ?_⟩, hd.ownOnly hg hr hc, .refl _⟩, hd⟩
  · show FileChain fsi (view fsi v.disk).fat s.fv.cluster l
    rw [hfat]
    exact h.chain
  · show CacheOk fsi (view fsi v.disk).fat s.fv.cluster s.fv.clsCache
    rw [hfat]
    exact h.cache

theorem FileStep.sizeOnly (h : Coherent fsi l s) (hv : s'.vol = s.vol) (hf : SizeOnly s.fv s'.fv) :
    FileStep fsi l l s s' := by
  obtain ⟨v', fv'⟩ := s'
  obtain rfl : v' = s.vol := hv
  exact .of_fv h (.refl _) hf.keeps hf.cluster hf.clsCache

/-- `k` bytes of the request were stored from position `p` of the file on. -/
structure Stored (fsi : Fsi) (l l' : List Nat) (p k : Nat) (t t' : RwSt) : Prop where
  step : FileStep fsi l l' t.vn t'.vn
  size : SizeOnly t.vn.fv t'.vn.fv
  sizeTo : ∀ q : Nat, t.uio.offset = q → q ≤ t.vn.fv.size → SizeTo t.vn.fv t'.vn.fv (q + k)
  uio : t'.uio = t.uio.moved k
  bytes : Spliced fsi l l' (view fsi t.vn.vol.disk) (view fsi t'.vn.vol.disk) p k
    fun i => t.uio.mem (t.uio.pos + i)

theorem Stored.refl {t : RwSt} {p : Nat} (h : Coherent fsi l t.vn)
    (hp : p ≤ l.length * fsi.bytesPerCluster) : Stored fsi l l p 0 t t :=
  ⟨.refl h, .inl rfl, fun q _ hq => by simp [SizeTo, hq], by simp, .refl hp _ _⟩

theorem Stored.trans {t t' t'' : RwSt} {l' l'' : List Nat} {p k n : Nat}
    (h : Stored fsi l l' p k t t') (g : Stored fsi l' l'' (p + k) n t' t'')
    (hle : l.length ≤ l'.length) : Stored fsi l l'' p (k + n) t t'' := by
  obtain ⟨step, size, sizeTo, uio, bytes⟩ := g
  refine ⟨h.step.trans step, h.size.trans size, fun q hq hle => ?_, ?_, h.bytes.trans hle ?_⟩
  · have h1 : t'.vn.fv.size = max t.vn.fv.size (q + k) := h.sizeTo q hq hle
    have h2 : t''.vn.fv.size = max t'.vn.fv.size (q + k + n) := by
      apply sizeTo
      · rw [h.uio, Uio.moved_offset, hq]
        push_cast
        rfl
      · omega
    show t''.vn.fv.size = _
    omega
  · rw [uio, h.uio, Uio.moved_moved]
  · have hsrc : (fun i => t'.uio.mem (t'.uio.pos + i)) =
        fun i => t.uio.mem (t.uio.pos + (k + i)) := by
      rw [h.uio]
      simp [Nat.add_assoc]
    rwa [hsrc] at bytes

/-- Nothing was moved: the volume and the vnode may have changed. -/
theorem Stored.of_step {t t' : RwSt} {l' : List Nat} {p : Nat} (st : FileStep fsi l l' t.vn t'.vn)
    (hfv : t'.vn.fv = t.vn.fv) (huio : t'.uio = t.uio)
    (hb : Spliced fsi l l' (view fsi t.vn.vol.disk) (view fsi t'.vn.vol.disk) p 0
      fun i => t.uio.mem (t.uio.pos + i)) : Stored fsi l l' p 0 t t' :=
  ⟨st, .inl hfv, fun q _ hq => by simp [SizeTo, hfv, hq], by simp [huio], hb⟩

/-- One round of `writeLoop`: a cluster is read, changed and stored, before the
rest `m`. -/
theorem writeRound_ok (hk : Reliable fsi.kernel) (hg : Geometry fsi) {t : RwSt} {o n i p : Nat}
    (h : Coherent fsi l t.vn) (hc : l[i]? = some c) (hon : o + n ≤ fsi.bytesPerCluster)
    (hp : p = i * fsi.bytesPerCluster + o) (hpl : p ≤ l.length * fsi.bytesPerCluster)
    {m : RwM (Nat × Nat)} {Q : Out Errno (Nat × Nat) → RwSt → Prop}
    (hok : ∀ t', Stored fsi l l p n t t' → WP m t' Q)
    (herr : ∀ e t', Stored fsi l l p 0 t t' → Q (.err e) t') :
    WP (do
      let bp ← onVn (onVol (readCluster fsi c))
      let data ← uiomoveIn fsi bp.data o n
      onVn (onVol (bdwrite { bp with data := data }))
      growSize
      m) t Q := by
  have hl := h.of_index hc
  have hr := hl.inRange _ (List.mem_of_getElem? hc)
  obtain ⟨v1, e1, sm1⟩ := readCluster_ok hk hg hr t.vn.vol
  have st1 : FileStep fsi l l t.vn ⟨v1, t.vn.fv⟩ := .of_fv h sm1 (.refl _) rfl rfl
  refine .ok_bind (onVn_run (onVol_run e1)) (.bind (uiomoveIn_ok fsi _ _ _ _) ?_ ?_ ?_)
  · intro data t2 h2
    obtain ⟨sm2, fv2, ⟨he, huio⟩ | ⟨⟨e, he⟩, -⟩⟩ := h2
    · obtain rfl := Out.ok.inj he
      have sm12 : Same t.vn.vol t2.vn.vol := sm1.trans sm2
      have st2 : FileStep fsi l l t.vn t2.vn := st1.trans (.of_fv' st1.coherent sm2 fv2)
      obtain ⟨v3, e3, st3, hd⟩ := storeCluster_step hg st2.coherent (List.mem_of_getElem? hc) hr
        (poke (fun o => t.vn.vol.disk (clusterAddr fsi c + o)) o n
          fun i => t.uio.mem (t.uio.pos + i))
      obtain ⟨t4, e4, hv4, huio4, hf4, hsz4⟩ := growSize_run ⟨⟨v3, t2.vn.fv⟩, t2.uio⟩
      refine .ok_bind (onVn_run (onVol_run e3)) (.ok_bind e4 (hok t4 ⟨?_, fv2 ▸ hf4, ?_, ?_, ?_⟩))
      · exact (st2.trans st3).trans (.sizeOnly st3.coherent hv4 hf4)
      · intro q hq _
        rw [← fv2]
        apply hsz4
        show t2.uio.offset = _
        rw [huio, Uio.moved_offset, hq]
        push_cast
        rfl
      · exact huio4.trans huio
      · rw [hv4]
        rw [sm12.disk] at hd
        exact .store hg (hl.nodup (fatEnds hg _)) hc hr hon hp hd
    · cases he
  · intro e t2 h2
    obtain ⟨sm2, fv2, ⟨he, -⟩ | ⟨-, huio⟩⟩ := h2
    · cases he
    · refine herr e t2 (.of_step (st1.trans (.of_fv' st1.coherent sm2 fv2)) fv2 huio ?_)
      rw [sm2.disk, sm1.disk]
      exact .refl hpl _ _
  · intro t2 h2
    obtain ⟨-, -, ⟨he, -⟩ | ⟨⟨e, he⟩, -⟩⟩ := h2 <;> cases he

/-- Every round moves at least one byte; the chain grows as it is needed. -/
theorem writeLoop_ok (hk : Reliable fsi.kernel) (hg : Geometry fsi) (n : Nat) :
    ∀ {cluster skip o rem : Nat} {l : List Nat} {t : RwSt}, Coherent fsi l t.vn →
      l[skip]? = some cluster → o < fsi.bytesPerCluster → 0 < rem → rem ≤ n →
      WP (writeLoop fsi n cluster skip o rem) t fun r t' => ∃ ext k,
        Stored fsi l (l ++ ext) (skip * fsi.bytesPerCluster + o) k t t' ∧
        ((∃ i c, r = .ok (i, c) ∧ (l ++ ext)[i]? = some c) ∧ k = rem ∨ ∃ e, r = .err e) := by
  induction n with
  | zero => exact fun _ _ _ h h' => absurd h (by omega)
  | succ n ih =>
    intro cluster skip o rem l t h hc ho hrem hn
    have hb := bpc_pos hg
    have hroom : (skip + 1) * fsi.bytesPerCluster ≤ l.length * fsi.bytesPerCluster :=
      Nat.mul_le_mul_right _ (List.getElem?_eq_some_iff.mp hc).1
    rw [Nat.add_mul, Nat.one_mul] at hroom
    unfold writeLoop
    generalize hm : min (fsi.bytesPerCluster - o) rem = m
    refine writeRound_ok hk hg h hc (by omega) rfl (by omega) ?_ ?_
    · intro t1 st1
      refine .ite (fun hz => ?_) fun hmore => ?_
      · refine .of_run rfl ⟨[], m, ?_, .inl ⟨⟨_, _, rfl, ?_⟩, by omega⟩⟩
        · rwa [List.append_nil]
        · rwa [List.append_nil]
      · have hl1 := st1.step.coherent.of_index hc
        have hsucc : skip * fsi.bytesPerCluster + o + m = (skip + 1) * fsi.bytesPerCluster := by
          rw [Nat.add_mul, Nat.one_mul]
          omega
        obtain ⟨v2, ext, g, hres⟩ := nextCluster_grown hk hg { alloc := true } hl1 hc
        -- the state after the search, with the vnode and the request as they were
        let t2 : RwSt := ⟨⟨v2, t1.vn.fv⟩, t1.uio⟩
        have hgrow : Stored fsi l (l ++ ext) (skip * fsi.bytesPerCluster + o + m) 0 t1 t2 :=
          .of_step (g.fileStep hg st1.step.coherent hl1) rfl rfl (.grown g (by omega) _)
        have st2 : Stored fsi l (l ++ ext) (skip * fsi.bytesPerCluster + o) m t t2 :=
          st1.trans hgrow (Nat.le_refl _)
        rcases hres with ⟨d, e2, hd⟩ | ⟨e2, -, -⟩
        · refine .ok_bind (onVn_run (onVol_run e2)) ?_
          rw [hl1.index_lt hg hc]
          refine (ih (t := t2) st2.step.coherent hd (by omega) (by omega)
            (by omega)).mono ?_
          intro r t3 h3
          obtain ⟨ext', k, st3, hend⟩ := h3
          rw [Nat.add_zero, ← hsucc] at st3
          have st := st2.trans st3 (by rw [List.length_append]; omega)
          rw [List.append_assoc] at st hend
          refine ⟨ext ++ ext', m + k, st, hend.imp_left fun h => ⟨h.1, ?_⟩⟩
          have := h.2
          omega
        · exact .err_bind (onVn_run (onVol_run e2)) ⟨ext, m, st2, .inr ⟨_, rfl⟩⟩
    · intro e t1 st1
      exact ⟨[], 0, by rwa [List.append_nil], .inr ⟨e, rfl⟩⟩

/-- The bytes and the size after a write of `k` bytes at `p`. -/
structure Written (fsi : Fsi) (l l' : List Nat) (p k : Nat) (t t' : RwSt) : Prop where
  size : t'.vn.fv.size = max t.vn.fv.size (p + k)
  bytes : Spliced fsi l l' (view fsi t.vn.vol.disk) (view fsi t'.vn.vol.disk) p k
    fun i => t.uio.mem (t.uio.pos + i)

/-- The bytes before position `p` of the clusters `l`, which may be those of the file
after the change, are the same. -/
def SameBefore (fsi : Fsi) (l : List Nat) (p : Nat) (w w' : View) : Prop :=
  ∀ i < p, fileByte fsi w' l i = fileByte fsi w l i

theorem SameBefore.of_data {w w' w'' : View} {p : Nat} (h : SameBefore fsi l p w' w'')
    (hd : ∀ c, w'.data c = w.data c) : SameBefore fsi l p w w'' := by
  intro i hi
  rw [h i hi, fileByte, fileByte, hd]

/-- Nothing before the place where bytes are stored changes. -/
theorem Spliced.before {l' : List Nat} {w w' : View} {p k : Nat} {src : Nat → UInt8}
    (h : Spliced fsi l (l ++ l') w w' p k src) (hp : p ≤ l.length * fsi.bytesPerCluster) :
    SameBefore fsi (l ++ l') p w w' := by
  intro i hi
  rw [h.outside i (by omega) (.inl hi), fileByte_append _ (by omega)]

/-- The transfer of `write`, from the first cluster on. -/
theorem writeFrom_step (hk : Reliable fsi.kernel) (hg : Geometry fsi) {t : RwSt} {skip o rem : Nat}
    (h : Coherent fsi l t.vn) (hc : t.vn.fv.cluster ≠ 0) (hskip : skip < 2 ^ 32)
    (ho : o < fsi.bytesPerCluster) (hrem : 0 < rem) :
    WP (do
      let cluster ← onVn (vnodeSeekCluster fsi skip { alloc := true })
      let last ← writeLoop fsi rem cluster skip o rem
      onVn (vnodeUpdateCache last.1 last.2)) t fun r t' => ∃ ext,
        FileStep fsi l (l ++ ext) t.vn t'.vn ∧ r ≠ .hang ∧
        (r = .ok () → ∀ p : Nat, p = skip * fsi.bytesPerCluster + o → t.uio.offset = p →
          p ≤ t.vn.fv.size → p ≤ l.length * fsi.bytesPerCluster →
          Written fsi l (l ++ ext) p rem t t') ∧
        (r = .ok () → l ++ ext ≠ [] ∧ SameBefore fsi (l ++ ext) (skip * fsi.bytesPerCluster + o)
          (view fsi t.vn.vol.disk) (view fsi t'.vn.vol.disk)) := by
  refine .on_bind (vnodeSeekCluster_step hk hg hskip _ h hc) ?_ ?_ ?_
  · intro cluster s1 h1
    obtain ⟨ext1, st1, fv1, hdata, ⟨d, hd, hdi⟩ | ⟨he, -⟩⟩ := h1
    · obtain rfl := Out.ok.inj hd
      refine .bind (writeLoop_ok (t := ⟨s1, t.uio⟩) hk hg rem st1.coherent hdi ho hrem
        (Nat.le_refl _)) ?_ ?_ ?_
      · intro last t2 h2
        obtain ⟨ext2, k, st2, ⟨⟨i, c, he, hic⟩, rfl⟩ | ⟨e, he⟩⟩ := h2
        · obtain rfl := Out.ok.inj he
          have st : FileStep fsi l (l ++ (ext1 ++ ext2)) t.vn t2.vn := by
            rw [← List.append_assoc]
            exact st1.trans st2.step
          rw [List.append_assoc] at hic
          refine .of_run rfl ⟨_, st.trans (updateCache_step st.coherent (.refl _) fun _ => ?_),
            nofun, fun _ p hp hoff hsize hroom => ⟨?_, ?_⟩, fun _ =>
            ⟨List.ne_nil_of_mem (List.mem_of_getElem? hic), ?_⟩⟩
          · rw [(st.coherent.of_index hic).walk_eq (fatEnds hg _), hic]
          · have hsz : t2.vn.fv.size = max s1.fv.size (p + k) :=
              st2.sizeTo p hoff (fv1.size ▸ hsize)
            rw [← fv1.size]
            exact hsz
          · have hb1 : Spliced fsi l (l ++ ext1) (view fsi t.vn.vol.disk) (view fsi s1.vol.disk) p 0
                fun i => t.uio.mem (t.uio.pos + i) := .of_data hroom (fun c hc => hdata c (.inl hc)) _
            have hb2 := st2.bytes
            rw [← hp, List.append_assoc] at hb2
            have hb := hb1.trans (by rw [List.length_append]; omega) (n := k) (by simpa using hb2)
            rwa [Nat.zero_add] at hb
          · have hroom : (skip + 1) * fsi.bytesPerCluster ≤ (l ++ ext1).length * fsi.bytesPerCluster :=
              Nat.mul_le_mul_right _ (List.getElem?_eq_some_iff.mp hdi).1
            rw [Nat.add_mul, Nat.one_mul] at hroom
            rw [← List.append_assoc]
            exact (st2.bytes.before (by omega)).of_data fun c => hdata c (.inr rfl)
        · cases he
      · intro e t2 h2
        obtain ⟨ext2, k, st2, -⟩ := h2
        refine ⟨ext1 ++ ext2, ?_, nofun, nofun, nofun⟩
        rw [← List.append_assoc]
        exact st1.trans st2.step
      · intro t2 h2
        obtain ⟨ext2, k, -, ⟨⟨i, c, he, -⟩, -⟩ | ⟨e, he⟩⟩ := h2 <;> cases he
    · cases he
  · intro e s1 h1
    obtain ⟨ext1, st1, -⟩ := h1
    exact ⟨ext1, st1, nofun, nofun, nofun⟩
  · intro s1 h1
    obtain ⟨ext1, -, -, -, ⟨d, hd, -⟩ | ⟨he, -⟩⟩ := h1
    · cases hd
    · cases he

/-- Where a write begins. -/
def writePos (append : Bool) (t : RwSt) : Int := if append then t.vn.fv.size else t.uio.offset

/-- `write` extends the chain, and changes times, the size and the cache. When the
clusters cover the size, and it starts inside the file, all bytes are stored. The
bytes before its start are left as they are, also those that were not in the file. -/
theorem write_step (hk : Reliable fsi.kernel) (hg : Geometry fsi) {t : RwSt}
    (h : Coherent fsi l t.vn) (append : Bool) :
    WP (write fsi append) t fun r t' => ∃ ext, FileStep fsi l (l ++ ext) t.vn t'.vn ∧
      r ≠ .hang ∧
      (r = .ok () → fsi.bytesPerCluster < 2 ^ 32 →
        t.vn.fv.size ≤ l.length * fsi.bytesPerCluster → ∀ p : Nat, writePos append t = p →
        p ≤ t.vn.fv.size → Written fsi l (l ++ ext) p t.uio.resid t t') ∧
      (r = .ok () → t.uio.resid ≠ 0 → l ++ ext ≠ []) ∧
      (r = .ok () → fsi.bytesPerCluster < 2 ^ 32 → ∀ p : Nat, writePos append t = p →
        p / fsi.bytesPerCluster < 2 ^ 32 →
        SameBefore fsi (l ++ ext) p (view fsi t.vn.vol.disk) (view fsi t'.vn.vol.disk)) := by
  have nil {s' : VnSt} (st : FileStep fsi l l t.vn s') : FileStep fsi l (l ++ []) t.vn s' := by
    rwa [List.append_nil]
  unfold write
  refine .get_bind (.ite (fun _ => .of_run rfl ⟨[], nil (.refl h), nofun, nofun, nofun, nofun⟩)
    fun _ => ?_)
  obtain ⟨s1, e1, st1, sm1, -, hz1⟩ := touchFv_step h false true
  refine .ok_bind (onVn_run e1) (.ite (fun hz => .of_run rfl ⟨[], nil st1, nofun, ?_,
    fun _ hne => absurd hz hne, ?_⟩) fun hrem => ?_)
  · intro _ _ hcov p _ hps
    rw [hz]
    refine ⟨?_, .of_data (by omega) (fun c _ => ?_) _⟩
    · show s1.fv.size = _
      omega
    · show (view fsi s1.vol.disk).data c = _
      rw [sm1.disk]
  · intro _ _ p _ _ i _
    show fileByte fsi (view fsi s1.vol.disk) _ i = _
    rw [sm1.disk]
  refine .ok_bind (modify_run _ _) (.on_bind (first_step hk hg rfl st1.coherent id) ?_ ?_ ?_)
  · intro _ s2 h2
    obtain ⟨ext2, st2, hz2, hdata2, ⟨-, hc2, -⟩ | ⟨he, -⟩⟩ := h2
    · refine (writeFrom_step hk hg st2.coherent hc2 (lo32_lt _) (inCluster_lt hg _)
        (Nat.pos_of_ne_zero hrem)).mono ?_
      intro r t3 h3
      obtain ⟨ext3, st3, hr, hwr, hbefore⟩ := h3
      rw [List.append_assoc] at st3 hwr hbefore
      have hb0 := bpc_pos hg
      have hpos (hb : fsi.bytesPerCluster < 2 ^ 32) {p : Nat} (hp : writePos append t = p)
          (hidx : p / fsi.bytesPerCluster < 2 ^ 32) :
          p = lo32 (writePos append t >>> fsi.clusterShift) * fsi.bytesPerCluster +
            (lo32 (writePos append t) &&& fsi.clusterMask) := by
        rw [hp, lo32_index hg hidx, lo32_offset hg hb, Nat.mul_comm, Nat.div_add_mod]
      refine ⟨ext2 ++ ext3, (st1.trans st2).trans st3, hr, ?_, fun hok _ => (hbefore hok).1, ?_⟩
      · intro hok hb hcov p hp hps
        have hroom : p ≤ l.length * fsi.bytesPerCluster := Nat.le_trans hps hcov
        have hidx : p / fsi.bytesPerCluster < 2 ^ 32 := by
          have hle : p / fsi.bytesPerCluster ≤ l.length := by
            rw [← Nat.mul_div_cancel l.length (by omega : 0 < fsi.bytesPerCluster)]
            exact Nat.div_le_div_right hroom
          have := h.length_lt hg
          omega
        have hsize : s2.fv.size = t.vn.fv.size := hz2.trans hz1
        have hlen : l.length * fsi.bytesPerCluster ≤ (l ++ ext2).length * fsi.bytesPerCluster :=
          Nat.mul_le_mul_right _ (by rw [List.length_append]; omega)
        have W := hwr hok p (hpos hb hp hidx) hp (by rw [hsize]; exact hps) (Nat.le_trans hroom hlen)
        refine ⟨by rw [W.size, hsize], ?_⟩
        have hdata : ∀ c ∈ l, (view fsi s2.vol.disk).data c = (view fsi t.vn.vol.disk).data c := by
          intro c hc
          rw [hdata2 c (.inl hc), sm1.disk]
        have hb1 : Spliced fsi l (l ++ ext2) (view fsi t.vn.vol.disk) (view fsi s2.vol.disk) p 0
            fun i => t.uio.mem (t.uio.pos + i) := .of_data hroom hdata _
        have hb := hb1.trans (by rw [List.length_append]; omega) (n := t.uio.resid)
          (by simpa using W.bytes)
        rwa [Nat.zero_add] at hb
      · intro hok hb p hp hidx
        have hsame : SameBefore fsi (l ++ (ext2 ++ ext3))
            (lo32 (writePos append t >>> fsi.clusterShift) * fsi.bytesPerCluster +
              (lo32 (writePos append t) &&& fsi.clusterMask))
            (view fsi s2.vol.disk) (view fsi t3.vn.vol.disk) := (hbefore hok).2
        rw [← hpos hb hp hidx] at hsame
        refine hsame.of_data fun c => ?_
        rw [hdata2 c (.inr rfl), sm1.disk]
    · cases he
  · intro e s2 h2
    obtain ⟨ext2, st2, -⟩ := h2
    exact ⟨ext2, st1.trans st2, nofun, nofun, nofun, nofun⟩
  · intro s2 h2
    obtain ⟨ext2, -, -, -, ⟨he, -⟩ | ⟨he, -⟩⟩ := h2 <;> cases he

/-! ## Runs -/

/-- The operations that move through the clusters of one file. -/
inductive FileOp where
  | read (uio : Uio)
  | write (append : Bool) (uio : Uio)
  | truncate (size : Nat)
  | seek (skip : Nat) (flags : NcFlags)

/-- A program of `read` or `write`, for the request `uio`. -/
def transfer (m : RwM Unit) (uio : Uio) : FvM Unit := fun s =>
  ((m ⟨s, uio⟩).1, (m ⟨s, uio⟩).2.vn)

namespace FileOp

def exec (fsi : Fsi) : FileOp → FvM Unit
  | read uio => transfer (Fat32.read fsi) uio
  | write append uio => transfer (Fat32.write fsi append) uio
  | truncate size => Fat32.truncate fsi size
  | seek skip fl => do let _ ← vnodeSeekCluster fsi skip fl; pure ()

/-- Sizes and indices are 32-bit, and a seek needs a first cluster. -/
def Allowed (s : VnSt) : FileOp → Prop
  | read _ | write _ _ => True
  | truncate size => size < 2 ^ 32
  | seek skip _ => skip < 2 ^ 32 ∧ s.fv.cluster ≠ 0

end FileOp

/-- Runs of allowed operations. -/
inductive FileRun (fsi : Fsi) : VnSt → VnSt → Prop
  | refl (s : VnSt) : FileRun fsi s s
  | step {s s' : VnSt} (op : FileOp) (ha : op.Allowed s) (t : FileRun fsi (op.exec fsi s).2 s') :
      FileRun fsi s s'

theorem transfer_wp {m : RwM Unit} {uio : Uio} {Q : Out Errno Unit → VnSt → Prop}
    (h : WP m ⟨s, uio⟩ fun r t => Q r t.vn) : WP (transfer m uio) s Q := by
  unfold WP at *
  exact h

theorem FileOp.step (hk : Reliable fsi.kernel) (hg : Geometry fsi)
    (hfuel : fsi.clusterCount < fsi.kernel.fuel) (h : Coherent fsi l s) (op : FileOp)
    (ha : op.Allowed s) :
    WP (op.exec fsi) s fun r s' => (∃ l', FileStep fsi l l' s s') ∧ r ≠ .hang := by
  cases op with
  | read uio =>
    apply transfer_wp
    apply (read_step (t := ⟨s, uio⟩) hk hg h).mono
    intro r t h1
    exact ⟨⟨l, h1.1⟩, h1.2.2.2.1⟩
  | write append uio =>
    apply transfer_wp
    apply (write_step (t := ⟨s, uio⟩) hk hg h append).mono
    intro r t h1
    obtain ⟨ext, st, hr, -⟩ := h1
    exact ⟨⟨_, st⟩, hr⟩
  | truncate size =>
    apply (truncate_step hk hg hfuel h ha).mono
    intro r s' h1
    obtain ⟨l', st, ⟨rfl, -⟩ | ⟨rfl, -⟩⟩ := h1
    · exact ⟨⟨l', st⟩, nofun⟩
    · exact ⟨⟨l', st⟩, nofun⟩
  | seek skip fl =>
    refine .bind (vnodeSeekCluster_step hk hg ha.1 fl h ha.2) ?_ ?_ ?_
    · intro _ s1 h1
      obtain ⟨ext, st, -⟩ := h1
      exact .of_run rfl ⟨⟨_, st⟩, nofun⟩
    · intro e s1 h1
      obtain ⟨ext, st, -⟩ := h1
      exact ⟨⟨_, st⟩, nofun⟩
    · intro s1 h1
      obtain ⟨ext, -, -, -, ⟨d, hd, -⟩ | ⟨he, -⟩⟩ := h1
      · cases hd
      · cases he

theorem FileRun.coherent (hk : Reliable fsi.kernel) (hg : Geometry fsi)
    (hfuel : fsi.clusterCount < fsi.kernel.fuel) (run : FileRun fsi s s') (h : Coherent fsi l s) :
    ∃ l', Coherent fsi l' s' := by
  induction run generalizing l with
  | refl s => exact ⟨l, h⟩
  | step op ha t ih =>
    have hop := op.step hk hg hfuel h ha
    unfold WP at hop
    obtain ⟨⟨l', st⟩, -⟩ := hop
    exact ih st.coherent

/-- A live entry is the cluster with its index in the file. -/
theorem Coherent.entry (hg : Geometry fsi) (h : Coherent fsi l s) {e : ClsCacheEntry}
    (he : e ∈ s.fv.clsCache) (hne : e.cluster ≠ 0) : l[e.index]? = some e.cluster := by
  have hw := h.cache e he hne
  rcases h.chain with ⟨hc, -⟩ | hl
  · have hca := h.cache
    rw [hc] at hca
    exact absurd (hca.dead e he) hne
  · rwa [hl.walk_eq (fatEnds hg _)] at hw

/-- In every run from the empty cache the cache tells the truth, and the cached
seek does what the plain one does. -/
theorem fileRun_seek (hk : Reliable fsi.kernel) (hg : Geometry fsi)
    (hfuel : fsi.clusterCount < fsi.kernel.fuel) (hca : s.fv.clsCache = emptyCache)
    (hl : FileChain fsi (view fsi s.vol.disk).fat s.fv.cluster l) (run : FileRun fsi s s') :
    (∃ l', FileChain fsi (view fsi s'.vol.disk).fat s'.fv.cluster l' ∧
      ∀ e ∈ s'.fv.clsCache, e.cluster ≠ 0 → l'[e.index]? = some e.cluster) ∧
    (s'.fv.cluster ≠ 0 → ∀ n < 2 ^ 32, ∀ fl,
      (vnodeSeekCluster fsi n fl s').1 = (seekCluster fsi s'.fv.cluster n fl s'.vol).1 ∧
      Same (vnodeSeekCluster fsi n fl s').2.vol (seekCluster fsi s'.fv.cluster n fl s'.vol).2) := by
  obtain ⟨l', h⟩ := run.coherent hk hg hfuel ⟨hl, hca ▸ .empty⟩
  constructor
  · exact ⟨l', h.chain, fun e he hne => h.entry hg he hne⟩
  · intro _ n hn fl
    exact vnodeSeekCluster_refines hk hg hn fl h.cache

/-- A vnode of the file of `twoClusters`. -/
def twoClustersFile : VnSt := ⟨twoClustersVol, { cluster := 2, type := .vreg, size := 5 }⟩

/-- The file after it was made longer, into the second cluster. -/
def twoClustersLonger : VnSt := ((FileOp.truncate 513).exec twoClusters twoClustersFile).2

theorem fileRun_seek_longer :
    (∃ l, FileChain twoClusters (view twoClusters twoClustersLonger.vol.disk).fat
        twoClustersLonger.fv.cluster l ∧
      ∀ e ∈ twoClustersLonger.fv.clsCache, e.cluster ≠ 0 → l[e.index]? = some e.cluster) ∧
    (twoClustersLonger.fv.cluster ≠ 0 → ∀ n < 2 ^ 32, ∀ fl,
      (vnodeSeekCluster twoClusters n fl twoClustersLonger).1 =
        (seekCluster twoClusters twoClustersLonger.fv.cluster n fl twoClustersLonger.vol).1 ∧
      Same (vnodeSeekCluster twoClusters n fl twoClustersLonger).2.vol
        (seekCluster twoClusters twoClustersLonger.fv.cluster n fl twoClustersLonger.vol).2) := by
  have hk : Reliable twoClusters.kernel := ⟨fun _ => rfl⟩
  have hf : fatFin twoClusters (view twoClusters twoClustersVol.disk).fat 2 := by
    constructor <;> decide
  have hsize : (FileOp.truncate 513).Allowed twoClustersFile := by
    show 513 < 2 ^ 32
    decide
  have run : FileRun twoClusters twoClustersFile twoClustersLonger :=
    .step (.truncate 513) hsize (.refl _)
  have hl : FileChain twoClusters (view twoClusters twoClustersFile.vol.disk).fat
      twoClustersFile.fv.cluster [2] := Or.inr (.last hf)
  have hca : twoClustersFile.fv.clsCache = emptyCache := rfl
  have hfuel : twoClusters.clusterCount < twoClusters.kernel.fuel := by decide
  exact fileRun_seek hk twoClusters_geometry hfuel hca hl run

end Fat32
