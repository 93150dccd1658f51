import Mathlib
import Fat32.Proof.ReadWrite

/-!
# What was written is read

After a write, the file is its old bytes with the new ones spliced in. Reads of
the file and operations on other files do not change that (`Later.keeps`), so a
later read of any range returns these bytes, up to the new size.
-/

namespace Fat32

open Bytes Exec Prog Linked

variable {fsi : Fsi} {l l' m : List Nat} {s s' : VnSt} {t t' : RwSt} {p k : Nat}

/-- Later states of a file with the clusters `l`: after reads of it, and after
operations on files with other clusters. -/
inductive Later (fsi : Fsi) (l : List Nat) : VnSt → VnSt → Prop
  | refl (s : VnSt) : Later fsi l s s
  | read {s s' : VnSt} (uio : Uio) (h : Later fsi l s s') :
      Later fsi l s ((FileOp.read uio).exec fsi s').2
  | other {s s' : VnSt} {m : List Nat} {fv : Fv} (op : FileOp) (h : Later fsi l s s')
      (hm : Coherent fsi m ⟨s'.vol, fv⟩) (hd : m.Disjoint l) (ha : op.Allowed ⟨s'.vol, fv⟩) :
      Later fsi l s ⟨(op.exec fsi ⟨s'.vol, fv⟩).2.vol, s'.fv⟩

/-- Files that share no cluster do not disturb each other. -/
theorem OwnOnly.coherent {v : Vol} (h : OwnOnly fsi m l' s.vol v) (hs : Coherent fsi l s)
    (hg : Geometry fsi) (hd : l.Disjoint m) : Coherent fsi l ⟨v, s.fv⟩ ∧
      ∀ c ∈ l, (view fsi v.disk).data c = (view fsi s.vol.disk).data c := by
  rcases hs.chain with ⟨hc, rfl⟩ | hl
  · refine ⟨⟨.inl ⟨hc, rfl⟩, fun e he hne => ?_⟩, nofun⟩
    exact absurd (hs.entry hg he hne) (by simp)
  · obtain ⟨hl', -, hdata⟩ := h.chain hl hd
    exact ⟨.of_chain hl' (hs.cache.of_chain hg hl hl' fun _ _ _ => rfl), hdata⟩

theorem Later.keeps (hk : Reliable fsi.kernel) (hg : Geometry fsi)
    (hfuel : fsi.clusterCount < fsi.kernel.fuel) (h : Later fsi l s s') (hs : Coherent fsi l s) :
    Coherent fsi l s' ∧ s'.fv.size = s.fv.size ∧ s'.fv.type = s.fv.type ∧
      ∀ c ∈ l, (view fsi s'.vol.disk).data c = (view fsi s.vol.disk).data c := by
  induction h with
  | refl => exact ⟨hs, rfl, rfl, fun _ _ => rfl⟩
  | @read s' uio h ih =>
    obtain ⟨hs', hz, hty, hdata⟩ := ih
    have hr := read_step (t := ⟨s', uio⟩) hk hg hs'
    unfold WP at hr
    obtain ⟨st, sm, hz', -⟩ := hr
    refine ⟨st.coherent, hz'.trans hz, st.fv.type.trans hty, fun c hc => ?_⟩
    exact (congrArg (fun d => (view fsi d).data c) sm.disk).trans (hdata c hc)
  | @other s' m fv op h hm hd ha ih =>
    obtain ⟨hs', hz, hty, hdata⟩ := ih
    have hop := op.step hk hg hfuel hm ha
    unfold WP at hop
    obtain ⟨⟨m', st⟩, -⟩ := hop
    obtain ⟨hs'', hdata'⟩ := OwnOnly.coherent (s := s') st.own hs' hg hd.symm
    exact ⟨hs'', hz, hty, fun c hc => (hdata' c hc).trans (hdata c hc)⟩

theorem le_clustersFor (hg : Geometry fsi) (size : Nat) :
    size ≤ clustersFor fsi size * fsi.bytesPerCluster := by
  have hb := bpc_pos hg
  have hdiv := Nat.div_add_mod (size + fsi.bytesPerCluster - 1) fsi.bytesPerCluster
  have hmod := Nat.mod_lt (size + fsi.bytesPerCluster - 1) (by omega : fsi.bytesPerCluster > 0)
  rw [clustersFor, Nat.mul_comm]
  omega

/-- The bytes of a file after a write, up to its new size. -/
theorem Written.byte (W : Written fsi l l' p k t t')
    (hcov : t.vn.fv.size ≤ l.length * fsi.bytesPerCluster) (hps : p ≤ t.vn.fv.size) {i : Nat} (hi : i < t'.vn.fv.size) :
    fileByte fsi (view fsi t'.vn.vol.disk) l' i =
      poke (fileByte fsi (view fsi t.vn.vol.disk) l) p k (fun j => t.uio.mem (t.uio.pos + j)) i := by
  rw [W.size] at hi
  by_cases hin : p ≤ i ∧ i < p + k
  · obtain ⟨j, rfl⟩ := Nat.exists_eq_add_of_le hin.1
    rw [poke_inside (by omega), W.bytes.inside j (by omega)]
  · rw [poke_outside (by omega), W.bytes.outside i (by omega) (by omega)]

/-- A write stores its bytes at `p`, the size becomes the end of the write if that
is behind it, every later read returns the bytes of the file so changed, and other
chains and their bytes are kept. -/
theorem write_read (hk : Reliable fsi.kernel) (hg : Geometry fsi)
    (hfuel : fsi.clusterCount < fsi.kernel.fuel) (hb : fsi.bytesPerCluster < 2 ^ 32)
    (h : Coherent fsi l t.vn) (hty : t.vn.fv.type = .vreg)
    (hcov : clustersFor fsi t.vn.fv.size ≤ l.length) (append : Bool)
    (hp : writePos append t = p) (hps : p ≤ t.vn.fv.size)
    (hw : write fsi append t = (.ok (), t')) :
    ∃ l', Coherent fsi l' t'.vn ∧ t'.vn.fv.size = max t.vn.fv.size (p + t.uio.resid) ∧
      (∀ s, Later fsi l' t'.vn s → ∀ (uio : Uio) (q : Nat), uio.offset = q →
        WP (read fsi) ⟨s, uio⟩ fun r u => Faults fsi ∨ r = .ok () ∧
          u.uio = uio.filled (readLen t'.vn.fv.size q uio.resid) fun i =>
            poke (fileByte fsi (view fsi t.vn.vol.disk) l) p t.uio.resid
              (fun j => t.uio.mem (t.uio.pos + j)) (q + i)) ∧
      ∀ a m, FatChain fsi (view fsi t.vn.vol.disk).fat a m → m.Disjoint l →
        FatChain fsi (view fsi t'.vn.vol.disk).fat a m ∧
        ∀ c ∈ m, (view fsi t'.vn.vol.disk).data c = (view fsi t.vn.vol.disk).data c := by
  have hstep := write_step hk hg h append
  unfold WP at hstep
  rw [hw] at hstep
  obtain ⟨ext, st, -, hwr, -⟩ := hstep
  have hroom : t.vn.fv.size ≤ l.length * fsi.bytesPerCluster :=
    Nat.le_trans (le_clustersFor hg _) (Nat.mul_le_mul_right _ hcov)
  have W := hwr rfl hb hroom p hp hps
  refine ⟨l ++ ext, st.coherent, W.size, ?_, ?_⟩
  · intro s hs uio q hq
    obtain ⟨hcoh, hz, hty', hdata⟩ := hs.keeps hk hg hfuel st.coherent
    have hroom' : s.fv.size ≤ (l ++ ext).length * fsi.bytesPerCluster := by
      rw [hz, W.size]
      have hle : l.length * fsi.bytesPerCluster ≤ (l ++ ext).length * fsi.bytesPerCluster :=
        Nat.mul_le_mul_right _ (by rw [List.length_append]; omega)
      have := W.bytes.room
      omega
    refine (read_step (t := ⟨s, uio⟩) hk hg hcoh).mono fun r u hr => ?_
    obtain ⟨-, -, -, -, hbytes⟩ := hr
    have hin (hne : readLen s.fv.size q uio.resid ≠ 0) :
        q + readLen s.fv.size q uio.resid ≤ (l ++ ext).length * fsi.bytesPerCluster := by
      simp only [readLen] at hne ⊢
      omega
    refine (hbytes (hty'.trans (st.fv.type.trans hty)) hb q hq hin).imp_right fun hok => ?_
    refine ⟨hok.1, ?_⟩
    rw [hok.2, ← hz]
    refine Uio.filled_congr _ fun i hi => ?_
    have hlt : q + i < s.fv.size := by
      simp only [readLen] at hi
      omega
    rw [fileByte_congr hdata (by omega)]
    exact W.byte hroom hps (by rw [← hz]; exact hlt)
  · intro a m hm hd
    obtain ⟨hm', -, hdata⟩ := st.own.chain hm hd
    exact ⟨hm', hdata⟩

/-- Three bytes are written at position 4 of the file of five bytes. -/
def twoClustersRequest : RwSt :=
  ⟨twoClustersFile, { offset := 4, resid := 3, mem := fun _ => 65 }⟩

def twoClustersWritten : RwSt := (write twoClusters false twoClustersRequest).2

theorem write_read_inside : ∃ l', Coherent twoClusters l' twoClustersWritten.vn ∧
    twoClustersWritten.vn.fv.size = max 5 (4 + 3) ∧
    (∀ s, Later twoClusters l' twoClustersWritten.vn s → ∀ (uio : Uio) (q : Nat), uio.offset = q →
      WP (read twoClusters) ⟨s, uio⟩ fun r u => Faults twoClusters ∨ r = .ok () ∧
        u.uio = uio.filled (readLen twoClustersWritten.vn.fv.size q uio.resid) fun i =>
          poke (fileByte twoClusters (view twoClusters twoClustersVol.disk) [2]) 4 3
            (fun _ => 65) (q + i)) ∧
    ∀ a m, FatChain twoClusters (view twoClusters twoClustersVol.disk).fat a m → m.Disjoint [2] →
      FatChain twoClusters (view twoClusters twoClustersWritten.vn.vol.disk).fat a m ∧
      ∀ c ∈ m, (view twoClusters twoClustersWritten.vn.vol.disk).data c =
        (view twoClusters twoClustersVol.disk).data c := by
  have hk : Reliable twoClusters.kernel := ⟨fun _ => rfl⟩
  have hf : fatFin twoClusters (view twoClusters twoClustersVol.disk).fat 2 := by
    constructor <;> decide
  have h : Coherent twoClusters [2] twoClustersRequest.vn := ⟨Or.inr (.last hf), .empty⟩
  have hok : (write twoClusters false twoClustersRequest).1 = .ok () := by decide +kernel
  have hw : write twoClusters false twoClustersRequest = (.ok (), twoClustersWritten) :=
    Prod.ext hok rfl
  exact write_read hk twoClusters_geometry (by decide) (by decide) h rfl (by decide) false
    (show writePos false twoClustersRequest = (4 : Nat) from rfl) (by decide) hw

end Fat32
