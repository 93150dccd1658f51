import Mathlib
import Fat32.Proof.Space

/-!
# An extension without space

A file is `Matched` when its chain has the clusters its size takes. A seek appends the
clusters on its way one by one and keeps them when the next one is not to be had, while
the size stays as it was; a write that runs out between its rounds has counted what it
stored. So `ENOSPC` leaves a matched file just where nothing was free, or where the
clusters up to the one where the write starts were there (`extension_matched_iff`).
-/

namespace Fat32

open Bytes Exec Prog Linked

variable {fsi : Fsi} {l l' : List Nat} {s s' : VnSt} {fat : Nat → Nat} {c : Nat}

/-- The chain has exactly the clusters that the size takes. -/
def Matched (fsi : Fsi) (s : VnSt) : Prop :=
  ∃ l, FileChain fsi (view fsi s.vol.disk).fat s.fv.cluster l ∧ l.length = clustersFor fsi s.fv.size

theorem FileChain.unique (hg : Geometry fsi) (h : FileChain fsi fat c l) (k : FileChain fsi fat c l') :
    l = l' := by
  rcases h with ⟨hc, rfl⟩ | h
  · rcases k with ⟨-, rfl⟩ | k
    · rfl
    · exact absurd hc k.head_ne_zero
  · exact Chain.unique (fatEnds hg fat) h (k.of_ne h.head_ne_zero)

theorem OnGood.matched_iff (hg : Geometry fsi) (h : OnGood fsi l s) :
    Matched fsi s ↔ l.length = clustersFor fsi s.fv.size := by
  refine ⟨fun ⟨k, hk, hlen⟩ => ?_, fun hlen => ⟨l, h.coherent.chain, hlen⟩⟩
  rw [h.coherent.chain.unique hg hk, hlen]

/-! ## Where a write starts -/

/-- The cluster index of an offset, before it is cut to 32 bits. -/
theorem writeIndex_eq (hg : Geometry fsi) (append : Bool) (t : RwSt) :
    (writeIndex fsi append t : Int) = writePos append t / fsi.bytesPerCluster % 2 ^ 32 := by
  have hshift : writePos append t >>> fsi.clusterShift = writePos append t / fsi.bytesPerCluster := by
    rw [Int.shiftRight_eq_div_pow, bpc_eq hg]
  rw [writeIndex, hshift, lo32]
  omega

theorem writeOffset_eq (hg : Geometry fsi) (hb : fsi.bytesPerCluster < 2 ^ 32) (append : Bool)
    (t : RwSt) : (writeOffset fsi append t : Int) = writePos append t % fsi.bytesPerCluster := by
  have hdvd : (fsi.bytesPerCluster : Int) ∣ 2 ^ 32 := by
    rw [bpc_eq hg] at hb ⊢
    exact_mod_cast Nat.pow_dvd_pow 2 (Nat.le_of_lt ((Nat.pow_lt_pow_iff_right (by decide)).mp hb))
  have hmask (x : Nat) : x &&& fsi.clusterMask = x % fsi.bytesPerCluster := by
    rw [hg.clusterMask, bpc_eq hg, Nat.and_two_pow_sub_one_eq_mod]
  rw [writeOffset, hmask, lo32]
  push_cast
  rw [Int.toNat_of_nonneg (Int.emod_nonneg _ (by decide))]
  exact Int.emod_emod_of_dvd _ hdvd

/-! ## Sizes -/

theorem clustersFor_mul (hg : Geometry fsi) (n : Nat) : clustersFor fsi (n * fsi.bytesPerCluster) = n := by
  have hb := bpc_pos hg
  induction n with
  | zero => rw [Nat.zero_mul, clustersFor_zero hg]
  | succ n ih => rw [Nat.add_mul, Nat.one_mul, Nat.add_comm, clustersFor_add hg, ih]

theorem clustersFor_mono {m n : Nat} (h : m ≤ n) : clustersFor fsi m ≤ clustersFor fsi n := by
  unfold clustersFor
  exact Nat.div_le_div_right (by omega)

theorem clustersFor_max (m n : Nat) :
    clustersFor fsi (max m n) = max (clustersFor fsi m) (clustersFor fsi n) := by
  rcases Nat.le_total m n with h | h
  · rw [Nat.max_eq_right h, Nat.max_eq_right (clustersFor_mono h)]
  · rw [Nat.max_eq_left h, Nat.max_eq_left (clustersFor_mono h)]

theorem room_lt (hg : Geometry fsi) (h : OnGood fsi l s) : room fsi l s.vol < 2 ^ 32 := by
  have hlen := h.coherent.length_lt hg
  have hle := freeEntries_le fsi (view fsi s.vol.disk).fat
  have hcnt := hg.count
  simp only [clusterBad] at hcnt
  unfold room
  omega

/-! ## Running out in a write -/

/-- The place where a write starts is the one the offset says: the cluster index is not
cut to 32 bits. -/
def Unwrapped (fsi : Fsi) (append : Bool) (t : RwSt) : Prop :=
  writePos append t = (writeIndex fsi append t * fsi.bytesPerCluster + writeOffset fsi append t : Nat)

/-- From the cluster with index `skip` on, a write of `rem` bytes uses up a room of `T`
clusters. -/
def RunsOut (fsi : Fsi) (T skip o rem : Nat) (v : Vol) : Prop :=
  T * fsi.bytesPerCluster < skip * fsi.bytesPerCluster + o + rem ∧ Moves fsi v (T - skip)

theorem WriteEnd.enospc_iff {α : Type} {T skip o rem : Nat} {t t' : RwSt} {r : Out Errno α}
    (hmove : ∀ n, fsi.kernel.uiomoveErr n ≠ some .enospc) (h : WriteEnd fsi T skip o rem t r t') :
    r = .err .enospc ↔ RunsOut fsi T skip o rem t.vn.vol := by
  rcases h with ⟨⟨x, hx⟩, hle, -⟩ | ⟨he, hlt, hmv, -⟩ | ⟨j, e, he, hj, -, hlt⟩
  · rw [hx]
    exact ⟨nofun, fun h => absurd h.1 (not_lt.mpr hle)⟩
  · exact ⟨fun _ => ⟨hlt, hmv⟩, fun _ => he⟩
  · rw [he]
    refine ⟨fun h => ?_, fun h => ?_⟩
    · rw [Out.err.inj h] at hj
      exact absurd hj (hmove _)
    · rw [h.2 j (by omega)] at hj
      cases hj

/-- Whether a size that a write reached at the end of a room of `T` clusters takes just
those, when its offset is `d` clusters away from where it wrote. -/
theorem clustersFor_reached (hg : Geometry fsi) {T size size' n : Nat} {d : Int}
    (hsize : (size' : Int) = max (size : Int) ((d + T) * fsi.bytesPerCluster)) (hn : n = clustersFor fsi size)
    (hnT : n ≤ T) (hT : T < 2 ^ 32) (hd : d = 0 ∨ d ≤ - 2 ^ 32 ∨ 2 ^ 32 ≤ d) :
    clustersFor fsi size' = T ↔ d = 0 ∨ d < 0 ∧ n = T := by
  have hb := bpc_pos hg
  rcases hd with rfl | hd | hd
  · have hs : size' = max size (T * fsi.bytesPerCluster) := by
      rw [Int.zero_add] at hsize
      exact_mod_cast hsize
    rw [hs, clustersFor_max, clustersFor_mul hg, ← hn, Nat.max_eq_right hnT]
    simp
  · have hneg : (d + T) * (fsi.bytesPerCluster : Int) ≤ 0 :=
      Int.mul_nonpos_of_nonpos_of_nonneg (by omega) (by omega)
    have hs : size' = size := by omega
    rw [hs, ← hn]
    omega
  · obtain ⟨m, hm⟩ : ∃ m : Nat, d + T = m := ⟨(d + T).toNat, by omega⟩
    rw [hm] at hsize
    have hs : size' = max size (m * fsi.bytesPerCluster) := by exact_mod_cast hsize
    rw [hs, clustersFor_max, clustersFor_mul hg]
    omega

/-- A write that starts where there is room ends matched, unless it runs out. -/
theorem OnGood.write_matched_iff (hg : Geometry fsi) (hb : fsi.bytesPerCluster < 2 ^ 32)
    (hmove : ∀ n, fsi.kernel.uiomoveErr n ≠ some .enospc) {append : Bool} {t t' : RwSt}
    (h : OnGood fsi l t.vn) (hmatch : l.length = clustersFor fsi t.vn.fv.size) {r : Out Errno Unit}
    (hskip : writeIndex fsi append t < room fsi l t.vn.vol)
    (E : WriteEnd fsi (room fsi l t.vn.vol) (writeIndex fsi append t) (writeOffset fsi append t)
      t.uio.resid (t.startAt append) r t') :
    (r = .err .enospc → Matched fsi t'.vn) ↔
      (Unwrapped fsi append t ∨ writePos append t < 0 ∧ freeEntries fsi (view fsi t.vn.vol.disk).fat = 0) ∨
      ¬ RunsOut fsi (room fsi l t.vn.vol) (writeIndex fsi append t) (writeOffset fsi append t)
        t.uio.resid t.vn.vol := by
  have hiff := E.enospc_iff hmove
  have hT := room_lt hg h
  have hbpos := bpc_pos hg
  have hidx := writeIndex_eq hg append t
  have hoff := writeOffset_eq hg hb append t
  have hdiv := Int.mul_ediv_add_emod (writePos append t) fsi.bytesPerCluster
  generalize hsk : writeIndex fsi append t = skip at *
  generalize hof : writeOffset fsi append t = o at *
  by_cases hrun : RunsOut fsi (room fsi l t.vn.vol) skip o t.uio.resid t.vn.vol
  · simp only [hrun, not_true_eq_false, or_false]
    have he := hiff.mpr hrun
    rcases E with ⟨⟨x, hx⟩, -⟩ | ⟨-, -, -, ⟨k, hk, hlen⟩, hsize⟩ | ⟨j, e, he', hj, -⟩
    · rw [hx] at he
      cases he
    · -- the cluster index of the offset, and how far it is from where the write was
      obtain ⟨q, hq⟩ : ∃ q, writePos append t / fsi.bytesPerCluster = q := ⟨_, rfl⟩
      rw [hq] at hidx hdiv
      rw [← hoff, Int.mul_comm] at hdiv
      have hd : q - skip = 0 ∨ q - skip ≤ - 2 ^ 32 ∨ 2 ^ 32 ≤ q - skip := by omega
      have hlt : o < fsi.bytesPerCluster := by
        have := Int.emod_lt_of_pos (writePos append t) (show (0 : Int) < fsi.bytesPerCluster by omega)
        omega
      have hle : skip * fsi.bytesPerCluster + o ≤ room fsi l t.vn.vol * fsi.bytesPerCluster := by
        have := Nat.mul_le_mul_right fsi.bytesPerCluster (show skip + 1 ≤ room fsi l t.vn.vol from hskip)
        rw [Nat.add_mul, Nat.one_mul] at this
        omega
      have hreach : (t.startAt append).uio.offset + ((room fsi l t.vn.vol * fsi.bytesPerCluster -
          (skip * fsi.bytesPerCluster + o) : Nat) : Int) =
          (q - skip + room fsi l t.vn.vol) * fsi.bytesPerCluster := by
        show writePos append t + _ = _
        rw [← hdiv, Nat.cast_sub hle]
        push_cast
        ring
      rw [hreach] at hsize
      rw [hk.matched_iff hg, hlen, eq_comm (a := room fsi l t.vn.vol), clustersFor_reached hg hsize hmatch
        (Nat.le_add_right _ _) hT hd]
      have hun : Unwrapped fsi append t ↔ q - skip = 0 := by
        unfold Unwrapped
        rw [hsk, hof, ← hdiv]
        push_cast
        refine ⟨fun h => ?_, fun h => by rw [show q = skip by omega]⟩
        have := Int.eq_of_mul_eq_mul_right (show (fsi.bytesPerCluster : Int) ≠ 0 by omega)
          (add_right_cancel h)
        omega
      have hneg : writePos append t < 0 ↔ q - skip < 0 := by
        have hB : (0 : Int) < fsi.bytesPerCluster := by omega
        refine ⟨fun h => ?_, fun h => ?_⟩
        · by_contra hq0
          have := Int.mul_nonneg (show 0 ≤ q by omega) (Int.le_of_lt hB)
          omega
        · have := Int.mul_le_mul_of_nonneg_right (show q ≤ -1 by omega) (Int.le_of_lt hB)
          omega
      have hfree : freeEntries fsi (view fsi t.vn.vol.disk).fat = 0 ↔ l.length = room fsi l t.vn.vol := by
        unfold room
        omega
      rw [hun, hneg, hfree]
      exact ⟨fun h => h he, fun h _ => h⟩
    · rw [he'] at he
      rw [Out.err.inj he] at hj
      exact absurd hj (hmove _)
  · refine ⟨fun _ => .inr hrun, fun _ he => absurd (hiff.mp he) hrun⟩

/-! ## Extensions -/

/-- The requests that extend a file: to a larger size, or a write. -/
def FileOp.Extends (s : VnSt) : FileOp → Prop
  | .truncate size => s.fv.size < size
  | .write _ _ => True
  | _ => False

/-- Nothing is kept of the space that a request takes before it fails: there is enough, or
none; or it is a write whose first cluster is there, and whose offset is not cut. -/
def FileOp.KeepsNothing (fsi : Fsi) (l : List Nat) (s : VnSt) : FileOp → Prop
  | .truncate size => neededClusters fsi size ≤ room fsi l s.vol ∨
      freeEntries fsi (view fsi s.vol.disk).fat = 0
  | .write append uio => uio.resid = 0 ∨
      if room fsi l s.vol ≤ writeIndex fsi append ⟨s, uio⟩ then
        freeEntries fsi (view fsi s.vol.disk).fat = 0
      else (Unwrapped fsi append ⟨s, uio⟩ ∨ writePos append ⟨s, uio⟩ < 0 ∧
          freeEntries fsi (view fsi s.vol.disk).fat = 0) ∨
        ¬ RunsOut fsi (room fsi l s.vol) (writeIndex fsi append ⟨s, uio⟩)
          (writeOffset fsi append ⟨s, uio⟩) uio.resid s.vol
  | _ => True

/-- A chain that took all the room is of the size only if nothing was free. -/
theorem OnGood.room_matched_iff (hg : Geometry fsi) (hmatch : l.length = clustersFor fsi s.fv.size)
    (h' : OnGood fsi l' s') (hlen : l'.length = room fsi l s.vol) (hsize : s'.fv.size = s.fv.size) :
    Matched fsi s' ↔ freeEntries fsi (view fsi s.vol.disk).fat = 0 := by
  rw [h'.matched_iff hg, hlen, hsize, ← hmatch, room]
  omega

/-- `ENOSPC` leaves a matched file just where `KeepsNothing` says. -/
theorem extension_matched_iff (hk : Reliable fsi.kernel) (hg : Geometry fsi)
    (hfuel : fsi.clusterCount < fsi.kernel.fuel) (hb : fsi.bytesPerCluster < 2 ^ 32)
    (hmove : ∀ n, fsi.kernel.uiomoveErr n ≠ some .enospc) (h : OnGood fsi l s)
    (hreg : s.fv.type = .vreg) (hmatch : l.length = clustersFor fsi s.fv.size) (op : FileOp)
    (hop : op.Extends s) :
    ((op.exec fsi s).1 = .err .enospc → Matched fsi (op.exec fsi s).2) ↔ op.KeepsNothing fsi l s := by
  cases op with
  | read uio => exact absurd hop id
  | seek skip flags => exact absurd hop id
  | truncate size =>
    have hrun := truncate_room hk hg hfuel h hreg size
    unfold WP at hrun
    rw [FileOp.exec, FileOp.KeepsNothing]
    rcases hrun with ⟨hok, hle, -⟩ | ⟨he, hlt, hsz, l', h', hlen⟩
    · rw [hok]
      exact ⟨fun _ => .inl hle, nofun⟩
    · rw [OnGood.room_matched_iff hg hmatch h' hlen hsz]
      refine ⟨fun h => .inr (h he), fun h _ => h.resolve_left (not_le.mpr hlt)⟩
  | write append uio =>
    rw [FileOp.exec, FileOp.KeepsNothing, transfer]
    by_cases hz : uio.resid = 0
    · have hrun := write_nothing (t := ⟨s, uio⟩) h.coherent hreg append hz
      rw [hrun.1]
      exact ⟨fun _ => .inl hz, nofun⟩
    · have hrun := write_room (t := ⟨s, uio⟩) hk hg h hreg append hz
      unfold WP at hrun
      simp only [hz, false_or]
      rcases hrun with ⟨he, hle, ⟨l', h', hlen⟩, hsz⟩ | ⟨hlt, E⟩
      · rw [if_pos hle, OnGood.room_matched_iff hg hmatch h' hlen hsz]
        exact ⟨fun h => h he, fun h _ => h⟩
      · rw [if_neg (not_le.mpr hlt)]
        exact h.write_matched_iff (t := ⟨s, uio⟩) hg hb hmove hmatch hlt E

theorem twoClusters_room : room twoClusters [2] oneCluster.vol = 2 := by
  decide +kernel

/-- 2000 bytes from the start of a file of one cluster, with one more free: the write runs out after
1024 bytes. -/
theorem extension_matched_rounds :
    (FileOp.exec twoClusters (.write false ⟨0, 2000, fun _ => 0, 0⟩) oneCluster).1 = .err .enospc ∧
    Matched twoClusters (FileOp.exec twoClusters (.write false ⟨0, 2000, fun _ => 0, 0⟩) oneCluster).2 := by
  have he : (FileOp.exec twoClusters (.write false ⟨0, 2000, fun _ => 0, 0⟩) oneCluster).1 =
      .err .enospc := by decide +kernel
  refine ⟨he, (extension_matched_iff ⟨fun _ => rfl⟩ twoClusters_geometry (by decide) (by decide) nofun
    oneCluster_onGood rfl (by decide) (.write false ⟨0, 2000, fun _ => 0, 0⟩) trivial).mpr (.inr ?_) he⟩
  rw [twoClusters_room, if_neg (by decide)]
  exact .inl (.inl rfl)

/-- The same file is to get 1536 bytes: the free cluster is appended, the next one is not to be
had, and the chain of two clusters stays with the size of one. -/
theorem truncate_not_matched :
    (FileOp.truncate 1536).Extends oneCluster ∧ [2].length = clustersFor twoClusters oneCluster.fv.size ∧
    (FileOp.exec twoClusters (.truncate 1536) oneCluster).1 = .err .enospc ∧
    (FileOp.exec twoClusters (.truncate 1536) oneCluster).2.fv.size = 512 ∧
    ¬ Matched twoClusters (FileOp.exec twoClusters (.truncate 1536) oneCluster).2 := by
  refine ⟨show 512 < 1536 by decide, by decide, ?_⟩
  rw [FileOp.exec]
  have hrun := truncate_room ⟨fun _ => rfl⟩ twoClusters_geometry (by decide) oneCluster_onGood rfl 1536
  unfold WP at hrun
  rw [twoClusters_room] at hrun
  rcases hrun with ⟨-, hle, -⟩ | ⟨he, -, hsz, l', h', hlen⟩
  · exact absurd hle (by decide)
  · refine ⟨he, hsz, fun hm => ?_⟩
    have hm := (h'.matched_iff twoClusters_geometry).mp hm
    rw [hlen, hsz] at hm
    exact absurd hm (by decide)

end Fat32
