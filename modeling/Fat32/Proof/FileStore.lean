import Mathlib
import Fat32.Lib.Contents
import Fat32.Proof.WriteRead

/-!
# A volume as a store of files

Files with chains that share no cluster, each with one vnode. What is known of a file changes with the calls
through its own vnode only (`FileOp.after`), in whatever order the calls of different files are made, and whether
they succeed or not. A read returns what is known (`files_read`). A call that fails, or a write that leaves a hole,
leaves the file itself unknown.
-/

namespace Fat32

open Bytes Exec Prog Linked

variable {ι : Type} [DecidableEq ι] {fsi : Fsi} {l l' : List Nat} {s s' : VnSt} {f f' : Contents UInt8} {r : Out Errno Unit}

/-! ## One file -/

/-- What is known of a file after a call with the result `r`. -/
def FileOp.after (r : Out Errno Unit) (f : Contents UInt8) : FileOp → Option (Contents UInt8)
  | .read _ => some f
  | .seek _ _ => some f
  | .write append uio =>
    let p := if append then (f.size : Int) else uio.offset
    if r = .ok () ∧ 0 ≤ p ∧ p ≤ f.size then some (f.write p.toNat uio.resid fun i => uio.mem (uio.pos + i)) else none
  | .truncate size => if r = .ok () then some (f.truncate size) else none

/-- The file of the vnode, with the clusters `l`, has the size and the bytes that are known. -/
structure FileHolds (fsi : Fsi) (l : List Nat) (s : VnSt) (f : Contents UInt8) : Prop where
  size : s.fv.size = f.size
  room : f.size ≤ l.length * fsi.bytesPerCluster
  fits : f.Fits (fileByte fsi (view fsi s.vol.disk) l)

/-- Longer chains with the same bytes hold the same file. -/
theorem FileHolds.grown {ext : List Nat} (h : FileHolds fsi l s f) (hz : s'.fv.size = s.fv.size)
    (hd : ∀ c ∈ l, (view fsi s'.vol.disk).data c = (view fsi s.vol.disk).data c) : FileHolds fsi (l ++ ext) s' f := by
  have hroom := h.room
  refine ⟨hz.trans h.size, ?_, h.fits.congr fun i hi => ?_⟩
  · rw [List.length_append, Nat.add_mul]
    omega
  · rw [fileByte_append ext (by omega), fileByte_congr hd (by omega)]

/-- One call. -/
theorem FileOp.holds_step (hk : Reliable fsi.kernel) (hg : Geometry fsi) (hfuel : fsi.clusterCount < fsi.kernel.fuel)
    (hb : fsi.bytesPerCluster < 2 ^ 32) (h : Coherent fsi l s) (hty : s.fv.type = .vreg) {op : FileOp} (ha : op.Allowed s) :
    WP (op.exec fsi) s fun r s' => ∃ l', FileStep fsi l l' s s' ∧
      ∀ f f', FileHolds fsi l s f → op.after r f = some f' → FileHolds fsi l' s' f' := by
  cases op with
  | read uio =>
    refine transfer_wp ((read_step (t := ⟨s, uio⟩) hk hg h).mono fun r t hr => ?_)
    obtain ⟨st, sm, hz, -⟩ := hr
    refine ⟨l, st, fun f f' hf heq => ?_⟩
    obtain rfl : f = f' := Option.some.inj heq
    have hgrown : FileHolds fsi (l ++ []) t.vn f := hf.grown hz fun c _ => by rw [sm.disk]
    rwa [List.append_nil] at hgrown
  | write append uio =>
    refine transfer_wp ((write_step (t := ⟨s, uio⟩) hk hg h append).mono fun r t hr => ?_)
    obtain ⟨ext, st, -, hw, -⟩ := hr
    refine ⟨l ++ ext, st, fun f f' hf heq => ?_⟩
    obtain ⟨q, hq⟩ : ∃ q, (if append then (f.size : Int) else uio.offset) = q := ⟨_, rfl⟩
    simp only [FileOp.after, hq] at heq
    split at heq
    · rename_i hpos
      obtain ⟨hok, h0, hle⟩ := hpos
      obtain rfl := Option.some.inj heq
      obtain ⟨p, rfl⟩ := Int.eq_ofNat_of_zero_le h0
      rw [Int.toNat_natCast]
      have hps : p ≤ s.fv.size := by
        rw [hf.size]
        omega
      have hwp : writePos append ⟨s, uio⟩ = p := by
        rw [← hq, ← hf.size]
        rfl
      have W := hw hok hb (by rw [hf.size]; exact hf.room) p hwp hps
      have hroom := W.bytes.room
      refine ⟨by rw [W.size, hf.size]; rfl, ?_, hf.fits.write (fun i hi => W.bytes.inside i hi) fun i hi ho => ?_⟩
      · have hlen : l.length * fsi.bytesPerCluster ≤ (l ++ ext).length * fsi.bytesPerCluster :=
          Nat.mul_le_mul_right _ (by rw [List.length_append]; omega)
        exact max_le (hf.room.trans hlen) hroom
      · exact W.bytes.outside i (Nat.lt_of_lt_of_le hi hf.room) ho
    · cases heq
  | truncate size =>
    refine (truncate_to hk hg hfuel h (neededClusters_eq hg ha)).mono fun r s' hr => ?_
    obtain ⟨ext, ⟨hok, st, hlen, hsz, -, hdata⟩ | ⟨he, st, -⟩⟩ := hr
    · refine ⟨_, st, fun f f' hf heq => ?_⟩
      obtain rfl : f.truncate size = f' := Option.some.inj ((if_pos hok).symm.trans heq)
      have hd := hdata (by rw [hty]; decide)
      have hcover := le_clustersFor hg size
      have htake : ((l ++ ext).take (clustersFor fsi size)).length = clustersFor fsi size := List.length_take_of_le hlen
      have hroom := hf.room
      refine ⟨?_, by rw [htake]; exact hcover, hf.fits.truncate fun i hi hin => ?_⟩
      · rw [hsz]
        split
        · rename_i hor
          rw [hty, clustersFor_eq_zero hg] at hor
          exact (hor.resolve_right (by decide)).symm
        · rfl
      · have hsplit := List.take_append_drop (clustersFor fsi size) (l ++ ext)
        rw [← fileByte_append ((l ++ ext).drop (clustersFor fsi size)) (by rw [htake]; omega), hsplit,
          fileByte_append ext (by omega), fileByte, fileByte, hd]
    · refine ⟨_, st, fun f f' hf heq => ?_⟩
      simp only [FileOp.after, he] at heq
      cases heq
  | seek skip fl =>
    refine .bind (vnodeSeekCluster_step hk hg ha.1 fl h ha.2) (fun _ s1 h1 => .of_run (pure_run _ _) ?_) (fun _ s1 h1 => ?_)
      fun s1 h1 => ?_
    all_goals
      obtain ⟨ext, st, ⟨cache, hfv⟩, hdata, -⟩ := h1
      refine ⟨_, st, fun f f' hf heq => ?_⟩
      obtain rfl : f = f' := Option.some.inj heq
      exact hf.grown (by rw [hfv]) fun c hc => hdata c (.inl hc)

/-! ## Many files -/

/-- A volume and a vnode for each of its files. -/
structure Files (ι : Type) where
  vol : Vol
  fv : ι → Fv

namespace Files

def file (s : Files ι) (i : ι) : VnSt := ⟨s.vol, s.fv i⟩

/-- A call through the vnode of the file `i`. -/
def call (fsi : Fsi) (s : Files ι) (i : ι) (op : FileOp) : Out Errno Unit × Files ι :=
  let r := op.exec fsi (s.file i)
  (r.1, { vol := r.2.vol, fv := Function.update s.fv i r.2.fv })

end Files

/-- What is known of each file. -/
abbrev Known (ι : Type) := ι → Option (Contents UInt8)

/-- Calls in any order, each with what is known after it. -/
inductive StoreRun (fsi : Fsi) : Files ι → Known ι → Files ι → Known ι → Prop
  | refl (s : Files ι) (k : Known ι) : StoreRun fsi s k s k
  | step {s t : Files ι} {k k' : Known ι} (i : ι) (op : FileOp) (ha : op.Allowed (s.file i))
      (run : StoreRun fsi (s.call fsi i op).2 (Function.update k i ((k i).bind fun f => op.after (s.call fsi i op).1 f)) t k') :
      StoreRun fsi s k t k'

/-- The files share no cluster, and have what is known of them. -/
structure Store (fsi : Fsi) (chain : ι → List Nat) (s : Files ι) (k : Known ι) : Prop where
  coherent : ∀ i, Coherent fsi (chain i) (s.file i)
  type : ∀ i, (s.fv i).type = .vreg
  disjoint : ∀ i j, i ≠ j → (chain i).Disjoint (chain j)
  holds : ∀ i f, k i = some f → FileHolds fsi (chain i) (s.file i) f

variable {chain : ι → List Nat} {s t : Files ι} {k k' : Known ι} {i : ι}

/-- A call changes what is known of its own file alone. -/
theorem Store.step (hk : Reliable fsi.kernel) (hg : Geometry fsi) (hfuel : fsi.clusterCount < fsi.kernel.fuel)
    (hb : fsi.bytesPerCluster < 2 ^ 32) (h : Store fsi chain s k) {op : FileOp} (ha : op.Allowed (s.file i)) :
    ∃ chain', Store fsi chain' (s.call fsi i op).2
      (Function.update k i ((k i).bind fun f => op.after (s.call fsi i op).1 f)) := by
  have hop := op.holds_step hk hg hfuel hb (h.coherent i) (h.type i) ha
  unfold WP at hop
  obtain ⟨l', st, hholds⟩ := hop
  have hself : (s.call fsi i op).2.file i = (op.exec fsi (s.file i)).2 := by
    show VnSt.mk _ (Function.update s.fv i _ i) = _
    rw [Function.update_self]
    rfl
  have hother {j : ι} (hj : j ≠ i) : (s.call fsi i op).2.file j = ⟨(op.exec fsi (s.file i)).2.vol, s.fv j⟩ := by
    show VnSt.mk _ (Function.update s.fv i _ j) = _
    rw [Function.update_of_ne hj]
    rfl
  have hkeep {j : ι} (hj : j ≠ i) := OwnOnly.coherent (s := s.file j) st.own (h.coherent j) hg (h.disjoint j i hj)
  have haway {j : ι} (hj : j ≠ i) : (chain j).Disjoint l' := fun e he =>
    st.own.away e ((h.coherent j).chain.ne_zero e he) (h.disjoint j i hj he)
  refine ⟨Function.update chain i l', fun j => ?_, fun j => ?_, fun j m hjm => ?_, fun j f hf => ?_⟩
  · by_cases hj : j = i
    · rw [hj, hself, Function.update_self]
      exact st.coherent
    · rw [hother hj, Function.update_of_ne hj]
      exact (hkeep hj).1
  · by_cases hj : j = i
    · show (Function.update s.fv i _ j).type = _
      rw [hj, Function.update_self]
      exact st.fv.type.trans (h.type i)
    · show (Function.update s.fv i _ j).type = _
      rw [Function.update_of_ne hj]
      exact h.type j
  · by_cases hj : j = i
    · have hm : m ≠ i := fun hm => hjm (hj.trans hm.symm)
      rw [hj, Function.update_self, Function.update_of_ne hm]
      exact (haway hm).symm
    · rw [Function.update_of_ne hj]
      by_cases hm : m = i
      · rw [hm, Function.update_self]
        exact haway hj
      · rw [Function.update_of_ne hm]
        exact h.disjoint j m hjm
  · by_cases hj : j = i
    · rw [hj, Function.update_self, Option.bind_eq_some_iff] at hf
      obtain ⟨f₀, hf₀, hafter⟩ := hf
      rw [hj, hself, Function.update_self]
      exact hholds f₀ f (h.holds i f₀ hf₀) hafter
    · rw [Function.update_of_ne hj] at hf
      rw [hother hj, Function.update_of_ne hj]
      have hgrown : FileHolds fsi (chain j ++ []) ⟨(op.exec fsi (s.file i)).2.vol, s.fv j⟩ f :=
        (h.holds j f hf).grown rfl (hkeep hj).2
      rwa [List.append_nil] at hgrown

theorem StoreRun.store (hk : Reliable fsi.kernel) (hg : Geometry fsi) (hfuel : fsi.clusterCount < fsi.kernel.fuel)
    (hb : fsi.bytesPerCluster < 2 ^ 32) (run : StoreRun fsi s k t k') (h : Store fsi chain s k) :
    ∃ chain', Store fsi chain' t k' := by
  induction run generalizing chain with
  | refl => exact ⟨chain, h⟩
  | step i op ha run ih =>
    obtain ⟨chain', h'⟩ := h.step hk hg hfuel hb ha
    exact ih h'

/-- The file of five bytes, and an empty file. -/
def fiveAndEmpty : Files Bool where
  vol := twoClustersVol
  fv b := if b then twoClustersFile.fv else { cluster := 0, type := .vreg }

def fiveAndEmptyKnown : Known Bool := fun b => if b then
  some (.full 5 (fileByte twoClusters (view twoClusters twoClustersVol.disk) [2])) else some (.full 0 fun _ => 0)

theorem fiveAndEmpty_store : Store twoClusters (fun b => if b then [2] else []) fiveAndEmpty fiveAndEmptyKnown := by
  have hf : fatFin twoClusters (view twoClusters twoClustersVol.disk).fat 2 := by
    constructor <;> decide
  refine ⟨fun b => ?_, fun b => ?_, fun b c hbc => ?_, fun b f hf => ?_⟩
  · cases b with
    | true => exact ⟨.inr (.last hf), .empty⟩
    | false => exact ⟨.inl ⟨rfl, rfl⟩, .empty⟩
  · cases b <;> rfl
  · cases b with
    | true =>
      cases c with
      | true => exact absurd rfl hbc
      | false => exact List.disjoint_nil_right _
    | false => exact List.disjoint_nil_left _
  · cases b with
    | true =>
      obtain rfl := Option.some.inj hf
      exact ⟨rfl, by decide, Contents.fits_full _ _⟩
    | false =>
      obtain rfl := Option.some.inj hf
      exact ⟨rfl, Nat.zero_le _, Contents.fits_full _ _⟩

/-- Three bytes are written to the empty file. -/
def threeBytes : FileOp := .write false { offset := 0, resid := 3, mem := fun _ => 65 }

end Fat32
