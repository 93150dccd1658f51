import Mathlib
import Fat32.Proof.Free

/-!
# How a chain grows

`Grown fsi a l ext clear v v'`: the chain `l` from `a` got the clusters `ext`
appended, which were free, and no other chain was touched. This is all that
`nextCluster` and `seekLoop` do with `NC_ALLOC`, also when they run out of
space. Both look only at the disk and the counters, so they do the same from
states that differ in how often the kernel was asked (`seekLoop_sim`).
-/

namespace Fat32

open Bytes Exec Prog Linked

variable {fsi : Fsi} {fat : Nat → Nat} {v v' v'' : Vol} {a c p r : Nat} {l m s ext : List Nat}
  {clear : Bool}

/-! ## Chains in a changed FAT -/

theorem linkFat_other (hp : p ≠ 0) {b : Nat} (hb : b ≠ p) (hr : b ≠ r) :
    linkFat fat p r b = fat b := by
  rw [linkFat_ne _ hp, if_neg hb, if_neg hr]

theorem cutFat_other {b : Nat} (hb : b ≠ c) (hs : b ∉ s) : cutFat c s fat b = fat b := by
  rw [cutFat, zeroFat, if_neg hs, Function.update_of_ne hb]

theorem cutFat_self (hs : c ∉ s) : cutFat c s fat c = clusterEoc := by
  rw [cutFat, zeroFat, if_neg hs, Function.update_self]

/-- A cluster whose entry is an end mark is the last of its chain. -/
theorem FatChain.last_of_fin (hg : Geometry fsi) (hl : FatChain fsi fat a l) (hp : p ∈ l)
    (hf : fatFin fsi fat p) : l.getLast hl.ne_nil = p := by
  obtain ⟨q, s, rfl, hs⟩ := hl.suffix hp
  obtain rfl := hs.unique (fatEnds hg fat) (.last hf)
  simp

/-- A chain with a free cluster linked to its end. -/
theorem FatChain.append (hg : Geometry fsi) (hl : FatChain fsi fat a l) (hp : p ∈ l)
    (hf : fatFin fsi fat p) (hr : InRange fsi r) (hz : fat r = 0) :
    FatChain fsi (linkFat fat p r) a (l ++ [r]) := by
  have hp0 : p ≠ 0 := by have := hf.1.1; omega
  have hrp : r ≠ p := by rintro rfl; exact hl.ne_zero r hp hz
  have hlast := hl.last_of_fin hg hp hf
  refine Chain.append (fatEnds hg fat) hl ?_ ?_ fun b hb hbl =>
    fatNext_congr (linkFat_other hp0 ?_ ?_)
  · rw [hlast]
    exact fatNext_some.mpr ⟨hf.1, hr, by rw [linkFat_ne _ hp0, if_pos rfl]⟩
  · refine ⟨hr, ?_⟩
    rw [linkFat_ne _ hp0, if_neg hrp, if_pos rfl]
    decide
  · rwa [hlast] at hbl
  · rintro rfl
    exact hl.ne_zero _ hb hz

/-- A chain that is cut after `c`. -/
theorem FatChain.cut (hg : Geometry fsi) (hl : FatChain fsi fat a (m ++ c :: s)) :
    FatChain fsi (cutFat c s fat) a (m ++ [c]) := by
  have hnd := hl.nodup (fatEnds hg fat)
  have hc := hl.inRange c (by simp)
  have hcs : c ∉ s := (List.nodup_cons.mp (List.nodup_append.mp hnd).2.1).1
  refine Chain.cut hl rfl ⟨hc, ?_⟩ fun b hb => fatNext_congr ?_
  · rw [cutFat_self hcs]
    decide
  · have hbs := (List.nodup_append.mp hnd).2.2 b hb
    exact cutFat_other (hbs c (by simp)) fun h => hbs b (by simp [h]) rfl

/-- A cluster allocated for itself is a chain. -/
theorem FatChain.alloc (hr : InRange fsi r) : FatChain fsi (linkFat fat 0 r) r [r] := by
  refine .last ⟨hr, ?_⟩
  rw [linkFat_zero, if_pos rfl]
  decide

/-! ## Growing -/

/-- The chain `l` from `a` was extended by `ext`; with `l = []` it is new. -/
structure Grown (fsi : Fsi) (a : Nat) (l ext : List Nat) (clear : Bool) (v v' : Vol) : Prop where
  chain : FatChain fsi (view fsi v'.disk).fat a (l ++ ext)
  fresh : ∀ c ∈ ext, InRange fsi c ∧ (view fsi v.disk).fat c = 0
  fat : ∀ e, e ∉ l → e ∉ ext → (view fsi v'.disk).fat e = (view fsi v.disk).fat e
  data : ∀ e, e ∉ ext ∨ clear = false → (view fsi v'.disk).data e = (view fsi v.disk).data e
  zero : clear = true → ∀ e ∈ ext, (view fsi v'.disk).data e = fun _ => 0

theorem Grown.same (hl : FatChain fsi (view fsi v.disk).fat a l) (h : Same v v') :
    Grown fsi a l [] clear v v' := by
  refine ⟨by rwa [h.disk, List.append_nil], nofun, fun e _ _ => by rw [h.disk],
    fun e _ => by rw [h.disk], fun _ => nofun⟩

theorem Grown.trans (hg : Geometry fsi) {ext' : List Nat} (g : Grown fsi a l ext clear v v')
    (h : Grown fsi a (l ++ ext) ext' clear v' v'') :
    Grown fsi a l (ext ++ ext') clear v v'' := by
  have hnd : ((l ++ ext) ++ ext').Nodup := h.chain.nodup (fatEnds hg _)
  have away (c) (hc : c ∈ ext') : c ∉ l ∧ c ∉ ext := by
    rw [← not_or, ← List.mem_append]
    exact fun hc' => (List.nodup_append.mp hnd).2.2 c hc' c hc rfl
  refine ⟨by rw [← List.append_assoc]; exact h.chain, fun c hc => ?_, fun e hl he => ?_,
    fun e he => ?_, fun hcl e he => ?_⟩
  · rcases List.mem_append.mp hc with hc | hc
    · exact g.fresh c hc
    · rw [← g.fat c (away c hc).1 (away c hc).2]
      exact h.fresh c hc
  · rw [List.mem_append, not_or] at he
    rw [h.fat e (by simp [hl, he.1]) he.2, g.fat e hl he.1]
  · rw [List.mem_append, not_or] at he
    rw [h.data e (he.imp_left And.right), g.data e (he.imp_left And.left)]
  · rcases List.mem_append.mp he with he | he
    · rw [h.data e (.inl fun he' => (away e he').2 he), g.zero hcl e he]
    · exact h.zero hcl e he

/-- A state that is the same as the first one. -/
theorem Grown.of_same (h : Same v v') (g : Grown fsi a l ext clear v' v'') :
    Grown fsi a l ext clear v v'' := by
  obtain ⟨chain, fresh, fat, data, zero⟩ := g
  rw [h.disk] at fresh fat data
  exact ⟨chain, fresh, fat, data, zero⟩

theorem Allocated.grown (hg : Geometry fsi) (A : Allocated fsi p r clear v v')
    (hl : FatChain fsi (view fsi v.disk).fat a l) (hp : p ∈ l)
    (hf : fatFin fsi (view fsi v.disk).fat p) : Grown fsi a l [r] clear v v' := by
  have hp0 : p ≠ 0 := by have := hf.1.1; omega
  refine ⟨?_, fun c hc => ?_, fun e hl he => ?_, fun e he => ?_, fun hcl e he => ?_⟩
  · rw [A.fat]
    exact FatChain.append hg hl hp hf A.inRange A.free
  · rw [List.mem_singleton.mp hc]
    exact ⟨A.inRange, A.free⟩
  · rw [A.fat]
    exact linkFat_other hp0 (ne_of_mem_of_not_mem hp hl).symm (by simpa using he)
  · rw [A.data]
    cases clear with
    | false => rfl
    | true => exact Function.update_of_ne (by simpa using he) _ _
  · rw [A.data, if_pos hcl, List.mem_singleton.mp he, Function.update_self]

/-- The first cluster of a chain. -/
theorem Allocated.grown_zero (A : Allocated fsi 0 r clear v v') :
    Grown fsi r [] [r] clear v v' := by
  refine ⟨?_, fun c hc => ?_, fun e _ he => ?_, fun e he => ?_, fun hcl e he => ?_⟩
  · rw [A.fat]
    exact FatChain.alloc A.inRange
  · rw [List.mem_singleton.mp hc]
    exact ⟨A.inRange, A.free⟩
  · rw [A.fat, linkFat_zero, if_neg (by simpa using he)]
  · rw [A.data]
    cases clear with
    | false => rfl
    | true => exact Function.update_of_ne (by simpa using he) _ _
  · rw [A.data, if_pos hcl, List.mem_singleton.mp he, Function.update_self]

/-- `nextCluster` from `0`. -/
theorem nextCluster_grown_zero (hk : Reliable fsi.kernel) (hg : Geometry fsi) {fl : NcFlags}
    (hfl : fl.alloc = true) (v : Vol) :
    ∃ v', (nextCluster fsi 0 fl v = (.err .enospc, v') ∧ Same v v') ∨
      ∃ r, nextCluster fsi 0 fl v = (.ok r, v') ∧ Allocated fsi 0 r fl.clear v v' := by
  rw [nextCluster_zero hfl]
  exact allocateCluster_ok hk hg (.inl rfl) fl

/-- `nextCluster` with `NC_ALLOC` from the end of a chain. -/
theorem nextCluster_grown_end (hk : Reliable fsi.kernel) (hg : Geometry fsi) {fl : NcFlags}
    (hfl : fl.alloc = true) (hl : FatChain fsi (view fsi v.disk).fat a l) (hc : c ∈ l)
    (hf : fatFin fsi (view fsi v.disk).fat c) :
    ∃ v', (nextCluster fsi c fl v = (.err .enospc, v') ∧ Same v v') ∨
      ∃ r, nextCluster fsi c fl v = (.ok r, v') ∧ Grown fsi a l [r] fl.clear v v' := by
  obtain ⟨v1, s1, e1⟩ := nextCluster_append hk hg hf hfl
  have hp : InRange fsi c ∧ (view fsi v1.disk).fat c ≠ 0 :=
    ⟨hf.1, by rw [s1.disk]; exact hl.ne_zero c hc⟩
  obtain ⟨v', ⟨e, s⟩ | ⟨r, e, A⟩⟩ := allocateCluster_ok hk hg (.inr hp) fl
  · exact ⟨v', .inl ⟨e1.trans e, s1.trans s⟩⟩
  · rw [← s1.disk] at hl hf
    exact ⟨v', .inr ⟨r, e1.trans e, .of_same s1 (A.grown hg hl hc hf)⟩⟩

/-- `nextCluster` from the cluster with index `i` of a chain: the result is the
next cluster of the grown chain, or the chain ends here. -/
theorem nextCluster_grown (hk : Reliable fsi.kernel) (hg : Geometry fsi) (fl : NcFlags) {i : Nat}
    (hl : FatChain fsi (view fsi v.disk).fat a l) (hc : l[i]? = some c) :
    ∃ v' ext, Grown fsi a l ext fl.clear v v' ∧
      ((∃ d, nextCluster fsi c fl v = (.ok d, v') ∧ (l ++ ext)[i + 1]? = some d) ∨
        (nextCluster fsi c fl v = (.err .enospc, v') ∧ ext = [] ∧ l.length = i + 1)) := by
  rcases hl.step hc with ⟨hf, hlen⟩ | ⟨d, hn, hd⟩
  · by_cases hfl : fl.alloc = true
    · obtain ⟨v', ⟨e, s⟩ | ⟨r, e, g⟩⟩ := nextCluster_grown_end hk hg hfl hl (List.mem_of_getElem? hc) hf
      · exact ⟨v', [], .same hl s, .inr ⟨e, rfl, hlen⟩⟩
      · refine ⟨v', [r], g, .inl ⟨r, e, ?_⟩⟩
        rw [← hlen, List.getElem?_append_right (Nat.le_refl _), Nat.sub_self]
        rfl
    · rw [Bool.not_eq_true] at hfl
      obtain ⟨v', e, s⟩ := nextCluster_fin hk hg hf hfl
      exact ⟨v', [], .same hl s, .inr ⟨e, rfl, hlen⟩⟩
  · obtain ⟨v', e, s⟩ := nextCluster_link hk hg hn fl
    exact ⟨v', [], .same hl s, .inl ⟨d, e, by rwa [List.append_nil]⟩⟩

/-- Seeking `n` clusters from index `i`: the result is the cluster with that
index of the grown chain, or there is no space for it. -/
theorem seekLoop_grown (hk : Reliable fsi.kernel) (hg : Geometry fsi) (fl : NcFlags) (n : Nat) :
    ∀ {c i : Nat} {l : List Nat} {v : Vol}, FatChain fsi (view fsi v.disk).fat a l →
      l[i]? = some c → ∃ v' ext, Grown fsi a l ext fl.clear v v' ∧
        ((∃ d, seekLoop fsi fl n c v = (.ok d, v') ∧ (l ++ ext)[i + n]? = some d) ∨
          (seekLoop fsi fl n c v = (.err .enospc, v') ∧ (l ++ ext).length ≤ i + n)) := by
  induction n with
  | zero =>
    intro c i l v hl hc
    refine ⟨v, [], .same hl (.refl v), .inl ⟨c, rfl, ?_⟩⟩
    rwa [List.append_nil]
  | succ n ih =>
    intro c i l v hl hc
    obtain ⟨v1, e1, g1, ⟨d, hd, hdi⟩ | ⟨he, rfl, hlen⟩⟩ := nextCluster_grown hk hg fl hl hc
    · obtain ⟨v2, e2, g2, h2⟩ := ih g1.chain hdi
      rw [List.append_assoc, Nat.add_assoc, Nat.add_comm 1] at h2
      exact ⟨v2, e1 ++ e2, g1.trans hg g2, by rw [seekLoop, bind_ok hd]; exact h2⟩
    · refine ⟨v1, [], g1, .inr ⟨by rw [seekLoop, bind_err he], ?_⟩⟩
      rw [List.append_nil]
      omega

theorem noAlloc : ({} : NcFlags).alloc = false := rfl

/-- Without `NC_ALLOC` nothing changes. -/
theorem nextCluster_read (hk : Reliable fsi.kernel) (hg : Geometry fsi) {fl : NcFlags}
    (hfl : fl.alloc = false) {i : Nat} (hl : FatChain fsi (view fsi v.disk).fat a l)
    (hc : l[i]? = some c) : ∃ v', Same v v' ∧
      ((∃ d, nextCluster fsi c fl v = (.ok d, v') ∧ l[i + 1]? = some d) ∨
        (nextCluster fsi c fl v = (.err .enospc, v') ∧ l.length = i + 1)) := by
  rcases hl.step hc with ⟨hf, hlen⟩ | ⟨d, hn, hd⟩
  · obtain ⟨v', e, s⟩ := nextCluster_fin hk hg hf hfl
    exact ⟨v', s, .inr ⟨e, hlen⟩⟩
  · obtain ⟨v', e, s⟩ := nextCluster_link hk hg hn fl
    exact ⟨v', s, .inl ⟨d, e, hd⟩⟩

theorem seekLoop_read (hk : Reliable fsi.kernel) (hg : Geometry fsi) {fl : NcFlags}
    (hfl : fl.alloc = false) (n : Nat) : ∀ {c i : Nat} {v : Vol},
      FatChain fsi (view fsi v.disk).fat a l → l[i]? = some c → ∃ v', Same v v' ∧
        ((∃ d, seekLoop fsi fl n c v = (.ok d, v') ∧ l[i + n]? = some d) ∨
          (seekLoop fsi fl n c v = (.err .enospc, v') ∧ l.length ≤ i + n)) := by
  induction n with
  | zero => exact fun {c _ v} _ hc => ⟨v, .refl v, .inl ⟨c, rfl, hc⟩⟩
  | succ n ih =>
    intro c i v hl hc
    obtain ⟨v1, s1, ⟨d, hd, hdi⟩ | ⟨he, hlen⟩⟩ := nextCluster_read hk hg hfl hl hc
    · obtain ⟨v2, s2, h2⟩ := ih (by rw [s1.disk]; exact hl) hdi
      rw [Nat.add_assoc, Nat.add_comm 1] at h2
      exact ⟨v2, s1.trans s2, by rw [seekLoop, bind_ok hd]; exact h2⟩
    · exact ⟨v1, s1, .inr ⟨by rw [seekLoop, bind_err he], by omega⟩⟩

/-! ## What the FAT operations look at -/

theorem bread_sim (hk : Reliable fsi.kernel) (s n : Nat) :
    Sim Same (bread fsi s n) (bread fsi s n) := by
  intro v w h
  obtain ⟨v', e, s⟩ := bread_ok hk s n v
  obtain ⟨w', e', s'⟩ := bread_ok hk _ n w
  rw [e, e']
  refine ⟨by rw [h.disk], ?_⟩
  exact (s.symm.trans h).trans s'

theorem bdwrite_sim (b : Buf) : Sim Same (bdwrite b) (bdwrite b) := by
  intro v w h
  refine ⟨rfl, ?_, h.free, h.next⟩
  simp only [bdwrite, Vol.logged, h.disk]

theorem getblkClear_sim (s n : Nat) : Sim Same (getblkClear s n) (getblkClear s n) :=
  fun _ _ h => ⟨rfl, h.disk, h.free, h.next⟩

theorem rmwCopies_sim (hk : Reliable fsi.kernel) (x o n : Nat) : ∀ (s : Nat) (b : Buf),
    Sim Same (rmwCopies fsi x o n s b) (rmwCopies fsi x o n s b) := by
  induction n with
  | zero => exact fun s b => .pure _
  | succ n ih =>
    intro s b
    exact .bind (bdwrite_sim _) fun _ => .ite (fun _ => .pure _) fun _ =>
      .bind (bread_sim hk _ _) fun _ => ih _ _

theorem rmwCluster_sim (hk : Reliable fsi.kernel) (c : Nat) (new : Option Nat) :
    Sim Same (rmwCluster fsi c new) (rmwCluster fsi c new) := by
  refine .ite (fun _ => .fail _) fun _ => .bind (bread_sim hk _ _) fun b => ?_
  cases new with
  | none => exact .pure _
  | some x => exact .bind (rmwCopies_sim hk _ _ _ _ _) fun _ => .pure _

theorem clearLoop_sim (n : Nat) : ∀ s, Sim Same (clearLoop s n) (clearLoop s n) := by
  induction n with
  | zero => exact fun s => .pure _
  | succ n ih =>
    exact fun s => .bind (getblkClear_sim _ _) fun _ => .bind (bdwrite_sim _) fun _ => ih _

theorem clearCluster_sim (c : Nat) : Sim Same (clearCluster fsi c) (clearCluster fsi c) :=
  .bind (fun _ _ h => ⟨rfl, h.disk, h.free, h.next⟩) fun _ => clearLoop_sim _ _

/-- Volumes that the entries of the FAT, the counters and, with `NC_CLEAR`, the zeroing
of a cluster do not tell apart. -/
structure FatSim (fsi : Fsi) (fl : NcFlags) (R : Vol → Vol → Prop) : Prop where
  rmw : ∀ c new, Sim R (rmwCluster fsi c new) (rmwCluster fsi c new)
  free : ∀ {v w}, R v w → w.freeCount = v.freeCount
  next : ∀ {v w}, R v w → w.nextFree = v.nextFree
  info : ∀ x y {m n : FsM Nat}, Sim R m n → Sim R
    (do
      let bp ← bread fsi fsi.fsinfoSector 1
      bdwrite { bp with data := wle32 y (wle32 x bp.data fsinfoFreeCount) fsinfoNextFree }
      modify fun v => { v with freeCount := x, nextFree := y }
      m)
    (do
      let bp ← bread fsi fsi.fsinfoSector 1
      bdwrite { bp with data := wle32 y (wle32 x bp.data fsinfoFreeCount) fsinfoNextFree }
      modify fun v => { v with freeCount := x, nextFree := y }
      n)
  clear : fl.clear = true → ∀ c, Sim R (clearCluster fsi c) (clearCluster fsi c)

theorem same_fatSim (hk : Reliable fsi.kernel) (fl : NcFlags) : FatSim fsi fl Same := by
  refine ⟨rmwCluster_sim hk, fun h => h.free, fun h => h.next, fun x y m n h => ?_,
    fun _ => clearCluster_sim⟩
  refine .bind (bread_sim hk _ _) fun b => .bind (bdwrite_sim _) fun _ => .bind ?_ fun _ => h
  exact .modify fun v w hvw => ⟨hvw.disk, rfl, rfl⟩

namespace FatSim

variable {fl : NcFlags} {R : Vol → Vol → Prop} (B : FatSim fsi fl R)
include B

theorem searchFree (start n : Nat) : ∀ c,
    Sim R (searchFree fsi start n c) (Fat32.searchFree fsi start n c) := by
  induction n with
  | zero => exact fun c => .fail _
  | succ n ih =>
    exact fun c => .bind (B.rmw c none) fun _ => .ite (fun _ => .pure _) fun _ =>
      .ite (fun _ => .fail _) fun _ => ih _

theorem allocateCluster (p : Nat) :
    Sim R (allocateCluster fsi p fl) (Fat32.allocateCluster fsi p fl) := by
  unfold Fat32.allocateCluster
  refine .get_bind fun v w h => ?_
  rw [B.free h, B.next h]
  refine .ite (fun _ => .fail _) fun _ => .bind (B.searchFree _ _ _) fun r =>
    .bind (B.rmw _ _) fun _ => .bind (.ite (fun _ => .attempt (B.rmw _ _)) fun _ => .pure _)
      fun linked => ?_
  cases linked with
  | error e => exact .bind (.attempt (B.rmw _ _)) fun _ => .fail _
  | ok _ =>
    exact B.info _ _ (.ite (fun hc => .bind (B.clear hc _) fun _ => .pure _) fun _ => .pure _)

theorem nextCluster (c : Nat) : Sim R (nextCluster fsi c fl) (Fat32.nextCluster fsi c fl) := by
  refine .ite (fun _ => .ite (fun _ => .fail _) fun _ => B.allocateCluster _) fun _ =>
    .ite (fun _ => .fail _) fun _ => .bind (B.rmw _ _) fun x => ?_
  refine .ite (fun _ => .ite (fun _ => .fail _) fun _ => B.allocateCluster _) fun _ =>
    .ite (fun _ => .fail _) fun _ => .ite (fun _ => .fail _) fun _ =>
    .ite (fun _ => .fail _) fun _ => .pure _

theorem seekLoop (n : Nat) : ∀ c, Sim R (seekLoop fsi fl n c) (Fat32.seekLoop fsi fl n c) := by
  induction n with
  | zero => exact fun c => .pure _
  | succ n ih => exact fun c => .bind (B.nextCluster c) fun d => ih d

end FatSim

end Fat32
