import Mathlib
import Fat32.Proof.System
import Fat32.Proof.Search

/-!
# Which clusters are asked for as data

The links of a chain are checked when they are followed, so the only unchecked
way to a cluster is the first cluster of a vnode. `Policy fsi Q A` are the
predicates on the list of clusters asked for that asking for a cluster with `A`
keeps; every program keeps such a predicate if `A` holds of the vnode's first
cluster (`Sound`).
-/

namespace Fat32

open Bytes Exec Prog

variable {fsi : Fsi} {Q : List Nat → Prop} {A : Nat → Prop} {α β : Type}

structure Policy (fsi : Fsi) (Q : List Nat → Prop) (A : Nat → Prop) : Prop where
  ask : ∀ l c, Q l → A c → Q (c :: l)
  range : ∀ c, InRange fsi c → A c

/-- Runs of `m` keep `Q` of the clusters asked for, and have results with `Φ`. -/
def Asks (Q : List Nat → Prop) (m : FsM α) (Φ : α → Prop) : Prop :=
  Maintains (fun v => Q v.io.clusters) (fun _ => True) m fun a _ => Φ a

namespace Asks

variable {m : FsM α} {f : α → FsM β} {Φ Φ' : α → Prop} {Ψ : β → Prop}

theorem pure {a : α} (h : Φ a) : Asks Q (Pure.pure a) Φ := Maintains.pure fun _ _ _ => h

theorem fail (e : Errno) : Asks Q (Prog.fail e) Φ := Maintains.fail e

theorem hang : Asks Q (Prog.hang : FsM α) Φ := Maintains.hang

theorem bind (hm : Asks Q m Φ) (hf : ∀ a, Φ a → Asks Q (f a) Ψ) : Asks Q (m >>= f) Ψ :=
  Maintains.bind hm fun a s hi ha => hf a ha s hi trivial

theorem attempt (hm : Asks Q m Φ) : Asks Q (Prog.attempt m) fun r => ∀ a, r = .ok a → Φ a :=
  Maintains.attempt hm

theorem ite {c : Prop} [Decidable c] {n : FsM α} (hm : c → Asks Q m Φ) (hn : ¬ c → Asks Q n Φ) :
    Asks Q (if c then m else n) Φ := Maintains.ite hm hn

theorem get_bind {f : Vol → FsM α} (h : ∀ v, Asks Q (f v) Φ) : Asks Q (Prog.get >>= f) Φ :=
  fun s hi _ => h s s hi trivial

theorem mono (hm : Asks Q m Φ) (h : ∀ a, Φ a → Φ' a) : Asks Q m Φ' :=
  Maintains.mono hm (fun _ _ _ => trivial) fun a _ _ => h a

theorem drop (hm : Asks Q m Φ) : Asks Q m fun _ => True := hm.mono fun _ _ => trivial

/-- A program that asks for no cluster. -/
theorem of_none {m : FsM α} (h : ∀ v, (m v).2.io.clusters = v.io.clusters) :
    Asks Q m fun _ => True := by
  intro v hi _
  refine ⟨?_, fun _ _ => trivial⟩
  show Q (m v).2.io.clusters
  rw [h]
  exact hi

end Asks

/-! ## The volume -/

theorem bread_asks (s n : Nat) : Asks Q (bread fsi s n) fun _ => True := by
  refine .of_none fun v => ?_
  unfold bread
  dsimp only
  split <;> rfl

theorem bdwrite_asks (b : Buf) : Asks Q (bdwrite b) fun _ => True := .of_none fun _ => rfl

theorem modify_asks {g : Vol → Vol} (h : ∀ v, (g v).io = v.io) :
    Asks Q (modify g) fun _ => True := .of_none fun v => by rw [modify_run, h]

theorem nanotime_asks : Asks Q (nanotime fsi) fun _ => True := .of_none fun _ => rfl

theorem uiomove_asks : Asks Q (uiomove fsi) fun _ => True := by
  refine .of_none fun v => ?_
  unfold uiomove
  dsimp only
  split <;> rfl

theorem askCluster_asks (p : Policy fsi Q A) {c : Nat} (hc : A c) :
    Asks Q (askCluster c) fun _ => True :=
  Maintains.modify fun _ hi _ => ⟨p.ask _ c hi hc, trivial⟩

theorem rmwCopies_asks (x o n : Nat) : ∀ s b, Asks Q (rmwCopies fsi x o n s b) fun _ => True := by
  induction n with
  | zero => exact fun _ _ => .pure trivial
  | succ n ih =>
    intro s b
    exact .bind (bdwrite_asks _) fun _ _ => .ite (fun _ => .pure trivial) fun _ =>
      .bind (bread_asks _ _) fun _ _ => ih _ _

/-- Only a cluster in range has an entry. -/
theorem rmwCluster_asks (hg : Geometry fsi) (c : Nat) (new : Option Nat) :
    Asks Q (rmwCluster fsi c new) fun _ => InRange fsi c := by
  unfold rmwCluster
  refine .ite (fun _ => .fail _) fun hc => ?_
  have hr : InRange fsi c := (inRange_iff hg c).mpr hc
  refine .bind (bread_asks _ _) fun b _ => ?_
  cases new with
  | none => exact .pure hr
  | some x => exact .bind (rmwCopies_asks _ _ _ _ _) fun _ _ => .pure hr

theorem searchFree_asks (hg : Geometry fsi) (start n : Nat) : ∀ c,
    Asks Q (searchFree fsi start n c) (InRange fsi) := by
  induction n with
  | zero => exact fun c => .fail _
  | succ n ih =>
    exact fun c => .bind (rmwCluster_asks hg c none) fun _ hc => .ite (fun _ => .pure hc) fun _ =>
      .ite (fun _ => .fail _) fun _ => ih _

theorem clearCluster_asks (p : Policy fsi Q A) {c : Nat} (hc : A c) :
    Asks Q (clearCluster fsi c) fun _ => True := by
  have hloop (n : Nat) : ∀ s, Asks Q (clearLoop s n) fun _ => True := by
    induction n with
    | zero => exact fun _ => .pure trivial
    | succ n ih =>
      exact fun s => .bind (.of_none fun _ => rfl) fun _ _ => .bind (bdwrite_asks _) fun _ _ => ih _
  exact .bind (askCluster_asks p hc) fun _ _ => hloop _ _

theorem allocateCluster_asks (p : Policy fsi Q A) (hg : Geometry fsi) (parent : Nat)
    (fl : NcFlags) : Asks Q (allocateCluster fsi parent fl) (InRange fsi) := by
  unfold allocateCluster
  refine .get_bind fun v => .ite (fun _ => .fail _) fun _ => ?_
  refine .bind (searchFree_asks hg _ _ _) fun c hc => .bind (rmwCluster_asks hg _ _) fun _ _ => ?_
  have hlink : Asks Q (if parent ≠ 0 then attempt (rmwCluster fsi parent (some c))
      else pure (.ok 0)) fun _ => True :=
    .ite (fun _ => (rmwCluster_asks hg _ _).attempt.drop) fun _ => .pure trivial
  refine .bind hlink fun linked _ => ?_
  cases linked with
  | error e => exact .bind (rmwCluster_asks hg _ _).attempt fun _ _ => .fail _
  | ok _ =>
    refine .bind (bread_asks _ _) fun b _ => .bind (bdwrite_asks _) fun _ _ =>
      .bind (modify_asks fun _ => rfl) fun _ _ => ?_
    exact .ite (fun _ => .bind (clearCluster_asks p (p.range c hc)) fun _ _ => .pure hc)
      fun _ => .pure hc

theorem nextCluster_asks (p : Policy fsi Q A) (hg : Geometry fsi) (c : Nat) (fl : NcFlags) :
    Asks Q (nextCluster fsi c fl) (InRange fsi) := by
  unfold nextCluster
  refine .ite (fun _ => .ite (fun _ => .fail _) fun _ => allocateCluster_asks p hg _ _) fun _ => ?_
  refine .ite (fun _ => .fail _) fun _ => .bind (rmwCluster_asks hg c none) fun next _ => ?_
  refine .ite (fun _ => .ite (fun _ => .fail _) fun _ => allocateCluster_asks p hg _ _) fun _ => ?_
  refine .ite (fun _ => .fail _) fun _ => .ite (fun _ => .fail _) fun _ =>
    .ite (fun _ => .fail _) fun hn => .pure ((inRange_iff hg next).mpr hn)

theorem seekLoop_asks (p : Policy fsi Q A) (hg : Geometry fsi) (fl : NcFlags) (n : Nat) : ∀ c,
    A c ∨ 0 < n → Asks Q (seekLoop fsi fl n c) A := by
  induction n with
  | zero => exact fun c h => .pure (h.resolve_right (Nat.lt_irrefl 0))
  | succ n ih =>
    exact fun c _ => .bind (nextCluster_asks p hg c fl) fun d hd => ih d (.inl (p.range d hd))

theorem seekCluster_asks (p : Policy fsi Q A) (hg : Geometry fsi) {start skip : Nat}
    (h : A start ∨ 0 < skip) (fl : NcFlags) : Asks Q (seekCluster fsi start skip fl) A := by
  unfold seekCluster
  exact .ite (fun hs => .pure (h.resolve_right (by omega))) fun _ =>
    seekLoop_asks p hg fl skip start h

theorem freeClusters_asks (hg : Geometry fsi) (start : Nat) (freeStart : Bool) :
    Asks Q (freeClusters fsi start freeStart) fun _ => True := by
  have hloop (fuel : Nat) : ∀ c n, Asks Q (freeLoop fsi fuel c n) fun _ => True := by
    induction fuel with
    | zero => exact fun _ _ => .hang
    | succ fuel ih =>
      exact fun c n => .ite (fun _ => .bind (rmwCluster_asks hg c _) fun _ _ => ih _ _)
        fun _ => .pure trivial
  have hup (n : Nat) : Asks Q (freeUpdate fsi n) fun _ => True := by
    refine .ite (fun _ => .bind (bread_asks _ _).attempt fun r _ => ?_) fun _ => .pure trivial
    cases r with
    | error e => exact .pure trivial
    | ok b =>
      exact .get_bind fun _ => .ite (fun _ => .bind (bdwrite_asks _) fun _ _ =>
        modify_asks fun _ => rfl) fun _ => .pure trivial
  unfold freeClusters
  refine .ite (fun _ => .fail _) fun _ => .ite (fun _ => ?_) fun _ => ?_
  · exact .bind (rmwCluster_asks hg start _) fun _ _ => .ite (fun _ => .pure trivial) fun _ =>
      .bind (hloop _ _ _) fun n _ => hup n
  · exact .bind (hloop _ _ _) fun n _ => hup n

theorem readCluster_asks (p : Policy fsi Q A) {c : Nat} (hc : A c) :
    Asks Q (readCluster fsi c) fun _ => True :=
  .bind (askCluster_asks p hc) fun _ _ => bread_asks _ _

theorem writeFdentry_asks (p : Policy fsi Q A) (hg : Geometry fsi) {d : Nat} (hd : A d)
    (offset : Nat) (s : Slot) : Asks Q (writeFdentry fsi d offset s) fun _ => True := by
  unfold writeFdentry
  exact .bind (seekCluster_asks p hg (.inl hd) _) fun c hc =>
    .bind (readCluster_asks p hc) fun _ _ => bdwrite_asks _

theorem initDir_asks (p : Policy fsi Q A) (hg : Geometry fsi) {c : Nat} (hc : A c) (parent : Nat) :
    Asks Q (initDir fsi c parent) fun _ => True := by
  unfold initDir
  exact .bind (clearCluster_asks p hc) fun _ _ => .bind nanotime_asks fun _ _ =>
    .bind (writeFdentry_asks p hg hc _ _) fun _ _ => writeFdentry_asks p hg hc _ _

theorem getDirentLoop_asks (p : Policy fsi Q A) (hg : Geometry fsi) (dn fuel : Nat) : ∀ c o st,
    A c → Asks Q (getDirentLoop fsi dn fuel c o st) fun _ => True := by
  induction fuel with
  | zero => exact fun _ _ _ _ => .hang
  | succ fuel ih =>
    intro c o st hc
    unfold getDirentLoop
    refine .bind (readCluster_asks p hc) fun b _ => ?_
    split
    · exact .fail _
    · exact .pure trivial
    · refine .bind (nextCluster_asks p hg c _).attempt fun r hr => ?_
      cases r with
      | error e => exact .fail _
      | ok next => exact ih next 0 _ (p.range next (hr next rfl))

theorem allocLoop_asks (p : Policy fsi Q A) (hg : Geometry fsi) (num fuel : Nat) :
    ∀ c cur run found, A c → Asks Q (allocLoop fsi num fuel c cur run found)
      fun r => ∀ e, r = .ok e → A e.lastCluster := by
  induction fuel with
  | zero => exact fun _ _ _ _ _ => .hang
  | succ fuel ih =>
    intro c cur run found hc
    unfold allocLoop
    have hnext (run : Run) (found : Bool) {k : Except Errno Nat → FsM (Except Nat AllocEnd)}
        (herr : ∀ e, k (.error e) = pure (.ok ⟨c, u32 (cur + fsi.bytesPerCluster), run, found⟩))
        (hok : ∀ d, k (.ok d) = allocLoop fsi num fuel d (u32 (cur + fsi.bytesPerCluster)) run found) :
        Asks Q (attempt (nextCluster fsi c {}) >>= k) fun r => ∀ e, r = .ok e → A e.lastCluster := by
      refine .bind (nextCluster_asks p hg c _).attempt fun r hr => ?_
      cases r with
      | error e =>
        rw [herr]
        refine .pure fun e he => ?_
        rw [← Except.ok.inj he]
        exact hc
      | ok next =>
        rw [hok]
        exact ih next _ _ _ (p.range next (hr next rfl))
    have hstep : Asks Q (if found then pure (AllocStep.last run) else do
        let bp ← readCluster fsi c
        pure (allocCluster fsi num cur bp.data fsi.bytesPerCluster 0 run)) fun _ => True :=
      .ite (fun _ => .pure trivial) fun _ => .bind (readCluster_asks p hc) fun _ _ => .pure trivial
    refine .bind hstep fun step _ => ?_
    cases step with
    | full start => exact .pure fun _ h => by cases h
    | last run => exact hnext run true (fun _ => rfl) fun _ => rfl
    | more run => exact hnext run found (fun _ => rfl) fun _ => rfl

theorem growLoop_asks (p : Policy fsi Q A) (hg : Geometry fsi) (n : Nat) : ∀ c,
    Asks Q (growLoop fsi n c) fun _ => True := by
  induction n with
  | zero => exact fun _ => .pure trivial
  | succ n ih => exact fun c => .bind (nextCluster_asks p hg c _) fun d _ => ih d

/-! ## Vnodes -/

/-- What of a vnode leads to clusters: the first cluster, unless the file is empty,
and the cache. -/
structure Sound (A : Nat → Prop) (fv : Fv) : Prop where
  first : A fv.cluster ∨ fv.cluster = 0 ∧ fv.size = 0 ∧ fv.type = .vreg
  cache : ∀ e ∈ fv.clsCache, e.cluster = 0 ∨ A e.cluster

/-- The same for a program on a vnode; `P` tells more of the vnode before and `R` of the
result and the vnode after it. -/
def VnAsks (Q : List Nat → Prop) (A : Nat → Prop) (P : Fv → Prop) (m : FvM α) (R : α → Fv → Prop) :
    Prop :=
  Maintains (fun s => Q s.vol.io.clusters ∧ Sound A s.fv) (fun s => P s.fv) m fun a s => R a s.fv

namespace VnAsks

variable {P P' : Fv → Prop} {m : FvM α} {f : α → FvM β} {R R' : α → Fv → Prop}
  {T : β → Fv → Prop}

theorem pure {a : α} (h : ∀ fv, P fv → R a fv) : VnAsks Q A P (Pure.pure a) R :=
  Maintains.pure fun s _ hp => h s.fv hp

theorem fail (e : Errno) : VnAsks Q A P (Prog.fail e) R := Maintains.fail e

theorem hang : VnAsks Q A P (Prog.hang : FvM α) R := Maintains.hang

theorem bind (hm : VnAsks Q A P m R) (hf : ∀ a, VnAsks Q A (R a) (f a) T) :
    VnAsks Q A P (m >>= f) T := Maintains.bind hm hf

theorem attempt (hm : VnAsks Q A P m R) :
    VnAsks Q A P (Prog.attempt m) fun r fv => ∀ a, r = .ok a → R a fv := Maintains.attempt hm

theorem ite {c : Prop} [Decidable c] {n : FvM α} (hm : c → VnAsks Q A P m R)
    (hn : ¬ c → VnAsks Q A P n R) : VnAsks Q A P (if c then m else n) R := Maintains.ite hm hn

theorem get_bind {f : VnSt → FvM α}
    (h : ∀ s, Sound A s.fv → P s.fv → VnAsks Q A (fun fv => fv = s.fv) (f s) R) :
    VnAsks Q A P (Prog.get >>= f) R :=
  Maintains.get_bind fun s hi hp => Maintains.mono (h s hi.2 hp) (fun t _ ht => by rw [ht])
    fun _ _ _ hr => hr

theorem mono (hm : VnAsks Q A P m R) (hp : ∀ fv, P' fv → P fv) (hr : ∀ a fv, R a fv → R' a fv) :
    VnAsks Q A P' m R' :=
  Maintains.mono hm (fun s _ => hp s.fv) fun a s _ => hr a s.fv

/-- A proof that looks at what is known before. -/
theorem of_pre (h : ∀ fv, P fv → VnAsks Q A P m R) : VnAsks Q A P m R :=
  fun s hi hp => h s.fv hp s hi hp

/-- A change of the vnode. -/
theorem modifyFv {g : Fv → Fv} {R : Unit → Fv → Prop}
    (h : ∀ fv, Sound A fv → P fv → Sound A (g fv) ∧ R () (g fv)) :
    VnAsks Q A P (Fat32.modifyFv g) R :=
  Maintains.modify fun s hi hp => ⟨⟨hi.1, (h s.fv hi.2 hp).1⟩, (h s.fv hi.2 hp).2⟩

/-- A program on the volume leaves the vnode alone. -/
theorem onVol {m : FsM α} {Φ : α → Prop} (hm : Asks Q m Φ) :
    VnAsks Q A P (Fat32.onVol m) fun a fv => Φ a ∧ P fv := by
  intro s hi hp
  obtain ⟨hq, hr⟩ := hm s.vol hi.1 trivial
  exact ⟨⟨hq, hi.2⟩, fun a ha => ⟨hr a ha, hp⟩⟩

end VnAsks

/-- The parts of a vnode that lead to clusters are the same. -/
structure SameWay (fv fv' : Fv) : Prop where
  cluster : fv'.cluster = fv.cluster
  size : fv'.size = fv.size
  type : fv'.type = fv.type
  cache : fv'.clsCache = fv.clsCache

theorem Sound.congr {fv fv' : Fv} (h : Sound A fv) (s : SameWay fv fv') : Sound A fv' := by
  constructor
  · rw [s.cluster, s.size, s.type]
    exact h.first
  · rw [s.cache]
    exact h.cache

theorem touch_asks (a m : Bool) (fv : Fv) : Asks Q (touch fsi a m fv) (SameWay fv) := by
  unfold touch
  exact .bind nanotime_asks fun now _ => .ite (fun _ => .pure ⟨rfl, rfl, rfl, rfl⟩)
    fun _ => .pure ⟨rfl, rfl, rfl, rfl⟩

theorem touchFv_asks (a m : Bool) (fv : Fv) :
    VnAsks Q A (fun x => x = fv) (touchFv fsi a m) fun _ => SameWay fv := by
  unfold touchFv
  refine .get_bind fun s hs hfv => .bind (.onVol (touch_asks a m s.fv)) fun fv' => ?_
  refine .modifyFv fun x _ hx => ⟨hs.congr hx.1, ?_⟩
  rw [← hfv]
  exact hx.1

theorem updateCache_sound {cache : List ClsCacheEntry} {index cluster : Nat}
    (h : ∀ e ∈ cache, e.cluster = 0 ∨ A e.cluster) (hc : A cluster) :
    ∀ e ∈ updateCache cache index cluster, e.cluster = 0 ∨ A e.cluster := by
  intro e he
  rcases List.mem_append.mp he with he | he
  · exact h e (List.mem_of_mem_eraseIdx he)
  · rw [List.mem_singleton.mp he]
    exact .inr hc

theorem vnodeUpdateCache_asks {P : Fv → Prop} (hP : ∀ fv c, P fv → P { fv with clsCache := c })
    {index cluster : Nat} (hc : A cluster) :
    VnAsks Q A P (vnodeUpdateCache index cluster) fun _ => P :=
  .modifyFv fun fv hs hp => ⟨⟨hs.first, updateCache_sound hs.cache hc⟩, hP fv _ hp⟩

theorem bestEntry_sound {cache : List ClsCacheEntry} {start : Nat}
    (h : ∀ e ∈ cache, e.cluster = 0 ∨ A e.cluster) (hs : A start) (skip : Nat) :
    A (bestEntry cache start skip).cluster := by
  have fold : ∀ (cs : List ClsCacheEntry) (best : ClsCacheEntry), (∀ e ∈ cs, e ∈ cache) →
      A best.cluster → A (cs.foldl (bestStep skip) best).cluster := by
    intro cs
    induction cs with
    | nil => exact fun _ _ hb => hb
    | cons e cs ih =>
      intro best hmem hb
      refine ih _ (fun x hx => hmem x (List.mem_cons_of_mem _ hx)) ?_
      unfold bestStep
      split
      · exact hb
      · rename_i he
        split
        · exact (h e (hmem e List.mem_cons_self)).resolve_left he
        · exact hb
  exact fold cache ⟨0, start⟩ (fun _ hx => hx) hs

theorem vnodeSeekCluster_asks (p : Policy fsi Q A) (hg : Geometry fsi) (skip : Nat)
    (fl : NcFlags) : VnAsks Q A (fun fv => A fv.cluster) (vnodeSeekCluster fsi skip fl)
      fun c fv => A c ∧ A fv.cluster := by
  unfold vnodeSeekCluster
  refine .get_bind fun s hs hA => ?_
  have hbest := bestEntry_sound hs.cache hA skip
  have hseek : VnAsks Q A (fun fv => fv = s.fv)
      (if sub32 skip (bestEntry s.fv.clsCache s.fv.cluster skip).index > 0 then
        onVol (seekCluster fsi (bestEntry s.fv.clsCache s.fv.cluster skip).cluster
          (sub32 skip (bestEntry s.fv.clsCache s.fv.cluster skip).index) fl)
      else pure (bestEntry s.fv.clsCache s.fv.cluster skip).cluster)
      fun c fv => A c ∧ fv = s.fv :=
    .ite (fun _ => .onVol (seekCluster_asks p hg (.inl hbest) fl))
      fun _ => .pure fun _ h => ⟨hbest, h⟩
  refine .bind hseek fun c => .bind (R := fun _ fv => A c ∧ A fv.cluster) ?_ fun _ =>
    .pure fun _ h => h
  refine .modifyFv fun fv hfv h => ?_
  obtain ⟨hc, rfl⟩ := h
  exact ⟨⟨hfv.first, updateCache_sound hfv.cache hc⟩, hc, hA⟩

/-! ## Directories -/

theorem getDirent_asks (p : Policy fsi Q A) (hg : Geometry fsi) (offset : Nat) (d : DName)
    (efv : Option Fv) :
    VnAsks Q A (fun _ => True) (getDirent fsi offset d efv) fun _ _ => True := by
  unfold getDirent
  refine .get_bind fun s hs _ => .ite (fun _ => .fail _) fun ht => ?_
  -- only regular files may be without clusters
  have hA : A s.fv.cluster := by
    refine hs.first.resolve_right fun h => ht ?_
    rw [h.2.2]
    decide
  refine .bind ((vnodeSeekCluster_asks p hg _ _).attempt.mono (fun fv h => ?_) fun _ _ h => h)
    fun r => ?_
  · rw [h]
    exact hA
  cases r with
  | error e => exact .fail _
  | ok c =>
    refine .of_pre fun fv h => .bind (.onVol (getDirentLoop_asks p hg _ _ c _ _ (h c rfl).1))
      fun _ => .pure fun _ _ => trivial

theorem allocFirst_asks (p : Policy fsi Q A) (hg : Geometry fsi) :
    VnAsks Q A (fun _ => True) (allocFirst fsi) fun _ _ => True := by
  unfold allocFirst
  refine .bind (.onVol (nextCluster_asks p hg 0 _)) fun c => ?_
  refine .get_bind fun s _ hc => .ite (fun _ => ?_) fun _ => ?_
  · exact .bind (.attempt (.onVol (freeClusters_asks hg c true))) fun _ => .fail _
  · refine .bind (.attempt (.onVol (initDir_asks p hg (p.range c hc.1) _))) fun r => ?_
    cases r with
    | error e => exact .bind (.attempt (.onVol (freeClusters_asks hg c true))) fun _ => .fail _
    | ok _ =>
      refine .bind (.modifyFv (R := fun _ _ => True) fun fv hfv _ => ?_) fun _ =>
        .pure fun _ _ => trivial
      exact ⟨⟨.inl (p.range c hc.1), hfv.cache⟩, trivial⟩

theorem allocFdentry_asks (p : Policy fsi Q A) (hg : Geometry fsi) (num : Nat) :
    VnAsks Q A (fun _ => True) (allocFdentry fsi num) fun _ _ => True := by
  unfold allocFdentry
  refine .get_bind fun s hs _ => .ite (fun _ => ?_) fun hz => ?_
  · exact (allocFirst_asks p hg).mono (fun _ _ => trivial) fun _ _ h => h
  have hA : A s.fv.cluster := hs.first.resolve_right fun h => hz h.1
  refine (VnAsks.onVol (Φ := fun _ => True) ?_).mono (fun _ h => h) fun _ _ _ => trivial
  refine .bind (allocLoop_asks p hg num _ _ _ _ _ hA) fun r _ => ?_
  cases r with
  | error start => exact .pure trivial
  | ok e =>
    exact .ite (fun _ => .bind (growLoop_asks p hg _ _) fun _ _ => .pure trivial)
      fun _ => .pure trivial

/-! ## Files -/

/-- The same for `fat32_read` and `fat32_write`. -/
def RwAsks (Q : List Nat → Prop) (A : Nat → Prop) (P : Fv → Prop) (m : RwM α) (R : α → Fv → Prop) :
    Prop :=
  Maintains (fun t => Q t.vn.vol.io.clusters ∧ Sound A t.vn.fv) (fun t => P t.vn.fv) m
    fun a t => R a t.vn.fv

namespace RwAsks

variable {P P' : Fv → Prop} {m : RwM α} {f : α → RwM β} {R R' : α → Fv → Prop}
  {T : β → Fv → Prop}

theorem pure {a : α} (h : ∀ fv, P fv → R a fv) : RwAsks Q A P (Pure.pure a) R :=
  Maintains.pure fun t _ hp => h t.vn.fv hp

theorem fail (e : Errno) : RwAsks Q A P (Prog.fail e) R := Maintains.fail e

theorem hang : RwAsks Q A P (Prog.hang : RwM α) R := Maintains.hang

theorem bind (hm : RwAsks Q A P m R) (hf : ∀ a, RwAsks Q A (R a) (f a) T) :
    RwAsks Q A P (m >>= f) T := Maintains.bind hm hf

theorem attempt (hm : RwAsks Q A P m R) :
    RwAsks Q A P (Prog.attempt m) fun r fv => ∀ a, r = .ok a → R a fv := Maintains.attempt hm

theorem ite {c : Prop} [Decidable c] {n : RwM α} (hm : c → RwAsks Q A P m R)
    (hn : ¬ c → RwAsks Q A P n R) : RwAsks Q A P (if c then m else n) R := Maintains.ite hm hn

theorem get_bind {f : RwSt → RwM α}
    (h : ∀ t, Sound A t.vn.fv → P t.vn.fv → RwAsks Q A (fun fv => fv = t.vn.fv) (f t) R) :
    RwAsks Q A P (Prog.get >>= f) R :=
  Maintains.get_bind fun t hi hp => Maintains.mono (h t hi.2 hp) (fun u _ hu => by rw [hu])
    fun _ _ _ hr => hr

theorem mono (hm : RwAsks Q A P m R) (hp : ∀ fv, P' fv → P fv) (hr : ∀ a fv, R a fv → R' a fv) :
    RwAsks Q A P' m R' :=
  Maintains.mono hm (fun t _ => hp t.vn.fv) fun a t _ => hr a t.vn.fv

theorem of_pre (h : ∀ fv, P fv → RwAsks Q A P m R) : RwAsks Q A P m R :=
  fun t hi hp => h t.vn.fv hp t hi hp

/-- A change of the request. -/
theorem modify {g : RwSt → RwSt} (h : ∀ t, (g t).vn = t.vn) :
    RwAsks Q A P (Prog.modify g) fun _ => P :=
  Maintains.modify fun t hi hp => by rw [h]; exact ⟨hi, hp⟩

theorem onVn {m : FvM α} (hm : VnAsks Q A P m R) : RwAsks Q A P (Fat32.onVn m) R :=
  fun t hi hp => hm t.vn hi hp

theorem onVol {m : FsM α} {Φ : α → Prop} (hm : Asks Q m Φ) :
    RwAsks Q A P (Fat32.onVn (Fat32.onVol m)) fun a fv => Φ a ∧ P fv := onVn (.onVol hm)

end RwAsks

theorem uiomoveOut_asks {P : Fv → Prop} (data : Nat → UInt8) (n : Nat) :
    RwAsks Q A P (uiomoveOut fsi data n) fun _ => P := by
  unfold uiomoveOut
  exact .bind (.onVol uiomove_asks) fun _ =>
    .mono (.modify (P := P) fun _ => rfl) (fun _ h => h.2) fun _ _ h => h

theorem uiomoveIn_asks {P : Fv → Prop} (data : Nat → UInt8) (o n : Nat) :
    RwAsks Q A P (uiomoveIn fsi data o n) fun _ => P := by
  unfold uiomoveIn
  refine .bind (.onVol uiomove_asks) fun _ => .get_bind fun t _ ht => ?_
  refine .bind (.modify fun _ => rfl) fun _ => .pure fun fv h => ?_
  rw [h]
  exact ht.2

/-- What follows the first access of `readLoop`. -/
theorem readLoop_asks_rest {P : Fv → Prop} (p : Policy fsi Q A) (hg : Geometry fsi) {fuel c skip o rem : Nat}
    (hc : A c)
    (ih : ∀ d skip o rem, A d → RwAsks Q A P (readLoop fsi fuel d skip o rem) fun r _ => A r.2)
    (bp : Buf) : RwAsks Q A P (do
      let bytesToCopy := min (fsi.bytesPerCluster - o) rem
      uiomoveOut fsi (fun i => bp.data (o + i)) bytesToCopy
      let remaining := rem - bytesToCopy
      if remaining = 0 then pure (skip, c) else do
        match ← attempt (onVn (onVol (nextCluster fsi c {}))) with
        | .error _ => fail .eio
        | .ok next => readLoop fsi fuel next (u32 (skip + 1)) 0 remaining) fun r _ => A r.2 := by
  refine .bind (uiomoveOut_asks _ _) fun _ => .ite (fun _ => .pure fun _ _ => hc) fun _ => ?_
  refine .bind (.attempt (.onVol (nextCluster_asks p hg c _))) fun r => ?_
  cases r with
  | error e => exact .fail _
  | ok next =>
    refine .of_pre fun fv h => (ih next _ _ _ (p.range next (h next rfl).1)).mono
      (fun fv h => (h next rfl).2) fun _ _ h => h

theorem readLoop_asks {P : Fv → Prop} (p : Policy fsi Q A) (hg : Geometry fsi) (fuel : Nat) :
    ∀ c skip o rem, A c → RwAsks Q A P (readLoop fsi fuel c skip o rem) fun r _ => A r.2 := by
  induction fuel with
  | zero => exact fun _ _ _ _ _ => .hang
  | succ fuel ih =>
    intro c skip o rem hc
    unfold readLoop
    exact .bind ((RwAsks.onVol (readCluster_asks p hc)).mono (fun _ h => h) fun _ _ h => h.2)
      fun bp => readLoop_asks_rest p hg hc ih bp

/-- `fat32_read` after the checks. -/
theorem readSome_asks (p : Policy fsi Q A) (hg : Geometry fsi) (skip o rem : Nat) :
    RwAsks Q A (fun fv => A fv.cluster) (do
      let cluster ← onVn (vnodeSeekCluster fsi skip {})
      let last ← readLoop fsi rem cluster skip o rem
      onVn (vnodeUpdateCache last.1 last.2)) fun _ _ => True := by
  refine .bind (.onVn (vnodeSeekCluster_asks p hg _ _)) fun c => .of_pre fun fv h => ?_
  refine .bind (readLoop_asks p hg _ c _ _ _ h.1) fun last => .of_pre fun fv h => ?_
  exact .onVn ((vnodeUpdateCache_asks (P := fun _ => True) (fun _ _ h => h) h).mono
    (fun _ _ => trivial) fun _ _ h => h)

theorem read_asks (p : Policy fsi Q A) (hg : Geometry fsi) :
    RwAsks Q A (fun _ => True) (read fsi) fun _ _ => True := by
  unfold read
  refine .get_bind fun t ht _ => .ite (fun _ => .fail _) fun _ => ?_
  refine .bind (.onVn (touchFv_asks true false t.vn.fv)) fun _ => .ite (fun _ => .fail _) fun hneg =>
    .ite (fun _ => .pure fun _ _ => trivial) fun hlt => ?_
  -- the file is not empty, so its first cluster is checked
  have hA : A t.vn.fv.cluster := ht.first.resolve_right fun h => by omega
  refine .mono (P := fun fv => A fv.cluster) ?_ (fun fv h => ?_) fun _ _ h => h
  · split <;> exact .ite (fun _ => .pure fun _ _ => trivial) fun _ => readSome_asks p hg _ _ _
  · rw [h.cluster]
    exact hA

theorem growSize_asks : RwAsks Q A (fun fv => A fv.cluster) growSize fun _ fv => A fv.cluster := by
  refine Maintains.modify fun t hi hA => ?_
  split
  · exact ⟨⟨hi.1, .inl hA, hi.2.cache⟩, hA⟩
  · exact ⟨hi, hA⟩

/-- What follows the first access of `writeLoop`. -/
theorem writeLoop_asks_rest (p : Policy fsi Q A) (hg : Geometry fsi) {fuel c : Nat}
    (skip o rem : Nat) (hc : A c)
    (ih : ∀ d skip o rem, A d → RwAsks Q A (fun fv => A fv.cluster)
      (writeLoop fsi fuel d skip o rem) fun r _ => A r.2)
    (bp : Buf) : RwAsks Q A (fun fv => A fv.cluster) (do
      let bytesToCopy := min (fsi.bytesPerCluster - o) rem
      let data ← uiomoveIn fsi bp.data o bytesToCopy
      onVn (onVol (bdwrite { bp with data := data }))
      growSize
      let remaining := rem - bytesToCopy
      if remaining = 0 then pure (skip, c) else do
        let next ← onVn (onVol (nextCluster fsi c { alloc := true }))
        writeLoop fsi fuel next (u32 (skip + 1)) 0 remaining) fun r _ => A r.2 := by
  refine .bind (uiomoveIn_asks _ _ _) fun data => ?_
  refine .bind ((RwAsks.onVol (bdwrite_asks _)).mono (fun _ h => h) fun _ _ h => h.2) fun _ => ?_
  refine .bind growSize_asks fun _ => .ite (fun _ => .pure fun _ _ => hc) fun _ => ?_
  refine .bind (.onVol (nextCluster_asks p hg c _)) fun next => .of_pre fun fv h => ?_
  exact (ih next _ _ _ (p.range next h.1)).mono (fun _ h => h.2) fun _ _ h => h

theorem writeLoop_asks (p : Policy fsi Q A) (hg : Geometry fsi) (fuel : Nat) :
    ∀ c skip o rem, A c → RwAsks Q A (fun fv => A fv.cluster) (writeLoop fsi fuel c skip o rem)
      fun r _ => A r.2 := by
  induction fuel with
  | zero => exact fun _ _ _ _ _ => .hang
  | succ fuel ih =>
    intro c skip o rem hc
    unfold writeLoop
    exact .bind ((RwAsks.onVol (readCluster_asks p hc)).mono (fun _ h => h) fun _ _ h => h.2)
      fun bp => writeLoop_asks_rest p hg skip o rem hc ih bp

/-- `fat32_write` after the first cluster is there. -/
theorem writeSome_asks (p : Policy fsi Q A) (hg : Geometry fsi) (skip o rem : Nat) :
    RwAsks Q A (fun fv => A fv.cluster) (do
      let cluster ← onVn (vnodeSeekCluster fsi skip { alloc := true })
      let last ← writeLoop fsi rem cluster skip o rem
      onVn (vnodeUpdateCache last.1 last.2)) fun _ _ => True := by
  refine .bind (.onVn (vnodeSeekCluster_asks p hg _ _)) fun c => .of_pre fun fv h => ?_
  refine .bind ((writeLoop_asks p hg _ c _ _ _ h.1).mono (fun _ h => h.2) fun _ _ h => h)
    fun last => .of_pre fun fv h => ?_
  exact .onVn ((vnodeUpdateCache_asks (P := fun _ => True) (fun _ _ h => h) h).mono
    (fun _ _ => trivial) fun _ _ h => h)

theorem writeFirst_asks (p : Policy fsi Q A) (hg : Geometry fsi) :
    VnAsks Q A (fun _ => True) (writeFirst fsi) fun _ fv => A fv.cluster := by
  unfold writeFirst
  refine .get_bind fun s hs _ => .ite (fun _ => ?_) fun hz => .pure fun fv h => ?_
  · refine .bind (.onVol (nextCluster_asks p hg 0 _)) fun c => .modifyFv fun fv hfv h => ?_
    have hc := p.range c h.1
    exact ⟨⟨.inl hc, hfv.cache⟩, hc⟩
  · rw [h]
    exact hs.first.resolve_right fun h => hz h.1

theorem write_asks (p : Policy fsi Q A) (hg : Geometry fsi) (append : Bool) :
    RwAsks Q A (fun _ => True) (write fsi append) fun _ _ => True := by
  unfold write
  refine .get_bind fun t _ _ => .ite (fun _ => .fail _) fun _ => ?_
  refine .bind (.onVn (touchFv_asks false true t.vn.fv)) fun _ =>
    .ite (fun _ => .pure fun _ _ => trivial) fun _ => ?_
  refine .bind (.modify fun _ => rfl) fun _ => ?_
  refine .bind (.onVn ((writeFirst_asks p hg).mono (fun _ _ => trivial) fun _ _ h => h)) fun _ => ?_
  exact writeSome_asks p hg _ _ _

/-! ## Runs through a vnode -/

/-- The calls that read or write data through a vnode. -/
inductive DataOp where
  | read (uio : Uio)
  | write (append : Bool) (uio : Uio)
  | getDirent (offset : Nat) (dName : DName) (entryFv : Option Fv)
  | allocFdentry (num : Nat)

/-- The state after a call. -/
def DataOp.exec (fsi : Fsi) (s : VnSt) : DataOp → VnSt
  | read uio => (Fat32.read fsi ⟨s, uio⟩).2.vn
  | write append uio => (Fat32.write fsi append ⟨s, uio⟩).2.vn
  | getDirent offset dName entryFv => (Fat32.getDirent fsi offset dName entryFv s).2
  | allocFdentry num => (Fat32.allocFdentry fsi num s).2

def dataRun (fsi : Fsi) (s : VnSt) (ops : List DataOp) : VnSt := ops.foldl (DataOp.exec fsi) s

theorem DataOp.asks (p : Policy fsi Q A) (hg : Geometry fsi) (op : DataOp) {s : VnSt}
    (h : Q s.vol.io.clusters ∧ Sound A s.fv) :
    Q (op.exec fsi s).vol.io.clusters ∧ Sound A (op.exec fsi s).fv := by
  cases op with
  | read uio => exact (read_asks p hg ⟨s, uio⟩ h trivial).1
  | write append uio => exact (write_asks p hg append ⟨s, uio⟩ h trivial).1
  | getDirent offset dName entryFv => exact (getDirent_asks p hg offset dName entryFv s h trivial).1
  | allocFdentry num => exact (allocFdentry_asks p hg num s h trivial).1

theorem dataRun_asks (p : Policy fsi Q A) (hg : Geometry fsi) (ops : List DataOp) : ∀ {s : VnSt},
    Q s.vol.io.clusters ∧ Sound A s.fv → Q (dataRun fsi s ops).vol.io.clusters := by
  induction ops with
  | nil => exact fun h => h.1
  | cons op ops ih => exact fun h => ih (op.asks p hg h)

/-- The blocks of the cluster, as the code computes them, are in the data area. -/
def InArea (fsi : Fsi) (c : Nat) : Prop :=
  fsi.dataStart ≤ clusterToSector fsi c ∧
    clusterToSector fsi c + fsi.sectorsPerCluster ≤
      fsi.dataStart + fsi.clusterCount * fsi.sectorsPerCluster

instance (fsi : Fsi) (c : Nat) : Decidable (InArea fsi c) :=
  inferInstanceAs (Decidable (_ ∧ _))

theorem InRange.inArea (hg : Geometry fsi) {c : Nat} (h : InRange fsi c) : InArea fsi c := by
  have hmul : (c - 2) * fsi.sectorsPerCluster + fsi.sectorsPerCluster ≤
      fsi.clusterCount * fsi.sectorsPerCluster := by
    rw [← Nat.succ_mul]
    exact Nat.mul_le_mul_right _ (by have := h.1; have := h.2; omega)
  rw [InArea, clusterToSector_eq hg h]
  omega

theorem makeVnode_fields {cluster : Nat} {type : Vtype} {fv fv' : Fv} {parent : Option (Nat × Nat)}
    {v v' : Vol} (h : makeVnode fsi cluster type fv parent v = (.ok fv', v')) :
    fv'.cluster = cluster ∧ fv'.type = type ∧ fv'.size = fv.size ∧ fv'.clsCache = fv.clsCache := by
  unfold makeVnode at h
  rw [bind_run] at h
  rcases hv : vnAlloc fsi v with ⟨(_ | vp) | _ | _, v1⟩ <;> rw [hv] at h
  · exact nomatch h
  · obtain rfl := Out.ok.inj (Prod.mk.inj h).1
    exact ⟨rfl, rfl, rfl, rfl⟩
  · exact nomatch h
  · exact nomatch h

/-- `fv` is a vnode that `fat32_lookup` makes of the 8.3 entry `e`. -/
def FromEntry (fsi : Fsi) (e : Slot) (fv : Fv) : Prop :=
  ∃ dirCluster st parent v v',
    makeVnode fsi (fillEntry dirCluster e st (vnodeNew fsi)).cluster
      (fillEntry dirCluster e st (vnodeNew fsi)).type (fillEntry dirCluster e st (vnodeNew fsi))
      parent v = (.ok fv, v')

/-- What of the entry its vnode has. -/
theorem FromEntry.fields {e : Slot} {fv : Fv} (h : FromEntry fsi e fv) :
    fv.cluster = e.firstCluster ∧ fv.size = e.fileSize ∧
      fv.type = (if e.attr &&& attrDirectory ≠ 0 then .vdir else .vreg) ∧
      fv.clsCache = emptyCache := by
  obtain ⟨dirCluster, st, parent, v, v', h⟩ := h
  obtain ⟨hc, ht, hs, hca⟩ := makeVnode_fields h
  refine ⟨hc, hs, ?_, hca⟩
  rw [ht, fillEntry]
  simp only [decide_eq_true_eq]

/-- The vnode structure that a search fills is that of an 8.3 entry. -/
theorem getDirent_entry (dirCluster offset : Nat) (d : DName) (fv : Fv) :
    Maintains (fun s => s.fv.cluster = dirCluster) (fun _ => True) (getDirent fsi offset d (some fv))
      fun out _ => ∃ e st, out.entryFv = some (fillEntry dirCluster e st fv) := by
  have hkeep {α : Type} {P : VnSt → Prop} {m : FvM α} (hm : Caches m) :
      Maintains (fun s => s.fv.cluster = dirCluster) P m fun _ _ => True :=
    hm.maintains fun s t h hs => h.cluster.trans hs
  unfold getDirent
  refine .get_bind fun s hs _ => .ite (fun _ => .fail _) fun _ =>
    .bind (hkeep (.attempt (vnodeSeekCluster_caches _ _))) fun r => ?_
  cases r with
  | error e => exact .fail _
  | ok c =>
    refine .bind (hkeep (.onVol _)) fun x => .pure fun _ _ _ => ⟨x.1, x.2, ?_⟩
    rw [hs]
    rfl

theorem findDirent_entry (dirCluster : Nat) (nm : List UInt8) :
    Maintains (fun s => s.fv.cluster = dirCluster) (fun _ => True) (findDirent fsi nm (vnodeNew fsi))
      fun fv _ => ∃ e st, fv = fillEntry dirCluster e st (vnodeNew fsi) := by
  have hloop (name : List UInt8) (n : Nat) : ∀ o d fv, fv.clsCache = emptyCache →
      Maintains (fun s => s.fv.cluster = dirCluster) (fun _ => True) (findLoop fsi name n o d fv)
        fun fv _ => ∃ e st, fv = fillEntry dirCluster e st (vnodeNew fsi) := by
    induction n with
    | zero => exact fun _ _ _ _ => .hang
    | succ n ih =>
      intro o d fv hfv
      have hreset : vnodeReset fsi fv = vnodeNew fsi := by
        rw [vnodeReset, hfv]
        rfl
      unfold findLoop
      rw [hreset]
      refine .bind (getDirent_entry dirCluster _ _ _) fun out t ht hout => ?_
      obtain ⟨e, st, hout⟩ := hout
      rw [hout]
      refine Maintains.ite (fun _ => .pure fun _ _ _ => ⟨e, st, rfl⟩)
        (fun _ => ih _ _ _ rfl) t ht trivial
  unfold findDirent
  exact .get_bind fun s _ _ => .ite (fun _ => .fail _) fun _ =>
    .mono (hloop _ _ _ _ _ rfl) (fun _ _ _ => trivial) fun _ _ _ h => h

theorem attach_vnode (fv : Fv) : Maintains (fun _ => True) (fun _ => True) (attach fv)
    fun r s => ∀ p, r = some p → s.vnodes p = some fv := by
  unfold attach
  split
  · exact .pure fun _ _ _ => nofun
  · rename_i vp _
    refine .bind (Q := fun _ s => s.vnodes vp = some fv)
      (.modify fun s _ _ => ⟨trivial, Function.update_self _ _ _⟩) fun _ => ?_
    have hres : ∀ s : Sys, s.vnodes vp = some fv → ∀ p, some vp = some p → s.vnodes p = some fv := by
      intro s hs p hp
      rw [← Option.some.inj hp]
      exact hs
    split
    · exact .pure fun s _ hs => hres s hs
    · exact .bind (.modify fun s _ hs => ⟨trivial, hs⟩) fun _ => .pure fun s _ hs => hres s hs

theorem makeEntryVnode_fromEntry (dir : Fv) {dirCluster : Nat} {e : Slot} {st : Scan} :
    Maintains (fun _ => True) (fun _ => True)
      (makeEntryVnode fsi dir (fillEntry dirCluster e st (vnodeNew fsi)))
      fun r s => ∀ p, r = some p → ∃ e fv, FromEntry fsi e fv ∧ s.vnodes p = some fv := by
  unfold makeEntryVnode
  refine .bind (Q := fun fv _ => FromEntry fsi e fv) (fun s _ _ => ⟨trivial, fun fv hfv => ?_⟩)
    fun fv => ?_
  · exact ⟨dirCluster, st, _, s.vol, _, Prod.ext hfv rfl⟩
  · intro s hs hfv
    obtain ⟨ht, hr⟩ := attach_vnode fv s hs trivial
    exact ⟨ht, fun r h p hp => ⟨e, fv, hfv, hr r h p hp⟩⟩

/-- What `fat32_lookup` of a name other than `.` and `..` returns is a vnode of an entry. -/
theorem lookup_fromEntry {s s' : Sys} {dir p : Nat} {nm : List UInt8} (hdot : isDot nm = false)
    (h : lookup fsi dir nm s = (.ok (some p), s')) :
    ∃ e fv, FromEntry fsi e fv ∧ s'.vnodes p = some fv := by
  have hdot' : ¬ (nm = [46] ∨ nm = [46, 46]) := of_decide_eq_false hdot
  have key : Maintains (fun _ => True) (fun _ => True) (lookup fsi dir nm)
      fun r s => ∀ p, r = some p → ∃ e fv, FromEntry fsi e fv ∧ s.vnodes p = some fv := by
    unfold lookup
    refine .bind (.any _) fun dirFv => .ite (fun _ => .fail _) fun _ =>
      .ite (fun h => absurd (.inl h) hdot') fun _ => .ite (fun h => absurd (.inr h) hdot') fun _ => ?_
    refine .bind (Q := fun fv _ => ∃ dirCluster e st, fv = fillEntry dirCluster e st (vnodeNew fsi))
      (fun t _ _ => ⟨trivial, fun fv hfv => ?_⟩) fun fv t ht hfv => ?_
    · unfold onVnode at hfv
      split at hfv
      · exact nomatch hfv
      · rename_i dfv _
        exact ⟨dfv.cluster, ((findDirent_entry dfv.cluster nm) _ rfl trivial).2 fv hfv⟩
    · obtain ⟨dirCluster, e, st, rfl⟩ := hfv
      exact makeEntryVnode_fromEntry dirFv t ht trivial
  have hs := (key s trivial trivial).2 (some p)
  rw [h] at hs
  exact hs rfl p rfl

/-- The count of the clusters asked for starts anew. -/
def Vol.uncounted (v : Vol) : Vol := { v with io := { v.io with clusters := [] } }

/-- The entry leads to no cluster outside the data area. -/
def EntryInArea (fsi : Fsi) (e : Slot) : Prop :=
  InArea fsi e.firstCluster ∨
    e.firstCluster = 0 ∧ e.fileSize = 0 ∧ e.attr &&& attrDirectory = 0

theorem dataRun_inArea (hg : Geometry fsi) {e : Slot} {fv : Fv} (h : FromEntry fsi e fv)
    (he : EntryInArea fsi e) (v : Vol) (ops : List DataOp) :
    ∀ c ∈ (dataRun fsi ⟨v.uncounted, fv⟩ ops).vol.io.clusters, InArea fsi c := by
  obtain ⟨hc, hs, ht, hca⟩ := h.fields
  have p : Policy fsi (fun l => ∀ c ∈ l, InArea fsi c) (InArea fsi) :=
    ⟨fun l c hl hc => List.forall_mem_cons.mpr ⟨hc, hl⟩, fun c hc => hc.inArea hg⟩
  refine dataRun_asks p hg ops ⟨nofun, ?_, ?_⟩
  · rw [hc, hs, ht]
    refine he.imp_right fun h => ⟨h.1, h.2.1, ?_⟩
    rw [if_neg (not_not.mpr h.2.2)]
  · rw [hca]
    exact fun e he => .inl (by rw [(List.mem_replicate.mp he).2])

/-! ### A first cluster outside the data area -/

theorem anyPolicy (fsi : Fsi) (c : Nat) : Policy fsi (c ∈ ·) fun _ => True :=
  ⟨fun _ _ h _ => List.mem_cons_of_mem _ h, fun _ _ => trivial⟩

theorem Sound.any (fv : Fv) : Sound (fun _ => True) fv := ⟨.inl trivial, fun _ _ => .inr trivial⟩

theorem readCluster_asked (c : Nat) (v : Vol) :
    WP (readCluster fsi c) v fun _ v' => c ∈ v'.io.clusters := by
  have h (_ : Unit) : Asks (c ∈ ·) (bread fsi (clusterToSector fsi c) fsi.sectorsPerCluster)
    fun _ => True := bread_asks _ _
  exact .after (I := fun v : Vol => c ∈ v.io.clusters) (.of_run rfl List.mem_cons_self) h

/-- With an empty cache the seek to the first cluster gives the first cluster. -/
theorem vnodeSeekCluster_first {s : VnSt} (h : s.fv.clsCache = emptyCache) (fl : NcFlags) :
    vnodeSeekCluster fsi 0 fl s = (.ok s.fv.cluster,
      ⟨s.vol, { s.fv with clsCache := updateCache s.fv.clsCache 0 s.fv.cluster }⟩) := by
  have hbest : bestEntry s.fv.clsCache s.fv.cluster 0 = ⟨0, s.fv.cluster⟩ := by
    rw [h]
    rfl
  have hskip : ¬ sub32 0 0 > 0 := by decide
  rw [vnodeSeekCluster, get_bind_run, hbest]
  dsimp only
  rw [if_neg hskip]
  rfl

theorem getDirentLoop_asked (hg : Geometry fsi) (dn fuel c o : Nat) (st : Scan) (v : Vol) :
    WP (getDirentLoop fsi dn (fuel + 1) c o st) v fun _ v' => c ∈ v'.io.clusters := by
  have p := anyPolicy fsi c
  unfold getDirentLoop
  refine .after (I := fun v : Vol => c ∈ v.io.clusters) (R := fun _ _ => True)
    (readCluster_asked c v) fun bp => ?_
  show Asks (c ∈ ·) _ fun _ => True
  split
  · exact .fail _
  · exact .pure trivial
  · refine .bind (nextCluster_asks p hg c {}).attempt fun r _ => ?_
    cases r with
    | error e => exact .fail _
    | ok next => exact getDirentLoop_asks p hg _ _ next 0 _ trivial

theorem getDirent_asked (hg : Geometry fsi) (hfuel : 0 < fsi.kernel.fuel) {s : VnSt}
    (ht : s.fv.type = .vdir) (hc : s.fv.clsCache = emptyCache) (d : DName) (efv : Option Fv) :
    WP (getDirent fsi 0 d efv) s fun _ s' => s.fv.cluster ∈ s'.vol.io.clusters := by
  obtain ⟨fuel, hn⟩ := Nat.exists_eq_add_of_le' hfuel
  unfold getDirent
  refine .get_bind (.ite (fun h => absurd ht h) fun _ => ?_)
  have hskip : 0 >>> fsi.clusterShift = 0 := Nat.zero_shiftRight _
  rw [hskip, hn]
  refine .ok_bind (attempt_ok (vnodeSeekCluster_first hc {})) ?_
  exact .after (I := fun t : VnSt => s.fv.cluster ∈ t.vol.io.clusters) (R := fun _ _ => True)
    (.on (getDirentLoop_asked hg _ _ _ _ _ _)) fun _ => .pure fun _ _ _ => trivial

theorem touchFv_way (fsi : Fsi) (a m : Bool) (s : VnSt) :
    ∃ s', touchFv fsi a m s = (.ok (), s') ∧ SameWay s.fv s'.fv := by
  obtain ⟨fv', v', e, -, hfv⟩ := touch_ok fsi a m s.fv s.vol
  refine ⟨⟨v', fv'⟩, bind_ok (f := fun fv => modifyFv fun _ => fv) (onVol_run e), ?_⟩
  constructor <;> rw [hfv]

/-- The position 0, as `fat32_read` and `fat32_write` split it. -/
theorem lo32_zero (fsi : Fsi) : lo32 ((0 : Int) >>> fsi.clusterShift) = 0 ∧
    lo32 0 &&& fsi.clusterMask = 0 := by
  have h : lo32 0 = 0 := by decide
  rw [Int.zero_shiftRight, h]
  exact ⟨rfl, Nat.zero_and _⟩

/-- Something was asked for through the vnode of a transfer. -/
abbrev RwAsked (c : Nat) (t : RwSt) : Prop := c ∈ t.vn.vol.io.clusters ∧ Sound (fun _ => True) t.vn.fv

theorem readCluster_rwAsked (c : Nat) (t : RwSt) :
    WP (onVn (onVol (readCluster fsi c))) t fun _ t' => RwAsked c t' :=
  .on (.on ((readCluster_asked c _).mono fun _ _ h => ⟨h, .any _⟩))

theorem vnodeUpdateCache_any (c index cluster : Nat) :
    Maintains (RwAsked c) (fun _ => True) (onVn (vnodeUpdateCache index cluster)) fun _ _ => True :=
  RwAsks.onVn (R := fun _ _ => True)
    (vnodeUpdateCache_asks (P := fun _ => True) (fun _ _ h => h) trivial)

theorem readLoop_asked (hg : Geometry fsi) (fuel c skip o rem : Nat) (t : RwSt) :
    WP (readLoop fsi (fuel + 1) c skip o rem) t fun _ t' => RwAsked c t' := by
  have p := anyPolicy fsi c
  unfold readLoop
  exact .after (readCluster_rwAsked c t) (readLoop_asks_rest (P := fun _ => True) p hg trivial
    fun _ _ _ _ h => readLoop_asks p hg _ _ _ _ _ h)

/-- A transfer from position 0 on starts with the first cluster. -/
theorem readSome_asked (hg : Geometry fsi) {t : RwSt} (hc : t.vn.fv.clsCache = emptyCache)
    {skip o rem : Nat} (hs : skip = 0) (hr : rem ≠ 0) :
    WP (do
      let cluster ← onVn (vnodeSeekCluster fsi skip {})
      let last ← readLoop fsi rem cluster skip o rem
      onVn (vnodeUpdateCache last.1 last.2)) t fun _ t' => RwAsked t.vn.fv.cluster t' := by
  subst hs
  obtain ⟨fuel, rfl⟩ := Nat.exists_eq_succ_of_ne_zero hr
  refine .ok_bind (onVn_run (vnodeSeekCluster_first hc {})) ?_
  exact .after (R := fun _ _ => True) (readLoop_asked hg _ _ _ _ _ _)
    fun last => vnodeUpdateCache_any _ _ _

theorem read_asked (hg : Geometry fsi) {s : VnSt} (ht : s.fv.type = .vreg)
    (hc : s.fv.clsCache = emptyCache) (hs : s.fv.size ≠ 0) :
    WP (read fsi) ⟨s, oneByte⟩ fun _ t => RwAsked s.fv.cluster t := by
  obtain ⟨s1, e1, w1⟩ := touchFv_way fsi true false s
  unfold read
  refine .get_bind (.ite (fun h => absurd ht h) fun _ => .ok_bind (onVn_run e1) ?_)
  refine .ite (fun h => absurd (show (0 : Int) < 0 from h) (by decide)) fun _ =>
    .ite (fun h => ?_) fun _ => .ite (fun h => ?_) fun hr => ?_
  · have h0 : (0 : Int) ≥ s.fv.size := h
    omega
  · have h1 : (if (0 : Int) + (1 : Nat) > s.fv.size then ((s.fv.size : Int) - 0).toNat else 1) = 0 :=
      h
    split at h1 <;> omega
  · rw [← w1.cluster]
    exact readSome_asked (t := ⟨s1, oneByte⟩) hg (w1.cache.trans hc) (lo32_zero fsi).1 hr

theorem writeLoop_asked (hg : Geometry fsi) (fuel c skip o rem : Nat) (t : RwSt) :
    WP (writeLoop fsi (fuel + 1) c skip o rem) t fun _ t' => RwAsked c t' := by
  have p := anyPolicy fsi c
  have hrest (bp : Buf) := writeLoop_asks_rest (c := c) p hg skip o rem trivial
    (fun d skip o rem _ => writeLoop_asks p hg fuel d skip o rem trivial) bp
  unfold writeLoop
  exact .after (readCluster_rwAsked c t) hrest

theorem writeSome_asked (hg : Geometry fsi) {t : RwSt} (hc : t.vn.fv.clsCache = emptyCache)
    {skip o rem : Nat} (hs : skip = 0) (hr : rem ≠ 0) :
    WP (do
      let cluster ← onVn (vnodeSeekCluster fsi skip { alloc := true })
      let last ← writeLoop fsi rem cluster skip o rem
      onVn (vnodeUpdateCache last.1 last.2)) t fun _ t' => RwAsked t.vn.fv.cluster t' := by
  subst hs
  obtain ⟨fuel, rfl⟩ := Nat.exists_eq_succ_of_ne_zero hr
  refine .ok_bind (onVn_run (vnodeSeekCluster_first hc { alloc := true })) ?_
  exact .after (R := fun _ _ => True) (writeLoop_asked hg _ _ _ _ _ _)
    fun last => vnodeUpdateCache_any _ _ _

theorem write_asked (hg : Geometry fsi) {s : VnSt} (ht : s.fv.type = .vreg)
    (hc : s.fv.clsCache = emptyCache) (hs : s.fv.cluster ≠ 0) :
    WP (write fsi false) ⟨s, oneByte⟩ fun _ t => RwAsked s.fv.cluster t := by
  obtain ⟨s1, e1, w1⟩ := touchFv_way fsi false true s
  have hfirst : writeFirst fsi s1 = (.ok (), s1) := by
    rw [writeFirst, get_bind_run, if_neg (by rw [w1.cluster]; exact hs)]
    rfl
  unfold write
  refine .get_bind (.ite (fun h => absurd ht h) fun _ => .ok_bind (onVn_run e1) ?_)
  refine .ite (fun h => absurd (show (1 : Nat) = 0 from h) (by decide)) fun hr => ?_
  refine .ok_bind rfl (.ok_bind (onVn_run hfirst) ?_)
  rw [← w1.cluster]
  exact writeSome_asked (t := ⟨s1, _⟩) hg (w1.cache.trans hc) (lo32_zero fsi).1 hr

/-- All data that calls through the vnode of an entry ask for is in the data area, on
every volume and in every run, if and only if the entry leads there. -/
theorem dataRun_inArea_iff (hg : Geometry fsi) (hfuel : 0 < fsi.kernel.fuel) {e : Slot} {fv : Fv}
    (h : FromEntry fsi e fv) (v : Vol) :
    (∀ ops, ∀ c ∈ (dataRun fsi ⟨v.uncounted, fv⟩ ops).vol.io.clusters, InArea fsi c) ↔
      EntryInArea fsi e := by
  refine ⟨fun hall => ?_, fun he ops => dataRun_inArea hg h he v ops⟩
  obtain ⟨hc, hs, ht, hca⟩ := h.fields
  by_contra hno
  obtain ⟨hnA, hn⟩ := not_or.mp hno
  rw [← hc] at hnA hn
  rw [← hs] at hn
  by_cases hd : e.attr &&& attrDirectory = 0
  case neg =>
    rw [if_pos hd] at ht
    have hask := getDirent_asked hg hfuel (s := ⟨v.uncounted, fv⟩) ht hca ⟨fun _ => 0, 0⟩ none
    unfold WP at hask
    exact hnA (hall [.getDirent 0 ⟨fun _ => 0, 0⟩ none] _ hask)
  rw [if_neg (not_not.mpr hd)] at ht
  by_cases hz : fv.cluster = 0
  · have hask := read_asked hg (s := ⟨v.uncounted, fv⟩) ht hca fun hsz => hn ⟨hz, hsz, hd⟩
    unfold WP at hask
    exact hnA (hall [.read oneByte] _ hask.1)
  · have hask := write_asked hg (s := ⟨v.uncounted, fv⟩) ht hca hz
    unfold WP at hask
    exact hnA (hall [.write false oneByte] _ hask.1)

theorem small_geometry : Geometry (small 2) := by
  constructor <;> decide

/-- The entry of a file of one byte, and its vnode. -/
def fileEntry : Slot := shortEntry 65 0 3 1

def fileEntryFv : Fv :=
  { fillEntry 2 fileEntry { offset := 0, name := ⟨fun _ => 0, 0⟩ } (vnodeNew (small 2)) with
    vnode := some 0, parentCluster := 0, flags := {} }

theorem dataRun_inArea_iff_file :
    (∀ ops, ∀ c ∈ (dataRun (small 2) ⟨(image [clusterEoc, clusterEoc] fun _ => []).uncounted,
      fileEntryFv⟩ ops).vol.io.clusters, InArea (small 2) c) ↔ EntryInArea (small 2) fileEntry := by
  have h : FromEntry (small 2) fileEntry fileEntryFv :=
    ⟨2, { offset := 0, name := ⟨fun _ => 0, 0⟩ }, none, image [] fun _ => [], _, rfl⟩
  exact dataRun_inArea_iff small_geometry (by decide) h (image [clusterEoc, clusterEoc] fun _ => [])

/-- A file whose entry has the first cluster 1: the blocks of that cluster are the FAT. -/
def wrongVol : Vol := image [clusterEoc, clusterEoc] fun c =>
  if c = 2 then [shortEntry 65 0 1 1] else []

theorem write_overwrites_fat :
    let s := mounted (small 2) wrongVol
    let s' := runOps (small 2) s [.lookup 0 [65], .write 1 false oneByte]
    Geometry (small 2) ∧ 1 ∈ s'.vol.io.clusters ∧ ¬ InArea (small 2) 1 ∧
      s'.vol.disk (512 * (small 2).fatStart) ≠ s.vol.disk (512 * (small 2).fatStart) := by
  refine ⟨small_geometry, ?_⟩
  decide +kernel

end Fat32
