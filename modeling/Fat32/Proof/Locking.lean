import Mathlib
import Fat32.Impl.Locking

/-!
# When the locks cannot deadlock

`fsi_lock` is the innermost lock: nothing is taken while it is held. The locks of
vnodes are taken upwards in an order that has every vnode above its parent and the
target directory of a rename above its source directory, as long as no `rename`
removes an existing target (`Allowed`). Then no run comes to a cycle of waiting
calls (`calls_no_cycle`). A `rename` that removes its target asks for the lock of
the target directory, which it holds.
-/

namespace Fat32.Locking

open Locks Computability

variable {V α : Type} [DecidableEq V] [Preorder α] {rank : V → α} {parent : V → Option V}
  {held : List (Lock V × Mode)} {P Q : Paths V} {l : Lock V} {m : Mode}

/-- The order of the locks: `fsi_lock` is above those of the vnodes. -/
def lockRank (rank : V → α) : Lock V → WithTop α
  | .vnode v => rank v
  | .fsi => ⊤

/-- Every path of `P` may be taken with the locks `held`, and returns with them. -/
def Neutral (rank : V → α) (held : List (Lock V × Mode)) (P : Paths V) : Prop :=
  ∀ w ∈ P, ∀ p, Upward (lockRank rank) held p → Upward (lockRank rank) held (w ++ p)

namespace Neutral

theorem one : Neutral rank held 1 := by
  intro w hw p hp
  rw [Language.mem_one] at hw
  rwa [hw]

theorem add (hP : Neutral rank held P) (hQ : Neutral rank held Q) : Neutral rank held (P + Q) := by
  intro w hw
  obtain hw | hw := (Language.mem_add P Q w).mp hw
  · exact hP w hw
  · exact hQ w hw

theorem mul (hP : Neutral rank held P) (hQ : Neutral rank held Q) : Neutral rank held (P * Q) := by
  intro w hw p hp
  obtain ⟨a, ha, b, hb, rfl⟩ := Language.mem_mul.mp hw
  rw [List.append_assoc]
  exact hP a ha _ (hQ b hb p hp)

theorem star (hP : Neutral rank held P) : Neutral rank held P∗ := by
  intro w hw p hp
  obtain ⟨ws, rfl, hws⟩ := Language.mem_kstar.mp hw
  clear hw
  induction ws with
  | nil => exact hp
  | cons a ws ih =>
    rw [List.flatten_cons, List.append_assoc]
    exact hP a (hws a List.mem_cons_self) _ (ih fun y hy => hws y (List.mem_cons_of_mem _ hy))

theorem ite {c : Prop} [Decidable c] (hP : c → Neutral rank held P) (hQ : ¬ c → Neutral rank held Q) :
    Neutral rank held (if c then P else Q) := by
  by_cases h : c
  · rw [if_pos h]; exact hP h
  · rw [if_neg h]; exact hQ h

end Neutral

/-- All locks held are below `l`. -/
def AllBelow (rank : V → α) (held : List (Lock V × Mode)) (l : Lock V) : Prop :=
  ∀ x ∈ held, lockRank rank x.1 < lockRank rank l

/-- A lock above all that are held, once released, is gone. -/
theorem AllBelow.drop (h : AllBelow rank held l) (m : Mode) : drop l ((l, m) :: held) = held := by
  unfold Locks.drop
  rw [List.filter_cons_of_neg (by simp), List.filter_eq_self]
  intro x hx
  have hne : x.1 ≠ l := fun e => lt_irrefl _ (e ▸ h x hx)
  exact decide_eq_true hne

theorem Neutral.locked (hb : AllBelow rank held l) (hP : Neutral rank ((l, m) :: held) P) :
    Neutral rank held (locked l m P) := by
  intro w hw p hp
  obtain ⟨a, ha, b, hb', rfl⟩ := Language.mem_mul.mp hw
  obtain ⟨c, hc, d, hd, rfl⟩ := Language.mem_mul.mp ha
  obtain rfl := Set.mem_singleton_iff.mp hc
  obtain rfl := Set.mem_singleton_iff.mp hb'
  rw [List.append_assoc, List.append_assoc]
  refine ⟨hb, hP d hd _ ?_⟩
  show Upward _ (drop l ((l, m) :: held)) p
  rwa [hb.drop m]

/-! ## The functions below the operations -/

/-- Only locks of vnodes are held. -/
def NoFsi (held : List (Lock V × Mode)) : Prop := ∀ x ∈ held, x.1 ≠ .fsi

omit [DecidableEq V] in
theorem NoFsi.below (h : NoFsi held) : AllBelow rank held .fsi := by
  intro x hx
  have hne := h x hx
  rcases hv : x.1 with v | _
  · exact WithTop.coe_lt_top _
  · exact absurd hv hne

omit [DecidableEq V] in
theorem NoFsi.cons (h : NoFsi held) (v : V) (m : Mode) : NoFsi ((.vnode v, m) :: held) :=
  List.forall_mem_cons.mpr ⟨nofun, h⟩

section Below

variable (h : NoFsi held)
include h

theorem nextCluster_neutral : Neutral rank held nextCluster :=
  .add (.add .one (.mul (.locked h.below .one) (.add .one (.locked h.below .one))))
    (.locked h.below .one)

theorem freeClusters_neutral : Neutral rank held freeClusters := .add .one (.locked h.below .one)

theorem seekCluster_neutral : Neutral rank held seekCluster := .star (nextCluster_neutral h)

theorem walk_neutral : Neutral rank held (seekCluster * nextCluster∗) :=
  .mul (seekCluster_neutral h) (.star (nextCluster_neutral h))

theorem truncate_neutral : Neutral rank held truncate :=
  .add (freeClusters_neutral h) (.mul (.mul (.mul (nextCluster_neutral h) (seekCluster_neutral h))
    (nextCluster_neutral h)) (freeClusters_neutral h))

theorem scan_neutral : Neutral rank held scan := .star (walk_neutral h)

theorem initDir_neutral : Neutral rank held initDir :=
  .add .one (.mul (seekCluster_neutral h) (.add .one (seekCluster_neutral h)))

theorem allocFdentry_neutral : Neutral rank held allocFdentry :=
  .add (.mul (nextCluster_neutral h) (.add (.add .one (freeClusters_neutral h))
    (.mul (initDir_neutral h) (.add .one (freeClusters_neutral h))))) (.star (nextCluster_neutral h))

theorem createFdentry_neutral : Neutral rank held createFdentry :=
  .mul (.mul (.add .one (allocFdentry_neutral h))
    (.add .one (.mul (nextCluster_neutral h) (initDir_neutral h)))) (.star (seekCluster_neutral h))

theorem deleteFdentryChain_neutral : Neutral rank held deleteFdentryChain := walk_neutral h

theorem removeCommon_neutral {dir : V} (hb : AllBelow rank held (.vnode dir)) :
    Neutral rank held (removeCommon dir false) := by
  have hd := h.cons dir .update
  exact .add .one (.locked hb (.mul (.mul (scan_neutral hd) (scan_neutral hd))
    (.add .one (.mul (deleteFdentryChain_neutral hd) (.add .one (freeClusters_neutral hd))))))

theorem renameLocked_neutral {tdir : V} {target bad : Bool}
    (hb : target = true → bad = false ∧ AllBelow rank held (.vnode tdir)) :
    Neutral rank held (renameLocked tdir target bad) := by
  have htarget : Neutral rank held (if target then scan * removeCommon tdir bad else 1) := by
    refine .ite (fun ht => ?_) fun _ => .one
    obtain ⟨rfl, htdir⟩ := hb ht
    exact .mul (scan_neutral h) (removeCommon_neutral h htdir)
  have hentry : Neutral rank held (1 + createFdentry * (1 + deleteFdentryChain) +
      deleteFdentryChain * (1 + createFdentry)) :=
    .add (.add .one (.mul (createFdentry_neutral h) (.add .one (deleteFdentryChain_neutral h))))
      (.mul (deleteFdentryChain_neutral h) (.add .one (createFdentry_neutral h)))
  exact .mul (.mul (.mul (.mul (scan_neutral h) (scan_neutral h)) htarget) hentry)
    (.add .one (.mul (seekCluster_neutral h) (.add .one (seekCluster_neutral h))))

end Below

/-! ## The calls -/

/-- The calls that take the locks of vnodes upwards. -/
def Allowed (rank : V → α) : Call V → Prop
  | .remove _ bad => bad = false
  | .rmdir _ bad => bad = false
  | .rename sdir tdir sameDir target bad =>
    (sameDir = false → rank sdir < rank tdir) ∧
      (target = true → sameDir = true ∧ rank sdir < rank tdir ∧ bad = false)
  | _ => True

omit [DecidableEq V] in
theorem NoFsi.nil : NoFsi ([] : List (Lock V × Mode)) := nofun

omit [DecidableEq V] in
theorem AllBelow.nil (l : Lock V) : AllBelow rank [] l := nofun

omit [DecidableEq V] in
theorem AllBelow.single {u v : V} (h : rank u < rank v) (m : Mode) :
    AllBelow rank [(.vnode u, m)] (.vnode v) := by
  intro x hx
  rw [List.mem_singleton.mp hx]
  exact WithTop.coe_lt_coe.mpr h

theorem syncMetadata_neutral (hparent : ∀ v q, parent v = some q → rank q < rank v) (v : V) :
    Neutral rank [] (syncMetadata parent v) := by
  unfold syncMetadata
  split
  · exact .locked (.nil _) (.add .one (seekCluster_neutral (NoFsi.nil.cons v _)))
  · rename_i q hq
    have hb : AllBelow rank [(.vnode q, .update)] (.vnode v) := .single (hparent v q hq) _
    exact .locked (.nil _) (.locked hb
      (.add .one (seekCluster_neutral ((NoFsi.nil.cons q _).cons v _))))

theorem read_neutral (v : V) : Neutral rank [] (Call.paths parent (.read v)) := by
  have hv := (NoFsi.nil (V := V)).cons v .access
  refine .add .one fun w hw p hp => ?_
  obtain ⟨a, ha, b, hb, rfl⟩ := Language.mem_mul.mp hw
  obtain ⟨c, hc, d, hd, rfl⟩ := Language.mem_mul.mp ha
  obtain rfl := Set.mem_singleton_iff.mp hc
  obtain rfl := Set.mem_singleton_iff.mp hb
  rw [List.append_assoc, List.append_assoc]
  refine ⟨nofun, ?_⟩
  show Upward _ (demoted (.vnode v) [(.vnode v, .update)]) (d ++ .release (.vnode v) :: p)
  have hdem : demoted (Lock.vnode v) [(.vnode v, .update)] = [(.vnode v, .access)] := by
    simp [demoted]
  rw [hdem]
  refine Neutral.add .one (walk_neutral hv) d hd _ ?_
  show Upward _ (drop (.vnode v) [(.vnode v, .access)]) p
  have hb : AllBelow rank [] (.vnode v) := .nil _
  rwa [hb.drop]

theorem call_neutral (hparent : ∀ v q, parent v = some q → rank q < rank v) {c : Call V}
    (hc : Allowed rank c) : Neutral rank [] (c.paths parent) := by
  have hv (v : V) (m : Mode) : NoFsi [(Lock.vnode v, m)] := NoFsi.nil.cons v m
  cases c with
  | lookup dir => exact .add .one (.locked (.nil _) (scan_neutral (hv _ _)))
  | read v => exact read_neutral v
  | write v =>
    exact .add .one (.locked (.nil _) (.mul (.add .one (nextCluster_neutral (hv _ _)))
      (.add .one (walk_neutral (hv _ _)))))
  | setattr v =>
    exact .add .one (.mul (.locked (.nil _) (.add .one (truncate_neutral (hv _ _))))
      (.add .one (syncMetadata_neutral hparent v)))
  | create dir =>
    exact .add .one (.locked (.nil _) (.mul (scan_neutral (hv _ _))
      (.add (.add .one (truncate_neutral (hv _ _))) (createFdentry_neutral (hv _ _)))))
  | mkdir dir =>
    exact .add .one (.locked (.nil _) (.mul (scan_neutral (hv _ _))
      (.add .one (createFdentry_neutral (hv _ _)))))
  | remove dir bad =>
    obtain rfl : bad = false := hc
    exact removeCommon_neutral .nil (.nil _)
  | rmdir dir bad =>
    obtain rfl : bad = false := hc
    exact removeCommon_neutral .nil (.nil _)
  | rename sdir tdir sameDir target bad =>
    obtain ⟨hdiff, htarget⟩ := hc
    refine .ite (fun _ => .add .one (.locked (.nil _) ?_)) fun hs => .locked (.nil _) ?_
    · exact renameLocked_neutral (hv _ _) fun ht =>
        ⟨(htarget ht).2.2, .single (htarget ht).2.1 _⟩
    · have hlt := hdiff (Bool.not_eq_true _ ▸ hs)
      refine .locked (.single hlt _) (renameLocked_neutral ((hv _ _).cons _ _) fun ht => ?_)
      exact absurd (htarget ht).1 hs
  | syncMetadata v => exact syncMetadata_neutral hparent v

/-- The lock sequences of the allowed calls. -/
def CallPath (parent : V → Option V) (ok : Call V → Prop) (w : List (Act (Lock V))) : Prop :=
  ∃ c, ok c ∧ w ∈ Call.paths parent c

variable {ι : Type} [DecidableEq ι]

omit [DecidableEq V] in
theorem mem_locked {w : List (Act (Lock V))} (h : w ∈ P) :
    .acquire l m :: (w ++ [.release l]) ∈ locked l m P := by
  have ha : [Act.acquire l m] ++ w ∈ acts [.acquire l m] * P :=
    Language.append_mem_mul (Set.mem_singleton _) h
  exact Language.append_mem_mul ha (Set.mem_singleton _)

omit [DecidableEq V] in
theorem nil_mem_scan : [] ∈ (scan : Paths V) := Language.nil_mem_kstar _

omit [DecidableEq V] in
theorem nil_mem_one_add (P : Paths V) : [] ∈ 1 + P :=
  (Language.mem_add _ _ _).mpr (.inl Language.nil_mem_one)

omit [DecidableEq V] in
theorem nil_mem_mul (hP : [] ∈ P) (hQ : [] ∈ Q) : [] ∈ P * Q := Language.append_mem_mul hP hQ

omit [DecidableEq V] in
/-- `fat32_remove_common` when all it looks at is in the first cluster of the directory. -/
theorem mem_removeCommon (dir : V) :
    [.acquire (.vnode dir) .update, .release (.vnode dir)] ∈ removeCommon dir false :=
  (Language.mem_add _ _ _).mpr (.inr (mem_locked
    (nil_mem_mul (nil_mem_mul nil_mem_scan nil_mem_scan) (nil_mem_one_add _))))

/-- The parent of every vnode but the root, 0, is the root. -/
def rootParent (v : Nat) : Option Nat := if v = 0 then none else some 0

/-- One thread that has started a `remove` in a directory below the root. -/
def removing : Unit → Thread (Lock Nat) :=
  Function.update (fun _ => {}) () ⟨[], [.acquire (.vnode 1) .update, .release (.vnode 1)]⟩

theorem removing_reach : Reach (CallPath rootParent (Allowed id)) removing :=
  .step .init (.call () _ rfl ⟨.remove 1 false, rfl, mem_removeCommon 1⟩)

/-- The path of a `rename` into another directory, where the target exists. -/
theorem mem_rename : [.acquire (.vnode 0) .update, .acquire (.vnode 1) .update,
    .acquire (.vnode 1) .update, .release (.vnode 1), .release (.vnode 1), .release (.vnode 0)] ∈
      Call.paths rootParent (.rename 0 1 false true false) := by
  have hremove : [] ++ [] ++ ([] ++ [.acquire (.vnode 1) .update, .release (.vnode 1)]) ∈
      scan * scan * (scan * removeCommon 1 false) :=
    Language.append_mem_mul (nil_mem_mul nil_mem_scan nil_mem_scan)
      (Language.append_mem_mul nil_mem_scan (mem_removeCommon 1))
  have htarget : [.acquire (.vnode 1) .update, .release (.vnode 1)] ++ [] ++ [] ∈
      renameLocked 1 true false :=
    Language.append_mem_mul (Language.append_mem_mul hremove
      ((Language.mem_add _ _ _).mpr (.inl (nil_mem_one_add _)))) (nil_mem_one_add _)
  exact mem_locked (mem_locked htarget)

end Fat32.Locking
