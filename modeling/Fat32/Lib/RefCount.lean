import Mathlib

/-!
# Reference counts

Objects may refer to a parent, and references to them are held outside. The count of an object is the number of the
references that are held and of the objects that refer to it (`Counted`). This is kept when an object is made, when a
reference is taken or given back, and when an object with the count zero is taken down; so no object ever refers to one
that is gone.
-/

namespace RefCount

variable {α : Type} {c p q : α}

/-- The parents of the live objects, the counts, and how many references are held. -/
structure Refs (α : Type) where
  parent : α → Option (Option α)
  count : α → ℕ
  held : α → ℕ

namespace Refs

def Live (r : Refs α) (p : α) : Prop := r.parent p ≠ none

def children (r : Refs α) (p : α) : Set α := { c | r.parent c = some (some p) }

structure Counted (r : Refs α) : Prop where
  finite : Set.Finite { p | r.Live p }
  count : ∀ p, r.Live p → r.count p = r.held p + (r.children p).ncard
  parent : ∀ c p, r.parent c = some (some p) → r.Live p
  held : ∀ p, 0 < r.held p → r.Live p

variable {r : Refs α}

theorem Counted.children_finite (h : r.Counted) (p : α) : (r.children p).Finite :=
  h.finite.subset fun c hc => by
    have hpar : r.parent c = some (some p) := hc
    show r.parent c ≠ none
    rw [hpar]
    exact Option.some_ne_none _

/-- Nothing refers to an object with the count zero. -/
theorem Counted.unused (h : r.Counted) (hp : r.Live p) (h0 : r.count p = 0) :
    r.held p = 0 ∧ ∀ c, r.parent c ≠ some (some p) := by
  have hcount := h.count p hp
  refine ⟨by omega, fun c hc => ?_⟩
  have hempty : r.children p = ∅ := (Set.ncard_eq_zero (h.children_finite p)).mp (by omega)
  have hmem : c ∈ r.children p := hc
  rw [hempty] at hmem
  exact hmem

section Steps

variable [DecidableEq α]

/-- A new object, to which one reference is held. -/
def make (r : Refs α) (c : α) (q : Option α) : Refs α where
  parent := Function.update r.parent c (some q)
  count := fun p => if p = c then 1 else if q = some p then r.count p + 1 else r.count p
  held := Function.update r.held c 1

def hold (r : Refs α) (p : α) : Refs α where
  parent := r.parent
  count := Function.update r.count p (r.count p + 1)
  held := Function.update r.held p (r.held p + 1)

def release (r : Refs α) (p : α) : Refs α where
  parent := r.parent
  count := Function.update r.count p (r.count p - 1)
  held := Function.update r.held p (r.held p - 1)

/-- An object is taken down, and gives back the reference to its parent. -/
def drop (r : Refs α) (c : α) : Refs α where
  parent := Function.update r.parent c none
  count := fun p => if r.parent c = some (some p) then r.count p - 1 else r.count p
  held := r.held

theorem live_make (q : Option α) : (r.make c q).Live p ↔ p = c ∨ r.Live p := by
  unfold Live make
  by_cases h : p = c
  · simp [h]
  · simp [h]

theorem live_drop : (r.drop c).Live p ↔ p ≠ c ∧ r.Live p := by
  unfold Live drop
  by_cases h : p = c
  · simp [h]
  · simp [h]

theorem children_make (hc : ¬ r.Live c) (q : Option α) (p : α) :
    (r.make c q).children p = if q = some p then insert c (r.children p) else r.children p := by
  have hnone : r.parent c = none := not_not.mp hc
  ext x
  by_cases hx : x = c
  · subst hx
    by_cases hq : q = some p
    · simp [children, make, hq]
    · simp [children, make, hq, hnone]
  · by_cases hq : q = some p
    · simp [children, make, hq, hx]
    · simp [children, make, hq, hx]

theorem children_drop (c p : α) : (r.drop c).children p = r.children p \ {c} := by
  ext x
  by_cases hx : x = c
  · simp [children, drop, hx]
  · simp [children, drop, hx]

/-- A new object, with a parent that is live. -/
theorem Counted.make (h : r.Counted) (hc : ¬ r.Live c) {q : Option α} (hq : ∀ p, q = some p → r.Live p) :
    (r.make c q).Counted := by
  have hheld : r.held c = 0 := Nat.eq_zero_of_not_pos fun hpos => hc (h.held c hpos)
  have hchild : r.children c = ∅ := Set.eq_empty_of_forall_notMem fun x hx => hc (h.parent x c hx)
  have hqc : q ≠ some c := fun heq => hc (hq c heq)
  refine ⟨?_, fun p hp => ?_, fun x p hx => ?_, fun p hp => ?_⟩
  · refine (h.finite.insert c).subset fun p hp => ?_
    exact (live_make q).mp hp
  · rw [children_make hc]
    by_cases hpc : p = c
    · subst hpc
      simp [Refs.make, hqc, hchild]
    · have hlive := ((live_make q).mp hp).resolve_left hpc
      have hcount := h.count p hlive
      by_cases hqp : q = some p
      · have hnew : c ∉ r.children p := fun hx => hc (by
          show r.parent c ≠ none
          rw [show r.parent c = some (some p) from hx]
          exact Option.some_ne_none _)
        have hcard := Set.ncard_insert_of_notMem hnew (h.children_finite p)
        simp [Refs.make, hpc, hqp]
        omega
      · simp [Refs.make, hpc, hqp]
        omega
  · refine (live_make q).mpr ?_
    by_cases hxc : x = c
    · subst hxc
      exact .inr (hq p (by simpa [Refs.make] using hx))
    · exact .inr (h.parent x p (by simpa [Refs.make, hxc] using hx))
  · refine (live_make q).mpr ?_
    by_cases hpc : p = c
    · exact .inl hpc
    · exact .inr (h.held p (by simpa [Refs.make, hpc] using hp))

theorem Counted.hold (h : r.Counted) (hp : r.Live p) : (r.hold p).Counted := by
  refine ⟨h.finite, fun x hx => ?_, h.parent, fun x hx => ?_⟩
  · have hcount : r.count x = r.held x + (r.children x).ncard := h.count x hx
    show (r.hold p).count x = (r.hold p).held x + (r.children x).ncard
    by_cases hxp : x = p
    · subst hxp
      simp only [Refs.hold, Function.update_self]
      omega
    · simp [Refs.hold, hxp, hcount]
  · by_cases hxp : x = p
    · rw [hxp]
      exact hp
    · exact h.held x (by simpa [Refs.hold, hxp] using hx)

theorem Counted.release (h : r.Counted) (hp : 0 < r.held p) : (r.release p).Counted := by
  have hlive := h.held p hp
  refine ⟨h.finite, fun x hx => ?_, h.parent, fun x hx => ?_⟩
  · have hcount : r.count x = r.held x + (r.children x).ncard := h.count x hx
    show (r.release p).count x = (r.release p).held x + (r.children x).ncard
    by_cases hxp : x = p
    · subst hxp
      simp only [Refs.release, Function.update_self]
      omega
    · simp [Refs.release, hxp, hcount]
  · by_cases hxp : x = p
    · rw [hxp]
      exact hlive
    · exact h.held x (by simpa [Refs.release, hxp] using hx)

/-- Nothing is left of an object with the count zero. -/
theorem Counted.drop (h : r.Counted) (hc : r.Live c) (h0 : r.count c = 0) : (r.drop c).Counted := by
  obtain ⟨hheld, hchild⟩ := h.unused hc h0
  refine ⟨h.finite.subset fun p hp => (live_drop.mp hp).2, fun p hp => ?_, fun x p hx => ?_, fun p hp => ?_⟩
  · obtain ⟨-, hlive⟩ := live_drop.mp hp
    have hcount := h.count p hlive
    rw [children_drop]
    by_cases hpar : r.parent c = some (some p)
    · have hcard := Set.ncard_sdiff_singleton_of_mem (show c ∈ r.children p from hpar)
      have hpos : 0 < (r.children p).ncard := (Set.ncard_pos (h.children_finite p)).mpr ⟨c, hpar⟩
      simp only [Refs.drop, if_pos hpar]
      omega
    · have hsame : r.children p \ {c} = r.children p := Set.sdiff_singleton_eq_self hpar
      simp only [Refs.drop, if_neg hpar, hsame]
      exact hcount
  · have hxc : x ≠ c := fun heq => by simp [Refs.drop, heq] at hx
    have hpar : r.parent x = some (some p) := by simpa [Refs.drop, hxc] using hx
    exact live_drop.mpr ⟨fun hpc => hchild x (hpc ▸ hpar), h.parent x p hpar⟩
  · refine live_drop.mpr ⟨fun hpc => ?_, h.held p hp⟩
    have hpos : 0 < r.held p := hp
    rw [hpc, hheld] at hpos
    exact absurd hpos (Nat.lt_irrefl 0)

end Steps

end Refs

end RefCount
