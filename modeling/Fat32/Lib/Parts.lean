import Mathlib

/-!
# Parts of a line

A line cut into parts, part `i` of it `w i` long and beginning at `start w i`. A point of the
line is in one part only (`point_unique`), and points are ordered by their parts first
(`point_le_iff`). `peel` finds the part of a point: it takes whole parts off the distance as long
as it can.
-/

namespace Parts

variable {w : Nat → Nat} {i i' j n r r' b : Nat}

/-- Where part `i` begins. -/
def start (w : Nat → Nat) (i : Nat) : Nat := ((List.range i).map w).sum

/-- Take whole parts from part `i` on off `r`, at most `n` of them. -/
def peel (w : Nat → Nat) : Nat → Nat → Nat → Nat × Nat
  | 0, i, r => (i, r)
  | n + 1, i, r => if r < w i then (i, r) else peel w n (i + 1) (r - w i)

@[simp] theorem start_zero (w : Nat → Nat) : start w 0 = 0 := rfl

theorem start_succ (w : Nat → Nat) (i : Nat) : start w (i + 1) = start w i + w i := by
  simp [start, List.range_succ]

theorem start_add (w : Nat → Nat) (i n : Nat) :
    start w (i + n) = start w i + start (fun k => w (i + k)) n := by
  induction n with
  | zero => rfl
  | succ n ih =>
    rw [← Nat.add_assoc, start_succ, start_succ, ih]
    omega

theorem start_le (h : i ≤ j) : start w i ≤ start w j := by
  induction j, h using Nat.le_induction with
  | base => exact le_refl _
  | succ j _ ih =>
    rw [start_succ]
    omega

/-- The parts between two of them are as long as a bound for each of them says. -/
theorem start_add_ge (h : ∀ k, b ≤ w k) (i n : Nat) : start w i + n * b ≤ start w (i + n) := by
  induction n with
  | zero => simp
  | succ n ih =>
    have hb := h (i + n)
    rw [← Nat.add_assoc, start_succ, Nat.succ_mul]
    omega

/-! ## Points -/

theorem point_lt (h : i < j) (hr : r < w i) : start w i + r < start w j := by
  have hle : start w (i + 1) ≤ start w j := start_le h
  rw [start_succ] at hle
  omega

theorem point_le_iff (hr : r < w i) (hr' : r' < w i') :
    start w i + r ≤ start w i' + r' ↔ i < i' ∨ i = i' ∧ r ≤ r' := by
  constructor
  · intro h
    rcases Nat.lt_trichotomy i i' with hlt | rfl | hgt
    · exact .inl hlt
    · exact .inr ⟨rfl, by omega⟩
    · have := point_lt hgt hr'
      omega
  · rintro (h | ⟨rfl, h⟩)
    · have := point_lt h hr
      omega
    · omega

theorem point_unique (hr : r < w i) (hr' : r' < w i') (h : start w i + r = start w i' + r') :
    i = i' ∧ r = r' := by
  have h1 := (point_le_iff hr hr').mp h.le
  have h2 := (point_le_iff hr' hr).mp h.ge
  omega

/-! ## Finding the part -/

/-- Taking parts off keeps the point, and ends in its part or after `n` of them. -/
theorem peel_spec (w : Nat → Nat) (n : Nat) : ∀ i r,
    start w (peel w n i r).1 + (peel w n i r).2 = start w i + r ∧ i ≤ (peel w n i r).1 ∧
      ((peel w n i r).2 < w (peel w n i r).1 ∨ (peel w n i r).1 = i + n) := by
  induction n with
  | zero => exact fun i r => ⟨rfl, le_refl _, .inr rfl⟩
  | succ n ih =>
    intro i r
    rw [peel]
    by_cases h : r < w i
    · rw [if_pos h]
      exact ⟨rfl, le_refl _, .inl h⟩
    · obtain ⟨h1, h2, h3⟩ := ih (i + 1) (r - w i)
      rw [start_succ] at h1
      rw [if_neg h]
      refine ⟨by omega, by omega, h3.imp id fun h => by omega⟩

/-- The part of a point that is less than `n` parts away. -/
theorem peel_eq (hr : r' < w i') (hn : i' < i + n) (h : start w i' + r' = start w i + r) :
    peel w n i r = (i', r') := by
  obtain ⟨h1, -, h3⟩ := peel_spec w n i r
  rcases h3 with h3 | h3
  · obtain ⟨hi, hr⟩ := point_unique h3 hr (h1.trans h.symm)
    exact Prod.ext hi hr
  · -- the end of the last part is past the point
    have := point_lt (show i' < (peel w n i r).1 by omega) hr
    omega

end Parts
