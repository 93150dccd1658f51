import Mathlib

/-!
# First fit

Places `0, 1, 2, …`, some of them free. A search for `n` free places in a row goes through the
places and counts the free ones behind it (`Trail`); when the count is `n`, or when all places ahead
are free, the run behind it is the first window of `n` free places.
-/

namespace FirstFit

variable {P Q : Nat → Prop} {n i j r : Nat}

/-- The `n` places from `i` on are free. -/
def Window (P : Nat → Prop) (n i : Nat) : Prop := ∀ k < n, P (i + k)

theorem Window.mono (h : Window P n i) (hpq : ∀ k < n, P (i + k) → Q (i + k)) : Window Q n i :=
  fun k hk => hpq k hk (h k hk)

/-- The first `n` free places in a row begin at `i`. -/
structure First (P : Nat → Prop) (n i : Nat) : Prop where
  window : Window P n i
  least : ∀ j < i, ¬ Window P n j

theorem First.unique (h : First P n i) (k : First P n j) : i = j := by
  rcases Nat.lt_trichotomy i j with hlt | rfl | hgt
  · exact absurd h.window (k.least i hlt)
  · rfl
  · exact absurd k.window (h.least j hgt)

/-- In front of a window, or there, is the first one. -/
theorem Window.first (h : Window P n i) : ∃ j ≤ i, First P n j := by
  induction i using Nat.strong_induction_on with
  | _ i ih =>
    by_cases hleast : ∀ j < i, ¬ Window P n j
    · exact ⟨i, Nat.le_refl i, h, hleast⟩
    · push Not at hleast
      obtain ⟨j, hj, hw⟩ := hleast
      obtain ⟨k, hk, hfirst⟩ := ih j hj hw
      exact ⟨k, by omega, hfirst⟩

/-- A search that has passed the places before `i`: the last `r` of them are free, and no window begins
in front of these. -/
structure Trail (P : Nat → Prop) (n i r : Nat) : Prop where
  le : r ≤ i
  free : ∀ k, i - r ≤ k → k < i → P k
  least : ∀ j < i - r, ¬ Window P n j

theorem Trail.start : Trail P n 0 0 :=
  ⟨Nat.le_refl 0, fun _ _ h => absurd h (Nat.not_lt_zero _), fun _ h => absurd h (Nat.not_lt_zero _)⟩

/-- A free place makes the run longer. -/
theorem Trail.free_next (h : Trail P n i r) (hp : P i) : Trail P n (i + 1) (r + 1) := by
  have hle := h.le
  refine ⟨by omega, fun k hk hki => ?_, fun j hj => h.least j (by omega)⟩
  by_cases hki' : k = i
  · rwa [hki']
  · exact h.free k (by omega) (by omega)

/-- A place in use ends it. No window begins in a run that was too short. -/
theorem Trail.used_next (h : Trail P n i r) (hr : r < n) (hp : ¬ P i) : Trail P n (i + 1) 0 := by
  refine ⟨Nat.zero_le _, fun k hk hki => by omega, fun j hj hw => ?_⟩
  by_cases hjr : j < i - r
  · exact h.least j hjr hw
  · have hle := h.le
    have hin := hw (i - j) (by omega)
    rw [Nat.add_sub_cancel' (by omega)] at hin
    exact hp hin

/-- The run is long enough. -/
theorem Trail.full (h : Trail P n i n) : First P n (i - n) := by
  have hle := h.le
  exact ⟨fun k hk => h.free _ (by omega) (by omega), h.least⟩

/-- All places ahead are free. -/
theorem Trail.rest (h : Trail P n i r) (hall : ∀ k, i ≤ k → P k) : First P n (i - r) := by
  refine ⟨fun k _ => ?_, h.least⟩
  by_cases hk : i - r + k < i
  · exact h.free _ (by omega) hk
  · exact hall _ (by omega)

end FirstFit
