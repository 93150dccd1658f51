import Mathlib

/-!
# What is known of a file

A file is a size and an element for every place below it. Of a file that was made longer some elements may be any:
`Contents` says which ones are known. A list of elements that a file may have is one that fits (`Fits`), and each
change of the file keeps what fits, as far as the change says what the elements are (`Fits.write`,
`Fits.truncate`).
-/

variable {α : Type}

/-- A file of `size` elements, of which some are known. -/
structure Contents (α : Type) where
  size : Nat
  known : Nat → Option α

namespace Contents

variable {f : Contents α} {g g' src : Nat → α} {p k n : Nat}

/-- The file may have the elements `g`. -/
def Fits (f : Contents α) (g : Nat → α) : Prop := ∀ i < f.size, ∀ a, f.known i = some a → g i = a

/-- All elements are known. -/
def full (size : Nat) (g : Nat → α) : Contents α := ⟨size, fun i => some (g i)⟩

/-- `k` elements are stored at `p`. -/
def write (f : Contents α) (p k : Nat) (src : Nat → α) : Contents α where
  size := max f.size (p + k)
  known i := if p ≤ i ∧ i < p + k then some (src (i - p)) else if i < f.size then f.known i else none

/-- The file is cut, or made longer by elements that are not known. -/
def truncate (f : Contents α) (n : Nat) : Contents α where
  size := n
  known i := if i < f.size then f.known i else none

theorem fits_full (size : Nat) (g : Nat → α) : (full size g).Fits g := fun _ _ _ h => Option.some.inj h

theorem Fits.congr (h : f.Fits g) (hsame : ∀ i < f.size, g' i = g i) : f.Fits g' := fun i hi a ha =>
  (hsame i hi).trans (h i hi a ha)

theorem Fits.write (h : f.Fits g) (hin : ∀ i < k, g' (p + i) = src i)
    (hout : ∀ i < f.size, i < p ∨ p + k ≤ i → g' i = g i) : (f.write p k src).Fits g' := by
  intro i _ a ha
  simp only [Contents.write] at ha
  split at ha
  · rename_i hi
    obtain ⟨j, rfl⟩ := Nat.exists_eq_add_of_le hi.1
    rw [hin j (by omega)]
    rwa [Nat.add_sub_cancel_left, Option.some.injEq] at ha
  · rename_i hno
    split at ha
    · rename_i hi
      exact (hout i hi (by omega)).trans (h i hi a ha)
    · cases ha

theorem Fits.truncate (h : f.Fits g) (hsame : ∀ i < f.size, i < n → g' i = g i) : (f.truncate n).Fits g' := by
  intro i hi a ha
  simp only [Contents.truncate] at hi ha
  split at ha
  · rename_i hlt
    exact (hsame i hlt hi).trans (h i hlt a ha)
  · cases ha

/-- What is known of `n` elements from `p` on is true of `bytes`. -/
def Returns (f : Contents α) (p n : Nat) (bytes : Nat → α) : Prop :=
  ∀ i < n, ∀ a, f.known (p + i) = some a → bytes i = a

theorem Fits.returns (h : f.Fits g) (hn : n = 0 ∨ p + n ≤ f.size) : f.Returns p n fun i => g (p + i) := by
  intro i hi a ha
  exact h (p + i) (by omega) a ha

end Contents
