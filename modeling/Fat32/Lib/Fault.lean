import Mathlib.Tactic.Basic
import Fat32.Lib.Exec

/-!
# One step that fails

Programs over a state that counts their steps (`n`), as a device counts the requests
it is given. `Interrupted n j e m m'` says that `m'` is `m` but for step `j`: a run
that comes to that step ends with the error `e` there, every other run is the run of
`m`. It is closed under everything that hands an error on. Code that looks at the error
(`attempt`) is followed from the two ends of `InterruptedAt` by hand.
-/

namespace Exec

variable {ε σ α β : Type} {n : σ → Nat} {j : Nat} {e : ε}

/-- Step `j` is one of the run of `m` from `s`. -/
abbrev Hits (n : σ → Nat) (j : Nat) (m : Prog ε σ α) (s : σ) : Prop := n s ≤ j ∧ j < n (m s).2

/-- The run of `m'` from `s` is that of `m`, unless step `j` is one of it. -/
structure InterruptedAt (n : σ → Nat) (j : Nat) (e : ε) (m m' : Prog ε σ α) (s : σ) : Prop where
  counts : n s ≤ n (m s).2
  hit : Hits n j m s → (m' s).1 = .err e ∧ j < n (m' s).2
  miss : ¬ Hits n j m s → m' s = m s

def Interrupted (n : σ → Nat) (j : Nat) (e : ε) (m m' : Prog ε σ α) : Prop :=
  ∀ s, InterruptedAt n j e m m' s

/-- The two ways an interrupted run goes. -/
theorem InterruptedAt.cases {m m' : Prog ε σ α} {s : σ} (h : InterruptedAt n j e m m' s) :
    (∃ t, m' s = (.err e, t) ∧ n s ≤ j ∧ j < n (m s).2 ∧ j < n t) ∨
      m' s = m s ∧ (j < n s ∨ n (m s).2 ≤ j) := by
  by_cases hj : Hits n j m s
  · obtain ⟨he, ht⟩ := h.hit hj
    exact .inl ⟨(m' s).2, Prod.ext he rfl, hj.1, hj.2, ht⟩
  · refine .inr ⟨h.miss hj, ?_⟩
    rcases Nat.lt_or_ge j (n s) with hlt | hge
    · exact .inl hlt
    · exact .inr (Nat.le_of_not_lt fun hlt => hj ⟨hge, hlt⟩)

/-- A program that takes no step. -/
theorem Interrupted.of_still {m : Prog ε σ α} (h : ∀ s, n (m s).2 = n s) :
    Interrupted n j e m m := by
  intro s
  have hs := h s
  exact ⟨Nat.le_of_eq hs.symm, fun hj => absurd (Nat.lt_of_le_of_lt hj.1 hj.2) (by omega),
    fun _ => rfl⟩

theorem Interrupted.pure (a : α) :
    Interrupted n j e (Pure.pure a : Prog ε σ α) (Pure.pure a) := .of_still fun _ => rfl

theorem Interrupted.fail (x : ε) :
    Interrupted n j e (Prog.fail x : Prog ε σ α) (Prog.fail x) := .of_still fun _ => rfl

theorem Interrupted.hang :
    Interrupted n j e (Prog.hang : Prog ε σ α) Prog.hang := .of_still fun _ => rfl

theorem Interrupted.bind {m m' : Prog ε σ α} {f f' : α → Prog ε σ β} (hm : Interrupted n j e m m')
    (hf : ∀ a, Interrupted n j e (f a) (f' a)) : Interrupted n j e (m >>= f) (m' >>= f') := by
  intro s
  have hcount := (hm s).counts
  rcases hms : m s with ⟨a | x | _, t⟩ <;> rw [hms] at hcount
  · -- the step may be one of the second program
    have h2 := hf a t
    have hrun : (m >>= f) s = f a t := bind_ok hms
    have hcount2 := h2.counts
    rcases (hm s).cases with ⟨u, hu, h3, h4, h5⟩ | ⟨hu, hj⟩
    · have hrun' : (m' >>= f') s = (.err e, u) := bind_err hu
      rw [hms] at h4
      refine ⟨?_, fun _ => ?_, fun hno => absurd ⟨h3, ?_⟩ hno⟩
      · rw [hrun]
        exact Nat.le_trans hcount hcount2
      · rw [hrun']
        exact ⟨rfl, h5⟩
      · rw [hrun]
        exact Nat.lt_of_lt_of_le h4 hcount2
    · rw [hms] at hu hj
      have hrun' : (m' >>= f') s = f' a t := bind_ok hu
      refine ⟨?_, fun hj' => ?_, fun hno => ?_⟩
      · rw [hrun]
        exact Nat.le_trans hcount hcount2
      · rw [hrun']
        obtain ⟨h3, h4⟩ := hj'
        rw [hrun] at h4
        have hj : j < n s ∨ n t ≤ j := hj
        exact h2.hit ⟨by omega, h4⟩
      · rw [hrun', hrun]
        refine h2.miss fun hj' => hno ⟨?_, by rw [hrun]; exact hj'.2⟩
        exact Nat.le_trans hcount hj'.1
  all_goals
    have hrun : ((m >>= f) s).2 = t := by rw [bind_run, hms]
    rcases (hm s).cases with ⟨u, hu, h3, h4, h5⟩ | ⟨hu, hj⟩
    · have hrun' : (m' >>= f') s = (.err e, u) := bind_err hu
      rw [hms] at h4
      refine ⟨by rw [hrun]; exact hcount, fun _ => ?_, fun hno => absurd ⟨h3, ?_⟩ hno⟩
      · rw [hrun']
        exact ⟨rfl, h5⟩
      · rw [hrun]
        exact h4
    · rw [hms] at hu hj
      refine ⟨by rw [hrun]; exact hcount, fun hj' => ?_, fun _ => ?_⟩
      · have h4 := hj'.2
        rw [hrun] at h4
        have h3 := hj'.1
        have hj : j < n s ∨ n t ≤ j := hj
        omega
      · rw [bind_run, bind_run, hms, hu]

theorem Interrupted.ite {c : Prop} [Decidable c] {m m' l l' : Prog ε σ α}
    (hm : c → Interrupted n j e m m') (hl : ¬ c → Interrupted n j e l l') :
    Interrupted n j e (if c then m else l) (if c then m' else l') := by
  by_cases h : c
  · rw [if_pos h, if_pos h]
    exact hm h
  · rw [if_neg h, if_neg h]
    exact hl h

end Exec
