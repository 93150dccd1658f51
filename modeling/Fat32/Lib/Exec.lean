import Mathlib.Tactic.Basic

/-!
# Programs over a state

A program takes a state and ends in one of three ways: with a result, with an
error, or not at all (`hang`: a loop that never ends, or a panic). The state it
reached is kept in every case, as it is for C code that returns an error code.
`attempt` turns an error into a value, for code that looks at the error of a
call. `Prog.on` runs a program on one part of a larger state.

A run is described by equations `m s = (r, s')`; `bind_ok`, `bind_err`,
`attempt_ok` and `attempt_err` put them together. `WP m s Q` says that the run
from `s` ends as `Q` tells, in whichever way it ends. `Keeps R m` says that `R`
relates the state before a run of `m` to the state after it, however the run
ends; it is closed under everything programs are built from. `Maintains I P m Q`
is the triple for an invariant `I` that holds however the run ends. `Terminates m`
excludes `hang`. `Sim R m n`: from related states the two programs end in the same
way, in related states; `FailsOr R m n` lets `m` fail instead.
-/

namespace Exec

/-- How a program ends. -/
inductive Out (ε α : Type) where
  | ok (a : α)
  | err (e : ε)
  | hang
  deriving DecidableEq, Repr

def Prog (ε σ α : Type) := σ → Out ε α × σ

variable {ε σ τ α β γ : Type}

theorem Out.ok_ne_hang {a : α} : (.ok a : Out ε α) ≠ .hang := nofun
theorem Out.err_ne_hang {e : ε} : (.err e : Out ε α) ≠ .hang := nofun
theorem Out.err_ne_ok {e : ε} {a : α} : (.err e : Out ε α) ≠ .ok a := nofun
theorem Out.hang_ne_ok {a : α} : (.hang : Out ε α) ≠ .ok a := nofun
theorem Out.hang_ne_err {e : ε} : (.hang : Out ε α) ≠ .err e := nofun

instance : Monad (Prog ε σ) where
  pure a := fun s => (.ok a, s)
  bind m f := fun s =>
    match m s with
    | (.ok a, s') => f a s'
    | (.err e, s') => (.err e, s')
    | (.hang, s') => (.hang, s')

namespace Prog

/-- End with an error. -/
def fail (e : ε) : Prog ε σ α := fun s => (.err e, s)

/-- Never return. -/
def hang : Prog ε σ α := fun s => (.hang, s)

def get : Prog ε σ σ := fun s => (.ok s, s)

def modify (f : σ → σ) : Prog ε σ Unit := fun s => (.ok (), f s)

/-- The result or the error of a program, as a value. -/
def attempt (m : Prog ε σ α) : Prog ε σ (Except ε α) := fun s =>
  match m s with
  | (.ok a, s') => (.ok (.ok a), s')
  | (.err e, s') => (.ok (.error e), s')
  | (.hang, s') => (.hang, s')

/-- Run a program on the part `proj` of the state. -/
def on (proj : τ → σ) (put : σ → τ → τ) (m : Prog ε σ α) : Prog ε τ α := fun t =>
  ((m (proj t)).1, put (m (proj t)).2 t)

end Prog

open Prog

/-! ## Runs -/

theorem bind_run (m : Prog ε σ α) (f : α → Prog ε σ β) (s : σ) :
    (m >>= f) s = match m s with
      | (.ok a, s') => f a s'
      | (.err e, s') => (.err e, s')
      | (.hang, s') => (.hang, s') := rfl

theorem bind_ok {m : Prog ε σ α} {f : α → Prog ε σ β} {s s' : σ} {a : α}
    (h : m s = (.ok a, s')) : (m >>= f) s = f a s' := by
  rw [bind_run, h]

theorem bind_err {m : Prog ε σ α} {f : α → Prog ε σ β} {s s' : σ} {e : ε}
    (h : m s = (.err e, s')) : (m >>= f) s = (.err e, s') := by
  rw [bind_run, h]

theorem bind_hang {m : Prog ε σ α} {f : α → Prog ε σ β} {s s' : σ}
    (h : m s = (.hang, s')) : (m >>= f) s = (.hang, s') := by
  rw [bind_run, h]

theorem attempt_ok {m : Prog ε σ α} {s s' : σ} {a : α} (h : m s = (.ok a, s')) :
    attempt m s = (.ok (.ok a), s') := by
  rw [attempt, h]

theorem attempt_err {m : Prog ε σ α} {s s' : σ} {e : ε} (h : m s = (.err e, s')) :
    attempt m s = (.ok (.error e), s') := by
  rw [attempt, h]

/-- Trying a program, whatever comes of it. -/
theorem attempt_drop (m : Prog ε σ α) (s : σ) :
    ((do let _ ← attempt m; pure ()) s).2 = (m s).2 := by
  rw [bind_run, attempt]
  rcases m s with ⟨_ | _ | _, s'⟩ <;> rfl

/-- The state after a program whose result is not used. -/
theorem bind_pure_state (m : Prog ε σ α) (b : β) (s : σ) :
    ((m >>= fun _ => pure b) s).2 = (m s).2 := by
  rw [bind_run]
  rcases m s with ⟨_ | _ | _, s'⟩ <;> rfl

@[simp] theorem pure_run (a : α) (s : σ) : (pure a : Prog ε σ α) s = (.ok a, s) := rfl
@[simp] theorem fail_run (e : ε) (s : σ) : (fail e : Prog ε σ α) s = (.err e, s) := rfl
@[simp] theorem hang_run (s : σ) : (hang : Prog ε σ α) s = (.hang, s) := rfl
@[simp] theorem get_run (s : σ) : (get : Prog ε σ σ) s = (.ok s, s) := rfl
@[simp] theorem modify_run (f : σ → σ) (s : σ) :
    (modify f : Prog ε σ Unit) s = (.ok (), f s) := rfl

@[simp] theorem pure_bind_run (a : α) (f : α → Prog ε σ β) (s : σ) :
    ((pure a : Prog ε σ α) >>= f) s = f a s := rfl
@[simp] theorem get_bind_run (f : σ → Prog ε σ β) (s : σ) : (get >>= f) s = f s s := rfl
@[simp] theorem modify_bind_run (g : σ → σ) (f : Unit → Prog ε σ β) (s : σ) :
    (modify g >>= f) s = f () (g s) := rfl
@[simp] theorem fail_bind_run (e : ε) (f : α → Prog ε σ β) (s : σ) :
    ((fail e : Prog ε σ α) >>= f) s = (.err e, s) := rfl

theorem on_run {proj : τ → σ} {put : σ → τ → τ} {m : Prog ε σ α} {t : τ} {r : Out ε α} {s' : σ}
    (h : m (proj t) = (r, s')) : on proj put m t = (r, put s' t) := by
  rw [on, h]

/-! ## How a run ends -/

/-- The end of the run of `m` from `s` satisfies `Q`. -/
def WP (m : Prog ε σ α) (s : σ) (Q : Out ε α → σ → Prop) : Prop := Q (m s).1 (m s).2

section WP

variable {m : Prog ε σ α} {f : α → Prog ε σ β} {s : σ} {Q R : Out ε α → σ → Prop}

theorem WP.of_run {r : Out ε α} {s' : σ} (h : m s = (r, s')) (hq : Q r s') : WP m s Q := by
  rw [WP, h]; exact hq

theorem WP.mono (h : WP m s R) (hq : ∀ r t, R r t → Q r t) : WP m s Q := hq _ _ h

theorem WP.and (h : WP m s Q) (k : WP m s R) : WP m s fun r t => Q r t ∧ R r t := ⟨h, k⟩

theorem WP.bind {Q : Out ε β → σ → Prop} (hm : WP m s R)
    (hok : ∀ a t, R (.ok a) t → WP (f a) t Q) (herr : ∀ e t, R (.err e) t → Q (.err e) t)
    (hhang : ∀ t, R .hang t → Q .hang t) : WP (m >>= f) s Q := by
  unfold WP at hm ⊢
  rw [bind_run]
  rcases hms : m s with ⟨a | e | _, t⟩ <;> rw [hms] at hm
  · exact hok a t hm
  · exact herr e t hm
  · exact hhang t hm

/-- A first step whose run is known. -/
theorem WP.ok_bind {Q : Out ε β → σ → Prop} {s' : σ} {a : α} (h : m s = (.ok a, s'))
    (hf : WP (f a) s' Q) : WP (m >>= f) s Q := by
  rw [WP, Exec.bind_ok h]; exact hf

theorem WP.err_bind {Q : Out ε β → σ → Prop} {s' : σ} {e : ε} (h : m s = (.err e, s'))
    (hq : Q (.err e) s') : WP (m >>= f) s Q := .of_run (Exec.bind_err h) hq

theorem WP.get_bind {f : σ → Prog ε σ β} {Q : Out ε β → σ → Prop} (h : WP (f s) s Q) :
    WP (Prog.get >>= f) s Q := h

theorem WP.ite {c : Prop} [Decidable c] {n : Prog ε σ α} (hm : c → WP m s Q)
    (hn : ¬ c → WP n s Q) : WP (if c then m else n) s Q := by
  by_cases h : c
  · rw [if_pos h]; exact hm h
  · rw [if_neg h]; exact hn h

theorem WP.attempt {Q : Out ε (Except ε α) → σ → Prop} (hm : WP m s R)
    (hok : ∀ a t, R (.ok a) t → Q (.ok (.ok a)) t)
    (herr : ∀ e t, R (.err e) t → Q (.ok (.error e)) t) (hhang : ∀ t, R .hang t → Q .hang t) :
    WP (Prog.attempt m) s Q := by
  unfold WP at hm ⊢
  rw [Prog.attempt]
  rcases hms : m s with ⟨a | e | _, t⟩ <;> rw [hms] at hm
  · exact hok a t hm
  · exact herr e t hm
  · exact hhang t hm

/-- A first step that ends, whose result or error is only looked at. -/
theorem WP.attempt_bind {f : Except ε α → Prog ε σ β} {P : σ → Prop} {Q : Out ε β → σ → Prop}
    (hm : WP m s fun r t => r ≠ .hang ∧ P t) (hf : ∀ x t, P t → WP (f x) t Q) :
    WP (Prog.attempt m >>= f) s Q := by
  unfold WP at hm
  rcases hms : m s with ⟨a | e | _, t⟩ <;> rw [hms] at hm
  · exact .ok_bind (attempt_ok hms) (hf _ t hm.2)
  · exact .ok_bind (attempt_err hms) (hf _ t hm.2)
  · exact absurd rfl hm.1

/-- A first step whose error is looked at. -/
theorem WP.try_bind {f : Except ε α → Prog ε σ β} {Q : Out ε β → σ → Prop} (hm : WP m s R)
    (hok : ∀ a t, R (.ok a) t → WP (f (.ok a)) t Q) (herr : ∀ e t, R (.err e) t → WP (f (.error e)) t Q)
    (hhang : ∀ t, R .hang t → Q .hang t) : WP (Prog.attempt m >>= f) s Q := by
  unfold WP at hm
  rcases hms : m s with ⟨a | e | _, t⟩ <;> rw [hms] at hm
  · exact .ok_bind (attempt_ok hms) (hok a t hm)
  · exact .ok_bind (attempt_err hms) (herr e t hm)
  · exact .of_run (Exec.bind_hang (by rw [Prog.attempt, hms])) (hhang t hm)

theorem WP.on {proj : τ → σ} {put : σ → τ → τ} {t : τ} {Q : Out ε α → τ → Prop}
    (hm : WP m (proj t) fun r s => Q r (put s t)) : WP (Prog.on proj put m) t Q := hm

/-- A first step on a part of the state. -/
theorem WP.on_bind {proj : τ → σ} {put : σ → τ → τ} {f : α → Prog ε τ β} {t : τ}
    {Q : Out ε β → τ → Prop} (hm : WP m (proj t) R)
    (hok : ∀ a s, R (.ok a) s → WP (f a) (put s t) Q)
    (herr : ∀ e s, R (.err e) s → Q (.err e) (put s t))
    (hhang : ∀ s, R .hang s → Q .hang (put s t)) : WP (Prog.on proj put m >>= f) t Q := by
  unfold WP at hm
  rcases hms : m (proj t) with ⟨a | e | _, s⟩ <;> rw [hms] at hm
  · exact .ok_bind (on_run hms) (hok a s hm)
  · exact .err_bind (on_run hms) (herr e s hm)
  · exact .of_run (Exec.bind_hang (on_run hms)) (hhang s hm)

end WP

attribute [irreducible] WP

/-! ## What every run keeps -/

/-- `R` relates the states before and after every run of `m`. -/
def Keeps (R : σ → σ → Prop) (m : Prog ε σ α) : Prop := ∀ s, R s (m s).2

section Keeps

variable {R : σ → σ → Prop} (hr : ∀ s, R s s) (ht : ∀ {s t u}, R s t → R t u → R s u)
include hr

theorem Keeps.pure (a : α) : Keeps R (Pure.pure a : Prog ε σ α) := fun s => hr s

theorem Keeps.fail (e : ε) : Keeps R (Prog.fail e : Prog ε σ α) := fun s => hr s

theorem Keeps.hang : Keeps R (Prog.hang : Prog ε σ α) := fun s => hr s

theorem Keeps.get : Keeps R (Prog.get : Prog ε σ σ) := fun s => hr s

omit hr
include ht

theorem Keeps.bind {m : Prog ε σ α} {f : α → Prog ε σ β} (hm : Keeps R m)
    (hf : ∀ a, Keeps R (f a)) : Keeps R (m >>= f) := by
  intro s
  have h := hm s
  rw [bind_run]
  rcases hms : m s with ⟨a | e | _, s'⟩ <;> rw [hms] at h
  · exact ht h (hf a s')
  · exact h
  · exact h

omit ht

theorem Keeps.attempt {m : Prog ε σ α} (hm : Keeps R m) : Keeps R (Prog.attempt m) := by
  intro s
  have h := hm s
  rw [Prog.attempt]
  rcases hms : m s with ⟨a | e | _, s'⟩ <;> rw [hms] at h <;> exact h

theorem Keeps.ite {c : Prop} [Decidable c] {m n : Prog ε σ α} (hm : c → Keeps R m)
    (hn : ¬ c → Keeps R n) : Keeps R (if c then m else n) := by
  by_cases h : c
  · rw [if_pos h]; exact hm h
  · rw [if_neg h]; exact hn h

end Keeps

/-! ## Invariants of every run -/

/-- From a state with `I` and `P`, a run of `m` ends in a state with `I`, and with
`Q` of its result if it has one. -/
def Maintains (I P : σ → Prop) (m : Prog ε σ α) (Q : α → σ → Prop) : Prop :=
  ∀ s, I s → P s → I (m s).2 ∧ ∀ a, (m s).1 = .ok a → Q a (m s).2

section Maintains

variable {I P P' : σ → Prop} {m : Prog ε σ α} {f : α → Prog ε σ β} {Q Q' : α → σ → Prop}

theorem Maintains.pure {a : α} (h : ∀ s, I s → P s → Q a s) :
    Maintains I P (Pure.pure a : Prog ε σ α) Q := by
  intro s hi hp
  refine ⟨hi, fun b hb => ?_⟩
  rw [← Out.ok.inj hb]
  exact h s hi hp

theorem Maintains.fail (e : ε) : Maintains I P (Prog.fail e) Q := fun _ hi _ => ⟨hi, nofun⟩

theorem Maintains.hang : Maintains I P (Prog.hang : Prog ε σ α) Q := fun _ hi _ => ⟨hi, nofun⟩

theorem Maintains.modify {g : σ → σ} {Q : Unit → σ → Prop}
    (h : ∀ s, I s → P s → I (g s) ∧ Q () (g s)) :
    Maintains I P (Prog.modify g : Prog ε σ Unit) Q :=
  fun s hi hp => ⟨(h s hi hp).1, fun _ _ => (h s hi hp).2⟩

theorem Maintains.bind {R : β → σ → Prop} (hm : Maintains I P m Q)
    (hf : ∀ a, Maintains I (Q a) (f a) R) : Maintains I P (m >>= f) R := by
  intro s hi hp
  obtain ⟨hi', hq⟩ := hm s hi hp
  rw [bind_run]
  rcases hms : m s with ⟨a | e | _, s'⟩ <;> rw [hms] at hi' hq
  · exact hf a s' hi' (hq a rfl)
  · exact ⟨hi', nofun⟩
  · exact ⟨hi', nofun⟩

/-- The end of a run from a state with the invariant. -/
theorem Maintains.wp (hm : Maintains I P m Q) {s : σ} (hi : I s) (hp : P s) :
    WP m s fun _ t => I t := .of_run rfl (hm s hi hp).1

/-- An invariant that the first step establishes. -/
theorem WP.after {R : β → σ → Prop} {s : σ} (h : WP m s fun _ t => I t)
    (hf : ∀ a, Maintains I (fun _ => True) (f a) R) : WP (m >>= f) s fun _ t => I t :=
  .bind h (fun a _ hi => (hf a).wp hi trivial) (fun _ _ hi => hi) fun _ hi => hi

/-- A program that looks at the state. -/
theorem Maintains.get_bind {f : σ → Prog ε σ α}
    (h : ∀ s, I s → P s → Maintains I (fun t => t = s) (f s) Q) :
    Maintains I P (Prog.get >>= f) Q := fun s hi hp => h s hi hp s hi rfl

theorem Maintains.attempt (hm : Maintains I P m Q) :
    Maintains I P (Prog.attempt m) fun r s => ∀ a, r = .ok a → Q a s := by
  intro s hi hp
  obtain ⟨hi', hq⟩ := hm s hi hp
  rw [Prog.attempt]
  rcases hms : m s with ⟨a | e | _, s'⟩ <;> rw [hms] at hi' hq
  · refine ⟨hi', fun r hr b hb => ?_⟩
    rw [← Out.ok.inj hr] at hb
    rw [← Except.ok.inj hb]
    exact hq a rfl
  · refine ⟨hi', fun r hr b hb => ?_⟩
    rw [← Out.ok.inj hr] at hb
    exact nomatch hb
  · exact ⟨hi', nofun⟩

theorem Maintains.ite {c : Prop} [Decidable c] {n : Prog ε σ α} (hm : c → Maintains I P m Q)
    (hn : ¬ c → Maintains I P n Q) : Maintains I P (if c then m else n) Q := by
  by_cases h : c
  · rw [if_pos h]; exact hm h
  · rw [if_neg h]; exact hn h

/-- A step of which nothing has to be known. -/
theorem Maintains.any (m : Prog ε σ α) :
    Maintains (fun _ => True) P m fun _ _ => True := fun _ _ _ => ⟨trivial, fun _ _ => trivial⟩

/-- An invariant that follows from what a run keeps. -/
theorem Keeps.maintains {R : σ → σ → Prop} (hm : Keeps R m) (h : ∀ s t, R s t → I s → I t) :
    Maintains I P m fun _ _ => True := fun s hi _ => ⟨h s _ (hm s) hi, fun _ _ => trivial⟩

theorem Maintains.mono (hm : Maintains I P m Q) (hp : ∀ s, I s → P' s → P s)
    (hq : ∀ a s, I s → Q a s → Q' a s) : Maintains I P' m Q' := by
  intro s hi hp'
  obtain ⟨hi', h⟩ := hm s hi (hp s hi hp')
  exact ⟨hi', fun a ha => hq a _ hi' (h a ha)⟩

end Maintains

/-! ## Programs that end -/

/-- Every run of `m` ends, with a result or with an error. -/
def Terminates (m : Prog ε σ α) : Prop := ∀ s, (m s).1 ≠ .hang

section Terminates

theorem Terminates.pure (a : α) : Terminates (Pure.pure a : Prog ε σ α) := fun _ => nofun

theorem Terminates.fail (e : ε) : Terminates (Prog.fail e : Prog ε σ α) := fun _ => nofun

theorem Terminates.bind {m : Prog ε σ α} {f : α → Prog ε σ β} (hm : Terminates m)
    (hf : ∀ a, Terminates (f a)) : Terminates (m >>= f) := by
  intro s
  have h := hm s
  rw [bind_run]
  rcases hms : m s with ⟨a | e | _, s'⟩ <;> rw [hms] at h
  · exact hf a s'
  · exact nofun
  · exact absurd rfl h

theorem Terminates.attempt {m : Prog ε σ α} (hm : Terminates m) : Terminates (Prog.attempt m) := by
  intro s
  have h := hm s
  rw [Prog.attempt]
  rcases hms : m s with ⟨a | e | _, s'⟩ <;> rw [hms] at h
  · exact nofun
  · exact nofun
  · exact absurd rfl h

theorem Terminates.ite {c : Prop} [Decidable c] {m n : Prog ε σ α} (hm : c → Terminates m)
    (hn : ¬ c → Terminates n) : Terminates (if c then m else n) := by
  by_cases h : c
  · rw [if_pos h]; exact hm h
  · rw [if_neg h]; exact hn h

end Terminates

/-! ## Two programs side by side -/

/-- The runs from `s` and `t` end alike and in related states. -/
def SimAt (R : σ → τ → Prop) (m : Prog ε σ α) (n : Prog ε τ α) (s : σ) (t : τ) : Prop :=
  (m s).1 = (n t).1 ∧ R (m s).2 (n t).2

/-- From states related by `R`, the programs end alike and in related states. -/
def Sim (R : σ → τ → Prop) (m : Prog ε σ α) (n : Prog ε τ α) : Prop :=
  ∀ s t, R s t → (m s).1 = (n t).1 ∧ R (m s).2 (n t).2

section Sim

variable {R : σ → τ → Prop}

theorem Sim.pure (a : α) : Sim R (Pure.pure a : Prog ε σ α) (Pure.pure a) := fun _ _ h => ⟨rfl, h⟩

theorem Sim.fail (e : ε) : Sim R (Prog.fail e : Prog ε σ α) (Prog.fail e) := fun _ _ h => ⟨rfl, h⟩

/-- A first step of which the run from `s` is known. -/
theorem SimAt.bind {m : Prog ε σ α} {n : Prog ε τ α} {f : α → Prog ε σ β} {g : α → Prog ε τ β}
    {s : σ} {t : τ} {Q : α → σ → Prop} (hm : SimAt R m n s t)
    (hq : WP m s fun r s' => ∀ a, r = .ok a → Q a s')
    (hf : ∀ a s' t', Q a s' → R s' t' → SimAt R (f a) (g a) s' t') :
    SimAt R (m >>= f) (n >>= g) s t := by
  obtain ⟨e, h'⟩ := hm
  unfold WP at hq
  rw [SimAt, bind_run, bind_run]
  rcases hms : m s with ⟨a | x | _, s'⟩ <;> rcases hnt : n t with ⟨b | y | _, t'⟩ <;>
    simp only [hms, hnt, Out.ok.injEq, Out.err.injEq, reduceCtorEq] at e h' hq
  · subst e; exact hf a s' t' (hq a rfl) h'
  · subst e; exact ⟨rfl, h'⟩
  · exact ⟨rfl, h'⟩

/-- First steps whose runs are known. -/
theorem SimAt.ok_bind {m : Prog ε σ α} {n : Prog ε τ α} {f : α → Prog ε σ β} {g : α → Prog ε τ β}
    {s s' : σ} {t t' : τ} {a : α} (hs : m s = (.ok a, s')) (ht : n t = (.ok a, t'))
    (h : SimAt R (f a) (g a) s' t') : SimAt R (m >>= f) (n >>= g) s t := by
  rw [SimAt, bind_ok hs, bind_ok ht]
  exact h

theorem SimAt.get_bind {f : σ → Prog ε σ α} {g : τ → Prog ε τ α} {s : σ} {t : τ}
    (h : SimAt R (f s) (g t) s t) : SimAt R (Prog.get >>= f) (Prog.get >>= g) s t := h

theorem SimAt.ite {c : Prop} [Decidable c] {m m' : Prog ε σ α} {n n' : Prog ε τ α} {s : σ} {t : τ}
    (hm : c → SimAt R m n s t) (hn : ¬ c → SimAt R m' n' s t) :
    SimAt R (if c then m else m') (if c then n else n') s t := by
  by_cases h : c
  · rw [if_pos h, if_pos h]; exact hm h
  · rw [if_neg h, if_neg h]; exact hn h

/-- A first step whose result is known to be one of `Q`. -/
theorem Sim.bind_of {m : Prog ε σ α} {n : Prog ε τ α} {f : α → Prog ε σ β} {g : α → Prog ε τ β}
    {Q : α → Prop} (hm : Sim R m n) (hq : ∀ s a s', m s = (.ok a, s') → Q a)
    (hf : ∀ a, Q a → Sim R (f a) (g a)) : Sim R (m >>= f) (n >>= g) := fun s t h =>
  SimAt.bind (Q := fun a _ => Q a) (hm s t h) (.of_run rfl fun a ha => hq s a _ (Prod.ext ha rfl))
    fun a s' t' ha h' => hf a ha s' t' h'

theorem Sim.bind {m : Prog ε σ α} {n : Prog ε τ α} {f : α → Prog ε σ β} {g : α → Prog ε τ β}
    (hm : Sim R m n) (hf : ∀ a, Sim R (f a) (g a)) : Sim R (m >>= f) (n >>= g) :=
  .bind_of (Q := fun _ => True) hm (fun _ _ _ _ => trivial) fun a _ => hf a

theorem Sim.hang : Sim R (Prog.hang : Prog ε σ α) (Prog.hang : Prog ε τ α) := fun _ _ h => ⟨rfl, h⟩

theorem Sim.modify {f : σ → σ} {g : τ → τ} (h : ∀ s t, R s t → R (f s) (g t)) :
    Sim R (Prog.modify f : Prog ε σ Unit) (Prog.modify g) := fun s t hst => ⟨rfl, h s t hst⟩

/-- Programs on a part of the state. -/
theorem Sim.on {σ' τ' : Type} {S : σ' → τ' → Prop} {m : Prog ε σ α} {n : Prog ε τ α}
    {proj : σ' → σ} {put : σ → σ' → σ'} {proj' : τ' → τ} {put' : τ → τ' → τ'} (hm : Sim R m n)
    (hp : ∀ s t, S s t → R (proj s) (proj' t))
    (hput : ∀ s t v w, S s t → R v w → S (put v s) (put' w t)) :
    Sim S (Prog.on proj put m) (Prog.on proj' put' n) := by
  intro s t h
  obtain ⟨e, h'⟩ := hm _ _ (hp s t h)
  exact ⟨e, hput s t _ _ h h'⟩

/-- Programs that look at the state. -/
theorem Sim.get_bind {f : σ → Prog ε σ α} {g : τ → Prog ε τ α}
    (h : ∀ s t, R s t → Sim R (f s) (g t)) : Sim R (Prog.get >>= f) (Prog.get >>= g) :=
  fun s t hst => h s t hst s t hst

theorem Sim.attempt {m : Prog ε σ α} {n : Prog ε τ α} (hm : Sim R m n) :
    Sim R (Prog.attempt m) (Prog.attempt n) := by
  intro s t h
  obtain ⟨e, h'⟩ := hm s t h
  unfold Prog.attempt
  rcases hms : m s with ⟨a | x | _, s'⟩ <;> rcases hnt : n t with ⟨b | y | _, t'⟩ <;>
    simp only [hms, hnt, Out.ok.injEq, Out.err.injEq, reduceCtorEq] at e h' ⊢
  · subst e; exact ⟨rfl, h'⟩
  · subst e; exact ⟨rfl, h'⟩
  · exact ⟨trivial, h'⟩

theorem Sim.ite {c : Prop} [Decidable c] {m m' : Prog ε σ α} {n n' : Prog ε τ α}
    (hm : c → Sim R m n) (hn : ¬ c → Sim R m' n') :
    Sim R (if c then m else m') (if c then n else n') := by
  by_cases h : c
  · rw [if_pos h, if_pos h]; exact hm h
  · rw [if_neg h, if_neg h]; exact hn h

end Sim

/-! ## Programs that may also fail -/

/-- From states related by `R`, `m` ends with an error, or as `n` does and in a related
state. -/
def FailsOr (R : σ → τ → Prop) (m : Prog ε σ α) (n : Prog ε τ α) : Prop :=
  ∀ s t, R s t → (∃ e, (m s).1 = .err e) ∨ (m s).1 = (n t).1 ∧ R (m s).2 (n t).2

section FailsOr

variable {R : σ → τ → Prop} {m : Prog ε σ α} {n : Prog ε τ α}

theorem Sim.failsOr (h : Sim R m n) : FailsOr R m n := fun s t hst => .inr (h s t hst)

theorem FailsOr.bind {f : α → Prog ε σ β} {g : α → Prog ε τ β} (hm : FailsOr R m n)
    (hf : ∀ a, FailsOr R (f a) (g a)) : FailsOr R (m >>= f) (n >>= g) := by
  intro s t h
  rw [bind_run, bind_run]
  rcases hm s t h with ⟨e, he⟩ | ⟨he, h'⟩
  · rcases hms : m s with ⟨a | x | _, s'⟩ <;> simp only [hms, reduceCtorEq] at he
    exact .inl ⟨x, rfl⟩
  · rcases hms : m s with ⟨a | x | _, s'⟩ <;> rcases hnt : n t with ⟨b | y | _, t'⟩ <;>
      simp only [hms, hnt, Out.ok.injEq, Out.err.injEq, reduceCtorEq] at he h'
    · subst he; exact hf a s' t' h'
    · subst he; exact .inl ⟨x, rfl⟩
    · exact .inr ⟨rfl, h'⟩

/-- A first step whose error is the end. -/
theorem FailsOr.attempt_bind {f : Except ε α → Prog ε σ β} {g : Except ε α → Prog ε τ β}
    (hm : FailsOr R m n) (herr : ∀ e s, ∃ e', (f (.error e) s).1 = .err e')
    (hf : ∀ a, FailsOr R (f (.ok a)) (g (.ok a))) :
    FailsOr R (Prog.attempt m >>= f) (Prog.attempt n >>= g) := by
  intro s t h
  rcases hm s t h with ⟨e, he⟩ | ⟨he, h'⟩
  · rcases hms : m s with ⟨a | x | _, s'⟩ <;> simp only [hms, reduceCtorEq] at he
    rw [bind_ok (attempt_err hms)]
    exact .inl (herr x s')
  · rcases hms : m s with ⟨a | x | _, s'⟩ <;> rcases hnt : n t with ⟨b | y | _, t'⟩ <;>
      simp only [hms, hnt, Out.ok.injEq, Out.err.injEq, reduceCtorEq] at he h'
    · subst he
      rw [bind_ok (attempt_ok hms), bind_ok (attempt_ok hnt)]
      exact hf a s' t' h'
    · rw [bind_ok (attempt_err hms)]
      exact .inl (herr x s')
    · have hs : Prog.attempt m s = (.hang, s') := by rw [Prog.attempt, hms]
      have ht : Prog.attempt n t = (.hang, t') := by rw [Prog.attempt, hnt]
      rw [bind_hang hs, bind_hang ht]
      exact .inr ⟨rfl, h'⟩

theorem FailsOr.ite {c : Prop} [Decidable c] {m' : Prog ε σ α} {n' : Prog ε τ α}
    (hm : c → FailsOr R m n) (hn : ¬ c → FailsOr R m' n') :
    FailsOr R (if c then m else m') (if c then n else n') := by
  by_cases h : c
  · rw [if_pos h, if_pos h]; exact hm h
  · rw [if_neg h, if_neg h]; exact hn h

theorem FailsOr.get_bind {f : σ → Prog ε σ α} {g : τ → Prog ε τ α}
    (h : ∀ s t, R s t → FailsOr R (f s) (g t)) :
    FailsOr R (Prog.get >>= f) (Prog.get >>= g) := fun s t hst => h s t hst s t hst

theorem FailsOr.on {σ' τ' : Type} {S : σ' → τ' → Prop} {proj : σ' → σ} {put : σ → σ' → σ'}
    {proj' : τ' → τ} {put' : τ → τ' → τ'} (hm : FailsOr R m n)
    (hp : ∀ s t, S s t → R (proj s) (proj' t))
    (hput : ∀ s t v w, S s t → R v w → S (put v s) (put' w t)) :
    FailsOr S (Prog.on proj put m) (Prog.on proj' put' n) := by
  intro s t h
  rcases hm _ _ (hp s t h) with ⟨e, he⟩ | ⟨he, h'⟩
  · exact .inl ⟨e, he⟩
  · exact .inr ⟨he, hput s t _ _ h h'⟩

/-- A program that fails or does as one that ends. -/
theorem FailsOr.ne_hang (h : FailsOr R m n) {s : σ} {t : τ} (hst : R s t)
    (hn : (n t).1 ≠ .hang) : (m s).1 ≠ .hang := by
  rcases h s t hst with ⟨e, he⟩ | ⟨he, -⟩
  · rw [he]
    exact nofun
  · rw [he]
    exact hn

end FailsOr

end Exec
