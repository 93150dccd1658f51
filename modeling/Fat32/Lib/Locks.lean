import Mathlib

/-!
# Multi-reader locks

Threads run sequences of lock actions. A lock is held by any number of threads
for access or by one for update, and is not recursive: a thread that holds a lock
and asks for it again waits for itself. `Waits s t u`: in state `s`, thread `t`
cannot go on before `u` does.

Sequences that take locks only upwards in an order of the locks and return
without any (`Upward`) never come to a cycle of waiting threads
(`Run.no_cycle`), whatever the threads do in between.
-/

namespace Locks

inductive Mode where
  | access
  | update
  deriving DecidableEq, Repr

/-- Two threads cannot hold a lock in these modes. -/
def Mode.conflicts : Mode → Mode → Bool
  | access, access => false
  | _, _ => true

inductive Act (L : Type) where
  | acquire (l : L) (m : Mode)
  | release (l : L)
  /-- Go from update to access without letting the lock go. -/
  | demote (l : L)
  deriving DecidableEq, Repr

structure Thread (L : Type) where
  held : List (L × Mode) := []
  todo : List (Act L) := []

variable {ι L α : Type} [DecidableEq ι] [DecidableEq L]

def drop (l : L) (held : List (L × Mode)) : List (L × Mode) := held.filter fun x => x.1 ≠ l

def demoted (l : L) (held : List (L × Mode)) : List (L × Mode) :=
  held.map fun x => if x.1 = l then (x.1, .access) else x

/-- No thread holds the lock in a conflicting mode, the thread that asks included. -/
def Free (s : ι → Thread L) (l : L) (m : Mode) : Prop :=
  ∀ t m', (l, m') ∈ (s t).held → m.conflicts m' = false

/-- A thread does its next action, or starts one of the sequences `C`. -/
inductive Step (C : List (Act L) → Prop) (s : ι → Thread L) : (ι → Thread L) → Prop
  | acquire (t : ι) (l : L) (m : Mode) (p : List (Act L)) (h : (s t).todo = .acquire l m :: p)
      (hf : Free s l m) : Step C s (Function.update s t ⟨(l, m) :: (s t).held, p⟩)
  | release (t : ι) (l : L) (p : List (Act L)) (h : (s t).todo = .release l :: p) :
      Step C s (Function.update s t ⟨drop l (s t).held, p⟩)
  | demote (t : ι) (l : L) (p : List (Act L)) (h : (s t).todo = .demote l :: p) :
      Step C s (Function.update s t ⟨demoted l (s t).held, p⟩)
  | call (t : ι) (p : List (Act L)) (h : (s t).todo = []) (hp : C p) :
      Step C s (Function.update s t ⟨(s t).held, p⟩)

/-- The states that threads without locks come to. -/
inductive Reach (C : List (Act L) → Prop) : (ι → Thread L) → Prop
  | init : Reach C fun _ => {}
  | step {s s' : ι → Thread L} (h : Reach C s) (hs : Step C s s') : Reach C s'

/-- The lock that the thread is about to take. -/
def Wants (s : ι → Thread L) (t : ι) (l : L) (m : Mode) : Prop :=
  ∃ p, (s t).todo = .acquire l m :: p

/-- `t` waits for `u`, which holds the lock, or waits to update what `t` only reads. -/
def Waits (s : ι → Thread L) (t u : ι) : Prop :=
  ∃ l m, Wants s t l m ∧
    ((∃ m', (l, m') ∈ (s u).held ∧ m.conflicts m' = true) ∨ m = .access ∧ Wants s u l .update)

/-! ## Upward sequences -/

variable [Preorder α]

/-- From the locks `held` on, the sequence takes locks only above those it holds, and
ends without any. -/
def Upward (rank : L → α) : List (L × Mode) → List (Act L) → Prop
  | held, [] => held = []
  | held, .acquire l m :: p => (∀ x ∈ held, rank x.1 < rank l) ∧ Upward rank ((l, m) :: held) p
  | held, .release l :: p => Upward rank (drop l held) p
  | held, .demote l :: p => Upward rank (demoted l held) p

variable {rank : L → α} {C : List (Act L) → Prop} {s s' : ι → Thread L} {t u : ι} {l l' : L}
  {m m' : Mode}

theorem Step.upward (hC : ∀ p, C p → Upward rank [] p)
    (h : ∀ t, Upward rank (s t).held (s t).todo) (hs : Step C s s') :
    ∀ t, Upward rank (s' t).held (s' t).todo := by
  -- only the thread that steps changes
  have upd (t : ι) (th : Thread L) (hth : Upward rank th.held th.todo) (u : ι) :
      Upward rank (Function.update s t th u).held (Function.update s t th u).todo := by
    by_cases hu : u = t
    · subst hu
      rwa [Function.update_self]
    · rw [Function.update_of_ne hu]
      exact h u
  cases hs with
  | acquire t l m p e hf =>
    have ht := h t
    rw [e] at ht
    exact upd t _ ht.2
  | release t l p e =>
    have ht := h t
    rw [e] at ht
    exact upd t _ ht
  | demote t l p e =>
    have ht := h t
    rw [e] at ht
    exact upd t _ ht
  | call t p e hp =>
    have ht : (s t).held = [] := by
      have ht := h t
      rwa [e] at ht
    refine upd t _ ?_
    rw [ht]
    exact hC p hp

theorem Reach.upward (hC : ∀ p, C p → Upward rank [] p) (h : Reach C s) :
    ∀ t, Upward rank (s t).held (s t).todo := by
  induction h with
  | init => exact fun _ => rfl
  | step _ hs ih => exact hs.upward hC ih

omit [DecidableEq ι] in
/-- What a waiting thread wants is above what it holds. -/
theorem Wants.above (h : Upward rank (s t).held (s t).todo) (hw : Wants s t l m) :
    ∀ x ∈ (s t).held, rank x.1 < rank l := by
  obtain ⟨p, e⟩ := hw
  rw [e] at h
  exact h.1

/-- The order of what two threads want. -/
def Below (rank : L → α) (l l' : L) (m m' : Mode) : Prop :=
  rank l < rank l' ∨ l = l' ∧ m = .access ∧ m' = .update

omit [DecidableEq ι] [DecidableEq L] in
theorem Wants.unique (h : Wants s t l m) (h' : Wants s t l' m') : l = l' ∧ m = m' := by
  obtain ⟨p, e⟩ := h
  obtain ⟨p', e'⟩ := h'
  rw [e, List.cons.injEq, Act.acquire.injEq] at e'
  exact e'.1

theorem Waits.below (h : ∀ t, Upward rank (s t).held (s t).todo) (hw : Waits s t u)
    (hu : Wants s u l' m') : ∃ l m, Wants s t l m ∧ Below rank l l' m m' := by
  obtain ⟨l, m, ht, ⟨mu, hmem, -⟩ | ⟨hm, hu'⟩⟩ := hw
  · exact ⟨l, m, ht, .inl (hu.above (h u) _ hmem)⟩
  · obtain ⟨rfl, rfl⟩ := hu.unique hu'
    exact ⟨_, m, ht, .inr ⟨rfl, hm, rfl⟩⟩

theorem TransWaits.below (h : ∀ t, Upward rank (s t).held (s t).todo)
    (hw : Relation.TransGen (Waits s) t u) (hu : Wants s u l' m') :
    ∃ l m, Wants s t l m ∧ Below rank l l' m m' := by
  induction hw generalizing l' m' with
  | single hw => exact hw.below h hu
  | tail _ hw ih =>
    obtain ⟨k, n, hv, hkl⟩ := hw.below h hu
    obtain ⟨l, m, ht, hlk⟩ := ih hv
    refine ⟨l, m, ht, ?_⟩
    obtain hlk | ⟨rfl, rfl, rfl⟩ := hlk <;> obtain hkl | ⟨rfl, hn, rfl⟩ := hkl
    · exact .inl (hlk.trans hkl)
    · exact .inl hlk
    · exact .inl hkl
    · exact nomatch hn

/-- Threads that take locks upwards never wait in a cycle, and hold nothing when they
have returned. -/
theorem Reach.no_cycle (hC : ∀ p, C p → Upward rank [] p) (h : Reach C s) (t : ι) :
    ¬ Relation.TransGen (Waits s) t t ∧ ((s t).todo = [] → (s t).held = []) := by
  have hup := h.upward hC
  constructor
  · intro hw
    obtain ⟨l, m, ht⟩ : ∃ l m, Wants s t l m := by
      obtain ⟨u, ⟨l, m, ht, -⟩, -⟩ := Relation.TransGen.head'_iff.mp hw
      exact ⟨l, m, ht⟩
    obtain ⟨l', m', ht', hb⟩ := TransWaits.below hup hw ht
    obtain ⟨rfl, rfl⟩ := ht.unique ht'
    obtain hb | ⟨-, hm, hm'⟩ := hb
    · exact lt_irrefl _ hb
    · rw [hm] at hm'
      exact nomatch hm'
  · intro e
    have ht := hup t
    rwa [e] at ht

end Locks
