import Mathlib

/-!
# Dictionaries

A list of entries with keys is a dictionary: what it says of a key is what the first entry with the key says (`dict`). In a
list of entries with distinct keys it does not matter where a new entry goes (`dict_insert`), and an entry taken out leaves
its key without one (`dict_remove`). `Trace` is a run of steps with labels; a relation that every step keeps takes the runs of
one system to runs of another with the same labels (`Trace.simulates`).
-/

namespace Dictionary

/-! ## Keys -/

section

variable {α κ β : Type*} {key : α → κ} {val : α → β} {l a b : List α} {x y : α} {k : κ}

/-- No two entries have a key in common. -/
def Distinct (key : α → κ) (l : List α) : Prop := (l.map key).Nodup

theorem Distinct.insert (h : Distinct key (a ++ b)) (hnew : ∀ y ∈ a ++ b, key y ≠ key x) : Distinct key (a ++ x :: b) := by
  unfold Distinct at h ⊢
  rw [List.map_append, List.map_cons, List.nodup_middle, List.nodup_cons, ← List.map_append]
  refine ⟨fun hmem => ?_, h⟩
  obtain ⟨y, hy, heq⟩ := List.mem_map.mp hmem
  exact hnew y hy heq

theorem Distinct.remove (h : Distinct key (a ++ x :: b)) : Distinct key (a ++ b) ∧ ∀ y ∈ a ++ b, key y ≠ key x := by
  unfold Distinct at h ⊢
  rw [List.map_append, List.map_cons, List.nodup_middle, List.nodup_cons, ← List.map_append] at h
  exact ⟨h.2, fun y hy heq => h.1 (List.mem_map.mpr ⟨y, hy, heq⟩)⟩

theorem Distinct.unique (h : Distinct key l) (hx : x ∈ l) (hy : y ∈ l) (heq : key x = key y) : x = y :=
  List.inj_on_of_nodup_map h hx hy heq

variable [DecidableEq κ]

/-- What the first entry with the key says. -/
def dict (key : α → κ) (val : α → β) (l : List α) (k : κ) : Option β := (l.find? fun x => key x = k).map val

theorem dict_eq_none : dict key val l k = none ↔ ∀ x ∈ l, key x ≠ k := by
  simp [dict]

theorem mem_of_dict {b : β} (h : dict key val l k = some b) : ∃ x ∈ l, key x = k ∧ val x = b := by
  obtain ⟨x, hx, hval⟩ := Option.map_eq_some_iff.mp h
  exact ⟨x, List.mem_of_find?_eq_some hx, by simpa using List.find?_some hx, hval⟩

theorem find_key (h : Distinct key l) (hx : x ∈ l) : (l.find? fun y => key y = key x) = some x := by
  cases hf : l.find? fun y => key y = key x with
  | none => exact absurd (decide_eq_true rfl) (List.find?_eq_none.mp hf x hx)
  | some y =>
    have hkey : key y = key x := by simpa using List.find?_some hf
    rw [h.unique (List.mem_of_find?_eq_some hf) hx hkey]

theorem dict_mem (h : Distinct key l) (hx : x ∈ l) : dict key val l (key x) = some (val x) := by
  rw [dict, find_key h hx]
  rfl

/-- A new entry is found under its key, wherever it is put. -/
theorem dict_insert (hnew : ∀ y ∈ a ++ b, key y ≠ key x) :
    dict key val (a ++ x :: b) = Function.update (dict key val (a ++ b)) (key x) (some (val x)) := by
  funext k
  by_cases hk : k = key x
  · subst hk
    have ha : (a.find? fun y => decide (key y = key x)) = none :=
      List.find?_eq_none.mpr fun y hy => by simpa using hnew y (List.mem_append_left _ hy)
    rw [Function.update_self, dict, List.find?_append, ha, List.find?_cons_of_pos (by simp)]
    rfl
  · have hx : (x :: b).find? (fun y => decide (key y = k)) = b.find? fun y => decide (key y = k) :=
      List.find?_cons_of_neg (by simpa using fun h => hk h.symm)
    rw [Function.update_of_ne hk, dict, dict, List.find?_append, List.find?_append, hx]

/-- An entry that is taken out is not found any more, and the others are. -/
theorem dict_remove (h : Distinct key (a ++ x :: b)) :
    dict key val (a ++ b) = Function.update (dict key val (a ++ x :: b)) (key x) none := by
  rw [dict_insert h.remove.2, Function.update_idem, Function.update_eq_self_iff.mpr]
  exact (dict_eq_none.mpr h.remove.2).symm

end

/-! ## Runs -/

section

variable {σ τ ℓ : Type*} {step : σ → ℓ → σ → Prop} {step' : τ → ℓ → τ → Prop} {s t u : σ} {A B : τ} {a : ℓ} {l m : List ℓ}

/-- A run with the labels of its steps. -/
inductive Trace (step : σ → ℓ → σ → Prop) : σ → List ℓ → σ → Prop
  | nil (s : σ) : Trace step s [] s
  | cons {s t u : σ} {a : ℓ} {l : List ℓ} (h : step s a t) (run : Trace step t l u) : Trace step s (a :: l) u

theorem Trace.append (h : Trace step s l t) (k : Trace step t m u) : Trace step s (l ++ m) u := by
  induction h with
  | nil s => exact k
  | cons h _ ih => exact .cons h (ih k)

/-- A relation that each step keeps takes runs to runs with the same labels. -/
theorem Trace.simulates {R : σ → τ → Prop} (hstep : ∀ {s a t A}, R s A → step s a t → ∃ B, step' A a B ∧ R t B)
    (run : Trace step s l t) (h : R s A) : ∃ B, Trace step' A l B ∧ R t B := by
  induction run generalizing A with
  | nil s => exact ⟨A, .nil A, h⟩
  | cons hs _ ih =>
    obtain ⟨B, hB, hR⟩ := hstep h hs
    obtain ⟨C, hrun, hC⟩ := ih hR
    exact ⟨C, .cons hB hrun, hC⟩

/-- What each step keeps holds at the end of a run. -/
theorem Trace.invariant {I : σ → Prop} (hstep : ∀ {s a t}, a ∈ l → I s → step s a t → I t) (run : Trace step s l t) (h : I s) : I t := by
  induction run with
  | nil s => exact h
  | cons hs _ ih => exact ih (fun ha => hstep (List.mem_cons_of_mem _ ha)) (hstep List.mem_cons_self h hs)

end

end Dictionary
