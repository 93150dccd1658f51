import Mathlib
import Fat32.Proof.Names
import Fat32.Proof.Removal

/-!
# Editing a tidy directory

A new entry goes into the list of the entries of a tidy directory, and a removed one out of it (`Tidy.insert`,
`Tidy.remove`). The new entry may stand behind the end mark, or between entries whose neighbours were deleted, so nothing but
zeros is behind the end mark (`Closed`).
-/

namespace Fat32

open Bytes FirstFit

variable {A B D S W Z l : List Slot} {s e : Slot} {i k n : Nat} {es : List DirEntry} {x : DirEntry}

/-! ## The end of a directory -/

/-- No slot behind the end of the directory is used. -/
def Closed (D : List Slot) : Prop := ∀ (k : Nat) (s : Slot), D[k]? = some s → s.first ≠ 0 → Open D k

theorem Closed.tail (h : Closed (s :: l)) : Closed l := fun k x hx hused j hj y hy =>
  h (k + 1) x hx hused (j + 1) (Nat.succ_lt_succ hj) y hy

theorem Closed.zeros (h : Closed (s :: l)) (h0 : s.first = 0) : ∀ x ∈ l, x.first = 0 := by
  intro x hx
  obtain ⟨k, hk⟩ := List.getElem?_of_mem hx
  by_contra hused
  exact h (k + 1) x hk hused 0 (Nat.succ_pos k) s rfl h0

theorem Closed.append (h : Closed D) (hZ : ∀ z ∈ Z, z.first = 0) : Closed (D ++ Z) := by
  intro k x hx hused j hj y hy
  rcases Nat.lt_or_ge k D.length with hlt | hge
  · rw [List.getElem?_append_left hlt] at hx
    rw [List.getElem?_append_left (hj.trans hlt)] at hy
    exact h k x hx hused j hj y hy
  · rw [List.getElem?_append_right hge] at hx
    exact absurd (hZ x (List.mem_of_getElem? hx)) hused

theorem tidy_zeros (hZ : ∀ z ∈ Z, z.first = 0) : Tidy i Z [] := by
  cases Z with
  | nil => exact .nil
  | cons z Z => exact .stop (hZ z List.mem_cons_self)

/-- A directory that has grown has the same entries. -/
theorem Tidy.append_zeros (h : Tidy i D es) (hZ : ∀ z ∈ Z, z.first = 0) : Tidy i (D ++ Z) es := by
  induction h with
  | nil => exact tidy_zeros hZ
  | stop h0 => exact .stop h0
  | pass hs hl _ ih => exact .pass hs hl ih
  | entry hS he _ ih =>
    rw [List.append_assoc]
    exact .entry hS he ih

/-! ## A new entry -/

/-- A free slot is the end of the entries, or has none. -/
theorem Tidy.free (h : Tidy i (s :: l) es) (hs : s.first = 0 ∨ s.first = lfnDeleted) :
    s.first = 0 ∧ es = [] ∨ s.first = lfnDeleted ∧ Tidy (i + 1) l es := by
  generalize hD : s :: l = D at h
  cases h with
  | nil => cases hD
  | stop h0 =>
    cases hD
    exact .inl ⟨h0, rfl⟩
  | pass hskip _ h =>
    cases hD
    exact .inr ⟨hs.resolve_left hskip.1, h⟩
  | @entry _ S e _ _ hS he _ =>
    have hmem : s ∈ S ++ [e] := by
      cases S with
      | nil =>
        cases hD
        exact List.mem_singleton_self _
      | cons t T =>
        cases hD
        exact List.mem_cons_self
    obtain ⟨h0, hd⟩ := entry_used hS he s hmem
    exact absurd hs (not_or.mpr ⟨h0, hd⟩)

/-- Behind free slots are the same entries. -/
theorem Tidy.skip (n : Nat) : ∀ {i : Nat} {D : List Slot}, Tidy i D es → Closed D → n ≤ D.length → (∀ j < n, FreeAt D j) →
    Tidy (i + n) (D.drop n) es := by
  induction n with
  | zero => exact fun h _ _ _ => h
  | succ n ih =>
    intro i D h hc hlen hfree
    cases D with
    | nil => exact absurd hlen (Nat.not_succ_le_zero n)
    | cons s l =>
      have hs : s.first = 0 ∨ s.first = lfnDeleted := by
        rcases hfree 0 (Nat.succ_pos n) with ⟨y, hy, hd⟩ | ⟨j, hj, h0⟩
        · obtain rfl : s = y := Option.some.inj hy
          exact .inr hd
        · obtain rfl := Nat.le_zero.mp hj
          exact .inl (h0 s rfl)
      rw [List.drop_succ_cons]
      rcases h.free hs with ⟨h0, rfl⟩ | ⟨hd, h⟩
      · exact tidy_zeros fun z hz => hc.zeros h0 z (List.mem_of_mem_drop hz)
      · have h0 : s.first ≠ 0 := by
          rw [hd]
          decide
        rw [← Nat.add_assoc, Nat.add_right_comm]
        refine ih h hc.tail (Nat.le_of_succ_le_succ hlen) fun j hj => ?_
        rcases hfree (j + 1) (Nat.succ_lt_succ hj) with ⟨y, hy, hd⟩ | ⟨m, hm, hz⟩
        · exact .inl ⟨y, hy, hd⟩
        · cases m with
          | zero => exact absurd (hz s rfl) h0
          | succ m => exact .inr ⟨m, Nat.le_of_succ_le_succ hm, hz⟩

theorem putSlots_eq (h : k + W.length ≤ D.length) : putSlots D k W = D.take k ++ (W ++ D.drop (k + W.length)) := by
  have hdrop : (putSlots D k W).drop (k + W.length) = D.drop (k + W.length) := by
    apply List.ext_getElem?
    intro j
    rw [List.getElem?_drop, List.getElem?_drop, putSlots_other W D (.inr (Nat.le_add_right _ _))]
  rw [← List.take_append_drop (k + W.length) (putSlots D k W), hdrop, take_putSlots W D h, List.append_assoc]

/-- A new entry in the first free slots that it fits in. -/
theorem Tidy.insert (h : Tidy 0 D es) (hc : Closed D) (hfirst : First (FreeAt D) (S.length + 1) k) (hZ : ∀ z ∈ Z, z.first = 0)
    (hin : k + (S.length + 1) ≤ (D ++ Z).length) (hS : S = [] ∨ CompleteSet S e) (he : e.IsEntry) :
    ∃ es1 es2, es = es1 ++ es2 ∧ Tidy 0 (putSlots (D ++ Z) k (S ++ [e])) (es1 ++ ⟨k + S.length, S, e⟩ :: es2) := by
  have hle := first_le hfirst
  have hk : k ≤ (D ++ Z).length := by omega
  have hlen : (S ++ [e]).length = S.length + 1 := List.length_append
  have hopen : Open (D ++ Z) k := fun j hj y hy => by
    rw [List.getElem?_append_left (hj.trans_le hle)] at hy
    exact first_open hfirst j hj y hy
  have hfree (j : Nat) (hj : j < S.length + 1) : FreeAt (D ++ Z) (k + j) := freeAt_append hZ (hfirst.window j hj)
  obtain ⟨es1, es2, rfl, hback, hes⟩ := (h.append_zeros hZ).cut hk hopen fun y hy => by
    rcases Nat.lt_or_ge k D.length with hlt | hge
    · rw [List.getElem?_append_left hlt] at hy
      exact first_free hfirst (Nat.succ_pos _) y hy
    · rw [List.getElem?_append_right hge] at hy
      exact .inl (hZ y (List.mem_of_getElem? hy))
  refine ⟨es1, es2, rfl, ?_⟩
  rw [putSlots_eq (by rwa [hlen]), hlen, List.append_assoc]
  apply hes
  rw [Nat.zero_add] at hback ⊢
  refine .entry hS he ?_
  have hclosed : Closed ((D ++ Z).drop k) := fun j y hy hused m hm w hw => by
    rw [List.getElem?_drop] at hy hw
    exact hc.append hZ (k + j) y hy hused (k + m) (Nat.add_lt_add_left hm k) w hw
  have hskip := hback.skip (S.length + 1) hclosed (by rw [List.length_drop]; omega) fun j hj => by
    rcases hfree j hj with ⟨y, hy, hd⟩ | ⟨m, hm, hz⟩
    · exact .inl ⟨y, by rw [List.getElem?_drop, hy], hd⟩
    · rcases Nat.lt_or_ge m k with hlt | hge
      · -- an end in front of the slots
        have hm' : (D ++ Z)[m]? = some (D ++ Z)[m] := List.getElem?_eq_getElem (hlt.trans_le hk)
        exact absurd (hz _ hm') (hopen m hlt _ hm')
      · refine .inr ⟨m - k, by omega, fun y hy => hz y ?_⟩
        rwa [List.getElem?_drop, Nat.add_sub_cancel' hge] at hy
  rwa [List.drop_drop, ← Nat.add_assoc] at hskip

/-- It does not end the directory. -/
theorem Closed.insert (hc : Closed D) (hfirst : First (FreeAt D) W.length k) (hZ : ∀ z ∈ Z, z.first = 0)
    (hin : k + W.length ≤ (D ++ Z).length) (hW : ∀ w ∈ W, w.first ≠ 0) : Closed (putSlots (D ++ Z) k W) := by
  have hle := first_le hfirst
  have hput (j : Nat) (hj : j < W.length) : (putSlots (D ++ Z) k W)[k + j]? = W[j]? := by
    have htake : ((D ++ Z).take k).length = k := List.length_take_of_le (by omega)
    rw [putSlots_eq hin, List.getElem?_append_right (by omega), htake, Nat.add_sub_cancel_left, List.getElem?_append_left hj]
  intro m y hy hused j hj z hz
  by_cases hjin : k ≤ j ∧ j < k + W.length
  · rw [← Nat.add_sub_cancel' hjin.1, hput _ (by omega)] at hz
    exact hW z (List.mem_of_getElem? hz)
  · rw [putSlots_other W _ (by omega)] at hz
    rcases Nat.lt_or_ge j k with hjk | hjk
    · rw [List.getElem?_append_left (hjk.trans_le hle)] at hz
      exact first_open hfirst j hjk z hz
    · rw [putSlots_other W _ (by omega)] at hy
      exact hc.append hZ m y hy hused j hj z hz

/-! ## A removed one -/

/-- The slots of an entry, those in front of it and those behind it. -/
structure Parted (i : Nat) (D : List Slot) (es1 : List DirEntry) (x : DirEntry) (es2 : List DirEntry) (A B : List Slot) : Prop where
  split : D = A ++ (x.set ++ x.dentry :: B)
  start : i + A.length = x.start
  slot : x.start + x.set.length = x.slot
  set : x.set = [] ∨ CompleteSet x.set x.dentry
  entry : x.dentry.IsEntry
  front : ∀ Q es', Tidy x.start Q es' → Tidy i (A ++ Q) (es1 ++ es')
  back : Tidy (x.slot + 1) B es2

theorem Tidy.part (h : Tidy i D es) : x ∈ es → ∃ es1 es2 A B, es = es1 ++ x :: es2 ∧ Parted i D es1 x es2 A B := by
  induction h with
  | nil => exact fun hx => absurd hx List.not_mem_nil
  | stop => exact fun hx => absurd hx List.not_mem_nil
  | @pass i s l es hs hl _ ih =>
    intro hx
    obtain ⟨es1, es2, A, B, hes, P⟩ := ih hx
    refine ⟨es1, es2, s :: A, B, hes, ⟨by rw [P.split, List.cons_append], ?_, P.slot, P.set, P.entry, ?_, P.back⟩⟩
    · rw [← P.start, List.length_cons]
      omega
    · exact fun Q es' h => .pass hs hl (P.front Q es' h)
  | @entry i S e l es hS he h ih =>
    intro hx
    rcases List.mem_cons.mp hx with rfl | hx
    · have hstart : DirEntry.start ⟨i + S.length, S, e⟩ = i := Nat.add_sub_cancel _ _
      refine ⟨[], es, [], l, rfl, ⟨rfl, hstart.symm, by rw [hstart], hS, he, fun Q es' h => ?_, h⟩⟩
      rwa [hstart] at h
    · obtain ⟨es1, es2, A, B, hes, P⟩ := ih hx
      refine ⟨⟨i + S.length, S, e⟩ :: es1, es2, S ++ e :: A, B, by rw [hes, List.cons_append],
        ⟨by rw [P.split]; simp, ?_, P.slot, P.set, P.entry, fun Q es' h => ?_, P.back⟩⟩
      · rw [← P.start, List.length_append, List.length_cons]
        omega
      · rw [List.append_assoc, List.cons_append]
        exact .entry hS he (P.front Q es' h)

theorem deleteRange_append (W : List Slot) : ∀ (A B : List Slot),
    deleteRange A.length W.length (A ++ (W ++ B)) = A ++ (W.map Slot.delete ++ B) := by
  induction W with
  | nil => exact fun _ _ => rfl
  | cons w W ih =>
    intro A B
    have hmod : (A ++ (w :: W ++ B)).modify A.length Slot.delete = A ++ [w.delete] ++ (W ++ B) := by
      have h := modify_right A (w :: W ++ B) Slot.delete 0
      rw [Nat.add_zero] at h
      rw [h, List.append_assoc]
      rfl
    have hlen : (A ++ [w.delete]).length = A.length + 1 := List.length_append
    rw [List.length_cons, deleteRange, hmod, ← hlen, ih, List.append_assoc]
    rfl

theorem tidy_deleted (W : List Slot) : ∀ {i : Nat}, Tidy (i + W.length) B es → Tidy i (W.map Slot.delete ++ B) es := by
  induction W with
  | nil => exact fun h => h
  | cons w W ih =>
    intro i h
    have hdel : w.delete.first = lfnDeleted := delete_first w
    refine .pass ⟨by rw [hdel]; decide, .inl hdel⟩ (fun hl => hl.1 hdel) (ih ?_)
    rw [List.length_cons] at h
    rwa [Nat.add_assoc, Nat.add_comm 1]

/-- The slots of an entry are marked as deleted. -/
theorem Tidy.remove (h : Tidy 0 D es) (hx : x ∈ es) : ∃ es1 es2, es = es1 ++ x :: es2 ∧
    Tidy 0 (deleteRange x.start (x.set.length + 1) D) (es1 ++ es2) := by
  obtain ⟨es1, es2, A, B, hes, P⟩ := h.part hx
  refine ⟨es1, es2, hes, ?_⟩
  have hlen : (x.set ++ [x.dentry]).length = x.set.length + 1 := List.length_append
  have hstart : A.length = x.start := by
    rw [← P.start, Nat.zero_add]
  have hD : D = A ++ ((x.set ++ [x.dentry]) ++ B) := by
    rw [P.split]
    simp
  rw [hD, ← hstart, ← hlen, deleteRange_append]
  refine P.front _ _ (tidy_deleted _ ?_)
  rw [hlen, ← Nat.add_assoc, P.slot]
  exact P.back

/-- They are in the directory, and used. -/
theorem Tidy.slots_used (h : Tidy 0 D es) (hx : x ∈ es) {j : Nat} (hj : x.start ≤ j) (hlt : j < x.start + (x.set.length + 1)) :
    ∃ s, D[j]? = some s ∧ s.first ≠ 0 := by
  obtain ⟨es1, es2, A, B, hes, P⟩ := h.part hx
  have hlen : (x.set ++ [x.dentry]).length = x.set.length + 1 := List.length_append
  have hstart : A.length = x.start := by
    rw [← P.start, Nat.zero_add]
  have hin : j - x.start < (x.set ++ [x.dentry]).length := by omega
  refine ⟨(x.set ++ [x.dentry])[j - x.start], ?_, (entry_used P.set P.entry _ (List.getElem_mem hin)).1⟩
  have hD : D = A ++ ((x.set ++ [x.dentry]) ++ B) := by
    rw [P.split]
    simp
  rw [hD, List.getElem?_append_right (by omega), hstart, List.getElem?_append_left hin, List.getElem?_eq_getElem hin]

theorem Closed.remove (hc : Closed D) (hused : ∀ j, i ≤ j → j < i + n → ∃ s, D[j]? = some s ∧ s.first ≠ 0) :
    Closed (deleteRange i n D) := by
  intro k y hy hy0 j hj z hz
  rw [deleteRange_getElem?] at hy hz
  -- the slot was used
  have hk : ∃ s, D[k]? = some s ∧ s.first ≠ 0 := by
    by_cases hin : i ≤ k ∧ k < i + n
    · exact hused k hin.1 hin.2
    · rw [if_neg hin] at hy
      exact ⟨y, hy, hy0⟩
  obtain ⟨s, hs, hs0⟩ := hk
  by_cases hin : i ≤ j ∧ j < i + n
  · rw [if_pos hin] at hz
    obtain ⟨w, -, rfl⟩ := Option.map_eq_some_iff.mp hz
    rw [delete_first]
    decide
  · rw [if_neg hin] at hz
    exact hc k s hs hs0 j hj z hz

end Fat32
