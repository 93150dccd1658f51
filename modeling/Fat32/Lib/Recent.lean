import Mathlib

/-!
# Recent uses

A list of uses of keys, the newest last. `lastUses` keeps the last use of each key; the `n`
newest of these are what a cache of `n` places holds that gives up the oldest. A new use takes the
place of an earlier one of its key (`rtake_lastUses_hit`), or of the oldest (`rtake_lastUses_miss`).
-/

namespace Recent

variable {α κ : Type} [DecidableEq κ] {key : α → κ} {l : List α} {a : α} {k : κ} {n : Nat}

/-- The last use of each key, in the order of the uses. -/
def lastUses (key : α → κ) : List α → List α
  | [] => []
  | a :: l => if key a ∈ l.map key then lastUses key l else a :: lastUses key l

theorem lastUses_sublist (l : List α) : (lastUses key l).Sublist l := by
  induction l with
  | nil => exact List.Sublist.slnil
  | cons a l ih =>
    rw [lastUses]
    split
    · exact ih.cons a
    · exact ih.cons_cons a

/-- Every key is used last once. -/
theorem lastUses_nodup (l : List α) : ((lastUses key l).map key).Nodup := by
  induction l with
  | nil => exact List.nodup_nil
  | cons a l ih =>
    rw [lastUses]
    split
    · exact ih
    · rename_i h
      rw [List.map_cons, List.nodup_cons]
      exact ⟨fun hmem => h (((lastUses_sublist l).map key).subset hmem), ih⟩

theorem lastUses_of_nodup (h : (l.map key).Nodup) : lastUses key l = l := by
  induction l with
  | nil => rfl
  | cons a l ih =>
    rw [List.map_cons, List.nodup_cons] at h
    rw [lastUses, if_neg h.1, ih h.2]

/-- A new use replaces the last one of its key. -/
theorem lastUses_snoc (l : List α) (a : α) :
    lastUses key (l ++ [a]) = (lastUses key l).filter (fun b => key b ≠ key a) ++ [a] := by
  induction l with
  | nil => rfl
  | cons b l ih =>
    have hmem : key b ∈ (l ++ [a]).map key ↔ key b ∈ l.map key ∨ key b = key a := by simp
    rw [List.cons_append, lastUses, lastUses, ih]
    by_cases hb : key b ∈ l.map key
    · rw [if_pos (hmem.mpr (.inl hb)), if_pos hb]
    · by_cases ha : key b = key a
      · rw [if_pos (hmem.mpr (.inr ha)), if_neg hb, List.filter_cons_of_neg (by simp [ha])]
      · rw [if_neg fun h => (hmem.mp h).elim hb ha, if_neg hb, List.filter_cons_of_pos (by simp [ha]),
          List.cons_append]

/-- With one use of each key, the first one of a key is the only one. -/
theorem eraseP_eq_filter (h : (l.map key).Nodup) :
    l.eraseP (fun b => key b = k) = l.filter fun b => key b ≠ k := by
  induction l with
  | nil => rfl
  | cons b l ih =>
    rw [List.map_cons, List.nodup_cons] at h
    by_cases hb : key b = k
    · have hrest : ∀ c ∈ l, decide (key c ≠ k) = true := fun c hc => by
        rw [decide_eq_true_eq]
        exact fun hk => h.1 (List.mem_map.mpr ⟨c, hc, hk.trans hb.symm⟩)
      rw [List.eraseP_cons_of_pos (by simp [hb]), List.filter_cons_of_neg (by simp [hb]),
        List.filter_eq_self.mpr hrest]
    · rw [List.eraseP_cons_of_neg (by simp [hb]), List.filter_cons_of_pos (by simp [hb]), ih h.2]

/-- No use is lost for another one. -/
theorem length_lastUses_le (l : List α) (a : α) :
    (lastUses key l).length ≤ (lastUses key (l ++ [a])).length := by
  rw [lastUses_snoc, ← eraseP_eq_filter (lastUses_nodup l), List.length_append, List.length_eraseP,
    List.length_singleton]
  split <;> omega

theorem eraseP_congr {p q : α → Bool} (h : ∀ a ∈ l, p a = q a) : l.eraseP p = l.eraseP q := by
  induction l with
  | nil => rfl
  | cons a l ih =>
    rw [List.forall_mem_cons] at h
    rw [List.eraseP_cons, List.eraseP_cons, h.1, ih h.2]

/-! ## The newest uses -/

/-- The `n` newest, behind the others. -/
theorem rtake_split (l : List α) (n : Nat) : l.take (l.length - n) ++ l.rtake n = l :=
  List.take_append_drop _ _

theorem length_rtake (h : n ≤ l.length) : (l.rtake n).length = n := by
  rw [List.rtake, List.length_drop]
  omega

theorem rtake_append {l m : List α} (h : n ≤ m.length) : (l ++ m).rtake n = m.rtake n := by
  rw [List.rtake, List.rtake, List.length_append, List.drop_append,
    List.drop_eq_nil_of_le (by omega), List.nil_append]
  congr 1
  omega

/-- The key is among the newest: only the place of its use changes. -/
theorem rtake_lastUses_hit (hn : n ≤ (lastUses key l).length)
    (h : key a ∈ ((lastUses key l).rtake n).map key) :
    (lastUses key (l ++ [a])).rtake n =
      ((lastUses key l).rtake n).eraseP (fun b => key b = key a) ++ [a] := by
  have hnodup := @lastUses_nodup _ _ _ key l
  have hlen := length_rtake hn
  obtain ⟨m, hm⟩ : ∃ m, lastUses key l = m := ⟨_, rfl⟩
  rw [lastUses_snoc]
  rw [hm] at hnodup hn h hlen ⊢
  rw [← rtake_split m n, List.map_append, List.nodup_append'] at hnodup
  obtain ⟨-, hnew, hdis⟩ := hnodup
  -- the others do not use the key
  have hold : (m.take (m.length - n)).filter (fun b => key b ≠ key a) = m.take (m.length - n) :=
    List.filter_eq_self.mpr fun b hb => by
      rw [decide_eq_true_eq]
      exact fun hk => hdis (List.mem_map.mpr ⟨b, hb, hk⟩) h
  have herase := eraseP_eq_filter (k := key a) hnew
  obtain ⟨b, hb, hkey⟩ := List.mem_map.mp h
  have hone : ((m.rtake n).eraseP fun b => key b = key a).length = n - 1 := by
    rw [List.length_eraseP_of_mem hb (by simp [hkey]), hlen]
  have hpos : 0 < n := by
    rw [← hlen]
    exact List.length_pos_of_mem hb
  obtain ⟨j, rfl⟩ : ∃ j, n = j + 1 := ⟨n - 1, by omega⟩
  conv_lhs => rw [← rtake_split m (j + 1)]
  rw [List.filter_append, hold, List.rtake_concat_succ, ← herase, rtake_append (by omega), List.rtake, hone,
    Nat.add_sub_cancel, Nat.sub_self, List.drop_zero]

/-- The key is not among the newest: the oldest of them goes. -/
theorem rtake_lastUses_miss (hpos : 0 < n) (hn : n ≤ (lastUses key l).length)
    (h : key a ∉ ((lastUses key l).rtake n).map key) :
    (lastUses key (l ++ [a])).rtake n = ((lastUses key l).rtake n).tail ++ [a] := by
  have hlen := length_rtake hn
  obtain ⟨m, hm⟩ : ∃ m, lastUses key l = m := ⟨_, rfl⟩
  rw [lastUses_snoc]
  rw [hm] at hn h hlen ⊢
  have hkept : (m.rtake n).filter (fun b => key b ≠ key a) = m.rtake n :=
    List.filter_eq_self.mpr fun b hb => by
      rw [decide_eq_true_eq]
      exact fun hk => h (List.mem_map.mpr ⟨b, hb, hk⟩)
  obtain ⟨j, rfl⟩ : ∃ j, n = j + 1 := ⟨n - 1, by omega⟩
  conv_lhs => rw [← rtake_split m (j + 1)]
  rw [List.filter_append, hkept, List.rtake_concat_succ, rtake_append (by omega), List.rtake, hlen,
    Nat.add_sub_cancel_left, List.drop_one]

end Recent
