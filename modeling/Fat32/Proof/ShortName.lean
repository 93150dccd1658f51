import Mathlib
import Fat32.Proof.LongName

/-!
# Generated short names

The seven nibbles of a slot number come back from a generated name: the last four are its last characters, and
the first three those between, with the nibbles of the cluster xored in (`generateShortName_slot`). The
characters are hex digits, so the entry is enumerated, and the base and the extension have no padding
(`decodeName_full`).
-/

namespace Fat32

variable {c o o' x y j : Nat} {e : Slot}

/-! ## Nibbles -/

theorem nib_lt (x j : Nat) : nib x j < 16 := by
  rw [nib]
  exact lt_of_le_of_lt Nat.and_le_right (by decide)

/-- Nibble `j` is a digit of base 16. -/
theorem nib_eq (x j : Nat) : nib x j = x / 2 ^ ((6 - j) * 4) % 16 := by
  have h4 : 0xF = 2 ^ 4 - 1 := rfl
  rw [nib, h4, Nat.and_two_pow_sub_one_eq_mod, Nat.shiftRight_eq_div_pow]

/-- Numbers of 28 bits with the same nibbles are equal. -/
theorem eq_of_nib (hx : x < 2 ^ 28) (hy : y < 2 ^ 28) (h : ∀ j < 7, nib x j = nib y j) : x = y := by
  simp only [nib_eq] at h
  have h0 := h 0 (by decide)
  have h1 := h 1 (by decide)
  have h2 := h 2 (by decide)
  have h3 := h 3 (by decide)
  have h4 := h 4 (by decide)
  have h5 := h 5 (by decide)
  have h6 := h 6 (by decide)
  simp only [Nat.reduceSub, Nat.reduceMul, Nat.reducePow] at *
  omega

theorem hex_inj : ∀ a < 16, ∀ b < 16, hex.getD a 0 = hex.getD b 0 → a = b := by decide

theorem xor_lt_sixteen {a b : Nat} (ha : a < 16) (hb : b < 16) : a ^^^ b < 16 := Nat.xor_lt_two_pow (n := 4) ha hb

/-! ## The slot -/

/-- The last seven characters have the nibbles of the slot number, once the cluster is known. -/
theorem generateShortName_slot (h : generateShortName c o = generateShortName c o') (hj : j < 7) :
    nib (o / 32) j = nib (o' / 32) j := by
  have hchar := congrFun h ⟨j + 4, by omega⟩
  unfold generateShortName at hchar
  dsimp only at hchar
  have h4 : ¬ (⟨j + 4, by omega⟩ : Fin 11) < 4 := by
    rw [Fin.lt_def]
    show ¬ j + 4 < 4
    omega
  rw [if_neg h4, if_neg h4, Nat.add_sub_cancel] at hchar
  by_cases h7 : (⟨j + 4, by omega⟩ : Fin 11) < 7
  · -- under the nibbles of the cluster
    rw [if_pos h7, if_pos h7] at hchar
    have hxor := hex_inj _ (xor_lt_sixteen (nib_lt _ _) (nib_lt _ _)) _ (xor_lt_sixteen (nib_lt _ _) (nib_lt _ _)) hchar
    exact Nat.xor_right_inj.mp hxor
  · rw [if_neg h7, if_neg h7] at hchar
    exact hex_inj _ (nib_lt _ _) _ (nib_lt _ _) hchar

/-! ## The characters -/

theorem generateShortName_hex (c o : Nat) (i : Fin 11) : ∃ a < 16, generateShortName c o i = hex.getD a 0 := by
  unfold generateShortName
  dsimp only
  split
  · exact ⟨_, nib_lt _ _, rfl⟩
  · split
    · exact ⟨_, xor_lt_sixteen (nib_lt _ _) (nib_lt _ _), rfl⟩
    · exact ⟨_, nib_lt _ _, rfl⟩

/-- None of them is a mark, padding or a dot. -/
theorem generateShortName_char (c o : Nat) (i : Fin 11) : generateShortName c o i ≠ 0 ∧
    generateShortName c o i ≠ lfnDeleted ∧ generateShortName c o i ≠ 32 ∧ generateShortName c o i ≠ 46 := by
  have hhex : ∀ a < 16, hex.getD a 0 ≠ 0 ∧ hex.getD a 0 ≠ lfnDeleted ∧ hex.getD a 0 ≠ 32 ∧ hex.getD a 0 ≠ 46 := by decide
  obtain ⟨a, ha, heq⟩ := generateShortName_hex c o i
  rw [heq]
  exact hhex a ha

theorem takeWhile_full {l : List UInt8} (h : ∀ x ∈ l, x ≠ 32) : l.takeWhile (· ≠ 32) = l :=
  List.takeWhile_eq_self_iff.mpr fun x hx => decide_eq_true (h x hx)

/-- Without padding a short name decodes to all of its characters. -/
theorem decodeName_full (h : ∀ i, e.name i ≠ 32) :
    e.decodeName = (List.ofFn e.name).take 8 ++ 46 :: (List.ofFn e.name).drop 8 := by
  have hmem : ∀ x ∈ List.ofFn e.name, x ≠ 32 := by
    intro x hx
    obtain ⟨i, rfl⟩ := List.mem_ofFn.mp hx
    exact h i
  have hext : (List.ofFn e.name).drop 8 ≠ [] := by
    apply List.ne_nil_of_length_pos
    simp
  unfold Slot.decodeName
  dsimp only
  rw [takeWhile_full fun x hx => hmem x (List.mem_of_mem_take hx), takeWhile_full fun x hx => hmem x (List.mem_of_mem_drop hx),
    if_neg hext]

/-- The names for two slots of a directory are different. An entry with such a name is enumerated, and without long
name entries as the eight characters of the base and the three of the extension. -/
theorem generateShortName_identifies (cluster : Nat) :
    (∀ o o', o < 2 ^ 32 → o' < 2 ^ 32 → o / 32 ≠ o' / 32 → generateShortName cluster o ≠ generateShortName cluster o') ∧
    ∀ o, (∀ i, generateShortName cluster o i ≠ 0 ∧ generateShortName cluster o i ≠ lfnDeleted ∧
        generateShortName cluster o i ≠ 32 ∧ generateShortName cluster o i ≠ 46) ∧
      ∀ e : Slot, e.name = generateShortName cluster o → e.attr &&& attrVolumeId = 0 →
        e.decodeName = (List.ofFn (generateShortName cluster o)).take 8 ++ 46 :: (List.ofFn (generateShortName cluster o)).drop 8 ∧
        ∀ st : Scan, ∃ st', scanSlot dNameSize e st = .entry st' ∧
          (st.name.data 0 = 0 → st'.name = st.name.store e.decodeName) := by
  refine ⟨fun o o' ho ho' hne heq => ?_, fun o => ⟨generateShortName_char cluster o, fun e hname hattr => ?_⟩⟩
  · apply hne
    exact eq_of_nib (by omega) (by omega) fun j hj => generateShortName_slot heq hj
  · have hchar : ∀ i, e.name i ≠ 0 ∧ e.name i ≠ lfnDeleted ∧ e.name i ≠ 32 ∧ e.name i ≠ 46 := by
      rw [hname]
      exact generateShortName_char cluster o
    have hdecode := decodeName_full fun i => (hchar i).2.2.1
    have hlen : e.decodeName.length = 12 := by
      rw [hdecode]
      simp
    refine ⟨by rw [hdecode, hname], fun st => ?_⟩
    have hentry : e.IsEntry := ⟨(hchar 0).1, (hchar 0).2.1, hattr⟩
    obtain ⟨st', hscan, hst⟩ := scanSlot_entry hentry st
    refine ⟨st', hscan, fun h0 => ?_⟩
    rw [hst, if_pos h0, List.take_of_length_le]
    rw [hlen]
    decide

/-- Two slots in a row. -/
theorem generateShortName_next : generateShortName 2 64 ≠ generateShortName 2 96 :=
  (generateShortName_identifies 2).1 64 96 (by decide) (by decide) (by decide)

end Fat32
