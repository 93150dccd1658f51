import Mathlib

/-!
# Little-endian words in byte memories

A memory is a function from addresses to bytes. `poke` stores a run of bytes;
`le16` and `le32` are the values of little-endian words, `byteOf` their bytes.
-/

namespace Bytes

def le16 (a b : UInt8) : Nat := a.toNat + 0x100 * b.toNat

def le32 (a b c d : UInt8) : Nat :=
  a.toNat + 0x100 * b.toNat + 0x10000 * c.toNat + 0x1000000 * d.toNat

/-- Byte `i` of a word. -/
def byteOf (val i : Nat) : UInt8 := UInt8.ofNat (val / 0x100 ^ i)

/-- Store `n` bytes `bs 0, …, bs (n - 1)` at offset `o`. -/
def poke (data : Nat → UInt8) (o n : Nat) (bs : Nat → UInt8) : Nat → UInt8 := fun i =>
  if o ≤ i ∧ i < o + n then bs (i - o) else data i

theorem toNat_byteOf (val i : Nat) : (byteOf val i).toNat = val / 0x100 ^ i % 0x100 := by
  rw [byteOf, UInt8.toNat_ofNat']

theorem le16_lt (a b : UInt8) : le16 a b < 0x10000 := by
  have := a.toNat_lt; have := b.toNat_lt
  simp only [le16]; omega

theorem le32_lt (a b c d : UInt8) : le32 a b c d < 0x100000000 := by
  have := a.toNat_lt; have := b.toNat_lt; have := c.toNat_lt; have := d.toNat_lt
  simp only [le32]; omega

theorem le16_byteOf (val : Nat) : le16 (byteOf val 0) (byteOf val 1) = val % 0x10000 := by
  simp only [le16, toNat_byteOf, pow_zero, pow_one]; omega

theorem le32_byteOf (val : Nat) :
    le32 (byteOf val 0) (byteOf val 1) (byteOf val 2) (byteOf val 3) = val % 0x100000000 := by
  simp only [le32, toNat_byteOf]; omega

theorem byteOf_le16 (a b : UInt8) : byteOf (le16 a b) 0 = a ∧ byteOf (le16 a b) 1 = b := by
  have ha := a.toNat_lt; have hb := b.toNat_lt
  constructor <;> rw [← UInt8.toNat_inj, toNat_byteOf, le16] <;> omega

theorem poke_inside {data : Nat → UInt8} {o n : Nat} {bs : Nat → UInt8} {i : Nat} (h : i < n) :
    poke data o n bs (o + i) = bs i := by
  rw [poke, if_pos ⟨by omega, by omega⟩, Nat.add_sub_cancel_left]

theorem poke_outside {data : Nat → UInt8} {o n : Nat} {bs : Nat → UInt8} {i : Nat}
    (h : i < o ∨ o + n ≤ i) : poke data o n bs i = data i := by
  rw [poke, if_neg (by omega)]

theorem poke_congr {data : Nat → UInt8} {o n : Nat} {bs bs' : Nat → UInt8}
    (h : ∀ i < n, bs i = bs' i) : poke data o n bs = poke data o n bs' := by
  funext x
  unfold poke
  split
  · exact h _ (by omega)
  · rfl

/-- Writing a block back after a change inside it. -/
theorem poke_back {data : Nat → UInt8} {a n o m : Nat} {bs : Nat → UInt8} (h : o + m ≤ n) :
    poke data a n (poke (fun i => data (a + i)) o m bs) = poke data (a + o) m bs := by
  funext x
  by_cases hx : a ≤ x ∧ x < a + n
  · obtain ⟨i, rfl⟩ := Nat.exists_eq_add_of_le hx.1
    rw [poke_inside (by omega)]
    by_cases hi : o ≤ i ∧ i < o + m
    · obtain ⟨j, rfl⟩ := Nat.exists_eq_add_of_le hi.1
      rw [poke_inside (by omega), ← Nat.add_assoc, poke_inside (by omega)]
    · rw [poke_outside (by omega), poke_outside (by omega)]
  · rw [poke_outside (by omega), poke_outside (by omega)]

/-- Two adjacent writes are one. -/
theorem poke_append (data : Nat → UInt8) (a m n : Nat) (bs : Nat → UInt8) :
    poke (poke data a m bs) (a + m) n (fun i => bs (m + i)) = poke data a (m + n) bs := by
  funext x
  by_cases h1 : a + m ≤ x ∧ x < a + m + n
  · obtain ⟨i, rfl⟩ := Nat.exists_eq_add_of_le h1.1
    rw [poke_inside (by omega), Nat.add_assoc, poke_inside (by omega)]
  · rw [poke_outside (by omega)]
    by_cases h2 : a ≤ x ∧ x < a + m
    · obtain ⟨i, rfl⟩ := Nat.exists_eq_add_of_le h2.1
      rw [poke_inside (by omega), poke_inside (by omega)]
    · rw [poke_outside (by omega), poke_outside (by omega)]

end Bytes
