import Mathlib
import Fat32.Proof.File

/-!
# The bytes of a file

`fileByte fsi w l i` is byte `i` of the file with the clusters `l`: the bytes of
the clusters, one cluster after the other. `Spliced` says that a run stored `k`
bytes at position `p` and left the others as they were; consecutive transfers
make one (`Spliced.trans`), and appending clusters changes no byte.
-/

namespace Fat32

open Bytes Exec Prog Linked

variable {fsi : Fsi} {l l' l'' ext : List Nat} {v v' : Vol} {w w' w'' : View} {a c i k o p n : Nat}
  {src : Nat → UInt8}

def fileByte (fsi : Fsi) (w : View) (l : List Nat) (i : Nat) : UInt8 :=
  w.data (l.getD (i / fsi.bytesPerCluster) 0) (i % fsi.bytesPerCluster)

structure Spliced (fsi : Fsi) (l l' : List Nat) (w w' : View) (p k : Nat) (src : Nat → UInt8) :
    Prop where
  room : p + k ≤ l'.length * fsi.bytesPerCluster
  inside : ∀ i < k, fileByte fsi w' l' (p + i) = src i
  outside : ∀ i < l.length * fsi.bytesPerCluster, i < p ∨ p + k ≤ i →
    fileByte fsi w' l' i = fileByte fsi w l i

theorem fileByte_at (hk : l[k]? = some c) (ho : o < fsi.bytesPerCluster) :
    fileByte fsi w l (k * fsi.bytesPerCluster + o) = w.data c o := by
  have hdiv : (k * fsi.bytesPerCluster + o) / fsi.bytesPerCluster = k := by
    rw [Nat.mul_comm, Nat.mul_add_div (by omega), Nat.div_eq_of_lt ho, Nat.add_zero]
  have hmod : (k * fsi.bytesPerCluster + o) % fsi.bytesPerCluster = o := by
    rw [Nat.mul_comm, Nat.mul_add_mod, Nat.mod_eq_of_lt ho]
  rw [fileByte, hdiv, hmod, List.getD_eq_getElem?_getD, hk]
  rfl

/-- The cluster of a position, and its offset there. -/
theorem position (hi : i < l.length * fsi.bytesPerCluster) :
    ∃ k c o, l[k]? = some c ∧ o < fsi.bytesPerCluster ∧ i = k * fsi.bytesPerCluster + o := by
  have hb : 0 < fsi.bytesPerCluster := by
    by_contra h
    rw [Nat.eq_zero_of_not_pos h, Nat.mul_zero] at hi
    omega
  have hk : i / fsi.bytesPerCluster < l.length := by
    rwa [Nat.div_lt_iff_lt_mul hb]
  refine ⟨i / fsi.bytesPerCluster, l[i / fsi.bytesPerCluster], i % fsi.bytesPerCluster,
    List.getElem?_eq_getElem hk, Nat.mod_lt _ hb, ?_⟩
  rw [Nat.mul_comm, Nat.div_add_mod]

theorem fileByte_append (ext : List Nat) (hi : i < l.length * fsi.bytesPerCluster) :
    fileByte fsi w (l ++ ext) i = fileByte fsi w l i := by
  obtain ⟨k, c, o, hk, ho, rfl⟩ := position hi
  have hk' : (l ++ ext)[k]? = some c := by
    rw [List.getElem?_append_left (List.getElem?_eq_some_iff.mp hk).1, hk]
  rw [fileByte_at hk ho, fileByte_at hk' ho]

/-- Views with the same bytes in the clusters of the file. -/
theorem fileByte_congr (h : ∀ c ∈ l, w'.data c = w.data c) (hi : i < l.length * fsi.bytesPerCluster) :
    fileByte fsi w' l i = fileByte fsi w l i := by
  obtain ⟨k, c, o, hk, ho, rfl⟩ := position hi
  rw [fileByte_at hk ho, fileByte_at hk ho, h c (List.mem_of_getElem? hk)]

namespace Spliced

theorem refl (hp : p ≤ l.length * fsi.bytesPerCluster) (w : View) (src : Nat → UInt8) :
    Spliced fsi l l w w p 0 src :=
  ⟨hp, fun i hi => absurd hi (by omega), fun _ _ _ => rfl⟩

theorem trans (h : Spliced fsi l l' w w' p k src) (hle : l.length ≤ l'.length)
    (g : Spliced fsi l' l'' w' w'' (p + k) n fun i => src (k + i)) :
    Spliced fsi l l'' w w'' p (k + n) src := by
  refine ⟨by have := g.room; omega, fun i hi => ?_, fun i hi ho => ?_⟩
  · by_cases hik : i < k
    · have hroom := h.room
      rw [g.outside _ (by omega) (by omega)]
      exact h.inside i hik
    · have hin := g.inside (i - k) (by omega)
      rwa [show p + k + (i - k) = p + i by omega, show k + (i - k) = i by omega] at hin
  · have hi' : i < l'.length * fsi.bytesPerCluster :=
      Nat.lt_of_lt_of_le hi (Nat.mul_le_mul_right _ hle)
    rw [g.outside i hi' (by omega), h.outside i hi (by omega)]

/-- Nothing is stored, and the clusters keep their bytes. -/
theorem of_data (hp : p ≤ l.length * fsi.bytesPerCluster) (h : ∀ c ∈ l, w'.data c = w.data c)
    (src : Nat → UInt8) : Spliced fsi l (l ++ ext) w w' p 0 src := by
  refine ⟨?_, fun i hi => absurd hi (by omega), fun i hi _ => ?_⟩
  · rw [List.length_append, Nat.add_mul]
    omega
  · rw [fileByte_append ext hi, fileByte_congr h hi]

theorem grown (g : Grown fsi a l ext false v v') (hp : p ≤ l.length * fsi.bytesPerCluster)
    (src : Nat → UInt8) :
    Spliced fsi l (l ++ ext) (view fsi v.disk) (view fsi v'.disk) p 0 src :=
  of_data hp (fun c _ => g.data c (.inr rfl)) src

/-- Storing `n` bytes at offset `o` of the cluster with index `k`. -/
theorem store (hg : Geometry fsi) (hnd : l.Nodup) (hk : l[k]? = some c) (hr : InRange fsi c)
    (hon : o + n ≤ fsi.bytesPerCluster) (hp : p = k * fsi.bytesPerCluster + o)
    (hd : DataSet fsi c (poke (fun i => v.disk (clusterAddr fsi c + i)) o n src) v.disk v'.disk) :
    Spliced fsi l l (view fsi v.disk) (view fsi v'.disk) p n src := by
  obtain ⟨hkl, -⟩ := List.getElem?_eq_some_iff.mp hk
  have hw := hd.view hg hr
  have hroom : (k + 1) * fsi.bytesPerCluster ≤ l.length * fsi.bytesPerCluster :=
    Nat.mul_le_mul_right _ hkl
  rw [Nat.add_mul, Nat.one_mul] at hroom
  subst hp
  refine ⟨by omega, fun i hi => ?_, fun i hi ho => ?_⟩
  · rw [Nat.add_assoc, fileByte_at hk (by omega), hw, View.setData_same, if_pos (by omega),
      poke_inside hi]
  · obtain ⟨k', c', o', hk', ho', rfl⟩ := position hi
    rw [fileByte_at hk' ho', fileByte_at hk' ho', hw]
    by_cases hkk : k' = k
    · subst hkk
      obtain rfl := Option.some.inj (hk.symm.trans hk')
      rw [View.setData_same, if_pos ho', poke_outside (by omega), view_data hr ho']
    · rw [View.setData_ne]
      rintro rfl
      exact hkk ((List.getElem?_inj (List.getElem?_eq_some_iff.mp hk').1 hnd).mp (hk'.trans hk.symm))

end Spliced

end Fat32
