import Mathlib
import Fat32.Proof.ReadWrite
import Fat32.Proof.Search

/-!
# Directories as lists of slots

A directory is the list of the slots in the clusters of its chain (`dirSlots`).
Slot `i` is at byte `32 * i`; the code finds it from the offset by a shift and a
mask, and goes on to the next cluster at the end of each one. What its scanners
do with a cluster is what they do with the list of its slots, so that
`fat32_get_dirent` and `fat32_find_dirent` are functions of the directory's list
(`getDirent_slots`, `findDirent_slots`).
-/

namespace Fat32

open Bytes Exec Prog Linked

variable {fsi : Fsi}

/-! ## The slots of a cluster -/

/-- The number of slots in a cluster. -/
def slotsPer (fsi : Fsi) : Nat := fsi.bytesPerCluster / dentrySize

def clusterSlots (fsi : Fsi) (f : Nat → UInt8) : List Slot :=
  (List.range (slotsPer fsi)).map fun i => slotAt f (dentrySize * i)

theorem bpc_slots (hg : Geometry fsi) : fsi.bytesPerCluster = 32 * slotsPer fsi := by
  have hdvd : 32 ∣ fsi.bytesPerCluster := by
    rw [hg.bpc]
    exact Dvd.dvd.mul_right (by decide) _
  exact (Nat.mul_div_cancel' hdvd).symm

theorem slotsPer_pos (hg : Geometry fsi) : 0 < slotsPer fsi := by
  have := bpc_slots hg
  have := bpc_pos hg
  omega

@[simp] theorem length_clusterSlots (f : Nat → UInt8) :
    (clusterSlots fsi f).length = slotsPer fsi := by
  simp [clusterSlots]

theorem clusterSlots_getElem? (f : Nat → UInt8) (i : Nat) :
    (clusterSlots fsi f)[i]? = if i < slotsPer fsi then some (slotAt f (32 * i)) else none := by
  rw [clusterSlots, List.getElem?_map]
  by_cases h : i < slotsPer fsi
  · rw [if_pos h, List.getElem?_range h]
    rfl
  · rw [if_neg h, List.getElem?_eq_none (by simpa using h)]
    rfl

/-- The slots from an index on. -/
theorem clusterSlots_drop (f : Nat → UInt8) {i : Nat} (h : i < slotsPer fsi) :
    (clusterSlots fsi f).drop i = slotAt f (32 * i) :: (clusterSlots fsi f).drop (i + 1) := by
  have hlt : i < (clusterSlots fsi f).length := by rwa [length_clusterSlots]
  have hi : (clusterSlots fsi f)[i]? = _ := clusterSlots_getElem? f i
  rw [if_pos h, List.getElem?_eq_getElem hlt, Option.some_inj] at hi
  rw [List.drop_eq_getElem_cons hlt, hi]

theorem clusterSlots_drop_all (f : Nat → UInt8) {i : Nat} (h : slotsPer fsi ≤ i) :
    (clusterSlots fsi f).drop i = [] :=
  List.drop_eq_nil_of_le (by rwa [length_clusterSlots])

/-- A slot is in the bytes of its cluster. -/
theorem slot_inside (hg : Geometry fsi) {i : Nat} (h : i < slotsPer fsi) (j : Fin 32) :
    32 * i + j.val < fsi.bytesPerCluster := by
  have := bpc_slots hg
  have := j.isLt
  omega

theorem clusterSlots_congr (hg : Geometry fsi) {f g : Nat → UInt8}
    (h : ∀ o < fsi.bytesPerCluster, f o = g o) : clusterSlots fsi f = clusterSlots fsi g := by
  refine List.map_congr_left fun i hi => funext fun j => ?_
  exact h _ (slot_inside hg (List.mem_range.mp hi) j)

theorem slotAt_putSlot (f : Nat → UInt8) (i j : Nat) (s : Slot) :
    slotAt (putSlot f (32 * i) s) (32 * j) = if i = j then s else slotAt f (32 * j) := by
  funext k
  have hk := k.isLt
  by_cases h : i = j
  · subst h
    rw [if_pos rfl]
    simp [slotAt, putSlot]
  · rw [if_neg h]
    simp only [slotAt, putSlot]
    rw [dif_neg (by omega)]

/-- Storing a slot in a cluster. -/
theorem clusterSlots_putSlot (f : Nat → UInt8) (i : Nat) (s : Slot) :
    clusterSlots fsi (putSlot f (32 * i) s) = (clusterSlots fsi f).modify i fun _ => s := by
  refine List.ext_getElem? fun j => ?_
  rw [clusterSlots_getElem?, List.getElem?_modify, clusterSlots_getElem?, slotAt_putSlot]
  by_cases hj : j < slotsPer fsi
  · rw [if_pos hj, if_pos hj]
    rfl
  · rw [if_neg hj, if_neg hj]
    rfl

/-- Storing the first byte of a slot. -/
theorem clusterSlots_setFirst (f : Nat → UInt8) (i : Nat) (b : UInt8) :
    clusterSlots fsi (Function.update f (32 * i) b) =
      (clusterSlots fsi f).modify i fun s => s.setByte 0 b := by
  refine List.ext_getElem? fun j => ?_
  rw [clusterSlots_getElem?, List.getElem?_modify, clusterSlots_getElem?]
  by_cases hj : j < slotsPer fsi
  · rw [if_pos hj, if_pos hj, Option.map_eq_map, Option.map_some]
    congr 1
    funext k
    have hk := k.isLt
    by_cases h : i = j
    · subst h
      simp only [slotAt, Slot.setByte, if_pos, Function.update_apply]
      by_cases h0 : k.val = 0
      · rw [if_pos (by omega), if_pos h0]
      · rw [if_neg (by omega), if_neg h0]
    · rw [if_neg h]
      exact Function.update_of_ne (by omega) _ _
  · rw [if_neg hj, if_neg hj]
    rfl

/-! ## The slots of a directory -/

/-- The slots in the clusters `cs`. -/
def dirSlots (fsi : Fsi) (data : Nat → Nat → UInt8) (cs : List Nat) : List Slot :=
  cs.flatMap fun c => clusterSlots fsi (data c)

@[simp] theorem dirSlots_nil (data : Nat → Nat → UInt8) : dirSlots fsi data [] = [] := rfl

@[simp] theorem dirSlots_cons (data : Nat → Nat → UInt8) (c : Nat) (cs : List Nat) :
    dirSlots fsi data (c :: cs) = clusterSlots fsi (data c) ++ dirSlots fsi data cs := rfl

theorem dirSlots_append (data : Nat → Nat → UInt8) (cs ds : List Nat) :
    dirSlots fsi data (cs ++ ds) = dirSlots fsi data cs ++ dirSlots fsi data ds :=
  List.flatMap_append

@[simp] theorem length_dirSlots (data : Nat → Nat → UInt8) (cs : List Nat) :
    (dirSlots fsi data cs).length = cs.length * slotsPer fsi := by
  induction cs with
  | nil => simp
  | cons c cs ih =>
    rw [dirSlots_cons, List.length_append, length_clusterSlots, ih, List.length_cons, Nat.succ_mul,
      Nat.add_comm]

theorem dirSlots_congr {data data' : Nat → Nat → UInt8} {cs : List Nat}
    (h : ∀ c ∈ cs, data' c = data c) : dirSlots fsi data' cs = dirSlots fsi data cs :=
  List.flatMap_congr fun c hc => by rw [h c hc]

/-- The slots from the cluster with index `q` on. -/
theorem dirSlots_drop (data : Nat → Nat → UInt8) (cs : List Nat) (q : Nat) :
    (dirSlots fsi data cs).drop (q * slotsPer fsi) = dirSlots fsi data (cs.drop q) := by
  induction cs generalizing q with
  | nil => simp
  | cons c cs ih =>
    cases q with
    | zero => simp
    | succ q =>
      have hlen : (q + 1) * slotsPer fsi - (clusterSlots fsi (data c)).length =
          q * slotsPer fsi := by
        rw [length_clusterSlots, Nat.succ_mul, Nat.add_sub_cancel]
      rw [dirSlots_cons, List.drop_append, hlen, ih, List.drop_succ_cons,
        clusterSlots_drop_all _ (Nat.le_mul_of_pos_left _ (Nat.succ_pos q)), List.nil_append]

/-- The slots from index `r` of the cluster with index `q` on. -/
theorem dirSlots_drop_in (data : Nat → Nat → UInt8) {cs : List Nat} {c q r : Nat}
    (hc : cs[q]? = some c) (hr : r ≤ slotsPer fsi) :
    (dirSlots fsi data cs).drop (q * slotsPer fsi + r) =
      (clusterSlots fsi (data c)).drop r ++ dirSlots fsi data (cs.drop (q + 1)) := by
  obtain ⟨hq, rfl⟩ := List.getElem?_eq_some_iff.mp hc
  rw [← List.drop_drop, dirSlots_drop, List.drop_eq_getElem_cons hq, dirSlots_cons,
    List.drop_append_of_le_length (by rwa [length_clusterSlots])]

theorem dirSlots_drop_all (data : Nat → Nat → UInt8) {cs : List Nat} {q : Nat} (hq : cs.length ≤ q)
    (r : Nat) : (dirSlots fsi data cs).drop (q * slotsPer fsi + r) = [] := by
  refine List.drop_eq_nil_of_le ?_
  rw [length_dirSlots]
  exact le_trans (Nat.mul_le_mul_right _ hq) (Nat.le_add_right _ _)

/-- A list at an index. -/
theorem split_at {α : Type} {l : List α} {a : α} {q : Nat} (h : l[q]? = some a) :
    l = l.take q ++ a :: l.drop (q + 1) := by
  obtain ⟨hq, rfl⟩ := List.getElem?_eq_some_iff.mp h
  rw [← List.drop_eq_getElem_cons hq, List.take_append_drop]

/-- A changed cluster. -/
theorem dirSlots_update (data : Nat → Nat → UInt8) {cs : List Nat} (hnd : cs.Nodup) {c q : Nat}
    (hc : cs[q]? = some c) (f : Nat → UInt8) :
    dirSlots fsi (Function.update data c f) cs =
      dirSlots fsi data (cs.take q) ++ clusterSlots fsi f ++ dirSlots fsi data (cs.drop (q + 1)) := by
  have hsplit := split_at hc
  have haway : c ∉ cs.take q ∧ c ∉ cs.drop (q + 1) := by
    rw [hsplit] at hnd
    obtain ⟨-, hright, hdis⟩ := List.nodup_append.mp hnd
    exact ⟨fun h => hdis _ h _ List.mem_cons_self rfl, (List.nodup_cons.mp hright).1⟩
  conv => lhs; rw [hsplit]
  rw [dirSlots_append, dirSlots_cons, Function.update_self, List.append_assoc]
  congr 1
  · exact dirSlots_congr fun d hd =>
      Function.update_of_ne (ne_of_mem_of_not_mem hd haway.1) _ _
  · congr 1
    exact dirSlots_congr fun d hd =>
      Function.update_of_ne (ne_of_mem_of_not_mem hd haway.2) _ _

theorem modify_left {α : Type} {a : List α} (b : List α) (g : α → α) {r : Nat} (hr : r < a.length) :
    (a ++ b).modify r g = a.modify r g ++ b := by
  induction a generalizing r with
  | nil => exact absurd hr (Nat.not_lt_zero r)
  | cons x a ih =>
    cases r with
    | zero => rfl
    | succ r =>
      rw [List.cons_append, List.modify_succ_cons, List.modify_succ_cons,
        ih (Nat.lt_of_succ_lt_succ hr), List.cons_append]

theorem modify_right {α : Type} (a b : List α) (g : α → α) (r : Nat) :
    (a ++ b).modify (a.length + r) g = a ++ b.modify r g := by
  induction a with
  | nil => rw [List.nil_append, List.length_nil, Nat.zero_add, List.nil_append]
  | cons x a ih =>
    rw [List.length_cons, Nat.succ_add, List.cons_append, List.modify_succ_cons, ih,
      List.cons_append]

/-- A changed slot. -/
theorem dirSlots_modify (data : Nat → Nat → UInt8) {cs : List Nat} (hnd : cs.Nodup) {c q r : Nat}
    (hc : cs[q]? = some c) (hr : r < slotsPer fsi) {f f' : Nat → UInt8} {g : Slot → Slot}
    (h : clusterSlots fsi f' = (clusterSlots fsi f).modify r g) :
    dirSlots fsi (Function.update data c f') cs =
      (dirSlots fsi (Function.update data c f) cs).modify (q * slotsPer fsi + r) g := by
  obtain ⟨hq, -⟩ := List.getElem?_eq_some_iff.mp hc
  have hlen : (dirSlots fsi data (cs.take q)).length = q * slotsPer fsi := by
    rw [length_dirSlots, List.length_take, Nat.min_eq_left (le_of_lt hq)]
  rw [dirSlots_update data hnd hc, dirSlots_update data hnd hc, h, ← hlen, List.append_assoc,
    List.append_assoc, modify_right, modify_left _ _ (by rwa [length_clusterSlots])]

/-! ## Offsets -/

/-- The offset of slot `i`, as the code splits it. -/
theorem slot_cluster (hg : Geometry fsi) (i : Nat) :
    (32 * i) >>> fsi.clusterShift = i / slotsPer fsi := by
  rw [Nat.shiftRight_eq_div_pow, ← bpc_eq hg, bpc_slots hg, Nat.mul_div_mul_left _ _ (by decide)]

theorem slot_offset (hg : Geometry fsi) (i : Nat) :
    (32 * i) &&& fsi.clusterMask = 32 * (i % slotsPer fsi) := by
  rw [hg.clusterMask, bpc_eq hg, Nat.and_two_pow_sub_one_eq_mod, ← bpc_eq hg, bpc_slots hg,
    Nat.mul_mod_mul_left]

theorem slot_split (hg : Geometry fsi) (i : Nat) :
    i / slotsPer fsi * slotsPer fsi + i % slotsPer fsi = i ∧ i % slotsPer fsi < slotsPer fsi :=
  ⟨Nat.div_add_mod' i _, Nat.mod_lt _ (slotsPer_pos hg)⟩

/-- The clusters of a directory hold the slot with index `i`. -/
theorem slot_cluster_lt (hg : Geometry fsi) {data : Nat → Nat → UInt8} {cs : List Nat} {i : Nat} :
    i < (dirSlots fsi data cs).length ↔ i / slotsPer fsi < cs.length := by
  rw [length_dirSlots, Nat.div_lt_iff_lt_mul (slotsPer_pos hg)]

end Fat32
