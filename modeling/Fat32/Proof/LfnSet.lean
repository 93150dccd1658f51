import Mathlib
import Fat32.Proof.LongName

/-!
# The set of a long name

A long name is a set of entries numbered from `n` down to 1, the first of which is
marked, each with the checksum of the 8.3 entry behind them (`CompleteSet`). The code
looks at none of this but the mark: it stores the characters of every entry where its
number says. What it stores of a set that stands behind the slots of other entries is
the name that the set spells, if the set is well formed (`nameAfter_set`).
-/

namespace Fat32

open Bytes Exec

variable {l P S T : List Slot} {s e : Slot} {d : DName} {i n : Nat}

/-- Long name entries with the numbers `n` to 1. -/
def Numbered : Nat → List Slot → Prop
  | 0, T => T = []
  | _ + 1, [] => False
  | n + 1, s :: T => s.IsLfn ∧ s.seqNum = n + 1 ∧ Numbered n T

/-- The UCS-2 units of a set, in the order of the name. -/
def setUnits : List Slot → List Nat
  | [] => []
  | s :: T => setUnits T ++ List.ofFn s.lfnUnit

/-- What the entries of a set spell: the characters before the first NUL. -/
def spelled (S : List Slot) : List UInt8 := ((setUnits S).takeWhile (· ≠ 0)).map ucsChar

/-- A set of entries for the 8.3 entry `e`. -/
structure CompleteSet (S : List Slot) (e : Slot) : Prop where
  numbered : Numbered S.length S
  nonempty : S ≠ []
  first : ∀ s ∈ S.head?, s.Last
  others : ∀ s ∈ S.tail, ¬ s.Last
  sum : ∀ s ∈ S, s.checksum = Fat32.checksum e.name

/-- The bytes of a name. -/
def nameBytes (d : DName) : List UInt8 := (List.range d.size).map d.data

/-! ## The characters of one entry -/

/-- Where the first of the units `js` is that is zero and in front of the end. -/
theorem lfnPut_units (hseq : 1 ≤ s.seqNum) : ∀ {js : List (Fin 13)} {d : DName}, js.Pairwise (· < ·) →
    ((∀ j ∈ js, 13 * (s.seqNum - 1) + j.val < d.size → s.lfnUnit j ≠ 0) →
      (lfnPut s js d).size = d.size) ∧
    (∀ j ∈ js, 13 * (s.seqNum - 1) + j.val < d.size → s.lfnUnit j = 0 →
      (∀ k ∈ js, k < j → s.lfnUnit k ≠ 0) → (lfnPut s js d).size = 13 * (s.seqNum - 1) + j.val) ∧
    (∀ j ∈ js, 13 * (s.seqNum - 1) + j.val < (lfnPut s js d).size → s.lfnUnit j ≠ lfnFill →
      (lfnPut s js d).data (13 * (s.seqNum - 1) + j.val) = ucsChar (s.lfnUnit j)) ∧
    (∀ i, (∀ j ∈ js, i ≠ 13 * (s.seqNum - 1) + j.val) → (lfnPut s js d).data i = d.data i) := by
  intro js
  induction js with
  | nil => exact fun _ => ⟨fun _ => rfl, nofun, nofun, fun _ _ => rfl⟩
  | cons j js ih =>
    intro d hjs
    obtain ⟨hj, hjs⟩ := List.pairwise_cons.mp hjs
    have hput : lfnPut s (j :: js) d = lfnPut s js (setDname (s.charPos j) (s.lfnUnit j) d) := rfl
    have hsize := setDname_size (s.charPos j) (s.lfnUnit j) d
    have hdata := setDname_data (s.charPos j) (s.lfnUnit j) d
    rw [Slot.charPos_eq hseq] at hput hsize hdata
    rw [hput]
    obtain ⟨h1, h2, h3, h4⟩ := @ih (setDname (13 * (s.seqNum - 1) + j.val) (s.lfnUnit j) d) hjs
    refine ⟨fun hno => ?_, fun k hk hlt h0 hfirst => ?_, fun k hk hlt hfill => ?_, fun i hi => ?_⟩
    · rw [if_neg fun h => hno j (List.mem_cons_self ..) h.1 h.2] at hsize
      rw [h1 fun k hk hlt => hno k (List.mem_cons_of_mem _ hk) (by rwa [hsize] at hlt), hsize]
    · rcases List.mem_cons.mp hk with rfl | hk'
      · rw [if_pos ⟨hlt, h0⟩] at hsize
        rw [h1, hsize]
        intro k hk hlt' _
        rw [hsize] at hlt'
        have := hj k hk
        omega
      · have hne := hfirst j (List.mem_cons_self ..) (hj k hk')
        rw [if_neg fun h => hne h.2] at hsize
        exact h2 k hk' (by rwa [hsize]) h0 fun m hm => hfirst m (List.mem_cons_of_mem _ hm)
    · rcases List.mem_cons.mp hk with rfl | hk'
      · have hbefore : 13 * (s.seqNum - 1) + k.val < d.size :=
          hlt.trans_le (hput ▸ lfnPut_size_le (k :: js) d)
        have hother : ∀ m ∈ js, 13 * (s.seqNum - 1) + k.val ≠ 13 * (s.seqNum - 1) + m.val :=
          fun m hm heq => by
            have := hj m hm
            omega
        rw [h4 _ hother, hdata, if_pos ⟨rfl, hbefore, hfill⟩]
      · exact h3 k hk' hlt hfill
    · rw [h4 i fun k hk => hi k (List.mem_cons_of_mem _ hk), hdata,
        if_neg fun h => hi j (List.mem_cons_self ..) h.1]

/-! ## The entries of a set -/

theorem length_setUnits (T : List Slot) : (setUnits T).length = 13 * T.length := by
  induction T with
  | nil => rfl
  | cons s T ih =>
    rw [setUnits, List.length_append, ih, List.length_ofFn, List.length_cons]
    omega

theorem Numbered.length : ∀ {n : Nat} {T : List Slot}, Numbered n T → T.length = n
  | 0, _, h => by rw [h]; rfl
  | _ + 1, [], h => h.elim
  | _ + 1, _ :: _, h => by rw [List.length_cons, h.2.2.length]

theorem Numbered.isLfn : ∀ {n : Nat} {T : List Slot}, Numbered n T → ∀ s ∈ T, s.IsLfn
  | 0, _, h => by rw [h]; exact nofun
  | _ + 1, [], h => h.elim
  | _ + 1, s :: T, h => fun x hx => by
    rcases List.mem_cons.mp hx with rfl | hx
    · exact h.1
    · exact h.2.2.isLfn x hx

/-- The unit of a set in its first entry. -/
theorem setUnits_last (T : List Slot) (s : Slot) (j : Fin 13) :
    (setUnits (s :: T))[13 * T.length + j.val]? = some (s.lfnUnit j) := by
  rw [setUnits, List.getElem?_append_right (by rw [length_setUnits]; omega), length_setUnits,
    Nat.add_sub_cancel_left, List.getElem?_ofFn, dif_pos j.isLt]

theorem setUnits_rest (T : List Slot) (s : Slot) (h : i < 13 * T.length) :
    (setUnits (s :: T))[i]? = (setUnits T)[i]? := by
  rw [setUnits, List.getElem?_append_left (by rw [length_setUnits]; exact h)]

/-- The units of a set are those of its first entry and of the others. -/
theorem setUnits_cases (T : List Slot) (s : Slot) {u : Nat} (h : (setUnits (s :: T))[i]? = some u) :
    i < 13 * T.length ∧ (setUnits T)[i]? = some u ∨
      ∃ j : Fin 13, i = 13 * T.length + j.val ∧ s.lfnUnit j = u := by
  rcases Nat.lt_or_ge i (13 * T.length) with hlt | hge
  · exact .inl ⟨hlt, by rwa [setUnits_rest T s hlt] at h⟩
  · obtain ⟨hlen, -⟩ := List.getElem?_eq_some_iff.mp h
    rw [length_setUnits, List.length_cons] at hlen
    obtain ⟨j, hj⟩ : ∃ j : Fin 13, i = 13 * T.length + j.val :=
      ⟨⟨i - 13 * T.length, by omega⟩, by simp only; omega⟩
    rw [hj, setUnits_last T s j] at h
    exact .inr ⟨j, hj, Option.some.inj h⟩

/-- What the entries `T` made of the name `d`. -/
structure Spells (T : List Slot) (d d' : DName) : Prop where
  size_le : d'.size ≤ d.size
  ended : ∀ i < d.size, (setUnits T)[i]? = some 0 → (∀ k < i, (setUnits T)[k]? ≠ some 0) → d'.size = i
  kept : (∀ i < d.size, (setUnits T)[i]? ≠ some 0) → d'.size = d.size
  char : ∀ i < d'.size, ∀ u, (setUnits T)[i]? = some u → u ≠ lfnFill → d'.data i = ucsChar u
  behind : ∀ i ≥ 13 * T.length, d'.data i = d.data i

/-- The characters of an entry without the mark. -/
theorem nameStep_lfn (hs : s.IsLfn) (hlast : ¬ s.Last) (d : DName) :
    nameStep d s = lfnPut s (List.finRange 13) d := by
  rw [nameStep, if_neg hs.1, if_pos hs.2, lfnStart, if_neg fun h => hlast h.1]

theorem Spells.cons {d1 d' : DName} (hs : s.seqNum = T.length + 1)
    (hd1 : d1 = lfnPut s (List.finRange 13) d) (hroom : 13 * (T.length + 1) ≤ d.size ∨ d.size = dNameSize)
    (h : 13 * T.length ≤ d1.size ∨ d1.size = dNameSize → Spells T d1 d') : Spells (s :: T) d d' := by
  obtain ⟨h1, h2, h3, h4⟩ := @lfnPut_units s (by omega) (List.finRange 13) d (List.pairwise_lt_finRange 13)
  have hpos : s.seqNum - 1 = T.length := by omega
  rw [hpos] at h1 h2 h3 h4
  rw [← hd1] at h1 h2 h3 h4
  have hle : d1.size ≤ d.size := hd1 ▸ lfnPut_size_le _ d
  have hmem := fun j => List.mem_finRange (n := 13) j
  by_cases hnul : ∃ j : Fin 13, 13 * T.length + j.val < d.size ∧ s.lfnUnit j = 0
  · -- the name ends in this entry, at its first NUL
    obtain ⟨j, hj⟩ := hnul
    obtain ⟨m, hm, hmin⟩ := wellFounded_lt.has_min {j : Fin 13 | s.lfnUnit j = 0} ⟨j, hj.2⟩
    have hmj : m.val ≤ j.val := Fin.le_def.mp (not_lt.mp (hmin j hj.2))
    have hfirst : ∀ k, k < m → s.lfnUnit k ≠ 0 := fun k hk h0 => hmin k h0 hk
    have hsize : d1.size = 13 * T.length + m.val :=
      h2 m (hmem m) (by omega) hm fun k _ => hfirst k
    obtain ⟨g1, g2, g3, g4, g5⟩ := h (.inl (by omega))
    refine ⟨g1.trans hle, fun i hi h0 hbefore => ?_, fun hno => ?_, fun i hi u hu hfill => ?_,
      fun i hi => ?_⟩
    · rcases setUnits_cases T s h0 with ⟨hlt, h0'⟩ | ⟨k, hk, hk0⟩
      · refine g2 i (by omega) h0' fun k hk => ?_
        rw [← setUnits_rest T s (by omega)]
        exact hbefore k hk
      · have hkm : k = m := by
          refine le_antisymm (not_lt.mp fun hlt => ?_) (not_lt.mp fun hlt => hfirst k hlt hk0)
          refine hbefore (13 * T.length + m.val) (by
            have := Fin.lt_def.mp hlt
            omega) ?_
          rw [setUnits_last, hm]
        rw [g3, hsize, hk, hkm]
        intro i' hi' h0'
        obtain ⟨hlen, -⟩ := List.getElem?_eq_some_iff.mp h0'
        rw [length_setUnits] at hlen
        exact hbefore i' (by omega) (by rwa [setUnits_rest T s hlen])
    · exact absurd (by rw [setUnits_last, hm]) (hno (13 * T.length + m.val) (by omega))
    · rcases setUnits_cases T s hu with ⟨hlt, hu'⟩ | ⟨k, hk, hku⟩
      · exact g4 i hi u hu' hfill
      · rw [g5 i (by omega), hk, ← hku]
        exact h3 k (hmem k) (by omega) (hku ▸ hfill)
    · rw [List.length_cons] at hi
      rw [g5 i (by omega)]
      exact h4 i fun k _ => by omega
  · have hnul' : ∀ j : Fin 13, 13 * T.length + j.val < d.size → s.lfnUnit j ≠ 0 :=
      fun j hj h0 => hnul ⟨j, hj, h0⟩
    have hsize : d1.size = d.size := h1 fun j _ => hnul' j
    obtain ⟨g1, g2, g3, g4, g5⟩ := h (by omega)
    refine ⟨g1.trans hle, fun i hi h0 hbefore => ?_, fun hno => ?_, fun i hi u hu hfill => ?_,
      fun i hi => ?_⟩
    · rcases setUnits_cases T s h0 with ⟨hlt, h0'⟩ | ⟨k, hk, hk0⟩
      · refine g2 i (by omega) h0' fun k hk => ?_
        rw [← setUnits_rest T s (by omega)]
        exact hbefore k hk
      · exact absurd hk0 (hnul' k (by omega))
    · rw [← hsize]
      refine g3 fun i hi h0 => hno i (by omega) ?_
      obtain ⟨hlen, -⟩ := List.getElem?_eq_some_iff.mp h0
      rw [length_setUnits] at hlen
      rwa [setUnits_rest T s hlen]
    · rcases setUnits_cases T s hu with ⟨hlt, hu'⟩ | ⟨k, hk, hku⟩
      · exact g4 i hi u hu' hfill
      · rw [g5 i (by omega), hk, ← hku]
        exact h3 k (hmem k) (by omega) (hku ▸ hfill)
    · rw [List.length_cons] at hi
      rw [g5 i (by omega)]
      exact h4 i fun k _ => by omega

theorem spells_of_numbered : ∀ {n : Nat} {T : List Slot} {d : DName}, Numbered n T →
    (∀ s ∈ T, ¬ s.Last) → 13 * n ≤ d.size ∨ d.size = dNameSize → Spells T d (nameAfter d T)
  | 0, _, d, h, _, _ => by
    obtain rfl : _ = [] := h
    exact ⟨le_refl _, fun _ _ h => (nomatch h), fun _ => rfl, fun _ _ _ h => (nomatch h), fun _ _ => rfl⟩
  | _ + 1, [], _, h, _, _ => h.elim
  | n + 1, s :: T, d, h, hlast, hroom => by
    obtain ⟨hs, hseq, hT⟩ := h
    have hlen := hT.length
    have hstep := nameStep_lfn hs (hlast s (List.mem_cons_self ..)) d
    refine Spells.cons (by rw [hlen, hseq]) hstep (by rw [hlen]; exact hroom) fun hroom' => ?_
    rw [hlen] at hroom'
    exact spells_of_numbered hT (fun x hx => hlast x (List.mem_cons_of_mem _ hx)) hroom'

/-- A set behind a name that it ends, or that is not ended yet. -/
theorem CompleteSet.spells (h : CompleteSet S e)
    (hroom : S.length * 13 < dNameSize ∨ d.size = dNameSize) : ∃ d0 : DName, Spells S d0 (nameAfter d S) ∧
      d0.size = if S.length * 13 < dNameSize then S.length * 13 else dNameSize := by
  obtain ⟨hnum, hne, hfirst, hothers, -⟩ := h
  cases S with
  | nil => exact absurd rfl hne
  | cons s T =>
    obtain ⟨hs, hseq, hT⟩ : s.IsLfn ∧ s.seqNum = T.length + 1 ∧ Numbered T.length T := hnum
    have hlast : s.Last := hfirst s rfl
    have hstep : nameStep d s = lfnPut s (List.finRange 13) (lfnStart s d) := by
      rw [nameStep, if_neg hs.1, if_pos hs.2]
    have hsize : (lfnStart s d).size = if (s :: T).length * 13 < dNameSize then (s :: T).length * 13
        else dNameSize := by
      rw [lfnStart, hseq, List.length_cons]
      by_cases hlt : (T.length + 1) * 13 < dNameSize
      · rw [if_pos ⟨hlast, hlt⟩, if_pos hlt]
      · rw [if_neg fun h => hlt h.2, if_neg hlt]
        exact hroom.resolve_left hlt
    refine ⟨lfnStart s d, Spells.cons hseq hstep ?_ fun hroom' => ?_, hsize⟩
    · rw [hsize, List.length_cons]
      split
      · exact .inl (by omega)
      · exact .inr rfl
    · exact spells_of_numbered hT hothers hroom'

/-- The elements before the first zero, and that zero. -/
theorem takeWhile_nonzero (U : List Nat) :
    (∀ k < (U.takeWhile (· ≠ 0)).length, ∃ u, U[k]? = some u ∧ (U.takeWhile (· ≠ 0))[k]? = some u ∧
      u ≠ 0) ∧
    ((U.takeWhile (· ≠ 0)).length < U.length → U[(U.takeWhile (· ≠ 0)).length]? = some 0) := by
  induction U with
  | nil => exact ⟨fun _ h => absurd h (Nat.not_lt_zero _), fun h => absurd h (lt_irrefl _)⟩
  | cons u U ih =>
    obtain ⟨ih1, ih2⟩ := ih
    by_cases h0 : u = 0
    · rw [h0, List.takeWhile_cons_of_neg (by decide)]
      exact ⟨fun _ h => absurd h (Nat.not_lt_zero _), fun _ => rfl⟩
    · rw [List.takeWhile_cons_of_pos (by simpa using h0)]
      refine ⟨fun k hk => ?_, fun h => ih2 (Nat.lt_of_succ_lt_succ h)⟩
      cases k with
      | zero => exact ⟨u, rfl, rfl, h0⟩
      | succ k => exact ih1 k (Nat.lt_of_succ_lt_succ hk)

/-- The name that a set leaves in the buffer is the one that it spells, as far as the buffer goes. -/
theorem nameAfter_cut (h : CompleteSet S e) (hroom : S.length * 13 < dNameSize ∨ d.size = dNameSize)
    (hfill : ∀ u ∈ (setUnits S).takeWhile (· ≠ 0), u ≠ lfnFill) :
    nameBytes (nameAfter d S) = (spelled S).take dNameSize ∧
      (spelled S ≠ [] → (nameAfter d S).data 0 ≠ 0) := by
  obtain ⟨d0, ⟨g1, g2, g3, g4, -⟩, hsize⟩ := h.spells hroom
  obtain ⟨hbefore, hzero⟩ := takeWhile_nonzero (setUnits S)
  have hunits := length_setUnits S
  have hle := (List.takeWhile_prefix (fun u => decide (u ≠ 0)) (l := setUnits S)).length_le
  have hno : ∀ i < ((setUnits S).takeWhile (· ≠ 0)).length, (setUnits S)[i]? ≠ some 0 := fun i hi h0 => by
    obtain ⟨u, hu, -, hne⟩ := hbefore i hi
    rw [hu] at h0
    exact hne (Option.some.inj h0)
  -- the size is the place of the first NUL, or that of the buffer
  have hend : (nameAfter d S).size = min ((setUnits S).takeWhile (· ≠ 0)).length dNameSize := by
    rcases Nat.lt_or_ge ((setUnits S).takeWhile (· ≠ 0)).length dNameSize with hlt | hge
    · rw [min_eq_left hlt.le]
      rcases Nat.lt_or_ge ((setUnits S).takeWhile (· ≠ 0)).length (setUnits S).length with hin | hall
      · refine g2 _ ?_ (hzero hin) hno
        rw [hsize]
        split
        · omega
        · exact hlt
      · have hall : ((setUnits S).takeWhile (· ≠ 0)).length = (setUnits S).length := le_antisymm hle hall
        rw [g3, hsize, if_pos (by omega), hall, hunits]
        · omega
        · intro i _ h0
          obtain ⟨hi, -⟩ := List.getElem?_eq_some_iff.mp h0
          exact hno i (by omega) h0
    · have hfull : d0.size = dNameSize := by rw [hsize, if_neg (by omega)]
      rw [min_eq_right hge, g3, hfull]
      exact fun i hi => hno i (by omega)
  have hchar : ∀ i < (nameAfter d S).size, ∃ u, ((setUnits S).takeWhile (· ≠ 0))[i]? = some u ∧ u ≠ 0 ∧
      (nameAfter d S).data i = ucsChar u := fun i hi => by
    obtain ⟨u, hu, htake, hne⟩ := hbefore i (by rw [hend] at hi; exact (lt_min_iff.mp hi).1)
    exact ⟨u, htake, hne, g4 i hi u hu (hfill u (List.mem_of_getElem? htake))⟩
  refine ⟨?_, fun hne => ?_⟩
  · rw [nameBytes, spelled, ← List.map_take]
    refine List.ext_getElem? fun i => ?_
    rw [List.getElem?_map, List.getElem?_map]
    rcases Nat.lt_or_ge i (nameAfter d S).size with hi | hi
    · obtain ⟨u, hu, -, hdata⟩ := hchar i hi
      rw [List.getElem?_take_of_lt (by rw [hend] at hi; exact (lt_min_iff.mp hi).2), hu, List.getElem?_range hi]
      show some ((nameAfter d S).data i) = some (ucsChar u)
      rw [hdata]
    · rw [List.getElem?_eq_none (by rwa [List.length_range]), List.getElem?_eq_none]
      · rfl
      · rw [List.length_take, min_comm, ← hend]
        exact hi
  · have hpos : 0 < (nameAfter d S).size := by
      rw [hend]
      refine lt_min (Nat.pos_of_ne_zero fun h0 => hne ?_) (by decide)
      rw [spelled, List.length_eq_zero_iff.mp h0]
      rfl
    obtain ⟨u, -, hne, hdata⟩ := hchar 0 hpos
    rw [hdata]
    exact fun h => hne (ucsChar_eq_zero.mp h)

/-- The whole name, where it fits. -/
theorem nameAfter_set (h : CompleteSet S e) (hroom : S.length * 13 < dNameSize ∨ d.size = dNameSize)
    (hfill : ∀ u ∈ (setUnits S).takeWhile (· ≠ 0), u ≠ lfnFill) (hlen : (spelled S).length ≤ maxName) :
    nameBytes (nameAfter d S) = spelled S ∧
      (spelled S ≠ [] → (nameAfter d S).data 0 ≠ 0) := by
  have hcut := nameAfter_cut h hroom hfill
  rwa [List.take_of_length_le (Nat.le_succ_of_le hlen)] at hcut

/-! ## Names in a directory -/

theorem lfnPut_empty (js : List (Fin 13)) : ∀ {d : DName},
    (∀ j ∈ js, ¬ (s.charPos j = 0 ∧ s.lfnUnit j ≠ lfnFill)) → d.data 0 = 0 →
    (lfnPut s js d).data 0 = 0 := by
  induction js with
  | nil => exact fun _ h => h
  | cons j js ih =>
    intro d hjs h0
    refine ih (d := setDname (s.charPos j) (s.lfnUnit j) d)
      (fun k hk => hjs k (List.mem_cons_of_mem _ hk)) ?_
    rw [setDname_data, if_neg fun h => hjs j (List.mem_cons_self ..) ⟨h.1.symm, h.2.2⟩]
    exact h0

/-- The buffer stays empty behind entries that do not begin a name. -/
theorem nameAfter_empty (h0 : d.data 0 = 0) (h : ∀ s ∈ afterLabel l, s.IsLfn → ¬ s.BeginsName) :
    (nameAfter d l).data 0 = 0 := by
  induction l using List.reverseRecOn with
  | nil => exact h0
  | append_singleton l s ih =>
    have hstep : nameAfter d (l ++ [s]) = nameStep (nameAfter d l) s := by
      rw [nameAfter, List.foldl_concat]
    rw [hstep]
    by_cases hlabel : s.IsLabel
    · rw [nameStep, if_neg hlabel.1, if_neg hlabel.2]
      exact Function.update_self 0 0 (nameAfter d l).data
    · have hafter : afterLabel (l ++ [s]) = afterLabel l ++ [s] :=
        List.rtakeWhile_concat_pos _ _ _ (by simpa using hlabel)
      rw [hafter] at h
      have hl := ih fun x hx => h x (List.mem_append_left _ hx)
      by_cases hdel : s.first = lfnDeleted
      · rw [nameStep, if_pos hdel]
        exact hl
      · have hlfn : s.attr = attrLongName := by
          by_contra hne
          exact hlabel ⟨hdel, hne⟩
        have hbegin := h s (List.mem_append_right _ (List.mem_singleton_self s)) ⟨hdel, hlfn⟩
        rw [nameStep, if_neg hdel, if_pos hlfn]
        refine lfnPut_empty (List.finRange 13) (fun j _ h => ?_) ?_
        · exact hbegin ((Slot.beginsName_iff s).mpr ⟨j, h⟩)
        · unfold lfnStart
          split
          · show Function.update _ _ _ 0 = 0
            rw [Function.update_apply]
            split
            · rfl
            · exact hl
          · exact hl

/-- The name of the entry `e` behind the slots `l` is that of its set, or that of its own
if it has no set. -/
def OwnName (l : List Slot) (e : Slot) (d : DName) : Prop :=
  (∃ P S, l = P ++ S ∧ CompleteSet S e ∧ nameBytes d = spelled S) ∨
    (∀ P S, l = P ++ S → ¬ CompleteSet S e) ∧ nameBytes d = e.decodeName

/-- The long name entries before `e` are a well-formed set of its own, before which no
name is left unfinished when it is one of the longest, or they do not begin a name. -/
inductive OwnEntries (l : List Slot) (e : Slot) : Prop
  | set (P S : List Slot) (hl : l = P ++ S) (h : CompleteSet S e) (hne : spelled S ≠ [])
      (hlen : (spelled S).length ≤ maxName)
      (hfill : ∀ u ∈ (setUnits S).takeWhile (· ≠ 0), u ≠ lfnFill)
      (hroom : S.length * 13 < dNameSize ∨ ∀ s ∈ afterLabel P, s.IsLfn → ¬ s.EndsName)
  | short (hno : ∀ P S, l = P ++ S → ¬ CompleteSet S e)
      (h : ∀ s ∈ afterLabel l, s.IsLfn → ¬ s.BeginsName)

theorem nameBytes_store (d : DName) (l : List UInt8) : nameBytes (d.store l) = l := by
  rw [nameBytes, store_size]
  refine List.ext_getElem? fun i => ?_
  rw [List.getElem?_map]
  rcases Nat.lt_or_ge i l.length with hi | hi
  · rw [List.getElem?_range hi, List.getElem?_eq_getElem hi]
    show some ((d.store l).data i) = _
    rw [DName.store]
    dsimp only
    rw [dif_pos hi]
  · rw [List.getElem?_eq_none (by rwa [List.length_range]), List.getElem?_eq_none hi]
    rfl

/-- The name that is returned for an entry. -/
theorem ownName_of_entries {f : Nat → UInt8} (hf : f 0 = 0) (hl : ∀ x ∈ l, x.Skipped)
    (h : OwnEntries l e) :
    OwnName l e (if (nameAfter ⟨f, dNameSize⟩ l).data 0 = 0 then
        (nameAfter ⟨f, dNameSize⟩ l).store (e.decodeName.take (sub32 dNameSize 1))
      else nameAfter ⟨f, dNameSize⟩ l) := by
  cases h with
  | set P S hPS h hne hlen hfill hroom =>
    subst hPS
    have happ : nameAfter ⟨f, dNameSize⟩ (P ++ S) = nameAfter (nameAfter ⟨f, dNameSize⟩ P) S :=
      List.foldl_append
    have hsize := (@nameAfter_open P ⟨f, dNameSize⟩ rfl hf fun x hx =>
      hl x (List.mem_append_left _ hx)).1
    obtain ⟨hname, h0⟩ := nameAfter_set h (hroom.imp_right hsize.mpr) hfill hlen
    rw [happ, if_neg (h0 hne)]
    exact .inl ⟨P, S, rfl, h, hname⟩
  | short hno h =>
    have htake : e.decodeName.take (sub32 dNameSize 1) = e.decodeName :=
      List.take_of_length_le ((length_decodeName e).trans (by decide))
    rw [if_pos (nameAfter_empty hf h), htake]
    exact .inr ⟨hno, nameBytes_store _ _⟩

variable {fsi : Fsi} {cs : List Nat} {t : VnSt} {f : Nat → UInt8} {efv : Option Fv}

/-- The first slots of the directory. -/
theorem smallDir_slot (slots : List Slot) {k : Nat} (hk : k < 16) :
    ((readSlots (small 2) [2] (smallDir slots).vol).drop 0)[k]? =
      some (slotAt (clusterBytes (small 2) (smallDir slots).vol.disk 2) (32 * k)) := by
  have hper : slotsPer (small 2) = 16 := by decide
  rw [List.drop_zero, readSlots, dirSlots_cons, List.getElem?_append_left (by
    rw [length_clusterSlots, hper]
    exact hk), clusterSlots_getElem?, if_pos (by rw [hper]; exact hk)]

/-- The name of the result. -/
def foundName : Out Errno DirentOut → List UInt8
  | .ok out => nameBytes out.name
  | _ => []

theorem foundName_cons {r : Out Errno DirentOut} {c : UInt8} {l : List UInt8}
    (h : foundName r = c :: l) : ∃ out, r = .ok out ∧ nameBytes out.name = c :: l := by
  cases r with
  | ok out => exact ⟨out, rfl, h⟩
  | err e => exact nomatch h
  | hang => exact nomatch h

/-- An entry of a long name that was left behind: its checksum is not that of the entry
that follows. -/
def orphanSlot : Slot :=
  lfnSlot 0x41 0 fun i => if i = 0 then (88, 0) else if i = 1 then (0, 0) else (255, 255)

theorem orphan_name : foundName (getDirent (small 2) 0 ⟨fun _ => 0, dNameSize⟩ none
    (smallDir [orphanSlot, shortEntry 65 0 0 0])).1 = [88] := by decide +kernel

end Fat32
