import Mathlib
import Fat32.Proof.Walk
import Fat32.Proof.DataArea

/-!
# Long names in the buffer

`fat32_get_dirent` stores the characters of long name entries into `d_name` as they go
by, and ends the name at the length that the first of a set announces or at a NUL. The
slots it passes over form a list, and the name is a fold over them (`nameStep`). Nothing
is stored behind the buffer (`names_inside`), but a name without an end fills it all.
-/

namespace Fat32

open Bytes Exec Linked

variable {l : List Slot} {s e : Slot} {d : DName} {i : Nat}

namespace Slot

/-- A slot that the scan passes over. -/
def Skipped (s : Slot) : Prop :=
  s.first ≠ 0 ∧ (s.first = lfnDeleted ∨ s.attr = attrLongName ∨ s.attr &&& attrVolumeId ≠ 0)

instance (s : Slot) : Decidable s.Skipped := inferInstanceAs (Decidable (_ ∧ _))

/-- A long name entry. -/
def IsLfn (s : Slot) : Prop := s.first ≠ lfnDeleted ∧ s.attr = attrLongName

instance (s : Slot) : Decidable s.IsLfn := inferInstanceAs (Decidable (_ ∧ _))

/-- A volume label, after which names begin anew. -/
def IsLabel (s : Slot) : Prop := s.first ≠ lfnDeleted ∧ s.attr ≠ attrLongName

instance (s : Slot) : Decidable s.IsLabel := inferInstanceAs (Decidable (_ ∧ _))

/-- Where the code stores character `j`. -/
def charPos (s : Slot) (j : Fin 13) : Nat := u32 (u32 (sub32 s.seqNum 1 * 13) + j.val)

/-- The entry says that it is the first of its set. -/
def Last (s : Slot) : Prop := s.sequence &&& lfnLast ≠ 0

instance (s : Slot) : Decidable s.Last := inferInstanceAs (Decidable (_ ≠ _))

theorem seqNum_lt (s : Slot) : s.seqNum < 32 := by
  have h : (s.sequence &&& lfnSeqMask).toNat ≤ lfnSeqMask.toNat := by
    rw [UInt8.toNat_and]
    exact Nat.and_le_right
  exact Nat.lt_succ_of_le h

theorem charPos_eq (h : 1 ≤ s.seqNum) (j : Fin 13) : s.charPos j = 13 * (s.seqNum - 1) + j.val := by
  have hlt := s.seqNum_lt
  have hj := j.isLt
  have hsub : sub32 s.seqNum 1 = s.seqNum - 1 := by
    simp only [sub32, u32]
    omega
  rw [charPos, hsub]
  simp only [u32]
  omega

/-- Number 0 counts as the largest: its characters are behind every buffer. -/
theorem charPos_zero (h : s.seqNum = 0) (j : Fin 13) : dNameSize ≤ s.charPos j := by
  have hj := j.isLt
  have hsub : sub32 s.seqNum 1 = 0xFFFFFFFF := by
    rw [h]
    rfl
  rw [charPos, hsub, dNameSize]
  simp only [u32, maxName]
  omega

end Slot

/-! ## The scan as a fold -/

/-- The length that the first entry of a set announces. -/
def lfnStart (s : Slot) (d : DName) : DName :=
  if s.Last ∧ s.seqNum * 13 < dNameSize then { d.set (s.seqNum * 13) 0 with size := s.seqNum * 13 }
  else d

/-- The characters `js` of an entry. -/
def lfnPut (s : Slot) (js : List (Fin 13)) (d : DName) : DName :=
  js.foldl (fun d j => setDname (s.charPos j) (s.lfnUnit j) d) d

/-- What a slot that is passed over does to the name. -/
def nameStep (d : DName) (s : Slot) : DName :=
  if s.first = lfnDeleted then d
  else if s.attr = attrLongName then lfnPut s (List.finRange 13) (lfnStart s d)
  else { d.set 0 0 with size := dNameSize }

/-- The name at the end of the slots `l`. -/
abbrev nameAfter (d : DName) (l : List Slot) : DName := l.foldl nameStep d

@[simp] theorem Scan.next_name (st : Scan) : st.next.name = st.name := rfl

theorem scanLfn_name (s : Slot) (st : Scan) :
    (scanLfn dNameSize s st).name = lfnPut s (List.finRange 13) (lfnStart s st.name) := by
  by_cases h : s.Last
  · have h' : s.sequence &&& lfnLast ≠ 0 := h
    by_cases hlt : s.seqNum * 13 < dNameSize
    · rw [scanLfn, lfnStart, if_pos ⟨h, hlt⟩]
      dsimp only
      rw [if_pos h', if_pos hlt]
      rfl
    · rw [scanLfn, lfnStart, if_neg fun h => hlt h.2]
      dsimp only
      rw [if_pos h', if_neg hlt]
      rfl
  · have h' : ¬ s.sequence &&& lfnLast ≠ 0 := h
    rw [scanLfn, lfnStart, if_neg fun h' => h h'.1]
    dsimp only
    rw [if_neg h']
    rfl

theorem scanSlot_skipped (h : s.Skipped) (st : Scan) :
    ∃ st', scanSlot dNameSize s st = .skip st' ∧ st'.name = nameStep st.name s := by
  obtain ⟨h0, h⟩ := h
  unfold scanSlot nameStep
  rw [if_neg h0]
  by_cases hdel : s.first = lfnDeleted
  · rw [if_pos hdel, if_pos hdel]
    exact ⟨_, rfl, rfl⟩
  · rw [if_neg hdel, if_neg hdel]
    by_cases hlfn : s.attr = attrLongName
    · rw [if_pos hlfn, if_pos hlfn]
      refine ⟨_, rfl, ?_⟩
      rw [Scan.next_name, scanLfn_name]
    · rw [if_neg hlfn, if_neg hlfn, if_pos ((h.resolve_left hdel).resolve_left hlfn)]
      exact ⟨_, rfl, rfl⟩

theorem scanSlot_entry (h : s.IsEntry) (st : Scan) :
    ∃ st', scanSlot dNameSize s st = .entry st' ∧ st'.name =
      if st.name.data 0 = 0 then st.name.store (s.decodeName.take (sub32 dNameSize 1)) else st.name := by
  obtain ⟨h0, hdel, hlabel⟩ := h
  have hlfn : s.attr ≠ attrLongName := fun heq => by
    rw [heq] at hlabel
    exact absurd hlabel (by decide)
  unfold scanSlot
  rw [if_neg h0, if_neg hdel, if_neg hlfn, if_neg (not_not.mpr hlabel)]
  refine ⟨_, rfl, ?_⟩
  dsimp only

/-- A slot ends the directory, is passed over or is an entry. -/
theorem slot_kinds (s : Slot) : s.first = 0 ∨ s.Skipped ∨ s.IsEntry := by
  by_cases h0 : s.first = 0
  · exact .inl h0
  by_cases hs : s.first = lfnDeleted ∨ s.attr = attrLongName ∨ s.attr &&& attrVolumeId ≠ 0
  · exact .inr (.inl ⟨h0, hs⟩)
  · push Not at hs
    exact .inr (.inr ⟨h0, hs.1, hs.2.2⟩)

theorem not_skipped_entry (h : s.Skipped) : ¬ s.IsEntry := by
  intro he
  rcases h.2 with hdel | hlfn | hlabel
  · exact he.2.1 hdel
  · have hno := he.2.2
    rw [hlfn] at hno
    exact absurd hno (by decide)
  · exact hlabel he.2.2

/-- The scan finds the first entry behind slots that are passed over. -/
theorem scanSlots_entry_iff {L : List Slot} {st : Scan} {name : DName} :
    (∃ st', scanSlots dNameSize L st = .entry e st' ∧ st'.name = name) ↔
      ∃ l m, L = l ++ e :: m ∧ (∀ x ∈ l, x.Skipped) ∧ e.IsEntry ∧ name =
        if (nameAfter st.name l).data 0 = 0 then
          (nameAfter st.name l).store (e.decodeName.take (sub32 dNameSize 1))
        else nameAfter st.name l := by
  induction L generalizing st with
  | nil => exact ⟨fun ⟨_, h, _⟩ => (nomatch h), fun ⟨l, m, h, _⟩ => by simp at h⟩
  | cons s L ih =>
    rw [scanSlots]
    -- the slots before an entry begin with `s`, unless that is the entry
    have hcons {l m : List Slot} (h : s :: L = l ++ e :: m) :
        l = [] ∧ s = e ∨ ∃ l', l = s :: l' ∧ L = l' ++ e :: m := by
      cases l with
      | nil => exact .inl ⟨rfl, (List.cons.inj h).1⟩
      | cons x l =>
        obtain ⟨rfl, h'⟩ := List.cons.inj h
        exact .inr ⟨l, rfl, h'⟩
    rcases slot_kinds s with h0 | hs | hs
    · have hstop : scanSlot dNameSize s st = .stop := by rw [scanSlot, if_pos h0]
      rw [hstop]
      constructor
      · rintro ⟨_, h, _⟩
        cases h
      · rintro ⟨l, m, h, hl, he, _⟩
        rcases hcons h with ⟨-, rfl⟩ | ⟨l', rfl, -⟩
        · exact absurd h0 he.1
        · exact absurd h0 (hl s (List.mem_cons_self ..)).1
    · obtain ⟨st', hst, hname⟩ := scanSlot_skipped hs st
      rw [hst]
      dsimp only
      rw [ih, hname]
      constructor
      · rintro ⟨l, m, h, hl, he, hn⟩
        exact ⟨s :: l, m, by rw [h]; rfl, fun x hx => (List.mem_cons.mp hx).elim (fun hx => hx ▸ hs) (hl x), he, hn⟩
      · rintro ⟨l, m, h, hl, he, hn⟩
        rcases hcons h with ⟨-, rfl⟩ | ⟨l', rfl, h'⟩
        · exact absurd he (not_skipped_entry hs)
        · exact ⟨l', m, h', fun x hx => hl x (List.mem_cons_of_mem _ hx), he, hn⟩
    · obtain ⟨st', hst, hname⟩ := scanSlot_entry hs st
      rw [hst]
      dsimp only
      constructor
      · rintro ⟨st'', h, hn⟩
        obtain ⟨rfl, rfl⟩ := ScanOut.entry.inj h
        exact ⟨[], L, rfl, fun _ hx => absurd hx List.not_mem_nil, hs, hn.symm.trans hname⟩
      · rintro ⟨l, m, h, hl, he, hn⟩
        rcases hcons h with ⟨rfl, rfl⟩ | ⟨l', rfl, -⟩
        · exact ⟨st', rfl, hname.trans hn.symm⟩
        · exact absurd hs (not_skipped_entry (hl s (List.mem_cons_self ..)))

/-! ## Storing characters -/

/-- The character of a UCS-2 unit. -/
def ucsChar (u : Nat) : UInt8 := if u ≥ 128 then 63 else UInt8.ofNat u

theorem ucsChar_eq_zero {u : Nat} : ucsChar u = 0 ↔ u = 0 := by
  unfold ucsChar
  split
  · exact ⟨fun h => absurd h (by decide), fun h => by omega⟩
  · rename_i h
    refine ⟨fun h0 => ?_, fun h0 => by rw [h0]; rfl⟩
    have hu := congrArg UInt8.toNat h0
    rw [UInt8.toNat_ofNat', UInt8.toNat_zero] at hu
    omega

theorem setDname_eq (pos u : Nat) (d : DName) : setDname pos u d =
    if pos ≥ d.size then d
    else if u = lfnFill then d
    else if ucsChar u = 0 then { d.set pos (ucsChar u) with size := pos }
    else d.set pos (ucsChar u) := rfl

theorem setDname_size (pos u : Nat) (d : DName) :
    (setDname pos u d).size = if pos < d.size ∧ u = 0 then pos else d.size := by
  rw [setDname_eq]
  by_cases hpos : pos ≥ d.size
  · rw [if_pos hpos, if_neg fun h => absurd h.1 (not_lt.mpr hpos)]
  · rw [if_neg hpos]
    by_cases h0 : u = 0
    · have hfill : u ≠ lfnFill := by
        rw [h0]
        decide
      rw [if_neg hfill, if_pos (ucsChar_eq_zero.mpr h0), if_pos ⟨not_le.mp hpos, h0⟩]
    · have hend : ¬ (pos < d.size ∧ u = 0) := fun h => h0 h.2
      rw [if_neg (mt ucsChar_eq_zero.mp h0), if_neg hend]
      split <;> rfl

theorem setDname_data (pos u : Nat) (d : DName) (i : Nat) : (setDname pos u d).data i =
    if i = pos ∧ pos < d.size ∧ u ≠ lfnFill then ucsChar u else d.data i := by
  have hset : (d.set pos (ucsChar u)).data i = if i = pos then ucsChar u else d.data i := by
    show Function.update d.data pos (ucsChar u) i = _
    rw [Function.update_apply]
  rw [setDname_eq]
  by_cases hpos : pos ≥ d.size
  · rw [if_pos hpos, if_neg fun h => absurd h.2.1 (not_lt.mpr hpos)]
  · rw [if_neg hpos]
    by_cases hfill : u = lfnFill
    · rw [if_pos hfill, if_neg fun h => h.2.2 hfill]
    · rw [if_neg hfill]
      have hstored : (if ucsChar u = 0 then { d.set pos (ucsChar u) with size := pos }
          else d.set pos (ucsChar u)).data i = (d.set pos (ucsChar u)).data i := by
        split <;> rfl
      rw [hstored, hset]
      by_cases hi : i = pos
      · rw [if_pos hi, if_pos ⟨hi, not_le.mp hpos, hfill⟩]
      · have hother : ¬ (i = pos ∧ pos < d.size ∧ u ≠ lfnFill) := fun h => hi h.1
        rw [if_neg hi, if_neg hother]

/-- The name ends inside the buffer, or fills it. -/
structure Held (d : DName) : Prop where
  size : d.size ≤ dNameSize
  ended : d.size < dNameSize → d.data d.size = 0

theorem setDname_held (h : Held d) (pos u : Nat) : Held (setDname pos u d) := by
  have hsize := setDname_size pos u d
  by_cases h0 : pos < d.size ∧ u = 0
  · rw [if_pos h0] at hsize
    refine ⟨hsize.le.trans (h0.1.le.trans h.size), fun _ => ?_⟩
    rw [hsize, setDname_data, if_pos ⟨rfl, h0.1, by rw [h0.2]; decide⟩]
    exact ucsChar_eq_zero.mpr h0.2
  · rw [if_neg h0] at hsize
    refine ⟨hsize.le.trans h.size, fun hlt => ?_⟩
    rw [hsize] at hlt ⊢
    rw [setDname_data, if_neg fun h => absurd h.2.1 (by omega)]
    exact h.ended hlt

theorem lfnPut_size_le (js : List (Fin 13)) : ∀ d, (lfnPut s js d).size ≤ d.size := by
  induction js with
  | nil => exact fun _ => le_refl _
  | cons j js ih =>
    refine fun d => (ih _).trans ?_
    rw [setDname_size]
    split
    · rename_i h
      exact h.1.le
    · exact le_refl _

theorem lfnPut_held (js : List (Fin 13)) : ∀ {d : DName}, Held d → Held (lfnPut s js d) := by
  induction js with
  | nil => exact id
  | cons j js ih => exact fun h => ih (setDname_held h _ _)

/-- Nothing is stored behind the name. -/
theorem lfnPut_behind (js : List (Fin 13)) : ∀ {d : DName}, d.size ≤ i →
    (lfnPut s js d).data i = d.data i := by
  induction js with
  | nil => exact fun _ => rfl
  | cons j js ih =>
    intro d hi
    have hsize := lfnPut_size_le (s := s) [j] d
    refine (ih (hsize.trans hi)).trans ?_
    show (setDname (s.charPos j) (s.lfnUnit j) d).data i = d.data i
    rw [setDname_data, if_neg fun h => absurd h.2.1 (not_lt.mpr (h.1 ▸ hi))]

/-- What storing characters does to a name that has no end yet. -/
theorem lfnPut_open (js : List (Fin 13)) : ∀ {d : DName}, d.size = dNameSize →
    ((lfnPut s js d).size = dNameSize ↔ ∀ j ∈ js, s.charPos j < dNameSize → s.lfnUnit j ≠ 0) ∧
    ((lfnPut s js d).size = dNameSize → ((lfnPut s js d).data 0 ≠ 0 ↔
      d.data 0 ≠ 0 ∨ ∃ j ∈ js, s.charPos j = 0 ∧ s.lfnUnit j ≠ lfnFill)) := by
  induction js with
  | nil =>
    intro d hd
    refine ⟨⟨fun _ => nofun, fun _ => hd⟩, fun _ => ⟨.inl, fun h => h.elim id ?_⟩⟩
    exact fun ⟨_, h, _⟩ => absurd h (List.not_mem_nil)
  | cons j js ih =>
    intro d hd
    have hput : lfnPut s (j :: js) d = lfnPut s js (setDname (s.charPos j) (s.lfnUnit j) d) := rfl
    rw [hput]
    have hsize := setDname_size (s.charPos j) (s.lfnUnit j) d
    rw [hd] at hsize
    by_cases hnul : s.charPos j < dNameSize ∧ s.lfnUnit j = 0
    · -- the name ends here, and does not grow any more
      rw [if_pos hnul] at hsize
      have hlt : (lfnPut s js (setDname (s.charPos j) (s.lfnUnit j) d)).size < dNameSize :=
        (lfnPut_size_le js _).trans_lt (hsize.trans_lt hnul.1)
      refine ⟨⟨fun h => absurd h hlt.ne, fun h => ?_⟩, fun h => absurd h hlt.ne⟩
      exact absurd hnul.2 (h j (List.mem_cons_self ..) hnul.1)
    · rw [if_neg hnul] at hsize
      obtain ⟨h1, h2⟩ := ih hsize
      refine ⟨?_, fun h => ?_⟩
      · rw [h1, List.forall_mem_cons]
        exact ⟨fun h => ⟨fun hlt h0 => hnul ⟨hlt, h0⟩, h⟩, fun h => h.2⟩
      · rw [h2 h, setDname_data, List.exists_mem_cons_iff, ← or_assoc]
        refine or_congr ?_ Iff.rfl
        by_cases hj : s.charPos j = 0 ∧ s.lfnUnit j ≠ lfnFill
        · rw [if_pos ⟨hj.1.symm, by rw [hj.1, hd]; decide, hj.2⟩]
          have hne : ucsChar (s.lfnUnit j) ≠ 0 := fun h0 =>
            hnul ⟨by rw [hj.1]; decide, ucsChar_eq_zero.mp h0⟩
          exact ⟨fun _ => .inr hj, fun _ => hne⟩
        · rw [if_neg fun h => hj ⟨h.1.symm, h.2.2⟩]
          exact ⟨.inl, fun h => h.resolve_right hj⟩

/-! ## The name behind a list of slots -/

namespace Slot

/-- The entry ends the name in the buffer: by the length that it announces, or with a
NUL. -/
def EndsName (s : Slot) : Prop :=
  s.Last ∧ s.seqNum * 13 < dNameSize ∨ ∃ j, s.charPos j < dNameSize ∧ s.lfnUnit j = 0

instance (s : Slot) : Decidable s.EndsName := inferInstanceAs (Decidable (_ ∨ _))

/-- The entry has the first character of a name. -/
def BeginsName (s : Slot) : Prop := s.seqNum = 1 ∧ s.lfnUnit 0 ≠ lfnFill

instance (s : Slot) : Decidable s.BeginsName := inferInstanceAs (Decidable (_ ∧ _))

theorem beginsName_iff (s : Slot) :
    s.BeginsName ↔ ∃ j, s.charPos j = 0 ∧ s.lfnUnit j ≠ lfnFill := by
  rcases Nat.eq_zero_or_pos s.seqNum with h0 | hpos
  · refine ⟨fun h => absurd h.1 (by rw [h0]; decide), fun ⟨j, hj, _⟩ => ?_⟩
    have := charPos_zero h0 j
    rw [hj] at this
    exact absurd this (by decide)
  · refine ⟨fun h => ⟨0, by rw [charPos_eq hpos, h.1]; rfl, h.2⟩, fun ⟨j, hj, hne⟩ => ?_⟩
    rw [charPos_eq hpos] at hj
    obtain rfl : j = 0 := Fin.ext (by omega)
    exact ⟨by omega, hne⟩

end Slot

/-- The slots behind the last volume label. -/
def afterLabel (l : List Slot) : List Slot := l.rtakeWhile fun s => ¬ s.IsLabel

/-- Long name entries begin a name that none of them ends. -/
def Endless (l : List Slot) : Prop :=
  (∃ s ∈ afterLabel l, s.IsLfn ∧ s.BeginsName) ∧ ∀ s ∈ afterLabel l, s.IsLfn → ¬ s.EndsName

theorem lfnStart_held (h : Held d) (s : Slot) : Held (lfnStart s d) := by
  unfold lfnStart
  split
  · rename_i hs
    refine ⟨hs.2.le, fun _ => ?_⟩
    show Function.update d.data (s.seqNum * 13) 0 (s.seqNum * 13) = 0
    rw [Function.update_self]
  · exact h

theorem nameStep_held (h : Held d) (s : Slot) : Held (nameStep d s) := by
  unfold nameStep
  split
  · exact h
  split
  · exact lfnPut_held _ (lfnStart_held h s)
  · exact ⟨le_refl _, fun hlt => absurd hlt (lt_irrefl dNameSize)⟩

/-- A slot stores nothing behind the buffer. -/
theorem nameStep_inside (h : Held d) (s : Slot) (hi : dNameSize ≤ i) :
    (nameStep d s).data i = d.data i := by
  have hstart : (lfnStart s d).data i = d.data i := by
    unfold lfnStart
    split
    · rename_i hs
      show Function.update d.data (s.seqNum * 13) 0 i = d.data i
      rw [Function.update_of_ne (by omega)]
    · rfl
  unfold nameStep
  split
  · rfl
  split
  · rw [lfnPut_behind _ ((lfnStart_held h s).size.trans hi), hstart]
  · show Function.update d.data 0 0 i = d.data i
    rw [Function.update_of_ne (by simp only [dNameSize, maxName] at hi; omega)]

theorem nameAfter_held (h : Held d) (l : List Slot) : Held (nameAfter d l) := by
  induction l using List.reverseRecOn with
  | nil => exact h
  | append_singleton l s ih =>
    rw [nameAfter, List.foldl_concat]
    exact nameStep_held ih s

theorem nameAfter_inside (h : Held d) (l : List Slot) (hi : dNameSize ≤ i) :
    (nameAfter d l).data i = d.data i := by
  induction l using List.reverseRecOn with
  | nil => rfl
  | append_singleton l s ih =>
    rw [nameAfter, List.foldl_concat, nameStep_inside (nameAfter_held h l) s hi]
    exact ih

/-- What an entry does to a name that has no end yet. -/
theorem lfnStep_open (hd : d.size ≤ dNameSize) (s : Slot) :
    ((lfnPut s (List.finRange 13) (lfnStart s d)).size = dNameSize ↔
      d.size = dNameSize ∧ ¬ s.EndsName) ∧
    ((lfnPut s (List.finRange 13) (lfnStart s d)).size = dNameSize →
      ((lfnPut s (List.finRange 13) (lfnStart s d)).data 0 ≠ 0 ↔ d.data 0 ≠ 0 ∨ s.BeginsName)) := by
  by_cases hstart : s.Last ∧ s.seqNum * 13 < dNameSize
  · have hlt : (lfnPut s (List.finRange 13) (lfnStart s d)).size < dNameSize := by
      refine (lfnPut_size_le _ _).trans_lt ?_
      rw [lfnStart, if_pos hstart]
      exact hstart.2
    exact ⟨⟨fun h => absurd h hlt.ne, fun h => absurd (.inl hstart) h.2⟩, fun h => absurd h hlt.ne⟩
  · rw [lfnStart, if_neg hstart]
    rcases hd.lt_or_eq with hlt | heq
    · have hlt' := (lfnPut_size_le (s := s) (List.finRange 13) d).trans_lt hlt
      exact ⟨⟨fun h => absurd h hlt'.ne, fun h => absurd h.1 hlt.ne⟩, fun h => absurd h hlt'.ne⟩
    · obtain ⟨h1, h2⟩ := lfnPut_open (s := s) (List.finRange 13) heq
      refine ⟨?_, fun h => ?_⟩
      · rw [h1]
        refine ⟨fun h => ⟨heq, ?_⟩, fun h j _ hlt h0 => h.2 (.inr ⟨j, hlt, h0⟩)⟩
        rintro (hs | ⟨j, hlt, h0⟩)
        · exact hstart hs
        · exact h j (List.mem_finRange j) hlt h0
      · rw [h2 h, Slot.beginsName_iff]
        exact or_congr Iff.rfl ⟨fun ⟨j, _, h⟩ => ⟨j, h⟩, fun ⟨j, h⟩ => ⟨j, List.mem_finRange j, h⟩⟩

/-- The buffer is full where no entry ended the name, and then it holds a name where an
entry began one. -/
theorem nameAfter_open (hsize : d.size = dNameSize) (h0 : d.data 0 = 0) (hl : ∀ x ∈ l, x.Skipped) :
    ((nameAfter d l).size = dNameSize ↔ ∀ s ∈ afterLabel l, s.IsLfn → ¬ s.EndsName) ∧
    ((nameAfter d l).size = dNameSize → ((nameAfter d l).data 0 ≠ 0 ↔
      ∃ s ∈ afterLabel l, s.IsLfn ∧ s.BeginsName)) := by
  induction l using List.reverseRecOn with
  | nil => exact ⟨⟨fun _ => nofun, fun _ => hsize⟩, fun _ => ⟨fun h => absurd h0 h, nofun⟩⟩
  | append_singleton l s ih =>
    obtain ⟨ih1, ih2⟩ := ih fun x hx => hl x (List.mem_append_left _ hx)
    have hheld : Held (nameAfter d l) :=
      nameAfter_held ⟨hsize.le, fun h => absurd hsize h.ne⟩ l
    have hstep : nameAfter d (l ++ [s]) = nameStep (nameAfter d l) s := by
      rw [nameAfter, List.foldl_concat]
    rw [hstep]
    by_cases hlabel : s.IsLabel
    · have hafter : afterLabel (l ++ [s]) = [] := List.rtakeWhile_concat_neg _ _ _ (by simpa using hlabel)
      have hreset : nameStep (nameAfter d l) s =
          { (nameAfter d l).set 0 0 with size := dNameSize } := by
        rw [nameStep, if_neg hlabel.1, if_neg hlabel.2]
      have hzero : ((nameAfter d l).set 0 0).data 0 = 0 := Function.update_self 0 0 (nameAfter d l).data
      rw [hafter, hreset]
      exact ⟨⟨fun _ => nofun, fun _ => rfl⟩, fun _ => ⟨fun h => absurd hzero h, nofun⟩⟩
    · have hafter : afterLabel (l ++ [s]) = afterLabel l ++ [s] :=
        List.rtakeWhile_concat_pos _ _ _ (by simpa using hlabel)
      rw [hafter]
      by_cases hdel : s.first = lfnDeleted
      · have hno : ¬ s.IsLfn := fun h => h.1 hdel
        rw [nameStep, if_pos hdel, ih1]
        refine ⟨?_, fun h => (ih2 (ih1.mpr h)).trans ?_⟩
        · simp [or_imp, forall_and, hno]
        · simp [or_and_right, exists_or, hno]
      · have hlfn : s.attr = attrLongName := by
          by_contra hne
          exact hlabel ⟨hdel, hne⟩
        have his : s.IsLfn := ⟨hdel, hlfn⟩
        obtain ⟨h1, h2⟩ := lfnStep_open hheld.size s
        rw [nameStep, if_neg hdel, if_pos hlfn, h1, ih1]
        refine ⟨?_, fun h => ?_⟩
        · simp [or_imp, forall_and, his]
        · rw [h2 (h1.mpr ⟨ih1.mpr h.1, h.2⟩), ih2 (ih1.mpr h.1)]
          simp [or_and_right, exists_or, his]

/-- A name without an end. -/
theorem nameAfter_endless (hsize : d.size = dNameSize) (h0 : d.data 0 = 0)
    (hl : ∀ x ∈ l, x.Skipped) :
    (nameAfter d l).size = dNameSize ∧ (nameAfter d l).data 0 ≠ 0 ↔ Endless l := by
  obtain ⟨h1, h2⟩ := nameAfter_open hsize h0 hl
  rw [Endless, ← h1, and_comm]
  exact and_congr_left h2

/-! ## Names in a directory -/

variable {fsi : Fsi} {cs : List Nat} {t : VnSt} {f : Nat → UInt8} {efv : Option Fv}

/-- `d` is what became of a buffer with the bytes `f`: a name that ends inside it, and
nothing else is changed. -/
structure InBuffer (f : Nat → UInt8) (d : DName) : Prop where
  size : d.size ≤ maxName
  ended : d.data d.size = 0
  inside : ∀ i ≥ dNameSize, d.data i = f i

/-- The scan of the slots `L` stores nothing behind the buffer, and the name of an entry
that it finds ends inside. -/
structure NameFits (f : Nat → UInt8) (L : List Slot) (offset : Nat) (r : Out Errno DirentOut) :
    Prop where
  stores : ∀ p st, p <+: L → scanSlots dNameSize p { offset := offset, name := ⟨f, dNameSize⟩ } =
    .more st → ∀ i ≥ dNameSize, st.name.data i = f i
  found : ∀ out, r = .ok out → InBuffer f out.name

theorem scanSlots_more {L : List Slot} : ∀ {st st' : Scan}, scanSlots dNameSize L st = .more st' →
    st'.name = nameAfter st.name L := by
  induction L with
  | nil =>
    intro st st' h
    rw [← ScanOut.more.inj h]
    rfl
  | cons s L ih =>
    intro st st' h
    rw [scanSlots] at h
    rcases slot_kinds s with h0 | hs | hs
    · have hstop : scanSlot dNameSize s st = .stop := by rw [scanSlot, if_pos h0]
      rw [hstop] at h
      cases h
    · obtain ⟨st1, hst, hname⟩ := scanSlot_skipped hs st
      rw [hst] at h
      rw [ih h, hname]
      rfl
    · obtain ⟨st1, hst, -⟩ := scanSlot_entry hs st
      rw [hst] at h
      cases h

@[simp] theorem store_size (d : DName) (l : List UInt8) : (d.store l).size = l.length := rfl

theorem store_end (d : DName) (l : List UInt8) : (d.store l).data l.length = 0 := by
  rw [DName.store]
  dsimp only
  rw [dif_neg (lt_irrefl _), if_pos rfl]

theorem store_behind (d : DName) {l : List UInt8} (h : l.length < i) :
    (d.store l).data i = d.data i := by
  rw [DName.store]
  dsimp only
  rw [dif_neg (not_lt.mpr h.le), if_neg h.ne']

theorem store_inBuffer (hin : ∀ i ≥ dNameSize, d.data i = f i) (e : Slot) :
    InBuffer f (d.store (e.decodeName.take (sub32 dNameSize 1))) := by
  have hlen : (e.decodeName.take (sub32 dNameSize 1)).length ≤ maxName := by
    rw [List.length_take]
    exact (Nat.min_le_left _ _).trans (by decide)
  refine ⟨hlen, store_end d _, fun i hi => ?_⟩
  rw [store_behind d (lt_of_le_of_lt hlen hi), hin i hi]

/-- The name of an entry ends inside the buffer if the slots before it do not begin one
that has no end. -/
theorem name_inBuffer_iff (hf : f 0 = 0) (hl : ∀ x ∈ l, x.Skipped) (e : Slot) :
    InBuffer f (if (nameAfter ⟨f, dNameSize⟩ l).data 0 = 0 then
        (nameAfter ⟨f, dNameSize⟩ l).store (e.decodeName.take (sub32 dNameSize 1))
      else nameAfter ⟨f, dNameSize⟩ l) ↔ ¬ Endless l := by
  have hheld : Held ⟨f, dNameSize⟩ := ⟨le_refl _, fun h => absurd h (lt_irrefl dNameSize)⟩
  have hin : ∀ i ≥ dNameSize, (nameAfter ⟨f, dNameSize⟩ l).data i = f i :=
    fun i hi => nameAfter_inside hheld l hi
  rw [← nameAfter_endless (d := ⟨f, dNameSize⟩) rfl hf hl]
  by_cases h0 : (nameAfter ⟨f, dNameSize⟩ l).data 0 = 0
  · rw [if_pos h0]
    exact ⟨fun _ h => h.2 h0, fun _ => store_inBuffer hin e⟩
  · rw [if_neg h0]
    obtain ⟨hsize, hended⟩ := nameAfter_held hheld l
    refine ⟨fun h h' => ?_, fun h => ?_⟩
    · have hle := h.size
      rw [h'.1] at hle
      exact absurd hle (by decide)
    · have hlt := hsize.lt_of_ne fun heq => h ⟨heq, h0⟩
      exact ⟨Nat.le_of_lt_succ hlt, hended hlt, hin⟩

/-- A directory with the one cluster 2. -/
def smallDir (slots : List Slot) : VnSt where
  vol := image [clusterEoc, 0] fun c => if c = 2 then slots else []
  fv := { vnodeNew (small 2) with type := .vdir, cluster := 2 }

theorem smallDir_isDir (slots : List Slot) : IsDir (small 2) [2] (smallDir slots) := by
  have hfat : (view (small 2) (smallDir slots).vol.disk).fat 2 = clusterEoc := by
    have hbyte (i : Nat) (hi : i < 4) : (smallDir slots).vol.disk (520 + i) = byteOf clusterEoc i := by
      interval_cases i <;> rfl
    have haddr : fatAddr (small 2) 0 2 = 520 := rfl
    have h0 : (smallDir slots).vol.disk 520 = byteOf clusterEoc 0 := hbyte 0 (by decide)
    rw [@view_fat (small 2) (smallDir slots).vol.disk 2 (by decide), fatCopy, haddr, rle32, h0,
      hbyte 1 (by decide), hbyte 2 (by decide), hbyte 3 (by decide), le32_byteOf]
    decide
  refine ⟨rfl, .last ?_, .empty⟩
  show fatNext _ _ 2 = none
  rw [fatNext, if_neg]
  rw [hfat]
  decide

/-- An entry of a long name with the number 1 and one character, without an end. -/
def endlessSlot : Slot := lfnSlot 1 0 fun i => if i = 0 then (65, 0) else (255, 255)

/-- The size of a returned name. -/
def foundSize : Out Errno DirentOut → Nat
  | .ok out => out.name.size
  | _ => 0

theorem foundSize_pos {r : Out Errno DirentOut} {n : Nat} (h : foundSize r = n + 1) :
    ∃ out, r = .ok out ∧ out.name.size = n + 1 := by
  cases r with
  | ok out => exact ⟨out, rfl, h⟩
  | err e => exact absurd h (Nat.succ_ne_zero n).symm
  | hang => exact absurd h (Nat.succ_ne_zero n).symm

theorem endless_size : foundSize (getDirent (small 2) 0 ⟨fun _ => 0, dNameSize⟩ none
    (smallDir [endlessSlot, shortEntry 65 0 0 0])).1 = 256 := by decide +kernel

end Fat32
