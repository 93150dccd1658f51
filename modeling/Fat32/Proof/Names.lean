import Mathlib
import Fat32.Proof.Create
import Fat32.Proof.Identity
import Fat32.Proof.Resume

/-!
# Names

A name is stored in its 8.3 entry, padded with spaces, or in chunks of 13 units with a NUL and a filler behind the last one.
Either way `fat32_get_dirent` gives it back byte for byte (`spelled_lfnSet`, `decodeName_formatShort`), so in a tidy
directory the search compares with the names that were stored (`listed_names`).
-/

namespace Fat32

open Bytes Exec

variable {name : List UInt8} {D S : List Slot} {e s : Slot} {st : Scan} {d : DName} {i n : Nat} {es : List DirEntry}

/-! ## Long names -/

/-- The unit at a position of the name: its characters, the NUL, and the filler. -/
def unitAt (name : List UInt8) (p : Nat) : Nat :=
  if p < name.length then (name.getD p 0).toNat else if p = name.length then 0 else lfnFill

theorem lfnSlot_unit (seq sum : UInt8) (unit : Nat → UInt8 × UInt8) (j : Fin 13) :
    (lfnSlot seq sum unit).lfnUnit j = le16 (unit j).1 (unit j).2 := by
  fin_cases j <;> rfl

/-- The units of one entry. -/
theorem lfnEntry_unit {sum : UInt8} (hi : 13 * i < name.length) (j : Fin 13) :
    (lfnEntry name sum (i + 1)).lfnUnit j = unitAt name (13 * i + j.val) := by
  have hj := j.isLt
  have hpair : lfnUnits name (13 * i) j.val = if 13 * i + j.val < name.length then (name.getD (13 * i + j.val) 0, 0)
      else if 13 * i + j.val = name.length then (0, 0) else (0xFF, 0xFF) := by
    unfold lfnUnits
    dsimp only
    by_cases hlong : name.length - 13 * i > 13
    · rw [if_pos hlong]
      exact (if_pos hj).trans (if_pos (by omega)).symm
    · rw [if_neg hlong]
      exact if_congr (by omega) rfl (if_congr (by omega) rfl rfl)
  rw [lfnEntry, lfnSlot_unit, Nat.add_sub_cancel, Nat.mul_comm i, hpair, unitAt]
  by_cases hlt : 13 * i + j.val < name.length
  · rw [if_pos hlt, if_pos hlt, le16]
    rfl
  · rw [if_neg hlt, if_neg hlt]
    by_cases heq : 13 * i + j.val = name.length
    · rw [if_pos heq, if_pos heq]
      rfl
    · rw [if_neg heq, if_neg heq]
      rfl

theorem setUnits_lfnSet (sum : UInt8) : ∀ {i : Nat}, i ≤ numLfn name → setUnits (lfnSet name sum i) = (List.range (13 * i)).map (unitAt name)
  | 0, _ => rfl
  | i + 1, hi => by
    have hlt : 13 * i < name.length := by
      rw [numLfn] at hi
      omega
    have hunits : List.ofFn (lfnEntry name sum (i + 1)).lfnUnit = (List.range 13).map fun j => unitAt name (13 * i + j) := by
      refine List.ext_getElem (by simp) fun j hj _ => ?_
      rw [List.getElem_ofFn, List.getElem_map, List.getElem_range]
      exact lfnEntry_unit hlt ⟨j, by simpa using hj⟩
    rw [lfnSet, setUnits, setUnits_lfnSet sum (by omega), hunits, Nat.mul_add, Nat.mul_one, List.range_add, List.map_append, List.map_map]
    rfl

/-- In front of the first NUL stand the characters. -/
theorem takeWhile_setUnits (h : SevenBit name) (sum : UInt8) :
    (setUnits (lfnSet name sum (numLfn name))).takeWhile (· ≠ 0) = name.map UInt8.toNat := by
  obtain ⟨k, hk⟩ : ∃ k, 13 * numLfn name = name.length + k := ⟨13 * numLfn name - name.length, by rw [numLfn]; omega⟩
  have hchars : (List.range name.length).map (unitAt name) = name.map UInt8.toNat := by
    refine List.ext_getElem (by simp) fun j hj _ => ?_
    have hlt : j < name.length := by simpa using hj
    rw [List.getElem_map, List.getElem_map, List.getElem_range, unitAt, if_pos hlt, List.getD_eq_getElem _ _ hlt]
  rw [setUnits_lfnSet sum (Nat.le_refl _), hk, List.range_add, List.map_append, List.map_map, hchars, List.takeWhile_append_of_pos]
  · cases k with
    | zero => simp
    | succ k =>
      have hend : unitAt name name.length = 0 := by
        rw [unitAt, if_neg (Nat.lt_irrefl _), if_pos rfl]
      rw [List.range_succ_eq_map, List.map_cons, List.takeWhile_cons_of_neg (by simp [hend]), List.append_nil]
  · intro u hu
    obtain ⟨c, hc, rfl⟩ := List.mem_map.mp hu
    have hne := (h.chars c hc).1
    simpa [← UInt8.toNat_inj] using hne

/-- A long name is read back as it was written. -/
theorem spelled_lfnSet (h : SevenBit name) (sum : UInt8) : spelled (lfnSet name sum (numLfn name)) = name := by
  rw [spelled, takeWhile_setUnits h, List.map_map]
  refine (List.map_congr_left fun c hc => ?_).trans (List.map_id name)
  have hlt : c.toNat < 128 := UInt8.lt_iff_toNat_lt.mp (h.chars c hc).2
  show ucsChar c.toNat = c
  rw [ucsChar, if_neg (by omega), UInt8.ofNat_toNat]

/-! ## Short names -/

/-- Behind the dot. -/
theorem shortLoop_dotted {p : Nat} : ∀ {l : List UInt8} {i : Nat} {r : Option Nat}, shortLoop l i (some p) = some r →
    r = some p ∧ ∀ c ∈ l, c ≠ 46 ∧ shortChar c = true
  | [], _, _, h => ⟨(Option.some.inj h).symm, fun _ hc => absurd hc List.not_mem_nil⟩
  | c :: l, i, r, h => by
    rw [shortLoop] at h
    by_cases hdot : c = 46
    · rw [if_pos hdot] at h
      cases h
    rw [if_neg hdot] at h
    by_cases hchar : shortChar c = true
    · rw [if_pos hchar] at h
      obtain ⟨hr, hl⟩ := shortLoop_dotted h
      exact ⟨hr, List.forall_mem_cons.mpr ⟨⟨hdot, hchar⟩, hl⟩⟩
    · rw [if_neg hchar] at h
      cases h

/-- What the loop over a short name has found: no dot, or one. -/
theorem shortLoop_some : ∀ {l : List UInt8} {i : Nat} {r : Option Nat}, shortLoop l i none = some r →
    (r = none ∧ ∀ c ∈ l, c ≠ 46 ∧ shortChar c = true) ∨
    ∃ b x, l = b ++ 46 :: x ∧ r = some (i + b.length) ∧ ∀ c ∈ b ++ x, c ≠ 46 ∧ shortChar c = true
  | [], _, _, h => .inl ⟨(Option.some.inj h).symm, fun _ hc => absurd hc List.not_mem_nil⟩
  | c :: l, i, r, h => by
    rw [shortLoop] at h
    by_cases hdot : c = 46
    · rw [if_pos hdot] at h
      obtain ⟨hr, hl⟩ := shortLoop_dotted h
      exact .inr ⟨[], l, by rw [hdot]; rfl, hr, hl⟩
    rw [if_neg hdot] at h
    by_cases hchar : shortChar c = true
    · rw [if_pos hchar] at h
      obtain ⟨hr, hl⟩ | ⟨b, x, rfl, hr, hl⟩ := shortLoop_some h
      · exact .inl ⟨hr, List.forall_mem_cons.mpr ⟨⟨hdot, hchar⟩, hl⟩⟩
      · refine .inr ⟨c :: b, x, rfl, ?_, List.forall_mem_cons.mpr ⟨⟨hdot, hchar⟩, hl⟩⟩
        rw [hr, List.length_cons]
        congr 1
        omega
    · rw [if_neg hchar] at h
      cases h

/-- A short name is a base of up to eight characters, and behind a dot an extension of up to three. -/
theorem nameIsShort_parts (hdot : isDot name = false) (h : nameIsShort name = true) :
    ∃ b x, (name = b ∧ x = [] ∨ name = b ++ 46 :: x ∧ x ≠ []) ∧ b.length ≤ 8 ∧ x.length ≤ 3 ∧
      ∀ c ∈ b ++ x, c ≠ 46 ∧ shortChar c = true := by
  unfold nameIsShort at h
  by_cases hhead : name.head? = some 46
  · rw [if_pos hhead] at h
    have hone : name = [46] ∨ name = [46, 46] := by
      cases name with
      | nil => cases hhead
      | cons c l =>
        obtain rfl := Option.some.inj hhead
        exact (of_decide_eq_true h).imp_left fun hlen => by
          rw [List.length_eq_zero_iff.mp (Nat.succ_injective hlen)]
    exact absurd hone (of_decide_eq_false hdot)
  rw [if_neg hhead] at h
  by_cases hlen : name.length > 12
  · rw [if_pos hlen] at h
    cases h
  rw [if_neg hlen] at h
  cases hloop : shortLoop name 0 none with
  | none =>
    rw [hloop] at h
    cases h
  | some r =>
    rw [hloop] at h
    obtain ⟨rfl, hl⟩ | ⟨b, x, rfl, rfl, hl⟩ := shortLoop_some hloop
    · exact ⟨name, [], .inl ⟨rfl, rfl⟩, of_decide_eq_true h, Nat.zero_le _, by rwa [List.append_nil]⟩
    · have hext : (b ++ 46 :: x).length - (0 + b.length) - 1 = x.length := by
        rw [List.length_append, List.length_cons]
        omega
      dsimp only at h
      rw [hext] at h
      obtain ⟨hb, hx⟩ := of_decide_eq_true h
      refine ⟨b, x, .inr ⟨rfl, fun h0 => hx (.inl (by rw [h0]; rfl))⟩, by omega, by omega, hl⟩

/-- Behind the padding nothing is read. -/
theorem takeWhile_padded {b : List UInt8} {n : Nat} (hb : b.length ≤ n) (hc : ∀ c ∈ b, c ≠ 32) :
    (List.ofFn fun i : Fin n => b.getD i 32).takeWhile (· ≠ 32) = b := by
  obtain ⟨k, rfl⟩ := Nat.exists_eq_add_of_le hb
  have hlist : (List.ofFn fun i : Fin (b.length + k) => b.getD i 32) = b ++ List.replicate k 32 := by
    refine List.ext_getElem (by simp) fun j hj hj' => ?_
    rw [List.getElem_ofFn]
    rcases Nat.lt_or_ge j b.length with hlt | hge
    · rw [List.getElem_append_left hlt]
      exact List.getD_eq_getElem _ _ hlt
    · rw [List.getElem_append_right hge, List.getElem_replicate]
      exact List.getD_eq_default _ _ hge
  rw [hlist, List.takeWhile_append_of_pos fun c hm => decide_eq_true (hc c hm)]
  cases k with
  | zero => simp
  | succ k => simp [List.replicate_succ]

/-- A short name is read back as it was written. -/
theorem decodeName_formatShort (hdot : isDot name = false) (h : nameIsShort name = true) {d83 : Dirent83}
    (hd : d83.name = formatShort name) : d83.toSlot.decodeName = name := by
  obtain ⟨b, x, hname, hb, hx, hc⟩ := nameIsShort_parts hdot h
  have hchar {c : UInt8} (hm : c ∈ b ++ x) : c ≠ 32 := fun heq => by
    have hshort := (hc c hm).2
    rw [heq] at hshort
    exact absurd hshort (by decide)
  have hbase : name.takeWhile (· ≠ 46) = b := by
    have hne : ∀ c ∈ b, decide (c ≠ 46) = true := fun c hm => decide_eq_true (hc c (List.mem_append_left _ hm)).1
    obtain ⟨rfl, -⟩ | ⟨rfl, -⟩ := hname
    · exact List.takeWhile_eq_self_iff.mpr hne
    · rw [List.takeWhile_append_of_pos hne]
      simp
  have hext : name.drop (b.length + 1) = x := by
    obtain ⟨rfl, rfl⟩ | ⟨rfl, -⟩ := hname
    · exact List.drop_eq_nil_of_le (Nat.le_succ _)
    · rw [List.drop_length_add_append]
      rfl
  have hget (j : Nat) (hj : j < (List.ofFn (formatShort name)).length) : (List.ofFn (formatShort name))[j] =
      if j < 8 then b.getD j 32 else x.getD (j - 8) 32 := by
    rw [List.getElem_ofFn]
    unfold formatShort
    dsimp only
    rw [hbase, hext]
  have hleft : (List.ofFn (formatShort name)).take 8 = List.ofFn fun i : Fin 8 => b.getD i 32 := by
    refine List.ext_getElem (by simp) fun j hj _ => ?_
    have hlt : j < 8 := by
      rw [List.length_take] at hj
      omega
    rw [List.getElem_take, hget, if_pos hlt, List.getElem_ofFn]
  have hright : (List.ofFn (formatShort name)).drop 8 = List.ofFn fun i : Fin 3 => x.getD i 32 := by
    refine List.ext_getElem (by simp) fun j hj _ => ?_
    have hlt : j < 3 := by
      rw [List.length_drop, List.length_ofFn] at hj
      omega
    rw [List.getElem_drop, hget, if_neg (by omega), List.getElem_ofFn, Nat.add_sub_cancel_left]
  unfold Slot.decodeName
  dsimp only
  rw [toSlot_name, hd, hleft, hright, takeWhile_padded hb fun c hm => hchar (List.mem_append_left _ hm),
    takeWhile_padded hx fun c hm => hchar (List.mem_append_right _ hm)]
  obtain ⟨rfl, rfl⟩ | ⟨rfl, hne⟩ := hname
  · exact if_pos rfl
  · exact if_neg hne

/-! ## The name of an entry -/

/-- The name that an entry is listed with. -/
def DirEntry.shown (x : DirEntry) : List UInt8 := if x.set = [] then x.dentry.decodeName else spelled x.set

/-- An entry whose long name, if it has one, is a name: not empty, not too long, and the filler only behind its end. -/
def DirEntry.Named (x : DirEntry) : Prop := x.set ≠ [] →
  spelled x.set ≠ [] ∧ (spelled x.set).length ≤ maxName ∧ ∀ u ∈ (setUnits x.set).takeWhile (· ≠ 0), u ≠ lfnFill

/-- The entry that is written for a name has it. -/
theorem entrySet_name (hname : SevenBit name) (hdot : isDot name = false) {d83 : Dirent83} {k : Nat}
    (hd : nameIsShort name = true → d83.name = formatShort name) :
    (DirEntry.mk k (entrySet name d83) d83.toSlot).shown = name ∧ (DirEntry.mk k (entrySet name d83) d83.toSlot).Named := by
  unfold DirEntry.shown DirEntry.Named entrySet
  dsimp only
  by_cases hs : nameIsShort name = true
  · rw [if_pos hs, if_pos rfl]
    exact ⟨decodeName_formatShort hdot hs (hd hs), fun h => absurd rfl h⟩
  · have hne : name ≠ [] := fun h => hs (by rw [h]; rfl)
    have hpos : numLfn name ≠ 0 := by
      have hlen := List.length_pos_iff.mpr hne
      rw [numLfn]
      omega
    have hset : lfnSet name (checksum d83.name) (numLfn name) ≠ [] := (lfnSet_complete hpos hname.numLfn_lt).nonempty
    rw [if_neg hs, if_neg hset, spelled_lfnSet hname]
    refine ⟨rfl, fun _ => ⟨hne, hname.short, fun u hu => ?_⟩⟩
    rw [takeWhile_setUnits hname] at hu
    obtain ⟨c, hc, rfl⟩ := List.mem_map.mp hu
    have hlt : c.toNat < 128 := UInt8.lt_iff_toNat_lt.mp (hname.chars c hc).2
    rw [lfnFill]
    omega

/-! ## The listing -/

/-- A buffer into which no name was stored. -/
structure DName.Fresh (d : DName) : Prop where
  size : d.size = dNameSize
  data : d.data 0 = 0

theorem Scan.restart_fresh (st : Scan) : st.restart.name.Fresh := ⟨rfl, Function.update_self 0 0 st.name.data⟩

theorem nameStep_fresh (h : d.Fresh) (hs : ¬ s.IsLfn) : (nameStep d s).Fresh := by
  unfold nameStep
  by_cases hdel : s.first = lfnDeleted
  · rwa [if_pos hdel]
  · rw [if_neg hdel, if_neg fun hattr => hs ⟨hdel, hattr⟩]
    exact ⟨rfl, Function.update_self 0 0 d.data⟩

/-- Slots that are passed over. -/
theorem entries_skipped {l : List Slot} : ∀ {P : List Slot} (st : Scan), (∀ x ∈ P, x.Skipped) →
    ∃ st', entries (P ++ l) st = entries l st' ∧ st'.name = nameAfter st.name P
  | [], st, _ => ⟨st, rfl, rfl⟩
  | x :: P, st, h => by
    obtain ⟨st1, hst, hname⟩ := scanSlot_skipped (h x List.mem_cons_self) st
    obtain ⟨st', hent, hname'⟩ := entries_skipped (P := P) st1 fun y hy => h y (List.mem_cons_of_mem _ hy)
    refine ⟨st', ?_, ?_⟩
    · rw [List.cons_append, entries, hst]
      exact hent
    · rw [hname', hname]
      rfl

/-- The names in the enumeration of a tidy directory. -/
theorem entries_names (h : Tidy i D es) : (∀ x ∈ es, x.Named) → ∀ {st : Scan}, st.name.Fresh →
    List.Forall₂ (fun z x => nameBytes z.2.name = DirEntry.shown x) (entries D st) es := by
  induction h with
  | nil => exact fun _ _ _ => .nil
  | stop h0 =>
    intro _ st _
    rw [entries, scanSlot, if_pos h0]
    exact .nil
  | @pass i s l es hs hl _ ih =>
    intro hn st hst
    obtain ⟨st', hskip, hname⟩ := scanSlot_skipped hs st
    rw [entries, hskip]
    refine ih hn ?_
    rw [hname]
    exact nameStep_fresh hst hl
  | @entry i S e l es hS he _ ih =>
    intro hn st hst
    have hskip : ∀ x ∈ S, x.Skipped := by
      rcases hS with rfl | hS
      · exact fun x hx => absurd hx List.not_mem_nil
      · exact hS.skipped
    obtain ⟨st1, hent, hname1⟩ := entries_skipped (l := e :: l) st hskip
    obtain ⟨st2, hstep, hname2⟩ := scanSlot_entry he st1
    rw [hent, entries, hstep]
    refine .cons ?_ (ih (fun x hx => hn x (List.mem_cons_of_mem _ hx)) (Scan.restart_fresh _))
    show nameBytes st2.name = _
    rw [hname2, hname1, DirEntry.shown]
    dsimp only
    rcases hS with rfl | hS
    · have hnil : nameAfter st.name [] = st.name := rfl
      rw [hnil, if_pos hst.data, if_pos rfl, nameBytes_store]
      exact List.take_of_length_le ((length_decodeName e).trans (by decide))
    · obtain ⟨hne, hlen, hfill⟩ := hn _ List.mem_cons_self hS.nonempty
      obtain ⟨hbytes, h0⟩ := nameAfter_set hS (.inr hst.size) hfill hlen
      rw [if_neg (h0 hne), if_neg hS.nonempty]
      exact hbytes

theorem listed_names {fsi : Fsi} (h : Tidy 0 D es) (hn : ∀ x ∈ es, x.Named) :
    List.Forall₂ (fun z x => nameBytes z.2.name = DirEntry.shown x) (listed fsi D) es :=
  entries_names h hn ⟨rfl, Function.update_self 0 0 fsi.kernel.stack⟩

/-! ## Searching a name -/

/-- Two names are the same up to the case of their letters. -/
def SameName (a b : List UInt8) : Prop := a.map toupper = b.map toupper

theorem nameMatch_iff (name : List UInt8) (d : DName) : nameMatch name d = true ↔ SameName name (nameBytes d) := by
  unfold nameMatch SameName nameBytes
  rw [decide_eq_true_iff]
  refine ⟨fun h => List.ext_getElem (by simp [h.1]) fun i hi _ => ?_, fun h => ⟨?_, fun i => ?_⟩⟩
  · have hlt : i < name.length := by simpa using hi
    have hchr : chrcmp name[i] (d.data i) = false := h.2 ⟨i, hlt⟩
    simpa [chrcmp] using hchr
  · simpa using (congrArg List.length h).symm
  · have hchr := List.getElem_of_eq h (i := i.val) (by simp)
    simpa [chrcmp] using hchr

end Fat32
