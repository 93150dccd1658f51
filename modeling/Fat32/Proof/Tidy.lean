import Mathlib
import Fat32.Proof.LfnSet
import Fat32.Proof.SizeLimit

/-!
# Tidy directories

The slots of a directory in which every long name entry is of a complete set in front of its own
8.3 entry are a list of entries (`Tidy`). `fat32_get_dirent` enumerates these, each with its first slot
and the number of its slots (`entries_tidy`).
-/

namespace Fat32

open Bytes Exec

variable {D l P Q S T : List Slot} {s e : Slot} {i k n : Nat} {st : Scan}

/-- An entry of a directory: its 8.3 entry, the index of the slot, and the long name entries in front of it. -/
structure DirEntry where
  slot : Nat
  set : List Slot
  dentry : Slot

/-- The index of the first slot of an entry. -/
def DirEntry.start (x : DirEntry) : Nat := x.slot - x.set.length

/-- Where an entry is: the first cluster of the directory, the offset of the first slot and how many there are. -/
structure Identity where
  parentCluster : Nat
  diroff : Nat
  dirsz : Nat
  deriving DecidableEq, Repr

def DirEntry.identity (d : Nat) (x : DirEntry) : Identity := ⟨d, 32 * x.start, x.set.length + 1⟩

/-- What a vnode has of it. -/
def Fv.identity (fv : Fv) : Identity := ⟨fv.parentCluster, fv.diroff, fv.dirsz⟩

/-- A vnode has the place of the entry `x` of the directory at `d`, and is the root only if it leads there. -/
structure VnodeOf (fsi : Fsi) (d : Nat) (x : DirEntry) (fv : Fv) : Prop where
  identity : fv.identity = x.identity d
  root : fv.flags.root = true → fv.type = .vdir ∧ fv.cluster = fsi.rootCluster

/-- The slots `D`, the first of which has the index `i`, are those of the entries `es`, labels and deleted
ones up to the end of the directory. -/
inductive Tidy : Nat → List Slot → List DirEntry → Prop
  | nil {i : Nat} : Tidy i [] []
  | stop {i : Nat} {s : Slot} {l : List Slot} (h0 : s.first = 0) : Tidy i (s :: l) []
  | pass {i : Nat} {s : Slot} {l : List Slot} {es : List DirEntry} (hs : s.Skipped) (hl : ¬ s.IsLfn)
      (h : Tidy (i + 1) l es) : Tidy i (s :: l) es
  | entry {i : Nat} {S : List Slot} {e : Slot} {l : List Slot} {es : List DirEntry}
      (hS : S = [] ∨ CompleteSet S e) (he : e.IsEntry) (h : Tidy (i + S.length + 1) l es) :
      Tidy i (S ++ e :: l) (⟨i + S.length, S, e⟩ :: es)

/-- The entries of a directory come in the order of their slots, each behind the slots of the others. -/
theorem Tidy.le {es : List DirEntry} (h : Tidy i D es) : ∀ x ∈ es, i ≤ x.start ∧ x.start + x.set.length = x.slot := by
  induction h with
  | nil => exact nofun
  | stop => exact nofun
  | pass _ _ _ ih => exact fun x hx => ⟨by have := (ih x hx).1; omega, (ih x hx).2⟩
  | entry _ _ _ ih =>
    intro x hx
    rcases List.mem_cons.mp hx with rfl | hx
    · simp [DirEntry.start]
    · exact ⟨by have := (ih x hx).1; omega, (ih x hx).2⟩

theorem Tidy.slot_lt {es : List DirEntry} (h : Tidy i D es) : ∀ x ∈ es, x.slot < i + D.length := by
  induction h with
  | nil => exact nofun
  | stop => exact nofun
  | pass _ _ _ ih =>
    intro x hx
    have := ih x hx
    rw [List.length_cons]
    omega
  | entry _ _ _ ih =>
    intro x hx
    rw [List.length_append, List.length_cons]
    rcases List.mem_cons.mp hx with rfl | hx
    · show _ + _ < _
      omega
    · have := ih x hx
      omega

/-- The 8.3 slot tells which entry it is. -/
theorem Tidy.unique {es : List DirEntry} (h : Tidy i D es) :
    ∀ x ∈ es, ∀ y ∈ es, x.slot = y.slot → x = y := by
  induction h with
  | nil => exact nofun
  | stop => exact nofun
  | pass _ _ _ ih => exact ih
  | entry _ _ h ih =>
    intro x hx y hy hxy
    rcases List.mem_cons.mp hx with rfl | hx <;> rcases List.mem_cons.mp hy with rfl | hy
    · rfl
    · obtain ⟨h1, h2⟩ := h.le y hy
      dsimp only at hxy
      omega
    · obtain ⟨h1, h2⟩ := h.le x hx
      dsimp only at hxy
      omega
    · exact ih x hx y hy hxy

/-- A directory has the entry `x`, and is tidy up to it. -/
def HasEntry (D : List Slot) (x : DirEntry) : Prop := ∃ es, Tidy 0 (D.take (x.slot + 1)) (es ++ [x])

theorem Tidy.upto {es : List DirEntry} {x : DirEntry} (h : Tidy i D es) (hx : x ∈ es) :
    ∃ es', Tidy i (D.take (x.slot + 1 - i)) (es' ++ [x]) := by
  induction h with
  | nil => exact nomatch hx
  | stop => exact nomatch hx
  | @pass i s l es hs hl h ih =>
    obtain ⟨es', hes⟩ := ih hx
    obtain ⟨hi, hslot⟩ := h.le x hx
    refine ⟨es', ?_⟩
    rw [show x.slot + 1 - i = x.slot + 1 - (i + 1) + 1 by omega, List.take_succ_cons]
    exact .pass hs hl hes
  | @entry i S e l es hS he h ih =>
    rcases List.mem_cons.mp hx with rfl | hx
    · refine ⟨[], ?_⟩
      dsimp only
      rw [show i + S.length + 1 - i = S.length + 1 by omega, List.take_length_add_append, List.take_succ_cons, List.take_zero]
      exact .entry hS he .nil
    · obtain ⟨es', hes⟩ := ih hx
      obtain ⟨hi, hslot⟩ := h.le x hx
      refine ⟨⟨i + S.length, S, e⟩ :: es', ?_⟩
      rw [show x.slot + 1 - i = S.length + (x.slot + 1 - (i + S.length + 1) + 1) by omega, List.take_length_add_append,
        List.take_succ_cons]
      exact .entry hS he hes

theorem Tidy.hasEntry {es : List DirEntry} {x : DirEntry} (h : Tidy 0 D es) (hx : x ∈ es) : HasEntry D x := h.upto hx

theorem HasEntry.slot_lt {x : DirEntry} (h : HasEntry D x) : x.slot < D.length := by
  obtain ⟨es, h⟩ := h
  have hlt := h.slot_lt x (by simp)
  rw [List.length_take] at hlt
  omega

/-! ## The scan -/

theorem Slot.first_ne_zero (h : 1 ≤ s.seqNum) : s.first ≠ 0 := by
  intro h0
  have hz : s.seqNum = 0 := by
    show (s.first &&& lfnSeqMask).toNat = 0
    rw [h0]
    rfl
  omega

/-- What the scan keeps of the places at a long name entry. -/
theorem scanSlot_lfn (hs : s.IsLfn) (h0 : s.first ≠ 0) (st : Scan) : ∃ st', scanSlot dNameSize s st = .skip st' ∧
    st'.offset = u32 (st.offset + dentrySize) ∧ st'.hasLfn = true ∧
    st'.entryStart = if s.Last then st.offset else st.entryStart := by
  refine ⟨(scanLfn dNameSize s st).next, ?_, ?_, rfl, ?_⟩
  · rw [scanSlot, if_neg h0, if_neg hs.1, if_pos hs.2]
  · unfold scanLfn Scan.next
    dsimp only
    split <;> rfl
  · by_cases hlast : s.Last
    · have hlast' : s.sequence &&& lfnLast ≠ 0 := hlast
      unfold scanLfn Scan.next
      dsimp only
      rw [if_pos hlast', if_pos hlast]
    · have hlast' : ¬ s.sequence &&& lfnLast ≠ 0 := hlast
      unfold scanLfn Scan.next
      dsimp only
      rw [if_neg hlast', if_neg hlast]

theorem u32_slot (h : 32 * (i + 1) < 2 ^ 32) : u32 (32 * i + dentrySize) = 32 * (i + 1) :=
  Nat.mod_eq_of_lt (by
    simp only [dentrySize]
    omega)

/-- Behind the other entries of a set the scan still knows where the set begins. -/
theorem entries_numbered : ∀ {n i : Nat} {T : List Slot} {st : Scan}, Numbered n T → (∀ s ∈ T, ¬ s.Last) →
    st.offset = 32 * i → 32 * (i + T.length) < 2 ^ 32 → st.hasLfn = true → ∃ st', st'.offset = 32 * (i + T.length) ∧
      st'.hasLfn = true ∧ st'.entryStart = st.entryStart ∧ ∀ l, entries (T ++ l) st = entries l st'
  | 0, _, _, st, h, _, ho, _, hlfn => by
    subst h
    exact ⟨st, ho, hlfn, rfl, fun _ => rfl⟩
  | n + 1, i, s :: T, st, ⟨hs, hseq, h⟩, hlast, ho, hlt, _ => by
    rw [List.length_cons] at hlt
    obtain ⟨st1, hst, ho1, hlfn1, hstart1⟩ := scanSlot_lfn hs (Slot.first_ne_zero (by omega)) st
    rw [ho, u32_slot (by omega)] at ho1
    rw [if_neg (hlast s (List.mem_cons_self ..))] at hstart1
    obtain ⟨st', ho', hlfn', hstart', hent⟩ := entries_numbered h
      (fun x hx => hlast x (List.mem_cons_of_mem _ hx)) ho1 (by omega) hlfn1
    refine ⟨st', by rw [ho', List.length_cons]; omega, hlfn', hstart'.trans hstart1, fun l => ?_⟩
    rw [List.cons_append, entries, hst]
    exact hent l

/-- Behind a set too. -/
theorem entries_set (h : CompleteSet S e) (ho : st.offset = 32 * i) (hlt : 32 * (i + S.length) < 2 ^ 32) :
    ∃ st', st'.offset = 32 * (i + S.length) ∧ st'.hasLfn = true ∧ st'.entryStart = 32 * i ∧
      ∀ l, entries (S ++ l) st = entries l st' := by
  obtain ⟨hnum, hne, hfirst, hothers, -⟩ := h
  cases S with
  | nil => exact absurd rfl hne
  | cons s T =>
    rw [List.length_cons] at hlt
    obtain ⟨hs, hseq, hT⟩ := hnum
    obtain ⟨st1, hst, ho1, hlfn1, hstart1⟩ := scanSlot_lfn hs (Slot.first_ne_zero (by omega)) st
    rw [ho, u32_slot (by omega)] at ho1
    rw [if_pos (hfirst s rfl), ho] at hstart1
    obtain ⟨st', ho', hlfn', hstart', hent⟩ := entries_numbered hT hothers ho1 (by omega) hlfn1
    refine ⟨st', by rw [ho', List.length_cons]; omega, hlfn', hstart'.trans hstart1, fun l => ?_⟩
    rw [List.cons_append, entries, hst]
    exact hent l

/-- What the scan has of an entry: the 8.3 entry and the places of its slots. -/
structure Scanned (x : Slot × Scan) (y : DirEntry) : Prop where
  dentry : x.1 = y.dentry
  offset : x.2.offset = 32 * y.slot
  start : x.2.entryStart = 32 * y.start

theorem Scan.restart_offset (ho : st.offset = 32 * i) (hlt : 32 * (i + 1) < 2 ^ 32) : st.restart.offset = 32 * (i + 1) := by
  show u32 (st.offset + dentrySize) = _
  rw [ho, u32_slot hlt]

/-- The enumeration of a tidy directory. -/
theorem entries_tidy {es : List DirEntry} (h : Tidy i D es) : ∀ {st : Scan}, st.offset = 32 * i → st.hasLfn = false →
    32 * (i + D.length) < 2 ^ 32 → List.Forall₂ Scanned (entries D st) es := by
  induction h with
  | nil => exact fun _ _ _ => .nil
  | stop h0 =>
    intro st _ _ _
    rw [entries, scanSlot, if_pos h0]
    exact .nil
  | @pass i s l es hs hl _ ih =>
    intro st ho hlfn hlt
    rw [List.length_cons] at hlt
    obtain ⟨st', hst, -⟩ := scanSlot_skipped hs st
    have hfree : st'.hasLfn = false := by
      unfold scanSlot at hst
      rw [if_neg hs.1] at hst
      by_cases hdel : s.first = lfnDeleted
      · rw [if_pos hdel] at hst
        cases hst
        exact hlfn
      · have hattr : s.attr ≠ attrLongName := fun ha => hl ⟨hdel, ha⟩
        rw [if_neg hdel, if_neg hattr, if_pos ((hs.2.resolve_left hdel).resolve_left hattr)] at hst
        cases hst
        rfl
    rw [entries, hst]
    refine ih ?_ hfree (by omega)
    rw [scanSlot_offset.1 hst, ho, u32_slot (by omega)]
  | @entry i S e l es hS he _ ih =>
    intro st ho hlfn hlt
    rw [List.length_append, List.length_cons] at hlt
    -- in front of the 8.3 entry
    obtain ⟨st1, ho1, hstart1, hent⟩ : ∃ st1 : Scan, st1.offset = 32 * (i + S.length) ∧
        (if st1.hasLfn then st1.entryStart else st1.offset) = 32 * i ∧
        ∀ l, entries (S ++ l) st = entries l st1 := by
      rcases hS with rfl | hS
      · exact ⟨st, ho, by rw [hlfn]; exact ho, fun _ => rfl⟩
      · obtain ⟨st1, ho1, hlfn1, hstart1, hent⟩ := entries_set hS ho (by omega)
        exact ⟨st1, ho1, by rw [hlfn1]; exact hstart1, hent⟩
    obtain ⟨st2, hst, ho2, hstart2⟩ : ∃ st2, scanSlot dNameSize e st1 = .entry st2 ∧
        st2.offset = 32 * (i + S.length) ∧ st2.entryStart = 32 * i := by
      have hlfne : e.attr ≠ attrLongName := fun heq => by
        have hlabel := he.2.2
        rw [heq] at hlabel
        exact absurd hlabel (by decide)
      unfold scanSlot
      rw [if_neg he.1, if_neg he.2.1, if_neg hlfne, if_neg (not_not.mpr he.2.2)]
      exact ⟨_, rfl, ho1, hstart1⟩
    rw [hent, entries, hst]
    refine .cons ⟨rfl, ho2, ?_⟩ (ih (Scan.restart_offset ho2 (by omega)) rfl (by omega))
    rw [hstart2, DirEntry.start, Nat.add_sub_cancel]

/-- The entries that the scan finds in front of a place do not depend on the slots behind it. -/
theorem entries_before {z : Slot × Scan} (ho : st.offset = 32 * i) (hlt : 32 * (i + (P ++ Q).length) < 2 ^ 32) (hp : st.Placed)
    (hz : z ∈ entries (P ++ Q) st) (hoff : z.2.offset < 32 * (i + P.length)) : z ∈ entries P st := by
  induction P generalizing i st with
  | nil =>
    obtain ⟨j, -, hj, -⟩ := entries_placed ho hlt hp hz
    rw [hj, List.length_nil] at hoff
    omega
  | cons e P ih =>
    rw [List.cons_append, List.length_cons] at hlt
    rw [List.length_cons] at hoff
    rw [List.cons_append, entries] at hz
    rw [entries]
    cases hs : scanSlot dNameSize e st with
    | stop =>
      rw [hs] at hz
      cases hz
    | skip st' =>
      rw [hs] at hz
      refine @ih (i + 1) st' ?_ (by omega) ((scanSlot_placed ho (by omega) hp).1 hs) hz (by omega)
      rw [scanSlot_offset.1 hs, ho, u32_slot (by omega)]
    | entry st' =>
      rw [hs] at hz
      rcases List.mem_cons.mp hz with rfl | hz
      · exact List.mem_cons_self
      · have ho' : st'.offset = 32 * i := (scanSlot_offset.2 hs).trans ho
        exact List.mem_cons_of_mem _ (@ih (i + 1) st'.restart (Scan.restart_offset ho' (by omega)) (by omega)
          ⟨Nat.dvd_zero _, show 0 < 2 ^ 32 by decide⟩ hz (by omega))

/-! ## A new entry -/

theorem Numbered.seqNum_pos : ∀ {n : Nat} {T : List Slot}, Numbered n T → ∀ s ∈ T, 1 ≤ s.seqNum
  | 0, _, h => by rw [h]; exact nofun
  | _ + 1, [], h => h.elim
  | _ + 1, s :: T, h => fun x hx => by
    rcases List.mem_cons.mp hx with rfl | hx
    · have := h.2.1
      omega
    · exact h.2.2.seqNum_pos x hx

/-- The slots of an entry are not free. -/
theorem entry_used (hS : S = [] ∨ CompleteSet S e) (he : e.IsEntry) : ∀ x ∈ S ++ [e], x.first ≠ 0 ∧ x.first ≠ lfnDeleted := by
  intro x hx
  rcases List.mem_append.mp hx with hx | hx
  · rcases hS with rfl | hS
    · cases hx
    · have hlfn := hS.numbered.isLfn x hx
      exact ⟨Slot.first_ne_zero (hS.numbered.seqNum_pos x hx), hlfn.1⟩
  · rw [List.mem_singleton.mp hx]
    exact ⟨he.1, he.2.1⟩

/-- At a free slot before the end a directory is cut between two entries, and other entries may follow there. -/
theorem Tidy.cut {es : List DirEntry} (h : Tidy i D es) : ∀ {k : Nat}, k ≤ D.length → Open D k →
    (∀ x, D[k]? = some x → x.first = 0 ∨ x.first = lfnDeleted) →
    ∃ es1 es2, es = es1 ++ es2 ∧ Tidy (i + k) (D.drop k) es2 ∧ ∀ Q es', Tidy (i + k) Q es' → Tidy i (D.take k ++ Q) (es1 ++ es') := by
  induction h with
  | nil =>
    intro k hk _ _
    obtain rfl : k = 0 := Nat.le_zero.mp hk
    exact ⟨[], [], rfl, .nil, fun _ _ h => h⟩
  | @stop i s l h0 =>
    intro k _ hopen _
    obtain rfl : k = 0 := by
      by_contra hk
      exact hopen 0 (Nat.pos_of_ne_zero hk) s rfl h0
    exact ⟨[], [], rfl, .stop h0, fun _ _ h => h⟩
  | @pass i s l es hs hl h ih =>
    intro k hk hopen hfree
    cases k with
    | zero => exact ⟨[], es, rfl, .pass hs hl h, fun _ _ h => h⟩
    | succ k =>
      obtain ⟨es1, es2, hsplit, hrest, hes⟩ :=
        ih (Nat.le_of_succ_le_succ hk) (fun j hj x hx => hopen (j + 1) (by omega) x hx) hfree
      rw [Nat.add_assoc, Nat.add_comm 1 k] at hrest hes
      exact ⟨es1, es2, hsplit, hrest, fun Q es' h => .pass hs hl (hes Q es' h)⟩
  | @entry i S e l es hS he _ ih =>
    intro k hk hopen hfree
    have hsplit : S ++ e :: l = (S ++ [e]) ++ l := by simp
    have hlen : (S ++ [e]).length = S.length + 1 := List.length_append
    rw [hsplit] at hk hopen hfree ⊢
    rcases Nat.lt_or_ge k (S ++ [e]).length with hlt | hge
    · have hget : ((S ++ [e]) ++ l)[k]? = some (S ++ [e])[k] := by
        rw [List.getElem?_append_left hlt, List.getElem?_eq_getElem hlt]
      obtain ⟨h0, hd⟩ := entry_used hS he _ (List.getElem_mem hlt)
      exact absurd (hfree _ hget) (not_or.mpr ⟨h0, hd⟩)
    · obtain ⟨m, rfl⟩ := Nat.exists_eq_add_of_le hge
      have hget (j : Nat) : ((S ++ [e]) ++ l)[(S ++ [e]).length + j]? = l[j]? := by
        rw [List.getElem?_append_right (Nat.le_add_right _ _), Nat.add_sub_cancel_left]
      have hrest : m ≤ l.length := by
        rw [@List.length_append _ (S ++ [e]) l] at hk
        exact Nat.le_of_add_le_add_left hk
      obtain ⟨es1, es2, hes12, hback, hes⟩ := @ih m hrest
        (fun j hj x hx => hopen _ (Nat.add_lt_add_left hj _) x (by rw [hget, hx])) (fun x hx => hfree x (by rw [hget, hx]))
      have hplace : i + S.length + 1 + m = i + ((S ++ [e]).length + m) := by
        rw [hlen]
        omega
      rw [hplace] at hback hes
      refine ⟨⟨i + S.length, S, e⟩ :: es1, es2, by rw [hes12, List.cons_append], ?_, fun Q es' h => ?_⟩
      · rwa [List.drop_length_add_append]
      · rw [List.take_length_add_append, List.append_assoc, List.append_assoc]
        exact .entry hS he (hes Q es' h)

end Fat32
