import Mathlib
import Fat32.Proof.EmptyDir
import Fat32.Proof.Tidy

/-!
# The integrity check

`fat32_check_dir_integrity` looks at every slot up to the end of the directory and counts the long name entries of
a set down. It accepts just the tidy directories in which no entry of a directory has a size (`checkDir_iff`): what
it accepts is a list of entries, and every such list is accepted.
-/

namespace Fat32

open Bytes Exec Prog Linked

variable {fsi : Fsi} {cs : List Nat} {v : Vol} {i n : Nat} {l D S T : List Slot} {s e : Slot} {st : Check}
  {es : List DirEntry}

/-! ## The check of a list of slots -/

/-- `checkCluster` on a list of slots. -/
def checkSlots : List Slot → Check → CheckStep
  | [], st => .more st
  | s :: l, st =>
    match checkSlot s st with
    | .more st => checkSlots l st
    | r => r

/-- What `fat32_check_dir_integrity` makes of the end of its scan. -/
def CheckStep.result : CheckStep → Out Errno Unit
  | .bad => .err .einval
  | .done => .ok ()
  | .more st => if st.inLfn then .err .einval else .ok ()

theorem checkSlots_append (l m : List Slot) : ∀ st, checkSlots (l ++ m) st = match checkSlots l st with
    | .more st => checkSlots m st
    | r => r := by
  induction l with
  | nil => exact fun _ => rfl
  | cons s l ih =>
    intro st
    rw [List.cons_append, checkSlots, checkSlots]
    cases checkSlot s st with
    | bad => rfl
    | done => rfl
    | more st => exact ih st

theorem checkCluster_slots (hg : Geometry fsi) (data : Nat → UInt8) (n : Nat) :
    ∀ i st, slotsPer fsi ≤ i + n → checkCluster fsi data n (32 * i) st = checkSlots ((clusterSlots fsi data).drop i) st := by
  induction n with
  | zero =>
    intro i st h
    rw [clusterSlots_drop_all data (by omega)]
    rfl
  | succ n ih =>
    intro i st h
    have hb := bpc_slots hg
    rw [checkCluster]
    by_cases hi : i < slotsPer fsi
    · rw [if_pos (by omega), clusterSlots_drop data hi, checkSlots]
      cases checkSlot (slotAt data (32 * i)) st with
      | bad => rfl
      | done => rfl
      | more st => exact ih (i + 1) st (by omega)
    · rw [if_neg (by omega), clusterSlots_drop_all data (by omega)]
      rfl

theorem checkLoop_slots (hk : Reliable fsi.kernel) (hg : Geometry fsi) {a : Nat} (n : Nat) :
    ∀ {q c : Nat} {v : Vol} {st : Check}, Path fsi (view fsi v.disk).fat a cs → cs[q]? = some c → cs.length ≤ q + n →
      (checkLoop fsi n c st v).1 = (checkSlots ((readSlots fsi cs v).drop (q * slotsPer fsi)) st).result := by
  induction n with
  | zero =>
    intro q c v st _ hc hlen
    obtain ⟨hq, -⟩ := List.getElem?_eq_some_iff.mp hc
    omega
  | succ n ih =>
    intro q c v st hl hc hlen
    obtain ⟨v1, e1, s1⟩ := readCluster_bytes hk c v
    have hper := bpc_slots hg
    have hslots := checkCluster_slots hg (clusterBytes fsi v.disk c) fsi.bytesPerCluster 0 st (by omega)
    have hdrop : (dirSlots fsi _ cs).drop _ = _ :=
      dirSlots_drop_in (clusterBytes fsi v.disk) hc (Nat.zero_le (slotsPer fsi))
    rw [Nat.mul_zero] at hslots
    rw [Nat.add_zero] at hdrop
    rw [checkLoop, bind_ok e1, readSlots, hdrop, checkSlots_append]
    dsimp only
    rw [hslots]
    cases checkSlots ((clusterSlots fsi (clusterBytes fsi v.disk c)).drop 0) st with
    | bad => rfl
    | done => rfl
    | more st =>
      dsimp only
      rcases hl.step hc with ⟨hnone, hlast⟩ | ⟨d, hd, hdi⟩
      · obtain ⟨e, v2, he, -⟩ := nextCluster_none (v := v1) hk hg noAlloc (by rwa [s1.disk])
        rw [bind_ok (attempt_err he), List.drop_of_length_le (by omega)]
        show ((if st.inLfn = true then fail Errno.einval else pure () : FsM Unit) v2).1 =
          if st.inLfn = true then Out.err .einval else .ok ()
        by_cases hlfn : st.inLfn = true
        · rw [if_pos hlfn, if_pos hlfn]
          rfl
        · rw [if_neg hlfn, if_neg hlfn]
          rfl
      · obtain ⟨v2, e2, s2⟩ := nextCluster_link (v := v1) hk hg (by rwa [s1.disk]) {}
        have s12 := s1.trans s2
        rw [bind_ok (attempt_ok e2)]
        have hrec := @ih (q + 1) d v2 st (by rwa [s12.disk]) hdi (by omega)
        rw [readSlots_same s12, dirSlots_drop] at hrec
        exact hrec

/-! ## One slot -/

/-- What the check makes of a slot outside of a set. -/
theorem checkSlot_outside (h : st.inLfn = false) : checkSlot s st =
    if s.first = 0 then .done
    else if s.first = lfnDeleted then .more st
    else if s.attr = attrLongName then
      if s.Last then .more ⟨true, (s.sequence &&& lfnSeqMask) - 1, s.checksum⟩ else .bad
    else if s.attr &&& attrVolumeId ≠ 0 then .more st
    else if s.attr &&& attrDirectory ≠ 0 ∧ s.fileSize ≠ 0 then .bad
    else .more st := by
  obtain ⟨inLfn, seq, sum⟩ := st
  obtain rfl : inLfn = false := h
  by_cases hl : s.sequence &&& lfnLast = 0
  · simp [checkSlot, Slot.Last, hl]
  · simp [checkSlot, Slot.Last, hl]

/-- What it makes of a slot inside of one. -/
theorem checkSlot_inside (h : st.inLfn = true) : checkSlot s st =
    if s.first = 0 ∨ s.first = lfnDeleted then .bad
    else if s.attr = attrLongName then
      if ¬ s.Last ∧ s.sequence &&& lfnSeqMask = st.seq ∧ s.checksum = st.sum then .more { st with seq := st.seq - 1 } else .bad
    else if s.attr &&& attrVolumeId ≠ 0 then .bad
    else if st.seq ≠ 0 ∨ checksum s.name ≠ st.sum ∨ s.attr &&& attrDirectory ≠ 0 ∧ s.fileSize ≠ 0 then .bad
    else .more { st with inLfn := false } := by
  obtain ⟨inLfn, seq, sum⟩ := st
  obtain rfl : inLfn = true := h
  by_cases h0 : s.first = 0
  · simp [checkSlot, h0]
  by_cases hd : s.first = lfnDeleted
  · simp [checkSlot, hd]
  by_cases ha : s.attr = attrLongName
  · by_cases hl : s.sequence &&& lfnLast = 0
    · by_cases hs : s.sequence &&& lfnSeqMask = seq
      · by_cases hc : s.checksum = sum
        · simp [checkSlot, Slot.Last, h0, hd, ha, hl, hs, hc]
        · simp [checkSlot, Slot.Last, h0, hd, ha, hl, hs, hc]
      · simp [checkSlot, Slot.Last, h0, hd, ha, hl, hs]
    · simp [checkSlot, Slot.Last, h0, hd, ha, hl]
  by_cases hv : s.attr &&& attrVolumeId = 0
  · by_cases hq : seq = 0
    · by_cases hc : checksum s.name = sum
      · simp [checkSlot, h0, hd, ha, hv, hq, hc]
      · simp [checkSlot, h0, hd, ha, hv, hq, hc]
    · simp [checkSlot, h0, hd, ha, hv, hq]
  · simp [checkSlot, h0, hd, ha, hv]

/-! ## A set of long name entries -/

/-- The entry of a directory has no size. -/
def Slot.DirUnsized (s : Slot) : Prop := s.attr &&& attrDirectory ≠ 0 → s.fileSize = 0

instance (s : Slot) : Decidable s.DirUnsized := inferInstanceAs (Decidable (_ → _))

theorem Slot.IsEntry.not_lfn (h : e.IsEntry) : e.attr ≠ attrLongName := fun ha => by
  have hlabel := h.2.2
  rw [ha] at hlabel
  exact absurd hlabel (by decide)

/-- The entries of a set after the first are counted down. -/
theorem checkSlots_numbered : ∀ {T : List Slot} {st : Check}, st.inLfn = true → Numbered st.seq.toNat T →
    (∀ s ∈ T, ¬ s.Last) → (∀ s ∈ T, s.checksum = st.sum) → checkSlots (T ++ l) st = checkSlots l ⟨true, 0, st.sum⟩ := by
  intro T
  induction T with
  | nil =>
    intro st hin hnum _ _
    obtain ⟨inLfn, seq, sum⟩ := st
    obtain rfl : inLfn = true := hin
    have hseq : seq = 0 := UInt8.toNat_inj.mp (Nat.eq_zero_of_not_pos fun hpos => by
      obtain ⟨n, hn⟩ := Nat.exists_eq_add_of_lt hpos
      rw [show (Check.mk true seq sum).seq.toNat = n + 1 by simpa using hn] at hnum
      exact hnum)
    rw [hseq]
    rfl
  | cons s T ih =>
    intro st hin hnum hlast hsum
    cases hn : st.seq.toNat with
    | zero =>
      rw [hn] at hnum
      cases hnum
    | succ n =>
      rw [hn] at hnum
      obtain ⟨hs, hseq, hT⟩ := hnum
      have hseq' : s.sequence &&& lfnSeqMask = st.seq := UInt8.toNat_inj.mp (hseq.trans hn.symm)
      have hpred : (st.seq - 1).toNat = n := by
        rw [UInt8.toNat_sub_of_le _ _ (UInt8.le_iff_toNat_le.mpr (by rw [hn]; exact Nat.le_add_left 1 n)), hn]
        rfl
      rw [List.cons_append, checkSlots, checkSlot_inside hin, if_neg (not_or.mpr ⟨Slot.first_ne_zero (by omega), hs.1⟩),
        if_pos hs.2, if_pos ⟨hlast s List.mem_cons_self, hseq', hsum s List.mem_cons_self⟩]
      exact @ih { st with seq := st.seq - 1 } hin (by rw [hpred]; exact hT) (fun x hx => hlast x (List.mem_cons_of_mem _ hx))
        fun x hx => hsum x (List.mem_cons_of_mem _ hx)

/-- A complete set is accepted. -/
theorem checkSlots_set (h : CompleteSet S e) (hst : st.inLfn = false) :
    checkSlots (S ++ l) st = checkSlots l ⟨true, 0, checksum e.name⟩ := by
  obtain ⟨hnum, hne, hfirst, hothers, hsum⟩ := h
  cases S with
  | nil => exact absurd rfl hne
  | cons s T =>
    obtain ⟨hs, hseq, hT⟩ := hnum
    have hpred : ((s.sequence &&& lfnSeqMask) - 1).toNat = T.length := by
      rw [UInt8.toNat_sub_of_le _ _ (UInt8.le_iff_toNat_le.mpr (by rw [show (s.sequence &&& lfnSeqMask).toNat = _ from hseq]; exact Nat.le_add_left 1 _))]
      rw [show (s.sequence &&& lfnSeqMask).toNat = _ from hseq]
      rfl
    rw [List.cons_append, checkSlots, checkSlot_outside hst, if_neg (Slot.first_ne_zero (by omega)), if_neg hs.1, if_pos hs.2,
      if_pos (hfirst s rfl)]
    rw [← hsum s List.mem_cons_self]
    exact checkSlots_numbered rfl (by rw [hpred]; exact hT) hothers fun x hx => by
      rw [hsum x (List.mem_cons_of_mem _ hx), ← hsum s List.mem_cons_self]

/-- An entry is accepted, outside of a set and after its own. -/
theorem checkSlots_entry (he : e.IsEntry) (hsize : e.DirUnsized) (hst : st.inLfn = true → st.seq = 0 ∧ checksum e.name = st.sum) :
    checkSlots (e :: l) st = checkSlots l { st with inLfn := false } := by
  have hdir : ¬ (e.attr &&& attrDirectory ≠ 0 ∧ e.fileSize ≠ 0) := fun h => h.2 (hsize h.1)
  obtain ⟨inLfn, seq, sum⟩ := st
  cases inLfn with
  | false =>
    rw [checkSlots, checkSlot_outside rfl, if_neg he.1, if_neg he.2.1, if_neg he.not_lfn, if_neg (not_not.mpr he.2.2), if_neg hdir]
  | true =>
    obtain ⟨hseq, hsum⟩ := hst rfl
    rw [checkSlots, checkSlot_inside rfl, if_neg (not_or.mpr ⟨he.1, he.2.1⟩), if_neg he.not_lfn, if_neg (not_not.mpr he.2.2), if_neg]
    exact fun h => h.elim (fun h => h hseq) fun h => h.elim (fun h => h hsum) hdir

/-- A tidy directory is accepted if its directories have no size. -/
theorem checkSlots_tidy (h : Tidy i D es) : ∀ {st : Check}, st.inLfn = false → (∀ x ∈ es, x.dentry.DirUnsized) →
    (checkSlots D st).result = .ok () := by
  induction h with
  | nil =>
    intro st hst _
    show (if st.inLfn = true then _ else _) = _
    rw [hst]
    rfl
  | stop h0 =>
    intro st hst _
    rw [checkSlots, checkSlot_outside hst, if_pos h0]
    rfl
  | @pass i s l es hs hl _ ih =>
    intro st hst hdir
    rw [checkSlots, checkSlot_outside hst, if_neg hs.1]
    by_cases hdel : s.first = lfnDeleted
    · rw [if_pos hdel]
      exact ih hst hdir
    · have hattr := fun ha => hl ⟨hdel, ha⟩
      rw [if_neg hdel, if_neg hattr, if_pos ((hs.2.resolve_left hdel).resolve_left hattr)]
      exact ih hst hdir
  | entry hS he _ ih =>
    intro st hst hdir
    have hunsized := hdir _ List.mem_cons_self
    have hrest := fun x hx => hdir x (List.mem_cons_of_mem _ hx)
    rcases hS with rfl | hS
    · rw [List.nil_append, checkSlots_entry he hunsized fun h => absurd (h.symm.trans hst) (by decide)]
      exact ih rfl hrest
    · rw [checkSlots_set hS hst, checkSlots_entry he hunsized fun _ => ⟨rfl, rfl⟩]
      exact ih rfl hrest

/-! ## What is accepted -/

/-- The slots `D`, the first of which has the index `i`, are a list of entries, no directory's of which has a size. -/
def Orderly (i : Nat) (D : List Slot) : Prop := ∃ es, Tidy i D es ∧ ∀ x ∈ es, x.dentry.DirUnsized

/-- They are the rest of a set, an entry for it and other entries. -/
structure Rest (i : Nat) (D : List Slot) (st : Check) (T : List Slot) (e : Slot) (l : List Slot) : Prop where
  split : D = T ++ e :: l
  numbered : Numbered st.seq.toNat T
  others : ∀ s ∈ T, ¬ s.Last
  sums : ∀ s ∈ T, s.checksum = st.sum
  sum : checksum e.name = st.sum
  entry : e.IsEntry
  unsized : e.DirUnsized
  orderly : Orderly (i + T.length + 1) l

/-- What the slots from one on are if they are accepted. -/
structure Accepted (i : Nat) (D : List Slot) (st : Check) : Prop where
  outside : st.inLfn = false → Orderly i D
  inside : st.inLfn = true → ∃ T e l, Rest i D st T e l

/-- No set has 255 entries. -/
theorem Numbered.lt (h : Numbered n T) : n < 32 := by
  cases n with
  | zero => decide
  | succ n =>
    cases T with
    | nil => exact h.elim
    | cons s T =>
      rw [← h.2.1]
      exact s.seqNum_lt

/-- What is counted down is the number of the next entry. -/
theorem Numbered.cons {q : UInt8} (hs : s.IsLfn) (hseq : s.sequence &&& lfnSeqMask = q) (h : Numbered (q - 1).toNat T) :
    Numbered q.toNat (s :: T) := by
  have hlt := h.lt
  have hpos : 1 ≤ q.toNat := by
    apply Nat.pos_of_ne_zero
    intro h0
    obtain rfl : q = 0 := UInt8.toNat_inj.mp h0
    exact absurd hlt (by decide)
  have hpred : (q - 1).toNat = q.toNat - 1 := UInt8.toNat_sub_of_le _ _ (UInt8.le_iff_toNat_le.mpr hpos)
  have hnum : s.seqNum = q.toNat := congrArg UInt8.toNat hseq
  rw [hpred] at h
  rw [show q.toNat = q.toNat - 1 + 1 by omega] at hnum ⊢
  exact ⟨hs, hnum, h⟩

theorem Orderly.entry (hS : S = [] ∨ CompleteSet S e) (he : e.IsEntry) (hsize : e.DirUnsized) (h : Orderly (i + S.length + 1) l) :
    Orderly i (S ++ e :: l) := by
  obtain ⟨es, htidy, hdirs⟩ := h
  refine ⟨⟨i + S.length, S, e⟩ :: es, .entry hS he htidy, fun x hx => ?_⟩
  rcases List.mem_cons.mp hx with rfl | hx
  · exact hsize
  · exact hdirs x hx

theorem Orderly.pass (hs : s.Skipped) (hl : ¬ s.IsLfn) (h : Orderly (i + 1) l) : Orderly i (s :: l) := by
  obtain ⟨es, htidy, hdirs⟩ := h
  exact ⟨es, .pass hs hl htidy, hdirs⟩

/-- In front of the rest of a set is its next entry. -/
theorem Rest.cons (hs : s.IsLfn) (hlast : ¬ s.Last) (hseq : s.sequence &&& lfnSeqMask = st.seq) (hsum : s.checksum = st.sum)
    (h : Rest (i + 1) D { st with seq := st.seq - 1 } T e l) : Rest i (s :: D) st (s :: T) e l where
  split := by
    rw [h.split]
    rfl
  numbered := .cons hs hseq h.numbered
  others := List.forall_mem_cons.mpr ⟨hlast, h.others⟩
  sums := List.forall_mem_cons.mpr ⟨hsum, h.sums⟩
  sum := h.sum
  entry := h.entry
  unsized := h.unsized
  orderly := by
    have horderly := h.orderly
    rwa [show i + 1 + T.length + 1 = i + (s :: T).length + 1 by rw [List.length_cons]; omega] at horderly

/-- Or its first, and then it is complete. -/
theorem Rest.first {b : Bool} (hs : s.IsLfn) (hlast : s.Last)
    (h : Rest (i + 1) D ⟨b, (s.sequence &&& lfnSeqMask) - 1, s.checksum⟩ T e l) : Orderly i (s :: D) := by
  have hnum : Numbered _ (s :: T) := .cons hs rfl h.numbered
  have hset : CompleteSet (s :: T) e := by
    refine ⟨?_, List.cons_ne_nil _ _, ?_, h.others, ?_⟩
    · rwa [← hnum.length] at hnum
    · intro x hx
      cases hx
      exact hlast
    · rw [h.sum]
      exact List.forall_mem_cons.mpr ⟨rfl, h.sums⟩
  have horderly := h.orderly
  rw [show i + 1 + T.length + 1 = i + (s :: T).length + 1 by rw [List.length_cons]; omega] at horderly
  rw [h.split]
  exact .entry (.inr hset) h.entry h.unsized horderly

/-- What one slot in front makes of it, outside of a set. -/
theorem Accepted.step_outside {st' : Check} (hin : st.inLfn = false) (hs : checkSlot s st = .more st') (h : Accepted (i + 1) D st') :
    Orderly i (s :: D) := by
  rw [checkSlot_outside hin] at hs
  by_cases h0 : s.first = 0
  · rw [if_pos h0] at hs
    cases hs
  rw [if_neg h0] at hs
  by_cases hd : s.first = lfnDeleted
  · rw [if_pos hd] at hs
    cases hs
    exact (h.outside hin).pass ⟨h0, .inl hd⟩ fun hl => hl.1 hd
  rw [if_neg hd] at hs
  by_cases ha : s.attr = attrLongName
  · rw [if_pos ha] at hs
    by_cases hlast : s.Last
    · rw [if_pos hlast] at hs
      cases hs
      obtain ⟨T, e, l, hrest⟩ := h.inside rfl
      exact hrest.first ⟨hd, ha⟩ hlast
    · rw [if_neg hlast] at hs
      cases hs
  rw [if_neg ha] at hs
  by_cases hv : s.attr &&& attrVolumeId = 0
  · rw [if_neg (not_not.mpr hv)] at hs
    by_cases hdir : s.attr &&& attrDirectory ≠ 0 ∧ s.fileSize ≠ 0
    · rw [if_pos hdir] at hs
      cases hs
    · rw [if_neg hdir] at hs
      cases hs
      exact .entry (.inl rfl) ⟨h0, hd, hv⟩ (fun ha => not_not.mp fun hsize => hdir ⟨ha, hsize⟩) (h.outside hin)
  · rw [if_pos hv] at hs
    cases hs
    exact (h.outside hin).pass ⟨h0, .inr (.inr hv)⟩ fun hl => ha hl.2

/-- And inside of one. -/
theorem Accepted.step_inside {st' : Check} (hin : st.inLfn = true) (hs : checkSlot s st = .more st') (h : Accepted (i + 1) D st') :
    ∃ T e l, Rest i (s :: D) st T e l := by
  rw [checkSlot_inside hin] at hs
  by_cases h0 : s.first = 0 ∨ s.first = lfnDeleted
  · rw [if_pos h0] at hs
    cases hs
  rw [if_neg h0] at hs
  obtain ⟨h0, hd⟩ := not_or.mp h0
  by_cases ha : s.attr = attrLongName
  · rw [if_pos ha] at hs
    by_cases hnext : ¬ s.Last ∧ s.sequence &&& lfnSeqMask = st.seq ∧ s.checksum = st.sum
    · rw [if_pos hnext] at hs
      cases hs
      obtain ⟨T, e, l, hrest⟩ := h.inside hin
      exact ⟨s :: T, e, l, hrest.cons ⟨hd, ha⟩ hnext.1 hnext.2.1 hnext.2.2⟩
    · rw [if_neg hnext] at hs
      cases hs
  rw [if_neg ha] at hs
  by_cases hv : s.attr &&& attrVolumeId = 0
  · rw [if_neg (not_not.mpr hv)] at hs
    by_cases hbad : st.seq ≠ 0 ∨ checksum s.name ≠ st.sum ∨ s.attr &&& attrDirectory ≠ 0 ∧ s.fileSize ≠ 0
    · rw [if_pos hbad] at hs
      cases hs
    · rw [if_neg hbad] at hs
      cases hs
      obtain ⟨hseq, hbad⟩ := not_or.mp hbad
      obtain ⟨hsum, hdir⟩ := not_or.mp hbad
      refine ⟨[], s, D, rfl, ?_, fun x hx => absurd hx List.not_mem_nil, fun x hx => absurd hx List.not_mem_nil,
        not_not.mp hsum, ⟨h0, hd, hv⟩, fun ha => not_not.mp fun hsize => hdir ⟨ha, hsize⟩, h.outside rfl⟩
      rw [not_not.mp hseq]
      rfl
  · rw [if_pos hv] at hs
    cases hs

/-- The check ends early only outside of a set. -/
theorem checkSlot_done (h : checkSlot s st = .done) : st.inLfn = false ∧ s.first = 0 := by
  by_cases hin : st.inLfn = true
  · rw [checkSlot_inside hin] at h
    split_ifs at h
  · have hin' : st.inLfn = false := Bool.eq_false_of_not_eq_true hin
    rw [checkSlot_outside hin'] at h
    split_ifs at h with h0
    exact ⟨hin', h0⟩

theorem accepted (D : List Slot) : ∀ {i : Nat} {st : Check}, (checkSlots D st).result = .ok () → Accepted i D st := by
  induction D with
  | nil =>
    intro i st h
    refine ⟨fun _ => ⟨[], .nil, fun x hx => absurd hx List.not_mem_nil⟩, fun hin => ?_⟩
    rw [checkSlots, CheckStep.result, if_pos hin] at h
    exact absurd h Out.err_ne_ok
  | cons s D ih =>
    intro i st h
    rw [checkSlots] at h
    cases hs : checkSlot s st with
    | bad =>
      rw [hs] at h
      exact absurd h Out.err_ne_ok
    | done =>
      obtain ⟨hin, h0⟩ := checkSlot_done hs
      exact ⟨fun _ => ⟨[], .stop h0, fun x hx => absurd hx List.not_mem_nil⟩, fun ht => absurd (ht.symm.trans hin) (by decide)⟩
    | more st' =>
      rw [hs] at h
      have hrest := ih (i := i + 1) h
      exact ⟨fun hin => hrest.step_outside hin hs, fun hin => hrest.step_inside hin hs⟩

/-- A list of slots is accepted if and only if it is a list of entries, no directory's of which has a size. -/
theorem checkSlots_iff : (checkSlots D {}).result = .ok () ↔ Orderly 0 D :=
  ⟨fun h => (accepted D h).outside rfl, fun ⟨_, h, hdirs⟩ => checkSlots_tidy h rfl hdirs⟩

/-- The walk over a directory with a first cluster sees its slots. -/
theorem checkDir_slots {t : VnSt} (hk : Reliable fsi.kernel) (hg : Geometry fsi) (hfuel : cs.length ≤ fsi.kernel.fuel)
    (h : IsDir fsi cs t) (h0 : t.fv.cluster ≠ 0) :
    (checkDirIntegrity fsi t.fv t.vol).1 = .ok () ↔ Orderly 0 (readSlots fsi cs t.vol) := by
  have hc : cs[0]? = some t.fv.cluster := by
    obtain ⟨m, hm⟩ := h.path.head_eq
    rw [hm]
    rfl
  have hrun : (checkLoop fsi fsi.kernel.fuel t.fv.cluster {} t.vol).1 = _ :=
    checkLoop_slots hk hg fsi.kernel.fuel h.path hc (by omega)
  rw [Nat.zero_mul, List.drop_zero] at hrun
  rw [checkDirIntegrity, if_neg (not_not.mpr h.type), if_neg h0, hrun, checkSlots_iff]

/-- `fat32_check_dir_integrity` accepts just the directories without a first cluster and those whose slots are a list of
entries, each long name in front of its own 8.3 entry, with no size in the entry of a directory. -/
theorem checkDir_iff {t : VnSt} (hk : Reliable fsi.kernel) (hg : Geometry fsi) (hfuel : cs.length ≤ fsi.kernel.fuel)
    (h : IsDir fsi cs t) : (checkDirIntegrity fsi t.fv t.vol).1 = .ok () ↔
      t.fv.cluster = 0 ∨ Orderly 0 (readSlots fsi cs t.vol) := by
  by_cases h0 : t.fv.cluster = 0
  · rw [checkDirIntegrity, if_neg (not_not.mpr h.type), if_pos h0]
    exact iff_of_true rfl (.inl h0)
  · rw [checkDir_slots hk hg hfuel h h0, or_iff_right h0]

/-- A file in a directory with no other entry. -/
theorem oneFile_orderly : Orderly 0 (readSlots (small 2) [2] (smallDir [shortEntry 65 0 0 0]).vol) :=
  ((checkDir_iff ⟨fun _ => rfl⟩ small_geometry (by decide) (smallDir_isDir [shortEntry 65 0 0 0])).mp
    (by decide +kernel)).resolve_left (by decide)

end Fat32
