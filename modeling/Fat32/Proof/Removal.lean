import Mathlib
import Fat32.Proof.Flush
import Fat32.Proof.Identity
import Fat32.Proof.SlotBounds

/-!
# Removing a name

`fat32_get_dirent` records the slots of the entry it returns, from the last long name entry with the mark
`0x40` on, and `fat32_remove_common` marks these as deleted. They are the slots of this entry alone only
if the long name entries in front of it say where they begin (`Delimited`): without the mark the record
begins with the directory, and slots that were deleted since count as its own.
-/

namespace Fat32

open Bytes Exec Prog Linked

variable {fsi : Fsi} {cs : List Nat} {D P : List Slot} {s e : Slot} {st st' : Scan} {v : Vol} {a k : Nat}

/-! ## What the scan records -/

/-- The long name entries directly in front of what comes behind the slots. -/
def lfnRun (P : List Slot) : List Slot := P.rtakeWhile fun s => s.IsLfn

/-- The slots `P` tell where the long name of an entry behind them begins: the long name entries in front
of it have the mark, or there is none since the last entry or volume label, or there is nothing else. -/
def Delimited (P : List Slot) : Prop :=
  (∃ s ∈ lfnRun P, s.Last) ∨ (∀ s ∈ afterLabel P, ¬ s.IsLfn) ∨ ∀ s ∈ P, s.IsLfn

instance (P : List Slot) : Decidable (Delimited P) := inferInstanceAs (Decidable (_ ∨ _))

/-- Slot `a` is the last marked one since the last entry or label; it is slot 0 if none is marked. -/
def Begins (P : List Slot) (a : Nat) : Prop :=
  (∃ A m B, P = A ++ m :: B ∧ A.length = a ∧ m.IsLfn ∧ m.Last ∧ ∀ s ∈ B, ¬ s.IsLabel ∧ ¬ (s.IsLfn ∧ s.Last)) ∨
    a = 0 ∧ ∀ s ∈ afterLabel P, ¬ (s.IsLfn ∧ s.Last)

theorem afterLabel_label (h : s.IsLabel) : afterLabel (P ++ [s]) = [] :=
  List.rtakeWhile_concat_neg _ _ _ (by simpa using h)

theorem afterLabel_other (h : ¬ s.IsLabel) : afterLabel (P ++ [s]) = afterLabel P ++ [s] :=
  List.rtakeWhile_concat_pos _ _ _ (by simpa using h)

theorem Begins.label (h : s.IsLabel) : Begins (P ++ [s]) 0 := by
  refine .inr ⟨rfl, fun x hx => ?_⟩
  rw [afterLabel_label h] at hx
  cases hx

theorem Begins.mark (h : s.IsLfn) (hm : s.Last) : Begins (P ++ [s]) P.length :=
  .inl ⟨P, s, [], rfl, rfl, h, hm, fun _ hx => absurd hx List.not_mem_nil⟩

/-- A slot that neither begins a name nor ends the long name entries. -/
theorem Begins.pass (h : Begins P a) (hl : ¬ s.IsLabel) (hm : ¬ (s.IsLfn ∧ s.Last)) : Begins (P ++ [s]) a := by
  rcases h with ⟨A, m, B, rfl, rfl, hlfn, hlast, hB⟩ | ⟨rfl, h⟩
  · refine .inl ⟨A, m, B ++ [s], by simp, rfl, hlfn, hlast, fun x hx => ?_⟩
    rcases List.mem_append.mp hx with hx | hx
    · exact hB x hx
    · obtain rfl := List.mem_singleton.mp hx
      exact ⟨hl, hm⟩
  · refine .inr ⟨rfl, fun x hx => ?_⟩
    rw [afterLabel_other hl] at hx
    rcases List.mem_append.mp hx with hx | hx
    · exact h x hx
    · obtain rfl := List.mem_singleton.mp hx
      exact hm

/-- The first slot of the record of an entry behind the slots `P`. -/
def Records (P : List Slot) (a : Nat) : Prop :=
  (∀ s ∈ afterLabel P, ¬ s.IsLfn) ∧ a = P.length ∨ (∃ s ∈ afterLabel P, s.IsLfn) ∧ Begins P a

theorem Records.le (h : Records P a) : a ≤ P.length := by
  rcases h with ⟨-, rfl⟩ | ⟨-, ⟨A, m, B, rfl, rfl, -⟩ | ⟨rfl, -⟩⟩
  · exact le_rfl
  · rw [List.length_append]
    exact Nat.le_add_right _ _
  · exact Nat.zero_le _

theorem lfnRun_suffix (P : List Slot) : lfnRun P <:+ P := List.rtakeWhile_suffix _ _

theorem lfnRun_isLfn (h : s ∈ lfnRun P) : s.IsLfn := by
  have := List.mem_rtakeWhile_imp h
  simpa using this

theorem lfnRun_all (A : List Slot) {B : List Slot} (h : ∀ s ∈ B, s.IsLfn) : lfnRun (A ++ B) = lfnRun A ++ B := by
  induction B generalizing A with
  | nil => simp
  | cons x B ih =>
    have hx : x.IsLfn := h x List.mem_cons_self
    rw [List.append_cons A x B, ih _ fun s hs => h s (List.mem_cons_of_mem _ hs), lfnRun,
      List.rtakeWhile_concat_pos _ _ _ (by simpa using hx)]
    simp [lfnRun]

theorem lfnRun_afterLabel : ∀ s ∈ lfnRun P, s ∈ afterLabel P := by
  induction P using List.reverseRecOn with
  | nil => simp [lfnRun]
  | append_singleton P x ih =>
    intro s hs
    by_cases hx : x.IsLfn
    · have hl : ¬ x.IsLabel := fun h => h.2 hx.2
      rw [afterLabel_other hl]
      rw [lfnRun, List.rtakeWhile_concat_pos _ _ _ (by simpa using hx)] at hs
      rcases List.mem_append.mp hs with hs | hs
      · exact List.mem_append_left _ (ih s hs)
      · exact List.mem_append_right _ hs
    · rw [lfnRun, List.rtakeWhile_concat_neg _ _ _ (by simpa using hx)] at hs
      cases hs

/-- The record has only long name entries in front of the 8.3 entry just if the slots delimit it. -/
theorem Records.isLfn_iff (h : Records P a) : (∀ s ∈ P.drop a, s.IsLfn) ↔ Delimited P := by
  rcases h with ⟨hno, rfl⟩ | ⟨⟨x, hx, hxl⟩, ⟨A, m, B, rfl, rfl, hlfn, hlast, hB⟩ | ⟨rfl, hno⟩⟩
  · rw [List.drop_length]
    exact iff_of_true (fun _ hs => absurd hs List.not_mem_nil) (.inr (.inl hno))
  · rw [List.drop_left]
    constructor
    · intro hall
      refine .inl ⟨m, ?_, hlast⟩
      rw [lfnRun_all A hall]
      exact List.mem_append_right _ List.mem_cons_self
    · rintro (⟨s, hs, hmark⟩ | hnone | hall)
      · -- a marked entry of the run is not behind the last marked one
        have hsuf : B <:+ A ++ m :: B := ⟨A ++ [m], by simp⟩
        rcases List.suffix_or_suffix_of_suffix (lfnRun_suffix _) hsuf with hin | hin
        · exact absurd ⟨lfnRun_isLfn hs, hmark⟩ (hB s (hin.subset hs)).2
        · intro y hy
          rcases List.mem_cons.mp hy with rfl | hy
          · exact hlfn
          · exact lfnRun_isLfn (hin.subset hy)
      · exact absurd hxl (hnone x hx)
      · exact fun y hy => hall y (List.mem_append_right _ hy)
  · rw [List.drop_zero]
    refine ⟨fun hall => .inr (.inr hall), ?_⟩
    rintro (⟨s, hs, hmark⟩ | hnone | hall)
    · exact absurd ⟨lfnRun_isLfn hs, hmark⟩ (hno s (lfnRun_afterLabel s hs))
    · exact absurd hxl (hnone x hx)
    · exact hall

/-! ## The scan -/

/-- The scan has come past the slots `P`. -/
structure Scanning (P : List Slot) (st : Scan) : Prop where
  offset : st.offset = 32 * P.length
  lfn : st.hasLfn = true ↔ ∃ s ∈ afterLabel P, s.IsLfn
  start : ∃ a, st.entryStart = 32 * a ∧ Begins P a

theorem Scanning.skip (h : Scanning P st) (hlt : 32 * (P.length + 1) < 2 ^ 32)
    (hs : scanSlot dNameSize s st = .skip st') : Scanning (P ++ [s]) st' := by
  obtain ⟨a, ha, hb⟩ := h.start
  have hoff : st'.offset = 32 * (P ++ [s]).length := by
    rw [scanSlot_offset.1 hs, h.offset, u32_slot hlt, List.length_append, List.length_singleton]
  have hs0 : s.first ≠ 0 := fun h0 => by
    rw [scanSlot, if_pos h0] at hs
    cases hs
  by_cases hd : s.first = lfnDeleted
  · -- a deleted slot changes nothing
    rw [scanSlot, if_neg hs0, if_pos hd] at hs
    cases hs
    have hl : ¬ s.IsLabel := fun hl => hl.1 hd
    have hn : ¬ s.IsLfn := fun hn => hn.1 hd
    refine ⟨hoff, ?_, a, ha, hb.pass hl fun hm => hn hm.1⟩
    rw [afterLabel_other hl]
    refine h.lfn.trans ⟨?_, ?_⟩
    · rintro ⟨x, hx, hxl⟩
      exact ⟨x, List.mem_append_left _ hx, hxl⟩
    · rintro ⟨x, hx, hxl⟩
      rcases List.mem_append.mp hx with hx | hx
      · exact ⟨x, hx, hxl⟩
      · obtain rfl := List.mem_singleton.mp hx
        exact absurd hxl hn
  by_cases hlfn : s.IsLfn
  · obtain ⟨st1, hskip, -, hhas, hstart⟩ := scanSlot_lfn hlfn hs0 st
    rw [hskip] at hs
    cases hs
    have hl : ¬ s.IsLabel := fun hl => hl.2 hlfn.2
    refine ⟨hoff, iff_of_true hhas ⟨s, ?_, hlfn⟩, ?_⟩
    · rw [afterLabel_other hl]
      exact List.mem_append_right _ (List.mem_singleton_self s)
    · rw [hstart]
      by_cases hm : s.Last
      · exact ⟨P.length, by rw [if_pos hm, h.offset], .mark hlfn hm⟩
      · exact ⟨a, by rw [if_neg hm, ha], hb.pass hl fun h => hm h.2⟩
  · have hname : s.attr ≠ attrLongName := fun hn => hlfn ⟨hd, hn⟩
    have hl : s.IsLabel := ⟨hd, hname⟩
    rw [scanSlot, if_neg hs0, if_neg hd, if_neg hname] at hs
    split at hs
    · cases hs
      refine ⟨hoff, iff_of_false Bool.false_ne_true ?_, 0, rfl, .label hl⟩
      rintro ⟨x, hx, -⟩
      rw [afterLabel_label hl] at hx
      cases hx
    · cases hs

theorem Scanning.entry (h : Scanning P st) (hs : scanSlot dNameSize s st = .entry st') :
    st'.offset = 32 * P.length ∧ ∃ a, st'.entryStart = 32 * a ∧ Records P a := by
  obtain ⟨a, ha, hb⟩ := h.start
  refine ⟨(scanSlot_offset.2 hs).trans h.offset, ?_⟩
  have hstart : st'.entryStart = if st.hasLfn then st.entryStart else st.offset := by
    unfold scanSlot at hs
    split at hs
    · cases hs
    split at hs
    · cases hs
    split at hs
    · cases hs
    split at hs
    · cases hs
    · cases hs
      rfl
  rw [hstart]
  by_cases hl : st.hasLfn = true
  · exact ⟨a, by rw [if_pos hl, ha], .inr ⟨h.lfn.mp hl, hb⟩⟩
  · refine ⟨P.length, by rw [if_neg hl, h.offset], .inl ⟨fun x hx hxl => hl (h.lfn.mpr ⟨x, hx, hxl⟩), rfl⟩⟩

theorem Scanning.restart (he : e.IsEntry) (ho : st.offset = 32 * P.length) (hlt : 32 * (P.length + 1) < 2 ^ 32) :
    Scanning (P ++ [e]) st.restart := by
  have hl : e.IsLabel := ⟨he.2.1, fun h => absurd (h ▸ he.2.2) (by decide)⟩
  refine ⟨?_, iff_of_false Bool.false_ne_true ?_, 0, rfl, .label hl⟩
  · rw [List.length_append, List.length_singleton]
    exact Scan.restart_offset ho hlt
  · rintro ⟨x, hx, -⟩
    rw [afterLabel_label hl] at hx
    cases hx

/-- The record of each entry. -/
theorem entries_record {x : Slot × Scan} (h : Scanning P st) (hlt : 32 * (P.length + D.length) < 2 ^ 32)
    (hx : x ∈ entries D st) : ∃ A B, D = A ++ x.1 :: B ∧ x.1.IsEntry ∧ (∀ y ∈ A, y.first ≠ 0) ∧
      x.2.offset = 32 * (P ++ A).length ∧ ∃ a, x.2.entryStart = 32 * a ∧ Records (P ++ A) a := by
  induction D generalizing P st with
  | nil => cases hx
  | cons s D ih =>
    rw [List.length_cons] at hlt
    -- the entries behind this slot
    have hrest {st' : Scan} (h' : Scanning (P ++ [s]) st') (hx : x ∈ entries D st') (h0 : s.first ≠ 0) :
        ∃ A B, s :: D = A ++ x.1 :: B ∧ x.1.IsEntry ∧ (∀ y ∈ A, y.first ≠ 0) ∧
          x.2.offset = 32 * (P ++ A).length ∧ ∃ a, x.2.entryStart = 32 * a ∧ Records (P ++ A) a := by
      have hlt' : 32 * ((P ++ [s]).length + D.length) < 2 ^ 32 := by
        rw [List.length_append, List.length_singleton]
        omega
      obtain ⟨A, B, hD, he, hA, ho, a, ha, hr⟩ := ih h' hlt' hx
      rw [List.append_assoc] at ho hr
      refine ⟨s :: A, B, by rw [hD, List.cons_append], he, fun y hy => ?_, ho, a, ha, hr⟩
      rcases List.mem_cons.mp hy with rfl | hy
      · exact h0
      · exact hA y hy
    rw [entries] at hx
    rcases scanSlot_cases dNameSize s st with ⟨-, hs⟩ | ⟨h0, -, st1, hs⟩ | ⟨he, st1, hs⟩
    · rw [hs] at hx
      cases hx
    · rw [hs] at hx
      exact hrest (h.skip (by omega) hs) hx h0
    · rw [hs] at hx
      obtain ⟨ho, a, ha, hr⟩ := h.entry hs
      rcases List.mem_cons.mp hx with rfl | hx
      · refine ⟨[], D, rfl, he, fun y hy => absurd hy List.not_mem_nil, ?_, a, ha, ?_⟩
        · rw [List.append_nil]
          exact ho
        · rwa [List.append_nil]
      · exact hrest (.restart he ho (by omega)) hx he.1

/-! ## Marking the slots -/

theorem Edited.after {l : List Slot} {v' v'' : Vol} (h : Edited fsi cs l v v') (hs : Same v' v'') :
    Edited fsi cs l v v'' :=
  ⟨by rw [hs.disk, h.fat], fun c hc => by rw [hs.disk, h.data c hc], by rw [volSlots_same hs, h.slots]⟩

/-- A link is followed with one read. -/
theorem nextCluster_once (hg : Geometry fsi) {c d : Nat} (hd : fatNext fsi (view fsi v.disk).fat c = some d) :
    ∃ v', Same v v' ∧ v'.reads = v.reads + 1 ∧ ((¬ Answers fsi v.reads 1 ∧ ∃ e, nextCluster fsi c {} v = (.err e, v')) ∨
      Answers fsi v.reads 1 ∧ nextCluster fsi c {} v = (.ok d, v')) := by
  have hc : InRange fsi c := (fatNext_some.mp hd).1
  have hc0 : c ≠ 0 := by
    have := hc.1
    omega
  obtain ⟨v1, hs, hn, ⟨e, he, h⟩ | ⟨ha, -⟩⟩ := rmwCluster_answer hg hc v
  · refine ⟨v1, hs, hn, .inl ⟨fun ha => ?_, e, ?_⟩⟩
    · rw [answers_one.mp ha] at he
      cases he
    · rw [nextCluster, if_neg hc0, if_neg (hc.not_outside hg), bind_err h]
  · obtain ⟨v2, h, hs2, hn2⟩ := nextCluster_answers hg {} v hd ha
    exact ⟨v2, hs2, hn2, .inr ⟨ha, h⟩⟩

/-- The buffer of a cluster of the directory. -/
theorem readCluster_once (hg : Geometry fsi) (hnd : cs.Nodup) {q c : Nat} (hq : cs[q]? = some c)
    (hc : InRange fsi c) (v : Vol) : ∃ v', Same v v' ∧ v'.reads = v.reads + 1 ∧
      ((¬ Answers fsi v.reads 1 ∧ ∃ e, readCluster fsi c v = (.err e, v')) ∨
        Answers fsi v.reads 1 ∧ ∃ f, readCluster fsi c v = (.ok (clusterBuf fsi c f), v') ∧
          dirSlots fsi (Function.update (view fsi v.disk).data c f) cs = volSlots fsi cs v) := by
  obtain ⟨v1, hs, hn, ⟨e, he, h⟩ | ⟨he, h⟩⟩ := readCluster_answer fsi c v
  · refine ⟨v1, hs, hn, .inl ⟨fun ha => ?_, e, h⟩⟩
    rw [answers_one.mp ha] at he
    cases he
  · refine ⟨v1, hs, hn, .inr ⟨answers_one.mpr he, fun o => v.disk (clusterAddr fsi c + o), ?_, ?_⟩⟩
    · unfold clusterBytes at h
      rw [h, clusterToSector_eq hg hc]
      rfl
    · have hf : clusterSlots fsi (fun o => v.disk (clusterAddr fsi c + o)) =
          clusterSlots fsi ((view fsi v.disk).data c) := clusterSlots_congr hg fun o ho => (view_data hc ho).symm
      rw [dirSlots_update _ hnd hq, hf, ← dirSlots_update _ hnd hq, Function.update_eq_self]

/-- How often marking `n` slots from slot `r` of a cluster on goes on to the next cluster. -/
def crossings (fsi : Fsi) (r n : Nat) : Nat := (r + n - 1) / slotsPer fsi

/-- What marking `n` slots from slot `r` of a cluster on does with the reads from number `m` to `m'`: `k` slots
are marked, all of them or those in front of a cluster that is not reached. -/
def Marks (fsi : Fsi) (r n m m' k : Nat) (res : Out Errno Unit) : Prop :=
  (res = .ok () ∧ k = n ∧ m' = m + 2 * crossings fsi r n ∧ Answers fsi m (2 * crossings fsi r n)) ∨
    (∃ e, res = .err e) ∧ k < n ∧ ∃ x, k + r = (x + 1) * slotsPer fsi ∧ Answers fsi m (2 * x) ∧
      m' ≤ m + 2 * (x + 1) ∧ ¬ Answers fsi m (m' - m)

theorem Marks.le {r n m m' : Nat} {res : Out Errno Unit} (h : Marks fsi r n m m' k res) : k ≤ n := by
  rcases h with ⟨-, h, -⟩ | ⟨-, h, -⟩ <;> omega

/-- One more slot of the cluster. -/
theorem Marks.succ {r n m m' : Nat} {res : Out Errno Unit} (h : Marks fsi (r + 1) n m m' k res) :
    Marks fsi r (n + 1) m m' (k + 1) res := by
  have hcross : crossings fsi r (n + 1) = crossings fsi (r + 1) n := by
    rw [crossings, crossings, show r + (n + 1) - 1 = r + 1 + n - 1 by omega]
  rcases h with ⟨hr, rfl, hm, ha⟩ | ⟨hr, hk, x, hx, ha, hm, hno⟩
  · exact .inl ⟨hr, rfl, by rw [hcross, hm], by rwa [hcross]⟩
  · exact .inr ⟨hr, by omega, x, by omega, ha, hm, hno⟩

/-- The first slot of the next cluster. -/
theorem Marks.next (hg : Geometry fsi) {n m m' : Nat} {res : Out Errno Unit} (ha : Answers fsi m 2)
    (h : Marks fsi 1 n (m + 2) m' k res) : Marks fsi (slotsPer fsi) (n + 1) m m' (k + 1) res := by
  have hper := slotsPer_pos hg
  have hcross : 2 * crossings fsi (slotsPer fsi) (n + 1) = 2 + 2 * crossings fsi 1 n := by
    rw [crossings, crossings, show slotsPer fsi + (n + 1) - 1 = n + slotsPer fsi by omega,
      Nat.add_div_right _ hper, show 1 + n - 1 = n by omega]
    omega
  rcases h with ⟨hr, rfl, hm, ha'⟩ | ⟨hr, hk, x, hx, ha', hm, hno⟩
  · refine .inl ⟨hr, rfl, by omega, ?_⟩
    rw [hcross]
    exact answers_add.mpr ⟨ha, ha'⟩
  · have hlt : m + 2 < m' := by
      by_contra hle
      refine hno ?_
      rw [Nat.sub_eq_zero_of_le (not_lt.mp hle)]
      exact .zero
    refine .inr ⟨hr, by omega, x + 1, ?_, ?_, by omega, fun hall => hno ?_⟩
    · rw [Nat.succ_mul]
      omega
    · rw [show 2 * (x + 1) = 2 + 2 * x by omega]
      exact answers_add.mpr ⟨ha, ha'⟩
    · rw [show m' - m = 2 + (m' - (m + 2)) by omega] at hall
      exact (answers_add.mp hall).2

/-- Marking stops in front of the next cluster. -/
theorem Marks.stop {n m m' : Nat} {e : Errno} (hle : m' ≤ m + 2) (hno : ¬ Answers fsi m (m' - m)) :
    Marks fsi (slotsPer fsi) (n + 1) m m' 0 (.err e) :=
  .inr ⟨⟨e, rfl⟩, Nat.succ_pos n, 0, by omega, .zero, hle, hno⟩

theorem deleteLoop_marks (hg : Geometry fsi) (hr : ∀ c ∈ cs, InRange fsi c) (n : Nat) :
    ∀ {q c r : Nat} {f : Nat → UInt8} {v : Vol}, Path fsi (view fsi v.disk).fat a cs →
      cs[q]? = some c → r ≤ slotsPer fsi → q * slotsPer fsi + r + n ≤ (volSlots fsi cs v).length →
      WP (deleteLoop fsi n c (clusterBuf fsi c f) (32 * r)) v fun res v' => ∃ k,
        Marks fsi r n v.reads v'.reads k res ∧ Edited fsi cs (deleteRange (q * slotsPer fsi + r) k
          (dirSlots fsi (Function.update (view fsi v.disk).data c f) cs)) v v' := by
  induction n with
  | zero =>
    intro q c r f v hl hq hle _
    obtain ⟨v', e, h⟩ := bdwrite_dir hg (hl.nodup (path_ends _)) hq (hr c (List.mem_of_getElem? hq)) f v
    have hreads : v'.reads = v.reads := by
      cases e
      rfl
    have hcross : crossings fsi r 0 = 0 := Nat.div_eq_of_lt (by have := slotsPer_pos hg; omega)
    refine .of_run e ⟨0, .inl ⟨rfl, rfl, ?_, ?_⟩, h⟩
    · rw [hcross, hreads]
      rfl
    · rw [hcross]
      exact .zero
  | succ n ih =>
    intro q c r f v hl hq hle hlen
    have hnd := hl.nodup (path_ends _)
    have hc := hr c (List.mem_of_getElem? hq)
    have hb := bpc_slots hg
    rw [deleteLoop]
    by_cases hlt : r < slotsPer fsi
    · have hpos : ¬ 32 * r ≥ fsi.bytesPerCluster := by omega
      rw [if_neg hpos]
      have hrec := ih (r := r + 1) (f := Function.update f (32 * r) lfnDeleted) hl hq (by omega) (by omega)
      rw [dirSlots_modify _ hnd hq hlt (clusterSlots_setFirst f r lfnDeleted)] at hrec
      refine .ok_bind rfl (hrec.mono fun res v' h => ?_)
      obtain ⟨k, hm, he⟩ := h
      exact ⟨k + 1, hm.succ, he⟩
    · -- the range goes on in the next cluster
      obtain rfl : r = slotsPer fsi := by omega
      have hpos : 32 * slotsPer fsi ≥ fsi.bytesPerCluster := by omega
      rw [if_pos hpos]
      obtain ⟨v1, e1, h1⟩ := bdwrite_dir hg hnd hq hc f v
      have hn1 : v1.reads = v.reads := by
        cases e1
        rfl
      have hnext : q + 1 < cs.length := by
        obtain ⟨hqlt, -⟩ := List.getElem?_eq_some_iff.mp hq
        rw [length_dirSlots] at hlen
        by_contra hle
        have hmul := Nat.mul_le_mul_right (slotsPer fsi) (not_lt.mp hle)
        rw [Nat.succ_mul] at hmul
        omega
      rcases hl.step hq with ⟨-, hlast⟩ | ⟨d, hd, hdq⟩
      · omega
      obtain ⟨v2, s2, hn2, ⟨hno, e, e2⟩ | ⟨ha2, e2⟩⟩ := nextCluster_once (v := v1) hg (by rwa [h1.fat])
      · refine .err_bind (show _ = (Out.err e, v2) from ?_) ⟨0, .stop (by omega) ?_, h1.after s2⟩
        · rw [bind_ok e1, bind_err e2]
        · rw [hn2, hn1, Nat.add_sub_cancel_left]
          rwa [hn1] at hno
      have hdr := hr d (List.mem_of_getElem? hdq)
      obtain ⟨v3, s3, hn3, ⟨hno, e, e3⟩ | ⟨ha3, g, e3, hgs⟩⟩ := readCluster_once hg hnd hdq hdr v2
      · refine .err_bind (show _ = (Out.err e, v3) from ?_) ⟨0, .stop (by omega) ?_, h1.after (s2.trans s3)⟩
        · rw [bind_ok e1, bind_ok e2, bind_err e3]
        · rw [show v3.reads - v.reads = 1 + 1 by omega, answers_add, show v.reads + 1 = v2.reads by omega]
          exact fun hall => hno hall.2
      have s23 := s2.trans s3
      have hper := slotsPer_pos hg
      rw [length_dirSlots] at hlen
      have hrec := ih (q := q + 1) (c := d) (r := 1) (f := Function.update g (32 * 0) lfnDeleted) (v := v3)
        (by rw [s23.disk, h1.fat]; exact hl) hdq (by omega) (by rw [length_dirSlots, Nat.succ_mul]; omega)
      rw [dirSlots_modify _ hnd hdq hper (clusterSlots_setFirst g 0 lfnDeleted), s3.disk, hgs,
        volSlots_same s2, h1.slots, show v3.reads = v.reads + 2 by omega,
        show (q + 1) * slotsPer fsi + 0 = q * slotsPer fsi + slotsPer fsi from Nat.succ_mul _ _,
        show (q + 1) * slotsPer fsi = q * slotsPer fsi + slotsPer fsi from Nat.succ_mul _ _] at hrec
      have hstep : (do
          bdwrite (clusterBuf fsi c f)
          let next ← nextCluster fsi c {}
          let bp ← readCluster fsi next
          pure (next, bp, 0)) v = (.ok (d, clusterBuf fsi d g, 0), v3) := by
        rw [bind_ok e1, bind_ok e2, bind_ok e3]
        rfl
      refine .ok_bind hstep (hrec.mono fun res v' h => ?_)
      obtain ⟨k, hm, he⟩ := h
      refine ⟨k + 1, .next hg ?_ hm, (h1.after s23).trans he⟩
      rw [show 2 = 1 + 1 from rfl, answers_add]
      refine ⟨by rwa [hn1] at ha2, ?_⟩
      rwa [show v.reads + 1 = v2.reads by omega]

/-- Links are followed with one read each. -/
theorem seekLoop_once (hg : Geometry fsi) (n : Nat) : ∀ {c d : Nat} {v : Vol},
    walk (fatNext fsi (view fsi v.disk).fat) n c = some d → ∃ v', Same v v' ∧ v.reads ≤ v'.reads ∧
      ((v'.reads ≤ v.reads + n ∧ ¬ Answers fsi v.reads (v'.reads - v.reads) ∧
          ∃ e, seekLoop fsi {} n c v = (.err e, v')) ∨
        v'.reads = v.reads + n ∧ Answers fsi v.reads n ∧ seekLoop fsi {} n c v = (.ok d, v')) := by
  induction n with
  | zero =>
    intro c d v hw
    obtain rfl : c = d := Option.some.inj hw
    exact ⟨v, .refl v, le_rfl, .inr ⟨rfl, .zero, rfl⟩⟩
  | succ n ih =>
    intro c d v hw
    rw [walk] at hw
    obtain ⟨x, hx, hw⟩ := Option.bind_eq_some_iff.mp hw
    obtain ⟨v1, s1, hn1, ⟨hno, e, h1⟩ | ⟨ha, h1⟩⟩ := nextCluster_once hg hx
    · refine ⟨v1, s1, by omega, .inl ⟨by omega, ?_, e, by rw [seekLoop, bind_err h1]⟩⟩
      rwa [hn1, Nat.add_sub_cancel_left]
    · obtain ⟨v2, s2, hle, ⟨hn2, hno, e, h2⟩ | ⟨hn2, ha2, h2⟩⟩ := ih (v := v1) (by rwa [s1.disk])
      · refine ⟨v2, s1.trans s2, by omega, .inl ⟨by omega, fun hall => hno ?_, e, by rw [seekLoop, bind_ok h1, h2]⟩⟩
        rw [show v2.reads - v.reads = 1 + (v2.reads - v1.reads) by omega, answers_add, ← hn1] at hall
        exact hall.2
      · refine ⟨v2, s1.trans s2, by omega, .inr ⟨by omega, ?_, by rw [seekLoop, bind_ok h1, h2]⟩⟩
        rw [Nat.add_comm, answers_add, ← hn1]
        exact ⟨ha, ha2⟩

/-- What marking the `n` slots from slot `i` of a directory on does with the reads from number `m` to `m'`: the
cluster of slot `i` is not reached, or the marking begins there. -/
def MarksFrom (fsi : Fsi) (i n m m' k : Nat) (res : Out Errno Unit) : Prop :=
  ((∃ e, res = .err e) ∧ k = 0 ∧ m' ≤ m + (i / slotsPer fsi + 1) ∧ ¬ Answers fsi m (m' - m)) ∨
    Answers fsi m (i / slotsPer fsi + 1) ∧
      Marks fsi (i % slotsPer fsi) n (m + (i / slotsPer fsi + 1)) m' k res

theorem MarksFrom.le {i n m m' : Nat} {res : Out Errno Unit} (h : MarksFrom fsi i n m m' k res) : k ≤ n := by
  rcases h with ⟨-, rfl, -⟩ | ⟨-, h⟩
  · exact Nat.zero_le _
  · exact h.le

theorem deleteFdentryChain_marks (hg : Geometry fsi) (hr : ∀ c ∈ cs, InRange fsi c)
    (hl : Path fsi (view fsi v.disk).fat a cs) {i n : Nat} (hi : i < (volSlots fsi cs v).length)
    (hn : i + n ≤ (volSlots fsi cs v).length) :
    WP (deleteFdentryChain fsi a (32 * i) n) v fun res v' => ∃ k, MarksFrom fsi i n v.reads v'.reads k res ∧
      Edited fsi cs (deleteRange i k (volSlots fsi cs v)) v v' := by
  obtain ⟨hsplit, hlt⟩ := slot_split hg i
  obtain ⟨c, hq⟩ : ∃ c, cs[i / slotsPer fsi]? = some c :=
    ⟨_, List.getElem?_eq_getElem ((slot_cluster_lt hg).mp hi)⟩
  have hw : walk (fatNext fsi (view fsi v.disk).fat) (i / slotsPer fsi) a = some c := by
    rw [hl.walk_eq (path_ends _), hq]
  unfold deleteFdentryChain
  dsimp only
  rw [slot_cluster hg, slot_offset hg, seekCluster_eq]
  obtain ⟨v1, s1, hle, ⟨hn1, hno, e, e1⟩ | ⟨hn1, ha, e1⟩⟩ := seekLoop_once hg _ hw
  · exact .err_bind e1 ⟨0, .inl ⟨⟨e, rfl⟩, rfl, by omega, hno⟩, .of_same s1⟩
  obtain ⟨v2, s2, hn2, ⟨hno, e, e2⟩ | ⟨ha2, f, e2, hf⟩⟩ :=
    readCluster_once hg (hl.nodup (path_ends _)) hq (hr c (List.mem_of_getElem? hq)) v1
  · refine .ok_bind e1 (.err_bind e2 ⟨0, .inl ⟨⟨e, rfl⟩, rfl, by omega, fun hall => ?_⟩, .of_same (s1.trans s2)⟩)
    rw [show v2.reads - v.reads = i / slotsPer fsi + 1 by omega, answers_add, ← hn1] at hall
    exact hno hall.2
  · have s12 := s1.trans s2
    have hloop := deleteLoop_marks hg hr n (v := v2) (f := f) (a := a) (by rw [s12.disk]; exact hl) hq (le_of_lt hlt)
      (by rw [hsplit, volSlots_same s12]; exact hn)
    rw [hsplit, s2.disk, hf, volSlots_same s1, show v2.reads = v.reads + (i / slotsPer fsi + 1) by omega] at hloop
    refine .ok_bind e1 (.ok_bind e2 (hloop.mono fun res v' h => ?_))
    obtain ⟨k, hm, he⟩ := h
    refine ⟨k, .inr ⟨answers_add.mpr ⟨ha, ?_⟩, hm⟩, he.before s12⟩
    rwa [← hn1]

/-- The slots of a directory from which a range is deleted. -/
theorem deleteRange_getElem? (n : Nat) : ∀ {i : Nat} {l : List Slot} (k : Nat),
    (deleteRange i n l)[k]? = if i ≤ k ∧ k < i + n then l[k]?.map Slot.delete else l[k]? := by
  induction n with
  | zero =>
    intro i l k
    rw [deleteRange, if_neg (by omega)]
  | succ n ih =>
    intro i l k
    rw [deleteRange, ih, List.getElem?_modify]
    by_cases hk : i = k
    · subst k
      simp only [if_true, Option.map_eq_map]
      rw [if_neg (by omega), if_pos (by omega)]
    · simp only [if_neg hk, show (i + 1 ≤ k ∧ k < i + 1 + n) ↔ (i ≤ k ∧ k < i + (n + 1)) by omega,
        Option.map_eq_map, Option.map_id']

/-! ## Freeing clusters -/

/-- What the clusters hold stays. -/
def DataSame (fsi : Fsi) (v v' : Vol) : Prop := (view fsi v'.disk).data = (view fsi v.disk).data

theorem DataSame.of_same {v' : Vol} (h : Same v v') : DataSame fsi v v' := by rw [DataSame, h.disk]

theorem DataSame.trans {v' v'' : Vol} (h : DataSame fsi v v') (k : DataSame fsi v' v'') : DataSame fsi v v'' :=
  Eq.trans k h

theorem DataSame.slots {v' : Vol} (h : DataSame fsi v v') : volSlots fsi cs v' = volSlots fsi cs v := by
  rw [volSlots, h]

theorem FatTorn.data (hg : Geometry fsi) {c x : Nat} {v' : Vol} (h : FatTorn fsi c x v.disk v'.disk)
    (hc : InRange fsi c) : DataSame fsi v v' := by
  funext b o
  simp only [view]
  split
  · rename_i ho
    refine h.frame _ fun k hk => ?_
    have h1 := clusterAddr_area hg ho.1 ho.2
    have h2 := fatAddr_area hg hk hc.2
    have := hg.fatData
    omega
  · rfl

theorem rmwCluster_data (hg : Geometry fsi) (c : Nat) (new : Option Nat) :
    Keeps (DataSame fsi) (rmwCluster fsi c new) := by
  intro v
  cases new with
  | none => exact .of_same (rmwCluster_quiet c v).same
  | some x =>
    by_cases hc : InRange fsi c
    · rcases rmwCluster_torn hg hc x v with ⟨e, v', -, hs, h⟩ | ⟨-, h⟩
      · rw [h]
        exact .of_same hs
      · unfold WP at h
        exact h.1.data hg hc
    · rw [rmwCluster, if_pos (by rw [inRange_iff hg] at hc; exact not_not.mp hc)]
      exact .of_same (.refl v)

/-- The update of FSInfo changes no cluster and no entry. -/
theorem freeUpdate_view (hg : Geometry fsi) (n : Nat) (v : Vol) :
    view fsi (freeUpdate fsi n v).2.disk = view fsi v.disk := by
  by_cases h : n > 0
  · rw [freeUpdate, if_pos h]
    obtain ⟨v1, s1, ⟨e, -, e1⟩ | ⟨-, e1⟩⟩ := bread_cases fsi fsi.fsinfoSector 1 v
    · rw [bind_ok (attempt_err e1)]
      show view fsi v1.disk = _
      rw [s1.disk]
    · rw [bind_ok (attempt_ok e1)]
      dsimp only
      rw [get_bind_run]
      split
      · obtain ⟨v2, e2, hd, -⟩ := bdwrite_ok fsi.fsinfoSector 1
          (wle32 (u32 (v1.freeCount + n)) (fun o => v.disk (512 * fsi.fsinfoSector + o)) fsinfoFreeCount) v1
        rw [bind_ok e2, ← s1.disk]
        exact view_congr hg fun a ha => by rw [modify_run, hd, poke_outside ha]
      · show view fsi v1.disk = _
        rw [s1.disk]
  · rw [freeUpdate, if_neg h]
    rfl

theorem freeUpdate_data (hg : Geometry fsi) (n : Nat) : Keeps (DataSame fsi) (freeUpdate fsi n) :=
  fun v => congrArg View.data (freeUpdate_view hg n v)

/-- Freeing clusters changes the FAT and FSInfo only. -/
theorem freeClusters_data (hg : Geometry fsi) (c : Nat) (all : Bool) :
    Keeps (DataSame fsi) (freeClusters fsi c all) := by
  have hrefl (v : Vol) : DataSame fsi v v := .of_same (.refl v)
  have hloop (n : Nat) : ∀ c k, Keeps (DataSame fsi) (freeLoop fsi n c k) := by
    induction n with
    | zero => exact fun _ _ => .hang hrefl
    | succ n ih =>
      exact fun c k => .ite (fun _ => .bind (fun h k => h.trans k) (rmwCluster_data hg _ _) fun _ => ih _ _)
        fun _ => .pure hrefl _
  have hfree (c : Nat) : Keeps (DataSame fsi) (do
      let freed ← freeLoop fsi fsi.kernel.fuel c 0
      freeUpdate fsi freed) :=
    .bind (fun h k => h.trans k) (hloop _ _ _) (freeUpdate_data hg)
  exact .ite (fun _ => .fail hrefl _) fun _ => .ite (fun _ => .bind (fun h k => h.trans k) (rmwCluster_data hg _ _)
    fun _ => .ite (fun _ => .pure hrefl _) fun _ => hfree _) fun _ => hfree _

/-! ## The removal -/

theorem removeCheck_quiet (fv : Fv) (isDir : Bool) (cdir : Option Nat) : Quiet id (removeCheck fsi fv isDir cdir) := by
  unfold removeCheck
  exact .ite (fun _ => .ite (fun _ => .fail _) fun _ => .ite (fun _ => .fail _) fun _ => dirempty_quiet fv)
    fun _ => .ite (fun _ => .fail _) fun _ => .pure _

/-- A removal marks the first slots of the record of the entry, and no others. -/
theorem removeCommon_marks (hg : Geometry fsi) {s : VnSt} (h : IsDir fsi cs s) (hr : ∀ c ∈ cs, InRange fsi c)
    {name : List UInt8} {fv : Fv} (hf : (findDirent fsi name (vnodeNew fsi) s).1 = .ok fv)
    (hpar : fv.parentCluster = s.fv.cluster) (hoff : fv.diroff = 32 * a)
    (ha : a < (volSlots fsi cs s.vol).length) (hsz : a + fv.dirsz ≤ (volSlots fsi cs s.vol).length)
    (isDir : Bool) (cdir : Option Nat) (cr : Cred) : WP (removeCommon fsi name isDir cdir cr) s fun _ t =>
      ∃ k ≤ fv.dirsz, volSlots fsi cs t.vol = deleteRange a k (volSlots fsi cs s.vol) := by
  have hstop {t : VnSt} (hs : Same s.vol t.vol) :
      ∃ k ≤ fv.dirsz, volSlots fsi cs t.vol = deleteRange a k (volSlots fsi cs s.vol) :=
    ⟨0, Nat.zero_le _, volSlots_same hs⟩
  have hs1 : Same s.vol (findDirent fsi name (vnodeNew fsi) s).2.vol := (findDirent_quiet name _ s).same
  have hrun : findDirent fsi name (vnodeNew fsi) s = (.ok fv, (findDirent fsi name (vnodeNew fsi) s).2) := Prod.ext hf rfl
  generalize (findDirent fsi name (vnodeNew fsi) s).2 = s1 at hs1 hrun
  unfold removeCommon
  refine .ite (fun _ => .of_run rfl (hstop (.refl _))) fun _ => .get_bind ?_
  split
  · exact .of_run rfl (hstop (.refl _))
  refine .ok_bind hrun ?_
  have hcheck : WP (removeCheck fsi fv isDir cdir) s1.vol fun _ v => Same s.vol v := by
    have hq : Same s1.vol (removeCheck fsi fv isDir cdir s1.vol).2 := (removeCheck_quiet fv isDir cdir s1.vol).same
    exact .of_run (Prod.mk.eta).symm (hs1.trans hq)
  refine .on_bind hcheck (fun _ v hs => ?_) (fun _ v hs => hstop hs) fun v hs => hstop hs
  refine .ite (fun _ => .of_run rfl (hstop hs)) fun _ => ?_
  have hslots : volSlots fsi cs v = volSlots fsi cs s.vol := volSlots_same hs
  have hdel := deleteFdentryChain_marks (v := v) (a := s.fv.cluster) hg hr (by rw [hs.disk]; exact h.path)
    (i := a) (n := fv.dirsz) (by rwa [hslots]) (by rwa [hslots])
  rw [hslots] at hdel
  have hend (n : Nat) : Terminates (deleteFdentryChain fsi s.fv.cluster (32 * a) n) := deleteFdentryChain_terminates _ _ _
  rw [hpar, hoff]
  have hmark : WP (deleteFdentryChain fsi s.fv.cluster (32 * a) fv.dirsz) v fun r v' => r ≠ .hang ∧
      ∃ k ≤ fv.dirsz, volSlots fsi cs v' = deleteRange a k (volSlots fsi cs s.vol) := by
    have hends : WP (deleteFdentryChain fsi s.fv.cluster (32 * a) fv.dirsz) v fun r _ => r ≠ .hang :=
      .of_run (Prod.mk.eta).symm (hend _ v)
    refine (hends.and hdel).mono fun r v' hv' => ⟨hv'.1, ?_⟩
    obtain ⟨-, k, hm, he⟩ := hv'
    exact ⟨k, hm.le, he.slots⟩
  have hmark' : WP (onVol (deleteFdentryChain fsi s.fv.cluster (32 * a) fv.dirsz)) { s1 with vol := v } fun r t =>
      r ≠ .hang ∧ ∃ k ≤ fv.dirsz, volSlots fsi cs t.vol = deleteRange a k (volSlots fsi cs s.vol) := .on hmark
  refine .attempt_bind hmark' fun _ t ht => ?_
  obtain ⟨k, hk, ht⟩ := ht
  have hkeep {t' : VnSt} (hd : DataSame fsi t.vol t'.vol) :
      ∃ k ≤ fv.dirsz, volSlots fsi cs t'.vol = deleteRange a k (volSlots fsi cs s.vol) :=
    ⟨k, hk, hd.slots.trans ht⟩
  have htouch {t' : VnSt} (hd : DataSame fsi t.vol t'.vol) : WP (touchFv fsi false true) t' fun _ u =>
      ∃ k ≤ fv.dirsz, volSlots fsi cs u.vol = deleteRange a k (volSlots fsi cs s.vol) := by
    have hq : Same t'.vol (touchFv fsi false true t').2.vol := (touchFv_quiet false true t').same
    exact .of_run (Prod.mk.eta).symm (hkeep (hd.trans (.of_same hq)))
  have hfree : WP (onVol (freeClusters fsi fv.cluster true)) t fun _ u => DataSame fsi t.vol u.vol := by
    have hf : DataSame fsi t.vol (freeClusters fsi fv.cluster true t.vol).2 := freeClusters_data hg _ _ t.vol
    exact .on (.of_run (Prod.mk.eta).symm hf)
  have htry : WP (attempt (onVol (freeClusters fsi fv.cluster true))) t fun _ u => DataSame fsi t.vol u.vol :=
    .attempt hfree (fun _ _ h => h) (fun _ _ h => h) fun _ h => h
  split
  · exact .bind htry (fun _ u hu => htouch hu) (fun _ u hu => hkeep hu) fun u hu => hkeep hu
  · exact .ok_bind rfl (htouch (.of_same (.refl _)))

/-! ## One name, one file -/

variable {name : List UInt8} {t : VnSt} {fv : Fv}

/-- A search that succeeds fills the vnode from an entry of the enumeration. -/
theorem findDirent_listed (hg : Geometry fsi) (hl : Listable fsi cs) (h : IsDir fsi cs t)
    (hr : ∀ c ∈ cs, InRange fsi c) (hf : (findDirent fsi name (vnodeNew fsi) t).1 = .ok fv) :
    ∃ z ∈ listed fsi (volSlots fsi cs t.vol), fv = fillEntry t.fv.cluster z.1 z.2 (vnodeNew fsi) := by
  have hlen : (volSlots fsi cs t.vol).length = cs.length * slotsPer fsi := length_dirSlots _ _
  have hread : readSlots fsi.answering cs t.vol = volSlots fsi cs t.vol := readSlots_eq hg hr t.vol
  have hfind := findDirent_slots (answering_reliable fsi) (answering_geometry hg) hl.chain h.answering
    (by rw [hread, hlen]; exact hl.slots) (by rw [hread, hlen]; exact hl.bytes) name
  rw [hread] at hfind
  rcases findDirent_failsOr name (vnodeNew fsi) t t ⟨.refl _, rfl⟩ with ⟨e, he⟩ | ⟨he, -⟩
  · rw [hf] at he
    cases he
  have hok : .ok fv = lookupEntry fsi t.fv.cluster (name.take 255) (listed fsi (volSlots fsi cs t.vol)) :=
    hf.symm.trans (he.trans hfind)
  rw [lookupEntry] at hok
  rcases hz : (listed fsi (volSlots fsi cs t.vol)).find? fun e => nameMatch (name.take 255) e.2.name with _ | z
  · rw [hz] at hok
    cases hok
  · rw [hz] at hok
    exact ⟨z, List.mem_of_find?_eq_some hz, Out.ok.inj hok⟩

/-- The entry of which a search filled the vnode is the 8.3 entry in slot `k`. -/
def FoundIn (fsi : Fsi) (cs : List Nat) (t : VnSt) (fv : Fv) (k : Nat) : Prop :=
  ∃ e st, (volSlots fsi cs t.vol)[k]? = some e ∧ e.IsEntry ∧ Open (volSlots fsi cs t.vol) k ∧ st.offset = 32 * k ∧
    fv = fillEntry t.fv.cluster e st (vnodeNew fsi)

/-- The place of the record that the search makes. -/
theorem findDirent_record (hg : Geometry fsi) (hl : Listable fsi cs) (h : IsDir fsi cs t)
    (hr : ∀ c ∈ cs, InRange fsi c) (hf : (findDirent fsi name (vnodeNew fsi) t).1 = .ok fv) :
    ∃ k a, FoundIn fsi cs t fv k ∧ k < (volSlots fsi cs t.vol).length ∧ fv.diroff = 32 * a ∧ a ≤ k ∧ a + fv.dirsz = k + 1 ∧
      fv.parentCluster = t.fv.cluster ∧ Records ((volSlots fsi cs t.vol).take k) a := by
  have hbytes := hl.volSlots_bytes t.vol
  obtain ⟨z, hz, hfv⟩ := findDirent_listed hg hl h hr hf
  have h0 : Scanning [] { offset := 0, name := ⟨Function.update fsi.kernel.stack 0 0, dNameSize⟩ } :=
    ⟨rfl, iff_of_false Bool.false_ne_true (by simp [afterLabel]), 0, rfl, .inr ⟨rfl, by simp [afterLabel]⟩⟩
  obtain ⟨A, B, hD, he, hA, ho, a, ha, hrec⟩ := entries_record h0 (by simpa using hbytes) hz
  rw [List.nil_append] at ho hrec
  have hle := hrec.le
  have hk : (volSlots fsi cs t.vol)[A.length]? = some z.1 := by
    rw [hD, List.getElem?_append_right le_rfl, Nat.sub_self]
    rfl
  have hlt := (List.getElem?_eq_some_iff.mp hk).1
  refine ⟨A.length, a, ⟨z.1, z.2, hk, he, fun i hi x hx => ?_, ho, hfv⟩, hlt, by rw [hfv, ← ha]; rfl, hle, ?_, by rw [hfv]; rfl, ?_⟩
  · rw [hD, List.getElem?_append_left hi] at hx
    exact hA x (List.mem_of_getElem? hx)
  · have hsz : fv.dirsz = u32 (sub32 z.2.offset z.2.entryStart / dentrySize + 1) := by
      rw [hfv]
      rfl
    rw [hsz, ho, ha]
    simp only [u32, sub32, dentrySize]
    omega
  · rwa [hD, List.take_left]

/-- What removing the name whose search filled `fv` from slot `k` should do: the recorded slots are the
long name entries in front of slot `k` and this slot, and whatever comes of a removal, the other entries stay. -/
structure RemovesOne (fsi : Fsi) (cs : List Nat) (name : List UInt8) (t : VnSt) (fv : Fv) (k : Nat) : Prop where
  ends : fv.diroff + dentrySize * fv.dirsz = dentrySize * (k + 1)
  names : ∀ i x, fv.diroff ≤ dentrySize * i → i < k → (volSlots fsi cs t.vol)[i]? = some x → x.IsLfn
  others : ∀ isDir cdir cr i x, i ≠ k → (volSlots fsi cs t.vol)[i]? = some x → x.IsEntry →
    (volSlots fsi cs (removeCommon fsi name isDir cdir cr t).2.vol)[i]? = some x
  live : ∀ isDir cdir cr i, Open (volSlots fsi cs t.vol) i →
    Open (volSlots fsi cs (removeCommon fsi name isDir cdir cr t).2.vol) i

theorem delete_first (s : Slot) : s.delete.first = lfnDeleted := rfl

/-- Where the search puts the entry. -/
def foundPlace : Out Errno Fv → Option (Nat × Nat)
  | .ok fv => some (fv.diroff, fv.dirsz)
  | _ => none

theorem foundPlace_some {r : Out Errno Fv} {x : Nat × Nat} (h : foundPlace r = some x) :
    ∃ fv, r = .ok fv ∧ fv.diroff = x.1 ∧ fv.dirsz = x.2 := by
  cases r with
  | ok fv =>
    obtain rfl := Option.some.inj h
    exact ⟨fv, rfl, rfl, rfl⟩
  | err e => cases h
  | hang => cases h

/-- The file `A`, a long name entry without the mark, and the file `B`. -/
def unmarkedDir : VnSt := smallDir [shortEntry 65 0 3 1,
  lfnSlot 1 0 fun i => if i = 0 then (66, 0) else if i = 1 then (0, 0) else (255, 255), shortEntry 66 0 0 0]

end Fat32
