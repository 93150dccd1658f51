import Mathlib
import Fat32.Proof.FreeEnds
import Fat32.Proof.Removal

/-!
# A removal on a device that fails

`fat32_remove_common` marks the slots of an entry and then frees its clusters; it looks at the errors of
neither and returns 0. What it leaves is told by the reads that fail: how many slots are marked (`MarksFrom`)
and how many clusters of the chain (`UsedChain`) are freed (`freeLoop_used`).
-/

namespace Fat32

open Bytes Exec Prog Linked

variable {fsi : Fsi} {cs l : List Nat} {fat : Nat → Nat} {v v' : Vol} {a b c k m n : Nat}

/-! ## The clusters of an entry -/

/-- The clusters in use from `c` on, along the links, up to the first that is not in use or was met before. -/
inductive UsedChain (fsi : Fsi) : (Nat → Nat) → Nat → List Nat → Prop
  | stop {fat : Nat → Nat} {c : Nat} (h : ¬ (InRange fsi c ∧ fat c ≠ 0)) : UsedChain fsi fat c []
  | used {fat : Nat → Nat} {c : Nat} {l : List Nat} (hc : InRange fsi c) (h0 : fat c ≠ 0)
      (h : UsedChain fsi (Function.update fat c 0) (fat c) l) : UsedChain fsi fat c (c :: l)

/-- Cluster `b` is in use, and the links from `a` lead to it. -/
def OfEntry (fsi : Fsi) (fat : Nat → Nat) (a b : Nat) : Prop := Reaches fsi fat a b ∧ fat b ≠ 0

namespace UsedChain

theorem used_mem (h : UsedChain fsi fat c l) : ∀ b ∈ l, InRange fsi b ∧ fat b ≠ 0 := by
  induction h with
  | stop => exact fun b hb => absurd hb List.not_mem_nil
  | @used fat c l hc h0 _ ih =>
    intro b hb
    rcases List.mem_cons.mp hb with rfl | hb
    · exact ⟨hc, h0⟩
    · obtain ⟨hr, hne⟩ := ih b hb
      refine ⟨hr, ?_⟩
      by_cases hbc : b = c
      · rwa [hbc]
      · rwa [Function.update_of_ne hbc] at hne

theorem nodup (h : UsedChain fsi fat c l) : l.Nodup := by
  induction h with
  | stop => exact List.nodup_nil
  | @used fat c l _ _ h ih =>
    refine List.nodup_cons.mpr ⟨fun hmem => ?_, ih⟩
    have hne := (h.used_mem c hmem).2
    rw [Function.update_self] at hne
    exact hne rfl

theorem length_le (h : UsedChain fsi fat c l) : l.length ≤ fsi.clusterCount := by
  have hsub : l.toFinset ⊆ Finset.Icc 2 (fsi.clusterCount + 1) := by
    intro b hb
    obtain ⟨h1, h2⟩ := (h.used_mem b (List.mem_toFinset.mp hb)).1
    exact Finset.mem_Icc.mpr ⟨h1, h2⟩
  have hcard := Finset.card_le_card hsub
  rw [List.toFinset_card_of_nodup h.nodup, Nat.card_Icc] at hcard
  omega

theorem unique (h : UsedChain fsi fat c l) : ∀ {m : List Nat}, UsedChain fsi fat c m → l = m := by
  induction h with
  | stop hno =>
    intro m hm
    cases hm with
    | stop => rfl
    | used hc h0 => exact absurd ⟨hc, h0⟩ hno
  | used hc h0 _ ih =>
    intro m hm
    cases hm with
    | stop hno => exact absurd ⟨hc, h0⟩ hno
    | used _ _ h' => rw [ih h']

end UsedChain

/-- A walk that does not pass a cluster does not depend on its entry. -/
theorem walk_update {i : Nat} : ∀ {a : Nat}, (∀ j < i, walk (fatNext fsi fat) j a ≠ some c) →
    walk (fatNext fsi (Function.update fat c 0)) i a = walk (fatNext fsi fat) i a := by
  induction i with
  | zero => exact fun _ => rfl
  | succ i ih =>
    intro a h
    have hne : a ≠ c := fun heq => h 0 (Nat.succ_pos i) (by rw [heq]; rfl)
    have hnext : fatNext fsi (Function.update fat c 0) a = fatNext fsi fat a :=
      fatNext_congr (Function.update_of_ne hne _ _)
    rw [walk, walk, hnext]
    cases hb : fatNext fsi fat a with
    | none => rfl
    | some b =>
      refine ih fun j hj hw => h (j + 1) (by omega) ?_
      rw [walk, hb]
      exact hw

/-- They are those on the chain. -/
theorem UsedChain.mem_iff (h : UsedChain fsi fat c l) : b ∈ l ↔ OfEntry fsi fat c b := by
  induction h with
  | @stop fat c hno =>
    refine iff_of_false List.not_mem_nil ?_
    rintro ⟨⟨hb, i, hw⟩, h0⟩
    cases i with
    | zero =>
      obtain rfl : c = b := Option.some.inj hw
      exact hno ⟨hb, h0⟩
    | succ i =>
      obtain ⟨d, hd, -⟩ := Option.bind_eq_some_iff.mp hw
      obtain ⟨hc, hr, hfat⟩ := fatNext_some.mp hd
      refine hno ⟨hc, fun hz => ?_⟩
      have := hr.1
      omega
  | @used fat c l hc h0 h ih =>
    constructor
    · intro hb
      rcases List.mem_cons.mp hb with rfl | hb
      · exact ⟨⟨hc, 0, rfl⟩, h0⟩
      · obtain ⟨⟨hr, i, hw⟩, -⟩ := ih.mp hb
        have hnext : fatNext fsi fat c = some (fat c) := by
          refine fatNext_some.mpr ⟨hc, ?_, rfl⟩
          cases h with
          | stop => cases hb
          | used hc' _ _ => exact hc'
        refine ⟨⟨hr, i + 1, ?_⟩, ((UsedChain.used hc h0 h).used_mem b (List.mem_cons_of_mem _ hb)).2⟩
        rw [walk, hnext]
        exact walk_cleared hw
    · rintro ⟨⟨hr, hreach⟩, hb0⟩
      by_cases hbc : b = c
      · rw [hbc]
        exact List.mem_cons_self
      -- the shortest walk to `b` passes `c` only at its start
      obtain ⟨i, hw, hmin⟩ : ∃ i, walk (fatNext fsi fat) i c = some b ∧ ∀ j < i, walk (fatNext fsi fat) j c ≠ some b :=
        ⟨Nat.find hreach, Nat.find_spec hreach, fun j hj => Nat.find_min hreach hj⟩
      cases i with
      | zero => exact absurd (Option.some.inj hw).symm hbc
      | succ i =>
        obtain ⟨d, hd, hwd⟩ := Option.bind_eq_some_iff.mp hw
        obtain rfl := (fatNext_some.mp hd).2.2
        refine List.mem_cons_of_mem _ (ih.mpr ⟨⟨hr, i, ?_⟩, by rwa [Function.update_of_ne hbc]⟩)
        rw [walk_update fun j hj hback => ?_]
        · exact hwd
        · have hsplit : walk (fatNext fsi fat) (j + (i - j)) (fat c) = some b := by
            rwa [Nat.add_sub_cancel' (by omega)]
          rw [walk_add, hback] at hsplit
          exact hmin (i - j) (by omega) hsplit

theorem exists_usedChain (n : Nat) : ∀ (fat : Nat → Nat) (c : Nat),
    ((Finset.Icc 2 (fsi.clusterCount + 1)).filter fun b => fat b ≠ 0).card ≤ n → ∃ l, UsedChain fsi fat c l := by
  induction n with
  | zero =>
    intro fat c h
    refine ⟨[], .stop fun hc => ?_⟩
    have hmem : c ∈ (Finset.Icc 2 (fsi.clusterCount + 1)).filter fun b => fat b ≠ 0 :=
      Finset.mem_filter.mpr ⟨Finset.mem_Icc.mpr hc.1, hc.2⟩
    rw [Finset.card_eq_zero.mp (Nat.le_zero.mp h)] at hmem
    exact absurd hmem (Finset.notMem_empty c)
  | succ n ih =>
    intro fat c h
    by_cases hc : InRange fsi c ∧ fat c ≠ 0
    · have hmem : c ∈ (Finset.Icc 2 (fsi.clusterCount + 1)).filter fun b => fat b ≠ 0 :=
        Finset.mem_filter.mpr ⟨Finset.mem_Icc.mpr hc.1, hc.2⟩
      have hsub : ((Finset.Icc 2 (fsi.clusterCount + 1)).filter fun b => Function.update fat c 0 b ≠ 0) ⊆
          ((Finset.Icc 2 (fsi.clusterCount + 1)).filter fun b => fat b ≠ 0).erase c := by
        intro b hb
        obtain ⟨hb, hne⟩ := Finset.mem_filter.mp hb
        by_cases hbc : b = c
        · rw [hbc, Function.update_self] at hne
          exact absurd rfl hne
        · rw [Function.update_of_ne hbc] at hne
          exact Finset.mem_erase.mpr ⟨hbc, Finset.mem_filter.mpr ⟨hb, hne⟩⟩
      have hcard := Finset.card_le_card hsub
      rw [Finset.card_erase_of_mem hmem] at hcard
      obtain ⟨l, hl⟩ := ih (Function.update fat c 0) (fat c) (by omega)
      exact ⟨c :: l, .used hc.1 hc.2 hl⟩
    · exact ⟨[], .stop hc⟩

/-! ## Freeing -/

/-- The reads from number `m` on let all of `l` be freed: the last cluster is freed with its first read. -/
def AllFreed (fsi : Fsi) (l : List Nat) (m : Nat) : Prop := l = [] ∨ Answers fsi m ((l.length - 1) * fsi.numFats + 1)

theorem allFreed_cons (hg : Geometry fsi) : AllFreed fsi (c :: l) m ↔
    Answers fsi m 1 ∧ (l = [] ∨ Answers fsi m fsi.numFats ∧ AllFreed fsi l (m + fsi.numFats)) := by
  have hn := hg.numFats
  unfold AllFreed
  cases l with
  | nil => simp
  | cons d l =>
    simp only [List.length_cons, reduceCtorEq, false_or, Nat.add_sub_cancel]
    rw [show (l.length + 1) * fsi.numFats + 1 = fsi.numFats + (l.length * fsi.numFats + 1) by
      rw [Nat.succ_mul]
      omega, answers_add]
    refine ⟨fun h => ⟨?_, h⟩, fun h => h.2⟩
    have hfirst := h.1
    rw [show fsi.numFats = 1 + (fsi.numFats - 1) by omega, answers_add] at hfirst
    exact hfirst.1

/-- What freeing does on a device that may fail: the first clusters of the chain are freed. -/
structure FreesSome (fsi : Fsi) (fat : Nat → Nat) (l : List Nat) (m : Nat) (v' : Vol) (x : Nat) : Prop where
  le : x ≤ l.length
  fat : (view fsi v'.disk).fat = zeroFat (l.take x) fat
  all : x = l.length ↔ AllFreed fsi l m

theorem freeLoop_used (hg : Geometry fsi) (h : UsedChain fsi fat c l) : ∀ {n : Nat} (freed : Nat) {v : Vol},
    (view fsi v.disk).fat = fat → l.length + 2 ≤ n →
    WP (freeLoop fsi n c freed) v fun r v' => r ≠ .hang ∧ ∃ x, FreesSome fsi fat l v.reads v' x := by
  induction h with
  | @stop fat c hno =>
    intro n freed v hv hn
    have hkept {v' : Vol} (h : (view fsi v'.disk).fat = fat) : ∃ x, FreesSome fsi fat [] v.reads v' x :=
      ⟨0, le_rfl, by rw [h, List.take_nil, zeroFat_nil], iff_of_true rfl (.inl rfl)⟩
    obtain ⟨n, rfl⟩ : ∃ k, n = k + 2 := ⟨n - 2, by rw [List.length_nil] at hn; omega⟩
    rw [freeLoop]
    refine .ite (fun _ => ?_) fun _ => .of_run rfl ⟨Out.ok_ne_hang, hkept hv⟩
    by_cases hc : InRange fsi c
    · -- a cluster in range that is not in use is written, and the loop stops
      have h0 : fat c = 0 := not_not.mp fun h => hno ⟨hc, h⟩
      have hsame {v' : Vol} (h : (view fsi v'.disk).fat = Function.update (view fsi v.disk).fat c (clusterFree % 2 ^ 28)) :
          (view fsi v'.disk).fat = fat := by
        rw [h, hv, show clusterFree % 2 ^ 28 = fat c from h0.symm, Function.update_eq_self]
      obtain ⟨v', ⟨e, -, hs, h⟩ | ⟨-, hfat, ⟨-, -, h⟩ | ⟨-, e, h⟩⟩⟩ := rmwCluster_stores hg hc clusterFree v
      · exact .err_bind h ⟨Out.err_ne_hang, hkept (by rw [hs.disk, hv])⟩
      · refine .ok_bind h ?_
        rw [freeLoop, hv, h0, if_neg (by decide)]
        exact .of_run rfl ⟨Out.ok_ne_hang, hkept (hsame hfat)⟩
      · exact .err_bind h ⟨Out.err_ne_hang, hkept (hsame hfat)⟩
    · have hout : rmwCluster fsi c (some clusterFree) v = (.err .einval, v) := by
        rw [rmwCluster, if_pos (by rw [inRange_iff hg] at hc; exact not_not.mp hc)]
        rfl
      exact .err_bind hout ⟨Out.err_ne_hang, hkept hv⟩
  | @used fat c l hc h0 hl ih =>
    intro n freed v hv hn
    obtain ⟨n, rfl⟩ : ∃ k, n = k + 1 := ⟨n - 1, by omega⟩
    rw [List.length_cons] at hn
    have hloops : c ≥ clusterMin ∧ c < clusterEocMin := by
      have hcnt := hg.count
      have hc1 := hc.1
      have hc2 := hc.2
      simp only [clusterBad] at hcnt
      exact ⟨hc1, by simp only [clusterEocMin]; omega⟩
    rw [freeLoop, if_pos hloops]
    obtain ⟨v', ⟨e, he, hs, h⟩ | ⟨he, hfat, hrest⟩⟩ := rmwCluster_stores hg hc clusterFree v
    · -- nothing is written
      refine .err_bind h ⟨Out.err_ne_hang, 0, Nat.zero_le _, by rw [hs.disk, hv, List.take_zero, zeroFat_nil], ?_⟩
      refine iff_of_false (by simp) fun hall => ?_
      rw [answers_one.mp ((allFreed_cons hg).mp hall).1] at he
      cases he
    have hfat' : (view fsi v'.disk).fat = Function.update fat c 0 := by rw [hfat, hv]; rfl
    have hone : (view fsi v'.disk).fat = zeroFat ((c :: l).take 1) fat := by
      rw [hfat', List.take_succ_cons, List.take_zero, ← zeroFat_cons, zeroFat_nil]
    rcases hrest with ⟨ha, hreads, h⟩ | ⟨hno, e, h⟩
    · rw [hv] at h
      refine .ok_bind h ((ih (u32 (freed + 1)) hfat' (by omega)).mono fun r v'' hr => ⟨hr.1, ?_⟩)
      obtain ⟨-, x, hx⟩ := hr
      refine ⟨x + 1, Nat.succ_le_succ hx.le, by rw [hx.fat, List.take_succ_cons, zeroFat_cons], ?_⟩
      rw [allFreed_cons hg, List.length_cons, Nat.add_right_cancel_iff, hx.all, hreads]
      refine ⟨fun h => ⟨answers_one.mpr he, .inr ⟨ha, h⟩⟩, fun h => ?_⟩
      rcases h.2 with rfl | h
      · exact .inl rfl
      · exact h.2
    · refine .err_bind h ⟨Out.err_ne_hang, 1, by simp, hone, ?_⟩
      rw [allFreed_cons hg, List.length_cons]
      constructor
      · intro hl0
        exact ⟨answers_one.mpr he, .inl (List.eq_nil_of_length_eq_zero (by omega))⟩
      · rintro ⟨-, rfl | ⟨ha, -⟩⟩
        · rfl
        · exact absurd ha hno

theorem freeClusters_used (hg : Geometry fsi) (hfuel : fsi.clusterCount + 2 ≤ fsi.kernel.fuel)
    (h : UsedChain fsi (view fsi v.disk).fat c l) : WP (freeClusters fsi c true) v fun r v' => r ≠ .hang ∧
      ∃ x, FreesSome fsi (view fsi v.disk).fat l v.reads v' x := by
  have hlen := h.length_le
  refine .ite (fun hout => ?_) fun _ => .ite (fun hno => absurd rfl hno) fun _ => ?_
  · have hnil : l = [] := h.unique (.stop fun hc => hc.1.not_outside hg hout)
    refine .of_run rfl ⟨Out.err_ne_hang, 0, Nat.zero_le _, by rw [List.take_zero, zeroFat_nil], ?_⟩
    rw [hnil]
    exact iff_of_true rfl (.inl rfl)
  · refine .bind (freeLoop_used hg h 0 rfl (by omega)) (fun n v1 h1 => ?_)
      (fun e v1 h1 => ⟨Out.err_ne_hang, h1.2⟩) fun v1 h1 => absurd rfl h1.1
    obtain ⟨-, x, hx⟩ := h1
    have hview := freeUpdate_view hg n v1
    have hend : (freeUpdate fsi n v1).1 ≠ .hang := freeUpdate_terminates n v1
    exact .of_run (Prod.mk.eta).symm ⟨hend, x, hx.le, by rw [hview, hx.fat], hx.all⟩

/-! ## Marking -/

theorem Answers.mono {n' : Nat} (h : Answers fsi m n) (hle : n' ≤ n) : Answers fsi m n' :=
  fun i hi => h i (by omega)

/-- The reads tell how many slots are marked, and where the reads of a marking that is done end. -/
theorem Marks.unique {r m' k' m'' : Nat} {res res' : Out Errno Unit} (hper : 0 < slotsPer fsi)
    (h : Marks fsi r n m m' k res) (h' : Marks fsi r n m m'' k' res') : k = k' ∧ (k = n → m' = m'') := by
  -- a marking that stops does so at one of the reads of the whole marking
  have hstop {k m' x : Nat} (hk : k < n) (hx : k + r = (x + 1) * slotsPer fsi) (hle : m' ≤ m + 2 * (x + 1))
      (hno : ¬ Answers fsi m (m' - m)) : ¬ Answers fsi m (2 * crossings fsi r n) := by
    refine fun ha => hno (ha.mono ?_)
    have hcross : x + 1 ≤ crossings fsi r n := by
      rw [crossings, Nat.le_div_iff_mul_le hper, ← hx]
      omega
    omega
  rcases h with ⟨-, rfl, hm, ha⟩ | ⟨-, hk, x, hx, ha, hm, hno⟩ <;>
    rcases h' with ⟨-, rfl, hm', ha'⟩ | ⟨-, hk', x', hx', ha', hm', hno'⟩
  · exact ⟨rfl, fun _ => hm.trans hm'.symm⟩
  · exact absurd ha (hstop hk' hx' hm' hno')
  · exact absurd ha' (hstop hk hx hm hno)
  · have h1 : x ≤ x' := by
      by_contra hlt
      exact hno' (ha.mono (by omega))
    have h2 : x' ≤ x := by
      by_contra hlt
      exact hno (ha'.mono (by omega))
    obtain rfl := Nat.le_antisymm h1 h2
    exact ⟨by omega, fun h => by omega⟩

theorem MarksFrom.unique {i m' k' m'' : Nat} {res res' : Out Errno Unit} (hper : 0 < slotsPer fsi) (hn : 0 < n)
    (h : MarksFrom fsi i n m m' k res) (h' : MarksFrom fsi i n m m'' k' res') : k = k' ∧ (k = n → m' = m'') := by
  have hpos := Nat.zero_le (i / slotsPer fsi)
  rcases h with ⟨-, rfl, hle, hno⟩ | ⟨ha, h⟩ <;> rcases h' with ⟨-, rfl, hle', hno'⟩ | ⟨ha', h'⟩
  · exact ⟨rfl, fun h => by omega⟩
  · exact absurd (ha'.mono (by omega)) hno
  · exact absurd (ha.mono (by omega)) hno'
  · exact h.unique hper h'

/-! ## The directory afterwards -/

/-- The clusters of a directory up to the first that is in `l`. -/
def cutAfter (l : List Nat) : List Nat → List Nat
  | [] => []
  | c :: cs => if c ∈ l then [c] else c :: cutAfter l cs

theorem cutAfter_prefix (l : List Nat) : ∀ cs, cutAfter l cs <+: cs
  | [] => List.prefix_rfl
  | c :: cs => by
    rw [cutAfter]
    split
    · exact ⟨cs, rfl⟩
    · exact List.cons_prefix_cons.mpr ⟨rfl, cutAfter_prefix l cs⟩

/-- With the entries of `l` cleared, the links lead as far as that. -/
theorem path_cutAfter (h : Path fsi fat a cs) : Path fsi (zeroFat l fat) a (cutAfter l cs) := by
  have hout {c : Nat} (hc : c ∈ l) : fatNext fsi (zeroFat l fat) c = none := by
    rw [fatNext, zeroFat, if_pos hc, if_neg fun hr => absurd hr.2.1 (by decide)]
  have hkept {c : Nat} (hc : c ∉ l) : fatNext fsi (zeroFat l fat) c = fatNext fsi fat c :=
    fatNext_congr (by rw [zeroFat, if_neg hc])
  induction h with
  | @last c hf =>
    rw [cutAfter]
    split
    · exact .last (hout ‹_›)
    · exact .last ((hkept ‹_›).trans hf)
  | @link c d t hn ht ih =>
    rw [cutAfter]
    split
    · exact .last (hout ‹_›)
    · exact .link ((hkept ‹_›).trans hn) ih

theorem volSlots_cutAfter (l cs : List Nat) (v : Vol) :
    volSlots fsi (cutAfter l cs) v = (volSlots fsi cs v).take ((cutAfter l cs).length * slotsPer fsi) := by
  obtain ⟨t, ht⟩ := cutAfter_prefix l cs
  have hlen : (volSlots fsi (cutAfter l cs) v).length = (cutAfter l cs).length * slotsPer fsi := length_dirSlots _ _
  conv => rhs; rw [volSlots, ← ht, dirSlots_append]
  rw [ht, ← hlen, List.take_left]

/-! ## The call -/

variable {name : List UInt8} {isDir : Bool} {cdir : Option Nat} {cr : Cred} {t : VnSt} {T : Fv} {v2 : Vol}

/-- The call gets as far as to the marking, with the entry `T` and the volume `v2`. -/
def Passes (fsi : Fsi) (name : List UInt8) (isDir : Bool) (cdir : Option Nat) (cr : Cred) (t : VnSt) (T : Fv)
    (v2 : Vol) : Prop :=
  isDot name = false ∧ faccess fsi t.fv { write := true, exec := true } cr = none ∧
    ∃ t1, findDirent fsi name (vnodeNew fsi) t = (.ok T, t1) ∧ removeCheck fsi T isDir cdir t1.vol = (.ok (), v2)

theorem removeCommon_refused (hno : ∀ T v2, ¬ Passes fsi name isDir cdir cr t T v2) :
    WP (removeCommon fsi name isDir cdir cr) t fun r t' => (∀ x, r ≠ .ok x) ∧ Same t.vol t'.vol := by
  unfold removeCommon
  refine .ite (fun _ => .of_run rfl ⟨fun _ => Out.err_ne_ok, .refl _⟩) fun hdot => .get_bind ?_
  split
  · exact .of_run rfl ⟨fun _ => Out.err_ne_ok, .refl _⟩
  rename_i hacc
  have hs1 : Same t.vol (findDirent fsi name (vnodeNew fsi) t).2.vol := (findDirent_quiet name _ t).same
  rcases hf : findDirent fsi name (vnodeNew fsi) t with ⟨T | e | _, t1⟩ <;> rw [hf] at hs1
  · refine .ok_bind hf ?_
    have hs2 : Same t1.vol (removeCheck fsi T isDir cdir t1.vol).2 := (removeCheck_quiet T isDir cdir t1.vol).same
    rcases hc : removeCheck fsi T isDir cdir t1.vol with ⟨x | e | _, v2⟩ <;> rw [hc] at hs2
    · exact absurd ⟨by simpa using hdot, hacc, t1, hf, hc⟩ (hno T v2)
    · exact .err_bind (onVol_run hc) ⟨fun _ => Out.err_ne_ok, hs1.trans hs2⟩
    · exact .of_run (bind_hang (onVol_run hc)) ⟨fun _ => Out.hang_ne_ok, hs1.trans hs2⟩
  · exact .err_bind hf ⟨fun _ => Out.err_ne_ok, hs1⟩
  · exact .of_run (bind_hang hf) ⟨fun _ => Out.hang_ne_ok, hs1⟩

/-- What the call leaves of the entry `T` with the clusters `l`: `k` slots of its record are marked, with the reads
up to number `m`, and `x` clusters are freed. -/
structure RemovedAs (fsi : Fsi) (cs l : List Nat) (t : VnSt) (T : Fv) (v2 : Vol) (t' : VnSt) (k m x : Nat) : Prop where
  type : t'.fv.type = t.fv.type
  cluster : t'.fv.cluster = t.fv.cluster
  marks : ∃ res, MarksFrom fsi (T.diroff / dentrySize) T.dirsz v2.reads m k res
  slots : volSlots fsi cs t'.vol = deleteRange (T.diroff / dentrySize) k (volSlots fsi cs t.vol)
  frees : FreesSome fsi (view fsi t.vol.disk).fat l m t'.vol x

theorem removeCommon_passed (hg : Geometry fsi) (hfuel : fsi.clusterCount + 2 ≤ fsi.kernel.fuel)
    (hl : Listable fsi cs) (h : IsDir fsi cs t) (hr : ∀ c ∈ cs, InRange fsi c)
    (hp : Passes fsi name isDir cdir cr t T v2) (hu : UsedChain fsi (view fsi t.vol.disk).fat T.cluster l) :
    WP (removeCommon fsi name isDir cdir cr) t fun r t' => r = .ok () ∧ ∃ k m x, RemovedAs fsi cs l t T v2 t' k m x := by
  obtain ⟨hdot, hacc, t1, hf, hc⟩ := hp
  obtain ⟨j, a, hfound, hj, hoff, haj, hsz, hpar, hrec⟩ := findDirent_record hg hl h hr
    (show (findDirent fsi name (vnodeNew fsi) t).1 = .ok T by rw [hf])
  have hs1 : Same t.vol (findDirent fsi name (vnodeNew fsi) t).2.vol := (findDirent_quiet name _ t).same
  have hfv1 : CacheOnly t.fv (findDirent fsi name (vnodeNew fsi) t).2.fv := findDirent_caches name _ t
  have hs2 : Same t1.vol (removeCheck fsi T isDir cdir t1.vol).2 := (removeCheck_quiet T isDir cdir t1.vol).same
  rw [hf] at hs1 hfv1
  rw [hc] at hs2
  have hs : Same t.vol v2 := hs1.trans hs2
  have hhead : InRange fsi t.fv.cluster := hr _ h.path.head_mem
  have ha : T.diroff / dentrySize = a := by
    rw [hoff]
    exact Nat.mul_div_cancel_left a (by decide)
  have hslots : volSlots fsi cs v2 = volSlots fsi cs t.vol := volSlots_same hs
  unfold removeCommon
  rw [if_neg (by rw [hdot]; decide)]
  refine .get_bind ?_
  rw [hacc]
  refine .ok_bind hf (.ok_bind (onVol_run hc) ?_)
  rw [if_neg (by rw [hpar]; exact hhead.ne_bad hg), hpar, hoff]
  -- the slots
  have hdel := deleteFdentryChain_marks (v := v2) (a := t.fv.cluster) hg hr (by rw [hs.disk]; exact h.path)
    (i := a) (n := T.dirsz) (by rw [hslots]; omega) (by rw [hslots]; omega)
  have hends : WP (deleteFdentryChain fsi t.fv.cluster (32 * a) T.dirsz) v2 fun r _ => r ≠ .hang :=
    .of_run (Prod.mk.eta).symm (deleteFdentryChain_terminates _ _ _ v2)
  have hmark : WP (onVol (deleteFdentryChain fsi t.fv.cluster (32 * a) T.dirsz)) { t1 with vol := v2 } fun r t' =>
      r ≠ .hang ∧ t'.fv = t1.fv ∧ ∃ k res, MarksFrom fsi a T.dirsz v2.reads t'.vol.reads k res ∧
        Edited fsi cs (deleteRange a k (volSlots fsi cs v2)) v2 t'.vol := by
    refine .on ((hends.and hdel).mono fun r v' hv' => ⟨hv'.1, rfl, ?_⟩)
    obtain ⟨-, k, hk⟩ := hv'
    exact ⟨k, r, hk⟩
  refine .attempt_bind hmark fun _ t3 h3 => ?_
  obtain ⟨hfv3, k, res, hmarks, hedit⟩ := h3
  rw [hslots] at hedit
  have hfat3 : (view fsi t3.vol.disk).fat = (view fsi t.vol.disk).fat := by rw [hedit.fat, hs.disk]
  -- the clusters
  have hdone {t4 : VnSt} (hfv : t4.fv = t3.fv) (hd : DataSame fsi t3.vol t4.vol)
      (hx : ∃ x, FreesSome fsi (view fsi t.vol.disk).fat l t3.vol.reads t4.vol x) :
      WP (touchFv fsi false true) t4 fun r t' => r = .ok () ∧ ∃ k m x, RemovedAs fsi cs l t T v2 t' k m x := by
    obtain ⟨t5, e5, hway⟩ := touchFv_way fsi false true t4
    have hq : Same t4.vol (touchFv fsi false true t4).2.vol := (touchFv_quiet false true t4).same
    rw [e5] at hq
    obtain ⟨x, hx⟩ := hx
    obtain ⟨cache, hcache⟩ : CacheOnly t.fv t1.fv := hfv1
    have hty : t5.fv.type = t.fv.type := by rw [hway.type, hfv, hfv3, hcache]
    have hcl : t5.fv.cluster = t.fv.cluster := by rw [hway.cluster, hfv, hfv3, hcache]
    refine .of_run e5 ⟨rfl, k, t3.vol.reads, x, hty, hcl, ⟨res, by rwa [ha]⟩, ?_, hx.le, by rw [hq.disk, hx.fat], hx.all⟩
    rw [ha, volSlots_same hq, hd.slots, hedit.slots]
  by_cases h0 : T.cluster = 0
  · rw [if_neg (not_not.mpr h0)]
    have hnil : l = [] := hu.unique (.stop fun hc => absurd (h0 ▸ hc.1.1) (by decide))
    refine .ok_bind rfl (hdone rfl (.of_same (.refl _)) ⟨0, Nat.zero_le _, ?_, ?_⟩)
    · rw [List.take_zero, zeroFat_nil, hfat3]
    · rw [hnil]
      exact iff_of_true rfl (.inl rfl)
  · rw [if_pos h0]
    have hfree := freeClusters_used (v := t3.vol) hg hfuel (by rwa [hfat3])
    rw [hfat3] at hfree
    have hdata : WP (freeClusters fsi T.cluster true) t3.vol fun _ v' => DataSame fsi t3.vol v' :=
      .of_run (Prod.mk.eta).symm (freeClusters_data hg T.cluster true t3.vol)
    have hrun : WP (onVol (freeClusters fsi T.cluster true)) t3 fun r t4 => r ≠ .hang ∧ t4.fv = t3.fv ∧
        DataSame fsi t3.vol t4.vol ∧ ∃ x, FreesSome fsi (view fsi t.vol.disk).fat l t3.vol.reads t4.vol x :=
      .on ((hfree.and hdata).mono fun r v' hv' => ⟨hv'.1.1, rfl, hv'.2, hv'.1.2⟩)
    exact .attempt_bind hrun fun _ t4 h4 => hdone h4.1 h4.2.1 h4.2.2

/-! ## What the call says and what it leaves -/

/-- The directory with an empty cluster cache, as a new lookup of it has it. -/
def freshDir (t : VnSt) : VnSt := { t with fv := { t.fv with clsCache := emptyCache } }

/-- The entry that a search finds on a device that answers. -/
def Names (fsi : Fsi) (name : List UInt8) (t : VnSt) (T : Fv) : Prop :=
  (findDirent fsi.answering name (vnodeNew fsi) t).1 = .ok T

/-- If a removal returns 0, the name is no longer found and the chain of the entry is free; and in any case
nothing of the chain is free while the entry is live. -/
structure TellsTruth (fsi : Fsi) (cs : List Nat) (name : List UInt8) (isDir : Bool) (cdir : Option Nat) (cr : Cred)
    (t : VnSt) : Prop where
  gone : (removeCommon fsi name isDir cdir cr t).1 = .ok () →
    ∀ T, ¬ Names fsi name (freshDir (removeCommon fsi name isDir cdir cr t).2) T
  freed : (removeCommon fsi name isDir cdir cr t).1 = .ok () → ∀ T b, Names fsi name t T →
    OfEntry fsi (view fsi t.vol.disk).fat T.cluster b →
    (view fsi (removeCommon fsi name isDir cdir cr t).2.vol.disk).fat b = 0
  safe : ∀ T b k e, Names fsi name t T → OfEntry fsi (view fsi t.vol.disk).fat T.cluster b →
    (view fsi (removeCommon fsi name isDir cdir cr t).2.vol.disk).fat b = 0 → FoundIn fsi cs t T k →
    (volSlots fsi cs (removeCommon fsi name isDir cdir cr t).2.vol)[k]? = some e → ¬ e.IsEntry

/-- The call does not get as far as to the marking; or the reads let it free every cluster of the entry, if there is
one, after all slots of the record were marked, and no other entry of what is left of the directory has the name. -/
def RemovesAll (fsi : Fsi) (cs : List Nat) (name : List UInt8) (isDir : Bool) (cdir : Option Nat) (cr : Cred)
    (t : VnSt) : Prop :=
  ∀ T v2 l, Passes fsi name isDir cdir cr t T v2 → UsedChain fsi (view fsi t.vol.disk).fat T.cluster l →
    ∃ k m res, MarksFrom fsi (T.diroff / dentrySize) T.dirsz v2.reads m k res ∧
      (l = [] ∨ k = T.dirsz ∧ AllFreed fsi l m) ∧
      ∀ z ∈ listed fsi ((deleteRange (T.diroff / dentrySize) k (volSlots fsi cs t.vol)).take
        ((cutAfter l cs).length * slotsPer fsi)), nameMatch (name.take 255) z.2.name = false

theorem Listable.shorter {cs' : List Nat} (h : Listable fsi cs) (hle : cs'.length ≤ cs.length) : Listable fsi cs' := by
  have hmul := Nat.mul_le_mul_right (slotsPer fsi) hle
  have h2 := h.slots
  have h3 := h.bytes
  exact ⟨hle.trans h.chain, by omega, by omega⟩

/-- A search on a device that answers finds nothing just if no entry has the name. -/
theorem not_names_iff (hg : Geometry fsi) (hl : Listable fsi cs) (h : IsDir fsi cs t) (hr : ∀ c ∈ cs, InRange fsi c) :
    (∀ T, ¬ Names fsi name t T) ↔
      ∀ z ∈ listed fsi (volSlots fsi cs t.vol), nameMatch (name.take 255) z.2.name = false := by
  have hlen : (volSlots fsi cs t.vol).length = cs.length * slotsPer fsi := length_dirSlots _ _
  have hread : readSlots fsi.answering cs t.vol = volSlots fsi cs t.vol := readSlots_eq hg hr t.vol
  have hfind := findDirent_slots (answering_reliable fsi) (answering_geometry hg) hl.chain h.answering
    (by rw [hread, hlen]; exact hl.slots) (by rw [hread, hlen]; exact hl.bytes) name
  rw [hread] at hfind
  have hfind' : (findDirent fsi.answering name (vnodeNew fsi) t).1 =
      lookupEntry fsi t.fv.cluster (name.take 255) (listed fsi (volSlots fsi cs t.vol)) := hfind
  unfold Names
  rw [hfind', lookupEntry]
  rcases hz : (listed fsi (volSlots fsi cs t.vol)).find? fun e => nameMatch (name.take 255) e.2.name with _ | z
  · rw [hz]
    refine iff_of_true (fun T => Out.err_ne_ok) fun z hmem => ?_
    simpa using List.find?_eq_none.mp hz z hmem
  · rw [hz]
    refine iff_of_false (fun h => h _ rfl) fun h => ?_
    have hm := h z (List.mem_of_find?_eq_some hz)
    rw [List.find?_some hz] at hm
    cases hm

/-- The slot of the entry tells where the record is. -/
theorem FoundIn.unique (hbytes : 32 * (volSlots fsi cs t.vol).length < 2 ^ 32) {k' : Nat} (h : FoundIn fsi cs t T k')
    (ha : T.diroff = 32 * a) (hak : a ≤ k) (hk : k < (volSlots fsi cs t.vol).length) (hsz : a + T.dirsz = k + 1) : k' = k := by
  obtain ⟨e, st, hk', -, -, ho, hT⟩ := h
  have hlt := (List.getElem?_eq_some_iff.mp hk').1
  have hstart : st.entryStart = 32 * a := by rw [← ha, hT]; rfl
  have hsize : T.dirsz = u32 (sub32 st.offset st.entryStart / dentrySize + 1) := by rw [hT]; rfl
  rw [hsize, hstart, ho] at hsz
  simp only [u32, sub32, dentrySize] at hsz
  omega

/-- The root directory with the file `A` of one cluster. -/
def oneFileDir : VnSt := ⟨fileVol, (smallDir []).fv⟩

end Fat32
