import Mathlib
import Fat32.Impl.Mount

/-!
# The mount options

The options are read as the list between the commas: the last one of each kind counts, unknown ones are ignored, and the
only error is a partition that is none of the four (`parseOpts_eq`). What is written for a list of settings is read back
as these settings (`parseOpts_settings`), also through the mount command (`mountArg_settings`).
-/

namespace Fat32

variable {data opt : List UInt8} {o : MountOpts}

/-! ## The list of the options -/

/-- One round of the loop. -/
theorem parseLoop_succ (n : Nat) {p : List UInt8} (hp : p ≠ []) (o : MountOpts) :
    parseLoop (n + 1) p o =
      parseOpt o (p.takeWhile (· ≠ 44)) >>= parseLoop n (p.dropWhile (· ≠ 44)).tail := by
  rw [parseLoop, if_neg hp]
  by_cases hopt : p.takeWhile (· ≠ 44) = []
  · rw [hopt]
    exact if_pos rfl
  · refine (if_neg hopt).trans ?_
    cases parseOpt o (p.takeWhile (· ≠ 44)) with
    | error e => rfl
    | ok o => rfl

/-- The loop takes the options between the commas one after the other. -/
theorem parseLoop_eq (n : Nat) : ∀ p o, p.length ≤ n → parseLoop n p o = (p.splitOn 44).foldlM parseOpt o := by
  induction n with
  | zero =>
    intro p o hp
    rw [List.length_eq_zero_iff.mp (Nat.le_zero.mp hp)]
    rfl
  | succ n ih =>
    intro p o hp
    by_cases hnil : p = []
    · rw [hnil]
      rfl
    rw [parseLoop_succ n hnil]
    have hsplit := List.takeWhile_append_dropWhile (p := (· ≠ (44 : UInt8))) (l := p)
    have hfree : (44 : UInt8) ∉ p.takeWhile (· ≠ 44) := fun hmem => by simpa using List.mem_takeWhile_imp hmem
    cases hd : p.dropWhile (· ≠ 44) with
    | nil =>
      rw [hd, List.append_nil] at hsplit
      rw [hsplit] at hfree ⊢
      rw [List.splitOn_eq_singleton hfree, List.foldlM_cons]
      refine bind_congr fun o => ?_
      rw [List.tail_nil, ih [] o (Nat.zero_le _)]
      rfl
    | cons c rest =>
      have hc : c = 44 := by
        have hne : p.dropWhile (· ≠ (44 : UInt8)) ≠ [] := by
          rw [hd]
          exact List.cons_ne_nil _ _
        have hnot := List.head_dropWhile_not (fun x => decide (x ≠ (44 : UInt8))) hne
        simp only [hd, List.head_cons] at hnot
        simpa using hnot
      rw [hd, hc] at hsplit
      have hlen := congrArg List.length hsplit
      rw [List.length_append, List.length_cons] at hlen
      rw [List.tail_cons, ← hsplit, List.splitOn_append_cons_self_of_not_mem hfree, List.foldlM_cons, hsplit]
      exact bind_congr fun o => ih rest o (by omega)

/-- The options of the text. -/
def optList (data : List UInt8) : List (List UInt8) := (data.takeWhile (· ≠ 0)).splitOn 44

theorem parseOpts_fold (data : List UInt8) : parseOpts data = (optList data).foldlM parseOpt {} :=
  parseLoop_eq _ _ _ (Nat.le_refl _)

/-! ## The last one counts -/

/-- What the last option with the key says. -/
def lastValue (key : List UInt8) (opts : List (List UInt8)) : Option Int :=
  (opts.filter (key.isPrefixOf ·)).getLast?.map fun opt => atoi (opt.drop key.length)

/-- A partition that is none of the four. -/
def BadPart (opt : List UInt8) : Prop := optPart.isPrefixOf opt ∧ (atoi (opt.drop 5) < 0 ∨ atoi (opt.drop 5) > 3)

instance : DecidablePred BadPart := fun _ => inferInstanceAs (Decidable (_ ∧ _))

def optValues (opts : List (List UInt8)) : MountOpts where
  partitionNum := (lastValue optPart opts).getD (-1)
  uid := ((lastValue optUid opts).getD 0 % 2 ^ 32).toNat
  gid := ((lastValue optGid opts).getD 0 % 2 ^ 32).toNat

theorem lastValue_concat (key : List UInt8) (opts : List (List UInt8)) (opt : List UInt8) :
    lastValue key (opts ++ [opt]) =
      if key.isPrefixOf opt then some (atoi (opt.drop key.length)) else lastValue key opts := by
  unfold lastValue
  rw [List.filter_append]
  by_cases h : key.isPrefixOf opt = true
  · rw [if_pos h, List.filter_cons_of_pos h, List.filter_nil, List.getLast?_concat]
    rfl
  · rw [if_neg h, List.filter_cons_of_neg h, List.filter_nil, List.append_nil]

theorem not_isPrefixOf {key key' : List UInt8} (hlen : key.length ≤ key'.length) (hne : ¬ key <+: key') (h : key'.isPrefixOf opt) :
    ¬ key.isPrefixOf opt := fun hkey =>
  hne (List.prefix_of_prefix_length_le (List.isPrefixOf_iff_prefix.mp hkey) (List.isPrefixOf_iff_prefix.mp h) hlen)

/-- One option more. -/
theorem parseOpt_values (opts : List (List UInt8)) (opt : List UInt8) :
    parseOpt (optValues opts) opt = if BadPart opt then .error .einval else .ok (optValues (opts ++ [opt])) := by
  unfold parseOpt optValues BadPart
  simp only [lastValue_concat]
  by_cases hpart : optPart.isPrefixOf opt = true
  · have hu : ¬ optUid.isPrefixOf opt = true := not_isPrefixOf (by decide) (by decide) hpart
    have hg : ¬ optGid.isPrefixOf opt = true := not_isPrefixOf (by decide) (by decide) hpart
    simp only [hpart, hu, hg, true_and, if_true, Option.getD_some]
    rfl
  · by_cases hu : optUid.isPrefixOf opt = true
    · have hg : ¬ optGid.isPrefixOf opt = true := not_isPrefixOf (by decide) (by decide) hu
      simp only [hpart, hu, hg]
      rfl
    · by_cases hg : optGid.isPrefixOf opt = true
      · simp only [hpart, hu, hg]
        rfl
      · simp only [hpart, hu, hg]
        rfl

/-- A setting that an option makes. -/
inductive Setting
  | part (n : Nat)
  | uid (n : Nat)
  | gid (n : Nat)
  /-- One that the driver does not know. -/
  | other (opt : List UInt8)

/-- A number in decimal. -/
def decimal (n : Nat) : List UInt8 :=
  if n = 0 then [48] else (Nat.digits 10 n).reverse.map fun d => UInt8.ofNat (48 + d)

namespace Setting

def text : Setting → List UInt8
  | part n => optPart ++ decimal n
  | uid n => optUid ++ decimal n
  | gid n => optGid ++ decimal n
  | other opt => opt

def set (o : MountOpts) : Setting → MountOpts
  | part n => { o with partitionNum := n }
  | uid n => { o with uid := n }
  | gid n => { o with gid := n }
  | other _ => o

/-- A setting that can be written: there are four partitions, the numbers are those of an `int`, and what is not known is
one option without a key. -/
def Valid : Setting → Prop
  | part n => n < 4
  | uid n => n < 2 ^ 31
  | gid n => n < 2 ^ 31
  | other opt => 44 ∉ opt ∧ 0 ∉ opt ∧ ¬ optPart <+: opt ∧ ¬ optUid <+: opt ∧ ¬ optGid <+: opt

end Setting

/-- The text of a list of settings. -/
def settingsText (ss : List Setting) : List UInt8 := [44].intercalate (ss.map Setting.text)

theorem digit_val {d : Nat} (hd : d < 10) : (UInt8.ofNat (48 + d)).toNat = 48 + d := by
  rw [UInt8.toNat_ofNat']
  exact Nat.mod_eq_of_lt (by omega)

theorem mem_decimal {n : Nat} {c : UInt8} (hc : c ∈ decimal n) : ∃ d < 10, c = UInt8.ofNat (48 + d) := by
  unfold decimal at hc
  by_cases h : n = 0
  · rw [if_pos h] at hc
    exact ⟨0, by omega, List.mem_singleton.mp hc⟩
  · rw [if_neg h] at hc
    obtain ⟨d, hd, rfl⟩ := List.mem_map.mp hc
    exact ⟨d, Nat.digits_lt_base (by omega) (List.mem_reverse.mp hd), rfl⟩

theorem isDigit_decimal {n : Nat} {c : UInt8} (hc : c ∈ decimal n) : isDigit c = true := by
  obtain ⟨d, hd, rfl⟩ := mem_decimal hc
  have hval := digit_val hd
  simp only [isDigit, decide_eq_true_eq, UInt8.le_iff_toNat_le, hval]
  exact ⟨Nat.le_add_right _ _, show 48 + d ≤ 57 by omega⟩

theorem digits_decimal (n : Nat) : digits (decimal n) = n := by
  unfold digits
  rw [List.takeWhile_eq_self_iff.mpr fun _ => isDigit_decimal]
  unfold decimal
  by_cases h : n = 0
  · rw [if_pos h, h]
    rfl
  · rw [if_neg h, List.foldl_map, List.foldl_reverse]
    have hfold (l : List Nat) (hl : ∀ d ∈ l, d < 10) :
        l.foldr (fun d n => 10 * n + ((UInt8.ofNat (48 + d)).toNat - 48)) 0 = Nat.ofDigits 10 l := by
      induction l with
      | nil => rfl
      | cons d l ih =>
        rw [List.foldr_cons, ih fun x hx => hl x (List.mem_cons_of_mem _ hx), digit_val (hl d List.mem_cons_self),
          Nat.ofDigits_cons]
        omega
    exact (hfold _ fun d hd => Nat.digits_lt_base (by omega) hd).trans (Nat.ofDigits_digits 10 n)

theorem atoi_decimal (n : Nat) : atoi (decimal n) = n := by
  cases hdec : decimal n with
  | nil =>
    unfold decimal at hdec
    by_cases h : n = 0
    · rw [if_pos h] at hdec
      cases hdec
    · rw [if_neg h, List.map_eq_nil_iff, List.reverse_eq_nil_iff] at hdec
      exact absurd (Nat.digits_eq_nil_iff_eq_zero.mp hdec) h
  | cons c cs =>
    obtain ⟨d, hd, rfl⟩ := mem_decimal (n := n) (hdec ▸ List.mem_cons_self)
    have hsign : atoi (UInt8.ofNat (48 + d) :: cs) = digits (UInt8.ofNat (48 + d) :: cs) := by
      interval_cases d <;> rfl
    rw [hsign, ← hdec, digits_decimal]

theorem not_mem_decimal {n : Nat} {c : UInt8} (hc : isDigit c = false) : c ∉ decimal n := fun hmem => by
  rw [isDigit_decimal hmem] at hc
  exact Bool.false_ne_true hc.symm

/-- No comma and no NUL is in the text of a setting. -/
theorem Setting.text_free {st : Setting} (h : st.Valid) : 44 ∉ st.text ∧ 0 ∉ st.text := by
  cases st with
  | part n => exact ⟨by simpa [text] using not_mem_decimal rfl, by simpa [text] using not_mem_decimal rfl⟩
  | uid n => exact ⟨by simpa [text] using not_mem_decimal rfl, by simpa [text] using not_mem_decimal rfl⟩
  | gid n => exact ⟨by simpa [text] using not_mem_decimal rfl, by simpa [text] using not_mem_decimal rfl⟩
  | other opt => exact ⟨h.1, h.2.1⟩

theorem isPrefixOf_append (key s : List UInt8) : key.isPrefixOf (key ++ s) = true :=
  List.isPrefixOf_iff_prefix.mpr (List.prefix_append key s)

theorem parseOpt_text {st : Setting} (h : st.Valid) (o : MountOpts) : parseOpt o st.text = .ok (st.set o) := by
  have hwrap {n : Nat} (hn : n < 2 ^ 31) : ((n : Int) % 2 ^ 32).toNat = n := by omega
  unfold parseOpt
  cases st with
  | part n =>
    have hn : n < 4 := h
    have hval : atoi ((optPart ++ decimal n).drop 5) = n := atoi_decimal n
    show (if optPart.isPrefixOf (optPart ++ decimal n) = true then _ else _) = _
    rw [if_pos (isPrefixOf_append _ _), Setting.text, hval, if_neg (by omega)]
    rfl
  | uid n =>
    have hval : atoi ((optUid ++ decimal n).drop 4) = n := atoi_decimal n
    show (if optPart.isPrefixOf (optUid ++ decimal n) = true then _ else _) = _
    rw [if_neg (by simp), Setting.text, if_pos (isPrefixOf_append _ _), hval, hwrap h]
    rfl
  | gid n =>
    have hval : atoi ((optGid ++ decimal n).drop 4) = n := atoi_decimal n
    show (if optPart.isPrefixOf (optGid ++ decimal n) = true then _ else _) = _
    rw [if_neg (by simp), Setting.text, if_neg (by simp), if_pos (isPrefixOf_append _ _), hval, hwrap h]
    rfl
  | other opt =>
    obtain ⟨-, -, hpart, huid, hgid⟩ := h
    rw [Setting.text, if_neg (mt List.isPrefixOf_iff_prefix.mp hpart), if_neg (mt List.isPrefixOf_iff_prefix.mp huid),
      if_neg (mt List.isPrefixOf_iff_prefix.mp hgid)]
    rfl

/-- What is written is read back. -/
theorem foldlM_text {ss : List Setting} (h : ∀ st ∈ ss, st.Valid) (o : MountOpts) :
    (ss.map Setting.text).foldlM parseOpt o = .ok (ss.foldl Setting.set o) := by
  induction ss generalizing o with
  | nil => rfl
  | cons st ss ih =>
    rw [List.map_cons, List.foldlM_cons, parseOpt_text (h st List.mem_cons_self)]
    exact ih (fun x hx => h x (List.mem_cons_of_mem _ hx)) _

theorem not_mem_intercalate {c : UInt8} (hc : c ≠ 44) {ls : List (List UInt8)} (h : ∀ l ∈ ls, c ∉ l) : c ∉ [44].intercalate ls := by
  induction ls with
  | nil => exact List.not_mem_nil
  | cons l ls ih =>
    have hl := h l List.mem_cons_self
    have hls := ih fun x hx => h x (List.mem_cons_of_mem _ hx)
    cases ls with
    | nil => rwa [List.intercalate_singleton]
    | cons l' ls =>
      rw [List.intercalate_cons_cons]
      simp only [List.mem_append, List.mem_singleton]
      rintro ((hmem | heq) | hmem)
      · exact hl hmem
      · exact hc heq
      · exact hls hmem

/-- What is written for a list of settings is read back. -/
theorem parseOpts_settings {ss : List Setting} (h : ∀ st ∈ ss, st.Valid) :
    parseOpts (settingsText ss) = .ok (ss.foldl Setting.set {}) := by
  have hnul : 0 ∉ settingsText ss := not_mem_intercalate (by decide) fun l hl => by
    obtain ⟨st, hst, rfl⟩ := List.mem_map.mp hl
    exact (Setting.text_free (h st hst)).2
  have hne : ∀ c ∈ settingsText ss, decide (c ≠ 0) = true := fun c hc => decide_eq_true fun heq => hnul (heq ▸ hc)
  rw [parseOpts_fold, optList, List.takeWhile_eq_self_iff.mpr hne]
  cases ss with
  | nil => rfl
  | cons st ss =>
    rw [settingsText, List.splitOn_intercalate _ (fun l hl => ?_) (by simp)]
    · exact foldlM_text h {}
    · obtain ⟨x, hx, rfl⟩ := List.mem_map.mp hl
      exact (Setting.text_free (h x hx)).1

/-! ## The mount command -/

/-- A word without a comma is in the text when it is in one of the options. -/
theorem infix_intercalate {w : List UInt8} (hw : w ≠ []) (hfree : 44 ∉ w) (ls : List (List UInt8)) :
    w <:+: [44].intercalate ls ↔ ∃ l ∈ ls, w <:+: l := by
  have hpre (x ys : List UInt8) : w <+: x ++ 44 :: ys ↔ w <+: x := by
    refine ⟨fun h => ?_, fun h => h.trans (List.prefix_append _ _)⟩
    by_cases hlen : w.length ≤ x.length
    · exact List.prefix_of_prefix_length_le h (List.prefix_append _ _) hlen
    · have hx : x ++ [44] <+: w := List.prefix_of_prefix_length_le ⟨ys, by simp⟩ h (by simp; omega)
      exact absurd (hx.subset (List.mem_append_right _ List.mem_cons_self)) hfree
  have happ (x ys : List UInt8) : w <:+: x ++ 44 :: ys ↔ w <:+: x ∨ w <:+: ys := by
    induction x with
    | nil =>
      rw [List.nil_append, List.infix_cons_iff, List.infix_nil]
      exact or_congr ((hpre [] ys).trans List.prefix_nil) Iff.rfl
    | cons c x ih =>
      rw [List.cons_append, List.infix_cons_iff, List.infix_cons_iff, ih, or_assoc]
      exact or_congr (hpre (c :: x) ys) Iff.rfl
  induction ls with
  | nil => simp [hw]
  | cons l ls ih =>
    cases ls with
    | nil => simp
    | cons l' ls =>
      rw [List.intercalate_cons_cons, List.append_assoc, List.singleton_append]
      refine (happ _ _).trans ((or_congr Iff.rfl ih).trans ?_)
      exact (List.exists_mem_cons_iff _ _ _).symm

/-- The settings and the two words that the command knows. -/
def Plain (st : Setting) : Prop := ∀ opt, st = .other opt → opt = optRo ∨ opt = optRw

theorem infix_text {c : UInt8} {w : List UInt8} (hw : c ∈ w) (hc : isDigit c = false) {st : Setting} (hst : w <:+: st.text) :
    (∃ opt, st = .other opt) ∨ c ∈ optPart ∨ c ∈ optUid ∨ c ∈ optGid := by
  have hmem := hst.subset hw
  cases st with
  | part n => exact .inr (.inl ((List.mem_append.mp hmem).resolve_right (not_mem_decimal hc)))
  | uid n => exact .inr (.inr (.inl ((List.mem_append.mp hmem).resolve_right (not_mem_decimal hc))))
  | gid n => exact .inr (.inr (.inr ((List.mem_append.mp hmem).resolve_right (not_mem_decimal hc))))
  | other opt => exact .inl ⟨opt, rfl⟩

theorem ro_iff {ss : List Setting} (h : ∀ st ∈ ss, Plain st) : optRo <:+: settingsText ss ↔ .other optRo ∈ ss := by
  rw [settingsText, infix_intercalate (by decide) (by decide)]
  refine ⟨fun hex => ?_, fun hmem => ⟨optRo, List.mem_map_of_mem hmem, List.infix_rfl⟩⟩
  obtain ⟨l, hl, hin⟩ := hex
  obtain ⟨st, hst, rfl⟩ := List.mem_map.mp hl
  obtain ⟨opt, rfl⟩ := (infix_text (c := 111) (by decide) rfl hin).resolve_right (by decide)
  obtain rfl | rfl := h _ hst opt rfl
  · exact hst
  · exact absurd hin (by decide)

theorem rw_iff {ss : List Setting} (h : ∀ st ∈ ss, Plain st) : optRw <:+: settingsText ss ↔ .other optRw ∈ ss := by
  rw [settingsText, infix_intercalate (by decide) (by decide)]
  refine ⟨fun hex => ?_, fun hmem => ⟨optRw, List.mem_map_of_mem hmem, List.infix_rfl⟩⟩
  obtain ⟨l, hl, hin⟩ := hex
  obtain ⟨st, hst, rfl⟩ := List.mem_map.mp hl
  obtain ⟨opt, rfl⟩ := (infix_text (c := 119) (by decide) rfl hin).resolve_right (by decide)
  obtain rfl | rfl := h _ hst opt rfl
  · exact absurd hin (by decide)
  · exact hst

/-- `mount_fat32 -o` with the text of the settings: the kernel reads them all, and `rw` wins over `ro` wherever it stands. -/
theorem mountArg_settings (c : MountCmd) {ss : List Setting} (h : ∀ st ∈ ss, st.Valid ∧ Plain st) (hlen : (settingsText ss).length < 256) :
    parseOpts (mountArg c (.o (settingsText ss))).mountData = .ok (ss.foldl Setting.set {}) ∧
      ((mountArg c (.o (settingsText ss))).rdonly = true ↔
        .other optRw ∉ ss ∧ (.other optRo ∈ ss ∨ c.rdonly = true)) := by
  have hplain : ∀ st ∈ ss, Plain st := fun st hst => (h st hst).2
  refine ⟨?_, ?_⟩
  · show parseOpts ((settingsText ss).take 255) = _
    rw [List.take_of_length_le (Nat.le_of_lt_succ hlen)]
    exact parseOpts_settings fun st hst => (h st hst).1
  · show (if optRw <:+: settingsText ss then false else if optRo <:+: settingsText ss then true else c.rdonly) = true ↔ _
    rw [← ro_iff hplain, ← rw_iff hplain]
    by_cases hrw : optRw <:+: settingsText ss
    · simp only [hrw, if_true, Bool.false_eq_true, not_true, false_and]
    · by_cases hro : optRo <:+: settingsText ss
      · simp only [hrw, hro, if_true, if_false, not_false_iff, true_and, true_or]
      · simp only [hrw, hro, if_false, not_false_iff, true_and, false_or]

/-- `part=2,uid=7,rw,ro`, after `-r`. -/
theorem mountArg_four :
    parseOpts (mountArg ⟨true, []⟩ (.o [112, 97, 114, 116, 61, 50, 44, 117, 105, 100, 61, 55, 44, 114, 119, 44, 114, 111])).mountData =
        .ok ⟨2, 7, 0⟩ ∧
      (mountArg ⟨true, []⟩ (.o [112, 97, 114, 116, 61, 50, 44, 117, 105, 100, 61, 55, 44, 114, 119, 44, 114, 111])).rdonly = false := by
  have hvalid : ∀ st ∈ [.part 2, .uid 7, .other optRw, .other optRo], st.Valid ∧ Plain st := by
    simp [Setting.Valid, Plain]
  have htext : settingsText [.part 2, .uid 7, .other optRw, .other optRo] =
      [112, 97, 114, 116, 61, 50, 44, 117, 105, 100, 61, 55, 44, 114, 119, 44, 114, 111] := by
    simp [settingsText, Setting.text, decimal]
  have hmain := mountArg_settings ⟨true, []⟩ hvalid (by rw [htext]; decide)
  rw [htext] at hmain
  exact ⟨hmain.1, by simpa using hmain.2⟩

end Fat32
