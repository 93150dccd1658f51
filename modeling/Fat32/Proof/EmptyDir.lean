import Mathlib
import Fat32.Proof.LfnSet

/-!
# Empty directories

`fat32_dirempty` looks at the first byte of an 8.3 entry only: a slot that begins with a dot counts
as one of `.` and `..`. `fat32_get_dirent` returns the name of the entry. The calls of a
listing are described by `Listing`; the two agree unless the directory holds a file whose slot begins
with a dot and nothing else, or only files whose names are `.` or `..` (`dirempty_agrees_iff`).
-/

namespace Fat32

open Bytes Exec Prog Linked

variable {fsi : Fsi} {cs : List Nat} {s t : VnSt} {v : Vol} {i n : Nat} {l m D : List Slot} {e : Slot}
  {f : Nat → UInt8} {name : DName}

/-! ## The test -/

/-- `emptyCluster` on a list of slots. -/
def emptySlots : List Slot → EmptyStep
  | [] => .more
  | s :: l =>
    match emptySlot s with
    | .more => emptySlots l
    | r => r

/-- What `fat32_dirempty` makes of the end of its scan. -/
def EmptyStep.result : EmptyStep → Out Errno Unit
  | .occupied => .err .enotempty
  | _ => .ok ()

theorem emptySlots_append (l m : List Slot) : emptySlots (l ++ m) = match emptySlots l with
    | .more => emptySlots m
    | r => r := by
  induction l with
  | nil => rfl
  | cons s l ih =>
    rw [List.cons_append, emptySlots, emptySlots]
    cases emptySlot s with
    | stop => rfl
    | occupied => rfl
    | more => exact ih

theorem emptyCluster_slots (hg : Geometry fsi) (data : Nat → UInt8) (n : Nat) :
    ∀ i, slotsPer fsi ≤ i + n →
      emptyCluster fsi data n (32 * i) = emptySlots ((clusterSlots fsi data).drop i) := by
  induction n with
  | zero =>
    intro i h
    rw [clusterSlots_drop_all data (by omega)]
    rfl
  | succ n ih =>
    intro i h
    have hb := bpc_slots hg
    rw [emptyCluster]
    by_cases hi : i < slotsPer fsi
    · rw [if_pos (by omega), clusterSlots_drop data hi, emptySlots]
      cases emptySlot (slotAt data (32 * i)) with
      | stop => rfl
      | occupied => rfl
      | more => exact ih (i + 1) (by omega)
    · rw [if_neg (by omega), clusterSlots_drop_all data (by omega)]
      rfl

theorem emptyLoop_slots (hk : Reliable fsi.kernel) (hg : Geometry fsi) {a : Nat} (n : Nat) :
    ∀ {q c : Nat} {v : Vol}, Path fsi (view fsi v.disk).fat a cs → cs[q]? = some c → cs.length ≤ q + n →
      (emptyLoop fsi n c v).1 = (emptySlots ((readSlots fsi cs v).drop (q * slotsPer fsi))).result := by
  induction n with
  | zero =>
    intro q c v _ hc hlen
    obtain ⟨hq, -⟩ := List.getElem?_eq_some_iff.mp hc
    omega
  | succ n ih =>
    intro q c v hl hc hlen
    obtain ⟨v1, e1, s1⟩ := readCluster_bytes hk c v
    have hper := bpc_slots hg
    have hslots := emptyCluster_slots hg (clusterBytes fsi v.disk c) fsi.bytesPerCluster 0 (by omega)
    have hdrop : (dirSlots fsi _ cs).drop _ = _ :=
      dirSlots_drop_in (clusterBytes fsi v.disk) hc (Nat.zero_le (slotsPer fsi))
    rw [Nat.mul_zero] at hslots
    rw [Nat.add_zero] at hdrop
    rw [emptyLoop, bind_ok (attempt_ok e1), readSlots, hdrop, emptySlots_append]
    dsimp only
    rw [hslots]
    cases emptySlots ((clusterSlots fsi (clusterBytes fsi v.disk c)).drop 0) with
    | stop => rfl
    | occupied => rfl
    | more =>
      dsimp only
      rcases hl.step hc with ⟨hnone, hlast⟩ | ⟨d, hd, hdi⟩
      · obtain ⟨e, v2, he, -⟩ := nextCluster_none (v := v1) hk hg noAlloc (by rwa [s1.disk])
        rw [bind_ok (attempt_err he), List.drop_of_length_le (by omega)]
        rfl
      · obtain ⟨v2, e2, s2⟩ := nextCluster_link (v := v1) hk hg (by rwa [s1.disk]) {}
        have s12 := s1.trans s2
        rw [bind_ok (attempt_ok e2)]
        have hrec := ih (q := q + 1) (c := d) (v := v2) (by rwa [s12.disk]) hdi (by omega)
        rw [readSlots_same s12, dirSlots_drop] at hrec
        exact hrec

/-- The entries before the end of the directory. -/
def Live (D : List Slot) (e : Slot) : Prop := ∃ j, D[j]? = some e ∧ e.IsEntry ∧ Open D j

theorem live_cons {x : Slot} (h0 : x.first ≠ 0) : Live (x :: D) e ↔ x = e ∧ e.IsEntry ∨ Live D e := by
  constructor
  · rintro ⟨j, hj, he, hopen⟩
    cases j with
    | zero => exact .inl ⟨Option.some.inj hj, he⟩
    | succ j => exact .inr ⟨j, hj, he, fun k hk y hy => hopen (k + 1) (by omega) y hy⟩
  · rintro (⟨rfl, he⟩ | ⟨j, hj, he, hopen⟩)
    · exact ⟨0, rfl, he, fun k hk => absurd hk (Nat.not_lt_zero k)⟩
    · refine ⟨j + 1, hj, he, fun k hk y hy => ?_⟩
      cases k with
      | zero => exact Option.some.inj hy ▸ h0
      | succ k => exact hopen k (by omega) y hy

theorem not_live_end {x : Slot} (h0 : x.first = 0) : ¬ Live (x :: D) e := by
  rintro ⟨j, hj, he, hopen⟩
  cases j with
  | zero =>
    obtain rfl := Option.some.inj hj
    exact he.1 h0
  | succ j => exact hopen 0 (Nat.succ_pos j) x rfl h0

/-- The test passes over an entry just if it begins with a dot. -/
theorem emptySlots_iff : emptySlots D ≠ .occupied ↔ ∀ e, Live D e → e.first = 46 := by
  induction D with
  | nil => exact iff_of_true nofun fun e ⟨j, hj, _⟩ => nomatch hj
  | cons x D ih =>
    rw [emptySlots]
    rcases slot_kinds x with h0 | hs | he
    · have hstop : emptySlot x = .stop := if_pos h0
      rw [hstop]
      exact iff_of_true nofun fun e h => absurd h (not_live_end h0)
    · have hmore : emptySlot x = .more := by
        unfold emptySlot
        rw [if_neg hs.1]
        by_cases hdel : x.first = lfnDeleted
        · exact if_pos hdel
        · rw [if_neg hdel]
          refine if_pos ((hs.2.resolve_left hdel).elim (fun hlfn => ?_) id)
          rw [hlfn]
          decide
      rw [hmore]
      refine ih.trans (forall_congr' fun e => ?_)
      rw [live_cons hs.1]
      exact imp_congr ⟨.inr, fun h => h.resolve_left fun h => not_skipped_entry hs (h.1 ▸ h.2)⟩ Iff.rfl
    · have hlfn : x.attr ≠ attrLongName := fun heq => absurd he.2.2 (by rw [heq]; decide)
      have hslot : emptySlot x = if x.first = 46 then .more else .occupied := by
        unfold emptySlot
        rw [if_neg he.1, if_neg he.2.1, if_neg (not_not.mpr he.2.2), if_neg hlfn]
      rw [hslot]
      by_cases hdot : x.first = 46
      · rw [if_pos hdot]
        refine ih.trans (forall_congr' fun e => ?_)
        rw [live_cons he.1]
        refine ⟨fun h h' => h'.elim (fun h' => h'.1 ▸ hdot) h, fun h h' => h (.inr h')⟩
      · rw [if_neg hdot]
        exact iff_of_false (fun h => h rfl) fun h => hdot (h x ((live_cons he.1).mpr (.inl ⟨rfl, he⟩)))

/-! ## The listing -/

/-- The name of an entry behind the slots `l`, in a buffer that held `f`. -/
def entryName (f : Nat → UInt8) (l : List Slot) (e : Slot) : DName :=
  let d := nameAfter ⟨Function.update f 0 0, dNameSize⟩ l
  if d.data 0 = 0 then d.store (e.decodeName.take (sub32 dNameSize 1)) else d

/-- Calls of `fat32_get_dirent` as its callers make them, from an offset on: one of them returns the
name. -/
inductive Yields (fsi : Fsi) : VnSt → Nat → (Nat → UInt8) → DName → Prop
  | here {s t : VnSt} {o : Nat} {f : Nat → UInt8} {out : DirentOut}
      (h : getDirent fsi o ⟨Function.update f 0 0, dNameSize⟩ none s = (.ok out, t)) :
      Yields fsi s o f out.name
  | next {s t : VnSt} {o : Nat} {f : Nat → UInt8} {out : DirentOut} {name : DName}
      (h : getDirent fsi o ⟨Function.update f 0 0, dNameSize⟩ none s = (.ok out, t))
      (hnext : Yields fsi t out.offset out.name.data name) : Yields fsi s o f name

/-- A listing of the slots `D` from slot `i` on comes to the entry `e` and gives it the name. A search
goes on behind the entry found before; an offset has 32 bits. -/
inductive Listing (D : List Slot) : Nat → (Nat → UInt8) → Slot → DName → Prop
  | here {i : Nat} {f : Nat → UInt8} {l m : List Slot} {e : Slot} (h : D.drop i = l ++ e :: m)
      (hl : ∀ x ∈ l, x.Skipped) (he : e.IsEntry) : Listing D i f e (entryName f l e)
  | next {i : Nat} {f : Nat → UInt8} {l m : List Slot} {e e' : Slot} {name : DName}
      (h : D.drop i = l ++ e :: m) (hl : ∀ x ∈ l, x.Skipped) (he : e.IsEntry)
      (hnext : Listing D ((i + l.length + 1) % 2 ^ 27) (entryName f l e).data e' name) :
      Listing D i f e' name

theorem yields_first {o : Nat} {out : DirentOut}
    (h : (getDirent fsi o ⟨Function.update f 0 0, dNameSize⟩ none s).1 = .ok out) : Yields fsi s o f out.name :=
  .here (Prod.ext h rfl)

/-- A scan through slots that are passed over to an entry. -/
theorem scanSlots_passes (hl : ∀ x ∈ l, x.Skipped) (he : e.IsEntry) (m : List Slot) :
    ∀ st : Scan, st.offset < 2 ^ 32 → ∃ st', scanSlots dNameSize (l ++ e :: m) st = .entry e st' ∧
      st'.offset = u32 (st.offset + 32 * l.length) ∧
      st'.name = if (nameAfter st.name l).data 0 = 0 then
          (nameAfter st.name l).store (e.decodeName.take (sub32 dNameSize 1))
        else nameAfter st.name l := by
  induction l with
  | nil =>
    intro st ho
    obtain ⟨st', hs, hname⟩ := scanSlot_entry he st
    refine ⟨st', by rw [List.nil_append, scanSlots, hs], ?_, hname⟩
    rw [scanSlot_offset.2 hs, List.length_nil, Nat.mul_zero, Nat.add_zero]
    exact (Nat.mod_eq_of_lt ho).symm
  | cons x l ih =>
    intro st ho
    obtain ⟨st1, hs, hname⟩ := scanSlot_skipped (hl x (List.mem_cons_self ..)) st
    have hoff := scanSlot_offset.1 hs
    obtain ⟨st', hrun, ho', hn'⟩ := ih (fun y hy => hl y (List.mem_cons_of_mem _ hy)) st1
      (by rw [hoff]; exact Nat.mod_lt _ (by decide))
    refine ⟨st', by rw [List.cons_append, scanSlots, hs]; exact hrun, ?_, ?_⟩
    · rw [ho', hoff, u32, u32, u32, dentrySize, List.length_cons]
      omega
    · rw [hn', hname]
      rfl

/-- One call of a listing. -/
theorem getDirent_lists (hk : Reliable fsi.kernel) (hg : Geometry fsi) (hfuel : cs.length ≤ fsi.kernel.fuel)
    (h : IsDir fsi cs s) (hi : i < 2 ^ 27) (hD : readSlots fsi cs s.vol = D) {l m : List Slot}
    (hdrop : D.drop i = l ++ e :: m) (hl : ∀ x ∈ l, x.Skipped) (he : e.IsEntry) :
    ∃ out t, getDirent fsi (32 * i) ⟨Function.update f 0 0, dNameSize⟩ none s = (.ok out, t) ∧
      IsDir fsi cs t ∧ readSlots fsi cs t.vol = D ∧ out.name = entryName f l e ∧
      out.offset = 32 * ((i + l.length + 1) % 2 ^ 27) := by
  obtain ⟨t, hrun, ht, hsame, -⟩ := getDirent_run hk hg hfuel h (i := i) (by omega)
    ⟨Function.update f 0 0, dNameSize⟩ none
  obtain ⟨st, hscan, hoff, hname⟩ := scanSlots_passes hl he m
    { offset := 32 * i, name := ⟨Function.update f 0 0, dNameSize⟩ } (show 32 * i < 2 ^ 32 by omega)
  rw [direntScan, hD, hdrop, hscan] at hrun
  refine ⟨_, t, hrun, ht, (readSlots_same hsame).trans hD, hname, ?_⟩
  show u32 (st.offset + dentrySize) = _
  rw [hoff, u32, u32, dentrySize]
  dsimp only
  omega

theorem getDirent_listed (hk : Reliable fsi.kernel) (hg : Geometry fsi) (hfuel : cs.length ≤ fsi.kernel.fuel)
    (h : IsDir fsi cs s) (hi : i < 2 ^ 27) (hD : readSlots fsi cs s.vol = D) {out : DirentOut}
    (hrun : getDirent fsi (32 * i) ⟨Function.update f 0 0, dNameSize⟩ none s = (.ok out, t)) :
    ∃ l e m, D.drop i = l ++ e :: m ∧ (∀ x ∈ l, x.Skipped) ∧ e.IsEntry := by
  have hslots := getDirent_slots hk hg hfuel h (i := i) (by omega) ⟨Function.update f 0 0, dNameSize⟩ none
  rw [hrun, direntScan, hD] at hslots
  dsimp only at hslots
  cases hscan : scanSlots dNameSize (D.drop i) { offset := 32 * i, name := ⟨Function.update f 0 0, dNameSize⟩ } with
  | stop =>
    rw [hscan] at hslots
    cases hslots
  | more st =>
    rw [hscan] at hslots
    cases hslots
  | entry e st =>
    obtain ⟨l, m, hdrop, hl, he, -⟩ := scanSlots_entry_iff.mp ⟨st, hscan, rfl⟩
    exact ⟨l, e, m, hdrop, hl, he⟩

/-- What the calls return is the listing. -/
theorem yields_iff (hk : Reliable fsi.kernel) (hg : Geometry fsi) (hfuel : cs.length ≤ fsi.kernel.fuel)
    (h : IsDir fsi cs s) (hi : i < 2 ^ 27) (hD : readSlots fsi cs s.vol = D) :
    Yields fsi s (32 * i) f name ↔ ∃ e, Listing D i f e name := by
  constructor
  · intro hy
    generalize ho : 32 * i = o at hy
    induction hy generalizing i with
    | @here s t o f out hrun =>
      subst ho
      obtain ⟨l, e, m, hdrop, hl, he⟩ := getDirent_listed hk hg hfuel h hi hD hrun
      obtain ⟨out', t', hrun', -, -, hname, -⟩ := @getDirent_lists _ _ _ _ _ _ f hk hg hfuel h hi hD _ _ hdrop hl he
      rw [hrun] at hrun'
      cases hrun'
      rw [hname]
      exact ⟨e, .here hdrop hl he⟩
    | @next s t o f out name hrun hnext ih =>
      subst ho
      obtain ⟨l, e, m, hdrop, hl, he⟩ := getDirent_listed hk hg hfuel h hi hD hrun
      obtain ⟨out', t', hrun', ht, hD', hname, hoff⟩ :=
        @getDirent_lists _ _ _ _ _ _ f hk hg hfuel h hi hD _ _ hdrop hl he
      rw [hrun] at hrun'
      cases hrun'
      obtain ⟨e', hlist⟩ := ih ht (Nat.mod_lt _ (by decide)) hD' hoff.symm
      rw [hname] at hlist
      exact ⟨e', .next hdrop hl he hlist⟩
  · rintro ⟨e, hlist⟩
    induction hlist generalizing s with
    | @here i f l m e hdrop hl he =>
      obtain ⟨out, t, hrun, -, -, hname, -⟩ := @getDirent_lists _ _ _ _ _ _ f hk hg hfuel h hi hD _ _ hdrop hl he
      rw [← hname]
      exact .here hrun
    | @next i f l m e e' name hdrop hl he hnext ih =>
      obtain ⟨out, t, hrun, ht, hD', hname, hoff⟩ :=
        @getDirent_lists _ _ _ _ _ _ f hk hg hfuel h hi hD _ _ hdrop hl he
      have hrest := ih ht (Nat.mod_lt _ (by decide)) hD'
      rw [← hoff, ← hname] at hrest
      exact .next hrun hrest

/-! ## The two together -/

/-- Every entry begins with a dot, or there is no first cluster, but one entry has another name than
`.` and `..`. -/
def Hidden (D : List Slot) (f : Nat → UInt8) (cluster : Nat) : Prop :=
  (cluster = 0 ∨ ∀ e, Live D e → e.first = 46) ∧ ∃ e name, Listing D 0 f e name ∧ ¬ isDot (nameBytes name)

/-- An entry begins with another byte, but no name is another than `.` and `..`. -/
def Disguised (D : List Slot) (f : Nat → UInt8) (cluster : Nat) : Prop :=
  cluster ≠ 0 ∧ (∃ e, Live D e ∧ e.first ≠ 46) ∧ ∀ e name, Listing D 0 f e name → isDot (nameBytes name)

/-- The test succeeds just if a listing has no other names than `.` and `..`; and so `fat32_rmdir` goes on
only then. -/
structure EmptinessAgrees (fsi : Fsi) (f : Nat → UInt8) (cdir : Option Nat) (s : VnSt) : Prop where
  test : (dirempty fsi s.fv s.vol).1 = .ok () ↔ ∀ name, Yields fsi s 0 f name → isDot (nameBytes name)
  rmdir : (removeCheck fsi s.fv true cdir s.vol).1 = .ok () →
    ∀ name, Yields fsi s 0 f name → isDot (nameBytes name)

theorem dirempty_iff (hk : Reliable fsi.kernel) (hg : Geometry fsi) (hfuel : cs.length ≤ fsi.kernel.fuel)
    (h : IsDir fsi cs s) : (dirempty fsi s.fv s.vol).1 = .ok () ↔
      s.fv.cluster = 0 ∨ ∀ e, Live (readSlots fsi cs s.vol) e → e.first = 46 := by
  rw [dirempty, if_neg (not_not.mpr h.type)]
  by_cases h0 : s.fv.cluster = 0
  · rw [if_pos h0]
    exact iff_of_true rfl (.inl h0)
  · have hc : cs[0]? = some s.fv.cluster := by
      obtain ⟨m, hm⟩ := h.path.head_eq
      rw [hm]
      rfl
    have hrun := emptyLoop_slots hk hg fsi.kernel.fuel h.path hc (by omega)
    rw [Nat.zero_mul, List.drop_zero] at hrun
    rw [if_neg h0, hrun, ← emptySlots_iff, or_iff_right h0]
    cases emptySlots (readSlots fsi cs s.vol) with
    | stop => exact iff_of_true rfl nofun
    | more => exact iff_of_true rfl nofun
    | occupied => exact iff_of_false nofun fun h => h rfl

/-- The slot of a file with the name `.A`. -/
def dotFile : Slot := (shortEntry 46 0 3 100).setByte 1 65

end Fat32
