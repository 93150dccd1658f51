import Mathlib
import Fat32.Proof.SlotAlloc
import Fat32.Proof.ShortName
import Fat32.Proof.Tidy

/-!
# Writing an entry

`fat32_create_fdentry` writes the long name entries of a name, numbered downwards, and behind them the 8.3
entry (`entrySet`): a complete set and its entry. They fill the slots that `fat32_alloc_fdentry` found, and
the vnode gets their place (`createFdentry_entry`).
-/

namespace Fat32

open Bytes Exec Prog Linked FirstFit

variable {fsi : Fsi} {cs : List Nat} {D W l : List Slot} {v v' : Vol} {a i k n : Nat} {name : List UInt8}

/-! ## The slots of an entry -/

/-- The long name entries with the numbers `i` to 1. -/
def lfnSet (name : List UInt8) (sum : UInt8) : Nat → List Slot
  | 0 => []
  | i + 1 => lfnEntry name sum (i + 1) :: lfnSet name sum i

/-- The long name entries in front of the 8.3 entry `d83`. -/
def entrySet (name : List UInt8) (d83 : Dirent83) : List Slot :=
  if nameIsShort name then [] else lfnSet name (checksum d83.name) (numLfn name)

theorem length_lfnSet (name : List UInt8) (sum : UInt8) (i : Nat) : (lfnSet name sum i).length = i := by
  induction i with
  | zero => rfl
  | succ i ih => rw [lfnSet, List.length_cons, ih]

theorem length_entrySet (name : List UInt8) (d83 : Dirent83) : (entrySet name d83).length + 1 = nameSlots name := by
  unfold entrySet nameSlots
  by_cases h : nameIsShort name = true
  · rw [if_pos h, if_pos h]
    rfl
  · rw [if_neg h, if_neg h, length_lfnSet, numLfn]

/-- What the number of a long name entry is stored as. -/
theorem sequence_number : ∀ i < 32, (UInt8.ofNat i &&& lfnSeqMask).toNat = i ∧ UInt8.ofNat i &&& lfnLast = 0 ∧
    ((UInt8.ofNat i ||| lfnLast) &&& lfnSeqMask).toNat = i ∧ (UInt8.ofNat i ||| lfnLast) &&& lfnLast ≠ 0 ∧
    UInt8.ofNat i ≠ lfnDeleted ∧ UInt8.ofNat i ||| lfnLast ≠ lfnDeleted := by decide

theorem lfnEntry_seqNum {sum : UInt8} (hi : i < 32) : (lfnEntry name sum i).IsLfn ∧ (lfnEntry name sum i).seqNum = i ∧
    ((lfnEntry name sum i).Last ↔ i = numLfn name) := by
  obtain ⟨hseq, hnot, hseq', hlast, hdel, hdel'⟩ := sequence_number i hi
  by_cases h : i = numLfn name
  · have hbyte : (lfnEntry name sum i).sequence = UInt8.ofNat i ||| lfnLast := if_pos h
    refine ⟨⟨?_, rfl⟩, ?_, iff_of_true ?_ h⟩
    · rwa [show (lfnEntry name sum i).first = _ from hbyte]
    · rw [Slot.seqNum, hbyte, hseq']
    · rwa [Slot.Last, hbyte]
  · have hbyte : (lfnEntry name sum i).sequence = UInt8.ofNat i := if_neg h
    refine ⟨⟨?_, rfl⟩, ?_, iff_of_false ?_ h⟩
    · rwa [show (lfnEntry name sum i).first = _ from hbyte]
    · rw [Slot.seqNum, hbyte, hseq]
    · rw [Slot.Last, hbyte, hnot]
      exact fun h => h rfl

theorem lfnSet_numbered {sum : UInt8} : ∀ {i : Nat}, i < 32 → Numbered i (lfnSet name sum i)
  | 0, _ => rfl
  | _ + 1, hi => ⟨(lfnEntry_seqNum hi).1, (lfnEntry_seqNum hi).2.1, lfnSet_numbered (by omega)⟩

theorem lfnSet_mem {sum : UInt8} {s : Slot} : ∀ {i : Nat}, s ∈ lfnSet name sum i → ∃ j, 1 ≤ j ∧ j ≤ i ∧ s = lfnEntry name sum j
  | i + 1, h => by
    rcases List.mem_cons.mp h with rfl | h
    · exact ⟨i + 1, by omega, le_refl _, rfl⟩
    · obtain ⟨j, h1, hj, rfl⟩ := lfnSet_mem h
      exact ⟨j, h1, by omega, rfl⟩

theorem lfnEntry_checksum (name : List UInt8) (sum : UInt8) (i : Nat) : (lfnEntry name sum i).checksum = sum := rfl

theorem toSlot_name (d83 : Dirent83) : d83.toSlot.name = d83.name := by
  funext i
  exact dif_pos i.isLt

/-- The long name entries are a complete set. -/
theorem lfnSet_complete {d83 : Dirent83} (h0 : numLfn name ≠ 0) (hn : numLfn name < 32) :
    CompleteSet (lfnSet name (checksum d83.name) (numLfn name)) d83.toSlot := by
  obtain ⟨n, hn'⟩ := Nat.exists_eq_succ_of_ne_zero h0
  refine ⟨by rw [length_lfnSet]; exact lfnSet_numbered hn, fun h => ?_, fun s hs => ?_, fun s hs => ?_, fun s hs => ?_⟩
  · have hlen := congrArg List.length h
    rw [length_lfnSet] at hlen
    exact h0 hlen
  · rw [hn', lfnSet, List.head?_cons, Option.mem_some_iff] at hs
    rw [← hs]
    exact (lfnEntry_seqNum (by omega)).2.2.mpr hn'.symm
  · rw [hn', lfnSet, List.tail_cons] at hs
    obtain ⟨j, -, hj, rfl⟩ := lfnSet_mem hs
    rw [(lfnEntry_seqNum (by omega)).2.2]
    omega
  · obtain ⟨j, -, -, rfl⟩ := lfnSet_mem hs
    rw [lfnEntry_checksum, toSlot_name]

/-- The name of a file: characters of seven bits, at most 255. -/
structure SevenBit (name : List UInt8) : Prop where
  chars : ∀ c ∈ name, c ≠ 0 ∧ c < 128
  short : name.length ≤ maxName

theorem SevenBit.numLfn_lt (h : SevenBit name) : numLfn name < 32 := by
  have hlen := h.short
  simp only [maxName] at hlen
  rw [numLfn]
  omega

theorem nameSlots_le (h : name.length ≤ maxName) : 1 ≤ nameSlots name ∧ nameSlots name ≤ 21 := by
  simp only [maxName] at h
  unfold nameSlots
  split <;> omega

/-- The first byte of the 8.3 name is not one of the two marks. -/
theorem SevenBit.first (h : SevenBit name) (c o : Nat) (d83 : Dirent83)
    (hd : d83.name = if nameIsShort name then formatShort name else generateShortName c o) :
    d83.toSlot.first ≠ 0 ∧ d83.toSlot.first ≠ lfnDeleted := by
  have hfirst : d83.toSlot.first = d83.name 0 := congrFun (toSlot_name d83) 0
  rw [hfirst, hd]
  split
  · have hbase : formatShort name 0 = (name.takeWhile (· ≠ 46)).getD 0 32 := rfl
    rw [hbase]
    cases hw : name.takeWhile (· ≠ 46) with
    | nil => decide
    | cons x xs =>
      have hx : x ∈ name := (List.takeWhile_sublist _).subset (hw ▸ List.mem_cons_self ..)
      obtain ⟨h0, h7⟩ := h.chars x hx
      refine ⟨h0, fun hdel => ?_⟩
      rw [show (x :: xs).getD 0 32 = x from rfl] at hdel
      rw [hdel] at h7
      exact absurd h7 (by decide)
  · obtain ⟨h0, hdel, -⟩ := generateShortName_char c o 0
    exact ⟨h0, hdel⟩

/-- The attributes of a new entry. -/
theorem createDirent_attr (flags : CreFlags) (hf : flags.rename = false) (fv : Fv) (nm : Fin 11 → UInt8) (c : Nat)
    (now : Timespec) : (createDirent flags fv nm c now).toSlot.attr &&& attrVolumeId = 0 := by
  have hattr : (createDirent flags fv nm c now).toSlot.attr = (if flags.dir then attrDirectory else 0) |||
      (if fv.mode &&& sIwusr = 0 then attrReadOnly else 0) := by
    show (if flags.rename then _ else _) = _
    rw [hf]
    rfl
  rw [hattr]
  split <;> split <;> decide

/-! ## Slots in a row -/

/-- The slots from `k` on replaced by `W`. -/
def putSlots : List Slot → Nat → List Slot → List Slot
  | D, _, [] => D
  | D, k, w :: W => putSlots (D.set k w) (k + 1) W

theorem length_putSlots (W : List Slot) : ∀ (D : List Slot) (k : Nat), (putSlots D k W).length = D.length := by
  induction W with
  | nil => exact fun _ _ => rfl
  | cons w W ih => exact fun D k => by rw [putSlots, ih, List.length_set]

theorem putSlots_append (W l : List Slot) : ∀ (D : List Slot) (k : Nat),
    putSlots D k (W ++ l) = putSlots (putSlots D k W) (k + W.length) l := by
  induction W with
  | nil => exact fun _ _ => rfl
  | cons w W ih =>
    intro D k
    rw [List.cons_append, putSlots, putSlots, ih, List.length_cons, Nat.add_assoc, Nat.add_comm 1]

/-- The other slots stay. -/
theorem putSlots_other (W : List Slot) : ∀ (D : List Slot) {k i : Nat}, i < k ∨ k + W.length ≤ i →
    (putSlots D k W)[i]? = D[i]? := by
  induction W with
  | nil => exact fun _ _ _ _ => rfl
  | cons w W ih =>
    intro D k i h
    rw [List.length_cons] at h
    rw [putSlots, ih _ (by omega), List.getElem?_set_ne (by omega)]

theorem take_putSlots (W : List Slot) : ∀ (D : List Slot) {k : Nat}, k + W.length ≤ D.length →
    (putSlots D k W).take (k + W.length) = D.take k ++ W := by
  induction W with
  | nil => exact fun _ _ _ => (List.append_nil _).symm
  | cons w W ih =>
    intro D k h
    rw [List.length_cons] at h
    have hset : (D.set k w).take (k + 1) = D.take k ++ [w] := by
      rw [List.take_add_one, List.take_set_of_le (Nat.le_refl k), List.getElem?_set_self (by omega)]
      rfl
    rw [putSlots, List.length_cons, show k + (W.length + 1) = k + 1 + W.length by omega,
      ih _ (by rw [List.length_set]; omega), hset, List.append_assoc]
    rfl

/-! ## Writing them -/

/-- A directory of less than 4 GiB, or one that has the slots before `m`, and these are below 4 GiB. -/
def Covers (D : List Slot) (m : Nat) : Prop := 32 * D.length < 2 ^ 32 ∨ m ≤ D.length ∧ 32 * m ≤ 2 ^ 32

/-- A slot that is written is inside. -/
theorem writeFdentry_inside (hk : Reliable fsi.kernel) (hg : Geometry fsi) (hl : FatChain fsi (view fsi v.disk).fat a cs)
    {s : Slot} {m : Nat} (hc : Covers (volSlots fsi cs v) m) (hkm : k < m) (hkl : k ≤ (volSlots fsi cs v).length)
    (h : writeFdentry fsi a (u32 (32 * k)) s v = (.ok (), v')) :
    k < (volSlots fsi cs v).length ∧ Edited fsi cs ((volSlots fsi cs v).set k s) v v' := by
  have hoff : u32 (32 * k) = 32 * k := Nat.mod_eq_of_lt (by
    rcases hc with hc | ⟨hc, hc4⟩ <;> omega)
  rw [hoff] at h
  by_cases hin : k < (volSlots fsi cs v).length
  · obtain ⟨v1, e1, E⟩ := writeFdentry_slots hk hg hl hin s
    obtain ⟨-, rfl⟩ := Prod.mk.inj (h.symm.trans e1)
    exact ⟨hin, E⟩
  · -- there is no cluster for it
    have hq : cs.length ≤ k / slotsPer fsi := not_lt.mp fun hq => hin ((slot_cluster_lt hg).mpr hq)
    have h0 : cs[0]? = some a := by
      obtain ⟨t, rfl⟩ := hl.head_eq
      rfl
    obtain ⟨v1, -, ⟨c, -, hc⟩ | ⟨e, -⟩⟩ := seekLoop_read hk hg noAlloc (k / slotsPer fsi) hl h0
    · rw [Nat.zero_add] at hc
      obtain ⟨hlt, -⟩ := List.getElem?_eq_some_iff.mp hc
      omega
    · rw [← seekCluster_eq] at e
      rw [writeFdentry] at h
      simp only [slot_cluster hg, slot_offset hg] at h
      rw [bind_err e] at h
      cases h

theorem Edited.putSlots_next {s : Slot} {v'' : Vol} (E : Edited fsi cs ((volSlots fsi cs v).set k s) v v')
    (E' : Edited fsi cs (putSlots (volSlots fsi cs v') (k + 1) W) v' v'') :
    Edited fsi cs (putSlots (volSlots fsi cs v) k (s :: W)) v v'' := by
  have h := E.trans E'
  rwa [E.slots] at h

/-- The long name entries are written one behind the other. -/
theorem lfnLoop_inside (hk : Reliable fsi.kernel) (hg : Geometry fsi) {sum : UInt8} {m : Nat} (hm : k + numLfn name < m) :
    ∀ {i : Nat} {v : Vol}, i ≤ numLfn name → FatChain fsi (view fsi v.disk).fat a cs → Covers (volSlots fsi cs v) m →
      k + (numLfn name - i) ≤ (volSlots fsi cs v).length →
      lfnLoop fsi a (32 * k) name sum i v = (.ok (), v') →
      k + numLfn name ≤ (volSlots fsi cs v).length ∧
        Edited fsi cs (putSlots (volSlots fsi cs v) (k + (numLfn name - i)) (lfnSet name sum i)) v v'
  | 0, v, _, _, _, hkl, h => by
    cases h
    exact ⟨hkl, .of_same (.refl _)⟩
  | i + 1, v, hi, hl, hc, hkl, h => by
    rw [lfnLoop] at h
    have hoff : 32 * k + (numLfn name - (i + 1)) * dentrySize = 32 * (k + (numLfn name - (i + 1))) := by
      rw [dentrySize, Nat.mul_add, Nat.mul_comm (numLfn name - (i + 1))]
    rw [hoff] at h
    rcases hw : writeFdentry fsi a (u32 (32 * (k + (numLfn name - (i + 1))))) (lfnEntry name sum (i + 1)) v
      with ⟨_ | e | _, v1⟩
    · rw [bind_ok hw] at h
      obtain ⟨hin, E⟩ := writeFdentry_inside hk hg hl hc (by omega) hkl hw
      have hlen : (volSlots fsi cs v1).length = (volSlots fsi cs v).length := by rw [E.slots, List.length_set]
      have hnext : k + (numLfn name - (i + 1)) + 1 = k + (numLfn name - i) := by omega
      have hc1 : Covers (volSlots fsi cs v1) m := by rwa [Covers, hlen]
      obtain ⟨hall, E'⟩ := lfnLoop_inside hk hg hm (by omega) (E.chain hl) hc1 (by omega) h
      rw [← hnext] at E'
      exact ⟨hlen ▸ hall, E.putSlots_next E'⟩
    · rw [bind_err hw] at h
      cases h
    · rw [bind_run, hw] at h
      cases h

/-- A written entry is inside. -/
theorem writeEntry_inside (hk : Reliable fsi.kernel) (hg : Geometry fsi) (hl : FatChain fsi (view fsi v.disk).fat a cs)
    {d83 : Dirent83} (hc : Covers (volSlots fsi cs v) (k + nameSlots name)) (hkl : k ≤ (volSlots fsi cs v).length)
    (hk32 : 32 * k < 2 ^ 32)
    (h : (if nameIsShort name then writeFdentry fsi a (32 * k) d83.toSlot
      else writeLfnFdentry fsi a (32 * k) d83 name) v = (.ok (), v')) :
    k + nameSlots name ≤ (volSlots fsi cs v).length ∧
      Edited fsi cs (putSlots (volSlots fsi cs v) k (entrySet name d83 ++ [d83.toSlot])) v v' := by
  have hoff : 32 * k = u32 (32 * k) := (Nat.mod_eq_of_lt hk32).symm
  unfold entrySet nameSlots at *
  by_cases hs : nameIsShort name = true
  · rw [if_pos hs] at h hc ⊢
    rw [if_pos hs, List.nil_append]
    rw [hoff] at h
    exact writeFdentry_inside hk hg hl hc (Nat.lt_succ_self k) hkl h
  · rw [if_neg hs] at h hc ⊢
    rw [if_neg hs, putSlots_append, length_lfnSet]
    have hnum : numLfn name = (name.length + 12) / 13 := rfl
    rw [← hnum, ← Nat.add_assoc] at hc ⊢
    rw [writeLfnFdentry] at h
    rcases hloop : lfnLoop fsi a (32 * k) name (checksum d83.name) (numLfn name) v with ⟨_ | e | _, v1⟩
    · rw [bind_ok hloop] at h
      obtain ⟨hall, E⟩ := lfnLoop_inside hk hg (Nat.lt_succ_self _) (le_refl _) hl hc (by omega) hloop
      rw [Nat.sub_self, Nat.add_zero] at E
      have hlen : (volSlots fsi cs v1).length = (volSlots fsi cs v).length := by rw [E.slots, length_putSlots]
      have hoff' : 32 * k + numLfn name * dentrySize = 32 * (k + numLfn name) := by
        rw [dentrySize, Nat.mul_add, Nat.mul_comm (numLfn name)]
      rw [hoff'] at h
      have hc1 : Covers (volSlots fsi cs v1) (k + numLfn name + 1) := by rwa [Covers, hlen]
      obtain ⟨hin, E'⟩ := writeFdentry_inside hk hg (E.chain hl) hc1 (Nat.lt_succ_self _) (by omega) h
      rw [E.slots] at E'
      exact ⟨by omega, E.trans E'⟩
    · rw [bind_err hloop] at h
      cases h
    · rw [bind_run, hloop] at h
      cases h

/-! ## The whole call -/

theorem volSlots_congr (h : ∀ c ∈ cs, (view fsi v'.disk).data c = (view fsi v.disk).data c) :
    volSlots fsi cs v' = volSlots fsi cs v :=
  List.flatMap_congr fun c hc => by rw [h c hc]

/-- A new directory gets its cluster, and the old one keeps its own and their slots. -/
theorem createCluster_keeps (hk : Reliable fsi.kernel) (hg : Geometry fsi) (hl : FatChain fsi (view fsi v.disk).fat a cs)
    {flags : CreFlags} (hf : flags.rename = false) (d : Nat) (fv : Fv) :
    WP (createCluster fsi d flags fv) v fun r v' => ∀ c, r = .ok c →
      FatChain fsi (view fsi v'.disk).fat a cs ∧ volSlots fsi cs v' = volSlots fsi cs v ∧ (flags.dir = false → c = 0) := by
  unfold createCluster
  refine .ite (fun h => absurd h (by rw [hf]; decide)) fun _ => .ite (fun hdir => ?_) fun _ =>
    .of_run (pure_run _ _) fun c hc => ⟨hl, rfl, fun _ => (Out.ok.inj hc).symm⟩
  obtain ⟨v1, ⟨e1, -⟩ | ⟨r, e1, A⟩⟩ :=
    nextCluster_grown_zero hk hg (rfl : ({ alloc := true, clear := true } : NcFlags).alloc = true) v
  · exact .err_bind e1 fun _ h => nomatch h
  · have g := A.grown_zero
    have haway : ∀ c ∈ cs, c ∉ [r] := fun c hc hr => by
      rw [List.mem_singleton.mp hr] at hc
      exact hl.ne_zero r hc A.free
    have hl1 : FatChain fsi (view fsi v1.disk).fat a cs :=
      hl.congr fun c hc => g.fat c List.not_mem_nil (haway c hc)
    have hs1 : volSlots fsi cs v1 = volSlots fsi cs v := volSlots_congr fun c hc => g.data c (.inl (haway c hc))
    obtain ⟨d1, d2, v2, e2, E⟩ := initDir_slots hk hg g.chain d
    refine .ok_bind e1 (.ok_bind e2 (.of_run (pure_run _ _) fun _ _ => ⟨E.chain hl1, ?_, fun hno => ?_⟩))
    · rw [volSlots_congr fun c hc => E.data c (haway c hc), hs1]
    · exact absurd hdir (by rw [hno]; decide)

/-- The vnode that is made: without flags, but for the root. -/
theorem makeVnode_made {cluster : Nat} {type : Vtype} {fv fv' : Fv} {parent : Option (Nat × Nat)}
    (h : makeVnode fsi cluster type fv parent v = (.ok fv', v')) : ∃ vp mode, fv' = { fv with
      vnode := some vp
      cluster := cluster
      type := type
      parentVp := parent.map Prod.fst
      parentCluster := (parent.map Prod.snd).getD 0
      flags := if cluster = fsi.rootCluster ∧ type = .vdir then { fv.flags with root := true } else {}
      mode := mode
      uid := fsi.uid
      gid := fsi.gid } := by
  unfold makeVnode at h
  rw [bind_run] at h
  rcases hv : vnAlloc fsi v with ⟨(_ | vp) | _ | _, v1⟩ <;> rw [hv] at h
  · exact nomatch h
  · refine ⟨vp, fv'.mode, ?_⟩
    rw [← Out.ok.inj (Prod.mk.inj h).1]
    simp only [decide_eq_true_eq]
  · exact nomatch h
  · exact nomatch h

theorem makeVnode_identity {cluster : Nat} {type : Vtype} {fv fv' : Fv} {parent : Option (Nat × Nat)}
    (h : makeVnode fsi cluster type fv parent v = (.ok fv', v')) :
    fv'.identity = ⟨(parent.map Prod.snd).getD 0, fv.diroff, fv.dirsz⟩ := by
  obtain ⟨vp, mode, rfl⟩ := makeVnode_made h
  rfl

theorem makeVnode_root {cluster : Nat} {type : Vtype} {fv fv' : Fv} {parent : Option (Nat × Nat)}
    (h : makeVnode fsi cluster type fv parent v = (.ok fv', v')) :
    fv'.flags.root = true → fv'.type = .vdir ∧ fv'.cluster = fsi.rootCluster := by
  obtain ⟨vp, mode, rfl⟩ := makeVnode_made h
  intro hroot
  by_cases his : cluster = fsi.rootCluster ∧ type = .vdir
  · exact ⟨his.2, his.1⟩
  · dsimp only at hroot
    rw [if_neg his] at hroot
    cases hroot

/-- A directory has got the entry `x` for the name: in free slots, the others are the same, and up to it the
directory is tidy. -/
structure NewEntry (fsi : Fsi) (d : Nat) (cs cs' : List Nat) (name : List UInt8) (x : DirEntry) (v v' : Vol) : Prop where
  chain : FatChain fsi (view fsi v'.disk).fat d cs'
  slots : x.set.length + 1 = nameSlots name
  free : Window (FreeAt (volSlots fsi cs v)) (nameSlots name) x.start
  kept : ∀ i s, i < x.start ∨ x.slot < i → (volSlots fsi cs v)[i]? = some s → (volSlots fsi cs' v')[i]? = some s
  tidy : ∃ es, Tidy 0 ((volSlots fsi cs' v').take (x.slot + 1)) (es ++ [x])

theorem NewEntry.of_same {d : Nat} {cs' : List Nat} {x : DirEntry} {v'' : Vol} (h : NewEntry fsi d cs cs' name x v v')
    (hs : Same v' v'') : NewEntry fsi d cs cs' name x v v'' := by
  obtain ⟨chain, slots, free, kept, tidy⟩ := h
  rw [← volSlots_same hs] at kept tidy
  rw [← hs.disk] at chain
  exact ⟨chain, slots, free, kept, tidy⟩

theorem NewEntry.before {d : Nat} {cs' : List Nat} {x : DirEntry} {v'' : Vol} (h : NewEntry fsi d cs cs' name x v' v'')
    (hs : Same v v') : NewEntry fsi d cs cs' name x v v'' := by
  obtain ⟨chain, slots, free, kept, tidy⟩ := h
  rw [volSlots_same hs] at free kept
  exact ⟨chain, slots, free, kept, tidy⟩

/-- The slots before a first fit have not ended the directory. -/
theorem first_open (h : First (FreeAt D) n k) : Open D k := by
  intro j hj x hx h0
  refine h.least j hj fun m _ => .inr ⟨j, Nat.le_add_right j m, fun y hy => ?_⟩
  rwa [Option.some.inj (hy.symm.trans hx)]

/-- A first fit begins with a free slot. -/
theorem first_free (h : First (FreeAt D) n k) (hn : 0 < n) (x : Slot) (hx : D[k]? = some x) :
    x.first = 0 ∨ x.first = lfnDeleted := by
  rcases h.window 0 hn with ⟨y, hy, hdel⟩ | ⟨j, hj, hend⟩
  · rw [Nat.add_zero, hx] at hy
    exact .inr (Option.some.inj hy ▸ hdel)
  · rw [Nat.add_zero] at hj
    rcases hj.lt_or_eq with hlt | rfl
    · obtain ⟨hkl, -⟩ := List.getElem?_eq_some_iff.mp hx
      have hj' : D[j]? = some D[j] := List.getElem?_eq_getElem (by omega)
      exact absurd (hend _ hj') (first_open h j hlt _ hj')
    · exact .inl (hend x hx)

/-- The written entry, in a directory that was tidy. -/
theorem newEntry_of_written {d83 : Dirent83} {d : Nat} {cs' : List Nat} {Z : List Slot}
    {es : List DirEntry} (hname : SevenBit name) (he : d83.toSlot.IsEntry) (htidy : Tidy 0 (volSlots fsi cs v) es)
    (hfirst : First (FreeAt (volSlots fsi cs v)) (nameSlots name) k)
    (hl : FatChain fsi (view fsi v'.disk).fat d cs')
    (hin : k + nameSlots name ≤ (volSlots fsi cs v ++ Z).length)
    (hslots : volSlots fsi cs' v' = putSlots (volSlots fsi cs v ++ Z) k (entrySet name d83 ++ [d83.toSlot])) :
    NewEntry fsi d cs cs' name ⟨k + (entrySet name d83).length, entrySet name d83, d83.toSlot⟩ v v' := by
  have hset := length_entrySet name d83
  have hle := first_le hfirst
  have hlen : (entrySet name d83 ++ [d83.toSlot]).length = nameSlots name := by
    rw [List.length_append, ← hset]
    rfl
  have hstart : (⟨k + (entrySet name d83).length, entrySet name d83, d83.toSlot⟩ : DirEntry).start = k :=
    Nat.add_sub_cancel _ _
  refine ⟨hl, hset, by rw [hstart]; exact hfirst.window, fun i s hi hs => ?_, ?_⟩
  · obtain ⟨hlt, -⟩ := List.getElem?_eq_some_iff.mp hs
    rw [hstart] at hi
    dsimp only at hi
    rw [hslots, putSlots_other _ _ (by rw [hlen]; omega), List.getElem?_append_left hlt, hs]
  · obtain ⟨es1, -, -, -, hes⟩ := htidy.cut hle (first_open hfirst) (first_free hfirst (nameSlots_le hname.short).1)
    refine ⟨es1, ?_⟩
    have htake : (volSlots fsi cs' v').take (k + nameSlots name) =
        (volSlots fsi cs v).take k ++ (entrySet name d83 ++ [d83.toSlot]) := by
      rw [hslots, ← hlen, take_putSlots _ _ (by rw [hlen]; exact hin), List.take_append_of_le_length hle]
    show Tidy 0 ((volSlots fsi cs' v').take (k + (entrySet name d83).length + 1)) _
    rw [Nat.add_assoc, hset, htake]
    apply hes
    rw [Nat.zero_add]
    refine .entry ?_ he .nil
    by_cases hs : nameIsShort name = true
    · exact .inl (if_pos hs)
    · have hempty : entrySet name d83 = lfnSet name (checksum d83.name) (numLfn name) := if_neg hs
      rw [hempty]
      by_cases h0 : numLfn name = 0
      · rw [h0]
        exact .inl rfl
      · exact .inr (lfnSet_complete h0 hname.numLfn_lt)

/-- The slots of the new entry are in the directory that has grown, or some of them are not reached. -/
theorem covers_grown (hg : Geometry fsi) {ext : List Nat} (hpos : 0 < cs.length) (hsize : fsi.bytesPerCluster * cs.length < 2 ^ 32)
    (hn : n ≤ 21) (hle : k ≤ (volSlots fsi cs v).length)
    (hext : AllDeleted (volSlots fsi cs v) n k ∧ ext = [] ∨ ¬ AllDeleted (volSlots fsi cs v) n k ∧
      ext.length = growClusters fsi (u32 (fsi.bytesPerCluster * cs.length)) (u32 (32 * k)) n) :
    Covers (volSlots fsi (cs ++ ext) v') (k + n) := by
  have hper := bpc_slots hg
  have hbytes : fsi.bytesPerCluster * cs.length = 32 * (volSlots fsi cs v).length := by
    rw [length_dirSlots, hper, Nat.mul_assoc, Nat.mul_comm (slotsPer fsi)]
  have hone : fsi.bytesPerCluster ≤ fsi.bytesPerCluster * cs.length := Nat.le_mul_of_pos_right _ hpos
  have hlen : (volSlots fsi (cs ++ ext) v').length = (cs.length + ext.length) * slotsPer fsi := by
    rw [length_dirSlots, List.length_append]
  -- a directory that has not grown
  have hsame (h : ext.length = 0) : Covers (volSlots fsi (cs ++ ext) v') (k + n) := by
    refine .inl ?_
    rw [hlen, h, Nat.add_zero, ← length_dirSlots (view fsi v.disk).data]
    show 32 * (volSlots fsi cs v).length < 2 ^ 32
    omega
  rcases hext with ⟨-, rfl⟩ | ⟨-, hgrow⟩
  · exact hsame rfl
  · by_cases hlt : 32 * (k + n) < 2 ^ 32
    · have hmax := (growClusters_iff hg (by omega) hpos hn (by omega) (by omega)).mpr (.inl ⟨hsize, hlt⟩)
      rw [← hgrow] at hmax
      refine .inr ⟨?_, by omega⟩
      rw [hlen, hmax]
      exact (clustersFor_slots hg).mp (Nat.le_max_right _ _)
    · refine hsame (hgrow.trans ?_)
      rw [growClusters, if_neg]
      simp only [u32]
      omega

theorem nanotime_same (fsi : Fsi) (v : Vol) : ∃ now v', nanotime fsi v = (.ok now, v') ∧ Same v v' :=
  ⟨_, _, rfl, rfl, rfl, rfl⟩

/-- The slots of the entry `d83` for the name were written from slot `k` on, where they fit first, in a directory that
has grown by the clusters `ext`. -/
structure EntryWritten (fsi : Fsi) (d : Nat) (cs ext : List Nat) (name : List UInt8) (d83 : Dirent83) (k : Nat)
    (v v' : Vol) : Prop where
  first : First (FreeAt (volSlots fsi cs v)) (nameSlots name) k
  below : 32 * (k + nameSlots name) ≤ 2 ^ 32
  chain : FatChain fsi (view fsi v'.disk).fat d (cs ++ ext)
  slots : ∃ Z, (∀ z ∈ Z, z.first = 0) ∧ k + nameSlots name ≤ (volSlots fsi cs v ++ Z).length ∧
    volSlots fsi (cs ++ ext) v' = putSlots (volSlots fsi cs v ++ Z) k (entrySet name d83 ++ [d83.toSlot])

theorem EntryWritten.of_same {d : Nat} {ext : List Nat} {d83 : Dirent83} {v'' : Vol}
    (h : EntryWritten fsi d cs ext name d83 k v v') (hs : Same v' v'') : EntryWritten fsi d cs ext name d83 k v v'' := by
  obtain ⟨first, below, chain, slots⟩ := h
  rw [← volSlots_same hs] at slots
  rw [← hs.disk] at chain
  exact ⟨first, below, chain, slots⟩

/-- A call that returns has written an entry, and made a vnode with its place. -/
theorem createFdentry_written (hk : Reliable fsi.kernel) (hg : Geometry fsi) {s t : VnSt} {vp : Nat} {flags : CreFlags}
    {fv fv' : Fv} (hfuel : cs.length ≤ fsi.kernel.fuel) (hl : FatChain fsi (view fsi s.vol.disk).fat s.fv.cluster cs)
    (hsize : fsi.bytesPerCluster * cs.length < 2 ^ 32) (hname : name.length ≤ maxName) (hvp : s.fv.vnode = some vp)
    (hren : flags.rename = false) (hreuse : flags.reuse = false)
    (h : createFdentry fsi fv name flags s = (.ok fv', t)) :
    ∃ k ext c now v, EntryWritten fsi s.fv.cluster cs ext name (createDirent flags fv (if nameIsShort name then
        formatShort name else generateShortName s.fv.cluster (32 * k)) c now) k s.vol t.vol ∧
      (flags.dir = false → c = 0) ∧
      makeVnode fsi c (if flags.dir then .vdir else .vreg) { fv with dirsz := nameSlots name, diroff := 32 * k }
        (some (vp, s.fv.cluster)) v = (.ok fv', t.vol) := by
  have hno : ¬ flags.rename = true := by rw [hren]; decide
  have hnum := nameSlots_le hname
  have hall : WP (createFdentry fsi fv name flags) s fun r t => ∀ fv', r = .ok fv' →
      ∃ k ext c now v, EntryWritten fsi s.fv.cluster cs ext name (createDirent flags fv (if nameIsShort name then
          formatShort name else generateShortName s.fv.cluster (32 * k)) c now) k s.vol t.vol ∧
        (flags.dir = false → c = 0) ∧
        makeVnode fsi c (if flags.dir then .vdir else .vreg) { fv with dirsz := nameSlots name, diroff := 32 * k }
          (some (vp, s.fv.cluster)) v = (.ok fv', t.vol) := by
    unfold createFdentry
    refine .bind (R := fun r t => ∀ o, r = .ok o → ∃ k ext, First (FreeAt (volSlots fsi cs s.vol)) (nameSlots name) k ∧
      o = u32 (32 * k) ∧ t.fv = s.fv ∧ Grown fsi s.fv.cluster cs ext true s.vol t.vol ∧
      (AllDeleted (volSlots fsi cs s.vol) (nameSlots name) k ∧ ext = [] ∨
        ¬ AllDeleted (volSlots fsi cs s.vol) (nameSlots name) k ∧
        ext.length = growClusters fsi (u32 (fsi.bytesPerCluster * cs.length)) (u32 (32 * k)) (nameSlots name)))
      (.ite (fun hr => absurd hr (by rw [hreuse]; decide)) fun _ => .of_run (Prod.mk.eta).symm fun o ho =>
        allocFdentry_grows hk hg hfuel hnum.1 hl (Prod.ext ho rfl))
      (fun o t1 h1 => ?_) (fun _ _ _ _ h => nomatch h) fun _ _ _ h => nomatch h
    obtain ⟨k, ext, hfirst, rfl, hfv1, g, hext⟩ := h1 o rfl
    have hle := first_le hfirst
    obtain ⟨Z, hZ, hzero⟩ := g.slots hg
    have hper := bpc_slots hg
    have hbytes : fsi.bytesPerCluster * cs.length = 32 * (volSlots fsi cs s.vol).length := by
      rw [length_dirSlots, hper, Nat.mul_assoc, Nat.mul_comm (slotsPer fsi)]
    have hk32 : u32 (32 * k) = 32 * k := Nat.mod_eq_of_lt (by omega)
    rw [hk32]
    refine .get_bind (.on_bind (createCluster_keeps hk hg g.chain hren _ fv) (fun c v2 h2 => ?_)
      (fun _ _ _ _ h => nomatch h) fun _ _ _ h => nomatch h)
    obtain ⟨hl2, hs2, hc⟩ := h2 c rfl
    obtain ⟨now, v3, e3, s3⟩ := nanotime_same fsi v2
    rw [if_neg hno]
    refine .ok_bind (onVol_run e3) ?_
    have hl3 : FatChain fsi (view fsi v3.disk).fat s.fv.cluster (cs ++ ext) := by rwa [s3.disk]
    have hs3 : volSlots fsi (cs ++ ext) v3 = volSlots fsi cs s.vol ++ Z := by rw [volSlots_same s3, hs2, hZ]
    rw [hfv1]
    obtain ⟨d83, hd83⟩ : ∃ d83, createDirent flags fv (if nameIsShort name then formatShort name
      else generateShortName s.fv.cluster (32 * k)) c now = d83 := ⟨_, rfl⟩
    have hcover : Covers (volSlots fsi (cs ++ ext) v3) (k + nameSlots name) :=
      covers_grown hg (List.length_pos_of_mem hl.head_mem) hsize hnum.2 hle hext
    dsimp only
    rw [hd83]
    refine .on_bind (R := fun r v4 => r = .ok () → k + nameSlots name ≤ (volSlots fsi (cs ++ ext) v3).length ∧
        Edited fsi (cs ++ ext) (putSlots (volSlots fsi (cs ++ ext) v3) k (entrySet name d83 ++ [d83.toSlot])) v3 v4)
      (.of_run (Prod.mk.eta).symm fun hr => writeEntry_inside hk hg hl3 hcover
        (by rw [hs3, List.length_append]; omega) (by omega) (Prod.ext hr rfl))
      (fun _ v4 h4 => ?_) (fun _ _ _ _ h => nomatch h) fun _ _ _ h => nomatch h
    obtain ⟨hin, E⟩ := h4 rfl
    have hbelow : 32 * (k + nameSlots name) ≤ 2 ^ 32 := by
      rcases hcover with hlt | ⟨-, hle⟩
      · omega
      · exact hle
    rw [hs3] at hin E
    rw [hvp]
    refine .ite (fun h => absurd h hno) fun _ => .on (.of_run (Prod.mk.eta).symm fun fv' hr => ?_)
    have hwritten : EntryWritten fsi s.fv.cluster cs ext name (createDirent flags fv (if nameIsShort name then
        formatShort name else generateShortName s.fv.cluster (32 * k)) c now) k s.vol v4 := by
      rw [hd83]
      exact ⟨hfirst, hbelow, E.chain hl3, Z, hzero, hin, E.slots⟩
    exact ⟨k, ext, c, now, v4, hwritten.of_same (makeVnode_quiet _ _ _ _ v4).same, hc, Prod.ext hr rfl⟩
  unfold WP at hall
  rw [h] at hall
  exact hall fv' rfl

/-- A call that returns has made a new entry, and the vnode has its place. -/
theorem createFdentry_entry (hk : Reliable fsi.kernel) (hg : Geometry fsi) {s t : VnSt} {es : List DirEntry} {vp : Nat}
    {flags : CreFlags} {fv fv' : Fv} (hfuel : cs.length ≤ fsi.kernel.fuel)
    (hl : FatChain fsi (view fsi s.vol.disk).fat s.fv.cluster cs) (hsize : fsi.bytesPerCluster * cs.length < 2 ^ 32)
    (htidy : Tidy 0 (volSlots fsi cs s.vol) es) (hname : SevenBit name) (hvp : s.fv.vnode = some vp)
    (hren : flags.rename = false) (hreuse : flags.reuse = false)
    (h : createFdentry fsi fv name flags s = (.ok fv', t)) :
    ∃ cs' x, NewEntry fsi s.fv.cluster cs cs' name x s.vol t.vol ∧ VnodeOf fsi s.fv.cluster x fv' := by
  obtain ⟨k, ext, c, now, v, ⟨hfirst, -, hchain, Z, -, hin, hslots⟩, -, hmake⟩ :=
    createFdentry_written hk hg hfuel hl hsize hname.short hvp hren hreuse h
  obtain ⟨d83, hd83⟩ : ∃ d83, createDirent flags fv (if nameIsShort name then formatShort name
    else generateShortName s.fv.cluster (32 * k)) c now = d83 := ⟨_, rfl⟩
  rw [hd83] at hslots
  have he : d83.toSlot.IsEntry := by
    obtain ⟨h0, hdel⟩ := hname.first s.fv.cluster (32 * k) d83 (by rw [← hd83]; rfl)
    exact ⟨h0, hdel, by rw [← hd83]; exact createDirent_attr flags hren _ _ _ _⟩
  refine ⟨_, _, newEntry_of_written hname he htidy hfirst hchain hin hslots, (makeVnode_identity hmake).trans ?_,
    makeVnode_root hmake⟩
  rw [DirEntry.identity, length_entrySet, DirEntry.start, Nat.add_sub_cancel]
  rfl

end Fat32
