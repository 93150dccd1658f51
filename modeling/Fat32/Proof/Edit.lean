import Mathlib
import Fat32.Proof.Scan
import Fat32.Proof.RenameFat

/-!
# Changing a directory

The functions that write slots are edits of the list of slots: one slot is
replaced (`writeFdentry_slots`), or a range is marked deleted
(`deleteFdentryChain_slots`). Nothing outside the directory's chain changes.
-/

namespace Fat32

open Bytes Exec Prog Linked

variable {fsi : Fsi} {cs : List Nat} {l l' : List Slot} {v v' v'' : Vol} {a : Nat}

/-- Only bytes of the clusters `cs` changed, which now hold the slots `l`. -/
structure Edited (fsi : Fsi) (cs : List Nat) (l : List Slot) (v v' : Vol) : Prop where
  fat : (view fsi v'.disk).fat = (view fsi v.disk).fat
  data : ∀ c ∉ cs, (view fsi v'.disk).data c = (view fsi v.disk).data c
  slots : volSlots fsi cs v' = l

theorem Edited.of_same (h : Same v v') : Edited fsi cs (volSlots fsi cs v) v v' :=
  ⟨by rw [h.disk], fun _ _ => by rw [h.disk], volSlots_same h⟩

theorem Edited.trans (h : Edited fsi cs l v v') (k : Edited fsi cs l' v' v'') :
    Edited fsi cs l' v v'' :=
  ⟨k.fat.trans h.fat, fun c hc => (k.data c hc).trans (h.data c hc), k.slots⟩

theorem Edited.before (h : Edited fsi cs l v' v'') (hs : Same v v') : Edited fsi cs l v v'' :=
  (Edited.of_same hs).trans h

theorem Edited.chain (h : Edited fsi cs l v v') {b : Nat} {m : List Nat}
    (hm : FatChain fsi (view fsi v.disk).fat b m) : FatChain fsi (view fsi v'.disk).fat b m := by
  rwa [h.fat]

/-! ## One cluster -/

/-- The block request of a cluster. -/
def clusterBuf (fsi : Fsi) (c : Nat) (f : Nat → UInt8) : Buf :=
  ⟨fsi.dataStart + (c - 2) * fsi.sectorsPerCluster, fsi.sectorsPerCluster, f⟩

theorem readCluster_dir (hk : Reliable fsi.kernel) (hg : Geometry fsi) (hnd : cs.Nodup) {q c : Nat}
    (hq : cs[q]? = some c) (hc : InRange fsi c) (v : Vol) :
    ∃ f v', readCluster fsi c v = (.ok (clusterBuf fsi c f), v') ∧ Same v v' ∧
      clusterSlots fsi f = clusterSlots fsi ((view fsi v.disk).data c) ∧
      dirSlots fsi (Function.update (view fsi v.disk).data c f) cs = volSlots fsi cs v := by
  obtain ⟨v', e, s⟩ := readCluster_ok hk hg hc v
  have hf : clusterSlots fsi (fun o => v.disk (clusterAddr fsi c + o)) =
      clusterSlots fsi ((view fsi v.disk).data c) :=
    clusterSlots_congr hg fun o ho => (view_data hc ho).symm
  refine ⟨_, v', e, s, hf, ?_⟩
  rw [dirSlots_update _ hnd hq, hf, ← dirSlots_update _ hnd hq, Function.update_eq_self]

theorem bdwrite_dir (hg : Geometry fsi) (hnd : cs.Nodup) {q c : Nat} (hq : cs[q]? = some c)
    (hc : InRange fsi c) (f : Nat → UInt8) (v : Vol) :
    ∃ v', bdwrite (clusterBuf fsi c f) v = (.ok (), v') ∧
      Edited fsi cs (dirSlots fsi (Function.update (view fsi v.disk).data c f) cs) v v' := by
  obtain ⟨v', e, d, -, -⟩ := bdwrite_cluster hg c f v
  have hw := d.view hg hc
  have hf : clusterSlots fsi (fun o => if o < fsi.bytesPerCluster then f o else 0) =
      clusterSlots fsi f := clusterSlots_congr hg fun o ho => if_pos ho
  refine ⟨v', e, by rw [hw]; rfl, fun e he => ?_, ?_⟩
  · rw [hw]
    exact View.setData_ne _ _ (ne_of_mem_of_not_mem (List.mem_of_getElem? hq) he).symm
  · rw [volSlots, hw, View.setData, dirSlots_update _ hnd hq, dirSlots_update _ hnd hq, hf]

/-! ## Slots on the disk -/

/-- Where slot `i` of a directory with the clusters `cs` is on the disk. -/
def slotAddr (fsi : Fsi) (cs : List Nat) (i : Nat) : Nat :=
  clusterAddr fsi (cs.getD (i / slotsPer fsi) 0) + 32 * (i % slotsPer fsi)

theorem slotAddr_eq {i c : Nat} (hq : cs[i / slotsPer fsi]? = some c) :
    slotAddr fsi cs i = clusterAddr fsi c + 32 * (i % slotsPer fsi) := by
  rw [slotAddr, List.getD_eq_getElem?_getD, hq]
  rfl

/-- The slot there. -/
theorem volSlots_at (hg : Geometry fsi) (hr : ∀ c ∈ cs, InRange fsi c) {i : Nat}
    (hi : i < (volSlots fsi cs v).length) :
    (volSlots fsi cs v)[i]? = some (slotAt v.disk (slotAddr fsi cs i)) := by
  obtain ⟨hsplit, hlt⟩ := slot_split hg i
  obtain ⟨c, hq⟩ : ∃ c, cs[i / slotsPer fsi]? = some c :=
    ⟨_, List.getElem?_eq_getElem ((slot_cluster_lt hg).mp hi)⟩
  have hc := hr c (List.mem_of_getElem? hq)
  have hdrop : (dirSlots fsi _ cs).drop _ = _ :=
    dirSlots_drop_in (view fsi v.disk).data hq (le_of_lt hlt)
  rw [hsplit, clusterSlots_drop _ hlt, List.cons_append] at hdrop
  rw [← List.head?_drop, hdrop, List.head?_cons, slotAddr_eq hq]
  have hin (j : Fin 32) := slot_inside hg hlt j
  refine congrArg some (funext fun j => ?_)
  show (view fsi v.disk).data c (32 * (i % slotsPer fsi) + j) = v.disk _
  rw [view_data hc (hin j), Nat.add_assoc]

/-- The directory as it is read is the directory on the disk. -/
theorem readSlots_eq (hg : Geometry fsi) (hr : ∀ c ∈ cs, InRange fsi c) (v : Vol) :
    readSlots fsi cs v = volSlots fsi cs v := by
  refine List.flatMap_congr fun c hc => clusterSlots_congr hg fun o ho => ?_
  rw [view_data (hr c hc) ho, clusterBytes, clusterToSector_eq hg (hr c hc)]
  rfl

/-- Storing a cluster after a change of one slot stores the slot. -/
theorem dataSet_putSlot (hg : Geometry fsi) {c r : Nat} (hr : r < slotsPer fsi) {e : Slot} {d d' : Nat → UInt8} :
    DataSet fsi c (putSlot (fun o => d (clusterAddr fsi c + o)) (32 * r) e) d d' ↔
      d' = putSlot d (clusterAddr fsi c + 32 * r) e := by
  have hper := bpc_slots hg
  have hin (o : Nat) : putSlot (fun o => d (clusterAddr fsi c + o)) (32 * r) e o =
      putSlot d (clusterAddr fsi c + 32 * r) e (clusterAddr fsi c + o) := by
    by_cases ho : 32 * r ≤ o ∧ o < 32 * r + 32
    · rw [putSlot, putSlot, dif_pos ho, dif_pos (by omega)]
      congr 2
      omega
    · rw [putSlot, putSlot, dif_neg ho, dif_neg (by omega)]
  constructor
  · intro h
    funext x
    by_cases hx : clusterAddr fsi c ≤ x ∧ x < clusterAddr fsi c + fsi.bytesPerCluster
    · obtain ⟨o, rfl⟩ := Nat.exists_eq_add_of_le hx.1
      rw [h.here o (by omega), hin]
    · rw [h.frame x (by omega), putSlot, dif_neg (by omega)]
  · rintro rfl
    refine ⟨fun o _ => (hin o).symm, fun x hx => ?_⟩
    rw [putSlot, dif_neg (by omega)]

/-- Storing a slot on the disk is an edit of the directory. -/
theorem Edited.of_putSlot (hg : Geometry fsi) (hnd : cs.Nodup) (hr : ∀ c ∈ cs, InRange fsi c)
    {i : Nat} (hi : i < (volSlots fsi cs v).length) {e : Slot} (hd : v'.disk = putSlot v.disk (slotAddr fsi cs i) e) :
    Edited fsi cs ((volSlots fsi cs v).set i e) v v' := by
  obtain ⟨hsplit, hlt⟩ := slot_split hg i
  obtain ⟨c, hq⟩ : ∃ c, cs[i / slotsPer fsi]? = some c :=
    ⟨_, List.getElem?_eq_getElem ((slot_cluster_lt hg).mp hi)⟩
  have hc := hr c (List.mem_of_getElem? hq)
  obtain ⟨f, hf⟩ : ∃ f : Nat → UInt8, f = fun o => v.disk (clusterAddr fsi c + o) := ⟨_, rfl⟩
  have hset : DataSet fsi c (putSlot f (32 * (i % slotsPer fsi)) e) v.disk v'.disk := by
    rw [hf, dataSet_putSlot hg hlt, hd, slotAddr_eq hq]
  have hw := hset.view hg hc
  have hslots : clusterSlots fsi f = clusterSlots fsi ((view fsi v.disk).data c) :=
    clusterSlots_congr hg fun o ho => by rw [view_data hc ho, hf]
  have hcut : clusterSlots fsi (fun o => if o < fsi.bytesPerCluster then
      putSlot f (32 * (i % slotsPer fsi)) e o else 0) = (clusterSlots fsi f).modify (i % slotsPer fsi) fun _ => e :=
    (clusterSlots_congr hg fun o ho => if_pos ho).trans (clusterSlots_putSlot f _ e)
  refine ⟨by rw [hw]; rfl, fun b hb => ?_, ?_⟩
  · rw [hw]
    exact View.setData_ne _ _ (ne_of_mem_of_not_mem (List.mem_of_getElem? hq) hb).symm
  · rw [volSlots, hw, View.setData, dirSlots_modify _ hnd hq hlt hcut, hsplit, List.set_eq_modify,
      dirSlots_update _ hnd hq, hslots, ← dirSlots_update _ hnd hq, Function.update_eq_self]

/-- The cluster of slot `i`. -/
theorem seekCluster_slot (hk : Reliable fsi.kernel) (hg : Geometry fsi)
    (hl : FatChain fsi (view fsi v.disk).fat a cs) {i : Nat} (hi : i < (volSlots fsi cs v).length) :
    ∃ c v', seekCluster fsi a (i / slotsPer fsi) {} v = (.ok c, v') ∧ Same v v' ∧
      cs[i / slotsPer fsi]? = some c ∧ InRange fsi c := by
  have hq := (slot_cluster_lt hg).mp hi
  have h0 : cs[0]? = some a := by
    obtain ⟨t, rfl⟩ := hl.head_eq
    rfl
  obtain ⟨v', s, ⟨c, hc, hci⟩ | ⟨-, hlen⟩⟩ :=
    seekLoop_read hk hg noAlloc (i / slotsPer fsi) hl h0
  · rw [Nat.zero_add] at hci
    exact ⟨c, v', by rw [seekCluster_eq, hc], s, hci, hl.inRange c (List.mem_of_getElem? hci)⟩
  · omega

/-! ## Single slots -/

theorem readFdentry_slots (hk : Reliable fsi.kernel) (hg : Geometry fsi)
    (hl : FatChain fsi (view fsi v.disk).fat a cs) {i : Nat} (hi : i < (volSlots fsi cs v).length) :
    ∃ s v', readFdentry fsi a (32 * i) v = (.ok s, v') ∧ Same v v' ∧
      (volSlots fsi cs v)[i]? = some s := by
  obtain ⟨hsplit, hlt⟩ := slot_split hg i
  obtain ⟨c, v1, e1, s1, hq, hc⟩ := seekCluster_slot hk hg hl hi
  obtain ⟨f, v2, e2, s2, hf, -⟩ :=
    readCluster_dir hk hg (hl.nodup (fatEnds hg _)) hq hc v1
  refine ⟨slotAt f (32 * (i % slotsPer fsi)), v2, ?_, s1.trans s2, ?_⟩
  · rw [readFdentry]
    simp only [slot_cluster hg, slot_offset hg]
    rw [bind_ok e1, bind_ok e2]
    rfl
  · have hdrop : (dirSlots fsi _ cs).drop _ = _ :=
      dirSlots_drop_in (view fsi v.disk).data hq (le_of_lt hlt)
    rw [hsplit, ← s1.disk, ← hf, clusterSlots_drop f hlt, List.cons_append] at hdrop
    rw [← volSlots_same s1, ← List.head?_drop, hdrop, List.head?_cons]

theorem writeFdentry_slots (hk : Reliable fsi.kernel) (hg : Geometry fsi)
    (hl : FatChain fsi (view fsi v.disk).fat a cs) {i : Nat} (hi : i < (volSlots fsi cs v).length)
    (s : Slot) : ∃ v', writeFdentry fsi a (32 * i) s v = (.ok (), v') ∧
      Edited fsi cs ((volSlots fsi cs v).set i s) v v' := by
  obtain ⟨hsplit, hlt⟩ := slot_split hg i
  have hnd := hl.nodup (fatEnds hg _)
  obtain ⟨c, v1, e1, s1, hq, hc⟩ := seekCluster_slot hk hg hl hi
  obtain ⟨f, v2, e2, s2, -, hf⟩ := readCluster_dir hk hg hnd hq hc v1
  obtain ⟨v3, e3, h3⟩ :=
    bdwrite_dir hg hnd hq hc (putSlot f (32 * (i % slotsPer fsi)) s) v2
  have s12 := s1.trans s2
  refine ⟨v3, ?_, ?_⟩
  · rw [writeFdentry]
    simp only [slot_cluster hg, slot_offset hg]
    rw [bind_ok e1, bind_ok e2]
    exact e3
  · rw [dirSlots_modify _ hnd hq hlt (clusterSlots_putSlot f (i % slotsPer fsi) s), hsplit,
      s2.disk, hf, volSlots_same s1, ← List.set_eq_modify] at h3
    exact h3.before s12

/-! ## Deleting a range -/

/-- A deleted slot. -/
def Slot.delete (s : Slot) : Slot := s.setByte 0 lfnDeleted

/-- The `n` slots from `i` on are deleted. -/
def deleteRange (i : Nat) : Nat → List Slot → List Slot
  | 0, l => l
  | n + 1, l => deleteRange (i + 1) n (l.modify i Slot.delete)

theorem deleteLoop_slots (hk : Reliable fsi.kernel) (hg : Geometry fsi) (n : Nat) :
    ∀ {q c r : Nat} {f : Nat → UInt8} {v : Vol}, FatChain fsi (view fsi v.disk).fat a cs →
      cs[q]? = some c → r ≤ slotsPer fsi → q * slotsPer fsi + r + n ≤ (volSlots fsi cs v).length →
      ∃ v', deleteLoop fsi n c (clusterBuf fsi c f) (32 * r) v = (.ok (), v') ∧
        Edited fsi cs (deleteRange (q * slotsPer fsi + r) n
          (dirSlots fsi (Function.update (view fsi v.disk).data c f) cs)) v v' := by
  induction n with
  | zero =>
    intro q c r f v hl hq _ _
    have hc := hl.inRange c (List.mem_of_getElem? hq)
    exact bdwrite_dir hg (hl.nodup (fatEnds hg _)) hq hc f v
  | succ n ih =>
    intro q c r f v hl hq hr hlen
    have hnd := hl.nodup (fatEnds hg _)
    have hc := hl.inRange c (List.mem_of_getElem? hq)
    have hb := bpc_slots hg
    rw [deleteLoop]
    by_cases hlt : r < slotsPer fsi
    · have hpos : ¬ 32 * r ≥ fsi.bytesPerCluster := by omega
      rw [if_neg hpos, pure_bind_run]
      obtain ⟨v', e, h⟩ := ih (r := r + 1) (f := Function.update f (32 * r) lfnDeleted) hl hq
        (by omega) (by omega)
      refine ⟨v', e, ?_⟩
      rw [dirSlots_modify _ hnd hq hlt (clusterSlots_setFirst f r lfnDeleted)] at h
      exact h
    · -- the range goes on in the next cluster
      obtain rfl : r = slotsPer fsi := by omega
      have hpos : 32 * slotsPer fsi ≥ fsi.bytesPerCluster := by omega
      rw [if_pos hpos]
      obtain ⟨v1, e1, h1⟩ := bdwrite_dir hg hnd hq hc f v
      obtain ⟨hqlt, -⟩ := List.getElem?_eq_some_iff.mp hq
      have hnext : q + 1 < cs.length := by
        rw [length_dirSlots] at hlen
        by_contra hle
        have hmul := Nat.mul_le_mul_right (slotsPer fsi) (not_lt.mp hle)
        rw [Nat.succ_mul] at hmul
        omega
      have hl1 := h1.chain hl
      obtain ⟨v2, s2, ⟨d, e2, hd⟩ | ⟨-, hlast⟩⟩ := nextCluster_read hk hg noAlloc hl1 hq
      · have hdr := hl.inRange d (List.mem_of_getElem? hd)
        obtain ⟨g, v3, e3, s3, -, hgs⟩ := readCluster_dir hk hg hnd hd hdr v2
        have s23 := s2.trans s3
        have hl3 : FatChain fsi (view fsi v3.disk).fat a cs := by
          rw [s23.disk]
          exact hl1
        have hper := slotsPer_pos hg
        rw [length_dirSlots] at hlen
        obtain ⟨v4, e4, h4⟩ := ih (q := q + 1) (c := d) (r := 1)
          (f := Function.update g (32 * 0) lfnDeleted) (v := v3) hl3 hd (by omega)
          (by rw [length_dirSlots, Nat.succ_mul]; omega)
        rw [dirSlots_modify _ hnd hd hper (clusterSlots_setFirst g 0 lfnDeleted), s3.disk, hgs,
          volSlots_same s2, h1.slots, Nat.add_zero, Nat.succ_mul] at h4
        refine ⟨v4, ?_, (h1.trans (h4.before s23))⟩
        refine Eq.trans (@bind_ok _ _ _ _ _ _ _ v3 (d, clusterBuf fsi d g, 0) ?_) e4
        rw [bind_ok e1, bind_ok e2, bind_ok e3]
        rfl
      · omega

theorem deleteFdentryChain_slots (hk : Reliable fsi.kernel) (hg : Geometry fsi)
    (hl : FatChain fsi (view fsi v.disk).fat a cs) {i n : Nat}
    (hi : i < (volSlots fsi cs v).length) (hn : i + n ≤ (volSlots fsi cs v).length) :
    ∃ v', deleteFdentryChain fsi a (32 * i) n v = (.ok (), v') ∧
      Edited fsi cs (deleteRange i n (volSlots fsi cs v)) v v' := by
  obtain ⟨hsplit, hlt⟩ := slot_split hg i
  obtain ⟨c, v1, e1, s1, hq, hc⟩ := seekCluster_slot hk hg hl hi
  obtain ⟨f, v2, e2, s2, -, hf⟩ := readCluster_dir hk hg (hl.nodup (fatEnds hg _)) hq hc v1
  have s12 := s1.trans s2
  obtain ⟨v3, e3, h3⟩ := deleteLoop_slots hk hg n (v := v2) (f := f) (by rw [s12.disk]; exact hl) hq
    (le_of_lt hlt) (by rw [hsplit, volSlots_same s12]; exact hn)
  rw [hsplit, s2.disk, hf, volSlots_same s1] at h3
  refine ⟨v3, ?_, h3.before s12⟩
  rw [deleteFdentryChain]
  simp only [slot_cluster hg, slot_offset hg]
  rw [bind_ok e1, bind_ok e2]
  exact e3

end Fat32
