import Mathlib
import Fat32.Proof.Space
import Fat32.Proof.Edit
import Fat32.Proof.Leftover
import Fat32.Proof.Rename

/-!
# Sizes from 4 GiB on

`fv_size` has 64 bits, the entry 32. A size below 4 GiB comes back when the vnode is
flushed and its entry looked up again (`flush_lookup`). Nothing refuses a larger one: a
request that would pass the limit succeeds when there is room for its clusters
(`within_limit_iff`).
-/

namespace Fat32

open Bytes Exec Prog Linked

variable {fsi : Fsi} {l cs : List Nat} {v : Vol} {s s' : VnSt}

/-! ## The size in the entry -/

theorem Slot.fileSize_setFileSize (s : Slot) (val : Nat) : (s.setFileSize val).fileSize = val % 2 ^ 32 := by
  have h2 : byteOf (val / 0x10000) 0 = byteOf val 2 := by
    simp [byteOf]
  have h3 : byteOf (val / 0x10000) 1 = byteOf val 3 := by
    simp [byteOf, Nat.div_div_eq_div_mul]
  show le32 (byteOf val 0) (byteOf val 1) (byteOf (val / 0x10000) 0) (byteOf (val / 0x10000) 1) = _
  rw [h2, h3, le32_byteOf]
  rfl

/-- The other fields are before the size. -/
theorem Slot.fileSize_set16 (s : Slot) {o : Nat} (ho : o + 1 < 28) (val : Nat) :
    (s.set16 o val).fileSize = s.fileSize := by
  have h (i : Fin 32) (hi : 28 ≤ i.val) : s.set16 o val i = s i := by
    rw [Slot.set16, if_neg (by omega), if_neg (by omega)]
  simp only [Slot.fileSize, h 28 (by decide), h 29 (by decide), h 30 (by decide), h 31 (by decide)]

theorem Slot.fileSize_setByte (s : Slot) {o : Nat} (ho : o < 28) (val : UInt8) :
    (s.setByte o val).fileSize = s.fileSize := by
  have h (i : Fin 32) (hi : 28 ≤ i.val) : s.setByte o val i = s i := by
    rw [Slot.setByte, if_neg (by omega)]
  simp only [Slot.fileSize, h 28 (by decide), h 29 (by decide), h 30 (by decide), h 31 (by decide)]

/-- What a flush leaves as the size of the entry. -/
theorem flushEntry_fileSize (fv : Fv) (e : Slot) :
    (flushEntry fv e).fileSize = if fv.flags.size then fv.size % 2 ^ 32 else e.fileSize := by
  have hfirst (e : Slot) (c : Nat) : (e.setFirstCluster c).fileSize = e.fileSize := by
    rw [Slot.setFirstCluster, Slot.fileSize_set16 _ (by decide), Slot.fileSize_set16 _ (by decide)]
  unfold flushEntry Slot.setLastAccessDate Slot.setWriteDate Slot.setWriteTime Slot.setCreateDate
    Slot.setCreateTime Slot.setCreateTimeTenth Slot.setAttr
  dsimp only
  rw [apply_ite Slot.fileSize, hfirst, ite_self, apply_ite Slot.fileSize, Slot.fileSize_setFileSize]
  refine if_congr Iff.rfl rfl ?_
  rw [apply_ite Slot.fileSize, Slot.fileSize_setByte _ (by decide), ite_self, apply_ite Slot.fileSize,
    Slot.fileSize_setByte _ (by decide), Slot.fileSize_set16 _ (by decide),
    Slot.fileSize_set16 _ (by decide), ite_self, apply_ite Slot.fileSize, Slot.fileSize_set16 _ (by decide),
    Slot.fileSize_set16 _ (by decide), ite_self, apply_ite Slot.fileSize,
    Slot.fileSize_set16 _ (by decide), ite_self]

/-! ## Flushing -/

/-- The first cluster of the directory that `fat32_update_fdentry` looks in. -/
def Fv.dirCluster (fsi : Fsi) (fv : Fv) : Nat :=
  if fv.parentCluster = 0 then fsi.rootCluster else fv.parentCluster

/-- A vnode whose entry is the slot with index `i` of the directory with the clusters `cs`. -/
structure EntryAt (fsi : Fsi) (cs : List Nat) (i : Nat) (s : VnSt) : Prop where
  chain : FatChain fsi (view fsi s.vol.disk).fat (s.fv.dirCluster fsi) cs
  offset : s.fv.targetOffset = 32 * i
  inside : i < (volSlots fsi cs s.vol).length
  notRoot : s.fv.flags.root = false
  parent : s.fv.parentCluster ≠ clusterBad

/-- A vnode whose directory is still there keeps its place. -/
theorem EntryAt.moved {i : Nat} (h : EntryAt fsi cs i s)
    (hl : FatChain fsi (view fsi s'.vol.disk).fat (s.fv.dirCluster fsi) cs) (hdo : s'.fv.diroff = s.fv.diroff)
    (hds : s'.fv.dirsz = s.fv.dirsz) (hpc : s'.fv.parentCluster = s.fv.parentCluster)
    (hroot : s'.fv.flags.root = s.fv.flags.root) : EntryAt fsi cs i s' := by
  refine ⟨?_, ?_, ?_, hroot.trans h.notRoot, ?_⟩
  · rw [Fv.dirCluster, hpc]
    exact hl
  · rw [Fv.targetOffset, hdo, hds]
    exact h.offset
  · have hi := h.inside
    rw [length_dirSlots] at hi ⊢
    exact hi
  · rw [hpc]
    exact h.parent

/-- The vnode after a flush. -/
def Fv.flushed (fv : Fv) : Fv := { fv with flags := fv.flags.clearDirty }

/-- A flush stores the slot of the entry. -/
theorem updateFdentry_run (hk : Reliable fsi.kernel) (hg : Geometry fsi) {i : Nat}
    (h : EntryAt fsi cs i s) : ∃ s', updateFdentry fsi s = (.ok (), s') ∧
      s'.fv = (if s.fv.flags.dirty then s.fv.flushed else s.fv) ∧
      s'.vol.disk = if s.fv.flags.dirty then putSlot s.vol.disk (slotAddr fsi cs i)
        (flushEntry s.fv (slotAt s.vol.disk (slotAddr fsi cs i))) else s.vol.disk := by
  obtain ⟨hl, hoff, hi, hroot, hpar⟩ := h
  obtain ⟨hsplit, hlt⟩ := slot_split hg i
  obtain ⟨c, v1, e1, s1, hq, hc⟩ := seekCluster_slot hk hg hl hi
  obtain ⟨v2, e2, s2⟩ := readCluster_ok hk hg hc v1
  unfold updateFdentry
  rw [get_bind_run]
  by_cases hd : s.fv.flags.dirty = true
  · rw [if_neg (not_not.mpr hd), if_neg (by rw [hroot]; decide), if_neg hpar]
    rw [Fv.dirCluster] at e1
    simp only [hoff, slot_cluster hg, slot_offset hg]
    rw [bind_ok (onVol_run e1), bind_ok (onVol_run e2)]
    obtain ⟨v3, e3, h3, -, -⟩ := bdwrite_cluster hg c (putSlot (fun o => v1.disk (clusterAddr fsi c + o))
      (32 * (i % slotsPer fsi)) (flushEntry s.fv
        (slotAt (fun o => v1.disk (clusterAddr fsi c + o)) (32 * (i % slotsPer fsi))))) v2
    have hclear : clearDirty ⟨v2, s.fv⟩ = (.ok (), ⟨v2, s.fv.flushed⟩) := modifyFv_run _ _
    refine ⟨_, (bind_ok hclear).trans (onVol_run e3), (if_pos hd).symm, ?_⟩
    rw [if_pos hd, slotAddr_eq hq]
    have hdisk : v2.disk = s.vol.disk := s2.disk.trans s1.disk
    rw [← s2.disk] at h3
    rw [(dataSet_putSlot hg hlt).mp h3, hdisk]
    have hread : slotAt (fun o => s.vol.disk (clusterAddr fsi c + o)) (32 * (i % slotsPer fsi)) =
        slotAt s.vol.disk (clusterAddr fsi c + 32 * (i % slotsPer fsi)) :=
      funext fun j => by rw [slotAt, slotAt, Nat.add_assoc]
    rw [hread]
  · rw [if_pos hd]
    exact ⟨s, rfl, (if_neg hd).symm, (if_neg hd).symm⟩

/-- A flush stores the dirty fields in the slot of the entry. -/
theorem updateFdentry_slots (hk : Reliable fsi.kernel) (hg : Geometry fsi) {i : Nat}
    (h : EntryAt fsi cs i s) : ∃ s' e, updateFdentry fsi s = (.ok (), s') ∧
      s'.fv = (if s.fv.flags.dirty then s.fv.flushed else s.fv) ∧
      (volSlots fsi cs s.vol)[i]? = some e ∧
      Edited fsi cs (if s.fv.flags.dirty then (volSlots fsi cs s.vol).set i (flushEntry s.fv e)
        else volSlots fsi cs s.vol) s.vol s'.vol := by
  obtain ⟨s', hrun, hfv, hdisk⟩ := updateFdentry_run hk hg h
  refine ⟨s', _, hrun, hfv, volSlots_at hg h.chain.inRange h.inside, ?_⟩
  by_cases hd : s.fv.flags.dirty = true
  · rw [if_pos hd] at hdisk ⊢
    exact .of_putSlot hg (h.chain.nodup (fatEnds hg _)) h.chain.inRange h.inside hdisk
  · rw [if_neg hd] at hdisk ⊢
    exact ⟨by rw [hdisk], fun _ _ => by rw [hdisk], by rw [volSlots, hdisk]⟩

/-! ## Looking up -/

/-- The places a scan keeps are those of slots. -/
structure Scan.Placed (st : Scan) : Prop where
  dvd : 32 ∣ st.entryStart
  lt : st.entryStart < 2 ^ 32

theorem scanSlot_placed {dn i : Nat} {e : Slot} {st st' : Scan} (ho : st.offset = 32 * i)
    (hlt : 32 * i < 2 ^ 32) (h : st.Placed) :
    (scanSlot dn e st = .skip st' → st'.Placed) ∧ (scanSlot dn e st = .entry st' → st'.Placed) := by
  have hnew : 32 ∣ st.offset ∧ st.offset < 2 ^ 32 := by
    rw [ho]
    exact ⟨Nat.dvd_mul_right _ _, hlt⟩
  have hstart {st' : Scan} (heq : st'.entryStart = st.entryStart ∨ st'.entryStart = st.offset) :
      st'.Placed := by
    rcases heq with heq | heq
    · exact ⟨heq ▸ h.dvd, heq ▸ h.lt⟩
    · exact ⟨heq ▸ hnew.1, heq ▸ hnew.2⟩
  unfold scanSlot
  refine ⟨fun hs => ?_, fun hs => ?_⟩
  · split at hs
    · cases hs
    split at hs
    · cases hs
      exact hstart (.inl rfl)
    split at hs
    · cases hs
      unfold scanLfn Scan.next
      dsimp only
      split
      · exact hstart (.inr rfl)
      · exact hstart (.inl rfl)
    split at hs
    · cases hs
      exact ⟨Nat.dvd_zero _, show 0 < 2 ^ 32 by decide⟩
    · cases hs
  · split at hs
    · cases hs
    split at hs
    · cases hs
    split at hs
    · cases hs
    split at hs
    · cases hs
    · cases hs
      refine hstart ?_
      by_cases hlfn : st.hasLfn = true
      · exact .inl (if_pos hlfn)
      · exact .inr (if_neg hlfn)

/-- Each entry of a directory is a slot of it, at the place its scan tells. -/
theorem entries_placed {l : List Slot} {st : Scan} {i : Nat} (ho : st.offset = 32 * i)
    (hlt : 32 * (i + l.length) < 2 ^ 32) (h : st.Placed) {x : Slot × Scan} (hx : x ∈ entries l st) :
    ∃ j, l[j]? = some x.1 ∧ x.2.offset = 32 * (i + j) ∧ x.2.Placed := by
  induction l generalizing st i with
  | nil => cases hx
  | cons e l ih =>
    rw [List.length_cons] at hlt
    have hnext {st' : Scan} (hx : x ∈ entries l st') (ho' : st'.offset = 32 * (i + 1))
        (h' : st'.Placed) : ∃ j, (e :: l)[j]? = some x.1 ∧ x.2.offset = 32 * (i + j) ∧ x.2.Placed := by
      obtain ⟨j, hj, hoff, hp⟩ := ih ho' (by omega) h' hx
      exact ⟨j + 1, hj, by rw [hoff]; omega, hp⟩
    have hwrap : u32 (32 * i + dentrySize) = 32 * (i + 1) := Nat.mod_eq_of_lt (by
      simp only [dentrySize]
      omega)
    rw [entries] at hx
    cases hs : scanSlot dNameSize e st with
    | stop =>
      rw [hs] at hx
      cases hx
    | skip st' =>
      rw [hs] at hx
      refine hnext hx ?_ ((scanSlot_placed ho (by omega) h).1 hs)
      rw [scanSlot_offset.1 hs, ho]
      exact hwrap
    | entry st' =>
      rw [hs] at hx
      have ho' := scanSlot_offset.2 hs
      rcases List.mem_cons.mp hx with rfl | hx
      · exact ⟨0, rfl, ho'.trans ho, (scanSlot_placed ho (by omega) h).2 hs⟩
      · refine hnext hx ?_ ⟨Nat.dvd_zero _, show 0 < 2 ^ 32 by decide⟩
        show u32 (st'.offset + dentrySize) = _
        rw [ho', ho]
        exact hwrap

/-- The place of the 8.3 entry, from what a lookup stores of it. -/
theorem fillEntry_targetOffset {st : Scan} {j : Nat} (ho : st.offset = 32 * j) (hlt : 32 * j < 2 ^ 32)
    (h : st.Placed) (d : Nat) (e : Slot) (fv : Fv) : (fillEntry d e st fv).targetOffset = 32 * j := by
  obtain ⟨k, hk⟩ := h.dvd
  have hkl := h.lt
  rw [hk] at hkl
  show u32 (st.entryStart + u32 (sub32 (u32 (sub32 st.offset st.entryStart / dentrySize + 1)) 1 *
    dentrySize)) = 32 * j
  simp only [hk, ho, sub32, u32, dentrySize]
  omega

/-- A lookup fills the vnode from the slot at the place it tells. -/
theorem findDirent_size (hk : Reliable fsi.kernel) (hg : Geometry fsi)
    (hfuel : cs.length ≤ fsi.kernel.fuel) (h : IsDir fsi cs s)
    (hn : (readSlots fsi cs s.vol).length < fsi.kernel.fuel)
    (hlt : 32 * (readSlots fsi cs s.vol).length < 2 ^ 32) {name : List UInt8} {fv : Fv}
    (hf : (findDirent fsi name (vnodeNew fsi) s).1 = .ok fv) :
    ∃ j e, (readSlots fsi cs s.vol)[j]? = some e ∧ fv.targetOffset = 32 * j ∧ fv.size = e.fileSize := by
  rw [findDirent_slots hk hg hfuel h hn hlt, lookupEntry] at hf
  cases hfind : (entries (readSlots fsi cs s.vol)
      { offset := 0, name := ⟨Function.update fsi.kernel.stack 0 0, dNameSize⟩ }).find?
        fun e => nameMatch (name.take 255) e.2.name with
  | none =>
    rw [hfind] at hf
    cases hf
  | some x =>
    rw [hfind] at hf
    cases hf
    obtain ⟨j, hj, hoff, hp⟩ := @entries_placed _
      { offset := 0, name := ⟨Function.update fsi.kernel.stack 0 0, dNameSize⟩ } 0 rfl
      (by omega) ⟨Nat.dvd_zero _, show 0 < 2 ^ 32 by decide⟩ x (List.mem_of_find?_eq_some hfind)
    rw [Nat.zero_add] at hoff
    have hjl := (List.getElem?_eq_some_iff.mp hj).1
    exact ⟨j, x.1, hj, fillEntry_targetOffset hoff (by omega) hp _ _ _, rfl⟩

/-! ## Out and back -/

variable {i : Nat}

/-- The size of a vnode is marked dirty, or it is the one in the entry. -/
structure SizeKept (fsi : Fsi) (cs : List Nat) (i : Nat) (s : VnSt) : Prop where
  entry : EntryAt fsi cs i s
  size : s.fv.flags.size = true ∨
    ∀ e, (volSlots fsi cs s.vol)[i]? = some e → e.fileSize = s.fv.size

/-- The file system can enumerate a directory with so many clusters. -/
structure Listable (fsi : Fsi) (cs : List Nat) : Prop where
  chain : cs.length ≤ fsi.kernel.fuel
  slots : cs.length * slotsPer fsi < fsi.kernel.fuel
  bytes : 32 * (cs.length * slotsPer fsi) < 2 ^ 32

/-- After a flush, a lookup in the directory that finds the entry gives the size. -/
def Returns (fsi : Fsi) (cs : List Nat) (s : VnSt) : Prop :=
  ∃ s', updateFdentry fsi s = (.ok (), s') ∧
    ∀ t : VnSt, t.vol = s'.vol → IsDir fsi cs t → ∀ name fv,
      (findDirent fsi name (vnodeNew fsi) t).1 = .ok fv →
      fv.targetOffset = s.fv.targetOffset → fv.size = s.fv.size

/-- A flush stores a size below 4 GiB. -/
theorem SizeKept.flush (hk : Reliable fsi.kernel) (hg : Geometry fsi) (h : SizeKept fsi cs i s)
    (hsize : s.fv.size < 2 ^ 32) : ∃ s', updateFdentry fsi s = (.ok (), s') ∧
      s'.fv = (if s.fv.flags.dirty then s.fv.flushed else s.fv) ∧ SizeKept fsi cs i s' ∧
      ∀ e, (volSlots fsi cs s'.vol)[i]? = some e → e.fileSize = s.fv.size := by
  obtain ⟨s', e, hrun, hfv, he, E⟩ := updateFdentry_slots hk hg h.entry
  have hi := h.entry.inside
  have hsame : s'.fv.size = s.fv.size ∧ s'.fv.diroff = s.fv.diroff ∧ s'.fv.dirsz = s.fv.dirsz ∧
      s'.fv.parentCluster = s.fv.parentCluster ∧ s'.fv.flags.root = s.fv.flags.root := by
    rw [hfv]
    split
    · exact ⟨rfl, rfl, rfl, rfl, rfl⟩
    · exact ⟨rfl, rfl, rfl, rfl, rfl⟩
  obtain ⟨hsz, hdo, hds, hpc, hrt⟩ := hsame
  have hback : ∀ e', (volSlots fsi cs s'.vol)[i]? = some e' → e'.fileSize = s.fv.size := by
    intro e' he'
    rw [E.slots] at he'
    by_cases hd : s.fv.flags.dirty = true
    · rw [if_pos hd, List.getElem?_set_self hi] at he'
      rw [← Option.some.inj he', flushEntry_fileSize]
      split
      · exact Nat.mod_eq_of_lt hsize
      · exact h.size.resolve_left ‹_› e he
    · rw [if_neg hd] at he'
      have hns : ¬ s.fv.flags.size = true := by
        intro hs
        apply hd
        simp [VnFlags.dirty, hs]
      exact h.size.resolve_left hns e' he'
  refine ⟨s', hrun, hfv, ⟨h.entry.moved (E.chain h.entry.chain) hdo hds hpc hrt, .inr fun e' he' => ?_⟩, hback⟩
  rw [hsz]
  exact hback e' he'

/-- A size below 4 GiB comes back. -/
theorem SizeKept.returns (hk : Reliable fsi.kernel) (hg : Geometry fsi) (hlist : Listable fsi cs)
    (h : SizeKept fsi cs i s) (hsize : s.fv.size < 2 ^ 32) : Returns fsi cs s := by
  obtain ⟨s', hrun, hfv, h', hback⟩ := h.flush hk hg hsize
  refine ⟨s', hrun, fun t ht hdir name fv hfind hoff => ?_⟩
  have hread : readSlots fsi cs t.vol = volSlots fsi cs s'.vol := by
    rw [ht]
    exact readSlots_eq hg (fun c hc => h'.entry.chain.inRange c hc) _
  have hlen : (volSlots fsi cs s'.vol).length = cs.length * slotsPer fsi := length_dirSlots _ _
  obtain ⟨j, e, he, hj, hsz⟩ := findDirent_size hk hg hlist.chain hdir
    (by rw [hread, hlen]; exact hlist.slots) (by rw [hread, hlen]; exact hlist.bytes) hfind
  have hi := h.entry.offset
  obtain rfl : j = i := by omega
  rw [hread] at he
  rw [hsz, hback e he]

/-- The entry of a file is not one of the things that change when the file does. -/
theorem EntryAt.step {l' : List Nat} (h : EntryAt fsi cs i s) (hd : cs.Disjoint l) (st : FileStep fsi l l' s s') :
    EntryAt fsi cs i s' ∧ cs.Disjoint l' ∧ volSlots fsi cs s'.vol = volSlots fsi cs s.vol := by
  obtain ⟨hchain, hd', hdata⟩ := st.own.chain h.chain hd
  exact ⟨h.moved hchain st.fv.diroff st.fv.dirsz st.fv.parentCluster st.fv.root, hd',
    List.flatMap_congr fun c hc => by rw [hdata c hc]⟩

theorem SizeKept.step {l' : List Nat} (h : SizeKept fsi cs i s) (hd : cs.Disjoint l)
    (st : FileStep fsi l l' s s') : SizeKept fsi cs i s' := by
  obtain ⟨hentry, -, hslots⟩ := h.entry.step hd st
  refine ⟨hentry, ?_⟩
  rw [hslots]
  rcases st.fv.size with hsz | hfl
  · rw [hsz]
    exact h.size.imp_left st.fv.sizeFlag
  · exact .inl hfl

/-! ## What a call asks for -/

/-- The calls that set the size of the file at `p`. -/
def VnOp.SetsSize (p : Nat) : VnOp → Prop
  | .write q _ _ => q = p
  | .setattr q vap => q = p ∧ vap.atSize = true
  | _ => False

/-- The size that a call asks for: the end of the bytes written, or the new size. -/
def VnOp.asks (s : VnSt) : VnOp → Int
  | .write _ append uio => if uio.resid = 0 then 0 else writePos append ⟨s, uio⟩ + uio.resid
  | .setattr _ vap => vap.size
  | _ => 0

/-- There is what the call needs: clusters, a volume that may be written, the memory of the
user. -/
def VnOp.Proceeds (fsi : Fsi) (l : List Nat) (s : VnSt) : VnOp → Prop
  | .write _ append uio =>
    writeIndex fsi append ⟨s, uio⟩ * fsi.bytesPerCluster + writeOffset fsi append ⟨s, uio⟩ + uio.resid ≤
        room fsi l s.vol * fsi.bytesPerCluster ∧
      Moves fsi s.vol (clustersFor fsi (writeOffset fsi append ⟨s, uio⟩ + uio.resid))
  | .setattr _ vap => ¬ fsi.vfsRdonly = true ∧ neededClusters fsi vap.size ≤ room fsi l s.vol
  | _ => False

/-- How such a call ends, and the size that it leaves. -/
def VnOp.Ends (fsi : Fsi) (l : List Nat) (s : VnSt) (op : VnOp) (r : Out Errno Unit) (size : Nat) : Prop :=
  (r = .ok () ∧ (size : Int) ≤ max (s.fv.size : Int) (op.asks s) ∧
      (op.Proceeds fsi l s ∨ op.asks s < 2 ^ 32)) ∨
    ∃ e, r = .err e ∧ ¬ op.Proceeds fsi l s

theorem write_ends (hk : Reliable fsi.kernel) (hg : Geometry fsi) (h : OnGood fsi l s)
    (hreg : s.fv.type = .vreg) (p : Nat) (append : Bool) (uio : Uio) :
    WP (transfer (write fsi append) uio) s fun r s' => (∃ l', FileStep fsi l l' s s') ∧
      (VnOp.write p append uio).Ends fsi l s r s'.fv.size := by
  refine transfer_wp ?_
  have hstep := write_step (t := ⟨s, uio⟩) hk hg h.coherent append
  by_cases hz : uio.resid = 0
  · obtain ⟨hok, hsz⟩ := write_nothing (t := ⟨s, uio⟩) h.coherent hreg append hz
    unfold WP at hstep ⊢
    obtain ⟨ext, st, -⟩ := hstep
    refine ⟨⟨_, st⟩, .inl ⟨hok, ?_, .inr ?_⟩⟩
    · rw [hsz]
      exact le_max_left _ _
    · simp only [VnOp.asks, hz, if_true]
      decide
  · have hasks : (VnOp.write p append uio).asks s = writePos append ⟨s, uio⟩ + uio.resid := if_neg hz
    refine (hstep.and (write_room (t := ⟨s, uio⟩) hk hg h hreg append hz)).mono fun r t hr => ?_
    obtain ⟨⟨ext, st, -⟩, ⟨he, hle, -⟩ | ⟨hlt, hend⟩⟩ := hr
    · refine ⟨⟨_, st⟩, .inr ⟨_, he, fun hp => ?_⟩⟩
      have := Nat.mul_le_mul_right fsi.bytesPerCluster hle
      have := hp.1
      dsimp only at *
      omega
    · refine ⟨⟨_, st⟩, ?_⟩
      rcases hend with ⟨⟨_, hok⟩, hle, hmv, hsz⟩ | ⟨he, hlt', -⟩ | ⟨j, e, he, hj, hjlt, -⟩
      · exact .inl ⟨hok, by rw [hsz, hasks]; exact le_refl _, .inl ⟨hle, hmv⟩⟩
      · exact .inr ⟨_, he, fun hp => absurd hp.1 (not_le.mpr hlt')⟩
      · refine .inr ⟨e, he, fun hp => ?_⟩
        have hnone := hp.2 j hjlt
        rw [show s.vol.io.nmove = ((⟨s, uio⟩ : RwSt).startAt append).vn.vol.io.nmove from rfl, hj] at hnone
        cases hnone

theorem FvKeeps.ite {fv fv' : Fv} {b : Prop} [Decidable b] (h : FvKeeps fv fv') :
    FvKeeps fv (if b then fv' else fv) := by
  split
  · exact h
  · exact .refl _

theorem setMode_keeps (mode : Nat) (fv : Fv) : FvKeeps fv (setMode mode fv) := by
  unfold setMode
  dsimp only
  split <;> split <;>
    exact ⟨rfl, rfl, rfl, rfl, rfl, rfl, rfl, .inl rfl, id, .inl rfl, id, by simp, by simp⟩

/-- A change of attributes leaves the file where it is. -/
theorem setFields_keeps (vap : Vattr) (fv : Fv) : FvKeeps fv (setFields vap fv) := by
  have hmode : FvKeeps fv (if vap.atMode then setMode vap.mode fv else fv) :=
    .ite (setMode_keeps _ _)
  unfold setFields
  refine .trans ?_ (.ite ⟨rfl, rfl, rfl, rfl, rfl, rfl, rfl, .inl rfl, id, .inl rfl, id, .inl rfl, id⟩)
  refine .trans ?_ (.ite ⟨rfl, rfl, rfl, rfl, rfl, rfl, rfl, .inl rfl, id, .inl rfl, id, .inl rfl, id⟩)
  refine .trans ?_ (.ite ⟨rfl, rfl, rfl, rfl, rfl, rfl, rfl, .inl rfl, id, .inl rfl, id, .inl rfl, id⟩)
  refine .trans ?_ (.ite ⟨rfl, rfl, rfl, rfl, rfl, rfl, rfl, .inl rfl, id, .inl rfl, id, .inl rfl, id⟩)
  exact hmode.trans (.ite ⟨rfl, rfl, rfl, rfl, rfl, rfl, rfl, .inl rfl, id, .inl rfl, id, .inl rfl, id⟩)

theorem truncate_keeps (hk : Reliable fsi.kernel) (hg : Geometry fsi)
    (hfuel : fsi.clusterCount < fsi.kernel.fuel) (h : Coherent fsi l s) (size : Nat) :
    WP (truncate fsi size) s fun _ s' => ∃ l', FileStep fsi l l' s s' := by
  refine (truncate_to hk hg hfuel h rfl).mono fun r s' hr => ?_
  rcases hr with ⟨ext, ⟨-, st, -⟩ | ⟨-, st, -⟩⟩
  · exact ⟨_, st⟩
  · exact ⟨_, st⟩

theorem setattrFv_ends (hk : Reliable fsi.kernel) (hg : Geometry fsi)
    (hfuel : fsi.clusterCount < fsi.kernel.fuel) (h : OnGood fsi l s) (hreg : s.fv.type = .vreg)
    (p : Nat) {vap : Vattr} (hat : vap.atSize = true) :
    WP (setattrFv fsi vap) s fun r s' => (∃ l', FileStep fsi l l' s s') ∧
      (VnOp.setattr p vap).Ends fsi l s r s'.fv.size := by
  have hasks : (VnOp.setattr p vap).asks s = vap.size := rfl
  have hrun : WP (if fsi.vfsRdonly = true then fail .erofs else do
      truncate fsi vap.size
      modifyFv (setFields vap)) s fun r s' => (∃ l', FileStep fsi l l' s s') ∧
        (VnOp.setattr p vap).Ends fsi l s r s'.fv.size := by
    refine .ite (fun hro => .of_run rfl ⟨⟨l, .refl h.coherent⟩, .inr ⟨_, rfl, fun hp => hp.1 hro⟩⟩) fun hro => ?_
    refine .bind ((truncate_room hk hg hfuel h hreg vap.size).and
      (truncate_keeps hk hg hfuel h.coherent vap.size)) ?_ ?_ ?_
    · rintro _ s1 ⟨⟨-, hle, -, hsz⟩ | ⟨he, -⟩, l', st⟩
      · have k := setFields_sameFile vap s1.fv
        refine .of_run rfl ⟨⟨l', st.trans (.of_fv st.coherent (.refl _) (setFields_keeps _ _) k.cluster
          k.clsCache)⟩, .inl ⟨rfl, ?_, .inl ⟨hro, hle⟩⟩⟩
        rw [hasks, show (setFields vap s1.fv).size = s1.fv.size from k.size, hsz]
        split <;> omega
      · cases he
    · rintro e s1 ⟨⟨he, -⟩ | ⟨he, hlt, -⟩, l', st⟩
      · cases he
      · exact ⟨⟨l', st⟩, .inr ⟨e, rfl, fun hp => absurd hp.2 (not_le.mpr hlt)⟩⟩
    · rintro s1 ⟨⟨he, -⟩ | ⟨he, -⟩, -⟩ <;> cases he
  unfold WP at hrun ⊢
  rwa [setattrFv_size hat hreg]

/-! ## The limit -/

/-- The vnode at `p` is of a regular file on a good FAT whose entry is slot `i` of the directory with
the clusters `cs`. -/
structure FileAt (fsi : Fsi) (cs l : List Nat) (i p : Nat) (fv : Fv) (s : Sys) : Prop where
  live : s.vnodes p = some fv
  type : fv.type = .vreg
  good : OnGood fsi l ⟨s.vol, fv⟩
  entry : SizeKept fsi cs i ⟨s.vol, fv⟩
  apart : cs.Disjoint l
  parent : ∀ q, fv.parentVp = some q → ∃ parent, s.vnodes q = some parent

/-- When the call succeeds, the size is below 4 GiB and comes back; a call that asks for more
fails. -/
structure VnOp.WithinLimit (fsi : Fsi) (cs : List Nat) (p : Nat) (fv : Fv) (s : Sys) (op : VnOp) :
    Prop where
  fits : (op.exec fsi s).1 = .ok () → ∃ fv', (op.exec fsi s).2.vnodes p = some fv' ∧
    fv'.size < 2 ^ 32 ∧ Returns fsi cs ⟨(op.exec fsi s).2.vol, fv'⟩
  refused : 2 ^ 32 ≤ op.asks ⟨s.vol, fv⟩ → ∃ e, (op.exec fsi s).1 = .err e

variable {p : Nat} {fv : Fv} {u : Sys}

/-- A flush of a vnode whose parent is live. -/
theorem syncMetadata_run (hp : u.vnodes p = some fv) (hparent : ∀ q, fv.parentVp = some q → ∃ parent, u.vnodes q = some parent)
    (h : updateFdentry fsi ⟨u.vol, fv⟩ = (.ok (), s')) :
    syncMetadata fsi p u = (.ok (), { u with vol := s'.vol, vnodes := Function.update u.vnodes p (some s'.fv) }) := by
  have hflush := onVnode_some (m := updateFdentry fsi) hp
  rw [h] at hflush
  unfold syncMetadata
  rw [bind_ok (getVnode_some hp)]
  cases hq : fv.parentVp with
  | none => exact hflush
  | some q =>
    obtain ⟨parent, hlive⟩ := hparent q hq
    exact (bind_ok (getVnode_some hlive)).trans hflush

/-- The flush at the end of `setattr`. -/
theorem flush_run (hk : Reliable fsi.kernel) (hg : Geometry fsi) (hp : u.vnodes p = some fv)
    (hparent : ∀ q, fv.parentVp = some q → ∃ parent, u.vnodes q = some parent)
    (h : SizeKept fsi cs i ⟨u.vol, fv⟩) :
    WP (do
      let fv ← getVnode p
      if fv.flags.dirty then syncMetadata fsi p else pure ()) u fun r u' => r = .ok () ∧
        ∃ fv', u'.vnodes p = some fv' ∧ fv'.size = fv.size ∧
          (fv.size < 2 ^ 32 → SizeKept fsi cs i ⟨u'.vol, fv'⟩) := by
  refine .ok_bind (getVnode_some hp) (.ite (fun hd => ?_) fun _ => ?_)
  · obtain ⟨s', e, hrun, hfv, -⟩ := updateFdentry_slots hk hg h.entry
    refine .of_run (syncMetadata_run hp hparent hrun) ⟨rfl, s'.fv, Function.update_self .., ?_, fun hsize => ?_⟩
    · rw [hfv, if_pos hd]
      rfl
    · obtain ⟨s'', hrun', -, h', -⟩ := h.flush hk hg hsize
      rw [hrun] at hrun'
      obtain rfl : s' = s'' := congrArg Prod.snd hrun'
      exact h'
  · exact .of_run rfl ⟨rfl, fv, hp, rfl, fun _ => h⟩

/-- How a call that sets the size ends, and what it leaves. -/
theorem FileAt.run (hk : Reliable fsi.kernel) (hg : Geometry fsi)
    (hfuel : fsi.clusterCount < fsi.kernel.fuel) (h : FileAt fsi cs l i p fv u) {op : VnOp}
    (hop : op.SetsSize p) : WP (op.exec fsi) u fun r u' => ∃ fv', u'.vnodes p = some fv' ∧
      op.Ends fsi l ⟨u.vol, fv⟩ r fv'.size ∧
      (r = .ok () → fv'.size < 2 ^ 32 → SizeKept fsi cs i ⟨u'.vol, fv'⟩) := by
  obtain ⟨hlive, hreg, hgood, hentry, hapart, hparent⟩ := h
  cases op with
  | write q append uio =>
    obtain rfl : q = p := hop
    refine onVnode_wp hlive ((write_ends hk hg hgood hreg q append uio).mono fun r s' hr => ?_)
    obtain ⟨⟨l', st⟩, hends⟩ := hr
    exact ⟨s'.fv, Function.update_self .., hends, fun _ _ => hentry.step hapart st⟩
  | setattr q vap =>
    obtain ⟨rfl, hat⟩ := hop
    have hset : WP (onVnode q (setattrFv fsi vap)) u fun r u1 => ∃ s1 : VnSt,
        u1 = { u with vol := s1.vol, vnodes := Function.update u.vnodes q (some s1.fv) } ∧
        (∃ l', FileStep fsi l l' ⟨u.vol, fv⟩ s1) ∧
        (VnOp.setattr q vap).Ends fsi l ⟨u.vol, fv⟩ r s1.fv.size :=
      onVnode_wp hlive ((setattrFv_ends hk hg hfuel hgood hreg q hat).mono fun r s1 h1 => ⟨s1, rfl, h1⟩)
    refine .bind hset ?_ ?_ ?_
    · rintro _ _ ⟨s1, rfl, ⟨l', st⟩, hends⟩
      refine (flush_run hk hg (Function.update_self ..) (fun q' hq' => ?_)
        (hentry.step hapart st)).mono ?_
      · by_cases hqq : q' = q
        · exact ⟨s1.fv, by rw [hqq]; exact Function.update_self ..⟩
        · obtain ⟨parent, hlive'⟩ := hparent q' (st.fv.parentVp ▸ hq')
          exact ⟨parent, (Function.update_of_ne hqq ..).trans hlive'⟩
      · rintro r u2 ⟨rfl, fv', hp', hsz, hkept⟩
        exact ⟨fv', hp', hsz ▸ hends, fun _ hlt => hkept (hsz ▸ hlt)⟩
    · rintro e _ ⟨s1, rfl, -, hends⟩
      exact ⟨s1.fv, Function.update_self .., hends, nofun⟩
    · rintro _ ⟨s1, rfl, -, ⟨he, -⟩ | ⟨e, he, -⟩⟩ <;> cases he
  | _ => exact absurd hop id

/-- A call keeps to the limit when it asks for less, or would fail anyway; there is no other
check. -/
theorem within_limit_iff (hk : Reliable fsi.kernel) (hg : Geometry fsi)
    (hfuel : fsi.clusterCount < fsi.kernel.fuel) (hlist : Listable fsi cs)
    (h : FileAt fsi cs l i p fv u) (hsize : fv.size < 2 ^ 32) (op : VnOp) (hop : op.SetsSize p) :
    op.WithinLimit fsi cs p fv u ↔
      op.asks ⟨u.vol, fv⟩ < 2 ^ 32 ∨ ¬ op.Proceeds fsi l ⟨u.vol, fv⟩ := by
  have hrun := h.run hk hg hfuel hop
  unfold WP at hrun
  obtain ⟨fv', hp', hends, hkept⟩ := hrun
  constructor
  · rintro ⟨-, hrefused⟩
    by_contra hno
    obtain ⟨hasks, hproceeds⟩ := not_or.mp hno
    obtain ⟨e, he⟩ := hrefused (not_lt.mp hasks)
    rcases hends with ⟨hok, -⟩ | ⟨-, -, hn⟩
    · rw [he] at hok
      cases hok
    · exact hproceeds hn
  · intro hcond
    refine ⟨fun hok => ?_, fun hasks => ?_⟩
    · have hlt : fv'.size < 2 ^ 32 := by
        rcases hends with ⟨-, hle, hor⟩ | ⟨e, he, -⟩
        · have hasks : op.asks ⟨u.vol, fv⟩ < 2 ^ 32 := by
            rcases hcond with hc | hc
            · exact hc
            · exact hor.resolve_left hc
          dsimp only at hle
          omega
        · rw [he] at hok
          cases hok
      exact ⟨fv', hp', hlt, (hkept hok hlt).returns hk hg hlist hlt⟩
    · have hno := hcond.resolve_left (not_lt.mpr hasks)
      rcases hends with ⟨-, -, hor⟩ | ⟨e, he, -⟩
      · exact absurd (hor.resolve_left hno) (not_lt.mpr hasks)
      · exact ⟨e, he⟩

/-- A volume of two clusters: the root, and a file of 100 bytes. -/
def hundredVol : Vol := image [clusterEoc, clusterEoc] fun c => if c = 2 then [shortEntry 65 0 3 100] else []

def hundredFv : Fv :=
  { vnode := some 1, cluster := 3, type := .vreg, size := 100, dirsz := 1, parentCluster := 2, parentVp := some 0 }

/-- The file is open. -/
def hundred : Sys where
  vol := hundredVol
  vnodes q := if q = 0 then some { vnode := some 0, cluster := 2, type := .vdir, flags := { root := true } }
    else if q = 1 then some hundredFv else none
  vcount q := if q < 2 then 1 else 0

theorem hundred_fileAt : FileAt (small 2) [2] [3] 0 1 hundredFv hundred := by
  have hfin : ∀ c ∈ [2, 3], fatFin (small 2) (view (small 2) hundredVol.disk).fat c := by
    simp only [fatFin]
    decide +kernel
  have hgood : Good (small 2) {2, 3} hundredVol := by
    refine ⟨⟨fun h hh => ⟨[h], .last (hfin h (by simpa using hh))⟩, fun c hc _ => ?_⟩,
      by decide +kernel, by decide +kernel, by decide +kernel⟩
    have hmem : c = 2 ∨ c = 3 := by
      have h2 := hc.1
      have h3 : c ≤ 3 := hc.2
      omega
    refine ⟨c, ⟨by simpa using hmem, [c], .last (hfin c (by simpa using hmem)), by simp⟩, ?_⟩
    rintro h ⟨hh, l, hl, hcl⟩
    have hlast : FatChain (small 2) (view (small 2) hundredVol.disk).fat h [h] :=
      .last (hfin h (by simpa using hh))
    obtain rfl := hl.unique (fatEnds small_geometry _) hlast
    exact (List.mem_singleton.mp hcl).symm
  refine ⟨rfl, rfl, ⟨.of_chain (.last (hfin 3 (by decide))) .empty, {2, 3}, hgood, .inr (by decide)⟩,
    ⟨⟨.last (hfin 2 (by decide)), by decide, ?_, rfl, by decide⟩, .inr fun e he => ?_⟩, ?_, ?_⟩
  · rw [length_dirSlots]
    decide
  · have hsz : (volSlots (small 2) [2] hundredVol)[0]?.map Slot.fileSize = some 100 := by
      decide +kernel
    have he' : (volSlots (small 2) [2] hundredVol)[0]? = some e := he
    rw [he'] at hsz
    exact Option.some.inj hsz
  · simp
  · intro q hq
    obtain rfl : 0 = q := Option.some.inj hq
    exact ⟨_, rfl⟩

/-- One byte at offset 100 or at offset 2^41, whose cluster index is 2^32. -/
def byteAt (offset : Nat) : VnOp := .write 1 false ⟨offset, 1, fun _ => 0, 0⟩

theorem within_limit_append : (byteAt 100).WithinLimit (small 2) [2] 1 hundredFv hundred :=
  (within_limit_iff ⟨fun _ => rfl⟩ small_geometry (by decide) ⟨by decide, by decide, by decide⟩
    hundred_fileAt (by decide) (byteAt 100) rfl).mpr (.inl (by decide))

/-- The byte is stored in the first cluster, and the size becomes 2^41 + 1. -/
theorem write_passes_limit : FileAt (small 2) [2] [3] 0 1 hundredFv hundred ∧
    ((byteAt (2 ^ 41)).exec (small 2) hundred).1 = .ok () ∧
    (((byteAt (2 ^ 41)).exec (small 2) hundred).2.vnodes 1).map Fv.size = some (2 ^ 41 + 1) ∧
    ¬ (byteAt (2 ^ 41)).WithinLimit (small 2) [2] 1 hundredFv hundred := by
  have hok : ((byteAt (2 ^ 41)).exec (small 2) hundred).1 = .ok () := by decide +kernel
  refine ⟨hundred_fileAt, hok, by decide +kernel, fun h => ?_⟩
  obtain ⟨e, he⟩ := h.refused (by decide)
  rw [hok] at he
  cases he

end Fat32
