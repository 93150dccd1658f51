import Mathlib
import Fat32.Proof.SizeLimit
import Fat32.Proof.Time
import Fat32.Proof.Walk

/-!
# Flushing a vnode and reading it back

`fat32_update_fdentry` stores each field whose flag is set in its own bytes of the entry
(`flushEntry_frame`), and `fat32_get_dirent` reads the same bytes (`flushEntry_fields`). So the
flushed fields of a vnode come back from the entry, as far as its times have room
(`updateFdentry_restores`). A flush that fails leaves the flags.
-/

namespace Fat32

open Bytes Exec Prog Linked

variable {fsi : Fsi} {cs : List Nat} {s s' t : VnSt} {i k : Nat} {fv : Fv}

/-! ## The bytes of the fields -/

/-- The bytes of an 8.3 entry that hold the fields of the flags. -/
def VnFlags.Covers (f : VnFlags) (j : Nat) : Prop :=
  (f.atime ∧ (j = 18 ∨ j = 19)) ∨ (f.mtime ∧ 22 ≤ j ∧ j ≤ 25) ∨ (f.ctime ∧ 13 ≤ j ∧ j ≤ 17) ∨
    (f.attr ∧ j = 11) ∨ (f.size ∧ 28 ≤ j) ∨ (f.cluster ∧ (j = 20 ∨ j = 21 ∨ j = 26 ∨ j = 27))

theorem ite_slot {b : Bool} {x y : Slot} {j : Fin 32} (h : b = true → x j = y j) :
    (if b then x else y) j = y j := by
  cases b with
  | false => rfl
  | true => exact h rfl

/-- A flush changes no other byte of the entry. -/
theorem flushEntry_frame (fv : Fv) (e : Slot) (j : Fin 32) (h : ¬ fv.flags.Covers j) :
    flushEntry fv e j = e j := by
  have hword (x : Slot) {o val : Nat} (hj : j.val ≠ o ∧ j.val ≠ o + 1) : x.set16 o val j = x j := by
    rw [Slot.set16, if_neg hj.1, if_neg hj.2]
  have hbyte (x : Slot) {o : Nat} {val : UInt8} (hj : j.val ≠ o) : x.setByte o val j = x j := by
    rw [Slot.setByte, if_neg hj]
  unfold VnFlags.Covers at h
  unfold flushEntry Slot.setFirstCluster Slot.setFileSize Slot.set32 Slot.setAttr Slot.setCreateTimeTenth
    Slot.setCreateTime Slot.setCreateDate Slot.setWriteTime Slot.setWriteDate Slot.setLastAccessDate
  refine (ite_slot fun hf => ?_).trans ((ite_slot fun hf => ?_).trans ((ite_slot fun hf => ?_).trans
    ((ite_slot fun hf => ?_).trans ((ite_slot fun hf => ?_).trans (ite_slot fun hf => ?_)))))
  all_goals simp only [hf, true_and] at h
  · rw [hword _ (by omega), hword _ (by omega)]
  · rw [hword _ (by omega), hword _ (by omega)]
  · exact hbyte _ (by omega)
  · rw [hbyte _ (by omega), hword _ (by omega), hword _ (by omega)]
  · rw [hword _ (by omega), hword _ (by omega)]
  · exact hword _ (by omega)

theorem Slot.ite_at (b : Bool) (x y : Slot) (j : Fin 32) :
    (if b then x else y) j = if b then x j else y j := by
  cases b <;> rfl

/-- The fields of an entry after a flush. -/
structure Flushed (fv : Fv) (e : Slot) : Prop where
  atime : fv.flags.atime = true → e.lastAccessDate = (unixToFatTime fv.atime).date
  mtime : fv.flags.mtime = true →
    e.writeDate = (unixToFatTime fv.mtime).date ∧ e.writeTime = (unixToFatTime fv.mtime).time
  ctime : fv.flags.ctime = true → e.createDate = (unixToFatTime fv.ctime).date ∧
    e.createTime = (unixToFatTime fv.ctime).time ∧ e.createTimeTenth.toNat = (unixToFatTime fv.ctime).tenths
  attr : fv.flags.attr = true → e.attr = fv.attr
  size : fv.flags.size = true → e.fileSize = fv.size % 2 ^ 32
  cluster : fv.flags.cluster = true → e.firstCluster = fv.cluster % 2 ^ 32

section Fields

attribute [local simp] flushEntry Slot.ite_at Slot.set16 Slot.setByte Slot.setFirstCluster Slot.setFileSize
  Slot.set32 Slot.setAttr Slot.setCreateTimeTenth Slot.setCreateTime Slot.setCreateDate Slot.setWriteTime
  Slot.setWriteDate Slot.setLastAccessDate le16_byteOf

theorem flushEntry_fields (fv : Fv) (e : Slot) : Flushed fv (flushEntry fv e) := by
  have hdate (x : Timespec) : (unixToFatTime x).date % 65536 = (unixToFatTime x).date :=
    Nat.mod_eq_of_lt (unixToFatTime_lt x).1
  have htime (x : Timespec) : (unixToFatTime x).time % 65536 = (unixToFatTime x).time :=
    Nat.mod_eq_of_lt (unixToFatTime_lt x).2.1
  have htenths (x : Timespec) : (unixToFatTime x).tenths % 256 = (unixToFatTime x).tenths :=
    Nat.mod_eq_of_lt (unixToFatTime_lt x).2.2
  refine ⟨fun h => ?_, fun h => ⟨?_, ?_⟩, fun h => ⟨?_, ?_, ?_⟩, fun h => ?_, fun h => ?_, fun h => ?_⟩
  · simp [Slot.lastAccessDate, h, hdate]
  · simp [Slot.writeDate, h, hdate]
  · simp [Slot.writeTime, h, htime]
  · simp [Slot.createDate, h, hdate]
  · simp [Slot.createTime, h, htime]
  · simp [Slot.createTimeTenth, h, htenths]
  · simp [Slot.attr, h]
  · rw [flushEntry_fileSize, if_pos h]
  · have hlo : fv.cluster &&& 0xFFFF = fv.cluster % 65536 := Nat.and_two_pow_sub_one_eq_mod _ 16
    simp [Slot.firstCluster, Slot.firstClusterLo, Slot.firstClusterHi, h, hlo, u16, Nat.shiftRight_eq_div_pow]
    omega

end Fields

/-! ## Reading the entry -/

/-- The values a vnode may have for the fields of the entry. -/
structure Fv.Storable (fv : Fv) : Prop where
  size : fv.size < 2 ^ 32
  cluster : fv.cluster < 2 ^ 32
  attr : fv.attr &&& attrVolumeId = 0
  atime : fv.atime.Stored
  mtime : fv.mtime.Stored
  ctime : fv.ctime.Stored

/-- `fv'` has the flushed fields of `fv`: the times to the day, to two seconds and to 10 ms. -/
structure Restores (fv fv' : Fv) : Prop where
  size : fv.flags.size = true → fv'.size = fv.size
  cluster : fv.flags.cluster = true → fv'.cluster = fv.cluster
  attr : fv.flags.attr = true → fv'.attr = fv.attr
  atime : fv.flags.atime = true → fv'.atime = ⟨fv.atime.sec - fv.atime.sec % 86400, 0⟩
  mtime : fv.flags.mtime = true → fv'.mtime = ⟨fv.mtime.sec - fv.mtime.sec % 2, 0⟩
  ctime : fv.flags.ctime = true → fv'.ctime = ⟨fv.ctime.sec, fv.ctime.nsec / 10000000 * 10000000⟩

theorem Flushed.restores {e : Slot} (h : Flushed fv e) (hst : fv.Storable) (d : Nat) (st : Scan) (efv : Fv) :
    Restores fv (fillEntry d e st efv) := by
  refine ⟨fun hf => ?_, fun hf => ?_, fun hf => ?_, fun hf => ?_, fun hf => ?_, fun hf => ?_⟩
  · exact (h.size hf).trans (Nat.mod_eq_of_lt hst.size)
  · exact (h.cluster hf).trans (Nat.mod_eq_of_lt hst.cluster)
  · exact h.attr hf
  · show fatToUnixTime e.lastAccessDate 0 0 = _
    rw [h.atime hf]
    exact hst.atime.read.2.2
  · show fatToUnixTime e.writeDate e.writeTime 0 = _
    rw [(h.mtime hf).1, (h.mtime hf).2]
    exact hst.mtime.read.2.1
  · show fatToUnixTime e.createDate e.createTime e.createTimeTenth.toNat = _
    obtain ⟨hdate, htime, htenths⟩ := h.ctime hf
    rw [hdate, htime, htenths]
    exact hst.ctime.read.1

/-- A flush leaves a live entry live. -/
theorem flushEntry_isEntry {e : Slot} (he : e.IsEntry) (hattr : fv.attr &&& attrVolumeId = 0) :
    (flushEntry fv e).IsEntry := by
  have hfirst : (flushEntry fv e).first = e.first := flushEntry_frame fv e 0 (by simp [VnFlags.Covers])
  refine ⟨by rw [hfirst]; exact he.1, by rw [hfirst]; exact he.2.1, ?_⟩
  by_cases hf : fv.flags.attr = true
  · rw [(flushEntry_fields fv e).attr hf]
    exact hattr
  · have hsame : (flushEntry fv e).attr = e.attr := flushEntry_frame fv e 11 (by simp [VnFlags.Covers, hf])
    rw [hsame]
    exact he.2.2

/-- The slots from `k` on that a scan passes on its way to slot `i`. -/
def Passed (l : List Slot) (k i : Nat) : Prop :=
  k ≤ i ∧ ∀ m, k ≤ m → m < i → ∀ x, l[m]? = some x → x.first ≠ 0 ∧ ¬ x.IsEntry

/-- A scan ends at the first entry. -/
theorem scanSlots_first (dn : Nat) {l : List Slot} {e : Slot} (he : e.IsEntry) (hi : l[i]? = some e)
    (h : Passed l 0 i) (st : Scan) : ∃ st', scanSlots dn l st = .entry e st' := by
  induction l generalizing i st with
  | nil => exact nomatch hi
  | cons x l ih =>
    rw [scanSlots]
    cases i with
    | zero =>
      obtain rfl := Option.some.inj hi
      rcases scanSlot_cases dn x st with ⟨h0, -⟩ | ⟨-, hne, -⟩ | ⟨-, st', hs⟩
      · exact absurd h0 he.1
      · exact absurd he hne
      · rw [hs]
        exact ⟨st', rfl⟩
    | succ i =>
      obtain ⟨h0, hne⟩ := h.2 0 (Nat.zero_le _) (Nat.succ_pos i) x rfl
      rcases scanSlot_cases dn x st with ⟨h0', -⟩ | ⟨-, -, st', hs⟩ | ⟨he', -⟩
      · exact absurd h0' h0
      · rw [hs]
        exact ih hi ⟨Nat.zero_le _, fun m _ hm => h.2 (m + 1) (Nat.zero_le _) (by omega)⟩ st'
      · exact absurd he' hne

/-- A call at an offset before an entry, with no other one between, returns that entry. -/
theorem getDirent_first (hk : Reliable fsi.kernel) (hg : Geometry fsi) (hfuel : cs.length ≤ fsi.kernel.fuel)
    (h : IsDir fsi cs t) {e : Slot} (he : e.IsEntry) (hi : (readSlots fsi cs t.vol)[i]? = some e)
    (hlt : 32 * i < 2 ^ 32) (hpass : Passed (readSlots fsi cs t.vol) k i) (d : DName) (efv : Option Fv) :
    ∃ st, (getDirent fsi (32 * k) d efv t).1 = .ok (direntOut t.fv.cluster efv e st) := by
  have hki := hpass.1
  have hdrop : ((readSlots fsi cs t.vol).drop k)[i - k]? = some e := by
    rw [List.getElem?_drop, Nat.add_sub_cancel' hki]
    exact hi
  have hfirst : Passed ((readSlots fsi cs t.vol).drop k) 0 (i - k) := by
    refine ⟨Nat.zero_le _, fun m _ hm x hx => ?_⟩
    rw [List.getElem?_drop] at hx
    exact hpass.2 (k + m) (Nat.le_add_right _ _) (by omega) x hx
  obtain ⟨st, hscan⟩ := scanSlots_first d.size he hdrop hfirst { offset := 32 * k, name := d }
  refine ⟨st, ?_⟩
  rw [getDirent_slots hk hg hfuel h (by omega), direntScan, hscan]

/-! ## A flush -/

/-- On a device that may fail, a flush fails or does what it does on one that answers. -/
theorem updateFdentry_failsOr : FailsOr SameVn (updateFdentry fsi) (updateFdentry fsi.answering) := by
  have hclear : FailsOr SameVn clearDirty clearDirty :=
    (Sim.modify fun s t h => ⟨h.1, by rw [h.2]⟩).failsOr
  unfold updateFdentry
  refine .get_bind fun s t h => ?_
  rw [h.2]
  refine .ite (fun _ => (Sim.pure _).failsOr) fun _ => .ite (fun _ => hclear) fun _ =>
    .ite (fun _ => .bind hclear fun _ => (Sim.fail _).failsOr) fun _ => ?_
  refine .bind (onVol_failsOr ?_) fun c => .bind (onVol_failsOr (readCluster_failsOr c)) fun bp =>
    .bind hclear fun _ => onVol_failsOr (bdwrite_sim _).failsOr
  rw [seekCluster_eq, seekCluster_eq]
  exact seekLoop_failsOr _ _

/-- A flush that fails on the way to its entry changes nothing in the vnode. -/
theorem updateFdentry_err {e : Errno} (hpar : s.fv.parentCluster ≠ clusterBad)
    (h : updateFdentry fsi s = (.err e, s')) : s'.fv = s.fv := by
  have hrun : WP (updateFdentry fsi) s fun r s' => ∀ e, r = .err e → s'.fv = s.fv := by
    unfold updateFdentry
    refine .get_bind (.ite (fun _ => .of_run (pure_run _ _) nofun) fun _ => .ite (fun _ => .of_run (modifyFv_run _ _) nofun) fun _ =>
      .ite (fun hbad => absurd hbad hpar) fun _ => ?_)
    refine .on_bind (R := fun _ _ => True) (.of_run (Prod.mk.eta).symm trivial) (fun c v _ => ?_) (fun e v _ _ _ => rfl) fun _ _ _ h => nomatch h
    refine .on_bind (R := fun _ _ => True) (.of_run (Prod.mk.eta).symm trivial) (fun bp v _ => ?_) (fun e v _ _ _ => rfl) fun _ _ _ h => nomatch h
    obtain ⟨v', hb, -⟩ := bdwrite_ok bp.sector bp.nblk (putSlot bp.data (s.fv.targetOffset &&& fsi.clusterMask)
      (flushEntry s.fv (slotAt bp.data (s.fv.targetOffset &&& fsi.clusterMask)))) v
    exact .ok_bind (modifyFv_run _ _) (.of_run (onVol_run hb) fun _ h => nomatch h)
  unfold WP at hrun
  rw [h] at hrun
  exact hrun e rfl

theorem EntryAt.answering (h : EntryAt fsi cs i s) : EntryAt fsi.answering cs i s :=
  ⟨h.chain, h.offset, h.inside, h.notRoot, h.parent⟩

theorem IsDir.answering (h : IsDir fsi cs t) : IsDir fsi.answering cs t := ⟨h.type, h.path, h.cache⟩

theorem putSlot_at (d : Nat → UInt8) (p : Nat) (e : Slot) (j : Fin 32) : putSlot d p e (p + j) = e j := by
  rw [putSlot, dif_pos ⟨by omega, by omega⟩]
  exact congrArg e (Fin.ext (Nat.add_sub_cancel_left p j.val))

/-- Storing what a slot holds changes nothing. -/
theorem putSlot_slotAt (d : Nat → UInt8) (p : Nat) : putSlot d p (slotAt d p) = d := by
  funext x
  by_cases hx : p ≤ x ∧ x < p + 32
  · rw [putSlot, dif_pos hx]
    show d (p + (x - p)) = d x
    rw [Nat.add_sub_cancel' hx.1]
  · rw [putSlot, dif_neg hx]

/-- Nor does a flush of a vnode that is not dirty. -/
theorem flushEntry_clean (h : fv.flags.dirty = false) (e : Slot) : flushEntry fv e = e := by
  simp only [VnFlags.dirty, Bool.or_eq_false_iff] at h
  refine funext fun j => flushEntry_frame fv e j ?_
  simp [VnFlags.Covers, h]

/-- A flush of a vnode with its live entry at slot `i` of the directory. An error leaves the flags
alone. A success clears them, changes no bytes but those of the flushed fields, and the entry is then
read with the values of the vnode. -/
theorem updateFdentry_restores (hg : Geometry fsi) (hfuel : cs.length ≤ fsi.kernel.fuel)
    (h : EntryAt fsi cs i s) (hlive : ∀ e, (volSlots fsi cs s.vol)[i]? = some e → e.IsEntry)
    (hst : s.fv.Storable) :
    (∀ e s', updateFdentry fsi s = (.err e, s') → s'.fv.flags = s.fv.flags) ∧
    ∀ s', updateFdentry fsi s = (.ok (), s') →
      s'.fv.flags.dirty = false ∧
      (∀ x, s'.vol.disk x ≠ s.vol.disk x →
        ∃ j < 32, x = slotAddr fsi cs i + j ∧ s.fv.flags.Covers j) ∧
      ∀ t : VnSt, t.vol.disk = s'.vol.disk → IsDir fsi cs t →
        ∀ k, Passed (volSlots fsi cs s.vol) k i → ∀ d efv,
          (∀ out, (getDirent fsi (32 * k) d (some efv) t).1 = .ok out →
            ∃ fv', out.entryFv = some fv' ∧ Restores s.fv fv') ∧
          (Reliable fsi.kernel → ∃ out, (getDirent fsi (32 * k) d (some efv) t).1 = .ok out) := by
  refine ⟨fun e s' hrun => ?_, fun s' hrun => ?_⟩
  · rw [updateFdentry_err h.parent hrun]
  obtain ⟨s1, hrun1, hfv, hdisk⟩ := updateFdentry_run (answering_reliable fsi) (answering_geometry hg) h.answering
  have hsame : s'.fv = s1.fv ∧ s'.vol.disk = s1.vol.disk := by
    rcases updateFdentry_failsOr s s ⟨.refl _, rfl⟩ with ⟨e, he⟩ | ⟨-, hv, hf⟩
    · rw [hrun] at he
      cases he
    · rw [hrun, hrun1] at hv hf
      exact ⟨hf.symm, hv.disk.symm⟩
  have hslot := volSlots_at hg h.chain.inRange h.inside
  obtain ⟨p, hp⟩ : ∃ p, slotAddr fsi cs i = p := ⟨_, rfl⟩
  obtain ⟨e, he⟩ : ∃ e, slotAt s.vol.disk p = e := ⟨_, rfl⟩
  have hnew : s'.vol.disk = putSlot s.vol.disk p (flushEntry s.fv e) := by
    rw [hsame.2, hdisk, ← he]
    split
    · rw [← hp]
      rfl
    · rw [flushEntry_clean (Bool.eq_false_of_not_eq_true ‹_›), putSlot_slotAt]
  rw [hp, he] at hslot
  rw [hp]
  refine ⟨?_, fun x hx => ?_, fun t ht hdir k hpass d efv => ?_⟩
  · rw [hsame.1, hfv]
    split
    · rfl
    · exact Bool.eq_false_of_not_eq_true ‹_›
  · rw [hnew] at hx
    by_cases hin : p ≤ x ∧ x < p + 32
    · obtain ⟨j, rfl⟩ := Nat.exists_eq_add_of_le hin.1
      refine ⟨j, by omega, rfl, ?_⟩
      by_contra hc
      refine hx ?_
      have hbyte := flushEntry_frame s.fv e ⟨j, by omega⟩ hc
      rw [← he] at hbyte ⊢
      exact (putSlot_at s.vol.disk p _ ⟨j, by omega⟩).trans hbyte
    · rw [putSlot, dif_neg hin] at hx
      exact absurd rfl hx
  · -- the directory after the flush
    have hnd := h.chain.nodup (fatEnds hg _)
    have hslots : readSlots fsi cs t.vol = (volSlots fsi cs s.vol).set i (flushEntry s.fv e) := by
      rw [readSlots_eq hg h.chain.inRange, volSlots, ht]
      exact (Edited.of_putSlot hg hnd h.chain.inRange h.inside (by rw [hnew, hp])).slots
    have hisE : (flushEntry s.fv e).IsEntry := flushEntry_isEntry (hlive e hslot) hst.attr
    have hlt : 32 * i < 2 ^ 32 := by
      rw [← h.offset]
      exact Nat.mod_lt _ (by decide)
    have hpass' : Passed (readSlots fsi cs t.vol) k i := by
      refine ⟨hpass.1, fun m hkm hm x hx => hpass.2 m hkm hm x ?_⟩
      rw [hslots, List.getElem?_set_ne (by omega)] at hx
      exact hx
    obtain ⟨st, hget⟩ := getDirent_first (answering_reliable fsi) (answering_geometry hg) hfuel hdir.answering
      hisE (i := i) (by rw [show readSlots fsi.answering cs t.vol = _ from hslots, List.getElem?_set_self h.inside])
      hlt hpass' d (some efv)
    have hback := (flushEntry_fields s.fv e).restores hst t.fv.cluster st efv
    constructor
    · intro out hout
      rcases getDirent_failsOr (32 * k) d (some efv) t t ⟨.refl _, rfl⟩ with ⟨e, he⟩ | ⟨heq, -⟩
      · rw [hout] at he
        cases he
      · rw [hout, hget] at heq
        rw [Out.ok.inj heq]
        exact ⟨_, rfl, hback⟩
    · intro hk
      exact (getDirent_first hk hg hfuel hdir hisE (by rw [hslots, List.getElem?_set_self h.inside]) hlt hpass' d
        (some efv)).elim fun st hget => ⟨_, hget⟩

/-- The file of 100 bytes with all fields changed. -/
def touched : VnSt where
  vol := hundredVol
  fv := { hundredFv with
    size := 90
    attr := 0x21
    atime := ⟨951868799, 995000000⟩
    mtime := ⟨951868799, 995000000⟩
    ctime := ⟨951868799, 995000000⟩
    flags := { atime := true, mtime := true, size := true, cluster := true, ctime := true, attr := true } }

theorem touched_restores : ∃ s' out fv', updateFdentry (small 2) touched = (.ok (), s') ∧
    s'.fv.flags.dirty = false ∧
    (getDirent (small 2) 0 ⟨fun _ => 0, dNameSize⟩ (some (vnodeNew (small 2)))
      ⟨s'.vol, { type := .vdir, cluster := 2 }⟩).1 = .ok out ∧
    out.entryFv = some fv' ∧ Restores touched.fv fv' := by
  have hentry : EntryAt (small 2) [2] 0 touched :=
    ⟨hundred_fileAt.entry.entry.chain, rfl, hundred_fileAt.entry.entry.inside, rfl, by decide⟩
  have hstamp : Timespec.Stored ⟨951868799, 995000000⟩ := ⟨by decide, by decide, by decide⟩
  have hlive : ∀ e, (volSlots (small 2) [2] touched.vol)[0]? = some e → e.IsEntry := by
    intro e he
    have h : (volSlots (small 2) [2] touched.vol)[0]?.all (fun e => decide e.IsEntry) = true := by
      decide +kernel
    rw [he] at h
    exact of_decide_eq_true h
  obtain ⟨s', _, hrun, -, -, E⟩ := updateFdentry_slots ⟨fun _ => rfl⟩ small_geometry hentry
  obtain ⟨hclean, -, hdecode⟩ := (updateFdentry_restores small_geometry (by decide) hentry hlive
    ⟨by decide, by decide, by decide, hstamp, hstamp, hstamp⟩).2 s' hrun
  obtain ⟨hback, hreads⟩ := hdecode ⟨s'.vol, { type := .vdir, cluster := 2 }⟩ rfl
    ⟨rfl, (E.chain hentry.chain).path small_geometry, .empty⟩ 0 ⟨le_refl 0, fun _ _ h => nomatch h⟩
    ⟨fun _ => 0, dNameSize⟩ (vnodeNew (small 2))
  obtain ⟨out, hout⟩ := hreads ⟨fun _ => rfl⟩
  obtain ⟨fv', hfv, hrest⟩ := hback out hout
  exact ⟨s', out, fv', hrun, hclean, hout, hfv, hrest⟩

end Fat32
