import Mathlib
import Fat32.Proof.Create
import Fat32.Proof.Rename

/-!
# The identity of an entry

A vnode has the place of its entry from the call that created it, or from a lookup that found the entry. Both
are the place in the tidy directory (`VnodeOf`), which `fat32_pack_ino` makes a number of without loss
(`unpack_ino`), so `fat32_cmp` tells entries apart (`entry_identity`).
-/

namespace Fat32

open Bytes Exec Prog Linked FirstFit

variable {fsi : Fsi} {cs : List Nat} {D : List Slot} {s t u u' : Sys} {d i p q dir : Nat} {name nm : List UInt8}
  {fv fv' dfv : Fv} {es : List DirEntry} {x y : DirEntry}

/-! ## The inode number -/

def Identity.ino (t : Identity) : Nat := packIno t.parentCluster t.diroff t.dirsz

/-- `fat32_unpack_ino`. -/
def Identity.ofIno (ino : Nat) : Identity := ⟨(unpackIno ino).1, (unpackIno ino).2.1, (unpackIno ino).2.2⟩

/-- The fields have the bits that the number has for them. -/
structure Identity.Fits (t : Identity) : Prop where
  parentCluster : t.parentCluster < 2 ^ 28
  aligned : 32 ∣ t.diroff
  diroff : t.diroff < 2 ^ 32
  dirsz : t.dirsz < 2 ^ 8

/-- The number as a sum. -/
theorem packIno_eq (c o n : Nat) : packIno c o n = c % 2 ^ 28 * 2 ^ 36 + o / 32 % 2 ^ 28 * 2 ^ 8 + n % 2 ^ 8 := by
  have h28 : 0x0FFFFFFF = 2 ^ 28 - 1 := rfl
  have h8 : 0xFF = 2 ^ 8 - 1 := rfl
  have hlow : o / 32 % 2 ^ 28 * 2 ^ 8 < 2 ^ 36 := by omega
  rw [packIno, h28, h8]
  simp only [Nat.and_two_pow_sub_one_eq_mod]
  rw [Nat.shiftLeft_eq (o / 32 % 2 ^ 28), ← Nat.shiftLeft_add_eq_or_of_lt hlow, Nat.shiftLeft_eq]
  have hsum : c % 2 ^ 28 * 2 ^ 36 + o / 32 % 2 ^ 28 * 2 ^ 8 = (c % 2 ^ 28 * 2 ^ 28 + o / 32 % 2 ^ 28) <<< 8 := by
    rw [Nat.shiftLeft_eq]
    omega
  rw [hsum, ← Nat.shiftLeft_add_eq_or_of_lt (Nat.mod_lt n (by decide))]

theorem unpack_ino {t : Identity} (h : t.Fits) : Identity.ofIno t.ino = t := by
  obtain ⟨c, o, n⟩ := t
  obtain ⟨hc, ho, ho', hn⟩ := h
  dsimp only at hc ho ho' hn
  have h28 : 0x0FFFFFFF = 2 ^ 28 - 1 := rfl
  have h8 : 0xFF = 2 ^ 8 - 1 := rfl
  have hino : Identity.ino ⟨c, o, n⟩ = c * 2 ^ 36 + o / 32 * 2 ^ 8 + n := by
    rw [Identity.ino, packIno_eq]
    dsimp only
    rw [Nat.mod_eq_of_lt hc, Nat.mod_eq_of_lt hn, Nat.mod_eq_of_lt (show o / 32 < 2 ^ 28 by omega)]
  rw [hino, Identity.ofIno, unpackIno]
  simp only [h28, h8, Nat.and_two_pow_sub_one_eq_mod, Nat.shiftRight_eq_div_pow, u32, Identity.mk.injEq]
  omega

/-- A set has at most 31 entries. -/
theorem CompleteSet.length_lt {S : List Slot} {e : Slot} (h : CompleteSet S e) : S.length < 32 := by
  obtain ⟨hnum, hne, -⟩ := h
  cases S with
  | nil => exact absurd rfl hne
  | cons s T =>
    have hseq := hnum.2.1
    have hlt := s.seqNum_lt
    rw [List.length_cons]
    omega

theorem Tidy.set_lt (h : Tidy i D es) : ∀ x ∈ es, x.set.length < 32 := by
  induction h with
  | nil => exact nofun
  | stop => exact nofun
  | pass _ _ _ ih => exact ih
  | entry hS _ _ ih =>
    intro x hx
    rcases List.mem_cons.mp hx with rfl | hx
    · rcases hS with rfl | hS
      · exact Nat.zero_lt_succ _
      · exact hS.length_lt
    · exact ih x hx

theorem Tidy.fits (h : Tidy 0 D es) (hlt : 32 * D.length < 2 ^ 32) (hd : d < 2 ^ 28) (hx : x ∈ es) : (x.identity d).Fits := by
  have hset := h.set_lt x hx
  obtain ⟨-, hstart⟩ := h.le x hx
  have hslot := h.slot_lt x hx
  refine ⟨hd, Nat.dvd_mul_right _ _, ?_, ?_⟩
  · show 32 * x.start < 2 ^ 32
    omega
  · show x.set.length + 1 < 2 ^ 8
    omega

/-- Two entries of a directory are in different places. -/
theorem Tidy.identity_inj (h : Tidy 0 D es) (hx : x ∈ es) (hy : y ∈ es) (heq : x.identity d = y.identity d) : x = y := by
  obtain ⟨-, hx'⟩ := h.le x hx
  obtain ⟨-, hy'⟩ := h.le y hy
  obtain ⟨-, hoff, hsz⟩ := Identity.mk.inj heq
  exact h.unique x hx y hy (by omega)

/-- The vnode is live then, and the others are as they were. -/
theorem attach_made (h : attach fv s = (.ok (some p), t)) :
    t.vnodes = Function.update s.vnodes p (some fv) ∧ t.vol = s.vol := by
  unfold attach at h
  rcases hvn : fv.vnode with _ | vp <;> rw [hvn] at h
  · cases h
  · rcases hq : fv.parentVp with _ | q <;> rw [hq] at h
    · cases h
      exact ⟨rfl, rfl⟩
    · cases h
      exact ⟨rfl, rfl⟩

theorem attach_ok (h : attach fv s = (.ok (some p), t)) : t.vnodes p = some fv := by
  rw [(attach_made h).1]
  exact Function.update_self p _ _

/-! ## Looking up -/

/-- What a lookup stores of the place of an entry. -/
theorem Scanned.identity {z : Slot × Scan} (h : Scanned z y) (hstart : y.start + y.set.length = y.slot)
    (hlt : 32 * y.slot < 2 ^ 32) (d : Nat) (fv : Fv) : (fillEntry d z.1 z.2 fv).identity = y.identity d := by
  have hsz : u32 (sub32 z.2.offset z.2.entryStart / dentrySize + 1) = y.set.length + 1 := by
    rw [h.offset, h.start, ← hstart]
    simp only [u32, sub32, dentrySize]
    omega
  show Identity.mk d z.2.entryStart (u32 (sub32 z.2.offset z.2.entryStart / dentrySize + 1)) = _
  rw [hsz, h.start]
  rfl

/-- The enumeration of the slots `D`, as a lookup makes it. -/
def listed (fsi : Fsi) (D : List Slot) : List (Slot × Scan) :=
  entries D { offset := 0, name := ⟨Function.update fsi.kernel.stack 0 0, dNameSize⟩ }

theorem listed_tidy (h : Tidy 0 D es) (hlt : 32 * D.length < 2 ^ 32) : List.Forall₂ Scanned (listed fsi D) es :=
  entries_tidy h rfl rfl (by rwa [Nat.zero_add])

theorem Forall₂.exists_mem {α β : Type} {R : α → β → Prop} {l : List α} {m : List β} (h : List.Forall₂ R l m) {a : α}
    (ha : a ∈ l) : ∃ b ∈ m, R a b := by
  induction h with
  | nil => exact nomatch ha
  | cons hab _ ih =>
    rcases List.mem_cons.mp ha with rfl | ha
    · exact ⟨_, List.mem_cons_self, hab⟩
    · obtain ⟨b, hb, hr⟩ := ih ha
      exact ⟨b, List.mem_cons_of_mem _ hb, hr⟩

/-- An enumerated entry has the place of an entry of the directory. -/
theorem listed_identity {z : Slot × Scan} (h : Tidy 0 D es) (hlt : 32 * D.length < 2 ^ 32) (hz : z ∈ listed fsi D) (d : Nat)
    (fv : Fv) : ∃ y ∈ es, (fillEntry d z.1 z.2 fv).identity = y.identity d ∧ z.2.offset = 32 * y.slot := by
  obtain ⟨y, hy, hscan⟩ := Forall₂.exists_mem (listed_tidy h hlt) hz
  have hslot := h.slot_lt y hy
  exact ⟨y, hy, hscan.identity (h.le y hy).2 (by omega) d fv, hscan.offset⟩

/-- The one at the 8.3 entry of `x` has the place of `x`, whatever the slots behind it are. -/
theorem listed_at {z : Slot × Scan} (h : HasEntry D x) (hlt : 32 * D.length < 2 ^ 32) (hz : z ∈ listed fsi D) (d : Nat) (fv : Fv)
    (hat : (fillEntry d z.1 z.2 fv).targetOffset = 32 * x.slot) : (fillEntry d z.1 z.2 fv).identity = x.identity d := by
  have hslot := h.slot_lt
  obtain ⟨es, h⟩ := h
  obtain ⟨j, hj, hoff, hp⟩ := entries_placed (i := 0) rfl (by omega) ⟨Nat.dvd_zero _, show 0 < 2 ^ 32 by decide⟩ hz
  have hjl := (List.getElem?_eq_some_iff.mp hj).1
  rw [Nat.zero_add] at hoff
  rw [fillEntry_targetOffset hoff (by omega) hp] at hat
  have hlen : (D.take (x.slot + 1)).length = x.slot + 1 := List.length_take_of_le hslot
  have hz' : z ∈ listed fsi (D.take (x.slot + 1)) := by
    refine entries_before (i := 0) (Q := D.drop (x.slot + 1)) rfl ?_ ⟨Nat.dvd_zero _, show 0 < 2 ^ 32 by decide⟩ ?_ (by omega)
    · rw [List.take_append_drop]
      omega
    · rw [List.take_append_drop]
      exact hz
  obtain ⟨y, hy, hid, hoff'⟩ := listed_identity h (by omega) hz' d fv
  rwa [h.unique y hy x (by simp) (by omega)] at hid

/-- The vnode of a directory, with what a lookup through it needs. -/
structure DirVnode (fsi : Fsi) (cs : List Nat) (u : Sys) (q : Nat) (dfv : Fv) : Prop where
  vnodes : u.vnodes q = some dfv
  vnode : dfv.vnode ≠ none
  dir : IsDir fsi cs ⟨u.vol, dfv⟩
  listable : Listable fsi cs
  inRange : ∀ c ∈ cs, InRange fsi c

theorem Listable.volSlots_bytes (h : Listable fsi cs) (v : Vol) : 32 * (volSlots fsi cs v).length < 2 ^ 32 := by
  rw [volSlots, length_dirSlots]
  exact h.bytes

/-- A search fills the vnode from the first entry with the name. -/
theorem findDirent_first (hk : Reliable fsi.kernel) (hg : Geometry fsi) {t : VnSt} (hl : Listable fsi cs) (h : IsDir fsi cs t)
    (hr : ∀ c ∈ cs, InRange fsi c) (hf : (findDirent fsi nm (vnodeNew fsi) t).1 = .ok fv) :
    ∃ z, (listed fsi (volSlots fsi cs t.vol)).find? (fun z => nameMatch (nm.take 255) z.2.name) = some z ∧
      fv = fillEntry t.fv.cluster z.1 z.2 (vnodeNew fsi) := by
  have hlen : (volSlots fsi cs t.vol).length = cs.length * slotsPer fsi := length_dirSlots _ _
  have hread := readSlots_eq hg hr t.vol
  have hfind := findDirent_slots hk hg hl.chain h (by rw [hread, hlen]; exact hl.slots)
    (by rw [hread]; exact hl.volSlots_bytes t.vol) nm
  rw [hread, lookupEntry, ← listed, hf] at hfind
  rcases hz : (listed fsi (volSlots fsi cs t.vol)).find? fun z => nameMatch (nm.take 255) z.2.name with _ | z
  · rw [hz] at hfind
    cases hfind
  · rw [hz] at hfind
    exact ⟨z, hz, Out.ok.inj hfind⟩

/-- The vnode of an entry that was found. -/
theorem makeEntryVnode_made (h : makeEntryVnode fsi dfv fv s = (.ok (some p), t)) :
    ∃ fv' v, makeVnode fsi fv.cluster fv.type fv (dfv.vnode.map fun vp => (vp, dfv.cluster)) s.vol = (.ok fv', v) ∧
      t.vnodes = Function.update s.vnodes p (some fv') ∧ Same s.vol t.vol := by
  have hsame : Same s.vol (makeVnode fsi fv.cluster fv.type fv (dfv.vnode.map fun vp => (vp, dfv.cluster)) s.vol).2 :=
    (makeVnode_quiet _ _ _ _ s.vol).same
  unfold makeEntryVnode at h
  rcases hm : makeVnode fsi fv.cluster fv.type fv (dfv.vnode.map fun vp => (vp, dfv.cluster)) s.vol with ⟨fv' | e | _, v⟩
  · rw [bind_ok (show onSysVol _ s = (.ok fv', { s with vol := v }) from on_run hm)] at h
    obtain ⟨hvn, hvol⟩ := attach_made h
    rw [hm] at hsame
    exact ⟨fv', v, rfl, hvn, by rwa [hvol]⟩
  · rw [bind_err (show onSysVol _ s = (.err e, { s with vol := v }) from on_run hm)] at h
    cases h
  · rw [bind_hang (show onSysVol _ s = (.hang, { s with vol := v }) from on_run hm)] at h
    cases h

/-- A lookup makes the vnode of the entry that it finds. -/
theorem lookup_made (hp : u.vnodes q = some dfv) (hdot : isDot nm = false) (h : lookup fsi q nm u = (.ok (some p), u')) :
    ∃ fv, (findDirent fsi nm (vnodeNew fsi) ⟨u.vol, dfv⟩).1 = .ok fv ∧
      makeEntryVnode fsi dfv fv (onVnode q (findDirent fsi nm (vnodeNew fsi)) u).2 = (.ok (some p), u') := by
  have hdot' : ¬ (nm = [46] ∨ nm = [46, 46]) := of_decide_eq_false hdot
  unfold lookup at h
  rw [bind_ok (getVnode_some hp)] at h
  split at h
  · cases h
  · rw [if_neg fun h => hdot' (.inl h), if_neg fun h => hdot' (.inr h)] at h
    have hrun := @onVnode_some _ _ _ _ (findDirent fsi nm (vnodeNew fsi)) hp
    rcases hf : (findDirent fsi nm (vnodeNew fsi) ⟨u.vol, dfv⟩).1 with fv | e | _
    · rw [hf] at hrun
      rw [bind_ok hrun] at h
      rw [hrun]
      exact ⟨fv, rfl, h⟩
    · rw [hf] at hrun
      rw [bind_err hrun] at h
      cases h
    · rw [hf] at hrun
      rw [bind_hang hrun] at h
      cases h

/-- A lookup returns the vnode of an enumerated entry. -/
theorem lookup_listed (hk : Reliable fsi.kernel) (hg : Geometry fsi) (hq : DirVnode fsi cs u q dfv) (hdot : isDot nm = false)
    (h : lookup fsi q nm u = (.ok (some p), u')) :
    ∃ z ∈ listed fsi (volSlots fsi cs u.vol), ∃ fv, u'.vnodes p = some fv ∧
      fv.identity = (fillEntry dfv.cluster z.1 z.2 (vnodeNew fsi)).identity ∧
      (fv.flags.root = true → fv.type = .vdir ∧ fv.cluster = fsi.rootCluster) := by
  obtain ⟨vp, hvp⟩ := Option.ne_none_iff_exists'.mp hq.vnode
  obtain ⟨fv, hf, hmade⟩ := lookup_made hq.vnodes hdot h
  obtain ⟨z, hz, hfv⟩ := findDirent_first hk hg hq.listable hq.dir hq.inRange hf
  obtain ⟨fv', v, hm, hvn, -⟩ := makeEntryVnode_made hmade
  refine ⟨z, List.mem_of_find?_eq_some hz, fv', by rw [hvn]; exact Function.update_self p _ _, ?_, makeVnode_root hm⟩
  rw [makeVnode_identity hm, hvp, hfv]
  rfl

/-- In a tidy directory the vnode is that of an entry. -/
theorem lookup_entry (hk : Reliable fsi.kernel) (hg : Geometry fsi) (hq : DirVnode fsi cs u q dfv)
    (htidy : Tidy 0 (volSlots fsi cs u.vol) es) (hdot : isDot nm = false) (h : lookup fsi q nm u = (.ok (some p), u')) :
    ∃ y ∈ es, ∃ fv, u'.vnodes p = some fv ∧ VnodeOf fsi dfv.cluster y fv := by
  obtain ⟨z, hz, fv, hp, hid, hroot⟩ := lookup_listed hk hg hq hdot h
  have hbytes := hq.listable.volSlots_bytes u.vol
  obtain ⟨y, hy, hidy, -⟩ := listed_identity htidy hbytes hz dfv.cluster (vnodeNew fsi)
  exact ⟨y, hy, fv, hp, hid.trans hidy, hroot⟩

/-- A lookup that returns the 8.3 entry of `x` gives the vnode of `x`. -/
theorem lookup_at (hk : Reliable fsi.kernel) (hg : Geometry fsi) (hq : DirVnode fsi cs u q dfv)
    (hhas : HasEntry (volSlots fsi cs u.vol) x) (hdot : isDot nm = false) (h : lookup fsi q nm u = (.ok (some p), u'))
    (hp : u'.vnodes p = some fv) (hat : fv.targetOffset = 32 * x.slot) : VnodeOf fsi dfv.cluster x fv := by
  obtain ⟨z, hz, fv', hp', hid, hroot⟩ := lookup_listed hk hg hq hdot h
  obtain rfl : fv' = fv := Option.some.inj (hp'.symm.trans hp)
  have hbytes := hq.listable.volSlots_bytes u.vol
  refine ⟨hid.trans (listed_at hhas hbytes hz _ _ ?_), hroot⟩
  obtain ⟨-, hoff, hsz⟩ := Identity.mk.inj hid
  rw [← hat, Fv.targetOffset, Fv.targetOffset, hoff, hsz]

/-! ## Creating -/

/-- A call that makes an entry for the name: of `fat32_create`, where the name is not found, or of
`fat32_mkdir`. -/
inductive CreatesEntry (fsi : Fsi) (dir : Nat) (name : List UInt8) (s : Sys) (p : Nat) (t : Sys) : Prop
  | file (vap : Vattr) (excl : Bool) (mode : Access) (cr : Cred)
      (hnew : (onVnode dir (findDirent fsi name (vnodeNew fsi)) s).1 = .err .enoent)
      (h : create fsi dir name vap excl mode cr s = (.ok (some p), t))
  | dir (vap : Vattr) (cr : Cred) (h : mkdir fsi dir name vap cr s = (.ok (some p), t))

/-- A call of `fat32_create` that returns goes on with the entry it found, or makes one. -/
theorem create_cases {vap : Vattr} {excl : Bool} {mode : Access} {cr : Cred} {r : Option Nat} (hdir : s.vnodes dir = some dfv)
    (h : create fsi dir name vap excl mode cr s = (.ok r, t)) :
    (∃ fv, (findDirent fsi name (vnodeNew fsi) ⟨s.vol, dfv⟩).1 = .ok fv ∧ createExisting fsi dir dfv fv vap excl mode cr
      (onVnode dir (findDirent fsi name (vnodeNew fsi)) s).2 = (.ok r, t)) ∨
    (findDirent fsi name (vnodeNew fsi) ⟨s.vol, dfv⟩).1 = .err .enoent ∧ createNew fsi dir name vap.mode {}
      (onVnode dir (findDirent fsi name (vnodeNew fsi)) s).2 = (.ok r, t) := by
  have hrun := onVnode_some (m := findDirent fsi name (vnodeNew fsi)) hdir
  unfold create at h
  rw [bind_ok (getVnode_some hdir)] at h
  by_cases htype : dfv.type = .vdir
  · rw [if_neg (not_not.mpr htype)] at h
    cases hacc : faccess fsi dfv { write := true, exec := true } cr with
    | some e =>
      rw [hacc] at h
      cases h
    | none =>
      rw [hacc] at h
      dsimp only at h
      rcases hf : (findDirent fsi name (vnodeNew fsi) ⟨s.vol, dfv⟩).1 with fv | e | _
      · rw [hf] at hrun
        rw [bind_ok (attempt_ok hrun)] at h
        rw [hrun]
        exact .inl ⟨fv, rfl, h⟩
      · rw [hf] at hrun
        rw [bind_ok (attempt_err hrun)] at h
        dsimp only at h
        by_cases he : e = .enoent
        · rw [if_neg (not_not.mpr he)] at h
          rw [hrun]
          exact .inr ⟨by rw [he], h⟩
        · rw [if_pos he] at h
          cases h
      · rw [hf] at hrun
        rw [bind_run, attempt, hrun] at h
        cases h
  · rw [if_pos htype] at h
    cases h

/-- Such a call ends in the part that makes the entry. -/
theorem CreatesEntry.createNew (h : CreatesEntry fsi dir name s p t) (hdir : s.vnodes dir = some dfv) :
    ∃ mode flags, flags.rename = false ∧ flags.reuse = false ∧
      createNew fsi dir name mode flags (onVnode dir (findDirent fsi name (vnodeNew fsi)) s).2 = (.ok (some p), t) := by
  cases h with
  | file vap excl mode cr hnew h =>
    rcases create_cases hdir h with ⟨fv, hfv, -⟩ | ⟨-, h⟩
    · rw [onVnode_some hdir, hfv] at hnew
      cases hnew
    · exact ⟨vap.mode, {}, rfl, rfl, h⟩
  | dir vap cr h =>
    refine ⟨vap.mode, { dir := true }, rfl, rfl, ?_⟩
    unfold mkdir at h
    rw [bind_ok (getVnode_some hdir)] at h
    by_cases htype : dfv.type = .vdir
    · rw [if_neg (not_not.mpr htype)] at h
      cases hacc : faccess fsi dfv { write := true, exec := true } cr with
      | some e =>
        rw [hacc] at h
        cases h
      | none =>
        rw [hacc] at h
        dsimp only at h
        rcases hfind : onVnode dir (findDirent fsi name (vnodeNew fsi)) s with ⟨fv | e | _, s1⟩
        · rw [bind_ok (attempt_ok hfind)] at h
          dsimp only at h
          split at h <;> cases h
        · rw [bind_ok (attempt_err hfind)] at h
          dsimp only at h
          split at h
          · cases h
          · exact h
        · rw [bind_run, attempt, hfind] at h
          cases h
    · rw [if_pos htype] at h
      cases h

/-- What it attaches is the vnode with the times set. -/
theorem createNew_attached {mode : Nat} {flags : CreFlags} (hdir : s.vnodes dir = some dfv)
    (h : createNew fsi dir name mode flags s = (.ok (some p), t)) :
    ∃ fv1 t1 now dfv', createFdentry fsi { vnodeNew fsi with mode := mode } name flags ⟨s.vol, dfv⟩ = (.ok fv1, t1) ∧
      Same t1.vol t.vol ∧ t.vnodes = Function.update (Function.update s.vnodes dir (some dfv')) p (some { fv1 with
        ctime := now
        mtime := now
        atime := now
        flags := { fv1.flags with mtime := true, atime := true, modified := true } }) := by
  unfold Fat32.createNew at h
  have hrun := @onVnode_some _ _ _ _ (createFdentry fsi { vnodeNew fsi with mode := mode } name flags) hdir
  obtain ⟨⟨r, t1⟩, hcf⟩ : ∃ r, createFdentry fsi { vnodeNew fsi with mode := mode } name flags ⟨s.vol, dfv⟩ = r := ⟨_, rfl⟩
  rw [hcf] at hrun
  rcases r with fv1 | e | _
  · rw [bind_ok hrun] at h
    obtain ⟨now, v, e, hs⟩ := nanotime_same fsi t1.vol
    have htouch : touch fsi false false fv1 t1.vol = (.ok { fv1 with
        ctime := now
        mtime := now
        atime := now
        flags := { fv1.flags with mtime := true, atime := true, modified := true } }, v) := bind_ok e
    obtain ⟨w, hw⟩ : ∃ w, touchFv fsi false true ⟨v, t1.fv⟩ = (.ok (), w) := ⟨_, rfl⟩
    have hws : Same v w.vol := by
      have hq := (@touchFv_quiet fsi false true ⟨v, t1.fv⟩).same
      rwa [hw] at hq
    have hdir' : Function.update s.vnodes dir (some t1.fv) dir = some t1.fv := Function.update_self ..
    have hrun' := onVnode_some (s := ⟨v, Function.update s.vnodes dir (some t1.fv), s.vcount⟩)
      (m := touchFv fsi false true) hdir'
    rw [hw] at hrun'
    rw [bind_ok (show onSysVol _ _ = _ from on_run htouch), bind_ok hrun'] at h
    obtain ⟨hvn, hvol⟩ := attach_made h
    rw [Function.update_idem] at hvn
    exact ⟨fv1, t1, now, w.fv, hcf, by rw [hvol]; exact hs.trans hws, hvn⟩
  · rw [bind_err hrun] at h
    cases h
  · rw [bind_hang hrun] at h
    cases h

/-- The entry that a call makes, and its vnode. -/
theorem CreatesEntry.entry (hk : Reliable fsi.kernel) (hg : Geometry fsi) (h : CreatesEntry fsi dir name s p t)
    (hdir : s.vnodes dir = some dfv) (hvp : dfv.vnode ≠ none) (hfuel : cs.length ≤ fsi.kernel.fuel)
    (hl : FatChain fsi (view fsi s.vol.disk).fat dfv.cluster cs) (hsize : fsi.bytesPerCluster * cs.length < 2 ^ 32)
    (htidy : Tidy 0 (volSlots fsi cs s.vol) es) (hname : SevenBit name) :
    ∃ cs' x fv, NewEntry fsi dfv.cluster cs cs' name x s.vol t.vol ∧ t.vnodes p = some fv ∧ VnodeOf fsi dfv.cluster x fv := by
  obtain ⟨mode, flags, hren, hreuse, hnew⟩ := h.createNew hdir
  -- the search has changed no more than the cache
  have hfind := @onVnode_some _ _ _ _ (findDirent fsi name (vnodeNew fsi)) hdir
  have hsame : Same s.vol (findDirent fsi name (vnodeNew fsi) ⟨s.vol, dfv⟩).2.vol :=
    (findDirent_quiet name (vnodeNew fsi) ⟨s.vol, dfv⟩).same
  have hcache : CacheOnly dfv (findDirent fsi name (vnodeNew fsi) ⟨s.vol, dfv⟩).2.fv :=
    findDirent_caches name (vnodeNew fsi) ⟨s.vol, dfv⟩
  rw [hfind] at hnew
  obtain ⟨w, hw⟩ : ∃ w, (findDirent fsi name (vnodeNew fsi) ⟨s.vol, dfv⟩).2 = w := ⟨_, rfl⟩
  rw [hw] at hnew hsame hcache
  obtain ⟨fv1, t1, now, dfv', hrun, hs, hvn⟩ := createNew_attached (Function.update_self dir _ _) hnew
  obtain ⟨cache, hfv⟩ := hcache
  obtain ⟨vp, hvp⟩ := Option.ne_none_iff_exists'.mp hvp
  have hcl : w.fv.cluster = dfv.cluster := by rw [hfv]
  have hdisk : w.vol.disk = s.vol.disk := hsame.disk
  obtain ⟨cs', x, hentry, hx⟩ := createFdentry_entry (s := w) hk hg hfuel (by rw [hdisk, hcl]; exact hl) hsize
    (by rw [volSlots_same hsame]; exact htidy) hname (by rw [hfv]; exact hvp) hren hreuse hrun
  rw [hcl] at hentry hx
  refine ⟨cs', x, _, (hentry.of_same hs).before hsame, (congrFun hvn p).trans (Function.update_self p _ _), ?_⟩
  exact ⟨hx.identity, hx.root⟩

/-! ## Telling entries apart -/

/-- Directories of a volume: each has a chain of its own, is not too long to list, and has the entries `es`. -/
structure Directories (fsi : Fsi) {ι : Type} (start : ι → Nat) (chain : ι → List Nat) (es : ι → List DirEntry) (v : Vol) :
    Prop where
  start_inj : Function.Injective start
  fat : ∀ j, FatChain fsi (view fsi v.disk).fat (start j) (chain j)
  listable : ∀ j, Listable fsi (chain j)
  tidy : ∀ j, Tidy 0 (volSlots fsi (chain j) v) (es j)

/-- Where the entries of the directories are. -/
def identities {ι : Type} (start : ι → Nat) (es : ι → List DirEntry) : Set Identity :=
  { t | ∃ j, ∃ y ∈ es j, t = y.identity (start j) }

/-- The vnode is not of the root. -/
def NotRoot (fsi : Fsi) (fv : Fv) : Prop := ¬ (fv.type = .vdir ∧ fv.cluster = fsi.rootCluster)

section

variable {ι : Type} {start : ι → Nat} {chain : ι → List Nat} {ds : ι → List DirEntry} {v : Vol} {j k : ι} {fv1 fv2 : Fv}

theorem Directories.fits (hg : Geometry fsi) (h : Directories fsi start chain ds v) {t : Identity}
    (ht : t ∈ identities start ds) : t.Fits := by
  obtain ⟨j, y, hy, rfl⟩ := ht
  refine (h.tidy j).fits ((h.listable j).volSlots_bytes v) ?_ hy
  have hr := (h.fat j).inRange _ (h.fat j).head_mem
  have hcount := hg.count
  have hmax := hr.2
  simp only [clusterBad] at hcount
  omega

/-- `fat32_pack_ino` loses nothing of the places of entries. -/
theorem Directories.unpack (hg : Geometry fsi) (h : Directories fsi start chain ds v) :
    Set.LeftInvOn Identity.ofIno Identity.ino (identities start ds) := fun _ ht => unpack_ino (h.fits hg ht)

theorem VnodeOf.not_root (h : VnodeOf fsi d x fv) (hn : NotRoot fsi fv) : fv.flags.root = false :=
  Bool.eq_false_iff.mpr fun hroot => hn (h.root hroot)

/-- Of vnodes not of the root `fat32_cmp` compares the entries. -/
theorem Directories.cmp_iff (hg : Geometry fsi) (h : Directories fsi start chain ds v) (hx : x ∈ ds j) (hy : y ∈ ds k)
    (h1 : VnodeOf fsi (start j) x fv1) (h2 : VnodeOf fsi (start k) y fv2) (hn1 : NotRoot fsi fv1) (hn2 : NotRoot fsi fv2) :
    cmp fv1 fv2 = true ↔ j = k ∧ x = y := by
  have hcmp : cmp fv1 fv2 = decide (fv1.identity.ino = fv2.identity.ino) := by
    rw [cmp, h1.not_root hn1, h2.not_root hn2]
    rfl
  rw [hcmp, decide_eq_true_iff, h1.identity, h2.identity]
  constructor
  · intro heq
    have hid := (h.unpack hg).injOn ⟨j, x, hx, rfl⟩ ⟨k, y, hy, rfl⟩ heq
    obtain rfl : j = k := h.start_inj (Identity.mk.inj hid).1
    exact ⟨rfl, (h.tidy j).identity_inj hx hy hid⟩
  · rintro ⟨rfl, rfl⟩
    rfl

end

theorem VnodeOf.targetOffset (h : VnodeOf fsi d x fv) (hstart : x.start + x.set.length = x.slot) (hlt : 32 * x.slot < 2 ^ 32) :
    fv.targetOffset = 32 * x.slot := by
  obtain ⟨-, hoff, hsz⟩ := Identity.mk.inj h.identity
  rw [Fv.targetOffset, hoff, hsz, ← hstart]
  simp only [u32, sub32, dentrySize]
  omega

theorem NewEntry.start {cs' : List Nat} {v v' : Vol} (h : NewEntry fsi d cs cs' name x v v') :
    x.start + x.set.length = x.slot := by
  obtain ⟨es, htidy⟩ := h.tidy
  exact (htidy.le x (by simp)).2

/-- The vnode that `fat32_create` and `fat32_mkdir` make has the place of the new entry. A later lookup that returns
the entry finds the same place as long as its slots stay where they are; and of entries of the directories,
the places have different inode numbers and `fat32_cmp` tells them apart. -/
theorem entry_identity (hk : Reliable fsi.kernel) (hg : Geometry fsi) {ι : Type} {start : ι → Nat} {chain : ι → List Nat}
    {ds : ι → List DirEntry} (hdirs : Directories fsi start chain ds s.vol) {i : ι} (hdir : s.vnodes dir = some dfv)
    (hi : dfv.cluster = start i) (hvp : dfv.vnode ≠ none) (hname : SevenBit name) (h : CreatesEntry fsi dir name s p t) :
    (∃ cs' x fv, NewEntry fsi (start i) (chain i) cs' name x s.vol t.vol ∧ t.vnodes p = some fv ∧
      VnodeOf fsi (start i) x fv ∧
      ∀ u u' q qfv cs'' y nm p' fv', DirVnode fsi cs'' u q qfv → qfv.cluster = start i →
        HasEntry (volSlots fsi cs'' u.vol) y → y.slot = x.slot → y.set = x.set → isDot nm = false →
        lookup fsi q nm u = (.ok (some p'), u') → u'.vnodes p' = some fv' → fv'.targetOffset = fv.targetOffset →
        fv'.identity = fv.identity) ∧
    ∀ (κ : Type) (start' : κ → Nat) chain' ds' v, Directories fsi start' chain' ds' v →
      Set.LeftInvOn Identity.ofIno Identity.ino (identities start' ds') ∧
      Set.InjOn Identity.ino (identities start' ds') ∧
      (∀ u u' q qfv j nm p', u.vol = v → DirVnode fsi (chain' j) u q qfv → qfv.cluster = start' j → isDot nm = false →
        lookup fsi q nm u = (.ok (some p'), u') → ∃ y ∈ ds' j, ∃ fv', u'.vnodes p' = some fv' ∧ VnodeOf fsi (start' j) y fv') ∧
      ∀ j k, ∀ y ∈ ds' j, ∀ z ∈ ds' k, ∀ fv1 fv2, VnodeOf fsi (start' j) y fv1 → VnodeOf fsi (start' k) z fv2 →
        NotRoot fsi fv1 → NotRoot fsi fv2 → (cmp fv1 fv2 = true ↔ j = k ∧ y = z) := by
  refine ⟨?_, fun κ start' chain' ds' v hlater => ?_⟩
  · have hsize : fsi.bytesPerCluster * (chain i).length < 2 ^ 32 := by
      have hbytes := (hdirs.listable i).bytes
      rwa [bpc_slots hg, Nat.mul_assoc, Nat.mul_comm (slotsPer fsi)]
    obtain ⟨cs', x, fv, hnew, hp, hof⟩ := h.entry hk hg hdir hvp (hdirs.listable i).chain (by rw [hi]; exact hdirs.fat i)
      hsize (hdirs.tidy i) hname
    rw [hi] at hnew hof
    refine ⟨cs', x, fv, hnew, hp, hof, ?_⟩
    intro u u' q qfv cs'' y nm p' fv' hq hqi hhas hslot hset hdot hlook hp' hat
    -- the lookup returns the 8.3 entry
    have hbytes := hq.listable.volSlots_bytes u.vol
    have hlt := hhas.slot_lt
    rw [hof.targetOffset hnew.start (by omega), ← hslot] at hat
    have hof' := lookup_at hk hg hq hhas hdot hlook hp' hat
    rw [hof'.identity, hof.identity, hqi, DirEntry.identity, DirEntry.identity, DirEntry.start, DirEntry.start, hslot, hset]
  · refine ⟨hlater.unpack hg, (hlater.unpack hg).injOn, ?_, fun j k y hy z hz fv1 fv2 h1 h2 => hlater.cmp_iff hg hy hz h1 h2⟩
    intro u u' q qfv j nm p' hu hq hqj hdot hlook
    subst hu
    have hfound := lookup_entry hk hg hq (hlater.tidy j) hdot hlook
    rwa [hqj] at hfound

/-- The root of a volume of two clusters, and the vnode of it. -/
def emptyRootFv : Fv := { vnodeNew (small 2) with type := .vdir, cluster := 2, vnode := some 7 }

def emptyRoot : Sys where
  vol := image [clusterEoc, 0] fun _ => []
  vnodes := fun p => if p = 7 then some emptyRootFv else none
  vcount := fun _ => 1

theorem emptyRoot_directories :
    Directories (small 2) (fun _ : Unit => 2) (fun _ => [2]) (fun _ => []) emptyRoot.vol where
  start_inj := fun _ _ _ => rfl
  fat := fun _ => .last (by
    rw [fatFin]
    decide +kernel)
  listable := fun _ => ⟨by decide, by decide, by decide⟩
  tidy := fun _ => by
    have hfirst : (volSlots (small 2) [2] emptyRoot.vol).head?.map Slot.first = some 0 := by decide +kernel
    cases hD : volSlots (small 2) [2] emptyRoot.vol with
    | nil => exact .nil
    | cons s l =>
      rw [hD] at hfirst
      exact .stop (Option.some.inj hfirst)

theorem emptyRoot_mkdir : ∃ p t cs' x fv, mkdir (small 2) 7 [65] {} { uid := 0 } emptyRoot = (.ok (some p), t) ∧
    NewEntry (small 2) 2 [2] cs' [65] x emptyRoot.vol t.vol ∧ t.vnodes p = some fv ∧ VnodeOf (small 2) 2 x fv := by
  have hrun : (mkdir (small 2) 7 [65] {} { uid := 0 } emptyRoot).1 = .ok (some 0) := by decide +kernel
  obtain ⟨t, ht⟩ : ∃ t, mkdir (small 2) 7 [65] {} { uid := 0 } emptyRoot = (.ok (some 0), t) := by
    generalize mkdir (small 2) 7 [65] {} { uid := 0 } emptyRoot = r at hrun
    exact ⟨r.2, Prod.ext hrun rfl⟩
  have hname : SevenBit [65] := ⟨by simp, by decide⟩
  have hroot : emptyRoot.vnodes 7 = some emptyRootFv := by simp [emptyRoot]
  have hvp : emptyRootFv.vnode ≠ none := nofun
  obtain ⟨⟨cs', x, fv, hnew, hp, hof, -⟩, -⟩ := entry_identity ⟨fun _ => rfl⟩ small_geometry emptyRoot_directories
    (i := ()) hroot rfl hvp hname (.dir {} { uid := 0 } ht)
  exact ⟨0, t, cs', x, fv, ht, hnew, hp, hof⟩

end Fat32
