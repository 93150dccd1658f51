import Mathlib
import Fat32.Proof.Flush
import Fat32.Proof.Identity

/-!
# A vnode and its entry

A vnode caches the size, the first cluster and the attributes of its entry, each with a flag of its own. A call
through the vnode changes these fields together with their flags, and may store them in the entry then
(`EntryStep`). So a field whose flag is clear has the value of the entry after every run of such calls, if it has
it where the run begins.
-/

namespace Fat32

open Bytes Exec Prog Linked

variable {fsi : Fsi} {cs l l' : List Nat} {s s' : VnSt} {u u' : Sys} {i p : Nat} {fv fv' fv'' : Fv} {e e' : Slot}

/-! ## The fields -/

/-- The fields that `fat32_update_fdentry` stores, less the times. -/
inductive Field where
  | size | cluster | attr
  deriving DecidableEq, Repr

/-- If the flag of the field is clear, the entry has its value. -/
def Field.Agrees : Field → Fv → Slot → Prop
  | size, fv, e => fv.flags.size = false → e.fileSize = fv.size
  | cluster, fv, e => fv.flags.cluster = false → e.firstCluster = fv.cluster
  | attr, fv, e => fv.flags.attr = false → e.attr = fv.attr

/-- The entry has room for the field. -/
def Field.Fits : Field → Fv → Prop
  | size, fv => fv.size < 2 ^ 32
  | cluster, fv => fv.cluster < 2 ^ 32
  | attr, _ => True

theorem Field.Agrees.keeps {f : Field} (h : f.Agrees fv e) (k : FvKeeps fv fv') : f.Agrees fv' e := by
  cases f with
  | size =>
    intro hf
    rw [k.size.resolve_right (by rw [hf]; decide)]
    exact h (Bool.eq_false_iff.mpr fun hd => by rw [k.sizeFlag hd] at hf; cases hf)
  | cluster =>
    intro hf
    rw [k.cluster.resolve_right (by rw [hf]; decide)]
    exact h (Bool.eq_false_iff.mpr fun hd => by rw [k.clusterFlag hd] at hf; cases hf)
  | attr =>
    intro hf
    rw [k.attr.resolve_right (by rw [hf]; decide)]
    exact h (Bool.eq_false_iff.mpr fun hd => by rw [k.attrFlag hd] at hf; cases hf)

/-- After a flush the entry has the field, whether it was dirty or not. -/
theorem Field.Agrees.flush {f : Field} (h : f.Agrees fv e) (hfits : f.Fits fv) : f.Agrees fv.flushed (flushEntry fv e) := by
  have hfields := flushEntry_fields fv e
  have hframe {j : Fin 32} (hj : ¬ fv.flags.Covers j) : flushEntry fv e j = e j := flushEntry_frame fv e j hj
  cases f with
  | size =>
    intro _
    by_cases hf : fv.flags.size = true
    · exact (hfields.size hf).trans (Nat.mod_eq_of_lt hfits)
    · rw [flushEntry_fileSize, if_neg hf]
      exact h (Bool.eq_false_iff.mpr hf)
  | cluster =>
    intro _
    by_cases hf : fv.flags.cluster = true
    · exact (hfields.cluster hf).trans (Nat.mod_eq_of_lt hfits)
    · refine Eq.trans ?_ (h (Bool.eq_false_iff.mpr hf))
      have hno (j : Fin 32) (hj : j.val = 20 ∨ j.val = 21 ∨ j.val = 26 ∨ j.val = 27) : flushEntry fv e j = e j :=
        hframe fun hc => by
          rcases hc with ⟨-, hc⟩ | ⟨-, hc⟩ | ⟨-, hc⟩ | ⟨-, hc⟩ | ⟨-, hc⟩ | ⟨hc, -⟩
          · omega
          · omega
          · omega
          · omega
          · omega
          · exact hf hc
      simp only [Slot.firstCluster, Slot.firstClusterHi, Slot.firstClusterLo]
      rw [hno 20 (by decide), hno 21 (by decide), hno 26 (by decide), hno 27 (by decide)]
  | attr =>
    intro _
    by_cases hf : fv.flags.attr = true
    · exact hfields.attr hf
    · exact (hframe (j := 11) (by simp [VnFlags.Covers, hf])).trans (h (Bool.eq_false_iff.mpr hf))

/-! ## What a call does -/

/-- A change of a vnode: of the attributes it changes at most READ_ONLY. -/
structure FvChange (fv fv' : Fv) : Prop where
  keeps : FvKeeps fv fv'
  attr : fv'.attr ||| attrReadOnly = fv.attr ||| attrReadOnly

theorem FvChange.refl (fv : Fv) : FvChange fv fv := ⟨.refl fv, rfl⟩

theorem FvChange.trans (h : FvChange fv fv') (k : FvChange fv' fv'') : FvChange fv fv'' :=
  ⟨h.keeps.trans k.keeps, k.attr.trans h.attr⟩

theorem FvChange.of_attr (k : FvKeeps fv fv') (h : fv'.attr = fv.attr) : FvChange fv fv' := ⟨k, by rw [h]⟩

/-- What a call through a vnode does to it and its entry: it changes the vnode, and then may store it. -/
inductive EntryStep (fv : Fv) (e : Slot) : Fv → Slot → Prop
  | change {fv' : Fv} (h : FvChange fv fv') : EntryStep fv e fv' e
  | flush {fv' : Fv} (h : FvChange fv fv') : EntryStep fv e fv'.flushed (flushEntry fv' e)

theorem EntryStep.agrees {f : Field} (h : EntryStep fv e fv' e') (hfits : f.Fits fv') (ha : f.Agrees fv e) :
    f.Agrees fv' e' := by
  cases h with
  | change k => exact ha.keeps k.keeps
  | flush k =>
    refine (ha.keeps k.keeps).flush ?_
    cases f with
    | size => exact hfits
    | cluster => exact hfits
    | attr => trivial

/-- The attributes of the vnode and of the entry, but for READ_ONLY. -/
theorem EntryStep.attr (h : EntryStep fv e fv' e') (ha : e.attr ||| attrReadOnly = fv.attr ||| attrReadOnly) :
    e'.attr ||| attrReadOnly = fv'.attr ||| attrReadOnly ∧ e'.attr ||| attrReadOnly = e.attr ||| attrReadOnly := by
  cases h with
  | change k => exact ⟨ha.trans k.attr.symm, rfl⟩
  | @flush fv' k =>
    have hvn : fv'.attr ||| attrReadOnly = e.attr ||| attrReadOnly := k.attr.trans ha.symm
    by_cases hf : fv'.flags.attr = true
    · have hnew : (flushEntry fv' e).attr = fv'.attr := (flushEntry_fields fv' e).attr hf
      exact ⟨by rw [hnew]; rfl, by rw [hnew, hvn]⟩
    · have hsame : (flushEntry fv' e).attr = e.attr := flushEntry_frame fv' e 11 (by simp [VnFlags.Covers, hf])
      exact ⟨by rw [hsame, ← hvn]; rfl, by rw [hsame]⟩

/-! ## The attributes and the size -/

/-- A program that leaves `g` of the vnode alone. -/
def Fixes {α β : Type} (g : Fv → β) (m : FvM α) : Prop := Keeps (fun s t => g t.fv = g s.fv) m

namespace Fixes

variable {α β γ : Type} {g : Fv → γ} {m m' : FvM α}

theorem pure (a : α) : Fixes g (Pure.pure a) := fun _ => rfl

theorem fail (e : Errno) : Fixes g (Prog.fail e : FvM α) := fun _ => rfl

theorem bind {f : α → FvM β} (hm : Fixes g m) (hf : ∀ a, Fixes g (f a)) : Fixes g (m >>= f) :=
  Keeps.bind (R := fun (s t : VnSt) => g t.fv = g s.fv) (fun h k => k.trans h) hm hf

theorem get_bind {f : VnSt → FvM α} (hf : ∀ s, Fixes g (f s)) : Fixes g (Prog.get >>= f) := .bind (fun _ => rfl) hf

theorem attempt (hm : Fixes g m) : Fixes g (Prog.attempt m) := Keeps.attempt hm

theorem ite {c : Prop} [Decidable c] (hm : c → Fixes g m) (hm' : ¬ c → Fixes g m') : Fixes g (if c then m else m') :=
  Keeps.ite hm hm'

theorem onVol (m : FsM α) : Fixes g (Fat32.onVol m) := fun _ => rfl

theorem modifyFv {f : Fv → Fv} (h : ∀ fv, g (f fv) = g fv) : Fixes g (Fat32.modifyFv f) := fun s => h s.fv

/-- A search, if `g` is not of the cluster cache. -/
theorem caches (hm : Caches m) (h : ∀ fv cache, g { fv with clsCache := cache } = g fv) : Fixes g m := fun s => by
  obtain ⟨cache, hc⟩ := hm s
  show g (m s).2.fv = g s.fv
  rw [hc, h]

end Fixes

/-- The attributes and the size. -/
def Fv.attrSize (fv : Fv) : UInt8 × Nat := (fv.attr, fv.size)

theorem vnodeSeekCluster_fixes (n : Nat) (fl : NcFlags) : Fixes Fv.attrSize (vnodeSeekCluster fsi n fl) :=
  .caches (vnodeSeekCluster_caches n fl) fun _ _ => rfl

theorem touchFv_fixes (atime mtime : Bool) : Fixes Fv.attrSize (touchFv fsi atime mtime) := fun s => by
  obtain ⟨fv', v', e, -, hfv⟩ := touch_ok fsi atime mtime s.fv s.vol
  have hrun : touchFv fsi atime mtime s = (.ok (), ⟨v', fv'⟩) :=
    bind_ok (f := fun fv => modifyFv fun _ => fv) (onVol_run e)
  show Fv.attrSize (touchFv fsi atime mtime s).2.fv = _
  rw [hrun, hfv]
  rfl

theorem writeFirst_fixes : Fixes Fv.attrSize (writeFirst fsi) :=
  .get_bind fun _ => .ite (fun _ => .bind (.onVol _) fun _ => .modifyFv fun _ => rfl) fun _ => .pure _

/-- Truncation leaves the attributes. -/
theorem truncate_fixes (size : Nat) : Fixes Fv.attr (truncate fsi size) := by
  have hset {f : Fv → Fv} (h : ∀ fv, (f fv).attr = fv.attr) : Fixes Fv.attr (modifyFv f) := .modifyFv h
  have hzero : Fixes Fv.attr (truncateZero fsi) :=
    .get_bind fun _ => .ite (fun _ => .bind (.onVol _) fun _ => .bind (hset fun _ => rfl) fun _ => hset fun _ => rfl)
      fun _ => hset fun _ => rfl
  have hfirst (fl : NcFlags) : Fixes Fv.attr (firstCluster fsi fl) :=
    .get_bind fun _ => .ite (fun _ => .bind (.onVol _) fun _ => hset fun _ => rfl) fun _ => .pure _
  have hextra (n c : Nat) : Fixes Fv.attr (freeExtra fsi n c) := by
    refine .bind (.attempt (.onVol _)) fun r => ?_
    cases r with
    | error e => exact .ite (fun _ => .pure _) fun _ => .fail _
    | ok next => exact .ite (fun _ => .bind (.onVol _) fun _ => hset fun _ => rfl) fun _ => .pure _
  have hseek (n : Nat) (fl : NcFlags) : Fixes Fv.attr (vnodeSeekCluster fsi n fl) :=
    .caches (vnodeSeekCluster_caches n fl) fun _ _ => rfl
  unfold truncate
  exact .ite (fun _ => hzero) fun _ => .get_bind fun _ => .bind (hfirst _) fun _ => .bind (hseek _ _) fun _ =>
    .bind (hextra _ _) fun _ => hset fun _ => rfl

/-- The attributes are `a` and the size is at most `m`. -/
structure Bounded (a : UInt8) (m : Int) (t : RwSt) : Prop where
  attr : t.vn.fv.attr = a
  size : (t.vn.fv.size : Int) ≤ m

theorem Bounded.of_eq {a : UInt8} {m : Int} {t t' : RwSt} (h : Bounded a m t) (heq : t'.vn.fv.attrSize = t.vn.fv.attrSize) :
    Bounded a m t' := by
  obtain ⟨ha, hs⟩ := Prod.mk.inj heq
  exact ⟨ha.trans h.attr, by rw [hs]; exact h.size⟩

section Bounded

variable {a : UInt8} {m : Int} {P : RwSt → Prop}

/-- The bytes still to be written end in front of `m`. -/
def Before (m : Int) (rem : Nat) (t : RwSt) : Prop := t.uio.offset + rem ≤ m

theorem onVn_bounded {α : Type} {n : FvM α} (h : Fixes Fv.attrSize n) {rem : Nat} :
    Maintains (Bounded a m) (Before m rem) (onVn n) fun _ => Before m rem := fun t hb hp =>
  ⟨hb.of_eq (h t.vn), fun _ _ => hp⟩

theorem uiomoveIn_bounded (data : Nat → UInt8) (o : Nat) {n rem : Nat} (hn : n ≤ rem) :
    Maintains (Bounded a m) (Before m rem) (uiomoveIn fsi data o n) fun _ => Before m (rem - n) := by
  unfold uiomoveIn
  refine .bind (onVn_bounded (Fixes.onVol _)) fun _ => .get_bind fun t0 _ hp => ?_
  refine .bind (Q := fun _ => Before m (rem - n)) (.modify fun t hb ht => ⟨⟨hb.attr, hb.size⟩, ?_⟩) fun _ =>
    .pure fun _ _ h => h
  subst ht
  have hle : t.uio.offset + rem ≤ m := hp
  show t.uio.offset + (n : Int) + ((rem - n : Nat) : Int) ≤ m
  omega

theorem growSize_bounded {rem : Nat} : Maintains (Bounded a m) (Before m rem) growSize fun _ => Before m rem := by
  refine .modify fun t hb hp => ?_
  have hle : t.uio.offset + rem ≤ m := hp
  split
  · exact ⟨⟨hb.attr, show (t.uio.offset.toNat : Int) ≤ m by have := hb.size; omega⟩, hp⟩
  · exact ⟨hb, hp⟩

theorem writeLoop_bounded (n : Nat) : ∀ c skip o rem,
    Maintains (Bounded a m) (Before m rem) (writeLoop fsi n c skip o rem) fun _ _ => True := by
  induction n with
  | zero => exact fun _ _ _ _ => .hang
  | succ n ih =>
    intro c skip o rem
    unfold writeLoop
    refine .bind (onVn_bounded (Fixes.onVol _)) fun bp => ?_
    refine .bind (uiomoveIn_bounded _ _ (Nat.min_le_right _ _)) fun data => ?_
    refine .bind (onVn_bounded (Fixes.onVol _)) fun _ => .bind growSize_bounded fun _ => ?_
    refine .ite (fun _ => .pure fun _ _ _ => trivial) fun _ => .bind (onVn_bounded (Fixes.onVol _)) fun next => ?_
    exact ih _ _ _ _

/-- What a write leaves of the attributes, and how large the file is behind it. -/
theorem write_bounded (append : Bool) {t : RwSt} (hb : Bounded a m t)
    (hend : t.uio.resid ≠ 0 → writePos append t + t.uio.resid ≤ m) :
    WP (write fsi append) t fun _ t' => Bounded a m t' := by
  unfold write
  refine .get_bind (.ite (fun _ => .of_run (fail_run _ _) hb) fun _ => ?_)
  have htouch : WP (onVn (touchFv fsi false true)) t fun _ t' => Bounded a m t' :=
    .of_run (Prod.mk.eta).symm (hb.of_eq (touchFv_fixes false true t.vn))
  refine .bind htouch (fun _ t1 h1 => .ite (fun _ => .of_run (pure_run _ _) h1) fun hne => ?_) (fun _ _ h => h) fun _ h => h
  refine .ok_bind (modify_run _ _) ?_
  have hrest (pos : Int) : Maintains (Bounded a m) (Before m t.uio.resid) (do
      onVn (writeFirst fsi)
      let cluster ← onVn (vnodeSeekCluster fsi (lo32 (pos >>> fsi.clusterShift)) { alloc := true })
      let last ← writeLoop fsi t.uio.resid cluster (lo32 (pos >>> fsi.clusterShift)) (lo32 pos &&& fsi.clusterMask)
        t.uio.resid
      onVn (vnodeUpdateCache last.1 last.2)) fun _ _ => True := by
    refine .bind (onVn_bounded writeFirst_fixes) fun _ => .bind (onVn_bounded (vnodeSeekCluster_fixes _ _)) fun c => ?_
    exact .bind (writeLoop_bounded _ _ _ _ _) fun last t hb _ => ⟨⟨hb.attr, hb.size⟩, fun _ _ => trivial⟩
  refine (hrest _).wp ⟨h1.attr, h1.size⟩ ?_
  exact hend hne

end Bounded

theorem readOnly_clear (a : UInt8) : (a ||| attrReadOnly) &&& ~~~ attrReadOnly = a &&& ~~~ attrReadOnly := by
  have hbits : ∀ i < 256, (UInt8.ofNat i ||| attrReadOnly) &&& ~~~ attrReadOnly = UInt8.ofNat i &&& ~~~ attrReadOnly := by
    decide +kernel
  have h := hbits a.toNat a.toNat_lt
  rwa [UInt8.ofNat_toNat] at h

theorem readOnly_or {a : UInt8} (h : a &&& attrReadOnly ≠ 0) : a ||| attrReadOnly = a := by
  have hbits : ∀ i < 256, UInt8.ofNat i &&& attrReadOnly ≠ 0 → UInt8.ofNat i ||| attrReadOnly = UInt8.ofNat i := by
    decide +kernel
  have ha := hbits a.toNat a.toNat_lt
  rw [UInt8.ofNat_toNat] at ha
  exact ha h

theorem readOnly_not {a : UInt8} (h : a &&& attrReadOnly = 0) : a &&& ~~~ attrReadOnly = a := by
  have hbits : ∀ i < 256, UInt8.ofNat i &&& attrReadOnly = 0 → UInt8.ofNat i &&& ~~~ attrReadOnly = UInt8.ofNat i := by
    decide +kernel
  have ha := hbits a.toNat a.toNat_lt
  rw [UInt8.ofNat_toNat] at ha
  exact ha h

/-- The mode decides READ_ONLY, and leaves the other attributes. -/
theorem setMode_attr (mode : Nat) (fv : Fv) :
    (setMode mode fv).attr = if mode &&& sIwusr = 0 then fv.attr ||| attrReadOnly else fv.attr &&& ~~~ attrReadOnly := by
  unfold setMode
  dsimp only
  by_cases hm : mode &&& sIwusr = 0
  · rw [if_neg (not_not.mpr hm), if_pos hm]
    split
    · rfl
    · exact (readOnly_or ‹_›).symm
  · rw [if_pos hm, if_neg hm]
    split
    · rfl
    · exact (readOnly_not (not_not.mp ‹_›)).symm

theorem readOnly_bits (a : UInt8) : (a &&& ~~~ attrReadOnly) &&& attrReadOnly = 0 ∧ (a ||| attrReadOnly) &&& attrReadOnly ≠ 0 ∧
    (a &&& ~~~ attrReadOnly) ||| attrReadOnly = a ||| attrReadOnly ∧ a ||| attrReadOnly ||| attrReadOnly = a ||| attrReadOnly := by
  have hbits : ∀ i < 256, (UInt8.ofNat i &&& ~~~ attrReadOnly) &&& attrReadOnly = 0 ∧
      (UInt8.ofNat i ||| attrReadOnly) &&& attrReadOnly ≠ 0 ∧
      (UInt8.ofNat i &&& ~~~ attrReadOnly) ||| attrReadOnly = UInt8.ofNat i ||| attrReadOnly ∧
      UInt8.ofNat i ||| attrReadOnly ||| attrReadOnly = UInt8.ofNat i ||| attrReadOnly := by decide +kernel
  have h := hbits a.toNat a.toNat_lt
  rwa [UInt8.ofNat_toNat] at h

theorem setFields_attr (vap : Vattr) (fv : Fv) :
    (setFields vap fv).attr = if vap.atMode then (setMode vap.mode fv).attr else fv.attr := by
  simp only [setFields, apply_ite Fv.attr, ite_self]

theorem setFields_change (vap : Vattr) (fv : Fv) : FvChange fv (setFields vap fv) := by
  refine ⟨setFields_keeps vap fv, ?_⟩
  obtain ⟨-, -, hclear, hset⟩ := readOnly_bits fv.attr
  rw [setFields_attr, setMode_attr]
  split
  · split
    · exact hset
    · exact hclear
  · rfl

/-! ## A vnode with an entry -/

/-- The clusters of a file are not those of the directory. -/
def OwnsFile (fsi : Fsi) (cs : List Nat) (s : VnSt) : Prop :=
  s.fv.type = .vdir ∧ s.fv.cluster < 2 ^ 32 ∨ s.fv.type ≠ .vdir ∧ ∃ l, Coherent fsi l s ∧ cs.Disjoint l

/-- The vnode at `p`, whose entry is slot `i` of the directory with the clusters `cs`. -/
structure OpenAt (fsi : Fsi) (cs : List Nat) (i p : Nat) (fv : Fv) (u : Sys) : Prop where
  live : u.vnodes p = some fv
  entry : EntryAt fsi cs i ⟨u.vol, fv⟩
  file : OwnsFile fsi cs ⟨u.vol, fv⟩
  parent : ∀ q, fv.parentVp = some q → ∃ parent, u.vnodes q = some parent

theorem OpenAt.cluster_lt (hg : Geometry fsi) (h : OpenAt fsi cs i p fv u) : fv.cluster < 2 ^ 32 := by
  rcases h.file with ⟨-, hlt⟩ | ⟨-, l, hcoh, -⟩
  · exact hlt
  · rcases hcoh.chain with ⟨h0, -⟩ | hl
    · rw [show fv.cluster = 0 from h0]
      decide
    · have hr := (hl.inRange _ hl.head_mem).2
      have hcount := hg.count
      simp only [clusterBad] at hcount
      dsimp only at hr
      omega

/-- What a call may do to a vnode before it stores the entry: the slots of the directory stay. -/
structure VnStep (fsi : Fsi) (cs : List Nat) (s s' : VnSt) : Prop where
  change : FvChange s.fv s'.fv
  file : OwnsFile fsi cs s'
  chain : FatChain fsi (view fsi s'.vol.disk).fat (s.fv.dirCluster fsi) cs
  slots : volSlots fsi cs s'.vol = volSlots fsi cs s.vol

theorem VnStep.refl (h : EntryAt fsi cs i s) (ho : OwnsFile fsi cs s) : VnStep fsi cs s s := ⟨.refl _, ho, h.chain, rfl⟩

theorem FileStep.vnStep (st : FileStep fsi l l' s s') (h : EntryAt fsi cs i s) (hty : s.fv.type ≠ .vdir) (hd : cs.Disjoint l)
    (ha : s'.fv.attr ||| attrReadOnly = s.fv.attr ||| attrReadOnly) : VnStep fsi cs s s' := by
  obtain ⟨hchain, hd', hdata⟩ := st.own.chain h.chain hd
  refine ⟨⟨st.fv, ha⟩, .inr ⟨by rwa [st.fv.type], l', st.coherent, hd'⟩, hchain, ?_⟩
  exact List.flatMap_congr fun c hc => by rw [hdata c hc]

theorem OpenAt.moved (h : OpenAt fsi cs i p fv u) (st : VnStep fsi cs ⟨u.vol, fv⟩ s') :
    OpenAt fsi cs i p s'.fv { u with vol := s'.vol, vnodes := Function.update u.vnodes p (some s'.fv) } := by
  have k := st.change.keeps
  refine ⟨Function.update_self .., h.entry.moved st.chain k.diroff k.dirsz k.parentCluster k.root, st.file, fun q hq => ?_⟩
  by_cases hqp : q = p
  · exact ⟨s'.fv, by rw [hqp]; exact Function.update_self ..⟩
  · obtain ⟨parent, hlive⟩ := h.parent q (k.parentVp ▸ hq)
    exact ⟨parent, (Function.update_of_ne hqp ..).trans hlive⟩

/-! ## The calls -/

/-- The calls through the vnode at `p`. -/
def VnOp.Through (p : Nat) : VnOp → Prop
  | .write q _ _ => q = p
  | .setattr q _ => q = p
  | .fsync q => q = p
  | .close q _ => q = p
  | _ => False

/-- The calls that leave nothing to store when they succeed. -/
def VnOp.Stores : VnOp → Prop
  | .setattr _ _ => True
  | .fsync _ => True
  | .close _ lastclose => lastclose = true
  | _ => False

theorem write_vnStep (hk : Reliable fsi.kernel) (hg : Geometry fsi) (h : EntryAt fsi cs i s) (ho : OwnsFile fsi cs s)
    (append : Bool) (uio : Uio) {m : Int} (hm : s.fv.size ≤ m) (hasks : (VnOp.write p append uio).asks s ≤ m) :
    WP (transfer (write fsi append) uio) s fun _ s' => VnStep fsi cs s s' ∧ (s'.fv.size : Int) ≤ m := by
  refine transfer_wp ?_
  have hsize : WP (write fsi append) ⟨s, uio⟩ fun _ t => Bounded s.fv.attr m t := by
    refine write_bounded append ⟨rfl, hm⟩ fun hne => ?_
    have heq : (VnOp.write p append uio).asks s = writePos append ⟨s, uio⟩ + uio.resid := if_neg hne
    exact heq ▸ hasks
  rcases ho with ⟨hdir, hlt⟩ | ⟨hty, l, hcoh, hd⟩
  · refine WP.mono (R := fun _ t => t.vn = s) ?_ fun r t ht => ?_
    · unfold write
      refine .get_bind (.ite (fun _ => .of_run (fail_run _ _) rfl) fun hreg => absurd hdir ?_)
      rw [not_not.mp hreg]
      decide
    · rw [ht]
      exact ⟨.refl h (.inl ⟨hdir, hlt⟩), hm⟩
  · refine ((write_step (t := ⟨s, uio⟩) hk hg hcoh append).and hsize).mono fun r t ht => ?_
    obtain ⟨⟨ext, st, -⟩, hb⟩ := ht
    exact ⟨st.vnStep h hty hd (by rw [hb.attr]), hb.size⟩

theorem truncate_vnStep (hk : Reliable fsi.kernel) (hg : Geometry fsi) (hfuel : fsi.clusterCount < fsi.kernel.fuel)
    (h : EntryAt fsi cs i s) (hty : s.fv.type ≠ .vdir) (hcoh : Coherent fsi l s) (hd : cs.Disjoint l) (size : Nat) :
    WP (truncate fsi size) s fun _ s' => VnStep fsi cs s s' ∧ s'.fv.size ≤ max s.fv.size size := by
  have hattr : WP (truncate fsi size) s fun _ s' => s'.fv.attr = s.fv.attr :=
    .of_run (Prod.mk.eta).symm (truncate_fixes size s)
  obtain ⟨k, hkk⟩ : ∃ k, (if size = 0 then 0 else u32 ((size + fsi.bytesPerCluster - 1) >>> fsi.clusterShift)) = k :=
    ⟨_, rfl⟩
  refine ((truncate_to hk hg hfuel hcoh hkk).and hattr).mono fun r s' hr => ?_
  obtain ⟨⟨ext, ⟨-, st, -, hsz, -⟩ | ⟨-, st, hsz⟩⟩, ha⟩ := hr
  · refine ⟨st.vnStep h hty hd (by rw [ha]), ?_⟩
    rw [hsz]
    split
    · exact Nat.zero_le _
    · exact Nat.le_max_right _ _
  · refine ⟨st.vnStep h hty hd (by rw [ha]), ?_⟩
    rw [hsz]
    exact Nat.le_max_left _ _

/-- What `fat32_setattr` does to the vnode. -/
theorem setattrFv_vnStep (hk : Reliable fsi.kernel) (hg : Geometry fsi) (hfuel : fsi.clusterCount < fsi.kernel.fuel)
    (h : EntryAt fsi cs i s) (ho : OwnsFile fsi cs s) (vap : Vattr) :
    WP (setattrFv fsi vap) s fun r s' => VnStep fsi cs s s' ∧
      (s'.fv.size ≤ s.fv.size ∨ vap.atSize = true ∧ s'.fv.size ≤ vap.size) ∧
      (r = .ok () → vap.atMode = true → (s'.fv.attr &&& attrReadOnly ≠ 0 ↔ vap.mode &&& sIwusr = 0)) := by
  have hfields {s1 : VnSt} (st : VnStep fsi cs s s1) (hsz : s1.fv.size ≤ s.fv.size ∨ vap.atSize = true ∧ s1.fv.size ≤ vap.size) :
      WP (modifyFv (setFields vap)) s1 fun r s' => VnStep fsi cs s s' ∧
        (s'.fv.size ≤ s.fv.size ∨ vap.atSize = true ∧ s'.fv.size ≤ vap.size) ∧
        (r = .ok () → vap.atMode = true → (s'.fv.attr &&& attrReadOnly ≠ 0 ↔ vap.mode &&& sIwusr = 0)) := by
    have k := setFields_sameFile vap s1.fv
    refine .of_run (modifyFv_run _ _) ⟨⟨st.change.trans (setFields_change vap s1.fv), ?_, st.chain, st.slots⟩, ?_, fun _ hmode => ?_⟩
    · rcases st.file with ⟨hdir, hlt⟩ | ⟨hty, l, hcoh, hd⟩
      · exact .inl ⟨k.type.trans hdir, by rw [show (setFields vap s1.fv).cluster = _ from k.cluster]; exact hlt⟩
      · exact .inr ⟨by rwa [show (setFields vap s1.fv).type = _ from k.type], l, hcoh.same (.refl _) k.cluster k.clsCache, hd⟩
    · rwa [show (setFields vap s1.fv).size = _ from k.size]
    · obtain ⟨hclear, hset, -⟩ := readOnly_bits s1.fv.attr
      show (setFields vap s1.fv).attr &&& attrReadOnly ≠ 0 ↔ _
      rw [setFields_attr, if_pos hmode, setMode_attr]
      split
      · exact iff_of_true hset ‹_›
      · exact iff_of_false (not_not.mpr hclear) ‹_›
  have hrefl := VnStep.refl h ho
  unfold setattrFv
  refine .get_bind (.ite (fun _ => .of_run (fail_run _ _) ⟨hrefl, .inl le_rfl, fun h => absurd h Out.err_ne_ok⟩) fun _ => ?_)
  refine .ite (fun hat => .ite (fun _ => .of_run (bind_err (fail_run _ _)) ⟨hrefl, .inl le_rfl, fun h => absurd h Out.err_ne_ok⟩)
    fun hty => ?_) fun _ => hfields hrefl (.inl le_rfl)
  obtain ⟨-, l, hcoh, hd⟩ := ho.resolve_left fun hdir => hty hdir.1
  have hmax {n : Nat} (hn : n ≤ max s.fv.size vap.size) : n ≤ s.fv.size ∨ vap.atSize = true ∧ n ≤ vap.size :=
    (le_max_iff.mp hn).imp_right fun hle => ⟨hat, hle⟩
  refine .bind (truncate_vnStep hk hg hfuel h hty hcoh hd vap.size) (fun _ s1 h1 => hfields h1.1 (hmax h1.2))
    (fun _ s1 h1 => ⟨h1.1, hmax h1.2, fun h => absurd h Out.err_ne_ok⟩) fun s1 h1 => ⟨h1.1, hmax h1.2, fun h => absurd h Out.hang_ne_ok⟩

theorem Fv.flushed_clean (h : fv.flags.dirty = false) : fv.flushed = fv := by
  obtain ⟨⟩ := fv
  rename_i flags
  obtain ⟨⟩ := flags
  simp only [VnFlags.dirty, Bool.or_eq_false_iff] at h
  obtain ⟨⟨⟨⟨⟨rfl, rfl⟩, rfl⟩, rfl⟩, rfl⟩, rfl⟩ := h
  rfl

/-- A flush stores the dirty fields. -/
theorem OpenAt.sync (hk : Reliable fsi.kernel) (hg : Geometry fsi) (h : OpenAt fsi cs i p fv u)
    (he : (volSlots fsi cs u.vol)[i]? = some e) : ∃ u', syncMetadata fsi p u = (.ok (), u') ∧
      OpenAt fsi cs i p fv.flushed u' ∧ (volSlots fsi cs u'.vol)[i]? = some (flushEntry fv e) := by
  obtain ⟨s', e', hrun, hfv, he', E⟩ := updateFdentry_slots hk hg h.entry
  obtain rfl : e' = e := Option.some.inj (he'.symm.trans he)
  have hlt := (List.getElem?_eq_some_iff.mp he).1
  have hfv' : s'.fv = fv.flushed := by
    rw [hfv]
    split
    · rfl
    · exact (Fv.flushed_clean (Bool.eq_false_of_not_eq_true ‹_›)).symm
  have hslot : (volSlots fsi cs s'.vol)[i]? = some (flushEntry fv e') := by
    rw [E.slots]
    split
    · exact List.getElem?_set_self hlt
    · rw [flushEntry_clean (Bool.eq_false_of_not_eq_true ‹_›)]
      exact he
  refine ⟨_, syncMetadata_run h.live h.parent hrun, ⟨?_, ?_, ?_, fun q hq => ?_⟩, hslot⟩
  · rw [← hfv']
    exact Function.update_self ..
  · exact h.entry.moved (E.chain h.entry.chain) rfl rfl rfl rfl
  · rcases h.file with hdir | ⟨hty, l, hcoh, hd⟩
    · exact .inl hdir
    · refine .inr ⟨hty, l, ⟨?_, ?_⟩, hd⟩
      · rw [E.fat]
        exact hcoh.chain
      · rw [E.fat]
        exact hcoh.cache
  · by_cases hqp : q = p
    · exact ⟨s'.fv, by rw [hqp]; exact Function.update_self ..⟩
    · obtain ⟨parent, hlive⟩ := h.parent q hq
      exact ⟨parent, (Function.update_of_ne hqp ..).trans hlive⟩

/-- What a call through the vnode leaves. -/
structure Called (fsi : Fsi) (cs : List Nat) (i p : Nat) (u : Sys) (fv : Fv) (e : Slot) (op : VnOp) (r : Out Errno Unit)
    (u' : Sys) (fv' : Fv) (e' : Slot) : Prop where
  openAt : OpenAt fsi cs i p fv' u'
  slot : (volSlots fsi cs u'.vol)[i]? = some e'
  step : EntryStep fv e fv' e'
  size : ∀ m : Int, fv.size ≤ m → (op.SetsSize p → op.asks ⟨u.vol, fv⟩ ≤ m) → fv'.size ≤ m
  stored : r = .ok () → op.Stores → fv'.flags.dirty = false
  mode : ∀ vap, r = .ok () → op = .setattr p vap → vap.atMode = true →
    (fv'.attr &&& attrReadOnly ≠ 0 ↔ vap.mode &&& sIwusr = 0)

theorem Fv.flushed_dirty (fv : Fv) : fv.flushed.flags.dirty = false := rfl

/-- A flush that is made only of a dirty vnode. -/
theorem OpenAt.flushDirty (hk : Reliable fsi.kernel) (hg : Geometry fsi) (h : OpenAt fsi cs i p fv u)
    (he : (volSlots fsi cs u.vol)[i]? = some e) : WP (flushDirty fsi p) u fun r u' => r = .ok () ∧
      OpenAt fsi cs i p fv.flushed u' ∧ (volSlots fsi cs u'.vol)[i]? = some (flushEntry fv e) := by
  obtain ⟨u', hrun, h', he'⟩ := h.sync hk hg he
  unfold Fat32.flushDirty
  refine .ok_bind (getVnode_some h.live) (.ite (fun _ => .ok_bind (attempt_ok hrun) (.of_run (pure_run _ _) ⟨rfl, h', he'⟩))
    fun hd => .of_run (pure_run _ _) ⟨rfl, ?_, ?_⟩)
  · rwa [Fv.flushed_clean (Bool.eq_false_of_not_eq_true hd)]
  · rwa [flushEntry_clean (Bool.eq_false_of_not_eq_true hd)]

/-- Every call through the vnode changes it and its entry so. -/
theorem OpenAt.exec (hk : Reliable fsi.kernel) (hg : Geometry fsi) (hfuel : fsi.clusterCount < fsi.kernel.fuel)
    (h : OpenAt fsi cs i p fv u) (he : (volSlots fsi cs u.vol)[i]? = some e) {op : VnOp} (hop : op.Through p) :
    WP (op.exec fsi) u fun r u' => ∃ fv' e', Called fsi cs i p u fv e op r u' fv' e' := by
  -- a call that only flushes
  have hflush {op : VnOp} (hset : ∀ vap, op ≠ .setattr p vap) : WP (Fat32.flushDirty fsi p) u fun r u' =>
      ∃ fv' e', Called fsi cs i p u fv e op r u' fv' e' := by
    refine (h.flushDirty hk hg he).mono fun r u' hr => ?_
    obtain ⟨rfl, h', he'⟩ := hr
    exact ⟨_, _, h', he', .flush (.refl fv), fun _ hm _ => hm, fun _ _ => rfl, fun vap _ heq => absurd heq (hset vap)⟩
  cases op with
  | write q append uio =>
    obtain rfl : q = p := hop
    refine onVnode_wp h.live (WP.mono (R := fun r s' => VnStep fsi cs ⟨u.vol, fv⟩ s' ∧
      (s'.fv.size : Int) ≤ max (fv.size : Int) ((VnOp.write q append uio).asks ⟨u.vol, fv⟩))
      (write_vnStep (p := q) hk hg h.entry h.file append uio (le_max_left _ _) (le_max_right _ _)) fun r s' hr => ?_)
    obtain ⟨st, hsz⟩ := hr
    refine ⟨s'.fv, e, h.moved st, by rw [st.slots]; exact he, .change st.change, fun m hm ha => ?_, fun _ hs => absurd hs id,
      fun vap _ heq => nomatch heq⟩
    exact hsz.trans (max_le hm (ha rfl))
  | setattr q vap =>
    obtain rfl : q = p := hop
    have hset : WP (onVnode q (setattrFv fsi vap)) u fun r u1 => ∃ s1 : VnSt,
        u1 = { u with vol := s1.vol, vnodes := Function.update u.vnodes q (some s1.fv) } ∧ VnStep fsi cs ⟨u.vol, fv⟩ s1 ∧
        (s1.fv.size ≤ fv.size ∨ vap.atSize = true ∧ s1.fv.size ≤ vap.size) ∧
        (r = .ok () → vap.atMode = true → (s1.fv.attr &&& attrReadOnly ≠ 0 ↔ vap.mode &&& sIwusr = 0)) :=
      onVnode_wp h.live ((setattrFv_vnStep hk hg hfuel h.entry h.file vap).mono fun r s1 h1 => ⟨s1, rfl, h1⟩)
    have hsize {s1 : VnSt} (hsz : s1.fv.size ≤ fv.size ∨ vap.atSize = true ∧ s1.fv.size ≤ vap.size) (m : Int)
        (hm : fv.size ≤ m) (ha : (VnOp.setattr q vap).SetsSize q → (VnOp.setattr q vap).asks ⟨u.vol, fv⟩ ≤ m) :
        s1.fv.size ≤ m := by
      rcases hsz with hle | ⟨hat, hle⟩
      · omega
      · have hv : (vap.size : Int) ≤ m := ha ⟨rfl, hat⟩
        omega
    -- a call that failed stores nothing
    have hfail {s1 : VnSt} {r : Out Errno Unit} (hr : r ≠ .ok ()) (st : VnStep fsi cs ⟨u.vol, fv⟩ s1)
        (hsz : s1.fv.size ≤ fv.size ∨ vap.atSize = true ∧ s1.fv.size ≤ vap.size) :
        ∃ fv' e', Called fsi cs i q u fv e (.setattr q vap) r
          { u with vol := s1.vol, vnodes := Function.update u.vnodes q (some s1.fv) } fv' e' :=
      ⟨s1.fv, e, h.moved st, by rw [st.slots]; exact he, .change st.change, hsize hsz, fun hok => absurd hok hr,
        fun _ hok => absurd hok hr⟩
    refine .bind hset ?_ ?_ ?_
    · rintro _ _ ⟨s1, rfl, st, hsz, hmode⟩
      have h1 := h.moved st
      have he1 : (volSlots fsi cs s1.vol)[i]? = some e := by
        rw [st.slots]
        exact he
      obtain ⟨u', hrun, h', he'⟩ := h1.sync hk hg he1
      have hmode' (vap' : Vattr) (heq : VnOp.setattr q vap = .setattr q vap') (hat : vap'.atMode = true) :
          s1.fv.attr &&& attrReadOnly ≠ 0 ↔ vap'.mode &&& sIwusr = 0 := by
        obtain rfl : vap = vap' := (VnOp.setattr.inj heq).2
        exact hmode rfl hat
      refine .ok_bind (getVnode_some h1.live) (.ite (fun _ => .of_run hrun ?_) fun hd => .of_run (pure_run _ _) ?_)
      · exact ⟨_, _, h', he', .flush st.change, hsize hsz, fun _ _ => rfl, fun vap' _ => hmode' vap'⟩
      · exact ⟨_, _, h1, he1, .change st.change, hsize hsz, fun _ _ => Bool.eq_false_of_not_eq_true hd,
          fun vap' _ => hmode' vap'⟩
    · rintro _ _ ⟨s1, rfl, st, hsz, -⟩
      exact hfail Out.err_ne_ok st hsz
    · rintro _ ⟨s1, rfl, st, hsz, -⟩
      exact hfail Out.hang_ne_ok st hsz
  | fsync q =>
    obtain rfl : q = p := hop
    exact hflush fun _ heq => nomatch heq
  | close q lastclose =>
    obtain rfl : q = p := hop
    refine .ok_bind (getVnode_some h.live) (.ite (fun _ => hflush fun _ heq => nomatch heq) fun hl => ?_)
    exact .of_run (pure_run _ _) ⟨fv, e, h, he, .change (.refl fv), fun _ hm _ => hm, fun _ hs => absurd hs hl,
      fun vap _ heq => nomatch heq⟩
  | _ => exact absurd hop id

end Fat32
