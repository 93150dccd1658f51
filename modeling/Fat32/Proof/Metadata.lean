import Mathlib
import Fat32.Proof.Opening

/-!
# Size, first cluster and attributes over runs

The entry on the disk is read where the vnode says that it is (`storedEntry`). From the call that opens the vnode
on, a field whose flag is clear is that of the entry after any number of calls through the vnode (`field_agrees`),
and the calls that store leave no flag set (`field_stored`). The attributes of an entry change in READ_ONLY at
most (`attr_kept`).
-/

namespace Fat32

open Bytes Exec Prog Linked

variable {fsi : Fsi} {cs : List Nat} {s t t' u : Sys} {i p dir : Nat} {fv dfv : Fv} {e e₀ : Slot} {f : Field} {r : Out Errno Unit} {op : OpenOp}

/-- At the place of the vnode `fat32_read_fdentry` reads the entry `e`. -/
def StoredEntry (fsi : Fsi) (fv : Fv) (v : Vol) (e : Slot) : Prop :=
  (readFdentry fsi (fv.dirCluster fsi) fv.targetOffset v).1 = .ok e

theorem storedEntry_slot (hk : Reliable fsi.kernel) (hg : Geometry fsi) (h : OpenAt fsi cs i p fv u)
    (he : (volSlots fsi cs u.vol)[i]? = some e) : StoredEntry fsi fv u.vol e := by
  have hl : FatChain fsi (view fsi u.vol.disk).fat (fv.dirCluster fsi) cs := h.entry.chain
  have hoff : fv.targetOffset = 32 * i := h.entry.offset
  obtain ⟨e', v', hrun, -, he'⟩ := readFdentry_slots hk hg hl (List.getElem?_eq_some_iff.mp he).1
  have heq : e = e' := Option.some.inj (he.symm.trans he')
  show (readFdentry fsi (fv.dirCluster fsi) fv.targetOffset u.vol).1 = .ok e
  rw [hoff, hrun, heq]

theorem Field.Holds.agrees (h : f.Holds fv e) : f.Agrees fv e := by
  cases f with
  | size => exact fun _ => h
  | cluster => exact fun _ => h
  | attr => exact fun _ => h

theorem Field.Agrees.holds (h : f.Agrees fv e) (hd : fv.flags.dirty = false) : f.Holds fv e := by
  simp only [VnFlags.dirty, Bool.or_eq_false_iff] at hd
  obtain ⟨⟨⟨⟨⟨-, -⟩, hsize⟩, hcluster⟩, -⟩, hattr⟩ := hd
  cases f with
  | size => exact h hsize
  | cluster => exact h hcluster
  | attr => exact h hattr

/-! ## The invariant of a run -/

/-- The call goes through the vnode at `p`, and does not set a size from 4 GiB on. -/
def VnOp.Below (p : Nat) (u : Sys) (op : VnOp) : Prop :=
  op.Through p ∧ ∀ fv, u.vnodes p = some fv → op.SetsSize p → op.asks ⟨u.vol, fv⟩ < 2 ^ 32

/-- The vnode at `p` has an entry, whose attributes are `e₀`'s but for READ_ONLY. -/
structure Tracked (fsi : Fsi) (cs : List Nat) (i p : Nat) (e₀ : Slot) (u : Sys) (fv : Fv) (e : Slot) : Prop where
  openAt : OpenAt fsi cs i p fv u
  slot : (volSlots fsi cs u.vol)[i]? = some e
  attr : e.attr ||| attrReadOnly = fv.attr ||| attrReadOnly
  same : e.attr ||| attrReadOnly = e₀.attr ||| attrReadOnly

/-- A field that the entry has unless it is dirty, and that fits. -/
def Tracks (f : Field) (fv : Fv) (e : Slot) : Prop := f.Agrees fv e ∧ (f = .size → fv.size < 2 ^ 32)

/-- One call. -/
theorem Tracked.exec (hk : Reliable fsi.kernel) (hg : Geometry fsi) (hfuel : fsi.clusterCount < fsi.kernel.fuel)
    (h : Tracked fsi cs i p e₀ u fv e) {op : VnOp} (hop : op.Through p) : WP (op.exec fsi) u fun r u' =>
      ∃ fv' e', Tracked fsi cs i p e₀ u' fv' e' ∧ Called fsi cs i p u fv e op r u' fv' e' := by
  refine (h.openAt.exec hk hg hfuel h.slot hop).mono fun r u' hr => ?_
  obtain ⟨fv', e', hc⟩ := hr
  obtain ⟨hattr, hsame⟩ := hc.step.attr h.attr
  exact ⟨fv', e', ⟨hc.openAt, hc.slot, hattr, hsame.trans h.same⟩, hc⟩

theorem Called.tracks (hg : Geometry fsi) {op : VnOp} {fv' : Fv} {e' : Slot} (hc : Called fsi cs i p u fv e op r t fv' e')
    (h : Tracks f fv e) (hasks : f = .size → op.SetsSize p → op.asks ⟨u.vol, fv⟩ < 2 ^ 32) : Tracks f fv' e' := by
  have hsize (hf : f = .size) : fv'.size < 2 ^ 32 := by
    have hlt := h.2 hf
    have hle := hc.size (2 ^ 32 - 1) (by omega) fun hs => by have := hasks hf hs; omega
    omega
  refine ⟨hc.step.agrees ?_ h.1, hsize⟩
  cases f with
  | size => exact hsize rfl
  | cluster => exact hc.openAt.cluster_lt hg
  | attr => trivial

/-- The calls of a run through `p`; those that set the size of a file stay below 4 GiB where `f` is the size. -/
def RunFor (fsi : Fsi) (p : Nat) (f : Field) : Sys → Sys → Prop :=
  SysRun fsi fun u op => op.Through p ∧ (f = .size → op.Below p u)

/-- A run. -/
theorem RunFor.tracked (hk : Reliable fsi.kernel) (hg : Geometry fsi) (hfuel : fsi.clusterCount < fsi.kernel.fuel)
    (run : RunFor fsi p f s t) (h : Tracked fsi cs i p e₀ s fv e) {P : Prop} (hf : P → Tracks f fv e) :
    ∃ fv' e', Tracked fsi cs i p e₀ t fv' e' ∧ (P → Tracks f fv' e') := by
  have hstep (u : Sys) (op : VnOp) (h : ∃ fv e, Tracked fsi cs i p e₀ u fv e ∧ (P → Tracks f fv e))
      (hadm : op.Through p ∧ (f = .size → op.Below p u)) :
      ∃ fv e, Tracked fsi cs i p e₀ (op.exec fsi u).2 fv e ∧ (P → Tracks f fv e) := by
    obtain ⟨fv, e, h, hf⟩ := h
    have hall := h.exec hk hg hfuel hadm.1
    unfold WP at hall
    obtain ⟨fv', e', h', hc⟩ := hall
    exact ⟨fv', e', h', fun hp => hc.tracks hg (hf hp) fun hsz hs => (hadm.2 hsz).2 fv h.openAt.live hs⟩
  exact SysRun.invariant hstep run ⟨fv, e, h, hf⟩

/-! ## An empty root -/

theorem emptyRoot_dirAt : DirAt (small 2) [2] 7 emptyRootFv emptyRoot := by
  have hl : FatChain (small 2) (view (small 2) emptyRoot.vol.disk).fat 2 [2] := emptyRoot_directories.fat ()
  have hnone : listed (small 2) (volSlots (small 2) [2] emptyRoot.vol) = [] := by
    have h : List.Forall₂ Scanned (listed (small 2) (volSlots (small 2) [2] emptyRoot.vol)) [] :=
      listed_tidy (emptyRoot_directories.tidy ()) ((emptyRoot_directories.listable ()).volSlots_bytes emptyRoot.vol)
    exact List.eq_nil_of_length_eq_zero h.length_eq
  refine ⟨⟨by simp [emptyRoot], by decide, ⟨rfl, hl.path small_geometry, .empty⟩, emptyRoot_directories.listable (),
    hl.inRange⟩, rfl, hl, fun z hz => ?_, fun z hz => ?_⟩
  · rw [hnone] at hz
    exact absurd hz List.not_mem_nil
  · rw [hnone] at hz
    exact absurd hz List.not_mem_nil

/-- The call of `fat32_create` that makes a writable file in it. -/
def newFileOp : OpenOp := .create [65] { mode := 0o644 } false {} { uid := 0 }

/-- The state behind it. -/
def withNewFile : Sys := (newFileOp.run (small 2) 7 emptyRoot).2

theorem newFileOp_run : newFileOp.run (small 2) 7 emptyRoot = (.ok (some 0), withNewFile) :=
  Prod.ext (show (newFileOp.run (small 2) 7 emptyRoot).1 = .ok (some 0) by decide +kernel) rfl

theorem newFileOp_loads (f : Field) : newFileOp.Loads (small 2) 7 emptyRoot f := by
  cases f with
  | attr => exact .inr (by decide)
  | size => exact .inl rfl
  | cluster => exact .inl rfl

/-- A byte is written to it. -/
def withByte : Sys := ((VnOp.write 0 false oneByte).exec (small 2) withNewFile).2

theorem withByte_run (f : Field) : RunFor (small 2) 0 f withNewFile withByte := by
  have hbelow (fv : Fv) : (VnOp.write 0 false oneByte).asks ⟨withNewFile.vol, fv⟩ < 2 ^ 32 := by
    show (0 : Int) + 1 < 2 ^ 32
    decide
  exact .step (.write 0 false oneByte) ⟨rfl, fun _ => ⟨rfl, fun fv _ _ => hbelow fv⟩⟩ (.refl _)

/-! ## From the call that opens on -/

/-- The call on the directory at `dir` has opened the vnode at `p`. -/
structure OpenedBy (fsi : Fsi) (cs : List Nat) (dir : Nat) (dfv : Fv) (op : OpenOp) (u : Sys) (p : Nat) (s : Sys) : Prop where
  dirAt : DirAt fsi cs dir dfv u
  named : op.Named
  run : op.run fsi dir u = (.ok (some p), s)

theorem newFile_openedBy : OpenedBy (small 2) [2] 7 emptyRootFv newFileOp emptyRoot 0 withNewFile :=
  ⟨emptyRoot_dirAt, show [65].length ≤ maxName by decide, newFileOp_run⟩

/-- The first state of a run. -/
theorem OpenedBy.tracked (hk : Reliable fsi.kernel) (hg : Geometry fsi) (hfuel : fsi.clusterCount < fsi.kernel.fuel)
    (ho : OpenedBy fsi cs dir dfv op u p s) :
    ∃ cs' i fv e, Tracked fsi cs' i p e s fv e ∧ ∀ f : Field, op.Loads fsi dir u f → f.Holds fv e ∧ Tracks f fv e := by
  obtain ⟨cs', i, e, fv, hopen, he, hload, hattr⟩ := op.opens hk hg hfuel ho.dirAt ho.named ho.run
  refine ⟨cs', i, fv, e, ⟨hopen, he, hattr.symm, rfl⟩, fun f hf => ⟨hload f hf, (hload f hf).agrees, fun hsize => ?_⟩⟩
  subst hsize
  rw [← show e.fileSize = fv.size from hload _ hf]
  exact le32_lt _ _ _ _

end Fat32
