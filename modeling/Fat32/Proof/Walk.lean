import Mathlib
import Fat32.Proof.Scan
import Fat32.Proof.RenameFat

/-!
# Whether a walk along a directory ends

The loops over the clusters of a directory follow the links of the FAT until
there is none, or until the data stops them. On a device that may fail, each
step either goes to the linked cluster or ends the loop (`nextCluster_follows`),
so that a loop ends when the links do. When they run into a cycle,
`fat32_getattr` follows them forever (`countLoop_hangs`). `fat32_find_dirent` has
a loop of its own around these: it goes on from the end of the last entry, at a
32-bit offset, and so comes back to the start of a directory that has an entry
beyond 4 GiB (`findLoop_hangs`).
-/

namespace Fat32

open Bytes Exec Prog Linked

variable {fsi : Fsi} {cs : List Nat} {s t : VnSt} {v : Vol} {c : Nat}

/-! ## A device that may fail -/

/-- The volume on a device that answers. -/
def Fsi.answering (fsi : Fsi) : Fsi :=
  { fsi with kernel := { fsi.kernel with readErr := fun _ => none } }

theorem answering_reliable (fsi : Fsi) : Reliable fsi.answering.kernel := ⟨fun _ => rfl⟩

theorem kernel_geometry (hg : Geometry fsi) (k : Kernel) : Geometry { fsi with kernel := k } := by
  obtain ⟨h1, h2, h3, h4, h5, h6, h7, h8, h9, h10, h11, h12, h13, h14⟩ := hg
  exact ⟨h1, h2, h3, h4, h5, h6, h7, h8, h9, h10, h11, h12, h13, h14⟩

theorem answering_geometry (hg : Geometry fsi) : Geometry fsi.answering := kernel_geometry hg _

theorem bread_failsOr (s n : Nat) :
    FailsOr Same (bread fsi s n) (bread fsi.answering s n) := by
  intro v w h
  obtain ⟨w', e, s'⟩ := bread_ok (answering_reliable fsi) s n w
  rw [e]
  rcases he : fsi.kernel.readErr v.io.nread with _ | e
  · refine .inr ⟨?_, ?_⟩
    · simp only [bread, he, h.disk]
    · simp only [bread, he]
      exact .trans ⟨h.disk, h.free, h.next⟩ s'
  · exact .inl ⟨e, by simp only [bread, he]⟩

theorem rmwCopies_failsOr (x o n : Nat) : ∀ s b,
    FailsOr Same (rmwCopies fsi x o n s b) (rmwCopies fsi.answering x o n s b) := by
  induction n with
  | zero => exact fun s b => (Sim.pure _).failsOr
  | succ n ih =>
    exact fun s b => .bind (bdwrite_sim _).failsOr fun _ => .ite (fun _ => (Sim.pure _).failsOr)
      fun _ => .bind (bread_failsOr _ _) fun _ => ih _ _

theorem rmwCluster_failsOr (c : Nat) (new : Option Nat) :
    FailsOr Same (rmwCluster fsi c new) (rmwCluster fsi.answering c new) := by
  refine .ite (fun _ => (Sim.fail _).failsOr) fun _ => .bind (bread_failsOr _ _) fun b => ?_
  cases new with
  | none => exact (Sim.pure _).failsOr
  | some x => exact .bind (rmwCopies_failsOr _ _ _ _ _) fun _ => (Sim.pure _).failsOr

theorem nextCluster_failsOr (c : Nat) :
    FailsOr Same (nextCluster fsi c {}) (nextCluster fsi.answering c {}) := by
  have hfail (e : Errno) : FailsOr Same (fail e : FsM Nat) (fail e : FsM Nat) := (Sim.fail e).failsOr
  refine .ite (fun _ => .ite (fun _ => hfail _) fun h => absurd nofun h) fun _ =>
    .ite (fun _ => hfail _) fun _ => .bind (rmwCluster_failsOr _ _) fun x => ?_
  exact .ite (fun _ => .ite (fun _ => hfail _) fun h => absurd nofun h) fun _ =>
    .ite (fun _ => hfail _) fun _ => .ite (fun _ => hfail _) fun _ =>
    .ite (fun _ => hfail _) fun _ => (Sim.pure _).failsOr

theorem readCluster_failsOr (c : Nat) :
    FailsOr Same (readCluster fsi c) (readCluster fsi.answering c) :=
  .bind (Sim.modify fun _ _ h => ⟨h.disk, h.free, h.next⟩).failsOr fun _ => bread_failsOr _ _

theorem seekLoop_failsOr (n : Nat) : ∀ c,
    FailsOr Same (seekLoop fsi {} n c) (seekLoop fsi.answering {} n c) := by
  induction n with
  | zero => exact fun c => (Sim.pure c).failsOr
  | succ n ih => exact fun c => .bind (nextCluster_failsOr c) ih

theorem freeLoop_failsOr (n : Nat) : ∀ c freed,
    FailsOr Same (freeLoop fsi n c freed) (freeLoop fsi.answering n c freed) := by
  induction n with
  | zero => exact fun _ _ => Sim.hang.failsOr
  | succ n ih =>
    exact fun c freed => .ite (fun _ => .bind (rmwCluster_failsOr _ _) fun _ => ih _ _)
      fun _ => (Sim.pure _).failsOr

theorem scanCluster_answering (dn : Nat) (data : Nat → UInt8) (n : Nat) : ∀ o st,
    scanCluster fsi.answering dn data n o st = scanCluster fsi dn data n o st := by
  induction n with
  | zero => exact fun _ _ => rfl
  | succ n ih =>
    intro o st
    rw [scanCluster, scanCluster]
    simp only [ih]
    rfl

theorem getDirentLoop_failsOr (dn n : Nat) : ∀ c o st, FailsOr Same
    (getDirentLoop fsi dn n c o st) (getDirentLoop fsi.answering dn n c o st) := by
  induction n with
  | zero => exact fun _ _ _ => Sim.hang.failsOr
  | succ n ih =>
    intro c o st
    unfold getDirentLoop
    refine .bind (readCluster_failsOr c) fun bp => ?_
    have hscan : scanCluster fsi.answering dn bp.data fsi.answering.bytesPerCluster o st =
      scanCluster fsi dn bp.data fsi.bytesPerCluster o st := scanCluster_answering dn _ _ o st
    rw [hscan]
    cases scanCluster fsi dn bp.data fsi.bytesPerCluster o st with
    | stop => exact (Sim.fail _).failsOr
    | entry s st => exact (Sim.pure _).failsOr
    | more st => exact .attempt_bind (nextCluster_failsOr c) (fun _ _ => ⟨_, rfl⟩) fun d => ih _ _ _

/-- A vnode on volumes that are the same. -/
def SameVn (s t : VnSt) : Prop := Same s.vol t.vol ∧ t.fv = s.fv

theorem onVol_failsOr {α : Type} {m n : FsM α} (h : FailsOr Same m n) :
    FailsOr SameVn (onVol m) (onVol n) :=
  .on h (fun _ _ h => h.1) fun _ _ _ _ h hv => ⟨hv, h.2⟩

theorem vnodeSeekCluster_failsOr (n : Nat) :
    FailsOr SameVn (vnodeSeekCluster fsi n {}) (vnodeSeekCluster fsi.answering n {}) := by
  unfold vnodeSeekCluster
  refine .get_bind fun s t h => ?_
  rw [h.2]
  refine .bind (.ite (fun _ => onVol_failsOr ?_) fun _ => (Sim.pure _).failsOr) fun c =>
    .bind (Sim.modify fun s t h => ⟨h.1, by rw [h.2]⟩).failsOr fun _ => (Sim.pure _).failsOr
  rw [seekCluster_eq, seekCluster_eq]
  exact seekLoop_failsOr _ _

theorem getDirent_failsOr (offset : Nat) (d : DName) (efv : Option Fv) :
    FailsOr SameVn (getDirent fsi offset d efv) (getDirent fsi.answering offset d efv) := by
  unfold getDirent
  refine .get_bind fun s t h => ?_
  rw [h.2]
  refine .ite (fun _ => (Sim.fail _).failsOr) fun _ =>
    .attempt_bind (vnodeSeekCluster_failsOr _) (fun _ _ => ⟨_, rfl⟩) fun c => ?_
  exact .bind (onVol_failsOr (getDirentLoop_failsOr _ _ _ _ _)) fun _ => (Sim.pure _).failsOr

theorem findDirent_failsOr (name : List UInt8) (efv : Fv) :
    FailsOr SameVn (findDirent fsi name efv) (findDirent fsi.answering name efv) := by
  have hloop (name : List UInt8) (n : Nat) : ∀ o d efv, FailsOr SameVn
      (findLoop fsi name n o d efv) (findLoop fsi.answering name n o d efv) := by
    induction n with
    | zero => exact fun _ _ _ => Sim.hang.failsOr
    | succ n ih =>
      intro o d efv
      unfold findLoop
      exact .bind (getDirent_failsOr _ _ _) fun out => .ite (fun _ => (Sim.pure _).failsOr)
        fun _ => ih _ _ _
  unfold findDirent
  refine .get_bind fun s t h => ?_
  rw [h.2]
  exact .ite (fun _ => (Sim.fail _).failsOr) fun _ => hloop _ _ _ _ _

theorem readCluster_ends (c : Nat) (v : Vol) :
    WP (readCluster fsi c) v fun r v' => r ≠ .hang ∧ Same v v' := by
  have hs : Same v (readCluster fsi c v).2 := (readCluster_quiet c v).same
  exact .of_run rfl ⟨readCluster_terminates c v, hs⟩

/-- A step goes where the link leads, or fails. -/
theorem nextCluster_follows (hg : Geometry fsi) (c : Nat) (v : Vol) :
    WP (nextCluster fsi c {}) v fun r v' => Same v v' ∧
      ((∃ d, r = .ok d ∧ fatNext fsi (view fsi v.disk).fat c = some d) ∨ ∃ e, r = .err e) := by
  have hk := answering_reliable fsi
  have hg' := answering_geometry hg
  have hs : Same v (nextCluster fsi c {} v).2 := (nextCluster_quiet c noAlloc v).same
  refine .of_run rfl ⟨hs, ?_⟩
  rcases nextCluster_failsOr c v v (.refl v) with h | ⟨h, -⟩
  · exact .inr h
  rcases hn : fatNext fsi (view fsi v.disk).fat c with _ | d
  · obtain ⟨e, v', he, -⟩ := nextCluster_none hk hg' noAlloc hn
    exact .inr ⟨e, h.trans (by rw [he])⟩
  · obtain ⟨v', he, -⟩ := nextCluster_link hk hg' hn {}
    exact .inl ⟨d, h.trans (by rw [he]), rfl⟩

/-! ## Loops over the clusters -/

theorem Path.inRange {fat : Nat → Nat} (h : Path fsi fat c cs) :
    ∀ b ∈ cs, b = c ∧ cs = [c] ∨ InRange fsi b := by
  induction h with
  | last _ => exact fun b hb => .inl ⟨List.mem_singleton.mp hb, rfl⟩
  | link hn t ih =>
    obtain ⟨ha, hb, rfl⟩ := fatNext_some.mp hn
    intro b hm
    rcases List.mem_cons.mp hm with rfl | hm
    · exact .inr ha
    · rcases ih b hm with ⟨rfl, -⟩ | h
      · exact .inr hb
      · exact .inr h

/-- A path visits each cluster of the volume once at most. -/
theorem Path.length_le {fat : Nat → Nat} (h : Path fsi fat c cs) {n : Nat} (h0 : 0 < n)
    (hn : fsi.clusterCount ≤ n) : cs.length ≤ n := by
  by_cases h1 : cs = [c]
  · rw [h1]
    exact h0
  · have hsub : cs ⊆ List.range' 2 fsi.clusterCount := fun b hb => by
      obtain ⟨h2, hle⟩ := (h.inRange b hb).resolve_left fun h => h1 h.2
      rw [List.mem_range'_1]
      omega
    have hlen := (h.nodup (path_ends fat)).length_le_of_subset hsub
    rw [List.length_range'] at hlen
    exact hlen.trans hn

/-- One step of a loop along a path: on to the next cluster, or out of the loop. -/
theorem Path.next (hg : Geometry fsi) {α : Type} {k : Except Errno Nat → FsM α}
    {Q : Out Errno α → Vol → Prop} (h : Path fsi (view fsi v.disk).fat c cs)
    (hlink : ∀ {d ds v'}, Same v v' → cs = c :: ds → Path fsi (view fsi v'.disk).fat d ds →
      WP (k (.ok d)) v' Q)
    (hend : ∀ {e v'}, Same v v' → WP (k (.error e)) v' Q) :
    WP (attempt (nextCluster fsi c {}) >>= k) v Q := by
  have hstep := nextCluster_follows hg c v
  unfold WP at hstep
  rcases hrun : nextCluster fsi c {} v with ⟨r, v'⟩
  rw [hrun] at hstep
  obtain ⟨s', ⟨d, rfl, hd⟩ | ⟨e, rfl⟩⟩ := hstep
  · cases h with
    | last h =>
      rw [h] at hd
      cases hd
    | link hn t =>
      obtain rfl := Option.some.inj (hn.symm.trans hd)
      rw [← s'.disk] at t
      exact .ok_bind (attempt_ok hrun) (hlink s' rfl t)
  · exact .ok_bind (attempt_err hrun) (hend s')

theorem countLoop_ends (hg : Geometry fsi) (n : Nat) : ∀ {c num : Nat} {cs : List Nat} {v : Vol},
    Path fsi (view fsi v.disk).fat c cs → cs.length ≤ n →
      WP (countLoop fsi n c num) v fun r _ => r ≠ .hang := by
  induction n with
  | zero => exact fun h hn => absurd h.length_pos (by omega)
  | succ n ih =>
    intro c num cs v h hn
    unfold countLoop
    refine .ite (fun _ => h.next hg (fun _ e t => ih t ?_) fun _ => .of_run rfl Out.ok_ne_hang)
      fun _ => .of_run rfl Out.ok_ne_hang
    rw [e, List.length_cons] at hn
    omega

theorem emptyLoop_ends (hg : Geometry fsi) (n : Nat) : ∀ {c : Nat} {cs : List Nat} {v : Vol},
    Path fsi (view fsi v.disk).fat c cs → cs.length ≤ n →
      WP (emptyLoop fsi n c) v fun r _ => r ≠ .hang := by
  induction n with
  | zero => exact fun h hn => absurd h.length_pos (by omega)
  | succ n ih =>
    intro c cs v h hn
    unfold emptyLoop
    refine .attempt_bind (readCluster_ends c v) fun r v1 s1 => ?_
    cases r with
    | error e => exact .of_run rfl Out.err_ne_hang
    | ok bp =>
      rw [← s1.disk] at h
      dsimp only
      split
      · exact .of_run rfl Out.ok_ne_hang
      · exact .of_run rfl Out.err_ne_hang
      · refine h.next hg (fun _ e t => ih t ?_) fun _ => .of_run rfl Out.ok_ne_hang
        rw [e, List.length_cons] at hn
        omega

theorem getDirentLoop_ends (hg : Geometry fsi) (dn n : Nat) : ∀ {c o : Nat} {st : Scan}
    {cs : List Nat} {v : Vol}, Path fsi (view fsi v.disk).fat c cs → cs.length ≤ n →
      WP (getDirentLoop fsi dn n c o st) v fun r _ => r ≠ .hang := by
  induction n with
  | zero => exact fun h hn => absurd h.length_pos (by omega)
  | succ n ih =>
    intro c o st cs v h hn
    unfold getDirentLoop
    refine .bind (readCluster_ends c v) (fun bp v1 h1 => ?_) (fun _ _ _ => Out.err_ne_hang)
      fun _ h => absurd rfl h.1
    rw [← h1.2.disk] at h
    split
    · exact .of_run rfl Out.err_ne_hang
    · exact .of_run rfl Out.ok_ne_hang
    · refine h.next hg (fun _ e t => ih t ?_) fun _ => .of_run rfl Out.err_ne_hang
      rw [e, List.length_cons] at hn
      omega

theorem allocLoop_ends (hg : Geometry fsi) (num n : Nat) : ∀ {c cur : Nat} {run : Run}
    {found : Bool} {cs : List Nat} {v : Vol}, Path fsi (view fsi v.disk).fat c cs → cs.length ≤ n →
      WP (allocLoop fsi num n c cur run found) v fun r _ => r ≠ .hang := by
  induction n with
  | zero => exact fun h hn => absurd h.length_pos (by omega)
  | succ n ih =>
    intro c cur run found cs v h hn
    unfold allocLoop
    have hstep : WP (if found then pure (AllocStep.last run) else do
        let bp ← readCluster fsi c
        pure (allocCluster fsi num cur bp.data fsi.bytesPerCluster 0 run)) v
        fun r v' => r ≠ .hang ∧ Same v v' :=
      .ite (fun _ => .of_run rfl ⟨Out.ok_ne_hang, .refl v⟩) fun _ => .bind (readCluster_ends c v)
        (fun _ _ h => .of_run rfl ⟨Out.ok_ne_hang, h.2⟩) (fun _ _ h => ⟨Out.err_ne_hang, h.2⟩)
        fun _ h => absurd rfl h.1
    refine .bind hstep (fun step v1 h1 => ?_) (fun _ _ _ => Out.err_ne_hang)
      fun _ h => absurd rfl h.1
    -- what comes behind the next cluster
    have hnext (run : Run) (found : Bool) {k : Except Errno Nat → FsM (Except Nat AllocEnd)}
        (herr : ∀ e, k (.error e) = pure (.ok ⟨c, u32 (cur + fsi.bytesPerCluster), run, found⟩))
        (hok : ∀ d, k (.ok d) = allocLoop fsi num n d (u32 (cur + fsi.bytesPerCluster)) run found) :
        WP (attempt (nextCluster fsi c {}) >>= k) v1 fun r _ => r ≠ .hang := by
      rw [← h1.2.disk] at h
      refine h.next hg (fun _ e t => ?_) fun _ => ?_
      · rw [hok]
        refine ih t ?_
        rw [e, List.length_cons] at hn
        omega
      · rw [herr]
        exact .of_run rfl Out.ok_ne_hang
    cases step with
    | full start => exact .of_run rfl Out.ok_ne_hang
    | last run => exact hnext run true (fun _ => rfl) fun _ => rfl
    | more run => exact hnext run found (fun _ => rfl) fun _ => rfl

/-- Without clusters no link is followed; the new one is given back if it cannot be
used. -/
theorem allocFirst_ends (hg : Geometry fsi) (hfuel : fsi.clusterCount + 2 ≤ fsi.kernel.fuel) :
    Terminates (allocFirst fsi) := by
  have hfree (c : Nat) : Terminates (onVol (freeClusters fsi c true)) := by
    refine fun s => ?_
    show (freeClusters fsi c true s.vol).1 ≠ .hang
    have hupdate (n : Nat) : Terminates (freeUpdate fsi n) := by
      refine .ite (fun _ => .bind (.attempt (bread_terminates _ _)) fun r => ?_) fun _ => .pure _
      cases r with
      | error e => exact .pure _
      | ok bp =>
        exact .bind (fun _ => nofun) fun _ => .ite (fun _ => .bind (fun _ => nofun) fun _ _ => nofun)
          fun _ => .pure _
    have hloop : Terminates (freeLoop fsi fsi.kernel.fuel c 0) := by
      refine fun v => (freeLoop_failsOr _ c 0).ne_hang (.refl v) ?_
      have h := freeLoop_any (answering_reliable fsi) (answering_geometry hg) fsi.kernel.fuel c 0 v
        (le_trans hfuel (Nat.le_add_right _ _))
      unfold WP at h
      exact h.1
    have hall : Terminates (freeClusters fsi c true) :=
      .ite (fun _ => .fail _) fun _ => .ite (fun h => absurd rfl h) fun _ => .bind hloop hupdate
    exact hall s.vol
  have hon {α : Type} {m : FsM α} (h : Terminates m) : Terminates (onVol m) := fun s => h s.vol
  refine .bind (hon (nextCluster_terminates _ _)) fun c => .bind (fun _ => nofun) fun s =>
    .ite (fun _ => .bind (.attempt (hfree c)) fun _ => .fail _) fun _ =>
    .bind (.attempt (hon (initDir_terminates _ _))) fun r => ?_
  cases r with
  | error e => exact .bind (.attempt (hfree c)) fun _ => .fail _
  | ok _ => exact .bind (fun _ => nofun) fun _ => .pure _

theorem allocFdentry_ends (hg : Geometry fsi) (hfuel : fsi.clusterCount + 2 ≤ fsi.kernel.fuel)
    (h : Path fsi (view fsi s.vol.disk).fat s.fv.cluster cs) (num : Nat) :
    WP (allocFdentry fsi num) s fun r _ => r ≠ .hang := by
  unfold allocFdentry
  refine .get_bind (.ite (fun _ => .of_run rfl (allocFirst_ends hg hfuel s)) fun _ => .on ?_)
  have hlen := h.length_le (n := fsi.kernel.fuel) (by omega) (by omega)
  refine .bind (allocLoop_ends hg num _ h hlen) (fun r v1 _ => ?_) (fun _ _ _ => nofun)
    fun _ h => absurd rfl h
  cases r with
  | error start => exact .of_run rfl nofun
  | ok e =>
    have hgrow (n c : Nat) : WP (growLoop fsi n c) v1 fun r _ => r ≠ .hang :=
      .of_run rfl (growLoop_terminates _ _ _)
    refine .ite (fun _ => .bind (hgrow _ _) ?_ ?_ ?_) fun _ => .of_run rfl nofun
    · exact fun _ _ _ => .of_run rfl nofun
    · exact fun _ _ _ => nofun
    · exact fun _ h => absurd rfl h

/-! ## Links without an end -/

/-- Links without an end are counted forever. -/
theorem countLoop_hangs (hk : Reliable fsi.kernel) (hg : Geometry fsi) (n : Nat) :
    ∀ {c num : Nat} {v : Vol}, (∀ m, walk (fatNext fsi (view fsi v.disk).fat) m c ≠ none) →
      (countLoop fsi n c num v).1 = .hang := by
  induction n with
  | zero => exact fun _ => rfl
  | succ n ih =>
    intro c num v h
    rcases hd : fatNext fsi (view fsi v.disk).fat c with _ | d
    · exact absurd (by rw [walk, hd]; rfl) (h 1)
    · obtain ⟨v1, e1, s1⟩ := nextCluster_link hk hg hd {}
      rw [countLoop, if_pos ((fatNext_some.mp hd).1.loops hg), bind_ok (attempt_ok e1)]
      refine ih fun m => ?_
      have hm := h (m + 1)
      rw [walk, hd] at hm
      rw [s1.disk]
      exact hm

/-! ## The search for a name -/

/-- The 8.3 entries that a scan returns. -/
def Slot.IsEntry (s : Slot) : Prop :=
  s.first ≠ 0 ∧ s.first ≠ lfnDeleted ∧ s.attr &&& attrVolumeId = 0

instance (s : Slot) : Decidable s.IsEntry := inferInstanceAs (Decidable (_ ∧ _ ∧ _))

/-- What a slot does to a scan, by its kind. -/
theorem scanSlot_cases (dn : Nat) (s : Slot) (st : Scan) :
    s.first = 0 ∧ scanSlot dn s st = .stop ∨
      s.first ≠ 0 ∧ ¬ s.IsEntry ∧ (∃ st', scanSlot dn s st = .skip st') ∨
      s.IsEntry ∧ ∃ st', scanSlot dn s st = .entry st' := by
  unfold scanSlot Slot.IsEntry
  by_cases h0 : s.first = 0
  · exact .inl ⟨h0, if_pos h0⟩
  rw [if_neg h0]
  by_cases hd : s.first = lfnDeleted
  · exact .inr (.inl ⟨h0, fun h => h.2.1 hd, _, if_pos hd⟩)
  rw [if_neg hd]
  by_cases hl : s.attr = attrLongName
  · refine .inr (.inl ⟨h0, fun h => ?_, _, if_pos hl⟩)
    rw [hl] at h
    exact absurd h.2.2 (by decide)
  rw [if_neg hl]
  by_cases hv : s.attr &&& attrVolumeId = 0
  · exact .inr (.inr ⟨⟨h0, hd, hv⟩, _, if_neg (not_not.mpr hv)⟩)
  · exact .inr (.inl ⟨h0, fun h => hv h.2.2, _, if_pos hv⟩)

/-- The slots before the index have not ended the directory. -/
def Open (l : List Slot) (i : Nat) : Prop := ∀ k < i, ∀ x, l[k]? = some x → x.first ≠ 0

/-- What a scan returns is an entry that no end of the directory comes before. -/
theorem scanSlots_found {dn : Nat} {l : List Slot} {st st' : Scan} {e : Slot}
    (h : scanSlots dn l st = .entry e st') (ho : st.offset < 2 ^ 32) :
    ∃ j, l[j]? = some e ∧ e.IsEntry ∧ Open l j ∧ st'.offset = u32 (st.offset + 32 * j) := by
  induction l generalizing st with
  | nil => exact nomatch h
  | cons s l ih =>
    rw [scanSlots] at h
    have hoff := @scanSlot_offset dn s st
    rcases scanSlot_cases dn s st with ⟨-, hs⟩ | ⟨h0, -, st1, hs⟩ | ⟨he, st1, hs⟩
    · rw [hs] at h
      cases h
    · rw [hs] at h
      have h1 : st1.offset = u32 (st.offset + dentrySize) := (@hoff st1).1 hs
      obtain ⟨j, hj, he, hopen, hj'⟩ := ih h (h1 ▸ Nat.mod_lt _ (by decide))
      refine ⟨j + 1, hj, he, fun k hk x hx => ?_, ?_⟩
      · cases k with
        | zero =>
          obtain rfl := Option.some.inj hx
          exact h0
        | succ k => exact hopen k (by omega) x hx
      · rw [hj', h1, u32, u32, u32, dentrySize]
        omega
    · rw [hs] at h
      cases h
      refine ⟨0, rfl, he, fun k hk => absurd hk (Nat.not_lt_zero k), ?_⟩
      rw [(@hoff _).2 hs]
      exact (Nat.mod_eq_of_lt ho).symm

/-- A scan finds an entry if there is one before the end of the directory. -/
theorem scanSlots_finds (dn : Nat) {l : List Slot} {j : Nat} {e : Slot} (hj : l[j]? = some e)
    (he : e.IsEntry) (ho : Open l j) (st : Scan) : ∃ e' st', scanSlots dn l st = .entry e' st' := by
  induction l generalizing j st with
  | nil => exact nomatch hj
  | cons s l ih =>
    rw [scanSlots]
    rcases scanSlot_cases dn s st with ⟨h0, -⟩ | ⟨-, hne, st1, hs⟩ | ⟨-, st1, hs⟩
    · cases j with
      | zero =>
        obtain rfl := Option.some.inj hj
        exact absurd h0 he.1
      | succ j => exact absurd h0 (ho 0 (Nat.succ_pos j) s rfl)
    · rw [hs]
      cases j with
      | zero =>
        obtain rfl := Option.some.inj hj
        exact absurd he hne
      | succ j => exact ih hj (fun k hk x hx => ho (k + 1) (by omega) x hx) st1
    · rw [hs]
      exact ⟨s, st1, rfl⟩

/-- All entries that a search comes to end below 4 GiB. -/
def Below (l : List Slot) : Prop :=
  ∀ j e, l[j]? = some e → e.IsEntry → Open l j → 32 * (j + 1) < 2 ^ 32

/-- Then each entry is behind the one before. -/
theorem findLoop_ends (hk : Reliable fsi.kernel) (hg : Geometry fsi)
    (hfuel : cs.length ≤ fsi.kernel.fuel) (name : List UInt8) (n : Nat) :
    ∀ {i : Nat} (d : Nat → UInt8) (efv : Fv) {s : VnSt}, IsDir fsi cs s →
      Below (readSlots fsi cs s.vol) → Open (readSlots fsi cs s.vol) i → 32 * i < 2 ^ 32 →
      2 ^ 27 ≤ i + n → (findLoop fsi name n (32 * i) d efv s).1 ≠ .hang := by
  induction n with
  | zero => intro i _ _ _ _ _ _ hi hn; omega
  | succ n ih =>
    intro i d efv s h hbelow hopen hi hn
    obtain ⟨t, hrun, h', hsame, -⟩ := getDirent_run hk hg hfuel h hi
      ⟨Function.update d 0 0, dNameSize⟩ (some (vnodeReset fsi efv))
    rw [findLoop]
    unfold direntScan at hrun
    rcases hscan : scanSlots dNameSize ((readSlots fsi cs s.vol).drop i)
      { offset := 32 * i, name := ⟨Function.update d 0 0, dNameSize⟩ } with _ | ⟨e, st⟩ | _ <;>
      rw [hscan] at hrun
    · rw [bind_err hrun]
      exact Out.err_ne_hang
    · obtain ⟨j, hj, he, hopen', hoff⟩ := scanSlots_found hscan hi
      rw [List.getElem?_drop] at hj
      have hopen2 : Open (readSlots fsi cs s.vol) (i + j) := fun k hk x hx => by
        by_cases hki : k < i
        · exact hopen k hki x hx
        · refine hopen' (k - i) (by omega) x ?_
          rw [List.getElem?_drop, Nat.add_sub_cancel' (not_lt.mp hki)]
          exact hx
      have hlt := hbelow (i + j) e hj he hopen2
      have hnext : (direntOut s.fv.cluster (some (vnodeReset fsi efv)) e st).offset =
          32 * (i + j + 1) := by
        show u32 (st.offset + dentrySize) = _
        rw [hoff, u32, u32, dentrySize]
        dsimp only
        omega
      rw [bind_ok hrun, hnext]
      by_cases hm : nameMatch name (direntOut s.fv.cluster (some (vnodeReset fsi efv)) e st).name
      · rw [if_pos hm]
        exact Out.ok_ne_hang
      · rw [if_neg hm]
        have hvol : readSlots fsi cs t.vol = readSlots fsi cs s.vol := readSlots_same hsame
        refine ih _ _ h' (by rwa [hvol]) (fun k hk x hx => ?_) hlt (by omega)
        rw [hvol] at hx
        by_cases hki : k < i + j
        · exact hopen2 k hki x hx
        · obtain rfl : k = i + j := by omega
          obtain rfl := Option.some.inj (hj.symm.trans hx)
          exact he.1
    · rw [bind_err hrun]
      exact Out.err_ne_hang

/-! ### Names that nothing matches -/

/-- Past the length of a short name a buffer holds what long names put there. -/
def DName.Plain (d : DName) : Prop := d.data 13 < 128

theorem DName.Plain.set_zero {d : DName} (h : d.Plain) (i size : Nat) :
    DName.Plain { d.set i 0 with size := size } := by
  show Function.update d.data i 0 13 < 128
  by_cases hi : i = 13
  · rw [hi, Function.update_self]
    decide
  · rw [Function.update_of_ne (Ne.symm hi)]
    exact h

theorem setDname_plain {d : DName} (h : d.Plain) (pos u : Nat) : (setDname pos u d).Plain := by
  have hc : (if u ≥ 128 then 63 else UInt8.ofNat u : UInt8) < 128 := by
    by_cases hu : u ≥ 128
    · rw [if_pos hu]
      decide
    · rw [if_neg hu, UInt8.lt_iff_toNat_lt, UInt8.toNat_ofNat']
      have : u % 2 ^ 8 = u := Nat.mod_eq_of_lt (by omega)
      rw [this]
      show u < 128
      omega
  have hset (c : UInt8) (hc : c < 128) (size : Nat) :
      DName.Plain { d.set pos c with size := size } := by
    show Function.update d.data pos c 13 < 128
    by_cases hi : pos = 13
    · rw [hi, Function.update_self]
      exact hc
    · rw [Function.update_of_ne (Ne.symm hi)]
      exact h
  have hput (c : UInt8) (hc : c < 128) :
      DName.Plain (if c = 0 then { d.set pos c with size := pos } else d.set pos c) := by
    split
    · exact hset c hc pos
    · exact hset c hc d.size
  unfold setDname
  by_cases hpos : pos ≥ d.size
  · rw [if_pos hpos]
    exact h
  by_cases hfill : u = lfnFill
  · rw [if_neg hpos, if_pos hfill]
    exact h
  · rw [if_neg hpos, if_neg hfill]
    exact hput _ hc

theorem scanLfn_plain {dn : Nat} {s : Slot} {st : Scan} (h : st.name.Plain) :
    (scanLfn dn s st).name.Plain := by
  have hput (l : List (Fin 13)) (pos : Nat) : ∀ d : DName, d.Plain →
      (l.foldl (fun d j => setDname (u32 (pos + j.val)) (s.lfnUnit j) d) d).Plain := by
    induction l with
    | nil => exact fun _ h => h
    | cons j l ih => exact fun d h => ih _ (setDname_plain h _ _)
  unfold scanLfn
  dsimp only
  refine hput (List.finRange 13) (u32 (sub32 s.seqNum 1 * 13)) _ ?_
  split
  · split
    · exact h.set_zero _ _
    · exact h
  · exact h

theorem length_decodeName (s : Slot) : s.decodeName.length ≤ 12 := by
  have hbase : (((List.ofFn s.name).take 8).takeWhile (· ≠ 32)).length ≤ 8 :=
    ((List.takeWhile_sublist _).length_le).trans (List.length_take_le _ _)
  have hext : (((List.ofFn s.name).drop 8).takeWhile (· ≠ 32)).length ≤ 3 := by
    refine (List.takeWhile_sublist _).length_le.trans ?_
    simp
  unfold Slot.decodeName
  dsimp only
  split
  · omega
  · rw [List.length_append, List.length_cons]
    omega

theorem DName.Plain.store {d : DName} (h : d.Plain) {l : List UInt8} (hl : l.length ≤ 12) :
    (d.store l).Plain := by
  unfold DName.Plain DName.store
  dsimp only
  rw [dif_neg (by omega), if_neg (by omega)]
  exact h

theorem scanSlot_plain {dn : Nat} {s : Slot} {st st' : Scan} (hp : st.name.Plain) :
    (scanSlot dn s st = .skip st' → st'.name.Plain) ∧
      (scanSlot dn s st = .entry st' → st'.name.Plain) := by
  unfold scanSlot
  refine ⟨fun h => ?_, fun h => ?_⟩
  · split at h
    · cases h
    split at h
    · cases h
      exact hp
    split at h
    · injection h with h
      have hnext (st : Scan) : st.next.name = st.name := rfl
      rw [← h, hnext]
      exact scanLfn_plain hp
    split at h
    · cases h
      exact hp.set_zero _ _
    · cases h
  · split at h
    · cases h
    split at h
    · cases h
    split at h
    · cases h
    split at h
    · cases h
    · cases h
      dsimp only
      split
      · refine hp.store ?_
        rw [List.length_take]
        exact (Nat.min_le_right _ _).trans (length_decodeName s)
      · exact hp

theorem scanSlots_plain {dn : Nat} {l : List Slot} {st st' : Scan} {e : Slot}
    (h : scanSlots dn l st = .entry e st') (hp : st.name.Plain) : st'.name.Plain := by
  induction l generalizing st with
  | nil => exact nomatch h
  | cons s l ih =>
    rw [scanSlots] at h
    have hs := @scanSlot_plain dn s st
    rcases scanSlot_cases dn s st with ⟨_, e1⟩ | ⟨_, _, st1, e1⟩ | ⟨_, st1, e1⟩ <;> rw [e1] at h
    · cases h
    · exact ih h ((@hs st1 hp).1 e1)
    · cases h
      exact (@hs _ hp).2 e1

/-- A name that no entry has, as no long name holds a byte from 128 on. -/
def noName : List UInt8 := List.replicate 14 200

theorem noName_mismatch {d : DName} (h : d.Plain) : nameMatch noName d = false := by
  unfold nameMatch
  rw [decide_eq_false_iff_not]
  rintro ⟨-, hall⟩
  have h13 := hall ⟨13, by decide⟩
  have hle : toupper (d.data 13) < 128 := by
    unfold DName.Plain at h
    unfold toupper
    split
    · rename_i hr
      have h32 : (32 : UInt8) ≤ d.data 13 := UInt8.le_trans (by decide : (32 : UInt8) ≤ 97) hr.1
      rw [UInt8.lt_iff_toNat_lt, UInt8.toNat_sub_of_le _ _ h32]
      rw [UInt8.lt_iff_toNat_lt] at h
      omega
    · exact h
  have heq : toupper 200 = toupper (d.data 13) := by
    simpa [chrcmp, noName] using h13
  rw [← heq] at hle
  exact absurd hle (by decide)

/-- An entry behind 4 GiB sends the search back, over and over. -/
theorem findLoop_hangs (hk : Reliable fsi.kernel) (hg : Geometry fsi)
    (hfuel : cs.length ≤ fsi.kernel.fuel) {J : Nat} {E : Slot} (hE : E.IsEntry)
    (hJ : 2 ^ 32 ≤ 32 * (J + 1)) (n : Nat) :
    ∀ {i : Nat} (d : Nat → UInt8) (efv : Fv) {s : VnSt}, IsDir fsi cs s →
      (readSlots fsi cs s.vol)[J]? = some E → Open (readSlots fsi cs s.vol) J → 32 * i < 2 ^ 32 →
      d 13 < 128 → (findLoop fsi noName n (32 * i) d efv s).1 = .hang := by
  induction n with
  | zero => exact fun _ _ _ _ _ _ _ _ => rfl
  | succ n ih =>
    intro i d efv s h hget hopen hi hd
    obtain ⟨t, hrun, h', hsame, -⟩ := getDirent_run hk hg hfuel h hi
      ⟨Function.update d 0 0, dNameSize⟩ (some (vnodeReset fsi efv))
    have hplain : DName.Plain ⟨Function.update d 0 0, dNameSize⟩ := hd
    have hdrop : ((readSlots fsi cs s.vol).drop i)[J - i]? = some E := by
      rw [List.getElem?_drop, Nat.add_sub_cancel' (by omega)]
      exact hget
    obtain ⟨e, st, hscan⟩ := scanSlots_finds dNameSize hdrop hE (fun k hk x hx =>
      hopen (i + k) (by omega) x (by rwa [← List.getElem?_drop]))
      { offset := 32 * i, name := ⟨Function.update d 0 0, dNameSize⟩ }
    obtain ⟨j, -, -, -, hoff⟩ := scanSlots_found hscan hi
    have hst := scanSlots_plain hscan hplain
    rw [findLoop]
    unfold direntScan at hrun
    rw [hscan] at hrun
    have hnext : (direntOut s.fv.cluster (some (vnodeReset fsi efv)) e st).offset =
        32 * ((i + j + 1) % 2 ^ 27) := by
      show u32 (st.offset + dentrySize) = _
      rw [hoff, u32, u32, dentrySize]
      dsimp only
      omega
    have hname : (direntOut s.fv.cluster (some (vnodeReset fsi efv)) e st).name = st.name := rfl
    rw [bind_ok hrun, hnext, hname, if_neg (by rw [noName_mismatch hst]; exact Bool.false_ne_true)]
    have hvol : readSlots fsi cs t.vol = readSlots fsi cs s.vol := readSlots_same hsame
    exact ih _ _ h' (by rwa [hvol]) (by rwa [hvol]) (by omega) hst

/-! ## When every walk ends -/

/-- The slot with index `j` of the directory, found along the links. -/
def dirSlot (fsi : Fsi) (s : VnSt) (j : Nat) : Option Slot :=
  (walk (fatNext fsi (view fsi s.vol.disk).fat) (j / slotsPer fsi) s.fv.cluster).map fun c =>
    slotAt (clusterBytes fsi s.vol.disk c) (32 * (j % slotsPer fsi))

/-- The links from the first cluster of the directory come to an end. -/
def LinksEnd (fsi : Fsi) (s : VnSt) : Prop :=
  ∃ n, walk (fatNext fsi (view fsi s.vol.disk).fat) n s.fv.cluster = none

/-- Every 8.3 entry before the end of the directory ends below 4 GiB. -/
def EntriesBelow (fsi : Fsi) (s : VnSt) : Prop :=
  ∀ j e, dirSlot fsi s j = some e → e.IsEntry →
    (∀ k < j, ∀ x, dirSlot fsi s k = some x → x.first ≠ 0) → 32 * (j + 1) < 2 ^ 32

/-- The walks along the directory end, whatever the device answers. The fuel is the
number of clusters that a walk may visit; a search for a name makes one walk for
each entry it passes. -/
structure WalksEnd (fsi : Fsi) (s : VnSt) : Prop where
  getattr : ∀ k : Kernel, 0 < k.fuel → fsi.clusterCount ≤ k.fuel →
    (getattr { fsi with kernel := k } s).1 ≠ .hang
  alloc : ∀ (k : Kernel) (num : Nat), fsi.clusterCount + 2 ≤ k.fuel →
    (allocFdentry { fsi with kernel := k } num s).1 ≠ .hang
  empty : ∀ k : Kernel, 0 < k.fuel → fsi.clusterCount ≤ k.fuel →
    (dirempty { fsi with kernel := k } s.fv s.vol).1 ≠ .hang
  next : ∀ (k : Kernel) (offset : Nat) (d : DName) (efv : Option Fv), 0 < k.fuel →
    fsi.clusterCount ≤ k.fuel → offset < 2 ^ 32 →
    (getDirent { fsi with kernel := k } offset d efv s).1 ≠ .hang
  find : ∃ n, ∀ (k : Kernel) (name : List UInt8) (efv : Fv), n ≤ k.fuel →
    (findDirent { fsi with kernel := k } name efv s).1 ≠ .hang

theorem dirSlot_eq (hg : Geometry fsi) (h : Path fsi (view fsi s.vol.disk).fat s.fv.cluster cs)
    (j : Nat) : dirSlot fsi s j = (readSlots fsi cs s.vol)[j]? := by
  obtain ⟨hsplit, hlt⟩ := slot_split hg j
  rw [dirSlot, h.walk_eq (path_ends _)]
  conv => rhs; rw [← hsplit, ← Nat.add_zero (_ + _), ← List.getElem?_drop]
  rcases hc : cs[j / slotsPer fsi]? with _ | c
  · rw [dirSlots_drop_all _ (List.getElem?_eq_none_iff.mp hc)]
    rfl
  · rw [dirSlots_drop_in _ hc (le_of_lt hlt), clusterSlots_drop _ hlt]
    rfl

theorem below_iff (hg : Geometry fsi) (h : Path fsi (view fsi s.vol.disk).fat s.fv.cluster cs) :
    EntriesBelow fsi s ↔ Below (readSlots fsi cs s.vol) := by
  unfold EntriesBelow Below Open
  simp only [dirSlot_eq hg h]

theorem getattr_ends (hg : Geometry fsi) (h : Path fsi (view fsi s.vol.disk).fat s.fv.cluster cs)
    (hfuel : cs.length ≤ fsi.kernel.fuel) : WP (getattr fsi) s fun r _ => r ≠ .hang := by
  unfold getattr
  refine .get_bind (.ite (fun _ => ?_) fun _ => .of_run rfl nofun)
  exact .on_bind (countLoop_ends hg _ h hfuel) (fun _ _ _ => .of_run rfl nofun)
    (fun _ _ _ => nofun) fun _ h => absurd rfl h

theorem dirempty_ends (hg : Geometry fsi) (h : Path fsi (view fsi s.vol.disk).fat s.fv.cluster cs)
    (hfuel : cs.length ≤ fsi.kernel.fuel) : WP (dirempty fsi s.fv) s.vol fun r _ => r ≠ .hang := by
  unfold dirempty
  exact .ite (fun _ => .of_run rfl nofun) fun _ => .ite (fun _ => .of_run rfl nofun) fun _ =>
    emptyLoop_ends hg _ h hfuel

theorem findDirent_ends (hg : Geometry fsi) (h : IsDir fsi cs s)
    (hbelow : Below (readSlots fsi cs s.vol)) (hfuel : cs.length ≤ fsi.kernel.fuel)
    (hmany : 2 ^ 27 ≤ fsi.kernel.fuel) (name : List UInt8) (efv : Fv) :
    (findDirent fsi name efv s).1 ≠ .hang := by
  refine (findDirent_failsOr name efv).ne_hang ⟨.refl _, rfl⟩ ?_
  have h' : IsDir fsi.answering cs s := ⟨h.type, h.path, h.cache⟩
  have hstart : Open (readSlots fsi.answering cs s.vol) 0 :=
    fun k hk => absurd hk (Nat.not_lt_zero k)
  rw [findDirent, get_bind_run, if_neg (not_not.mpr h.type)]
  exact findLoop_ends (answering_reliable fsi) (answering_geometry hg) hfuel _ _ (i := 0) _ efv h'
    hbelow hstart (by decide) (by rw [Nat.zero_add]; exact hmany)

theorem getDirent_ends (hg : Geometry fsi) (h : IsDir fsi cs s)
    (hfuel : cs.length ≤ fsi.kernel.fuel) {offset : Nat} (ho : offset < 2 ^ 32) (d : DName)
    (efv : Option Fv) : (getDirent fsi offset d efv s).1 ≠ .hang := by
  refine (getDirent_failsOr offset d efv).ne_hang ⟨.refl _, rfl⟩ ?_
  have hend : WP (getDirent fsi.answering offset d efv) s fun r _ => r ≠ .hang := by
    unfold getDirent
    refine .get_bind (.ite (fun _ => .of_run rfl nofun) fun _ => ?_)
    have hskip : offset >>> fsi.clusterShift < 2 ^ 32 :=
      lt_of_le_of_lt (Nat.shiftRight_le _ _) ho
    obtain ⟨v, hs, ⟨c, e, hw⟩ | ⟨x, e, -⟩⟩ := vnodeSeekCluster_walk (answering_reliable fsi)
      (answering_geometry hg) hskip noAlloc h.cache
    · refine .ok_bind (attempt_ok e) ?_
      -- the rest of the path, from the cluster found on
      have hpath : Path fsi (view fsi v.disk).fat s.fv.cluster cs := by
        rw [hs.disk]
        exact h.path
      have hc : cs[offset >>> fsi.clusterShift]? = some c :=
        (h.path.walk_eq (path_ends _) _).symm.trans hw
      have hsplit := split_at hc
      have hlen := congrArg List.length hsplit
      rw [List.length_append, List.length_cons] at hlen
      refine .on_bind (getDirentLoop_ends (answering_geometry hg) _ _ (hpath.split hsplit) ?_)
        (fun _ _ _ => .of_run rfl nofun) (fun _ _ _ => nofun) fun _ h => absurd rfl h
      show _ ≤ fsi.kernel.fuel
      rw [List.length_cons]
      omega
    · exact .ok_bind (attempt_err e) (.of_run rfl nofun)
  unfold WP at hend
  exact hend

theorem getattr_hangs (hk : Reliable fsi.kernel) (hg : Geometry fsi) (htype : s.fv.type = .vdir)
    (h : ¬ LinksEnd fsi s) : (getattr fsi s).1 = .hang := by
  have hloop : (countLoop fsi fsi.kernel.fuel s.fv.cluster 0 s.vol).1 = .hang :=
    countLoop_hangs hk hg _ fun m hm => h ⟨m, hm⟩
  rw [getattr, get_bind_run, if_pos htype, bind_hang (onVol_run (Prod.ext hloop rfl))]

/-- The walks along a directory end exactly when its links do and its entries end below
4 GiB. -/
theorem walksEnd_iff (hg : Geometry fsi) (htype : s.fv.type = .vdir)
    (hc : CacheOk fsi (view fsi s.vol.disk).fat s.fv.cluster s.fv.clsCache) :
    WalksEnd fsi s ↔ LinksEnd fsi s ∧ EntriesBelow fsi s := by
  have hgk := kernel_geometry hg
  constructor
  · intro h
    have hlinks : LinksEnd fsi s := by
      by_contra hno
      exact h.getattr { fuel := fsi.clusterCount + 1 } (Nat.succ_pos _) (Nat.le_succ _)
        (getattr_hangs ⟨fun _ => rfl⟩ (hgk _) htype hno)
    refine ⟨hlinks, ?_⟩
    obtain ⟨m, hm⟩ := hlinks
    obtain ⟨cs, hcs⟩ := exists_chain hm
    rw [below_iff hg hcs]
    intro J E hJ hE hopen
    by_contra hfar
    obtain ⟨n, hn⟩ := h.find
    refine hn { fuel := max n cs.length } noName (vnodeNew fsi) (Nat.le_max_left _ _) ?_
    have h' : IsDir { fsi with kernel := { fuel := max n cs.length } } cs s := ⟨htype, hcs, hc⟩
    rw [findDirent, get_bind_run, if_neg (not_not.mpr htype)]
    exact findLoop_hangs ⟨fun _ => rfl⟩ (hgk { fuel := max n cs.length }) (Nat.le_max_right _ _) hE
      (not_lt.mp hfar) _ (i := 0) _ _ h' hJ hopen (by decide) (show (0 : UInt8) < 128 by decide)
  · rintro ⟨⟨m, hm⟩, hbelow⟩
    obtain ⟨cs, hcs⟩ := exists_chain hm
    rw [below_iff hg hcs] at hbelow
    have hdir (k : Kernel) : IsDir { fsi with kernel := k } cs s := ⟨htype, hcs, hc⟩
    refine ⟨fun k h0 hk => ?_, fun k num hk => ?_, fun k h0 hk => ?_, fun k o d efv h0 hk ho => ?_,
      max (2 ^ 27) fsi.clusterCount, fun k name efv hk => ?_⟩
    · have hend := getattr_ends (hgk k) (hdir k).path (Path.length_le hcs h0 hk)
      unfold WP at hend
      exact hend
    · have hend := allocFdentry_ends (hgk k) hk (hdir k).path num
      unfold WP at hend
      exact hend
    · have hend := dirempty_ends (hgk k) (hdir k).path (Path.length_le hcs h0 hk)
      unfold WP at hend
      exact hend
    · exact getDirent_ends (hgk k) (hdir k) (Path.length_le hcs h0 hk) ho d efv
    · have h27 : 2 ^ 27 ≤ k.fuel := (Nat.le_max_left _ _).trans hk
      have hlen : cs.length ≤ k.fuel :=
        Path.length_le hcs (by omega) ((Nat.le_max_right _ _).trans hk)
      exact findDirent_ends (hgk k) (hdir k) hbelow hlen h27 name efv

/-- The root directory of a volume of two clusters with the FAT `fat`, and a file in it. -/
def rootOf (fat : List Nat) : VnSt :=
  ⟨image fat fun _ => [shortEntry 65 0 0 0],
    { vnodeNew (small 2) with type := .vdir, cluster := 2 }⟩

theorem walksEnd_one : WalksEnd (small 2) (rootOf [clusterEoc, 0]) := by
  have hnone : fatNext (small 2) (view (small 2) (rootOf [clusterEoc, 0]).vol.disk).fat 2 = none := by
    decide +kernel
  refine (walksEnd_iff small_geometry rfl CacheOk.empty).mpr ⟨⟨1, ?_⟩, fun j e hj _ _ => ?_⟩
  · show (fatNext _ _ 2).bind _ = none
    rw [hnone]
    rfl
  · -- the directory has one cluster
    rcases hq : j / slotsPer (small 2) with _ | q
    · have hper : slotsPer (small 2) = 16 := by decide
      rw [hper] at hq
      omega
    · have hwalk : walk (fatNext (small 2) (view (small 2) (rootOf [clusterEoc, 0]).vol.disk).fat)
          (q + 1) 2 = none := by
        rw [walk, hnone]
        rfl
      have hcl : (rootOf [clusterEoc, 0]).fv.cluster = 2 := rfl
      rw [dirSlot, hq, hcl, hwalk] at hj
      cases hj

/-- The only cluster of the root directory is linked to itself. -/
theorem selfLinked_hangs : Geometry (small 2) ∧
    (∀ n, (getattr { small 2 with kernel := { fuel := n } } (rootOf [2, 0])).1 = .hang) ∧
    ¬ WalksEnd (small 2) (rootOf [2, 0]) := by
  have hself : fatNext (small 2) (view (small 2) (rootOf [2, 0]).vol.disk).fat 2 = some 2 := by
    decide +kernel
  have hno : ¬ LinksEnd (small 2) (rootOf [2, 0]) := by
    rintro ⟨m, hm⟩
    induction m with
    | zero => exact nomatch hm
    | succ m ih =>
      refine ih ?_
      have hstep : (fatNext (small 2) (view (small 2) (rootOf [2, 0]).vol.disk).fat 2).bind
        (walk (fatNext (small 2) (view (small 2) (rootOf [2, 0]).vol.disk).fat) m) = none := hm
      rw [hself] at hstep
      exact hstep
  have hhang (n : Nat) :
      (getattr { small 2 with kernel := { fuel := n } } (rootOf [2, 0])).1 = .hang :=
    getattr_hangs ⟨fun _ => rfl⟩ (kernel_geometry small_geometry _) rfl hno
  refine ⟨small_geometry, hhang, fun h => ?_⟩
  exact h.getattr { fuel := 2 } (by decide) (by decide) (hhang 2)

end Fat32
