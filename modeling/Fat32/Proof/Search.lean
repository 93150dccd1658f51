import Mathlib
import Fat32.Proof.File
import Fat32.Proof.ReadOnlyMount

/-!
# What a search depends on

A search of a directory looks at the disk and at the first cluster of the vnode.
The cluster cache, if it is right, and the number of questions asked of the
kernel change neither its result nor the disk: `findDirent` simulates itself
from states that differ only there (`Seen`).
-/

namespace Fat32

open Bytes Exec Prog Linked

variable {fsi : Fsi} {α : Type}

/-! ## Seeking without `NC_ALLOC` -/

/-- What a seek finds is that many links away. -/
theorem seekLoop_found (hk : Reliable fsi.kernel) (hg : Geometry fsi) {fl : NcFlags}
    (hfl : fl.alloc = false) (n : Nat) : ∀ {c d : Nat} {v v' : Vol},
      seekLoop fsi fl n c v = (.ok d, v') → d ≠ 0 →
        walk (fatNext fsi (view fsi v.disk).fat) n c = some d := by
  induction n with
  | zero =>
    intro c d v v' h _
    cases h
    rfl
  | succ n ih =>
    intro c d v v' h hd
    rcases hn : fatNext fsi (view fsi v.disk).fat c with _ | b
    · obtain ⟨e, v1, e1, -⟩ := nextCluster_none hk hg hfl hn
      rw [seekLoop, bind_err e1] at h
      cases h
    · obtain ⟨v1, e1, s1⟩ := nextCluster_link hk hg hn fl
      rw [seekLoop, bind_ok e1] at h
      rw [walk, hn, ← s1.disk]
      exact ih h hd

/-- A seek that leaves the links fails. -/
theorem seekLoop_none (hk : Reliable fsi.kernel) (hg : Geometry fsi) {fl : NcFlags}
    (hfl : fl.alloc = false) (n : Nat) : ∀ {c : Nat} {v : Vol},
      walk (fatNext fsi (view fsi v.disk).fat) n c = none →
        ∃ e v', seekLoop fsi fl n c v = (.err e, v') ∧ Same v v' := by
  induction n with
  | zero => exact fun h => nomatch h
  | succ n ih =>
    intro c v h
    rcases hn : fatNext fsi (view fsi v.disk).fat c with _ | b
    · obtain ⟨e, v1, e1, s1⟩ := nextCluster_none hk hg hfl hn
      exact ⟨e, v1, by rw [seekLoop, bind_err e1], s1⟩
    · obtain ⟨v1, e1, s1⟩ := nextCluster_link hk hg hn fl
      rw [walk, hn] at h
      obtain ⟨e, v2, e2, s2⟩ := ih (v := v1) (by rw [s1.disk]; exact h)
      exact ⟨e, v2, by rw [seekLoop, bind_ok e1, e2], s1.trans s2⟩

/-- Seeking through the cache goes where the links lead. -/
theorem vnodeSeekCluster_walk (hk : Reliable fsi.kernel) (hg : Geometry fsi) {skip : Nat}
    (hskip : skip < 2 ^ 32) {fl : NcFlags} (hfl : fl.alloc = false) {s : VnSt}
    (h : CacheOk fsi (view fsi s.vol.disk).fat s.fv.cluster s.fv.clsCache) :
    ∃ v, Same s.vol v ∧
      ((∃ d, vnodeSeekCluster fsi skip fl s = (.ok d,
          ⟨v, { s.fv with clsCache := updateCache s.fv.clsCache skip d }⟩) ∧
          walk (fatNext fsi (view fsi s.vol.disk).fat) skip s.fv.cluster = some d) ∨
        ∃ e, vnodeSeekCluster fsi skip fl s = (.err e, ⟨v, s.fv⟩) ∧
          walk (fatNext fsi (view fsi s.vol.disk).fat) skip s.fv.cluster = none) := by
  obtain ⟨i, c, hw, hi, e⟩ := vnodeSeekCluster_eq hskip fl h
  have hsplit : walk (fatNext fsi (view fsi s.vol.disk).fat) skip s.fv.cluster =
      walk (fatNext fsi (view fsi s.vol.disk).fat) (skip - i) c := by
    conv => lhs; rw [← Nat.add_sub_cancel' hi, walk_add, hw]
    rfl
  rw [hsplit]
  rcases hd : walk (fatNext fsi (view fsi s.vol.disk).fat) (skip - i) c with _ | d
  · obtain ⟨x, v, hx, s1⟩ := seekLoop_none hk hg hfl _ hd
    exact ⟨v, s1, .inr ⟨x, by rw [e, hx], rfl⟩⟩
  · obtain ⟨v, hx, s1⟩ := seekLoop_walk hk hg fl _ hd
    exact ⟨v, s1, .inl ⟨d, by rw [e, hx], rfl⟩⟩

/-! ## Two runs of a search -/

/-- States that differ in the cache and in how often the kernel was asked. -/
structure Seen (fsi : Fsi) (s t : VnSt) : Prop where
  vol : Same s.vol t.vol
  fv : CacheOnly s.fv t.fv
  left : CacheOk fsi (view fsi s.vol.disk).fat s.fv.cluster s.fv.clsCache
  right : CacheOk fsi (view fsi t.vol.disk).fat t.fv.cluster t.fv.clsCache

theorem Seen.cluster {s t : VnSt} (h : Seen fsi s t) : t.fv.cluster = s.fv.cluster := by
  obtain ⟨c, e⟩ := h.fv
  rw [e]

theorem Seen.type {s t : VnSt} (h : Seen fsi s t) : t.fv.type = s.fv.type := by
  obtain ⟨c, e⟩ := h.fv
  rw [e]

/-- A volume that was only read. -/
theorem Seen.vol_same {s t : VnSt} (h : Seen fsi s t) {v : Vol} (hv : Same t.vol v) :
    Seen fsi s ⟨v, t.fv⟩ := by
  refine ⟨h.vol.trans hv, h.fv, h.left, ?_⟩
  rw [hv.disk]
  exact h.right

theorem readCluster_sim (hk : Reliable fsi.kernel) (c : Nat) :
    Sim Same (readCluster fsi c) (readCluster fsi c) :=
  .bind (fun _ _ h => ⟨rfl, h.disk, h.free, h.next⟩) fun _ => bread_sim hk _ _

theorem getDirentLoop_sim (hk : Reliable fsi.kernel) (dn n : Nat) : ∀ c o st,
    Sim Same (getDirentLoop fsi dn n c o st) (getDirentLoop fsi dn n c o st) := by
  induction n with
  | zero => exact fun _ _ _ _ _ h => ⟨rfl, h⟩
  | succ n ih =>
    intro c o st
    unfold getDirentLoop
    refine .bind (readCluster_sim hk c) fun bp => ?_
    split
    · exact .fail _
    · exact .pure _
    · refine .bind (.attempt ((same_fatSim hk _).nextCluster c)) fun r => ?_
      cases r with
      | error e => exact .fail _
      | ok next => exact ih _ _ _

theorem dirempty_sim (hk : Reliable fsi.kernel) (fv : Fv) :
    Sim Same (dirempty fsi fv) (dirempty fsi fv) := by
  have hloop (n : Nat) : ∀ c, Sim Same (emptyLoop fsi n c) (emptyLoop fsi n c) := by
    induction n with
    | zero => exact fun _ _ _ h => ⟨rfl, h⟩
    | succ n ih =>
      intro c
      unfold emptyLoop
      refine .bind (.attempt (readCluster_sim hk c)) fun r => ?_
      cases r with
      | error e => exact .fail _
      | ok bp =>
        dsimp only
        split
        · exact .pure _
        · exact .fail _
        · refine .bind (.attempt ((same_fatSim hk _).nextCluster c)) fun r => ?_
          cases r with
          | error e => exact .pure _
          | ok next => exact ih _
  unfold dirempty
  exact .ite (fun _ => .fail _) fun _ => .ite (fun _ => .pure _) fun _ => hloop _ _

/-- A program on the volume that only reads. -/
theorem onVol_sim {m : FsM α} (hs : Sim Same m m) (hq : Quiet id m) :
    Sim (Seen fsi) (onVol m) (onVol m) := by
  intro s t h
  obtain ⟨he, hv⟩ := hs s.vol t.vol h.vol
  have hl : Same s.vol (m s.vol).2 := (hq s.vol).same
  have hr : Same t.vol (m t.vol).2 := (hq t.vol).same
  refine ⟨he, hv, h.fv, ?_, ?_⟩
  · show CacheOk fsi (view fsi (m s.vol).2.disk).fat _ _
    rw [hl.disk]
    exact h.left
  · show CacheOk fsi (view fsi (m t.vol).2.disk).fat _ _
    rw [hr.disk]
    exact h.right

/-- A seek through the cache, with what it leaves in the cache. -/
theorem vnodeSeekCluster_seen (hk : Reliable fsi.kernel) (hg : Geometry fsi) {skip : Nat}
    (hskip : skip < 2 ^ 32) {fl : NcFlags} (hfl : fl.alloc = false) {s : VnSt}
    (h : CacheOk fsi (view fsi s.vol.disk).fat s.fv.cluster s.fv.clsCache) :
    (vnodeSeekCluster fsi skip fl s).1 = (seekCluster fsi s.fv.cluster skip fl s.vol).1 ∧
      Same s.vol (vnodeSeekCluster fsi skip fl s).2.vol ∧
      ∃ cache, (vnodeSeekCluster fsi skip fl s).2.fv = { s.fv with clsCache := cache } ∧
        CacheOk fsi (view fsi s.vol.disk).fat s.fv.cluster cache := by
  refine ⟨(vnodeSeekCluster_refines hk hg hskip fl h).1,
    (vnodeSeekCluster_quiet skip hfl s).same, ?_⟩
  obtain ⟨i, c, hw, hi, e⟩ := vnodeSeekCluster_eq hskip fl h
  rw [e]
  rcases hs : seekLoop fsi fl (skip - i) c s.vol with ⟨d | x | _, v⟩
  · refine ⟨_, rfl, h.update fun hd => ?_⟩
    have hd' := seekLoop_found hk hg hfl _ hs hd
    rw [← Nat.add_sub_cancel' hi, walk_add, hw]
    exact hd'
  · exact ⟨_, rfl, h⟩
  · exact ⟨_, rfl, h⟩

theorem vnodeSeekCluster_sim (hk : Reliable fsi.kernel) (hg : Geometry fsi) {skip : Nat}
    (hskip : skip < 2 ^ 32) {fl : NcFlags} (hfl : fl.alloc = false) :
    Sim (Seen fsi) (vnodeSeekCluster fsi skip fl) (vnodeSeekCluster fsi skip fl) := by
  intro s t h
  obtain ⟨es, hs, cs, fs, ks⟩ := vnodeSeekCluster_seen hk hg hskip hfl h.left
  obtain ⟨et, ht, ct, ft, kt⟩ := vnodeSeekCluster_seen hk hg hskip hfl h.right
  refine ⟨?_, (hs.symm.trans h.vol).trans ht, ⟨ct, ?_⟩, ?_, ?_⟩
  · rw [es, et, h.cluster, seekCluster_eq]
    exact ((same_fatSim hk fl).seekLoop skip _ _ _ h.vol).1
  · obtain ⟨c, e⟩ := h.fv
    rw [ft, fs, e]
  · rw [hs.disk, fs]
    exact ks
  · rw [ht.disk, ft]
    exact kt

theorem getDirent_sim (hk : Reliable fsi.kernel) (hg : Geometry fsi) {offset : Nat}
    (ho : offset < 2 ^ 32) (d : DName) (efv : Option Fv) :
    Sim (Seen fsi) (getDirent fsi offset d efv) (getDirent fsi offset d efv) := by
  have hskip : offset >>> fsi.clusterShift < 2 ^ 32 :=
    lt_of_le_of_lt (Nat.shiftRight_le _ _) ho
  unfold getDirent
  refine .get_bind fun s t h => ?_
  rw [h.type, h.cluster]
  refine .ite (fun _ => .fail _) fun _ =>
    .bind (.attempt (vnodeSeekCluster_sim hk hg hskip noAlloc)) fun r => ?_
  cases r with
  | error e => exact .fail _
  | ok c =>
    exact .bind (onVol_sim (getDirentLoop_sim hk _ _ _ _ _) (getDirentLoop_quiet _ _ _ _ _))
      fun _ => .pure _

/-- The next offset is a 32-bit number. -/
theorem getDirent_offset {offset : Nat} {d : DName} {efv : Option Fv} {s s' : VnSt}
    {out : DirentOut} (h : getDirent fsi offset d efv s = (.ok out, s')) : out.offset < 2 ^ 32 := by
  have hm : Maintains (fun _ => True) (fun _ => True) (getDirent fsi offset d efv)
      fun out _ => out.offset < 2 ^ 32 := by
    unfold getDirent
    refine .get_bind fun s _ _ => .ite (fun _ => .fail _) fun _ => .bind (.any _) fun r => ?_
    cases r with
    | error e => exact .fail _
    | ok c => exact .bind (.any _) fun _ => .pure fun _ _ _ => Nat.mod_lt _ (by decide)
  exact (hm s trivial trivial).2 out (by rw [h])

theorem findLoop_sim (hk : Reliable fsi.kernel) (hg : Geometry fsi) (name : List UInt8) (n : Nat) :
    ∀ {offset : Nat}, offset < 2 ^ 32 → ∀ d efv,
      Sim (Seen fsi) (findLoop fsi name n offset d efv) (findLoop fsi name n offset d efv) := by
  induction n with
  | zero => exact fun _ _ _ _ _ h => ⟨rfl, h⟩
  | succ n ih =>
    intro offset ho d efv s t h
    obtain ⟨e, h'⟩ := getDirent_sim hk hg ho ⟨Function.update d 0 0, dNameSize⟩
      (some (vnodeReset fsi efv)) s t h
    rw [findLoop]
    rcases hs : getDirent fsi offset ⟨Function.update d 0 0, dNameSize⟩
        (some (vnodeReset fsi efv)) s with ⟨out | x | _, s'⟩ <;>
      rcases ht : getDirent fsi offset ⟨Function.update d 0 0, dNameSize⟩
          (some (vnodeReset fsi efv)) t with ⟨out' | x' | _, t'⟩ <;>
      simp only [hs, ht, Out.ok.injEq, Out.err.injEq, reduceCtorEq] at e h'
    · subst e
      rw [bind_ok hs, bind_ok ht]
      split
      · exact ⟨rfl, h'⟩
      · exact ih (getDirent_offset hs) _ _ s' t' h'
    · subst e
      rw [bind_err hs, bind_err ht]
      exact ⟨rfl, h'⟩
    · rw [bind_hang hs, bind_hang ht]
      exact ⟨rfl, h'⟩

theorem findDirent_sim (hk : Reliable fsi.kernel) (hg : Geometry fsi) (name : List UInt8)
    (efv : Fv) : Sim (Seen fsi) (findDirent fsi name efv) (findDirent fsi name efv) := by
  unfold findDirent
  refine .get_bind fun s t h => ?_
  rw [h.type]
  exact .ite (fun _ => .fail _) fun _ => findLoop_sim hk hg _ _ (by decide) _ _

/-! ## What a search leaves -/

/-- A program that changes nothing of the vnode but the cache. -/
def Caches (m : FvM α) : Prop := Keeps (fun s t => CacheOnly s.fv t.fv) m

namespace Caches

variable {β : Type} {m m' : FvM α} {f : α → FvM β}

theorem pure (a : α) : Caches (Pure.pure a) := Keeps.pure (fun _ => .refl _) a

theorem fail (e : Errno) : Caches (Prog.fail e : FvM α) := Keeps.fail (fun _ => .refl _) e

theorem hang : Caches (Prog.hang : FvM α) := Keeps.hang fun _ => .refl _

theorem bind (hm : Caches m) (hf : ∀ a, Caches (f a)) : Caches (m >>= f) :=
  Keeps.bind (R := fun (s t : VnSt) => CacheOnly s.fv t.fv) (fun h k => h.trans k) hm hf

theorem get_bind {f : VnSt → FvM α} (hf : ∀ s, Caches (f s)) : Caches (Prog.get >>= f) :=
  .bind (Keeps.get fun _ => .refl _) hf

theorem attempt (hm : Caches m) : Caches (Prog.attempt m) := Keeps.attempt hm

theorem ite {c : Prop} [Decidable c] (hm : c → Caches m) (hm' : ¬ c → Caches m') :
    Caches (if c then m else m') := Keeps.ite hm hm'

theorem onVol (m : FsM α) : Caches (Fat32.onVol m) := fun s => CacheOnly.refl s.fv

theorem updateCache (index cluster : Nat) : Caches (vnodeUpdateCache index cluster) :=
  fun _ => ⟨_, rfl⟩

end Caches

theorem vnodeSeekCluster_caches (n : Nat) (fl : NcFlags) :
    Caches (vnodeSeekCluster fsi n fl) := by
  unfold vnodeSeekCluster
  refine .get_bind fun s => .bind (.ite (fun _ => .onVol _) fun _ => .pure _) fun c => ?_
  exact .bind (.updateCache _ _) fun _ => .pure _

theorem getDirent_caches (offset : Nat) (d : DName) (efv : Option Fv) :
    Caches (getDirent fsi offset d efv) := by
  unfold getDirent
  refine .get_bind fun s => .ite (fun _ => .fail _) fun _ =>
    .bind (.attempt (vnodeSeekCluster_caches _ _)) fun r => ?_
  cases r with
  | error e => exact .fail _
  | ok c => exact .bind (.onVol _) fun _ => .pure _

theorem findDirent_caches (name : List UInt8) (efv : Fv) :
    Caches (findDirent fsi name efv) := by
  have hloop (name : List UInt8) (n : Nat) : ∀ o d efv, Caches (findLoop fsi name n o d efv) := by
    induction n with
    | zero => exact fun _ _ _ => .hang
    | succ n ih =>
      intro o d efv
      unfold findLoop
      exact .bind (getDirent_caches _ _ _) fun _ => .ite (fun _ => .pure _) fun _ => ih _ _ _
  unfold findDirent
  exact .get_bind fun _ => .ite (fun _ => .fail _) fun _ => hloop _ _ _ _ _

/-- From a state that was seen before, a search has the same result, and leaves a state
that was seen before. -/
theorem findDirent_again (hk : Reliable fsi.kernel) (hg : Geometry fsi) (name : List UInt8)
    (efv : Fv) {s t : VnSt} (h : Seen fsi s t) :
    (findDirent fsi name efv t).1 = (findDirent fsi name efv s).1 ∧
      Seen fsi s (findDirent fsi name efv t).2 := by
  obtain ⟨e, h'⟩ := findDirent_sim hk hg name efv s t h
  have hq : Same t.vol (findDirent fsi name efv t).2.vol := (findDirent_quiet name efv t).same
  exact ⟨e.symm, h.vol.trans hq, h.fv.trans (findDirent_caches name efv t), h.left,
    h'.right⟩

end Fat32
