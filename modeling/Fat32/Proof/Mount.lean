import Mathlib
import Fat32.Proof.References

/-!
# The life of a mount

What `fat32_mount` takes of the kernel is counted: a mount that is refused gives everything back, and one that fails at the
root vnode does not. From a mount on, every run of calls keeps the counts of the vnodes (`mounted_references`); the root
is never taken down, not even after the unmount (`unmounted_root`).
-/

namespace Fat32

open Bytes Exec Prog RefCount

variable {env : MountEnv} {st t : MountSt}

/-! ## What a mount takes -/

/-- What is left of a mount without a root vnode. -/
def Acquired.rootless (a : Acquired) (env : MountEnv) : Acquired :=
  { a with bhv := a.bhv + 1, fvLock := a.fvLock - if env.zallocFv then 1 else 0 }

/-- How a mount ends. -/
inductive Mounts (env : MountEnv) (st : MountSt) : Out Errno Mount → MountSt → Prop
  /-- Everything is given back. -/
  | refused {t : MountSt} (e : Errno) (hacq : t.acquired = st.acquired) (hvfs : t.vfs = st.vfs) (hsys : SameLinks st.sys t.sys) :
      Mounts env st (.err e) t
  /-- There is no root vnode: the descriptor stays. When it is the system vnode that is missing, a lock was freed that was
  never made. -/
  | rootless {t : MountSt} (hacq : t.acquired = st.acquired.rootless env) (hsys : SameLinks st.sys t.sys) :
      Mounts env st (.err .enomem) t
  | hung {t : MountSt} : Mounts env st .hang t
  | done {t : MountSt} (m : Mount)
      (hacq : t.acquired = { st.acquired with
        devvp := st.acquired.devvp + 1
        fsi := st.acquired.fsi + 1
        fsiLock := st.acquired.fsiLock + 1
        bhv := st.acquired.bhv + 1
        fv := st.acquired.fv + 1
        fvLock := st.acquired.fvLock + 1
        cacheLock := st.acquired.cacheLock + 1 })
      (hnew : m.rootvp < t.sys.vol.io.nvn)
      (hlinks : ∀ x, (t.sys.vnodes x).map Fv.links =
        if x = m.rootvp then some (some m.rootvp, none) else (st.sys.vnodes x).map Fv.links)
      (hcount : t.sys.vcount = Function.update st.sys.vcount m.rootvp 2) : Mounts env st (.ok m) t

theorem take_run (f : Acquired → Acquired) (st : MountSt) : take f st = (.ok (), { st with acquired := f st.acquired }) := rfl

/-- A step on the vnodes, whose error is looked at. -/
theorem onSys_try {α β : Type} {m : SysM α} {f : Except Errno α → MountM β} {R : Out Errno α → Sys → Prop}
    {Q : Out Errno β → MountSt → Prop} (hm : WP m st.sys R) (hok : ∀ a u, R (.ok a) u → WP (f (.ok a)) { st with sys := u } Q)
    (herr : ∀ e u, R (.err e) u → WP (f (.error e)) { st with sys := u } Q) (hhang : ∀ u, R .hang u → Q .hang { st with sys := u }) :
    WP (attempt (onSys m) >>= f) st Q := by
  refine .try_bind (R := fun r s => ∃ u, s = { st with sys := u } ∧ R r u) (.on (hm.mono fun r u h => ⟨u, rfl, h⟩))
    (fun a s hs => ?_) (fun e s hs => ?_) fun s hs => ?_
  · obtain ⟨u, rfl, h⟩ := hs
    exact hok a u h
  · obtain ⟨u, rfl, h⟩ := hs
    exact herr e u h
  · obtain ⟨u, rfl, h⟩ := hs
    exact hhang u h

/-- The options leave the state alone. -/
theorem mountOpts_same (env : MountEnv) (st : MountSt) : WP (mountOpts env) st fun _ s => s = st := by
  unfold mountOpts
  cases env.data with
  | none => exact .of_run (pure_run _ _) rfl
  | some data =>
    have hback : { st with acquired := { st.acquired with opts := st.acquired.opts + 1 - 1 } } = st := by
      rw [Int.add_sub_cancel]
    refine .ite (fun _ => .of_run (pure_run _ _) rfl) fun _ => .ok_bind (take_run _ _) (.ok_bind (take_run _ _) ?_)
    cases (if env.copyinFails then .error .efault else parseOpts data : Except Errno MountOpts) with
    | error e => exact .of_run (fail_run _ _) hback
    | ok o => exact .of_run (pure_run _ _) hback

/-- With the device there is a reference to its vnode, without it none. -/
theorem mountDevice_holds (env : MountEnv) (st : MountSt) : WP (mountDevice env) st fun r s =>
    (∀ dev, r = .ok dev → s = { st with acquired := { st.acquired with devvp := st.acquired.devvp + 1 } }) ∧
      ∀ e, r = .err e → s = st := by
  unfold mountDevice
  cases env.lookupname with
  | error e => exact .of_run (fail_run _ _) ⟨fun _ h => absurd h Out.err_ne_ok, fun _ _ => rfl⟩
  | ok dev =>
    have hback : { st with acquired := { st.acquired with devvp := st.acquired.devvp + 1 - 1 } } = st := by
      rw [Int.add_sub_cancel]
    have hfail (e : Errno) : WP (do take fun t => { t with devvp := t.devvp - 1 }; fail e : MountM Nat)
        { st with acquired := { st.acquired with devvp := st.acquired.devvp + 1 } } fun r s =>
        (∀ dev, r = .ok dev → s = { st with acquired := { st.acquired with devvp := st.acquired.devvp + 1 } }) ∧
          ∀ e, r = .err e → s = st :=
      .ok_bind (take_run _ _) (.of_run (fail_run _ _) ⟨fun _ h => absurd h Out.err_ne_ok, fun _ _ => hback⟩)
    exact .ok_bind (take_run _ _) (.ite (fun _ => hfail _) fun _ => .ite (fun _ => hfail _) fun _ =>
      .of_run (pure_run _ _) ⟨fun _ _ => rfl, fun _ h => absurd h.symm Out.err_ne_ok⟩)

theorem makeVnode_err (fsi : Fsi) (c : Nat) (type : Vtype) (fv : Fv) (parent : Option (Nat × Nat)) (v : Vol) :
    WP (makeVnode fsi c type fv parent) v fun r _ => ∀ e, r = .err e → e = .enomem := by
  unfold makeVnode
  refine .ok_bind (a := if fsi.kernel.vnAlloc v.io.nvn then some v.io.nvn else none) rfl ?_
  cases (if fsi.kernel.vnAlloc v.io.nvn then some v.io.nvn else none : Option Nat) with
  | none => exact .of_run (fail_run _ _) fun e h => (Out.err.inj h).symm
  | some p => exact .of_run (pure_run _ _) fun e h => absurd h.symm Out.err_ne_ok

/-- The root vnode is new, and has no parent. -/
theorem makeRoot_new (fsi : Fsi) (u : Sys) : WP (makeRoot fsi) u fun r t =>
    (∀ e, r = .err e → e = .enomem ∧ SameLinks u t) ∧ r ≠ .ok none ∧
      ∀ p, r = .ok (some p) → p < t.vol.io.nvn ∧
        (∀ x, (t.vnodes x).map Fv.links = if x = p then some (some p, none) else (u.vnodes x).map Fv.links) ∧
        t.vcount = Function.update u.vcount p 1 := by
  unfold makeRoot
  refine .on_bind (.and (makeVnode_new _ _ _ _ _) (makeVnode_err _ _ _ _ _ _)) (fun fv v hv => ?_) (fun e v hv => ?_) fun v hv => ?_
  · obtain ⟨hlinks, hnvn⟩ := hv.1 fv rfl
    obtain ⟨hvn, hpar⟩ := Prod.ext_iff.mp hlinks
    have hvn : fv.vnode = some u.vol.io.nvn := hvn
    have hpar : fv.parentVp = none := hpar
    unfold attach
    rw [hvn, hpar]
    refine .of_run rfl ⟨fun e h => absurd h.symm Out.err_ne_ok, fun h => ?_, fun p h => ?_⟩
    · cases Out.ok.inj h
    · obtain rfl := Option.some.inj (Out.ok.inj h)
      refine ⟨?_, fun x => ?_, rfl⟩
      · show u.vol.io.nvn < v.io.nvn
        rw [hnvn]
        exact Nat.lt_succ_self _
      · show (Function.update u.vnodes u.vol.io.nvn (some fv) x).map Fv.links = _
        by_cases hx : x = u.vol.io.nvn
        · rw [hx, Function.update_self, if_pos rfl, Option.map_some, hlinks]
          rfl
        · rw [Function.update_of_ne hx, if_neg hx]
  · exact ⟨fun e' h => ⟨(Out.err.inj h) ▸ hv.2 e rfl, ⟨rfl, fun _ => rfl⟩⟩, Out.err_ne_ok, fun p h => absurd h Out.err_ne_ok⟩
  · exact ⟨fun e' h => absurd h Out.hang_ne_err, Out.hang_ne_ok, fun p h => absurd h Out.hang_ne_ok⟩

/-- What the mount holds when it comes to the root vnode. -/
def Acquired.withFsi (a : Acquired) : Acquired :=
  { a with devvp := a.devvp + 1, fsi := a.fsi + 1, fsiLock := a.fsiLock + 1, bhv := a.bhv + 1 }

theorem mountUndo_run (a : Acquired) (hs : st.acquired = a.withFsi) :
    mountUndo st = (.ok (), { st with acquired := { a with bhv := a.bhv + 1 } }) := by
  refine (take_run _ _).trans ?_
  rw [hs]
  simp only [Acquired.withFsi, Int.add_sub_cancel]

/-- How `mountRoot` ends. -/
theorem mountRoot_ends (env : MountEnv) (fsi : Fsi) (a : Acquired) (hs : st.acquired = a.withFsi) :
    WP (mountRoot env fsi) st fun r t =>
      (∀ e, r = .err e → e = .enomem ∧ SameLinks st.sys t.sys ∧ t.acquired = a.rootless env) ∧
      ∀ p, r = .ok p → p < t.sys.vol.io.nvn ∧
        t.acquired = { a.withFsi with fv := a.fv + 1, fvLock := a.fvLock + 1, cacheLock := a.cacheLock + 1 } ∧
        (∀ x, (t.sys.vnodes x).map Fv.links = if x = p then some (some p, none) else (st.sys.vnodes x).map Fv.links) ∧
        t.sys.vcount = Function.update st.sys.vcount p 2 := by
  unfold mountRoot
  refine .ite (fun hfv => ?_) fun hfv => ?_
  · refine .ok_bind (mountUndo_run a hs) (.of_run (fail_run _ _) ⟨fun e h => ⟨(Out.err.inj h).symm, .refl _, ?_⟩,
      fun p h => absurd h Out.err_ne_ok⟩)
    simp only [Acquired.rootless, hfv, Bool.false_eq_true, if_false, Int.sub_zero]
  · refine .ok_bind (take_run _ _) (onSys_try (makeRoot_new fsi st.sys) (fun vp u hu => ?_) (fun e u hu => ?_) fun u hu => ?_)
    · cases vp with
      | none => exact absurd rfl hu.2.1
      | some p =>
        obtain ⟨hlt, hlinks, hcount⟩ := hu.2.2 p rfl
        refine .ok_bind (take_run _ _) (.ok_bind (on_run rfl) (.of_run (pure_run _ _)
          ⟨fun e h => absurd h.symm Out.err_ne_ok, fun q h => ?_⟩))
        obtain rfl := Out.ok.inj h
        refine ⟨hlt, ?_, hlinks, ?_⟩
        · show Acquired.mk _ _ _ _ _ _ _ _ = _
          rw [hs]
          rfl
        · show Function.update u.vcount p (u.vcount p + 1) = _
          rw [hcount, Function.update_self, Function.update_idem]
    · obtain ⟨rfl, hsame⟩ := hu.1 e rfl
      refine .ok_bind (take_run _ _) (.ok_bind (mountUndo_run { a with fvLock := a.fvLock - 1 } ?_)
        (.of_run (fail_run _ _) ⟨fun e h => ⟨(Out.err.inj h).symm, hsame, ?_⟩, fun p h => absurd h Out.err_ne_ok⟩))
      · simp only [hs, Acquired.withFsi, Int.add_sub_cancel]
      · simp only [Acquired.rootless, not_not.mp hfv, if_true]
    · exact ⟨fun e h => absurd h Out.hang_ne_err, fun p h => absurd h Out.hang_ne_ok⟩

/-- A mount that is refused gives back what it took; one that finds no root vnode leaves the descriptor behind. -/
theorem mount_ends (env : MountEnv) (st : MountSt) : WP (mount env) st (Mounts env st) := by
  have hopts := mountOpts_same env st
  have hdev := mountDevice_holds env st
  unfold mount
  refine .bind hopts (fun o s hs => ?_) (fun e s hs => ?_) fun _ _ => .hung
  · obtain rfl := hs
    refine .bind hdev (fun dev t ht => ?_) (fun e t ht => ?_) fun _ _ => .hung
    · obtain rfl := ht.1 dev rfl
      refine .ite (fun _ => .ok_bind (take_run _ _) (.of_run (fail_run _ _) ?_)) fun _ => .ok_bind (take_run _ _) ?_
      · refine .refused _ ?_ rfl (.refl _)
        simp only [Int.add_sub_cancel]
      · refine onSys_try (R := fun _ u => SameLinks s.sys u) ?_ (fun info u hu => ?_) (fun e u hu => ?_) fun _ _ => .hung
        · exact .on (.of_run (Prod.mk.eta).symm ⟨rfl, fun _ => rfl⟩)
        · refine .ok_bind (take_run _ _) (.ok_bind (modify_run _ _) ?_)
          refine .bind (mountRoot_ends env info.toFsi s.acquired rfl) (fun p t ht => ?_) (fun e t ht => ?_) fun _ _ => .hung
          · obtain ⟨hlt, hacq, hlinks, hcount⟩ := ht.2 p rfl
            refine .of_run (pure_run _ _) (.done ⟨info, dev, p⟩ hacq hlt (fun x => ?_) ?_)
            · rw [hlinks, ← hu.links]
            · rw [hcount, ← hu.vcount]
          · obtain ⟨rfl, hsame, hacq⟩ := ht.1 e rfl
            exact .rootless hacq (hu.trans hsame)
        · refine .ok_bind (take_run _ _) (.of_run (fail_run _ _) (.refused e ?_ rfl hu))
          simp only [Int.add_sub_cancel]
    · obtain rfl := ht.2 e rfl
      exact .refused e rfl rfl (.refl _)
  · obtain rfl := hs
    exact .refused e rfl rfl (.refl _)

/-- A device with 32 sectors: the boot sector, one FAT, and the clusters. -/
def bootDisk (a : Nat) : UInt8 :=
  if a = 12 then 2 else if a = 13 then 1 else if a = 14 then 1 else if a = 16 then 1 else if a = 32 then 32
  else if a = 36 then 1 else if a = 44 then 2 else if a = 82 then 70 else if a = 83 then 65 else if a = 84 then 84
  else if a = 85 then 51 else if a = 510 then 0x55 else if a = 511 then 0xAA
  else if a = 521 then 0xFF else if a = 520 then 0xFF else if a = 522 then 0xFF else if a = 523 then 0x0F else 0

def bootSt : MountSt where
  sys := ⟨{ disk := bootDisk, freeCount := 0, nextFree := 0 }, fun _ => none, fun _ => 0⟩
  acquired := {}
  vfs := {}

def bootEnv : MountEnv where
  data := none
  copyinFails := false
  lookupname := .ok ⟨true, 5⟩
  devsearch := fun _ => false
  fstype := 9

theorem boot_mounts : ∃ m t, mount bootEnv bootSt = (.ok m, t) := by
  have h : @Out.casesOn _ _ (fun _ => Bool) (mount bootEnv bootSt).1 (fun _ => true) (fun _ => false) false = true := by
    decide +kernel
  generalize mount bootEnv bootSt = r at h ⊢
  obtain ⟨m | e | _, t⟩ := r
  · exact ⟨m, t, rfl⟩
  · exact absurd h Bool.false_ne_true
  · exact absurd h Bool.false_ne_true

theorem refs_empty {u : Sys} (hu : ∀ p, u.vnodes p = none) : (u.refs fun _ => 0).Counted := by
  have hdead (p : Nat) : ¬ (u.refs fun _ => 0).Live p := fun hp => Sys.refs_live.mp hp (hu p)
  have hnone : { p | (u.refs fun _ => 0).Live p } = ∅ := Set.eq_empty_of_forall_notMem hdead
  refine ⟨?_, fun p hp => absurd hp (hdead p), fun c p hc => ?_, fun p hp => absurd hp (Nat.lt_irrefl 0)⟩
  · rw [hnone]
    exact Set.finite_empty
  · obtain ⟨fv, hfv, -⟩ := Sys.refs_parent.mp hc
    rw [hu] at hfv
    cases hfv

/-- After the mount the root has its two references, and no other vnode is live. -/
theorem mount_counts (hst : ∀ p, st.sys.vnodes p = none) {m : Mount} (hrun : mount env st = (.ok m, t)) :
    Session.Counts ⟨t.sys, fun _ => 0⟩ m 2 := by
  have hends := mount_ends env st
  unfold WP at hends
  rw [hrun] at hends
  cases hends with
  | done _ hacq hnew hlinks hcount =>
    have hnone (x : Nat) (hx : x ≠ m.rootvp) : t.sys.vnodes x = none := by
      have hl := hlinks x
      rw [if_neg hx, hst] at hl
      exact Option.map_eq_none_iff.mp hl
    have hroot := ((refs_empty hst).make (c := m.rootvp) (fun hl => Sys.refs_live.mp hl (hst _)) (q := none)
      fun p hp => by cases hp).hold (p := m.rootvp) ((Refs.live_make none).mpr (.inl rfl))
    have hrefs : t.sys.refs ((Session.mk t.sys fun _ => 0).refCount m 2) =
        ((st.sys.refs fun _ => 0).make m.rootvp none).hold m.rootvp := by
      have hparents := parents_update hlinks
      have hcounts : t.sys.vcount = (((st.sys.refs fun _ => 0).make m.rootvp none).hold m.rootvp).count := by
        refine hcount.trans (funext fun x => ?_)
        by_cases hx : x = m.rootvp
        · simp [Refs.hold, Refs.make, hx]
        · simp [Refs.hold, Refs.make, hx, Sys.refs]
      have hheld : (Session.mk t.sys fun _ => 0).refCount m 2 = (((st.sys.refs fun _ => 0).make m.rootvp none).hold m.rootvp).held := by
        refine funext fun x => ?_
        by_cases hx : x = m.rootvp
        · simp [Refs.hold, Refs.make, Session.refCount, Mount.own, hx]
        · simp [Refs.hold, Refs.make, Session.refCount, Mount.own, hx, Sys.refs]
      show Refs.mk _ _ _ = Refs.mk _ _ _
      rw [hparents, hcounts, hheld]
      rfl
    refine ⟨fun p fv hp => ?_, fun p hp => hnone p (Nat.ne_of_gt (Nat.lt_of_lt_of_le hnew hp)), ?_⟩
    · by_cases hx : p = m.rootvp
      · have hl := hlinks p
        rw [hp, if_pos hx, Option.map_some] at hl
        rw [hx]
        exact congrArg Prod.fst (Option.some.inj hl)
      · rw [hnone p hx] at hp
        cases hp
    · rw [hrefs]
      exact hroot

/-- The count of a live vnode is the number of the references that the users hold, of the live vnodes in it, and of the
`n` of the mount if it is the root; and all they refer to is live. -/
structure Session.Balanced (s : Session) (m : Mount) (n : Nat) : Prop where
  count : ∀ p, s.sys.vnodes p ≠ none → s.sys.vcount p =
    s.mine p + (if p = m.rootvp then n else 0) + Set.ncard { c | ∃ fv, s.sys.vnodes c = some fv ∧ fv.parentVp = some p }
  parent : ∀ p fv q, s.sys.vnodes p = some fv → fv.parentVp = some q → s.sys.vnodes q ≠ none
  mine : ∀ p, 0 < s.mine p → s.sys.vnodes p ≠ none
  root : s.sys.vnodes m.rootvp ≠ none

theorem Session.Counts.balanced {s : Session} {m : Mount} {n : Nat} (h : s.Counts m n) (hn : 0 < n) : s.Balanced m n := by
  have hc : Referenced s.sys (s.refCount m n) := h
  refine ⟨fun p hp => ?_, fun p fv q hp hq => ?_, fun p hp => hc.live (Nat.add_pos_left hp _), hc.live (Session.Counts.root_pos hn)⟩
  · have hchildren : { c | ∃ fv, s.sys.vnodes c = some fv ∧ fv.parentVp = some p } = (s.sys.refs (s.refCount m n)).children p :=
      Set.ext fun c => Sys.refs_parent.symm
    rw [hchildren]
    exact hc.counted.count p (Sys.refs_live.mpr hp)
  · exact Sys.refs_live.mp (hc.counted.parent p q (Sys.refs_parent.mpr ⟨fv, hp, hq⟩))

/-- Every run of a mounted volume keeps the balance. -/
theorem mounted_references (hst : ∀ p, st.sys.vnodes p = none) {m : Mount} (hmount : mount env st = (.ok m, t)) {s : Session}
    (hrun : RefRun m.info.toFsi m ⟨t.sys, fun _ => 0⟩ s) : s.Balanced m 2 :=
  (hrun.counts Nat.two_pos (mount_counts hst hmount)).balanced Nat.two_pos

/-- The root is asked for, and a file is made in it. -/
theorem mounted_references_two : ∃ m t s, mount bootEnv bootSt = (.ok m, t) ∧
    RefRun m.info.toFsi m ⟨t.sys, fun _ => 0⟩ s ∧ s.Balanced m 2 := by
  obtain ⟨m, t, hmount⟩ := boot_mounts
  have hrun : RefRun m.info.toFsi m ⟨t.sys, fun _ => 0⟩ _ :=
    (Relation.ReflTransGen.single .root).tail (.create m.rootvp [65] {} false {} { uid := 0 })
  exact ⟨m, t, _, hmount, hrun, mounted_references (fun _ => rfl) hmount hrun⟩

/-- The unmount gives back one of the two references of the mount, so the root is never taken down: not before, and not
by anything that comes after. -/
theorem unmounted_root (hst : ∀ p, st.sys.vnodes p = none) {m : Mount} (hmount : mount env st = (.ok m, t)) {s : Session}
    (hrun : RefRun m.info.toFsi m ⟨t.sys, fun _ => 0⟩ s) {w : MountSt} (hw : w.sys = s.sys) {s' : Session}
    (hafter : RefRun m.info.toFsi m ⟨(unmount m w).2.sys, s.mine⟩ s') :
    s'.Balanced m 1 := by
  have hc : s.Counts m 2 := hrun.counts Nat.two_pos (mount_counts hst hmount)
  have hrele : Session.Counts ⟨(unmount m w).2.sys, s.mine⟩ m 1 := by
    have hsys : (unmount m w).2.sys = (vnRele m.rootvp s.sys).2 := by
      rw [← hw]
      rfl
    rw [hsys]
    exact hc.rele_root
  exact (hafter.counts Nat.one_pos hrele).balanced Nat.one_pos

/-- The volume is unmounted after a reference to its root was taken, which is given back then. -/
theorem unmounted_root_two : ∃ m t w s', mount bootEnv bootSt = (.ok m, t) ∧ w.sys = (root m t.sys).2 ∧
    RefRun m.info.toFsi m ⟨(unmount m w).2.sys, Function.update (fun _ => 0) m.rootvp 1⟩ s' ∧ s'.Balanced m 1 := by
  obtain ⟨m, t, hmount⟩ := boot_mounts
  have hrun : RefRun m.info.toFsi m ⟨t.sys, fun _ => 0⟩ _ := .single .root
  have hafter : RefRun m.info.toFsi m
      ⟨(unmount m { t with sys := (root m t.sys).2 }).2.sys, Function.update (fun _ => 0) m.rootvp 1⟩ _ :=
    (Relation.ReflTransGen.single (.rele m.rootvp (by simp))).tail (.inactive m.rootvp)
  exact ⟨m, t, _, _, hmount, rfl, hafter, unmounted_root (fun _ => rfl) hmount hrun rfl hafter⟩

end Fat32
