import Mathlib
import Fat32.Proof.DataArea

/-!
# Inode numbers

`fat32_readdir` reports where an entry is (`packIno`), and `fat32_getattr` the first
cluster of the vnode. In a directory of the data area the first number has its
cluster above bit 36, and the second one has 32 bits: they are never the same.
-/

namespace Fat32

open Bytes Exec Prog

variable {fsi : Fsi} {d : Nat}

/-- The number of an entry of a directory. -/
theorem packIno_ge (hg : Geometry fsi) (hd : InRange fsi d) (offset n : Nat) :
    2 ^ 32 ≤ packIno d offset n := by
  have hcnt := hg.count
  simp only [clusterBad] at hcnt
  have h1 := hd.1
  have h2 := hd.2
  have hmask : d &&& 0x0FFFFFFF = d := by
    rw [show 0x0FFFFFFF = 2 ^ 28 - 1 from rfl, Nat.and_two_pow_sub_one_eq_mod]
    exact Nat.mod_eq_of_lt (by omega)
  unfold packIno
  rw [hmask]
  calc 2 ^ 32 ≤ d <<< 36 := by rw [Nat.shiftLeft_eq]; omega
    _ ≤ d <<< 36 ||| (offset / 32 &&& 0x0FFFFFFF) <<< 8 := Nat.left_le_or
    _ ≤ _ := Nat.left_le_or

/-- An entry that `fat32_readdir` reports: one that the root directory is given, or one
of the directory at `d`. -/
def Listed (d : Nat) (e : Emitted) : Prop :=
  isDot e.name = true ∨ ∃ offset n, e.ino = packIno d offset n

/-- Reading an entry: what it is numbered by. -/
theorem getDirent_ino (offset : Nat) (name : DName) :
    Maintains (fun s => s.fv.cluster = d) (fun _ => True) (getDirent fsi offset name none)
      fun out _ => ∃ o n, out.dirent.ino = packIno d o n := by
  have hkeep {α : Type} {P : VnSt → Prop} {m : FvM α} (hm : Caches m) :
      Maintains (fun s => s.fv.cluster = d) P m fun _ _ => True :=
    hm.maintains fun s t h hs => h.cluster.trans hs
  unfold getDirent
  refine .get_bind fun s hs _ => .ite (fun _ => .fail _) fun _ =>
    .bind (hkeep (.attempt (vnodeSeekCluster_caches _ _))) fun r => ?_
  cases r with
  | error e => exact .fail _
  | ok c =>
    refine .bind (hkeep (.onVol _)) fun x => .pure fun _ _ _ => ?_
    rw [hs]
    exact ⟨_, _, rfl⟩

/-- What is in the buffer stays there, and what is added is listed. -/
theorem emitEntry_listed (de : Dirent) (name : DName) (next : Nat) {st : Readdir}
    (h : ∀ e ∈ st.entries, Listed d e)
    (hnew : Listed d ⟨de.ino, de.off, (List.range name.size).map name.data⟩) :
    Maintains (fun _ => True) (fun _ => True) (emitEntry fsi de name next st)
      fun r _ => ∀ e ∈ r.2.entries, Listed d e := by
  unfold emitEntry
  refine .bind (.any _) fun r => ?_
  cases r with
  | error e => exact .pure fun _ _ _ => h
  | ok resid =>
    refine .pure fun _ _ _ e he => ?_
    rcases List.mem_append.mp he with he | he
    · exact h e he
    · rw [List.mem_singleton.mp he]
      exact hnew

/-- The names of the entries that the root directory is given. -/
theorem isDot_dotDName (data : Nat → UInt8) {n : Nat} (hn : n = 1 ∨ n = 2) :
    isDot ((List.range (dotDName data n).size).map (dotDName data n).data) = true := by
  rcases hn with rfl | rfl <;> simp [isDot, dotDName, List.range_succ]

theorem readdirLoop_listed (n : Nat) : ∀ st : Readdir, (∀ e ∈ st.entries, Listed d e) →
    Maintains (fun s => s.fv.cluster = d) (fun _ => True) (readdirLoop fsi n st)
      fun st' _ => ∀ e ∈ st'.entries, Listed d e := by
  have hvol {α : Type} {m : FsM α} {Q : α → Prop}
      (hm : Maintains (fun _ => True) (fun _ => True) m fun a _ => Q a) :
      Maintains (fun s : VnSt => s.fv.cluster = d) (fun _ => True) (onVol m) fun a _ => Q a :=
    fun s hs _ => ⟨hs, (hm s.vol trivial trivial).2⟩
  induction n with
  | zero => exact fun _ _ => .hang
  | succ n ih =>
    intro st h
    -- an entry is emitted, and the loop goes on or stops
    have hgo {P : VnSt → Prop} (de : Dirent) (name : DName) (next : Nat)
        (hnew : Listed d ⟨de.ino, de.off, (List.range name.size).map name.data⟩) :
        Maintains (fun s => s.fv.cluster = d) P (do
          let r ← onVol (emitEntry fsi de name next st)
          if r.1 then readdirLoop fsi n r.2 else pure r.2)
          fun st' _ => ∀ e ∈ st'.entries, Listed d e := by
      refine .mono (.bind (hvol (emitEntry_listed de name next h hnew)) fun r s hs hr => ?_)
        (fun _ _ _ => trivial) fun _ _ _ h => h
      exact Maintains.ite (fun _ => ih r.2 hr) (fun _ => .pure fun _ _ _ => hr) s hs trivial
    unfold readdirLoop
    refine .ite (fun _ => .pure fun _ _ _ => h) fun _ => .get_bind fun s hs _ => ?_
    refine .ite (fun _ => hgo _ _ _ (.inl (isDot_dotDName _ (.inl rfl)))) fun _ =>
      .ite (fun _ => hgo _ _ _ (.inl (isDot_dotDName _ (.inr rfl)))) fun _ => ?_
    refine .mono (.bind (getDirent_ino _ _).attempt fun r t ht hr => ?_) (fun _ _ _ => trivial)
      fun _ _ _ h => h
    cases r with
    | error e =>
      have hend : Maintains (fun s : VnSt => s.fv.cluster = d) (fun _ => True)
          (if e = .enoent then pure { st with eof := true, err := none }
            else pure { st with err := some e } : FvM Readdir)
          fun st' _ => ∀ e ∈ st'.entries, Listed d e :=
        .ite (fun _ => .pure fun _ _ _ => h) fun _ => .pure fun _ _ _ => h
      exact hend t ht trivial
    | ok out =>
      obtain ⟨o, k, hino⟩ := hr out rfl
      exact hgo (P := fun _ => True) _ _ _ (.inr ⟨o, k, hino⟩) t ht trivial

/-- A root directory with the empty files `A` and `B`. -/
def emptyFiles : Sys := mounted (small 1)
  (image [clusterEoc] fun c => if c = 2 then [shortEntry 65 0 0 0, shortEntry 66 0 0 0] else [])

def emptyFilesRoot : Fv := (emptyFiles.vnodes 0).getD (vnodeNew (small 1))

/-- The entries of the root directory. -/
def emptyFilesListed : List Emitted :=
  match (readdir (small 1) 0 1000 ⟨emptyFiles.vol, emptyFilesRoot⟩).1 with
  | .ok st => st.entries
  | _ => []

/-- The vnode that a lookup in the root directory makes. -/
def emptyFilesFound (nm : List UInt8) : Option Fv :=
  (lookup (small 1) 0 nm emptyFiles).2.vnodes 1

end Fat32
