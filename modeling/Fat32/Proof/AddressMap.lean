import Mathlib
import Fat32.Proof.Boot
import Fat32.Proof.Geometry

/-!
# The address map of a mounted volume

`fat32_rmw_cluster` finds the entry of a cluster by `entrySector` and
`entryOffset`, and `fat32_cluster_to_sector` the sectors of a cluster. On a valid
geometry the reserved area, the FAT copies and the clusters share nothing, and no
32-bit computation on the way wraps around (`bootInfo_addressMap`).
-/

namespace Fat32

open Bytes Exec Prog

variable {fsi : Fsi}

/-! ## The computations of `rmwCluster` -/

/-- `fat_offset`. -/
def fatOffset (c : Nat) : Nat := u32 (c * 4)

/-- `entry_offset`. -/
def entryOffset (fsi : Fsi) (c : Nat) : Nat := fatOffset c &&& fsi.sectorMask

/-- `fat_sector`, for copy `k`. -/
def entrySector (fsi : Fsi) (c : Nat) : Nat → Nat
  | 0 => u32 (fsi.fatStart + (fatOffset c >>> fsi.sectorShift))
  | k + 1 => u32 (entrySector fsi c k + fsi.fatSize)

/-- The blocks and the bytes in them that `rmwCluster` works on. -/
theorem rmwCluster_at (fsi : Fsi) (c : Nat) (new : Option Nat) : rmwCluster fsi c new =
    (if c < clusterMin ∨ c > maxCluster fsi then fail .einval else do
      let bp ← bread fsi (entrySector fsi c 0) 1
      match new with
      | none => pure (rle32 bp.data (entryOffset fsi c) &&& clusterMask)
      | some x => do
        rmwCopies fsi x (entryOffset fsi c) fsi.numFats (entrySector fsi c 0) bp
        pure (rle32 bp.data (entryOffset fsi c) &&& clusterMask)) := rfl

/-- Every new request of a program satisfies `P`. -/
def Requests {σ α : Type} (P : BufReq → Prop) (π : σ → Vol) (m : Prog Errno σ α) : Prop :=
  Keeps (fun s t => ∀ r ∈ (π t).io.log, r ∈ (π s).io.log ∨ P r) m

namespace Requests

variable {σ τ α β : Type} {P : BufReq → Prop} {π : σ → Vol} {ρ : τ → Vol} {m n : Prog Errno σ α}
  {f : α → Prog Errno σ β}

theorem pure (a : α) : Requests P π (Pure.pure a : Prog Errno σ α) := fun _ _ h => .inl h

theorem fail (e : Errno) : Requests P π (Prog.fail e : Prog Errno σ α) := fun _ _ h => .inl h

theorem hang : Requests P π (Prog.hang : Prog Errno σ α) := fun _ _ h => .inl h

theorem get : Requests P π (Prog.get : Prog Errno σ σ) := fun _ _ h => .inl h

/-- A change of the state that makes no requests. -/
theorem modify {g : σ → σ} (h : ∀ s, (π (g s)).io.log = (π s).io.log) :
    Requests P π (Prog.modify g : Prog Errno σ Unit) := fun s r hr => .inl (by rwa [← h s])

theorem bind (hm : Requests P π m) (hf : ∀ a, Requests P π (f a)) : Requests P π (m >>= f) :=
  Keeps.bind (R := fun s t => ∀ r ∈ (π t).io.log, r ∈ (π s).io.log ∨ P r)
    (fun h k r hr => (k r hr).elim (h r) .inr) hm hf

theorem attempt (hm : Requests P π m) : Requests P π (Prog.attempt m) := Keeps.attempt hm

theorem ite {c : Prop} [Decidable c] (hm : c → Requests P π m) (hn : ¬ c → Requests P π n) :
    Requests P π (if c then m else n) := Keeps.ite hm hn

/-- A program on a part of the state. -/
theorem on {proj : τ → σ} {put : σ → τ → τ} (hm : Requests P π m) (hp : ∀ t, ρ t = π (proj t))
    (hput : ∀ s t, ρ (put s t) = π s) : Requests P ρ (Prog.on proj put m) := by
  intro t r hr
  rw [Prog.on, hput] at hr
  rw [hp]
  exact hm (proj t) r hr

end Requests

theorem bread_log (s n : Nat) (v : Vol) :
    (bread fsi s n v).2.io.log = .bread s n :: v.io.log := by
  unfold bread
  dsimp only
  split <;> rfl

theorem bread_requests {P : BufReq → Prop} {s n : Nat} (h : P (.bread s n)) :
    Requests P id (bread fsi s n) := by
  intro v r hr
  rw [id, bread_log] at hr
  rcases List.mem_cons.mp hr with rfl | hr
  · exact .inr h
  · exact .inl hr

theorem bdwrite_requests {P : BufReq → Prop} {b : Buf} (h : P (.bdwrite b.sector b.nblk)) :
    Requests P id (bdwrite b) := by
  intro v r hr
  rcases List.mem_cons.mp hr with rfl | hr
  · exact .inr h
  · exact .inl hr

/-- The blocks that a read-modify-write of an entry asks for are those of its copies. -/
theorem rmwCluster_requests (fsi : Fsi) (c : Nat) (new : Option Nat) :
    Requests (fun r => (∃ k, (k = 0 ∨ k < fsi.numFats) ∧ r = .bread (entrySector fsi c k) 1) ∨
      ∃ s n, r = .bdwrite s n) id (rmwCluster fsi c new) := by
  have hcopies (x o n : Nat) : ∀ (k : Nat) (b : Buf), k + n = fsi.numFats →
      Requests (fun r => (∃ k, (k = 0 ∨ k < fsi.numFats) ∧ r = .bread (entrySector fsi c k) 1) ∨
        ∃ s n, r = .bdwrite s n) id (rmwCopies fsi x o n (entrySector fsi c k) b) := by
    induction n with
    | zero => exact fun _ _ _ => .pure _
    | succ n ih =>
      intro k b hk
      refine .bind (bdwrite_requests (.inr ⟨_, _, rfl⟩)) fun _ => .ite (fun _ => .pure _) fun hn => ?_
      exact .bind (bread_requests (.inl ⟨k + 1, .inr (by omega), rfl⟩)) fun b =>
        ih (k + 1) b (by omega)
  rw [rmwCluster_at]
  refine .ite (fun _ => .fail _) fun _ =>
    .bind (bread_requests (.inl ⟨0, .inl rfl, rfl⟩)) fun b => ?_
  cases new with
  | none => exact .pure _
  | some x => exact .bind (hcopies x _ fsi.numFats 0 b (Nat.zero_add _)) fun _ => .pure _

/-! ## The map -/

/-- What the boot sector has to say for the addresses to be valid. -/
structure ValidMap (br : Nat → UInt8) (off : Nat) : Prop where
  sector : Br.bytesPerSector br = 512
  spc : ∃ k, Br.sectorsPerCluster br = 2 ^ k
  fats : 1 ≤ Br.numFats br
  reserved : 1 ≤ Br.reservedSectors br
  room : Br.reservedSectors br + Br.numFats br * Br.fatSize br ≤ Br.totalSectors br
  entries : Br.clusters br + 2 ≤ Br.fatSize br * 128
  partition : off + Br.totalSectors br ≤ 2 ^ 32

/-- Where the FATs end, counted from the start of the partition. -/
def Br.fatEnd (br : Nat → UInt8) : Nat := Br.reservedSectors br + Br.numFats br * Br.fatSize br

/-- The addresses are the exact sums, the areas are apart, and so are the entries and
the clusters in them. Copy `numFats` is where the loop over the copies stops. -/
structure AddressMap (b : BootInfo) (br : Nat → UInt8) (off : Nat) : Prop where
  fatStart : b.fatStart = off + Br.reservedSectors br
  dataStart : b.dataStart = off + Br.fatEnd br
  exactOffset : ∀ c, InRange b.toFsi c → fatOffset c = c * 4
  exactSector : ∀ c, InRange b.toFsi c → ∀ k ≤ b.numFats,
    entrySector b.toFsi c k = b.fatStart + c * 4 / 512 + k * b.fatSize
  exactCluster : ∀ c, InRange b.toFsi c → (c - 2) <<< b.spcShift < 2 ^ 32 ∧
    clusterToSector b.toFsi c = b.dataStart + (c - 2) * b.sectorsPerCluster
  inCopy : ∀ c, InRange b.toFsi c → ∀ k < b.numFats,
    b.fatStart + k * b.fatSize ≤ entrySector b.toFsi c k ∧
      entrySector b.toFsi c k < b.fatStart + (k + 1) * b.fatSize
  inSector : ∀ c, InRange b.toFsi c → entryOffset b.toFsi c + 4 ≤ 512
  entriesApart : ∀ c d, InRange b.toFsi c → InRange b.toFsi d → ∀ k < b.numFats, ∀ l < b.numFats,
    (c, k) ≠ (d, l) → entrySector b.toFsi c k ≠ entrySector b.toFsi d l ∨
      entryOffset b.toFsi c + 4 ≤ entryOffset b.toFsi d ∨
      entryOffset b.toFsi d + 4 ≤ entryOffset b.toFsi c
  clustersApart : ∀ c d, InRange b.toFsi c → InRange b.toFsi d → c ≠ d →
    clusterToSector b.toFsi c + b.sectorsPerCluster ≤ clusterToSector b.toFsi d ∨
      clusterToSector b.toFsi d + b.sectorsPerCluster ≤ clusterToSector b.toFsi c
  afterFats : ∀ c, InRange b.toFsi c → b.fatStart + b.numFats * b.fatSize ≤ clusterToSector b.toFsi c
  inPartition : ∀ c, InRange b.toFsi c →
    clusterToSector b.toFsi c + b.sectorsPerCluster ≤ off + Br.totalSectors br

variable {br : Nat → UInt8} {off : Nat}

/-- The clusters fit behind the FATs. -/
theorem Br.clusters_fit (h : ValidMap br off) :
    Br.fatEnd br + Br.clusters br * Br.sectorsPerCluster br ≤ Br.totalSectors br := by
  have hdiv := Nat.div_mul_le_self
    (Br.totalSectors br - (Br.reservedSectors br + Br.numFats br * Br.fatSize br))
    (Br.sectorsPerCluster br)
  have hroom := h.room
  rw [Br.clusters, Br.fatEnd]
  omega

section

variable (fsi) (h : ValidMap br off)
include h

theorem bootInfo_fatStart : (bootInfo fsi br off).fatStart = off + Br.reservedSectors br := by
  have hroom := h.room
  have hpart := h.partition
  have hres := h.reserved
  have hentries := h.entries
  have hfats := h.fats
  have hpos : 0 < Br.numFats br * Br.fatSize br := Nat.mul_pos (by omega) (by omega)
  exact u32_eq (by omega)

theorem bootInfo_dataStart (hpos : 1 ≤ Br.clusters br) :
    (bootInfo fsi br off).dataStart = off + Br.fatEnd br := by
  have ht : Br.totalSectors br < 0x100000000 := rle32_lt br 32
  have hroom := h.room
  have hpart := h.partition
  have hfit := Br.clusters_fit h
  obtain ⟨k, hk⟩ := h.spc
  have hspc : 0 < Br.clusters br * Br.sectorsPerCluster br :=
    Nat.mul_pos (by omega) (by rw [hk]; exact Nat.two_pow_pos k)
  show u32 (u32 (Br.reservedSectors br + u32 (Br.numFats br * Br.fatSize br)) + off) = _
  rw [Br.fatEnd] at hfit ⊢
  rw [u32_eq (n := Br.numFats br * Br.fatSize br) (by omega), u32_eq (n := _ + _ * _) (by omega),
    u32_eq (by omega), Nat.add_comm off]

theorem bootInfo_spcShift :
    Br.sectorsPerCluster br = 2 ^ (bootInfo fsi br off).spcShift := by
  obtain ⟨k, hk⟩ := h.spc
  have hlt : Br.sectorsPerCluster br < 256 := (br 13).toNat_lt
  have hk8 : k < 8 := by
    rw [hk] at hlt
    exact (Nat.pow_lt_pow_iff_right (by decide)).mp (hlt : 2 ^ k < 2 ^ 8)
  show Br.sectorsPerCluster br = 2 ^ log2 (Br.sectorsPerCluster br)
  rw [hk, log2_pow (by omega)]

theorem bootInfo_sectors : (bootInfo fsi br off).sectorShift = 9 ∧
    (bootInfo fsi br off).sectorMask = 511 := by
  show log2 (Br.bytesPerSector br) = 9 ∧ sub32 (Br.bytesPerSector br) 1 = 511
  rw [h.sector]
  decide

end

/-- One of the sectors from the FATs on, which is in the partition. -/
theorem Br.inside (h : ValidMap br off) (hpos : 1 ≤ Br.clusters br) {c : Nat} (hc : 2 ≤ c)
    (hcl : c ≤ Br.clusters br + 1) : off + Br.fatEnd br + c * 4 / 512 < 2 ^ 32 := by
  have hfit := Br.clusters_fit h
  have hpart := h.partition
  obtain ⟨k, hk⟩ := h.spc
  have hspc : Br.clusters br * 1 ≤ Br.clusters br * Br.sectorsPerCluster br :=
    Nat.mul_le_mul_left _ (by rw [hk]; exact Nat.two_pow_pos k)
  omega

section

variable (fsi) (h : ValidMap br off) (hpos : 1 ≤ Br.clusters br)
  (hcount : Br.clusters br + 1 < 2 ^ 30) {c d : Nat} (hc : InRange (bootInfo fsi br off).toFsi c)
include h hc

theorem InRange.le_clusters : c ≤ Br.clusters br + 1 := by
  have hle : c ≤ (bootInfo fsi br off).clusterCount + 1 := hc.2
  rwa [bootInfo_clusterCount fsi off h.room] at hle

/-- The entry of a cluster is in the first copy of the FAT. -/
theorem InRange.div_lt_fatSize : c * 4 / 512 < Br.fatSize br := by
  have hle := InRange.le_clusters fsi h hc
  have hentries := h.entries
  omega

include hcount in
theorem bootInfo_fatOffset : fatOffset c = c * 4 := by
  have hle := InRange.le_clusters fsi h hc
  exact u32_eq (by omega)

include hcount in
theorem bootInfo_entryOffset : entryOffset (bootInfo fsi br off).toFsi c = c * 4 % 512 := by
  rw [entryOffset, bootInfo_fatOffset fsi h hcount hc]
  show c * 4 &&& (bootInfo fsi br off).sectorMask = _
  rw [(bootInfo_sectors fsi h).2]
  exact Nat.and_two_pow_sub_one_eq_mod _ 9

include hpos hcount in
theorem bootInfo_entrySector : ∀ k ≤ Br.numFats br, entrySector (bootInfo fsi br off).toFsi c k =
    off + Br.reservedSectors br + c * 4 / 512 + k * Br.fatSize br := by
  have hin := Br.inside h hpos hc.1 (InRange.le_clusters fsi h hc)
  rw [Br.fatEnd] at hin
  have hmul {k : Nat} (hk : k ≤ Br.numFats br) :
      k * Br.fatSize br ≤ Br.numFats br * Br.fatSize br := Nat.mul_le_mul_right _ hk
  intro k
  induction k with
  | zero =>
    intro _
    show u32 ((bootInfo fsi br off).fatStart + (fatOffset c >>> (bootInfo fsi br off).sectorShift)) = _
    rw [bootInfo_fatStart fsi h, (bootInfo_sectors fsi h).1, bootInfo_fatOffset fsi h hcount hc,
      Nat.shiftRight_eq_div_pow, u32_eq (by omega)]
    omega
  | succ k ih =>
    intro hk
    have hle := hmul hk
    rw [Nat.succ_mul] at hle
    show u32 (entrySector (bootInfo fsi br off).toFsi c k + Br.fatSize br) = _
    rw [ih (by omega), u32_eq (by omega), Nat.succ_mul, Nat.add_assoc]

/-- The sectors of a cluster are within those of all clusters. -/
theorem InRange.mul_fit : (c - 2) * Br.sectorsPerCluster br + Br.sectorsPerCluster br ≤
    Br.clusters br * Br.sectorsPerCluster br := by
  have hle := InRange.le_clusters fsi h hc
  have h2 := hc.1
  rw [← Nat.succ_mul]
  exact Nat.mul_le_mul_right _ (by omega)

include hpos in
theorem bootInfo_clusterToSector : (c - 2) <<< (bootInfo fsi br off).spcShift < 2 ^ 32 ∧
    clusterToSector (bootInfo fsi br off).toFsi c =
      off + Br.fatEnd br + (c - 2) * Br.sectorsPerCluster br := by
  have hle := InRange.le_clusters fsi h hc
  have hfit := Br.clusters_fit h
  have hpart := h.partition
  have hmul := InRange.mul_fit fsi h hc
  have hshift : (c - 2) <<< (bootInfo fsi br off).spcShift =
      (c - 2) * Br.sectorsPerCluster br := by
    rw [Nat.shiftLeft_eq, ← bootInfo_spcShift fsi h]
  obtain ⟨k, hk⟩ := h.spc
  have hspc : 0 < Br.sectorsPerCluster br := by
    rw [hk]
    exact Nat.two_pow_pos k
  have hsub : sub32 c clusterMin = c - 2 := by
    have hone : Br.clusters br * 1 ≤ Br.clusters br * Br.sectorsPerCluster br :=
      Nat.mul_le_mul_left _ hspc
    have hfats : 0 < Br.numFats br * Br.fatSize br :=
      Nat.mul_pos h.fats (by have := h.entries; omega)
    have hres := h.reserved
    rw [Br.fatEnd] at hfit
    exact sub32_le hc.1 (by omega)
  constructor
  · rw [hshift]
    omega
  · show u32 ((bootInfo fsi br off).dataStart +
      u32 (sub32 c clusterMin <<< (bootInfo fsi br off).spcShift)) = _
    rw [hsub, hshift, bootInfo_dataStart fsi h hpos, u32_eq (n := _ * _) (by omega),
      u32_eq (by omega)]

end

/-- On a valid geometry with clusters, but fewer than 2^30, the address map is a
partition. -/
theorem bootInfo_addressMap (fsi : Fsi) (h : ValidMap br off) (hpos : 1 ≤ Br.clusters br)
    (hcount : Br.clusters br + 1 < 2 ^ 30) : AddressMap (bootInfo fsi br off) br off := by
  have hstart := bootInfo_fatStart fsi h
  have hdata := bootInfo_dataStart fsi h hpos
  have hfit := Br.clusters_fit h
  have hsector (c) (hc : InRange (bootInfo fsi br off).toFsi c) :=
    bootInfo_entrySector fsi h hpos hcount hc
  have hcluster (c) (hc : InRange (bootInfo fsi br off).toFsi c) :=
    bootInfo_clusterToSector fsi h hpos hc
  -- two multiples of a size, the smaller one first
  have mul {i j : Nat} (n : Nat) (hij : i < j) : i * n + n ≤ j * n := by
    rw [← Nat.succ_mul]
    exact Nat.mul_le_mul_right _ hij
  refine ⟨hstart, hdata, fun c hc => bootInfo_fatOffset fsi h hcount hc, fun c hc k hk => ?_,
    fun c hc => ?_, fun c hc k hk => ?_, fun c hc => ?_, fun c d hc hd k hk l hl hne => ?_,
    fun c d hc hd hne => ?_, fun c hc => ?_, fun c hc => ?_⟩
  · rw [hsector c hc k hk, hstart]
    rfl
  · rw [hdata]
    exact hcluster c hc
  · have hlt := InRange.div_lt_fatSize fsi h hc
    rw [hsector c hc k (Nat.le_of_lt hk), hstart]
    show off + Br.reservedSectors br + k * Br.fatSize br ≤ _ ∧
      _ < off + Br.reservedSectors br + (k + 1) * Br.fatSize br
    rw [Nat.succ_mul]
    omega
  · rw [bootInfo_entryOffset fsi h hcount hc]
    omega
  · rw [hsector c hc k (Nat.le_of_lt hk), hsector d hd l (Nat.le_of_lt hl),
      bootInfo_entryOffset fsi h hcount hc, bootInfo_entryOffset fsi h hcount hd]
    have hclt := InRange.div_lt_fatSize fsi h hc
    have hdlt := InRange.div_lt_fatSize fsi h hd
    -- entries in different copies are in different sectors
    rcases Nat.lt_trichotomy k l with hkl | rfl | hkl
    · have := mul (Br.fatSize br) hkl
      omega
    · have hcd : c ≠ d := fun e => hne (by rw [e])
      omega
    · have := mul (Br.fatSize br) hkl
      omega
  · rw [(hcluster c hc).2, (hcluster d hd).2]
    show _ + Br.sectorsPerCluster br ≤ _ ∨ _ + Br.sectorsPerCluster br ≤ _
    have hc2 := hc.1
    have hd2 := hd.1
    rcases Nat.lt_or_gt_of_ne hne with hlt | hlt
    · have := mul (Br.sectorsPerCluster br) (show c - 2 < d - 2 by omega)
      omega
    · have := mul (Br.sectorsPerCluster br) (show d - 2 < c - 2 by omega)
      omega
  · rw [(hcluster c hc).2, hstart]
    show off + Br.reservedSectors br + Br.numFats br * Br.fatSize br ≤ _
    rw [Br.fatEnd]
    omega
  · rw [(hcluster c hc).2]
    show _ + Br.sectorsPerCluster br ≤ _
    have := InRange.mul_fit fsi h hc
    omega

/-- A boot sector with one reserved sector, one FAT, and clusters of one sector. -/
def mapSector (fatSize totalSectors : Nat) : Nat → UInt8 :=
  wle32 fatSize (wle32 totalSectors
    (fun o => if o = 12 then 2 else if o = 13 ∨ o = 14 ∨ o = 16 then 1 else 0) 32) 36

theorem bootInfo_addressMap_three :
    AddressMap (bootInfo (small 0) (mapSector 1 5) 63) (mapSector 1 5) 63 := by
  have h : ValidMap (mapSector 1 5) 63 := by
    refine ⟨by decide, ⟨0, by decide⟩, ?_, ?_, ?_, ?_, ?_⟩ <;> decide
  exact bootInfo_addressMap (small 0) h (by decide) (by decide)

/-- With more than 2^30 clusters the offset of an entry wraps around, so that clusters
2 and 2^30 + 2 share theirs; without clusters the start of the data area may. -/
theorem addressMap_wraps :
    (ValidMap (mapSector 8388609 1082130435) 0 ∧
      ¬ AddressMap (bootInfo (small 0) (mapSector 8388609 1082130435) 0)
        (mapSector 8388609 1082130435) 0) ∧
    (ValidMap (mapSector 1 2) 4294967294 ∧
      ¬ AddressMap (bootInfo (small 0) (mapSector 1 2) 4294967294) (mapSector 1 2) 4294967294) := by
  refine ⟨⟨⟨by decide, ⟨0, by decide⟩, ?_, ?_, ?_, ?_, ?_⟩, fun h => ?_⟩,
    ⟨⟨by decide, ⟨0, by decide⟩, ?_, ?_, ?_, ?_, ?_⟩, fun h => ?_⟩⟩
  case refine_6 =>
    have hapart := h.entriesApart 2 1073741826 (by decide) (by decide) 0 (by decide) 0 (by decide)
    revert hapart
    decide
  case refine_12 =>
    have hstart := h.dataStart
    revert hstart
    decide
  all_goals decide

end Fat32
