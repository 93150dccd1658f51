import Mathlib
import Fat32.Impl.Boot
import Fat32.Proof.System

/-!
# Mounted geometries

`fat32_read_boot` looks at signatures only. What it makes of a boot sector is a
usable geometry exactly when the fields of the sector are valid (`ValidBpb`), a
condition on the numbers on the disk, without wrap-around.
-/

namespace Fat32

open Bytes Exec Prog

variable {fsi : Fsi} {v v' : Vol} {br : Nat → UInt8} {partitionNum : Int}

/-- A geometry that the rest of the driver can work with. -/
structure Usable (b : BootInfo) : Prop where
  sector : b.bytesPerSector = 512
  spc : ∃ k, b.sectorsPerCluster = 2 ^ k
  cluster : b.bytesPerCluster = 2 ^ b.clusterShift
  room : b.reservedSectors + b.numFats * b.fatSize ≤ b.totalSectors
  fats : 1 ≤ b.numFats
  count : b.clusterCount + 1 < clusterBad
  entries : b.clusterCount + 2 ≤ b.fatSize * 128
  root : 2 ≤ b.rootCluster ∧ b.rootCluster ≤ b.clusterCount + 1

/-- The clusters behind the reserved sectors and the FATs. -/
def Br.clusters (br : Nat → UInt8) : Nat :=
  (Br.totalSectors br - (Br.reservedSectors br + Br.numFats br * Br.fatSize br)) /
    Br.sectorsPerCluster br

structure ValidBpb (br : Nat → UInt8) : Prop where
  sector : Br.bytesPerSector br = 512
  spc : ∃ k, Br.sectorsPerCluster br = 2 ^ k
  fats : Br.numFats br ≠ 0
  room : Br.reservedSectors br + Br.numFats br * Br.fatSize br ≤ Br.totalSectors br
  count : Br.clusters br + 1 < clusterBad
  entries : Br.clusters br + 2 ≤ Br.fatSize br * 128
  root : 2 ≤ Br.rootCluster br ∧ Br.rootCluster br ≤ Br.clusters br + 1

/-- The bytes of a sector of the disk. -/
def sectorData (v : Vol) (sector : Nat) : Nat → UInt8 := fun o => v.disk (512 * sector + o)

/-- `br` is the boot sector of the disk: sector 0, or the first sector of the
partition that the partition table gives. -/
def IsBootRecord (fsi : Fsi) (partitionNum : Int) (v : Vol) (br : Nat → UInt8) : Prop :=
  fsi.kernel.readErr v.io.nread = none ∧ rle16 (sectorData v 0) 510 = sectorSignature ∧
    Br.signature br = sectorSignature ∧
    (Br.isFat32 (sectorData v 0) = true ∧ br = sectorData v 0 ∨
      Br.isFat32 (sectorData v 0) = false ∧ fsi.kernel.readErr (v.io.nread + 1) = none ∧
      ∃ i, Mbr.partToUse partitionNum (sectorData v 0) = some i ∧
        Mbr.isFat32 (sectorData v 0) i = true ∧
        br = sectorData v (Mbr.relativeSector (sectorData v 0) i))

/-! ## Powers of two -/

theorem log2Loop_pow (fuel k bit : Nat) (h : k ≤ fuel) : log2Loop fuel (2 ^ k) bit = bit + k := by
  induction fuel generalizing k bit with
  | zero =>
    obtain rfl : k = 0 := by omega
    rfl
  | succ fuel ih =>
    cases k with
    | zero => rfl
    | succ k =>
      have hpos : 0 < 2 ^ k := Nat.pow_pos (by decide)
      have hhalf : 2 ^ (k + 1) >>> 1 = 2 ^ k := by
        rw [Nat.shiftRight_eq_div_pow, pow_one, pow_succ, Nat.mul_div_cancel _ (by decide)]
      rw [log2Loop, if_pos (by rw [pow_succ]; omega), hhalf, ih k (bit + 1) (by omega)]
      omega

theorem log2_pow {k : Nat} (h : k ≤ 32) : log2 (2 ^ k) = k := by
  rw [log2, log2Loop_pow 32 k 0 h, Nat.zero_add]

/-! ## The fields -/

theorem rle16_lt (data : Nat → UInt8) (o : Nat) : rle16 data o < 0x10000 := le16_lt _ _

theorem rle32_lt (data : Nat → UInt8) (o : Nat) : rle32 data o < 0x100000000 := le32_lt _ _ _ _

theorem u32_eq {n : Nat} (h : n < 0x100000000) : u32 n = n := Nat.mod_eq_of_lt h

theorem sub32_le {a b : Nat} (h : b ≤ a) (ha : a < 0x100000000) : sub32 a b = a - b := by
  rw [sub32, u32]; omega

theorem bootInfo_clusterCount (fsi : Fsi) (off : Nat)
    (room : Br.reservedSectors br + Br.numFats br * Br.fatSize br ≤ Br.totalSectors br) :
    (bootInfo fsi br off).clusterCount = Br.clusters br := by
  have ht : Br.totalSectors br < 0x100000000 := rle32_lt br 32
  show sub32 (Br.totalSectors br)
      (u32 (Br.reservedSectors br + u32 (Br.numFats br * Br.fatSize br))) /
    Br.sectorsPerCluster br = Br.clusters br
  rw [u32_eq (n := Br.numFats br * Br.fatSize br) (by omega), u32_eq (by omega),
    sub32_le room ht, Br.clusters]

theorem bootInfo_bytesPerCluster (off : Nat) (hs : Br.bytesPerSector br = 512) {k : Nat}
    (hk : Br.sectorsPerCluster br = 2 ^ k) :
    (bootInfo fsi br off).bytesPerCluster = 2 ^ (bootInfo fsi br off).clusterShift := by
  have hlt : Br.sectorsPerCluster br < 256 := (br 13).toNat_lt
  have hk8 : k < 8 := by
    rw [hk] at hlt
    exact (Nat.pow_lt_pow_iff_right (by decide)).mp (hlt : 2 ^ k < 2 ^ 8)
  have hb : u32 (Br.bytesPerSector br * Br.sectorsPerCluster br) = 2 ^ (9 + k) := by
    rw [hs, u32_eq (by omega), hk, pow_add]
    rfl
  show u32 (Br.bytesPerSector br * Br.sectorsPerCluster br) =
    2 ^ log2 (u32 (Br.bytesPerSector br * Br.sectorsPerCluster br))
  rw [hb, log2_pow (by omega)]

theorem bootInfo_usable_iff (fsi : Fsi) (off : Nat) : Usable (bootInfo fsi br off) ↔ ValidBpb br := by
  constructor
  · intro h
    have hc := bootInfo_clusterCount fsi off h.room
    have count := h.count
    have entries := h.entries
    have root := h.root
    rw [hc] at count entries root
    exact ⟨h.sector, h.spc, Nat.one_le_iff_ne_zero.mp h.fats, h.room, count, entries, root⟩
  · intro h
    have hc := bootInfo_clusterCount fsi off h.room
    obtain ⟨k, hk⟩ := h.spc
    refine ⟨h.sector, h.spc, bootInfo_bytesPerCluster off h.sector hk, h.room,
      Nat.one_le_iff_ne_zero.mpr h.fats, ?_, ?_, ?_⟩
    · rw [hc]; exact h.count
    · rw [hc]; exact h.entries
    · rw [hc]; exact h.root

/-! ## The mount -/

theorem bread_none (h : fsi.kernel.readErr v.io.nread = none) (sector nblk : Nat) :
    ∃ v', bread fsi sector nblk v = (.ok ⟨sector, nblk, sectorData v sector⟩, v') ∧
      v'.disk = v.disk ∧ v'.io.nread = v.io.nread + 1 := by
  unfold bread
  rw [h]
  exact ⟨_, rfl, rfl, rfl⟩

theorem bread_some {e : Errno} (h : fsi.kernel.readErr v.io.nread = some e) (sector nblk : Nat) :
    ∃ v', bread fsi sector nblk v = (.err e, v') := by
  unfold bread
  rw [h]
  exact ⟨_, rfl⟩

theorem readFsinfo_ok (fsi : Fsi) (v : Vol) : ∃ v', readFsinfo fsi v = (.ok (), v') := by
  unfold readFsinfo
  rcases h : fsi.kernel.readErr v.io.nread with _ | e
  · obtain ⟨v', e, -⟩ := bread_none h fsi.fsinfoSector 1
    rw [bind_ok (attempt_ok e)]
    dsimp only
    split <;> exact ⟨_, rfl⟩
  · obtain ⟨v', e⟩ := bread_some h fsi.fsinfoSector 1
    rw [bind_ok (attempt_err e)]
    exact ⟨_, rfl⟩

/-- The search for the boot sector either fails, or gives a sector that is the boot
record if it has the signature. -/
theorem bootSector_run (fsi : Fsi) (partitionNum : Int) (v : Vol) :
    ((∃ e v', bootSector fsi partitionNum v = (.err e, v')) ∧
        ∀ br, ¬ IsBootRecord fsi partitionNum v br) ∨
      ∃ bp off v', bootSector fsi partitionNum v = (.ok (bp, off), v') ∧
        ∀ br, IsBootRecord fsi partitionNum v br ↔
          br = bp.data ∧ Br.signature bp.data = sectorSignature := by
  unfold bootSector
  rcases hr : fsi.kernel.readErr v.io.nread with _ | e
  case some =>
    obtain ⟨v', e⟩ := bread_some hr 0 1
    rw [bind_err e]
    exact .inl ⟨⟨_, _, rfl⟩, fun br hb => nomatch hr.symm.trans hb.1⟩
  obtain ⟨v1, e1, hd1, hn1⟩ := bread_none hr 0 1
  rw [bind_ok e1]
  dsimp only
  by_cases hsig : rle16 (sectorData v 0) 510 = sectorSignature
  case neg =>
    rw [if_pos hsig]
    exact .inl ⟨⟨_, _, rfl⟩, fun br hb => hsig hb.2.1⟩
  rw [if_neg (not_not.mpr hsig)]
  by_cases hfat : Br.isFat32 (sectorData v 0) = true
  · rw [if_pos hfat]
    refine .inr ⟨_, _, _, rfl, fun br => ⟨fun hb => ?_, fun hb => ?_⟩⟩
    · obtain ⟨-, -, hs, ⟨-, rfl⟩ | ⟨hf, -⟩⟩ := hb
      · exact ⟨rfl, hs⟩
      · rw [hfat] at hf
        exact nomatch hf
    · obtain ⟨rfl, hs⟩ := hb
      exact ⟨hr, hsig, hs, .inl ⟨hfat, rfl⟩⟩
  rw [if_neg hfat]
  -- the fields of the master boot record decide
  have hmbr {br : Nat → UInt8} (hb : IsBootRecord fsi partitionNum v br) :
      fsi.kernel.readErr (v.io.nread + 1) = none ∧
      ∃ i, Mbr.partToUse partitionNum (sectorData v 0) = some i ∧
        Mbr.isFat32 (sectorData v 0) i = true ∧
        br = sectorData v (Mbr.relativeSector (sectorData v 0) i) := by
    obtain ⟨-, -, -, ⟨hf, -⟩ | ⟨-, h⟩⟩ := hb
    · exact absurd hf hfat
    · exact h
  rcases hp : Mbr.partToUse partitionNum (sectorData v 0) with _ | i
  · refine .inl ⟨⟨_, _, rfl⟩, fun br hb => ?_⟩
    obtain ⟨-, i, hi, -⟩ := hmbr hb
    rw [hp] at hi
    exact nomatch hi
  dsimp only
  by_cases hid : Mbr.isFat32 (sectorData v 0) i = true
  case neg =>
    rw [if_pos hid]
    refine .inl ⟨⟨_, _, rfl⟩, fun br hb => ?_⟩
    obtain ⟨-, j, hj, hjd, -⟩ := hmbr hb
    rw [hp] at hj
    obtain rfl := Option.some.inj hj
    exact hid hjd
  rw [if_neg (not_not.mpr hid)]
  rcases hr2 : fsi.kernel.readErr v1.io.nread with _ | e
  case some =>
    obtain ⟨v2, e2⟩ := bread_some hr2 (Mbr.relativeSector (sectorData v 0) i) 1
    rw [bind_err e2]
    refine .inl ⟨⟨_, _, rfl⟩, fun br hb => ?_⟩
    obtain ⟨hn, -⟩ := hmbr hb
    rw [← hn1, hr2] at hn
    exact nomatch hn
  obtain ⟨v2, e2, -⟩ := bread_none hr2 (Mbr.relativeSector (sectorData v 0) i) 1
  have hdata (sector : Nat) : sectorData v1 sector = sectorData v sector := by
    unfold sectorData
    rw [hd1]
  rw [hdata] at e2
  rw [bind_ok e2]
  refine .inr ⟨_, _, _, rfl, fun br => ⟨fun hb => ?_, fun hb => ?_⟩⟩
  · obtain ⟨-, j, hj, -, rfl⟩ := hmbr hb
    rw [hp] at hj
    obtain rfl := Option.some.inj hj
    exact ⟨rfl, hb.2.2.1⟩
  · obtain ⟨rfl, hs⟩ := hb
    exact ⟨hr, hsig, hs, .inr ⟨Bool.not_eq_true _ ▸ hfat, hn1 ▸ hr2, i, hp, hid, rfl⟩⟩

/-- What a call of `fat32_read_boot` has to come to: an error, or a usable geometry. -/
def BootOk (r : Out Errno BootInfo) : Prop := (∃ e, r = .err e) ∨ ∃ b, r = .ok b ∧ Usable b

/-- `fat32_read_boot` rejects the disk or returns a usable geometry if and only if
its boot record, if it has one, is valid. -/
theorem readBoot_usable_iff (fsi : Fsi) (partitionNum : Int) (v : Vol) :
    BootOk (readBoot fsi partitionNum v).1 ↔
      ∀ br, IsBootRecord fsi partitionNum v br → ValidBpb br := by
  unfold readBoot
  obtain ⟨⟨e, v', he⟩, hno⟩ | ⟨bp, off, v', hok, hrec⟩ := bootSector_run fsi partitionNum v
  · rw [bind_err he]
    exact ⟨fun _ br hb => absurd hb (hno br), fun _ => .inl ⟨_, rfl⟩⟩
  rw [bind_ok hok]
  dsimp only
  by_cases hs : Br.signature bp.data = sectorSignature
  case neg =>
    rw [if_pos hs]
    exact ⟨fun _ br hb => absurd ((hrec br).mp hb).2 hs, fun _ => .inl ⟨_, rfl⟩⟩
  rw [if_neg (not_not.mpr hs)]
  -- the boot record is the one in the buffer
  have hvalid : (∀ br, IsBootRecord fsi partitionNum v br → ValidBpb br) ↔ ValidBpb bp.data := by
    constructor
    · exact fun h => h _ ((hrec _).mpr ⟨rfl, hs⟩)
    · intro h br hb
      rw [((hrec br).mp hb).1]
      exact h
  rw [hvalid]
  by_cases hz : Br.sectorsPerCluster bp.data = 0
  · rw [if_pos hz]
    refine ⟨fun h => ?_, fun h => ?_⟩
    · obtain ⟨e, h⟩ | ⟨b, h, -⟩ := h <;> exact nomatch h
    · obtain ⟨k, hk⟩ := h.spc
      have hpos : 0 < 2 ^ k := Nat.pow_pos (by decide)
      omega
  · rw [if_neg hz]
    obtain ⟨v2, e2⟩ := readFsinfo_ok (bootInfo fsi bp.data off).toFsi v'
    rw [bind_ok e2, pure_run, ← bootInfo_usable_iff fsi off]
    refine ⟨fun h => ?_, fun h => .inr ⟨_, rfl, h⟩⟩
    obtain ⟨e, h⟩ | ⟨b, h, hu⟩ := h
    · exact nomatch h
    · rw [Out.ok.inj h]
      exact hu

/-- A disk with a boot sector that has the signature and the type, and zeros for the
other fields. -/
def blankVol : Vol where
  disk a := if a = 82 then 70 else if a = 83 then 65 else if a = 84 then 84 else if a = 85 then 51
    else if a = 510 then 0x55 else if a = 511 then 0xAA else 0
  freeCount := 0
  nextFree := 0

/-- The division of the mount traps. -/
theorem readBoot_blank : ¬ BootOk (readBoot (small 0) (-1) blankVol).1 := by
  have h : (match (readBoot (small 0) (-1) blankVol).1 with | .hang => true | _ => false) = true := by
    decide +kernel
  intro hb
  obtain ⟨e, hb⟩ | ⟨b, hb, -⟩ := hb <;> rw [hb] at h <;> exact nomatch h

end Fat32
