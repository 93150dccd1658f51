import Mathlib
import Fat32.Impl.Volume

/-!
# Time, names and inode numbers (`fat32_util.c`)

Names are C strings: lists of bytes without a NUL. A directory entry's name is
decoded into the buffer `d_name`, a function from offsets to bytes.
-/

namespace Fat32

/-- `fat32_pack_ino`: 28 bits of cluster, 28 bits of slot, 8 bits of count. -/
def packIno (dirCluster offset numSlots : Nat) : Nat :=
  let slotIndex := offset / 32
  ((dirCluster &&& 0x0FFFFFFF) <<< 36) ||| ((slotIndex &&& 0x0FFFFFFF) <<< 8) |||
    (numSlots &&& 0xFF)

/-- `fat32_unpack_ino`: the cluster, the offset and the count. -/
def unpackIno (ino : Nat) : Nat × Nat × Nat :=
  ((ino >>> 36) &&& 0x0FFFFFFF, u32 (((ino >>> 8) &&& 0x0FFFFFFF) * 32), ino &&& 0xFF)

/-- `d_name` and its size, as `fat32_set_dname` changes them. -/
structure DName where
  data : Nat → UInt8
  size : Nat

def DName.set (d : DName) (i : Nat) (c : UInt8) : DName :=
  { d with data := Function.update d.data i c }

/-- Store one UCS-2 unit at `pos`; NUL ends the name there. -/
def setDname (pos s : Nat) (d : DName) : DName :=
  if pos ≥ d.size then d
  else if s = lfnFill then d
  else
    let c : UInt8 := if s ≥ 128 then 63 else UInt8.ofNat s
    if c = 0 then { d.set pos c with size := pos } else d.set pos c

/-! ## Time -/

def daysInMonth : List Nat := [0, 31, 28, 31, 30, 31, 30, 31, 31, 30, 31, 30, 31]

def isLeap (year : Nat) : Bool := year % 4 = 0 ∧ (year % 100 ≠ 0 ∨ year % 400 = 0)

def daysInYear (year : Nat) : Nat := if isLeap year then 366 else 365

/-- `dim` of both conversions: the days of month `i`. -/
def dim (year i : Nat) : Nat :=
  daysInMonth.getD i 0 + if i = 2 ∧ isLeap year then 1 else 0

/-- Take whole years off `day`, at most `n` of them. -/
def yearLoop : Nat → Nat → Nat → Nat × Nat
  | 0, year, day => (year, day)
  | n + 1, year, day =>
    if day < daysInYear year then (year, day) else yearLoop n (year + 1) (day - daysInYear year)

/-- Take whole months off `day`, at most `n` of them. -/
def monthLoop (year : Nat) : Nat → Nat → Nat → Nat × Nat
  | 0, month, day => (month, day)
  | n + 1, month, day =>
    if day < dim year month then (month, day) else monthLoop year n (month + 1) (day - dim year month)

structure FatTime where
  date : Nat
  time : Nat
  tenths : Nat
  deriving DecidableEq, Repr

/-- `fat32_unix_to_fat_time`; a caller that passes `NULL` ignores that part. -/
def unixToFatTime (ts : Timespec) : FatTime :=
  if ts.sec < 315532800 then { date := (1 <<< 5) ||| 1, time := 0, tenths := 0 }
  else
    let seconds := (ts.sec - 315532800).toNat
    let sec := seconds % 60
    let min := seconds / 60 % 60
    let hour := seconds / 3600 % 24
    let day := seconds / 86400
    -- a year has at least 365 days, so this many rounds suffice
    let (year, day) := yearLoop (day / 365 + 1) 1980 day
    let (month, day) := monthLoop year 12 1 day
    { date := u16 (((year - 1980) <<< 9) ||| (month <<< 5) ||| (day + 1))
      time := u16 ((hour <<< 11) ||| (min <<< 5) ||| (sec / 2))
      tenths := (ts.nsec / 10000000 + sec % 2 * 100) % 256 }

def fatToUnixTime (date time tenths : Nat) : Timespec :=
  let year := 1980 + ((date >>> 9) &&& 0x7F)
  let month := (date >>> 5) &&& 0x0F
  let day := date &&& 0x1F
  let hour := (time >>> 11) &&& 0x1F
  let min := (time >>> 5) &&& 0x3F
  let tenths := if tenths > 199 then 199 else tenths
  let sec := (time &&& 0x1F) * 2 + tenths / 100
  let month := if month < 1 then 1 else month
  let month := if month > 12 then 12 else month
  let day := if day < 1 then 1 else day
  let years := ((List.range (year - 1980)).map fun i => daysInYear (1980 + i) * 86400).sum
  let months := ((List.range (month - 1)).map fun i => dim year (i + 1) * 86400).sum
  { sec := (years + months + (day - 1) * 86400 + (hour * 3600 + min * 60 + sec) : Nat) + 315532800
    nsec := tenths % 100 * 10000000 }

/-! ## Names -/

def toupper (c : UInt8) : UInt8 := if 97 ≤ c ∧ c ≤ 122 then c - 32 else c

/-- `fat32_chrcmp`: the characters differ. -/
def chrcmp (c d : UInt8) : Bool := toupper c ≠ toupper d

/-- The characters `fat32_name_is_short` accepts besides the dot. -/
def shortChar (c : UInt8) : Bool :=
  c ≥ 128 ∨ 65 ≤ c ∧ c ≤ 90 ∨ 48 ≤ c ∧ c ≤ 57 ∨
    c ∈ ([36, 37, 39, 45, 95, 64, 126, 96, 33, 40, 41, 123, 125, 94, 35, 38] : List UInt8)

/-- The loop over the characters from position `i`; the result is the position
of the dot, if there is one. -/
def shortLoop : List UInt8 → Nat → Option Nat → Option (Option Nat)
  | [], _, dotPos => some dotPos
  | c :: cs, i, dotPos =>
    if c = 46 then
      if dotPos.isSome then none else shortLoop cs (i + 1) (some i)
    else if shortChar c then shortLoop cs (i + 1) dotPos else none

def nameIsShort (name : List UInt8) : Bool :=
  if name.head? = some 46 then name.length = 1 ∨ name = [46, 46]
  else if name.length > 12 then false
  else
    match shortLoop name 0 none with
    | none => false
    | some none => name.length ≤ 8
    | some (some dotPos) =>
      let extLen := name.length - dotPos - 1
      ¬ (dotPos = 0 ∨ dotPos > 8) ∧ ¬ (extLen = 0 ∨ extLen > 3)

def checksum (name : Fin 11 → UInt8) : UInt8 :=
  (List.finRange 11).foldl
    (fun sum i => (((sum &&& 1) <<< 7) ||| ((sum &&& 0xFE) >>> 1)) + name i) 0

def hex : List UInt8 := [48, 49, 50, 51, 52, 53, 54, 55, 56, 57, 65, 66, 67, 68, 69, 70]

/-- Nibble `j` of the 7 low nibbles of `x`, the highest first. -/
def nib (x j : Nat) : Nat := (x >>> ((6 - j) * 4)) &&& 0xF

/-- `CCCCVVVOOOO`: cluster, cluster xor slot, slot. -/
def generateShortName (cluster offset : Nat) : Fin 11 → UInt8 := fun i =>
  let slot := offset / 32
  let res := if i < 4 then nib cluster i
    else if i < 7 then nib cluster i ^^^ nib slot (i - 4) else nib slot (i - 4)
  hex.getD res 0

end Fat32
