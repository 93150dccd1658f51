import Mathlib
import Fat32.Impl.File

/-!
# Directories (`fat32_dir.c`)

The slots of a directory are read one cluster at a time by three scanners:
`fat32_get_dirent`, `fat32_alloc_fdentry` and `fat32_check_dir_integrity`. For
each, what one slot does is a function of its own (`scanSlot`, `allocSlot`,
`checkSlot`); the loops over the slots of a cluster and over the clusters of the
chain are around it.
-/

namespace Fat32

open Bytes Exec Prog

/-- `sizeof(d_name)` in the callers of `fat32_get_dirent`. -/
abbrev dNameSize : Nat := maxName + 1

/-- `MAXNAMELEN`. -/
abbrev maxNameLen : Nat := 256

namespace Slot

/-- `WLE16` to the field at offset `o`. -/
def set16 (s : Slot) (o val : Nat) : Slot := fun i =>
  if i.val = o then byteOf val 0 else if i.val = o + 1 then byteOf val 1 else s i

/-- `WLE32` to the field at offset `o`. -/
def set32 (s : Slot) (o val : Nat) : Slot := (s.set16 o val).set16 (o + 2) (val / 0x10000)

def setByte (s : Slot) (o : Nat) (val : UInt8) : Slot := fun i => if i.val = o then val else s i

def setLastAccessDate (s : Slot) (val : Nat) : Slot := s.set16 18 val
def setWriteDate (s : Slot) (val : Nat) : Slot := s.set16 24 val
def setWriteTime (s : Slot) (val : Nat) : Slot := s.set16 22 val
def setCreateDate (s : Slot) (val : Nat) : Slot := s.set16 16 val
def setCreateTime (s : Slot) (val : Nat) : Slot := s.set16 14 val
def setCreateTimeTenth (s : Slot) (val : Nat) : Slot := s.setByte 13 (UInt8.ofNat val)
def setAttr (s : Slot) (val : UInt8) : Slot := s.setByte 11 val
def setFileSize (s : Slot) (val : Nat) : Slot := s.set32 28 val

/-- `first_cluster_hi` and `first_cluster_lo`. -/
def setFirstCluster (s : Slot) (val : Nat) : Slot :=
  (s.set16 20 (u16 (val >>> 16))).set16 26 (val &&& 0xFFFF)

/-- The name of an 8.3 entry, without the padding. -/
def decodeName (s : Slot) : List UInt8 :=
  let name := List.ofFn s.name
  let base := (name.take 8).takeWhile (· ≠ 32)
  let ext := (name.drop 8).takeWhile (· ≠ 32)
  if ext = [] then base else base ++ 46 :: ext

end Slot

/-! ## Reading entries -/

/-- What the caller gets in `struct dirent`, without the name. -/
structure Dirent where
  ino : Nat
  off : Nat
  deriving DecidableEq, Repr

/-- What `fat32_get_dirent` keeps from slot to slot. -/
structure Scan where
  /-- `current_offset`. -/
  offset : Nat
  /-- `d_name` and `name_size`. -/
  name : DName
  hasLfn : Bool := false
  /-- `entry_start_offset`. -/
  entryStart : Nat := 0

/-- What a slot does to a scan: end it, be passed over, or be the entry. -/
inductive ScanStep where
  | stop
  | skip (st : Scan)
  | entry (st : Scan)

def Scan.next (st : Scan) : Scan := { st with offset := u32 (st.offset + dentrySize) }

/-- A long name entry: the first of a sequence sets the start of the entry and
the length of the name, and all of them store their 13 characters. -/
def scanLfn (dNameSize : Nat) (s : Slot) (st : Scan) : Scan :=
  let start (st : Scan) : Scan :=
    if s.sequence &&& lfnLast ≠ 0 then
      let fullLen := s.seqNum * 13
      { st with
        entryStart := st.offset
        name := if fullLen < dNameSize then { st.name.set fullLen 0 with size := fullLen }
          else st.name }
    else st
  let pos := u32 (sub32 s.seqNum 1 * 13)
  let put (name : DName) : DName :=
    (List.finRange 13).foldl (fun d j => setDname (u32 (pos + j.val)) (s.lfnUnit j) d) name
  { start st with hasLfn := true, name := put (start st).name }

/-- Store a whole name, as far as it fits, with a NUL after it. -/
def DName.store (d : DName) (l : List UInt8) : DName where
  data i := if h : i < l.length then l[i] else if i = l.length then 0 else d.data i
  size := l.length

def scanSlot (dNameSize : Nat) (s : Slot) (st : Scan) : ScanStep :=
  if s.first = 0 then .stop
  else if s.first = lfnDeleted then .skip st.next
  else if s.attr = attrLongName then .skip (scanLfn dNameSize s st).next
  else if s.attr &&& attrVolumeId ≠ 0 then
    .skip { st.next with
      name := { st.name.set 0 0 with size := dNameSize }, hasLfn := false, entryStart := 0 }
  else .entry { st with
    entryStart := if st.hasLfn then st.entryStart else st.offset
    name := if st.name.data 0 = 0 then st.name.store (s.decodeName.take (sub32 dNameSize 1))
      else st.name }

/-- How the scan of a cluster ends. -/
inductive ScanOut where
  | stop
  | entry (s : Slot) (st : Scan)
  | more (st : Scan)

/-- The slots of a cluster from offset `o` on, at most `n` of them. -/
def scanCluster (fsi : Fsi) (dNameSize : Nat) (data : Nat → UInt8) : Nat → Nat → Scan → ScanOut
  | 0, _, st => .more st
  | n + 1, o, st =>
    if o < fsi.bytesPerCluster then
      match scanSlot dNameSize (slotAt data o) st with
      | .stop => .stop
      | .skip st => scanCluster fsi dNameSize data n (o + dentrySize) st
      | .entry st => .entry (slotAt data o) st
    else .more st

/-- The loop of `fat32_get_dirent` over the clusters. -/
def getDirentLoop (fsi : Fsi) (dNameSize : Nat) : Nat → Nat → Nat → Scan → FsM (Slot × Scan)
  | 0, _, _, _ => hang
  | n + 1, cluster, clusterOffset, st => do
    let bp ← readCluster fsi cluster
    match scanCluster fsi dNameSize bp.data fsi.bytesPerCluster clusterOffset st with
    | .stop => fail .enoent
    | .entry s st => pure (s, st)
    | .more st =>
      match ← attempt (nextCluster fsi cluster {}) with
      | .error _ => fail .enoent
      | .ok next => getDirentLoop fsi dNameSize n next 0 st

/-- `entry_fv` filled from the 8.3 entry `s` of the directory at `dirCluster`. -/
def fillEntry (dirCluster : Nat) (s : Slot) (st : Scan) (fv : Fv) : Fv :=
  let isDir : Bool := s.attr &&& attrDirectory ≠ 0
  { fv with
    cluster := s.firstCluster
    attr := s.attr
    diroff := st.entryStart
    dirsz := u32 (sub32 st.offset st.entryStart / dentrySize + 1)
    parentCluster := dirCluster
    size := s.fileSize
    type := if isDir then .vdir else .vreg
    mode := if isDir then sIfdir ||| 0o755
      else if s.attr &&& attrReadOnly ≠ 0 then sIfreg ||| 0o444 else sIfreg ||| 0o644
    atime := fatToUnixTime s.lastAccessDate 0 0
    mtime := fatToUnixTime s.writeDate s.writeTime 0
    ctime := fatToUnixTime s.createDate s.createTime s.createTimeTenth.toNat }

/-- What `fat32_get_dirent` returns. -/
structure DirentOut where
  /-- `*offset`: where the next call continues. -/
  offset : Nat
  dirent : Dirent
  /-- `d_name` and `*d_name_size`. -/
  name : DName
  entryFv : Option Fv

def getDirent (fsi : Fsi) (offset : Nat) (dName : DName) (entryFv : Option Fv) :
    FvM DirentOut := do
  let s ← get
  if s.fv.type ≠ .vdir then fail .enotdir else do
    let skipClusters := offset >>> fsi.clusterShift
    let clusterOffset := offset &&& fsi.clusterMask
    match ← attempt (vnodeSeekCluster fsi skipClusters {}) with
    | .error _ => fail .enoent
    | .ok cluster => do
      let (e, st) ← onVol (getDirentLoop fsi dName.size fsi.kernel.fuel cluster clusterOffset
        { offset := offset, name := dName })
      let count := u32 (sub32 st.offset st.entryStart / dentrySize + 1)
      pure {
        offset := u32 (st.offset + dentrySize)
        dirent := { ino := packIno s.fv.cluster st.entryStart count
                    off := u32 (st.offset + dentrySize) }
        name := st.name
        entryFv := entryFv.map (fillEntry s.fv.cluster e st) }

/-- The comparison of `fat32_find_dirent`. -/
def nameMatch (name : List UInt8) (d : DName) : Bool :=
  d.size = name.length ∧ ∀ i : Fin name.length, chrcmp name[i] (d.data i) = false

def findLoop (fsi : Fsi) (name : List UInt8) : Nat → Nat → (Nat → UInt8) → Fv → FvM Fv
  | 0, _, _, _ => hang
  | n + 1, offset, dName, entryFv => do
    let out ← getDirent fsi offset ⟨Function.update dName 0 0, dNameSize⟩
      (some (vnodeReset fsi entryFv))
    let entryFv := out.entryFv.getD entryFv
    if nameMatch name out.name then pure entryFv
    else findLoop fsi name n out.offset out.name.data entryFv

/-- `fat32_find_dirent`: the result is `entry_fv`. -/
def findDirent (fsi : Fsi) (name : List UInt8) (entryFv : Fv) : FvM Fv := do
  let s ← get
  if s.fv.type ≠ .vdir then fail .enotdir
  else findLoop fsi (name.take (maxNameLen - 1)) fsi.kernel.fuel 0 fsi.kernel.stack entryFv

/-! ## Flushing a vnode -/

/-- The dirty fields of a vnode, stored in its 8.3 entry. -/
def flushEntry (fv : Fv) (s : Slot) : Slot :=
  let a := unixToFatTime fv.atime
  let m := unixToFatTime fv.mtime
  let c := unixToFatTime fv.ctime
  let s := if fv.flags.atime then s.setLastAccessDate a.date else s
  let s := if fv.flags.mtime then (s.setWriteDate m.date).setWriteTime m.time else s
  let s := if fv.flags.ctime then
    ((s.setCreateDate c.date).setCreateTime c.time).setCreateTimeTenth c.tenths else s
  let s := if fv.flags.attr then s.setAttr fv.attr else s
  let s := if fv.flags.size then s.setFileSize fv.size else s
  if fv.flags.cluster then s.setFirstCluster fv.cluster else s

/-- Where the 8.3 entry of a vnode is: the last of its slots. -/
def Fv.targetOffset (fv : Fv) : Nat := u32 (fv.diroff + u32 (sub32 fv.dirsz 1 * dentrySize))

def clearDirty : FvM Unit := modifyFv fun fv => { fv with flags := fv.flags.clearDirty }

def updateFdentry (fsi : Fsi) : FvM Unit := do
  let s ← get
  if ¬ s.fv.flags.dirty then pure ()
  else if s.fv.flags.root then clearDirty
  else if s.fv.parentCluster = clusterBad then do
    clearDirty
    fail .einval
  else do
    let parentCluster := if s.fv.parentCluster = 0 then fsi.rootCluster else s.fv.parentCluster
    let targetOffset := s.fv.targetOffset
    let skipClusters := targetOffset >>> fsi.clusterShift
    let offsetInCluster := targetOffset &&& fsi.clusterMask
    let targetCluster ← onVol (seekCluster fsi parentCluster skipClusters {})
    let bp ← onVol (readCluster fsi targetCluster)
    clearDirty
    onVol (bdwrite { bp with
      data := putSlot bp.data offsetInCluster (flushEntry s.fv (slotAt bp.data offsetInCluster)) })

/-! ## Single slots -/

def readFdentry (fsi : Fsi) (dirCluster offset : Nat) : FsM Slot := do
  let skipClusters := offset >>> fsi.clusterShift
  let clusterOff := offset &&& fsi.clusterMask
  let targetCluster ← seekCluster fsi dirCluster skipClusters {}
  let bp ← readCluster fsi targetCluster
  pure (slotAt bp.data clusterOff)

def writeFdentry (fsi : Fsi) (dirCluster offset : Nat) (data : Slot) : FsM Unit := do
  let skipClusters := offset >>> fsi.clusterShift
  let clusterOff := offset &&& fsi.clusterMask
  let targetCluster ← seekCluster fsi dirCluster skipClusters {}
  let bp ← readCluster fsi targetCluster
  bdwrite { bp with data := putSlot bp.data clusterOff data }

/-- `". "` and `".. "`, padded. -/
def dotName : Fin 11 → UInt8 := fun i => if i.val = 0 then 46 else 32
def dotdotName : Fin 11 → UInt8 := fun i => if i.val < 2 then 46 else 32

/-- The clusters of a new directory are its own and its parent's; the root
directory is called 0. -/
def initDir (fsi : Fsi) (newCluster parentCluster : Nat) : FsM Unit := do
  clearCluster fsi newCluster
  let now ← nanotime fsi
  let t := unixToFatTime now
  let dot (name : Fin 11 → UInt8) (cluster : Nat) : Dirent83 := {
    name := name
    attr := attrDirectory
    createDate := t.date
    createTime := t.time
    createTimeTenth := UInt8.ofNat t.tenths
    writeDate := t.date
    writeTime := t.time
    lastAccessDate := t.date
    firstClusterHi := u16 (cluster >>> 16)
    firstClusterLo := cluster &&& 0xFFFF }
  writeFdentry fsi newCluster 0 (dot dotName newCluster).toSlot
  let parentCluster := if parentCluster = fsi.rootCluster then 0 else parentCluster
  writeFdentry fsi newCluster 32 (dot dotdotName parentCluster).toSlot

/-! ## Finding room -/

/-- `consecutive_free` and `start_free_offset`. -/
structure Run where
  free : Nat := 0
  start : Nat := 0
  deriving DecidableEq, Repr

/-- What a slot does to the search for `num` free slots: complete the run, be
the end of the directory, or go on. -/
inductive AllocStep where
  | full (start : Nat)
  | last (run : Run)
  | more (run : Run)

/-- The slot at `offset` of the directory, by its first byte. -/
def allocSlot (num offset : Nat) (first : UInt8) (run : Run) : AllocStep :=
  let start := if run.free = 0 then offset else run.start
  if first = 0 then .last { run with start := start }
  else if first = lfnDeleted then
    if run.free + 1 = num then .full start else .more ⟨run.free + 1, start⟩
  else .more { run with free := 0 }

/-- The slots of a cluster from offset `o` on, at most `n` of them. -/
def allocCluster (fsi : Fsi) (num current : Nat) (data : Nat → UInt8) : Nat → Nat → Run → AllocStep
  | 0, _, run => .more run
  | n + 1, o, run =>
    if o < fsi.bytesPerCluster then
      match allocSlot num (u32 (current + o)) (data o) run with
      | .more run => allocCluster fsi num current data n (o + 32) run
      | r => r
    else .more run

/-- Where the search ended without a run of `num` deleted slots. -/
structure AllocEnd where
  lastCluster : Nat
  /-- `current_offset`: the bytes in the chain. -/
  offset : Nat
  run : Run
  found : Bool

/-- The loop over the clusters. After the end marker they are only counted. -/
def allocLoop (fsi : Fsi) (num : Nat) : Nat → Nat → Nat → Run → Bool → FsM (Except Nat AllocEnd)
  | 0, _, _, _, _ => hang
  | n + 1, cluster, current, run, found => do
    let step ← (if found then pure (AllocStep.last run) else do
      let bp ← readCluster fsi cluster
      pure (allocCluster fsi num current bp.data fsi.bytesPerCluster 0 run))
    let next (run : Run) (found : Bool) : FsM (Except Nat AllocEnd) := do
      let current := u32 (current + fsi.bytesPerCluster)
      match ← attempt (nextCluster fsi cluster {}) with
      | .error _ => pure (.ok ⟨cluster, current, run, found⟩)
      | .ok c => allocLoop fsi num n c current run found
    match step with
    | .full start => pure (.error start)
    | .last run => next run true
    | .more run => next run found

/-- Append `n` cleared clusters. -/
def growLoop (fsi : Fsi) : Nat → Nat → FsM Unit
  | 0, _ => pure ()
  | n + 1, last => do
    let c ← nextCluster fsi last { alloc := true, clear := true }
    growLoop fsi n c

/-- The first cluster of a directory that has none. -/
def allocFirst (fsi : Fsi) : FvM Nat := do
  let newCluster ← onVol (nextCluster fsi 0 { alloc := true, clear := true })
  let s ← get
  if s.fv.parentCluster = clusterBad then do
    let _ ← attempt (onVol (freeClusters fsi newCluster true))
    fail .einval
  else do
    match ← attempt (onVol (initDir fsi newCluster s.fv.parentCluster)) with
    | .error e => do
      let _ ← attempt (onVol (freeClusters fsi newCluster true))
      fail e
    | .ok _ => do
      modifyFv fun fv => { fv with
        cluster := newCluster, flags := { fv.flags with cluster := true } }
      pure 64

/-- `fat32_alloc_fdentry`: the result is `*offset`. -/
def allocFdentry (fsi : Fsi) (num : Nat) : FvM Nat := do
  let s ← get
  if s.fv.cluster = 0 then allocFirst fsi
  else onVol do
    match ← allocLoop fsi num fsi.kernel.fuel s.fv.cluster 0 {} false with
    | .error start => pure start
    | .ok e => do
      let start := if ¬ e.found ∧ e.run.free = 0 then e.offset else e.run.start
      let neededEnd := u32 (start + num * 32)
      if neededEnd > e.offset then do
        let bytesNeeded := neededEnd - e.offset
        growLoop fsi (u32 (bytesNeeded + fsi.bytesPerCluster - 1) >>> fsi.clusterShift) e.lastCluster
        pure start
      else pure start

/-! ## Writing entries -/

/-- The units of the long name entry that holds the characters from `start` on:
the characters, a NUL if there is room, and the filler. -/
def lfnUnits (name : List UInt8) (start : Nat) (j : Nat) : UInt8 × UInt8 :=
  let charsLeft := name.length - start
  let chunkLen := if charsLeft > 13 then 13 else charsLeft
  if j < chunkLen then (name.getD (start + j) 0, 0)
  else if j = chunkLen then (0, 0) else (0xFF, 0xFF)

def numLfn (name : List UInt8) : Nat := (name.length + 12) / 13

/-- The long name entry with number `i`. -/
def lfnEntry (name : List UInt8) (sum : UInt8) (i : Nat) : Slot :=
  lfnSlot (if i = numLfn name then UInt8.ofNat i ||| lfnLast else UInt8.ofNat i) sum
    (lfnUnits name ((i - 1) * 13))

/-- The entries `i`, `i - 1`, …, `1`. -/
def lfnLoop (fsi : Fsi) (dirCluster startOffset : Nat) (name : List UInt8) (sum : UInt8) :
    Nat → FsM Unit
  | 0 => pure ()
  | i + 1 => do
    writeFdentry fsi dirCluster (u32 (startOffset + (numLfn name - (i + 1)) * dentrySize))
      (lfnEntry name sum (i + 1))
    lfnLoop fsi dirCluster startOffset name sum i

def writeLfnFdentry (fsi : Fsi) (dirCluster startOffset : Nat) (d83 : Dirent83)
    (longName : List UInt8) : FsM Unit := do
  lfnLoop fsi dirCluster startOffset longName (checksum d83.name) (numLfn longName)
  writeFdentry fsi dirCluster (u32 (startOffset + numLfn longName * dentrySize)) d83.toSlot

/-- Flags of `fat32_create_fdentry`. -/
structure CreFlags where
  dir : Bool := false
  rename : Bool := false
  reuse : Bool := false
  deriving DecidableEq, Repr

/-- The 11 bytes of a short name. -/
def formatShort (name : List UInt8) : Fin 11 → UInt8 := fun i =>
  let base := name.takeWhile (· ≠ 46)
  let ext := name.drop (base.length + 1)
  if i.val < 8 then base.getD i 32 else ext.getD (i - 8) 32

/-- The slots an entry takes. -/
def nameSlots (name : List UInt8) : Nat := if nameIsShort name then 1 else (name.length + 12) / 13 + 1

/-- The 8.3 entry of `fat32_create_fdentry`; `now` is the time of creation. -/
def createDirent (flags : CreFlags) (fv : Fv) (name : Fin 11 → UInt8) (startCluster : Nat)
    (now : Timespec) : Dirent83 :=
  let c := unixToFatTime (if flags.rename then fv.ctime else now)
  let m := unixToFatTime (if flags.rename then fv.mtime else now)
  let a := unixToFatTime (if flags.rename then fv.atime else now)
  { name := name
    attr := if flags.rename then fv.attr
      else (if flags.dir then attrDirectory else 0) |||
        (if fv.mode &&& sIwusr = 0 then attrReadOnly else 0)
    createDate := c.date
    createTime := c.time
    createTimeTenth := UInt8.ofNat c.tenths
    writeDate := m.date
    writeTime := m.time
    lastAccessDate := a.date
    firstClusterHi := u16 (startCluster >>> 16)
    firstClusterLo := startCluster &&& 0xFFFF }

/-- The first cluster of the new entry. -/
def createCluster (fsi : Fsi) (dirCluster : Nat) (flags : CreFlags) (fv : Fv) : FsM Nat :=
  if flags.rename then pure fv.cluster
  else if flags.dir then do
    let startCluster ← nextCluster fsi 0 { alloc := true, clear := true }
    initDir fsi startCluster dirCluster
    pure startCluster
  else pure 0

/-- `fat32_create_fdentry` in the directory of the state: the result is `fv`. -/
def createFdentry (fsi : Fsi) (fv : Fv) (name : List UInt8) (flags : CreFlags) : FvM Fv := do
  let dirsz := nameSlots name
  let diroff ← (if flags.reuse then pure fv.diroff else allocFdentry fsi dirsz)
  let dir ← get
  let startCluster ← onVol (createCluster fsi dir.fv.cluster flags fv)
  let now ← (if flags.rename then pure {} else onVol (nanotime fsi))
  let isShort := nameIsShort name
  let d83 := createDirent flags fv
    (if isShort then formatShort name else generateShortName dir.fv.cluster diroff) startCluster now
  onVol (if isShort then writeFdentry fsi dir.fv.cluster diroff d83.toSlot
    else writeLfnFdentry fsi dir.fv.cluster diroff d83 name)
  let fv := { fv with dirsz := dirsz, diroff := diroff }
  if flags.rename then pure fv
  else onVol (makeVnode fsi startCluster (if flags.dir then .vdir else .vreg) fv
    (dir.fv.vnode.map fun vp => (vp, dir.fv.cluster)))

/-! ## The integrity check -/

/-- `in_lfn_sequence`, `expected_lfn_seq` and `expected_checksum`. -/
structure Check where
  inLfn : Bool := false
  seq : UInt8 := 0
  sum : UInt8 := 0

inductive CheckStep where
  | bad
  | done
  | more (st : Check)

def checkSlot (s : Slot) (st : Check) : CheckStep :=
  if s.first = 0 then if st.inLfn then .bad else .done
  else if s.first = lfnDeleted then if st.inLfn then .bad else .more st
  else if s.attr = attrLongName then
    let seq := s.sequence &&& lfnSeqMask
    let isStart : Bool := s.sequence &&& lfnLast ≠ 0
    if isStart = st.inLfn then .bad
    else
      let st : Check := if isStart then { inLfn := true, seq := seq, sum := s.checksum } else st
      if seq ≠ st.seq then .bad
      else if s.checksum ≠ st.sum then .bad
      else .more { st with seq := st.seq - 1 }
  else if s.attr &&& attrVolumeId ≠ 0 then if st.inLfn then .bad else .more st
  else if st.inLfn ∧ (st.seq ≠ 0 ∨ checksum s.name ≠ st.sum) then .bad
  else if s.attr &&& attrDirectory ≠ 0 ∧ s.fileSize ≠ 0 then .bad
  else .more { st with inLfn := false }

/-- The slots of a cluster from offset `o` on, at most `n` of them. -/
def checkCluster (fsi : Fsi) (data : Nat → UInt8) : Nat → Nat → Check → CheckStep
  | 0, _, st => .more st
  | n + 1, o, st =>
    if o < fsi.bytesPerCluster then
      match checkSlot (slotAt data o) st with
      | .more st => checkCluster fsi data n (o + dentrySize) st
      | r => r
    else .more st

def checkLoop (fsi : Fsi) : Nat → Nat → Check → FsM Unit
  | 0, _, _ => hang
  | n + 1, cluster, st => do
    let bp ← readCluster fsi cluster
    match checkCluster fsi bp.data fsi.bytesPerCluster 0 st with
    | .bad => fail .einval
    | .done => pure ()
    | .more st =>
      match ← attempt (nextCluster fsi cluster {}) with
      | .error _ => if st.inLfn then fail .einval else pure ()
      | .ok next => checkLoop fsi n next st

def checkDirIntegrity (fsi : Fsi) (fv : Fv) : FsM Unit :=
  if fv.type ≠ .vdir then fail .enotdir
  else if fv.cluster = 0 then pure ()
  else checkLoop fsi fsi.kernel.fuel fv.cluster {}

end Fat32
