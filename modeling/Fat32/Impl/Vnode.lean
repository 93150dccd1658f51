import Mathlib
import Fat32.Impl.Dir

/-!
# Vnode operations (`fat32_vnode.c`)

Operations on one vnode are programs over that vnode; those that look up, make
or release vnodes are programs over the system (`SysM`), in which the live
vnodes are found by their pointers. A use of a pointer that is not live is a
panic of `fat32_bhv_to_fv_checked`, and so does not return.
-/

namespace Fat32

open Bytes Exec Prog

/-! ## Reading and writing files -/

/-- `struct uio`, with the user's memory from where the transfer began. -/
structure Uio where
  offset : Int
  resid : Nat
  mem : Nat → UInt8
  pos : Nat := 0

/-- The counters after `n` bytes were moved. -/
def Uio.moved (u : Uio) (n : Nat) : Uio :=
  { u with offset := u.offset + n, resid := u.resid - n, pos := u.pos + n }

/-- The state of `fat32_read` and `fat32_write`. -/
structure RwSt where
  vn : VnSt
  uio : Uio

abbrev RwM := Prog Errno RwSt

def onVn {α : Type} (m : FvM α) : RwM α := Prog.on RwSt.vn (fun v s => { s with vn := v }) m

/-- `uiomove` of `n` bytes to the user. -/
def uiomoveOut (fsi : Fsi) (data : Nat → UInt8) (n : Nat) : RwM Unit := do
  onVn (onVol (uiomove fsi))
  modify fun s => { s with uio := { s.uio.moved n with mem := poke s.uio.mem s.uio.pos n data } }

/-- `uiomove` of `n` bytes from the user to `data + o`. -/
def uiomoveIn (fsi : Fsi) (data : Nat → UInt8) (o n : Nat) : RwM (Nat → UInt8) := do
  onVn (onVol (uiomove fsi))
  let s ← get
  modify fun s => { s with uio := s.uio.moved n }
  pure (poke data o n fun i => s.uio.mem (s.uio.pos + i))

/-- The low 32 bits of an `off_t`. -/
def lo32 (x : Int) : Nat := (x % 0x100000000).toNat

/-- The loop of `fat32_read`; each round moves at least one byte. The result is
the index of the last cluster read, and the cluster. -/
def readLoop (fsi : Fsi) : Nat → Nat → Nat → Nat → Nat → RwM (Nat × Nat)
  | 0, _, _, _, _ => hang
  | n + 1, cluster, skipClusters, offsetInCluster, remaining => do
    let bp ← onVn (onVol (readCluster fsi cluster))
    let bytesToCopy := min (fsi.bytesPerCluster - offsetInCluster) remaining
    uiomoveOut fsi (fun i => bp.data (offsetInCluster + i)) bytesToCopy
    let remaining := remaining - bytesToCopy
    if remaining = 0 then pure (skipClusters, cluster) else do
      match ← attempt (onVn (onVol (nextCluster fsi cluster {}))) with
      | .error _ => fail .eio
      | .ok next => readLoop fsi n next (u32 (skipClusters + 1)) 0 remaining

def read (fsi : Fsi) : RwM Unit := do
  let s ← get
  if s.vn.fv.type ≠ .vreg then fail .eisdir else do
    onVn (touchFv fsi true false)
    let offset := s.uio.offset
    if offset < 0 then fail .einval
    else if offset ≥ s.vn.fv.size then pure ()
    else do
      let remaining := if offset + s.uio.resid > s.vn.fv.size then (s.vn.fv.size - offset).toNat
        else s.uio.resid
      if remaining = 0 then pure () else do
        let skipClusters := lo32 (offset >>> fsi.clusterShift)
        let cluster ← onVn (vnodeSeekCluster fsi skipClusters {})
        let last ← readLoop fsi remaining cluster skipClusters (lo32 offset &&& fsi.clusterMask)
          remaining
        onVn (vnodeUpdateCache last.1 last.2)

/-- The file grows when a write ends behind its end. -/
def growSize : RwM Unit := modify fun s =>
  if s.uio.offset > s.vn.fv.size then
    { s with vn := { s.vn with fv := { s.vn.fv with
        size := s.uio.offset.toNat, flags := { s.vn.fv.flags with size := true } } } }
  else s

def writeLoop (fsi : Fsi) : Nat → Nat → Nat → Nat → Nat → RwM (Nat × Nat)
  | 0, _, _, _, _ => hang
  | n + 1, cluster, skipClusters, offsetInCluster, remaining => do
    let bp ← onVn (onVol (readCluster fsi cluster))
    let bytesToCopy := min (fsi.bytesPerCluster - offsetInCluster) remaining
    let data ← uiomoveIn fsi bp.data offsetInCluster bytesToCopy
    onVn (onVol (bdwrite { bp with data := data }))
    growSize
    let remaining := remaining - bytesToCopy
    if remaining = 0 then pure (skipClusters, cluster) else do
      let next ← onVn (onVol (nextCluster fsi cluster { alloc := true }))
      writeLoop fsi n next (u32 (skipClusters + 1)) 0 remaining

/-- The first cluster of an empty file that is written. -/
def writeFirst (fsi : Fsi) : FvM Unit := do
  let s ← get
  if s.fv.cluster = 0 then do
    let cluster ← onVol (nextCluster fsi 0 { alloc := true })
    modifyFv fun fv => { fv with cluster := cluster, flags := { fv.flags with cluster := true } }
  else pure ()

/-- `fat32_write`; `append` is `ioflag & IO_APPEND`. -/
def write (fsi : Fsi) (append : Bool) : RwM Unit := do
  let s ← get
  if s.vn.fv.type ≠ .vreg then fail .eisdir else do
    onVn (touchFv fsi false true)
    let remaining := s.uio.resid
    if remaining = 0 then pure () else do
      let offset := if append then (s.vn.fv.size : Int) else s.uio.offset
      modify fun s => { s with uio := { s.uio with offset := offset } }
      onVn (writeFirst fsi)
      let skipClusters := lo32 (offset >>> fsi.clusterShift)
      let cluster ← onVn (vnodeSeekCluster fsi skipClusters { alloc := true })
      let last ← writeLoop fsi remaining cluster skipClusters (lo32 offset &&& fsi.clusterMask)
        remaining
      onVn (vnodeUpdateCache last.1 last.2)

/-! ## Listing a directory -/

/-- An entry in the user's buffer. -/
structure Emitted where
  ino : Nat
  off : Nat
  name : List UInt8
  deriving DecidableEq, Repr

/-- The state of `fat32_readdir`: `uio_offset`, `uio_resid`, `d_name`, `error`, what is
in the buffer (`nemitted` is its length), and `*eofp`. -/
structure Readdir where
  offset : Nat
  resid : Nat
  dName : Nat → UInt8
  err : Option Errno
  entries : List Emitted := []
  eof : Bool := false

/-- `fat32_emit_dirent`: the result is what remains of the buffer. -/
def emitDirent (fsi : Fsi) (dNameSize resid : Nat) : FsM Nat := do
  let reclen := fsi.kernel.direntSize dNameSize
  if reclen > resid then fail .einval else do
    uiomove fsi
    uiomove fsi
    if reclen > fsi.kernel.direntBase + dNameSize + 1 then uiomove fsi else pure ()
    pure (resid - reclen)

/-- Emit an entry and go on at `next`, or stop: when the buffer is full that is an
error only if it is still empty. -/
def emitEntry (fsi : Fsi) (d : Dirent) (name : DName) (next : Nat) (st : Readdir) :
    FsM (Bool × Readdir) := do
  let st := { st with dName := name.data }
  match ← attempt (emitDirent fsi name.size st.resid) with
  | .ok resid => pure (true, { st with
      offset := next
      resid := resid
      err := none
      entries := st.entries ++
        [⟨d.ino, d.off, (List.range name.size).map name.data⟩] })
  | .error e => pure (false, { st with
      err := if e = .einval ∧ st.entries ≠ [] then none else some e })

/-- The name of the synthetic entries of the root directory. -/
def dotDName (data : Nat → UInt8) (n : Nat) : DName where
  data i := if i < n then 46 else if i = n then 0 else data i
  size := n

def readdirLoop (fsi : Fsi) : Nat → Readdir → FvM Readdir
  | 0, _ => hang
  | n + 1, st =>
    if st.resid = 0 then pure st else do
      let s ← get
      if st.offset = 0 ∧ s.fv.flags.root then do
        let r ← onVol (emitEntry fsi ⟨0, 1⟩ (dotDName st.dName 1) 1 st)
        if r.1 then readdirLoop fsi n r.2 else pure r.2
      else if st.offset = 1 ∧ s.fv.flags.root then do
        let r ← onVol (emitEntry fsi ⟨0, 2⟩ (dotDName st.dName 2) 2 st)
        if r.1 then readdirLoop fsi n r.2 else pure r.2
      else do
        let diskOffset := if s.fv.flags.root ∧ st.offset < dentrySize then 0 else st.offset
        match ← attempt (getDirent fsi diskOffset
            ⟨Function.update st.dName 0 0, dNameSize⟩ none) with
        | .error e =>
          if e = .enoent then pure { st with eof := true, err := none }
          else pure { st with err := some e }
        | .ok out => do
          let r ← onVol (emitEntry fsi out.dirent out.name out.offset st)
          if r.1 then readdirLoop fsi n r.2 else pure r.2

/-- `fat32_readdir` from the offset and for the buffer size of the request. -/
def readdir (fsi : Fsi) (offset resid : Nat) : FvM Readdir := do
  let s ← get
  let st : Readdir := {
    offset := u32 offset, resid := resid, dName := fsi.kernel.stack, err := fsi.kernel.stackErr }
  if s.fv.type ≠ .vdir then fail .enotdir
  else readdirLoop fsi fsi.kernel.fuel st

/-! ## Attributes -/

/-- The walk of `fat32_getattr` along a directory: the result is the number of its
clusters. -/
def countLoop (fsi : Fsi) : Nat → Nat → Nat → FsM Nat
  | 0, _, _ => hang
  | fuel + 1, current, num =>
    if current ≥ clusterMin ∧ current < clusterEocMin then do
      match ← attempt (nextCluster fsi current {}) with
      | .error _ => pure (u32 (num + 1))
      | .ok next => countLoop fsi fuel next (u32 (num + 1))
    else pure num

/-- `va_size` and `va_nblocks`, the attributes `fat32_getattr` computes. -/
def getattr (fsi : Fsi) : FvM (Nat × Nat) := do
  let s ← get
  if s.fv.type = .vdir then do
    let n ← onVol (countLoop fsi fsi.kernel.fuel s.fv.cluster 0)
    let numClusters := if n = 0 then 1 else n
    pure (u32 (numClusters * fsi.bytesPerCluster), numClusters)
  else pure (s.fv.size, (s.fv.size + fsi.bytesPerCluster - 1) >>> fsi.clusterShift)

/-- `va_nodeid` of `fat32_getattr`. -/
def vaNodeid (fv : Fv) : Nat := fv.cluster

/-- `struct vattr`, with `va_mask` as flags. -/
structure Vattr where
  atSize : Bool := false
  atMode : Bool := false
  atUid : Bool := false
  atGid : Bool := false
  atAtime : Bool := false
  atMtime : Bool := false
  atCtime : Bool := false
  size : Nat := 0
  mode : Nat := 0
  uid : Nat := 0
  gid : Nat := 0
  atime : Timespec := {}
  mtime : Timespec := {}
  ctime : Timespec := {}

/-- The mode change of `fat32_setattr`: the write permission of the owner is the
read-only attribute. -/
def setMode (mode : Nat) (fv : Fv) : Fv :=
  let fv := { fv with mode := mode }
  if mode &&& sIwusr ≠ 0 then
    if fv.attr &&& attrReadOnly ≠ 0 then
      { fv with attr := fv.attr &&& ~~~ attrReadOnly, flags := { fv.flags with attr := true } }
    else fv
  else
    if fv.attr &&& attrReadOnly = 0 then
      { fv with attr := fv.attr ||| attrReadOnly, flags := { fv.flags with attr := true } }
    else fv

/-- What `fat32_setattr` changes besides the size. -/
def setFields (vap : Vattr) (fv : Fv) : Fv :=
  let fv := if vap.atMode then setMode vap.mode fv else fv
  let fv := if vap.atUid then { fv with uid := vap.uid } else fv
  let fv := if vap.atGid then { fv with gid := vap.gid } else fv
  let fv := if vap.atAtime then
    { fv with atime := vap.atime, flags := { fv.flags with atime := true } } else fv
  let fv := if vap.atMtime then
    { fv with mtime := vap.mtime, flags := { fv.flags with mtime := true } } else fv
  if vap.atCtime then
    { fv with ctime := vap.ctime, flags := { fv.flags with ctime := true } } else fv

/-- `fat32_setattr` up to the flush. -/
def setattrFv (fsi : Fsi) (vap : Vattr) : FvM Unit := do
  let s ← get
  if fsi.vfsRdonly then fail .erofs
  else do
    if vap.atSize then
      if s.fv.type = .vdir then fail .eisdir else truncate fsi vap.size
    else pure ()
    modifyFv (setFields vap)

/-! ## Deleting entries -/

/-- The loop over the `count` slots still to be marked, in the buffer of their
cluster. -/
def deleteLoop (fsi : Fsi) : Nat → Nat → Buf → Nat → FsM Unit
  | 0, _, bp, _ => bdwrite bp
  | n + 1, cluster, bp, clusterOff => do
    let (cluster, bp, clusterOff) ← (if clusterOff ≥ fsi.bytesPerCluster then do
        bdwrite bp
        let next ← nextCluster fsi cluster {}
        let bp ← readCluster fsi next
        pure (next, bp, 0)
      else pure (cluster, bp, clusterOff))
    deleteLoop fsi n cluster
      { bp with data := Function.update bp.data clusterOff lfnDeleted } (clusterOff + dentrySize)

def deleteFdentryChain (fsi : Fsi) (dirCluster offset count : Nat) : FsM Unit := do
  let skipClusters := offset >>> fsi.clusterShift
  let clusterOff := offset &&& fsi.clusterMask
  let cluster ← seekCluster fsi dirCluster skipClusters {}
  let bp ← readCluster fsi cluster
  deleteLoop fsi count cluster bp clusterOff

/-- What a slot says about the emptiness of its directory. -/
inductive EmptyStep where
  | stop
  | occupied
  | more

def emptySlot (s : Slot) : EmptyStep :=
  if s.first = 0 then .stop
  else if s.first = lfnDeleted then .more
  else if s.attr &&& attrVolumeId ≠ 0 then .more
  else if s.attr = attrLongName then .occupied
  else if s.first = 46 then .more
  else .occupied

/-- The slots of a cluster from offset `o` on, at most `n` of them. -/
def emptyCluster (fsi : Fsi) (data : Nat → UInt8) : Nat → Nat → EmptyStep
  | 0, _ => .more
  | n + 1, o =>
    if o < fsi.bytesPerCluster then
      match emptySlot (slotAt data o) with
      | .more => emptyCluster fsi data n (o + 32)
      | r => r
    else .more

def emptyLoop (fsi : Fsi) : Nat → Nat → FsM Unit
  | 0, _ => hang
  | n + 1, cluster => do
    match ← attempt (readCluster fsi cluster) with
    | .error _ => fail .enotempty
    | .ok bp =>
      match emptyCluster fsi bp.data fsi.bytesPerCluster 0 with
      | .stop => pure ()
      | .occupied => fail .enotempty
      | .more =>
        match ← attempt (nextCluster fsi cluster {}) with
        | .error _ => pure ()
        | .ok next => emptyLoop fsi n next

def dirempty (fsi : Fsi) (fv : Fv) : FsM Unit :=
  if fv.type ≠ .vdir then fail .enotdir
  else if fv.cluster = 0 then pure ()
  else emptyLoop fsi fsi.kernel.fuel fv.cluster

/-- `.` or `..`. -/
def isDot (name : List UInt8) : Bool := name = [46] ∨ name = [46, 46]

/-- The checks of `fat32_remove_common` on the entry it found. -/
def removeCheck (fsi : Fsi) (fv : Fv) (isDir : Bool) (cdirCluster : Option Nat) : FsM Unit :=
  if isDir then
    if fv.type ≠ .vdir then fail .enotdir
    else if cdirCluster = some fv.cluster then fail .einval
    else dirempty fsi fv
  else if fv.type = .vdir then fail .eisdir
  else pure ()

/-- `fat32_remove_common` in the directory of the state; errors of the two steps
that remove the entry are only reported. -/
def removeCommon (fsi : Fsi) (name : List UInt8) (isDir : Bool) (cdirCluster : Option Nat)
    (cr : Cred) : FvM Unit := do
  if isDot name then fail .einval else do
    let dir ← get
    match faccess fsi dir.fv { write := true, exec := true } cr with
    | some e => fail e
    | none => do
      let fv ← findDirent fsi name (vnodeNew fsi)
      onVol (removeCheck fsi fv isDir cdirCluster)
      if fv.parentCluster = clusterBad then fail .einval else do
        let _ ← attempt (onVol (deleteFdentryChain fsi fv.parentCluster fv.diroff fv.dirsz))
        let _ ← (if fv.cluster ≠ 0 then attempt (onVol (freeClusters fsi fv.cluster true))
          else pure (.ok ()))
        touchFv fsi false true

/-! ## The system -/

/-- The live vnodes, by their pointers, with the references the kernel counts. -/
structure Sys where
  vol : Vol
  vnodes : Nat → Option Fv
  vcount : Nat → Nat

abbrev SysM := Prog Errno Sys

def onSysVol {α : Type} (m : FsM α) : SysM α := Prog.on Sys.vol (fun v s => { s with vol := v }) m

/-- A program on the vnode at `p`. -/
def onVnode {α : Type} (p : Nat) (m : FvM α) : SysM α := fun s =>
  match s.vnodes p with
  | none => (.hang, s)
  | some fv =>
    let r := m ⟨s.vol, fv⟩
    (r.1, { s with vol := r.2.vol, vnodes := Function.update s.vnodes p (some r.2.fv) })

/-- The vnode at `p`, which has to be live. -/
def getVnode (p : Nat) : SysM Fv := fun s =>
  match s.vnodes p with
  | none => (.hang, s)
  | some fv => (.ok fv, s)

/-- `VN_HOLD`. -/
def vnHold (p : Nat) : SysM Unit := modify fun s =>
  { s with vcount := Function.update s.vcount p (s.vcount p + 1) }

/-- The part of `fat32_make_vnode` that the system sees: the vnode is live, and
holds its parent. -/
def attach (fv : Fv) : SysM (Option Nat) := do
  match fv.vnode with
  | none => pure none
  | some vp => do
    modify fun s => { s with
      vnodes := Function.update s.vnodes vp (some fv)
      vcount := Function.update s.vcount vp 1 }
    match fv.parentVp with
    | none => pure ()
    | some q => vnHold q
    pure (some vp)

/-- `fat32_make_vnode` of an entry found in the directory at `dir`. -/
def makeEntryVnode (fsi : Fsi) (dir : Fv) (fv : Fv) : SysM (Option Nat) := do
  let fv ← onSysVol (makeVnode fsi fv.cluster fv.type fv
    (dir.vnode.map fun vp => (vp, dir.cluster)))
  attach fv

/-- The root vnode that `fat32_mount` makes. -/
def makeRoot (fsi : Fsi) : SysM (Option Nat) := do
  let fv ← onSysVol (makeVnode fsi fsi.rootCluster .vdir (vnodeNew fsi) none)
  attach fv

/-- `fat32_lookup`; the parent of the root leaves `*vpp` alone. -/
def lookup (fsi : Fsi) (dir : Nat) (nm : List UInt8) : SysM (Option Nat) := do
  let dirFv ← getVnode dir
  if dirFv.type ≠ .vdir then fail .enotdir
  else if nm = [46] then do
    vnHold dir
    pure (some dir)
  else if nm = [46, 46] then
    if dirFv.flags.root then pure none
    else match dirFv.parentVp with
      | none => fail .enoent
      | some q => do
        vnHold q
        pure (some q)
  else do
    let fv ← onVnode dir (findDirent fsi nm (vnodeNew fsi))
    makeEntryVnode fsi dirFv fv

/-- A program on a vnode structure that is not attached; it is lost when the
program fails. -/
def withFv {α : Type} (fv : Fv) (m : FvM α) : FsM (α × Fv) := fun vol =>
  let r := m ⟨vol, fv⟩
  (match r.1 with
    | .ok a => .ok (a, r.2.fv)
    | .err e => .err e
    | .hang => .hang, r.2.vol)

/-- `fat32_create` of a name that exists. -/
def createExisting (fsi : Fsi) (dir : Nat) (dirFv fv : Fv) (vap : Vattr) (excl : Bool)
    (mode : Access) (cr : Cred) : SysM (Option Nat) :=
  if fv.type = .vdir then
    if mode.write then fail .eisdir else makeEntryVnode fsi dirFv fv
  else if excl then fail .eexist
  else match faccess fsi fv mode cr with
    | some e => fail e
    | none => do
      let (_, fv) ← onSysVol (withFv fv (if vap.atSize then truncate fsi vap.size else pure ()))
      let fv ← onSysVol (touch fsi false false fv)
      onVnode dir (touchFv fsi false true)
      makeEntryVnode fsi dirFv fv

/-- The entry, the times and the vnode of a name that does not exist. -/
def createNew (fsi : Fsi) (dir : Nat) (name : List UInt8) (mode : Nat) (flags : CreFlags) :
    SysM (Option Nat) := do
  let fv ← onVnode dir (createFdentry fsi { vnodeNew fsi with mode := mode } name flags)
  let fv ← onSysVol (touch fsi false false fv)
  onVnode dir (touchFv fsi false true)
  attach fv

/-- `fat32_create`; `excl` is `flags & VEXCL`. -/
def create (fsi : Fsi) (dir : Nat) (name : List UInt8) (vap : Vattr) (excl : Bool) (mode : Access)
    (cr : Cred) : SysM (Option Nat) := do
  let dirFv ← getVnode dir
  if dirFv.type ≠ .vdir then fail .enotdir
  else match faccess fsi dirFv { write := true, exec := true } cr with
    | some e => fail e
    | none => do
      match ← attempt (onVnode dir (findDirent fsi name (vnodeNew fsi))) with
      | .ok fv => createExisting fsi dir dirFv fv vap excl mode cr
      | .error e =>
        if e ≠ .enoent then fail e else createNew fsi dir name vap.mode {}

def mkdir (fsi : Fsi) (dir : Nat) (dirname : List UInt8) (vap : Vattr) (cr : Cred) :
    SysM (Option Nat) := do
  let dirFv ← getVnode dir
  if dirFv.type ≠ .vdir then fail .enotdir
  else match faccess fsi dirFv { write := true, exec := true } cr with
    | some e => fail e
    | none => do
      match ← attempt (onVnode dir (findDirent fsi dirname (vnodeNew fsi))) with
      | .ok fv => if fv.type ≠ .vdir then fail .enotdir else fail .eexist
      | .error e =>
        if e ≠ .enoent then fail e else createNew fsi dir dirname vap.mode { dir := true }

def remove (fsi : Fsi) (dir : Nat) (nm : List UInt8) (cr : Cred) : SysM Unit :=
  onVnode dir (removeCommon fsi nm false none cr)

/-- `fat32_rmdir`; `cdir` is the current directory of the caller. -/
def rmdir (fsi : Fsi) (dir : Nat) (nm : List UInt8) (cdir : Option Nat) (cr : Cred) :
    SysM Unit := do
  let cdirCluster ← (match cdir with
    | none => pure none
    | some p => do
      let fv ← getVnode p
      pure (some fv.cluster))
  onVnode dir (removeCommon fsi nm true cdirCluster cr)

/-- The part of `fat32_rename` that makes way for the target. -/
def renameTarget (fsi : Fsi) (tdir : Nat) (tnm : List UInt8) (fv : Fv) (cr : Cred) : SysM Unit := do
  match ← attempt (onVnode tdir (findDirent fsi tnm (vnodeNew fsi))) with
  | .ok target => do
    if target.type = .vdir then
      if target.type ≠ fv.type then fail .eisdir else do
        match ← attempt (onSysVol (dirempty fsi target)) with
        | .ok _ => fail .eexist
        | .error _ => pure ()
    else if fv.type = .vdir then fail .enotdir else pure ()
    onVnode tdir (removeCommon fsi tnm (target.type = .vdir) none cr)
  | .error e => if e ≠ .enoent then fail e else pure ()

/-- Store the new parent of a directory in its second slot; errors are ignored. -/
def renameDotdot (fsi : Fsi) (cluster parent : Nat) : FsM Unit := do
  if cluster < clusterMin ∨ cluster = clusterBad then pure () else do
    let parentClus := if parent = fsi.rootCluster then 0 else parent
    match ← attempt (readFdentry fsi cluster 32) with
    | .error _ => pure ()
    | .ok dotdot => do
      let _ ← attempt (writeFdentry fsi cluster 32 (dotdot.setFirstCluster parentClus))
      pure ()

/-- The new entry in the slots of the old one, with the slots left over deleted. -/
def renameReuse (fsi : Fsi) (fv : Fv) (tnm : List UInt8) : FvM Unit := do
  let _ ← createFdentry fsi fv tnm { rename := true, reuse := true, dir := fv.type = .vdir }
  if nameSlots tnm < fv.dirsz then do
    let s ← get
    let _ ← attempt (onVol (deleteFdentryChain fsi s.fv.cluster
      (u32 (fv.diroff + nameSlots tnm * dentrySize)) (fv.dirsz - nameSlots tnm)))
    pure ()
  else pure ()

/-- `fat32_rename`. -/
def rename (fsi : Fsi) (sdir : Nat) (snm : List UInt8) (tdir : Nat) (tnm : List UInt8)
    (cr : Cred) : SysM Unit := do
  let sdvp ← getVnode sdir
  let tdvp ← getVnode tdir
  let sameDir : Bool := sdvp.cluster = tdvp.cluster
  if sameDir ∧ snm = tnm then pure () else do
    let fv ← onVnode sdir (findDirent fsi snm (vnodeNew fsi))
    renameTarget fsi tdir tnm fv cr
    if sameDir ∧ nameSlots tnm ≤ fv.dirsz then onVnode sdir (renameReuse fsi fv tnm)
    else do
      let sdvp ← getVnode sdir
      onSysVol (deleteFdentryChain fsi sdvp.cluster fv.diroff fv.dirsz)
      let _ ← onVnode tdir (createFdentry fsi fv tnm { rename := true, dir := fv.type = .vdir })
      pure ()
    let tdvp ← getVnode tdir
    if fv.type = .vdir ∧ ¬ sameDir then onSysVol (renameDotdot fsi fv.cluster tdvp.cluster)
    else pure ()
    onVnode sdir (touchFv fsi false true)
    if ¬ sameDir then onVnode tdir (touchFv fsi false true) else pure ()

/-- `fat32_sync_metadata`: the parent, if there is one, has to be live. -/
def syncMetadata (fsi : Fsi) (p : Nat) : SysM Unit := do
  let fv ← getVnode p
  match fv.parentVp with
  | none => pure ()
  | some q => do
    let _ ← getVnode q
    pure ()
  onVnode p (updateFdentry fsi)

/-- Flush a dirty vnode; the result is not looked at. -/
def flushDirty (fsi : Fsi) (p : Nat) : SysM Unit := do
  let fv ← getVnode p
  if fv.flags.dirty then do
    let _ ← attempt (syncMetadata fsi p)
    pure ()
  else pure ()

def fsync (fsi : Fsi) (p : Nat) : SysM Unit := flushDirty fsi p

def close (fsi : Fsi) (p : Nat) (lastclose : Bool) : SysM Unit := do
  let _ ← getVnode p
  if lastclose then flushDirty fsi p else pure ()

def setattr (fsi : Fsi) (p : Nat) (vap : Vattr) : SysM Unit := do
  onVnode p (setattrFv fsi vap)
  let fv ← getVnode p
  if fv.flags.dirty then syncMetadata fsi p else pure ()

/-- `VN_RELE`, as far as it counts. -/
def vnRele (p : Nat) : SysM Unit := modify fun s =>
  { s with vcount := Function.update s.vcount p (s.vcount p - 1) }

/-- `fat32_inactive`: a vnode without references is flushed and taken down. -/
def inactive (fsi : Fsi) (p : Nat) : SysM Unit := do
  let fv ← getVnode p
  let s ← get
  if s.vcount p > 0 then pure () else do
    flushDirty fsi p
    match fv.parentVp with
    | none => pure ()
    | some q => vnRele q
    modify fun s => { s with vnodes := Function.update s.vnodes p none }

/-- A program of `fat32_read` or `fat32_write` on the vnode at `p`. -/
def rwVnode (p : Nat) (m : RwM Unit) (uio : Uio) : SysM Unit :=
  onVnode p fun s => ((m ⟨s, uio⟩).1, (m ⟨s, uio⟩).2.vn)

/-- `fat32_cmp`: two vnodes are of the same file. -/
def cmp (fv1 fv2 : Fv) : Bool :=
  if fv1.flags.root then fv2.flags.root
  else if fv2.flags.root then false
  else packIno fv1.parentCluster fv1.diroff fv1.dirsz =
    packIno fv2.parentCluster fv2.diroff fv2.dirsz

end Fat32
