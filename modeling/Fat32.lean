import Fat32.Proof.Fat
import Fat32.Lib.Linked
import Fat32.Proof.Free
import Fat32.Proof.Ownership
import Fat32.Impl.Dir
import Fat32.Impl.Vnode
import Fat32.Proof.Cache
import Fat32.Proof.File
import Fat32.Proof.ReadWrite
import Fat32.Proof.WriteRead
import Fat32.Proof.ReadOnly
import Fat32.Proof.ReadOnlyMount
import Fat32.Proof.Boot
import Fat32.Proof.DataArea
import Fat32.Proof.Locking
import Fat32.Proof.Rename
import Fat32.Proof.Edit
import Fat32.Proof.AddressMap
import Fat32.Proof.Truncate
import Fat32.Proof.Extend
import Fat32.Proof.Inode
import Fat32.Proof.Leftover
import Fat32.Proof.Walk
import Fat32.Proof.Overlap
import Fat32.Proof.Accounting
import Fat32.Proof.FailedAlloc
import Fat32.Proof.LfnSet
import Fat32.Proof.FailedExtend
import Fat32.Proof.SizeLimit
import Fat32.Proof.FailedTruncate
import Fat32.Proof.Time
import Fat32.Proof.Lru
import Fat32.Proof.FatBytes
import Fat32.Proof.FreeEnds
import Fat32.Proof.SlotBounds
import Fat32.Proof.Flush
import Fat32.Proof.EmptyDir
import Fat32.Proof.SlotAlloc
import Fat32.Proof.ShortName
import Fat32.Proof.Identity
import Fat32.Proof.Removal
import Fat32.Proof.FailedRemoval
import Fat32.Proof.Resume
import Fat32.Proof.Metadata
import Fat32.Proof.FileStore
import Fat32.Proof.Integrity
import Fat32.Proof.Options
import Fat32.Proof.References
import Fat32.Lib.Dictionary
import Fat32.Proof.Adding
import Fat32.Proof.Directory
import Fat32.Proof.Mount
import Fat32.Proof.Unlink
import Fat32.Proof.Tree
import Fat32.Proof.NameSpace
