import NessieStore.Lib.Run
import NessieStore.Lib.Pool
import NessieStore.Lib.Ledger
import NessieStore.Lib.Mixer
import NessieStore.Lib.LittleEndian
import NessieStore.Lib.Reach
import NessieStore.Lib.Cursor
import NessieStore.Lib.Program
import NessieStore.Lib.Descent
import NessieStore.Lib.SortBy
import NessieStore.Lib.Worklist
import NessieStore.Lib.Breadth
import NessieStore.Lib.Drain
import NessieStore.Lib.Split
import NessieStore.Lib.Source
import NessieStore.Lib.Paging
import NessieStore.Core.Hex
import NessieStore.Core.Digest
import NessieStore.Core.Cas
import NessieStore.Core.Reader
import NessieStore.Core.Ascending
import NessieStore.Core.ByText
import NessieStore.Core.Tree
import NessieStore.Core.ActionResult
import NessieStore.Backend.Local
import NessieStore.Disk.Files
import NessieStore.Disk.Settle
import NessieStore.Disk.Twins
import NessieStore.Store.State
import NessieStore.Store.Write
import NessieStore.Store.Evict
import NessieStore.Store.Scrub
import NessieStore.Store.System
import NessieStore.Store.Capacity
import NessieStore.Store.Books
import NessieStore.Store.Acknowledged
import NessieStore.Store.Condemned
import NessieStore.Store.Sequential
import NessieStore.Store.Heal
import NessieStore.Store.Intact
import NessieStore.Store.Closure
import NessieStore.Store.Failed
import NessieStore.Store.Admits
import NessieStore.Store.EvictAlone
import NessieStore.Store.Recency
import NessieStore.Node.Refs
import NessieStore.Node.Pin
import NessieStore.Node.System
import NessieStore.Node.Pinned
import NessieStore.Node.Session
import NessieStore.Node.Agreement
import NessieStore.Node.PowerLoss
import NessieStore.Swarm.Config
import NessieStore.Swarm.Network
import NessieStore.Swarm.Permanent
import NessieStore.Swarm.Replicated
import NessieStore.Swarm.Told
import NessieStore.Swarm.Push
import NessieStore.Swarm.Verified
import NessieStore.Swarm.Alone
import NessieStore.Swarm.ScrubPass
import NessieStore.Swarm.Coverage
import NessieStore.Swarm.Walk
import NessieStore.Swarm.Fetch
import NessieStore.Core.Text
import NessieStore.Reapi.Boundary
import NessieStore.Reapi.Face
import NessieStore.Reapi.Answers
import NessieStore.Reapi.Names
import NessieStore.Reapi.Results
import NessieStore.Reapi.ByteStream
import NessieStore.Reapi.Tree
import NessieStore.S3.Key
import NessieStore.S3.Listing
import NessieStore.Action.Attestation
import NessieStore.Action.Confirmed
import NessieStore.Action.Delivery
import NessieStore.Volume.Descriptor
import NessieStore.Volume.MemBackend
import NessieStore.Volume.Consistent
import NessieStore.Volume.Grows
import NessieStore.Volume.Zfs
import NessieStore.Volume.Zpool
import NessieStore.Volume.ZfsBackend
import NessieStore.Volume.Identity
import NessieStore.Volume.ZfsLaws
import NessieStore.Volume.ZfsAtomic
import NessieStore.Volume.ZfsExports
import NessieStore.Volume.ZfsAlone
import NessieStore.Volume.ZfsTracked
import NessieStore.Volume.ZfsSnapshots
import NessieStore.Mirror.Store
import NessieStore.Mirror.Transfer
import NessieStore.Mirror.Integrity
import NessieStore.Mirror.Serial
import NessieStore.Mirror.Base
import NessieStore.Nfs.Shape
import NessieStore.Nfs.Edit
import NessieStore.Nfs.Syscall
import NessieStore.Nfs.Cookie
import NessieStore.Nfs.Passthrough
import NessieStore.Nfs.Export
import NessieStore.Nfs.Confined
import NessieStore.Nfs.Table
import NessieStore.Nfs.Handles
import NessieStore.Nfs.Root
import NessieStore.Nfs.Paging
import NessieStore.Rpc.Record
import NessieStore.Rpc.Pages
