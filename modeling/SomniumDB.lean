import SomniumDB.Abstract.Accounting
import SomniumDB.Abstract.Alike
import SomniumDB.Abstract.Batches
import SomniumDB.Abstract.Cell
import SomniumDB.Abstract.Change
import SomniumDB.Abstract.Clients
import SomniumDB.Abstract.Cluster
import SomniumDB.Abstract.ColdStorage
import SomniumDB.Abstract.Dispatch
import SomniumDB.Abstract.Drawn
import SomniumDB.Abstract.Dump
import SomniumDB.Abstract.Events
import SomniumDB.Abstract.Executed
import SomniumDB.Abstract.FailedReads
import SomniumDB.Abstract.Fitting
import SomniumDB.Abstract.Graves
import SomniumDB.Abstract.Guard
import SomniumDB.Abstract.History
import SomniumDB.Abstract.Invariant
import SomniumDB.Abstract.Logged
import SomniumDB.Abstract.LoopConnections
import SomniumDB.Abstract.Mesh
import SomniumDB.Abstract.Node
import SomniumDB.Abstract.Offer
import SomniumDB.Abstract.Origin
import SomniumDB.Abstract.Ownership
import SomniumDB.Abstract.Pipeline
import SomniumDB.Abstract.Plain
import SomniumDB.Abstract.PollTickets
import SomniumDB.Abstract.Readers
import SomniumDB.Abstract.Refinement
import SomniumDB.Abstract.Replay
import SomniumDB.Abstract.Replica
import SomniumDB.Abstract.ReplicationLink
import SomniumDB.Abstract.ReplicationOffset
import SomniumDB.Abstract.Rewrite
import SomniumDB.Abstract.RewriteChild
import SomniumDB.Abstract.Shipping
import SomniumDB.Abstract.Site
import SomniumDB.Abstract.View
import SomniumDB.Core.ColdReads
import SomniumDB.Core.Commands
import SomniumDB.Core.CorruptFiles
import SomniumDB.Core.Crdt
import SomniumDB.Core.Database
import SomniumDB.Core.ErrorLines
import SomniumDB.Core.Execute
import SomniumDB.Core.Hlc
import SomniumDB.Core.HlcWords
import SomniumDB.Core.Persistence
import SomniumDB.Core.PoolAllocator
import SomniumDB.Core.PubSub
import SomniumDB.Core.Record
import SomniumDB.Core.RecordPointers
import SomniumDB.Core.Resp
import SomniumDB.Core.RespCodec
import SomniumDB.Core.RespIndex
import SomniumDB.Core.RespStream
import SomniumDB.Core.RespTail
import SomniumDB.Core.RespValue
import SomniumDB.Core.RoomFiles
import SomniumDB.Core.Rooms
import SomniumDB.Core.Runs
import SomniumDB.Core.Service
import SomniumDB.Core.SharedSnapshots
import SomniumDB.Library.Bytes
import SomniumDB.Library.Chain
import SomniumDB.Library.Checked
import SomniumDB.Library.CountMin
import SomniumDB.Library.Cursor
import SomniumDB.Library.FiniteMap
import SomniumDB.Library.LastUpdate
import SomniumDB.Library.LastWriter
import SomniumDB.Library.LittleEndian
import SomniumDB.Library.NestedMap
import SomniumDB.Library.Numeral
import SomniumDB.Library.PrefixCode
import SomniumDB.Library.Runs
import SomniumDB.Library.SetMap
import SomniumDB.Library.Stream
import SomniumDB.Library.Transfer
import SomniumDB.Net.Auth
import SomniumDB.Net.Connection
import SomniumDB.Net.EventLoop
import SomniumDB.Net.Frames
import SomniumDB.Net.Turns
import SomniumDB.Properties.Admission
import SomniumDB.Properties.Authentication
import SomniumDB.Properties.BackgroundRewrite
import SomniumDB.Properties.ClientBuffers
import SomniumDB.Properties.ColdFile
import SomniumDB.Properties.ColdKeys
import SomniumDB.Properties.Convergence
import SomniumDB.Properties.CorruptSnapshot
import SomniumDB.Properties.Deadlines
import SomniumDB.Properties.Deletes
import SomniumDB.Properties.DumpRoundTrip
import SomniumDB.Properties.Durability
import SomniumDB.Properties.EventLoop
import SomniumDB.Properties.Eviction
import SomniumDB.Properties.Expiry
import SomniumDB.Properties.Figures
import SomniumDB.Properties.Frequency
import SomniumDB.Properties.Frontiers
import SomniumDB.Properties.Hello
import SomniumDB.Properties.Hibernation
import SomniumDB.Properties.InlineQuoting
import SomniumDB.Properties.LocalVersions
import SomniumDB.Properties.LogFile
import SomniumDB.Properties.LogFormat
import SomniumDB.Properties.LogTail
import SomniumDB.Properties.MergeOrder
import SomniumDB.Properties.MgetReply
import SomniumDB.Properties.Migration
import SomniumDB.Properties.MultiSet
import SomniumDB.Properties.Numbers
import SomniumDB.Properties.OutputCap
import SomniumDB.Properties.ParserDecisions
import SomniumDB.Properties.Pipelining
import SomniumDB.Properties.PoolMemory
import SomniumDB.Properties.PooledRooms
import SomniumDB.Properties.RecordOwnership
import SomniumDB.Properties.Recovery
import SomniumDB.Properties.Refusals
import SomniumDB.Properties.RefusedRooms
import SomniumDB.Properties.Replication
import SomniumDB.Properties.Replies
import SomniumDB.Properties.ReplyCounting
import SomniumDB.Properties.SharedSnapshots
import SomniumDB.Properties.ShipRooms
import SomniumDB.Properties.SnapshotFile
import SomniumDB.Properties.Subscriptions
import SomniumDB.Properties.Tiering
import SomniumDB.Properties.Tombstones
import SomniumDB.Properties.TornLog
import SomniumDB.Properties.Versions
import SomniumDB.Properties.Waking
import SomniumDB.Storage.AofCodec
import SomniumDB.Storage.AofManager
import SomniumDB.Storage.AofRecord
import SomniumDB.Storage.AofRecoveryCodec
import SomniumDB.Storage.AofSync
import SomniumDB.Storage.CountMinSketch
import SomniumDB.Storage.Delivery
import SomniumDB.Storage.EvictionManager
import SomniumDB.Storage.FsUtil
import SomniumDB.Storage.NumberWords
import SomniumDB.Storage.ReplicationWorker
import SomniumDB.Storage.Replicator
import SomniumDB.Storage.ReplyLines
import SomniumDB.Storage.SnapshotLoader
import SomniumDB.Storage.SnapshotManager
import SomniumDB.Storage.SnapshotWriter
