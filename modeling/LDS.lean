import LDS.Library.Program
import LDS.Library.Total
import LDS.Library.Method
import LDS.Library.Trace
import LDS.Library.Memory
import LDS.Library.Service
import LDS.Library.Linearization
import LDS.Library.Commutation
import LDS.Library.Bytes
import LDS.Library.PriorityQueue
import LDS.Library.Counting
import LDS.Library.InputStream
import LDS.Library.Records
import LDS.Library.Batches
import LDS.Library.Monitor
import LDS.Storage.DriverData
import LDS.Storage.Minion
import LDS.Storage.StorageMinionFile
import LDS.Storage.MetadataStore
import LDS.Storage.AddressMap
import LDS.Storage.RAIDStorage
import LDS.Storage.IStorage
import LDS.Storage.Device
import LDS.Storage.Requests
import LDS.Storage.Failover
import LDS.Storage.PartialWrite
import LDS.Storage.Mirroring
import LDS.Storage.Refinement
import LDS.Storage.Bounds
import LDS.Storage.ConcurrentWrites
import LDS.Storage.DisjointWriters
import LDS.Storage.FileMetadataStore
import LDS.Storage.MetadataFile
import LDS.Storage.Scripts
import LDS.Storage.StorageFactory
import LDS.Storage.Restart
import LDS.Storage.SaveFailures
import LDS.Storage.GeometryChange
import LDS.Storage.Linearizability
import LDS.Storage.Provenance
import LDS.Storage.SingleStripe
import LDS.Storage.Restarts
import LDS.Storage.RecordedSize
import LDS.Storage.Backends
import LDS.Storage.StoredRanges
import LDS.Storage.Passes
import LDS.Storage.Outcomes
import LDS.Storage.Stripes
import LDS.Server.ServerCall
import LDS.Server.Socket
import LDS.Server.TCPDriverComm
import LDS.Server.NBDDriverComm
import LDS.Server.NBDMode
import LDS.Server.InputMediator
import LDS.Server.Server
import LDS.Server.ListenSocket
import LDS.Server.ReplyRouting
import LDS.Server.ReplyFrames
import LDS.Server.RequestFrames
import LDS.Server.ReplyDecoding
import LDS.Server.ListOffsets
import LDS.Server.ConnectionTables
import LDS.Server.Allocations
import LDS.Server.AllocationFile
import LDS.Server.Arrivals
import LDS.Server.OneReply
import LDS.Server.Durability
import LDS.Server.Survival
import LDS.Server.ReactorLoop
import LDS.Server.RequestPool
import LDS.Server.RequestStreams
import LDS.Server.ReplyStreams
import LDS.Server.Conversations
import LDS.Server.DeviceRequests
import LDS.Threading.ThreadPool
import LDS.Threading.Stopping
import LDS.Threading.RequestOrder
import LDS.Threading.WPQ
import LDS.Threading.Sessions
import LDS.Threading.Resizing
import LDS.Threading.Suspension
import LDS.Threading.Suspended
import LDS.Threading.Singleton
import LDS.Plugins.DirMonitor
import LDS.Plugins.Dispatcher
import LDS.Client.TCPBlockDeviceClient
import LDS.Client.Session
import LDS.Client.Matching
