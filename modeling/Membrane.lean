import Membrane.Data.HybridClock
import Membrane.Data.Merge
import Membrane.Index.IndexRuns
import Membrane.Network.Migration
import Membrane.Persistence.Audit
import Membrane.Persistence.CachingPersistence
import Membrane.Persistence.RedisRecords
import Membrane.Persistence.Restart
import Membrane.Persistence.Snapshot
import Membrane.Persistence.WriterStop
import Membrane.Services.AdapterWire
import Membrane.Services.BlobImmutability
import Membrane.Services.KvTransfer
import Membrane.Services.MissingSegments
import Membrane.Services.Optimizer
import Membrane.Services.Resolution
import Membrane.Services.RoutingIsolation
import Membrane.Services.Scheduler
import Membrane.Serving.CreditedReads
import Membrane.Serving.KeySeparation
import Membrane.Serving.PromotedFragments
import Membrane.Serving.SideTables
import Membrane.Serving.StoredLifetimes
import Membrane.Store.BlobPaths
import Membrane.Store.Fp8Rounding
import Membrane.Store.QuantizingStore
import Membrane.Store.Reencryption
import Membrane.Transport.ChunkCursor
import Membrane.Transport.ConcurrencyLimit
import Membrane.Transport.DeleteEffect
import Membrane.Transport.Deletions
import Membrane.Transport.DepartedPeers
import Membrane.Transport.InventoryPaging
import Membrane.Transport.MerkleDiff
import Membrane.Transport.RateLimit
import Membrane.Transport.RepairSkips
import Membrane.Transport.RepairTries
import Membrane.Transport.SuspectedPeers
import Membrane.Transport.TombstoneRuns
import Membrane.Transport.TransferService
import Membrane.Transport.Verify
import Membrane.Transport.Writers
