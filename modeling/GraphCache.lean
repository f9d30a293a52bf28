import GraphCache.ExactHit
import GraphCache.Records
import GraphCache.Recovery
import GraphCache.Restart
import GraphCache.Invalidation
import GraphCache.CpuBackend
import GraphCache.Completion
import GraphCache.Replayable
import GraphCache.Routing
import GraphCache.Authority
import GraphCache.Attempts
import GraphCache.Connections
import GraphCache.StaleCapture
import GraphCache.Generations
import GraphCache.SingleCapture
import GraphCache.Identity
import GraphCache.Holdings
import GraphCache.Tenants
import GraphCache.Directories
import GraphCache.Interference
import GraphCache.Listings
import GraphCache.Reloads
import GraphCache.Revocation
import GraphCache.Lifetimes
import GraphCache.LeaseCalls
import GraphCache.Wire
import GraphCache.Stored
import GraphCache.KeyCodec
import GraphCache.ExactKeys
import GraphCache.Dependencies
import GraphCache.KeyOrder
import GraphCache.Rebinding
import GraphCache.Lifecycle
import GraphCache.Eviction
import GraphCache.Finalization
import GraphCache.ExecutionOrder
import GraphCache.Chunks
import GraphCache.Frames
import GraphCache.Reassembly
import GraphCache.Envelopes
import GraphCache.FileStore
import GraphCache.CudaBackend
import GraphCache.ReplayBounds
import GraphCache.Agreement
import GraphCache.Contents
import GraphCache.ReadBack
import GraphCache.KeyBounds
import GraphCache.Decisions
import GraphCache.Shapes
import GraphCache.GraphFacts
import GraphCache.FixedBindings
import GraphCache.Searches
import GraphCache.Balances
import GraphCache.Framing
import GraphCache.BlockStreams
import GraphCache.Fips180
import GraphCache.Sha256Standard
import GraphCache.RaceFreedom
import GraphCache.LeaseBooks
import GraphCache.LedgerRefinement
import GraphCache.QuietLookups
import GraphCache.Serial
import GraphCache.Sockets
import GraphCache.RemoteReplay
import GraphCache.Explanations
