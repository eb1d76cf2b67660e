import ChronoDB.Wal.Sequence
import ChronoDB.Wal.AsyncLoss
import ChronoDB.Wal.Cleanup
import ChronoDB.Flush.Persistence
import ChronoDB.Flush.Interleaving
import ChronoDB.Compaction.Order
import ChronoDB.Compaction.Restart
import ChronoDB.Query.SelectorModifiers
import ChronoDB.Query.Trailing
import ChronoDB.Query.RangeSelector
import ChronoDB.Query.Normalization
import ChronoDB.Query.BlockRanges
import ChronoDB.Raft.LogMatching
import ChronoDB.Columnstore.WholeBlock
import ChronoDB.Columnstore.DamagedBlock
import ChronoDB.Columnstore.DamagedIndex
import ChronoDB.Query.DownsampleReads
import ChronoDB.Downsample.PoolLock
import ChronoDB.Distributed.Forwarding
import ChronoDB.Distributed.Mirror
import ChronoDB.Distributed.Failover
import ChronoDB.Distributed.Promotion
import ChronoDB.Distributed.QueryRouter
import ChronoDB.Distributed.ConsistentHash
import ChronoDB.Distributed.Completeness
import ChronoDB.Distributed.TaskMirror
import ChronoDB.Distributed.ReplicationLog
import ChronoDB.Distributed.Silence
import ChronoDB.Rules.Recording
import ChronoDB.Distributed.Deadlocks
import ChronoDB.Query.ParametricAnswers
import ChronoDB.Migration.Lossless
import ChronoDB.Tiered.ReadBack
import ChronoDB.Backup.Restorable
import ChronoDB.Raft.FollowerCommit
import ChronoDB.Raft.VotesOnce
import ChronoDB.Raft.MajorityCommit
import ChronoDB.Memstore.Identity
import ChronoDB.Compression.Simple8b
import ChronoDB.Memstore.ChunkCodec
import ChronoDB.Downsample.Partition
import ChronoDB.Index.Listings
import ChronoDB.Index.BitmapIndex
import ChronoDB.Index.BloomRuns
import ChronoDB.Rules.PreAggregation
import ChronoDB.Rules.Scheduler
import ChronoDB.Distributed.RpcRetries
import ChronoDB.Server.QueryExact
import ChronoDB.Distributed.Aggregation
import ChronoDB.Query.Subqueries
import ChronoDB.Query.Counters
import ChronoDB.Query.Safety
import ChronoDB.Query.TimeShards
import ChronoDB.Query.Vectorized
import ChronoDB.Query.QueryCache
import ChronoDB.Summary.Generator
import ChronoDB.Server.Auth
import ChronoDB.Remote.Writer
import ChronoDB.Server.Exposition
