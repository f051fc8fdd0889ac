import RethHl.Data.BigEndian
import RethHl.Data.LruMap
import RethHl.Data.OrderedTable
import RethHl.Data.RangeMap
import RethHl.Data.Rlp
import RethHl.Data.SlashPath
import RethHl.Data.FileSystem
import RethHl.Data.TextLines
import RethHl.Semantics.AtomicReads
import RethHl.Semantics.SharedState
import RethHl.Semantics.Buffered
import RethHl.Semantics.Machine
import RethHl.Semantics.Retry
import RethHl.Semantics.Channel
import RethHl.Semantics.Deadline
import RethHl.Node.Types
import RethHl.Node.BlockRlp
import RethHl.Node.PseudoSigner
import RethHl.Node.RethCompat
import RethHl.Node.Storage
import RethHl.Compliance.Model
import RethHl.Compliance.Views
import RethHl.Compliance.Totality
import RethHl.Compliance.TagReads
import RethHl.Compliance.Logs
import RethHl.Compliance.Subscription
import RethHl.Compliance.SystemTxs
import RethHl.Evm.Precompiles
import RethHl.Evm.PrecompileTable
import RethHl.Evm.TxEnv
import RethHl.Evm.Executor
import RethHl.Evm.Accounting
import RethHl.Evm.Replay
import RethHl.Evm.Trace
import RethHl.Evm.Assembler
import RethHl.Evm.Config
import RethHl.Evm.BlockHash
import RethHl.Compliance.Imported
import RethHl.Consensus.PostExecution
import RethHl.Consensus.Classification
import RethHl.Consensus.HeaderChain
import RethHl.Addons.TxForwarder
import RethHl.Network.BlockImport
import RethHl.Network.ForkChoice
import RethHl.Network.Completion
import RethHl.PseudoPeer.Sources.Utils
import RethHl.PseudoPeer.Sources.S3
import RethHl.PseudoPeer.Sources.Local
import RethHl.PseudoPeer.Sources.Cached
import RethHl.PseudoPeer.HlNode.Scan
import RethHl.PseudoPeer.HlNode.Runs
import RethHl.PseudoPeer.HlNode.Tail
import RethHl.PseudoPeer.HlNode.FileOps
import RethHl.PseudoPeer.HlNode.Cache
import RethHl.PseudoPeer.HlNode.Backfill
import RethHl.PseudoPeer.HlNode.Rollover
import RethHl.PseudoPeer.HlNode.LastLine
import RethHl.PseudoPeer.HlNode.Latest
import RethHl.PseudoPeer.HlNode.LocalSource
import RethHl.PseudoPeer.HlNode.LocalRuns
import RethHl.PseudoPeer.HlNode.Origin
import RethHl.PseudoPeer.HlNode.CollectBlock
import RethHl.PseudoPeer.LruBiMap
import RethHl.PseudoPeer.BoundedBiMap
import RethHl.PseudoPeer.Service
import RethHl.PseudoPeer.Sources.Stack
import RethHl.PseudoPeer.HashLookup
import RethHl.PseudoPeer.Headers
import RethHl.PseudoPeer.Poller
import RethHl.PseudoPeer.Feed
import RethHl.PseudoPeer.Progress
