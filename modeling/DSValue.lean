import DSValue.Lib.Encoding
import DSValue.Lib.MachineInt
import DSValue.Lib.OrderedMap
import DSValue.Core.Serialize
import DSValue.Core.Header
import DSValue.Script.Scan
import DSValue.Core.Transaction
import DSValue.Lotto.Bet
import DSValue.Consensus.TxOut
import DSValue.Lib.Double
import DSValue.Lotto.Draw
import DSValue.Lotto.Tickets
import DSValue.Lotto.Payout
import DSValue.Consensus.Drawable
import DSValue.Consensus.CheckLottoResult
import DSValue.Consensus.CheckBlock
import DSValue.Consensus.ConnectBlock
import DSValue.Consensus.QuietChain
import DSValue.Consensus.BitcoinSequence
import DSValue.Consensus.BetChain
import DSValue.Consensus.Settlement
import DSValue.Consensus.PoolAccounting
import DSValue.Chain.BestChain
import DSValue.Chain.Selection
import DSValue.Chain.Activation
import DSValue.Chain.Passes
import DSValue.Chain.Termination
import DSValue.Chain.BlockIndex
import DSValue.Chain.Reorganisation
import DSValue.Lib.Stream
import DSValue.Core.Deserialize
import DSValue.Lib.KeepFirst
import DSValue.Sync.SyncData
import DSValue.Sync.CheckpointStore
import DSValue.Sync.Separation
import DSValue.Consensus.TipHeight
import DSValue.Core.Compress
import DSValue.Core.CoinsCodec
import DSValue.Coins.Cache
import DSValue.Coins.Transparent
import DSValue.Coins.Disconnect
import DSValue.Coins.Reversal
import DSValue.Coins.RoundTrip
import DSValue.Mempool.Accept
import DSValue.Mempool.BettingRules
import DSValue.Coins.Availability
import DSValue.Mempool.Tip
import DSValue.Mempool.Consistency
import DSValue.Mempool.Runs
import DSValue.Lotto.Validity
import DSValue.Lib.Choices
import DSValue.Lotto.Enumeration
import DSValue.Lib.FirstDistinct
import DSValue.Lotto.LuckyNumbers
import DSValue.Consensus.Classification
import DSValue.Consensus.Verdict
import DSValue.Mempool.BetValue
import DSValue.Consensus.DrawOrder
import DSValue.Consensus.Solvency
import DSValue.Consensus.Proportion
import DSValue.Chain.CheckActiveChain
import DSValue.Lib.Descending
import DSValue.Lib.Descent
import DSValue.Chain.Runs
import DSValue.Chain.BitcoinRollback
import DSValue.Chain.BranchSweep
import DSValue.Chain.CheckpointEnforcement
import DSValue.Core.StoredSize
import DSValue.Core.VarIntBuffer
import DSValue.Lib.Merkle
import DSValue.Merkle.BlockTree
import DSValue.Merkle.RootBinding
import DSValue.Lib.PrunedTree
import DSValue.Merkle.PartialTree
import DSValue.Merkle.Extraction
import DSValue.Consensus.Compact
import DSValue.Consensus.DarkGravity
import DSValue.Bitcoin.HeaderTree
import DSValue.Bitcoin.Retargeting
import DSValue.Chain.Locator
import DSValue.Chain.ForkSearch
import DSValue.Consensus.HeaderCopy
import DSValue.Lib.TableOps
import DSValue.Script.Solver
import DSValue.Coins.AddressTotal
import DSValue.Chain.VectorChain
import DSValue.Lib.Chunks
import DSValue.Lib.Bijective
import DSValue.Bitcoin.MessageFraming
import DSValue.Mempool.OrphanTxs
import DSValue.Script.PushCodec
import DSValue.Chain.OrphanBlocks
import DSValue.Consensus.BetScan
import DSValue.Lotto.ObjectFile
import DSValue.Lib.Marks
import DSValue.Wallet.CoinSelection
import DSValue.Wallet.MinFee
import DSValue.Wallet.CreateTransaction
import DSValue.Script.CodeSeparators
import DSValue.Script.SignatureHash
import DSValue.Chain.BlockFiles
import DSValue.Chain.BufferedFile
import DSValue.Chain.BlockImport
import DSValue.Lib.Drain
import DSValue.Bitcoin.PeerMessages
import DSValue.Bitcoin.ParseMessage
import DSValue.Bitcoin.MessageQueue
import DSValue.Bitcoin.HandledMessages
import DSValue.Bitcoin.MessageQueue
import DSValue.Bitcoin.ChainManager
import DSValue.Bitcoin.HeaderChoice
import DSValue.Bitcoin.StoredHeaders
import DSValue.Bitcoin.AddedHeaders
import DSValue.Bitcoin.MostWork
import DSValue.Lib.SignMagnitude
import DSValue.Script.Number
import DSValue.Lib.Machine
import DSValue.Script.SignatureFormat
import DSValue.Script.Interpreter
import DSValue.Script.Execution
import DSValue.Lib.Matching
import DSValue.Script.StandardOutputs
import DSValue.Script.MultiSig
import DSValue.Script.Bounds
import DSValue.Script.SigOps
import DSValue.Lib.System
import DSValue.Script.SignatureCache
import DSValue.Consensus.CheckQueue
import DSValue.Script.Blocks
import DSValue.Miner.BlockTemplate
import DSValue.Miner.Selection
import DSValue.Miner.Connecting
import DSValue.Miner.Progress
import DSValue.Script.Pushes
