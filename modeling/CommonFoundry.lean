import CommonFoundry.Consensus.Accelerator
import CommonFoundry.Consensus.ApplyTransaction
import CommonFoundry.Consensus.BlockSize
import CommonFoundry.Consensus.ChainRun
import CommonFoundry.Consensus.ChainState
import CommonFoundry.Consensus.ChannelChain
import CommonFoundry.Consensus.ChannelClose
import CommonFoundry.Consensus.ChannelNext
import CommonFoundry.Consensus.ChannelRegistry
import CommonFoundry.Consensus.ChannelTotality
import CommonFoundry.Consensus.Conservation
import CommonFoundry.Consensus.CubicReduction
import CommonFoundry.Consensus.Difficulty
import CommonFoundry.Consensus.Economics
import CommonFoundry.Consensus.Emission
import CommonFoundry.Consensus.Fingerprint
import CommonFoundry.Consensus.ForgeMatrix
import CommonFoundry.Consensus.ForgeMatrixAgreement
import CommonFoundry.Consensus.ForgeMatrixReduction
import CommonFoundry.Consensus.ForgeMatrixV1
import CommonFoundry.Consensus.Goldilocks
import CommonFoundry.Consensus.HeaderChain
import CommonFoundry.Consensus.HonestOutput
import CommonFoundry.Consensus.Identity
import CommonFoundry.Consensus.KeySpend
import CommonFoundry.Consensus.ModelBank
import CommonFoundry.Consensus.ModelBankExact
import CommonFoundry.Consensus.Network
import CommonFoundry.Consensus.OrderIndependence
import CommonFoundry.Consensus.Outpoints
import CommonFoundry.Consensus.OverlayDelta
import CommonFoundry.Consensus.PowVerifier
import CommonFoundry.Consensus.Preflight
import CommonFoundry.Consensus.Preimage
import CommonFoundry.Consensus.Retarget
import CommonFoundry.Consensus.Spending
import CommonFoundry.Consensus.Sumcheck
import CommonFoundry.Consensus.SumcheckCompleteness
import CommonFoundry.Consensus.SumcheckRun
import CommonFoundry.Consensus.SumcheckSoundness
import CommonFoundry.Consensus.SumcheckTables
import CommonFoundry.Consensus.Supply
import CommonFoundry.Consensus.Transaction
import CommonFoundry.Consensus.TransactionLedger
import CommonFoundry.Consensus.TwoPhaseCommit
import CommonFoundry.Consensus.Unrelated
import CommonFoundry.Consensus.Utxo
import CommonFoundry.Consensus.Wire
import CommonFoundry.Consensus.WireCanonical
import CommonFoundry.Consensus.WireLimits
import CommonFoundry.Consensus.WireRoundTrip
import CommonFoundry.Consensus.WireSize
import CommonFoundry.Gpu.Arithmetic
import CommonFoundry.Gpu.Context
import CommonFoundry.Gpu.Kernel
import CommonFoundry.Gpu.KernelAgreement
import CommonFoundry.Gpu.Stage
import CommonFoundry.Lib.Barrier
import CommonFoundry.Lib.Blocks
import CommonFoundry.Lib.Bytes
import CommonFoundry.Lib.Canonical
import CommonFoundry.Lib.ChunkedReader
import CommonFoundry.Lib.Codec
import CommonFoundry.Lib.Crash
import CommonFoundry.Lib.Decimal
import CommonFoundry.Lib.Delta
import CommonFoundry.Lib.Dialogue
import CommonFoundry.Lib.FirstGreatest
import CommonFoundry.Lib.FloorSum
import CommonFoundry.Lib.Greedy
import CommonFoundry.Lib.Grid
import CommonFoundry.Lib.InterruptedReader
import CommonFoundry.Lib.KeyMap
import CommonFoundry.Lib.Ledger
import CommonFoundry.Lib.Lock
import CommonFoundry.Lib.MerkleTree
import CommonFoundry.Lib.Method
import CommonFoundry.Lib.Multilinear
import CommonFoundry.Lib.OneTime
import CommonFoundry.Lib.OrderStatistic
import CommonFoundry.Lib.Outcome
import CommonFoundry.Lib.ParentTree
import CommonFoundry.Lib.Pattern
import CommonFoundry.Lib.PowerPermutation
import CommonFoundry.Lib.Primitives
import CommonFoundry.Lib.ReadUntil
import CommonFoundry.Lib.Reveals
import CommonFoundry.Lib.RoundPolynomial
import CommonFoundry.Lib.Sampling
import CommonFoundry.Lib.Schedule
import CommonFoundry.Lib.Search
import CommonFoundry.Lib.Weight
import CommonFoundry.Lib.Word
import CommonFoundry.Marketplace.Channel
import CommonFoundry.Marketplace.Verification
import CommonFoundry.Miner.NoncePartition
import CommonFoundry.Miner.Shutdown
import CommonFoundry.Miner.Workers
import CommonFoundry.Node.ActiveBranch
import CommonFoundry.Node.Admission
import CommonFoundry.Node.Atomicity
import CommonFoundry.Node.BlockIndex
import CommonFoundry.Node.BlockLog
import CommonFoundry.Node.BlockTree
import CommonFoundry.Node.Convergence
import CommonFoundry.Node.DataDirectory
import CommonFoundry.Node.Extend
import CommonFoundry.Node.ForkChoice
import CommonFoundry.Node.Inventory
import CommonFoundry.Node.Locator
import CommonFoundry.Node.LogRead
import CommonFoundry.Node.Mempool
import CommonFoundry.Node.MempoolInvariant
import CommonFoundry.Node.MempoolPull
import CommonFoundry.Node.Mining
import CommonFoundry.Node.MiningBatch
import CommonFoundry.Node.Node
import CommonFoundry.Node.NodeRun
import CommonFoundry.Node.PeerBudget
import CommonFoundry.Node.PeerClient
import CommonFoundry.Node.PeerCodec
import CommonFoundry.Node.PeerConnection
import CommonFoundry.Node.PeerFrame
import CommonFoundry.Node.PeerLink
import CommonFoundry.Node.PeerNetwork
import CommonFoundry.Node.PeerService
import CommonFoundry.Node.PeerSession
import CommonFoundry.Node.Pending
import CommonFoundry.Node.Pool
import CommonFoundry.Node.PoolAnswers
import CommonFoundry.Node.PoolCredit
import CommonFoundry.Node.PoolFrame
import CommonFoundry.Node.PoolLedger
import CommonFoundry.Node.PoolMoves
import CommonFoundry.Node.PoolProgress
import CommonFoundry.Node.PoolRun
import CommonFoundry.Node.PoolSections
import CommonFoundry.Node.PoolServes
import CommonFoundry.Node.PoolSession
import CommonFoundry.Node.PoolShares
import CommonFoundry.Node.PoolShutdown
import CommonFoundry.Node.PoolSlots
import CommonFoundry.Node.Reopen
import CommonFoundry.Node.Restart
import CommonFoundry.Node.RpcRequest
import CommonFoundry.Node.Sync
import CommonFoundry.Node.SyncRun
import CommonFoundry.Node.Template
import CommonFoundry.Node.TipHistory
import CommonFoundry.Node.TwoNodes
import CommonFoundry.Node.Wallet
import CommonFoundry.Node.WalletHistory
import CommonFoundry.Node.WalletHistoryExact
import CommonFoundry.Node.WalletSpend
import CommonFoundry.Platform
import CommonFoundry.Wallet.Amount
import CommonFoundry.Wallet.MiningLifecycle
import CommonFoundry.Wallet.MiningManager
import CommonFoundry.Wallet.MiningSections
