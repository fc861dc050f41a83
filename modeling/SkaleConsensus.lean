import SkaleConsensus.BinConsensus.BinaryValues
import SkaleConsensus.BinConsensus.CoinAvailability
import SkaleConsensus.BinConsensus.Restart
import SkaleConsensus.BinConsensus.RoundWindow
import SkaleConsensus.BinConsensus.Uniformity
import SkaleConsensus.Block.CachedList
import SkaleConsensus.Block.MerkleRoot
import SkaleConsensus.BlockConsensus.Chains
import SkaleConsensus.Catchup.Ranges
import SkaleConsensus.Catchup.Server
import SkaleConsensus.Crypto.Rotation
import SkaleConsensus.Db.BlockSigShareDB
import SkaleConsensus.Db.Destroy
import SkaleConsensus.Db.MsgDB
import SkaleConsensus.Finalize.Bookkeeping
import SkaleConsensus.Finalize.DefaultBlock
import SkaleConsensus.Finalize.Requested
import SkaleConsensus.Finalize.Returned
import SkaleConsensus.Finalize.RoundTrip
import SkaleConsensus.Network.Deferred
import SkaleConsensus.Network.DelayedDrain
import SkaleConsensus.Network.SignedHashes
import SkaleConsensus.Oracle.ReceivedResults
import SkaleConsensus.PendingQueue.KnownTransactions
import SkaleConsensus.Proposal.ProposalDB
import SkaleConsensus.Proposal.Push
import SkaleConsensus.Proposal.Reproposal
import SkaleConsensus.Schain.Bootstrap
import SkaleConsensus.Schain.CommitLock
import SkaleConsensus.Schain.Commits
import SkaleConsensus.Schain.Prices
import SkaleConsensus.Schain.Randomness
import SkaleConsensus.Schain.StartConsensus
