import Resonance.Foundation.StateMachine
import Resonance.Foundation.Storage
import Resonance.Foundation.FirstMaximum
import Resonance.Foundation.RingBuffer
import Resonance.Foundation.Positional
import Resonance.Foundation.Stamps
import Resonance.Foundation.Remainders
import Resonance.Foundation.OrderStatistics
import Resonance.Client.HeaderTree
import Resonance.Client.CommonAncestor
import Resonance.Client.BestChain
import Resonance.Client.ForkPoint
import Resonance.Client.ReorgDepth
import Resonance.Client.Finality
import Resonance.Client.PowImport
import Resonance.Client.ForkChoice
import Resonance.Client.IgnoredChains
import Resonance.Balances.Accounts
import Resonance.Balances.Transfers
import Resonance.Balances.Plain
import Resonance.Balances.Deposits
import Resonance.Balances.TransferProofs
import Resonance.Balances.AccountStore
import Resonance.Balances.AccountWrites
import Resonance.Balances.ImplFungible
import Resonance.Balances.ImplCurrency
import Resonance.Balances.Moves
import Resonance.Balances.Dispatchables
import Resonance.Balances.Freezing
import Resonance.Balances.NamedReserves
import Resonance.Balances.Machine
import Resonance.Balances.Effects
import Resonance.Balances.Failures
import Resonance.Balances.References
import Resonance.Balances.Invariants
import Resonance.Balances.Books
import Resonance.Balances.Collections
import Resonance.Balances.Frozen
import Resonance.Balances.Backing
import Resonance.Balances.Views
import Resonance.Frame.Scheduler
import Resonance.ReversibleTransfers.Pallet
import Resonance.ReversibleTransfers.Outcomes
import Resonance.ReversibleTransfers.Steps
import Resonance.ReversibleTransfers.Accounting
import Resonance.ReversibleTransfers.CleanUp
import Resonance.ReversibleTransfers.TaskNames
import Resonance.ReversibleTransfers.Release
import Resonance.Runtime.Calls
import Resonance.Runtime.ReversibleExtension
import Resonance.Runtime.Interception
import Resonance.Runtime.Extrinsics
import Resonance.Runtime.TransferProofs
import Resonance.MerkleAirdrop.MerkleProofs
import Resonance.MerkleAirdrop.Steps
import Resonance.MerkleAirdrop.Accounting
import Resonance.MerkleAirdrop.UnsignedClaims
import Resonance.MerkleAirdrop.Solvency
import Resonance.MerkleAirdrop.Recovery
import Resonance.MerkleAirdrop.VestingSchedules
import Resonance.MiningRewards.Pallet
import Resonance.MiningRewards.Conservation
import Resonance.Wormhole.Pallet
import Resonance.Wormhole.Withdrawals
import Resonance.Wormhole.PublicInputs
import Resonance.DilithiumCrypto.SignatureWithPublic
import Resonance.QPow.Panics
import Resonance.QPow.Verification
import Resonance.QPow.Window
import Resonance.QPow.Adjustment
import Resonance.QPow.Median
import Resonance.QPow.Cadence
import Resonance.QPow.SquareAndMultiply
import Resonance.QPow.Primality
import Resonance.QPow.RsaSearch
import Resonance.Client.TotalWork
import Resonance.Client.MiningSubmit
import Resonance.Node.MiningLoop
import Resonance.ExternalMiner.Protocol
