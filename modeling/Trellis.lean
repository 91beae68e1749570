import Trellis.Lib.Custody
import Trellis.Shared.World
import Trellis.Shared.Auth
import Trellis.Shared.Batch
import Trellis.Shared.BatchAtomicity
import Trellis.Lib.Holding
import Trellis.Aid.Contract
import Trellis.Aid.Escrow
import Trellis.Governance.Contract
import Trellis.Governance.Proposals
import Trellis.Governance.Quorum
import Trellis.Payments.Contract
import Trellis.Payments.Solvency
import Trellis.Market.Contract
import Trellis.Market.Transitions
import Trellis.Market.Invariant
import Trellis.Market.Sales
import Trellis.Market.Solvency
import Trellis.Market.Effects
import Trellis.Market.Records
import Trellis.Market.Custody
import Trellis.Market.Bidding
import Trellis.Market.Royalties
import Trellis.Market.Expiry
import Trellis.Treasury.Contract
import Trellis.Registry.Contract
import Trellis.Shared.Calls
import Trellis.Upgrade.Contract
import Trellis.Referral.Contract
import Trellis.Suite.Admin
import Trellis.Lib.Marks
import Trellis.Upgrade.Proposals
import Trellis.Upgrade.Versions
import Trellis.Upgrade.Authority
import Trellis.Upgrade.Registry
import Trellis.Lib.Climb
import Trellis.Lib.Loop
import Trellis.Referral.Graph
import Trellis.Referral.Rewards
import Trellis.Governance.Threshold
import Trellis.Shared.Escrow
import Trellis.Payments.Escrow
import Trellis.AccessControl.Contract
import Trellis.AccessControl.Hierarchy
import Trellis.Lib.Journal
import Trellis.Treasury.Log
import Trellis.Treasury.Outflow
import Trellis.Suite.Pause
import Trellis.Lib.Lockstep
import Trellis.Market.Bulk
import Trellis.Market.RoyaltyTables
import Trellis.Market.Settlement
import Trellis.Market.Statistics
import Trellis.Market.Extension
import Trellis.Payments.Deposits
import Trellis.Payments.Journal
import Trellis.Aid.Mirror
import Trellis.Lib.Pages
import Trellis.Aid.Indexes
import Trellis.AccessControl.Enumerations
import Trellis.AccessControl.Membership
import Trellis.Registry.Laws
import Trellis.Referral.Records
import Trellis.Referral.Accrual
import Trellis.Governance.Parameters
import Trellis.Payments.Expired
import Trellis.Aid.Pause
import Trellis.Aid.Authority
import Trellis.Shared.Reentrancy
import Trellis.Suite.Fees
import Trellis.Shared.Deduction
import Trellis.Payments.Splitting
import Trellis.Market.DutchPrice
import Trellis.Shared.BatchInvoke
import Trellis.Aid.Pagination
import Trellis.Upgrade.History
import Trellis.Shared.ActiveEscrows
import Trellis.Shared.RoleLifetime
import Trellis.Lib.Joint
import Trellis.Shared.Draws
import Trellis.Suite.Draws
import Trellis.Suite.Chain
import Trellis.Suite.ChainLedger
import Trellis.Suite.ChainSolvency
import Trellis.Lib.Replay
import Trellis.Lib.Deal
import Trellis.Lib.Sweep
import Trellis.Shared.EventLog
import Trellis.Aid.EventLog
import Trellis.Payments.EscrowLog
import Trellis.AccessControl.EventLog
import Trellis.Referral.EventLog
import Trellis.Aid.Drain
import Trellis.Market.Exits
import Trellis.Market.Offers
import Trellis.Lib.Spend
import Trellis.Payments.Exits
import Trellis.Lib.Lineage
import Trellis.AccessControl.Chart
import Trellis.Governance.Ballot
import Trellis.Lib.Pool
import Trellis.Suite.Rewards
import Trellis.Suite.Claims
import Trellis.Suite.ChainExits
import Trellis.Lib.Origin
import Trellis.Market.Purchases
import Trellis.Market.DutchSales
