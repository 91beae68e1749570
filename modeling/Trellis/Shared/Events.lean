import Trellis.Shared.World

/-!
# Event helpers

Model of `shared::events` (shared/src/events.rs): every helper is one `publish` with the topics and
the data of the source. The helpers are tagged `simp`, so that a proof sees the `publish` only.
-/

namespace Trellis

variable {S ε : Type}

/-- `events::emit` with a legacy single-symbol topic (shared/src/events.rs:293–295). -/
@[simp] def emit (topic : Symbol) (data : List Val) : Invocation S ε Unit := publish [topic] data

/-! ## Legacy topics -/

def commissionPaid : Symbol := "com_paid"
def referralAccrued : Symbol := "ref_acc"
def referrerSet : Symbol := "ref_set"
def tierConfigSet : Symbol := "tier_cfg"
def treasuryEmergencyWithdraw : Symbol := "t_emrg"
def referralRegistered : Symbol := "ref_reg"
def aidCreated : Symbol := "aid_crt"
def aidClaimed : Symbol := "aid_clm"
def aidSettled : Symbol := "aid_stl"
def aidRefunded : Symbol := "aid_ref"
def paymentTransfer : Symbol := "pay_xfr"
def paymentFee : Symbol := "pay_fee"
def paymentEscrowCreated : Symbol := "pay_esc_c"
def paymentEscrowReleased : Symbol := "pay_esc_r"
def paymentEscrowRefunded : Symbol := "pay_esc_f"

/-! ## Canonical logging -/

/-- Model of `emit_module_initialized` (shared/src/events.rs:217–228). -/
@[simp] def emitModuleInitialized (module : Symbol) (version : ℕ) (caller : Address)
    (initializedAt : ℕ) : Invocation S ε Unit :=
  publish ["logging", "init"]
    [.symbol module, .u32 version, .address caller, .u64 initializedAt]

/-- Model of `emit_action_executed` (shared/src/events.rs:246–258). -/
@[simp] def emitActionExecuted (module action : Symbol) (caller : Address) (success : Bool)
    (executedAt : ℕ) : Invocation S ε Unit :=
  publish ["logging", "action"]
    [.symbol module, .symbol action, .address caller, .bool success, .u64 executedAt]

/-- Model of `emit_permission_changed` (shared/src/events.rs:276–288). -/
@[simp] def emitPermissionChanged (module role : Symbol) (subject : Address) (granted : Bool)
    (changedAt : ℕ) : Invocation S ε Unit :=
  publish ["logging", "perm"]
    [.symbol module, .symbol role, .address subject, .bool granted, .u64 changedAt]

/-! ## Aid -/

/-- Model of `emit_aid_created` (shared/src/events.rs:45–65). -/
@[simp] def emitAidCreated (aidId : ℕ) (donor recipient : Address) (amount : ℤ)
    (createdAt expiresAt : ℕ) : Invocation S ε Unit :=
  publish ["aid", "created"]
    [.u64 aidId, .address donor, .address recipient, .i128 amount, .u64 createdAt, .u64 expiresAt]

/-! ## Treasury -/

/-- Model of `emit_commission_paid` (shared/src/events.rs:114–119). -/
@[simp] def emitCommissionPaid (recipient : Address) (amount : ℤ) (paidAt : ℕ) :
    Invocation S ε Unit :=
  publish ["comm", "paid"] [.address recipient, .i128 amount, .u64 paidAt]

/-- Model of `emit_treasury_deposit` (shared/src/events.rs:126–137). -/
@[simp] def emitTreasuryDeposit (category : Symbol) (depositor : Address)
    (amount newBalance : ℤ) : Invocation S ε Unit :=
  publish ["treasury", "deposit"]
    [.symbol category, .address depositor, .i128 amount, .i128 newBalance]

/-- Model of `emit_treasury_withdrawal` (shared/src/events.rs:144–155). -/
@[simp] def emitTreasuryWithdrawal (category : Symbol) (recipient : Address)
    (amount remainingBalance : ℤ) : Invocation S ε Unit :=
  publish ["treasury", "withdraw"]
    [.symbol category, .address recipient, .i128 amount, .i128 remainingBalance]

/-! ## Roles and proposals -/

/-- Model of `emit_role_granted` (shared/src/events.rs:400–411). -/
@[simp] def emitRoleGranted (admin grantee : Address) (roleName : Symbol) (timestamp : ℕ) :
    Invocation S ε Unit :=
  publish ["role", "granted"]
    [.address admin, .address grantee, .symbol roleName, .u64 timestamp]

/-- Model of `emit_role_revoked` (shared/src/events.rs:550–561). -/
@[simp] def emitRoleRevoked (admin grantee : Address) (roleName : Symbol) (timestamp : ℕ) :
    Invocation S ε Unit :=
  publish ["role", "revoked"]
    [.address admin, .address grantee, .symbol roleName, .u64 timestamp]

/-- Model of `emit_proposal_created` (shared/src/events.rs:568–579). -/
@[simp] def emitProposalCreated (proposalId : ℕ) (proposer : Address) (action : Symbol)
    (timestamp : ℕ) : Invocation S ε Unit :=
  publish ["proposal", "created"]
    [.u64 proposalId, .address proposer, .symbol action, .u64 timestamp]

/-- Model of `emit_proposal_approved` (shared/src/events.rs:586–597). -/
@[simp] def emitProposalApproved (proposalId : ℕ) (approver : Address) (approvalCount : ℕ)
    (timestamp : ℕ) : Invocation S ε Unit :=
  publish ["proposal", "approved"]
    [.u64 proposalId, .address approver, .u32 approvalCount, .u64 timestamp]

/-- Model of `emit_proposal_executed` (shared/src/events.rs:604–615). -/
@[simp] def emitProposalExecuted (proposalId : ℕ) (executor : Address) (approvalCount : ℕ)
    (timestamp : ℕ) : Invocation S ε Unit :=
  publish ["proposal", "executed"]
    [.u64 proposalId, .address executor, .u32 approvalCount, .u64 timestamp]

/-! ## Upgrades -/

/-- Model of `emit_contract_registered` (shared/src/events.rs:302–320). -/
@[simp] def emitContractRegistered (contractId : Address) (name : Symbol) (version : ℕ)
    (wasmHash : Bytes) (registeredAt : ℕ) : Invocation S ε Unit :=
  publish ["upgrade", "upg_reg"]
    [.address contractId, .symbol name, .u32 version, .bytes wasmHash, .u64 registeredAt]

/-- Model of `emit_upgrade_proposed` (shared/src/events.rs:323–341). -/
@[simp] def emitUpgradeProposed (proposalId : ℕ) (contractId : Address) (newVersion : ℕ)
    (proposer : Address) (proposedAt : ℕ) : Invocation S ε Unit :=
  publish ["upgrade", "proposed"]
    [.u64 proposalId, .address contractId, .u32 newVersion, .address proposer, .u64 proposedAt]

/-- Model of `emit_upgrade_executed` (shared/src/events.rs:344–364). -/
@[simp] def emitUpgradeExecuted (proposalId : ℕ) (contractId : Address)
    (oldVersion newVersion : ℕ) (executor : Address) (executedAt : ℕ) : Invocation S ε Unit :=
  publish ["upgrade", "executed"]
    [.u64 proposalId, .address contractId, .u32 oldVersion, .u32 newVersion, .address executor,
      .u64 executedAt]

/-- Model of `emit_migration_hook_set` (shared/src/events.rs:367–372). -/
@[simp] def emitMigrationHookSet (contractId hookAddr : Address) (setAt : ℕ) :
    Invocation S ε Unit :=
  publish ["upgrade", "hook_set"] [.address contractId, .address hookAddr, .u64 setAt]

/-! ## NFT marketplace -/

/-- Model of `emit_nft_listed` (shared/src/events.rs:419–441). -/
@[simp] def emitNftListed (listingId : ℕ) (seller collection : Address) (tokenId : ℕ)
    (price : ℤ) (currency : Address) (listedAt : ℕ) : Invocation S ε Unit :=
  publish ["nft", "listed"]
    [.u64 listingId, .address seller, .address collection, .u64 tokenId, .i128 price,
      .address currency, .u64 listedAt]

/-- Model of `emit_nft_sold` (shared/src/events.rs:444–456). -/
@[simp] def emitNftSold (listingId : ℕ) (seller buyer : Address) (price : ℤ) (soldAt : ℕ) :
    Invocation S ε Unit :=
  publish ["nft", "sold"]
    [.u64 listingId, .address seller, .address buyer, .i128 price, .u64 soldAt]

/-- Model of `emit_nft_offer` (shared/src/events.rs:459–471). -/
@[simp] def emitNftOffer (offerId : ℕ) (offerer : Address) (tokenId : ℕ) (amount : ℤ)
    (expiresAt : ℕ) : Invocation S ε Unit :=
  publish ["nft", "offer"]
    [.u64 offerId, .address offerer, .u64 tokenId, .i128 amount, .u64 expiresAt]

/-- Model of `emit_nft_bid` (shared/src/events.rs:474–479). -/
@[simp] def emitNftBid (auctionId : ℕ) (bidder : Address) (amount : ℤ) (newEnd : ℕ) :
    Invocation S ε Unit :=
  publish ["nft", "bid"] [.u64 auctionId, .address bidder, .i128 amount, .u64 newEnd]

/-- Model of `emit_nft_auction` (shared/src/events.rs:482–502). -/
@[simp] def emitNftAuction (auctionId : ℕ) (seller collection : Address) (tokenId : ℕ)
    (startPrice : ℤ) (endTime : ℕ) : Invocation S ε Unit :=
  publish ["nft", "auction"]
    [.u64 auctionId, .address seller, .address collection, .u64 tokenId, .i128 startPrice,
      .u64 endTime]

/-- Model of `emit_nft_settle` (shared/src/events.rs:505–516). -/
@[simp] def emitNftSettle (auctionId : ℕ) (winner : Address) (finalPrice : ℤ)
    (settledAt : ℕ) : Invocation S ε Unit :=
  publish ["nft", "settle"]
    [.u64 auctionId, .address winner, .i128 finalPrice, .u64 settledAt]

/-- Model of `emit_royalty_paid` (shared/src/events.rs:519–530). -/
@[simp] def emitRoyaltyPaid (tokenId : ℕ) (recipient : Address) (amount : ℤ) (paidAt : ℕ) :
    Invocation S ε Unit :=
  publish ["nft", "royal"] [.u64 tokenId, .address recipient, .i128 amount, .u64 paidAt]

/-- Model of `emit_collection_registered` (shared/src/events.rs:533–543). -/
@[simp] def emitCollectionRegistered (collection admin : Address) (registeredAt : ℕ) :
    Invocation S ε Unit :=
  publish ["nft", "col_reg"] [.address collection, .address admin, .u64 registeredAt]

end Trellis
