import Trellis.Aid.Contract
import Trellis.Market.Contract
import Trellis.Payments.Contract
import Trellis.Shared.Draws

/-!
# What the entry points can draw

The aid contract, the payments contract and the marketplace hold tokens of their users. Every call
of one of them moves tokens only from the contract itself and from addresses that signed the call.

Results:
* `Aid.exec_draws`, `Payments.exec_draws`, `Market.exec_draws`: the transfers of a call, for every
  entry point.
-/

-- an answer counts every statement of an entry point at least once
set_option synthInstance.maxSize 4096

namespace Trellis

variable {me : Address}

/-- Some transfers that `env` allows, made one after the other, lead from the balances `l` to
    `l'`. -/
def Drawn (env : Env me) (l l' : TokenLedger) : Prop :=
  ∃ xs, env.AllowsAll l xs ∧ l' = l.moveAll xs

variable {S : Type} {env : Env me}

/-- The loop of a batch of transfers. -/
instance Draws.runTransfers {token caller : Address} {mode : BatchMode} {xs : List BatchTransfer}
    {t : Tally} : Draws env (runTransfers env token caller mode xs t :
      Invocation S BatchError Tally) := by
  induction xs generalizing t with
  | nil => exact Draws.pure t
  | cons x xs ih =>
    unfold Trellis.runTransfers
    cases validateTransfer x with
    | error e => cases mode <;> infer_instance
    | ok u =>
      cases mode with
      | atomic =>
        unfold executeSingleTransfer
        refine Draws.andThen inferInstance fun result => ?_
        cases result <;> infer_instance
      | nonAtomic =>
        have hsingle : Draws env (executeSingleTransfer env token caller x .nonAtomic :
            Invocation S BatchError OperationResult) := by
          unfold executeSingleTransfer
          refine Draws.andThen inferInstance fun result => ?_
          cases result <;> infer_instance
        refine Draws.andThen inferInstance fun result => ?_
        cases result <;> infer_instance

instance Draws.multiTransferAll {caller token : Address} {recipients : List (Address × ℤ)} :
    Draws env (multiTransferAll env caller token recipients :
      Invocation S BatchError BatchResult) := by
  unfold Trellis.multiTransferAll executeMultiTransfer validateConfig acquireReentrancyGuard
    releaseReentrancyGuard
  infer_instance

namespace Aid

instance {admin treasury token : Address} {secs : ℕ} :
    Draws env (init env admin treasury token secs) := by
  unfold init
  infer_instance

instance {admin : Address} {treasury : Option Address} {secs : Option ℕ} :
    Draws env (updateConfig env admin treasury secs) := by
  unfold updateConfig
  infer_instance

instance {donor recipient : Address} {amount : ℤ} {expiry : ℕ} :
    Draws env (createAid env donor recipient amount expiry) := by
  unfold createAid emitAidCreated
  infer_instance

instance {id : ℕ} {recipient : Address} : Draws env (claimAid env id recipient) := by
  unfold claimAid
  infer_instance

instance {id : ℕ} : Draws env (refundAid env id) := by
  unfold refundAid
  infer_instance

instance {admin : Address} {paused : Bool} : Draws env (setPaused env admin paused) := by
  unfold setPaused emitPermissionChanged
  infer_instance

theorem exec_draws (env : Env me) (c : Entry) (w : World Store) :
    Drawn env w.tokens (exec env c w).tokens := by
  cases c <;> exact Draws.commit _ w

end Aid

namespace Payments

instance {who : Address} {amount : ℤ} : Draws env (payOut env who amount) := by
  unfold payOut
  infer_instance

instance {admin token recipient : Address} {rate : ℤ} :
    Draws env (init env admin token rate recipient) := by
  unfold init
  infer_instance

instance {caller : Address} {rate : ℤ} : Draws env (setFeeRate env caller rate) := by
  unfold setFeeRate
  infer_instance

instance {src : Address} {amount : ℤ} : Draws env (deposit env src amount) := by
  unfold deposit
  infer_instance

instance {who : Address} : Draws env (withdraw env who) := by
  unfold withdraw
  infer_instance

instance {who : Address} {amount : ℤ} : Draws env (withdrawAmount env who amount) := by
  unfold withdrawAmount
  infer_instance

instance {depositor beneficiary : Address} {amount : ℤ} {expiry : ℕ} :
    Draws env (createEscrowEntry env depositor beneficiary amount expiry) := by
  unfold createEscrowEntry
  infer_instance

instance {caller : Address} {id : ℕ} : Draws env (releaseEscrowEntry env caller id) := by
  unfold releaseEscrowEntry
  infer_instance

instance {caller : Address} {id : ℕ} : Draws env (refundEscrowEntry env caller id) := by
  unfold refundEscrowEntry
  infer_instance

instance {caller : Address} {recipients : List (Address × ℤ)} :
    Draws env (batchPayout env caller recipients) := by
  unfold batchPayout
  infer_instance

theorem exec_draws (env : Env me) (c : Entry) (w : World Store) :
    Drawn env w.tokens (exec env c w).tokens := by
  cases c <;> exact Draws.commit _ w

end Payments

namespace Market

instance {currency src : Address} {xs : List (Address × ℤ)} {tokenId : ℕ} :
    Draws env (distributeRoyalties env currency src xs tokenId) := by
  induction xs with
  | nil => exact Draws.pure ()
  | cons x xs ih =>
    unfold distributeRoyalties emitRoyaltyPaid
    infer_instance

instance {shares : List RoyaltyRecipient} {total : ℤ} : Draws env (sumShares shares total) := by
  induction shares generalizing total with
  | nil => exact Draws.pure total
  | cons r rs ih =>
    unfold sumShares
    infer_instance

instance : Draws env nextListingId := by
  unfold nextListingId
  infer_instance

instance : Draws env nextAuctionId := by
  unfold nextAuctionId
  infer_instance

instance : Draws env nextOfferId := by
  unfold nextOfferId
  infer_instance

instance : Draws env requireNotPaused := by
  unfold requireNotPaused
  infer_instance

instance {caller : Address} : Draws env (requireAdmin env caller) := by
  unfold requireAdmin
  infer_instance

instance {price : ℤ} : Draws env (validatePrice price) := by
  unfold validatePrice
  infer_instance

instance {currency : Address} : Draws env (validateCurrency currency) := by
  unfold validateCurrency
  infer_instance

instance {hash : Bytes} : Draws env (validateMetadataHash hash) := by
  unfold validateMetadataHash
  infer_instance

instance {collection : Address} : Draws env (verifyCollection collection) := by
  unfold verifyCollection
  infer_instance

instance {seconds : ℕ} : Draws env (validateDuration seconds) := by
  unfold validateDuration
  infer_instance

instance {collection : Address} {dl da : ℤ} :
    Draws env (updateCollectionStats collection dl da) := by
  unfold updateCollectionStats
  infer_instance

instance {caller : Address} {action : Symbol} : Draws env (emitAction env caller action) := by
  unfold emitAction
  infer_instance

instance {sale : Sale} : Draws env (paySale env sale) := by
  unfold paySale
  infer_instance

instance {seller : Address} {item : BulkListingItem} :
    Draws env (escrowListing env seller item) := by
  unfold escrowListing
  infer_instance

instance {seller : Address} {item : BulkAuctionItem} {endTime : Option ℕ} :
    Draws env (escrowAuction env seller item endTime) := by
  unfold escrowAuction
  infer_instance

instance {seller : Address} {items : List BulkListingItem} {result : BulkResult} :
    Draws env (bulkListLoop env seller items result) := by
  induction items generalizing result with
  | nil => exact Draws.pure result
  | cons item items ih =>
    unfold bulkListLoop
    infer_instance

instance {seller : Address} {items : List BulkAuctionItem} {result : BulkResult} :
    Draws env (bulkAuctionLoop env seller items result) := by
  induction items generalizing result with
  | nil => exact Draws.pure result
  | cons item items ih =>
    unfold bulkAuctionLoop
    infer_instance

instance {admin recipient : Address} {fee increment : ℤ} {extension : ℕ} :
    Draws env (init env admin fee recipient increment extension) := by
  unfold init
  infer_instance

instance {caller : Address} {bps : ℤ} : Draws env (setPlatformFee env caller bps) := by
  unfold setPlatformFee
  infer_instance

instance {caller recipient : Address} : Draws env (setFeeRecipient env caller recipient) := by
  unfold setFeeRecipient
  infer_instance

instance {caller : Address} {bps : ℤ} : Draws env (setBidIncrement env caller bps) := by
  unfold setBidIncrement
  infer_instance

instance {caller : Address} {seconds : ℕ} : Draws env (setAutoExtension env caller seconds) := by
  unfold setAutoExtension
  infer_instance

instance {caller currency : Address} {whitelisted : Bool} :
    Draws env (setCurrency env caller currency whitelisted) := by
  unfold setCurrency
  infer_instance

instance {caller oracle : Address} : Draws env (setOracle env caller oracle) := by
  unfold setOracle
  infer_instance

instance {caller collection : Address} {name : Symbol} {uri hash : Bytes} {standard : TokenStandard}
    {royalties : List RoyaltyRecipient} :
    Draws env (registerCollection env caller collection name uri hash standard royalties) := by
  unfold registerCollection emitCollectionRegistered
  infer_instance

instance {caller collection : Address} {royalties : List RoyaltyRecipient} :
    Draws env (setCollectionRoyalties env caller collection royalties) := by
  unfold setCollectionRoyalties
  infer_instance

instance {seller collection currency : Address} {tokenId amount : ℕ} {price : ℤ} {hash : Bytes} :
    Draws env (listNft env seller collection tokenId amount price currency hash) := by
  unfold listNft emitNftListed
  infer_instance

instance {buyer : Address} {id : ℕ} : Draws env (buyNft env buyer id) := by
  unfold buyNft emitNftSold
  infer_instance

instance {caller : Address} {id : ℕ} : Draws env (cancelListing env caller id) := by
  unfold cancelListing
  infer_instance

instance {seller collection currency : Address} {tokenId amount duration : ℕ} {start : ℤ}
    {hash : Bytes} : Draws env
      (createEnglishAuction env seller collection tokenId amount start currency duration hash) := by
  unfold createEnglishAuction emitNftAuction
  infer_instance

instance {bidder : Address} {id : ℕ} {amount : ℤ} : Draws env (placeBid env bidder id amount) := by
  unfold placeBid emitNftBid
  infer_instance

instance {id : ℕ} : Draws env (settleEnglishAuction env id) := by
  unfold settleEnglishAuction emitNftSettle
  infer_instance

instance {seller collection currency : Address} {tokenId amount duration : ℕ} {start floor : ℤ}
    {hash : Bytes} : Draws env
      (createDutchAuction env seller collection tokenId amount start floor currency
        duration hash) := by
  unfold createDutchAuction emitNftAuction
  infer_instance

instance {buyer : Address} {id : ℕ} : Draws env (buyDutchAuction env buyer id) := by
  unfold buyDutchAuction emitNftSold
  infer_instance

instance {caller : Address} {id : ℕ} : Draws env (cancelDutchAuction env caller id) := by
  unfold cancelDutchAuction
  infer_instance

instance {offerer recipient collection currency nftCollection : Address}
    {tokenId amount nftTokenId duration : ℕ} {offerAmount : ℤ} : Draws env
      (makeOffer env offerer recipient collection tokenId amount offerAmount currency nftCollection
        nftTokenId duration) := by
  unfold makeOffer emitNftOffer
  infer_instance

instance {caller : Address} {id : ℕ} : Draws env (acceptOffer env caller id) := by
  unfold acceptOffer emitNftSold
  infer_instance

instance {caller : Address} {id : ℕ} : Draws env (cancelOffer env caller id) := by
  unfold cancelOffer
  infer_instance

instance {seller : Address} {items : List BulkListingItem} :
    Draws env (bulkList env seller items) := by
  unfold bulkList
  infer_instance

instance {seller : Address} {items : List BulkAuctionItem} :
    Draws env (bulkCreateAuctions env seller items) := by
  unfold bulkCreateAuctions
  infer_instance

theorem exec_draws (env : Env me) (c : Entry) (w : World Store) :
    Drawn env w.tokens (exec env c w).tokens := by
  cases c <;> exact Draws.commit _ w

end Market

end Trellis
