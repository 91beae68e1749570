import Trellis.Shared.Auth
import Trellis.Shared.Events

/-!
# NFT marketplace

Model of contracts/nft-marketplace/src/lib.rs: fixed-price listings, English and Dutch auctions,
offers, bulk operations, collections with royalties, and the configuration. Items, bids and offers
are all held in the marketplace's own token balances. An NFT is an amount of the token contract of
its collection.

Three blocks that the source repeats are one definition each: `escrowListing` (of `list_nft` and
`bulk_list`), `escrowAuction` (of the two auction constructors and `bulk_create_auctions`) and
`paySale` (of the three sales).
-/

namespace Trellis.Market

open Exec

/-! ## Data -/

/-- `MarketError` (contracts/nft-marketplace/src/lib.rs:42–89). -/
inductive MarketError where
  | listingNotFound
  | listingAlreadySold
  | notOwner
  | collectionAlreadyRegistered
  | collectionNotFound
  | currencyNotWhitelisted
  | invalidMetadataHash
  | invalidRoyaltyRate
  | invalidExtensionWindow
  | auctionEnded
  | bidTooLow
  | bidderIsCurrentHighest
  | auctionNotYetEnded
  | offerExpired
  | offerAlreadySettled
  | notOfferRecipient
  | dutchAuctionPriceZero
  | invalidDutchAuctionPrices
  | invalidAmount
  | overflow
  | contractPaused
  | unauthorized
  | invalidArgument
  deriving DecidableEq, Repr

/-- `BPS_DENOM`. -/
def bpsDenom : ℤ := 10000

def defaultPlatformFeeBps : ℤ := 250
def defaultBidIncrementBps : ℤ := 500
def defaultAutoExtensionSeconds : ℕ := 300
def maxRoyaltyBps : ℤ := 1000
def maxFeeBps : ℤ := 1000
def maxRoyaltyRecipients : ℕ := 10
def maxBulkSize : ℕ := 50
def metadataHashLen : ℕ := 32

/-- The longest auction or offer, in seconds. -/
def maxDuration : ℕ := 604800

/-- `TokenStandard` (contracts/nft-marketplace/src/lib.rs:129–132). -/
inductive TokenStandard where
  | erc721
  | erc1155
  deriving DecidableEq, Repr

/-- `ListingStatus` (contracts/nft-marketplace/src/lib.rs:136–140). -/
inductive ListingStatus where
  | active
  | sold
  | cancelled
  deriving DecidableEq, Repr

/-- `Listing` (contracts/nft-marketplace/src/lib.rs:144–155). -/
structure Listing where
  id : ℕ
  seller : Address
  collection : Address
  tokenId : ℕ
  amount : ℕ
  price : ℤ
  currency : Address
  status : ListingStatus
  createdAt : ℕ
  metadataHash : Bytes
  deriving DecidableEq, Repr

/-- `AuctionType` (contracts/nft-marketplace/src/lib.rs:159–162). -/
inductive AuctionType where
  | english
  | dutch
  deriving DecidableEq, Repr

/-- `AuctionStatus` (contracts/nft-marketplace/src/lib.rs:166–171). -/
inductive AuctionStatus where
  | active
  | ended
  | settled
  | cancelled
  deriving DecidableEq, Repr

/-- `Auction` (contracts/nft-marketplace/src/lib.rs:175–192). -/
structure Auction where
  id : ℕ
  auctionType : AuctionType
  seller : Address
  collection : Address
  tokenId : ℕ
  amount : ℕ
  currency : Address
  startPrice : ℤ
  floorPrice : ℤ
  currentBid : ℤ
  currentBidder : Address
  status : AuctionStatus
  startTime : ℕ
  endTime : ℕ
  autoExtensionWindow : ℕ
  metadataHash : Bytes
  deriving DecidableEq, Repr

/-- `OfferStatus` (contracts/nft-marketplace/src/lib.rs:196–201). -/
inductive OfferStatus where
  | pending
  | accepted
  | cancelled
  | expired
  deriving DecidableEq, Repr

/-- `Offer` (contracts/nft-marketplace/src/lib.rs:205–219). -/
structure Offer where
  id : ℕ
  offerer : Address
  recipient : Address
  collection : Address
  tokenId : ℕ
  amount : ℕ
  offerAmount : ℤ
  currency : Address
  offerNftCollection : Address
  offerNftTokenId : ℕ
  status : OfferStatus
  createdAt : ℕ
  expiresAt : ℕ
  deriving DecidableEq, Repr

/-- `RoyaltyRecipient` (contracts/nft-marketplace/src/lib.rs:223–226). -/
structure RoyaltyRecipient where
  address : Address
  shareBps : ℤ
  deriving DecidableEq, Repr

/-- `RoyaltyConfig` (contracts/nft-marketplace/src/lib.rs:230–233). -/
structure RoyaltyConfig where
  recipients : List RoyaltyRecipient
  totalBps : ℤ
  deriving DecidableEq, Repr

/-- `CollectionInfo` (contracts/nft-marketplace/src/lib.rs:237–248). -/
structure CollectionInfo where
  address : Address
  admin : Address
  name : Symbol
  ipfsUri : Bytes
  metadataHash : Bytes
  standard : TokenStandard
  royaltyConfig : RoyaltyConfig
  registeredAt : ℕ
  activeListings : ℕ
  activeAuctions : ℕ
  deriving DecidableEq, Repr

/-- `BulkListingItem` (contracts/nft-marketplace/src/lib.rs:252–259). -/
structure BulkListingItem where
  collection : Address
  tokenId : ℕ
  amount : ℕ
  price : ℤ
  currency : Address
  metadataHash : Bytes
  deriving DecidableEq, Repr

/-- `BulkAuctionItem` (contracts/nft-marketplace/src/lib.rs:263–273). -/
structure BulkAuctionItem where
  collection : Address
  tokenId : ℕ
  amount : ℕ
  auctionType : AuctionType
  startPrice : ℤ
  floorPrice : ℤ
  currency : Address
  durationSeconds : ℕ
  metadataHash : Bytes
  deriving DecidableEq, Repr

/-- `BulkResult` (contracts/nft-marketplace/src/lib.rs:277–281). -/
structure BulkResult where
  succeeded : ℕ
  failed : ℕ
  ids : List ℕ
  deriving DecidableEq, Repr

/-- The storage keys of the contract: the `KEY_*` symbols, `listing_key`, `auction_key` and
    `offer_key`. -/
structure Store where
  platformFeeBps : Option ℤ
  feeRecipient : Option Address
  bidIncrementBps : Option ℤ
  autoExt : Option ℕ
  currencies : Option (Table Address Bool)
  collections : Option (Table Address CollectionInfo)
  listingSeq : Option ℕ
  auctionSeq : Option ℕ
  offerSeq : Option ℕ
  oracle : Option Address
  listings : Table ℕ Listing
  auctions : Table ℕ Auction
  offers : Table ℕ Offer

/-- The storage of a fresh contract. -/
def Store.empty : Store where
  platformFeeBps := none
  feeRecipient := none
  bidIncrementBps := none
  autoExt := none
  currencies := none
  collections := none
  listingSeq := none
  auctionSeq := none
  offerSeq := none
  oracle := none
  listings := ∅
  auctions := ∅
  offers := ∅

/-- Model of `platform_fee_bps` (contracts/nft-marketplace/src/lib.rs:606–608). -/
def Store.getPlatformFeeBps (s : Store) : ℤ := s.platformFeeBps.getD defaultPlatformFeeBps

/-- Model of `bid_increment_bps` (contracts/nft-marketplace/src/lib.rs:614–616). -/
def Store.getBidIncrementBps (s : Store) : ℤ := s.bidIncrementBps.getD defaultBidIncrementBps

/-- Model of `auto_extension_seconds` (contracts/nft-marketplace/src/lib.rs:618–620). -/
def Store.getAutoExtensionSeconds (s : Store) : ℕ := s.autoExt.getD defaultAutoExtensionSeconds

/-- Model of `is_currency_whitelisted` (contracts/nft-marketplace/src/lib.rs:622–626). -/
def Store.isCurrencyWhitelisted (s : Store) (currency : Address) : Bool :=
  ((s.currencies.getD ∅).lookup currency).getD false

/-- The stored information of a collection. -/
def Store.collection? (s : Store) (collection : Address) : Option CollectionInfo :=
  (s.collections.getD ∅).lookup collection

variable {me : Address}

/-! ## Helpers -/

/-- Model of `emit_action` (contracts/nft-marketplace/src/lib.rs:287–296). -/
@[simp] def emitAction (env : Env me) (caller : Address) (action : Symbol) :
    Invocation Store MarketError Unit :=
  emitActionExecuted "nft_mkt" action caller true env.timestamp

/-- Model of `require_admin` (contracts/nft-marketplace/src/lib.rs:1636–1643). -/
def requireAdmin (env : Env me) (caller : Address) : Invocation Store MarketError Unit := do
  let admin ← getAdmin
  failIf (caller ≠ admin) .unauthorized
  requireAuth env caller

/-- Model of `require_not_paused` (contracts/nft-marketplace/src/lib.rs:1645–1650). -/
def requireNotPaused : Invocation Store MarketError Unit := do
  let paused ← isPaused
  failIf (paused = true) .contractPaused

/-- Model of `validate_price` (contracts/nft-marketplace/src/lib.rs:298–303). -/
def validatePrice (price : ℤ) : Invocation Store MarketError Unit :=
  failIf (price ≤ 0) .invalidAmount

/-- Model of `validate_currency` (contracts/nft-marketplace/src/lib.rs:305–313). -/
def validateCurrency (currency : Address) : Invocation Store MarketError Unit := do
  let whitelisted ← read fun s => s.isCurrencyWhitelisted currency
  failIf (whitelisted = false) .currencyNotWhitelisted

/-- Model of `validate_metadata_hash` (contracts/nft-marketplace/src/lib.rs:315–320). -/
def validateMetadataHash (hash : Bytes) : Invocation Store MarketError Unit :=
  failIf (hash.length ≠ metadataHashLen) .invalidMetadataHash

/-- Model of `verify_collection` (contracts/nft-marketplace/src/lib.rs:361–369). -/
def verifyCollection (collection : Address) : Invocation Store MarketError Unit := do
  let info ← read fun s => s.collection? collection
  failIf (info.isSome = false) .collectionNotFound

/-- The duration check of auctions and offers. -/
def validateDuration (seconds : ℕ) : Invocation Store MarketError Unit :=
  failIf (seconds = 0 ∨ seconds > maxDuration) .invalidArgument

/-- Model of `next_listing_id` (contracts/nft-marketplace/src/lib.rs:334–339). -/
def nextListingId : Invocation Store MarketError ℕ := do
  let current ← read fun s => s.listingSeq.getD 0
  let next ← okOr (checkedAddU64 current 1) .overflow
  write fun s => { s with listingSeq := some next }
  pure next

/-- Model of `next_auction_id` (contracts/nft-marketplace/src/lib.rs:341–346). -/
def nextAuctionId : Invocation Store MarketError ℕ := do
  let current ← read fun s => s.auctionSeq.getD 0
  let next ← okOr (checkedAddU64 current 1) .overflow
  write fun s => { s with auctionSeq := some next }
  pure next

/-- Model of `next_offer_id` (contracts/nft-marketplace/src/lib.rs:348–353). -/
def nextOfferId : Invocation Store MarketError ℕ := do
  let current ← read fun s => s.offerSeq.getD 0
  let next ← okOr (checkedAddU64 current 1) .overflow
  write fun s => { s with offerSeq := some next }
  pure next

/-- A `u32` counter after a change by `delta`; a counter at zero is not lowered. -/
def bumped (count : ℕ) (delta : ℤ) : Option ℕ :=
  if delta > 0 then checkedAddU32 count delta.natAbs
  else if delta < 0 ∧ count > 0 then
    if delta.natAbs ≤ count then some (count - delta.natAbs) else none
  else some count

/-- The storage after the counters of a collection have changed; `none` on overflow. -/
def Store.bumpStats (s : Store) (collection : Address) (listingDelta auctionDelta : ℤ) :
    Option Store :=
  match s.collection? collection with
  | none => some s
  | some info => do
    let listings ← bumped info.activeListings listingDelta
    let auctions ← bumped info.activeAuctions auctionDelta
    let info' := { info with activeListings := listings, activeAuctions := auctions }
    some { s with collections := some ((s.collections.getD ∅).insert collection info') }

/-- Model of `update_collection_stats` (contracts/nft-marketplace/src/lib.rs:377–400). -/
def updateCollectionStats (collection : Address) (listingDelta auctionDelta : ℤ) :
    Invocation Store MarketError Unit := do
  let bumpedStore ← read fun s => s.bumpStats collection listingDelta auctionDelta
  let s' ← expect bumpedStore .overflow
  write fun _ => s'

/-- The value, or `Overflow`. -/
def orOverflow (o : Option ℤ) : Except MarketError ℤ := o.elim (.error .overflow) .ok

/-- Model of `dutch_auction_price` (contracts/nft-marketplace/src/lib.rs:402–435). -/
def dutchAuctionPrice (now : ℕ) (auction : Auction) : Except MarketError ℤ :=
  if now ≥ auction.endTime then .ok auction.floorPrice
  else if now ≤ auction.startTime then .ok auction.startPrice
  else do
    -- here `start_time < now < end_time`, so the two `u64` differences do not underflow
    let duration : ℤ := (auction.endTime - auction.startTime : ℕ)
    let elapsed : ℤ := (now - auction.startTime : ℕ)
    let priceRange ← orOverflow (checkedSub auction.startPrice auction.floorPrice)
    let product ← orOverflow (checkedMul priceRange elapsed)
    let decay ← orOverflow (checkedDiv product duration)
    let price ← orOverflow (checkedSub auction.startPrice decay)
    pure (max price 0)

/-- Model of `compute_platform_fee` (contracts/nft-marketplace/src/lib.rs:437–444). -/
def computePlatformFee (price platformFeeBps : ℤ) : Except MarketError ℤ := do
  let product ← orOverflow (checkedMul price platformFeeBps)
  let fee ← orOverflow (checkedDiv product bpsDenom)
  pure (max fee 0)

/-- A royalty as computed: a product that overflows counts as nothing. -/
def royaltyAmount (price shareBps : ℤ) : ℤ :=
  (checkedDiv ((checkedMul price shareBps).getD 0) bpsDenom).getD 0

/-- Model of `compute_royalty_amounts` (contracts/nft-marketplace/src/lib.rs:446–465). -/
def computeRoyaltyAmounts (price : ℤ) (config : RoyaltyConfig) : List (Address × ℤ) :=
  if config.totalBps ≤ 0 then []
  else (config.recipients.map fun r => (r.address, royaltyAmount price r.shareBps)).filter
    fun x => x.2 > 0

/-- The royalties of a sale from the collection: none when it is not registered. -/
def Store.royaltyAmounts (s : Store) (collection : Address) (price : ℤ) : List (Address × ℤ) :=
  ((s.collection? collection).map fun info =>
    computeRoyaltyAmounts price info.royaltyConfig).getD []

/-- `iter().sum()` of `i128` values. -/
def sumI128 (xs : List ℤ) : Option ℤ := xs.foldlM checkedAdd 0

/-- Model of `distribute_royalties` (contracts/nft-marketplace/src/lib.rs:467–480). -/
def distributeRoyalties (env : Env me) (currency src : Address) :
    List (Address × ℤ) → ℕ → Invocation Store MarketError Unit
  | [], _ => pure ()
  | x :: xs, tokenId => do
    onlyIf (x.2 > 0) do
      transfer env currency src x.1 x.2
      emitRoyaltyPaid tokenId x.1 x.2 env.timestamp
    distributeRoyalties env currency src xs tokenId

/-- The check and the sum of the shares of a royalty table, the loop that `register_collection` and
    `set_collection_royalties` share (contracts/nft-marketplace/src/lib.rs:657–663 and 710–716). -/
def sumShares : List RoyaltyRecipient → ℤ → Invocation Store MarketError ℤ
  | [], total => pure total
  | r :: rs, total => do
    failIf (r.shareBps < 0 ∨ r.shareBps > maxRoyaltyBps) .invalidRoyaltyRate
    let next ← expect (checkedAdd total r.shareBps) .overflow
    sumShares rs next

/-! ## The shared blocks -/

/-- Takes the item of a listing into the marketplace and stores the listing, the block that
    `list_nft` and `bulk_list` share (contracts/nft-marketplace/src/lib.rs:757–776 and
    1509–1532). -/
def escrowListing (env : Env me) (seller : Address) (item : BulkListingItem) :
    Invocation Store MarketError ℕ := do
  let listingId ← nextListingId
  transfer env item.collection seller me item.amount
  let listing : Listing := ⟨listingId, seller, item.collection, item.tokenId, item.amount,
    item.price, item.currency, .active, env.timestamp, item.metadataHash⟩
  write fun s => { s with listings := s.listings.insert listingId listing }
  updateCollectionStats item.collection 1 0
  pure listingId

/-- Takes the item of an auction into the marketplace and stores the auction, the block that the two
    auction constructors and `bulk_create_auctions` share
    (contracts/nft-marketplace/src/lib.rs:920–951, 1166–1195 and 1579–1619). `endTime` is `none`
    when the end overflows. -/
def escrowAuction (env : Env me) (seller : Address) (item : BulkAuctionItem)
    (endTime : Option ℕ) : Invocation Store MarketError (ℕ × ℕ) := do
  let auctionId ← nextAuctionId
  transfer env item.collection seller me item.amount
  let endTime ← okOr endTime .overflow
  let autoExt ← read Store.getAutoExtensionSeconds
  let auction : Auction := ⟨auctionId, item.auctionType, seller, item.collection, item.tokenId,
    item.amount, item.currency, item.startPrice, item.floorPrice, 0, me, .active, env.timestamp,
    endTime, if item.auctionType = .english then autoExt else 0, item.metadataHash⟩
  write fun s => { s with auctions := s.auctions.insert auctionId auction }
  updateCollectionStats item.collection 0 1
  pure (auctionId, endTime)

/-- A sale: who pays which price in which currency, and where the item and the proceeds go. -/
structure Sale where
  payer : Address
  seller : Address
  receiver : Address
  collection : Address
  tokenId : ℕ
  amount : ℕ
  currency : Address
  price : ℤ
  deriving DecidableEq, Repr

/-- Splits the price of a sale and makes its payments, and hands the item over, the block that the
    three sales share (contracts/nft-marketplace/src/lib.rs:806–848, 1078–1127 and 1231–1266). -/
def paySale (env : Env me) (sale : Sale) : Invocation Store MarketError Unit := do
  let recipient ← read Store.feeRecipient
  let feeRecipient ← expect recipient .missing
  let platformFeeBps ← read Store.getPlatformFeeBps
  let platformFee ← ofExcept (computePlatformFee sale.price platformFeeBps)
  let royaltyAmounts ← read fun s => s.royaltyAmounts sale.collection sale.price
  let totalRoyalties ← expect (sumI128 (royaltyAmounts.map Prod.snd)) .overflow
  let afterFee ← okOr (checkedSub sale.price platformFee) .overflow
  let sellerProceeds ← okOr (checkedSub afterFee totalRoyalties) .overflow
  onlyIf (platformFee > 0) (transfer env sale.currency sale.payer feeRecipient platformFee)
  distributeRoyalties env sale.currency sale.payer royaltyAmounts sale.tokenId
  onlyIf (sellerProceeds > 0) (transfer env sale.currency sale.payer sale.seller sellerProceeds)
  transfer env sale.collection me sale.receiver sale.amount

/-! ## Initialisation and configuration -/

/-- Model of `initialize` (contracts/nft-marketplace/src/lib.rs:495–533). It checks no caller and no
    earlier initialisation. -/
def init (env : Env me) (admin : Address) (platformFeeBps : ℤ) (feeRecipient : Address)
    (bidIncrementBps : ℤ) (autoExtensionSeconds : ℕ) : Invocation Store MarketError Unit := do
  failIf (¬ (0 ≤ platformFeeBps ∧ platformFeeBps ≤ maxFeeBps)) .invalidArgument
  failIf (¬ (0 ≤ bidIncrementBps ∧ bidIncrementBps ≤ 5000)) .invalidArgument
  setAdmin admin
  write fun s => { s with
    platformFeeBps := some platformFeeBps
    feeRecipient := some feeRecipient
    bidIncrementBps := some bidIncrementBps
    autoExt := some autoExtensionSeconds
    currencies := some ∅
    collections := some ∅
    listingSeq := some 0
    auctionSeq := some 0
    offerSeq := some 0 }
  emitModuleInitialized "nft_mkt" 1 admin env.timestamp

/-- Model of `set_platform_fee` (contracts/nft-marketplace/src/lib.rs:539–551). -/
def setPlatformFee (env : Env me) (caller : Address) (newFeeBps : ℤ) :
    Invocation Store MarketError Unit := do
  requireAdmin env caller
  failIf (¬ (0 ≤ newFeeBps ∧ newFeeBps ≤ maxFeeBps)) .invalidArgument
  write fun s => { s with platformFeeBps := some newFeeBps }
  emitAction env caller "set_fee"

/-- Model of `set_fee_recipient` (contracts/nft-marketplace/src/lib.rs:553–562). -/
def setFeeRecipient (env : Env me) (caller newRecipient : Address) :
    Invocation Store MarketError Unit := do
  requireAdmin env caller
  write fun s => { s with feeRecipient := some newRecipient }
  emitAction env caller "set_frcp"

/-- Model of `set_bid_increment` (contracts/nft-marketplace/src/lib.rs:564–572). -/
def setBidIncrement (env : Env me) (caller : Address) (bps : ℤ) :
    Invocation Store MarketError Unit := do
  requireAdmin env caller
  failIf (¬ (0 ≤ bps ∧ bps ≤ 5000)) .invalidArgument
  write fun s => { s with bidIncrementBps := some bps }
  emitAction env caller "set_binc"

/-- Model of `set_auto_extension` (contracts/nft-marketplace/src/lib.rs:574–582). -/
def setAutoExtension (env : Env me) (caller : Address) (seconds : ℕ) :
    Invocation Store MarketError Unit := do
  requireAdmin env caller
  failIf (seconds > 3600) .invalidExtensionWindow
  write fun s => { s with autoExt := some seconds }
  emitAction env caller "set_aext"

/-- Model of `set_currency` (contracts/nft-marketplace/src/lib.rs:584–597). -/
def setCurrency (env : Env me) (caller currency : Address) (whitelisted : Bool) :
    Invocation Store MarketError Unit := do
  requireAdmin env caller
  write fun s => { s with
    currencies := some ((s.currencies.getD ∅).insert currency whitelisted) }
  emitAction env caller "set_curr"

/-- Model of `set_oracle` (contracts/nft-marketplace/src/lib.rs:599–604). -/
def setOracle (env : Env me) (caller oracle : Address) : Invocation Store MarketError Unit := do
  requireAdmin env caller
  write fun s => { s with oracle := some oracle }
  emitAction env caller "set_orcl"

/-! ## Collections -/

/-- Model of `register_collection` (contracts/nft-marketplace/src/lib.rs:636–690). -/
def registerCollection (env : Env me) (caller collection : Address) (name : Symbol)
    (ipfsUri metadataHash : Bytes) (standard : TokenStandard)
    (royaltyRecipients : List RoyaltyRecipient) : Invocation Store MarketError Unit := do
  requireAdmin env caller
  let stored ← read fun s => s.collection? collection
  failIf (stored.isSome = true) .collectionAlreadyRegistered
  failIf (metadataHash.length ≠ metadataHashLen) .invalidMetadataHash
  let totalBps ← sumShares royaltyRecipients 0
  failIf (royaltyRecipients.length > maxRoyaltyRecipients) .invalidArgument
  let info : CollectionInfo := ⟨collection, caller, name, ipfsUri, metadataHash, standard,
    ⟨royaltyRecipients, totalBps⟩, env.timestamp, 0, 0⟩
  write fun s => { s with collections := some ((s.collections.getD ∅).insert collection info) }
  emitCollectionRegistered collection caller env.timestamp

/-- Model of `set_collection_royalties` (contracts/nft-marketplace/src/lib.rs:692–725). It does not
    bound the number of recipients. -/
def setCollectionRoyalties (env : Env me) (caller collection : Address)
    (royaltyRecipients : List RoyaltyRecipient) : Invocation Store MarketError Unit := do
  requireAuth env caller
  let stored ← read Store.collections
  let collections ← okOr stored .collectionNotFound
  let info ← okOr (collections.lookup collection) .collectionNotFound
  failIf (info.admin ≠ caller) .unauthorized
  let totalBps ← sumShares royaltyRecipients 0
  let info' := { info with royaltyConfig := ⟨royaltyRecipients, totalBps⟩ }
  write fun s => { s with collections := some (collections.insert collection info') }

/-! ## Fixed-price listings -/

/-- Model of `list_nft` (contracts/nft-marketplace/src/lib.rs:739–789). -/
def listNft (env : Env me) (seller collection : Address) (tokenId amount : ℕ) (price : ℤ)
    (currency : Address) (metadataHash : Bytes) : Invocation Store MarketError ℕ := do
  requireNotPaused
  requireAuth env seller
  validatePrice price
  validateCurrency currency
  validateMetadataHash metadataHash
  verifyCollection collection
  let listingId ← escrowListing env seller
    ⟨collection, tokenId, amount, price, currency, metadataHash⟩
  emitNftListed listingId seller collection tokenId price currency env.timestamp
  pure listingId

/-- The sale of a listing to a buyer. -/
def Listing.sale (l : Listing) (buyer : Address) : Sale :=
  ⟨buyer, l.seller, buyer, l.collection, l.tokenId, l.amount, l.currency, l.price⟩

/-- Model of `buy_nft` (contracts/nft-marketplace/src/lib.rs:791–860). -/
def buyNft (env : Env me) (buyer : Address) (listingId : ℕ) :
    Invocation Store MarketError Unit := do
  requireNotPaused
  requireAuth env buyer
  let stored ← read fun s => s.listings.lookup listingId
  let listing ← okOr stored .listingNotFound
  failIf (listing.status ≠ .active) .listingAlreadySold
  write fun s => { s with
    listings := s.listings.insert listingId { listing with status := .sold } }
  paySale env (listing.sale buyer)
  updateCollectionStats listing.collection (-1) 0
  emitNftSold listingId listing.seller buyer listing.price env.timestamp

/-- Model of `cancel_listing` (contracts/nft-marketplace/src/lib.rs:862–887). -/
def cancelListing (env : Env me) (caller : Address) (listingId : ℕ) :
    Invocation Store MarketError Unit := do
  requireAuth env caller
  let stored ← read fun s => s.listings.lookup listingId
  let listing ← okOr stored .listingNotFound
  failIf (listing.status ≠ .active) .listingAlreadySold
  failIf (listing.seller ≠ caller) .notOwner
  write fun s => { s with
    listings := s.listings.insert listingId { listing with status := .cancelled } }
  transfer env listing.collection me listing.seller listing.amount
  updateCollectionStats listing.collection (-1) 0

/-! ## English auctions -/

/-- Model of `create_english_auction` (contracts/nft-marketplace/src/lib.rs:897–962). -/
def createEnglishAuction (env : Env me) (seller collection : Address) (tokenId amount : ℕ)
    (startPrice : ℤ) (currency : Address) (durationSeconds : ℕ) (metadataHash : Bytes) :
    Invocation Store MarketError ℕ := do
  requireNotPaused
  requireAuth env seller
  validatePrice startPrice
  validateCurrency currency
  validateMetadataHash metadataHash
  verifyCollection collection
  validateDuration durationSeconds
  let opened ← escrowAuction env seller ⟨collection, tokenId, amount, .english, startPrice, 0,
    currency, durationSeconds, metadataHash⟩ (checkedAddU64 env.timestamp durationSeconds)
  emitNftAuction opened.1 seller collection tokenId startPrice opened.2
  pure opened.1

/-- The least bid that `place_bid` accepts (contracts/nft-marketplace/src/lib.rs:992–1006). -/
def minBid (auction : Auction) (incrementBps : ℤ) : Except MarketError ℤ :=
  if auction.currentBid = 0 then .ok auction.startPrice
  else do
    let product ← orOverflow (checkedMul auction.currentBid incrementBps)
    let increment ← orOverflow (checkedDiv product bpsDenom)
    orOverflow (checkedAdd auction.currentBid (max increment 1))

/-- The end of an auction after a bid at `now` (contracts/nft-marketplace/src/lib.rs:1026–1033). -/
def extendedEnd (auction : Auction) (now : ℕ) : Except MarketError ℕ :=
  if auction.endTime - now ≤ auction.autoExtensionWindow then
    (checkedAddU64 now auction.autoExtensionWindow).elim (.error .overflow) .ok
  else .ok auction.endTime

/-- Model of `place_bid` (contracts/nft-marketplace/src/lib.rs:964–1042). -/
def placeBid (env : Env me) (bidder : Address) (auctionId : ℕ) (bidAmount : ℤ) :
    Invocation Store MarketError Unit := do
  requireNotPaused
  requireAuth env bidder
  validatePrice bidAmount
  let stored ← read fun s => s.auctions.lookup auctionId
  let auction ← okOr stored .listingNotFound
  failIf (auction.status ≠ .active) .auctionEnded
  failIf (auction.auctionType ≠ .english) .invalidArgument
  onlyIf (env.timestamp ≥ auction.endTime) do
    write fun s => { s with
      auctions := s.auctions.insert auctionId { auction with status := .ended } }
    throwErr .auctionEnded
  let incrementBps ← read Store.getBidIncrementBps
  let least ← ofExcept (minBid auction incrementBps)
  failIf (bidAmount < least) .bidTooLow
  failIf (auction.currentBid > 0 ∧ auction.currentBidder = bidder) .bidderIsCurrentHighest
  onlyIf (auction.currentBid > 0)
    (transfer env auction.currency me auction.currentBidder auction.currentBid)
  transfer env auction.currency bidder me bidAmount
  let newEnd ← ofExcept (extendedEnd auction env.timestamp)
  write fun s => { s with
    auctions := s.auctions.insert auctionId { auction with
      currentBid := bidAmount
      currentBidder := bidder
      endTime := newEnd } }
  emitNftBid auctionId bidder bidAmount newEnd

/-- The sale of an auctioned item to the highest bidder, paid from the marketplace. -/
def Auction.settlement (me : Address) (a : Auction) : Sale :=
  ⟨me, a.seller, a.currentBidder, a.collection, a.tokenId, a.amount, a.currency, a.currentBid⟩

/-- Model of `settle_english_auction` (contracts/nft-marketplace/src/lib.rs:1044–1132). It does not
    check the kind of the auction. -/
def settleEnglishAuction (env : Env me) (auctionId : ℕ) : Invocation Store MarketError Unit := do
  requireNotPaused
  let stored ← read fun s => s.auctions.lookup auctionId
  let auction ← okOr stored .listingNotFound
  failIf (auction.status = .settled) .listingAlreadySold
  failIf (auction.status ≠ .active ∧ auction.status ≠ .ended) .auctionEnded
  failIf (env.timestamp < auction.endTime) .auctionNotYetEnded
  write fun s => { s with
    auctions := s.auctions.insert auctionId { auction with status := .settled } }
  if auction.currentBid = 0 then do
    transfer env auction.collection me auction.seller auction.amount
    updateCollectionStats auction.collection 0 (-1)
  else do
    paySale env (auction.settlement me)
    updateCollectionStats auction.collection 0 (-1)
    emitNftSettle auctionId auction.currentBidder auction.currentBid env.timestamp

/-! ## Dutch auctions -/

/-- Model of `create_dutch_auction` (contracts/nft-marketplace/src/lib.rs:1138–1206). -/
def createDutchAuction (env : Env me) (seller collection : Address) (tokenId amount : ℕ)
    (startPrice floorPrice : ℤ) (currency : Address) (durationSeconds : ℕ)
    (metadataHash : Bytes) : Invocation Store MarketError ℕ := do
  requireNotPaused
  requireAuth env seller
  validatePrice startPrice
  validatePrice floorPrice
  validateCurrency currency
  validateMetadataHash metadataHash
  verifyCollection collection
  failIf (floorPrice ≥ startPrice) .invalidDutchAuctionPrices
  validateDuration durationSeconds
  let opened ← escrowAuction env seller ⟨collection, tokenId, amount, .dutch, startPrice,
    floorPrice, currency, durationSeconds, metadataHash⟩
    (checkedAddU64 env.timestamp durationSeconds)
  emitNftAuction opened.1 seller collection tokenId startPrice opened.2
  pure opened.1

/-- The sale of an auctioned item to a buyer at a price. -/
def Auction.sale (a : Auction) (buyer : Address) (price : ℤ) : Sale :=
  ⟨buyer, a.seller, buyer, a.collection, a.tokenId, a.amount, a.currency, price⟩

/-- Model of `buy_dutch_auction` (contracts/nft-marketplace/src/lib.rs:1208–1278). -/
def buyDutchAuction (env : Env me) (buyer : Address) (auctionId : ℕ) :
    Invocation Store MarketError Unit := do
  requireNotPaused
  requireAuth env buyer
  let stored ← read fun s => s.auctions.lookup auctionId
  let auction ← okOr stored .listingNotFound
  failIf (auction.status ≠ .active) .auctionEnded
  failIf (auction.auctionType ≠ .dutch) .invalidArgument
  let currentPrice ← ofExcept (dutchAuctionPrice env.timestamp auction)
  failIf (currentPrice = 0) .dutchAuctionPriceZero
  write fun s => { s with
    auctions := s.auctions.insert auctionId { auction with status := .settled } }
  paySale env (auction.sale buyer currentPrice)
  updateCollectionStats auction.collection 0 (-1)
  emitNftSold auctionId auction.seller buyer currentPrice env.timestamp

/-- Model of `dutch_auction_current_price` (contracts/nft-marketplace/src/lib.rs:1280–1284). -/
def dutchAuctionCurrentPrice (env : Env me) (auctionId : ℕ) : Invocation Store MarketError ℤ := do
  let stored ← read fun s => s.auctions.lookup auctionId
  let auction ← okOr stored .listingNotFound
  ofExcept (dutchAuctionPrice env.timestamp auction)

/-- Model of `cancel_dutch_auction` (contracts/nft-marketplace/src/lib.rs:1286–1318). -/
def cancelDutchAuction (env : Env me) (caller : Address) (auctionId : ℕ) :
    Invocation Store MarketError Unit := do
  requireAuth env caller
  let stored ← read fun s => s.auctions.lookup auctionId
  let auction ← okOr stored .listingNotFound
  failIf (auction.status ≠ .active) .auctionEnded
  failIf (auction.auctionType ≠ .dutch) .invalidArgument
  failIf (auction.seller ≠ caller) .notOwner
  write fun s => { s with
    auctions := s.auctions.insert auctionId { auction with status := .cancelled } }
  transfer env auction.collection me auction.seller auction.amount
  updateCollectionStats auction.collection 0 (-1)

/-! ## Offers -/

/-- Model of `make_offer` (contracts/nft-marketplace/src/lib.rs:1328–1378). -/
def makeOffer (env : Env me) (offerer recipient collection : Address) (tokenId amount : ℕ)
    (offerAmount : ℤ) (currency offerNftCollection : Address)
    (offerNftTokenId durationSeconds : ℕ) : Invocation Store MarketError ℕ := do
  requireNotPaused
  requireAuth env offerer
  validatePrice offerAmount
  validateCurrency currency
  validateDuration durationSeconds
  let offerId ← nextOfferId
  let expiresAt ← okOr (checkedAddU64 env.timestamp durationSeconds) .overflow
  transfer env currency offerer me offerAmount
  let offer : Offer := ⟨offerId, offerer, recipient, collection, tokenId, amount, offerAmount,
    currency, offerNftCollection, offerNftTokenId, .pending, env.timestamp, expiresAt⟩
  write fun s => { s with offers := s.offers.insert offerId offer }
  emitNftOffer offerId offerer tokenId offerAmount expiresAt
  pure offerId

/-- Model of `accept_offer` (contracts/nft-marketplace/src/lib.rs:1380–1447). -/
def acceptOffer (env : Env me) (caller : Address) (offerId : ℕ) :
    Invocation Store MarketError Unit := do
  requireNotPaused
  requireAuth env caller
  let stored ← read fun s => s.offers.lookup offerId
  let offer ← okOr stored .listingNotFound
  failIf (offer.status ≠ .pending) .offerAlreadySettled
  failIf (offer.recipient ≠ caller) .notOfferRecipient
  onlyIf (env.timestamp > offer.expiresAt) do
    write fun s => { s with offers := s.offers.insert offerId { offer with status := .expired } }
    transfer env offer.currency me offer.offerer offer.offerAmount
    throwErr .offerExpired
  write fun s => { s with offers := s.offers.insert offerId { offer with status := .accepted } }
  let platformFeeBps ← read Store.getPlatformFeeBps
  let platformFee ← ofExcept (computePlatformFee offer.offerAmount platformFeeBps)
  let sellerProceeds ← okOr (checkedSub offer.offerAmount platformFee) .overflow
  let recipient ← read Store.feeRecipient
  let feeRecipient ← expect recipient .missing
  onlyIf (platformFee > 0) (transfer env offer.currency me feeRecipient platformFee)
  onlyIf (sellerProceeds > 0) (transfer env offer.currency me offer.recipient sellerProceeds)
  transfer env offer.collection caller offer.offerer offer.amount
  emitNftSold offerId offer.recipient offer.offerer offer.offerAmount env.timestamp

/-- Model of `cancel_offer` (contracts/nft-marketplace/src/lib.rs:1449–1472). -/
def cancelOffer (env : Env me) (caller : Address) (offerId : ℕ) :
    Invocation Store MarketError Unit := do
  requireAuth env caller
  let stored ← read fun s => s.offers.lookup offerId
  let offer ← okOr stored .listingNotFound
  failIf (offer.status ≠ .pending) .offerAlreadySettled
  failIf (offer.offerer ≠ caller) .notOwner
  write fun s => { s with offers := s.offers.insert offerId { offer with status := .cancelled } }
  transfer env offer.currency me offer.offerer offer.offerAmount

/-! ## Bulk operations -/

/-- The result with one more item done. -/
def BulkResult.success (r : BulkResult) (id : ℕ) : BulkResult :=
  { r with succeeded := r.succeeded + 1, ids := r.ids ++ [id] }

/-- The result with one more item skipped. -/
def BulkResult.failure (r : BulkResult) : BulkResult := { r with failed := r.failed + 1 }

/-- The checks of `bulk_list` on an item. -/
def Store.acceptsListing (s : Store) (item : BulkListingItem) : Bool :=
  decide (¬ item.price ≤ 0) && s.isCurrencyWhitelisted item.currency &&
    decide (item.metadataHash.length = metadataHashLen) && (s.collection? item.collection).isSome

/-- The checks of `bulk_create_auctions` on an item. The currency, the hash and the sign of the
    floor price are not among them. -/
def Store.acceptsAuction (s : Store) (item : BulkAuctionItem) : Bool :=
  decide (¬ (item.durationSeconds = 0 ∨ item.durationSeconds > maxDuration)) &&
    decide (¬ item.startPrice ≤ 0) &&
    decide (¬ (item.auctionType = .dutch ∧ item.floorPrice ≥ item.startPrice)) &&
    (s.collection? item.collection).isSome

/-- The loop of `bulk_list`. -/
def bulkListLoop (env : Env me) (seller : Address) :
    List BulkListingItem → BulkResult → Invocation Store MarketError BulkResult
  | [], result => pure result
  | item :: items, result => do
    let accepted ← read fun s => s.acceptsListing item
    if accepted = true then do
      let listingId ← escrowListing env seller item
      bulkListLoop env seller items (result.success listingId)
    else bulkListLoop env seller items result.failure

/-- Model of `bulk_list` (contracts/nft-marketplace/src/lib.rs:1482–1542). -/
def bulkList (env : Env me) (seller : Address) (items : List BulkListingItem) :
    Invocation Store MarketError BulkResult := do
  requireNotPaused
  requireAuth env seller
  failIf (items.length = 0 ∨ items.length > maxBulkSize) .invalidArgument
  bulkListLoop env seller items ⟨0, 0, []⟩

/-- The loop of `bulk_create_auctions`. The end of an auction saturates at `u64::MAX`. -/
def bulkAuctionLoop (env : Env me) (seller : Address) :
    List BulkAuctionItem → BulkResult → Invocation Store MarketError BulkResult
  | [], result => pure result
  | item :: items, result => do
    let accepted ← read fun s => s.acceptsAuction item
    if accepted = true then do
      let opened ← escrowAuction env seller item
        (some ((checkedAddU64 env.timestamp item.durationSeconds).getD (2 ^ 64 - 1)))
      bulkAuctionLoop env seller items (result.success opened.1)
    else bulkAuctionLoop env seller items result.failure

/-- Model of `bulk_create_auctions` (contracts/nft-marketplace/src/lib.rs:1544–1629). -/
def bulkCreateAuctions (env : Env me) (seller : Address) (items : List BulkAuctionItem) :
    Invocation Store MarketError BulkResult := do
  requireNotPaused
  requireAuth env seller
  failIf (items.length = 0 ∨ items.length > maxBulkSize) .invalidArgument
  bulkAuctionLoop env seller items ⟨0, 0, []⟩

/-! ## Steps -/

/-- A call of an entry point that can write. -/
inductive Entry where
  | init (admin : Address) (platformFeeBps : ℤ) (feeRecipient : Address) (bidIncrementBps : ℤ)
      (autoExtensionSeconds : ℕ)
  | setPlatformFee (caller : Address) (newFeeBps : ℤ)
  | setFeeRecipient (caller newRecipient : Address)
  | setBidIncrement (caller : Address) (bps : ℤ)
  | setAutoExtension (caller : Address) (seconds : ℕ)
  | setCurrency (caller currency : Address) (whitelisted : Bool)
  | setOracle (caller oracle : Address)
  | registerCollection (caller collection : Address) (name : Symbol)
      (ipfsUri metadataHash : Bytes) (standard : TokenStandard)
      (royaltyRecipients : List RoyaltyRecipient)
  | setCollectionRoyalties (caller collection : Address)
      (royaltyRecipients : List RoyaltyRecipient)
  | listNft (seller collection : Address) (tokenId amount : ℕ) (price : ℤ) (currency : Address)
      (metadataHash : Bytes)
  | buyNft (buyer : Address) (listingId : ℕ)
  | cancelListing (caller : Address) (listingId : ℕ)
  | createEnglishAuction (seller collection : Address) (tokenId amount : ℕ) (startPrice : ℤ)
      (currency : Address) (durationSeconds : ℕ) (metadataHash : Bytes)
  | placeBid (bidder : Address) (auctionId : ℕ) (bidAmount : ℤ)
  | settleEnglishAuction (auctionId : ℕ)
  | createDutchAuction (seller collection : Address) (tokenId amount : ℕ)
      (startPrice floorPrice : ℤ) (currency : Address) (durationSeconds : ℕ)
      (metadataHash : Bytes)
  | buyDutchAuction (buyer : Address) (auctionId : ℕ)
  | cancelDutchAuction (caller : Address) (auctionId : ℕ)
  | makeOffer (offerer recipient collection : Address) (tokenId amount : ℕ) (offerAmount : ℤ)
      (currency offerNftCollection : Address) (offerNftTokenId durationSeconds : ℕ)
  | acceptOffer (caller : Address) (offerId : ℕ)
  | cancelOffer (caller : Address) (offerId : ℕ)
  | bulkList (seller : Address) (items : List BulkListingItem)
  | bulkCreateAuctions (seller : Address) (items : List BulkAuctionItem)

/-- The state after a call: committed on `Ok`, rolled back otherwise. -/
def exec (env : Env me) : Entry → World Store → World Store
  | .init admin fee recipient increment extension =>
    (init env admin fee recipient increment extension).commit
  | .setPlatformFee caller bps => (setPlatformFee env caller bps).commit
  | .setFeeRecipient caller recipient => (setFeeRecipient env caller recipient).commit
  | .setBidIncrement caller bps => (setBidIncrement env caller bps).commit
  | .setAutoExtension caller seconds => (setAutoExtension env caller seconds).commit
  | .setCurrency caller currency whitelisted =>
    (setCurrency env caller currency whitelisted).commit
  | .setOracle caller oracle => (setOracle env caller oracle).commit
  | .registerCollection caller collection name uri hash standard royalties =>
    (registerCollection env caller collection name uri hash standard royalties).commit
  | .setCollectionRoyalties caller collection royalties =>
    (setCollectionRoyalties env caller collection royalties).commit
  | .listNft seller collection tokenId amount price currency hash =>
    (listNft env seller collection tokenId amount price currency hash).commit
  | .buyNft buyer id => (buyNft env buyer id).commit
  | .cancelListing caller id => (cancelListing env caller id).commit
  | .createEnglishAuction seller collection tokenId amount start currency duration hash =>
    (createEnglishAuction env seller collection tokenId amount start currency duration hash).commit
  | .placeBid bidder id amount => (placeBid env bidder id amount).commit
  | .settleEnglishAuction id => (settleEnglishAuction env id).commit
  | .createDutchAuction seller collection tokenId amount start floor currency duration hash =>
    (createDutchAuction env seller collection tokenId amount start floor currency duration
      hash).commit
  | .buyDutchAuction buyer id => (buyDutchAuction env buyer id).commit
  | .cancelDutchAuction caller id => (cancelDutchAuction env caller id).commit
  | .makeOffer offerer recipient collection tokenId amount offerAmount currency nftCollection
      nftTokenId duration =>
    (makeOffer env offerer recipient collection tokenId amount offerAmount currency nftCollection
      nftTokenId duration).commit
  | .acceptOffer caller id => (acceptOffer env caller id).commit
  | .cancelOffer caller id => (cancelOffer env caller id).commit
  | .bulkList seller items => (bulkList env seller items).commit
  | .bulkCreateAuctions seller items => (bulkCreateAuctions env seller items).commit

/-- A step of the chain as the contract sees it. -/
def step : Step me Entry → World Store → World Store := Step.apply exec

end Trellis.Market
