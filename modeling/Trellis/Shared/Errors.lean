import Trellis.Host

/-!
# Shared error codes

`shared::errors::Error` (shared/src/errors.rs:10–117): the errors that the modelled functions
return, with their codes.
-/

namespace Trellis

/-- `shared::errors::Error`. -/
inductive Error where
  | unauthorized
  | notFound
  | invalidAmount
  | overflow
  | contractPaused
  | insufficientBalance
  | withdrawalLimitExceeded
  | invalidArgument
  | notPaused
  | proposalNotFound
  | alreadyApproved
  | belowThreshold
  | alreadyExecuted
  | immutableEntry
  | invalidHash
  | metadataNotFound
  | alreadyInitialized
  | paymentInvalidAmount
  | paymentInsufficientBalance
  | paymentEscrowNotFound
  | paymentEscrowAlreadyReleased
  | paymentEscrowAlreadyRefunded
  | paymentEscrowExpired
  | paymentInvalidFeeRate
  | paymentFeeOverflow
  | paymentEscrowIdOverflow
  deriving DecidableEq, Repr

/-- `error as u32`. -/
def Error.code : Error → ℕ
  | unauthorized => 1
  | notFound => 2
  | invalidAmount => 3
  | overflow => 4
  | contractPaused => 5
  | insufficientBalance => 8
  | withdrawalLimitExceeded => 9
  | invalidArgument => 10
  | notPaused => 11
  | proposalNotFound => 12
  | alreadyApproved => 13
  | belowThreshold => 14
  | alreadyExecuted => 15
  | immutableEntry => 16
  | invalidHash => 17
  | metadataNotFound => 18
  | alreadyInitialized => 19
  | paymentInvalidAmount => 700
  | paymentInsufficientBalance => 701
  | paymentEscrowNotFound => 702
  | paymentEscrowAlreadyReleased => 703
  | paymentEscrowAlreadyRefunded => 704
  | paymentEscrowExpired => 706
  | paymentInvalidFeeRate => 708
  | paymentFeeOverflow => 709
  | paymentEscrowIdOverflow => 710

end Trellis
