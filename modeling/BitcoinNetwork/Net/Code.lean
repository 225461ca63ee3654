import Mathlib.Data.List.Basic

/-!
# The codes that handlers are given (error.hpp)

Those that the modelled functions tell apart or report, and any other.
-/

namespace BitcoinNetwork.Net

inductive Code
  | success
  | operationFailed
  | operationCanceled
  | operationTimeout
  | serviceSuspended
  | serviceStopped
  | channelStopped
  | channelDropped
  | subscriberStopped
  | channelConflict
  | channelOverflow
  | acceptFailed
  | addressInUse
  | other (value : ℕ)
  deriving DecidableEq

end BitcoinNetwork.Net
