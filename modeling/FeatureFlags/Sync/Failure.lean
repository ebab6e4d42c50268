import FeatureFlags.Config.Settings
import FeatureFlags.Text.Period

/-!
# Sync/Failure — what goes wrong in the life of sources and resolvers
-/

namespace FeatureFlags

/-- **Why a source or a resolver cannot be had.** -/
inductive Failure
  | alreadyStarted
  | shutDown
  /-- No configuration came in so many milliseconds. -/
  | noConfiguration (deadline : Nat)
  | unusable (fault : SettingsFault)
  /-- The address of the service is no address. -/
  | badAddress (address : String)
  /-- The certificate cannot be read. -/
  | unreadableCertificate
  /-- The host cannot stand in a certificate. -/
  | badServerName
  deriving DecidableEq, Inhabited, Repr

namespace Failure

def message : Failure → String
  | alreadyStarted => "connector already started"
  | shutDown => "resolver has been shut down"
  | noConfiguration deadline => "no flag configuration received within " ++ Period.text deadline
  | unusable fault => "configuration error: " ++ fault.message
  | badAddress address => "invalid endpoint " ++ address
  | unreadableCertificate => "unreadable certificate"
  | badServerName => "invalid server name"

end Failure

end FeatureFlags
