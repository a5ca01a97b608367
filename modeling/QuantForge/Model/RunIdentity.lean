import QuantForge.Model.Market

namespace QuantForge

/-- Where a journal's identity came from. -/
inductive IdentitySource
  | legacy
  | recorded
  | adopted
  deriving DecidableEq

/-- The environment and the account a run was recorded under. -/
structure RunIdentity where
  environment : Option Environment
  account : Option VenueAccountId
  source : IdentitySource
  deriving DecidableEq

namespace RunIdentity

def recorded (environment : Option Environment) (account : Option VenueAccountId) : RunIdentity :=
  ⟨environment, account, .recorded⟩

def adopted (environment : Option Environment) (account : Option VenueAccountId) : RunIdentity :=
  ⟨environment, account, .adopted⟩

def describeEnvironment (environment : Option Environment) : String :=
  environment.elim "undeclared" Environment.asStr

def describeAccount : Option VenueAccountId → String
  | none => "none"
  | some (.venue id) => s!"venue:{id.text}"
  | some (.keyFingerprint fingerprint) => s!"key_fingerprint:{fingerprint.text}"

/-- Whether an invocation with `current` may drive a run recorded with this
identity. -/
def matches_ (self current : RunIdentity) : Except ModelError Unit :=
  if self.source = .legacy then .error .unverifiedIdentity
  else if self.environment ≠ current.environment then
    .error (.identityMismatch "environment" (describeEnvironment self.environment)
      (describeEnvironment current.environment))
  else if self.account ≠ current.account then
    .error (.identityMismatch "account" (describeAccount self.account)
      (describeAccount current.account))
  else .ok ()

end RunIdentity

end QuantForge
