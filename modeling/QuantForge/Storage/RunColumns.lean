import QuantForge.Model.RunIdentity
import QuantForge.Storage.Common

namespace QuantForge

namespace IdentitySource

def all : List IdentitySource := [.legacy, .recorded, .adopted]

def asStr : IdentitySource → String
  | .legacy => "legacy"
  | .recorded => "recorded"
  | .adopted => "adopted"

def fromStr (value : String) : Except ModelError IdentitySource :=
  match all.find? fun source => source.asStr == value with
  | some source => .ok source
  | none => .error (.invalidIdentifier "identity source" value "legacy, recorded or adopted")

theorem fromStr_asStr (source : IdentitySource) : fromStr source.asStr = .ok source := by
  cases source <;> rfl

end IdentitySource

namespace VenueAccountId

/-- The ID the venue reports for the account. -/
def issued (id : String) : Except ModelError VenueAccountId :=
  (TextId.new "venue account id" "1 to 64 characters without spaces" id).map venue

def fingerprint (id : String) : Except ModelError VenueAccountId :=
  (TextId.new "key fingerprint" "16 lowercase hex digits" id).map keyFingerprint

end VenueAccountId

namespace Storage

/-- `mainnet`, `testnet` or `demo`, as the columns spell it. -/
def parseEnvironment (text : String) : Except ModelError Environment :=
  match [Environment.mainnet, .testnet, .demo].find? fun environment => environment.asStr == text with
  | some environment => .ok environment
  | none => .error (.invalidIdentifier "environment" text "mainnet, testnet or demo")

def kindVenue : String := "venue"

def kindKeyFingerprint : String := "key_fingerprint"

/-- The columns of `bot_runs` that hold a run's identity. -/
structure IdentityColumns where
  environment : Option String
  accountKind : Option String
  accountId : Option String
  identitySource : String
  deriving DecidableEq

/-- An identity as its columns. -/
def identityColumns (identity : RunIdentity) : IdentityColumns where
  environment := identity.environment.map Environment.asStr
  accountKind := identity.account.map fun
    | .venue _ => kindVenue
    | .keyFingerprint _ => kindKeyFingerprint
  accountId := identity.account.map fun
    | .venue id => id.text
    | .keyFingerprint fingerprint => fingerprint.text
  identitySource := identity.source.asStr

def debugText : Option String → String
  | some text => s!"Some({Text.debug text})"
  | none => "None"

def columnText : ModelError → String
  | .invalidIdentifier what value rule => s!"invalid {what} {Text.debug value}: {rule}"
  | _ => ""

def invalid {α : Type} (answer : Except ModelError α) : Except StorageError α :=
  answer.mapError fun error => .invalidArgument (columnText error)

def environmentFromColumn : Option String → Except StorageError (Option Environment)
  | none => .ok none
  | some text => (invalid (parseEnvironment text)).map some

/-- The account in its two columns. -/
def accountFromColumns (kind id : Option String) : Except StorageError (Option VenueAccountId) :=
  match kind, id with
  | none, none => .ok none
  | some kind, some id =>
    if kind = kindVenue then (invalid (VenueAccountId.issued id)).map some
    else if kind = kindKeyFingerprint then (invalid (VenueAccountId.fingerprint id)).map some
    else .error (.invalidArgument
      s!"account kind {debugText kind} with account {debugText id} is not an identity")
  | kind, id => .error (.invalidArgument
      s!"account kind {debugText kind} with account {debugText id} is not an identity")

/-- The identity in the columns. -/
def identityFromColumns (columns : IdentityColumns) : Except StorageError RunIdentity := do
  let environment ← environmentFromColumn columns.environment
  let account ← accountFromColumns columns.accountKind columns.accountId
  let source ← invalid (IdentitySource.fromStr columns.identitySource)
  return ⟨environment, account, source⟩

theorem parseEnvironment_asStr (environment : Environment) :
    parseEnvironment environment.asStr = .ok environment := by
  cases environment <;> rfl

theorem issued_text (id : IssuedAccountId) : VenueAccountId.issued id.text = .ok (.venue id) := by
  rw [VenueAccountId.issued, TextId.new, dif_pos id.accepted]
  rfl

theorem fingerprint_text (id : KeyFingerprint) :
    VenueAccountId.fingerprint id.text = .ok (.keyFingerprint id) := by
  rw [VenueAccountId.fingerprint, TextId.new, dif_pos id.accepted]
  rfl

theorem environmentFromColumn_map (environment : Option Environment) :
    environmentFromColumn (environment.map Environment.asStr) = .ok environment := by
  cases environment with
  | none => rfl
  | some environment =>
    simp only [Option.map_some, environmentFromColumn, parseEnvironment_asStr]
    rfl

theorem accountFromColumns_columns (identity : RunIdentity) :
    accountFromColumns (identityColumns identity).accountKind (identityColumns identity).accountId =
      .ok identity.account := by
  cases haccount : identity.account with
  | none =>
    simp only [identityColumns, haccount]
    rfl
  | some account =>
    cases account with
    | venue id =>
      simp only [identityColumns, haccount, Option.map_some, accountFromColumns, if_pos, issued_text]
      rfl
    | keyFingerprint id =>
      have apart : kindKeyFingerprint ≠ kindVenue := by decide
      simp only [identityColumns, haccount, Option.map_some, accountFromColumns, if_neg apart, if_pos,
        fingerprint_text]
      rfl

/-- An identity is read back from its columns as it was written. -/
theorem identityFromColumns_identityColumns (identity : RunIdentity) :
    identityFromColumns (identityColumns identity) = .ok identity := by
  have environment := environmentFromColumn_map identity.environment
  have account := accountFromColumns_columns identity
  have source := IdentitySource.fromStr_asStr identity.source
  simp only [identityFromColumns, account]
  simp only [identityColumns, environment, source]
  rfl

end Storage

end QuantForge
