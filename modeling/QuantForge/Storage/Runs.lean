import Mathlib.Data.String.Basic
import QuantForge.Framework.Table
import QuantForge.Storage.Journal
import QuantForge.Storage.RunColumns

namespace QuantForge

/-- A run's `state_json`: it loads as a run, it is a run of QuantForge 0.2.0 and
so without its execution mode, or it is an object that does not load, whether it
has an execution mode or not. -/
inductive StateJson
  | run (state : BotRunState)
  | unmoded (state : BotRunState)
  | unloadable (moded : Bool) (error : StorageError)
  deriving DecidableEq

namespace StateJson

/-- A run's state from its JSON. -/
def decodeState (runId : String) : StateJson → Except StorageError BotRunState
  | .run state => .ok state
  | .unloadable true error => .error error
  | .unmoded _ | .unloadable false _ => .error (.invalidArgument (s!"run {runId} was recorded by " ++
      "QuantForge 0.2.0 without its execution mode; adopt it with `quantforge store adopt-run " ++
      s!"--run-id {runId} --execution-mode <dry-run|live> --yes`, or start a new run"))

def hasMode : StateJson → Bool
  | .run _ => true
  | .unmoded _ => false
  | .unloadable moded _ => moded

/-- The record with the execution mode that the operator states. -/
def state (mode : ExecutionMode) : StateJson → StateJson
  | .unmoded state => .run { state with executionMode := mode }
  | json => json

/-- The record, where it loads as a run. -/
def loaded (runId : String) : StateJson → Except StorageError StateJson
  | .run state => .ok (.run state)
  | .unmoded _ => .error (.invalidArgument
      s!"run {runId} cannot be adopted: its state does not load (missing field `execution_mode`)")
  | .unloadable _ error => .error (.invalidArgument
      s!"run {runId} cannot be adopted: its state does not load ({error.toText})")

theorem decodeState_ok {runId : String} {json : StateJson} {state : BotRunState}
    (h : json.decodeState runId = .ok state) : json = .run state := by
  cases json with
  | run loaded => rw [Except.ok.inj h]
  | unmoded old => cases h
  | unloadable moded error => cases moded <;> cases h

end StateJson

namespace Storage

/-- Only an adopted identity adopts a run. -/
def refuseUnadopted (identity : RunIdentity) : Except StorageError Unit :=
  if identity.source ≠ .adopted then
    .error (.invalidArgument
      s!"an adopted run's identity source is adopted, not {identity.source.asStr}")
  else .ok ()

/-- The state an adoption writes for a run found with a source and a state, where
there is one. -/
def adoptedState (runId : String) (found : Option (String × StateJson))
    (executionMode : Option ExecutionMode) : Except StorageError StateJson :=
  match found with
  | none => .error (.invalidArgument s!"no run found for run_id={runId}")
  | some (source, json) =>
    if source ≠ IdentitySource.legacy.asStr then
      .error (.invalidArgument (s!"run {runId} already has an identity ({source}); only a " ++
        "legacy run is adopted"))
    else
      match json.hasMode, executionMode with
      | true, some _ => .error (.invalidArgument s!"run {runId} already records its execution mode")
      | false, none => .error (.invalidArgument
          s!"run {runId} recorded no execution mode; the operator states it")
      | false, some mode => (json.state mode).loaded runId
      | true, none => json.loaded runId

end Storage

/-- A run's row, without the columns that are never read back. -/
structure RunRecord where
  runId : String
  market : MarketId
  strategyName : String
  json : StateJson
  startedAtMs : Int64
  updatedAtMs : Int64
  identity : Storage.IdentityColumns
  deriving DecidableEq

/-- The rows of `bot_runs`. -/
abbrev RunRecords := Table RunRecord.runId

namespace RunRecords

open Storage

def createRun (runs : RunRecords) (state : BotRunState) (identity : RunIdentity) :
    Except StorageError RunRecords :=
  if identity.source = .legacy then
    .error (.invalidArgument (s!"run {state.runId} cannot be created as a legacy run; only a " ++
      "migration marks runs legacy"))
  else if (runs.find state.runId).isSome then .error (RunTable.alreadyExists state.runId)
  else .ok (runs.put {
    runId := state.runId
    market := state.market
    strategyName := state.strategyName
    json := .run state
    startedAtMs := state.startedAtMs
    updatedAtMs := state.updatedAtMs
    identity := identityColumns identity })

def saveRunState (runs : RunRecords) (state : BotRunState) : Except StorageError RunRecords :=
  match runs.find state.runId with
  | none => .error (RunTable.neverCreated state.runId)
  | some record =>
    .ok (runs.put { record with json := .run state, updatedAtMs := state.updatedAtMs })

def loadRunState (runs : RunRecords) (runId : String) : Except StorageError (Option BotRunState) :=
  match runs.find runId with
  | none => .ok none
  | some record => (record.json.decodeState runId).map some

def runIdentity (runs : RunRecords) (runId : String) : Except StorageError (Option RunIdentity) :=
  match runs.find runId with
  | none => .ok none
  | some record => (identityFromColumns record.identity).map some

/-- Whether a run was updated after another; of runs updated in the same
millisecond, started after it; of those, has the greater ID. -/
def later (a b : RunRecord) : Bool :=
  a.updatedAtMs > b.updatedAtMs || a.updatedAtMs == b.updatedAtMs &&
    (a.startedAtMs > b.startedAtMs || a.startedAtMs == b.startedAtMs && b.runId < a.runId)

def latest : List RunRecord → Option RunRecord
  | [] => none
  | record :: records =>
    match latest records with
    | some other => if later record other then some record else some other
    | none => some record

/-- The run of a market and strategy that was updated last. -/
def latestRunForMarket (runs : RunRecords) (market : MarketId) (strategyName : String) :
    Except StorageError (Option BotRunState) :=
  match latest (runs.rows.filter fun record =>
      record.market = market && record.strategyName = strategyName) with
  | none => .ok none
  | some record => (record.json.decodeState record.runId).map some

def adoptRun (runs : RunRecords) (runId : String) (identity : RunIdentity)
    (executionMode : Option ExecutionMode) : Except StorageError RunRecords := do
  refuseUnadopted identity
  let found := runs.find runId
  let json ← adoptedState runId (found.map fun record => (record.identity.identitySource, record.json))
    executionMode
  match found with
  | none => return runs
  | some record => return runs.put { record with json, identity := identityColumns identity }

/-- An adopted record is the legacy run's own, or has the mode that was stated. -/
theorem adoptedState_ok {runId source : String} {json adopted : StateJson}
    {mode : Option ExecutionMode} (h : adoptedState runId (some (source, json)) mode = .ok adopted) :
    source = IdentitySource.legacy.asStr ∧ ∃ state, adopted = .run state ∧
      (json = .run state ∨
        ∃ old stated, json = .unmoded old ∧ state = { old with executionMode := stated }) := by
  unfold adoptedState at h
  dsimp only at h
  split_ifs at h with other
  refine ⟨not_not.mp other, ?_⟩
  cases json with
  | run state =>
    cases mode with
    | some stated => cases h
    | none => exact ⟨state, (Except.ok.inj h).symm, .inl rfl⟩
  | unmoded old =>
    cases mode with
    | none => cases h
    | some stated => exact ⟨_, (Except.ok.inj h).symm, .inr ⟨old, stated, rfl, rfl⟩⟩
  | unloadable moded error => cases moded <;> cases mode <;> cases h

theorem find_runId {runs : RunRecords} {runId : String} {record : RunRecord}
    (h : runs.find runId = some record) : record.runId = runId := (runs.find_iff.mp h).2

/-- A row that is written is its run's, and the other runs keep theirs. -/
theorem find_put_or (runs : RunRecords) (record : RunRecord) (runId : String) :
    (record.runId = runId ∧ (runs.put record).find runId = some record) ∨
      (record.runId ≠ runId ∧ (runs.put record).find runId = runs.find runId) := by
  by_cases same : record.runId = runId
  · rw [← same]
    exact .inl ⟨rfl, runs.find_put record⟩
  · exact .inr ⟨same, runs.find_put_of_ne same⟩

theorem latest_mem {records : List RunRecord} {record : RunRecord} (h : latest records = some record) :
    record ∈ records := by
  induction records with
  | nil => cases h
  | cons first records ih =>
    unfold latest at h
    cases hrest : latest records with
    | none =>
      rw [hrest] at h
      rw [← Option.some.inj h]
      simp
    | some other =>
      rw [hrest] at h
      dsimp only at h
      split_ifs at h with hlater
      · rw [← Option.some.inj h]
        simp
      · rw [hrest] at ih
        exact List.mem_cons_of_mem _ (ih h)

theorem createRun_ok {runs next : RunRecords} {state : BotRunState} {identity : RunIdentity}
    (h : runs.createRun state identity = .ok next) :
    identity.source ≠ .legacy ∧ runs.find state.runId = none ∧
      next = runs.put ⟨state.runId, state.market, state.strategyName, .run state, state.startedAtMs,
        state.updatedAtMs, identityColumns identity⟩ := by
  unfold createRun at h
  split_ifs at h with hlegacy hknown
  exact ⟨hlegacy, by simpa using hknown, (Except.ok.inj h).symm⟩

theorem saveRunState_ok {runs next : RunRecords} {state : BotRunState}
    (h : runs.saveRunState state = .ok next) :
    ∃ record, runs.find state.runId = some record ∧
      next = runs.put { record with json := .run state, updatedAtMs := state.updatedAtMs } := by
  unfold saveRunState at h
  cases hrecord : runs.find state.runId with
  | none =>
    rw [hrecord] at h
    cases h
  | some record =>
    rw [hrecord] at h
    exact ⟨record, rfl, (Except.ok.inj h).symm⟩

theorem loadRunState_ok {runs : RunRecords} {runId : String} {state : BotRunState}
    (h : runs.loadRunState runId = .ok (some state)) :
    ∃ record, runs.find runId = some record ∧ record.json = .run state := by
  unfold loadRunState at h
  cases hrecord : runs.find runId with
  | none =>
    rw [hrecord] at h
    cases h
  | some record =>
    simp only [hrecord] at h
    refine ⟨record, rfl, ?_⟩
    cases hjson : record.json.decodeState runId with
    | error error =>
      rw [hjson] at h
      cases h
    | ok loaded =>
      rw [hjson] at h
      rw [← Option.some.inj (Except.ok.inj h)]
      exact StateJson.decodeState_ok hjson

theorem latestRunForMarket_ok {runs : RunRecords} {market : MarketId} {strategyName : String}
    {state : BotRunState} (h : runs.latestRunForMarket market strategyName = .ok (some state)) :
    ∃ record, runs.find record.runId = some record ∧ record.json = .run state := by
  unfold latestRunForMarket at h
  cases hlatest : latest (runs.rows.filter fun record =>
      record.market = market && record.strategyName = strategyName) with
  | none =>
    rw [hlatest] at h
    cases h
  | some record =>
    simp only [hlatest] at h
    have member := (List.mem_filter.mp (latest_mem hlatest)).1
    refine ⟨record, runs.find_iff.mpr ⟨member, rfl⟩, ?_⟩
    cases hjson : record.json.decodeState record.runId with
    | error error =>
      rw [hjson] at h
      cases h
    | ok loaded =>
      rw [hjson] at h
      rw [← Option.some.inj (Except.ok.inj h)]
      exact StateJson.decodeState_ok hjson

/-- An adoption finds a legacy run, and leaves a record that loads. -/
theorem adoptRun_ok {runs next : RunRecords} {runId : String} {identity : RunIdentity}
    {mode : Option ExecutionMode} (h : runs.adoptRun runId identity mode = .ok next) :
    identity.source = .adopted ∧ ∃ record state, runs.find runId = some record ∧
      record.identity.identitySource = IdentitySource.legacy.asStr ∧
      (record.json = .run state ∨
        ∃ old stated, record.json = .unmoded old ∧ state = { old with executionMode := stated }) ∧
      next = runs.put { record with json := .run state, identity := identityColumns identity } := by
  obtain ⟨_, hadopted, h⟩ := bind_ok.mp h
  have adopted : identity.source = .adopted := by
    by_contra other
    rw [refuseUnadopted, if_pos other] at hadopted
    cases hadopted
  obtain ⟨json, hjson, h⟩ := bind_ok.mp h
  cases hfound : runs.find runId with
  | none =>
    rw [hfound] at hjson
    cases hjson
  | some record =>
    rw [hfound, Option.map_some] at hjson
    rw [hfound] at h
    obtain ⟨legacy, state, rfl, from_⟩ := adoptedState_ok hjson
    exact ⟨adopted, record, state, rfl, legacy, from_, (Except.ok.inj h).symm⟩

end RunRecords

end QuantForge
