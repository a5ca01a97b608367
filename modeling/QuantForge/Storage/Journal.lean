import QuantForge.Model.Run
import QuantForge.Model.RunIdentity
import QuantForge.Storage.Common
import Mathlib.Logic.Function.Basic

namespace QuantForge

/-- A run in the journal. -/
structure RunRow where
  state : BotRunState
  identity : RunIdentity

/-- The journal's runs by their IDs. -/
abbrev RunTable := String → Option RunRow

namespace RunTable

def alreadyExists (runId : String) : StorageError :=
  .invalidArgument s!"run {runId} already exists; resume it with --run-id, or start a new run"

def neverCreated (runId : String) : StorageError :=
  .invalidArgument
    s!"run {runId} was never created; a run is created with its identity before it is saved"

def createRun (runs : RunTable) (state : BotRunState) (identity : RunIdentity) :
    Except StorageError RunTable :=
  if identity.source = .legacy then
    .error (.invalidArgument (s!"run {state.runId} cannot be created as a legacy run; only a " ++
      "migration marks runs legacy"))
  else if (runs state.runId).isSome then .error (alreadyExists state.runId)
  else .ok (Function.update runs state.runId (some ⟨state, identity⟩))

def saveRunState (runs : RunTable) (state : BotRunState) : Except StorageError RunTable :=
  match runs state.runId with
  | none => .error (neverCreated state.runId)
  | some row => .ok (Function.update runs state.runId (some { row with state }))

theorem createRun_ok {runs next : RunTable} {state : BotRunState} {identity : RunIdentity}
    (h : runs.createRun state identity = .ok next) :
    runs state.runId = none ∧
      next = Function.update runs state.runId (some ⟨state, identity⟩) := by
  unfold createRun at h
  split_ifs at h with hlegacy hknown
  · exact ⟨by simpa using hknown, (Except.ok.inj h).symm⟩

theorem saveRunState_ok {runs next : RunTable} {state : BotRunState}
    (h : runs.saveRunState state = .ok next) :
    ∃ row, runs state.runId = some row ∧
      next = Function.update runs state.runId (some { row with state }) := by
  unfold saveRunState at h
  cases hrow : runs state.runId with
  | none => simp [hrow] at h
  | some row =>
    simp only [hrow, Except.ok.injEq] at h
    exact ⟨row, rfl, h.symm⟩

end RunTable

end QuantForge
