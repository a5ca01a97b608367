import QuantForge.Framework.Reader
import QuantForge.Framework.Table
import QuantForge.Model.JsonValue
import QuantForge.Model.Run
import QuantForge.Storage.RunColumns
import QuantForge.Storage.Runs

namespace QuantForge

/-- What `serde_json` does with a run's `state_json`: text to a value and back, and either to a
run's state. -/
class RunJson where
  parse : String → Except StorageError JsonValue
  print : JsonValue → String
  fromStr : String → Except StorageError BotRunState
  fromValue : JsonValue → Except String BotRunState

/-- A value that was parsed, or one with a member of it set to a text, loads from its own text
too where it loads as a run; and an object without a run's ID does not load. -/
class LawfulRunJson [RunJson] : Prop where
  loads_text : ∀ {json : String} {parsed value : JsonValue} {state : BotRunState},
    RunJson.parse json = .ok parsed →
    value = parsed ∨ (∃ name text, parsed.setMember name (.string text) = some value) →
    RunJson.fromValue value = .ok state → ∃ read, RunJson.fromStr (RunJson.print value) = .ok read
  needs_id : ∀ {members : List (String × JsonValue)} {state : BotRunState},
    RunJson.fromValue (.object members) = .ok state → members.lookup "run_id" ≠ none

namespace Adoption

/-- The name a mode has in JSON. -/
def token : ExecutionMode → JsonValue
  | .dryRun => .string "DryRun"
  | .live => .string "Live"

section

variable [RunJson]

def decodeState (runId json : String) : Except StorageError BotRunState :=
  match RunJson.fromStr json with
  | .ok state => .ok state
  | .error error => do
    let value ← RunJson.parse json
    if (value.get "execution_mode").isNone then
      .error (.invalidArgument (s!"run {runId} was recorded by QuantForge 0.2.0 without its " ++
        "execution mode; adopt it with `quantforge store adopt-run --run-id " ++
        s!"{runId} --execution-mode <dry-run|live> --yes`, or start a new run"))
    else .error error

/-- The record with the mode it is adopted with: `none` is a panic. -/
def withMode (runId : String) (state : JsonValue) (executionMode : Option ExecutionMode) :
    Option (Except StorageError JsonValue) :=
  match (state.get "execution_mode").isSome, executionMode with
  | true, some _ =>
    some (.error (.invalidArgument s!"run {runId} already records its execution mode"))
  | false, none => some (.error (.invalidArgument
      s!"run {runId} recorded no execution mode; the operator states it"))
  | false, some mode => (state.setMember "execution_mode" (token mode)).map .ok
  | true, none => some (.ok state)

/-- The adopted record as text, where it loads as a run. -/
def loaded (runId : String) (state : JsonValue) : Except StorageError String :=
  match RunJson.fromValue state with
  | .ok _ => .ok (RunJson.print state)
  | .error error => .error (.invalidArgument
      (s!"run {runId} cannot be adopted: its state does not load " ++ s!"({error})"))

/-- The state an adoption writes for a run found with a source and a state, where there is one:
`none` is a panic. -/
def adoptedState (runId : String) (found : Option (String × String))
    (executionMode : Option ExecutionMode) : Option (Except StorageError String) :=
  match found with
  | none => some (.error (.invalidArgument s!"no run found for run_id={runId}"))
  | some (source, json) =>
    if source ≠ IdentitySource.legacy.asStr then
      some (.error (.invalidArgument (s!"run {runId} already has an identity ({source}); only a " ++
        "legacy run is adopted")))
    else
      match RunJson.parse json with
      | .error error => some (.error error)
      | .ok state => (withMode runId state executionMode).map fun adopted =>
          adopted.bind (loaded runId)

end

/-- A row of `bot_runs`, with the columns that an adoption reads or writes. -/
structure Row where
  runId : String
  stateJson : String
  identity : Storage.IdentityColumns
  identityAtMs : Option Int64
  deriving DecidableEq

abbrev Rows := Table Row.runId

/-- One call of `adopt_run`, and the clock's answer in it. -/
structure Call where
  runId : String
  identity : RunIdentity
  executionMode : Option ExecutionMode
  nowUtcMs : Int64

/-- What the `UPDATE` of a call writes in the run's row. -/
def Row.adopt (row : Row) (stateJson : String) (call : Call) : Row :=
  { row with
    stateJson
    identity := Storage.identityColumns call.identity
    identityAtMs := some call.nowUtcMs }

section

variable [RunJson]

/-- The transaction of a call: what it commits, or its error. -/
def adoptRun (rows : Rows) (call : Call) : Option (Except StorageError Rows) :=
  match Storage.refuseUnadopted call.identity with
  | .error error => some (.error error)
  | .ok () =>
    let found := rows.find call.runId
    (adoptedState call.runId (found.map fun row => (row.identity.identitySource, row.stateJson))
      call.executionMode).map fun adopted => adopted.map fun stateJson =>
        match found with
        | none => rows
        | some row => rows.put (row.adopt stateJson call)

/-- The rows after a call. A transaction that was not committed leaves them as they were. -/
def after (rows : Rows) (call : Call) : Rows :=
  match adoptRun rows call with
  | some (.ok next) => next
  | _ => rows

end

section

variable [RunJson] {rows next : Rows} {call : Call} {runId source json text : String}
  {mode : Option ExecutionMode} {state adopted : JsonValue}

/-- A record that differs from an original in its execution mode only, and has the original's
where it recorded one and the operator's where it did not. -/
def AdoptedFrom (original : JsonValue) (mode : Option ExecutionMode) (adopted : JsonValue) : Prop :=
  ∃ before now, original = .object before ∧ adopted = .object now ∧
    (now.filter fun member => member.1 ≠ "execution_mode") =
      (before.filter fun member => member.1 ≠ "execution_mode") ∧
    now.lookup "execution_mode" = (before.lookup "execution_mode").or (mode.map token)

/-- Whether members can be written in a value. -/
def isMap : JsonValue → Bool
  | .object _ | .null => true
  | _ => false

omit [RunJson] in
theorem setMember_none {key : String} {value : JsonValue} :
    state.setMember key value = none ↔ isMap state = false := by
  cases state <;> simp [JsonValue.setMember, isMap]

omit [RunJson] in
theorem withMode_none : withMode runId state mode = none ↔ mode ≠ none ∧ isMap state = false := by
  cases mode with
  | none => cases hget : (state.get "execution_mode").isSome <;> simp [withMode, hget]
  | some mode =>
    cases hget : (state.get "execution_mode").isSome with
    | true =>
      have hmap : isMap state = true := by
        cases state <;> first | rfl | exact absurd hget (by simp [JsonValue.get])
      simp [withMode, hget, hmap]
    | false =>
      simp [withMode, hget, setMember_none]

theorem adoptedState_legacy (hparse : RunJson.parse json = .ok state) :
    adoptedState runId (some (IdentitySource.legacy.asStr, json)) mode =
      (withMode runId state mode).map fun adopted => adopted.bind (loaded runId) := by
  simp only [adoptedState, hparse]
  rw [if_neg (not_not.mpr rfl)]

/-- Where a record is written, the run was legacy and the record is its own, but for the mode. -/
theorem withMode_ok [LawfulRunJson] {run : BotRunState}
    (h : withMode runId state mode = some (.ok adopted))
    (hload : RunJson.fromValue adopted = .ok run) : AdoptedFrom state mode adopted := by
  unfold withMode at h
  cases hget : (state.get "execution_mode").isSome with
  | true =>
    rw [hget] at h
    cases mode with
    | some mode => cases h
    | none =>
      cases h
      cases state with
      | object members =>
        refine ⟨members, members, rfl, rfl, rfl, ?_⟩
        rw [Option.map_none, Option.or_none]
      | _ => simp [JsonValue.get] at hget
  | false =>
    rw [hget] at h
    cases mode with
    | none => cases h
    | some mode =>
      obtain ⟨_, hset, heq⟩ := Option.map_eq_some_iff.mp h
      cases heq
      cases state with
      | object members =>
        cases hset
        have hnone : members.lookup "execution_mode" = none := by
          simpa [JsonValue.get] using hget
        refine ⟨members, _, rfl, rfl, JsonValue.others_insertMember _ _ _, ?_⟩
        rw [JsonValue.lookup_insertMember hnone, hnone]
        rfl
      | null =>
        cases hset
        exact absurd rfl (LawfulRunJson.needs_id hload)
      | _ => cases hset

theorem adoptedState_ok {found : Option (String × String)}
    (h : adoptedState runId found mode = some (.ok text)) :
    ∃ json state adopted run, found = some (IdentitySource.legacy.asStr, json) ∧
      RunJson.parse json = .ok state ∧ withMode runId state mode = some (.ok adopted) ∧
      RunJson.fromValue adopted = .ok run ∧ text = RunJson.print adopted := by
  cases found with
  | none => cases h
  | some found =>
    obtain ⟨source, json⟩ := found
    by_cases hsource : source = IdentitySource.legacy.asStr
    · rw [hsource] at h
      cases hparse : RunJson.parse json with
      | error error =>
        simp only [adoptedState, hparse] at h
        rw [if_neg (not_not.mpr rfl)] at h
        cases h
      | ok state =>
        rw [adoptedState_legacy hparse] at h
        obtain ⟨answer, hmode, hanswer⟩ := Option.map_eq_some_iff.mp h
        cases answer with
        | error error => cases hanswer
        | ok adopted =>
          change loaded runId adopted = .ok text at hanswer
          cases hload : RunJson.fromValue adopted with
          | error error =>
            rw [loaded, hload] at hanswer
            cases hanswer
          | ok run =>
            rw [loaded, hload] at hanswer
            cases hanswer
            rw [hsource]
            exact ⟨json, state, adopted, run, rfl, hparse, hmode, hload, rfl⟩
    · simp only [adoptedState] at h
      rw [if_pos hsource] at h
      cases h

omit [RunJson] in
/-- An adopted record is the one that was parsed, or that with its mode set. -/
theorem withMode_set (h : withMode runId state mode = some (.ok adopted)) :
    adopted = state ∨ ∃ name text, state.setMember name (.string text) = some adopted := by
  unfold withMode at h
  cases hget : (state.get "execution_mode").isSome with
  | true =>
    rw [hget] at h
    cases mode with
    | some mode => cases h
    | none =>
      cases h
      exact .inl rfl
  | false =>
    rw [hget] at h
    cases mode with
    | none => cases h
    | some mode =>
      obtain ⟨set_, hset, heq⟩ := Option.map_eq_some_iff.mp h
      cases heq
      cases mode with
      | dryRun => exact .inr ⟨"execution_mode", "DryRun", hset⟩
      | live => exact .inr ⟨"execution_mode", "Live", hset⟩

/-- A record that was written loads as a run. -/
theorem decodeState_print [LawfulRunJson] {json : String} {run : BotRunState}
    (hparse : RunJson.parse json = .ok state)
    (hmode : withMode runId state mode = some (.ok adopted))
    (h : RunJson.fromValue adopted = .ok run) :
    ∃ read, decodeState runId (RunJson.print adopted) = .ok read := by
  obtain ⟨read, hread⟩ := LawfulRunJson.loads_text hparse (withMode_set hmode) h
  exact ⟨read, by rw [decodeState, hread]⟩

/-- What a call found, where it committed. -/
theorem adoptRun_ok (h : adoptRun rows call = some (.ok next)) :
    call.identity.source = .adopted ∧ ∃ row stateJson, rows.find call.runId = some row ∧
      row.identity.identitySource = IdentitySource.legacy.asStr ∧
      next = rows.put (row.adopt stateJson call) := by
  unfold adoptRun at h
  by_cases hsource : call.identity.source = .adopted
  · have haccept : Storage.refuseUnadopted call.identity = .ok () :=
      if_neg (not_not.mpr hsource)
    simp only [haccept] at h
    obtain ⟨answer, hanswer, hnext⟩ := Option.map_eq_some_iff.mp h
    cases answer with
    | error error => cases hnext
    | ok text =>
      obtain ⟨json, _, _, _, hfound, _⟩ := adoptedState_ok hanswer
      cases hrow : rows.find call.runId with
      | none =>
        rw [hrow] at hfound
        cases hfound
      | some row =>
        rw [hrow] at hfound hnext
        have hpair := Prod.mk.inj (Option.some.inj hfound)
        refine ⟨hsource, row, text, rfl, hpair.1, ?_⟩
        exact (Except.ok.inj hnext).symm
  · have hrefuse : ∃ error, Storage.refuseUnadopted call.identity = .error error :=
      ⟨_, if_pos hsource⟩
    obtain ⟨error, hrefuse⟩ := hrefuse
    rw [hrefuse] at h
    cases h

/-- A run that has an identity. -/
def Identified (rows : Rows) (runId : String) : Prop :=
  ∃ row, rows.find runId = some row ∧ row.identity.identitySource ≠ IdentitySource.legacy.asStr

theorem identified_next (h : adoptRun rows call = some (.ok next)) : Identified next call.runId := by
  obtain ⟨hsource, row, stateJson, hrow, _, rfl⟩ := adoptRun_ok h
  have hid : row.runId = call.runId := (rows.find_iff.mp hrow).2
  refine ⟨row.adopt stateJson call, ?_, ?_⟩
  · rw [← hid]
    exact rows.find_put (row.adopt stateJson call)
  · show call.identity.source.asStr ≠ _
    rw [hsource]
    decide

/-- A run keeps an identity over every later call. -/
theorem identified_after (h : Identified rows runId) (call : Call) :
    Identified (after rows call) runId := by
  unfold after
  split
  · rename_i next hnext
    by_cases hsame : call.runId = runId
    · rw [← hsame]
      exact identified_next hnext
    · obtain ⟨_, row, stateJson, hrow, _, rfl⟩ := adoptRun_ok hnext
      have hid : row.runId = call.runId := (rows.find_iff.mp hrow).2
      obtain ⟨kept, hkept, hidentity⟩ := h
      refine ⟨kept, ?_, hidentity⟩
      have hne : (row.adopt stateJson call).runId ≠ runId := by
        rw [← hid] at hsame
        exact hsame
      rw [rows.find_put_of_ne hne]
      exact hkept
  · exact h

theorem identified_run (calls : List Call) (h : Identified rows runId) :
    Identified (calls.foldl after rows) runId := by
  induction calls generalizing rows with
  | nil => exact h
  | cons call calls ih => exact ih (identified_after h call)

/-- A run that has an identity is not adopted. -/
theorem identified_refused (h : Identified rows call.runId) :
    ∃ error, adoptRun rows call = some (.error error) := by
  obtain ⟨row, hrow, hidentity⟩ := h
  unfold adoptRun
  cases Storage.refuseUnadopted call.identity with
  | error error => exact ⟨error, rfl⟩
  | ok _ =>
    simp only [hrow, Option.map_some, adoptedState]
    rw [if_pos hidentity]
    exact ⟨_, rfl⟩

/-- Adopting a run either refuses and changes nothing or writes a record that loads, once. -/
structure Sound (rows : Rows) (call : Call) : Prop where
  answers : adoptedState call.runId
    ((rows.find call.runId).map fun row => (row.identity.identitySource, row.stateJson))
      call.executionMode ≠ none
  record {text : String} : adoptedState call.runId
    ((rows.find call.runId).map fun row => (row.identity.identitySource, row.stateJson))
      call.executionMode = some (.ok text) →
        ∃ row original adopted, rows.find call.runId = some row ∧
          row.identity.identitySource = IdentitySource.legacy.asStr ∧
          RunJson.parse row.stateJson = .ok original ∧
          AdoptedFrom original call.executionMode adopted ∧ text = RunJson.print adopted ∧
          ∃ state, decodeState call.runId text = .ok state
  refused {error : StorageError} : adoptRun rows call = some (.error error) →
    after rows call = rows
  once {next : Rows} : adoptRun rows call = some (.ok next) → ∀ (calls : List Call) (again : Call),
    again.runId = call.runId → ∃ error, adoptRun (calls.foldl after next) again = some (.error error)

/-- A mode is stated for a legacy run whose state is neither an object nor a null. -/
def Misplaced (rows : Rows) (call : Call) : Prop :=
  ∃ row state, rows.find call.runId = some row ∧
    row.identity.identitySource = IdentitySource.legacy.asStr ∧
    RunJson.parse row.stateJson = .ok state ∧ call.executionMode ≠ none ∧ isMap state = false

theorem adoptedState_none :
    adoptedState call.runId
      ((rows.find call.runId).map fun row => (row.identity.identitySource, row.stateJson))
        call.executionMode = none ↔ Misplaced rows call := by
  constructor
  · intro h
    cases hrow : rows.find call.runId with
    | none =>
      rw [hrow] at h
      cases h
    | some row =>
      rw [hrow] at h
      simp only [Option.map_some, adoptedState] at h
      by_cases hsource : row.identity.identitySource = IdentitySource.legacy.asStr
      · rw [if_neg (not_not.mpr hsource)] at h
        cases hparse : RunJson.parse row.stateJson with
        | error error =>
          rw [hparse] at h
          cases h
        | ok state =>
          rw [hparse] at h
          obtain ⟨hmode, hmap⟩ := withMode_none.mp (Option.map_eq_none_iff.mp h)
          exact ⟨row, state, hrow, hsource, hparse, hmode, hmap⟩
      · rw [if_pos hsource] at h
        cases h
  · intro h
    obtain ⟨row, state, hrow, hsource, hparse, hmode, hmap⟩ := h
    rw [hrow, Option.map_some, hsource, adoptedState_legacy hparse]
    exact Option.map_eq_none_iff.mpr (withMode_none.mpr ⟨hmode, hmap⟩)

/-- An adoption is sound exactly where it does not state a mode for a legacy run whose state is
JSON that holds no members: there it panics. -/
theorem adoption_sound_iff [LawfulRunJson] (rows : Rows) (call : Call) :
    Sound rows call ↔ ¬ Misplaced rows call := by
  constructor
  · intro h hmisplaced
    exact h.answers (adoptedState_none.mpr hmisplaced)
  · intro h
    refine ⟨fun hnone => h (adoptedState_none.mp hnone), fun {text} htext => ?_, ?_, ?_⟩
    · obtain ⟨json, original, adopted, run, hfound, hparse, hmode, hload, rfl⟩ := adoptedState_ok htext
      obtain ⟨row, hrow, heq⟩ := Option.map_eq_some_iff.mp hfound
      obtain ⟨hsource, rfl⟩ := Prod.mk.inj heq
      exact ⟨row, original, adopted, hrow, hsource, hparse, withMode_ok hmode hload, rfl,
        decodeState_print hparse hmode hload⟩
    · intro error herror
      rw [after, herror]
    · intro next hnext calls again hagain
      have hidentified := identified_run calls (identified_next hnext)
      rw [← hagain] at hidentified
      exact identified_refused hidentified

end

/-- The state of a run of QuantForge 0.2.0, as its row has it. -/
def oldText : String :=
  "\x7b\"run_id\":\"run-a\",\"market\":\x7b\"exchange\":\"BinanceSpot\"," ++
    "\"symbol\":\"BTCUSDT\",\"interval\":\"M1\"\x7d," ++
    "\"strategy_name\":\"sma_cross\"," ++
    "\"strategy_config\":\x7b\"kind\":\"sma_cross\",\"fast\":20,\"slow\":50\x7d," ++
    "\"status\":\"Stopped\",\"last_processed_open_time_ms\":1792454460000," ++
    "\"started_at_ms\":1792454400000,\"updated_at_ms\":1792454520000," ++
    "\"stopped_at_ms\":1792454520000,\"last_error\":null," ++
    "\"position\":\x7b\"qty\":\"0\",\"entry_price\":null,\"entry_time_ms\":null," ++
    "\"entry_order_id\":null\x7d\x7d"

def oldMembers : List (String × JsonValue) :=
  [("last_error", .null),
    ("last_processed_open_time_ms", .number (.posInt 1792454460000)),
    ("market", .object [("exchange", .string "BinanceSpot"), ("interval", .string "M1"),
      ("symbol", .string "BTCUSDT")]),
    ("position", .object [("entry_order_id", .null), ("entry_price", .null),
      ("entry_time_ms", .null), ("qty", .string "0")]),
    ("run_id", .string "run-a"),
    ("started_at_ms", .number (.posInt 1792454400000)),
    ("status", .string "Stopped"),
    ("stopped_at_ms", .number (.posInt 1792454520000)),
    ("strategy_config", .object [("fast", .number (.posInt 20)), ("kind", .string "sma_cross"),
      ("slow", .number (.posInt 50))]),
    ("strategy_name", .string "sma_cross"),
    ("updated_at_ms", .number (.posInt 1792454520000))]

/-- The same with the mode that an operator stated. -/
def newText : String :=
  "\x7b\"execution_mode\":\"DryRun\",\"last_error\":null," ++
    "\"last_processed_open_time_ms\":1792454460000," ++
    "\"market\":\x7b\"exchange\":\"BinanceSpot\",\"interval\":\"M1\"," ++
    "\"symbol\":\"BTCUSDT\"\x7d,\"position\":\x7b\"entry_order_id\":null," ++
    "\"entry_price\":null,\"entry_time_ms\":null,\"qty\":\"0\"\x7d," ++
    "\"run_id\":\"run-a\",\"started_at_ms\":1792454400000,\"status\":\"Stopped\"," ++
    "\"stopped_at_ms\":1792454520000,\"strategy_config\":\x7b\"fast\":20," ++
    "\"kind\":\"sma_cross\",\"slow\":50\x7d,\"strategy_name\":\"sma_cross\"," ++
    "\"updated_at_ms\":1792454520000\x7d"

def newState : BotRunState where
  runId := "run-a"
  market := ⟨.binanceSpot, .btcUsdt, .m1⟩
  strategyName := "sma_cross"
  strategyConfig := "\x7b\"kind\":\"sma_cross\",\"fast\":20,\"slow\":50\x7d"
  executionMode := .dryRun
  status := .stopped
  lastProcessedOpenTimeMs := some 1792454460000
  startedAtMs := 1792454400000
  updatedAtMs := 1792454520000
  stoppedAtMs := some 1792454520000
  lastError := none
  position := .flat

/-- `serde_json` on these texts, and on an empty array. -/
@[reducible] def sampleRunJson : RunJson where
  parse text :=
    if text = oldText then .ok (.object oldMembers)
    else if text = "[]" then .ok (.array [])
    else .error (.unavailable "expected value at line 1 column 1")
  print _ := newText
  fromStr text :=
    if text = newText then .ok newState
    else .error (.unavailable "expected value at line 1 column 1")
  fromValue value :=
    if (value.get "run_id").isNone then .error "missing field `run_id`"
    else if (value.get "execution_mode").isNone then .error "missing field `execution_mode`"
    else .ok newState

attribute [local instance] sampleRunJson

theorem sampleRunJson_lawful : LawfulRunJson where
  loads_text _ _ _ := ⟨newState, if_pos rfl⟩
  needs_id {members state} h := by
    intro hnone
    change (if (members.lookup "run_id").isNone then _ else _) = _ at h
    rw [hnone] at h
    cases h

/-- A legacy run with this state. -/
def legacyRow (stateJson : String) : Row where
  runId := "run-a"
  stateJson := stateJson
  identity := ⟨none, none, none, "legacy"⟩
  identityAtMs := none

/-- An operator adopts it as a dry run on Binance's testnet. -/
def dryRunCall : Call where
  runId := "run-a"
  identity := .adopted (some .testnet) none
  executionMode := some .dryRun
  nowUtcMs := 1792454600000

theorem parse_old : RunJson.parse oldText = .ok (.object oldMembers) := if_pos rfl

theorem array_ne : "[]" ≠ oldText := by decide +kernel

theorem parse_array : RunJson.parse "[]" = .ok (.array []) :=
  (if_neg array_ne).trans (if_pos rfl)

theorem legacyRow_sound :
    Sound (Table.empty.put (legacyRow oldText)) dryRunCall ∧
      adoptedState "run-a" (some ("legacy", oldText)) (some .dryRun) = some (.ok newText) := by
  have lawful := sampleRunJson_lawful
  refine ⟨(adoption_sound_iff _ _).mpr ?_, ?_⟩
  · intro hmisplaced
    obtain ⟨row, state, hrow, _, hparse, _, hmap⟩ := hmisplaced
    cases hrow
    change RunJson.parse oldText = .ok state at hparse
    rw [parse_old] at hparse
    cases hparse
    cases hmap
  · exact (adoptedState_legacy parse_old).trans (by rfl)

/-- A legacy run whose state is an empty array: stating its mode panics. -/
theorem array_panics :
    adoptedState "run-a" (some ("legacy", "[]")) (some .dryRun) = none ∧
      ¬ Sound (Table.empty.put (legacyRow "[]")) dryRunCall := by
  have panics : adoptedState "run-a" (some ("legacy", "[]")) (some .dryRun) = none :=
    (adoptedState_legacy parse_array).trans (by rfl)
  exact ⟨panics, fun h => h.answers panics⟩

end Adoption

end QuantForge
