import QuantForge.Framework.Passes
import QuantForge.Storage.Common

namespace QuantForge.Migrate

/-- A row of `schema_migrations`. -/
structure MigrationRow where
  version : UInt32
  fromVersion : UInt32
  appliedAtMs : Int64
  quantforgeVersion : String
  deriving DecidableEq

/-- A database as its role sees it: the schema its tables go in, the version
that `meta` records where there is such a table, the migration log where there
is one, and the other tables. -/
structure SchemaStore (D : Type) where
  schema : Option String
  recorded : Option (Option String)
  log : Option (List MigrationRow)
  tables : D
  deriving DecidableEq

/-- Names the tables that exist. -/
class Catalog (D : Type) where
  names : D → List String

/-- Why a pass ended without an answer: the chain's own refusal, or a statement,
a commit or a connection that failed. -/
inductive Failure
  | refused (error : StorageError)
  | failed (text : String)
  deriving DecidableEq

/-- What a statement is given: the time, and what else it draws. -/
structure Hand (R : Type) where
  nowMs : Int64
  drawn : R

/-- A statement of a step. -/
inductive Change (D R : Type)
  | createMeta (ifNotExists : Bool)
  | createLog (ifNotExists : Bool)
  | run (statement : R → D → Except String D)

/-- A step of the chain, and the version it brings a store to. -/
structure Step (D R : Type) where
  toVersion : UInt32
  apply : List (Change D R)

/-- The chain, in order, and the version it ends at. -/
structure StepChain (D R : Type) where
  steps : List (Step D R)
  target : UInt32
  ascending : steps.Pairwise fun a b => a.toVersion < b.toVersion
  positive : ∀ step ∈ steps, 0 < step.toVersion
  within : ∀ step ∈ steps, step.toVersion ≤ target

/-- A statement of a pass after it has read the version. -/
inductive Work (D R : Type)
  | change (change : Change D R)
  | columns (fromVersion toVersion : UInt32)
  | recordVersion (toVersion : UInt32)
  | logStep (fromVersion toVersion : UInt32)

inductive Backend
  | sqlite
  | postgres
  deriving DecidableEq

variable {D R : Type}

def createTable {α : Type} (name : String) (ifNotExists : Bool) (fresh : α) :
    Option α → Except Failure (Option α)
  | none => .ok (some fresh)
  | some table =>
    if ifNotExists then .ok (some table) else .error (.failed s!"table {name} already exists")

def Change.execute (hand : Hand R) (s : SchemaStore D) :
    Change D R → Except Failure (SchemaStore D)
  | createMeta ifNotExists => do
    let recorded ← createTable "meta" ifNotExists none s.recorded
    .ok { s with recorded }
  | createLog ifNotExists => do
    let log ← createTable "schema_migrations" ifNotExists [] s.log
    .ok { s with log }
  | run statement =>
    match statement hand.drawn s.tables with
    | .ok tables => .ok { s with tables }
    | .error text => .error (.failed text)

/-- What a change does to the tables other than `meta` and the log. -/
def Change.onTables (hand : Hand R) (d : D) : Change D R → Except String D
  | createMeta _ | createLog _ => .ok d
  | run statement => statement hand.drawn d

def Work.execute (quantforgeVersion : String) (hand : Hand R) (s : SchemaStore D) :
    Work D R → Except Failure (SchemaStore D)
  | change c => c.execute hand s
  | columns fromVersion toVersion =>
    if fromVersion.toNat < 2 ^ 31 ∧ toVersion.toNat < 2 ^ 31 then .ok s
    else
      .error (.refused (.invalidArgument
        s!"schema version {toVersion.toNat} does not fit the migration log"))
  | recordVersion toVersion =>
    match s.recorded with
    | none => .error (.failed "no such table: meta")
    | some _ => .ok { s with recorded := some (some (toString toVersion.toNat)) }
  | logStep fromVersion toVersion =>
    match s.log with
    | none => .error (.failed "no such table: schema_migrations")
    | some rows =>
      if rows.any fun row => row.version = toVersion then
        .error (.failed "UNIQUE constraint failed: schema_migrations.version")
      else
        .ok { s with log := some (rows ++ [⟨toVersion, fromVersion, hand.nowMs, quantforgeVersion⟩]) }

/-- Rust's `u32` from text. -/
def parseDigits (digits : List Char) : Option UInt32 :=
  if digits ≠ [] ∧ digits.all Char.isDigit then
    let value := Nat.ofDigitChars 10 digits 0
    if value < 2 ^ 32 then some (UInt32.ofNat value) else none
  else none

def parseU32 (text : String) : Option UInt32 :=
  match text.toList with
  | '+' :: digits => parseDigits digits
  | digits => parseDigits digits

def readVersion (value : String) : Except Failure UInt32 :=
  match parseU32 value with
  | some version => .ok version
  | none =>
    .error (.refused (.invalidArgument
      s!"the database records schema version {Text.debug value}, which is not a number"))

/-- The tables that a QuantForge schema holds. -/
def TABLES : List String :=
  ["meta", "candles", "bot_runs", "order_events", "closed_trades", "segments", "segment_index",
    "segment_dirty", "store_control", "schema_migrations"]

/-- Which of them a database holds, by name. -/
def ours [Catalog D] (s : SchemaStore D) : List String :=
  let names := (if s.recorded.isSome then ["meta"] else []) ++
    (if s.log.isSome then ["schema_migrations"] else []) ++ Catalog.names s.tables
  (names.filter (TABLES.contains ·)).mergeSort fun a b => a ≤ b

/-- The version the store records: 0 for a file without a schema, and for a
database whose schema holds none of our tables. -/
def currentVersion [Catalog D] : Backend → Reads (SchemaStore D) (Except Failure UInt32)
  | .sqlite => .next fun s =>
    match s.recorded with
    | none => .done (.ok 0)
    | some _ => .next fun s =>
      match s.recorded with
      | none => .done (.error (.failed "no such table: meta"))
      | some none => .done (.ok 0)
      | some (some value) => .done (readVersion value)
  | .postgres => .next fun s =>
    match s.schema with
    | none => .done (.error (.refused (.invalidArgument
        ("the role's search_path names no schema that exists, so there is nowhere to create " ++
          "the tables"))))
    | some schema => .next fun s =>
      if ¬ "meta" ∈ ours s then
        let tables := String.intercalate ", " (ours s)
        if ours s = [] then .done (.ok 0)
        else .done (.error (.refused (.invalidArgument
          (s!"schema {schema} already holds {tables} but records no " ++
            "QuantForge schema version; give QuantForge a database of its own"))))
      else .next fun s =>
        match s.recorded with
        | none => .done (.error (.failed "relation meta does not exist"))
        | some none => .done (.error (.refused (.invalidArgument
            (s!"schema {schema} has a meta table but records no QuantForge schema version; give " ++
              "QuantForge a database of its own"))))
        | some (some value) => .done (readVersion value)

/-- Stamps the version and logs the step. -/
def stamp (fromVersion toVersion : UInt32) : Backend → List (Work D R)
  | .sqlite =>
    [.recordVersion toVersion, .change (.createLog true), .logStep fromVersion toVersion]
  | .postgres =>
    [.columns fromVersion toVersion, .recordVersion toVersion, .logStep fromVersion toVersion]

/-- What a pass does about the version it found: nothing at the target, the step
that leaves it, or on a store without a schema every step. -/
def pass (backend : Backend) (c : StepChain D R) (found : UInt32) :
    Except Failure (Option (List (Work D R))) :=
  if found = c.target then .ok none
  else if c.target < found then
    .error (.refused (.schemaUnsupported found.toNat c.target.toNat))
  else if found = 0 then
    .ok (some ((c.steps.flatMap (·.apply)).map .change ++ stamp 0 c.target backend))
  else
    match c.steps.find? (·.toVersion = found + 1) with
    | none => .error (.refused (.invalidArgument
        s!"no migration step leaves schema version {found.toNat}"))
    | some step => .ok (some (step.apply.map .change ++ stamp found step.toVersion backend))

/-- The chain's loop: `BEGIN IMMEDIATE` takes SQLite's lock, and PostgreSQL's is a
statement of the transaction. -/
def ensureCurrent [Catalog D] (backend : Backend) (c : StepChain D R) (quantforgeVersion : String) :
    Passes (SchemaStore D) (Work D R) (Hand R) Failure where
  look := (currentVersion backend).map (·.bind (pass backend c))
  work v hand s := v.execute quantforgeVersion hand s
  locksLate := backend = .postgres
  commitsIdle := backend = .postgres

/-- The statements of SQLite's steps on the tables other than `meta` and the log. -/
structure SqliteStatements (D R : Type) where
  candlesDdl : R → D → Except String D
  journalDdl : R → D → Except String D
  segmentsDdl : R → D → Except String D
  markEveryWindow : R → D → Except String D
  identityDdl : R → D → Except String D
  migrateIds : R → D → Except String D
  controlDdl : R → D → Except String D
  createRow : R → D → Except String D

def sqliteSteps (sql : SqliteStatements D R) : List (Step D R) :=
  [⟨1, [.createMeta true, .run sql.candlesDdl]⟩,
    ⟨2, [.run sql.journalDdl]⟩,
    ⟨3, []⟩,
    ⟨4, [.run sql.segmentsDdl, .run sql.markEveryWindow]⟩,
    ⟨5, [.run sql.identityDdl, .run sql.migrateIds, .run sql.controlDdl, .run sql.createRow]⟩]

def SCHEMA_VERSION : UInt32 := 5

theorem sqliteSteps_versions (sql : SqliteStatements D R) :
    (sqliteSteps sql).map (·.toVersion) = [1, 2, 3, 4, 5] := rfl

theorem sqliteSteps_within {sql : SqliteStatements D R} {step : Step D R}
    (h : step ∈ sqliteSteps sql) : 0 < step.toVersion ∧ step.toVersion ≤ SCHEMA_VERSION := by
  have all : ([1, 2, 3, 4, 5] : List UInt32).all (fun v => 0 < v ∧ v ≤ SCHEMA_VERSION) = true := by
    decide
  have version : step.toVersion ∈ (sqliteSteps sql).map (·.toVersion) := List.mem_map_of_mem h
  rw [sqliteSteps_versions] at version
  exact of_decide_eq_true (List.all_eq_true.mp all step.toVersion version)

def sqliteChain (sql : SqliteStatements D R) : StepChain D R where
  steps := sqliteSteps sql
  target := SCHEMA_VERSION
  ascending := by
    rw [← List.pairwise_map, sqliteSteps_versions]
    decide
  positive _ h := (sqliteSteps_within h).1
  within _ h := (sqliteSteps_within h).2

/-- PostgreSQL's chain: every table of schema 5, and the control record. -/
def postgresChain (otherTables createControlRow : R → D → Except String D) : StepChain D R where
  steps := [⟨5, [.createMeta false, .run otherTables, .createLog false, .run createControlRow]⟩]
  target := SCHEMA_VERSION
  ascending := List.pairwise_singleton _ _
  positive := by simp
  within := by simp [SCHEMA_VERSION]

end QuantForge.Migrate
