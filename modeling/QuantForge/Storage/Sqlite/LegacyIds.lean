import QuantForge.Framework.Sweep
import QuantForge.Model.JsonPath
import QuantForge.Storage.RunColumns
import Mathlib.Data.List.Forall2
import Mathlib.Data.String.Basic

namespace QuantForge.LegacyIds

open JsonValue

variable [JsonText] {ρ σ : Type}

/-- Turns a numeric `key` into its decimal text, and tells whether it did. -/
def numberToText (members : List (String × JsonValue)) (key : String) :
    List (String × JsonValue) × Bool :=
  match members.lookup key with
  | some (.number n) => (replaceMember key (.string n.text) members, true)
  | _ => (members, false)

/-- A run's state with the venue's ID in its position as text. -/
def stateIds (state : JsonValue) : JsonValue × Bool :=
  match state with
  | .object members =>
    match members.lookup "position" with
    | some (.object position) =>
      let turned := numberToText position "entry_order_id"
      (.object (replaceMember "position" (.object turned.1) members), turned.2)
    | _ => (state, false)
  | _ => (state, false)

def fillIds (fill : JsonValue) : JsonValue × Bool :=
  match fill with
  | .object members =>
    let turned := numberToText members "trade_id"
    (.object turned.1, turned.2)
  | _ => (fill, false)

def fillsIds (order : List (String × JsonValue)) : List (String × JsonValue) × Bool :=
  match order.lookup "fills" with
  | some (.array fills) =>
    (replaceMember "fills" (.array (fills.map fun fill => (fillIds fill).1)) order,
      fills.any fun fill => (fillIds fill).2)
  | _ => (order, false)

/-- An order event with the venue's IDs of the order and of its fills as text. -/
def orderIds (order : JsonValue) : JsonValue × Bool :=
  match order with
  | .object members =>
    let turned := numberToText members "order_id"
    let fills := fillsIds turned.1
    (.object fills.1, turned.2 || fills.2)
  | _ => (order, false)

/-- A row of `bot_runs` before schema 5, with its other columns as `rest`. -/
structure OldRun (ρ : Type) where
  runId : String
  stateJson : String
  rest : ρ

/-- A row of `order_events` before schema 5. -/
structure OldEvent (σ : Type) where
  seq : Int64
  orderId : Option Int64
  rawJson : String
  rest : σ

structure Run (ρ : Type) where
  runId : String
  stateJson : String
  rest : ρ
  identity : Storage.IdentityColumns
  identityAtMs : Option Int64
  legacyStateJson : Option String

structure Event (σ : Type) where
  seq : Int64
  orderId : Option String
  rawJson : String
  rest : σ
  legacyRawJson : Option String

/-- The two tables before schema 5. -/
structure OldTables (ρ σ : Type) where
  runs : Table (OldRun.runId (ρ := ρ))
  events : Table fun event : OldEvent σ => event.seq.toInt

structure Tables (ρ σ : Type) where
  runs : Table (Run.runId (ρ := ρ))
  events : Table fun event : Event σ => event.seq.toInt

/-- What the DDL makes of a run's row: the new columns, and its JSON once more. -/
def OldRun.upgrade (run : OldRun ρ) : Run ρ where
  runId := run.runId
  stateJson := run.stateJson
  rest := run.rest
  identity := ⟨none, none, none, "legacy"⟩
  identityAtMs := none
  legacyStateJson := some run.stateJson

def OldEvent.upgrade (event : OldEvent σ) : Event σ where
  seq := event.seq
  orderId := event.orderId.map fun id => toString id.toInt
  rawJson := event.rawJson
  rest := event.rest
  legacyRawJson := some event.rawJson

def identityDdl (tables : OldTables ρ σ) : Tables ρ σ where
  runs := tables.runs.mapRows OldRun.upgrade fun _ => rfl
  events := tables.events.mapRows OldEvent.upgrade fun _ => rfl

/-- What a row's JSON is written as, where that changes it. -/
def rewrite (ids : JsonValue → JsonValue × Bool) (json : String) : Except String (Option String) := do
  let value ← JsonText.parse json
  let turned := ids value
  return if turned.2 then some (JsonText.print turned.1) else none

def planRun (run : Run ρ) : Except String (Option (Table.Change (Run.runId (ρ := ρ)))) := do
  let json ← rewrite stateIds run.stateJson
  return json.map fun json => ⟨fun run => { run with stateJson := json }, fun _ => rfl⟩

def planEvent (event : Event σ) :
    Except String (Option (Table.Change fun event : Event σ => event.seq.toInt)) := do
  let json ← rewrite orderIds event.rawJson
  return json.map fun json => ⟨fun event => { event with rawJson := json }, fun _ => rfl⟩

/-- The schema 5 rewrite of both tables, from the rows that its two queries read. -/
def migrateIds (tables : Tables ρ σ) : Except String (Tables ρ σ) := do
  let runs ← Table.sweep planRun tables.runs.rows tables.runs
  let events ← Table.sweep planEvent tables.events.rows tables.events
  return ⟨runs, events⟩

/-- Where a run's state holds a venue's ID. -/
def StateId (path : List JsonStep) : Prop := path = [.key "position", .key "entry_order_id"]

def FillId (path : List JsonStep) : Prop := ∃ index, path = [.key "fills", .item index, .key "trade_id"]

/-- Where an order event holds a venue's IDs. -/
def OrderId (path : List JsonStep) : Prop := path = [.key "order_id"] ∨ FillId path

omit [JsonText] in
theorem headAt_child {step : JsonStep} {path : List JsonStep} {value : JsonValue} {n : JsonNumber}
    (h : value.headAt (step :: path) = some (.number n)) :
    ∃ next, child step value = some next ∧ next.headAt path = some (.number n) :=
  Option.bind_eq_some_iff.mp h

theorem numberToText_rewords (members : List (String × JsonValue)) (key : String) :
    Rewording JsonNumber.text (· = [.key key]) (.object members)
      (.object (numberToText members key).1) (numberToText members key).2 := by
  have hpath : ∀ path, (∃ rest, path = .key key :: rest ∧ rest = []) ↔ path = [JsonStep.key key] := by
    intro path
    constructor
    · intro h
      obtain ⟨rest, hrest, hnil⟩ := h
      rw [hrest, hnil]
    · intro h
      exact ⟨[], h, rfl⟩
  have hnone (h : ∀ n, members.lookup key ≠ some (.number n)) :
      Rewording JsonNumber.text (· = [.key key]) (.object members) (.object members) false := by
    apply Rewording.refl
    intro path n hchosen hhead
    rw [hchosen] at hhead
    obtain ⟨next, hnext, hnumber⟩ := headAt_child hhead
    have hlookup : members.lookup key = some next := hnext
    have hwhole : some next.head = some (JsonHead.number n) := hnumber
    cases next with
    | number m => exact h m hlookup
    | _ => cases hwhole
  unfold numberToText
  cases hlookup : members.lookup key with
  | none => exact hnone fun n h => by rw [hlookup] at h; cases h
  | some found =>
    cases found with
    | number n => exact (Rewording.member hlookup (Rewording.number n)).chosen_iff hpath
    | _ => exact hnone fun n h => by rw [hlookup] at h; cases h

theorem stateIds_rewords (state : JsonValue) :
    Rewording JsonNumber.text StateId state (stateIds state).1 (stateIds state).2 := by
  have hpath : ∀ path, (∃ rest, path = .key "position" :: rest ∧ rest = [.key "entry_order_id"]) ↔
      StateId path := by
    intro path
    constructor
    · intro h
      obtain ⟨rest, hrest, hentry⟩ := h
      rw [hrest, hentry]
      rfl
    · intro h
      exact ⟨_, h, rfl⟩
  have hnone (h : ∀ position, child (.key "position") state ≠ some (.object position)) :
      Rewording JsonNumber.text StateId state state false := by
    apply Rewording.refl
    intro path n hchosen hhead
    rw [hchosen] at hhead
    obtain ⟨position, hposition, hentry⟩ := headAt_child hhead
    obtain ⟨next, hnext, _⟩ := headAt_child hentry
    cases position with
    | object members => exact h members hposition
    | _ => cases hnext
  have hother {members : List (String × JsonValue)} {found : Option JsonValue}
      (hstate : state = .object members) (hlookup : members.lookup "position" = found)
      (hno : ∀ position, found ≠ some (.object position)) :
      Rewording JsonNumber.text StateId state state false := by
    apply hnone
    intro position hchild
    rw [hstate] at hchild
    exact hno position (hlookup.symm.trans hchild)
  cases state with
  | object members =>
    unfold stateIds
    dsimp only
    cases hlookup : members.lookup "position" with
    | none => exact hother rfl hlookup fun position h => by cases h
    | some found =>
      cases found with
      | object position =>
        exact (Rewording.member hlookup (numberToText_rewords position "entry_order_id")).chosen_iff
          hpath
      | _ => exact hother rfl hlookup fun position h => by cases h
  | _ => exact hnone fun position h => by cases h

theorem fillIds_rewords (fill : JsonValue) :
    Rewording JsonNumber.text (· = [.key "trade_id"]) fill (fillIds fill).1 (fillIds fill).2 := by
  unfold fillIds
  cases fill with
  | object members => exact numberToText_rewords members "trade_id"
  | _ =>
    apply Rewording.refl
    intro path n hchosen hhead
    rw [hchosen] at hhead
    cases hhead

theorem fillsIds_rewords (order : List (String × JsonValue)) :
    Rewording JsonNumber.text FillId (.object order) (.object (fillsIds order).1)
      (fillsIds order).2 := by
  have hpath : ∀ path, (∃ rest, path = .key "fills" :: rest ∧
      ∃ index last, rest = .item index :: last ∧ last = [.key "trade_id"]) ↔ FillId path := by
    intro path
    constructor
    · intro h
      obtain ⟨rest, hrest, index, last, hitem, hlast⟩ := h
      exact ⟨index, by rw [hrest, hitem, hlast]⟩
    · intro h
      obtain ⟨index, hfill⟩ := h
      exact ⟨_, hfill, index, _, rfl, rfl⟩
  have hnone (h : ∀ fills, order.lookup "fills" ≠ some (.array fills)) :
      Rewording JsonNumber.text FillId (.object order) (.object order) false := by
    apply Rewording.refl
    intro path n hchosen hhead
    obtain ⟨index, hfill⟩ := hchosen
    rw [hfill] at hhead
    obtain ⟨fills, hfills, hitem⟩ := headAt_child hhead
    obtain ⟨next, hnext, _⟩ := headAt_child hitem
    cases fills with
    | array items => exact h items hfills
    | _ => cases hnext
  unfold fillsIds
  cases hlookup : order.lookup "fills" with
  | none => exact hnone fun fills h => by rw [hlookup] at h; cases h
  | some found =>
    cases found with
    | array fills =>
      exact (Rewording.member hlookup
        (Rewording.items fun fill _ => fillIds_rewords fill)).chosen_iff hpath
    | _ => exact hnone fun fills h => by rw [hlookup] at h; cases h

theorem orderIds_rewords (order : JsonValue) :
    Rewording JsonNumber.text OrderId order (orderIds order).1 (orderIds order).2 := by
  unfold orderIds
  cases order with
  | object members =>
    exact (numberToText_rewords members "order_id").trans (fillsIds_rewords _)
  | _ =>
    apply Rewording.refl
    intro path n hchosen hhead
    cases hchosen with
    | inl horder =>
      rw [horder] at hhead
      cases hhead
    | inr hfill =>
      obtain ⟨index, hpath⟩ := hfill
      rw [hpath] at hhead
      cases hhead

end QuantForge.LegacyIds
