import QuantForge.Framework.Reader
import QuantForge.Storage.Sqlite.LegacyOrders

namespace QuantForge.LegacyIds

open JsonValue Serde

variable [JsonText] {ρ σ : Type}

/-- A document's text after the rewrite: where it held a number at one of the paths, it is that of
the document with these numbers as text and nothing else changed, up to how a float is read from
its own text; and where it held none, it is the same text. -/
def Reworded (chosen : List JsonStep → Prop) (old new : String) : Prop :=
  ∃ value next changed, JsonText.parse old = .ok value ∧
    Rewording JsonNumber.text chosen value next changed ∧
    (changed = true → new = JsonText.print next ∧
      JsonText.parse new = .ok (next.mapFloats JsonText.reread)) ∧
    (changed = false → new = old)

/-- A run before the rewrite and after it. -/
structure RunKept (old : OldRun ρ) (new : Run ρ) : Prop where
  runId : new.runId = old.runId
  rest : new.rest = old.rest
  legacy : new.legacyStateJson = some old.stateJson
  state : Reworded StateId old.stateJson new.stateJson

/-- An order event as `list_order_events` reads it. -/
def readEvent [DecimalJson] (rawJson : String) : Except String (Option ExchangeOrder) :=
  (JsonText.parse rawJson).map orderOfJson

/-- An order event before the rewrite and after it, where one that 0.2.0 wrote is read as its
order with the IDs as text. -/
structure EventKept [DecimalJson] (old : OldEvent σ) (new : Event σ) : Prop where
  seq : new.seq = old.seq
  rest : new.rest = old.rest
  legacy : new.legacyRawJson = some old.rawJson
  raw : Reworded OrderId old.rawJson new.rawJson
  reads : ∀ order value, JsonText.parse old.rawJson = .ok value →
    OrderWritten IdNumber order value → readEvent new.rawJson = .ok (some order.canonical)

section

variable {ids : JsonValue → JsonValue × Bool} {chosen : List JsonStep → Prop}

theorem rewrite_read {json : String} {value : JsonValue} (h : JsonText.parse json = .ok value) :
    rewrite ids json =
      .ok (if (ids value).2 then some (JsonText.print (ids value).1) else none) := by
  rw [rewrite, h]
  rfl

variable (rewords : ∀ value, Rewording JsonNumber.text chosen value (ids value).1 (ids value).2)
include rewords

/-- Where no number is left at the paths, nothing is turned into text. -/
theorem ids_none {value : JsonValue}
    (h : ∀ path n, chosen path → value.headAt path ≠ some (.number n)) : (ids value).2 = false := by
  rw [Bool.eq_false_iff]
  intro hchanged
  obtain ⟨path, n, hchosen, hhead⟩ := (rewords value).any.mp hchanged
  exact h path n hchosen hhead

/-- A document's text is reworded, and a second rewrite finds nothing to do. -/
theorem rewrite_ok [LawfulJsonText] {json : String} {value : JsonValue}
    (h : JsonText.parse json = .ok value) :
    ∃ text, rewrite ids json = .ok text ∧ Reworded chosen json (text.getD json) ∧
      rewrite ids (text.getD json) = .ok none := by
  have hrewords := rewords value
  refine ⟨_, rewrite_read h, ?_⟩
  by_cases hchanged : (ids value).2 = true
  · rw [if_pos hchanged, Option.getD_some]
    have hback := LawfulJsonText.reads_back h hrewords.renumbered
    refine ⟨⟨value, _, _, h, hrewords, fun _ => ⟨rfl, hback⟩, fun hsame => ?_⟩, ?_⟩
    · rw [hchanged] at hsame
      cases hsame
    · have hnone : (ids ((ids value).1.mapFloats JsonText.reread)).2 = false := by
        apply ids_none rewords
        intro path n hchosen hhead
        rw [headAt_mapFloats] at hhead
        obtain ⟨head, hold, hmapped⟩ := Option.map_eq_some_iff.mp hhead
        cases head with
        | number m => exact hrewords.none_left hchosen m hold
        | _ => cases hmapped
      rw [rewrite_read hback, hnone]
      rfl
  · rw [if_neg hchanged, Option.getD_none]
    refine ⟨⟨value, _, _, h, hrewords, fun htrue => absurd htrue hchanged, fun _ => rfl⟩, ?_⟩
    rw [rewrite_read h, if_neg hchanged]

end

/-- An order event that 0.2.0 wrote is read after the rewrite. -/
theorem rewritten_reads [LawfulJsonText] [DecimalJson] [LawfulDecimalJson] {json : String}
    {text : Option String} {order : ExchangeOrder} {value : JsonValue}
    (hrewrite : rewrite orderIds json = .ok text) (h : JsonText.parse json = .ok value)
    (hwritten : OrderWritten IdNumber order value) :
    readEvent (text.getD json) = .ok (some order.canonical) := by
  have hrewords := orderIds_rewords value
  rw [rewrite_read h] at hrewrite
  cases hrewrite
  by_cases hchanged : (orderIds value).2 = true
  · have hback := LawfulJsonText.reads_back h hrewords.renumbered
    have hturned := orderText_floats JsonText.reread (orderIds_written hwritten)
    rw [if_pos hchanged, Option.getD_some, readEvent, hback]
    exact congrArg Except.ok (order_reads hturned)
  · have hnone : ∀ path n, OrderId path → value.headAt path ≠ some (.number n) := by
      intro path n hchosen hhead
      exact hchanged (hrewords.any.mpr ⟨path, n, hchosen, hhead⟩)
    rw [if_neg hchanged, Option.getD_none, readEvent, h]
    exact congrArg Except.ok (order_reads (order_numberless hwritten hnone))

section

variable [LawfulJsonText]

theorem planRun_ok {run : Run ρ} {value : JsonValue} (h : JsonText.parse run.stateJson = .ok value) :
    ∃ json, (∃ change, planRun run = .ok change) ∧
      Table.planned planRun run = { run with stateJson := json } ∧
      Reworded StateId run.stateJson json ∧
      ∀ again : Run ρ, again.stateJson = json → planRun again = .ok none := by
  obtain ⟨text, hrewrite, hreworded, hagain⟩ := rewrite_ok stateIds_rewords h
  have hplan : planRun run = .ok (text.map fun json =>
      ⟨fun run => { run with stateJson := json }, fun _ => rfl⟩) := by
    rw [planRun, hrewrite]
    rfl
  refine ⟨text.getD run.stateJson, ⟨_, hplan⟩, ?_, hreworded, ?_⟩
  · rw [Table.planned, hplan]
    cases text <;> rfl
  · intro again hjson
    rw [planRun, hjson, hagain]
    rfl

theorem planEvent_ok [DecimalJson] [LawfulDecimalJson] {event : Event σ} {value : JsonValue}
    (h : JsonText.parse event.rawJson = .ok value) :
    ∃ json, (∃ change, planEvent event = .ok change) ∧
      Table.planned planEvent event = { event with rawJson := json } ∧
      Reworded OrderId event.rawJson json ∧
      (∀ again : Event σ, again.rawJson = json → planEvent again = .ok none) ∧
      ∀ order, OrderWritten IdNumber order value → readEvent json = .ok (some order.canonical) := by
  obtain ⟨text, hrewrite, hreworded, hagain⟩ := rewrite_ok orderIds_rewords h
  have hplan : planEvent event = .ok (text.map fun json =>
      ⟨fun event => { event with rawJson := json }, fun _ => rfl⟩) := by
    rw [planEvent, hrewrite]
    rfl
  refine ⟨text.getD event.rawJson, ⟨_, hplan⟩, ?_, hreworded, ?_, ?_⟩
  · rw [Table.planned, hplan]
    cases text <;> rfl
  · intro again hjson
    rw [planEvent, hjson, hagain]
    rfl
  · intro order hwritten
    exact rewritten_reads hrewrite h hwritten

variable {old : OldTables ρ σ}

theorem runs_swept (hold : ∀ run ∈ old.runs.rows, ∃ value, JsonText.parse run.stateJson = .ok value) :
    ∃ runs, Table.sweep planRun (identityDdl old).runs.rows (identityDdl old).runs = .ok runs ∧
      List.Forall₂ RunKept old.runs.rows runs.rows ∧
      Table.sweep planRun runs.rows runs = .ok runs := by
  have hplan : ∀ run ∈ (identityDdl old).runs.rows, ∃ change, planRun run = .ok change := by
    intro run hrun
    obtain ⟨before, hbefore, hrun⟩ := List.mem_map.mp hrun
    obtain ⟨value, hvalue⟩ := hold before hbefore
    have hread : JsonText.parse run.stateJson = .ok value := by
      rw [← hrun]
      exact hvalue
    obtain ⟨_, hchange, _⟩ := planRun_ok hread
    exact hchange
  obtain ⟨runs, hruns, hrows⟩ := Table.sweep_own (identityDdl old).runs hplan
  have hmapped : runs.rows = old.runs.rows.map fun run => Table.planned planRun run.upgrade := by
    rw [hrows]
    exact List.map_map
  refine ⟨runs, hruns, ?_, ?_⟩
  · rw [hmapped, List.forall₂_map_right_iff, List.forall₂_same]
    intro run hrun
    obtain ⟨value, hvalue⟩ := hold run hrun
    have hread : JsonText.parse run.upgrade.stateJson = .ok value := hvalue
    obtain ⟨json, _, hplanned, hreworded, _⟩ := planRun_ok hread
    rw [hplanned]
    exact ⟨rfl, rfl, rfl, hreworded⟩
  · apply Table.sweep_idle
    intro again hagain
    rw [hmapped] at hagain
    obtain ⟨run, hrun, hsame⟩ := List.mem_map.mp hagain
    obtain ⟨value, hvalue⟩ := hold run hrun
    have hread : JsonText.parse run.upgrade.stateJson = .ok value := hvalue
    obtain ⟨json, _, hplanned, _, hidle⟩ := planRun_ok hread
    apply hidle again
    rw [← hsame, hplanned]

theorem events_swept [DecimalJson] [LawfulDecimalJson]
    (hold : ∀ event ∈ old.events.rows, ∃ value, JsonText.parse event.rawJson = .ok value) :
    ∃ events, Table.sweep planEvent (identityDdl old).events.rows (identityDdl old).events =
        .ok events ∧
      List.Forall₂ EventKept old.events.rows events.rows ∧
      Table.sweep planEvent events.rows events = .ok events := by
  have hplan : ∀ event ∈ (identityDdl old).events.rows, ∃ change, planEvent event = .ok change := by
    intro event hevent
    obtain ⟨before, hbefore, hevent⟩ := List.mem_map.mp hevent
    obtain ⟨value, hvalue⟩ := hold before hbefore
    have hread : JsonText.parse event.rawJson = .ok value := by
      rw [← hevent]
      exact hvalue
    obtain ⟨_, hchange, _⟩ := planEvent_ok hread
    exact hchange
  obtain ⟨events, hevents, hrows⟩ := Table.sweep_own (identityDdl old).events hplan
  have hmapped : events.rows =
      old.events.rows.map fun event => Table.planned planEvent event.upgrade := by
    rw [hrows]
    exact List.map_map
  refine ⟨events, hevents, ?_, ?_⟩
  · rw [hmapped, List.forall₂_map_right_iff, List.forall₂_same]
    intro event hevent
    obtain ⟨value, hvalue⟩ := hold event hevent
    have hread : JsonText.parse event.upgrade.rawJson = .ok value := hvalue
    obtain ⟨json, _, hplanned, hreworded, _, hreads⟩ := planEvent_ok hread
    rw [hplanned]
    refine ⟨rfl, rfl, rfl, hreworded, fun order other hother hwritten => ?_⟩
    have hsame : other = value := Except.ok.inj (hother.symm.trans hvalue)
    rw [hsame] at hwritten
    exact hreads order hwritten
  · apply Table.sweep_idle
    intro again hagain
    rw [hmapped] at hagain
    obtain ⟨event, hevent, hsame⟩ := List.mem_map.mp hagain
    obtain ⟨value, hvalue⟩ := hold event hevent
    have hread : JsonText.parse event.upgrade.rawJson = .ok value := hvalue
    obtain ⟨json, _, hplanned, _, hidle, _⟩ := planEvent_ok hread
    apply hidle again
    rw [← hsame, hplanned]

end

/-- What an object with some of its numbers as text is. -/
theorem renumbered_object {members : List (String × JsonValue)} {new : JsonValue} {key : String}
    {old : JsonValue} (hmembers : members = [(key, old)]) (h : Renumbered (.object members) new) :
    ∃ value, new = .object [(key, value)] ∧ Renumbered old value := by
  have hhead : some new.head = some (JsonHead.object [key]) := by
    rw [hmembers] at h
    cases h [] with
    | inl hsame => exact hsame
    | inr hsame => exact hsame
  cases new with
  | object given =>
    have hkeys : given.map Prod.fst = [key] := by
      injection hhead with hhead
      injection hhead
    obtain ⟨⟨name, value⟩, hgiven, hkey⟩ := List.map_eq_singleton_iff.mp hkeys
    have hname : name = key := hkey
    rw [hname] at hgiven
    refine ⟨value, by rw [hgiven], ?_⟩
    intro path
    have hpath := h (.key key :: path)
    have hnew : (JsonValue.object given).headAt (.key key :: path) = value.headAt path := by
      show (given.lookup key).bind _ = _
      rw [hgiven]
      simp
    have hold : (JsonValue.object members).headAt (.key key :: path) = old.headAt path := by
      show (members.lookup key).bind _ = _
      rw [hmembers]
      simp
    rw [hnew, hold] at hpath
    exact hpath
  | _ => cases hhead

theorem renumbered_number {n : JsonNumber} {new : JsonValue} (h : Renumbered (.number n) new) :
    new = .number n ∨ new = .string n.text := by
  have hhead : new.head = .number n ∨ new.head = .string n.text := by
    cases h [] with
    | inl hsame => exact .inl (Option.some.inj hsame)
    | inr hsame => exact .inr (Option.some.inj hsame)
  cases new with
  | number m =>
    cases hhead with
    | inl hsame => exact .inl (congrArg JsonValue.number (JsonHead.number.inj hsame))
    | inr hsame => cases hsame
  | string text =>
    cases hhead with
    | inl hsame => cases hsame
    | inr hsame => exact .inr (congrArg JsonValue.string (JsonHead.string.inj hsame))
  | _ =>
    cases hhead with
    | inl hsame => cases hsame
    | inr hsame => cases hsame

theorem renumbered_string {text : String} {new : JsonValue} (h : Renumbered (.string text) new) :
    new = .string text := by
  have hhead : new.head = .string text := by
    cases h [] with
    | inl hsame => exact Option.some.inj hsame
    | inr hsame => exact Option.some.inj hsame
  cases new with
  | string other => exact congrArg JsonValue.string (JsonHead.string.inj hhead)
  | _ => cases hhead

end QuantForge.LegacyIds

namespace QuantForge.LegacyIds

/-- A run's state with an ID in its position, and an order event with one. -/
def sampleState (id : JsonValue) : JsonValue :=
  .object [("position", .object [("entry_order_id", id)])]

def sampleOrder (id : JsonValue) : JsonValue := .object [("order_id", id)]

def sampleNumber : JsonNumber := .posInt 7

def sampleParse (text : String) : Except String JsonValue :=
  if text = "\x7b\"position\":\x7b\"entry_order_id\":7\x7d\x7d" then
    .ok (sampleState (.number sampleNumber))
  else if text = "\x7b\"position\":\x7b\"entry_order_id\":\"7\"\x7d\x7d" then
    .ok (sampleState (.string "7"))
  else if text = "\x7b\"order_id\":7\x7d" then .ok (sampleOrder (.number sampleNumber))
  else if text = "\x7b\"order_id\":\"7\"\x7d" then .ok (sampleOrder (.string "7"))
  else .error "expected value"

def samplePrint : JsonValue → String
  | .object [("position", .object [("entry_order_id", .number _)])] =>
    "\x7b\"position\":\x7b\"entry_order_id\":7\x7d\x7d"
  | .object [("position", .object [("entry_order_id", .string _)])] =>
    "\x7b\"position\":\x7b\"entry_order_id\":\"7\"\x7d\x7d"
  | .object [("order_id", .number _)] => "\x7b\"order_id\":7\x7d"
  | .object [("order_id", .string _)] => "\x7b\"order_id\":\"7\"\x7d"
  | _ => "null"

/-- `serde_json` on these two documents. -/
@[reducible] def sampleText : JsonText := ⟨sampleParse, samplePrint, fun _ => "0.5", id⟩

attribute [local instance] sampleText

theorem sampleText_lawful : LawfulJsonText := by
  constructor
  intro text old new hparse hren
  have leaf {value : JsonValue} (h : Renumbered (.number sampleNumber) value) :
      value = .number sampleNumber ∨ value = .string "7" := renumbered_number h
  unfold JsonText.parse sampleText sampleParse at hparse
  dsimp only at hparse
  split_ifs at hparse
  · cases hparse
    obtain ⟨position, hposition, hinner⟩ := renumbered_object rfl hren
    obtain ⟨value, hvalue, hid⟩ := renumbered_object rfl hinner
    cases leaf hid with
    | inl hsame => rw [hposition, hvalue, hsame]; rfl
    | inr hsame => rw [hposition, hvalue, hsame]; rfl
  · cases hparse
    obtain ⟨position, hposition, hinner⟩ := renumbered_object rfl hren
    obtain ⟨value, hvalue, hid⟩ := renumbered_object rfl hinner
    rw [hposition, hvalue, renumbered_string hid]
    rfl
  · cases hparse
    obtain ⟨value, hvalue, hid⟩ := renumbered_object rfl hren
    cases leaf hid with
    | inl hsame => rw [hvalue, hsame]; rfl
    | inr hsame => rw [hvalue, hsame]; rfl
  · cases hparse
    obtain ⟨value, hvalue, hid⟩ := renumbered_object rfl hren
    rw [hvalue, renumbered_string hid]
    rfl

/-- The text of a decimal reads as the decimal, with a negative zero as zero. -/
theorem fromExactText_canonical (d : Decimal) : Decimal.fromExactText d.toText = some d.canonical := by
  have hfraction : (if d.scale = 0 then none else some d.fractionDigits).getD [] =
      d.fractionDigits := by
    by_cases hscale : d.scale = 0
    · have hlen := d.fractionDigits_length
      rw [hscale] at hlen
      rw [if_pos hscale]
      exact (List.length_eq_zero_iff.mp hlen).symm
    · rw [if_neg hscale]
      rfl
  have hdigits : (Decimal.areDigits d.wholeDigits &&
      (if d.scale = 0 then none else some d.fractionDigits).all Decimal.areDigits) = true := by
    by_cases hscale : d.scale = 0
    · rw [if_pos hscale]
      simp [Decimal.areDigits_whole]
    · rw [if_neg hscale]
      simp [Decimal.areDigits_whole, d.areDigits_fraction hscale]
  simp only [Decimal.fromExactText, Decimal.signOf_toText, Decimal.pointOf_toText, hfraction,
    Decimal.whole_append_fraction, Decimal.digitsValue_digits, Decimal.fractionDigits_length,
    hdigits, if_true]
  rw [dif_pos ⟨d.mantissa_lt, d.scale_le⟩]
  unfold Decimal.canonical
  by_cases hzero : d.isZero = true
  · have hm : (d.mantissa != 0) = false := by simpa [Decimal.isZero] using hzero
    rw [if_pos hzero, hm, Bool.and_false]
  · have hm : (d.mantissa != 0) = true := by simpa [Decimal.isZero] using hzero
    rw [if_neg hzero, hm, Bool.and_true]

@[reducible] def exactDecimalJson : DecimalJson := ⟨fun json => json.asStr.bind Decimal.fromExactText⟩

attribute [local instance] exactDecimalJson

theorem exactDecimalJson_lawful : LawfulDecimalJson := by
  have hread (text : String) : DecimalJson.fromJson (.string text) = Decimal.fromExactText text := rfl
  constructor
  intro d
  rw [hread]
  exact fromExactText_canonical d

/-- A journal of one run and one order event, each with a number for an ID. -/
def sampleTables : OldTables Unit Unit where
  runs := Table.empty.put ⟨"run-b", "\x7b\"position\":\x7b\"entry_order_id\":7\x7d\x7d", ()⟩
  events := Table.empty.put ⟨1, some 7, "\x7b\"order_id\":7\x7d", ()⟩

end QuantForge.LegacyIds
