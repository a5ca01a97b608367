import QuantForge.Framework.Reader
import QuantForge.Model.Futures.Coverage
import QuantForge.Model.Futures.Instrument
import QuantForge.Model.MarketSerde

namespace QuantForge

open Serde

/-- A stop sent with the entry order, where the venue supports attaching one. -/
structure AttachedStop where
  triggerPrice : Price
  basis : TriggerBasis
  deriving DecidableEq

/-- A market order that opens or adds to a position. -/
structure EntryOrder where
  instrument : InstrumentId
  side : PositionSide
  quantity : Quantity
  clientOrderId : ClientOrderId
  attachedStop : Option AttachedStop
  deriving DecidableEq

/-- A reduce-only market order that closes some or all of a position. -/
structure CloseOrder where
  instrument : InstrumentId
  closes : PositionSide
  quantity : Quantity
  clientOrderId : ClientOrderId
  deriving DecidableEq

/-- A stop to place, on the side opposite the position. -/
structure StopRequest where
  instrument : InstrumentId
  positionSide : PositionSide
  triggerPrice : Price
  basis : TriggerBasis
  priceProtection : PriceProtection
  scope : StopScope
  clientOrderId : ClientOrderId
  deriving DecidableEq

/-- Refuses an instrument outside the universe, a quantity in the wrong unit or of zero, and a
client ID that is not an entry's. -/
def EntryOrder.new (instrument : FuturesInstrument) (side : PositionSide) (quantity : Quantity)
    (clientOrderId : ClientOrderId) (attachedStop : Option AttachedStop) :
    Except ModelError EntryOrder := do
  instrument.universeRule.mapError fun refusal =>
    .unsupportedInstrument instrument.id.toText refusal.toText
  let quantity ← Quantity.positive "order quantity" (← quantity.inUnitOf instrument.id.category)
  expectLeg clientOrderId [.entry]
  return { instrument := instrument.id, side, quantity, clientOrderId, attachedStop }

/-- `closes` is the side of the position being closed. -/
def CloseOrder.new (instrument : InstrumentId) (closes : PositionSide) (quantity : Quantity)
    (clientOrderId : ClientOrderId) : Except ModelError CloseOrder := do
  let quantity ← Quantity.positive "order quantity" (← quantity.inUnitOf instrument.category)
  expectLeg clientOrderId [.close]
  return { instrument, closes, quantity, clientOrderId }

namespace StopRequest

/-- The checks of a stop's scope: a whole-position stop takes a stop leg's ID, a bridge a bridge
leg's, and a bridge's quantity is positive and in the instrument's unit. -/
def checkScope (instrument : InstrumentId) (scope : StopScope) (clientOrderId : ClientOrderId) :
    Except ModelError Unit :=
  match scope with
  | .wholePosition => expectLeg clientOrderId [.stop]
  | .quantity quantity => do
    let _ ← Quantity.positive "stop quantity" (← quantity.inUnitOf instrument.category)
    expectLeg clientOrderId [.bridge]

def new (instrument : InstrumentId) (positionSide : PositionSide) (triggerPrice : Price)
    (basis : TriggerBasis) (priceProtection : PriceProtection) (scope : StopScope)
    (clientOrderId : ClientOrderId) : Except ModelError StopRequest := do
  checkScope instrument scope clientOrderId
  return { instrument, positionSide, triggerPrice, basis, priceProtection, scope, clientOrderId }

end StopRequest

namespace TriggerBasis

def all : List TriggerBasis := [.mark, .last, .index]

def token : TriggerBasis → String
  | .mark => "Mark"
  | .last => "Last"
  | .index => "Index"

end TriggerBasis

namespace PriceProtection

def all : List PriceProtection := [.enabled, .disabled, .notApplicable]

def token : PriceProtection → String
  | .enabled => "Enabled"
  | .disabled => "Disabled"
  | .notApplicable => "NotApplicable"

end PriceProtection

namespace Serde

instance : Serde TriggerBasis := unitEnum TriggerBasis.token TriggerBasis.all

instance : Serde PriceProtection := unitEnum PriceProtection.token PriceProtection.all

theorem basis_reads_back : ReadsBack TriggerBasis := by
  intro basis
  cases basis <;> rfl

theorem protection_reads_back : ReadsBack PriceProtection := by
  intro protection
  cases protection <;> rfl

variable [DecimalParser]

def attachedMembers : List String := ["trigger_price", "basis"]

def attachedGiven (stop : AttachedStop) : List (String × JsonValue) :=
  [("trigger_price", serialize stop.triggerPrice), ("basis", serialize stop.basis)]

def attachedOfJson (json : JsonValue) : Option AttachedStop := do
  let given ← members attachedMembers json
  let triggerPrice ← readMember given "trigger_price"
  let basis ← readMember given "basis"
  return { triggerPrice, basis }

instance : Serde AttachedStop := ⟨fun stop => .object (attachedGiven stop), attachedOfJson, none⟩

def scopeToJson : StopScope → JsonValue
  | .wholePosition => .string "WholePosition"
  | .quantity quantity => .object [("Quantity", serialize quantity)]

def scopeOfJson (json : JsonValue) : Option StopScope :=
  match variant json with
  | some ("WholePosition", payload) => if payload.all isNull then some .wholePosition else none
  | some ("Quantity", some payload) => (deserialize payload).map .quantity
  | _ => none

instance : Serde StopScope := ⟨scopeToJson, scopeOfJson, none⟩

def entryMembers : List String :=
  ["instrument", "side", "quantity", "client_order_id", "attached_stop"]

def entryGiven (order : EntryOrder) : List (String × JsonValue) :=
  [("instrument", serialize order.instrument), ("side", serialize order.side),
    ("quantity", serialize order.quantity), ("client_order_id", serialize order.clientOrderId),
    ("attached_stop", serialize order.attachedStop)]

def entryOfJson (json : JsonValue) : Option EntryOrder := do
  let given ← members entryMembers json
  let instrument ← readMember given "instrument"
  let side ← readMember given "side"
  let quantity ← readMember given "quantity"
  let clientOrderId ← readMember given "client_order_id"
  let attachedStop ← readMember given "attached_stop"
  return { instrument, side, quantity, clientOrderId, attachedStop }

instance : Serde EntryOrder := ⟨fun order => .object (entryGiven order), entryOfJson, none⟩

def closeMembers : List String := ["instrument", "closes", "quantity", "client_order_id"]

def closeGiven (order : CloseOrder) : List (String × JsonValue) :=
  [("instrument", serialize order.instrument), ("closes", serialize order.closes),
    ("quantity", serialize order.quantity), ("client_order_id", serialize order.clientOrderId)]

def closeOfJson (json : JsonValue) : Option CloseOrder := do
  let given ← members closeMembers json
  let instrument ← readMember given "instrument"
  let closes ← readMember given "closes"
  let quantity ← readMember given "quantity"
  let clientOrderId ← readMember given "client_order_id"
  return { instrument, closes, quantity, clientOrderId }

instance : Serde CloseOrder := ⟨fun order => .object (closeGiven order), closeOfJson, none⟩

def stopMembers : List String :=
  ["instrument", "position_side", "trigger_price", "basis", "price_protection", "scope",
    "client_order_id"]

def stopGiven (stop : StopRequest) : List (String × JsonValue) :=
  [("instrument", serialize stop.instrument),
    ("position_side", serialize stop.positionSide),
    ("trigger_price", serialize stop.triggerPrice), ("basis", serialize stop.basis),
    ("price_protection", serialize stop.priceProtection), ("scope", serialize stop.scope),
    ("client_order_id", serialize stop.clientOrderId)]

def stopOfJson (json : JsonValue) : Option StopRequest := do
  let given ← members stopMembers json
  let instrument ← readMember given "instrument"
  let positionSide ← readMember given "position_side"
  let triggerPrice ← readMember given "trigger_price"
  let basis ← readMember given "basis"
  let priceProtection ← readMember given "price_protection"
  let scope ← readMember given "scope"
  let clientOrderId ← readMember given "client_order_id"
  return { instrument, positionSide, triggerPrice, basis, priceProtection, scope, clientOrderId }

instance : Serde StopRequest := ⟨fun stop => .object (stopGiven stop), stopOfJson, none⟩

section

variable [RustDecimal]

theorem attached_reads_back : ReadsBack (Option AttachedStop) := by
  intro attached
  cases attached with
  | none => rfl
  | some stop =>
    have once : ((attachedGiven stop).map Prod.fst).Nodup := show attachedMembers.Nodup by decide
    show (attachedOfJson (.object (attachedGiven stop))).map some = some (some stop)
    rw [attachedOfJson, members_bind attachedMembers rfl once,
      written_bind price_reads_back once (.head _),
      written_bind basis_reads_back once (.tail _ (.head _))]
    rfl

theorem scope_reads_back : ReadsBack StopScope := by
  intro scope
  cases scope with
  | wholePosition =>
    show scopeOfJson (scopeToJson .wholePosition) = some .wholePosition
    simp [scopeOfJson, scopeToJson, variant]
  | quantity quantity =>
    show scopeOfJson (scopeToJson (.quantity quantity)) = some (.quantity quantity)
    simp [scopeOfJson, scopeToJson, variant, quantity_reads_back quantity]

theorem entry_reads_back : ReadsBack EntryOrder := by
  intro order
  have once : ((entryGiven order).map Prod.fst).Nodup := show entryMembers.Nodup by decide
  show entryOfJson (.object (entryGiven order)) = some order
  rw [entryOfJson, members_bind entryMembers rfl once,
    written_bind instrument_reads_back once (.head _),
    written_bind side_reads_back once (.tail _ (.head _)),
    written_bind quantity_reads_back once (.tail _ (.tail _ (.head _))),
    written_bind clientOrderId_reads_back once (.tail _ (.tail _ (.tail _ (.head _)))),
    written_bind attached_reads_back once (.tail _ (.tail _ (.tail _ (.tail _ (.head _)))))]
  rfl

theorem close_reads_back : ReadsBack CloseOrder := by
  intro order
  have once : ((closeGiven order).map Prod.fst).Nodup := show closeMembers.Nodup by decide
  show closeOfJson (.object (closeGiven order)) = some order
  rw [closeOfJson, members_bind closeMembers rfl once,
    written_bind instrument_reads_back once (.head _),
    written_bind side_reads_back once (.tail _ (.head _)),
    written_bind quantity_reads_back once (.tail _ (.tail _ (.head _))),
    written_bind clientOrderId_reads_back once (.tail _ (.tail _ (.tail _ (.head _))))]
  rfl

theorem stop_reads_back : ReadsBack StopRequest := by
  intro stop
  have once : ((stopGiven stop).map Prod.fst).Nodup := show stopMembers.Nodup by decide
  show stopOfJson (.object (stopGiven stop)) = some stop
  rw [stopOfJson, members_bind stopMembers rfl once,
    written_bind instrument_reads_back once (.head _),
    written_bind side_reads_back once (.tail _ (.head _)),
    written_bind price_reads_back once (.tail _ (.tail _ (.head _))),
    written_bind basis_reads_back once (.tail _ (.tail _ (.tail _ (.head _)))),
    written_bind protection_reads_back once (.tail _ (.tail _ (.tail _ (.tail _ (.head _))))),
    written_bind scope_reads_back once (.tail _ (.tail _ (.tail _ (.tail _ (.tail _ (.head _)))))),
    written_bind clientOrderId_reads_back once
      (.tail _ (.tail _ (.tail _ (.tail _ (.tail _ (.tail _ (.head _)))))))]
  rfl

end

end Serde

end QuantForge
