import QuantForge.Model.JsonPath
import QuantForge.Model.MarketSerde
import QuantForge.Model.Order
import Mathlib.Data.List.Forall2

namespace QuantForge

/-- What `rust_decimal` reads from JSON. -/
class DecimalJson where
  fromJson : JsonValue → Option Decimal

/-- It reads what it writes, with a negative zero as zero. -/
class LawfulDecimalJson [DecimalJson] : Prop where
  reads : ∀ d : Decimal, DecimalJson.fromJson (.string d.toText) = some d.canonical

namespace Side

def all : List Side := [.buy, .sell]

/-- The name a side has in JSON. -/
def token : Side → String
  | .buy => "Buy"
  | .sell => "Sell"

end Side

namespace OrderStatus

def all : List OrderStatus :=
  [.new, .partiallyFilled, .filled, .canceled, .rejected, .expired, .pendingNew, .unknown]

/-- The name a status has in JSON. -/
def token : OrderStatus → String
  | .new => "New"
  | .partiallyFilled => "PartiallyFilled"
  | .filled => "Filled"
  | .canceled => "Canceled"
  | .rejected => "Rejected"
  | .expired => "Expired"
  | .pendingNew => "PendingNew"
  | .unknown => "Unknown"

end OrderStatus

/-- A fill with each negative zero as zero. -/
def Fill.canonical (fill : Fill) : Fill :=
  { fill with
    price := fill.price.canonical
    qty := fill.qty.canonical
    commission := fill.commission.canonical }

def ExchangeOrder.canonical (order : ExchangeOrder) : ExchangeOrder :=
  { order with
    requestedQty := order.requestedQty.map Decimal.canonical
    requestedQuoteQty := order.requestedQuoteQty.map Decimal.canonical
    executedQty := order.executedQty.map Decimal.canonical
    cumulativeQuoteQty := order.cumulativeQuoteQty.map Decimal.canonical
    avgPrice := order.avgPrice.map Decimal.canonical
    fills := order.fills.map (List.map Fill.canonical) }

/-- The ID of an order or of a fill, as its venue issues it. -/
abbrev VenueId := TextId (Text.plainText 128)

namespace Serde

instance : Serde String := ⟨.string, JsonValue.asStr, none⟩

/-- A whole number, where it fits. -/
def int64OfJson : JsonValue → Option Int64
  | .number (.posInt n) => if n.toNat < 2 ^ 63 then some n.toInt64 else none
  | .number (.negInt n) => some n
  | _ => none

instance : Serde Int64 :=
  ⟨fun n => .number (if 0 ≤ n then .posInt n.toUInt64 else .negInt n), int64OfJson, none⟩

def listOfJson {α : Type} [Serde α] : JsonValue → Option (List α)
  | .array items => items.mapM deserialize
  | _ => none

instance {α : Type} [Serde α] : Serde (List α) :=
  ⟨fun items => .array (items.map serialize), listOfJson, none⟩

instance : Serde VenueId :=
  checkedText (·.text) (TextId.new "venue order id" "1 to 128 characters without spaces")

instance : Serde Side := unitEnum Side.token Side.all

instance : Serde OrderStatus := unitEnum OrderStatus.token OrderStatus.all

instance [DecimalJson] : Serde Decimal := ⟨fun d => .string d.toText, DecimalJson.fromJson, none⟩

section

variable [DecimalJson]

def fillMembers : List String := ["price", "qty", "commission", "commission_asset", "trade_id"]

/-- The members of a fill's JSON, with what its trade ID is written as. -/
def fillGiven (fill : Fill) (tradeId : JsonValue) : List (String × JsonValue) :=
  [("price", serialize fill.price), ("qty", serialize fill.qty),
    ("commission", serialize fill.commission),
    ("commission_asset", serialize fill.commissionAsset), ("trade_id", tradeId)]

def fillOfJson (json : JsonValue) : Option Fill := do
  let given ← members fillMembers json
  let price ← readMember given "price"
  let qty ← readMember given "qty"
  let commission ← readMember given "commission"
  let commissionAsset ← readMember given "commission_asset"
  let tradeId ← readMember given "trade_id"
  return { price, qty, commission, commissionAsset, tradeId }

instance : Serde Fill :=
  ⟨fun fill => .object (fillGiven fill (serialize fill.tradeId)), fillOfJson, none⟩

def orderMembers : List String :=
  ["symbol", "side", "order_type", "status", "order_id", "client_order_id", "requested_qty",
    "requested_quote_qty", "executed_qty", "cumulative_quote_qty", "avg_price",
    "transact_time_ms", "fills", "raw"]

/-- The members of an order's JSON, with what its ID and its fills are written as, and what the
exchange sent. -/
def orderGiven (order : ExchangeOrder) (orderId fills raw : JsonValue) :
    List (String × JsonValue) :=
  [("symbol", serialize order.symbol), ("side", serialize order.side),
    ("order_type", serialize order.orderType), ("status", serialize order.status),
    ("order_id", orderId), ("client_order_id", serialize order.clientOrderId),
    ("requested_qty", serialize order.requestedQty),
    ("requested_quote_qty", serialize order.requestedQuoteQty),
    ("executed_qty", serialize order.executedQty),
    ("cumulative_quote_qty", serialize order.cumulativeQuoteQty),
    ("avg_price", serialize order.avgPrice),
    ("transact_time_ms", serialize order.transactTimeMs), ("fills", fills), ("raw", raw)]

/-- An order event as it is read, without what the exchange sent. -/
def orderOfJson (json : JsonValue) : Option ExchangeOrder := do
  let given ← members orderMembers json
  let symbol ← readMember given "symbol"
  let side ← readMember given "side"
  let orderType ← readMember given "order_type"
  let status ← readMember given "status"
  let orderId ← readMember given "order_id"
  let clientOrderId ← readMember given "client_order_id"
  let requestedQty ← readMember given "requested_qty"
  let requestedQuoteQty ← readMember given "requested_quote_qty"
  let executedQty ← readMember given "executed_qty"
  let cumulativeQuoteQty ← readMember given "cumulative_quote_qty"
  let avgPrice ← readMember given "avg_price"
  let transactTimeMs ← readMember given "transact_time_ms"
  let fills ← readMember given "fills"
  let _raw ← given "raw"
  return {
    symbol, side, orderType, status, orderId, clientOrderId, requestedQty, requestedQuoteQty,
    executedQty, cumulativeQuoteQty, avgPrice, transactTimeMs, fills }

end

/-- A type that is written as something, and read back as `f` says. -/
def ReadsAs {α : Type} [Serde α] (f : α → α) : Prop :=
  ∀ a : α, isNull (serialize a) = false ∧ deserialize (serialize a) = some (f a)

/-- A type whose JSON holds no float. -/
def Floatless (α : Type) [Serde α] : Prop :=
  ∀ (g : UInt64 → UInt64) (a : α), (serialize a).mapFloats g = serialize a

theorem some_reads {α : Type} [Serde α] {json : JsonValue} {a : α} (hnull : isNull json = false)
    (h : deserialize json = some a) : (deserialize json : Option (Option α)) = some (some a) := by
  have hsome : (deserialize json).map some = some (some a) := by
    rw [h]
    rfl
  cases json with
  | null => cases hnull
  | _ => exact hsome

theorem option_reads {α : Type} [Serde α] {f : α → α} (h : ReadsAs f) (a : Option α) :
    deserialize (serialize a) = some (a.map f) := by
  cases a with
  | none => rfl
  | some a => exact some_reads (h a).1 (h a).2

theorem option_floatless {α : Type} [Serde α] (h : Floatless α) : Floatless (Option α) := by
  intro g a
  cases a with
  | none => rfl
  | some a => exact h g a

section

variable {α : Type} [Serde α] {given ms : List (String × JsonValue)}

theorem once_perm (once : (given.map Prod.fst).Nodup) (hperm : ms.Perm given) :
    (ms.map Prod.fst).Nodup := (hperm.map Prod.fst).nodup_iff.mpr once

theorem members_perm {β : Type} (names : List String) (once : (given.map Prod.fst).Nodup)
    (hperm : ms.Perm given) (f : (String → Option JsonValue) → Option β) :
    (members names (.object ms) >>= f) = f fun name => ms.lookup name := by
  have hcount : ∀ name, (ms.filter fun member => member.1 == name).length ≤ 1 := by
    intro name
    have hkeys : (ms.filter fun member => member.1 == name).length = (ms.map Prod.fst).count name := by
      rw [List.count, List.countP_map, List.countP_eq_length_filter]
      rfl
    rw [hkeys]
    exact List.nodup_iff_count.mp (once_perm once hperm) name
  have hall : (names.all fun name => (ms.filter fun member => member.1 == name).length ≤ 1) = true := by
    rw [List.all_eq_true]
    intro name _
    exact decide_eq_true (hcount name)
  rw [members, if_pos hall]
  rfl

theorem lookup_perm (once : (given.map Prod.fst).Nodup) (hperm : ms.Perm given) {name : String}
    {json : JsonValue} {i : ℕ} (h : given[i]? = some (name, json)) :
    ms.lookup name = some json :=
  lookup_mem (once_perm once hperm) (hperm.mem_iff.mpr (List.mem_of_getElem? h))

theorem read_bind {β : Type} (once : (given.map Prod.fst).Nodup) (hperm : ms.Perm given)
    {name : String} {json : JsonValue} {a : α} {i : ℕ} (h : given[i]? = some (name, json))
    (hread : deserialize json = some a) (f : α → Option β) :
    (readMember (fun name => ms.lookup name) name >>= f) = f a := by
  have hmember : readMember (fun name => ms.lookup name) name = some a := by
    simp only [readMember, lookup_perm once hperm h]
    exact hread
  rw [hmember]
  rfl

end

theorem string_reads : ReadsAs (id : String → String) := fun _ => ⟨rfl, rfl⟩

theorem int64_reads : ReadsAs (id : Int64 → Int64) := by
  intro n
  refine ⟨rfl, ?_⟩
  show int64OfJson (.number (if 0 ≤ n then .posInt n.toUInt64 else .negInt n)) = some n
  by_cases h : 0 ≤ n
  · have hlow : 0 ≤ n.toInt := Int64.le_iff_toInt_le.mp h
    have hhigh := Int64.toInt_lt n
    have hsmall : n.toUInt64.toNat < 2 ^ 63 := by
      have hvalue : n.toUInt64.toNat = n.toInt.toNat := Int64.toNat_toUInt64_of_le h
      omega
    rw [if_pos h, int64OfJson, if_pos hsmall, Int64.toInt64_toUInt64]
  · rw [if_neg h, int64OfJson]

theorem venueId_reads : ReadsAs (id : VenueId → VenueId) := by
  intro a
  refine ⟨rfl, ?_⟩
  show (TextId.new _ _ a.text).toOption = some a
  rw [TextId.new, dif_pos a.accepted]
  rfl

theorem buySell_reads (side : Side) : deserialize (serialize side) = some side := by
  cases side <;> rfl

theorem status_reads (status : OrderStatus) : deserialize (serialize status) = some status := by
  cases status <;> rfl

theorem plain_reads {α : Type} [Serde α] (h : ReadsAs (id : α → α)) (a : Option α) :
    deserialize (serialize a) = some a := by
  rw [option_reads h, Option.map_id]
  rfl

/-- An ID as its text, or nothing. -/
def IdText (id : Option VenueId) (json : JsonValue) : Prop := json = serialize id

theorem idText_reads {id : Option VenueId} {json : JsonValue} (h : IdText id json) :
    deserialize json = some id := by
  rw [h, option_reads venueId_reads]
  cases id <;> rfl

variable [DecimalJson]

/-- A fill's JSON: its members in any order, with its trade ID as `I` has it. -/
inductive FillWritten (I : Option VenueId → JsonValue → Prop) : Fill → JsonValue → Prop
  | mk {fill : Fill} {tradeId : JsonValue} {ms : List (String × JsonValue)}
      (id : I fill.tradeId tradeId) (given : ms.Perm (fillGiven fill tradeId)) :
      FillWritten I fill (.object ms)

inductive FillsWritten (I : Option VenueId → JsonValue → Prop) : Option (List Fill) → JsonValue → Prop
  | none : FillsWritten I none .null
  | some {fills : List Fill} {items : List JsonValue}
      (each : List.Forall₂ (FillWritten I) fills items) : FillsWritten I (some fills) (.array items)

/-- An order's JSON: its members in any order, with its IDs as `I` has them, and anything that
the exchange sent. -/
inductive OrderWritten (I : Option VenueId → JsonValue → Prop) : ExchangeOrder → JsonValue → Prop
  | mk {order : ExchangeOrder} {orderId fills raw : JsonValue} {ms : List (String × JsonValue)}
      (id : I order.orderId orderId) (each : FillsWritten I order.fills fills)
      (given : ms.Perm (orderGiven order orderId fills raw)) : OrderWritten I order (.object ms)

theorem fillGiven_once (fill : Fill) (tradeId : JsonValue) :
    ((fillGiven fill tradeId).map Prod.fst).Nodup := show fillMembers.Nodup by decide

theorem orderGiven_once (order : ExchangeOrder) (orderId fills raw : JsonValue) :
    ((orderGiven order orderId fills raw).map Prod.fst).Nodup := show orderMembers.Nodup by decide

variable [LawfulDecimalJson]

theorem decimal_reads : ReadsAs Decimal.canonical :=
  fun d => ⟨rfl, LawfulDecimalJson.reads d⟩

theorem fill_reads {fill : Fill} {json : JsonValue} (h : FillWritten IdText fill json) :
    isNull json = false ∧ deserialize json = some fill.canonical := by
  cases h with
  | mk id given =>
    have once := fillGiven_once fill
    refine ⟨rfl, ?_⟩
    show fillOfJson _ = _
    rw [fillOfJson, members_perm _ (once _) given,
      read_bind (once _) given (i := 0) rfl (decimal_reads fill.price).2,
      read_bind (once _) given (i := 1) rfl (decimal_reads fill.qty).2,
      read_bind (once _) given (i := 2) rfl (decimal_reads fill.commission).2,
      read_bind (once _) given (i := 3) rfl (plain_reads string_reads fill.commissionAsset),
      read_bind (once _) given (i := 4) rfl (idText_reads id)]
    rfl

theorem fills_read {fills : Option (List Fill)} {json : JsonValue}
    (h : FillsWritten IdText fills json) :
    deserialize json = some (fills.map (List.map Fill.canonical)) := by
  cases h with
  | none => rfl
  | @some fills items each =>
    apply some_reads rfl
    show items.mapM deserialize = some (fills.map Fill.canonical)
    induction each with
    | nil => rfl
    | cons hfill hrest ih =>
      rw [List.mapM_cons, (fill_reads hfill).2, ih]
      rfl

/-- An order whose IDs are written as text is read back. -/
theorem order_reads {order : ExchangeOrder} {json : JsonValue}
    (h : OrderWritten IdText order json) : orderOfJson json = some order.canonical := by
  cases h with
  | mk id each given =>
    have once := orderGiven_once order
    rw [orderOfJson, members_perm _ (once _ _ _) given,
      read_bind (once _ _ _) given (i := 0) rfl (symbol_reads_back order.symbol),
      read_bind (once _ _ _) given (i := 1) rfl (buySell_reads order.side),
      read_bind (once _ _ _) given (i := 2) rfl (string_reads order.orderType).2,
      read_bind (once _ _ _) given (i := 3) rfl (status_reads order.status),
      read_bind (once _ _ _) given (i := 4) rfl (idText_reads id),
      read_bind (once _ _ _) given (i := 5) rfl (plain_reads string_reads order.clientOrderId),
      read_bind (once _ _ _) given (i := 6) rfl (option_reads decimal_reads order.requestedQty),
      read_bind (once _ _ _) given (i := 7) rfl (option_reads decimal_reads order.requestedQuoteQty),
      read_bind (once _ _ _) given (i := 8) rfl (option_reads decimal_reads order.executedQty),
      read_bind (once _ _ _) given (i := 9) rfl
        (option_reads decimal_reads order.cumulativeQuoteQty),
      read_bind (once _ _ _) given (i := 10) rfl (option_reads decimal_reads order.avgPrice),
      read_bind (once _ _ _) given (i := 11) rfl (plain_reads int64_reads order.transactTimeMs),
      read_bind (once _ _ _) given (i := 12) rfl (fills_read each)]
    have hraw := lookup_perm (once _ _ _) given (i := 13) rfl
    dsimp only
    rw [hraw]
    rfl

end Serde

end QuantForge
