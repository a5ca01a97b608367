import QuantForge.Model.Futures.RequestRules

namespace QuantForge

namespace Decimal

/-- Whether a text has a digit other than zero. -/
def nonzeroText (text : String) : Bool := text.toList.any fun c => Text.isAsciiDigit c && c != '0'

/-- The digits of a text stand before and after its point. -/
theorem Form.digit_mem {f : Form} {c : Char} (hdigit : Text.isAsciiDigit c = true) :
    c ∈ f.text ↔ c ∈ f.whole ++ f.fraction.getD [] := by
  have hminus : c ≠ '-' := by
    rintro rfl
    revert hdigit
    decide
  have hpoint : c ≠ '.' := by
    rintro rfl
    revert hdigit
    decide
  have hsign : c ∉ if f.negative then ['-'] else [] := by
    cases f.negative <;> simp [hminus]
  unfold Form.text
  cases f.fraction with
  | none => simp [hsign]
  | some digits => simp [hsign, hpoint]

theorem digitsValue_zeros {ds : List Char} (h : ∀ c ∈ ds, c = '0') : digitsValue ds = 0 := by
  have hreverse := value_reverse [] (by simp) ds.length
  rw [List.map_nil, List.nil_append, List.reverse_replicate] at hreverse
  rw [List.eq_replicate_iff.mpr ⟨rfl, h⟩, hreverse]
  rfl

theorem nonzero_iff [DecimalParser] [RustDecimal] {text : String} {d : Decimal}
    (h : parseDecimal text = .ok d) : nonzeroText text = true ↔ d.isZero = false := by
  obtain ⟨f, hplain, _, htext, _, hm, _⟩ := parseDecimal_ok.mp h
  have hall : ∀ c ∈ f.whole ++ f.fraction.getD [], Text.isAsciiDigit c = true := by
    intro c hc
    rcases List.mem_append.mp hc with hc | hc
    · exact Form.whole_digits hplain hc
    · exact Form.fraction_digits hplain hc
  rw [nonzeroText, ← htext, isZero, hm, List.any_eq_true, beq_eq_false_iff_ne]
  constructor
  · intro hany hzero
    obtain ⟨c, hc, hdigit⟩ := hany
    rw [Bool.and_eq_true, bne_iff_ne] at hdigit
    exact hdigit.2 (digitsValue_zero hall hzero c ((Form.digit_mem hdigit.1).mp hc))
  · intro hne
    by_contra hnone
    apply hne
    apply digitsValue_zeros
    intro c hc
    by_contra hother
    have hdigit := hall c hc
    exact hnone ⟨c, (Form.digit_mem hdigit).mpr hc, by rw [hdigit]; simpa using hother⟩

end Decimal

namespace Serde

theorem checkedText_some {α : Type} {toText : α → String} {fromText : String → Except ModelError α}
    {json : JsonValue} {a : α} (h : (checkedText toText fromText).deserialize json = some a) :
    ∃ text, json.asStr = some text ∧ fromText text = .ok a := by
  obtain ⟨text, htext, hread⟩ := Option.bind_eq_some_iff.mp h
  refine ⟨text, htext, ?_⟩
  cases hfrom : fromText text with
  | error e =>
    rw [hfrom] at hread
    cases hread
  | ok other =>
    rw [hfrom] at hread
    cases hread
    rfl

/-- The line that an instrument's JSON names. -/
def exchangeToken (instrument : JsonValue) : Option String := do
  let given ← members instrumentMembers instrument
  let exchange ← given "exchange"
  let (token, _) ← variant exchange
  return token

/-- Whether the JSON of an instrument and of a quantity name one unit, and the quantity's text
has a digit other than zero. -/
structure SizedJson (instrument quantity : JsonValue) : Prop where
  nonzero : ((variant quantity).bind fun named =>
    named.2.bind JsonValue.asStr).any Decimal.nonzeroText = true
  unit : (variant quantity).map Prod.fst = some "Contracts" ↔
    exchangeToken instrument ∈ [some "BinanceInverse", some "BybitInverse"]

/-- The leg's letter in the text of a client order ID: the first after the last dash. -/
def legLetter (id : JsonValue) : Option Char :=
  id.asStr.bind fun text => (text.toList.splitOn '-').getLast?.bind List.head?

theorem letter_injective {leg other : OrderLeg} (h : leg.letter = other.letter) : leg = other := by
  cases leg <;> cases other <;> first | rfl | exact absurd h (by decide)

theorem legLetter_iff {json : JsonValue} {id : ClientOrderId} {leg : OrderLeg}
    (h : deserialize json = some id) : id.leg = leg ↔ legLetter json = some leg.letter := by
  obtain ⟨text, htext, hread⟩ := checkedText_some h
  have hletter : legLetter json = some id.leg.letter := by
    rw [legLetter, htext, ClientOrderId.fromStr_ok.mp hread,
      Option.bind_some,
      ClientOrderId.splitOn_toText]
    rfl
  rw [hletter, Option.some.injEq]
  constructor
  · intro hleg
    rw [hleg]
  · exact letter_injective

theorem token_inverse (exchange : ExchangeId) :
    exchange.category = .inverse ↔
      some exchange.token ∈ [some "BinanceInverse", some "BybitInverse"] := by
  cases exchange <;> decide

theorem exchangeToken_eq {json : JsonValue} {id : InstrumentId}
    (h : deserialize json = some id) : exchangeToken json = some id.exchange.token := by
  obtain ⟨given, hgiven, h⟩ := Option.bind_eq_some_iff.mp h
  obtain ⟨exchange, hexchange, h⟩ := Option.bind_eq_some_iff.mp h
  obtain ⟨symbol, _, h⟩ := Option.bind_eq_some_iff.mp h
  obtain ⟨settle, _, h⟩ := Option.bind_eq_some_iff.mp h
  cases h
  obtain ⟨found, hfound, hread⟩ := readMember_required rfl hexchange
  obtain ⟨named, hnamed, hline⟩ := Option.bind_eq_some_iff.mp hread
  have htoken : exchange.token = named.1 := by
    split_ifs at hline
    have hsome := List.find?_some hline
    simpa using hsome
  rw [exchangeToken, hgiven, Option.bind_eq_bind, Option.bind_some, hfound, Option.bind_eq_bind,
    Option.bind_some, hnamed, htoken]
  rfl

section

variable [DecimalParser] [RustDecimal]

omit [RustDecimal] in
/-- What a quantity's JSON names, and that its decimal's text is read. -/
theorem quantity_cases {json : JsonValue} {q : Quantity} (h : deserialize json = some q) :
    ∃ name text d, variant json = some (name, some (.string text)) ∧
      Decimal.parseDecimal text = .ok d ∧ q.value = d.canonical ∧
      q.unit = if name = "Contracts" then "contracts" else "base quantity" := by
  have string {payload : JsonValue} {text : String} (hs : payload.asStr = some text) :
      payload = .string text := by
    cases payload with
    | string other =>
      cases hs
      rfl
    | _ => cases hs
  change quantityOfJson json = some q at h
  unfold quantityOfJson at h
  split at h
  case h_1 payload hvariant =>
    obtain ⟨qty, hqty, rfl⟩ := Option.map_eq_some_iff.mp h
    obtain ⟨text, htext, hread⟩ := checkedText_some hqty
    obtain ⟨d, hparse, hnew⟩ := bind_ok.mp hread
    rw [string htext] at hvariant
    exact ⟨"Base", text, d, hvariant, hparse, DecimalUnit.new_ok hnew, rfl⟩
  case h_2 payload hvariant =>
    obtain ⟨count, hcount, rfl⟩ := Option.map_eq_some_iff.mp h
    obtain ⟨text, htext, hread⟩ := checkedText_some hcount
    obtain ⟨d, hparse, hnew⟩ := bind_ok.mp hread
    rw [string htext] at hvariant
    exact ⟨"Contracts", text, d, hvariant, hparse, DecimalUnit.new_ok hnew, rfl⟩
  case h_3 => cases h

theorem sized_iff {instrument quantity : JsonValue} {id : InstrumentId} {q : Quantity}
    (hid : deserialize instrument = some id) (hq : deserialize quantity = some q) :
    q.Sized id ↔ SizedJson instrument quantity := by
  obtain ⟨name, text, d, hvariant, hparse, hvalue, hunit⟩ := quantity_cases hq
  have hcanonical : d.canonical = d :=
    (Decimal.writes_iff.mp (Decimal.parseDecimal_ok.mp hparse)).2
  have hzero : Decimal.zero.lt q.value = true ↔ Decimal.nonzeroText text = true := by
    rw [Quantity.positive_iff, Decimal.nonzero_iff hparse, Quantity.isZero, hvalue, hcanonical]
  have htoken := exchangeToken_eq hid
  have hline := token_inverse id.exchange
  have hname : q.unit = Quantity.unitOf id.category ↔
      (name = "Contracts" ↔ id.exchange.category = .inverse) := by
    rw [hunit, InstrumentId.category]
    by_cases hcontracts : name = "Contracts"
    · rw [if_pos hcontracts]
      cases id.exchange.category <;> simp [Quantity.unitOf, hcontracts]
    · rw [if_neg hcontracts]
      cases id.exchange.category <;> simp [Quantity.unitOf, hcontracts]
  constructor
  · intro h
    refine ⟨?_, ?_⟩
    · rw [hvariant]
      exact hzero.mp h.1
    · rw [hvariant, htoken, ← hline]
      simpa using hname.mp h.2
  · intro h
    obtain ⟨hnonzero, hsame⟩ := h
    rw [hvariant] at hnonzero hsame
    rw [htoken, ← hline] at hsame
    exact ⟨hzero.mpr hnonzero, hname.mpr (by simpa using hsame)⟩

end

/-- How an order is obtained: its constructor is given arguments, or its JSON is read. -/
inductive Source
  | entry (instrument : FuturesInstrument) (side : PositionSide) (quantity : Quantity)
    (clientOrderId : ClientOrderId) (attachedStop : Option AttachedStop)
  | close (instrument : InstrumentId) (closes : PositionSide) (quantity : Quantity)
    (clientOrderId : ClientOrderId)
  | stop (instrument : InstrumentId) (positionSide : PositionSide) (triggerPrice : Price)
    (basis : TriggerBasis) (priceProtection : PriceProtection) (scope : StopScope)
    (clientOrderId : ClientOrderId)
  | entryJson (json : JsonValue)
  | closeJson (json : JsonValue)
  | stopJson (json : JsonValue)

inductive Request
  | entry (order : EntryOrder)
  | close (order : CloseOrder)
  | stop (stop : StopRequest)

namespace Request

def Keeps : Request → Prop
  | entry order => order.Keeps
  | close order => order.Keeps
  | stop request => request.Keeps

def BackFromJson [DecimalParser] : Request → Prop
  | entry order => deserialize (serialize order) = some order
  | close order => deserialize (serialize order) = some order
  | stop request => deserialize (serialize request) = some request

end Request

/-- The members of a stored order that its rules are about. -/
def ruled (names : List String) (json : JsonValue) (name : String) : Option JsonValue :=
  (members names json).bind fun given => given name

/-- Whether an order's JSON names one unit in its instrument and quantity, a quantity that is not
zero, and the leg. -/
def OrderJson (names : List String) (leg : OrderLeg) (json : JsonValue) : Prop :=
  ∃ instrument quantity id, ruled names json "instrument" = some instrument ∧
    ruled names json "quantity" = some quantity ∧ ruled names json "client_order_id" = some id ∧
      SizedJson instrument quantity ∧ legLetter id = some leg.letter

/-- The same of a stop's JSON, where only a bridge has a quantity. -/
def StopJson (json : JsonValue) : Prop :=
  ∃ instrument scope id, ruled stopMembers json "instrument" = some instrument ∧
    ruled stopMembers json "scope" = some scope ∧
      ruled stopMembers json "client_order_id" = some id ∧
        (((variant scope).map Prod.fst = some "WholePosition" ∧ legLetter id = some 's') ∨
          ∃ quantity, variant scope = some ("Quantity", some quantity) ∧
            SizedJson instrument quantity ∧ legLetter id = some 'b')

namespace Source

variable [DecimalParser]

def request : Source → Option Request
  | entry instrument side quantity id attached =>
    (EntryOrder.new instrument side quantity id attached).toOption.map .entry
  | close instrument closes quantity id =>
    (CloseOrder.new instrument closes quantity id).toOption.map .close
  | stop instrument side price basis protection scope id =>
    (StopRequest.new instrument side price basis protection scope id).toOption.map .stop
  | entryJson json => (deserialize json).map .entry
  | closeJson json => (deserialize json).map .close
  | stopJson json => (deserialize json).map .stop

/-- What an order's JSON must say for the order to keep its rules. A constructor checks them. -/
def Ruled : Source → Prop
  | entryJson json => OrderJson entryMembers .entry json
  | closeJson json => OrderJson closeMembers .close json
  | stopJson json => StopJson json
  | _ => True

end Source

theorem built_ok {α : Type} {x : Except ModelError α} {make : α → Request} {r : Request}
    (h : x.toOption.map make = some r) : ∃ a, x = .ok a ∧ r = make a := by
  cases x with
  | error e => cases h
  | ok a => exact ⟨a, rfl, (Option.some.inj h).symm⟩

section

variable [DecimalParser] [RustDecimal]

theorem ruled_iff {names : List String} {json : JsonValue} {given : String → Option JsonValue}
    (hgiven : members names json = some given) {instrument : InstrumentId} {quantity : Quantity}
    {id : ClientOrderId} {leg : OrderLeg}
    (hinstrument : readMember given "instrument" = some instrument)
    (hquantity : readMember given "quantity" = some quantity)
    (hid : readMember given "client_order_id" = some id) :
    (quantity.Sized instrument ∧ id.leg = leg) ↔ OrderJson names leg json := by
  obtain ⟨i, hi, hreadi⟩ := readMember_required rfl hinstrument
  obtain ⟨q, hq, hreadq⟩ := readMember_required rfl hquantity
  obtain ⟨k, hk, hreadk⟩ := readMember_required rfl hid
  have member (name : String) : ruled names json name = given name := by
    rw [ruled, hgiven]
    rfl
  rw [sized_iff hreadi hreadq, legLetter_iff hreadk]
  constructor
  · intro h
    exact ⟨i, q, k, (member _).trans hi, (member _).trans hq, (member _).trans hk, h.1, h.2⟩
  · intro h
    obtain ⟨i', q', k', hi', hq', hk', hsized, hleg⟩ := h
    rw [member, hi] at hi'
    rw [member, hq] at hq'
    rw [member, hk] at hk'
    cases hi'
    cases hq'
    cases hk'
    exact ⟨hsized, hleg⟩

theorem entryJson_iff {json : JsonValue} {order : EntryOrder} (h : deserialize json = some order) :
    order.Keeps ↔ OrderJson entryMembers .entry json := by
  obtain ⟨given, hgiven, h⟩ := Option.bind_eq_some_iff.mp h
  obtain ⟨instrument, hinstrument, h⟩ := Option.bind_eq_some_iff.mp h
  obtain ⟨side, _, h⟩ := Option.bind_eq_some_iff.mp h
  obtain ⟨quantity, hquantity, h⟩ := Option.bind_eq_some_iff.mp h
  obtain ⟨id, hid, h⟩ := Option.bind_eq_some_iff.mp h
  obtain ⟨attached, _, h⟩ := Option.bind_eq_some_iff.mp h
  cases h
  exact ruled_iff hgiven hinstrument hquantity hid

theorem closeJson_iff {json : JsonValue} {order : CloseOrder} (h : deserialize json = some order) :
    order.Keeps ↔ OrderJson closeMembers .close json := by
  obtain ⟨given, hgiven, h⟩ := Option.bind_eq_some_iff.mp h
  obtain ⟨instrument, hinstrument, h⟩ := Option.bind_eq_some_iff.mp h
  obtain ⟨closes, _, h⟩ := Option.bind_eq_some_iff.mp h
  obtain ⟨quantity, hquantity, h⟩ := Option.bind_eq_some_iff.mp h
  obtain ⟨id, hid, h⟩ := Option.bind_eq_some_iff.mp h
  cases h
  exact ruled_iff hgiven hinstrument hquantity hid

theorem stopJson_iff {json : JsonValue} {stop : StopRequest} (h : deserialize json = some stop) :
    stop.Keeps ↔ StopJson json := by
  obtain ⟨given, hgiven, h⟩ := Option.bind_eq_some_iff.mp h
  obtain ⟨instrument, hinstrument, h⟩ := Option.bind_eq_some_iff.mp h
  obtain ⟨side, _, h⟩ := Option.bind_eq_some_iff.mp h
  obtain ⟨price, _, h⟩ := Option.bind_eq_some_iff.mp h
  obtain ⟨basis, _, h⟩ := Option.bind_eq_some_iff.mp h
  obtain ⟨protection, _, h⟩ := Option.bind_eq_some_iff.mp h
  obtain ⟨scope, hscope, h⟩ := Option.bind_eq_some_iff.mp h
  obtain ⟨id, hid, h⟩ := Option.bind_eq_some_iff.mp h
  cases h
  obtain ⟨i, hi, hreadi⟩ := readMember_required rfl hinstrument
  obtain ⟨s, hs, hreads⟩ := readMember_required rfl hscope
  obtain ⟨k, hk, hreadk⟩ := readMember_required rfl hid
  have member (name : String) : ruled stopMembers json name = given name := by
    rw [ruled, hgiven]
    rfl
  have rules : scope.Keeps instrument id.leg ↔
      ((variant s).map Prod.fst = some "WholePosition" ∧ legLetter k = some 's') ∨
        ∃ quantity, variant s = some ("Quantity", some quantity) ∧ SizedJson i quantity ∧
          legLetter k = some 'b' := by
    change scopeOfJson s = some scope at hreads
    unfold scopeOfJson at hreads
    split at hreads
    case h_1 payload hvariant =>
      split_ifs at hreads
      cases hreads
      rw [StopScope.Keeps, legLetter_iff hreadk, hvariant]
      constructor
      · intro hleg
        exact .inl ⟨rfl, hleg⟩
      · intro h
        rcases h with hwhole | ⟨quantity, hquantity, _⟩
        · exact hwhole.2
        · have hname : "WholePosition" = "Quantity" :=
            congrArg Prod.fst (Option.some.inj hquantity)
          exact absurd hname (by decide)
    case h_2 payload hvariant =>
      obtain ⟨quantity, hquantity, rfl⟩ := Option.map_eq_some_iff.mp hreads
      rw [StopScope.Keeps, legLetter_iff hreadk, sized_iff hreadi hquantity, hvariant]
      constructor
      · intro hbridge
        exact .inr ⟨payload, rfl, hbridge⟩
      · intro h
        rcases h with hwhole | ⟨other, hother, hbridge⟩
        · have hname : "Quantity" = "WholePosition" := Option.some.inj hwhole.1
          exact absurd hname (by decide)
        · cases hother
          exact hbridge
    case h_3 => cases hreads
  show scope.Keeps instrument id.leg ↔ StopJson json
  rw [rules]
  constructor
  · intro h
    exact ⟨i, s, k, (member _).trans hi, (member _).trans hs, (member _).trans hk, h⟩
  · intro h
    obtain ⟨i', s', k', hi', hs', hk', h⟩ := h
    rw [member, hi] at hi'
    rw [member, hs] at hs'
    rw [member, hk] at hk'
    cases hi'
    cases hs'
    cases hk'
    exact h

/-- A typed order keeps its rules exactly where its constructor checked them or its JSON happens
to say what they ask for, and its JSON always gives it back. -/
theorem obtained_keeps_iff (source : Source) (request : Request)
    (h : source.request = some request) :
    (request.Keeps ∧ request.BackFromJson) ↔ source.Ruled := by
  have back : request.BackFromJson := by
    cases request with
    | entry order => exact entry_reads_back order
    | close order => exact close_reads_back order
    | stop stop => exact stop_reads_back stop
  rw [and_iff_left back]
  cases source with
  | entry instrument side quantity id attached =>
    obtain ⟨order, hnew, rfl⟩ := built_ok h
    exact ⟨fun _ => trivial, fun _ => EntryOrder.new_keeps hnew⟩
  | close instrument closes quantity id =>
    obtain ⟨order, hnew, rfl⟩ := built_ok h
    exact ⟨fun _ => trivial, fun _ => CloseOrder.new_keeps hnew⟩
  | stop instrument side price basis protection scope id =>
    obtain ⟨stop, hnew, rfl⟩ := built_ok h
    exact ⟨fun _ => trivial, fun _ => StopRequest.new_keeps hnew⟩
  | entryJson json =>
    obtain ⟨order, hread, rfl⟩ := Option.map_eq_some_iff.mp h
    exact entryJson_iff hread
  | closeJson json =>
    obtain ⟨order, hread, rfl⟩ := Option.map_eq_some_iff.mp h
    exact closeJson_iff hread
  | stopJson json =>
    obtain ⟨stop, hread, rfl⟩ := Option.map_eq_some_iff.mp h
    exact stopJson_iff hread

end

attribute [local instance] Segments.exactTextParser Segments.exactTextParser_reads

/-- The JSON of an entry order of a linear instrument. -/
def storedEntry (unit amount id : String) : JsonValue :=
  .object [("instrument", .object [("exchange", .string "BybitLinear"),
      ("symbol", .string "SOLUSDT"), ("settle", .string "USDT")]),
    ("side", .string "Long"), ("quantity", .object [(unit, .string amount)]),
    ("client_order_id", .string id), ("attached_stop", .null)]

theorem storedEntry_keeps : ∃ order : EntryOrder,
    deserialize (storedEntry "Base" "0.5" "qf1-k3x9p2-3-16-e1") = some order ∧ order.Keeps := by
  have read : (deserialize (storedEntry "Base" "0.5" "qf1-k3x9p2-3-16-e1") :
      Option EntryOrder).isSome := by decide +kernel
  obtain ⟨order, horder⟩ := Option.isSome_iff_exists.mp read
  have hsource : (Source.entryJson (storedEntry "Base" "0.5" "qf1-k3x9p2-3-16-e1")).request =
      some (.entry order) := by
    rw [Source.request, horder]
    rfl
  have ruled : OrderJson entryMembers .entry (storedEntry "Base" "0.5" "qf1-k3x9p2-3-16-e1") := by
    refine ⟨_, _, _, rfl, rfl, rfl, ⟨by decide +kernel, ?_⟩, by decide +kernel⟩
    decide +kernel
  exact ⟨order, horder, ((obtained_keeps_iff _ _ hsource).mpr ruled).1⟩

/-- A stored entry of no contracts of a linear instrument, under a close's ID. -/
theorem unchecked_entry : ∃ order : EntryOrder,
    deserialize (storedEntry "Contracts" "0" "qf1-k3x9p2-3-16-c1") = some order ∧
      order.quantity.isZero = true ∧ order.quantity.unit ≠ Quantity.unitOf order.instrument.category ∧
        order.clientOrderId.leg = .close := by
  have read : (deserialize (storedEntry "Contracts" "0" "qf1-k3x9p2-3-16-c1") :
      Option EntryOrder).map (fun order => (order.quantity.isZero,
        order.quantity.unit == Quantity.unitOf order.instrument.category,
          order.clientOrderId.leg)) = some (true, false, .close) := by decide +kernel
  obtain ⟨order, horder, hall⟩ := Option.map_eq_some_iff.mp read
  simp only [Prod.mk.injEq, beq_eq_false_iff_ne] at hall
  exact ⟨order, horder, hall⟩

end Serde

end QuantForge
