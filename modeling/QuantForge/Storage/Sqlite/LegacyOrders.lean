import QuantForge.Model.OrderSerde
import QuantForge.Storage.Sqlite.LegacyIds

namespace QuantForge.LegacyIds

open JsonValue Serde

theorem digits_short {n : Nat} (hsmall : n < 10 ^ 20) : (toString n).toList.length ≤ 20 := by
  have hdigits : (toString n).toList = Nat.toDigits 10 n := Nat.toList_repr
  rw [hdigits]
  exact (Nat.length_toDigits_le_iff (by omega) (by omega)).mpr hsmall

theorem digits_plain {n : Nat} {c : Char} (hc : c ∈ (toString n).toList) :
    (Text.isWhitespace c || Text.isControl c) = false := by
  have hdigits : (toString n).toList = Nat.toDigits 10 n := Nat.toList_repr
  rw [hdigits] at hc
  have hdigit := Nat.isDigit_of_mem_toDigits (by omega) (by omega) hc
  have hbounds : 48 ≤ c.toNat ∧ c.toNat ≤ 57 := by
    simpa [Char.isDigit, UInt32.le_iff_toNat_le] using hdigit
  unfold Text.isWhitespace Text.isControl
  simp
  omega

theorem plainText_of {text : String} (hfirst : text.toList ≠ []) (hshort : text.toList.length ≤ 128)
    (hplain : ∀ c ∈ text.toList, (Text.isWhitespace c || Text.isControl c) = false) :
    Text.plainText 128 text = true := by
  have hempty : text.isEmpty = false := by
    rw [Bool.eq_false_iff]
    intro hisEmpty
    rw [String.isEmpty_iff] at hisEmpty
    rw [hisEmpty] at hfirst
    exact hfirst rfl
  have hany : text.toList.any (fun c => Text.isWhitespace c || Text.isControl c) = false := by
    rw [List.any_eq_false]
    intro c hc
    rw [hplain c hc]
    exact Bool.false_ne_true
  rw [Text.plainText, hempty, hany, decide_eq_true hshort]
  rfl

section

variable [JsonText]

/-- The text of a whole number of 64 bits is a venue's ID. -/
theorem whole_plain {n : JsonNumber} (h : n.isWhole = true) : Text.plainText 128 n.text = true := by
  have hdigits (k : Nat) (hsmall : k < 2 ^ 64) : Text.plainText 128 (toString k) = true := by
    apply plainText_of
    · show (Nat.repr k).toList ≠ []
      rw [Nat.toList_repr]
      exact Nat.toDigits_ne_nil
    · have hlength := digits_short (n := k) (by omega)
      omega
    · intro c hc
      exact digits_plain hc
  cases n with
  | posInt k => exact hdigits k.toNat k.toNat_lt
  | negInt k =>
    have hlow := Int64.le_toInt k
    have hhigh := Int64.toInt_lt k
    show Text.plainText 128 (toString k.toInt) = true
    cases hk : k.toInt with
    | ofNat m =>
      rw [hk, Int.ofNat_eq_natCast] at hhigh
      exact hdigits m (by omega)
    | negSucc m =>
      rw [hk] at hlow
      have hsmall : m + 1 < 10 ^ 20 := by omega
      have htext : (toString (Int.negSucc m)).toList = '-' :: (toString (m + 1)).toList := by
        show ("-" ++ toString (m + 1)).toList = _
        rw [String.toList_append]
        rfl
      apply plainText_of
      · rw [htext]
        exact List.cons_ne_nil _ _
      · have hlength := digits_short hsmall
        rw [htext, List.length_cons]
        omega
      · intro c hc
        rw [htext] at hc
        cases List.mem_cons.mp hc with
        | inl hminus =>
          rw [hminus]
          decide
        | inr hrest => exact digits_plain hrest
  | float bits => cases h

/-- A whole number as the ID that it is on its venue. -/
def venueId (n : JsonNumber) (whole : n.isWhole = true) : VenueId := ⟨n.text, whole_plain whole⟩

/-- An ID as QuantForge 0.2.0 wrote it: a whole number, or nothing. -/
inductive IdNumber : Option VenueId → JsonValue → Prop
  | none : IdNumber none .null
  | some (n : JsonNumber) (whole : n.isWhole = true) : IdNumber (some (venueId n whole)) (.number n)

variable [DecimalJson]

omit [JsonText] [DecimalJson] in
theorem replaceMember_perm {ms given : List (String × JsonValue)} (hperm : ms.Perm given)
    (key : String) (value : JsonValue) :
    (replaceMember key value ms).Perm (replaceMember key value given) := hperm.map _

omit [DecimalJson] in
theorem idNumber_text {id : Option VenueId} {json : JsonValue} (h : IdNumber id json) :
    json = .null ∧ IdText id .null ∨ ∃ n, json = .number n ∧ IdText id (.string n.text) := by
  cases h with
  | none => exact .inl ⟨rfl, rfl⟩
  | some n whole => exact .inr ⟨n, rfl, rfl⟩

theorem fillIds_written {fill : Fill} {json : JsonValue} (h : FillWritten IdNumber fill json) :
    FillWritten IdText fill (fillIds json).1 := by
  cases h with
  | @mk tradeId ms id given =>
    have hlookup := lookup_perm (fillGiven_once fill tradeId) given (i := 4) rfl
    show FillWritten IdText fill (.object (numberToText ms "trade_id").1)
    unfold numberToText
    rw [hlookup]
    cases idNumber_text id with
    | inl hnone =>
      rw [hnone.1] at given ⊢
      exact .mk hnone.2 given
    | inr hsome =>
      obtain ⟨n, hnumber, htext⟩ := hsome
      rw [hnumber] at given ⊢
      exact .mk htext (replaceMember_perm given "trade_id" (.string n.text))

theorem fills_written {fills : Option (List Fill)} {json : JsonValue}
    (h : FillsWritten IdNumber fills json) :
    json = .null ∧ FillsWritten IdText fills .null ∨ ∃ items, json = .array items ∧
      FillsWritten IdText fills (.array (items.map fun fill => (fillIds fill).1)) := by
  cases h with
  | none => exact .inl ⟨rfl, .none⟩
  | @some fills items each =>
    refine .inr ⟨items, rfl, .some ?_⟩
    rw [List.forall₂_map_right_iff]
    exact each.imp fun _ _ hfill => fillIds_written hfill

/-- An order event as 0.2.0 wrote it, with its IDs as numbers, has them as text afterwards. -/
theorem orderIds_written {order : ExchangeOrder} {json : JsonValue}
    (h : OrderWritten IdNumber order json) : OrderWritten IdText order (orderIds json).1 := by
  cases h with
  | @mk orderId fills raw ms id each given =>
    have hid := lookup_perm (orderGiven_once order orderId fills raw) given (i := 4) rfl
    have hturned : ∃ turned, IdText order.orderId turned ∧
        (numberToText ms "order_id").1.Perm (orderGiven order turned fills raw) := by
      unfold numberToText
      rw [hid]
      cases idNumber_text id with
      | inl hnone =>
        rw [hnone.1] at given ⊢
        exact ⟨.null, hnone.2, given⟩
      | inr hsome =>
        obtain ⟨n, hnumber, htext⟩ := hsome
        rw [hnumber] at given ⊢
        exact ⟨.string n.text, htext, replaceMember_perm given "order_id" (.string n.text)⟩
    obtain ⟨turned, hturned, hperm⟩ := hturned
    have hfills := lookup_perm (orderGiven_once order turned fills raw) hperm (i := 12) rfl
    show OrderWritten IdText order (.object (fillsIds (numberToText ms "order_id").1).1)
    unfold fillsIds
    rw [hfills]
    cases fills_written each with
    | inl hnone =>
      rw [hnone.1] at hperm ⊢
      exact .mk hturned hnone.2 hperm
    | inr hsome =>
      obtain ⟨items, hitems, htexts⟩ := hsome
      rw [hitems] at hperm ⊢
      exact .mk hturned htexts (replaceMember_perm hperm "fills" _)

theorem fill_numberless {fill : Fill} {json : JsonValue} (h : FillWritten IdNumber fill json)
    (hnone : ∀ n, json.headAt [.key "trade_id"] ≠ some (.number n)) :
    FillWritten IdText fill json := by
  cases h with
  | @mk tradeId ms id given =>
    have hlookup := lookup_perm (fillGiven_once fill tradeId) given (i := 4) rfl
    cases idNumber_text id with
    | inl hnull =>
      rw [hnull.1] at given
      exact .mk hnull.2 given
    | inr hsome =>
      obtain ⟨n, hnumber, _⟩ := hsome
      apply absurd _ (hnone n)
      show (ms.lookup "trade_id").bind _ = _
      rw [hlookup, hnumber]
      rfl

theorem fills_numberless {fills : Option (List Fill)} {json : JsonValue}
    (h : FillsWritten IdNumber fills json)
    (hnone : ∀ index n, json.headAt [.item index, .key "trade_id"] ≠ some (.number n)) :
    FillsWritten IdText fills json := by
  cases h with
  | none => exact .none
  | @some fills items each =>
    apply FillsWritten.some
    rw [List.forall₂_iff_get] at each ⊢
    refine ⟨each.1, fun i hfill hitem => ?_⟩
    apply fill_numberless (each.2 i hfill hitem)
    intro n hhead
    apply hnone i n
    show (items[i]?).bind _ = _
    rw [List.getElem?_eq_getElem hitem]
    exact hhead

/-- An order event that has no number for an ID has no ID. -/
theorem order_numberless {order : ExchangeOrder} {json : JsonValue}
    (h : OrderWritten IdNumber order json)
    (hnone : ∀ path n, OrderId path → json.headAt path ≠ some (.number n)) :
    OrderWritten IdText order json := by
  cases h with
  | @mk orderId fills raw ms id each given =>
    have once := orderGiven_once order orderId fills raw
    have hid := lookup_perm once given (i := 4) rfl
    have hfills := lookup_perm once given (i := 12) rfl
    have htext : FillsWritten IdText order.fills fills := by
      apply fills_numberless each
      intro index n hhead
      apply hnone [.key "fills", .item index, .key "trade_id"] n (.inr ⟨index, rfl⟩)
      show (ms.lookup "fills").bind _ = _
      rw [hfills]
      exact hhead
    cases idNumber_text id with
    | inl hnull =>
      rw [hnull.1] at given
      exact .mk hnull.2 htext given
    | inr hsome =>
      obtain ⟨n, hnumber, _⟩ := hsome
      apply absurd _ (hnone [.key "order_id"] n (.inl rfl))
      show (ms.lookup "order_id").bind _ = _
      rw [hid, hnumber]
      rfl

end

variable [DecimalJson] (g : UInt64 → UInt64)

omit [DecimalJson] in
theorem idText_floats {id : Option VenueId} {json : JsonValue} (h : IdText id json) :
    IdText id (json.mapFloats g) := by
  rw [h]
  exact option_floatless (fun _ _ => rfl) g id

theorem fillGiven_floats (fill : Fill) (tradeId : JsonValue) :
    ((fillGiven fill tradeId).map fun member => (member.1, member.2.mapFloats g)) =
      fillGiven fill (tradeId.mapFloats g) := by
  have asset := option_floatless (α := String) (fun _ _ => rfl) g fill.commissionAsset
  simp only [fillGiven, List.map_cons, List.map_nil, asset]
  rfl

theorem fillText_floats {fill : Fill} {json : JsonValue} (h : FillWritten IdText fill json) :
    FillWritten IdText fill (json.mapFloats g) := by
  cases h with
  | @mk tradeId ms id given =>
    show FillWritten IdText fill (.object (mapMembers g ms))
    rw [mapMembers_eq]
    apply FillWritten.mk (idText_floats g id)
    rw [← fillGiven_floats]
    exact given.map _

theorem fillsText_floats {fills : Option (List Fill)} {json : JsonValue}
    (h : FillsWritten IdText fills json) : FillsWritten IdText fills (json.mapFloats g) := by
  cases h with
  | none => exact .none
  | @some fills items each =>
    show FillsWritten IdText (some fills) (.array (mapItems g items))
    rw [mapItems_eq]
    apply FillsWritten.some
    rw [List.forall₂_map_right_iff]
    exact each.imp fun _ _ hfill => fillText_floats g hfill

theorem orderGiven_floats (order : ExchangeOrder) (orderId fills raw : JsonValue) :
    ((orderGiven order orderId fills raw).map fun member => (member.1, member.2.mapFloats g)) =
      orderGiven order (orderId.mapFloats g) (fills.mapFloats g) (raw.mapFloats g) := by
  have text (a : Option String) := option_floatless (α := String) (fun _ _ => rfl) g a
  have decimal (a : Option Decimal) := option_floatless (α := Decimal) (fun _ _ => rfl) g a
  have time (a : Option Int64) : (Serde.serialize a).mapFloats g = Serde.serialize a := by
    apply option_floatless
    intro _ n
    show JsonValue.number ((if 0 ≤ n then JsonNumber.posInt n.toUInt64 else .negInt n).mapFloat _) =
      .number _
    by_cases h : 0 ≤ n
    · rw [if_pos h]
      rfl
    · rw [if_neg h]
      rfl
  simp only [orderGiven, List.map_cons, List.map_nil, text, decimal, time]
  rfl

/-- An order event with its IDs as text is the same order whatever its floats are read as. -/
theorem orderText_floats {order : ExchangeOrder} {json : JsonValue}
    (h : OrderWritten IdText order json) : OrderWritten IdText order (json.mapFloats g) := by
  cases h with
  | @mk orderId fills raw ms id each given =>
    show OrderWritten IdText order (.object (mapMembers g ms))
    rw [mapMembers_eq]
    apply OrderWritten.mk (idText_floats g id) (fillsText_floats g each)
    rw [← orderGiven_floats]
    exact given.map _

end QuantForge.LegacyIds
