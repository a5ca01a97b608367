import QuantForge.Engine.Live.Recorded
import QuantForge.Framework.Chain

namespace QuantForge.Live

variable [DecimalMath]

/-- The answered order of an event: its reference bar and its side. -/
def Event.answer : Event → Option (Candle × Side × ExchangeOrder)
  | .submitted bar request (.answered order) => some (bar, request.side, order)
  | .simulated bar order => some (bar, order.side, order)
  | _ => none

/-- What the answered orders of a run add up to by what they report: the position
they leave, the quantities bought, closed and written off, by how much the
quantities that are kept were rounded, and what no decimal holds. -/
structure Ledger where
  held : PositionState
  bought : ℚ
  closed : ℚ
  writtenOff : ℚ
  rounded : ℚ
  unheld : ℚ

namespace Ledger

def start (position : PositionState) : Ledger := ⟨position, 0, 0, 0, 0, 0⟩

/-- The fees that an order's fills charged in the base asset. -/
def baseFees (rules : SymbolRules) (order : ExchangeOrder) : List Decimal :=
  ((order.fills.getD []).filter (·.chargesBase rules.baseAsset)).map (·.commission)

/-- What an entry bought: what it executed, less its base fees. -/
def net (rules : SymbolRules) (order : ExchangeOrder) (executed : Decimal) : ℚ :=
  max (executed.value - ((baseFees rules order).map (·.value)).sum) 0

/-- What fees leave of a quantity, where decimals hold it at every fee. -/
def lessFees (qty : Decimal) (fees : List Decimal) : Option Decimal :=
  fees.foldlM DecimalMath.checkedSub qty

/-- A position entered by an order, with its price where it can be computed. -/
def entered (bar : Candle) (order : ExchangeOrder) (qty : Decimal) : PositionState where
  qty
  entryPrice := order.averagePrice.toOption.join
  entryTimeMs := order.transactTimeMs.or (some bar.closeTimeMs)
  entryOrderId := order.orderId

/-- Nothing of a quantity can be sold: rounded down to the market's step it is
nothing, or less than the market's minimum. -/
def unsellable (rules : SymbolRules) (qty : Decimal) : Bool :=
  (maybeRoundQty qty rules).toOption.any fun tradeable =>
    tradeable.le .zero || rules.effectiveMarketMinQty.any (tradeable.lt ·)

/-- An entry that executed anything is held net of its base fees. -/
def buy (rules : SymbolRules) (bar : Candle) (order : ExchangeOrder) (l : Ledger) : Ledger :=
  match order.executedQty.filter (Decimal.lt .zero) with
  | none => l
  | some executed =>
    let bought := net rules order executed
    match lessFees executed (baseFees rules order) with
    | none => { l with bought := l.bought + bought, unheld := l.unheld + bought }
    | some left =>
      let qty := left.max .zero
      { l with
        held := if Decimal.lt .zero qty then entered bar order qty else l.held
        bought := l.bought + bought
        rounded := l.rounded + (qty.value - bought) }

/-- An exit closes what it executed of the position, and what is left is kept, or
written off where it cannot be sold. -/
def sell (rules : SymbolRules) (order : ExchangeOrder) (l : Ledger) : Ledger :=
  match (order.executedQty.map (·.min l.held.qty)).filter (Decimal.lt .zero) with
  | none => l
  | some closedQty =>
    let left := l.held.qty.value - closedQty.value
    match DecimalMath.checkedSub l.held.qty closedQty with
    | none => { l with
        held := .flat, closed := l.closed + closedQty.value, unheld := l.unheld + left }
    | some difference =>
      let remaining := difference.max .zero
      let kept := Decimal.lt .zero remaining && !unsellable rules remaining
      { l with
        held := if kept then { l.held with qty := remaining } else .flat
        closed := l.closed + closedQty.value
        writtenOff := if kept then l.writtenOff else l.writtenOff + remaining.value
        rounded := l.rounded + (remaining.value - left) }

def post (rules : SymbolRules) (l : Ledger) (event : Event) : Ledger :=
  match event.answer with
  | some (bar, .buy, order) => l.buy rules bar order
  | some (_, .sell, order) => l.sell rules order
  | none => l

/-- The ledger of a run that started with `position`, after some events. -/
def after (rules : SymbolRules) (position : PositionState) (events : List Event) : Ledger :=
  events.foldl (post rules) (start position)

/-- Nothing held comes from nowhere, and nothing bought is lost. -/
def Balanced (position : PositionState) (l : Ledger) : Prop :=
  l.held.qty.value + l.closed + l.writtenOff + l.unheld =
    position.qty.value + l.bought + l.rounded

/-- The ledger holds exactly this position. -/
structure Holds (l : Ledger) (position : PositionState) : Prop where
  held : l.held = position
  unheld : l.unheld = 0

variable {rules : SymbolRules} {position : PositionState}

theorem after_append (front back : List Event) :
    after rules position (front ++ back) = back.foldl (post rules) (after rules position front) :=
  List.foldl_append

theorem after_snoc (events : List Event) (event : Event) :
    after rules position (events ++ [event]) = (after rules position events).post rules event := by
  rw [after_append]
  rfl

theorem post_idle {event : Event} (h : event.answer = none) (l : Ledger) :
    l.post rules event = l := by rw [post, h]

/-- An event buys, sells or changes nothing. -/
theorem post_cases (l : Ledger) (event : Event) :
    l.post rules event = l ∨
      (∃ bar order, event.answer = some (bar, .buy, order) ∧
        l.post rules event = l.buy rules bar order) ∨
      ∃ bar order, event.answer = some (bar, .sell, order) ∧
        l.post rules event = l.sell rules order := by
  cases answer : event.answer with
  | none => exact .inl (post_idle answer l)
  | some answered =>
    obtain ⟨bar, side, order⟩ := answered
    cases side with
    | buy => exact .inr (.inl ⟨bar, order, rfl, by rw [post, answer]⟩)
    | sell => exact .inr (.inr ⟨bar, order, rfl, by rw [post, answer]⟩)

theorem foldl_idle {events : List Event} (h : ∀ e ∈ events, e.answer = none) (l : Ledger) :
    events.foldl (post rules) l = l := by
  induction events generalizing l with
  | nil => rfl
  | cons e events ih =>
    rw [List.foldl_cons, post_idle (h e (by simp))]
    exact ih (fun other hother => h other (List.mem_cons_of_mem _ hother)) l

theorem lessFees_cons (qty fee : Decimal) (fees : List Decimal) :
    lessFees qty (fee :: fees) =
      (DecimalMath.checkedSub qty fee).bind fun left => lessFees left fees := by
  rw [lessFees, List.foldlM_cons]
  rfl

/-- The engine's fees come off as the ledger's do. -/
theorem foldl_fees {baseAsset : String} {fills : List Fill} {qty left : Decimal} :
    fills.foldlM (ExchangeOrder.afterFee baseAsset) qty = .ok left ↔
      lessFees qty ((fills.filter (·.chargesBase baseAsset)).map (·.commission)) = some left := by
  induction fills generalizing qty with
  | nil =>
    show Except.ok qty = Except.ok left ↔ some qty = some left
    simp
  | cons fill fills ih =>
    rw [List.foldlM_cons, ExchangeOrder.afterFee]
    by_cases charged : fill.chargesBase baseAsset = true
    · rw [if_pos charged, List.filter_cons_of_pos charged, List.map_cons, lessFees_cons,
        DecimalMath.sub]
      cases DecimalMath.checkedSub qty fill.commission with
      | none => simp [DecimalMath.orPanic, bind, Except.bind]
      | some less => exact ih
    · rw [if_neg charged, List.filter_cons_of_neg charged]
      exact ih

omit [DecimalMath] in
theorem max_zero {qty : Decimal} (h : qty.le .zero = false) : qty.max .zero = qty := by
  rw [Decimal.max, Decimal.lt, h]
  rfl

/-- The quantity that the engine records of an entry is the ledger's. -/
theorem entryQty_net {order : ExchangeOrder} {executed qty : Decimal}
    (reported : order.executedQty = some executed) (positive : executed.le .zero = false)
    (h : entryQty rules order executed = .ok qty) :
    ∃ left, lessFees executed (baseFees rules order) = some left ∧ left.max .zero = qty := by
  unfold entryQty ExchangeOrder.netBaseQtyAfterBaseFees at h
  rw [reported] at h
  unfold baseFees
  cases hfills : order.fills with
  | none =>
    rw [hfills] at h
    cases h
    exact ⟨executed, rfl, max_zero positive⟩
  | some fills =>
    simp only [hfills, bind_ok] at h
    obtain ⟨found, ⟨left, hleft, hfound⟩, hqty⟩ := h
    cases hfound
    exact ⟨left, foldl_fees.mp hleft, Except.ok.inj hqty⟩

section Answers

variable {bar : Candle} {order : ExchangeOrder} {held : PositionState} {l : Ledger}

omit [DecimalMath] in
theorem executed_filter {executed : Decimal} (reported : order.executedQty = some executed)
    (positive : executed.le .zero = false) :
    order.executedQty.filter (Decimal.lt .zero) = some executed := by
  rw [reported, Option.filter_some, Decimal.lt, positive]
  rfl

/-- An entry that the engine takes up leaves what the ledger holds. -/
theorem buy_holds (h : l.Holds held) {taken : Option PositionState}
    (takes : entryPosition rules bar order = .ok taken) :
    (l.buy rules bar order).Holds (taken.getD held) := by
  unfold entryPosition at takes
  cases reported : order.executedQty with
  | none => simp [reported] at takes
  | some executed =>
    simp only [reported] at takes
    by_cases hzero : executed.le .zero = true
    · rw [if_pos hzero] at takes
      cases takes
      have nothing : order.executedQty.filter (Decimal.lt .zero) = none := by
        rw [reported, Option.filter_some, Decimal.lt, hzero]
        rfl
      rw [buy, nothing]
      exact h
    · rw [if_neg hzero] at takes
      have positive : executed.le .zero = false := by simpa using hzero
      obtain ⟨qty, hqty, takes⟩ := bind_ok.mp takes
      obtain ⟨left, hleft, rfl⟩ := entryQty_net reported positive (mapError_ok.mp hqty)
      simp only [buy, executed_filter reported positive, hleft]
      by_cases hnet : (left.max .zero).le .zero = true
      · rw [if_pos hnet] at takes
        cases takes
        have flat : Decimal.lt .zero (left.max .zero) = false := by rw [Decimal.lt, hnet]; rfl
        exact ⟨by simpa [flat] using h.held, h.unheld⟩
      · rw [if_neg hnet] at takes
        obtain ⟨price, hprice, takes⟩ := bind_ok.mp takes
        cases takes
        have opens : Decimal.lt .zero (left.max .zero) = true := by
          rw [Decimal.lt, Bool.not_eq_true', ← Bool.not_eq_true]
          exact hnet
        refine ⟨?_, h.unheld⟩
        simp only [opens, if_true, entered, mapError_ok.mp hprice]
        rfl

omit [DecimalMath] in
theorem not_refused {α : Type} {x : Except Panic α} {error : EngineError} :
    x.mapError Halt.panicked ≠ .error (.failed error) := by
  cases x <;> simp [Except.mapError]

/-- An entry that the engine refuses reports nothing executed. -/
theorem buy_refused {error : EngineError}
    (refuses : entryPosition rules bar order = .error (.failed error)) :
    l.buy rules bar order = l := by
  unfold entryPosition at refuses
  cases reported : order.executedQty with
  | none => rw [buy, reported, Option.filter_none]
  | some executed =>
    simp only [reported] at refuses
    split_ifs at refuses with hzero
    rcases bind_error.mp refuses with hqty | ⟨qty, -, refuses⟩
    · exact absurd hqty not_refused
    · split_ifs at refuses with hnet
      rcases bind_error.mp refuses with hprice | ⟨price, -, refuses⟩
      · exact absurd hprice not_refused
      · cases refuses

/-- What the engine keeps after an exit is what can be sold. -/
theorem keepsRemnant_sellable {remaining : Decimal} {kept : Bool}
    (h : keepsRemnant remaining rules = .ok kept) :
    kept = (Decimal.lt .zero remaining && !unsellable rules remaining) := by
  unfold keepsRemnant at h
  by_cases positive : Decimal.lt .zero remaining = true
  · have some_ : remaining.le .zero = false := by
      rwa [Decimal.lt, Bool.not_eq_true'] at positive
    rw [if_pos positive, isDustRemnant, some_, if_neg Bool.false_ne_true] at h
    unfold unsellable
    cases hround : maybeRoundQty remaining rules with
    | error panic => simp [hround, Except.map, bind, Except.bind] at h
    | ok tradeable =>
      simp only [hround, bind, Except.bind, Except.map, Except.ok.injEq] at h
      rw [← h, positive, sellQtyBelowMarketMin]
      cases rules.effectiveMarketMinQty with
      | none => simp [Except.toOption]
      | some minQty => simp [Except.toOption, Option.filter_some, apply_ite Option.isSome]
  · rw [if_neg positive] at h
    cases h
    rw [Bool.eq_false_iff.mpr positive, Bool.false_and]

/-- An exit that the engine takes up leaves what the ledger holds. -/
theorem sell_holds (h : l.Holds held) {taken : Option (Decimal × PositionState)}
    (takes : exitPosition rules order held = .ok taken) :
    (l.sell rules order).Holds ((taken.map Prod.snd).getD held) := by
  have same := h.held
  subst same
  unfold exitPosition at takes
  cases reported : order.executedQty with
  | none => simp [reported] at takes
  | some executed =>
    simp only [reported] at takes
    by_cases hzero : (executed.min l.held.qty).le .zero = true
    · rw [if_pos hzero] at takes
      cases takes
      have nothing : Decimal.lt .zero (executed.min l.held.qty) = false := by
        rw [Decimal.lt, hzero]
        rfl
      rw [sell, reported, Option.map_some, Option.filter_some, nothing]
      exact h
    · rw [if_neg hzero] at takes
      obtain ⟨difference, hdifference, takes⟩ := bind_ok.mp takes
      obtain ⟨kept, hkept, takes⟩ := bind_ok.mp takes
      cases takes
      have closes : Decimal.lt .zero (executed.min l.held.qty) = true := by
        rw [Decimal.lt, Bool.not_eq_true', ← Bool.not_eq_true]
        exact hzero
      have left := DecimalMath.orPanic_ok.mp (mapError_ok.mp hdifference)
      rw [sell, reported, Option.map_some, Option.filter_some, closes, if_pos rfl]
      simp only [left, ← keepsRemnant_sellable (mapError_ok.mp hkept)]
      exact ⟨rfl, h.unheld⟩

/-- An exit that the engine refuses reports nothing executed. -/
theorem sell_refused {error : EngineError}
    (refuses : exitPosition rules order held = .error (.failed error)) :
    l.sell rules order = l := by
  unfold exitPosition at refuses
  cases reported : order.executedQty with
  | none => rw [sell, reported, Option.map_none, Option.filter_none]
  | some executed =>
    simp only [reported] at refuses
    split_ifs at refuses with hzero
    rcases bind_error.mp refuses with hleft | ⟨difference, -, refuses⟩
    · exact absurd hleft not_refused
    · rcases bind_error.mp refuses with hkept | ⟨kept, -, refuses⟩
      · exact absurd hkept not_refused
      · cases refuses

end Answers

/-- An answered order moves the engine's position from `held`, unless it panics on
the way. -/
inductive Moves (rules : SymbolRules) (bar : Candle) (order : ExchangeOrder)
    (held : PositionState) : TargetPosition → PositionState → Prop
  | entry {taken : Option PositionState} : entryPosition rules bar order = .ok taken →
      Moves rules bar order held .longAllIn (taken.getD held)
  | noEntry {error : EngineError} : entryPosition rules bar order = .error (.failed error) →
      Moves rules bar order held .longAllIn held
  | exit {taken : Option (Decimal × PositionState)} : exitPosition rules order held = .ok taken →
      Moves rules bar order held .flat ((taken.map Prod.snd).getD held)
  | noExit {error : EngineError} : exitPosition rules order held = .error (.failed error) →
      Moves rules bar order held .flat held

/-- The ledger holds what an answered order leaves. -/
theorem post_holds {event : Event} {bar : Candle} {target : TargetPosition} {order : ExchangeOrder}
    {held left : PositionState} {l : Ledger}
    (answer : event.answer = some (bar, targetSide target, order)) (h : l.Holds held)
    (moves : Moves rules bar order held target left) : (l.post rules event).Holds left := by
  rw [post, answer]
  cases moves with
  | entry takes => exact buy_holds h takes
  | noEntry refuses =>
    show (l.buy rules bar order).Holds held
    rw [buy_refused refuses]
    exact h
  | exit takes => exact sell_holds h takes
  | noExit refuses =>
    show (l.sell rules order).Holds held
    have same := h.held
    subst same
    rw [sell_refused refuses]
    exact h

end Ledger

/-- An exit executed `qty` of the position, and what it left was saved; no order was
answered and no trade appended since. -/
def ClosedAndSaved (rules : SymbolRules) (position : PositionState) (events : List Event)
    (qty : Decimal) : Prop :=
  ∃ front entry back bar order executed, events = front ++ entry :: back ∧
    entry.answer = some (bar, .sell, order) ∧ order.executedQty = some executed ∧
    qty = executed.min (Ledger.after rules position front).held.qty ∧ 0 < qty.value ∧
    (∃ state, .saved state true ∈ back ∧
      state.position = (Ledger.after rules position (front ++ [entry])).held) ∧
    ∀ e ∈ back, e.answer = none ∧ ∀ trade effect, e ≠ .closed trade effect

/-- What may follow the events of a run that started with `position`: an entry
only while it is flat and an exit only while it is open, a save only of the
position that the answered orders leave, and a closed trade only once the exit
it records has been saved. -/
def Allowed (rules : SymbolRules) (position : PositionState) (before : List Event) : Event → Prop
  | .submitted _ request _ =>
    (Ledger.after rules position before).held.isOpen = true ↔ request.side = .sell
  | .simulated _ order =>
    (Ledger.after rules position before).held.isOpen = true ↔ order.side = .sell
  | .saved state _ => state.position = (Ledger.after rules position before).held
  | .closed trade _ => ClosedAndSaved rules position before trade.qty
  | .decided _ _ | .fed _ | .journaled _ _ => True

theorem allowed_sides {rules : SymbolRules} {position : PositionState} {before : List Event}
    {event : Event} {bar : Candle} {side : Side} {order : ExchangeOrder}
    (h : Allowed rules position before event) (answer : event.answer = some (bar, side, order)) :
    (Ledger.after rules position before).held.isOpen = true ↔ side = .sell := by
  cases event with
  | submitted bar' request outcome =>
    cases outcome with
    | answered order' =>
      simp only [Event.answer, Option.some.injEq, Prod.mk.injEq] at answer
      rw [← answer.2.1]
      exact h
    | failed error executed => cases answer
  | simulated bar' order' =>
    simp only [Event.answer, Option.some.injEq, Prod.mk.injEq] at answer
    rw [← answer.2.1]
    exact h
  | decided bar' target => cases answer
  | fed bar' => cases answer
  | journaled order' effect => cases answer
  | saved state effect => cases answer
  | closed trade effect => cases answer

namespace Ledger

variable {rules : SymbolRules} {position : PositionState}

omit [DecimalMath] in
theorem min_le_held (executed held : Decimal) : (executed.min held).value ≤ held.value := by
  unfold Decimal.min
  split_ifs with h
  · exact le_rfl
  · exact not_lt.mp (mt (Decimal.lt_iff _ _).mpr h)

omit [DecimalMath] in
theorem max_zero_value (d : Decimal) : (d.max .zero).value = max d.value 0 := by
  unfold Decimal.max
  split_ifs with h
  · exact (max_eq_left (Decimal.zero_lt.mp h).le).symm
  · rw [Decimal.zero_value]
    exact (max_eq_right (not_lt.mp (mt Decimal.zero_lt.mpr h))).symm

theorem buy_nonneg {l : Ledger} (h : 0 ≤ l.held.qty.value) (bar : Candle) (order : ExchangeOrder) :
    0 ≤ (l.buy rules bar order).held.qty.value := by
  unfold buy
  split
  · exact h
  · split
    · exact h
    · simp only
      split_ifs with opens
      · exact (Decimal.zero_lt.mp opens).le
      · exact h

theorem sell_nonneg {l : Ledger} (h : 0 ≤ l.held.qty.value) (order : ExchangeOrder) :
    0 ≤ (l.sell rules order).held.qty.value := by
  have flat : 0 ≤ PositionState.flat.qty.value := le_of_eq Decimal.zero_value.symm
  unfold sell
  split
  · exact h
  · split
    · exact flat
    · simp only
      split_ifs with kept
      · exact (Decimal.zero_lt.mp (Bool.and_eq_true_iff.mp kept).1).le
      · exact flat

/-- The position held is never negative. -/
theorem post_nonneg {l : Ledger} (h : 0 ≤ l.held.qty.value) (event : Event) :
    0 ≤ (l.post rules event).held.qty.value := by
  obtain same | ⟨bar, order, -, bought⟩ | ⟨bar, order, -, sold⟩ :=
    @post_cases _ rules l event
  · rwa [same]
  · rw [bought]
    exact buy_nonneg h bar order
  · rw [sold]
    exact sell_nonneg h order

theorem after_nonneg (h : 0 ≤ position.qty.value) (events : List Event) :
    0 ≤ (after rules position events).held.qty.value := by
  induction events using List.reverseRecOn with
  | nil => exact h
  | append_singleton events event ih =>
    rw [after_snoc]
    exact post_nonneg ih event

omit [DecimalMath] in
theorem not_open {held : PositionState} (h : 0 ≤ held.qty.value) (flat : held.isOpen = false) :
    held.qty.value = 0 := by
  have notPositive : ¬0 < held.qty.value := by
    rw [← Decimal.zero_lt, Bool.not_eq_true]
    exact flat
  exact le_antisymm (not_lt.mp notPositive) h

theorem buy_balanced {l : Ledger} {bar : Candle} {order : ExchangeOrder}
    (h : Balanced position l) (flat : l.held.qty.value = 0) :
    Balanced position (l.buy rules bar order) := by
  unfold Balanced at h ⊢
  unfold buy
  split
  · exact h
  · split
    · simp only
      linarith
    · next left _ =>
      simp only
      split_ifs with opens
      · simp only [entered]
        linarith
      · have nothing : (left.max .zero).value = 0 := by
          have least := le_max_right left.value 0
          rw [← max_zero_value] at least
          exact le_antisymm (not_lt.mp (mt Decimal.zero_lt.mpr opens)) least
        linarith

theorem sell_balanced {l : Ledger} {order : ExchangeOrder} (h : Balanced position l) :
    Balanced position (l.sell rules order) := by
  have zero : PositionState.flat.qty.value = 0 := Decimal.zero_value
  unfold Balanced at h ⊢
  unfold sell
  split
  · exact h
  · split
    · simp only
      linarith
    · simp only
      split_ifs with kept
      · simp only
        linarith
      · linarith

/-- Over any events that may follow each other, what is held, closed and written
off is what was held at first and bought since. -/
theorem after_balanced (nonneg : 0 ≤ position.qty.value) {events : List Event}
    (h : Unfolds (Allowed rules position) events) :
    Balanced position (after rules position events) := by
  induction events using List.reverseRecOn with
  | nil => simp [after, start, Balanced]
  | append_singleton events event ih =>
    have before := ih fun front e back heq => h front e (back ++ [event]) (by rw [heq]; simp)
    have allowed := h events event [] rfl
    rw [after_snoc]
    obtain same | ⟨bar, order, answer, bought⟩ | ⟨bar, order, -, sold⟩ :=
      @post_cases _ rules (after rules position events) event
    · rwa [same]
    · have flat : (after rules position events).held.isOpen = false := by
        rw [← Bool.not_eq_true, allowed_sides allowed answer]
        exact fun hsell => by cases hsell
      rw [bought]
      exact buy_balanced before (not_open (after_nonneg nonneg events) flat)
    · rw [sold]
      exact sell_balanced before

section Exact

variable (exact_ : ∀ {a b c : Decimal}, DecimalMath.checkedSub a b = some c →
  c.value = a.value - b.value)

include exact_

theorem lessFees_value {fees : List Decimal} {qty left : Decimal}
    (h : lessFees qty fees = some left) :
    left.value = qty.value - (fees.map (·.value)).sum := by
  induction fees generalizing qty with
  | nil =>
    cases h
    simp
  | cons fee fees ih =>
    rw [lessFees_cons, Option.bind_eq_some_iff] at h
    obtain ⟨less, hless, hleft⟩ := h
    rw [ih hleft, exact_ hless, List.map_cons, List.sum_cons]
    ring

theorem buy_rounded {l : Ledger} {bar : Candle} {order : ExchangeOrder} :
    (l.buy rules bar order).rounded = l.rounded := by
  unfold buy
  split
  · rfl
  · split
    · rfl
    · next left hleft =>
      simp only
      rw [max_zero_value, lessFees_value exact_ hleft, net, sub_self, add_zero]

theorem sell_rounded {l : Ledger} {order : ExchangeOrder} :
    (l.sell rules order).rounded = l.rounded := by
  unfold sell
  split
  · rfl
  · next closedQty hclosed =>
    split
    · rfl
    · next difference hdifference =>
      have within : closedQty.value ≤ l.held.qty.value := by
        obtain ⟨hmin, -⟩ := Option.filter_eq_some_iff.mp hclosed
        obtain ⟨executed, -, rfl⟩ := Option.map_eq_some_iff.mp hmin
        exact min_le_held executed l.held.qty
      have remains : (difference.max .zero).value = l.held.qty.value - closedQty.value := by
        rw [max_zero_value, exact_ hdifference]
        exact max_eq_left (by linarith)
      simp only
      rw [remains, sub_self, add_zero]

/-- Differences that are exact round nothing. -/
theorem after_rounded (events : List Event) : (after rules position events).rounded = 0 := by
  induction events using List.reverseRecOn with
  | nil => rfl
  | append_singleton events event ih =>
    rw [after_snoc]
    obtain same | ⟨bar, order, -, bought⟩ | ⟨bar, order, -, sold⟩ :=
      @post_cases _ rules (after rules position events) event
    · rwa [same]
    · rw [bought, buy_rounded exact_, ih]
    · rw [sold, sell_rounded exact_, ih]

end Exact

end Ledger

end QuantForge.Live
