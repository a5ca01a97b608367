import QuantForge.Cli.CloseSale
import QuantForge.Engine.Live
import QuantForge.Engine.Live.Recorded
import QuantForge.Framework.Meets
import QuantForge.Model.StepRounding

namespace QuantForge.Cli

open DecimalMath Live Prog

/-- Whether an end was an error or a panic, whatever its text. -/
inductive Ending
  | refused
  | panicked

def haltEnding : Halt → Ending
  | .failed _ => .refused
  | .panicked _ => .panicked

def SaleHalt.ending : SaleHalt → Ending
  | refused _ => .refused
  | passed halt => haltEnding halt

/-- An event up to how a run's status says that its bot goes on. -/
def unstopped : Event → Event
  | .saved state effect => .saved { state with status := .running, stoppedAtMs := none } effect
  | event => event

/-- The order an event sends, up to the id the client gives it. -/
def sent : Event → Option MarketOrderRequest
  | .submitted _ request _ => some { request with newClientOrderId := none }
  | _ => none

def sentBy {S : Type} (w : World S) : List MarketOrderRequest := w.log.filterMap Cli.sent

/-- The market sell of a quantity. -/
def sale (symbol : Symbol) (qty : Decimal) : MarketOrderRequest where
  symbol
  side := .sell
  quantity := some qty
  quoteOrderQty := none
  newClientOrderId := none

theorem sends_iff {qty : Decimal} {rules : SymbolRules} :
    sends qty rules = .ok true ↔
      0 < qty.value ∧ sellQtyBelowMarketMin qty rules = none ∧
        sellQtyAboveMarketMax qty rules = none := by
  unfold sends
  by_cases hqty : qty.le .zero = true
  · have hnot : ¬ 0 < qty.value := by
      rw [← Decimal.not_le_zero, hqty]
      exact Bool.noConfusion
    rw [if_pos hqty]
    simp [hnot]
  · have hpositive : 0 < qty.value := Decimal.not_le_zero.mp (by simpa using hqty)
    rw [if_neg hqty]
    cases hbelow : sellQtyBelowMarketMin qty rules with
    | some minQty => simp
    | none =>
      cases habove : sellQtyAboveMarketMax qty rules with
      | some maxQty => simp
      | none => simp [hpositive]

section Rounding

variable [DecimalMath]

theorem roundQuantityForRules_eq (qty : Decimal) (rules : SymbolRules) :
    roundQuantityForRules qty rules = (maybeRoundQty qty rules).mapError .panicked := rfl

/-- Rounding nothing down leaves something that is not positive, and never panics. -/
theorem round_zero [RoundedMath] (rules : SymbolRules) :
    ∃ rounded, maybeRoundQty .zero rules = .ok rounded := by
  unfold maybeRoundQty
  cases rules.effectiveMarketStepSize with
  | none => exact ⟨.zero, rfl⟩
  | some step =>
    show ∃ rounded, Decimal.zero.roundDownToStep step = .ok rounded
    by_cases hstep : step.le .zero = true
    · exact ⟨.zero, by rw [Decimal.roundDownToStep, if_pos hstep]⟩
    · have hpositive : 0 < step.value := Decimal.not_le_zero.mp (by simpa using hstep)
      have hzero : Rounding.Format.Holds Decimal.format 0 := by
        rw [← Decimal.zero_value]
        exact Decimal.zero.holds_value
      have hquotient : Decimal.Rounds (checkedDiv .zero step) (Decimal.zero.value / step.value) :=
        RoundedMath.div_rounds hpositive.ne'
      rw [Decimal.zero_value, zero_div] at hquotient
      obtain ⟨quotient, hdiv, hvalue⟩ := hquotient.exact_ hzero
      have hproduct := RoundedMath.mul_rounds quotient.trunc step
      rw [Decimal.trunc_value hvalue.ge, hvalue, Int.floor_zero, Int.cast_zero, zero_mul] at hproduct
      obtain ⟨product, hmul, -⟩ := hproduct.exact_ hzero
      exact ⟨product, (Decimal.roundDownToStep_ok hpositive).mpr ⟨quotient, hdiv, hmul⟩⟩

end Rounding

section Remnant

variable [DecimalMath] {rules : SymbolRules} {order : ExchangeOrder} {runState : BotRunState}

omit [DecimalMath] in
theorem max_zero (difference : Decimal) :
    Decimal.lt .zero (difference.max .zero) = true ∨ difference.max .zero = .zero := by
  unfold Decimal.max
  split_ifs with h
  · exact .inl h
  · exact .inr rfl

/-- The engine keeps a remnant where the close finds one that is not dust. -/
theorem keepsRemnant_eq [RoundedMath] (difference : Decimal) (rules : SymbolRules) :
    (keepsRemnant (difference.max .zero) rules).mapError CloseHalt.panicked =
      (remnantIsDust (difference.max .zero) rules).map fun dust =>
        Decimal.lt .zero (difference.max .zero) && !dust := by
  rcases max_zero difference with hpositive | hzero
  · have hnot : ¬ (difference.max .zero).le .zero = true := by
      rw [Decimal.zero_lt] at hpositive
      rw [Decimal.not_le_zero.mpr hpositive]
      exact Bool.false_ne_true
    rw [keepsRemnant, if_pos hpositive, isDustRemnant, if_neg hnot, remnantIsDust,
      roundQuantityForRules_eq]
    cases maybeRoundQty (difference.max .zero) rules with
    | error panic => rfl
    | ok tradeable =>
      show Except.ok _ = Except.ok _
      rw [hpositive, sellQtyBelowMarketMin]
      cases rules.effectiveMarketMinQty with
      | none => simp
      | some minQty =>
        cases hlt : tradeable.lt minQty
        · simp [hlt]
        · simp [hlt]
  · obtain ⟨rounded, hrounded⟩ := round_zero rules
    rw [hzero, remnantIsDust, roundQuantityForRules_eq, hrounded]
    rfl

omit [DecimalMath] in
theorem min_le_zero {executedQty : Decimal} (opened : runState.position.isOpen = true) :
    (executedQty.min runState.position.qty).le .zero = !Decimal.lt .zero executedQty := by
  have hqty : 0 < runState.position.qty.value := Decimal.zero_lt.mp opened
  rw [Decimal.lt, Bool.not_not, Bool.eq_iff_iff, Decimal.le_iff, Decimal.le_iff, Decimal.min]
  split_ifs with h
  · rw [Decimal.lt_iff] at h
    rw [Decimal.zero_value]
    constructor
    · intro hle
      linarith
    · intro hle
      linarith
  · rfl

/-- What an answered sale leaves of an open position, to the engine and to the close. -/
theorem soldRun_exit [RoundedMath] (opened : runState.position.isOpen = true) (nowMs : Int64) :
    (∃ halt close, exitPosition rules order runState.position = .error halt ∧
        soldRun rules order nowMs runState = .error close ∧
        haltEnding halt = close.sale.ending) ∨
      (exitPosition rules order runState.position = .ok none ∧
        soldRun rules order nowMs runState = .ok none) ∨
      ∃ executedQty position sold, order.executedQty = some executedQty ∧
        exitPosition rules order runState.position =
          .ok (some (executedQty.min runState.position.qty, position)) ∧
        soldRun rules order nowMs runState = .ok (some sold) ∧
        { sold with status := .running, stoppedAtMs := none } =
          { runState with
            position
            updatedAtMs := nowMs
            status := .running
            lastError := none
            stoppedAtMs := none } := by
  unfold exitPosition soldRun
  cases order.executedQty with
  | none => exact .inl ⟨_, _, rfl, rfl, rfl⟩
  | some executedQty =>
    have gates := @min_le_zero _ executedQty opened
    dsimp only
    rw [opened, gates]
    cases hpositive : Decimal.lt .zero executedQty with
    | false => exact .inr (.inl ⟨rfl, rfl⟩)
    | true =>
      cases hleft : sub runState.position.qty (executedQty.min runState.position.qty) with
      | error panic => exact .inl ⟨_, _, rfl, rfl, rfl⟩
      | ok difference =>
        have same := keepsRemnant_eq difference rules
        cases hdust : remnantIsDust (difference.max .zero) rules with
        | error close =>
          cases hkept : keepsRemnant (difference.max .zero) rules with
          | error panic =>
            rw [hkept, hdust] at same
            have hclose : CloseHalt.panicked panic = close := Except.error.inj same
            refine .inl ⟨.panicked panic, close, ?_, ?_, ?_⟩
            · simp only [bind, Except.bind, Except.mapError, hkept, Bool.not_true, Bool.false_eq_true,
                if_false]
            · simp only [bind, Except.bind, Except.mapError, hdust, Bool.and_self, if_true]
            · rw [← hclose]
              rfl
          | ok kept =>
            rw [hkept, hdust] at same
            cases same
        | ok dust =>
          rw [hdust] at same
          have hkept : keepsRemnant (difference.max .zero) rules =
              .ok (Decimal.lt .zero (difference.max .zero) && !dust) := mapError_ok.mp same
          cases hremains : Decimal.lt .zero (difference.max .zero) && !dust with
          | true =>
            rw [hremains] at hkept
            refine .inr (.inr ⟨executedQty, { runState.position with qty := difference.max .zero },
              { runState with
                updatedAtMs := nowMs
                lastError := none
                position := { runState.position with qty := difference.max .zero }
                status := .running
                stoppedAtMs := none }, rfl, ?_, ?_, rfl⟩)
            · simp only [bind, Except.bind, Except.mapError, hkept, Bool.not_true, Bool.false_eq_true,
                if_false, if_true]
            · simp only [bind, Except.bind, Except.mapError, hdust, hremains, pure, Except.pure,
                Bool.and_self, if_true]
          | false =>
            rw [hremains] at hkept
            refine .inr (.inr ⟨executedQty, .flat,
              { runState with
                updatedAtMs := nowMs
                lastError := none
                position := .flat
                status := .stopped
                stoppedAtMs := some nowMs }, rfl, ?_, ?_, rfl⟩)
            · simp only [bind, Except.bind, Except.mapError, hkept, Bool.not_true, Bool.false_eq_true,
                if_false]
            · simp only [bind, Except.bind, Except.mapError, hdust, hremains, pure, Except.pure,
                Bool.and_self, Bool.false_eq_true, if_false, if_true]

end Remnant

section Sends

variable {S σ α : Type}

/-- The program writes events after those the log holds, and none of them sends an order. -/
def Unsent {E : Type} (x : Prog (World S) E α) : Prop :=
  ∀ w, ∃ events, (x w).2.log = w.log ++ events ∧ ∀ event ∈ events, sent event = none

theorem Unsent.same {E : Type} {x : Prog (World S) E α} (h : Unsent x) (w : World S) :
    sentBy (x w).2 = sentBy w := by
  obtain ⟨events, grown, unsent⟩ := h w
  rw [sentBy, sentBy, grown, List.filterMap_append, List.filterMap_eq_nil_iff.mpr unsent,
    List.append_nil]

theorem unsent_of_log {E : Type} {x : Prog (World S) E α} (h : ∀ w, (x w).2.log = w.log) :
    Unsent x := by
  intro w
  exact ⟨[], by rw [h w, List.append_nil], by simp⟩

theorem unsent_compositional {E : Type} :
    Compositional fun {α : Type} (x : Prog (World S) E α) => Unsent x where
  answer _ := unsent_of_log fun _ => rfl
  andThen := by
    intro α β x f hx hf w
    obtain ⟨events, grown, unsent⟩ := hx w
    rcases bind_cases x f w with ⟨e, v, hv, hrun⟩ | ⟨a, v, hv, hrun⟩
    · rw [hv] at grown
      rw [hrun]
      exact ⟨events, grown, unsent⟩
    · rw [hv] at grown
      obtain ⟨more, further, others⟩ := hf a v
      rw [hrun]
      refine ⟨events ++ more, by rw [further, grown, List.append_assoc], ?_⟩
      intro event hevent
      rcases List.mem_append.mp hevent with h | h
      · exact unsent event h
      · exact others event h

theorem unsent_andThen {β E : Type} {x : Prog (World S) E α} {f : α → Prog (World S) E β}
    (hx : Unsent x) (hf : ∀ a, Unsent (f a)) : Unsent (x >>= f) :=
  unsent_compositional.andThen hx hf

theorem unsent_quiet {x : Part S α} (h : Quiet x) : Unsent x :=
  unsent_of_log fun w => congrArg Book.log (h w)

theorem unsent_ofExcept {E : Type} (answered : Except E α) :
    Unsent (Prog.ofExcept answered : Prog (World S) E α) := unsent_of_log fun _ => rfl

theorem unsent_ofPart {x : Part S α} (h : Unsent x) : Unsent (Sale.ofPart x) := h

theorem sent_submitted (w : World S) (bar : Candle) (request : MarketOrderRequest)
    (outcome : OrderOutcome) :
    sentBy (w.record (.submitted bar request outcome)) =
      sentBy w ++ [{ request with newClientOrderId := none }] := by
  show (w.log ++ [_]).filterMap Cli.sent = _
  rw [List.filterMap_append]
  rfl

variable (outside : Live.Outside)

theorem unsent_appendOrderEvent (order : ExchangeOrder) :
    Unsent (Part.appendOrderEvent outside order : Part S (Except StorageError Unit)) := by
  intro w
  exact ⟨[.journaled order (outside.write w.calls).effect], rfl, by simp [sent]⟩

theorem unsent_saveRunState : Unsent (Part.saveRunState outside : Part S Unit) := by
  intro w
  unfold Part.saveRunState Part.writeRuns
  cases w.runs.saveRunState w.state with
  | error error => exact ⟨[], (List.append_nil _).symm, by simp⟩
  | ok runs => exact ⟨[.saved w.state (outside.write w.calls).effect], rfl, by simp [sent]⟩

theorem unsent_appendClosedTrade (trade : ClosedTrade) :
    Unsent (Part.appendClosedTrade outside trade : Part S Unit) := by
  intro w
  exact ⟨[.closed trade (outside.write w.calls).effect], rfl, by simp [sent]⟩

variable [DecimalMath]

/-- Nothing is sent once an exit is answered. -/
theorem unsent_takeAnswer (cfg : LiveTradeConfig σ) (rules : SymbolRules) (bar : Candle)
    (order : ExchangeOrder) :
    Unsent (takeAnswer outside cfg rules .flat bar order : Part S Unit) := by
  have journals : Unsent (journalOrder outside order : Part S (Except Halt Unit)) :=
    unsent_andThen (unsent_appendOrderEvent outside order) fun _ =>
      unsent_andThen (unsent_quiet (modifySummary_quiet _)) fun _ => unsent_ofExcept _
  have saves (position : PositionState) :
      Unsent (savePosition outside position : Part S Unit) :=
    unsent_andThen (unsent_quiet runState_quiet) fun _ =>
      unsent_andThen (unsent_quiet (nowUtcMs_quiet outside)) fun _ =>
        unsent_andThen (unsent_of_log fun _ => rfl) fun _ => unsent_saveRunState outside
  refine unsent_andThen (unsent_quiet (logOrder_quiet outside order)) fun _ =>
    unsent_andThen journals fun journaled => ?_
  refine unsent_andThen (unsent_quiet runState_quiet) fun state =>
    unsent_andThen (unsent_ofExcept _) fun sold => ?_
  cases sold with
  | none => exact unsent_ofExcept journaled
  | some sold =>
    obtain ⟨closedQty, position⟩ := sold
    refine unsent_andThen (saves position) fun _ => unsent_andThen (unsent_ofExcept journaled) fun _ =>
      unsent_andThen (unsent_ofExcept _) fun trade => ?_
    exact unsent_andThen (unsent_appendClosedTrade outside trade) fun _ =>
      unsent_quiet (modifySummary_quiet _)

theorem unsent_saveSale (args : TradeCloseArgs) (rules : SymbolRules) (order : ExchangeOrder)
    (journaled : Except SaleHalt Unit) :
    Unsent (saveSale outside args rules order journaled : Sale S Unit) := by
  have reads (time : Option Int64) :
      Unsent (Sale.timeOr outside time : Sale S Int64) := by
    cases time with
    | some time => exact unsent_of_log fun _ => rfl
    | none => exact unsent_ofPart (unsent_quiet (nowUtcMs_quiet outside))
  have trades (runId : String) (before : PositionState) (closedQty : Decimal) :
      Unsent (saleTrade outside args order runId before closedQty : Sale S ClosedTrade) := by
    unfold saleTrade
    cases before.entryPrice with
    | none => exact unsent_ofExcept _
    | some entryPrice =>
      refine unsent_andThen (unsent_ofExcept _) fun price => ?_
      cases price with
      | none => exact unsent_ofExcept _
      | some exitPrice =>
        exact unsent_andThen (reads _) fun _ => unsent_andThen (reads _) fun _ =>
          unsent_andThen (unsent_ofExcept _) fun _ => unsent_andThen (unsent_ofExcept _) fun _ =>
            unsent_of_log fun _ => rfl
  refine unsent_andThen (unsent_ofPart (unsent_quiet runState_quiet)) fun runState =>
    unsent_andThen (unsent_ofPart (unsent_quiet (nowUtcMs_quiet outside))) fun nowMs =>
      unsent_andThen (unsent_ofExcept _) fun sold => ?_
  cases sold with
  | none => exact unsent_ofExcept journaled
  | some sold =>
    cases order.executedQty with
    | none => exact unsent_ofExcept journaled
    | some executedQty =>
      refine unsent_andThen (unsent_ofPart (unsent_of_log fun _ => rfl)) fun _ =>
        unsent_andThen (unsent_ofPart (unsent_saveRunState outside)) fun _ =>
          unsent_andThen (unsent_ofExcept journaled) fun _ =>
            unsent_andThen (trades _ _ _) fun trade => ?_
      exact unsent_ofPart (unsent_appendClosedTrade outside trade)

theorem unsent_recordSale (args : TradeCloseArgs) (rules : SymbolRules) (order : ExchangeOrder) :
    Unsent (recordSale outside args rules order : Sale S Unit) := by
  have journals : Unsent (journalSale outside order : Sale S (Except SaleHalt Unit)) :=
    unsent_andThen (unsent_ofPart (unsent_appendOrderEvent outside order)) fun _ =>
      unsent_of_log fun _ => rfl
  exact unsent_andThen journals fun journaled => unsent_saveSale outside args rules order journaled

/-- The order an exit of this quantity is sent as, once it is rounded and within the limits. -/
def exitOrders (symbol : Symbol) (rules : SymbolRules) (rounded : Except Panic Decimal) :
    List MarketOrderRequest :=
  match rounded with
  | .ok qty => if sends qty rules = .ok true then [sale symbol qty] else []
  | .error _ => []

/-- A live exit once its gates have answered. -/
def sendExit (cfg : LiveTradeConfig σ) (bar : Candle) (runId : String) (qty : Decimal) :
    Bool → Part S (Option ExchangeOrder)
  | false => pure none
  | true => do
    let clientOrderId ← newClientOrderId outside "exit" runId
    let order ← Part.submitMarketOrder outside bar {
      symbol := cfg.market.symbol
      side := .sell
      quantity := some qty
      quoteOrderQty := none
      newClientOrderId := some clientOrderId }
    pure (some order)

/-- What a live exit sends: the rounded quantity, where the engine's gates let it. -/
theorem sent_executeTarget {cfg : LiveTradeConfig σ} {rules : SymbolRules} {w : World S}
    {balances : List AssetBalance} (bar : Candle) (live : cfg.executionMode = .live)
    (signed : outside.signed = true) (hbalances : outside.balances w.calls = .ok balances) :
    sentBy (executeTarget outside cfg rules .flat bar w).2 = sentBy w ++
      exitOrders cfg.market.symbol rules
        (maybeRoundQty ((freeBaseQty rules balances).min w.state.position.qty) rules) := by
  set v := (w.record (.decided bar .flat)).called with hv
  have begun : sentBy v = sentBy w := by
    show (w.log ++ [_]).filterMap Cli.sent = w.log.filterMap Cli.sent
    rw [List.filterMap_append]
    exact List.append_nil _
  have places : placeOrder outside cfg rules .flat bar (w.record (.decided bar .flat)) =
      (do
        let requestedQty ← Part.orPanic
          (maybeRoundQty ((freeBaseQty rules balances).min w.state.position.qty) rules)
        let sending ← Part.orRefuse (sends requestedQty rules)
        sendExit outside cfg bar w.state.runId requestedQty sending :
          Part S (Option ExchangeOrder)) v := by
    have answered : (Part.accountBalances outside : Part S (List AssetBalance))
        (w.record (.decided bar .flat)) = (.ok balances, v) := by
      show ((outside.balances w.calls).mapError _, v) = _
      rw [hbalances]
      rfl
    rw [placeOrder.eq_def, live, signed]
    show (Part.accountBalances outside >>= _) _ = _
    rw [seq_ok answered]
    rfl
  have goes : executeTarget outside cfg rules .flat bar w =
      (placeOrder outside cfg rules .flat bar >>= takePlaced outside cfg rules .flat bar)
        (w.record (.decided bar .flat)) := rfl
  rw [goes]
  cases hround : maybeRoundQty ((freeBaseQty rules balances).min w.state.position.qty) rules with
  | error panic =>
    have stops : placeOrder outside cfg rules .flat bar (w.record (.decided bar .flat)) =
        (.error (.panicked panic), v) := by
      rw [places, hround]
      rfl
    rw [seq_error stops, exitOrders, List.append_nil]
    exact begun
  | ok qty =>
    rw [hround] at places
    rw [exitOrders]
    cases hsends : sends qty rules with
    | error error =>
      have stops : placeOrder outside cfg rules .flat bar (w.record (.decided bar .flat)) =
          (.error (.failed error), v) := by
        rw [places]
        show (Part.orRefuse (sends qty rules) >>= _) v = _
        rw [hsends]
        rfl
      rw [seq_error stops, if_neg (by simp), List.append_nil]
      exact begun
    | ok sending =>
      cases sending with
      | false =>
        have stops : placeOrder outside cfg rules .flat bar (w.record (.decided bar .flat)) =
            (.ok none, v) := by
          rw [places]
          show (Part.orRefuse (sends qty rules) >>= _) v = _
          rw [hsends]
          rfl
        rw [seq_ok stops, if_neg (by simp), List.append_nil]
        exact begun
      | true =>
        rw [if_pos rfl]
        obtain ⟨id, u, hid, same⟩ : ∃ id u,
            (newClientOrderId outside "exit" w.state.runId : Part S String) v = (.ok id, u) ∧
              sentBy u = sentBy v := ⟨_, _, rfl, rfl⟩
        set request : MarketOrderRequest := ⟨cfg.market.symbol, .sell, some qty, none, some id⟩
        have submits : placeOrder outside cfg rules .flat bar (w.record (.decided bar .flat)) =
            (Part.submitMarketOrder outside bar request >>= fun order => pure (some order)) u := by
          rw [places]
          show (Part.orRefuse (sends qty rules) >>= _) v = _
          rw [hsends]
          have passes : (Part.orRefuse (.ok true) : Part S Bool) v = (.ok true, v) := rfl
          rw [seq_ok passes]
          exact seq_ok hid
        have sends_ : sentBy (Part.submitMarketOrder outside bar request u).2 =
            sentBy w ++ [sale cfg.market.symbol qty] := by
          rw [← begun, ← same]
          exact sent_submitted u.called bar request _
        rw [map_run] at submits
        rcases hsubmit : Part.submitMarketOrder outside bar request u with ⟨outcome, t⟩
        rw [hsubmit] at submits sends_
        cases outcome with
        | error halt =>
          rw [seq_error submits]
          exact sends_
        | ok order =>
          rw [seq_ok submits]
          exact ((unsent_takeAnswer outside cfg rules bar order).same t).trans sends_

/-- The order a close of this quantity is sent as, once it is rounded. -/
def closeOrders (symbol : Symbol) (rounded : Except Panic Decimal) : List MarketOrderRequest :=
  match rounded with
  | .ok qty => if qty.le .zero then [] else [sale symbol qty]
  | .error _ => []

/-- The request a close of this quantity makes. -/
def closeRequest (args : TradeCloseArgs) (rules : SymbolRules) (nowMs : Int64)
    (rounded : Except Panic Decimal) : Except CloseHalt (Option MarketOrderRequest) :=
  match rounded with
  | .ok qty =>
    if qty.le .zero then .error (.refused s!"no sellable quantity available for {rules.baseAsset}")
    else .ok (some { sale args.symbol qty with
      newClientOrderId := some s!"manual-close-{nowMs}" })
  | .error panic => .error (.panicked panic)

/-- A close once its request is built. -/
def sendClose (bar : Candle) : Option MarketOrderRequest → Sale S (Option ExchangeOrder)
  | none => pure none
  | some request => do
    let order ← Sale.ofPart (Part.submitMarketOrder outside bar request)
    pure (some order)

def recordPlaced (args : TradeCloseArgs) (rules : SymbolRules) : Option ExchangeOrder → Sale S Unit
  | none => pure ()
  | some order => recordSale outside args rules order

/-- What a confirmed close of a priced position sends: the rounded quantity, whatever the
market's limits. -/
theorem sent_closeSale {args : TradeCloseArgs} {rules : SymbolRules} {w : World S}
    {balances : List AssetBalance} (bar : Candle) (yes : args.yes = true)
    (priced : w.state.position.entryPrice ≠ none)
    (hbalances : outside.balances w.calls = .ok balances) :
    sentBy (closeSale outside args rules bar w).2 = sentBy w ++
      closeOrders args.symbol
        (maybeRoundQty ((freeBaseQty rules balances).min w.state.position.qty) rules) := by
  set nowMs := outside.now w.feed.clockReads
  set v := ((Part.nowUtcMs outside : Part S Int64) w.called).2
  have begun : sentBy v = sentBy w := rfl
  have reads : (submitSale outside args rules bar : Sale S (Option ExchangeOrder)) w =
      (Sale.ofClose (sellRequest args rules balances w.state nowMs) >>= sendClose outside bar :
        Sale S (Option ExchangeOrder)) v := by
    have answered : (Sale.ofPart (Part.accountBalances outside) : Sale S (List AssetBalance)) w =
        (.ok balances, w.called) := by
      show (((outside.balances w.calls).mapError _).mapError _, w.called) = _
      rw [hbalances]
      rfl
    rw [submitSale, seq_ok answered]
    rfl
  have requests : sellRequest args rules balances w.state nowMs = closeRequest args rules nowMs
      (maybeRoundQty ((freeBaseQty rules balances).min w.state.position.qty) rules) := by
    rw [sellRequest, roundQuantityForRules_eq, yes]
    cases maybeRoundQty ((freeBaseQty rules balances).min w.state.position.qty) rules with
    | error panic => rfl
    | ok qty =>
      simp only [Except.mapError, bind, Except.bind, Bool.not_true, Bool.false_eq_true, if_false,
        priced, and_false]
      rfl
  have goes : closeSale outside args rules bar w =
      (submitSale outside args rules bar >>= recordPlaced outside args rules) w := rfl
  rw [goes]
  rw [requests] at reads
  cases hround : maybeRoundQty ((freeBaseQty rules balances).min w.state.position.qty) rules with
  | error panic =>
    rw [hround] at reads
    have stops : submitSale outside args rules bar w = (.error (.passed (.panicked panic)), v) :=
      reads
    rw [seq_error stops, closeOrders, List.append_nil]
    exact begun
  | ok qty =>
    rw [hround, closeRequest] at reads
    rw [closeOrders]
    by_cases hqty : qty.le .zero = true
    · rw [if_pos hqty] at reads ⊢
      rw [seq_error reads, List.append_nil]
      exact begun
    · rw [if_neg hqty] at reads ⊢
      set request : MarketOrderRequest := { sale args.symbol qty with
        newClientOrderId := some s!"manual-close-{nowMs}" }
      have submits : submitSale outside args rules bar w =
          (Sale.ofPart (Part.submitMarketOrder outside bar request) >>= fun order =>
            pure (some order)) v := reads
      have sends_ : sentBy (Sale.ofPart (Part.submitMarketOrder outside bar request) v).2 =
          sentBy w ++ [sale args.symbol qty] := by
        rw [← begun]
        exact sent_submitted v.called bar request _
      rw [map_run] at submits
      rcases hsubmit : Sale.ofPart (Part.submitMarketOrder outside bar request) v with ⟨outcome, t⟩
      rw [hsubmit] at submits sends_
      cases outcome with
      | error halt =>
        rw [seq_error submits]
        exact sends_
      | ok order =>
        rw [seq_ok submits]
        exact ((unsent_recordSale outside args rules order).same t).trans sends_

end Sends

/-- What the records of one answered order have in common: how they end, what they wrote in
which order, and the position they leave. -/
structure SameRecord {S : Type} (engine : Except Halt Unit × World S)
    (close : Except SaleHalt Unit × World S) : Prop where
  ending : engine.1.mapError haltEnding = close.1.mapError SaleHalt.ending
  log : engine.2.log.map unstopped = close.2.log.map unstopped
  position : engine.2.state.position = close.2.state.position

section Records

variable {S σ : Type}

/-- Worlds that show the same log and position, and made the same calls. -/
structure Shown (w v : World S) : Prop where
  log : w.log.map unstopped = v.log.map unstopped
  position : w.state.position = v.state.position
  calls : w.calls = v.calls

/-- Worlds about to save the same run, up to how it goes on. -/
structure Saving (w v : World S) : Prop where
  shown : Shown w v
  runs : w.runs = v.runs
  runId : w.state.runId = v.state.runId
  saved (effect : Bool) : unstopped (.saved w.state effect) = unstopped (.saved v.state effect)

theorem Shown.record {w v : World S} (h : Shown w v) {event other : Event}
    (same : unstopped event = unstopped other) : Shown (w.called.record event)
      (v.called.record other) where
  log := by
    show (w.log ++ [event]).map unstopped = (v.log ++ [other]).map unstopped
    rw [List.map_append, List.map_append, h.log, List.map_singleton, List.map_singleton, same]
  position := h.position
  calls := congrArg (· + 1) h.calls

variable (outside : Live.Outside)

/-- A part and a passed-on part that answer the same end alike. -/
theorem ofPart_ends {α : Type} {x y : Part S α} {w v : World S} (same : (x w).1 = (y v).1)
    (shows : Shown (x w).2 (y v).2) :
    (∃ a b w' v', x w = (.ok a, w') ∧ Sale.ofPart y v = (.ok b, v') ∧ a = b ∧ Shown w' v') ∨
      ∃ halt close w' v', x w = (.error halt, w') ∧ Sale.ofPart y v = (.error close, v') ∧
        haltEnding halt = close.ending ∧ Shown w' v' := by
  have passes : Sale.ofPart y v = ((y v).1.mapError .passed, (y v).2) := rfl
  rw [passes, ← same]
  rcases hx : x w with ⟨answered, w'⟩
  rw [hx] at shows
  cases answered with
  | ok a => exact .inl ⟨a, a, w', _, rfl, rfl, rfl, shows⟩
  | error halt => exact .inr ⟨halt, .passed halt, w', _, rfl, rfl, rfl, shows⟩

theorem alike_save :
    Alike Saving (Part.saveRunState outside : Part S Unit) (Sale.ofPart (Part.saveRunState outside))
      (fun a b w v => a = b ∧ Shown w v) fun halt close w v =>
        haltEnding halt = close.ending ∧ Shown w v := by
  intro w v h
  have calls := h.shown.calls
  have called := congrArg (· + 1) calls
  cases hrow : w.runs w.state.runId with
  | none =>
    have same : v.runs v.state.runId = none := by rw [← h.runs, ← h.runId, hrow]
    apply ofPart_ends
    · simp only [Part.saveRunState, Part.writeRuns, RunTable.saveRunState, hrow, same]
      rw [h.runId]
    · simp only [Part.saveRunState, Part.writeRuns, RunTable.saveRunState, hrow, same]
      exact ⟨h.shown.log, h.shown.position, called⟩
  | some row =>
    have same : v.runs v.state.runId = some row := by rw [← h.runs, ← h.runId, hrow]
    have shows := h.shown.record (h.saved (outside.write w.calls).effect)
    apply ofPart_ends
    · simp only [Part.saveRunState, Part.writeRuns, RunTable.saveRunState, hrow, same, calls]
    · simp only [Part.saveRunState, Part.writeRuns, RunTable.saveRunState, hrow, same]
      rw [← calls]
      exact ⟨shows.log, shows.position, called⟩

theorem alike_append (trade : ClosedTrade) :
    Alike Shown (appendTrade outside trade : Part S Unit)
      (Sale.ofPart (Part.appendClosedTrade outside trade)) (fun a b w v => a = b ∧ Shown w v)
      fun halt close w v => haltEnding halt = close.ending ∧ Shown w v := by
  intro w v h
  have shows : Shown ((Part.appendClosedTrade outside trade : Part S Unit) w).2
      ((Part.appendClosedTrade outside trade : Part S Unit) v).2 := by
    simp only [Part.appendClosedTrade]
    rw [← h.calls]
    exact h.record rfl
  have answers : ((Part.appendClosedTrade outside trade : Part S Unit) w).1 =
      ((Part.appendClosedTrade outside trade : Part S Unit) v).1 := by
    simp only [Part.appendClosedTrade, h.calls]
  rcases ofPart_ends answers shows with ⟨a, b, w', v', hw, hv, -, shown⟩ |
    ⟨halt, close, w', v', hw, hv, ends, shown⟩
  · refine .inl ⟨(), b, _, v', seq_ok hw, hv, rfl, ?_⟩
    exact ⟨shown.log, shown.position, shown.calls⟩
  · exact .inr ⟨halt, close, w', v', seq_error hw, hv, ends, shown⟩

/-- From the save on, a close does what an exit does. -/
theorem saved_alike {journaled : Except Halt Unit} {deferred : Except SaleHalt Unit}
    {closed : Except Halt ClosedTrade} {trade : Except SaleHalt ClosedTrade}
    (same : journaled.mapError haltEnding = deferred.mapError SaleHalt.ending)
    (trades : closed.mapError haltEnding = trade.mapError SaleHalt.ending) :
    Alike Saving
      (do
        Part.saveRunState outside
        Prog.ofExcept journaled
        let trade ← Prog.ofExcept closed
        appendTrade outside trade : Part S Unit)
      (do
        Sale.ofPart (Part.saveRunState outside)
        Prog.ofExcept deferred
        let trade ← Prog.ofExcept trade
        Sale.ofPart (Part.appendClosedTrade outside trade) : Sale S Unit)
      (fun a b w v => a = b ∧ Shown w v)
      fun halt close w v => haltEnding halt = close.ending ∧ Shown w v := by
  refine alike_bind (alike_save outside) fun _ _ => ?_
  refine alike_bind (alike_weaken (alike_ofExcept same) (fun _ _ h => h.2)
    (fun _ _ _ _ h => h) fun _ _ _ _ h => h) fun _ _ => ?_
  refine alike_bind (alike_weaken (alike_ofExcept trades) (fun _ _ h => h.2)
    (fun _ _ _ _ h => h) fun _ _ _ _ h => h) fun a b => ?_
  intro w v h
  obtain ⟨rfl, shown⟩ := h
  exact alike_append outside a w v shown

variable [DecimalMath]

/-- With both times reported, a close records the trade the engine does. -/
theorem saleTrade_ends {args : TradeCloseArgs} {symbol : Symbol} {bar : Candle}
    {order : ExchangeOrder} {before : PositionState} (runId : String) (closedQty : Decimal)
    (hsymbol : args.symbol = symbol) (timed : before.entryTimeMs ≠ none)
    (answered : order.transactTimeMs ≠ none) :
    ∃ trade : Except SaleHalt ClosedTrade,
      (saleTrade outside args order runId before closedQty : Sale S ClosedTrade) =
          Prog.ofExcept trade ∧
        (closedTrade symbol bar order before closedQty).mapError haltEnding =
          trade.mapError SaleHalt.ending := by
  obtain ⟨entryTimeMs, hentry⟩ := Option.ne_none_iff_exists'.mp timed
  obtain ⟨exitTimeMs, hexit⟩ := Option.ne_none_iff_exists'.mp answered
  unfold saleTrade closedTrade
  rw [hentry, hexit]
  cases before.entryPrice with
  | none => exact ⟨_, rfl, rfl⟩
  | some entryPrice =>
    cases order.averagePrice with
    | error panic => exact ⟨.error (.passed (.panicked panic)), rfl, rfl⟩
    | ok price =>
      cases price with
      | none => exact ⟨.error _, rfl, rfl⟩
      | some exitPrice =>
        change ∃ trade : Except SaleHalt ClosedTrade,
          (Sale.orPanic (sub exitPrice entryPrice) >>= fun gain =>
            Sale.orPanic (mul gain closedQty) >>= fun grossQuotePnl =>
              pure ⟨args.symbol, entryTimeMs, exitTimeMs, entryPrice, exitPrice, closedQty,
                grossQuotePnl, before.entryOrderId, order.orderId⟩ : Sale S ClosedTrade) =
            Prog.ofExcept trade ∧
          ((sub exitPrice entryPrice).mapError Halt.panicked >>= fun gain =>
            (mul gain closedQty).mapError Halt.panicked >>= fun grossQuotePnl =>
              Except.ok (⟨symbol, entryTimeMs, exitTimeMs, entryPrice, exitPrice, closedQty,
                grossQuotePnl, before.entryOrderId, order.orderId⟩ : ClosedTrade)).mapError
              haltEnding = trade.mapError SaleHalt.ending
        rw [hsymbol]
        cases sub exitPrice entryPrice with
        | error panic => exact ⟨.error (.passed (.panicked panic)), rfl, rfl⟩
        | ok gain =>
          change ∃ trade : Except SaleHalt ClosedTrade,
            (Sale.orPanic (mul gain closedQty) >>= fun grossQuotePnl =>
              pure ⟨symbol, entryTimeMs, exitTimeMs, entryPrice, exitPrice, closedQty,
                grossQuotePnl, before.entryOrderId, order.orderId⟩ : Sale S ClosedTrade) =
              Prog.ofExcept trade ∧
            ((mul gain closedQty).mapError Halt.panicked >>= fun grossQuotePnl =>
              Except.ok (⟨symbol, entryTimeMs, exitTimeMs, entryPrice, exitPrice, closedQty,
                grossQuotePnl, before.entryOrderId, order.orderId⟩ : ClosedTrade)).mapError
                haltEnding = trade.mapError SaleHalt.ending
          cases mul gain closedQty with
          | error panic => exact ⟨.error (.passed (.panicked panic)), rfl, rfl⟩
          | ok grossQuotePnl => exact ⟨.ok _, rfl, rfl⟩

variable [RoundedMath] {args : TradeCloseArgs} {cfg : LiveTradeConfig σ} {rules : SymbolRules}
  {order : ExchangeOrder} {w : World S}

/-- What an exit leaves once its fill is known. -/
def saveExit (cfg : LiveTradeConfig σ) (bar : Candle) (order : ExchangeOrder)
    (before : PositionState) (journaled : Except Halt Unit) :
    Option (Decimal × PositionState) → Part S Unit
  | none => Prog.ofExcept journaled
  | some (closedQty, position) => do
    savePosition outside position
    Prog.ofExcept journaled
    let trade ← Prog.ofExcept (closedTrade cfg.market.symbol bar order before closedQty)
    appendTrade outside trade

/-- What a close leaves once its fill is known. -/
def saveSold (args : TradeCloseArgs) (order : ExchangeOrder) (before : BotRunState)
    (deferred : Except SaleHalt Unit) : Option BotRunState → Option Decimal → Sale S Unit
  | some sold, some executedQty => do
    Sale.ofPart (Part.setState sold)
    Sale.ofPart (Part.saveRunState outside)
    Prog.ofExcept deferred
    let trade ← saleTrade outside args order before.runId before.position
      (executedQty.min before.position.qty)
    Sale.ofPart (Part.appendClosedTrade outside trade)
  | _, _ => Prog.ofExcept deferred

/-- An answered order is recorded alike, once the engine has logged it. -/
theorem records_alike (bar : Candle) (hsymbol : args.symbol = cfg.market.symbol)
    (opened : w.state.position.isOpen = true) (timed : w.state.position.entryTimeMs ≠ none)
    (answered : order.transactTimeMs ≠ none)
    (logged : outside.infoEnabled = true → ∃ price, order.averagePrice = .ok price) :
    SameRecord (takeAnswer outside cfg rules .flat bar order w)
      (recordSale outside args rules order w) := by
  have logs : logOrder outside order w = (.ok (), w) := by
    unfold logOrder
    split_ifs with hinfo
    · obtain ⟨price, hprice⟩ := logged hinfo
      rw [hprice]
      rfl
    · rfl
  set outcome := outside.write w.calls with houtcome
  set nowMs := outside.now w.feed.clockReads
  -- the worlds in which the engine and the close have journaled the order
  set u : World S := { w.called.record (.journaled order outcome.effect) with
    summary := { w.summary with submittedOrders := w.summary.submittedOrders + 1 } } with hu
  set v : World S := ((Part.nowUtcMs outside : Part S Int64)
    (w.called.record (.journaled order outcome.effect))).2 with hv
  set journaled : Except Halt Unit := outcome.answer.mapError fun error => .failed (.invalidState
    (s!"order executed but journaling the order event failed ({error.toText}); reconcile " ++
      "manually with `monitor status`")) with hjournaled
  set deferred : Except SaleHalt Unit := outcome.answer.mapError fun error => .refused
    (s!"order executed but journaling the order event failed ({error.toText}); reconcile " ++
      "manually with `monitor status`") with hdeferred
  have same : journaled.mapError haltEnding = deferred.mapError SaleHalt.ending := by
    rw [hjournaled, hdeferred]
    cases outcome.answer with
    | ok _ => rfl
    | error _ => rfl
  have engine : takeAnswer outside cfg rules .flat bar order w =
      (Prog.ofExcept (exitPosition rules order w.state.position) >>=
        saveExit outside cfg bar order w.state.position journaled : Part S Unit) u := by
    rw [takeAnswer, seq_ok logs]
    rfl
  have close : recordSale outside args rules order w =
      (Sale.ofClose (soldRun rules order nowMs w.state) >>= fun sold =>
        saveSold outside args order w.state deferred sold order.executedQty : Sale S Unit) v := rfl
  rw [engine, close]
  rcases @soldRun_exit _ rules order _ _ opened nowMs with
    ⟨halt, stop, hexit, hsold, ends⟩ | ⟨hexit, hsold⟩ |
    ⟨executedQty, position, sold, hexecuted, hexit, hsold, saved⟩
  · rw [hexit, hsold]
    exact ⟨congrArg Except.error ends, rfl, rfl⟩
  · rw [hexit, hsold]
    exact ⟨same, rfl, rfl⟩
  · rw [hexit, hsold, hexecuted]
    obtain ⟨trade, trades, tradeEnds⟩ := @saleTrade_ends S outside _ _ _ bar _ _
      w.state.runId (executedQty.min w.state.position.qty) hsymbol timed answered
    set u' : World S := { (Part.nowUtcMs outside u).2 with
      state := { w.state with
        position
        updatedAtMs := nowMs
        status := .running
        lastError := none } }
    set v' : World S := { v with state := sold }
    have before : Saving u' v' :=
      ⟨⟨rfl, (congrArg BotRunState.position saved).symm, rfl⟩, rfl,
        (congrArg BotRunState.runId saved).symm,
        fun effect => congrArg (Event.saved · effect) saved.symm⟩
    have rest := saved_alike (S := S) outside same tradeEnds
    have ends := alike_ends (P := fun a b w v => a.mapError haltEnding =
      b.mapError SaleHalt.ending ∧ Shown w v) (alike_weaken rest (fun _ _ h => h)
        (fun _ _ _ _ h => ⟨congrArg Except.ok h.1, h.2⟩)
        fun _ _ _ _ h => ⟨congrArg Except.error h.1, h.2⟩) before
    rw [← trades] at ends
    exact ⟨ends.1, ends.2.log, ends.2.position⟩

omit [RoundedMath] in
/-- An order whose average price cannot be logged is journaled by the close alone. -/
theorem records_differ {panic : Panic} (bar : Candle) (hinfo : outside.infoEnabled = true)
    (hprice : order.averagePrice = .error panic) :
    ¬ SameRecord (takeAnswer outside cfg rules .flat bar order w)
      (recordSale outside args rules order w) := by
  intro h
  have stops : takeAnswer outside cfg rules .flat bar order w = (.error (.panicked panic), w) := by
    apply seq_error
    rw [logOrder, if_pos hinfo, hprice]
    rfl
  set v := w.called.record (.journaled order (outside.write w.calls).effect)
  obtain ⟨journaled, records⟩ : ∃ journaled, recordSale outside args rules order w =
      saveSale outside args rules order journaled v := ⟨_, rfl⟩
  obtain ⟨events, grown, -⟩ := unsent_saveSale outside args rules order journaled v
  have log := h.log
  rw [stops, records, grown] at log
  dsimp only at log
  have lengths := congrArg List.length log
  have one : v.log.length = w.log.length + 1 := List.length_append
  rw [List.length_map, List.length_map, List.length_append, one] at lengths
  omega

end Records

/-- A close and an exit from one run send the same, and record alike what both are
answered. -/
structure SameClose {S σ : Type} [DecimalMath] (outside : Live.Outside) (cfg : LiveTradeConfig σ)
    (args : TradeCloseArgs) (rules : SymbolRules) (bar : Candle) (order : ExchangeOrder)
    (w : World S) : Prop where
  sends : sentBy (executeTarget outside cfg rules .flat bar w).2 =
    sentBy (closeSale outside args rules bar w).2
  records : sentBy (executeTarget outside cfg rules .flat bar w).2 ≠ sentBy w →
    sentBy (closeSale outside args rules bar w).2 ≠ sentBy w →
    ∀ v : World S, v.state = w.state →
      SameRecord (takeAnswer outside cfg rules .flat bar order v)
        (recordSale outside args rules order v)

section Exact

variable {S σ : Type} [DecimalMath] [RoundedMath] {outside : Live.Outside}
  {cfg : LiveTradeConfig σ} {args : TradeCloseArgs} {rules : SymbolRules} {order : ExchangeOrder}
  {w : World S} {balances : List AssetBalance}

/-- A close and an exit do the same exactly where the quantity to sell is within the market's
limits, which the engine alone checks, and the engine can log the answered order. -/
theorem sameClose_iff (bar : Candle) (live : cfg.executionMode = .live)
    (signed : outside.signed = true) (yes : args.yes = true)
    (hsymbol : args.symbol = cfg.market.symbol) (opened : w.state.position.isOpen = true)
    (priced : w.state.position.entryPrice ≠ none) (timed : w.state.position.entryTimeMs ≠ none)
    (hbalances : outside.balances w.calls = .ok balances)
    (answered : order.transactTimeMs ≠ none) :
    SameClose outside cfg args rules bar order w ↔
      ∀ qty, maybeRoundQty ((freeBaseQty rules balances).min w.state.position.qty) rules = .ok qty →
        0 < qty.value →
        (sellQtyBelowMarketMin qty rules = none ∧ sellQtyAboveMarketMax qty rules = none) ∧
          (outside.infoEnabled = true → ∃ price, order.averagePrice = .ok price) := by
  have engine := @sent_executeTarget _ _ outside _ _ rules _ _ bar live signed hbalances
  have close := @sent_closeSale _ outside _ _ rules _ _ bar yes priced hbalances
  cases hround : maybeRoundQty ((freeBaseQty rules balances).min w.state.position.qty) rules with
  | error panic =>
    rw [hround] at engine close
    constructor
    · intro _ qty hqty
      cases hqty
    · intro _
      rw [exitOrders] at engine
      rw [closeOrders] at close
      refine ⟨by rw [engine, close], fun sends => ?_⟩
      exact absurd (by rw [engine, List.append_nil]) sends
  | ok qty =>
    rw [hround, exitOrders] at engine
    rw [hround, closeOrders] at close
    by_cases hqty : 0 < qty.value
    · have hle : qty.le .zero = false := Decimal.not_le_zero.mpr hqty
      rw [hle, if_neg Bool.false_ne_true, hsymbol] at close
      have sold : sentBy (closeSale outside args rules bar w).2 ≠ sentBy w := by
        rw [close]
        simp
      by_cases hgates : sellQtyBelowMarketMin qty rules = none ∧
          sellQtyAboveMarketMax qty rules = none
      · rw [if_pos (sends_iff.mpr ⟨hqty, hgates.1, hgates.2⟩)] at engine
        have sent : sentBy (executeTarget outside cfg rules .flat bar w).2 ≠ sentBy w := by
          rw [engine]
          simp
        constructor
        · intro h other hother _
          rw [← Except.ok.inj hother]
          refine ⟨hgates, fun hinfo => ?_⟩
          cases hprice : order.averagePrice with
          | ok price => exact ⟨price, rfl⟩
          | error panic =>
            exact absurd (h.records sent sold w rfl) (records_differ outside bar hinfo hprice)
        · intro h
          refine ⟨by rw [engine, close], fun _ _ v same => ?_⟩
          apply records_alike outside bar hsymbol
          · rw [same]
            exact opened
          · rw [same]
            exact timed
          · exact answered
          · exact (h qty rfl hqty).2
      · have unsent : ¬ sends qty rules = .ok true := fun h => hgates (sends_iff.mp h).2
        rw [if_neg unsent, List.append_nil] at engine
        constructor
        · intro h
          have same := h.sends
          rw [engine] at same
          exact absurd same.symm sold
        · intro h
          exact absurd (h qty rfl hqty).1 hgates
    · have hle : qty.le .zero = true := by
        by_contra hpositive
        exact hqty (Decimal.not_le_zero.mp (by simpa using hpositive))
      have unsent : ¬ sends qty rules = .ok true := fun h => hqty (sends_iff.mp h).1
      rw [if_neg unsent, List.append_nil] at engine
      rw [if_pos hle, List.append_nil] at close
      constructor
      · intro _ other hother hpositive
        rw [← Except.ok.inj hother] at hpositive
        exact absurd hpositive hqty
      · intro _
        refine ⟨by rw [engine, close], fun sends => absurd engine sends⟩

end Exact

/-- A run that holds `qty`, bought at one. -/
def holding (qty : Decimal) : World Unit :=
  { freshWorld () with
    state := { newRun sampleConfig "run" 0 with position := ⟨qty, some (.ofUInt32 1), some 0, none⟩ } }

/-- Market orders of at least ten, in no particular step. -/
def leastTen : SymbolRules := { wholeRules with stepSize := none }

/-- A filled sale of `qty`. -/
def filledSell (qty : Decimal) : ExchangeOrder :=
  { filledBuy qty .zero with side := .sell, transactTimeMs := some 60000 }

def confirmedClose : TradeCloseArgs := ⟨sampleMarket.symbol, .m1, "sma_cross", some "run", true⟩

attribute [local instance] DecimalMath.rounding

theorem sameClose_iff_twenty :
    SameClose (filling (filledSell (.ofNat 20))) sampleConfig confirmedClose leastTen (sampleBar 0)
        (filledSell (.ofNat 20)) (holding (.ofNat 20)) ↔
      ∀ qty, maybeRoundQty ((freeBaseQty leastTen [⟨"BTC", .ofNat 100, .zero⟩]).min
          (.ofNat 20)) leastTen = .ok qty → 0 < qty.value →
        (sellQtyBelowMarketMin qty leastTen = none ∧
          sellQtyAboveMarketMax qty leastTen = none) ∧
        (true = true → ∃ price, (filledSell (.ofNat 20)).averagePrice = .ok price) := by
  have _ := DecimalMath.rounding_roundedMath
  exact sameClose_iff (w := holding (.ofNat 20))
    (sampleBar 0) rfl rfl rfl rfl (by decide) (by decide) (by decide) rfl (by decide)

/-- Five is below the market's least sale of ten: the engine sends nothing, the close sends
the five. -/
theorem belowMinimum_sold :
    (holding (.ofNat 5)).state.position.isOpen = true ∧
      (holding (.ofNat 5)).state.position.entryPrice ≠ none ∧
      (holding (.ofNat 5)).state.position.entryTimeMs ≠ none ∧
      confirmedClose.yes = true ∧ (filledSell (.ofNat 5)).transactTimeMs ≠ none ∧
      sentBy (executeTarget (filling (filledSell (.ofNat 5))) sampleConfig leastTen .flat
        (sampleBar 0) (holding (.ofNat 5))).2 = [] ∧
      sentBy (closeSale (filling (filledSell (.ofNat 5))) confirmedClose leastTen
        (sampleBar 0) (holding (.ofNat 5))).2 = [sale sampleMarket.symbol (.ofNat 5)] ∧
      ¬ SameClose (filling (filledSell (.ofNat 5))) sampleConfig confirmedClose leastTen
        (sampleBar 0) (filledSell (.ofNat 5)) (holding (.ofNat 5)) := by
  have engine : sentBy (executeTarget (filling (filledSell (.ofNat 5))) sampleConfig leastTen
      .flat (sampleBar 0) (holding (.ofNat 5))).2 = [] := by decide +kernel
  have close : sentBy (closeSale (filling (filledSell (.ofNat 5))) confirmedClose leastTen
      (sampleBar 0) (holding (.ofNat 5))).2 = [sale sampleMarket.symbol (.ofNat 5)] := by
    decide +kernel
  refine ⟨by decide, by decide, by decide, rfl, by decide, engine, close, ?_⟩
  intro h
  have same := h.sends
  rw [engine, close] at same
  cases same

end QuantForge.Cli
