import QuantForge.Engine.Live.Runner

namespace QuantForge.Live

open Prog

variable {S σ α β : Type}

/-- A part that leaves the book as it is. -/
abbrev Quiet (x : Part S α) : Prop := Leaves World.toBook x

/-- `Meets` for what the book shows. -/
abbrev Spec (P : Book → Prop) (x : Part S α) (Q : α → Book → Prop) (R : Halt → Book → Prop) :
    Prop :=
  Meets (fun w => P w.toBook) x (fun a w => Q a w.toBook) fun e w => R e w.toBook

section Quiet

theorem quiet_bind {x : Part S α} {f : α → Part S β} (hx : Quiet x) (hf : ∀ a, Quiet (f a)) :
    Quiet (x >>= f) :=
  (leaves_compositional World.toBook).andThen hx hf

theorem pure_quiet (a : α) : Quiet (pure a : Part S α) := fun _ => rfl

theorem ofExcept_quiet (answered : Except Halt α) : Quiet (ofExcept answered : Part S α) :=
  fun _ => rfl

theorem ofFeed_quiet (x : Prog (Feed S) EngineError α) : Quiet (Part.ofFeed x) := fun _ => rfl

theorem refuse_quiet (error : EngineError) : Quiet (Part.refuse error : Part S α) := fun _ => rfl

theorem runState_quiet : Quiet (Part.runState : Part S BotRunState) := fun _ => rfl

theorem modifySummary_quiet (f : LiveTradeSummary → LiveTradeSummary) :
    Quiet (Part.modifySummary f : Part S Unit) := fun _ => rfl

theorem callback_quiet (answer : Except StrategyError α) : Quiet (callback answer : Part S α) :=
  fun _ => rfl

variable (outside : Outside)

theorem nowUtcMs_quiet : Quiet (Part.nowUtcMs outside : Part S Int64) := fun _ => rfl

theorem newUuid_quiet : Quiet (Part.newUuid outside : Part S String) := fun _ => rfl

theorem accountBalances_quiet :
    Quiet (Part.accountBalances outside : Part S (List AssetBalance)) := fun _ => rfl

theorem readRun_quiet (runId : String) :
    Quiet (Part.readRun outside runId : Part S (Option RunRow)) := by
  intro w
  unfold Part.readRun
  split
  · rfl
  · rfl

theorem newClientOrderId_quiet (tag runId : String) :
    Quiet (newClientOrderId outside tag runId : Part S String) :=
  quiet_bind (newUuid_quiet outside) fun _ => quiet_bind (nowUtcMs_quiet outside) fun _ =>
    pure_quiet _

theorem filterClosedCandles_quiet (candles : List Candle) :
    Quiet (filterClosedCandles outside candles : Part S (List Candle)) :=
  quiet_bind (nowUtcMs_quiet outside) fun _ => pure_quiet _

theorem logOrder_quiet [DecimalMath] (order : ExchangeOrder) :
    Quiet (logOrder outside order : Part S Unit) := by
  unfold logOrder
  split_ifs
  · exact ofExcept_quiet _
  · exact pure_quiet ()

section

variable [CandleStore S]

theorem loadRecentCandles_quiet (market : MarketId) (limit : Nat) :
    Quiet (Part.loadRecentCandles outside market limit : Part S (List Candle)) :=
  quiet_bind (fun _ => rfl) fun _ _ => rfl

theorem loadCandles_quiet (market : MarketId) (query : CandleQuery) :
    Quiet (Part.loadCandles outside market query : Part S (List Candle)) :=
  quiet_bind (fun _ => rfl) fun _ _ => rfl

theorem syncNew_quiet (cfg : LiveTradeConfig σ) (startMs endMs : Int64) :
    Quiet (syncNew outside cfg startMs endMs : Part S Unit) := by
  unfold syncNew
  split_ifs
  · exact quiet_bind (ofFeed_quiet _) fun _ => pure_quiet ()
  · exact pure_quiet ()

theorem loadNew_quiet (cfg : LiveTradeConfig σ) :
    Quiet (loadNew outside cfg : Part S (List Candle)) :=
  quiet_bind (nowUtcMs_quiet outside) fun _ => quiet_bind runState_quiet fun _ =>
    quiet_bind (syncNew_quiet outside cfg _ _) fun _ =>
      quiet_bind (loadCandles_quiet outside _ _) fun _ => filterClosedCandles_quiet outside _

theorem loadBootstrap_quiet (cfg : LiveTradeConfig σ) (strategy : Strategy σ)
    (start now : Int64) (state : σ) :
    Quiet (loadBootstrap outside cfg strategy start now state : Part S (List Candle × Driver σ)) :=
  quiet_bind (ofFeed_quiet _) fun _ => quiet_bind (nowUtcMs_quiet outside) fun _ =>
    quiet_bind runState_quiet fun _ => quiet_bind (callback_quiet _) fun _ =>
      quiet_bind (loadRecentCandles_quiet outside _ _) fun _ =>
        quiet_bind (filterClosedCandles_quiet outside _) fun _ => pure_quiet _

end

end Quiet

section Spec

variable {P : Book → Prop} {Q : α → Book → Prop} {R : Halt → Book → Prop} {T : β → Book → Prop}

theorem spec_pure {a : α} (h : ∀ b, P b → Q a b) : Spec P (pure a : Part S α) Q R :=
  meets_pure fun w => h w.toBook

theorem spec_bind {x : Part S α} {f : α → Part S β} (hx : Spec P x Q R)
    (hf : ∀ a, Spec (Q a) (f a) T R) : Spec P (x >>= f) T R := meets_bind hx hf

theorem spec_weaken {x : Part S α} {P' : Book → Prop} {Q' : α → Book → Prop} (h : Spec P x Q R)
    (hP : ∀ b, P' b → P b) (hQ : ∀ a b, Q a b → Q' a b) : Spec P' x Q' R :=
  meets_weaken h (fun w => hP w.toBook) (fun a w => hQ a w.toBook) fun _ _ => id

/-- A quiet part may fail where its failure is provided for. -/
theorem spec_quiet {x : Part S α} (hx : Quiet x) (fails : ∀ e b, P b → R e b) :
    Spec P x (fun _ => P) R :=
  meets_weaken (meets_of_leaves hx P) (fun _ => id) (fun _ _ => id) fun e w => fails e w.toBook

theorem spec_after {x : Part S α} {f : α → Part S β} (hx : Quiet x)
    (fails : ∀ e b, P b → R e b) (hf : ∀ a, Spec P (f a) T R) : Spec P (x >>= f) T R :=
  spec_bind (spec_quiet hx fails) hf

theorem spec_orPanic {answered : Except Panic α}
    (ok : ∀ a b, answered = .ok a → P b → Q a b)
    (panicked : ∀ panic b, answered = .error panic → P b → R (.panicked panic) b) :
    Spec P (Part.orPanic answered : Part S α) Q R := by
  cases answered with
  | ok a => exact spec_pure fun b => ok a b rfl
  | error panic =>
    exact meets_ofExcept (fun a w h => by cases h) fun e w h hP => by
      cases h
      exact panicked panic w.toBook rfl hP

theorem spec_ofExcept {answered : Except Halt α} {f : α → Part S β}
    (error : ∀ e b, answered = .error e → P b → R e b)
    (ok : ∀ a, answered = .ok a → Spec P (f a) T R) :
    Spec P (Prog.ofExcept answered >>= f) T R := by
  cases answered with
  | ok a => exact ok a rfl
  | error e =>
    intro w hP
    constructor
    · intro a v hrun
      cases hrun
    · intro e' v hrun
      cases hrun
      exact error e w.toBook rfl hP

theorem spec_runState {f : BotRunState → Part S β}
    (h : ∀ state, Spec (fun b => P b ∧ b.state = state) (f state) T R) :
    Spec P (Part.runState >>= f) T R := by
  intro w hP
  exact h w.state w ⟨hP, rfl⟩

/-- The clock always answers. -/
theorem spec_now (outside : Outside) {f : Int64 → Part S β}
    (h : ∀ nowMs, Spec P (f nowMs) T R) : Spec P (Part.nowUtcMs outside >>= f) T R := by
  intro w hP
  exact h (outside.now w.feed.clockReads) _ hP

theorem spec_modifySummary {count : LiveTradeSummary → LiveTradeSummary} {Q : Unit → Book → Prop}
    (h : ∀ b, P b → Q () b) : Spec P (Part.modifySummary count : Part S Unit) Q R := by
  intro w hP
  constructor
  · intro a v hrun
    cases hrun
    exact h w.toBook hP
  · intro e v hrun
    cases hrun

end Spec

section Writes

variable {P : Book → Prop} {Q : Unit → Book → Prop} {R : Halt → Book → Prop}

theorem spec_setState {state : BotRunState} (h : ∀ b, P b → Q () { b with state }) :
    Spec P (Part.setState state : Part S Unit) Q R := by
  intro w hP
  constructor
  · intro a v hrun
    cases hrun
    exact h w.toBook hP
  · intro e v hrun
    cases hrun

theorem spec_record {event : Event} (h : ∀ b, P b → Q () (b.record event)) :
    Spec P (Part.record event : Part S Unit) Q R := by
  intro w hP
  constructor
  · intro a v hrun
    cases hrun
    exact h w.toBook hP
  · intro e v hrun
    cases hrun

variable (outside : Outside)

/-- A save that is not refused takes effect where it is done, and where it fails
it may. -/
theorem spec_saveRunState (refused : ∀ error b, P b → R (.failed error) b)
    (done : ∀ b runs, P b → b.runs.saveRunState b.state = .ok runs → Q () (b.save runs true))
    (lost : ∀ error b runs effect, P b → b.runs.saveRunState b.state = .ok runs →
      R (.failed error) (b.save runs effect)) :
    Spec P (Part.saveRunState outside : Part S Unit) Q R := by
  intro w hP
  simp only [Part.saveRunState, Part.writeRuns]
  cases hsave : w.runs.saveRunState w.state with
  | error error =>
    simp only [Prod.mk.injEq]
    constructor
    · intro a v hrun
      cases hrun.1
    · intro e v hrun
      cases hrun.1
      cases hrun.2
      exact refused (.storage error) w.toBook hP
  | ok runs =>
    cases outside.write w.calls with
    | done =>
      constructor
      · intro a v hrun
        cases hrun
        exact done w.toBook runs hP hsave
      · intro e v hrun
        cases hrun
    | failed error effect =>
      constructor
      · intro a v hrun
        cases hrun
      · intro e v hrun
        cases hrun
        exact lost (.storage error) w.toBook runs effect hP hsave

/-- The state with a new position, before it is saved. -/
def moved (position : PositionState) (updatedAtMs : Int64) (state : BotRunState) : BotRunState :=
  { state with position, updatedAtMs, status := .running, lastError := none }

/-- A new position is in memory before it is saved. -/
theorem spec_savePosition {position : PositionState} {T : Book → Prop}
    (moves : ∀ b updatedAtMs, P b → T { b with state := moved position updatedAtMs b.state })
    (refused : ∀ error b, T b → R (.failed error) b)
    (done : ∀ b runs, T b → b.runs.saveRunState b.state = .ok runs → Q () (b.save runs true))
    (lost : ∀ error b runs effect, T b → b.runs.saveRunState b.state = .ok runs →
      R (.failed error) (b.save runs effect)) :
    Spec P (savePosition outside position : Part S Unit) Q R := by
  refine spec_runState fun state => spec_now outside fun updatedAtMs => ?_
  refine spec_bind (Q := fun _ => T) (spec_setState fun b h => ?_) fun _ =>
    spec_saveRunState outside refused done lost
  have next := moves b updatedAtMs h.1
  rw [h.2] at next
  exact next

theorem spec_appendClosedTrade {trade : ClosedTrade}
    (done : ∀ b, P b → Q () (b.record (.closed trade true)))
    (lost : ∀ error b effect, P b → R (.failed error) (b.record (.closed trade effect))) :
    Spec P (Part.appendClosedTrade outside trade : Part S Unit) Q R := by
  intro w hP
  simp only [Part.appendClosedTrade]
  cases outside.write w.calls with
  | done =>
    constructor
    · intro a v hrun
      cases hrun
      exact done w.toBook hP
    · intro e v hrun
      cases hrun
  | failed error effect =>
    constructor
    · intro a v hrun
      cases hrun
    · intro e v hrun
      cases hrun
      exact lost (.storage error) w.toBook effect hP

theorem spec_appendOrderEvent {order : ExchangeOrder}
    {Q : Except StorageError Unit → Book → Prop}
    (h : ∀ answered b effect, P b → Q answered (b.record (.journaled order effect))) :
    Spec P (Part.appendOrderEvent outside order : Part S (Except StorageError Unit)) Q R := by
  intro w hP
  constructor
  · intro a v hrun
    cases hrun
    exact h _ w.toBook _ hP
  · intro e v hrun
    cases hrun

theorem spec_submitMarketOrder {bar : Candle} {request : MarketOrderRequest}
    {Q : ExchangeOrder → Book → Prop}
    (answered : ∀ order b, P b → Q order (b.record (.submitted bar request (.answered order))))
    (failed : ∀ error executed b, P b → R (.failed (.exchange error))
      (b.record (.submitted bar request (.failed error executed)))) :
    Spec P (Part.submitMarketOrder outside bar request : Part S ExchangeOrder) Q R := by
  intro w hP
  simp only [Part.submitMarketOrder]
  cases outside.submit w.calls request with
  | answered order =>
    constructor
    · intro a v hrun
      cases hrun
      exact answered order w.toBook hP
    · intro e v hrun
      cases hrun
  | failed error executed =>
    constructor
    · intro a v hrun
      cases hrun
    · intro e v hrun
      cases hrun
      exact failed error executed w.toBook hP

end Writes

section Placing

variable {P : Book → Prop} (outside : Outside) (cfg : LiveTradeConfig σ) (rules : SymbolRules)
  [DecimalMath]

/-- A request a run may send for a decision. -/
structure Sent (cfg : LiveTradeConfig σ) (target : TargetPosition) (request : MarketOrderRequest) :
    Prop where
  live : cfg.executionMode = .live
  symbol : request.symbol = cfg.market.symbol
  side : request.side = targetSide target

/-- Placing an order records what became of it, if one was sent at all. -/
theorem spec_placeOrder {Q : Option ExchangeOrder → Book → Prop} {R : Halt → Book → Prop}
    {target : TargetPosition} {bar : Candle} (skips : ∀ b, P b → Q none b)
    (fails : ∀ e b, P b → R e b)
    (simulates : ∀ order b, P b → order.side = targetSide target →
      Q (some order) (b.record (.simulated bar order)))
    (answers : ∀ request order b, P b → Sent cfg target request →
      Q (some order) (b.record (.submitted bar request (.answered order))))
    (breaks : ∀ request error executed b, P b → Sent cfg target request →
      R (.failed (.exchange error)) (b.record (.submitted bar request (.failed error executed)))) :
    Spec P (placeOrder outside cfg rules target bar : Part S (Option ExchangeOrder)) Q R := by
  have submits (request : MarketOrderRequest) (sent : Sent cfg target request) :
      Spec P (Part.submitMarketOrder outside bar request : Part S ExchangeOrder)
        (fun order => Q (some order)) R :=
    spec_submitMarketOrder outside (fun order b h => answers request order b h sent)
      fun error executed b h => breaks request error executed b h sent
  have simulated : Spec P (syntheticMarketOrder outside cfg rules target bar : Part S ExchangeOrder)
      (fun order => Q (some order)) R := by
    refine spec_after runState_quiet fails fun state => ?_
    refine spec_after (ofExcept_quiet _) fails fun qty => ?_
    refine spec_after (ofExcept_quiet _) fails fun notional => ?_
    refine spec_after (newClientOrderId_quiet outside _ _) fails fun clientOrderId => ?_
    refine spec_bind (spec_record fun b h => simulates _ b h ?_) fun _ => spec_pure fun b h => h
    cases target <;> rfl
  have entered (live : cfg.executionMode = .live) (long : target = .longAllIn) :
      Spec P (submitEntry outside cfg bar : Part S ExchangeOrder) (fun order => Q (some order)) R := by
    refine spec_after runState_quiet fails fun state => ?_
    refine spec_after (newClientOrderId_quiet outside _ _) fails fun clientOrderId => ?_
    exact submits _ ⟨live, rfl, by rw [long]; rfl⟩
  have exited (live : cfg.executionMode = .live) (flat : target = .flat) :
      Spec P (submitExit outside cfg rules bar : Part S (Option ExchangeOrder)) Q R := by
    refine spec_after (accountBalances_quiet outside) fails fun balances => ?_
    refine spec_after runState_quiet fails fun state => ?_
    refine spec_after (ofExcept_quiet _) fails fun requestedQty => ?_
    refine spec_after (ofExcept_quiet _) fails fun sent => ?_
    cases sent with
    | false => exact spec_pure fun b h => skips b h
    | true =>
      refine spec_after (newClientOrderId_quiet outside _ _) fails fun clientOrderId => ?_
      refine spec_bind (submits _ ⟨live, rfl, by rw [flat]; rfl⟩) fun order => ?_
      exact spec_pure fun b h => h
  unfold placeOrder
  split
  · exact spec_bind simulated fun order => spec_pure fun b h => h
  · exact meets_ofExcept (fun _ _ h => by cases h) fun e w _ h => fails e w.toBook h
  · next live _ => exact spec_bind (entered live rfl) fun order => spec_pure fun b h => h
  · next live _ => exact exited live rfl

/-- What recording an order keeps, placing it keeps. -/
theorem placeOrder_keeps (records : ∀ b event, P b → P (b.record event))
    (target : TargetPosition) (bar : Candle) :
    Spec P (placeOrder outside cfg rules target bar : Part S (Option ExchangeOrder)) (fun _ => P)
      fun _ => P :=
  spec_placeOrder outside cfg rules (fun _ h => h) (fun _ _ h => h) (fun _ b h _ => records b _ h)
    (fun _ _ b h _ => records b _ h) fun _ _ _ b h _ => records b _ h

end Placing

end QuantForge.Live
