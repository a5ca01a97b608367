import QuantForge.Engine.Live.Book

namespace QuantForge.Live

open Prog

variable {S σ : Type}

namespace Event

def fedBar : Event → Option Candle
  | .fed bar => some bar
  | _ => none

def decidedBar : Event → Option Candle
  | .decided bar _ => some bar
  | _ => none

/-- The reference bar of an order that the venue executed. -/
def executedBar : Event → Option Candle
  | .submitted bar _ outcome => if outcome.executed then some bar else none
  | _ => none

end Event

/-- What a book shows of bars: those given to the strategy, those acted on,
those an order was executed on, and the last one processed. -/
structure View where
  fed : List Candle
  decided : List Candle
  executed : List Candle
  cursor : Option Int64

def Book.view (b : Book) : View where
  fed := b.log.filterMap Event.fedBar
  decided := b.log.filterMap Event.decidedBar
  executed := b.log.filterMap Event.executedBar
  cursor := b.state.lastProcessedOpenTimeMs

namespace View

def feed (v : View) (bars : List Candle) : View := { v with fed := v.fed ++ bars }

def process (v : View) (cursor : Option Int64) : View := { v with cursor }

@[simp] theorem feed_fed (v : View) (bars : List Candle) : (v.feed bars).fed = v.fed ++ bars := rfl

@[simp] theorem feed_decided (v : View) (bars : List Candle) : (v.feed bars).decided = v.decided :=
  rfl

@[simp] theorem feed_nil (v : View) : v.feed [] = v := by simp [feed]

@[simp] theorem feed_feed (v : View) (front back : List Candle) :
    (v.feed front).feed back = v.feed (front ++ back) := by simp [feed]

end View

/-- The view after acting on a bar, with an order executed or not. -/
inductive View.Acted (v : View) (bar : Candle) : View → Prop
  | quiet : Acted v bar { v with decided := v.decided ++ [bar] }
  | executed : Acted v bar { v with
      decided := v.decided ++ [bar], executed := v.executed ++ [bar] }

section

variable (b : Book)

@[simp] theorem view_fed (bar : Candle) :
    (b.record (.fed bar)).view = b.view.feed [bar] := by
  simp [View.feed, Book.view, Book.record, Event.fedBar, Event.decidedBar, Event.executedBar]

@[simp] theorem view_decided (bar : Candle) (target : TargetPosition) :
    (b.record (.decided bar target)).view = { b.view with decided := b.view.decided ++ [bar] } := by
  simp [Book.view, Book.record, Event.fedBar, Event.decidedBar, Event.executedBar]

@[simp] theorem view_submitted (bar : Candle) (request : MarketOrderRequest)
    (outcome : OrderOutcome) :
    (b.record (.submitted bar request outcome)).view =
      if outcome.executed then { b.view with executed := b.view.executed ++ [bar] }
      else b.view := by
  cases hexecuted : outcome.executed <;>
    simp [Book.view, Book.record, Event.fedBar, Event.decidedBar, Event.executedBar, hexecuted]

@[simp] theorem view_simulated (bar : Candle) (order : ExchangeOrder) :
    (b.record (.simulated bar order)).view = b.view := by
  simp [Book.view, Book.record, Event.fedBar, Event.decidedBar, Event.executedBar]

@[simp] theorem view_journaled (order : ExchangeOrder) (effect : Bool) :
    (b.record (.journaled order effect)).view = b.view := by
  simp [Book.view, Book.record, Event.fedBar, Event.decidedBar, Event.executedBar]

@[simp] theorem view_closed (trade : ClosedTrade) (effect : Bool) :
    (b.record (.closed trade effect)).view = b.view := by
  simp [Book.view, Book.record, Event.fedBar, Event.decidedBar, Event.executedBar]

@[simp] theorem view_save (runs : RunTable) (effect : Bool) : (b.save runs effect).view = b.view := by
  simp [Book.view, Book.save, Event.fedBar, Event.decidedBar, Event.executedBar]

end

variable {P : View → Prop} {R : Halt → View → Prop} (outside : Outside) (cfg : LiveTradeConfig σ)
  (rules : SymbolRules)

/-- A save shows nothing of bars. -/
theorem view_saveRunState (fails : ∀ e v, P v → R e v) :
    Spec (fun b => P b.view) (Part.saveRunState outside : Part S Unit) (fun _ b => P b.view)
      fun e b => R e b.view :=
  spec_saveRunState outside (fun error b h => fails _ _ h)
    (fun b runs h _ => by rwa [view_save]) fun error b runs effect h _ => fails _ _ (by rwa [view_save])

theorem view_savePosition (position : PositionState) (fails : ∀ e v, P v → R e v) :
    Spec (fun b => P b.view) (savePosition outside position : Part S Unit) (fun _ b => P b.view)
      fun e b => R e b.view := by
  refine spec_runState fun state => spec_now outside fun updatedAtMs => ?_
  refine spec_bind (Q := fun _ b => P b.view) (spec_setState fun b h => ?_)
    fun _ => view_saveRunState outside fails
  have same : ({ b with state := { state with
      position, updatedAtMs, status := .running, lastError := none } } : Book).view = b.view := by
    simp only [Book.view, ← h.2]
  rw [same]
  exact h.1

variable [DecimalMath]

theorem view_recordOrder (target : TargetPosition) (bar : Candle) (order : ExchangeOrder)
    (journaled : Except Halt Unit) (fails : ∀ e v, P v → R e v) :
    Spec (fun b => P b.view) (recordOrder outside cfg rules target bar order journaled : Part S Unit)
      (fun _ b => P b.view) fun e b => R e b.view := by
  have returns (answered : Except Halt Unit) :
      Spec (fun b => P b.view) (Prog.ofExcept answered : Part S Unit) (fun _ b => P b.view)
        fun e b => R e b.view :=
    spec_quiet (ofExcept_quiet answered) fun e b h => fails e b.view h
  cases target with
  | longAllIn =>
    show Spec _ (recordEntry outside rules bar order journaled : Part S Unit) _ _
    refine spec_ofExcept (fun e b _ h => fails e b.view h) fun entered _ => ?_
    cases entered with
    | none => exact returns journaled
    | some position =>
      exact spec_bind (view_savePosition outside position fails) fun _ => returns journaled
  | flat =>
    show Spec _ (recordExit outside cfg rules bar order journaled : Part S Unit) _ _
    refine spec_after runState_quiet (fun e b h => fails e b.view h) fun state => ?_
    refine spec_ofExcept (fun e b _ h => fails e b.view h) fun exited _ => ?_
    cases exited with
    | none => exact returns journaled
    | some sold =>
      refine spec_bind (view_savePosition outside sold.2 fails) fun _ => ?_
      refine spec_bind (returns journaled) fun _ => ?_
      refine spec_ofExcept (fun e b _ h => fails e b.view h) fun trade _ => ?_
      refine spec_bind (Q := fun _ b => P b.view) ?_ fun _ => spec_modifySummary fun _ h => h
      exact spec_appendClosedTrade outside (fun b h => by rwa [view_closed])
        fun error b effect h => fails _ _ (by rwa [view_closed])

/-- What follows an answered order shows nothing of bars. -/
theorem view_takeAnswer (target : TargetPosition) (bar : Candle) (order : ExchangeOrder)
    (fails : ∀ e v, P v → R e v) :
    Spec (fun b => P b.view) (takeAnswer outside cfg rules target bar order : Part S Unit)
      (fun _ b => P b.view) fun e b => R e b.view := by
  refine spec_after (logOrder_quiet outside order) (fun e b h => fails e b.view h) fun _ => ?_
  refine spec_bind (Q := fun _ b => P b.view) ?_ fun journaled =>
    view_recordOrder outside cfg rules target bar order journaled fails
  refine spec_bind (Q := fun _ b => P b.view)
    (spec_appendOrderEvent outside fun _ b effect h => by rwa [view_journaled]) fun appended => ?_
  exact spec_bind (Q := fun _ b => P b.view) (spec_modifySummary fun _ h => h) fun _ =>
    spec_pure fun _ h => h

/-- Acting on a decision shows its bar, and an order at most once. -/
theorem view_executeTarget (target : TargetPosition) (bar : Candle) (v : View) :
    Spec (fun b => b.view = v) (executeTarget outside cfg rules target bar : Part S Unit)
      (fun _ b => v.Acted bar b.view) fun _ b => v.Acted bar b.view := by
  refine spec_bind (Q := fun _ b => b.view = { v with decided := v.decided ++ [bar] })
    (spec_record fun b h => by rw [view_decided, h]) fun _ => ?_
  have acts (e : Halt) (b : Book) (h : b.view = { v with decided := v.decided ++ [bar] }) :
      v.Acted bar b.view := by
    rw [h]
    exact .quiet
  have submits (b : Book) (request : MarketOrderRequest) (outcome : OrderOutcome)
      (h : b.view = { v with decided := v.decided ++ [bar] }) :
      v.Acted bar (b.record (.submitted bar request outcome)).view := by
    rw [view_submitted, h]
    split_ifs
    · exact .executed
    · exact .quiet
  refine spec_after (ofExcept_quiet _) acts fun _ => ?_
  refine spec_bind (Q := fun _ b => v.Acted bar b.view) ?_ fun placed => ?_
  · exact spec_placeOrder outside cfg rules (acts (.panicked .arithmetic)) acts
      (fun order b h _ => by rw [view_simulated]; exact acts (.panicked .arithmetic) b h)
      (fun request order b h _ => submits b request _ h)
      fun request error executed b h _ => submits b request _ h
  · cases placed with
    | none => exact spec_pure fun _ h => h
    | some order => exact view_takeAnswer outside cfg rules target bar order fun _ _ h => h

end QuantForge.Live
