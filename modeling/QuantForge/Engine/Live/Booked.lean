import QuantForge.Engine.Live.Ledger
import QuantForge.Engine.Live.Loop

namespace QuantForge.Live

open Prog

variable {S σ : Type}

/-- No recorded position is negative. -/
def NonnegRuns (runs : RunTable) : Prop :=
  ∀ id row, runs id = some row → 0 ≤ row.state.position.qty.value

theorem saved_nonneg {runs next : RunTable} {state : BotRunState} (h : NonnegRuns runs)
    (position : 0 ≤ state.position.qty.value) (saved : runs.saveRunState state = .ok next) :
    NonnegRuns next := by
  obtain ⟨row, -, rfl⟩ := RunTable.saveRunState_ok saved
  intro id found hfound
  by_cases same : id = state.runId
  · rw [same, Function.update_self, Option.some.injEq] at hfound
    rw [← hfound]
    exact position
  · rw [Function.update_of_ne same] at hfound
    exact h id found hfound

/-- The journal's runs are as the last saves that took effect left them. -/
def Recorded (runs : RunTable) (events : List Event) : Prop :=
  ∀ front state back, events = front ++ .saved state true :: back →
    (∀ later, .saved later true ∉ back) →
    ∃ row, runs state.runId = some row ∧ row.state = state

theorem recorded_record {runs : RunTable} {events : List Event} {event : Event}
    (h : Recorded runs events) (idle : ∀ state, event ≠ .saved state true) :
    Recorded runs (events ++ [event]) := by
  intro front state back heq last
  rcases snoc_split heq with ⟨-, -, hevent⟩ | ⟨rest, rfl, hevents⟩
  · exact absurd hevent (idle state)
  · exact h front state rest hevents fun later hlater =>
      last later (List.mem_append_left _ hlater)

theorem recorded_save {runs next : RunTable} {state : BotRunState} {events : List Event}
    (saved : runs.saveRunState state = .ok next) :
    Recorded next (events ++ [.saved state true]) := by
  intro front other back heq last
  rcases snoc_split heq with ⟨-, -, hevent⟩ | ⟨rest, rfl, -⟩
  · rw [← (Event.saved.inj hevent).1]
    obtain ⟨row, -, rfl⟩ := RunTable.saveRunState_ok saved
    exact ⟨_, Function.update_self .., rfl⟩
  · exact absurd (by simp) (last state)

variable [DecimalMath] (rules : SymbolRules) (position : PositionState) (log : List Event)

/-- Since `log`, `events` followed as they may. -/
structure Accounts (b : Book) (events : List Event) : Prop where
  log : b.log = log ++ events
  allowed : Unfolds (Allowed rules position) events
  runs : NonnegRuns b.runs
  recorded : Recorded b.runs events

def Posted (b : Book) : Prop := ∃ events, Accounts rules position log b events

/-- The position in memory is what the ledger holds. -/
def Booked (b : Book) : Prop :=
  ∃ events, Accounts rules position log b events ∧
    (Ledger.after rules position events).Holds b.state.position

/-- The position in memory is saved, and the exit it is left by not recorded as a
trade yet. -/
def Closable (qty : Decimal) (b : Book) : Prop :=
  ∃ events, Accounts rules position log b events ∧
    (Ledger.after rules position events).Holds b.state.position ∧
    ClosedAndSaved rules position events qty

/-- An order is answered, and not yet taken up into the position. -/
def Answered (target : TargetPosition) (bar : Candle) (order : ExchangeOrder) (b : Book) : Prop :=
  ∃ front entry back, Accounts rules position log b (front ++ entry :: back) ∧
    entry.answer = some (bar, targetSide target, order) ∧
    (Ledger.after rules position front).Holds b.state.position ∧
    ∀ e ∈ back, e.answer = none ∧ ∀ trade effect, e ≠ .closed trade effect

/-- What is left of the books where a part does not answer: a panic may lose an
answered order. -/
def Stopped : Halt → Book → Prop
  | .failed _ => Booked rules position log
  | .panicked _ => Posted rules position log

variable {rules position log} {b : Book} {events : List Event}

theorem Booked.stopped (h : Booked rules position log b) (halt : Halt) :
    Stopped rules position log halt b := by
  cases halt with
  | failed error => exact h
  | panicked panic =>
    obtain ⟨events, accounts, -⟩ := h
    exact ⟨events, accounts⟩

theorem Accounts.record (h : Accounts rules position log b events) {event : Event}
    (follows : Allowed rules position events event)
    (idle : ∀ state, event ≠ .saved state true) :
    Accounts rules position log (b.record event) (events ++ [event]) where
  log := by rw [Book.record, h.log, List.append_assoc]
  allowed := unfolds_snoc h.allowed follows
  runs := h.runs
  recorded := recorded_record h.recorded idle

theorem Accounts.save (h : Accounts rules position log b events)
    (nonneg : 0 ≤ position.qty.value)
    (held : (Ledger.after rules position events).held = b.state.position) {runs : RunTable}
    (saved : b.runs.saveRunState b.state = .ok runs) (effect : Bool) :
    Accounts rules position log (b.save runs effect) (events ++ [.saved b.state effect]) where
  log := by rw [Book.save, h.log, List.append_assoc]
  allowed := unfolds_snoc h.allowed held.symm
  runs := by
    have sound := @Ledger.after_nonneg _ rules _ nonneg events
    rw [held] at sound
    cases effect with
    | false => exact h.runs
    | true => exact saved_nonneg h.runs sound saved
  recorded := by
    cases effect with
    | false => exact recorded_record h.recorded fun state same => by cases same
    | true => exact recorded_save saved

/-- An event without an answered order leaves the position booked. -/
theorem Booked.record (h : Booked rules position log b) {event : Event}
    (idle : event.answer = none) (unsaved : ∀ state, event ≠ .saved state true)
    (follows : ∀ events, (Ledger.after rules position events).held = b.state.position →
      Allowed rules position events event) :
    Booked rules position log (b.record event) := by
  obtain ⟨events, accounts, held⟩ := h
  refine ⟨events ++ [event], accounts.record (follows events held.held) unsaved, ?_⟩
  rw [Ledger.after_snoc, Ledger.post_idle idle]
  exact held

theorem Booked.save (h : Booked rules position log b) (nonneg : 0 ≤ position.qty.value)
    {runs : RunTable} (saved : b.runs.saveRunState b.state = .ok runs) (effect : Bool) :
    Booked rules position log (b.save runs effect) := by
  obtain ⟨events, accounts, held⟩ := h
  refine ⟨events ++ [.saved b.state effect], accounts.save nonneg held.held saved effect, ?_⟩
  rw [Ledger.after_snoc, Ledger.post_idle rfl]
  exact held

theorem Answered.record {target : TargetPosition} {bar : Candle} {order : ExchangeOrder}
    (h : Answered rules position log target bar order b) (appended : ExchangeOrder)
    (effect : Bool) :
    Answered rules position log target bar order (b.record (.journaled appended effect)) := by
  obtain ⟨front, entry, back, accounts, answer, held, quiet⟩ := h
  refine ⟨front, entry, back ++ [.journaled appended effect], ?_, answer, held, ?_⟩
  · have follows : Allowed rules position (front ++ entry :: back) (.journaled appended effect) :=
      trivial
    have next := accounts.record follows fun state same => by cases same
    rwa [List.append_assoc] at next
  · intro e he
    rcases List.mem_append.mp he with he | he
    · exact quiet e he
    · rw [List.mem_singleton.mp he]
      exact ⟨rfl, fun trade effect h => by cases h⟩

/-- Once the answered order's position is in memory, the books are right
again. -/
theorem Answered.moved {target : TargetPosition} {bar : Candle} {order : ExchangeOrder}
    (h : Answered rules position log target bar order b) {state : BotRunState}
    (moves : Ledger.Moves rules bar order b.state.position target state.position) :
    Booked rules position log { b with state } := by
  obtain ⟨front, entry, back, accounts, answer, held, quiet⟩ := h
  refine ⟨front ++ entry :: back,
    ⟨accounts.log, accounts.allowed, accounts.runs, accounts.recorded⟩, ?_⟩
  rw [Ledger.after_append, List.foldl_cons, Ledger.foldl_idle fun e he => (quiet e he).1]
  exact Ledger.post_holds answer held moves

theorem Answered.stopped {target : TargetPosition} {bar : Candle} {order : ExchangeOrder}
    (h : Answered rules position log target bar order b) (panic : Panic) :
    Stopped rules position log (.panicked panic) b := by
  obtain ⟨front, entry, back, accounts, -⟩ := h
  exact ⟨_, accounts⟩

/-- An answered exit executed `qty` of the position, and what it leaves is in
memory. -/
def Exited (rules : SymbolRules) (position : PositionState) (log : List Event) (qty : Decimal)
    (b : Book) : Prop :=
  ∃ front entry back bar order executed, Accounts rules position log b (front ++ entry :: back) ∧
    entry.answer = some (bar, .sell, order) ∧ order.executedQty = some executed ∧
    qty = executed.min (Ledger.after rules position front).held.qty ∧ 0 < qty.value ∧
    (Ledger.after rules position (front ++ [entry])).Holds b.state.position ∧
    ∀ e ∈ back, e.answer = none ∧ ∀ trade effect, e ≠ .closed trade effect

/-- Events without answered orders leave the ledger as it is. -/
theorem after_quiet {front back : List Event} {entry : Event}
    (quiet : ∀ e ∈ back, e.answer = none ∧ ∀ trade effect, e ≠ .closed trade effect) :
    Ledger.after rules position (front ++ entry :: back) =
      Ledger.after rules position (front ++ [entry]) := by
  rw [Ledger.after_append, Ledger.after_append, List.foldl_cons,
    Ledger.foldl_idle fun e he => (quiet e he).1]
  rfl

theorem Exited.booked {qty : Decimal} (h : Exited rules position log qty b) :
    Booked rules position log b := by
  obtain ⟨front, entry, back, bar, order, executed, accounts, -, -, -, -, held, quiet⟩ := h
  exact ⟨_, accounts, by rwa [after_quiet quiet]⟩

/-- The exit is recorded once its position is saved. -/
theorem Exited.save {qty : Decimal} (h : Exited rules position log qty b)
    (nonneg : 0 ≤ position.qty.value) {runs : RunTable}
    (saved : b.runs.saveRunState b.state = .ok runs) :
    Closable rules position log qty (b.save runs true) := by
  obtain ⟨front, entry, back, bar, order, executed, accounts, answer, reported, closes, positive,
    held, quiet⟩ := h
  have now : (Ledger.after rules position (front ++ entry :: back)).Holds b.state.position := by
    rwa [after_quiet quiet]
  have next := accounts.save nonneg now.held saved true
  refine ⟨_, next, ?_, front, entry, back ++ [.saved b.state true], bar, order, executed, by simp,
    answer, reported, closes, positive, ⟨b.state, by simp, held.held.symm⟩, ?_⟩
  · rw [Ledger.after_snoc, Ledger.post_idle rfl]
    exact now
  · intro e he
    rcases List.mem_append.mp he with he | he
    · exact quiet e he
    · rw [List.mem_singleton.mp he]
      exact ⟨rfl, fun trade effect h => by cases h⟩

theorem Closable.booked {qty : Decimal} (h : Closable rules position log qty b) :
    Booked rules position log b := by
  obtain ⟨events, accounts, held, -⟩ := h
  exact ⟨events, accounts, held⟩

theorem Closable.record {trade : ClosedTrade} (h : Closable rules position log trade.qty b)
    (effect : Bool) : Booked rules position log (b.record (.closed trade effect)) := by
  obtain ⟨events, accounts, held, closed⟩ := h
  have follows : Allowed rules position events (.closed trade effect) := closed
  refine ⟨_, accounts.record follows (fun state same => by cases same), ?_⟩
  rw [Ledger.after_snoc, Ledger.post_idle rfl]
  exact held

theorem Answered.exited {bar : Candle} {order : ExchangeOrder} {qty : Decimal}
    {left : PositionState} (h : Answered rules position log .flat bar order b)
    (exits : exitPosition rules order b.state.position = .ok (some (qty, left)))
    {state : BotRunState} (after : state.position = left) :
    Exited rules position log qty { b with state } := by
  obtain ⟨front, entry, back, accounts, answer, held, quiet⟩ := h
  obtain ⟨difference, sold, -⟩ := exitPosition_sold exits
  obtain ⟨executed, reported, closes⟩ := sold.executed
  refine ⟨front, entry, back, bar, order, executed,
    ⟨accounts.log, accounts.allowed, accounts.runs, accounts.recorded⟩, answer, reported,
    by rw [held.held]; exact closes, Decimal.not_le_zero.mp sold.positive, ?_, quiet⟩
  rw [Ledger.after_snoc]
  show (Ledger.post rules _ entry).Holds state.position
  rw [after]
  have moves : Ledger.Moves rules bar order b.state.position .flat left := .exit exits
  exact Ledger.post_holds answer held moves

theorem closedTrade_qty {symbol : Symbol} {bar : Candle} {order : ExchangeOrder}
    {before : PositionState} {qty : Decimal} {trade : ClosedTrade}
    (h : closedTrade symbol bar order before qty = .ok trade) : trade.qty = qty := by
  unfold closedTrade at h
  split at h
  · cases h
  · obtain ⟨price, -, h⟩ := bind_ok.mp h
    cases price with
    | none => cases h
    | some price =>
      obtain ⟨gain, -, h⟩ := bind_ok.mp h
      obtain ⟨pnl, -, h⟩ := bind_ok.mp h
      rw [← Except.ok.inj h]

section Parts

variable (outside : Outside) (cfg : LiveTradeConfig σ)

theorem booked_returns (answered : Except Halt Unit) :
    Spec (Booked rules position log) (ofExcept answered : Part S Unit)
      (fun _ => Booked rules position log) (Stopped rules position log) :=
  spec_quiet (ofExcept_quiet answered) fun halt _ h => h.stopped halt

theorem booked_recordEntry (nonneg : 0 ≤ position.qty.value) (bar : Candle)
    (order : ExchangeOrder) (journaled : Except Halt Unit) :
    Spec (Answered rules position log .longAllIn bar order)
      (recordEntry outside rules bar order journaled : Part S Unit)
      (fun _ => Booked rules position log) (Stopped rules position log) := by
  refine spec_ofExcept (fun halt b hentry h => ?_) fun entered hentry => ?_
  · cases halt with
    | failed error => exact h.moved (.noEntry hentry)
    | panicked panic => exact h.stopped panic
  · cases entered with
    | none =>
      have same (b : Book) (h : Answered rules position log .longAllIn bar order b) :
          Booked rules position log b := h.moved (.entry hentry)
      exact spec_weaken (booked_returns journaled) same fun _ _ h => h
    | some bought =>
      have saves : Spec (Answered rules position log .longAllIn bar order)
          (savePosition outside bought : Part S Unit) (fun _ => Booked rules position log)
          (Stopped rules position log) :=
        spec_savePosition outside
          (fun b updatedAtMs h => h.moved (.entry hentry))
          (fun error b h => h.stopped _) (fun b runs h hsave => h.save nonneg hsave true)
          fun error b runs effect h hsave => (h.save nonneg hsave effect).stopped _
      exact spec_bind saves fun _ => booked_returns journaled

theorem booked_appendTrade (trade : ClosedTrade) :
    Spec (Closable rules position log trade.qty) (appendTrade outside trade : Part S Unit)
      (fun _ => Booked rules position log) (Stopped rules position log) := by
  refine spec_bind (Q := fun _ => Booked rules position log) ?_ fun _ =>
    spec_modifySummary fun _ h => h
  exact spec_appendClosedTrade outside (fun b h => h.record true)
    fun error b effect h => (h.record effect).stopped _

theorem booked_recordExit (nonneg : 0 ≤ position.qty.value) (bar : Candle)
    (order : ExchangeOrder) (journaled : Except Halt Unit) :
    Spec (Answered rules position log .flat bar order)
      (recordExit outside cfg rules bar order journaled : Part S Unit)
      (fun _ => Booked rules position log) (Stopped rules position log) := by
  refine spec_runState fun state => ?_
  refine spec_ofExcept (fun halt b hexit h => ?_) fun exited hexit => ?_
  · rw [← h.2] at hexit
    cases halt with
    | failed error => exact h.1.moved (.noExit hexit)
    | panicked panic => exact h.1.stopped panic
  · cases exited with
    | none =>
      have same (b : Book) (h : Answered rules position log .flat bar order b ∧ b.state = state) :
          Booked rules position log b := by
        rw [← h.2] at hexit
        exact h.1.moved (.exit hexit)
      exact spec_weaken (booked_returns journaled) same fun _ _ h => h
    | some sold =>
      obtain ⟨qty, left⟩ := sold
      have saves : Spec (fun b => Answered rules position log .flat bar order b ∧ b.state = state)
          (savePosition outside left : Part S Unit) (fun _ => Closable rules position log qty)
          (Stopped rules position log) := by
        refine spec_savePosition (T := Exited rules position log qty) outside ?_
          (fun error b h => h.booked.stopped _) (fun b runs h hsave => h.save nonneg hsave)
          fun error b runs effect h hsave => (h.booked.save nonneg hsave effect).stopped _
        intro b updatedAtMs h
        rw [← h.2] at hexit
        exact h.1.exited hexit rfl
      have closable {halt : Halt} {b : Book} (h : Closable rules position log qty b) :
          Stopped rules position log halt b := h.booked.stopped halt
      refine spec_bind saves fun _ => ?_
      refine spec_bind (spec_quiet (ofExcept_quiet journaled) fun _ _ h => closable h) fun _ => ?_
      refine spec_ofExcept (fun _ _ _ h => closable h) fun trade htrade => ?_
      rw [← closedTrade_qty htrade]
      exact booked_appendTrade outside trade

/-- However the record of an answered order ends, the books are right again, or
the run panicked. -/
theorem booked_takeAnswer (nonneg : 0 ≤ position.qty.value) (target : TargetPosition)
    (bar : Candle) (order : ExchangeOrder) :
    Spec (Answered rules position log target bar order)
      (takeAnswer outside cfg rules target bar order : Part S Unit)
      (fun _ => Booked rules position log) (Stopped rules position log) := by
  have logs : Spec (Answered rules position log target bar order)
      (logOrder outside order : Part S Unit)
      (fun _ => Answered rules position log target bar order) (Stopped rules position log) := by
    unfold logOrder
    split_ifs
    · exact spec_orPanic (fun _ _ _ h => h) fun panic _ _ h => h.stopped panic
    · exact spec_pure fun _ h => h
  have journals : Spec (Answered rules position log target bar order)
      (journalOrder outside order : Part S (Except Halt Unit))
      (fun _ => Answered rules position log target bar order) (Stopped rules position log) := by
    refine spec_bind (spec_appendOrderEvent outside fun _ b effect h => h.record order effect)
      fun appended => ?_
    refine spec_bind (Q := fun _ => Answered rules position log target bar order)
      (spec_modifySummary fun _ h => h) fun _ => ?_
    exact spec_pure fun _ h => h
  refine spec_bind logs fun _ => spec_bind journals fun journaled => ?_
  cases target with
  | longAllIn => exact booked_recordEntry outside nonneg bar order journaled
  | flat => exact booked_recordExit outside cfg nonneg bar order journaled

omit [DecimalMath] in
/-- An order is sent for a target that the position is not at. -/
theorem side_of_differs {target : TargetPosition} {held : PositionState}
    (h : target ≠ currentTarget held) : held.isOpen = true ↔ targetSide target = .sell := by
  unfold currentTarget at h
  cases target with
  | longAllIn => simp_all [targetSide]
  | flat => simp_all [targetSide]

theorem Booked.answered (h : Booked rules position log b) {target : TargetPosition}
    (differs : target ≠ currentTarget b.state.position) {bar : Candle} {order : ExchangeOrder}
    {event : Event} (answer : event.answer = some (bar, targetSide target, order))
    (follows : ∀ events, ((Ledger.after rules position events).held.isOpen = true ↔
      targetSide target = .sell) → Allowed rules position events event) :
    Answered rules position log target bar order (b.record event) := by
  obtain ⟨events, accounts, held⟩ := h
  have sides := side_of_differs differs
  rw [← held.held] at sides
  have unsaved (state : BotRunState) : event ≠ .saved state true := by
    intro same
    rw [same] at answer
    cases answer
  exact ⟨events, event, [], accounts.record (follows events sides) unsaved, answer, held,
    fun e he => absurd he List.not_mem_nil⟩

/-- The books once an order was placed, or none was. -/
def PlacedBooked (rules : SymbolRules) (position : PositionState) (log : List Event)
    (target : TargetPosition) (bar : Candle) (b : Book) : Option ExchangeOrder → Prop
  | none => Booked rules position log b
  | some order => Answered rules position log target bar order b

/-- A decision that moves the position keeps the books right. -/
theorem booked_executeTarget (nonneg : 0 ≤ position.qty.value) (target : TargetPosition)
    (bar : Candle) :
    Spec (fun b => Booked rules position log b ∧ target ≠ currentTarget b.state.position)
      (executeTarget outside cfg rules target bar : Part S Unit)
      (fun _ => Booked rules position log) (Stopped rules position log) := by
  let P (b : Book) := Booked rules position log b ∧ target ≠ currentTarget b.state.position
  have decides : Spec P (Part.record (.decided bar target) : Part S Unit) (fun _ => P)
      (Stopped rules position log) :=
    spec_record fun b h => ⟨h.1.record rfl (fun _ same => by cases same) fun _ _ => trivial, h.2⟩
  have fails (halt : Halt) (b : Book) (h : P b) : Stopped rules position log halt b :=
    h.1.stopped halt
  have places : Spec P (placeOrder outside cfg rules target bar : Part S (Option ExchangeOrder))
      (fun placed b => PlacedBooked rules position log target bar b placed)
      (Stopped rules position log) := by
    refine spec_placeOrder outside cfg rules (fun b h => h.1) fails ?_ ?_ ?_
    · intro order b h side
      refine h.1.answered h.2 (by rw [Event.answer, side]) fun events sides => ?_
      rw [← side] at sides
      exact sides
    · intro request order b h sent
      refine h.1.answered h.2 (by rw [Event.answer, sent.side]) fun events sides => ?_
      rw [← sent.side] at sides
      exact sides
    · intro request error executed b h sent
      refine h.1.record rfl (fun _ same => by cases same) fun events held => ?_
      have sides := side_of_differs h.2
      rw [← held, ← sent.side] at sides
      exact sides
  refine spec_bind decides fun _ => ?_
  refine spec_after (ofExcept_quiet _) fails fun _ => ?_
  refine spec_bind places fun placed => ?_
  cases placed with
  | none => exact spec_pure fun _ h => h
  | some order => exact booked_takeAnswer outside cfg nonneg target bar order

theorem booked_kept (nonneg : 0 ≤ position.qty.value) :
    Kept S outside cfg rules (Booked rules position log) (Stopped rules position log) where
  ends := fun h => h.stopped _
  feeds := fun h => h.record rfl (fun _ same => by cases same) fun _ _ => trivial
  moves := fun h _ same => by
    obtain ⟨events, accounts, held⟩ := h
    exact ⟨events, ⟨accounts.log, accounts.allowed, accounts.runs, accounts.recorded⟩,
      held.held.trans same.symm, held.unheld⟩
  saves := fun h hsave => h.save nonneg hsave _
  acts := booked_executeTarget outside cfg nonneg

end Parts

end QuantForge.Live
