import QuantForge.Engine.Live.Book
import QuantForge.Framework.Reader

namespace QuantForge.Live

open Prog

variable {S σ : Type} [DecimalMath]

/-- The position an answered order leaves, where the answer reports anything to
record. -/
def positionAfter (rules : SymbolRules) (bar : Candle) (target : TargetPosition)
    (order : ExchangeOrder) (held : PositionState) : PositionState :=
  match target with
  | .longAllIn =>
    match entryPosition rules bar order with
    | .ok (some position) => position
    | _ => held
  | .flat =>
    match exitPosition rules order held with
    | .ok (some (_, position)) => position
    | _ => held

/-- What an answered entry bought, net of the fees charged in the base asset. -/
structure Bought (rules : SymbolRules) (order : ExchangeOrder) (qty : Decimal) : Prop where
  executed : ∃ executedQty, order.executedQty = some executedQty ∧
    executedQty.le .zero = false ∧ entryQty rules order executedQty = .ok qty
  positive : qty.le .zero = false
  priced : ∃ price, order.averagePrice = .ok price

/-- What an answered exit closed of a position, and what the difference of the
two quantities is. -/
structure Sold (order : ExchangeOrder) (held : PositionState) (closedQty difference : Decimal) :
    Prop where
  executed : ∃ executedQty, order.executedQty = some executedQty ∧
    closedQty = executedQty.min held.qty
  positive : closedQty.le .zero = false
  left : DecimalMath.sub held.qty closedQty = .ok difference

section

variable {rules : SymbolRules} {order : ExchangeOrder}

theorem entryPosition_bought {bar : Candle} {position : PositionState}
    (h : entryPosition rules bar order = .ok (some position)) :
    Bought rules order position.qty := by
  unfold entryPosition at h
  cases hexecuted : order.executedQty with
  | none => simp [hexecuted] at h
  | some executedQty =>
    simp only [hexecuted] at h
    split_ifs at h with hzero
    · cases h
    · obtain ⟨qty, hqty, h⟩ := bind_ok.mp h
      split_ifs at h with hnet
      · cases h
      · obtain ⟨price, hprice, h⟩ := bind_ok.mp h
        rw [← Option.some.inj (Except.ok.inj h)]
        have net : entryQty rules order executedQty = .ok qty := mapError_ok.mp hqty
        exact ⟨⟨executedQty, hexecuted, by simpa using hzero, net⟩, by simpa using hnet,
          price, mapError_ok.mp hprice⟩

theorem bought_entryPosition {qty : Decimal} (h : Bought rules order qty) (bar : Candle) :
    ∃ position, entryPosition rules bar order = .ok (some position) ∧ position.qty = qty := by
  obtain ⟨executedQty, hexecuted, hpositive, hqty⟩ := h.executed
  obtain ⟨price, hprice⟩ := h.priced
  refine ⟨⟨qty, price, order.transactTimeMs.or (some bar.closeTimeMs), order.orderId⟩, ?_, rfl⟩
  simp [entryPosition, hexecuted, hpositive, hqty, h.positive, hprice, Except.mapError, bind,
    Except.bind]

/-- An exit leaves a position only where it can be sold. -/
theorem exitPosition_sold {held position : PositionState} {closedQty : Decimal}
    (h : exitPosition rules order held = .ok (some (closedQty, position))) :
    ∃ difference, Sold order held closedQty difference ∧
      (position = .flat ∨
        position = { held with qty := difference.max .zero } ∧
          Decimal.lt .zero (difference.max .zero) = true ∧
          isDustRemnant (difference.max .zero) rules = .ok false) := by
  unfold exitPosition at h
  cases hexecuted : order.executedQty with
  | none => simp [hexecuted] at h
  | some executedQty =>
    simp only [hexecuted] at h
    split_ifs at h with hzero
    · cases h
    · obtain ⟨difference, hdifference, h⟩ := bind_ok.mp h
      obtain ⟨kept, hkept, h⟩ := bind_ok.mp h
      simp only [Except.ok.injEq, Option.some.injEq, Prod.mk.injEq] at h
      obtain ⟨rfl, rfl⟩ := h
      refine ⟨difference, ⟨⟨executedQty, hexecuted, rfl⟩, by simpa using hzero,
        mapError_ok.mp hdifference⟩, ?_⟩
      cases kept with
      | false => exact .inl rfl
      | true =>
        have keeps := mapError_ok.mp hkept
        unfold keepsRemnant at keeps
        split_ifs at keeps with hremains
        · refine .inr ⟨rfl, hremains, ?_⟩
          cases hdust : isDustRemnant (difference.max .zero) rules with
          | error panic => simp [hdust, Except.map] at keeps
          | ok dust => simpa [hdust, Except.map] using keeps
        · cases keeps

end

variable (outside : Outside) (cfg : LiveTradeConfig σ) (rules : SymbolRules)

omit [DecimalMath] in
/-- The position is in memory whether or not it can be saved. -/
theorem savePosition_ends (position : PositionState) :
    Spec (fun _ => True) (savePosition outside position : Part S Unit)
      (fun _ b => b.state.position = position) fun _ b => b.state.position = position := by
  refine spec_runState fun state => spec_now outside fun updatedAtMs => ?_
  refine spec_bind (Q := fun _ b => b.state.position = position)
    (spec_setState fun b _ => rfl) fun _ => ?_
  exact spec_saveRunState outside (fun _ b h => h) (fun b runs h _ => h) fun _ b runs effect h _ => h

/-- However the record of an answered order ends, it leaves the position the
order leaves. -/
theorem recordOrder_ends (target : TargetPosition) (bar : Candle) (order : ExchangeOrder)
    (journaled : Except Halt Unit) (held : PositionState) :
    Spec (fun b => b.state.position = held)
      (recordOrder outside cfg rules target bar order journaled : Part S Unit)
      (fun _ b => b.state.position = positionAfter rules bar target order held)
      fun _ b => b.state.position = positionAfter rules bar target order held := by
  have saves (position : PositionState) :
      Spec (fun b => b.state.position = held) (savePosition outside position : Part S Unit)
        (fun _ b => b.state.position = position) fun _ b => b.state.position = position :=
    spec_weaken (savePosition_ends outside position) (fun _ _ => trivial) fun _ _ h => h
  have returns (answered : Except Halt Unit) {P : Book → Prop} :
      Spec P (Prog.ofExcept answered : Part S Unit) (fun _ => P) fun _ => P :=
    spec_quiet (ofExcept_quiet answered) fun _ _ h => h
  cases target with
  | longAllIn =>
    show Spec _ (recordEntry outside rules bar order journaled : Part S Unit) _ _
    unfold recordEntry positionAfter
    refine spec_ofExcept (fun halt b hentry h => by simpa only [hentry] using h)
      fun entered hentry => ?_
    simp only [hentry]
    cases entered with
    | none => exact returns journaled
    | some position => exact spec_bind (saves position) fun _ => returns journaled
  | flat =>
    show Spec _ (recordExit outside cfg rules bar order journaled : Part S Unit) _ _
    unfold recordExit positionAfter
    refine spec_runState fun state => ?_
    by_cases same : state.position = held
    · rw [same]
      refine spec_ofExcept (fun halt b hexit h => by simpa only [hexit] using h.1)
        fun exited hexit => ?_
      simp only [hexit]
      cases exited with
      | none => exact spec_weaken (returns journaled) (fun _ h => h.1) fun _ _ h => h
      | some sold =>
        obtain ⟨closedQty, position⟩ := sold
        refine spec_bind (spec_weaken (saves position) (fun _ h => h.1) fun _ _ h => h) fun _ => ?_
        refine spec_bind (returns journaled) fun _ => ?_
        refine spec_ofExcept (fun _ _ _ h => h) fun trade _ => ?_
        refine spec_bind (Q := fun _ b => b.state.position = position)
          (spec_appendClosedTrade outside (fun _ h => h) fun _ _ _ h => h) fun _ => ?_
        exact spec_modifySummary fun _ h => h
    · intro w h
      exact absurd (by rw [← h.2, h.1]) same

/-- The order that a decision is answered with, once its entry check passes. -/
def Placed (target : TargetPosition) (bar : Candle) (w : World S) (order : ExchangeOrder) : Prop :=
  checkEntry cfg rules target = .ok () ∧
    ∃ v, placeOrder outside cfg rules target bar (w.record (.decided bar target)) =
      (.ok (some order), v)

/-- What follows the placing of an order. -/
def takePlaced (target : TargetPosition) (bar : Candle) : Option ExchangeOrder → Part S Unit
  | none => pure ()
  | some order => takeAnswer outside cfg rules target bar order

/-- A decision either places no order, and moves no position, or goes on from
the answered order with the position it had. -/
theorem executeTarget_cases (target : TargetPosition) (bar : Candle) (w : World S) :
    (∀ order, ¬Placed outside cfg rules target bar w order) ∧
        (executeTarget outside cfg rules target bar w).2.state.position = w.state.position ∨
      ∃ order v, Placed outside cfg rules target bar w order ∧
        v.state.position = w.state.position ∧
        executeTarget outside cfg rules target bar w =
          takeAnswer outside cfg rules target bar order v := by
  have keeps := placeOrder_keeps (S := S) (P := fun b => b.state.position = w.state.position)
    outside cfg rules (fun b event h => h) target bar
  have decides : executeTarget outside cfg rules target bar w =
      (do
        Part.orRefuse (checkEntry cfg rules target)
        placeOrder outside cfg rules target bar >>= takePlaced outside cfg rules target bar)
        (w.record (.decided bar target)) := rfl
  cases hcheck : checkEntry cfg rules target with
  | error error =>
    left
    constructor
    · intro order hplaced
      rw [hplaced.1] at hcheck
      cases hcheck
    · rw [decides, hcheck]
      rfl
  | ok _ =>
    rw [hcheck] at decides
    rcases hplace : placeOrder outside cfg rules target bar (w.record (.decided bar target)) with
      ⟨outcome, v⟩
    have same := meets_ends keeps (w := w.record (.decided bar target)) rfl
    rw [hplace] at same
    have unplaced (h : ∀ order, outcome ≠ .ok (some order)) :
        ∀ order, ¬Placed outside cfg rules target bar w order := by
      intro order hplaced
      obtain ⟨u, hu⟩ := hplaced.2
      rw [hplace, Prod.mk.injEq] at hu
      exact h order hu.1
    cases outcome with
    | error halt =>
      left
      refine ⟨unplaced fun order => by simp, ?_⟩
      rw [decides]
      show ((placeOrder outside cfg rules target bar >>= _) _).2.state.position = _
      rw [seq_error hplace]
      exact same
    | ok placed =>
      have goes : executeTarget outside cfg rules target bar w =
          takePlaced outside cfg rules target bar placed v := by
        rw [decides]
        exact seq_ok hplace
      cases placed with
      | none =>
        left
        refine ⟨unplaced fun order => by simp, ?_⟩
        rw [goes]
        exact same
      | some order => exact .inr ⟨order, v, ⟨hcheck, v, hplace⟩, same, goes⟩

/-- An answered order leaves the position it reports, unless its average price
cannot be computed. -/
theorem takeAnswer_ends (target : TargetPosition) (bar : Candle) (order : ExchangeOrder)
    (v : World S) :
    (takeAnswer outside cfg rules target bar order v).2.state.position =
        positionAfter rules bar target order v.state.position ∨
      (∃ panic, order.averagePrice = .error panic) ∧
        (takeAnswer outside cfg rules target bar order v).2.state.position = v.state.position := by
  have journals : Spec (fun b => b.state.position = v.state.position)
      (journalOrder outside order : Part S (Except Halt Unit))
      (fun _ b => b.state.position = v.state.position)
      fun _ b => b.state.position = positionAfter rules bar target order v.state.position := by
    refine spec_bind (Q := fun _ b => b.state.position = v.state.position)
      (spec_appendOrderEvent outside fun _ _ _ h => h) fun appended => ?_
    refine spec_bind (Q := fun _ b => b.state.position = v.state.position)
      (spec_modifySummary fun _ h => h) fun _ => ?_
    exact spec_pure fun _ h => h
  have rest := spec_bind journals fun journaled =>
    recordOrder_ends outside cfg rules target bar order journaled v.state.position
  by_cases hprice : ∃ panic, order.averagePrice = .error panic
  · by_cases hlogged : outside.infoEnabled = true
    · obtain ⟨panic, hpanic⟩ := hprice
      have stops : logOrder outside order v = (.error (.panicked panic), v) := by
        rw [logOrder, if_pos hlogged, hpanic]
        rfl
      refine .inr ⟨⟨panic, hpanic⟩, ?_⟩
      rw [takeAnswer, seq_error stops]
    · have passes : logOrder outside order v = (.ok (), v) := by
        rw [logOrder, if_neg hlogged]
        rfl
      rw [takeAnswer, seq_ok passes]
      exact .inl (meets_ends rest rfl)
  · have passes : logOrder outside order v = (.ok (), v) := by
      cases hok : order.averagePrice with
      | error panic => exact absurd ⟨panic, hok⟩ hprice
      | ok price =>
        unfold logOrder
        rw [hok]
        split_ifs
        · rfl
        · rfl
    rw [takeAnswer, seq_ok passes]
    exact .inl (meets_ends rest rfl)

end QuantForge.Live
