import QuantForge.Engine.Live
import QuantForge.Engine.Live.Recorded

namespace QuantForge.Live

variable {S σ : Type}

section

variable [DecimalMath]

/-- A position that is flat, or that an exit can sell. -/
def FlatOrSellable (rules : SymbolRules) (position : PositionState) : Prop :=
  position.isOpen = false ∨ isDustRemnant position.qty rules = .ok false

variable (outside : Outside) (cfg : LiveTradeConfig σ) (rules : SymbolRules)

/-- An exit leaves nothing that cannot be sold. -/
theorem exit_sellable {bar : Candle} {order : ExchangeOrder} {held : PositionState}
    (h : FlatOrSellable rules held) :
    FlatOrSellable rules (positionAfter rules bar .flat order held) := by
  unfold positionAfter
  cases hexit : exitPosition rules order held with
  | error halt => exact h
  | ok exited =>
    cases exited with
    | none => exact h
    | some sold =>
      obtain ⟨closedQty, position⟩ := sold
      obtain ⟨difference, -, rfl | ⟨rfl, -, sellable⟩⟩ := exitPosition_sold hexit
      · exact .inl rfl
      · exact .inr sellable

/-- An entry leaves a position that can be sold exactly where what it bought is
not dust. -/
theorem entry_sellable {bar : Candle} {order : ExchangeOrder} {held : PositionState}
    (h : FlatOrSellable rules held) :
    FlatOrSellable rules (positionAfter rules bar .longAllIn order held) ↔
      ∀ qty, Bought rules order qty → isDustRemnant qty rules = .ok false := by
  constructor
  · intro hafter qty hbought
    obtain ⟨position, hentry, hqty⟩ := bought_entryPosition hbought bar
    simp only [positionAfter, hentry] at hafter
    have opens : position.isOpen = true := by
      rw [PositionState.isOpen, Decimal.lt, hqty, hbought.positive]
      rfl
    rw [← hqty]
    rcases hafter with hflat | hsellable
    · rw [opens] at hflat
      cases hflat
    · exact hsellable
  · intro hbought
    unfold positionAfter
    cases hentry : entryPosition rules bar order with
    | error halt => exact h
    | ok entered =>
      cases entered with
      | none => exact h
      | some position => exact .inr (hbought position.qty (entryPosition_bought hentry))

/-- Acting on a decision leaves the position flat or sellable exactly where an
answered entry buys no dust: the entry alone does not check it. -/
theorem never_wedges_iff (target : TargetPosition) (bar : Candle) (w : World S)
    (held : FlatOrSellable rules w.state.position) :
    FlatOrSellable rules (executeTarget outside cfg rules target bar w).2.state.position ↔
      (target = .longAllIn → ∀ order qty, Placed outside cfg rules target bar w order →
        Bought rules order qty → isDustRemnant qty rules = .ok false) := by
  rcases executeTarget_cases outside cfg rules target bar w with
    ⟨unplaced, same⟩ | ⟨order, v, placed, same, goes⟩
  · rw [same]
    constructor
    · intro _ _ order qty hplaced
      exact absurd hplaced (unplaced order)
    · intro _
      exact held
  · have only (other : ExchangeOrder) (h : Placed outside cfg rules target bar w other) :
        other = order := by
      obtain ⟨u, hu⟩ := h.2
      obtain ⟨u', hu'⟩ := placed.2
      rw [hu, Prod.mk.injEq, Except.ok.injEq, Option.some.injEq] at hu'
      exact hu'.1
    rw [goes]
    rcases takeAnswer_ends outside cfg rules target bar order v with hend | ⟨panics, hend⟩
    · rw [hend, same]
      cases target with
      | flat =>
        constructor
        · intro _ hlong
          cases hlong
        · intro _
          exact exit_sellable rules held
      | longAllIn =>
        rw [entry_sellable rules held]
        constructor
        · intro h _ other qty hplaced hbought
          rw [only other hplaced] at hbought
          exact h qty hbought
        · intro h qty hbought
          exact h rfl order qty placed hbought
    · rw [hend, same]
      constructor
      · intro _ _ other qty hplaced hbought
        obtain ⟨panic, hpanic⟩ := panics
        obtain ⟨price, hprice⟩ := hbought.priced
        rw [only other hplaced, hpanic] at hprice
        cases hprice
      · intro _
        exact held

end

attribute [local instance] DecimalMath.exact_

/-- A buy of exactly the market minimum is dust once its fee is paid. -/
theorem entry_wedges :
    FlatOrSellable wholeRules (freshWorld ()).state.position ∧
      currentTarget (freshWorld ()).state.position ≠ .longAllIn ∧
      ¬FlatOrSellable wholeRules
        (executeTarget (filling (filledBuy (.ofNat 10) (.ofNat 1))) sampleConfig wholeRules
          .longAllIn (sampleBar 0) (freshWorld ())).2.state.position := by
  refine ⟨.inl (by decide), by decide, ?_⟩
  rintro (h | h)
  · revert h
    decide +kernel
  · revert h
    decide +kernel

/-- A larger buy stays sellable. -/
theorem sample_never_wedges :
    FlatOrSellable wholeRules
      (executeTarget (filling (filledBuy (.ofNat 20) (.ofNat 1))) sampleConfig wholeRules
        .longAllIn (sampleBar 0) (freshWorld ())).2.state.position := by
  refine (never_wedges_iff _ _ _ _ _ _ (.inl (by decide))).mpr fun _ order qty placed bought => ?_
  obtain ⟨v, hv⟩ := placed.2
  have filled : filledBuy (.ofNat 20) (.ofNat 1) = order :=
    Option.some.inj (Except.ok.inj (congrArg Prod.fst hv))
  obtain ⟨executedQty, hexecuted, -, hqty⟩ := bought.executed
  rw [← filled] at hexecuted hqty
  have twenty : Decimal.ofNat 20 = executedQty := Option.some.inj hexecuted
  have net : entryQty wholeRules (filledBuy (.ofNat 20) (.ofNat 1)) (.ofNat 20) =
      .ok (.ofNat 19) := by decide +kernel
  rw [← twenty, net] at hqty
  rw [← Except.ok.inj hqty]
  decide +kernel

end QuantForge.Live
