import QuantForge.Model.Futures.Account
import QuantForge.Model.Futures.Order

namespace QuantForge

/-- The price a stop triggers on. -/
inductive TriggerBasis
  | mark
  | last
  | index
  deriving DecidableEq

/-- A venue setting that can stop a trigger in a fast market. -/
inductive PriceProtection
  | enabled
  | disabled
  | notApplicable
  deriving DecidableEq

inductive StopScope
  | wholePosition
  | quantity (size : Quantity)
  deriving DecidableEq

/-- How a venue identifies a stop. -/
inductive StopRef
  | algo (algoId : VenueAlgoId) (clientId : Option String)
  | order (orderId : VenueOrderId) (clientId : Option String)
  | position (instrument : InstrumentId)
  deriving DecidableEq

inductive StopStatus
  | active
  | triggered
  | finished
  | canceled (attribution : CancelAttribution)
  | rejected
  | expired
  deriving DecidableEq

/-- A stop as a read-back shows it. -/
structure StopOrder where
  stop : StopRef
  instrument : InstrumentId
  positionSide : PositionSide
  triggerPrice : Price
  basis : Option TriggerBasis
  priceProtection : PriceProtection
  scope : StopScope
  status : StopStatus
  triggeredOrder : Option VenueOrderId
  updatedAtMs : TimestampMs
  deriving DecidableEq

/-- The stop QuantForge recorded for a position: what its read-back must show. -/
structure RecordedStop where
  triggerPrice : Price
  basis : TriggerBasis
  priceProtection : PriceProtection
  deriving DecidableEq

inductive StopOwner
  | quantForge
  | operator
  deriving DecidableEq

/-- Why a read-back does not show a stop covering the position. -/
inductive CoverageGap
  | otherInstrument
  | flat
  | wrongSide
  | notActive
  | tooSmall
  | basisUnreported
  | notAsRecorded
  deriving DecidableEq

/-- Whether a stop of this scope covers a position of this size. -/
def StopScope.covers (scope : StopScope) (size : Quantity) : Bool :=
  match scope with
  | .wholePosition => true
  | .quantity covered => covered.unit == size.unit && size.value.le covered.value

def covers (stop : StopOrder) (position : PositionSnapshot) : Except CoverageGap Unit :=
  if stop.instrument ≠ position.instrument then .error .otherInstrument
  else
    match position.exposure.filter fun exposure => !exposure.size.isZero with
    | none => .error .flat
    | some exposure =>
      if stop.positionSide ≠ exposure.side then .error .wrongSide
      else if stop.status ≠ .active then .error .notActive
      else if !stop.scope.covers exposure.size then .error .tooSmall
      else if stop.basis.isNone then .error .basisUnreported
      else .ok ()

namespace StopOrder

/-- Whether the stop shows the recorded price and price protection on the
mark basis. -/
def asRecorded (stop : StopOrder) (recorded : RecordedStop) : Bool :=
  stop.triggerPrice.eqv recorded.triggerPrice && stop.basis == some .mark &&
    recorded.basis == .mark && stop.priceProtection == recorded.priceProtection

/-- What the read-backs of a recorded stop must show: its trigger price and
price protection, on the mark basis. -/
def Shows (stop : StopOrder) (recorded : RecordedStop) : Prop :=
  stop.triggerPrice.eqv recorded.triggerPrice = true ∧
    stop.priceProtection = recorded.priceProtection ∧ stop.basis = some .mark

end StopOrder

/-- Evidence that a read-back shows an active stop covering the whole
position; one of QuantForge's own also matched a record. -/
structure CoveredStop where
  owner : StopOwner
  stop : StopOrder
  covered : ∃ position, covers stop position = .ok ()
  recorded : owner = .quantForge → ∃ recorded, stop.asRecorded recorded = true

namespace CoveredStop

/-- QuantForge's stop: it must also show the record. -/
def ours (stop : StopOrder) (position : PositionSnapshot) (recorded : RecordedStop) :
    Except CoverageGap CoveredStop :=
  match h : covers stop position with
  | .error gap => .error gap
  | .ok () =>
    if hr : stop.asRecorded recorded = true then
      .ok ⟨.quantForge, stop, ⟨position, h⟩, fun _ => ⟨recorded, hr⟩⟩
    else .error .notAsRecorded

/-- The operator's stop: any price, on a basis the venue reports. -/
def operators (stop : StopOrder) (position : PositionSnapshot) :
    Except CoverageGap CoveredStop :=
  match h : covers stop position with
  | .error gap => .error gap
  | .ok () => .ok ⟨.operator, stop, ⟨position, h⟩, fun ho => StopOwner.noConfusion ho⟩

end CoveredStop

end QuantForge
