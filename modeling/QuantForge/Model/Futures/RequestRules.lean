import QuantForge.Model.Futures.Requests
import QuantForge.Storage.Segments.DecimalReaders

namespace QuantForge

open Serde

/-- A positive quantity in the unit its instrument trades in. -/
def Quantity.Sized (quantity : Quantity) (instrument : InstrumentId) : Prop :=
  Decimal.zero.lt quantity.value = true ∧ quantity.unit = Quantity.unitOf instrument.category

def EntryOrder.Keeps (order : EntryOrder) : Prop :=
  order.quantity.Sized order.instrument ∧ order.clientOrderId.leg = .entry

def CloseOrder.Keeps (order : CloseOrder) : Prop :=
  order.quantity.Sized order.instrument ∧ order.clientOrderId.leg = .close

def StopScope.Keeps (instrument : InstrumentId) (leg : OrderLeg) : StopScope → Prop
  | .wholePosition => leg = .stop
  | .quantity size => size.Sized instrument ∧ leg = .bridge

def StopRequest.Keeps (stop : StopRequest) : Prop :=
  stop.scope.Keeps stop.instrument stop.clientOrderId.leg

theorem Quantity.positive_iff (quantity : Quantity) :
    Decimal.zero.lt quantity.value = true ↔ quantity.isZero = false := by
  have hle : Decimal.zero.le quantity.value = true := by
    cases quantity with
    | base qty => exact qty.accepted
    | contracts count => exact (Bool.and_eq_true_iff.mp count.accepted).1
  have hzero : quantity.isZero = true ↔ quantity.value.value = 0 := Decimal.isZero_iff
  have hzeroValue : Decimal.zero.value = 0 := by simp [Decimal.value, Decimal.signed, Decimal.zero]
  rw [Decimal.le_iff, hzeroValue] at hle
  rw [Decimal.lt, Bool.not_eq_true', ← Bool.not_eq_true, Decimal.le_iff, hzeroValue,
    ← Bool.not_eq_true, hzero]
  constructor
  · intro h heq
    exact h heq.le
  · intro h hle'
    exact h (le_antisymm hle' hle)

section Built

variable {instrument : InstrumentId} {quantity : Quantity}

theorem sized_of_checks {what : String} {checked sized : Quantity}
    (hunit : quantity.inUnitOf instrument.category = .ok checked)
    (hpositive : Quantity.positive what checked = .ok sized) : sized.Sized instrument := by
  obtain ⟨hunit, rfl⟩ := Quantity.inUnitOf_ok.mp hunit
  obtain ⟨hzero, rfl⟩ := Quantity.positive_ok.mp hpositive
  exact ⟨(Quantity.positive_iff _).mpr hzero, hunit⟩

theorem EntryOrder.new_keeps {instrument : FuturesInstrument} {side : PositionSide}
    {id : ClientOrderId} {stop : Option AttachedStop} {order : EntryOrder}
    (h : EntryOrder.new instrument side quantity id stop = .ok order) : order.Keeps := by
  obtain ⟨_, _, h⟩ := bind_ok.mp h
  obtain ⟨checked, hunit, h⟩ := bind_ok.mp h
  obtain ⟨sized, hpositive, h⟩ := bind_ok.mp h
  obtain ⟨_, hleg, h⟩ := bind_ok.mp h
  cases h
  exact ⟨sized_of_checks hunit hpositive, by simpa using expectLeg_ok.mp hleg⟩

theorem CloseOrder.new_keeps {closes : PositionSide} {id : ClientOrderId} {order : CloseOrder}
    (h : CloseOrder.new instrument closes quantity id = .ok order) : order.Keeps := by
  obtain ⟨checked, hunit, h⟩ := bind_ok.mp h
  obtain ⟨sized, hpositive, h⟩ := bind_ok.mp h
  obtain ⟨_, hleg, h⟩ := bind_ok.mp h
  cases h
  exact ⟨sized_of_checks hunit hpositive, by simpa using expectLeg_ok.mp hleg⟩

theorem StopRequest.checkScope_keeps {scope : StopScope} {id : ClientOrderId}
    (h : StopRequest.checkScope instrument scope id = .ok ()) : scope.Keeps instrument id.leg := by
  cases scope with
  | wholePosition =>
    show id.leg = .stop
    simpa using expectLeg_ok.mp h
  | quantity quantity =>
    obtain ⟨checked, hunit, h⟩ := bind_ok.mp h
    obtain ⟨sized, hpositive, hleg⟩ := bind_ok.mp h
    have hsized := sized_of_checks hunit hpositive
    obtain ⟨_, rfl⟩ := Quantity.inUnitOf_ok.mp hunit
    obtain ⟨_, rfl⟩ := Quantity.positive_ok.mp hpositive
    exact ⟨hsized, by simpa using expectLeg_ok.mp hleg⟩

theorem StopRequest.new_keeps {side : PositionSide} {price : Price} {basis : TriggerBasis}
    {protection : PriceProtection} {scope : StopScope} {id : ClientOrderId} {stop : StopRequest}
    (h : StopRequest.new instrument side price basis protection scope id = .ok stop) :
    stop.Keeps := by
  obtain ⟨_, hscope, h⟩ := bind_ok.mp h
  cases h
  exact checkScope_keeps hscope

end Built

end QuantForge
