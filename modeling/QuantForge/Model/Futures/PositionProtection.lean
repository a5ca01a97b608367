import QuantForge.Model.Futures.Position

namespace QuantForge.PositionCycle

/-- The record's trigger price and price protection are those of `stop`. -/
def SameStop (recorded stop : RecordedStop) : Prop :=
  recorded.triggerPrice.eqv stop.triggerPrice = true ∧
    recorded.priceProtection = stop.priceProtection

theorem shows_trans {stop : StopOrder} {recorded again : RecordedStop}
    (h : stop.Shows recorded) (hs : SameStop recorded again) : stop.Shows again :=
  ⟨DecimalUnit.eqv_trans h.1 hs.1, h.2.1.trans hs.2, h.2.2⟩

theorem shows_same {stop : StopOrder} {recorded again : RecordedStop}
    (h : stop.Shows recorded) (ha : stop.Shows again) : SameStop recorded again :=
  ⟨DecimalUnit.eqv_trans (by rw [DecimalUnit.eqv_comm]; exact h.1) ha.1, h.2.1.symm.trans ha.2.1⟩

section Runs

variable [DecimalArith]

/-- The covered stop an operation makes the position protected by. -/
def protecting (s : PositionCycle) : Op → Option CoveredStop
  | .verified covered =>
    if machine.Accepts s (.verified covered) ∧ covered.owner = .quantForge then some covered
    else none
  | _ => none

/-- A protected cycle holds a record, and the stop that last made it
protected shows that record on the cycle's own instrument and side. -/
def ProtectedAsRecorded (start : PositionCycle) (past : List Op) (s : PositionCycle) : Prop :=
  s.protection = .protected_ →
    ∃ recorded covered, s.recordedStop = some recorded ∧
      machine.latest protecting start past = some covered ∧ covered.stop.Shows recorded ∧
      covered.stop.instrument = s.key.instrument ∧ covered.stop.positionSide = s.side

/-- A stop of QuantForge's own is taken only when it shows the cycle's record,
and a protected cycle records only that stop again. -/
def ShowsRecord (s : PositionCycle) : Op → Prop
  | .verified covered =>
    s.TakesStop covered → ∃ recorded, s.recordedStop = some recorded ∧ covered.stop.Shows recorded
  | .recordStop stop =>
    s.protection = .protected_ → ∃ recorded, s.recordedStop = some recorded ∧
      SameStop recorded stop
  | _ => True

theorem protecting_refused {s : PositionCycle} {op : Op} (h : ¬ machine.Accepts s op) :
    protecting s op = none := by
  cases op <;> simp_all [protecting]

theorem protecting_guarded {s : PositionCycle} {covered : CoveredStop} (h : s.TakesStop covered) :
    protecting s (.verified covered) = some covered := by
  simp [protecting, (next_guarded h).1, h.1]

theorem protectedAsRecorded_step (start : PositionCycle) (past : List Op) (op : Op)
    (h : ProtectedAsRecorded start past (machine.run start past)) :
    ProtectedAsRecorded start (past ++ [op]) (machine.next (machine.run start past) op) ↔
      ShowsRecord (machine.run start past) op := by
  unfold ProtectedAsRecorded at h ⊢
  rw [machine.latest_snoc]
  generalize machine.run start past = s at h ⊢
  rcases next_cases s op with ⟨hno, hnext⟩ | ⟨hok, hc⟩
  · rw [hnext, protecting_refused hno, Option.none_or]
    refine iff_of_true h ?_
    cases op with
    | verified covered => exact fun htakes => absurd (next_guarded htakes).1 hno
    | recordStop stop => exact absurd rfl hno
    | _ => trivial
  · generalize machine.next s op = t at hc ⊢
    cases hc with
    | recorded stop =>
      simp only [protecting, Option.none_or, ShowsRecord]
      refine imp_congr_right fun hp => ?_
      obtain ⟨recorded, covered, hrec, hlast, hshows, hinst, hside⟩ := h hp
      rw [hrec, hlast]
      constructor
      · rintro ⟨_, _, hr, hl, hs, -⟩
        cases hr
        cases hl
        exact ⟨recorded, rfl, shows_same hshows hs⟩
      · rintro ⟨_, hr, hsame⟩
        cases hr
        exact ⟨stop, covered, rfl, rfl, shows_trans hshows hsame, hinst, hside⟩
    | moved dst hfree hmove =>
      refine iff_of_true (fun hp => ?_) trivial
      rw [show dst = .protected_ from hp] at hfree
      cases hfree
    | guarded covered htakes =>
      rw [protecting_guarded htakes, Option.some_or]
      simp only [ShowsRecord, forall_const, htakes]
      constructor
      · rintro ⟨recorded, _, hrec, hc, hshows, -⟩
        cases hc
        exact ⟨recorded, hrec, hshows⟩
      · rintro ⟨recorded, hrec, hshows⟩
        exact ⟨recorded, covered, hrec, rfl, hshows, htakes.2.1, htakes.2.2.1⟩
    | operators covered hown hmove =>
      refine iff_of_true (fun hp => nomatch hp) fun htakes => ?_
      rw [htakes.1] at hown
      cases hown
    | removed removal hmove => exact iff_of_true (fun hp => nomatch hp) trivial
    | closed snapshot reason hgone => exact iff_of_true (fun hp => nomatch hp) trivial
    | priced pnl hsettle => exact iff_of_true h trivial

/-- In every state of a run a protected position's stop is the one recorded
for it, exactly when every stop taken shows the record the cycle holds and a
protected cycle never records another. -/
theorem protected_as_recorded_iff (id : PositionCycleId) (key : PositionKey) (profile : ProfileId)
    (side : PositionSide) (openedBy : OperationId) (openedAtMs : TimestampMs) (ops : List Op) :
    let start := «open» id key profile side openedBy openedAtMs
    (∀ past, past <+: ops → ProtectedAsRecorded start past (machine.run start past)) ↔
      machine.Every ShowsRecord start ops := by
  intro start
  have hstart : ProtectedAsRecorded start [] start := by
    intro h
    cases h
  exact machine.every_prefix_iff (ProtectedAsRecorded start) ShowsRecord hstart
    (protectedAsRecorded_step start) ops

end Runs

section Unrecorded

attribute [local instance] DecimalArith.aligned

def solStop : StopOrder where
  stop := .position PositionKey.solUsdt.instrument
  instrument := PositionKey.solUsdt.instrument
  positionSide := .long
  triggerPrice := ⟨.ofNat 230, by decide, by decide⟩
  basis := some .mark
  priceProtection := .notApplicable
  scope := .wholePosition
  status := .active
  triggeredOrder := none
  updatedAtMs := 0

def solStopRecord : RecordedStop := ⟨⟨.ofNat 230, by decide, by decide⟩, .mark, .notApplicable⟩

/-- QuantForge's stop, read back over a long SOL position. -/
def solCovered : CoveredStop where
  owner := .quantForge
  stop := solStop
  covered := ⟨.sol (some ⟨.long, .base ⟨.ofNat 4, by decide, by decide⟩,
    ⟨.ofNat 234, by decide, by decide⟩⟩) 1, by decide⟩
  recorded _ := ⟨solStopRecord, by decide⟩

example : ∃ position, CoveredStop.ours solStop position solStopRecord = .ok solCovered :=
  ⟨.sol (some ⟨.long, .base ⟨.ofNat 4, by decide, by decide⟩,
    ⟨.ofNat 234, by decide, by decide⟩⟩) 1, rfl⟩

/-- A stop checked against another record protects a cycle that holds none. -/
theorem protected_without_record :
    ¬ ProtectedAsRecorded (solLong 0) [.verified solCovered]
      (machine.run (solLong 0) [.verified solCovered]) := by
  intro h
  obtain ⟨recorded, -, hrec, -⟩ := h (by decide)
  cases hrec

end Unrecorded

end QuantForge.PositionCycle
