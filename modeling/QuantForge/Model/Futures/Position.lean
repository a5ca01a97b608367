import QuantForge.Framework.Machine
import QuantForge.Model.Futures.Accounting
import QuantForge.Model.Futures.ProtectionState

namespace QuantForge

/-- Why a cycle closed, as the evidence shows it. -/
inductive CloseReason
  | exitSignal
  | stopLoss
  | manual
  | liquidation
  | adl
  | protective
  | unknown
  deriving DecidableEq

/-- One cycle of an owned position. -/
structure PositionCycle [DecimalArith] where
  id : PositionCycleId
  key : PositionKey
  profile : ProfileId
  side : PositionSide
  openedBy : OperationId
  protection : ProtectionState
  recordedStop : Option RecordedStop
  closeReason : Option CloseReason
  pnl : Option RealizedPnl
  openedAtMs : TimestampMs
  closedAtMs : Option TimestampMs

namespace PositionCycle

def foreign (evidence : String) : ModelError :=
  .missingEvidence "position protection" "its next state" evidence

variable [DecimalArith]

/-- A cycle opened by the first fill of an entry. It waits for its stop. -/
def «open» (id : PositionCycleId) (key : PositionKey) (profile : ProfileId) (side : PositionSide)
    (openedBy : OperationId) (openedAtMs : TimestampMs) : PositionCycle where
  id := id
  key := key
  profile := profile
  side := side
  openedBy := openedBy
  protection := ProtectionState.initial
  recordedStop := none
  closeReason := none
  pnl := none
  openedAtMs := openedAtMs
  closedAtMs := none

/-- Takes the protection a move gives, or refuses with its error. -/
def setProtection (self : PositionCycle) :
    Except ModelError ProtectionState → Except ModelError Unit × PositionCycle
  | .error e => (.error e, self)
  | .ok protection => (.ok (), { self with protection := protection })

/-- The stop QuantForge placed, which later read-backs must show. -/
def recordStop (self : PositionCycle) (stop : RecordedStop) :
    Except ModelError Unit × PositionCycle :=
  (.ok (), { self with recordedStop := some stop })

def moveProtection (self : PositionCycle) (dst : ProtectionState) :
    Except ModelError Unit × PositionCycle :=
  self.setProtection (self.protection.moveTo dst)

/-- A read-back showed a stop covering this cycle's position. -/
def verified (self : PositionCycle) (covered : CoveredStop) :
    Except ModelError Unit × PositionCycle :=
  let stop := covered.stop
  if stop.instrument ≠ self.key.instrument ∨ stop.positionSide ≠ self.side then
    (.error (foreign "a stop on this position"), self)
  else self.setProtection (self.protection.verified covered)

def removedByOperator (self : PositionCycle) (removal : OperatorRemoval) :
    Except ModelError Unit × PositionCycle :=
  self.setProtection (self.protection.removedByOperator removal)

/-- A REST snapshot showed the position gone; the cycle ends for `reason`. -/
def close (self : PositionCycle) (snapshot : PositionSnapshot) (reason : CloseReason) :
    Except ModelError Unit × PositionCycle :=
  if snapshot.instrument ≠ self.key.instrument then
    (.error (foreign "a snapshot of this position"), self)
  else
    match self.protection.closedBy snapshot self.side with
    | .error e => (.error e, self)
    | .ok protection =>
      (.ok (), { self with
        protection := protection
        closeReason := some reason
        closedAtMs := some snapshot.observedAtMs })

/-- The cycle's PnL, in its instrument's settlement asset. -/
def setPnl (self : PositionCycle) (pnl : RealizedPnl) : Except ModelError Unit × PositionCycle :=
  let settle := self.key.instrument.settle
  if pnl.settle ≠ settle then
    (.error (.assetMismatch settle.code pnl.settle.code), self)
  else (.ok (), { self with pnl := some pnl })

inductive Op
  | recordStop (stop : RecordedStop)
  | moveProtection (dst : ProtectionState)
  | verified (covered : CoveredStop)
  | removedByOperator (removal : OperatorRemoval)
  | close (snapshot : PositionSnapshot) (reason : CloseReason)
  | setPnl (pnl : RealizedPnl)

/-- A position cycle under its operations. -/
def machine : Machine PositionCycle Op ModelError where
  step self
    | .recordStop stop => self.recordStop stop
    | .moveProtection dst => self.moveProtection dst
    | .verified covered => self.verified covered
    | .removedByOperator removal => self.removedByOperator removal
    | .close snapshot reason => self.close snapshot reason
    | .setPnl pnl => self.setPnl pnl

/-- A covered stop on this position that its protection can take. -/
def TakesStop (s : PositionCycle) (covered : CoveredStop) : Prop :=
  covered.owner = .quantForge ∧ covered.stop.instrument = s.key.instrument ∧
    covered.stop.positionSide = s.side ∧
    (s.protection = .protected_ ∨ s.protection.canMoveTo .protected_ = true)

/-- A snapshot that shows this open position gone. -/
def ShowsGone (s : PositionCycle) (snapshot : PositionSnapshot) : Prop :=
  snapshot.instrument = s.key.instrument ∧ ProtectionState.gone snapshot s.side = true ∧
    s.protection.canMoveTo .closed = true

/-- What an accepted operation can do to the cycle. -/
inductive Change (s : PositionCycle) : Op → PositionCycle → Prop
  | recorded (stop : RecordedStop) :
      Change s (.recordStop stop) { s with recordedStop := some stop }
  | moved (dst : ProtectionState) (hfree : dst.evidence = none)
      (hmove : s.protection.canMoveTo dst = true) :
      Change s (.moveProtection dst) { s with protection := dst }
  | guarded (covered : CoveredStop) (htakes : s.TakesStop covered) :
      Change s (.verified covered) { s with protection := .protected_ }
  | operators (covered : CoveredStop) (hown : covered.owner = .operator)
      (hmove : s.protection = .protectedByOperator ∨
        s.protection.canMoveTo .protectedByOperator = true) :
      Change s (.verified covered) { s with protection := .protectedByOperator }
  | removed (removal : OperatorRemoval)
      (hmove : s.protection = .unprotectedByOperator ∨
        s.protection.canMoveTo .unprotectedByOperator = true) :
      Change s (.removedByOperator removal) { s with protection := .unprotectedByOperator }
  | closed (snapshot : PositionSnapshot) (reason : CloseReason) (hgone : s.ShowsGone snapshot) :
      Change s (.close snapshot reason)
        { s with
          protection := .closed
          closeReason := some reason
          closedAtMs := some snapshot.observedAtMs }
  | priced (pnl : RealizedPnl) (hsettle : pnl.settle = s.key.instrument.settle) :
      Change s (.setPnl pnl) { s with pnl := some pnl }

/-- An operation refuses and leaves the cycle alone, or makes one of the
changes above. -/
def Steps (s : PositionCycle) (op : Op) (r : Except ModelError Unit × PositionCycle) : Prop :=
  (∃ e, r = (.error e, s)) ∨ (r.1 = .ok () ∧ Change s op r.2)

theorem steps_refused (s : PositionCycle) (op : Op) (e : ModelError) :
    Steps s op (.error e, s) := .inl ⟨e, rfl⟩

theorem steps_setProtection {s : PositionCycle} {op : Op}
    {r : Except ModelError ProtectionState}
    (h : ∀ dst, r = .ok dst → Change s op { s with protection := dst }) :
    Steps s op (s.setProtection r) := by
  cases r with
  | error e => exact steps_refused s op e
  | ok dst => exact .inr ⟨rfl, h dst rfl⟩

theorem verified_steps (s : PositionCycle) (covered : CoveredStop) :
    Steps s (.verified covered) (s.verified covered) := by
  unfold verified
  simp only
  split_ifs with hforeign
  · exact steps_refused ..
  · rw [not_or, not_not, not_not] at hforeign
    refine steps_setProtection fun t ht => ?_
    cases ho : covered.owner with
    | quantForge =>
      obtain ⟨rfl, hmove⟩ := (ProtectionState.verified_ours ho).mp ht
      exact .guarded covered ⟨ho, hforeign.1, hforeign.2, hmove⟩
    | operator =>
      obtain ⟨rfl, hmove⟩ := (ProtectionState.verified_operators ho).mp ht
      exact .operators covered ho hmove

theorem close_steps (s : PositionCycle) (snapshot : PositionSnapshot) (reason : CloseReason) :
    Steps s (.close snapshot reason) (s.close snapshot reason) := by
  unfold close
  split_ifs with hforeign
  · exact steps_refused ..
  · cases h : s.protection.closedBy snapshot s.side with
    | error e => exact steps_refused ..
    | ok t =>
      obtain ⟨hgone, hmove, rfl⟩ := ProtectionState.closedBy_ok.mp h
      exact .inr ⟨rfl, .closed snapshot reason ⟨not_not.mp hforeign, hgone, hmove⟩⟩

theorem machine_steps (s : PositionCycle) (op : Op) : Steps s op (machine.step s op) := by
  cases op with
  | recordStop stop => exact .inr ⟨rfl, .recorded stop⟩
  | moveProtection dst =>
    refine steps_setProtection fun t ht => ?_
    obtain ⟨hfree, hmove, rfl⟩ := ProtectionState.moveTo_ok.mp ht
    exact .moved t hfree hmove
  | verified covered => exact verified_steps s covered
  | removedByOperator removal =>
    refine steps_setProtection fun t ht => ?_
    obtain ⟨rfl, hmove⟩ := ProtectionState.removedByOperator_ok.mp ht
    exact .removed removal hmove
  | close snapshot reason => exact close_steps s snapshot reason
  | setPnl pnl =>
    change Steps s (.setPnl pnl) (s.setPnl pnl)
    unfold setPnl
    simp only
    split_ifs with hsettle
    · exact steps_refused ..
    · exact .inr ⟨rfl, .priced pnl (not_not.mp hsettle)⟩

/-- One step of the cycle: refused and unchanged, or accepted with its change. -/
theorem next_cases (s : PositionCycle) (op : Op) :
    (¬ machine.Accepts s op ∧ machine.next s op = s) ∨
      (machine.Accepts s op ∧ Change s op (machine.next s op)) := by
  rcases machine_steps s op with ⟨e, h⟩ | h
  · exact .inl (by simp [Machine.Accepts, Machine.next, h])
  · exact .inr h

theorem refused_unchanged (s : PositionCycle) (op : Op) (h : ¬ machine.Accepts s op) :
    machine.next s op = s := by
  rcases next_cases s op with ⟨_, hs⟩ | ⟨ha, _⟩
  · exact hs
  · exact absurd ha h

theorem change_identity {s t : PositionCycle} {op : Op} (h : Change s op t) :
    t.key = s.key ∧ t.side = s.side ∧ t.openedAtMs = s.openedAtMs := by
  cases h <;> exact ⟨rfl, rfl, rfl⟩

theorem next_identity (s : PositionCycle) (op : Op) :
    (machine.next s op).key = s.key ∧ (machine.next s op).side = s.side ∧
      (machine.next s op).openedAtMs = s.openedAtMs := by
  rcases next_cases s op with ⟨-, h⟩ | ⟨-, h⟩
  · rw [h]
    exact ⟨rfl, rfl, rfl⟩
  · exact change_identity h

/-- The operations that take effect are those whose conditions the state meets. -/
theorem next_guarded {s : PositionCycle} {covered : CoveredStop} (h : s.TakesStop covered) :
    machine.Accepts s (.verified covered) ∧
      machine.next s (.verified covered) = { s with protection := .protected_ } := by
  obtain ⟨ho, hi, hs, hmove⟩ := h
  have hv := (ProtectionState.verified_ours ho).mpr ⟨rfl, hmove⟩
  simp [Machine.Accepts, Machine.next, machine, verified, hi, hs, hv, setProtection]

theorem next_closed {s : PositionCycle} {snapshot : PositionSnapshot} (reason : CloseReason)
    (h : s.ShowsGone snapshot) :
    machine.next s (.close snapshot reason) =
      { s with
        protection := .closed
        closeReason := some reason
        closedAtMs := some snapshot.observedAtMs } := by
  obtain ⟨hi, hgone, hmove⟩ := h
  have hc := ProtectionState.closedBy_ok.mpr ⟨hgone, hmove, rfl⟩
  simp [Machine.next, machine, close, hi, hc]

theorem next_priced {s : PositionCycle} {pnl : RealizedPnl}
    (h : pnl.settle = s.key.instrument.settle) :
    machine.next s (.setPnl pnl) = { s with pnl := some pnl } := by
  simp [Machine.next, machine, setPnl, h]

/-- A long SOL position opened at `openedAtMs`. -/
def solLong (openedAtMs : TimestampMs) : PositionCycle :=
  «open» ⟨1, by decide⟩ .solUsdt .main .long ⟨1, by decide⟩ openedAtMs

end PositionCycle

namespace PositionSnapshot

/-- The venue's report of the SOL position, holding `size` of it or flat. -/
def sol (exposure : Option Exposure) (observedAtMs : TimestampMs) : PositionSnapshot where
  instrument := PositionKey.solUsdt.instrument
  exposure := exposure
  notional := none
  leverage := ⟨.ofUInt32 5, by decide, by decide⟩
  marginMode := .isolated
  markPrice := none
  liquidation := .unavailable .reportedZero
  unrealizedPnl := none
  margin := none
  observedAtMs := observedAtMs

end PositionSnapshot

end QuantForge
