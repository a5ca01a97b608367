import QuantForge.Model.Futures.PositionProtection

namespace QuantForge.PositionCycle

/-- What an operator's removal is built from. -/
inductive RemovalSource
  | command
  | userCancel (stop : StopOrder)

def RemovalSource.build : RemovalSource → Except ModelError OperatorRemoval
  | .command => .ok OperatorRemoval.command
  | .userCancel stop => OperatorRemoval.userCancel stop

section Runs

variable [DecimalArith]

/-- An operation, with what its evidence was built from. -/
inductive Report
  | recordStop (stop : RecordedStop)
  | moveProtection (dst : ProtectionState)
  | verified (covered : CoveredStop)
  | removed (source : RemovalSource)
  | close (snapshot : PositionSnapshot) (reason : CloseReason)
  | setPnl (pnl : RealizedPnl)

def Report.op : Report → Except ModelError Op
  | .recordStop stop => .ok (.recordStop stop)
  | .moveProtection dst => .ok (.moveProtection dst)
  | .verified covered => .ok (.verified covered)
  | .removed source => source.build.map .removedByOperator
  | .close snapshot reason => .ok (.close snapshot reason)
  | .setPnl pnl => .ok (.setPnl pnl)

/-- A position cycle under operations whose evidence is built on the spot. -/
def reports : Machine PositionCycle Report ModelError where
  step s report :=
    match report.op with
    | .error e => (.error e, s)
    | .ok op => machine.step s op

/-- A stop on the cycle's own position. -/
def OwnStop (s : PositionCycle) (stop : StopOrder) : Prop :=
  stop.instrument = s.key.instrument ∧ stop.positionSide = s.side

/-- Evidence, if there is any, about the cycle's own position. -/
def OwnEvidence (s : PositionCycle) : Report → Prop
  | .verified covered => s.OwnStop covered.stop
  | .removed (.userCancel stop) => s.OwnStop stop
  | .close snapshot _ => snapshot.instrument = s.key.instrument
  | _ => True

/-- What a report must show of the cycle's own position for a state that rests on
evidence. -/
def Gates (s : PositionCycle) (report : Report) : ProtectionState → Prop
  | .protected_ | .protectedByOperator =>
    ∃ covered, report = .verified covered ∧ s.OwnStop covered.stop
  | .unprotectedByOperator => report = .removed .command ∨
    ∃ stop, report = .removed (.userCancel stop) ∧ stop.status = .canceled .byUser ∧ s.OwnStop stop
  | .closed => ∃ snapshot reason, report = .close snapshot reason ∧
    snapshot.instrument = s.key.instrument
  | _ => True

/-- The cycle moves on evidence about its own position, and refuses any other. -/
structure RestsOnOwn (s : PositionCycle) (report : Report) : Prop where
  enters : (reports.next s report).protection ≠ s.protection →
    s.Gates report (reports.next s report).protection
  refuses : ¬ s.OwnEvidence report →
    ¬ reports.Accepts s report ∧ reports.next s report = s

/-- A removal built from a user's cancel, where the cycle can take it, is of its
own stop. -/
def RemovesOwn (s : PositionCycle) : Report → Prop
  | .removed (.userCancel stop) => stop.status = .canceled .byUser →
    (s.protection = .unprotectedByOperator ∨
      s.protection.canMoveTo .unprotectedByOperator = true) → s.OwnStop stop
  | _ => True

variable {s : PositionCycle}

theorem reports_op {report : Report} {op : Op} (h : report.op = .ok op) :
    reports.step s report = machine.step s op := by
  simp only [reports, h]

theorem next_op {report : Report} {op : Op} (h : report.op = .ok op) :
    reports.next s report = machine.next s op := congrArg Prod.snd (reports_op h)

theorem accepts_op {report : Report} {op : Op} (h : report.op = .ok op) :
    reports.Accepts s report ↔ machine.Accepts s op := by
  unfold Machine.Accepts
  rw [reports_op h]

/-- A report whose operation is refused rests on its evidence. -/
theorem rests_refused {report : Report}
    (h : ¬ reports.Accepts s report ∧ reports.next s report = s) : s.RestsOnOwn report where
  enters moved := absurd (by rw [h.2]) moved
  refuses _ := h

/-- A report about the cycle's own position rests on it where its operation
does. -/
theorem rests_change {report : Report} {op : Op} (hop : report.op = .ok op)
    (own : s.OwnEvidence report)
    (h : ∀ t, Change s op t → t.protection ≠ s.protection → s.Gates report t.protection) :
    s.RestsOnOwn report where
  enters := by
    rw [next_op hop]
    intro moved
    rcases next_cases s op with ⟨-, same⟩ | ⟨-, hchange⟩
    · exact absurd (by rw [same]) moved
    · exact h _ hchange moved
  refuses foreign := absurd own foreign

theorem foreign_refused {report : Report} {op : Op} (hop : report.op = .ok op)
    (h : ∃ e, machine.step s op = (.error e, s)) :
    ¬ reports.Accepts s report ∧ reports.next s report = s := by
  obtain ⟨e, h⟩ := h
  rw [accepts_op hop, next_op hop]
  simp [Machine.Accepts, Machine.next, h]

theorem verified_rests (s : PositionCycle) (covered : CoveredStop) :
    s.RestsOnOwn (.verified covered) := by
  by_cases own : s.OwnStop covered.stop
  · refine rests_change rfl own fun t hchange _ => ?_
    cases hchange with
    | guarded _ htakes => exact ⟨covered, rfl, own⟩
    | operators _ hown hmove => exact ⟨covered, rfl, own⟩
  · have foreign : covered.stop.instrument ≠ s.key.instrument ∨
        covered.stop.positionSide ≠ s.side := by
      rw [OwnStop, not_and_or] at own
      exact own
    exact rests_refused (@foreign_refused _ _ _ (.verified covered) rfl ⟨_, if_pos foreign⟩)

theorem close_rests (s : PositionCycle) (snapshot : PositionSnapshot) (reason : CloseReason) :
    s.RestsOnOwn (.close snapshot reason) := by
  by_cases own : snapshot.instrument = s.key.instrument
  · refine rests_change rfl own fun t hchange _ => ?_
    cases hchange with
    | closed _ _ hgone => exact ⟨snapshot, reason, rfl, own⟩
  · exact rests_refused (@foreign_refused _ _ _ (.close snapshot reason) rfl ⟨_, if_pos own⟩)

/-- A plain move enters no state that rests on evidence. -/
theorem move_rests (s : PositionCycle) (dst : ProtectionState) :
    s.RestsOnOwn (.moveProtection dst) := by
  refine @rests_change _ _ _ (.moveProtection dst) rfl trivial fun t hchange _ => ?_
  cases hchange with
  | moved _ hfree hmove =>
    cases dst with
    | protected_ => cases hfree
    | protectedByOperator => cases hfree
    | unprotectedByOperator => cases hfree
    | closed => cases hfree
    | _ => trivial

/-- A user's cancel counts for the cycle's own stop, or where the cycle cannot
take it at all. -/
theorem userCancel_rests (s : PositionCycle) (stop : StopOrder) :
    s.RestsOnOwn (.removed (.userCancel stop)) ↔ s.RemovesOwn (.removed (.userCancel stop)) := by
  by_cases cancelled : stop.status = .canceled .byUser
  · have built : Report.op (.removed (.userCancel stop)) = .ok (.removedByOperator ⟨false⟩) := by
      simp [Report.op, RemovalSource.build, OperatorRemoval.userCancel, cancelled, Except.map]
    by_cases takes : s.protection = .unprotectedByOperator ∨
        s.protection.canMoveTo .unprotectedByOperator = true
    · have accepts : machine.Accepts s (.removedByOperator ⟨false⟩) := by
        have allowed : s.protection.removedByOperator ⟨false⟩ = .ok .unprotectedByOperator :=
          ProtectionState.removedByOperator_ok.mpr ⟨rfl, takes⟩
        show (s.setProtection (s.protection.removedByOperator ⟨false⟩)).1 = .ok ()
        rw [allowed]
        rfl
      constructor
      · intro rests _ _
        by_contra foreign
        exact (rests.refuses foreign).1 ((accepts_op built).mpr accepts)
      · intro own
        have mine := own cancelled takes
        refine rests_change built mine fun t hchange _ => ?_
        cases hchange with
        | removed _ hmove => exact .inr ⟨stop, rfl, cancelled, mine⟩
    · refine iff_of_true (rests_refused ?_) fun _ h => absurd h takes
      rw [accepts_op built, next_op built]
      rcases next_cases s (.removedByOperator ⟨false⟩) with h | ⟨-, hchange⟩
      · exact h
      · generalize machine.next s (.removedByOperator ⟨false⟩) = t at hchange
        cases hchange with
        | removed _ hmove => exact absurd hmove takes
  · have refused : reports.step s (.removed (.userCancel stop)) = (.error
        (.missingEvidence "position protection" "unprotected_by_operator"
          "a stop the venue reports as cancelled by the user"), s) := by
      simp [reports, Report.op, RemovalSource.build, OperatorRemoval.userCancel, cancelled,
        Except.map]
    refine iff_of_true (rests_refused ?_) fun h => absurd h cancelled
    simp [Machine.Accepts, Machine.next, refused]

theorem rests_iff (s : PositionCycle) (report : Report) :
    s.RestsOnOwn report ↔ s.RemovesOwn report := by
  cases report with
  | recordStop stop =>
    refine iff_of_true (@rests_change _ _ _ (.recordStop stop) rfl trivial fun t hchange moved => ?_)
      trivial
    cases hchange
    exact absurd rfl moved
  | moveProtection dst => exact iff_of_true (move_rests s dst) trivial
  | verified covered => exact iff_of_true (verified_rests s covered) trivial
  | removed source =>
    cases source with
    | command =>
      refine iff_of_true (@rests_change _ _ _ (.removedByOperator ⟨true⟩) rfl trivial
        fun t hchange _ => ?_) trivial
      cases hchange
      exact .inl rfl
    | userCancel stop => exact userCancel_rests s stop
  | close snapshot reason => exact iff_of_true (close_rests s snapshot reason) trivial
  | setPnl pnl =>
    refine iff_of_true (@rests_change _ _ _ (.setPnl pnl) rfl trivial fun t hchange moved => ?_)
      trivial
    cases hchange
    exact absurd rfl moved

/-- Every move of a run rests on evidence about the cycle's own position exactly
when every user's cancel that the cycle takes is of its own stop. -/
theorem rests_on_own_iff (id : PositionCycleId) (key : PositionKey) (profile : ProfileId)
    (side : PositionSide) (openedBy : OperationId) (openedAtMs : TimestampMs)
    (given : List Report) :
    let start := «open» id key profile side openedBy openedAtMs
    reports.Every RestsOnOwn start given ↔ reports.Every RemovesOwn start given := by
  intro start
  exact reports.every_congr rests_iff start given

end Runs

section Foreign

attribute [local instance] DecimalArith.aligned

/-- A stop on another instrument, cancelled by the user. -/
def otherStop : StopOrder := { solStop with
  instrument := { solStop.instrument with symbol := .btcUsdt }
  status := .canceled .byUser }

/-- A stop cancelled on another instrument leaves a protected cycle
unprotected. -/
theorem removed_by_other :
    ¬ reports.Every RestsOnOwn (solLong 0)
      [.verified solCovered, .removed (.userCancel otherStop)] := by
  intro h
  have taken : ¬ reports.next (reports.next (solLong 0) (.verified solCovered))
      (.removed (.userCancel otherStop)) = reports.next (solLong 0) (.verified solCovered) := by
    intro same
    exact absurd (congrArg PositionCycle.protection same) (by decide)
  have foreign : ¬ OwnEvidence (reports.next (solLong 0) (.verified solCovered))
      (.removed (.userCancel otherStop)) := by
    intro own
    exact absurd own.1 (by decide)
  exact taken (h.2.1.refuses foreign).2

end Foreign

end QuantForge.PositionCycle
