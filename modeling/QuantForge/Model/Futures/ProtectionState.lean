import QuantForge.Model.Futures.Coverage

namespace QuantForge

/-- Where a position's protection stands. -/
inductive ProtectionState
  | protectionPending
  | protected_
  | protectedByOperator
  | protectionUnknown
  | unprotected
  | unprotectedByOperator
  | closing
  | closed
  deriving DecidableEq

/-- Evidence that the operator removed a position's stop on purpose. -/
structure OperatorRemoval where
  byCommand : Bool
  deriving DecidableEq

namespace OperatorRemoval

/-- Refuses a stop the venue does not report as cancelled by the user. -/
def userCancel (stop : StopOrder) : Except ModelError OperatorRemoval :=
  if stop.status ≠ .canceled .byUser then
    .error (.missingEvidence "position protection" "unprotected_by_operator"
      "a stop the venue reports as cancelled by the user")
  else .ok ⟨false⟩

def command : OperatorRemoval := ⟨true⟩

end OperatorRemoval

namespace ProtectionState

def initial : ProtectionState := .protectionPending

/-- Every allowed move. -/
def transitions : List (ProtectionState × ProtectionState) :=
  [(.protectionPending, .protected_),
   (.protectionPending, .protectedByOperator),
   (.protectionPending, .protectionUnknown),
   (.protectionPending, .unprotected),
   (.protectionPending, .closing),
   (.protectionPending, .closed),
   (.protected_, .protectionPending),
   (.protected_, .protectedByOperator),
   (.protected_, .protectionUnknown),
   (.protected_, .unprotected),
   (.protected_, .unprotectedByOperator),
   (.protected_, .closing),
   (.protected_, .closed),
   (.protectedByOperator, .protectionPending),
   (.protectedByOperator, .protectionUnknown),
   (.protectedByOperator, .unprotectedByOperator),
   (.protectedByOperator, .closing),
   (.protectedByOperator, .closed),
   (.protectionUnknown, .protectionPending),
   (.protectionUnknown, .protected_),
   (.protectionUnknown, .protectedByOperator),
   (.protectionUnknown, .unprotected),
   (.protectionUnknown, .unprotectedByOperator),
   (.protectionUnknown, .closing),
   (.protectionUnknown, .closed),
   (.unprotected, .protectionPending),
   (.unprotected, .protected_),
   (.unprotected, .closing),
   (.unprotected, .closed),
   (.unprotectedByOperator, .protectedByOperator),
   (.unprotectedByOperator, .closing),
   (.unprotectedByOperator, .closed),
   (.closing, .protected_),
   (.closing, .protectionUnknown),
   (.closing, .unprotected),
   (.closing, .closed)]

def asStr : ProtectionState → String
  | .protectionPending => "protection_pending"
  | .protected_ => "protected"
  | .protectedByOperator => "protected_by_operator"
  | .protectionUnknown => "protection_unknown"
  | .unprotected => "unprotected"
  | .unprotectedByOperator => "unprotected_by_operator"
  | .closing => "closing"
  | .closed => "closed"

def canMoveTo (self dst : ProtectionState) : Bool := transitions.contains (self, dst)

def checked (self dst : ProtectionState) : Except ModelError ProtectionState :=
  if !self.canMoveTo dst then
    .error (.invalidTransition "position protection" self.asStr dst.asStr)
  else .ok dst

/-- The evidence a move to this state needs, if a plain move cannot make it. -/
def evidence : ProtectionState → Option String
  | .protected_ | .protectedByOperator => some "a read-back showing a covering stop"
  | .unprotectedByOperator => some "the operator removing the stop"
  | .closed => some "a snapshot showing the position gone"
  | _ => none

def moveTo (self dst : ProtectionState) : Except ModelError ProtectionState :=
  match dst.evidence with
  | none => self.checked dst
  | some evidence => .error (.missingEvidence "position protection" dst.asStr evidence)

/-- A read-back showed a stop covering the whole position. -/
def verified (self : ProtectionState) (covered : CoveredStop) :
    Except ModelError ProtectionState :=
  let dst := match covered.owner with
    | .quantForge => .protected_
    | .operator => .protectedByOperator
  if dst = self then .ok self else self.checked dst

def removedByOperator (self : ProtectionState) (_removal : OperatorRemoval) :
    Except ModelError ProtectionState :=
  if self = .unprotectedByOperator then .ok self else self.checked .unprotectedByOperator

/-- Whether the snapshot shows the `side` position gone: flat, or reversed. -/
def gone (snapshot : PositionSnapshot) (side : PositionSide) : Bool :=
  snapshot.isFlat || snapshot.side == some side.opposite

/-- Named `closed` in the source, beside the state of that name. -/
def closedBy (self : ProtectionState) (snapshot : PositionSnapshot) (side : PositionSide) :
    Except ModelError ProtectionState :=
  if !gone snapshot side then
    .error (.missingEvidence "position protection" ProtectionState.closed.asStr
      ("a snapshot without the " ++ side.asStr ++ " position"))
  else self.checked .closed

theorem checked_ok {self dst t : ProtectionState} :
    self.checked dst = .ok t ↔ self.canMoveTo dst = true ∧ t = dst := by
  cases h : self.canMoveTo dst <;> simp [checked, h, eq_comm]

theorem moveTo_ok {self dst t : ProtectionState} :
    self.moveTo dst = .ok t ↔
      dst.evidence = none ∧ self.canMoveTo dst = true ∧ t = dst := by
  cases h : dst.evidence <;> simp [moveTo, h, checked_ok]

/-- A move that leaves the state alone where it already stands. -/
theorem keep_or_checked {self dst t : ProtectionState} :
    (if dst = self then .ok self else self.checked dst) = .ok t ↔
      t = dst ∧ (self = dst ∨ self.canMoveTo dst = true) := by
  split_ifs with h
  · rw [← h, Except.ok.injEq, and_iff_left (.inl rfl)]
    exact eq_comm
  · rw [checked_ok, and_comm, or_iff_right fun hs => h hs.symm]

theorem verified_ours {self t : ProtectionState} {covered : CoveredStop}
    (ho : covered.owner = .quantForge) :
    self.verified covered = .ok t ↔
      t = .protected_ ∧ (self = .protected_ ∨ self.canMoveTo .protected_ = true) := by
  simp only [verified, ho]
  exact keep_or_checked

theorem verified_operators {self t : ProtectionState} {covered : CoveredStop}
    (ho : covered.owner = .operator) :
    self.verified covered = .ok t ↔
      t = .protectedByOperator ∧
        (self = .protectedByOperator ∨ self.canMoveTo .protectedByOperator = true) := by
  simp only [verified, ho]
  exact keep_or_checked

theorem removedByOperator_ok {self t : ProtectionState} {removal : OperatorRemoval} :
    self.removedByOperator removal = .ok t ↔
      t = .unprotectedByOperator ∧
        (self = .unprotectedByOperator ∨ self.canMoveTo .unprotectedByOperator = true) := by
  unfold removedByOperator
  split_ifs with h
  · rw [Except.ok.injEq, and_iff_left (.inl h), ← h]
    exact eq_comm
  · rw [checked_ok, and_comm, or_iff_right h]

theorem closedBy_ok {self t : ProtectionState} {snapshot : PositionSnapshot}
    {side : PositionSide} :
    self.closedBy snapshot side = .ok t ↔
      gone snapshot side = true ∧ self.canMoveTo .closed = true ∧ t = .closed := by
  cases h : gone snapshot side <;> simp [closedBy, h, checked_ok]

theorem closed_stuck (dst : ProtectionState) :
    ProtectionState.closed.canMoveTo dst = false := by
  cases dst <;> rfl

end ProtectionState

end QuantForge
