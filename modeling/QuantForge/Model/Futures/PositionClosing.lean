import QuantForge.Model.Futures.Position

namespace QuantForge.PositionCycle

section Runs

variable [DecimalArith]

/-- A cycle has a close reason and time when it is closed, and neither before. -/
structure Stamped (s : PositionCycle) : Prop where
  closed_stamped : s.protection = .closed →
    s.closeReason.isSome = true ∧ s.closedAtMs.isSome = true
  open_unstamped : s.protection ≠ .closed → s.closeReason = none ∧ s.closedAtMs = none

/-- A closed cycle closed no earlier than it opened. -/
def ClosedAfterOpened (s : PositionCycle) : Prop :=
  s.protection = .closed → ∃ closedAt, s.closedAtMs = some closedAt ∧ s.openedAtMs ≤ closedAt

/-- What a cycle's closing says: it is stamped, final and on a snapshot of
its own that shows the position gone, no earlier than its opening. -/
structure ClosesOnce (s : PositionCycle) : Prop where
  closed_iff : s.protection = .closed ↔
    s.closeReason.isSome = true ∧ s.closedAtMs.isSome = true
  closed_stays : s.protection = .closed → ∀ later,
    (machine.run s later).protection = .closed ∧
      (machine.run s later).closeReason = s.closeReason ∧
      (machine.run s later).closedAtMs = s.closedAtMs
  closes_on_snapshot : ∀ op, s.protection ≠ .closed →
    (machine.next s op).protection = .closed →
    ∃ snapshot reason, op = .close snapshot reason ∧
      snapshot.instrument = s.key.instrument ∧
      (snapshot.isFlat = true ∨ snapshot.side = some s.side.opposite)
  closed_after_opened : s.protection = .closed → ∀ closedAt, s.closedAtMs = some closedAt →
    s.openedAtMs ≤ closedAt
  refused_unchanged : ∀ op, ¬ machine.Accepts s op → machine.next s op = s

/-- A snapshot that closes the cycle was observed no earlier than it opened. -/
def ObservedSinceOpening (s : PositionCycle) : Op → Prop
  | .close snapshot _ => s.ShowsGone snapshot → s.openedAtMs ≤ snapshot.observedAtMs
  | _ => True

theorem change_closed {s t : PositionCycle} {op : Op} (h : Change s op t)
    (hc : s.protection = .closed) :
    t.protection = .closed ∧ t.closeReason = s.closeReason ∧ t.closedAtMs = s.closedAtMs := by
  have stuck : ∀ dst, s.protection.canMoveTo dst = true → False := fun dst hm => by
    rw [hc, ProtectionState.closed_stuck] at hm
    cases hm
  cases h with
  | recorded stop => exact ⟨hc, rfl, rfl⟩
  | moved dst hfree hmove => exact (stuck dst hmove).elim
  | guarded covered htakes =>
    rcases htakes.2.2.2 with hp | hmove
    · rw [hc] at hp; cases hp
    · exact (stuck _ hmove).elim
  | operators covered hown hmove =>
    rcases hmove with hp | hmove
    · rw [hc] at hp; cases hp
    · exact (stuck _ hmove).elim
  | removed removal hmove =>
    rcases hmove with hp | hmove
    · rw [hc] at hp; cases hp
    · exact (stuck _ hmove).elim
  | closed snapshot reason hgone => exact (stuck _ hgone.2.2).elim
  | priced pnl hsettle => exact ⟨hc, rfl, rfl⟩

theorem closed_stays (s : PositionCycle) (later : List Op) (hc : s.protection = .closed) :
    (machine.run s later).protection = .closed ∧
      (machine.run s later).closeReason = s.closeReason ∧
      (machine.run s later).closedAtMs = s.closedAtMs := by
  refine machine.run_keeps (fun t => t.protection = .closed ∧
    t.closeReason = s.closeReason ∧ t.closedAtMs = s.closedAtMs) ⟨hc, rfl, rfl⟩
    (fun t op ht => ?_) later
  rcases next_cases t op with ⟨-, h⟩ | ⟨-, h⟩
  · rw [h]
    exact ht
  · obtain ⟨hp, hr, ha⟩ := change_closed h ht.1
    exact ⟨hp, hr.trans ht.2.1, ha.trans ht.2.2⟩

theorem change_closes {s t : PositionCycle} {op : Op} (h : Change s op t)
    (hs : s.protection ≠ .closed) (ht : t.protection = .closed) :
    ∃ snapshot reason, op = .close snapshot reason ∧ s.ShowsGone snapshot := by
  cases h with
  | moved dst hfree hmove =>
    rw [show dst = .closed from ht] at hfree
    cases hfree
  | closed snapshot reason hgone => exact ⟨snapshot, reason, rfl, hgone⟩
  | recorded stop => exact absurd ht hs
  | priced pnl hsettle => exact absurd ht hs
  | _ => cases ht

theorem change_open {s t : PositionCycle} {op : Op} (h : Change s op t)
    (ht : t.protection ≠ .closed) :
    t.closeReason = s.closeReason ∧ t.closedAtMs = s.closedAtMs := by
  cases h with
  | closed snapshot reason hgone => exact absurd rfl ht
  | _ => exact ⟨rfl, rfl⟩

theorem stamped_change {s t : PositionCycle} {op : Op} (h : Change s op t) (hs : Stamped s) :
    Stamped t := by
  constructor
  · intro ht
    by_cases hc : s.protection = .closed
    · obtain ⟨-, hr, ha⟩ := change_closed h hc
      rw [hr, ha]
      exact hs.closed_stamped hc
    · obtain ⟨snapshot, reason, rfl, hgone⟩ := change_closes h hc ht
      cases h
      exact ⟨rfl, rfl⟩
  · intro ht
    have hc : s.protection ≠ .closed := fun hc => ht (change_closed h hc).1
    obtain ⟨hr, ha⟩ := change_open h ht
    rw [hr, ha]
    exact hs.open_unstamped hc

theorem stamped_next {s : PositionCycle} {op : Op} (hs : Stamped s) :
    Stamped (machine.next s op) := by
  rcases next_cases s op with ⟨-, h⟩ | ⟨-, h⟩
  · rw [h]
    exact hs
  · exact stamped_change h hs

theorem closesOnce_iff {s : PositionCycle} (hs : Stamped s) :
    ClosesOnce s ↔ ClosedAfterOpened s := by
  constructor
  · intro h hc
    obtain ⟨closedAt, ha⟩ := Option.isSome_iff_exists.mp (hs.closed_stamped hc).2
    exact ⟨closedAt, ha, h.closed_after_opened hc closedAt ha⟩
  · intro h
    refine ⟨⟨hs.closed_stamped, fun hset => ?_⟩, fun hc later => closed_stays s later hc, ?_, ?_,
      refused_unchanged s⟩
    · by_contra hc
      rw [(hs.open_unstamped hc).1] at hset
      cases hset.1
    · intro op hopen hc
      rcases next_cases s op with ⟨-, hn⟩ | ⟨-, hn⟩
      · rw [hn] at hc
        exact absurd hc hopen
      · obtain ⟨snapshot, reason, rfl, hi, hgone, -⟩ := change_closes hn hopen hc
        exact ⟨snapshot, reason, rfl, hi, by simpa [ProtectionState.gone] using hgone⟩
    · intro hc closedAt ha
      obtain ⟨at_, hat, hle⟩ := h hc
      rw [ha] at hat
      cases hat
      exact hle

theorem closedAfterOpened_step {s : PositionCycle} (op : Op) (h : ClosedAfterOpened s) :
    ClosedAfterOpened (machine.next s op) ↔ ObservedSinceOpening s op := by
  by_cases hop : ∃ snapshot reason, op = .close snapshot reason ∧ s.ShowsGone snapshot
  · obtain ⟨snapshot, reason, rfl, hgone⟩ := hop
    rw [next_closed reason hgone]
    simp [ClosedAfterOpened, ObservedSinceOpening, hgone]
  · have hobs : ObservedSinceOpening s op := by
      cases op with
      | close snapshot reason => exact fun hgone => absurd ⟨snapshot, reason, rfl, hgone⟩ hop
      | _ => trivial
    refine iff_of_true (fun hc => ?_) hobs
    rcases next_cases s op with ⟨-, hn⟩ | ⟨-, hn⟩
    · rw [hn] at hc ⊢
      exact h hc
    · have hs : s.protection = .closed := by
        by_contra hs
        exact hop (change_closes hn hs hc)
      obtain ⟨closedAt, ha, hle⟩ := h hs
      rw [(change_closed hn hs).2.2, (next_identity s op).2.2]
      exact ⟨closedAt, ha, hle⟩

/-- Every state of a run closes once, on evidence from the cycle's own
lifetime, exactly when no snapshot that closes it is older than its opening. -/
theorem closes_once_iff (id : PositionCycleId) (key : PositionKey) (profile : ProfileId)
    (side : PositionSide) (openedBy : OperationId) (openedAtMs : TimestampMs) (ops : List Op) :
    let start := «open» id key profile side openedBy openedAtMs
    (∀ past, past <+: ops → ClosesOnce (machine.run start past)) ↔
      machine.Every ObservedSinceOpening start ops := by
  intro start
  have hstart : Stamped start := ⟨(fun h => nomatch h), fun _ => ⟨rfl, rfl⟩⟩
  have hstamped : ∀ past, Stamped (machine.run start past) :=
    machine.run_keeps Stamped hstart fun _ _ => stamped_next
  have hiff := machine.every_prefix_iff (fun _ s => ClosedAfterOpened s) ObservedSinceOpening
    (show ClosedAfterOpened start from fun h => nomatch h) (fun _ op h => closedAfterOpened_step op h) ops
  rw [← hiff]
  exact forall_congr' fun past => imp_congr_right fun _ => closesOnce_iff (hstamped past)

end Runs

section Stale

attribute [local instance] DecimalArith.aligned

/-- A flat snapshot from before the opening closes the cycle. -/
theorem closed_before_opened :
    ¬ ClosesOnce (machine.run (solLong 1) [.close (.sol none 0) .manual]) := by
  intro h
  have hle := h.closed_after_opened (by decide) 0 (by decide)
  exact absurd hle (by decide)

end Stale

end QuantForge.PositionCycle
