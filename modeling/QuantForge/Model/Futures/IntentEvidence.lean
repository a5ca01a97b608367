import QuantForge.Model.Futures.Intent

namespace QuantForge.ExternalIntent

/-- An accepted operation showed that something was executed. -/
def Evidence (s : ExternalIntent) (op : Op) : Prop := machine.Accepts s op ∧ s.Shows op

/-- Admission, before any order, refused the intent. -/
def AdmissionRejected (s : ExternalIntent) (op : Op) : Prop :=
  machine.Accepts s op ∧ op = .moveTo .rejected

/-- A plain move takes an admitted intent to submitting with no order sent. -/
def SubmitsUnsent (s : ExternalIntent) (op : Op) : Prop :=
  s.state = .admitted ∧ op = .moveTo .submitting

/-- What the record of an intent of `kind` says after the operations `past`. -/
structure EvidenceSound (kind : IntentKind) (past : List Op) (s : ExternalIntent) : Prop where
  executed_iff : (s.state = .partiallyFilled ∨ s.state = .filled) ↔
    machine.Occurs Evidence (new kind) past
  unexecuted : s.state = .unfilled ∨ s.state = .notPlaced ∨
    (s.state = .rejected ∧ s.attempts ≠ []) → ¬ machine.Occurs Evidence (new kind) past
  once : kind.isExit = false → s.attempts.length ≤ 1
  ids_nodup : s.sentIds.Nodup
  legs : ∀ attempt ∈ s.attempts, attempt.clientOrderId.leg = kind.leg
  empty_iff : s.attempts = [] ↔
    s.state ∈ [.received, .admitted, .duplicate, .noop, .expired] ∨
      (s.state = .rejected ∧ machine.Occurs AdmissionRejected (new kind) past)
  terminal_stays : s.state.isTerminal = true → ∀ later,
    (machine.run s later).state = s.state ∧ (machine.run s later).attempts = s.attempts
  refused_unchanged : ∀ op, ¬ machine.Accepts s op → machine.next s op = s

/-- The part of it that every sequence of operations keeps. -/
structure Recorded (kind : IntentKind) (past : List Op) (s : ExternalIntent) : Prop where
  kind_eq : s.kind = kind
  executed_iff : s.state.executed = true ↔ machine.Occurs Evidence (new kind) past
  once : kind.isExit = false → s.attempts.length ≤ 1
  ids_nodup : s.sentIds.Nodup
  legs : ∀ attempt ∈ s.attempts, attempt.clientOrderId.leg = kind.leg
  unsent_empty : s.state.unsent = true → s.attempts = []
  refused_empty : machine.Occurs AdmissionRejected (new kind) past →
    s.state = .rejected ∧ s.attempts = []
  rejected_empty : s.state = .rejected → s.attempts = [] →
    machine.Occurs AdmissionRejected (new kind) past

theorem refused_unchanged (s : ExternalIntent) (op : Op) (h : ¬ machine.Accepts s op) :
    machine.next s op = s := by
  rcases next_cases s op with ⟨_, hs⟩ | ⟨ha, _⟩
  · exact hs
  · exact absurd ha h

theorem change_terminal {s t : ExternalIntent} {op : Op} (h : Change s op t)
    (ht : s.state.isTerminal = true) : t = s := by
  have stuck : ∀ dst, s.state.canMoveTo dst = true → False := fun dst hm => by
    rw [IntentState.terminal_stuck s.state dst ht] at hm
    exact Bool.false_ne_true hm
  cases h with
  | moved dst hfree hmove => exact (stuck dst hmove).elim
  | sent attempt hleg hstate hnone => rw [hstate] at ht; cases ht
  | retried attempt hleg hfresh hexit hopen =>
    rw [IntentState.unresolved_not_terminal s.state hopen] at ht
    cases ht
  | executed dst hshows hsent hdst hmove =>
    rcases hmove with rfl | hmove
    · rfl
    · exact (stuck dst hmove).elim
  | settled dst hshows hsent hdst hmove => exact (stuck dst hmove).elim
  | ignored hshows => rfl

theorem terminal_stays (s : ExternalIntent) (later : List Op) (ht : s.state.isTerminal = true) :
    machine.run s later = s := by
  refine machine.run_keeps (fun t => t = s) rfl (fun t op hts => ?_) later
  subst hts
  rcases next_cases t op with ⟨_, h⟩ | ⟨_, h⟩
  · exact h
  · exact change_terminal h ht

/-- Evidence of execution leaves the record executed, and nothing else
brings it there. -/
theorem change_executed {s t : ExternalIntent} {op : Op} (h : Change s op t) :
    t.state.executed = true ↔ s.state.executed = true ∨ s.Shows op := by
  cases h with
  | moved dst hfree hmove =>
    have hs : ¬ s.Shows (.moveTo dst) := by simp [Shows]
    cases hstate : s.state <;> cases dst <;>
      simp_all [IntentState.executed, IntentState.gated, IntentState.canMoveTo,
        IntentState.transitions]
  | sent attempt hleg hstate hnone => simp [Shows, hstate, IntentState.executed]
  | retried attempt hleg hfresh hexit hopen => simp [Shows]
  | executed dst hshows hsent hdst hmove => simp [hdst, hshows]
  | settled dst hshows hsent hdst hmove =>
    have hd : dst.executed = false := by rcases hdst with rfl | rfl | rfl <;> rfl
    have hs : s.state.executed = false := by
      rw [← Bool.not_eq_true]
      intro hex
      rw [IntentState.executed_stays s.state dst hex hmove] at hd
      cases hd
    simp [hd, hs, hshows]
  | ignored hshows => simp [hshows]

theorem recorded_new (kind : IntentKind) : Recorded kind [] (new kind) where
  kind_eq := rfl
  executed_iff := by simp [new, IntentState.initial, IntentState.executed, Machine.Occurs]
  once _ := by simp [new]
  ids_nodup := by simp [new, sentIds]
  legs := by simp [new]
  unsent_empty _ := rfl
  refused_empty h := h.elim
  rejected_empty h := by simp [new, IntentState.initial] at h

theorem change_once {s t : ExternalIntent} {op : Op} (h : Change s op t)
    (he : s.kind.isExit = false) (hs : s.attempts.length ≤ 1) : t.attempts.length ≤ 1 := by
  cases h with
  | sent attempt hleg hstate hnone => simp
  | retried attempt hleg hfresh hexit hopen => simp [he] at hexit
  | _ => exact hs

theorem change_ids {s t : ExternalIntent} {op : Op} (h : Change s op t)
    (hs : s.sentIds.Nodup) : t.sentIds.Nodup := by
  cases h with
  | sent attempt hleg hstate hnone => simp [sentIds]
  | retried attempt hleg hfresh hexit hopen =>
    simp only [sentIds, List.map_append, List.map_cons, List.map_nil]
    exact hs.append (by simp) (by simpa using hfresh)
  | _ => exact hs

theorem change_legs {s t : ExternalIntent} {op : Op} (h : Change s op t)
    (hs : ∀ attempt ∈ s.attempts, attempt.clientOrderId.leg = s.kind.leg) :
    ∀ attempt ∈ t.attempts, attempt.clientOrderId.leg = s.kind.leg := by
  cases h with
  | sent attempt hleg hstate hnone => simpa using hleg
  | retried attempt hleg hfresh hexit hopen =>
    intro a ha
    rcases List.mem_append.mp ha with ha | ha
    · exact hs a ha
    · rw [List.mem_singleton.mp ha]
      exact hleg
  | _ => exact hs

theorem change_kind {s t : ExternalIntent} {op : Op} (h : Change s op t) : t.kind = s.kind := by
  cases h <;> rfl

theorem change_unsent {s t : ExternalIntent} {op : Op} (h : Change s op t)
    (hs : s.state.unsent = true → s.attempts = []) (ht : t.state.unsent = true) :
    t.attempts = [] := by
  cases h with
  | moved dst hfree hmove => exact hs (IntentState.unsent_before s.state dst hmove ht)
  | sent attempt hleg hstate hnone => cases ht
  | retried attempt hleg hfresh hexit hopen =>
    cases hstate : s.state <;> simp_all [IntentState.unsent, IntentState.isUnresolved]
  | executed dst hshows hsent hdst hmove =>
    cases dst <;> simp_all [IntentState.unsent, IntentState.executed]
  | settled dst hshows hsent hdst hmove =>
    rcases hdst with rfl | rfl | rfl <;> cases ht
  | ignored hshows => exact hs ht

theorem change_rejected {s t : ExternalIntent} {op : Op} (h : Change s op t)
    (ht : t.state = .rejected) (hn : t.attempts = []) :
    op = .moveTo .rejected ∨ t = s := by
  cases h with
  | moved dst hfree hmove => exact .inl (by simpa using ht)
  | sent attempt hleg hstate hnone => cases ht
  | retried attempt hleg hfresh hexit hopen => simp at hn
  | executed dst hshows hsent hdst hmove => exact absurd hn hsent
  | settled dst hshows hsent hdst hmove => exact absurd hn hsent
  | ignored hshows => exact .inr rfl

theorem change_refusal {s t : ExternalIntent} (h : Change s (.moveTo .rejected) t)
    (hs : s.state.unsent = true → s.attempts = []) :
    t.state = .rejected ∧ t.attempts = [] := by
  cases h with
  | moved dst hfree hmove => exact ⟨rfl, hs (IntentState.rejected_before s.state hmove hfree)⟩
  | executed dst hshows hsent hdst hmove => exact hshows.elim
  | settled dst hshows hsent hdst hmove hop => exact absurd rfl (hop .rejected)
  | ignored hshows hop => exact absurd rfl (hop .rejected)

theorem recorded_step {kind : IntentKind} {past : List Op} {op : Op}
    (h : Recorded kind past (machine.run (new kind) past)) :
    Recorded kind (past ++ [op]) (machine.next (machine.run (new kind) past) op) := by
  generalize hs : machine.run (new kind) past = s at h
  have hocc : ∀ P : ExternalIntent → Op → Prop,
      machine.Occurs P (new kind) (past ++ [op]) ↔ machine.Occurs P (new kind) past ∨ P s op := by
    intro P
    rw [machine.occurs_snoc, hs]
  rcases next_cases s op with ⟨hno, hnext⟩ | ⟨hok, hc⟩
  · have hsame : ∀ P : ExternalIntent → Op → Prop, (P s op → machine.Accepts s op) →
        (machine.Occurs P (new kind) (past ++ [op]) ↔ machine.Occurs P (new kind) past) := by
      intro P hP
      rw [hocc, or_iff_left fun hp => hno (hP hp)]
    rw [hnext]
    exact { h with
      executed_iff := h.executed_iff.trans (hsame Evidence And.left).symm
      refused_empty := fun ho => h.refused_empty ((hsame AdmissionRejected And.left).mp ho)
      rejected_empty := fun hr hn =>
        (hsame AdmissionRejected And.left).mpr (h.rejected_empty hr hn) }
  · have hleg : s.kind.leg = kind.leg := by rw [h.kind_eq]
    refine ⟨(change_kind hc).trans h.kind_eq, ?_, ?_, change_ids hc h.ids_nodup, ?_,
      change_unsent hc h.unsent_empty, ?_, ?_⟩
    · rw [change_executed hc, hocc, h.executed_iff, Evidence, and_iff_right hok]
    · intro he
      exact change_once hc (by rw [h.kind_eq, he]) (h.once he)
    · rw [← hleg]
      exact change_legs hc (by rw [hleg]; exact h.legs)
    · rw [hocc]
      rintro (ho | ⟨-, rfl⟩)
      · obtain ⟨hr, hn⟩ := h.refused_empty ho
        rw [change_terminal hc (by rw [hr]; rfl)]
        exact ⟨hr, hn⟩
      · exact change_refusal hc h.unsent_empty
    · intro hr hn
      rw [hocc]
      rcases change_rejected hc hr hn with hop | hsame
      · exact .inr ⟨hok, hop⟩
      · rw [hsame] at hr hn
        exact .inl (h.rejected_empty hr hn)

/-- Every sequence of operations, accepted or refused, leaves a record that
says what the evidence showed. -/
theorem recorded_run (kind : IntentKind) (ops : List Op) :
    Recorded kind ops (machine.run (new kind) ops) :=
  machine.history_keeps (Recorded kind) (recorded_new kind) (fun _ _ => recorded_step) ops

/-- No record stands at an outcome without an attempt. -/
def SentOrUnsent (s : ExternalIntent) : Prop :=
  s.attempts = [] → s.state.unsent = true ∨ s.state = .rejected

theorem evidenceSound_iff {kind : IntentKind} {past : List Op} {s : ExternalIntent}
    (h : Recorded kind past s) : EvidenceSound kind past s ↔ SentOrUnsent s := by
  constructor
  · intro hsound hn
    rcases hsound.empty_iff.mp hn with hm | ⟨hr, -⟩
    · exact .inl ((IntentState.unsent_mem s.state).mpr hm)
    · exact .inr hr
  · intro hsent
    refine ⟨by rw [← IntentState.executed_mem, h.executed_iff], ?_, h.once, h.ids_nodup, h.legs,
      ⟨?_, ?_⟩, fun ht later => ?_, refused_unchanged s⟩
    · intro hstate
      rw [← h.executed_iff]
      rcases hstate with hs | hs | ⟨hs, -⟩ <;> rw [hs] <;> decide
    · intro hn
      rcases hsent hn with hu | hr
      · exact .inl ((IntentState.unsent_mem s.state).mp hu)
      · exact .inr ⟨hr, h.rejected_empty hr hn⟩
    · rintro (hm | ⟨-, ho⟩)
      · exact h.unsent_empty ((IntentState.unsent_mem s.state).mpr hm)
      · exact (h.refused_empty ho).2
    · rw [terminal_stays s later ht]
      exact ⟨rfl, rfl⟩

theorem sentOrUnsent_step {s : ExternalIntent} {op : Op}
    (hu : s.state.unsent = true → s.attempts = []) (h : SentOrUnsent s) :
    SentOrUnsent (machine.next s op) ↔ ¬ SubmitsUnsent s op := by
  constructor
  · rintro hnext ⟨hstate, rfl⟩
    have hmove : machine.next s (.moveTo .submitting) = { s with state := .submitting } := by
      simp [Machine.next, machine, moveTo, hstate, setState, IntentState.moveTo,
        IntentState.gated, IntentState.checked, IntentState.canMoveTo, IntentState.transitions]
    rw [hmove] at hnext
    rcases hnext (hu (by rw [hstate]; rfl)) with hx | hx <;> cases hx
  · intro hop
    rcases next_cases s op with ⟨-, hs⟩ | ⟨-, hc⟩
    · rw [hs]
      exact h
    intro hn
    generalize machine.next s op = t at hc hn
    cases hc with
    | moved dst hfree hmove =>
      rcases h hn with hun | hr
      · rcases IntentState.unsent_after s.state dst hun hmove with hd | hd | ⟨ha, hd⟩
        · exact .inl hd
        · exact .inr hd
        · exact absurd ⟨ha, by rw [hd]⟩ hop
      · rw [hr, IntentState.terminal_stuck .rejected dst rfl] at hmove
        cases hmove
    | sent attempt hleg hstate hnone => simp at hn
    | retried attempt hleg hfresh hexit hopen => simp at hn
    | executed dst hshows hsent hdst hmove => exact absurd hn hsent
    | settled dst hshows hsent hdst hmove => exact absurd hn hsent
    | ignored hshows => exact h hn

/-- Every record of a run is sound exactly when no step takes an admitted
intent to submitting by a plain move: submitting belongs to an order that was
recorded as sent. -/
theorem evidence_sound_iff (kind : IntentKind) (ops : List Op) :
    (∀ past, past <+: ops → EvidenceSound kind past (machine.run (new kind) past)) ↔
      machine.Every (fun s op => ¬ SubmitsUnsent s op) (new kind) ops := by
  have hinv := machine.every_prefix_iff (fun past s => Recorded kind past s ∧ SentOrUnsent s)
    (fun s op => ¬ SubmitsUnsent s op)
    ⟨recorded_new kind, fun _ => .inl rfl⟩
    (fun past op hp =>
      ⟨fun h => (sentOrUnsent_step hp.1.unsent_empty hp.2).mp h.2,
        fun h => ⟨recorded_step hp.1, (sentOrUnsent_step hp.1.unsent_empty hp.2).mpr h⟩⟩)
    ops
  rw [← hinv]
  refine forall_congr' fun past => imp_congr_right fun _ => ?_
  rw [evidenceSound_iff (recorded_run kind past), and_iff_right (recorded_run kind past)]

def solEntry : IntentKind := .entry
  { profile := .main
    signal := ⟨"entry", by decide⟩
    signalTimeMs := 0
    key := .solUsdt
    side := .long
    expectedPrice := ⟨.ofNat 234, by decide, by decide⟩
    stop := none }

/-- Admitted and then moved to submitting, an entry waits for the outcome of
an order that no attempt records. -/
theorem submitted_without_attempt :
    ¬ EvidenceSound solEntry [.moveTo .admitted, .moveTo .submitting]
      (machine.run (new solEntry) [.moveTo .admitted, .moveTo .submitting]) := by
  intro h
  have hstate : (machine.run (new solEntry)
      [.moveTo .admitted, .moveTo .submitting]).state = .submitting := by decide
  rcases h.empty_iff.mp rfl with hm | ⟨hr, -⟩
  · rw [hstate] at hm
    exact absurd hm (by decide)
  · rw [hstate] at hr
    cases hr

end QuantForge.ExternalIntent
