import QuantForge.Storage.Postgres.Bridge

namespace QuantForge.Postgres

open Remote

variable {Q : Type} {A : Q → Type} {T : Type}

/-- An answer that leaves nothing open. -/
def Definite : Except CallError T → Prop
  | .ok _ => True
  | .error e => e.kind ≠ .outcomeUnknown

/-- An answer that leaves nothing open, where the call is a read. -/
def Told (effect : Effect) (answer : Except CallError T) : Prop :=
  effect = .read → Definite answer

variable {effect : Effect}

theorem lost_told (what : String) : Told (T := T) effect (.error (lost effect what)) := by
  rintro rfl h
  cases h

/-- No error of the driver leaves a read open. -/
theorem fromDriver_definite (x : DriverError) : (fromDriver .read x).kind ≠ .outcomeUnknown := by
  intro h
  unfold fromDriver at h
  split at h
  · cases h
  · split_ifs at h <;> cases h

theorem result_told (result : Except DriverError T) :
    Told effect (result.mapError (fromDriver effect)) := by
  rintro rfl
  cases result with
  | ok t => trivial
  | error x => exact fromDriver_definite x

theorem fromPool_told (error : PoolError) :
    Told (T := T) effect (.error (.storage (fromPool error))) := by
  rintro - h
  cases error <;> cases h

/-- A call whose answer, given or ready, leaves nothing open where it is a read, and is not
given before its job is handed over. -/
structure Answers (effect : Effect) (c : Call Q A T) : Prop where
  fresh : c.stage = .calling → c.answer = none
  answer : ∀ a, c.answer = some a → Told effect a
  reply : ∀ a, c.stage = .replying a → Told effect a

/-- A step that leaves an answer as it was given. -/
def Keeps (c d : Call Q A T) : Prop := ∀ a, c.answer = some a → d.answer = some a

variable {b : Bridge} {c d : Call Q A T} {work : Work Q A DriverError T}

/-- A step that changes the job and not the answer. -/
theorem moved_answers (h : Answers effect c) (hanswer : d.answer = c.answer)
    (hfresh : d.stage = .calling → c.stage = .calling)
    (hreply : ∀ a, d.stage = .replying a → Told effect a) : Answers effect d ∧ Keeps c d := by
  refine ⟨⟨?_, ?_, hreply⟩, ?_⟩
  · intro hcalling
    rw [hanswer]
    exact h.fresh (hfresh hcalling)
  · intro a ha
    rw [hanswer] at ha
    exact h.answer a ha
  · intro a ha
    rw [hanswer]
    exact ha

/-- A step that gives the answer of a call that had none. -/
theorem given_answers (hnone : c.answer = none) {answer : Except CallError T}
    (hanswer : d.answer = some answer) (hdefinite : Told effect answer)
    (hstage : d.stage ≠ .calling) (hreply : ∀ a, d.stage = .replying a → Told effect a) :
    Answers effect d ∧ Keeps c d := by
  refine ⟨⟨fun hcalling => absurd hcalling hstage, ?_, hreply⟩, ?_⟩
  · intro a ha
    rw [hanswer] at ha
    rw [← Option.some.inj ha]
    exact hdefinite
  · intro a ha
    rw [hnone] at ha
    cases ha

theorem proceed_answers (h : Answers effect c) (w : Work Q A DriverError T) :
    Answers effect (c.proceed b effect w) ∧ Keeps c (c.proceed b effect w) := by
  unfold Call.proceed
  split
  · exact moved_answers h rfl (fun hd => by cases hd) fun a ha => by cases ha
  · next result _ =>
    split
    · exact moved_answers h rfl (fun hd => by cases hd) fun a ha => by cases ha
    · refine moved_answers h rfl (fun hd => by cases hd) ?_
      intro a ha
      cases ha
      exact result_told result

theorem reply_answers (h : Answers effect c) {answer : Except CallError T}
    (hdefinite : Told effect answer) :
    Answers effect (c.reply answer) ∧ Keeps c (c.reply answer) := by
  refine moved_answers h rfl (fun hd => by cases hd) ?_
  intro a ha
  cases ha
  exact hdefinite

theorem discard_answers (h : Answers effect c) : Answers effect c.discard := ⟨h.fresh, h.answer, h.reply⟩

/-- One step of a call leaves its answer as it was given. -/
theorem answers_step {choice : Choice Q A} (h : Answers effect c)
    (hstep : c.step b effect work choice = some d) : Answers effect d ∧ Keeps c d := by
  cases choice with
  | spawns =>
    simp only [Call.step] at hstep
    split at hstep <;> cases hstep
    exact moved_answers h rfl (fun hd => by cases hd) fun a ha => by cases ha
  | reentrant =>
    simp only [Call.step] at hstep
    split at hstep <;> cases hstep
    next hcalling =>
    refine given_answers (h.fresh hcalling) rfl ?_ (fun hd => by cases hd)
      fun a ha => by cases ha
    intro _ hkind
    cases hkind
  | foreignProcess builtBy calledFrom =>
    simp only [Call.step] at hstep
    split at hstep <;> cases hstep
    next hcalling =>
    refine given_answers (h.fresh hcalling) rfl ?_ (fun hd => by cases hd)
      fun a ha => by cases ha
    intro _ hkind
    cases hkind
  | connects =>
    simp only [Call.step] at hstep
    split at hstep
    · split_ifs at hstep
      · cases hstep
        exact moved_answers h rfl (fun hd => by cases hd) fun a ha => by cases ha
      · cases hstep
        exact proceed_answers h work
    · cases hstep
  | unconnected error =>
    simp only [Call.step] at hstep
    split at hstep <;> cases hstep
    exact reply_answers h (fromPool_told error)
  | limits done =>
    simp only [Call.step] at hstep
    split at hstep
    · split_ifs at hstep
      · cases hstep
        exact proceed_answers h work
      · cases hstep
        refine reply_answers (discard_answers h) ?_
        intro _ hkind
        cases hkind
    · cases hstep
  | executes verdict =>
    simp only [Call.step] at hstep
    split at hstep
    · cases hstep
    · split at hstep <;> cases hstep
      · exact moved_answers h rfl (fun hd => by cases hd) fun a ha => by cases ha
      · exact moved_answers h rfl id h.reply
  | hears =>
    simp only [Call.step] at hstep
    split at hstep <;> cases hstep
    exact proceed_answers h _
  | breaks text =>
    simp only [Call.step] at hstep
    split at hstep <;> cases hstep
    exact proceed_answers (discard_answers h) _
  | resets done =>
    simp only [Call.step] at hstep
    split at hstep <;> cases hstep
    next result _ =>
    cases done with
    | true => exact reply_answers h (result_told result)
    | false => exact reply_answers (discard_answers h) (result_told result)
  | deadline =>
    simp only [Call.step, Call.overdue] at hstep
    split at hstep <;> cases hstep
    · refine reply_answers h ?_
      intro _ hkind
      cases hkind
    · refine reply_answers (discard_answers h) ?_
      intro _ hkind
      cases hkind
    · exact reply_answers (discard_answers h) (lost_told _)
    · exact reply_answers (discard_answers h) (result_told _)
  | rollsBack =>
    cases hstep
    exact moved_answers h rfl id h.reply
  | sessionDies =>
    cases hstep
    exact moved_answers h rfl id h.reply
  | replies =>
    simp only [Call.step] at hstep
    split at hstep <;> cases hstep
    next answer hstage hnone =>
    exact given_answers hnone rfl (h.reply answer hstage) (fun hd => by cases hd)
      fun a ha => by cases ha
  | watchdog =>
    simp only [Call.step] at hstep
    split at hstep <;> cases hstep
    next hnone hcalling =>
    exact given_answers hnone rfl (lost_told _) hcalling h.reply
  | shutsDown =>
    simp only [Call.step] at hstep
    split at hstep <;> cases hstep
    next hnone hcalling =>
    exact given_answers hnone rfl (lost_told _) hcalling h.reply
  | jobDropped =>
    simp only [Call.step] at hstep
    split at hstep <;> cases hstep
    exact moved_answers h rfl (fun hd => by cases hd) fun a ha => by cases ha

theorem made_answers : Answers effect (Call.made : Call Q A T) := by
  refine ⟨fun _ => rfl, ?_, ?_⟩
  · intro a ha
    cases ha
  · intro a ha
    cases ha

theorem answers_next (h : Answers effect c) (choice : Choice Q A) :
    Answers effect ((b.execute effect work).next c choice) ∧
      Keeps c ((b.execute effect work).next c choice) := by
  cases hstep : c.step b effect work choice with
  | none =>
    have hstays : (b.execute effect work).next c choice = c := by
      simp only [Machine.next, Bridge.execute, hstep]
    rw [hstays]
    exact ⟨h, fun _ ha => ha⟩
  | some d =>
    have hmoves : (b.execute effect work).next c choice = d := by
      simp only [Machine.next, Bridge.execute, hstep]
    rw [hmoves]
    exact answers_step h hstep

theorem answers_run (h : Answers effect c) (choices : List (Choice Q A)) :
    Answers effect ((b.execute effect work).run c choices) ∧
      Keeps c ((b.execute effect work).run c choices) := by
  induction choices generalizing c with
  | nil => exact ⟨h, fun _ ha => ha⟩
  | cons choice choices ih =>
    obtain ⟨hnext, hkeeps⟩ := answers_next h choice
    obtain ⟨hlast, hrest⟩ := ih hnext
    exact ⟨hlast, fun a ha => hrest a (hkeeps a ha)⟩

/-- A call through the bridge is answered once, and a read never with an outcome that is
not known, whatever the pool, the server, the clock and the watchdog do and in whatever
order. -/
theorem answered_once (b : Bridge) (effect : Effect) (work : Work Q A DriverError T)
    (choices later : List (Choice Q A)) {answer : Except CallError T}
    (hanswer : ((b.execute effect work).run .made choices).answer = some answer) :
    ((b.execute effect work).run .made (choices ++ later)).answer = some answer ∧
      (effect = .read → Definite answer) := by
  have hcall : Answers effect ((b.execute effect work).run .made choices) :=
    (answers_run made_answers choices).1
  refine ⟨?_, hcall.answer answer hanswer⟩
  rw [Machine.run_append]
  exact (answers_run hcall later).2 answer hanswer

def readNumber : Work Unit (fun _ => Nat) DriverError Nat := .runs () .ret

/-- A read whose deadline passes is answered that, and its watchdog comes too late. -/
theorem answered_once_readNumber :
    let choices : List (Choice Unit fun _ => Nat) := [.spawns, .connects, .deadline, .replies]
    let answer : Except CallError Nat :=
      .error (.storage (.unavailable "no answer within 1000 ms"))
    ((Bridge.execute ⟨1000, none⟩ .read readNumber).run .made (choices ++ [.watchdog])).answer =
        some answer ∧
      (Effect.read = .read → Definite answer) :=
  answered_once ⟨1000, none⟩ .read readNumber [.spawns, .connects, .deadline, .replies]
    [.watchdog] rfl

end QuantForge.Postgres
