import QuantForge.Storage.Postgres.Bridge

namespace QuantForge.Postgres

open Remote

variable {Q : Type} {A : Q → Type} {T : Type}

/-- What a write's answers say, under the server's reports. -/
def writeMeaning (refused : T → Prop) (did : T → List (Done Q A) → Prop) :
    Meaning Q A DriverError T := ⟨DriverError.undecided, refused, did⟩

/-- An answer of a write call says what its session committed, and that nothing
of it is still to come, unless its outcome is unknown. -/
def Honest (refused : T → Prop) (did : T → List (Done Q A) → Prop) (s : Session Q A) :
    Except CallError T → Prop
  | .ok t => (writeMeaning refused did).Settled s (.ok t)
  | .error e => s.AtMostOnce ∧ (e.kind ≠ .outcomeUnknown → s.asked = none ∧ s.ledger = [])

/-- A session before any of the call's work, or gone. -/
structure Untouched (s : Session Q A) : Prop where
  asked : s.asked = none
  ending : s.ending = false
  ledger : s.ledger = []
  txn : s.alive = true → s.txn = .none

/-- A session that executed what the work asked, and what the work hears next. -/
structure Heard (M : Meaning Q A DriverError T) (w next : Work Q A DriverError T)
    (s : Session Q A) : Prop where
  going : w.result = none
  disciplined : ∃ mode, M.Disciplined w mode
  ending : s.ending = false
  come : ∃ mode, M.Disciplined next mode ∧ M.Matches s mode

/-- What a call's job has come to. -/
def JobSound (refused : T → Prop) (did : T → List (Done Q A) → Prop) (s : Session Q A) :
    Stage Q A T → Prop
  | .calling | .getting | .limiting => Untouched s
  | .working w none => (writeMeaning refused did).Waits w s ∧ s.ending = false
  | .working w (some next) => Heard (writeMeaning refused did) w next s
  | .resetting result => (writeMeaning refused did).Settled s result
  | .replying answer => Honest refused did s answer
  | .gone => s.AtMostOnce

/-- A call whose job and answer are sound. -/
structure CallSound (refused : T → Prop) (did : T → List (Done Q A) → Prop) (c : Call Q A T) :
    Prop where
  job : JobSound refused did c.session c.stage
  answer : ∀ a, c.answer = some a → c.stage = .gone ∧ Honest refused did c.session a ∨
    ∃ e, a = .error e ∧ e.kind = .outcomeUnknown

variable {refused : T → Prop} {did : T → List (Done Q A) → Prop} {b : Bridge} {s t : Session Q A}
  {c d : Call Q A T} {work : Work Q A DriverError T} {choice : Choice Q A}

@[simp] theorem lost_write (what : String) : (lost .write what).kind = .outcomeUnknown := rfl

/-- An error that leaves open what the server did is answered as just that. -/
theorem fromDriver_undecided {x : DriverError} (undecided : x.undecided = true) :
    (fromDriver .write x).kind = .outcomeUnknown := by
  cases code : x.code with
  | none =>
    simp only [fromDriver, code]
    rfl
  | some code' =>
    have ended : sqlClass code' = "08" ∨ code' = "57P01" ∨ code' = "57P02" := by
      simpa [DriverError.undecided, code, or_assoc] using undecided
    have not_conflict : ¬(code' = "40001" ∨ code' = "40P01") := by
      rintro (rfl | rfl) <;> revert ended <;> decide
    have not_locked : ¬code' = "55P03" := by
      rintro rfl
      revert ended
      decide
    have not_full : ¬sqlClass code' = "53" := by
      intro full
      obtain same | rfl | rfl := ended
      · rw [full] at same
        revert same
        decide
      · revert full
        decide
      · revert full
        decide
    simp only [fromDriver, code]
    rw [if_neg not_conflict, if_neg not_locked, if_neg not_full]
    split_ifs <;> rfl

/-- What the bridge makes of the work's result is honest. -/
theorem settled_honest {r : Except DriverError T} (settled : (writeMeaning refused did).Settled s r) :
    Honest refused did s (r.mapError (fromDriver .write)) := by
  cases r with
  | ok t => exact settled
  | error x =>
    refine ⟨settled.1, fun known => settled.2 ?_⟩
    by_contra open_
    exact known (fromDriver_undecided (by simpa [writeMeaning] using open_))

theorem honest_once {a : Except CallError T} (honest : Honest refused did s a) : s.AtMostOnce := by
  cases a with
  | error e => exact honest.1
  | ok t =>
    rw [Session.AtMostOnce, left_none honest.1]
    obtain ⟨-, none⟩ | ⟨done, -, one⟩ := honest.2
    · rw [none]
      exact Nat.zero_le 1
    · rw [one]
      exact Nat.le_refl 1

theorem settled_once {r : Except DriverError T} (settled : (writeMeaning refused did).Settled s r) :
    s.AtMostOnce := honest_once (settled_honest settled)

/-- Whatever its job has come to, a call commits at most once. -/
theorem job_once {stage : Stage Q A T} (job : JobSound refused did s stage) : s.AtMostOnce := by
  have empty (ledger : s.ledger = []) : s.AtMostOnce := by
    have few := left_le s
    rw [Session.AtMostOnce, ledger]
    simpa using few
  cases stage with
  | calling => exact empty job.ledger
  | getting => exact empty job.ledger
  | limiting => exact empty job.ledger
  | working w told =>
    cases told with
    | none => exact empty job.1.ledger
    | some next =>
      obtain ⟨mode, -, come⟩ := job.come
      cases mode with
      | outside => exact empty come.2.1
      | inside done => exact empty come.2.1
      | after done =>
        rw [Session.AtMostOnce, left_none come.1, come.2]
        exact Nat.le_refl 1
      | failed x =>
        rw [Session.AtMostOnce, left_none come.1]
        exact come.2.1
  | resetting result => exact settled_once job
  | replying answer => exact honest_once job
  | gone => exact job

/-- A session to which nothing happens but that it loses its connection, ends or
rolls back. -/
structure Fades (s t : Session Q A) : Prop where
  ledger : t.ledger = s.ledger
  left : t.left ≤ s.left
  idle : s.asked = none → t.asked = none
  ending : s.ending = false → t.ending = false
  rest : s.ending = false → t.asked = none ∧ t.alive = false ∨
    t.asked = s.asked ∧ t.txn = s.txn ∧ (t.alive = true → s.alive = true)

theorem fades_die (s : Session Q A) : Fades s s.die :=
  ⟨rfl, Nat.zero_le _, fun _ => rfl, fun _ => rfl, fun _ => .inl ⟨rfl, rfl⟩⟩

theorem fades_cut (s : Session Q A) : Fades s s.cut :=
  ⟨rfl, Nat.le_refl _, id, id, fun _ => .inr ⟨rfl, rfl, fun h => nomatch h⟩⟩

theorem fades_rollBack (s : Session Q A) : Fades s s.rollBack := by
  by_cases ends : (s.asked.isNone && s.ending) = true
  · have idle : s.asked = none := by
      rw [Bool.and_eq_true, Option.isNone_iff_eq_none] at ends
      exact ends.1
    have ending : s.ending = true := (Bool.and_eq_true _ _ ▸ ends).2
    rw [Session.rollBack, if_pos ends]
    refine ⟨rfl, ?_, fun _ => idle, fun _ => rfl, fun open_ => ?_⟩
    · have nothing : ({ s with txn := .none, ending := false } : Session Q A).left = 0 := left_none idle
      rw [nothing]
      exact Nat.zero_le _
    · rw [ending] at open_
      cases open_
  · rw [Session.rollBack, if_neg ends]
    exact ⟨rfl, Nat.le_refl _, id, id, fun _ => .inr ⟨rfl, rfl, id⟩⟩

theorem fades_once (fades : Fades s t) (once : s.AtMostOnce) : t.AtMostOnce := by
  have fewer := fades.left
  unfold Session.AtMostOnce at *
  rw [fades.ledger]
  omega

theorem fades_settled {r : Except DriverError T} (fades : Fades s t)
    (settled : (writeMeaning refused did).Settled s r) : (writeMeaning refused did).Settled t r :=
  settled_idle settled fades.ledger fades.left fades.idle

theorem fades_honest {a : Except CallError T} (fades : Fades s t) (honest : Honest refused did s a) :
    Honest refused did t a := by
  cases a with
  | ok u => exact fades_settled (r := .ok u) fades honest
  | error e =>
    refine ⟨fades_once fades honest.1, fun known => ?_⟩
    rw [fades.ledger]
    exact ⟨fades.idle (honest.2 known).1, (honest.2 known).2⟩

theorem fades_matches {mode : Mode Q A DriverError} (fades : Fades s t) (open_ : s.ending = false)
    (come : (writeMeaning refused did).Matches s mode) :
    (writeMeaning refused did).Matches t mode := by
  have txn (same : s.alive = true → s.txn = mode.txn) : t.alive = true → t.txn = mode.txn := by
    intro alive
    obtain ⟨-, dead⟩ | ⟨-, kept, was⟩ := fades.rest open_
    · rw [dead] at alive
      cases alive
    · rw [kept]
      exact same (was alive)
  cases mode with
  | outside => exact ⟨fades.idle come.1, fades.ledger.trans come.2.1, txn come.2.2⟩
  | inside done => exact ⟨fades.idle come.1, fades.ledger.trans come.2.1, txn come.2.2⟩
  | after done => exact ⟨fades.idle come.1, fades.ledger.trans come.2⟩
  | failed x =>
    rw [Meaning.Matches, fades.ledger]
    exact ⟨fades.idle come.1, come.2⟩

/-- What a job has come to, it has come to whatever becomes of its session. -/
theorem fades_job {stage : Stage Q A T} (fades : Fades s t) (job : JobSound refused did s stage) :
    JobSound refused did t stage := by
  have untouched (h : Untouched s) : Untouched t := by
    refine ⟨fades.idle h.asked, fades.ending h.ending, fades.ledger.trans h.ledger, fun alive => ?_⟩
    obtain ⟨-, dead⟩ | ⟨-, kept, was⟩ := fades.rest h.ending
    · rw [dead] at alive
      cases alive
    · rw [kept]
      exact h.txn (was alive)
  cases stage with
  | calling => exact untouched job
  | getting => exact untouched job
  | limiting => exact untouched job
  | working w told =>
    cases told with
    | none =>
      obtain ⟨waits, open_⟩ := job
      refine ⟨⟨waits.going, fades.ledger.trans waits.ledger, ?_, waits.disciplined⟩, fades.ending open_⟩
      obtain ⟨idle, -⟩ | ⟨asked, txn, -⟩ := fades.rest open_
      · exact .inl idle
      · rw [asked, txn]
        exact waits.asked
    | some next =>
      obtain ⟨mode, disciplined, come⟩ := job.come
      exact ⟨job.going, job.disciplined, fades.ending job.ending, mode, disciplined,
        fades_matches fades job.ending come⟩
  | resetting result => exact fades_settled fades job
  | replying answer => exact fades_honest fades job
  | gone => exact fades_once fades job

theorem proceed_answer (c : Call Q A T) (w : Work Q A DriverError T) :
    (c.proceed b .write w).answer = c.answer := by
  unfold Call.proceed
  split
  · rfl
  · split <;> rfl

/-- Work that goes on from what the session has come to leaves its job sound. -/
theorem proceed_job {mode : Mode Q A DriverError} {w : Work Q A DriverError T}
    (disciplined : (writeMeaning refused did).Disciplined w mode)
    (come : (writeMeaning refused did).Matches c.session mode) (open_ : c.session.ending = false) :
    JobSound refused did (c.proceed b .write w).session (c.proceed b .write w).stage := by
  cases ends : w.result with
  | none =>
    have waits := issue_waits disciplined come ends
    have ending := (issue_ending c.session ends).trans open_
    simp only [Call.proceed, ends]
    exact ⟨waits, ending⟩
  | some r =>
    have settled := issue_settled disciplined come ends
    simp only [Call.proceed, ends]
    by_cases bounded : b.bounded = true
    · rw [if_pos bounded]
      exact settled
    · rw [if_neg bounded]
      exact settled_honest settled

/-- Work whose connection failed has that failure for its result. -/
theorem breaks_job {w : Work Q A DriverError T} {told : Option (Work Q A DriverError T)}
    {text : String} (job : JobSound refused did c.session (.working w told)) :
    JobSound refused did (c.discard.proceed b .write (w.fail ⟨none, text⟩)).session
      (c.discard.proceed b .write (w.fail ⟨none, text⟩)).stage := by
  have known : (∃ mode, (writeMeaning refused did).Disciplined w mode) ∧ w.result = none := by
    cases told with
    | none => exact ⟨job.1.disciplined, job.1.going⟩
    | some next => exact ⟨job.disciplined, job.going⟩
  obtain ⟨⟨mode, disciplined⟩, going⟩ := known
  have ends := fail_result (x := (⟨none, text⟩ : DriverError)) disciplined going rfl
  have once := fades_once (fades_cut c.session) (job_once job)
  have settled : (writeMeaning refused did).Settled c.session.cut
      (.error (⟨none, text⟩ : DriverError)) := ⟨once, fun known => nomatch known⟩
  have silent : c.discard.session.issue (w.fail ⟨none, text⟩) = c.session.cut := rfl
  simp only [Call.proceed, ends, silent]
  by_cases bounded : b.bounded = true
  · rw [if_pos bounded]
    exact settled
  · rw [if_neg bounded]
    exact settled_honest settled

/-- The server executes what the work waits for. -/
theorem executes_job {w : Work Q A DriverError T} {verdict : Verdict Q A DriverError}
    (job : JobSound refused did s (.working w none))
    (executed : s.execute DriverError.undecided verdict = some t) :
    JobSound refused did t (.working w (some (w.hear verdict))) := by
  obtain ⟨waits, open_⟩ := job
  obtain gone | ⟨asked, mode, disciplined, txn⟩ := waits.asked
  · rw [Session.execute, gone] at executed
    cases executed
  · cases asks : w.request with
    | none =>
      rw [Session.execute, asked, asks] at executed
      cases executed
    | some request =>
      rw [Session.execute, asked, asks] at executed
      have served : Session.serve (writeMeaning refused did).undecided { s with asked := none }
          request verdict = some t := executed
      have ending := (serve_ledger served).2.1.trans open_
      exact ⟨waits.going, ⟨mode, disciplined⟩, ending,
        hear_matches (s := { s with asked := none }) disciplined asks rfl waits.ledger txn served⟩

theorem executes_honest {a : Except CallError T} {verdict : Verdict Q A DriverError}
    (honest : Honest refused did s a)
    (executed : s.execute DriverError.undecided verdict = some t) : Honest refused did t a := by
  cases a with
  | ok u => exact settled_execute (M := writeMeaning refused did) (r := .ok u) honest executed
  | error e =>
    refine ⟨(execute_once honest.1 executed).1, fun known => ?_⟩
    rw [Session.execute, (honest.2 known).1] at executed
    cases executed

/-- The server executes what a job no longer waits for. -/
theorem executes_late {stage : Stage Q A T} {verdict : Verdict Q A DriverError}
    (elsewhere : ∀ w, stage ≠ .working w none) (job : JobSound refused did s stage)
    (executed : s.execute DriverError.undecided verdict = some t) : JobSound refused did t stage := by
  have asked : s.asked ≠ none := by
    intro idle
    rw [Session.execute, idle] at executed
    cases executed
  cases stage with
  | calling => exact absurd job.asked asked
  | getting => exact absurd job.asked asked
  | limiting => exact absurd job.asked asked
  | working w told =>
    cases told with
    | none => exact absurd rfl (elsewhere w)
    | some next =>
      obtain ⟨mode, -, come⟩ := job.come
      exact absurd (by cases mode <;> exact come.1) asked
  | resetting result => exact settled_execute (M := writeMeaning refused did) job executed
  | replying answer => exact executes_honest job executed
  | gone => exact (execute_once job executed).1

/-- A job that goes on has not given its caller's answer. -/
theorem sound_on (sound : CallSound refused did c) (running : c.stage ≠ .gone)
    (same : d.answer = c.answer) (job : JobSound refused did d.session d.stage) :
    CallSound refused did d := by
  refine ⟨job, fun a given => ?_⟩
  rw [same] at given
  obtain ⟨ended, -⟩ | unknown := sound.answer a given
  · exact absurd ended running
  · exact .inr unknown

/-- What becomes of the session alone. -/
theorem sound_session (sound : CallSound refused did c) (job : JobSound refused did t c.stage)
    (honest : ∀ a, Honest refused did c.session a → Honest refused did t a) :
    CallSound refused did { c with session := t } := by
  refine ⟨job, fun a given => ?_⟩
  obtain ⟨ended, said⟩ | unknown := sound.answer a given
  · exact .inl ⟨ended, honest a said⟩
  · exact .inr unknown

theorem sound_unanswered (sound : CallSound refused did c) (what : String) :
    CallSound refused did { c with answer := some (.error (lost .write what)) } := by
  refine ⟨sound.job, fun a given => .inr ⟨lost .write what, ?_, rfl⟩⟩
  exact (Option.some.inj given).symm

theorem untouched_honest (untouched : Untouched s) (e : CallError) :
    Honest refused did s (.error e) := by
  refine ⟨?_, fun _ => ⟨untouched.asked, untouched.ledger⟩⟩
  rw [Session.AtMostOnce, left_none untouched.asked, untouched.ledger]
  exact Nat.zero_le 1

theorem refuses_job (untouched : Untouched c.session) (e : CallError) :
    JobSound refused did (c.reply (.error e)).session (c.reply (.error e)).stage := by
  have honest : Honest refused did c.session (.error e) := untouched_honest untouched e
  exact honest

theorem refuses_discarded (untouched : Untouched c.session) (e : CallError) :
    JobSound refused did (c.discard.reply (.error e)).session (c.discard.reply (.error e)).stage := by
  have honest : Honest refused did c.session (.error e) := untouched_honest untouched e
  exact fades_honest (fades_cut c.session) honest

theorem lost_discarded (once : c.session.AtMostOnce) (what : String) :
    JobSound refused did (c.discard.reply (.error (lost .write what))).session
      (c.discard.reply (.error (lost .write what))).stage := by
  have honest : Honest refused did c.session.cut (.error (lost .write what)) :=
    ⟨fades_once (fades_cut c.session) once, fun known => absurd (lost_write what) known⟩
  exact honest

theorem untouched_refused (untouched : Untouched c.session) (e : CallError) :
    CallSound refused did { c with stage := .gone, answer := some (.error e) } := by
  have honest : Honest refused did c.session (.error e) := untouched_honest untouched e
  refine ⟨honest.1, fun a given => .inl ⟨rfl, ?_⟩⟩
  rw [← Option.some.inj given]
  exact honest

/-- Work begins on a session that nothing of the call has touched. -/
theorem begins_job (disciplined : (writeMeaning refused did).Disciplined work .outside)
    (untouched : Untouched c.session) :
    JobSound refused did (c.proceed b .write work).session (c.proceed b .write work).stage :=
  proceed_job disciplined ⟨untouched.asked, untouched.ledger, untouched.txn⟩ untouched.ending

theorem overdue_sound (sound : CallSound refused did c) (h : c.overdue b .write = some d) :
    CallSound refused did d := by
  have cut := fades_cut c.session
  have job := sound.job
  rw [Call.overdue] at h
  cases stage : c.stage with
  | getting =>
    rw [stage] at h job
    cases h
    exact sound_on sound (by simp [stage]) rfl (refuses_job job _)
  | limiting =>
    rw [stage] at h job
    cases h
    exact sound_on sound (by simp [stage]) rfl (refuses_discarded job _)
  | working w told =>
    rw [stage] at h
    cases h
    exact sound_on sound (by simp [stage]) rfl (lost_discarded (job_once job) _)
  | resetting result =>
    rw [stage] at h job
    cases h
    exact sound_on sound (by simp [stage]) rfl (fades_honest cut (settled_honest job))
  | calling =>
    rw [stage] at h
    cases h
  | replying answer =>
    rw [stage] at h
    cases h
  | gone =>
    rw [stage] at h
    cases h

/-- Every step keeps a call sound. -/
theorem step_sound (disciplined : (writeMeaning refused did).Disciplined work .outside)
    (sound : CallSound refused did c) (h : c.step b .write work choice = some d) :
    CallSound refused did d := by
  have job := sound.job
  have cut := fades_cut c.session
  revert h
  fun_cases Call.step b .write work c choice with
  | case1 stage =>
    intro h
    cases h
    rw [stage] at job
    exact sound_on sound (by simp [stage]) rfl job
  | case3 stage =>
    intro h
    cases h
    rw [stage] at job
    exact untouched_refused job _
  | case5 builtBy calledFrom stage =>
    intro h
    cases h
    rw [stage] at job
    exact untouched_refused job _
  | case7 stage bounded =>
    intro h
    cases h
    rw [stage] at job
    exact sound_on sound (by simp [stage]) rfl job
  | case8 stage unbounded =>
    intro h
    cases h
    rw [stage] at job
    exact sound_on sound (by simp [stage]) (proceed_answer c work) (begins_job disciplined job)
  | case10 error stage =>
    intro h
    cases h
    rw [stage] at job
    exact sound_on sound (by simp [stage]) rfl (refuses_job job _)
  | case12 stage =>
    intro h
    cases h
    rw [stage] at job
    exact sound_on sound (by simp [stage]) (proceed_answer c work) (begins_job disciplined job)
  | case13 done stage failed =>
    intro h
    cases h
    rw [stage] at job
    exact sound_on sound (by simp [stage]) rfl (refuses_discarded job _)
  | case16 verdict session executed w stage =>
    intro h
    cases h
    rw [stage] at job
    exact sound_on sound (by simp [stage]) rfl (executes_job job executed)
  | case17 verdict session executed elsewhere =>
    intro h
    cases h
    exact sound_session sound (executes_late elsewhere job executed)
      fun a honest => executes_honest honest executed
  | case18 w next stage =>
    intro h
    cases h
    rw [stage] at job
    obtain ⟨mode, told, come⟩ := job.come
    exact sound_on sound (by simp [stage]) (proceed_answer c next) (proceed_job told come job.ending)
  | case20 text w told stage =>
    intro h
    cases h
    rw [stage] at job
    exact sound_on sound (by simp [stage]) (proceed_answer c.discard _) (breaks_job job)
  | case22 done result stage c' =>
    intro h
    cases h
    rw [stage] at job
    have honest := settled_honest job
    cases done with
    | false => exact sound_on sound (by simp [stage]) rfl (fades_honest cut honest)
    | true => exact sound_on sound (by simp [stage]) rfl honest
  | case24 => exact fun h => overdue_sound sound h
  | case25 =>
    intro h
    cases h
    have fades := fades_rollBack c.session
    exact sound_session sound (fades_job fades job) fun a => fades_honest fades
  | case26 =>
    intro h
    cases h
    have fades := fades_die c.session
    exact sound_session sound (fades_job fades job) fun a => fades_honest fades
  | case27 answer none stage =>
    intro h
    cases h
    rw [stage] at job
    refine ⟨honest_once job, fun a given => .inl ⟨rfl, ?_⟩⟩
    rw [← Option.some.inj given]
    exact job
  | case31 | case34 =>
    intro h
    cases h
    exact sound_unanswered sound _
  | case36 =>
    intro h
    cases h
    refine ⟨fades_once cut (job_once job), fun a given => ?_⟩
    obtain ⟨-, honest⟩ | unknown := sound.answer a given
    · exact .inl ⟨rfl, fades_honest cut honest⟩
    · exact .inr unknown
  | _ =>
    intro h
    cases h

/-- A call stays sound through every run. -/
theorem run_sound (disciplined : (writeMeaning refused did).Disciplined work .outside)
    (choices : List (Choice Q A)) :
    CallSound refused did ((b.execute .write work).run Call.made choices) := by
  apply Machine.run_keeps
  · exact ⟨⟨rfl, rfl, rfl, fun _ => rfl⟩, fun a given => nomatch given⟩
  · intro c choice sound
    simp only [Machine.next, Bridge.execute]
    cases h : c.step b .write work choice with
    | none => exact sound
    | some d => exact step_sound disciplined sound h

/-- What a write call answers of its session: after a result, what it says was
committed, once; after an error with a known outcome, nothing, now and later. -/
theorem run_answers (disciplined : (writeMeaning refused did).Disciplined work .outside)
    (choices : List (Choice Q A)) :
    let c := (b.execute .write work).run Call.made choices
    c.session.ledger.length ≤ 1 ∧
      (∀ t, c.answer = some (.ok t) → refused t ∧ c.session.ledger = [] ∨
        ∃ done, did t done ∧ c.session.ledger = [done]) ∧
      ∀ e, c.answer = some (.error e) → e.kind ≠ .outcomeUnknown → c.session.ledger = [] := by
  have sound := run_sound (b := b) disciplined choices
  refine ⟨?_, fun t given => ?_, fun e given known => ?_⟩
  · have once := job_once sound.job
    unfold Session.AtMostOnce at once
    omega
  · obtain ⟨-, honest⟩ | ⟨e, error, -⟩ := sound.answer _ given
    · exact honest.2
    · cases error
  · obtain ⟨-, honest⟩ | ⟨e', same, unknown⟩ := sound.answer _ given
    · exact (honest.2 known).2
    · cases same
      exact absurd unknown known

end QuantForge.Postgres
