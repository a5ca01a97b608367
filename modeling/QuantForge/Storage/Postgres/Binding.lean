import QuantForge.Framework.Crowd
import QuantForge.Storage.RunColumns

namespace QuantForge

/-- Whether `text` is 32 lowercase hex digits. -/
def hex32 (text : String) : Bool :=
  text.toList.length == 32 && text.toList.all fun c =>
    ('0'.toNat ≤ c.toNat && c.toNat ≤ '9'.toNat) ||
      ('a'.toNat ≤ c.toNat && c.toNat ≤ 'f'.toNat)

abbrev StoreId := TextId hex32

def StoreId.new (value : String) : Except ModelError StoreId :=
  TextId.new "store id" "32 lowercase hex digits" value

namespace Postgres.Binding

/-- The row of `store_control`, as the binding reads and writes it. -/
structure ControlRow where
  storeId : String
  environment : Option String
  changedAtMs : Int64
  deriving DecidableEq

/-- A store keeps the environment it was bound to. -/
def alreadyBound (storeId : StoreId) (bound : Environment) : StorageError :=
  .invalidArgument (s!"store {storeId.text} is bound to {bound.asStr}; a store keeps its " ++
    "environment for life")

/-- What a call for an environment answers to the row as it stands: nothing yet where
the row is not bound, and the call goes on to bind it. -/
def decide_ (row : ControlRow) (environment : Environment) : Option (Except StorageError Unit) :=
  match row.environment with
  | none => none
  | some text =>
    match Storage.parseEnvironment text with
    | .error error => some (.error (.other error))
    | .ok bound =>
      if bound = environment then some (.ok ())
      else
        match StoreId.new row.storeId with
        | .ok storeId => some (.error (alreadyBound storeId bound))
        | .error error => some (.error (.other error))

/-- The committed row, and who has it locked. -/
structure Database where
  row : ControlRow
  locks : Locks Unit
  deriving DecidableEq

def Database.release (db : Database) (who : Nat) : Database :=
  { db with locks := db.locks.release who }

/-- Where a call of `bind_environment` has got to. A call without an answer lost its
connection. -/
inductive Stage
  | lockBinding
  | bind_
  | commit (changedAtMs : Int64)
  | done (answer : Option (Except StorageError Unit))

structure Client where
  environment : Environment
  stage : Stage

/-- A statement runs, with the clock at `nowMs`, or the connection fails. A commit
that fails may have been made. -/
inductive Choice
  | runs (nowMs : Int64)
  | fails (made : Bool)
  deriving DecidableEq

/-- The row with its environment. -/
def written (row : ControlRow) (environment : Environment) (changedAtMs : Int64) : ControlRow :=
  { row with environment := some environment.asStr, changedAtMs := changedAtMs }

/-- The next statement of a call, where it need not wait for the row. An answer that
binds nothing gives the row back. -/
def Client.runs (who : Nat) (nowMs : Int64) (db : Database) (client : Client) :
    Option (Database × Client) :=
  match client.stage with
  | .lockBinding =>
    if db.locks.free who () then
      match decide_ db.row client.environment with
      | some answer => some (db.release who, { client with stage := .done (some answer) })
      | none => some (⟨db.row, (who, ()) :: db.locks⟩, { client with stage := .bind_ })
    else none
  | .bind_ => some (db, { client with stage := .commit nowMs })
  | .commit changedAtMs =>
    some (⟨written db.row client.environment changedAtMs, db.locks.release who⟩,
      { client with stage := .done (some (.ok ())) })
  | .done _ => none

def Client.fails (who : Nat) (made : Bool) (db : Database) (client : Client) :
    Option (Database × Client) :=
  match client.stage with
  | .lockBinding | .bind_ => some (db.release who, { client with stage := .done none })
  | .commit changedAtMs =>
    let row := if made then written db.row client.environment changedAtMs else db.row
    some (⟨row, db.locks.release who⟩, { client with stage := .done none })
  | .done _ => none

/-- Any number of calls on one store, one statement at a time and in any order. -/
def crowd : Crowd Database Client Environment Choice where
  enter environment := ⟨environment, .lockBinding⟩
  step who choice db client :=
    match choice with
    | .runs nowMs => client.runs who nowMs db
    | .fails made => client.fails who made db

abbrev Scene := Crowd.Scene Database Client

abbrev Op := Crowd.Op Environment Choice

def reached (row : ControlRow) (ops : List Op) : Scene := crowd.machine.run ⟨⟨row, []⟩, []⟩ ops

/-- A call that is about to bind has the row locked, and the row is not bound. -/
structure Holding (db : Database) (who : Nat) : Prop where
  locked : (who, ()) ∈ db.locks
  unbound : db.row.environment = none

/-- What a call relies on, and what its answer says of the row. -/
def Relies (db : Database) (who : Nat) (client : Client) : Prop :=
  match client.stage with
  | .lockBinding | .done none => True
  | .bind_ | .commit _ => Holding db who
  | .done (some answer) => decide_ db.row client.environment = some answer

/-- A row that keeps its store, and its environment where it has one. -/
def Stays (row last : ControlRow) : Prop :=
  last.storeId = row.storeId ∧ (row.environment.isSome → last.environment = row.environment)

theorem stays_refl (row : ControlRow) : Stays row row := ⟨rfl, fun _ => rfl⟩

theorem Stays.trans {row mid last : ControlRow} (h : Stays row mid) (hnext : Stays mid last) :
    Stays row last := by
  refine ⟨hnext.1.trans h.1, ?_⟩
  intro hbound
  have hmid := h.2 hbound
  rw [← hmid] at hbound
  rw [hnext.2 hbound, hmid]

theorem stays_written {row : ControlRow} (h : row.environment = none) (environment : Environment)
    (changedAtMs : Int64) : Stays row (written row environment changedAtMs) := by
  refine ⟨rfl, ?_⟩
  rw [h]
  intro hbound
  cases hbound

theorem decide_none {row : ControlRow} {environment : Environment}
    (h : decide_ row environment = none) : row.environment = none := by
  unfold decide_ at h
  split at h
  · assumption
  · split at h
    · cases h
    · split_ifs at h
      split at h <;> cases h

theorem decide_written (row : ControlRow) (environment : Environment) (changedAtMs : Int64) :
    decide_ (written row environment changedAtMs) environment = some (.ok ()) := by
  simp [decide_, written, Storage.parseEnvironment_asStr]

/-- An answered call is answered the same by every row that stays. -/
theorem Stays.decides {row last : ControlRow} (h : Stays row last) {environment : Environment}
    {answer : Except StorageError Unit} (hrow : decide_ row environment = some answer) :
    decide_ last environment = some answer := by
  have hbound : row.environment.isSome := by
    cases hcolumn : row.environment with
    | none => simp [decide_, hcolumn] at hrow
    | some text => rfl
  rw [← hrow, decide_, decide_, h.1, h.2 hbound]

theorem parseEnvironment_ok {text : String} {environment : Environment}
    (h : Storage.parseEnvironment text = .ok environment) : text = environment.asStr := by
  unfold Storage.parseEnvironment at h
  split at h
  · next found hfound =>
    cases h
    have hfits : (environment.asStr == text) = true := by simpa using List.find?_some hfound
    exact (beq_iff_eq.mp hfits).symm
  · cases h

/-- A call is told that it bound the store only where it did, or found it so bound. -/
theorem decide_ok {row : ControlRow} {environment : Environment}
    (h : decide_ row environment = some (.ok ())) :
    row.environment = some environment.asStr := by
  unfold decide_ at h
  split at h
  · cases h
  · next text htext =>
    split at h
    · cases h
    · next bound hparse =>
      split_ifs at h with hsame
      · rw [htext, parseEnvironment_ok hparse, hsame]
      · split at h <;> cases h

/-- What a call's step makes of the row, and of the lock that another has on it. -/
structure Moves (db v : Database) (who : Nat) (environment : Environment) : Prop where
  stays : Stays db.row v.row
  spares : ∀ other, other ≠ who → (other, ()) ∈ db.locks →
    (other, ()) ∈ v.locks ∧ v.row = db.row
  asked : v.row.environment = db.row.environment ∨
    v.row.environment = some environment.asStr

theorem mem_release {db : Database} {who other : Nat} (hne : other ≠ who)
    (h : (other, ()) ∈ db.locks) : (other, ()) ∈ db.locks.release who :=
  Locks.mem_release.mpr ⟨h, hne⟩

theorem moves_release (db : Database) (who : Nat) (environment : Environment) :
    Moves db (db.release who) who environment :=
  ⟨stays_refl _, fun _ hne h => ⟨mem_release hne h, rfl⟩, .inl rfl⟩

/-- Binding the row moves no lock of another, since no other has one. -/
theorem moves_written {db : Database} {who : Nat} (hdb : db.locks.Sole) (h : Holding db who)
    (environment : Environment) (changedAtMs : Int64) :
    Moves db ⟨written db.row environment changedAtMs, db.locks.release who⟩ who environment :=
  ⟨stays_written h.unbound environment changedAtMs,
    fun _ hne hother => absurd (hdb hother h.locked) hne, .inr rfl⟩

variable {who : Nat} {db v : Database} {client next : Client}

/-- A call's step keeps what it relies on. -/
theorem step_moves {choice : Choice} (hdb : db.locks.Sole) (h : Relies db who client)
    (hstep : crowd.step who choice db client = some (v, next)) :
    v.locks.Sole ∧ Relies v who next ∧ next.environment = client.environment ∧
      Moves db v who client.environment := by
  obtain ⟨environment, stage⟩ := client
  cases choice with
  | runs nowMs =>
    cases stage with
    | lockBinding =>
      simp only [crowd, Client.runs] at hstep
      split_ifs at hstep with hfree
      split at hstep
      · next answer hanswer =>
        cases hstep
        exact ⟨hdb.release who, hanswer, rfl, moves_release db who environment⟩
      · next hunbound =>
        cases hstep
        refine ⟨hdb.take hfree, ⟨List.mem_cons_self, decide_none hunbound⟩, rfl,
          stays_refl _, ?_, .inl rfl⟩
        intro other hne hother
        exact ⟨List.mem_cons_of_mem _ hother, rfl⟩
    | bind_ =>
      cases hstep
      exact ⟨hdb, h, rfl, stays_refl _, fun _ _ hother => ⟨hother, rfl⟩, .inl rfl⟩
    | commit changedAtMs =>
      cases hstep
      exact ⟨hdb.release who, decide_written _ _ _, rfl,
        moves_written hdb h environment changedAtMs⟩
    | done answer => cases hstep
  | fails made =>
    cases stage with
    | lockBinding =>
      cases hstep
      exact ⟨hdb.release who, trivial, rfl, moves_release db who environment⟩
    | bind_ =>
      cases hstep
      exact ⟨hdb.release who, trivial, rfl, moves_release db who environment⟩
    | commit changedAtMs =>
      cases hstep
      refine ⟨hdb.release who, trivial, rfl, ?_⟩
      cases made with
      | true => exact moves_written hdb h environment changedAtMs
      | false => exact moves_release db who environment
    | done answer => cases hstep

/-- What another call relies on, a step leaves alone. -/
theorem Moves.others {other : Nat} {environment : Environment} (h : Moves db v who environment)
    (hne : other ≠ who) (hrelies : Relies db other client) : Relies v other client := by
  have hholds : Holding db other → Holding v other := by
    intro hheld
    obtain ⟨hlocked, hrow⟩ := h.spares other hne hheld.locked
    refine ⟨hlocked, ?_⟩
    rw [hrow]
    exact hheld.unbound
  obtain ⟨environment, stage⟩ := client
  cases stage with
  | lockBinding => trivial
  | bind_ => exact hholds hrelies
  | commit changedAtMs => exact hholds hrelies
  | done answer =>
    cases answer with
    | none => trivial
    | some answer => exact h.stays.decides hrelies

theorem crowd_keeps : crowd.Keeps (fun db => db.locks.Sole) Relies fun _ _ _ _ => True where
  enters _ _ _ := trivial
  own hdb h _ hstep :=
    have hmoves := step_moves hdb h hstep
    ⟨hmoves.1, hmoves.2.1⟩
  others hdb h _ hstep hne hrelies := (step_moves hdb h hstep).2.2.2.others hne hrelies

theorem reached_holds (row : ControlRow) (ops : List Op) :
    Crowd.Holds (fun db => db.locks.Sole) Relies (reached row ops) := by
  refine Crowd.keeps_run crowd_keeps ⟨?_, ?_⟩ Crowd.takes_any
  · intro a b lock ha
    cases ha
  · intro who client hclient
    simp at hclient

/-- The environment of a row is the one it had, or a call's. -/
def Asked (row : ControlRow) (s : Scene) : Prop :=
  s.world.row.environment = row.environment ∨
    ∃ (who : Nat) (client : Client), s.members[who]? = some client ∧
      s.world.row.environment = some client.environment.asStr

theorem asked_next {row : ControlRow} {s : Scene}
    (hs : Crowd.Holds (fun db => db.locks.Sole) Relies s) (h : Asked row s) (op : Op) :
    Asked row (crowd.machine.next s op) := by
  cases op with
  | enters environment =>
    obtain hrow | ⟨who, client, hclient, hrow⟩ := h
    · exact .inl hrow
    · refine .inr ⟨who, client, ?_, hrow⟩
      have hold := (List.getElem?_eq_some_iff.mp hclient).1
      exact (List.getElem?_append_left hold).trans hclient
  | acts who choice =>
    obtain ⟨stays, -⟩ | ⟨client, v, next, hclient, hstep, hnext⟩ :=
      Crowd.acts_cases crowd s who choice
    · rw [stays]
      exact h
    · rw [hnext]
      obtain ⟨-, -, hsame, hmoves⟩ := step_moves hs.world (hs.members hclient) hstep
      have hinside := (List.getElem?_eq_some_iff.mp hclient).1
      have hself : (s.members.set who next)[who]? = some next := List.getElem?_set_self hinside
      obtain hkept | hbound := hmoves.asked
      · obtain hrow | ⟨other, last, hlast, hrow⟩ := h
        · exact .inl (hkept.trans hrow)
        · right
          by_cases hother : who = other
          · rw [← hother, hclient] at hlast
            refine ⟨who, next, hself, ?_⟩
            rw [hsame, Option.some.inj hlast]
            exact hkept.trans hrow
          · exact ⟨other, last, (List.getElem?_set_ne hother).trans hlast, hkept.trans hrow⟩
      · refine .inr ⟨who, next, hself, ?_⟩
        rw [hsame]
        exact hbound

theorem reached_asked (row : ControlRow) (ops : List Op) : Asked row (reached row ops) := by
  induction ops using List.reverseRecOn with
  | nil => exact .inl rfl
  | append_singleton past op ih =>
    rw [reached, Machine.run_snoc]
    exact asked_next (reached_holds row past) ih op

theorem stays_steps (h : Relation.ReflTransGen (fun w w' : Database => Stays w.row w'.row) db v) :
    Stays db.row v.row := by
  induction h with
  | refl => exact stays_refl _
  | tail _ hstep ih => exact ih.trans hstep

theorem stays_later (row : ControlRow) (ops later : List Op) :
    Stays (reached row ops).world.row (reached row (ops ++ later)).world.row := by
  rw [reached, reached, Machine.run_append]
  apply stays_steps
  apply Crowd.run_relates (fun db => stays_refl db.row) ?_ crowd_keeps (reached_holds row ops)
    Crowd.takes_any
  intro who choice w w' p q hdb h _ hstep
  exact (step_moves hdb h hstep).2.2.2.stays

/-- A store keeps the environment it was bound to for life. Whatever the order of the
statements of any number of calls, and whichever of them fail: a bound store stays
bound, to an environment that some call asked for; and an answer, once given, is right
ever after, so that no two calls were told they bound the store differently. -/
theorem bound_for_life (row : ControlRow) (ops later : List Op) :
    let scene := reached row ops
    let last := (reached row (ops ++ later)).world.row
    Stays scene.world.row last ∧ Asked row scene ∧
      (∀ (who : Nat) (environment : Environment) (answer : Except StorageError Unit),
        scene.members[who]? = some ⟨environment, .done (some answer)⟩ →
          decide_ last environment = some answer) ∧
      ∀ (who : Nat) (environment : Environment),
        scene.members[who]? = some ⟨environment, .done (some (.ok ()))⟩ →
          last.environment = some environment.asStr := by
  intro scene last
  have hstays : Stays scene.world.row last := stays_later row ops later
  have hanswers : ∀ (who : Nat) (environment : Environment) (answer : Except StorageError Unit),
      scene.members[who]? = some ⟨environment, .done (some answer)⟩ →
        decide_ last environment = some answer := by
    intro who environment answer hclient
    have hrelies := (reached_holds row ops).members hclient
    exact hstays.decides hrelies
  refine ⟨hstays, reached_asked row ops, hanswers, ?_⟩
  intro who environment hclient
  exact decide_ok (hanswers who environment (.ok ()) hclient)

/-- The second call waits for the row, and is then told that the store is bound. -/
example :
    let row : ControlRow := ⟨"0123456789abcdef0123456789abcdef", none, 0⟩
    let ops : List Op := [.enters .testnet, .enters .mainnet, .acts 0 (.runs 1), .acts 1 (.runs 2),
      .acts 0 (.runs 3), .acts 0 (.runs 4)]
    (reached row ops).world.row = ⟨row.storeId, some "testnet", 3⟩ ∧
      decide_ (reached row ops).world.row .mainnet = some (.error (.invalidArgument
        ("store 0123456789abcdef0123456789abcdef is bound to testnet; a store keeps its " ++
          "environment for life"))) := by
  decide +kernel

end Postgres.Binding

end QuantForge
