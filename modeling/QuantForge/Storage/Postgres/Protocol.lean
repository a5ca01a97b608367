import QuantForge.Framework.Crowd
import QuantForge.Storage.Postgres.Agreement
import QuantForge.Storage.Sqlite.Interleaving

namespace QuantForge.Postgres.Protocol

open Refresh
open Sqlite (CandleTable Consistent Faithful Mark Marks Taken)

/-- What an open transaction holds: a row that it locked, or a number that it
drew for a mark, which nobody draws again. -/
inductive Lock
  | candle (openTimeMs : Int64)
  | mark (windowStartMs : Int64)
  | entry (windowStartMs : Int64)
  | segment (hash : List UInt8)
  | number (id : Nat)
  deriving DecidableEq

/-- The rows as they are committed, beside the next number of the marks'
sequence, and what the open transactions hold. -/
structure Database where
  committed : Sqlite.Store
  locks : Locks Lock

namespace Database

def empty : Database := ⟨Sqlite.Store.empty, []⟩

def lock (db : Database) (who : Nat) (l : Lock) : Database :=
  { db with locks := (who, l) :: db.locks }

/-- Draws a number, which no rollback returns. -/
def draw (db : Database) (who : Nat) : Database where
  committed := { db.committed with nextId := db.committed.nextId + 1 }
  locks := (who, .number db.committed.nextId) :: db.locks

def rollback (db : Database) (who : Nat) : Database := { db with locks := db.locks.release who }

def commit (db : Database) (who : Nat) (rows : Sqlite.Store) : Database :=
  ⟨rows, db.locks.release who⟩

end Database

/-- What is left of a writer's transaction: rows of its upsert, then windows to
mark, the first of them beside the number drawn for it. -/
inductive Pending
  | upsert (rows : List TextCandle)
  | mark (windows : List Int64) (drawn : Option Nat)

/-- A writer's transaction, and the rows it wrote so far. -/
structure Writer where
  batch : Batch
  pending : Pending
  written : List TextCandle
  marked : List Mark

/-- The next statement of a write-back. `inserted` once the segment it stores
was not there. -/
inductive Stage
  | lockMark
  | store
  | index (inserted : Bool)
  | unmark (inserted : Bool)
  | commit (inserted : Bool)

/-- A writer, or a refresh at one window: it reads it, packs what it read, and
writes that back. -/
inductive Client
  | writer (w : Writer)
  | reads (window : Segments.Window)
  | packs (taken : Taken)
  | writesBack (taken : Taken) (packed : Packed) (stage : Stage)
  | done

namespace Writer

/-- The next row of the upsert. It waits for the row's lock, and then changes
the row that is committed by then, if a column differs. -/
def upsertRow (db : Database) (who : Nat) (w : Writer) (row : TextCandle)
    (rows : List TextCandle) : Option (Database × Client) :=
  if db.locks.free who (.candle row.openTimeMs) then
    let written :=
      if db.committed.candles.find row.openTimeMs.toInt = some row then w.written
      else w.written ++ [row]
    some (db.lock who (.candle row.openTimeMs),
      .writer { w with pending := .upsert rows, written := written })
  else none

/-- The windows to mark, from the rows that the upsert returned. -/
def windows (w : Writer) : Except StorageError (Table Int64.toInt) :=
  w.batch.written w.batch.forced (w.written.map (·.openTimeMs))

def startMark (db : Database) (who : Nat) (w : Writer) : Database × Client :=
  match w.windows with
  | .ok windows => (db, .writer { w with pending := .mark windows.rows none })
  | .error _ => (db.rollback who, .done)

/-- Draws the number of the next mark. -/
def drawId (db : Database) (who : Nat) (w : Writer) (windows : List Int64) : Database × Client :=
  (db.draw who, .writer { w with pending := .mark windows (some db.committed.nextId) })

def putMark (w : Writer) (windows : List Int64) (mark : Mark) : Writer :=
  { w with pending := .mark windows none, marked := w.marked ++ [mark] }

/-- The next mark. It waits for the mark's lock, and then inserts a mark with
the number drawn, or gives one that is committed by then the next number. -/
def markRow (db : Database) (who : Nat) (w : Writer) (windowStart : Int64) (windows : List Int64)
    (drawn : Nat) : Option (Database × Client) :=
  if db.locks.free who (.mark windowStart) then
    if (db.committed.markOf windowStart).isSome then
      some ((db.draw who).lock who (.mark windowStart),
        .writer (w.putMark windows ⟨db.committed.nextId, windowStart⟩))
    else
      some (db.lock who (.mark windowStart), .writer (w.putMark windows ⟨drawn, windowStart⟩))
  else none

/-- What the commit makes of the rows. -/
def committed (rows : Sqlite.Store) (w : Writer) : Sqlite.Store :=
  { rows with
    candles := w.written.foldl Table.put rows.candles
    dirty := w.marked.foldl Table.put rows.dirty }

def runs (db : Database) (who : Nat) (w : Writer) : Option (Database × Client) :=
  match w.pending with
  | .upsert [] => some (w.startMark db who)
  | .upsert (row :: rows) => w.upsertRow db who row rows
  | .mark [] _ => some (db.commit who (w.committed db.committed), .done)
  | .mark (windowStart :: windows) none => some (w.drawId db who (windowStart :: windows))
  | .mark (windowStart :: windows) (some drawn) => w.markRow db who windowStart windows drawn

end Writer

/-- What a write-back does once it holds the mark. -/
def begins : Packed → Stage
  | .write .. => .store
  | .keep => .unmark false
  | .clear => .index false

/-- What the commit of a write-back makes of the rows. -/
def writtenBack (rows : Sqlite.Store) (taken : Taken) (inserted : Bool) : Packed → Sqlite.Store
  | .write hash payloadLen stored firstOpenMs lastOpenMs barCount =>
    let segment := ⟨hash, Segments.format, payloadLen, stored⟩
    let entry := ⟨taken.window.start, firstOpenMs, lastOpenMs, barCount, hash⟩
    { rows with
      segments := if inserted then rows.segments ++ [segment] else rows.segments
      index := rows.index.put entry }.unmark taken.snapshot.id
  | .keep => rows.unmark taken.snapshot.id
  | .clear =>
    { rows with index := rows.index.erase taken.window.start.toInt }.unmark taken.snapshot.id

namespace WriteBack

/-- Waits for the mark's lock, and goes on only with the mark that was read. A
mark that was deleted meanwhile ends the write-back, also where it was inserted
anew. -/
def lockMark (db : Database) (who : Nat) (taken : Taken) (packed : Packed) :
    Option (Database × Client) :=
  if db.locks.free who (.mark taken.window.start) then
    match db.committed.markOf taken.window.start with
    | none => some (db.rollback who, .done)
    | some current =>
      if current.id ≠ taken.snapshot.id then some (db.rollback who, .done)
      else some (db.lock who (.mark taken.window.start), .writesBack taken packed (begins packed))
  else none

/-- Inserts the segment unless one of its name is there, once no transaction is
left that inserts it too. -/
def store (db : Database) (who : Nat) (taken : Taken) (packed : Packed) :
    Option (Database × Client) :=
  match packed with
  | .write hash .. =>
    if db.locks.free who (.segment hash) then
      if (db.committed.segment hash).isSome then some (db, .writesBack taken packed (.index false))
      else some (db.lock who (.segment hash), .writesBack taken packed (.index true))
    else none
  | _ => none

end WriteBack

def Stage.runs (db : Database) (who : Nat) (taken : Taken) (packed : Packed) :
    Stage → Option (Database × Client)
  | .lockMark => WriteBack.lockMark db who taken packed
  | .store => WriteBack.store db who taken packed
  | .index inserted =>
    if db.locks.free who (.entry taken.window.start) then
      some (db.lock who (.entry taken.window.start), .writesBack taken packed (.unmark inserted))
    else none
  | .unmark inserted => some (db, .writesBack taken packed (.commit inserted))
  | .commit inserted => some (db.commit who (writtenBack db.committed taken inserted packed), .done)

/-- A call: a batch to write, or a window for a refresh to build. -/
inductive Call
  | upsertCandles (candles : List Candle)
  | buildWindow (windowStartMs : Int64)

def Client.enter (interval : Interval) : Call → Client
  | .upsertCandles candles =>
    if candles.isEmpty then .done
    else
      match Batch.of interval candles with
      | .ok batch => .writer ⟨batch, .upsert (batch.rows.rows.map (·.candle)), [], []⟩
      | .error _ => .done
  | .buildWindow windowStartMs =>
    match Segments.window interval windowStartMs with
    | some window => .reads window
    | none => .done

/-- Whether a client's next statement runs, or the client is gone: refused,
cut off, or given up. -/
inductive Choice
  | runs
  | fails

section

variable [DecimalParser] [Sha256] [Segments.Zstd]

/-- The next statement of a client, unless it waits for a lock. -/
def Client.runs (db : Database) (who : Nat) : Client → Option (Database × Client)
  | .writer w => w.runs db who
  | .reads window =>
    match db.committed.readWindow window with
    | none => some (db, .done)
    | some snapshot => some (db, .packs ⟨window, snapshot⟩)
  | .packs taken =>
    match pack taken.snapshot with
    | .error _ => some (db, .done)
    | .ok packed => some (db, .writesBack taken packed .lockMark)
  | .writesBack taken packed stage => stage.runs db who taken packed
  | .done => none

/-- Any number of writers and refreshes of one market, one statement at a time,
a statement of many rows one row at a time. -/
def crowd (interval : Interval) : Crowd Database Client Call Choice where
  enter := Client.enter interval
  step who
    | .runs, db, client => client.runs db who
    | .fails, db, _ => some (db.rollback who, .done)

end

/-- What a refresh read still stands: it is what the window holds, as long as
its mark does, and nobody may mark a window with that number. -/
structure Stands (interval : Interval) (db : Database) (taken : Taken) : Prop where
  faithful : Faithful interval db.committed taken.window taken.snapshot
  spent : ∀ other, (other, .number taken.snapshot.id) ∉ db.locks

/-- What a client's step leaves to the other clients. -/
structure Leaves (interval : Interval) (db v : Database) (who : Nat) : Prop where
  locks : ∀ other, other ≠ who → ∀ l, (other, l) ∈ db.locks → (other, l) ∈ v.locks
  candles : ∀ t : Int64, (who, .candle t) ∈ db.locks ∨
    v.committed.candles.find t.toInt = db.committed.candles.find t.toInt
  marks : ∀ start, (who, .mark start) ∈ db.locks ∨
    v.committed.markOf start = db.committed.markOf start
  stored : ∀ hash found, db.committed.segment hash = some found →
    v.committed.segment hash = some found
  unstored : ∀ hash, (who, .segment hash) ∈ db.locks ∨
    (db.committed.segment hash = none → v.committed.segment hash = none)
  stands : ∀ taken, Stands interval db taken → Stands interval v taken

/-- The rows of an upsert that change what is stored. -/
def changes (candles : CandleTable) (rows : List TextCandle) : List TextCandle :=
  rows.filter fun row => candles.find row.openTimeMs.toInt ≠ some row

theorem changes_snoc (candles : CandleTable) (rows : List TextCandle) (row : TextCandle) :
    changes candles (rows ++ [row]) =
      if candles.find row.openTimeMs.toInt = some row then changes candles rows
      else changes candles rows ++ [row] := by
  rw [changes, changes, List.filter_append, List.filter_singleton]
  split_ifs with hsame <;> simp [hsame]

def Pending.rows : Pending → List TextCandle
  | .upsert rows => rows
  | .mark .. => []

/-- How far a writer's marks are: those put and those to put are the windows
that the batch changes. -/
def Marking (db : Database) (who : Nat) (w : Writer) : Pending → Prop
  | .upsert _ => w.marked = []
  | .mark windows drawn =>
    (∃ all, w.windows = .ok all ∧ w.marked.map (·.windowStartMs) ++ windows = all.rows) ∧
      ∀ n, drawn = some n → (who, .number n) ∈ db.locks ∧ ∀ m ∈ w.marked, m.id ≠ n

/-- A writer's transaction holds what it upserted and what it marked, and has
written the rows that differ from those committed. -/
structure Writing (interval : Interval) (db : Database) (who : Nat) (w : Writer) : Prop where
  batch : ∃ candles : List Candle, candles.isEmpty = false ∧ Batch.of interval candles = .ok w.batch
  upserted : ∃ rows, rows ++ w.pending.rows = w.batch.rows.rows.map (·.candle) ∧
    w.written = changes db.committed.candles rows ∧
    ∀ row ∈ rows, (who, .candle row.openTimeMs) ∈ db.locks
  marked : ∀ m ∈ w.marked, (who, .mark m.windowStartMs) ∈ db.locks ∧
    (who, .number m.id) ∈ db.locks
  ids : ∀ m ∈ w.marked, ∀ n ∈ w.marked, m.id = n.id → m = n
  marking : Marking db who w w.pending

/-- A write-back holds the mark that its refresh read. -/
structure Holding (db : Database) (who : Nat) (taken : Taken) : Prop where
  lock : (who, .mark taken.window.start) ∈ db.locks
  mark : ∃ m, db.committed.markOf taken.window.start = some m ∧ m.id = taken.snapshot.id

/-- A segment is inserted where none of its name is, and nobody else inserts it. -/
def Storing (db : Database) (who : Nat) (inserted : Bool) : Packed → Prop
  | .write hash .. =>
    if inserted then (who, .segment hash) ∈ db.locks ∧ db.committed.segment hash = none
    else (db.committed.segment hash).isSome
  | _ => True

def Staged (db : Database) (who : Nat) (taken : Taken) (packed : Packed) : Stage → Prop
  | .lockMark => True
  | .store => Holding db who taken
  | .index inserted | .unmark inserted | .commit inserted =>
    Holding db who taken ∧ Storing db who inserted packed

section

variable [DecimalParser] [Sha256] [Segments.Zstd]

structure WritingBack (interval : Interval) (payloads : Set (List UInt8)) (db : Database) (who : Nat)
    (taken : Taken) (packed : Packed) (stage : Stage) : Prop where
  stands : Stands interval db taken
  packs : pack taken.snapshot = .ok packed
  met : ∀ payload, Segments.encodeText taken.snapshot.candles = .ok payload → payload ∈ payloads
  staged : Staged db who taken packed stage

/-- What a client relies on. -/
def Relies (interval : Interval) (payloads : Set (List UInt8)) (db : Database) (who : Nat) :
    Client → Prop
  | .writer w => Writing interval db who w
  | .reads window => window.Of interval
  | .packs taken => Stands interval db taken
  | .writesBack taken packed stage => WritingBack interval payloads db who taken packed stage
  | .done => True

/-- The committed rows are consistent, and of the numbers that are held, each is
one client's, was drawn, and marks no window yet. -/
structure Sound (interval : Interval) (payloads : Set (List UInt8)) (db : Database) : Prop where
  consistent : Consistent interval payloads db.committed
  sole : db.locks.Sole
  drawn : ∀ who n, (who, .number n) ∈ db.locks → n < db.committed.nextId
  unused : ∀ who n, (who, .number n) ∈ db.locks → ∀ m ∈ db.committed.dirty.rows, m.id ≠ n

variable {interval : Interval} {payloads : Set (List UInt8)} {db v : Database} {who other : Nat}

/-- Nobody holds a number of a mark that is committed. -/
theorem Sound.stands {window : Segments.Window} {snapshot : Snapshot}
    (h : Sound interval payloads db) (hw : window.Of interval)
    (hread : db.committed.readWindow window = some snapshot) :
    Stands interval db ⟨window, snapshot⟩ := by
  refine ⟨Sqlite.readWindow_faithful h.consistent.marks hw hread, ?_⟩
  intro other hheld
  obtain ⟨m, hm, hsnapshot⟩ := Option.map_eq_some_iff.mp hread
  apply h.unused other _ hheld m (Sqlite.Store.markOf_some.mp hm).1
  rw [← hsnapshot]

omit [DecimalParser] [Sha256] [Segments.Zstd] in
theorem Leaves.marking (h : Leaves interval db v who) (hne : other ≠ who) {w : Writer}
    {pending : Pending} (hm : Marking db other w pending) : Marking v other w pending := by
  cases pending with
  | upsert rows => exact hm
  | mark windows drawn =>
    obtain ⟨hall, hdrawn⟩ := hm
    refine ⟨hall, ?_⟩
    intro n hn
    obtain ⟨held, hnew⟩ := hdrawn n hn
    exact ⟨h.locks other hne _ held, hnew⟩

section Others

variable (hdb : Sound interval payloads db) (h : Leaves interval db v who) (hne : other ≠ who)
include hdb h hne

/-- A row that another client locked stays as it was. -/
theorem Leaves.candle {t : Int64} (held : (other, .candle t) ∈ db.locks) :
    v.committed.candles.find t.toInt = db.committed.candles.find t.toInt := by
  apply (h.candles t).resolve_left
  intro mine
  exact hne (hdb.sole held mine)

theorem Leaves.mark {start : Int64} (held : (other, .mark start) ∈ db.locks) :
    v.committed.markOf start = db.committed.markOf start := by
  apply (h.marks start).resolve_left
  intro mine
  exact hne (hdb.sole held mine)

theorem Leaves.writing {w : Writer} (hw : Writing interval db other w) :
    Writing interval v other w := by
  obtain ⟨rows, hrows, hwritten, hlocked⟩ := hw.upserted
  refine ⟨hw.batch, ⟨rows, hrows, ?_, ?_⟩, ?_, hw.ids, h.marking hne hw.marking⟩
  · rw [hwritten]
    apply List.filter_congr
    intro row hrow
    rw [h.candle hdb hne (hlocked row hrow)]
  · intro row hrow
    exact h.locks other hne _ (hlocked row hrow)
  · intro m hm
    obtain ⟨hmark, hnumber⟩ := hw.marked m hm
    exact ⟨h.locks other hne _ hmark, h.locks other hne _ hnumber⟩

theorem Leaves.holding {taken : Taken} (hh : Holding db other taken) : Holding v other taken := by
  refine ⟨h.locks other hne _ hh.lock, ?_⟩
  rw [h.mark hdb hne hh.lock]
  exact hh.mark

theorem Leaves.storing {inserted : Bool} {packed : Packed} (hs : Storing db other inserted packed) :
    Storing v other inserted packed := by
  cases packed with
  | write hash payloadLen stored firstOpenMs lastOpenMs barCount =>
    cases inserted with
    | true =>
      obtain ⟨held, hnone⟩ := hs
      refine ⟨h.locks other hne _ held, ?_⟩
      exact (h.unstored hash).resolve_left (fun mine => hne (hdb.sole held mine)) hnone
    | false =>
      obtain ⟨found, hfound⟩ := Option.isSome_iff_exists.mp hs
      exact Option.isSome_iff_exists.mpr ⟨found, h.stored hash found hfound⟩
  | keep => trivial
  | clear => trivial

theorem Leaves.staged {taken : Taken} {packed : Packed} {stage : Stage}
    (hs : Staged db other taken packed stage) : Staged v other taken packed stage := by
  cases stage with
  | lockMark => trivial
  | store => exact h.holding hdb hne hs
  | index inserted => exact ⟨h.holding hdb hne hs.1, h.storing hdb hne hs.2⟩
  | unmark inserted => exact ⟨h.holding hdb hne hs.1, h.storing hdb hne hs.2⟩
  | commit inserted => exact ⟨h.holding hdb hne hs.1, h.storing hdb hne hs.2⟩

/-- What the other clients rely on stands. -/
theorem Leaves.relies {client : Client} (hr : Relies interval payloads db other client) :
    Relies interval payloads v other client := by
  cases client with
  | writer w => exact h.writing hdb hne hr
  | reads window => exact hr
  | packs taken => exact h.stands taken hr
  | writesBack taken packed stage =>
    exact ⟨h.stands taken hr.stands, hr.packs, hr.met, h.staged hdb hne hr.staged⟩
  | done => trivial

end Others

end

/-- A step that commits no row: it takes locks or gives them back, and draws
numbers. -/
structure Quiet (db v : Database) (who : Nat) : Prop where
  rows : v.committed = { db.committed with nextId := v.committed.nextId }
  next : db.committed.nextId ≤ v.committed.nextId
  locks : ∀ other, other ≠ who → ∀ l, (other, l) ∈ db.locks → (other, l) ∈ v.locks
  sole : db.locks.Sole → v.locks.Sole
  numbers : ∀ other n, (other, .number n) ∈ v.locks → (other, .number n) ∈ db.locks ∨
    db.committed.nextId ≤ n ∧ n < v.committed.nextId

namespace Quiet

variable {db v u : Database} {who : Nat} {l : Lock}

theorem refl (db : Database) (who : Nat) : Quiet db db who :=
  ⟨rfl, le_rfl, fun _ _ _ h => h, id, fun _ _ h => .inl h⟩

theorem trans (h : Quiet db v who) (hu : Quiet v u who) : Quiet db u who := by
  refine ⟨?_, h.next.trans hu.next, ?_, fun hs => hu.sole (h.sole hs), ?_⟩
  · rw [hu.rows, h.rows]
  · intro other hne l hl
    exact hu.locks other hne l (h.locks other hne l hl)
  · intro other n hn
    have hnext := h.next
    have hlast := hu.next
    rcases hu.numbers other n hn with hv | hnew
    · rcases h.numbers other n hv with hdb | hnew
      · exact .inl hdb
      · exact .inr (by omega)
    · exact .inr (by omega)

theorem lock (hfree : db.locks.free who l = true) (hl : ∀ n, l ≠ .number n) :
    Quiet db (db.lock who l) who := by
  refine ⟨rfl, le_rfl, fun _ _ _ h => List.mem_cons_of_mem _ h, fun h => h.take hfree, ?_⟩
  intro other n hn
  rcases List.mem_cons.mp hn with hsame | hold
  · exact absurd (Prod.mk.inj hsame).2.symm (hl n)
  · exact .inl hold

theorem draw (hdrawn : ∀ other n, (other, .number n) ∈ db.locks → n < db.committed.nextId) :
    Quiet db (db.draw who) who := by
  refine ⟨rfl, Nat.le_succ _, fun _ _ _ h => List.mem_cons_of_mem _ h, ?_, ?_⟩
  · intro h
    apply h.take
    rw [Locks.free_iff]
    intro other hother
    exact absurd (hdrawn other _ hother) (lt_irrefl _)
  · intro other n hn
    rcases List.mem_cons.mp hn with hsame | hold
    · rw [Lock.number.inj (Prod.mk.inj hsame).2]
      exact .inr ⟨le_rfl, Nat.lt_succ_self _⟩
    · exact .inl hold

theorem rollback (db : Database) (who : Nat) : Quiet db (db.rollback who) who := by
  refine ⟨rfl, le_rfl, ?_, fun h => h.release who, ?_⟩
  · intro other hne l hl
    exact Locks.mem_release.mpr ⟨hl, hne⟩
  · intro other n hn
    exact .inl (Locks.mem_release.mp hn).1

variable (h : Quiet db v who)
include h

theorem markOf (start : Int64) : v.committed.markOf start = db.committed.markOf start := by
  rw [h.rows]
  rfl

theorem candles : v.committed.candles = db.committed.candles := by rw [h.rows]

theorem segment (hash : List UInt8) : v.committed.segment hash = db.committed.segment hash := by
  rw [h.rows]
  rfl

theorem stands {interval : Interval} {taken : Taken} (hs : Stands interval db taken) :
    Stands interval v taken := by
  have hid := hs.faithful.id
  refine ⟨⟨hs.faithful.window, hid.trans_le h.next, ?_⟩, ?_⟩
  · intro m hm hsame
    rw [h.markOf] at hm
    rw [h.rows]
    exact hs.faithful.shows m hm hsame
  · intro other held
    rcases h.numbers other _ held with hold | hnew
    · exact hs.spent other hold
    · omega

theorem leaves (interval : Interval) : Leaves interval db v who := by
  refine ⟨h.locks, ?_, fun start => .inr (h.markOf start), ?_, ?_, fun taken hs => h.stands hs⟩
  · intro t
    rw [h.candles]
    exact .inr rfl
  · intro hash found hfound
    rw [h.segment, hfound]
  · intro hash
    rw [h.segment]
    exact .inr id

theorem sound [DecimalParser] [Sha256] [Segments.Zstd] {interval : Interval}
    {payloads : Set (List UInt8)} (hdb : Sound interval payloads db) :
    Sound interval payloads v := by
  have hs := hdb.consistent
  have hnext := h.next
  refine ⟨?_, h.sole hdb.sole, ?_, ?_⟩
  · rw [h.rows]
    refine ⟨⟨hs.marks.starts, ?_, hs.marks.distinct⟩, hs.placed, hs.segments, ?_, ?_⟩
    · intro m hm
      exact (hs.marks.fresh m hm).trans_le hnext
    · intro e he
      obtain ⟨w, hw, hstart, candles, hdescribes⟩ := hs.entries e he
      exact ⟨w, hw, hstart, candles, hdescribes.mono fun _ _ hfound => hfound⟩
    · intro w hw hnone
      exact (hs.current w hw hnone).mono rfl fun _ _ hfound => hfound
  · intro other n hn
    rcases h.numbers other n hn with hold | hnew
    · exact (hdb.drawn other n hold).trans_le hnext
    · exact hnew.2
  · intro other n hn m hm
    rw [h.rows] at hm
    rcases h.numbers other n hn with hold | hnew
    · exact hdb.unused other n hold m hm
    · have hlt := hs.marks.fresh m hm
      omega

end Quiet

end QuantForge.Postgres.Protocol
