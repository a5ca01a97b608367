import QuantForge.Storage.Postgres.Plans

namespace QuantForge.Postgres.Protocol

open Refresh
open Sqlite (Marks Taken)

/-- What a call does to a SQLite store from its start to its end. -/
def Call.serially [DecimalParser] [Sha256] [Segments.Zstd] (interval : Interval) (s : Sqlite.Store) :
    Call → Sqlite.Store
  | .upsertCandles candles =>
    match s.upsertCandles interval candles with
    | .ok (_, written) => written
    | .error _ => s
  | .buildWindow windowStartMs =>
    ((Refresh.buildWindow interval windowStartMs : Prog Sqlite.Store StorageError Built) s).2

/-- A client whose next statement is its commit. -/
def Client.commits : Client → Bool
  | .writer ⟨_, .mark [] _, _, _⟩ => true
  | .writesBack _ _ (.commit _) => true
  | _ => false

/-- The client that a step commits. -/
def committing (s : Scene) : Op → Option Nat
  | .acts who .runs => if s.members[who]?.any Client.commits then some who else none
  | _ => none

/-- Rows that differ in nothing but the numbers of their marks. -/
structure Alike (s p : Sqlite.Store) : Prop where
  candles : p.candles = s.candles
  index : p.index = s.index
  segments : p.segments = s.segments
  marked : ∀ start, (p.markOf start).isSome = (s.markOf start).isSome

namespace Alike

variable {interval : Interval} {s p : Sqlite.Store} (h : Alike s p)
include h

theorem entryOf (start : Int64) : p.entryOf start = s.entryOf start := by
  rw [Sqlite.Store.entryOf, h.index]
  rfl

theorem segment (hash : List UInt8) : p.segment hash = s.segment hash := by
  rw [Sqlite.Store.segment, h.segments]
  rfl

/-- The same windows are marked, in the same order. -/
theorem starts : p.dirty.rows.map (·.windowStartMs) = s.dirty.rows.map (·.windowStartMs) := by
  have hrising : ∀ t : Sqlite.Store, (t.dirty.rows.map (·.windowStartMs)).Pairwise
      fun a b => a.toInt < b.toInt := by
    intro t
    exact List.pairwise_map.mpr t.dirty.rising
  have hmem : ∀ (t : Sqlite.Store) (start : Int64),
      start ∈ t.dirty.rows.map (·.windowStartMs) ↔ (t.markOf start).isSome = true := by
    intro t start
    rw [List.mem_map, Option.isSome_iff_exists]
    exact exists_congr fun m => Sqlite.Store.markOf_some.symm
  apply Table.rising_ext (hrising p) (hrising s)
  intro start
  rw [hmem, hmem, h.marked]

theorem lowest : p.dirty.lowest.map (·.windowStartMs) = s.dirty.lowest.map (·.windowStartMs) := by
  have hstarts := congrArg List.head? h.starts
  rw [List.head?_map, List.head?_map] at hstarts
  exact hstarts

theorem tipWindow : p.tipWindow interval = s.tipWindow interval := by
  rw [Sqlite.Store.tipWindow, h.candles]
  rfl

/-- A plan reads no number of a mark. -/
theorem resolveSegments (firstOpenMs lastOpenMs : Int64) :
    p.resolveSegments interval firstOpenMs lastOpenMs =
      s.resolveSegments interval firstOpenMs lastOpenMs := by
  have href : p.segmentRef = s.segmentRef := by
    funext entry
    rw [Sqlite.Store.segmentRef, h.segment]
    rfl
  rw [Sqlite.Store.resolveSegments, h.tipWindow, h.lowest, h.index, href]
  rfl

theorem loadCandles [DecimalParser] (query : CandleQuery) :
    p.loadCandles query = s.loadCandles query := by
  rw [Sqlite.Store.loadCandles, Sqlite.Store.select, h.candles]
  rfl

end Alike

/-- A client is at the call that it entered with. -/
def Serves (interval : Interval) (call : Call) : Client → Prop
  | .writer w => ∃ candles, call = .upsertCandles candles ∧ candles.isEmpty = false ∧
      Batch.of interval candles = .ok w.batch
  | .reads window | .packs ⟨window, _⟩ | .writesBack ⟨window, _⟩ _ _ =>
    ∃ windowStartMs, call = .buildWindow windowStartMs ∧
      Segments.window interval windowStartMs = some window
  | .done => True

section

variable [DecimalParser] [Sha256] [Segments.Zstd] {interval : Interval}
  {payloads : Set (List UInt8)} {db : Database} {who : Nat} {s : Sqlite.Store} {call : Call}

omit [DecimalParser] [Sha256] [Segments.Zstd] in
theorem enter_serves (call : Call) : Serves interval call (Client.enter interval call) := by
  cases call with
  | upsertCandles candles =>
    cases hempty : candles.isEmpty with
    | true =>
      rw [Client.enter, if_pos hempty]
      trivial
    | false =>
      rw [Client.enter, if_neg (by simp [hempty])]
      cases hbatch : Batch.of interval candles with
      | error error => trivial
      | ok batch => exact ⟨candles, rfl, hempty, hbatch⟩
  | buildWindow windowStartMs =>
    rw [Client.enter]
    cases hwindow : Segments.window interval windowStartMs with
    | none => trivial
    | some window => exact ⟨windowStartMs, rfl, hwindow⟩

/-- What a statement does to the committed rows: nothing but draw numbers, unless
it is a commit, which ends its client. -/
theorem runs_cases (interval : Interval) {client next : Client} {v : Database}
    (h : client.runs db who = some (v, next)) :
    (client.commits = false ∧ v.committed = { db.committed with nextId := v.committed.nextId } ∧
        ∀ call, Serves interval call client → Serves interval call next) ∨
      client.commits = true ∧ next = .done ∧
        ((∃ w drawn, client = .writer w ∧ w.pending = .mark [] drawn ∧
            v = db.commit who (w.committed db.committed)) ∨
          ∃ taken packed inserted, client = .writesBack taken packed (.commit inserted) ∧
            v = db.commit who (writtenBack db.committed taken inserted packed)) := by
  have hstays : ∀ call, Serves interval call client → Serves interval call client := fun _ hs => hs
  have hended : ∀ call, Serves interval call client → Serves interval call .done :=
    fun _ _ => trivial
  cases client with
  | writer w =>
    obtain ⟨batch, pending, written, marked⟩ := w
    cases pending with
    | upsert rows =>
      cases rows with
      | nil =>
        simp only [Client.runs, Writer.runs, Writer.startMark] at h
        split at h <;> cases h
        · exact .inl ⟨rfl, rfl, hstays⟩
        · exact .inl ⟨rfl, rfl, hended⟩
      | cons row rows =>
        simp only [Client.runs, Writer.runs, Writer.upsertRow] at h
        split at h <;> cases h
        exact .inl ⟨rfl, rfl, hstays⟩
    | mark windows drawn =>
      cases windows with
      | nil =>
        cases h
        exact .inr ⟨rfl, rfl, .inl ⟨_, drawn, rfl, rfl, rfl⟩⟩
      | cons windowStart windows =>
        cases drawn with
        | none =>
          cases h
          exact .inl ⟨rfl, rfl, hstays⟩
        | some drawn =>
          simp only [Client.runs, Writer.runs, Writer.markRow] at h
          split_ifs at h
          · cases h
            exact .inl ⟨rfl, rfl, hstays⟩
          · cases h
            exact .inl ⟨rfl, rfl, hstays⟩
  | reads window =>
    simp only [Client.runs] at h
    split at h <;> cases h
    · exact .inl ⟨rfl, rfl, hended⟩
    · exact .inl ⟨rfl, rfl, hstays⟩
  | packs taken =>
    simp only [Client.runs] at h
    split at h <;> cases h
    · exact .inl ⟨rfl, rfl, hended⟩
    · exact .inl ⟨rfl, rfl, hstays⟩
  | writesBack taken packed stage =>
    cases stage with
    | lockMark =>
      simp only [Client.runs, Stage.runs, WriteBack.lockMark] at h
      split_ifs at h
      split at h
      · cases h
        exact .inl ⟨rfl, rfl, hended⟩
      · split_ifs at h <;> cases h
        · exact .inl ⟨rfl, rfl, hended⟩
        · refine .inl ⟨?_, rfl, hstays⟩
          cases packed <;> rfl
    | store =>
      simp only [Client.runs, Stage.runs, WriteBack.store] at h
      split at h
      · split_ifs at h <;> cases h
        · exact .inl ⟨rfl, rfl, hstays⟩
        · exact .inl ⟨rfl, rfl, hstays⟩
      · cases h
    | index inserted =>
      simp only [Client.runs, Stage.runs] at h
      split_ifs at h
      cases h
      exact .inl ⟨rfl, rfl, hstays⟩
    | unmark inserted =>
      cases h
      exact .inl ⟨rfl, rfl, hstays⟩
    | commit inserted =>
      cases h
      exact .inr ⟨rfl, rfl, .inr ⟨taken, packed, inserted, rfl, rfl⟩⟩
  | done => cases h

/-- The rows of a SQLite store, its marks sound, and the committed rows alike. -/
structure Tracks (interval : Interval) (s p : Sqlite.Store) : Prop where
  marks : Marks interval s
  alike : Alike s p

omit [DecimalParser] [Sha256] [Segments.Zstd] in
theorem Tracks.draws {p : Sqlite.Store} (h : Tracks interval s p) (nextId : Nat) :
    Tracks interval s { p with nextId := nextId } :=
  ⟨h.marks, h.alike.candles, h.alike.index, h.alike.segments, h.alike.marked⟩

/-- A writer's commit does what its call does. -/
theorem upsert_serially {w : Writer} {drawn : Option Nat} (hw : Writing interval db who w)
    (hp : w.pending = .mark [] drawn) (hserves : Serves interval call (.writer w))
    (h : Tracks interval s db.committed) :
    Tracks interval (call.serially interval s) (w.committed db.committed) := by
  obtain ⟨candles, rfl, hsome, hbatch⟩ := hserves
  obtain ⟨starts, changed, hstarts, hupserted, hmarked⟩ := hw.writes hp hbatch
  have hcandles := h.alike.candles
  let written : Sqlite.Store := { s with candles := (w.committed db.committed).candles }
  have hwhole : s.upsertCandles interval candles =
      .ok (candles.length, written.markDirty changed.rows) := by
    rw [hcandles] at hupserted
    rw [Sqlite.Store.upsertCandles, if_neg (by simp [hsome]), hstarts]
    simp only [bind, Except.bind, hupserted]
    rfl
  have hserial : (Call.upsertCandles candles).serially interval s =
      written.markDirty changed.rows := by
    rw [Call.serially, hwhole]
  obtain ⟨hframe, hindex, hsegments, -⟩ := Sqlite.Store.markDirty_frame written changed.rows
  refine ⟨?_, ?_⟩
  · rw [hserial]
    exact (Sqlite.Store.upsertCandles_ok hwhole).marks h.marks
  · rw [hserial]
    refine ⟨hframe.symm, ?_, ?_, ?_⟩
    · rw [hindex]
      exact h.alike.index
    · rw [hsegments]
      exact h.alike.segments
    · intro start
      rcases markOf_committed hmarked start with ⟨hout, hold⟩ | ⟨hin, m, -, hput⟩
      · rw [hold, Sqlite.Store.markOf_markDirty_of_notMem hout]
        exact h.alike.marked start
      · obtain ⟨n, hn, -⟩ := Sqlite.Store.markOf_markDirty (s := written) hin
        rw [hput, hn]
        rfl

/-- A refresh that is alone packs the window that it reads. -/
theorem buildWindow_alone {windowStartMs : Int64} {window : Segments.Window} {m : Sqlite.Mark}
    {snapshot : Snapshot} {packed : Packed}
    (hwindow : Segments.window interval windowStartMs = some window)
    (hm : s.markOf window.start = some m) (hid : m.id = snapshot.id)
    (hread : s.readWindow window = some snapshot) (hpack : pack snapshot = .ok packed) :
    (Call.buildWindow windowStartMs).serially interval s =
      (s.apply window.start packed).unmark m.id := by
  have hbuild : (Refresh.buildWindow interval windowStartMs : Prog Sqlite.Store StorageError Built) =
      tryWindow window attempts := by
    rw [Refresh.buildWindow, hwindow]
  have hreads : (DirtyWindows.readWindow window : Prog Sqlite.Store StorageError _) s =
      (.ok (some snapshot), s) := by
    show (Except.ok (s.readWindow window), s) = _
    rw [hread]
  have hwrite : s.writeWindow window.start snapshot.id packed =
      (.done, (s.apply window.start packed).unmark m.id) := by
    rw [Sqlite.Store.writeWindow, hm]
    simp [hid]
  have hwrites : (DirtyWindows.writeWindow window.start snapshot.id packed :
      Prog Sqlite.Store StorageError Written) s =
        (.ok .done, (s.apply window.start packed).unmark m.id) := by
    show (Except.ok (s.writeWindow window.start snapshot.id packed).1, _) = _
    rw [hwrite]
  rw [Call.serially, hbuild, attempts, tryWindow, Prog.seq_ok hreads]
  simp only [hpack]
  rw [Prog.seq_ok hwrites]
  rfl

omit [DecimalParser] [Sha256] [Segments.Zstd] in
/-- Writing a window back makes rows that are alike alike again. -/
theorem Alike.writes {p : Sqlite.Store} {start : Int64} {packed : Packed} {m n : Sqlite.Mark}
    (h : Alike s p) (hs : Marks interval s) (hp : Marks interval p)
    (hm : s.markOf start = some m) (hn : p.markOf start = some n) :
    Alike ((s.apply start packed).unmark m.id) ((p.apply start packed).unmark n.id) := by
  obtain ⟨hcandles, hdirty, -, -⟩ := s.apply_frame start packed
  obtain ⟨hcandles', hdirty', -, -⟩ := p.apply_frame start packed
  refine ⟨?_, ?_, ?_, ?_⟩
  · show (p.apply start packed).candles = (s.apply start packed).candles
    rw [hcandles, hcandles', h.candles]
  · show (p.apply start packed).index = (s.apply start packed).index
    cases packed with
    | write hash payloadLen stored firstOpenMs lastOpenMs barCount =>
      have hi := (s.insertSegment_frame ⟨hash, Segments.format, payloadLen, stored⟩).2.2.2
      have hi' := (p.insertSegment_frame ⟨hash, Segments.format, payloadLen, stored⟩).2.2.2
      rw [Sqlite.Store.apply, Sqlite.Store.apply]
      simp only [hi, hi', h.index]
    | keep => exact h.index
    | clear =>
      rw [Sqlite.Store.apply, Sqlite.Store.apply]
      simp only [h.index]
  · show (p.apply start packed).segments = (s.apply start packed).segments
    cases packed with
    | write hash payloadLen stored firstOpenMs lastOpenMs barCount =>
      simp only [Sqlite.Store.apply, Sqlite.Store.insertSegment, h.segment]
      by_cases hthere : (s.segment hash).isSome = true
      · rw [if_pos hthere, if_pos hthere, h.segments]
      · rw [if_neg hthere, if_neg hthere, h.segments]
    | keep => exact h.segments
    | clear => exact h.segments
  · intro other
    rw [Sqlite.Store.markOf_unmark_congr hdirty, Sqlite.Store.markOf_unmark_congr hdirty']
    by_cases hsame : other = start
    · rw [hsame, Sqlite.Store.markOf_unmark_self hm, Sqlite.Store.markOf_unmark_self hn]
    · rw [Sqlite.Store.markOf_unmark hp hn hsame, Sqlite.Store.markOf_unmark hs hm hsame]
      exact h.marked other

/-- A write-back's commit does what its refresh of the window does, from start to
end. -/
theorem writeBack_serially {taken : Taken} {packed : Packed} {inserted : Bool}
    (hdb : Sound interval payloads db)
    (hb : WritingBack interval payloads db who taken packed (.commit inserted))
    (hserves : Serves interval call (.writesBack taken packed (.commit inserted)))
    (h : Tracks interval s db.committed) :
    Tracks interval (call.serially interval s) (writtenBack db.committed taken inserted packed) := by
  obtain ⟨window, snapshot⟩ := taken
  obtain ⟨windowStartMs, rfl, hwindow⟩ := hserves
  obtain ⟨⟨-, n, hn, hid⟩, hstoring⟩ := hb.staged
  obtain ⟨hcandles, hindexed⟩ := hb.stands.faithful.shows n hn hid
  have hmarked := h.alike.marked window.start
  rw [hn, Option.isSome_some] at hmarked
  obtain ⟨m, hm⟩ := Option.isSome_iff_exists.mp hmarked.symm
  have hread : s.readWindow window = some ⟨m.id, snapshot.candles, snapshot.indexed⟩ := by
    rw [hcandles, hindexed, h.alike.entryOf, h.alike.candles, Sqlite.Store.readWindow, hm]
    rfl
  have hpack : pack ⟨m.id, snapshot.candles, snapshot.indexed⟩ = .ok packed := hb.packs
  have hserial := buildWindow_alone hwindow hm rfl hread hpack
  refine ⟨?_, ?_⟩
  · rw [hserial]
    obtain ⟨-, hdirty, hnext, -⟩ := s.apply_frame window.start packed
    exact Sqlite.Store.unmark_marks (Sqlite.Store.marks_congr h.marks hdirty hnext) m.id
  · rw [hserial, writtenBack_eq hstoring, ← hid]
    exact h.alike.writes h.marks hdb.consistent.marks hm hn

/-- One statement: SQLite makes the whole call where this one commits, and nothing
where it does not. -/
theorem runs_serially {client next : Client} {v : Database} (hdb : Sound interval payloads db)
    (hr : Relies interval payloads db who client) (hserves : Serves interval call client)
    (h : Tracks interval s db.committed) (hruns : client.runs db who = some (v, next)) :
    Tracks interval (if client.commits then call.serially interval s else s) v.committed := by
  rcases runs_cases interval hruns with ⟨hquiet, hrows, -⟩ | ⟨hcommits, -, hcommit⟩
  · rw [hquiet, hrows]
    exact h.draws _
  · rw [if_pos hcommits]
    rcases hcommit with ⟨w, drawn, rfl, hp, rfl⟩ | ⟨taken, packed, inserted, rfl, rfl⟩
    · exact upsert_serially hr hp hserves h
    · exact writeBack_serially hdb hr hserves h

/-- The calls that entered, in their order. -/
def entered : List Op → List Call := List.filterMap fun
  | .enters call => some call
  | .acts .. => none

/-- The clients that committed, in the order of their commits. -/
def commitOrder (interval : Interval) (ops : List Op) : List Nat :=
  (crowd interval).machine.yields committing Scene.empty ops

/-- A SQLite store after the calls that committed, one at a time. -/
def serial (interval : Interval) (ops : List Op) : Sqlite.Store :=
  ((commitOrder interval ops).filterMap fun who => (entered ops)[who]?).foldl
    (Call.serially interval) Sqlite.Store.empty

omit [DecimalParser] [Sha256] [Segments.Zstd] in
theorem entered_snoc (ops : List Op) (call : Call) :
    entered (ops ++ [.enters call]) = entered ops ++ [call] := by
  simp [entered]

omit [DecimalParser] [Sha256] [Segments.Zstd] in
theorem entered_acts (ops : List Op) (who : Nat) (choice : Choice) :
    entered (ops ++ [.acts who choice]) = entered ops := by
  simp [entered]

theorem commitOrder_snoc (ops : List Op) (op : Op) :
    commitOrder interval (ops ++ [op]) =
      commitOrder interval ops ++ (committing (reached interval ops) op).toList :=
  (crowd interval).machine.yields_snoc committing Scene.empty ops op

/-- A commit waits for nothing. -/
theorem commits_runs {client : Client} (h : client.commits = true) :
    (client.runs db who).isSome = true := by
  unfold Client.commits at h
  split at h
  · rfl
  · rfl
  · cases h

/-- What a run has made of its calls: each that committed did so once and is over,
and SQLite makes the same of them one after another. -/
structure Serializes (interval : Interval) (ops : List Op) (scene : Scene) : Prop where
  once : (commitOrder interval ops).Nodup
  ended : ∀ who ∈ commitOrder interval ops, scene.members[who]? = some .done
  tracks : Tracks interval (serial interval ops) scene.world.committed
  length : scene.members.length = (entered ops).length
  serves : ∀ (who : Nat) (call : Call) (client : Client), (entered ops)[who]? = some call →
    scene.members[who]? = some client → Serves interval call client

theorem serializes_empty : Serializes interval [] Scene.empty := by
  refine ⟨List.nodup_nil, nofun, ⟨?_, rfl, rfl, rfl, fun _ => rfl⟩, rfl, ?_⟩
  · exact (Sqlite.sound_empty interval ∅).store.marks
  · intro who call client hcall
    simp [entered] at hcall

namespace Serializes

variable {ops : List Op}

theorem enters (h : Serializes interval ops (reached interval ops)) (call : Call) :
    Serializes interval (ops ++ [.enters call]) (reached interval (ops ++ [.enters call])) := by
  have hnext : reached interval (ops ++ [.enters call]) = ⟨(reached interval ops).world,
      (reached interval ops).members ++ [Client.enter interval call]⟩ :=
    (crowd interval).machine.run_snoc Scene.empty ops _
  have horder : commitOrder interval (ops ++ [.enters call]) = commitOrder interval ops := by
    rw [commitOrder_snoc]
    exact List.append_nil _
  have hinside : ∀ who ∈ commitOrder interval ops, who < (reached interval ops).members.length :=
    fun who hwho => (List.getElem?_eq_some_iff.mp (h.ended who hwho)).1
  have hserial : serial interval (ops ++ [.enters call]) = serial interval ops := by
    rw [serial, serial, horder]
    congr 1
    apply List.filterMap_congr
    intro who hwho
    have hlt := hinside who hwho
    rw [h.length] at hlt
    rw [entered_snoc, List.getElem?_append_left hlt]
  rw [hnext]
  refine ⟨?_, ?_, ?_, ?_, ?_⟩
  · rw [horder]
    exact h.once
  · intro who hwho
    rw [horder] at hwho
    rw [List.getElem?_append_left (hinside who hwho)]
    exact h.ended who hwho
  · rw [hserial]
    exact h.tracks
  · simp [entered_snoc, h.length]
  · intro who other client hcall hclient
    rw [entered_snoc] at hcall
    by_cases old : who < (reached interval ops).members.length
    · rw [List.getElem?_append_left old] at hclient
      rw [h.length] at old
      rw [List.getElem?_append_left old] at hcall
      exact h.serves who other client hcall hclient
    · rw [List.getElem?_append_right (Nat.not_lt.mp old), List.getElem?_singleton] at hclient
      rw [h.length] at old hclient
      rw [List.getElem?_append_right (Nat.not_lt.mp old), List.getElem?_singleton] at hcall
      split_ifs at hcall hclient
      rw [← Option.some.inj hcall, ← Option.some.inj hclient]
      exact enter_serves call

/-- A step that nobody takes. -/
theorem idles {who : Nat} {choice : Choice} (h : Serializes interval ops (reached interval ops))
    (hreached : reached interval (ops ++ [.acts who choice]) = reached interval ops)
    (hquiet : committing (reached interval ops) (.acts who choice) = none) :
    Serializes interval (ops ++ [.acts who choice]) (reached interval (ops ++ [.acts who choice])) := by
  have horder : commitOrder interval (ops ++ [.acts who choice]) = commitOrder interval ops := by
    rw [commitOrder_snoc, hquiet]
    exact List.append_nil _
  rw [hreached]
  refine ⟨?_, ?_, ?_, ?_, ?_⟩
  · rw [horder]
    exact h.once
  · rw [horder]
    exact h.ended
  · rw [serial, horder, entered_acts]
    exact h.tracks
  · rw [entered_acts]
    exact h.length
  · rw [entered_acts]
    exact h.serves

/-- A client that goes on, at its call still, having committed nothing. -/
theorem acts {who : Nat} {choice : Choice} {client next : Client} {v : Database}
    (h : Serializes interval ops (reached interval ops))
    (hclient : (reached interval ops).members[who]? = some client)
    (hreached : reached interval (ops ++ [.acts who choice]) =
      ⟨v, (reached interval ops).members.set who next⟩)
    (hquiet : committing (reached interval ops) (.acts who choice) = none)
    (hdone : client = .done → next = .done)
    (htracks : Tracks interval (serial interval ops) v.committed)
    (hserves : ∀ call, Serves interval call client → Serves interval call next) :
    Serializes interval (ops ++ [.acts who choice]) (reached interval (ops ++ [.acts who choice])) := by
  have horder : commitOrder interval (ops ++ [.acts who choice]) = commitOrder interval ops := by
    rw [commitOrder_snoc, hquiet]
    exact List.append_nil _
  rw [hreached]
  refine ⟨?_, ?_, ?_, ?_, ?_⟩
  · rw [horder]
    exact h.once
  · intro other hother
    rw [horder] at hother
    rw [List.getElem?_set]
    split_ifs with hsame hinside
    · have hold := h.ended other hother
      rw [← hsame, hclient] at hold
      rw [hdone (Option.some.inj hold)]
    · have hlt := (List.getElem?_eq_some_iff.mp hclient).1
      omega
    · exact h.ended other hother
  · rw [serial, horder, entered_acts]
    exact htracks
  · simp [entered_acts, h.length]
  · intro other call last hcall hlast
    rw [entered_acts] at hcall
    rw [List.getElem?_set] at hlast
    split_ifs at hlast with hsame
    · rw [← Option.some.inj hlast]
      rw [← hsame] at hcall
      exact hserves call (h.serves who call client hcall hclient)
    · exact h.serves other call last hcall hlast

/-- A client whose next statement is its commit. -/
theorem commits {who : Nat} {client : Client} {v : Database}
    (h : Serializes interval ops (reached interval ops))
    (hclient : (reached interval ops).members[who]? = some client)
    (hreached : reached interval (ops ++ [.acts who .runs]) =
      ⟨v, (reached interval ops).members.set who .done⟩)
    (hcommits : client.commits = true)
    (htracks : ∀ call, Serves interval call client →
      Tracks interval (call.serially interval (serial interval ops)) v.committed) :
    Serializes interval (ops ++ [.acts who .runs]) (reached interval (ops ++ [.acts who .runs])) := by
  have hcommitting : committing (reached interval ops) (.acts who .runs) = some who := by
    simp [committing, hclient, hcommits]
  have horder : commitOrder interval (ops ++ [.acts who .runs]) =
      commitOrder interval ops ++ [who] := by
    rw [commitOrder_snoc, hcommitting]
    rfl
  have hinside : who < (reached interval ops).members.length :=
    (List.getElem?_eq_some_iff.mp hclient).1
  obtain ⟨call, hcall⟩ : ∃ call, (entered ops)[who]? = some call := by
    rw [h.length] at hinside
    exact ⟨_, List.getElem?_eq_getElem hinside⟩
  have hnew : who ∉ commitOrder interval ops := by
    intro hold
    have hdone := h.ended who hold
    rw [hclient] at hdone
    rw [Option.some.inj hdone] at hcommits
    cases hcommits
  have hserial : serial interval (ops ++ [.acts who .runs]) =
      call.serially interval (serial interval ops) := by
    rw [serial, serial, horder, entered_acts, List.filterMap_append, List.foldl_append]
    simp [hcall]
  rw [hreached]
  refine ⟨?_, ?_, ?_, ?_, ?_⟩
  · rw [horder, List.nodup_append]
    refine ⟨h.once, List.nodup_singleton who, ?_⟩
    intro other hother last hlast
    rw [List.mem_singleton.mp hlast]
    intro hsame
    rw [hsame] at hother
    exact hnew hother
  · intro other hother
    rw [horder, List.mem_append, List.mem_singleton] at hother
    rw [List.getElem?_set]
    split_ifs with hsame
    · rfl
    · exact h.ended other (hother.resolve_right (Ne.symm hsame))
  · rw [hserial]
    exact htracks call (h.serves who call client hcall hclient)
  · simp [entered_acts, h.length]
  · intro other given last hgiven hlast
    rw [entered_acts] at hgiven
    rw [List.getElem?_set] at hlast
    split_ifs at hlast with hsame
    · rw [← Option.some.inj hlast]
      trivial
    · exact h.serves other given last hgiven hlast

end Serializes

/-- A run that goes on by one step goes on to serialize. -/
theorem next_serializes {ops : List Op} (h : Serializes interval ops (reached interval ops))
    (hsafe : Safe interval payloads (reached interval ops)) (op : Op) :
    Serializes interval (ops ++ [op]) (reached interval (ops ++ [op])) := by
  cases op with
  | enters call => exact h.enters call
  | acts who choice =>
    have hlast : reached interval (ops ++ [.acts who choice]) =
        (crowd interval).machine.next (reached interval ops) (.acts who choice) :=
      (crowd interval).machine.run_snoc Scene.empty ops _
    obtain ⟨stays, idle⟩ | ⟨client, v, next, hclient, hstep, hnext⟩ :=
      Crowd.acts_cases (crowd interval) (reached interval ops) who choice
    · apply h.idles (hlast.trans stays)
      cases choice with
      | fails => rfl
      | runs =>
        cases hclient : (reached interval ops).members[who]? with
        | none => simp [committing, hclient]
        | some client =>
          have hblocked : client.runs (reached interval ops).world who = none := by
            rw [hclient] at idle
            exact idle
          have hwaits : client.commits = false := by
            rw [Bool.eq_false_iff]
            intro hcommits
            have hruns : (client.runs (reached interval ops).world who).isSome = true :=
              commits_runs hcommits
            rw [hblocked] at hruns
            cases hruns
          simp [committing, hclient, hwaits]
    · rw [hnext] at hlast
      cases choice with
      | fails =>
        cases hstep
        exact h.acts hclient hlast rfl (fun _ => rfl) h.tracks fun _ _ => trivial
      | runs =>
        have hruns : client.runs (reached interval ops).world who = some (v, next) := hstep
        have htracks : ∀ call, Serves interval call client →
            Tracks interval (if client.commits then call.serially interval (serial interval ops)
              else serial interval ops) v.committed :=
          fun call hserves =>
            runs_serially hsafe.world (hsafe.members hclient) hserves h.tracks hruns
        rcases runs_cases interval hruns with ⟨hquiet, hrows, hserves⟩ | ⟨hcommits, rfl, -⟩
        · apply h.acts hclient hlast ?_ ?_ ?_ hserves
          · simp [committing, hclient, hquiet]
          · intro hdone
            rw [hdone] at hruns
            cases hruns
          · rw [hrows]
            exact h.tracks.draws _
        · apply h.commits hclient hlast hcommits
          intro call hcall
          have htrack := htracks call hcall
          rw [if_pos hcommits] at htrack
          exact htrack

variable [ExactParser]

theorem serializes_run {ops : List Op} (hinj : Set.InjOn Sha256.digest payloads)
    (hpacks : (crowd interval).machine.Every (Crowd.Takes (Packs payloads)) Scene.empty ops) :
    Serializes interval ops (reached interval ops) := by
  have hboth := (crowd interval).machine.run_history
    (fun past scene => Serializes interval past (reached interval past) ∧
      Safe interval payloads scene)
    ⟨serializes_empty, safe_empty interval payloads⟩
    (fun past op h hop => ⟨next_serializes h.1 h.2 op,
      Crowd.keeps_next (crowd_keeps hinj) h.2 hop⟩) ops hpacks
  exact hboth.1

/-- PostgreSQL serializes the calls as SQLite would run them. Whatever the order
of the statements and whichever of them fail: the committed rows are those of a
SQLite store after the calls that committed, each once and whole, in the order of
their commits, but for the numbers of the marks; and a plan or a load answers from
them what SQLite answers. -/
theorem run_serializes (interval : Interval) (ops : List Op)
    (hinj : Set.InjOn Sha256.digest (met interval ops)) :
    let rows := (reached interval ops).world.committed
    let sqlite := serial interval ops
    (commitOrder interval ops).Nodup ∧
      (∀ who ∈ commitOrder interval ops, who < (entered ops).length) ∧
      Alike sqlite rows ∧
      (∀ firstOpenMs lastOpenMs, resolveSegments interval rows firstOpenMs lastOpenMs =
        sqlite.resolveSegments interval firstOpenMs lastOpenMs) ∧
      ∀ query, rows.loadCandles query = sqlite.loadCandles query := by
  intro rows sqlite
  have hpacks := packs_run interval ops
  have h := serializes_run hinj hpacks
  have hsafe := safe_run hinj hpacks
  refine ⟨h.once, ?_, h.tracks.alike, ?_, h.tracks.alike.loadCandles⟩
  · intro who hwho
    rw [← h.length]
    exact (List.getElem?_eq_some_iff.mp (h.ended who hwho)).1
  · intro firstOpenMs lastOpenMs
    rw [resolve_agrees hsafe.world.consistent]
    exact h.tracks.alike.resolveSegments firstOpenMs lastOpenMs

end

section Sample

open Sqlite (sampleBar samplePayload)

attribute [local instance] Segments.exactTextParser Sqlite.sampleSha256 Sqlite.sampleZstd

/-- The first writer commits before the refresh, and the second not at all. -/
theorem sampleOps_serialize :
    let ops := sampleOps ++ [.acts 2 .runs]
    let rows := (reached .m1 ops).world.committed
    let sqlite := serial .m1 ops
    commitOrder .m1 ops = [0, 1] ∧ sqlite.segments.length = 1 ∧
      (commitOrder .m1 ops).Nodup ∧
      (∀ who ∈ commitOrder .m1 ops, who < (entered ops).length) ∧
      Alike sqlite rows ∧
      (∀ firstOpenMs lastOpenMs, resolveSegments .m1 rows firstOpenMs lastOpenMs =
        sqlite.resolveSegments .m1 firstOpenMs lastOpenMs) ∧
      ∀ query, rows.loadCandles query = sqlite.loadCandles query := by
  have hexact := Segments.exactTextParser_exact
  have hinj : Set.InjOn Sha256.digest (met .m1 (sampleOps ++ [.acts 2 .runs])) := by
    intro payload hpayload other hother _
    rw [sampleOps_met payload hpayload, sampleOps_met other hother]
  have h := run_serializes .m1 (sampleOps ++ [.acts 2 .runs]) hinj
  exact ⟨by decide +kernel, by decide +kernel, h⟩

end Sample

end QuantForge.Postgres.Protocol
