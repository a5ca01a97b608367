import QuantForge.Storage.Postgres.Protocol

namespace QuantForge.Postgres.Protocol

open Refresh
open Sqlite (CandleTable Consistent Faithful Mark Marks Taken)

section

variable [DecimalParser] [Sha256] [Segments.Zstd] {interval : Interval}
  {payloads : Set (List UInt8)} {db v : Database} {who : Nat}

/-- What a client's step leaves: the database sound, the others undisturbed, and
what the client itself relies on. -/
structure Kept (interval : Interval) (payloads : Set (List UInt8)) (db : Database) (who : Nat)
    (left : Database × Client) : Prop where
  sound : Sound interval payloads left.1
  leaves : Leaves interval db left.1 who
  relies : Relies interval payloads left.1 who left.2

theorem Quiet.kept {client : Client} (h : Quiet db v who) (hdb : Sound interval payloads db)
    (hr : Relies interval payloads v who client) : Kept interval payloads db who (v, client) :=
  ⟨h.sound hdb, h.leaves interval, hr⟩

theorem kept_rollback (hdb : Sound interval payloads db) :
    Kept interval payloads db who (db.rollback who, .done) :=
  (Quiet.rollback db who).kept hdb trivial

section Writer

variable {w : Writer} {left : Database × Client}

theorem upsertRow_kept {row : TextCandle} {rows : List TextCandle}
    (hdb : Sound interval payloads db) (hw : Writing interval db who w)
    (hp : w.pending = .upsert (row :: rows)) (h : w.upsertRow db who row rows = some left) :
    Kept interval payloads db who left := by
  unfold Writer.upsertRow at h
  by_cases hfree : db.locks.free who (.candle row.openTimeMs) = true
  · rw [if_pos hfree] at h
    cases h
    apply (Quiet.lock hfree nofun).kept hdb
    obtain ⟨upserted, hrows, hwritten, hlocked⟩ := hw.upserted
    have hnone : w.marked = [] := by
      have hmarking := hw.marking
      rw [hp] at hmarking
      exact hmarking
    refine ⟨hw.batch, ⟨upserted ++ [row], ?_, ?_, ?_⟩, ?_, hw.ids, hnone⟩
    · rw [← hrows, hp, List.append_assoc]
      rfl
    · have hchanges := changes_snoc db.committed.candles upserted row
      rw [← hwritten] at hchanges
      exact hchanges.symm
    · intro other hother
      rcases List.mem_append.mp hother with hold | hnew
      · exact List.mem_cons_of_mem _ (hlocked other hold)
      · rw [List.mem_singleton.mp hnew]
        exact List.mem_cons_self
    · intro m hm
      rw [hnone] at hm
      cases hm
  · rw [if_neg hfree] at h
    cases h

theorem startMark_kept (hdb : Sound interval payloads db) (hw : Writing interval db who w)
    (hp : w.pending = .upsert []) : Kept interval payloads db who (w.startMark db who) := by
  unfold Writer.startMark
  cases hwindows : w.windows with
  | error error => exact kept_rollback hdb
  | ok windows =>
    apply (Quiet.refl db who).kept hdb
    obtain ⟨upserted, hrows, hwritten, hlocked⟩ := hw.upserted
    have hnone : w.marked = [] := by
      have hmarking := hw.marking
      rw [hp] at hmarking
      exact hmarking
    rw [hp] at hrows
    refine ⟨hw.batch, ⟨upserted, hrows, hwritten, hlocked⟩, hw.marked, hw.ids, ?_⟩
    refine ⟨⟨windows, hwindows, ?_⟩, nofun⟩
    rw [hnone]
    rfl

theorem drawId_kept {windows : List Int64} (hdb : Sound interval payloads db)
    (hw : Writing interval db who w) (hp : w.pending = .mark windows none) :
    Kept interval payloads db who (w.drawId db who windows) := by
  apply (Quiet.draw hdb.drawn).kept hdb
  obtain ⟨upserted, hrows, hwritten, hlocked⟩ := hw.upserted
  have hmarking := hw.marking
  rw [hp] at hrows hmarking
  refine ⟨hw.batch, ⟨upserted, hrows, hwritten, ?_⟩, ?_, hw.ids, hmarking.1, ?_⟩
  · intro row hrow
    exact List.mem_cons_of_mem _ (hlocked row hrow)
  · intro m hm
    obtain ⟨hmark, hnumber⟩ := hw.marked m hm
    exact ⟨List.mem_cons_of_mem _ hmark, List.mem_cons_of_mem _ hnumber⟩
  · intro n hn
    rw [← Option.some.inj hn]
    refine ⟨List.mem_cons_self, ?_⟩
    intro m hm hsame
    have hlt := hdb.drawn who m.id (hw.marked m hm).2
    omega

omit [DecimalParser] [Sha256] [Segments.Zstd] in
/-- A writer that puts a mark of its own number. -/
theorem putMark_writing {windowStart : Int64} {windows : List Int64} {drawn : Option Nat} {id : Nat}
    (hw : Writing interval db who w) (hp : w.pending = .mark (windowStart :: windows) drawn)
    (hquiet : Quiet db v who) (hkept : ∀ l, (who, l) ∈ db.locks → (who, l) ∈ v.locks)
    (hmark : (who, .mark windowStart) ∈ v.locks) (hnumber : (who, .number id) ∈ v.locks)
    (hnew : ∀ m ∈ w.marked, m.id ≠ id) :
    Writing interval v who (w.putMark windows ⟨id, windowStart⟩) := by
  obtain ⟨upserted, hrows, hwritten, hlocked⟩ := hw.upserted
  have hmarking := hw.marking
  rw [hp] at hrows hmarking
  obtain ⟨⟨all, hall, hsplit⟩, -⟩ := hmarking
  refine ⟨hw.batch, ⟨upserted, hrows, ?_, ?_⟩, ?_, ?_, ⟨all, hall, ?_⟩, nofun⟩
  · rw [hquiet.candles]
    exact hwritten
  · intro row hrow
    exact hkept _ (hlocked row hrow)
  · intro m hm
    rcases List.mem_append.mp hm with hold | hput
    · exact ⟨hkept _ (hw.marked m hold).1, hkept _ (hw.marked m hold).2⟩
    · rw [List.mem_singleton.mp hput]
      exact ⟨hmark, hnumber⟩
  · intro m hm n hn hsame
    rcases List.mem_append.mp hm with hold | hput <;> rcases List.mem_append.mp hn with hold' | hput'
    · exact hw.ids m hold n hold' hsame
    · rw [List.mem_singleton.mp hput'] at hsame
      exact absurd hsame (hnew m hold)
    · rw [List.mem_singleton.mp hput] at hsame
      exact absurd hsame.symm (hnew n hold')
    · rw [List.mem_singleton.mp hput, List.mem_singleton.mp hput']
  · rw [← hsplit]
    simp [Writer.putMark]

theorem markRow_kept {windowStart : Int64} {windows : List Int64} {drawn : Nat}
    (hdb : Sound interval payloads db) (hw : Writing interval db who w)
    (hp : w.pending = .mark (windowStart :: windows) (some drawn))
    (h : w.markRow db who windowStart windows drawn = some left) :
    Kept interval payloads db who left := by
  have hmarking := hw.marking
  rw [hp] at hmarking
  obtain ⟨hheld, hother⟩ := hmarking.2 drawn rfl
  unfold Writer.markRow at h
  by_cases hfree : db.locks.free who (.mark windowStart) = true
  · rw [if_pos hfree] at h
    by_cases hthere : (db.committed.markOf windowStart).isSome = true
    · rw [if_pos hthere] at h
      cases h
      have hdraw : Quiet db (db.draw who) who := .draw hdb.drawn
      have hstill : (db.draw who).locks.free who (.mark windowStart) = true := by
        rw [Locks.free_iff] at hfree ⊢
        intro other hl
        rcases List.mem_cons.mp hl with hsame | hold
        · cases (Prod.mk.inj hsame).2
        · exact hfree other hold
      have hquiet := hdraw.trans (.lock hstill nofun)
      apply hquiet.kept hdb
      apply putMark_writing hw hp hquiet
      · intro l hl
        exact List.mem_cons_of_mem _ (List.mem_cons_of_mem _ hl)
      · exact List.mem_cons_self
      · exact List.mem_cons_of_mem _ List.mem_cons_self
      · intro m hm hsame
        have hlt := hdb.drawn who m.id (hw.marked m hm).2
        omega
    · rw [if_neg hthere] at h
      cases h
      have hquiet : Quiet db (db.lock who (.mark windowStart)) who := .lock hfree nofun
      apply hquiet.kept hdb
      apply putMark_writing hw hp hquiet
      · intro l hl
        exact List.mem_cons_of_mem _ hl
      · exact List.mem_cons_self
      · exact List.mem_cons_of_mem _ hheld
      · exact hother
  · rw [if_neg hfree] at h
    cases h

end Writer

section Commit

variable {w : Writer} {drawn : Option Nat}

omit [DecimalParser] [Sha256] [Segments.Zstd] in
/-- A writer that put all its marks has written what the batch's rows leave,
written one after another into the rows that are committed by then, and has
marked the windows they change. -/
theorem Writing.writes (hw : Writing interval db who w) (hp : w.pending = .mark [] drawn)
    {candles : List Candle} (hbatch : Batch.of interval candles = .ok w.batch) :
    ∃ (starts : List Int64) (changed : Table Int64.toInt),
      (candles.mapM fun c => Storage.windowStart interval c.openTimeMs) = .ok starts ∧
      Sqlite.upsertRows db.committed.candles Table.empty ((candles.map (·.toText)).zip starts) =
        ((w.committed db.committed).candles, changed) ∧
      w.marked.map (·.windowStartMs) = changed.rows := by
  obtain ⟨upserted, hrows, hwritten, -⟩ := hw.upserted
  have hmarking := hw.marking
  rw [hp] at hrows hmarking
  obtain ⟨⟨all, hall, hmarked⟩, -⟩ := hmarking
  cases hstarts : candles.mapM fun c => Storage.windowStart interval c.openTimeMs with
  | error error =>
    rw [Batch.of, Batch.extend_error hstarts] at hbatch
    cases hbatch
  | ok starts =>
    have hextended :=
      Batch.extend_follows hstarts (Batch.follows_empty interval db.committed.candles)
    obtain ⟨extended, hextend, hfollows⟩ := hextended
    rw [Batch.of, hextend] at hbatch
    rw [Except.ok.inj hbatch] at hfollows
    obtain ⟨hstored, hwindows⟩ := hfollows.agrees
    have hdone : upserted = w.batch.rows.rows.map (·.candle) := by
      rw [← hrows]
      exact (List.append_nil upserted).symm
    rw [← hdone] at hstored hwindows
    have hsame : upsert db.committed.candles upserted =
        ((w.committed db.committed).candles, w.written.map (·.openTimeMs)) := by
      rw [Writer.committed, hwritten]
      rfl
    rw [hsame] at hstored hwindows
    rw [Writer.windows, hwindows] at hall
    refine ⟨starts, _, rfl, Prod.ext hstored.symm rfl, ?_⟩
    rw [← Except.ok.inj hall] at hmarked
    exact (List.append_nil _).symm.trans hmarked

omit [DecimalParser] [Sha256] [Segments.Zstd] in
/-- The marks that a writer put stand over those that were there. -/
theorem markOf_committed {rows : Sqlite.Store} {changed : Table Int64.toInt}
    (hmarked : w.marked.map (·.windowStartMs) = changed.rows) (start : Int64) :
    (start ∉ changed.rows ∧ (w.committed rows).markOf start = rows.markOf start) ∨
      start ∈ changed.rows ∧ ∃ m ∈ w.marked, (w.committed rows).markOf start = some m := by
  have hrising : w.marked.Pairwise fun a b => a.windowStartMs.toInt < b.windowStartMs.toInt := by
    have hall := changed.rising
    rw [← hmarked, List.pairwise_map] at hall
    exact hall
  have hfind := rows.dirty.find_foldl_put hrising start.toInt
  have hput : (w.committed rows).markOf start =
      (w.marked.find? fun m => m.windowStartMs.toInt = start.toInt).or (rows.markOf start) := hfind
  cases hfound : w.marked.find? fun m => m.windowStartMs.toInt = start.toInt with
  | none =>
    rw [List.find?_eq_none] at hfound
    rw [hput]
    refine .inl ⟨?_, ?_⟩
    · rw [← hmarked, List.mem_map]
      intro hmem
      obtain ⟨m, hm, rfl⟩ := hmem
      simpa using hfound m hm
    · rw [List.find?_eq_none.mpr hfound, Option.none_or]
  | some m =>
    have hmem := List.mem_of_find?_eq_some hfound
    have hkey := List.find?_some hfound
    rw [decide_eq_true_eq, Int64.toInt_inj] at hkey
    refine .inr ⟨?_, m, hmem, ?_⟩
    · rw [← hmarked, ← hkey]
      exact List.mem_map_of_mem hmem
    · rw [hput, hfound, Option.some_or]

/-- New rows are consistent where each window keeps its candles and its mark, or
is marked. -/
theorem consistent_commit {s t : Sqlite.Store} (hs : Consistent interval payloads s)
    (marks : Marks interval t) (index : t.index = s.index) (segments : t.segments = s.segments)
    (placed : ∀ c ∈ t.candles.rows,
      c ∈ s.candles.rows ∨ ∃ w, Segments.window interval c.openTimeMs = some w)
    (windows : ∀ w : Segments.Window, w.Of interval →
      (t.markOf w.start = s.markOf w.start ∧ t.candles.within w = s.candles.within w) ∨
        (t.markOf w.start).isSome = true) :
    Consistent interval payloads t := by
  have hstored : ∀ hash found, s.segment hash = some found → t.segment hash = some found := by
    intro hash found hfound
    rw [Sqlite.Store.segment, segments]
    exact hfound
  refine ⟨marks, ?_, ?_, ?_, ?_⟩
  · intro c hc
    rcases placed c hc with hold | hplaced
    · exact hs.placed c hold
    · exact hplaced
  · rw [segments]
    exact hs.segments
  · intro e he
    rw [index] at he
    obtain ⟨w, hw, hstart, candles, hdescribes⟩ := hs.entries e he
    exact ⟨w, hw, hstart, candles, hdescribes.mono hstored⟩
  · intro w hw hnone
    rcases windows w hw with ⟨hmark, hwithin⟩ | hsome
    · rw [hmark] at hnone
      rw [hwithin]
      apply (hs.current w hw hnone).mono ?_ hstored
      rw [Sqlite.Store.entryOf, index]
      rfl
    · rw [hnone] at hsome
      cases hsome

/-- A writer's commit keeps the rows consistent: it marks what it changes. -/
theorem commit_sound (hdb : Sound interval payloads db) (hw : Writing interval db who w)
    (hp : w.pending = .mark [] drawn) :
    Sound interval payloads (db.commit who (w.committed db.committed)) := by
  obtain ⟨candles, -, hbatch⟩ := hw.batch
  obtain ⟨starts, changed, hstarts, hupserted, hmarked⟩ := hw.writes hp hbatch
  have hs := hdb.consistent
  have hspec := Sqlite.upsertRows_spec (Sqlite.Store.zip_dated hstarts) db.committed.candles
    Table.empty
  rw [hupserted] at hspec
  have hrows : ∀ m ∈ (w.committed db.committed).dirty.rows,
      m ∈ w.marked ∨ m ∈ db.committed.dirty.rows := by
    intro m hm
    have hfound : (w.committed db.committed).markOf m.windowStartMs = some m :=
      Sqlite.Store.markOf_some.mpr ⟨hm, rfl⟩
    rcases markOf_committed hmarked m.windowStartMs with ⟨-, hold⟩ | ⟨-, n, hn, hput⟩
    · rw [hold] at hfound
      exact .inr (Sqlite.Store.markOf_some.mp hfound).1
    · rw [hput] at hfound
      rw [← Option.some.inj hfound]
      exact .inl hn
  have hnumber : ∀ m ∈ w.marked, m.id < db.committed.nextId ∧
      ∀ n ∈ db.committed.dirty.rows, n.id ≠ m.id := by
    intro m hm
    have held := (hw.marked m hm).2
    exact ⟨hdb.drawn who m.id held, hdb.unused who m.id held⟩
  refine ⟨consistent_commit hs ⟨?_, ?_, ?_⟩ rfl rfl hspec.placed ?_, hdb.sole.release who, ?_, ?_⟩
  · intro m hm
    rcases hrows m hm with hput | hold
    · have hstart : m.windowStartMs ∈ changed.rows := by
        rw [← hmarked]
        exact List.mem_map_of_mem hput
      rcases hspec.starts m.windowStartMs hstart with hnone | hof
      · cases hnone
      · exact hof
    · exact hs.marks.starts m hold
  · intro m hm
    rcases hrows m hm with hput | hold
    · exact (hnumber m hput).1
    · exact hs.marks.fresh m hold
  · intro m hm n hn hsame
    rcases hrows m hm with hput | hold <;> rcases hrows n hn with hput' | hold'
    · exact hw.ids m hput n hput' hsame
    · exact absurd hsame.symm ((hnumber m hput).2 n hold')
    · exact absurd hsame ((hnumber n hput').2 m hold)
    · exact hs.marks.distinct m hold n hold' hsame
  · intro v hv
    rcases markOf_committed hmarked v.start with ⟨hout, hold⟩ | ⟨-, m, -, hput⟩
    · exact .inl ⟨hold, hspec.kept v hv hout⟩
    · exact .inr (Option.isSome_iff_exists.mpr ⟨m, hput⟩)
  · intro other n hn
    exact hdb.drawn other n (Locks.mem_release.mp hn).1
  · intro other n hn m hm
    obtain ⟨held, hne⟩ := Locks.mem_release.mp hn
    rcases hrows m hm with hput | hold
    · intro hsame
      have mine := (hw.marked m hput).2
      rw [hsame] at mine
      exact hne (hdb.sole held mine)
    · exact hdb.unused other n held m hold

omit [DecimalParser] [Sha256] [Segments.Zstd] in
/-- A writer changes no row but those it locked. -/
theorem candles_committed (hw : Writing interval db who w) (hp : w.pending = .mark [] drawn)
    (t : Int64) : (who, .candle t) ∈ db.locks ∨
      (w.committed db.committed).candles.find t.toInt = db.committed.candles.find t.toInt := by
  obtain ⟨upserted, hrows, hwritten, hlocked⟩ := hw.upserted
  rw [hp] at hrows
  have hdone : upserted = w.batch.candles.rows :=
    (List.append_nil upserted).symm.trans hrows
  have hfind := upsert_find db.committed.candles w.batch.candles t.toInt
  rw [← hdone] at hfind
  have hput : (w.committed db.committed).candles = (upsert db.committed.candles upserted).1 := by
    rw [Writer.committed, hwritten]
    rfl
  rw [hput, hfind]
  cases hfound : w.batch.candles.find t.toInt with
  | none => exact .inr (Option.none_or ..)
  | some row =>
    obtain ⟨hmem, hkey⟩ := (Table.find_iff _).mp hfound
    rw [← hdone] at hmem
    rw [← Int64.toInt_inj.mp hkey]
    exact .inl (hlocked row hmem)

omit [DecimalParser] [Sha256] [Segments.Zstd] in
/-- A writer's commit leaves the others what they hold and what they read. -/
theorem commit_leaves (hw : Writing interval db who w)
    (hp : w.pending = .mark [] drawn) :
    Leaves interval db (db.commit who (w.committed db.committed)) who := by
  obtain ⟨candles, -, hbatch⟩ := hw.batch
  obtain ⟨starts, changed, hstarts, hupserted, hmarked⟩ := hw.writes hp hbatch
  have hspec := Sqlite.upsertRows_spec (Sqlite.Store.zip_dated hstarts) db.committed.candles
    Table.empty
  rw [hupserted] at hspec
  refine ⟨?_, candles_committed hw hp, ?_, fun hash found hfound => hfound,
    fun hash => .inr id, ?_⟩
  · intro other hne l hl
    exact Locks.mem_release.mpr ⟨hl, hne⟩
  · intro start
    rcases markOf_committed hmarked start with ⟨-, hold⟩ | ⟨hstart, m, hm, hput⟩
    · exact .inr hold
    · rw [← hmarked, List.mem_map] at hstart
      obtain ⟨n, hn, rfl⟩ := hstart
      exact .inl (hw.marked n hn).1
  · intro taken hstands
    have hfaithful := hstands.faithful
    refine ⟨⟨hfaithful.window, hfaithful.id, ?_⟩, ?_⟩
    · intro m hm hsame
      rcases markOf_committed hmarked taken.window.start with ⟨hout, hold⟩ | ⟨-, n, hn, hput⟩
      · have hbefore := hfaithful.shows m (hold.symm.trans hm) hsame
        have hkept := hspec.kept taken.window hfaithful.window hout
        exact ⟨hbefore.1.trans hkept.symm, hbefore.2⟩
      · have hfound : some n = some m := hput.symm.trans hm
        rw [← Option.some.inj hfound] at hsame
        have held := (hw.marked n hn).2
        rw [hsame] at held
        exact absurd held (hstands.spent who)
    · intro other held
      exact hstands.spent other (Locks.mem_release.mp held).1

end Commit

section WriteBack

variable {taken : Taken} {packed : Packed} {inserted : Bool} {left : Database × Client}

theorem lockMark_kept (hdb : Sound interval payloads db)
    (hb : WritingBack interval payloads db who taken packed .lockMark)
    (h : WriteBack.lockMark db who taken packed = some left) :
    Kept interval payloads db who left := by
  unfold WriteBack.lockMark at h
  by_cases hfree : db.locks.free who (.mark taken.window.start) = true
  · rw [if_pos hfree] at h
    cases hm : db.committed.markOf taken.window.start with
    | none =>
      rw [hm] at h
      cases h
      exact kept_rollback hdb
    | some m =>
      simp only [hm] at h
      by_cases hid : m.id = taken.snapshot.id
      · rw [if_neg (not_not.mpr hid)] at h
        cases h
        have hquiet : Quiet db (db.lock who (.mark taken.window.start)) who := .lock hfree nofun
        have hholding : Holding (db.lock who (.mark taken.window.start)) who taken :=
          ⟨List.mem_cons_self, m, hm, hid⟩
        apply hquiet.kept hdb
        refine ⟨hquiet.stands hb.stands, hb.packs, hb.met, ?_⟩
        cases packed with
        | write hash payloadLen stored firstOpenMs lastOpenMs barCount => exact hholding
        | keep => exact ⟨hholding, trivial⟩
        | clear => exact ⟨hholding, trivial⟩
      · rw [if_pos hid] at h
        cases h
        exact kept_rollback hdb
  · rw [if_neg hfree] at h
    cases h

theorem store_kept (hdb : Sound interval payloads db)
    (hb : WritingBack interval payloads db who taken packed .store)
    (h : WriteBack.store db who taken packed = some left) :
    Kept interval payloads db who left := by
  cases packed with
  | write hash payloadLen stored firstOpenMs lastOpenMs barCount =>
    simp only [WriteBack.store] at h
    by_cases hfree : db.locks.free who (.segment hash) = true
    · rw [if_pos hfree] at h
      by_cases hthere : (db.committed.segment hash).isSome = true
      · rw [if_pos hthere] at h
        cases h
        exact (Quiet.refl db who).kept hdb ⟨hb.stands, hb.packs, hb.met, hb.staged, hthere⟩
      · rw [if_neg hthere] at h
        cases h
        have hquiet : Quiet db (db.lock who (.segment hash)) who := .lock hfree nofun
        have hholding : Holding db who taken := hb.staged
        apply hquiet.kept hdb
        refine ⟨hquiet.stands hb.stands, hb.packs, hb.met, ?_, List.mem_cons_self, ?_⟩
        · exact ⟨List.mem_cons_of_mem _ hholding.lock, hholding.mark⟩
        · exact Option.not_isSome_iff_eq_none.mp hthere
    · rw [if_neg hfree] at h
      cases h
  | keep => cases h
  | clear => cases h

omit [DecimalParser] [Sha256] [Segments.Zstd] in
/-- A lock taken beside those that a write-back holds. -/
theorem Storing.lock {l : Lock} (h : Storing db who inserted packed) :
    Storing (db.lock who l) who inserted packed := by
  cases packed with
  | write hash payloadLen stored firstOpenMs lastOpenMs barCount =>
    cases inserted with
    | true => exact ⟨List.mem_cons_of_mem _ h.1, h.2⟩
    | false => exact h
  | keep => trivial
  | clear => trivial

omit [DecimalParser] [Sha256] [Segments.Zstd] in
/-- A write-back's commit leaves what writing the window back in one step does. -/
theorem writtenBack_eq (h : Storing db who inserted packed) :
    writtenBack db.committed taken inserted packed =
      (db.committed.apply taken.window.start packed).unmark taken.snapshot.id := by
  cases packed with
  | write hash payloadLen stored firstOpenMs lastOpenMs barCount =>
    cases inserted with
    | true =>
      have hnone : ¬(db.committed.segment hash).isSome = true := by simp [h.2]
      simp only [writtenBack, Sqlite.Store.apply, Sqlite.Store.insertSegment, if_neg hnone, if_true]
    | false =>
      have hthere : (db.committed.segment hash).isSome = true := h
      simp only [writtenBack, Sqlite.Store.apply, Sqlite.Store.insertSegment, if_pos hthere]
      rfl
  | keep => rfl
  | clear => rfl

omit [DecimalParser] [Sha256] [Segments.Zstd] in
/-- A segment that was not there is there after a write-back only if that
inserted it. -/
theorem unstored_writtenBack (h : Storing db who inserted packed) (hash : List UInt8) :
    (who, .segment hash) ∈ db.locks ∨ (db.committed.segment hash = none →
      (writtenBack db.committed taken inserted packed).segment hash = none) := by
  rw [writtenBack_eq h]
  cases packed with
  | write name payloadLen stored firstOpenMs lastOpenMs barCount =>
    by_cases hsame : hash = name
    · cases inserted with
      | true =>
        rw [hsame]
        exact .inl h.1
      | false =>
        right
        intro hnone
        have hthere : (db.committed.segment name).isSome = true := h
        rw [← hsame, hnone] at hthere
        cases hthere
    · right
      intro hnone
      have hinsert : (db.committed.insertSegment ⟨name, Segments.format, payloadLen, stored⟩).segment
          hash = none := by
        rw [Sqlite.Store.segment, List.find?_eq_none] at hnone ⊢
        intro segment hsegment
        rcases Sqlite.Store.mem_insertSegment hsegment with hold | hnew
        · exact hnone segment hold
        · rw [hnew, beq_iff_eq]
          exact Ne.symm hsame
      exact hinsert
  | keep => exact .inr id
  | clear => exact .inr id

variable [ExactParser]

/-- A write-back's commit keeps the rows consistent, and leaves the others what
they hold and what they read. -/
theorem writtenBack_kept (hinj : Set.InjOn Sha256.digest payloads)
    (hdb : Sound interval payloads db)
    (hb : WritingBack interval payloads db who taken packed (.commit inserted)) :
    Kept interval payloads db who
      (db.commit who (writtenBack db.committed taken inserted packed), .done) := by
  obtain ⟨⟨hlock, m, hm, hid⟩, hstoring⟩ := hb.staged
  have hs := hdb.consistent
  have hfaithful := hb.stands.faithful
  have happlied := Sqlite.apply_spec hinj hs hfaithful hm hid hb.packs hb.met
  rw [(hfaithful.shows m hm hid).1] at happlied
  have hconsistent := happlied.consistent hs hfaithful.window hm
  have hwritten : (db.committed.writeWindow taken.window.start taken.snapshot.id packed).2 =
      (db.committed.apply taken.window.start packed).unmark taken.snapshot.id := by
    simp [Sqlite.Store.writeWindow, hm, hid]
  have heq : writtenBack db.committed taken inserted packed =
      (db.committed.apply taken.window.start packed).unmark taken.snapshot.id := writtenBack_eq hstoring
  have hdirty : ∀ n ∈ (writtenBack db.committed taken inserted packed).dirty.rows,
      n ∈ db.committed.dirty.rows := by
    intro n hn
    rw [heq, Sqlite.Store.unmark, Table.mem_keep, happlied.dirty] at hn
    exact hn.1
  have hnext : (writtenBack db.committed taken inserted packed).nextId = db.committed.nextId := by
    rw [heq]
    exact happlied.nextId
  refine ⟨⟨?_, hdb.sole.release who, ?_, ?_⟩, ⟨?_, ?_, ?_, ?_, unstored_writtenBack hstoring, ?_⟩,
    trivial⟩
  · rw [hid] at hconsistent
    rw [Database.commit, heq]
    exact hconsistent
  · intro other n hn
    have hlt := hdb.drawn other n (Locks.mem_release.mp hn).1
    rw [Database.commit, hnext]
    exact hlt
  · intro other n hn k hk
    exact hdb.unused other n (Locks.mem_release.mp hn).1 k (hdirty k hk)
  · intro other hne l hl
    exact Locks.mem_release.mpr ⟨hl, hne⟩
  · intro t
    right
    rw [Database.commit, heq]
    exact congrArg (fun candles : CandleTable => candles.find t.toInt) happlied.candles
  · intro start
    by_cases hsame : start = taken.window.start
    · rw [hsame]
      exact .inl hlock
    · right
      have hother := Sqlite.Store.markOf_unmark hs.marks hm hsame
      rw [hid] at hother
      have hmark : ((db.committed.apply taken.window.start packed).unmark
          taken.snapshot.id).markOf start =
            (db.committed.unmark taken.snapshot.id).markOf start :=
        Sqlite.Store.markOf_unmark_congr happlied.dirty _ start
      rw [Database.commit, heq, hmark, hother]
  · intro hash found hfound
    rw [Database.commit, heq]
    exact happlied.stored hash found hfound
  · intro other hstands
    refine ⟨?_, fun client held => hstands.spent client (Locks.mem_release.mp held).1⟩
    rw [Database.commit, heq, ← hwritten]
    exact Sqlite.writeWindow_faithful hstands.faithful

end WriteBack

section Crowd

/-- A client that packs meets a payload of these. -/
def Packs (payloads : Set (List UInt8)) : Nat → Choice → Database → Client → Prop
  | _, .runs, _, .packs taken =>
    ∀ payload, Segments.encodeText taken.snapshot.candles = .ok payload → payload ∈ payloads
  | _, _, _, _ => True

omit [DecimalParser] [Sha256] [Segments.Zstd] in
theorem enter_writing (db : Database) (who : Nat) {candles : List Candle} {batch : Batch}
    (hsome : candles.isEmpty = false) (hbatch : Batch.of interval candles = .ok batch) :
    Writing interval db who ⟨batch, .upsert (batch.rows.rows.map (·.candle)), [], []⟩ :=
  ⟨⟨candles, hsome, hbatch⟩, ⟨[], rfl, rfl, nofun⟩, nofun, nofun, rfl⟩

theorem enter_relies (db : Database) (who : Nat) (call : Call) :
    Relies interval payloads db who (Client.enter interval call) := by
  cases call with
  | upsertCandles candles =>
    cases hempty : candles.isEmpty with
    | true =>
      rw [Client.enter, if_pos hempty]
      trivial
    | false =>
      rw [Client.enter, if_neg (by simp [hempty])]
      cases hbatch : Batch.of interval candles with
      | error error => trivial
      | ok batch => exact enter_writing db who hempty hbatch
  | buildWindow windowStartMs =>
    rw [Client.enter]
    cases hwindow : Segments.window interval windowStartMs with
    | none => trivial
    | some window => exact Segments.window_start hwindow

theorem writer_kept {w : Writer} {left : Database × Client} (hdb : Sound interval payloads db)
    (hw : Writing interval db who w) (h : w.runs db who = some left) :
    Kept interval payloads db who left := by
  unfold Writer.runs at h
  cases hp : w.pending with
  | upsert rows =>
    cases rows with
    | nil =>
      rw [hp] at h
      cases h
      exact startMark_kept hdb hw hp
    | cons row rows =>
      rw [hp] at h
      exact upsertRow_kept hdb hw hp h
  | mark windows drawn =>
    cases windows with
    | nil =>
      rw [hp] at h
      cases h
      exact ⟨commit_sound hdb hw hp, commit_leaves hw hp, trivial⟩
    | cons windowStart windows =>
      cases drawn with
      | none =>
        rw [hp] at h
        cases h
        exact drawId_kept hdb hw hp
      | some drawn =>
        rw [hp] at h
        exact markRow_kept hdb hw hp h

variable [ExactParser]

theorem stage_kept {taken : Taken} {packed : Packed} {stage : Stage} {left : Database × Client}
    (hinj : Set.InjOn Sha256.digest payloads) (hdb : Sound interval payloads db)
    (hb : WritingBack interval payloads db who taken packed stage)
    (h : stage.runs db who taken packed = some left) : Kept interval payloads db who left := by
  cases stage with
  | lockMark => exact lockMark_kept hdb hb h
  | store => exact store_kept hdb hb h
  | index inserted =>
    simp only [Stage.runs] at h
    by_cases hfree : db.locks.free who (.entry taken.window.start) = true
    · rw [if_pos hfree] at h
      cases h
      obtain ⟨hholding, hstoring⟩ := hb.staged
      have hquiet : Quiet db (db.lock who (.entry taken.window.start)) who := .lock hfree nofun
      apply hquiet.kept hdb
      exact ⟨hquiet.stands hb.stands, hb.packs, hb.met,
        ⟨List.mem_cons_of_mem _ hholding.lock, hholding.mark⟩, hstoring.lock⟩
    · rw [if_neg hfree] at h
      cases h
  | unmark inserted =>
    cases h
    exact (Quiet.refl db who).kept hdb ⟨hb.stands, hb.packs, hb.met, hb.staged⟩
  | commit inserted =>
    cases h
    exact writtenBack_kept hinj hdb hb

/-- Every step of a client keeps the database sound, and what every client
relies on. -/
theorem step_kept {client : Client} {choice : Choice} {left : Database × Client}
    (hinj : Set.InjOn Sha256.digest payloads) (hdb : Sound interval payloads db)
    (hr : Relies interval payloads db who client) (hpacks : Packs payloads who choice db client)
    (h : (crowd interval).step who choice db client = some left) :
    Kept interval payloads db who left := by
  cases choice with
  | fails =>
    cases h
    exact kept_rollback hdb
  | runs =>
    cases client with
    | writer w => exact writer_kept hdb hr h
    | reads window =>
      simp only [crowd, Client.runs] at h
      cases hread : db.committed.readWindow window with
      | none =>
        rw [hread] at h
        cases h
        exact (Quiet.refl db who).kept hdb trivial
      | some snapshot =>
        rw [hread] at h
        cases h
        exact (Quiet.refl db who).kept hdb (hdb.stands hr hread)
    | packs taken =>
      simp only [crowd, Client.runs] at h
      cases hpack : pack taken.snapshot with
      | error error =>
        rw [hpack] at h
        cases h
        exact (Quiet.refl db who).kept hdb trivial
      | ok packed =>
        rw [hpack] at h
        cases h
        exact (Quiet.refl db who).kept hdb ⟨hr, hpack, hpacks, trivial⟩
    | writesBack taken packed stage => exact stage_kept hinj hdb hr h
    | done => cases h

theorem crowd_keeps (hinj : Set.InjOn Sha256.digest payloads) :
    (crowd interval).Keeps (Sound interval payloads) (Relies interval payloads)
      (Packs payloads) := by
  refine ⟨fun {db} who call _ => enter_relies db who call, ?_, ?_⟩
  · intro who choice db v client q hdb hr hpacks h
    have hkept := step_kept hinj hdb hr hpacks h
    exact ⟨hkept.sound, hkept.relies⟩
  · intro who other choice db v client q r hdb hr hpacks h hne hother
    exact (step_kept hinj hdb hr hpacks h).leaves.relies hdb hne hother

end Crowd

end

end QuantForge.Postgres.Protocol
