import Mathlib.Data.Prod.Lex
import QuantForge.Storage.Postgres.Plans

namespace QuantForge.Postgres.Protocol

/-- Which locks are taken after which: rows in the order of their keys, the marks
after the candles, a segment after its mark, and its entry last. -/
def Lock.rank : Lock → Nat ×ₗ Int
  | .number _ => toLex (0, 0)
  | .candle openTimeMs => toLex (1, openTimeMs.toInt)
  | .mark windowStartMs => toLex (2, windowStartMs.toInt)
  | .segment _ => toLex (3, 0)
  | .entry _ => toLex (4, 0)

def Lock.level (l : Lock) : Nat := (ofLex l.rank).1

theorem Lock.rank_lt {held l : Lock} (h : held.level < l.level) : held.rank < l.rank :=
  Prod.Lex.lt_iff.mpr (.inl h)

/-- The lock that a client waits for next. -/
def Client.wants : Client → Option Lock
  | .writer ⟨_, .upsert (row :: _), _, _⟩ => some (.candle row.openTimeMs)
  | .writer ⟨_, .mark (windowStart :: _) (some _), _, _⟩ => some (.mark windowStart)
  | .writesBack taken _ .lockMark => some (.mark taken.window.start)
  | .writesBack _ (.write hash ..) .store => some (.segment hash)
  | .writesBack taken _ (.index _) => some (.entry taken.window.start)
  | _ => none

/-- A lock below all that a writer is yet to take. -/
def Pending.Above (l : Lock) : Pending → Prop
  | .upsert rows => l.level ≤ 1 ∧ ∀ row ∈ rows, l.rank < (Lock.candle row.openTimeMs).rank
  | .mark windows _ => ∀ windowStart ∈ windows, l.rank < (Lock.mark windowStart).rank

/-- A lock that a client may hold, with which it may go on to take those it has
yet to take. -/
def Client.Holds (l : Lock) : Client → Prop
  | .writer w => w.pending.Above l
  | .writesBack _ _ .store => l.level ≤ 2
  | .writesBack _ _ (.index _) => l.level ≤ 3
  | .writesBack _ _ (.unmark _) | .writesBack _ _ (.commit _) => True
  | _ => False

/-- A client takes rows in the order of their keys, and stores what it packed. -/
def Client.Ready : Client → Prop
  | .writer ⟨_, .upsert rows, _, _⟩ =>
    rows.Pairwise fun a b => a.openTimeMs.toInt < b.openTimeMs.toInt
  | .writer ⟨_, .mark windows _, _, _⟩ => windows.Pairwise fun a b => a.toInt < b.toInt
  | .writesBack _ packed .store => ∃ hash payloadLen stored firstOpenMs lastOpenMs barCount,
    packed = .write hash payloadLen stored firstOpenMs lastOpenMs barCount
  | _ => True

theorem rank_candle {a b : Int64} (h : a.toInt < b.toInt) :
    (Lock.candle a).rank < (Lock.candle b).rank := by
  rw [Lock.rank, Lock.rank, Prod.Lex.toLex_lt_toLex]
  exact .inr ⟨rfl, h⟩

theorem rank_mark {a b : Int64} (h : a.toInt < b.toInt) :
    (Lock.mark a).rank < (Lock.mark b).rank := by
  rw [Lock.rank, Lock.rank, Prod.Lex.toLex_lt_toLex]
  exact .inr ⟨rfl, h⟩

/-- A client waits for a lock above all that it holds. -/
theorem wants_above {client : Client} {held l : Lock} (hwants : client.wants = some l)
    (hheld : client.Holds held) : held.rank < l.rank := by
  unfold Client.wants at hwants
  split at hwants
  · cases hwants
    exact hheld.2 _ List.mem_cons_self
  · cases hwants
    exact hheld _ List.mem_cons_self
  · exact hheld.elim
  · cases hwants
    exact Lock.rank_lt (Nat.lt_succ_of_le hheld)
  · cases hwants
    exact Lock.rank_lt (Nat.lt_succ_of_le hheld)
  · cases hwants

section

variable [DecimalParser] [Sha256] [Segments.Zstd] {interval : Interval} {db v : Database}
  {who : Nat} {client next : Client}

/-- A client that cannot go on waits for a lock of another, or is over. -/
theorem blocked_wants (hready : client.Ready) (h : client.runs db who = none) :
    client = .done ∨ ∃ l, client.wants = some l ∧ db.locks.free who l = false := by
  cases client with
  | writer w =>
    obtain ⟨batch, pending, written, marked⟩ := w
    cases pending with
    | upsert rows =>
      cases rows with
      | nil => cases h
      | cons row rows =>
        simp only [Client.runs, Writer.runs, Writer.upsertRow] at h
        split_ifs at h with hfree
        exact .inr ⟨_, rfl, Bool.eq_false_iff.mpr hfree⟩
    | mark windows drawn =>
      cases windows with
      | nil => cases h
      | cons windowStart windows =>
        cases drawn with
        | none => cases h
        | some drawn =>
          simp only [Client.runs, Writer.runs, Writer.markRow] at h
          split_ifs at h with hfree
          exact .inr ⟨_, rfl, Bool.eq_false_iff.mpr hfree⟩
  | reads window =>
    simp only [Client.runs] at h
    split at h <;> cases h
  | packs taken =>
    simp only [Client.runs] at h
    split at h <;> cases h
  | writesBack taken packed stage =>
    cases stage with
    | lockMark =>
      simp only [Client.runs, Stage.runs, WriteBack.lockMark] at h
      by_cases hfree : db.locks.free who (.mark taken.window.start) = true
      · rw [if_pos hfree] at h
        split at h
        · cases h
        · split_ifs at h
      · exact .inr ⟨_, rfl, Bool.eq_false_iff.mpr hfree⟩
    | store =>
      obtain ⟨hash, payloadLen, stored, firstOpenMs, lastOpenMs, barCount, rfl⟩ := hready
      simp only [Client.runs, Stage.runs, WriteBack.store] at h
      split_ifs at h with hfree
      exact .inr ⟨_, rfl, Bool.eq_false_iff.mpr hfree⟩
    | index inserted =>
      simp only [Client.runs, Stage.runs] at h
      split_ifs at h with hfree
      exact .inr ⟨_, rfl, Bool.eq_false_iff.mpr hfree⟩
    | unmark inserted => cases h
    | commit inserted => cases h
  | done => exact .inl rfl

/-- A client holds no lock but such as it may hold, and is ready for its next. -/
structure Orderly (db : Database) (who : Nat) (client : Client) : Prop where
  ready : client.Ready
  holds : ∀ l, (who, l) ∈ db.locks → client.Holds l

/-- A client's step takes locks for itself alone. -/
def Owns (db v : Database) (who : Nat) : Prop :=
  ∀ other, other ≠ who → ∀ l, (other, l) ∈ v.locks → (other, l) ∈ db.locks

omit [DecimalParser] [Sha256] [Segments.Zstd] in
theorem owns_refl (db : Database) (who : Nat) : Owns db db who := fun _ _ _ h => h

omit [DecimalParser] [Sha256] [Segments.Zstd] in
theorem Owns.trans {mid : Database} (h : Owns db mid who) (hnext : Owns mid v who) :
    Owns db v who :=
  fun other hne l hl => h other hne l (hnext other hne l hl)

omit [DecimalParser] [Sha256] [Segments.Zstd] in
theorem owns_cons {l : Lock} {rows : Sqlite.Store} (h : v = ⟨rows, (who, l) :: db.locks⟩) :
    Owns db v who := by
  intro other hne held hheld
  rw [h, List.mem_cons] at hheld
  exact hheld.resolve_left fun hsame => hne (Prod.mk.inj hsame).1

omit [DecimalParser] [Sha256] [Segments.Zstd] in
theorem owns_release {rows : Sqlite.Store} (h : v = ⟨rows, db.locks.release who⟩) :
    Owns db v who := by
  intro other _ held hheld
  rw [h] at hheld
  exact (Locks.mem_release.mp hheld).1

omit [DecimalParser] [Sha256] [Segments.Zstd] in
/-- A client that is over holds nothing. -/
theorem orderly_done {rows : Sqlite.Store} (h : v = ⟨rows, db.locks.release who⟩) :
    Orderly v who .done := by
  refine ⟨trivial, ?_⟩
  intro l hl
  rw [h] at hl
  exact (Locks.mem_release.mp hl).2 rfl

omit [DecimalParser] [Sha256] [Segments.Zstd] in
/-- A client without locks that does not take any. -/
theorem orderly_free (hready : next.Ready) (hfree : ∀ l, (who, l) ∉ db.locks) :
    Orderly db who next := ⟨hready, fun l hl => absurd hl (hfree l)⟩

omit [DecimalParser] [Sha256] [Segments.Zstd] in
/-- A client that takes a lock it may hold, and goes on to those above. -/
theorem orderly_cons {l : Lock} {rows : Sqlite.Store} (h : v = ⟨rows, (who, l) :: db.locks⟩)
    (hready : next.Ready) (hnew : next.Holds l)
    (hold : ∀ held, (who, held) ∈ db.locks → next.Holds held) : Orderly v who next := by
  refine ⟨hready, ?_⟩
  intro held hheld
  rw [h, List.mem_cons] at hheld
  rcases hheld with hsame | hheld
  · rw [(Prod.mk.inj hsame).2]
    exact hnew
  · exact hold held hheld

omit [DecimalParser] [Sha256] [Segments.Zstd] in
theorem writer_orderly {w : Writer} (ho : Orderly db who (.writer w))
    (h : w.runs db who = some (v, next)) : Orderly v who next ∧ Owns db v who := by
  obtain ⟨batch, pending, written, marked⟩ := w
  obtain ⟨hready, hholds⟩ := ho
  cases pending with
  | upsert rows =>
    cases rows with
    | nil =>
      simp only [Writer.runs, Writer.startMark] at h
      split at h <;> cases h
      · next windows _ =>
        refine ⟨⟨windows.rising, ?_⟩, owns_refl db who⟩
        intro l hl windowStart _
        have hlevel : l.level ≤ 1 := (hholds l hl).1
        exact Lock.rank_lt (Nat.lt_succ_of_le hlevel)
      · exact ⟨orderly_done rfl, owns_release rfl⟩
    | cons row rows =>
      simp only [Writer.runs, Writer.upsertRow] at h
      split at h <;> cases h
      obtain ⟨hbelow, hrest⟩ := List.pairwise_cons.mp hready
      refine ⟨orderly_cons rfl hrest ⟨le_rfl, fun other hother => rank_candle (hbelow other hother)⟩
        ?_, owns_cons rfl⟩
      intro held hheld
      obtain ⟨hlevel, habove⟩ := hholds held hheld
      exact ⟨hlevel, fun other hother => habove other (List.mem_cons_of_mem _ hother)⟩
  | mark windows drawn =>
    cases windows with
    | nil =>
      cases h
      exact ⟨orderly_done rfl, owns_release rfl⟩
    | cons windowStart windows =>
      have hnumber : ∀ (id : Nat) (start : Int64), (Lock.number id).rank < (Lock.mark start).rank :=
        fun id start => Lock.rank_lt (Nat.zero_lt_succ 1)
      cases drawn with
      | none =>
        cases h
        exact ⟨orderly_cons rfl hready (fun start _ => hnumber _ start) hholds, owns_cons rfl⟩
      | some drawn =>
        obtain ⟨hbelow, hrest⟩ := List.pairwise_cons.mp hready
        have hmark : ∀ start ∈ windows, (Lock.mark windowStart).rank < (Lock.mark start).rank :=
          fun start hstart => rank_mark (hbelow start hstart)
        have hold : ∀ held, (who, held) ∈ db.locks →
            ∀ start ∈ windows, held.rank < (Lock.mark start).rank :=
          fun held hheld start hstart => hholds held hheld start (List.mem_cons_of_mem _ hstart)
        simp only [Writer.runs, Writer.markRow] at h
        split_ifs at h
        · cases h
          refine ⟨orderly_cons rfl hrest hmark ?_, ?_⟩
          · intro held hheld
            rcases List.mem_cons.mp hheld with hsame | hheld
            · rw [(Prod.mk.inj hsame).2]
              exact fun start _ => hnumber _ start
            · exact hold held hheld
          · have hdrawn : Owns db (db.draw who) who := owns_cons rfl
            exact hdrawn.trans (owns_cons rfl)
        · cases h
          exact ⟨orderly_cons rfl hrest hmark hold, owns_cons rfl⟩

omit [DecimalParser] [Sha256] [Segments.Zstd] in
theorem stage_orderly {taken : Sqlite.Taken} {packed : Refresh.Packed} {stage : Stage}
    (ho : Orderly db who (.writesBack taken packed stage))
    (h : stage.runs db who taken packed = some (v, next)) :
    Orderly v who next ∧ Owns db v who := by
  obtain ⟨hready, hholds⟩ := ho
  cases stage with
  | lockMark =>
    simp only [Stage.runs, WriteBack.lockMark] at h
    split_ifs at h
    split at h
    · cases h
      exact ⟨orderly_done rfl, owns_release rfl⟩
    · split_ifs at h
      · cases h
        exact ⟨orderly_done rfl, owns_release rfl⟩
      · cases h
        refine ⟨?_, owns_cons rfl⟩
        cases packed with
        | write hash payloadLen stored firstOpenMs lastOpenMs barCount =>
          exact orderly_cons rfl ⟨hash, payloadLen, stored, firstOpenMs, lastOpenMs, barCount, rfl⟩
            le_rfl fun held hheld => (hholds held hheld).elim
        | keep => exact orderly_cons rfl trivial trivial fun held hheld => (hholds held hheld).elim
        | clear =>
          exact orderly_cons rfl trivial (Nat.le_succ 2) fun held hheld => (hholds held hheld).elim
  | store =>
    simp only [Stage.runs, WriteBack.store] at h
    split at h
    · split_ifs at h
      · cases h
        exact ⟨⟨trivial, fun held hheld => Nat.le_succ_of_le (hholds held hheld)⟩, owns_refl db who⟩
      · cases h
        exact ⟨orderly_cons rfl trivial le_rfl fun held hheld =>
          Nat.le_succ_of_le (hholds held hheld), owns_cons rfl⟩
    · cases h
  | index inserted =>
    simp only [Stage.runs] at h
    split_ifs at h
    cases h
    exact ⟨orderly_cons rfl trivial trivial fun _ _ => trivial, owns_cons rfl⟩
  | unmark inserted =>
    cases h
    exact ⟨⟨trivial, fun _ _ => trivial⟩, owns_refl db who⟩
  | commit inserted =>
    cases h
    exact ⟨orderly_done rfl, owns_release rfl⟩

/-- Every statement takes its locks in their order. -/
theorem runs_orderly (ho : Orderly db who client) (h : client.runs db who = some (v, next)) :
    Orderly v who next ∧ Owns db v who := by
  cases client with
  | writer w => exact writer_orderly ho h
  | reads window =>
    have hfree : ∀ l, (who, l) ∉ db.locks := fun l hl => ho.holds l hl
    simp only [Client.runs] at h
    split at h <;> cases h <;> exact ⟨orderly_free trivial hfree, owns_refl db who⟩
  | packs taken =>
    have hfree : ∀ l, (who, l) ∉ db.locks := fun l hl => ho.holds l hl
    simp only [Client.runs] at h
    split at h <;> cases h <;> exact ⟨orderly_free trivial hfree, owns_refl db who⟩
  | writesBack taken packed stage => exact stage_orderly ho h
  | done => cases h

/-- No client holds a lock out of order, and no lock is left by one that is gone. -/
structure InOrder (s : Scene) : Prop where
  members : ∀ (who : Nat) (client : Client), s.members[who]? = some client →
    Orderly s.world who client
  owners : ∀ who l, (who, l) ∈ s.world.locks → who < s.members.length

omit [DecimalParser] [Sha256] [Segments.Zstd] in
theorem enter_ready (call : Call) : (Client.enter interval call).Ready := by
  cases call with
  | upsertCandles candles =>
    rw [Client.enter]
    split_ifs
    · trivial
    · split
      · next batch _ => exact List.pairwise_map.mpr batch.rows.rising
      · trivial
  | buildWindow windowStartMs =>
    rw [Client.enter]
    split <;> trivial

omit [DecimalParser] [Sha256] [Segments.Zstd] in
/-- One client's step leaves the others in order. -/
theorem InOrder.set {s : Scene} (h : InOrder s) (hclient : s.members[who]? = some client)
    (ho : Orderly v who next) (hown : Owns s.world v who) :
    InOrder ⟨v, s.members.set who next⟩ := by
  have hinside : who < s.members.length := (List.getElem?_eq_some_iff.mp hclient).1
  refine ⟨?_, ?_⟩
  · intro other last hlast
    rw [List.getElem?_set] at hlast
    split_ifs at hlast with hsame
    · rw [← Option.some.inj hlast, ← hsame]
      exact ho
    · have hold := h.members other last hlast
      exact ⟨hold.ready, fun l hl => hold.holds l (hown other (Ne.symm hsame) l hl)⟩
  · intro other l hl
    rw [List.length_set]
    by_cases hsame : other = who
    · rw [hsame]
      exact hinside
    · exact h.owners other l (hown other hsame l hl)

theorem next_inOrder {s : Scene} (h : InOrder s) (op : Op) :
    InOrder ((crowd interval).machine.next s op) := by
  cases op with
  | enters call =>
    refine ⟨?_, ?_⟩
    · intro who client hclient
      have hentered : (s.members ++ [Client.enter interval call])[who]? = some client := hclient
      by_cases old : who < s.members.length
      · rw [List.getElem?_append_left old] at hentered
        exact h.members who client hentered
      · rw [List.getElem?_append_right (Nat.not_lt.mp old), List.getElem?_singleton] at hentered
        split_ifs at hentered
        rw [← Option.some.inj hentered]
        refine ⟨enter_ready call, ?_⟩
        intro l hl
        exact absurd (h.owners who l hl) old
    · intro who l hl
      have hold := h.owners who l hl
      show who < (s.members ++ [Client.enter interval call]).length
      rw [List.length_append]
      omega
  | acts who choice =>
    obtain ⟨stays, -⟩ | ⟨client, v, next, hclient, hstep, hnext⟩ :=
      Crowd.acts_cases (crowd interval) s who choice
    · rw [stays]
      exact h
    · rw [hnext]
      cases choice with
      | fails =>
        cases hstep
        exact h.set hclient (orderly_done rfl) (owns_release rfl)
      | runs =>
        obtain ⟨ho, hown⟩ := runs_orderly (h.members who client hclient) hstep
        exact h.set hclient ho hown

theorem reached_inOrder (ops : List Op) : InOrder (reached interval ops) := by
  apply (crowd interval).machine.run_keeps InOrder
  · refine ⟨?_, ?_⟩
    · intro who client hclient
      simp [Scene.empty] at hclient
    · intro who l hl
      cases hl
  · intro s op h
    exact next_inOrder h op

/-- Not all of the clients that are left wait for one another. -/
theorem someone_runs {s : Scene} (h : InOrder s) :
    (∀ client ∈ s.members, client = .done) ∨
      ∃ (who : Nat) (client : Client), s.members[who]? = some client ∧
        (client.runs s.world who).isSome = true := by
  classical
  by_cases hruns : ∃ (who : Nat) (client : Client), s.members[who]? = some client ∧
      (client.runs s.world who).isSome = true
  · exact .inr hruns
  · left
    let waiting := (Finset.range s.members.length).filter fun who => s.members[who]? ≠ some .done
    let wants : Nat → Lock := fun who => (s.members[who]?.bind Client.wants).getD (.number 0)
    have hwaits : ∀ who ∈ waiting, ∃ client l, s.members[who]? = some client ∧
        client.wants = some l ∧ wants who = l ∧ s.world.locks.free who l = false := by
      intro who hwho
      obtain ⟨hrange, hne⟩ := Finset.mem_filter.mp hwho
      obtain ⟨client, hclient⟩ : ∃ client, s.members[who]? = some client :=
        ⟨_, List.getElem?_eq_getElem (Finset.mem_range.mp hrange)⟩
      have hnone : client.runs s.world who = none := by
        rw [← Option.not_isSome_iff_eq_none]
        intro hsome
        exact hruns ⟨who, client, hclient, hsome⟩
      rcases blocked_wants (h.members who client hclient).ready hnone with
        hdone | ⟨l, hwants, hfree⟩
      · rw [hclient, hdone] at hne
        exact absurd rfl hne
      · refine ⟨client, l, hclient, hwants, ?_, hfree⟩
        simp [wants, hclient, hwants]
    have hempty : waiting = ∅ := by
      apply s.world.locks.none_waits Lock.rank wants
      · intro who hwho held hheld
        obtain ⟨client, l, hclient, hwants, hsame, -⟩ := hwaits who hwho
        rw [hsame]
        exact wants_above hwants ((h.members who client hclient).holds held hheld)
      · intro who hwho
        obtain ⟨client, l, hclient, hwants, hsame, hfree⟩ := hwaits who hwho
        rw [← Bool.not_eq_true, Locks.free_iff] at hfree
        simp only [not_forall] at hfree
        obtain ⟨other, hheld, -⟩ := hfree
        rw [hsame]
        have hrange := Finset.mem_range.mpr (h.owners other l hheld)
        refine ⟨other, Finset.mem_filter.mpr ⟨hrange, ?_⟩, hheld⟩
        intro hdone
        exact (h.members other .done hdone).holds l hheld
    intro client hclient
    obtain ⟨who, hwho, hat⟩ := List.mem_iff_getElem.mp hclient
    by_contra hne
    have hmem : who ∈ waiting := by
      refine Finset.mem_filter.mpr ⟨Finset.mem_range.mpr hwho, ?_⟩
      rw [List.getElem?_eq_getElem hwho, hat]
      exact fun hdone => hne (Option.some.inj hdone)
    rw [hempty] at hmem
    cases hmem

omit [DecimalParser] [Sha256] [Segments.Zstd] in
theorem length_put {Row : Type} {key : Row → Int} (t : Table key) (row : Row) :
    (t.put row).rows.length ≤ t.rows.length + 1 := by
  have hapart : ∀ rows : List Row, (rows.filter fun r => key r < key row).length +
      (rows.filter fun r => key row < key r).length ≤ rows.length := by
    intro rows
    induction rows with
    | nil => rfl
    | cons r rows ih =>
      rcases lt_trichotomy (key r) (key row) with hlt | heq | hgt
      · simp [hlt, hlt.not_gt]
        omega
      · simp [heq]
        omega
      · simp [hgt, hgt.not_gt]
        omega
  have hrows := hapart t.rows
  simp only [Table.put, List.length_append, List.length_cons]
  omega

omit [DecimalParser] [Sha256] [Segments.Zstd] in
/-- A writer marks no more windows than its batch forces and its rows lie in. -/
theorem written_length {b : Batch} {opens : List Int64} {windows all : Table Int64.toInt}
    (h : b.written windows opens = .ok all) :
    all.rows.length ≤ windows.rows.length + opens.length := by
  induction opens generalizing windows with
  | nil =>
    rw [Batch.written] at h
    rw [Except.ok.inj h]
    exact Nat.le_add_right _ _
  | cons openTimeMs opens ih =>
    rw [Batch.written] at h
    split at h
    · next window _ =>
      have hrest := ih h
      have hput := length_put windows window
      rw [List.length_cons]
      omega
    · cases h

/-- How many statements a client runs at most before it is over. -/
def Client.left : Client → Nat
  | .writer ⟨batch, .upsert rows, written, _⟩ =>
    rows.length + 3 + 2 * (batch.forced.rows.length + written.length + rows.length)
  | .writer ⟨_, .mark windows drawn, _, _⟩ => 2 * windows.length + if drawn.isSome then 1 else 2
  | .reads _ => 7
  | .packs _ => 6
  | .writesBack _ _ .lockMark => 5
  | .writesBack _ _ .store => 4
  | .writesBack _ _ (.index _) => 3
  | .writesBack _ _ (.unmark _) => 2
  | .writesBack _ _ (.commit _) => 1
  | .done => 0

/-- Every statement brings its client nearer to its end. -/
theorem runs_left (h : client.runs db who = some (v, next)) : next.left < client.left := by
  cases client with
  | writer w =>
    obtain ⟨batch, pending, written, marked⟩ := w
    cases pending with
    | upsert rows =>
      cases rows with
      | nil =>
        simp only [Client.runs, Writer.runs, Writer.startMark] at h
        split at h <;> cases h
        · next windows hwindows =>
          have hlength := written_length hwindows
          simp only [List.length_map] at hlength
          simp only [Client.left, Option.isSome_none, List.length_nil]
          simp only [Bool.false_eq_true, if_false]
          omega
        · simp [Client.left]
      | cons row rows =>
        simp only [Client.runs, Writer.runs, Writer.upsertRow] at h
        split at h <;> cases h
        simp only [Client.left, List.length_cons]
        split_ifs
        · omega
        · simp only [List.length_append, List.length_singleton]
          omega
    | mark windows drawn =>
      cases windows with
      | nil =>
        cases h
        cases drawn <;> simp [Client.left]
      | cons windowStart windows =>
        cases drawn with
        | none =>
          cases h
          simp [Client.left]
        | some drawn =>
          simp only [Client.runs, Writer.runs, Writer.markRow] at h
          split_ifs at h
          · cases h
            simp [Client.left, Writer.putMark]
            omega
          · cases h
            simp [Client.left, Writer.putMark]
            omega
  | reads window =>
    simp only [Client.runs] at h
    split at h <;> cases h <;> simp [Client.left]
  | packs taken =>
    simp only [Client.runs] at h
    split at h <;> cases h <;> simp [Client.left]
  | writesBack taken packed stage =>
    cases stage with
    | lockMark =>
      simp only [Client.runs, Stage.runs, WriteBack.lockMark] at h
      split_ifs at h
      split at h
      · cases h
        simp [Client.left]
      · split_ifs at h <;> cases h
        · simp [Client.left]
        · cases packed <;> simp [Client.left, begins]
    | store =>
      simp only [Client.runs, Stage.runs, WriteBack.store] at h
      split at h
      · split_ifs at h <;> cases h <;> simp [Client.left]
      · cases h
    | index inserted =>
      simp only [Client.runs, Stage.runs] at h
      split_ifs at h
      cases h
      simp [Client.left]
    | unmark inserted =>
      cases h
      simp [Client.left]
    | commit inserted =>
      cases h
      simp [Client.left]
  | done => cases h

/-- A step in which a client's statement runs. -/
def Runs (interval : Interval) (s : Scene) (op : Op) : Prop :=
  ∃ who, op = .acts who .runs ∧ (crowd interval).takesTurn who s op = true

/-- How many statements the calls of a scene run at most before they are over. -/
def left (s : Scene) : Nat := (s.members.map Client.left).sum

omit [DecimalParser] [Sha256] [Segments.Zstd] in
theorem sum_set_lt {members : List Client} (hclient : members[who]? = some client)
    (h : next.left < client.left) :
    ((members.set who next).map Client.left).sum < (members.map Client.left).sum := by
  induction members generalizing who with
  | nil => cases hclient
  | cons first members ih =>
    cases who with
    | zero =>
      rw [List.getElem?_cons_zero] at hclient
      rw [Option.some.inj hclient]
      simp only [List.set_cons_zero, List.map_cons, List.sum_cons]
      omega
    | succ who =>
      rw [List.getElem?_cons_succ] at hclient
      have hrest := ih hclient
      simp only [List.set_cons_succ, List.map_cons, List.sum_cons]
      omega

theorem next_left {s : Scene} {op : Op} (h : Runs interval s op) :
    left ((crowd interval).machine.next s op) < left s := by
  obtain ⟨who, rfl, hturn⟩ := h
  obtain ⟨-, idle⟩ | ⟨client, v, next, hclient, hstep, hnext⟩ :=
    Crowd.acts_cases (crowd interval) s who .runs
  · simp [Crowd.takesTurn, idle] at hturn
  · rw [hnext]
    exact sum_set_lt hclient (runs_left hstep)

/-- No order of statements deadlocks, and none goes on forever. Wherever writers and
refreshes have got to, however many and whichever of them failed: as long as
statements run, there are at most so many of them, and after any of them either
every call is over or some call's next statement runs. -/
theorem calls_end (interval : Interval) (ops later : List Op)
    (hruns : (crowd interval).machine.Every (Runs interval) (reached interval ops) later) :
    let last := reached interval (ops ++ later)
    later.length + left last ≤ left (reached interval ops) ∧
      ((∀ client ∈ last.members, client = .done) ∨ ∃ op, Runs interval last op) := by
  intro last
  refine ⟨?_, ?_⟩
  · have hspent : ∀ s, (crowd interval).machine.Every (Runs interval) s later →
        later.length + left ((crowd interval).machine.run s later) ≤ left s := by
      clear hruns last
      induction later with
      | nil => exact fun s _ => (Nat.zero_add _).le
      | cons op later ih =>
        intro s hs
        have hfirst := next_left hs.1
        have hrest := ih _ hs.2
        rw [Machine.run_cons, List.length_cons]
        omega
    have h := hspent _ hruns
    rw [reached, ← Machine.run_append] at h
    exact h
  · have horder : InOrder last := reached_inOrder (ops ++ later)
    rcases someone_runs horder with hdone | ⟨who, client, hclient, hsome⟩
    · exact .inl hdone
    · right
      refine ⟨.acts who .runs, who, rfl, ?_⟩
      have hstep : ((crowd interval).step who .runs last.world client).isSome = true := hsome
      have hmember : last.members[who]? = some client := hclient
      simp [Crowd.takesTurn, hmember, hstep]

end

section Sample

attribute [local instance] Segments.exactTextParser Sqlite.sampleSha256 Sqlite.sampleZstd

/-- A refresh that has seven statements left, and a writer that has six. -/
theorem sampleOps_end :
    let ops := sampleOps.take 11
    let later : List Op := [.acts 1 .runs, .acts 2 .runs]
    let last := reached .m1 (ops ++ later)
    left (reached .m1 ops) = 13 ∧
      (later.length + left last ≤ left (reached .m1 ops) ∧
        ((∀ client ∈ last.members, client = .done) ∨ ∃ op, Runs .m1 last op)) := by
  have hruns : (crowd .m1).machine.Every (Runs .m1) (reached .m1 (sampleOps.take 11))
      [.acts 1 .runs, .acts 2 .runs] := by
    refine ⟨⟨1, rfl, ?_⟩, ⟨2, rfl, ?_⟩, trivial⟩
    · decide +kernel
    · decide +kernel
  exact ⟨by decide +kernel, calls_end .m1 (sampleOps.take 11) _ hruns⟩

end Sample

end QuantForge.Postgres.Protocol
