import QuantForge.Storage.Sqlite.Segments
import QuantForge.Storage.Sqlite.Upsert

namespace QuantForge.Sqlite

/-- The marks: each on a window of the interval, and no id twice nor yet to be
given out. -/
structure Marks (interval : Interval) (s : Store) : Prop where
  starts : ∀ m ∈ s.dirty.rows, ∃ w : Segments.Window, w.Of interval ∧ w.start = m.windowStartMs
  fresh : ∀ m ∈ s.dirty.rows, m.id < s.nextId
  distinct : ∀ m ∈ s.dirty.rows, ∀ n ∈ s.dirty.rows, m.id = n.id → m = n

namespace Store

theorem markOf_some {s : Store} {start : Int64} {m : Mark} :
    s.markOf start = some m ↔ m ∈ s.dirty.rows ∧ m.windowStartMs = start := by
  rw [markOf, Table.find_iff, Int64.toInt_inj]

theorem entryOf_some {s : Store} {start : Int64} {e : Entry} :
    s.entryOf start = some e ↔ e ∈ s.index.rows ∧ e.windowStartMs = start := by
  rw [entryOf, Table.find_iff, Int64.toInt_inj]

theorem markOf_mark (s : Store) (start : Int64) :
    (s.mark start).markOf start = some ⟨s.nextId, start⟩ :=
  s.dirty.find_put ⟨s.nextId, start⟩

theorem markOf_mark_of_ne (s : Store) {start other : Int64} (h : start ≠ other) :
    (s.mark start).markOf other = s.markOf other :=
  s.dirty.find_put_of_ne fun hkey => h (Int64.toInt_inj.mp hkey)

theorem mark_marks {interval : Interval} {s : Store} {w : Segments.Window} (hs : Marks interval s)
    (hw : w.Of interval) : Marks interval (s.mark w.start) := by
  have hold : ∀ m ∈ (s.mark w.start).dirty.rows, m = ⟨s.nextId, w.start⟩ ∨ m ∈ s.dirty.rows := by
    intro m hm
    rcases s.dirty.mem_put.mp hm with hnew | ⟨hm, -⟩
    · exact .inl hnew
    · exact .inr hm
  refine ⟨?_, ?_, ?_⟩
  · intro m hm
    rcases hold m hm with rfl | hm
    · exact ⟨w, hw, rfl⟩
    · exact hs.starts m hm
  · intro m hm
    have hnext : (s.mark w.start).nextId = s.nextId + 1 := rfl
    rcases hold m hm with rfl | hm
    · exact Nat.lt_succ_self s.nextId
    · have hlt := hs.fresh m hm
      omega
  · intro m hm n hn hid
    rcases hold m hm with rfl | hm <;> rcases hold n hn with rfl | hn
    · rfl
    · have hlt := hs.fresh n hn
      simp only at hid
      omega
    · have hlt := hs.fresh m hm
      simp only at hid
      omega
    · exact hs.distinct m hm n hn hid

/-- Unmarking a window leaves the marks of the others. -/
theorem markOf_unmark {interval : Interval} {s : Store} {start other : Int64} {m : Mark}
    (hs : Marks interval s) (hm : s.markOf start = some m) (h : other ≠ start) :
    (s.unmark m.id).markOf other = s.markOf other := by
  obtain ⟨hmem, hstart⟩ := markOf_some.mp hm
  ext n
  rw [markOf_some, markOf_some, unmark, Table.mem_keep]
  constructor
  · intro hn
    exact ⟨hn.1.1, hn.2⟩
  · intro hn
    refine ⟨⟨hn.1, ?_⟩, hn.2⟩
    simp only [ne_eq, decide_eq_true_eq]
    intro hid
    apply h
    rw [← hn.2, hs.distinct n hn.1 m hmem hid, hstart]

/-- The mark of a window is gone once it is unmarked. -/
theorem markOf_unmark_self {s : Store} {start : Int64} {m : Mark}
    (hm : s.markOf start = some m) : (s.unmark m.id).markOf start = none := by
  rw [Option.eq_none_iff_forall_ne_some]
  intro other hother
  obtain ⟨hkept, hstart⟩ := markOf_some.mp hother
  obtain ⟨hmem, hid⟩ := s.dirty.mem_keep.mp hkept
  have hfound : s.markOf start = some other := markOf_some.mpr ⟨hmem, hstart⟩
  rw [hm] at hfound
  rw [Option.some.inj hfound] at hid
  simp at hid

theorem markOf_unmark_congr {s t : Store} (h : t.dirty = s.dirty) (id : Nat) (start : Int64) :
    (t.unmark id).markOf start = (s.unmark id).markOf start := by
  rw [markOf, unmark, h]
  rfl

theorem marks_congr {interval : Interval} {s t : Store} (hs : Marks interval s)
    (hdirty : t.dirty = s.dirty) (hnext : t.nextId = s.nextId) : Marks interval t := by
  refine ⟨?_, ?_, ?_⟩
  · rw [hdirty]
    exact hs.starts
  · rw [hdirty, hnext]
    exact hs.fresh
  · rw [hdirty]
    exact hs.distinct

theorem unmark_marks {interval : Interval} {s : Store} (hs : Marks interval s) (id : Nat) :
    Marks interval (s.unmark id) := by
  have hold : ∀ m ∈ (s.unmark id).dirty.rows, m ∈ s.dirty.rows :=
    fun m hm => (s.dirty.mem_keep.mp hm).1
  exact ⟨fun m hm => hs.starts m (hold m hm), fun m hm => hs.fresh m (hold m hm),
    fun m hm n hn hid => hs.distinct m (hold m hm) n (hold n hn) hid⟩

/-- Marking changes nothing but marks. -/
theorem markDirty_frame (s : Store) (starts : List Int64) :
    (s.markDirty starts).candles = s.candles ∧ (s.markDirty starts).index = s.index ∧
      (s.markDirty starts).segments = s.segments ∧ s.nextId ≤ (s.markDirty starts).nextId := by
  induction starts generalizing s with
  | nil => exact ⟨rfl, rfl, rfl, le_rfl⟩
  | cons start starts ih =>
    obtain ⟨hcandles, hindex, hsegments, hnext⟩ := ih (s.mark start)
    have hstep : (s.mark start).nextId = s.nextId + 1 := rfl
    exact ⟨hcandles, hindex, hsegments, show s.nextId ≤ ((s.mark start).markDirty starts).nextId by omega⟩

theorem markDirty_marks {interval : Interval} {s : Store} {starts : List Int64}
    (hs : Marks interval s)
    (hstarts : ∀ start ∈ starts, ∃ w : Segments.Window, w.Of interval ∧ w.start = start) :
    Marks interval (s.markDirty starts) := by
  induction starts generalizing s with
  | nil => exact hs
  | cons start starts ih =>
    obtain ⟨w, hw, rfl⟩ := hstarts start (by simp)
    exact ih (mark_marks hs hw) fun other hother => hstarts other (List.mem_cons_of_mem _ hother)

/-- A window that is not marked keeps the mark it had. -/
theorem markOf_markDirty_of_notMem {s : Store} {starts : List Int64} {start : Int64}
    (h : start ∉ starts) : (s.markDirty starts).markOf start = s.markOf start := by
  induction starts generalizing s with
  | nil => rfl
  | cons first starts ih =>
    simp only [List.mem_cons, not_or] at h
    have hrest : (s.markDirty (first :: starts)).markOf start = (s.mark first).markOf start := ih h.2
    rw [hrest, s.markOf_mark_of_ne (Ne.symm h.1)]

/-- A marked window has a mark whose id was never given out before. -/
theorem markOf_markDirty {s : Store} {starts : List Int64} {start : Int64} (h : start ∈ starts) :
    ∃ m, (s.markDirty starts).markOf start = some m ∧ s.nextId ≤ m.id := by
  induction starts generalizing s with
  | nil => simp at h
  | cons first starts ih =>
    have hnext : (s.mark first).nextId = s.nextId + 1 := rfl
    by_cases hlater : start ∈ starts
    · obtain ⟨m, hm, hid⟩ := ih (s := s.mark first) hlater
      exact ⟨m, hm, by omega⟩
    · have hfirst : first = start := by
        rcases List.mem_cons.mp h with hfirst | hrest
        · exact hfirst.symm
        · exact absurd hrest hlater
      refine ⟨⟨s.nextId, start⟩, ?_, le_rfl⟩
      have hrest : (s.markDirty (first :: starts)).markOf start = (s.mark first).markOf start :=
        markOf_markDirty_of_notMem hlater
      rw [hrest, hfirst, markOf_mark]

/-- What a batch does to the store: a window either keeps its candles and its
mark, or carries a mark with a new id. -/
structure Marked (interval : Interval) (s t : Store) : Prop where
  marks : Marks interval s → Marks interval t
  index : t.index = s.index
  segments : t.segments = s.segments
  nextId : s.nextId ≤ t.nextId
  placed : ∀ c ∈ t.candles.rows,
    c ∈ s.candles.rows ∨ ∃ w, Segments.window interval c.openTimeMs = some w
  windows : ∀ w : Segments.Window, w.Of interval →
    (t.markOf w.start = s.markOf w.start ∧ t.candles.within w = s.candles.within w) ∨
      ∃ m, t.markOf w.start = some m ∧ s.nextId ≤ m.id

theorem zip_dated {interval : Interval} {batch : List Candle} {starts : List Int64}
    (h : (batch.mapM fun c => Storage.windowStart interval c.openTimeMs) = .ok starts) :
    Dated interval ((batch.map (·.toText)).zip starts) := by
  have hpairs := mapM_ok.mp h
  clear h
  induction hpairs with
  | nil => simp [Dated]
  | cons hfirst _ ih =>
    intro row hrow
    rcases List.mem_cons.mp hrow with rfl | hrow
    · exact Storage.windowStart_ok.mp hfirst
    · exact ih row hrow

theorem upsertCandles_ok {interval : Interval} {s t : Store} {batch : List Candle} {written : Nat}
    (h : s.upsertCandles interval batch = .ok (written, t)) : Marked interval s t := by
  unfold upsertCandles at h
  by_cases hempty : batch.isEmpty = true
  · rw [if_pos hempty] at h
    cases h
    exact ⟨id, rfl, rfl, le_rfl, fun c hc => .inl hc, fun w _ => .inl ⟨rfl, rfl⟩⟩
  · rw [if_neg hempty, bind_ok] at h
    obtain ⟨starts, hstarts, h⟩ := h
    have hspec := upsertRows_spec (zip_dated hstarts) s.candles Table.empty
    cases hrows : upsertRows s.candles Table.empty ((batch.map (·.toText)).zip starts) with
    | mk candles changed =>
      rw [hrows] at hspec
      simp only [hrows, pure, Except.pure, Except.ok.injEq, Prod.mk.injEq] at h
      obtain ⟨-, rfl⟩ := h
      have hframe := markDirty_frame { s with candles := candles } changed.rows
      obtain ⟨hcandles, hindex, hsegments, hnext⟩ := hframe
      have hof : ∀ start ∈ changed.rows, ∃ w : Segments.Window, w.Of interval ∧ w.start = start := by
        intro start hstart
        rcases hspec.starts start hstart with hnone | hof
        · cases hnone
        · exact hof
      refine ⟨?_, hindex, hsegments, hnext, ?_, ?_⟩
      · intro hs
        exact markDirty_marks ⟨hs.starts, hs.fresh, hs.distinct⟩ hof
      · rw [hcandles]
        exact hspec.placed
      · intro w hw
        by_cases hchanged : w.start ∈ changed.rows
        · exact .inr (markOf_markDirty hchanged)
        · refine .inl ⟨markOf_markDirty_of_notMem hchanged, ?_⟩
          rw [hcandles]
          exact hspec.kept w hw hchanged

end Store

end QuantForge.Sqlite
