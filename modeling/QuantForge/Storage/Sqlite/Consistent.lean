import Mathlib.Data.Set.Function
import QuantForge.Storage.Sqlite.Marks
import QuantForge.Storage.Sqlite.ReadBack

namespace QuantForge.Sqlite

open Refresh Segments

namespace Store

theorem segment_insert (s : Store) (segment : Segment) :
    ∃ found, (s.insertSegment segment).segment segment.hash = some found := by
  unfold insertSegment
  by_cases h : (s.segment segment.hash).isSome = true
  · rw [if_pos h]
    exact Option.isSome_iff_exists.mp h
  · rw [if_neg h]
    refine ⟨segment, ?_⟩
    have hnone : s.segment segment.hash = none := by simpa using h
    rw [Store.segment] at hnone ⊢
    simp [hnone]

theorem mem_insertSegment {s : Store} {segment other : Segment}
    (h : other ∈ (s.insertSegment segment).segments) : other ∈ s.segments ∨ other = segment := by
  unfold insertSegment at h
  split_ifs at h
  · exact .inl h
  · simpa using h

theorem insertSegment_frame (s : Store) (segment : Segment) :
    (s.insertSegment segment).candles = s.candles ∧ (s.insertSegment segment).dirty = s.dirty ∧
      (s.insertSegment segment).nextId = s.nextId ∧ (s.insertSegment segment).index = s.index := by
  unfold insertSegment
  split_ifs <;> exact ⟨rfl, rfl, rfl, rfl⟩

/-- A stored segment stays. -/
theorem segment_insert_of_some {s : Store} {segment found : Segment} {hash : List UInt8}
    (h : s.segment hash = some found) : (s.insertSegment segment).segment hash = some found := by
  unfold insertSegment
  by_cases htaken : (s.segment segment.hash).isSome = true
  · rw [if_pos htaken, h]
  · rw [if_neg htaken]
    rw [Store.segment] at h ⊢
    simp [h]

/-- Writing a packed window touches its index entry and the segments. -/
theorem apply_frame (s : Store) (start : Int64) (packed : Packed) :
    (s.apply start packed).candles = s.candles ∧ (s.apply start packed).dirty = s.dirty ∧
      (s.apply start packed).nextId = s.nextId ∧
      ∀ other, other ≠ start → (s.apply start packed).entryOf other = s.entryOf other := by
  have hkey : ∀ other, other ≠ start → start.toInt ≠ other.toInt := by
    intro other hother hsame
    exact hother (Int64.toInt_inj.mp hsame).symm
  cases packed with
  | write hash payloadLen stored firstOpenMs lastOpenMs barCount =>
    obtain ⟨hcandles, hdirty, hnext, hindex⟩ :=
      s.insertSegment_frame ⟨hash, Segments.format, payloadLen, stored⟩
    refine ⟨hcandles, hdirty, hnext, ?_⟩
    intro other hother
    rw [entryOf, entryOf, ← hindex]
    exact Table.find_put_of_ne _ (hkey other hother)
  | keep => exact ⟨rfl, rfl, rfl, fun _ _ => rfl⟩
  | clear => exact ⟨rfl, rfl, rfl, fun other hother => s.index.find_erase_of_ne (hkey other hother)⟩

end Store

/-- A snapshot shows the window as it is, while the window keeps the mark that
the snapshot read. -/
structure Faithful (interval : Interval) (s : Store) (w : Segments.Window) (snapshot : Snapshot) :
    Prop where
  window : w.Of interval
  id : snapshot.id < s.nextId
  shows : ∀ m, s.markOf w.start = some m → m.id = snapshot.id →
    snapshot.candles = s.candles.within w ∧ snapshot.indexed = (s.entryOf w.start).map (·.hash)

section

variable [DecimalParser] [Sha256] [Zstd]

/-- An entry lists exactly these candles, under the name of one of the
`payloads`, and the segment it names is stored. -/
structure Describes (payloads : Set (List UInt8)) (s : Store) (e : Entry)
    (candles : List TextCandle) : Prop where
  packed : ∃ payload ∈ payloads, encodeText candles = .ok payload ∧ Sha256.digest payload = e.hash
  stored : ∃ segment, s.segment e.hash = some segment
  first : candles.head?.map (·.openTimeMs) = some e.firstOpenMs
  last : candles.getLast?.map (·.openTimeMs) = some e.lastOpenMs
  count : candles.length = e.barCount

/-- The window that starts at `start` is indexed under exactly these candles,
or not at all if there are none. -/
def Indexed (payloads : Set (List UInt8)) (s : Store) (start : Int64)
    (candles : List TextCandle) : Prop :=
  match s.entryOf start with
  | some e => Describes payloads s e candles
  | none => candles = []

/-- Every window is marked, or indexed under exactly its candles. -/
structure Consistent (interval : Interval) (payloads : Set (List UInt8)) (s : Store) : Prop where
  marks : Marks interval s
  placed : ∀ c ∈ s.candles.rows, ∃ w, Segments.window interval c.openTimeMs = some w
  segments : ∀ segment ∈ s.segments, ∃ payload ∈ payloads,
    Sha256.digest payload = segment.hash ∧ compress payload = .ok segment.data
  entries : ∀ e ∈ s.index.rows, ∃ w : Segments.Window, w.Of interval ∧ w.start = e.windowStartMs ∧
    ∃ candles, Describes payloads s e candles
  current : ∀ w : Segments.Window, w.Of interval → s.markOf w.start = none →
    Indexed payloads s w.start (s.candles.within w)

/-- What packing decides. -/
theorem pack_ok {snapshot : Snapshot} {packed : Packed} (h : pack snapshot = .ok packed) :
    (snapshot.candles = [] ∧ packed = .clear) ∨
      ∃ payload, encodeText snapshot.candles = .ok payload ∧
        ((snapshot.indexed = some (Sha256.digest payload) ∧ packed = .keep) ∨
          ∃ stored first last, compress payload = .ok stored ∧
            snapshot.candles.head? = some first ∧ snapshot.candles.getLast? = some last ∧
            packed = .write (Sha256.digest payload) payload.length stored first.openTimeMs
              last.openTimeMs snapshot.candles.length) := by
  unfold pack at h
  cases hfirst : snapshot.candles.head? with
  | none =>
    rw [hfirst] at h
    exact .inl ⟨List.head?_eq_none_iff.mp hfirst, (Except.ok.inj h).symm⟩
  | some first =>
    cases hlast : snapshot.candles.getLast? with
    | none =>
      rw [List.getLast?_eq_none_iff.mp hlast] at hfirst
      cases hfirst
    | some last =>
      simp only [hfirst, hlast, bind_ok] at h
      obtain ⟨payload, hpayload, h⟩ := h
      refine .inr ⟨payload, hpayload, ?_⟩
      by_cases hsame : snapshot.indexed = some (Sha256.digest payload)
      · rw [if_pos hsame] at h
        exact .inl ⟨hsame, (Except.ok.inj h).symm⟩
      · rw [if_neg hsame, bind_ok] at h
        obtain ⟨stored, hstored, h⟩ := h
        exact .inr ⟨stored, first, last, hstored, rfl, rfl, (Except.ok.inj h).symm⟩

omit [Zstd] in
theorem Describes.mono {payloads : Set (List UInt8)} {s t : Store} {e : Entry}
    {candles : List TextCandle} (h : Describes payloads s e candles)
    (hst : ∀ hash found, s.segment hash = some found → t.segment hash = some found) :
    Describes payloads t e candles := by
  obtain ⟨segment, hsegment⟩ := h.stored
  exact ⟨h.packed, ⟨segment, hst _ _ hsegment⟩, h.first, h.last, h.count⟩

omit [Zstd] in
theorem Indexed.mono {payloads : Set (List UInt8)} {s t : Store} {start : Int64}
    {candles : List TextCandle} (h : Indexed payloads s start candles)
    (hentry : t.entryOf start = s.entryOf start)
    (hst : ∀ hash found, s.segment hash = some found → t.segment hash = some found) :
    Indexed payloads t start candles := by
  rw [Indexed] at h ⊢
  rw [hentry]
  cases hfound : s.entryOf start with
  | none =>
    rw [hfound] at h
    exact h
  | some e =>
    rw [hfound] at h
    exact h.mono hst

/-- What writing a packed window does to the index and the segments. -/
structure Applied (payloads : Set (List UInt8)) (s t : Store) (start : Int64)
    (rows : List TextCandle) : Prop where
  candles : t.candles = s.candles
  dirty : t.dirty = s.dirty
  nextId : t.nextId = s.nextId
  others : ∀ other, other ≠ start → t.entryOf other = s.entryOf other
  stored : ∀ hash found, s.segment hash = some found → t.segment hash = some found
  segments : ∀ segment ∈ t.segments, segment ∈ s.segments ∨
    ∃ payload ∈ payloads, Sha256.digest payload = segment.hash ∧
      compress payload = .ok segment.data
  indexed : Indexed payloads t start rows

variable [ExactParser]

theorem apply_spec {interval : Interval} {payloads : Set (List UInt8)} {s : Store}
    {w : Segments.Window} {snapshot : Snapshot} {packed : Packed} {m : Mark}
    (hinj : Set.InjOn Sha256.digest payloads) (hs : Consistent interval payloads s)
    (hshot : Faithful interval s w snapshot) (hm : s.markOf w.start = some m)
    (hid : m.id = snapshot.id) (hpack : pack snapshot = .ok packed)
    (hmet : ∀ payload, encodeText snapshot.candles = .ok payload → payload ∈ payloads) :
    Applied payloads s (s.apply w.start packed) w.start snapshot.candles := by
  obtain ⟨-, hindexed⟩ := hshot.shows m hm hid
  obtain ⟨hcandles, hdirty, hnext, hothers⟩ := s.apply_frame w.start packed
  rcases pack_ok hpack with ⟨hnone, rfl⟩ | ⟨payload, hpayload, hcase⟩
  · refine ⟨hcandles, hdirty, hnext, hothers, fun _ _ h => h, fun _ h => .inl h, ?_⟩
    have hentry : (s.apply w.start .clear).entryOf w.start = none := s.index.find_erase _
    rw [Indexed, hentry]
    exact hnone
  · have hmember := hmet payload hpayload
    rcases hcase with ⟨hkeep, rfl⟩ | ⟨stored, first, last, hstored, hfirst, hlast, rfl⟩
    · refine ⟨hcandles, hdirty, hnext, hothers, fun _ _ h => h, fun _ h => .inl h, ?_⟩
      rw [hkeep] at hindexed
      cases hentry : s.entryOf w.start with
      | none => simp [hentry] at hindexed
      | some e =>
        have hsame : (s.apply w.start .keep).entryOf w.start = some e := hentry
        rw [Indexed, hsame]
        rw [hentry, Option.map_some, Option.some.injEq] at hindexed
        obtain ⟨-, -, -, candles, hdescribes⟩ := hs.entries e (Store.entryOf_some.mp hentry).1
        obtain ⟨other, hother, hencode, hdigest⟩ := hdescribes.packed
        have heq : other = payload := hinj hother hmember (hdigest.trans hindexed.symm)
        rw [heq] at hencode
        rw [encodeText_injective hpayload hencode]
        exact hdescribes
    · refine ⟨hcandles, hdirty, hnext, hothers, ?_, ?_, ?_⟩
      · intro hash found hfound
        exact Store.segment_insert_of_some hfound
      · intro segment hsegment
        rcases Store.mem_insertSegment hsegment with hold | rfl
        · exact .inl hold
        · exact .inr ⟨payload, hmember, rfl, hstored⟩
      · have hentry : (s.apply w.start (.write (Sha256.digest payload) payload.length stored
            first.openTimeMs last.openTimeMs snapshot.candles.length)).entryOf w.start =
            some ⟨w.start, first.openTimeMs, last.openTimeMs, snapshot.candles.length,
              Sha256.digest payload⟩ := Table.find_put _ _
        rw [Indexed, hentry]
        have hstored := s.segment_insert
          ⟨Sha256.digest payload, Segments.format, payload.length, stored⟩
        exact ⟨⟨payload, hmember, hpayload, rfl⟩, hstored, by simp [hfirst], by simp [hlast], rfl⟩

omit [ExactParser] in
/-- A window that was written back stays indexed, and the others keep what
they had. -/
theorem Applied.consistent {interval : Interval} {payloads : Set (List UInt8)} {s t : Store}
    {w : Segments.Window} {m : Mark} (h : Applied payloads s t w.start (s.candles.within w))
    (hs : Consistent interval payloads s) (hw : w.Of interval) (hm : s.markOf w.start = some m) :
    Consistent interval payloads (t.unmark m.id) := by
  have hmarks : Marks interval t := Store.marks_congr hs.marks h.dirty h.nextId
  have hmt : t.markOf w.start = some m := by rw [Store.markOf, h.dirty]; exact hm
  refine ⟨Store.unmark_marks hmarks m.id, ?_, ?_, ?_, ?_⟩
  · have hcandles : (t.unmark m.id).candles = s.candles := h.candles
    rw [hcandles]
    exact hs.placed
  · intro segment hsegment
    rcases h.segments segment hsegment with hold | hnew
    · exact hs.segments segment hold
    · exact hnew
  · intro e he
    have hentry : t.entryOf e.windowStartMs = some e := Store.entryOf_some.mpr ⟨he, rfl⟩
    by_cases hstart : e.windowStartMs = w.start
    · have hindexed := h.indexed
      rw [Indexed, ← hstart, hentry] at hindexed
      exact ⟨w, hw, hstart.symm, _, Describes.mono hindexed fun _ _ hfound => hfound⟩
    · rw [h.others _ hstart] at hentry
      obtain ⟨v, hv, hvstart, candles, hdescribes⟩ :=
        hs.entries e (Store.entryOf_some.mp hentry).1
      exact ⟨v, hv, hvstart, candles, hdescribes.mono h.stored⟩
  · intro v hv hnone
    have hcandles : (t.unmark m.id).candles = s.candles := h.candles
    rw [hcandles]
    by_cases hstart : v.start = w.start
    · rw [Segments.window_unique hv hw hstart]
      exact h.indexed.mono rfl fun _ _ hfound => hfound
    · rw [Store.markOf_unmark hmarks hmt hstart, Store.markOf, h.dirty] at hnone
      exact (hs.current v hv hnone).mono (h.others v.start hstart) h.stored

/-- Writing a window back keeps the store consistent. -/
theorem writeWindow_consistent {interval : Interval} {payloads : Set (List UInt8)} {s : Store}
    {w : Segments.Window} {snapshot : Snapshot} {packed : Packed}
    (hinj : Set.InjOn Sha256.digest payloads) (hs : Consistent interval payloads s)
    (hshot : Faithful interval s w snapshot) (hpack : pack snapshot = .ok packed)
    (hmet : ∀ payload, encodeText snapshot.candles = .ok payload → payload ∈ payloads) :
    Consistent interval payloads (s.writeWindow w.start snapshot.id packed).2 := by
  unfold Store.writeWindow
  cases hm : s.markOf w.start with
  | none => exact hs
  | some m =>
    by_cases hid : m.id = snapshot.id
    · simp only [hid, ne_eq, not_true_eq_false, if_false]
      have happlied := apply_spec hinj hs hshot hm hid hpack hmet
      rw [(hshot.shows m hm hid).1] at happlied
      have hkept := happlied.consistent hs hshot.window hm
      rw [hid] at hkept
      exact hkept
    · simp only [ne_eq, hid, not_false_eq_true, if_true]
      exact hs

omit [ExactParser] in
/-- A batch keeps the store consistent: what it changed, it marked. -/
theorem upsert_consistent {interval : Interval} {payloads : Set (List UInt8)} {s t : Store}
    (h : Store.Marked interval s t) (hs : Consistent interval payloads s) :
    Consistent interval payloads t := by
  have hstored : ∀ hash found, s.segment hash = some found → t.segment hash = some found := by
    intro hash found hfound
    rw [Store.segment, h.segments]
    exact hfound
  refine ⟨h.marks hs.marks, ?_, ?_, ?_, ?_⟩
  · intro c hc
    rcases h.placed c hc with hold | hplaced
    · exact hs.placed c hold
    · exact hplaced
  · rw [h.segments]
    exact hs.segments
  · intro e he
    rw [h.index] at he
    obtain ⟨w, hw, hstart, candles, hdescribes⟩ := hs.entries e he
    exact ⟨w, hw, hstart, candles, hdescribes.mono hstored⟩
  · intro w hw hnone
    rcases h.windows w hw with ⟨hmark, hwithin⟩ | ⟨m, hm, -⟩
    · rw [hmark] at hnone
      rw [hwithin]
      apply (hs.current w hw hnone).mono ?_ hstored
      rw [Store.entryOf, h.index]
      rfl
    · rw [hm] at hnone
      cases hnone

end

section

variable {interval : Interval} {s t : Store} {w : Segments.Window} {snapshot : Snapshot}

/-- A snapshot of a marked window shows it. -/
theorem readWindow_faithful (hs : Marks interval s) (hw : w.Of interval)
    (h : s.readWindow w = some snapshot) : Faithful interval s w snapshot := by
  obtain ⟨m, hm, rfl⟩ := Option.map_eq_some_iff.mp h
  exact ⟨hw, hs.fresh m (Store.markOf_some.mp hm).1, fun _ _ _ => ⟨rfl, rfl⟩⟩

/-- A batch gives a window that it changes an id no snapshot has. -/
theorem upsert_faithful (h : Store.Marked interval s t) (hshot : Faithful interval s w snapshot) :
    Faithful interval t w snapshot := by
  refine ⟨hshot.window, lt_of_lt_of_le hshot.id h.nextId, ?_⟩
  intro m hm hid
  rcases h.windows w hshot.window with ⟨hmark, hwithin⟩ | ⟨n, hn, hnew⟩
  · rw [hmark] at hm
    rw [hwithin, Store.entryOf, h.index]
    exact hshot.shows m hm hid
  · have hlt := hshot.id
    rw [hn] at hm
    rw [← Option.some.inj hm] at hid
    omega

/-- A window written back loses the mark its snapshots read. -/
theorem writeWindow_faithful {start : Int64} {id : Nat} {packed : Packed}
    (hshot : Faithful interval s w snapshot) :
    Faithful interval (s.writeWindow start id packed).2 w snapshot := by
  obtain ⟨hcandles, hdirty, hnext, hothers⟩ := s.apply_frame start packed
  unfold Store.writeWindow
  cases hm : s.markOf start with
  | none => exact hshot
  | some m =>
    by_cases hid : m.id = id
    · simp only [hid, ne_eq, not_true_eq_false, if_false]
      refine ⟨hshot.window, ?_, ?_⟩
      · have hsame : ((s.apply start packed).unmark id).nextId = s.nextId := hnext
        rw [hsame]
        exact hshot.id
      · intro n hn hshown
        obtain ⟨hmem, hstart⟩ := Store.markOf_some.mp hn
        rw [Store.unmark, Table.mem_keep, hdirty, decide_eq_true_eq] at hmem
        have hbefore : s.markOf w.start = some n := Store.markOf_some.mpr ⟨hmem.1, hstart⟩
        have hother : w.start ≠ start := by
          intro hsame
          rw [hsame, hm] at hbefore
          exact hmem.2 (Option.some.inj hbefore ▸ hid)
        have hentry : ((s.apply start packed).unmark id).entryOf w.start = s.entryOf w.start :=
          hothers w.start hother
        have hrows : ((s.apply start packed).unmark id).candles = s.candles := hcandles
        rw [hentry, hrows]
        exact hshot.shows n hbefore hshown
    · simp only [ne_eq, hid, not_false_eq_true, if_true]
      exact hshot

end

end QuantForge.Sqlite
