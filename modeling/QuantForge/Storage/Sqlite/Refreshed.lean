import QuantForge.Storage.Sqlite.Packing

namespace QuantForge.Sqlite

open Refresh Segments Prog

namespace Store

/-- The marks that a refresh has still to look at. -/
def pending (s : Store) (after : Option Int64) (tipWindow : Int64) : List Mark :=
  s.dirty.rows.filter fun mark =>
    mark.windowStartMs < tipWindow && after.all (· < mark.windowStartMs)

/-- The rows of the window that starts at `windowStartMs`. -/
def rowsAt (interval : Interval) (s : Store) (windowStartMs : Int64) : List TextCandle :=
  match Segments.window interval windowStartMs with
  | some w => s.candles.within w
  | none => []

variable {interval : Interval} {s t : Store} {after : Option Int64} {tipWindow : Int64}

theorem nextDirty_pending :
    s.nextDirty after tipWindow = (s.pending after tipWindow).head?.map (·.windowStartMs) := by
  rw [nextDirty, pending, List.head?_filter]

theorem mem_pending {m : Mark} : m ∈ s.pending after tipWindow ↔
    m ∈ s.dirty.rows ∧ m.windowStartMs < tipWindow ∧ ∀ a, after = some a → a < m.windowStartMs := by
  rw [pending, List.mem_filter, Bool.and_eq_true, decide_eq_true_eq]
  cases after with
  | none => simp
  | some a => simp

theorem pending_rising (s : Store) (after : Option Int64) (tipWindow : Int64) :
    (s.pending after tipWindow).Pairwise fun a b =>
      a.windowStartMs.toInt < b.windowStartMs.toInt := s.dirty.rising.filter _

/-- After its first window a refresh has the others to look at. -/
theorem pending_tail {m : Mark} {rest : List Mark}
    (h : s.pending after tipWindow = m :: rest)
    (dirty : ∀ n, n ≠ m → (n ∈ t.dirty.rows ↔ n ∈ s.dirty.rows)) :
    t.pending (some m.windowStartMs) tipWindow = rest := by
  have rising := s.pending_rising after tipWindow
  rw [h] at rising
  obtain ⟨first, restRising⟩ := List.pairwise_cons.mp rising
  apply Table.rising_ext (t.pending_rising _ _) restRising
  intro n
  have hm : m ∈ s.pending after tipWindow := by rw [h]; simp
  have hn : n ∈ s.pending after tipWindow ↔ n = m ∨ n ∈ rest := by rw [h, List.mem_cons]
  rw [mem_pending] at hm hn ⊢
  constructor
  · rintro ⟨hmem, hbelow, hafter⟩
    have later := hafter m.windowStartMs rfl
    have other : n ≠ m := by
      rintro rfl
      exact Int64.lt_irrefl later
    have since (a : Int64) (ha : after = some a) : a < n.windowStartMs :=
      Int64.lt_trans (hm.2.2 a ha) later
    rcases hn.mp ⟨(dirty n other).mp hmem, hbelow, since⟩ with same | hrest
    · exact absurd same other
    · exact hrest
  · intro hrest
    have later := first n hrest
    have other : n ≠ m := by
      rintro rfl
      exact lt_irrefl _ later
    obtain ⟨hmem, hbelow, -⟩ := hn.mpr (.inr hrest)
    refine ⟨(dirty n other).mpr hmem, hbelow, fun a ha => ?_⟩
    rw [← Option.some.inj ha]
    exact Int64.lt_iff_toInt_lt.mpr later

end Store

section

variable [DecimalParser]

/-- Rows that there are, but that cannot be encoded. -/
def refused (rows : List TextCandle) : Bool := !rows.isEmpty && !(encodeText rows).isOk

/-- A marked window whose candles cannot be encoded. -/
def refusedAt (interval : Interval) (s : Store) (m : Mark) : Bool :=
  refused (s.rowsAt interval m.windowStartMs)

theorem refused_true {rows : List TextCandle} (h : refused rows = true) :
    rows ≠ [] ∧ ∃ error, encodeText rows = .error error := by
  rw [refused, Bool.and_eq_true] at h
  refine ⟨by simpa using h.1, ?_⟩
  cases hencode : encodeText rows with
  | error error => exact ⟨error, rfl⟩
  | ok payload => simp [hencode, Except.isOk, Except.toBool] at h

theorem refused_false {rows : List TextCandle} (h : refused rows = false) (some_ : rows ≠ []) :
    ∃ payload, encodeText rows = .ok payload := by
  cases hencode : encodeText rows with
  | error error => simp [refused, hencode, Except.isOk, Except.toBool, some_] at h
  | ok payload => exact ⟨payload, rfl⟩

variable [Sha256] [Zstd] {interval : Interval} {payloads : Set (List UInt8)}

/-- What the payloads of the windows below the tip are assumed to be: met, and
compressible. -/
structure Packable (interval : Interval) (payloads : Set (List UInt8)) (candles : CandleTable)
    (tipWindow : Int64) : Prop where
  met {w : Segments.Window} {payload : List UInt8} : w.Of interval → w.start < tipWindow →
    encodeText (candles.within w) = .ok payload → payload ∈ payloads
  compresses {w : Segments.Window} {payload : List UInt8} : w.Of interval → w.start < tipWindow →
    encodeText (candles.within w) = .ok payload →
    ∃ stored, Zstd.compress payload = some stored

/-- What packing a window's snapshot makes of it. -/
theorem pack_cases {snapshot : Snapshot}
    (compresses : ∀ payload, encodeText snapshot.candles = .ok payload →
      ∃ stored, Zstd.compress payload = some stored) :
    (refused snapshot.candles = true ∧ ∃ error, pack snapshot = .error error) ∨
      (refused snapshot.candles = false ∧ ∃ packed, pack snapshot = .ok packed) := by
  by_cases none_ : snapshot.candles = []
  · right
    refine ⟨by simp [refused, none_], .clear, ?_⟩
    simp [pack, none_]
  · cases h : refused snapshot.candles with
    | false =>
      obtain ⟨payload, hpayload⟩ := refused_false h none_
      exact .inr ⟨rfl, pack_total hpayload (compresses payload hpayload)⟩
    | true =>
      left
      refine ⟨rfl, ?_⟩
      obtain ⟨-, error, herror⟩ := refused_true h
      cases hpack : pack snapshot with
      | error error => exact ⟨error, rfl⟩
      | ok packed =>
        rcases pack_ok hpack with ⟨empty, -⟩ | ⟨payload, hpayload, -⟩
        · exact absurd empty none_
        · rw [hpayload] at herror
          cases herror

variable [ExactParser]

/-- What an attempt does with the window it has read. -/
def packRead (w : Segments.Window) (snapshot : Snapshot) : Prog Store StorageError Built :=
  match pack snapshot with
  | .error error => pure (.blocked error)
  | .ok packed => do
    match ← DirtyWindows.writeWindow w.start snapshot.id packed with
    | .done => pure packed.built
    | .elsewhere => pure .elsewhere
    | .marked => tryWindow w 2

/-- A dirty window is blocked where its candles cannot be encoded, and written
back and unmarked otherwise. -/
theorem buildWindow_spec {s : Store} {w : Segments.Window} {m : Mark} {tipWindow : Int64}
    (hinj : Set.InjOn Sha256.digest payloads) (hs : Consistent interval payloads s)
    (hpackable : Packable interval payloads s.candles tipWindow) (hw : w.Of interval)
    (hbelow : w.start < tipWindow) (hm : s.markOf w.start = some m) :
    (refused (s.candles.within w) = true ∧
        ∃ error, buildWindow interval w.start s = (.ok (.blocked error), s)) ∨
      (refused (s.candles.within w) = false ∧
        ∃ built t, buildWindow interval w.start s = (.ok built, t) ∧
          (built = .new ∨ built = .same) ∧ Consistent interval payloads t ∧
          t.candles = s.candles ∧ ∀ n, n ∈ t.dirty.rows ↔ n ∈ s.dirty.rows ∧ n ≠ m) := by
  let snapshot : Snapshot := ⟨m.id, s.candles.within w, (s.entryOf w.start).map (·.hash)⟩
  have read : s.readWindow w = some snapshot := by
    rw [Store.readWindow, hm]
    rfl
  have reads : (DirtyWindows.readWindow w : Prog Store StorageError _) s =
      (.ok (some snapshot), s) := by
    show (Except.ok (s.readWindow w), s) = _
    rw [read]
  have starts : buildWindow interval w.start = (tryWindow w attempts : Prog Store StorageError _) := by
    have window : Segments.window interval w.start = some w := hw
    rw [buildWindow, window]
  have faithful := readWindow_faithful hs.marks hw read
  rw [starts]
  have tries : (tryWindow w attempts : Prog Store StorageError Built) s = packRead w snapshot s :=
    seq_ok reads
  rcases @pack_cases _ _ _ snapshot fun payload => hpackable.compresses hw hbelow with
    ⟨refuses, error, hpack⟩ | ⟨encodes, packed, hpack⟩
  · left
    refine ⟨refuses, error, ?_⟩
    rw [tries, packRead, hpack]
    rfl
  · right
    refine ⟨encodes, packed.built, (s.apply w.start packed).unmark m.id, ?_, ?_, ?_, ?_, ?_⟩
    · have write : s.writeWindow w.start m.id packed =
          (.done, (s.apply w.start packed).unmark m.id) := by
        rw [Store.writeWindow, hm]
        simp
      have writes : (DirtyWindows.writeWindow w.start snapshot.id packed :
          Prog Store StorageError Written) s =
            (.ok .done, (s.apply w.start packed).unmark m.id) := by
        show (Except.ok (s.writeWindow w.start m.id packed).1, _) = _
        rw [write]
      rw [tries, packRead, hpack]
      exact seq_ok writes
    · cases packed with
      | write hash payloadLen stored firstOpenMs lastOpenMs barCount => exact .inl rfl
      | keep => exact .inr rfl
      | clear => exact .inl rfl
    · have kept := writeWindow_consistent hinj hs faithful hpack fun payload => hpackable.met hw hbelow
      have write : (s.writeWindow w.start m.id packed).2 =
          (s.apply w.start packed).unmark m.id := by
        rw [Store.writeWindow, hm]
        simp
      rw [← write]
      exact kept
    · exact (s.apply_frame w.start packed).1
    · intro n
      rw [Store.unmark, Table.mem_keep, (s.apply_frame w.start packed).2.1, decide_eq_true_eq]
      refine and_congr_right fun hn => not_congr ⟨fun same => ?_, fun same => by rw [same]⟩
      exact hs.marks.distinct n hn m (Store.markOf_some.mp hm).1 same

/-- What refreshing the marks of `pending` makes of a store and a count: the marks
whose windows cannot be packed stay, and where none can, nothing changes. -/
structure Refreshes (interval : Interval) (payloads : Set (List UInt8)) (pending : List Mark)
    (s t : Store) (before after : SegmentRefresh) : Prop where
  consistent : Consistent interval payloads t
  candles : t.candles = s.candles
  marks (n : Mark) : n ∈ t.dirty.rows ↔
    n ∈ s.dirty.rows ∧ (n ∈ pending → refusedAt interval s n = true)
  counted : after.built + after.unchanged + after.blocked =
    before.built + before.unchanged + before.blocked + pending.length
  blocked : after.blocked = before.blocked + (pending.filter (refusedAt interval s)).length
  idle : (∀ n ∈ pending, refusedAt interval s n = true) →
    t = s ∧ after.built = before.built ∧ after.unchanged = before.unchanged

omit [Sha256] [Zstd] [ExactParser] in
theorem refusedAt_congr {s t : Store} (h : t.candles = s.candles) :
    refusedAt interval t = refusedAt interval s := by
  funext n
  unfold refusedAt Store.rowsAt
  rw [h]

/-- The loop looks at every pending mark once. -/
theorem refreshAfter_spec {tipWindow : Int64} (hinj : Set.InjOn Sha256.digest payloads)
    (pending : List Mark) {s : Store} {after : Option Int64} (before : SegmentRefresh)
    (hs : Consistent interval payloads s) (hpackable : Packable interval payloads s.candles tipWindow)
    (hpending : s.pending after tipWindow = pending) :
    ∃ counts t, (∀ fuel, pending.length < fuel →
        refreshAfter interval tipWindow fuel after before s = (.ok (some counts), t)) ∧
      Refreshes interval payloads pending s t before counts := by
  induction pending generalizing s after before with
  | nil =>
    have none_ : s.nextDirty after tipWindow = none := by
      rw [Store.nextDirty_pending, hpending]
      rfl
    have asks : (DirtyWindows.nextDirty after tipWindow : Prog Store StorageError _) s =
        (.ok none, s) := by
      show (Except.ok (s.nextDirty after tipWindow), s) = _
      rw [none_]
    refine ⟨before, s, fun fuel hfuel => ?_, ⟨hs, rfl, fun n => ?_, rfl, rfl, fun _ => ⟨rfl, rfl, rfl⟩⟩⟩
    · obtain ⟨fuel, rfl⟩ := Nat.exists_eq_succ_of_ne_zero (by omega : fuel ≠ 0)
      exact seq_ok asks
    · simp
  | cons m rest ih =>
    have first : s.nextDirty after tipWindow = some m.windowStartMs := by
      rw [Store.nextDirty_pending, hpending]
      rfl
    have asks : (DirtyWindows.nextDirty after tipWindow : Prog Store StorageError _) s =
        (.ok (some m.windowStartMs), s) := by
      show (Except.ok (s.nextDirty after tipWindow), s) = _
      rw [first]
    have listed : m ∈ s.pending after tipWindow := by rw [hpending]; simp
    obtain ⟨hmem, hbelow, -⟩ := Store.mem_pending.mp listed
    obtain ⟨w, hw, hstart⟩ := hs.marks.starts m hmem
    rw [← hstart] at hbelow
    have hmark : s.markOf w.start = some m := Store.markOf_some.mpr ⟨hmem, hstart.symm⟩
    have rows : s.rowsAt interval m.windowStartMs = s.candles.within w := by
      have window : Segments.window interval m.windowStartMs = some w := by
        rw [← hstart]
        exact hw
      rw [Store.rowsAt, window]
    have distinct : m ∉ rest := by
      have rising := s.pending_rising after tipWindow
      rw [hpending] at rising
      intro again
      exact lt_irrefl _ ((List.pairwise_cons.mp rising).1 m again)
    have goes {built : Built} {u t : Store} {counts : SegmentRefresh}
        (hbuild : buildWindow interval w.start s = (.ok built, u))
        (hrun : ∀ fuel, rest.length < fuel → refreshAfter interval tipWindow fuel
          (some m.windowStartMs) (built.count before) u = (.ok (some counts), t)) (fuel : Nat)
        (hfuel : (m :: rest).length < fuel) :
        refreshAfter interval tipWindow fuel after before s = (.ok (some counts), t) := by
      obtain ⟨fuel, rfl⟩ := Nat.exists_eq_succ_of_ne_zero (by omega : fuel ≠ 0)
      have enough : rest.length < fuel := by
        rw [List.length_cons] at hfuel
        omega
      rw [hstart] at hbuild
      rw [← hrun fuel enough]
      exact (seq_ok asks).trans (seq_ok hbuild)
    rcases buildWindow_spec hinj hs hpackable hw hbelow hmark with
      ⟨refuses, error, hbuild⟩ | ⟨packs, built, u, hbuild, hbuilt, hu, hcandles, hdirty⟩
    · have refusedHere : refusedAt interval s m = true := by rw [refusedAt, rows, refuses]
      have left : s.pending (some m.windowStartMs) tipWindow = rest :=
        Store.pending_tail hpending fun n _ => Iff.rfl
      obtain ⟨counts, t, hrun, spec⟩ := ih (Built.count before (.blocked error)) hs hpackable left
      refine ⟨counts, t, goes hbuild hrun, ⟨spec.consistent, spec.candles, ?_, ?_, ?_, ?_⟩⟩
      · intro n
        rw [spec.marks, List.mem_cons]
        constructor
        · rintro ⟨hn, hrest⟩
          refine ⟨hn, ?_⟩
          rintro (rfl | hlater)
          · exact refusedHere
          · exact hrest hlater
        · rintro ⟨hn, hall⟩
          exact ⟨hn, fun hlater => hall (.inr hlater)⟩
      · have counted := spec.counted
        simp only [Built.count, List.length_cons] at counted ⊢
        omega
      · have blocked := spec.blocked
        rw [List.filter_cons_of_pos refusedHere, List.length_cons]
        simp only [Built.count] at blocked
        omega
      · intro all
        exact spec.idle fun n hn => all n (List.mem_cons_of_mem _ hn)
    · have packedHere : refusedAt interval s m = false := by rw [refusedAt, rows, packs]
      have left : u.pending (some m.windowStartMs) tipWindow = rest :=
        Store.pending_tail hpending fun n other => by
          rw [hdirty]
          exact and_iff_left other
      have packable : Packable interval payloads u.candles tipWindow := by
        rw [hcandles]
        exact hpackable
      have sameRefused : refusedAt interval u = refusedAt interval s := refusedAt_congr hcandles
      obtain ⟨counts, t, hrun, spec⟩ := ih (built.count before) hu packable left
      have counts_ : (built.count before).built + (built.count before).unchanged +
          (built.count before).blocked =
            before.built + before.unchanged + before.blocked + 1 ∧
          (built.count before).blocked = before.blocked := by
        rcases hbuilt with rfl | rfl
        · exact ⟨by simp only [Built.count]; omega, rfl⟩
        · exact ⟨by simp only [Built.count]; omega, rfl⟩
      refine ⟨counts, t, goes hbuild hrun,
        ⟨spec.consistent, spec.candles.trans hcandles, ?_, ?_, ?_, ?_⟩⟩
      · intro n
        rw [spec.marks, hdirty, sameRefused, List.mem_cons]
        constructor
        · rintro ⟨⟨hn, other⟩, hrest⟩
          refine ⟨hn, ?_⟩
          rintro (same | hlater)
          · exact absurd same other
          · exact hrest hlater
        · rintro ⟨hn, hall⟩
          refine ⟨⟨hn, ?_⟩, fun hlater => hall (.inr hlater)⟩
          rintro rfl
          rw [hall (.inl rfl)] at packedHere
          cases packedHere
      · have counted := spec.counted
        rw [List.length_cons]
        omega
      · have blocked := spec.blocked
        rw [sameRefused] at blocked
        rw [List.filter_cons_of_neg (by rw [packedHere]; decide)]
        omega
      · intro all
        rw [all m (by simp)] at packedHere
        cases packedHere

end

end QuantForge.Sqlite
