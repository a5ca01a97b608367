import QuantForge.Storage.Sqlite.Served

namespace QuantForge.Sqlite

open Refresh Segments

/-- Batches written one after another. -/
def Store.upsertBatches (interval : Interval) (s : Store) (batches : List (List Candle)) :
    Except StorageError Store :=
  batches.foldlM (fun s batch => (s.upsertCandles interval batch).map Prod.snd) s

/-- The candle last written for an open time. -/
def lastWritten (written : List Candle) (openTimeMs : Int64) : Option Candle :=
  written.reverse.find? fun c => c.openTimeMs == openTimeMs

/-- A candle none of whose decimals is a negative zero. -/
def NoNegativeZero (c : Candle) : Prop := c.All fun d => ¬(d.isZero = true ∧ d.negative = true)

theorem canonical_iff (d : Decimal) :
    d.canonical = d ↔ ¬(d.isZero = true ∧ d.negative = true) := by
  obtain ⟨negative, mantissa, scale, hm, hs⟩ := d
  unfold Decimal.canonical
  cases negative with
  | false => simp
  | true => split_ifs with hzero <;> simp [hzero]

/-- Packing only fails where the candles cannot be encoded. -/
theorem pack_total [DecimalParser] [Sha256] [Zstd] {snapshot : Snapshot} {payload : List UInt8}
    (h : encodeText snapshot.candles = .ok payload)
    (compresses : ∃ stored, Zstd.compress payload = some stored) :
    ∃ packed, pack snapshot = .ok packed := by
  unfold pack
  split
  · next first last _ _ =>
    obtain ⟨stored, hstored⟩ := compresses
    have framed : compress payload = .ok stored := compress_ok.mpr hstored
    rw [h]
    by_cases same : snapshot.indexed = some (Sha256.digest payload)
    · exact ⟨.keep, by simp [bind, Except.bind, same, pure, Except.pure]⟩
    · refine ⟨.write (Sha256.digest payload) payload.length stored first.openTimeMs
        last.openTimeMs snapshot.candles.length, ?_⟩
      simp only [bind, Except.bind, if_neg same, framed, pure, Except.pure]
  · exact ⟨.clear, rfl⟩

/-- What the segment of `payload` says of the candles it was encoded from: its
name, how long it is, its stored bytes, and the first and last open time and the
number of the candles. A window already indexed under that name keeps its
entry. -/
inductive Carries [Sha256] [Zstd] (indexed : Option (List UInt8)) (candles : List Candle)
    (payload : List UInt8) : Packed → Prop
  | keep : indexed = some (Sha256.digest payload) → Carries indexed candles payload .keep
  | write {first last : Candle} {stored : List UInt8} :
      indexed ≠ some (Sha256.digest payload) → Zstd.compress payload = some stored →
      candles.head? = some first → candles.getLast? = some last →
      Carries indexed candles payload (.write (Sha256.digest payload) payload.length stored
        first.openTimeMs last.openTimeMs candles.length)

/-- Candles that can be encoded are packed to what carries their payload. -/
theorem pack_carries [DecimalParser] [Sha256] [Zstd] {snapshot : Snapshot} {candles : List Candle}
    {payload : List UInt8} (texts : asText candles = snapshot.candles) (listed : candles ≠ [])
    (encodes : encodeText snapshot.candles = .ok payload)
    (compresses : ∃ stored, Zstd.compress payload = some stored) :
    ∃ packed, pack snapshot = .ok packed ∧
      Carries snapshot.indexed candles payload packed := by
  have first : candles.head? = some (candles.head listed) := List.head?_eq_some_head listed
  have last : candles.getLast? = some (candles.getLast listed) :=
    List.getLast?_eq_some_getLast listed
  have firstText : snapshot.candles.head? = some (candles.head listed).toText := by
    rw [← texts, asText, List.head?_map, first]
    rfl
  have lastText : snapshot.candles.getLast? = some (candles.getLast listed).toText := by
    rw [← texts, asText, List.getLast?_map, last]
    rfl
  have count : snapshot.candles.length = candles.length := by
    rw [← texts, asText, List.length_map]
  simp only [pack, firstText, lastText, encodes, count, bind, Except.bind]
  by_cases named : snapshot.indexed = some (Sha256.digest payload)
  · exact ⟨.keep, by rw [if_pos named]; rfl, .keep named⟩
  · obtain ⟨stored, hstored⟩ := compresses
    refine ⟨_, by rw [if_neg named, compress_ok.mpr hstored]; rfl, ?_⟩
    exact .write named hstored first last

section Writing

/-- The row of an open time is the last one written for it. -/
theorem upsertRows_find (rows : List (TextCandle × Int64)) (candles : CandleTable)
    (changed : Table Int64.toInt) (t : Int64) :
    (upsertRows candles changed rows).1.find t.toInt =
      ((rows.map Prod.fst).reverse.find? fun row => row.openTimeMs == t).or
        (candles.find t.toInt) := by
  induction rows generalizing candles changed with
  | nil => rfl
  | cons head rows ih =>
    obtain ⟨row, start⟩ := head
    have written : (upsertRow candles row).1.find t.toInt =
        if row.openTimeMs = t then some row else candles.find t.toInt := by
      unfold upsertRow
      split_ifs with held same same
      · rw [← same]
        exact held
      · rfl
      · rw [← same]
        exact candles.find_put row
      · exact candles.find_put_of_ne fun key => same (Int64.toInt_inj.mp key)
    have later := ih (upsertRow candles row).1
      (if (upsertRow candles row).2 then changed.put start else changed)
    rw [written] at later
    rw [List.map_cons, List.reverse_cons, List.find?_append, Option.or_assoc]
    refine later.trans ?_
    congr 1
    by_cases same : row.openTimeMs = t
    · simp [same]
    · simp [same]

/-- What a batch writes. -/
theorem upsertCandles_find {interval : Interval} {s next : Store} {batch : List Candle}
    {written : Nat} (h : s.upsertCandles interval batch = .ok (written, next)) (t : Int64) :
    next.candles.find t.toInt =
      ((lastWritten batch t).map (·.toText)).or (s.candles.find t.toInt) := by
  unfold Store.upsertCandles at h
  by_cases empty : batch.isEmpty = true
  · rw [if_pos empty] at h
    cases h
    rw [List.isEmpty_iff.mp empty]
    rfl
  · rw [if_neg empty, bind_ok] at h
    obtain ⟨starts, hstarts, h⟩ := h
    have lengths := (mapM_ok.mp hstarts).length_eq
    have firsts : ((batch.map (·.toText)).zip starts).map Prod.fst = batch.map (·.toText) :=
      List.map_fst_zip (by rw [List.length_map]; omega)
    have found := upsertRows_find ((batch.map (·.toText)).zip starts) s.candles Table.empty t
    cases hrows : upsertRows s.candles Table.empty ((batch.map (·.toText)).zip starts) with
    | mk candles changed =>
      simp only [hrows, pure, Except.pure, Except.ok.injEq, Prod.mk.injEq] at h
      obtain ⟨-, rfl⟩ := h
      rw [hrows, firsts, ← List.map_reverse, List.find?_map] at found
      rw [(Store.markDirty_frame { s with candles := candles } changed.rows).1]
      exact found

theorem upsertBatches_cons {interval : Interval} {s t : Store} {batch : List Candle}
    {batches : List (List Candle)}
    (h : s.upsertBatches interval (batch :: batches) = .ok t) :
    ∃ written next, s.upsertCandles interval batch = .ok (written, next) ∧
      next.upsertBatches interval batches = .ok t := by
  rw [Store.upsertBatches, List.foldlM_cons] at h
  obtain ⟨next, hnext, hrest⟩ := bind_ok.mp h
  cases hfirst : s.upsertCandles interval batch with
  | error error => simp [hfirst, Except.map] at hnext
  | ok answer =>
    obtain ⟨written, store⟩ := answer
    rw [hfirst] at hnext
    rw [← Except.ok.inj hnext] at hrest
    exact ⟨written, store, rfl, hrest⟩

theorem upsertBatches_find {interval : Interval} {batches : List (List Candle)} {s t : Store}
    (h : s.upsertBatches interval batches = .ok t) (time : Int64) :
    t.candles.find time.toInt =
      ((lastWritten batches.flatten time).map (·.toText)).or (s.candles.find time.toInt) := by
  induction batches generalizing s with
  | nil =>
    cases h
    rfl
  | cons batch batches ih =>
    obtain ⟨written, next, hfirst, hrest⟩ := upsertBatches_cons h
    have last : lastWritten (batch :: batches).flatten time =
        (lastWritten batches.flatten time).or (lastWritten batch time) := by
      simp only [lastWritten, List.flatten_cons, List.reverse_append, List.find?_append]
    rw [ih hrest, upsertCandles_find hfirst, last, ← Option.or_assoc, Option.map_or]

/-- A window either keeps its candles and its mark over batches, or is marked. -/
theorem upsertBatches_marks {interval : Interval} {batches : List (List Candle)} {s t : Store}
    {w : Segments.Window} (hw : w.Of interval) (h : s.upsertBatches interval batches = .ok t) :
    (t.markOf w.start = s.markOf w.start ∧ t.candles.within w = s.candles.within w) ∨
      ∃ m, t.markOf w.start = some m := by
  induction batches generalizing s with
  | nil =>
    cases h
    exact .inl ⟨rfl, rfl⟩
  | cons batch batches ih =>
    obtain ⟨written, next, hfirst, hrest⟩ := upsertBatches_cons h
    rcases ih hrest with ⟨hmark, hwithin⟩ | hmarked
    · rcases (Store.upsertCandles_ok hfirst).windows w hw with ⟨hsame, hrows⟩ | ⟨m, hm, -⟩
      · exact .inl ⟨hmark.trans hsame, hwithin.trans hrows⟩
      · exact .inr ⟨m, hmark.trans hm⟩
    · exact .inr hmarked

end Writing

section Packing

variable {interval : Interval} {s t : Store} {w : Segments.Window} {batches : List (List Candle)}

/-- The rows of a window that was empty are the candles last written there. -/
theorem within_written (fresh : s.candles.within w = [])
    (h : s.upsertBatches interval batches = .ok t) (row : TextCandle) :
    row ∈ t.candles.within w ↔ w.contains row.openTimeMs = true ∧
      ∃ c, lastWritten batches.flatten row.openTimeMs = some c ∧ c.toText = row := by
  have unheld (inside : w.contains row.openTimeMs = true) :
      s.candles.find row.openTimeMs.toInt = none := by
    rw [Option.eq_none_iff_forall_ne_some]
    intro old hold
    obtain ⟨hmem, hkey⟩ := s.candles.find_iff.mp hold
    rw [← Int64.toInt_inj.mp hkey] at inside
    have listed : old ∈ s.candles.within w := CandleTable.mem_within.mpr ⟨hmem, inside⟩
    rw [fresh] at listed
    cases listed
  have held : row ∈ t.candles.rows ↔ t.candles.find row.openTimeMs.toInt = some row := by
    rw [t.candles.find_iff]
    simp
  rw [CandleTable.mem_within, and_comm, held, upsertBatches_find h]
  refine and_congr_right fun inside => ?_
  rw [unheld inside, Option.or_none, Option.map_eq_some_iff]

theorem lastWritten_openTimeMs {written : List Candle} {time : Int64} {c : Candle}
    (h : lastWritten written time = some c) : c.openTimeMs = time := by
  simpa using List.find?_some h

theorem all_iff {row : Candle} [DecimalParser] [ExactParser] :
    (row.toText.All fun text => isExact text = true) ↔ NoNegativeZero row := by
  have one (d : Decimal) :
      isExact d.toText = true ↔ ¬(d.isZero = true ∧ d.negative = true) := by
    rw [isExact_toText, canonical_iff]
  constructor
  · intro h
    exact ⟨(one _).mp h.open_, (one _).mp h.high, (one _).mp h.low, (one _).mp h.close,
      (one _).mp h.volume⟩
  · intro h
    exact ⟨(one _).mpr h.open_, (one _).mpr h.high, (one _).mpr h.low, (one _).mpr h.close,
      (one _).mpr h.volume⟩

/-- The texts written of a window are exact where no candle of it has a negative
zero. -/
theorem exact_iff [DecimalParser] [ExactParser] (fresh : s.candles.within w = [])
    (h : s.upsertBatches interval batches = .ok t) :
    (∀ row ∈ t.candles.within w, row.All fun text => isExact text = true) ↔
      ∀ time c, w.contains time = true → lastWritten batches.flatten time = some c →
        NoNegativeZero c := by
  constructor
  · intro exact_ time c inside hc
    have opens := lastWritten_openTimeMs hc
    have row : c.toText ∈ t.candles.within w := by
      rw [within_written fresh h]
      refine ⟨?_, c, ?_, rfl⟩
      · show w.contains c.openTimeMs = true
        rw [opens]
        exact inside
      · show lastWritten batches.flatten c.openTimeMs = some c
        rw [opens]
        exact hc
    exact all_iff.mp (exact_ _ row)
  · intro none_ row hrow
    obtain ⟨inside, c, hc, rfl⟩ := (within_written fresh h row).mp hrow
    exact all_iff.mpr (none_ _ c inside hc)

/-- A window's candles are those from its start to before its end. -/
theorem between_contains (hw : w.Of interval) (u : Int64) :
    (CandleQuery.between w.start (w.end_ - 1)).admits u = w.contains u := by
  have span := spanMs_pos interval
  have bounds := (window_some.mp hw).2
  have low := Int64.le_toInt w.start
  have high := Int64.toInt_lt w.end_
  have last : (w.end_ - 1).toInt = w.end_.toInt - 1 := by
    rw [Int64.toInt_sub, show (1 : Int64).toInt = 1 from rfl]
    exact Int.bmod_eq_of_le (by omega) (by omega)
  rw [Bool.eq_iff_iff, between_admits, contains_iff, last]
  omega

variable [DecimalParser] [Sha256] [Zstd] [ExactParser]

/-- A window that was empty packs to the segment of the payload that the candles it
is read back as are encoded to, exactly when no candle last written in it has a
negative zero. -/
theorem packs_as_encoded_iff (hw : w.Of interval) (fresh : s.candles.within w = [])
    (h : s.upsertBatches interval batches = .ok t) (least : 1 ≤ (t.candles.within w).length)
    (most : (t.candles.within w).length ≤ windowBars)
    (compresses : ∀ payload, encodeText (t.candles.within w) = .ok payload →
      ∃ stored, Zstd.compress payload = some stored) :
    (∃ snapshot packed payload candles, t.readWindow w = some snapshot ∧
        pack snapshot = .ok packed ∧ encodeText snapshot.candles = .ok payload ∧
        t.loadCandles (.between w.start (w.end_ - 1)) = .ok candles ∧
        encode candles = .ok payload ∧
        Carries ((t.entryOf w.start).map (·.hash)) candles payload packed) ↔
      ∀ time c, w.contains time = true → lastWritten batches.flatten time = some c →
        NoNegativeZero c := by
  rw [← exact_iff fresh h]
  constructor
  · rintro ⟨snapshot, packed, payload, candles, hread, -, hencode, -⟩
    obtain ⟨m, -, rfl⟩ := Option.map_eq_some_iff.mp hread
    exact (encodeText_ok.mp hencode).2.1
  · intro exact_
    have rising : ((t.candles.within w).map (·.openTimeMs)).Pairwise (· < ·) := by
      rw [List.pairwise_map]
      exact (t.candles.within_rising w).imp fun hlt => Int64.lt_iff_toInt_lt.mpr hlt
    have encodes : encodeText (t.candles.within w) = .ok (layout (t.candles.within w)) :=
      encodeText_ok.mpr ⟨⟨least, most, rising⟩, exact_, rfl⟩
    obtain ⟨m, hm⟩ : ∃ m, t.markOf w.start = some m := by
      rcases upsertBatches_marks hw h with ⟨-, same⟩ | marked
      · rw [same, fresh] at least
        simp at least
      · exact marked
    obtain ⟨candles, hparse, htexts, hcanonical⟩ := parse_rows exact_
    have read : t.readWindow w =
        some ⟨m.id, t.candles.within w, (t.entryOf w.start).map (·.hash)⟩ := by
      rw [Store.readWindow, hm]
      rfl
    have loads : t.loadCandles (.between w.start (w.end_ - 1)) = .ok candles := by
      have rows : t.select (CandleQuery.between w.start (w.end_ - 1)).admits =
          t.candles.within w := by
        rw [Store.select, CandleTable.within]
        exact List.filter_congr fun c _ => between_contains hw c.openTimeMs
      rw [Store.loadCandles, rows]
      exact hparse
    have same : encode candles = encodeText (t.candles.within w) := by
      rw [encode, ← htexts]
      congr 1
      apply List.map_congr_left
      intro c hc
      apply CandleOf.map_congr
      have unsigned := hcanonical c hc
      exact ⟨written_canonical unsigned.open_, written_canonical unsigned.high,
        written_canonical unsigned.low, written_canonical unsigned.close,
        written_canonical unsigned.volume⟩
    have listed : candles ≠ [] := by
      rintro rfl
      rw [← htexts] at least
      simp [asText] at least
    let snapshot : Snapshot := ⟨m.id, t.candles.within w, (t.entryOf w.start).map (·.hash)⟩
    have texts : asText candles = snapshot.candles := htexts
    obtain ⟨packed, hpack, carries⟩ := pack_carries texts listed encodes (compresses _ encodes)
    exact ⟨_, packed, _, candles, read, hpack, encodes, loads, same.trans encodes, carries⟩

end Packing

attribute [local instance] exactTextParser sampleSha256 sampleZstd

def minuteWindow : Segments.Window := ⟨0, 86400000⟩

/-- A candle with a negative zero for its volume. -/
def unsignedBar : Candle := { sampleBar 0 with volume := .negate (.tenths 0) }

/-- A negative zero is stored with its sign, and its window is never packed. -/
theorem negative_zero_blocks :
    ((Store.empty.upsertBatches .m1 [[unsignedBar]]).toOption.bind fun t =>
      (t.readWindow minuteWindow).map pack) =
        some (.error (.invalidDecimal "volume" 0 (Bytes.utf8 "-0.0"))) := by
  decide +kernel

/-- A store that holds one candle. -/
def sampleStore : Store :=
  (Store.empty.upsertBatches .m1 [[sampleBar 0]]).toOption.getD Store.empty

/-- Its window packs as it is encoded. -/
theorem sampleStore_packs :
    ∃ snapshot packed payload candles, sampleStore.readWindow minuteWindow = some snapshot ∧
      pack snapshot = .ok packed ∧ encodeText snapshot.candles = .ok payload ∧
      sampleStore.loadCandles (.between minuteWindow.start (minuteWindow.end_ - 1)) = .ok candles ∧
      encode candles = .ok payload ∧
      Carries ((sampleStore.entryOf minuteWindow.start).map (·.hash)) candles payload packed := by
  have parses := exactTextParser_exact
  have written : Store.empty.upsertBatches .m1 [[sampleBar 0]] = .ok sampleStore := by
    have accepted : (Store.empty.upsertBatches .m1 [[sampleBar 0]]).isOk = true := by
      decide +kernel
    unfold sampleStore
    cases h : Store.empty.upsertBatches .m1 [[sampleBar 0]] with
    | error error => simp [h, Except.isOk, Except.toBool] at accepted
    | ok t => rfl
  have rows : sampleStore.candles.within minuteWindow = [(sampleBar 0).toText] := by
    decide +kernel
  have minutes : minuteWindow.Of .m1 := show Segments.window .m1 0 = some minuteWindow by decide
  refine (packs_as_encoded_iff (s := Store.empty) minutes rfl written ?_ ?_ ?_).mpr ?_
  · rw [rows]
    decide
  · rw [rows]
    decide
  · intro payload hpayload
    rw [rows] at hpayload
    rw [(encodeText_ok.mp hpayload).2.2]
    exact ⟨sampleFrame, if_pos rfl⟩
  · intro time c _ hc
    have one := List.mem_of_find?_eq_some hc
    rw [List.mem_singleton.mp (List.mem_reverse.mp one)]
    constructor
    all_goals decide

end QuantForge.Sqlite
