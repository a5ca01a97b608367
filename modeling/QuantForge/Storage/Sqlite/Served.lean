import QuantForge.Storage.Sqlite.Interleaving

namespace QuantForge.Sqlite

open Refresh Segments

/-- The rows an entry stands for. -/
def Store.entryRows (interval : Interval) (s : Store) (e : Entry) : List TextCandle :=
  match Segments.window interval e.windowStartMs with
  | some w => s.candles.within w
  | none => []

theorem between_admits {firstOpenMs lastOpenMs t : Int64} :
    (CandleQuery.between firstOpenMs lastOpenMs).admits t = true ↔
      firstOpenMs.toInt ≤ t.toInt ∧ t.toInt ≤ lastOpenMs.toInt := by
  simp [CandleQuery.between, CandleQuery.admits, Int64.le_iff_toInt_le]

theorem listed_iff {start firstOpenMs lastOpenMs : Int64} {e : Entry} :
    Store.listed start firstOpenMs lastOpenMs e = true ↔
      e.windowStartMs.toInt < start.toInt ∧ firstOpenMs.toInt ≤ e.lastOpenMs.toInt ∧
        e.firstOpenMs.toInt ≤ lastOpenMs.toInt := by
  simp [Store.listed, Int64.le_iff_toInt_le, Int64.lt_iff_toInt_lt, and_assoc]

theorem max_toInt (a b : Int64) : (max a b).toInt = max a.toInt b.toInt := by
  have hmax : max a b = if a ≤ b then b else a := rfl
  rw [hmax]
  split_ifs with h
  · exact (max_eq_right (Int64.le_iff_toInt_le.mp h)).symm
  · have hlt := Int64.le_iff_toInt_le.not.mp h
    exact (max_eq_left (by omega)).symm

theorem min_toInt (a b : Int64) : (min a b).toInt = min a.toInt b.toInt := by
  have hmin : min a b = if a ≤ b then a else b := rfl
  rw [hmin]
  split_ifs with h
  · exact (min_eq_left (Int64.le_iff_toInt_le.mp h)).symm
  · have hlt := Int64.le_iff_toInt_le.not.mp h
    exact (min_eq_right (by omega)).symm

/-- A time where a window starts, with no mark below it. -/
structure Clean (interval : Interval) (s : Store) (start : Int64) : Prop where
  starts : ∃ w : Segments.Window, w.Of interval ∧ w.start = start
  marks : ∀ m ∈ s.dirty.rows, start.toInt ≤ m.windowStartMs.toInt

theorem Clean.unmarked {interval : Interval} {s : Store} {start below : Int64}
    (h : Clean interval s start) (hlt : below.toInt < start.toInt) : s.markOf below = none := by
  rw [Option.eq_none_iff_forall_ne_some]
  intro m hm
  obtain ⟨hmem, hmstart⟩ := Store.markOf_some.mp hm
  have hle := h.marks m hmem
  rw [hmstart] at hle
  omega

/-- A plan trusts the index below its tip's start: no mark is there. -/
theorem tipStart_clean {interval : Interval} {s : Store} {tipWindow : Int64}
    (hs : Marks interval s) (htip : ∃ w : Segments.Window, w.Of interval ∧ w.start = tipWindow) :
    Clean interval s (tipStart tipWindow (s.dirty.lowest.map (·.windowStartMs))) := by
  cases hlow : s.dirty.lowest with
  | none =>
    have hrows := s.dirty.lowest_none.mp hlow
    exact ⟨htip, by simp [hrows]⟩
  | some lowest =>
    have hmem := List.mem_of_mem_head? hlow
    simp only [Option.map_some, tipStart]
    refine ⟨?_, ?_⟩
    · have hmin : min lowest.windowStartMs tipWindow =
          if lowest.windowStartMs ≤ tipWindow then lowest.windowStartMs else tipWindow := rfl
      rw [hmin]
      split_ifs
      · exact hs.starts lowest hmem
      · exact htip
    · intro m hm
      have hfirst := Table.rising_head s.dirty.rising hlow hm
      rw [min_toInt]
      omega

/-- The rows of a plan's tip are the rows of the range from its start on. -/
theorem tip_rows (s : Store) (segments : List SegmentRef) (start firstOpenMs lastOpenMs : Int64) :
    ((s.candles.rows.filter fun c =>
        (CandleQuery.between firstOpenMs lastOpenMs).admits c.openTimeMs).filter
        fun c => start.toInt ≤ c.openTimeMs.toInt) =
      match (plan segments start firstOpenMs lastOpenMs).tip with
      | some tip => s.select (CandleQuery.between tip.firstOpenMs tip.lastOpenMs).admits
      | none => [] := by
  unfold plan
  by_cases hle : start ≤ lastOpenMs
  · rw [if_pos hle, List.filter_filter]
    apply List.filter_congr
    intro c _
    rw [Bool.eq_iff_iff, Bool.and_eq_true, decide_eq_true_eq]
    simp only [between_admits, max_toInt]
    omega
  · rw [if_neg hle, List.filter_filter, List.filter_eq_nil_iff]
    intro c _
    rw [Int64.le_iff_toInt_le] at hle
    rw [Bool.and_eq_true, between_admits, decide_eq_true_eq]
    omega

/-- Reading rows keeps those a filter on open times keeps. -/
theorem parse_filter [DecimalParser] {rows : List TextCandle} {candles : List Candle} (p : Int64 → Bool)
    (h : rows.mapM parseCandleRow = .ok candles) :
    (rows.filter fun c => p c.openTimeMs).mapM parseCandleRow =
      .ok (candles.filter fun c => p c.openTimeMs) := by
  rw [mapM_ok] at h ⊢
  induction h with
  | nil => exact .nil
  | cons hparse _ ih =>
    rw [List.filter_cons, List.filter_cons, parse_openTimeMs hparse]
    split_ifs
    · exact .cons hparse ih
    · exact ih

section

variable [DecimalParser] [Sha256] [Zstd] {interval : Interval} {payloads : Set (List UInt8)}
  {s : Store} {start : Int64}

/-- An entry below the marks lists its window's candles. -/
theorem entry_current (hs : Consistent interval payloads s) (hstart : Clean interval s start)
    {e : Entry} (he : e ∈ s.index.rows) (hbelow : e.windowStartMs.toInt < start.toInt) :
    ∃ w : Segments.Window, w.Of interval ∧ w.start = e.windowStartMs ∧
      w.end_.toInt ≤ start.toInt ∧ s.entryRows interval e = s.candles.within w ∧
      Describes payloads s e (s.candles.within w) := by
  obtain ⟨w, hw, hwstart, -⟩ := hs.entries e he
  obtain ⟨v, hv, rfl⟩ := hstart.starts
  have hnone : s.markOf w.start = none := hstart.unmarked (by rw [hwstart]; exact hbelow)
  have hentry : s.entryOf w.start = some e := Store.entryOf_some.mpr ⟨he, hwstart.symm⟩
  have hcurrent := hs.current w hw hnone
  rw [Indexed, hentry] at hcurrent
  refine ⟨w, hw, hwstart, ?_, ?_, hcurrent⟩
  · exact Segments.window_apart hw hv (by rw [hwstart]; exact hbelow)
  · rw [Store.entryRows, ← hwstart, hw]

/-- The rows of the listed entries that a range keeps are the rows of the
range below the tip's start. -/
theorem listed_rows (hs : Consistent interval payloads s) (hstart : Clean interval s start)
    (firstOpenMs lastOpenMs : Int64) :
    let admits := (CandleQuery.between firstOpenMs lastOpenMs).admits
    (((s.index.rows.filter (Store.listed start firstOpenMs lastOpenMs)).flatMap
        (s.entryRows interval)).filter fun c => admits c.openTimeMs) =
      (s.candles.rows.filter fun c => admits c.openTimeMs).filter
        fun c => c.openTimeMs.toInt < start.toInt := by
  intro admits
  have hlisted : ∀ e ∈ s.index.rows.filter (Store.listed start firstOpenMs lastOpenMs),
      e ∈ s.index.rows ∧ e.windowStartMs.toInt < start.toInt := by
    intro e he
    obtain ⟨hmem, hlisted⟩ := List.mem_filter.mp he
    exact ⟨hmem, (listed_iff.mp hlisted).1⟩
  have hrange := s.candles.rising.filter fun c => admits c.openTimeMs
  refine Table.rising_ext ?_ (hrange.filter fun c => c.openTimeMs.toInt < start.toInt) ?_
  · apply List.Pairwise.filter
    refine List.pairwise_flatMap.mpr ⟨?_, ?_⟩
    · intro e he
      obtain ⟨hmem, hbelow⟩ := hlisted e he
      obtain ⟨w, -, -, -, hrows, -⟩ := entry_current hs hstart hmem hbelow
      rw [hrows]
      exact s.candles.within_rising w
    · have hrising := s.index.rising.filter (Store.listed start firstOpenMs lastOpenMs)
      apply List.Pairwise.imp_of_mem ?_ hrising
      intro e f he hf hlt a ha b hb
      obtain ⟨hememb, hebelow⟩ := hlisted e he
      obtain ⟨hfmem, hfbelow⟩ := hlisted f hf
      obtain ⟨w, hw, hwstart, -, hwrows, -⟩ := entry_current hs hstart hememb hebelow
      obtain ⟨v, hv, hvstart, -, hvrows, -⟩ := entry_current hs hstart hfmem hfbelow
      rw [hwrows, CandleTable.mem_within, contains_iff] at ha
      rw [hvrows, CandleTable.mem_within, contains_iff] at hb
      have hapart := Segments.window_apart hw hv (by rw [hwstart, hvstart]; exact hlt)
      omega
  · intro c
    simp only [List.mem_filter, List.mem_flatMap, decide_eq_true_eq]
    constructor
    · rintro ⟨⟨e, ⟨hmem, he⟩, hc⟩, hrange⟩
      obtain ⟨w, -, -, hend, hrows, -⟩ := entry_current hs hstart hmem (listed_iff.mp he).1
      rw [hrows, CandleTable.mem_within, contains_iff] at hc
      exact ⟨⟨hc.1, hrange⟩, by omega⟩
    · rintro ⟨⟨hc, hrange⟩, hbelow⟩
      obtain ⟨w, hw⟩ := hs.placed c hc
      have hof : w.Of interval := Segments.window_start hw
      have hinside := contains_iff.mp (Segments.window_self hw)
      have hcw : c ∈ s.candles.within w :=
        CandleTable.mem_within.mpr ⟨hc, Segments.window_self hw⟩
      have hwbelow : w.start.toInt < start.toInt := by omega
      have hcurrent := hs.current w hof (hstart.unmarked hwbelow)
      cases hentry : s.entryOf w.start with
      | none =>
        rw [Indexed, hentry] at hcurrent
        simp [hcurrent] at hcw
      | some e =>
        rw [Indexed, hentry] at hcurrent
        obtain ⟨hmem, hestart⟩ := Store.entryOf_some.mp hentry
        obtain ⟨first, hfirst, hfirstOpen⟩ := Option.map_eq_some_iff.mp hcurrent.first
        obtain ⟨last, hlast, hlastOpen⟩ := Option.map_eq_some_iff.mp hcurrent.last
        have hlow := Table.rising_head (s.candles.within_rising w) hfirst hcw
        have hhigh := Table.rising_last (s.candles.within_rising w) hlast hcw
        have hadmits := between_admits.mp hrange
        rw [← hestart] at hwbelow
        refine ⟨⟨e, ⟨hmem, listed_iff.mpr ⟨hwbelow, ?_, ?_⟩⟩, ?_⟩, hrange⟩
        · rw [← hlastOpen]
          omega
        · rw [← hfirstOpen]
          omega
        · obtain ⟨v, -, hvstart, -, hrows, -⟩ := entry_current hs hstart hmem hwbelow
          rw [Store.entryRows, hestart, hof]
          exact hcw

variable [ExactParser] [LawfulZstd]

/-- A listed entry is fetched as the candles its rows are read as. -/
theorem fetch_entry (hinj : Set.InjOn Sha256.digest payloads) (hs : Consistent interval payloads s)
    {e : Entry} {rows : List TextCandle} (h : Describes payloads s e rows) :
    ∃ segment candles, s.segmentRef e = some segment ∧ segment.hash = e.hash ∧
      s.fetch e.hash = some (.ok candles) ∧ rows.mapM parseCandleRow = .ok candles := by
  obtain ⟨payload, hmember, hencode, hdigest⟩ := h.packed
  obtain ⟨found, hfound⟩ := h.stored
  obtain ⟨candles, hdecode, hparse, -⟩ := decode_encodeText hencode
  refine ⟨_, candles, by rw [Store.segmentRef, hfound]; rfl, rfl, ?_, hparse⟩
  have hhash : found.hash = e.hash := by simpa using List.find?_some hfound
  obtain ⟨stored, hstored, hname, hdata⟩ := hs.segments found (List.mem_of_find?_eq_some hfound)
  have hsame : stored = payload := hinj hstored hmember (by rw [hname, hhash, hdigest])
  rw [hsame] at hdata
  obtain ⟨hsized, hexact, hlayout⟩ := encodeText_ok.mp hencode
  have hlen : payload.length ≤ maxPayloadBytes := by
    rw [hlayout]
    exact layout_length_le hsized hexact
  have hopen := open_compress hdata hlen
  rw [hdigest, hdecode] at hopen
  rw [Store.fetch, Store.loadSegment, hfound, Option.map_some, Option.map_some, hopen]

/-- The listed segments open to the candles that their rows are read as. -/
theorem fetch_entries (hinj : Set.InjOn Sha256.digest payloads)
    (hs : Consistent interval payloads s) {entries : List Entry} {rows : Entry → List TextCandle}
    (h : ∀ e ∈ entries, Describes payloads s e (rows e)) :
    ∃ decoded, List.Forall₂ (fun segment candles => s.fetch segment.hash = some (.ok candles))
        (entries.filterMap s.segmentRef) decoded ∧
      (entries.flatMap rows).mapM parseCandleRow = .ok decoded.flatten := by
  induction entries with
  | nil => exact ⟨[], .nil, rfl⟩
  | cons e entries ih =>
    obtain ⟨decoded, hfetched, hparsed⟩ := ih fun f hf => h f (List.mem_cons_of_mem _ hf)
    obtain ⟨segment, candles, href, hhash, hfetch, hparse⟩ := fetch_entry hinj hs (h e (by simp))
    refine ⟨candles :: decoded, ?_, ?_⟩
    · rw [List.filterMap_cons_some href]
      exact .cons (by rw [hhash]; exact hfetch) hfetched
    · rw [List.flatMap_cons, List.mapM_append, hparse, hparsed]
      rfl

/-- The candles of a plan's tip, read from the candle store. -/
def Store.loadTip (s : Store) (plan : SegmentPlan) : Except StorageError (List Candle) :=
  match plan.tip with
  | some tip => s.loadCandles (.between tip.firstOpenMs tip.lastOpenMs)
  | none => .ok []

/-- The plan of a range serves the range's candles: those of its segments that
lie in the range, then those of its tip. -/
theorem resolve_serves (hinj : Set.InjOn Sha256.digest payloads)
    (hs : Consistent interval payloads s) {firstOpenMs lastOpenMs : Int64}
    (hle : firstOpenMs ≤ lastOpenMs) :
    ∃ plan decoded, s.resolveSegments interval firstOpenMs lastOpenMs = .ok plan ∧
      List.Forall₂ (fun segment candles => s.fetch segment.hash = some (.ok candles))
        plan.segments decoded ∧
      s.loadCandles (.between firstOpenMs lastOpenMs) = (do
        let tip ← s.loadTip plan
        return (decoded.flatten.filter fun c =>
          firstOpenMs ≤ c.openTimeMs && c.openTimeMs ≤ lastOpenMs) ++ tip) := by
  have hrange : checkRange firstOpenMs lastOpenMs = .ok () := by
    rw [checkRange, if_neg (Int64.not_lt.mpr hle)]
  cases hnewest : s.candles.highest with
  | none =>
    refine ⟨allTip firstOpenMs lastOpenMs, [], ?_, .nil, ?_⟩
    · simp only [Store.resolveSegments, hrange, Store.tipWindow, hnewest]
      rfl
    · simp only [Store.loadTip, allTip]
      cases s.loadCandles (.between firstOpenMs lastOpenMs) <;> rfl
  | some newest =>
    obtain ⟨w, hw⟩ := hs.placed newest (List.mem_of_getLast? hnewest)
    have htip : s.tipWindow interval = .ok (some w.start) := by
      have hstart := Storage.windowStart_ok.mpr ⟨w, hw, rfl⟩
      simp only [Store.tipWindow, hnewest, hstart]
      rfl
    have hclean := tipStart_clean hs.marks ⟨w, Segments.window_start hw, rfl⟩
    generalize hstart : tipStart w.start (s.dirty.lowest.map (·.windowStartMs)) = start at hclean
    have hentries : ∀ e ∈ s.index.rows.filter (Store.listed start firstOpenMs lastOpenMs),
        Describes payloads s e (s.entryRows interval e) := by
      intro e he
      obtain ⟨hmem, hlisted⟩ := List.mem_filter.mp he
      obtain ⟨v, -, -, -, hrows, hdescribes⟩ :=
        entry_current hs hclean hmem (listed_iff.mp hlisted).1
      rw [hrows]
      exact hdescribes
    obtain ⟨decoded, hfetched, hparsed⟩ := fetch_entries hinj hs hentries
    refine ⟨plan ((s.index.rows.filter (Store.listed start firstOpenMs lastOpenMs)).filterMap
      s.segmentRef) start firstOpenMs lastOpenMs, decoded, ?_, hfetched, ?_⟩
    · rw [← hstart]
      simp only [Store.resolveSegments, hrange, htip]
      rfl
    · have hload : s.loadCandles (.between firstOpenMs lastOpenMs) =
          (s.candles.rows.filter fun c =>
            (CandleQuery.between firstOpenMs lastOpenMs).admits c.openTimeMs).mapM
              parseCandleRow := rfl
      have hsplit := Table.rising_split (s.candles.rising.filter fun c =>
        (CandleQuery.between firstOpenMs lastOpenMs).admits c.openTimeMs) start.toInt
      have hpacked := parse_filter (CandleQuery.between firstOpenMs lastOpenMs).admits hparsed
      rw [listed_rows hs hclean firstOpenMs lastOpenMs] at hpacked
      rw [hload, hsplit, List.mapM_append, hpacked, tip_rows, Store.loadTip]
      cases (plan _ start firstOpenMs lastOpenMs).tip <;> rfl

/-- Segment plans never lose, duplicate or serve stale candles: in every state
that writers and refreshes reach, step by step in any order, the plan of a
range serves exactly the candles the store loads for it. -/
theorem plan_serves (interval : Interval) (ops : List Op)
    (hinj : Set.InjOn Sha256.digest (met interval ops)) (firstOpenMs lastOpenMs : Int64)
    (hle : firstOpenMs ≤ lastOpenMs) :
    let s := ((machine interval).run World.empty ops).store
    ∃ plan decoded, s.resolveSegments interval firstOpenMs lastOpenMs = .ok plan ∧
      List.Forall₂ (fun segment candles => s.fetch segment.hash = some (.ok candles))
        plan.segments decoded ∧
      s.loadCandles (.between firstOpenMs lastOpenMs) = (do
        let tip ← s.loadTip plan
        return (decoded.flatten.filter fun c =>
          firstOpenMs ≤ c.openTimeMs && c.openTimeMs ≤ lastOpenMs) ++ tip) :=
  resolve_serves hinj (sound_run hinj).store hle

end

/-- A candle of one minute. -/
def sampleBar (openTimeMs : Int64) : Candle where
  openTimeMs := openTimeMs
  closeTimeMs := openTimeMs + 59999
  open_ := .hundredths 110
  high := .hundredths 120
  low := .hundredths 100
  close := .hundredths 110
  volume := .tenths 5
  trades := some 3

def samplePayload : List UInt8 := layout [(sampleBar 0).toText]

def sampleDigest : List UInt8 :=
  [75, 109, 168, 168, 28, 250, 193, 255, 59, 62, 158, 145, 20, 37, 185, 180, 19, 64, 4, 98, 45, 21,
    143, 224, 26, 99, 213, 226, 207, 254, 61, 218]

def sampleFrame : List UInt8 :=
  [40, 181, 47, 253, 32, 65, 149, 1, 0, 36, 2, 81, 70, 83, 69, 71, 77, 78, 84, 1, 0, 0, 0, 95, 234,
    0, 3, 0, 1, 4, 49, 46, 49, 48, 4, 49, 46, 50, 48, 49, 48, 3, 48, 46, 53, 6, 0, 32, 4, 74, 64, 96,
    48, 184, 3, 8, 28, 184, 36]

/-- SHA-256 on the one payload the sample run packs. -/
@[reducible] def sampleSha256 : Sha256 := ⟨fun payload => if payload = samplePayload then sampleDigest else []⟩

/-- zstd on the one payload the sample run packs. -/
@[reducible] def sampleZstd : Zstd where
  frameLen bytes := if bytes = sampleFrame then some sampleFrame.length else none
  contentSize bytes := if bytes = sampleFrame then some samplePayload.length else none
  compress payload := if payload = samplePayload then some sampleFrame else none
  decompress bytes capacity :=
    if bytes = sampleFrame ∧ samplePayload.length ≤ capacity then some samplePayload else none

attribute [local instance] exactTextParser sampleSha256 sampleZstd

theorem sampleZstd_lawful : LawfulZstd := by
  have hpacked : ∀ {payload bytes : List UInt8}, Zstd.compress payload = some bytes →
      payload = samplePayload ∧ bytes = sampleFrame := by
    intro payload bytes h
    simp only [Zstd.compress] at h
    split_ifs at h with hsample
    exact ⟨hsample, (Option.some.inj h).symm⟩
  refine ⟨?_, ?_, ?_⟩
  · intro payload bytes h
    obtain ⟨-, rfl⟩ := hpacked h
    exact if_pos rfl
  · intro payload bytes h
    obtain ⟨rfl, rfl⟩ := hpacked h
    exact if_pos rfl
  · intro payload bytes capacity h hlen
    obtain ⟨rfl, rfl⟩ := hpacked h
    exact if_pos ⟨rfl, hlen⟩

/-- Two days of candles, of which a refresh packs the first. -/
def sampleRun : List Op :=
  [.upsertCandles [sampleBar 0, sampleBar 86400000], .readWindow 0, .pack 0, .writeWindow 0]

theorem sampleRun_met : ∀ payload ∈ met .m1 sampleRun, payload = samplePayload := by
  intro payload h
  have hpack : digested ((machine .m1).run World.empty (sampleRun.take 2)) (.pack 0) =
      some samplePayload := by decide +kernel
  rcases h with h | h | h | h | h
  · cases h
  · cases h
  · exact Option.some.inj (h.symm.trans hpack)
  · cases h
  · cases h

theorem sampleRun_serves :
    let s := ((machine .m1).run World.empty sampleRun).store
    (s.resolveSegments .m1 0 86400000).toOption.map (fun plan => plan.segments.length) = some 1 ∧
    ∃ plan decoded, s.resolveSegments .m1 0 86400000 = .ok plan ∧
      List.Forall₂ (fun segment candles => s.fetch segment.hash = some (.ok candles))
        plan.segments decoded ∧
      s.loadCandles (.between 0 86400000) = (do
        let tip ← s.loadTip plan
        return (decoded.flatten.filter fun c =>
          (0 : Int64) ≤ c.openTimeMs && c.openTimeMs ≤ 86400000) ++ tip) := by
  have hexact := exactTextParser_exact
  have hlawful := sampleZstd_lawful
  refine ⟨by decide +kernel, plan_serves .m1 sampleRun ?_ 0 86400000 (by decide)⟩
  intro payload hpayload other hother _
  rw [sampleRun_met payload hpayload, sampleRun_met other hother]

end QuantForge.Sqlite
