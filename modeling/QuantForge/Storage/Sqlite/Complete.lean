import QuantForge.Storage.Sqlite.Filled
import QuantForge.Storage.Sqlite.Refreshed

namespace QuantForge.Sqlite

open Refresh Segments Prog

section

variable [DecimalParser] [Sha256] [Zstd] {interval : Interval}

theorem Consistent.widen {payloads wider : Set (List UInt8)} {s : Store}
    (h : Consistent interval payloads s) (sub : payloads ⊆ wider) :
    Consistent interval wider s := by
  have describes {e : Entry} {candles : List TextCandle} (he : Describes payloads s e candles) :
      Describes wider s e candles := by
    obtain ⟨payload, hmember, hencode, hdigest⟩ := he.packed
    exact ⟨⟨payload, sub hmember, hencode, hdigest⟩, he.stored, he.first, he.last, he.count⟩
  refine ⟨h.marks, h.placed, fun segment hsegment => ?_, fun e he => ?_, fun w hw hnone => ?_⟩
  · obtain ⟨payload, hmember, hstored⟩ := h.segments segment hsegment
    exact ⟨payload, sub hmember, hstored⟩
  · obtain ⟨w, hw, hstart, candles, hdescribes⟩ := h.entries e he
    exact ⟨w, hw, hstart, candles, describes hdescribes⟩
  · have current := h.current w hw hnone
    unfold Indexed at current ⊢
    split at current
    · exact describes current
    · exact current

/-- The payloads of the windows below the tip. -/
def packable (interval : Interval) (s : Store) : Set (List UInt8) :=
  fun payload => ∃ w : Segments.Window, ∃ tipWindow, w.Of interval ∧
    s.tipWindow interval = .ok (some tipWindow) ∧ w.start < tipWindow ∧
    encodeText (s.candles.within w) = .ok payload

/-- A window below the tip is indexed under exactly these candles. -/
structure IndexedAs (t : Store) (w : Segments.Window) (rows : List TextCandle) (e : Entry) :
    Prop where
  entry : t.entryOf w.start = some e
  hash : ∃ payload, encodeText rows = .ok payload ∧ e.hash = Sha256.digest payload
  first : rows.head?.map (·.openTimeMs) = some e.firstOpenMs
  last : rows.getLast?.map (·.openTimeMs) = some e.lastOpenMs
  count : rows.length = e.barCount

/-- What a refresh leaves of the windows: the marked ones below the tip have
candles that cannot be encoded, the others below it are indexed as they are, and
the ones without candles are not indexed. -/
structure Complete (interval : Interval) (tipWindow : Int64) (t : Store) : Prop where
  marked {w : Segments.Window} {m : Mark} : w.Of interval → w.start < tipWindow →
    t.markOf w.start = some m → windowBars < (t.candles.within w).length ∨
      ∃ c ∈ t.candles.within w, ¬ c.All fun text => isExact text = true
  indexed {w : Segments.Window} : w.Of interval → w.start < tipWindow →
    t.markOf w.start = none → t.candles.within w ≠ [] →
      ∃ e, IndexedAs t w (t.candles.within w) e
  empty {w : Segments.Window} : w.Of interval → t.candles.within w = [] →
    t.entryOf w.start = none

omit [Zstd] in
theorem Describes.indexedAs {payloads : Set (List UInt8)} {t : Store} {w : Segments.Window}
    {rows : List TextCandle} {e : Entry} (h : Describes payloads t e rows)
    (entry : t.entryOf w.start = some e) : IndexedAs t w rows e := by
  obtain ⟨payload, -, hencode, hdigest⟩ := h.packed
  exact ⟨entry, ⟨payload, hencode, hdigest.symm⟩, h.first, h.last, h.count⟩

omit [Sha256] [Zstd] in
/-- Candles that cannot be encoded are too many, or one of them is not exact. -/
theorem refused_why {candles : CandleTable} {w : Segments.Window}
    (h : refused (candles.within w) = true) :
    windowBars < (candles.within w).length ∨
      ∃ c ∈ candles.within w, ¬ c.All fun text => isExact text = true := by
  obtain ⟨some_, error, herror⟩ := refused_true h
  by_contra fits
  rw [not_or, not_lt] at fits
  have exact_ : ∀ c ∈ candles.within w, c.All fun text => isExact text = true := by
    intro c hc
    by_contra inexact
    exact fits.2 ⟨c, hc, inexact⟩
  have rising : ((candles.within w).map (·.openTimeMs)).Pairwise (· < ·) := by
    rw [List.pairwise_map]
    exact (candles.within_rising w).imp fun hlt => Int64.lt_iff_toInt_lt.mpr hlt
  have least : 1 ≤ (candles.within w).length := List.length_pos_iff.mpr some_
  have encodes := encodeText_ok.mpr ⟨⟨least, fits.1, rising⟩, exact_, rfl⟩
  rw [herror] at encodes
  cases encodes

/-- The marks left by a refresh are refused, so its windows are complete. -/
theorem refreshes_complete {payloads : Set (List UInt8)} {s t : Store} {tipWindow : Int64}
    {before after : SegmentRefresh}
    (hs : Filled interval s)
    (h : Refreshes interval payloads (s.pending none tipWindow) s t before after) :
    Complete interval tipWindow t := by
  have left {w : Segments.Window} {m : Mark} (hw : w.Of interval) (below : w.start < tipWindow)
      (hm : t.markOf w.start = some m) : refused (t.candles.within w) = true := by
    obtain ⟨hmem, hstart⟩ := Store.markOf_some.mp hm
    obtain ⟨old, refuses⟩ := (h.marks m).mp hmem
    have listed : m ∈ s.pending none tipWindow := by
      rw [Store.mem_pending, hstart]
      exact ⟨old, below, fun a ha => by cases ha⟩
    have window : Segments.window interval w.start = some w := hw
    have refusedHere := refuses listed
    unfold refusedAt Store.rowsAt at refusedHere
    rw [hstart, window] at refusedHere
    rw [h.candles]
    exact refusedHere
  refine ⟨fun hw below hm => refused_why (left hw below hm), ?_, ?_⟩
  · intro w hw below unmarked some_
    have current := h.consistent.current w hw unmarked
    unfold Indexed at current
    cases entry : t.entryOf w.start with
    | none =>
      rw [entry] at current
      exact absurd current some_
    | some e =>
      rw [entry] at current
      exact ⟨e, current.indexedAs entry⟩
  · intro w hw none_
    have unmarked : t.markOf w.start = none := by
      rw [Option.eq_none_iff_forall_ne_some]
      intro m hm
      obtain ⟨hmem, hstart⟩ := Store.markOf_some.mp hm
      obtain ⟨c, hc, v, hv, same⟩ := hs m ((h.marks m).mp hmem).1
      obtain rfl := window_unique hv hw (same.trans hstart)
      have inside : c ∈ t.candles.within v := by
        rw [CandleTable.mem_within, h.candles, window_contains hv]
        exact ⟨hc, hv⟩
      rw [none_] at inside
      cases inside
    have current := h.consistent.current w hw unmarked
    unfold Indexed at current
    cases entry : t.entryOf w.start with
    | none => rfl
    | some e =>
      rw [entry] at current
      have first := current.first
      rw [none_] at first
      cases first

/-- A refresh of a store in which only refused windows are marked finds as many as
the one before and changes nothing. -/
theorem pending_again {payloads : Set (List UInt8)} {s t : Store} {tipWindow : Int64}
    {before after : SegmentRefresh}
    (h : Refreshes interval payloads (s.pending none tipWindow) s t before after) :
    t.pending none tipWindow = (s.pending none tipWindow).filter (refusedAt interval s) := by
  apply Table.rising_ext (t.pending_rising none tipWindow)
    ((s.pending_rising none tipWindow).filter _)
  intro n
  rw [List.mem_filter, Store.mem_pending, h.marks, Store.mem_pending]
  constructor
  · rintro ⟨⟨hn, refuses⟩, hbelow⟩
    exact ⟨⟨hn, hbelow⟩, refuses ⟨hn, hbelow⟩⟩
  · rintro ⟨⟨hn, hbelow⟩, refuses⟩
    exact ⟨⟨hn, fun _ => refuses⟩, hbelow⟩

theorem tipWindow_placed {payloads : Set (List UInt8)} {s : Store}
    (hs : Consistent interval payloads s) : ∃ tip, s.tipWindow interval = .ok tip := by
  cases newest : s.candles.highest with
  | none =>
    refine ⟨none, ?_⟩
    rw [Store.tipWindow, newest]
  | some c =>
    obtain ⟨w, hw⟩ := hs.placed c (List.mem_of_getLast? newest)
    have start := Storage.windowStart_ok.mpr ⟨w, hw, rfl⟩
    refine ⟨some w.start, ?_⟩
    simp only [Store.tipWindow, newest, start]
    rfl

/-- A refresh with no concurrent writer is complete and idempotent: in every state
that writers and refreshes reach, from an empty store of the current schema, it ends,
having packed every marked window below the tip whose candles can be encoded, and a
second one changes nothing. -/
theorem refresh_complete [ExactParser] (interval : Interval) (ops : List Op) :
    let s := ((machine interval).run World.empty ops).store
    Set.InjOn Sha256.digest (met interval ops ∪ packable interval s) →
    (∀ payload ∈ packable interval s, ∃ stored, Zstd.compress payload = some stored) →
    ∃ tip counts t, s.tipWindow interval = .ok tip ∧
      (∀ fuel, s.dirty.rows.length < fuel → refresh interval fuel s = (.ok (some counts), t)) ∧
      (tip = none → counts = SegmentRefresh.none ∧ t = s) ∧
      (∀ tipWindow, tip = some tipWindow → Complete interval tipWindow t ∧
        counts.built + counts.unchanged + counts.blocked =
          (s.dirty.rows.filter fun mark => mark.windowStartMs < tipWindow).length) ∧
      t.candles = s.candles ∧
      ∀ fuel, t.dirty.rows.length < fuel →
        refresh interval fuel t = (.ok (some ⟨0, 0, counts.blocked⟩), t) := by
  intro s hinj hcompresses
  have sound := (sound_run (hinj.mono Set.subset_union_left)).store
  have hs : Consistent interval (met interval ops ∪ packable interval s) s :=
    sound.widen Set.subset_union_left
  obtain ⟨tip, htip⟩ := tipWindow_placed hs
  have asks {u : Store} (same : u.candles = s.candles) :
      (DirtyWindows.tipWindow interval : Prog Store StorageError _) u = (.ok tip, u) := by
    show (u.tipWindow interval, u) = _
    rw [← htip, Store.tipWindow, Store.tipWindow, same]
  cases tip with
  | none =>
    have rests (fuel : Nat) : refresh interval fuel s = (.ok (some SegmentRefresh.none), s) :=
      seq_ok (asks rfl)
    refine ⟨none, SegmentRefresh.none, s, htip, fun fuel _ => rests fuel, fun _ => ⟨rfl, rfl⟩,
      (fun _ h => by cases h), rfl, fun fuel _ => rests fuel⟩
  | some tipWindow =>
    have hpackable : Packable interval (met interval ops ∪ packable interval s) s.candles
        tipWindow := by
      have member {w : Segments.Window} {payload : List UInt8} (hw : w.Of interval)
          (below : w.start < tipWindow) (hencode : encodeText (s.candles.within w) = .ok payload) :
          payload ∈ packable interval s := ⟨w, tipWindow, hw, htip, below, hencode⟩
      exact ⟨fun hw below hencode => .inr (member hw below hencode),
        fun hw below hencode => hcompresses _ (member hw below hencode)⟩
    have runs {u : Store} (same : u.candles = s.candles)
        (hu : Consistent interval (met interval ops ∪ packable interval s) u) :
        ∃ counts t, (∀ fuel, u.dirty.rows.length < fuel →
            refresh interval fuel u = (.ok (some counts), t)) ∧
          Refreshes interval (met interval ops ∪ packable interval s) (u.pending none tipWindow)
            u t SegmentRefresh.none counts := by
      have packs := hpackable
      rw [← same] at packs
      obtain ⟨counts, t, hrun, spec⟩ := refreshAfter_spec hinj _ SegmentRefresh.none hu packs rfl
      refine ⟨counts, t, fun fuel hfuel => ?_, spec⟩
      have enough : (u.pending none tipWindow).length < fuel :=
        lt_of_le_of_lt (List.length_filter_le _ _) hfuel
      rw [← hrun fuel enough]
      exact seq_ok (asks same)
    obtain ⟨counts, t, hrun, spec⟩ := runs rfl hs
    obtain ⟨again, u, hagain, idle⟩ := runs spec.candles spec.consistent
    have sameRefused : refusedAt interval t = refusedAt interval s := refusedAt_congr spec.candles
    have left := pending_again spec
    have nothing : ∀ n ∈ t.pending none tipWindow, refusedAt interval t n = true := by
      intro n hn
      rw [left, List.mem_filter] at hn
      rw [sameRefused]
      exact hn.2
    obtain ⟨rfl, built, unchanged⟩ := idle.idle nothing
    have blocked : again.blocked = counts.blocked := by
      have first := spec.blocked
      have second := idle.blocked
      rw [List.filter_eq_self.mpr nothing, left] at second
      omega
    have same : again = ⟨0, 0, counts.blocked⟩ := by
      cases again
      simp only [SegmentRefresh.mk.injEq]
      exact ⟨built, unchanged, blocked⟩
    have counted : counts.built + counts.unchanged + counts.blocked =
        (s.dirty.rows.filter fun mark => mark.windowStartMs < tipWindow).length := by
      have pending : s.pending none tipWindow =
          s.dirty.rows.filter fun mark => mark.windowStartMs < tipWindow := by
        simp [Store.pending]
      have total := spec.counted
      rw [pending] at total
      simpa [SegmentRefresh.none] using total
    rw [same] at hagain
    refine ⟨some tipWindow, counts, u, htip, hrun, (fun h => by cases h), ?_, spec.candles, hagain⟩
    intro other hother
    obtain rfl := Option.some.inj hother
    exact ⟨refreshes_complete (filled_run interval ops) spec, counted⟩

end

attribute [local instance] exactTextParser sampleSha256 sampleZstd

/-- Two days of candles that no refresh has packed yet. -/
def dirtyRun : List Op := [.upsertCandles [sampleBar 0, sampleBar 86400000]]

theorem dirtyRun_met : ∀ payload, payload ∉ met .m1 dirtyRun := by
  intro payload h
  rcases h with h | h
  · cases h
  · cases h

theorem dirtyRun_packable :
    ∀ payload ∈ packable .m1 ((machine .m1).run World.empty dirtyRun).store,
      payload = samplePayload := by
  rintro payload ⟨w, tipWindow, hw, htip, below, hencode⟩
  have tip : ((machine .m1).run World.empty dirtyRun).store.tipWindow .m1 =
      .ok (some 86400000) := by decide +kernel
  rw [htip, Except.ok.injEq, Option.some.injEq] at tip
  have rows : ((machine .m1).run World.empty dirtyRun).store.candles.rows =
      [(sampleBar 0).toText, (sampleBar 86400000).toText] := by decide +kernel
  obtain ⟨⟨least, -, -⟩, -, -⟩ := encodeText_ok.mp hencode
  obtain ⟨c, hc⟩ := List.exists_mem_of_length_pos least
  obtain ⟨hmem, hinside⟩ := CandleTable.mem_within.mp hc
  rw [window_contains hw] at hinside
  rw [rows, List.mem_pair] at hmem
  rcases hmem with rfl | rfl
  · have first : Segments.window .m1 0 = some ⟨0, 86400000⟩ := by decide +kernel
    obtain rfl := Option.some.inj (hinside.symm.trans first)
    have payload_ : encodeText (((machine .m1).run World.empty dirtyRun).store.candles.within
        ⟨0, 86400000⟩) = .ok samplePayload := by decide +kernel
    exact Except.ok.inj (hencode.symm.trans payload_)
  · have second : Segments.window .m1 86400000 = some ⟨86400000, 172800000⟩ := by decide +kernel
    obtain rfl := Option.some.inj (hinside.symm.trans second)
    rw [tip] at below
    exact absurd below (by decide)

/-- The first of two days is packed, and then there is nothing left to do. -/
theorem dirtyRun_refreshes :
    let s := ((machine .m1).run World.empty dirtyRun).store
    ∃ tip counts t, s.tipWindow .m1 = .ok tip ∧
      (∀ fuel, s.dirty.rows.length < fuel → refresh .m1 fuel s = (.ok (some counts), t)) ∧
      (tip = none → counts = SegmentRefresh.none ∧ t = s) ∧
      (∀ tipWindow, tip = some tipWindow → Complete .m1 tipWindow t ∧
        counts.built + counts.unchanged + counts.blocked =
          (s.dirty.rows.filter fun mark => mark.windowStartMs < tipWindow).length) ∧
      t.candles = s.candles ∧
      ∀ fuel, t.dirty.rows.length < fuel →
        refresh .m1 fuel t = (.ok (some ⟨0, 0, counts.blocked⟩), t) := by
  have hexact := exactTextParser_exact
  apply refresh_complete .m1 dirtyRun
  · have only : ∀ payload ∈ met .m1 dirtyRun ∪
        packable .m1 ((machine .m1).run World.empty dirtyRun).store, payload = samplePayload := by
      rintro payload (hmet | hpackable)
      · exact absurd hmet (dirtyRun_met payload)
      · exact dirtyRun_packable payload hpackable
    intro payload hpayload other hother _
    rw [only payload hpayload, only other hother]
  · intro payload hpayload
    rw [dirtyRun_packable payload hpayload]
    exact ⟨sampleFrame, rfl⟩

end QuantForge.Sqlite
