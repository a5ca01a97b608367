import Mathlib.Data.List.Dedup
import QuantForge.Storage.Common

namespace QuantForge.Sqlite

/-- A market as its three key columns write it. -/
structure MarketKey where
  exchange : String
  symbol : String
  interval : String
  deriving DecidableEq

/-- A candle's key, which is all a migration reads of it. -/
structure CandleKey where
  market : MarketKey
  openTimeMs : Int64
  deriving DecidableEq

/-- A row of `segment_dirty`. -/
structure DirtyRow where
  id : Nat
  market : MarketKey
  windowStartMs : Int64
  deriving DecidableEq

/-- `segment_dirty` for every market, and the id after every row's. -/
structure DirtyRows where
  rows : List DirtyRow
  nextId : Nat
  deriving DecidableEq

namespace DirtyRows

/-- The table as the segment tables' schema creates it. -/
def empty : DirtyRows := ⟨[], 1⟩

def insertOrReplace (dirty : DirtyRows) (market : MarketKey) (windowStartMs : Int64) : DirtyRows where
  rows := (dirty.rows.filter fun row => !(row.market = market && row.windowStartMs = windowStartMs)) ++
    [⟨dirty.nextId, market, windowStartMs⟩]
  nextId := dirty.nextId + 1

def Marks (dirty : DirtyRows) (market : MarketKey) (windowStartMs : Int64) : Prop :=
  ∃ row ∈ dirty.rows, row.market = market ∧ row.windowStartMs = windowStartMs

end DirtyRows

/-- `(open_time_ms / ?1) * ?1`, whose division drops the fraction. -/
def truncatedStart (span openTimeMs : Int64) : Int64 := openTimeMs / span * span

/-- Marks the windows of markets one after another. -/
def markMarkets (candles : List CandleKey) (dirty : DirtyRows) :
    List MarketKey → Except StorageError DirtyRows
  | [] => .ok dirty
  | market :: markets => do
    let interval ← (Interval.fromStr market.interval).mapError .other
    let span := Segments.spanMs interval
    let opens := (candles.filter fun c => c.market = market).map (·.openTimeMs)
    let starts := (opens.map (truncatedStart span)).dedup
    markMarkets candles (starts.foldl (fun d start => d.insertOrReplace market start) dirty) markets

def markEveryWindow (candles : List CandleKey) (dirty : DirtyRows) : Except StorageError DirtyRows :=
  markMarkets candles dirty (candles.map (·.market)).dedup

/-- Creates the segment tables. Every window with candles is marked dirty, so
the next refresh packs what the earlier build stored. -/
def step4Segments (candles : List CandleKey) : Except StorageError DirtyRows :=
  markEveryWindow candles DirtyRows.empty

/-- A candle's interval as its market writes it, and its window. -/
def CandleKey.InWindow (c : CandleKey) (interval : Interval) (w : Segments.Window) : Prop :=
  Interval.fromStr c.market.interval = .ok interval ∧ Segments.window interval c.openTimeMs = some w

/-- Every window that holds a candle carries a mark. -/
def EveryWindowMarked (candles : List CandleKey) (dirty : DirtyRows) : Prop :=
  ∀ c ∈ candles, ∀ interval w, c.InWindow interval w → dirty.Marks c.market w.start

namespace DirtyRows

theorem marks_insert {dirty : DirtyRows} {market other : MarketKey} {start s : Int64} :
    (dirty.insertOrReplace market start).Marks other s ↔
      (other = market ∧ s = start) ∨ dirty.Marks other s := by
  simp only [Marks, insertOrReplace, List.mem_append, List.mem_filter, List.mem_singleton]
  constructor
  · intro h
    obtain ⟨row, (⟨hrow, -⟩ | rfl), hmarket, hstart⟩ := h
    · exact .inr ⟨row, hrow, hmarket, hstart⟩
    · exact .inl ⟨hmarket.symm, hstart.symm⟩
  · intro h
    by_cases hsame : other = market ∧ s = start
    · exact ⟨_, .inr rfl, hsame.1.symm, hsame.2.symm⟩
    · rcases h with hsame' | ⟨row, hrow, hmarket, hstart⟩
      · exact absurd hsame' hsame
      · refine ⟨row, .inl ⟨hrow, ?_⟩, hmarket, hstart⟩
        rw [hmarket, hstart, Bool.not_eq_true', ← Bool.not_eq_true, Bool.and_eq_true,
          decide_eq_true_eq, decide_eq_true_eq]
        exact hsame

theorem marks_foldl {dirty : DirtyRows} {market other : MarketKey} {starts : List Int64}
    {s : Int64} :
    (starts.foldl (fun d start => d.insertOrReplace market start) dirty).Marks other s ↔
      (other = market ∧ s ∈ starts) ∨ dirty.Marks other s := by
  induction starts generalizing dirty with
  | nil => simp
  | cons start starts ih =>
    rw [List.foldl_cons, ih, marks_insert, List.mem_cons]
    tauto

end DirtyRows

/-- A start the step computes for a candle of the market. -/
def Truncated (candles : List CandleKey) (market : MarketKey) (s : Int64) : Prop :=
  ∃ interval, Interval.fromStr market.interval = .ok interval ∧ ∃ c ∈ candles,
    c.market = market ∧ truncatedStart (Segments.spanMs interval) c.openTimeMs = s

/-- The starts marked for one market. -/
theorem truncated_iff {candles : List CandleKey} {market : MarketKey} {interval : Interval}
    {s : Int64} (h : Interval.fromStr market.interval = .ok interval) :
    s ∈ (((candles.filter fun c => c.market = market).map (·.openTimeMs)).map
      (truncatedStart (Segments.spanMs interval))).dedup ↔ Truncated candles market s := by
  simp only [List.mem_dedup, List.mem_map, List.mem_filter, decide_eq_true_eq, Truncated]
  constructor
  · intro hopen
    obtain ⟨-, ⟨c, ⟨hc, hmarket⟩, rfl⟩, hstart⟩ := hopen
    exact ⟨interval, h, c, hc, hmarket, hstart⟩
  · intro hopen
    obtain ⟨other, hother, c, hc, hmarket, hstart⟩ := hopen
    rw [h] at hother
    rw [← Except.ok.inj hother] at hstart
    exact ⟨c.openTimeMs, ⟨c, ⟨hc, hmarket⟩, rfl⟩, hstart⟩

/-- What marking markets leaves marked: the truncated starts of their candles. -/
theorem markMarkets_marks {candles : List CandleKey} {markets : List MarketKey}
    {dirty marked : DirtyRows} (h : markMarkets candles dirty markets = .ok marked)
    {market : MarketKey} {s : Int64} :
    marked.Marks market s ↔
      dirty.Marks market s ∨ market ∈ markets ∧ Truncated candles market s := by
  induction markets generalizing dirty with
  | nil =>
    cases h
    simp
  | cons first markets ih =>
    rw [markMarkets, bind_ok] at h
    obtain ⟨interval, hinterval, h⟩ := h
    have hread : Interval.fromStr first.interval = .ok interval := by
      cases hfirst : Interval.fromStr first.interval with
      | error error =>
        rw [hfirst] at hinterval
        cases hinterval
      | ok other =>
        rw [hfirst] at hinterval
        exact congrArg Except.ok (Except.ok.inj hinterval)
    rw [ih h, DirtyRows.marks_foldl, truncated_iff hread, List.mem_cons]
    by_cases hfirst : market = first
    · subst hfirst
      simp only [true_and, true_or]
      tauto
    · simp only [hfirst, false_and, false_or]

/-- The step fails on a market whose interval it cannot read, and on nothing
else. -/
theorem step4Segments_ok {candles : List CandleKey} : (∃ dirty, step4Segments candles = .ok dirty) ↔
    ∀ c ∈ candles, ∃ interval, Interval.fromStr c.market.interval = .ok interval := by
  have hmarkets : ∀ markets dirty, (∃ marked, markMarkets candles dirty markets = .ok marked) ↔
      ∀ market ∈ markets, ∃ interval, Interval.fromStr market.interval = .ok interval := by
    intro markets
    induction markets with
    | nil =>
      intro dirty
      simp [markMarkets]
    | cons first markets ih =>
      intro dirty
      rw [List.forall_mem_cons]
      cases hinterval : Interval.fromStr first.interval with
      | error error => simp [markMarkets, hinterval, Except.mapError, bind, Except.bind]
      | ok interval =>
        simp only [markMarkets, hinterval, Except.mapError, bind, Except.bind, ih]
        simp
  rw [step4Segments, markEveryWindow, hmarkets]
  simp

theorem step4Segments_marks {candles : List CandleKey} {dirty : DirtyRows}
    (h : step4Segments candles = .ok dirty) {market : MarketKey} {s : Int64} :
    dirty.Marks market s ↔ Truncated candles market s := by
  rw [markMarkets_marks h, List.mem_dedup, List.mem_map]
  constructor
  · intro hmarks
    rcases hmarks with ⟨row, hrow, -⟩ | ⟨-, hmarks⟩
    · cases hrow
    · exact hmarks
  · intro hmarks
    have htruncated := hmarks
    obtain ⟨interval, hinterval, c, hc, hmarket, hstart⟩ := hmarks
    exact .inr ⟨⟨c, hc, hmarket⟩, htruncated⟩

/-- Below zero, dropping the fraction rounds up. -/
theorem tdiv_neg_iff {a k q : Int} (hk : 0 < k) (hq : q < 0) :
    a.tdiv k = q ↔ q * k - k < a ∧ a ≤ q * k := by
  have hneg : q * k < 0 := Int.mul_neg_of_neg_of_pos hq hk
  by_cases ha : 0 ≤ a
  · have hnonneg := Int.tdiv_nonneg ha hk.le
    constructor
    · intro h
      omega
    · intro h
      omega
  · have hflip : a.tdiv k = -(-a / k) := by
      rw [← Int.tdiv_eq_ediv_of_nonneg (by omega), Int.neg_tdiv, Int.neg_neg]
    have hquot := @Int.ediv_eq_iff_of_pos _ (-a) (-q) hk
    rw [Int.neg_mul] at hquot
    rw [hflip]
    constructor
    · intro h
      have hbounds := hquot.mp (by omega)
      omega
    · intro h
      have hsame := hquot.mpr (by omega)
      omega

theorem truncatedStart_toInt {span t : Int64} (hspan : 0 < span.toInt) :
    (truncatedStart span t).toInt = t.toInt.tdiv span.toInt * span.toInt := by
  have hlow := Int64.le_toInt t
  have hhigh := Int64.toInt_lt t
  have hne : span ≠ -1 := by
    intro hminus
    rw [hminus] at hspan
    exact absurd hspan (by decide)
  -- the product is no farther from zero than `t`, and on the same side
  have hnear : (t.toInt.tdiv span.toInt * span.toInt).natAbs ≤ t.toInt.natAbs := by
    rw [Int.natAbs_mul, Int.natAbs_tdiv]
    exact Nat.div_mul_le_self _ _
  have hside : t.toInt < 0 → t.toInt.tdiv span.toInt * span.toInt ≤ 0 := by
    intro hneg
    have hquot : t.toInt.tdiv span.toInt ≤ 0 := by
      have hnonneg : 0 ≤ (-t.toInt).tdiv span.toInt := Int.tdiv_nonneg (by omega) hspan.le
      rw [Int.neg_tdiv] at hnonneg
      omega
    exact Int.mul_nonpos_of_nonpos_of_nonneg hquot hspan.le
  rw [truncatedStart, Int64.toInt_mul, Int64.toInt_div_of_ne_right _ _ hne]
  apply Int.bmod_eq_of_le
  · omega
  · omega

/-- From the epoch on, the truncated start is the window's. -/
theorem truncatedStart_window {interval : Interval} {t : Int64} {w : Segments.Window}
    (h : Segments.window interval t = some w) (ht : 0 ≤ t.toInt) :
    truncatedStart (Segments.spanMs interval) t = w.start := by
  apply Int64.toInt_inj.mp
  rw [truncatedStart_toInt (Segments.spanMs_pos interval), (Segments.window_some.mp h).1,
    Int.tdiv_eq_ediv_of_nonneg ht]

/-- Before the epoch, a window's start is the truncated start of the open
times above the start of the window before it, up to its own. -/
theorem truncatedStart_iff {interval : Interval} {t : Int64} {w : Segments.Window}
    (h : Segments.window interval t = some w) (ht : t.toInt < 0) (u : Int64) :
    truncatedStart (Segments.spanMs interval) u = w.start ↔
      w.start.toInt - (Segments.spanMs interval).toInt < u.toInt ∧ u.toInt ≤ w.start.toInt := by
  have hspan := Segments.spanMs_pos interval
  have hquot : t.toInt / (Segments.spanMs interval).toInt < 0 := Int.ediv_neg_of_neg_of_pos ht hspan
  rw [← Int64.toInt_inj, truncatedStart_toInt hspan, (Segments.window_some.mp h).1,
    ← tdiv_neg_iff hspan hquot]
  constructor
  · exact Int.eq_of_mul_eq_mul_right hspan.ne'
  · intro hsame
    rw [hsame]

/-- A candle opens after the start of the window before `w`, and not after the
start of `w`. -/
def CandleKey.OpensUpTo (c : CandleKey) (interval : Interval) (w : Segments.Window) : Prop :=
  w.start.toInt - (Segments.spanMs interval).toInt < c.openTimeMs.toInt ∧
    c.openTimeMs.toInt ≤ w.start.toInt

/-- The migration marks every window with candles exactly when each window
before the epoch that holds a candle has one that opens at its start, or one
inside the window before it, in the same market. -/
theorem step4Segments_marks_every {candles : List CandleKey} {dirty : DirtyRows}
    (h : step4Segments candles = .ok dirty) :
    EveryWindowMarked candles dirty ↔
      ∀ c ∈ candles, ∀ interval w, c.InWindow interval w → c.openTimeMs < 0 →
        ∃ d ∈ candles, d.market = c.market ∧ d.OpensUpTo interval w := by
  constructor
  · intro hmarked c hc interval w hw hneg
    have hneg : c.openTimeMs.toInt < 0 := Int64.lt_iff_toInt_lt.mp hneg
    obtain ⟨other, hother, d, hd, hmarket, hstart⟩ :=
      (step4Segments_marks h).mp (hmarked c hc interval w hw)
    rw [hw.1] at hother
    rw [← Except.ok.inj hother] at hstart
    exact ⟨d, hd, hmarket, (truncatedStart_iff hw.2 hneg d.openTimeMs).mp hstart⟩
  · intro hcondition c hc interval w hw
    apply (step4Segments_marks h).mpr
    by_cases hneg : c.openTimeMs.toInt < 0
    · obtain ⟨d, hd, hmarket, hopens⟩ :=
        hcondition c hc interval w hw (Int64.lt_iff_toInt_lt.mpr hneg)
      exact ⟨interval, hw.1, d, hd, hmarket, (truncatedStart_iff hw.2 hneg d.openTimeMs).mpr hopens⟩
    · exact ⟨interval, hw.1, c, hc, rfl, truncatedStart_window hw.2 (not_lt.mp hneg)⟩

/-- A market of one-minute candles. -/
def sampleMarket : MarketKey := ⟨"binance_spot", "BTCUSDT", "1m"⟩

/-- Candles at the epoch, a minute before it, and at the start of the window
before it. -/
def sampleKeys : List CandleKey :=
  [⟨sampleMarket, 0⟩, ⟨sampleMarket, -60000⟩, ⟨sampleMarket, -86400000⟩]

theorem sampleKeys_marked : ∃ dirty, step4Segments sampleKeys = .ok dirty ∧
    EveryWindowMarked sampleKeys dirty := by
  have hok : step4Segments sampleKeys =
      .ok ⟨[⟨1, sampleMarket, 0⟩, ⟨2, sampleMarket, -86400000⟩], 3⟩ := by decide +kernel
  refine ⟨_, hok, (step4Segments_marks_every hok).mpr ?_⟩
  intro c hc interval w hw hneg
  have hbefore : c.market = sampleMarket ∧
      Segments.window .m1 c.openTimeMs = some ⟨-86400000, 0⟩ := by
    have hcases : c = ⟨sampleMarket, 0⟩ ∨ c = ⟨sampleMarket, -60000⟩ ∨
        c = ⟨sampleMarket, -86400000⟩ := by simpa [sampleKeys] using hc
    rcases hcases with rfl | rfl | rfl
    · exact absurd hneg (by decide)
    · exact ⟨rfl, by decide +kernel⟩
    · exact ⟨rfl, by decide +kernel⟩
  obtain ⟨hmarket, hwindow⟩ := hbefore
  obtain ⟨hread, hw⟩ := hw
  have hsample : Interval.fromStr sampleMarket.interval = .ok .m1 := by decide +kernel
  rw [hmarket, hsample] at hread
  rw [← Except.ok.inj hread, hwindow] at hw
  rw [← Except.ok.inj hread, ← Option.some.inj hw]
  exact ⟨⟨sampleMarket, -86400000⟩, by simp [sampleKeys], hmarket.symm, by decide, by decide⟩

/-- A one-minute candle that opens a minute before the epoch: its window
starts a day before, and the step marks the window at the epoch. -/
theorem before_epoch_unmarked :
    ∃ dirty, step4Segments [⟨sampleMarket, -60000⟩] = .ok dirty ∧
      dirty.rows = [⟨1, sampleMarket, 0⟩] ∧
      ¬EveryWindowMarked [⟨sampleMarket, -60000⟩] dirty := by
  refine ⟨⟨[⟨1, sampleMarket, 0⟩], 2⟩, by decide +kernel, rfl, ?_⟩
  intro hmarked
  have hwindow : CandleKey.InWindow ⟨sampleMarket, -60000⟩ .m1 ⟨-86400000, 0⟩ :=
    ⟨by decide +kernel, by decide +kernel⟩
  obtain ⟨row, hrow, -, hstart⟩ := hmarked _ (by simp) .m1 _ hwindow
  rw [List.mem_singleton.mp hrow] at hstart
  exact absurd hstart (by decide)

end QuantForge.Sqlite
