import QuantForge.Engine.DataSync.Pages
import QuantForge.Storage.Segments.PayloadCodec
import QuantForge.Storage.Sqlite.CandleStore

namespace QuantForge.DataSync

open Prog HoldingCandleStore

/-- The candles that open in a range. -/
def inRange (history : List Candle) (startMs endMs : Int64) : List Candle :=
  history.filter fun c => decide (startMs ≤ c.openTimeMs) && decide (c.openTimeMs ≤ endMs)

/-- An exchange that keeps `history` of the market and answers each request with the
first of its candles that open in the request's range. -/
structure Honours (outside : Outside) (market : MarketId) (history : List Candle) : Prop where
  apart : history.Pairwise fun a b =>
    a.openTimeMs.toInt + market.interval.stepMs.toInt ≤ b.openTimeMs.toInt
  closing : history.Pairwise fun a b => a.closeTimeMs < b.closeTimeMs
  answers : ∀ call startMs endMs limit page,
    outside.klines call ⟨market.symbol, market.interval, some startMs, some endMs, some limit⟩ =
      .ok page → page = (inRange history startMs endMs).take limit.toNat

/-- The exchange that keeps `history` and answers every request from it. -/
def keeping (history : List Candle) (now : Nat → Int64) : Outside where
  now := now
  klines _ request := .ok <|
    match request.startTimeMs, request.endTimeMs, request.limit with
    | some startMs, some endMs, some limit => (inRange history startMs endMs).take limit.toNat
    | _, _, _ => []
  refresh := none

/-- The contract can be met. -/
theorem keeping_honours {market : MarketId} {history : List Candle} (now : Nat → Int64)
    (apart : history.Pairwise fun a b =>
      a.openTimeMs.toInt + market.interval.stepMs.toInt ≤ b.openTimeMs.toInt)
    (closing : history.Pairwise fun a b => a.closeTimeMs < b.closeTimeMs) :
    Honours (keeping history now) market history := by
  refine ⟨apart, closing, ?_⟩
  intro call startMs endMs limit page hanswer
  exact (Except.ok.inj hanswer).symm

/-- Wherever a page of settled candles moves the cursor on, the sum is an `i64`. A page does
once it is written, so unless it is the last of a range that fails. -/
def NoOverflow (outside : Outside) (market : MarketId) (calls reads : Nat)
    (asked : List KlineRequest) (answered : Prop) : Prop :=
  ∀ k request page last, asked[k]? = some request →
    outside.klines (calls + k) request = .ok page → page.getLast? = some last →
    (∀ c ∈ page, HadSettled c (outside.now (reads + k))) → (k + 1 < asked.length ∨ answered) →
    (Checked.add last.openTimeMs market.interval.stepMs).isSome = true

/-- Where a range stopped: at the first candle that had not settled by the clock read
ahead of its request, or at none. -/
def StoppedAt (outside : Outside) (calls reads : Nat) (asked : List KlineRequest)
    (outcome : SyncRangeOutcome) : List Candle → Prop
  | [] => outcome.unsettledFromMs = none
  | c :: _ => outcome.unsettledFromMs = some c.openTimeMs ∧
    ∃ cutoffMs, CameBy outside calls reads asked c cutoffMs ∧ ¬HadSettled c cutoffMs

/-- The range's candles up to where it stopped came settled and are in the store. -/
def Complete {S : Type} [CandleStore S] [HoldingCandleStore S] (outside : Outside)
    (market : MarketId) (calls reads : Nat) (asked : List KlineRequest) (candles : List Candle)
    (outcome : SyncRangeOutcome) (s : S) : Prop :=
  ∃ before rest, candles = before ++ rest ∧
    (∀ c ∈ before, has s market c ∧
      ∃ cutoffMs, CameBy outside calls reads asked c cutoffMs ∧ HadSettled c cutoffMs) ∧
    StoppedAt outside calls reads asked outcome rest

section

variable {outside : Outside} {market : MarketId} {history : List Candle}

theorem mem_inRange {startMs endMs : Int64} {c : Candle} :
    c ∈ inRange history startMs endMs ↔
      c ∈ history ∧ startMs ≤ c.openTimeMs ∧ c.openTimeMs ≤ endMs := by
  simp [inRange]

theorem CameBy.later {calls reads : Nat} {asked : List KlineRequest} {c : Candle}
    {cutoffMs : Int64} (h : CameBy outside (calls + 1) (reads + 1) asked c cutoffMs)
    (request : KlineRequest) : CameBy outside calls reads (request :: asked) c cutoffMs := by
  obtain ⟨k, found, page, hget, hanswer, hmem, hclock⟩ := h
  refine ⟨k + 1, found, page, hget, ?_, hmem, ?_⟩
  · rw [← hanswer, Nat.add_right_comm, Nat.add_assoc]
  · rw [← hclock, Nat.add_right_comm, Nat.add_assoc]

theorem StoppedAt.later {calls reads : Nat} {asked : List KlineRequest}
    {outcome : SyncRangeOutcome} {rest : List Candle}
    (h : StoppedAt outside (calls + 1) (reads + 1) asked outcome rest) (request : KlineRequest) :
    StoppedAt outside calls reads (request :: asked) outcome rest := by
  cases rest with
  | nil => exact h
  | cons c rest =>
    obtain ⟨hfrom, cutoffMs, hcame, hsettled⟩ := h
    exact ⟨hfrom, cutoffMs, hcame.later request, hsettled⟩

/-- What is ahead of the cursor after a page, from what was ahead of it before. -/
theorem ahead_next (honours : Honours outside market history) {cursor next endMs : Int64}
    {n : Nat} {last : Candle}
    (hlast : ((inRange history cursor endMs).take n).getLast? = some last)
    (hnext : next.toInt = last.openTimeMs.toInt + market.interval.stepMs.toInt) :
    inRange history next endMs = (inRange history cursor endMs).drop n ∧
      ∀ c ∈ (inRange history cursor endMs).take n, c.openTimeMs < next := by
  have hstep := market.interval.stepMs_range
  obtain ⟨front, hfront⟩ := List.getLast?_eq_some_iff.mp hlast
  have hsplit : inRange history cursor endMs =
      (front ++ [last]) ++ (inRange history cursor endMs).drop n := by
    rw [← hfront, List.take_append_drop]
  have hapart : (inRange history cursor endMs).Pairwise fun a b =>
      a.openTimeMs.toInt + market.interval.stepMs.toInt ≤ b.openTimeMs.toInt :=
    honours.apart.filter _
  rw [hsplit, List.pairwise_append, List.pairwise_append] at hapart
  obtain ⟨⟨-, -, hfronts⟩, -, hrests⟩ := hapart
  have hpage : ∀ c ∈ (inRange history cursor endMs).take n, c.openTimeMs < next := by
    intro c hc
    rw [Int64.lt_iff_toInt_lt, hnext]
    rw [hfront, List.mem_append, List.mem_singleton] at hc
    rcases hc with hc | rfl
    · have hgap := hfronts c hc last (by simp)
      omega
    · omega
  refine ⟨?_, hpage⟩
  have hmem : last ∈ inRange history cursor endMs := by
    rw [hsplit]
    simp
  have hcursor := (mem_inRange.mp hmem).2.1
  have hfilter : inRange history next endMs =
      (inRange history cursor endMs).filter fun c => decide (next ≤ c.openTimeMs) := by
    rw [inRange, inRange, List.filter_filter]
    apply List.filter_congr
    intro c hc
    have hbound : next ≤ c.openTimeMs → cursor ≤ c.openTimeMs := by
      intro hle
      rw [Int64.le_iff_toInt_le] at hle hcursor ⊢
      omega
    by_cases hle : next ≤ c.openTimeMs
    · simp [hle, hbound hle]
    · simp [hle]
  have hdropped : ((inRange history cursor endMs).take n).filter
      (fun c => decide (next ≤ c.openTimeMs)) = [] := by
    rw [List.filter_eq_nil_iff]
    intro c hc
    have hlt := Int64.lt_iff_toInt_lt.mp (hpage c hc)
    simp only [decide_eq_true_eq, Int64.le_iff_toInt_le]
    omega
  have hkept : ((inRange history cursor endMs).drop n).filter
      (fun c => decide (next ≤ c.openTimeMs)) = (inRange history cursor endMs).drop n := by
    rw [List.filter_eq_self]
    intro c hc
    have hgap := hrests last (by simp) c hc
    simp only [decide_eq_true_eq, Int64.le_iff_toInt_le]
    omega
  rw [hfilter]
  conv_lhs => rw [← List.take_append_drop n (inRange history cursor endMs)]
  rw [List.filter_append, hdropped, hkept, List.nil_append]

end

section

variable {S : Type} [CandleStore S] {outside : Outside} {market : MarketId}
  {history : List Candle} {endMs : Int64} {batchLimit : UInt16}

theorem store_world (settled : List Candle) (outcome : SyncRangeOutcome) (w : Feed S) :
    (store market settled outcome w).2.requests = w.requests ∧
      (store market settled outcome w).2.clockReads = w.clockReads := by
  have upserts (batch : List Candle) :
      (Feed.upsertCandles market batch w).2.requests = w.requests ∧
        (Feed.upsertCandles market batch w).2.clockReads = w.clockReads := by
    unfold Feed.upsertCandles
    split <;> exact ⟨rfl, rfl⟩
  cases settled with
  | nil => exact ⟨rfl, rfl⟩
  | cons head rest =>
    obtain ⟨last, hlast⟩ : ∃ last, (head :: rest).getLast? = some last :=
      ⟨_, List.getLast?_eq_some_getLast (by simp)⟩
    simp only [store, List.head?_cons, hlast]
    rw [map_run]
    exact upserts (head :: rest)

theorem store_ok {settled : List Candle} {outcome o : SyncRangeOutcome} {w v : Feed S}
    (h : store market settled outcome w = (.ok o, v)) :
    o.unsettledFromMs = outcome.unsettledFromMs ∧
      ((settled = [] ∧ v.store = w.store) ∨
        ∃ count, CandleStore.upsertCandles market settled w.store = (.ok count, v.store)) := by
  cases settled with
  | nil =>
    cases h
    exact ⟨rfl, .inl ⟨rfl, rfl⟩⟩
  | cons head rest =>
    obtain ⟨last, hlast⟩ : ∃ last, (head :: rest).getLast? = some last :=
      ⟨_, List.getLast?_eq_some_getLast (by simp)⟩
    simp only [store, List.head?_cons, hlast] at h
    obtain ⟨count, u, hupsert, hdone⟩ := bind_answers h
    cases hdone
    unfold Feed.upsertCandles at hupsert
    rcases hstore : CandleStore.upsertCandles market (head :: rest) w.store with ⟨answer, next⟩
    cases answer with
    | error error => simp [hstore] at hupsert
    | ok written =>
      simp only [hstore, Prod.mk.injEq, Except.ok.injEq] at hupsert
      obtain ⟨hcount, rfl⟩ := hupsert
      exact ⟨rfl, .inr ⟨written, rfl⟩⟩

omit [CandleStore S] in
theorem limit_pos (hlimit : 1 ≤ batchLimit) : 0 < (min batchLimit 1000).toNat := by
  have hone : 1 ≤ batchLimit.toNat := UInt16.le_iff_toNat_le.mp hlimit
  have hcases : min batchLimit 1000 = batchLimit ∨ min batchLimit 1000 = 1000 := by
    rw [show min batchLimit 1000 = if batchLimit ≤ 1000 then batchLimit else 1000 from rfl]
    split_ifs
    · exact .inl rfl
    · exact .inr rfl
  rcases hcases with h | h
  · rw [h]
    omega
  · rw [h]
    decide

variable [HoldingCandleStore S]

/-- After a candle that was written comes an open time that an `i64` holds. -/
theorem store_next {settled : List Candle} {outcome o : SyncRangeOutcome} {w v : Feed S}
    (h : store market settled outcome w = (.ok o, v)) {c : Candle} (hc : c ∈ settled) :
    (c.openTimeMs + market.interval.stepMs).toInt =
        c.openTimeMs.toInt + market.interval.stepMs.toInt ∧
      (Checked.add c.openTimeMs market.interval.stepMs).isSome = true := by
  obtain ⟨-, hstore⟩ := store_ok h
  rcases hstore with ⟨hnone, -⟩ | ⟨count, hupsert⟩
  · rw [hnone] at hc
    cases hc
  · obtain ⟨window, hwindow⟩ := windowed hupsert c hc
    obtain ⟨hsum, hchecked⟩ := Segments.window_next hwindow
    rw [hchecked]
    exact ⟨hsum, rfl⟩

/-- What a page that was written leaves in the store: its settled candles, and what opened
before the cursor. -/
theorem store_holds (honours : Honours outside market history) {cursor : Int64}
    {settled : List Candle} {outcome o : SyncRangeOutcome} {w v : Feed S}
    (hpage : settled.Sublist (inRange history cursor endMs))
    (h : store market settled outcome w = (.ok o, v)) :
    (∀ c ∈ settled, has v.store market c) ∧
      ∀ c, has w.store market c → c.openTimeMs < cursor → has v.store market c := by
  obtain ⟨-, hstore⟩ := store_ok h
  rcases hstore with ⟨hnone, hsame⟩ | ⟨count, hupsert⟩
  · rw [hnone, hsame]
    exact ⟨by simp, fun c hc _ => hc⟩
  · have hstep := market.interval.stepMs_range
    have hapart : settled.Pairwise fun a b => a.openTimeMs ≠ b.openTimeMs := by
      apply ((honours.apart.filter _).sublist hpage).imp
      intro a b hgap hsame
      rw [hsame] at hgap
      omega
    refine ⟨written hupsert hapart, ?_⟩
    intro c hhas hbefore
    apply kept hupsert hhas
    intro d hd hsame
    have hcursor := (mem_inRange.mp (hpage.subset hd)).2.1
    rw [hsame, Int64.le_iff_toInt_le] at hcursor
    rw [Int64.lt_iff_toInt_lt] at hbefore
    omega

/-- A page with no candle held back is settled as a whole. -/
theorem none_held {batch : List Candle} {cutoffMs : Int64}
    (h : (batch.drop (settledLen batch cutoffMs)).head? = none) :
    batch.take (settledLen batch cutoffMs) = batch := by
  have hsplit := List.take_append_drop (settledLen batch cutoffMs) batch
  rwa [List.head?_eq_none_iff.mp h, List.append_nil] at hsplit

/-- A candle held back is the page's first that had not settled. -/
theorem held_back {batch : List Candle} {cutoffMs : Int64} {heldBack : Candle}
    (h : (batch.drop (settledLen batch cutoffMs)).head? = some heldBack) :
    heldBack ∈ batch ∧ ¬HadSettled heldBack cutoffMs := by
  constructor
  · exact List.mem_of_mem_drop (List.mem_of_head? h)
  · rw [settled_drop] at h
    have hnot := List.head?_dropWhile_not (isSettled cutoffMs) batch
    rw [h] at hnot
    rw [← isSettled_iff]
    simpa using hnot

omit [CandleStore S] [HoldingCandleStore S] in
theorem noOverflow_nil {calls reads : Nat} {answered : Prop} :
    NoOverflow outside market calls reads [] answered := by
  intro k request page last hget
  simp at hget

omit [CandleStore S] [HoldingCandleStore S] in
theorem NoOverflow.cons {calls reads : Nat} {asked : List KlineRequest} {answered : Prop}
    (h : NoOverflow outside market (calls + 1) (reads + 1) asked answered) {request : KlineRequest}
    (hfirst : ∀ page last, outside.klines calls request = .ok page → page.getLast? = some last →
      (∀ c ∈ page, HadSettled c (outside.now reads)) → (asked ≠ [] ∨ answered) →
      (Checked.add last.openTimeMs market.interval.stepMs).isSome = true) :
    NoOverflow outside market calls reads (request :: asked) answered := by
  intro k found page last hget hanswer hend hsettled hwent
  cases k with
  | zero =>
    rw [List.getElem?_cons_zero, Option.some.injEq] at hget
    rw [← hget] at hanswer
    apply hfirst page last hanswer hend hsettled
    rcases hwent with hmore | hanswered
    · left
      intro hnil
      rw [hnil] at hmore
      simp at hmore
    · exact .inr hanswered
  | succ k =>
    rw [List.getElem?_cons_succ] at hget
    apply h k found page last hget
    · rw [← hanswer, Nat.add_right_comm, Nat.add_assoc]
    · exact hend
    · rw [Nat.add_right_comm, Nat.add_assoc]
      exact hsettled
    · rw [List.length_cons, Nat.add_lt_add_iff_right] at hwent
      exact hwent

theorem pages_fit (cursor : Int64) (outcome : SyncRangeOutcome) (w : Feed S) :
    ∃ asked, (pages outside market endMs batchLimit cursor outcome w).2.requests =
        w.requests ++ asked ∧
      NoOverflow outside market w.requests.length w.clockReads asked
        (∃ o, (pages outside market endMs batchLimit cursor outcome w).1 = .ok o) := by
  induction cursor, outcome using pages.induct market endMs generalizing w with
  | case2 cursor outcome hgt =>
    rw [pages, dif_neg hgt]
    exact ⟨[], by simp, noOverflow_nil⟩
  | case1 cursor outcome hle ih =>
    rw [pages_turn outside market endMs batchLimit outcome hle w]
    cases hanswer : outside.klines w.requests.length
        (klineRequest market cursor endMs batchLimit) with
    | error error =>
      refine ⟨[klineRequest market cursor endMs batchLimit], rfl, noOverflow_nil.cons ?_⟩
      intro page last hpage
      rw [hanswer] at hpage
      cases hpage
    | ok batch =>
      have hbatch : ∀ page, outside.klines w.requests.length
          (klineRequest market cursor endMs batchLimit) = .ok page → page = batch := by
        intro page hpage
        rw [hanswer] at hpage
        exact (Except.ok.inj hpage).symm
      simp only [onPage]
      cases hend : batch.getLast? with
      | none =>
        refine ⟨[klineRequest market cursor endMs batchLimit], rfl, noOverflow_nil.cons ?_⟩
        intro page last hpage hlast
        rw [hbatch page hpage, hend] at hlast
        cases hlast
      | some lastFetched =>
        obtain ⟨hrequests, hreads⟩ := @store_world _ _ market
          (batch.take (settledLen batch (outside.now w.clockReads))) outcome
          (afterAsking (klineRequest market cursor endMs batchLimit) w)
        rcases hstore : store market (batch.take (settledLen batch (outside.now w.clockReads)))
          outcome (afterAsking (klineRequest market cursor endMs batchLimit) w) with ⟨answer, u⟩
        rw [hstore] at hrequests hreads
        cases answer with
        | error error =>
          simp only [seq_error hstore]
          refine ⟨[klineRequest market cursor endMs batchLimit], hrequests,
            noOverflow_nil.cons ?_⟩
          intro page last _ _ _ hwent
          simp at hwent
        | ok o =>
          simp only [seq_ok hstore]
          cases hheld : (batch.drop (settledLen batch (outside.now w.clockReads))).head? with
          | some heldBack =>
            refine ⟨[klineRequest market cursor endMs batchLimit], hrequests,
              noOverflow_nil.cons ?_⟩
            intro page last hpage _ hsettled
            obtain ⟨hmem, hnot⟩ := held_back hheld
            rw [hbatch page hpage] at hsettled
            exact absurd (hsettled heldBack hmem) hnot
          | none =>
            rw [none_held hheld] at hstore
            have hfirst : ∀ page last, outside.klines w.requests.length
                (klineRequest market cursor endMs batchLimit) = .ok page →
                  page.getLast? = some last →
                  (Checked.add last.openTimeMs market.interval.stepMs).isSome = true := by
              intro page last hpage hlast
              rw [hbatch page hpage] at hlast
              exact (store_next hstore (List.mem_of_getLast? hlast)).2
            simp only
            split_ifs with hstuck
            · exact ⟨[klineRequest market cursor endMs batchLimit], hrequests,
                noOverflow_nil.cons fun page last hpage hlast _ _ => hfirst page last hpage hlast⟩
            · obtain ⟨asked, hasked, hfits⟩ := ih lastFetched o hstuck u
              have hcount : u.requests.length = w.requests.length + 1 := by
                rw [hrequests, afterAsking, List.length_append, List.length_singleton]
              rw [hcount, hreads] at hfits
              refine ⟨klineRequest market cursor endMs batchLimit :: asked, ?_,
                hfits.cons fun page last hpage hlast _ _ => hfirst page last hpage hlast⟩
              rw [hasked, hrequests, afterAsking, List.append_assoc]
              rfl

theorem pages_complete (honours : Honours outside market history) (hlimit : 1 ≤ batchLimit) (cursor : Int64)
    (outcome : SyncRangeOutcome) (hfrom : outcome.unsettledFromMs = none) {w v : Feed S}
    {o : SyncRangeOutcome}
    (hrun : pages outside market endMs batchLimit cursor outcome w = (.ok o, v)) :
    ∃ asked, v.requests = w.requests ++ asked ∧
      Complete outside market w.requests.length w.clockReads asked
        (inRange history cursor endMs) o v.store ∧
      ∀ c, has w.store market c → c.openTimeMs < cursor → has v.store market c := by
  induction cursor, outcome using pages.induct market endMs generalizing w with
  | case2 cursor outcome hgt =>
    rw [pages, dif_neg hgt] at hrun
    cases hrun
    refine ⟨[], by simp, ⟨[], [], ?_, by simp, hfrom⟩, fun c h _ => h⟩
    rw [List.nil_append, inRange, List.filter_eq_nil_iff]
    intro c _
    simp only [Bool.and_eq_true, decide_eq_true_eq, not_and]
    intro hstart hend
    exact hgt (Int64.le_trans hstart hend)
  | case1 cursor outcome hle ih =>
    rw [pages_turn outside market endMs batchLimit outcome hle w] at hrun
    cases hanswer : outside.klines w.requests.length
        (klineRequest market cursor endMs batchLimit) with
    | error error => simp [hanswer] at hrun
    | ok batch =>
      simp only [hanswer, onPage] at hrun
      have hpage : batch = (inRange history cursor endMs).take (min batchLimit 1000).toNat :=
        honours.answers _ _ _ _ _ hanswer
      have hcame : ∀ asked, ∀ c ∈ batch, CameBy outside w.requests.length w.clockReads
          (klineRequest market cursor endMs batchLimit :: asked) c (outside.now w.clockReads) := by
        intro asked c hc
        exact ⟨0, _, batch, rfl, hanswer, hc, rfl⟩
      cases hend : batch.getLast? with
      | none =>
        rw [hend] at hrun
        cases hrun
        refine ⟨[klineRequest market cursor endMs batchLimit], rfl,
          ⟨[], [], ?_, by simp, hfrom⟩, fun c h _ => h⟩
        rw [List.getLast?_eq_none_iff] at hend
        rw [hend, eq_comm, List.take_eq_nil_iff] at hpage
        have hpos := limit_pos hlimit
        rcases hpage with hzero | hempty
        · omega
        · rw [hempty, List.nil_append]
      | some lastFetched =>
        simp only [hend] at hrun
        obtain ⟨o1, u, hstore, hrest⟩ := bind_answers hrun
        have hprefix : batch.take (settledLen batch (outside.now w.clockReads)) <+:
            inRange history cursor endMs := by
          rw [hpage]
          exact (List.take_prefix _ _).trans (List.take_prefix _ _)
        obtain ⟨hholds, hkept⟩ := store_holds honours hprefix.sublist hstore
        obtain ⟨hsame, -⟩ := store_ok hstore
        obtain ⟨hrequests, hreads⟩ := @store_world _ _ market
          (batch.take (settledLen batch (outside.now w.clockReads))) outcome
          (afterAsking (klineRequest market cursor endMs batchLimit) w)
        rw [hstore] at hrequests hreads
        have hsettled : ∀ c ∈ batch.take (settledLen batch (outside.now w.clockReads)),
            HadSettled c (outside.now w.clockReads) := by
          intro c hc
          rw [settled_take] at hc
          exact isSettled_iff.mp (List.mem_takeWhile_imp hc)
        have hbefore : ∀ asked, ∀ c ∈ batch.take (settledLen batch (outside.now w.clockReads)),
            ∃ cutoffMs, CameBy outside w.requests.length w.clockReads
              (klineRequest market cursor endMs batchLimit :: asked) c cutoffMs ∧
                HadSettled c cutoffMs := by
          intro asked c hc
          exact ⟨_, hcame asked c (List.mem_of_mem_take hc), hsettled c hc⟩
        have hwhole : inRange history cursor endMs =
            batch ++ (inRange history cursor endMs).drop (min batchLimit 1000).toNat := by
          conv_lhs => rw [← List.take_append_drop (min batchLimit 1000).toNat
            (inRange history cursor endMs)]
          rw [← hpage]
        cases hheld : (batch.drop (settledLen batch (outside.now w.clockReads))).head? with
        | some heldBack =>
          rw [hheld] at hrest
          cases hrest
          obtain ⟨tail, htail⟩ := List.head?_eq_some_iff.mp hheld
          obtain ⟨hmem, hnot⟩ := held_back hheld
          refine ⟨[klineRequest market cursor endMs batchLimit], hrequests,
            ⟨batch.take (settledLen batch (outside.now w.clockReads)), heldBack :: (tail ++
              (inRange history cursor endMs).drop (min batchLimit 1000).toNat), ?_, ?_, ?_⟩, hkept⟩
          · rw [← List.cons_append, ← htail, ← List.append_assoc, List.take_append_drop]
            exact hwhole
          · exact fun c hc => ⟨hholds c hc, hbefore [] c hc⟩
          · exact ⟨rfl, outside.now w.clockReads, hcame [] heldBack hmem, hnot⟩
        | none =>
          simp only [hheld] at hrest
          rw [none_held hheld] at hstore hholds hsettled hbefore
          have hmem : lastFetched ∈ batch := List.mem_of_getLast? hend
          have hinside : lastFetched ∈ inRange history cursor endMs := by
            rw [hwhole]
            exact List.mem_append_left _ hmem
          obtain ⟨-, hcursor, -⟩ := mem_inRange.mp hinside
          obtain ⟨hnext, -⟩ := store_next hstore hmem
          rw [hpage] at hend
          obtain ⟨hahead, hpassed⟩ := ahead_next honours hend hnext
          rw [← hpage] at hpassed
          have hstep := market.interval.stepMs_range
          rw [Int64.le_iff_toInt_le] at hcursor
          split_ifs at hrest with hstuck
          · rw [Int64.le_iff_toInt_le] at hstuck
            omega
          · obtain ⟨asked, hasked, hcomplete, hleft⟩ := ih lastFetched o1 hstuck
              (hsame.trans hfrom) hrest
            obtain ⟨before, rest, hsplit, hread, hstopped⟩ := hcomplete
            have hcount : u.requests.length = w.requests.length + 1 := by
              rw [hrequests, afterAsking, List.length_append, List.length_singleton]
            rw [hcount, hreads] at hread hstopped
            refine ⟨klineRequest market cursor endMs batchLimit :: asked, ?_,
              ⟨batch ++ before, rest, ?_, ?_, hstopped.later _⟩, ?_⟩
            · rw [hasked, hrequests, afterAsking, List.append_assoc]
              rfl
            · rw [hwhole, ← hahead, hsplit, List.append_assoc]
            · intro c hc
              rcases List.mem_append.mp hc with hc | hc
              · exact ⟨hleft c (hholds c hc) (hpassed c hc), hbefore asked c hc⟩
              · obtain ⟨hhas, cutoffMs, hcamec, hsettledc⟩ := hread c hc
                exact ⟨hhas, cutoffMs, hcamec.later _, hsettledc⟩
            · intro c hhas hlt
              apply hleft c (hkept c hhas hlt)
              rw [Int64.lt_iff_toInt_lt] at hlt ⊢
              omega

/-- A range sync asks a finite number of times, each time from a later start, writes only
candles that had settled by the clock read ahead of the request they came with, and adds no
two times that overflow, whatever the exchange answers. On an exchange that honours the
kline contract, once it answers, the store holds every candle of the range up to the first
that had not settled, which is where it says it stopped. -/
theorem range_complete (S : Type) [CandleStore S] [HoldingCandleStore S] (outside : Outside)
    (market : MarketId) (startMs endMs : Int64) (batchLimit : UInt16) :
    (∀ w : Feed (Logged S),
      ∃ asked, Traced outside w (syncMarketRange outside market startMs endMs batchLimit w).2
        asked) ∧
    ∀ w : Feed S, ∃ asked,
      (syncMarketRange outside market startMs endMs batchLimit w).2.requests =
        w.requests ++ asked ∧
      NoOverflow outside market w.requests.length w.clockReads asked
        (∃ o, (syncMarketRange outside market startMs endMs batchLimit w).1 = .ok o) ∧
      ∀ history, Honours outside market history → 1 ≤ batchLimit →
        ∀ o v, syncMarketRange outside market startMs endMs batchLimit w = (.ok o, v) →
          Complete outside market w.requests.length w.clockReads asked
            (inRange history startMs endMs) o v.store := by
  refine ⟨range_traced outside market startMs endMs batchLimit, ?_⟩
  intro w
  unfold syncMarketRange
  split_ifs with hempty
  · refine ⟨[], by simp, noOverflow_nil, ?_⟩
    intro history _ _ o v hrun
    cases hrun
    refine ⟨[], [], ?_, by simp, rfl⟩
    rw [List.nil_append, inRange, List.filter_eq_nil_iff]
    intro c _
    simp only [Bool.and_eq_true, decide_eq_true_eq, not_and]
    intro hstart hend
    have hle := Int64.le_trans hstart hend
    rw [Int64.le_iff_toInt_le] at hle
    rw [Int64.lt_iff_toInt_lt] at hempty
    omega
  · obtain ⟨asked, hasked, hfits⟩ :=
      @pages_fit S _ outside market endMs batchLimit _ startMs .none_ w
    refine ⟨asked, hasked, hfits, ?_⟩
    intro history honours hlimit o v hrun
    rw [hrun] at hasked
    obtain ⟨own, hown, hcomplete, -⟩ := pages_complete honours hlimit startMs .none_ rfl hrun
    have hsame : own = asked := List.append_cancel_left (hown.symm.trans hasked)
    rwa [hsame] at hcomplete

end

attribute [local instance] Segments.exactTextParser

/-- Four minutes of a market. -/
def fourMinutes : List Candle :=
  [0, 60000, 120000, 180000].map fun openTimeMs =>
    ⟨openTimeMs, openTimeMs + 59999, .ofUInt32 1, .ofUInt32 1, .ofUInt32 1, .ofUInt32 1,
      .ofUInt32 1, some 1⟩

/-- The exchange that keeps them, while the last is still open. -/
def keepsMinutes : Outside := keeping fourMinutes fun _ => 200000

def minuteMarket : MarketId := ⟨.binanceSpot, .btcUsdt, .m1⟩

/-- Two candles a page: the second page ends with the open one, the three before it are
stored, and the range says that it stopped there. -/
theorem two_pages_complete :
    ∃ asked o v,
      syncMarketRange keepsMinutes minuteMarket 0 180000 2 (Feed.new Sqlite.Store.empty) =
        (.ok o, v) ∧
      v.requests = asked ∧ asked.length = 2 ∧ o.written = 3 ∧ o.unsettledFromMs = some 180000 ∧
      NoOverflow keepsMinutes minuteMarket 0 0 asked True ∧
      inRange fourMinutes 0 180000 = fourMinutes ∧
      Complete keepsMinutes minuteMarket 0 0 asked fourMinutes o v.store := by
  have whole : inRange fourMinutes 0 180000 = fourMinutes := by decide
  have honours : Honours keepsMinutes minuteMarket fourMinutes :=
    keeping_honours (fun _ => 200000) (by decide) (by decide)
  have reported : (syncMarketRange keepsMinutes minuteMarket 0 180000 2
      (Feed.new Sqlite.Store.empty)).1.map (fun o => (o.written, o.unsettledFromMs)) =
        .ok (3, some 180000) := by decide +kernel
  have requested : (syncMarketRange keepsMinutes minuteMarket 0 180000 2
      (Feed.new Sqlite.Store.empty)).2.requests.length = 2 := by decide +kernel
  obtain ⟨asked, hasked, hfits, hcomplete⟩ := (range_complete Sqlite.Store keepsMinutes
    minuteMarket 0 180000 2).2 (Feed.new Sqlite.Store.empty)
  specialize hcomplete fourMinutes honours (by decide)
  rw [whole] at hcomplete
  rcases hrun : syncMarketRange keepsMinutes minuteMarket 0 180000 2
    (Feed.new Sqlite.Store.empty) with ⟨answer, v⟩
  rw [hrun] at reported requested hasked hfits
  cases answer with
  | error error => cases reported
  | ok o =>
    have hsame : v.requests = asked := hasked
    simp only [Except.map, Except.ok.injEq, Prod.mk.injEq] at reported
    refine ⟨asked, o, v, rfl, hsame, hsame ▸ requested, reported.1, reported.2, ?_, whole,
      hcomplete o v hrun⟩
    intro k request page last hget hanswer hend hsettled _
    exact hfits k request page last hget hanswer hend hsettled (.inr ⟨o, rfl⟩)

end QuantForge.DataSync
