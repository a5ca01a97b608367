import QuantForge.Engine.DataSync.Coverage
import QuantForge.Storage.Segments.PayloadCodec
import QuantForge.Storage.Sqlite.CandleStore

namespace QuantForge.DataSync

open Prog LawfulCandleStore

section

variable {S : Type} [CandleStore S] [LawfulCandleStore S] (outside : Outside) (cfg : DataSyncConfig)

/-- The start of the first range, from the first reading of the clock. -/
def firstStart : Int64 := initialStartTimeMs cfg (outside.now 0)

/-- The end of iteration `i`, counted from zero, while nothing was asked for. -/
def waitingEnd (i : Nat) : Int64 := effectiveEndTimeMs cfg (outside.now (i + 1))

/-- The feed after `i` iterations that only waited. -/
def waitingFeed (s : S) (i : Nat) : Feed S := ⟨s, i + 1, [], [], 0⟩

/-- The sync after `i` iterations that only waited. -/
def waiting (i : Nat) : Progress where
  summary := ⟨i, 0, none, none, 0⟩
  loops := i
  nextStartTimeMs := firstStart outside cfg
  lastEffectiveEndMs := match i with
    | 0 => 0
    | i + 1 => waitingEnd outside cfg i
  unsettledFromMs := none
  refreshed := false

/-- Iteration `i` is the first to ask the exchange for anything: those before
it waited for their end to reach the start, and none of them was the last. -/
def AsksFirst (i : Nat) : Prop :=
  (∀ j < i, ¬firstStart outside cfg ≤ waitingEnd outside cfg j ∧
    shouldContinue cfg (firstStart outside cfg) (j + 1) = true) ∧
  firstStart outside cfg ≤ waitingEnd outside cfg i

/-- The range the sync asks for first. -/
def firstRange (i : Nat) : Prog (Feed S) EngineError SyncRangeOutcome :=
  syncMarketRange outside cfg.market (firstStart outside cfg) (waitingEnd outside cfg i)
    cfg.batchLimit

/-- Where the exchange answers the first range, it brings a settled candle as
new as everything the store held. -/
def Reaches (s : S) : Prop :=
  ∀ i o w, AsksFirst outside cfg i →
    firstRange outside cfg i ⟨s, i + 2, [], [], 0⟩ = (.ok o, w) → Covered s w.writes

/-- A run that answers names the range of the candles it wrote. -/
def RunRanges (sleeps : Nat) (s : S) : Prop :=
  ∀ summary uncovered w, run outside cfg sleeps (Feed.new s) = (.ok (summary, uncovered), w) →
    Ranges summary w.writes

/-- On both stores the run sends the same requests, makes the same number of
iterations and comes to the same verdict. -/
structure RunsAlike (sleeps : Nat) (s t : S) : Prop where
  requests : (run outside cfg sleeps (Feed.new s)).2.requests =
    (run outside cfg sleeps (Feed.new t)).2.requests
  verdict :
    (run outside cfg sleeps (Feed.new s)).1.map (fun answer => (answer.1.iterations, answer.2)) =
      (run outside cfg sleeps (Feed.new t)).1.map fun answer => (answer.1.iterations, answer.2)

variable {outside cfg} {s t : S}

/-- One program run on two feeds: the same answer, the same requests, and
feeds whose writes reach past both stores. -/
structure Alike {α : Type} (s t : S) (x : Prog (Feed S) EngineError α) (v w : Feed S) : Prop where
  answers : (x v).1 = (x w).1
  requests : (x v).2.requests = (x w).2.requests
  reach : ∀ a v', x v = (.ok a, v') → SameReach s t v' (x w).2

theorem alike_bind {α β : Type} {x : Prog (Feed S) EngineError α}
    {f : α → Prog (Feed S) EngineError β} {v w : Feed S} (hx : Alike s t x v w)
    (hf : ∀ a, Respects (SameReach s t) (f a)) : Alike s t (x >>= f) v w := by
  rcases bind_cases x f v with ⟨e, v', hv, hrun⟩ | ⟨a, v', hv, hrun⟩
  · have hw : x w = (.error e, (x w).2) := by rw [← Prod.eta (x w), ← hx.answers, hv]
    have requests := hx.requests
    rw [hv] at requests
    refine ⟨by rw [hrun, seq_error hw], by rw [hrun, seq_error hw]; exact requests, ?_⟩
    intro b u hbad
    rw [hrun] at hbad
    cases hbad
  · have hw : x w = (.ok a, (x w).2) := by rw [← Prod.eta (x w), ← hx.answers, hv]
    obtain ⟨same, next⟩ := hf a v' (x w).2 (hx.reach a v' hv)
    refine ⟨by rw [hrun, seq_ok hw, same], by rw [hrun, seq_ok hw]; exact next.1.requests, ?_⟩
    intro b u hdone
    rw [hrun] at hdone
    rw [seq_ok hw]
    rw [hdone] at next
    exact next

theorem alike_step {α β : Type} {x : Prog (Feed S) EngineError α}
    {f : α → Prog (Feed S) EngineError β} {v w v' w' : Feed S} {a : α} (hv : x v = (.ok a, v'))
    (hw : x w = (.ok a, w')) (hf : Alike s t (f a) v' w') : Alike s t (x >>= f) v w := by
  refine ⟨?_, ?_, ?_⟩
  · rw [seq_ok hv, seq_ok hw]
    exact hf.answers
  · rw [seq_ok hv, seq_ok hw]
    exact hf.requests
  · intro b u hdone
    rw [seq_ok hv] at hdone
    rw [seq_ok hw]
    exact hf.reach b u hdone

/-- The first range goes alike on two stores it reaches past. -/
theorem firstRange_alike {i : Nat} (asks : AsksFirst outside cfg i) (hs : Reaches outside cfg s)
    (ht : Reaches outside cfg t) :
    Alike s t (firstRange outside cfg i) ⟨s, i + 2, [], [], 0⟩ ⟨t, i + 2, [], [], 0⟩ := by
  have calls : Respects (SameCalls s t) (firstRange outside cfg i) :=
    range_built (respects_compositional _) sameCalls_now (fun _ => sameCalls_fetch _)
      sameCalls_upsert
  have start : SameCalls s t (⟨s, i + 2, [], [], 0⟩ : Feed S) ⟨t, i + 2, [], [], 0⟩ :=
    ⟨rfl, rfl, rfl, rfl, fun time => by simp, fun time => by simp⟩
  obtain ⟨same, next⟩ := calls _ _ start
  refine ⟨same, next.requests, fun o v' hv => ?_⟩
  have hw : firstRange outside cfg i (⟨t, i + 2, [], [], 0⟩ : Feed S) =
      (.ok o, (firstRange outside cfg i (⟨t, i + 2, [], [], 0⟩ : Feed S)).2) := by
    rw [← Prod.eta (firstRange outside cfg i (⟨t, i + 2, [], [], 0⟩ : Feed S)), ← same, hv]
  have right := ht i o _ asks hw
  rw [hv] at next
  rw [← next.writes] at right
  exact ⟨next, hs i o v' asks hv, right⟩

omit [LawfulCandleStore S] in
theorem iteration_waits {i : Nat} (hwait : ¬firstStart outside cfg ≤ waitingEnd outside cfg i) :
    iteration outside cfg (waiting outside cfg i) (waitingFeed s i) =
      (.ok (waiting outside cfg (i + 1)), waitingFeed s (i + 1)) := by
  have later : syncOrWait (S := S) outside cfg (effectiveEndTimeMs cfg (outside.now (i + 1)))
      (waiting outside cfg i) =
        pure { waiting outside cfg i with lastEffectiveEndMs := waitingEnd outside cfg i } :=
    if_neg hwait
  have now : Feed.nowUtcMs outside (waitingFeed s i) =
      (.ok (outside.now (i + 1)), ⟨s, i + 2, [], [], 0⟩) := rfl
  rw [iteration, seq_ok now, later]
  rfl

/-- The first iteration that asks goes alike on two stores it reaches past. -/
theorem iteration_alike {i : Nat} (asks : AsksFirst outside cfg i) (hs : Reaches outside cfg s)
    (ht : Reaches outside cfg t) :
    Alike s t (iteration outside cfg (waiting outside cfg i)) (waitingFeed s i) (waitingFeed t i) := by
  have hC := respects_compositional (E := EngineError) (SameReach (S := S) s t)
  have now (u : S) : Feed.nowUtcMs outside (waitingFeed u i) =
      (.ok (outside.now (i + 1)), ⟨u, i + 2, [], [], 0⟩) := rfl
  apply alike_step (now s) (now t)
  refine alike_bind ?_ fun p => hC.answer _
  rw [syncOrWait]
  have asked : (waiting outside cfg i).nextStartTimeMs ≤
      effectiveEndTimeMs cfg (outside.now (i + 1)) := asks.2
  rw [if_pos asked]
  exact alike_bind (firstRange_alike asks hs ht) fun o => sameReach_record outside cfg o _

/-- From any iteration that has only waited on, the sync goes alike. -/
theorem iterations_alike (hs : Reaches outside cfg s) (ht : Reaches outside cfg t) (sleeps : Nat)
    {i : Nat} (waits : ∀ j < i, ¬firstStart outside cfg ≤ waitingEnd outside cfg j ∧
      shouldContinue cfg (firstStart outside cfg) (j + 1) = true) :
    (iterations outside cfg sleeps (waiting outside cfg i) (waitingFeed s i)).1 =
        (iterations outside cfg sleeps (waiting outside cfg i) (waitingFeed t i)).1 ∧
      (iterations outside cfg sleeps (waiting outside cfg i) (waitingFeed s i)).2.requests =
        (iterations outside cfg sleeps (waiting outside cfg i) (waitingFeed t i)).2.requests := by
  have hC := respects_compositional (E := EngineError) (SameReach (S := S) s t)
  induction sleeps generalizing i with
  | zero =>
    by_cases hasks : firstStart outside cfg ≤ waitingEnd outside cfg i
    · have alike : Alike s t (iterations outside cfg 0 (waiting outside cfg i)) (waitingFeed s i)
          (waitingFeed t i) := by
        unfold iterations
        refine alike_bind (iteration_alike ⟨waits, hasks⟩ hs ht) fun p => ?_
        split_ifs <;> exact hC.answer _
      exact ⟨alike.answers, alike.requests⟩
    · have left := iteration_waits (s := s) hasks
      have right := iteration_waits (s := t) hasks
      unfold iterations
      rw [seq_ok left, seq_ok right]
      split_ifs <;> exact ⟨rfl, rfl⟩
  | succ sleeps ih =>
    by_cases hasks : firstStart outside cfg ≤ waitingEnd outside cfg i
    · have alike : Alike s t (iterations outside cfg (sleeps + 1) (waiting outside cfg i))
          (waitingFeed s i) (waitingFeed t i) := by
        unfold iterations
        refine alike_bind (iteration_alike ⟨waits, hasks⟩ hs ht) fun p => ?_
        split_ifs
        · exact sameReach_iterations cfg sleeps p
        · exact hC.answer _
      exact ⟨alike.answers, alike.requests⟩
    · have left := iteration_waits (s := s) hasks
      have right := iteration_waits (s := t) hasks
      unfold iterations
      rw [seq_ok left, seq_ok right]
      by_cases hgoes : shouldContinue cfg (firstStart outside cfg) (i + 1) = true
      · have later : ∀ j < i + 1, ¬firstStart outside cfg ≤ waitingEnd outside cfg j ∧
            shouldContinue cfg (firstStart outside cfg) (j + 1) = true := by
          intro j hj
          by_cases hold : j < i
          · exact waits j hold
          · have here : j = i := by omega
            rw [here]
            exact ⟨hasks, hgoes⟩
        have goes : shouldContinue cfg (waiting outside cfg (i + 1)).nextStartTimeMs
            (waiting outside cfg (i + 1)).loops = true := hgoes
        simp only [if_pos goes]
        exact ih later
      · have stops : ¬shouldContinue cfg (waiting outside cfg (i + 1)).nextStartTimeMs
            (waiting outside cfg (i + 1)).loops = true := hgoes
        simp only [if_neg stops]
        exact ⟨rfl, rfl⟩

/-- A sync whose writes reach past the store it began on, with a summary that
says so. -/
structure Sound (s : S) (p : Progress) (w : Feed S) : Prop where
  began : Began s w
  covered : Covered s w.writes
  ranges : Ranges p.summary w.writes

theorem Passed.sound {endMs : Int64} {p q : Progress} {w v : Feed S}
    (h : Passed outside s cfg endMs p q w v) (covered : Covered s v.writes) : Sound s q v :=
  ⟨h.began, covered, h.first, (newest_written h.began h.last).mpr covered⟩

theorem iteration_sound (p : Progress) :
    Leads (Sound s p) (iteration outside cfg p) (fun q => Sound s q) := by
  intro w h q v hrun
  obtain ⟨nowMs, w', hnow, hrest⟩ := bind_answers hrun
  obtain ⟨q', v', hsync, hdone⟩ := bind_answers hrest
  cases hnow
  cases hdone
  suffices sound : Sound s q' v from ⟨sound.began, sound.covered, sound.ranges.first, sound.ranges.last⟩
  unfold syncOrWait at hsync
  split_ifs at hsync
  · have began : Began s { w with clockReads := w.clockReads + 1 } := h.began
    have passed := syncPass_answers began (by exact h.ranges.first) hsync
    apply passed.sound
    obtain ⟨o, u, hrange, hwrites⟩ := passed.range
    have keeps : Keeps (fun w : Feed S => Covered s w.writes) (syncMarketRange outside cfg.market
        p.nextStartTimeMs (effectiveEndTimeMs cfg (outside.now w.clockReads)) cfg.batchLimit) :=
      range_built (keeps_compositional _) (fun _ h => h) (fun _ _ h => h) covered_upsert
    have covered := keeps { w with clockReads := w.clockReads + 1 } h.covered
    rw [hwrites]
    simp only at hrange
    rw [hrange] at covered
    exact covered
  · cases hsync
    exact ⟨h.began, h.covered, h.ranges.first, h.ranges.last⟩

theorem iterations_sound (sleeps : Nat) (p : Progress) :
    Leads (Sound s p) (iterations outside cfg sleeps p) (fun q => Sound s q) := by
  induction sleeps generalizing p with
  | zero =>
    unfold iterations
    refine leads_bind (iteration_sound p) fun q => ?_
    split_ifs <;> exact leads_pure fun _ h => h
  | succ sleeps ih =>
    unfold iterations
    refine leads_bind (iteration_sound p) fun q => ?_
    split_ifs
    · exact ih q
    · exact leads_pure fun _ h => h

omit [LawfulCandleStore S] in
/-- Taking up a range never fails on its own account. -/
theorem recordRange_total [LawfulCandleStore S] (o : SyncRangeOutcome) (p : Progress)
    (w : Feed S) : ∃ q v, recordRange outside cfg o p w = (.ok q, v) := by
  obtain ⟨found, hfound, -⟩ := newest cfg.market w.store
  have hnewest : Feed.maxOpenTimeMs cfg.market w = (.ok found, w) := by
    simp only [Feed.maxOpenTimeMs, hfound]
    rfl
  have refreshes (written : Nat) (p : Progress) : ∃ q v,
      refreshPass outside written p w = (.ok q, v) := by
    unfold refreshPass
    cases outside.refresh with
    | none => exact ⟨p, w, rfl⟩
    | some refresh =>
      simp only
      split_ifs
      · have hcall : Feed.refreshSegments refresh w =
            (.ok (refresh w.refreshes), { w with refreshes := w.refreshes + 1 }) := rfl
        rw [seq_ok hcall]
        cases refresh w.refreshes with
        | ok built => exact ⟨_, _, rfl⟩
        | error error => exact ⟨_, _, rfl⟩
      · exact ⟨p, w, rfl⟩
  rw [recordRange, seq_ok hnewest]
  obtain ⟨q, v, hrefresh⟩ := refreshes o.written { p with
    summary := { p.summary with
      written := p.summary.written + o.written
      firstSyncedOpenTimeMs := p.summary.firstSyncedOpenTimeMs.or o.firstOpenTimeMs
      lastOpenTimeMs := found }
    unsettledFromMs := o.unsettledFromMs }
  rw [seq_ok hrefresh]
  cases found with
  | none => exact ⟨_, _, rfl⟩
  | some time => exact ⟨_, _, rfl⟩

omit [LawfulCandleStore S] in
/-- The iterations before the first that asks only wait. -/
theorem iterations_wait {i : Nat} (asks : AsksFirst outside cfg i) (k : Nat) (hk : k ≤ i) :
    iterations outside cfg i (waiting outside cfg 0) (waitingFeed s 0) =
      iterations outside cfg (i - k) (waiting outside cfg k) (waitingFeed s k) := by
  induction k with
  | zero => rfl
  | succ k ih =>
    rw [ih (by omega)]
    obtain ⟨waits, goes⟩ := asks.1 k (by omega)
    have left : i - k = i - (k + 1) + 1 := by omega
    have next : shouldContinue cfg (waiting outside cfg (k + 1)).nextStartTimeMs
        (waiting outside cfg (k + 1)).loops = true := goes
    rw [left, iterations, seq_ok (iteration_waits waits), if_pos next]

omit [LawfulCandleStore S] in
theorem run_eq (sleeps : Nat) (s : S) :
    run outside cfg sleeps (Feed.new s) =
      (do
        let p ← iterations outside cfg sleeps (waiting outside cfg 0)
        pure (p.summary, isUncovered cfg p.nextStartTimeMs p.lastEffectiveEndMs p.unsettledFromMs) :
        Prog (Feed S) EngineError (DataSyncSummary × Bool)) (waitingFeed s 0) := rfl

/-- A sync stopped right after the first range it asked for. -/
theorem run_first {i : Nat} {o : SyncRangeOutcome} {u : Feed S} (asks : AsksFirst outside cfg i)
    (hrange : firstRange outside cfg i (⟨s, i + 2, [], [], 0⟩ : Feed S) = (.ok o, u)) :
    ∃ summary uncovered v, run outside cfg i (Feed.new s) = (.ok (summary, uncovered), v) ∧
      v.writes = u.writes ∧ Began s v ∧ IsNewest (holds v.store) summary.lastOpenTimeMs := by
  obtain ⟨q, v, hrecord⟩ := @recordRange_total _ _ outside cfg _ o
    { waiting outside cfg i with lastEffectiveEndMs := waitingEnd outside cfg i } u
  have hsync : syncPass outside cfg (waitingEnd outside cfg i)
      { waiting outside cfg i with lastEffectiveEndMs := waitingEnd outside cfg i }
      (⟨s, i + 2, [], [], 0⟩ : Feed S) = (.ok q, v) := (seq_ok hrange).trans hrecord
  have began : Began s (⟨s, i + 2, [], [], 0⟩ : Feed S) := fun time => by simp
  have passed := syncPass_answers began (by rfl) hsync
  obtain ⟨o', u', hrange', hwrites⟩ := passed.range
  have same : u' = u := (Prod.mk.inj (hrange'.symm.trans hrange)).2
  have now : Feed.nowUtcMs outside (waitingFeed s i) =
      (.ok (outside.now (i + 1)), ⟨s, i + 2, [], [], 0⟩) := rfl
  have asked : syncOrWait (S := S) outside cfg (effectiveEndTimeMs cfg (outside.now (i + 1)))
      (waiting outside cfg i) = syncPass outside cfg (waitingEnd outside cfg i)
        { waiting outside cfg i with lastEffectiveEndMs := waitingEnd outside cfg i } :=
    if_pos asks.2
  have once : iteration outside cfg (waiting outside cfg i) (waitingFeed s i) =
      (.ok { q with
        loops := q.loops + 1
        summary := { q.summary with iterations := q.loops + 1 } }, v) := by
    rw [iteration, seq_ok now, asked, seq_ok hsync]
    rfl
  have last : iterations outside cfg 0 (waiting outside cfg i) (waitingFeed s i) =
      (.ok { q with
        loops := q.loops + 1
        summary := { q.summary with iterations := q.loops + 1 } }, v) := by
    rw [iterations, seq_ok once]
    split_ifs <;> rfl
  rw [run_eq]
  have whole := iterations_wait (s := s) asks i le_rfl
  rw [Nat.sub_self, last] at whole
  rw [seq_ok whole]
  exact ⟨_, _, v, rfl, hwrites.trans (congrArg Feed.writes same), passed.began, passed.last⟩

theorem waiting_ranges (hs : Reaches outside cfg s) (sleeps : Nat) {i : Nat}
    (waits : ∀ j < i, ¬firstStart outside cfg ≤ waitingEnd outside cfg j ∧
      shouldContinue cfg (firstStart outside cfg) (j + 1) = true) {q : Progress} {v : Feed S}
    (hrun : iterations outside cfg sleeps (waiting outside cfg i) (waitingFeed s i) = (.ok q, v)) :
    Ranges q.summary v.writes := by
  by_cases hasks : firstStart outside cfg ≤ waitingEnd outside cfg i
  · have sound : ∀ q v, iteration outside cfg (waiting outside cfg i) (waitingFeed s i) =
        (.ok q, v) → Sound s q v := by
      intro q v hiteration
      obtain ⟨nowMs, w, hnow, hrest⟩ := bind_answers hiteration
      obtain ⟨q', v', hsync, hdone⟩ := bind_answers hrest
      cases hnow
      cases hdone
      have asked : syncOrWait (S := S) outside cfg (effectiveEndTimeMs cfg (outside.now (i + 1)))
          (waiting outside cfg i) = syncPass outside cfg (waitingEnd outside cfg i)
            { waiting outside cfg i with lastEffectiveEndMs := waitingEnd outside cfg i } :=
        if_pos hasks
      have hpass : syncPass outside cfg (waitingEnd outside cfg i)
          { waiting outside cfg i with lastEffectiveEndMs := waitingEnd outside cfg i }
          (⟨s, i + 2, [], [], 0⟩ : Feed S) = (.ok q', v) := asked ▸ hsync
      have began : Began s (⟨s, i + 2, [], [], 0⟩ : Feed S) := fun time => by simp
      have passed := syncPass_answers began (by rfl) hpass
      obtain ⟨o, u, hrange, hwrites⟩ := passed.range
      have covered := hs i o u ⟨waits, hasks⟩ hrange
      have done := passed.sound (hwrites ▸ covered)
      exact ⟨done.began, done.covered, done.ranges.first, done.ranges.last⟩
    cases sleeps with
    | zero =>
      rw [iterations] at hrun
      obtain ⟨p, w, hp, hrest⟩ := bind_answers hrun
      have done : p = q ∧ w = v := by
        split_ifs at hrest <;> cases hrest <;> exact ⟨rfl, rfl⟩
      rw [← done.1, ← done.2]
      exact (sound p w hp).ranges
    | succ sleeps =>
      rw [iterations] at hrun
      obtain ⟨p, w, hp, hrest⟩ := bind_answers hrun
      split_ifs at hrest
      · exact (iterations_sound sleeps p w (sound p w hp) q v hrest).ranges
      · cases hrest
        exact (sound q v hp).ranges
  · have nothing (k : Nat) : Ranges (waiting outside cfg k).summary (waitingFeed s k).writes := by
      refine ⟨rfl, fun _ t ht => ?_, fun hsome => ?_, fun hsome => ?_⟩
      · obtain ⟨c, hc, -⟩ := ht
        cases hc
      · cases hsome
      · cases hsome
    cases sleeps with
    | zero =>
      rw [iterations, seq_ok (iteration_waits hasks)] at hrun
      split_ifs at hrun <;> cases hrun <;> exact nothing (i + 1)
    | succ sleeps =>
      rw [iterations, seq_ok (iteration_waits hasks)] at hrun
      split_ifs at hrun with hgoes
      · have later : ∀ j < i + 1, ¬firstStart outside cfg ≤ waitingEnd outside cfg j ∧
            shouldContinue cfg (firstStart outside cfg) (j + 1) = true := by
          intro j hj
          by_cases hold : j < i
          · exact waits j hold
          · have here : j = i := by omega
            rw [here]
            exact ⟨hasks, hgoes⟩
        exact waiting_ranges hs sleeps later hrun
      · cases hrun
        exact nothing (i + 1)

theorem run_ranges (hs : Reaches outside cfg s) (sleeps : Nat) : RunRanges outside cfg sleeps s := by
  intro summary uncovered w hrun
  rw [run_eq] at hrun
  obtain ⟨q, v, hiterations, hdone⟩ := bind_answers hrun
  cases hdone
  exact waiting_ranges hs sleeps (fun j hj => absurd hj (by omega)) hiterations

theorem run_alike (hs : Reaches outside cfg s) (ht : Reaches outside cfg t) (sleeps : Nat) :
    RunsAlike outside cfg sleeps s t := by
  obtain ⟨answers, requests⟩ := iterations_alike hs ht sleeps
    (fun j (hj : j < 0) => absurd hj (by omega))
  constructor
  · rw [run_eq, run_eq, map_run, map_run]
    exact requests
  · rw [run_eq, run_eq, map_run, map_run, answers]

/-- A sync judges its coverage by what it fetched, on whichever of two stores
it runs and wherever it is stopped, exactly where the first range it asks for
reaches past everything they held. -/
theorem run_judges :
    (∀ sleeps, RunsAlike outside cfg sleeps s t ∧ RunRanges outside cfg sleeps s ∧
      RunRanges outside cfg sleeps t) ↔ Reaches outside cfg s ∧ Reaches outside cfg t := by
  have reaches (u : S) (h : ∀ sleeps, RunRanges outside cfg sleeps u) : Reaches outside cfg u := by
    intro i o w asks hrange
    obtain ⟨summary, uncovered, v, hrun, hwrites, began, isNewest⟩ := run_first asks hrange
    have ranges := h i summary uncovered v hrun
    rw [← hwrites]
    exact (newest_written began isNewest).mp ranges.last
  constructor
  · intro h
    exact ⟨reaches s fun sleeps => (h sleeps).2.1, reaches t fun sleeps => (h sleeps).2.2⟩
  · intro h sleeps
    exact ⟨run_alike h.1 h.2 sleeps, run_ranges h.1 sleeps, run_ranges h.2 sleeps⟩

end

attribute [local instance] Segments.exactTextParser

def flatCandle (openTimeMs : Int64) : Candle :=
  ⟨openTimeMs, openTimeMs + 59999, .ofUInt32 1, .ofUInt32 1, .ofUInt32 1, .ofUInt32 1, .ofUInt32 1, some 1⟩

/-- The exchange has two candles of the range, then nothing. -/
def dryOutside : Outside where
  now _ := 10000000
  klines call _ := .ok (if call = 0 then [flatCandle 0, flatCandle 60000] else [])
  refresh := none

def gapConfig : DataSyncConfig where
  market := ⟨.binanceSpot, .btcUsdt, .m1⟩
  startTimeMs := some 0
  endTimeMs := some 300000
  batchLimit := 1000
  follow := false
  maxLoops := some 1

/-- A store that holds a candle newer than the gap. -/
def newerStore : Sqlite.Store :=
  { Sqlite.Store.empty with candles := Table.empty.put (flatCandle 600000).toText }

/-- The gap is reported on an empty store, and hidden by a newer candle. -/
theorem gap_hidden :
    ¬∀ sleeps, RunsAlike dryOutside gapConfig sleeps Sqlite.Store.empty newerStore ∧
      RunRanges dryOutside gapConfig sleeps Sqlite.Store.empty ∧
        RunRanges dryOutside gapConfig sleeps newerStore := by
  intro h
  have verdict := (h 0).1.verdict
  have reported : (run dryOutside gapConfig 0 (Feed.new Sqlite.Store.empty)).1.map
      (fun answer => (answer.1.iterations, answer.2)) = .ok (1, true) := by decide +kernel
  have hidden : (run dryOutside gapConfig 0 (Feed.new newerStore)).1.map
      (fun answer => (answer.1.iterations, answer.2)) = .ok (1, false) := by decide +kernel
  rw [reported, hidden] at verdict
  simp at verdict

end QuantForge.DataSync
