import QuantForge.Sdk.WindowAverage

namespace QuantForge

/-- The moving averages that a crossover compares. -/
structure SmaCrossStrategy where
  fast : Sma
  slow : Sma
  deriving DecidableEq

namespace SmaCrossStrategy

open Decimal
open Sma (mean total Exact)

def new (fast slow : Nat) : Except SmaError SmaCrossStrategy :=
  if fast = 0 ∨ slow = 0 then
    .error (.strategy ⟨"fast and slow windows must be greater than zero"⟩)
  else if slow ≤ fast then
    .error (.strategy ⟨"fast window must be smaller than slow window"⟩)
  else do
    let fast ← Sma.new fast
    let slow ← Sma.new slow
    pure ⟨fast, slow⟩

/-- Long while the fast average is above the slow one, flat while it is below. -/
def target : Option Decimal → Option Decimal → Option TargetPosition
  | some fastNow, some slowNow =>
    if slowNow.lt fastNow then some .longAllIn
    else if fastNow.lt slowNow then some .flat
    else none
  | _, _ => none

section

variable [DecimalMath]

def onBar (_ctx : StrategyContext) (bar : Candle) (s : SmaCrossStrategy) :
    Except Panic (Option TargetPosition × SmaCrossStrategy) := do
  let (fast, fastNow) ← s.fast.update bar.close
  let (slow, slowNow) ← s.slow.update bar.close
  pure (target fastNow slowNow, ⟨fast, slow⟩)

/-- A bar as an engine presents it. -/
abbrev Presented := StrategyContext × Candle

/-- What was asked for on the last of some bars, and the state after it. -/
def follow (s : SmaCrossStrategy) (asked : Option TargetPosition) :
    List Presented → Except Panic (Option TargetPosition × SmaCrossStrategy)
  | [] => .ok (asked, s)
  | (ctx, bar) :: rest => do
    let (asked', s') ← s.onBar ctx bar
    follow s' asked' rest

end

def closes (bars : List Presented) : List Decimal := bars.map fun bar => bar.2.close

/-- The decimal means of the last closes compared. -/
def compared : Option ℚ → Option ℚ → Option TargetPosition
  | some fastNow, some slowNow =>
    if slowNow < fastNow then some .longAllIn
    else if fastNow < slowNow then some .flat
    else none
  | _, _ => none

/-- What a crossover of two windows asks for after some closes. -/
def asks (fast slow : Nat) (seen : List Decimal) : Option TargetPosition :=
  compared (mean fast (seen.rtake fast)) (mean slow (seen.rtake slow))

theorem target_eq (fastNow slowNow : Option Decimal) :
    target fastNow slowNow = compared (fastNow.map value) (slowNow.map value) := by
  cases fastNow with
  | none => rfl
  | some fastNow =>
    cases slowNow with
    | none => rfl
    | some slowNow => simp only [target, compared, Option.map_some, lt_iff]

theorem new_ok {fast slow : Nat} {s : SmaCrossStrategy} (h : new fast slow = .ok s) :
    fast < slow ∧ s.fast.Started fast ∧ s.slow.Started slow := by
  unfold new at h
  split_ifs at h with hzero hle
  cases hfast : Sma.new fast with
  | error e =>
    rw [hfast] at h
    cases h
  | ok a =>
    cases hslow : Sma.new slow with
    | error e =>
      rw [hfast, hslow] at h
      cases h
    | ok b =>
      rw [hfast, hslow] at h
      cases h
      exact ⟨Nat.not_le.mp hle, .inl hfast, .inl hslow⟩

/-- The last closes of a window are among those of a longer one. -/
theorem rtake_rtake {fast slow : Nat} (hle : fast ≤ slow) (seen : List Decimal) :
    (seen.rtake slow).rtake fast = seen.rtake fast := by
  simp only [List.rtake, List.length_drop, List.drop_drop]
  congr 1
  omega

theorem asks_rtake {fast slow : Nat} (hle : fast ≤ slow) (seen : List Decimal) :
    asks fast slow (seen.rtake slow) = asks fast slow seen := by
  rw [asks, asks, rtake_rtake hle, rtake_rtake le_rfl]

/-- Both averages hold their windows of the closes seen. -/
structure Holding (s : SmaCrossStrategy) (seen : List Decimal) : Prop where
  fast : s.fast.Holding seen
  slow : s.slow.Holding seen

section

variable [DecimalMath] [RoundedMath]

/-- One bar moves both windows on, and compares their decimal means. -/
theorem onBar_holding {s : SmaCrossStrategy} {seen : List Decimal} (h : s.Holding seen)
    (ctx : StrategyContext) (bar : Candle)
    (hfast : format.Holds (total ((seen ++ [bar.close]).rtake s.fast.window)) ∧
      format.Holds (total ((seen ++ [bar.close]).rtake (s.fast.window + 1))))
    (hslow : format.Holds (total ((seen ++ [bar.close]).rtake s.slow.window)) ∧
      format.Holds (total ((seen ++ [bar.close]).rtake (s.slow.window + 1)))) :
    ∃ s', s.onBar ctx bar =
        .ok (asks s.fast.window s.slow.window (seen ++ [bar.close]), s') ∧
      s'.fast.window = s.fast.window ∧ s'.slow.window = s.slow.window ∧
      s'.Holding (seen ++ [bar.close]) := by
  obtain ⟨fast, fastNow, hfastUpdate, hfastWindow, hfastHolds, hfastMean⟩ :=
    Sma.update_holding h.fast hfast.1 hfast.2
  obtain ⟨slow, slowNow, hslowUpdate, hslowWindow, hslowHolds, hslowMean⟩ :=
    Sma.update_holding h.slow hslow.1 hslow.2
  refine ⟨⟨fast, slow⟩, ?_, hfastWindow, hslowWindow, hfastHolds, hslowHolds⟩
  simp only [onBar, hfastUpdate, hslowUpdate, bind, Except.bind, pure, Except.pure]
  rw [target_eq, hfastMean, hslowMean, asks]

/-- After any bars with exact sums, the last was answered by the means of the windows. -/
theorem follow_asks {s : SmaCrossStrategy} {seen : List Decimal} {asked : Option TargetPosition}
    (bars : List Presented) (h : s.Holding seen)
    (hfast : Exact s.fast.window (seen ++ closes bars))
    (hslow : Exact s.slow.window (seen ++ closes bars))
    (hasked : asked = asks s.fast.window s.slow.window seen) :
    ∃ s', s.follow asked bars =
      .ok (asks s.fast.window s.slow.window (seen ++ closes bars), s') := by
  induction bars generalizing s seen asked with
  | nil =>
    rw [hasked, closes, List.map_nil, List.append_nil]
    exact ⟨s, rfl⟩
  | cons presented rest ih =>
    obtain ⟨ctx, bar⟩ := presented
    have happend : seen ++ closes ((ctx, bar) :: rest) = seen ++ [bar.close] ++ closes rest := by
      simp [closes]
    rw [happend] at hfast hslow ⊢
    have hprefix : seen ++ [bar.close] <+: seen ++ [bar.close] ++ closes rest :=
      List.prefix_append _ _
    obtain ⟨s', hbar, hfastWindow, hslowWindow, hnext⟩ :=
      onBar_holding h ctx bar (hfast _ hprefix) (hslow _ hprefix)
    rw [← hfastWindow] at hfast
    rw [← hslowWindow] at hslow
    rw [← hfastWindow, ← hslowWindow] at hbar ⊢
    obtain ⟨last, hlast⟩ := ih hnext hfast hslow rfl
    refine ⟨last, ?_⟩
    rw [follow, hbar]
    exact hlast

/-- A crossover decides on the closes of its slow window alone. Of two histories that
end in the same such closes, both run through without a panic and ask for the same on their
last bar: long where the rounded mean of the fast window is above that of the slow one, flat
where it is below, nothing where the two are equal and until the slow window is full. -/
theorem decides_on_window {fast slow : Nat} {s : SmaCrossStrategy} (hnew : new fast slow = .ok s)
    (bars others : List Presented) (hfast : Exact fast (closes bars))
    (hslow : Exact slow (closes bars)) (hfast' : Exact fast (closes others))
    (hslow' : Exact slow (closes others))
    (same : (closes bars).rtake slow = (closes others).rtake slow) :
    ∃ a b, s.follow none bars = .ok (asks fast slow ((closes bars).rtake slow), a) ∧
      s.follow none others = .ok (asks fast slow ((closes bars).rtake slow), b) := by
  obtain ⟨hlt, hfastStarted, hslowStarted⟩ := new_ok hnew
  have hstart : s.Holding [] := ⟨hfastStarted.holding, hslowStarted.holding⟩
  have hfastWindow := hfastStarted.empty.1
  have hslowWindow := hslowStarted.empty.1
  have hnone : none = asks s.fast.window s.slow.window [] := by
    have hpos := s.fast.window_pos
    rw [asks, List.rtake_nil, mean, if_neg (by rw [List.length_nil]; omega)]
    rfl
  have run (history : List Presented) (hf : Exact fast (closes history))
      (hs : Exact slow (closes history)) :
      ∃ last, s.follow none history =
        .ok (asks fast slow ((closes history).rtake slow), last) := by
    rw [← hfastWindow] at hf
    rw [← hslowWindow] at hs
    obtain ⟨last, hlast⟩ := follow_asks history hstart hf hs hnone
    rw [hfastWindow, hslowWindow, List.nil_append] at hlast
    refine ⟨last, ?_⟩
    rw [asks_rtake hlt.le]
    exact hlast
  obtain ⟨a, ha⟩ := run bars hfast hslow
  obtain ⟨b, hb⟩ := run others hfast' hslow'
  rw [← same] at hb
  exact ⟨a, b, ha, hb⟩

end

def presented (close : Decimal) : Presented :=
  (⟨⟨.binanceSpot, .btcUsdt, .m1⟩, 0, .zero, .zero⟩,
    ⟨0, 59999, close, close, close, close, .zero, none⟩)

def ofOneAndTwo : SmaCrossStrategy := ⟨.ofOne, .ofTwo⟩

def history : List Presented := [.ofUInt32 7, .ofUInt32 1, .ofUInt32 2].map presented

def recent : List Presented := [.ofUInt32 1, .ofUInt32 2].map presented

theorem decides_on_window_ofTwo : let _ := DecimalMath.rounding
    ∃ a b, ofOneAndTwo.follow none history = .ok (some .longAllIn, a) ∧
      ofOneAndTwo.follow none recent = .ok (some .longAllIn, b) := by
  let _ := DecimalMath.rounding
  have _ := DecimalMath.rounding_roundedMath
  have hnew : new 1 2 = .ok ofOneAndTwo := rfl
  have hasks : asks 1 2 ((closes history).rtake 2) = some .longAllIn := by decide +kernel
  have h := decides_on_window hnew history recent (by decide +kernel) (by decide +kernel)
    (by decide +kernel) (by decide +kernel) rfl
  rw [hasks] at h
  exact h

end SmaCrossStrategy

end QuantForge
