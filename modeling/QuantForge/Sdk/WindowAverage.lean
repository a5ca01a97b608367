import QuantForge.Sdk.Indicators

namespace QuantForge.Sma

open Decimal

def total (values : List Decimal) : ℚ := (values.map value).sum

/-- The mean of a full window, rounded to a decimal. -/
def mean (window : Nat) (held : List Decimal) : Option ℚ :=
  if held.length = window then some (format.rounded (total held / window)) else none

/-- No sum on the way needs rounding: every window's, and every one with the next value. -/
def Exact (window : Nat) (inputs : List Decimal) : Prop :=
  ∀ seen, seen <+: inputs →
    format.Holds (total (seen.rtake window)) ∧ format.Holds (total (seen.rtake (window + 1)))

instance (window : Nat) (inputs : List Decimal) : Decidable (Exact window inputs) :=
  decidable_of_iff (∀ seen ∈ inputs.inits,
      format.Holds (total (seen.rtake window)) ∧ format.Holds (total (seen.rtake (window + 1))))
    (by simp only [List.mem_inits, Exact])

/-- The queue holds the window of what was seen, and the sum is the queue's. -/
structure Holding (s : Sma) (seen : List Decimal) : Prop where
  values_eq : s.values = seen.rtake s.window
  sum_eq : s.sum.value = total (seen.rtake s.window)

theorem total_concat (values : List Decimal) (d : Decimal) :
    total (values ++ [d]) = total values + d.value := by
  simp [total]

theorem total_cons (values : List Decimal) (d : Decimal) :
    total (d :: values) = d.value + total values := by
  simp [total]

theorem Started.holding {window : Nat} {s : Sma} (h : s.Started window) : s.Holding [] := by
  obtain ⟨-, hsum, hvalues⟩ := h.empty
  constructor
  · rw [hvalues, List.rtake_nil]
  · rw [hsum, zero_value, List.rtake_nil]
    rfl

section

variable [DecimalMath] [RoundedMath]

theorem add_exact {a b : Decimal} (h : format.Holds (a.value + b.value)) :
    ∃ c, DecimalMath.add a b = .ok c ∧ c.value = a.value + b.value := by
  obtain ⟨c, hc, hvalue⟩ := (RoundedMath.add_rounds a b).exact_ h
  exact ⟨c, DecimalMath.orPanic_ok.mpr hc, hvalue⟩

theorem sub_exact {a b : Decimal} (h : format.Holds (a.value - b.value)) :
    ∃ c, DecimalMath.sub a b = .ok c ∧ c.value = a.value - b.value := by
  obtain ⟨c, hc, hvalue⟩ := (RoundedMath.sub_rounds a b).exact_ h
  exact ⟨c, DecimalMath.orPanic_ok.mpr hc, hvalue⟩

/-- Of a queue with one value more, the window's remain, and their sum. -/
theorem evict_ok {window : Nat} {seen : List Decimal} {sum : Decimal}
    (hsum : sum.value = total (seen.rtake (window + 1)))
    (hexact : format.Holds (total (seen.rtake window))) :
    ∃ sum', evict window (seen.rtake (window + 1)) sum = .ok (seen.rtake window, sum') ∧
      sum'.value = total (seen.rtake window) := by
  by_cases hlen : window < seen.length
  · have hpos : seen.length - (window + 1) < seen.length := by omega
    have hnext : seen.length - (window + 1) + 1 = seen.length - window := by omega
    have hcons : seen.rtake (window + 1) =
        seen[seen.length - (window + 1)] :: seen.rtake window := by
      rw [List.rtake, List.drop_eq_getElem_cons hpos, hnext, List.rtake]
    have hover : window < (seen.rtake (window + 1)).length := by
      rw [List.rtake, List.length_drop]
      omega
    rw [hcons, total_cons] at hsum
    have hrest : sum.value - seen[seen.length - (window + 1)].value =
        total (seen.rtake window) := by
      rw [hsum, add_sub_cancel_left]
    obtain ⟨sum', hsub, hvalue⟩ := sub_exact (hrest ▸ hexact)
    refine ⟨sum', ?_, hvalue.trans hrest⟩
    unfold evict
    rw [if_pos hover, hcons]
    simp only [hsub]
    rfl
  · have hall (n : Nat) (hn : window ≤ n) : seen.rtake n = seen := by
      have : seen.length - n = 0 := by omega
      rw [List.rtake, this, List.drop_zero]
    rw [hall window le_rfl, hall (window + 1) (by omega)] at *
    exact ⟨sum, if_neg hlen, hsum⟩

theorem div_window {s : Sma} {sum : Decimal} {held : List Decimal}
    (hsum : sum.value = total held) :
    ∃ d, DecimalMath.div sum (.ofNat s.window s.window_lt_limit) = .ok d ∧
      d.value = format.rounded (total held / s.window) := by
  have hwindow : (1 : ℚ) ≤ s.window := by exact_mod_cast s.window_pos
  have hne : (ofNat s.window s.window_lt_limit).value ≠ 0 := by
    rw [ofNat_value]
    positivity
  have hdiv := RoundedMath.div_rounds (a := sum) hne
  rw [ofNat_value, hsum] at hdiv
  have hsmaller : |total held / s.window| ≤ |sum.value| := by
    rw [hsum, abs_div, abs_of_pos (by positivity : (0 : ℚ) < s.window)]
    exact div_le_self (abs_nonneg _) hwindow
  obtain ⟨d, hd, hvalue⟩ := hdiv.answers (sum.holds_value.fits.of_abs_le hsmaller)
  exact ⟨d, DecimalMath.orPanic_ok.mpr hd, hvalue⟩

/-- One observation moves the window on and answers its mean. -/
theorem update_holding {s : Sma} {seen : List Decimal} {input : Decimal} (h : s.Holding seen)
    (hheld : format.Holds (total ((seen ++ [input]).rtake s.window)))
    (hfull : format.Holds (total ((seen ++ [input]).rtake (s.window + 1)))) :
    ∃ s' out, s.update input = .ok (s', out) ∧ s'.window = s.window ∧
      s'.Holding (seen ++ [input]) ∧
      out.map value = mean s.window ((seen ++ [input]).rtake s.window) := by
  have hqueue : s.values ++ [input] = (seen ++ [input]).rtake (s.window + 1) := by
    rw [List.rtake_concat_succ, h.values_eq]
  have hnext : s.sum.value + input.value = total ((seen ++ [input]).rtake (s.window + 1)) := by
    rw [List.rtake_concat_succ, total_concat, h.sum_eq]
  obtain ⟨sum, hadd, hsum⟩ := add_exact (hnext ▸ hfull)
  obtain ⟨sum', hevict, hsum'⟩ := evict_ok (hsum.trans hnext) hheld
  by_cases hlen : ((seen ++ [input]).rtake s.window).length = s.window
  · obtain ⟨d, hdiv, hvalue⟩ := div_window (s := s) hsum'
    refine ⟨{ s with sum := sum', values := (seen ++ [input]).rtake s.window }, some d,
      ?_, rfl, ⟨rfl, hsum'⟩, ?_⟩
    · rw [update, hadd]
      change evict s.window (s.values ++ [input]) sum >>= _ = _
      rw [hqueue, hevict]
      simp only [bind, Except.bind, if_pos hlen, hdiv]
      rfl
    · rw [mean, if_pos hlen, Option.map_some, hvalue]
  · refine ⟨{ s with sum := sum', values := (seen ++ [input]).rtake s.window }, none,
      ?_, rfl, ⟨rfl, hsum'⟩, ?_⟩
    · rw [update, hadd]
      change evict s.window (s.values ++ [input]) sum >>= _ = _
      rw [hqueue, hevict]
      simp only [bind, Except.bind, if_neg hlen]
      rfl
    · rw [mean, if_neg hlen, Option.map_none]

/-- A run over exact sums keeps the window, and its last answer is the mean. -/
theorem feed_holding {s : Sma} {seen inputs : List Decimal} {out : Option Decimal}
    (h : s.Holding seen) (hexact : Exact s.window (seen ++ inputs))
    (hout : out.map value = mean s.window (seen.rtake s.window)) :
    ∃ s' out', s.feed out inputs = .ok (s', out') ∧ s'.Holding (seen ++ inputs) ∧
      out'.map value = mean s.window ((seen ++ inputs).rtake s.window) := by
  induction inputs generalizing s seen out with
  | nil =>
    rw [List.append_nil]
    exact ⟨s, out, rfl, h, hout⟩
  | cons input rest ih =>
    have happend : seen ++ input :: rest = seen ++ [input] ++ rest := by
      rw [List.append_assoc, List.singleton_append]
    rw [happend] at hexact ⊢
    obtain ⟨hheld, hfull⟩ := hexact (seen ++ [input]) (List.prefix_append _ _)
    obtain ⟨t, answered, hupdate, hwindow, ht, hanswered⟩ := update_holding h hheld hfull
    rw [← hwindow] at hexact hanswered
    obtain ⟨s', out', hfeed, hs', hout'⟩ := ih ht hexact hanswered
    refine ⟨s', out', ?_, hs', ?_⟩
    · rw [feed, hupdate]
      exact hfeed
    · rw [← hwindow]
      exact hout'

/-- A moving average depends on its window only: whatever was seen before, the same last
inputs give the same mean, which is the one of exactly those inputs. -/
theorem window_only {window : Nat} {a b : Sma} (ha : a.Started window) (hb : b.Started window)
    {xs ys : List Decimal} (hx : Exact window xs) (hy : Exact window ys)
    (same : xs.rtake window = ys.rtake window) :
    ∃ a' b' out out', a.feed none xs = .ok (a', out) ∧ b.feed none ys = .ok (b', out') ∧
      out.map value = out'.map value ∧ out.map value = mean window (xs.rtake window) := by
  have run {s : Sma} (hs : s.Started window) {inputs : List Decimal} (h : Exact window inputs) :
      ∃ s' out, s.feed none inputs = .ok (s', out) ∧
        out.map value = mean window (inputs.rtake window) := by
    obtain ⟨hwindow, -, -⟩ := hs.empty
    have hnone : (none : Option Decimal).map value = mean s.window (([] : List Decimal).rtake s.window) := by
      have hpos := s.window_pos
      rw [List.rtake_nil, mean, if_neg (by rw [List.length_nil]; omega), Option.map_none]
    rw [← hwindow] at h ⊢
    obtain ⟨s', out, hfeed, -, hout⟩ := feed_holding hs.holding h hnone
    exact ⟨s', out, hfeed, hout⟩
  obtain ⟨a', out, hfeed, hout⟩ := run ha hx
  obtain ⟨b', out', hfeed', hout'⟩ := run hb hy
  exact ⟨a', b', out, out', hfeed, hfeed', by rw [hout, hout', same], hout⟩

end

def ofTwo : Sma := ⟨2, .zero, [], by decide, by decide⟩

theorem window_only_ofTwo : let _ := DecimalMath.rounding
    ∃ a b out out',
      ofTwo.feed none [.ofNat 7, .ofNat 1, .ofNat 2] = .ok (a, out) ∧
      ofTwo.reset.feed none [.ofNat 1, .ofNat 2] = .ok (b, out') ∧ out.map value = out'.map value ∧
      out.map value = mean 2 [.ofNat 1, .ofNat 2] := by
  let _ := DecimalMath.rounding
  have _ := DecimalMath.rounding_roundedMath
  exact window_only (.inl rfl) (.inr ⟨ofTwo, rfl, rfl⟩) (by decide +kernel) (by decide +kernel) rfl

def ofOne : Sma := ⟨1, .zero, [], by decide, by decide⟩

/-- The largest decimal. -/
def largest : Decimal := ofNat (2 ^ 96 - 1)

def tenth : Decimal := .tenths 1

/-- The largest decimal leaves no room for a tenth, so the sum loses it: the mean of the
window `[0.1]` is 0 after that decimal and 0.1 in a new moving average. -/
theorem mean_after_largest : let _ := DecimalMath.rounding
    new 1 = .ok ofOne ∧ [largest, tenth].rtake 1 = [tenth].rtake 1 ∧
      (ofOne.feed none [largest, tenth]).map (·.2.map value) = .ok (some 0) ∧
      (ofOne.feed none [tenth]).map (·.2.map value) = .ok (some (1 / 10)) := by
  let _ := DecimalMath.rounding
  exact ⟨rfl, rfl, by decide +kernel, by decide +kernel⟩

end QuantForge.Sma
