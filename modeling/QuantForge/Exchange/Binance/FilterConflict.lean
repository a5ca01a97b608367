import QuantForge.Exchange.Binance.FilterOrder

namespace QuantForge.Binance

open Folds

section

variable [DecimalFromStr] {f : JsonValue} {r : SymbolRules} {info : SymbolInfo}

/-- The rules do not depend on the order of the filters, every limit is positive, and a
positive minimal notional of the venue is never lost. -/
structure OrderFree (info : SymbolInfo) : Prop where
  alike {filters : List JsonValue} : info.filters.Perm filters →
    (parseSymbolRules { info with filters }).toOption = (parseSymbolRules info).toOption
  positive {rules : SymbolRules} : parseSymbolRules info = .ok rules →
    ∀ limit ∈ rules.limits, Positive limit
  limited {rules : SymbolRules} : parseSymbolRules info = .ok rules →
    ∀ f ∈ info.filters, filterType f = some "MIN_NOTIONAL" ∨ filterType f = some "NOTIONAL" →
      ∀ value, minNotionalOf f = .ok (some value) → rules.minNotional ≠ none

/-- Every other filter can be read, and the two that feed the minimal notional are not settled:
one overwrites what the other carries, or hides that the other cannot be read. -/
structure Conflict (info : SymbolInfo) : Prop where
  named : ∃ symbol, Symbol.new info.symbol = .ok symbol
  readable : ∀ f ∈ info.filters, filterType f ≠ some "NOTIONAL" → Readable f
  unsettled : ∃ minimum ∈ info.filters, ∃ notional ∈ info.filters,
    filterType minimum = some "MIN_NOTIONAL" ∧ filterType notional = some "NOTIONAL" ∧
      ¬ Settled minimum notional

theorem readFilter_positive {next : SymbolRules} (hr : ∀ limit ∈ r.limits, Positive limit)
    (h : readFilter r f = .ok next) : ∀ limit ∈ next.limits, Positive limit := by
  have rest (minNotional : Option Decimal) (hpos : Positive minNotional) :
      ∀ limit ∈ ({ r with minNotional } : SymbolRules).limits, Positive limit := by
    intro limit hlimit
    by_cases heq : limit = minNotional
    · rw [heq]
      exact hpos
    · apply hr
      simp only [SymbolRules.limits, List.mem_cons] at hlimit ⊢
      tauto
  cases reads f with
  | fails _ _ ends =>
    have hnone := ends r
    rw [h] at hnone
    cases hnone
  | sets u _ _ _ positive ends =>
    rw [ends] at h
    intro limit hlimit
    rw [← Except.ok.inj h] at hlimit
    rcases Update.limits_apply hlimit with hu | hr'
    · exact positive limit hu
    · exact hr limit hr'
  | minimum _ _ limit found ends =>
    rw [ends] at h
    rw [← Except.ok.inj h]
    exact rest limit (parseOptionalFilterDecimal_positive found)
  | notional _ ends =>
    rw [ends] at h
    by_cases hunset : r.minNotional.isNone
    · rw [if_pos hunset] at h
      cases hread : minNotionalOf f with
      | error e =>
        rw [hread] at h
        cases h
      | ok limit =>
        rw [hread] at h
        rw [← Except.ok.inj h]
        exact rest limit (parseOptionalFilterDecimal_positive hread)
    · rw [if_neg hunset] at h
      rw [← Except.ok.inj h]
      exact hr

theorem parse_ok {rules : SymbolRules} (h : parseSymbolRules info = .ok rules) :
    ∃ symbol, Symbol.new info.symbol = .ok symbol ∧
      info.filters.foldlM readFilter (noRules symbol info) = .ok rules := by
  obtain ⟨symbol, hnew, hfold⟩ := bind_ok.mp h
  exact ⟨symbol, mapError_ok.mp hnew, hfold⟩

theorem parseSymbolRules_positive {rules : SymbolRules} (h : parseSymbolRules info = .ok rules) :
    ∀ limit ∈ rules.limits, Positive limit := by
  obtain ⟨symbol, _, hfold⟩ := parse_ok h
  apply foldlM_keeps (P := fun rules => ∀ limit ∈ rules.limits, Positive limit)
    (fun hr hstep => readFilter_positive hr hstep) _ hfold
  intro limit hlimit value hvalue
  have hnone : limit = none := by simpa [SymbolRules.limits, noRules] using hlimit
  rw [hnone] at hvalue
  cases hvalue

/-- A filter of another type that cannot be read fails whatever was read before. -/
theorem unreadable_fails (hother : filterType f ≠ some "NOTIONAL") (h : ¬ Readable f) :
    ∀ r, (readFilter r f).toOption = none := by
  cases reads f with
  | fails _ _ ends => exact ends
  | sets _ _ _ readable => exact absurd readable h
  | minimum _ readable => exact absurd readable h
  | notional type => exact absurd type hother

variable (info) in
theorem parse_named {symbol : Symbol} (h : Symbol.new info.symbol = .ok symbol) :
    parseSymbolRules info = info.filters.foldlM readFilter (noRules symbol info) := by
  rw [parseSymbolRules, h]
  rfl

theorem parse_alike (apart : info.filters.Pairwise Apart) (hfree : ¬ Conflict info)
    {filters : List JsonValue} (hperm : info.filters.Perm filters) :
    (parseSymbolRules { info with filters }).toOption = (parseSymbolRules info).toOption := by
  cases hnew : Symbol.new info.symbol with
  | error e =>
    rw [parseSymbolRules, parseSymbolRules, hnew]
    rfl
  | ok symbol =>
    rw [parse_named { info with filters } hnew, parse_named info hnew]
    show (filters.foldlM readFilter (noRules symbol info)).toOption = _
    by_cases hread : ∀ f ∈ info.filters, filterType f ≠ some "NOTIONAL" → Readable f
    · have orderly : Orderly (noRules symbol info) info.filters := by
        refine ⟨apart, fun {minimum notional} hmin hnot tmin tnot => ⟨rfl, ?_⟩⟩
        by_contra hsettled
        exact hfree ⟨⟨symbol, hnew⟩, hread, minimum, hmin, notional, hnot, tmin, tnot, hsettled⟩
      exact (foldlM_perm (P := Orderly) Orderly.perm Orderly.next Orderly.swap hperm orderly).symm
    · push Not at hread
      obtain ⟨f, hf, hother, hunreadable⟩ := hread
      have fails := unreadable_fails hother hunreadable
      rw [foldlM_fails hf fails, foldlM_fails (hperm.mem_iff.mp hf) fails]

/-- A filter that carries a minimal notional leaves one. -/
theorem carried {next : SymbolRules} {value : Decimal}
    (htype : filterType f = some "MIN_NOTIONAL" ∨ filterType f = some "NOTIONAL")
    (hvalue : minNotionalOf f = .ok (some value)) (h : readFilter r f = .ok next) :
    next.minNotional ≠ none := by
  cases reads f with
  | fails _ _ ends =>
    have hnone := ends r
    rw [h] at hnone
    cases hnone
  | sets _ _ other => exact absurd htype (not_or.mpr other)
  | minimum _ _ limit found ends =>
    rw [ends] at h
    rw [found] at hvalue
    rw [← Except.ok.inj h, Except.ok.inj hvalue]
    simp
  | notional _ ends =>
    rw [ends] at h
    by_cases hunset : r.minNotional.isNone
    · rw [if_pos hunset, hvalue] at h
      rw [← Except.ok.inj h]
      simp
    · rw [if_neg hunset] at h
      rw [← Except.ok.inj h]
      simpa using hunset

theorem parse_limited
    (alike : ∀ {filters}, info.filters.Perm filters →
      (parseSymbolRules { info with filters }).toOption = (parseSymbolRules info).toOption)
    {rules : SymbolRules} (h : parseSymbolRules info = .ok rules) (hf : f ∈ info.filters)
    (htype : filterType f = some "MIN_NOTIONAL" ∨ filterType f = some "NOTIONAL")
    {value : Decimal} (hvalue : minNotionalOf f = .ok (some value)) :
    rules.minNotional ≠ none := by
  -- The filter is moved to the end, where nothing follows that could take its limit away.
  obtain ⟨before, after, hsplit⟩ := List.append_of_mem hf
  have hperm : info.filters.Perm ((before ++ after) ++ [f]) := by
    rw [hsplit]
    exact List.perm_middle.trans (List.perm_append_singleton f (before ++ after)).symm
  have hlast := alike hperm
  rw [h] at hlast
  obtain ⟨symbol, hnew, _⟩ := parse_ok h
  rw [parse_named { info with filters := (before ++ after) ++ [f] } hnew] at hlast
  obtain ⟨mid, hstep⟩ := foldlM_last hlast
  exact carried htype hvalue hstep

/-- Filters of other types that can be read leave the minimal notional as it is. -/
theorem run_others {filters : List JsonValue}
    (h : ∀ f ∈ filters, Readable f ∧ filterType f ≠ some "MIN_NOTIONAL" ∧
      filterType f ≠ some "NOTIONAL") (r : SymbolRules) :
    ∃ rules, filters.foldlM readFilter r = .ok rules ∧ rules.minNotional = r.minNotional := by
  induction filters generalizing r with
  | nil => exact ⟨r, rfl, rfl⟩
  | cons f filters ih =>
    obtain ⟨readable, hmin, hnot⟩ := h f List.mem_cons_self
    cases reads f with
    | fails _ unreadable => exact absurd readable unreadable
    | minimum type => exact absurd type hmin
    | notional type => exact absurd type hnot
    | sets u _ _ _ _ ends =>
      obtain ⟨rules, hrun, hkept⟩ := ih (fun g hg => h g (List.mem_cons_of_mem f hg)) (u.apply r)
      refine ⟨rules, ?_, hkept.trans (Update.minNotional_apply u)⟩
      rw [List.foldlM_cons, ends]
      exact hrun

theorem minimum_sets {minimum : JsonValue} {limit : Option Decimal}
    (type : filterType minimum = some "MIN_NOTIONAL") (found : minNotionalOf minimum = .ok limit)
    (r : SymbolRules) : readFilter r minimum = .ok { r with minNotional := limit } := by
  simp only [readFilter, type]
  rw [minNotionalOf] at found
  rw [found]
  rfl

theorem notional_fills {notional : JsonValue} (type : filterType notional = some "NOTIONAL")
    (hunset : r.minNotional = none) :
    readFilter r notional =
      (minNotionalOf notional).map fun limit => { r with minNotional := limit } := by
  cases reads notional with
  | fails other => exact absurd type other
  | sets _ _ other => exact absurd type other.2
  | minimum other =>
    rw [type] at other
    exact absurd (Option.some.inj other) (by decide)
  | notional _ ends => rw [ends, hunset, Option.isNone_none, if_pos rfl]

theorem notional_skips {notional : JsonValue} (type : filterType notional = some "NOTIONAL")
    {value : Decimal} (hset : r.minNotional = some value) : readFilter r notional = .ok r := by
  simp only [readFilter, type]
  rw [hset]
  rfl

/-- Two filters that are not settled: the one read first decides whether the rules have a
minimal notional. -/
theorem unsettled_ends {minimum notional : JsonValue} {filters : List JsonValue}
    (others : ∀ f ∈ filters, Readable f ∧ filterType f ≠ some "MIN_NOTIONAL" ∧
      filterType f ≠ some "NOTIONAL")
    (tmin : filterType minimum = some "MIN_NOTIONAL")
    (tnot : filterType notional = some "NOTIONAL") (hsettled : ¬ Settled minimum notional)
    (hunset : r.minNotional = none) :
    ((minimum :: notional :: filters).foldlM readFilter r).toOption ≠
      ((notional :: minimum :: filters).foldlM readFilter r).toOption := by
  intro heq
  simp only [List.foldlM_cons, notional_fills tnot hunset] at heq
  cases hmin : minNotionalOf minimum with
  | error e =>
    rw [Settled, hmin] at hsettled
    exact hsettled trivial
  | ok limit =>
    have sets := minimum_sets tmin hmin
    rw [sets] at heq
    change (readFilter { r with minNotional := limit } notional >>= fun c =>
      filters.foldlM readFilter c).toOption = _ at heq
    cases hnot : minNotionalOf notional with
    | error e =>
      cases limit with
      | none =>
        rw [Settled, hmin, hnot] at hsettled
        exact hsettled trivial
      | some value =>
        obtain ⟨rules, hrun, _⟩ := run_others others { r with minNotional := some value }
        rw [notional_skips tnot rfl, hnot] at heq
        change (filters.foldlM readFilter { r with minNotional := some value }).toOption = none at heq
        rw [hrun] at heq
        cases heq
    | ok other =>
      cases limit with
      | some value =>
        rw [Settled, hmin, hnot] at hsettled
        exact hsettled trivial
      | none =>
        cases other with
        | none =>
          rw [Settled, hmin, hnot] at hsettled
          exact hsettled trivial
        | some value =>
          obtain ⟨rules, hrun, hrules⟩ := run_others others { r with minNotional := some value }
          obtain ⟨lost, hlost, hnone⟩ := run_others others { r with minNotional := none }
          rw [notional_fills tnot rfl, hnot] at heq
          change (filters.foldlM readFilter { r with minNotional := some value }).toOption =
            (readFilter { r with minNotional := some value } minimum >>= fun c =>
              filters.foldlM readFilter c).toOption at heq
          rw [sets, hrun] at heq
          change some rules = (filters.foldlM readFilter { r with minNotional := none }).toOption at heq
          rw [hlost] at heq
          cases heq
          rw [hrules] at hnone
          cases hnone

theorem conflict_ends (apart : info.filters.Pairwise Apart) (h : Conflict info) :
    ¬ OrderFree info := by
  intro hfree
  obtain ⟨⟨symbol, hnew⟩, hread, minimum, hmin, notional, hnot, tmin, tnot, hsettled⟩ := h
  have hne : notional ≠ minimum := by
    intro heq
    rw [heq, tmin] at tnot
    exact absurd (Option.some.inj tnot) (by decide)
  obtain ⟨others, hperm⟩ := perm_two hmin hnot hne
  have hpair := (hperm.pairwise_iff fun hfg => Apart.symm hfg).mp apart
  have hothers : ∀ f ∈ others, Readable f ∧ filterType f ≠ some "MIN_NOTIONAL" ∧
      filterType f ≠ some "NOTIONAL" := by
    intro f hf
    have apartMin := (List.pairwise_cons.mp hpair).1 f (List.mem_cons_of_mem notional hf)
    have apartNot := (List.pairwise_cons.mp (List.pairwise_cons.mp hpair).2).1 f hf
    have fnot := apartNot "NOTIONAL" (by decide) tnot
    have hmem : f ∈ info.filters :=
      hperm.mem_iff.mpr (List.mem_cons_of_mem _ (List.mem_cons_of_mem _ hf))
    exact ⟨hread f hmem fnot, apartMin "MIN_NOTIONAL" (by decide) tmin, fnot⟩
  have first := hfree.alike hperm
  have second := hfree.alike (hperm.trans (List.Perm.swap notional minimum others))
  rw [parse_named { info with filters := minimum :: notional :: others } hnew] at first
  rw [parse_named { info with filters := notional :: minimum :: others } hnew] at second
  exact unsettled_ends hothers tmin tnot hsettled rfl (first.trans second.symm)

/-- The rules of a symbol do not depend on the order of its filters, and lose no minimal
notional, exactly where the two filters that feed it do not conflict. -/
theorem orderFree_iff (info : SymbolInfo) (apart : info.filters.Pairwise Apart) :
    OrderFree info ↔ ¬ Conflict info := by
  constructor
  · intro hfree hconflict
    exact conflict_ends apart hconflict hfree
  · intro hconflict
    have alike {filters : List JsonValue} := @parse_alike _ info apart hconflict filters
    refine ⟨alike, parseSymbolRules_positive, fun h f hf htype value hvalue => ?_⟩
    exact parse_limited alike h hf htype hvalue

end

/-- `FromStr` of whole numbers of few digits. -/
@[reducible] def wholeFromStr : DecimalFromStr where
  parse raw :=
    if Decimal.areDigits raw.toList ∧ raw.toList.length < 10 then
      .ok (Decimal.ofUInt32 (Decimal.digitsValue raw.toList).toUInt32)
    else .error "Invalid decimal: unknown character"

attribute [local instance] wholeFromStr

def limitFilter (type field raw : String) : JsonValue :=
  .object [("filterType", .string type), (field, .string raw)]

/-- A symbol whose filters carry one minimal notional twice. -/
def agreeing : SymbolInfo where
  symbol := "solusdt"
  baseAsset := "SOL"
  quoteAsset := "USDT"
  filters := [limitFilter "PRICE_FILTER" "tickSize" "1", limitFilter "NOTIONAL" "minNotional" "5",
    limitFilter "MIN_NOTIONAL" "minNotional" "5"]

/-- The same symbol where the older filter says that there is no minimum. -/
def conflicting : SymbolInfo where
  symbol := "solusdt"
  baseAsset := "SOL"
  quoteAsset := "USDT"
  filters := [limitFilter "NOTIONAL" "minNotional" "5", limitFilter "MIN_NOTIONAL" "minNotional" "0"]

instance (f g : JsonValue) : Decidable (Apart f g) :=
  inferInstanceAs (Decidable (∀ type ∈ filterTypes, filterType f = some type → filterType g ≠ some type))

theorem agreeing_orderFree : agreeing.filters.Pairwise Apart ∧ OrderFree agreeing := by
  have apart : agreeing.filters.Pairwise Apart := by decide
  refine ⟨apart, (orderFree_iff agreeing apart).mpr fun conflict => ?_⟩
  obtain ⟨_, _, minimum, hmin, notional, hnot, tmin, tnot, hsettled⟩ := conflict
  have five : ∀ f ∈ agreeing.filters, filterType f ≠ some "PRICE_FILTER" →
      minNotionalOf f = .ok (some (Decimal.ofUInt32 5)) := by
    intro f hf
    simp only [agreeing, List.mem_cons, List.not_mem_nil, or_false] at hf
    rcases hf with rfl | rfl | rfl
    · exact fun h => absurd rfl h
    · exact fun _ => rfl
    · exact fun _ => rfl
  rw [Settled, five minimum hmin (by rw [tmin]; decide), five notional hnot (by rw [tnot]; decide)]
    at hsettled
  exact hsettled trivial

theorem overwritten_notional :
    conflicting.filters.Pairwise Apart ∧
      minNotionalOf (limitFilter "NOTIONAL" "minNotional" "5") =
        .ok (some (Decimal.ofUInt32 5)) ∧
      (∃ rules, parseSymbolRules conflicting = .ok rules ∧ rules.minNotional = none) ∧
      ¬ OrderFree conflicting := by
  have parsed : ∃ rules, parseSymbolRules conflicting = .ok rules ∧ rules.minNotional = none :=
    ⟨_, rfl, rfl⟩
  refine ⟨by decide, rfl, parsed, fun hfree => ?_⟩
  obtain ⟨rules, hrules, hnone⟩ := parsed
  exact hfree.limited hrules _ List.mem_cons_self (.inr rfl) (Decimal.ofUInt32 5) rfl hnone

end QuantForge.Binance
