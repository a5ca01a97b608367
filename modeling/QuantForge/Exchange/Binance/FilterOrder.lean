import QuantForge.Exchange.Binance.Convert
import QuantForge.Framework.Folds
import QuantForge.Framework.Reader

namespace QuantForge

/-- The limits that the rules may have. -/
def SymbolRules.limits (rules : SymbolRules) : List (Option Decimal) :=
  [rules.minQty, rules.maxQty, rules.stepSize, rules.marketMinQty, rules.marketMaxQty,
    rules.marketStepSize, rules.minNotional, rules.tickSize]

namespace Binance

open Folds

/-- A limit that is set is positive. -/
def Positive (limit : Option Decimal) : Prop := ∀ value ∈ limit, Decimal.zero.lt value

/-- What one of the filters that do not feed the minimal notional sets. -/
inductive Update
  | nothing
  | lot (minQty maxQty stepSize : Option Decimal)
  | marketLot (minQty maxQty stepSize : Option Decimal)
  | tick (tickSize : Option Decimal)

namespace Update

def type : Update → Option String
  | nothing => none
  | lot .. => some "LOT_SIZE"
  | marketLot .. => some "MARKET_LOT_SIZE"
  | tick _ => some "PRICE_FILTER"

def apply : Update → SymbolRules → SymbolRules
  | nothing, rules => rules
  | lot minQty maxQty stepSize, rules => { rules with minQty, maxQty, stepSize }
  | marketLot minQty maxQty stepSize, rules =>
    { rules with marketMinQty := minQty, marketMaxQty := maxQty, marketStepSize := stepSize }
  | tick tickSize, rules => { rules with tickSize }

def limits : Update → List (Option Decimal)
  | nothing => []
  | lot minQty maxQty stepSize | marketLot minQty maxQty stepSize => [minQty, maxQty, stepSize]
  | tick tickSize => [tickSize]

variable {r : SymbolRules}

@[simp] theorem minNotional_apply (u : Update) : (u.apply r).minNotional = r.minNotional := by
  cases u <;> rfl

theorem limits_apply {u : Update} {limit : Option Decimal} (h : limit ∈ (u.apply r).limits) :
    limit ∈ u.limits ∨ limit ∈ r.limits := by
  cases u <;> simp only [apply, limits, SymbolRules.limits, List.mem_cons] at h ⊢ <;> tauto

/-- Filters of two types set fields of their own. -/
theorem apply_comm {u v : Update} (h : u.type = none ∨ u.type ≠ v.type) :
    u.apply (v.apply r) = v.apply (u.apply r) := by
  cases u <;> cases v <;> first | rfl | simp [type] at h

end Update

section

variable [DecimalFromStr] {f g : JsonValue} {r : SymbolRules}

/-- The fields that are read of a filter of some type. -/
def fields : String → List String
  | "LOT_SIZE" | "MARKET_LOT_SIZE" => ["minQty", "maxQty", "stepSize"]
  | "MIN_NOTIONAL" | "NOTIONAL" => ["minNotional"]
  | "PRICE_FILTER" => ["tickSize"]
  | _ => []

/-- The fields that are read of a filter are decimals, where they are texts. -/
def Readable (f : JsonValue) : Prop :=
  ∀ type, filterType f = some type →
    ∀ field ∈ fields type, ∃ limit, parseOptionalFilterDecimal f field = .ok limit

def minNotionalOf (f : JsonValue) : Except ExchangeError (Option Decimal) :=
  parseOptionalFilterDecimal f "minNotional"

/-- What reading a filter does, by its type. -/
inductive Reads (f : JsonValue) : Prop
  | fails (type : filterType f ≠ some "NOTIONAL") (unreadable : ¬ Readable f)
      (ends : ∀ r, (readFilter r f).toOption = none)
  | sets (u : Update) (type : ∀ t, u.type = some t → filterType f = some t)
      (other : filterType f ≠ some "MIN_NOTIONAL" ∧ filterType f ≠ some "NOTIONAL")
      (readable : Readable f) (positive : ∀ limit ∈ u.limits, Positive limit)
      (ends : ∀ r, readFilter r f = .ok (u.apply r))
  | minimum (type : filterType f = some "MIN_NOTIONAL") (readable : Readable f)
      (limit : Option Decimal)
      (found : minNotionalOf f = .ok limit)
      (ends : ∀ r, readFilter r f = .ok { r with minNotional := limit })
  | notional (type : filterType f = some "NOTIONAL")
      (ends : ∀ r, readFilter r f = if r.minNotional.isNone then
        (minNotionalOf f).map fun limit => { r with minNotional := limit } else .ok r)

theorem parseOptionalFilterDecimal_positive {field : String} {limit : Option Decimal}
    (h : parseOptionalFilterDecimal f field = .ok limit) : Positive limit := by
  unfold parseOptionalFilterDecimal at h
  split at h
  · obtain ⟨value, _, hvalue⟩ := bind_ok.mp h
    intro d hd
    rw [← Except.ok.inj hvalue] at hd
    simpa using (Option.mem_filter_iff.mp hd).2
  · intro d hd
    rw [← Except.ok.inj h] at hd
    cases hd

theorem readable_of {type : String} (htype : filterType f = some type)
    (h : ∀ field ∈ fields type, ∃ limit, parseOptionalFilterDecimal f field = .ok limit) :
    Readable f := by
  intro other hother
  rw [htype] at hother
  cases hother
  exact h

theorem unreadable {type field : String} {e : ExchangeError} (htype : filterType f = some type)
    (hfield : field ∈ fields type) (h : parseOptionalFilterDecimal f field = .error e) :
    ¬ Readable f := by
  intro readable
  obtain ⟨limit, hlimit⟩ := readable type htype field hfield
  rw [h] at hlimit
  cases hlimit

/-- A filter of three limits sets what it is made of, or fails. -/
theorem reads_three {type : String} {make : Option Decimal → Option Decimal → Option Decimal → Update}
    (htype : filterType f = some type) (hfields : fields type = ["minQty", "maxQty", "stepSize"])
    (hmake : ∀ a b c, (make a b c).type = some type ∧ (make a b c).limits = [a, b, c])
    (other : type ≠ "MIN_NOTIONAL" ∧ type ≠ "NOTIONAL")
    (ends : ∀ r, readFilter r f = do
      let minQty ← parseOptionalFilterDecimal f "minQty"
      let maxQty ← parseOptionalFilterDecimal f "maxQty"
      let stepSize ← parseOptionalFilterDecimal f "stepSize"
      return (make minQty maxQty stepSize).apply r) : Reads f := by
  have hother : filterType f ≠ some "MIN_NOTIONAL" ∧ filterType f ≠ some "NOTIONAL" := by
    rw [htype]
    simpa using other
  cases hmin : parseOptionalFilterDecimal f "minQty" with
  | error e =>
    refine .fails hother.2 (unreadable htype (by simp [hfields]) hmin) fun r => ?_
    rw [ends, hmin]
    rfl
  | ok minQty =>
    cases hmax : parseOptionalFilterDecimal f "maxQty" with
    | error e =>
      refine .fails hother.2 (unreadable htype (by simp [hfields]) hmax) fun r => ?_
      rw [ends, hmin, hmax]
      rfl
    | ok maxQty =>
      cases hstep : parseOptionalFilterDecimal f "stepSize" with
      | error e =>
        refine .fails hother.2 (unreadable htype (by simp [hfields]) hstep) fun r => ?_
        rw [ends, hmin, hmax, hstep]
        rfl
      | ok stepSize =>
        have readable : Readable f := by
          apply readable_of htype
          rw [hfields]
          simp [hmin, hmax, hstep]
        refine .sets (make minQty maxQty stepSize) (fun t ht => ?_) hother readable ?_ fun r => ?_
        · rw [htype, ← ht, (hmake minQty maxQty stepSize).1]
        · rw [(hmake minQty maxQty stepSize).2]
          simp [parseOptionalFilterDecimal_positive hmin, parseOptionalFilterDecimal_positive hmax,
            parseOptionalFilterDecimal_positive hstep]
        · rw [ends, hmin, hmax, hstep]
          rfl

theorem reads (f : JsonValue) : Reads f := by
  by_cases hlot : filterType f = some "LOT_SIZE"
  · exact @reads_three _ f "LOT_SIZE" .lot hlot rfl (fun _ _ _ => ⟨rfl, rfl⟩) (by decide) fun r => by
      simp only [readFilter, hlot]
      rfl
  by_cases hmarket : filterType f = some "MARKET_LOT_SIZE"
  · exact @reads_three _ f "MARKET_LOT_SIZE" .marketLot hmarket rfl (fun _ _ _ => ⟨rfl, rfl⟩) (by decide)
      fun r => by
        simp only [readFilter, hmarket]
        rfl
  by_cases hmin : filterType f = some "MIN_NOTIONAL"
  · cases hread : minNotionalOf f with
    | error e =>
      refine .fails (by simp [hmin]) (unreadable hmin (by simp [fields]) hread) fun r => ?_
      simp only [readFilter, hmin]
      rw [minNotionalOf] at hread
      rw [hread]
      rfl
    | ok limit =>
      have readable : Readable f := readable_of hmin (by simpa [fields] using ⟨limit, hread⟩)
      refine .minimum hmin readable limit hread fun r => ?_
      simp only [readFilter, hmin]
      rw [minNotionalOf] at hread
      rw [hread]
      rfl
  by_cases hnotional : filterType f = some "NOTIONAL"
  · refine .notional hnotional fun r => ?_
    simp only [readFilter, hnotional]
    split_ifs
    · rw [minNotionalOf]
      cases parseOptionalFilterDecimal f "minNotional" <;> rfl
    · rfl
  by_cases hprice : filterType f = some "PRICE_FILTER"
  · cases hread : parseOptionalFilterDecimal f "tickSize" with
    | error e =>
      refine .fails hnotional (unreadable hprice (by simp [fields]) hread) fun r => ?_
      simp only [readFilter, hprice]
      rw [hread]
      rfl
    | ok limit =>
      have readable : Readable f := readable_of hprice (by simp [fields, hread])
      refine .sets (.tick limit) (fun t ht => ?_) ⟨hmin, hnotional⟩ readable ?_ fun r => ?_
      · rw [hprice, ← ht]
        rfl
      · simp [Update.limits, parseOptionalFilterDecimal_positive hread]
      · simp only [readFilter, hprice]
        rw [hread]
        rfl
  · have readable : Readable f := by
      intro type htype field hfield
      unfold fields at hfield
      split at hfield
      · exact absurd htype hlot
      · exact absurd htype hmarket
      · exact absurd htype hmin
      · exact absurd htype hnotional
      · exact absurd htype hprice
      · cases hfield
    refine .sets .nothing (fun t ht => by cases ht) ⟨hmin, hnotional⟩ readable ?_ fun r => ?_
    · intro limit hlimit
      cases hlimit
    unfold readFilter
    split
    · exact absurd ‹_› hlot
    · exact absurd ‹_› hmarket
    · exact absurd ‹_› hmin
    · exact absurd ‹_› hnotional
    · exact absurd ‹_› hprice
    · rfl

def filterTypes : List String :=
  ["LOT_SIZE", "MARKET_LOT_SIZE", "MIN_NOTIONAL", "NOTIONAL", "PRICE_FILTER"]

/-- Two filters that are not both of one type that is read. -/
def Apart (f g : JsonValue) : Prop :=
  ∀ type ∈ filterTypes, filterType f = some type → filterType g ≠ some type

omit [DecimalFromStr] in
theorem Apart.symm (h : Apart f g) : Apart g f := fun type htype hg hf => h type htype hf hg

/-- Both filters of the minimal notional carry one, or both carry none, or the one that may be
skipped can be read and adds nothing. -/
def Settled (minimum notional : JsonValue) : Prop :=
  match minNotionalOf minimum, minNotionalOf notional with
  | .ok none, .ok (some _) => False
  | .ok (some _), .error _ => False
  | _, _ => True

/-- At most one filter of each type is left, and where both that feed the minimal notional
are, it is unset and their order does not matter. -/
structure Orderly (r : SymbolRules) (filters : List JsonValue) : Prop where
  once : filters.Pairwise Apart
  settled {minimum notional : JsonValue} : minimum ∈ filters → notional ∈ filters →
    filterType minimum = some "MIN_NOTIONAL" → filterType notional = some "NOTIONAL" →
      r.minNotional = none ∧ Settled minimum notional

theorem Orderly.perm {filters others : List JsonValue} (hperm : filters.Perm others)
    (h : Orderly r filters) : Orderly r others where
  once := (hperm.pairwise_iff fun hfg => Apart.symm hfg).mp h.once
  settled hmin hnot := h.settled (hperm.mem_iff.mpr hmin) (hperm.mem_iff.mpr hnot)

theorem readFilter_minNotional {next : SymbolRules} (h : readFilter r f = .ok next)
    (hmin : filterType f ≠ some "MIN_NOTIONAL") (hnot : filterType f ≠ some "NOTIONAL") :
    next.minNotional = r.minNotional := by
  cases reads f with
  | fails type unreadable ends =>
    have hnone := ends r
    rw [h] at hnone
    cases hnone
  | sets u _ _ _ _ ends =>
    rw [ends] at h
    rw [← Except.ok.inj h, Update.minNotional_apply]
  | minimum type => exact absurd type hmin
  | notional type => exact absurd type hnot

theorem Orderly.next {filters : List JsonValue} {next : SymbolRules} (h : Orderly r (f :: filters))
    (hread : readFilter r f = .ok next) : Orderly next filters where
  once := (List.pairwise_cons.mp h.once).2
  settled {minimum notional} hmin hnot tmin tnot := by
    obtain ⟨hunset, hsettled⟩ :=
      h.settled (List.mem_cons_of_mem f hmin) (List.mem_cons_of_mem f hnot) tmin tnot
    have apart := (List.pairwise_cons.mp h.once).1
    have fmin : filterType f ≠ some "MIN_NOTIONAL" := fun hf =>
      apart minimum hmin "MIN_NOTIONAL" (by decide) hf tmin
    have fnot : filterType f ≠ some "NOTIONAL" := fun hf =>
      apart notional hnot "NOTIONAL" (by decide) hf tnot
    exact ⟨(readFilter_minNotional hread fmin fnot).trans hunset, hsettled⟩

theorem bind_fails {x : Except ExchangeError SymbolRules}
    (h : ∀ r, (readFilter r f).toOption = none) :
    (x >>= fun c => readFilter c f).toOption = none := by
  rw [toOption_bind]
  cases x with
  | error e => rfl
  | ok c => exact h c

/-- A filter that fails fails in either order. -/
theorem fails_swap (hf : ∀ r, (readFilter r f).toOption = none) :
    (readFilter r f >>= fun c => readFilter c g).toOption =
      (readFilter r g >>= fun c => readFilter c f).toOption := by
  rw [bind_fails hf, toOption_bind, hf]
  rfl

/-- A filter that feeds another field is exchanged with any. -/
theorem sets_swap {u : Update} (type : ∀ t, u.type = some t → filterType f = some t)
    (ends : ∀ r, readFilter r f = .ok (u.apply r)) (apart : Apart f g) :
    (readFilter r f >>= fun c => readFilter c g).toOption =
      (readFilter r g >>= fun c => readFilter c f).toOption := by
  cases reads g with
  | fails _ _ fails => exact (fails_swap fails).symm
  | sets v htype _ _ _ hends =>
    have hcomm : v.apply (u.apply r) = u.apply (v.apply r) := by
      apply Update.apply_comm
      cases hv : v.type with
      | none => exact .inl rfl
      | some t =>
        right
        intro hu
        have hmem : t ∈ filterTypes := by
          cases v <;> cases hv <;> decide
        exact apart t hmem (type t hu.symm) (htype t hv)
    rw [ends, hends]
    show (readFilter (u.apply r) g).toOption = (readFilter (v.apply r) f).toOption
    rw [ends, hends, hcomm]
  | minimum _ _ limit _ hends =>
    rw [ends, hends]
    show (readFilter (u.apply r) g).toOption =
      (readFilter { r with minNotional := limit } f).toOption
    rw [ends, hends]
    cases u <;> rfl
  | notional _ hends =>
    rw [ends, hends]
    show (readFilter (u.apply r) g).toOption = _
    rw [hends, Update.minNotional_apply]
    split_ifs
    · cases minNotionalOf g with
      | error e => rfl
      | ok limit =>
        show some _ = (readFilter { r with minNotional := limit } f).toOption
        rw [ends]
        cases u <;> rfl
    · show _ = (readFilter r f).toOption
      rw [ends]

/-- The two that feed the minimal notional are exchanged where they are settled. -/
theorem notional_swap {limit : Option Decimal} (found : minNotionalOf f = .ok limit)
    (sets : ∀ r, readFilter r f = .ok { r with minNotional := limit })
    (ends : ∀ r, readFilter r g = if r.minNotional.isNone then
      (minNotionalOf g).map fun limit => { r with minNotional := limit } else .ok r)
    (hunset : r.minNotional = none) (hsettled : Settled f g) :
    (readFilter r f >>= fun c => readFilter c g).toOption =
      (readFilter r g >>= fun c => readFilter c f).toOption := by
  rw [sets, ends r, hunset]
  show (readFilter { r with minNotional := limit } g).toOption = _
  rw [ends]
  rw [Settled, found] at hsettled
  cases hread : minNotionalOf g with
  | error e =>
    cases limit with
    | none => rfl
    | some d =>
      rw [hread] at hsettled
      exact hsettled.elim
  | ok other =>
    show _ = (readFilter { r with minNotional := other } f).toOption
    rw [sets]
    cases limit with
    | some d => rfl
    | none =>
      cases other with
      | none => rfl
      | some d =>
        rw [hread] at hsettled
        exact hsettled.elim

theorem Orderly.swap {filters : List JsonValue} (h : Orderly r (f :: g :: filters)) :
    (readFilter r f >>= fun c => readFilter c g).toOption =
      (readFilter r g >>= fun c => readFilter c f).toOption := by
  have apart : Apart f g := (List.pairwise_cons.mp h.once).1 g List.mem_cons_self
  have hf : f ∈ f :: g :: filters := List.mem_cons_self
  have hg : g ∈ f :: g :: filters := List.mem_cons_of_mem f List.mem_cons_self
  cases reads f with
  | fails _ _ fails => exact fails_swap fails
  | sets u type _ _ _ ends => exact sets_swap type ends apart
  | minimum type _ limit found ends =>
    cases reads g with
    | fails _ _ fails => exact (fails_swap fails).symm
    | sets u gtype _ _ _ gends => exact (sets_swap gtype gends apart.symm).symm
    | minimum gtype => exact absurd gtype (apart _ (by decide) type)
    | notional gtype gends =>
      obtain ⟨hunset, hsettled⟩ := h.settled hf hg type gtype
      exact notional_swap found ends gends hunset hsettled
  | notional type ends =>
    cases reads g with
    | fails _ _ fails => exact (fails_swap fails).symm
    | sets u gtype _ _ _ gends => exact (sets_swap gtype gends apart.symm).symm
    | minimum gtype _ limit found gends =>
      obtain ⟨hunset, hsettled⟩ := h.settled hg hf gtype type
      exact (notional_swap found gends ends hunset hsettled).symm
    | notional gtype => exact absurd gtype (apart _ (by decide) type)

end

end Binance

end QuantForge
