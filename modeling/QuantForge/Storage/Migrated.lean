import QuantForge.Storage.Migrate

namespace QuantForge.Migrate

variable {D R : Type}

/-- The version a store records, which a pass reads under its lock. -/
def found [Catalog D] (backend : Backend) (s : SchemaStore D) : Except Failure UInt32 :=
  (currentVersion backend).eval s

def SchemaStore.rows (s : SchemaStore D) : List MigrationRow := s.log.getD []

/-- A log whose rows lead one from another up to a version, or an empty one. -/
inductive LogEndsAt : List MigrationRow → UInt32 → Prop
  | nil (v : UInt32) : LogEndsAt [] v
  | snoc {rows : List MigrationRow} {row : MigrationRow} (before : LogEndsAt rows row.fromVersion)
      (rises : row.fromVersion < row.version) : LogEndsAt (rows ++ [row]) row.version

/-- The steps that lead from one version to another, in order. -/
def StepChain.between (c : StepChain D R) (v w : UInt32) : List (Step D R) :=
  c.steps.filter fun step => v < step.toVersion ∧ step.toVersion ≤ w

/-- All statements of the steps, on the tables other than `meta` and the log. -/
def Applies (steps : List (Step D R)) : D → D → Prop :=
  Passes.Ran (fun (change : Change D R) (hand : Hand R) d => change.onTables hand d)
    (steps.flatMap (·.apply))

/-- One commit of the chain: the step that leaves version `v`, or every step of a
store without a schema, each once, with the version it leads to and one row of
the log. -/
structure Commits (c : StepChain D R) (quantforgeVersion : String) (s t : SchemaStore D)
    (v w : UInt32) : Prop where
  next : v = 0 ∧ w = c.target ∨ v ≠ 0 ∧ w = v + 1
  rises : v < w
  within : w ≤ c.target
  leaves : v ≠ 0 → (c.between v w).map (·.toVersion) = [w]
  applied : Applies (c.between v w) s.tables t.tables
  stamped : t.recorded = some (some (toString w.toNat))
  logged : ∃ appliedAtMs, t.rows = s.rows ++ [⟨w, v, appliedAtMs, quantforgeVersion⟩]
  schema : t.schema = s.schema

/-- The log's rows from one version to another: one row from 0 for a store
created fresh, and else one for each step. -/
def StepChain.leaps (c : StepChain D R) (v w : UInt32) : List (UInt32 × UInt32) :=
  if v = 0 then (if w = 0 then [] else [(0, w)])
  else (c.between v w).map fun step => (step.toVersion - 1, step.toVersion)

/-- A store brought from one version to another: each step between them is applied
once and in order, and the log says so. -/
structure Migrated (c : StepChain D R) (s t : SchemaStore D) (v w : UInt32) : Prop where
  rises : v ≤ w
  fresh : v = 0 → w = 0 ∨ w = c.target
  applied : Applies (c.between v w) s.tables t.tables
  logged : ∃ rows, t.rows = s.rows ++ rows ∧
    rows.map (fun row => (row.fromVersion, row.version)) = c.leaps v w

theorem readVersion_toString (v : UInt32) : readVersion (toString v.toNat) = .ok v := by
  have digits : (toString v.toNat).toList = Nat.toDigits 10 v.toNat := Nat.toList_repr
  have all : (Nat.toDigits 10 v.toNat).all Char.isDigit = true := by
    rw [List.all_eq_true]
    exact fun c hc => Nat.isDigit_of_mem_toDigits (by omega) (by omega) hc
  have parsed : parseDigits (Nat.toDigits 10 v.toNat) = some v := by
    have small : v.toNat < 2 ^ 32 := v.toNat_lt
    simp only [parseDigits, Nat.ofDigitChars_ten_toDigits, if_pos small, UInt32.ofNat_toNat]
    rw [if_pos ⟨Nat.toDigits_ne_nil, all⟩]
  have unsigned : ∀ rest, Nat.toDigits 10 v.toNat ≠ '+' :: rest := by
    intro rest plus
    rw [plus, List.all_cons] at all
    simp at all
  have read : parseU32 (toString v.toNat) = some v := by
    unfold parseU32
    rw [digits]
    split
    · exact absurd ‹_› (unsigned _)
    · exact parsed
  rw [readVersion, read]

section

variable {build : String} {hand : Hand R} {s t u : SchemaStore D} {v w : UInt32}

theorem createTable_ok {α : Type} {name : String} {ifNotExists : Bool} {fresh : α}
    {before after : Option α} (h : createTable name ifNotExists fresh before = .ok after) :
    after.getD fresh = before.getD fresh := by
  cases before with
  | none =>
    cases h
    rfl
  | some table =>
    rw [createTable] at h
    split at h <;> cases h
    rfl

/-- A change shows on the tables as it does there, and logs nothing. -/
theorem change_ok {c : Change D R} (h : c.execute hand s = .ok t) :
    c.onTables hand s.tables = .ok t.tables ∧ t.rows = s.rows ∧ t.schema = s.schema := by
  cases c with
  | createMeta ifNotExists =>
    obtain ⟨recorded, created, left⟩ := bind_ok.mp h
    cases left
    exact ⟨rfl, rfl, rfl⟩
  | createLog ifNotExists =>
    obtain ⟨log, created, left⟩ := bind_ok.mp h
    cases left
    exact ⟨rfl, createTable_ok created, rfl⟩
  | run statement =>
    rw [Change.execute] at h
    split at h
    · rename_i tables ran
      cases h
      exact ⟨ran, rfl, rfl⟩
    · cases h

theorem changes_ran {changes : List (Change D R)}
    (h : Passes.Ran (fun v hand s => Work.execute build hand s v)
      (changes.map (Work.change (D := D) (R := R))) s t) :
    Passes.Ran (fun (change : Change D R) (hand : Hand R) d => change.onTables hand d) changes
        s.tables t.tables ∧
      t.rows = s.rows ∧ t.schema = s.schema := by
  refine ⟨h.part (g := SchemaStore.tables) fun c hand s t ran => (change_ok ran).1, ?_⟩
  induction changes using List.reverseRecOn generalizing t with
  | nil =>
    rw [h.of_nil]
    exact ⟨rfl, rfl⟩
  | append_singleton changes c ih =>
    rw [List.map_append, List.map_singleton] at h
    obtain ⟨hand, m, before, ran⟩ := h.of_snoc
    obtain ⟨rows, schema⟩ := ih before
    have last := change_ok (c := c) ran
    exact ⟨last.2.1.trans rows, last.2.2.trans schema⟩

theorem recordVersion_ok (h : (Work.recordVersion w : Work D R).execute build hand s = .ok t) :
    t = { s with recorded := some (some (toString w.toNat)) } := by
  rw [Work.execute] at h
  split at h <;> cases h
  rfl

theorem logStep_ok (h : (Work.logStep v w : Work D R).execute build hand s = .ok t) :
    ∃ appliedAtMs, t.rows = s.rows ++ [⟨w, v, appliedAtMs, build⟩] ∧ t.recorded = s.recorded ∧
      t.tables = s.tables ∧ t.schema = s.schema := by
  rw [Work.execute] at h
  split at h
  · cases h
  · rename_i rows held
    split at h <;> cases h
    exact ⟨hand.nowMs, by simp [SchemaStore.rows, held], rfl, rfl, rfl⟩

theorem columns_ok (h : (Work.columns v w : Work D R).execute build hand s = .ok t) : t = s := by
  rw [Work.execute] at h
  split at h <;> cases h
  rfl

theorem createLog_ok (h : (Work.change (.createLog true) : Work D R).execute build hand s = .ok t) :
    t.rows = s.rows ∧ t.recorded = s.recorded ∧ t.tables = s.tables ∧ t.schema = s.schema := by
  obtain ⟨log, created, left⟩ := bind_ok.mp h
  cases left
  exact ⟨createTable_ok created, rfl, rfl, rfl⟩

/-- A stamp records the version and logs one row, and changes nothing else. -/
theorem stamp_ran {backend : Backend}
    (h : Passes.Ran (fun (v : Work D R) hand s => Work.execute build hand s v)
      (stamp v w backend) s t) :
    t.recorded = some (some (toString w.toNat)) ∧ t.tables = s.tables ∧ t.schema = s.schema ∧
      ∃ appliedAtMs, t.rows = s.rows ++ [⟨w, v, appliedAtMs, build⟩] := by
  cases backend with
  | sqlite =>
    obtain ⟨hand₃, s₂, before₂, third⟩ := @Passes.Ran.of_snoc _ _ _ _ _ _ _ [_, _] _ h
    obtain ⟨hand₂, s₁, before₁, second⟩ := @Passes.Ran.of_snoc _ _ _ _ _ _ _ [_] _ before₂
    obtain ⟨hand₁, s₀, before₀, first⟩ := @Passes.Ran.of_snoc _ _ _ _ _ _ _ [] _ before₁
    have start := before₀.of_nil
    have recorded := recordVersion_ok first
    obtain ⟨rows₂, recorded₂, tables₂, schema₂⟩ := createLog_ok second
    obtain ⟨at₃, rows₃, recorded₃, tables₃, schema₃⟩ := logStep_ok third
    subst start recorded
    refine ⟨recorded₃.trans recorded₂, tables₃.trans tables₂, schema₃.trans schema₂, at₃, ?_⟩
    rw [rows₃, rows₂]
    rfl
  | postgres =>
    obtain ⟨hand₃, s₂, before₂, third⟩ := @Passes.Ran.of_snoc _ _ _ _ _ _ _ [_, _] _ h
    obtain ⟨hand₂, s₁, before₁, second⟩ := @Passes.Ran.of_snoc _ _ _ _ _ _ _ [_] _ before₂
    obtain ⟨hand₁, s₀, before₀, first⟩ := @Passes.Ran.of_snoc _ _ _ _ _ _ _ [] _ before₁
    have start := before₀.of_nil
    have same := columns_ok first
    have recorded := recordVersion_ok second
    obtain ⟨at₃, rows₃, recorded₃, tables₃, schema₃⟩ := logStep_ok third
    subst start same recorded
    exact ⟨recorded₃, tables₃, schema₃, at₃, rows₃⟩

end

/-- Sorted steps up to one version, and from there on. -/
theorem between_append (c : StepChain D R) {v m w : UInt32} (first : v ≤ m) (rest : m ≤ w) :
    c.between v w = c.between v m ++ c.between m w := by
  have ascending := c.ascending
  unfold StepChain.between
  revert ascending
  induction c.steps with
  | nil => exact fun _ => rfl
  | cons step steps ih =>
    intro ascending
    obtain ⟨after, sorted⟩ := List.pairwise_cons.mp ascending
    by_cases early : step.toVersion ≤ m
    · have late : ¬ m < step.toVersion := by grind
      have low : step.toVersion ≤ w := by grind
      simp only [List.filter_cons, early, late, low, and_true, decide_false,
        Bool.false_eq_true, if_false]
      by_cases mine : v < step.toVersion
      · simp only [mine, decide_true, if_true, List.cons_append, ih sorted]
      · simp only [mine, decide_false, Bool.false_eq_true, if_false, ih sorted]
    · have none : ∀ (l : List (Step D R)), (∀ x ∈ l, step.toVersion < x.toVersion) →
          l.filter (fun x => decide (v < x.toVersion ∧ x.toVersion ≤ m)) = [] := by
        intro l above
        rw [List.filter_eq_nil_iff]
        intro x hx within
        have higher := above x hx
        simp only [decide_eq_true_eq] at within
        grind
      have late : m < step.toVersion := by grind
      have mine : v < step.toVersion := by grind
      have rest := ih sorted
      rw [none steps after, List.nil_append] at rest
      simp only [List.filter_cons, early, late, mine, and_false, true_and, decide_false,
        Bool.false_eq_true, if_false, none steps after, List.nil_append, rest]

theorem between_all (c : StepChain D R) : c.between 0 c.target = c.steps :=
  List.filter_eq_self.mpr fun step h => by simpa using ⟨c.positive step h, c.within step h⟩

/-- The one step that leaves a version. -/
theorem between_next {c : StepChain D R} {v : UInt32} {step : Step D R} (below : v < c.target)
    (leaves : c.steps.find? (·.toVersion = v + 1) = some step) :
    step.toVersion = v + 1 ∧ c.between v (v + 1) = [step] := by
  have version : step.toVersion = v + 1 := by simpa using List.find?_some leaves
  refine ⟨version, ?_⟩
  have same : ∀ x : Step D R, (decide (v < x.toVersion ∧ x.toVersion ≤ v + 1)) =
      decide (x.toVersion = v + 1) := by
    intro x
    rw [decide_eq_decide]
    grind
  have ascending := c.ascending
  rw [StepChain.between, List.filter_congr fun x _ => same x]
  revert ascending leaves
  induction c.steps with
  | nil =>
    intro leaves
    cases leaves
  | cons first steps ih =>
    intro leaves ascending
    obtain ⟨after, sorted⟩ := List.pairwise_cons.mp ascending
    by_cases here : first.toVersion = v + 1
    · rw [List.find?_cons_of_pos (by simpa using here)] at leaves
      cases leaves
      rw [List.filter_cons_of_pos (by simpa using here), List.filter_eq_nil_iff.mpr]
      intro x hx
      have higher := after x hx
      rw [here] at higher
      simp only [decide_eq_true_eq]
      exact fun equal => absurd (equal ▸ higher) (by grind)
    · rw [List.find?_cons_of_neg (by simpa using here)] at leaves
      rw [List.filter_cons_of_neg (by simpa using here)]
      exact ih leaves sorted

section

variable [Catalog D]

/-- A stamped store records its stamp, on either backend. -/
theorem found_stamped {s t : SchemaStore D} {backend : Backend} {v w : UInt32}
    (before : found backend s = .ok v) (schema : t.schema = s.schema)
    (stamped : t.recorded = some (some (toString w.toNat))) : found backend t = .ok w := by
  cases backend with
  | sqlite =>
    simp only [found, currentVersion, Reads.eval, stamped]
    exact readVersion_toString w
  | postgres =>
    cases named : s.schema with
    | none =>
      simp only [found, currentVersion, Reads.eval, named] at before
      cases before
    | some name =>
      have listed : "meta" ∈ ours t := by
        simp [ours, stamped, TABLES]
      simp only [found, currentVersion, Reads.eval, schema, named, listed, not_true_eq_false,
        if_false, stamped]
      exact readVersion_toString w

variable {backend : Backend} {c : StepChain D R} {build : String} {s t start : SchemaStore D}
  {v w : UInt32}

theorem look_eval : (ensureCurrent backend c build).look.eval s =
    (found backend s).bind (pass backend c) := Reads.eval_map _ _ _

omit [Catalog D] in
/-- The statements of a pass with something to do: those of the steps up to the
next version, and the stamp's. -/
theorem pass_works {works : List (Work D R)} (h : pass backend c v = .ok (some works)) :
    ∃ w, (v = 0 ∧ w = c.target ∨ v ≠ 0 ∧ w = v + 1) ∧ v < w ∧ w ≤ c.target ∧
      (v ≠ 0 → (c.between v w).map (·.toVersion) = [w]) ∧
      works = ((c.between v w).flatMap (·.apply)).map .change ++ stamp v w backend := by
  by_cases current : v = c.target
  · rw [pass, if_pos current] at h
    cases h
  by_cases newer : c.target < v
  · rw [pass, if_neg current, if_pos newer] at h
    cases h
  have below : v < c.target := by grind
  by_cases blank : v = 0
  · rw [pass, if_neg current, if_neg newer, if_pos blank] at h
    cases h
    subst blank
    refine ⟨c.target, .inl ⟨rfl, rfl⟩, below, UInt32.le_refl _, fun used => absurd rfl used, ?_⟩
    rw [between_all]
  · cases leaves : c.steps.find? (·.toVersion = v + 1) with
    | none =>
      rw [pass, if_neg current, if_neg newer, if_neg blank, leaves] at h
      cases h
    | some step =>
      rw [pass, if_neg current, if_neg newer, if_neg blank, leaves] at h
      cases h
      obtain ⟨version, only⟩ := between_next below leaves
      refine ⟨v + 1, .inr ⟨blank, rfl⟩, by grind, by grind, fun _ => ?_, ?_⟩
      · rw [only, List.map_singleton, version]
      · rw [only, List.flatMap_singleton, version]

/-- What a whole pass is: one commit of the chain. -/
theorem advanced_commits (h : (ensureCurrent backend c build).Advanced s t) :
    ∃ v w, found backend s = .ok v ∧ found backend t = .ok w ∧ Commits c build s t v w := by
  obtain ⟨works, looked, ran⟩ := h
  rw [look_eval] at looked
  obtain ⟨v, read, passed⟩ := bind_ok.mp looked
  obtain ⟨w, next, rises, within, leaves, rfl⟩ := pass_works passed
  obtain ⟨m, changed, stamped⟩ := ran.of_append
  obtain ⟨applied, rows, schema⟩ := changes_ran changed
  obtain ⟨recorded, tables, schema', appliedAtMs, logged⟩ := stamp_ran stamped
  have named := schema'.trans schema
  rw [rows] at logged
  have whole : Applies (c.between v w) s.tables t.tables := by
    rw [tables]
    exact applied
  exact ⟨v, w, read, found_stamped read named recorded, next, rises, within, leaves, whole, recorded,
    ⟨appliedAtMs, logged⟩, named⟩

omit [Catalog D] in
theorem migrated_refl : Migrated c s s v v := by
  have none : c.between v v = [] := by
    rw [StepChain.between, List.filter_eq_nil_iff]
    intro step _ within
    simp only [decide_eq_true_eq] at within
    grind
  refine ⟨UInt32.le_refl v, .inl, ?_, [], (List.append_nil _).symm, ?_⟩
  · rw [none]
    exact .nil
  · rw [StepChain.leaps, none]
    split_ifs <;> rfl

omit [Catalog D] in
theorem migrated_step {u : SchemaStore D} {m : UInt32} (before : Migrated c s t v m)
    (commit : Commits c build t u m w) : Migrated c s u v w := by
  have split := between_append c before.rises (UInt32.le_of_lt commit.rises)
  obtain ⟨rows, logged, leaps⟩ := before.logged
  obtain ⟨appliedAtMs, row⟩ := commit.logged
  have rises := commit.rises
  have within := commit.within
  refine ⟨UInt32.le_trans before.rises (UInt32.le_of_lt rises), fun blank => ?_, ?_, _,
    by rw [row, logged, List.append_assoc], ?_⟩
  · obtain zero | done := before.fresh blank
    · obtain ⟨-, all⟩ | ⟨used, -⟩ := commit.next
      · exact .inr all
      · exact absurd zero used
    · grind
  · rw [split, Applies, List.flatMap_append]
    exact before.applied.append commit.applied
  · rw [List.map_append, leaps, List.map_singleton]
    by_cases blank : v = 0
    · have zero : m = 0 := by
        obtain zero | done := before.fresh blank
        · exact zero
        · grind
      have some : w ≠ 0 := by grind
      simp only [StepChain.leaps, if_pos blank, zero, if_true, if_neg some, List.nil_append]
    · have used : m ≠ 0 := by
        have low := before.rises
        grind
      obtain ⟨zero, -⟩ | ⟨-, next⟩ := commit.next
      · exact absurd zero used
      · have one := congrArg (List.map fun (version : UInt32) => (version - 1, version)) (commit.leaves used)
        rw [List.map_map, List.map_singleton] at one
        have from_ : w - 1 = m := by grind
        rw [from_] at one
        rw [StepChain.leaps, StepChain.leaps, if_neg blank, if_neg blank, split, List.map_append, ← one]
        rfl

/-- A store whose version can be read is brought forward step by step. -/
theorem advances_migrated
    (h : Relation.ReflTransGen (ensureCurrent backend c build).Advanced start t)
    (read : found backend start = .ok v) :
    ∃ w, found backend t = .ok w ∧ Migrated c start t v w := by
  induction h with
  | refl => exact ⟨v, read, migrated_refl⟩
  | tail _ one ih =>
    obtain ⟨m, readM, before⟩ := ih
    obtain ⟨m', w, readM', readW, commit⟩ := advanced_commits one
    rw [readM] at readM'
    cases readM'
    exact ⟨w, readW, migrated_step before commit⟩

/-- A log that ends at the version a store records. -/
def LogEnds (backend : Backend) (s : SchemaStore D) : Prop :=
  ∀ v, found backend s = .ok v → LogEndsAt s.rows v

theorem advances_log (h : Relation.ReflTransGen (ensureCurrent backend c build).Advanced start t)
    (ends : LogEnds backend start) : LogEnds backend t := by
  induction h with
  | refl => exact ends
  | tail _ one ih =>
    obtain ⟨m, w, readM, readW, commit⟩ := advanced_commits one
    intro w' read
    rw [readW] at read
    cases read
    obtain ⟨appliedAtMs, row⟩ := commit.logged
    have before := ih m readM
    rw [row]
    exact @LogEndsAt.snoc _ ⟨w, m, appliedAtMs, build⟩ before commit.rises

/-- How far a store is from the chain's end. -/
def behind (backend : Backend) (c : StepChain D R) (s : SchemaStore D) : Nat :=
  match found backend s with
  | .ok v => c.target.toNat - v.toNat
  | .error _ => 0

/-- All statements of the chain's steps, and a stamp's three. -/
def StepChain.statements (c : StepChain D R) : Nat := (c.steps.flatMap (·.apply)).length + 3

theorem currentVersion_cost : (currentVersion backend).cost s ≤ 3 := by
  rcases version : s.recorded with none | none | value
  all_goals
    cases backend with
    | sqlite =>
      simp only [currentVersion, Reads.cost, version]
      omega
    | postgres =>
      cases named : s.schema with
      | none =>
        simp only [currentVersion, Reads.cost, named]
        omega
      | some name =>
        simp only [currentVersion, Reads.cost, named]
        split_ifs <;> simp only [Reads.cost, version] <;> omega

theorem ensureCurrent_measured :
    (ensureCurrent backend c build).Measured (behind backend c) c.target.toNat 3 c.statements where
  most s := by
    unfold behind
    split <;> omega
  reads s := by
    rw [ensureCurrent, Reads.cost_map]
    exact currentVersion_cost
  works s ws looked := by
    rw [look_eval] at looked
    obtain ⟨v, -, passed⟩ := bind_ok.mp looked
    obtain ⟨w, -, -, -, -, rfl⟩ := pass_works passed
    have fewer : ((c.between v w).flatMap (·.apply)).length ≤ (c.steps.flatMap (·.apply)).length :=
      (List.filter_sublist.flatMap fun step : Step D R => step.apply).length_le
    have stamps : (stamp v w backend : List (Work D R)).length = 3 := by cases backend <;> rfl
    rw [List.length_append, List.length_map, stamps, StepChain.statements]
    omega
  advances s t done := by
    obtain ⟨v, w, readV, readW, commit⟩ := advanced_commits done
    have rises := UInt32.lt_iff_toNat_lt.mp commit.rises
    have within := UInt32.le_iff_toNat_le.mp commit.within
    simp only [behind, readV, readW]
    omega

/-- Tables of ours without a version are not taken for an empty database. -/
theorem found_unversioned (held : ours start ≠ []) (unversioned : start.recorded.join = none) :
    found .postgres start ≠ .ok v := by
  cases named : start.schema with
  | none => simp [found, currentVersion, Reads.eval, named]
  | some name =>
    by_cases listed : "meta" ∈ ours start
    · rcases version : start.recorded with none | none | value
      · simp [found, currentVersion, Reads.eval, named, listed, version]
      · simp [found, currentVersion, Reads.eval, named, listed, version]
      · rw [version] at unversioned
        cases unversioned
    · simp [found, currentVersion, Reads.eval, named, listed, held]

omit [Catalog D] in
theorem pass_done (h : pass backend c v = .ok none) : v = c.target := by
  by_contra apart
  rw [pass, if_neg apart] at h
  by_cases newer : c.target < v
  · rw [if_pos newer] at h
    cases h
  · rw [if_neg newer] at h
    by_cases blank : v = 0
    · rw [if_pos blank] at h
      cases h
    · rw [if_neg blank] at h
      split at h <;> cases h

omit [Catalog D] in
theorem pass_newer {works : List (Work D R)} (newer : c.target < v) :
    pass backend c v ≠ .ok (some works) := by
  intro h
  obtain ⟨w, -, rises, within, -⟩ := pass_works h
  grind

omit [Catalog D] in
theorem pass_unleft {works : List (Work D R)} (used : v ≠ 0)
    (none : ∀ step ∈ c.steps, step.toVersion ≠ v + 1) : pass backend c v ≠ .ok (some works) := by
  intro h
  obtain ⟨w, next, -, -, leaves, -⟩ := pass_works h
  obtain ⟨blank, -⟩ | ⟨-, rfl⟩ := next
  · exact used blank
  · have leads : v + 1 ∈ (c.between v (v + 1)).map (·.toVersion) := by
      rw [leaves used]
      exact List.mem_singleton_self _
    obtain ⟨step, within, version⟩ := List.mem_map.mp leads
    exact none step (List.mem_of_mem_filter within) version

end

/-- Any number of loops over a store, each at its stage, after they and their
surroundings did what they did. -/
def sceneAfter [Catalog D] (backend : Backend) (c : StepChain D R) (build : String)
    (start : SchemaStore D) (ops : List (Crowd.Op Unit (Passes.Choice (Hand R) Failure))) :
    Crowd.Scene (Passes.Shared (SchemaStore D)) (Passes.Stage (SchemaStore D) (Work D R) Failure) :=
  (ensureCurrent backend c build).crowd.machine.run (Passes.fresh start) ops

/-- What any run of loops over a store comes to, and what one more step of any of
them does. -/
structure MigratesInOrder [Catalog D] (backend : Backend) (c : StepChain D R) (build : String)
    (start : SchemaStore D) (ops : List (Crowd.Op Unit (Passes.Choice (Hand R) Failure))) :
    Prop where
  commits (op : Crowd.Op Unit (Passes.Choice (Hand R) Failure)) :
    (sceneAfter backend c build start (ops ++ [op])).world.state =
        (sceneAfter backend c build start ops).world.state ∨
      ∃ v w, found backend (sceneAfter backend c build start ops).world.state = .ok v ∧
        found backend (sceneAfter backend c build start (ops ++ [op])).world.state = .ok w ∧
        Commits c build (sceneAfter backend c build start ops).world.state
          (sceneAfter backend c build start (ops ++ [op])).world.state v w
  migrated {v : UInt32} : found backend start = .ok v →
    ∃ w, found backend (sceneAfter backend c build start ops).world.state = .ok w ∧
      Migrated c start (sceneAfter backend c build start ops).world.state v w
  logged : LogEnds backend (sceneAfter backend c build start ops).world.state
  unreadable {error : Failure} : found backend start = .error error →
    (sceneAfter backend c build start ops).world.state = start
  unversioned : backend = .postgres → ours start ≠ [] → start.recorded.join = none →
    (sceneAfter backend c build start ops).world.state = start
  newer {v : UInt32} : found backend start = .ok v → c.target < v →
    (sceneAfter backend c build start ops).world.state = start
  unleft {v : UInt32} : found backend start = .ok v → v ≠ 0 →
    (∀ step ∈ c.steps, step.toVersion ≠ v + 1) →
    (sceneAfter backend c build start ops).world.state = start
  ends {who : Nat} :
    (sceneAfter backend c build start ops).members[who]? = some (.ended (.ok ())) →
    found backend (sceneAfter backend c build start ops).world.state = .ok c.target
  bounded (who : Nat) :
    (ensureCurrent backend c build).crowd.turns who (Passes.fresh start) ops ≤
      c.target.toNat * (c.statements + 9) + (c.statements + 8)
  onward {who : Nat} {stage : Passes.Stage (SchemaStore D) (Work D R) Failure} (hand : Hand R) :
    (sceneAfter backend c build start ops).members[who]? = some stage → stage.hasEnded = false →
    ∃ actor other, (sceneAfter backend c build start ops).members[actor]? = some other ∧
      ((ensureCurrent backend c build).step actor (other.onward hand)
        (sceneAfter backend c build start ops).world other).isSome = true

section

variable [Catalog D] {backend : Backend} {c : StepChain D R} {build : String}
  {start : SchemaStore D} {v : UInt32}

theorem scene_stays (nothing : ∀ works, (found backend start).bind (pass backend c) ≠ .ok (some works))
    (ops : List (Crowd.Op Unit (Passes.Choice (Hand R) Failure))) :
    (sceneAfter backend c build start ops).world.state = start := by
  apply Passes.nothing_stays
  intro works
  rw [look_eval]
  exact nothing works

theorem unreadable_stays {error : Failure} (unread : found backend start = .error error)
    (ops : List (Crowd.Op Unit (Passes.Choice (Hand R) Failure))) :
    (sceneAfter backend c build start ops).world.state = start := by
  apply scene_stays
  intro works
  rw [unread]
  exact fun h => nomatch h

/-- A loop that ended well ends at the chain's version. -/
theorem ended_current {ops : List (Crowd.Op Unit (Passes.Choice (Hand R) Failure))} {who : Nat}
    (ended : (sceneAfter backend c build start ops).members[who]? = some (.ended (.ok ()))) :
    found backend (sceneAfter backend c build start ops).world.state = .ok c.target := by
  have done := Passes.ended_done start ops ended
  rw [look_eval] at done
  obtain ⟨w, read, passed⟩ := bind_ok.mp done
  rw [pass_done passed] at read
  exact read

end

/-- Each step of the chain is applied once, in order and whole, or not at all,
whatever processes run the chain at once, fail, die or are left unanswered. -/
theorem ensureCurrent_migrates [Catalog D] (backend : Backend) (c : StepChain D R) (build : String)
    {start : SchemaStore D} (logEnds : LogEnds backend start)
    (ops : List (Crowd.Op Unit (Passes.Choice (Hand R) Failure))) :
    MigratesInOrder backend c build start ops := by
  have advanced := Passes.run_advances (L := ensureCurrent backend c build) start ops
  refine ⟨fun op => ?_, advances_migrated advanced, advances_log advanced logEnds,
    fun unread => unreadable_stays unread ops, fun isPostgres held version => ?_,
    fun read newer => ?_, fun read used none => ?_, ended_current, fun who => ?_,
    fun hand here going => Passes.some_onward hand (Passes.run_owned start ops) here going⟩
  · obtain same | one := Relation.reflGen_iff _ _ _ |>.mp
      (Passes.next_advances (L := ensureCurrent backend c build) start ops op)
    · exact .inl same
    · exact .inr (advanced_commits one)
  · subst isPostgres
    cases read : found .postgres start with
    | error error => exact unreadable_stays read ops
    | ok v => exact absurd read (found_unversioned held version)
  · apply scene_stays
    rw [read]
    exact fun works => pass_newer newer
  · apply scene_stays
    rw [read]
    exact fun works => pass_unleft used none
  · have measured : (ensureCurrent backend c build).Measured (behind backend c) c.target.toNat 3
        c.statements := ensureCurrent_measured
    have few := Passes.turns_le measured who start ops
    have sums : 3 + c.statements + 6 = c.statements + 9 := by omega
    rw [sums] at few
    omega

section

@[reducible] def sampleCatalog : Catalog (List String) := ⟨id⟩

attribute [local instance] sampleCatalog

/-- Each statement adds its name to the tables. -/
def sampleSql : SqliteStatements (List String) Unit :=
  let adds (name : String) : Unit → List String → Except String (List String) :=
    fun _ names => .ok (names ++ [name])
  ⟨adds "candles", adds "bot_runs", adds "segment_dirty", adds "marks", adds "identity",
    adds "text ids", adds "store_control", adds "control row"⟩

def sampleStart : SchemaStore (List String) :=
  ⟨none, some (some "3"), none, ["candles", "bot_runs"]⟩

/-- A pass that dies before its commit, one whose commit is not answered, and one
that finishes the chain. -/
def sampleOps : List (Crowd.Op Unit (Passes.Choice (Hand Unit) Failure)) :=
  let goes (who : Nat) : Crowd.Op Unit (Passes.Choice (Hand Unit) Failure) :=
    .acts who (.goes ⟨7, ()⟩)
  [.enters (), .enters (), .enters ()] ++ List.replicate 8 (goes 0) ++ [goes 1] ++
    [.acts 0 (.fails (.failed "killed"))] ++ List.replicate 9 (goes 1) ++
    [.acts 1 (.commits (some (.failed "disk I/O error")))] ++ List.replicate 11 (goes 2) ++
    [.acts 2 (.commits none)] ++ List.replicate 4 (goes 2)

def sampleLeft : Crowd.Scene (Passes.Shared (SchemaStore (List String)))
    (Passes.Stage (SchemaStore (List String)) (Work (List String) Unit) Failure) :=
  sceneAfter .sqlite (sqliteChain sampleSql) "0.3.0" sampleStart sampleOps

/-- A database without a schema, in PostgreSQL. -/
def emptyDatabase : SchemaStore (List String) := ⟨some "public", none, none, []⟩

def sampleChain : StepChain (List String) Unit :=
  postgresChain (fun _ names => .ok (names ++ ["candles", "bot_runs"]))
    (fun _ names => .ok (names ++ ["store_control"]))

/-- Two processes: the connection of one is lost ahead of its commit, and the other
finds nothing of what it did. -/
def twoPasses : List (Crowd.Op Unit (Passes.Choice (Hand Unit) Failure)) :=
  [.enters (), .enters ()] ++ List.replicate 6 (.acts 0 (.goes ⟨7, ()⟩)) ++
    [.acts 0 (.fails (.failed "connection closed"))] ++
    List.replicate 12 (.acts 1 (.goes ⟨8, ()⟩)) ++ [.acts 1 (.commits none)]

def databaseLeft : SchemaStore (List String) :=
  (sceneAfter .postgres sampleChain "0.3.0" emptyDatabase twoPasses).world.state

theorem sampleStart_migrates :
    MigratesInOrder .sqlite (sqliteChain sampleSql) "0.3.0" sampleStart sampleOps ∧
      sampleLeft.world.state.recorded = some (some "5") ∧
      sampleLeft.world.state.rows = [⟨4, 3, 7, "0.3.0"⟩, ⟨5, 4, 7, "0.3.0"⟩] ∧
      sampleLeft.world.state.tables = ["candles", "bot_runs", "segment_dirty", "marks", "identity",
        "text ids", "store_control", "control row"] ∧
      sampleLeft.world.holder = none ∧
    MigratesInOrder .postgres sampleChain "0.3.0" emptyDatabase twoPasses ∧
      databaseLeft.recorded = some (some "5") ∧
      databaseLeft.log = some [⟨5, 0, 8, "0.3.0"⟩] ∧
      databaseLeft.tables = ["candles", "bot_runs", "store_control"] := by
  have logEnds : LogEnds .sqlite sampleStart := fun v _ => .nil v
  have noLog : LogEnds .postgres emptyDatabase := fun v _ => .nil v
  have sqlite := ensureCurrent_migrates .sqlite (sqliteChain sampleSql) "0.3.0" logEnds sampleOps
  have postgres := ensureCurrent_migrates .postgres sampleChain "0.3.0" noLog twoPasses
  have left : sampleLeft.world.state.recorded = some (some "5") ∧
      sampleLeft.world.state.rows = [⟨4, 3, 7, "0.3.0"⟩, ⟨5, 4, 7, "0.3.0"⟩] ∧
      sampleLeft.world.state.tables = ["candles", "bot_runs", "segment_dirty", "marks", "identity",
        "text ids", "store_control", "control row"] ∧
      sampleLeft.world.holder = none := by decide +kernel
  have created : databaseLeft.recorded = some (some "5") ∧
      databaseLeft.log = some [⟨5, 0, 8, "0.3.0"⟩] ∧
      databaseLeft.tables = ["candles", "bot_runs", "store_control"] := by decide +kernel
  exact ⟨sqlite, left.1, left.2.1, left.2.2.1, left.2.2.2, postgres, created⟩

end

end QuantForge.Migrate
