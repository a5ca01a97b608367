import QuantForge.Framework.Table

namespace QuantForge

namespace Table

variable {Row Key E : Type} [LinearOrder Key] {key : Row → Key}

/-- A change of a row that leaves its key. -/
structure Change (key : Row → Key) where
  apply : Row → Row
  keeps : ∀ row, key (apply row) = key row

/-- The rows of a table in another form, with the same keys. -/
def mapRows {Row' : Type} {key' : Row' → Key} (f : Row → Row') (keeps : ∀ row, key' (f row) = key row)
    (t : Table key) : Table key' where
  rows := t.rows.map f
  rising := by
    rw [List.pairwise_map]
    apply t.rising.imp
    intro a b hlt
    rw [keeps, keeps]
    exact hlt

/-- Changes the row of a key, where there is one. -/
def update (t : Table key) (k : Key) (change : Change key) : Table key where
  rows := t.rows.map fun row => if key row = k then change.apply row else row
  rising := by
    have hkey : ∀ row, key (if key row = k then change.apply row else row) = key row := by
      intro row
      by_cases h : key row = k
      · rw [if_pos h, change.keeps]
      · rw [if_neg h]
    rw [List.pairwise_map]
    apply t.rising.imp
    intro a b hlt
    rw [hkey, hkey]
    exact hlt

/-- Goes through rows that were read, and changes the row of each that calls for it. -/
def sweep (plan : Row → Except E (Option (Change key))) (read : List Row) (t : Table key) :
    Except E (Table key) :=
  read.foldlM (fun t row => do
    match ← plan row with
    | some change => return t.update (key row) change
    | none => return t) t

/-- A row after the change that is planned for it. -/
def planned (plan : Row → Except E (Option (Change key))) (row : Row) : Row :=
  match plan row with
  | .ok (some change) => change.apply row
  | _ => row

/-- Rows that call for no change leave the table as it is. -/
theorem sweep_idle {plan : Row → Except E (Option (Change key))} {read : List Row}
    (h : ∀ row ∈ read, plan row = .ok none) (t : Table key) : sweep plan read t = .ok t := by
  induction read with
  | nil => rfl
  | cons first rest ih =>
    rw [sweep, List.foldlM_cons, h first List.mem_cons_self]
    exact ih fun row hrow => h row (List.mem_cons_of_mem first hrow)

theorem sweep_rows {plan : Row → Except E (Option (Change key))} {read : List Row}
    (hread : read.Pairwise fun a b => key a < key b)
    (hplan : ∀ row ∈ read, ∃ change, plan row = .ok change)
    (t : Table key) (ht : ∀ row ∈ t.rows, ∀ other ∈ read, key other = key row → other = row) :
    ∃ done f, sweep plan read t = .ok done ∧ done.rows = t.rows.map f ∧
      (∀ row ∈ t.rows, key row ∈ read.map key → f row = planned plan row) ∧
      ∀ row ∈ t.rows, key row ∉ read.map key → f row = row := by
  induction read generalizing t with
  | nil =>
    refine ⟨t, id, rfl, (List.map_id _).symm, ?_, fun row _ _ => rfl⟩
    intro row _ hmem
    cases hmem
  | cons first rest ih =>
    obtain ⟨hfirst, hrest⟩ := List.pairwise_cons.mp hread
    obtain ⟨change, hchange⟩ := hplan first List.mem_cons_self
    have hlater : ∀ row ∈ rest, ∃ change, plan row = .ok change := fun row hrow =>
      hplan row (List.mem_cons_of_mem first hrow)
    have hapart : key first ∉ rest.map key := by
      intro hmem
      obtain ⟨other, hother, hsame⟩ := List.mem_map.mp hmem
      exact absurd hsame (hfirst other hother).ne'
    cases change with
    | none =>
      have hrows : ∀ row ∈ t.rows, ∀ other ∈ rest, key other = key row → other = row :=
        fun row hrow other hother => ht row hrow other (List.mem_cons_of_mem first hother)
      obtain ⟨done, f, hdone, heq, hin, hout⟩ := ih hrest hlater t hrows
      refine ⟨done, f, ?_, heq, ?_, ?_⟩
      · rw [sweep, List.foldlM_cons, hchange]
        exact hdone
      · intro row hrow hmem
        rw [List.map_cons] at hmem
        cases List.mem_cons.mp hmem with
        | inl hsame =>
          have hself := ht row hrow first List.mem_cons_self hsame.symm
          have hstays : planned plan row = row := by
            rw [planned, ← hself, hchange]
          rw [hstays]
          apply hout row hrow
          rw [hsame]
          exact hapart
        | inr hmem => exact hin row hrow hmem
      · intro row hrow hnot
        exact hout row hrow fun hmem => hnot (List.mem_cons_of_mem (key first) hmem)
    | some change =>
      have hrows : ∀ row ∈ (t.update (key first) change).rows, ∀ other ∈ rest,
          key other = key row → other = row := by
        intro row hrow other hother hkey
        obtain ⟨before, hbefore, hrow⟩ := List.mem_map.mp hrow
        by_cases hsame : key before = key first
        · rw [if_pos hsame] at hrow
          rw [← hrow, change.keeps, hsame] at hkey
          exact absurd hkey (hfirst other hother).ne'
        · rw [if_neg hsame] at hrow
          rw [← hrow] at hkey ⊢
          exact ht before hbefore other (List.mem_cons_of_mem first hother) hkey
      obtain ⟨done, f, hdone, heq, hin, hout⟩ := ih hrest hlater (t.update (key first) change) hrows
      have hupdated : ∀ row ∈ t.rows, (if key row = key first then change.apply row else row) ∈
          (t.update (key first) change).rows := fun row hrow => List.mem_map_of_mem hrow
      refine ⟨done, f ∘ fun row => if key row = key first then change.apply row else row,
        ?_, ?_, ?_, ?_⟩
      · rw [sweep, List.foldlM_cons, hchange]
        exact hdone
      · rw [heq, update, List.map_map]
      · intro row hrow hmem
        have hnow := hupdated row hrow
        rw [Function.comp_apply]
        by_cases hsame : key row = key first
        · have hself := ht row hrow first List.mem_cons_self hsame.symm
          rw [if_pos hsame] at hnow ⊢
          have hstays : f (change.apply row) = change.apply row := by
            apply hout _ hnow
            rw [change.keeps, hsame]
            exact hapart
          rw [hstays, planned, ← hself, hchange]
        · rw [if_neg hsame] at hnow ⊢
          rw [List.map_cons] at hmem
          exact hin row hnow ((List.mem_cons.mp hmem).resolve_left hsame)
      · intro row hrow hnot
        have hnow := hupdated row hrow
        rw [List.map_cons, List.mem_cons, not_or] at hnot
        rw [Function.comp_apply]
        rw [if_neg hnot.1] at hnow ⊢
        exact hout row hnow hnot.2

/-- A sweep over a table's own rows changes each of them as planned. -/
theorem sweep_own {plan : Row → Except E (Option (Change key))} (t : Table key)
    (hplan : ∀ row ∈ t.rows, ∃ change, plan row = .ok change) :
    ∃ done, sweep plan t.rows t = .ok done ∧ done.rows = t.rows.map (planned plan) := by
  obtain ⟨done, f, hdone, hrows, hin, _⟩ :=
    sweep_rows t.rising hplan t fun _ hrow _ hother hkey => t.key_injective hother hrow hkey
  refine ⟨done, hdone, ?_⟩
  rw [hrows]
  apply List.map_congr_left
  intro row hrow
  exact hin row hrow (List.mem_map_of_mem hrow)

end Table

end QuantForge
