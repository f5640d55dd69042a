import LinearProgramming.Proofs.Arithmetic.Laws
import LinearProgramming.Proofs.Tableau.Shape

/-!
What the selection rules choose. The search for the least value keeps one
candidate, and no candidate it has seen is below the one it keeps. In binary64
this says less than "all others are at least as large", since an undefined
value is not below anything and nothing is below it.
-/

namespace LinearProgramming

variable {α : Type} [Scalar α]

/-- From the first candidate on there always is one. -/
theorem foldl_keepLeast_some (kept : Nat × α) (candidates : List (Nat × α)) :
    candidates.foldl keepLeast (some kept) = some (candidates.foldl keepLess kept) := by
  induction candidates generalizing kept with
  | nil => rfl
  | cons candidate candidates ih => exact ih (keepLess kept candidate)

theorem firstLeast?_cons (kept : Nat × α) (candidates : List (Nat × α)) :
    firstLeast? (kept :: candidates) = some (candidates.foldl keepLess kept).1 := by
  rw [firstLeast?, List.foldl_cons, keepLeast, foldl_keepLeast_some, Option.map_some]

theorem firstLeast?_eq_none_iff (candidates : List (Nat × α)) :
    firstLeast? candidates = none ↔ candidates = [] := by
  cases candidates with
  | nil => simp [firstLeast?]
  | cons kept candidates => simp [firstLeast?_cons]

theorem foldl_keepLess_mem (kept : Nat × α) (candidates : List (Nat × α)) :
    candidates.foldl keepLess kept ∈ kept :: candidates := by
  induction candidates generalizing kept with
  | nil => exact List.mem_singleton.mpr rfl
  | cons candidate candidates ih =>
    rw [List.foldl_cons]
    have hmem := ih (keepLess kept candidate)
    by_cases hlt : candidate.2 < kept.2
    · rw [keepLess, if_pos hlt] at hmem ⊢
      exact List.mem_cons_of_mem _ hmem
    · rw [keepLess, if_neg hlt] at hmem ⊢
      rcases List.mem_cons.mp hmem with hkept | hrest
      · rw [hkept]
        exact List.mem_cons_self
      · exact List.mem_cons_of_mem _ (List.mem_cons_of_mem _ hrest)

theorem exists_mem_of_firstLeast? {candidates : List (Nat × α)} {label : Nat}
    (h : firstLeast? candidates = some label) : ∃ value, (label, value) ∈ candidates := by
  cases candidates with
  | nil => cases h
  | cons kept candidates =>
    rw [firstLeast?_cons] at h
    refine ⟨(candidates.foldl keepLess kept).2, ?_⟩
    rw [← Option.some.inj h]
    exact foldl_keepLess_mem kept candidates

namespace Tableau

theorem mem_improvingColumns_iff {t : Tableau α} {column : Nat} {cost : α} :
    (column, cost) ∈ t.improvingColumns ↔
      t.objective.coeffs[column]? = some cost ∧ cost < 0 := by
  simp only [improvingColumns, List.mem_filterMap, Prod.exists, List.mem_zipIdx_iff_getElem?]
  constructor
  · rintro ⟨cost', column', hcost, hlabel⟩
    split at hlabel
    · cases hlabel
      exact ⟨hcost, ‹_›⟩
    · cases hlabel
  · rintro ⟨hcost, hnegative⟩
    exact ⟨cost, column, hcost, if_pos hnegative⟩

theorem mem_ratios_iff {t : Tableau α} {column row : Nat} {ratio : α} :
    (row, ratio) ∈ t.ratios column ↔ ∃ e, t.equations[row]? = some e ∧
      0 < e.row.entry column ∧ e.ratio column = ratio := by
  simp only [ratios, List.mem_filterMap, Prod.exists, List.mem_zipIdx_iff_getElem?]
  constructor
  · rintro ⟨e, row', he, hlabel⟩
    split at hlabel
    · cases hlabel
      exact ⟨e, he, ‹_›, rfl⟩
    · cases hlabel
  · rintro ⟨e, he, hpositive, hratio⟩
    refine ⟨e, row, he, ?_⟩
    rw [if_pos hpositive, hratio]

theorem canImprove_eq_false_iff (t : Tableau α) :
    t.canImprove = false ↔ ∀ cost ∈ t.objective.coeffs, ¬cost < 0 := by
  simp only [canImprove, List.any_eq_false, decide_eq_true_eq]

theorem enteringColumn?_eq_none_iff (t : Tableau α) :
    t.enteringColumn? = none ↔ t.canImprove = false := by
  rw [enteringColumn?, firstLeast?_eq_none_iff, canImprove_eq_false_iff]
  constructor
  · intro hnone cost hcost hnegative
    obtain ⟨column, hcolumn⟩ := List.mem_iff_getElem?.mp hcost
    have hmem := mem_improvingColumns_iff.mpr ⟨hcolumn, hnegative⟩
    rw [hnone] at hmem
    cases hmem
  · intro hnone
    rw [List.eq_nil_iff_forall_not_mem]
    rintro ⟨column, cost⟩ hmem
    obtain ⟨hcolumn, hnegative⟩ := mem_improvingColumns_iff.mp hmem
    exact hnone cost (List.mem_of_getElem? hcolumn) hnegative

theorem enteringColumn?_lt {t : Tableau α} {column : Nat}
    (h : t.enteringColumn? = some column) : column < t.objective.coeffs.length := by
  obtain ⟨cost, hmem⟩ := exists_mem_of_firstLeast? h
  exact (List.getElem?_eq_some_iff.mp (mem_improvingColumns_iff.mp hmem).1).1

theorem leavingRow?_eq_none_iff (t : Tableau α) (column : Nat) :
    t.leavingRow? column = none ↔ ∀ e ∈ t.equations, ¬0 < e.row.entry column := by
  rw [leavingRow?, firstLeast?_eq_none_iff]
  constructor
  · intro hnone e he hpositive
    obtain ⟨row, hrow⟩ := List.mem_iff_getElem?.mp he
    have hmem := mem_ratios_iff.mpr ⟨e, hrow, hpositive, rfl⟩
    rw [hnone] at hmem
    cases hmem
  · intro hnone
    rw [List.eq_nil_iff_forall_not_mem]
    rintro ⟨row, ratio⟩ hmem
    obtain ⟨e, he, hpositive, -⟩ := mem_ratios_iff.mp hmem
    exact hnone e (List.mem_of_getElem? he) hpositive

end Tableau

variable [Scalar.Lawful α]

/-- The kept value only goes down. -/
theorem foldl_keepLess_descends (kept : Nat × α) (candidates : List (Nat × α)) :
    candidates.foldl keepLess kept = kept ∨
      (candidates.foldl keepLess kept).2 < kept.2 := by
  induction candidates generalizing kept with
  | nil => exact Or.inl rfl
  | cons candidate candidates ih =>
    rw [List.foldl_cons]
    by_cases hlt : candidate.2 < kept.2
    · rw [keepLess, if_pos hlt]
      rcases ih candidate with hsame | hbelow
      · rw [hsame]
        exact Or.inr hlt
      · exact Or.inr (Scalar.Lawful.lt_trans hbelow hlt)
    · rw [keepLess, if_neg hlt]
      exact ih kept

/-- No candidate is below the one that is kept in the end. -/
theorem foldl_keepLess_not_lt (kept : Nat × α) (candidates : List (Nat × α)) :
    ∀ candidate ∈ kept :: candidates,
      ¬candidate.2 < (candidates.foldl keepLess kept).2 := by
  induction candidates generalizing kept with
  | nil =>
    intro candidate hcandidate
    rw [List.mem_singleton.mp hcandidate]
    exact Scalar.Lawful.lt_irrefl _
  | cons next candidates ih =>
    have hfirst : ∀ candidate ∈ [kept, next], ¬candidate.2 < (keepLess kept next).2 := by
      intro candidate hcandidate
      by_cases hlt : next.2 < kept.2
      · rw [keepLess, if_pos hlt]
        rcases List.mem_pair.mp hcandidate with rfl | rfl
        · exact fun hbelow => Scalar.Lawful.lt_irrefl _ (Scalar.Lawful.lt_trans hbelow hlt)
        · exact Scalar.Lawful.lt_irrefl _
      · rw [keepLess, if_neg hlt]
        rcases List.mem_pair.mp hcandidate with rfl | rfl
        · exact Scalar.Lawful.lt_irrefl _
        · exact hlt
    intro candidate hcandidate hbelow
    rw [List.foldl_cons] at hbelow
    have hsplit : candidate ∈ [kept, next] ++ candidates := hcandidate
    rcases List.mem_append.mp hsplit with hseen | hrest
    · rcases foldl_keepLess_descends (keepLess kept next) candidates with hsame | hlower
      · rw [hsame] at hbelow
        exact hfirst candidate hseen hbelow
      · exact hfirst candidate hseen (Scalar.Lawful.lt_trans hbelow hlower)
    · exact ih (keepLess kept next) candidate (List.mem_cons_of_mem _ hrest) hbelow

/-- The label that is found belongs to a value that no other is below. -/
theorem firstLeast?_not_lt {candidates : List (Nat × α)} {label : Nat}
    (h : firstLeast? candidates = some label) : ∃ value, (label, value) ∈ candidates ∧
      ∀ candidate ∈ candidates, ¬candidate.2 < value := by
  cases candidates with
  | nil => cases h
  | cons kept candidates =>
    rw [firstLeast?_cons] at h
    refine ⟨(candidates.foldl keepLess kept).2, ?_, foldl_keepLess_not_lt kept candidates⟩
    rw [← Option.some.inj h]
    exact foldl_keepLess_mem kept candidates

namespace Tableau

/-- The entering column has a negative reduced cost. -/
theorem enteringColumn?_eq_some {t : Tableau α} {column : Nat}
    (h : t.enteringColumn? = some column) :
    column < t.objective.coeffs.length ∧ t.objective.entry column < 0 := by
  obtain ⟨cost, hmem, -⟩ := firstLeast?_not_lt h
  obtain ⟨hcost, hnegative⟩ := mem_improvingColumns_iff.mp hmem
  obtain ⟨hcolumn, rfl⟩ := List.getElem?_eq_some_iff.mp hcost
  rw [Row.entry_eq_getElem _ hcolumn]
  exact ⟨hcolumn, hnegative⟩

/-- The leaving row has a positive entry, and no ratio is below its own. -/
theorem leavingRow?_eq_some {t : Tableau α} {column row : Nat}
    (h : t.leavingRow? column = some row) : ∃ e, t.equations[row]? = some e ∧
      0 < e.row.entry column ∧
      ∀ e' ∈ t.equations, 0 < e'.row.entry column → ¬e'.ratio column < e.ratio column := by
  obtain ⟨ratio, hmem, hleast⟩ := firstLeast?_not_lt h
  obtain ⟨e, he, hpositive, rfl⟩ := mem_ratios_iff.mp hmem
  refine ⟨e, he, hpositive, ?_⟩
  intro e' he' hpositive'
  obtain ⟨row', hrow'⟩ := List.mem_iff_getElem?.mp he'
  exact hleast _ (mem_ratios_iff.mpr ⟨e', hrow', hpositive', rfl⟩)

end Tableau

end LinearProgramming
