import LinearProgramming.Proofs.Tableau.FirstLeast

/-!
Which column enters, as a condition on the objective row that leaves no choice: of the
entries below zero the lowest, and of equal ones the first. Such entries are always
defined in binary64, whatever stands beside them.

Whether the objective can be improved is asked by a search of its own through the same
row. A third search, for the largest magnitude below zero, begins with the magnitude
zero and finds the same column.
-/

namespace LinearProgramming

namespace Tableau

variable {p : Problem Float} {t : Tableau Float} {n m column : Nat}

/-- The column has the lowest of all reduced costs below zero, and is the first one
with it. -/
structure IsSteepest (t : Tableau Float) (column : Nat) : Prop where
  column_lt : column < t.width
  negative : t.objective.entry column < 0
  le : ∀ j < t.width, t.objective.entry j < 0 → t.objective.entry column ≤ t.objective.entry j
  lt_of_front : ∀ j < column, t.objective.entry j < 0 →
    t.objective.entry column < t.objective.entry j

theorem HasShape.getElem?_costs (h : t.HasShape n m) {j : Nat} {cost : Float} :
    t.objective.coeffs[j]? = some cost ↔ j < t.width ∧ t.objective.entry j = cost := by
  rw [h.width, ← h.length_costs, List.getElem?_eq_some_iff]
  constructor
  · rintro ⟨hj, hcost⟩
    exact ⟨hj, (Row.entry_eq_getElem _ hj).trans hcost⟩
  · rintro ⟨hj, hcost⟩
    exact ⟨hj, (Row.entry_eq_getElem _ hj).symm.trans hcost⟩

/-- A negative cost is defined, whatever else stands in the row. -/
theorem ranked_improvingColumns (t : Tableau Float) : Ranked t.improvingColumns where
  ascending := by
    apply ascending_filterMap_zipIdx
    rintro ⟨cost, j⟩ found hfound
    obtain ⟨-, rfl⟩ := Option.ite_some_none_eq_some.mp hfound
    rfl
  separates := by
    rintro ⟨j, cost⟩ hmem
    exact Binary64.separates (Binary64.isNaN_of_lt (mem_improvingColumns_iff.mp hmem).2).1

theorem HasShape.isFirstLeast_improvingColumns_iff (h : t.HasShape n m) :
    (∃ cost, IsFirstLeast t.improvingColumns (column, cost)) ↔ t.IsSteepest column := by
  constructor
  · rintro ⟨cost, hleast⟩
    obtain ⟨hcost, hnegative⟩ := mem_improvingColumns_iff.mp hleast.mem
    obtain ⟨hcolumn, rfl⟩ := h.getElem?_costs.mp hcost
    have hother : ∀ j < t.width, t.objective.entry j < 0 →
        (j, t.objective.entry j) ∈ t.improvingColumns :=
      fun j hj hentry => mem_improvingColumns_iff.mpr ⟨h.getElem?_costs.mpr ⟨hj, rfl⟩, hentry⟩
    constructor
    case column_lt => exact hcolumn
    case negative => exact hnegative
    case le =>
      intro j hj hentry
      have hnot := hleast.not_lt (j, t.objective.entry j) (hother j hj hentry)
      exact Binary64.le_of_not_lt (Binary64.isNaN_of_lt hentry).1
        (Binary64.isNaN_of_lt hnegative).1 hnot
    case lt_of_front =>
      intro j hj hentry
      exact hleast.lt_of_front (j, t.objective.entry j) (hother j (hj.trans hcolumn) hentry) hj
  · intro hsteepest
    refine ⟨t.objective.entry column, ?_, ?_, ?_⟩
    · exact mem_improvingColumns_iff.mpr
        ⟨h.getElem?_costs.mpr ⟨hsteepest.column_lt, rfl⟩, hsteepest.negative⟩
    · rintro ⟨j, cost⟩ hmem (hbelow : cost < t.objective.entry column)
      obtain ⟨hcost, hnegative⟩ := mem_improvingColumns_iff.mp hmem
      obtain ⟨hj, rfl⟩ := h.getElem?_costs.mp hcost
      have hself := Binary64.lt_of_le_of_lt (hsteepest.le j hj hnegative) hbelow
      exact Scalar.Lawful.lt_irrefl _ hself
    · rintro ⟨j, cost⟩ hmem hfront
      obtain ⟨hcost, hnegative⟩ := mem_improvingColumns_iff.mp hmem
      obtain ⟨hj, rfl⟩ := h.getElem?_costs.mp hcost
      exact hsteepest.lt_of_front j hfront hnegative

theorem HasShape.enteringColumn?_eq_some_iff (h : t.HasShape n m) :
    t.enteringColumn? = some column ↔ t.IsSteepest column := by
  rw [enteringColumn?, firstLeast?_eq_some_iff t.ranked_improvingColumns,
    h.isFirstLeast_improvingColumns_iff]

theorem HasShape.canImprove_eq_false_iff (h : t.HasShape n m) :
    t.canImprove = false ↔ ∀ j < t.width, ¬t.objective.entry j < 0 := by
  rw [Tableau.canImprove_eq_false_iff]
  constructor
  · intro hnone j hj
    exact hnone _ (List.mem_of_getElem? (h.getElem?_costs.mpr ⟨hj, rfl⟩))
  · intro hnone cost hcost
    obtain ⟨j, hj⟩ := List.mem_iff_getElem?.mp hcost
    obtain ⟨hlt, rfl⟩ := h.getElem?_costs.mp hj
    exact hnone j hlt

/-! ## The search by magnitude -/

/-- Of a magnitude kept so far and a cost, the one to go on with. Only a cost below
zero can take the place, and only with a larger magnitude. -/
def keepLarger (kept : Float × Option Nat) (item : Float × Nat) : Float × Option Nat :=
  if item.1 < 0 ∧ kept.1 < item.1.abs then (item.1.abs, some item.2) else kept

/-- The column of the largest magnitude below zero, searched for from magnitude zero
on. -/
def largestMagnitude? (costs : List Float) : Option Nat :=
  (costs.zipIdx.foldl keepLarger (0, none)).2

/-- Both searches have kept the same column. -/
inductive SameChoice : Float × Option Nat → Option (Nat × Float) → Prop
  | neither : SameChoice (0, none) none
  | both {cost : Float} (column : Nat) (h : cost < 0) :
      SameChoice (cost.abs, some column) (some (column, cost))

theorem SameChoice.eq {kept : Float × Option Nat} {best : Option (Nat × Float)}
    (h : SameChoice kept best) : best.map (·.1) = kept.2 := by
  cases h with
  | neither => rfl
  | both column h => rfl

/-- A cost below zero takes the place in both searches or in neither. -/
theorem SameChoice.step {kept : Float × Option Nat} {best : Option (Nat × Float)}
    (h : SameChoice kept best) {cost : Float} (column : Nat) (hnegative : cost < 0) :
    SameChoice (keepLarger kept (cost, column)) (keepLeast best (column, cost)) := by
  cases h with
  | neither =>
    simp only [keepLarger, hnegative, Binary64.abs_pos hnegative, and_self, if_true]
    exact .both column hnegative
  | both column' hkept =>
    simp only [keepLarger, keepLeast, keepLess, hnegative, Binary64.abs_lt_abs_iff hkept hnegative,
      true_and]
    split
    · exact .both column hnegative
    · exact .both column' hkept

theorem enteringColumn?_eq_largestMagnitude? (t : Tableau Float) :
    t.enteringColumn? = largestMagnitude? t.objective.coeffs := by
  have hsame : SameChoice (t.objective.coeffs.zipIdx.foldl keepLarger (0, none))
      (t.improvingColumns.foldl keepLeast none) := by
    rw [improvingColumns, List.foldl_filterMap]
    apply List.foldl_rel (r := SameChoice) .neither
    rintro ⟨cost, column⟩ - kept best h
    by_cases hnegative : cost < 0
    · simpa only [if_pos hnegative] using h.step column hnegative
    · simpa only [keepLarger, if_neg hnegative, hnegative, false_and, if_false] using h
  rw [enteringColumn?, firstLeast?, largestMagnitude?]
  exact hsame.eq

/-- The entering column is the first one with the lowest reduced cost below zero,
whatever else the row holds. There is none exactly if the objective cannot be
improved, and it is never the column of the right-hand sides. -/
theorem enteringColumn?_isSteepest (hp : p.IsValid) : ∃ start, ofProblem p = .ok start ∧
    ∀ t, start.Reaches t →
      t.width = p.numVariables + p.numConstraints ∧
      (∀ column, t.enteringColumn? = some column ↔ t.IsSteepest column) ∧
      (t.enteringColumn? = none ↔ ∀ j < t.width, ¬t.objective.entry j < 0) ∧
      (t.enteringColumn? = none ↔ t.canImprove = false) ∧
      t.enteringColumn? ≠ some t.width ∧
      t.enteringColumn? = largestMagnitude? t.objective.coeffs := by
  refine ⟨initial p, hp.ofProblem, ?_⟩
  intro t hreaches
  have hshape := (initial_hasShape hp.canonical).reaches hreaches
  refine ⟨hshape.width, fun column => hshape.enteringColumn?_eq_some_iff, ?_,
    enteringColumn?_eq_none_iff t, ?_, t.enteringColumn?_eq_largestMagnitude?⟩
  · rw [enteringColumn?_eq_none_iff, hshape.canImprove_eq_false_iff]
  · intro hlast
    exact Nat.lt_irrefl _ (hshape.enteringColumn?_eq_some_iff.mp hlast).column_lt

/-- After the first variable has entered, the cost of the second is minus infinity. -/
def plunging : Problem Float :=
  ⟨[[1e-200, -1, 0]], [1], [1e200, 1, 7]⟩

/-- The infinite cost comes before the cost of minus seven. -/
theorem enteringColumn?_isSteepest_plunging : plunging.IsValid ∧
    ∃ start after, ofProblem plunging = .ok start ∧ start.pivot 0 0 = .ok after ∧
      after.enteringColumn? = some 1 ∧ after.IsSteepest 1 ∧
      (after.objective.entry 1).isFinite = false := by
  have hp : plunging.IsValid := by decide +kernel
  obtain ⟨start, hstart, hreached⟩ := enteringColumn?_isSteepest hp
  cases hp.ofProblem.symm.trans hstart
  have hcolumn : ((initial plunging).pivot 0 0).toOption.map (fun after =>
      (after.enteringColumn?, (after.objective.entry 1).isFinite)) = some (some 1, false) := by
    decide +kernel
  cases hpivot : (initial plunging).pivot 0 0 with
  | error error =>
    rw [hpivot] at hcolumn
    cases hcolumn
  | ok after =>
    rw [hpivot] at hcolumn
    obtain ⟨hentering, hinfinite⟩ := Prod.mk.inj (Option.some.inj hcolumn)
    obtain ⟨-, hiff, -⟩ := hreached after (.pivot .refl hpivot)
    exact ⟨hp, _, after, hstart, hpivot, hentering, (hiff 1).mp hentering, hinfinite⟩

end Tableau

end LinearProgramming
