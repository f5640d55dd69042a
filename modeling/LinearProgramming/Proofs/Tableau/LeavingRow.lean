import LinearProgramming.Proofs.Tableau.FirstLeast

/-!
Which row leaves, as a condition on the column that leaves no choice: of the rows with
a positive entry the one with the least ratio, and of equal ones the first. A ratio
may be undefined in binary64, and then the row depends on where it stands; an infinite
ratio is like any other.

A search that keeps the least ratio apart from its row has to begin with some ratio. It
begins with infinity, and finds the same row all the same, since it compares only once
it has a row.
-/

namespace LinearProgramming

namespace Tableau

variable {p : Problem Float} {t : Tableau Float} {n m column row : Nat}

/-- The equation limits the column's variable, no other limits it by a smaller ratio,
and those above this one have larger ratios. -/
structure IsTightest (t : Tableau Float) (column row : Nat) (e : Equation Float) : Prop where
  equation : t.equations[row]? = some e
  positive : 0 < e.row.entry column
  le : ∀ f ∈ t.equations, 0 < f.row.entry column → e.ratio column ≤ f.ratio column
  lt_of_front : ∀ (i : Nat) (f : Equation Float), i < row → t.equations[i]? = some f →
    0 < f.row.entry column → e.ratio column < f.ratio column

/-- No row with a positive entry in the column has an undefined ratio. -/
def HasDefinedRatios (t : Tableau Float) (column : Nat) : Prop :=
  ∀ e ∈ t.equations, 0 < e.row.entry column → (e.ratio column).isNaN = false

theorem HasDefinedRatios.isNaN_of_mem (h : t.HasDefinedRatios column) {candidate : Nat × Float}
    (hmem : candidate ∈ t.ratios column) : candidate.2.isNaN = false := by
  obtain ⟨e, he, hpositive, hratio⟩ := mem_ratios_iff.mp hmem
  rw [← hratio]
  exact h e (List.mem_of_getElem? he) hpositive

theorem HasDefinedRatios.ranked (h : t.HasDefinedRatios column) : Ranked (t.ratios column) where
  ascending := by
    apply ascending_filterMap_zipIdx
    rintro ⟨e, row⟩ found hfound
    obtain ⟨-, rfl⟩ := Option.ite_some_none_eq_some.mp hfound
    rfl
  separates _ hmem := Binary64.separates (h.isNaN_of_mem hmem)

theorem HasDefinedRatios.isFirstLeast_ratios_iff (h : t.HasDefinedRatios column) :
    (∃ ratio, IsFirstLeast (t.ratios column) (row, ratio)) ↔ ∃ e, t.IsTightest column row e := by
  constructor
  · rintro ⟨ratio, hleast⟩
    obtain ⟨e, he, hpositive, rfl⟩ := mem_ratios_iff.mp hleast.mem
    refine ⟨e, he, hpositive, ?_, ?_⟩
    · intro f hf hentry
      obtain ⟨i, hi⟩ := List.mem_iff_getElem?.mp hf
      have hmem : (i, f.ratio column) ∈ t.ratios column :=
        mem_ratios_iff.mpr ⟨f, hi, hentry, rfl⟩
      have hnot := hleast.not_lt (i, f.ratio column) hmem
      exact Binary64.le_of_not_lt (h f hf hentry) (h e (List.mem_of_getElem? he) hpositive) hnot
    · intro i f hi hf hentry
      have hmem : (i, f.ratio column) ∈ t.ratios column :=
        mem_ratios_iff.mpr ⟨f, hf, hentry, rfl⟩
      exact hleast.lt_of_front (i, f.ratio column) hmem hi
  · rintro ⟨e, htightest⟩
    refine ⟨e.ratio column, ?_, ?_, ?_⟩
    · exact mem_ratios_iff.mpr ⟨e, htightest.equation, htightest.positive, rfl⟩
    · rintro ⟨i, ratio⟩ hmem (hbelow : ratio < e.ratio column)
      obtain ⟨f, hf, hentry, rfl⟩ := mem_ratios_iff.mp hmem
      have hself := Binary64.lt_of_le_of_lt
        (htightest.le f (List.mem_of_getElem? hf) hentry) hbelow
      exact Scalar.Lawful.lt_irrefl _ hself
    · rintro ⟨i, ratio⟩ hmem hfront
      obtain ⟨f, hf, hentry, rfl⟩ := mem_ratios_iff.mp hmem
      exact htightest.lt_of_front i f hfront hf hentry

theorem HasDefinedRatios.leavingRow?_eq_some_iff (h : t.HasDefinedRatios column) :
    t.leavingRow? column = some row ↔ ∃ e, t.IsTightest column row e := by
  rw [leavingRow?, firstLeast?_eq_some_iff h.ranked, h.isFirstLeast_ratios_iff]

/-- A column that belongs to no variable has no entry that is positive. -/
theorem HasShape.leavingRow?_eq_none_of_le (h : t.HasShape n m) (hcolumn : t.width ≤ column) :
    t.leavingRow? column = none := by
  rw [leavingRow?_eq_none_iff]
  intro e he
  have hlength : e.row.coeffs.length ≤ column := by
    rw [h.length_coeffs e he, ← h.width]
    exact hcolumn
  rw [Row.entry_eq_zero _ hlength]
  exact Scalar.Lawful.lt_irrefl _

/-! ## The search with two accumulators -/

/-- Of the ratio kept so far with its row, and a row with its number, what to go on
with. Only a row with a positive entry can take the place, and only if there is no row
yet or its ratio is smaller. -/
def keepSmaller (column : Nat) (kept : Float × Option Nat) (item : Equation Float × Nat) :
    Float × Option Nat :=
  if 0 < item.1.row.entry column ∧ (kept.2.isNone ∨ item.1.ratio column < kept.1) then
    (item.1.ratio column, some item.2)
  else
    kept

/-- The row of the smallest ratio, searched for from an infinite ratio and no row on. A
column is looked at only if there is one and it belongs to a variable. -/
def smallestRatio? (t : Tableau Float) (column : Option Nat) : Option Nat :=
  match column with
  | none => none
  | some column =>
    if t.width ≤ column then none
    else (t.equations.zipIdx.foldl (keepSmaller column) (Float.inf, none)).2

/-- Both searches have kept the same row, and the same ratio if there is a row. -/
inductive SameRow : Float × Option Nat → Option (Nat × Float) → Prop
  | neither (start : Float) : SameRow (start, none) none
  | both (row : Nat) (ratio : Float) : SameRow (ratio, some row) (some (row, ratio))

theorem SameRow.eq {kept : Float × Option Nat} {best : Option (Nat × Float)}
    (h : SameRow kept best) : best.map (·.1) = kept.2 := by
  cases h with
  | neither start => rfl
  | both row ratio => rfl

/-- A row with a positive entry takes the place in both searches or in neither. -/
theorem SameRow.step {kept : Float × Option Nat} {best : Option (Nat × Float)}
    (h : SameRow kept best) {e : Equation Float} (row : Nat) (hpositive : 0 < e.row.entry column) :
    SameRow (keepSmaller column kept (e, row)) (keepLeast best (row, e.ratio column)) := by
  cases h with
  | neither start =>
    simp only [keepSmaller, hpositive, Option.isNone_none, true_or, and_self, if_true]
    exact .both row _
  | both row' ratio =>
    simp only [keepSmaller, keepLeast, keepLess, hpositive, Option.isNone_some, true_and,
      Bool.false_eq_true, false_or]
    split
    · exact .both row _
    · exact .both row' ratio

/-- The start is never compared with, so it does not matter. -/
theorem leavingRow?_eq_foldl_keepSmaller (t : Tableau Float) (column : Nat) (start : Float) :
    t.leavingRow? column = (t.equations.zipIdx.foldl (keepSmaller column) (start, none)).2 := by
  have hsame : SameRow (t.equations.zipIdx.foldl (keepSmaller column) (start, none))
      ((t.ratios column).foldl keepLeast none) := by
    rw [ratios, List.foldl_filterMap]
    apply List.foldl_rel (r := SameRow) (.neither start)
    rintro ⟨e, row⟩ - kept best h
    by_cases hpositive : 0 < e.row.entry column
    · simpa only [if_pos hpositive] using h.step row hpositive
    · simpa only [keepSmaller, if_neg hpositive, hpositive, false_and, if_false] using h
  rw [leavingRow?, firstLeast?]
  exact hsame.eq

theorem HasShape.leavingRow?_eq_smallestRatio? (h : t.HasShape n m) (column : Option Nat) :
    column.bind t.leavingRow? = t.smallestRatio? column := by
  cases column with
  | none => rfl
  | some q =>
    rw [Option.bind_some, smallestRatio?]
    split_ifs with hbeyond
    · exact h.leavingRow?_eq_none_of_le hbeyond
    · exact t.leavingRow?_eq_foldl_keepSmaller q Float.inf

/-- There is no leaving row exactly if there is no column, or the column belongs to no
variable, or no row has a positive entry in it. Where no ratio is undefined, the
leaving row is the first one with the least ratio, be the ratios or the entries
infinite or not. In any case it is the row that the search with two accumulators
finds. -/
theorem leavingRow?_isTightest (hp : p.IsValid) : ∃ start, ofProblem p = .ok start ∧
    ∀ t, start.Reaches t → ∀ column : Option Nat,
      (column.bind t.leavingRow? = none ↔ column = none ∨ ∃ q, column = some q ∧
        (p.numVariables + p.numConstraints ≤ q ∨ ∀ e ∈ t.equations, ¬0 < e.row.entry q)) ∧
      column.bind t.leavingRow? = t.smallestRatio? column ∧
      ∀ q, column = some q → t.HasDefinedRatios q → ∀ row,
        column.bind t.leavingRow? = some row ↔ ∃ e, t.IsTightest q row e := by
  refine ⟨initial p, hp.ofProblem, ?_⟩
  intro t hreaches column
  have hshape := (initial_hasShape hp.canonical).reaches hreaches
  refine ⟨?_, hshape.leavingRow?_eq_smallestRatio? column, ?_⟩
  · cases column with
    | none => simp
    | some q =>
      have hbeyond : p.numVariables + p.numConstraints ≤ q → t.leavingRow? q = none := by
        rw [← hshape.width]
        exact hshape.leavingRow?_eq_none_of_le
      simp only [Option.bind_some, Option.some.injEq, reduceCtorEq, false_or, exists_eq_left',
        ← leavingRow?_eq_none_iff]
      exact (or_iff_right_of_imp hbeyond).symm
  · rintro q rfl hratios row
    exact hratios.leavingRow?_eq_some_iff

/-- After the first variable has entered, the second has an infinite entry in the
second row and an infinite ratio in the third. -/
def towering : Problem Float :=
  ⟨[[1e-200, 1], [-1e200, 1], [0, 1e-200]], [1e-200, 1, 1e200], [1, 1]⟩

/-- The infinite entry makes the ratio zero, which is the least of the three. -/
theorem leavingRow?_isTightest_towering : towering.IsValid ∧
    ∃ start after, ofProblem towering = .ok start ∧ start.pivot 0 0 = .ok after ∧
      after.HasDefinedRatios 1 ∧ after.leavingRow? 1 = some 1 ∧ (∃ e, after.IsTightest 1 1 e) ∧
      after.leavingRow? 9 = none := by
  have hp : towering.IsValid := by decide +kernel
  obtain ⟨start, hstart, hreached⟩ := leavingRow?_isTightest hp
  cases hp.ofProblem.symm.trans hstart
  have hafter : ((initial towering).pivot 0 0).toOption.map (fun after =>
      (after.leavingRow? 1, after.equations.all fun e => !(e.ratio 1).isNaN)) =
        some (some 1, true) := by
    decide +kernel
  cases hpivot : (initial towering).pivot 0 0 with
  | error error =>
    rw [hpivot] at hafter
    cases hafter
  | ok after =>
    rw [hpivot] at hafter
    obtain ⟨hleaving, hdefined⟩ := Prod.mk.inj (Option.some.inj hafter)
    have hratios : after.HasDefinedRatios 1 := by
      intro e he _
      simpa using List.all_eq_true.mp hdefined e he
    have hcall := hreached after (.pivot .refl hpivot)
    exact ⟨hp, _, after, hstart, hpivot, hratios, hleaving,
      ((hcall (some 1)).2.2 1 rfl hratios 1).mp hleaving,
      (hcall (some 9)).1.mpr (Or.inr ⟨9, rfl, Or.inl (by decide)⟩)⟩

end Tableau

end LinearProgramming
