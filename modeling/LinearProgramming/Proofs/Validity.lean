import LinearProgramming.Tableau
import Mathlib.Data.List.Basic
import Mathlib.Tactic.SplitIfs

/-!
What a problem without a defect looks like. The search for the first defect is
turned into the conditions that rule every defect out.
-/

namespace LinearProgramming

namespace Problem

variable {α : Type} [Scalar α]

/-- A program in canonical form, condition by condition. -/
structure IsCanonical (p : Problem α) : Prop where
  length_rows : p.a.length = p.numConstraints
  constraints_pos : 0 < p.numConstraints
  variables_pos : 0 < p.numVariables
  length_row : ∀ row ∈ p.a, row.length = p.numVariables
  finite_row : ∀ row ∈ p.a, Scalar.allFinite row = true
  finite_objective : Scalar.allFinite p.c = true
  finite_limit : ∀ limit ∈ p.b, Scalar.isFinite limit = true
  limit_not_negative : ∀ limit ∈ p.b, ¬limit < 0

omit [Scalar α] in
theorem shapeDefect?_eq_none_iff (p : Problem α) :
    p.shapeDefect? = none ↔ p.a.length = p.numConstraints ∧
      0 < p.numConstraints ∧ 0 < p.numVariables := by
  rw [shapeDefect?]
  split_ifs with hrows hempty
  · simp [hrows]
  · simp only [false_iff]
    omega
  · simp only [true_iff]
    omega

theorem rowDefect?_eq_none_iff (expected index : Nat) (row : List α) :
    rowDefect? expected index row = none ↔
      row.length = expected ∧ Scalar.allFinite row = true := by
  rw [rowDefect?]
  split_ifs with hlength hfinite
  · simp [hlength]
  · simp [not_not.mp hlength, hfinite]
  · simp [hfinite]

theorem objectiveDefect?_eq_none_iff (p : Problem α) :
    p.objectiveDefect? = none ↔ Scalar.allFinite p.c = true := by
  rw [objectiveDefect?]
  split_ifs with hfinite <;> simp [hfinite]

theorem rhsDefect?_eq_none_iff (index : Nat) (value : α) :
    rhsDefect? index value = none ↔ Scalar.isFinite value = true ∧ ¬value < 0 := by
  rw [rhsDefect?]
  cases hfinite : Scalar.isFinite value with
  | false => simp
  | true =>
    by_cases hnegative : value < 0 <;> simp [hnegative]

theorem isValid_iff (p : Problem α) : p.IsValid ↔ p.IsCanonical := by
  have hsearch : p.IsValid ↔
      (p.a.length = p.numConstraints ∧ 0 < p.numConstraints ∧ 0 < p.numVariables) ∧
        (∀ row ∈ p.a, row.length = p.numVariables ∧ Scalar.allFinite row = true) ∧
        Scalar.allFinite p.c = true ∧
        ∀ limit ∈ p.b, Scalar.isFinite limit = true ∧ ¬limit < 0 := by
    simp only [IsValid, defect?, Option.orElse_eq_orElse, Option.orElse_eq_or,
      Option.or_eq_none_iff, List.findSome?_eq_none_iff, List.forall_mem_iff_getElem,
      List.length_zipIdx, List.getElem_zipIdx, shapeDefect?_eq_none_iff,
      rowDefect?_eq_none_iff, objectiveDefect?_eq_none_iff, rhsDefect?_eq_none_iff, and_assoc]
  rw [hsearch]
  constructor
  · rintro ⟨⟨hrows, hconstraints, hvariables⟩, hrow, hobjective, hlimit⟩
    exact {
      length_rows := hrows
      constraints_pos := hconstraints
      variables_pos := hvariables
      length_row := fun row hmem => (hrow row hmem).1
      finite_row := fun row hmem => (hrow row hmem).2
      finite_objective := hobjective
      finite_limit := fun limit hmem => (hlimit limit hmem).1
      limit_not_negative := fun limit hmem => (hlimit limit hmem).2 }
  · intro h
    exact ⟨⟨h.length_rows, h.constraints_pos, h.variables_pos⟩,
      fun row hmem => ⟨h.length_row row hmem, h.finite_row row hmem⟩, h.finite_objective,
      fun limit hmem => ⟨h.finite_limit limit hmem, h.limit_not_negative limit hmem⟩⟩

instance (p : Problem α) : Decidable p.IsValid :=
  decidable_of_iff (p.defect?.isNone = true) Option.isNone_iff_eq_none

theorem IsValid.canonical {p : Problem α} (h : p.IsValid) : p.IsCanonical :=
  (isValid_iff p).mp h

/-- A valid problem has a tableau to start from. -/
theorem IsValid.ofProblem {p : Problem α} (h : p.IsValid) :
    Tableau.ofProblem p = .ok (Tableau.initial p) := by
  rw [Tableau.ofProblem, h]

end Problem

end LinearProgramming
