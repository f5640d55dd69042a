import LinearProgramming.Examples
import LinearProgramming.Proofs.Answers
import LinearProgramming.Proofs.Arithmetic.Definedness
import LinearProgramming.Proofs.Violations

/-!
What a certificate shows in binary64. The check of the constraints looks for
comparisons that come out true, and a comparison with an undefined value comes
out false. A certified answer therefore meets the constraints where its values
and the left-hand sides are defined and finite, and only there: an answer whose
values have overflown is certified as well.
-/

namespace LinearProgramming

/-- The values are finite and meet every constraint and sign condition up to
the tolerance, by comparisons that come out true. -/
structure Problem.IsMetBy (p : Problem Float) (x : List Float) (tolerance : Float) : Prop where
  finite : ∀ value ∈ x, value.isFinite = true
  le_value : ∀ value ∈ x, -tolerance ≤ value
  row_le : ∀ (i : Nat) (row : List Float) (limit : Float), p.a[i]? = some row →
    p.b[i]? = some limit → Scalar.dot row x ≤ limit + tolerance

namespace Problem

variable {p : Problem Float} {x : List Float} {tolerance : Float}

/-- A value that is not reported is on the right side or undefined. -/
theorem le_value_of_violations (htolerance : tolerance.isFinite = true)
    (h : p.violations x tolerance = []) :
    ∀ value ∈ x, value.isNaN = true ∨ -tolerance ≤ value := by
  intro value hvalue
  have hbound : (-tolerance).isNaN = false := by
    rw [Binary64.isNaN_neg]
    exact Binary64.isNaN_eq_false_of_isFinite htolerance
  have hkept : ¬value < -tolerance := ((violations_eq_nil_iff p x tolerance).mp h).2 value hvalue
  cases hnan : value.isNaN with
  | true => exact Or.inl rfl
  | false => exact Or.inr (Binary64.le_of_not_lt hnan hbound hkept)

/-- So is the left-hand side of a row that is not reported. -/
theorem row_le_of_violations (hp : p.IsCanonical) (htolerance : tolerance.isFinite = true)
    (h : p.violations x tolerance = []) : ∀ (i : Nat) (row : List Float) (limit : Float),
      p.a[i]? = some row → p.b[i]? = some limit →
        (Scalar.dot row x).isNaN = true ∨ Scalar.dot row x ≤ limit + tolerance := by
  intro i row limit hrow hlimit
  have hbound : (limit + tolerance).isNaN = false :=
    Binary64.isNaN_add (hp.finite_limit limit (List.mem_of_getElem? hlimit))
      (Binary64.isNaN_eq_false_of_isFinite htolerance)
  have hkept : ¬limit + tolerance < Scalar.dot row x :=
    ((violations_eq_nil_iff p x tolerance).mp h).1 i row limit hrow hlimit
  cases hnan : (Scalar.dot row x).isNaN with
  | true => exact Or.inl rfl
  | false => exact Or.inr (Binary64.le_of_not_lt hbound hnan hkept)

/-- A comparison that comes out true has defined operands. -/
theorem IsMetBy.isNaN_dot (hp : p.IsCanonical) (h : p.IsMetBy x tolerance) :
    ∀ row ∈ p.a, (Scalar.dot row x).isNaN = false := by
  intro row hmem
  obtain ⟨i, hi⟩ := List.mem_iff_getElem?.mp hmem
  have hlt : i < p.b.length := (List.getElem?_eq_some_iff.mp hi).1.trans_eq hp.length_rows
  have hle := h.row_le i row _ hi (List.getElem?_eq_getElem hlt)
  exact ((Binary64.le_iff _ _).mp hle).1

end Problem

namespace Solver

/-- What a certified answer shows. Every value and every left-hand side is on
the right side or undefined. The answer meets the problem exactly if its values
are finite and no left-hand side is undefined. -/
theorem isMetBy_iff_of_isCertified {s : Solver Float} {p : Problem Float}
    {answer : Solution Float} (htolerance : s.tolerance.isFinite = true)
    (h : s.solve p = .ok answer) (hcertified : answer.isCertified = true) :
    (∀ value ∈ answer.values, value.isNaN = true ∨ -s.tolerance ≤ value) ∧
    (∀ (i : Nat) (row : List Float) (limit : Float), p.a[i]? = some row → p.b[i]? = some limit →
      (Scalar.dot row answer.values).isNaN = true ∨
        Scalar.dot row answer.values ≤ limit + s.tolerance) ∧
    (p.IsMetBy answer.values s.tolerance ↔
      (∀ value ∈ answer.values, value.isFinite = true) ∧
      ∀ row ∈ p.a, (Scalar.dot row answer.values).isNaN = false) := by
  have hp := (isValid_of_solve h).canonical
  have hviolations := violations_of_isCertified h hcertified
  have hsign := Problem.le_value_of_violations htolerance hviolations
  have hrow := Problem.row_le_of_violations hp htolerance hviolations
  refine ⟨hsign, hrow, ?_⟩
  constructor
  · intro hmet
    exact ⟨hmet.finite, hmet.isNaN_dot hp⟩
  · rintro ⟨hfinite, hdefined⟩
    constructor
    case finite => exact hfinite
    case le_value =>
      intro value hvalue
      have hnan := Binary64.isNaN_eq_false_of_isFinite (hfinite value hvalue)
      exact (hsign value hvalue).resolve_left (Bool.eq_false_iff.mp hnan)
    case row_le =>
      intro i row limit hi hlimit
      have hnan := hdefined row (List.mem_of_getElem? hi)
      exact (hrow i row limit hi hlimit).resolve_left (Bool.eq_false_iff.mp hnan)

/-- The certificate of the first example holds what it promises. -/
theorem isMetBy_firstExample : ∃ answer, standard.solve firstExample = .ok answer ∧
    answer.isCertified = true ∧ firstExample.IsMetBy answer.values standard.tolerance := by
  have hcheck : (standard.solve firstExample).toOption.map (fun answer =>
      answer.isCertified && answer.values.all Float.isFinite &&
        firstExample.a.all fun row => !(Scalar.dot row answer.values).isNaN) = some true := by
    decide +kernel
  have hp : firstExample.IsValid := by decide +kernel
  have hsolve := standard.solve_eq hp
  rw [hsolve] at hcheck
  have hanswer := Option.some.inj hcheck
  simp only [Bool.and_eq_true, List.all_eq_true, Bool.not_eq_true'] at hanswer
  obtain ⟨⟨hcertified, hfinite⟩, hdefined⟩ := hanswer
  exact ⟨_, hsolve, hcertified, (isMetBy_iff_of_isCertified (by decide +kernel) hsolve
    hcertified).2.2.mpr ⟨hfinite, hdefined⟩⟩

/-- The first variable overflows and takes the second with it. Both left-hand
sides are then undefined, and neither is above its bound. -/
def overflown : Problem Float :=
  ⟨[[1e-200, 0], [-1, 1]], [1e200, 1], [1, 1]⟩

theorem isCertified_overflown : ∃ answer, standard.solve overflown = .ok answer ∧
    answer.isCertified = true ∧ ¬overflown.IsMetBy answer.values standard.tolerance := by
  have hcheck : (standard.solve overflown).toOption.map (fun answer =>
      answer.isCertified && answer.values.any fun value => !value.isFinite) = some true := by
    decide +kernel
  have hp : overflown.IsValid := by decide +kernel
  have hsolve := standard.solve_eq hp
  rw [hsolve] at hcheck
  have hanswer := Option.some.inj hcheck
  simp only [Bool.and_eq_true, List.any_eq_true, Bool.not_eq_true'] at hanswer
  obtain ⟨hcertified, value, hvalue, hinfinite⟩ := hanswer
  refine ⟨_, hsolve, hcertified, ?_⟩
  intro hmet
  rw [hmet.finite value hvalue] at hinfinite
  cases hinfinite

end Solver

end LinearProgramming
