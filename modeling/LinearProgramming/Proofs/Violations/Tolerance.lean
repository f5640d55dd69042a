import LinearProgramming.Examples
import LinearProgramming.Proofs.Answers
import LinearProgramming.Proofs.Arithmetic.Monotonicity
import LinearProgramming.Proofs.Violations.Order

/-!
What the tolerance changes. A run does not look at it, so under two tolerances a
problem has the same defect or the same run; only the report of an optimal answer
differs. Binary64 addition and negation keep the order of their operands, so a
comparison that comes out true under the larger tolerance does so under the
smaller one, and the search finds the entries of the larger one among those of
the smaller. The order of the report is fixed by its entries: leaving some of them
out leaves the others where they are. This holds for every tolerance that is
defined, a negative one, which reports rows that are satisfied, and an infinite
one included.
-/

namespace LinearProgramming

/-- Whether an entry is made under a tolerance. -/
def Violation.exceeds (tolerance : Float) : Violation Float → Bool
  | constraint _ limit actual _ => decide (limit + tolerance < actual)
  | negativeValue _ value => decide (value < -tolerance)

namespace Problem

variable {p : Problem Float} {x : List Float} {t u : Float}

theorem brokenRows_eq_filter (h : ∀ limit ∈ p.b, limit + t ≤ limit + u) :
    p.brokenRows x u = (p.brokenRows x t).filter (·.exceeds u) := by
  rw [brokenRows, brokenRows, List.filter_filterMap]
  apply List.filterMap_congr
  rintro ⟨⟨row, limit⟩, i⟩ hmem
  obtain ⟨-, hlimit⟩ := List.getElem?_zip_eq_some.mp (List.mem_zipIdx_iff_getElem?.mp hmem)
  have hle := h limit (List.mem_of_getElem? hlimit)
  by_cases hu : limit + u < Scalar.dot row x
  · have ht := Binary64.lt_of_le_of_lt hle hu
    simp [ht, hu, Violation.exceeds, Option.filter_some]
  · by_cases ht : limit + t < Scalar.dot row x <;>
      simp [ht, hu, Violation.exceeds, Option.filter_some]

theorem negativeValues_eq_filter (h : t ≤ u) :
    negativeValues x u = (negativeValues x t).filter (·.exceeds u) := by
  rw [negativeValues, negativeValues, List.filter_filterMap]
  apply List.filterMap_congr
  rintro ⟨value, j⟩ -
  by_cases hu : value < -u
  · have ht := Binary64.lt_of_lt_of_le hu (Binary64.neg_le_neg h)
    simp [ht, hu, Violation.exceeds, Option.filter_some]
  · by_cases ht : value < -t <;>
      simp [ht, hu, Violation.exceeds, Option.filter_some]

/-- A larger tolerance leaves the entries that exceed it, in their order. -/
theorem violations_eq_filter (hp : ∀ limit ∈ p.b, limit.isFinite = true) (h : t ≤ u) :
    p.violations x u = (p.violations x t).filter (·.exceeds u) := by
  have hsearch : (p.search x t).filter (·.exceeds u) = p.search x u := by
    rw [search, search, List.filter_append, ← negativeValues_eq_filter h,
      ← brokenRows_eq_filter fun limit hlimit => Binary64.add_le_add_left (hp limit hlimit) h]
  have hperm := (perm_violations p x t).filter (·.exceeds u)
  rw [hsearch] at hperm
  exact (eq_violations_of_perm hperm
    ((pairwise_precedes_violations p x t).sublist List.filter_sublist)).symm

end Problem

/-- How an answer under one tolerance becomes the answer under a larger one. -/
structure Solution.Relaxes (tolerance : Float) (strict loose : Solution Float) : Prop where
  status_eq : loose.status = strict.status
  values_eq : loose.values = strict.values
  objectiveValue_eq : loose.objectiveValue = strict.objectiveValue
  iterations_eq : loose.iterations = strict.iterations
  /-- Only the entries above the larger tolerance are left. -/
  violations_eq : loose.violations = strict.violations.filter (·.exceeds tolerance)
  violations_sublist : loose.violations.Sublist strict.violations
  isCertified_of_isCertified : strict.isCertified = true → loose.isCertified = true

/-- Filtering the report keeps all else, and an empty report empty. -/
theorem Solution.relaxes_filter (answer : Solution Float) (tolerance : Float) :
    answer.Relaxes tolerance
      { answer with violations := answer.violations.filter (·.exceeds tolerance) } := by
  constructor
  case status_eq => rfl
  case values_eq => rfl
  case objectiveValue_eq => rfl
  case iterations_eq => rfl
  case violations_eq => rfl
  case violations_sublist => exact List.filter_sublist
  case isCertified_of_isCertified =>
    intro hcertified
    rw [isCertified, Bool.and_eq_true, List.isEmpty_iff] at hcertified ⊢
    exact ⟨hcertified.1, congrArg (List.filter _) hcertified.2⟩

namespace Solver

/-- The tolerance is read for the report of an optimal answer and nowhere else. -/
theorem solutionOf_withTolerance (s : Solver Float) {p : Problem Float} (hp : p.IsValid)
    {t u : Float} (h : t ≤ u) (run : Run Float) :
    (s.withTolerance u).solutionOf p run =
      { (s.withTolerance t).solutionOf p run with
        violations :=
          ((s.withTolerance t).solutionOf p run).violations.filter (·.exceeds u) } := by
  rw [solutionOf, solutionOf]
  cases run.outcome with
  | optimal =>
    exact congrArg (Solution.optimal _ _ _)
      (Problem.violations_eq_filter hp.canonical.finite_limit h)
  | _ => rfl

/-- Under a larger tolerance a problem has the same run. If it has a defect, both
times that is the answer; if it has none, the answer loses the entries of its
report that do not exceed the larger tolerance, and nothing else. -/
theorem solve_withTolerance_relaxes (s : Solver Float) (p : Problem Float) {t u : Float}
    (h : t ≤ u) :
    (s.withTolerance t).run p = (s.withTolerance u).run p ∧
    ((∃ defect, p.defect? = some defect ∧ (s.withTolerance t).solve p = .error defect ∧
      (s.withTolerance u).solve p = .error defect) ∨
    (p.IsValid ∧ ∃ strict loose, (s.withTolerance t).solve p = .ok strict ∧
      (s.withTolerance u).solve p = .ok loose ∧ strict.Relaxes u loose)) := by
  refine ⟨rfl, ?_⟩
  cases hdefect : p.defect? with
  | some defect =>
    have hanswer : ∀ tolerance, (s.withTolerance tolerance).solve p = .error defect :=
      fun tolerance => (s.withTolerance tolerance).solve_of_defect hdefect
    exact Or.inl ⟨defect, rfl, hanswer t, hanswer u⟩
  | none =>
    have hp : p.IsValid := hdefect
    refine Or.inr ⟨hp, _, _, solve_eq _ hp, solve_eq _ hp, ?_⟩
    have hrelaxes := Solution.relaxes_filter ((s.withTolerance t).solutionOf p
      ((Tableau.initial p).run s.maxIterations)) u
    rw [← s.solutionOf_withTolerance hp h] at hrelaxes
    exact hrelaxes

/-- The optimum of the first example is at two and six, where the last two rows are
tight. Under negative infinity everything is reported, under minus one only these
rows. -/
theorem solve_withTolerance_firstExample : -Float.inf ≤ -1 ∧ ∃ strict loose,
    (standard.withTolerance (-Float.inf)).solve firstExample = .ok strict ∧
    (standard.withTolerance (-1)).solve firstExample = .ok loose ∧ strict.Relaxes (-1) loose ∧
    strict.violations.length = 5 ∧
    loose.violations = [.constraint 1 12 12 0, .constraint 2 18 18 0] := by
  have hle : -Float.inf ≤ -1 := by decide +kernel
  have hcheck : ((standard.withTolerance (-Float.inf)).solve firstExample).toOption.map
      (fun answer => (answer.isOptimal, answer.values)) = some (true, [2, 6]) := by
    decide +kernel
  obtain ⟨-, ⟨defect, -, hdefect, -⟩ | ⟨-, strict, loose, hstrict, hloose, hrelaxes⟩⟩ :=
    solve_withTolerance_relaxes standard firstExample hle
  · rw [hdefect] at hcheck
    cases hcheck
  · rw [hstrict] at hcheck
    obtain ⟨hoptimal, hvalues⟩ := Prod.mk.inj (Option.some.inj hcheck)
    have hreport := violations_of_isOptimal hstrict hoptimal
    rw [hvalues] at hreport
    refine ⟨hle, strict, loose, hstrict, hloose, hrelaxes, ?_, ?_⟩
    · rw [hreport, (Problem.perm_violations _ _ _).length_eq]
      decide +kernel
    · rw [hrelaxes.violations_eq, hreport]
      have hfinite : ∀ limit ∈ firstExample.b, limit.isFinite = true := by decide +kernel
      have hfilter := Problem.violations_eq_filter (x := [2, 6]) hfinite hle
      exact hfilter.symm.trans
        (Problem.eq_violations_of_perm (by decide +kernel) (by decide +kernel)).symm

end Solver

end LinearProgramming
