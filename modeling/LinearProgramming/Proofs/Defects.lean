import LinearProgramming.Proofs.Arithmetic.Binary64
import LinearProgramming.Proofs.Validity

/-!
Which defect is named. Data may have any number of defects at once, and only the
first one is reported. `Problem.FirstDefect` says of a defect where it stands and
that nothing looked at before it has one: first the sizes, then the rows from top
to bottom, a row's length before its entries, then the objective, and last the
bounds from top to bottom. The search finds this defect and no other.
-/

namespace LinearProgramming

/-- A search with positions stops at the first element that answers. -/
theorem findSome?_zipIdx_eq_some_iff {β γ : Type} {l : List β} {f : β × Nat → Option γ}
    {found : γ} : l.zipIdx.findSome? f = some found ↔
      ∃ index x, l[index]? = some x ∧ f (x, index) = some found ∧
        ∀ i < index, ∀ y, l[i]? = some y → f (y, i) = none := by
  rw [List.findSome?_eq_some_iff]
  constructor
  · rintro ⟨before, ⟨x, index⟩, after, hsplit, hfound, hearlier⟩
    have hindex : before.length = index := by
      have hx : l.zipIdx[before.length]? = some (x, index) := by
        rw [hsplit, List.getElem?_append_right (Nat.le_refl _), Nat.sub_self]
        rfl
      rw [List.getElem?_zipIdx, Option.map_eq_some_iff] at hx
      obtain ⟨y, -, hpair⟩ := hx
      have hposition := congrArg Prod.snd hpair
      simpa using hposition
    subst hindex
    have hmem : (x, before.length) ∈ l.zipIdx := by simp [hsplit]
    refine ⟨before.length, x, List.mem_zipIdx_iff_getElem?.mp hmem, hfound, ?_⟩
    intro i hi y hy
    have hpair : l.zipIdx[i]? = some (y, i) := by
      rw [List.getElem?_zipIdx, hy, Option.map_some, Nat.zero_add]
    rw [hsplit, List.getElem?_append_left hi] at hpair
    exact hearlier _ (List.mem_of_getElem? hpair)
  · rintro ⟨index, x, hx, hfound, hearlier⟩
    obtain ⟨hindex, rfl⟩ := List.getElem?_eq_some_iff.mp hx
    have hlength : index < l.zipIdx.length := by rwa [List.length_zipIdx]
    refine ⟨l.zipIdx.take index, (l[index], index), l.zipIdx.drop (index + 1), ?_, hfound, ?_⟩
    · have hpair : l.zipIdx[index] = (l[index], index) := by simp
      rw [← hpair, List.cons_getElem_drop_succ, List.take_append_drop]
    · rintro ⟨y, i⟩ hmem
      obtain ⟨j, hj⟩ := List.mem_iff_getElem?.mp hmem
      rw [List.getElem?_take] at hj
      split at hj
      · rename_i hlt
        rw [List.getElem?_zipIdx, Option.map_eq_some_iff] at hj
        obtain ⟨z, hz, hpair⟩ := hj
        rw [Nat.zero_add, Prod.mk.injEq] at hpair
        obtain ⟨rfl, rfl⟩ := hpair
        exact hearlier _ hlt _ hz
      · cases hj

namespace Problem

variable {α : Type} [Scalar α]

/-- As many rows as bounds, and at least one row and one variable. -/
def HasSizes (p : Problem α) : Prop :=
  p.a.length = p.b.length ∧ 1 ≤ p.b.length ∧ 1 ≤ p.c.length

/-- A row with one finite coefficient for each variable. -/
def RowFits (p : Problem α) (row : List α) : Prop :=
  row.length = p.c.length ∧ ∀ value ∈ row, Scalar.isFinite value = true

/-- A bound that the start `x = 0` satisfies. -/
def LimitFits (limit : α) : Prop :=
  Scalar.isFinite limit = true ∧ ¬limit < 0

/-- The defect is there, and nothing that is looked at before it has one. -/
inductive FirstDefect (p : Problem α) : Defect α → Prop
  | rhsLength (hrows : p.a.length ≠ p.b.length) :
      FirstDefect p (.rhsLength p.a.length p.b.length)
  | empty (hrows : p.a.length = p.b.length) (hempty : p.b.length = 0 ∨ p.c.length = 0) :
      FirstDefect p .empty
  | rowLength {index : Nat} {row : List α} (hsizes : p.HasSizes)
      (hearlier : ∀ i < index, ∀ other, p.a[i]? = some other → p.RowFits other)
      (hrow : p.a[index]? = some row) (hlength : row.length ≠ p.c.length) :
      FirstDefect p (.rowLength index p.c.length row.length)
  | rowEntry {index : Nat} {row : List α} {value : α} (hsizes : p.HasSizes)
      (hearlier : ∀ i < index, ∀ other, p.a[i]? = some other → p.RowFits other)
      (hrow : p.a[index]? = some row) (hlength : row.length = p.c.length)
      (hmem : value ∈ row) (hvalue : Scalar.isFinite value = false) :
      FirstDefect p (.nonFinite (.constraintRow index))
  | objectiveEntry {value : α} (hsizes : p.HasSizes) (hrows : ∀ row ∈ p.a, p.RowFits row)
      (hmem : value ∈ p.c) (hvalue : Scalar.isFinite value = false) :
      FirstDefect p (.nonFinite .objective)
  | limitEntry {index : Nat} {limit : α} (hsizes : p.HasSizes)
      (hrows : ∀ row ∈ p.a, p.RowFits row)
      (hobjective : ∀ value ∈ p.c, Scalar.isFinite value = true)
      (hearlier : ∀ i < index, ∀ other, p.b[i]? = some other → LimitFits other)
      (hlimit : p.b[index]? = some limit) (hvalue : Scalar.isFinite limit = false) :
      FirstDefect p (.nonFinite (.rhs index))
  | negativeLimit {index : Nat} {limit : α} (hsizes : p.HasSizes)
      (hrows : ∀ row ∈ p.a, p.RowFits row)
      (hobjective : ∀ value ∈ p.c, Scalar.isFinite value = true)
      (hearlier : ∀ i < index, ∀ other, p.b[i]? = some other → LimitFits other)
      (hlimit : p.b[index]? = some limit) (hfinite : Scalar.isFinite limit = true)
      (hnegative : limit < 0) :
      FirstDefect p (.negativeRhs index limit)

/-! ## What each check answers -/

theorem allFinite_eq_true_iff (values : List α) :
    Scalar.allFinite values = true ↔ ∀ value ∈ values, Scalar.isFinite value = true :=
  List.all_eq_true

theorem allFinite_eq_false_iff (values : List α) :
    Scalar.allFinite values = false ↔ ∃ value ∈ values, Scalar.isFinite value = false := by
  rw [Scalar.allFinite, List.all_eq_false]
  simp only [Bool.not_eq_true]

omit [Scalar α] in
theorem shapeDefect?_eq_some_iff {p : Problem α} {defect : Defect α} :
    p.shapeDefect? = some defect ↔
      (p.a.length ≠ p.b.length ∧ defect = .rhsLength p.a.length p.b.length) ∨
        (p.a.length = p.b.length ∧ (p.b.length = 0 ∨ p.c.length = 0) ∧ defect = .empty) := by
  rw [shapeDefect?, numConstraints, numVariables]
  split_ifs with hrows hempty
  · simp only [hrows, false_and, or_false, not_false_eq_true, true_and, Option.some.injEq,
      ne_eq, eq_comm]
  · simp only [hempty, false_and, false_or, not_not.mp hrows, true_and, Option.some.injEq,
      ne_eq, not_true, eq_comm]
  · simp only [hrows, hempty, false_and, and_false, or_self]

theorem rowDefect?_eq_some_iff {expected index : Nat} {row : List α} {defect : Defect α} :
    rowDefect? expected index row = some defect ↔
      (row.length ≠ expected ∧ defect = .rowLength index expected row.length) ∨
        (row.length = expected ∧ (∃ value ∈ row, Scalar.isFinite value = false) ∧
          defect = .nonFinite (.constraintRow index)) := by
  rw [rowDefect?, ← allFinite_eq_false_iff]
  split_ifs with hlength hfinite
  · simp [hlength, eq_comm (a := defect)]
  · simp [not_not.mp hlength, hfinite]
  · simp [not_not.mp hlength, hfinite, eq_comm (a := defect)]

theorem objectiveDefect?_eq_some_iff {p : Problem α} {defect : Defect α} :
    p.objectiveDefect? = some defect ↔
      (∃ value ∈ p.c, Scalar.isFinite value = false) ∧ defect = .nonFinite .objective := by
  rw [objectiveDefect?, ← allFinite_eq_false_iff]
  cases hfinite : Scalar.allFinite p.c with
  | true => simp
  | false => simp [eq_comm (a := defect)]

theorem rhsDefect?_eq_some_iff {index : Nat} {limit : α} {defect : Defect α} :
    rhsDefect? index limit = some defect ↔
      (Scalar.isFinite limit = false ∧ defect = .nonFinite (.rhs index)) ∨
        (Scalar.isFinite limit = true ∧ limit < 0 ∧ defect = .negativeRhs index limit) := by
  rw [rhsDefect?]
  cases hfinite : Scalar.isFinite limit with
  | false => simp [eq_comm]
  | true => by_cases hnegative : limit < 0 <;> simp [hnegative, eq_comm]

omit [Scalar α] in
theorem shapeDefect?_eq_none_iff_hasSizes {p : Problem α} :
    p.shapeDefect? = none ↔ p.HasSizes :=
  shapeDefect?_eq_none_iff p

theorem rowDefect?_eq_none_iff_rowFits {p : Problem α} {index : Nat} {row : List α} :
    rowDefect? p.numVariables index row = none ↔ p.RowFits row := by
  rw [rowDefect?_eq_none_iff, allFinite_eq_true_iff]
  rfl

theorem objectiveDefect?_eq_none_iff_finite {p : Problem α} :
    p.objectiveDefect? = none ↔ ∀ value ∈ p.c, Scalar.isFinite value = true := by
  rw [objectiveDefect?_eq_none_iff, allFinite_eq_true_iff]

theorem rhsDefect?_eq_none_iff_limitFits {index : Nat} {limit : α} :
    rhsDefect? index limit = none ↔ LimitFits limit :=
  rhsDefect?_eq_none_iff index limit

/-! ## The search -/

theorem rowSearch_eq_none_iff {p : Problem α} :
    p.a.zipIdx.findSome? (fun (row, index) => rowDefect? p.numVariables index row) = none ↔
      ∀ row ∈ p.a, p.RowFits row := by
  simp only [List.findSome?_eq_none_iff, List.forall_mem_iff_getElem, List.length_zipIdx,
    List.getElem_zipIdx, rowDefect?_eq_none_iff_rowFits]

/-- The first row that does not fit, if the sizes are right. -/
theorem rowSearch_eq_some_iff {p : Problem α} {defect : Defect α} :
    p.a.zipIdx.findSome? (fun (row, index) => rowDefect? p.numVariables index row) = some defect ↔
      ∃ index row, p.a[index]? = some row ∧
        ((row.length ≠ p.c.length ∧ defect = .rowLength index p.c.length row.length) ∨
          (row.length = p.c.length ∧ (∃ value ∈ row, Scalar.isFinite value = false) ∧
            defect = .nonFinite (.constraintRow index))) ∧
        ∀ i < index, ∀ other, p.a[i]? = some other → p.RowFits other := by
  simp only [findSome?_zipIdx_eq_some_iff, rowDefect?_eq_none_iff_rowFits, rowDefect?_eq_some_iff]
  rfl

/-- The first bound that does not fit. -/
theorem limitSearch_eq_some_iff {p : Problem α} {defect : Defect α} :
    p.b.zipIdx.findSome? (fun (value, index) => rhsDefect? index value) = some defect ↔
      ∃ index limit, p.b[index]? = some limit ∧
        ((Scalar.isFinite limit = false ∧ defect = .nonFinite (.rhs index)) ∨
          (Scalar.isFinite limit = true ∧ limit < 0 ∧ defect = .negativeRhs index limit)) ∧
        ∀ i < index, ∀ other, p.b[i]? = some other → LimitFits other := by
  simp only [findSome?_zipIdx_eq_some_iff, rhsDefect?_eq_none_iff_limitFits,
    rhsDefect?_eq_some_iff]

/-- The search reports a defect exactly if it is the first one. -/
theorem defect?_eq_some_iff {p : Problem α} {defect : Defect α} :
    p.defect? = some defect ↔ p.FirstDefect defect := by
  simp only [defect?, Option.orElse_eq_orElse, Option.orElse_eq_or,
    Option.or_eq_some_iff, shapeDefect?_eq_none_iff_hasSizes, rowSearch_eq_none_iff,
    objectiveDefect?_eq_none_iff_finite, shapeDefect?_eq_some_iff, rowSearch_eq_some_iff,
    objectiveDefect?_eq_some_iff, limitSearch_eq_some_iff]
  constructor
  · rintro ((⟨hrows, rfl⟩ | ⟨hrows, hempty, rfl⟩) | ⟨hsizes, hrest⟩)
    · exact .rhsLength hrows
    · exact .empty hrows hempty
    · rcases hrest with ⟨index, row, hrow, hdefect, hearlier⟩ | ⟨hrows, hrest⟩
      · rcases hdefect with ⟨hlength, rfl⟩ | ⟨hlength, ⟨value, hmem, hvalue⟩, rfl⟩
        · exact .rowLength hsizes hearlier hrow hlength
        · exact .rowEntry hsizes hearlier hrow hlength hmem hvalue
      · rcases hrest with ⟨⟨value, hmem, hvalue⟩, rfl⟩ | ⟨hobjective, index, limit, hlimit, hrest⟩
        · exact .objectiveEntry hsizes hrows hmem hvalue
        · obtain ⟨hdefect, hearlier⟩ := hrest
          rcases hdefect with ⟨hvalue, rfl⟩ | ⟨hfinite, hnegative, rfl⟩
          · exact .limitEntry hsizes hrows hobjective hearlier hlimit hvalue
          · exact .negativeLimit hsizes hrows hobjective hearlier hlimit hfinite hnegative
  · intro h
    cases h with
    | rhsLength hrows => exact Or.inl (Or.inl ⟨hrows, rfl⟩)
    | empty hrows hempty => exact Or.inl (Or.inr ⟨hrows, hempty, rfl⟩)
    | rowLength hsizes hearlier hrow hlength =>
      exact Or.inr ⟨hsizes, Or.inl ⟨_, _, hrow, Or.inl ⟨hlength, rfl⟩, hearlier⟩⟩
    | rowEntry hsizes hearlier hrow hlength hmem hvalue =>
      exact Or.inr ⟨hsizes, Or.inl ⟨_, _, hrow,
        Or.inr ⟨hlength, ⟨_, hmem, hvalue⟩, rfl⟩, hearlier⟩⟩
    | objectiveEntry hsizes hrows hmem hvalue =>
      exact Or.inr ⟨hsizes, Or.inr ⟨hrows, Or.inl ⟨⟨_, hmem, hvalue⟩, rfl⟩⟩⟩
    | limitEntry hsizes hrows hobjective hearlier hlimit hvalue =>
      exact Or.inr ⟨hsizes, Or.inr ⟨hrows, Or.inr ⟨hobjective, _, _, hlimit,
        Or.inl ⟨hvalue, rfl⟩, hearlier⟩⟩⟩
    | negativeLimit hsizes hrows hobjective hearlier hlimit hfinite hnegative =>
      exact Or.inr ⟨hsizes, Or.inr ⟨hrows, Or.inr ⟨hobjective, _, _, hlimit,
        Or.inr ⟨hfinite, hnegative, rfl⟩, hearlier⟩⟩⟩

/-! ## The conditions on the data -/

theorem isValid_iff_fits {p : Problem α} : p.IsValid ↔
    p.HasSizes ∧ (∀ row ∈ p.a, p.RowFits row) ∧
      (∀ value ∈ p.c, Scalar.isFinite value = true) ∧ ∀ limit ∈ p.b, LimitFits limit := by
  rw [isValid_iff]
  constructor
  · intro h
    exact ⟨⟨h.length_rows, h.constraints_pos, h.variables_pos⟩,
      fun row hmem => ⟨h.length_row row hmem, (allFinite_eq_true_iff row).mp (h.finite_row row hmem)⟩,
      (allFinite_eq_true_iff p.c).mp h.finite_objective,
      fun limit hmem => ⟨h.finite_limit limit hmem, h.limit_not_negative limit hmem⟩⟩
  · rintro ⟨⟨hrows, hconstraints, hvariables⟩, hfits, hobjective, hlimits⟩
    exact {
      length_rows := hrows
      constraints_pos := hconstraints
      variables_pos := hvariables
      length_row := fun row hmem => (hfits row hmem).1
      finite_row := fun row hmem => (allFinite_eq_true_iff row).mpr (hfits row hmem).2
      finite_objective := (allFinite_eq_true_iff p.c).mpr hobjective
      finite_limit := fun limit hmem => (hlimits limit hmem).1
      limit_not_negative := fun limit hmem => (hlimits limit hmem).2 }

/-- The problem with a negative zero for every zero bound. -/
def withNegativeZeros (p : Problem Float) : Problem Float :=
  { p with b := p.b.map fun limit => if limit == 0 then -0.0 else limit }

theorem limitFits_of_zero {limit : Float} (hzero : (limit == 0) = true) : LimitFits limit := by
  obtain ⟨s, hs⟩ := (Binary64.beq_zero_iff limit).mp hzero
  exact ⟨(Binary64.isFinite_iff limit).mpr (Or.inl ⟨s, hs⟩), Scalar.Lawful.not_lt_zero hzero⟩

/-- A zero bound may have either sign. -/
theorem isValid_withNegativeZeros_iff (p : Problem Float) :
    p.withNegativeZeros.IsValid ↔ p.IsValid := by
  have hlimit : ∀ limit : Float,
      LimitFits (if limit == 0 then -0.0 else limit) ↔ LimitFits limit := by
    intro limit
    split
    case isTrue hzero => exact iff_of_true (limitFits_of_zero rfl) (limitFits_of_zero hzero)
    case isFalse => exact Iff.rfl
  rw [isValid_iff_fits, isValid_iff_fits]
  simp only [HasSizes, RowFits, withNegativeZeros, List.length_map, List.forall_mem_map, hlimit]

end Problem

namespace Tableau

/-- A tableau is made from the problems in canonical form and from no others, where a
bound of negative zero counts as zero. For all other data the answer is the first
defect, with the place, the lengths and the value that it is about. -/
theorem ofProblem_firstDefect (p : Problem Float) :
    (p.defect? = none ↔
      (p.a.length = p.b.length ∧ 1 ≤ p.b.length ∧ 1 ≤ p.c.length) ∧
      (∀ row ∈ p.a, row.length = p.c.length ∧ ∀ value ∈ row, value.isFinite = true) ∧
      (∀ value ∈ p.c, value.isFinite = true) ∧
      ∀ limit ∈ p.b, limit.isFinite = true ∧ ¬limit < 0) ∧
    (p.withNegativeZeros.defect? = none ↔ p.defect? = none) ∧
    (∀ defect, p.defect? = some defect ↔ p.FirstDefect defect) ∧
    ((∃ start, ofProblem p = .ok start) ↔ p.defect? = none) ∧
    ∀ defect, ofProblem p = .error defect ↔ p.defect? = some defect := by
  refine ⟨Problem.isValid_iff_fits, p.isValid_withNegativeZeros_iff,
    fun _ => Problem.defect?_eq_some_iff, ?_, ?_⟩
  all_goals
    rw [ofProblem]
    cases p.defect? with
    | none => simp
    | some defect => simp

/-- Data with a short row, a row with an infinite entry, an undefined cost and a
negative bound. -/
def flawed : Problem Float :=
  ⟨[[1, 2], [1 / 0, 3], [4]], [5, -6, -0.0], [0 / 0, 1]⟩

/-- Of the four defects the infinite entry is named, since its row comes first; with
all of them mended the negative zero among the bounds remains, which is none. -/
theorem ofProblem_firstDefect_flawed :
    flawed.FirstDefect (.nonFinite (.constraintRow 1)) ∧
    ofProblem flawed = .error (.nonFinite (.constraintRow 1)) ∧
    ∃ start, ofProblem (⟨[[1, 2], [2, 3], [4, 0]], [5, 6, -0.0], [7, 1]⟩ : Problem Float) =
      .ok start := by
  obtain ⟨-, -, hfirst, -, herror⟩ := ofProblem_firstDefect flawed
  have hdefect : flawed.defect? = some (.nonFinite (.constraintRow 1)) := by rfl
  refine ⟨(hfirst _).mp hdefect, (herror _).mpr hdefect, ?_⟩
  obtain ⟨-, -, -, haccepts, -⟩ :=
    ofProblem_firstDefect ⟨[[1, 2], [2, 3], [4, 0]], [5, 6, -0.0], [7, 1]⟩
  exact haccepts.mpr (by rfl)

end Tableau

end LinearProgramming
