import LinearProgramming.Violation
import Mathlib.Data.List.Basic
import Mathlib.Data.Prod.Lex

/-!
What the report of broken constraints holds, whatever the arithmetic. The check
makes an entry for a row or a coordinate when a comparison comes out true, and no
other entry. It looks at each row and each coordinate once and in turn, so an
entry is found at a place of its own and the places ascend. The report has the
entries of the search in another order; an empty one says that no comparison came
out true.
-/

namespace LinearProgramming

variable {α : Type}

/-- Where the search comes to an entry: rows before coordinates, each in
ascending order. -/
def Violation.place : Violation α → ℕ ×ₗ ℕ
  | constraint row _ _ _ => toLex (0, row)
  | negativeValue index _ => toLex (1, index)

/-- What an ascending numbering picks out of a list is numbered in ascending
order. -/
theorem Violation.pairwise_place_filterMap {β : Type} (f : β × Nat → Option (Violation α))
    (kind : Nat)
    (hf : ∀ (b : β) (i : Nat) (v : Violation α), f (b, i) = some v → v.place = toLex (kind, i))
    (l : List β) : (l.zipIdx.filterMap f).Pairwise fun v w => v.place < w.place := by
  rw [List.pairwise_filterMap, List.pairwise_iff_getElem]
  intro i j hi hj hij v hv w hw
  rw [List.getElem_zipIdx] at hv hw
  rw [hf _ _ v hv, hf _ _ w hw]
  exact Prod.Lex.toLex_lt_toLex.mpr (Or.inr ⟨rfl, by simpa using hij⟩)

namespace Problem

variable [Scalar α] {p : Problem α} {x : List α} {tolerance : α} {v : Violation α}

/-- Everything that `x` breaks, in the order of the search. -/
def search (p : Problem α) (x : List α) (tolerance : α) : List (Violation α) :=
  p.brokenRows x tolerance ++ negativeValues x tolerance

theorem mem_brokenRows_iff : v ∈ p.brokenRows x tolerance ↔
    ∃ (i : Nat) (row : List α) (limit : α), p.a[i]? = some row ∧ p.b[i]? = some limit ∧
      limit + tolerance < Scalar.dot row x ∧
      v = .constraint i limit (Scalar.dot row x) (Scalar.dot row x - limit) := by
  rw [brokenRows, List.mem_filterMap]
  constructor
  · rintro ⟨⟨⟨row, limit⟩, i⟩, hmem, hentry⟩
    obtain ⟨hrow, hlimit⟩ :=
      List.getElem?_zip_eq_some.mp (List.mem_zipIdx_iff_getElem?.mp hmem)
    obtain ⟨hbroken, hv⟩ := Option.ite_some_none_eq_some.mp hentry
    exact ⟨i, row, limit, hrow, hlimit, hbroken, hv.symm⟩
  · rintro ⟨i, row, limit, hrow, hlimit, hbroken, rfl⟩
    have hmem : ((row, limit), i) ∈ (p.a.zip p.b).zipIdx :=
      List.mem_zipIdx_iff_getElem?.mpr (List.getElem?_zip_eq_some.mpr ⟨hrow, hlimit⟩)
    exact ⟨_, hmem, if_pos hbroken⟩

theorem mem_negativeValues_iff : v ∈ negativeValues x tolerance ↔
    ∃ (j : Nat) (value : α), x[j]? = some value ∧ value < -tolerance ∧
      v = .negativeValue j value := by
  rw [negativeValues, List.mem_filterMap]
  constructor
  · rintro ⟨⟨value, j⟩, hmem, hentry⟩
    obtain ⟨hnegative, hv⟩ := Option.ite_some_none_eq_some.mp hentry
    exact ⟨j, value, List.mem_zipIdx_iff_getElem?.mp hmem, hnegative, hv.symm⟩
  · rintro ⟨j, value, hj, hnegative, rfl⟩
    exact ⟨(value, j), List.mem_zipIdx_iff_getElem?.mpr hj, if_pos hnegative⟩

theorem perm_violations (p : Problem α) (x : List α) (tolerance : α) :
    (p.violations x tolerance).Perm (p.search x tolerance) :=
  List.mergeSort_perm _ _

theorem mem_violations_iff : v ∈ p.violations x tolerance ↔
    v ∈ p.brokenRows x tolerance ∨ v ∈ negativeValues x tolerance := by
  rw [(perm_violations p x tolerance).mem_iff, search, List.mem_append]

/-- The report has an entry for a row exactly if its left-hand side is above its
limit by more than the tolerance. -/
theorem constraint_mem_violations_iff {i : Nat} {limit actual amount : α} :
    .constraint i limit actual amount ∈ p.violations x tolerance ↔ ∃ row, p.a[i]? = some row ∧
      p.b[i]? = some limit ∧ actual = Scalar.dot row x ∧ amount = actual - limit ∧
      limit + tolerance < actual := by
  rw [mem_violations_iff, mem_brokenRows_iff, mem_negativeValues_iff]
  constructor
  · rintro (⟨_, row, _, hrow, hlimit, hbroken, hv⟩ | ⟨_, _, -, -, hv⟩)
    · cases hv
      exact ⟨row, hrow, hlimit, rfl, rfl, hbroken⟩
    · cases hv
  · rintro ⟨row, hrow, hlimit, rfl, rfl, hbroken⟩
    exact Or.inl ⟨i, row, limit, hrow, hlimit, hbroken, rfl⟩

/-- It has one for a coordinate exactly if that is below zero by more than the
tolerance. -/
theorem negativeValue_mem_violations_iff {j : Nat} {value : α} :
    .negativeValue j value ∈ p.violations x tolerance ↔
      x[j]? = some value ∧ value < -tolerance := by
  rw [mem_violations_iff, mem_brokenRows_iff, mem_negativeValues_iff]
  constructor
  · rintro (⟨_, _, _, -, -, -, hv⟩ | ⟨_, _, hj, hnegative, hv⟩)
    · cases hv
    · cases hv
      exact ⟨hj, hnegative⟩
  · rintro ⟨hj, hnegative⟩
    exact Or.inr ⟨j, value, hj, hnegative, rfl⟩

/-! ## Places -/

theorem pairwise_place_search (p : Problem α) (x : List α) (tolerance : α) :
    (p.search x tolerance).Pairwise fun v w => v.place < w.place := by
  rw [search, List.pairwise_append]
  refine ⟨?rows, ?values, ?between⟩
  case rows =>
    apply Violation.pairwise_place_filterMap _ 0
    rintro ⟨row, limit⟩ i v hv
    rw [← (Option.ite_some_none_eq_some.mp hv).2]
    rfl
  case values =>
    apply Violation.pairwise_place_filterMap _ 1
    intro value i v hv
    rw [← (Option.ite_some_none_eq_some.mp hv).2]
    rfl
  case between =>
    intro v hv w hw
    obtain ⟨i, row, limit, -, -, -, rfl⟩ := mem_brokenRows_iff.mp hv
    obtain ⟨j, value, -, -, rfl⟩ := mem_negativeValues_iff.mp hw
    exact Prod.Lex.toLex_lt_toLex.mpr (Or.inl Nat.zero_lt_one)

/-- Sorting does not make the report visit a place twice. -/
theorem nodup_place_violations (p : Problem α) (x : List α) (tolerance : α) :
    ((p.violations x tolerance).map Violation.place).Nodup := by
  have hsearch : ((p.search x tolerance).map Violation.place).Nodup :=
    List.pairwise_map.mpr ((pairwise_place_search p x tolerance).imp ne_of_lt)
  exact ((perm_violations p x tolerance).map _).nodup_iff.mpr hsearch

/-! ## The empty report -/

theorem brokenRows_eq_nil_iff (p : Problem α) (x : List α) (tolerance : α) :
    p.brokenRows x tolerance = [] ↔ ∀ (i : Nat) (row : List α) (limit : α),
      p.a[i]? = some row → p.b[i]? = some limit → ¬limit + tolerance < Scalar.dot row x := by
  rw [List.eq_nil_iff_forall_not_mem]
  constructor
  · intro hnone i row limit hrow hlimit hbroken
    exact hnone _ (mem_brokenRows_iff.mpr ⟨i, row, limit, hrow, hlimit, hbroken, rfl⟩)
  · intro hkept v hv
    obtain ⟨i, row, limit, hrow, hlimit, hbroken, -⟩ := mem_brokenRows_iff.mp hv
    exact hkept i row limit hrow hlimit hbroken

theorem negativeValues_eq_nil_iff (x : List α) (tolerance : α) :
    negativeValues x tolerance = [] ↔ ∀ value ∈ x, ¬value < -tolerance := by
  rw [List.eq_nil_iff_forall_not_mem]
  constructor
  · intro hnone value hvalue hnegative
    obtain ⟨j, hj⟩ := List.mem_iff_getElem?.mp hvalue
    exact hnone _ (mem_negativeValues_iff.mpr ⟨j, value, hj, hnegative, rfl⟩)
  · intro hkept v hv
    obtain ⟨j, value, hj, hnegative, -⟩ := mem_negativeValues_iff.mp hv
    exact hkept value (List.mem_of_getElem? hj) hnegative

/-- Nothing is broken if no comparison says so. -/
theorem violations_eq_nil_iff (p : Problem α) (x : List α) (tolerance : α) :
    p.violations x tolerance = [] ↔
      (∀ (i : Nat) (row : List α) (limit : α), p.a[i]? = some row → p.b[i]? = some limit →
        ¬limit + tolerance < Scalar.dot row x) ∧
      ∀ value ∈ x, ¬value < -tolerance := by
  rw [violations, ← brokenRows_eq_nil_iff, ← negativeValues_eq_nil_iff,
    ← List.append_eq_nil_iff, ← List.length_eq_zero_iff, List.length_mergeSort,
    List.length_eq_zero_iff]

end Problem

end LinearProgramming
