import LinearProgramming.Proofs.Arithmetic.Monotonicity
import LinearProgramming.Proofs.Tableau.Selection

/-!
What the search for the least value returns, as a condition that one candidate alone
meets. The search keeps one candidate and goes through the others in ascending order;
what it keeps is not above any candidate seen so far, and below all that come before
it. If the values can be compared, these two conditions say what the search returns
and not only what its result is like.

An undefined value cannot be compared: nothing is below it, so it is not replaced once
it is kept, and it is not below anything, so it replaces nothing.
-/

namespace LinearProgramming

section Search

variable {α : Type} [Scalar α]

/-- Of two values in order, the first is below this one or the second is above it.
Only an undefined value has no place between others. -/
def Scalar.Separates (y : α) : Prop :=
  ∀ x z : α, x < z → x < y ∨ y < z

/-- Candidates in ascending order of their labels, with values that can be compared. -/
structure Ranked (candidates : List (Nat × α)) : Prop where
  ascending : candidates.Pairwise fun first second => first.1 < second.1
  separates : ∀ candidate ∈ candidates, Scalar.Separates candidate.2

/-- No candidate is below this one, and it is below those in front of it. -/
structure IsFirstLeast (candidates : List (Nat × α)) (kept : Nat × α) : Prop where
  mem : kept ∈ candidates
  not_lt : ∀ candidate ∈ candidates, ¬candidate.2 < kept.2
  lt_of_front : ∀ candidate ∈ candidates, candidate.1 < kept.1 → kept.2 < candidate.2

variable {candidates seen : List (Nat × α)} {kept kept' next : Nat × α}

/-- Only one label meets the conditions. -/
theorem IsFirstLeast.label_unique (h : IsFirstLeast candidates kept)
    (h' : IsFirstLeast candidates kept') : kept.1 = kept'.1 := by
  rcases Nat.lt_trichotomy kept.1 kept'.1 with hlt | heq | hgt
  · exact absurd (h'.lt_of_front kept h.mem hlt) (h.not_lt kept' h'.mem)
  · exact heq
  · exact absurd (h.lt_of_front kept' h'.mem hgt) (h'.not_lt kept h.mem)

variable [Scalar.Lawful α]

/-- One more candidate: the conditions hold of what is kept of the two. -/
theorem IsFirstLeast.step (h : IsFirstLeast seen kept) (hranked : Ranked (seen ++ [next])) :
    IsFirstLeast (seen ++ [next]) (keepLess kept next) := by
  have hlast : ∀ candidate ∈ seen, candidate.1 < next.1 := by
    intro candidate hcandidate
    exact (List.pairwise_append.mp hranked.ascending).2.2 candidate hcandidate next
      (List.mem_singleton_self next)
  by_cases hlt : next.2 < kept.2
  · rw [keepLess, if_pos hlt]
    constructor
    case mem => simp
    case not_lt =>
      intro candidate hcandidate hbelow
      rcases List.mem_append.mp hcandidate with hseen | hnext
      · exact h.not_lt candidate hseen (Scalar.Lawful.lt_trans hbelow hlt)
      · rw [List.mem_singleton.mp hnext] at hbelow
        exact Scalar.Lawful.lt_irrefl _ hbelow
    case lt_of_front =>
      intro candidate hcandidate hfront
      rcases List.mem_append.mp hcandidate with hseen | hnext
      · have hseparates := hranked.separates candidate hcandidate _ _ hlt
        exact hseparates.resolve_right (h.not_lt candidate hseen)
      · rw [List.mem_singleton.mp hnext] at hfront
        exact absurd hfront (Nat.lt_irrefl _)
  · rw [keepLess, if_neg hlt]
    constructor
    case mem => exact List.mem_append_left _ h.mem
    case not_lt =>
      intro candidate hcandidate
      rcases List.mem_append.mp hcandidate with hseen | hnext
      · exact h.not_lt candidate hseen
      · rw [List.mem_singleton.mp hnext]
        exact hlt
    case lt_of_front =>
      intro candidate hcandidate hfront
      rcases List.mem_append.mp hcandidate with hseen | hnext
      · exact h.lt_of_front candidate hseen hfront
      · rw [List.mem_singleton.mp hnext] at hfront
        exact absurd hfront (Nat.lt_asymm (hlast kept h.mem))

/-- So they hold at the end of the search if they hold in the course of it. -/
theorem IsFirstLeast.foldl (h : IsFirstLeast seen kept) (rest : List (Nat × α))
    (hranked : Ranked (seen ++ rest)) :
    IsFirstLeast (seen ++ rest) (rest.foldl keepLess kept) := by
  induction rest generalizing seen kept with
  | nil => rwa [List.append_nil]
  | cons next rest ih =>
    rw [List.append_cons] at hranked ⊢
    have hstep : Ranked (seen ++ [next]) :=
      ⟨(List.pairwise_append.mp hranked.ascending).1,
        fun candidate hmem => hranked.separates candidate (List.mem_append_left _ hmem)⟩
    exact ih (h.step hstep) hranked

theorem isFirstLeast_foldl (hranked : Ranked (kept :: candidates)) :
    IsFirstLeast (kept :: candidates) (candidates.foldl keepLess kept) := by
  have halone : IsFirstLeast [kept] kept := by
    constructor
    case mem => simp
    case not_lt => simp [Scalar.Lawful.lt_irrefl]
    case lt_of_front => simp
  exact halone.foldl candidates hranked

/-- The search returns a label exactly if its candidate meets the conditions. -/
theorem firstLeast?_eq_some_iff (hranked : Ranked candidates) {label : Nat} :
    firstLeast? candidates = some label ↔ ∃ value, IsFirstLeast candidates (label, value) := by
  cases candidates with
  | nil =>
    simp only [firstLeast?, List.foldl_nil, Option.map_none, reduceCtorEq, false_iff, not_exists]
    intro value h
    cases h.mem
  | cons kept candidates =>
    have hfound := isFirstLeast_foldl hranked
    rw [firstLeast?_cons, Option.some.injEq]
    constructor
    · rintro rfl
      exact ⟨_, hfound⟩
    · rintro ⟨value, h⟩
      exact hfound.label_unique h

end Search

/-- What is picked out of a numbered list keeps the order of the numbers. -/
theorem ascending_filterMap_zipIdx {β γ : Type} (f : β × Nat → Option (Nat × γ))
    (hf : ∀ item found, f item = some found → found.1 = item.2) (items : List β) :
    (items.zipIdx.filterMap f).Pairwise fun first second => first.1 < second.1 := by
  rw [List.pairwise_filterMap, List.pairwise_iff_getElem]
  intro i j hi hj hij first hfirst second hsecond
  rw [hf _ _ hfirst, hf _ _ hsecond, List.getElem_zipIdx, List.getElem_zipIdx]
  simpa using hij

namespace Binary64

/-- A defined number lies on one side of one of two others that are in order. -/
theorem separates {y : Float} (hy : y.isNaN = false) : Scalar.Separates y := by
  intro x z hxz
  obtain ⟨hx, hz⟩ := isNaN_of_lt hxz
  rw [lt_iff_height_lt hx hz] at hxz
  rw [lt_iff_height_lt hx hy, lt_iff_height_lt hy hz]
  omega

end Binary64

end LinearProgramming
