import LinearProgramming.Proofs.Arithmetic.Definedness
import LinearProgramming.Proofs.Violations

/-!
The order of the report in binary64. Entries are compared by their amounts, and
what cannot be compared counts as a tie, so an undefined amount would tie with
everything and the comparison would be no order. No such amount is reported: an
entry is made only after a comparison came out true, and that leaves no room for
the difference of two equal infinities. On the entries of a report the comparison
is therefore a total preorder. Its stable sort is the only list of the entries in
which larger amounts come first and equal amounts keep the order of the search.
-/

namespace LinearProgramming

open Binary64 (key parts)

namespace Violation

/-- How the report compares two entries: the larger amount comes first, and
there is a tie if neither is larger. -/
def order (v w : Violation Float) : Ordering :=
  if w.amount < v.amount then .lt else if v.amount < w.amount then .gt else .eq

/-- The first entry stands before the second: its amount is larger, or the
amounts are equal and the search comes to it first. -/
def Precedes (v w : Violation Float) : Prop :=
  w.amount < v.amount ∨ (v.amount == w.amount) = true ∧ v.place < w.place

/-- Where the amount of an entry stands in the order of numbers. -/
def rank (v : Violation Float) : ℤ ×ₗ ℤ ×ₗ ℤ := key (parts v.amount)

deriving instance DecidableEq for Violation

instance : DecidableRel Precedes := fun v w => inferInstanceAs
  (Decidable (w.amount < v.amount ∨ (v.amount == w.amount) = true ∧ v.place < w.place))

variable {v w : Violation Float}

theorem amount_lt_iff (hv : v.amount.isNaN = false) (hw : w.amount.isNaN = false) :
    v.amount < w.amount ↔ v.rank < w.rank := by
  rw [Binary64.lt_iff]
  exact ⟨fun h => h.2.2, fun h => ⟨hv, hw, h⟩⟩

theorem amount_beq_iff (hv : v.amount.isNaN = false) (hw : w.amount.isNaN = false) :
    (v.amount == w.amount) = true ↔ v.rank = w.rank := by
  rw [Binary64.beq_iff]
  exact ⟨fun h => h.2.2, fun h => ⟨hv, hw, h⟩⟩

theorem precedes_iff (hv : v.amount.isNaN = false) (hw : w.amount.isNaN = false) :
    v.Precedes w ↔ w.rank < v.rank ∨ v.rank = w.rank ∧ v.place < w.place := by
  rw [Precedes, amount_lt_iff hw hv, amount_beq_iff hv hw]

/-- The test of the sort is whether the comparison keeps two entries in place. -/
theorem isLE_order (v w : Violation Float) : (v.order w).isLE = !decide (v.amount < w.amount) := by
  rw [order]
  split_ifs with hlarger hsmaller
  · have hsmaller : ¬v.amount < w.amount := fun h =>
      Scalar.Lawful.lt_irrefl _ (Scalar.Lawful.lt_trans h hlarger)
    rw [decide_eq_false hsmaller]
    rfl
  · rw [decide_eq_true hsmaller]
    rfl
  · rw [decide_eq_false hsmaller]
    rfl

/-- Defined amounts are compared by their ranks, downwards. -/
theorem order_eq (hv : v.amount.isNaN = false) (hw : w.amount.isNaN = false) :
    v.order w = compare w.rank v.rank := by
  rw [order]
  simp only [amount_lt_iff hw hv, amount_lt_iff hv hw]
  split_ifs with hlarger hsmaller
  · exact (compare_lt_iff_lt.mpr hlarger).symm
  · exact (compare_gt_iff_gt.mpr hsmaller).symm
  · exact (compare_eq_iff_eq.mpr (le_antisymm (not_lt.mp hsmaller) (not_lt.mp hlarger))).symm

theorem isLE_order_iff (hv : v.amount.isNaN = false) (hw : w.amount.isNaN = false) :
    (v.order w).isLE = true ↔ w.rank ≤ v.rank := by
  rw [order_eq hv hw, Ordering.isLE_iff_ne_gt]
  exact compare_le_iff_le

theorem order_swap (hv : v.amount.isNaN = false) (hw : w.amount.isNaN = false) :
    w.order v = (v.order w).swap := by
  rw [order_eq hv hw, order_eq hw hv]
  exact Std.OrientedCmp.eq_swap

theorem order_trans {u : Violation Float} (hu : u.amount.isNaN = false)
    (hv : v.amount.isNaN = false) (hw : w.amount.isNaN = false)
    (huv : (u.order v).isLE = true) (hvw : (v.order w).isLE = true) :
    (u.order w).isLE = true := by
  rw [isLE_order_iff hu hv] at huv
  rw [isLE_order_iff hv hw] at hvw
  exact (isLE_order_iff hu hw).mpr (hvw.trans huv)

/-- Only equal amounts are a tie. -/
theorem order_eq_eq_iff (hv : v.amount.isNaN = false) (hw : w.amount.isNaN = false) :
    v.order w = .eq ↔ (v.amount == w.amount) = true := by
  rw [order_eq hv hw, amount_beq_iff hv hw, compare_eq_iff_eq, eq_comm]

end Violation

/-! ## Stable sorting -/

section StableSort

variable {α β γ : Type} [LinearOrder β] [PartialOrder γ] (rank : α → β) (place : α → γ)

/-- The test of a sort by falling rank. -/
def notBelow (a b : α) : Bool := decide (rank b ≤ rank a)

theorem notBelow_trans (a b c : α) (hab : notBelow rank a b = true)
    (hbc : notBelow rank b c = true) : notBelow rank a c = true := by
  rw [notBelow, decide_eq_true_iff] at hab hbc ⊢
  exact hbc.trans hab

theorem notBelow_total (a b : α) : (notBelow rank a b || notBelow rank b a) = true := by
  rw [Bool.or_eq_true, notBelow, notBelow, decide_eq_true_iff, decide_eq_true_iff]
  exact le_total _ _

/-- Elements of one rank come out of the sort as they came in. -/
theorem filter_rank_mergeSort (l : List α) (r : β) :
    (l.mergeSort (notBelow rank)).filter (rank · = r) = l.filter (rank · = r) := by
  have hties : (l.filter (rank · = r)).Pairwise fun a b => notBelow rank a b = true := by
    apply List.pairwise_of_forall_mem_list
    intro a ha b hb
    have ha := of_decide_eq_true (List.mem_filter.mp ha).2
    have hb := of_decide_eq_true (List.mem_filter.mp hb).2
    exact decide_eq_true (hb.trans ha.symm).le
  have hsublist : (l.filter (rank · = r)).Sublist (l.mergeSort (notBelow rank)) :=
    List.sublist_mergeSort (notBelow_trans rank) (notBelow_total rank) hties List.filter_sublist
  have hfiltered := hsublist.filter (rank · = r)
  rw [List.filter_filter] at hfiltered
  simp only [Bool.and_self] at hfiltered
  exact (hfiltered.eq_of_length ((List.mergeSort_perm l _).filter _).length_eq.symm).symm

/-- A stable sort by falling rank of a list whose places ascend is sorted by
rank and then by place. -/
theorem pairwise_mergeSort_of_pairwise {l : List α}
    (hl : l.Pairwise fun a b => place a < place b) :
    (l.mergeSort (notBelow rank)).Pairwise fun a b =>
      rank b < rank a ∨ rank a = rank b ∧ place a < place b := by
  have hsorted := List.pairwise_mergeSort (notBelow_trans rank) (notBelow_total rank) l
  rw [List.pairwise_iff_forall_sublist] at hl hsorted ⊢
  intro a b hab
  rcases (of_decide_eq_true (hsorted hab)).lt_or_eq with hlt | heq
  · exact Or.inl hlt
  · have hties : [a, b].Sublist (l.filter (rank · = rank a)) := by
      rw [← filter_rank_mergeSort]
      simpa [heq] using hab.filter (rank · = rank a)
    exact Or.inr ⟨heq.symm, hl (hties.trans List.filter_sublist)⟩

end StableSort

namespace Problem

variable {p : Problem Float} {x : List Float} {tolerance : Float}

/-- An entry is made after a comparison that leaves its amount defined. -/
theorem isNaN_amount_of_mem_search {v : Violation Float} (hv : v ∈ p.search x tolerance) :
    v.amount.isNaN = false := by
  rcases List.mem_append.mp hv with hv | hv
  · obtain ⟨i, row, limit, -, -, hbroken, rfl⟩ := mem_brokenRows_iff.mp hv
    exact Binary64.isNaN_sub_of_add_lt hbroken
  · obtain ⟨j, value, -, hnegative, rfl⟩ := mem_negativeValues_iff.mp hv
    exact (Binary64.isNaN_neg value).trans ((Binary64.lt_iff _ _).mp hnegative).1

theorem isNaN_amount_of_mem_violations {v : Violation Float}
    (hv : v ∈ p.violations x tolerance) : v.amount.isNaN = false :=
  isNaN_amount_of_mem_search ((perm_violations p x tolerance).mem_iff.mp hv)

/-- The comparison of amounts may be replaced by that of ranks. -/
theorem violations_eq_mergeSort (p : Problem Float) (x : List Float) (tolerance : Float) :
    p.violations x tolerance = (p.search x tolerance).mergeSort (notBelow Violation.rank) := by
  have hcompare : ∀ v ∈ p.search x tolerance, ∀ w ∈ p.search x tolerance,
      (!decide (v.amount < w.amount)) = notBelow Violation.rank (id v) (id w) := by
    intro v hv w hw
    rw [Bool.eq_iff_iff, ← Violation.isLE_order, Violation.isLE_order_iff
      (isNaN_amount_of_mem_search hv) (isNaN_amount_of_mem_search hw), notBelow,
      decide_eq_true_iff, id, id]
  have hsort := List.map_mergeSort hcompare
  rw [List.map_id, List.map_id] at hsort
  exact hsort

theorem pairwise_precedes_violations (p : Problem Float) (x : List Float) (tolerance : Float) :
    (p.violations x tolerance).Pairwise Violation.Precedes := by
  have hsorted := pairwise_mergeSort_of_pairwise Violation.rank Violation.place
    (pairwise_place_search p x tolerance)
  rw [← violations_eq_mergeSort] at hsorted
  refine hsorted.imp_of_mem ?_
  intro v w hv hw hlex
  exact (Violation.precedes_iff (isNaN_amount_of_mem_violations hv)
    (isNaN_amount_of_mem_violations hw)).mpr hlex

/-- The entries of the search have one order in which each precedes the next. -/
theorem eq_violations_of_perm {other : List (Violation Float)}
    (hperm : other.Perm (p.search x tolerance)) (hother : other.Pairwise Violation.Precedes) :
    other = p.violations x tolerance := by
  refine List.Perm.eq_of_pairwise ?_ hother (pairwise_precedes_violations p x tolerance)
    (hperm.trans (perm_violations p x tolerance).symm)
  intro v w hv hw hvw hwv
  have hv := isNaN_amount_of_mem_search (hperm.mem_iff.mp hv)
  have hw := isNaN_amount_of_mem_violations hw
  rw [Violation.precedes_iff hv hw] at hvw
  rw [Violation.precedes_iff hw hv] at hwv
  rcases hvw with hvw | ⟨hrank, hplace⟩
  · rcases hwv with hwv | ⟨hrank, -⟩
    · exact absurd hwv hvw.not_gt
    · exact absurd hrank hvw.ne
  · rcases hwv with hwv | ⟨-, hplace'⟩
    · exact absurd hrank hwv.ne
    · exact absurd hplace' hplace.not_gt

/-- What a report says of `x`, and in which order. -/
structure Reports (p : Problem Float) (x : List Float) (tolerance : Float)
    (report : List (Violation Float)) : Prop where
  /-- The rows above their limit by more than the tolerance, and no others. -/
  constraint_mem_iff : ∀ (i : Nat) (limit actual amount : Float),
    .constraint i limit actual amount ∈ report ↔ ∃ row, p.a[i]? = some row ∧
      p.b[i]? = some limit ∧ actual = Scalar.dot row x ∧ amount = actual - limit ∧
      limit + tolerance < actual
  /-- The coordinates below zero by more than the tolerance, and no others. -/
  negativeValue_mem_iff : ∀ (j : Nat) (value : Float),
    .negativeValue j value ∈ report ↔ x[j]? = some value ∧ value < -tolerance
  /-- No row and no coordinate is reported twice. -/
  nodup_place : (report.map Violation.place).Nodup
  isNaN_amount : ∀ v ∈ report, v.amount.isNaN = false
  order_swap : ∀ v ∈ report, ∀ w ∈ report, w.order v = (v.order w).swap
  order_trans : ∀ u ∈ report, ∀ v ∈ report, ∀ w ∈ report,
    (u.order v).isLE = true → (v.order w).isLE = true → (u.order w).isLE = true
  /-- Only equal amounts are a tie. -/
  order_eq_iff : ∀ v ∈ report, ∀ w ∈ report, v.order w = .eq ↔ (v.amount == w.amount) = true
  /-- The largest amount first, and equal amounts in the order of the search. -/
  pairwise_precedes : report.Pairwise Violation.Precedes
  /-- No other list of the entries has this order. -/
  eq_of_perm : ∀ other : List (Violation Float), other.Perm (p.search x tolerance) →
    other.Pairwise Violation.Precedes → other = report

/-- With a limit for each row, the check reports what `x` breaks, the worst
first. -/
theorem violations?_reports (hp : p.a.length ≤ p.b.length) (x : List Float) (tolerance : Float) :
    ∃ report, p.violations? x tolerance = some report ∧ p.Reports x tolerance report := by
  refine ⟨p.violations x tolerance, if_pos hp, ?_⟩
  have hdefined : ∀ v ∈ p.violations x tolerance, v.amount.isNaN = false :=
    fun v hv => isNaN_amount_of_mem_violations hv
  constructor
  case constraint_mem_iff => exact fun i limit actual amount => constraint_mem_violations_iff
  case negativeValue_mem_iff => exact fun j value => negativeValue_mem_violations_iff
  case nodup_place => exact nodup_place_violations p x tolerance
  case isNaN_amount => exact hdefined
  case order_swap => exact fun v hv w hw => Violation.order_swap (hdefined v hv) (hdefined w hw)
  case order_trans =>
    intro u hu v hv w hw
    exact Violation.order_trans (hdefined u hu) (hdefined v hv) (hdefined w hw)
  case order_eq_iff =>
    intro v hv w hw
    exact Violation.order_eq_eq_iff (hdefined v hv) (hdefined w hw)
  case pairwise_precedes => exact pairwise_precedes_violations p x tolerance
  case eq_of_perm => exact fun other hperm hother => eq_violations_of_perm hperm hother

/-- Rows of several lengths, among them an empty one and one that meets an
undefined coordinate. The last two rows come to their infinite limits. -/
def ragged : Problem Float :=
  ⟨[[1], [], [1], [0, 0, 0, 1], [0, 1], [1, -1]],
    [1, -1, -Float.inf, 0, -Float.inf, Float.inf, 0], []⟩

/-- A point with an infinite and an undefined coordinate. -/
def raggedPoint : List Float :=
  [2, -Float.inf, -1, Float.nan, -1]

/-- Two amounts are infinite and four are one. Both times the rows come first. -/
theorem violations?_ragged : ragged.a.length ≤ ragged.b.length ∧
    ∃ report, ragged.violations? raggedPoint 0.5 = some report ∧
      ragged.Reports raggedPoint 0.5 report ∧
      report = [.constraint 2 (-Float.inf) 2 Float.inf, .negativeValue 1 (-Float.inf),
        .constraint 0 1 2 1, .constraint 1 (-1) (-0) 1, .negativeValue 2 (-1),
        .negativeValue 4 (-1)] := by
  have hlength : ragged.a.length ≤ ragged.b.length := by decide
  obtain ⟨report, hreport, hreports⟩ := violations?_reports hlength raggedPoint 0.5
  refine ⟨hlength, report, hreport, hreports, (hreports.eq_of_perm _ ?perm ?pairwise).symm⟩
  case perm => decide +kernel
  case pairwise => decide +kernel

end Problem

end LinearProgramming
