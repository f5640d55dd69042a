import LinearProgramming.Json.Problem
import LinearProgramming.Json.Solution
import LinearProgramming.Proofs.Text.Library

/-!
Problems and solutions survive being written and read. They do so exactly as long as
their numbers are finite. An infinite or undefined number is written as `null`, which
is refused in a list and in a violation, but stands for an absent objective value.
-/

namespace LinearProgramming

open Json (Library)
open Json.Library

variable {α : Type} {json : Library α}

/-! ## Violations -/

namespace Violation

/-- The numbers that a violation reports. -/
def floats : Violation Float → List Float
  | constraint _ limit actual amount => [limit, actual, amount]
  | negativeValue _ value => [value]

/-- The row or the coordinate that is violated. -/
def index : Violation Float → Nat
  | constraint row _ _ _ => row
  | negativeValue index _ => index

def isFinite (v : Violation Float) : Bool := v.floats.all Float.isFinite

theorem toOption_constraintOfJson (hvalues : json.ReadsValues) (hfloats : json.ReadsFloats)
    {row : Nat} (hrow : row < countBound) (limit actual amount : Float) :
    (constraintOfJson json (json.ofFields [("row", json.ofCount row),
      ("limit", json.ofFloat limit), ("actual", json.ofFloat actual),
      ("amount", json.ofFloat amount)])).toOption =
        Option.guard isFinite (constraint row limit actual amount) := by
  rw [constraintOfJson]
  apply hvalues.toOption_fields
  case hdifferent => decide
  case hnames => rfl
  intro found hfound
  simp only [List.forall_mem_cons] at hfound
  obtain ⟨hfirst, hsecond, hthird, hfourth, -⟩ := hfound
  simp only [toOption_bind, toOption_required, hfirst, hsecond, hthird, hfourth,
    Option.bind_some, hvalues.toOption_count hrow, hfloats.toOption_float, toOption_pure]
  cases hl : limit.isFinite <;> cases ha : actual.isFinite <;> cases hm : amount.isFinite <;>
    simp [Option.guard, isFinite, floats, hl, ha, hm]

theorem toOption_negativeValueOfJson (hvalues : json.ReadsValues) (hfloats : json.ReadsFloats)
    {index : Nat} (hindex : index < countBound) (value : Float) :
    (negativeValueOfJson json (json.ofFields [("index", json.ofCount index),
      ("value", json.ofFloat value)])).toOption =
        Option.guard isFinite (negativeValue index value) := by
  rw [negativeValueOfJson]
  apply hvalues.toOption_fields
  case hdifferent => decide
  case hnames => rfl
  intro found hfound
  simp only [List.forall_mem_cons] at hfound
  obtain ⟨hfirst, hsecond, -⟩ := hfound
  simp only [toOption_bind, toOption_required, hfirst, hsecond, Option.bind_some,
    hvalues.toOption_count hindex, hfloats.toOption_float, toOption_pure]
  cases hv : value.isFinite <;> simp [Option.guard, isFinite, floats, hv]

/-- A violation is read back if its numbers are finite. -/
theorem toOption_ofJson (hvalues : json.ReadsValues) (hfloats : json.ReadsFloats)
    {v : Violation Float} (hindex : v.index < countBound) :
    (ofJson json (v.toJson json)).toOption = Option.guard isFinite v := by
  cases v with
  | constraint row limit actual amount =>
    rw [toJson, ofJson, hvalues.variant_ofVariant]
    exact toOption_constraintOfJson hvalues hfloats hindex limit actual amount
  | negativeValue index value =>
    rw [toJson, ofJson, hvalues.variant_ofVariant]
    exact toOption_negativeValueOfJson hvalues hfloats hindex value

end Violation

/-- What is read as a violation has finite numbers and an index of 64 bits. -/
theorem Violation.of_ofJson (hvalues : json.ReadsValues) (hfloats : json.ReadsFloats) {v : α}
    {violation : Violation Float} (h : Violation.ofJson json v = .ok violation) :
    violation.isFinite = true ∧ violation.index < countBound := by
  obtain ⟨⟨name, content⟩, -, hkind⟩ := bind_eq_ok_iff.mp h
  split at hkind
  · simp only [constraintOfJson, bind_eq_ok_iff, pure_eq_ok_iff] at hkind
    obtain ⟨_, -, _, -, row, hrow, _, -, limit, hlimit, _, -, actual, hactual, _, -,
      amount, hamount, rfl⟩ := hkind
    refine ⟨?_, hvalues.lt_of_count _ _ hrow⟩
    simp [isFinite, floats, hfloats.isFinite_of_float _ _ hlimit,
      hfloats.isFinite_of_float _ _ hactual, hfloats.isFinite_of_float _ _ hamount]
  · simp only [negativeValueOfJson, bind_eq_ok_iff, pure_eq_ok_iff] at hkind
    obtain ⟨_, -, _, -, index, hindex, _, -, value, hvalue, rfl⟩ := hkind
    refine ⟨?_, hvalues.lt_of_count _ _ hindex⟩
    simp [isFinite, floats, hfloats.isFinite_of_float _ _ hvalue]
  · cases hkind

theorem Violation.builds_toJson {v : Violation Float} (hindex : v.index < countBound) :
    json.Builds 2 (v.toJson json) := by
  cases v with
  | constraint row limit actual amount =>
    refine .variant _ (.fields (by decide : ["row", "limit", "actual", "amount"].Nodup) ?_)
    simp only [List.forall_mem_cons]
    exact ⟨.count 0 hindex, .float 0 limit, .float 0 actual, .float 0 amount,
      List.forall_mem_nil _⟩
  | negativeValue index value =>
    refine .variant _ (.fields (by decide : ["index", "value"].Nodup) ?_)
    simp only [List.forall_mem_cons]
    exact ⟨.count 0 hindex, .float 0 value, List.forall_mem_nil _⟩

theorem all_flatMap_floats (violations : List (Violation Float)) :
    (violations.flatMap Violation.floats).all Float.isFinite =
      violations.all Violation.isFinite := by
  rw [List.all_flatMap]
  rfl

/-! ## Solutions -/

theorem Status.ofName?_name (status : Status) : ofName? status.name = some status := by
  cases status <;> rfl

theorem Status.ofJson_toJson (hvalues : json.ReadsValues) (status : Status) :
    ofJson json (status.toJson json) = .ok status := by
  rw [ofJson, toJson, hvalues.variant_ofVariant]
  simp only [bind, Except.bind, ofName?_name, Option.all_none, if_true]
  rfl

namespace Solution

/-- The numbers that stand in lists and violations, where none may be missing. -/
def listedFloats (s : Solution Float) : List Float :=
  s.values ++ s.violations.flatMap Violation.floats

def floats (s : Solution Float) : List Float :=
  s.listedFloats ++ s.objectiveValue.toList

/-- The count and the indices fit into a word of 64 bits. -/
def FitsWords (s : Solution Float) : Prop :=
  s.iterations < countBound ∧ ∀ v ∈ s.violations, v.index < countBound

/-- An objective value that is not finite is read as an absent one. -/
theorem toOption_objectiveOfJson (hvalues : json.ReadsValues) (hfloats : json.ReadsFloats)
    (value : Option Float) :
    (objectiveOfJson json (some ((value.map json.ofFloat).getD json.null))).toOption =
      some (value.filter Float.isFinite) := by
  have hnull : json.isNull json.null = true := (hvalues.isNull_iff _).mpr rfl
  cases value with
  | none => simp [objectiveOfJson, hnull]
  | some x =>
    rw [Option.map_some, Option.getD_some]
    cases hx : x.isFinite with
    | true =>
      -- `null` is no number, so the number has not been written as `null`
      have hsome : json.isNull (json.ofFloat x) = false := by
        refine Bool.eq_false_iff.mpr fun h => ?_
        obtain ⟨reason, hreason⟩ := hfloats.float_null
        rw [← (hvalues.isNull_iff _).mp h, hfloats.float_ofFloat x hx] at hreason
        cases hreason
      have hkept : (some x).filter Float.isFinite = some x := by simp [hx]
      rw [objectiveOfJson, hsome, hfloats.float_ofFloat x hx, hkept]
      rfl
    | false =>
      have hdropped : (some x).filter Float.isFinite = none := by simp [hx]
      rw [hfloats.ofFloat_eq_null x hx, objectiveOfJson, if_pos hnull, hdropped]
      rfl

theorem toOption_ofJson (hvalues : json.ReadsValues) (hfloats : json.ReadsFloats)
    {s : Solution Float} (hwords : s.FitsWords) :
    (ofJson json (s.toJson json)).toOption = if s.listedFloats.all Float.isFinite then
      some { s with objectiveValue := s.objectiveValue.filter Float.isFinite } else none := by
  rw [toJson, ofJson]
  apply hvalues.toOption_fields
  case hdifferent => decide
  case hnames => rfl
  intro found hfound
  simp only [List.forall_mem_cons] at hfound
  obtain ⟨hstatus, hlist, hobjective, hiterations, hreport, -⟩ := hfound
  have hviolations := hvalues.toOption_items fun v hv =>
    Violation.toOption_ofJson hvalues hfloats (hwords.2 v hv)
  have hlisted : s.listedFloats.all Float.isFinite =
      (s.values.all Float.isFinite && s.violations.all Violation.isFinite) := by
    rw [listedFloats, List.all_append, all_flatMap_floats]
  simp only [toOption_bind, toOption_ok, toOption_required, hstatus, hlist, hobjective,
    hiterations, hreport, Option.bind_some, Status.ofJson_toJson hvalues,
    hvalues.toOption_items fun x _ => hfloats.toOption_float x,
    toOption_objectiveOfJson hvalues hfloats, hvalues.toOption_count hwords.1, hviolations,
    toOption_pure]
  cases hfinite : s.values.all Float.isFinite <;>
    cases hwhole : s.violations.all Violation.isFinite <;>
    simp [Option.guard, hlisted, hfinite, hwhole]

theorem isFinite_of_objectiveOfJson (hfloats : json.ReadsFloats) {field : Option α}
    {value : Option Float} (h : objectiveOfJson json field = .ok value) {x : Float}
    (hx : x ∈ value) : x.isFinite = true := by
  unfold objectiveOfJson at h
  split at h
  · cases h
    cases hx
  · split_ifs at h
    · cases h
      cases hx
    · simp only [bind_eq_ok_iff, pure_eq_ok_iff] at h
      obtain ⟨y, hy, rfl⟩ := h
      obtain rfl := Option.some.inj hx
      exact hfloats.isFinite_of_float _ _ hy

/-- What is read as a solution has finite numbers, and counts of 64 bits. -/
theorem of_ofJson (hvalues : json.ReadsValues) (hfloats : json.ReadsFloats) {v : α}
    {s : Solution Float} (h : ofJson json v = .ok s) :
    (∀ x ∈ s.floats, x.isFinite = true) ∧ s.FitsWords := by
  simp only [ofJson, bind_eq_ok_iff, pure_eq_ok_iff] at h
  obtain ⟨_, -, _, -, status, -, _, -, values, hlist, objective, hobjective, _, -, iterations,
    hiterations, _, -, violations, hreport, rfl⟩ := h
  have hviolation (violation : Violation Float) (hmem : violation ∈ violations) :=
    (exists_of_items hreport violation hmem).elim fun _ hpart =>
      Violation.of_ofJson hvalues hfloats hpart
  refine ⟨fun x hx => ?_, hvalues.lt_of_count _ _ hiterations, fun v hv => (hviolation v hv).2⟩
  simp only [floats, listedFloats, List.mem_append, List.mem_flatMap, Option.mem_toList] at hx
  obtain (hx | ⟨violation, hmem, hx⟩) | hx := hx
  · exact hfloats.isFinite_of_mem hlist hx
  · exact List.all_eq_true.mp (hviolation violation hmem).1 x hx
  · exact isFinite_of_objectiveOfJson hfloats hobjective hx

theorem builds_toJson {s : Solution Float} (hwords : s.FitsWords) :
    json.Builds recordDepth (s.toJson json) := by
  refine .fields (by decide :
    ["status", "values", "objective_value", "iterations", "violations"].Nodup) ?_
  simp only [List.forall_mem_cons]
  refine ⟨.name 3 _, .list ?_, ?_, .count 3 hwords.1, .list ?_, List.forall_mem_nil _⟩
  · exact List.forall_mem_map.mpr fun x _ => .float 2 x
  · cases s.objectiveValue with
    | none => exact .null 3
    | some x => exact .float 3 x
  · exact List.forall_mem_map.mpr fun v hv => Violation.builds_toJson (hwords.2 v hv)

end Solution

/-! ## Problems -/

namespace Problem

def floats (p : Problem Float) : List Float :=
  p.a.flatten ++ p.b ++ p.c

theorem toOption_ofJson (hvalues : json.ReadsValues) (hfloats : json.ReadsFloats)
    (p : Problem Float) : (ofJson json (p.toJson json)).toOption =
      if p.floats.all Float.isFinite then some p else none := by
  rw [toJson, ofJson]
  apply hvalues.toOption_fields
  case hdifferent => decide
  case hnames => rfl
  intro found hfound
  simp only [List.forall_mem_cons] at hfound
  obtain ⟨hfirst, hsecond, hthird, -⟩ := hfound
  have hrow (row : List Float) :
      (json.items json.float (json.ofItems json.ofFloat row)).toOption =
        Option.guard (List.all · Float.isFinite) row :=
    hvalues.toOption_items fun x _ => hfloats.toOption_float x
  have hrows := hvalues.toOption_items fun row (_ : row ∈ p.a) => hrow row
  simp only [toOption_bind, toOption_required, hfirst, hsecond, hthird, Option.bind_some, hrow,
    hrows, toOption_pure]
  cases ha : p.a.all (List.all · Float.isFinite) <;> cases hb : p.b.all Float.isFinite <;>
    cases hc : p.c.all Float.isFinite <;> simp [Option.guard, floats, ha, hb, hc]

/-- What is read as a problem has finite numbers. -/
theorem of_ofJson (hfloats : json.ReadsFloats) {v : α} {p : Problem Float}
    (h : ofJson json v = .ok p) : ∀ x ∈ p.floats, x.isFinite = true := by
  simp only [ofJson, bind_eq_ok_iff, pure_eq_ok_iff] at h
  obtain ⟨_, -, _, -, a, ha, _, -, b, hb, _, -, c, hc, rfl⟩ := h
  intro x hx
  simp only [floats, List.mem_append, List.mem_flatten] at hx
  obtain (⟨row, hrow, hx⟩ | hx) | hx := hx
  · obtain ⟨part, hpart⟩ := exists_of_items ha row hrow
    exact hfloats.isFinite_of_mem hpart hx
  · exact hfloats.isFinite_of_mem hb hx
  · exact hfloats.isFinite_of_mem hc hx

theorem builds_toJson (p : Problem Float) : json.Builds recordDepth (p.toJson json) := by
  have hrow (depth : Nat) (row : List Float) :
      json.Builds (depth + 1) (json.ofItems json.ofFloat row) :=
    .list (List.forall_mem_map.mpr fun x _ => .float depth x)
  refine .fields (by decide : ["a", "b", "c"].Nodup) ?_
  simp only [List.forall_mem_cons]
  refine ⟨.list ?_, hrow 2 p.b, hrow 2 p.c, List.forall_mem_nil _⟩
  exact List.forall_mem_map.mpr fun row _ => hrow 1 row

end Problem

end LinearProgramming
