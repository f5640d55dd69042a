import LinearProgramming.Proofs.Text.Fields
import LinearProgramming.Proofs.Text.Records

/-!
Solutions and problems that are written as text and read again, by any library that
keeps what is relied on. With finite numbers nothing is lost, down to the signs of zeros. A number that is not finite makes the
text unreadable, unless it is the objective value, which is then read as absent. So
what has been read once can be written and read any number of times.
-/

namespace LinearProgramming

open Json (Library)
open Json.Library (recordDepth toOption_eq_some_iff toOption_eq_none_iff bind_eq_ok_iff)

/-! ## Equal data -/

theorem beq_self_of_isFinite {x : Float} (hx : x.isFinite = true) : (x == x) = true := by
  have hdefined := Binary64.isNaN_eq_false_of_isFinite hx
  rw [Binary64.isNaN_eq] at hdefined
  exact (Binary64.beq_iff x x).mpr ⟨hdefined, hdefined, rfl⟩

theorem beq_self_of_forall {β : Type} [BEq β] {items : List β}
    (h : ∀ item ∈ items, (item == item) = true) : (items == items) = true := by
  induction items with
  | nil => rfl
  | cons item items ih =>
    rw [List.cons_beq_cons, h item List.mem_cons_self,
      ih fun other hother => h other (List.mem_cons_of_mem item hother)]
    rfl

theorem beq_self_of_finite {items : List Float} (h : ∀ x ∈ items, x.isFinite = true) :
    (items == items) = true :=
  beq_self_of_forall fun x hx => beq_self_of_isFinite (h x hx)

theorem Violation.beq_self {v : Violation Float} (hv : v.isFinite = true) : (v == v) = true := by
  have hfloats (x : Float) (hx : x ∈ v.floats) : (x == x) = true :=
    beq_self_of_isFinite (List.all_eq_true.mp hv x hx)
  cases v with
  | constraint row limit actual amount =>
    change (row == row && (limit == limit && (actual == actual && amount == amount))) = true
    rw [beq_self_eq_true, hfloats limit (by simp [floats]), hfloats actual (by simp [floats]),
      hfloats amount (by simp [floats])]
    rfl
  | negativeValue index value =>
    change (index == index && value == value) = true
    rw [beq_self_eq_true, hfloats value (by simp [floats])]
    rfl

namespace Solution

theorem beq_eq (s t : Solution Float) : (s == t) = (s.status == t.status && (s.values == t.values &&
    (s.objectiveValue == t.objectiveValue && (s.iterations == t.iterations &&
      s.violations == t.violations)))) := rfl

theorem beq_self {s : Solution Float} (h : ∀ x ∈ s.floats, x.isFinite = true) :
    (s == s) = true := by
  have hvalues : (s.values == s.values) = true :=
    beq_self_of_finite fun x hx => h x (by simp [floats, listedFloats, hx])
  have hviolations : (s.violations == s.violations) = true := by
    refine beq_self_of_forall fun v hv => Violation.beq_self (List.all_eq_true.mpr fun x hx => ?_)
    refine h x (List.mem_append_left _ (List.mem_append_right _ ?_))
    exact List.mem_flatMap.mpr ⟨v, hv, hx⟩
  have hobjective : (s.objectiveValue == s.objectiveValue) = true := by
    cases hvalue : s.objectiveValue with
    | none => rfl
    | some x => exact beq_self_of_isFinite (h x (by simp [floats, hvalue]))
  rw [beq_eq, beq_self_eq_true, hvalues, hobjective, beq_self_eq_true, hviolations]
  rfl

end Solution

namespace Problem

theorem beq_eq (p q : Problem Float) : (p == q) = (p.a == q.a && (p.b == q.b && p.c == q.c)) :=
  rfl

theorem beq_self {p : Problem Float} (h : ∀ x ∈ p.floats, x.isFinite = true) :
    (p == p) = true := by
  have ha : (p.a == p.a) = true := by
    refine beq_self_of_forall fun row hrow => beq_self_of_finite fun x hx => h x ?_
    exact List.mem_append_left _ (List.mem_append_left _ (List.mem_flatten.mpr ⟨row, hrow, hx⟩))
  have hb : (p.b == p.b) = true :=
    beq_self_of_finite fun x hx => h x (by simp [floats, hx])
  have hc : (p.c == p.c) = true :=
    beq_self_of_finite fun x hx => h x (by simp [floats, hx])
  rw [beq_eq, ha, hb, hc]
  rfl

end Problem

/-! ## Texts -/

variable {α : Type} {json : Library α}

namespace Solution

/-- What the text of a solution is read as. -/
structure ReadsBack (json : Library α) (s : Solution Float) (text : String) : Prop where
  equal_iff : (∃ read, ofText json text = .ok read ∧ (read == s) = true) ↔
    ∀ x ∈ s.floats, x.isFinite = true
  exact : (∀ x ∈ s.floats, x.isFinite = true) → ofText json text = .ok s
  rejected : (∃ x ∈ s.listedFloats, x.isFinite = false) →
    ∃ reason, ofText json text = .error reason
  objective_absent : (∀ x ∈ s.listedFloats, x.isFinite = true) →
    (∃ x ∈ s.objectiveValue, x.isFinite = false) →
      ofText json text = .ok { s with objectiveValue := none }

theorem filter_objectiveValue {s : Solution Float} (h : ∀ x ∈ s.objectiveValue, x.isFinite = true) :
    s.objectiveValue.filter Float.isFinite = s.objectiveValue := by
  cases hvalue : s.objectiveValue with
  | none => rfl
  | some x => simp [h x hvalue]

/-- A solution whose counts fit into words is read back as far as it is finite. -/
theorem readsBack_of_parse (hvalues : json.ReadsValues) (hfloats : json.ReadsFloats)
    {s : Solution Float} (hwords : s.FitsWords) {text : String}
    (hparse : json.parse text = .ok (s.toJson json)) : s.ReadsBack json text := by
  have hread := toOption_ofJson hvalues hfloats hwords
  have htext : ofText json text = ofJson json (s.toJson json) := by
    rw [ofText, hparse]
    rfl
  rw [← htext] at hread
  have hlisted (h : ∀ x ∈ s.listedFloats, x.isFinite = true) : ofText json text =
      .ok { s with objectiveValue := s.objectiveValue.filter Float.isFinite } :=
    toOption_eq_some_iff.mp (hread.trans (if_pos (List.all_eq_true.mpr h)))
  have hrejected (h : ∃ x ∈ s.listedFloats, x.isFinite = false) :
      ∃ reason, ofText json text = .error reason := by
    refine toOption_eq_none_iff.mp (hread.trans (if_neg ?_))
    simpa using h
  have habsent (h : ∃ x ∈ s.objectiveValue, x.isFinite = false) :
      s.objectiveValue.filter Float.isFinite = none := by
    obtain ⟨x, hx, hinfinite⟩ := h
    simp [Option.mem_def.mp hx, hinfinite]
  have hexact (h : ∀ x ∈ s.floats, x.isFinite = true) : ofText json text = .ok s := by
    rw [hlisted fun x hx => h x (List.mem_append_left _ hx),
      filter_objectiveValue fun x hx => h x (by simp [floats, Option.mem_def.mp hx])]
  refine ⟨⟨?_, fun h => ⟨s, hexact h, beq_self h⟩⟩, hexact, hrejected, fun h habs => ?_⟩
  · rintro ⟨read, htext, hequal⟩
    have hfinite : ∀ x ∈ s.listedFloats, x.isFinite = true := by
      by_contra hnot
      obtain ⟨reason, hreason⟩ := hrejected (by simpa using hnot)
      cases htext.symm.trans hreason
    intro x hx
    obtain hx | hx := List.mem_append.mp hx
    · exact hfinite x hx
    · -- an objective value that is not finite would have been read as an absent one
      by_contra hinfinite
      have hvalue : x ∈ s.objectiveValue := Option.mem_toList.mp hx
      rw [hlisted hfinite, habsent ⟨x, hvalue, by simpa using hinfinite⟩] at htext
      obtain rfl := Except.ok.inj htext
      rw [beq_eq, Option.mem_def.mp hvalue] at hequal
      simp at hequal
  · rw [hlisted h, habsent habs]

/-- What has been read as a solution is finite and has counts that fit into words. -/
theorem of_ofText (hvalues : json.ReadsValues) (hfloats : json.ReadsFloats) {text : String}
    {s : Solution Float} (h : ofText json text = .ok s) :
    (∀ x ∈ s.floats, x.isFinite = true) ∧ s.FitsWords := by
  obtain ⟨v, -, hv⟩ := bind_eq_ok_iff.mp h
  exact of_ofJson hvalues hfloats hv

end Solution

namespace Problem

/-- What the text of a problem is read as. -/
structure ReadsBack (json : Library α) (p : Problem Float) (text : String) : Prop where
  equal_iff : (∃ read, ofText json text = .ok read ∧ (read == p) = true) ↔
    ∀ x ∈ p.floats, x.isFinite = true
  exact : (∀ x ∈ p.floats, x.isFinite = true) → ofText json text = .ok p
  rejected : (∃ x ∈ p.floats, x.isFinite = false) → ∃ reason, ofText json text = .error reason

/-- A problem is read back if it is finite. -/
theorem readsBack_of_parse (hvalues : json.ReadsValues) (hfloats : json.ReadsFloats)
    {p : Problem Float} {text : String} (hparse : json.parse text = .ok (p.toJson json)) :
    p.ReadsBack json text := by
  have hread := p.toOption_ofJson hvalues hfloats
  have htext : ofText json text = ofJson json (p.toJson json) := by
    rw [ofText, hparse]
    rfl
  rw [← htext] at hread
  have hexact (h : ∀ x ∈ p.floats, x.isFinite = true) : ofText json text = .ok p :=
    toOption_eq_some_iff.mp (hread.trans (if_pos (List.all_eq_true.mpr h)))
  have hrejected (h : ∃ x ∈ p.floats, x.isFinite = false) :
      ∃ reason, ofText json text = .error reason := by
    refine toOption_eq_none_iff.mp (hread.trans (if_neg ?_))
    simpa using h
  refine ⟨⟨?_, fun h => ⟨p, hexact h, beq_self h⟩⟩, hexact, hrejected⟩
  rintro ⟨read, htext, -⟩
  by_contra hnot
  obtain ⟨reason, hreason⟩ := hrejected (by simpa using hnot)
  cases htext.symm.trans hreason

theorem of_ofText (hfloats : json.ReadsFloats) {text : String} {p : Problem Float}
    (h : ofText json text = .ok p) : ∀ x ∈ p.floats, x.isFinite = true := by
  obtain ⟨v, -, hv⟩ := bind_eq_ok_iff.mp h
  exact of_ofJson hfloats hv

end Problem

/-- Every solution whose counts fit into words, and every problem, is read back from
either of its texts if and only if its numbers are finite. Whatever has been read is
read back. -/
theorem texts_readBack (hvalues : json.ReadsValues) (hfloats : json.ReadsFloats) :
    (∀ s : Solution Float, s.FitsWords → s.ReadsBack json (json.compact (s.toJson json)) ∧
      s.ReadsBack json (json.pretty (s.toJson json))) ∧
    (∀ p : Problem Float, p.ReadsBack json (json.compact (p.toJson json)) ∧
      p.ReadsBack json (json.pretty (p.toJson json))) ∧
    (∀ text s, Solution.ofText json text = .ok s → (s == s) = true ∧
      Solution.ofText json (json.compact (s.toJson json)) = .ok s ∧
      Solution.ofText json (json.pretty (s.toJson json)) = .ok s) ∧
    (∀ text p, Problem.ofText json text = .ok p → (p == p) = true ∧
      Problem.ofText json (json.compact (p.toJson json)) = .ok p ∧
      Problem.ofText json (json.pretty (p.toJson json)) = .ok p) := by
  have hsolution (s : Solution Float) (hwords : s.FitsWords) :
      s.ReadsBack json (json.compact (s.toJson json)) ∧
        s.ReadsBack json (json.pretty (s.toJson json)) := by
    have hbuilds : json.Builds recordDepth (s.toJson json) := Solution.builds_toJson hwords
    exact ⟨Solution.readsBack_of_parse hvalues hfloats hwords (hvalues.parse_compact _ hbuilds),
      Solution.readsBack_of_parse hvalues hfloats hwords (hvalues.parse_pretty _ hbuilds)⟩
  have hproblem (p : Problem Float) : p.ReadsBack json (json.compact (p.toJson json)) ∧
      p.ReadsBack json (json.pretty (p.toJson json)) := by
    have hbuilds : json.Builds recordDepth (p.toJson json) := p.builds_toJson
    exact ⟨Problem.readsBack_of_parse hvalues hfloats (hvalues.parse_compact _ hbuilds),
      Problem.readsBack_of_parse hvalues hfloats (hvalues.parse_pretty _ hbuilds)⟩
  refine ⟨hsolution, hproblem, fun text s hread => ?_, fun text p hread => ?_⟩
  · obtain ⟨hfinite, hwords⟩ := Solution.of_ofText hvalues hfloats hread
    obtain ⟨hcompact, hpretty⟩ := hsolution s hwords
    exact ⟨Solution.beq_self hfinite, hcompact.exact hfinite, hpretty.exact hfinite⟩
  · have hfinite := Problem.of_ofText hfloats hread
    obtain ⟨hcompact, hpretty⟩ := hproblem p
    exact ⟨Problem.beq_self hfinite, hcompact.exact hfinite, hpretty.exact hfinite⟩

/-- A solution whose objective value has overflown. -/
def overflownObjective : Solution Float :=
  ⟨.optimal, [1.5, -0.0], some Float.inf, 3,
    [.constraint 2 1 4 3, .negativeValue 1 (-0.25)]⟩

/-- The same solution as it is read. -/
def withoutObjective : Solution Float :=
  { overflownObjective with objectiveValue := none }

/-- A problem with an undefined bound. -/
def undefinedBound : Problem Float :=
  ⟨[[1, 2], [3, 4]], [5, Float.nan], [6, 7]⟩

/-- With the library of the program the overflown objective value is lost, but nothing
else, and nothing the next time; the problem with an undefined bound cannot be read at
all. -/
theorem texts_readBack_overflown : ∃ json : Library Json.Value, json = .standard ∧
    json.ReadsValues ∧ json.ReadsFloats ∧ overflownObjective.FitsWords ∧
    Solution.ofText json (json.compact (overflownObjective.toJson json)) = .ok withoutObjective ∧
    Solution.ofText json (json.pretty (overflownObjective.toJson json)) = .ok withoutObjective ∧
    Solution.ofText json (json.pretty (withoutObjective.toJson json)) = .ok withoutObjective ∧
    ∃ reason, Problem.ofText json (json.pretty (undefinedBound.toJson json)) = .error reason := by
  have hvalues := Library.standard_readsValues
  have hfloats := Library.standard_readsFloats
  obtain ⟨hsolution, hproblem, hagain, -⟩ := texts_readBack hvalues hfloats
  have hwords : overflownObjective.FitsWords := ⟨by decide, by decide⟩
  have hlisted : ∀ x ∈ overflownObjective.listedFloats, x.isFinite = true := by decide
  have hoverflown : ∃ x ∈ overflownObjective.objectiveValue, x.isFinite = false :=
    ⟨Float.inf, rfl, by decide⟩
  obtain ⟨hcompact, hpretty⟩ := hsolution overflownObjective hwords
  have hread := hcompact.objective_absent hlisted hoverflown
  refine ⟨_, rfl, hvalues, hfloats, hwords, hread, hpretty.objective_absent hlisted hoverflown,
    (hagain _ withoutObjective hread).2.2, ?_⟩
  exact (hproblem undefinedBound).2.rejected
    ⟨Float.nan, by simp [Problem.floats, undefinedBound], by decide⟩

end LinearProgramming
