import LinearProgramming.Json.Field
import LinearProgramming.Proofs.Decimal.Readback
import LinearProgramming.Proofs.Text.Library
import LinearProgramming.Proofs.Text.Values

/-!
The library that the program brings along keeps what is relied on. Its values survive
their texts however deep they nest, the shortest digits of a finite number are those of
no other number, and a record with different names for its fields is read field by
field.
-/

namespace LinearProgramming.Json

theorem orReason_eq_ok_iff {β : Type} {reason : String} {found : Option β} {b : β} :
    orReason reason found = .ok b ↔ found = some b := by
  cases found with
  | none => simp [orReason]
  | some c => simp [orReason]

namespace Value

/-! ## Numbers -/

theorem ofFloat_of_not_isFinite {x : Float} (hx : x.isFinite = false) : ofFloat x = null := by
  rw [ofFloat, Layout.numeral?_of_not_isFinite _ hx]

theorem float_ofFloat {x : Float} (hx : x.isFinite = true) : (ofFloat x).float = .ok x := by
  obtain ⟨n, hn, hvalue⟩ := Layout.interchange.exists_toFloat_eq hx
  rw [ofFloat, hn, float, Numeral.toFinite?, hvalue, if_pos hx, orReason]

theorem isFinite_of_float {v : Value} {x : Float} (h : v.float = .ok x) : x.isFinite = true := by
  cases v with
  | number numeral =>
    have hnumber := orReason_eq_ok_iff.mp h
    rw [Numeral.toFinite?] at hnumber
    split_ifs at hnumber with hfinite
    obtain rfl := Option.some.inj hnumber
    exact hfinite
  | _ => cases h

theorem count_ofCount {n : Nat} (hn : n < countBound) : (ofCount n).count = .ok n := by
  have hcount : Option.guard (· < countBound) n = some n := by
    rw [Option.guard, if_pos (decide_eq_true hn)]
  exact orReason_eq_ok_iff.mpr hcount

theorem lt_of_count {v : Value} {n : Nat} (h : v.count = .ok n) : n < countBound := by
  cases v with
  | number numeral => simpa using (Option.filter_eq_some_iff.mp (orReason_eq_ok_iff.mp h)).2
  | _ => cases h

/-! ## Records -/

theorem find?_of_mem {fields : List (String × Value)} (hnames : (fields.map (·.1)).Nodup)
    {field : String × Value} (hfield : field ∈ fields) :
    fields.find? (fun other => other.1 == field.1) = some field := by
  induction fields with
  | nil => cases hfield
  | cons first rest ih =>
    rw [List.map_cons, List.nodup_cons] at hnames
    obtain rfl | hrest := List.mem_cons.mp hfield
    · simp
    · have hne : first.1 ≠ field.1 := fun h => hnames.1 (h ▸ List.mem_map_of_mem hrest)
      rw [List.find?_cons_of_neg (by simpa using hne), ih hnames.2 hrest]

/-- A record with different names for its fields is read field by field. -/
theorem fields_ofFields {names : List String} {fields : List (String × Value)}
    (hdifferent : names.Nodup) (hnames : fields.map (·.1) = names) :
    ∃ found, (ofFields fields).fields names = .ok found ∧
      ∀ field ∈ fields, found field.1 = some field.2 := by
  subst hnames
  obtain ⟨members, hmembers⟩ : ∃ members : List (Option String × Value),
      members = fields.map fun field => (some field.1, field.2) := ⟨_, rfl⟩
  have hobject : ofFields fields = object members := by rw [hmembers]; rfl
  have hkeys : members.map (·.1) = (fields.map (·.1)).map some := by
    rw [hmembers, List.map_map, List.map_map]
    rfl
  have hisSome : ((fields.map (·.1)).map some).all Option.isSome = true := by simp
  have hcount : (fields.map (·.1)).all
      (fun name => ((fields.map (·.1)).map some).count (some name) ≤ 1) = true := by
    have hsome : ((fields.map (·.1)).map some).Nodup :=
      hdifferent.map (Option.some_injective String)
    simpa using fun name value hmem => List.nodup_iff_count_le_one.mp hsome (some name)
  refine ⟨member? members, ?_, fun field hfield => ?_⟩
  · rw [hobject, Value.fields]
    simp only [hkeys]
    rw [if_pos ⟨hisSome, hcount⟩]
  · have hkey : ((fun member : Option String × Value => member.1 == some field.1) ∘
        fun other : String × Value => (some other.1, other.2)) =
          fun other => other.1 == field.1 := by
      funext other
      simp
    rw [member?, hmembers, List.find?_map, hkey, find?_of_mem hdifferent hfield]
    rfl

theorem isNull_iff (v : Value) : v.isNull = true ↔ v = null := by
  cases v <;> simp [isNull]

theorem variant_ofVariant (name : String) (content : Option Value) :
    (ofVariant name content).variant = .ok (name, content) := by
  cases content with
  | none => rfl
  | some v => rfl

end Value

namespace Library

theorem standard_readsValues : standard.ReadsValues where
  parse_compact v _ := orReason_eq_ok_iff.mpr v.ofString?_compact
  parse_pretty v _ := orReason_eq_ok_iff.mpr v.ofString?_pretty
  isNull_iff := Value.isNull_iff
  count_ofCount _ := Value.count_ofCount
  lt_of_count _ _ := Value.lt_of_count
  list_ofList _ := rfl
  fields_ofFields _ _ := Value.fields_ofFields
  variant_ofVariant := Value.variant_ofVariant

theorem standard_readsFloats : standard.ReadsFloats where
  float_ofFloat _ := Value.float_ofFloat
  ofFloat_eq_null _ := Value.ofFloat_of_not_isFinite
  float_null := ⟨_, rfl⟩
  isFinite_of_float _ _ := Value.isFinite_of_float

end Library

end LinearProgramming.Json
