import LinearProgramming.Decimal.Numeral
import LinearProgramming.Json.Library
import Mathlib.Tactic.SplitIfs

/-!
What is relied on of a library for JSON. A value that has been put together of parts
survives its two texts and is taken apart into the same parts. A number in it is read
as itself if it is finite; one that is not finite is written as `null`, which is no
number, and no other number that is too large is read as one either.

From this it follows for lists that they are read exactly if all of their items are.
-/

namespace LinearProgramming.Json.Library

variable {α β γ : Type} {json : Library α}

/-- The value is put together of numbers, names, lists and records, and nests no deeper
than this. -/
inductive Builds (json : Library α) : Nat → α → Prop
  | null (depth : Nat) : Builds json depth json.null
  | float (depth : Nat) (x : Float) : Builds json depth (json.ofFloat x)
  | count (depth : Nat) {n : Nat} (hn : n < countBound) : Builds json depth (json.ofCount n)
  | name (depth : Nat) (name : String) : Builds json depth (json.ofVariant name none)
  | variant {depth : Nat} (name : String) {content : α} (hcontent : Builds json depth content) :
    Builds json (depth + 1) (json.ofVariant name (some content))
  | list {depth : Nat} {items : List α} (hitems : ∀ item ∈ items, Builds json depth item) :
    Builds json (depth + 1) (json.ofList items)
  | fields {depth : Nat} {fields : List (String × α)} (hnames : (fields.map (·.1)).Nodup)
    (hfields : ∀ field ∈ fields, Builds json depth field.2) :
    Builds json (depth + 1) (json.ofFields fields)

/-- How deep solutions nest: they list violations, which are alternatives with a record
of numbers each. Problems nest less. -/
def recordDepth : Nat := 4

/-- Values survive their texts, and are taken apart into what they were made of. A count
fits into a word of 64 bits. -/
structure ReadsValues (json : Library α) : Prop where
  parse_compact : ∀ v, json.Builds recordDepth v → json.parse (json.compact v) = .ok v
  parse_pretty : ∀ v, json.Builds recordDepth v → json.parse (json.pretty v) = .ok v
  isNull_iff : ∀ v, json.isNull v = true ↔ v = json.null
  count_ofCount : ∀ n < countBound, json.count (json.ofCount n) = .ok n
  lt_of_count : ∀ v n, json.count v = .ok n → n < countBound
  list_ofList : ∀ items, json.list (json.ofList items) = .ok items
  fields_ofFields : ∀ (names : List String) (fields : List (String × α)), names.Nodup →
    fields.map (·.1) = names → ∃ found, json.fields names (json.ofFields fields) = .ok found ∧
      ∀ field ∈ fields, found field.1 = some field.2
  variant_ofVariant : ∀ name content,
    json.variant (json.ofVariant name content) = .ok (name, content)

/-- Finite numbers are read as themselves, and nothing is read as a number that is not
finite. -/
structure ReadsFloats (json : Library α) : Prop where
  /-- The reader rounds correctly. -/
  float_ofFloat : ∀ x : Float, x.isFinite = true → json.float (json.ofFloat x) = .ok x
  ofFloat_eq_null : ∀ x : Float, x.isFinite = false → json.ofFloat x = json.null
  float_null : ∃ reason, json.float json.null = .error reason
  /-- A numeral that overflows is refused. -/
  isFinite_of_float : ∀ v x, json.float v = .ok x → x.isFinite = true

/-! ## What has been read -/

@[simp] theorem toOption_pure (b : β) : (pure b : Except String β).toOption = some b := rfl

@[simp] theorem toOption_ok (b : β) : (Except.ok b : Except String β).toOption = some b := rfl

@[simp] theorem toOption_error (reason : String) :
    (Except.error reason : Except String β).toOption = none := rfl

@[simp] theorem toOption_bind (x : Except String β) (f : β → Except String γ) :
    (x >>= f).toOption = x.toOption.bind fun b => (f b).toOption := by
  cases x <;> rfl

theorem toOption_eq_some_iff {x : Except String β} {b : β} :
    x.toOption = some b ↔ x = .ok b := by
  cases x with
  | ok found => simp
  | error reason => simp

theorem toOption_eq_none_iff {x : Except String β} :
    x.toOption = none ↔ ∃ reason, x = .error reason := by
  cases x with
  | ok found => simp
  | error reason => simp

theorem bind_eq_ok_iff {x : Except String β} {f : β → Except String γ} {c : γ} :
    x >>= f = .ok c ↔ ∃ b, x = .ok b ∧ f b = .ok c := by
  cases x with
  | ok found => exact ⟨fun h => ⟨found, rfl, h⟩, fun ⟨_, hfound, h⟩ => Except.ok.inj hfound ▸ h⟩
  | error reason => exact ⟨fun h => (nomatch h), fun ⟨_, hfound, _⟩ => (nomatch hfound)⟩

theorem pure_eq_ok_iff {b c : β} : (pure b : Except String β) = .ok c ↔ b = c :=
  ⟨Except.ok.inj, congrArg Except.ok⟩

theorem toOption_mapM (decode : β → Except String γ) (items : List β) :
    (items.mapM decode).toOption = items.mapM fun item => (decode item).toOption := by
  induction items with
  | nil => rfl
  | cons item items ih =>
    simp only [List.mapM_cons, toOption_bind, toOption_pure, ih]
    rfl

/-! ## Parts -/

theorem toOption_required (field : String → Option α) (name : String) :
    (json.required field name).toOption = field name := by
  unfold required
  cases field name with
  | none => rfl
  | some v => rfl

/-- A number is read back if it is finite. -/
theorem ReadsFloats.toOption_float (h : json.ReadsFloats) (x : Float) :
    (json.float (json.ofFloat x)).toOption = Option.guard Float.isFinite x := by
  cases hx : x.isFinite with
  | true => rw [h.float_ofFloat x hx, toOption_ok, Option.guard, if_pos hx]
  | false =>
    rw [h.ofFloat_eq_null x hx, Option.guard, hx]
    exact toOption_eq_none_iff.mpr h.float_null

theorem ReadsValues.toOption_count (h : json.ReadsValues) {n : Nat} (hn : n < countBound) :
    (json.count (json.ofCount n)).toOption = some n := by
  rw [h.count_ofCount n hn, toOption_ok]

/-- What is done with a record that has been written is done with its fields. -/
theorem ReadsValues.toOption_fields (h : json.ReadsValues) {names : List String}
    {fields : List (String × α)} (hdifferent : names.Nodup) (hnames : fields.map (·.1) = names)
    {next : (String → Option α) → Except String β} {result : Option β}
    (hnext : ∀ found, (∀ field ∈ fields, found field.1 = some field.2) →
      (next found).toOption = result) :
    (json.fields names (json.ofFields fields) >>= next).toOption = result := by
  obtain ⟨found, hfields, hfound⟩ := h.fields_ofFields names fields hdifferent hnames
  rw [hfields]
  exact hnext found hfound

/-- A list is read back if all of its items are. -/
theorem ReadsValues.toOption_items (h : json.ReadsValues) {encode : β → α}
    {decode : α → Except String β} {test : β → Bool} {items : List β}
    (hitems : ∀ item ∈ items, (decode (encode item)).toOption = Option.guard test item) :
    (json.items decode (json.ofItems encode items)).toOption =
      Option.guard (List.all · test) items := by
  rw [Library.items, ofItems, h.list_ofList, toOption_bind, toOption_ok, Option.bind_some,
    toOption_mapM]
  induction items with
  | nil => rfl
  | cons item items ih =>
    rw [List.map_cons, List.mapM_cons, hitems item List.mem_cons_self,
      ih fun other hother => hitems other (List.mem_cons_of_mem item hother)]
    cases hitem : test item <;> cases hrest : items.all test <;>
      simp [Option.guard, hitem, hrest]

/-- Every item of a list that is read has been read itself. -/
theorem exists_of_items {decode : α → Except String β} {v : α} {items : List β}
    (h : json.items decode v = .ok items) : ∀ item ∈ items, ∃ part, decode part = .ok item := by
  obtain ⟨parts, -, hparts⟩ := bind_eq_ok_iff.mp h
  clear h
  induction parts generalizing items with
  | nil =>
    cases hparts
    exact fun item hitem => absurd hitem List.not_mem_nil
  | cons part parts ih =>
    simp only [List.mapM_cons, bind_eq_ok_iff, pure_eq_ok_iff] at hparts
    obtain ⟨first, hfirst, rest, hrest, rfl⟩ := hparts
    intro item hitem
    obtain rfl | hitem := List.mem_cons.mp hitem
    · exact ⟨part, hfirst⟩
    · exact ih hrest item hitem

theorem ReadsFloats.isFinite_of_mem (h : json.ReadsFloats) {v : α} {items : List Float}
    (hitems : json.items json.float v = .ok items) {x : Float} (hx : x ∈ items) :
    x.isFinite = true :=
  (exists_of_items hitems x hx).elim fun part => h.isFinite_of_float part x

end LinearProgramming.Json.Library
