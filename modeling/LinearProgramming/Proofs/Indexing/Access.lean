import Mathlib.Data.List.Basic

/-!
Lists whose places are named by numbers. Reading and writing have no result
where the number names no place, and copying has none where the lengths do not
agree. A loop over such accesses has a result as soon as every step has one.
-/

namespace LinearProgramming

variable {β γ δ : Type}

/-- Changes the value at a place; the change may have no result either. -/
def changeAt? (cells : List β) (index : Nat) (change : β → Option β) : Option (List β) := do
  let old ← cells[index]?
  let new ← change old
  return cells.set index new

def writeAt? (cells : List β) (index : Nat) (value : β) : Option (List β) :=
  changeAt? cells index fun _ => some value

/-- Changes every place once, from the first to the last. -/
def changeAll? (cells : List β) (change : Nat → β → Option β) : Option (List β) :=
  (List.range cells.length).foldlM (fun cells index => changeAt? cells index (change index)) cells

/-- The first places, if there are so many. -/
def leading? (cells : List β) (count : Nat) : Option (List β) :=
  if count ≤ cells.length then some (cells.take count) else none

/-- Copies a list over the first places, which have to be as many as it has. -/
def copyOver? (cells : List β) (count : Nat) (source : List β) : Option (List β) :=
  if count ≤ cells.length ∧ source.length = count then
    some (source ++ cells.drop count)
  else
    none

/-! ## Single accesses -/

theorem changeAt?_eq_some {cells : List β} {index : Nat} {old new : β}
    {change : β → Option β} (hold : cells[index]? = some old) (hnew : change old = some new) :
    changeAt? cells index change = some (cells.set index new) := by
  simp [changeAt?, hold, hnew]

theorem writeAt?_eq_some {cells : List β} {index : Nat} (value : β)
    (hindex : index < cells.length) : writeAt? cells index value = some (cells.set index value) :=
  changeAt?_eq_some (List.getElem?_eq_getElem hindex) rfl

theorem leading?_append (cells rest : List β) :
    leading? (cells ++ rest) cells.length = some cells := by
  rw [leading?, if_pos (by simp), List.take_left]

theorem copyOver?_replicate (source : List β) (value : β) (count : Nat) :
    copyOver? (List.replicate (source.length + count) value) source.length source =
      some (source ++ List.replicate count value) := by
  rw [copyOver?, if_pos (by simp), List.drop_replicate, Nat.add_sub_cancel_left]

/-! ## Loops -/

theorem mapM_eq_some_map {f : β → Option γ} {g : β → γ} {items : List β}
    (h : ∀ item ∈ items, f item = some (g item)) : items.mapM f = some (items.map g) := by
  induction items with
  | nil => rfl
  | cons item items ih =>
    have hrest := ih fun other hother => h other (List.mem_cons_of_mem _ hother)
    simp [List.mapM_cons, h item List.mem_cons_self, hrest]

/-- A loop over numbered items whose step has, at each place, what the results
have there. -/
theorem mapM_zipIdx_eq_some {f : β × Nat → Option γ} {items : List β} {results : List γ}
    {start : Nat} (hlength : results.length = items.length)
    (h : ∀ (i : Nat) (item : β), items[i]? = some item → f (item, start + i) = results[i]?) :
    (items.zipIdx start).mapM f = some results := by
  induction items generalizing results start with
  | nil =>
    rw [List.length_eq_zero_iff.mp hlength]
    rfl
  | cons item items ih =>
    obtain ⟨result, results, rfl⟩ := List.exists_cons_of_length_eq_add_one hlength
    have hfirst : f (item, start) = some result := h 0 item rfl
    have hrest : (items.zipIdx (start + 1)).mapM f = some results := by
      apply ih (Nat.succ.inj hlength)
      intro i other hother
      rw [Nat.add_assoc, Nat.add_comm 1 i]
      exact h (i + 1) other hother
    rw [List.zipIdx_cons, List.mapM_cons, hfirst, Option.bind_eq_bind, Option.bind_some, hrest]
    rfl

/-- A loop has no result exactly if one of its steps has none. -/
theorem mapM_eq_none_iff {f : β → Option γ} {items : List β} :
    items.mapM f = none ↔ ∃ item ∈ items, f item = none := by
  induction items with
  | nil => simp
  | cons item items ih =>
    cases hitem : f item with
    | none => simp [List.mapM_cons, hitem]
    | some value =>
      cases hrest : items.mapM f with
      | none => simpa [List.mapM_cons, hitem, hrest] using ih.mp hrest
      | some values => simpa [List.mapM_cons, hitem, hrest] using ih.not.mp (by simp [hrest])

/-- A loop over a state that keeps an invariant. -/
theorem foldlM_eq_some_foldl {P : γ → Prop} {f : γ → β → Option γ} {g : γ → β → γ}
    {items : List β}
    (h : ∀ state item, P state → item ∈ items → f state item = some (g state item) ∧
      P (g state item)) {state : γ} (hstate : P state) :
    items.foldlM f state = some (items.foldl g state) := by
  induction items generalizing state with
  | nil => rfl
  | cons item items ih =>
    obtain ⟨hitem, hnext⟩ := h state item hstate List.mem_cons_self
    have hrest := ih (fun other next hother hmem => h other next hother
      (List.mem_cons_of_mem _ hmem)) hnext
    simp [List.foldlM_cons, hitem, hrest]

/-- A loop that changes one place after the other, between places that it has
been at and places that it does not come to. -/
theorem foldlM_changeAt?_between {f : δ → Nat → γ → Option γ} {blank : γ} {items : List δ}
    {results : List γ} {start : Nat} (before after : List γ) (hbefore : before.length = start)
    (hlength : results.length = items.length)
    (h : ∀ (i : Nat) (item : δ), items[i]? = some item →
      f item (start + i) blank = results[i]?) :
    (items.zipIdx start).foldlM (fun cells (item, index) => changeAt? cells index (f item index))
        (before ++ List.replicate items.length blank ++ after) =
      some (before ++ results ++ after) := by
  induction items generalizing results start before with
  | nil =>
    rw [List.length_eq_zero_iff.mp hlength]
    rfl
  | cons item items ih =>
    obtain ⟨result, results, rfl⟩ := List.exists_cons_of_length_eq_add_one hlength
    have hplace : (before ++ List.replicate (item :: items).length blank ++ after)[start]? =
        some blank := by
      simp [← hbefore, List.replicate_succ]
    have hfirst := changeAt?_eq_some hplace (h 0 item rfl)
    have hset : (before ++ List.replicate (item :: items).length blank ++ after).set start
          result =
        (before ++ [result]) ++ List.replicate items.length blank ++ after := by
      simp [← hbefore, List.replicate_succ]
    have htail : ∀ (i : Nat) (other : δ), items[i]? = some other →
        f other (start + 1 + i) blank = results[i]? := by
      intro i other hother
      rw [Nat.add_assoc, Nat.add_comm 1 i]
      exact h (i + 1) other hother
    have hrest := ih (before ++ [result]) (by simp [hbefore]) (Nat.succ.inj hlength) htail
    rw [Nat.add_zero] at hfirst
    rw [List.zipIdx_cons, List.foldlM_cons]
    simp only [hfirst, hset, Option.bind_eq_bind, Option.bind_some, hrest]
    simp

/-- A loop that changes the first places one after the other. -/
theorem foldlM_changeAt? {f : δ → Nat → γ → Option γ} {blank : γ} {items : List δ}
    {results : List γ} (after : List γ) (hlength : results.length = items.length)
    (h : ∀ (i : Nat) (item : δ), items[i]? = some item → f item i blank = results[i]?) :
    items.zipIdx.foldlM (fun cells (item, index) => changeAt? cells index (f item index))
        (List.replicate items.length blank ++ after) = some (results ++ after) := by
  apply foldlM_changeAt?_between [] after rfl hlength
  intro i item hitem
  rw [List.length_nil, Nat.zero_add]
  exact h i item hitem

/-- A loop that changes one place after the other, when it has come to the end of
`before`. The places behind are still as they were. -/
theorem foldlM_changeAt?_range' (change : Nat → β → Option β) (before rest : List β) :
    (List.range' before.length rest.length).foldlM
        (fun cells index => changeAt? cells index (change index)) (before ++ rest) =
      ((rest.zipIdx before.length).mapM fun item => change item.2 item.1).map (before ++ ·) := by
  induction rest generalizing before with
  | nil => simp
  | cons old rest ih =>
    rw [List.length_cons, List.range'_succ, List.foldlM_cons, List.zipIdx_cons, List.mapM_cons]
    cases hnew : change before.length old with
    | none => simp [changeAt?, hnew]
    | some new =>
      have hfirst : changeAt? (before ++ old :: rest) before.length (change before.length) =
          some ((before ++ [new]) ++ rest) := by
        rw [changeAt?_eq_some (by simp) hnew]
        simp
      have hrest := ih (before ++ [new])
      rw [List.length_append, List.length_singleton] at hrest
      simp only [hfirst, hrest, Option.bind_eq_bind, Option.bind_some]
      cases (rest.zipIdx (before.length + 1)).mapM fun item => change item.2 item.1 with
      | none => rfl
      | some news => simp

/-- Changing in place comes to the same as making the new list beside the old one. -/
theorem changeAll?_eq_mapM (cells : List β) (change : Nat → β → Option β) :
    changeAll? cells change = cells.zipIdx.mapM fun item => change item.2 item.1 := by
  have hloop := foldlM_changeAt?_range' change [] cells
  simpa [changeAll?, List.range_eq_range'] using hloop

theorem changeAll?_eq_some {cells results : List β} {change : Nat → β → Option β}
    (hlength : results.length = cells.length)
    (h : ∀ (i : Nat) (old : β), cells[i]? = some old → change i old = results[i]?) :
    changeAll? cells change = some results := by
  rw [changeAll?_eq_mapM]
  apply mapM_zipIdx_eq_some hlength
  intro i old hold
  rw [Nat.zero_add]
  exact h i old hold

/-- A loop that changes the last place again and again changes it as a loop over
that place would. -/
theorem foldlM_changeAt?_last {f : γ → δ → Option γ} (items : List δ) (before : List γ)
    (last : γ) :
    items.foldlM (fun cells item => changeAt? cells before.length (f · item)) (before ++ [last]) =
      (items.foldlM f last).map (before ++ [·]) := by
  induction items generalizing last with
  | nil => rfl
  | cons item items ih =>
    rw [List.foldlM_cons, List.foldlM_cons]
    cases hitem : f last item with
    | none => simp [changeAt?, hitem]
    | some value =>
      have hset : changeAt? (before ++ [last]) before.length (f · item) =
          some (before ++ [value]) := by
        simp [changeAt?, hitem]
      simp only [hset, Option.bind_eq_bind, Option.bind_some]
      exact ih value

end LinearProgramming
