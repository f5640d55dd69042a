import LinearProgramming.Proofs.Text.Tokens

/-!
Written values are read back. The tokens of a value take the reader from the state
that expects a value to the state behind it, whatever brackets are open around it.
So no value is lost on the way through a text, in whichever style it is written.
-/

namespace LinearProgramming.Json

namespace Value

open State (step?)

/-- The first token of a value is the first token of no end. -/
theorem exists_beginning (v : Value) : ∃ token more, v.tokens = token :: more ∧
    ∀ stack, step? (.firstItem stack) token = step? (.value (.array [] :: stack)) token := by
  cases v with
  | array items =>
    cases items with
    | nil => exact ⟨.openBracket, _, rfl, fun _ => rfl⟩
    | cons item items => exact ⟨.openBracket, _, rfl, fun _ => rfl⟩
  | object members =>
    cases members with
    | nil => exact ⟨.openBrace, _, rfl, fun _ => rfl⟩
    | cons member members => exact ⟨.openBrace, _, rfl, fun _ => rfl⟩
  | _ => exact ⟨_, [], rfl, fun _ => rfl⟩

/-- Behind an opening bracket a value is read as the first item. -/
theorem foldlM_firstItem (v : Value) (stack : List Frame) :
    v.tokens.foldlM step? (.firstItem stack) =
      v.tokens.foldlM step? (.value (.array [] :: stack)) := by
  obtain ⟨token, more, htokens, hstep⟩ := exists_beginning v
  rw [htokens, List.foldlM_cons, List.foldlM_cons, hstep]

mutual

/-- The tokens of a value lead to the state behind it. -/
theorem foldlM_tokens (v : Value) (stack : List Frame) :
    v.tokens.foldlM step? (.value stack) = some (.after stack v) := by
  match v with
  | null => rfl
  | bool flag => rfl
  | number numeral => rfl
  | string text => rfl
  | array [] => rfl
  | array (item :: items) =>
    rw [tokens, List.foldlM_cons]
    change List.foldlM step? (.firstItem stack) (item.tokens ++ itemsTokens items ++ _) = _
    rw [List.append_assoc, List.foldlM_append, foldlM_firstItem, foldlM_tokens item]
    exact foldlM_itemsTokens items stack [] item
  | object [] => rfl
  | object ((key, value) :: members) =>
    rw [tokens, List.foldlM_cons]
    change List.foldlM step? (.value (.object [] key :: stack))
      (value.tokens ++ membersTokens members ++ _) = _
    rw [List.append_assoc, List.foldlM_append, foldlM_tokens value]
    exact foldlM_membersTokens members stack [] key value

/-- The rest of an array is added to the items read so far. -/
theorem foldlM_itemsTokens (items : List Value) (stack : List Frame) (read : List Value)
    (item : Value) :
    (itemsTokens items ++ [Token.closeBracket]).foldlM step? (.after (.array read :: stack) item) =
      some (.after stack (.array (read.reverse ++ item :: items))) := by
  match items with
  | [] =>
    change some (State.after stack (.array (item :: read).reverse)) = _
    rw [List.reverse_cons]
  | next :: items =>
    rw [itemsTokens, List.cons_append, List.foldlM_cons]
    change List.foldlM step? (.value (.array (item :: read) :: stack))
      (next.tokens ++ itemsTokens items ++ _) = _
    rw [List.append_assoc, List.foldlM_append, foldlM_tokens next]
    refine (foldlM_itemsTokens items stack (item :: read) next).trans ?_
    rw [List.reverse_cons, List.append_assoc, List.singleton_append]

/-- So is the rest of an object. -/
theorem foldlM_membersTokens (members : List (Option String × Value)) (stack : List Frame)
    (read : List (Option String × Value)) (key : Option String) (value : Value) :
    (membersTokens members ++ [Token.closeBrace]).foldlM step?
        (.after (.object read key :: stack) value) =
      some (.after stack (.object (read.reverse ++ (key, value) :: members))) := by
  match members with
  | [] =>
    change some (State.after stack (.object ((key, value) :: read).reverse)) = _
    rw [List.reverse_cons]
  | (nextKey, next) :: members =>
    rw [membersTokens, List.cons_append, List.foldlM_cons]
    change List.foldlM step? (.value (.object ((key, value) :: read) nextKey :: stack))
      (next.tokens ++ membersTokens members ++ _) = _
    rw [List.append_assoc, List.foldlM_append, foldlM_tokens next]
    refine (foldlM_membersTokens members stack ((key, value) :: read) nextKey next).trans ?_
    rw [List.reverse_cons, List.append_assoc, List.singleton_append]

end

/-- The text of a value in a style. -/
def text (style : Style) (v : Value) : String :=
  String.ofList (v.chars style 0)

/-- Reading undoes writing. -/
theorem ofString?_text {style : Style} (hstyle : style.IsBlank) (v : Value) :
    ofString? (v.text style) = some v := by
  rw [ofString?, text, String.toList_ofList, scan?_text hstyle, Option.bind_some, ofTokens?,
    foldlM_tokens]
  rfl

theorem ofString?_compact (v : Value) : ofString? v.compact = some v :=
  ofString?_text Style.isBlank_compact v

theorem ofString?_pretty (v : Value) : ofString? v.pretty = some v :=
  ofString?_text Style.isBlank_pretty v

end Value

end LinearProgramming.Json
