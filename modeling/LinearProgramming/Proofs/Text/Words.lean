import LinearProgramming.Decimal.Layout
import LinearProgramming.Table
import LinearProgramming.Proofs.Text.Numerals

/-!
Words and lines of a table. A column may be too narrow for a text that it holds, and
then nothing stands where it would by counting places. But only blanks divide the words
of a line and only line breaks divide the lines, so both are found again as long as no
word has any in it. Numbers and the names of variables have none.
-/

namespace LinearProgramming

/-- A text that can be told from the blanks and line breaks around it. -/
def IsWord (text : String) : Prop :=
  text ≠ "" ∧ text.toList.any Char.isWhitespace = false

instance (text : String) : Decidable (IsWord text) :=
  inferInstanceAs (Decidable (_ ∧ _))

/-- A text that is one line among others. -/
def IsLine (text : String) : Prop :=
  text ≠ "" ∧ '\n' ∉ text.toList

/-- What stands between blanks, however many there are. -/
def words (line : List Char) : List String :=
  ((line.splitOn ' ').filter (!·.isEmpty)).map String.ofList

/-! ## Finding words -/

theorem words_append_blank (left right : List Char) :
    words (left ++ ' ' :: right) = words left ++ words right := by
  rw [words, List.splitOn_append_cons_self, List.filter_append, List.map_append]
  rfl

theorem words_blanks (count : Nat) (line : List Char) :
    words (List.replicate count ' ' ++ line) = words line := by
  induction count with
  | zero => rfl
  | succ count ih =>
    rw [List.replicate_succ, List.cons_append]
    exact (words_append_blank [] _).trans ih

namespace IsWord

variable {text : String}

theorem not_mem (h : IsWord text) {c : Char} (hc : c.isWhitespace = true) : c ∉ text.toList := by
  intro hmem
  exact List.any_eq_false.mp h.2 c hmem hc

theorem words_toList (h : IsWord text) : words text.toList = [text] := by
  have hsplit : text.toList.splitOn ' ' = [text.toList] :=
    List.splitOn_eq_singleton (h.not_mem rfl)
  have hne : text.toList ≠ [] := by simpa using h.1
  simp [words, hsplit, hne]

theorem words_alignRight (h : IsWord text) (width : Nat) :
    words (alignRight width text).toList = [text] := by
  rw [alignRight, String.toList_ofList, List.leftpad, words_blanks]
  exact h.words_toList

end IsWord

/-- Behind whatever stands in a line already, the blank before each text begins a new
word. -/
theorem words_append_alignCells {texts : List String} (h : ∀ text ∈ texts, IsWord text)
    (line : List Char) :
    words (line ++ (Tableau.alignCells texts).toList) = words line ++ texts := by
  -- The first text joins what stands in the line already.
  induction texts generalizing line with
  | nil => simp [Tableau.alignCells]
  | cons text texts ih =>
    obtain ⟨hfirst, hrest⟩ := List.forall_mem_cons.mp h
    have hcells : (Tableau.alignCells (text :: texts)).toList =
        ' ' :: (alignRight 9 text).toList ++ (Tableau.alignCells texts).toList := by
      simp [Tableau.alignCells]
    rw [hcells, ← List.append_assoc, ih hrest, words_append_blank, hfirst.words_alignRight,
      List.append_assoc]
    rfl

/-! ## Finding lines -/

/-- Lines that are written one below the other are found again. -/
theorem splitOn_newline {lines : List String} (hne : lines ≠ [])
    (h : ∀ line ∈ lines, IsLine line) :
    ("\n".intercalate lines).toList.splitOn '\n' = lines.map String.toList := by
  rw [String.toList_intercalate]
  apply List.splitOn_intercalate
  · intro chars hchars
    obtain ⟨line, hline, rfl⟩ := List.mem_map.mp hchars
    exact (h line hline).2
  · simpa using hne

/-- A break behind the last line would begin another one, with nothing in it. -/
theorem getLast?_ne_newline {lines : List String} (hne : lines ≠ [])
    (h : ∀ line ∈ lines, IsLine line) :
    ("\n".intercalate lines).toList.getLast? ≠ some '\n' := by
  intro hlast
  obtain ⟨front, hfront⟩ := List.getLast?_eq_some_iff.mp hlast
  have hsplit := splitOn_newline hne h
  rw [hfront, List.splitOn_append_cons_self, List.splitOn_nil] at hsplit
  have hmem : [] ∈ lines.map String.toList := by
    rw [← hsplit]
    exact List.mem_append_right _ List.mem_cons_self
  obtain ⟨line, hline, hempty⟩ := List.mem_map.mp hmem
  exact (h line hline).1 (String.toList_eq_nil_iff.mp hempty)

theorem newline_not_mem_alignRight {text : String} (h : '\n' ∉ text.toList) (width : Nat) :
    '\n' ∉ (alignRight width text).toList := by
  rw [alignRight, String.toList_ofList, List.leftpad, List.mem_append, List.mem_replicate]
  rintro (⟨-, hblank⟩ | htext)
  · cases hblank
  · exact h htext

theorem newline_not_mem_alignCells {texts : List String} (h : ∀ text ∈ texts, IsWord text) :
    '\n' ∉ (Tableau.alignCells texts).toList := by
  rw [Tableau.alignCells, String.toList_join, List.flatMap_map, List.mem_flatMap]
  rintro ⟨text, htext, hmem⟩
  rw [String.toList_append, List.mem_append] at hmem
  rcases hmem with hblank | haligned
  · simp at hblank
  · exact newline_not_mem_alignRight ((h text htext).not_mem rfl) 9 haligned

/-! ## Numbers and names -/

theorem isWhitespace_of_isDigit {c : Char} (h : c.isDigit = true) : c.isWhitespace = false := by
  rw [Bool.eq_false_iff]
  intro hspace
  simp only [Char.isWhitespace, Bool.or_eq_true, decide_eq_true_eq] at hspace
  rcases hspace with ((rfl | rfl) | rfl) | rfl <;> cases h

theorem any_isWhitespace_digits {digits : List Char} (h : ∀ c ∈ digits, c.isDigit = true) :
    digits.any Char.isWhitespace = false := by
  rw [List.any_eq_false]
  intro c hc
  rw [isWhitespace_of_isDigit (h c hc)]
  exact Bool.false_ne_true

theorem any_isWhitespace_toDigits (n : Nat) :
    (Nat.toDigits 10 n).any Char.isWhitespace = false :=
  any_isWhitespace_digits Numeral.isDigit_of_mem_toDigits

theorem any_isWhitespace_toString (n : Nat) :
    (toString n).toList.any Char.isWhitespace = false := by
  have hdigits : (toString n).toList = Nat.toDigits 10 n := Nat.toList_repr
  rw [hdigits, any_isWhitespace_toDigits]

namespace Numeral

variable (n : Numeral) (plus : Bool)

theorem any_isWhitespace_fractionChars : n.fractionChars.any Char.isWhitespace = false := by
  rw [fractionChars]
  split
  · rfl
  · rw [List.any_cons, ← fractionDigits, any_isWhitespace_digits isDigit_of_mem_fractionDigits]
    rfl

theorem any_isWhitespace_exponentChars :
    (n.exponentChars plus).any Char.isWhitespace = false := by
  rw [exponentChars]
  split
  · rfl
  · rename_i e _
    have hsign : (if e < 0 then ['-'] else if plus then ['+'] else []).any
        Char.isWhitespace = false := by
      split_ifs <;> rfl
    rw [List.cons_append, List.any_cons, List.any_append, hsign, any_isWhitespace_toDigits]
    rfl

theorem isWord_text : IsWord (n.text plus) := by
  have hsign : (if n.negative then ['-'] else []).any Char.isWhitespace = false := by
    split_ifs <;> rfl
  constructor
  · simp [text, chars, wholeChars]
  · rw [text, String.toList_ofList, chars, wholeChars, List.any_append, List.any_append,
      List.any_append, hsign, any_isWhitespace_toDigits, any_isWhitespace_fractionChars,
      any_isWhitespace_exponentChars]
    rfl

end Numeral

/-- No number is written with a blank, not even one that is infinite or undefined. -/
theorem isWord_cellText (x : Float) : IsWord (cellText x) := by
  rw [cellText]
  cases Binary.ofFloat x with
  | nan => decide
  | infinite negative => cases negative <;> decide
  | finite negative m q => exact (twoDecimals negative m q).isWord_text false

theorem toList_columnName (column : Nat) :
    (columnName column).toList = "x[".toList ++ ((toString column).toList ++ "]".toList) := by
  simp only [columnName, toString, String.toList_append, List.append_assoc]

theorem isWord_columnName (column : Nat) : IsWord (columnName column) := by
  constructor
  · simp [← String.toList_eq_nil_iff, toList_columnName]
  · rw [toList_columnName, List.any_append, List.any_append, any_isWhitespace_toString]
    rfl

end LinearProgramming
