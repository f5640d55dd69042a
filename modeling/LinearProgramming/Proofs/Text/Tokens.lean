import LinearProgramming.Json.Reader
import LinearProgramming.Proofs.Text.Numerals

/-!
The tokens of a written value. A value is written as its tokens, with blanks between
them that do not matter, so splitting the text gives the tokens back. Strings go
through their escapes character by character; numerals end where the next bracket,
comma or blank begins.
-/

namespace LinearProgramming.Json

open Numeral (Stops continuesNumeral)

/-! ## Splitting off one token -/

namespace Token

theorem scanFrom?_blank {c : Char} (hc : isBlank c = true) (found : List Token)
    (input : List Char) : scanFrom? found (c :: input) = scanFrom? found input := by
  rw [scanFrom?, if_pos hc]

theorem scanFrom?_cons {c : Char} (hc : isBlank c = false) (found : List Token)
    (input : List Char) : scanFrom? found (c :: input) =
      (scanOne? c input).bind fun (token, rest) => scanFrom? (token :: found) rest := by
  rw [scanFrom?, if_neg (by rw [hc]; decide)]
  split <;> simp_all

/-- What has been found does not matter for what is found later. -/
theorem scanFrom?_eq_map (found : List Token) (input : List Char) :
    scanFrom? found input = (scan? input).map (found.reverse ++ ·) := by
  rw [scan?]
  induction hlength : input.length using Nat.strongRecOn generalizing found input with
  | ind size ih =>
    cases input with
    | nil => simp [scanFrom?]
    | cons c input =>
      cases hc : isBlank c with
      | true =>
        rw [scanFrom?_blank hc, scanFrom?_blank hc]
        exact ih input.length (by rw [← hlength, List.length_cons]; omega) found input rfl
      | false =>
        rw [scanFrom?_cons hc, scanFrom?_cons hc]
        cases hone : scanOne? c input with
        | none => rfl
        | some split =>
          obtain ⟨token, rest⟩ := split
          have hshorter : rest.length < size := by
            have := length_of_scanOne? hone
            rw [← hlength, List.length_cons]
            omega
          have hrest := fun found => ih rest.length hshorter found rest rfl
          simp only [Option.bind_some, hrest (token :: found), hrest [token], Option.map_map]
          refine congrArg (Option.map · _) (funext fun tokens => ?_)
          simp

@[simp] theorem scan?_nil : scan? [] = some [] := by
  rw [scan?, scanFrom?]
  rfl

theorem scan?_blank {c : Char} (hc : isBlank c = true) (input : List Char) :
    scan? (c :: input) = scan? input :=
  scanFrom?_blank hc [] input

theorem scan?_cons {c : Char} {input rest : List Char} {token : Token} (hc : isBlank c = false)
    (hone : scanOne? c input = some (token, rest)) :
    scan? (c :: input) = (scan? rest).map (token :: ·) := by
  rw [scan?, scanFrom?_cons hc, hone]
  exact scanFrom?_eq_map [token] rest

theorem scan?_blanks {blanks : List Char} (hblanks : ∀ c ∈ blanks, isBlank c = true)
    (input : List Char) : scan? (blanks ++ input) = scan? input := by
  induction blanks with
  | nil => rfl
  | cons c blanks ih =>
    rw [List.cons_append, scan?_blank (hblanks c List.mem_cons_self),
      ih fun c' hc' => hblanks c' (List.mem_cons_of_mem _ hc')]

end Token

/-! ## Strings -/

/-- A control character is escaped by four hexadecimal digits that denote it. -/
theorem scanCodes?_hexDigits {code : Nat} (hcode : code < 32) (codes : List Nat)
    (input : List Char) : scanCodes? codes ('\\' :: 'u' :: (hexDigits code ++ input)) =
      scanCodes? (code :: codes) input := by
  interval_cases code <;> rfl

theorem scanCodes?_plain {c : Char} (hquote : c ≠ '"') (hbackslash : c ≠ '\\')
    (hcontrol : ¬c.toNat < 32) (codes : List Nat) (input : List Char) :
    scanCodes? codes (c :: input) = scanCodes? (c.toNat :: codes) input := by
  rw [scanCodes?.eq_def]
  split
  case h_5 heq =>
    cases heq
    rw [if_neg hcontrol]
  all_goals simp_all

/-- One written character is one code. -/
theorem scanCodes?_escapeChar (codes : List Nat) (c : Char) (input : List Char) :
    scanCodes? codes (escapeChar c ++ input) = scanCodes? (c.toNat :: codes) input := by
  unfold escapeChar
  split
  case h_8 hquote hbackslash _ _ _ _ _ =>
    split_ifs with hcontrol
    · exact scanCodes?_hexDigits hcontrol codes input
    · exact scanCodes?_plain hquote hbackslash hcontrol codes input
  all_goals rfl

theorem scanCodes?_flatMap (codes : List Nat) (text : List Char) (rest : List Char) :
    scanCodes? codes (text.flatMap escapeChar ++ '"' :: rest) =
      some (codes.reverse ++ text.map Char.toNat, rest) := by
  induction text generalizing codes with
  | nil => simp [scanCodes?]
  | cons c text ih =>
    rw [List.flatMap_cons, List.append_assoc, scanCodes?_escapeChar, ih]
    simp

/-- A character is no surrogate. -/
theorem not_isSurrogate (c : Char) :
    isHighSurrogate c.toNat = false ∧ isLowSurrogate c.toNat = false := by
  have hvalid : c.toNat < 0xd800 ∨ 0xdfff < c.toNat ∧ c.toNat < 0x110000 := c.valid
  simp only [isHighSurrogate, isLowSurrogate, Bool.and_eq_false_iff, decide_eq_false_iff_not]
  omega

theorem textOfCodes?_cons (c : Char) (codes : List Nat) :
    textOfCodes? (c.toNat :: codes) = (textOfCodes? codes).map (c :: ·) := by
  obtain ⟨hhigh, hlow⟩ := not_isSurrogate c
  cases codes with
  | nil => simp [textOfCodes?, hhigh, hlow]
  | cons next codes => simp [textOfCodes?, hhigh, hlow]

theorem textOfCodes?_map_toNat (text : List Char) :
    textOfCodes? (text.map Char.toNat) = some text := by
  induction text with
  | nil => rfl
  | cons c text ih => rw [List.map_cons, textOfCodes?_cons, ih, Option.map_some]

namespace Token

theorem scan?_quote (text : Option String) (rest : List Char) :
    scan? (quote text ++ rest) = (scan? rest).map (string text :: ·) := by
  cases text with
  | none => exact scan?_cons rfl rfl
  | some text =>
    refine scan?_cons rfl ?_
    have hcodes := scanCodes?_flatMap [] text.toList rest
    rw [List.reverse_nil, List.nil_append] at hcodes
    have hinside : (text.toList.flatMap escapeChar ++ ['"']) ++ rest =
        text.toList.flatMap escapeChar ++ '"' :: rest := by simp
    change (scanCodes? [] ((text.toList.flatMap escapeChar ++ ['"']) ++ rest)).map _ = _
    simp only [hinside, hcodes, Option.map_some, textOfCodes?_map_toNat, String.ofList_toList]

/-! ## Numbers -/

/-- A numeral starts with a digit or a hyphen. -/
theorem exists_cons_chars (n : Numeral) :
    ∃ c more, n.chars true = c :: more ∧ (c.isDigit = true ∨ c = '-') := by
  obtain ⟨d, digits, hcons, hdigit⟩ :=
    Numeral.exists_cons_toDigits (n.significand / Nat.pow 10 n.places)
  rw [Numeral.chars, Numeral.wholeChars, hcons]
  cases n.negative with
  | true => exact ⟨'-', _, rfl, Or.inr rfl⟩
  | false => exact ⟨d, _, rfl, Or.inl hdigit⟩

/-- No other token starts so. -/
theorem scanOne?_of_numeral {c : Char} (hc : c.isDigit = true ∨ c = '-') (input : List Char) :
    isBlank c = false ∧ scanOne? c input =
      (Numeral.scan? (c :: input)).map fun (numeral, rest) => (number numeral, rest) := by
  have hother : ∀ d : Char, d.isDigit = false → d ≠ '-' → c ≠ d := by
    rintro d hdigit hminus rfl
    rcases hc with hc | hc
    · rw [hdigit] at hc
      cases hc
    · exact hminus hc
  constructor
  · simp only [isBlank, Bool.or_eq_false_iff, decide_eq_false_iff_not]
    exact ⟨⟨⟨hother _ rfl (by decide), hother _ rfl (by decide)⟩, hother _ rfl (by decide)⟩,
      hother _ rfl (by decide)⟩
  · unfold scanOne?
    split
    case h_11 => rfl
    all_goals exact absurd rfl (hother _ rfl (by decide))

theorem scan?_numeral (n : Numeral) {rest : List Char} (hrest : Stops continuesNumeral rest) :
    scan? (n.chars true ++ rest) = (scan? rest).map (number n :: ·) := by
  have hscan := Numeral.scan?_append n true hrest
  obtain ⟨c, more, hcons, hc⟩ := exists_cons_chars n
  rw [hcons, List.cons_append] at hscan ⊢
  obtain ⟨hblank, hone⟩ := scanOne?_of_numeral hc (more ++ rest)
  refine scan?_cons hblank ?_
  rw [hone, hscan, Option.map_some]

/-! ## Words and signs -/

theorem scan?_null (rest : List Char) :
    scan? ("null".toList ++ rest) = (scan? rest).map (null :: ·) :=
  scan?_cons rfl rfl

theorem scan?_true (rest : List Char) :
    scan? ("true".toList ++ rest) = (scan? rest).map (bool true :: ·) :=
  scan?_cons rfl rfl

theorem scan?_false (rest : List Char) :
    scan? ("false".toList ++ rest) = (scan? rest).map (bool false :: ·) :=
  scan?_cons rfl rfl

end Token

/-! ## Values -/

namespace Value

mutual

/-- What a value consists of when it is written. -/
def tokens : Value → List Token
  | null => [.null]
  | bool flag => [.bool flag]
  | number numeral => [.number numeral]
  | string text => [.string text]
  | array [] => [.openBracket, .closeBracket]
  | array (item :: items) =>
    .openBracket :: (item.tokens ++ itemsTokens items ++ [.closeBracket])
  | object [] => [.openBrace, .closeBrace]
  | object ((key, value) :: members) =>
    .openBrace :: .string key :: .colon :: (value.tokens ++ membersTokens members ++ [.closeBrace])

def itemsTokens : List Value → List Token
  | [] => []
  | item :: items => .comma :: (item.tokens ++ itemsTokens items)

def membersTokens : List (Option String × Value) → List Token
  | [] => []
  | (key, value) :: members =>
    .comma :: .string key :: .colon :: (value.tokens ++ membersTokens members)

end

end Value

/-- The style puts nothing but blanks between tokens. -/
structure Style.IsBlank (style : Style) : Prop where
  lineBreak : ∀ depth, ∀ c ∈ style.lineBreak depth, isBlank c = true
  colonGap : ∀ c ∈ style.colonGap, isBlank c = true

theorem Style.isBlank_compact : Style.compact.IsBlank := by
  constructor
  · rintro depth c ⟨⟩
  · rintro c ⟨⟩

theorem Style.isBlank_pretty : Style.pretty.IsBlank := by
  constructor
  · intro depth c hc
    rcases List.mem_cons.mp hc with rfl | hc
    · rfl
    · rw [(List.mem_replicate.mp hc).2]
      rfl
  · intro c hc
    rw [List.mem_singleton.mp hc]
    rfl

theorem continuesNumeral_of_isBlank {c : Char} (hc : isBlank c = true) :
    continuesNumeral c = false := by
  simp only [isBlank, Bool.or_eq_true, decide_eq_true_eq] at hc
  rcases hc with ((rfl | rfl) | rfl) | rfl <;> rfl

/-- A numeral ends before blanks too. -/
theorem stops_blanks {blanks rest : List Char} (hblanks : ∀ c ∈ blanks, isBlank c = true)
    (hrest : Stops continuesNumeral rest) : Stops continuesNumeral (blanks ++ rest) := by
  cases blanks with
  | nil => exact hrest
  | cons c blanks =>
    exact .cons (continuesNumeral_of_isBlank (hblanks c List.mem_cons_self)) _

theorem stops_items (style : Style) (depth : Nat) (items : List Value) {rest : List Char}
    (hrest : Stops continuesNumeral rest) :
    Stops continuesNumeral (Value.itemsChars style depth items ++ rest) := by
  cases items with
  | nil => exact hrest
  | cons item items => exact .cons rfl _

theorem stops_members (style : Style) (depth : Nat) (members : List (Option String × Value))
    {rest : List Char} (hrest : Stops continuesNumeral rest) :
    Stops continuesNumeral (Value.membersChars style depth members ++ rest) := by
  cases members with
  | nil => exact hrest
  | cons member members => exact .cons rfl _

namespace Value

open Token (scan? scan?_cons scan?_blanks scan?_quote)

variable {style : Style}

/-- A closing sign behind blanks. -/
theorem scan?_close {sign : Char} {token : Token} (hstyle : style.IsBlank) (depth : Nat)
    (rest : List Char) (hsign : isBlank sign = false)
    (hone : ∀ input, Token.scanOne? sign input = some (token, input)) :
    scan? (style.lineBreak depth ++ sign :: rest) = (scan? rest).map (token :: ·) := by
  rw [scan?_blanks (hstyle.lineBreak depth), scan?_cons hsign (hone rest)]

/-- A key, the colon behind it and the blanks behind that. -/
theorem scan?_key (hstyle : style.IsBlank) (key : Option String) (rest : List Char) :
    scan? (quote key ++ (':' :: (style.colonGap ++ rest))) =
      (scan? rest).map ([.string key, .colon] ++ ·) := by
  rw [scan?_quote, scan?_cons rfl rfl, scan?_blanks hstyle.colonGap]
  cases scan? rest <;> rfl

mutual

/-- A value that is written in front of a text adds its tokens to those of the text. -/
theorem scan?_chars (hstyle : style.IsBlank) (depth : Nat) (v : Value) (rest : List Char)
    (hrest : Stops continuesNumeral rest) :
    scan? (v.chars style depth ++ rest) = (scan? rest).map (v.tokens ++ ·) := by
  match v with
  | null => exact Token.scan?_null rest
  | bool true => exact Token.scan?_true rest
  | bool false => exact Token.scan?_false rest
  | number numeral => exact Token.scan?_numeral numeral hrest
  | string text => exact scan?_quote text rest
  | array [] =>
    have hopen : scan? ('[' :: ']' :: rest) =
        (scan? (']' :: rest)).map (Token.openBracket :: ·) := scan?_cons rfl rfl
    have hclose : scan? (']' :: rest) = (scan? rest).map (Token.closeBracket :: ·) :=
      scan?_cons rfl rfl
    rw [hclose] at hopen
    refine hopen.trans ?_
    cases scan? rest <;> rfl
  | array (item :: items) =>
    have htext : (array (item :: items)).chars style depth ++ rest =
        '[' :: (style.lineBreak (depth + 1) ++ (item.chars style (depth + 1) ++
          (itemsChars style (depth + 1) items ++ (style.lineBreak depth ++ ']' :: rest)))) := by
      simp [chars]
    have hafter : Stops continuesNumeral (style.lineBreak depth ++ ']' :: rest) :=
      stops_blanks (hstyle.lineBreak depth) (.cons rfl rest)
    rw [htext, scan?_cons rfl rfl, scan?_blanks (hstyle.lineBreak (depth + 1)),
      scan?_chars hstyle (depth + 1) item _ (stops_items style (depth + 1) items hafter),
      scan?_itemsChars hstyle (depth + 1) items _ hafter,
      scan?_close hstyle depth rest rfl fun _ => rfl]
    cases scan? rest <;> simp [tokens]
  | object [] =>
    have hopen : scan? ('\x7b' :: '\x7d' :: rest) =
        (scan? ('\x7d' :: rest)).map (Token.openBrace :: ·) := scan?_cons rfl rfl
    have hclose : scan? ('\x7d' :: rest) = (scan? rest).map (Token.closeBrace :: ·) :=
      scan?_cons rfl rfl
    rw [hclose] at hopen
    refine hopen.trans ?_
    cases scan? rest <;> rfl
  | object ((key, value) :: members) =>
    have htext : (object ((key, value) :: members)).chars style depth ++ rest =
        '\x7b' :: (style.lineBreak (depth + 1) ++ (quote key ++ (':' :: (style.colonGap ++
          (value.chars style (depth + 1) ++ (membersChars style (depth + 1) members ++
            (style.lineBreak depth ++ '\x7d' :: rest))))))) := by
      simp [chars]
    have hafter : Stops continuesNumeral (style.lineBreak depth ++ '\x7d' :: rest) :=
      stops_blanks (hstyle.lineBreak depth) (.cons rfl rest)
    rw [htext, scan?_cons rfl rfl, scan?_blanks (hstyle.lineBreak (depth + 1)),
      scan?_key hstyle key,
      scan?_chars hstyle (depth + 1) value _ (stops_members style (depth + 1) members hafter),
      scan?_membersChars hstyle (depth + 1) members _ hafter,
      scan?_close hstyle depth rest rfl fun _ => rfl]
    cases scan? rest <;> simp [tokens]

theorem scan?_itemsChars (hstyle : style.IsBlank) (depth : Nat) (items : List Value)
    (rest : List Char) (hrest : Stops continuesNumeral rest) :
    scan? (itemsChars style depth items ++ rest) = (scan? rest).map (itemsTokens items ++ ·) := by
  match items with
  | [] => cases hscan : scan? rest <;> simp [itemsChars, itemsTokens, hscan]
  | item :: items =>
    have htext : itemsChars style depth (item :: items) ++ rest =
        ',' :: (style.lineBreak depth ++ (item.chars style depth ++
          (itemsChars style depth items ++ rest))) := by
      simp [itemsChars]
    rw [htext, scan?_cons rfl rfl, scan?_blanks (hstyle.lineBreak depth),
      scan?_chars hstyle depth item _ (stops_items style depth items hrest),
      scan?_itemsChars hstyle depth items rest hrest]
    cases scan? rest <;> simp [itemsTokens]

theorem scan?_membersChars (hstyle : style.IsBlank) (depth : Nat)
    (members : List (Option String × Value)) (rest : List Char)
    (hrest : Stops continuesNumeral rest) :
    scan? (membersChars style depth members ++ rest) =
      (scan? rest).map (membersTokens members ++ ·) := by
  match members with
  | [] => cases hscan : scan? rest <;> simp [membersChars, membersTokens, hscan]
  | (key, value) :: members =>
    have htext : membersChars style depth ((key, value) :: members) ++ rest =
        ',' :: (style.lineBreak depth ++ (quote key ++ (':' :: (style.colonGap ++
          (value.chars style depth ++ (membersChars style depth members ++ rest)))))) := by
      simp [membersChars]
    rw [htext, scan?_cons rfl rfl, scan?_blanks (hstyle.lineBreak depth), scan?_key hstyle key,
      scan?_chars hstyle depth value _ (stops_members style depth members hrest),
      scan?_membersChars hstyle depth members rest hrest]
    cases scan? rest <;> simp [membersTokens]

end

/-- The tokens of a text that holds a value and nothing else. -/
theorem scan?_text (hstyle : style.IsBlank) (v : Value) :
    scan? (v.chars style 0) = some v.tokens := by
  have hscan := scan?_chars hstyle 0 v [] (.nil _)
  rwa [List.append_nil, Token.scan?_nil, Option.map_some, List.append_nil] at hscan

end Value

end LinearProgramming.Json
