import PredictiveFrontend.Proofs.Token.LongestMatch

/-!
# Words are never split

What a text is recognised as that begins with a word character is told by its first word, the whole
run of word characters at its start, together with the characters behind it.
-/

namespace PredictiveFrontend

open Text

/-! ### The first word of a text -/

/-- The keywords with their kinds. -/
def keywords : List (TokenKind × String) :=
  [(.valKeyword, "val"),
   (.varKeyword, "var"),
   (.funKeyword, "fun"),
   (.classKeyword, "class"),
   (.publicKeyword, "public"),
   (.privateKeyword, "private"),
   (.returnKeyword, "return"),
   (.ifKeyword, "if"),
   (.elseKeyword, "else"),
   (.whileKeyword, "while"),
   (.trueKeyword, "true"),
   (.falseKeyword, "false"),
   (.nullKeyword, "null")]

/-- The names of simple types with their kinds. -/
def typeKeywords : List (TokenKind × String) :=
  [(.intType, "Int"),
   (.charType, "Char"),
   (.doubleType, "Double")]

/-- The kind among some reserved ones that a word is spelled as. -/
def kindOf? (reserved : List (TokenKind × String)) (word : List Char) : Option TokenKind :=
  reserved.findSome? fun entry => if word = entry.2.toList then some entry.1 else none

/-- The digits behind a point, if a short number goes on with them: they are a whole word behind the
point, and a short number as well. -/
def decimals? (word : List Char) : List Char → Option (List Char)
  | '.' :: rest =>
    if isShortNumber word && isShortNumber (wordRun rest) then some (wordRun rest) else none
  | _ => none

/-- What the first word of a text stands for: the name of an array type, which goes on behind the
word, a short number with decimals, a reserved word, a short number, or a name. -/
def readWord (text : List Char) : Option (TokenKind × List Char) :=
  let word := wordRun text
  if "Array<Int>".toList.isPrefixOf text then some (.intArrayType, "Array<Int>".toList)
  else if "Array<Char>".toList.isPrefixOf text then some (.charArrayType, "Array<Char>".toList)
  else match decimals? word (text.drop word.length) with
    | some decimals => some (.doubleLiteral, word ++ '.' :: decimals)
    | none => match kindOf? (keywords ++ typeKeywords) word with
      | some kind => some (kind, word)
      | none =>
        if isShortNumber word then some (.intLiteral, word)
        else if isIdentifier word then some (.identifier, word)
        else none

/-! ### Patterns that read words -/

namespace Pattern

/-- Whether a pattern can read a lexeme that begins with a word character. -/
def startsWord (p : Pattern) : Bool :=
  match p.first? with
  | some (.exactly c) => isWordCharacter c
  | _ => true

/-- The patterns of the table that can read words. -/
theorem filter_startsWord_table :
    table.filter (fun entry => entry.2.startsWord) =
      keywords.map (fun entry => (entry.1, keyword entry.2)) ++
        [(.intArrayType, literal "Array<Int>")] ++ [(.charArrayType, literal "Array<Char>")] ++
        typeKeywords.map (fun entry => (entry.1, keyword entry.2)) ++
        [(.doubleLiteral, fraction)] ++ [(.intLiteral, number)] ++ [(.identifier, identifier)] := by
  decide +kernel

variable {text : List Char}

theorem read?_eq_none_of_not_startsWord {p : Pattern} (hp : p.isProper = true)
    (hstarts : ¬p.startsWord = true) (htext : text.head?.any isWordCharacter = true) :
    p.read? text = none := by
  rw [Option.eq_none_iff_forall_ne_some]
  intro lexeme h
  rw [startsWord] at hstarts
  split at hstarts
  · next c hfirst =>
    obtain ⟨d, hd, haccepts⟩ := accepts_of_read? hp hfirst h
    obtain rfl : d = c := beq_iff_eq.mp haccepts
    rw [hd] at htext
    exact hstarts htext
  · exact hstarts rfl

theorem fraction_read?_eq_map_decimals? (text : List Char) :
    fraction.read? text = (decimals? (wordRun text) (text.drop (wordRun text).length)).map
      (wordRun text ++ '.' :: ·) := by
  rw [read?]
  split
  · next rest hrest =>
    simp only [hrest, decimals?]
    split
    · rfl
    · rfl
  · next hrest =>
    rw [decimals?.eq_2 _ _ hrest]
    rfl

/-- Of several reserved words the one is read that the first word of the text is. -/
theorem findSome?_keyword_read? (reserved : List (TokenKind × String)) :
    (reserved.map fun entry => (entry.1, keyword entry.2)).findSome?
      (fun entry => (entry.2.read? text).map (entry.1, ·)) =
        (kindOf? reserved (wordRun text)).map (·, wordRun text) := by
  rw [kindOf?, List.map_findSome?, List.findSome?_map]
  congr 1
  funext entry
  simp only [Function.comp_apply, read?]
  split
  · next hword => rw [hword]; rfl
  · rfl

end Pattern

/-! ### Recognition by the first word -/

theorem kindOf?_append (reserved others : List (TokenKind × String)) (word : List Char) :
    kindOf? (reserved ++ others) word = (kindOf? reserved word).or (kindOf? others word) :=
  List.findSome?_append ..

/-- A reserved word is neither a number nor the beginning of the name of an array type. -/
theorem ne_of_kindOf? {word : List Char} {kind : TokenKind}
    (h : kindOf? (keywords ++ typeKeywords) word = some kind) :
    isShortNumber word = false ∧ word ≠ "Array".toList := by
  have hreserved : ∀ entry ∈ keywords ++ typeKeywords, isShortNumber entry.2.toList = false ∧
      entry.2.toList ≠ "Array".toList := by
    decide +kernel
  obtain ⟨entry, hentry, hword⟩ := List.exists_of_findSome?_eq_some h
  rw [Option.ite_none_right_eq_some] at hword
  exact hword.1 ▸ hreserved entry hentry

/-- A text that begins with the name of an array type begins with the word `Array`. -/
theorem wordRun_of_arrayType {name : String} {element text : List Char}
    (hname : name.toList = "Array".toList ++ '<' :: element)
    (h : name.toList.isPrefixOf text = true) : wordRun text = "Array".toList := by
  obtain ⟨rest, rfl⟩ := List.isPrefixOf_iff_prefix.mp h
  rw [hname, List.append_assoc]
  exact (wordRun_append_eq_left_iff (List.all_eq_true.mp (by decide +kernel))).mpr rfl

theorem decimals?_eq_none {word : List Char} (h : isShortNumber word = false)
    (behind : List Char) : decimals? word behind = none := by
  rw [decimals?.eq_def]
  split
  · rw [h]
    rfl
  · rfl

/-- What the patterns that can read words recognise, each in its turn. -/
theorem recognize_eq_of_word {text : List Char} (htext : text.head?.any isWordCharacter = true) :
    recognize text = (Pattern.table.filter fun entry => entry.2.startsWord).findSome?
      fun entry => (entry.2.read? text).map (entry.1, ·) := by
  rw [recognize, ← List.head?_filterMap, ← List.head?_filterMap, List.filterMap_filter]
  refine congrArg List.head? (List.filterMap_congr fun entry hentry => ?_)
  split
  · rfl
  · next hstarts =>
    rw [Pattern.read?_eq_none_of_not_startsWord (Pattern.isProper_of_mem_table hentry) hstarts
      htext]
    rfl

/-- A text that begins with a word character is recognised by its first word as a whole, and so it
is by the expressions: no shorter beginning of the word is ever taken for a lexeme. -/
theorem recognize_word {text : List Char} (htext : text.head?.any isWordCharacter = true) :
    recognize text = readWord text ∧ Expression.recognize text = readWord text := by
  suffices h : recognize text = readWord text from
    ⟨h, (Expression.recognize_eq text).trans h⟩
  rw [recognize_eq_of_word htext, Pattern.filter_startsWord_table, readWord]
  simp only [List.findSome?_append, List.findSome?_singleton, Pattern.findSome?_keyword_read?,
    Pattern.fraction_read?_eq_map_decimals?]
  simp only [Pattern.read?]
  cases hkind : kindOf? (keywords ++ typeKeywords) (wordRun text) with
  | some kind =>
    -- a reserved word in front of everything else, wherever it stands in the table
    obtain ⟨hnumber, harray⟩ := ne_of_kindOf? hkind
    have hint : ¬"Array<Int>".toList.isPrefixOf text = true :=
      fun h => harray (wordRun_of_arrayType rfl h)
    have hchar : ¬"Array<Char>".toList.isPrefixOf text = true :=
      fun h => harray (wordRun_of_arrayType rfl h)
    rw [if_neg hint, if_neg hint, if_neg hchar, if_neg hchar, decimals?_eq_none hnumber]
    rw [kindOf?_append, Option.or_eq_some_iff] at hkind
    rcases hkind with hkind | ⟨hnone, hkind⟩
    · rw [hkind]
      rfl
    · rw [hnone, hkind]
      rfl
  | none =>
    rw [kindOf?_append, Option.or_eq_none_iff] at hkind
    rw [hkind.1, hkind.2]
    simp only [Option.map_none, Option.none_or, Option.or_none]
    split
    · rfl
    · split
      · rfl
      · cases decimals? (wordRun text) (text.drop (wordRun text).length) with
        | some decimals => rfl
        | none =>
          split
          · rfl
          · split
            · rfl
            · rfl

/-- The word behind the point is no number, so the number ends in front of the point. -/
theorem recognize_word_pointed : "3.25x".toList.head?.any isWordCharacter = true ∧
    recognize "3.25x".toList = some (.intLiteral, ['3']) ∧
    Expression.recognize "3.25x".toList = some (.intLiteral, ['3']) := by
  have hstart : "3.25x".toList.head?.any isWordCharacter = true := by decide +kernel
  have hword : readWord "3.25x".toList = some (.intLiteral, ['3']) := by decide +kernel
  obtain ⟨h, h'⟩ := recognize_word hstart
  exact ⟨hstart, h.trans hword, h'.trans hword⟩

end PredictiveFrontend
