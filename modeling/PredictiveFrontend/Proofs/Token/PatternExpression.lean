import PredictiveFrontend.Proofs.Token.Expression

/-!
# Patterns as regular expressions

The patterns look at whole runs of word characters from the start. An expression has to find out: it
tries repetitions of every length, and the word boundary behind them refuses all but one. So every
expression of the table reads one lexeme at most, whichever place is preferred, and it is the one
that the pattern reads.
-/

namespace PredictiveFrontend

open Text

namespace Pattern

/-- The expression of a pattern. A literal that begins like a word begins at a word boundary. -/
def expression : Pattern → Expression
  | .literal lexeme =>
    if lexeme.toList.head?.any isWordCharacter then .seq .wordBoundary (.literal lexeme)
    else .literal lexeme
  | .commentCloser => .seq (.times 0 1 (.one (.exactly '*'))) (.literal "*/")
  | .keyword word => .bounded (.literal word)
  | .quotedLetter =>
    .seq (.one (.exactly '\'')) (.seq (.one .letter) (.one (.exactly '\'')))
  | .fraction => .bounded (.seq .digits (.seq (.literal ".") .digits))
  | .number => .bounded .digits
  | .identifier => .bounded (.seq (.one .letter) (.times 0 31 (.one .nameCharacter)))

/-- Whether the word of a keyword is made of word characters. -/
def isWord : Pattern → Bool
  | .keyword word => word.toList.all isWordCharacter
  | _ => true

variable {run rest : List Char}

/-- A literal is read wherever it stands. -/
theorem reads_expression_literal {lexeme : String} :
    (literal lexeme).expression.Reads [] run rest ↔ run = lexeme.toList := by
  rw [expression]
  split
  · next hhead =>
    rw [Expression.reads_seq]
    constructor
    · rintro ⟨first, second, rfl, hfirst, hsecond⟩
      obtain ⟨rfl, -⟩ := Expression.reads_wordBoundary.mp hfirst
      exact Expression.reads_literal.mp hsecond
    · rintro rfl
      exact ⟨[], _, rfl,
        Expression.reads_wordBoundary.mpr ⟨rfl, TextPlace.isWordBoundary_start hhead rest⟩,
        Expression.reads_literal.mpr rfl⟩
  · exact Expression.reads_literal

theorem literal_read?_eq_some {lexeme : String} :
    (literal lexeme).read? (run ++ rest) = some run ↔ run = lexeme.toList := by
  rw [read?, Option.ite_none_right_eq_some, Option.some.injEq]
  constructor
  · exact fun h => h.2.symm
  · rintro rfl
    exact ⟨List.isPrefixOf_iff_prefix.mpr (List.prefix_append _ _), rfl⟩

theorem reads_expression_commentCloser :
    commentCloser.expression.Reads [] run rest ↔ run = ['*', '/'] ∨ run = ['*', '*', '/'] := by
  have hcloser : "*/".toList = ['*', '/'] := by decide +kernel
  rw [expression, Expression.reads_seq]
  constructor
  · rintro ⟨first, second, rfl, hfirst, hsecond⟩
    obtain ⟨⟨-, hlength⟩, hall⟩ := (Expression.reads_times_one (by decide)).mp hfirst
    rw [Expression.reads_literal.mp hsecond, hcloser]
    match first, hlength, hall with
    | [], _, _ => exact Or.inl rfl
    | [c], _, hall =>
      obtain rfl : c = '*' := beq_iff_eq.mp (hall c (List.mem_singleton_self c))
      exact Or.inr rfl
  · rintro (rfl | rfl)
    · exact ⟨[], _, rfl, (Expression.reads_times_one (by decide)).mpr ⟨by decide, nofun⟩,
        Expression.reads_literal.mpr hcloser.symm⟩
    · refine ⟨['*'], _, rfl, (Expression.reads_times_one (by decide)).mpr ⟨by decide, ?_⟩,
        Expression.reads_literal.mpr hcloser.symm⟩
      exact List.forall_mem_singleton.mpr rfl

theorem commentCloser_read?_eq_some :
    commentCloser.read? (run ++ rest) = some run ↔ run = ['*', '/'] ∨ run = ['*', '*', '/'] := by
  constructor
  · intro h
    simp only [read?] at h
    split at h
    · cases h
      exact Or.inr rfl
    · rw [Option.ite_none_right_eq_some] at h
      exact Or.inl (Option.some.inj h.2).symm
  · rintro (rfl | rfl) <;> rfl

theorem reads_expression_keyword {word : String} (hne : word ≠ "")
    (hword : ∀ c ∈ word.toList, isWordCharacter c = true) :
    (keyword word).expression.Reads [] run rest ↔ run = word.toList ∧ wordRun rest = [] := by
  refine Expression.reads_bounded Expression.reads_literal ?_
  rintro run rfl
  exact isWordAtEnds_of_forall (by simpa using hne) hword

theorem keyword_read?_eq_some {word : String}
    (hword : ∀ c ∈ word.toList, isWordCharacter c = true) :
    (keyword word).read? (run ++ rest) = some run ↔ run = word.toList ∧ wordRun rest = [] := by
  rw [read?, Option.ite_none_right_eq_some, Option.some.injEq]
  constructor
  · rintro ⟨hrun, rfl⟩
    exact ⟨rfl, (wordRun_append_eq_left_iff hword).mp hrun⟩
  · rintro ⟨rfl, hrest⟩
    exact ⟨(wordRun_append_eq_left_iff hword).mpr hrest, rfl⟩

theorem reads_expression_quotedLetter :
    quotedLetter.expression.Reads [] run rest ↔ ∃ c, run = ['\'', c, '\''] ∧ c.isAlpha = true := by
  rw [expression, Expression.reads_seq]
  constructor
  · rintro ⟨first, second, rfl, hfirst, hsecond⟩
    obtain ⟨opening, rfl, hopening⟩ := Expression.reads_one.mp hfirst
    obtain ⟨third, last, rfl, hthird, hlast⟩ := Expression.reads_seq.mp hsecond
    obtain ⟨c, rfl, hc⟩ := Expression.reads_one.mp hthird
    obtain ⟨closing, rfl, hclosing⟩ := Expression.reads_one.mp hlast
    obtain rfl : opening = '\'' := beq_iff_eq.mp hopening
    obtain rfl : closing = '\'' := beq_iff_eq.mp hclosing
    exact ⟨c, rfl, hc⟩
  · rintro ⟨c, rfl, hc⟩
    refine ⟨['\''], [c, '\''], rfl, Expression.reads_one.mpr ⟨_, rfl, rfl⟩, ?_⟩
    exact Expression.reads_seq.mpr ⟨[c], ['\''], rfl, Expression.reads_one.mpr ⟨c, rfl, hc⟩,
      Expression.reads_one.mpr ⟨_, rfl, rfl⟩⟩

theorem quotedLetter_read?_eq_some :
    quotedLetter.read? (run ++ rest) = some run ↔
      ∃ c, run = ['\'', c, '\''] ∧ c.isAlpha = true := by
  constructor
  · intro h
    simp only [read?] at h
    split at h
    · next c after _ =>
      rw [Option.ite_none_right_eq_some] at h
      exact ⟨c, (Option.some.inj h.2).symm, h.1⟩
    · cases h
  · rintro ⟨c, rfl, hc⟩
    simp [read?, hc]

theorem reads_expression_number :
    number.expression.Reads [] run rest ↔ isShortNumber run = true ∧ wordRun rest = [] := by
  refine Expression.reads_bounded (L := fun run => isShortNumber run = true)
    Expression.reads_digits fun h => ?_
  exact isWordAtEnds_of_forall (ne_nil_of_isShortNumber h)
    (forall_isWordCharacter_of_isShortNumber h)

/-- The whole run of word characters is read if it is of a language of such runs. -/
private theorem whole_run_eq_some {language : List Char → Bool}
    (h : ∀ run, language run = true → ∀ c ∈ run, isWordCharacter c = true) :
    (if language (wordRun (run ++ rest)) = true then some (wordRun (run ++ rest)) else none) =
      some run ↔ language run = true ∧ wordRun rest = [] := by
  rw [Option.ite_none_right_eq_some, Option.some.injEq]
  constructor
  · rintro ⟨hlanguage, hrun⟩
    rw [hrun] at hlanguage
    exact ⟨hlanguage, (wordRun_append_eq_left_iff (h run hlanguage)).mp hrun⟩
  · rintro ⟨hlanguage, hrest⟩
    rw [(wordRun_append_eq_left_iff (h run hlanguage)).mpr hrest]
    exact ⟨hlanguage, rfl⟩

theorem number_read?_eq_some :
    number.read? (run ++ rest) = some run ↔ isShortNumber run = true ∧ wordRun rest = [] :=
  whole_run_eq_some fun _ => forall_isWordCharacter_of_isShortNumber

theorem reads_expression_identifier :
    identifier.expression.Reads [] run rest ↔ isIdentifier run = true ∧ wordRun rest = [] := by
  refine Expression.reads_bounded (L := fun run => isIdentifier run = true) ?_ fun h => ?_
  · intro before run rest
    rw [Expression.reads_seq]
    constructor
    · rintro ⟨first, second, rfl, hfirst, hsecond⟩
      obtain ⟨c, rfl, hc⟩ := Expression.reads_one.mp hfirst
      obtain ⟨⟨-, hlength⟩, hall⟩ := (Expression.reads_times_one (by decide)).mp hsecond
      simp only [List.singleton_append, isIdentifier, Bool.and_eq_true, decide_eq_true_eq,
        List.all_eq_true]
      exact ⟨⟨hc, hlength⟩, hall⟩
    · intro h
      cases run with
      | nil => cases h
      | cons c more =>
        simp only [isIdentifier, Bool.and_eq_true, decide_eq_true_eq, List.all_eq_true] at h
        obtain ⟨⟨hc, hlength⟩, hall⟩ := h
        exact ⟨[c], more, rfl, Expression.reads_one.mpr ⟨c, rfl, hc⟩,
          (Expression.reads_times_one (by decide)).mpr ⟨⟨Nat.zero_le _, hlength⟩, hall⟩⟩
  · exact isWordAtEnds_of_forall (ne_nil_of_isIdentifier h)
      (forall_isWordCharacter_of_isIdentifier h)

theorem identifier_read?_eq_some :
    identifier.read? (run ++ rest) = some run ↔ isIdentifier run = true ∧ wordRun rest = [] :=
  whole_run_eq_some fun _ => forall_isWordCharacter_of_isIdentifier

/-- Two short numbers with a point in between. -/
def IsFraction (run : List Char) : Prop :=
  ∃ whole decimals, run = whole ++ '.' :: decimals ∧ isShortNumber whole = true ∧
    isShortNumber decimals = true

theorem IsFraction.isWordAtEnds (h : IsFraction run) : IsWordAtEnds run := by
  obtain ⟨whole, decimals, rfl, hwhole, hdecimals⟩ := h
  obtain ⟨hfirst, -⟩ := isWordAtEnds_of_forall (ne_nil_of_isShortNumber hwhole)
    (forall_isWordCharacter_of_isShortNumber hwhole)
  obtain ⟨-, hlast⟩ := isWordAtEnds_of_forall (ne_nil_of_isShortNumber hdecimals)
    (forall_isWordCharacter_of_isShortNumber hdecimals)
  constructor
  · rw [List.head?_append_of_ne_nil _ (ne_nil_of_isShortNumber hwhole)]
    exact hfirst
  · rw [List.append_cons, List.getLast?_append_of_ne_nil _ (ne_nil_of_isShortNumber hdecimals)]
    exact hlast

theorem reads_expression_fraction :
    fraction.expression.Reads [] run rest ↔ IsFraction run ∧ wordRun rest = [] := by
  refine Expression.reads_bounded ?_ IsFraction.isWordAtEnds
  intro before run rest
  rw [Expression.reads_seq]
  constructor
  · rintro ⟨whole, second, rfl, hwhole, hsecond⟩
    obtain ⟨point, decimals, rfl, hpoint, hdecimals⟩ := Expression.reads_seq.mp hsecond
    obtain rfl := Expression.reads_literal.mp hpoint
    exact ⟨whole, decimals, rfl, Expression.reads_digits.mp hwhole,
      Expression.reads_digits.mp hdecimals⟩
  · rintro ⟨whole, decimals, rfl, hwhole, hdecimals⟩
    refine ⟨whole, '.' :: decimals, rfl, Expression.reads_digits.mpr hwhole, ?_⟩
    exact Expression.reads_seq.mpr ⟨['.'], decimals, rfl, Expression.reads_literal.mpr rfl,
      Expression.reads_digits.mpr hdecimals⟩

theorem fraction_read?_eq_some :
    fraction.read? (run ++ rest) = some run ↔ IsFraction run ∧ wordRun rest = [] := by
  constructor
  · intro h
    simp only [read?] at h
    split at h
    · next behind hbehind =>
      rw [Option.ite_none_right_eq_some, Bool.and_eq_true, Option.some.injEq] at h
      obtain ⟨⟨hwhole, hdecimals⟩, hrun⟩ := h
      have htext := List.prefix_iff_eq_append.mp (wordRun_starts (run ++ rest))
      rw [hbehind] at htext
      have hrest : wordRun behind ++ rest = behind := by
        have hboth := htext.trans (congrArg (· ++ rest) hrun.symm)
        simp only [List.append_assoc, List.cons_append] at hboth
        exact (List.cons.inj (List.append_cancel_left hboth)).2.symm
      refine ⟨⟨_, _, hrun.symm, hwhole, hdecimals⟩, ?_⟩
      refine (wordRun_append_eq_left_iff (forall_isWordCharacter_of_isShortNumber hdecimals)).mp ?_
      rw [hrest]
    · cases h
  · rintro ⟨⟨whole, decimals, rfl, hwhole, hdecimals⟩, hrest⟩
    have hfirst : wordRun (whole ++ '.' :: (decimals ++ rest)) = whole :=
      (wordRun_append_eq_left_iff (forall_isWordCharacter_of_isShortNumber hwhole)).mpr rfl
    have hsecond : wordRun (decimals ++ rest) = decimals :=
      (wordRun_append_eq_left_iff (forall_isWordCharacter_of_isShortNumber hdecimals)).mpr hrest
    rw [List.append_assoc, List.cons_append, read?]
    simp only [hfirst, List.drop_left, hsecond, hwhole, hdecimals, Bool.and_self, if_true]

/-- The expression of a pattern reads the runs that the pattern reads. -/
theorem reads_expression {p : Pattern} (hp : p.isProper = true) (hword : p.isWord = true) :
    p.expression.Reads [] run rest ↔ p.read? (run ++ rest) = some run := by
  cases p with
  | literal lexeme => rw [reads_expression_literal, literal_read?_eq_some]
  | commentCloser => rw [reads_expression_commentCloser, commentCloser_read?_eq_some]
  | keyword word =>
    have hne : word ≠ "" := bne_iff_ne.mp hp
    have hall : ∀ c ∈ word.toList, isWordCharacter c = true := List.all_eq_true.mp hword
    rw [reads_expression_keyword hne hall, keyword_read?_eq_some hall]
  | quotedLetter => rw [reads_expression_quotedLetter, quotedLetter_read?_eq_some]
  | fraction => rw [reads_expression_fraction, fraction_read?_eq_some]
  | number => rw [reads_expression_number, number_read?_eq_some]
  | identifier => rw [reads_expression_identifier, identifier_read?_eq_some]

/-- There is one lexeme at most that the expression of a pattern can read, and it is the one that
the pattern reads. -/
theorem read?_expression {p : Pattern} (hp : p.isProper = true) (hword : p.isWord = true)
    (text : List Char) : p.expression.read? text = p.read? text := by
  rw [Expression.read?]
  cases hends : p.expression.ends ⟨[], text⟩ with
  | nil =>
    cases hread : p.read? text with
    | none => rfl
    | some lexeme =>
      obtain ⟨rest, rfl⟩ := (prefix_of_read? hp hread).1
      have hreads := (reads_expression hp hword).mpr hread
      rw [Expression.Reads, Expression.Passes, hends] at hreads
      cases hreads
  | cons place others =>
    obtain ⟨run, hafter, hbefore⟩ :=
      p.expression.advances_ends ⟨[], text⟩ place (hends ▸ List.mem_cons_self ..)
    simp only at hafter hbefore
    have hreads : p.expression.Reads [] run place.after := by
      rw [Expression.Reads, Expression.Passes, ← hafter, ← hbefore, hends]
      exact List.mem_cons_self ..
    have hread := (reads_expression hp hword).mp hreads
    rw [← hafter] at hread
    rw [hread, List.head?_cons, Option.map_some, hbefore, List.append_nil, List.reverse_reverse]
    simpa using (prefix_of_read? hp hread).2

end Pattern

namespace Expression

theorem table_eq : table = Pattern.table.map fun entry => (entry.1, entry.2.expression) := by
  rfl

/-- The expression of an entry reads what the pattern of the entry reads. -/
theorem read?_of_mem_table {entry : TokenKind × Pattern} (h : entry ∈ Pattern.table)
    (text : List Char) : entry.2.expression.read? text = entry.2.read? text := by
  have hregular : ∀ entry ∈ Pattern.table, entry.2.isProper = true ∧ entry.2.isWord = true := by
    decide +kernel
  obtain ⟨hproper, hword⟩ := hregular entry h
  exact Pattern.read?_expression hproper hword text

theorem readings_eq (text : List Char) :
    (table.map fun entry => (entry.1, entry.2.read? text)) =
      Pattern.table.map fun entry => (entry.1, entry.2.read? text) := by
  rw [table_eq, List.map_map]
  refine List.map_congr_left fun entry hentry => ?_
  rw [Function.comp_apply, read?_of_mem_table hentry]

/-- The expressions recognise what the patterns recognise. -/
theorem recognize_eq (text : List Char) :
    recognize text = PredictiveFrontend.recognize text := by
  have h := congrArg (List.findSome? fun reading => reading.2.map (reading.1, ·)) (readings_eq text)
  rwa [List.findSome?_map, List.findSome?_map] at h

end Expression

end PredictiveFrontend
