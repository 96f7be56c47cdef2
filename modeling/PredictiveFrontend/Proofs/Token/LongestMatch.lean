import PredictiveFrontend.Proofs.Token.PatternExpression

/-!
# The first match is a longest one

The first expression of the table that reads something decides, whatever the others read. The table
is so ordered that this is the longest lexeme all the same: of two expressions that can both read,
the earlier one reads whole words, or no proper beginning of what the later one reads.
-/

namespace PredictiveFrontend

open Text

/-- Whether two classes have no character in common. This is told of single characters only. -/
def CharacterClass.excludes : CharacterClass → CharacterClass → Bool
  | .exactly c, cls => !cls.accepts c
  | cls, .exactly c => !cls.accepts c
  | _, _ => false

theorem CharacterClass.not_accepts_of_excludes {cls cls' : CharacterClass}
    (h : cls.excludes cls' = true) {c : Char} (hc : cls.accepts c = true) :
    ¬cls'.accepts c = true := by
  cases cls with
  | exactly d =>
    obtain rfl : c = d := beq_iff_eq.mp hc
    exact Bool.eq_false_iff.mp ((Bool.not_eq_true' _).mp h)
  | letter | digit | nameCharacter =>
    cases cls' with
    | exactly d =>
      intro hd
      obtain rfl : c = d := beq_iff_eq.mp hd
      exact Bool.eq_false_iff.mp ((Bool.not_eq_true' _).mp h) hc
    | letter | digit | nameCharacter => cases h

namespace Pattern

/-- The class of the first character of what a pattern reads. -/
def first? : Pattern → Option CharacterClass
  | .literal lexeme => lexeme.toList.head?.map .exactly
  | .commentCloser => some (.exactly '*')
  | .keyword word => word.toList.head?.map .exactly
  | .quotedLetter => some (.exactly '\'')
  | .fraction => some .digit
  | .number => some .digit
  | .identifier => some .letter

/-- Whether a pattern never reads a part of a word only. -/
def keepsWords : Pattern → Bool
  | .literal lexeme => !lexeme.toList.all isWordCharacter
  | _ => true

/-- Whether a pattern reads the first word of the text or nothing. -/
def readsWord : Pattern → Bool
  | .keyword _ | .number | .identifier => true
  | _ => false

/-- Whether what two patterns read begins with different characters. -/
def startsApart (p q : Pattern) : Bool :=
  (p.first?.bind fun cls => q.first?.map cls.excludes).getD false

/-- Whether the first of two patterns reads as much as the second one wherever both of them read
something, so far as their shapes tell. -/
def outreads (p q : Pattern) : Bool :=
  p.startsApart q ||
    match p, q with
    | .literal lexeme, .literal other =>
      other.toList.length ≤ lexeme.toList.length || !lexeme.toList.isPrefixOf other.toList
    | _, .literal other => other.toList.length ≤ 1
    | _, _ => p.keepsWords && q.readsWord

/-- Every pattern of the table outreads all that come later. -/
theorem pairwise_outreads_table :
    table.Pairwise fun entry later => entry.2.outreads later.2 = true := by
  decide +kernel

variable {p q : Pattern} {text lexeme other : List Char}

/-- What a pattern reads begins with a character of the first class. -/
theorem accepts_of_read? (hp : p.isProper = true) {cls : CharacterClass}
    (hcls : p.first? = some cls) (h : p.read? text = some lexeme) :
    ∃ c, text.head? = some c ∧ cls.accepts c = true := by
  obtain ⟨⟨rest, rfl⟩, hne⟩ := prefix_of_read? hp h
  have hdigit : ∀ run : List Char, isShortNumber run = true →
      ∃ c, run.head? = some c ∧ isDecimalDigit c = true := by
    intro run hrun
    have hnil := ne_nil_of_isShortNumber hrun
    simp only [isShortNumber, Bool.and_eq_true, List.all_eq_true] at hrun
    exact ⟨_, List.head?_eq_some_head hnil, hrun.2 _ (List.head_mem hnil)⟩
  suffices hhead : ∃ c, lexeme.head? = some c ∧ cls.accepts c = true by
    obtain ⟨c, hc, haccepts⟩ := hhead
    exact ⟨c, by rw [List.head?_append_of_ne_nil _ hne, hc], haccepts⟩
  cases p with
  | literal word =>
    obtain ⟨c, hc, rfl⟩ := Option.map_eq_some_iff.mp hcls
    exact ⟨c, literal_read?_eq_some.mp h ▸ hc, beq_self_eq_true c⟩
  | commentCloser =>
    cases hcls
    rcases commentCloser_read?_eq_some.mp h with rfl | rfl
    · exact ⟨'*', rfl, rfl⟩
    · exact ⟨'*', rfl, rfl⟩
  | keyword word =>
    obtain ⟨c, hc, rfl⟩ := Option.map_eq_some_iff.mp hcls
    exact ⟨c, eq_of_spelling? rfl h ▸ hc, beq_self_eq_true c⟩
  | quotedLetter =>
    cases hcls
    obtain ⟨c, rfl, -⟩ := quotedLetter_read?_eq_some.mp h
    exact ⟨'\'', rfl, rfl⟩
  | fraction =>
    cases hcls
    obtain ⟨⟨whole, decimals, rfl, hwhole, -⟩, -⟩ := fraction_read?_eq_some.mp h
    rw [List.head?_append_of_ne_nil _ (ne_nil_of_isShortNumber hwhole)]
    exact hdigit whole hwhole
  | number =>
    cases hcls
    exact hdigit lexeme (number_read?_eq_some.mp h).1
  | identifier =>
    cases hcls
    cases lexeme with
    | nil => exact absurd rfl hne
    | cons c more =>
      have hrun := (identifier_read?_eq_some.mp h).1
      simp only [isIdentifier, Bool.and_eq_true] at hrun
      exact ⟨c, rfl, hrun.1.1⟩

/-- Two patterns that begin with different characters do not both read something. -/
theorem not_startsApart_of_read? (hp : p.isProper = true) (hq : q.isProper = true)
    (h : p.read? text = some lexeme) (hother : q.read? text = some other) :
    ¬p.startsApart q = true := by
  intro hapart
  cases hfirst : p.first? with
  | none => simp [startsApart, hfirst] at hapart
  | some cls =>
    cases hfirst' : q.first? with
    | none => simp [startsApart, hfirst, hfirst'] at hapart
    | some cls' =>
      obtain ⟨c, hc, haccepts⟩ := accepts_of_read? hp hfirst h
      obtain ⟨c', hc', haccepts'⟩ := accepts_of_read? hq hfirst' hother
      obtain rfl : c = c' := Option.some.inj (hc.symm.trans hc')
      simp only [startsApart, hfirst, hfirst', Option.bind_some, Option.map_some,
        Option.getD_some] at hapart
      exact CharacterClass.not_accepts_of_excludes hapart haccepts haccepts'

/-- A lexeme with a character that is no word character contains the first word of the text. -/
private theorem length_wordRun_le_of_mem (hstart : lexeme <+: text) {c : Char} (hc : c ∈ lexeme)
    (hword : ¬isWordCharacter c = true) : (wordRun text).length ≤ lexeme.length := by
  obtain ⟨rest, rfl⟩ := hstart
  rw [wordRun, List.takeWhile_append, if_neg]
  · exact (List.takeWhile_prefix _).length_le
  · intro hlength
    have hall := (List.takeWhile_prefix isWordCharacter).eq_of_length hlength
    exact hword (List.takeWhile_eq_self_iff.mp hall c hc)

theorem wordRun_eq_of_readsWord (hword : p.readsWord = true) (h : p.read? text = some lexeme) :
    wordRun text = lexeme := by
  cases p with
  | keyword word =>
    simp only [read?, Option.ite_none_right_eq_some, Option.some.injEq] at h
    exact h.1.trans h.2
  | number | identifier =>
    simp only [read?, Option.ite_none_right_eq_some, Option.some.injEq] at h
    exact h.2
  | literal | commentCloser | quotedLetter | fraction => cases hword

/-- A pattern that keeps words reads at least the first word of the text. -/
theorem length_wordRun_le (hp : p.isProper = true) (hwords : p.keepsWords = true)
    (h : p.read? text = some lexeme) : (wordRun text).length ≤ lexeme.length := by
  obtain ⟨⟨rest, rfl⟩, -⟩ := prefix_of_read? hp h
  have hstart : lexeme <+: lexeme ++ rest := List.prefix_append _ _
  cases p with
  | literal word =>
    obtain rfl := eq_of_spelling? rfl h
    simp only [keepsWords, Bool.not_eq_true', List.all_eq_false] at hwords
    obtain ⟨c, hc, hword⟩ := hwords
    exact length_wordRun_le_of_mem hstart hc hword
  | commentCloser =>
    have hstar : '*' ∈ lexeme := by
      rcases commentCloser_read?_eq_some.mp h with rfl | rfl
      · exact List.mem_cons_self ..
      · exact List.mem_cons_self ..
    exact length_wordRun_le_of_mem hstart hstar (by decide)
  | quotedLetter =>
    obtain ⟨c, rfl, -⟩ := quotedLetter_read?_eq_some.mp h
    exact length_wordRun_le_of_mem hstart (List.mem_cons_self ..) (by decide)
  | fraction =>
    exact length_wordRun_le_of_mem hstart (point_mem_of_fraction_read? h) (by decide)
  | keyword | number | identifier =>
    exact (congrArg List.length (wordRun_eq_of_readsWord rfl h)).le

/-- A pattern that outreads another one reads as much wherever both read something. -/
theorem length_le_of_outreads (hp : p.isProper = true) (hq : q.isProper = true)
    (hpq : p.outreads q = true) (h : p.read? text = some lexeme)
    (hother : q.read? text = some other) : other.length ≤ lexeme.length := by
  obtain ⟨hstart, hne⟩ := prefix_of_read? hp h
  unfold outreads at hpq
  rw [Bool.or_eq_true] at hpq
  rcases hpq with hapart | hpq
  · exact absurd hapart (not_startsApart_of_read? hp hq h hother)
  · split at hpq
    · next word later =>
      obtain rfl := eq_of_spelling? rfl h
      obtain rfl := eq_of_spelling? rfl hother
      rw [Bool.or_eq_true, decide_eq_true_eq, Bool.not_eq_true', ← Bool.not_eq_true,
        List.isPrefixOf_iff_prefix] at hpq
      rcases hpq with hle | hpart
      · exact hle
      · refine Nat.le_of_not_lt fun hlt => hpart ?_
        exact List.prefix_of_prefix_length_le hstart (prefix_of_read? hq hother).1 hlt.le
    · next later _ =>
      obtain rfl := eq_of_spelling? rfl hother
      exact (decide_eq_true_eq.mp hpq).trans (List.length_pos_iff.mpr hne)
    · rw [Bool.and_eq_true] at hpq
      rw [← wordRun_eq_of_readsWord hpq.2 hother]
      exact length_wordRun_le hp hpq.1 h

end Pattern

/-! ### The first match -/

/-- A choice from what several patterns read, of the longest lexeme and of the first pattern that
reads as much; there is none only if no pattern reads anything. -/
def IsLongestMatch (readings : List (TokenKind × Option (List Char))) :
    Option (TokenKind × List Char) → Prop
  | none => ∀ reading ∈ readings, reading.2 = none
  | some (kind, lexeme) => ∃ earlier later, readings = earlier ++ (kind, some lexeme) :: later ∧
      (∀ reading ∈ earlier, ∀ other, reading.2 = some other → other.length < lexeme.length) ∧
      ∀ reading ∈ later, ∀ other, reading.2 = some other → other.length ≤ lexeme.length

/-- The first match is a longest one if no later pattern reads more than an earlier one. -/
theorem isLongestMatch_findSome? {readings : List (TokenKind × Option (List Char))}
    (h : readings.Pairwise fun reading later => ∀ lexeme other, reading.2 = some lexeme →
      later.2 = some other → other.length ≤ lexeme.length) :
    IsLongestMatch readings (readings.findSome? fun reading => reading.2.map (reading.1, ·)) := by
  cases hfirst : readings.findSome? fun reading => reading.2.map (reading.1, ·) with
  | none =>
    intro reading hreading
    exact Option.map_eq_none_iff.mp (List.findSome?_eq_none_iff.mp hfirst reading hreading)
  | some result =>
    obtain ⟨earlier, ⟨kind, read⟩, later, rfl, hread, hearlier⟩ :=
      List.findSome?_eq_some_iff.mp hfirst
    obtain ⟨lexeme, rfl, rfl⟩ := Option.map_eq_some_iff.mp hread
    rw [List.pairwise_append, List.pairwise_cons] at h
    obtain ⟨-, ⟨hlater, -⟩, -⟩ := h
    refine ⟨earlier, later, rfl, fun reading hreading other hother => ?_, ?_⟩
    · have hnone := Option.map_eq_none_iff.mp (hearlier reading hreading)
      rw [hnone] at hother
      cases hother
    · exact fun reading hreading other => hlater reading hreading lexeme other rfl

/-- What is recognised at the start of a text is the longest lexeme that any pattern of the table
reads there, and so it is among what the expressions of the table read. -/
theorem recognize_longest (text : List Char) :
    IsLongestMatch (Pattern.table.map fun entry => (entry.1, entry.2.read? text))
        (recognize text) ∧
      IsLongestMatch (Expression.table.map fun entry => (entry.1, entry.2.read? text))
        (recognize text) := by
  rw [Expression.readings_eq, and_self]
  have hpairs : (Pattern.table.map fun entry => (entry.1, entry.2.read? text)).Pairwise
      fun reading later => ∀ lexeme other, reading.2 = some lexeme → later.2 = some other →
        other.length ≤ lexeme.length := by
    rw [List.pairwise_map]
    refine Pattern.pairwise_outreads_table.imp_of_mem ?_
    intro entry later hentry hlater houtreads lexeme other
    exact Pattern.length_le_of_outreads (Pattern.isProper_of_mem_table hentry)
      (Pattern.isProper_of_mem_table hlater) houtreads
  have hlongest := isLongestMatch_findSome? hpairs
  rwa [List.findSome?_map] at hlongest

end PredictiveFrontend
