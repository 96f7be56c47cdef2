import PredictiveFrontend.Proofs.Token.WordRun

/-!
# Regular expressions

The lexemes of every kind can be given by a regular expression. From a place in a text an expression
may end at several places; a repetition goes on as long as it can, so the place behind the most
repetitions comes first, and of all places the first one is taken. There is a word boundary between
a word character and any other, and where a word character stands at either end of a text. What an
expression reads, without regard to the order, is a relation that follows its structure.
-/

namespace PredictiveFrontend

open Text

/-! ### Expressions -/

/-- A class of characters. -/
inductive CharacterClass where
  /-- One character and no other. -/
  | exactly (c : Char)
  /-- A letter of the basic Latin block. -/
  | letter
  /-- A decimal digit of any script. -/
  | digit
  /-- A letter or a digit of the basic Latin block, or `_`. -/
  | nameCharacter
  deriving DecidableEq, Repr

/-- Whether a character is in a class. -/
def CharacterClass.accepts : CharacterClass → Char → Bool
  | .exactly c, d => d == c
  | .letter, d => d.isAlpha
  | .digit, d => isDecimalDigit d
  | .nameCharacter, d => d.isAlphanum || d == '_'

/-- A place in a text. -/
structure TextPlace where
  /-- The characters in front of the place, the last one first. -/
  before : List Char
  /-- The characters behind the place. -/
  after : List Char
  deriving DecidableEq, Repr

/-- Whether there is a word character on one side of a place and none on the other. -/
def TextPlace.isWordBoundary (p : TextPlace) : Bool :=
  p.before.head?.any isWordCharacter != p.after.head?.any isWordCharacter

/-- A regular expression. -/
inductive Expression where
  /-- Nothing. -/
  | empty
  /-- A character of a class. -/
  | one (cls : CharacterClass)
  /-- Nothing, at a word boundary. -/
  | wordBoundary
  /-- One expression behind the other. -/
  | seq (first second : Expression)
  /-- An expression at least and at most so many times. -/
  | times (least most : Nat) (e : Expression)
  deriving DecidableEq, Repr

namespace Expression

/-- The places behind at most so many steps, those behind more steps first. -/
def upTo (step : TextPlace → List TextPlace) : Nat → TextPlace → List TextPlace
  | 0, p => [p]
  | n + 1, p => (step p).flatMap (upTo step n) ++ [p]

/-- The places behind so many steps that are required, and at most so many more. -/
def repeatedly (step : TextPlace → List TextPlace) : Nat → Nat → TextPlace → List TextPlace
  | 0, allowed, p => upTo step allowed p
  | required + 1, allowed, p => (step p).flatMap (repeatedly step required allowed)

/-- The places where an expression ends that begins at a place, in the order in which a greedy
search comes to them. -/
def ends : Expression → TextPlace → List TextPlace
  | .empty, p => [p]
  | .one cls, p =>
    match p.after with
    | c :: rest => if cls.accepts c then [⟨c :: p.before, rest⟩] else []
    | [] => []
  | .wordBoundary, p => if p.isWordBoundary then [p] else []
  | .seq first second, p => (first.ends p).flatMap second.ends
  | .times least most e, p => repeatedly e.ends least (most - least) p

/-- The lexeme that an expression reads from the start of a text: all characters in front of the
first place where it ends, if there are any. -/
def read? (e : Expression) (text : List Char) : Option (List Char) :=
  ((e.ends ⟨[], text⟩).head?.map fun p => p.before.reverse).filter fun lexeme => !lexeme.isEmpty

/-- The given characters. -/
def spelled : List Char → Expression
  | [] => .empty
  | c :: rest => .seq (.one (.exactly c)) (spelled rest)

/-- The characters of a string. -/
def literal (lexeme : String) : Expression :=
  spelled lexeme.toList

/-- An expression between word boundaries. -/
def bounded (e : Expression) : Expression :=
  .seq .wordBoundary (.seq e .wordBoundary)

/-- One to nine decimal digits. -/
def digits : Expression :=
  .times 1 9 (.one .digit)

/-- The kinds of lexemes with their expressions, in the order in which they are tried. -/
def table : List (TokenKind × Expression) :=
  [(.blockCommentStart, literal "/*"),
   (.blockCommentEnd, .seq (.times 0 1 (.one (.exactly '*'))) (literal "*/")),
   (.lineComment, literal "//"),
   (.whiteSpace, literal " "),
   (.tab, literal "\t"),
   (.carriageReturn, literal "\r"),
   (.newLine, literal "\n"),
   (.openParen, literal "("),
   (.closeParen, literal ")"),
   (.openCurly, literal "\x7b"),
   (.closeCurly, literal "\x7d"),
   (.colon, literal ":"),
   (.comma, literal ","),
   (.point, literal "."),
   (.valKeyword, bounded (literal "val")),
   (.varKeyword, bounded (literal "var")),
   (.funKeyword, bounded (literal "fun")),
   (.classKeyword, bounded (literal "class")),
   (.publicKeyword, bounded (literal "public")),
   (.privateKeyword, bounded (literal "private")),
   (.returnKeyword, bounded (literal "return")),
   (.ifKeyword, bounded (literal "if")),
   (.elseKeyword, bounded (literal "else")),
   (.whileKeyword, bounded (literal "while")),
   (.trueKeyword, bounded (literal "true")),
   (.falseKeyword, bounded (literal "false")),
   (.nullKeyword, bounded (literal "null")),
   (.intArrayType, .seq .wordBoundary (literal "Array<Int>")),
   (.charArrayType, .seq .wordBoundary (literal "Array<Char>")),
   (.intType, bounded (literal "Int")),
   (.charType, bounded (literal "Char")),
   (.doubleType, bounded (literal "Double")),
   (.charLiteral,
    .seq (.one (.exactly '\'')) (.seq (.one .letter) (.one (.exactly '\'')))),
   (.doubleLiteral, bounded (.seq digits (.seq (literal ".") digits))),
   (.intLiteral, bounded digits),
   (.plus, literal "+"),
   (.minus, literal "-"),
   (.times, literal "*"),
   (.divide, literal "/"),
   (.equalEqual, literal "=="),
   (.notEqual, literal "!="),
   (.assign, literal "="),
   (.greater, literal ">"),
   (.less, literal "<"),
   (.identifier, bounded (.seq (.one .letter) (.times 0 31 (.one .nameCharacter))))]

/-- The first lexeme, in the order of the expressions, that a text starts with. -/
def recognize (text : List Char) : Option (TokenKind × List Char) :=
  table.findSome? fun entry => (entry.2.read? text).map (entry.1, ·)

/-! ### Runs that are read -/

/-- A place that is behind another one, or the same. -/
def Behind (p q : TextPlace) : Prop :=
  ∃ run, p.after = run ++ q.after ∧ q.before = run.reverse ++ p.before

/-- A search that never goes back. -/
def Advances (step : TextPlace → List TextPlace) : Prop :=
  ∀ p, ∀ q ∈ step p, Behind p q

/-- A search comes from a place to the one behind a run of characters. What stands in front of the
run is given with the last character first. -/
def Passes (step : TextPlace → List TextPlace) (before run rest : List Char) : Prop :=
  ⟨run.reverse ++ before, rest⟩ ∈ step ⟨before, run ++ rest⟩

/-- An expression reads a run of characters behind some others and in front of a rest. -/
def Reads (e : Expression) : List Char → List Char → List Char → Prop :=
  Passes e.ends

variable {step next : TextPlace → List TextPlace} {before run rest : List Char}

theorem Behind.refl (p : TextPlace) : Behind p p :=
  ⟨[], rfl, rfl⟩

theorem Behind.trans {p q r : TextPlace} (h : Behind p q) (h' : Behind q r) : Behind p r := by
  obtain ⟨first, hafter, hbefore⟩ := h
  obtain ⟨second, hafter', hbefore'⟩ := h'
  refine ⟨first ++ second, ?_, ?_⟩
  · rw [hafter, hafter', List.append_assoc]
  · rw [hbefore', hbefore, List.reverse_append, List.append_assoc]

theorem Advances.flatMap (hstep : Advances step) (hnext : Advances next) :
    Advances fun p => (step p).flatMap next := by
  intro p q h
  obtain ⟨m, hm, hq⟩ := List.mem_flatMap.mp h
  exact (hstep p m hm).trans (hnext m q hq)

theorem Advances.upTo (hstep : Advances step) (n : Nat) : Advances (upTo step n) := by
  induction n with
  | zero =>
    intro p q h
    obtain rfl := List.mem_singleton.mp h
    exact .refl q
  | succ n ih =>
    intro p q h
    rcases List.mem_append.mp h with h | h
    · exact hstep.flatMap ih p q h
    · obtain rfl := List.mem_singleton.mp h
      exact .refl q

theorem Advances.repeatedly (hstep : Advances step) (required allowed : Nat) :
    Advances (repeatedly step required allowed) := by
  induction required with
  | zero => exact hstep.upTo allowed
  | succ required ih => exact hstep.flatMap ih

/-- An expression never ends in front of the place where it begins. -/
theorem advances_ends (e : Expression) : Advances e.ends := by
  induction e with
  | empty =>
    intro p q h
    obtain rfl := List.mem_singleton.mp h
    exact .refl q
  | one cls =>
    intro p q h
    simp only [ends] at h
    split at h
    · next c rest hafter =>
      rw [List.mem_ite_nil_right, List.mem_singleton] at h
      obtain ⟨-, rfl⟩ := h
      exact ⟨[c], hafter, rfl⟩
    · cases h
  | wordBoundary =>
    intro p q h
    simp only [ends, List.mem_ite_nil_right, List.mem_singleton] at h
    obtain ⟨-, rfl⟩ := h
    exact .refl q
  | seq first second ihfirst ihsecond => exact ihfirst.flatMap ihsecond
  | times least most e ih => exact ih.repeatedly least (most - least)

/-- One search behind the other passes two runs side by side. -/
theorem passes_flatMap (hstep : Advances step) (hnext : Advances next) :
    Passes (fun p => (step p).flatMap next) before run rest ↔
      ∃ first second, run = first ++ second ∧ Passes step before first (second ++ rest) ∧
        Passes next (first.reverse ++ before) second rest := by
  simp only [Passes, List.mem_flatMap]
  constructor
  · rintro ⟨⟨middle, after⟩, hm, hq⟩
    obtain ⟨first, hafter, hmiddle⟩ := hstep _ _ hm
    obtain ⟨second, hafter', -⟩ := hnext _ _ hq
    simp only at hafter hmiddle hafter'
    subst hmiddle hafter'
    rw [← List.append_assoc] at hafter
    obtain rfl := List.append_cancel_right hafter
    rw [List.reverse_append, List.append_assoc] at hq
    rw [List.append_assoc] at hm
    exact ⟨first, second, rfl, hm, hq⟩
  · rintro ⟨first, second, rfl, hm, hq⟩
    rw [List.append_assoc, List.reverse_append, List.append_assoc]
    exact ⟨_, hm, hq⟩

theorem reads_empty : Expression.empty.Reads before run rest ↔ run = [] := by
  simp [Reads, Passes, ends]

theorem reads_one {cls : CharacterClass} :
    (Expression.one cls).Reads before run rest ↔ ∃ c, run = [c] ∧ cls.accepts c = true := by
  constructor
  · intro h
    simp only [Reads, Passes, ends] at h
    split at h
    · next c after hafter =>
      rw [List.mem_ite_nil_right, List.mem_singleton, TextPlace.mk.injEq] at h
      obtain ⟨hc, -, rfl⟩ := h
      exact ⟨c, List.append_cancel_right hafter, hc⟩
    · cases h
  · rintro ⟨c, rfl, hc⟩
    simp [Reads, Passes, ends, hc]

theorem reads_wordBoundary :
    wordBoundary.Reads before run rest ↔
      run = [] ∧ TextPlace.isWordBoundary ⟨before, rest⟩ = true := by
  constructor
  · intro h
    simp only [Reads, Passes, ends, List.mem_ite_nil_right, List.mem_singleton,
      TextPlace.mk.injEq] at h
    obtain ⟨hboundary, -, hrest⟩ := h
    obtain rfl := List.self_eq_append_left.mp hrest
    exact ⟨rfl, hboundary⟩
  · rintro ⟨rfl, hboundary⟩
    simp [Reads, Passes, ends, hboundary]

/-- One expression behind the other reads two runs side by side. -/
theorem reads_seq {e e' : Expression} :
    (Expression.seq e e').Reads before run rest ↔
      ∃ first second, run = first ++ second ∧ e.Reads before first (second ++ rest) ∧
        e'.Reads (first.reverse ++ before) second rest :=
  passes_flatMap (advances_ends e) (advances_ends e')

/-- One character in front of others. -/
private theorem passes_one_flatMap {cls : CharacterClass} (hnext : Advances next) :
    Passes (fun p => ((Expression.one cls).ends p).flatMap next) before run rest ↔
      ∃ c more, run = c :: more ∧ cls.accepts c = true ∧ Passes next (c :: before) more rest := by
  rw [passes_flatMap (advances_ends _) hnext]
  constructor
  · rintro ⟨first, second, rfl, hfirst, hsecond⟩
    obtain ⟨c, rfl, hc⟩ := reads_one.mp hfirst
    exact ⟨c, second, rfl, hc, hsecond⟩
  · rintro ⟨c, more, rfl, hc, hmore⟩
    exact ⟨[c], more, rfl, reads_one.mpr ⟨c, rfl, hc⟩, hmore⟩

/-- So many characters of a class are read at most. -/
private theorem passes_upTo_one {cls : CharacterClass} {n : Nat} :
    Passes (upTo (Expression.one cls).ends n) before run rest ↔
      run.length ≤ n ∧ ∀ c ∈ run, cls.accepts c = true := by
  have hnone : ∀ before run rest : List Char,
      (⟨run.reverse ++ before, rest⟩ : TextPlace) ∈ [(⟨before, run ++ rest⟩ : TextPlace)] ↔
        run = [] := by
    intro before run rest
    rw [List.mem_singleton, TextPlace.mk.injEq]
    constructor
    · exact fun h => List.self_eq_append_left.mp h.2
    · rintro rfl
      exact ⟨rfl, rfl⟩
  induction n generalizing before run with
  | zero =>
    rw [Passes, upTo, hnone, Nat.le_zero, List.length_eq_zero_iff]
    constructor
    · rintro rfl
      exact ⟨rfl, nofun⟩
    · exact And.left
  | succ n ih =>
    have hone : ⟨run.reverse ++ before, rest⟩ ∈ ((Expression.one cls).ends
        ⟨before, run ++ rest⟩).flatMap (upTo (Expression.one cls).ends n) ↔ _ :=
      passes_one_flatMap ((advances_ends (.one cls)).upTo n)
    rw [Passes, upTo, List.mem_append, hnone, hone]
    constructor
    · rintro (⟨c, more, rfl, hc, hmore⟩ | rfl)
      · obtain ⟨hlength, hall⟩ := ih.mp hmore
        exact ⟨Nat.succ_le_succ hlength, List.forall_mem_cons.mpr ⟨hc, hall⟩⟩
      · exact ⟨Nat.zero_le _, nofun⟩
    · rintro ⟨hlength, hall⟩
      cases run with
      | nil => exact Or.inr rfl
      | cons c more =>
        obtain ⟨hc, hall⟩ := List.forall_mem_cons.mp hall
        exact Or.inl ⟨c, more, rfl, hc, ih.mpr ⟨Nat.le_of_succ_le_succ hlength, hall⟩⟩

/-- Repeated characters of a class are read if they are neither too few nor too many. -/
theorem reads_times_one {cls : CharacterClass} {least most : Nat} (h : least ≤ most) :
    (Expression.times least most (.one cls)).Reads before run rest ↔
      (least ≤ run.length ∧ run.length ≤ most) ∧ ∀ c ∈ run, cls.accepts c = true := by
  obtain ⟨allowed, rfl⟩ := Nat.exists_eq_add_of_le h
  rw [Reads, show (Expression.times least (least + allowed) (.one cls)).ends =
    repeatedly (Expression.one cls).ends least allowed by
      funext p; rw [ends, Nat.add_sub_cancel_left]]
  clear h
  induction least generalizing before run with
  | zero => simp [repeatedly, passes_upTo_one]
  | succ least ih =>
    refine (passes_one_flatMap ((advances_ends (.one cls)).repeatedly least allowed)).trans ?_
    constructor
    · rintro ⟨c, more, rfl, hc, hmore⟩
      obtain ⟨hlength, hall⟩ := ih.mp hmore
      rw [List.length_cons]
      exact ⟨by omega, List.forall_mem_cons.mpr ⟨hc, hall⟩⟩
    · rintro ⟨hlength, hall⟩
      cases run with
      | nil => simp at hlength
      | cons c more =>
        obtain ⟨hc, hall⟩ := List.forall_mem_cons.mp hall
        rw [List.length_cons] at hlength
        exact ⟨c, more, rfl, hc, ih.mpr ⟨by omega, hall⟩⟩

theorem reads_spelled {word : List Char} : (spelled word).Reads before run rest ↔ run = word := by
  induction word generalizing before run with
  | nil => exact reads_empty
  | cons c word ih =>
    rw [spelled, reads_seq]
    constructor
    · rintro ⟨first, second, rfl, hfirst, hsecond⟩
      obtain ⟨d, rfl, hd⟩ := reads_one.mp hfirst
      obtain rfl : d = c := beq_iff_eq.mp hd
      rw [ih.mp hsecond]
      rfl
    · rintro rfl
      exact ⟨[c], word, rfl, reads_one.mpr ⟨c, rfl, beq_self_eq_true c⟩, ih.mpr rfl⟩

theorem reads_literal {lexeme : String} :
    (literal lexeme).Reads before run rest ↔ run = lexeme.toList :=
  reads_spelled

theorem reads_digits : digits.Reads before run rest ↔ isShortNumber run = true := by
  rw [digits, reads_times_one (by decide), isShortNumber]
  simp only [Bool.and_eq_true, decide_eq_true_eq, List.all_eq_true, CharacterClass.accepts,
    Nat.succ_le_iff]

end Expression

/-! ### Word boundaries -/

/-- A text that begins with a word character begins at a word boundary. -/
theorem TextPlace.isWordBoundary_start {run : List Char}
    (h : run.head?.any isWordCharacter = true) (rest : List Char) :
    isWordBoundary ⟨[], run ++ rest⟩ = true := by
  cases run with
  | nil => cases h
  | cons c more => simpa [isWordBoundary] using h

namespace Expression

variable {run rest : List Char}

/-- Between word boundaries an expression reads what it reads, if the run ends there. -/
theorem reads_bounded {e : Expression} {L : List Char → Prop}
    (he : ∀ {before run rest}, e.Reads before run rest ↔ L run)
    (hends : ∀ {run}, L run → IsWordAtEnds run) :
    (bounded e).Reads [] run rest ↔ L run ∧ wordRun rest = [] := by
  have hend : L run →
      (TextPlace.isWordBoundary ⟨run.reverse, rest⟩ = true ↔ wordRun rest = []) := by
    intro h
    obtain ⟨-, hlast⟩ := hends h
    rw [wordRun_eq_nil_iff, TextPlace.isWordBoundary, List.head?_reverse, hlast]
    simp
  rw [bounded, reads_seq]
  constructor
  · rintro ⟨first, second, rfl, hfirst, hsecond⟩
    obtain ⟨rfl, -⟩ := reads_wordBoundary.mp hfirst
    obtain ⟨word, after, rfl, hword, hafter⟩ := reads_seq.mp hsecond
    obtain ⟨rfl, hboundary⟩ := reads_wordBoundary.mp hafter
    have hL := he.mp hword
    simp only [List.nil_append, List.append_nil, List.reverse_nil] at hboundary hend ⊢
    exact ⟨hL, (hend hL).mp hboundary⟩
  · rintro ⟨hL, hrest⟩
    refine ⟨[], run, rfl, reads_wordBoundary.mpr ⟨rfl, ?_⟩, ?_⟩
    · exact TextPlace.isWordBoundary_start (hends hL).1 rest
    · refine reads_seq.mpr ⟨run, [], (List.append_nil run).symm, he.mpr hL, ?_⟩
      rw [List.reverse_nil, List.nil_append, List.append_nil]
      exact reads_wordBoundary.mpr ⟨rfl, (hend hL).mpr hrest⟩

end Expression

end PredictiveFrontend
