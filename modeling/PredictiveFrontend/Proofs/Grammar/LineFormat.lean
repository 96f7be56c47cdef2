import PredictiveFrontend.Proofs.Grammar.ProductionLine

/-!
# The format of production lines

A production line is a name, an arrow, and alternatives of one or more names with single pipes
between them. Its pieces are told by longest match: a name goes on as long as its characters do, and
a run that is spelled like the arrow is the arrow. Every line has its pieces, and they either make
up a production or have one of six faults. A line with several faults is refused for the first one
in the order in which pieces, arrow, left side and alternatives are looked at.
-/

namespace PredictiveFrontend

namespace LineToken

/-! ### Longest matches -/

/-- A character that may stand between the pieces of a line. -/
def isSpacing (c : Char) : Bool :=
  c ∈ [' ', '\t', '\r', '\x0c']

/-- How pieces are spelled. -/
inductive Spelled : LineToken → List Char → Prop where
  | arrow : Spelled .arrow ['-', '>']
  | pipe : Spelled .pipe ['|']
  | name {run : List Char} (hne : run ≠ []) (hrun : ∀ c ∈ run, isNameCharacter c = true) :
    Spelled (.name (String.ofList run)) run

/-- No other piece at the start of a text is longer than this one, and this one is the arrow if it
is spelled like the arrow. -/
structure LongestMatch (token : LineToken) (lexeme rest : List Char) : Prop where
  spelled : Spelled token lexeme
  length_le : ∀ other spelling, Spelled other spelling → spelling <+: lexeme ++ rest →
    spelling.length ≤ lexeme.length
  eq_arrow : lexeme = ['-', '>'] → token = .arrow

/-- How a line is cut into pieces: spacing is skipped, a line feed is no piece that a line may have,
and everywhere else stands a longest match. -/
inductive Cuts : List Char → List LineToken → Prop where
  | nil : Cuts [] []
  | skip {c : Char} {rest : List Char} {tokens : List LineToken} (hc : isSpacing c = true)
    (hrest : Cuts rest tokens) : Cuts (c :: rest) tokens
  | lineFeed {rest : List Char} {tokens : List LineToken} (hrest : Cuts rest tokens) :
    Cuts ('\n' :: rest) (.lineFeed :: tokens)
  | piece {token : LineToken} {lexeme rest : List Char} {tokens : List LineToken}
    (htoken : LongestMatch token lexeme rest) (hrest : Cuts rest tokens) :
    Cuts (lexeme ++ rest) (token :: tokens)

/-- A prefix with characters of one class ends where the class does. -/
theorem length_le_of_forall {p : Char → Bool} {run rest spelling : List Char}
    (hspelling : ∀ c ∈ spelling, p c = true) (hstart : spelling <+: run ++ rest)
    (hrest : rest.head?.any p = false) : spelling.length ≤ run.length := by
  induction run generalizing spelling with
  | nil =>
    cases spelling with
    | nil => exact Nat.le_refl _
    | cons c spelling =>
      obtain ⟨others, rfl⟩ := hstart
      rw [List.cons_append, List.head?_cons, Option.any_some,
        hspelling c (List.mem_cons_self ..)] at hrest
      cases hrest
  | cons d run ih =>
    cases spelling with
    | nil => exact Nat.zero_le _
    | cons c spelling =>
      rw [List.forall_mem_cons] at hspelling
      exact Nat.succ_le_succ (ih hspelling.2 (List.cons_prefix_cons.mp hstart).2)

/-- The arrow is spelled with name characters. -/
theorem forall_isNameCharacter_arrow : ∀ c ∈ ['-', '>'], isNameCharacter c = true :=
  List.all_eq_true.mp (by decide)

/-- A maximal run of name characters is a longest match: the arrow, or a name. -/
theorem longestMatch_ofRun {run rest : List Char} (hne : run ≠ [])
    (hrun : ∀ c ∈ run, isNameCharacter c = true)
    (hrest : rest.head?.any isNameCharacter = false) : LongestMatch (ofRun run) run rest := by
  constructor
  case spelled =>
    rw [ofRun]
    split
    · next harrow =>
      rw [harrow]
      exact .arrow
    · exact .name hne hrun
  case length_le =>
    intro other spelling hspelled hstart
    cases hspelled with
    | arrow => exact length_le_of_forall forall_isNameCharacter_arrow hstart hrest
    | pipe => exact List.length_pos_iff.mpr hne
    | name _ hspelling => exact length_le_of_forall hspelling hstart hrest
  case eq_arrow =>
    intro harrow
    rw [ofRun, if_pos harrow]

theorem longestMatch_pipe (rest : List Char) : LongestMatch .pipe ['|'] rest := by
  refine ⟨.pipe, fun other spelling hspelled hstart => ?_, fun he => absurd he (by decide)⟩
  cases hspelled with
  | arrow => exact absurd (List.cons_prefix_cons.mp hstart).1 (by decide)
  | pipe => exact Nat.le_refl _
  | name hne hspelling =>
    obtain ⟨c, spelling, rfl⟩ := List.exists_cons_of_ne_nil hne
    obtain ⟨rfl, -⟩ := List.cons_prefix_cons.mp hstart
    exact absurd (hspelling _ (List.mem_cons_self ..)) (by decide)

/-- Behind a longest match of name characters stands none, since the run would go on with it. -/
theorem LongestMatch.head?_rest {token : LineToken} {run rest : List Char}
    (h : LongestMatch token run rest) (hrun : ∀ c ∈ run, isNameCharacter c = true) :
    rest.head?.any isNameCharacter = false := by
  cases rest with
  | nil => rfl
  | cons c rest =>
    rw [List.head?_cons, Option.any_some, Bool.eq_false_iff]
    intro hc
    have hlonger : Spelled (.name (String.ofList (run ++ [c]))) (run ++ [c]) := by
      refine .name (by simp) fun d hd => ?_
      rcases List.mem_append.mp hd with hd | hd
      · exact hrun d hd
      · rwa [List.mem_singleton.mp hd]
    have hle := h.length_le _ _ hlonger ⟨rest, by rw [List.append_assoc, List.singleton_append]⟩
    rw [List.length_append, List.length_singleton] at hle
    omega

/-- A longest match is the first piece of a line. -/
theorem LongestMatch.ofLine_append {token : LineToken} {lexeme rest : List Char}
    (h : LongestMatch token lexeme rest) : ofLine (lexeme ++ rest) = token :: ofLine rest := by
  cases h.spelled with
  | arrow =>
    exact ofLine_append_run (by decide) forall_isNameCharacter_arrow
      (h.head?_rest forall_isNameCharacter_arrow)
  | pipe => rw [List.singleton_append, ofLine, if_neg (by decide), if_pos rfl]
  | name hne hrun =>
    rw [ofLine_append_run hne hrun (h.head?_rest hrun), ofRun, if_neg]
    intro harrow
    cases h.eq_arrow harrow

/-- Spacing is skipped. -/
theorem ofLine_spacing {c : Char} (hc : isSpacing c = true) (rest : List Char) :
    ofLine (c :: rest) = ofLine rest := by
  have hclass : isNameCharacter c = false ∧ c ≠ '|' ∧ c ≠ '\n' := by
    simp only [isSpacing, List.mem_cons, List.not_mem_nil, or_false, decide_eq_true_eq] at hc
    rcases hc with rfl | rfl | rfl | rfl <;> decide
  rw [ofLine, if_neg (by rw [hclass.1]; exact Bool.false_ne_true), if_neg hclass.2.1,
    if_neg hclass.2.2]

/-- What is left behind a maximal run does not go on with it. -/
theorem any_head?_dropWhile (p : Char → Bool) (text : List Char) :
    (text.dropWhile p).head?.any p = false := by
  induction text with
  | nil => rfl
  | cons c rest ih =>
    cases hc : p c with
    | true => rwa [List.dropWhile_cons_of_pos hc]
    | false => simp [List.dropWhile_cons_of_neg, hc]

/-- Every line is cut into pieces, and in one way only. -/
theorem cuts_iff {text : List Char} {tokens : List LineToken} :
    Cuts text tokens ↔ tokens = ofLine text := by
  constructor
  · intro h
    induction h with
    | nil => rw [ofLine]
    | skip hc _ ih => rw [ofLine_spacing hc, ih]
    | lineFeed _ ih => rw [ofLine, if_neg (by decide), if_neg (by decide), if_pos rfl, ih]
    | piece htoken _ ih => rw [htoken.ofLine_append, ih]
  · rintro rfl
    fun_induction ofLine text with
    | case1 => exact .nil
    | case2 c rest hc ih =>
      have hrun : ∀ d ∈ c :: rest.takeWhile isNameCharacter, isNameCharacter d = true :=
        List.forall_mem_cons.mpr ⟨hc, fun d hd => List.mem_takeWhile_imp hd⟩
      have hcuts := Cuts.piece
        (longestMatch_ofRun (List.cons_ne_nil _ _) hrun (any_head?_dropWhile _ rest)) ih
      rwa [List.cons_append, List.takeWhile_append_dropWhile] at hcuts
    | case3 rest _ ih => exact .piece (longestMatch_pipe rest) ih
    | case4 rest _ _ ih => exact .lineFeed ih
    | case5 c rest hname hpipe hfeed ih =>
      refine .skip ?_ ih
      simp only [isNameCharacter, decide_eq_true_eq, Decidable.not_not, List.mem_cons,
        List.not_mem_nil, or_false] at hname
      simp only [isSpacing, List.mem_cons, List.not_mem_nil, or_false, decide_eq_true_eq]
      tauto

end LineToken

/-! ### Faults -/

namespace Production

/-- What is wrong with the pieces of a line. A line feed is looked for first, then a missing or a
second arrow, then what is wrong in front of the arrow, and at last an empty alternative. -/
inductive Fault (line : Nat) (tokens : List LineToken) : GrammarError → Prop where
  | unrecognized (hfeed : .lineFeed ∈ tokens) : Fault line tokens (.unrecognized line "\n")
  | missingArrow (hfeed : .lineFeed ∉ tokens) (harrow : .arrow ∉ tokens) :
    Fault line tokens (.missingArrow line)
  | unexpectedArrow (hfeed : .lineFeed ∉ tokens) (harrow : 2 ≤ tokens.count .arrow) :
    Fault line tokens (.unexpectedArrow line)
  | missingLeftSide {rest : List LineToken} (hfeed : .lineFeed ∉ tokens)
    (htokens : tokens = .arrow :: rest) (harrow : .arrow ∉ rest) :
    Fault line tokens (.missingLeftSide line)
  | multipleLeftSides {before rest : List LineToken} (hfeed : .lineFeed ∉ tokens)
    (htokens : tokens = before ++ .arrow :: rest) (harrow : .arrow ∉ before ++ rest)
    (hne : before ≠ []) (hname : ∀ name, before ≠ [.name name]) :
    Fault line tokens (.multipleLeftSides line (before.map LineToken.text))
  | emptyAlternative {lhs : String} {alternatives : List (List String)} (hne : alternatives ≠ [])
    (hempty : [] ∈ alternatives) (htokens : tokens = .name lhs :: .arrow :: piecesOf alternatives) :
    Fault line tokens (.emptyAlternative line)

variable {line : Nat} {tokens : List LineToken} {e : GrammarError}

theorem leftSideOf_eq_error : leftSideOf line tokens = .error e ↔
    (tokens = [] ∧ e = .missingLeftSide line) ∨ (tokens ≠ [] ∧ (∀ name, tokens ≠ [.name name]) ∧
      e = .multipleLeftSides line (tokens.map LineToken.text)) := by
  unfold leftSideOf
  split
  · simp [eq_comm]
  · simp
  · next hnil hname =>
    constructor
    · intro h
      exact .inr ⟨hnil, hname, (Except.error.inj h).symm⟩
    · rintro (⟨h, -⟩ | ⟨-, -, rfl⟩)
      · exact absurd h hnil
      · rfl

theorem alternativesOf_eq_error : alternativesOf line tokens = .error e ↔
    [] ∈ splitAtPipes tokens ∧ e = .emptyAlternative line := by
  have hany : (splitAtPipes tokens).any List.isEmpty = true ↔ [] ∈ splitAtPipes tokens := by
    simp [List.any_eq_true]
  simp only [alternativesOf, hany]
  split
  · next hnil => simp [hnil, eq_comm]
  · next hnil => simp [hnil]

/-- Around a single arrow the left side is looked at first, then the alternatives. -/
theorem ofTokens_split (before rest : List LineToken) (hfeed : .lineFeed ∉ before ++ .arrow :: rest)
    (hbefore : .arrow ∉ before) (hrest : .arrow ∉ rest) :
    ofTokens line (before ++ .arrow :: rest) = (do
      let lhs ← leftSideOf line before
      let alternatives ← alternativesOf line rest
      return ⟨line, lhs, alternatives⟩) := by
  obtain ⟨htake, hdrop⟩ := split_at_arrow hbefore rest
  have hcount : (before ++ .arrow :: rest).count .arrow = 1 := by
    rw [List.count_append, List.count_cons_self, List.count_eq_zero.mpr hbefore,
      List.count_eq_zero.mpr hrest]
  simp only [ofTokens, if_neg hfeed, hcount, htake, hdrop, List.tail_cons]
  rfl

/-- Pieces that are refused have the fault that they are refused for. -/
theorem ofTokens_eq_error : ofTokens line tokens = .error e ↔ Fault line tokens e := by
  constructor
  · intro h
    have hguards := h
    simp only [ofTokens, guard_eq_error] at hguards
    rcases hguards with ⟨hfeed, rfl⟩ |
      ⟨hfeed, ⟨hmissing, rfl⟩ | ⟨hmissing, ⟨hmany, rfl⟩ | ⟨hmany, -⟩⟩⟩
    · exact .unrecognized hfeed
    · exact .missingArrow hfeed (List.count_eq_zero.mp hmissing)
    · exact .unexpectedArrow hfeed hmany
    · obtain ⟨before, rest, rfl, hbefore, hrest⟩ := exists_split_at_arrow hmissing hmany
      simp only [ofTokens_split _ _ hfeed hbefore hrest, bind_eq_error, leftSideOf_eq_error,
        leftSideOf_eq_ok, alternativesOf_eq_error] at h
      rcases h with (⟨rfl, rfl⟩ | ⟨hne, hname, rfl⟩) | ⟨lhs, rfl, ⟨hempty, rfl⟩ | ⟨_, _, hpure⟩⟩
      · exact .missingLeftSide hfeed rfl hrest
      · exact .multipleLeftSides hfeed rfl (by simp [hbefore, hrest]) hne hname
      · refine @Fault.emptyAlternative _ _ lhs _ (splitAtPipes_ne_nil rest) hempty ?_
        rw [piecesOf_splitAtPipes hrest fun h => hfeed (by simp [h]), List.singleton_append]
      · cases hpure
  · intro h
    cases h with
    | unrecognized hfeed => exact if_pos hfeed
    | missingArrow hfeed harrow =>
      simp only [ofTokens, guard_eq_error]
      exact .inr ⟨hfeed, .inl ⟨List.count_eq_zero.mpr harrow, trivial⟩⟩
    | unexpectedArrow hfeed harrow =>
      simp only [ofTokens, guard_eq_error]
      exact .inr ⟨hfeed, .inr ⟨by omega, .inl ⟨harrow, trivial⟩⟩⟩
    | @missingLeftSide rest hfeed htokens harrow =>
      subst htokens
      exact ofTokens_split [] rest hfeed List.not_mem_nil harrow
    | multipleLeftSides hfeed htokens harrow hne hname =>
      subst htokens
      rw [List.mem_append, not_or] at harrow
      rw [ofTokens_split _ _ hfeed harrow.1 harrow.2, bind_eq_error]
      exact .inl (leftSideOf_eq_error.mpr (.inr ⟨hne, hname, rfl⟩))
    | @emptyAlternative lhs alternatives hne hempty htokens =>
      subst htokens
      have hpieces : .lineFeed ∉ piecesOf alternatives ∧ .arrow ∉ piecesOf alternatives :=
        ⟨fun h => (ne_of_mem_piecesOf h).2 rfl, fun h => (ne_of_mem_piecesOf h).1 rfl⟩
      have hsplit : ofTokens line (.name lhs :: .arrow :: piecesOf alternatives) = _ :=
        ofTokens_split [.name lhs] _ (by simpa using hpieces.1) (by simp) hpieces.2
      simp only [hsplit, bind_eq_error]
      refine .inr ⟨lhs, rfl, .inl (alternativesOf_eq_error.mpr ⟨?_, rfl⟩)⟩
      rwa [splitAtPipes_piecesOf hne]

/-- The pieces of a line are determined by longest match. The line is a production exactly if they
are a name, an arrow, and the names of one or more alternatives with single pipes between these, no
alternative being empty; otherwise it is refused for the first fault of its pieces. -/
theorem line_exact (line : Nat) (text : List Char) :
    ∃ tokens, (∀ tokens', LineToken.Cuts text tokens' ↔ tokens' = tokens) ∧
      (∀ p, ofLine line text = .ok p ↔ p.line = line ∧ p.alternatives ≠ [] ∧
        [] ∉ p.alternatives ∧ tokens = .name p.lhs :: .arrow :: piecesOf p.alternatives) ∧
      ∀ e, ofLine line text = .error e ↔ Fault line tokens e :=
  ⟨LineToken.ofLine text, fun _ => LineToken.cuts_iff, fun _ => ofTokens_eq_ok,
    fun _ => ofTokens_eq_error⟩

/-- An arrow that goes on is a name, and only the arrow that stands alone is looked for. -/
example : ofLine 1 "A -> ->x|-> b".toList = .error (.unexpectedArrow 1) ∧
    ofLine 1 "A | ->b".toList = .error (.missingArrow 1) ∧
    ofLine 1 "A | -> b".toList = .error (.multipleLeftSides 1 ["A", "|"]) := by
  decide +kernel

end Production

end PredictiveFrontend
