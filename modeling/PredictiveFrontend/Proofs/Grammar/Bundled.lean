import PredictiveFrontend.Grammar.Bundled
import PredictiveFrontend.Proofs.Grammar.Conflict
import PredictiveFrontend.Proofs.Text.Lines
import Mathlib.Data.List.Pairwise

/-!
# The bundled grammar

The text of the bundled grammar is read once and for all: its lines are the productions below, and
the rules of the compiled grammar are their alternatives. No terminal predicts two rules of one
nonterminal, so the grammar compiles.
-/

namespace PredictiveFrontend

/-- The productions of the source language as they are read. -/
def bundledSyntax : List Production :=
  [⟨1, "Program", [["Declaration", "Program"], ["EPSILON"]]⟩,
   ⟨2, "Declaration", [["Visibility", "DeclarationBody"]]⟩,
   ⟨3, "Visibility", [["public"], ["private"], ["EPSILON"]]⟩,
   ⟨4, "DeclarationBody", [["ClassDecl"], ["FunDecl"], ["VarDecl"]]⟩,
   ⟨5, "ClassDecl", [["class", "id", "\x7b", "ClassBody", "\x7d"]]⟩,
   ⟨6, "ClassBody", [["Declaration", "ClassBody"], ["EPSILON"]]⟩,
   ⟨7, "FunDecl", [["fun", "id", "(", "Params", ")", "ReturnType", "Block"]]⟩,
   ⟨8, "Params", [["Param", "MoreParams"], ["EPSILON"]]⟩,
   ⟨9, "MoreParams", [[",", "Param", "MoreParams"], ["EPSILON"]]⟩,
   ⟨10, "Param", [["id", ":", "Type"]]⟩,
   ⟨11, "ReturnType", [[":", "Type"], ["EPSILON"]]⟩,
   ⟨12, "Type", [["Int"], ["Char"], ["Double"], ["Array<Int>"], ["Array<Char>"]]⟩,
   ⟨13, "VarDecl", [["Mutability", "id", ":", "Type", "Initializer"]]⟩,
   ⟨14, "Mutability", [["val"], ["var"]]⟩,
   ⟨15, "Initializer", [["=", "Expr"], ["EPSILON"]]⟩,
   ⟨16, "Block", [["\x7b", "Statements", "\x7d"]]⟩,
   ⟨17, "Statements", [["Statement", "Statements"], ["EPSILON"]]⟩,
   ⟨18, "Statement",
    [["VarDecl"], ["IfStmt"], ["WhileStmt"], ["ReturnStmt"], ["Block"], ["id", "IdTail"]]⟩,
   ⟨19, "IdTail", [["=", "Expr"], ["(", "Args", ")"]]⟩,
   ⟨20, "IfStmt", [["if", "(", "Expr", ")", "Block", "ElsePart"]]⟩,
   ⟨21, "ElsePart", [["else", "Block"], ["EPSILON"]]⟩,
   ⟨22, "WhileStmt", [["while", "(", "Expr", ")", "Block"]]⟩,
   ⟨23, "ReturnStmt", [["return", "Expr"]]⟩,
   ⟨24, "Args", [["Expr", "MoreArgs"], ["EPSILON"]]⟩,
   ⟨25, "MoreArgs", [[",", "Expr", "MoreArgs"], ["EPSILON"]]⟩,
   ⟨26, "Expr", [["Arith", "Comparison"]]⟩,
   ⟨27, "Comparison", [["RelOp", "Arith"], ["EPSILON"]]⟩,
   ⟨28, "RelOp", [["=="], ["!="], ["<"], [">"]]⟩,
   ⟨29, "Arith", [["Term", "ArithTail"]]⟩,
   ⟨30, "ArithTail", [["+", "Term", "ArithTail"], ["-", "Term", "ArithTail"], ["EPSILON"]]⟩,
   ⟨31, "Term", [["Factor", "TermTail"]]⟩,
   ⟨32, "TermTail", [["*", "Factor", "TermTail"], ["/", "Factor", "TermTail"], ["EPSILON"]]⟩,
   ⟨33, "Factor",
    [["id", "CallSuffix"], ["intConst"], ["doubleConst"], ["charConst"], ["true"], ["false"],
     ["null"], ["(", "Expr", ")"], ["-", "Factor"]]⟩,
   ⟨34, "CallSuffix", [["(", "Args", ")"], ["EPSILON"]]⟩]

namespace Grammar

/-- The symbols of a rule have the names of an alternative. -/
theorem exists_names_of_mem_rulesOf {ps : List Production} {r : Rule}
    (hr : r ∈ rulesOf (alphabetOf ps) ps) :
    ∃ p ∈ ps, ∃ names ∈ p.alternatives, (alphabetOf ps).name r.lhs = p.lhs ∧
      r.expansion.map (alphabetOf ps).name = names.filter (· != SymbolName.epsilon) := by
  obtain ⟨p, hp, names, hnames, hl, hrhs⟩ := exists_of_mem_rulesOf hr
  have hmem : ∀ name ∈ names, name ∈ (alphabetOf ps).names := fun name hn =>
    mem_alphabetOf.mpr (Or.inr ⟨p, hp, Or.inr (List.mem_flatten.mpr ⟨names, hnames, hn⟩)⟩)
  have hepsilon := (Alphabet.name_of_base_prefix (base_prefix_alphabetOf ps)).1
  refine ⟨p, hp, names, hnames, ?_, ?_⟩
  · rw [hl, Alphabet.name_code (mem_alphabetOf_of_lhs hp)]
  · rw [Rule.expansion, hrhs, List.filter_map, List.map_map]
    have hfilter : names.filter ((· != Code.epsilon) ∘ (alphabetOf ps).code) =
        names.filter (· != SymbolName.epsilon) := by
      refine List.filter_congr fun name hn => ?_
      rw [Function.comp_apply, Bool.eq_iff_iff, bne_iff_ne, bne_iff_ne, not_iff_not]
      constructor
      · intro he
        rw [← Alphabet.name_code (hmem name hn), he, hepsilon]
      · rintro rfl
        rw [← hepsilon]
        exact Alphabet.code_name (nodup_alphabetOf ps)
          (List.IsPrefix.length_le (base_prefix_alphabetOf ps) |> Nat.lt_of_lt_of_le (by decide))
    rw [hfilter]
    refine (List.map_congr_left fun name hn => ?_).trans (List.map_id _)
    exact Alphabet.name_code (hmem name (List.mem_of_mem_filter hn))

/-- A grammar of productions has their names, their alternatives as rules, and the left side of the
first one as its start. -/
theorem eq_of_ofProductions {ps : List Production} {g : Grammar} (h : ofProductions ps = .ok g) :
    g.alphabet = alphabetOf ps ∧ g.rules = rulesOf (alphabetOf ps) ps ∧
      (ps.head?.map Production.lhs) = some (g.alphabet.name g.start) := by
  obtain ⟨first, others, rfl, -, rfl⟩ := ofProductions_eq_ok.mp h
  refine ⟨rfl, rfl, ?_⟩
  rw [Alphabet.name_code (mem_alphabetOf_of_lhs (List.mem_cons_self ..))]
  rfl

/-- Two rules are for different nonterminals, or no terminal predicts both. -/
def Apart (g : Grammar) (strategy : FollowStrategy) (r r' : Rule) : Prop :=
  r.lhs = r'.lhs → (r.predict g.first (g.follow strategy g.first)).bits &&&
    (r'.predict g.first (g.follow strategy g.first)).bits = 0

instance (g : Grammar) (strategy : FollowStrategy) : Std.Symm (g.Apart strategy) where
  symm _ _ h he := (BitVec.and_comm _ _).trans (h he.symm)

/-- A grammar whose rules are apart is LL(1). -/
theorem ll1_of_pairwise {g : Grammar} {strategy : FollowStrategy}
    (h : g.rules.Pairwise (g.Apart strategy)) : g.LL1 strategy := by
  intro r hr r' hr' hne hl t ht ht'
  have hbits := congrArg (BitVec.getLsbD · t) (h.forall hr hr' hne hl)
  simp only [BitVec.getLsbD_and, CodeSet.mem_def.mp ht, CodeSet.mem_def.mp ht'] at hbits
  simp at hbits

end Grammar

/-- The lines of the text are the productions. -/
theorem readProductions_bundledGrammarText :
    Grammar.readProductions (Grammar.numberedLines bundledGrammarText) = .ok bundledSyntax := by
  have hread : (∀ l ∈ bundledProductions.map String.toList, '\n' ∉ l) ∧
      (∀ l ∈ (bundledProductions.map String.toList).getLast?, l ≠ []) ∧
      Grammar.readProductions ((bundledProductions.map String.toList).zipIdx.map
        fun entry => (entry.2 + 1, entry.1)) = .ok bundledSyntax := by
    simp only [bundledProductions, List.map_cons, List.map_nil, String.toList_append]
    repeat rw [String.toList_ofList]
    decide +kernel
  have hlines : Text.lines bundledGrammarText.toList = bundledProductions.map String.toList := by
    rw [bundledGrammarText, String.toList_intercalate]
    exact Text.lines_intercalate hread.2.1 hread.1
  rw [Grammar.numberedLines, hlines]
  exact hread.2.2

/-- Reading the text comes down to its productions. -/
theorem ofText_bundledGrammarText :
    Grammar.ofText bundledGrammarText = Grammar.ofProductions bundledSyntax := by
  rw [Grammar.ofText, readProductions_bundledGrammarText]
  simp only [bind, Except.bind]

/-- The bundled grammar can be read, and it is LL(1). -/
theorem exists_ofProductions_bundledSyntax :
    ∃ grammar, Grammar.ofProductions bundledSyntax = .ok grammar ∧ grammar.LL1 .fixedPoint := by
  have hrun : (Grammar.ofProductions bundledSyntax).map (fun grammar =>
      decide ((grammar.rules.map fun r =>
        (r.lhs, (r.predict grammar.first (grammar.follow .fixedPoint grammar.first)).bits)).Pairwise
          fun e f => e.1 = f.1 → e.2 &&& f.2 = 0)) = .ok true := by
    decide +kernel
  obtain ⟨grammar, hgrammar, hapart⟩ := map_eq_ok.mp hrun
  have hpairs := of_decide_eq_true hapart
  rw [List.pairwise_map] at hpairs
  exact ⟨grammar, hgrammar, Grammar.ll1_of_pairwise hpairs⟩

/-- The bundled grammar compiles. -/
theorem exists_bundledGrammar : ∃ g, bundledGrammar {} = .ok g := by
  obtain ⟨grammar, hgrammar, hll1⟩ := exists_ofProductions_bundledSyntax
  rw [← ofText_bundledGrammarText] at hgrammar
  obtain ⟨g, hg, rfl⟩ := CompiledGrammar.exists_ofText_lastWriteWins hgrammar .fixedPoint
  have hlog := (CompiledGrammar.compiledBy_of_ofText hg).overwrites_eq_nil.mpr hll1
  refine ⟨g, ?_⟩
  rw [bundledGrammar, CompiledGrammar.ofText_reject hg, hlog]

/-- The compiled grammar is the grammar of the productions. -/
theorem ofProductions_of_bundledGrammar {g : CompiledGrammar} {options : CompileOptions}
    (h : bundledGrammar options = .ok g) :
    Grammar.ofProductions bundledSyntax = .ok g.toGrammar := by
  simp only [bundledGrammar, CompiledGrammar.ofText, ofText_bundledGrammarText, bind_eq_ok,
    CompiledGrammar.ofGrammar, map_eq_ok] at h
  obtain ⟨grammar, hgrammar, table, -, rfl⟩ := h
  exact hgrammar

/-- The compiled grammar has the symbols and the rules of the productions. -/
theorem eq_of_bundledGrammar {g : CompiledGrammar} {options : CompileOptions}
    (h : bundledGrammar options = .ok g) :
    g.alphabet = Grammar.alphabetOf bundledSyntax ∧
      g.rules = Grammar.rulesOf (Grammar.alphabetOf bundledSyntax) bundledSyntax ∧
      g.name g.start = "Program" := by
  obtain ⟨halphabet, hrules, hstart⟩ :=
    Grammar.eq_of_ofProductions (ofProductions_of_bundledGrammar h)
  exact ⟨halphabet, hrules, (Option.some.inj hstart).symm⟩

end PredictiveFrontend
