import PredictiveFrontend.Grammar.Compiled

/-!
# The bundled grammar

The grammar of the source language. Names with a capital first letter are nonterminals, except the
built-in types; `id`, `intConst`, `doubleConst` and `charConst` stand for names and literals; every
other terminal is written as in a source.
-/

namespace PredictiveFrontend

/-- The productions of the source language. -/
def bundledProductions : List String :=
  ["Program -> Declaration Program | EPSILON",
   "Declaration -> Visibility DeclarationBody",
   "Visibility -> public | private | EPSILON",
   "DeclarationBody -> ClassDecl | FunDecl | VarDecl",
   "ClassDecl -> class id \x7b ClassBody \x7d",
   "ClassBody -> Declaration ClassBody | EPSILON",
   "FunDecl -> fun id ( Params ) ReturnType Block",
   "Params -> Param MoreParams | EPSILON",
   "MoreParams -> , Param MoreParams | EPSILON",
   "Param -> id : Type",
   "ReturnType -> : Type | EPSILON",
   "Type -> Int | Char | Double | Array<Int> | Array<Char>",
   "VarDecl -> Mutability id : Type Initializer",
   "Mutability -> val | var",
   "Initializer -> = Expr | EPSILON",
   "Block -> \x7b Statements \x7d",
   "Statements -> Statement Statements | EPSILON",
   "Statement -> VarDecl | IfStmt | WhileStmt | ReturnStmt | Block | id IdTail",
   "IdTail -> = Expr | ( Args )",
   "IfStmt -> if ( Expr ) Block ElsePart",
   "ElsePart -> else Block | EPSILON",
   "WhileStmt -> while ( Expr ) Block",
   "ReturnStmt -> return Expr",
   "Args -> Expr MoreArgs | EPSILON",
   "MoreArgs -> , Expr MoreArgs | EPSILON",
   "Expr -> Arith Comparison",
   "Comparison -> RelOp Arith | EPSILON",
   "RelOp -> == | != | < | >",
   "Arith -> Term ArithTail",
   "ArithTail -> + Term ArithTail | - Term ArithTail | EPSILON",
   "Term -> Factor TermTail",
   "TermTail -> * Factor TermTail | / Factor TermTail | EPSILON",
   "Factor -> id CallSuffix | intConst | doubleConst | charConst | true | false | " ++
    "null | ( Expr ) | - Factor",
   "CallSuffix -> ( Args ) | EPSILON"]

/-- The grammar of the source language as a text. -/
def bundledGrammarText : String :=
  String.intercalate "\n" bundledProductions

/-- The grammar of the source language, compiled with the given options. -/
def bundledGrammar (options : CompileOptions) : Except GrammarError CompiledGrammar :=
  CompiledGrammar.ofText bundledGrammarText options

end PredictiveFrontend
