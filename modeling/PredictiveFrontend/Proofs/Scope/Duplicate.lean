import PredictiveFrontend.Proofs.Scope.Closing
import PredictiveFrontend.Token.Scan
import Mathlib.Data.List.Basic

/-!
# What becomes of a declaration

A name that is declared in a scope stays declared there, with the same kind at the same place, and a
second declaration of it is refused. Only its type can change, and only at one kind of place: a type
behind the header of a function is given to the name of the function in the scope of the header,
whether the function was declared there or was refused because the name was taken.
-/

namespace PredictiveFrontend

namespace Scope

/-- A change of the first declaration of a name that keeps the name is seen under this name only. -/
private theorem find?_modify_findIdx? {f : Declaration → Declaration}
    (hf : ∀ d, (f d).name = d.name) (declarations : List Declaration) (name other : String) :
    (match declarations.findIdx? (fun d : Declaration => d.name == name) with
      | some i => declarations.modify i f
      | none => declarations).find? (fun d : Declaration => d.name == other) =
      if name = other then (declarations.find? (fun d : Declaration => d.name == other)).map f
      else declarations.find? (fun d : Declaration => d.name == other) := by
  induction declarations with
  | nil => simp
  | cons d rest ih =>
    rw [List.findIdx?_cons]
    by_cases he : d.name = name
    · subst he
      by_cases ho : d.name = other
      · simp [hf, ho]
      · simp [hf, ho]
    · rw [beq_false_of_ne he]
      by_cases ho : d.name = other
      · have hname : name ≠ other := fun hn => he (ho.trans hn.symm)
        rw [if_neg hname]
        cases rest.findIdx? (fun d : Declaration => d.name == name) <;> simp [ho]
      · rw [List.find?_cons_of_neg (by simpa using ho), ← ih]
        cases rest.findIdx? (fun d : Declaration => d.name == name) <;> simp [ho]

/-- A type given to a name is seen under this name only. -/
theorem find?_setType (s : Scope) (name typeName other : String) :
    (s.setType name typeName).find? other =
      if name = other then (s.find? other).map fun d => { d with typeName := some typeName }
      else s.find? other := by
  have hchange := find?_modify_findIdx? (f := fun d => { d with typeName := some typeName })
    (fun _ => rfl) s.declarations name other
  rw [find?, find?, ← hchange, setType]
  cases s.declarations.findIdx? (·.name == name) with
  | none => rfl
  | some i => rfl

/-- One more declaration hides none of the others. -/
theorem find?_declare {s : Scope} {name : String} {d : Declaration} (h : s.find? name = some d)
    (new : Declaration) : (s.declare new).find? name = some d := by
  rw [find?, declare, List.find?_append, ← find?, h]
  rfl

end Scope

/-! ### Operations on scopes -/

/-- A declaration is found under a name in the scope of a number. -/
def ScopeTree.Stores (t : ScopeTree) (number : Nat) (name : String) (d : Declaration) : Prop :=
  (t.scope number).find? name = some d

namespace ScopeTree.Stores

variable {t : ScopeTree} {number : Nat} {name : String} {d : Declaration}

/-- What is stored is stored in a scope that was opened. -/
theorem lt_size (h : t.Stores number name d) : number < t.size := by
  refine Nat.lt_of_not_le fun hge => ?_
  have hnone : t.scope number = .outermost := by
    rw [scope, List.getElem?_eq_none hge]
    rfl
  rw [Stores, hnone] at h
  cases h

theorem openScope (h : t.Stores number name d) (scopeName : String) (kind : ScopeKind) :
    (t.openScope scopeName kind).Stores number name d := by
  rw [Stores, scope_openScope, if_neg (Nat.ne_of_lt h.lt_size)]
  exact h

theorem closeScope (h : t.Stores number name d) {t' : ScopeTree} (hc : t.closeScope = .ok t') :
    t'.Stores number name d := by
  rw [ScopeTree.closeScope] at hc
  split at hc <;> cases hc
  exact h

theorem declare (h : t.Stores number name d) {new : Declaration} {t' : ScopeTree}
    (hd : t.declare new = .ok t') : t'.Stores number name d := by
  rw [ScopeTree.eq_of_declare_eq_ok hd, Stores, scope_modify]
  split
  · exact Scope.find?_declare h new
  · exact h

/-- A type reaches what is stored exactly if it is given to this name in this scope. -/
theorem setType (h : t.Stores number name d) (number' : Nat) (name' typeName : String) :
    (t.setType number' name' typeName).Stores number name
      (if number' = number ∧ name' = name then { d with typeName := some typeName } else d) := by
  rw [Stores, ScopeTree.setType, scope_modify]
  by_cases hnumber : number' = number
  · subst hnumber
    rw [if_pos ⟨rfl, h.lt_size⟩, Scope.find?_setType, h]
    by_cases hname : name' = name
    · simp [hname]
    · simp [hname]
  · rw [if_neg fun hboth => hnumber hboth.1.symm, if_neg fun hboth => hnumber hboth.1]
    exact h

end ScopeTree.Stores

theorem ScopeTree.Kept.stores (number : Nat) (name : String) (d : Declaration) :
    Kept fun t => t.Stores number name d where
  declare := fun h hd => h.declare hd
  openScope := fun scopeName kind h => h.openScope scopeName kind
  closeScope := fun h hc => h.closeScope hc

namespace SymbolReader

variable {r : SymbolReader} {t : Token}

/-! ### What is kept -/

/-- The last type that tokens give to a name declared in the scope of a number. -/
def lastType? (r : SymbolReader) (number : Nat) (name : String) : List Token → Option String
  | [] => none
  | t :: rest => ((r.step t).lastType? number name rest).or (r.typeAt? t number name)

section

variable {number : Nat} {name : String} {d : Declaration}

theorem Acts.stores {r' : SymbolReader} (ha : Acts r t r') (h : r.scopes.Stores number name d) :
    r'.scopes.Stores number name d :=
  ha.keeps (.stores number name d) h

/-- A declaration is kept at every token but for a type that the token gives to it. -/
theorem stores_step (h : r.scopes.Stores number name d) (t : Token) :
    (r.step t).scopes.Stores number name
      { d with typeName := (r.typeAt? t number name).or d.typeName } := by
  rcases step_cases r t with ⟨hstep, -, hnone⟩ | ⟨⟨number', name'⟩, htype, hheader, hstep⟩ |
    ⟨hacts, hnone⟩
  · rwa [hstep, hnone]
  · have hstored := h.setType number' name' t.lexeme
    rw [hstep, typeAt?, hheader]
    by_cases hsame : number' = number ∧ name' = name
    · rw [if_pos hsame] at hstored
      rw [if_pos ⟨htype, by rw [hsame.1, hsame.2]⟩]
      exact hstored
    · rw [if_neg hsame] at hstored
      rw [if_neg fun hboth => hsame (by simpa using hboth.2)]
      exact hstored
  · rw [hnone]
    exact hacts.stores h

/-- A declaration is kept by all tokens but for the last type that they give to it. -/
theorem stores_foldl_step (h : r.scopes.Stores number name d) (tokens : List Token) :
    (tokens.foldl step r).scopes.Stores number name
      { d with typeName := (r.lastType? number name tokens).or d.typeName } := by
  induction tokens generalizing r d with
  | nil => exact h
  | cons t rest ih =>
    have hrest := ih (stores_step h t)
    rw [lastType?, Option.or_assoc]
    exact hrest

end

/-! ### What is noted -/

/-- The diagnostics that a token leads to. -/
def noted (r : SymbolReader) (t : Token) : List Diagnostic :=
  (r.step t).diagnostics.drop r.diagnostics.length

/-- A second declaration is noted for a name that the current scope declares, with the line of the
declaration that is there. -/
def Repeats (r : SymbolReader) (e : DuplicateDeclaration) : Prop :=
  ∃ d, r.scopes.Stores r.scopes.cursor e.name d ∧ d.line = e.previousLine

/-- Diagnostics are noted behind those that are there; those for second declarations are as a
property says. -/
def Notes (P : DuplicateDeclaration → Prop) (before after : List Diagnostic) : Prop :=
  ∃ more, after = before ++ more ∧ ∀ e, Diagnostic.duplicate e ∈ more → P e

section

variable {P : DuplicateDeclaration → Prop} {before middle after : List Diagnostic}

theorem Notes.refl (P : DuplicateDeclaration → Prop) (before : List Diagnostic) :
    Notes P before before :=
  ⟨[], (List.append_nil before).symm, fun _ he => absurd he List.not_mem_nil⟩

theorem Notes.trans (h : Notes P before middle) (h' : Notes P middle after) :
    Notes P before after := by
  obtain ⟨first, rfl, hfirst⟩ := h
  obtain ⟨second, rfl, hsecond⟩ := h'
  refine ⟨first ++ second, List.append_assoc .., fun e he => ?_⟩
  exact (List.mem_append.mp he).elim (hfirst e) (hsecond e)

theorem Notes.single (before : List Diagnostic) {d : Diagnostic}
    (hd : ∀ e, d = .duplicate e → P e) : Notes P before (before ++ [d]) :=
  ⟨[d], rfl, fun e he => hd e (List.mem_singleton.mp he).symm⟩

/-- A name is refused where the current scope declares it. -/
theorem diagnostics_declare_of_find?_eq_some (r : SymbolReader) (new : Declaration)
    {d : Declaration} (hd : r.scopes.current.find? new.name = some d) :
    (r.declare new).diagnostics =
      r.diagnostics ++ [.duplicate ⟨new.name, new.line, new.column, d.line⟩] := by
  rw [declare, ScopeTree.declare, hd]
  rfl

theorem diagnostics_declare_of_find?_eq_none (r : SymbolReader) (new : Declaration)
    (hnone : r.scopes.current.find? new.name = none) :
    (r.declare new).diagnostics = r.diagnostics := by
  rw [declare, ScopeTree.declare, hnone]

theorem notes_declare (r : SymbolReader) (new : Declaration) :
    Notes r.Repeats r.diagnostics (r.declare new).diagnostics := by
  cases hd : r.scopes.current.find? new.name with
  | none =>
    rw [diagnostics_declare_of_find?_eq_none r new hd]
    exact .refl _ _
  | some d =>
    rw [diagnostics_declare_of_find?_eq_some r new hd]
    refine .single _ fun e he => ?_
    cases he
    exact ⟨d, hd, rfl⟩

theorem notes_declareAny (r : SymbolReader) (new : Option Declaration) :
    Notes r.Repeats r.diagnostics (r.declareAny new).diagnostics := by
  cases new with
  | none => exact .refl _ _
  | some new => exact notes_declare r new

theorem notes_closeAt (P : DuplicateDeclaration → Prop) (r : SymbolReader) (t : Token) :
    Notes P r.diagnostics (r.closeAt t).diagnostics := by
  unfold closeAt
  split
  · exact .refl _ _
  · exact .single _ fun _ he => by cases he

theorem notes_lookUp (P : DuplicateDeclaration → Prop) (r : SymbolReader) (t : Token) :
    Notes P r.diagnostics (r.lookUp t).diagnostics := by
  unfold lookUp
  split
  · exact .refl _ _
  · exact .single _ fun _ he => by cases he

theorem Acts.notes {r' : SymbolReader} (ha : Acts r t r') :
    Notes r.Repeats r.diagnostics r'.diagnostics := by
  cases ha with
  | enter new => exact notes_declareAny r new
  | openScope new => exact notes_declareAny r new
  | openFunction => exact notes_declare r _
  | close new => exact (notes_declareAny r new).trans (notes_closeAt r.Repeats _ t)
  | lookUp new => exact (notes_declareAny r new).trans (notes_lookUp r.Repeats _ t)

end

/-- A second declaration is noted only where the name is declared, and the token that shows it gives
no name a type. -/
theorem repeats_of_mem_noted {e : DuplicateDeclaration} (h : .duplicate e ∈ r.noted t) :
    r.Repeats e ∧ ∀ number name, r.typeAt? t number name = none := by
  rw [noted] at h
  rcases step_cases r t with ⟨hstep, -⟩ | ⟨header, -, -, hstep⟩ | ⟨hacts, hnone⟩
  · rw [hstep, List.drop_length] at h
    exact absurd h List.not_mem_nil
  · rw [hstep] at h
    exact absurd (List.drop_length (l := r.diagnostics) ▸ h) List.not_mem_nil
  · obtain ⟨more, hmore, hrepeats⟩ := hacts.notes
    have hdrop : (r.step t).diagnostics.drop r.diagnostics.length = more := by
      rw [hmore]
      exact List.drop_left
    exact ⟨hrepeats e (hdrop ▸ h), hnone⟩

/-- Where a function is met whose name is declared, the function is refused. -/
theorem MeetsFunction.mem_noted {number : Nat} {name : String} {d : Declaration}
    (h : r.MeetsFunction t ⟨number, name⟩) (hd : r.scopes.Stores number name d) :
    .duplicate ⟨name, t.line, t.column, d.line⟩ ∈ r.noted t := by
  obtain ⟨hstate, hkind, he⟩ := h
  obtain ⟨rfl, rfl⟩ := FunctionHeader.mk.inj he
  have hsignificant : t.isSignificant = true := by rw [Token.isSignificant, hkind]; rfl
  have hstep : r.step t = (r.placedAt t).readFunctionName t :=
    (if_pos hsignificant).trans (read_of_functionName hstate hkind)
  have hnoted : (r.step t).diagnostics =
      r.diagnostics ++ [.duplicate ⟨t.lexeme, t.line, t.column, d.line⟩] := by
    rw [hstep]
    exact diagnostics_declare_of_find?_eq_some (r.placedAt t)
      ((PendingName.ofToken t).declaration .function none) hd
  rw [noted, hnoted, List.drop_left]
  exact List.mem_singleton_self _

/-- A name gets a type only where a function of the name was met. -/
theorem exists_meetsFunction_of_lastType? {number : Nat} {name typeName : String}
    {tokens : List Token} (h : r.lastType? number name tokens = some typeName) :
    r.state.header? = some ⟨number, name⟩ ∨
      ∃ front u rest, tokens = front ++ u :: rest ∧
        (front.foldl step r).MeetsFunction u ⟨number, name⟩ := by
  induction tokens generalizing r with
  | nil => cases h
  | cons t rest ih =>
    rw [lastType?, Option.or_eq_some_iff] at h
    rcases h with hlater | ⟨-, hhere⟩
    · rcases ih hlater with hheader | ⟨front, u, behind, rfl, hmeets⟩
      · rcases header?_step hheader with hheader | hmeets
        · exact Or.inl hheader
        · exact Or.inr ⟨[], t, rest, rfl, hmeets⟩
      · exact Or.inr ⟨t :: front, u, behind, rfl, hmeets⟩
    · rw [typeAt?] at hhere
      split at hhere
      · next hboth => exact Or.inl (ReadingState.header?_of_resultHeader? hboth.2)
      · cases hhere

/-! ### Refused declarations -/

/-- A token names a function that is refused in the scope of a number. -/
def RefusesFunction (r : SymbolReader) (t : Token) (number : Nat) (name : String) : Prop :=
  r.state = .functionName ∧ r.scopes.cursor = number ∧
    ∃ previousLine, .duplicate ⟨name, t.line, t.column, previousLine⟩ ∈ r.noted t

/-- A refused declaration leaves the one that is there where it is, with its kind, whatever is read
behind it and also in the finished table. The type stays too, unless a function of the name is
refused, there or later: the type of a result is given to the name of the function, and for a
refused function that is the declaration that is there. -/
theorem duplicate_keeps_declaration {before : List Token} {t : Token} {e : DuplicateDeclaration}
    (h : .duplicate e ∈ (before.foldl step .initial).noted t) :
    let r := before.foldl step .initial
    ∃ d, (r.scopes.scope r.scopes.cursor).find? e.name = some d ∧ d.line = e.previousLine ∧
      ∀ after : List Token,
        let later := after.foldl step (r.step t)
        let kept := { d with
          typeName := ((r.step t).lastType? r.scopes.cursor e.name after).or d.typeName }
        (later.scopes.scope r.scopes.cursor).find? e.name = some kept ∧
          (later.finish.scopes.scope r.scopes.cursor).find? e.name = some kept ∧
          (kept ≠ d → ∃ front function rest, t :: after = front ++ function :: rest ∧
            (front.foldl step r).RefusesFunction function r.scopes.cursor e.name) := by
  intro r
  obtain ⟨⟨d, hd, hline⟩, hnone⟩ := repeats_of_mem_noted h
  refine ⟨d, hd, hline, fun after => ?_⟩
  have hstep := stores_step hd t
  rw [hnone] at hstep
  have hlater := stores_foldl_step hstep after
  -- To finish is to leave scopes, which keep what is declared in them.
  have hfinish := hlater
  rw [ScopeTree.Stores, ScopeTree.scope, ← scopes_finish] at hfinish
  refine ⟨hlater, hfinish, fun hchanged => ?_⟩
  obtain ⟨typeName, htype⟩ :
      ∃ typeName, r.lastType? r.scopes.cursor e.name (t :: after) = some typeName := by
    rw [lastType?, hnone, Option.or_none, ← Option.ne_none_iff_exists']
    intro hsame
    exact hchanged (by rw [hsame, Option.none_or])
  have hnested : r.Nested := nested_foldl_step before nested_initial
  rcases exists_meetsFunction_of_lastType? htype with
    hheader | ⟨front, function, rest, hsplit, hmeets⟩
  · exact absurd (hnested.declaredIn_lt _ hheader) (Nat.lt_irrefl _)
  · have hcursor := congrArg FunctionHeader.declaredIn hmeets.2.2
    have hstored := stores_foldl_step hd front
    exact ⟨front, function, rest, hsplit, hmeets.1, hcursor.symm, _, hmeets.mem_noted hstored⟩

/-- A second value: the first one keeps its type. -/
theorem duplicate_keeps_declaration_value :
    ∃ before t after, Token.ofSource "val f:Int val f:Char f" = .ok (before ++ t :: after) ∧
      .duplicate ⟨"f", 1, 15, 1⟩ ∈ (before.foldl step .initial).noted t ∧
      ((SymbolTable.ofTokens (before ++ t :: after)).scopes.scope 0).find? "f" =
        some ⟨"f", .val, some "Int", 1, 5⟩ := by
  let before : List Token :=
    [⟨1, 1, 3, "val", .valKeyword⟩, ⟨4, 1, 4, " ", .whiteSpace⟩, ⟨5, 1, 5, "f", .identifier⟩,
      ⟨6, 1, 6, ":", .colon⟩, ⟨7, 1, 9, "Int", .intType⟩, ⟨10, 1, 10, " ", .whiteSpace⟩,
      ⟨11, 1, 13, "val", .valKeyword⟩, ⟨14, 1, 14, " ", .whiteSpace⟩,
      ⟨15, 1, 15, "f", .identifier⟩, ⟨16, 1, 16, ":", .colon⟩]
  let t : Token := ⟨17, 1, 20, "Char", .charType⟩
  let after : List Token := [⟨21, 1, 21, " ", .whiteSpace⟩, ⟨22, 1, 22, "f", .identifier⟩]
  have hnoted : .duplicate ⟨"f", 1, 15, 1⟩ ∈ (before.foldl step .initial).noted t := by decide
  obtain ⟨d, hd, -, hkept⟩ := duplicate_keeps_declaration hnoted
  have hfirst : d = ⟨"f", .val, some "Int", 1, 5⟩ := Option.some.inj (hd.symm.trans (by decide))
  refine ⟨before, t, after, by decide +kernel, hnoted, ?_⟩
  have hfinished := (hkept after).2.1
  rw [hfirst] at hfinished
  rw [SymbolTable.ofTokens, List.foldl_append, List.foldl_cons]
  exact hfinished.trans (by decide)

/-- A second declaration that is a function: its result type is given to the value before it. -/
theorem refused_function_retypes :
    ∃ before t after, Token.ofSource "val f : Int\nfun f() : Char \x7b\n\x7d" =
        .ok (before ++ t :: after) ∧
      .duplicate ⟨"f", 2, 5, 1⟩ ∈ (before.foldl step .initial).noted t ∧
      ((before.foldl step .initial).scopes.scope 0).find? "f" =
        some ⟨"f", .val, some "Int", 1, 5⟩ ∧
      ((SymbolTable.ofTokens (before ++ t :: after)).scopes.scope 0).find? "f" =
        some ⟨"f", .val, some "Char", 1, 5⟩ := by
  refine ⟨[⟨1, 1, 3, "val", .valKeyword⟩, ⟨4, 1, 4, " ", .whiteSpace⟩, ⟨5, 1, 5, "f", .identifier⟩,
      ⟨6, 1, 6, " ", .whiteSpace⟩, ⟨7, 1, 7, ":", .colon⟩, ⟨8, 1, 8, " ", .whiteSpace⟩,
      ⟨9, 1, 11, "Int", .intType⟩, ⟨1, 2, 3, "fun", .funKeyword⟩, ⟨4, 2, 4, " ", .whiteSpace⟩],
    ⟨5, 2, 5, "f", .identifier⟩,
    [⟨6, 2, 6, "(", .openParen⟩, ⟨7, 2, 7, ")", .closeParen⟩, ⟨8, 2, 8, " ", .whiteSpace⟩,
      ⟨9, 2, 9, ":", .colon⟩, ⟨10, 2, 10, " ", .whiteSpace⟩, ⟨11, 2, 14, "Char", .charType⟩,
      ⟨15, 2, 15, " ", .whiteSpace⟩, ⟨16, 2, 16, "\x7b", .openCurly⟩,
      ⟨1, 3, 1, "\x7d", .closeCurly⟩], ?_, ?_, ?_, ?_⟩
  · decide +kernel
  · decide
  · decide
  · decide +kernel

end SymbolReader

end PredictiveFrontend
