import PredictiveFrontend.Proofs.Scope.Duplicate

/-!
# Headers and the scopes they open

As long as the header of a function is read, the current scope is the one that the header has
opened, inside the scope in which the function is declared. So the type of the result always finds
the name that it is meant for. Where the reading ends, the scopes that are still open are those on
the way from the current scope outwards, and each of them is reported once.
-/

namespace PredictiveFrontend

theorem Scope.name_setType (s : Scope) (name typeName : String) :
    (s.setType name typeName).name = s.name := by
  unfold setType
  split <;> rfl

theorem Scope.kind_setType (s : Scope) (name typeName : String) :
    (s.setType name typeName).kind = s.kind := by
  unfold setType
  split <;> rfl

namespace ScopeTree

variable {t : ScopeTree}

/-! ### The scope of a header -/

/-- The current scope is the one that the header of a function has opened: it belongs to a function
of this name, it was opened in the scope in which the function is declared, and there the name is
declared. -/
structure HeaderOpen (t : ScopeTree) (header : FunctionHeader) : Prop where
  kind_eq : t.current.kind = .function
  name_eq : t.current.name = header.name
  parent_eq : t.current.parent = some header.declaredIn
  declared : ∃ d, t.Stores header.declaredIn header.name d

/-- A change that leaves the head of every scope as it is leaves the head of the current one. -/
theorem HeaderOpen.modify {header : FunctionHeader} (h : t.HeaderOpen header) {f : Scope → Scope}
    (hname : ∀ s, (f s).name = s.name) (hkind : ∀ s, (f s).kind = s.kind)
    (hparent : ∀ s, (f s).parent = s.parent) (changed : Nat)
    (hdeclared : ∃ d, ({ t with scopes := t.scopes.modify changed f } : ScopeTree).Stores
      header.declaredIn header.name d) :
    ({ t with scopes := t.scopes.modify changed f } : ScopeTree).HeaderOpen header := by
  have hcurrent := scope_modify t changed f t.cursor
  refine ⟨?_, ?_, ?_, hdeclared⟩
  all_goals
    simp only [current]
    rw [hcurrent]
    split
  · exact (hkind _).trans h.kind_eq
  · exact h.kind_eq
  · exact (hname _).trans h.name_eq
  · exact h.name_eq
  · exact (hparent _).trans h.parent_eq
  · exact h.parent_eq

theorem HeaderOpen.declare {header : FunctionHeader} {t' : ScopeTree} {new : Declaration}
    (h : t.HeaderOpen header) (hd : t.declare new = .ok t') : t'.HeaderOpen header := by
  obtain ⟨d, hstored⟩ := h.declared
  have hlater := hstored.declare hd
  rw [eq_of_declare_eq_ok hd] at hlater ⊢
  exact h.modify (f := fun s => s.declare new) (fun _ => rfl) (fun _ => rfl) (fun _ => rfl) _
    ⟨d, hlater⟩

theorem HeaderOpen.setType {header : FunctionHeader} (h : t.HeaderOpen header) (number : Nat)
    (name typeName : String) : (t.setType number name typeName).HeaderOpen header := by
  obtain ⟨d, hd⟩ := h.declared
  exact h.modify (fun s => s.name_setType _ _) (fun s => s.kind_setType _ _)
    (fun s => s.parent_setType _ _) number ⟨_, hd.setType number name typeName⟩

end ScopeTree

namespace SymbolReader

variable {r : SymbolReader} {t : Token} {header : FunctionHeader}

/-- A name is declared in the current scope once it was read there, whether it was new or not. -/
theorem exists_stores_declare (hcursor : r.scopes.cursor < r.scopes.size) (new : Declaration) :
    ∃ d, (r.declare new).scopes.Stores r.scopes.cursor new.name d := by
  rw [declare, ScopeTree.declare]
  cases hfind : r.scopes.current.find? new.name with
  | some d => exact ⟨d, hfind⟩
  | none =>
    refine ⟨new, ?_⟩
    simp only
    rw [ScopeTree.Stores, ScopeTree.scope_modify, if_pos ⟨rfl, hcursor⟩]
    rw [ScopeTree.current, Scope.find?] at hfind
    simp [Scope.find?, Scope.declare, hfind]

theorem headerOpen_readFunctionName (hlinked : r.scopes.Linked) :
    (r.readFunctionName t).scopes.HeaderOpen ⟨r.scopes.cursor, t.lexeme⟩ := by
  obtain ⟨d, hd⟩ := exists_stores_declare hlinked.cursor_lt
    ((PendingName.ofToken t).declaration .function none)
  have hcurrent : (r.readFunctionName t).scopes.current =
      ⟨t.lexeme, .function, some r.scopes.cursor, []⟩ := by
    have hnew := ScopeTree.scope_openScope
      (r.declare ((PendingName.ofToken t).declaration .function none)).scopes t.lexeme .function
      (r.declare ((PendingName.ofToken t).declaration .function none)).scopes.size
    rw [if_pos rfl, cursor_declare] at hnew
    exact hnew
  refine ⟨?_, ?_, ?_, d, hd.openScope t.lexeme .function⟩
  · rw [hcurrent]
  · rw [hcurrent]
  · rw [hcurrent]

/-- Where a header is being read, the current scope is the one that it has opened. -/
def HeadersOpen (r : SymbolReader) : Prop :=
  ∀ header, r.state.header? = some header → r.scopes.HeaderOpen header

theorem Acts.headersOpen {r' : SymbolReader} (ha : Acts r t r') (hlinked : r.scopes.Linked)
    (h : r.HeadersOpen) : r'.HeadersOpen := by
  intro header hheader
  cases ha with
  | enter new _ hstate =>
    rcases hstate with hnone | hsame
    · cases hnone.symm.trans hheader
    · have hopen := h header (hsame.symm.trans hheader)
      exact declareAny_keeps (P := fun t => t.HeaderOpen header) (fun h hd => h.declare hd) hopen
        new
  | openFunction =>
    cases hheader
    exact headerOpen_readFunctionName hlinked
  | openScope | close | lookUp => cases hheader

theorem HeadersOpen.step (h : r.HeadersOpen) (hlinked : r.scopes.Linked) (t : Token) :
    (r.step t).HeadersOpen := by
  rcases step_cases r t with ⟨hstep, -⟩ | ⟨header', -, hheader', hstep⟩ | ⟨hacts, -⟩
  · rwa [hstep]
  · rw [hstep]
    intro header hheader
    have hopen := h header ((ReadingState.header?_of_resultHeader? hheader').trans hheader)
    exact hopen.setType header'.declaredIn header'.name t.lexeme
  · exact hacts.headersOpen hlinked h

theorem headersOpen_foldl_step (tokens : List Token) (hnested : r.Nested) (h : r.HeadersOpen) :
    (tokens.foldl step r).HeadersOpen := by
  induction tokens generalizing r with
  | nil => exact h
  | cons t rest ih => exact ih (hnested.step t) (h.step hnested.linked t)

/-- The type of a result is given to the name of the function, which is declared. -/
theorem HeadersOpen.stores_step (h : r.HeadersOpen) (ht : t.kind.isType = true)
    (hheader : r.state.resultHeader? = some header) :
    ∃ d, r.scopes.Stores header.declaredIn header.name d ∧
      (r.step t).scopes.Stores header.declaredIn header.name
        { d with typeName := some t.lexeme } := by
  obtain ⟨d, hd⟩ := (h header (ReadingState.header?_of_resultHeader? hheader)).declared
  have hstep := SymbolReader.stores_step hd t
  rw [typeAt?, if_pos ⟨ht, hheader⟩] at hstep
  exact ⟨d, hd, hstep⟩

/-- Wherever the header of a function is being read, the current scope is the one that the header
has opened, in the scope where the function is declared, and a type of its result is given to the
declaration of its name there. At the end every scope on the way from the current one outwards is
reported once, innermost first, but for the global one, which becomes the current scope. -/
theorem headers_own_scope (tokens : List Token) :
    let r := tokens.foldl step .initial
    (∀ header, r.state.header? = some header → r.scopes.HeaderOpen header) ∧
    (∀ header t, r.state.resultHeader? = some header → t.kind.isType = true →
      ∃ d, r.scopes.Stores header.declaredIn header.name d ∧
        (r.step t).scopes.Stores header.declaredIn header.name
          { d with typeName := some t.lexeme }) ∧
    ∃ path, r.scopes.Outwards r.scopes.cursor path ∧ path.Nodup ∧ path.getLast? = some 0 ∧
      r.finish.diagnostics = r.diagnostics ++ (path.filter (· ≠ 0)).map (fun number =>
        .unclosedScope (r.scopes.scope number).name r.lastLine r.lastColumn) ∧
      r.finish.scopes.scopes = r.scopes.scopes ∧ r.finish.scopes.cursor = 0 := by
  intro r
  have hopen : r.HeadersOpen :=
    headersOpen_foldl_step tokens nested_initial fun _ hheader => by cases hheader
  have hrooted : r.scopes.Rooted := rooted_foldl_step tokens rooted_initial
  have hlinked : r.scopes.Linked := (nested_foldl_step tokens nested_initial).linked
  have hpath := hlinked.outwards_openScopes
  have hnodup : r.scopes.openScopes.Nodup := (hpath.pairwise_gt hlinked).1.imp Nat.ne_of_gt
  refine ⟨hopen, fun header t hheader ht => hopen.stores_step ht hheader, ?_⟩
  refine ⟨r.scopes.openScopes, hpath, hnodup, hrooted, ?_, scopes_finish r, ?_⟩
  · rw [finish_eq hlinked hrooted, unclosed, hrooted.dropLast_openScopes hlinked]
  · rw [finish_eq hlinked hrooted]

/-- A source that ends between the parameters of a function of a class and its body. -/
theorem headers_own_scope_unfinished :
    ∃ tokens, Token.ofSource "class C \x7b fun f()" = .ok tokens ∧
      let r := tokens.foldl step .initial
      r.state.resultHeader? = some ⟨1, "f"⟩ ∧ r.scopes.HeaderOpen ⟨1, "f"⟩ ∧
      (∃ d, r.scopes.Stores 1 "f" d ∧
        (r.step ⟨18, 1, 20, "Int", .intType⟩).scopes.Stores 1 "f"
          { d with typeName := some "Int" }) ∧
      ∃ path, r.scopes.Outwards r.scopes.cursor path ∧ path.getLast? = some 0 ∧
        r.finish.diagnostics = (path.filter (· ≠ 0)).map (fun number =>
          .unclosedScope (r.scopes.scope number).name r.lastLine r.lastColumn) ∧
        r.finish.diagnostics = [.unclosedScope "f" 1 18, .unclosedScope "C" 1 18] := by
  let tokens : List Token :=
    [⟨1, 1, 5, "class", .classKeyword⟩, ⟨6, 1, 6, " ", .whiteSpace⟩, ⟨7, 1, 7, "C", .identifier⟩,
      ⟨8, 1, 8, " ", .whiteSpace⟩, ⟨9, 1, 9, "\x7b", .openCurly⟩, ⟨10, 1, 10, " ", .whiteSpace⟩,
      ⟨11, 1, 13, "fun", .funKeyword⟩, ⟨14, 1, 14, " ", .whiteSpace⟩,
      ⟨15, 1, 15, "f", .identifier⟩, ⟨16, 1, 16, "(", .openParen⟩, ⟨17, 1, 17, ")", .closeParen⟩]
  have hstate : (tokens.foldl step .initial).state.resultHeader? = some ⟨1, "f"⟩ := by decide
  obtain ⟨hopen, htype, path, hpath, -, hlast, hfinish, -⟩ := headers_own_scope tokens
  refine ⟨tokens, by decide +kernel, hstate, ?_, ?_, path, hpath, hlast, hfinish, by decide +kernel⟩
  · exact hopen ⟨1, "f"⟩ (ReadingState.header?_of_resultHeader? hstate)
  · exact htype ⟨1, "f"⟩ ⟨18, 1, 20, "Int", .intType⟩ hstate rfl

end SymbolReader

end PredictiveFrontend
