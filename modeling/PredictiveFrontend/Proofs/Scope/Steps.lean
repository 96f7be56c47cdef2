import PredictiveFrontend.Proofs.Scope.Tree
import PredictiveFrontend.Scope.SymbolTable

/-!
# What a token does

Whatever the reader is in the middle of, a token does one of a few things: it is passed over, it is
read as the type of the result of a function, it opens the scope of a class or a function, or it
declares at most one name and is otherwise plain code or a part of a header. What holds of every
step of a reader is shown for these cases.
-/

namespace PredictiveFrontend

/-- What is declared is declared in the current scope. -/
theorem ScopeTree.eq_of_declare_eq_ok {t t' : ScopeTree} {new : Declaration}
    (h : t.declare new = .ok t') :
    t' = { t with scopes := t.scopes.modify t.cursor fun s => s.declare new } := by
  rw [ScopeTree.declare] at h
  split at h <;> cases h
  rfl

/-- A type is for the grammar. -/
theorem TokenKind.isSignificant_of_isType {kind : TokenKind} (h : kind.isType = true) :
    kind.isSignificant = true := by
  cases kind <;> first | rfl | cases h

namespace ReadingState

/-- The function whose header is being read. -/
def header? : ReadingState → Option FunctionHeader
  | .parameterList header | .parameterName header | .parameterType header _
  | .returnType header => some header
  | _ => none

/-- The function whose header is complete but for the type of its result. -/
def resultHeader? : ReadingState → Option FunctionHeader
  | .parameterList header | .returnType header => some header
  | _ => none

theorem header?_of_resultHeader? {state : ReadingState} {header : FunctionHeader}
    (h : state.resultHeader? = some header) : state.header? = some header := by
  cases state <;> first | exact h | cases h

/-- The name that was read and waits for its type. -/
def waiting? : ReadingState → Option PendingName
  | .parameterType _ name | .declarationType _ name => some name
  | _ => none

/-- Whether an identifier is read as a name that is to be declared. -/
def expectsName : ReadingState → Bool
  | .className | .functionName | .parameterName _ | .declarationName _ => true
  | _ => false

theorem waiting?_of_resultHeader? {state : ReadingState} {header : FunctionHeader}
    (h : state.resultHeader? = some header) : state.waiting? = none := by
  cases state <;> first | rfl | cases h

theorem waiting?_of_expectsName {state : ReadingState} (h : state.expectsName = true) :
    state.waiting? = none := by
  cases state <;> first | rfl | cases h

end ReadingState

/-- The name that a declaration declares, where it stands. -/
def Declaration.declaredName (d : Declaration) : PendingName :=
  ⟨d.name, d.line, d.column⟩

namespace SymbolReader

/-- The type that a token gives to a name declared in the scope of a number: a type read as that of
the result of a function of this name, met in this scope. -/
def typeAt? (r : SymbolReader) (t : Token) (number : Nat) (name : String) : Option String :=
  if t.kind.isType = true ∧ r.state.resultHeader? = some ⟨number, name⟩ then some t.lexeme else none

/-- The name that is to be declared, if a token is read as one. -/
def nameRead? (r : SymbolReader) (t : Token) : Option PendingName :=
  if r.state.expectsName = true ∧ t.kind = .identifier then some (.ofToken t) else none

/-- Declare a name, or none. -/
def declareAny (r : SymbolReader) (new : Option Declaration) : SymbolReader :=
  new.elim r r.declare

/-- The name that was waiting, or the one that a token is read as, is declared or waits on. -/
def Settles (r : SymbolReader) (t : Token) (new : Option Declaration)
    (waiting : Option PendingName) : Prop :=
  (new.map Declaration.declaredName).toList ++ waiting.toList =
    r.state.waiting?.toList ++ (r.nameRead? t).toList

/-- What reading a token comes to where it is not the type of a result. -/
inductive Acts (r : SymbolReader) (t : Token) : SymbolReader → Prop where
  /-- The reader stays in the header of a function or leaves it. -/
  | enter (new : Option Declaration) (state : ReadingState)
    (h : state.header? = none ∨ state.header? = r.state.header?)
    (hnew : r.Settles t new state.waiting?) : Acts r t ((r.declareAny new).enter state)
  /-- A class or a block begins. -/
  | openScope (new : Option Declaration) (name : String) (kind : ScopeKind)
    (hnew : r.Settles t new none) : Acts r t (((r.declareAny new).openScope name kind).enter .code)
  /-- The header of a function begins. -/
  | openFunction (hstate : r.state = .functionName) (hkind : t.kind = .identifier) :
    Acts r t (r.readFunctionName t)
  /-- A scope ends. -/
  | close (new : Option Declaration) (hnew : r.Settles t new none) :
    Acts r t (((r.declareAny new).closeAt t).enter .code)
  /-- A name is used. -/
  | lookUp (new : Option Declaration) (hnew : r.Settles t new none) :
    Acts r t (((r.declareAny new).lookUp t).enter .code)

variable {r : SymbolReader} {t : Token} {header : FunctionHeader}

/-! ### Names that are read -/

theorem nameRead?_of_expectsName (h : r.state.expectsName = true) (hkind : t.kind = .identifier) :
    r.nameRead? t = some (.ofToken t) :=
  if_pos ⟨h, hkind⟩

theorem nameRead?_of_not_expectsName (h : r.state.expectsName = false) : r.nameRead? t = none :=
  if_neg fun hboth => by simp [h] at hboth

theorem nameRead?_of_ne_identifier (h : t.kind ≠ .identifier) : r.nameRead? t = none :=
  if_neg fun hboth => h hboth.2

/-- No name waits, and none is read. -/
theorem settles_none {waiting : Option PendingName} (hwaiting : r.state.waiting? = waiting)
    (hname : r.nameRead? t = none) : r.Settles t none waiting := by
  rw [Settles, hwaiting, hname]
  exact (List.append_nil _).symm

/-- The name that was waiting is declared. -/
theorem settles_declaration {name : PendingName} (hwaiting : r.state.waiting? = some name)
    (hname : r.nameRead? t = none) (kind : DeclarationKind) (typeName : Option String) :
    r.Settles t (some (name.declaration kind typeName)) none := by
  rw [Settles, hwaiting, hname]
  rfl

/-- The name that is read is declared. -/
theorem settles_name (h : r.state.expectsName = true) (hkind : t.kind = .identifier)
    (kind : DeclarationKind) (typeName : Option String) :
    r.Settles t (some ((PendingName.ofToken t).declaration kind typeName)) none := by
  rw [Settles, ReadingState.waiting?_of_expectsName h, nameRead?_of_expectsName h hkind]
  rfl

/-- The name that is read waits. -/
theorem settles_waiting (h : r.state.expectsName = true) (hkind : t.kind = .identifier) :
    r.Settles t none (some (.ofToken t)) := by
  rw [Settles, ReadingState.waiting?_of_expectsName h, nameRead?_of_expectsName h hkind]
  rfl

/-! ### Acts -/

theorem cursor_declare (r : SymbolReader) (new : Declaration) :
    (r.declare new).scopes.cursor = r.scopes.cursor := by
  unfold declare
  split
  · next hd => rw [ScopeTree.eq_of_declare_eq_ok hd]
  · rfl
  · rfl

theorem cursor_declareAny (r : SymbolReader) (new : Option Declaration) :
    (r.declareAny new).scopes.cursor = r.scopes.cursor := by
  cases new with
  | none => rfl
  | some new => exact cursor_declare r new

theorem scopes_lookUp (r : SymbolReader) (t : Token) : (r.lookUp t).scopes = r.scopes := by
  unfold lookUp
  split <;> rfl

theorem acts_readCode (new : Option Declaration) (hnew : r.Settles t new none) :
    Acts r t ((r.declareAny new).readCode t) := by
  unfold readCode
  split
  · exact .enter new _ (.inl rfl) hnew
  · exact .enter new _ (.inl rfl) hnew
  · exact .enter new _ (.inl rfl) hnew
  · exact .enter new _ (.inl rfl) hnew
  · exact .openScope new "block" .block hnew
  · exact .close new hnew
  · exact .lookUp new hnew
  · exact .enter new _ (.inl rfl) hnew

theorem acts_readReturnType (new : Option Declaration) (hheader : r.state.header? = some header)
    (ht : ¬t.kind.isType = true) (hnew : r.Settles t new none) :
    Acts r t ((r.declareAny new).readReturnType header t) := by
  rw [readReturnType, if_neg ht]
  split
  · exact .enter new _ (.inr hheader.symm) hnew
  · exact .enter new _ (.inl rfl) hnew
  · exact acts_readCode new hnew

theorem acts_readParameterType {name : PendingName} (hs : r.state = .parameterType header name) :
    Acts r t (r.readParameterType header name t) := by
  have hheader : r.state.header? = some header := by rw [hs]; rfl
  have hwaiting : r.state.waiting? = some name := by rw [hs]; rfl
  have hname : r.nameRead? t = none := nameRead?_of_not_expectsName (by rw [hs]; rfl)
  unfold readParameterType
  split
  · exact .enter (some _) _ (.inr hheader.symm) (settles_declaration hwaiting hname _ _)
  · next htype =>
    simp only
    split
    · exact .enter none r.state (.inr rfl) (settles_none rfl hname)
    · exact .enter (some _) _ (.inr hheader.symm) (settles_declaration hwaiting hname _ _)
    · exact .enter (some _) _ (.inr hheader.symm) (settles_declaration hwaiting hname _ _)
    · exact acts_readReturnType (some _) hheader htype (settles_declaration hwaiting hname _ _)

theorem acts_readDeclarationType {kind : DeclarationKind} {name : PendingName}
    (hs : r.state = .declarationType kind name) : Acts r t (r.readDeclarationType kind name t) := by
  have hwaiting : r.state.waiting? = some name := by rw [hs]; rfl
  have hname : r.nameRead? t = none := nameRead?_of_not_expectsName (by rw [hs]; rfl)
  unfold readDeclarationType
  split
  · exact .enter (some _) _ (.inl rfl) (settles_declaration hwaiting hname _ _)
  · split
    · exact .enter none r.state (.inr rfl) (settles_none rfl hname)
    · exact acts_readCode (some _) (settles_declaration hwaiting hname _ _)

theorem acts_read (h : t.kind.isType = true → r.state.resultHeader? = none) :
    Acts r t (r.read t) := by
  unfold read
  cases hs : r.state with
  | code =>
    have hname : r.nameRead? t = none := nameRead?_of_not_expectsName (by rw [hs]; rfl)
    exact acts_readCode none (settles_none (by rw [hs]; rfl) hname)
  | className =>
    have hexpects : r.state.expectsName = true := by rw [hs]; rfl
    simp only
    split
    · next hkind => exact .enter (some _) _ (.inl rfl) (settles_name hexpects hkind _ _)
    · next hkind =>
      exact acts_readCode none (settles_none (by rw [hs]; rfl) (nameRead?_of_ne_identifier hkind))
  | classHeader name =>
    have hname : r.nameRead? t = none := nameRead?_of_not_expectsName (by rw [hs]; rfl)
    have hnone : r.Settles t none none := settles_none (by rw [hs]; rfl) hname
    simp only
    split
    · exact .openScope none name .class_ hnone
    · exact acts_readCode none hnone
    · exact acts_readCode none hnone
    · exact acts_readCode none hnone
    · exact acts_readCode none hnone
    · exact acts_readCode none hnone
    · exact .enter none r.state (.inr rfl) (settles_none rfl hname)
  | functionName =>
    simp only
    split
    · next hkind => exact .openFunction hs hkind
    · next hkind =>
      exact acts_readCode none (settles_none (by rw [hs]; rfl) (nameRead?_of_ne_identifier hkind))
  | parameterList header =>
    have hheader : r.state.header? = some header := by rw [hs]; rfl
    have hname : r.nameRead? t = none := nameRead?_of_not_expectsName (by rw [hs]; rfl)
    have hnone : r.Settles t none none := settles_none (by rw [hs]; rfl) hname
    have ht : ¬t.kind.isType = true := fun ht => by
      simpa [hs, ReadingState.resultHeader?] using h ht
    simp only
    split
    · exact .enter none _ (.inr hheader.symm) hnone
    · exact acts_readReturnType none hheader ht hnone
  | parameterName header =>
    have hheader : r.state.header? = some header := by rw [hs]; rfl
    have hexpects : r.state.expectsName = true := by rw [hs]; rfl
    have hwaiting : r.state.waiting? = none := by rw [hs]; rfl
    simp only
    split
    · next hkind => exact .enter none _ (.inr hheader.symm) (settles_waiting hexpects hkind)
    · next hkind =>
      have hname : r.nameRead? t = none := nameRead?_of_ne_identifier (by rw [hkind]; decide)
      exact .enter none _ (.inr hheader.symm) (settles_none hwaiting hname)
    · next hkind =>
      have hname : r.nameRead? t = none := nameRead?_of_ne_identifier (by rw [hkind]; decide)
      exact acts_readReturnType none hheader (by rw [hkind]; decide) (settles_none hwaiting hname)
    · next hkind =>
      have hname : r.nameRead? t = none := nameRead?_of_ne_identifier (by rw [hkind]; decide)
      exact acts_readReturnType none hheader (by rw [hkind]; decide) (settles_none hwaiting hname)
    · next hkind _ _ _ =>
      have hname : r.nameRead? t = none := nameRead?_of_ne_identifier hkind
      exact .enter none r.state (.inr rfl) (settles_none rfl hname)
  | parameterType header name => exact acts_readParameterType hs
  | returnType header =>
    have hname : r.nameRead? t = none := nameRead?_of_not_expectsName (by rw [hs]; rfl)
    have ht : ¬t.kind.isType = true := fun ht => by
      simpa [hs, ReadingState.resultHeader?] using h ht
    exact acts_readReturnType none (by rw [hs]; rfl) ht (settles_none (by rw [hs]; rfl) hname)
  | declarationName kind =>
    have hexpects : r.state.expectsName = true := by rw [hs]; rfl
    simp only
    split
    · next hkind => exact .enter none _ (.inl rfl) (settles_waiting hexpects hkind)
    · next hkind =>
      exact acts_readCode none (settles_none (by rw [hs]; rfl) (nameRead?_of_ne_identifier hkind))
  | declarationType kind name => exact acts_readDeclarationType hs

/-- The type of a result is given to the name of the function. -/
theorem read_of_resultHeader? (ht : t.kind.isType = true)
    (hheader : r.state.resultHeader? = some header) :
    r.read t = { r with
      state := .returnType header
      scopes := r.scopes.setType header.declaredIn header.name t.lexeme } := by
  have hresult : r.read t = r.readReturnType header t := by
    unfold read
    cases hs : r.state <;> rw [hs] at hheader <;> cases hheader
    · simp only
      split
      · next hparen => rw [hparen] at ht; cases ht
      · rfl
    · rfl
  rw [hresult, readReturnType, if_pos ht]

theorem read_of_functionName (hstate : r.state = .functionName) (hkind : t.kind = .identifier) :
    r.read t = r.readFunctionName t := by
  rw [read, hstate]
  simp only [hkind]

/-- The reader with the place of a token as the last one. -/
def placedAt (r : SymbolReader) (t : Token) : SymbolReader :=
  { r with lastLine := t.line, lastColumn := t.endIndex + 1 }

/-- A token is passed over, or it is read as the type of a result, or it gives no name a type. -/
theorem step_cases (r : SymbolReader) (t : Token) :
    (r.step t = r ∧ r.nameRead? t = none ∧ ∀ number name, r.typeAt? t number name = none) ∨
      (∃ header, t.kind.isType = true ∧ r.state.resultHeader? = some header ∧
        r.step t = { r.placedAt t with
          state := .returnType header
          scopes := r.scopes.setType header.declaredIn header.name t.lexeme }) ∨
      (Acts (r.placedAt t) t (r.step t) ∧ ∀ number name, r.typeAt? t number name = none) := by
  by_cases hsignificant : t.isSignificant = true
  · have hstep : r.step t = (r.placedAt t).read t := if_pos hsignificant
    by_cases hresult : t.kind.isType = true → r.state.resultHeader? = none
    · refine Or.inr (Or.inr ⟨hstep ▸ acts_read hresult, fun number name => if_neg fun hboth => ?_⟩)
      rw [hresult hboth.1] at hboth
      cases hboth.2
    · obtain ⟨htype, hsome⟩ := Classical.not_imp.mp hresult
      obtain ⟨header, hheader⟩ := Option.ne_none_iff_exists'.mp hsome
      have hread := read_of_resultHeader? (r := r.placedAt t) htype hheader
      exact Or.inr (Or.inl ⟨header, htype, hheader, hstep.trans hread⟩)
  · have hkind : t.kind ≠ .identifier := fun hkind => hsignificant (by
      rw [Token.isSignificant, hkind]
      rfl)
    refine Or.inl ⟨if_neg hsignificant, nameRead?_of_ne_identifier hkind,
      fun number name => if_neg fun hboth => hsignificant ?_⟩
    exact TokenKind.isSignificant_of_isType hboth.1

/-! ### What is kept -/

/-- What declarations keep is kept by a declaration or none. -/
theorem declareAny_keeps {P : ScopeTree → Prop}
    (hdeclare : ∀ {t t' : ScopeTree} {new : Declaration}, P t → t.declare new = .ok t' → P t')
    (h : P r.scopes) (new : Option Declaration) : P (r.declareAny new).scopes := by
  cases new with
  | none => exact h
  | some new =>
    simp only [declareAny, Option.elim_some]
    unfold declare
    split
    · next hd => exact hdeclare h hd
    · exact h
    · exact h

end SymbolReader

/-- The operations of a reader on its scopes keep a property of them, but for types. -/
structure ScopeTree.Kept (P : ScopeTree → Prop) : Prop where
  declare : ∀ {t t' : ScopeTree} {new : Declaration}, P t → t.declare new = .ok t' → P t'
  openScope : ∀ {t : ScopeTree} (name : String) (kind : ScopeKind), P t → P (t.openScope name kind)
  closeScope : ∀ {t t' : ScopeTree}, P t → t.closeScope = .ok t' → P t'

theorem ScopeTree.Kept.declareAny {P : ScopeTree → Prop} (hP : Kept P) {r : SymbolReader}
    (h : P r.scopes) (new : Option Declaration) : P (r.declareAny new).scopes :=
  SymbolReader.declareAny_keeps hP.declare h new

theorem ScopeTree.Kept.closeAt {P : ScopeTree → Prop} (hP : Kept P) {r : SymbolReader}
    (h : P r.scopes) (t : Token) : P (r.closeAt t).scopes := by
  unfold SymbolReader.closeAt
  split
  · next hc => exact hP.closeScope h hc
  · exact h

theorem ScopeTree.Kept.linked : Kept Linked where
  declare := by
    intro t t' new h hd
    rw [ScopeTree.eq_of_declare_eq_ok hd]
    exact h.modify (f := fun s => s.declare new) (fun _ => rfl) _
  openScope := fun name kind h => h.openScope name kind
  closeScope := fun h hc => h.closeScope hc

namespace SymbolReader

variable {r : SymbolReader} {t : Token} {header : FunctionHeader}

/-- What the operations keep is kept wherever no type of a result is read. -/
theorem Acts.keeps {P : ScopeTree → Prop} (hP : ScopeTree.Kept P) {r' : SymbolReader}
    (ha : Acts r t r') (h : P r.scopes) : P r'.scopes := by
  cases ha with
  | enter new _ _ _ => exact hP.declareAny h new
  | openScope new name kind _ => exact hP.openScope name kind (hP.declareAny h new)
  | openFunction => exact hP.openScope t.lexeme .function (hP.declareAny h (some _))
  | close new _ => exact hP.closeAt (hP.declareAny h new) t
  | lookUp new _ => exact (scopes_lookUp _ t).symm ▸ hP.declareAny h new

/-! ### Functions that are met -/

/-- A token names a function in the current scope. -/
def MeetsFunction (r : SymbolReader) (t : Token) (header : FunctionHeader) : Prop :=
  r.state = .functionName ∧ t.kind = .identifier ∧ header = ⟨r.scopes.cursor, t.lexeme⟩

theorem Acts.header? {r' : SymbolReader} (ha : Acts r t r') (h : r'.state.header? = some header) :
    r.state.header? = some header ∨ r.MeetsFunction t header := by
  cases ha with
  | enter new _ hnew =>
    rcases hnew with hnone | hsame
    · cases hnone.symm.trans h
    · exact Or.inl (hsame.symm.trans h)
  | openFunction hstate hkind => exact Or.inr ⟨hstate, hkind, (Option.some.inj h).symm⟩
  | openScope | close | lookUp => cases h

/-- The header of a function begins where the function is named. -/
theorem header?_step (h : (r.step t).state.header? = some header) :
    r.state.header? = some header ∨ r.MeetsFunction t header := by
  rcases step_cases r t with ⟨hstep, -⟩ | ⟨header', -, hheader', hstep⟩ | ⟨hacts, -⟩
  · exact Or.inl (hstep ▸ h)
  · rw [hstep] at h
    exact Or.inl ((ReadingState.header?_of_resultHeader? hheader').trans h)
  · exact hacts.header? h

/-! ### Nested headers -/

/-- A reader in the middle of a source: its scopes are linked, and the function whose header is read
was declared outside of the scope that the header has opened. -/
structure Nested (r : SymbolReader) : Prop where
  linked : r.scopes.Linked
  declaredIn_lt : ∀ header, r.state.header? = some header → header.declaredIn < r.scopes.cursor

theorem Acts.linked {r' : SymbolReader} (ha : Acts r t r') (h : r.scopes.Linked) :
    r'.scopes.Linked :=
  ha.keeps ScopeTree.Kept.linked h

theorem Acts.nested {r' : SymbolReader} (ha : Acts r t r') (h : r.Nested) : r'.Nested := by
  refine ⟨ha.linked h.linked, fun header hheader => ?_⟩
  cases ha with
  | enter new _ hnew =>
    rcases hnew with hnone | hsame
    · cases hnone.symm.trans hheader
    · have hlt := h.declaredIn_lt header (hsame.symm.trans hheader)
      exact Nat.lt_of_lt_of_eq hlt (cursor_declareAny r new).symm
  | openFunction =>
    cases hheader
    -- The scope of the function comes behind all others.
    have hlinked := ScopeTree.Kept.linked.declareAny h.linked
      (some ((PendingName.ofToken t).declaration .function none))
    exact cursor_declare r _ ▸ hlinked.cursor_lt
  | openScope | close | lookUp => cases hheader

theorem Nested.step (h : r.Nested) (t : Token) : (r.step t).Nested := by
  rcases step_cases r t with ⟨hstep, -⟩ | ⟨header', -, hheader', hstep⟩ | ⟨hacts, -⟩
  · rwa [hstep]
  · rw [hstep]
    refine ⟨h.linked.modify (fun s => s.parent_setType _ _) _, fun header hheader => ?_⟩
    exact h.declaredIn_lt header ((ReadingState.header?_of_resultHeader? hheader').trans hheader)
  · exact hacts.nested ⟨h.linked, h.declaredIn_lt⟩

theorem nested_foldl_step (tokens : List Token) (h : r.Nested) :
    (tokens.foldl SymbolReader.step r).Nested := by
  induction tokens generalizing r with
  | nil => exact h
  | cons t rest ih => exact ih (h.step t)

theorem nested_initial : initial.Nested :=
  ⟨.initial, fun _ hheader => by cases hheader⟩

end SymbolReader

end PredictiveFrontend
