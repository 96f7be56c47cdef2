import PredictiveFrontend.Scope.SymbolTable

/-!
# What a reader of symbols does with a token

Every token opens a scope or closes one or neither, and declares a name or none; a second
declaration of a name is noted instead. In plain code and in headers that are written properly the
state alone tells which of it happens. Between the name of a function and the brace of its body one
scope more is open than there are braces to close.
-/

namespace PredictiveFrontend

/-- The number of declarations in all scopes together. -/
def ScopeTree.declarationCount (t : ScopeTree) : Nat :=
  (t.scopes.flatMap Scope.declarations).length

namespace ScopeTree

/-- A change that makes the declarations of any scope more makes all of them more. -/
private theorem declarationCount_modify {f : Scope → Scope} {more : Nat}
    (hf : ∀ s, (f s).declarations.length = s.declarations.length + more) (t : ScopeTree)
    (number : Nat) :
    ({ t with scopes := t.scopes.modify number f } : ScopeTree).declarationCount =
      t.declarationCount + if number < t.size then more else 0 := by
  obtain ⟨scopes, cursor, outer⟩ := t
  simp only [declarationCount, size]
  induction scopes generalizing number with
  | nil => simp
  | cons s rest ih =>
    cases number with
    | zero =>
      simp only [List.modify_zero_cons, List.flatMap_cons, List.length_append, hf,
        List.length_cons, Nat.zero_lt_succ, if_true]
      omega
    | succ number =>
      simp only [List.modify_succ_cons, List.flatMap_cons, List.length_append, ih,
        List.length_cons, Nat.succ_lt_succ_iff, Nat.add_assoc]
      rfl

theorem declarationCount_declare (t : ScopeTree) (ht : t.cursor < t.size) (d : Declaration) :
    ({ t with scopes := t.scopes.modify t.cursor (·.declare d) } : ScopeTree).declarationCount =
      t.declarationCount + 1 := by
  have hone : ∀ s : Scope, (s.declare d).declarations.length = s.declarations.length + 1 :=
    fun s => List.length_append
  rw [declarationCount_modify hone, if_pos ht]

theorem declarationCount_setType (t : ScopeTree) (number : Nat) (name typeName : String) :
    (t.setType number name typeName).declarationCount = t.declarationCount := by
  have hsame : ∀ s : Scope, (s.setType name typeName).declarations.length =
      s.declarations.length + 0 := by
    intro s
    unfold Scope.setType
    split <;> simp
  rw [setType, declarationCount_modify hsame, ite_self, Nat.add_zero]

theorem declarationCount_openScope (t : ScopeTree) (name : String) (kind : ScopeKind) :
    (t.openScope name kind).declarationCount = t.declarationCount := by
  simp [declarationCount, openScope]

end ScopeTree

/-- A state of the reader without its data. -/
inductive ReadingPhase where
  | code
  | className
  | classHeader
  | functionName
  | parameterList
  | parameterName
  | parameterType
  | returnType
  | declarationName
  | declarationType
  deriving DecidableEq, Repr

namespace ReadingPhase

/-- Every phase. -/
def all : List ReadingPhase :=
  [.code, .className, .classHeader, .functionName, .parameterList, .parameterName, .parameterType,
   .returnType, .declarationName, .declarationType]

theorem mem_all (p : ReadingPhase) : p ∈ all := by
  cases p <;> decide

/-- How many scopes are open for which no brace was read. -/
def unbraced : ReadingPhase → Nat
  | .parameterList | .parameterName | .parameterType | .returnType => 1
  | _ => 0

/-- The phase behind a token and the number of names declared at it, in plain code and where a
header goes on as it should. -/
def next (p : ReadingPhase) (kind : TokenKind) : Option (ReadingPhase × Nat) :=
  match p with
  | .code =>
    match kind with
    | .classKeyword => some (.className, 0)
    | .funKeyword => some (.functionName, 0)
    | .valKeyword => some (.declarationName, 0)
    | .varKeyword => some (.declarationName, 0)
    | _ => some (.code, 0)
  | .className =>
    match kind with
    | .identifier => some (.classHeader, 1)
    | _ => none
  | .classHeader =>
    match kind with
    | .openCurly => some (.code, 0)
    | _ => none
  | .functionName =>
    match kind with
    | .identifier => some (.parameterList, 1)
    | _ => none
  | .parameterList =>
    match kind with
    | .openParen => some (.parameterName, 0)
    | _ => none
  | .parameterName =>
    match kind with
    | .identifier => some (.parameterType, 0)
    | .comma => some (.parameterName, 0)
    | .closeParen => some (.returnType, 0)
    | _ => none
  | .parameterType =>
    if kind.isType then some (.parameterName, 1)
    else
      match kind with
      | .colon => some (.parameterType, 0)
      | _ => none
  | .returnType =>
    if kind.isType then some (.returnType, 0)
    else
      match kind with
      | .colon => some (.returnType, 0)
      | .openCurly => some (.code, 0)
      | _ => none
  | .declarationName =>
    match kind with
    | .identifier => some (.declarationType, 0)
    | _ => none
  | .declarationType =>
    if kind.isType then some (.code, 1)
    else
      match kind with
      | .colon => some (.declarationType, 0)
      | _ => none

end ReadingPhase

/-- The phase of a state. -/
def ReadingState.phase : ReadingState → ReadingPhase
  | .code => .code
  | .className => .className
  | .classHeader _ => .classHeader
  | .functionName => .functionName
  | .parameterList _ => .parameterList
  | .parameterName _ => .parameterName
  | .parameterType _ _ => .parameterType
  | .returnType _ => .returnType
  | .declarationName _ => .declarationName
  | .declarationType _ _ => .declarationType

namespace SymbolReader

/-- A reader whose scopes are all there and that has not yet met a brace without its partner. -/
structure Sound (r : SymbolReader) : Prop where
  /-- The open scopes are scopes of the tree. -/
  lt_size : ∀ number ∈ r.scopes.openScopes, number < r.scopes.size
  /-- Names were noted, but no brace and no scope. -/
  kindName_mem : ∀ d ∈ r.diagnostics, d.kindName ∈ ["Unresolved", "Duplicate"]

/-- The names declared so far, those that were there already included. -/
def attempts (r : SymbolReader) : Nat :=
  r.scopes.declarationCount + r.diagnostics.countP (·.kindName == "Duplicate")

/-- From one reader to another, so many scopes were opened and closed and so many names declared. -/
structure Changes (r r' : SymbolReader) (opened closed declared : Nat) : Prop where
  sound : r'.Sound
  size_eq : r'.scopes.size = r.scopes.size + opened
  depth_eq : r'.scopes.outer.length + closed = r.scopes.outer.length + opened
  attempts_eq : r'.attempts = r.attempts + declared

variable {r : SymbolReader}

theorem Sound.initial : initial.Sound where
  lt_size := by decide
  kindName_mem := by decide

namespace Changes

variable {r' r'' : SymbolReader} {opened closed declared opened' closed' declared' : Nat}

theorem refl (hr : r.Sound) : Changes r r 0 0 0 :=
  ⟨hr, rfl, rfl, rfl⟩

theorem trans (h : Changes r r' opened closed declared)
    (h' : Changes r' r'' opened' closed' declared') :
    Changes r r'' (opened + opened') (closed + closed') (declared + declared') where
  sound := h'.sound
  size_eq := by rw [h'.size_eq, h.size_eq, Nat.add_assoc]
  depth_eq := by
    have hfirst := h.depth_eq
    have hsecond := h'.depth_eq
    omega
  attempts_eq := by rw [h'.attempts_eq, h.attempts_eq, Nat.add_assoc]

/-- The state does not matter. -/
theorem enter (h : Changes r r' opened closed declared) (state : ReadingState) :
    Changes r (r'.enter state) opened closed declared :=
  ⟨⟨h.sound.lt_size, h.sound.kindName_mem⟩, h.size_eq, h.depth_eq, h.attempts_eq⟩

/-- A note changes nothing but the number of second declarations. -/
theorem note (hr : r.Sound) (d : Diagnostic) (hd : d.kindName ∈ ["Unresolved", "Duplicate"]) :
    Changes r (r.note d) 0 0 (if d.kindName = "Duplicate" then 1 else 0) where
  sound := by
    refine ⟨hr.lt_size, fun e he => ?_⟩
    rcases List.mem_append.mp he with he | he
    · exact hr.kindName_mem e he
    · rw [List.mem_singleton.mp he]
      exact hd
  size_eq := rfl
  depth_eq := rfl
  attempts_eq := by
    simp only [attempts, SymbolReader.note, List.countP_append, List.countP_singleton, beq_iff_eq]
    exact (Nat.add_assoc ..).symm

theorem lookUp (hr : r.Sound) (t : Token) : Changes r (r.lookUp t) 0 0 0 := by
  unfold SymbolReader.lookUp
  split
  · exact refl hr
  · exact note hr (.unresolved t.lexeme t.line t.column) (.head _)

/-- A name is declared, or it is noted that it was there. -/
theorem declare (hr : r.Sound) (d : Declaration) : Changes r (r.declare d) 0 0 1 := by
  rw [SymbolReader.declare, ScopeTree.declare]
  cases r.scopes.current.find? d.name with
  | some previous => exact note hr (.duplicate _) (.tail _ (.head _))
  | none =>
    have hcursor := hr.lt_size r.scopes.cursor (List.mem_cons_self ..)
    refine ⟨⟨?_, hr.kindName_mem⟩, ?_, rfl, ?_⟩
    · simpa [ScopeTree.size, ScopeTree.openScopes] using hr.lt_size
    · simp [ScopeTree.size]
    · simp only [attempts, ScopeTree.declarationCount_declare r.scopes hcursor]
      exact Nat.add_right_comm ..

theorem openScope (hr : r.Sound) (name : String) (kind : ScopeKind) :
    Changes r (r.openScope name kind) 1 0 0 where
  sound := by
    refine ⟨fun number hnumber => ?_, hr.kindName_mem⟩
    have hsize : (r.openScope name kind).scopes.size = r.scopes.size + 1 :=
      List.length_append
    rw [hsize]
    rcases List.mem_cons.mp hnumber with rfl | hnumber
    · exact Nat.lt_succ_self _
    · exact Nat.lt_succ_of_lt (hr.lt_size number hnumber)
  size_eq := List.length_append
  depth_eq := rfl
  attempts_eq := by
    simp only [attempts, SymbolReader.openScope, ScopeTree.declarationCount_openScope]
    rfl

/-- The current scope is closed if it is not the global one. -/
theorem closeAt (hr : r.Sound) (hdepth : 0 < r.scopes.outer.length) (t : Token) :
    Changes r (r.closeAt t) 0 1 0 := by
  obtain ⟨parent, outer, houter⟩ :=
    List.exists_cons_of_ne_nil (List.ne_nil_of_length_pos hdepth)
  have hclose : r.closeAt t =
      { r with scopes := { r.scopes with cursor := parent, outer := outer } } := by
    simp only [SymbolReader.closeAt, ScopeTree.closeScope, houter]
  rw [hclose]
  refine ⟨⟨fun number hnumber => ?_, hr.kindName_mem⟩, rfl, ?_, rfl⟩
  · refine hr.lt_size number (List.mem_cons_of_mem _ ?_)
    rw [houter]
    exact hnumber
  · simp [houter]

/-- A type is not a declaration. -/
theorem setType (hr : r.Sound) (state : ReadingState) (number : Nat) (name typeName : String) :
    Changes r { r with state, scopes := r.scopes.setType number name typeName } 0 0 0 := by
  refine ⟨⟨?_, hr.kindName_mem⟩, ?_, rfl, ?_⟩
  · simpa [ScopeTree.setType, ScopeTree.size, ScopeTree.openScopes] using hr.lt_size
  · simp [ScopeTree.setType, ScopeTree.size]
  · simp only [attempts, ScopeTree.declarationCount_setType]
    rfl

end Changes

/-- From one reader to another, braces were read and names declared, and every scope was opened and
closed with a brace, apart from the scope of a function header. -/
structure Reads (r r' : SymbolReader) (opened closed declared : Nat) : Prop where
  sound : r'.Sound
  size_eq : r'.scopes.size + r.state.phase.unbraced =
    r.scopes.size + opened + r'.state.phase.unbraced
  depth_eq : r'.scopes.outer.length + closed + r.state.phase.unbraced =
    r.scopes.outer.length + opened + r'.state.phase.unbraced
  attempts_eq : r'.attempts = r.attempts + declared

namespace Reads

variable {r' r'' : SymbolReader} {opened closed declared opened' closed' declared' : Nat}

theorem refl (hr : r.Sound) : Reads r r 0 0 0 :=
  ⟨hr, rfl, rfl, rfl⟩

theorem trans (h : Reads r r' opened closed declared) (h' : Reads r' r'' opened' closed' declared') :
    Reads r r'' (opened + opened') (closed + closed') (declared + declared') where
  sound := h'.sound
  size_eq := by
    have hfirst := h.size_eq
    have hsecond := h'.size_eq
    omega
  depth_eq := by
    have hfirst := h.depth_eq
    have hsecond := h'.depth_eq
    omega
  attempts_eq := by rw [h'.attempts_eq, h.attempts_eq, Nat.add_assoc]

/-- What was opened is braces and the scopes of headers. -/
theorem of_changes {scopes : Nat} (h : Changes r r' scopes closed declared)
    (hscopes : scopes + r.state.phase.unbraced = opened + r'.state.phase.unbraced) :
    Reads r r' opened closed declared where
  sound := h.sound
  size_eq := by
    rw [h.size_eq]
    omega
  depth_eq := by
    have hdepth := h.depth_eq
    omega
  attempts_eq := h.attempts_eq

end Reads

/-- Behind a token the reader is in a phase, and it opened and closed what the token says. -/
structure GoesOn (r r' : SymbolReader) (kind : TokenKind) (phase : ReadingPhase) (declared : Nat) :
    Prop where
  phase_eq : r'.state.phase = phase
  reads : Reads r r' (kind == .openCurly).toNat (kind == .closeCurly).toNat declared

/-! ### Plain code -/

/-- In plain code every token leads to a phase, and none declares a name. -/
theorem next_code_eq (r : SymbolReader) (t : Token) :
    ReadingPhase.next .code t.kind = some ((r.readCode t).state.phase, 0) := by
  unfold readCode
  split
  · next hk => rw [hk]; rfl
  · next hk => rw [hk]; rfl
  · next hk => rw [hk]; rfl
  · next hk => rw [hk]; rfl
  · next hk => rw [hk]; rfl
  · next hk => rw [hk]; rfl
  · next hk => rw [hk]; rfl
  · next hclass hfun hval hvar _ _ _ => simp [ReadingPhase.next, enter, ReadingState.phase]

/-- In plain code braces open and close scopes. -/
theorem changes_readCode {t : Token} (hr : r.Sound)
    (hclose : t.kind = .closeCurly → 0 < r.scopes.outer.length) :
    Changes r (r.readCode t) (t.kind == .openCurly).toNat (t.kind == .closeCurly).toNat 0 := by
  unfold readCode
  split
  · next hk => rw [hk]; exact (Changes.refl hr).enter _
  · next hk => rw [hk]; exact (Changes.refl hr).enter _
  · next hk => rw [hk]; exact (Changes.refl hr).enter _
  · next hk => rw [hk]; exact (Changes.refl hr).enter _
  · next hk => rw [hk]; exact (Changes.openScope hr _ _).enter _
  · next hk => rw [hk]; exact (Changes.closeAt hr (hclose hk) t).enter _
  · next hk => rw [hk]; exact (Changes.lookUp hr t).enter _
  · next hopen hcurly _ =>
    rw [beq_false_of_ne hopen, beq_false_of_ne hcurly]
    exact (Changes.refl hr).enter _

theorem unbraced_readCode (r : SymbolReader) (t : Token) :
    (r.readCode t).state.phase.unbraced = 0 := by
  unfold readCode
  split <;> rfl

variable {t : Token} {phase : ReadingPhase} {declared : Nat}

theorem readCode_goesOn (hr : r.Sound) (hs : r.state = .code)
    (h : ReadingPhase.code.next t.kind = some (phase, declared))
    (hclose : t.kind = .closeCurly → 0 < r.scopes.outer.length) :
    GoesOn r (r.readCode t) t.kind phase declared := by
  rw [next_code_eq r t] at h
  cases h
  refine ⟨rfl, .of_changes (changes_readCode hr hclose) ?_⟩
  rw [unbraced_readCode, hs]
  rfl

/-! ### Headers -/

/-- A type is no brace. -/
private theorem toNat_eq_zero_of_isType {kind : TokenKind} (h : kind.isType = true) :
    (kind == .openCurly).toNat = 0 ∧ (kind == .closeCurly).toNat = 0 := by
  cases kind <;> first | exact ⟨rfl, rfl⟩ | cases h

private theorem reads_enter (hr : r.Sound) (state : ReadingState)
    (hunbraced : r.state.phase.unbraced = state.phase.unbraced) :
    Reads r (r.enter state) 0 0 0 :=
  .of_changes ((Changes.refl hr).enter state) (by rw [Nat.zero_add, Nat.zero_add]; exact hunbraced)

private theorem reads_declare (hr : r.Sound) (d : Declaration) (state : ReadingState)
    (hunbraced : r.state.phase.unbraced = state.phase.unbraced) :
    Reads r ((r.declare d).enter state) 0 0 1 :=
  .of_changes ((Changes.declare hr d).enter state)
    (by rw [Nat.zero_add, Nat.zero_add]; exact hunbraced)

/-- A name is declared at its type. -/
private theorem declare_goesOn_of_isType (hr : r.Sound) (htype : t.kind.isType = true)
    (d : Declaration) (state : ReadingState)
    (hunbraced : r.state.phase.unbraced = state.phase.unbraced) :
    GoesOn r ((r.declare d).enter state) t.kind state.phase 1 := by
  obtain ⟨hopen, hclose⟩ := toNat_eq_zero_of_isType htype
  refine ⟨rfl, ?_⟩
  rw [hopen, hclose]
  exact reads_declare hr d state hunbraced

/-- The name of a function is declared in front of the scope of the function. -/
theorem readFunctionName_goesOn (hr : r.Sound) (hs : r.state = .functionName)
    (hk : t.kind = .identifier) :
    GoesOn r (r.readFunctionName t) t.kind .parameterList 1 := by
  have hdeclare := Changes.declare hr ((PendingName.ofToken t).declaration .function none)
  have hopen := hdeclare.trans (.openScope hdeclare.sound t.lexeme .function)
  rw [hk]
  exact ⟨rfl, .of_changes (hopen.enter _) (by rw [hs]; rfl)⟩

/-- A type declares the parameter whose name was read. -/
theorem readParameterType_goesOn {header : FunctionHeader} {name : PendingName} (hr : r.Sound)
    (hs : r.state = .parameterType header name)
    (h : ReadingPhase.parameterType.next t.kind = some (phase, declared)) :
    GoesOn r (r.readParameterType header name t) t.kind phase declared := by
  simp only [ReadingPhase.next] at h
  simp only [readParameterType]
  split at h
  · next htype =>
    cases h
    rw [if_pos htype]
    exact declare_goesOn_of_isType hr htype _ _ (by rw [hs]; rfl)
  · next htype =>
    rw [if_neg htype]
    split at h
    · next hk =>
      cases h
      simp only [hk]
      exact ⟨by rw [hs]; rfl, .refl hr⟩
    · cases h

/-- A type is that of the function, and the brace of the body opens no scope. -/
theorem readReturnType_goesOn {header : FunctionHeader} (hr : r.Sound)
    (hs : r.state = .returnType header)
    (h : ReadingPhase.returnType.next t.kind = some (phase, declared)) :
    GoesOn r (r.readReturnType header t) t.kind phase declared := by
  simp only [ReadingPhase.next] at h
  simp only [readReturnType]
  split at h
  · next htype =>
    cases h
    obtain ⟨hopen, hclose⟩ := toNat_eq_zero_of_isType htype
    rw [if_pos htype]
    refine ⟨rfl, ?_⟩
    rw [hopen, hclose]
    exact .of_changes (.setType hr _ _ _ _) (by rw [hs])
  · next htype =>
    rw [if_neg htype]
    split at h
    · next hk =>
      cases h
      simp only [hk]
      exact ⟨rfl, reads_enter hr _ (by rw [hs])⟩
    · next hk =>
      cases h
      simp only [hk]
      exact ⟨rfl, .of_changes ((Changes.refl hr).enter _) (by rw [hs]; rfl)⟩
    · cases h

/-- A type declares the value whose name was read. -/
theorem readDeclarationType_goesOn {kind : DeclarationKind} {name : PendingName} (hr : r.Sound)
    (hs : r.state = .declarationType kind name)
    (h : ReadingPhase.declarationType.next t.kind = some (phase, declared)) :
    GoesOn r (r.readDeclarationType kind name t) t.kind phase declared := by
  simp only [ReadingPhase.next] at h
  simp only [readDeclarationType]
  split at h
  · next htype =>
    cases h
    rw [if_pos htype]
    exact declare_goesOn_of_isType hr htype _ _ (by rw [hs]; rfl)
  · next htype =>
    rw [if_neg htype]
    split at h
    · next hk =>
      cases h
      simp only [hk]
      exact ⟨by rw [hs]; rfl, .refl hr⟩
    · cases h

/-- A token where the reader goes on as it should. Closing braces close open scopes. -/
theorem read_goesOn (hr : r.Sound) (h : r.state.phase.next t.kind = some (phase, declared))
    (hclose : t.kind = .closeCurly → 0 < r.scopes.outer.length) :
    GoesOn r (r.read t) t.kind phase declared := by
  unfold read
  cases hs : r.state with
  | code =>
    rw [hs] at h
    exact readCode_goesOn hr hs h hclose
  | className =>
    simp only [hs, ReadingState.phase, ReadingPhase.next] at h
    split at h
    · next hk =>
      cases h
      simp only [hk]
      exact ⟨rfl, reads_declare hr _ _ (by rw [hs]; rfl)⟩
    · cases h
  | classHeader name =>
    simp only [hs, ReadingState.phase, ReadingPhase.next] at h
    split at h
    · next hk =>
      cases h
      simp only [hk]
      exact ⟨rfl, .of_changes ((Changes.openScope hr _ _).enter _) (by rw [hs]; rfl)⟩
    · cases h
  | functionName =>
    simp only [hs, ReadingState.phase, ReadingPhase.next] at h
    split at h
    · next hk =>
      cases h
      have hname := readFunctionName_goesOn hr hs hk
      simp only [hk] at hname ⊢
      exact hname
    · cases h
  | parameterList header =>
    simp only [hs, ReadingState.phase, ReadingPhase.next] at h
    split at h
    · next hk =>
      cases h
      simp only [hk]
      exact ⟨rfl, reads_enter hr _ (by rw [hs]; rfl)⟩
    · cases h
  | parameterName header =>
    simp only [hs, ReadingState.phase, ReadingPhase.next] at h
    split at h
    · next hk =>
      cases h
      simp only [hk]
      exact ⟨rfl, reads_enter hr _ (by rw [hs]; rfl)⟩
    · next hk =>
      cases h
      simp only [hk]
      exact ⟨by rw [hs]; rfl, .refl hr⟩
    · next hk =>
      cases h
      simp only [hk]
      exact ⟨rfl, reads_enter hr _ (by rw [hs]; rfl)⟩
    · cases h
  | parameterType header name =>
    rw [hs] at h
    exact readParameterType_goesOn hr hs h
  | returnType header =>
    rw [hs] at h
    exact readReturnType_goesOn hr hs h
  | declarationName kind =>
    simp only [hs, ReadingState.phase, ReadingPhase.next] at h
    split at h
    · next hk =>
      cases h
      simp only [hk]
      exact ⟨rfl, reads_enter hr _ (by rw [hs]; rfl)⟩
    · cases h
  | declarationType kind name =>
    rw [hs] at h
    exact readDeclarationType_goesOn hr hs h

end SymbolReader

end PredictiveFrontend
