import PredictiveFrontend.Proofs.Ownership.Partition
import PredictiveFrontend.Proofs.Scope.Agreement
import PredictiveFrontend.Proofs.Scope.Header

/-!
# Owners and scopes

Tokens are given to the owners that headers announce, and symbols are read into the scopes that
headers open. A class gets both at its brace, a function its scope already at its name and its owner
only at the brace of its body. Where headers are written properly nothing can come in between, so
owners and scopes of classes and functions go along with each other.
-/

namespace PredictiveFrontend

open Ownership

/-- The owner that a scope belongs to, if it is the scope of a class or a function. -/
def Scope.owner? (s : Scope) : Option Owner :=
  match s.kind with
  | .class_ => some ⟨.class_, s.name⟩
  | .function => some ⟨.function, s.name⟩
  | .global | .block => none

/-- The owners of the scopes, in the order of the scopes. -/
def ScopeTree.owners (t : ScopeTree) : List Owner :=
  t.scopes.filterMap Scope.owner?

namespace ReadingState

/-- What the header being read announces: the kind of its owner, and the name once it is read. -/
def announced? : ReadingState → Option (OwnerKind × Option String)
  | .className => some (.class_, none)
  | .classHeader name => some (.class_, some name)
  | .functionName => some (.function, none)
  | .parameterList header | .parameterName header | .parameterType header _
  | .returnType header => some (.function, some header.name)
  | .code | .declarationName _ | .declarationType _ _ => none

/-- The owner whose scope is open already, in front of its body. -/
def early (state : ReadingState) : List Owner :=
  (state.header?.map fun header => (⟨.function, header.name⟩ : Owner)).toList

theorem announced?_of_header? {state : ReadingState} {header : FunctionHeader}
    (h : state.header? = some header) : state.announced? = some (.function, some header.name) := by
  cases state <;> cases h <;> rfl

theorem early_of_announced? {state : ReadingState} (h : state.announced? = none) :
    state.early = [] := by
  cases state <;> first | rfl | cases h

theorem announced?_of_phase {state : ReadingState} (h : state.phase = .code) :
    state.announced? = none := by
  cases state <;> first | rfl | cases h

end ReadingState

/-- The kinds of tokens with which a header goes on as it should. -/
def ReadingPhase.GoesOnWith (kind : TokenKind) : ReadingPhase → Prop
  | .code => True
  | .className | .functionName | .declarationName => kind = .identifier
  | .classHeader => kind = .openCurly
  | .parameterList => kind = .openParen
  | .parameterName => kind = .identifier ∨ kind = .comma ∨ kind = .closeParen
  | .parameterType | .declarationType => kind.isType = true ∨ kind = .colon
  | .returnType => kind.isType = true ∨ kind = .colon ∨ kind = .openCurly

theorem ReadingPhase.goesOnWith_of_next {p : ReadingPhase} {kind : TokenKind}
    {result : ReadingPhase × Nat} (h : p.next kind = some result) : p.GoesOnWith kind := by
  cases p with
  | code => trivial
  | className | classHeader | functionName | parameterList | declarationName =>
    simp only [next] at h
    split at h
    · rfl
    · cases h
  | parameterName =>
    simp only [next] at h
    split at h
    · exact Or.inl rfl
    · exact Or.inr (Or.inl rfl)
    · exact Or.inr (Or.inr rfl)
    · cases h
  | parameterType | declarationType =>
    simp only [next] at h
    split at h
    · next htype => exact Or.inl htype
    · split at h
      · exact Or.inr rfl
      · cases h
  | returnType =>
    simp only [next] at h
    split at h
    · next htype => exact Or.inl htype
    · split at h
      · exact Or.inr (Or.inl rfl)
      · exact Or.inr (Or.inr rfl)
      · cases h

/-- A type is neither a brace nor the keyword of a class or a function. -/
theorem TokenKind.ne_of_isType {kind : TokenKind} (h : kind.isType = true) :
    kind ≠ .openCurly ∧ kind ≠ .closeCurly ∧ kind ≠ .classKeyword ∧ kind ≠ .funKeyword := by
  refine ⟨?_, ?_, ?_, ?_⟩ <;> rintro rfl <;> cases h

/-! ### What scopes keep -/

namespace ScopeTree

/-- A change that leaves the name and the kind of every scope leaves the owners. -/
theorem owners_modify {f : Scope → Scope} (hname : ∀ s, (f s).name = s.name)
    (hkind : ∀ s, (f s).kind = s.kind) (t : ScopeTree) (number : Nat) :
    ({ t with scopes := t.scopes.modify number f } : ScopeTree).owners = t.owners := by
  have hf : ∀ s, (f s).owner? = s.owner? := fun s => by
    rw [Scope.owner?, Scope.owner?, hname, hkind]
  obtain ⟨scopes, cursor, outer⟩ := t
  simp only [owners]
  induction scopes generalizing number with
  | nil => rw [List.modify_nil]
  | cons s rest ih =>
    cases number with
    | zero => rw [List.modify_zero_cons, List.filterMap_cons, List.filterMap_cons, hf]
    | succ number => rw [List.modify_succ_cons, List.filterMap_cons, List.filterMap_cons, ih]

theorem owners_setType (t : ScopeTree) (number : Nat) (name typeName : String) :
    (t.setType number name typeName).owners = t.owners :=
  t.owners_modify (fun s => s.name_setType _ _) (fun s => s.kind_setType _ _) number

theorem owners_openScope (t : ScopeTree) (name : String) (kind : ScopeKind) :
    (t.openScope name kind).owners =
      t.owners ++ (Scope.owner? ⟨name, kind, some t.cursor, []⟩).toList := by
  rw [owners, openScope, List.filterMap_append]
  cases kind <;> rfl

end ScopeTree

namespace SymbolReader

variable {r : SymbolReader}

theorem owners_declare (r : SymbolReader) (d : Declaration) :
    (r.declare d).scopes.owners = r.scopes.owners := by
  unfold declare
  split
  · next scopes hd =>
    rw [ScopeTree.eq_of_declare_eq_ok hd]
    exact r.scopes.owners_modify (f := fun s => s.declare d) (fun _ => rfl) (fun _ => rfl) _
  · rfl
  · rfl

theorem owners_closeAt (r : SymbolReader) (t : Token) :
    (r.closeAt t).scopes.owners = r.scopes.owners := by
  unfold closeAt
  split
  · next scopes hc =>
    rw [ScopeTree.closeScope] at hc
    split at hc
    · cases hc
    · cases hc
      rfl
  · rfl

theorem owners_lookUp (r : SymbolReader) (t : Token) :
    (r.lookUp t).scopes.owners = r.scopes.owners := by
  rw [scopes_lookUp]

end SymbolReader

/-! ### What assigning keeps -/

namespace Ownership.State

variable {s : State} {t : Token}

theorem owners_close (s : State) (t : Token) : (s.close t).owners = s.owners := by
  unfold close
  split <;> rfl

/-- Outside of headers only the keywords of classes and functions begin one, and no token announces
an owner. -/
theorem readCode_keeps (s : State) (hclass : t.kind ≠ .classKeyword) (hfun : t.kind ≠ .funKeyword) :
    (s.readCode t).header = s.header ∧ (s.readCode t).owners = s.owners := by
  unfold readCode
  split
  · next hk => exact absurd hk hclass
  · next hk => exact absurd hk hfun
  · exact ⟨rfl, rfl⟩
  · exact ⟨s.header_close t, s.owners_close t⟩
  · exact ⟨rfl, rfl⟩

/-- A header goes on until a brace. -/
theorem readHeader_eq_push {header : Header} (hopen : t.kind ≠ .openCurly)
    (hclose : t.kind ≠ .closeCurly) :
    s.readHeader header t = { s with header := some (header.push t) } := by
  unfold readHeader
  split
  · next hk => exact absurd hk hopen
  · next hk => exact absurd hk hclose
  · rfl

/-- At the end of a header with a body its owner comes last. -/
theorem readHeader_openCurly (s : State) (header : Header) (hk : t.kind = .openCurly) :
    (s.readHeader header t).header = none ∧
      (s.readHeader header t).owners = s.owners ++ [header.owner] := by
  rw [readHeader, hk]
  exact ⟨rfl, rfl⟩

end Ownership.State

/-! ### Steps -/

/-- Owners and scopes go along with each other: the header held back announces what the reader has
read of it, and there are scopes for all owners, and one more within the header of a function. -/
structure Mirrors (s : State) (r : SymbolReader) : Prop where
  announced : s.header.map (fun h => (h.kind, h.name)) = r.state.announced?
  owners_eq : s.owners ++ r.state.early = .topLevel :: r.scopes.owners

namespace Mirrors

variable {s : State} {r r' : SymbolReader} {t : Token}

theorem initial : Mirrors .initial .initial :=
  ⟨rfl, rfl⟩

theorem header_eq_none (h : Mirrors s r) (hcode : r.state.announced? = none) : s.header = none := by
  have hheader := h.announced
  rwa [hcode, Option.map_eq_none_iff] at hheader

theorem exists_header (h : Mirrors s r) {kind : OwnerKind} {name : Option String}
    (hannounced : r.state.announced? = some (kind, name)) :
    ∃ header, s.header = some header ∧ header.kind = kind ∧ header.name = name := by
  have hheader := h.announced
  rw [hannounced, Option.map_eq_some_iff] at hheader
  obtain ⟨header, hs, he⟩ := hheader
  cases he
  exact ⟨header, hs, rfl, rfl⟩

/-- Outside of headers there is exactly a scope for every owner. -/
theorem owners_of_code (h : Mirrors s r) (hcode : r.state.announced? = none) :
    s.owners = .topLevel :: r.scopes.owners := by
  have howners := h.owners_eq
  rwa [ReadingState.early_of_announced? hcode, List.append_nil] at howners

/-- Outside of headers a token that begins none is read by both. -/
theorem keep (h : Mirrors s r) (hcode : r.state.announced? = none)
    (hclass : t.kind ≠ .classKeyword) (hfun : t.kind ≠ .funKeyword)
    (hcode' : r'.state.announced? = none) (howners : r'.scopes.owners = r.scopes.owners) :
    Mirrors (s.read t) r' := by
  have hs := h.header_eq_none hcode
  have hread : s.read t = s.readCode t := by rw [State.read, hs]
  obtain ⟨hheader, hsame⟩ := s.readCode_keeps hclass hfun
  refine ⟨?_, ?_⟩
  · rw [hread, hheader, hs, hcode']
    rfl
  · rw [hread, hsame, ReadingState.early_of_announced? hcode', List.append_nil, howners,
      h.owners_of_code hcode]

/-- A keyword begins a header for both. -/
theorem startHeader (h : Mirrors s r) (hcode : r.state.announced? = none) {kind : OwnerKind}
    (tokens : List Token) (hread : s.readCode t = { s with header := some ⟨kind, none, tokens⟩ })
    (hannounced : r'.state.announced? = some (kind, none)) (hearly : r'.state.early = [])
    (howners : r'.scopes.owners = r.scopes.owners) : Mirrors (s.read t) r' := by
  have hs := h.header_eq_none hcode
  rw [State.read, hs]
  refine ⟨?_, ?_⟩
  · simp only [hread]
    exact hannounced.symm
  · simp only [hread]
    rw [hearly, howners, List.append_nil, h.owners_of_code hcode]

/-- Within a header a token that is no brace is read by both. If a scope is opened at it, it is that
of an owner to come. -/
theorem goOn (h : Mirrors s r) (more : List Owner) {kind : OwnerKind} {name : Option String}
    (hannounced : r.state.announced? = some (kind, name)) (hopen : t.kind ≠ .openCurly)
    (hclose : t.kind ≠ .closeCurly)
    (hannounced' : r'.state.announced? =
      some (kind, name.or (if t.kind = .identifier then some t.lexeme else none)))
    (hearly : r'.state.early = r.state.early ++ more)
    (howners : r'.scopes.owners = r.scopes.owners ++ more) : Mirrors (s.read t) r' := by
  obtain ⟨header, hs, rfl, rfl⟩ := h.exists_header hannounced
  rw [State.read, hs]
  simp only [State.readHeader_eq_push hopen hclose]
  refine ⟨hannounced'.symm, ?_⟩
  rw [hearly, howners, ← List.append_assoc, h.owners_eq, List.cons_append]

/-- The header of a function goes on behind its name. -/
theorem stay (h : Mirrors s r) {header : FunctionHeader} (hheader : r.state.header? = some header)
    (hopen : t.kind ≠ .openCurly) (hclose : t.kind ≠ .closeCurly)
    (hheader' : r'.state.header? = some header) (howners : r'.scopes.owners = r.scopes.owners) :
    Mirrors (s.read t) r' := by
  refine h.goOn [] (ReadingState.announced?_of_header? hheader) hopen hclose
    (ReadingState.announced?_of_header? hheader') ?_ ?_
  · rw [ReadingState.early, ReadingState.early, hheader, hheader', List.append_nil]
  · rw [howners, List.append_nil]

/-- The brace of a body ends the header for both. -/
theorem openBody (h : Mirrors s r) (more : List Owner) {kind : OwnerKind} {name : String}
    (hannounced : r.state.announced? = some (kind, some name)) (hk : t.kind = .openCurly)
    (hcode' : r'.state.announced? = none)
    (hmore : r.state.early ++ more = [⟨kind, name⟩])
    (howners : r'.scopes.owners = r.scopes.owners ++ more) : Mirrors (s.read t) r' := by
  obtain ⟨header, hs, rfl, hname⟩ := h.exists_header hannounced
  obtain ⟨hnone, hsame⟩ := s.readHeader_openCurly header hk
  have howner : header.owner = ⟨header.kind, name⟩ := by
    rw [Header.owner, hname]
    rfl
  rw [State.read, hs]
  refine ⟨?_, ?_⟩
  · simp only [hnone]
    exact hcode'.symm
  · simp only [hsame]
    rw [ReadingState.early_of_announced? hcode', List.append_nil, howner, ← hmore,
      ← List.append_assoc, h.owners_eq, howners, List.cons_append]

/-- Plain code is read by both. -/
theorem readCode (h : Mirrors s r) (hcode : r.state.announced? = none) :
    Mirrors (s.read t) (r.readCode t) := by
  have hs := h.header_eq_none hcode
  unfold SymbolReader.readCode
  split
  · next hk =>
    exact h.startHeader hcode [t] (by rw [State.readCode, hk]) rfl rfl rfl
  · next hk =>
    exact h.startHeader hcode [t] (by rw [State.readCode, hk]) rfl rfl rfl
  · next hk => exact h.keep hcode (by simp [hk]) (by simp [hk]) rfl rfl
  · next hk => exact h.keep hcode (by simp [hk]) (by simp [hk]) rfl rfl
  · next hk =>
    refine h.keep hcode (by simp [hk]) (by simp [hk]) rfl ?_
    exact (r.scopes.owners_openScope "block" .block).trans (List.append_nil _)
  · next hk => exact h.keep hcode (by simp [hk]) (by simp [hk]) rfl (r.owners_closeAt t)
  · next hk => exact h.keep hcode (by simp [hk]) (by simp [hk]) rfl (r.owners_lookUp t)
  · next hclass hfun _ _ _ _ _ => exact h.keep hcode hclass hfun rfl rfl

/-- Where a header goes on as it should, owners and scopes go along. -/
theorem read (h : Mirrors s r) {result : ReadingPhase × Nat}
    (hnext : r.state.phase.next t.kind = some result) : Mirrors (s.read t) (r.read t) := by
  have hkind := ReadingPhase.goesOnWith_of_next hnext
  unfold SymbolReader.read
  cases hs : r.state with
  | code => exact h.readCode (by rw [hs]; rfl)
  | className =>
    have hk : t.kind = .identifier := by rwa [hs] at hkind
    simp only [hk]
    refine h.goOn [] (by rw [hs]; rfl) (by simp [hk]) (by simp [hk]) ?_ ?_ ?_
    · rw [if_pos hk]
      rfl
    · rw [hs]
      rfl
    · exact (r.owners_declare _).trans (List.append_nil _).symm
  | classHeader name =>
    have hk : t.kind = .openCurly := by rwa [hs] at hkind
    simp only [hk]
    refine h.openBody [⟨.class_, name⟩] (by rw [hs]; rfl) hk rfl ?_ ?_
    · rw [hs]
      rfl
    · exact r.scopes.owners_openScope name .class_
  | functionName =>
    have hk : t.kind = .identifier := by rwa [hs] at hkind
    simp only [hk]
    refine h.goOn [⟨.function, t.lexeme⟩] (by rw [hs]; rfl) (by simp [hk]) (by simp [hk]) ?_ ?_ ?_
    · rw [if_pos hk]
      rfl
    · rw [hs]
      rfl
    · exact (ScopeTree.owners_openScope _ t.lexeme .function).trans
        (congrArg (· ++ _) (r.owners_declare _))
  | parameterList header =>
    have hheader : r.state.header? = some header := by rw [hs]; rfl
    have hk : t.kind = .openParen := by rwa [hs] at hkind
    simp only [hk]
    exact h.stay hheader (by simp [hk]) (by simp [hk]) rfl rfl
  | parameterName header =>
    have hheader : r.state.header? = some header := by rw [hs]; rfl
    rw [hs] at hkind
    rcases hkind with hk | hk | hk
    · simp only [hk]
      exact h.stay hheader (by simp [hk]) (by simp [hk]) rfl rfl
    · simp only [hk]
      exact h.stay hheader (by simp [hk]) (by simp [hk]) hheader rfl
    · simp only [hk]
      exact h.stay hheader (by simp [hk]) (by simp [hk]) rfl rfl
  | parameterType header name =>
    have hheader : r.state.header? = some header := by rw [hs]; rfl
    rw [hs] at hkind
    simp only [SymbolReader.readParameterType]
    rcases hkind with htype | hk
    · obtain ⟨hopen, hclose, -, -⟩ := TokenKind.ne_of_isType htype
      rw [if_pos htype]
      exact h.stay hheader hopen hclose rfl (r.owners_declare _)
    · rw [if_neg (by rw [hk]; decide)]
      simp only [hk]
      exact h.stay hheader (by simp [hk]) (by simp [hk]) hheader rfl
  | returnType header =>
    have hheader : r.state.header? = some header := by rw [hs]; rfl
    rw [hs] at hkind
    simp only [SymbolReader.readReturnType]
    rcases hkind with htype | hk | hk
    · obtain ⟨hopen, hclose, -, -⟩ := TokenKind.ne_of_isType htype
      rw [if_pos htype]
      exact h.stay hheader hopen hclose rfl (r.scopes.owners_setType _ _ _)
    · rw [if_neg (by rw [hk]; decide)]
      simp only [hk]
      exact h.stay hheader (by simp [hk]) (by simp [hk]) rfl rfl
    · rw [if_neg (by rw [hk]; decide)]
      simp only [hk]
      refine h.openBody [] (ReadingState.announced?_of_header? hheader) hk rfl ?_ ?_
      · rw [ReadingState.early, hheader]
        rfl
      · exact (List.append_nil _).symm
  | declarationName kind =>
    have hk : t.kind = .identifier := by rwa [hs] at hkind
    simp only [hk]
    exact h.keep (by rw [hs]; rfl) (by simp [hk]) (by simp [hk]) rfl rfl
  | declarationType kind name =>
    have hcode : r.state.announced? = none := by rw [hs]; rfl
    rw [hs] at hkind
    simp only [SymbolReader.readDeclarationType]
    rcases hkind with htype | hk
    · obtain ⟨-, -, hclass, hfun⟩ := TokenKind.ne_of_isType htype
      rw [if_pos htype]
      exact h.keep hcode hclass hfun rfl (r.owners_declare _)
    · rw [if_neg (by rw [hk]; decide)]
      simp only [hk]
      exact h.keep hcode (by simp [hk]) (by simp [hk]) hcode rfl

/-- Tokens that are read as forecast lead both from one place to another. -/
theorem foldl_read {tokens : List Token} {f f' : Forecast} (h : Mirrors s r) (hr : r.Sound)
    (hf : r.Follows f) (hsignificant : ∀ t ∈ tokens, t.isSignificant = true)
    (hafter : f.afterTokens tokens = some f') :
    Mirrors (tokens.foldl State.read s) (tokens.foldl SymbolReader.step r) := by
  induction tokens generalizing s r f with
  | nil => exact h
  | cons t tokens ih =>
    obtain ⟨ht, hsignificant⟩ := List.forall_mem_cons.mp hsignificant
    obtain ⟨middle, hmiddle, hrest⟩ := Forecast.afterTokens_cons.mp hafter
    obtain ⟨hbehind, _, -, hreads⟩ := SymbolReader.step_of_terminal hr hf ht hmiddle
    rw [List.foldl_cons, List.foldl_cons]
    refine ih ?_ hreads.sound hbehind hsignificant hrest
    simp only [Forecast.terminal, Option.bind_eq_some_iff, ← hf.phase_eq] at hmiddle
    obtain ⟨result, hnext, -⟩ := hmiddle
    have hplaced : Mirrors s { r with lastLine := t.line, lastColumn := t.endIndex + 1 } :=
      ⟨h.announced, h.owners_eq⟩
    rw [SymbolReader.step, if_pos ht]
    exact hplaced.read hnext

end Mirrors

namespace Partition

/-- Every owner has its partition. -/
theorem map_owner_partitions (s : State) : s.partitions.map owner = s.owners := by
  rw [State.partitions, List.map_map]
  exact List.zipIdx_map_fst 0 s.owners

/-- The partitions of a program that the strict parse accepts are the top level and one for every
scope of a class or a function, of the same kind and name and in the same order. -/
theorem owners_agree_with_scopes {source : String} {tokens : List Token} {g : CompiledGrammar}
    {d : Derivation} (htokens : Token.ofSource source = .ok tokens)
    (hg : bundledGrammar {} = .ok g) (hparse : g.parse ⟨true, {}⟩ tokens = .ok d) :
    (ofTokens tokens).map owner =
      Owner.topLevel :: (SymbolTable.ofTokens tokens).scopes.scopes.filterMap Scope.owner? := by
  obtain ⟨word, rules, hspells, hunfolds, -⟩ :=
    CompiledGrammar.exists_unfolds_of_parse (CompiledGrammar.compiledBy_of_ofText hg) (by decide)
      hparse
  have hforecast : (⟨.code, 0, 0⟩ : Forecast).afterAll ([g.start].map g.name) =
      some ⟨.code, 0, 0⟩ := by
    rw [List.map_singleton, (eq_of_bundledGrammar hg).2.2]
    decide +kernel
  have hsignificant : ∀ t ∈ Token.significant tokens, t.isSignificant = true :=
    fun t ht => (List.mem_filter.mp ht).2
  have hafter := Forecast.afterTokens_of_unfolds hg hunfolds hspells hsignificant
    (fun t ht => Token.exists_recognize_of_mem htokens (List.mem_filter.mp ht).1
      (hsignificant t ht)) hforecast
  have hinitial : SymbolReader.initial.Follows ⟨.code, 0, 0⟩ := ⟨rfl, rfl⟩
  obtain ⟨hfollows, -⟩ :=
    SymbolReader.readsAlong_of_afterTokens .initial hinitial hsignificant hafter
  have hmirrors := Mirrors.initial.foldl_read .initial hinitial hsignificant hafter
  rw [ofTokens, SymbolTable.ofTokens, ← SymbolReader.foldl_step_significant]
  generalize (Token.significant tokens).foldl State.read .initial = s at hmirrors
  generalize (Token.significant tokens).foldl SymbolReader.step .initial = r at hmirrors hfollows
  -- No header is left open.
  have hcode : r.state.announced? = none := ReadingState.announced?_of_phase hfollows.phase_eq
  rw [State.giveBack, hmirrors.header_eq_none hcode, map_owner_partitions,
    hmirrors.owners_of_code hcode, SymbolReader.scopes_finish]
  rfl

/-- A class with a function, and a block in it that owns nothing. -/
theorem owners_agree_with_scopes_nested :
    ∃ tokens g d, Token.ofSource "class C \x7b fun f(): Char \x7b \x7b \x7d \x7d \x7d" =
        .ok tokens ∧
      bundledGrammar {} = .ok g ∧ g.parse ⟨true, {}⟩ tokens = .ok d ∧
      (ofTokens tokens).map owner =
        Owner.topLevel :: (SymbolTable.ofTokens tokens).scopes.scopes.filterMap Scope.owner? ∧
      (ofTokens tokens).map owner = [.topLevel, ⟨.class_, "C"⟩, ⟨.function, "f"⟩] := by
  have hrun : (Grammar.ofProductions bundledSyntax).map (fun grammar =>
      (grammar.deriveLeftmost? [grammar.start]
          [0, 2, 5, 6, 9, 10, 2, 5, 7, 12, 14, 18, 21, 30, 31, 37, 30, 32, 32, 11, 1],
        (Token.ofSource "class C \x7b fun f(): Char \x7b \x7b \x7d \x7d \x7d").map
          fun tokens => (CompiledGrammar.inputOf ⟨grammar, grammar.first, grammar.first, default⟩ {}
            (Token.significant tokens), (ofTokens tokens).map owner))) =
      .ok (some [11, 12, 13, 16, 12, 17, 19, 25, 28, 13, 13, 15, 15, 15],
        .ok (.ok [11, 12, 13, 16, 12, 17, 19, 25, 28, 13, 13, 15, 15, 15, Code.endOfInput],
          [.topLevel, ⟨.class_, "C"⟩, ⟨.function, "f"⟩])) := by
    decide +kernel
  obtain ⟨g, hg⟩ := exists_bundledGrammar
  rw [ofProductions_of_bundledGrammar hg] at hrun
  obtain ⟨hderive, hscan⟩ := Prod.mk.inj (Except.ok.inj hrun)
  obtain ⟨tokens, htokens, hread⟩ := map_eq_ok.mp hscan
  obtain ⟨hinput, howners⟩ := Prod.mk.inj hread
  obtain ⟨word, hword, he⟩ := CompiledGrammar.inputOf_eq_ok.mp hinput
  obtain rfl : [11, 12, 13, 16, 12, 17, 19, 25, 28, 13, 13, 15, 15, 15] = word :=
    List.append_cancel_right he
  -- What a word spells depends on the symbols of the grammar only.
  have hspells : g.Spells {} (Token.significant tokens) _ := hword
  obtain ⟨d, hparse, -⟩ := CompiledGrammar.exists_parse_of_deriveLeftmost?
    (CompiledGrammar.compiledBy_of_ofText hg) hspells (by decide) hderive
  exact ⟨tokens, g, d, htokens, hg, hparse, owners_agree_with_scopes htokens hg hparse, howners⟩

end Partition

end PredictiveFrontend
