import PredictiveFrontend.Proofs.Scope.Closing
import PredictiveFrontend.Proofs.Token.Position
import Mathlib.Data.List.Perm.Basic

/-!
# What becomes of a name

A token that is read as the name of a class or a function declares it at once. The name of a
parameter or a value waits for its type, and whatever token decides about the type declares the
name. So the names that were read are those that are declared, those that were refused, and the one
that still waits; a name that waits where the source ends is neither.
-/

namespace PredictiveFrontend

/-- The name that a diagnostic refuses to declare. -/
def Diagnostic.refused? : Diagnostic → Option PendingName
  | .duplicate e => some ⟨e.name, e.line, e.column⟩
  | _ => none

/-- The line and the column of a name. -/
def PendingName.place (p : PendingName) : Nat × Nat :=
  (p.line, p.column)

/-! ### Names in scopes -/

/-- The names declared in a scope. -/
def Scope.names (s : Scope) : List PendingName :=
  s.declarations.map Declaration.declaredName

theorem Scope.names_declare (s : Scope) (new : Declaration) :
    (s.declare new).names = s.names ++ [new.declaredName] :=
  List.map_append

/-- A type is not a name. -/
theorem Scope.names_setType (s : Scope) (name typeName : String) :
    (s.setType name typeName).names = s.names := by
  unfold setType
  split
  · next i _ =>
    refine List.ext_getElem? fun j => ?_
    simp only [names, List.getElem?_map, List.getElem?_modify]
    cases s.declarations[j]? with
    | none => rfl
    | some d => by_cases hij : i = j <;> simp [hij, Declaration.declaredName]
  · rfl

namespace ScopeTree

/-- The names declared in all scopes. -/
def names (t : ScopeTree) : List PendingName :=
  t.scopes.flatMap Scope.names

/-- What a change adds to any scope it adds to all of them together. -/
private theorem names_modify {f : Scope → Scope} {more : List PendingName}
    (hf : ∀ s, (f s).names = s.names ++ more) (scopes : List Scope) (number : Nat) :
    ((scopes.modify number f).flatMap Scope.names).Perm
      (scopes.flatMap Scope.names ++ if number < scopes.length then more else []) := by
  induction scopes generalizing number with
  | nil => simp
  | cons s rest ih =>
    cases number with
    | zero =>
      rw [List.modify_zero_cons, List.flatMap_cons, List.flatMap_cons, hf, List.append_assoc,
        List.append_assoc, List.length_cons, if_pos (Nat.zero_lt_succ _)]
      exact List.perm_append_comm.append_left _
    | succ number =>
      rw [List.modify_succ_cons, List.flatMap_cons, List.flatMap_cons, List.append_assoc,
        List.length_cons]
      simp only [Nat.succ_lt_succ_iff]
      exact (ih number).append_left _

theorem names_declare {t t' : ScopeTree} {new : Declaration} (h : t.cursor < t.size)
    (hd : t.declare new = .ok t') : t'.names.Perm (t.names ++ [new.declaredName]) := by
  rw [eq_of_declare_eq_ok hd]
  have hadded := names_modify (fun s => s.names_declare new) t.scopes t.cursor
  rwa [if_pos (show t.cursor < t.scopes.length from h)] at hadded

theorem names_openScope (t : ScopeTree) (name : String) (kind : ScopeKind) :
    (t.openScope name kind).names = t.names := by
  simp [names, openScope, Scope.names]

theorem names_setType (t : ScopeTree) (number : Nat) (name typeName : String) :
    (t.setType number name typeName).names.Perm t.names := by
  have hsame : ∀ s : Scope, (s.setType name typeName).names = s.names ++ [] := fun s =>
    (s.names_setType name typeName).trans (List.append_nil _).symm
  have hadded := names_modify hsame t.scopes number
  rwa [ite_self, List.append_nil] at hadded

end ScopeTree

namespace SymbolReader

variable {r : SymbolReader} {t : Token}

/-! ### Names that are settled -/

/-- The names that were declared and those that were refused. -/
def settled (r : SymbolReader) : List PendingName :=
  r.scopes.names ++ r.diagnostics.filterMap Diagnostic.refused?

/-- The names that were declared or refused, and the one that waits. -/
def accounted (r : SymbolReader) : List PendingName :=
  r.settled ++ r.state.waiting?.toList

/-- The names that tokens are read as, in order. -/
def namesRead (r : SymbolReader) : List Token → List PendingName
  | [] => []
  | t :: rest => (r.nameRead? t).toList ++ (r.step t).namesRead rest

/-- A name is declared, or refused where it was there. -/
theorem settled_declare (h : r.scopes.cursor < r.scopes.size) (new : Declaration) :
    (r.declare new).settled.Perm (r.settled ++ [new.declaredName]) := by
  unfold declare
  split
  · next hd =>
    have hnames := (ScopeTree.names_declare h hd).append_right
      (r.diagnostics.filterMap Diagnostic.refused?)
    refine hnames.trans ?_
    rw [settled, List.append_assoc, List.append_assoc]
    exact List.perm_append_comm.append_left _
  · next e he =>
    rw [ScopeTree.declare] at he
    split at he <;> cases he
    rw [settled, settled, note, List.filterMap_append, ← List.append_assoc]
    exact .refl _
  · next he =>
    rw [ScopeTree.declare] at he
    split at he <;> cases he

theorem settled_declareAny (h : r.scopes.cursor < r.scopes.size) (new : Option Declaration) :
    (r.declareAny new).settled.Perm
      (r.settled ++ (new.map Declaration.declaredName).toList) := by
  cases new with
  | none => exact .of_eq (List.append_nil _).symm
  | some new => exact settled_declare h new

theorem settled_openScope (r : SymbolReader) (name : String) (kind : ScopeKind) :
    (r.openScope name kind).settled = r.settled := by
  rw [settled, settled, openScope, ScopeTree.names_openScope]

/-- A note that refuses no name settles none. -/
theorem settled_note (r : SymbolReader) {d : Diagnostic} (hd : d.refused? = none) :
    (r.note d).settled = r.settled := by
  simp [settled, note, hd]

theorem settled_closeAt (r : SymbolReader) (t : Token) : (r.closeAt t).settled = r.settled := by
  unfold closeAt
  split
  · next hc =>
    rw [ScopeTree.closeScope] at hc
    split at hc <;> cases hc
    rfl
  · exact r.settled_note rfl

theorem settled_lookUp (r : SymbolReader) (t : Token) : (r.lookUp t).settled = r.settled := by
  unfold lookUp
  split
  · rfl
  · exact r.settled_note rfl

/-! ### Names are accounted for -/

/-- The name that was declared or refused is the one that waited or the one that was read. -/
theorem Settles.accounted {new : Option Declaration} {waiting : Option PendingName}
    (h : r.Settles t new waiting) {names : List PendingName}
    (hnames : names.Perm (r.settled ++ (new.map Declaration.declaredName).toList)) :
    (names ++ waiting.toList).Perm (r.accounted ++ (r.nameRead? t).toList) := by
  refine (hnames.append_right _).trans (.of_eq ?_)
  rw [List.append_assoc, h, SymbolReader.accounted, List.append_assoc]

theorem Acts.accounted {r' : SymbolReader} (ha : Acts r t r')
    (h : r.scopes.cursor < r.scopes.size) :
    r'.accounted.Perm (r.accounted ++ (r.nameRead? t).toList) := by
  cases ha with
  | enter new state _ hnew => exact hnew.accounted (settled_declareAny h new)
  | openScope new name kind hnew =>
    refine hnew.accounted ?_
    exact (settled_openScope _ name kind).symm ▸ settled_declareAny h new
  | openFunction hstate hkind =>
    have hexpects : r.state.expectsName = true := by rw [hstate]; rfl
    refine (settles_name hexpects hkind .function none).accounted ?_
    exact (settled_openScope _ t.lexeme .function).symm ▸ settled_declareAny h (some _)
  | close new hnew =>
    refine hnew.accounted ?_
    exact (settled_closeAt _ t).symm ▸ settled_declareAny h new
  | lookUp new hnew =>
    refine hnew.accounted ?_
    exact (settled_lookUp _ t).symm ▸ settled_declareAny h new

/-- With every token the name that it is read as is accounted for. -/
theorem accounted_step (h : r.scopes.Linked) (t : Token) :
    (r.step t).accounted.Perm (r.accounted ++ (r.nameRead? t).toList) := by
  rcases step_cases r t with ⟨hstep, hname, -⟩ | ⟨header, htype, hheader, hstep⟩ | ⟨hacts, -⟩
  · rw [hstep, hname]
    exact .of_eq (List.append_nil _).symm
  · have hname : r.nameRead? t = none := nameRead?_of_ne_identifier fun hkind => by
      rw [hkind] at htype
      cases htype
    have hsettled := (r.scopes.names_setType header.declaredIn header.name t.lexeme).append_right
      (r.diagnostics.filterMap Diagnostic.refused?)
    rw [hstep, accounted, accounted, ReadingState.waiting?_of_resultHeader? hheader, hname]
    simp only [Option.toList_none, List.append_nil]
    exact (hsettled.append_right []).trans (.of_eq (List.append_nil _))
  · exact hacts.accounted h.cursor_lt

/-- All names that are read are accounted for. -/
theorem accounted_foldl_step (h : r.Nested) (tokens : List Token) :
    (tokens.foldl step r).accounted.Perm (r.accounted ++ r.namesRead tokens) := by
  induction tokens generalizing r with
  | nil => exact .of_eq (List.append_nil _).symm
  | cons t rest ih =>
    refine (ih (h.step t)).trans ?_
    rw [namesRead, ← List.append_assoc]
    exact (accounted_step h.linked t).append_right _

/-! ### Names that wait -/

theorem waiting?_readCode (r : SymbolReader) (t : Token) :
    (r.readCode t).state.waiting? = none := by
  unfold readCode
  split <;> rfl

theorem waiting?_readReturnType (r : SymbolReader) (header : FunctionHeader) (t : Token) :
    (r.readReturnType header t).state.waiting? = none := by
  unfold readReturnType
  split
  · rfl
  · split
    · rfl
    · rfl
    · exact waiting?_readCode r t

/-- A name that waits is left waiting by a colon only, which does nothing else. -/
theorem read_of_waiting {name : PendingName} (h : r.state.waiting? = some name) :
    (t.kind = .colon → r.read t = r) ∧ (t.kind ≠ .colon → (r.read t).state.waiting? = none) := by
  cases hs : r.state with
  | parameterType header name =>
    have hread : r.read t = r.readParameterType header name t := by rw [read, hs]
    rw [hread, readParameterType]
    refine ⟨fun hkind => by simp [hkind, TokenKind.isType], fun hkind => ?_⟩
    split
    · rfl
    · simp only
      split
      · exact absurd ‹_› hkind
      · rfl
      · rfl
      · exact waiting?_readReturnType _ header t
  | declarationType kind name =>
    have hread : r.read t = r.readDeclarationType kind name t := by rw [read, hs]
    rw [hread, readDeclarationType]
    refine ⟨fun hkind => by simp [hkind, TokenKind.isType], fun hkind => ?_⟩
    split
    · rfl
    · split
      · exact absurd ‹_› hkind
      · exact waiting?_readCode _ t
  | _ =>
    rw [hs] at h
    cases h

theorem Acts.exists_settles {r' : SymbolReader} (ha : Acts r t r') :
    ∃ new, r.Settles t new r'.state.waiting? := by
  cases ha with
  | enter new state _ hnew => exact ⟨new, hnew⟩
  | openScope new name kind hnew => exact ⟨new, hnew⟩
  | openFunction hstate hkind =>
    exact ⟨_, settles_name (by rw [hstate]; rfl) hkind .function none⟩
  | close new hnew => exact ⟨new, hnew⟩
  | lookUp new hnew => exact ⟨new, hnew⟩

/-- A name that waits has waited before, at a colon or a token that is passed over, or it was read
just now. -/
theorem waiting?_step {name : PendingName} (h : (r.step t).state.waiting? = some name) :
    (r.state.waiting? = some name ∧ (t.isSignificant = true → t.kind = .colon)) ∨
      r.nameRead? t = some name := by
  by_cases hsignificant : t.isSignificant = true
  · cases hwaiting : r.state.waiting? with
    | some other =>
      rw [step, if_pos hsignificant] at h
      obtain ⟨hcolon, hother⟩ := read_of_waiting (r := r.placedAt t) (t := t) hwaiting
      by_cases hkind : t.kind = .colon
      · have hsame := hcolon hkind
        rw [placedAt] at hsame
        rw [hsame] at h
        exact Or.inl ⟨hwaiting.symm.trans h, fun _ => hkind⟩
      · cases (hother hkind).symm.trans h
    | none =>
      refine Or.inr ?_
      rcases step_cases r t with ⟨hstep, -, -⟩ | ⟨header, -, -, hstep⟩ | ⟨hacts, -⟩
      · rw [hstep, hwaiting] at h
        cases h
      · rw [hstep] at h
        cases h
      · obtain ⟨new, hnew⟩ := hacts.exists_settles
        have hmem : name ∈ (new.map Declaration.declaredName).toList ++
            (r.step t).state.waiting?.toList := by simp [h]
        have hwaiting' : (r.placedAt t).state.waiting? = none := hwaiting
        rw [hnew, hwaiting'] at hmem
        have hname : (r.placedAt t).nameRead? t = some name := by simpa using hmem
        exact hname
  · refine Or.inl ⟨?_, fun hs => absurd hs hsignificant⟩
    rwa [step, if_neg hsignificant] at h

/-- A name that waits at the end has waited from the start, behind nothing but colons and tokens
that are passed over, or it was read in between. -/
theorem waiting?_foldl_step {name : PendingName} {tokens : List Token}
    (h : (tokens.foldl step r).state.waiting? = some name) :
    (r.state.waiting? = some name ∧ ∀ t ∈ tokens, t.isSignificant = true → t.kind = .colon) ∨
      name ∈ r.namesRead tokens := by
  induction tokens generalizing r with
  | nil => exact Or.inl ⟨h, by simp⟩
  | cons t rest ih =>
    rw [namesRead, List.mem_append, Option.mem_toList]
    rcases ih h with ⟨hwaiting, hrest⟩ | hread
    · rcases waiting?_step hwaiting with ⟨hbefore, hcolon⟩ | hname
      · exact Or.inl ⟨hbefore, List.forall_mem_cons.mpr ⟨hcolon, hrest⟩⟩
      · exact Or.inr (Or.inl hname)
    · exact Or.inr (Or.inr hread)

/-- Behind nothing but colons and tokens that are passed over a name waits on. -/
theorem waiting?_foldl_step_of_colons {name : PendingName} {tokens : List Token}
    (h : r.state.waiting? = some name)
    (hcolons : ∀ t ∈ tokens, t.isSignificant = true → t.kind = .colon) :
    (tokens.foldl step r).state.waiting? = some name := by
  induction tokens generalizing r with
  | nil => exact h
  | cons t rest ih =>
    obtain ⟨hcolon, hrest⟩ := List.forall_mem_cons.mp hcolons
    refine ih ?_ hrest
    by_cases hsignificant : t.isSignificant = true
    · have hsame := (read_of_waiting (r := r.placedAt t) (t := t) h).1 (hcolon hsignificant)
      rw [placedAt] at hsame
      rw [step, if_pos hsignificant, hsame]
      exact h
    · rwa [step, if_neg hsignificant]

/-! ### Names and their places -/

theorem namesRead_append (r : SymbolReader) (front rest : List Token) :
    r.namesRead (front ++ rest) = r.namesRead front ++ (front.foldl step r).namesRead rest := by
  induction front generalizing r with
  | nil => rfl
  | cons t front ih => rw [List.cons_append, namesRead, namesRead, ih, List.append_assoc]; rfl

theorem namesRead_sublist (r : SymbolReader) (tokens : List Token) :
    (r.namesRead tokens).Sublist (tokens.map PendingName.ofToken) := by
  induction tokens generalizing r with
  | nil => exact .slnil
  | cons t rest ih =>
    rw [namesRead, List.map_cons, nameRead?]
    split
    · exact (ih _).cons_cons _
    · exact (ih _).cons _

/-- The names that are read in a source stand at different places. -/
theorem nodup_places_namesRead {source : String} {tokens : List Token}
    (h : Token.ofSource source = .ok tokens) (r : SymbolReader) :
    ((r.namesRead tokens).map PendingName.place).Nodup := by
  have hplaces : (tokens.map PendingName.ofToken).map PendingName.place = tokens.map Token.place :=
    List.map_map
  have hsublist := (r.namesRead_sublist tokens).map PendingName.place
  rw [hplaces] at hsublist
  exact (Token.nodup_places h).sublist hsublist

end SymbolReader

namespace SymbolTable

/-- The declarations of a name that stands at some place. -/
def declarationsOf (table : SymbolTable) (name : PendingName) : List Declaration :=
  (table.scopes.scopes.flatMap Scope.declarations).filter fun d => d.declaredName = name

/-- The diagnostics that refuse a second declaration at some place. -/
def refusalsAt (table : SymbolTable) (line column : Nat) : List Diagnostic :=
  table.diagnostics.filter fun e => e.kindName = "Duplicate" ∧ e.line = line ∧ e.column = column

theorem length_declarationsOf (table : SymbolTable) (name : PendingName) :
    (table.declarationsOf name).length = table.scopes.names.count name := by
  have hnames : table.scopes.names =
      (table.scopes.scopes.flatMap Scope.declarations).map Declaration.declaredName :=
    List.map_flatMap.symm
  rw [declarationsOf, hnames, List.count, List.countP_map, ← List.countP_eq_length_filter]
  refine List.countP_congr fun d _ => ?_
  simp

/-- The diagnostics at the end refuse no name. -/
theorem length_refusalsAt_finish {r : SymbolReader} (hlinked : r.scopes.Linked)
    (hrooted : r.scopes.Rooted) (line column : Nat) :
    (r.finish.refusalsAt line column).length =
      (r.diagnostics.filterMap Diagnostic.refused?).countP (·.place = (line, column)) := by
  have hunclosed : r.unclosed.filter (fun e =>
      e.kindName = "Duplicate" ∧ e.line = line ∧ e.column = column) = [] := by
    rw [List.filter_eq_nil_iff]
    intro e he
    obtain ⟨number, -, rfl⟩ := List.mem_map.mp he
    simp [Diagnostic.kindName]
  rw [refusalsAt, SymbolReader.finish_eq hlinked hrooted, List.filter_append, hunclosed,
    List.append_nil,
    ← List.countP_eq_length_filter, List.countP_filterMap]
  refine List.countP_congr fun e _ => ?_
  cases e <;> simp [Diagnostic.kindName, Diagnostic.refused?, Diagnostic.line, Diagnostic.column,
    PendingName.place]

end SymbolTable

namespace SymbolReader

/-- Of all names that are accounted for at the end of a source, only the name itself stands at its
place. -/
theorem countP_place_accounted {source : String} {before after : List Token} {t : Token}
    (h : Token.ofSource source = .ok (before ++ t :: after)) (hkind : t.kind = .identifier)
    (hexpects : (before.foldl step .initial).state.expectsName = true) :
    let accounted := ((before ++ t :: after).foldl step .initial).accounted
    accounted.countP (·.place = t.place) = 1 ∧
      ∀ name ∈ accounted, name.place = t.place → name = .ofToken t := by
  intro accounted
  have hread : accounted.Perm (initial.namesRead (before ++ t :: after)) :=
    accounted_foldl_step nested_initial _
  have hnodup := nodup_places_namesRead h .initial
  have hname : PendingName.ofToken t ∈ initial.namesRead (before ++ t :: after) := by
    rw [namesRead_append, namesRead, nameRead?_of_expectsName hexpects hkind]
    simp
  constructor
  · have hcount := List.count_eq_one_of_mem hnodup (List.mem_map_of_mem hname)
    rw [List.count, List.countP_map] at hcount
    rw [hread.countP_eq]
    refine Eq.trans (List.countP_congr fun p _ => ?_) hcount
    simp [PendingName.place, PendingName.ofToken, Token.place]
  · exact fun name hmem hplace =>
      List.inj_on_of_nodup_map hnodup (hread.mem_iff.mp hmem) hname hplace

/-- A token is read as a name that waits for its type, and behind it nothing but colons is read. -/
def LeavesWaiting (r : SymbolReader) (t : Token) (after : List Token) : Prop :=
  (r.step t).state.waiting? = some (.ofToken t) ∧
    ∀ u ∈ after, u.isSignificant = true → u.kind = .colon

instance (r : SymbolReader) (t : Token) (after : List Token) :
    Decidable (r.LeavesWaiting t after) :=
  inferInstanceAs (Decidable (_ ∧ _))

theorem waiting?_foldl_step_iff {source : String} {before after : List Token} {t : Token}
    (h : Token.ofSource source = .ok (before ++ t :: after)) :
    ((before ++ t :: after).foldl step .initial).state.waiting? = some (.ofToken t) ↔
      (before.foldl step .initial).LeavesWaiting t after := by
  rw [List.foldl_append, List.foldl_cons]
  constructor
  · intro hwaiting
    rcases waiting?_foldl_step hwaiting with hcolons | hlater
    · exact hcolons
    · -- A name that is read later stands at another place.
      have hplaces := Token.nodup_places h
      rw [List.map_append, List.map_cons] at hplaces
      have hmem := (namesRead_sublist _ after).subset hlater
      obtain ⟨u, hu, he⟩ := List.mem_map.mp hmem
      have hplace : u.place = t.place := congrArg PendingName.place he
      have hnot := (List.nodup_cons.mp hplaces.of_append_right).1
      exact absurd (hplace ▸ List.mem_map_of_mem hu) hnot
  · rintro ⟨hwaiting, hcolons⟩
    exact waiting?_foldl_step_of_colons hwaiting hcolons

end SymbolReader

namespace SymbolTable

/-- Where only one name is accounted for at its place, there is one declaration of it, or one
refusal, or it waits. -/
theorem length_declarationsOf_add {r : SymbolReader} {name : PendingName}
    (hlinked : r.scopes.Linked) (hrooted : r.scopes.Rooted)
    (hone : r.accounted.countP (·.place = name.place) = 1)
    (hsame : ∀ other ∈ r.accounted, other.place = name.place → other = name) :
    (r.finish.declarationsOf name).length + (r.finish.refusalsAt name.line name.column).length +
      (if r.state.waiting? = some name then 1 else 0) = 1 := by
  have hcount : ∀ names : List PendingName, (∀ other ∈ names, other ∈ r.accounted) →
      names.countP (·.place = name.place) = names.count name := by
    intro names hnames
    refine List.countP_congr fun other hmem => ?_
    simp only [decide_eq_true_eq, beq_iff_eq]
    exact ⟨hsame other (hnames other hmem), fun he => he ▸ rfl⟩
  have hwaiting : r.state.waiting?.toList.count name =
      if r.state.waiting? = some name then 1 else 0 := by
    cases r.state.waiting? with
    | none => simp
    | some other => simp [List.count_singleton]
  rw [SymbolReader.accounted, SymbolReader.settled, List.countP_append, List.countP_append] at hone
  rw [hcount r.scopes.names fun other hmem => by
      simp [SymbolReader.accounted, SymbolReader.settled, hmem],
    hcount r.state.waiting?.toList fun other hmem => by
      rw [SymbolReader.accounted]
      exact List.mem_append_right _ hmem, hwaiting] at hone
  have hnames : r.finish.scopes.names = r.scopes.names := by
    rw [ScopeTree.names, ScopeTree.names, SymbolReader.scopes_finish]
  rw [length_declarationsOf, length_refusalsAt_finish hlinked hrooted, hnames]
  exact hone

/-- A name that is read in a source is declared once or refused once, and not both, unless the
source ends while it waits for its type: then it is lost. -/
theorem names_accounted {source : String} {before after : List Token} {t : Token}
    (h : Token.ofSource source = .ok (before ++ t :: after)) (hkind : t.kind = .identifier)
    (hexpects : (before.foldl SymbolReader.step .initial).state.expectsName = true) :
    let r := before.foldl SymbolReader.step .initial
    let table := ofTokens (before ++ t :: after)
    let declared := table.declarationsOf (.ofToken t)
    let refused := table.refusalsAt t.line t.column
    (¬r.LeavesWaiting t after →
      ((∃ d, declared = [d]) ∧ refused = []) ∨ (declared = [] ∧ ∃ e, refused = [e])) ∧
    (r.LeavesWaiting t after → declared = [] ∧ refused = []) := by
  intro r table declared refused
  obtain ⟨hone, hsame⟩ := SymbolReader.countP_place_accounted h hkind hexpects
  have hsum : declared.length + refused.length +
      (if ((before ++ t :: after).foldl SymbolReader.step .initial).state.waiting? =
        some (.ofToken t) then 1 else 0) = 1 :=
    length_declarationsOf_add (SymbolReader.nested_foldl_step _ SymbolReader.nested_initial).linked
      (SymbolReader.rooted_foldl_step _ SymbolReader.rooted_initial) hone hsame
  have hwaiting := SymbolReader.waiting?_foldl_step_iff h
  constructor
  · intro hdecided
    rw [if_neg (hwaiting.not.mpr hdecided), Nat.add_zero] at hsum
    rcases Nat.add_eq_one_iff.mp hsum with ⟨hdeclared, hrefused⟩ | ⟨hdeclared, hrefused⟩
    · exact Or.inr ⟨List.eq_nil_of_length_eq_zero hdeclared, List.length_eq_one_iff.mp hrefused⟩
    · exact Or.inl ⟨List.length_eq_one_iff.mp hdeclared, List.eq_nil_of_length_eq_zero hrefused⟩
  · intro hleft
    rw [if_pos (hwaiting.mpr hleft)] at hsum
    constructor
    · exact List.eq_nil_of_length_eq_zero (by omega)
    · exact List.eq_nil_of_length_eq_zero (by omega)

/-- A parameter that has the name of another one is refused at the end of the parameters. -/
theorem names_accounted_parameter :
    ∃ before t after, Token.ofSource "fun f(a, a)" = .ok (before ++ t :: after) ∧
      t.kind = .identifier ∧
      (before.foldl SymbolReader.step .initial).state.expectsName = true ∧
      ¬(before.foldl SymbolReader.step .initial).LeavesWaiting t after ∧
      (ofTokens (before ++ t :: after)).declarationsOf (.ofToken t) = [] ∧
      ∃ e, (ofTokens (before ++ t :: after)).refusalsAt t.line t.column = [e] := by
  let before : List Token :=
    [⟨1, 1, 3, "fun", .funKeyword⟩, ⟨4, 1, 4, " ", .whiteSpace⟩, ⟨5, 1, 5, "f", .identifier⟩,
      ⟨6, 1, 6, "(", .openParen⟩, ⟨7, 1, 7, "a", .identifier⟩, ⟨8, 1, 8, ",", .comma⟩,
      ⟨9, 1, 9, " ", .whiteSpace⟩]
  let t : Token := ⟨10, 1, 10, "a", .identifier⟩
  let after : List Token := [⟨11, 1, 11, ")", .closeParen⟩]
  have hsource : Token.ofSource "fun f(a, a)" = .ok (before ++ t :: after) := by decide +kernel
  have hexpects : (before.foldl SymbolReader.step .initial).state.expectsName = true := by decide
  have hdecided : ¬(before.foldl SymbolReader.step .initial).LeavesWaiting t after := by decide
  have hnone : (ofTokens (before ++ t :: after)).declarationsOf (.ofToken t) = [] := by
    decide +kernel
  refine ⟨before, t, after, hsource, rfl, hexpects, hdecided, hnone, ?_⟩
  rcases (names_accounted hsource rfl hexpects).1 hdecided with ⟨⟨d, hd⟩, -⟩ | ⟨-, hrefused⟩
  · cases hnone.symm.trans hd
  · exact hrefused

/-- The name of a value at the end of a source is lost. -/
theorem trailing_name_lost :
    ∃ before t, Token.ofSource "val x" = .ok (before ++ [t]) ∧ t.kind = .identifier ∧
      (before.foldl SymbolReader.step .initial).state.expectsName = true ∧
      (ofTokens (before ++ [t])).declarationsOf (.ofToken t) = [] ∧
      (ofTokens (before ++ [t])).refusalsAt t.line t.column = [] := by
  refine ⟨[⟨1, 1, 3, "val", .valKeyword⟩, ⟨4, 1, 4, " ", .whiteSpace⟩],
    ⟨5, 1, 5, "x", .identifier⟩, ?_, rfl, rfl, ?_, ?_⟩
  · decide +kernel
  · decide +kernel
  · decide +kernel

end SymbolTable

end PredictiveFrontend
