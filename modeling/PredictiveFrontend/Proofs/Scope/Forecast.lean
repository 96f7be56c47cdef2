import PredictiveFrontend.Proofs.Scope.Reader
import PredictiveFrontend.Proofs.Token.Terminal

/-!
# What symbols tell about a reader of their tokens

Where a derivation has only symbols yet, the phase of a reader can be forecast from them, together
with the braces that it has still to close and the names that it declares. A nonterminal of the
bundled grammar leads from one phase to another whichever of its rules is applied, and the forecast
of a rule differs from that of its left side by the name that the rule declares.
-/

namespace PredictiveFrontend

namespace ReadingPhase

/-- The phase behind the tokens of a nonterminal, and how many names are declared at them that no
rule for the nonterminal or below it declares. -/
def nextNonterminal (p : ReadingPhase) (name : String) : Option (ReadingPhase × Nat) :=
  match p with
  | .code =>
    if name = "Mutability" then some (.declarationName, 0)
    else if name ∈ ["Params", "MoreParams", "Param"] then none
    else some (.code, 0)
  | .parameterName =>
    if name ∈ ["Params", "MoreParams", "Param"] then some (.parameterName, 0) else none
  | .parameterType => if name = "Type" then some (.parameterName, 1) else none
  | .returnType =>
    if name = "Block" then some (.code, 0)
    else if name ∈ ["ReturnType", "Type"] then some (.returnType, 0) else none
  | .declarationType => if name = "Type" then some (.code, 1) else none
  | .className | .classHeader | .functionName | .parameterList | .declarationName => none

/-- A token goes on like the terminal that it stands for. -/
theorem next_of_standsFor {p : ReadingPhase} {kind other : TokenKind} (h : kind.StandsFor other)
    {result : ReadingPhase × Nat} (hnext : p.next other = some result) :
    p.next kind = some result := by
  rcases h with rfl | ⟨rfl, hliteral⟩
  · exact hnext
  · have hall : ∀ p ∈ all, ∀ other ∈ [TokenKind.intLiteral, .doubleLiteral, .charLiteral],
        (p.next other).isSome = true → p.next .identifier = p.next other := by
      decide
    rw [hall p (mem_all p) other hliteral (by rw [hnext]; rfl), hnext]

end ReadingPhase

/-- What is known of a reader between two symbols. -/
structure Forecast where
  phase : ReadingPhase
  /-- How many braces are still to be closed. -/
  depth : Nat
  /-- How many names were declared that no rule for a nonterminal declares. -/
  declared : Nat
  deriving DecidableEq, Repr

namespace Forecast

/-- The number of open braces behind a token, unless it closes a brace that is not open. -/
def depthBehind (depth : Nat) : TokenKind → Option Nat
  | .openCurly => some (depth + 1)
  | .closeCurly => if depth = 0 then none else some (depth - 1)
  | _ => some depth

/-- The forecast behind a token. -/
def terminal (f : Forecast) (kind : TokenKind) : Option Forecast :=
  (f.phase.next kind).bind fun (phase, declared) =>
    (depthBehind f.depth kind).map fun depth => ⟨phase, depth, f.declared + declared⟩

/-- The forecast behind a symbol. -/
def after (f : Forecast) (name : String) : Option Forecast :=
  match SymbolKind.ofName name with
  | .terminal => (TokenKind.ofTerminal? name).bind f.terminal
  | .nonterminal => (f.phase.nextNonterminal name).map fun (phase, declared) =>
      ⟨phase, f.depth, f.declared + declared⟩

/-- The forecast behind several symbols. -/
def afterAll (f : Forecast) (names : List String) : Option Forecast :=
  names.foldlM after f

/-- The forecast behind several tokens. -/
def afterTokens (f : Forecast) (tokens : List Token) : Option Forecast :=
  tokens.foldlM (fun f t => f.terminal t.kind) f

/-- The forecast with more open braces and declared names. -/
def add (f : Forecast) (depth declared : Nat) : Forecast :=
  ⟨f.phase, f.depth + depth, f.declared + declared⟩

variable {f f' : Forecast}

/-- A token that is forecast closes an open brace or none. -/
theorem depthBehind_eq_some {depth depth' : Nat} {kind : TokenKind}
    (h : depthBehind depth kind = some depth') :
    (kind = .closeCurly → 0 < depth) ∧
      depth' + (kind == .closeCurly).toNat = depth + (kind == .openCurly).toNat := by
  unfold depthBehind at h
  split at h
  · cases h
    exact ⟨nofun, rfl⟩
  · split at h
    · cases h
    · next hne =>
      cases h
      exact ⟨fun _ => Nat.pos_of_ne_zero hne, Nat.sub_add_cancel (Nat.one_le_iff_ne_zero.mpr hne)⟩
  · next hopen hclose =>
    cases h
    rw [beq_false_of_ne hopen, beq_false_of_ne hclose]
    exact ⟨fun he => absurd he hclose, rfl⟩

theorem depthBehind_add {depth depth' : Nat} {kind : TokenKind}
    (h : depthBehind depth kind = some depth') (more : Nat) :
    depthBehind (depth + more) kind = some (depth' + more) := by
  unfold depthBehind at h ⊢
  split at h
  · cases h
    simp only [Nat.add_right_comm]
  · split at h
    · cases h
    · next hne =>
      cases h
      rw [if_neg (by omega), Nat.sub_add_comm (Nat.one_le_iff_ne_zero.mpr hne)]
  · cases h
    rfl

theorem terminal_add {kind : TokenKind} (h : f.terminal kind = some f') (depth declared : Nat) :
    (f.add depth declared).terminal kind = some (f'.add depth declared) := by
  simp only [terminal, Option.bind_eq_some_iff, Option.map_eq_some_iff, add] at h ⊢
  obtain ⟨⟨phase, count⟩, hphase, depth', hdepth, rfl⟩ := h
  exact ⟨_, hphase, _, depthBehind_add hdepth depth, by rw [Nat.add_right_comm]⟩

theorem after_add {name : String} (h : f.after name = some f') (depth declared : Nat) :
    (f.add depth declared).after name = some (f'.add depth declared) := by
  unfold after at h ⊢
  split at h
  · obtain ⟨kind, hkind, hterminal⟩ := Option.bind_eq_some_iff.mp h
    exact Option.bind_eq_some_iff.mpr ⟨kind, hkind, terminal_add hterminal depth declared⟩
  · obtain ⟨⟨phase, count⟩, hphase, rfl⟩ := Option.map_eq_some_iff.mp h
    refine Option.map_eq_some_iff.mpr ⟨_, hphase, ?_⟩
    simp only [add, Nat.add_right_comm]

theorem after_of_terminal {name : String} (h : SymbolKind.ofName name = .terminal) :
    f.after name = (TokenKind.ofTerminal? name).bind f.terminal := by
  rw [after, h]

theorem after_of_nonterminal {name : String} (h : SymbolKind.ofName name = .nonterminal) :
    f.after name = (f.phase.nextNonterminal name).map fun (phase, declared) =>
      ⟨phase, f.depth, f.declared + declared⟩ := by
  rw [after, h]

/-- A token goes on like the terminal that it stands for. -/
theorem terminal_of_standsFor {kind other : TokenKind} (h : kind.StandsFor other)
    (hf : f.terminal other = some f') : f.terminal kind = some f' := by
  have hdepth : depthBehind f.depth kind = depthBehind f.depth other := by
    rcases h with rfl | ⟨rfl, hliteral⟩
    · rfl
    · simp only [List.mem_cons, List.not_mem_nil, or_false] at hliteral
      rcases hliteral with rfl | rfl | rfl <;> rfl
  simp only [terminal, Option.bind_eq_some_iff] at hf ⊢
  obtain ⟨result, hnext, hresult⟩ := hf
  exact ⟨result, ReadingPhase.next_of_standsFor h hnext, by rw [hdepth]; exact hresult⟩

theorem afterAll_cons {name : String} {rest : List String} :
    f.afterAll (name :: rest) = some f' ↔
      ∃ middle, f.after name = some middle ∧ middle.afterAll rest = some f' := by
  rw [afterAll, List.foldlM_cons]
  exact Option.bind_eq_some_iff

theorem afterAll_append {names rest : List String} :
    f.afterAll (names ++ rest) = some f' ↔
      ∃ middle, f.afterAll names = some middle ∧ middle.afterAll rest = some f' := by
  rw [afterAll, List.foldlM_append]
  exact Option.bind_eq_some_iff

theorem afterTokens_cons {t : Token} {tokens : List Token} :
    f.afterTokens (t :: tokens) = some f' ↔
      ∃ middle, f.terminal t.kind = some middle ∧ middle.afterTokens tokens = some f' := by
  rw [afterTokens, List.foldlM_cons]
  exact Option.bind_eq_some_iff

/-- More open braces and declared names in front are more behind. -/
theorem afterAll_add {names : List String} (h : f.afterAll names = some f')
    (depth declared : Nat) :
    (f.add depth declared).afterAll names = some (f'.add depth declared) := by
  induction names generalizing f with
  | nil =>
    cases h
    rfl
  | cons name rest ih =>
    obtain ⟨middle, hmiddle, hrest⟩ := afterAll_cons.mp h
    exact afterAll_cons.mpr ⟨_, after_add hmiddle depth declared, ih hrest⟩

end Forecast

/-- The left sides whose rules declare a name. -/
def declaringNames : List String :=
  ["ClassDecl", "FunDecl", "Param", "VarDecl"]

namespace Forecast

/-- Where a nonterminal leads, all its alternatives lead, with the name that they declare. -/
theorem afterAll_alternative {production : Production} (hp : production ∈ bundledSyntax)
    {names : List String} (hnames : names ∈ production.alternatives) {p q : ReadingPhase}
    {declared : Nat} (h : p.nextNonterminal production.lhs = some (q, declared)) :
    (⟨p, 0, 0⟩ : Forecast).afterAll (names.filter (· != SymbolName.epsilon)) =
      some ⟨q, 0, declared + if production.lhs ∈ declaringNames then 1 else 0⟩ := by
  have hall : ∀ p ∈ ReadingPhase.all, ∀ production ∈ bundledSyntax,
      ∀ result ∈ p.nextNonterminal production.lhs, ∀ names ∈ production.alternatives,
        (⟨p, 0, 0⟩ : Forecast).afterAll (names.filter (· != SymbolName.epsilon)) =
          some ⟨result.1, 0, result.2 + if production.lhs ∈ declaringNames then 1 else 0⟩ := by
    decide +kernel
  exact hall p p.mem_all production hp _ h names hnames

/-- The right side of a rule leads to where its left side leads to, and declares its name. -/
theorem afterAll_expansion {g : CompiledGrammar} {options : CompileOptions}
    (hg : bundledGrammar options = .ok g) {r : Rule} (hr : r ∈ g.rules) {f middle : Forecast}
    (h : f.after (g.name r.lhs) = some middle) :
    f.afterAll (r.expansion.map g.name) =
      some (middle.add 0 (if g.name r.lhs ∈ declaringNames then 1 else 0)) := by
  have hnonterminal : SymbolKind.ofName (g.name r.lhs) = .nonterminal :=
    beq_iff_eq.mp ((CompiledGrammar.compiledBy_of_ofText hg).wellFormed.lhs_nonterminal r hr)
  rw [after_of_nonterminal hnonterminal, Option.map_eq_some_iff] at h
  obtain ⟨⟨phase, declared⟩, hphase, rfl⟩ := h
  obtain ⟨halphabet, hrules, -⟩ := eq_of_bundledGrammar hg
  rw [hrules] at hr
  obtain ⟨production, hp, names, hnames, hlhs, hexpansion⟩ :=
    Grammar.exists_names_of_mem_rulesOf hr
  have hname : g.name = (Grammar.alphabetOf bundledSyntax).name := by
    rw [← halphabet]
    rfl
  rw [hname, hlhs] at hphase ⊢
  rw [hexpansion]
  have hadd := afterAll_add (afterAll_alternative hp hnames hphase) f.depth f.declared
  simp only [add, Nat.zero_add] at hadd ⊢
  rw [hadd, Nat.add_zero, Nat.add_comm, Nat.add_assoc]

end Forecast

end PredictiveFrontend
