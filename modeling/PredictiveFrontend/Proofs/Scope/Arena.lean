import PredictiveFrontend.Proofs.Scope.Listing
import Mathlib.Data.List.Nodup

/-!
# Scopes in an arena

An arena keeps scopes in one list, where a scope links to the one in which it was opened and to
those opened in it. Both links and the current scope are written one by one, and a number that is
out of the list stops everything. Nothing in the arena itself says that a way along the links ends.
From a new arena on it does: the links are always those of a tree of scopes, so every look-up ends
and the listing meets every scope once.
-/

namespace PredictiveFrontend

/-- A scope as it is stored in an arena. -/
structure ArenaScope extends Scope where
  /-- The number of the scope. -/
  id : Nat
  /-- The numbers of the scopes opened in this one, in order. -/
  children : List Nat
  deriving DecidableEq, Repr

/-- A scope that has just been opened in another one. -/
def ArenaScope.opened (name : String) (kind : ScopeKind) (parent id : Nat) : ArenaScope :=
  ⟨⟨name, kind, some parent, []⟩, id, []⟩

/-- The scope with one more child. -/
def ArenaScope.addChild (s : ArenaScope) (child : Nat) : ArenaScope :=
  { s with children := s.children ++ [child] }

/-- Scopes that refer to each other by their numbers. -/
structure ScopeArena where
  scopes : List ArenaScope
  /-- The number of the current scope. -/
  cursor : Nat
  deriving DecidableEq, Repr

namespace ScopeArena

/-! ### Changes

There is no result where a change meets a number without a scope. -/

/-- The arena with nothing but the global scope. -/
def initial : ScopeArena := ⟨[⟨.outermost, 0, []⟩], 0⟩

/-- Change the scope of a number. -/
def change? (a : ScopeArena) (number : Nat) (f : ArenaScope → ArenaScope) : Option ScopeArena :=
  if number < a.scopes.length then some { a with scopes := a.scopes.modify number f } else none

/-- Open a scope: it is stored, then the current scope gets it as a child, then it becomes the
current one. -/
def openScope? (a : ScopeArena) (name : String) (kind : ScopeKind) : Option ScopeArena := do
  let id := a.scopes.length
  let stored := a.scopes ++ [.opened name kind a.cursor id]
  let linked ← change? { a with scopes := stored } a.cursor (·.addChild id)
  return { linked with cursor := id }

/-- A scope is opened in a current scope that is there. -/
theorem openScope?_eq {a : ScopeArena} (h : a.cursor < a.scopes.length) (name : String)
    (kind : ScopeKind) :
    a.openScope? name kind =
      some ⟨(a.scopes ++ [ArenaScope.opened name kind a.cursor a.scopes.length]).modify a.cursor
        (·.addChild a.scopes.length), a.scopes.length⟩ := by
  have hstored : a.cursor <
      (a.scopes ++ [ArenaScope.opened name kind a.cursor a.scopes.length]).length := by
    rw [List.length_append]
    exact Nat.lt_add_right _ h
  simp only [openScope?, change?]
  rw [if_pos hstored]
  rfl

/-- Perform an operation that can change the arena; a look-up is no such operation. -/
def perform? (a : ScopeArena) : ScopeOperation → Option (ScopeAnswer × ScopeArena)
  | .openScope name kind => do
    let a' ← a.openScope? name kind
    return (.opened a'.cursor, a')
  | .closeScope => do
    let current ← a.scopes[a.cursor]?
    match current.parent with
    | some parent => return (.closed a.cursor, { a with cursor := parent })
    | none => return (.refused .closeGlobal, a)
  | .declare d => do
    let current ← a.scopes[a.cursor]?
    match current.find? d.name with
    | some previous =>
      return (.refused (.duplicate ⟨d.name, d.line, d.column, previous.line⟩), a)
    | none =>
      let a' ← a.change? a.cursor fun s => { s with toScope := s.declare d }
      return (.declared, a')
  | .setType number name typeName => do
    let s ← a.scopes[number]?
    let a' ← a.change? number fun s => { s with toScope := s.setType name typeName }
    return (.typed (s.find? name).isSome, a')
  | .resolve _ | .find _ => none

/-- Perform changes one after the other; the answers in order. -/
def performAll? (a : ScopeArena) : List ScopeOperation → Option (List ScopeAnswer × ScopeArena)
  | [] => some ([], a)
  | o :: rest => do
    let (answer, a') ← a.perform? o
    let (answers, a'') ← a'.performAll? rest
    return (answer :: answers, a'')

/-! ### Look-ups and listings -/

/-- A look-up of a name from a scope outwards ends, and with what. -/
inductive LooksUp (a : ScopeArena) (name : String) :
    Option Nat → Option (Nat × Declaration) → Prop where
  /-- There is no scope around the last one. -/
  | outside : LooksUp a name none none
  /-- The scope declares the name. -/
  | here {number : Nat} {s : ArenaScope} {d : Declaration} (hs : a.scopes[number]? = some s)
    (hd : s.find? name = some d) : LooksUp a name (some number) (some (number, d))
  /-- The scope does not, and the look-up goes on in the one in which it was opened. -/
  | outwards {number : Nat} {s : ArenaScope} {found : Option (Nat × Declaration)}
    (hs : a.scopes[number]? = some s) (hd : s.find? name = none)
    (hrest : LooksUp a name s.parent found) : LooksUp a name (some number) found

theorem looksUp_none_iff {a : ScopeArena} {name : String} {found : Option (Nat × Declaration)} :
    a.LooksUp name none found ↔ found = none := by
  constructor
  · rintro ⟨⟩
    rfl
  · rintro rfl
    exact .outside

/-- What a look-up does at a scope depends on whether the scope declares the name. -/
theorem looksUp_iff {a : ScopeArena} {name : String} {number : Nat} {s : ArenaScope}
    (hs : a.scopes[number]? = some s) {found : Option (Nat × Declaration)} :
    a.LooksUp name (some number) found ↔
      match s.find? name with
      | some d => found = some (number, d)
      | none => a.LooksUp name s.parent found := by
  cases hfind : s.find? name with
  | some d =>
    constructor
    · intro h
      cases h with
      | here hs' hd =>
        obtain rfl := Option.some.inj (hs.symm.trans hs')
        rw [hfind, Option.some.injEq] at hd
        rw [hd]
      | outwards hs' hd _ =>
        obtain rfl := Option.some.inj (hs.symm.trans hs')
        rw [hfind] at hd
        cases hd
    · rintro rfl
      exact .here hs hfind
  | none =>
    constructor
    · intro h
      cases h with
      | here hs' hd =>
        obtain rfl := Option.some.inj (hs.symm.trans hs')
        rw [hfind] at hd
        cases hd
      | outwards hs' _ hrest =>
        obtain rfl := Option.some.inj (hs.symm.trans hs')
        exact hrest
    · exact .outwards hs hfind

/-- A listing of scopes ends, and with which lines. Each scope is followed by its children, which are
listed in the same way, one level deeper. -/
inductive Lists (a : ScopeArena) : Nat → List Nat → List String → Prop where
  | nil (depth : Nat) : Lists a depth [] []
  | cons {depth number : Nat} {rest : List Nat} {s : ArenaScope} {below lines : List String}
    (hs : a.scopes[number]? = some s) (hbelow : Lists a (depth + 1) s.children below)
    (hrest : Lists a depth rest lines) :
    Lists a depth (number :: rest) (s.lines depth number ++ below ++ lines)

/-- The listing of all scopes, from the global scope on, ends, and with which text. -/
def Renders (a : ScopeArena) (text : String) : Prop :=
  ∃ lines, a.Lists 0 [0] lines ∧ text = String.join (lines.map (· ++ "\n"))

/-! ### Trees in arenas -/

/-- The links of an arena are those of a tree whose root is the global scope. -/
structure IsTree (a : ScopeArena) : Prop where
  /-- A scope is stored at its number. -/
  id_eq : ∀ (number : Nat) (s : ArenaScope), a.scopes[number]? = some s → s.id = number
  /-- The global scope, and no other, was opened in no scope. -/
  parent_eq_none_iff : ∀ (number : Nat) (s : ArenaScope), a.scopes[number]? = some s →
    (s.parent = none ↔ number = 0)
  /-- A scope was opened in an earlier one. -/
  parent_lt : ∀ (number : Nat) (s : ArenaScope), a.scopes[number]? = some s →
    ∀ parent, s.parent = some parent → parent < number
  /-- A scope is once a child of the one in which it was opened, and never one of another. -/
  count_children : ∀ (number other : Nat) (s s' : ArenaScope), a.scopes[number]? = some s →
    a.scopes[other]? = some s' → s'.children.count number = if s.parent = some other then 1 else 0
  /-- The children of a scope are there. -/
  child_lt : ∀ (number : Nat) (s : ArenaScope), a.scopes[number]? = some s →
    ∀ child ∈ s.children, child < a.scopes.length
  /-- The children of a scope are in the order in which they were opened. -/
  pairwise_children : ∀ (number : Nat) (s : ArenaScope), a.scopes[number]? = some s →
    s.children.Pairwise (· < ·)
  /-- A name is declared once in a scope. -/
  nodup_names : ∀ (number : Nat) (s : ArenaScope), a.scopes[number]? = some s →
    (s.declarations.map Declaration.name).Nodup
  /-- The current scope is there. -/
  cursor_lt : a.cursor < a.scopes.length

/-- An order that has every scope once, behind the scopes around it, with the number of scopes that
are around each of them. -/
structure IsListing (a : ScopeArena) (order : List Nat) (depth : Nat → Nat) : Prop where
  perm : order.Perm (List.range a.scopes.length)
  parent_before : ∀ (number : Nat) (s : ArenaScope), a.scopes[number]? = some s →
    ∀ parent before after, s.parent = some parent → order = before ++ number :: after →
      parent ∈ before
  depth_global : depth 0 = 0
  depth_inside : ∀ (number : Nat) (s : ArenaScope), a.scopes[number]? = some s →
    ∀ parent, s.parent = some parent → depth number = depth parent + 1

/-- The lines of scopes in an order, each set in by its depth. -/
def linesOf (a : ScopeArena) (order : List Nat) (depth : Nat → Nat) : List String :=
  order.flatMap fun number =>
    match a.scopes[number]? with
    | some s => s.lines (depth number) number
    | none => []

end ScopeArena

/-! ### Changes of existing scopes -/

/-- The number of scopes after an operation. -/
def ScopeOperation.sizeAfter (size : Nat) : ScopeOperation → Nat
  | .openScope _ _ => size + 1
  | _ => size

/-- The operation is a change, and the scope that it names is one of so many. -/
def ScopeOperation.IsChange (size : Nat) : ScopeOperation → Prop
  | .setType number _ _ => number < size
  | .resolve _ | .find _ => False
  | _ => True

/-- All operations are changes, and the scopes that they name are there by then. -/
def AllChanges : Nat → List ScopeOperation → Prop
  | _, [] => True
  | size, o :: rest => o.IsChange size ∧ AllChanges (o.sizeAfter size) rest

namespace ScopeTree

variable {t : ScopeTree}

/-! ### The arena of a tree -/

/-- A scope of a tree as it is stored in an arena. -/
def stored (t : ScopeTree) (number : Nat) : ArenaScope :=
  ⟨t.scope number, number, t.children number⟩

/-- The arena of all scopes of a tree. -/
def toArena (t : ScopeTree) : ScopeArena :=
  ⟨(List.range t.size).map t.stored, t.cursor⟩

theorem length_toArena (t : ScopeTree) : t.toArena.scopes.length = t.size := by
  simp [toArena]

theorem getElem?_toArena (t : ScopeTree) (number : Nat) :
    t.toArena.scopes[number]? = if number < t.size then some (t.stored number) else none := by
  rw [toArena, List.getElem?_map]
  by_cases hlt : number < t.size
  · rw [List.getElem?_range hlt, if_pos hlt]
    rfl
  · rw [List.getElem?_eq_none (by simpa using hlt), if_neg hlt]
    rfl

theorem getElem?_toArena_of_lt {number : Nat} (hlt : number < t.size) :
    t.toArena.scopes[number]? = some (t.stored number) := by
  rw [getElem?_toArena, if_pos hlt]

theorem getElem?_toArena_eq_some {number : Nat} {s : ArenaScope} :
    t.toArena.scopes[number]? = some s ↔ number < t.size ∧ t.stored number = s := by
  rw [getElem?_toArena]
  split <;> simp [*]

/-- The arena of a new tree is a new arena. -/
theorem toArena_initial : ScopeTree.initial.toArena = .initial := by
  decide

/-- An arena is that of a tree if all scopes are stored as in the tree. -/
theorem toArena_eq {scopes : List ArenaScope} {cursor : Nat} (hcursor : t.cursor = cursor)
    (hlength : scopes.length = t.size)
    (hget : ∀ number < t.size, scopes[number]? = some (t.stored number)) :
    t.toArena = ⟨scopes, cursor⟩ := by
  have hscopes : t.toArena.scopes = scopes := by
    refine List.ext_getElem? fun number => ?_
    by_cases hlt : number < t.size
    · rw [getElem?_toArena_of_lt hlt, hget number hlt]
    · rw [List.getElem?_eq_none (by rw [length_toArena]; omega),
        List.getElem?_eq_none (by omega)]
  rw [← hscopes, ← hcursor]
  rfl

/-! ### Links of a tree -/

/-- Scopes that remember the same parents have the same children. -/
theorem children_congr {t' : ScopeTree} (hsize : t'.size = t.size)
    (h : ∀ n, (t'.scope n).parent = (t.scope n).parent) (number : Nat) :
    t'.children number = t.children number := by
  rw [children, children, hsize]
  refine List.filter_congr fun child _ => ?_
  rw [h]

/-- A new scope is the last child of the one that was current. -/
theorem Linked.children_openScope (h : t.Linked) (name : String) (kind : ScopeKind)
    (number : Nat) :
    (t.openScope name kind).children number =
      if number = t.cursor then t.children number ++ [t.size] else t.children number := by
  have hcursor := h.cursor_lt
  rw [children, children, size_openScope]
  by_cases hlt : number < t.size
  · have hcount : t.size + 1 - (number + 1) = t.size - (number + 1) + 1 := by omega
    have hlast : number + 1 + 1 * (t.size - (number + 1)) = t.size := by omega
    have hold : ∀ child ∈ List.range' (number + 1) (t.size - (number + 1)),
        (((t.openScope name kind).scope child).parent == some number) =
          ((t.scope child).parent == some number) := by
      intro child hchild
      have hne : child ≠ t.size := by
        rw [List.mem_range'_1] at hchild
        omega
      rw [scope_openScope, if_neg hne]
    rw [hcount, List.range'_concat, hlast, List.filter_append, List.filter_congr hold,
      List.filter_singleton, scope_openScope, if_pos rfl]
    by_cases he : number = t.cursor
    · simp [he]
    · have hother : (t.cursor == number) = false := beq_eq_false_iff_ne.mpr (Ne.symm he)
      simp [he, hother]
  · have hne : number ≠ t.cursor := by omega
    have hnone : t.size + 1 - (number + 1) = 0 := by omega
    have hnone' : t.size - (number + 1) = 0 := by omega
    rw [hnone, hnone', if_neg hne]
    rfl

/-- A number that no scope has yet has no children. -/
theorem children_of_size_le {number : Nat} (hle : t.size ≤ number) : t.children number = [] := by
  have hnone : t.size - (number + 1) = 0 := by omega
  rw [children, hnone]
  rfl

theorem Linked.stored_openScope (h : t.Linked) (name : String) (kind : ScopeKind) (number : Nat) :
    (t.openScope name kind).stored number =
      if number = t.size then .opened name kind t.cursor t.size
      else if t.cursor = number then (t.stored number).addChild t.size
      else t.stored number := by
  rw [stored, scope_openScope, h.children_openScope]
  by_cases hnew : number = t.size
  · have hne : number ≠ t.cursor := hnew ▸ Nat.ne_of_gt h.cursor_lt
    rw [if_pos hnew, if_pos hnew, if_neg hne, children_of_size_le (Nat.le_of_eq hnew.symm), hnew]
    rfl
  · rw [if_neg hnew, if_neg hnew]
    by_cases he : t.cursor = number
    · rw [if_pos he, if_pos he.symm]
      rfl
    · rw [if_neg he, if_neg (Ne.symm he)]
      rfl

/-- A change of a scope that leaves its parent as it is changes nothing else that is stored. -/
theorem stored_modify {f : Scope → Scope} (hf : ∀ s, (f s).parent = s.parent) (changed : Nat)
    {number : Nat} (hlt : number < t.size) :
    ({ t with scopes := t.scopes.modify changed f } : ScopeTree).stored number =
      if changed = number then { t.stored number with toScope := f (t.scope number) }
      else t.stored number := by
  have hchildren := children_congr (t.size_modify changed f) (parent_modify hf changed)
  rw [stored, scope_modify, hchildren]
  by_cases he : changed = number
  · rw [if_pos ⟨he.symm, hlt⟩, if_pos he]
    rfl
  · rw [if_neg fun hboth => he hboth.1.symm, if_neg he]
    rfl

/-! ### Steps -/

/-- To change a scope but not its parent in the arena is to change it in the tree. -/
theorem change?_toArena {number : Nat} (hlt : number < t.size) {f : Scope → Scope}
    (hf : ∀ s, (f s).parent = s.parent) :
    t.toArena.change? number (fun s => { s with toScope := f s.toScope }) =
      some ({ t with scopes := t.scopes.modify number f } : ScopeTree).toArena := by
  rw [ScopeArena.change?, if_pos (by rwa [length_toArena])]
  refine congrArg some (Eq.symm ?_)
  refine toArena_eq (t := { t with scopes := t.scopes.modify number f }) rfl ?_ fun n hn => ?_
  · rw [List.length_modify, length_toArena, size_modify]
  · rw [size_modify] at hn
    rw [List.getElem?_modify, getElem?_toArena_of_lt hn, stored_modify hf number hn]
    rfl

/-- To open a scope in the arena is to open it in the tree. -/
theorem Linked.openScope?_toArena (h : t.Linked) (name : String) (kind : ScopeKind) :
    t.toArena.openScope? name kind = some (t.openScope name kind).toArena := by
  have hlength := t.length_toArena
  have hcursor : t.toArena.cursor = t.cursor := rfl
  rw [ScopeArena.openScope?_eq (by rw [hlength]; exact h.cursor_lt), hlength, hcursor]
  refine congrArg some (Eq.symm ?_)
  refine toArena_eq (t := t.openScope name kind) rfl ?_ fun n hn => ?_
  · rw [List.length_modify, List.length_append, hlength, size_openScope]
    rfl
  · rw [size_openScope] at hn
    rw [List.getElem?_modify, h.stored_openScope]
    by_cases hnew : n = t.size
    · have hne : t.cursor ≠ t.size := Nat.ne_of_lt h.cursor_lt
      have hlast := List.getElem?_concat_length (l := t.toArena.scopes)
        (a := ArenaScope.opened name kind t.cursor t.size)
      rw [hlength] at hlast
      rw [if_pos hnew, hnew, hlast, Option.map_eq_map, Option.map_some, if_neg hne]
    · have hlt : n < t.size := by omega
      rw [if_neg hnew, List.getElem?_append_left (by rwa [hlength]), getElem?_toArena_of_lt hlt]
      rfl

/-! ### Look-ups and listings -/

/-- A look-up in the arena ends at the first scope with the name on the way outwards. -/
theorem Linked.looksUp_toArena_iff (h : t.Linked) {name : String} {number : Nat}
    (hlt : number < t.size) {found : Option (Nat × Declaration)} :
    t.toArena.LooksUp name (some number) found ↔
      found = (t.enclosing number).findSome? fun n => ((t.scope n).find? name).map (n, ·) := by
  induction number using Nat.strongRecOn generalizing found with
  | ind number ih =>
    have hget := getElem?_toArena_of_lt hlt
    have hscope : (t.stored number).toScope = t.scope number := rfl
    rw [ScopeArena.looksUp_iff hget, hscope]
    cases hfind : (t.scope number).find? name with
    | some d =>
      rw [enclosing, List.findSome?_cons, hfind]
      rfl
    | none =>
      cases hp : (t.scope number).parent with
      | none =>
        rw [enclosing, hp, List.findSome?_cons, hfind]
        exact ScopeArena.looksUp_none_iff
      | some parent =>
        have hless := h.parent_lt _ _ hp
        rw [h.enclosing_of_parent hp, List.findSome?_cons, hfind]
        exact ih parent hless (Nat.lt_trans hless hlt)

/-- The listing of scopes in the arena ends only with the lines of their outlines. -/
theorem eq_flatMap_of_lists {depth : Nat} {numbers : List Nat} {lines : List String}
    (h : t.toArena.Lists depth numbers lines) :
    lines = numbers.flatMap (t.outlineFrom depth) := by
  induction h with
  | nil => rfl
  | cons hs _ _ ihbelow ihrest =>
    obtain ⟨-, rfl⟩ := getElem?_toArena_eq_some.mp hs
    rw [List.flatMap_cons, outlineFrom_eq, ihrest, ihbelow]
    rfl

/-- In front of any listing the one of a further scope ends. -/
theorem lists_cons {depth number : Nat} {rest : List Nat} {lines : List String}
    (hlt : number < t.size) (h : t.toArena.Lists depth rest lines) :
    t.toArena.Lists depth (number :: rest) (t.outlineFrom depth number ++ lines) := by
  induction number using t.induction_below generalizing depth rest lines with
  | step number ih =>
    have hbelow : ∀ children ⊆ t.children number,
        t.toArena.Lists (depth + 1) children (children.flatMap (t.outlineFrom (depth + 1))) := by
      intro children hsub
      induction children with
      | nil => exact .nil _
      | cons child later ihlater =>
        obtain ⟨hchild, hlater⟩ := List.cons_subset.mp hsub
        exact ih child hchild (lt_of_mem_children hchild).2 (ihlater hlater)
    rw [outlineFrom_eq]
    exact .cons (s := t.stored number) (getElem?_toArena_of_lt hlt)
      (hbelow _ (List.Subset.refl _)) h

/-! ### Runs -/

theorem size_perform (t : ScopeTree) (o : ScopeOperation) :
    (t.perform o).2.size = o.sizeAfter t.size := by
  cases o with
  | openScope name kind => exact t.size_openScope name kind
  | closeScope =>
    rw [perform, closeScope]
    cases t.outer <;> rfl
  | declare d =>
    rw [perform, declare]
    cases t.current.find? d.name with
    | none => exact t.size_modify t.cursor (·.declare d)
    | some previous => rfl
  | setType number name typeName => exact t.size_modify number (·.setType name typeName)
  | resolve name => rfl
  | find name => rfl

/-- Every operation is answered by the arena as by the tree, and the links stay those of the
tree. -/
theorem Linked.perform?_toArena (h : t.Linked) {o : ScopeOperation}
    (ho : o.IsChange t.size) :
    t.toArena.perform? o = some ((t.perform o).1, (t.perform o).2.toArena) := by
  have hcurrent : t.toArena.scopes[t.toArena.cursor]? = some (t.stored t.cursor) :=
    getElem?_toArena_of_lt h.cursor_lt
  cases o with
  | openScope name kind =>
    rw [ScopeArena.perform?, h.openScope?_toArena]
    rfl
  | closeScope =>
    have hparent : (t.stored t.cursor).parent = t.outer.head? := h.parent_current
    rw [ScopeArena.perform?, hcurrent, perform, ScopeTree.closeScope]
    simp only [Option.bind_eq_bind, Option.bind_some, hparent]
    cases t.outer with
    | nil => rfl
    | cons parent outer => rfl
  | declare d =>
    rw [ScopeArena.perform?, hcurrent, perform, ScopeTree.declare, current]
    have hscope : (t.stored t.cursor).toScope = t.scope t.cursor := rfl
    simp only [Option.bind_eq_bind, Option.bind_some, hscope]
    cases (t.scope t.cursor).find? d.name with
    | some previous => rfl
    | none =>
      have hchange := change?_toArena h.cursor_lt (f := (·.declare d)) fun _ => rfl
      have hcursor : t.toArena.cursor = t.cursor := rfl
      simp only [hcursor, hchange]
      rfl
  | setType number name typeName =>
    have hchange := change?_toArena ho fun s => s.parent_setType name typeName
    rw [ScopeArena.perform?, getElem?_toArena_of_lt ho]
    simp only [Option.bind_eq_bind, Option.bind_some, hchange]
    rfl
  | resolve name => cases ho
  | find name => cases ho

/-- All operations together are answered by the arena as by the tree. -/
theorem Linked.performAll?_toArena (h : t.Linked) {operations : List ScopeOperation}
    (ho : AllChanges t.size operations) :
    t.toArena.performAll? operations = some ((performAll ScopeTree.perform t operations).1,
      (performAll ScopeTree.perform t operations).2.toArena) := by
  induction operations generalizing t with
  | nil => rfl
  | cons o rest ih =>
    obtain ⟨hfirst, hrest⟩ := ho
    rw [← t.size_perform] at hrest
    rw [ScopeArena.performAll?, h.perform?_toArena hfirst]
    simp only [Option.bind_eq_bind, Option.bind_some]
    rw [ih (h.step o) hrest]
    rfl

/-- A name is declared once in every scope of a tree that holds what a stack holds. -/
theorem Matches.nodup_names {s : ScopeStack} (h : t.Matches s) {number : Nat}
    (hlt : number < t.size) : ((t.scope number).declarations.map Declaration.name).Nodup := by
  obtain ⟨f, hf, rfl⟩ := List.mem_map.mp (h.numbers.mem_iff.mpr (List.mem_range.mpr hlt))
  rw [h.declarations f hf]
  exact h.names f hf

/-- The arena of a tree of scopes is a tree. -/
theorem Linked.isTree_toArena (h : t.Linked) (henclosed : t.Enclosed)
    (hnames : ∀ number < t.size, ((t.scope number).declarations.map Declaration.name).Nodup) :
    t.toArena.IsTree where
  id_eq := by
    intro number s hs
    obtain ⟨-, rfl⟩ := getElem?_toArena_eq_some.mp hs
    rfl
  parent_eq_none_iff := by
    intro number s hs
    obtain ⟨hlt, rfl⟩ := getElem?_toArena_eq_some.mp hs
    constructor
    · intro hp
      by_contra hne
      exact henclosed number hlt hne hp
    · rintro rfl
      exact h.parent_zero
  parent_lt := by
    intro number s hs parent hp
    obtain ⟨-, rfl⟩ := getElem?_toArena_eq_some.mp hs
    exact h.parent_lt _ _ hp
  count_children := by
    intro number other s s' hs hs'
    obtain ⟨hlt, rfl⟩ := getElem?_toArena_eq_some.mp hs
    obtain ⟨-, rfl⟩ := getElem?_toArena_eq_some.mp hs'
    have hnodup : (t.children other).Nodup := (t.pairwise_children other).imp Nat.ne_of_lt
    change (t.children other).count number = if (t.scope number).parent = some other then 1 else 0
    by_cases hp : (t.scope number).parent = some other
    · rw [if_pos hp]
      exact List.count_eq_one_of_mem hnodup (h.mem_children_iff.mpr ⟨hlt, hp⟩)
    · rw [if_neg hp]
      exact List.count_eq_zero_of_not_mem fun hmem => hp (h.mem_children_iff.mp hmem).2
  child_lt := by
    intro number s hs child hchild
    obtain ⟨-, rfl⟩ := getElem?_toArena_eq_some.mp hs
    rw [length_toArena]
    exact (lt_of_mem_children hchild).2
  pairwise_children := by
    intro number s hs
    obtain ⟨-, rfl⟩ := getElem?_toArena_eq_some.mp hs
    exact t.pairwise_children number
  nodup_names := by
    intro number s hs
    obtain ⟨hlt, rfl⟩ := getElem?_toArena_eq_some.mp hs
    exact hnames number hlt
  cursor_lt := by
    rw [length_toArena]
    exact h.cursor_lt

theorem Linked.renders_toArena_iff (h : t.Linked) {text : String} :
    t.toArena.Renders text ↔ text = t.render := by
  have hpos : 0 < t.size := Nat.lt_of_le_of_lt (Nat.zero_le _) h.cursor_lt
  have hone : [0].flatMap (t.outlineFrom 0) = t.outline ++ [] := by simp [outline]
  constructor
  · rintro ⟨lines, hlines, rfl⟩
    rw [eq_flatMap_of_lists hlines, hone, List.append_nil]
    rfl
  · rintro rfl
    exact ⟨_, lists_cons hpos (.nil 0), by rw [List.append_nil]; rfl⟩

/-- The order of the outline is a listing of the arena. -/
theorem Linked.isListing_toArena (h : t.Linked) (henclosed : t.Enclosed) :
    t.toArena.IsListing (t.preorder 0) t.depth where
  perm := by
    rw [length_toArena]
    exact henclosed.preorder_perm h
  parent_before := by
    intro number s hs parent before after hp hsplit
    obtain ⟨-, rfl⟩ := getElem?_toArena_eq_some.mp hs
    exact h.parent_mem_before henclosed hp hsplit
  depth_global := h.depth_zero
  depth_inside := by
    intro number s hs parent hp
    obtain ⟨-, rfl⟩ := getElem?_toArena_eq_some.mp hs
    exact h.depth_of_parent hp

/-- The outline of a tree holds the lines of its scopes in the order of the listing. -/
theorem Linked.outline_eq_linesOf (h : t.Linked) (henclosed : t.Enclosed) :
    t.outline = t.toArena.linesOf (t.preorder 0) t.depth := by
  have hlines := h.outlineFrom_eq_flatMap_preorder 0
  rw [h.depth_zero] at hlines
  rw [outline, hlines, ScopeArena.linesOf]
  refine List.flatMap_congr fun number hmem => ?_
  have hlt := List.mem_range.mp ((henclosed.preorder_perm h).mem_iff.mp hmem)
  rw [getElem?_toArena_of_lt hlt]
  rfl

end ScopeTree

namespace ScopeArena

/-- All changes from a new arena on are answered as by a tree of scopes, if types are only given to
names in scopes that are there by then. Afterwards the arena holds the scopes of that tree, and its
links form a tree. Every look-up ends, as does the listing of all scopes, which has the lines of
each scope once, behind those of the one in which it was opened and two blanks deeper. -/
theorem performAll?_isTree {operations : List ScopeOperation} (h : AllChanges 1 operations) :
    let t := (performAll ScopeTree.perform .initial operations).2
    ∃ a, initial.performAll? operations =
        some ((performAll ScopeTree.perform .initial operations).1, a) ∧
      a = t.toArena ∧ a.IsTree ∧
      (∀ name found, a.LooksUp name (some a.cursor) found ↔ found = t.resolve? name) ∧
      (∀ text, a.Renders text ↔ text = t.render) ∧
      ∃ order depth, a.IsListing order depth ∧
        a.Renders (String.join ((a.linesOf order depth).map (· ++ "\n"))) := by
  intro t
  have hlinked : t.Linked :=
    performAll_preserves (fun t o hlinked => hlinked.step o) .initial operations
  have henclosed : t.Enclosed :=
    performAll_preserves (fun t o henclosed => henclosed.step o) .initial operations
  obtain ⟨-, hmatches⟩ := ScopeTree.Matches.initial.steps operations
  refine ⟨t.toArena, ?_, rfl, hlinked.isTree_toArena henclosed fun _ => hmatches.nodup_names,
    fun name found => ?_, fun text => hlinked.renders_toArena_iff, t.preorder 0, t.depth,
    hlinked.isListing_toArena henclosed, ?_⟩
  · rw [← ScopeTree.toArena_initial]
    exact ScopeTree.Linked.initial.performAll?_toArena h
  · rw [ScopeTree.resolve?, hlinked.openScopes_eq]
    exact hlinked.looksUp_toArena_iff hlinked.cursor_lt
  · rw [hlinked.renders_toArena_iff, ScopeTree.render, hlinked.outline_eq_linesOf henclosed]

/-- Two scopes in the global one, and a type that is given after the first of them is closed. -/
theorem performAll?_isTree_siblings :
    let operations : List ScopeOperation :=
      [.openScope "block" .block, .declare ⟨"x", .var, none, 2, 9⟩, .closeScope,
        .openScope "f" .function, .setType 1 "x" "Int"]
    AllChanges 1 operations ∧
      ∃ a, initial.performAll? operations = some ([.opened 1, .declared, .closed 1, .opened 2,
          .typed true], a) ∧ a.IsTree ∧ a.LooksUp "x" (some 2) none ∧
        a.Renders "#0 Global global\n  #1 Block block\n    var x: Int [9,2]\n  #2 Function f\n" := by
  intro operations
  have hchanges : AllChanges 1 operations := by
    simp [operations, AllChanges, ScopeOperation.IsChange, ScopeOperation.sizeAfter]
  obtain ⟨a, hrun, ha, htree, hlooks, hrenders, -⟩ := performAll?_isTree hchanges
  have htext : (performAll ScopeTree.perform .initial operations).2.render =
      "#0 Global global\n  #1 Block block\n    var x: Int [9,2]\n  #2 Function f\n" := by
    decide +kernel
  refine ⟨hchanges, a, hrun, htree, ?_, (hrenders _).mpr htext.symm⟩
  have hcursor : a.cursor = 2 := by
    rw [ha]
    rfl
  rw [← hcursor]
  exact (hlooks "x" none).mpr rfl

end ScopeArena

end PredictiveFrontend
