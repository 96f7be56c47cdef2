import PredictiveFrontend.Scope.Tree

/-!
# The scopes around a scope

A tree keeps the numbers of the open scopes beside the scopes themselves. They are what is found on
the way from the current scope outwards, from every scope to the one in which it was opened, so
where an operation looks at them it looks at the parents that the scopes remember.
-/

namespace PredictiveFrontend

namespace Scope

/-- To change the first declaration of a name is to change all of them if there is but one. -/
private theorem modify_findIdx?_name {declarations : List Declaration}
    (h : (declarations.map Declaration.name).Nodup) (name : String)
    (f : Declaration → Declaration) :
    (match declarations.findIdx? (·.name == name) with
      | some i => declarations.modify i f
      | none => declarations) = declarations.map fun d => if d.name = name then f d else d := by
  induction declarations with
  | nil => rfl
  | cons d rest ih =>
    obtain ⟨hd, hrest⟩ := List.nodup_cons.mp h
    rw [List.findIdx?_cons, List.map_cons]
    by_cases he : d.name = name
    · have hsame : rest.map (fun d => if d.name = name then f d else d) = rest := by
        refine (List.map_congr_left fun d' hd' => if_neg fun he' => hd ?_).trans (List.map_id rest)
        exact List.mem_map.mpr ⟨d', hd', he'.trans he.symm⟩
      rw [if_pos (by simpa using he), if_pos he, hsame]
      rfl
    · rw [if_neg (by simpa using he), if_neg he, ← ih hrest]
      cases rest.findIdx? (·.name == name) with
      | none => rfl
      | some i => rfl

/-- A type is given to all declarations of a name if there is but one. -/
theorem declarations_setType {s : Scope} (h : (s.declarations.map Declaration.name).Nodup)
    (name typeName : String) :
    (s.setType name typeName).declarations = s.declarations.map fun d =>
      if d.name = name then { d with typeName := some typeName } else d := by
  rw [← modify_findIdx?_name h, setType]
  cases s.declarations.findIdx? (·.name == name) with
  | none => rfl
  | some i => rfl

/-- A type cannot be given to a name that is not there. -/
theorem setType_of_find?_eq_none {s : Scope} {name : String} (h : s.find? name = none)
    (typeName : String) : s.setType name typeName = s := by
  have hnone : s.declarations.findIdx? (·.name == name) = none :=
    List.findIdx?_eq_none_iff.mpr fun d hd => by simpa using List.find?_eq_none.mp h d hd
  rw [setType, hnone]

theorem parent_setType (s : Scope) (name typeName : String) :
    (s.setType name typeName).parent = s.parent := by
  unfold setType
  split <;> rfl

end Scope

namespace ScopeTree

variable {t : ScopeTree}

/-- A new scope is found behind all others, which stay as they are. -/
theorem scope_openScope (t : ScopeTree) (name : String) (kind : ScopeKind) (number : Nat) :
    (t.openScope name kind).scope number =
      if number = t.size then ⟨name, kind, some t.cursor, []⟩ else t.scope number := by
  have hsize : t.size = t.scopes.length := rfl
  rw [hsize]
  simp only [scope, openScope]
  rcases Nat.lt_trichotomy number t.scopes.length with hlt | rfl | hgt
  · rw [List.getElem?_append_left hlt, if_neg (Nat.ne_of_lt hlt)]
  · rw [List.getElem?_concat_length, if_pos rfl]
    rfl
  · have hnone : (t.scopes ++ [⟨name, kind, some t.cursor, []⟩])[number]? = none :=
      List.getElem?_eq_none (by rw [List.length_append]; exact hgt)
    rw [hnone, if_neg (Nat.ne_of_gt hgt), List.getElem?_eq_none (Nat.le_of_lt hgt)]

/-- Only the scope of one number changes. -/
theorem scope_modify (t : ScopeTree) (changed : Nat) (f : Scope → Scope) (number : Nat) :
    ({ t with scopes := t.scopes.modify changed f } : ScopeTree).scope number =
      if number = changed ∧ number < t.size then f (t.scope number) else t.scope number := by
  rw [scope, List.getElem?_modify, scope]
  by_cases hlt : number < t.size
  · have hget : t.scopes[number]? = some t.scopes[number] := List.getElem?_eq_getElem hlt
    by_cases he : changed = number
    · simp [hget, he, hlt]
    · simp [hget, he, Ne.symm he]
  · rw [if_neg (fun h => hlt h.2), List.getElem?_eq_none (Nat.not_lt.mp hlt)]
    rfl

theorem size_openScope (t : ScopeTree) (name : String) (kind : ScopeKind) :
    (t.openScope name kind).size = t.size + 1 := by
  simp [openScope, size]

theorem size_modify (t : ScopeTree) (changed : Nat) (f : Scope → Scope) :
    ({ t with scopes := t.scopes.modify changed f } : ScopeTree).size = t.size :=
  List.length_modify ..

/-- If a change leaves the parent of a scope as it is, all scopes keep their parents. -/
theorem parent_modify {f : Scope → Scope} (hf : ∀ s, (f s).parent = s.parent)
    (changed number : Nat) :
    (({ t with scopes := t.scopes.modify changed f } : ScopeTree).scope number).parent =
      (t.scope number).parent := by
  rw [scope_modify]
  split
  · exact hf _
  · rfl

theorem setType_of_find?_eq_none {number : Nat} {name typeName : String}
    (h : (t.scope number).find? name = none) : t.setType number name typeName = t := by
  have hsame : t.scopes.modify number (·.setType name typeName) = t.scopes := by
    refine List.ext_getElem? fun i => ?_
    rw [List.getElem?_modify]
    cases hs : t.scopes[i]? with
    | none => rfl
    | some s =>
      by_cases hi : number = i
      · subst hi
        rw [scope, hs] at h
        have hs' : s.setType name typeName = s := Scope.setType_of_find?_eq_none h typeName
        simp [hs']
      · simp [hi]
  rw [setType, hsame]

/-- The scopes from a scope outwards, each followed by the one in which it was opened. -/
def enclosing (t : ScopeTree) (number : Nat) : List Nat :=
  number ::
    match (t.scope number).parent with
    | some parent => if parent < number then t.enclosing parent else []
    | none => []

/-- Scopes that remember the same parents are enclosed by the same scopes. -/
theorem enclosing_congr {t' : ScopeTree} {number : Nat}
    (h : ∀ n ≤ number, (t'.scope n).parent = (t.scope n).parent) :
    t'.enclosing number = t.enclosing number := by
  induction number using Nat.strongRecOn with
  | ind number ih =>
    rw [enclosing, enclosing, h number (Nat.le_refl _)]
    cases hp : (t.scope number).parent with
    | none => rfl
    | some parent =>
      by_cases hlt : parent < number
      · simp only [if_pos hlt]
        rw [ih parent hlt fun n hn => h n (Nat.le_trans hn (Nat.le_of_lt hlt))]
      · simp only [if_neg hlt]

/-- The open scopes are the current one and the ones around it, as the scopes remember them. -/
structure Linked (t : ScopeTree) : Prop where
  /-- The current scope is there. -/
  cursor_lt : t.cursor < t.size
  /-- A scope was opened in an earlier one. -/
  parent_lt : ∀ number parent, (t.scope number).parent = some parent → parent < number
  /-- Scopes are kept open exactly up to the outermost one. -/
  openScopes_eq : t.openScopes = t.enclosing t.cursor

namespace Linked

theorem initial : ScopeTree.initial.Linked where
  cursor_lt := Nat.zero_lt_one
  parent_lt := by
    intro number parent hp
    have hnone : (ScopeTree.initial.scope number).parent = none := by
      cases number <;> rfl
    rw [hnone] at hp
    cases hp
  openScopes_eq := by
    rw [enclosing]
    rfl

/-- A new scope is enclosed by the open ones. -/
theorem openScope (h : t.Linked) (name : String) (kind : ScopeKind) :
    (t.openScope name kind).Linked where
  cursor_lt := by simp [ScopeTree.openScope, size]
  parent_lt := by
    intro number parent hp
    rw [scope_openScope] at hp
    split at hp
    · next he =>
      cases hp
      rw [he]
      exact h.cursor_lt
    · exact h.parent_lt number parent hp
  openScopes_eq := by
    have hsame : (t.openScope name kind).enclosing t.cursor = t.enclosing t.cursor := by
      refine enclosing_congr fun n hn => ?_
      rw [scope_openScope, if_neg (Nat.ne_of_lt (Nat.lt_of_le_of_lt hn h.cursor_lt))]
    have hnew : (t.openScope name kind).cursor = t.size := rfl
    rw [hnew, enclosing, scope_openScope, if_pos rfl]
    simp only [if_pos h.cursor_lt]
    rw [hsame, ← h.openScopes_eq]
    rfl

/-- The current scope remembers the scope that is around it. -/
theorem parent_current (h : t.Linked) : t.current.parent = t.outer.head? := by
  have ho := h.openScopes_eq
  rw [enclosing, openScopes, List.cons.injEq] at ho
  rw [current, ho.2]
  cases hp : (t.scope t.cursor).parent with
  | none => rfl
  | some parent =>
    simp only [if_pos (h.parent_lt _ _ hp)]
    rw [enclosing]
    rfl

/-- The scope around a scope that is closed is enclosed by what stays open. -/
theorem closeScope (h : t.Linked) {t' : ScopeTree} (hc : t.closeScope = .ok t') : t'.Linked := by
  have hp := h.parent_current
  have ho := h.openScopes_eq
  rw [ScopeTree.closeScope] at hc
  split at hc
  · cases hc
  · next parent outer houter =>
    cases hc
    rw [houter, List.head?_cons, current] at hp
    have hlt := h.parent_lt _ _ hp
    refine ⟨Nat.lt_trans hlt h.cursor_lt, h.parent_lt, ?_⟩
    rw [openScopes, houter, enclosing, hp, List.cons.injEq] at ho
    simp only [if_pos hlt] at ho
    have hsame : ({ t with cursor := parent, outer := outer } : ScopeTree).enclosing parent =
        t.enclosing parent := enclosing_congr fun _ _ => rfl
    exact ho.2.trans hsame.symm

/-- To change a scope without its parent changes no link. -/
theorem modify (h : t.Linked) {f : Scope → Scope} (hf : ∀ s, (f s).parent = s.parent)
    (changed : Nat) : ({ t with scopes := t.scopes.modify changed f } : ScopeTree).Linked := by
  refine ⟨?_, fun number parent hp => ?_, ?_⟩
  · rw [size_modify]
    exact h.cursor_lt
  · rw [parent_modify hf] at hp
    exact h.parent_lt number parent hp
  · exact h.openScopes_eq.trans (enclosing_congr fun n _ => parent_modify hf changed n).symm

end Linked

end ScopeTree

end PredictiveFrontend
