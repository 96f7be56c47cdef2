import PredictiveFrontend.Proofs.Scope.Steps

/-!
# Scopes that are never closed

Where a source ends, the scopes that are still open are reported and closed one after the other,
until the global scope is the current one. They are the scopes on the way from the current scope
outwards. The numbers fall on this way and it leads to the global scope, so the closing never stops
short of it, and no scope is reported twice.
-/

namespace PredictiveFrontend

namespace ScopeTree

variable {t : ScopeTree}

/-! ### The way outwards -/

/-- The way from a scope outwards: every scope is followed by the one in which it was opened, up to
one that was opened in no other. -/
inductive Outwards (t : ScopeTree) : Nat → List Nat → Prop where
  | outermost {number : Nat} (h : (t.scope number).parent = none) : Outwards t number [number]
  | inside {number parent : Nat} {path : List Nat} (h : (t.scope number).parent = some parent)
    (hrest : Outwards t parent path) : Outwards t number (number :: path)

/-- The enclosing scopes are the way outwards. -/
theorem Linked.outwards_enclosing (h : t.Linked) (number : Nat) :
    t.Outwards number (t.enclosing number) := by
  induction number using Nat.strongRecOn with
  | ind number ih =>
    rw [enclosing]
    cases hp : (t.scope number).parent with
    | none => exact .outermost hp
    | some parent =>
      have hlt := h.parent_lt _ _ hp
      simp only [if_pos hlt]
      exact .inside hp (ih parent hlt)

/-- The open scopes are the way from the current scope outwards. -/
theorem Linked.outwards_openScopes (h : t.Linked) : t.Outwards t.cursor t.openScopes := by
  rw [h.openScopes_eq]
  exact h.outwards_enclosing t.cursor

/-- The numbers fall on the way outwards. -/
theorem Outwards.pairwise_gt (h : t.Linked) {number : Nat} {path : List Nat}
    (hpath : t.Outwards number path) :
    path.Pairwise (· > ·) ∧ ∀ n ∈ path, n ≤ number := by
  induction hpath with
  | outermost => exact ⟨List.pairwise_singleton _ _, by simp⟩
  | @inside number parent path hp _ ih =>
    have hlt := h.parent_lt _ _ hp
    have hle : ∀ n ∈ path, n < number := fun n hn => Nat.lt_of_le_of_lt (ih.2 n hn) hlt
    refine ⟨List.pairwise_cons.mpr ⟨hle, ih.1⟩, fun n hn => ?_⟩
    rcases List.mem_cons.mp hn with rfl | hn
    · exact Nat.le_refl _
    · exact Nat.le_of_lt (hle n hn)

/-- The global scope is open around all others. -/
def Rooted (t : ScopeTree) : Prop :=
  t.openScopes.getLast? = some 0

theorem Kept.rooted : Kept Rooted where
  declare := by
    intro t t' new h hd
    rw [eq_of_declare_eq_ok hd]
    exact h
  openScope := fun name kind h => (List.getLast?_cons_cons ..).trans h
  closeScope := by
    intro t t' h hc
    rw [ScopeTree.closeScope] at hc
    split at hc
    · cases hc
    · next parent outer houter =>
      cases hc
      rw [Rooted, openScopes, houter, List.getLast?_cons_cons] at h
      exact h

/-- Where no scope is open around the current one, the current one is the global scope. -/
theorem Rooted.cursor_eq_zero (h : t.Rooted) (houter : t.outer = []) : t.cursor = 0 := by
  rw [Rooted, openScopes, houter] at h
  exact Option.some.inj h

/-- A scope that is open inside another one is not the global scope. -/
theorem Linked.cursor_ne_zero (h : t.Linked) {parent : Nat} {outer : List Nat}
    (houter : t.outer = parent :: outer) : t.cursor ≠ 0 := by
  have hp := h.parent_current
  rw [houter, List.head?_cons] at hp
  exact Nat.ne_of_gt (Nat.lt_of_le_of_lt (Nat.zero_le parent) (h.parent_lt _ _ hp))

/-- The global scope is the last of the open scopes, and only the last. -/
theorem Rooted.dropLast_openScopes (h : t.Rooted) (hlinked : t.Linked) :
    t.openScopes.dropLast = t.openScopes.filter (· ≠ 0) := by
  have hfall := (hlinked.outwards_openScopes.pairwise_gt hlinked).1
  obtain ⟨inner, hinner⟩ := List.getLast?_eq_some_iff.mp h
  have hne : ∀ number ∈ inner, number ≠ 0 := by
    rw [hinner, List.pairwise_append] at hfall
    intro number hnumber
    exact Nat.ne_of_gt (hfall.2.2 number hnumber 0 (List.mem_singleton_self 0))
  have hkept : inner.filter (· ≠ 0) = inner :=
    List.filter_eq_self.mpr fun number hnumber => decide_eq_true (hne number hnumber)
  rw [hinner, List.dropLast_concat, List.filter_append, hkept]
  exact (List.append_nil inner).symm

end ScopeTree

namespace SymbolReader

variable {r : SymbolReader}

theorem rooted_initial : initial.scopes.Rooted := rfl

theorem rooted_step (h : r.scopes.Rooted) (t : Token) : (r.step t).scopes.Rooted := by
  rcases step_cases r t with ⟨hstep, -⟩ | ⟨header, -, -, hstep⟩ | ⟨hacts, -⟩
  · rwa [hstep]
  · rw [hstep]
    exact h
  · exact hacts.keeps ScopeTree.Kept.rooted h

theorem rooted_foldl_step (tokens : List Token) (h : r.scopes.Rooted) :
    (tokens.foldl step r).scopes.Rooted := by
  induction tokens generalizing r with
  | nil => exact h
  | cons t rest ih => exact ih (rooted_step h t)

/-! ### The end of a source -/

/-- Nothing is left to be closed where the global scope is the current one. -/
theorem closeRemaining_of_cursor_eq_zero (h : r.scopes.cursor = 0) : r.closeRemaining = r := by
  rw [closeRemaining, if_pos h]

/-- Any other scope is noted and closed before those around it. -/
theorem closeRemaining_of_closeScope_eq_ok (h : r.scopes.cursor ≠ 0) {scopes : ScopeTree}
    (hclose : r.scopes.closeScope = .ok scopes) :
    r.closeRemaining = { r.noteUnclosed with scopes }.closeRemaining := by
  rw [closeRemaining, if_neg h]
  split
  · next hclose' =>
    cases hclose.symm.trans hclose'
    rfl
  · next hclose' => cases hclose.symm.trans hclose'

/-- Where no scope can be closed, the current one is noted nevertheless. -/
theorem closeRemaining_of_closeScope_eq_error (h : r.scopes.cursor ≠ 0) {e : ScopeError}
    (hclose : r.scopes.closeScope = .error e) : r.closeRemaining = r.noteUnclosed := by
  rw [closeRemaining, if_neg h]
  split
  · next hclose' => cases hclose.symm.trans hclose'
  · rfl

/-- A scope that is closed at the end stays what it is. -/
theorem scopes_closeRemaining (r : SymbolReader) :
    r.closeRemaining.scopes.scopes = r.scopes.scopes := by
  induction r using closeRemaining.induct with
  | case1 r hcursor => rw [closeRemaining_of_cursor_eq_zero hcursor]
  | case2 r hcursor scopes hclose ih =>
    rw [closeRemaining_of_closeScope_eq_ok hcursor hclose, ih]
    rw [ScopeTree.closeScope] at hclose
    split at hclose <;> cases hclose
    rfl
  | case3 r hcursor e hclose =>
    rw [closeRemaining_of_closeScope_eq_error hcursor hclose]
    rfl

theorem scopes_finish (r : SymbolReader) : r.finish.scopes.scopes = r.scopes.scopes :=
  scopes_closeRemaining r

/-- The diagnostics for the scopes that are still open, innermost first. -/
def unclosed (r : SymbolReader) : List Diagnostic :=
  r.scopes.openScopes.dropLast.map fun number =>
    .unclosedScope (r.scopes.scope number).name r.lastLine r.lastColumn

/-- The scopes that are open inside the global one are noted, innermost first, and closed. -/
theorem closeRemaining_eq (hlinked : r.scopes.Linked) (hrooted : r.scopes.Rooted) :
    r.closeRemaining =
      { r with
        scopes := { r.scopes with cursor := 0, outer := [] }
        diagnostics := r.diagnostics ++ r.unclosed } := by
  induction houter : r.scopes.outer generalizing r with
  | nil =>
    have hcursor := hrooted.cursor_eq_zero houter
    have hunclosed : r.unclosed = [] := by
      rw [unclosed, ScopeTree.openScopes, houter]
      rfl
    rw [closeRemaining_of_cursor_eq_zero hcursor, hunclosed, List.append_nil, ← hcursor, ← houter]
  | cons parent outer ih =>
    let rest : ScopeTree := { r.scopes with cursor := parent, outer := outer }
    have hclose : r.scopes.closeScope = .ok rest := by
      rw [ScopeTree.closeScope, houter]
    -- To close a scope changes no name, so the scopes around it are reported as before.
    have hunclosed : r.unclosed = .unclosedScope r.scopes.current.name r.lastLine r.lastColumn ::
        { r.noteUnclosed with scopes := rest }.unclosed := by
      rw [unclosed, ScopeTree.openScopes, houter]
      rfl
    have hrest := ih (r := { r.noteUnclosed with scopes := rest }) (hlinked.closeScope hclose)
      (ScopeTree.Kept.rooted.closeScope hrooted hclose) rfl
    rw [closeRemaining_of_closeScope_eq_ok (hlinked.cursor_ne_zero houter) hclose, hrest,
      hunclosed, List.append_cons]
    rfl

theorem finish_eq (hlinked : r.scopes.Linked) (hrooted : r.scopes.Rooted) :
    r.finish = ⟨{ r.scopes with cursor := 0, outer := [] }, r.diagnostics ++ r.unclosed⟩ := by
  rw [finish, closeRemaining_eq hlinked hrooted]

end SymbolReader

end PredictiveFrontend
