import PredictiveFrontend.Proofs.Scope.Closing
import PredictiveFrontend.Proofs.Scope.Stack

/-!
# The order in which scopes are listed

The scopes around a scope form a chain, and of two scopes in it one is around the other. So the
scopes that a scope encloses fall into those below one child and those below another, and a listing
that goes through the children one after the other meets every scope once, after all scopes around
it.
-/

namespace PredictiveFrontend

/-- The line of a scope and the lines of its declarations, with two blanks in front for every scope
around it. -/
def Scope.lines (s : Scope) (depth number : Nat) : List String :=
  let margin := String.join (List.replicate depth "  ")
  (margin ++ s!"#{number} " ++ s.kind.name ++ " " ++ s.name) ::
    s.declarations.map fun d => margin ++ "  " ++ d.render

namespace ScopeTree

variable {t : ScopeTree} {number : Nat}

/-! ### Enclosing scopes -/

theorem mem_enclosing_self (t : ScopeTree) (number : Nat) : number ∈ t.enclosing number := by
  rw [enclosing]
  exact List.mem_cons_self

theorem Linked.enclosing_of_parent (h : t.Linked) {parent : Nat}
    (hp : (t.scope number).parent = some parent) :
    t.enclosing number = number :: t.enclosing parent := by
  rw [enclosing, hp]
  simp only [if_pos (h.parent_lt _ _ hp)]

/-- A scope around a scope is that scope itself or is around the one in which it was opened. -/
theorem Linked.mem_enclosing_iff (h : t.Linked) {n : Nat} :
    n ∈ t.enclosing number ↔
      n = number ∨ ∃ parent, (t.scope number).parent = some parent ∧ n ∈ t.enclosing parent := by
  cases hp : (t.scope number).parent with
  | none =>
    rw [enclosing, hp]
    simp
  | some parent =>
    rw [h.enclosing_of_parent hp]
    simp

theorem Linked.le_of_mem_enclosing (h : t.Linked) {n : Nat} (hn : n ∈ t.enclosing number) :
    n ≤ number :=
  ((h.outwards_enclosing number).pairwise_gt h).2 n hn

/-- What is around a scope around another one is around that one. -/
theorem Linked.mem_enclosing_trans (h : t.Linked) {m n : Nat} (hm : m ∈ t.enclosing n)
    (hn : n ∈ t.enclosing number) : m ∈ t.enclosing number := by
  induction number using Nat.strongRecOn with
  | ind number ih =>
    rcases h.mem_enclosing_iff.mp hn with rfl | ⟨parent, hp, hn⟩
    · exact hm
    · exact h.mem_enclosing_iff.mpr (Or.inr ⟨parent, hp, ih parent (h.parent_lt _ _ hp) hn⟩)

/-- Of two scopes around a scope the earlier one is around the later one. -/
theorem Linked.mem_enclosing_of_le (h : t.Linked) {m n : Nat} (hm : m ∈ t.enclosing number)
    (hn : n ∈ t.enclosing number) (hle : m ≤ n) : m ∈ t.enclosing n := by
  induction number using Nat.strongRecOn with
  | ind number ih =>
    rcases h.mem_enclosing_iff.mp hn with rfl | ⟨parent, hp, hn'⟩
    · exact hm
    · have hlt := h.parent_lt _ _ hp
      have hne : m ≠ number := by
        have := h.le_of_mem_enclosing hn'
        omega
      rcases h.mem_enclosing_iff.mp hm with he | ⟨parent', hp', hm'⟩
      · exact absurd he hne
      · obtain rfl := Option.some.inj (hp.symm.trans hp')
        exact ih parent hlt hm' hn'

/-! ### Children -/

/-- The children of a scope are the scopes that were opened in it. -/
theorem Linked.mem_children_iff (h : t.Linked) {child : Nat} :
    child ∈ t.children number ↔ child < t.size ∧ (t.scope child).parent = some number := by
  simp only [children, List.mem_filter, List.mem_range'_1, beq_iff_eq]
  constructor
  · rintro ⟨⟨hle, hlt⟩, hp⟩
    exact ⟨by omega, hp⟩
  · rintro ⟨hlt, hp⟩
    have := h.parent_lt _ _ hp
    exact ⟨by omega, hp⟩

theorem pairwise_children (t : ScopeTree) (number : Nat) :
    (t.children number).Pairwise (· < ·) :=
  (List.pairwise_lt_range' ..).filter _

/-- No scope is enclosed by two children of the same scope. -/
theorem Linked.not_mem_enclosing_of_lt (h : t.Linked) {first second n : Nat}
    (hfirst : first ∈ t.children number) (hsecond : second ∈ t.children number)
    (hlt : first < second) (hn : first ∈ t.enclosing n) : second ∉ t.enclosing n := by
  intro hn'
  have hp := (h.mem_children_iff.mp hsecond).2
  have hchain := h.mem_enclosing_of_le hn hn' (Nat.le_of_lt hlt)
  rcases h.mem_enclosing_iff.mp hchain with rfl | ⟨parent, hp', hmem⟩
  · exact Nat.lt_irrefl _ hlt
  · obtain rfl := Option.some.inj (hp.symm.trans hp')
    have hle := h.le_of_mem_enclosing hmem
    have hgt := (lt_of_mem_children hfirst).1
    omega

/-- What holds of a scope if it holds of its children holds of every scope. -/
theorem induction_below (t : ScopeTree) {P : Nat → Prop}
    (step : ∀ number, (∀ child ∈ t.children number, P child) → P number) (number : Nat) :
    P number := by
  induction hn : t.size - number using Nat.strongRecOn generalizing number with
  | ind n ih =>
    refine step number fun child hchild => ih (t.size - child) ?_ child rfl
    have := lt_of_mem_children hchild
    omega

/-! ### The listing -/

/-- A scope and the scopes below it, in the order in which they are listed. -/
def preorder (t : ScopeTree) (number : Nat) : List Nat :=
  number :: (t.children number).attach.flatMap fun child => t.preorder child.1
termination_by t.size - number
decreasing_by
  have := lt_of_mem_children child.2
  omega

theorem preorder_eq (t : ScopeTree) (number : Nat) :
    t.preorder number = number :: (t.children number).flatMap t.preorder := by
  rw [preorder]
  simp [List.flatMap_def]

theorem outlineFrom_eq (t : ScopeTree) (depth number : Nat) :
    t.outlineFrom depth number = (t.scope number).lines depth number ++
      (t.children number).flatMap (t.outlineFrom (depth + 1)) := by
  rw [outlineFrom]
  simp [Scope.lines, List.flatMap_def]

/-- A listed scope is enclosed by the one from which the listing starts. -/
theorem Linked.mem_enclosing_of_mem_preorder (h : t.Linked) {n : Nat}
    (hn : n ∈ t.preorder number) : number ∈ t.enclosing n := by
  induction number using t.induction_below with
  | step number ih =>
    rw [preorder_eq, List.mem_cons, List.mem_flatMap] at hn
    rcases hn with rfl | ⟨child, hchild, hn⟩
    · exact t.mem_enclosing_self n
    · have hparent : number ∈ t.enclosing child :=
        h.mem_enclosing_iff.mpr
          (Or.inr ⟨number, (h.mem_children_iff.mp hchild).2, t.mem_enclosing_self number⟩)
      exact h.mem_enclosing_trans hparent (ih child hchild hn)

theorem lt_size_of_mem_preorder {n : Nat} (hlt : number < t.size) (hn : n ∈ t.preorder number) :
    n < t.size := by
  induction number using t.induction_below with
  | step number ih =>
    rw [preorder_eq, List.mem_cons, List.mem_flatMap] at hn
    rcases hn with rfl | ⟨child, hchild, hn⟩
    · exact hlt
    · exact ih child hchild (lt_of_mem_children hchild).2 hn

/-- With a scope its children are listed. -/
theorem mem_preorder_of_mem_children {n child : Nat} (hn : n ∈ t.preorder number)
    (hchild : child ∈ t.children n) : child ∈ t.preorder number := by
  induction number using t.induction_below with
  | step number ih =>
    rw [preorder_eq, List.mem_cons, List.mem_flatMap] at hn ⊢
    rcases hn with rfl | ⟨first, hfirst, hn⟩
    · have hself : child ∈ t.preorder child := by
        rw [preorder_eq]
        exact List.mem_cons_self
      exact Or.inr ⟨child, hchild, hself⟩
    · exact Or.inr ⟨first, hfirst, ih first hfirst hn⟩

/-- All scopes that a scope encloses are listed from it. -/
theorem Linked.mem_preorder (h : t.Linked) {n : Nat} (hlt : n < t.size)
    (hn : number ∈ t.enclosing n) : n ∈ t.preorder number := by
  induction n using Nat.strongRecOn with
  | ind n ih =>
    rcases h.mem_enclosing_iff.mp hn with rfl | ⟨parent, hp, hmem⟩
    · rw [preorder_eq]
      exact List.mem_cons_self
    · have hless := h.parent_lt _ _ hp
      exact mem_preorder_of_mem_children (ih parent hless (Nat.lt_trans hless hlt) hmem)
        (h.mem_children_iff.mpr ⟨hlt, hp⟩)

/-- No scope is listed behind one that it encloses. -/
theorem Linked.pairwise_preorder (h : t.Linked) (number : Nat) :
    (t.preorder number).Pairwise fun n m => m ∉ t.enclosing n := by
  induction number using t.induction_below with
  | step number ih =>
    rw [preorder_eq, List.pairwise_cons, List.pairwise_flatMap]
    refine ⟨fun m hm hmem => ?_, ih, ?_⟩
    · -- What is listed below a scope comes later than that scope.
      obtain ⟨child, hchild, hm⟩ := List.mem_flatMap.mp hm
      have hle := h.le_of_mem_enclosing hmem
      have hle' := h.le_of_mem_enclosing (h.mem_enclosing_of_mem_preorder hm)
      have hgt := (lt_of_mem_children hchild).1
      omega
    · refine (t.pairwise_children number).imp_of_mem ?_
      intro first second hfirst hsecond hlt n hn m hm hmem
      have hbelow := h.mem_enclosing_of_mem_preorder hn
      have habove := h.mem_enclosing_trans (h.mem_enclosing_of_mem_preorder hm) hmem
      exact h.not_mem_enclosing_of_lt hfirst hsecond hlt hbelow habove

theorem Linked.nodup_preorder (h : t.Linked) (number : Nat) : (t.preorder number).Nodup :=
  (h.pairwise_preorder number).imp fun {n m} hnot (he : n = m) =>
    hnot (he ▸ t.mem_enclosing_self n)

/-- The number of scopes around a scope. -/
def depth (t : ScopeTree) (number : Nat) : Nat :=
  (t.enclosing number).length - 1

theorem Linked.depth_of_parent (h : t.Linked) {parent : Nat}
    (hp : (t.scope number).parent = some parent) : t.depth number = t.depth parent + 1 := by
  have hpos : 0 < (t.enclosing parent).length :=
    List.length_pos_of_mem (t.mem_enclosing_self parent)
  rw [depth, depth, h.enclosing_of_parent hp, List.length_cons]
  omega

/-- The global scope is in no other one. -/
theorem Linked.parent_zero (h : t.Linked) : (t.scope 0).parent = none := by
  cases hp : (t.scope 0).parent with
  | none => rfl
  | some parent => exact absurd (h.parent_lt _ _ hp) (Nat.not_lt_zero parent)

theorem Linked.depth_zero (h : t.Linked) : t.depth 0 = 0 := by
  rw [depth, enclosing, h.parent_zero]
  rfl

/-- The outline holds the lines of every listed scope, one after the other. -/
theorem Linked.outlineFrom_eq_flatMap_preorder (h : t.Linked) (number : Nat) :
    t.outlineFrom (t.depth number) number =
      (t.preorder number).flatMap fun n => (t.scope n).lines (t.depth n) n := by
  induction number using t.induction_below with
  | step number ih =>
    have hbelow : (t.children number).flatMap (t.outlineFrom (t.depth number + 1)) =
        (t.children number).flatMap fun child =>
          (t.preorder child).flatMap fun n => (t.scope n).lines (t.depth n) n := by
      refine List.flatMap_congr fun child hchild => ?_
      rw [← h.depth_of_parent (h.mem_children_iff.mp hchild).2]
      exact ih child hchild
    rw [outlineFrom_eq, preorder_eq, List.flatMap_cons, List.flatMap_assoc, hbelow]

/-! ### Scopes in other scopes -/

/-- Every scope but the global one was opened in another one. -/
def Enclosed (t : ScopeTree) : Prop :=
  ∀ number < t.size, number ≠ 0 → (t.scope number).parent ≠ none

namespace Enclosed

theorem initial : ScopeTree.initial.Enclosed := by
  intro number hlt hne
  exact absurd (Nat.lt_one_iff.mp hlt) hne

theorem modify (h : t.Enclosed) {f : Scope → Scope} (hf : ∀ s, (f s).parent = s.parent)
    (changed : Nat) : ({ t with scopes := t.scopes.modify changed f } : ScopeTree).Enclosed := by
  intro number hlt hne
  rw [size_modify] at hlt
  rw [parent_modify hf]
  exact h number hlt hne

/-- A new scope is opened in the current one. -/
theorem openScope (h : t.Enclosed) (name : String) (kind : ScopeKind) :
    (t.openScope name kind).Enclosed := by
  intro number hlt hne
  rw [size_openScope] at hlt
  rw [scope_openScope]
  by_cases he : number = t.size
  · simp [he]
  · rw [if_neg he]
    exact h number (by omega) hne

theorem step (h : t.Enclosed) (o : ScopeOperation) : (t.perform o).2.Enclosed := by
  cases o with
  | openScope name kind => exact h.openScope name kind
  | closeScope =>
    rw [perform, closeScope]
    cases t.outer with
    | nil => exact h
    | cons parent outer => exact h
  | declare d =>
    rw [perform, declare]
    cases t.current.find? d.name with
    | none => exact h.modify (f := (·.declare d)) (fun _ => rfl) t.cursor
    | some previous => exact h
  | setType number name typeName =>
    exact h.modify (fun s => s.parent_setType name typeName) number
  | resolve name => exact h
  | find name => exact h

/-- The global scope is around all others. -/
theorem zero_mem_enclosing (h : t.Enclosed) (hlinked : t.Linked) (hlt : number < t.size) :
    0 ∈ t.enclosing number := by
  induction number using Nat.strongRecOn with
  | ind number ih =>
    by_cases hzero : number = 0
    · exact hzero ▸ t.mem_enclosing_self number
    · obtain ⟨parent, hp⟩ := Option.ne_none_iff_exists'.mp (h number hlt hzero)
      have hless := hlinked.parent_lt _ _ hp
      exact hlinked.mem_enclosing_iff.mpr
        (Or.inr ⟨parent, hp, ih parent hless (Nat.lt_trans hless hlt)⟩)

/-- The listing from the global scope has every scope once. -/
theorem preorder_perm (h : t.Enclosed) (hlinked : t.Linked) :
    (t.preorder 0).Perm (List.range t.size) := by
  have hpos : 0 < t.size := Nat.lt_of_le_of_lt (Nat.zero_le _) hlinked.cursor_lt
  refine (List.perm_ext_iff_of_nodup (hlinked.nodup_preorder 0) List.nodup_range).mpr fun n => ?_
  rw [List.mem_range]
  constructor
  · exact lt_size_of_mem_preorder hpos
  · exact fun hlt => hlinked.mem_preorder hlt (h.zero_mem_enclosing hlinked hlt)

end Enclosed

/-- In the listing from the global scope the one in which a scope was opened is in front of it. -/
theorem Linked.parent_mem_before (h : t.Linked) (henclosed : t.Enclosed) {n parent : Nat}
    (hp : (t.scope n).parent = some parent) {before after : List Nat}
    (hsplit : t.preorder 0 = before ++ n :: after) : parent ∈ before := by
  have hlt : parent < n := h.parent_lt _ _ hp
  have hn : n < t.size := by
    refine List.mem_range.mp ((henclosed.preorder_perm h).mem_iff.mp ?_)
    rw [hsplit]
    exact List.mem_append_right before List.mem_cons_self
  have hmem : parent ∈ before ++ n :: after := by
    rw [← hsplit]
    exact (henclosed.preorder_perm h).mem_iff.mpr (List.mem_range.mpr (Nat.lt_trans hlt hn))
  rcases List.mem_append.mp hmem with hbefore | hbehind
  · exact hbefore
  · rcases List.mem_cons.mp hbehind with he | hafter
    · exact absurd he (Nat.ne_of_lt hlt)
    · have hpairs := h.pairwise_preorder 0
      rw [hsplit, List.pairwise_append, List.pairwise_cons] at hpairs
      refine absurd ?_ (hpairs.2.1.1 parent hafter)
      exact h.mem_enclosing_iff.mpr (Or.inr ⟨parent, hp, t.mem_enclosing_self parent⟩)

end ScopeTree

end PredictiveFrontend
