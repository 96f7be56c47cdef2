import PredictiveFrontend.Proofs.Scope.Tree
import Mathlib.Data.List.Perm.Basic

/-!
# Scopes as a stack

As long as nobody looks at closed scopes, a tree of scopes is a stack of frames: to open a scope is
to push an empty frame, and to close it is to pop it. Both answer all operations alike. The tree
keeps closed scopes among the open ones; the stack puts them aside, because a type can still be
given to a name in them.
-/

namespace PredictiveFrontend

/-! ### Operations -/

/-- What can be asked of scopes. -/
inductive ScopeOperation where
  | openScope (name : String) (kind : ScopeKind)
  | closeScope
  | declare (d : Declaration)
  /-- Give a type to a name declared in the scope of some number. -/
  | setType (number : Nat) (name typeName : String)
  /-- Look up a name in the open scopes. -/
  | resolve (name : String)
  /-- Look up a name in the current scope. -/
  | find (name : String)
  deriving DecidableEq, Repr

/-- The answer to an operation. -/
inductive ScopeAnswer where
  | opened (number : Nat)
  | closed (number : Nat)
  | declared
  /-- Whether there was such a name. -/
  | typed (there : Bool)
  | resolved (found : Option (Nat × Declaration))
  | found (d : Option Declaration)
  | refused (e : ScopeError)
  deriving DecidableEq, Repr

/-- Whether an operation that is meant to change something has failed. -/
def ScopeAnswer.isFailure : ScopeAnswer → Bool
  | .refused _ => true
  | .typed there => !there
  | _ => false

/-- Perform operations one after the other; the answers in order. -/
def performAll {σ : Type} (perform : σ → ScopeOperation → ScopeAnswer × σ) (s : σ) :
    List ScopeOperation → List ScopeAnswer × σ
  | [] => ([], s)
  | o :: rest =>
    let (answer, s') := perform s o
    let (answers, s'') := performAll perform s' rest
    (answer :: answers, s'')

/-- What every operation keeps is kept by all of them. -/
theorem performAll_preserves {σ : Type} {perform : σ → ScopeOperation → ScopeAnswer × σ}
    {P : σ → Prop} (hstep : ∀ s o, P s → P (perform s o).2) {s : σ} (h : P s)
    (operations : List ScopeOperation) : P (performAll perform s operations).2 := by
  induction operations generalizing s with
  | nil => exact h
  | cons o rest ih => exact ih (hstep s o h)

/-- Perform an operation on a tree. -/
def ScopeTree.perform (t : ScopeTree) : ScopeOperation → ScopeAnswer × ScopeTree
  | .openScope name kind => (.opened (t.openScope name kind).cursor, t.openScope name kind)
  | .closeScope =>
    match t.closeScope with
    | .ok t' => (.closed t.cursor, t')
    | .error e => (.refused e, t)
  | .declare d =>
    match t.declare d with
    | .ok t' => (.declared, t')
    | .error e => (.refused e, t)
  | .setType number name typeName =>
    (.typed ((t.scope number).find? name).isSome, t.setType number name typeName)
  | .resolve name => (.resolved (t.resolve? name), t)
  | .find name => (.found (t.current.find? name), t)

/-! ### Stacks -/

/-- A scope as a numbered list of declarations. -/
structure ScopeFrame where
  number : Nat
  declarations : List Declaration
  deriving DecidableEq, Repr

namespace ScopeFrame

/-- The declaration of a name in a frame. -/
def find? (f : ScopeFrame) (name : String) : Option Declaration :=
  f.declarations.find? (·.name == name)

/-- The frame with a type given to a name, if it is the one that is meant. -/
def setType (f : ScopeFrame) (number : Nat) (name typeName : String) : ScopeFrame :=
  if f.number = number then
    { f with
      declarations := f.declarations.map fun d =>
        if d.name = name then { d with typeName := some typeName } else d }
  else f

@[simp] theorem number_setType (f : ScopeFrame) (number : Nat) (name typeName : String) :
    (f.setType number name typeName).number = f.number := by
  unfold setType
  split <;> rfl

/-- A type changes no name. -/
theorem names_setType (f : ScopeFrame) (number : Nat) (name typeName : String) :
    (f.setType number name typeName).declarations.map Declaration.name =
      f.declarations.map Declaration.name := by
  unfold setType
  split
  · rw [List.map_map]
    refine List.map_congr_left fun d _ => ?_
    rw [Function.comp_apply]
    split <;> rfl
  · rfl

end ScopeFrame

/-- Frames that are pushed and popped. -/
structure ScopeStack where
  /-- The innermost frame. -/
  top : ScopeFrame
  /-- The frames around it, innermost first. -/
  below : List ScopeFrame
  /-- The frames that were popped. -/
  closed : List ScopeFrame
  deriving DecidableEq, Repr

namespace ScopeStack

/-- The stack with nothing but an empty global frame. -/
def initial : ScopeStack := ⟨⟨0, []⟩, [], []⟩

/-- The frames on the stack, innermost first. -/
def openFrames (s : ScopeStack) : List ScopeFrame := s.top :: s.below

/-- All frames, those that were popped as well. -/
def frames (s : ScopeStack) : List ScopeFrame := s.openFrames ++ s.closed

/-- Perform an operation on a stack. -/
def perform (s : ScopeStack) : ScopeOperation → ScopeAnswer × ScopeStack
  | .openScope _ _ =>
    (.opened s.frames.length, { s with top := ⟨s.frames.length, []⟩, below := s.openFrames })
  | .closeScope =>
    match s.below with
    | [] => (.refused .closeGlobal, s)
    | parent :: below => (.closed s.top.number, ⟨parent, below, s.top :: s.closed⟩)
  | .declare d =>
    match s.top.find? d.name with
    | some previous => (.refused (.duplicate ⟨d.name, d.line, d.column, previous.line⟩), s)
    | none =>
      (.declared, { s with top := { s.top with declarations := s.top.declarations ++ [d] } })
  | .setType number name typeName =>
    (.typed (s.frames.any fun f => f.number == number && (f.find? name).isSome),
      ⟨s.top.setType number name typeName, s.below.map (·.setType number name typeName),
        s.closed.map (·.setType number name typeName)⟩)
  | .resolve name =>
    (.resolved (s.openFrames.findSome? fun f => (f.find? name).map (f.number, ·)), s)
  | .find name => (.found (s.top.find? name), s)

end ScopeStack

/-! ### Trees as stacks -/

namespace ScopeTree

/-- A tree that holds what a stack holds. -/
structure Matches (t : ScopeTree) (s : ScopeStack) : Prop where
  /-- The open scopes are the frames on the stack. -/
  openScopes_eq : t.openScopes = s.openFrames.map ScopeFrame.number
  /-- Every scope is a frame, and no two frames are the same scope. -/
  numbers : (s.frames.map ScopeFrame.number).Perm (List.range t.size)
  /-- A frame holds the declarations of its scope. -/
  declarations : ∀ f ∈ s.frames, (t.scope f.number).declarations = f.declarations
  /-- A name is declared once in a frame. -/
  names : ∀ f ∈ s.frames, (f.declarations.map Declaration.name).Nodup

namespace Matches

variable {t : ScopeTree} {s : ScopeStack}

theorem initial : ScopeTree.initial.Matches .initial where
  openScopes_eq := rfl
  numbers := .refl _
  declarations := by
    intro f hf
    obtain rfl := List.mem_singleton.mp hf
    rfl
  names := by
    intro f hf
    obtain rfl := List.mem_singleton.mp hf
    exact List.nodup_nil

theorem top_mem (s : ScopeStack) : s.top ∈ s.frames :=
  List.mem_append_left _ (List.mem_cons_self ..)

theorem cursor_eq (h : t.Matches s) : t.cursor = s.top.number :=
  (List.cons.inj h.openScopes_eq).1

theorem outer_eq (h : t.Matches s) : t.outer = s.below.map ScopeFrame.number :=
  (List.cons.inj h.openScopes_eq).2

/-- There are as many frames as scopes. -/
theorem length_frames (h : t.Matches s) : s.frames.length = t.size := by
  simpa using h.numbers.length_eq

theorem number_lt (h : t.Matches s) {f : ScopeFrame} (hf : f ∈ s.frames) : f.number < t.size :=
  List.mem_range.mp (h.numbers.mem_iff.mp (List.mem_map_of_mem hf))

theorem nodup_numbers (h : t.Matches s) : (s.frames.map ScopeFrame.number).Nodup :=
  h.numbers.nodup_iff.mpr List.nodup_range

/-- A name is found alike in a frame and in its scope. -/
theorem find?_eq (h : t.Matches s) {f : ScopeFrame} (hf : f ∈ s.frames) (name : String) :
    (t.scope f.number).find? name = f.find? name := by
  rw [Scope.find?, h.declarations f hf, ScopeFrame.find?]

theorem find?_current (h : t.Matches s) (name : String) :
    t.current.find? name = s.top.find? name := by
  rw [current, h.cursor_eq, h.find?_eq (top_mem s)]

/-- The innermost open scope with a name is the innermost frame with it. -/
theorem resolve?_eq (h : t.Matches s) (name : String) :
    t.resolve? name =
      s.openFrames.findSome? fun f => (f.find? name).map (f.number, ·) := by
  rw [resolve?, h.openScopes_eq, List.findSome?_map, ← List.head?_filterMap, ← List.head?_filterMap]
  refine congrArg List.head? (List.filterMap_congr fun f hf => ?_)
  rw [Function.comp_apply, h.find?_eq (List.mem_append_left _ hf)]

/-- A name is there in a scope of any number if it is there in the frame of this number. -/
theorem isSome_find?_scope (h : t.Matches s) (number : Nat) (name : String) :
    ((t.scope number).find? name).isSome =
      s.frames.any fun f => f.number == number && (f.find? name).isSome := by
  rw [Bool.eq_iff_iff, List.any_eq_true]
  constructor
  · intro hsome
    have hlt : number < t.size := by
      by_contra hge
      rw [scope, List.getElem?_eq_none (Nat.not_lt.mp hge)] at hsome
      cases hsome
    obtain ⟨f, hf, rfl⟩ := List.mem_map.mp (h.numbers.mem_iff.mpr (List.mem_range.mpr hlt))
    rw [h.find?_eq hf] at hsome
    exact ⟨f, hf, by simpa using hsome⟩
  · rintro ⟨f, hf, hboth⟩
    simp only [Bool.and_eq_true, beq_iff_eq] at hboth
    obtain ⟨rfl, hsome⟩ := hboth
    rwa [h.find?_eq hf]

/-! ### Steps -/

/-- A new scope is an empty frame on top. -/
theorem openScope (h : t.Matches s) (name : String) (kind : ScopeKind) :
    (t.openScope name kind).Matches
      { s with top := ⟨s.frames.length, []⟩, below := s.openFrames } where
  openScopes_eq := by
    rw [ScopeStack.openFrames, List.map_cons, h.length_frames, ← h.openScopes_eq]
    rfl
  numbers := by
    rw [size_openScope, List.range_succ, h.length_frames]
    exact (h.numbers.cons t.size).trans (List.perm_append_singleton t.size _).symm
  declarations := by
    rintro f (_ | ⟨_, hf⟩)
    · rw [scope_openScope, if_pos h.length_frames]
    · rw [scope_openScope, if_neg (Nat.ne_of_lt (h.number_lt hf))]
      exact h.declarations f hf
  names := by
    rintro f (_ | ⟨_, hf⟩)
    · exact List.nodup_nil
    · exact h.names f hf

/-- To close the current scope is to put the top frame aside. -/
theorem closeScope (h : t.Matches s) {parent : ScopeFrame} {below : List ScopeFrame}
    (hb : s.below = parent :: below) :
    ({ t with cursor := parent.number, outer := below.map ScopeFrame.number } : ScopeTree).Matches
      ⟨parent, below, s.top :: s.closed⟩ := by
  have hperm : (ScopeStack.frames ⟨parent, below, s.top :: s.closed⟩).Perm s.frames := by
    rw [ScopeStack.frames, ScopeStack.frames, ScopeStack.openFrames, ScopeStack.openFrames, hb]
    exact List.perm_middle
  refine ⟨rfl, (hperm.map _).trans h.numbers, fun f hf => ?_, fun f hf => ?_⟩
  · exact h.declarations f (hperm.mem_iff.mp hf)
  · exact h.names f (hperm.mem_iff.mp hf)

/-- A declaration in the current scope is one in the top frame. -/
theorem declare (h : t.Matches s) {d : Declaration} (hnew : s.top.find? d.name = none) :
    ({ t with scopes := t.scopes.modify t.cursor (·.declare d) } : ScopeTree).Matches
      { s with top := { s.top with declarations := s.top.declarations ++ [d] } } := by
  have hscope := scope_modify t t.cursor (·.declare d)
  have htop := top_mem s
  obtain ⟨hfresh, -⟩ := List.nodup_cons.mp h.nodup_numbers
  refine ⟨h.openScopes_eq, ?_, ?_, ?_⟩
  · rw [size, List.length_modify]
    exact h.numbers
  · rintro f (_ | ⟨_, hf⟩)
    · have hlt : s.top.number < t.size := h.number_lt htop
      rw [hscope, if_pos ⟨h.cursor_eq.symm, hlt⟩, Scope.declare, h.declarations s.top htop]
    · have hne : f.number ≠ t.cursor := by
        rw [h.cursor_eq]
        exact fun he => hfresh (he ▸ List.mem_map_of_mem hf)
      rw [hscope, if_neg fun hboth => hne hboth.1]
      exact h.declarations f (List.mem_cons_of_mem _ hf)
  · rintro f (_ | ⟨_, hf⟩)
    · rw [List.map_append, List.nodup_append]
      refine ⟨h.names s.top htop, List.pairwise_singleton _ _, fun name hname _ hd => ?_⟩
      obtain ⟨previous, hprevious, rfl⟩ := List.mem_map.mp hname
      obtain rfl := List.mem_singleton.mp hd
      simpa using List.find?_eq_none.mp hnew previous hprevious
    · exact h.names f (List.mem_cons_of_mem _ hf)

/-- A type is given to a name in the frame of the scope. -/
theorem setType (h : t.Matches s) (number : Nat) (name typeName : String) :
    (t.setType number name typeName).Matches
      ⟨s.top.setType number name typeName, s.below.map (·.setType number name typeName),
        s.closed.map (·.setType number name typeName)⟩ := by
  have hframes : ScopeStack.frames ⟨s.top.setType number name typeName,
      s.below.map (·.setType number name typeName), s.closed.map (·.setType number name typeName)⟩ =
        s.frames.map (·.setType number name typeName) := by
    simp [ScopeStack.frames, ScopeStack.openFrames]
  refine ⟨?_, ?_, fun f hf => ?_, fun f hf => ?_⟩
  · refine h.openScopes_eq.trans ?_
    simp [ScopeStack.openFrames, Function.comp_def]
  · rw [hframes, List.map_map]
    simpa [size, ScopeTree.setType, Function.comp_def] using h.numbers
  · rw [hframes] at hf
    obtain ⟨f, hmem, rfl⟩ := List.mem_map.mp hf
    rw [ScopeFrame.number_setType, ScopeTree.setType, scope_modify, ScopeFrame.setType]
    by_cases he : f.number = number
    · have hnames : ((t.scope f.number).declarations.map Declaration.name).Nodup := by
        rw [h.declarations f hmem]
        exact h.names f hmem
      rw [if_pos ⟨he, h.number_lt hmem⟩, if_pos he, Scope.declarations_setType hnames,
        h.declarations f hmem]
    · rw [if_neg fun hboth => he hboth.1, if_neg he]
      exact h.declarations f hmem
  · rw [hframes] at hf
    obtain ⟨f, hmem, rfl⟩ := List.mem_map.mp hf
    rw [ScopeFrame.names_setType]
    exact h.names f hmem

/-- Every operation is answered alike and leads to a tree that holds what the stack holds. -/
theorem step (h : t.Matches s) (o : ScopeOperation) :
    (t.perform o).1 = (s.perform o).1 ∧ (t.perform o).2.Matches (s.perform o).2 := by
  cases o with
  | openScope name kind =>
    refine ⟨?_, h.openScope name kind⟩
    rw [ScopeStack.perform, h.length_frames]
    rfl
  | closeScope =>
    rw [ScopeTree.perform, ScopeStack.perform, ScopeTree.closeScope, h.outer_eq]
    cases hb : s.below with
    | nil => exact ⟨rfl, h⟩
    | cons parent below =>
      refine ⟨?_, h.closeScope hb⟩
      rw [h.cursor_eq]
      rfl
  | declare d =>
    rw [ScopeTree.perform, ScopeStack.perform, ScopeTree.declare, h.find?_current]
    cases hfind : s.top.find? d.name with
    | none => exact ⟨rfl, h.declare hfind⟩
    | some previous => exact ⟨rfl, h⟩
  | setType number name typeName =>
    refine ⟨?_, h.setType number name typeName⟩
    rw [ScopeTree.perform, h.isSome_find?_scope]
    rfl
  | resolve name =>
    refine ⟨?_, h⟩
    rw [ScopeTree.perform, h.resolve?_eq]
    rfl
  | find name =>
    refine ⟨?_, h⟩
    rw [ScopeTree.perform, h.find?_current]
    rfl

/-- All operations together are answered alike. -/
theorem steps (h : t.Matches s) (operations : List ScopeOperation) :
    (performAll ScopeTree.perform t operations).1 =
        (performAll ScopeStack.perform s operations).1 ∧
      (performAll ScopeTree.perform t operations).2.Matches
        (performAll ScopeStack.perform s operations).2 := by
  induction operations generalizing t s with
  | nil => exact ⟨rfl, h⟩
  | cons o rest ih =>
    obtain ⟨hanswer, hstep⟩ := h.step o
    obtain ⟨hanswers, hrest⟩ := ih hstep
    exact ⟨congrArg₂ List.cons hanswer hanswers, hrest⟩

end Matches

/-! ### What no operation changes -/

variable {t : ScopeTree}

/-- Every operation keeps the links between scopes. -/
theorem Linked.step (h : t.Linked) (o : ScopeOperation) : (t.perform o).2.Linked := by
  cases o with
  | openScope name kind => exact h.openScope name kind
  | closeScope =>
    rw [ScopeTree.perform]
    cases hc : t.closeScope with
    | ok t' => exact h.closeScope hc
    | error e => exact h
  | declare d =>
    rw [ScopeTree.perform, ScopeTree.declare]
    cases t.current.find? d.name with
    | none => exact h.modify (f := (·.declare d)) (fun _ => rfl) t.cursor
    | some previous => exact h
  | setType number name typeName =>
    exact h.modify (fun s => s.parent_setType name typeName) number
  | resolve name => exact h
  | find name => exact h

/-- An operation that fails changes nothing. -/
theorem perform_of_isFailure {o : ScopeOperation} (h : (t.perform o).1.isFailure = true) :
    (t.perform o).2 = t := by
  cases o with
  | openScope name kind => cases h
  | closeScope =>
    rw [perform] at h ⊢
    cases hc : t.closeScope with
    | ok t' =>
      rw [hc] at h
      cases h
    | error e => rfl
  | declare d =>
    rw [perform] at h ⊢
    cases hd : t.declare d with
    | ok t' =>
      rw [hd] at h
      cases h
    | error e => rfl
  | setType number name typeName =>
    refine setType_of_find?_eq_none ?_
    simpa [perform, ScopeAnswer.isFailure] using h
  | resolve name => rfl
  | find name => rfl

/-- A scope that was closed: it is there, but it is not open. -/
def Retired (t : ScopeTree) (number : Nat) : Prop :=
  number < t.size ∧ number ∉ t.openScopes

/-- A closed scope is never opened again. -/
theorem Retired.step {number : Nat} (h : t.Retired number) (o : ScopeOperation) :
    (t.perform o).2.Retired number := by
  obtain ⟨hlt, hopen⟩ := h
  cases o with
  | openScope name kind =>
    refine ⟨?_, List.not_mem_cons_of_ne_of_not_mem (Nat.ne_of_lt hlt) hopen⟩
    exact Nat.lt_of_lt_of_le hlt (by simp [ScopeTree.perform, ScopeTree.openScope, size])
  | closeScope =>
    rw [ScopeTree.perform, ScopeTree.closeScope]
    cases ho : t.outer with
    | nil => exact ⟨hlt, hopen⟩
    | cons parent outer =>
      rw [openScopes, ho] at hopen
      exact ⟨hlt, fun hmem => hopen (List.mem_cons_of_mem _ hmem)⟩
  | declare d =>
    rw [ScopeTree.perform, ScopeTree.declare]
    cases t.current.find? d.name with
    | none => exact ⟨by simpa [size] using hlt, hopen⟩
    | some previous => exact ⟨hlt, hopen⟩
  | setType number' name typeName =>
    exact ⟨by simpa [ScopeTree.perform, setType, size] using hlt, hopen⟩
  | resolve name => exact ⟨hlt, hopen⟩
  | find name => exact ⟨hlt, hopen⟩

/-- A name is only found in an open scope. -/
theorem mem_openScopes_of_resolve? {name : String} {number : Nat} {d : Declaration}
    (h : t.resolve? name = some (number, d)) : number ∈ t.openScopes := by
  obtain ⟨number', hmem, hfound⟩ := List.exists_of_findSome?_eq_some h
  obtain ⟨d', -, he⟩ := Option.map_eq_some_iff.mp hfound
  obtain ⟨rfl, -⟩ := Prod.mk.inj he
  exact hmem

theorem resolve?_of_perform {o : ScopeOperation} {found : Option (Nat × Declaration)}
    (h : (t.perform o).1 = .resolved found) : ∃ name, t.resolve? name = found := by
  cases o with
  | resolve name => exact ⟨name, ScopeAnswer.resolved.inj h⟩
  | closeScope =>
    rw [perform] at h
    split at h <;> cases h
  | declare d =>
    rw [perform] at h
    split at h <;> cases h
  | openScope name kind => cases h
  | setType number name typeName => cases h
  | find name => cases h

/-- No name is found in a closed scope. -/
theorem Retired.not_mem_answers {number : Nat} (h : t.Retired number)
    (operations : List ScopeOperation) (d : Declaration) :
    .resolved (some (number, d)) ∉ (performAll ScopeTree.perform t operations).1 := by
  induction operations generalizing t with
  | nil => exact List.not_mem_nil
  | cons o rest ih =>
    refine List.not_mem_cons_of_ne_of_not_mem (fun he => ?_) (ih (h.step o))
    obtain ⟨name, hfound⟩ := resolve?_of_perform he.symm
    exact h.2 (mem_openScopes_of_resolve? hfound)

/-- A scope whose closing is answered is closed from then on. -/
theorem Matches.retired_of_perform {s : ScopeStack} (h : t.Matches s) {o : ScopeOperation}
    {number : Nat} (ho : (t.perform o).1 = .closed number) : (t.perform o).2.Retired number := by
  cases o with
  | closeScope =>
    rw [perform, ScopeTree.closeScope] at ho ⊢
    cases houter : t.outer with
    | nil =>
      rw [houter] at ho
      cases ho
    | cons parent outer =>
      rw [houter] at ho
      obtain rfl := ScopeAnswer.closed.inj ho
      have hnodup : t.openScopes.Nodup := by
        rw [h.openScopes_eq]
        exact h.nodup_numbers.sublist ((List.sublist_append_left _ _).map _)
      rw [openScopes, houter] at hnodup
      refine ⟨?_, (List.nodup_cons.mp hnodup).1⟩
      rw [h.cursor_eq]
      exact h.number_lt (top_mem s)
  | declare d =>
    rw [perform] at ho
    split at ho <;> cases ho
  | resolve name => cases ho
  | openScope name kind => cases ho
  | setType number name typeName => cases ho
  | find name => cases ho

/-- What was closed by any of the operations is closed in the end. -/
theorem Matches.retired_of_mem_answers {s : ScopeStack} (h : t.Matches s)
    {operations : List ScopeOperation} {number : Nat}
    (ho : .closed number ∈ (performAll ScopeTree.perform t operations).1) :
    (performAll ScopeTree.perform t operations).2.Retired number := by
  induction operations generalizing t s with
  | nil => cases ho
  | cons o rest ih =>
    rcases List.mem_cons.mp ho with he | hmem
    · exact performAll_preserves (P := (Retired · number))
        (fun t o hretired => hretired.step o) (h.retired_of_perform he.symm) rest
    · exact ih (h.step o).2 hmem

/-- Every sequence of operations on a new tree is answered as by a stack, and the scopes that are
open in the end are the ones around the current scope. An operation that fails then changes
nothing, and no name is found any more in a scope that was closed. -/
theorem answers_eq_stack (operations : List ScopeOperation) :
    (performAll ScopeTree.perform .initial operations).1 =
        (performAll ScopeStack.perform .initial operations).1 ∧
      let t := (performAll ScopeTree.perform .initial operations).2
      t.openScopes = t.enclosing t.cursor ∧
      (∀ o, (t.perform o).1.isFailure = true → (t.perform o).2 = t) ∧
      ∀ number, .closed number ∈ (performAll ScopeTree.perform .initial operations).1 →
        ∀ later d, .resolved (some (number, d)) ∉ (performAll ScopeTree.perform t later).1 := by
  obtain ⟨hanswers, -⟩ := Matches.initial.steps operations
  have hlinked : (performAll ScopeTree.perform .initial operations).2.Linked :=
    performAll_preserves (fun t o hlinked => hlinked.step o) .initial operations
  refine ⟨hanswers, hlinked.openScopes_eq, fun o ho => ?_, fun number hnumber later d => ?_⟩
  · exact perform_of_isFailure ho
  · exact (Matches.initial.retired_of_mem_answers hnumber).not_mem_answers later d

/-- A name of a block hides one around it until the block is closed. -/
example :
    (performAll ScopeTree.perform .initial
      [.declare ⟨"x", .val, none, 1, 5⟩, .openScope "block" .block,
        .declare ⟨"x", .var, none, 2, 9⟩, .resolve "x", .closeScope, .resolve "x"]).1 =
      [.declared, .opened 1, .declared, .resolved (some (1, ⟨"x", .var, none, 2, 9⟩)), .closed 1,
        .resolved (some (0, ⟨"x", .val, none, 1, 5⟩))] := by
  decide

end ScopeTree

end PredictiveFrontend
