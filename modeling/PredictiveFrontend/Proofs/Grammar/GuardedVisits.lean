import PredictiveFrontend.Grammar.Follow

/-!
# Guarded visits

Visits take occurrences into account one by one and in an order of their own, but all they ever do
is what an occurrence asks for: take what its rest begins with, or inherit from its owner. What both
of these keep is kept by the visits together.
-/

namespace PredictiveFrontend

namespace Follow

variable {size : Nat} {first : SetFamily size} {occurrences : List Occurrence}

/-- A task that an occurrence asks for, or a visit. -/
inductive Task.Asked (first : SetFamily size) (occurrences : List Occurrence) :
    Task size → Prop where
  /-- An occurrence takes what the rest behind it begins with. -/
  | take (o : Occurrence) (ho : o ∈ occurrences) :
    Asked first occurrences (.take o.symbol (direct first o))
  /-- An occurrence whose rest can vanish inherits from its owner. -/
  | inherit (o : Occurrence) (ho : o ∈ occurrences) (hi : inherits first o = true) :
    Asked first occurrences (.inherit o.symbol o.owner)
  | visit (visitor symbol : Code) : Asked first occurrences (.visit visitor symbol)

/-- A visit sets no other tasks. -/
theorem asked_of_mem_tasksOf {symbol : Code} {task : Task size}
    (h : task ∈ tasksOf first occurrences symbol) : task.Asked first occurrences := by
  obtain ⟨o, ho, htask⟩ := List.mem_flatMap.mp h
  have ho : o ∈ occurrences := (List.mem_filter.mp ho).1
  rcases List.mem_cons.mp htask with rfl | htask
  · exact .take o ho
  · by_cases hi : inherits first o = true
    · rw [if_pos hi] at htask
      rcases List.mem_cons.mp htask with rfl | htask
      · exact .visit o.symbol o.owner
      · obtain rfl := List.mem_singleton.mp htask
        exact .inherit o ho hi
    · rw [if_neg hi] at htask
      cases htask

/-- What taking and inheriting keep, at every occurrence, is kept by visits. -/
theorem perform_induction {P : SetFamily size → Prop}
    (take : ∀ o ∈ occurrences, ∀ follow, P follow → P (follow.add o.symbol (direct first o)))
    (inherit : ∀ o ∈ occurrences, inherits first o = true → ∀ follow, P follow →
      P (follow.add o.symbol (follow.get o.owner)))
    {tasks : List (Task size)} (htasks : ∀ task ∈ tasks, task.Asked first occurrences)
    {seen follow : SetFamily size} (h : P follow) :
    P (perform first occurrences tasks seen follow) := by
  fun_induction perform first occurrences tasks seen follow with
  | case1 => exact h
  | case2 seen follow symbol terminals rest ih =>
    obtain ⟨htask, hrest⟩ := List.forall_mem_cons.mp htasks
    cases htask with
    | take o ho => exact ih hrest (take o ho follow h)
  | case3 seen follow symbol owner rest ih =>
    obtain ⟨htask, hrest⟩ := List.forall_mem_cons.mp htasks
    cases htask with
    | inherit o ho hi => exact ih hrest (inherit o ho hi follow h)
  | case4 seen follow visitor symbol rest seen' hseen ih =>
    exact ih (List.forall_mem_cons.mp htasks).2 h
  | case5 seen follow visitor symbol rest seen' hseen ih =>
    refine ih (fun task htask => ?_) h
    rcases List.mem_append.mp htask with htask | htask
    · exact asked_of_mem_tasksOf htask
    · exact (List.forall_mem_cons.mp htasks).2 task htask

/-! ### Visits in so many steps -/

/-- Do tasks in a bounded number of steps, if that is enough. -/
def performWithin (first : SetFamily size) (occurrences : List Occurrence) :
    Nat → List (Task size) → SetFamily size → SetFamily size → Option (SetFamily size)
  | _, [], _, follow => some follow
  | 0, _ :: _, _, _ => none
  | n + 1, .take symbol terminals :: rest, seen, follow =>
    performWithin first occurrences n rest seen (follow.add symbol terminals)
  | n + 1, .inherit symbol owner :: rest, seen, follow =>
    performWithin first occurrences n rest seen (follow.add symbol (follow.get owner))
  | n + 1, .visit visitor symbol :: rest, seen, follow =>
    let seen' := seen.add visitor (CodeSet.singleton symbol)
    if seen' = seen then performWithin first occurrences n rest seen follow
    else performWithin first occurrences n (tasksOf first occurrences symbol ++ rest) seen' follow

/-- Tasks that are done in so many steps are done alike without a bound. -/
theorem perform_eq_of_performWithin {n : Nat} {tasks : List (Task size)}
    {seen follow result : SetFamily size}
    (h : performWithin first occurrences n tasks seen follow = some result) :
    perform first occurrences tasks seen follow = result := by
  fun_induction performWithin first occurrences n tasks seen follow with
  | case1 n seen follow =>
    rw [perform]
    exact Option.some.inj h
  | case2 => cases h
  | case3 n seen follow symbol terminals rest ih =>
    rw [perform]
    exact ih h
  | case4 n seen follow symbol owner rest ih =>
    rw [perform]
    exact ih h
  | case5 n seen follow visitor symbol rest seen' hseen ih =>
    rw [perform, if_pos hseen]
    exact ih h
  | case6 n seen follow visitor symbol rest seen' hseen ih =>
    rw [perform, if_neg hseen]
    exact ih h

end Follow

/-- What taking and inheriting keep, at every occurrence, is true of the FOLLOW sets by visits if it
is true at first. -/
theorem Grammar.followGuarded_induction {g : Grammar} {first : SetFamily g.alphabet.size}
    {P : SetFamily g.alphabet.size → Prop}
    (take : ∀ o ∈ g.occurrences, ∀ follow, P follow →
      P (follow.add o.symbol (Follow.direct first o)))
    (inherit : ∀ o ∈ g.occurrences, Follow.inherits first o = true → ∀ follow, P follow →
      P (follow.add o.symbol (follow.get o.owner)))
    (initial : P (Follow.initial g.start)) : P (g.followGuarded first) := by
  refine Follow.perform_induction take inherit (fun task htask => ?_) initial
  obtain ⟨symbol, -, htask⟩ := List.mem_flatMap.mp htask
  exact Follow.asked_of_mem_tasksOf htask

end PredictiveFrontend
