import PredictiveFrontend.Proofs.Derivation.MoveLimit
import PredictiveFrontend.Proofs.Derivation.Soundness

/-!
# Machines in lockstep

A machine may go on only as another one does, for instance because its table has fewer entries or
because it accepts earlier. Both are then in the same states as long as the first one goes on, so it
comes to its end no later than the other one.
-/

namespace PredictiveFrontend

namespace Machine

variable {g g' : CompiledGrammar} {strict strict' : Bool}

/-- Every transition of a machine is one of another machine. -/
def GoesAlong (g : CompiledGrammar) (strict : Bool) (g' : CompiledGrammar) (strict' : Bool) :
    Prop :=
  ∀ s s', Transition g strict s s' → Transition g' strict' s s'

namespace GoesAlong

variable (h : GoesAlong g strict g' strict')
include h

/-- The other machine comes by every state that is reached. -/
theorem reaches {s s' : State} (hr : Reaches g strict s s') : Reaches g' strict' s s' :=
  Relation.ReflTransGen.mono h s s' hr

/-- A machine that goes along with one that comes to an end does so as well. -/
theorem isFinished_run {n : Nat} {s : State} (hend : (run g' strict' n s).isFinished = true) :
    (run g strict n s).isFinished = true := by
  induction n generalizing s with
  | zero => cases hend
  | succ n ih =>
    cases hm : move g strict s with
    | next s' =>
      have ht : Transition g strict s s' := move_eq_next.mp hm
      rw [(h s s' ht).run_succ] at hend
      rw [ht.run_succ]
      exact ih hend
    | accept =>
      rw [run, hm]
      rfl
    | reject expected =>
      rw [run, hm]
      rfl

end GoesAlong

end Machine

end PredictiveFrontend
