import PrefixLogic.Proofs.Environment.Edit
import PrefixLogic.Proofs.Formula.Sequence

namespace PrefixLogic

theorem Evaluation.applyAll_append_onwards {evaluation : Evaluation} {edits : List Edit}
    {env : Environment} {next : Bool → Environment → Evaluation}
    {nextEdits : Bool → Environment → List Edit}
    (hedits : Edit.applyAll edits env = evaluation.2)
    (hnext : ∀ value after, Edit.applyAll (nextEdits value after) after = (next value after).2) :
    Edit.applyAll (edits ++ evaluation.onwards nextEdits) env =
      (evaluation.andThen next).2 := by
  rw [Edit.applyAll_append, hedits]
  rcases evaluation with ⟨_ | value, after⟩
  · rfl
  · exact hnext value after

namespace Formula

/-- All that evaluation does to an environment, edit by edit, up to where it may fail. What
    is bound for a body is removed behind it, also where the body fails. -/
def edits : Formula → Environment → List Edit
  | .ref _, _ => []
  | .literal _, _ => []
  | .null, _ => []
  | .not operand, env => operand.edits env
  | .binary _ left right, env =>
    left.edits env ++ (left.eval env).onwards fun _ between => right.edits between
  | .set name binding, env =>
    binding.edits env ++ (binding.eval env).onwards fun value _ => [.define name value]
  | .letIn name binding body, env =>
    binding.edits env ++ (binding.eval env).onwards fun value after =>
      .define name value :: (body.edits (after.insert name value) ++ [.remove name])

/-- Evaluation leaves what its edits make of the environment. -/
theorem applyAll_edits (formula : Formula) (env : Environment) :
    Edit.applyAll (formula.edits env) env = (formula.eval env).2 := by
  induction formula generalizing env with
  | ref name =>
    rw [eval]
    split <;> rfl
  | literal value => rfl
  | null => rfl
  | not operand ih =>
    rw [eval_not, edits, ih]
    rcases operand.eval env with ⟨_ | value, after⟩ <;> rfl
  | binary connective left right ihleft ihright =>
    rw [eval_binary]
    refine Evaluation.applyAll_append_onwards (ihleft env) fun _ between => ?_
    rw [ihright]
    rcases right.eval between with ⟨_ | value, after⟩ <;> rfl
  | set name binding ih =>
    rw [eval_set]
    exact Evaluation.applyAll_append_onwards (ih env) fun _ _ => rfl
  | letIn name binding body ihbinding ihbody =>
    rw [eval_letIn]
    refine Evaluation.applyAll_append_onwards (ihbinding env) fun value after => ?_
    rw [Edit.applyAll_cons, Edit.applyAll_append]
    exact congrArg (·.erase name) (ihbody (after.insert name value))

end Formula

end PrefixLogic
