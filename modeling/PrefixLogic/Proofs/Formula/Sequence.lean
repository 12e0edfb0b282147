import PrefixLogic.Formula.Eval

namespace PrefixLogic

namespace Evaluation

/-- Goes on with the value that an evaluation leads to, in the environment that it
    leaves. After an error there is nothing to go on with. -/
def andThen (evaluation : Evaluation) (next : Bool → Environment → Evaluation) : Evaluation :=
  match evaluation with
  | (.ok value, env) => next value env
  | (.error error, env) => (.error error, env)

theorem andThen_of_error {evaluation : Evaluation} {error : EvaluationError}
    (herror : evaluation.1 = .error error) (next : Bool → Environment → Evaluation) :
    (evaluation.andThen next).1 = .error error := by
  obtain ⟨result, after⟩ := evaluation
  cases herror
  rfl

theorem andThen_eq_ok {evaluation : Evaluation} {next : Bool → Environment → Evaluation}
    {value : Bool} (hvalue : (evaluation.andThen next).1 = .ok value) :
    ∃ first between, evaluation = (.ok first, between) ∧ (next first between).1 = .ok value := by
  rcases evaluation with ⟨_ | first, between⟩
  · cases hvalue
  · exact ⟨first, between, rfl, hvalue⟩

theorem andThen_eq_error {evaluation : Evaluation} {next : Bool → Environment → Evaluation}
    {error : EvaluationError} (herror : (evaluation.andThen next).1 = .error error) :
    (∃ after, evaluation = (.error error, after)) ∨
      ∃ first between, evaluation = (.ok first, between) ∧
        (next first between).1 = .error error := by
  rcases evaluation with ⟨_ | first, between⟩
  · cases herror
    exact .inl ⟨between, rfl⟩
  · exact .inr ⟨first, between, rfl, herror⟩

theorem andThen_ok (value : Bool) (env : Environment)
    (next : Bool → Environment → Evaluation) : andThen (.ok value, env) next = next value env :=
  rfl

theorem andThen_value (evaluation : Evaluation) :
    (evaluation.andThen fun value after => (.ok value, after)) = evaluation := by
  rcases evaluation with ⟨_ | value, after⟩ <;> rfl

theorem andThen_assoc (evaluation : Evaluation) (next next' : Bool → Environment → Evaluation) :
    (evaluation.andThen next).andThen next' =
      evaluation.andThen fun value after => (next value after).andThen next' := by
  rcases evaluation with ⟨_ | value, after⟩ <;> rfl

theorem andThen_eq_ok_iff {evaluation : Evaluation} {next : Bool → Environment → Evaluation}
    {value : Bool} {after : Environment} :
    evaluation.andThen next = (.ok value, after) ↔
      ∃ first between, evaluation = (.ok first, between) ∧
        next first between = (.ok value, after) := by
  constructor
  · intro hvalue
    obtain ⟨first, between, rfl, -⟩ := andThen_eq_ok (congrArg Prod.fst hvalue)
    exact ⟨first, between, rfl, hvalue⟩
  · rintro ⟨first, between, rfl, hvalue⟩
    exact hvalue

/-- Unbinds a name at the end of an evaluation, whether that has a value or not. -/
def releasing (evaluation : Evaluation) (name : String) : Evaluation :=
  (evaluation.1, evaluation.2.erase name)

end Evaluation

namespace Formula

variable (env : Environment)

theorem eval_not (operand : Formula) :
    (not operand).eval env = (operand.eval env).andThen fun value after => (.ok !value, after) := by
  rw [eval]
  rcases operand.eval env with ⟨_ | value, after⟩ <;> rfl

theorem eval_binary (connective : Connective) (left right : Formula) :
    (binary connective left right).eval env =
      (left.eval env).andThen fun x between =>
        (right.eval between).andThen fun y after => (.ok (connective.apply x y), after) := by
  rw [eval]
  rcases left.eval env with ⟨_ | x, between⟩
  · rfl
  · dsimp only [Evaluation.andThen]
    rcases right.eval between with ⟨_ | y, after⟩ <;> rfl

theorem eval_set (name : String) (binding : Formula) :
    (set name binding).eval env =
      (binding.eval env).andThen fun value after => (.ok value, after.insert name value) := by
  rw [eval]
  rcases binding.eval env with ⟨_ | value, after⟩ <;> rfl

theorem eval_letIn (name : String) (binding body : Formula) :
    (letIn name binding body).eval env =
      (binding.eval env).andThen fun value after =>
        (body.eval (after.insert name value)).releasing name := by
  rw [eval]
  rcases binding.eval env with ⟨_ | value, after⟩ <;> rfl

end Formula

end PrefixLogic
