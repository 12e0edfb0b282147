import PrefixLogic.Proofs.Formula.Independence

namespace PrefixLogic

/-- What a connective says about two statements. -/
def Connective.Holds : Connective → Prop → Prop → Prop
  | .and, p, q => p ∧ q
  | .or, p, q => p ∨ q
  | .implies, p, q => p → q
  | .iff, p, q => p ↔ q

theorem Connective.apply_eq_true_iff (connective : Connective) (x y : Bool) :
    connective.apply x y = true ↔ connective.Holds (x = true) (y = true) := by
  cases connective with
  | and => exact Bool.and_eq_true_iff
  | or => exact Bool.or_eq_true_iff
  | implies => cases x <;> simp [apply, Holds]
  | iff => cases x <;> cases y <;> simp [apply, Holds]

/-- The names that are true in an environment. -/
def Environment.IsTrue (env : Environment) (name : String) : Prop :=
  env.get? name = some true

open Environment

namespace Formula

/-- Truth in classical logic, where every name stands for a statement. What has no
    meaning is not true, and neither is what binds a name, which logic cannot do. -/
def Holds (valuation : String → Prop) : Formula → Prop
  | .ref name => valuation name
  | .literal value => value = true
  | .not operand => ¬ operand.Holds valuation
  | .binary connective left right =>
    connective.Holds (left.Holds valuation) (right.Holds valuation)
  | _ => False

/-- The parts of a formula that have no parts themselves, from left to right. -/
def leaves : Formula → List Formula
  | .not operand => operand.leaves
  | .binary _ left right => left.leaves ++ right.leaves
  | .letIn _ binding body => binding.leaves ++ body.leaves
  | .set _ binding => binding.leaves
  | formula => [formula]

/-- Why a leaf has no value in an environment, if it has none. -/
def leafError? (env : Environment) : Formula → Option EvaluationError
  | .ref name => if env.isDefined name then none else some (.undefined name)
  | .null => some .null
  | _ => none

/-- Evaluation comes out as in classical logic: every leaf has a value, and so the
    formula has its truth value; or the first leaf without a value tells the error. In
    both cases the environment is left as it was. -/
inductive Logical (env : Environment) (formula : Formula) : Evaluation → Prop
  | value {value : Bool} (hleaves : formula.leaves.findSome? (leafError? env) = none)
      (htruth : value = true ↔ formula.Holds env.IsTrue) : Logical env formula (.ok value, env)
  | error {error : EvaluationError}
      (hfirst : formula.leaves.findSome? (leafError? env) = some error) :
      Logical env formula (.error error, env)

theorem logical_not {env : Environment} {operand : Formula} {evaluation : Evaluation}
    (hoperand : Logical env operand evaluation) :
    Logical env (.not operand) (evaluation.andThen fun value after => (.ok !value, after)) := by
  cases hoperand with
  | error hfirst => exact .error hfirst
  | @value value hleaves htruth =>
    refine .value hleaves ?_
    rw [Holds, ← htruth]
    simp

theorem logical_binary {env : Environment} {left right : Formula} {first : Evaluation}
    {second : Environment → Evaluation} (connective : Connective)
    (hleft : Logical env left first) (hright : Logical env right (second env)) :
    Logical env (.binary connective left right)
      (first.andThen fun x between =>
        (second between).andThen fun y after => (.ok (connective.apply x y), after)) := by
  cases hleft with
  | error hfirst =>
    refine .error ?_
    rw [leaves, List.findSome?_append, hfirst, Option.some_or]
  | value hleaves htruth =>
    have hrest : (binary connective left right).leaves.findSome? (leafError? env) =
        right.leaves.findSome? (leafError? env) := by
      rw [leaves, List.findSome?_append, hleaves, Option.none_or]
    rw [Evaluation.andThen_ok]
    generalize second env = evaluation at hright ⊢
    cases hright with
    | error hfirst => exact .error (hrest.trans hfirst)
    | value hleaves' htruth' =>
      refine .value (hrest.trans hleaves') ?_
      rw [Connective.apply_eq_true_iff, Holds, htruth, htruth']

theorem boundNames_binary_eq_nil_iff {connective : Connective} {left right : Formula} :
    (binary connective left right).boundNames = [] ↔
      left.boundNames = [] ∧ right.boundNames = [] := by
  simp only [boundNames, setNames, letNames, List.append_eq_nil_iff]
  grind

/-- Without bindings the right side of a connective finds the environment as the left
    side did, so all leaves are judged in one and the same environment. -/
theorem logical_eval {formula : Formula} (hfree : formula.boundNames = []) (env : Environment) :
    Logical env formula (formula.eval env) := by
  induction formula with
  | literal value => exact .value rfl Iff.rfl
  | null => exact .error rfl
  | ref name =>
    rw [eval]
    cases hvalue : env.get? name with
    | some value =>
      refine .value ?_ ?_
      · simp [leaves, leafError?, isDefined, hvalue]
      · simp [Holds, IsTrue, hvalue]
    | none =>
      refine .error ?_
      simp [leaves, leafError?, isDefined, hvalue]
  | not operand ih =>
    rw [eval_not]
    exact logical_not (ih hfree)
  | binary connective left right ihleft ihright =>
    obtain ⟨hleft, hright⟩ := boundNames_binary_eq_nil_iff.mp hfree
    rw [eval_binary]
    exact logical_binary connective (ihleft hleft) (ihright hright)
  | set name binding ih => simp [boundNames, setNames] at hfree
  | letIn name binding body ihbinding ihbody => simp [boundNames, letNames] at hfree

theorem leafError?_eq_none_iff {env : Environment} {leaf : Formula} :
    leaf.leafError? env = none ↔
      leaf ≠ .null ∧ ∀ name, leaf = .ref name → env.isDefined name = true := by
  cases leaf with
  | ref name => simp [leafError?]
  | null => simp [leafError?]
  | _ => simp [leafError?]

theorem findSome?_leafError?_eq_none_iff {env : Environment} {formula : Formula} :
    formula.leaves.findSome? (leafError? env) = none ↔
      .null ∉ formula.leaves ∧ ∀ name, .ref name ∈ formula.leaves → env.isDefined name = true := by
  simp only [List.findSome?_eq_none_iff, leafError?_eq_none_iff]
  grind

/-- A formula that binds nothing is evaluated as in classical logic, where a name stands
    for its value. It has a value exactly if every leaf has one, though the value of one
    side may settle that of a connective; and if not, then the error is that of the
    first leaf without a value. -/
theorem eval_eq_classical {formula : Formula} (hfree : formula.boundNames = [])
    (env : Environment) :
    (formula.eval env).2 = env ∧
    ((∃ value, (formula.eval env).1 = .ok value) ↔
      .null ∉ formula.leaves ∧ ∀ name, .ref name ∈ formula.leaves → env.isDefined name = true) ∧
    (∀ value, (formula.eval env).1 = .ok value → (value = true ↔ formula.Holds env.IsTrue)) ∧
    ((∀ valuation, formula.Holds valuation) → .null ∉ formula.leaves →
      (∀ name, .ref name ∈ formula.leaves → env.isDefined name = true) →
      (formula.eval env).1 = .ok true) ∧
    ∀ error, (formula.eval env).1 = .error error ↔
      ∃ front leaf back, formula.leaves = front ++ leaf :: back ∧
        leaf.leafError? env = some error ∧ ∀ other ∈ front, other.leafError? env = none := by
  have hlogical := logical_eval hfree env
  generalize formula.eval env = evaluation at hlogical ⊢
  simp only [← and_imp, ← findSome?_leafError?_eq_none_iff, ← List.findSome?_eq_some_iff]
  cases hlogical with
  | value hleaves htruth =>
    refine ⟨rfl, by simp [hleaves], ?_, ?_, by simp [hleaves]⟩
    · rintro value ⟨⟩
      exact htruth
    · rintro ⟨htautology, -⟩
      rw [htruth.mpr (htautology env.IsTrue)]
  | error hfirst => simp [hfirst]

/-- The left side is true and would settle the disjunction, but the first leaf of two
    without a value makes it fail. The second formula is true whatever `p` is. -/
theorem eval_eq_classical_settled :
    (binary .or (ref "p") (binary .and (ref "u") null)).boundNames = [] ∧
    ((binary .or (ref "p") (binary .and (ref "u") null)).eval (empty.insert "p" true)).1 =
      .error (.undefined "u") ∧
    (binary .implies (not (not (ref "p"))) (ref "p")).boundNames = [] ∧
    ((binary .implies (not (not (ref "p"))) (ref "p")).eval (empty.insert "p" false)).1 =
      .ok true := by
  have hfails : (binary .or (ref "p") (binary .and (ref "u") null)).boundNames = [] := rfl
  have htautology : (binary .implies (not (not (ref "p"))) (ref "p")).boundNames = [] := rfl
  obtain ⟨-, -, -, -, herror⟩ := eval_eq_classical hfails (empty.insert "p" true)
  obtain ⟨-, -, -, htrue, -⟩ := eval_eq_classical htautology (empty.insert "p" false)
  refine ⟨hfails, (herror _).mpr ⟨[ref "p"], ref "u", [null], rfl, rfl, by decide⟩,
    htautology, htrue ?_ (by decide) ?_⟩
  · intro valuation
    exact Classical.byContradiction
  · intro name hname
    obtain rfl : name = "p" := by simpa [leaves] using hname
    decide

end Formula

end PrefixLogic
