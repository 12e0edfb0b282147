import PrefixLogic.Proofs.Formula.Coupling

namespace PrefixLogic

namespace Environment

/-- What is found under a name in one environment is found in the other. -/
def WithinAt (_ : String) (found found' : Option Bool) : Prop :=
  ∀ value, found = some value → found' = some value

/-- Whatever one environment binds, the other binds to the same value. -/
def Within : Environment → Environment → Prop :=
  Related WithinAt

theorem within_iff {a b : Environment} : a.Within b ↔ a.bindings ⊆ b.bindings := by
  constructor
  · rintro hwithin ⟨name, value⟩ hmem
    rw [mem_bindings_iff] at hmem ⊢
    exact hwithin name value hmem
  · intro hsubset name value hvalue
    rw [← mem_bindings_iff] at hvalue ⊢
    exact hsubset hvalue

end Environment

open Environment

/-- A second evaluation has the value that a first one has, and leaves every binding
    that the first one leaves. Where the first one fails nothing is said, for the
    second one may then go on, and unbind what the first one has kept. -/
inductive Evaluation.Within : Evaluation → Evaluation → Prop
  | value {value : Bool} {after after' : Environment} (hafter : after.Within after') :
      Within (.ok value, after) (.ok value, after')
  | failed {error : EvaluationError} {after : Environment} {second : Evaluation} :
      Within (.error error, after) second

namespace Evaluation.Within

variable {first second : Evaluation}

theorem of_ok (hwithin : Within first second) {value : Bool} (hvalue : first.1 = .ok value) :
    second.1 = .ok value ∧ first.2.Within second.2 := by
  cases hwithin with
  | value hafter => exact ⟨hvalue, hafter⟩
  | failed => cases hvalue

theorem coupling : Coupling WithinAt Evaluation.Within where
  same := fun _ _ _ hvalue => hvalue
  value := fun hwithin _ => .value hwithin
  null := fun _ => .failed
  releasing := by
    intro first second hwithin name
    cases hwithin with
    | value hafter => exact .value (hafter.erase fun _ hvalue => hvalue)
    | failed => exact .failed
  andThen := by
    intro first second hwithin next next' hnext
    cases hwithin with
    | value hafter => exact hnext _ _ _ hafter
    | failed => exact .failed

end Evaluation.Within

namespace Formula

theorem within_eval (formula : Formula) {a b : Environment} (hwithin : a.Within b) :
    Evaluation.Within (formula.eval a) (formula.eval b) := by
  refine Evaluation.Within.coupling.eval ?_ hwithin
  intro name _ a b hwithin
  rw [eval]
  cases hvalue : a.get? name with
  | none => exact .failed
  | some value =>
    rw [eval, hwithin name value hvalue]
    exact .value hwithin

/-- The results of formulas that are evaluated one after the other, each in the
    environment that the one before it leaves, and the environment behind them all. -/
def evalEach : List Formula → Environment → List (Except EvaluationError Bool) × Environment
  | [], env => ([], env)
  | formula :: rest, env =>
    match formula.eval env with
    | (result, between) =>
      match evalEach rest between with
      | (results, after) => (result :: results, after)

theorem evalEach_cons (formula : Formula) (rest : List Formula) (env : Environment) :
    evalEach (formula :: rest) env =
      ((formula.eval env).1 :: (evalEach rest (formula.eval env).2).1,
        (evalEach rest (formula.eval env).2).2) :=
  rfl

theorem evalEach_within {formulas : List Formula} {values : List Bool} {a b : Environment}
    (hwithin : a.Within b) (hvalues : (evalEach formulas a).1 = values.map .ok) :
    (evalEach formulas b).1 = values.map .ok ∧
      (evalEach formulas a).2.Within (evalEach formulas b).2 := by
  induction formulas generalizing values a b with
  | nil => exact ⟨hvalues, hwithin⟩
  | cons formula rest ih =>
    rw [evalEach_cons] at hvalues ⊢
    obtain ⟨value, values, rfl, hvalue, hrest⟩ := List.map_eq_cons_iff.mp hvalues.symm
    obtain ⟨hvalue', hbetween⟩ := (formula.within_eval hwithin).of_ok hvalue.symm
    obtain ⟨hrest', hafter⟩ := ih hbetween hrest.symm
    rw [evalEach_cons, hvalue', hrest']
    exact ⟨rfl, hafter⟩

/-- What has a value in an environment has the same value in every environment that
    binds more, and leaves there all that it leaves here, though it may unbind more. So
    it is with formulas that are evaluated one after the other, as long as each of them
    has a value. -/
theorem eval_of_within {a b : Environment} (hsubset : a.bindings ⊆ b.bindings) :
    (∀ (formula : Formula) (value : Bool), (formula.eval a).1 = .ok value →
      (formula.eval b).1 = .ok value ∧
        (formula.eval a).2.bindings ⊆ (formula.eval b).2.bindings) ∧
    ∀ (formulas : List Formula) (values : List Bool), (evalEach formulas a).1 = values.map .ok →
      (evalEach formulas b).1 = values.map .ok ∧
        (evalEach formulas a).2.bindings ⊆ (evalEach formulas b).2.bindings := by
  have hwithin := within_iff.mpr hsubset
  constructor
  · intro formula value hvalue
    obtain ⟨hvalue', hafter⟩ := (formula.within_eval hwithin).of_ok hvalue
    exact ⟨hvalue', within_iff.mp hafter⟩
  · intro formulas values hvalues
    obtain ⟨hvalues', hafter⟩ := evalEach_within hwithin hvalues
    exact ⟨hvalues', within_iff.mp hafter⟩

/-- The larger environment loses an outer `x` to a `letIn`, which the smaller one has
    not got, and then looks up what the body has set. -/
theorem eval_of_within_shadowing :
    (empty.insert "p" true).bindings ⊆ ((empty.insert "p" true).insert "x" true).bindings ∧
    (evalEach [letIn "x" (not (ref "p")) (set "y" (ref "x")), binary .or (ref "y") (ref "p")]
      ((empty.insert "p" true).insert "x" true)).1 = [.ok false, .ok true] ∧
    ("y", false) ∈ (evalEach [letIn "x" (not (ref "p")) (set "y" (ref "x")),
      binary .or (ref "y") (ref "p")] ((empty.insert "p" true).insert "x" true)).2.bindings := by
  have hsubset : (empty.insert "p" true).bindings ⊆
      ((empty.insert "p" true).insert "x" true).bindings := by
    decide
  obtain ⟨-, heach⟩ := eval_of_within hsubset
  obtain ⟨hresults, hafter⟩ :=
    heach [letIn "x" (not (ref "p")) (set "y" (ref "x")), binary .or (ref "y") (ref "p")]
      [false, true] rfl
  exact ⟨hsubset, hresults, hafter (by decide)⟩

end Formula

end PrefixLogic
