import PrefixLogic.Proofs.Formula.Coupling

namespace PrefixLogic

namespace Environment

/-- Two environments answer alike for some names. -/
def AgreeOn (names : List String) (a b : Environment) : Prop :=
  ∀ name ∈ names, a.get? name = b.get? name

instance (names : List String) (a b : Environment) : Decidable (AgreeOn names a b) :=
  inferInstanceAs (Decidable (∀ name ∈ names, a.get? name = b.get? name))

/-- A name has been left alone in two environments, or it has come out alike. -/
def InStepAt (a b : Environment) (name : String) (found found' : Option Bool) : Prop :=
  (found = a.get? name ∧ found' = b.get? name) ∨ found = found'

/-- What two environments come to when the same happens to both. -/
def InStep (a b : Environment) : Environment → Environment → Prop :=
  Related (InStepAt a b)

theorem InStep.refl (a b : Environment) : InStep a b a b :=
  fun _ => .inl ⟨rfl, rfl⟩

/-- What is alike in the beginning is alike afterwards, changed or not. -/
theorem InStep.get?_eq {a b after after' : Environment} (hstep : InStep a b after after')
    {name : String} (hname : a.get? name = b.get? name) :
    after.get? name = after'.get? name := by
  rcases hstep name with ⟨hafter, hafter'⟩ | halike
  · rw [hafter, hafter', hname]
  · exact halike

end Environment

open Environment

/-- Two evaluations that lead to the same result and have changed the environments
    that they started from in the same way. -/
structure Evaluation.InStep (a b : Environment) (x y : Evaluation) : Prop where
  result : x.1 = y.1
  after : Environment.InStep a b x.2 y.2

theorem Evaluation.InStep.coupling (a b : Environment) :
    Coupling (InStepAt a b) (Evaluation.InStep a b) where
  same := fun _ _ => .inr rfl
  value := fun hstep _ => ⟨rfl, hstep⟩
  null := fun hstep => ⟨rfl, hstep⟩
  releasing := fun hstep _ => ⟨hstep.result, hstep.after.erase (.inr rfl)⟩
  andThen := by
    rintro ⟨result, after⟩ ⟨_, after'⟩ ⟨rfl, hafter⟩ next next' hnext
    cases result with
    | error error => exact ⟨rfl, hafter⟩
    | ok value => exact hnext value after after' hafter

namespace Formula

theorem inStep_eval {formula : Formula} {a b : Environment}
    (hagree : AgreeOn formula.refNames a b) :
    Evaluation.InStep a b (formula.eval a) (formula.eval b) := by
  refine (Evaluation.InStep.coupling a b).eval ?_ (InStep.refl a b)
  intro name hname after after' hstep
  rw [eval, eval, InStep.get?_eq hstep (hagree name hname)]
  cases after'.get? name with
  | none => exact ⟨rfl, hstep⟩
  | some value => exact ⟨rfl, hstep⟩

/-- Evaluation finds out nothing about a name that the formula does not refer to. Where
    the environments answer alike for the others, the result is the same, be it a value
    or an error, and every name is left alone in both environments or comes out alike,
    also one that is unbound in both and was bound in one only. -/
theorem eval_eq_of_agreeOn {formula : Formula} {a b : Environment}
    (hagree : AgreeOn formula.refNames a b) :
    (formula.eval a).1 = (formula.eval b).1 ∧
    ∀ name,
      ((formula.eval a).2.get? name = a.get? name ∧
        (formula.eval b).2.get? name = b.get? name) ∨
      (formula.eval a).2.get? name = (formula.eval b).2.get? name :=
  have hstep := inStep_eval hagree
  ⟨hstep.result, hstep.after⟩

/-- An outer `u` that only one environment has is lost, `y` comes out alike although
    only the other one had it before, and then the evaluation fails. -/
theorem eval_eq_of_agreeOn_failing :
    AgreeOn (binary .and (letIn "u" (ref "p") (set "y" (ref "p"))) (ref "q")).refNames
      ((empty.insert "p" true).insert "u" false) ((empty.insert "p" true).insert "y" false) ∧
    ((binary .and (letIn "u" (ref "p") (set "y" (ref "p"))) (ref "q")).eval
      ((empty.insert "p" true).insert "u" false)).1 = .error (.undefined "q") ∧
    ((binary .and (letIn "u" (ref "p") (set "y" (ref "p"))) (ref "q")).eval
      ((empty.insert "p" true).insert "y" false)).1 = .error (.undefined "q") ∧
    ((binary .and (letIn "u" (ref "p") (set "y" (ref "p"))) (ref "q")).eval
      ((empty.insert "p" true).insert "u" false)).2.get? "u" =
    ((binary .and (letIn "u" (ref "p") (set "y" (ref "p"))) (ref "q")).eval
      ((empty.insert "p" true).insert "y" false)).2.get? "u" := by
  have hagree :
      AgreeOn (binary .and (letIn "u" (ref "p") (set "y" (ref "p"))) (ref "q")).refNames
        ((empty.insert "p" true).insert "u" false) ((empty.insert "p" true).insert "y" false) := by
    decide
  obtain ⟨hresult, hnames⟩ := eval_eq_of_agreeOn hagree
  refine ⟨hagree, rfl, hresult ▸ rfl, ?_⟩
  rcases hnames "u" with ⟨hkept, -⟩ | halike
  · cases hkept
  · exact halike

end Formula

end PrefixLogic
