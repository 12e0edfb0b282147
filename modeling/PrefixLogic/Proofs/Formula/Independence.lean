import PrefixLogic.Proofs.Formula.Dependence
import PrefixLogic.Proofs.Formula.Frame

namespace PrefixLogic

/-- All connectives but implication treat their two sides alike. -/
theorem Connective.apply_comm {connective : Connective} (hconnective : connective ≠ .implies)
    (x y : Bool) : connective.apply x y = connective.apply y x := by
  cases connective with
  | and => exact Bool.and_comm x y
  | or => exact Bool.or_comm x y
  | implies => exact absurd rfl hconnective
  | iff => exact Bool.beq_comm

namespace Formula

/-- The names that a formula binds somewhere, to stay or for the length of a body. -/
def boundNames (formula : Formula) : List String :=
  formula.setNames ++ formula.letNames

theorem get?_eval_of_notMem {formula : Formula} {name : String}
    (hname : name ∉ formula.boundNames) (env : Environment) :
    (formula.eval env).2.get? name = env.get? name := by
  rw [boundNames, List.mem_append, not_or] at hname
  exact (formula.framed_eval env).get?_eq name hname.1 hname.2

/-- Two formulas of which neither binds a name that the other one refers to, and which
    bind no name in common. -/
structure Independent (left right : Formula) : Prop where
  right_reads : ∀ name ∈ left.boundNames, name ∉ right.refNames
  left_reads : ∀ name ∈ right.boundNames, name ∉ left.refNames
  bound : ∀ name ∈ left.boundNames, name ∉ right.boundNames

namespace Independent

variable {left right : Formula}

theorem symm (hindependent : Independent left right) : Independent right left where
  right_reads := hindependent.left_reads
  left_reads := hindependent.right_reads
  bound := fun name hright hleft => hindependent.bound name hleft hright

/-- The right one finds what it refers to as it was before the left one. -/
theorem inStep_eval (hindependent : Independent left right) (env : Environment) :
    Evaluation.InStep env (left.eval env).2 (right.eval env)
      (right.eval (left.eval env).2) := by
  apply Formula.inStep_eval
  intro name hname
  exact (get?_eval_of_notMem (fun hbound => hindependent.right_reads name hbound hname) env).symm

theorem get?_eval_eval (hindependent : Independent left right) {name : String}
    (hname : name ∉ left.boundNames) (env : Environment) :
    (right.eval (left.eval env).2).2.get? name = (right.eval env).2.get? name :=
  ((hindependent.inStep_eval env).after.get?_eq (get?_eval_of_notMem hname env).symm).symm

/-- Both orders leave the same environment, whether the formulas have values or not,
    for every name is settled by the one of them that binds it. -/
theorem eval_eval_comm (hindependent : Independent left right) (env : Environment) :
    (right.eval (left.eval env).2).2 = (left.eval (right.eval env).2).2 := by
  apply Environment.eq_of_get?_eq
  intro name
  by_cases hname : name ∈ right.boundNames
  · have hother : name ∉ left.boundNames := hindependent.symm.bound name hname
    calc (right.eval (left.eval env).2).2.get? name
        = (right.eval env).2.get? name := hindependent.get?_eval_eval hother env
      _ = (left.eval (right.eval env).2).2.get? name := (get?_eval_of_notMem hother _).symm
  · calc (right.eval (left.eval env).2).2.get? name
        = (left.eval env).2.get? name := get?_eval_of_notMem hname _
      _ = (left.eval (right.eval env).2).2.get? name :=
        (hindependent.symm.get?_eval_eval hname env).symm

/-- If one after the other has a value, so it is the other way round. -/
theorem eval_swap (hindependent : Independent left right) {env between after : Environment}
    {x y : Bool} (hleft : left.eval env = (.ok x, between))
    (hright : right.eval between = (.ok y, after)) :
    ∃ between', right.eval env = (.ok y, between') ∧ left.eval between' = (.ok x, after) := by
  have hresult := (hindependent.inStep_eval env).result
  have hresult' := (hindependent.symm.inStep_eval env).result
  have hafter := hindependent.eval_eval_comm env
  rw [hleft, hright] at hresult hafter
  rw [hleft] at hresult'
  exact ⟨(right.eval env).2, Prod.ext hresult rfl, Prod.ext hresult'.symm hafter.symm⟩

end Independent

theorem eval_binary_eq_ok_iff {connective : Connective} {left right : Formula}
    {env after : Environment} {value : Bool} :
    (binary connective left right).eval env = (.ok value, after) ↔
      ∃ x y between, left.eval env = (.ok x, between) ∧ right.eval between = (.ok y, after) ∧
        connective.apply x y = value := by
  rw [eval_binary]
  constructor
  · intro heval
    obtain ⟨x, between, hleft, hrest⟩ := Evaluation.andThen_eq_ok_iff.mp heval
    obtain ⟨y, last, hright, hvalue⟩ := Evaluation.andThen_eq_ok_iff.mp hrest
    cases hvalue
    exact ⟨x, y, between, hleft, hright, rfl⟩
  · rintro ⟨x, y, between, hleft, hright, rfl⟩
    rw [hleft, Evaluation.andThen_ok, hright, Evaluation.andThen_ok]

theorem eval_binary_swap {connective : Connective} (hconnective : connective ≠ .implies)
    {left right : Formula} (hindependent : Independent left right) {env after : Environment}
    {value : Bool} (heval : (binary connective left right).eval env = (.ok value, after)) :
    (binary connective right left).eval env = (.ok value, after) := by
  obtain ⟨x, y, between, hleft, hright, hvalue⟩ := eval_binary_eq_ok_iff.mp heval
  obtain ⟨between', hright', hleft'⟩ := hindependent.eval_swap hleft hright
  rw [Connective.apply_comm hconnective] at hvalue
  exact eval_binary_eq_ok_iff.mpr ⟨y, x, between', hright', hleft', hvalue⟩

/-- The sides of a conjunction, a disjunction or an equivalence can change places where
    they are independent, whatever else they bind and unbind: if it has a value in one
    order it has the same value in the other one, and leaves the same environment. -/
theorem eval_binary_comm_of_independent {connective : Connective}
    (hconnective : connective ≠ .implies) {left right : Formula}
    (hindependent : Independent left right) (env : Environment) (value : Bool)
    (after : Environment) :
    (binary connective left right).eval env = (.ok value, after) ↔
      (binary connective right left).eval env = (.ok value, after) :=
  ⟨eval_binary_swap hconnective hindependent,
    eval_binary_swap hconnective hindependent.symm⟩

/-- Both sides refer to `p`. One of them unbinds an outer `x`, the other one sets `z`. -/
theorem eval_binary_comm_of_independent_shadowing :
    Connective.iff ≠ .implies ∧
    Independent (letIn "x" (not (ref "p")) (set "y" (ref "x"))) (set "z" (ref "p")) ∧
    (binary .iff (set "z" (ref "p")) (letIn "x" (not (ref "p")) (set "y" (ref "x")))).eval
      ((Environment.empty.insert "p" true).insert "x" true) =
        (.ok false, ((Environment.empty.insert "p" true).insert "y" false).insert "z" true) := by
  have hindependent :
      Independent (letIn "x" (not (ref "p")) (set "y" (ref "x"))) (set "z" (ref "p")) :=
    ⟨by decide, by decide, by decide⟩
  exact ⟨by decide, hindependent,
    (eval_binary_comm_of_independent (by decide) hindependent _ _ _).mp rfl⟩

end Formula

end PrefixLogic
