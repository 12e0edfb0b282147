import PrefixLogic.Proofs.Formula.Visits

namespace PrefixLogic

namespace Environment

/-- Two environments define the same names, whatever their values are. -/
def SameNames (a b : Environment) : Prop :=
  ∀ name, a.isDefined name = b.isDefined name

namespace SameNames

variable {a b : Environment}

theorem insert (hsame : SameNames a b) (name : String) (x y : Bool) :
    SameNames (a.insert name x) (b.insert name y) := by
  intro other
  rw [isDefined_insert, isDefined_insert, hsame other]

theorem erase (hsame : SameNames a b) (name : String) :
    SameNames (a.erase name) (b.erase name) := by
  intro other
  rw [isDefined_erase, isDefined_erase, hsame other]

end SameNames

end Environment

open Environment

/-- Two evaluations that come out alike: both have a value, not always the same one,
    or both end in the same error, and they leave the same names defined. -/
inductive Evaluation.Alike : Evaluation → Evaluation → Prop
  | value {x y : Bool} {after after' : Environment} (hsame : SameNames after after') :
      Alike (.ok x, after) (.ok y, after')
  | error {error : EvaluationError} {after after' : Environment}
      (hsame : SameNames after after') : Alike (.error error, after) (.error error, after')

namespace Evaluation.Alike

variable {a b : Evaluation}

theorem outcome (halike : Alike a b) : a.1.map (fun _ => ()) = b.1.map (fun _ => ()) := by
  cases halike <;> rfl

theorem sameNames (halike : Alike a b) : SameNames a.2 b.2 := by
  cases halike with
  | value hsame => exact hsame
  | error hsame => exact hsame

/-- What goes on alike from any two values goes on alike from two evaluations that
    come out alike. -/
theorem andThen (halike : Alike a b) {next next' : Bool → Environment → Evaluation}
    (hnext : ∀ x y after after', SameNames after after' →
      Alike (next x after) (next' y after')) :
    Alike (a.andThen next) (b.andThen next') := by
  cases halike with
  | value hsame => exact hnext _ _ _ _ hsame
  | error hsame => exact .error hsame

theorem releasing (halike : Alike a b) (name : String) :
    Alike (a.releasing name) (b.releasing name) := by
  cases halike with
  | value hsame => exact .value (hsame.erase name)
  | error hsame => exact .error (hsame.erase name)

end Evaluation.Alike

namespace Formula

/-- No value decides what is evaluated next, so two runs of a formula stay in step
    where the same names are defined. -/
theorem alike_eval (formula : Formula) {env env' : Environment} (hsame : SameNames env env') :
    Evaluation.Alike (formula.eval env) (formula.eval env') := by
  induction formula generalizing env env' with
  | literal value => exact .value hsame
  | null => exact .error hsame
  | ref name =>
    have hdefined := hsame name
    rw [isDefined, isDefined] at hdefined
    rw [eval, eval]
    cases hvalue : env.get? name <;> cases hvalue' : env'.get? name <;>
      rw [hvalue, hvalue'] at hdefined
    · exact .error hsame
    · cases hdefined
    · cases hdefined
    · exact .value hsame
  | not operand ih =>
    rw [eval_not, eval_not]
    exact (ih hsame).andThen fun _ _ _ _ hafter => .value hafter
  | binary connective left right ihleft ihright =>
    rw [eval_binary, eval_binary]
    exact (ihleft hsame).andThen fun _ _ _ _ hbetween =>
      (ihright hbetween).andThen fun _ _ _ _ hafter => .value hafter
  | set name binding ih =>
    rw [eval_set, eval_set]
    exact (ih hsame).andThen fun x y _ _ hafter => .value (hafter.insert name x y)
  | letIn name binding body ihbinding ihbody =>
    rw [eval_letIn, eval_letIn]
    exact (ihbinding hsame).andThen fun x y _ _ hbetween =>
      (ihbody (hbetween.insert name x y)).releasing name

/-- Whether a formula has a value, and else which error it ends in, depends only on
    the names that are defined, and so do the names that are defined behind it. A
    formula that has a value has been evaluated in all its parts, so it holds none
    without a meaning, and only one that does is refused for that. -/
theorem eval_outcome (formula : Formula) :
    (∀ env env' : Environment, (∀ name, env.isDefined name = env'.isDefined name) →
      (formula.eval env).1.map (fun _ => ()) = (formula.eval env').1.map (fun _ => ()) ∧
      ∀ name, (formula.eval env).2.isDefined name = (formula.eval env').2.isDefined name) ∧
    (∀ env value, (formula.eval env).1 = .ok value →
      formula.visits env = formula.parts ∧ .null ∉ formula.parts) ∧
    ∀ env, (formula.eval env).1 = .error .null → .null ∈ formula.parts := by
  refine ⟨fun env env' hsame => ?_, fun env value hvalue => ?_, fun env herror => ?_⟩
  · have halike := formula.alike_eval hsame
    exact ⟨halike.outcome, halike.sameNames⟩
  · have hvisits := visits_eq_parts hvalue
    refine ⟨hvisits, fun hnull => ?_⟩
    rw [← hvisits] at hnull
    rw [eval_of_null_mem_visits hnull] at hvalue
    cases hvalue
  · have hvisited := (site_suffix_visits herror).subset (List.mem_singleton_self _)
    exact (visits_prefix_parts formula env).subset hvisited

/-- A disjunction whose left side sets what its right side refers to, where the
    value of that side would already decide it and where it would not. -/
theorem eval_outcome_or_set :
    (∀ name, (empty.insert "p" true).isDefined name = (empty.insert "p" false).isDefined name) ∧
    (∀ name,
      ((binary .or (set "x" (ref "p")) (ref "x")).eval (empty.insert "p" true)).2.isDefined name =
      ((binary .or (set "x" (ref "p")) (ref "x")).eval (empty.insert "p" false)).2.isDefined
        name) ∧
    (binary .or (set "x" (ref "p")) (ref "x")).visits (empty.insert "p" true) =
      [binary .or (set "x" (ref "p")) (ref "x"), set "x" (ref "p"), ref "p", ref "x"] ∧
    ((binary .or (set "x" null) null).eval empty).1 = .error .null ∧
    .null ∈ (binary .or (set "x" null) null).parts := by
  have hsame : ∀ name,
      (empty.insert "p" true).isDefined name = (empty.insert "p" false).isDefined name := by
    intro name
    rw [isDefined_insert, isDefined_insert]
  obtain ⟨hruns, hvalue, -⟩ := eval_outcome (binary .or (set "x" (ref "p")) (ref "x"))
  obtain ⟨-, -, hnull⟩ := eval_outcome (binary .or (set "x" null) null)
  exact ⟨hsame, (hruns _ _ hsame).2, (hvalue (empty.insert "p" true) true rfl).1, rfl,
    hnull empty rfl⟩

end Formula

end PrefixLogic
