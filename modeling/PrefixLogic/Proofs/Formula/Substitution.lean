import PrefixLogic.Proofs.Formula.Frame

namespace PrefixLogic

namespace Environment

/-- What is bound to a name first is lost when the name is unbound. -/
theorem erase_insert (env : Environment) (name : String) (value : Bool) :
    (env.insert name value).erase name = env.erase name := by
  apply eq_of_get?_eq
  intro other
  rw [get?_erase, get?_erase, get?_insert]
  by_cases hother : other = name <;> simp [hother]

theorem insert_comm {a b : String} (hne : a ≠ b) (env : Environment) (x y : Bool) :
    (env.insert a x).insert b y = (env.insert b y).insert a x := by
  apply eq_of_get?_eq
  intro other
  simp only [get?_insert]
  by_cases hb : other = b
  · subst hb
    simp [hne.symm]
  · simp [hb]

theorem erase_insert_of_ne {a b : String} (hne : a ≠ b) (env : Environment) (x : Bool) :
    (env.insert a x).erase b = (env.erase b).insert a x := by
  apply eq_of_get?_eq
  intro other
  simp only [get?_insert, get?_erase]
  by_cases hb : other = b
  · subst hb
    simp [hne.symm]
  · simp [hb]

end Environment

namespace Evaluation

variable {name : String} {value : Bool}

/-- The same evaluation with a name bound in the environment that it leaves. -/
def holding (evaluation : Evaluation) (name : String) (value : Bool) : Evaluation :=
  (evaluation.1, evaluation.2.insert name value)

/-- Where all that may follow keeps a name bound, the whole does. -/
theorem holding_andThen (evaluation : Evaluation) {next next' : Bool → Environment → Evaluation}
    (hnext : ∀ x after, next x (after.insert name value) = (next' x after).holding name value) :
    (evaluation.holding name value).andThen next =
      (evaluation.andThen next').holding name value := by
  rcases evaluation with ⟨_ | x, after⟩
  · rfl
  · exact hnext x after

theorem holding_releasing {other : String} (hne : name ≠ other) (evaluation : Evaluation) :
    (evaluation.holding name value).releasing other =
      (evaluation.releasing other).holding name value := by
  rw [releasing, releasing, holding, holding, Environment.erase_insert_of_ne hne]

/-- A name that is released in the end need not have been held. -/
theorem holding_releasing_self (evaluation : Evaluation) :
    (evaluation.holding name value).releasing name = evaluation.releasing name := by
  rw [releasing, releasing, holding, Environment.erase_insert]

end Evaluation

namespace Formula

/-- The formula with a truth value in each place where it refers to a name. -/
def substitute (name : String) (value : Bool) : Formula → Formula
  | .ref other => if other = name then .literal value else .ref other
  | .literal known => .literal known
  | .not operand => .not (operand.substitute name value)
  | .binary connective left right =>
    .binary connective (left.substitute name value) (right.substitute name value)
  | .letIn other binding body =>
    .letIn other (binding.substitute name value) (body.substitute name value)
  | .set other binding => .set other (binding.substitute name value)
  | .null => .null

/-- As long as a formula does not bind a name itself, the name may be bound around it
    or be replaced in it. Both runs go through the same environments but for that
    name, which may well be bound to something else where nothing refers to it. -/
theorem eval_insert {name : String} (value : Bool) {formula : Formula}
    (hset : name ∉ formula.setNames) (hlet : name ∉ formula.letNames) (env : Environment) :
    formula.eval (env.insert name value) =
      ((formula.substitute name value).eval env).holding name value := by
  induction formula generalizing env with
  | literal known => rfl
  | null => rfl
  | ref other =>
    rw [substitute, eval, Environment.get?_insert]
    by_cases hother : other = name
    · rw [if_pos hother, if_pos hother]
      rfl
    · rw [if_neg hother, if_neg hother, eval]
      cases env.get? other <;> rfl
  | not operand ih =>
    rw [substitute, eval_not, eval_not, ih hset hlet]
    exact Evaluation.holding_andThen _ fun _ _ => rfl
  | binary connective left right ihleft ihright =>
    rw [setNames, List.mem_append, not_or] at hset
    rw [letNames, List.mem_append, not_or] at hlet
    rw [substitute, eval_binary, eval_binary, ihleft hset.1 hlet.1]
    refine Evaluation.holding_andThen _ fun x between => ?_
    rw [ihright hset.2 hlet.2]
    exact Evaluation.holding_andThen _ fun _ _ => rfl
  | set other binding ih =>
    rw [setNames, List.mem_cons, not_or] at hset
    rw [substitute, eval_set, eval_set, ih hset.2 hlet]
    refine Evaluation.holding_andThen _ fun x after => ?_
    rw [Environment.insert_comm hset.1, Evaluation.holding]
  | letIn other binding body ihbinding ihbody =>
    rw [setNames, List.mem_append, not_or] at hset
    rw [letNames, List.mem_cons, List.mem_append, not_or, not_or] at hlet
    obtain ⟨hne, hbinding, hbody⟩ := hlet
    rw [substitute, eval_letIn, eval_letIn, ihbinding hset.1 hbinding]
    refine Evaluation.holding_andThen _ fun x after => ?_
    rw [Environment.insert_comm hne, ihbody hset.2 hbody, Evaluation.holding_releasing hne]

/-- Binding a name for the length of a body is evaluating the body with the value in
    the place of the name, behind the binding, and unbinding the name in the end. This
    needs the body to leave the name alone. Where the binding fails, nothing else is
    evaluated or unbound, whatever the body is. -/
theorem eval_letIn_eq_substitute (name : String) (binding body : Formula) (env : Environment) :
    (∀ value between, name ∉ body.setNames → name ∉ body.letNames →
      binding.eval env = (.ok value, between) →
        (letIn name binding body).eval env =
          (((body.substitute name value).eval between).1,
            ((body.substitute name value).eval between).2.erase name)) ∧
    ∀ error between, binding.eval env = (.error error, between) →
      (letIn name binding body).eval env = (.error error, between) := by
  rw [eval_letIn]
  constructor
  · intro value between hset hlet hbinding
    rw [hbinding, Evaluation.andThen, eval_insert value hset hlet,
      Evaluation.holding_releasing_self, Evaluation.releasing]
  · intro error between hbinding
    rw [hbinding, Evaluation.andThen]

/-- The name is bound outside to another value, and the body fails behind a name that
    it sets by way of a `letIn` of its own. A binding that fails leaves the outer value. -/
theorem eval_letIn_eq_substitute_shadowing :
    (letIn "x" (literal true)
        (binary .and (letIn "y" (not (ref "x")) (set "z" (ref "y"))) (ref "w"))).eval
      (Environment.empty.insert "x" false) =
        (.error (.undefined "w"), Environment.empty.insert "z" false) ∧
    (letIn "x" (ref "w") (ref "x")).eval (Environment.empty.insert "x" false) =
      (.error (.undefined "w"), Environment.empty.insert "x" false) := by
  obtain ⟨hvalue, -⟩ := eval_letIn_eq_substitute "x" (literal true)
    (binary .and (letIn "y" (not (ref "x")) (set "z" (ref "y"))) (ref "w"))
    (Environment.empty.insert "x" false)
  obtain ⟨-, herror⟩ := eval_letIn_eq_substitute "x" (ref "w") (ref "x")
    (Environment.empty.insert "x" false)
  exact ⟨hvalue true _ (by decide) (by decide) rfl, herror _ _ rfl⟩

end Formula

end PrefixLogic
