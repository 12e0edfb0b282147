import PrefixLogic.Proofs.Formula.Sequence

namespace PrefixLogic

/-- The formula whose evaluation an error comes from. -/
def EvaluationError.site : EvaluationError → Formula
  | .undefined name => .ref name
  | .null => .null

namespace Formula

/-- A formula and all the formulas inside it, each as often as it occurs and in the
    order of the places where it starts. -/
def parts : Formula → List Formula
  | .not operand => .not operand :: operand.parts
  | .binary connective left right =>
    .binary connective left right :: (left.parts ++ right.parts)
  | .letIn name binding body => .letIn name binding body :: (binding.parts ++ body.parts)
  | .set name binding => .set name binding :: binding.parts
  | formula => [formula]

/-- The parts of a formula that its evaluation comes to, in the order in which it
    comes to them. It does not come to those behind an error. -/
def visits : Formula → Environment → List Formula
  | .not operand, env => .not operand :: operand.visits env
  | .binary connective left right, env =>
    .binary connective left right ::
      (left.visits env ++
        match left.eval env with
        | (.ok _, between) => right.visits between
        | (.error _, _) => [])
  | .letIn name binding body, env =>
    .letIn name binding body ::
      (binding.visits env ++
        match binding.eval env with
        | (.ok value, between) => body.visits (between.insert name value)
        | (.error _, _) => [])
  | .set name binding, env => .set name binding :: binding.visits env
  | formula, _ => [formula]

section Value

/-- An evaluation that has a value has come to every part once, in order: no side
    of a connective is left out for the value of the other. -/
theorem visits_eq_parts {formula : Formula} {env : Environment} {value : Bool}
    (hvalue : (formula.eval env).1 = .ok value) : formula.visits env = formula.parts := by
  induction formula generalizing env value with
  | ref name => rfl
  | literal value => rfl
  | null => rfl
  | not operand ih =>
    rw [eval_not] at hvalue
    obtain ⟨x, after, hoperand, -⟩ := Evaluation.andThen_eq_ok hvalue
    rw [visits, parts, ih (by rw [hoperand])]
  | binary connective left right ihleft ihright =>
    rw [eval_binary] at hvalue
    obtain ⟨x, between, hleft, hvalue⟩ := Evaluation.andThen_eq_ok hvalue
    obtain ⟨y, after, hright, -⟩ := Evaluation.andThen_eq_ok hvalue
    rw [visits, parts, ihleft (by rw [hleft]), hleft, ← ihright (by rw [hright])]
  | set name binding ih =>
    rw [eval_set] at hvalue
    obtain ⟨x, after, hbinding, -⟩ := Evaluation.andThen_eq_ok hvalue
    rw [visits, parts, ih (by rw [hbinding])]
  | letIn name binding body ihbinding ihbody =>
    rw [eval_letIn] at hvalue
    obtain ⟨x, between, hbinding, hbody⟩ := Evaluation.andThen_eq_ok hvalue
    rw [visits, parts, ihbinding (by rw [hbinding]), hbinding, ← ihbody hbody]

/-- An evaluation never comes to anything but a part, and misses parts at the end
    only. -/
theorem visits_prefix_parts (formula : Formula) (env : Environment) :
    formula.visits env <+: formula.parts := by
  induction formula generalizing env with
  | ref name => exact List.prefix_rfl
  | literal value => exact List.prefix_rfl
  | null => exact List.prefix_rfl
  | not operand ih => exact List.cons_prefix_cons.mpr ⟨rfl, ih env⟩
  | set name binding ih => exact List.cons_prefix_cons.mpr ⟨rfl, ih env⟩
  | binary connective left right ihleft ihright =>
    rw [visits, parts, List.cons_prefix_cons]
    refine ⟨rfl, ?_⟩
    split
    · rename_i x between hleft
      rw [visits_eq_parts (by rw [hleft]), List.prefix_append_right_inj]
      exact ihright between
    · rw [List.append_nil]
      exact (ihleft env).trans (List.prefix_append _ _)
  | letIn name binding body ihbinding ihbody =>
    rw [visits, parts, List.cons_prefix_cons]
    refine ⟨rfl, ?_⟩
    split
    · rename_i x between hbinding
      rw [visits_eq_parts (by rw [hbinding]), List.prefix_append_right_inj]
      exact ihbody _
    · rw [List.append_nil]
      exact (ihbinding env).trans (List.prefix_append _ _)

end Value

section Error

/-- An evaluation that ends in an error has come last to the part that the error
    comes from. -/
theorem site_suffix_visits {formula : Formula} {env : Environment} {error : EvaluationError}
    (herror : (formula.eval env).1 = .error error) : [error.site] <:+ formula.visits env := by
  induction formula generalizing env with
  | ref name =>
    rw [eval] at herror
    split at herror
    · cases herror
    · cases herror
      exact List.suffix_rfl
  | literal value => cases herror
  | null =>
    cases herror
    exact List.suffix_rfl
  | not operand ih =>
    rw [eval_not] at herror
    rcases Evaluation.andThen_eq_error herror with ⟨after, hoperand⟩ | ⟨x, between, -, hnone⟩
    · exact (ih (by rw [hoperand])).trans (List.suffix_cons _ _)
    · cases hnone
  | set name binding ih =>
    rw [eval_set] at herror
    rcases Evaluation.andThen_eq_error herror with ⟨after, hbinding⟩ | ⟨x, between, -, hnone⟩
    · exact (ih (by rw [hbinding])).trans (List.suffix_cons _ _)
    · cases hnone
  | binary connective left right ihleft ihright =>
    rw [eval_binary] at herror
    rw [visits]
    rcases Evaluation.andThen_eq_error herror with ⟨after, hleft⟩ | ⟨x, between, hleft, herror⟩
    · have hsite := ihleft (by rw [hleft])
      rw [hleft, List.append_nil]
      exact hsite.trans (List.suffix_cons _ _)
    · rcases Evaluation.andThen_eq_error herror with ⟨after, hright⟩ | ⟨y, after, -, hnone⟩
      · have hsite := ihright (by rw [hright])
        rw [hleft]
        exact hsite.trans ((List.suffix_append _ _).trans (List.suffix_cons _ _))
      · cases hnone
  | letIn name binding body ihbinding ihbody =>
    rw [eval_letIn] at herror
    rw [visits]
    rcases Evaluation.andThen_eq_error herror with
      ⟨after, hbinding⟩ | ⟨x, between, hbinding, hbody⟩
    · have hsite := ihbinding (by rw [hbinding])
      rw [hbinding, List.append_nil]
      exact hsite.trans (List.suffix_cons _ _)
    · have hsite := ihbody hbody
      rw [hbinding]
      exact hsite.trans ((List.suffix_append _ _).trans (List.suffix_cons _ _))

/-- Once an evaluation comes to a formula without a meaning, it fails for that. -/
theorem eval_of_null_mem_visits {formula : Formula} {env : Environment}
    (hnull : .null ∈ formula.visits env) : (formula.eval env).1 = .error .null := by
  induction formula generalizing env with
  | ref name => cases List.mem_singleton.mp hnull
  | literal value => cases List.mem_singleton.mp hnull
  | null => rfl
  | not operand ih =>
    have hoperand := List.mem_of_ne_of_mem Formula.noConfusion hnull
    rw [eval_not]
    exact Evaluation.andThen_of_error (ih hoperand) _
  | set name binding ih =>
    have hbinding := List.mem_of_ne_of_mem Formula.noConfusion hnull
    rw [eval_set]
    exact Evaluation.andThen_of_error (ih hbinding) _
  | binary connective left right ihleft ihright =>
    have hinside := List.mem_of_ne_of_mem Formula.noConfusion hnull
    rw [eval_binary]
    rcases List.mem_append.mp hinside with hleft | hbehind
    · exact Evaluation.andThen_of_error (ihleft hleft) _
    · split at hbehind
      · rename_i x between hleft
        rw [hleft]
        exact Evaluation.andThen_of_error (ihright hbehind) _
      · cases hbehind
  | letIn name binding body ihbinding ihbody =>
    have hinside := List.mem_of_ne_of_mem Formula.noConfusion hnull
    rw [eval_letIn]
    rcases List.mem_append.mp hinside with hbinding | hbehind
    · exact Evaluation.andThen_of_error (ihbinding hbinding) _
    · split at hbehind
      · rename_i x between hbinding
        rw [hbinding]
        exact ihbody hbehind
      · cases hbehind

end Error

end Formula

end PrefixLogic
