import PrefixLogic.Proofs.Formula.Sequence

namespace PrefixLogic

namespace Formula

/-- The names that a formula sets somewhere. -/
def setNames : Formula → List String
  | .ref _ => []
  | .literal _ => []
  | .not operand => operand.setNames
  | .binary _ left right => left.setNames ++ right.setNames
  | .letIn _ binding body => binding.setNames ++ body.setNames
  | .set name binding => name :: binding.setNames
  | .null => []

/-- The names that a formula binds for the length of a body somewhere. -/
def letNames : Formula → List String
  | .ref _ => []
  | .literal _ => []
  | .not operand => operand.letNames
  | .binary _ left right => left.letNames ++ right.letNames
  | .letIn name binding body => name :: (binding.letNames ++ body.letNames)
  | .set _ binding => binding.letNames
  | .null => []

end Formula

namespace Environment

/-- What happens to an environment in which only some names are set and only some
    are bound for a while. All the others keep what they have, no name but one that
    is set becomes defined, and none but one bound for a while is lost. -/
structure Framed (sets lets : List String) (before after : Environment) : Prop where
  get?_eq : ∀ name, name ∉ sets → name ∉ lets → after.get? name = before.get? name
  defined : ∀ name, after.isDefined name = true → before.isDefined name = true ∨ name ∈ sets
  kept : ∀ name, before.isDefined name = true → name ∉ lets → after.isDefined name = true

namespace Framed

variable {sets lets : List String} {before between after : Environment}

theorem refl (sets lets : List String) (env : Environment) :
    Framed sets lets env env where
  get?_eq := fun _ _ _ => rfl
  defined := fun _ hdefined => .inl hdefined
  kept := fun _ hdefined _ => hdefined

theorem trans (hfirst : Framed sets lets before between)
    (hrest : Framed sets lets between after) : Framed sets lets before after where
  get?_eq := by
    intro name hset hlet
    exact (hrest.get?_eq name hset hlet).trans (hfirst.get?_eq name hset hlet)
  defined := by
    intro name hafter
    rcases hrest.defined name hafter with hbetween | hset
    · exact hfirst.defined name hbetween
    · exact .inr hset
  kept := by
    intro name hbefore hlet
    exact hrest.kept name (hfirst.kept name hbefore hlet) hlet

/-- With more names to set and to bind for a while, less is promised. -/
theorem mono {sets' lets' : List String} (hframed : Framed sets lets before after)
    (hset : sets ⊆ sets') (hlet : lets ⊆ lets') :
    Framed sets' lets' before after where
  get?_eq := by
    intro name hnot hnot'
    exact hframed.get?_eq name (fun h => hnot (hset h)) fun h => hnot' (hlet h)
  defined := by
    intro name hafter
    exact (hframed.defined name hafter).imp_right fun h => hset h
  kept := by
    intro name hbefore hnot
    exact hframed.kept name hbefore fun h => hnot (hlet h)

theorem insert {name : String} (hname : name ∈ sets) (value : Bool) (env : Environment) :
    Framed sets lets env (env.insert name value) where
  get?_eq := by
    intro other hother _
    rw [get?_insert, if_neg]
    rintro rfl
    exact hother hname
  defined := by
    intro other hafter
    rw [isDefined_insert, Bool.or_eq_true, beq_iff_eq] at hafter
    rcases hafter with rfl | hbefore
    · exact .inr hname
    · exact .inl hbefore
  kept := by
    intro other hbefore _
    rw [isDefined_insert, hbefore, Bool.or_true]

/-- A name that is bound before a run and unbound behind it is lost and not found
    anew, whatever the run has done to it. -/
theorem bracket {name : String} {value : Bool} (hname : name ∈ lets)
    (hframed : Framed sets lets (before.insert name value) after) :
    Framed sets lets before (after.erase name) where
  get?_eq := by
    intro other hset hlet
    have hne : other ≠ name := by
      rintro rfl
      exact hlet hname
    rw [get?_erase, if_neg hne, hframed.get?_eq other hset hlet, get?_insert, if_neg hne]
  defined := by
    intro other hafter
    rw [isDefined_erase, Bool.and_eq_true, bne_iff_ne] at hafter
    obtain ⟨hne, hafter⟩ := hafter
    refine (hframed.defined other hafter).imp_left fun hbound => ?_
    rw [isDefined_insert, Bool.or_eq_true, beq_iff_eq] at hbound
    exact hbound.resolve_left hne
  kept := by
    intro other hbefore hlet
    have hne : other ≠ name := by
      rintro rfl
      exact hlet hname
    have hbound : (before.insert name value).isDefined other = true := by
      rw [isDefined_insert, hbefore, Bool.or_true]
    rw [isDefined_erase, hframed.kept other hbound hlet, Bool.and_true, bne_iff_ne]
    exact hne

/-- A frame around the first of two evaluations and around whatever may follow it
    is one around both, and an error in the first does not break it. -/
theorem andThen {evaluation : Evaluation} {next : Bool → Environment → Evaluation}
    (hfirst : Framed sets lets before evaluation.2)
    (hnext : ∀ value between, Framed sets lets between (next value between).2) :
    Framed sets lets before (evaluation.andThen next).2 := by
  obtain ⟨result, between⟩ := evaluation
  cases result with
  | error error => exact hfirst
  | ok value => exact hfirst.trans (hnext value between)

end Framed

end Environment

namespace Formula

open Environment

theorem framed_eval (formula : Formula) (env : Environment) :
    Framed formula.setNames formula.letNames env (formula.eval env).2 := by
  induction formula generalizing env with
  | ref name =>
    rw [eval]
    split <;> exact .refl _ _ env
  | literal value => exact .refl _ _ env
  | null => exact .refl _ _ env
  | not operand ih =>
    rw [eval_not]
    exact (ih env).andThen fun _ after => .refl _ _ after
  | binary connective left right ihleft ihright =>
    have hleft := fun env => (ihleft env).mono (List.subset_append_left _ right.setNames)
      (List.subset_append_left _ right.letNames)
    have hright := fun env => (ihright env).mono (List.subset_append_right left.setNames _)
      (List.subset_append_right left.letNames _)
    rw [eval_binary]
    exact (hleft env).andThen fun _ between =>
      (hright between).andThen fun _ after => .refl _ _ after
  | set name binding ih =>
    have hbinding := (ih env).mono (List.subset_cons_self name _) (List.Subset.refl _)
    rw [eval_set]
    exact hbinding.andThen fun value after => .insert List.mem_cons_self value after
  | letIn name binding body ihbinding ihbody =>
    have hbinding := fun env => (ihbinding env).mono (List.subset_append_left _ body.setNames)
      (List.subset_cons_of_subset name (List.subset_append_left _ body.letNames))
    have hbody := fun env => (ihbody env).mono (List.subset_append_right binding.setNames _)
      (List.subset_cons_of_subset name (List.subset_append_right binding.letNames _))
    rw [eval_letIn]
    exact (hbinding env).andThen fun value after =>
      .bracket List.mem_cons_self (hbody (after.insert name value))

/-- Evaluation changes only the names that the formula sets or binds for a while,
    and leaves defined only what was defined before or has been set. What is bound
    for a while never outlasts its body, also where the evaluation fails, and what
    is not bound in this way stays defined. -/
theorem eval_frame (formula : Formula) (env : Environment) (name : String) :
    (name ∉ formula.setNames → name ∉ formula.letNames →
      (formula.eval env).2.get? name = env.get? name) ∧
    ((formula.eval env).2.isDefined name = true →
      env.isDefined name = true ∨ name ∈ formula.setNames) ∧
    (env.isDefined name = true → name ∉ formula.letNames →
      (formula.eval env).2.isDefined name = true) :=
  have hframed := formula.framed_eval env
  ⟨hframed.get?_eq name, hframed.defined name, hframed.kept name⟩

/-- Where the body fails, the name bound for it is gone and another is untouched. -/
theorem eval_frame_failing_body :
    ((letIn "x" (literal true) (ref "z")).eval (empty.insert "w" false)).1 =
      .error (.undefined "z") ∧
    ((letIn "x" (literal true) (ref "z")).eval (empty.insert "w" false)).2.get? "w" =
      some false ∧
    ((letIn "x" (literal true) (ref "z")).eval (empty.insert "w" false)).2.isDefined "w" = true ∧
    ((letIn "x" (literal true) (ref "z")).eval (empty.insert "w" false)).2.isDefined "x" =
      false := by
  obtain ⟨hsame, -, hkept⟩ :=
    eval_frame (letIn "x" (literal true) (ref "z")) (empty.insert "w" false) "w"
  obtain ⟨-, hdefined, -⟩ :=
    eval_frame (letIn "x" (literal true) (ref "z")) (empty.insert "w" false) "x"
  refine ⟨rfl, hsame (by decide) (by decide), hkept rfl (by decide), ?_⟩
  rw [← Bool.not_eq_true]
  intro hleaked
  rcases hdefined hleaked with hbefore | hset
  · cases hbefore
  · cases hset

end Formula

end PrefixLogic
