import PrefixLogic.Proofs.Formula.Sequence

namespace PrefixLogic

namespace Environment

/-- Two environments that answer in a related way for every name. -/
def Related (rel : String → Option Bool → Option Bool → Prop) (a b : Environment) : Prop :=
  ∀ name, rel name (a.get? name) (b.get? name)

namespace Related

variable {rel : String → Option Bool → Option Bool → Prop} {a b : Environment}

/-- Environments stay related when a name is changed to the same in both, provided that
    this is related to itself. -/
theorem change (hrelated : Related rel a b) {name : String} {found : Option Bool}
    (hfound : rel name found found) {after after' : Environment}
    (hafter : ∀ other, after.get? other = if other = name then found else a.get? other)
    (hafter' : ∀ other, after'.get? other = if other = name then found else b.get? other) :
    Related rel after after' := by
  intro other
  rw [hafter, hafter']
  by_cases hother : other = name
  · subst hother
    rwa [if_pos rfl, if_pos rfl]
  · rw [if_neg hother, if_neg hother]
    exact hrelated other

theorem insert (hrelated : Related rel a b) (name : String) {value : Bool}
    (hvalue : rel name (some value) (some value)) :
    Related rel (a.insert name value) (b.insert name value) :=
  hrelated.change hvalue (get?_insert a name · value) (get?_insert b name · value)

theorem erase (hrelated : Related rel a b) {name : String} (hnone : rel name none none) :
    Related rel (a.erase name) (b.erase name) :=
  hrelated.change hnone (get?_erase a name) (get?_erase b name)

end Related

end Environment

open Environment

/-- The names that a formula refers to somewhere. -/
def Formula.refNames : Formula → List String
  | .ref name => [name]
  | .literal _ => []
  | .not operand => operand.refNames
  | .binary _ left right => left.refNames ++ right.refNames
  | .letIn _ binding body => binding.refNames ++ body.refNames
  | .set _ binding => binding.refNames
  | .null => []

/-- A way to compare two evaluations, together with one to compare the environments that
    they go through, that every step of evaluation keeps but that of looking a name up. -/
structure Coupling (rel : String → Option Bool → Option Bool → Prop)
    (runs : Evaluation → Evaluation → Prop) : Prop where
  same : ∀ name found, rel name found found
  value : ∀ {a b : Environment}, Related rel a b → ∀ value, runs (.ok value, a) (.ok value, b)
  null : ∀ {a b : Environment}, Related rel a b → runs (.error .null, a) (.error .null, b)
  releasing : ∀ {x y : Evaluation}, runs x y → ∀ name,
    runs (x.releasing name) (y.releasing name)
  andThen : ∀ {x y : Evaluation}, runs x y → ∀ {next next' : Bool → Environment → Evaluation},
    (∀ value a b, Related rel a b → runs (next value a) (next' value b)) →
      runs (x.andThen next) (y.andThen next')

/-- Two runs of a formula compare as long as they do so where they look up the names
    that the formula refers to. -/
theorem Coupling.eval {rel : String → Option Bool → Option Bool → Prop}
    {runs : Evaluation → Evaluation → Prop} (hcoupling : Coupling rel runs) {formula : Formula}
    (href : ∀ name ∈ formula.refNames, ∀ a b, Related rel a b →
      runs ((Formula.ref name).eval a) ((Formula.ref name).eval b))
    {a b : Environment} (hrelated : Related rel a b) :
    runs (formula.eval a) (formula.eval b) := by
  induction formula generalizing a b with
  | ref name => exact href name (List.mem_singleton_self name) a b hrelated
  | literal value => exact hcoupling.value hrelated value
  | null => exact hcoupling.null hrelated
  | not operand ih =>
    rw [Formula.eval_not, Formula.eval_not]
    exact hcoupling.andThen (ih href hrelated) fun value _ _ hafter => hcoupling.value hafter _
  | binary connective left right ihleft ihright =>
    have hleft := fun name hname => href name (List.mem_append_left right.refNames hname)
    have hright := fun name hname => href name (List.mem_append_right left.refNames hname)
    rw [Formula.eval_binary, Formula.eval_binary]
    exact hcoupling.andThen (ihleft hleft hrelated) fun _ _ _ hbetween =>
      hcoupling.andThen (ihright hright hbetween) fun _ _ _ hafter => hcoupling.value hafter _
  | set name binding ih =>
    rw [Formula.eval_set, Formula.eval_set]
    exact hcoupling.andThen (ih href hrelated) fun value _ _ hafter =>
      hcoupling.value (hafter.insert name (hcoupling.same name _)) value
  | letIn name binding body ihbinding ihbody =>
    have hbinding := fun other hother => href other (List.mem_append_left body.refNames hother)
    have hbody := fun other hother => href other (List.mem_append_right binding.refNames hother)
    rw [Formula.eval_letIn, Formula.eval_letIn]
    exact hcoupling.andThen (ihbinding hbinding hrelated) fun value _ _ hbetween =>
      hcoupling.releasing (ihbody hbody (hbetween.insert name (hcoupling.same name _))) name

end PrefixLogic
