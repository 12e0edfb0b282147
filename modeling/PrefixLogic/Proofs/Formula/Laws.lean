import Mathlib.Logic.Relation
import PrefixLogic.Proofs.Formula.Sequence

namespace PrefixLogic

namespace Connective

variable (x y z : Bool)

theorem apply_implies : implies.apply x y = or.apply (!x) y :=
  rfl

theorem apply_or : or.apply x y = !and.apply (!x) (!y) := by
  rw [apply, apply, Bool.not_and, Bool.not_not, Bool.not_not]

theorem apply_and : and.apply x y = !or.apply (!x) (!y) := by
  rw [apply, apply, Bool.not_or, Bool.not_not, Bool.not_not]

theorem apply_iff : iff.apply x y = iff.apply (!x) (!y) := by
  cases x <;> cases y <;> rfl

theorem apply_assoc {connective : Connective} (hconnective : connective ≠ .implies) :
    connective.apply (connective.apply x y) z = connective.apply x (connective.apply y z) := by
  cases connective with
  | and => exact Bool.and_assoc x y z
  | or => exact Bool.or_assoc x y z
  | implies => exact absurd rfl hconnective
  | iff => cases x <;> cases y <;> cases z <;> rfl

end Connective

namespace Formula

/-- Two formulas that do the same in every environment: they have the same value or end
    in the same error, and leave the same environment. -/
def Equivalent (a b : Formula) : Prop :=
  ∀ env, a.eval env = b.eval env

namespace Equivalent

variable {a b c d : Formula}

theorem refl (a : Formula) : Equivalent a a :=
  fun _ => rfl

theorem symm (hequivalent : Equivalent a b) : Equivalent b a :=
  fun env => (hequivalent env).symm

theorem trans (hfirst : Equivalent a b) (hrest : Equivalent b c) : Equivalent a c :=
  fun env => (hfirst env).trans (hrest env)

theorem not (hequivalent : Equivalent a b) : Equivalent (.not a) (.not b) := by
  intro env
  rw [eval_not, eval_not, hequivalent]

theorem binary (connective : Connective) (hleft : Equivalent a b) (hright : Equivalent c d) :
    Equivalent (.binary connective a c) (.binary connective b d) := by
  intro env
  rw [eval_binary, eval_binary, hleft]
  simp only [hright _]

theorem set (name : String) (hbinding : Equivalent a b) :
    Equivalent (.set name a) (.set name b) := by
  intro env
  rw [eval_set, eval_set, hbinding]

theorem letIn (name : String) (hbinding : Equivalent a b) (hbody : Equivalent c d) :
    Equivalent (.letIn name a c) (.letIn name b d) := by
  intro env
  rw [eval_letIn, eval_letIn, hbinding]
  simp only [hbody _]

end Equivalent

/-- Laws of logic that hold of formulas of any kind, because both sides evaluate the same
    formulas in the same order. Commutativity is not among them. -/
inductive Law : Formula → Formula → Prop
  | notNot (a : Formula) : Law (.not (.not a)) a
  | implies (a b : Formula) : Law (.binary .implies a b) (.binary .or (.not a) b)
  | or (a b : Formula) : Law (.binary .or a b) (.not (.binary .and (.not a) (.not b)))
  | and (a b : Formula) : Law (.binary .and a b) (.not (.binary .or (.not a) (.not b)))
  | iff (a b : Formula) : Law (.binary .iff a b) (.binary .iff (.not a) (.not b))
  | assoc {connective : Connective} (hconnective : connective ≠ .implies) (a b c : Formula) :
      Law (.binary connective (.binary connective a b) c)
        (.binary connective a (.binary connective b c))

/-- Each side of a law evaluates its formulas one after the other and joins their values
    in the end, so that only the truth functions have to agree. -/
theorem Law.equivalent {a b : Formula} (hlaw : Law a b) : Equivalent a b := by
  intro env
  cases hlaw with
  | notNot a =>
    simp only [eval_not, Evaluation.andThen_assoc, Evaluation.andThen_ok, Bool.not_not,
      Evaluation.andThen_value]
  | implies a b =>
    simp only [eval_not, eval_binary, Evaluation.andThen_assoc, Evaluation.andThen_ok,
      Connective.apply_implies]
  | or a b =>
    simp only [eval_not, eval_binary, Evaluation.andThen_assoc, Evaluation.andThen_ok,
      Connective.apply_or]
  | and a b =>
    simp only [eval_not, eval_binary, Evaluation.andThen_assoc, Evaluation.andThen_ok,
      Connective.apply_and]
  | iff a b =>
    simp only [eval_not, eval_binary, Evaluation.andThen_assoc, Evaluation.andThen_ok,
      ← Connective.apply_iff]
  | assoc hconnective a b c =>
    simp only [eval_binary, Evaluation.andThen_assoc, Evaluation.andThen_ok,
      Connective.apply_assoc _ _ _ hconnective]

/-- One use of a law, anywhere in a formula. -/
inductive Rewrites : Formula → Formula → Prop
  | law {a b : Formula} (hlaw : Law a b) : Rewrites a b
  | not {a b : Formula} (hrewrites : Rewrites a b) : Rewrites (.not a) (.not b)
  | left (connective : Connective) {a b : Formula} (hrewrites : Rewrites a b) (right : Formula) :
      Rewrites (.binary connective a right) (.binary connective b right)
  | right (connective : Connective) (left : Formula) {a b : Formula} (hrewrites : Rewrites a b) :
      Rewrites (.binary connective left a) (.binary connective left b)
  | set (name : String) {a b : Formula} (hrewrites : Rewrites a b) :
      Rewrites (.set name a) (.set name b)
  | binding (name : String) {a b : Formula} (hrewrites : Rewrites a b) (body : Formula) :
      Rewrites (.letIn name a body) (.letIn name b body)
  | body (name : String) (binding : Formula) {a b : Formula} (hrewrites : Rewrites a b) :
      Rewrites (.letIn name binding a) (.letIn name binding b)

theorem Rewrites.equivalent {a b : Formula} (hrewrites : Rewrites a b) : Equivalent a b := by
  induction hrewrites with
  | law hlaw => exact hlaw.equivalent
  | not _ ih => exact ih.not
  | left connective _ right ih => exact ih.binary connective (.refl right)
  | right connective left _ ih => exact .binary connective (.refl left) ih
  | set name _ ih => exact ih.set name
  | binding name _ body ih => exact ih.letIn name (.refl body)
  | body name binding _ ih => exact .letIn name (.refl binding) ih

/-- However often the laws are used, anywhere in a formula and in either direction, the
    formula keeps its value or its error in every environment, and leaves the same
    environment, although its parts may bind names, unbind them and fail. -/
theorem eval_eq_of_rewrites {a b : Formula} (hrewrites : Relation.EqvGen Rewrites a b)
    (env : Environment) : a.eval env = b.eval env := by
  have hequivalent : Equivalent a b := by
    induction hrewrites with
    | rel a b hrewrites => exact hrewrites.equivalent
    | refl a => exact .refl a
    | symm a b _ ih => exact ih.symm
    | trans a b c _ _ ihfirst ihrest => exact ihfirst.trans ihrest
  exact hequivalent env

/-- Below a `letIn` an implication becomes a disjunction, and in its binding a double
    negation is put in. The right side fails behind what the left side has set. -/
theorem eval_eq_of_rewrites_failing :
    Relation.EqvGen Rewrites
      (letIn "x" (ref "p") (binary .implies (set "y" (ref "x")) (ref "z")))
      (letIn "x" (not (not (ref "p"))) (binary .or (not (set "y" (ref "x"))) (ref "z"))) ∧
    (letIn "x" (not (not (ref "p"))) (binary .or (not (set "y" (ref "x"))) (ref "z"))).eval
      (Environment.empty.insert "p" true) =
        (.error (.undefined "z"), (Environment.empty.insert "p" true).insert "y" true) := by
  have hbody : Rewrites (letIn "x" (ref "p") (binary .implies (set "y" (ref "x")) (ref "z")))
      (letIn "x" (ref "p") (binary .or (not (set "y" (ref "x"))) (ref "z"))) :=
    .body "x" (ref "p") (.law (.implies _ _))
  have hbinding : Rewrites
      (letIn "x" (not (not (ref "p"))) (binary .or (not (set "y" (ref "x"))) (ref "z")))
      (letIn "x" (ref "p") (binary .or (not (set "y" (ref "x"))) (ref "z"))) :=
    .binding "x" (.law (.notNot _)) _
  have hrewrites := Relation.EqvGen.trans _ _ _ (.rel _ _ hbody) (.symm _ _ (.rel _ _ hbinding))
  exact ⟨hrewrites, (eval_eq_of_rewrites hrewrites _).symm.trans rfl⟩

end Formula

end PrefixLogic
