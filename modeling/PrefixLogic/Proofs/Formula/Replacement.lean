import Mathlib.Data.List.Forall2
import Mathlib.Logic.Relation
import PrefixLogic.Proofs.Formula.FirstFault

namespace PrefixLogic

section Results

variable {ε α : Type} {view : SyntaxError → ε} {first first' second second' : Except SyntaxError α}

theorem mapError_map_congr (hsame : first.mapError view = first'.mapError view) (f : α → α) :
    (first.map f).mapError view = (first'.map f).mapError view := by
  cases first <;> cases first' <;> simp_all [Except.mapError, Except.map]

theorem mapError_bind_congr (hfirst : first.mapError view = first'.mapError view)
    (hsecond : second.mapError view = second'.mapError view) (f : α → α → α) :
    (first.bind fun x => second.map (f x)).mapError view =
      (first'.bind fun x => second'.map (f x)).mapError view := by
  cases first with
  | error error =>
    cases first' with
    | error error' => exact hfirst
    | ok y => cases hfirst
  | ok x =>
    cases first' with
    | error error' => cases hfirst
    | ok y =>
      obtain rfl : x = y := Except.ok.inj hfirst
      exact mapError_map_congr hsecond (f x)

end Results

section ReadAlike

variable {ε : Type} {view : SyntaxError → ε} {a b c : Tree}

/-- Two trees that are read alike: as the same formula, or both not, and then with errors
    that look the same. -/
def Formula.ReadAlike (view : SyntaxError → ε) (a b : Tree) : Prop :=
  (ofTree a).mapError view = (ofTree b).mapError view

namespace Formula.ReadAlike

theorem refl (tree : Tree) : ReadAlike view tree tree :=
  rfl

theorem trans (hfirst : ReadAlike view a b) (hrest : ReadAlike view b c) : ReadAlike view a c :=
  Eq.trans hfirst hrest

theorem ofTree_eq_ok_iff (halike : ReadAlike view a b) (formula : Formula) :
    ofTree a = .ok formula ↔ ofTree b = .ok formula := by
  rw [ReadAlike] at halike
  cases ha : ofTree a <;> cases hb : ofTree b <;> simp_all [Except.mapError]

theorem view_eq (halike : ReadAlike view a b) {error error' : SyntaxError}
    (ha : ofTree a = .error error) (hb : ofTree b = .error error') : view error = view error' := by
  rw [ReadAlike, ha, hb] at halike
  exact Except.error.inj halike

/-- Trees whose errors are looked at as they are come to the same in all. -/
theorem ofTree_eq (halike : ReadAlike id a b) : ofTree a = ofTree b := by
  rw [ReadAlike] at halike
  cases ha : ofTree a <;> cases hb : ofTree b <;> simp_all [Except.mapError]

end Formula.ReadAlike

/-- Outermost steps that are alike: errors that look the same, or one and the same step
    over operands that are related. -/
inductive Layer.Alike (view : SyntaxError → ε) (rel : Tree → Tree → Prop) :
    Except SyntaxError Layer → Except SyntaxError Layer → Prop
  | error {error error' : SyntaxError} (hview : view error = view error') :
      Alike view rel (.error error) (.error error')
  | leaf (formula : Formula) : Alike view rel (.ok (.leaf formula)) (.ok (.leaf formula))
  | group {element element' : Tree} (helement : rel element element') :
      Alike view rel (.ok (.group element)) (.ok (.group element'))
  | not {operand operand' : Tree} (hoperand : rel operand operand') :
      Alike view rel (.ok (.not operand)) (.ok (.not operand'))
  | binary (connective : Connective) {left left' right right' : Tree} (hleft : rel left left')
      (hright : rel right right') :
      Alike view rel (.ok (.binary connective left right)) (.ok (.binary connective left' right'))
  | set (name : String) {binding binding' : Tree} (hbinding : rel binding binding') :
      Alike view rel (.ok (.set name binding)) (.ok (.set name binding'))
  | letIn (name : String) {binding binding' body body' : Tree} (hbinding : rel binding binding')
      (hbody : rel body body') :
      Alike view rel (.ok (.letIn name binding body)) (.ok (.letIn name binding' body'))

/-- The formula of an outermost step, once it is said how trees are read. -/
def Layer.formula (read : Tree → Except SyntaxError Formula) : Layer → Except SyntaxError Formula
  | .leaf formula => .ok formula
  | .group element => read element
  | .not operand => (read operand).map .not
  | .binary connective left right =>
    (read left).bind fun first => (read right).map (.binary connective first)
  | .set name binding => (read binding).map (.set name)
  | .letIn name binding body =>
    (read binding).bind fun first => (read body).map (.letIn name first)

theorem Formula.ofTree_eq_bind (tree : Tree) :
    ofTree tree = (Layer.ofTree tree).bind (Layer.formula ofTree) := by
  rw [ofTree_eq]
  rcases Layer.ofTree tree with error | layer
  · rfl
  · cases layer with
    | binary connective left right =>
      dsimp only [Except.bind, Layer.formula]
      cases ofTree left <;> rfl
    | letIn name binding body =>
      dsimp only [Except.bind, Layer.formula]
      cases ofTree binding <;> rfl
    | _ => rfl

/-- Trees are read alike if their outermost steps look the same. -/
theorem Formula.readAlike_of_mapError_eq
    (hlayers : (Layer.ofTree a).mapError view = (Layer.ofTree b).mapError view) :
    ReadAlike view a b := by
  rw [ReadAlike, ofTree_eq_bind, ofTree_eq_bind]
  cases ha : Layer.ofTree a <;> cases hb : Layer.ofTree b <;>
    simp_all [Except.mapError, Except.bind]

/-- Trees are read alike if they are so below outermost steps that are alike. -/
theorem Formula.readAlike_of_layers
    (hlayers : Layer.Alike view (ReadAlike view) (Layer.ofTree a) (Layer.ofTree b)) :
    ReadAlike view a b := by
  rw [ReadAlike, ofTree_eq_bind, ofTree_eq_bind]
  generalize Layer.ofTree a = first at hlayers ⊢
  generalize Layer.ofTree b = second at hlayers ⊢
  cases hlayers with
  | error hview => exact congrArg Except.error hview
  | leaf formula => rfl
  | group helement => exact helement
  | not hoperand => exact mapError_map_congr hoperand _
  | binary connective hleft hright =>
    exact mapError_bind_congr hleft hright (.binary connective)
  | set name hbinding => exact mapError_map_congr hbinding _
  | letIn name hbinding hbody => exact mapError_bind_congr hbinding hbody (.letIn name)

/-- Results that look the same lead to alike steps where every value that both may have does. -/
theorem Layer.alike_bind {rel : Tree → Tree → Prop} {α : Type}
    {result result' : Except SyntaxError α} {next next' : α → Except SyntaxError Layer}
    (hresults : result.mapError view = result'.mapError view)
    (hnext : ∀ value, result = .ok value → Alike view rel (next value) (next' value)) :
    Alike view rel (result.bind next) (result'.bind next') := by
  cases result with
  | error error =>
    cases result' with
    | error error' => exact .error (Except.error.inj hresults)
    | ok value => cases hresults
  | ok value =>
    cases result' with
    | error error' => cases hresults
    | ok value' =>
      obtain rfl : value = value' := Except.ok.inj hresults
      exact hnext value rfl

/-- Two trees that name the same where a name is to be bound, or no name with errors that
    look the same. -/
def Tree.NamesAlike (view : SyntaxError → ε) (a b : Tree) : Prop :=
  ∀ operator, (boundName operator a).mapError view = (boundName operator b).mapError view

/-- Terms that are related one by one make alike steps under one operator, provided that
    the first of them names alike where it is to be bound. -/
theorem Layer.alike_ofOperator {rel : Tree → Tree → Prop} {terms terms' : List Tree}
    (name : String) {operator : Operator} (hterms : List.Forall₂ rel terms terms')
    (hplace : operator.binds = true → ∀ place ∈ terms.head?, ∀ place' ∈ terms'.head?,
      Tree.NamesAlike view place place') :
    Alike view rel (ofOperator name operator terms) (ofOperator name operator terms') := by
  by_cases harity : operator.arity = terms.length
  · match operator, terms, terms', hterms, harity with
    | .not, [_], [_], .cons hoperand .nil, _ => exact .not hoperand
    | .binary connective, [_, _], [_, _], .cons hleft (.cons hright .nil), _ =>
      exact .binary connective hleft hright
    | .set, [place, _], [place', _], .cons _ (.cons hbinding .nil), _ =>
      exact alike_bind (hplace rfl place rfl place' rfl name) fun bound _ => .set bound hbinding
    | .letIn, [place, _, _], [place', _, _], .cons _ (.cons hbinding (.cons hbody .nil)), _ =>
      exact alike_bind (hplace rfl place rfl place' rfl name) fun bound _ =>
        .letIn bound hbinding hbody
  · have hlength := hterms.length_eq
    rw [ofOperator_of_arity_ne harity, ofOperator_of_arity_ne (hlength ▸ harity), hlength]
    exact .error rfl

/-- Behind heads that spell alike, related terms make alike steps. -/
theorem Layer.alike_applied {rel : Tree → Tree → Prop} {head head' : Tree}
    {terms terms' : List Tree} (hne : terms ≠ [])
    (hheads : (operatorName head).mapError view = (operatorName head').mapError view)
    (hterms : List.Forall₂ rel terms terms')
    (hplace : head.namesBinder = true → ∀ place ∈ terms.head?, ∀ place' ∈ terms'.head?,
      Tree.NamesAlike view place place') :
    Alike view rel (ofTree (.ofList (head :: terms))) (ofTree (.ofList (head' :: terms'))) := by
  have hlength := hterms.length_eq
  have hne' : terms' ≠ [] := by
    rwa [← List.length_pos_iff, ← hlength, List.length_pos_iff]
  rw [ofTree_applied head hne, ofTree_applied head' hne']
  refine alike_bind hheads fun name hspelled => ?_
  rw [ofTerms, ofTerms, hlength]
  split
  · exact .error rfl
  · cases hresolve : Operator.ofName? name with
    | none => exact .error rfl
    | some operator =>
      have hbinds : head.namesBinder = operator.binds := by
        simp [Tree.namesBinder, hspelled, hresolve]
      exact alike_ofOperator name hterms (hbinds ▸ hplace)

end ReadAlike

/-- One use of a rule in a tree, at a place that is read as a formula: the whole tree,
    what stands alone in a list, or a term, unless it stands for the name that the head
    binds. -/
inductive Tree.Replaces (rule : Tree → Tree → Prop) : Tree → Tree → Prop
  | here {a b : Tree} (hrule : rule a b) : Replaces rule a b
  | element {a b : Tree} (hreplaces : Replaces rule a b) :
      Replaces rule (.ofList [a]) (.ofList [b])
  | term (head : Tree) (front : List Tree) {a b : Tree} (back : List Tree)
      (hplace : head.namesBinder = true → front ≠ []) (hreplaces : Replaces rule a b) :
      Replaces rule (.ofList (head :: (front ++ a :: back)))
        (.ofList (head :: (front ++ b :: back)))

namespace Formula

variable {ε : Type} {view : SyntaxError → ε} {rule : Tree → Tree → Prop}

/-- A rule that makes no difference to the trees it is meant for makes none to the trees
    that hold these at places which are read as formulas. -/
theorem readAlike_of_replaces (hrule : ∀ a b, rule a b → ReadAlike view a b) {tree tree' : Tree}
    (hreplaces : Tree.Replaces rule tree tree') : ReadAlike view tree tree' := by
  induction hreplaces with
  | here hhere => exact hrule _ _ hhere
  | element _ ih => exact readAlike_of_layers (.group ih)
  | @term head front a b back hplace _ ih =>
    have hsame : ∀ terms : List Tree, List.Forall₂ (ReadAlike view) terms terms :=
      fun terms => List.forall₂_same.mpr fun term _ => .refl term
    have hterms : List.Forall₂ (ReadAlike view) (front ++ a :: back) (front ++ b :: back) :=
      List.rel_append (hsame front) (.cons ih (hsame back))
    refine readAlike_of_layers (Layer.alike_applied (by simp) rfl hterms ?_)
    intro hbinder
    cases front with
    | nil => exact absurd rfl (hplace hbinder)
    | cons first rest =>
      rintro _ ⟨⟩ _ ⟨⟩ operator
      rfl

theorem readAlike_of_reflTransGen (hrule : ∀ a b, rule a b → ReadAlike view a b)
    {tree tree' : Tree} (hreplaces : Relation.ReflTransGen (Tree.Replaces rule) tree tree') :
    ReadAlike view tree tree' := by
  induction hreplaces with
  | refl => exact .refl tree
  | tail _ hreplaces ih => exact ih.trans (readAlike_of_replaces hrule hreplaces)

end Formula

end PrefixLogic
