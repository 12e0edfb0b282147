import PrefixLogic.Proofs.Formula.Written
import PrefixLogic.Proofs.Tree.Printed

namespace PrefixLogic

namespace Formula

/-- No name of a formula holds a character that can end it in the written form. -/
def Printable (formula : Formula) : Prop :=
  ∀ name ∈ formula.names, ')' ∉ name.toList ∧ ' ' ∉ name.toList

section Chars

variable {name : String} {operand left right binding body : Formula} {rest : List Char}

theorem text_append_ref :
    (ref name).text.toList ++ rest = "Reference(".toList ++ (name.toList ++ ')' :: rest) := by
  simp [text]

theorem text_append_not :
    (not operand).text.toList ++ rest = "Not(".toList ++ (operand.text.toList ++ ')' :: rest) := by
  simp [text]

theorem text_append_binary {connective : Connective} :
    (binary connective left right).text.toList ++ rest = connective.label.toList ++
      '(' :: (left.text.toList ++ (", ".toList ++ (right.text.toList ++ ')' :: rest))) := by
  simp [text]

theorem text_append_set :
    (set name binding).text.toList ++ rest = "Set(".toList ++
      ((name.toList ++ [',']) ++ ' ' :: (binding.text.toList ++ ')' :: rest)) := by
  simp [text]

theorem text_append_letIn :
    (letIn name binding body).text.toList ++ rest = "Let(".toList ++ ((name.toList ++ [',']) ++
      ' ' :: (binding.text.toList ++ (", ".toList ++ (body.text.toList ++ ')' :: rest)))) := by
  simp [text]

end Chars

/-- The first two characters of the written form. -/
def initials : Formula → List Char
  | .ref _ => ['R', 'e']
  | .literal _ => ['B', 'o']
  | .not _ => ['N', 'o']
  | .binary connective _ _ => connective.label.toList.take 2
  | .letIn .. => ['L', 'e']
  | .set .. => ['S', 'e']
  | .null => ['N', 'u']

theorem take_text_append (formula : Formula) (rest : List Char) :
    (formula.text.toList ++ rest).take 2 = formula.initials := by
  cases formula with
  | literal value => cases value <;> rfl
  | null => rfl
  | binary connective left right =>
    rw [text_append_binary]
    cases connective <;> rfl
  | _ => simp [text, initials]

theorem initials_eq_of_text_append {a b : Formula} {rest rest' : List Char}
    (htext : a.text.toList ++ rest = b.text.toList ++ rest') : a.initials = b.initials := by
  rw [← take_text_append a rest, htext, take_text_append]

/-- Formulas with the same outermost step, whatever is below it. -/
inductive SameKind : Formula → Formula → Prop
  | ref (name name' : String) : SameKind (.ref name) (.ref name')
  | literal (value value' : Bool) : SameKind (.literal value) (.literal value')
  | not (operand operand' : Formula) : SameKind (.not operand) (.not operand')
  | binary (connective : Connective) (left right left' right' : Formula) :
      SameKind (.binary connective left right) (.binary connective left' right')
  | letIn (name name' : String) (binding body binding' body' : Formula) :
      SameKind (.letIn name binding body) (.letIn name' binding' body')
  | set (name name' : String) (binding binding' : Formula) :
      SameKind (.set name binding) (.set name' binding')
  | null : SameKind .null .null

/-- What a written form starts with tells the outermost step. -/
theorem sameKind_of_text_append {a b : Formula} {rest rest' : List Char}
    (htext : a.text.toList ++ rest = b.text.toList ++ rest') : SameKind a b := by
  have hinitials := initials_eq_of_text_append htext
  cases a with
  | ref name =>
    cases b with
    | ref name' => exact .ref name name'
    | binary connective => cases connective <;> cases hinitials
    | _ => cases hinitials
  | literal value =>
    cases b with
    | literal value' => exact .literal value value'
    | binary connective => cases connective <;> cases hinitials
    | _ => cases hinitials
  | not operand =>
    cases b with
    | not operand' => exact .not operand operand'
    | binary connective => cases connective <;> cases hinitials
    | _ => cases hinitials
  | binary connective left right =>
    cases b with
    | binary connective' left' right' =>
      have hsame : connective = connective' := by
        cases connective <;> cases connective' <;> first | rfl | cases hinitials
      rw [hsame]
      exact .binary connective' left right left' right'
    | _ => cases connective <;> cases hinitials
  | letIn name binding body =>
    cases b with
    | letIn name' binding' body' => exact .letIn name name' binding body binding' body'
    | binary connective => cases connective <;> cases hinitials
    | _ => cases hinitials
  | set name binding =>
    cases b with
    | set name' binding' => exact .set name name' binding binding'
    | binary connective => cases connective <;> cases hinitials
    | _ => cases hinitials
  | null =>
    cases b with
    | null => exact .null
    | binary connective => cases connective <;> cases hinitials
    | _ => cases hinitials

/-- The written form of a formula shows which formula it is and where the written form ends. -/
def TextTells (a : Formula) : Prop :=
  ∀ (b : Formula) (rest rest' : List Char), a.Printable → b.Printable →
    a.text.toList ++ rest = b.text.toList ++ rest' → a = b ∧ rest = rest'

section Tells

variable {operand left right binding body : Formula}

theorem textTells_ref (name : String) : (ref name).TextTells := by
  intro b rest rest' ha hb htext
  cases sameKind_of_text_append htext with
  | ref _ name' =>
    rw [text_append_ref, text_append_ref] at htext
    obtain ⟨hname, hrest⟩ := append_cons_inj_of_notMem (ha name List.mem_cons_self).1
      (hb name' List.mem_cons_self).1 (List.append_cancel_left htext)
    rw [String.toList_inj.mp hname]
    exact ⟨rfl, hrest⟩

theorem textTells_literal (value : Bool) : (literal value).TextTells := by
  intro b rest rest' _ _ htext
  cases sameKind_of_text_append htext with
  | literal _ value' =>
    cases value with
    | true =>
      cases value' with
      | true => exact ⟨rfl, List.append_cancel_left htext⟩
      | false => simp [text] at htext
    | false =>
      cases value' with
      | true => simp [text] at htext
      | false => exact ⟨rfl, List.append_cancel_left htext⟩

theorem textTells_null : null.TextTells := by
  intro b rest rest' _ _ htext
  cases sameKind_of_text_append htext with
  | null => exact ⟨rfl, List.append_cancel_left htext⟩

theorem textTells_not (hoperand : operand.TextTells) : (not operand).TextTells := by
  intro b rest rest' ha hb htext
  cases sameKind_of_text_append htext with
  | not _ operand' =>
    rw [text_append_not, text_append_not] at htext
    obtain ⟨rfl, hrest⟩ := hoperand operand' _ _ ha hb (List.append_cancel_left htext)
    exact ⟨rfl, (List.cons.inj hrest).2⟩

theorem textTells_binary (connective : Connective) (hleft : left.TextTells)
    (hright : right.TextTells) : (binary connective left right).TextTells := by
  intro b rest rest' ha hb htext
  cases sameKind_of_text_append htext with
  | binary _ _ _ left' right' =>
    obtain ⟨haleft, haright⟩ := List.forall_mem_append.mp ha
    obtain ⟨hbleft, hbright⟩ := List.forall_mem_append.mp hb
    rw [text_append_binary, text_append_binary] at htext
    have hinner := (List.cons.inj (List.append_cancel_left htext)).2
    obtain ⟨rfl, hbehind⟩ := hleft left' _ _ haleft hbleft hinner
    obtain ⟨rfl, hrest⟩ := hright right' _ _ haright hbright (List.append_cancel_left hbehind)
    exact ⟨rfl, (List.cons.inj hrest).2⟩

/-- A name that is bound ends at the comma before the first space. -/
theorem eq_of_bound_append {name name' : String} {rest rest' : List Char}
    (hname : ' ' ∉ name.toList) (hname' : ' ' ∉ name'.toList)
    (htext : (name.toList ++ [',']) ++ ' ' :: rest = (name'.toList ++ [',']) ++ ' ' :: rest') :
    name = name' ∧ rest = rest' := by
  obtain ⟨hsame, hrest⟩ := append_cons_inj_of_notMem (by simpa using hname)
    (by simpa using hname') htext
  exact ⟨String.toList_inj.mp (List.append_cancel_right hsame), hrest⟩

theorem textTells_set (name : String) (hbinding : binding.TextTells) :
    (set name binding).TextTells := by
  intro b rest rest' ha hb htext
  cases sameKind_of_text_append htext with
  | set _ name' _ binding' =>
    obtain ⟨haname, habinding⟩ := List.forall_mem_cons.mp ha
    obtain ⟨hbname, hbbinding⟩ := List.forall_mem_cons.mp hb
    rw [text_append_set, text_append_set] at htext
    obtain ⟨rfl, hinner⟩ :=
      eq_of_bound_append haname.2 hbname.2 (List.append_cancel_left htext)
    obtain ⟨rfl, hrest⟩ := hbinding binding' _ _ habinding hbbinding hinner
    exact ⟨rfl, (List.cons.inj hrest).2⟩

theorem textTells_letIn (name : String) (hbinding : binding.TextTells)
    (hbody : body.TextTells) : (letIn name binding body).TextTells := by
  intro b rest rest' ha hb htext
  cases sameKind_of_text_append htext with
  | letIn _ name' _ _ binding' body' =>
    obtain ⟨haname, hainner⟩ := List.forall_mem_cons.mp ha
    obtain ⟨hbname, hbinner⟩ := List.forall_mem_cons.mp hb
    obtain ⟨habinding, habody⟩ := List.forall_mem_append.mp hainner
    obtain ⟨hbbinding, hbbody⟩ := List.forall_mem_append.mp hbinner
    rw [text_append_letIn, text_append_letIn] at htext
    obtain ⟨rfl, hinner⟩ :=
      eq_of_bound_append haname.2 hbname.2 (List.append_cancel_left htext)
    obtain ⟨rfl, hbehind⟩ := hbinding binding' _ _ habinding hbbinding hinner
    obtain ⟨rfl, hrest⟩ := hbody body' _ _ habody hbbody (List.append_cancel_left hbehind)
    exact ⟨rfl, (List.cons.inj hrest).2⟩

end Tells

theorem textTells (a : Formula) : a.TextTells := by
  induction a with
  | ref name => exact textTells_ref name
  | literal value => exact textTells_literal value
  | not operand ih => exact textTells_not ih
  | binary connective left right ihleft ihright => exact textTells_binary connective ihleft ihright
  | letIn name binding body ihbinding ihbody => exact textTells_letIn name ihbinding ihbody
  | set name binding ih => exact textTells_set name ih
  | null => exact textTells_null

end Formula

/-- What is printed can be told apart, whatever else the names hold: trees that are printed
    alike differ in nothing but constants that are, and formulas in nothing. -/
theorem unambiguous_text :
    (∀ a b : Tree, a.Printable → b.Printable → (a.text = b.text ↔ a.Alike b)) ∧
    ∀ a b : Formula, a.Printable → b.Printable → (a.text = b.text ↔ a = b) := by
  refine ⟨fun a b => Tree.text_eq_iff, fun a b ha hb => ⟨fun htext => ?_, congrArg Formula.text⟩⟩
  exact (a.textTells b [] [] ha hb (by rw [htext])).1

/-- Two constants that are no numbers, each at the end of a chain behind a name that looks like
    the start of a list, and two formulas whose names look like the rest of one. -/
theorem unambiguous_text_nested_look :
    (Tree.pair (.atom (.symbol "List(a . "))
        (.atom (.constant (.ofBits 0x7ff8000000000000#64)))).Alike
      (.pair (.atom (.symbol "List(a . "))
        (.atom (.constant (.ofBits 0x7ff8000000000001#64)))) ∧
    (Formula.set "x,Set(y" (.ref ",Null")).text ≠
      (Formula.set "x" (.set "y" (.ref ",Null"))).text := by
  obtain ⟨htrees, hformulas⟩ := unambiguous_text
  constructor
  · refine (htrees _ _ ?_ ?_).mp ?_
    · simp [Tree.Printable, Tree.atoms]
    · simp [Tree.Printable, Tree.atoms]
    · decide +kernel
  · intro htext
    refine absurd ((hformulas _ _ ?_ ?_).mp htext) (by decide)
    · simp [Formula.Printable, Formula.names]
    · simp [Formula.Printable, Formula.names]

end PrefixLogic
