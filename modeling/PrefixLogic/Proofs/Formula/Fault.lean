import PrefixLogic.Formula.OfTree

namespace PrefixLogic

section Results

variable {α β : Type} {result : Except SyntaxError α} {error : SyntaxError}

theorem map_eq_ok_iff {f : α → β} {value : β} :
    result.map f = .ok value ↔ ∃ inner, result = .ok inner ∧ f inner = value := by
  cases result <;> simp [Except.map]

theorem map_eq_error_iff {f : α → β} : result.map f = .error error ↔ result = .error error := by
  cases result <;> simp [Except.map]

/-- Two conditions that decide for a value and for an error, and leave nothing
    undecided, say exactly when the result is which. -/
theorem eq_iff_of_decided {value : α → Prop} {fault : SyntaxError → Prop}
    (hvalue : ∀ a, value a → result = .ok a) (hfault : ∀ e, fault e → result = .error e)
    (hdecided : (∃ a, value a) ∨ ∃ e, fault e) :
    (∀ a, result = .ok a ↔ value a) ∧ ∀ e, result = .error e ↔ fault e := by
  rcases hdecided with ⟨decided, hdecided⟩ | ⟨decided, hdecided⟩
  · refine ⟨fun a => ⟨fun hok => ?_, hvalue a⟩, fun e => ⟨fun herror => ?_, hfault e⟩⟩
    · rw [hvalue decided hdecided] at hok
      cases hok
      exact hdecided
    · rw [hvalue decided hdecided] at herror
      cases herror
  · refine ⟨fun a => ⟨fun hok => ?_, hvalue a⟩, fun e => ⟨fun herror => ?_, hfault e⟩⟩
    · rw [hfault decided hdecided] at hok
      cases hok
    · rw [hfault decided hdecided] at herror
      cases herror
      exact hdecided

end Results

namespace Tree

/-- Pairs that hold the given trees one after the other, and what the chain of
    them ends in. -/
def chain (elements : List Tree) (last : Tree) : Tree :=
  elements.foldr .pair last

/-- Symbols of the given names. -/
def symbols (names : List String) : List Tree :=
  names.map fun name => .atom (.symbol name)

def isSymbol : Tree → Bool
  | .atom (.symbol _) => true
  | _ => false

def isPair : Tree → Bool
  | .pair .. => true
  | _ => false

theorem isSymbol_eq_true_iff {tree : Tree} :
    tree.isSymbol = true ↔ ∃ name, tree = .atom (.symbol name) := by
  cases tree with
  | atom value => cases value <;> simp [isSymbol]
  | _ => simp [isSymbol]

theorem isPair_chain {elements : List Tree} (hne : elements ≠ []) (last : Tree) :
    (chain elements last).isPair = true := by
  cases elements with
  | nil => exact absurd rfl hne
  | cons first rest => rfl

theorem isPair_ofList {trees : List Tree} (hne : trees ≠ []) : (ofList trees).isPair = true :=
  isPair_chain hne .empty

/-- The shapes of a tree that reading it as a formula tells apart. -/
inductive Outline : Tree → Prop where
  | atom (value : Atom) : Outline (.atom value)
  | empty : Outline .empty
  | single (element : Tree) : Outline (.ofList [element])
  | applied (head : Tree) {terms : List Tree} (hne : terms ≠ []) : Outline (.ofList (head :: terms))
  | improper {elements : List Tree} (hne : elements ≠ []) (value : Atom) :
      Outline (.chain elements (.atom value))

theorem items_chain_atom (elements : List Tree) (value : Atom) :
    (chain elements (.atom value)).items = .error (.notAList value.kind) := by
  induction elements with
  | nil => rfl
  | cons first rest ih => rw [chain, List.foldr_cons, ← chain, items, ih]; rfl

/-- Every tree is a list or ends in an atom. -/
theorem eq_ofList_or_eq_chain (tree : Tree) :
    (∃ trees, tree = ofList trees) ∨ ∃ elements value, tree = chain elements (.atom value) := by
  induction tree with
  | atom value => exact .inr ⟨[], value, rfl⟩
  | empty => exact .inl ⟨[], rfl⟩
  | pair head tail _ ih =>
    rcases ih with ⟨trees, rfl⟩ | ⟨elements, value, rfl⟩
    · exact .inl ⟨head :: trees, rfl⟩
    · exact .inr ⟨head :: elements, value, rfl⟩

theorem outline (tree : Tree) : Outline tree := by
  rcases eq_ofList_or_eq_chain tree with ⟨trees, rfl⟩ | ⟨elements, value, rfl⟩
  · match trees with
    | [] => exact .empty
    | [element] => exact .single element
    | head :: first :: rest => exact .applied head (List.cons_ne_nil first rest)
  · match elements with
    | [] => exact .atom value
    | first :: rest => exact .improper (List.cons_ne_nil first rest) value

end Tree

/-- The name that the head of a list spells. -/
inductive SpellsName : Tree → String → Prop where
  | symbol (name : String) : SpellsName (.atom (.symbol name)) name
  | pieces {names : List String} (hne : names ≠ []) :
      SpellsName (.ofList (Tree.symbols names)) (String.join names)

/-- Why a tree spells no name. A list that holds something else than symbols
    shows the first such thing; the empty list has no symbol to show and stands
    for itself, like an atom. -/
inductive HeadFault : Tree → SyntaxError → Prop where
  | improper {elements : List Tree} (hne : elements ≠ []) (value : Atom) :
      HeadFault (.chain elements (.atom value)) (.notAList value.kind)
  | component (names : List String) {other : Tree} (hother : other.isSymbol = false)
      (rest : List Tree) :
      HeadFault (.ofList (Tree.symbols names ++ other :: rest)) (.invalidComponent other.text)
  | head {head : Tree} (hsymbol : head.isSymbol = false) (hpair : head.isPair = false) :
      HeadFault head (.invalidComponent head.text)

/-- Whether an operator binds a name, which is then its first term. -/
def Operator.binds : Operator → Bool
  | .set => true
  | .letIn => true
  | _ => false

theorem Operator.arity_le (operator : Operator) : operator.arity ≤ 3 := by
  cases operator <;> simp [arity]

/-- What is wrong with a tree itself, whatever may be wrong below it. Every fault
    stands for trees that have none of the faults before it. -/
inductive Fault : Tree → SyntaxError → Prop where
  | improper {elements : List Tree} (hne : elements ≠ []) (value : Atom) :
      Fault (.chain elements (.atom value)) (.notAList value.kind)
  | head {head : Tree} {terms : List Tree} {error : SyntaxError} (hne : terms ≠ [])
      (hhead : HeadFault head error) : Fault (.ofList (head :: terms)) error
  | excess {head : Tree} {name : String} {terms : List Tree} (hspells : SpellsName head name)
      (hlength : 3 < terms.length) : Fault (.ofList (head :: terms)) (.unknownOperator name)
  | count {head : Tree} {name : String} {terms : List Tree} (hspells : SpellsName head name)
      (hne : terms ≠ []) (hlength : terms.length ≤ 3)
      (hnone : ∀ operator : Operator, name ∈ operator.aliases → operator.arity ≠ terms.length) :
      Fault (.ofList (head :: terms)) (.wrongTermCount name terms.length)
  | place {head place : Tree} {name : String} {operator : Operator} {rest : List Tree}
      (hspells : SpellsName head name) (hname : name ∈ operator.aliases)
      (hbinds : operator.binds = true) (harity : operator.arity = (place :: rest).length)
      (hplace : place.isSymbol = false) :
      Fault (.ofList (head :: place :: rest)) (.notASymbol name place.text)

/-- The formula that an atom spells. One and zero are the two truth values, and no other
    constant has a meaning. -/
def Atom.formula : Atom → Formula
  | .symbol name => .ref name
  | .truth value => .literal value
  | .constant value =>
    if value.isOne then .literal true else if value.isZero then .literal false else .null

theorem Atom.formula_constant (value : Binary64) :
    (Atom.constant value).formula = Layer.ofConstant value :=
  rfl

/-- What a tree without a fault says by itself, whatever may be wrong below it. -/
inductive Layer.Reads : Tree → Layer → Prop where
  | atom (value : Atom) : Reads (.atom value) (.leaf value.formula)
  | empty : Reads .empty (.leaf .null)
  | group (element : Tree) : Reads (.ofList [element]) (.group element)
  | not {head : Tree} {name : String} (hspells : SpellsName head name)
      (hname : name ∈ Operator.aliases .not) (operand : Tree) :
      Reads (.ofList [head, operand]) (.not operand)
  | binary {head : Tree} {name : String} {connective : Connective} (hspells : SpellsName head name)
      (hname : name ∈ Operator.aliases (.binary connective)) (left right : Tree) :
      Reads (.ofList [head, left, right]) (.binary connective left right)
  | set {head : Tree} {name : String} (hspells : SpellsName head name)
      (hname : name ∈ Operator.aliases .set) (bound : String) (binding : Tree) :
      Reads (.ofList [head, .atom (.symbol bound), binding]) (.set bound binding)
  | letIn {head : Tree} {name : String} (hspells : SpellsName head name)
      (hname : name ∈ Operator.aliases .letIn) (bound : String) (binding body : Tree) :
      Reads (.ofList [head, .atom (.symbol bound), binding, body]) (.letIn bound binding body)

section Heads

theorem joinSymbols_symbols_append (names : List String) (rest : List Tree) :
    joinSymbols (Tree.symbols names ++ rest) = (joinSymbols rest).map (String.join names ++ ·) := by
  induction names with
  | nil => cases hrest : joinSymbols rest <;> simp [Tree.symbols, hrest, Except.map]
  | cons name names ih =>
    rw [Tree.symbols, List.map_cons, ← Tree.symbols, List.cons_append, joinSymbols, ih,
      String.join_cons]
    cases joinSymbols rest <;> simp [Except.map, String.append_assoc]

theorem joinSymbols_symbols (names : List String) :
    joinSymbols (Tree.symbols names) = .ok (String.join names) := by
  have hjoin := joinSymbols_symbols_append names []
  rw [List.append_nil] at hjoin
  rw [hjoin, joinSymbols]
  simp [Except.map]

theorem joinSymbols_of_not_isSymbol {other : Tree} (hother : other.isSymbol = false)
    (rest : List Tree) : joinSymbols (other :: rest) = .error (.invalidComponent other.text) := by
  rw [joinSymbols.eq_def]
  split
  · rename_i hnil
    cases hnil
  · rename_i hcons
    cases hcons
    cases hother
  · rename_i hcons
    cases hcons
    rfl

/-- A list holds symbols only, or there is a first item that is none. -/
theorem exists_symbols (items : List Tree) :
    (∃ names, items = Tree.symbols names) ∨
      ∃ names other rest, items = Tree.symbols names ++ other :: rest ∧ other.isSymbol = false := by
  induction items with
  | nil => exact .inl ⟨[], rfl⟩
  | cons item items ih =>
    cases hsymbol : item.isSymbol with
    | false => exact .inr ⟨[], item, items, rfl, hsymbol⟩
    | true =>
      obtain ⟨name, rfl⟩ := Tree.isSymbol_eq_true_iff.mp hsymbol
      rcases ih with ⟨names, rfl⟩ | ⟨names, other, rest, rfl, hother⟩
      · exact .inl ⟨name :: names, rfl⟩
      · exact .inr ⟨name :: names, other, rest, rfl, hother⟩

theorem operatorName_of_isPair {head : Tree} (hpair : head.isPair = true) :
    operatorName head = head.items.bind joinSymbols := by
  cases head with
  | pair first rest => rfl
  | atom value => cases hpair
  | empty => cases hpair

theorem operatorName_ofList {items : List Tree} (hne : items ≠ []) :
    operatorName (.ofList items) = joinSymbols items := by
  rw [operatorName_of_isPair (Tree.isPair_ofList hne), Tree.items_ofList]
  rfl

theorem operatorName_of_spellsName {head : Tree} {name : String} (hspells : SpellsName head name) :
    operatorName head = .ok name := by
  cases hspells with
  | symbol => rfl
  | @pieces names hne =>
    rw [operatorName_ofList (by simpa [Tree.symbols] using hne), joinSymbols_symbols]

theorem operatorName_of_headFault {head : Tree} {error : SyntaxError}
    (hfault : HeadFault head error) : operatorName head = .error error := by
  cases hfault with
  | improper hne value =>
    rw [operatorName_of_isPair (Tree.isPair_chain hne _), Tree.items_chain_atom]
    rfl
  | component names hother rest =>
    rw [operatorName_ofList (by simp), joinSymbols_symbols_append, joinSymbols_of_not_isSymbol hother]
    rfl
  | head hsymbol hpair =>
    cases head with
    | pair first rest => cases hpair
    | empty => rfl
    | atom value =>
      cases value with
      | symbol name => cases hsymbol
      | _ => rfl

/-- A head spells a name or has a fault. -/
theorem exists_spellsName_or_headFault (head : Tree) :
    (∃ name, SpellsName head name) ∨ ∃ error, HeadFault head error := by
  cases hsymbol : head.isSymbol with
  | true =>
    obtain ⟨name, rfl⟩ := Tree.isSymbol_eq_true_iff.mp hsymbol
    exact .inl ⟨name, .symbol name⟩
  | false =>
    cases hpair : head.isPair with
    | false => exact .inr ⟨_, .head hsymbol hpair⟩
    | true =>
      rcases Tree.eq_ofList_or_eq_chain head with ⟨items, rfl⟩ | ⟨elements, value, rfl⟩
      · rcases exists_symbols items with ⟨names, rfl⟩ | ⟨names, other, rest, rfl, hother⟩
        · cases names with
          | nil => cases hpair
          | cons name names => exact .inl ⟨_, .pieces (List.cons_ne_nil name names)⟩
        · exact .inr ⟨_, .component names hother rest⟩
      · cases elements with
        | nil => cases hpair
        | cons first rest => exact .inr ⟨_, .improper (List.cons_ne_nil first rest) value⟩

theorem operatorName_eq_ok_iff {head : Tree} {name : String} :
    operatorName head = .ok name ↔ SpellsName head name :=
  (eq_iff_of_decided (fun _ => operatorName_of_spellsName) (fun _ => operatorName_of_headFault)
    (exists_spellsName_or_headFault head)).1 name

theorem operatorName_eq_error_iff {head : Tree} {error : SyntaxError} :
    operatorName head = .error error ↔ HeadFault head error :=
  (eq_iff_of_decided (fun _ => operatorName_of_spellsName) (fun _ => operatorName_of_headFault)
    (exists_spellsName_or_headFault head)).2 error

end Heads

namespace Layer

theorem ofTree_atom (value : Atom) : ofTree (.atom value) = .ok (.leaf value.formula) := by
  cases value <;> rfl

theorem ofTree_of_isPair {tree : Tree} (hpair : tree.isPair = true) :
    ofTree tree = tree.items.bind ofItems := by
  cases tree with
  | pair head tail => rfl
  | atom value => cases hpair
  | empty => cases hpair

/-- A list whose head stands before terms. -/
theorem ofTree_applied (head : Tree) {terms : List Tree} (hne : terms ≠ []) :
    ofTree (.ofList (head :: terms)) = (operatorName head).bind (ofTerms · terms) := by
  rw [ofTree_of_isPair (Tree.isPair_ofList (List.cons_ne_nil head terms)), Tree.items_ofList]
  cases terms with
  | nil => exact absurd rfl hne
  | cons first rest => rfl

theorem ofTree_of_spellsName {head : Tree} {name : String} {terms : List Tree}
    (hspells : SpellsName head name) (hne : terms ≠ []) :
    ofTree (.ofList (head :: terms)) = ofTerms name terms := by
  rw [ofTree_applied _ hne, operatorName_of_spellsName hspells]
  rfl

theorem ofTree_of_mem_aliases {head : Tree} {name : String} {operator : Operator}
    {terms : List Tree} (hspells : SpellsName head name) (hname : name ∈ operator.aliases)
    (hne : terms ≠ []) (hlength : terms.length ≤ 3) :
    ofTree (.ofList (head :: terms)) = ofOperator name operator terms := by
  rw [ofTree_of_spellsName hspells hne, ofTerms, if_neg (by omega),
    Operator.ofName?_of_mem_aliases hname]

theorem ofOperator_of_arity_ne {name : String} {operator : Operator} {terms : List Tree}
    (harity : operator.arity ≠ terms.length) :
    ofOperator name operator terms = .error (.wrongTermCount name terms.length) := by
  rw [ofOperator.eq_def]
  split
  · exact absurd rfl harity
  · exact absurd rfl harity
  · exact absurd rfl harity
  · exact absurd rfl harity
  · rfl

theorem boundName_of_not_isSymbol {place : Tree} (hplace : place.isSymbol = false)
    (operator : String) :
    boundName operator place = .error (.notASymbol operator place.text) := by
  rw [boundName.eq_def]
  split
  · cases hplace
  · rfl

theorem ofOperator_of_not_isSymbol {name : String} {operator : Operator} {place : Tree}
    {rest : List Tree} (hbinds : operator.binds = true)
    (harity : operator.arity = (place :: rest).length) (hplace : place.isSymbol = false) :
    ofOperator name operator (place :: rest) = .error (.notASymbol name place.text) := by
  match operator, rest, hbinds, harity with
  | .set, [binding], _, _ => rw [ofOperator, boundName_of_not_isSymbol hplace]; rfl
  | .letIn, [binding, body], _, _ => rw [ofOperator, boundName_of_not_isSymbol hplace]; rfl

theorem ofTree_of_reads {tree : Tree} {layer : Layer} (hreads : Reads tree layer) :
    ofTree tree = .ok layer := by
  cases hreads with
  | atom value => exact ofTree_atom value
  | empty => rfl
  | group element => rfl
  | not hspells hname operand => exact ofTree_of_mem_aliases hspells hname (by simp) (by simp)
  | binary hspells hname left right => exact ofTree_of_mem_aliases hspells hname (by simp) (by simp)
  | set hspells hname bound binding => exact ofTree_of_mem_aliases hspells hname (by simp) (by simp)
  | letIn hspells hname bound binding body => exact ofTree_of_mem_aliases hspells hname (by simp) (by simp)

theorem ofTree_of_fault {tree : Tree} {error : SyntaxError} (hfault : Fault tree error) :
    ofTree tree = .error error := by
  cases hfault with
  | improper hne value =>
    rw [ofTree_of_isPair (Tree.isPair_chain hne _), Tree.items_chain_atom]
    rfl
  | head hne hhead =>
    rw [ofTree_applied _ hne, operatorName_of_headFault hhead]
    rfl
  | @excess head name terms hspells hlength =>
    have hne : terms ≠ [] := by
      rintro rfl
      cases hlength
    rw [ofTree_of_spellsName hspells hne, ofTerms, if_pos hlength]
  | @count head name terms hspells hne hlength hnone =>
    cases hresolve : Operator.ofName? name with
    | none => rw [ofTree_of_spellsName hspells hne, ofTerms, if_neg (by omega), hresolve]
    | some operator =>
      have hname := Operator.mem_aliases_of_ofName? hresolve
      rw [ofTree_of_mem_aliases hspells hname hne hlength]
      exact ofOperator_of_arity_ne (hnone operator hname)
  | @place head place name operator rest hspells hname hbinds harity hplace =>
    rw [ofTree_of_mem_aliases hspells hname (by simp) (harity ▸ operator.arity_le)]
    exact ofOperator_of_not_isSymbol hbinds harity hplace

/-- Terms in the right number are read, unless a name is missing where one is to
    be bound. -/
theorem exists_reads_or_fault_of_arity {head : Tree} {name : String} {operator : Operator}
    {terms : List Tree} (hspells : SpellsName head name) (hname : name ∈ operator.aliases)
    (harity : operator.arity = terms.length) :
    (∃ layer, Reads (.ofList (head :: terms)) layer) ∨
      ∃ error, Fault (.ofList (head :: terms)) error := by
  match operator, terms, harity with
  | .not, [operand], _ => exact .inl ⟨_, .not hspells hname operand⟩
  | .binary connective, [left, right], _ => exact .inl ⟨_, .binary hspells hname left right⟩
  | .set, [place, binding], harity =>
    cases hplace : place.isSymbol with
    | false => exact .inr ⟨_, .place hspells hname rfl harity hplace⟩
    | true =>
      obtain ⟨bound, rfl⟩ := Tree.isSymbol_eq_true_iff.mp hplace
      exact .inl ⟨_, .set hspells hname bound binding⟩
  | .letIn, [place, binding, body], harity =>
    cases hplace : place.isSymbol with
    | false => exact .inr ⟨_, .place hspells hname rfl harity hplace⟩
    | true =>
      obtain ⟨bound, rfl⟩ := Tree.isSymbol_eq_true_iff.mp hplace
      exact .inl ⟨_, .letIn hspells hname bound binding body⟩

/-- A tree says something by itself or has a fault. -/
theorem exists_reads_or_fault (tree : Tree) :
    (∃ layer, Reads tree layer) ∨ ∃ error, Fault tree error := by
  cases tree.outline with
  | atom value => exact .inl ⟨_, .atom value⟩
  | empty => exact .inl ⟨_, .empty⟩
  | single element => exact .inl ⟨_, .group element⟩
  | improper hne value => exact .inr ⟨_, .improper hne value⟩
  | @applied head terms hne =>
    cases hspelled : operatorName head with
    | error error => exact .inr ⟨error, .head hne (operatorName_eq_error_iff.mp hspelled)⟩
    | ok name =>
      have hspells := operatorName_eq_ok_iff.mp hspelled
      by_cases hlength : 3 < terms.length
      · exact .inr ⟨_, .excess hspells hlength⟩
      -- That no operator has the name and that the one that has it takes another
      -- number of terms are the same fault.
      · by_cases hoperator : ∃ operator : Operator,
            name ∈ operator.aliases ∧ operator.arity = terms.length
        · obtain ⟨operator, hname, harity⟩ := hoperator
          exact exists_reads_or_fault_of_arity hspells hname harity
        · exact .inr ⟨_, .count hspells hne (by omega)
            fun operator hname harity => hoperator ⟨operator, hname, harity⟩⟩

theorem ofTree_eq_ok_iff {tree : Tree} {layer : Layer} :
    ofTree tree = .ok layer ↔ Reads tree layer :=
  (eq_iff_of_decided (fun _ => ofTree_of_reads) (fun _ => ofTree_of_fault)
    (exists_reads_or_fault tree)).1 layer

theorem ofTree_eq_error_iff {tree : Tree} {error : SyntaxError} :
    ofTree tree = .error error ↔ Fault tree error :=
  (eq_iff_of_decided (fun _ => ofTree_of_reads) (fun _ => ofTree_of_fault)
    (exists_reads_or_fault tree)).2 error

/-- A tree that says something by itself has no fault. -/
theorem Reads.not_fault {tree : Tree} {layer : Layer} (hreads : Reads tree layer)
    (error : SyntaxError) : ¬ Fault tree error := by
  intro hfault
  have hlayer := ofTree_of_reads hreads
  rw [ofTree_of_fault hfault] at hlayer
  cases hlayer

end Layer

/-- A tree has one fault at most. -/
theorem Fault.error_eq {tree : Tree} {error error' : SyntaxError} (hfault : Fault tree error)
    (hfault' : Fault tree error') : error = error' := by
  have hsame := Layer.ofTree_of_fault hfault'
  rw [Layer.ofTree_of_fault hfault] at hsame
  cases hsame
  rfl

end PrefixLogic
