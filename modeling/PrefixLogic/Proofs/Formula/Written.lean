import PrefixLogic.Proofs.Line.Interpretation
import PrefixLogic.Proofs.Token.Name
import PrefixLogic.Proofs.Tree.Form

namespace PrefixLogic

/-- Words in a row. Between two of them stands a run of blanks, which is not
    empty, and behind the last of them one that may be. -/
inductive Spaced : List (List Char) → List Char → Prop where
  | last (word trail : List Char) (htrail : trail.all Text.isBlank = true) :
      Spaced [word] (word ++ trail)
  | cons (word : List Char) {gap : List Char} {words : List (List Char)} {text : List Char}
      (hne : gap ≠ []) (hgap : gap.all Text.isBlank = true) (hrest : Spaced words text) :
      Spaced (word :: words) (word ++ gap ++ text)

/-- Words in a pair of parentheses. -/
def Enclosed (words : List (List Char)) (text : List Char) : Prop :=
  ∃ lead body, lead.all Text.isBlank = true ∧ Spaced words body ∧
    text = '(' :: (lead ++ body ++ [')'])

namespace Formula

/-- The names that a formula refers to or binds. -/
def names : Formula → List String
  | .ref name => [name]
  | .literal _ => []
  | .not operand => operand.names
  | .binary _ left right => left.names ++ right.names
  | .letIn name binding body => name :: (binding.names ++ body.names)
  | .set name binding => name :: binding.names
  | .null => []

/-- The ways to write a formula. Every node chooses a spelling of its operator,
    or of its truth value, and its blanks by itself. -/
inductive Writes : Formula → List Char → Prop where
  | ref (name : String) : Writes (.ref name) name.toList
  | word {value : Bool} {chars : List Char} (hspell : chars.map Char.toLower ∈ truthWords value) :
      Writes (.literal value) chars
  | digit (value : Bool) : Writes (.literal value) [if value then '1' else '0']
  | null : Writes .null ['(', ')']
  | not {spelling : String} {operand : Formula} {inner text : List Char}
      (hspelling : spelling ∈ Operator.aliases .not) (hoperand : Writes operand inner)
      (htext : Enclosed [spelling.toList, inner] text) : Writes (.not operand) text
  | binary {spelling : String} {connective : Connective} {left right : Formula}
      {first second text : List Char} (hspelling : spelling ∈ Operator.aliases (.binary connective))
      (hleft : Writes left first) (hright : Writes right second)
      (htext : Enclosed [spelling.toList, first, second] text) :
      Writes (.binary connective left right) text
  | set {spelling name : String} {binding : Formula} {inner text : List Char}
      (hspelling : spelling ∈ Operator.aliases .set) (hbinding : Writes binding inner)
      (htext : Enclosed [spelling.toList, name.toList, inner] text) :
      Writes (.set name binding) text
  | letIn {spelling name : String} {binding body : Formula} {first second text : List Char}
      (hspelling : spelling ∈ Operator.aliases .letIn) (hbinding : Writes binding first)
      (hbody : Writes body second)
      (htext : Enclosed [spelling.toList, name.toList, first, second] text) :
      Writes (.letIn name binding body) text

end Formula

theorem Operator.exists_mem_aliases (operator : Operator) :
    ∃ spelling, spelling ∈ operator.aliases := by
  cases operator with
  | binary connective => cases connective <;> exact ⟨_, List.mem_cons_self⟩
  | _ => exact ⟨_, List.mem_cons_self⟩

theorem exists_spaced (word : List Char) (words : List (List Char)) :
    ∃ text, Spaced (word :: words) text := by
  induction words generalizing word with
  | nil => exact ⟨_, .last word [] rfl⟩
  | cons next words ih =>
    obtain ⟨text, htext⟩ := ih next
    exact ⟨_, .cons word (List.cons_ne_nil ' ' []) rfl htext⟩

theorem exists_enclosed (word : List Char) (words : List (List Char)) :
    ∃ text, Enclosed (word :: words) text := by
  obtain ⟨body, hbody⟩ := exists_spaced word words
  exact ⟨_, [], body, rfl, hbody, rfl⟩

section Tokens

/-- Blanks keep the tokens of words apart and add none. -/
theorem Spaced.tokens_eq {words : List (List Char)} {text : List Char}
    (hspaced : Spaced words text) : tokens text = words.flatMap tokens := by
  induction hspaced with
  | last word trail htrail =>
    rw [tokens_append_isBlank (List.all_eq_true.mp htrail)]
    simp
  | cons word hne hgap _ ih =>
    rw [List.all_eq_true] at hgap
    rw [List.append_assoc, tokens_append (detached_of_isBlank hne hgap _),
      tokens_isBlank_append hgap, ih, List.flatMap_cons]

theorem Enclosed.tokens_eq {words : List (List Char)} {text : List Char}
    (henclosed : Enclosed words text) :
    tokens text = .opening :: (words.flatMap tokens ++ [.closing]) := by
  obtain ⟨lead, body, hlead, hbody, rfl⟩ := henclosed
  have hclosing : Detached [')'] := detached_cons.mpr rfl
  rw [tokens_opening, tokens_append hclosing, tokens_isBlank_append (List.all_eq_true.mp hlead),
    hbody.tokens_eq, tokens_closing, tokens_nil]

end Tokens

section Items

theorem Spells.append {run run' : List Token} {items items' : List Tree}
    (hspells : Spells run items) (hrest : Spells run' items') :
    Spells (run ++ run') (items ++ items') := by
  induction hspells with
  | nil => exact hrest
  | atom hitem _ ih => exact .atom hitem ih
  | group hinner _ _ ih =>
    rw [List.cons_append, List.append_assoc]
    exact .group hinner ih

theorem Enclosed.spells {words : List (List Char)} {text : List Char} {items : List Tree}
    (henclosed : Enclosed words text) (hitems : Spells (words.flatMap tokens) items) :
    Spells (tokens text) [.ofList items] := by
  rw [henclosed.tokens_eq]
  exact .group hitems .nil

theorem IsName.spells {name : String} (hname : IsName name.toList) :
    Spells (tokens name.toList) [.atom (.symbol name)] := by
  obtain ⟨hword | hoperator, htruth⟩ := hname
  · rw [hword, ← Atom.ofToken_word htruth]
    exact .atom rfl .nil
  · have hatom : Atom.ofToken (.operator name.toList) = .symbol name :=
      Atom.ofToken_eq_symbol rfl (fun _ => Token.noConfusion) htruth
    rw [hoperator, ← hatom]
    exact .atom rfl .nil

end Items

namespace Formula

/-- There is a way to write every formula. -/
theorem exists_writes (formula : Formula) : ∃ text, Writes formula text := by
  induction formula with
  | ref name => exact ⟨_, .ref name⟩
  | literal value => exact ⟨_, .digit value⟩
  | null => exact ⟨_, .null⟩
  | not operand ih =>
    obtain ⟨inner, hinner⟩ := ih
    obtain ⟨spelling, hspelling⟩ := Operator.exists_mem_aliases .not
    obtain ⟨text, htext⟩ := exists_enclosed spelling.toList [inner]
    exact ⟨text, .not hspelling hinner htext⟩
  | binary connective left right ihleft ihright =>
    obtain ⟨first, hfirst⟩ := ihleft
    obtain ⟨second, hsecond⟩ := ihright
    obtain ⟨spelling, hspelling⟩ := Operator.exists_mem_aliases (.binary connective)
    obtain ⟨text, htext⟩ := exists_enclosed spelling.toList [first, second]
    exact ⟨text, .binary hspelling hfirst hsecond htext⟩
  | set name binding ih =>
    obtain ⟨inner, hinner⟩ := ih
    obtain ⟨spelling, hspelling⟩ := Operator.exists_mem_aliases .set
    obtain ⟨text, htext⟩ := exists_enclosed spelling.toList [name.toList, inner]
    exact ⟨text, .set hspelling hinner htext⟩
  | letIn name binding body ihbinding ihbody =>
    obtain ⟨first, hfirst⟩ := ihbinding
    obtain ⟨second, hsecond⟩ := ihbody
    obtain ⟨spelling, hspelling⟩ := Operator.exists_mem_aliases .letIn
    obtain ⟨text, htext⟩ := exists_enclosed spelling.toList [name.toList, first, second]
    exact ⟨text, .letIn hspelling hfirst hsecond htext⟩

/-- The digit of a truth value is a numeral, and its number stands for that value. -/
theorem exists_spells_digit (value : Bool) :
    ∃ constant, Spells (tokens [if value then '1' else '0']) [.atom (.constant constant)] ∧
      Layer.ofConstant constant = .literal value := by
  have hscan : ∃ numeral, Token.scan (if value then '1' else '0') [] = .number numeral ∧
      Layer.ofConstant numeral.value = .literal value := by
    cases value with
    | true => exact ⟨_, rfl, by decide +kernel⟩
    | false => exact ⟨_, rfl, by decide +kernel⟩
  obtain ⟨numeral, hnumeral, hconstant⟩ := hscan
  have hrun : tokens [if value then '1' else '0'] = [.number numeral] := by
    have hblank : Text.isBlank (if value then '1' else '0') = false := by
      cases value <;> rfl
    have hsplit : (Token.scan (if value then '1' else '0') []).chars ++ [] =
        [if value then '1' else '0'] := by
      cases value <;> rfl
    rw [tokens_of_split hblank hsplit, hnumeral, tokens_nil]
  refine ⟨numeral.value, ?_, hconstant⟩
  rw [hrun]
  exact .atom rfl .nil

/-- Whatever way a formula is written, its text is one item, and that item spells
    the formula. -/
theorem Writes.exists_spells {formula : Formula} {text : List Char} (hwrites : Writes formula text)
    (hnames : ∀ name ∈ formula.names, IsName name.toList) :
    ∃ tree, Spells (tokens text) [tree] ∧ ofTree tree = .ok formula := by
  induction hwrites with
  | ref name =>
    have hname : IsName name.toList := hnames name List.mem_cons_self
    exact ⟨_, hname.spells, ofTree_atom (.symbol name)⟩
  | @word value chars hspell =>
    have hatom : Atom.ofToken (.word chars) = .truth value := by
      simp [Atom.ofToken, Token.chars, Atom.spelledTruth?_eq_some_iff.mpr hspell]
    refine ⟨_, ?_, ofTree_atom (.truth value)⟩
    rw [tokens_of_mem_truthWords hspell, ← hatom]
    exact .atom rfl .nil
  | digit value =>
    obtain ⟨constant, hspells, hconstant⟩ := exists_spells_digit value
    refine ⟨_, hspells, ?_⟩
    rw [ofTree_atom, Atom.formula_constant, hconstant]
  | null =>
    refine ⟨.empty, ?_, ?_⟩
    · have hrun : tokens ['(', ')'] = [.opening, .closing] := by simp
      rw [hrun]
      exact .group .nil .nil
    · rw [ofTree_eq]
      rfl
  | not hspelling _ htext ih =>
    obtain ⟨tree, hspells, htree⟩ := ih hnames
    have hitems := (isName_of_mem_aliases hspelling).spells.append hspells
    refine ⟨_, htext.spells (by simpa using hitems), ofTree_of_denoted ?_⟩
    exact .not (.not (.symbol _) hspelling tree) (denoted_of_ofTree htree)
  | binary hspelling _ _ htext ihleft ihright =>
    obtain ⟨first, hfirst, hfirstTree⟩ :=
      ihleft fun name hname => hnames name (List.mem_append_left _ hname)
    obtain ⟨second, hsecond, hsecondTree⟩ :=
      ihright fun name hname => hnames name (List.mem_append_right _ hname)
    have hitems := (isName_of_mem_aliases hspelling).spells.append (hfirst.append hsecond)
    refine ⟨_, htext.spells (by simpa using hitems), ofTree_of_denoted ?_⟩
    exact .binary (.binary (.symbol _) hspelling first second) (denoted_of_ofTree hfirstTree)
      (denoted_of_ofTree hsecondTree)
  | @set spelling name binding inner text hspelling _ htext ih =>
    obtain ⟨tree, hspells, htree⟩ :=
      ih fun name hname => hnames name (List.mem_cons_of_mem _ hname)
    have hname : IsName name.toList := hnames name List.mem_cons_self
    have hitems := (isName_of_mem_aliases hspelling).spells.append (hname.spells.append hspells)
    refine ⟨_, htext.spells (by simpa using hitems), ofTree_of_denoted ?_⟩
    exact .set (.set (.symbol _) hspelling name tree) (denoted_of_ofTree htree)
  | @letIn spelling name binding body first second text hspelling _ _ htext ihbinding ihbody =>
    obtain ⟨left, hleft, hleftTree⟩ := ihbinding fun name hname =>
      hnames name (List.mem_cons_of_mem _ (List.mem_append_left _ hname))
    obtain ⟨right, hright, hrightTree⟩ := ihbody fun name hname =>
      hnames name (List.mem_cons_of_mem _ (List.mem_append_right _ hname))
    have hname : IsName name.toList := hnames name List.mem_cons_self
    have hitems := (isName_of_mem_aliases hspelling).spells.append
      (hname.spells.append (hleft.append hright))
    refine ⟨_, htext.spells (by simpa using hitems), ofTree_of_denoted ?_⟩
    exact .letIn (.letIn (.symbol _) hspelling name left right) (denoted_of_ofTree hleftTree)
      (denoted_of_ofTree hrightTree)

/-- Parentheses around a single tree do not change its formula, and neither does
    leaving them out around an atom. -/
theorem ofTree_ungrouped (tree : Tree) : ofTree (Tree.ungrouped [tree]) = ofTree tree := by
  have hgroup : ofTree (.ofList [tree]) = ofTree tree := by
    rw [ofTree_eq]
    rfl
  cases tree with
  | atom value => rfl
  | empty => exact hgroup
  | pair head tail => exact hgroup

/-- Every formula over names can be written, and each of its texts, in a pair of
    parentheses, is read as the formula again. Its line then does what the
    formula does. -/
theorem interpretLine_of_writes (formula : Formula)
    (hnames : ∀ name ∈ formula.names, IsName name.toList) :
    (∃ text, Writes formula text) ∧
    ∀ text whole, Writes formula text → Enclosed [text] whole →
      ∃ tree, Tree.ofText whole = .ok tree ∧ ofTree tree = .ok formula ∧
        ∀ env, interpretLine whole env =
          match formula.eval env with
          | (.ok value, env) => (.ok ⟨tree, formula, value⟩, env)
          | (.error error, env) => (.error (.evaluating error), env) := by
  refine ⟨exists_writes formula, ?_⟩
  intro text whole hwrites hwhole
  obtain ⟨item, hspells, hitem⟩ := hwrites.exists_spells hnames
  have hrun : tokens whole = .opening :: (tokens text ++ [.closing]) := by
    rw [hwhole.tokens_eq]
    simp
  have hform : Form.Reads whole (Tree.ungrouped [item]) .group :=
    ⟨tokens text, [item], hrun, hspells.nested, hspells, rfl⟩
  have hread : Tree.ofText whole = .ok (Tree.ungrouped [item]) := hform.readOne_eq
  have hbuild : ofTree (Tree.ungrouped [item]) = .ok formula := by
    rw [ofTree_ungrouped, hitem]
  exact ⟨_, hread, hbuild, interpretLine_of_formula hread hbuild⟩

/-- A line that sets a name above ASCII to a negation, with blanks of two kinds. -/
theorem interpretLine_of_writes_set :
    ∃ tree, Tree.ofText "((set\tλ (! tRUE )))".toList = .ok tree ∧
      ofTree tree = .ok (.set "λ" (.not (.literal true))) := by
  have hnames : ∀ name ∈ (Formula.set "λ" (.not (.literal true))).names, IsName name.toList := by
    intro name hmem
    obtain rfl : name = "λ" := by simpa [names] using hmem
    exact ⟨tokens_of_isPlain (by decide), by decide⟩
  have htruth : Writes (.literal true) "tRUE".toList := .word (by decide)
  have hnot : Writes (.not (.literal true)) "(! tRUE )".toList := by
    refine .not (show "!" ∈ Operator.aliases .not by decide) htruth
      ⟨[], _, rfl, .cons _ (List.cons_ne_nil ' ' []) rfl (.last _ [' '] rfl), ?_⟩
    decide +kernel
  have hset : Writes (.set "λ" (.not (.literal true))) "(set\tλ (! tRUE ))".toList := by
    refine .set (show "set" ∈ Operator.aliases .set by decide) hnot
      ⟨[], _, rfl, .cons _ (List.cons_ne_nil '\t' []) rfl
        (.cons _ (List.cons_ne_nil ' ' []) rfl (.last _ [] rfl)), ?_⟩
    decide +kernel
  have hwhole : Enclosed ["(set\tλ (! tRUE ))".toList] "((set\tλ (! tRUE )))".toList := by
    refine ⟨[], _, rfl, .last _ [] rfl, ?_⟩
    decide +kernel
  obtain ⟨tree, hread, hbuild, -⟩ := (interpretLine_of_writes _ hnames).2 _ _ hset hwhole
  exact ⟨tree, hread, hbuild⟩

end Formula

end PrefixLogic
