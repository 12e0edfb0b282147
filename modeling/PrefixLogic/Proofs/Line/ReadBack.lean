import PrefixLogic.Proofs.Formula.Sequence
import PrefixLogic.Proofs.Line.Interpretation
import PrefixLogic.Proofs.Token.Space
import PrefixLogic.Proofs.Tree.Refusal

namespace PrefixLogic

open Scanner

/-- Whether a text consists of several underscores and nothing else. -/
def isUnderscores (chars : List Char) : Bool :=
  1 < chars.length && chars.all (· == '_')

section Word

theorem isWordChar_of_tokens_eq {chars : List Char} (hword : tokens chars = [.word chars]) :
    ∀ c ∈ chars, Token.isWordChar c = true := by
  have hlexed := lexed_of_mem_tokens (hword ▸ List.mem_singleton_self _)
  cases hlexed with
  | word _ hall => exact hall

/-- The shape of a buffer is judged by its letters and digits. To that check a word of
    several underscores looks like a run of operator glyphs. -/
theorem isUnderscores_iff {chars : List Char} (hchars : ∀ c ∈ chars, Token.isWordChar c = true) :
    isUnderscores chars = true ↔
      1 < chars.length ∧ ∀ c ∈ chars, Text.isAlphanumeric c = false := by
  rw [isUnderscores, Bool.and_eq_true, decide_eq_true_eq, List.all_eq_true]
  refine and_congr_right fun _ => forall_congr' fun c => imp_congr_right fun hc => ?_
  rw [isAlphanumeric_eq_false_iff (hchars c hc), beq_iff_eq]

variable {name : String}

/-- A line of one word is the symbol of that name. Only where the word is made of
    several underscores, it is taken for a run of glyphs and refused. -/
theorem ofText_word (hword : tokens name.toList = [.word name.toList])
    (htruth : ∀ value, name.toList.map Char.toLower ∉ truthWords value) :
    Tree.ofText name.toList =
      if isUnderscores name.toList then .error (.malformed name)
      else .ok (.atom (.symbol name)) := by
  have hchars := isWordChar_of_tokens_eq hword
  have hspace : ∀ c ∈ name.toList, Text.isSpace c = false := by
    intro c hc
    exact Token.isSpace_of_isWordChar (hchars c hc)
  have hbuffer : (ofText name.toList).remaining = name.toList := remaining_ofText_eq_self hspace
  have hne : name.toList ≠ [] := by
    intro hnil
    rw [hnil, tokens_nil] at hword
    cases hword
  have hparen : ∀ c ∈ name.toList, Token.isParenthesis c = false := by
    rw [← forall_isParenthesis_remaining_iff_source, forall_isParenthesis_remaining_iff, hword]
    simp [Token.isItem]
  have hglyphs := isUnderscores_iff hchars
  split
  · rename_i hrun
    have hrefused : Refused name.toList (.malformed (String.ofList (ofText name.toList).remaining)) :=
      .malformed (by rwa [hbuffer]) hparen (.inr (by rwa [hbuffer, ← hglyphs]))
    rw [hbuffer, String.ofList_toList] at hrefused
    exact hrefused.readOne_eq
  · rename_i hrun
    have hatom := Atom.ofToken_word htruth
    have hform : Form.Reads name.toList (.atom (.symbol name)) .piece := by
      rw [Form.Reads, hbuffer, ← hglyphs]
      exact ⟨hne, hparen, hspace, hrun, .inl ⟨_, hword, congrArg Tree.atom hatom.symm⟩⟩
    exact hform.readOne_eq

end Word

section Set

/-- An item that comes first in a group is the first of the group's list. -/
theorem Spells.exists_of_item {token : Token} {run inner : List Token} {items : List Tree}
    (hspells : Spells inner items) (hrun : token :: run = inner ++ [.closing])
    (hitem : token.isItem = true) :
    ∃ rest terms, items = .atom (.ofToken token) :: terms ∧ Spells rest terms ∧
      run = rest ++ [.closing] := by
  rcases List.cons_eq_append_iff.mp hrun with ⟨-, hclosing⟩ | ⟨rest, rfl, hrest⟩
  · cases hclosing
    cases hitem
  · cases hspells with
    | atom _ hterms => exact ⟨rest, _, rfl, hterms, hrest⟩
    | group => cases hitem

/-- A line that starts with a parenthesis and is read is a group. -/
theorem exists_spells_of_ofText {line : List Char} {tree : Tree} {run : List Token}
    (hrun : tokens line = .opening :: run) (hread : Tree.ofText line = .ok tree) :
    ∃ inner items, run = inner ++ [.closing] ∧ Spells inner items ∧ tree = Tree.ungrouped items := by
  obtain ⟨form, hform⟩ := Form.exists_reads_of_readOne hread
  have hgroup := hform.eq_ofRun
  rw [hrun, Form.ofRun] at hgroup
  subst hgroup
  obtain ⟨inner, items, hline, -, hspells, htree⟩ := hform
  rw [hrun] at hline
  exact ⟨inner, items, (List.cons.inj hline).2, hspells, htree⟩

/-- A list that starts with `set` and a name has one term more. -/
theorem Layer.exists_set_of_ofTree {name : String} {items : List Tree} {layer : Layer}
    (hlayer : ofTree (.ofList (.atom (.symbol "set") :: .atom (.symbol name) :: items)) =
      .ok layer) : ∃ binding, layer = .set name binding := by
  have hset : Operator.ofName? "set" = some .set :=
    Operator.ofName?_of_mem_aliases (show "set" ∈ Operator.aliases .set by decide)
  rw [ofTree_of_spellsName (.symbol "set") (List.cons_ne_nil _ items), ofTerms, hset] at hlayer
  split at hlayer
  · cases hlayer
  · cases items with
    | nil => cases hlayer
    | cons binding rest =>
      cases rest with
      | nil =>
        cases hlayer
        exact ⟨binding, rfl⟩
      | cons => cases hlayer

theorem Formula.exists_set_of_ofTree {name : String} {items : List Tree} {formula : Formula}
    (hbuild : ofTree (.ofList (.atom (.symbol "set") :: .atom (.symbol name) :: items)) =
      .ok formula) : ∃ binding, formula = .set name binding := by
  rw [ofTree_eq] at hbuild
  cases hlayer : Layer.ofTree (.ofList (.atom (.symbol "set") :: .atom (.symbol name) :: items)) with
  | error error =>
    rw [hlayer] at hbuild
    cases hbuild
  | ok layer =>
    obtain ⟨term, rfl⟩ := Layer.exists_set_of_ofTree hlayer
    rw [hlayer] at hbuild
    obtain ⟨binding, -, rfl⟩ := map_eq_ok_iff.mp hbuild
    exact ⟨binding, rfl⟩

theorem Formula.get?_of_eval_set {name : String} {binding : Formula} {env after : Environment}
    {value : Bool} (heval : (set name binding).eval env = (.ok value, after)) :
    after.get? name = some value := by
  rw [eval_set] at heval
  obtain ⟨first, between, hbinding, -⟩ := Evaluation.andThen_eq_ok (congrArg Prod.fst heval)
  rw [hbinding] at heval
  cases heval
  rw [Environment.get?_insert, if_pos rfl]

/-- Behind a line that sets a name with a value, the name has that value. -/
theorem get?_of_set_line {name : String} {line : List Char} {rest : List Token}
    {env after : Environment} {interpretation : Interpretation}
    (htruth : ∀ value, name.toList.map Char.toLower ∉ truthWords value)
    (hline : tokens line = .opening :: .word "set".toList :: .word name.toList :: rest)
    (hset : interpretLine line env = (.ok interpretation, after)) :
    after.get? name = some interpretation.value := by
  have hcourse := interpreted_interpretLine line env
  rw [hset] at hcourse
  cases hcourse with
  | valued hread hbuild heval =>
    obtain ⟨inner, items, hinner, hspells, rfl⟩ := exists_spells_of_ofText hline hread
    -- As items of a list the two words are read one by one, whatever their characters.
    obtain ⟨_, terms, rfl, hterms, hrest⟩ := hspells.exists_of_item hinner rfl
    obtain ⟨_, others, rfl, -, -⟩ := hterms.exists_of_item hrest rfl
    have hoperator : Atom.ofToken (.word "set".toList) = .symbol "set" :=
      Atom.ofToken_word (by decide)
    rw [hoperator, Atom.ofToken_word htruth] at hbuild
    obtain ⟨binding, rfl⟩ := Formula.exists_set_of_ofTree hbuild
    exact Formula.get?_of_eval_set heval

/-- A line that sets a name to a truth value. -/
theorem interpretLine_set_truth {name : String} {line : List Char}
    (htruth : ∀ value, name.toList.map Char.toLower ∉ truthWords value)
    (hline : tokens line =
      .opening :: ([.word "set".toList, .word name.toList, .word ['T']] ++ [.closing]))
    (env : Environment) :
    ∃ tree, interpretLine line env =
      (.ok ⟨tree, .set name (.literal true), true⟩, env.insert name true) := by
  have hspells : Spells [.word "set".toList, .word name.toList, .word ['T']]
      [.atom (.symbol "set"), .atom (.symbol name), .atom (.truth true)] := by
    rw [← Atom.ofToken_word htruth]
    exact .atom rfl (.atom rfl (.atom rfl .nil))
  have hdenoted : Formula.Denoted
      (.ofList [.atom (.symbol "set"), .atom (.symbol name), .atom (.truth true)])
      (.set name (.literal true)) :=
    .set (.set (.symbol "set") (show "set" ∈ Operator.aliases .set by decide) name _)
      (.leaf (.atom (.truth true)))
  exact ⟨_, interpretLine_of_group hline hspells hdenoted env⟩

end Set

/-- A name that one line sets is read back by the next, with its value and without a
    change, unless it is made of several underscores. Such a name is a word and can be
    set, but a line of it is refused. The first line may be spaced in any way and bind
    the name to any expression. -/
theorem interpretLine_of_set_line {name : String} {line : List Char} {rest : List Token}
    {env after : Environment} {interpretation : Interpretation}
    (hword : tokens name.toList = [.word name.toList])
    (htruth : ∀ value, name.toList.map Char.toLower ∉ truthWords value)
    (hline : tokens line = .opening :: .word "set".toList :: .word name.toList :: rest)
    (hset : interpretLine line env = (.ok interpretation, after)) :
    interpretLine name.toList after =
      if isUnderscores name.toList then (.error (.reading (.malformed name)), after)
      else (.ok ⟨.atom (.symbol name), .ref name, interpretation.value⟩, after) := by
  have hread := ofText_word hword htruth
  split
  · rename_i hrun
    rw [if_pos hrun] at hread
    rw [interpretLine, hread]
  · rename_i hrun
    rw [if_neg hrun] at hread
    rw [interpretLine_of_symbol hread, get?_of_set_line htruth hline hset]

/-- A name without letters is read back as long as it has a digit. -/
theorem interpretLine_of_set_line_digit :
    ∃ tree, interpretLine "(set _1 T)".toList .empty =
      (.ok ⟨tree, .set "_1" (.literal true), true⟩, Environment.empty.insert "_1" true) ∧
    interpretLine "_1".toList (Environment.empty.insert "_1" true) =
      (.ok ⟨.atom (.symbol "_1"), .ref "_1", true⟩, Environment.empty.insert "_1" true) := by
  have htruth : ∀ value, "_1".toList.map Char.toLower ∉ truthWords value := by decide
  have hline : tokens "(set _1 T)".toList =
      .opening :: .word "set".toList :: .word "_1".toList :: [.word ['T'], .closing] := by
    decide +kernel
  obtain ⟨tree, hset⟩ := interpretLine_set_truth htruth hline .empty
  have hback := interpretLine_of_set_line (by decide +kernel) htruth hline hset
  rw [if_neg (by decide)] at hback
  exact ⟨tree, hset, hback⟩

/-- A name of two underscores is a word and can be set, but not read back. -/
theorem interpretLine_two_underscores :
    tokens "__".toList = [.word "__".toList] ∧
    (∀ value, "__".toList.map Char.toLower ∉ truthWords value) ∧
    ∃ tree, interpretLine "(set __ T)".toList .empty =
      (.ok ⟨tree, .set "__" (.literal true), true⟩, Environment.empty.insert "__" true) ∧
    interpretLine "__".toList (Environment.empty.insert "__" true) =
      (.error (.reading (.malformed "__")), Environment.empty.insert "__" true) := by
  have hword : tokens "__".toList = [.word "__".toList] := by decide +kernel
  have htruth : ∀ value, "__".toList.map Char.toLower ∉ truthWords value := by decide
  have hline : tokens "(set __ T)".toList =
      .opening :: .word "set".toList :: .word "__".toList :: [.word ['T'], .closing] := by
    decide +kernel
  obtain ⟨tree, hset⟩ := interpretLine_set_truth htruth hline .empty
  have hread := ofText_word hword htruth
  rw [if_pos (by decide)] at hread
  refine ⟨hword, htruth, tree, hset, ?_⟩
  rw [interpretLine, hread]

end PrefixLogic
