import PrefixLogic.Proofs.Nesting
import PrefixLogic.Proofs.Token.Locality
import PrefixLogic.Tree.Basic

namespace PrefixLogic

/-- The items that tokens spell. A token that is no parenthesis spells its atom,
    and a pair of parentheses the list of what stands between the two. -/
inductive Spells : List Token → List Tree → Prop where
  | nil : Spells [] []
  | atom {token : Token} {rest : List Token} {items : List Tree}
      (hitem : token.isItem = true) (hrest : Spells rest items) :
      Spells (token :: rest) (.atom (.ofToken token) :: items)
  | group {inner rest : List Token} {innerItems items : List Tree}
      (hinner : Spells inner innerItems) (hrest : Spells rest items) :
      Spells (.opening :: (inner ++ .closing :: rest)) (.ofList innerItems :: items)

namespace Tree

/-- Reads tokens in one pass over them. `items` are those of the innermost list
    that is open, the latest first, and `around` those of the lists around it. -/
def readTokens (items : List Tree) (around : List (List Tree)) :
    List Token → Except SyntaxError (List Tree)
  | [] => if around = [] then .ok items.reverse else .error .unbalanced
  | .opening :: rest => readTokens [] (items :: around) rest
  | .closing :: rest =>
    match around with
    | [] => .error .unbalanced
    | enclosing :: around => readTokens (ofList items.reverse :: enclosing) around rest
  | token :: rest => readTokens (.atom (.ofToken token) :: items) around rest

/-- The list that tokens spell, read in one pass. -/
def ofTokens (tokens : List Token) : Except SyntaxError Tree :=
  (readTokens [] [] tokens).map ofList

theorem readTokens_item {token : Token} (hitem : token.isItem = true) (items : List Tree)
    (around : List (List Tree)) (rest : List Token) :
    readTokens items around (token :: rest) =
      readTokens (.atom (.ofToken token) :: items) around rest := by
  cases token with
  | opening => cases hitem
  | closing => cases hitem
  | _ => rfl

end Tree

theorem Spells.nested {run : List Token} {items : List Tree} (hspells : Spells run items) :
    Nested .opening .closing run := by
  induction hspells with
  | nil => exact closes_zero_iff_nested.mp (closes_nil_iff.mpr rfl)
  | atom hitem _ ih =>
    rw [← closes_zero_iff_nested] at ih ⊢
    exact (closes_other_iff (Token.ne_opening_of_isItem hitem)
      (Token.ne_closing_of_isItem hitem)).mpr ih
  | group _ _ ihinner ihrest => exact (nested_group_iff Token.opening_ne_closing ihinner).mpr ihrest

/-- Where as many parentheses close as open, one that comes first is closed. -/
theorem exists_group_of_count {run : List Token}
    (hcount : (Token.opening :: run).count .opening = (Token.opening :: run).count .closing) :
    ∃ inner rest, run = inner ++ .closing :: rest ∧ Nested .opening .closing inner := by
  rw [List.count_cons_self, List.count_cons_of_ne Token.opening_ne_closing] at hcount
  obtain ⟨inner, rest, rfl, hinner⟩ :=
    exists_split_of_count_lt Token.opening_ne_closing 0 run (by omega)
  exact ⟨inner, rest, rfl, closes_zero_iff_nested.mp hinner⟩

/-- A properly nested run that starts with a parenthesis is a group and a rest. -/
theorem Nested.exists_group {run : List Token}
    (hnested : Nested .opening .closing (Token.opening :: run)) :
    ∃ inner rest, run = inner ++ .closing :: rest ∧ Nested .opening .closing inner ∧
      Nested .opening .closing rest := by
  obtain ⟨inner, rest, rfl, hinner⟩ := exists_group_of_count hnested.total
  exact ⟨inner, rest, rfl, hinner, (nested_group_iff Token.opening_ne_closing hinner).mp hnested⟩

/-- Whatever is properly nested spells something. -/
theorem exists_spells_of_nested (run : List Token) (hnested : Nested .opening .closing run) :
    ∃ items, Spells run items := by
  -- The group behind a first parenthesis is no tail of the run, only shorter.
  induction hlength : run.length using Nat.strongRecOn generalizing run with
  | ind n ih =>
    cases run with
    | nil => exact ⟨[], .nil⟩
    | cons token rest =>
      by_cases hopening : token = .opening
      · subst hopening
        obtain ⟨inner, rest, rfl, hinner, hrest⟩ := hnested.exists_group
        simp only [List.length_cons, List.length_append] at hlength
        obtain ⟨innerItems, hinnerItems⟩ := ih inner.length (by omega) inner hinner rfl
        obtain ⟨items, hitems⟩ := ih rest.length (by omega) rest hrest rfl
        exact ⟨_, .group hinnerItems hitems⟩
      · have hclosed := closes_zero_iff_nested.mpr hnested
        have hclosing : token ≠ .closing := by
          rintro rfl
          exact not_closes_closing Token.opening_ne_closing hclosed
        have hrest := closes_zero_iff_nested.mp ((closes_other_iff hopening hclosing).mp hclosed)
        obtain ⟨items, hitems⟩ := ih rest.length (by simp [← hlength]) rest hrest rfl
        exact ⟨_, .atom (by simp [Token.isItem, hopening, hclosing]) hitems⟩

/-- Reading adds the items that the next tokens spell to those read before. -/
theorem Spells.readTokens_append {run : List Token} {items : List Tree}
    (hspells : Spells run items) (before : List Tree) (around : List (List Tree))
    (rest : List Token) :
    Tree.readTokens before around (run ++ rest) =
      Tree.readTokens (items.reverse ++ before) around rest := by
  induction hspells generalizing before around rest with
  | nil => rfl
  | atom hitem _ ih =>
    rw [List.cons_append, Tree.readTokens_item hitem, ih]
    simp
  | group _ _ ihinner ihrest =>
    rw [List.cons_append, Tree.readTokens, List.append_assoc, ihinner, List.cons_append,
      Tree.readTokens, ihrest]
    simp

theorem Spells.ofTokens_eq {run : List Token} {items : List Tree} (hspells : Spells run items) :
    Tree.ofTokens run = .ok (Tree.ofList items) := by
  have hread := hspells.readTokens_append [] [] []
  rw [List.append_nil, List.append_nil] at hread
  rw [Tree.ofTokens, hread, Tree.readTokens, if_pos rfl, List.reverse_reverse]
  rfl

/-- A run that does not close the lists that are open cannot be read. -/
theorem Tree.readTokens_of_not_closes (items : List Tree) (around : List (List Tree))
    (run : List Token) (hclosed : ¬ Closes .opening .closing around.length run) :
    readTokens items around run = .error .unbalanced := by
  induction run generalizing items around with
  | nil =>
    rw [closes_nil_iff] at hclosed
    rw [readTokens, if_neg fun h => hclosed (by rw [h, List.length_nil])]
  | cons token rest ih =>
    by_cases hopening : token = .opening
    · subst hopening
      rw [closes_opening_iff Token.opening_ne_closing] at hclosed
      exact ih [] (items :: around) hclosed
    · by_cases hclosing : token = .closing
      · subst hclosing
        cases around with
        | nil => rfl
        | cons enclosing around =>
          rw [List.length_cons, closes_closing_iff Token.opening_ne_closing] at hclosed
          exact ih _ around hclosed
      · rw [closes_other_iff hopening hclosing] at hclosed
        rw [readTokens_item (by simp [Token.isItem, hopening, hclosing])]
        exact ih _ around hclosed

theorem Tree.ofTokens_of_not_nested {run : List Token} (hnested : ¬ Nested .opening .closing run) :
    ofTokens run = .error .unbalanced := by
  rw [← closes_zero_iff_nested] at hnested
  rw [ofTokens, readTokens_of_not_closes [] [] run hnested]
  rfl

end PrefixLogic
