import PrefixLogic.Proofs.Formula.FirstFault
import PrefixLogic.Proofs.Token.Name
import PrefixLogic.Proofs.Tree.Expression

namespace PrefixLogic

open Scanner

namespace Tree

/-- Whether every chain of pairs in a tree ends in the empty list, at any depth. -/
def isProperThroughout : Tree → Bool
  | .atom _ => true
  | .empty => true
  | .pair head tail => head.isProperThroughout && tail.isProper && tail.isProperThroughout

/-- The atoms of a tree in the order in which they stand in it. -/
def atoms : Tree → List Atom
  | .atom value => [value]
  | .empty => []
  | .pair head tail => head.atoms ++ tail.atoms

/-- Whether an atom stands inside a list of a tree, at any depth. -/
def Holds (tree : Tree) (value : Atom) : Prop :=
  tree.isAtom = false ∧ value ∈ tree.atoms

/-- A tree that consists of lists down to its atoms, and in whose lists every symbol
    is a name. A tree that is a single symbol may have any spelling. -/
structure WellFormed (tree : Tree) : Prop where
  proper : tree.isProperThroughout = true
  isName : ∀ name, tree.Holds (.symbol name) → IsName name.toList

theorem ofList_cons (item : Tree) (items : List Tree) :
    ofList (item :: items) = .pair item (ofList items) :=
  rfl

theorem isProper_ofList (items : List Tree) : (ofList items).isProper = true := by
  induction items with
  | nil => rfl
  | cons item items ih => rw [ofList_cons, isProper, ih]

theorem isProperThroughout_ofList_iff {items : List Tree} :
    (ofList items).isProperThroughout = true ↔
      ∀ item ∈ items, item.isProperThroughout = true := by
  induction items with
  | nil => simp [ofList, isProperThroughout]
  | cons item items ih =>
    rw [ofList_cons, isProperThroughout, Bool.and_eq_true, Bool.and_eq_true, ih,
      List.forall_mem_cons]
    simp [isProper_ofList]

theorem atoms_ofList (items : List Tree) : (ofList items).atoms = items.flatMap atoms := by
  induction items with
  | nil => rfl
  | cons item items ih => rw [ofList_cons, atoms, ih, List.flatMap_cons]

theorem wellFormed_atom (value : Atom) : (atom value).WellFormed :=
  ⟨rfl, fun _ hholds => nomatch hholds.1⟩

theorem wellFormed_empty : empty.WellFormed :=
  ⟨rfl, fun _ hholds => nomatch hholds.2⟩

/-- An atom without its parentheses is well-formed whatever it is. -/
theorem WellFormed.ungrouped {items : List Tree} (hitems : (ofList items).WellFormed) :
    (ungrouped items).WellFormed := by
  rw [Tree.ungrouped.eq_def]
  split
  · exact wellFormed_atom _
  · exact hitems

theorem atoms_ungrouped (items : List Tree) : (ungrouped items).atoms = (ofList items).atoms := by
  rw [ungrouped.eq_def]
  split <;> rfl

theorem ungrouped_ne_single (items : List Tree) (value : Atom) :
    ungrouped items ≠ ofList [.atom value] := by
  rw [ungrouped.eq_def]
  split
  · exact Tree.noConfusion
  · rename_i hsingle
    intro hitems
    cases items with
    | nil => cases hitems
    | cons item rest =>
      cases rest with
      | nil => cases hitems; exact hsingle value rfl
      | cons second rest => cases hitems

end Tree

section Spelled

variable {run : List Token} {items : List Tree}

/-- The atoms of the items that tokens spell are those of the tokens themselves, less
    the parentheses and in the same order. -/
theorem Spells.atoms_eq (hspells : Spells run items) :
    (Tree.ofList items).atoms = (run.filter Token.isItem).map Atom.ofToken := by
  induction hspells with
  | nil => rfl
  | atom hitem _ ih =>
    rw [Tree.ofList_cons, Tree.atoms, Tree.atoms, ih, List.filter_cons_of_pos hitem,
      List.map_cons, List.singleton_append]
  | group _ _ ihinner ihrest =>
    have hopening : ¬ Token.isItem .opening = true := Bool.false_ne_true
    have hclosing : ¬ Token.isItem .closing = true := Bool.false_ne_true
    rw [Tree.ofList_cons, Tree.atoms, ihinner, ihrest, List.filter_cons_of_neg hopening,
      List.filter_append, List.filter_cons_of_neg hclosing, List.map_append]

theorem Spells.isProperThroughout (hspells : Spells run items) :
    (Tree.ofList items).isProperThroughout = true := by
  induction hspells with
  | nil => rfl
  | atom _ _ ih =>
    rw [Tree.ofList_cons, Tree.isProperThroughout, Tree.isProper_ofList, ih]
    rfl
  | group _ _ ihinner ihrest =>
    rw [Tree.ofList_cons, Tree.isProperThroughout, Tree.isProper_ofList, ihinner, ihrest]
    rfl

theorem Spells.wellFormed {text : List Char} (hspells : Spells run items)
    (hrun : run ⊆ tokens text) : (Tree.ofList items).WellFormed where
  proper := hspells.isProperThroughout
  isName := by
    rintro name ⟨-, hmem⟩
    rw [hspells.atoms_eq] at hmem
    obtain ⟨token, htoken, hatom⟩ := List.mem_map.mp hmem
    obtain ⟨hmem, hitem⟩ := List.mem_filter.mp htoken
    exact isName_of_mem_tokens (hrun hmem) hitem hatom

end Spelled

namespace Scanner

variable {scanner : Scanner} {tree : Tree}

theorem pendingTokens_subset (scanner : Scanner) :
    scanner.pendingTokens ⊆ tokens scanner.source :=
  List.map_subset Lexeme.token scanner.suffix.subset

/-- Whatever is read as items is spelled by the tokens that were left. -/
theorem spells_of_readItems {items : List Tree} (hread : scanner.readItems.1 = .ok items) :
    Spells scanner.pendingTokens items := by
  by_cases hnested : Nested .opening .closing scanner.pendingTokens
  · obtain ⟨spelled, hspells⟩ := exists_spells_of_nested _ hnested
    rw [readItems_of_spells hspells scanner rfl] at hread
    cases hread
    exact hspells
  · rw [readItems_of_not_nested scanner hnested] at hread
    cases hread

theorem wellFormed_of_readList (hread : scanner.readList.1 = .ok tree) : tree.WellFormed := by
  obtain ⟨items, hitems, rfl⟩ := map_eq_ok_iff.mp hread
  exact (spells_of_readItems hitems).wellFormed scanner.pendingTokens_subset

/-- What is read as one expression is nothing, an atom, or the text of a group. -/
theorem readExpression_eq_ok (hread : scanner.readExpression.1 = .ok tree) :
    tree = .empty ∨ (∃ value, tree = .atom value) ∨
      ∃ group items, Spells (tokens group) items ∧ tree = Tree.ungrouped items := by
  rw [readExpression] at hread
  split at hread
  · cases hread
    exact .inl rfl
  split at hread
  · cases hread
  split at hread
  · cases hread
  split at hread
  · cases hread
    exact .inl rfl
  split at hread
  · split at hread
    · cases hread
    · rename_i group behind _
      obtain ⟨items, hitems, rfl⟩ := map_eq_ok_iff.mp hread
      exact .inr (.inr ⟨group, items, spells_of_readItems hitems, rfl⟩)
  · cases hread
  · split at hread <;> cases hread <;> exact .inr (.inl ⟨_, rfl⟩)

theorem wellFormed_of_readExpression (hread : scanner.readExpression.1 = .ok tree) :
    tree.WellFormed ∧ ∀ value, tree ≠ .ofList [.atom value] := by
  rcases readExpression_eq_ok hread with rfl | ⟨value, rfl⟩ | ⟨group, items, hspells, rfl⟩
  · exact ⟨Tree.wellFormed_empty, fun _ => Tree.noConfusion⟩
  · exact ⟨Tree.wellFormed_atom value, fun _ => Tree.noConfusion⟩
  · exact ⟨(hspells.wellFormed fun _ => id).ungrouped, Tree.ungrouped_ne_single items⟩

/-- Refusing what is left behind a result does not change the result. -/
theorem eq_ok_of_rejectTrailing {α : Type} {reading : Reading α} {value : α}
    (hread : (rejectTrailing reading).1 = .ok value) : reading.1 = .ok value := by
  obtain ⟨result, last⟩ := reading
  cases result with
  | error error => cases hread
  | ok found =>
    rw [rejectTrailing_ok] at hread
    obtain ⟨-, rfl⟩ := settle_eq_ok hread
    rfl

theorem wellFormed_of_readOne (hread : scanner.readOne.1 = .ok tree) :
    tree.WellFormed ∧ ∀ value, tree ≠ .ofList [.atom value] :=
  wellFormed_of_readExpression (eq_ok_of_rejectTrailing hread)

end Scanner

section Improper

namespace Tree

theorem isProper_chain_atom (elements : List Tree) (value : Atom) :
    (chain elements (.atom value)).isProper = false := by
  induction elements with
  | nil => rfl
  | cons first rest ih => rw [chain, List.foldr_cons, ← chain, isProper, ih]

theorem isProperThroughout_chain_atom {elements : List Tree} (hne : elements ≠ [])
    (value : Atom) : (chain elements (.atom value)).isProperThroughout = false := by
  cases elements with
  | nil => exact absurd rfl hne
  | cons first rest =>
    rw [chain, List.foldr_cons, ← chain, isProperThroughout, isProper_chain_atom]
    simp

theorem isProperThroughout_of_mem_items {tree item : Tree} {items : List Tree}
    (hproper : tree.isProperThroughout = true) (hitems : tree.items = .ok items)
    (hmem : item ∈ items) : item.isProperThroughout = true := by
  rw [eq_ofList_of_items hitems] at hproper
  exact isProperThroughout_ofList_iff.mp hproper item hmem

/-- Whatever a walk through a proper tree comes to is proper. -/
theorem isProperThroughout_of_mem_walk {tree node : Tree}
    (hproper : tree.isProperThroughout = true) (hmem : node ∈ tree.walk) :
    node.isProperThroughout = true := by
  -- What is visited below a tree is an item of it, so the induction is on the size.
  induction hsize : sizeOf tree using Nat.strongRecOn generalizing tree with
  | ind size ih =>
    rw [walk_eq] at hmem
    rcases List.mem_cons.mp hmem with rfl | hbelow
    · exact hproper
    · obtain ⟨branch, hbranch, hnode⟩ := List.mem_flatMap.mp hbelow
      obtain ⟨items, hitems, hitem⟩ := exists_items_of_mem_branches hbranch
      have hsmaller := sizeOf_lt_of_mem_items hitems hitem
      exact ih (sizeOf branch) (by omega)
        (isProperThroughout_of_mem_items hproper hitems hitem) hnode rfl

end Tree

/-- A tree in which no list is found where one is needed holds a chain that ends in
    an atom: it is one itself, or its head is one. -/
theorem Fault.isProperThroughout {tree : Tree} {kind : String}
    (hfault : Fault tree (.notAList kind)) : tree.isProperThroughout = false := by
  cases hfault with
  | improper hne value => exact Tree.isProperThroughout_chain_atom hne value
  | @head head terms _ hne hhead =>
    cases hhead with
    | improper hne value =>
      rw [← Bool.not_eq_true, Tree.isProperThroughout_ofList_iff]
      intro hall
      have hproper := hall _ List.mem_cons_self
      rw [Tree.isProperThroughout_chain_atom hne value] at hproper
      cases hproper

theorem Formula.ofTree_ne_notAList {tree : Tree} (hproper : tree.isProperThroughout = true)
    (kind : String) : ofTree tree ≠ .error (.notAList kind) := by
  intro herror
  obtain ⟨node, hmem, hfault⟩ := (ofTree_eq_error_iff_firstError.mp herror).exists_wrong
  have hnode := Tree.isProperThroughout_of_mem_walk hproper hmem
  rw [hfault.isProperThroughout] at hnode
  cases hnode

end Improper

end PrefixLogic
