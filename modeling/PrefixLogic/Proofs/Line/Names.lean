import PrefixLogic.Proofs.Formula.Frame
import PrefixLogic.Proofs.Line.Interpretation
import PrefixLogic.Proofs.Tree.WellFormed

namespace PrefixLogic

section Bound

theorem Tree.atoms_subset_of_mem_items {tree item : Tree} {items : List Tree}
    (hitems : tree.items = .ok items) (hmem : item ∈ items) : item.atoms ⊆ tree.atoms := by
  intro value hvalue
  rw [eq_ofList_of_items hitems, atoms_ofList]
  exact List.mem_flatMap_of_mem hmem hvalue

/-- What is read on below a tree is an item of it, and so the tree is no atom. -/
theorem Layer.Reads.exists_items {tree operand : Tree} {layer : Layer}
    (hreads : Layer.Reads tree layer) (hmem : operand ∈ layer.operands) :
    ∃ items, tree.items = .ok items ∧ operand ∈ items :=
  Tree.exists_items_of_mem_branches (hreads.branches_eq ▸ hmem)

theorem Layer.Reads.setNames_leaf {tree : Tree} {formula : Formula}
    (hreads : Layer.Reads tree (.leaf formula)) : formula.setNames = [] := by
  cases hreads with
  | empty => rfl
  | atom value =>
    cases value with
    | constant value =>
      rw [Atom.formula]
      split
      · rfl
      · split <;> rfl
    | symbol name => rfl
    | truth value => rfl

theorem Layer.Reads.holds {tree operand : Tree} {layer : Layer} {value : Atom}
    (hreads : Layer.Reads tree layer) (hmem : operand ∈ layer.operands)
    (hholds : operand.Holds value) : tree.Holds value := by
  obtain ⟨items, hitems, hoperand⟩ := hreads.exists_items hmem
  refine ⟨?_, Tree.atoms_subset_of_mem_items hitems hoperand hholds.2⟩
  cases tree with
  | atom => cases hitems
  | _ => rfl

/-- The names that a formula sets stand as symbols in lists of its tree. A symbol that
    is a tree by itself is never in the place of a variable. -/
theorem Formula.Denoted.holds {tree : Tree} {formula : Formula} {name : String}
    (hdenoted : Denoted tree formula) (hset : name ∈ formula.setNames) :
    tree.Holds (.symbol name) := by
  induction hdenoted with
  | leaf hreads =>
    rw [hreads.setNames_leaf] at hset
    cases hset
  | group hreads _ ih => exact hreads.holds (by simp [Layer.operands]) (ih hset)
  | not hreads _ ih => exact hreads.holds (by simp [Layer.operands]) (ih hset)
  | binary hreads _ _ ihleft ihright =>
    rcases List.mem_append.mp hset with hleft | hright
    · exact hreads.holds (by simp [Layer.operands]) (ihleft hleft)
    · exact hreads.holds (by simp [Layer.operands]) (ihright hright)
  | set hreads _ ih =>
    rcases List.mem_cons.mp hset with rfl | hbinding
    · cases hreads
      exact ⟨rfl, by simp [Tree.atoms_ofList, Tree.atoms]⟩
    · exact hreads.holds (by simp [Layer.operands]) (ih hbinding)
  | letIn hreads _ _ ihbinding ihbody =>
    rcases List.mem_append.mp hset with hbinding | hbody
    · exact hreads.holds (by simp [Layer.operands]) (ihbinding hbinding)
    · exact hreads.holds (by simp [Layer.operands]) (ihbody hbody)

end Bound

namespace Environment

/-- The environment that lines leave behind, one run after the other. -/
def behind (env : Environment) : List (List Char) → Environment
  | [] => env
  | line :: lines => (interpretLine line env).2.behind lines

/-- Whatever is defined is a name. -/
def Named (env : Environment) : Prop :=
  ∀ name, env.isDefined name = true → IsName name.toList

variable {env : Environment}

theorem named_empty : empty.Named :=
  nofun

/-- The formula of a text sets nothing but names, also where it fails. -/
theorem Named.eval {line : List Char} {tree : Tree} {formula : Formula} (hnamed : env.Named)
    (hread : Tree.ofText line = .ok tree) (hbuild : Formula.ofTree tree = .ok formula) :
    (formula.eval env).2.Named := by
  intro name hdefined
  -- The frame holds of the environment behind an error as well.
  rcases (formula.framed_eval env).defined name hdefined with hbefore | hset
  · exact hnamed name hbefore
  · have hholds := (Formula.denoted_of_ofTree hbuild).holds hset
    exact (Scanner.wellFormed_of_readOne hread).1.isName name hholds

theorem Named.interpretLine (hnamed : env.Named) (line : List Char) :
    (interpretLine line env).2.Named := by
  have hcourse := interpreted_interpretLine line env
  generalize PrefixLogic.interpretLine line env = result at hcourse ⊢
  cases hcourse with
  | unread => exact hnamed
  | unbuilt => exact hnamed
  | failed hread hbuild heval => exact congrArg Prod.snd heval ▸ hnamed.eval hread hbuild
  | valued hread hbuild heval => exact congrArg Prod.snd heval ▸ hnamed.eval hread hbuild

theorem Named.behind (hnamed : env.Named) (lines : List (List Char)) :
    (env.behind lines).Named := by
  induction lines generalizing env with
  | nil => exact hnamed
  | cons line lines ih => exact ih (hnamed.interpretLine line)

theorem Named.get?_eq_none (hnamed : env.Named) {name : String} (hname : ¬ IsName name.toList) :
    env.get? name = none := by
  cases hget : env.get? name with
  | none => rfl
  | some value => exact absurd (hnamed name (by rw [isDefined, hget]; rfl)) hname

end Environment

/-- However many lines are run, and whether or not they fail, every name defined behind
    them is the text of one word or operator and spells no truth value. A line that
    reads as a symbol of another text is undefined behind any lines, and changes
    nothing. -/
theorem isName_of_isDefined_behind (lines : List (List Char)) :
    (∀ name, (Environment.empty.behind lines).isDefined name = true → IsName name.toList) ∧
    ∀ line name, Tree.ofText line = .ok (.atom (.symbol name)) → ¬ IsName name.toList →
      interpretLine line (Environment.empty.behind lines) =
        (.error (.evaluating (.undefined name)), Environment.empty.behind lines) := by
  have hnamed := Environment.named_empty.behind lines
  refine ⟨hnamed, ?_⟩
  intro line name hread hname
  rw [interpretLine_of_symbol hread, hnamed.get?_eq_none hname]

/-- A line that fails, but not before it has set a name, and behind it a line that is
    one symbol of several tokens. -/
theorem isName_of_isDefined_behind_failing :
    (Environment.empty.behind ["(and (set x T) y)".toList]).isDefined "x" = true ∧
    IsName "x".toList ∧ Tree.ofText "not(p)".toList = .ok (.atom (.symbol "not(p)")) ∧
    interpretLine "not(p)".toList (Environment.empty.behind ["(and (set x T) y)".toList]) =
      (.error (.evaluating (.undefined "not(p)")),
        Environment.empty.behind ["(and (set x T) y)".toList]) := by
  let inner : List Token := [.word "set".toList, .word ['x'], .word ['T']]
  let binding : Tree := .ofList [.atom (.symbol "set"), .atom (.symbol "x"), .atom (.truth true)]
  have hspells : Spells (.word "and".toList :: .opening :: (inner ++ .closing :: [.word ['y']]))
      [.atom (.symbol "and"), binding, .atom (.symbol "y")] :=
    .atom rfl (.group (.atom rfl (.atom rfl (.atom rfl .nil))) (.atom rfl .nil))
  have hbinding : Formula.Denoted binding (.set "x" (.literal true)) :=
    .set (.set (.symbol "set") (show "set" ∈ Operator.aliases .set by decide) "x" _)
      (.leaf (.atom (.truth true)))
  have hdenoted : Formula.Denoted (.ofList [.atom (.symbol "and"), binding, .atom (.symbol "y")])
      (.binary .and (.set "x" (.literal true)) (.ref "y")) :=
    .binary (.binary (.symbol "and") (show "and" ∈ Operator.aliases (.binary .and) by decide) _ _)
      hbinding (.leaf (.atom (.symbol "y")))
  have hbehind : Environment.empty.behind ["(and (set x T) y)".toList] =
      Environment.empty.insert "x" true := by
    rw [Environment.behind, interpretLine_of_group (by decide +kernel) hspells hdenoted]
    rfl
  have hrun : tokens "not(p)".toList = [.word "not".toList, .opening, .word ['p'], .closing] := by
    decide +kernel
  have hform : Form.Reads "not(p)".toList (.atom (.symbol "not(p)")) .compound := by
    refine ⟨⟨_, _, hrun, Token.noConfusion, Token.noConfusion⟩, ⟨'(', by decide +kernel, rfl⟩,
      by decide +kernel, Text.any_isSpace_eq_false_iff.mp (by decide +kernel), by decide +kernel⟩
  have hname : ¬ IsName "not(p)".toList := by
    rw [IsName, hrun]
    decide +kernel
  obtain ⟨hdefined, hundefined⟩ := isName_of_isDefined_behind ["(and (set x T) y)".toList]
  have hx : (Environment.empty.behind ["(and (set x T) y)".toList]).isDefined "x" = true := by
    rw [hbehind]
    decide +kernel
  exact ⟨hx, hdefined "x" hx, hform.readOne_eq, hundefined _ _ hform.readOne_eq hname⟩

end PrefixLogic
