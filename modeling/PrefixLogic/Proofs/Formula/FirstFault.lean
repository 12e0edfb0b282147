import PrefixLogic.Proofs.Formula.Fault

namespace PrefixLogic

section FirstError

variable {α β : Type} {wrong wrong' : α → SyntaxError → Prop} {error : SyntaxError}

/-- The error of the first of some things with which something is wrong. -/
def FirstError (wrong : α → SyntaxError → Prop) : List α → SyntaxError → Prop
  | [], _ => False
  | first :: rest, error =>
    wrong first error ∨ (∀ other, ¬ wrong first other) ∧ FirstError wrong rest error

theorem FirstError.exists_wrong {things : List α} (hfirst : FirstError wrong things error) :
    ∃ thing ∈ things, wrong thing error := by
  induction things with
  | nil => exact hfirst.elim
  | cons first rest ih =>
    rcases hfirst with hwrong | ⟨-, hrest⟩
    · exact ⟨first, List.mem_cons_self, hwrong⟩
    · obtain ⟨thing, hmem, hwrong⟩ := ih hrest
      exact ⟨thing, List.mem_cons_of_mem first hmem, hwrong⟩

theorem exists_firstError_iff {things : List α} :
    (∃ error, FirstError wrong things error) ↔ ∃ thing ∈ things, ∃ error, wrong thing error := by
  induction things with
  | nil => simp [FirstError]
  | cons first rest ih =>
    by_cases hfirst : ∃ error, wrong first error
    · obtain ⟨error, herror⟩ := hfirst
      exact ⟨fun _ => ⟨first, List.mem_cons_self, error, herror⟩, fun _ => ⟨error, .inl herror⟩⟩
    · simp only [not_exists] at hfirst
      simp [FirstError, hfirst, ih]

theorem firstError_congr {things : List α}
    (hsame : ∀ thing ∈ things, ∀ error, wrong thing error ↔ wrong' thing error) :
    FirstError wrong things error ↔ FirstError wrong' things error := by
  induction things with
  | nil => rfl
  | cons first rest ih =>
    rw [List.forall_mem_cons] at hsame
    simp only [FirstError, hsame.1, ih hsame.2]

theorem firstError_append_iff {front back : List α} :
    FirstError wrong (front ++ back) error ↔
      FirstError wrong front error ∨
        (∀ thing ∈ front, ∀ other, ¬ wrong thing other) ∧ FirstError wrong back error := by
  induction front with
  | nil => simp [FirstError]
  | cons first rest ih =>
    simp only [List.cons_append, FirstError, ih, List.forall_mem_cons]
    grind

/-- Looking through the parts of some things, one after the other, is looking for
    the first of them that has a wrong part. -/
theorem firstError_flatMap_iff {things : List β} {parts : β → List α} :
    FirstError wrong (things.flatMap parts) error ↔
      FirstError (fun thing => FirstError wrong (parts thing)) things error := by
  induction things with
  | nil => rfl
  | cons first rest ih =>
    have hnone : (∀ part ∈ parts first, ∀ other, ¬ wrong part other) ↔
        ∀ other, ¬ FirstError wrong (parts first) other := by
      rw [← not_exists, exists_firstError_iff]
      simp
    rw [List.flatMap_cons, firstError_append_iff, ih, hnone]
    rfl

end FirstError

namespace Tree

/-- Whether a head spells an operator that binds a name. -/
def namesBinder (head : Tree) : Bool :=
  match operatorName head with
  | .ok name => (Operator.ofName? name).any Operator.binds
  | .error _ => false

/-- The trees that are visited below a tree: what stands alone in a list, and
    behind a head the terms, less the name that is to be bound. -/
def branches (tree : Tree) : List Tree :=
  match tree.items with
  | .ok [element] => [element]
  | .ok (head :: first :: rest) => if head.namesBinder then rest else first :: rest
  | _ => []

theorem branches_applied (head first : Tree) (rest : List Tree) :
    (ofList (head :: first :: rest)).branches =
      if head.namesBinder then rest else first :: rest := by
  rw [branches, items_ofList]

theorem exists_items_of_mem_branches {tree branch : Tree} (hmem : branch ∈ tree.branches) :
    ∃ trees, tree.items = .ok trees ∧ branch ∈ trees := by
  rw [branches] at hmem
  split at hmem
  · rename_i hitems
    exact ⟨_, hitems, hmem⟩
  · rename_i head first rest hitems
    refine ⟨_, hitems, List.mem_cons_of_mem head ?_⟩
    split at hmem
    · exact List.mem_cons_of_mem first hmem
    · exact hmem
  · cases hmem

theorem sizeOf_lt_of_mem_branches {tree branch : Tree} (hmem : branch ∈ tree.branches) :
    sizeOf branch < sizeOf tree := by
  obtain ⟨trees, hitems, hbranch⟩ := exists_items_of_mem_branches hmem
  exact sizeOf_lt_of_mem_items hitems hbranch

/-- The trees that are visited in and below a tree, each before those below it
    and in the order in which they are written. -/
def walk (tree : Tree) : List Tree :=
  tree :: tree.branches.attach.flatMap fun ⟨branch, _⟩ => walk branch
termination_by sizeOf tree
decreasing_by
  rename_i hmem
  exact sizeOf_lt_of_mem_branches hmem

theorem walk_eq (tree : Tree) : tree.walk = tree :: tree.branches.flatMap walk := by
  rw [walk]
  simp [List.flatMap_subtype]

theorem namesBinder_of_mem_aliases {head : Tree} {name : String} {operator : Operator}
    (hspells : SpellsName head name) (hname : name ∈ operator.aliases) :
    head.namesBinder = operator.binds := by
  rw [namesBinder, operatorName_of_spellsName hspells]
  simp [Operator.ofName?_of_mem_aliases hname]

end Tree

/-- What is read on below a tree is what a walk visits below it. -/
theorem Layer.Reads.branches_eq {tree : Tree} {layer : Layer} (hreads : Layer.Reads tree layer) :
    tree.branches = layer.operands := by
  cases hreads with
  | atom value => rfl
  | empty => rfl
  | group element => rfl
  | not hspells hname operand =>
    rw [Tree.branches_applied, Tree.namesBinder_of_mem_aliases hspells hname]
    rfl
  | binary hspells hname left right =>
    rw [Tree.branches_applied, Tree.namesBinder_of_mem_aliases hspells hname]
    rfl
  | set hspells hname bound binding =>
    rw [Tree.branches_applied, Tree.namesBinder_of_mem_aliases hspells hname]
    rfl
  | letIn hspells hname bound binding body =>
    rw [Tree.branches_applied, Tree.namesBinder_of_mem_aliases hspells hname]
    rfl

namespace Formula

/-- The formula that a tree denotes. -/
inductive Denoted : Tree → Formula → Prop where
  | leaf {tree : Tree} {formula : Formula} (hreads : Layer.Reads tree (.leaf formula)) :
      Denoted tree formula
  | group {tree element : Tree} {formula : Formula} (hreads : Layer.Reads tree (.group element))
      (helement : Denoted element formula) : Denoted tree formula
  | not {tree operand : Tree} {inner : Formula} (hreads : Layer.Reads tree (.not operand))
      (hoperand : Denoted operand inner) : Denoted tree (.not inner)
  | binary {tree left right : Tree} {connective : Connective} {first second : Formula}
      (hreads : Layer.Reads tree (.binary connective left right)) (hleft : Denoted left first)
      (hright : Denoted right second) : Denoted tree (.binary connective first second)
  | set {tree binding : Tree} {name : String} {inner : Formula}
      (hreads : Layer.Reads tree (.set name binding)) (hbinding : Denoted binding inner) :
      Denoted tree (.set name inner)
  | letIn {tree binding body : Tree} {name : String} {first second : Formula}
      (hreads : Layer.Reads tree (.letIn name binding body)) (hbinding : Denoted binding first)
      (hbody : Denoted body second) : Denoted tree (.letIn name first second)

section Refused

variable {tree : Tree} {error : SyntaxError}

/-- Where a tree says something by itself, it is refused with the error of its
    first operand that is refused. -/
theorem ofTree_eq_error_iff_operands {layer : Layer} (hreads : Layer.Reads tree layer) :
    ofTree tree = .error error ↔
      FirstError (fun operand reported => ofTree operand = .error reported) layer.operands error := by
  rw [ofTree_eq, Layer.ofTree_of_reads hreads]
  cases layer with
  | leaf formula => simp [Layer.operands, FirstError]
  | group element => simp [Layer.operands, FirstError]
  | not operand => simp [Layer.operands, FirstError, map_eq_error_iff]
  | set name binding => simp [Layer.operands, FirstError, map_eq_error_iff]
  | binary connective left right =>
    cases hleft : ofTree left <;> simp [Layer.operands, FirstError, map_eq_error_iff, hleft]
  | letIn name binding body =>
    cases hbinding : ofTree binding <;>
      simp [Layer.operands, FirstError, map_eq_error_iff, hbinding]

/-- A tree is refused with the first fault of a walk through it. -/
theorem ofTree_eq_error_iff_firstError :
    ofTree tree = .error error ↔ FirstError Fault tree.walk error := by
  induction hsize : sizeOf tree using Nat.strongRecOn generalizing tree error with
  | ind size ih =>
    have hcons : FirstError Fault tree.walk error ↔ Fault tree error ∨
        (∀ other, ¬ Fault tree other) ∧
          FirstError (fun branch => FirstError Fault branch.walk) tree.branches error := by
      rw [Tree.walk_eq, FirstError, firstError_flatMap_iff]
    rw [hcons]
    cases hlayer : Layer.ofTree tree with
    | ok layer =>
      have hreads := Layer.ofTree_eq_ok_iff.mp hlayer
      have hbranches : ∀ branch ∈ tree.branches, ∀ other,
          ofTree branch = .error other ↔ FirstError Fault branch.walk other := by
        intro branch hmem other
        have hsmaller := Tree.sizeOf_lt_of_mem_branches hmem
        exact ih (sizeOf branch) (by omega) rfl
      -- The operands are refused in the order of the walk, so its first fault is
      -- the first fault of the first operand that has one.
      rw [ofTree_eq_error_iff_operands hreads, ← hreads.branches_eq, firstError_congr hbranches]
      simp [hreads.not_fault]
    | error reported =>
      have hfault := Layer.ofTree_eq_error_iff.mp hlayer
      have hrefused : ofTree tree = .error reported := by
        rw [ofTree_eq, hlayer]
      rw [hrefused]
      constructor
      · intro hsame
        cases hsame
        exact .inl hfault
      · rintro (hother | ⟨hsound, -⟩)
        · rw [hfault.error_eq hother]
        · exact absurd hfault (hsound reported)

end Refused

theorem ofTree_of_denoted {tree : Tree} {formula : Formula} (hdenoted : Denoted tree formula) :
    ofTree tree = .ok formula := by
  induction hdenoted with
  | leaf hreads => rw [ofTree_eq, Layer.ofTree_of_reads hreads]
  | group hreads _ ih => rw [ofTree_eq, Layer.ofTree_of_reads hreads]; exact ih
  | not hreads _ ih => rw [ofTree_eq, Layer.ofTree_of_reads hreads]; simp [ih, Except.map]
  | set hreads _ ih => rw [ofTree_eq, Layer.ofTree_of_reads hreads]; simp [ih, Except.map]
  | binary hreads _ _ ihleft ihright =>
    rw [ofTree_eq, Layer.ofTree_of_reads hreads]
    simp [ihleft, ihright, Except.map]
  | letIn hreads _ _ ihbinding ihbody =>
    rw [ofTree_eq, Layer.ofTree_of_reads hreads]
    simp [ihbinding, ihbody, Except.map]

theorem denoted_of_ofTree {tree : Tree} {formula : Formula} (hformula : ofTree tree = .ok formula) :
    Denoted tree formula := by
  induction hsize : sizeOf tree using Nat.strongRecOn generalizing tree formula with
  | ind size ih =>
    rw [ofTree_eq] at hformula
    cases hlayer : Layer.ofTree tree with
    | error error => simp [hlayer] at hformula
    | ok layer =>
      have hreads := Layer.ofTree_eq_ok_iff.mp hlayer
      have hoperand : ∀ {operand inner}, operand ∈ layer.operands → ofTree operand = .ok inner →
          Denoted operand inner := by
        intro operand inner hmem hinner
        have hsmaller := Tree.sizeOf_lt_of_mem_branches (hreads.branches_eq ▸ hmem)
        exact ih (sizeOf operand) (by omega) hinner rfl
      rw [hlayer] at hformula
      cases layer with
      | leaf formula =>
        cases hformula
        exact .leaf hreads
      | group element => exact .group hreads (hoperand (by simp [Layer.operands]) hformula)
      | not operand =>
        obtain ⟨inner, hinner, rfl⟩ := map_eq_ok_iff.mp hformula
        exact .not hreads (hoperand (by simp [Layer.operands]) hinner)
      | set name binding =>
        obtain ⟨inner, hinner, rfl⟩ := map_eq_ok_iff.mp hformula
        exact .set hreads (hoperand (by simp [Layer.operands]) hinner)
      | binary connective left right =>
        cases hleft : ofTree left with
        | error error => simp [hleft] at hformula
        | ok first =>
          simp only [hleft] at hformula
          obtain ⟨second, hright, rfl⟩ := map_eq_ok_iff.mp hformula
          exact .binary hreads (hoperand (by simp [Layer.operands]) hleft)
            (hoperand (by simp [Layer.operands]) hright)
      | letIn name binding body =>
        cases hbinding : ofTree binding with
        | error error => simp [hbinding] at hformula
        | ok first =>
          simp only [hbinding] at hformula
          obtain ⟨second, hbody, rfl⟩ := map_eq_ok_iff.mp hformula
          exact .letIn hreads (hoperand (by simp [Layer.operands]) hbinding)
            (hoperand (by simp [Layer.operands]) hbody)

/-- A tree is refused exactly where a walk through it meets a fault, with the
    first fault on the way. Every other tree is read as the formula that it
    denotes. -/
theorem ofTree_first_fault (tree : Tree) :
    ((∃ error, ofTree tree = .error error) ↔ ∃ node ∈ tree.walk, ∃ error, Fault node error) ∧
    (∀ error, ofTree tree = .error error ↔ FirstError Fault tree.walk error) ∧
    ∀ formula, ofTree tree = .ok formula ↔ Denoted tree formula := by
  refine ⟨?_, fun error => ofTree_eq_error_iff_firstError,
    fun formula => ⟨denoted_of_ofTree, ofTree_of_denoted⟩⟩
  rw [← exists_firstError_iff]
  exact exists_congr fun error => ofTree_eq_error_iff_firstError

/-- An operator in pieces, over constants that are truth values, and a tree with three faults
    below its root, the first of which has the second one below it. -/
theorem ofTree_first_fault_pieces :
    let name : String → Tree := fun text => .atom (.symbol text)
    let one : Tree := .atom (.constant (.ofBits 0x3ff0000000000000))
    let zero : Tree := .atom (.constant (.ofBits 0x8000000000000000))
    ofTree (.ofList [.ofList [name "=", name ">"], .ofList [name "set", name "x", one], zero]) =
      .ok (.binary .implies (.set "x" (.literal true)) (.literal false)) ∧
    ofTree (.ofList [name "and", .ofList [name "set", one, .ofList [name "xor", name "p"]],
      .pair (name "p") (name "q")]) = .error (.notASymbol "set" "Constant(1)") := by
  intro name one zero
  obtain ⟨-, -, hbuilt⟩ := ofTree_first_fault
    (.ofList [.ofList [name "=", name ">"], .ofList [name "set", name "x", one], zero])
  obtain ⟨-, hrefused, -⟩ := ofTree_first_fault
    (.ofList [name "and", .ofList [name "set", one, .ofList [name "xor", name "p"]],
      .pair (name "p") (name "q")])
  constructor
  · have hpieces : SpellsName (.ofList [name "=", name ">"]) "=>" :=
      @SpellsName.pieces ["=", ">"] (List.cons_ne_nil _ _)
    have hset : Denoted (.ofList [name "set", name "x", one]) (.set "x" (.literal true)) :=
      .set (.set (.symbol "set") (by decide) "x" one) (.leaf (.atom _))
    exact (hbuilt _).mpr (.binary (.binary hpieces (by decide) _ zero) hset (.leaf (.atom _)))
  · have hroot := @Layer.Reads.binary _ _ .and (.symbol "and") (by decide)
      (.ofList [name "set", one, .ofList [name "xor", name "p"]]) (.pair (name "p") (name "q"))
    have hplace : Fault (.ofList [name "set", one, .ofList [name "xor", name "p"]])
        (.notASymbol "set" one.text) :=
      @Fault.place _ _ _ .set _ (.symbol "set") (by decide) rfl rfl rfl
    have htext : one.text = "Constant(1)" := by decide +kernel
    rw [hrefused, Tree.walk_eq, hroot.branches_eq]
    refine .inr ⟨hroot.not_fault, ?_⟩
    rw [Layer.operands, List.flatMap_cons, Tree.walk_eq, List.cons_append, ← htext]
    exact .inl hplace

end Formula

end PrefixLogic
