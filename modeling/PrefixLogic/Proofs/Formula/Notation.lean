import PrefixLogic.Proofs.Formula.Replacement

namespace PrefixLogic

/-- What kind of error it is, whatever it reports. -/
inductive SyntaxError.Variant where
  | unbalanced
  | malformed
  | unexpectedToken
  | unrecognised
  | notAList
  | invalidComponent
  | wrongTermCount
  | unknownOperator
  | notASymbol
deriving DecidableEq

def SyntaxError.variant : SyntaxError → Variant
  | .unbalanced => .unbalanced
  | .malformed _ => .malformed
  | .unexpectedToken _ => .unexpectedToken
  | .unrecognised _ => .unrecognised
  | .notAList _ => .notAList
  | .invalidComponent _ => .invalidComponent
  | .wrongTermCount _ _ => .wrongTermCount
  | .unknownOperator _ => .unknownOperator
  | .notASymbol _ _ => .notASymbol

/-- A tree spells an operator, in one symbol or in a list of them. -/
def Operator.Spelled (operator : Operator) (head : Tree) : Prop :=
  ∃ name ∈ operator.aliases, SpellsName head name

namespace Tree

/-- The tree of a symbol. -/
abbrev symbol (name : String) : Tree :=
  .atom (.symbol name)

/-- Another spelling of an operator in front of the same terms. -/
inductive Respells : Tree → Tree → Prop
  | intro (operator : Operator) {head head' : Tree} (hhead : operator.Spelled head)
      (hhead' : operator.Spelled head') {terms : List Tree} (hne : terms ≠ []) :
      Respells (.ofList (head :: terms)) (.ofList (head' :: terms))

/-- One more pair of parentheses around a tree. -/
inductive Encloses : Tree → Tree → Prop
  | intro (tree : Tree) : Encloses tree (.ofList [tree])

end Tree

namespace Layer

/-- Only errors show how an operator is spelled. -/
theorem mapError_ofOperator_variant (name name' : String) (operator : Operator)
    (terms : List Tree) :
    (ofOperator name operator terms).mapError SyntaxError.variant =
      (ofOperator name' operator terms).mapError SyntaxError.variant := by
  have hbound : ∀ (place : Tree) (f : String → Layer),
      ((boundName name place).map f).mapError SyntaxError.variant =
        ((boundName name' place).map f).mapError SyntaxError.variant := by
    intro place f
    cases hplace : place.isSymbol with
    | true =>
      obtain ⟨bound, rfl⟩ := Tree.isSymbol_eq_true_iff.mp hplace
      rfl
    | false =>
      rw [boundName_of_not_isSymbol hplace, boundName_of_not_isSymbol hplace]
      rfl
  rw [ofOperator.eq_def, ofOperator.eq_def]
  split
  · rfl
  · rfl
  · exact hbound _ _
  · exact hbound _ _
  · rfl

theorem mapError_ofTree_variant {tree tree' : Tree} (hrespells : Tree.Respells tree tree') :
    (ofTree tree).mapError SyntaxError.variant = (ofTree tree').mapError SyntaxError.variant := by
  obtain ⟨operator, ⟨name, hname, hspells⟩, ⟨name', hname', hspells'⟩, hne⟩ := hrespells
  rw [ofTree_of_spellsName hspells hne, ofTree_of_spellsName hspells' hne, ofTerms, ofTerms,
    Operator.ofName?_of_mem_aliases hname, Operator.ofName?_of_mem_aliases hname']
  split
  · rfl
  · exact mapError_ofOperator_variant name name' _ _

end Layer

namespace Formula

theorem readAlike_of_respells {tree tree' : Tree} (hrespells : Tree.Respells tree tree') :
    ReadAlike SyntaxError.variant tree tree' :=
  readAlike_of_mapError_eq (Layer.mapError_ofTree_variant hrespells)

theorem readAlike_of_encloses {tree tree' : Tree} (hencloses : Tree.Encloses tree tree') :
    ReadAlike id tree tree' := by
  obtain ⟨tree⟩ := hencloses
  rw [ReadAlike, ofTree_eq_bind (.ofList [tree])]
  rfl

/-- How operators are spelled makes no difference to the formula that a tree is read as,
    wherever in the tree they stand before terms. A tree that is no formula is refused
    with an error of the same kind, which may show another spelling. -/
theorem ofTree_eq_ok_iff_of_respells {tree tree' : Tree}
    (hrespells : Relation.ReflTransGen (Tree.Replaces Tree.Respells) tree tree') :
    (∀ formula, ofTree tree = .ok formula ↔ ofTree tree' = .ok formula) ∧
    ∀ error error', ofTree tree = .error error → ofTree tree' = .error error' →
      error.variant = error'.variant := by
  have halike := readAlike_of_reflTransGen (fun _ _ => readAlike_of_respells) hrespells
  exact ⟨halike.ofTree_eq_ok_iff, fun _ _ => halike.view_eq⟩

/-- A negation in pieces around one in another spelling, and a list that fails for the
    number of its terms under either name of its operator. -/
theorem ofTree_eq_ok_iff_of_respells_pieces :
    Relation.ReflTransGen (Tree.Replaces Tree.Respells)
      (.ofList [.symbol "not", .ofList [.symbol "not", .symbol "p"]])
      (.ofList [.ofList (Tree.symbols ["n", "ot"]), .ofList [.symbol "~", .symbol "p"]]) ∧
    ofTree (.ofList [.ofList (Tree.symbols ["n", "ot"]), .ofList [.symbol "~", .symbol "p"]]) =
      .ok (.not (.not (.ref "p"))) ∧
    Relation.ReflTransGen (Tree.Replaces Tree.Respells)
      (.ofList [.symbol "implies", .symbol "q"]) (.ofList [.symbol "C", .symbol "q"]) ∧
    (SyntaxError.wrongTermCount "implies" 1).variant =
      (SyntaxError.wrongTermCount "C" 1).variant := by
  have hinner : Tree.Respells (.ofList [.symbol "not", .symbol "p"])
      (.ofList [.symbol "~", .symbol "p"]) :=
    .intro .not ⟨"not", by decide, .symbol "not"⟩ ⟨"~", by decide, .symbol "~"⟩ (by simp)
  have houter : Tree.Respells (.ofList [.symbol "not", .ofList [.symbol "~", .symbol "p"]])
      (.ofList [.ofList (Tree.symbols ["n", "ot"]), .ofList [.symbol "~", .symbol "p"]]) :=
    .intro .not ⟨"not", by decide, .symbol "not"⟩ ⟨"not", by decide, .pieces (by simp)⟩ (by simp)
  have hcount : Tree.Respells (.ofList [.symbol "implies", .symbol "q"])
      (.ofList [.symbol "C", .symbol "q"]) :=
    .intro (.binary .implies) ⟨"implies", by decide, .symbol "implies"⟩
      ⟨"C", by decide, .symbol "C"⟩ (by simp)
  have hnegations : Relation.ReflTransGen (Tree.Replaces Tree.Respells) _ _ :=
    .tail (.single (.term (.symbol "not") [] [] (by decide) (.here hinner))) (.here houter)
  have himplies : Relation.ReflTransGen (Tree.Replaces Tree.Respells) _ _ :=
    .single (.here hcount)
  have hdenoted : Denoted (.ofList [.symbol "not", .ofList [.symbol "not", .symbol "p"]])
      (.not (.not (.ref "p"))) :=
    .not (.not (.symbol "not") (by decide) _)
      (.not (.not (.symbol "not") (by decide) _) (.leaf (.atom _)))
  refine ⟨hnegations,
    ((ofTree_eq_ok_iff_of_respells hnegations).1 _).mp (ofTree_of_denoted hdenoted),
    himplies, (ofTree_eq_ok_iff_of_respells himplies).2 _ _ ?_ ?_⟩
  · rw [ofTree_eq_bind]
    rfl
  · rw [ofTree_eq_bind]
    rfl

/-- Parentheses around what is read as a formula make no difference, wherever in the tree
    they stand and however many they are: the tree is the same formula, or is refused
    with the same error. -/
theorem ofTree_eq_of_encloses {tree tree' : Tree}
    (hencloses : Relation.ReflTransGen (Tree.Replaces Tree.Encloses) tree tree') :
    ofTree tree' = ofTree tree :=
  (readAlike_of_reflTransGen (fun _ _ => readAlike_of_encloses) hencloses).ofTree_eq.symm

/-- A pair that is no list, inside and outside of two more pairs of parentheses. -/
theorem ofTree_eq_of_encloses_improper :
    Relation.ReflTransGen (Tree.Replaces Tree.Encloses)
      (.ofList [.symbol "set", .symbol "x", .pair (.symbol "p") (.symbol "q")])
      (.ofList [.ofList [.symbol "set", .symbol "x",
        .ofList [.pair (.symbol "p") (.symbol "q")]]]) ∧
    ofTree (.ofList [.ofList [.symbol "set", .symbol "x",
        .ofList [.pair (.symbol "p") (.symbol "q")]]]) = .error (.notAList "symbol") := by
  have hbinding : Tree.Replaces Tree.Encloses
      (.ofList [.symbol "set", .symbol "x", .pair (.symbol "p") (.symbol "q")])
      (.ofList [.symbol "set", .symbol "x", .ofList [.pair (.symbol "p") (.symbol "q")]]) :=
    .term (.symbol "set") [.symbol "x"] [] (by simp) (.here (.intro _))
  have hencloses := Relation.ReflTransGen.tail (.single hbinding) (.here (.intro _))
  have himproper : ofTree (.pair (.symbol "p") (.symbol "q")) = .error (.notAList "symbol") := by
    rw [ofTree_eq_bind]
    rfl
  refine ⟨hencloses, (ofTree_eq_of_encloses hencloses).trans ?_⟩
  exact (ofTree_eq_error_iff_operands (.set (.symbol "set") (by decide) "x" _)).mpr (.inl himproper)

end Formula

end PrefixLogic
