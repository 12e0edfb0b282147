import PrefixLogic.Proofs.Formula.Notation

namespace PrefixLogic

/-- Constants that compare equal stand for one formula: the two zeros for one truth value,
    and what is not a number for none. -/
theorem Layer.ofConstant_eq_of_same {x y : Binary64} (hsame : x.same y = true) :
    ofConstant x = ofConstant y := by
  rw [ofConstant, ofConstant, Binary64.isOne_eq_of_same hsame, Binary64.isZero_eq_of_same hsame]

/-- Atoms that compare equal are equal, but for constants. -/
theorem Atom.eq_or_constant_of_same {a b : Atom} (hsame : a.same b = true) :
    a = b ∨ ∃ x y : Binary64, a = .constant x ∧ b = .constant y ∧ x.same y = true := by
  cases a with
  | constant x =>
    cases b with
    | constant y => exact .inr ⟨x, y, rfl, rfl, hsame⟩
    | _ => exact .inl (eq_of_beq hsame)
  | _ => exact .inl (eq_of_beq hsame)

theorem Atom.formula_eq_of_same {a b : Atom} (hsame : a.same b = true) :
    a.formula = b.formula := by
  rcases eq_or_constant_of_same hsame with rfl | ⟨x, y, rfl, rfl, hsame⟩
  · rfl
  · exact Layer.ofConstant_eq_of_same hsame

theorem Atom.kind_eq_of_same {a b : Atom} (hsame : a.same b = true) : a.kind = b.kind := by
  rcases eq_or_constant_of_same hsame with rfl | ⟨x, y, rfl, rfl, -⟩ <;> rfl

namespace Tree

/-- Trees of one shape, with atoms that compare equal in the same places. -/
inductive Equal : Tree → Tree → Prop
  | atom {a b : Atom} (hsame : a.same b = true) : Equal (.atom a) (.atom b)
  | empty : Equal .empty .empty
  | pair {head head' tail tail' : Tree} (hhead : Equal head head') (htail : Equal tail tail') :
      Equal (.pair head tail) (.pair head' tail')

theorem equal_of_same {a b : Tree} (hsame : a.same b = true) : Equal a b := by
  induction a generalizing b with
  | atom value =>
    cases b with
    | atom value' => exact .atom hsame
    | _ => cases hsame
  | empty =>
    cases b with
    | empty => exact .empty
    | _ => cases hsame
  | pair head tail ihhead ihtail =>
    cases b with
    | pair head' tail' =>
      obtain ⟨hhead, htail⟩ := Bool.and_eq_true_iff.mp hsame
      exact .pair (ihhead hhead) (ihtail htail)
    | _ => cases hsame

/-- Two lists whose items are related one by one, or two trees that are no lists for one
    and the same reason. -/
def ItemsAlike (rel : Tree → Tree → Prop) (a b : Tree) : Prop :=
  (∃ error, a.items = .error error ∧ b.items = .error error) ∨
    ∃ items items', a = ofList items ∧ b = ofList items' ∧ List.Forall₂ rel items items'

section ItemsAlike

variable {rel : Tree → Tree → Prop}

theorem itemsAlike_atom {a b : Atom} (hsame : a.same b = true) :
    ItemsAlike rel (.atom a) (.atom b) := by
  refine .inl ⟨_, rfl, ?_⟩
  rw [items, Atom.kind_eq_of_same hsame]

theorem itemsAlike_empty : ItemsAlike rel .empty .empty :=
  .inr ⟨[], [], rfl, rfl, .nil⟩

theorem ItemsAlike.pair {head head' tail tail' : Tree} (hhead : rel head head')
    (htail : ItemsAlike rel tail tail') : ItemsAlike rel (.pair head tail) (.pair head' tail') := by
  rcases htail with ⟨error, herror, herror'⟩ | ⟨items, items', rfl, rfl, hitems⟩
  · refine .inl ⟨error, ?_, ?_⟩
    · rw [Tree.items, herror]
      rfl
    · rw [Tree.items, herror']
      rfl
  · exact .inr ⟨head :: items, head' :: items', rfl, rfl, .cons hhead hitems⟩

end ItemsAlike

namespace Equal

variable {a b : Tree}

theorem itemsAlike (hequal : Equal a b) : ItemsAlike Equal a b := by
  induction hequal with
  | atom hsame => exact itemsAlike_atom hsame
  | empty => exact itemsAlike_empty
  | pair hhead _ _ ih => exact .pair hhead ih

/-- A symbol equals itself only. -/
theorem symbol_or_not (hequal : Equal a b) :
    (∃ name, a = .symbol name ∧ b = .symbol name) ∨ a.isSymbol = false ∧ b.isSymbol = false := by
  cases hequal with
  | atom hsame =>
    rcases Atom.eq_or_constant_of_same hsame with rfl | ⟨x, y, rfl, rfl, -⟩
    · rename_i value
      cases value with
      | symbol name => exact .inl ⟨name, rfl, rfl⟩
      | _ => exact .inr ⟨rfl, rfl⟩
    · exact .inr ⟨rfl, rfl⟩
  | empty => exact .inr ⟨rfl, rfl⟩
  | pair => exact .inr ⟨rfl, rfl⟩

theorem namesAlike (hequal : Equal a b) : NamesAlike SyntaxError.variant a b := by
  intro operator
  rcases hequal.symbol_or_not with ⟨name, rfl, rfl⟩ | ⟨ha, hb⟩
  · rfl
  · rw [Layer.boundName_of_not_isSymbol ha, Layer.boundName_of_not_isSymbol hb]
    rfl

end Equal

end Tree

/-- Lists of equal trees hold the same symbols up to the first tree that is none. -/
theorem joinSymbols_of_equal {items items' : List Tree}
    (hitems : List.Forall₂ Tree.Equal items items') :
    (joinSymbols items).mapError SyntaxError.variant =
      (joinSymbols items').mapError SyntaxError.variant := by
  induction hitems with
  | nil => rfl
  | cons hequal _ ih =>
    rcases hequal.symbol_or_not with ⟨name, rfl, rfl⟩ | ⟨ha, hb⟩
    · exact mapError_map_congr ih _
    · rw [joinSymbols_of_not_isSymbol ha, joinSymbols_of_not_isSymbol hb]
      rfl

/-- Equal heads spell the same name, or both none for the same kind of reason. What is
    shown of them may differ. -/
theorem operatorName_of_equal {a b : Tree} (hequal : a.Equal b) :
    (operatorName a).mapError SyntaxError.variant =
      (operatorName b).mapError SyntaxError.variant := by
  rcases hequal.symbol_or_not with ⟨name, rfl, rfl⟩ | ⟨ha, hb⟩
  · rfl
  · have hitems := hequal.itemsAlike
    cases hequal with
    | empty => rfl
    | atom =>
      rw [operatorName_of_headFault (.head ha rfl), operatorName_of_headFault (.head hb rfl)]
      rfl
    | pair =>
      rw [operatorName_of_isPair rfl, operatorName_of_isPair rfl]
      rcases hitems with ⟨error, herror, herror'⟩ | ⟨items, items', hlist, hlist', hitems⟩
      · rw [herror, herror']
      · rw [hlist, hlist', Tree.items_ofList, Tree.items_ofList]
        exact joinSymbols_of_equal hitems

namespace Formula

/-- Trees that are equal and are read alike. -/
def EqualAlike (a b : Tree) : Prop :=
  a.Equal b ∧ ReadAlike SyntaxError.variant a b

/-- Pairs are read alike if their items are. -/
theorem readAlike_of_itemsAlike {a b : Tree} (ha : a.isPair = true) (hb : b.isPair = true)
    (hitems : Tree.ItemsAlike EqualAlike a b) : ReadAlike SyntaxError.variant a b := by
  rcases hitems with ⟨error, herror, herror'⟩ | ⟨items, items', rfl, rfl, hitems⟩
  · refine readAlike_of_mapError_eq ?_
    rw [Layer.ofTree_of_isPair ha, Layer.ofTree_of_isPair hb, herror, herror']
  · cases hitems with
    | nil => cases ha
    | cons hhead hterms =>
      obtain ⟨hequal, halike⟩ := hhead
      cases hterms with
      | nil => exact readAlike_of_layers (.group halike)
      | cons hplace hrest =>
        have hterms := List.Forall₂.cons hplace.2 (hrest.imp fun _ _ hterm => hterm.2)
        refine readAlike_of_layers
          (Layer.alike_applied (List.cons_ne_nil _ _) (operatorName_of_equal hequal) hterms ?_)
        rintro - _ ⟨⟩ _ ⟨⟩
        exact hplace.1.namesAlike

/-- Equal trees are read alike. As the items of a list are read by themselves, this goes
    together with what holds of the tree as the rest of a list. -/
theorem readAlike_of_equal {a b : Tree} (hequal : a.Equal b) :
    ReadAlike SyntaxError.variant a b := by
  suffices hboth : ReadAlike SyntaxError.variant a b ∧ Tree.ItemsAlike EqualAlike a b from hboth.1
  induction hequal with
  | atom hsame =>
    refine ⟨readAlike_of_mapError_eq ?_, Tree.itemsAlike_atom hsame⟩
    rw [Layer.ofTree_atom, Layer.ofTree_atom, Atom.formula_eq_of_same hsame]
  | empty => exact ⟨.refl _, Tree.itemsAlike_empty⟩
  | @pair head head' tail tail' hhead _ ihhead ihtail =>
    have hitems : Tree.ItemsAlike EqualAlike (.pair head tail) (.pair head' tail') :=
      .pair ⟨hhead, ihhead.1⟩ ihtail.2
    exact ⟨readAlike_of_itemsAlike rfl rfl hitems, hitems⟩

/-- Trees that compare equal, with the two zeros as one number and all that is not a number
    as another, are read as the same formula or are refused with errors of the same kind,
    and as heads they spell the same name or are refused with errors of the same kind. -/
theorem ofTree_eq_of_same {a b : Tree} (hsame : a.same b = true) :
    (ofTree a).mapError SyntaxError.variant = (ofTree b).mapError SyntaxError.variant ∧
    (operatorName a).mapError SyntaxError.variant =
      (operatorName b).mapError SyntaxError.variant :=
  have hequal := Tree.equal_of_same hsame
  ⟨readAlike_of_equal hequal, operatorName_of_equal hequal⟩

/-- The two zeros as operands are one truth value. As heads they are refused alike, each
    with its own written form. -/
theorem ofTree_eq_of_same_zeros :
    Tree.same (.ofList [.symbol "not", .atom (.constant (.ofBits 0))])
      (.ofList [.symbol "not", .atom (.constant (.ofBits 0x8000000000000000))]) = true ∧
    ofTree (.ofList [.symbol "not", .atom (.constant (.ofBits 0x8000000000000000))]) =
      .ok (.not (.literal false)) ∧
    Tree.same (.ofList [.atom (.constant (.ofBits 0)), .symbol "p"])
      (.ofList [.atom (.constant (.ofBits 0x8000000000000000)), .symbol "p"]) = true ∧
    (SyntaxError.invalidComponent "Constant(0)").variant =
      (SyntaxError.invalidComponent "Constant(-0)").variant := by
  have hterms : Tree.same (.ofList [.symbol "not", .atom (.constant (.ofBits 0))])
      (.ofList [.symbol "not", .atom (.constant (.ofBits 0x8000000000000000))]) = true := rfl
  have hheads : Tree.same (.ofList [.atom (.constant (.ofBits 0)), .symbol "p"])
      (.ofList [.atom (.constant (.ofBits 0x8000000000000000)), .symbol "p"]) = true := rfl
  have hread : ofTree (.ofList [.symbol "not", .atom (.constant (.ofBits 0))]) =
      .ok (.not (.literal false)) :=
    ofTree_of_denoted (.not (.not (.symbol "not") (by decide) _) (.leaf (.atom _)))
  have hrefused : ofTree (.ofList [.atom (.constant (.ofBits 0)), .symbol "p"]) =
      .error (.invalidComponent "Constant(0)") := by
    rw [ofTree_eq_bind]
    rfl
  have hrefused' :
      ofTree (.ofList [.atom (.constant (.ofBits 0x8000000000000000)), .symbol "p"]) =
        .error (.invalidComponent "Constant(-0)") := by
    rw [ofTree_eq_bind]
    rfl
  have halike : ReadAlike SyntaxError.variant _ _ := (ofTree_eq_of_same hterms).1
  have halike' : ReadAlike SyntaxError.variant _ _ := (ofTree_eq_of_same hheads).1
  exact ⟨hterms, (halike.ofTree_eq_ok_iff _).mp hread, hheads, halike'.view_eq hrefused hrefused'⟩

end Formula

end PrefixLogic
