import PrefixLogic.Proofs.Tree.WellFormed

namespace PrefixLogic

/-- What stands before the first of its kind is told from what stands behind it. -/
theorem append_cons_inj_of_notMem {stop : Char} {a b rest rest' : List Char} (ha : stop ∉ a)
    (hb : stop ∉ b) (htext : a ++ stop :: rest = b ++ stop :: rest') : a = b ∧ rest = rest' := by
  induction a generalizing b with
  | nil =>
    cases b with
    | nil => exact ⟨rfl, (List.cons.inj htext).2⟩
    | cons c b =>
      obtain ⟨rfl, -⟩ := List.cons.inj htext
      exact absurd List.mem_cons_self hb
  | cons c a ih =>
    cases b with
    | nil =>
      obtain ⟨rfl, -⟩ := List.cons.inj htext
      exact absurd List.mem_cons_self ha
    | cons d b =>
      obtain ⟨rfl, htail⟩ := List.cons.inj htext
      obtain ⟨rfl, hrest⟩ := ih (List.not_mem_of_not_mem_cons ha)
        (List.not_mem_of_not_mem_cons hb) htail
      exact ⟨rfl, hrest⟩

namespace Binary64

/-- A decimal is written with digits and at most a point. -/
theorem Decimal.eq_point_or_isDigit {c : Char} {d : Decimal} (hmem : c ∈ d.text) :
    c = '.' ∨ c.isDigit = true := by
  have hdigit : ∀ e ∈ Nat.toDigits 10 d.coefficient, e.isDigit = true :=
    fun e he => Nat.isDigit_of_mem_toDigits (by decide) (by decide) he
  have hzero : ∀ count, ∀ e ∈ List.replicate count '0', e.isDigit = true := by
    intro count e he
    rw [List.eq_of_mem_replicate he]
    rfl
  have hpadded : ∀ count, ∀ e ∈ List.replicate count '0' ++ Nat.toDigits 10 d.coefficient,
      e.isDigit = true :=
    fun count => List.forall_mem_append.mpr ⟨hzero count, hdigit⟩
  rw [text] at hmem
  split at hmem
  · exact .inr (List.forall_mem_append.mpr ⟨hdigit, hzero _⟩ c hmem)
  · rcases List.mem_append.mp hmem with hmem | hmem
    · exact .inr (hpadded _ c (List.mem_of_mem_take hmem))
    · exact (List.mem_cons.mp hmem).imp_right fun hmem => hpadded _ c (List.mem_of_mem_drop hmem)

theorem closing_notMem_text (x : Binary64) : ')' ∉ x.text.toList := by
  have hdecimal : ')' ∉ (shortest x.magnitude).text := by
    intro hmem
    rcases Decimal.eq_point_or_isDigit hmem with hpoint | hdigit
    · cases hpoint
    · cases hdigit
  rw [text]
  split
  · decide
  · have hsize : ')' ∉ (if x.magnitude = infinity then "inf" else if x.isZero then "0"
        else String.ofList (shortest x.magnitude).text).toList := by
      split
      · decide
      split
      · decide
      · rwa [String.toList_ofList]
    dsimp only
    split
    · simpa using hsize
    · exact hsize

end Binary64

/-- Atoms that are equal, or two constants with one written form. -/
inductive Atom.Alike : Atom → Atom → Prop
  | refl (value : Atom) : Alike value value
  | constant {x y : Binary64} (htext : x.text = y.text) : Alike (.constant x) (.constant y)

/-- Trees of one shape, with alike atoms in the same places. -/
inductive Tree.Alike : Tree → Tree → Prop
  | atom {a b : Atom} (halike : a.Alike b) : Alike (.atom a) (.atom b)
  | empty : Alike .empty .empty
  | pair {head head' tail tail' : Tree} (hhead : Alike head head') (htail : Alike tail tail') :
      Alike (.pair head tail) (.pair head' tail')

theorem Atom.Alike.text_eq {a b : Atom} (halike : a.Alike b) : a.text = b.text := by
  cases halike with
  | refl => rfl
  | constant htext => rw [text, text, htext]

/-- The written form of an atom shows where it ends. -/
theorem Atom.alike_of_text_append {a b : Atom} {rest rest' : List Char}
    (ha : ∀ name, a = .symbol name → ')' ∉ name.toList)
    (hb : ∀ name, b = .symbol name → ')' ∉ name.toList)
    (htext : a.text.toList ++ rest = b.text.toList ++ rest') : a.Alike b ∧ rest = rest' := by
  cases a with
  | constant x =>
    cases b with
    | constant y =>
      have htext : x.text.toList ++ ')' :: rest = y.text.toList ++ ')' :: rest' := by
        simpa [text] using htext
      obtain ⟨hsame, hrest⟩ :=
        append_cons_inj_of_notMem x.closing_notMem_text y.closing_notMem_text htext
      exact ⟨.constant (String.toList_inj.mp hsame), hrest⟩
    | symbol name => simp [text] at htext
    | truth value => cases value <;> simp [text] at htext
  | symbol name =>
    cases b with
    | constant y => simp [text] at htext
    | symbol name' =>
      have htext : name.toList ++ ')' :: rest = name'.toList ++ ')' :: rest' := by
        simpa [text] using htext
      obtain ⟨hsame, hrest⟩ := append_cons_inj_of_notMem (ha name rfl) (hb name' rfl) htext
      obtain rfl := String.toList_inj.mp hsame
      exact ⟨.refl _, hrest⟩
    | truth value => cases value <;> simp [text] at htext
  | truth value =>
    cases b with
    | constant y => cases value <;> simp [text] at htext
    | symbol name => cases value <;> simp [text] at htext
    | truth value' =>
      cases value <;> cases value' <;> simp [text] at htext <;> exact ⟨.refl _, htext⟩

namespace Tree

/-- No symbol of a tree holds the character that closes the written forms. -/
def Printable (tree : Tree) : Prop :=
  ∀ name, .symbol name ∈ tree.atoms → ')' ∉ name.toList

theorem printable_pair_iff {head tail : Tree} :
    (pair head tail).Printable ↔ head.Printable ∧ tail.Printable := by
  simp only [Printable, atoms, List.mem_append, or_imp, forall_and]

section Chars

variable {head tail : Tree} {rest : List Char}

theorem text_append_of_isProper (hproper : tail.isProper = true) :
    (pair head tail).text.toList ++ rest =
      "List(".toList ++ (head.text.toList ++ (tail.itemsText.toList ++ ')' :: rest)) := by
  simp [text, hproper]

theorem text_append_of_not_isProper (hproper : tail.isProper = false) :
    (pair head tail).text.toList ++ rest = "Pair(".toList ++
      (head.text.toList ++ (" . ".toList ++ (tail.text.toList ++ ')' :: rest))) := by
  simp [text, hproper]

theorem itemsText_pair_append :
    (pair head tail).itemsText.toList ++ rest =
      ' ' :: (head.text.toList ++ (tail.itemsText.toList ++ rest)) := by
  simp [itemsText]

end Chars

/-- The character that the written form of a tree starts with. -/
def initial : Tree → Char
  | .atom (.constant _) => 'C'
  | .atom (.symbol _) => 'S'
  | .atom (.truth true) => 'T'
  | .atom (.truth false) => 'F'
  | .empty => 'E'
  | .pair _ tail => if tail.isProper then 'L' else 'P'

theorem head?_text_append (tree : Tree) (rest : List Char) :
    (tree.text.toList ++ rest).head? = some tree.initial := by
  cases tree with
  | atom value =>
    cases value with
    | truth value => cases value <;> rfl
    | _ => simp [text, Atom.text, initial]
  | empty => rfl
  | pair head tail =>
    rw [initial]
    split
    · rename_i hproper
      rw [text_append_of_isProper hproper]
      rfl
    · rename_i hproper
      rw [text_append_of_not_isProper (by simpa using hproper)]
      rfl

theorem initial_eq_of_text_append {a b : Tree} {rest rest' : List Char}
    (htext : a.text.toList ++ rest = b.text.toList ++ rest') : a.initial = b.initial := by
  have hinitial := head?_text_append a rest
  rw [htext, head?_text_append] at hinitial
  exact (Option.some.inj hinitial).symm

theorem initial_atom_ne {value : Atom} {tree : Tree} (htree : tree.isAtom = false) :
    (atom value).initial ≠ tree.initial := by
  have hvalue : (atom value).initial ∈ ['C', 'S', 'T', 'F'] := by
    cases value with
    | truth value => cases value <;> simp [initial]
    | _ => simp [initial]
  have hother : tree.initial ∉ ['C', 'S', 'T', 'F'] := by
    cases tree with
    | atom value => cases htree
    | empty => decide
    | pair head tail =>
      rw [initial]
      split <;> decide
  intro hsame
  exact hother (hsame ▸ hvalue)

theorem initial_pair_ne_empty (head tail : Tree) : (pair head tail).initial ≠ empty.initial := by
  simp only [initial]
  split <;> decide

theorem isProper_eq_of_initial_eq {head tail head' tail' : Tree}
    (hinitial : (pair head tail).initial = (pair head' tail').initial) :
    tail.isProper = tail'.isProper := by
  rw [initial, initial] at hinitial
  cases htail : tail.isProper <;> cases htail' : tail'.isProper <;> simp_all

/-- The written form of a tree shows which tree it is, up to the constants in it, and where
    the written form ends. -/
def TextTells (a : Tree) : Prop :=
  ∀ (b : Tree) (rest rest' : List Char), a.Printable → b.Printable →
    a.text.toList ++ rest = b.text.toList ++ rest' → a.Alike b ∧ rest = rest'

/-- In front of a closing parenthesis the written items of a list show the same of the list. -/
def ItemsTell (a : Tree) : Prop :=
  ∀ (b : Tree) (rest rest' : List Char), a.Printable → b.Printable → a.isProper = true →
    b.isProper = true → a.itemsText.toList ++ ')' :: rest = b.itemsText.toList ++ ')' :: rest' →
    a.Alike b ∧ rest = rest'

theorem textTells_atom (value : Atom) : (atom value).TextTells := by
  intro b rest rest' ha hb htext
  cases b with
  | atom value' =>
    obtain ⟨halike, hrest⟩ := Atom.alike_of_text_append
      (fun name hname => ha name (hname ▸ List.mem_singleton_self _))
      (fun name hname => hb name (hname ▸ List.mem_singleton_self _)) htext
    exact ⟨.atom halike, hrest⟩
  | _ => exact absurd (initial_eq_of_text_append htext) (initial_atom_ne rfl)

theorem textTells_empty : empty.TextTells := by
  intro b rest rest' _ _ htext
  have hinitial := (initial_eq_of_text_append htext).symm
  cases b with
  | atom value => exact absurd hinitial (initial_atom_ne rfl)
  | empty => exact ⟨.empty, List.append_cancel_left htext⟩
  | pair head tail => exact absurd hinitial (initial_pair_ne_empty head tail)

theorem itemsTell_empty : empty.ItemsTell := by
  intro b rest rest' _ _ _ hproper htext
  cases b with
  | atom value => cases hproper
  | empty => exact ⟨.empty, (List.cons.inj htext).2⟩
  | pair head tail =>
    rw [itemsText_pair_append] at htext
    cases htext

section Pair

variable {head tail : Tree} (hhead : head.TextTells)
include hhead

theorem textTells_pair (htail : tail.TextTells) (hitems : tail.ItemsTell) :
    (pair head tail).TextTells := by
  intro b rest rest' ha hb htext
  have hinitial := initial_eq_of_text_append htext
  cases b with
  | atom value => exact absurd hinitial.symm (initial_atom_ne rfl)
  | empty => exact absurd hinitial (initial_pair_ne_empty head tail)
  | pair head' tail' =>
    obtain ⟨hahead, hatail⟩ := printable_pair_iff.mp ha
    obtain ⟨hbhead, hbtail⟩ := printable_pair_iff.mp hb
    have hsame := isProper_eq_of_initial_eq hinitial
    cases hproper : tail.isProper with
    | true =>
      rw [hproper] at hsame
      rw [text_append_of_isProper hproper, text_append_of_isProper hsame.symm] at htext
      obtain ⟨hfirst, htext⟩ := hhead _ _ _ hahead hbhead (List.append_cancel_left htext)
      obtain ⟨hmore, hrest⟩ := hitems _ _ _ hatail hbtail hproper hsame.symm htext
      exact ⟨.pair hfirst hmore, hrest⟩
    | false =>
      rw [hproper] at hsame
      rw [text_append_of_not_isProper hproper, text_append_of_not_isProper hsame.symm] at htext
      obtain ⟨hfirst, htext⟩ := hhead _ _ _ hahead hbhead (List.append_cancel_left htext)
      obtain ⟨hmore, hrest⟩ := htail _ _ _ hatail hbtail (List.append_cancel_left htext)
      exact ⟨.pair hfirst hmore, (List.cons.inj hrest).2⟩

theorem itemsTell_pair (hitems : tail.ItemsTell) : (pair head tail).ItemsTell := by
  intro b rest rest' ha hb hproper hproper' htext
  cases b with
  | atom value => cases hproper'
  | empty =>
    rw [itemsText_pair_append] at htext
    cases htext
  | pair head' tail' =>
    obtain ⟨hahead, hatail⟩ := printable_pair_iff.mp ha
    obtain ⟨hbhead, hbtail⟩ := printable_pair_iff.mp hb
    rw [itemsText_pair_append, itemsText_pair_append] at htext
    obtain ⟨hfirst, htext⟩ := hhead _ _ _ hahead hbhead (List.cons.inj htext).2
    obtain ⟨hmore, hrest⟩ := hitems _ _ _ hatail hbtail hproper hproper' htext
    exact ⟨.pair hfirst hmore, hrest⟩

end Pair

/-- A list is written item by item and a chain pair by pair, so what the written form of a
    tree tells goes together with what the items tell of it as the rest of a list. -/
theorem textTells (a : Tree) : a.TextTells := by
  suffices hboth : a.TextTells ∧ a.ItemsTell from hboth.1
  induction a with
  | atom value => exact ⟨textTells_atom value, fun _ _ _ _ _ hproper => by cases hproper⟩
  | empty => exact ⟨textTells_empty, itemsTell_empty⟩
  | pair head tail ihhead ihtail =>
    exact ⟨textTells_pair ihhead.1 ihtail.1 ihtail.2, itemsTell_pair ihhead.1 ihtail.2⟩

theorem Alike.isProper_eq {a b : Tree} (halike : a.Alike b) : a.isProper = b.isProper := by
  induction halike with
  | atom => rfl
  | empty => rfl
  | pair _ _ _ ih => exact ih

theorem Alike.text_eq {a b : Tree} (halike : a.Alike b) : a.text = b.text := by
  suffices hboth : a.text = b.text ∧ a.itemsText = b.itemsText from hboth.1
  induction halike with
  | atom halike => exact ⟨halike.text_eq, rfl⟩
  | empty => exact ⟨rfl, rfl⟩
  | pair _ htail ihhead ihtail =>
    rw [text, text, itemsText, itemsText, htail.isProper_eq, ihhead.1, ihtail.1, ihtail.2]
    exact ⟨rfl, rfl⟩

/-- Trees are written alike if and only if they are alike. -/
theorem text_eq_iff {a b : Tree} (ha : a.Printable) (hb : b.Printable) :
    a.text = b.text ↔ a.Alike b := by
  constructor
  · intro htext
    exact (a.textTells b [] [] ha hb (by rw [htext])).1
  · exact Alike.text_eq

end Tree

end PrefixLogic
