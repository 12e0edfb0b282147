import Mathlib.Tactic.FieldSimp
import PrefixLogic.Proofs.Binary64.Nearest
import PrefixLogic.Proofs.Formula.Replacement
import PrefixLogic.Proofs.Token.Longest
import PrefixLogic.Proofs.Token.Space
import PrefixLogic.Proofs.Tree.Form
import PrefixLogic.Proofs.Tree.WellFormed

namespace PrefixLogic

open Scanner

namespace Numeral

/-- What the digits behind the point stand for. -/
def fractionValue : Option Digits → ℚ
  | none => 0
  | some digits => digits.value / 10 ^ digits.chars.length

def exponentValue : Option Exponent → Int
  | none => 0
  | some exponent => exponent.value

/-- The number that a numeral writes down, exactly. -/
def rational (n : Numeral) : ℚ :=
  (n.whole.value + fractionValue n.fraction) * 10 ^ exponentValue n.exponent

/-- The digits on both sides of the point make one number, and the power of ten moves the
    point back to its place. -/
theorem rational_eq (n : Numeral) : n.rational = n.coefficient * 10 ^ n.decimalExponent := by
  have hten : (10 : ℚ) ≠ 0 := by norm_num
  obtain ⟨whole, fraction, exponent⟩ := n
  cases fraction with
  | none =>
    have hexponent : decimalExponent ⟨whole, none, exponent⟩ = exponentValue exponent := by
      cases exponent <;> exact Int.sub_zero _
    rw [rational, hexponent, fractionValue, add_zero, coefficient]
  | some digits =>
    have hexponent : decimalExponent ⟨whole, some digits, exponent⟩ =
        exponentValue exponent - digits.chars.length := by
      cases exponent <;> rfl
    have hcoefficient : coefficient ⟨whole, some digits, exponent⟩ =
        10 ^ digits.chars.length * whole.value + digits.value :=
      Nat.ofDigitChars_eq_ofDigitChars_zero
    rw [rational, hexponent, hcoefficient, fractionValue, zpow_sub₀ hten, zpow_natCast]
    push_cast
    field_simp

end Numeral

/-- The truth value of an exact number: true within rounding of one, false within rounding of
    zero, and nothing otherwise. -/
def Formula.ofRational (q : ℚ) : Formula :=
  if 1 - 1 / 2 ^ 54 ≤ q ∧ q ≤ 1 + 1 / 2 ^ 53 then .literal true
  else if q ≤ 1 / 2 ^ 1075 then .literal false
  else .null

theorem Layer.ofConstant_value (n : Numeral) :
    ofConstant n.value = Formula.ofRational n.rational := by
  have hone : n.value.isOne = true ↔ 1 - 1 / 2 ^ 54 ≤ n.rational ∧ n.rational ≤ 1 + 1 / 2 ^ 53 := by
    rw [n.rational_eq]
    exact Binary64.isOne_ofDecimal_iff
  have hzero : n.value.isZero = true ↔ n.rational ≤ 1 / 2 ^ 1075 := by
    rw [n.rational_eq]
    exact Binary64.isZero_ofDecimal_iff
  simp only [ofConstant, Formula.ofRational, hone, hzero]

namespace Numeral

/-- A numeral alone is one expression. -/
theorem ofText_text (n : Numeral) : Tree.ofText n.text = .ok (.atom (.constant n.value)) := by
  have hspace : ∀ c ∈ n.text, Text.isSpace c = false := fun c hc => Token.isSpace_of_mem_numeral hc
  have hparen : ∀ c ∈ n.text, Token.isParenthesis c = false := by
    intro c hc
    have hseparator := isSeparator_of_mem_text hc
    rw [Token.isSeparator, Bool.or_eq_false_iff] at hseparator
    exact hseparator.1
  have hglyphs : ¬ (1 < n.text.length ∧ ∀ c ∈ n.text, Text.isAlphanumeric c = false) := by
    rintro ⟨-, hnone⟩
    obtain ⟨c, hc⟩ := List.exists_mem_of_ne_nil _ n.whole.ne_nil
    have hdigit := n.whole.all_digit c hc
    have hmem : c ∈ n.text := List.mem_append_left _ (List.mem_append_left _ hc)
    have hword := Token.isWordChar_of_isDigit hdigit
    obtain rfl := (isAlphanumeric_eq_false_iff hword).mp (hnone c hmem)
    cases hdigit
  have hform : Form.Reads n.text (.atom (.constant n.value)) .piece := by
    rw [Form.Reads, remaining_ofText_eq_self hspace]
    exact ⟨n.text_ne_nil, hparen, hspace, hglyphs,
      .inl ⟨.number n, (Token.Lexed.number n).tokens_chars, rfl⟩⟩
  exact hform.readOne_eq

/-- Between separators, or at the ends of a text, a numeral is a token by itself. -/
theorem tokens_between (n : Numeral) {left right : List Char}
    (hleft : ∀ c ∈ left.getLast?, Token.isSeparator c = true) (hright : Detached right) :
    tokens (left ++ n.text ++ right) = tokens left ++ .number n :: tokens right := by
  have htoken : tokens n.text = [.number n] := (Token.Lexed.number n).tokens_chars
  rw [tokens_append hright, tokens_append_of_getLast? hleft, htoken, List.append_assoc,
    List.singleton_append]

end Numeral

/-- A numeral is worth what its exact value says, however long it is. Alone it is an expression,
    and it spells the truth value of that number. Between separators it is a token, in a list
    it is an atom in its place, and wherever that atom is read as a formula it can be exchanged
    for any tree that spells the same truth value. -/
theorem Numeral.spells_ofRational (n : Numeral) :
    Tree.ofText n.text = .ok (.atom (.constant n.value)) ∧
    Formula.ofTree (.atom (.constant n.value)) = .ok (.ofRational n.rational) ∧
    (∀ left right : List Char, (∀ c ∈ left.getLast?, Token.isSeparator c = true) →
      Detached right →
      tokens (left ++ n.text ++ right) = tokens left ++ .number n :: tokens right) ∧
    (∀ (line : List Char) (front back : List Token),
      tokens line = .opening :: (front ++ .number n :: back ++ [.closing]) →
      Nested .opening .closing (front ++ .number n :: back) →
      ∃ items, Spells (front ++ .number n :: back) items ∧
        Tree.ofText line = .ok (Tree.ungrouped items) ∧
        (Tree.ungrouped items).atoms = (front.filter Token.isItem).map Atom.ofToken ++
          .constant n.value :: (back.filter Token.isItem).map Atom.ofToken) ∧
    ∀ other tree tree' : Tree, Formula.ofTree other = .ok (.ofRational n.rational) →
      Tree.Replaces (fun a b => a = .atom (.constant n.value) ∧ b = other) tree tree' →
      Formula.ofTree tree = Formula.ofTree tree' := by
  have hleaf : Formula.ofTree (.atom (.constant n.value)) = .ok (.ofRational n.rational) := by
    rw [Formula.ofTree_eq_bind, ← Layer.ofConstant_value]
    rfl
  refine ⟨n.ofText_text, hleaf, fun left right => n.tokens_between, ?_, ?_⟩
  · intro line front back hrun hnested
    obtain ⟨items, hspells⟩ := exists_spells_of_nested _ hnested
    refine ⟨items, hspells, Form.ofText_of_group hrun hspells, ?_⟩
    rw [Tree.atoms_ungrouped, hspells.atoms_eq, List.filter_append, List.filter_cons_of_pos rfl,
      List.map_append, List.map_cons]
    rfl
  · intro other tree tree' hother hreplaces
    have halike : Formula.ReadAlike id tree tree' := by
      refine Formula.readAlike_of_replaces ?_ hreplaces
      rintro a b ⟨rfl, rfl⟩
      rw [Formula.ReadAlike, hleaf, hother]
    exact halike.ofTree_eq

/-- One and half the distance to the number behind it. -/
def Numeral.halfwayAboveOne : Numeral where
  whole := ⟨['1'], List.cons_ne_nil _ _, List.all_eq_true.mp (by decide)⟩
  fraction := some ⟨"00000000000000011102230246251565404236316680908203125".toList,
    by decide, List.all_eq_true.mp (by decide)⟩
  exponent := none

/-- Halfway between two numbers the even one is nearest, here one itself: in a list this
    numeral is as good as the word for the truth. -/
theorem Numeral.spells_ofRational_halfwayAboveOne :
    Formula.ofRational halfwayAboveOne.rational = .literal true ∧
    Tree.ofText ("(& x ".toList ++ halfwayAboveOne.text ++ [')']) =
      .ok (.ofList [.atom (.symbol "&"), .atom (.symbol "x"),
        .atom (.constant halfwayAboveOne.value)]) ∧
    Formula.ofTree (.ofList [.atom (.symbol "&"), .atom (.symbol "x"),
        .atom (.constant halfwayAboveOne.value)]) =
      Formula.ofTree (.ofList [.atom (.symbol "&"), .atom (.symbol "x"), .atom (.truth true)]) := by
  have htrue : Formula.ofRational halfwayAboveOne.rational = .literal true := by decide +kernel
  obtain ⟨-, -, htoken, hlist, hbuild⟩ := halfwayAboveOne.spells_ofRational
  have hbefore : ∀ c ∈ "(& x ".toList.getLast?, Token.isSeparator c = true := by
    intro c hc
    obtain rfl := Option.some.inj hc
    rfl
  have hbehind : Detached [')'] := detached_cons.mpr rfl
  have hleft : tokens "(& x ".toList = [.opening, .operator ['&'], .word ['x']] := by
    decide +kernel
  have hright : tokens [')'] = [.closing] := by rw [tokens_closing, tokens_nil]
  have hrun := htoken "(& x ".toList [')'] hbefore hbehind
  rw [hleft, hright] at hrun
  have hnested : Nested Token.opening .closing
      [.operator ['&'], .word ['x'], .number halfwayAboveOne] := nested_of_forall (by simp)
  have hother : Formula.ofTree (.atom (.truth true)) =
      .ok (.ofRational halfwayAboveOne.rational) := by
    rw [htrue, Formula.ofTree_eq]
    rfl
  refine ⟨htrue, ?_, hbuild _ _ _ hother ?_⟩
  · obtain ⟨items, hspells, hread, -⟩ :=
      hlist _ [.operator ['&'], .word ['x']] [] hrun hnested
    cases hspells with
    | atom _ hspells =>
      cases hspells with
      | atom _ hspells =>
        cases hspells with
        | atom _ hspells =>
          cases hspells
          exact hread
  · exact .term (.atom (.symbol "&")) [.atom (.symbol "x")] [] (fun _ => List.cons_ne_nil _ _)
      (.here ⟨rfl, rfl⟩)

end PrefixLogic
