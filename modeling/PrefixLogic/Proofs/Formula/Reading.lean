import PrefixLogic.Line
import PrefixLogic.Proofs.Formula.FirstFault
import PrefixLogic.Proofs.Tree.Verdict

namespace PrefixLogic

theorem Formula.ofTree_atom (value : Atom) : ofTree (.atom value) = .ok value.formula :=
  ofTree_of_denoted (.leaf (.atom value))

/-- Whether an error is one of reading a text. The others are those of a tree
    that spells no formula. -/
def SyntaxError.isReading : SyntaxError → Bool
  | .unbalanced => true
  | .malformed _ => true
  | .unexpectedToken _ => true
  | .unrecognised _ => true
  | _ => false

theorem settle_error {α : Type} {value : α} {run : List Token} {error : SyntaxError}
    (herror : settle value run = .error error) : error.isReading = true := by
  cases run with
  | nil => cases herror
  | cons token rest =>
    cases herror
    rfl

theorem Tree.ofText_error {text : List Char} {error : SyntaxError}
    (herror : Tree.ofText text = .error error) : error.isReading = true := by
  have hjudged := judged_readOne text
  rw [Tree.ofText] at herror
  rw [herror] at hjudged
  generalize hresult : (Except.error error : Except SyntaxError Tree) = result at hjudged
  cases hjudged with
  | blank => exact settle_error hresult.symm
  | malformed => cases hresult; rfl
  | unbalanced => cases hresult; rfl
  | group => exact settle_error hresult.symm
  | closing => cases hresult; rfl
  | compound => cases hresult
  | item => exact settle_error hresult.symm

theorem HeadFault.isReading {head : Tree} {error : SyntaxError} (hfault : HeadFault head error) :
    error.isReading = false := by
  cases hfault <;> rfl

theorem Fault.isReading {tree : Tree} {error : SyntaxError} (hfault : Fault tree error) :
    error.isReading = false := by
  cases hfault with
  | head _ hhead => exact hhead.isReading
  | _ => rfl

/-- A tree is never refused with an error of reading. -/
theorem Formula.ofTree_error (tree : Tree) {error : SyntaxError}
    (herror : ofTree tree = .error error) : error.isReading = false := by
  obtain ⟨node, -, hfault⟩ := (ofTree_eq_error_iff_firstError.mp herror).exists_wrong
  exact hfault.isReading

end PrefixLogic
