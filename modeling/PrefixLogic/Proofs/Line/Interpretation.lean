import PrefixLogic.Proofs.Formula.Reading
import PrefixLogic.Proofs.Tree.Form

namespace PrefixLogic

/-- What a line can lead to. Its text is not read, its tree spells no formula, or its
    formula is evaluated, and only then may the environment change. -/
inductive Interpreted (line : List Char) (env : Environment) :
    Except LineError Interpretation × Environment → Prop where
  | unread {error : SyntaxError} (hread : Tree.ofText line = .error error) :
      Interpreted line env (.error (.reading error), env)
  | unbuilt {tree : Tree} {error : SyntaxError} (hread : Tree.ofText line = .ok tree)
      (hbuild : Formula.ofTree tree = .error error) :
      Interpreted line env (.error (.reading error), env)
  | failed {tree : Tree} {formula : Formula} {error : EvaluationError} {after : Environment}
      (hread : Tree.ofText line = .ok tree) (hbuild : Formula.ofTree tree = .ok formula)
      (heval : formula.eval env = (.error error, after)) :
      Interpreted line env (.error (.evaluating error), after)
  | valued {tree : Tree} {formula : Formula} {value : Bool} {after : Environment}
      (hread : Tree.ofText line = .ok tree) (hbuild : Formula.ofTree tree = .ok formula)
      (heval : formula.eval env = (.ok value, after)) :
      Interpreted line env (.ok ⟨tree, formula, value⟩, after)

section Lines

variable {line : List Char} {env : Environment}

theorem interpreted_interpretLine (line : List Char) (env : Environment) :
    Interpreted line env (interpretLine line env) := by
  rw [interpretLine]
  split
  · rename_i hread
    exact .unread hread
  · rename_i hread
    split
    · rename_i hbuild
      exact .unbuilt hread hbuild
    · rename_i hbuild
      split
      · rename_i heval
        exact .failed hread hbuild heval
      · rename_i heval
        exact .valued hread hbuild heval

/-- A line that spells a formula does what the formula does. -/
theorem interpretLine_of_formula {tree : Tree} {formula : Formula}
    (hread : Tree.ofText line = .ok tree) (hbuild : Formula.ofTree tree = .ok formula)
    (env : Environment) :
    interpretLine line env =
      match formula.eval env with
      | (.ok value, env) => (.ok ⟨tree, formula, value⟩, env)
      | (.error error, env) => (.error (.evaluating error), env) := by
  simp only [interpretLine, hread, hbuild]
  cases formula.eval env with
  | mk result after => cases result <;> rfl

/-- A line that is one group does what the formula of its items does. -/
theorem interpretLine_of_group {inner : List Token} {items : List Tree} {formula : Formula}
    (hrun : tokens line = .opening :: (inner ++ [.closing])) (hspells : Spells inner items)
    (hdenoted : Formula.Denoted (Tree.ungrouped items) formula) (env : Environment) :
    interpretLine line env =
      match formula.eval env with
      | (.ok value, env) => (.ok ⟨Tree.ungrouped items, formula, value⟩, env)
      | (.error error, env) => (.error (.evaluating error), env) := by
  have hread := Form.ofText_of_group hrun hspells
  exact interpretLine_of_formula hread (Formula.ofTree_of_denoted hdenoted) env

/-- A line that is one symbol looks its name up and changes nothing. -/
theorem interpretLine_of_symbol {name : String}
    (hread : Tree.ofText line = .ok (.atom (.symbol name))) (env : Environment) :
    interpretLine line env =
      match env.get? name with
      | some value => (.ok ⟨.atom (.symbol name), .ref name, value⟩, env)
      | none => (.error (.evaluating (.undefined name)), env) := by
  rw [interpretLine_of_formula hread (Formula.ofTree_atom (.symbol name)), Atom.formula,
    Formula.eval]
  cases env.get? name <;> rfl

/-- A line that is not evaluated has a text that is not read or a tree that spells no
    formula. -/
theorem unread_or_unbuilt_of_interpretLine {error : SyntaxError}
    (hinterpret : (interpretLine line env).1 = .error (.reading error)) :
    Tree.ofText line = .error error ∨
      ∃ tree, Tree.ofText line = .ok tree ∧ Formula.ofTree tree = .error error := by
  have hcourse := interpreted_interpretLine line env
  generalize interpretLine line env = result at hinterpret hcourse
  cases hcourse with
  | unread hread =>
    cases hinterpret
    exact .inl hread
  | unbuilt hread hbuild =>
    cases hinterpret
    exact .inr ⟨_, hread, hbuild⟩
  | failed => cases hinterpret
  | valued => cases hinterpret

/-- A line fails with an error of reading only where its text is not read. -/
theorem ofText_of_interpretLine {error : SyntaxError}
    (hreading : error.isReading = true)
    (hinterpret : (interpretLine line env).1 = .error (.reading error)) :
    Tree.ofText line = .error error := by
  rcases unread_or_unbuilt_of_interpretLine hinterpret with hread | ⟨tree, -, hbuild⟩
  · exact hread
  · rw [Formula.ofTree_error tree hbuild] at hreading
    cases hreading

/-- A value of a line tells the tree that the line was read as. -/
theorem ofText_of_interpretLine_ok {interpretation : Interpretation}
    (hinterpret : (interpretLine line env).1 = .ok interpretation) :
    Tree.ofText line = .ok interpretation.tree := by
  have hcourse := interpreted_interpretLine line env
  generalize interpretLine line env = result at hinterpret hcourse
  cases hcourse with
  | valued hread =>
    cases hinterpret
    exact hread
  | unread => cases hinterpret
  | unbuilt => cases hinterpret
  | failed => cases hinterpret

/-- A line fails in evaluation where its formula does. -/
theorem eval_of_interpretLine {tree : Tree} {formula : Formula} {error : EvaluationError}
    (hread : Tree.ofText line = .ok tree) (hbuild : Formula.ofTree tree = .ok formula)
    (hinterpret : (interpretLine line env).1 = .error (.evaluating error)) :
    (formula.eval env).1 = .error error := by
  rw [interpretLine_of_formula hread hbuild] at hinterpret
  split at hinterpret
  · cases hinterpret
  · rename_i heval
    cases hinterpret
    rw [heval]

/-- No other atom than a symbol names what is undefined. -/
theorem eq_symbol_of_eval {value : Atom} {name : String}
    (heval : (value.formula.eval env).1 = .error (.undefined name)) : value = .symbol name := by
  cases value with
  | symbol other =>
    rw [Atom.formula, Formula.eval] at heval
    split at heval
    · cases heval
    · cases heval
      rfl
  | truth value =>
    rw [Atom.formula, Formula.eval] at heval
    cases heval
  | constant value =>
    rw [Atom.formula] at heval
    split at heval
    · cases heval
    · split at heval <;> cases heval

/-- A symbol and another atom do nothing alike. -/
theorem eq_symbol_of_interpretLine_eq {line' : List Char} {name : String} {value : Atom}
    (hread : Tree.ofText line = .ok (.atom (.symbol name)))
    (hread' : Tree.ofText line' = .ok (.atom value))
    (halike : interpretLine line env = interpretLine line' env) : value = .symbol name := by
  have hinterpret := interpretLine_of_symbol hread env
  rw [halike] at hinterpret
  cases hget : env.get? name with
  | some found =>
    rw [hget] at hinterpret
    have htree := ofText_of_interpretLine_ok (congrArg Prod.fst hinterpret)
    rw [hread'] at htree
    cases htree
    rfl
  | none =>
    rw [hget] at hinterpret
    have heval := eval_of_interpretLine hread' (Formula.ofTree_atom value)
      (congrArg Prod.fst hinterpret)
    exact eq_symbol_of_eval heval

end Lines

end PrefixLogic
