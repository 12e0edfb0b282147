import PrefixLogic.Output

namespace PrefixLogic

namespace Output

/-- The text that some outputs write, one after the other, to the stream that `write`
    picks. -/
def joined (write : Output → String) (outputs : List Output) : String :=
  String.join (outputs.map write)

variable {write : Output → String}

@[simp] theorem joined_nil : joined write [] = "" :=
  String.join_nil

@[simp] theorem joined_cons (output : Output) (outputs : List Output) :
    joined write (output :: outputs) = write output ++ joined write outputs :=
  String.join_cons

theorem joined_append (first second : List Output) :
    joined write (first ++ second) = joined write first ++ joined write second := by
  rw [joined, List.map_append, String.join_append, joined, joined]

theorem joined_flatMap {α : Type} (outputs : α → List Output) (items : List α) :
    joined write (items.flatMap outputs) = String.join (items.map (joined write ∘ outputs)) := by
  induction items with
  | nil => rfl
  | cons item rest ih =>
    rw [List.flatMap_cons, joined_append, ih, List.map_cons, String.join_cons, Function.comp]

def isReport : Output → Bool
  | .report _ => true
  | _ => false

end Output

/-- A text that is made of whole lines. -/
def WholeLines (text : String) : Prop :=
  text = "" ∨ ∃ front, text = front ++ "\n"

theorem WholeLines.append {first second : String} (hfirst : WholeLines first)
    (hsecond : WholeLines second) : WholeLines (first ++ second) := by
  rcases hsecond with rfl | ⟨front, rfl⟩
  · rwa [String.append_empty]
  · exact .inr ⟨first ++ front, String.append_assoc.symm⟩

theorem WholeLines.join {texts : List String} (htexts : ∀ text ∈ texts, WholeLines text) :
    WholeLines (String.join texts) := by
  induction texts with
  | nil => exact .inl String.join_nil
  | cons text rest ih =>
    rw [List.forall_mem_cons] at htexts
    rw [String.join_cons]
    exact htexts.1.append (ih htexts.2)

namespace Interpretation

variable (interpretation : Interpretation) (display : Display)

theorem eq_report_of_mem_reports {output : Output}
    (houtput : output ∈ interpretation.reports display) : ∃ line, output = .report line := by
  obtain ⟨tree, formula⟩ := display
  cases tree <;> cases formula <;> simp [reports] at houtput <;> grind

end Interpretation

end PrefixLogic
