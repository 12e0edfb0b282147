import PrefixLogic.Line
import PrefixLogic.Proofs.Tree.Verdict
import PrefixLogic.Script

namespace PrefixLogic

open Scanner

namespace Text

variable {p : Char → Bool} {c : Char}

/-- A space at the end does not show where the end is trimmed, even if everything before
    it is dropped as well. -/
theorem trimEnd_dropWhile_concat (hp : p c = true) (hspace : isSpace c = true)
    (text : List Char) : trimEnd ((text ++ [c]).dropWhile p) = trimEnd (text.dropWhile p) := by
  rw [List.dropWhile_append]
  split
  · rename_i hnil
    rw [List.isEmpty_iff.mp hnil, List.dropWhile_cons_of_pos hp, List.dropWhile_nil]
  · exact trimEnd_append (by simpa using hspace) _

theorem trim_cons (hspace : isSpace c = true) (text : List Char) :
    trim (c :: text) = trim text := by
  rw [trim, trim, List.dropWhile_cons_of_pos hspace]

theorem trim_concat (hspace : isSpace c = true) (text : List Char) :
    trim (text ++ [c]) = trim text :=
  trimEnd_dropWhile_concat hspace hspace text

end Text

/-- All that a line is read by: its tokens, and the buffer that is judged as a whole. -/
def lineView (line : List Char) : List Token × List Char :=
  (tokens line, (ofText line).remaining)

section View

variable {line line' : List Char}

theorem ofText_congr (hview : lineView line = lineView line') :
    Tree.ofText line = Tree.ofText line' := by
  obtain ⟨hrun, hbuffer⟩ := Prod.mk.inj hview
  have hjudged := judged_readOne line'
  rw [← hrun, ← hbuffer] at hjudged
  exact hjudged.readOne_eq

theorem interpretLine_congr (hview : lineView line = lineView line') (env : Environment) :
    interpretLine line env = interpretLine line' env := by
  rw [interpretLine, interpretLine, ofText_congr hview]

variable {c : Char}

/-- A blank in front separates nothing, and the buffer starts behind it. -/
theorem lineView_cons (hblank : Text.isBlank c = true) (line : List Char) :
    lineView (c :: line) = lineView line := by
  rw [lineView, lineView, tokens_blank hblank, remaining_ofText, remaining_ofText,
    List.dropWhile_cons_of_pos hblank]

/-- A blank at the end separates nothing, and the buffer is trimmed there. -/
theorem lineView_concat (hblank : Text.isBlank c = true) (line : List Char) :
    lineView (line ++ [c]) = lineView line := by
  have htrail : ∀ d ∈ [c], Text.isBlank d = true := by simpa using hblank
  rw [lineView, lineView, tokens_append_isBlank htrail, remaining_ofText, remaining_ofText,
    Text.trimEnd_dropWhile_concat hblank (Text.isSpace_of_isBlank hblank)]

theorem isSkippable_cons (hblank : Text.isBlank c = true) (line : List Char) :
    Script.isSkippable (c :: line) = Script.isSkippable line := by
  rw [Script.isSkippable, Script.isSkippable, Text.trim_cons (Text.isSpace_of_isBlank hblank)]

theorem isSkippable_concat (hblank : Text.isBlank c = true) (line : List Char) :
    Script.isSkippable (line ++ [c]) = Script.isSkippable line := by
  rw [Script.isSkippable, Script.isSkippable, Text.trim_concat (Text.isSpace_of_isBlank hblank)]

end View

end PrefixLogic
