import Mathlib.Logic.Relation
import PrefixLogic.Proofs.Line.View
import PrefixLogic.Proofs.Text.Lines

namespace PrefixLogic.Script

/-- The blanks that may stand within a line: space, tab, vertical tab, form feed and
    carriage return. -/
def lineBlanks : List Char :=
  [' ', '\t', '\x0b', '\x0c', '\r']

/-- A text behind which a line starts. -/
inductive StartsLine : List Char → Prop where
  | text : StartsLine []
  | feed (front : List Char) : StartsLine (front ++ ['\n'])

/-- A text before which a line ends. The end of a line is a line feed, with a carriage
    return before it or without one. -/
inductive EndsLine : List Char → Prop where
  | text : EndsLine []
  | feed (rest : List Char) : EndsLine ('\n' :: rest)
  | carriage (rest : List Char) : EndsLine ('\r' :: '\n' :: rest)

/-- One change to the layout of a script. A line that is put in has a line end of its
    own, unless it comes to stand last. -/
inductive Edit : List Char → List Char → Prop where
  | carriage (before after : List Char) :
      Edit (before ++ '\n' :: after) (before ++ '\r' :: '\n' :: after)
  | start {before : List Char} {c : Char} (hstart : StartsLine before) (hc : c ∈ lineBlanks)
      (after : List Char) : Edit (before ++ after) (before ++ c :: after)
  | stop {after : List Char} {c : Char} (before : List Char) (hc : c ∈ lineBlanks)
      (hstop : EndsLine after) : Edit (before ++ after) (before ++ c :: after)
  | line {before line : List Char} (hstart : StartsLine before) (hfeed : '\n' ∉ line)
      (hskip : isSkippable line = true) (after : List Char) :
      Edit (before ++ after) (before ++ (line ++ '\n' :: after))
  | last {before line : List Char} (hstart : StartsLine before) (hfeed : '\n' ∉ line)
      (hskip : isSkippable line = true) : Edit before (before ++ line)
  | behind {line : List Char} (before : List Char) (hfeed : '\n' ∉ line)
      (hskip : isSkippable line = true) : Edit before (before ++ '\n' :: line)

/-- What the lines that are interpreted are read by. -/
def codeViews (source : List Char) : List (List Token × List Char) :=
  (codeLines source).map lineView

section Views

variable {line : List Char} {c : Char}

/-- Nothing else of a script has a part in its result. -/
theorem lastValue_congr {lines lines' : List (List Char)}
    (hviews : lines.map lineView = lines'.map lineView) (env : Environment)
    (value : Option Bool) : lastValue lines env value = lastValue lines' env value := by
  induction lines generalizing lines' env value with
  | nil =>
    rw [List.map_nil, eq_comm, List.map_eq_nil_iff] at hviews
    rw [hviews]
  | cons line rest ih =>
    obtain ⟨line', rest', rfl, hline, hrest⟩ := List.map_eq_cons_iff.mp hviews.symm
    rw [lastValue, lastValue, interpretLine_congr hline]
    split
    · rfl
    · exact ih hrest.symm _ _

theorem codeViews_of_not_mem (hfeed : '\n' ∉ line) :
    codeViews line = if isSkippable line then [] else [lineView line] := by
  by_cases hnil : line = []
  · subst hnil
    rfl
  · rw [codeViews, codeLines, Text.lines, Text.splitLines_of_not_mem hnil hfeed, List.filter_cons,
      List.filter_nil]
    cases isSkippable line <;> rfl

theorem codeViews_of_isSkippable (hfeed : '\n' ∉ line) (hskip : isSkippable line = true) :
    codeViews line = [] := by
  rw [codeViews_of_not_mem hfeed, if_pos hskip]

/-- The first line is read as if it stood alone. The carriage return that it may lose
    with its end is a blank. -/
theorem codeViews_line_append (hfeed : '\n' ∉ line) (rest : List Char) :
    codeViews (line ++ '\n' :: rest) = codeViews line ++ codeViews rest := by
  have hret : isSkippable (Text.withoutRet '\r' line) = isSkippable line ∧
      lineView (Text.withoutRet '\r' line) = lineView line := by
    rcases Text.withoutRet_cases '\r' line with hsame | hret
    · rw [hsame]
      exact ⟨rfl, rfl⟩
    · have hskip := isSkippable_concat (c := '\r') rfl (Text.withoutRet '\r' line)
      have hview := lineView_concat (c := '\r') rfl (Text.withoutRet '\r' line)
      rw [← hret] at hskip hview
      exact ⟨hskip.symm, hview.symm⟩
  rw [codeViews_of_not_mem hfeed, codeViews, codeLines, Text.lines,
    Text.splitLines_append_feed hfeed, List.filter_cons, hret.1]
  cases isSkippable line with
  | true => rfl
  | false => exact congrArg (· :: _) hret.2

/-- A line feed cuts a script into two that are read one after the other. -/
theorem codeViews_append_feed (text rest : List Char) :
    codeViews (text ++ '\n' :: rest) = codeViews text ++ codeViews rest := by
  induction text using Text.lines_induction '\n' with
  | last line hfeed => exact codeViews_line_append hfeed rest
  | line line text hfeed ih =>
    rw [List.append_assoc, List.cons_append, codeViews_line_append hfeed,
      codeViews_line_append hfeed, ih, List.append_assoc]

theorem isBlank_of_mem_lineBlanks (hc : c ∈ lineBlanks) : Text.isBlank c = true ∧ c ≠ '\n' := by
  have hall : lineBlanks.all (fun c => Text.isBlank c && c != '\n') = true := by decide
  simpa using List.all_eq_true.mp hall c hc

theorem codeViews_cons (hc : c ∈ lineBlanks) (text : List Char) :
    codeViews (c :: text) = codeViews text := by
  obtain ⟨hblank, hne⟩ := isBlank_of_mem_lineBlanks hc
  have hline : ∀ line, '\n' ∉ line → codeViews (c :: line) = codeViews line := by
    intro line hfeed
    rw [codeViews_of_not_mem (by simp [hne.symm, hfeed]), codeViews_of_not_mem hfeed,
      isSkippable_cons hblank, lineView_cons hblank]
  induction text using Text.lines_induction '\n' with
  | last line hfeed => exact hline line hfeed
  | line line text hfeed _ =>
    rw [← List.cons_append, codeViews_append_feed, codeViews_append_feed, hline line hfeed]

theorem codeViews_concat (hc : c ∈ lineBlanks) (text : List Char) :
    codeViews (text ++ [c]) = codeViews text := by
  obtain ⟨hblank, hne⟩ := isBlank_of_mem_lineBlanks hc
  induction text using Text.lines_induction '\n' with
  | last line hfeed =>
    rw [codeViews_of_not_mem (by simp [hne.symm, hfeed]), codeViews_of_not_mem hfeed,
      isSkippable_concat hblank, lineView_concat hblank]
  | line line text _ ih =>
    rw [List.append_assoc, List.cons_append, codeViews_append_feed, codeViews_append_feed, ih]

theorem codeViews_append_cons (hc : c ∈ lineBlanks) {after : List Char} (hstop : EndsLine after)
    (before : List Char) : codeViews (before ++ c :: after) = codeViews (before ++ after) := by
  have hsplit : ∀ rest, codeViews (before ++ c :: '\n' :: rest) =
      codeViews (before ++ '\n' :: rest) := by
    intro rest
    rw [List.append_cons, codeViews_append_feed, codeViews_append_feed, codeViews_concat hc]
  cases hstop with
  | text => rw [List.append_nil, codeViews_concat hc]
  | feed rest => exact hsplit rest
  | carriage rest =>
    have hret : '\r' ∈ lineBlanks := by decide
    rw [List.append_cons, List.append_cons (before ++ [c]), List.append_cons before '\r',
      codeViews_append_feed, codeViews_append_feed, codeViews_concat hret, codeViews_concat hc,
      codeViews_concat hret]

/-- What starts with a line is read behind what ends with one. -/
theorem codeViews_append {before : List Char} (hstart : StartsLine before) (after : List Char) :
    codeViews (before ++ after) = codeViews before ++ codeViews after := by
  cases hstart with
  | text => rfl
  | feed front =>
    have hfront := codeViews_append_feed front []
    rw [List.append_assoc, List.singleton_append, codeViews_append_feed, hfront, List.append_assoc]
    rfl

theorem codeViews_edit {source source' : List Char} (hedit : Edit source source') :
    codeViews source = codeViews source' := by
  cases hedit with
  | carriage before after => exact (codeViews_append_cons (by decide) (.feed after) before).symm
  | start hstart hc after =>
    rw [codeViews_append hstart, codeViews_append hstart, codeViews_cons hc]
  | stop before hc hstop => exact (codeViews_append_cons hc hstop before).symm
  | line hstart hfeed hskip after =>
    rw [codeViews_append hstart, codeViews_append hstart, codeViews_append_feed,
      codeViews_of_isSkippable hfeed hskip, List.nil_append]
  | last hstart hfeed hskip =>
    rw [codeViews_append hstart, codeViews_of_isSkippable hfeed hskip, List.append_nil]
  | behind before hfeed hskip =>
    rw [codeViews_append_feed, codeViews_of_isSkippable hfeed hskip, List.append_nil]

end Views

/-- However many changes are made to the layout of a script, there and back, its result
    stays the same, be it a value, none at all, or an error with what the error shows. -/
theorem result_eq_of_edits {source source' : List Char}
    (hedits : Relation.EqvGen Edit source source') : result source = result source' := by
  have hviews : codeViews source = codeViews source' := by
    induction hedits with
    | rel source source' hedit => exact codeViews_edit hedit
    | refl source => rfl
    | symm source source' _ ih => exact ih.symm
    | trans source between source' _ _ ihfirst ihrest => exact ihfirst.trans ihrest
  exact lastValue_congr hviews .empty none

/-- A comment is put in front, a line feed gets a carriage return, and a line that is
    refused for its buffer gets blanks around it and loses the line feed behind it. -/
theorem result_eq_of_edits_refused :
    Relation.EqvGen Edit "T\na b\n".toList "; c\nT\r\n\ta b ".toList ∧
    result "T\na b\n".toList = result "; c\nT\r\n\ta b ".toList := by
  have hcomment : Edit "T\na b\n".toList ([] ++ ("; c".toList ++ '\n' :: "T\na b\n".toList)) :=
    .line .text (by decide) (by decide +kernel) "T\na b\n".toList
  have hreturn : Edit "; c\nT\na b\n".toList "; c\nT\r\na b\n".toList :=
    .carriage "; c\nT".toList "a b\n".toList
  have hindent : Edit "; c\nT\r\na b\n".toList "; c\nT\r\n\ta b\n".toList :=
    .start (.feed "; c\nT\r".toList) (by decide) "a b\n".toList
  have hempty : Edit "; c\nT\r\n\ta b".toList ("; c\nT\r\n\ta b".toList ++ '\n' :: []) :=
    .behind "; c\nT\r\n\ta b".toList (by decide) rfl
  have hblank : Edit "; c\nT\r\n\ta b".toList "; c\nT\r\n\ta b ".toList :=
    .stop "; c\nT\r\n\ta b".toList (by decide) .text
  have hedits : Relation.EqvGen Edit "T\na b\n".toList "; c\nT\r\n\ta b ".toList :=
    .trans _ _ _ (.rel _ _ hcomment) <| .trans _ _ _ (.rel _ _ hreturn) <|
      .trans _ _ _ (.rel _ _ hindent) <| .trans _ _ _ (.symm _ _ (.rel _ _ hempty)) <|
        .rel _ _ hblank
  exact ⟨hedits, result_eq_of_edits hedits⟩

end PrefixLogic.Script
