import PrefixLogic.Command
import PrefixLogic.Proofs.Line.Interpretation
import PrefixLogic.Proofs.Session.Turns
import PrefixLogic.Proofs.Text.Deletion

namespace PrefixLogic.Session

/-- A turn without a part in the session: its line is blank, or has a syntax error. -/
inductive Turn.Idle (turn : Turn) : Prop where
  | blank (hempty : Text.trim turn.line = [])
  | refused {error : SyntaxError}
      (hline : (interpretLine (Text.trim turn.line) turn.before).1 = .error (.reading error))

/-- How an idle turn is answered: by nothing, or by the error in its line behind what the
    log gets of it. -/
inductive Turn.Passed (log : Log) (turn : Turn) : Prop where
  | blank (hempty : Text.trim turn.line = []) (hanswer : turn.answer = [])
  | refused {error : SyntaxError}
      (hline : (interpretLine (Text.trim turn.line) turn.before).1 = .error (.reading error))
      (hanswer : turn.answer = log.outputs (lineRecords (Text.trim turn.line) turn.before) ++
        [LineError.complaint (.reading error)])

theorem Turn.Passed.filter_isReport {log : Log} {turn : Turn} (hpassed : turn.Passed log) :
    turn.answer.filter Output.isReport = [] := by
  cases hpassed with
  | blank _ hanswer => rw [hanswer]; rfl
  | refused _ hanswer =>
    rw [hanswer, List.filter_append, Log.filter_isReport_outputs]
    rfl

/-- An idle turn leaves the environment as it is. -/
theorem Turn.Idle.passed {log : Log} {display : Display} {turn : Turn} {next : Environment}
    (hidle : turn.Idle)
    (hreply : reply? log display turn.before turn.line = some (turn.answer, next)) :
    turn.Passed log ∧ next = turn.before := by
  obtain ⟨line, before, answer⟩ := turn
  dsimp only at hreply
  cases hidle with
  | blank hempty =>
    cases replied_of_reply? hreply with
    | silent => exact ⟨.blank hempty rfl, rfl⟩
    | reported hne => exact absurd hempty hne
    | complained hne => exact absurd hempty hne
  | refused hrefused =>
    cases replied_of_reply? hreply with
    | silent hempty => exact ⟨.blank hempty rfl, rfl⟩
    | reported _ hline => rw [hline] at hrefused; cases hrefused
    | complained _ hline =>
      -- An evaluation that fails may leave bindings behind, but the line never gets there.
      have hinterpreted := interpreted_interpretLine (Text.trim line) before
      rw [hline] at hinterpreted hrefused
      cases hrefused
      exact ⟨.refused (congrArg Prod.fst hline) rfl, by cases hinterpreted <;> rfl⟩

variable (log : Log) (display : Display) (lines : List (Option (List Char))) (env : Environment)

/-- Without lines that lead to idle turns, the others lead to the same turns as before,
    and the session to the same environment and the same ending. -/
theorem turns_unchosen (chosen : Nat → Bool)
    (hidle : ∀ place, chosen place = true →
      ∃ turn, (turns log display lines env)[place]? = some turn ∧ turn.Idle) :
    turns log display (Text.unchosen chosen lines) env =
        Text.unchosen chosen (turns log display lines env) ∧
      (run log display (Text.unchosen chosen lines) env).env = (run log display lines env).env ∧
      ending (Text.unchosen chosen lines) = ending lines := by
  induction lines, env using session_induction log display generalizing chosen with
  | exhausted env => exact ⟨rfl, rfl, rfl⟩
  | last line rest env hlast =>
    rw [turns_of_isLast hlast] at hidle ⊢
    have hnone : ∀ place, chosen place = false := by
      intro place
      refine Bool.eq_false_iff.mpr fun hplace => ?_
      obtain ⟨turn, hturn, -⟩ := hidle place hplace
      cases hturn
    rw [Text.unchosen_of_none hnone]
    exact ⟨turns_of_isLast hlast rest, rfl, rfl⟩
  | turn line rest env answer next hlast hreply ih =>
    rw [turns_of_reply? hreply] at hidle ⊢
    obtain ⟨hturns, henv, hending⟩ :=
      ih (fun place => chosen (place + 1)) fun place hplace => hidle (place + 1) hplace
    rw [run_of_reply? hreply, ending_of_not_isLast hlast, Text.unchosen, Text.unchosen]
    cases hfirst : chosen 0 with
    | true =>
      -- The first turn goes, and the second starts where the first did.
      obtain ⟨turn, hturn, hturnIdle⟩ := hidle 0 hfirst
      cases hturn
      obtain ⟨-, rfl⟩ := hturnIdle.passed hreply
      exact ⟨hturns, henv, hending⟩
    | false =>
      simp only [Bool.false_eq_true, ↓reduceIte]
      rw [turns_of_reply? hreply, run_of_reply? hreply, ending_of_not_isLast hlast, hturns]
      exact ⟨rfl, henv, hending⟩

/-- Lines without a meaning do not disturb a session. Each line that is read is prompted
    for, the one that ends the session included, and so is the end of the input if it is
    reached. With any number of idle turns taken out of the input, the reports are the same,
    in the same order, and so are the code and the environment at the end; the messages are
    those of the turns that are left, a turn taken out having none but the error in its
    line, and what the log gets of it. -/
theorem run_deleteLines (input : List UInt8) :
    let lines := Command.inputLines input
    let full := run log display lines env
    let spoken := turns log display lines env
    full.transcript.outputs.count .prompt =
        (linesRead lines).length + (if lines.any isLast then 0 else 1) ∧
    ∀ chosen : Nat → Bool,
      (∀ place, chosen place = true → ∃ turn, spoken[place]? = some turn ∧ turn.Idle) →
      let short := run log display (Command.inputLines (Text.deleteLines 10 chosen input)) env
      short.transcript.outputs.filter Output.isReport =
        full.transcript.outputs.filter Output.isReport ∧
      (∃ last, full.transcript.stderr = messages spoken ++ last ∧
        short.transcript.stderr = messages (Text.unchosen chosen spoken) ++ last) ∧
      (∀ place, chosen place = true → ∀ turn ∈ spoken[place]?, turn.Passed log) ∧
      short.transcript.code = full.transcript.code ∧ short.env = full.env := by
  intro lines full spoken
  refine ⟨count_prompt_run log display lines env, fun chosen hidle => ?_⟩
  intro short
  have hlines : Command.inputLines (Text.deleteLines 10 chosen input) =
      Text.unchosen chosen lines := by
    rw [Command.inputLines, Text.splitLines_deleteLines, ← Text.unchosen_map, ← Command.inputLines]
  have hshort : short = run log display (Text.unchosen chosen lines) env :=
    congrArg (run log display · env) hlines
  obtain ⟨hturns, henv, hending⟩ := turns_unchosen log display lines env chosen hidle
  have hpassed : ∀ place, chosen place = true → ∀ turn ∈ spoken[place]?, turn.Passed log := by
    intro place hplace turn hturn
    obtain ⟨other, hother, hotherIdle⟩ := hidle place hplace
    cases hother.symm.trans hturn
    obtain ⟨next, hreply⟩ := exists_reply?_of_mem_turns (List.mem_of_getElem? hother)
    exact (hotherIdle.passed hreply).1
  refine ⟨?_, ⟨(ending lines).stderr, stderr_run log display lines env, ?_⟩, hpassed, ?_, ?_⟩
  · rw [hshort, reports_run, reports_run, hturns]
    exact Text.flatMap_unchosen fun place hplace turn hturn =>
      (hpassed place hplace turn hturn).filter_isReport
  · rw [hshort, stderr_run, hturns, hending]
  · rw [hshort, transcript_run, hending, transcript_run]
  · rw [hshort, henv]

/-- A session of five lines without the second, which does not pair its parentheses, and
    the third, which is blank. -/
theorem run_deleteLines_refused :
    let log : Log := fun _ => none
    let input := "p\n(and\n \nq\nquit\n".toUTF8.data.toList
    let env := Environment.empty.insert "p" true
    let chosen := fun place => place == 1 || place == 2
    let spoken := turns log ⟨false, true⟩ (Command.inputLines input) env
    let full := run log ⟨false, true⟩ (Command.inputLines input) env
    let short := run log ⟨false, true⟩ (Command.inputLines (Text.deleteLines 10 chosen input)) env
    (∀ place, chosen place = true → ∃ turn, spoken[place]? = some turn ∧ turn.Idle) ∧
      full.transcript.outputs.count .prompt = 5 ∧
      short.transcript.outputs.filter Output.isReport =
        full.transcript.outputs.filter Output.isReport ∧
      messages (Text.unchosen chosen spoken) = "Error: Evaluation error: undefined symbol: q\n" ∧
      (∀ place, chosen place = true → ∀ turn ∈ spoken[place]?, turn.Passed log) ∧
      short.transcript.code = full.transcript.code ∧ short.env = full.env := by
  intro log input env chosen spoken full short
  have hunpaired : spoken[1]?.map Turn.line = some ['(', 'a', 'n', 'd'] := by decide +kernel
  have hblank : spoken[2]?.map Turn.line = some [' '] := by decide +kernel
  have hidle : ∀ place, chosen place = true → ∃ turn, spoken[place]? = some turn ∧ turn.Idle := by
    intro place hplace
    simp only [chosen, Bool.or_eq_true, beq_iff_eq] at hplace
    rcases hplace with rfl | rfl
    · obtain ⟨turn, hturn, hline⟩ := Option.map_eq_some_iff.mp hunpaired
      have hread : Tree.ofText (Text.trim turn.line) = .error .unbalanced :=
        ofText_of_count_ne (by rw [hline]; decide)
      have hrefused : (interpretLine (Text.trim turn.line) turn.before).1 =
          .error (.reading .unbalanced) := by
        rw [interpretLine, hread]
      exact ⟨turn, hturn, .refused hrefused⟩
    · obtain ⟨turn, hturn, hline⟩ := Option.map_eq_some_iff.mp hblank
      exact ⟨turn, hturn, .blank (by rw [hline]; rfl)⟩
  have hread : (linesRead (Command.inputLines input)).length +
      (if (Command.inputLines input).any isLast then 0 else 1) = 5 := by
    decide +kernel
  have hmessages : messages (Text.unchosen chosen spoken) =
      "Error: Evaluation error: undefined symbol: q\n" := by
    decide +kernel
  obtain ⟨hprompts, hrest⟩ := run_deleteLines log ⟨false, true⟩ env input
  obtain ⟨hreports, -, hpassed, hcode, henv⟩ := hrest chosen hidle
  exact ⟨hidle, hprompts.trans hread, hreports, hmessages, hpassed, hcode, henv⟩

end PrefixLogic.Session
