import PrefixLogic.Proofs.Log
import PrefixLogic.Proofs.Output
import PrefixLogic.Session

namespace PrefixLogic.Session

section Replies

variable {log : Log} {display : Display} {env : Environment}

/-- What a reply can be, with the environment behind it. -/
inductive Replied (log : Log) (display : Display) (env : Environment) (line : List Char) :
    List Output × Environment → Prop where
  | silent (hempty : Text.trim line = []) : Replied log display env line ([], env)
  | reported {interpretation : Interpretation} {after : Environment} (hne : Text.trim line ≠ [])
      (hline : interpretLine (Text.trim line) env = (.ok interpretation, after)) :
      Replied log display env line
        (log.outputs (lineRecords (Text.trim line) env) ++ interpretation.reports display, after)
  | complained {error : LineError} {after : Environment} (hne : Text.trim line ≠ [])
      (hline : interpretLine (Text.trim line) env = (.error error, after)) :
      Replied log display env line
        (log.outputs (lineRecords (Text.trim line) env) ++ [error.complaint], after)

theorem replied_of_reply? {line : List Char} {reply : List Output × Environment}
    (hreply : reply? log display env line = some reply) : Replied log display env line reply := by
  rw [reply?] at hreply
  split at hreply
  · cases hreply
  · split at hreply
    · rename_i hempty
      cases hreply
      exact .silent hempty
    · rename_i hne
      split at hreply
      · rename_i hline
        cases hreply
        exact .reported hne hline
      · rename_i hline
        cases hreply
        exact .complained hne hline

theorem reply?_eq_none_iff {line : List Char} :
    reply? log display env line = none ↔ Text.trim line = quit := by
  rw [reply?]
  split
  · simpa
  · rename_i hquit
    split
    · simpa
    · split <;> simpa

/-- The program prompts, and a line never does. -/
theorem prompt_not_mem_reply {line : List Char} {answer : List Output} {next : Environment}
    (hreply : reply? log display env line = some (answer, next)) : Output.prompt ∉ answer := by
  have hlogged : ∀ records, Output.prompt ∉ log.outputs records := by
    intro records hprompt
    obtain ⟨line, hline⟩ := Log.exists_eq_logged hprompt
    cases hline
  cases replied_of_reply? hreply with
  | silent => exact List.not_mem_nil
  | reported =>
    refine List.not_mem_append (hlogged _) fun hprompt => ?_
    obtain ⟨line, hreport⟩ := Interpretation.eq_report_of_mem_reports _ _ hprompt
    cases hreport
  | complained => exact List.not_mem_append (hlogged _) (by simp [LineError.complaint])

end Replies

/-- The lines that end a session: the one that asks for the end, and one that cannot be
    decoded. -/
def isLast : Option (List Char) → Bool
  | none => true
  | some line => Text.trim line == quit

/-- The lines that a session reads, with the one that ends it. -/
def linesRead : List (Option (List Char)) → List (Option (List Char))
  | [] => []
  | line :: rest => if isLast line then [line] else line :: linesRead rest

/-- A session over some lines comes to their end, or to a line that ends it, or answers
    a line and goes on. -/
@[elab_as_elim]
theorem session_induction (log : Log) (display : Display)
    {motive : List (Option (List Char)) → Environment → Prop}
    (exhausted : ∀ env, motive [] env)
    (last : ∀ line rest env, isLast line = true → motive (line :: rest) env)
    (turn : ∀ line rest env answer next, isLast (some line) = false →
      reply? log display env line = some (answer, next) → motive rest next →
      motive (some line :: rest) env)
    (lines : List (Option (List Char))) (env : Environment) : motive lines env := by
  induction lines generalizing env with
  | nil => exact exhausted env
  | cons line rest ih =>
    cases hlast : isLast line with
    | true => exact last line rest env hlast
    | false =>
      cases line with
      | none => cases hlast
      | some line =>
        cases hreply : reply? log display env line with
        | none => simp [isLast, reply?_eq_none_iff.mp hreply] at hlast
        | some reply => exact turn line rest env reply.1 reply.2 hlast hreply (ih reply.2)

/-- A line that is answered, the environment that it is answered in, and the answer. -/
structure Turn where
  line : List Char
  before : Environment
  answer : List Output

/-- The turns of a session. A line that ends it is not answered. -/
def turns (log : Log) (display : Display) : List (Option (List Char)) → Environment → List Turn
  | some line :: rest, env =>
    match reply? log display env line with
    | none => []
    | some (answer, next) => ⟨line, env, answer⟩ :: turns log display rest next
  | _, _ => []

/-- What is written behind the turns, and the code. -/
def ending (lines : List (Option (List Char))) : Transcript :=
  match lines.find? isLast with
  | some none => ⟨[.prompt, undecodable], 1⟩
  | _ => ⟨[.prompt], 0⟩

section Cases

variable {log : Log} {display : Display} {env : Environment} {line : Option (List Char)}
  {text : List Char} {answer : List Output} {next : Environment}

theorem run_of_isLast (hlast : isLast line = true) (rest : List (Option (List Char))) :
    run log display (line :: rest) env = ⟨ending (line :: rest), env⟩ := by
  rw [ending, List.find?_cons_of_pos hlast]
  cases line with
  | none => rfl
  | some text =>
    have hnone : reply? log display env text = none :=
      reply?_eq_none_iff.mpr (by simpa [isLast] using hlast)
    rw [run, Session.next, hnone]

theorem turns_of_isLast (hlast : isLast line = true) (rest : List (Option (List Char))) :
    turns log display (line :: rest) env = [] := by
  cases line with
  | none => rfl
  | some text =>
    have hnone : reply? log display env text = none :=
      reply?_eq_none_iff.mpr (by simpa [isLast] using hlast)
    rw [turns, hnone]

theorem run_of_reply? (hreply : reply? log display env text = some (answer, next))
    (rest : List (Option (List Char))) :
    run log display (some text :: rest) env =
      (run log display rest next).after (.prompt :: answer) := by
  rw [run, Session.next, hreply]

theorem turns_of_reply? (hreply : reply? log display env text = some (answer, next))
    (rest : List (Option (List Char))) :
    turns log display (some text :: rest) env =
      ⟨text, env, answer⟩ :: turns log display rest next := by
  rw [turns, hreply]

theorem ending_of_not_isLast (hlast : isLast line = false) (rest : List (Option (List Char))) :
    ending (line :: rest) = ending rest := by
  rw [ending, List.find?_cons_of_neg (by simp [hlast]), ending]

end Cases

/-- Each turn is a reply to its line, in the environment that its line finds. -/
theorem exists_reply?_of_mem_turns {log : Log} {display : Display}
    {lines : List (Option (List Char))} {env : Environment} {turn : Turn}
    (hturn : turn ∈ turns log display lines env) :
    ∃ next, reply? log display turn.before turn.line = some (turn.answer, next) := by
  induction lines, env using session_induction log display with
  | exhausted env => cases hturn
  | last line rest env hlast => rw [turns_of_isLast hlast] at hturn; cases hturn
  | turn line rest env answer next hlast hreply ih =>
    rw [turns_of_reply? hreply] at hturn
    rcases List.mem_cons.mp hturn with rfl | hrest
    · exact ⟨next, hreply⟩
    · exact ih hrest

section Runs

variable (log : Log) (display : Display) (lines : List (Option (List Char))) (env : Environment)

/-- A session writes a prompt and the answer for each turn, and then its ending. -/
theorem transcript_run :
    (run log display lines env).transcript =
      ⟨(turns log display lines env).flatMap (fun turn => .prompt :: turn.answer) ++
        (ending lines).outputs, (ending lines).code⟩ := by
  induction lines, env using session_induction log display with
  | exhausted env => rfl
  | last line rest env hlast => rw [run_of_isLast hlast, turns_of_isLast hlast]; rfl
  | turn line rest env answer next hlast hreply ih =>
    rw [run_of_reply? hreply, turns_of_reply? hreply, ending_of_not_isLast hlast, Course.after, ih,
      List.flatMap_cons, List.append_assoc]

/-- Each line that is read is prompted for, and so is the end of the input if it is
    reached. -/
theorem count_prompt_run :
    (run log display lines env).transcript.outputs.count .prompt =
      (linesRead lines).length + if lines.any isLast then 0 else 1 := by
  induction lines, env using session_induction log display with
  | exhausted env => rfl
  | last line rest env hlast =>
    rw [run_of_isLast hlast, linesRead, hlast, List.any_cons, hlast, ending,
      List.find?_cons_of_pos hlast]
    cases line <;> rfl
  | turn line rest env answer next hlast hreply ih =>
    rw [run_of_reply? hreply, Course.after, linesRead, hlast, List.any_cons, hlast]
    have hanswer := List.count_eq_zero.mpr (prompt_not_mem_reply hreply)
    simp [ih, hanswer]
    omega

/-- What turns write to the standard error. -/
def messages (turns : List Turn) : String :=
  Output.joined Output.stderr (turns.flatMap Turn.answer)

theorem stderr_run :
    (run log display lines env).transcript.stderr =
      messages (turns log display lines env) ++ (ending lines).stderr := by
  have hprompt : Output.joined Output.stderr ∘ (fun turn : Turn => .prompt :: turn.answer) =
      Output.joined Output.stderr ∘ Turn.answer := by
    funext turn
    simp [Output.stderr]
  change Output.joined Output.stderr (run log display lines env).transcript.outputs = _
  rw [transcript_run, Output.joined_append, Output.joined_flatMap, hprompt,
    ← Output.joined_flatMap, ← messages]
  rfl

theorem reports_run :
    (run log display lines env).transcript.outputs.filter Output.isReport =
      (turns log display lines env).flatMap fun turn => turn.answer.filter Output.isReport := by
  have hending : (ending lines).outputs.filter Output.isReport = [] := by
    rw [ending]
    split <;> rfl
  rw [transcript_run, List.filter_append, hending, List.append_nil, List.filter_flatMap]
  rfl

end Runs

end PrefixLogic.Session
