import Mathlib.Logic.Relation
import PrefixLogic.Proofs.Token.Remaining
import PrefixLogic.Proofs.Tree.Items

namespace PrefixLogic

/-- The last of the tokens of a text are the tokens of an end of it. -/
theorem exists_rest_of_suffix {start : Nat} {text : List Char} {pending : List Lexeme}
    (hsuffix : pending <:+ lexFrom start text) :
    ∃ before rest, text = before ++ rest ∧
      pending = lexFrom (start + Text.byteLength before) rest := by
  induction text using lex_induction generalizing start with
  | nil =>
    rw [lexFrom_nil, List.suffix_nil] at hsuffix
    exact ⟨[], [], rfl, by rw [hsuffix, lexFrom_nil]⟩
  | blank c rest hblank ih =>
    rw [lexFrom_blank hblank] at hsuffix
    obtain ⟨before, rest, rfl, hpending⟩ := ih hsuffix
    exact ⟨c :: before, rest, rfl, by rw [hpending, Text.byteLength, Nat.add_assoc]⟩
  | token c rest tail hblank hsplit ih =>
    rw [lexFrom_of_split hblank hsplit] at hsuffix
    rcases List.suffix_cons_iff.mp hsuffix with hpending | hsuffix
    · exact ⟨[], c :: rest, rfl, by rw [hpending, ← lexFrom_of_split hblank hsplit]; rfl⟩
    · obtain ⟨before, rest', rfl, hpending⟩ := ih hsuffix
      refine ⟨(Token.scan c rest).chars ++ before, rest', ?_, ?_⟩
      · rw [List.append_assoc, hsplit]
      · rw [hpending, Text.byteLength_append, Nat.add_assoc]

namespace Scanner

/-- A scanner in the middle of its source sees what a fresh one sees of the rest. -/
theorem exists_rest (scanner : Scanner) :
    ∃ rest, scanner.pendingTokens = tokens rest ∧
      scanner.remaining = (ofText rest).remaining := by
  obtain ⟨before, rest, hsource, hpending⟩ := exists_rest_of_suffix scanner.suffix
  rw [Nat.zero_add] at hpending
  refine ⟨rest, ?_, ?_⟩
  · rw [pendingTokens, hpending, map_token_lexFrom]
  · rw [remaining_of_pending before hsource hpending, remaining_ofText]

/-- Of one source, and with no tokens left but some of the last that were left before. -/
structure Consumes (scanner after : Scanner) : Prop where
  source_eq : after.source = scanner.source
  suffix : after.pending <:+ scanner.pending

namespace Consumes

theorem refl (scanner : Scanner) : Consumes scanner scanner :=
  ⟨rfl, List.suffix_refl _⟩

theorem trans {a b c : Scanner} (hfirst : Consumes a b) (hrest : Consumes b c) : Consumes a c :=
  ⟨hrest.source_eq.trans hfirst.source_eq, hrest.suffix.trans hfirst.suffix⟩

end Consumes

theorem consumes_of_next? {scanner after : Scanner} {lexeme : Lexeme}
    (hnext : scanner.next? = some (lexeme, after)) : Consumes scanner after := by
  obtain ⟨hpending, hsource⟩ := next?_eq_some_iff.mp hnext
  exact ⟨hsource, hpending ▸ List.suffix_cons lexeme after.pending⟩

theorem consumes_drain (scanner : Scanner) : Consumes scanner scanner.drain :=
  ⟨rfl, List.nil_suffix⟩

theorem consumes_takeGroup (scanner : Scanner) (opening : Lexeme) :
    Consumes scanner (scanner.takeGroup opening).2 := by
  refine ⟨source_takeGroup scanner opening, ?_⟩
  rw [takeGroup]
  split
  · exact List.nil_suffix
  · rename_i hfind
    exact (List.suffix_cons _ _).trans (suffix_of_findClosing? hfind)

theorem consumes_readItems (scanner : Scanner) : Consumes scanner scanner.readItems.2 := by
  induction hlength : scanner.pending.length using Nat.strongRecOn generalizing scanner with
  | ind n ih =>
    cases hnext : scanner.next? with
    | none =>
      rw [readItems_eq, hnext]
      exact .refl scanner
    | some taken =>
      obtain ⟨lexeme, after⟩ := taken
      have hafter := consumes_of_next? hnext
      have hshorter : after.pending.length < n := by
        rw [← hlength, (next?_eq_some_iff.mp hnext).1, List.length_cons]
        exact Nat.lt_succ_self _
      rw [readItems_eq, hnext]
      dsimp only
      split
      · have htaken := consumes_takeGroup after lexeme
        split
        · rename_i htake
          rw [htake] at htaken
          exact hafter.trans htaken
        · rename_i group behind htake
          rw [htake] at htaken
          have hbehind := hafter.trans htaken
          split
          · exact hbehind
          · have hle := htaken.suffix.length_le
            exact hbehind.trans (ih _ (Nat.lt_of_le_of_lt hle hshorter) behind rfl)
      · exact hafter
      · exact hafter.trans (ih _ hshorter after rfl)

theorem consumes_readExpression (scanner : Scanner) :
    Consumes scanner scanner.readExpression.2 := by
  rw [readExpression]
  split
  · exact .refl scanner
  split
  · exact .refl scanner
  split
  · exact .refl scanner
  split
  · exact .refl scanner
  rename_i lexeme after hnext
  have hafter := consumes_of_next? hnext
  split
  · have htaken := consumes_takeGroup after lexeme
    split <;> rename_i htake <;> rw [htake] at htaken <;> exact hafter.trans htaken
  · exact hafter
  · split
    · exact hafter.trans (consumes_drain after)
    · exact hafter

theorem consumes_rejectTrailing {α : Type} (reading : Reading α) :
    Consumes reading.2 (rejectTrailing reading).2 := by
  obtain ⟨result, scanner⟩ := reading
  cases result with
  | error error => exact .refl scanner
  | ok value =>
    rw [rejectTrailing]
    split
    · exact .refl scanner
    · rename_i hnext
      exact consumes_of_next? hnext

/-- One use of a scanner, whatever comes of it. -/
inductive Step : Scanner → Scanner → Prop
  | next {scanner after : Scanner} {lexeme : Lexeme}
      (hnext : scanner.next? = some (lexeme, after)) : Step scanner after
  | drain (scanner : Scanner) : Step scanner scanner.drain
  | takeGroup (scanner : Scanner) (opening : Lexeme) : Step scanner (scanner.takeGroup opening).2
  | readExpression (scanner : Scanner) : Step scanner scanner.readExpression.2
  | readList (scanner : Scanner) : Step scanner scanner.readList.2
  | readOne (scanner : Scanner) : Step scanner scanner.readOne.2
  | readAll (scanner : Scanner) : Step scanner scanner.readAll.2

theorem Step.consumes {scanner after : Scanner} (hstep : Step scanner after) :
    Consumes scanner after := by
  cases hstep with
  | next hnext => exact consumes_of_next? hnext
  | drain => exact consumes_drain scanner
  | takeGroup opening => exact consumes_takeGroup scanner opening
  | readExpression => exact consumes_readExpression scanner
  | readList => exact consumes_readItems scanner
  | readOne => exact (consumes_readExpression scanner).trans (consumes_rejectTrailing _)
  | readAll => exact (consumes_readItems scanner).trans (consumes_rejectTrailing scanner.readList)

/-- However a scanner is used, it is left with some of the last tokens it had, and
    it can be brought to any number of them. -/
theorem reflTransGen_step_iff {start scanner : Scanner} :
    Relation.ReflTransGen Step start scanner ↔ Consumes start scanner := by
  constructor
  · intro hsteps
    induction hsteps with
    | refl => exact .refl start
    | tail _ hstep ih => exact ih.trans hstep.consumes
  · rintro ⟨hsource, front, hfront⟩
    induction front generalizing start with
    | nil =>
      obtain rfl := eq_of_source_pending hsource hfront
      exact .refl
    | cons lexeme front ih =>
      obtain ⟨after, hnext, hafter, hsame⟩ := exists_next?_of_pending hfront.symm
      exact .head (.next hnext) (ih (hsource.trans hsame.symm) hafter.symm)

/-- The scanners that using a fresh one can lead to are all those of its source. -/
theorem reflTransGen_step_ofText_iff {source : List Char} {scanner : Scanner} :
    Relation.ReflTransGen Step (ofText source) scanner ↔ scanner.source = source := by
  rw [reflTransGen_step_iff]
  constructor
  · exact Consumes.source_eq
  · rintro rfl
    exact ⟨rfl, scanner.suffix⟩

end Scanner

end PrefixLogic
