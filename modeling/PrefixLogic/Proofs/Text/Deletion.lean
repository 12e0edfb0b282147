import PrefixLogic.Proofs.Text.Lines

namespace PrefixLogic.Text

section Places

variable {α β : Type}

/-- A list without the elements at the places chosen. -/
def unchosen (chosen : Nat → Bool) : List α → List α
  | [] => []
  | x :: rest =>
    let later := unchosen (fun place => chosen (place + 1)) rest
    if chosen 0 then later else x :: later

theorem unchosen_map (f : α → β) (chosen : Nat → Bool) (items : List α) :
    unchosen chosen (items.map f) = (unchosen chosen items).map f := by
  induction items generalizing chosen with
  | nil => rfl
  | cons x rest ih =>
    rw [List.map_cons, unchosen, unchosen, ih]
    cases chosen 0 <;> rfl

theorem unchosen_of_none {chosen : Nat → Bool} (hnone : ∀ place, chosen place = false)
    (items : List α) : unchosen chosen items = items := by
  induction items generalizing chosen with
  | nil => rfl
  | cons x rest ih =>
    rw [unchosen, ih fun place => hnone (place + 1), hnone 0]
    rfl

/-- What has nothing to contribute can be left out. -/
theorem flatMap_unchosen {f : α → List β} {chosen : Nat → Bool} {items : List α}
    (hnothing : ∀ place, chosen place = true → ∀ x ∈ items[place]?, f x = []) :
    (unchosen chosen items).flatMap f = items.flatMap f := by
  induction items generalizing chosen with
  | nil => rfl
  | cons x rest ih =>
    have ih := ih fun place hplace => hnothing (place + 1) hplace
    rw [unchosen, List.flatMap_cons]
    cases hfirst : chosen 0 with
    | true => rw [if_pos rfl, ih, hnothing 0 hfirst x rfl, List.nil_append]
    | false => rw [if_neg Bool.false_ne_true, List.flatMap_cons, ih]

end Places

section Lines

variable {α : Type} [DecidableEq α] {feed ret : α}

/-- The lines of a text, each with its end. -/
def cutLines (feed : α) : List α → List (List α)
  | [] => []
  | x :: rest =>
    if x = feed then [x] :: cutLines feed rest
    else
      match cutLines feed rest with
      | [] => [[x]]
      | line :: others => (x :: line) :: others

theorem cutLines_of_not_mem {line : List α} (hne : line ≠ []) (hfeed : feed ∉ line) :
    cutLines feed line = [line] := by
  induction line with
  | nil => exact absurd rfl hne
  | cons x rest ih =>
    rw [List.mem_cons, not_or] at hfeed
    rw [cutLines, if_neg (Ne.symm hfeed.1)]
    cases rest with
    | nil => rfl
    | cons y rest => rw [ih (List.cons_ne_nil y rest) hfeed.2]

theorem cutLines_append_feed {line : List α} (hfeed : feed ∉ line) (rest : List α) :
    cutLines feed (line ++ feed :: rest) = (line ++ [feed]) :: cutLines feed rest := by
  induction line with
  | nil => rw [List.nil_append, cutLines, if_pos rfl, List.nil_append]
  | cons x line ih =>
    rw [List.mem_cons, not_or] at hfeed
    rw [List.cons_append, cutLines, if_neg (Ne.symm hfeed.1), ih hfeed.2]
    rfl

/-- A text without the lines at the places chosen, which go with their ends. -/
def deleteLines (feed : α) (chosen : Nat → Bool) (text : List α) : List α :=
  (unchosen chosen (cutLines feed text)).flatten

/-- The lines of what is left are the lines that are left. -/
theorem splitLines_deleteLines (feed ret : α) (chosen : Nat → Bool) (text : List α) :
    splitLines feed ret (deleteLines feed chosen text) =
      unchosen chosen (splitLines feed ret text) := by
  induction text using lines_induction feed generalizing chosen with
  | last line hfeed =>
    by_cases hne : line = []
    · subst hne
      rfl
    · rw [deleteLines, cutLines_of_not_mem hne hfeed, splitLines_of_not_mem hne hfeed, unchosen,
        unchosen]
      cases chosen 0 with
      | true => rfl
      | false =>
        change splitLines feed ret [line].flatten = [line]
        rw [List.flatten_singleton, splitLines_of_not_mem hne hfeed]
  | line line rest hfeed ih =>
    have ih := ih fun place => chosen (place + 1)
    rw [deleteLines] at ih
    rw [deleteLines, cutLines_append_feed hfeed, splitLines_append_feed hfeed, unchosen, unchosen]
    cases chosen 0 with
    | true => exact ih
    | false =>
      rw [if_neg Bool.false_ne_true, if_neg Bool.false_ne_true, List.flatten_cons,
        List.append_assoc, List.singleton_append, splitLines_append_feed hfeed, ih]

end Lines

end PrefixLogic.Text
