import PrefixLogic.Text.Lines

namespace PrefixLogic.Text

variable {α : Type} [DecidableEq α] {feed ret : α}

/-- A line without the one `ret` that belongs to its end. -/
def withoutRet (ret : α) (line : List α) : List α :=
  if line.getLast? = some ret then line.dropLast else line

theorem withoutRet_cases (ret : α) (line : List α) :
    withoutRet ret line = line ∨ line = withoutRet ret line ++ [ret] := by
  rw [withoutRet]
  split
  · rename_i hlast
    obtain ⟨front, rfl⟩ := List.getLast?_eq_some_iff.mp hlast
    exact .inr (by rw [List.dropLast_concat])
  · exact .inl rfl

/-- A text is one line without an end, or a line, its end and another text. -/
@[elab_as_elim]
theorem lines_induction (feed : α) {motive : List α → Prop}
    (last : ∀ line, feed ∉ line → motive line)
    (line : ∀ line rest, feed ∉ line → motive rest → motive (line ++ feed :: rest))
    (text : List α) : motive text := by
  generalize hlength : text.length = length
  induction length using Nat.strongRecOn generalizing text with
  | ind length ih =>
    by_cases hfeed : feed ∈ text
    · obtain ⟨first, rest, rfl, hfirst⟩ := List.eq_append_cons_of_mem hfeed
      have hshorter : rest.length < length := by
        rw [← hlength, List.length_append, List.length_cons]
        omega
      exact line first rest hfirst (ih _ hshorter rest rfl)
    · exact last text hfeed

theorem splitLines_of_not_mem {line : List α} (hne : line ≠ []) (hfeed : feed ∉ line) :
    splitLines feed ret line = [line] := by
  induction line with
  | nil => exact absurd rfl hne
  | cons x rest ih =>
    rw [List.mem_cons, not_or] at hfeed
    have hhead : rest.head? ≠ some feed := fun hhead => hfeed.2 (List.mem_of_head? hhead)
    rw [splitLines, if_neg (Ne.symm hfeed.1), if_neg fun h => hhead h.2]
    cases rest with
    | nil => rfl
    | cons y rest => rw [ih (List.cons_ne_nil y rest) hfeed.2]

/-- What stands before a line end is a line, less the `ret` right before the end, and
    the lines of what stands behind come next. -/
theorem splitLines_append_feed {line : List α} (hfeed : feed ∉ line) (rest : List α) :
    splitLines feed ret (line ++ feed :: rest) =
      withoutRet ret line :: splitLines feed ret rest := by
  induction line with
  | nil => simp [splitLines, withoutRet]
  | cons x line ih =>
    rw [List.mem_cons, not_or] at hfeed
    have ih := ih hfeed.2
    rw [List.cons_append, splitLines, if_neg (Ne.symm hfeed.1), ih]
    cases line with
    | nil => by_cases hret : x = ret <;> simp [withoutRet, hret]
    | cons y line =>
      have hne : y ≠ feed := by
        rintro rfl
        exact hfeed.2 List.mem_cons_self
      rw [if_neg (by simp [hne])]
      by_cases hret : (y :: line).getLast? = some ret <;> simp_all [withoutRet]

end PrefixLogic.Text
