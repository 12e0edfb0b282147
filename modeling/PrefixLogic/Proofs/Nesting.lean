import PrefixLogic.Token.Scanner

namespace PrefixLogic

section Runs

variable {α : Type} [DecidableEq α]

/-- A run in which parentheses are properly nested: no beginning of it closes
    more than it opens, and all of it closes as many as it opens. -/
structure Nested (opening closing : α) (run : List α) : Prop where
  closing_le : ∀ front, front <+: run → front.count closing ≤ front.count opening
  total : run.count opening = run.count closing

/-- A run that is properly nested behind `depth` parentheses that are still open,
    and closes them too. -/
structure Closes (opening closing : α) (depth : Nat) (run : List α) : Prop where
  closing_le : ∀ front, front <+: run → front.count closing ≤ depth + front.count opening
  total : depth + run.count opening = run.count closing

variable {opening closing : α} {depth : Nat} {run : List α}

theorem closes_zero_iff_nested :
    Closes opening closing 0 run ↔ Nested opening closing run := by
  constructor
  · intro h
    exact ⟨fun front hfront => by simpa using h.closing_le front hfront, by simpa using h.total⟩
  · intro h
    exact ⟨fun front hfront => by simpa using h.closing_le front hfront, by simpa using h.total⟩

theorem closes_nil_iff : Closes opening closing depth ([] : List α) ↔ depth = 0 := by
  constructor
  · intro h
    simpa using h.total
  · rintro rfl
    exact ⟨by simp, by simp⟩

/-- What a first element does to the depth, it does for all that follows. -/
theorem closes_cons_iff {x : α} :
    Closes opening closing depth (x :: run) ↔
      (∀ front, front <+: run →
        (x :: front).count closing ≤ depth + (x :: front).count opening) ∧
      depth + (x :: run).count opening = (x :: run).count closing := by
  constructor
  · intro h
    exact ⟨fun front hfront => h.closing_le (x :: front) (List.cons_prefix_cons.mpr ⟨rfl, hfront⟩),
      h.total⟩
  · rintro ⟨hle, htotal⟩
    refine ⟨fun front hfront => ?_, htotal⟩
    rcases List.prefix_cons_iff.mp hfront with rfl | ⟨rest, rfl, hrest⟩
    · simp
    · exact hle rest hrest

theorem closes_opening_iff (hne : opening ≠ closing) :
    Closes opening closing depth (opening :: run) ↔ Closes opening closing (depth + 1) run := by
  rw [closes_cons_iff]
  simp only [List.count_cons_self, List.count_cons_of_ne hne]
  constructor
  · rintro ⟨hle, htotal⟩
    exact ⟨fun front hfront => by have := hle front hfront; omega, by omega⟩
  · intro h
    exact ⟨fun front hfront => by have := h.closing_le front hfront; omega,
      by have := h.total; omega⟩

theorem not_closes_closing (hne : opening ≠ closing) :
    ¬ Closes opening closing 0 (closing :: run) := by
  intro h
  have hle := h.closing_le [closing] (by simp)
  simp [hne.symm] at hle

theorem closes_closing_iff (hne : opening ≠ closing) :
    Closes opening closing (depth + 1) (closing :: run) ↔ Closes opening closing depth run := by
  rw [closes_cons_iff]
  simp only [List.count_cons_self, List.count_cons_of_ne hne.symm]
  constructor
  · rintro ⟨hle, htotal⟩
    exact ⟨fun front hfront => by have := hle front hfront; omega, by omega⟩
  · intro h
    exact ⟨fun front hfront => by have := h.closing_le front hfront; omega,
      by have := h.total; omega⟩

theorem closes_other_iff {x : α} (hopening : x ≠ opening) (hclosing : x ≠ closing) :
    Closes opening closing depth (x :: run) ↔ Closes opening closing depth run := by
  rw [closes_cons_iff]
  simp only [List.count_cons_of_ne hopening, List.count_cons_of_ne hclosing]
  exact ⟨fun h => ⟨h.1, h.2⟩, fun h => ⟨h.closing_le, h.total⟩⟩

/-- A first run that closes its own depth leaves the rest to close the others. -/
theorem Closes.append_iff (hne : opening ≠ closing) {first rest : List α} {more : Nat}
    (hfirst : Closes opening closing depth first) :
    Closes opening closing (depth + more) (first ++ rest) ↔
      Closes opening closing more rest := by
  induction first generalizing depth with
  | nil => rw [closes_nil_iff.mp hfirst, Nat.zero_add, List.nil_append]
  | cons x first ih =>
    rw [List.cons_append]
    by_cases hopening : x = opening
    · subst hopening
      rw [closes_opening_iff hne] at hfirst ⊢
      rw [Nat.add_right_comm, ih hfirst]
    · by_cases hclosing : x = closing
      · subst hclosing
        cases depth with
        | zero => exact absurd hfirst (not_closes_closing hne)
        | succ depth =>
          rw [closes_closing_iff hne] at hfirst
          rw [Nat.add_right_comm, closes_closing_iff hne, ih hfirst]
      · rw [closes_other_iff hopening hclosing] at hfirst ⊢
        exact ih hfirst

/-- Elements that are no parentheses close nothing. -/
theorem closes_append_iff_of_forall {front rest : List α}
    (hother : ∀ x ∈ front, x ≠ opening ∧ x ≠ closing) :
    Closes opening closing depth (front ++ rest) ↔ Closes opening closing depth rest := by
  induction front with
  | nil => rfl
  | cons x front ih =>
    obtain ⟨hopening, hclosing⟩ := hother x List.mem_cons_self
    rw [List.cons_append, closes_other_iff hopening hclosing]
    exact ih fun y hy => hother y (List.mem_cons_of_mem x hy)

theorem nested_of_forall (hother : ∀ x ∈ run, x ≠ opening ∧ x ≠ closing) :
    Nested opening closing run := by
  rw [← closes_zero_iff_nested, ← List.append_nil run, closes_append_iff_of_forall hother,
    closes_nil_iff]

/-- A run that closes more than it opens reaches the place where it closes the
    last parenthesis that was open before it. -/
theorem exists_split_of_count_lt (hne : opening ≠ closing) (depth : Nat) (run : List α)
    (hcount : depth + run.count opening < run.count closing) :
    ∃ inner rest, run = inner ++ closing :: rest ∧ Closes opening closing depth inner := by
  induction run generalizing depth with
  | nil => simp at hcount
  | cons x run ih =>
    by_cases hopening : x = opening
    · subst hopening
      rw [List.count_cons_self, List.count_cons_of_ne hne] at hcount
      obtain ⟨inner, rest, rfl, hinner⟩ := ih (depth + 1) (by omega)
      exact ⟨x :: inner, rest, rfl, (closes_opening_iff hne).mpr hinner⟩
    · by_cases hclosing : x = closing
      · subst hclosing
        rw [List.count_cons_self, List.count_cons_of_ne hopening] at hcount
        cases depth with
        | zero => exact ⟨[], run, rfl, closes_nil_iff.mpr rfl⟩
        | succ depth =>
          obtain ⟨inner, rest, rfl, hinner⟩ := ih depth (by omega)
          exact ⟨x :: inner, rest, rfl, (closes_closing_iff hne).mpr hinner⟩
      · rw [List.count_cons_of_ne hopening, List.count_cons_of_ne hclosing] at hcount
        obtain ⟨inner, rest, rfl, hinner⟩ := ih depth hcount
        exact ⟨x :: inner, rest, rfl, (closes_other_iff hopening hclosing).mpr hinner⟩

/-- Properly nested groups side by side, and the one around the first of them. -/
theorem nested_group_iff (hne : opening ≠ closing) {inner rest : List α}
    (hinner : Nested opening closing inner) :
    Nested opening closing (opening :: (inner ++ closing :: rest)) ↔
      Nested opening closing rest := by
  have hclosed := closes_zero_iff_nested.mpr hinner
  rw [← closes_zero_iff_nested, closes_opening_iff hne,
    hclosed.append_iff hne, closes_closing_iff hne, closes_zero_iff_nested]

end Runs

end PrefixLogic
