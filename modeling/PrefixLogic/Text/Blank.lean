namespace PrefixLogic.Text

/-- The six characters that separate tokens: space, tab, line feed, vertical
    tab, form feed and carriage return. Every other space of Unicode belongs to
    an operator. -/
def isBlank (c : Char) : Bool :=
  c == ' ' || c == '\t' || c == '\n' || c == '\x0b' || c == '\x0c' || c == '\r'

/-- Unicode's White_Space, the wider class that trimming removes and that the
    shape of a buffer is judged by. -/
def isSpace (c : Char) : Bool :=
  isBlank c || c == '\u0085' || c == '\u00a0' || c == '\u1680' ||
    ('\u2000' ≤ c && c ≤ '\u200a') || c == '\u2028' || c == '\u2029' || c == '\u202f' ||
    c == '\u205f' || c == '\u3000'

theorem isSpace_of_isBlank {c : Char} (hblank : isBlank c = true) : isSpace c = true := by
  simp [isSpace, hblank]

/-- The text without the spaces that it ends in. -/
def trimEnd : List Char → List Char
  | [] => []
  | c :: rest =>
    match trimEnd rest with
    | [] => if isSpace c then [] else [c]
    | kept => c :: kept

/-- The text without the spaces at either end. -/
def trim (text : List Char) : List Char :=
  trimEnd (text.dropWhile isSpace)

/-- Trimming takes away spaces and nothing else. -/
theorem exists_trimEnd_append (text : List Char) :
    ∃ spaces, trimEnd text ++ spaces = text ∧ ∀ c ∈ spaces, isSpace c = true := by
  induction text with
  | nil => exact ⟨[], rfl, by simp⟩
  | cons c rest ih =>
    obtain ⟨spaces, hrest, hspaces⟩ := ih
    rw [trimEnd]
    split
    · rename_i hkept
      rw [hkept, List.nil_append] at hrest
      split
      · rename_i hc
        exact ⟨c :: spaces, by rw [hrest, List.nil_append], by simpa [hc] using hspaces⟩
      · exact ⟨spaces, by rw [hrest, List.singleton_append], hspaces⟩
    · exact ⟨spaces, by rw [List.cons_append, hrest], hspaces⟩

/-- What is left after trimming does not end in a space. -/
theorem getLast_trimEnd (text : List Char) (hne : trimEnd text ≠ []) :
    isSpace ((trimEnd text).getLast hne) = false := by
  induction text with
  | nil => exact absurd rfl hne
  | cons c rest ih =>
    cases hkept : trimEnd rest with
    | nil =>
      by_cases hc : isSpace c = true
      · simp [trimEnd, hkept, hc] at hne
      · simp [trimEnd, hkept, hc]
    | cons d kept =>
      have hlast := ih (by simp [hkept])
      simpa [trimEnd, hkept] using hlast

end PrefixLogic.Text
