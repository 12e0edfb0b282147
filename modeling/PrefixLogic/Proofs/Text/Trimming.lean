import PrefixLogic.Text.Blank

namespace PrefixLogic.Text

/-- The spaces that a text starts with. -/
def leading (text : List Char) : List Char :=
  text.takeWhile isSpace

/-- The spaces that a text ends in. -/
def trailing (text : List Char) : List Char :=
  (text.reverse.takeWhile isSpace).reverse

theorem isSpace_of_mem_trailing {text : List Char} {c : Char} (hc : c ∈ trailing text) :
    isSpace c = true := by
  rw [trailing, List.mem_reverse] at hc
  exact List.all_eq_true.mp List.all_takeWhile c hc

theorem mem_of_mem_trailing {text : List Char} {c : Char} (hc : c ∈ trailing text) : c ∈ text := by
  rw [trailing, List.mem_reverse] at hc
  exact List.mem_reverse.mp (List.takeWhile_subset isSpace hc)

theorem isBlank_eq_false {c : Char} (hspace : isSpace c = false) : isBlank c = false := by
  cases hblank : isBlank c with
  | false => rfl
  | true =>
    rw [isSpace_of_isBlank hblank] at hspace
    cases hspace

theorem trimEnd_eq_nil {text : List Char} (hspaces : ∀ c ∈ text, isSpace c = true) :
    trimEnd text = [] := by
  induction text with
  | nil => rfl
  | cons c rest ih =>
    have hrest : trimEnd rest = [] := ih fun d hd => hspaces d (List.mem_cons_of_mem c hd)
    simp [trimEnd, hrest, hspaces c List.mem_cons_self]

theorem trimEnd_append {spaces : List Char} (hspaces : ∀ c ∈ spaces, isSpace c = true)
    (text : List Char) : trimEnd (text ++ spaces) = trimEnd text := by
  induction text with
  | nil => exact trimEnd_eq_nil hspaces
  | cons c rest ih => rw [List.cons_append, trimEnd, trimEnd, ih]

/-- Trimming twice is trimming once. -/
theorem trimEnd_trimEnd (text : List Char) : trimEnd (trimEnd text) = trimEnd text := by
  obtain ⟨spaces, htext, hspaces⟩ := exists_trimEnd_append text
  have hkept := trimEnd_append hspaces (trimEnd text)
  rw [htext] at hkept
  exact hkept.symm

/-- A text that starts with a character other than a space keeps it. -/
theorem trimEnd_cons {c : Char} (hc : isSpace c = false) (rest : List Char) :
    trimEnd (c :: rest) = c :: trimEnd rest := by
  rw [trimEnd]
  split
  · rename_i hkept
    simp [hc, hkept]
  · rfl

theorem trimEnd_eq_self {text : List Char} (hnone : ∀ c ∈ text, isSpace c = false) :
    trimEnd text = text := by
  induction text with
  | nil => rfl
  | cons c rest ih =>
    rw [List.forall_mem_cons] at hnone
    rw [trimEnd_cons hnone.1, ih hnone.2]

theorem exists_trimEnd_cons {c : Char} {rest : List Char} (hne : trimEnd (c :: rest) ≠ []) :
    ∃ kept, trimEnd (c :: rest) = c :: kept := by
  rw [trimEnd] at hne ⊢
  split
  · rename_i hkept
    rw [hkept] at hne
    by_cases hc : isSpace c = true
    · simp [hc] at hne
    · exact ⟨[], by simp [hc]⟩
  · exact ⟨_, rfl⟩

/-- What stands behind the last character that is no space is all that trimming
    takes away at the end. -/
theorem trailing_append {text spaces : List Char} (hne : text ≠ [])
    (hlast : isSpace (text.getLast hne) = false) (hspaces : ∀ c ∈ spaces, isSpace c = true) :
    trailing (text ++ spaces) = spaces := by
  have hreversed : ∀ c ∈ spaces.reverse, isSpace c = true := by
    intro c hc
    exact hspaces c (List.mem_reverse.mp hc)
  have hstop : text.reverse.takeWhile isSpace = [] := by
    obtain ⟨front, hfront⟩ : ∃ front, text = front ++ [text.getLast hne] :=
      ⟨_, (List.dropLast_concat_getLast hne).symm⟩
    rw [hfront, List.reverse_append, List.reverse_singleton, List.singleton_append,
      List.takeWhile_cons_of_neg (by simp [hlast])]
  rw [trailing, List.reverse_append, List.takeWhile_append_of_pos hreversed, hstop,
    List.append_nil, List.reverse_reverse]

/-- A text is all spaces, or it is what trimming leaves of it between the spaces
    at its ends. -/
theorem trim_cases (text : List Char) :
    (trim text = [] ∧ leading text = text) ∨
    ∃ c rest, trim text = c :: rest ∧ isSpace c = false ∧
      text.dropWhile isSpace = trim text ++ trailing text := by
  have hsplit : leading text ++ text.dropWhile isSpace = text := List.takeWhile_append_dropWhile
  cases hbody : text.dropWhile isSpace with
  | nil =>
    rw [hbody, List.append_nil] at hsplit
    exact .inl ⟨by rw [trim, hbody, trimEnd], hsplit⟩
  | cons c body =>
    have hc : isSpace c = false := by
      have hhead := List.head?_dropWhile_not isSpace text
      simpa [hbody] using hhead
    have htrim : trim text = c :: trimEnd body := by rw [trim, hbody, trimEnd_cons hc]
    obtain ⟨spaces, hspaces, hall⟩ := exists_trimEnd_append (c :: body)
    have hne : trimEnd (c :: body) ≠ [] := by simp [trimEnd_cons hc]
    have htrailing : trailing text = spaces := by
      rw [← hsplit, hbody, ← hspaces, ← List.append_assoc]
      refine trailing_append (by simp [hne]) ?_ hall
      rw [List.getLast_append_of_ne_nil _ hne]
      exact getLast_trimEnd (c :: body) hne
    refine .inr ⟨c, trimEnd body, htrim, hc, ?_⟩
    rw [htrailing, htrim, ← trimEnd_cons hc, hspaces]

theorem leading_trim (text : List Char) : leading (trim text) = [] := by
  rcases trim_cases text with ⟨htrim, -⟩ | ⟨c, rest, htrim, hc, -⟩
  · rw [htrim]
    rfl
  · rw [htrim, leading, List.takeWhile_cons_of_neg (by simp [hc])]

theorem trim_trim (text : List Char) : trim (trim text) = trim text := by
  rcases trim_cases text with ⟨htrim, -⟩ | ⟨c, rest, htrim, hc, -⟩
  · rw [htrim]
    rfl
  · have hdrop : (trim text).dropWhile isSpace = trim text := by
      rw [htrim, List.dropWhile_cons_of_neg (by simp [hc])]
    rw [trim.eq_def (trim text), hdrop, trim, trimEnd_trimEnd]

/-- Where a text starts with no other spaces than blanks, dropping the blanks drops
    all of them. -/
theorem dropWhile_isBlank_of_leading {text : List Char}
    (hleading : ∀ c ∈ leading text, isBlank c = true) :
    text.dropWhile isBlank = text.dropWhile isSpace := by
  induction text with
  | nil => rfl
  | cons c rest ih =>
    cases hspace : isSpace c with
    | true =>
      rw [leading, List.takeWhile_cons_of_pos hspace] at hleading
      have hblank := hleading c List.mem_cons_self
      rw [List.dropWhile_cons_of_pos hblank, List.dropWhile_cons_of_pos hspace]
      exact ih fun d hd => hleading d (List.mem_cons_of_mem c hd)
    | false =>
      have hblank := isBlank_eq_false hspace
      rw [List.dropWhile_cons_of_neg (by simp [hblank]),
        List.dropWhile_cons_of_neg (by simp [hspace])]

/-- Otherwise what is left starts with a space that is no blank. -/
theorem exists_dropWhile_isBlank {text : List Char}
    (hleading : ¬ ∀ c ∈ leading text, isBlank c = true) :
    ∃ c rest, text.dropWhile isBlank = c :: rest ∧ isSpace c = true ∧ isBlank c = false := by
  induction text with
  | nil => exact absurd (by simp [leading]) hleading
  | cons c rest ih =>
    cases hspace : isSpace c with
    | false =>
      rw [leading, List.takeWhile_cons_of_neg (by simp [hspace])] at hleading
      exact absurd (by simp) hleading
    | true =>
      cases hblank : isBlank c with
      | false => exact ⟨c, rest, List.dropWhile_cons_of_neg (by simp [hblank]), hspace, hblank⟩
      | true =>
        rw [List.dropWhile_cons_of_pos hblank]
        rw [leading, List.takeWhile_cons_of_pos hspace] at hleading
        apply ih
        intro hrest
        apply hleading
        intro d hd
        rcases List.mem_cons.mp hd with rfl | hd
        · exact hblank
        · exact hrest d hd

theorem count_trimEnd {c : Char} (hspace : isSpace c = false) (text : List Char) :
    (trimEnd text).count c = text.count c := by
  obtain ⟨spaces, htext, hspaces⟩ := exists_trimEnd_append text
  have hnone : spaces.count c = 0 := by
    rw [List.count_eq_zero]
    intro hmem
    rw [hspaces c hmem] at hspace
    cases hspace
  have hcount := congrArg (List.count c) htext
  rw [List.count_append, hnone] at hcount
  exact hcount

theorem count_dropWhile {p : Char → Bool} {c : Char} (hc : p c = false) (text : List Char) :
    (text.dropWhile p).count c = text.count c := by
  induction text with
  | nil => rfl
  | cons d rest ih =>
    rw [List.dropWhile_cons]
    split
    · rename_i hd
      have hne : d ≠ c := by
        rintro rfl
        rw [hd] at hc
        cases hc
      rw [ih, List.count_cons_of_ne hne]
    · rfl

theorem count_trim {c : Char} (hc : isSpace c = false) (text : List Char) :
    (trim text).count c = text.count c := by
  rw [trim, count_trimEnd hc, count_dropWhile hc]

/-- Whether the spaces at the ends of a text are all blanks, which separate
    tokens, and not spaces that belong to operators. -/
structure BlankEnds (text : List Char) : Prop where
  start : ∀ c ∈ leading text, isBlank c = true
  stop : ∀ c ∈ trailing text, isBlank c = true

end PrefixLogic.Text
