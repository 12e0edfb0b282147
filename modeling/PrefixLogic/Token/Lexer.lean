import PrefixLogic.Token.Basic

namespace PrefixLogic

/-- The tokens of a text that begins at a byte offset of its source. Every
    character belongs to a token or is a blank, so there is nothing that cannot
    be split into tokens. -/
def lexFrom (start : Nat) : List Char → List Lexeme
  | [] => []
  | c :: rest =>
    if Text.isBlank c then lexFrom (start + c.utf8Size) rest
    else
      let token := Token.scan c rest
      ⟨token, start⟩ ::
        lexFrom (start + Text.byteLength token.chars) (rest.drop (token.chars.length - 1))
termination_by text => text.length
decreasing_by
  · simp
  · exact Nat.lt_succ_of_le (by rw [List.length_drop]; exact Nat.sub_le _ _)

/-- The tokens of a whole source. -/
def lex (source : List Char) : List Lexeme :=
  lexFrom 0 source

@[simp] theorem lexFrom_nil (start : Nat) : lexFrom start [] = [] := by
  rw [lexFrom]

/-- A blank is skipped. -/
theorem lexFrom_blank {c : Char} (hblank : Text.isBlank c = true) (start : Nat)
    (rest : List Char) : lexFrom start (c :: rest) = lexFrom (start + c.utf8Size) rest := by
  rw [lexFrom, if_pos hblank]

/-- Anything else starts a token, and the text goes on right behind it. -/
theorem lexFrom_token {c : Char} (hblank : Text.isBlank c = false) (start : Nat)
    (rest : List Char) :
    lexFrom start (c :: rest) =
      ⟨Token.scan c rest, start⟩ ::
        lexFrom (start + Text.byteLength (Token.scan c rest).chars)
          ((c :: rest).drop (Token.scan c rest).chars.length) := by
  have hdrop : (c :: rest).drop (Token.scan c rest).chars.length =
      rest.drop ((Token.scan c rest).chars.length - 1) := by
    have hpos := List.length_pos_iff.mpr (Token.chars_scan_ne_nil c rest)
    obtain ⟨count, hcount⟩ := Nat.exists_eq_add_of_lt hpos
    rw [hcount, List.drop_succ_cons, Nat.add_sub_cancel]
  rw [lexFrom, if_neg (by simp [hblank]), hdrop]

end PrefixLogic
