import PrefixLogic.Proofs.Tree.Verdict

namespace PrefixLogic

open Scanner

/-- The ways in which a whole text can be one expression. -/
inductive Form where
  | nothing
  | piece
  | group
  | compound
deriving DecidableEq

/-- A text reads as a tree in a certain form. A piece has no parenthesis and is
    one item, or several in one symbol. A group takes the text from its first
    token to its last. A compound does not start with a parenthesis, but holds
    some. -/
def Form.Reads (source : List Char) (tree : Tree) : Form → Prop
  | .nothing => tokens source = [] ∧ tree = .empty
  | .piece =>
    (ofText source).remaining ≠ [] ∧
    (∀ c ∈ (ofText source).remaining, Token.isParenthesis c = false) ∧
    (∀ c ∈ (ofText source).remaining, Text.isSpace c = false) ∧
    ¬ (1 < (ofText source).remaining.length ∧
      ∀ c ∈ (ofText source).remaining, Text.isAlphanumeric c = false) ∧
    ((∃ token, tokens source = [token] ∧ tree = .atom (.ofToken token)) ∨
      (tokens source).length ≠ 1 ∧
        tree = .atom (.symbol (String.ofList (ofText source).remaining)))
  | .group =>
    ∃ inner items, tokens source = .opening :: (inner ++ [.closing]) ∧
      Nested .opening .closing inner ∧ Spells inner items ∧ tree = Tree.ungrouped items
  | .compound =>
    (∃ first rest, tokens source = first :: rest ∧ first ≠ .opening ∧ first ≠ .closing) ∧
    (∃ c ∈ (ofText source).remaining, Token.isParenthesis c = true) ∧
    (ofText source).remaining.count '(' = (ofText source).remaining.count ')' ∧
    (∀ c ∈ (ofText source).remaining, Text.isSpace c = false) ∧
    tree = .atom (.symbol (String.ofList (ofText source).remaining))

/-- The only form that a text with the given tokens can have. -/
def Form.ofRun : List Token → Form
  | [] => .nothing
  | .opening :: _ => .group
  | run => if run.all Token.isItem then .piece else .compound

theorem presentable_of_piece {buffer : List Char} (hne : buffer ≠ [])
    (hparen : ∀ c ∈ buffer, Token.isParenthesis c = false)
    (hspace : ∀ c ∈ buffer, Text.isSpace c = false)
    (hglyphs : ¬ (1 < buffer.length ∧ ∀ c ∈ buffer, Text.isAlphanumeric c = false)) :
    Presentable buffer where
  ne_nil := hne
  shaped := Text.isExpressionShaped_iff.mpr (.inr hspace)
  not_glyphs := by
    rw [← Bool.not_eq_true, Text.isGlyphRun_iff]
    rintro ⟨hall, hlength⟩
    exact hglyphs ⟨hlength, fun c hc => (hall c hc).1⟩
  balanced := by
    rw [Text.isBalanced_iff, List.count_eq_zero.mpr, List.count_eq_zero.mpr] <;>
      intro hmem <;> cases hparen _ hmem

namespace Form

variable {source : List Char} {tree : Tree}

/-- A text that has a form reads as the tree that the form gives it. -/
theorem Reads.readOne_eq {form : Form} (hform : form.Reads source tree) :
    (ofText source).readOne.1 = .ok tree := by
  cases form with
  | nothing =>
    obtain ⟨hrun, rfl⟩ := hform
    exact ofText_of_tokens_eq_nil hrun
  | piece =>
    obtain ⟨hne, hparen, hspace, hglyphs, htree⟩ := hform
    have hbuffer := presentable_of_piece hne hparen hspace hglyphs
    have hitems := (forall_isParenthesis_remaining_iff source).mp hparen
    rcases htree with ⟨token, hrun, rfl⟩ | ⟨hlength, rfl⟩
    · have hitem := hitems token (by rw [hrun]; exact List.mem_singleton_self token)
      exact readOne_of_item hbuffer hrun hitem (.inl rfl)
    · cases hrun : tokens source with
      | nil => exact absurd (remaining_eq_nil_of_tokens_eq_nil source hrun) hne
      | cons token rest =>
        have hitem := hitems token (by rw [hrun]; exact List.mem_cons_self)
        have hrest : rest ≠ [] := by
          rintro rfl
          exact hlength (by rw [hrun]; rfl)
        exact readOne_of_compound hbuffer hrun hitem hrest
          (Text.any_isSpace_eq_false_iff.mpr hspace)
  | group =>
    obtain ⟨inner, items, hrun, hinner, hspells, rfl⟩ := hform
    have hnested : Nested .opening .closing (tokens source) := by
      rw [hrun, nested_group_iff Token.opening_ne_closing hinner]
      exact Spells.nil.nested
    have hcount : (ofText source).remaining.count '(' = (ofText source).remaining.count ')' := by
      rw [count_opening_remaining, count_closing_remaining]
      exact hnested.total
    have hopening : '(' ∈ (ofText source).remaining := by
      rw [← List.count_pos_iff, count_opening_remaining, hrun, List.count_cons_self]
      exact Nat.succ_pos _
    exact readOne_of_group (presentable_of_isParenthesis hopening rfl hcount) hrun hspells
  | compound =>
    obtain ⟨⟨first, rest, hrun, hopening, hclosing⟩, ⟨c, hc, hparen⟩, hcount, hspace, rfl⟩ := hform
    have hitem : first.isItem = true := by simp [Token.isItem, hopening, hclosing]
    have hrest : rest ≠ [] := by
      rintro rfl
      have hall := (forall_isParenthesis_remaining_iff source).mpr (by simp [hrun, hitem])
      rw [hall c hc] at hparen
      cases hparen
    exact readOne_of_compound (presentable_of_isParenthesis hc hparen hcount) hrun hitem hrest
      (Text.any_isSpace_eq_false_iff.mpr hspace)

/-- A text that is one group reads as the list of the items in it. -/
theorem ofText_of_group {inner : List Token} {items : List Tree}
    (hrun : tokens source = .opening :: (inner ++ [.closing])) (hspells : Spells inner items) :
    Tree.ofText source = .ok (Tree.ungrouped items) := by
  have hform : Reads source (Tree.ungrouped items) .group :=
    ⟨inner, items, hrun, hspells.nested, hspells, rfl⟩
  exact hform.readOne_eq

theorem Reads.eq_ofRun {form : Form} (hform : form.Reads source tree) :
    form = ofRun (tokens source) := by
  cases form with
  | nothing => rw [hform.1]; rfl
  | group =>
    obtain ⟨inner, items, hrun, -⟩ := hform
    rw [hrun]
    rfl
  | piece =>
    obtain ⟨hne, hparen, -⟩ := hform
    have hitems := (forall_isParenthesis_remaining_iff source).mp hparen
    have hall : (tokens source).all Token.isItem = true := List.all_eq_true.mpr hitems
    rw [ofRun.eq_def]
    split
    · rename_i hrun
      exact absurd (remaining_eq_nil_of_tokens_eq_nil source hrun) hne
    · rename_i hrun
      rw [hrun] at hall
      cases hall
    · rw [if_pos hall]
  | compound =>
    obtain ⟨⟨first, rest, hrun, hopening, hclosing⟩, ⟨c, hc, hparen⟩, -⟩ := hform
    have hall : ¬ (tokens source).all Token.isItem = true := by
      intro hall
      have hnone := (forall_isParenthesis_remaining_iff source).mpr (List.all_eq_true.mp hall)
      rw [hnone c hc] at hparen
      cases hparen
    rw [hrun] at hall ⊢
    rw [ofRun.eq_def]
    split
    · rename_i h
      cases h
    · rename_i h
      exact absurd (List.cons.inj h).1 hopening
    · rw [if_neg hall]

/-- A text that reads as a tree has one of the forms. -/
theorem exists_reads_of_readOne (hread : (ofText source).readOne.1 = .ok tree) :
    ∃ form, Reads source tree form := by
  have hjudged := judged_readOne source
  generalize (ofText source).readOne.1 = result at hread hjudged
  have hglyphs : Presentable (ofText source).remaining →
      (∀ c ∈ (ofText source).remaining, Token.isParenthesis c = false) →
      ¬ (1 < (ofText source).remaining.length ∧
        ∀ c ∈ (ofText source).remaining, Text.isAlphanumeric c = false) := by
    rintro hbuffer hnone ⟨hlength, hall⟩
    have hrun := Text.isGlyphRun_iff.mpr ⟨fun c hc => ⟨hall c hc, hnone c hc⟩, hlength⟩
    rw [hbuffer.not_glyphs] at hrun
    cases hrun
  cases hjudged with
  | blank hbuffer =>
    obtain ⟨hrun, rfl⟩ := settle_eq_ok hread
    exact ⟨.nothing, hrun, rfl⟩
  | malformed => cases hread
  | unbalanced => cases hread
  | group hbuffer hrun hspells =>
    obtain ⟨rfl, rfl⟩ := settle_eq_ok hread
    exact ⟨.group, _, _, hrun, hspells.nested, hspells, rfl⟩
  | closing => cases hread
  | compound hbuffer hrun hitem hrest hspace =>
    cases hread
    by_cases hparen : ∃ c ∈ (ofText source).remaining, Token.isParenthesis c = true
    · exact ⟨.compound,
        ⟨_, _, hrun, Token.ne_opening_of_isItem hitem, Token.ne_closing_of_isItem hitem⟩, hparen,
        Text.isBalanced_iff.mp hbuffer.balanced, hspace, rfl⟩
    · have hnone : ∀ c ∈ (ofText source).remaining, Token.isParenthesis c = false := by
        simpa using hparen
      refine ⟨.piece, hbuffer.ne_nil, hnone, hspace, hglyphs hbuffer hnone, .inr ⟨?_, rfl⟩⟩
      rw [hrun]
      simpa using hrest
  | item hbuffer hrun hitem hrest =>
    obtain ⟨rfl, rfl⟩ := settle_eq_ok hread
    have hnone := (forall_isParenthesis_remaining_iff source).mpr (by simp [hrun, hitem])
    have hspace := isSpace_of_single source hbuffer.shaped hrun hitem
    exact ⟨.piece, hbuffer.ne_nil, hnone, hspace, hglyphs hbuffer hnone, .inl ⟨_, hrun, rfl⟩⟩

/-- Reading one expression succeeds on the texts that have one of the four forms,
    with the tree that the form gives, and no text has two of them. -/
theorem readOne_eq_ok_iff_exists_form (source : List Char) :
    (∀ tree, (ofText source).readOne.1 = .ok tree ↔ ∃ form, Reads source tree form) ∧
    ∀ form form' tree tree', Reads source tree form → Reads source tree' form' → form = form' := by
  refine ⟨fun tree => ⟨exists_reads_of_readOne, ?_⟩, ?_⟩
  · rintro ⟨form, hform⟩
    exact hform.readOne_eq
  · intro form form' tree tree' hform hform'
    rw [Reads.eq_ofRun hform, Reads.eq_ofRun hform']

end Form

end PrefixLogic
