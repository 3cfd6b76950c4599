import ClassLang.Proofs.Syntax.Words

/-!
# Tokens with other spaces in between

The tokens of a source, written with single spaces in between, are lexed into the same tokens:
`lex_respaced`.  In the source itself they may stand side by side, like a number and the name behind
it, or be kept apart by a comment, and what a token is depends on what follows it.  None of this
matters with a space behind each token, if only the text of a token is always cut off in one piece
in front of a space.  So it is enough to look at a single piece (`Piece.cuts_cut`): its text says
all there is to know about it, wherever it was cut off.
-/

namespace ClassLang

open Quoted

namespace Piece

theorem kind_extend_string {front : List Char} {piece : Piece} :
    (piece.extend front).kind = .string ↔ piece.kind = .string := by
  rw [kind_extend_eq]
  split <;> simp_all

/-- What is cut off as a string literal, behind its opening quote. -/
theorem exists_glyphs_of_cutString {text : List Char} (h : (cutString text).1.kind = .string) :
    ∃ glyphs, Known glyphs ∧ (cutString text).1.text = written glyphs ++ ['"'] := by
  fun_induction cutString text with
  | case1 => cases h
  | case2 => cases h
  | case3 => exact ⟨[], List.forall_mem_nil _, rfl⟩
  | case4 => cases h
  | case5 c rest hescapable piece left eq ih =>
      rw [eq] at ih
      obtain ⟨glyphs, hknown, htext⟩ := ih (kind_extend_string.1 h)
      have hc : c ≠ '\n' := by
        rintro rfl
        exact absurd hescapable (by decide)
      refine ⟨.escape c hc :: glyphs, ?_, ?_⟩
      · exact List.forall_mem_cons.2 ⟨isEscapable_iff.1 hescapable, hknown⟩
      · rw [text_extend, htext]
        rfl
  | case6 c rest _ => simp [kind_cutBadEscape] at h
  | case7 c rest hnewline hquote hlast hmore piece left eq ih =>
      rw [eq] at ih
      obtain ⟨glyphs, hknown, htext⟩ := ih (kind_extend_string.1 h)
      have hc : c ≠ '"' ∧ c ≠ '\\' ∧ c ≠ '\n' :=
        ⟨hquote, ne_backslash hlast hmore, hnewline⟩
      refine ⟨.plain c hc :: glyphs, ?_, ?_⟩
      · exact List.forall_mem_cons.2 ⟨Option.some_ne_none _, hknown⟩
      · rw [text_extend, htext]
        rfl

/-- **A token is cut off again in front of a space.** -/
theorem cuts_cut {c : Char} {rest : List Char} {kind : TokenKind}
    (h : (cut c rest).1.tokenKind? = some kind) :
    (Word.mk kind (String.ofList (cut c rest).1.text)).Cuts := by
  have hword := worded_cut c rest
  revert h hword
  unfold cut
  split
  · rintro ⟨⟩
  split
  · rintro ⟨⟩
  split
  · intro h
    rcases cutComment_cases rest.tail with hopen | ⟨body, -, hcomment⟩
    · simp [tokenKind?, kind_extend_eq, hopen] at h
    · simp [tokenKind?, kind_extend_eq, hcomment] at h
  split
  · intro h _
    rcases kind_cutString_cases rest with hstring | hopen | ⟨before, d, hescape⟩
    · obtain ⟨glyphs, hknown, htext⟩ := exists_glyphs_of_cutString hstring
      obtain rfl : TokenKind.string = kind := by
        simpa [tokenKind?, kind_extend_string.2 hstring] using h
      rw [text_extend, htext]
      exact Word.cuts_literal hknown
    · simp [tokenKind?, kind_extend_eq, hopen] at h
    · simp [tokenKind?, kind_extend_eq, hescape] at h
  split
  · next hdigit =>
      rintro ⟨⟩ -
      refine Word.cuts_integer ?_ ?_
      · simp [cutWhile, hdigit]
      · simp [cutWhile, List.all_takeWhile]
  split
  · rintro ⟨⟩ hword
    exact Word.cuts_of_isName (hword rfl)
  split
  · next mark hmark =>
      rintro ⟨⟩ -
      rw [String.ofList_toList]
      exact Word.cuts_mark mark
  · rintro ⟨⟩

/-- All tokens of a text are. -/
theorem cuts_tokens (pos : Position) (text : List Char) :
    ∀ token ∈ tokens pos (pieces text), token.word.Cuts := by
  induction text using cut_induction generalizing pos with
  | nil => exact nofun
  | cons c rest ih =>
      rw [pieces_cons, tokens]
      intro token htoken
      rcases List.mem_append.1 htoken with hfirst | hrest
      · obtain ⟨kind, hkind, rfl⟩ := Option.map_eq_some_iff.1 (Option.mem_toList.1 hfirst)
        exact cuts_cut hkind
      · exact ih _ token hrest

end Piece

/-- The lexemes of the tokens, with a blank between each two. -/
def Lexed.spaced (lexed : Lexed) : String := " ".intercalate (lexed.tokens.map Token.lexeme)

/-- **Tokens are lexed again as they are**, with single spaces in between. -/
theorem lex_respaced (source : String) :
    (lex (lex source).spaced).tokens.map Token.word = (lex source).tokens.map Token.word ∧
      (lex (lex source).spaced).errors = [] := by
  have hcuts : ∀ w ∈ (lex source).tokens.map Token.word, w.Cuts := by
    rw [List.forall_mem_map]
    exact Piece.cuts_tokens {} source.toList
  have hspaced : Word.spaced ((lex source).tokens.map Token.word) = (lex source).spaced := by
    rw [Word.spaced, List.map_map]
    rfl
  obtain ⟨htokens, herrors, -⟩ := Word.lex_spaced hcuts
  rw [hspaced] at htokens herrors
  exact ⟨htokens, herrors⟩

-- A comment is left out, and a number stays apart from the name behind it.
example : (lex "1x..y/*z*/<=a").spaced = "1 x . . y <= a" ∧
    (lex "1 x . . y <= a").tokens.map Token.word =
      (lex "1x..y/*z*/<=a").tokens.map Token.word := by
  decide +kernel

end ClassLang
