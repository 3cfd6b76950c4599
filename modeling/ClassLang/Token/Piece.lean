import ClassLang.Error
import ClassLang.Text.Blank
import ClassLang.Token
import ClassLang.Token.Quoted

/-!
# Cutting source text into pieces

Lexing first cuts the source, front to back, into pieces: white space, comments,
words, numbers, string literals, marks, and text that is none of these.  No
character is lost: the pieces, put together, are the source
(`flatMap_text_pieces`).  What a piece means (a token, an error or nothing)
depends only on the piece and on the position where it starts.
-/

namespace ClassLang

/-- What a piece of source text is. -/
inductive PieceKind
  | blank
  | comment
  /-- A comment that the source ends inside of. -/
  | openComment
  | word
  | number
  | string
  /-- A string literal that its line, or the source, ends inside of. -/
  | openString
  /-- A string literal with an unknown escape: the text in front of the
  backslash, and the character after it. -/
  | badEscape (front : List Char) (char : Char)
  | mark (mark : Mark)
  /-- A character that no token starts with. -/
  | stray (char : Char)
  deriving DecidableEq, Repr, Inhabited

/-- A piece of source text. -/
structure Piece where
  kind : PieceKind
  text : List Char
  deriving DecidableEq, Repr, Inhabited

/-- Whether a word may start with the character. -/
def isWordStart (c : Char) : Bool := c.isAlpha || c == '_'

/-- Whether a word may go on with the character. -/
def isWordPart (c : Char) : Bool := c.isAlphanum || c == '_'

namespace Mark

/-- Every mark, longer ones first. -/
def all : List Mark :=
  [.ellipsis, .ampAmp, .pipePipe, .equalEqual, .bangEqual, .lessEqual, .greaterEqual,
    .plus, .minus, .star, .slash, .amp, .pipe, .caret, .equal, .less, .greater,
    .leftParen, .rightParen, .leftBrace, .rightBrace, .semicolon, .comma, .dot]

/-- The longest mark that the text starts with. -/
def first? (text : List Char) : Option Mark :=
  all.find? fun mark => mark.text.toList.isPrefixOf text

end Mark

namespace Piece

/-- The piece with more text in front. -/
def extend (front : List Char) (piece : Piece) : Piece :=
  match piece.kind with
  | .badEscape before c => ⟨.badEscape (front ++ before) c, front ++ piece.text⟩
  | kind => ⟨kind, front ++ piece.text⟩

/-- The text of an extended piece. -/
@[simp] theorem text_extend (front : List Char) (piece : Piece) :
    (piece.extend front).text = front ++ piece.text := by
  unfold extend; split <;> rfl

/-- The longest piece of characters of one class, and the rest. -/
def cutWhile (kind : PieceKind) (belongs : Char → Bool) (text : List Char) :
    Piece × List Char :=
  (⟨kind, text.takeWhile belongs⟩, text.dropWhile belongs)

/-- Cuts a comment after its opening `/*`: it ends with the first `*/`. -/
def cutComment : List Char → Piece × List Char
  | [] => (⟨.openComment, []⟩, [])
  | '*' :: '/' :: rest => (⟨.comment, ['*', '/']⟩, rest)
  | c :: rest =>
    let (piece, left) := cutComment rest
    (piece.extend [c], left)

/-- Cuts a string literal after an unknown escape: the rest of it, up to the next
quote or the end of the line, belongs to it. -/
def cutBadEscape (c : Char) (text : List Char) : Piece × List Char :=
  let inLiteral := fun d : Char => d != '"' && d != '\n'
  let skipped := text.takeWhile inLiteral
  match text.dropWhile inLiteral with
  | '"' :: rest => (⟨.badEscape [] c, '\\' :: c :: (skipped ++ ['"'])⟩, rest)
  | rest => (⟨.badEscape [] c, '\\' :: c :: skipped⟩, rest)

/-- Cuts a string literal after its opening quote. -/
def cutString : List Char → Piece × List Char
  | [] => (⟨.openString, []⟩, [])
  | '\n' :: rest => (⟨.openString, []⟩, '\n' :: rest)
  | '"' :: rest => (⟨.string, ['"']⟩, rest)
  | ['\\'] => (⟨.openString, ['\\']⟩, [])
  | '\\' :: c :: rest =>
    if Quoted.isEscapable c then
      let (piece, left) := cutString rest
      (piece.extend ['\\', c], left)
    else cutBadEscape c rest
  | c :: rest =>
    let (piece, left) := cutString rest
    (piece.extend [c], left)

/-- Cuts the first piece off a text that starts with `c`. -/
def cut (c : Char) (rest : List Char) : Piece × List Char :=
  if Text.isBlank c then cutWhile .blank Text.isBlank (c :: rest)
  else if c == '/' && rest.head? == some '/' then
    cutWhile .comment (· != '\n') (c :: rest)
  else if c == '/' && rest.head? == some '*' then
    let (piece, left) := cutComment rest.tail
    (piece.extend ['/', '*'], left)
  else if c == '"' then
    let (piece, left) := cutString rest
    (piece.extend ['"'], left)
  else if c.isDigit then cutWhile .number Char.isDigit (c :: rest)
  else if isWordStart c then cutWhile .word isWordPart (c :: rest)
  else
    match Mark.first? (c :: rest) with
    | some mark => (⟨.mark mark, mark.text.toList⟩, (c :: rest).drop mark.text.length)
    | none => (⟨.stray c, [c]⟩, rest)

/-- The pieces of a text, at most `fuel` of them. -/
def cutAll : Nat → List Char → List Piece
  | 0, _ => []
  | _, [] => []
  | fuel + 1, c :: rest =>
    let (piece, left) := cut c rest
    piece :: cutAll fuel left

/-- The pieces of a source text.  Every piece has a character of its own, so
there are at most as many as the text has characters. -/
def pieces (text : List Char) : List Piece := cutAll text.length text

/-- A comment keeps every character. -/
theorem cutComment_append (text : List Char) :
    (cutComment text).1.text ++ (cutComment text).2 = text := by
  fun_induction cutComment text with
  | case1 => rfl
  | case2 rest => rfl
  | case3 c rest _ piece left eq ih => simpa [eq] using ih

/-- A literal with an unknown escape keeps every character. -/
theorem cutBadEscape_append (c : Char) (text : List Char) :
    (cutBadEscape c text).1.text ++ (cutBadEscape c text).2 = '\\' :: c :: text := by
  have whole := List.takeWhile_append_dropWhile (p := fun d : Char => d != '"' && d != '\n')
    (l := text)
  unfold cutBadEscape
  dsimp only
  split
  · next rest eq => rw [eq] at whole; simpa using whole
  · simp

/-- A string literal keeps every character. -/
theorem cutString_append (text : List Char) :
    (cutString text).1.text ++ (cutString text).2 = text := by
  fun_induction cutString text with
  | case1 => rfl
  | case2 => rfl
  | case3 => rfl
  | case4 => rfl
  | case5 c rest _ piece left eq ih => simpa [eq] using ih
  | case6 c rest _ => exact cutBadEscape_append c rest
  | case7 c rest _ _ _ _ piece left eq ih => simpa [eq] using ih

/-- A text that starts with a mark goes on after it. -/
theorem mark_append {text : List Char} {mark : Mark} (h : Mark.first? text = some mark) :
    mark.text.toList ++ text.drop mark.text.length = text := by
  have starts := List.find?_some h
  obtain ⟨rest, rfl⟩ := List.isPrefixOf_iff_prefix.1 starts
  simp [← String.length_toList]

/-- **Nothing is lost.**  A cut splits the text in two. -/
theorem cut_append (c : Char) (rest : List Char) :
    (cut c rest).1.text ++ (cut c rest).2 = c :: rest := by
  unfold cut
  split
  · exact List.takeWhile_append_dropWhile
  split
  · exact List.takeWhile_append_dropWhile
  split
  · next h =>
    obtain ⟨rfl, tail, rfl⟩ : c = '/' ∧ ∃ tail, rest = '*' :: tail := by
      cases rest <;> simp_all
    simpa using cutComment_append tail
  split
  · next h => simpa [beq_iff_eq.1 h] using cutString_append rest
  split
  · exact List.takeWhile_append_dropWhile
  split
  · exact List.takeWhile_append_dropWhile
  split
  · next mark h => exact mark_append h
  · rfl

/-- A piece is not empty. -/
theorem text_cut_ne_nil (c : Char) (rest : List Char) : (cut c rest).1.text ≠ [] := by
  unfold cut
  split
  · next h => simp [cutWhile, h]
  split
  · next h => simp_all [cutWhile]
  split
  · simp
  split
  · simp
  split
  · next h => simp [cutWhile, h]
  split
  · next h =>
    have : isWordPart c = true := by
      simp only [isWordStart, isWordPart, Char.isAlphanum, Bool.or_eq_true] at h ⊢
      exact h.imp_left Or.inl
    simp [cutWhile, this]
  split
  · next mark _ => cases mark <;> simp [Mark.text]
  · simp

/-- Cutting makes the text shorter. -/
theorem length_cut_lt (c : Char) (rest : List Char) :
    (cut c rest).2.length < (c :: rest).length := by
  have whole := congrArg List.length (cut_append c rest)
  have first := List.length_pos_iff.2 (text_cut_ne_nil c rest)
  simp only [List.length_append] at whole
  omega

/-- With enough fuel the whole text is cut. -/
theorem flatMap_text_cutAll {fuel : Nat} {text : List Char} (h : text.length ≤ fuel) :
    (cutAll fuel text).flatMap Piece.text = text := by
  induction fuel generalizing text with
  | zero => simp_all [cutAll]
  | succ fuel ih =>
    cases text with
    | nil => rfl
    | cons c rest =>
      have shorter := length_cut_lt c rest
      have others := ih (show (cut c rest).2.length ≤ fuel by omega)
      simp only [cutAll, List.flatMap_cons, others, cut_append]

/-- **Pieces tile the source.**  Put together, the pieces are the text. -/
theorem flatMap_text_pieces (text : List Char) :
    (pieces text).flatMap Piece.text = text :=
  flatMap_text_cutAll (Nat.le_refl _)

end Piece

/-- A place between two characters of the source.  Lines and columns are counted
without a bound here, and in words of 32 bits by `Cursor`. -/
structure Position where
  line : Nat := 1
  col : Nat := 1
  deriving DecidableEq, Repr, Inhabited

namespace Position

/-- The position after a character: columns count bytes, and a line feed starts
the next line. -/
def step (pos : Position) (c : Char) : Position :=
  if c = '\n' then ⟨pos.line + 1, 1⟩ else ⟨pos.line, pos.col + c.utf8Size⟩

/-- The position after a text. -/
def after (pos : Position) (text : List Char) : Position := text.foldl step pos

end Position

namespace Piece

/-- The kind of token a word is. -/
def wordKind (word : String) : TokenKind :=
  match Keyword.ofWord? word with
  | some k => .keyword k
  | none => .identifier

/-- The token that the piece is, if it is one. -/
def tokenKind? (piece : Piece) : Option TokenKind :=
  match piece.kind with
  | .word => some (wordKind (String.ofList piece.text))
  | .number => some .integer
  | .string => some .string
  | .mark m => some (.mark m)
  | _ => none

/-- The span of a piece that starts at a position. -/
def span (piece : Piece) (pos : Position) : Span :=
  ⟨pos.line, pos.col, Text.byteLength piece.text⟩

/-- The error that the piece is, if it is one, when it starts at a position. -/
def error? (piece : Piece) (pos : Position) : Option LexError :=
  match piece.kind with
  | .openComment => some (.unterminatedComment (.point pos.line pos.col))
  | .openString => some (.unterminatedString (piece.span pos))
  | .badEscape front c =>
    some (.invalidEscape c ⟨pos.line, pos.col + Text.byteLength front, 2⟩)
  | .stray c => some (.unexpectedChar c (piece.span pos))
  | _ => none

/-- The token that the piece is, if it is one, when it starts at a position. -/
def token? (piece : Piece) (pos : Position) : Option Token :=
  piece.tokenKind?.map fun kind => ⟨kind, String.ofList piece.text, piece.span pos⟩

end Piece

end ClassLang
