import ClassLang.Token.Stream

/-!
# Lexing in words of 32 bits

`lex` counts lines and columns without a bound.  A compiler has a cursor with three
words of 32 bits: the bytes it has passed, its line and its column.  It cuts the
text of a token out of the source between two numbers of bytes, so that in a source
of four gigabytes the sums wrap around and the text is some other one, or cannot be
cut out at all.  `lexWords?` is lexing with such a cursor.
-/

namespace ClassLang

namespace Text

/-- The text behind the first `n` bytes, if a character ends there. -/
def dropBytes? : Nat → List Char → Option (List Char)
  | 0, text => some text
  | _ + 1, [] => none
  | n + 1, c :: rest =>
    if c.utf8Size ≤ n + 1 then dropBytes? (n + 1 - c.utf8Size) rest else none

/-- The first `n` bytes of a text, if a character ends there. -/
def takeBytes? : Nat → List Char → Option (List Char)
  | 0, _ => some []
  | _ + 1, [] => none
  | n + 1, c :: rest =>
    if c.utf8Size ≤ n + 1 then (takeBytes? (n + 1 - c.utf8Size) rest).map (c :: ·) else none

/-- The text between two numbers of bytes, if both are ends of characters and the
first is not behind the second. -/
def slice? (start stop : Nat) (text : List Char) : Option (List Char) :=
  if start ≤ stop then (dropBytes? start text).bind (takeBytes? (stop - start)) else none

end Text

/-- The numbers of a span as words. -/
def Span.inWords (span : Span) : Span :=
  ⟨(UInt32.ofNat span.line).toNat, (UInt32.ofNat span.col).toNat, (UInt32.ofNat span.len).toNat⟩

/-- The place of an error as words. -/
def LexError.inWords : LexError → LexError
  | .unexpectedChar c s => .unexpectedChar c s.inWords
  | .unterminatedString s => .unterminatedString s.inWords
  | .unterminatedComment s => .unterminatedComment s.inWords
  | .invalidEscape c s => .invalidEscape c s.inWords
  | .invalidNumber s detail => .invalidNumber s.inWords detail

/-- Where reading stands, in words: the bytes passed, the line, and the column. -/
structure Cursor where
  offset : UInt32 := 0
  line : UInt32 := 1
  column : UInt32 := 1
  deriving DecidableEq, Repr, Inhabited

namespace Cursor

/-- The cursor behind a character.  Each sum wraps around. -/
def step (cursor : Cursor) (c : Char) : Cursor :=
  let size := UInt32.ofNat c.utf8Size
  if c = '\n' then ⟨cursor.offset + size, cursor.line + 1, 1⟩
  else ⟨cursor.offset + size, cursor.line, cursor.column + size⟩

/-- The cursor behind a text. -/
def after (cursor : Cursor) (text : List Char) : Cursor := text.foldl step cursor

/-- The line and the column as numbers. -/
def position (cursor : Cursor) : Position := ⟨cursor.line.toNat, cursor.column.toNat⟩

/-- A piece between two cursors as a token sees it, with the text that the source
has between the two offsets; a piece that is no token is left as it is. -/
def cut? (source : List Char) (start stop : Cursor) (piece : Piece) : Option Piece :=
  match piece.tokenKind? with
  | none => some piece
  | some _ =>
    (Text.slice? start.offset.toNat stop.offset.toNat source).map fun text => ⟨piece.kind, text⟩

/-- Tokens and errors of pieces that start at a cursor. -/
def read? (source : List Char) (cursor : Cursor) : List Piece → Option Lexed
  | [] => some ⟨[], .endOfSource cursor.position.line cursor.position.col, []⟩
  | piece :: rest => do
    let stop := cursor.after piece.text
    let found ← cut? source cursor stop piece
    let lexed ← read? source stop rest
    return ⟨(found.token? cursor.position).toList ++ lexed.tokens, lexed.eof,
      (piece.error? cursor.position).toList.map LexError.inWords ++ lexed.errors⟩

end Cursor

/-- Lexes a whole source with a cursor in words; nothing if a text cannot be cut
out. -/
def lexWords? (source : String) : Option Lexed :=
  Cursor.read? source.toList {} (Piece.pieces source.toList)

end ClassLang
