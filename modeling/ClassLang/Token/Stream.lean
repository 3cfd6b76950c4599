import ClassLang.Token.Piece

/-!
# Token streams

A token stream hands out the tokens of a source one by one, with any amount of
lookahead.  It reads no further than it is asked to: errors show up when the text
they stand in is passed.  `lex` reads a whole source at once.
-/

namespace ClassLang

/-- What reading up to the next token gives. -/
structure Scanned where
  token : Token
  /-- Errors in the text passed on the way, in order. -/
  errors : List LexError
  /-- The position after the token. -/
  position : Position
  /-- The pieces after the token. -/
  rest : List Piece
  deriving Repr, Inhabited

namespace Piece

/-- Reads up to the next token; past the last piece that is the end of the
source. -/
def scan (pos : Position) : List Piece → Scanned
  | [] => ⟨.endOfSource pos.line pos.col, [], pos, []⟩
  | piece :: rest =>
    let next := pos.after piece.text
    match piece.token? pos with
    | some token => ⟨token, [], next, rest⟩
    | none =>
      let scanned := scan next rest
      { scanned with errors := (piece.error? pos).toList ++ scanned.errors }

/-- All tokens of a list of pieces, without the end mark. -/
def tokens (pos : Position) : List Piece → List Token
  | [] => []
  | piece :: rest => (piece.token? pos).toList ++ tokens (pos.after piece.text) rest

/-- All errors of a list of pieces. -/
def errors (pos : Position) : List Piece → List LexError
  | [] => []
  | piece :: rest => (piece.error? pos).toList ++ errors (pos.after piece.text) rest

end Piece

/-- The tokens of a source, without the end mark, the end mark, and the errors
met on the way. -/
structure Lexed where
  tokens : List Token
  eof : Token
  errors : List LexError
  deriving DecidableEq, Repr, Inhabited

/-- Lexes a whole source. -/
def lex (source : String) : Lexed :=
  let pieces := Piece.pieces source.toList
  let stop := Position.after {} source.toList
  ⟨Piece.tokens {} pieces, .endOfSource stop.line stop.col, Piece.errors {} pieces⟩

/-- A source that is being read token by token. -/
structure TokenStream where
  position : Position
  pieces : List Piece
  /-- Tokens read ahead, in order. -/
  lookahead : List Token
  /-- Errors met and not yet taken, in order. -/
  errors : List LexError
  deriving Repr, Inhabited

namespace TokenStream

/-- The stream at the start of a source. -/
def ofSource (source : String) : TokenStream :=
  ⟨{}, Piece.pieces source.toList, [], []⟩

/-- Reads one more token from the source. -/
def read (stream : TokenStream) : Token × TokenStream :=
  let scanned := Piece.scan stream.position stream.pieces
  (scanned.token,
    { stream with
      position := scanned.position
      pieces := scanned.rest
      errors := stream.errors ++ scanned.errors })

/-- Takes the next token. -/
def next (stream : TokenStream) : Token × TokenStream :=
  match stream.lookahead with
  | token :: rest => (token, { stream with lookahead := rest })
  | [] => stream.read

/-- Reads ahead `count` more tokens. -/
def readAhead : Nat → TokenStream → TokenStream
  | 0, stream => stream
  | count + 1, stream =>
    let (token, stream) := stream.read
    readAhead count { stream with lookahead := stream.lookahead ++ [token] }

/-- The token `n` places ahead, `0` being the next one.  Past the end this is the
end mark. -/
def peekNth (n : Nat) (stream : TokenStream) : Token × TokenStream :=
  let stream := readAhead (n + 1 - stream.lookahead.length) stream
  (stream.lookahead.getD n default, stream)

/-- The next token, left in the stream. -/
def peek (stream : TokenStream) : Token × TokenStream := stream.peekNth 0

/-- Takes the errors met so far. -/
def takeErrors (stream : TokenStream) : List LexError × TokenStream :=
  (stream.errors, { stream with errors := [] })

end TokenStream

end ClassLang
