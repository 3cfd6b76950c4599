import ClassLang.Syntax.Tree
import ClassLang.Token.Stream

/-!
# The parser's machinery

A parser reads tokens from the front of a state and either gives a value or fails
with one syntax error; in both cases it hands on the state it reached, so that
reading can go on after an error.  This file holds that notion, the steps on single
tokens, the loops that every list of the grammar is built from, and the two ways
of skipping to a place where reading can go on.
-/

namespace ClassLang

/-- Where a parser stands. -/
structure ParserState where
  /-- The tokens still to be read, without the end mark. -/
  tokens : List Token
  /-- The end mark, which follows the last token. -/
  eof : Token
  /-- The next free node number. -/
  nextId : NodeId
  /-- The errors that parsing went on after, in order. -/
  errors : List SyntaxError
  deriving Repr, Inhabited

namespace ParserState

/-- The state at the start of a lexed source. -/
def ofLexed (lexed : Lexed) : ParserState := ⟨lexed.tokens, lexed.eof, 0, []⟩

/-- The state at the start of a source. -/
def ofSource (source : String) : ParserState := ofLexed (lex source)

/-- The next token. -/
def peek (s : ParserState) : Token := s.tokens.headD s.eof

/-- The token `n` places ahead, `0` being the next one. -/
def peekNth (s : ParserState) (n : Nat) : Token := s.tokens.getD n s.eof

/-- The state behind the next token. -/
def skip (s : ParserState) : ParserState := { s with tokens := s.tokens.tail }

end ParserState

/-- How a parser ends. -/
inductive Parsed (α : Type) where
  | ok (value : α) (rest : ParserState)
  | fail (error : SyntaxError) (rest : ParserState)
  deriving Repr

/-- A parser for values of a type. -/
def Parser (α : Type) : Type := ParserState → Parsed α

namespace Parser

/-- The parser that reads nothing. -/
protected def pure {α : Type} (a : α) : Parser α := fun s => .ok a s

/-- One parser after another; the first error ends both. -/
protected def bind {α β : Type} (p : Parser α) (f : α → Parser β) : Parser β := fun s =>
  match p s with
  | .ok a rest => f a rest
  | .fail error rest => .fail error rest

instance : Monad Parser where
  pure := Parser.pure
  bind := Parser.bind

/-- Fails with an error. -/
def fail {α : Type} (error : SyntaxError) : Parser α := fun s => .fail error s

/-- The next token, left in place. -/
def peek : Parser Token := fun s => .ok s.peek s

/-- Reads a token. -/
def advance : Parser Token := fun s => .ok s.peek s.skip

/-- Whether the next token is of a kind. -/
def check (kind : TokenKind) : Parser Bool := fun s => .ok (s.peek.kind == kind) s

/-- Reads the next token if it is of a kind. -/
def eat (kind : TokenKind) : Parser Bool := fun s =>
  if s.peek.kind = kind then .ok true s.skip else .ok false s

/-- Reads a token of a kind, or says what stands there instead. -/
def expect (kind : TokenKind) : Parser Token := fun s =>
  let token := s.peek
  if token.kind = kind then .ok token s.skip
  else if token.kind = .eof then .fail (.unexpectedEof token.span) s
  else .fail (.expectedToken token.span kind.description token.describe) s

/-- Takes a fresh node number.  Numbers have no bound here; `Script.readWords` counts
them in words of 32 bits. -/
def freshId : Parser NodeId := fun s => .ok s.nextId { s with nextId := s.nextId + 1 }

/-- Notes an error and goes on. -/
def report (error : SyntaxError) : Parser Unit := fun s =>
  .ok () { s with errors := s.errors ++ [error] }

/-- Reads a name. -/
def ident : Parser Ident := fun s =>
  let token := s.peek
  match token.kind with
  | .identifier => .ok ⟨token.lexeme, token.span⟩ s.skip
  | .eof => .fail (.unexpectedEof token.span) s
  | _ => .fail (.expectedIdentifier token.span token.describe) s

/-- A parser that gives up: reading has gone on for longer than there are
tokens. -/
def exhausted {α : Type} : Parser α := fun s => .fail (.unexpectedEof s.eof.span) s

/-- A parser whose depth, or number of rounds, is bounded by the number of tokens
that are left. -/
def bounded {α : Type} (p : Nat → Parser α) : Parser α := fun s =>
  p (s.tokens.length + 1) s

/-- One or more values with commas in between, at most `fuel` of them. -/
def separatedUpTo {α : Type} (p : Parser α) : Nat → Parser (List α)
  | 0 => exhausted
  | fuel + 1 => do
    let first ← p
    if ← eat (.mark .comma) then
      return first :: (← separatedUpTo p fuel)
    else
      return [first]

/-- One or more values with commas in between. -/
def separated {α : Type} (p : Parser α) : Parser (List α) := bounded (separatedUpTo p)

/-- Values up to a token that ends the list, in at most `fuel` rounds. -/
def manyUpTo {α : Type} (stop : TokenKind → Bool) (p : Parser α) : Nat → Parser (List α)
  | 0 => exhausted
  | fuel + 1 => do
    if stop (← peek).kind then
      return []
    else
      let first ← p
      return first :: (← manyUpTo stop p fuel)

/-- Values up to a token that ends the list. -/
def many {α : Type} (stop : TokenKind → Bool) (p : Parser α) : Parser (List α) :=
  bounded (manyUpTo stop p)

/-- Runs a parser and, if it fails, notes the error and runs `skip` from where it
stopped. -/
def attempt {α : Type} (p : Parser α) (skip : Parser Unit) : Parser (Option α) := fun s =>
  match p s with
  | .ok a rest => .ok (some a) rest
  | .fail error rest =>
    match (report error >>= fun _ => skip) rest with
    | .ok _ rest => .ok none rest
    | .fail error rest => .fail error rest

/-- Values up to a token that ends the list, in at most `fuel` rounds; a value
that cannot be read is left out. -/
def recoveringUpTo {α : Type} (stop : TokenKind → Bool) (p : Parser α)
    (skip : Parser Unit) : Nat → Parser (List α)
  | 0 => exhausted
  | fuel + 1 => do
    if stop (← peek).kind then
      return []
    else
      let value ← attempt p skip
      return value.toList ++ (← recoveringUpTo stop p skip fuel)

/-- Values up to a token that ends the list; a value that cannot be read is left
out, and reading goes on where `skip` stops. -/
def recovering {α : Type} (stop : TokenKind → Bool) (p : Parser α)
    (skip : Parser Unit) : Parser (List α) :=
  bounded (recoveringUpTo stop p skip)

/-- Whether a token ends a list in braces. -/
def closesBraces (kind : TokenKind) : Bool :=
  kind == .mark .rightBrace || kind == .eof

/-- The tokens from the next statement on, when `depth` braces are open: behind
the next semicolon outside braces, behind the brace that closes the first one
opened, or at a brace that closes more than was opened. -/
def afterStatement (depth : Nat) : List Token → List Token
  | [] => []
  | token :: rest =>
    match token.kind with
    | .mark .leftBrace => afterStatement (depth + 1) rest
    | .mark .rightBrace =>
      match depth with
      | 0 => token :: rest
      | 1 => rest
      | depth + 1 => afterStatement depth rest
    | .mark .semicolon => if depth = 0 then rest else afterStatement depth rest
    | _ => afterStatement depth rest

/-- The tokens from the next top-level declaration on, when `depth` braces are
open: at a word that starts one, behind the next semicolon outside braces, or
behind the brace that closes the outermost one. -/
def afterItem (depth : Nat) : List Token → List Token
  | [] => []
  | token :: rest =>
    match token.kind with
    | .keyword .classWord | .keyword .structWord | .keyword .externWord =>
      if depth = 0 then token :: rest else afterItem depth rest
    | .mark .leftBrace => afterItem (depth + 1) rest
    | .mark .rightBrace => if depth ≤ 1 then rest else afterItem (depth - 1) rest
    | .mark .semicolon => if depth = 0 then rest else afterItem depth rest
    | _ => afterItem depth rest

/-- Skips to the next statement. -/
def skipStatement : Parser Unit := fun s =>
  .ok () { s with tokens := afterStatement 0 s.tokens }

/-- Skips to the next top-level declaration. -/
def skipItem : Parser Unit := fun s =>
  .ok () { s with tokens := afterItem 0 s.tokens }

end Parser

end ClassLang
