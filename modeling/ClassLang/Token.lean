import ClassLang.Operator
import ClassLang.Primitive
import ClassLang.Span

/-!
# Tokens

The words of the language: literals, names, keywords, punctuation, and the mark
for the end of the source.
-/

namespace ClassLang

/-- Reserved words. -/
inductive Keyword
  /-- A word that names a primitive type. -/
  | type (primitive : Primitive)
  /-- `true` or `false`. -/
  | boolean (value : Bool)
  | classWord
  | structWord
  | extendsWord
  | externWord
  | ifWord
  | elseWord
  | returnWord
  deriving DecidableEq, Repr, Inhabited

namespace Keyword

/-- Every reserved word, with the keyword it stands for. -/
def table : List (String × Keyword) :=
  Primitive.spellings.map (fun (word, primitive) => (word, .type primitive)) ++
    [("true", .boolean true), ("false", .boolean false), ("class", .classWord),
      ("struct", .structWord), ("extends", .extendsWord), ("extern", .externWord),
      ("if", .ifWord), ("else", .elseWord), ("return", .returnWord)]

/-- The keyword a word stands for, if it is reserved. -/
def ofWord? (word : String) : Option Keyword := table.lookup word

/-- The spelling that messages use: the short one for the 32-bit integers. -/
def text : Keyword → String
  | .type (.int .w32) => "int"
  | .type (.uint .w32) => "uint"
  | .type primitive => primitive.name
  | .boolean true => "true"
  | .boolean false => "false"
  | .classWord => "class"
  | .structWord => "struct"
  | .extendsWord => "extends"
  | .externWord => "extern"
  | .ifWord => "if"
  | .elseWord => "else"
  | .returnWord => "return"

end Keyword

/-- Operators and punctuation marks. -/
inductive Mark
  | plus | minus | star | slash | amp | pipe | caret | ampAmp | pipePipe
  | equal | equalEqual | bangEqual | less | lessEqual | greater | greaterEqual
  | leftParen | rightParen | leftBrace | rightBrace
  | semicolon | comma | dot | ellipsis
  deriving DecidableEq, Repr, Inhabited

namespace Mark

/-- The mark as written. -/
def text : Mark → String
  | .plus => "+"
  | .minus => "-"
  | .star => "*"
  | .slash => "/"
  | .amp => "&"
  | .pipe => "|"
  | .caret => "^"
  | .ampAmp => "&&"
  | .pipePipe => "||"
  | .equal => "="
  | .equalEqual => "=="
  | .bangEqual => "!="
  | .less => "<"
  | .lessEqual => "<="
  | .greater => ">"
  | .greaterEqual => ">="
  | .leftParen => "("
  | .rightParen => ")"
  | .leftBrace => "\x7b"
  | .rightBrace => "\x7d"
  | .semicolon => ";"
  | .comma => ","
  | .dot => "."
  | .ellipsis => "..."

/-- The binary operator a mark stands for, if it does. -/
def operator? : Mark → Option BinaryOp
  | .pipePipe => some .or
  | .ampAmp => some .and
  | .pipe => some (.arith .bitOr)
  | .caret => some (.arith .bitXor)
  | .amp => some (.arith .bitAnd)
  | .equalEqual => some (.compare .eq)
  | .bangEqual => some (.compare .ne)
  | .less => some (.compare .lt)
  | .lessEqual => some (.compare .le)
  | .greater => some (.compare .gt)
  | .greaterEqual => some (.compare .ge)
  | .plus => some (.arith .add)
  | .minus => some (.arith .sub)
  | .star => some (.arith .mul)
  | .slash => some (.arith .div)
  | _ => none

end Mark

/-- Kinds of tokens. -/
inductive TokenKind
  | integer
  /-- A string literal; its lexeme keeps the quotes and the escapes. -/
  | string
  | identifier
  | keyword (keyword : Keyword)
  | mark (mark : Mark)
  /-- The end of the source. -/
  | eof
  deriving DecidableEq, Repr, Inhabited

namespace TokenKind

/-- The primitive type that the token names, if it names one. -/
def primitive? : TokenKind → Option Primitive
  | .keyword (.type primitive) => some primitive
  | _ => none

/-- The binary operator that the token stands for, if it does. -/
def operator? : TokenKind → Option BinaryOp
  | .mark m => m.operator?
  | _ => none

/-- How messages name a token of this kind. -/
def description : TokenKind → String
  | .integer => "integer literal"
  | .string => "string literal"
  | .identifier => "identifier"
  | .keyword k => "'" ++ k.text ++ "'"
  | .mark m => "'" ++ m.text ++ "'"
  | .eof => "end of file"

end TokenKind

/-- A token: its kind, the source text it was cut from, and its place. -/
structure Token where
  kind : TokenKind
  lexeme : String
  span : Span
  deriving DecidableEq, Repr, Inhabited

namespace Token

/-- The mark for the end of the source at a position. -/
def endOfSource (line col : Nat) : Token := ⟨.eof, "", .point line col⟩

/-- How a message names the token it found. -/
def describe (token : Token) : String :=
  match token.kind with
  | .identifier | .integer | .string => "'" ++ token.lexeme ++ "'"
  | kind => kind.description

end Token

end ClassLang
