/-!
# String literals

What the lexeme of a string literal denotes.  A backslash gives the character
after it a meaning of its own: `\n`, `\t`, `\r` and `\0` stand for control
characters, and any other character stands for itself.
-/

namespace ClassLang.Quoted

/-- The control character that a letter after a backslash denotes, if any. -/
def control? : Char → Option Char
  | 'n' => some '\n'
  | 't' => some '\t'
  | 'r' => some '\r'
  | '0' => some '\x00'
  | _ => none

/-- Whether a character may follow a backslash in a literal. -/
def isEscapable (c : Char) : Bool :=
  (control? c).isSome || c == '\\' || c == '"'

/-- What an escaped character denotes. -/
def escaped (c : Char) : Char := (control? c).getD c

/-- Replaces each escape by what it denotes; a backslash at the very end
denotes nothing. -/
def unescape : List Char → List Char
  | [] => []
  | ['\\'] => []
  | '\\' :: c :: rest => escaped c :: unescape rest
  | c :: rest => c :: unescape rest

/-- The characters between the quotes, or all of them if the lexeme is not
enclosed in two quotes. -/
def inner (lexeme : List Char) : List Char :=
  match lexeme with
  | '"' :: rest => if rest.getLast? = some '"' then rest.dropLast else lexeme
  | _ => lexeme

/-- The text that the lexeme of a string literal denotes. -/
def decode (lexeme : String) : String :=
  String.ofList (unescape (inner lexeme.toList))

end ClassLang.Quoted
