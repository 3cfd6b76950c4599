/-!
# Text measures

The language measures source text in UTF-8 bytes: columns, token lengths and
string storage all count bytes, not characters.  This file holds those
measures on character lists, together with the few layout functions (lines,
padding, digits) that messages and rendered output share.
-/

namespace ClassLang.Text

/-- Number of UTF-8 bytes of a character list. -/
def byteLength : List Char → Nat
  | [] => 0
  | c :: text => c.utf8Size + byteLength text

/-- The empty text has no bytes. -/
@[simp] theorem byteLength_nil : byteLength [] = 0 := rfl

/-- A first character adds its own bytes. -/
@[simp] theorem byteLength_cons (c : Char) (text : List Char) :
    byteLength (c :: text) = c.utf8Size + byteLength text := rfl

/-- Byte lengths add up under concatenation. -/
@[simp] theorem byteLength_append (a b : List Char) :
    byteLength (a ++ b) = byteLength a + byteLength b := by
  induction a with
  | nil => simp
  | cons c rest ih => simp [ih, Nat.add_assoc]

/-- The UTF-8 bytes of a string, in order. -/
def bytes (text : String) : List UInt8 :=
  text.toList.flatMap String.utf8EncodeChar

/-- A string is as long in bytes as its list of bytes. -/
theorem length_bytes (text : String) :
    (bytes text).length = byteLength text.toList := by
  simp only [bytes]
  induction text.toList with
  | nil => rfl
  | cons c rest ih => simp [ih]

/-- A finished line, given back to front: one carriage return at its end
belongs to the line break. -/
def closeLine : List Char → List Char
  | '\r' :: line => line.reverse
  | line => line.reverse

/-- The lines of `rest`, where `line` holds the characters of the current line
so far, back to front. -/
def linesFrom (line : List Char) : List Char → List (List Char)
  | [] => if line.isEmpty then [] else [line.reverse]
  | c :: rest =>
    if c = '\n' then closeLine line :: linesFrom [] rest
    else linesFrom (c :: line) rest

/-- The lines of a text.  A line feed ends a line, together with one carriage
return right before it; a last line without a line feed counts only if it has
characters. -/
def lines (text : String) : List String :=
  (linesFrom [] text.toList).map String.ofList

/-- `text` with blanks in front up to `width` characters. -/
def padLeft (width : Nat) (text : String) : String :=
  String.ofList (List.replicate (width - text.length) ' ') ++ text

/-- `count` copies of one character. -/
def repeated (count : Nat) (c : Char) : String :=
  String.ofList (List.replicate count c)

/-- The value of one decimal digit. -/
def digitValue (c : Char) : Nat := c.toNat - '0'.toNat

/-- The number a list of decimal digits denotes. -/
def decimalValue (digits : List Char) : Nat :=
  digits.foldl (fun value c => 10 * value + digitValue c) 0

/-- The digit of a value below sixteen, in upper case. -/
def upperHexDigit (value : Nat) : Char :=
  if value < 10 then Char.ofNat ('0'.toNat + value)
  else Char.ofNat ('A'.toNat + (value - 10))

/-- A byte as two upper-case hexadecimal digits. -/
def hexByte (byte : UInt8) : List Char :=
  [upperHexDigit (byte.toNat / 16), upperHexDigit (byte.toNat % 16)]

/-- A byte as three octal digits. -/
def octalByte (byte : UInt8) : List Char :=
  [upperHexDigit (byte.toNat / 64), upperHexDigit (byte.toNat / 8 % 8),
    upperHexDigit (byte.toNat % 8)]

end ClassLang.Text
