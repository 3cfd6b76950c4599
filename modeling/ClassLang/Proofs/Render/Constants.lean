import ClassLang.Render.C
import ClassLang.Render.Llvm

/-!
# Constants denote texts

A text is written as a constant byte by byte, in each of the two targets with escapes of its own.
Here are the rules by which the constants are read, and `constants_denote`: what is read is the
text in UTF-8, and the array that is printed beside it has room for exactly these bytes and a zero.

Both directions go byte by byte: what one byte is written as is read as this byte, whatever is
written behind it (`Llvm.decode_escapeByte`, `C.decode_escapeByte`).  In C that is the point of
writing always three octal digits, since a shorter escape would take in a digit behind it.
-/

namespace ClassLang

namespace Text

/-- The bytes of a text are its encoding in UTF-8. -/
theorem bytes_eq (text : String) : bytes text = text.toByteArray.data.toList := by
  rw [← String.utf8Encode_toList]
  simp [bytes, List.utf8Encode]

/-- The value of a hexadecimal digit. -/
def hexValue? (c : Char) : Option Nat :=
  if '0' ≤ c ∧ c ≤ '9' then some (c.toNat - '0'.toNat)
  else if 'A' ≤ c ∧ c ≤ 'F' then some (c.toNat - 'A'.toNat + 10)
  else if 'a' ≤ c ∧ c ≤ 'f' then some (c.toNat - 'a'.toNat + 10)
  else none

/-- Whether a character is an octal digit. -/
def isOctalDigit (c : Char) : Bool := '0' ≤ c && c ≤ '7'

/-- The number a list of octal digits denotes. -/
def octalNumber (digits : List Char) : Nat :=
  digits.foldl (fun value c => 8 * value + digitValue c) 0

theorem hexValue?_upperHexDigit : ∀ value < 16, hexValue? (upperHexDigit value) = some value := by
  decide

theorem upperHexDigit_ne_quote : ∀ value < 16, upperHexDigit value ≠ '"' := by
  decide

theorem isOctalDigit_upperHexDigit : ∀ value < 8, isOctalDigit (upperHexDigit value) = true := by
  decide

theorem digitValue_upperHexDigit : ∀ value < 8, digitValue (upperHexDigit value) = value := by
  decide

theorem toNat_ofByte {byte : UInt8} (h : byte.toNat < 0x80) :
    (Char.ofNat byte.toNat).toNat = byte.toNat := by
  have hvalid : byte.toNat.isValidChar := .inl (by omega)
  rw [Char.ofNat, dif_pos hvalid]
  rfl

/-- An ASCII character is encoded as the byte with its number. -/
theorem utf8EncodeChar_ofByte {byte : UInt8} (h : byte.toNat < 0x80) :
    String.utf8EncodeChar (Char.ofNat byte.toNat) = [byte] := by
  have hle : byte.toNat ≤ 127 := by omega
  simp [String.utf8EncodeChar, toNat_ofByte h, hle]

/-- What is read byte by byte as it is written, is read as a whole. -/
theorem decode_flatMap {decode : List Char → Option (List UInt8)} {escape : UInt8 → List Char}
    (hnil : decode [] = some [])
    (hstep : ∀ byte rest, decode (escape byte ++ rest) = (decode rest).map (byte :: ·))
    (bytes : List UInt8) : decode (bytes.flatMap escape) = some bytes := by
  induction bytes with
  | nil => exact hnil
  | cons byte rest ih => rw [List.flatMap_cons, hstep, ih, Option.map_some]

end Text

open Text

/-! ## LLVM -/

namespace Llvm

/-- The bytes that the body of a constant denotes: a backslash and two hexadecimal digits are one
byte, and every other character stands for itself.  A backslash without digits is refused. -/
def decode : List Char → Option (List UInt8)
  | [] => some []
  | '\\' :: high :: low :: rest =>
    match hexValue? high, hexValue? low with
    | some high, some low => (decode rest).map (UInt8.ofNat (16 * high + low) :: ·)
    | _, _ => none
  | c :: rest =>
    if c = '\\' then none else (decode rest).map (String.utf8EncodeChar c ++ ·)

/-- A byte that is plain is a printing ASCII character, but no quote and no backslash. -/
theorem isPlain_iff (byte : UInt8) : isPlain byte = true ↔
    0x20 ≤ byte.toNat ∧ byte.toNat ≤ 0x7e ∧ byte.toNat ≠ 0x22 ∧ byte.toNat ≠ 0x5c := by
  simp only [isPlain, Bool.and_eq_true, decide_eq_true_eq, bne_iff_ne, ne_eq, UInt8.le_iff_toNat_le,
    ← UInt8.toNat_inj, and_assoc]
  rfl

/-- A byte is read as it is written. -/
theorem decode_escapeByte (byte : UInt8) (rest : List Char) :
    decode (escapeByte byte ++ rest) = (decode rest).map (byte :: ·) := by
  unfold escapeByte
  split
  · next hplain =>
      obtain ⟨-, hle, -, hslash⟩ := (isPlain_iff byte).1 hplain
      have hascii : byte.toNat < 0x80 := by omega
      have hne : Char.ofNat byte.toNat ≠ '\\' := fun heq =>
        hslash (by rw [← toNat_ofByte hascii, heq]; rfl)
      simp [decode, hne, utf8EncodeChar_ofByte hascii]
  · have hbyte := byte.toNat_lt
    have hhigh := hexValue?_upperHexDigit (byte.toNat / 16) (by omega)
    have hlow := hexValue?_upperHexDigit (byte.toNat % 16) (by omega)
    have hsum : 16 * (byte.toNat / 16) + byte.toNat % 16 = byte.toNat := Nat.div_add_mod ..
    simp only [hexByte, List.cons_append, List.nil_append, decode, hhigh, hlow, hsum,
      UInt8.ofNat_toNat]

/-- No quote is written into a constant. -/
theorem quote_not_mem_escapeByte (byte : UInt8) : '"' ∉ escapeByte byte := by
  unfold escapeByte
  split
  · next hplain =>
      obtain ⟨-, hle, hquote, -⟩ := (isPlain_iff byte).1 hplain
      rw [List.mem_singleton]
      intro heq
      exact hquote (by rw [← toNat_ofByte (by omega : byte.toNat < 0x80), ← heq]; rfl)
  · have hbyte := byte.toNat_lt
    have hhigh := upperHexDigit_ne_quote (byte.toNat / 16) (by omega)
    have hlow := upperHexDigit_ne_quote (byte.toNat % 16) (by omega)
    simp [hexByte, hhigh.symm, hlow.symm]

theorem quote_not_mem_escape (text : String) : '"' ∉ (escape text).toList := by
  rw [escape, String.toList_ofList, List.mem_flatMap]
  rintro ⟨byte, -, hmem⟩
  exact quote_not_mem_escapeByte byte hmem

/-- A constant denotes the bytes of its text, and a zero byte behind them. -/
theorem decode_escape (text : String) :
    decode (escape text).toList = some (Text.bytes text ++ [0]) := by
  rw [escape, String.toList_ofList]
  exact decode_flatMap rfl decode_escapeByte _

end Llvm

/-! ## C -/

namespace C

/-- The bytes that the body of a string literal denotes: a backslash stands in front of a quote, a
backslash, or up to three octal digits, and every other character stands for itself.  Quotes and
line feeds end a literal, so they are refused, and so are other escapes. -/
def decode : List Char → Option (List UInt8)
  | [] => some []
  | '\\' :: '"' :: rest => (decode rest).map (0x22 :: ·)
  | '\\' :: '\\' :: rest => (decode rest).map (0x5c :: ·)
  | '\\' :: rest =>
    let digits := (rest.take 3).takeWhile isOctalDigit
    if digits = [] ∨ 0xff < octalNumber digits then none
    else (decode (rest.drop digits.length)).map (UInt8.ofNat (octalNumber digits) :: ·)
  | c :: rest =>
    if c = '"' ∨ c = '\n' then none else (decode rest).map (String.utf8EncodeChar c ++ ·)
termination_by text => text.length

/-- An escape of up to three octal digits. -/
theorem decode_octal {digits rest : List Char}
    (hdigits : ((digits ++ rest).take 3).takeWhile isOctalDigit = digits) (hne : digits ≠ [])
    (hle : octalNumber digits ≤ 0xff) :
    decode ('\\' :: (digits ++ rest)) =
      (decode rest).map (UInt8.ofNat (octalNumber digits) :: ·) := by
  have hfirst : ∀ c tail, digits ++ rest = c :: tail → isOctalDigit c = true := by
    intro c tail htext
    rw [htext, List.take_succ_cons, List.takeWhile_cons] at hdigits
    cases hc : isOctalDigit c with
    | true => rfl
    | false => exact absurd hdigits (by simp [hc, hne.symm])
  rw [decode]
  · rw [hdigits, if_neg (by simp [hne, Nat.not_lt.2 hle]), List.drop_left]
  · exact fun tail htext => absurd (hfirst _ _ htext) (by decide)
  · exact fun tail htext => absurd (hfirst _ _ htext) (by decide)

/-- A byte is read as it is written, even if a digit follows. -/
theorem decode_escapeByte (byte : UInt8) (rest : List Char) :
    decode (escapeByte byte ++ rest) = (decode rest).map (byte :: ·) := by
  unfold escapeByte
  split
  · next hquote => simp [decode, hquote]
  split
  · next hslash => simp [decode, hslash]
  split
  · next hquote hslash hplain =>
      have hascii : byte.toNat < 0x80 ∧ 0x20 ≤ byte.toNat := by
        simp only [Bool.and_eq_true, decide_eq_true_eq, UInt8.le_iff_toNat_le] at hplain
        have hle : byte.toNat ≤ 0x7e := hplain.2
        exact ⟨by omega, hplain.1⟩
      have hne : ∀ c : Char, c.toNat ≠ byte.toNat → Char.ofNat byte.toNat ≠ c := fun c hc heq =>
        hc (by rw [← heq, toNat_ofByte hascii.1])
      have hnotQuote := hne '"' fun heq => hquote (UInt8.toNat_inj.1 heq.symm)
      have hnotSlash := hne '\\' fun heq => hslash (UInt8.toNat_inj.1 heq.symm)
      have hnotBreak := hne '\n' (Nat.ne_of_lt (Nat.lt_of_lt_of_le (by decide) hascii.2))
      simp [decode, hnotQuote, hnotSlash, hnotBreak, utf8EncodeChar_ofByte hascii.1]
  · have hbyte := byte.toNat_lt
    have hdigits : ((octalByte byte ++ rest).take 3).takeWhile isOctalDigit = octalByte byte := by
      have hfirst := isOctalDigit_upperHexDigit (byte.toNat / 64) (by omega)
      have hsecond := isOctalDigit_upperHexDigit (byte.toNat / 8 % 8) (by omega)
      have hthird := isOctalDigit_upperHexDigit (byte.toNat % 8) (by omega)
      simp [octalByte, hfirst, hsecond, hthird]
    have hnumber : octalNumber (octalByte byte) = byte.toNat := by
      have hfirst := digitValue_upperHexDigit (byte.toNat / 64) (by omega)
      have hsecond := digitValue_upperHexDigit (byte.toNat / 8 % 8) (by omega)
      have hthird := digitValue_upperHexDigit (byte.toNat % 8) (by omega)
      simp only [octalNumber, octalByte, List.foldl_cons, List.foldl_nil, hfirst, hsecond, hthird]
      omega
    rw [List.cons_append, decode_octal hdigits (by simp [octalByte]) (by omega), hnumber,
      UInt8.ofNat_toNat]

-- The escape takes three digits; the fourth one stands for itself.
example : decode ['\\', '0', '0', '1', '1'] = some [1, 0x31] := by
  cbv

/-- A string literal denotes the bytes of its text. -/
theorem decode_escape (text : String) : decode (escape text).toList = some (Text.bytes text) := by
  rw [escape, String.toList_ofList]
  exact decode_flatMap (by rw [decode]) decode_escapeByte _

end C

/-! ## Both -/

/-- **Constants denote the bytes of their text.** -/
theorem constants_denote (name text : String) :
    (∃ body size, Llvm.instruction (.stringLiteral name text) =
        "@" ++ name ++ " = private unnamed_addr constant [" ++ toString size ++ " x i8] c\"" ++ body
          ++ "\"" ∧
      '"' ∉ body.toList ∧
      Llvm.decode body.toList = some (text.toByteArray.data.toList ++ [0]) ∧
      size = (text.toByteArray.data.toList ++ [0]).length) ∧
    (∃ body size, C.instruction (.stringLiteral name text) =
        "static int8_t " ++ C.globalName name ++ "[" ++ toString size ++ "] = \"" ++ body ++ "\";" ∧
      C.decode body.toList = some text.toByteArray.data.toList ∧
      size = text.toByteArray.data.toList.length + 1) := by
  have hsize : Text.byteLength text.toList = text.toByteArray.data.toList.length := by
    rw [← Text.length_bytes, Text.bytes_eq]
  rw [← Text.bytes_eq] at hsize ⊢
  refine ⟨⟨Llvm.escape text, Text.byteLength text.toList + 1, rfl, Llvm.quote_not_mem_escape text,
    Llvm.decode_escape text, ?_⟩, ⟨C.escape text, Text.byteLength text.toList + 1, rfl,
    C.decode_escape text, ?_⟩⟩
  · rw [List.length_append, hsize, List.length_singleton]
  · rw [hsize]

example : Llvm.instruction (.stringLiteral ".str0" "é\"") =
      "@.str0 = private unnamed_addr constant [4 x i8] c\"\\C3\\A9\\22\\00\"" ∧
    C.instruction (.stringLiteral ".str0" "é\"") =
      "static int8_t stp_str0[4] = \"\\303\\251\\\"\";" := by
  decide +kernel

end ClassLang
