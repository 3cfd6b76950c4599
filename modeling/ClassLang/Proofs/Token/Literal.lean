import ClassLang.Proofs.Token.Newline
import Mathlib.Data.Nat.Init

/-!
# String literals

Between its quotes a literal is written with glyphs: a character that means itself, or a backslash
and any other character of the line (`Quoted.Glyph`).  Six escapes denote a character, the others
are unknown.

The key local fact is `Piece.cutString_glyphs`: glyphs that denote something are passed one by one,
whatever stands behind them.  So a literal without unknown escapes is one token, and it denotes
what its glyphs do (`literal_exact`).  At the first unknown escape the rule changes.  From there on,
only the next quote is looked for, and it need not be the one that the literal was written with
(`lexFrom_unknownEscape`).
-/

namespace ClassLang

namespace Quoted

/-! ## Glyphs -/

/-- The characters that may stand behind a backslash, and what these escapes denote. -/
def escapes : List (Char × Char) :=
  [('n', '\n'), ('t', '\t'), ('r', '\r'), ('0', '\x00'), ('\\', '\\'), ('"', '"')]

/-- What a literal is written with between its quotes. -/
inductive Glyph
  | plain (c : Char) (h : c ≠ '"' ∧ c ≠ '\\' ∧ c ≠ '\n')
  /-- A backslash and another character of the same line. -/
  | escape (c : Char) (h : c ≠ '\n')
  deriving DecidableEq

/-- What a glyph denotes; an unknown escape denotes nothing. -/
def Glyph.denotes? : Glyph → Option Char
  | .plain c _ => some c
  | .escape c _ => escapes.lookup c

/-- A glyph as it is written. -/
def Glyph.text : Glyph → List Char
  | .plain c _ => [c]
  | .escape c _ => ['\\', c]

/-- Whether a glyph is a quote behind a backslash. -/
def Glyph.isQuote : Glyph → Bool
  | .escape '"' _ => true
  | _ => false

/-- Glyphs as they are written. -/
def written (glyphs : List Glyph) : List Char := glyphs.flatMap Glyph.text

/-- Glyphs between quotes. -/
def literal (glyphs : List Glyph) : List Char := '"' :: (written glyphs ++ ['"'])

/-- No glyph is an unknown escape. -/
def Known (glyphs : List Glyph) : Prop := ∀ glyph ∈ glyphs, glyph.denotes? ≠ none

instance : DecidablePred Known := fun glyphs =>
  inferInstanceAs (Decidable (∀ glyph ∈ glyphs, glyph.denotes? ≠ none))

/-- The text that glyphs denote. -/
def denoted (glyphs : List Glyph) : List Char := glyphs.filterMap Glyph.denotes?

@[simp] theorem Glyph.text_escape {c : Char} {h : c ≠ '\n'} :
    (Glyph.escape c h).text = ['\\', c] := rfl

@[simp] theorem written_nil : written [] = [] := rfl

@[simp] theorem written_cons (glyph : Glyph) (glyphs : List Glyph) :
    written (glyph :: glyphs) = glyph.text ++ written glyphs := rfl

@[simp] theorem written_append (glyphs more : List Glyph) :
    written (glyphs ++ more) = written glyphs ++ written more :=
  List.flatMap_append

/-- A literal goes on from its quote to its glyphs and the other quote. -/
theorem literal_append (glyphs : List Glyph) (rest : List Char) :
    literal glyphs ++ rest = '"' :: (written glyphs ++ '"' :: rest) := by
  simp [literal]

/-- The table of escapes is the one that lexing and decoding go by. -/
theorem lookup_escapes (c : Char) :
    escapes.lookup c = if isEscapable c then some (escaped c) else none := by
  unfold escapes isEscapable escaped control?
  by_cases hn : c = 'n'
  · rw [hn]; rfl
  by_cases ht : c = 't'
  · rw [ht]; rfl
  by_cases hr : c = 'r'
  · rw [hr]; rfl
  by_cases h0 : c = '0'
  · rw [h0]; rfl
  by_cases hbackslash : c = '\\'
  · rw [hbackslash]; rfl
  by_cases hquote : c = '"'
  · rw [hquote]; rfl
  · simp [List.lookup_cons, beq_eq_false_iff_ne.2, hn, ht, hr, h0, hbackslash, hquote]

/-- The characters that may be escaped are those that have a meaning. -/
theorem isEscapable_iff {c : Char} : isEscapable c = true ↔ escapes.lookup c ≠ none := by
  rw [lookup_escapes]
  split <;> simp_all

/-- An unknown escape among glyphs comes behind some that denote something. -/
theorem exists_firstUnknown {glyphs : List Glyph} (h : ∃ glyph ∈ glyphs, glyph.denotes? = none) :
    ∃ before c hc after, glyphs = before ++ .escape c hc :: after ∧
      Known before ∧ escapes.lookup c = none := by
  induction glyphs with
  | nil => simp at h
  | cons first rest ih =>
      by_cases hfirst : first.denotes? = none
      · cases first with
        | plain c hc => cases hfirst
        | escape c hc => exact ⟨[], c, hc, rest, rfl, by simp [Known], hfirst⟩
      · obtain ⟨before, c, hc, after, rfl, hbefore, hunknown⟩ := ih (by simpa [hfirst] using h)
        exact ⟨first :: before, c, hc, after, rfl, List.forall_mem_cons.2 ⟨hfirst, hbefore⟩,
          hunknown⟩

/-- No character of a glyph ends the skipping behind an unknown escape, unless it is a quote. -/
theorem Glyph.inLiteral {glyph : Glyph} (h : glyph.isQuote = false) :
    ∀ c ∈ glyph.text, c ≠ '\n' ∧ c ≠ '"' := by
  cases glyph with
  | plain c hc => simpa [text] using ⟨hc.2.2, hc.1⟩
  | escape c hc =>
      have hquote : c ≠ '"' := by
        rintro rfl
        cases h
      simp [text, hc, hquote]

/-- Glyphs without a quote stay inside of their literal. -/
theorem inLiteral_written {glyphs : List Glyph} (h : ∀ glyph ∈ glyphs, glyph.isQuote = false) :
    ∀ c ∈ written glyphs, c ≠ '\n' ∧ c ≠ '"' := by
  intro c hc
  obtain ⟨glyph, hglyph, hc⟩ := List.mem_flatMap.1 hc
  exact glyph.inLiteral (h glyph hglyph) c hc

/-- The glyph of a quote is written with a backslash. -/
theorem Glyph.text_of_isQuote {glyph : Glyph} (h : glyph.isQuote = true) :
    glyph.text = ['\\', '"'] := by
  unfold isQuote at h
  split at h
  · rfl
  · cases h

end Quoted

open Quoted

/-! ## Cutting literals off -/

namespace Piece

/-- **Glyphs that denote something are passed one by one**, whatever stands behind them. -/
theorem cutString_glyphs {glyphs : List Glyph} (h : Known glyphs) (rest : List Char) :
    cutString (written glyphs ++ rest) =
      ((cutString rest).1.extend (written glyphs), (cutString rest).2) := by
  induction glyphs with
  | nil => simp
  | cons glyph glyphs ih =>
      obtain ⟨hglyph, hknown⟩ := List.forall_mem_cons.1 h
      have hglyphs := ih hknown
      cases glyph with
      | plain c hc =>
          obtain ⟨hquote, hbackslash, hnewline⟩ := hc
          rw [written_cons, Glyph.text, List.append_assoc, List.singleton_append,
            cutString_cons hnewline hquote hbackslash, hglyphs, extend_extend]
      | escape c hc =>
          have hescapable : isEscapable c = true := isEscapable_iff.2 hglyph
          rw [written_cons, Glyph.text, List.append_assoc, List.cons_append, List.cons_append,
            List.nil_append, cutString, if_pos hescapable, hglyphs]
          exact congrArg (·, _) (extend_extend ['\\', c] (written glyphs) _)

/-- Behind an unknown escape everything up to the next quote is skipped. -/
theorem cutBadEscape_quote (c : Char) {skipped : List Char}
    (h : ∀ d ∈ skipped, d ≠ '\n' ∧ d ≠ '"') (rest : List Char) :
    cutBadEscape c (skipped ++ '"' :: rest) =
      (⟨.badEscape [] c, '\\' :: c :: (skipped ++ ['"'])⟩, rest) := by
  induction skipped with
  | nil => rfl
  | cons d skipped ih =>
      rw [List.forall_mem_cons] at h
      rw [List.cons_append, cutBadEscape_cons h.1.1 h.1.2, ih h.2]
      rfl

/-- A literal whose glyphs all denote something is cut off in one piece. -/
theorem cut_literal {glyphs : List Glyph} (h : Known glyphs) (rest : List Char) :
    cut '"' (written glyphs ++ '"' :: rest) = (⟨.string, literal glyphs⟩, rest) := by
  rw [cut_quote, cutString_glyphs h]
  rfl

/-- A literal with an unknown escape is cut off behind the next quote. -/
theorem cut_unknownEscape {before : List Glyph} (h : Known before)
    {c : Char} (hunknown : escapes.lookup c = none) {skipped : List Char}
    (hskipped : ∀ d ∈ skipped, d ≠ '\n' ∧ d ≠ '"') (rest : List Char) :
    cut '"' (written before ++ '\\' :: c :: (skipped ++ '"' :: rest)) =
      (⟨.badEscape ('"' :: written before) c,
        '"' :: (written before ++ '\\' :: c :: (skipped ++ ['"']))⟩, rest) := by
  have hescapable : ¬ isEscapable c = true := fun hc => isEscapable_iff.1 hc hunknown
  rw [cut_quote, cutString_glyphs h, cutString, if_neg hescapable, cutBadEscape_quote c hskipped]
  simp [extend]

end Piece

/-! ## Lexing from a position -/

/-- What lexing gives for a text that starts at a position. -/
def lexFrom (pos : Position) (text : List Char) : Lexed :=
  ⟨Piece.tokens pos (Piece.pieces text),
    .endOfSource (pos.after text).line (pos.after text).col,
    Piece.errors pos (Piece.pieces text)⟩

/-- What lexing gives with one more token in front. -/
def Lexed.withToken (token : Token) (lexed : Lexed) : Lexed :=
  { lexed with tokens := token :: lexed.tokens }

/-- What lexing gives with one more error in front. -/
def Lexed.withError (error : LexError) (lexed : Lexed) : Lexed :=
  { lexed with errors := error :: lexed.errors }

/-- A source is lexed from the first position. -/
theorem lex_eq_lexFrom (source : String) : lex source = lexFrom {} source.toList := rfl

/-- Lexing goes on behind the piece that is cut off. -/
theorem lexFrom_cut {c : Char} {text rest : List Char} {piece : Piece}
    (h : Piece.cut c text = (piece, rest)) (pos : Position) :
    lexFrom pos (c :: text) =
      ⟨(piece.token? pos).toList ++ (lexFrom (pos.after piece.text) rest).tokens,
        (lexFrom (pos.after piece.text) rest).eof,
        (piece.error? pos).toList ++ (lexFrom (pos.after piece.text) rest).errors⟩ := by
  have hwhole := Piece.cut_append c text
  rw [h] at hwhole
  rw [lexFrom, Piece.pieces_cons, h, ← hwhole, Position.after_append]
  rfl

/-- The token that a literal is, if it starts at a position. -/
def Token.ofLiteral (glyphs : List Glyph) (pos : Position) : Token :=
  ⟨.string, String.ofList (literal glyphs), pos.line, pos.col, Text.byteLength (literal glyphs)⟩

/-- **A literal without unknown escapes is one token**, whatever stands behind it. -/
theorem lexFrom_literal {glyphs : List Glyph} (h : Known glyphs)
    (pos : Position) (rest : List Char) :
    lexFrom pos (literal glyphs ++ rest) =
      (lexFrom (pos.after (literal glyphs)) rest).withToken (.ofLiteral glyphs pos) := by
  rw [literal_append, lexFrom_cut (Piece.cut_literal h rest)]
  rfl

/-! ## What literals denote -/

namespace Quoted

/-- A character that is no backslash means itself. -/
theorem unescape_cons {c : Char} (h : c ≠ '\\') (rest : List Char) :
    unescape (c :: rest) = c :: unescape rest := by
  cases rest with
  | nil => simp [unescape, h]
  | cons d rest => simp [unescape, h]

/-- Glyphs are read back as what they denote. -/
theorem unescape_written {glyphs : List Glyph} (h : Known glyphs) :
    unescape (written glyphs) = denoted glyphs := by
  induction glyphs with
  | nil => rfl
  | cons glyph glyphs ih =>
      obtain ⟨hglyph, hknown⟩ := List.forall_mem_cons.1 h
      cases glyph with
      | plain c hc =>
          rw [written_cons, Glyph.text, List.singleton_append, unescape_cons hc.2.1, ih hknown]
          rfl
      | escape c hc =>
          have hdenotes : (Glyph.escape c hc).denotes? = some (escaped c) := by
            rw [Glyph.denotes?, lookup_escapes, if_pos (isEscapable_iff.2 hglyph)]
          rw [denoted, List.filterMap_cons_some hdenotes, written_cons, Glyph.text]
          simp [unescape, ih hknown, denoted]

/-- The quotes that are stripped are the ones around the glyphs, whatever the last glyph is. -/
theorem inner_literal (glyphs : List Glyph) : inner (literal glyphs) = written glyphs := by
  simp [inner, literal]

/-- A literal is decoded to what its glyphs denote. -/
theorem decode_literal {glyphs : List Glyph} (h : Known glyphs) :
    decode (String.ofList (literal glyphs)) = String.ofList (denoted glyphs) := by
  rw [decode, String.toList_ofList, inner_literal, unescape_written h]

/-! ## Literals for every text -/

/-- How a character is written in a string literal. -/
def escape (c : Char) : List Char :=
  if c = '\n' then ['\\', 'n']
  else if c = '\t' then ['\\', 't']
  else if c = '\r' then ['\\', 'r']
  else if c = '\x00' then ['\\', '0']
  else if c = '\\' then ['\\', '\\']
  else if c = '"' then ['\\', '"']
  else [c]

/-- The literal that denotes a text. -/
def encode (text : String) : String :=
  String.ofList ('"' :: (text.toList.flatMap escape ++ ['"']))

/-- A character is written as a glyph that denotes it. -/
theorem exists_glyph (c : Char) :
    ∃ glyph : Glyph, glyph.denotes? = some c ∧ glyph.text = escape c := by
  by_cases hnewline : c = '\n'
  · exact ⟨.escape 'n' (by decide), by rw [hnewline]; exact ⟨rfl, rfl⟩⟩
  by_cases htab : c = '\t'
  · exact ⟨.escape 't' (by decide), by rw [htab]; exact ⟨rfl, rfl⟩⟩
  by_cases hreturn : c = '\r'
  · exact ⟨.escape 'r' (by decide), by rw [hreturn]; exact ⟨rfl, rfl⟩⟩
  by_cases hzero : c = '\x00'
  · exact ⟨.escape '0' (by decide), by rw [hzero]; exact ⟨rfl, rfl⟩⟩
  by_cases hbackslash : c = '\\'
  · exact ⟨.escape '\\' (by decide), by rw [hbackslash]; exact ⟨rfl, rfl⟩⟩
  by_cases hquote : c = '"'
  · exact ⟨.escape '"' (by decide), by rw [hquote]; exact ⟨rfl, rfl⟩⟩
  · exact ⟨.plain c ⟨hquote, hbackslash, hnewline⟩, rfl,
      by simp [escape, Glyph.text, hnewline, htab, hreturn, hzero, hbackslash, hquote]⟩

/-- A text is written as glyphs that denote it. -/
theorem exists_glyphs (text : List Char) :
    ∃ glyphs, Known glyphs ∧ denoted glyphs = text ∧ written glyphs = text.flatMap escape := by
  induction text with
  | nil => exact ⟨[], by simp [Known], rfl, rfl⟩
  | cons c text ih =>
      obtain ⟨glyph, hdenotes, hglyph⟩ := exists_glyph c
      obtain ⟨glyphs, hknown, rfl, hglyphs⟩ := ih
      refine ⟨glyph :: glyphs, List.forall_mem_cons.2 ⟨by simp [hdenotes], hknown⟩, ?_, ?_⟩
      · rw [denoted, List.filterMap_cons_some hdenotes, denoted]
      · rw [written_cons, hglyph, hglyphs, List.flatMap_cons]

/-- What a text is written as is a literal that denotes it. -/
theorem exists_literal (text : String) :
    ∃ glyphs, Known glyphs ∧ denoted glyphs = text.toList ∧
      encode text = String.ofList (literal glyphs) := by
  obtain ⟨glyphs, hknown, hdenoted, hwritten⟩ := exists_glyphs text.toList
  exact ⟨glyphs, hknown, hdenoted, by rw [encode, literal, hwritten]⟩

/-- Every text is read back from its literal. -/
theorem decode_encode (text : String) : decode (encode text) = text := by
  obtain ⟨glyphs, hknown, hdenoted, hencode⟩ := exists_literal text
  rw [hencode, decode_literal hknown, hdenoted, String.ofList_toList]

end Quoted

/-! ## Literals without unknown escapes -/

/-- **A literal without unknown escapes is one token, and denotes what its glyphs do**, whatever
stands behind it.  Every text is denoted by such a literal. -/
theorem literal_exact :
    (∀ glyphs, Known glyphs → ∀ pos rest,
      lexFrom pos (literal glyphs ++ rest) =
        (lexFrom (pos.after (literal glyphs)) rest).withToken (.ofLiteral glyphs pos) ∧
      decode (Token.ofLiteral glyphs pos).lexeme = String.ofList (denoted glyphs)) ∧
    ∀ text : String, ∃ glyphs, Known glyphs ∧ denoted glyphs = text.toList ∧
      decode (String.ofList (literal glyphs)) = text := by
  refine ⟨fun glyphs hknown pos rest => ⟨lexFrom_literal hknown pos rest, decode_literal hknown⟩,
    fun text => ?_⟩
  obtain ⟨glyphs, hknown, hdenoted, hencode⟩ := exists_literal text
  exact ⟨glyphs, hknown, hdenoted, by rw [← hencode, decode_encode]⟩

/-- Every escape there is, the last one right in front of the closing quote. -/
theorem literal_exact_escapes :
    lexFrom {} ("\"\\n\\t\\r\\0\\\\\\\"\"+1".toList) =
        (lexFrom ⟨1, 15⟩ ['+', '1']).withToken
          ⟨.string, "\"\\n\\t\\r\\0\\\\\\\"\"", 1, 1, 14⟩ ∧
      decode "\"\\n\\t\\r\\0\\\\\\\"\"" = "\n\t\r\x00\\\"" :=
  literal_exact.1 [.escape 'n' (by decide), .escape 't' (by decide), .escape 'r' (by decide),
    .escape '0' (by decide), .escape '\\' (by decide), .escape '"' (by decide)]
    (by decide) {} ['+', '1']

/-! ## Literals with an unknown escape -/

/-- The error for an unknown escape in a literal that starts at a position, with some glyphs in
front of the escape. -/
def LexError.unknownEscape (pos : Position) (before : List Glyph) (c : Char) : LexError :=
  .invalidEscape c ⟨pos.line, pos.col + Text.byteLength ('"' :: written before), 2⟩

/-- A literal with an unknown escape is reported, and lexing goes on behind the next
quote. -/
theorem lexFrom_badEscape {before : List Glyph} (h : Known before) {c : Char}
    (hunknown : escapes.lookup c = none) {skipped : List Char}
    (hskipped : ∀ d ∈ skipped, d ≠ '\n' ∧ d ≠ '"') (pos : Position) (rest : List Char) :
    lexFrom pos ('"' :: (written before ++ '\\' :: c :: (skipped ++ '"' :: rest))) =
      (lexFrom (pos.after ('"' :: (written before ++ '\\' :: c :: (skipped ++ ['"']))))
        rest).withError (.unknownEscape pos before c) := by
  rw [lexFrom_cut (Piece.cut_unknownEscape h hunknown hskipped rest)]
  rfl

/-- **A literal with an unknown escape costs one error, and no token.**  The error is about the
first unknown escape.  If no quote stands behind a backslash after it, then lexing goes on behind
the literal.  Otherwise it goes on inside the literal, behind the first quote of that kind. -/
theorem lexFrom_unknownEscape {glyphs : List Glyph} (h : ∃ glyph ∈ glyphs, glyph.denotes? = none) :
    ∃ before c hc after, glyphs = before ++ .escape c hc :: after ∧ Known before ∧
      escapes.lookup c = none ∧ ∀ pos rest,
        ((∀ glyph ∈ after, glyph.isQuote = false) →
          lexFrom pos (literal glyphs ++ rest) =
            (lexFrom (pos.after (literal glyphs)) rest).withError (.unknownEscape pos before c)) ∧
        ∀ skipped quoted tail, after = skipped ++ quoted :: tail →
          (∀ glyph ∈ skipped, glyph.isQuote = false) → quoted.isQuote = true →
          lexFrom pos (literal glyphs ++ rest) =
            (lexFrom (pos.after ('"' :: written (before ++ .escape c hc :: (skipped ++ [quoted]))))
              (written tail ++ '"' :: rest)).withError (.unknownEscape pos before c) := by
  obtain ⟨before, c, hc, after, rfl, hknown, hunknown⟩ := exists_firstUnknown h
  refine ⟨before, c, hc, after, rfl, hknown, hunknown, fun pos rest => ⟨fun hafter => ?_, ?_⟩⟩
  · have hlex := lexFrom_badEscape hknown hunknown (inLiteral_written hafter) pos rest
    simpa [literal] using hlex
  · rintro skipped quoted tail rfl hskipped hquoted
    have hpassed : ∀ d ∈ written skipped ++ ['\\'], d ≠ '\n' ∧ d ≠ '"' := by
      intro d hd
      rcases List.mem_append.1 hd with hd | hd
      · exact inLiteral_written hskipped d hd
      · obtain rfl := List.mem_singleton.1 hd
        decide
    have hlex := lexFrom_badEscape hknown hunknown hpassed pos (written tail ++ '"' :: rest)
    simpa [literal, Glyph.text_of_isQuote hquoted] using hlex

/-- What stands behind an escaped quote is lexed as code if an unknown escape stands in front of
it, and the closing quote then opens a literal. -/
theorem lexFrom_unknownEscape_quote :
    (∃ glyph ∈ [Glyph.escape 'q' (by decide), .escape '"' (by decide), .plain 'x' (by decide)],
      glyph.denotes? = none) ∧
      ∀ rest, lexFrom {} ("\"\\q\\\"x\"".toList ++ rest) =
        (lexFrom ⟨1, 6⟩ ("x\"".toList ++ rest)).withError (.unknownEscape {} [] 'q') := by
  have hunknown : ∃ glyph ∈ [Glyph.escape 'q' (by decide), .escape '"' (by decide),
      .plain 'x' (by decide)], glyph.denotes? = none := by decide
  obtain ⟨before, c, hc, after, hglyphs, hknown, -, hlex⟩ := lexFrom_unknownEscape hunknown
  refine ⟨hunknown, fun rest => ?_⟩
  cases before with
  | nil =>
      cases hglyphs
      exact (hlex {} rest).2 [] _ [.plain 'x' (by decide)] rfl (by simp) rfl
  | cons first before =>
      obtain rfl := (List.cons.inj hglyphs).1
      exact absurd rfl (hknown _ (List.mem_cons_self ..))

/-- Lexing need not go on behind a literal with an unknown escape. -/
theorem lexFrom_resumes_inside :
    ¬ ∀ glyphs : List Glyph, (∃ glyph ∈ glyphs, glyph.denotes? = none) → ∀ pos rest,
      ∃ error, lexFrom pos (literal glyphs ++ rest) =
        (lexFrom (pos.after (literal glyphs)) rest).withError error := by
  intro h
  obtain ⟨error, hlex⟩ := h
    [.escape 'q' (by decide), .escape '"' (by decide), .plain 'x' (by decide)] (by decide) {} []
  have htokens : (lexFrom {} "\"\\q\\\"x\"".toList).tokens = (lexFrom ⟨1, 8⟩ []).tokens :=
    (congrArg Lexed.tokens hlex :)
  exact absurd htokens (by decide +kernel)

end ClassLang
