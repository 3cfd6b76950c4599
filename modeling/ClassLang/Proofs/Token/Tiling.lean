import ClassLang.Proofs.Token.Pieces
import ClassLang.Proofs.Token.Stream
import Mathlib.Data.List.TakeWhile

/-!
# Tokens tile the source

Each token is the text at its place, the tokens stand one behind another, and the end mark stands
behind all of them; where no lexical error was met, what stands between two tokens is white space
and complete comments (`tiles_lex`).

A place is a line and a column, so the first question is which byte of the source it denotes
(`Span.offset`): the line starts behind as many line feeds as there are lines above it.  The
position that lexing keeps up denotes the end of the text in front of it (`offset_after`), whatever
characters that text has.  The rest is one induction over the pieces (`Tiled`): a piece that is no
token makes the gap in front of the next token longer.
-/

namespace ClassLang

/-! ## Places -/

/-- The number of bytes in front of a line: those of the lines above it, each with its line feed. -/
def Text.lineStart (text : List Char) (line : Nat) : Nat :=
  byteLength (((text.splitOn '\n').take (line - 1)).flatMap (· ++ ['\n']))

/-- The number of bytes in front of a span. -/
def Span.offset (source : List Char) (span : Span) : Nat :=
  Text.lineStart source span.line + span.col - 1

/-- The number of bytes up to the end of a span. -/
def Span.stop (source : List Char) (span : Span) : Nat := span.offset source + span.len

namespace Text

theorem byteLength_pos {text : List Char} (h : text ≠ []) : 0 < byteLength text := by
  cases text with
  | nil => exact absurd rfl h
  | cons c rest =>
      have hsize := c.utf8Size_pos
      rw [byteLength_cons]
      omega

@[simp] theorem lineStart_one (text : List Char) : lineStart text 1 = 0 := by
  simp [lineStart]

theorem splitOn_newline (text : List Char) :
    ('\n' :: text).splitOn '\n' = [] :: text.splitOn '\n' := by
  simp [List.splitOn, List.splitOnP_cons_eq_if_modifyHead]

theorem splitOn_cons_of_ne {c : Char} (h : c ≠ '\n') (text : List Char) :
    (c :: text).splitOn '\n' = (text.splitOn '\n').modifyHead (c :: ·) := by
  simp [List.splitOn, List.splitOnP_cons_eq_if_modifyHead, h]

/-- Behind a line feed the lines are those of the rest. -/
theorem lineStart_newline (text : List Char) (line : Nat) :
    lineStart ('\n' :: text) (line + 2) = 1 + lineStart text (line + 1) := by
  have hsize : Char.utf8Size '\n' = 1 := by decide
  simp [lineStart, splitOn_newline, hsize]

/-- A character in the first line is in front of all other lines. -/
theorem lineStart_cons {c : Char} (h : c ≠ '\n') (text : List Char) (line : Nat) :
    lineStart (c :: text) (line + 2) = c.utf8Size + lineStart text (line + 2) := by
  have hne : text.splitOn '\n' ≠ [] := List.splitOnP_ne_nil _ _
  rw [lineStart, lineStart, splitOn_cons_of_ne h]
  cases hlines : text.splitOn '\n' with
  | nil => exact absurd hlines hne
  | cons first lines => simp

/-- The last line of a text starts behind its last line feed. -/
theorem lineStart_after (pos : Position) (front back : List Char) {line : Nat}
    (h : front.count '\n' = line + 1) :
    lineStart (front ++ back) (line + 2) + (pos.after front).col = byteLength front + 1 := by
  induction front generalizing pos line with
  | nil => simp at h
  | cons c rest ih =>
      rw [List.cons_append, Position.after_cons, byteLength_cons]
      by_cases hc : c = '\n'
      · subst hc
        rw [List.count_cons_self] at h
        rw [lineStart_newline, Position.step_newline]
        have hsize : Char.utf8Size '\n' = 1 := by decide
        cases line with
        | zero =>
            have hlast : '\n' ∉ rest := List.count_eq_zero.1 (by omega)
            rw [Position.after_of_not_mem _ hlast, lineStart_one]
            simp only [hsize]
            omega
        | succ line =>
            have hrest : lineStart (rest ++ back) (line + 1 + 1) +
                (Position.after ⟨pos.line + 1, 1⟩ rest).col = byteLength rest + 1 :=
              ih ⟨pos.line + 1, 1⟩ (by omega)
            omega
      · rw [List.count_cons_of_ne hc] at h
        have hrest := ih (pos.step c) h
        rw [lineStart_cons hc]
        omega

end Text

/-- **The position behind a text denotes its end**, whatever stands behind it. -/
theorem offset_after (front back : List Char) (len : Nat) :
    Span.offset (front ++ back)
      ⟨(Position.after {} front).line, (Position.after {} front).col, len⟩ =
        Text.byteLength front := by
  rw [Span.offset, Position.line_after]
  cases hcount : front.count '\n' with
  | zero =>
      rw [Position.after_of_not_mem _ (List.count_eq_zero.1 hcount), Text.lineStart_one]
      simp only
      omega
  | succ line =>
      have hlast := Text.lineStart_after {} front back hcount
      have hline : ({} : Position).line + (line + 1) = line + 2 := by simp only; omega
      simp only [hline]
      omega

/-! ## Gaps -/

/-- Text that consists of white space and complete comments, in front of `back`: a line comment goes
to the end of its line, and a block comment ends with the first mark for its end. -/
inductive Trivia (back : List Char) : List Char → Prop
  | nil : Trivia back []
  | blank {c : Char} {gap : List Char} (hblank : Text.isBlank c = true) (h : Trivia back gap) :
      Trivia back (c :: gap)
  | lineComment {body gap : List Char} (hbody : '\n' ∉ body)
      (hend : ∀ c ∈ (gap ++ back).head?, c = '\n') (h : Trivia back gap) :
      Trivia back ('/' :: '/' :: (body ++ gap))
  | blockComment {body gap : List Char} (hbody : ¬ ['*', '/'] <:+: body) (h : Trivia back gap) :
      Trivia back ('/' :: '*' :: (body ++ '*' :: '/' :: gap))

theorem Trivia.blanks {back gap text : List Char} (htext : ∀ c ∈ text, Text.isBlank c = true)
    (h : Trivia back gap) : Trivia back (text ++ gap) := by
  induction text with
  | nil => exact h
  | cons c rest ih =>
      rw [List.forall_mem_cons] at htext
      exact .blank htext.1 (ih htext.2)

namespace Piece

/-- **A piece that is neither token nor error is white space or a complete comment.** -/
theorem trivia_cut {c : Char} {rest gap back : List Char} (hkind : (cut c rest).1.tokenKind? = none)
    (hclean : (cut c rest).1.error? {} = none) (hrest : (cut c rest).2 = gap ++ back)
    (h : Trivia back gap) : Trivia back ((cut c rest).1.text ++ gap) := by
  revert hkind hclean hrest
  unfold cut
  split
  · exact fun _ _ _ => .blanks (fun d hd => List.mem_takeWhile_imp hd) h
  split
  · next hslash =>
      obtain ⟨rfl, tail, rfl⟩ : c = '/' ∧ ∃ tail, rest = '/' :: tail := by
        cases rest <;> simp_all
      intro _ _ hrest
      have hends : ∀ d ∈ (gap ++ back).head?, d = '\n' := by
        intro d hd
        have hstop := List.head?_dropWhile_not (· != '\n') ('/' :: '/' :: tail)
        have hdrop : ('/' :: '/' :: tail).dropWhile (· != '\n') = gap ++ back := hrest
        rw [hdrop, Option.mem_def.1 hd] at hstop
        simpa using hstop
      have hbody : '\n' ∉ tail.takeWhile (· != '\n') := fun hmem => by
        simpa using List.mem_takeWhile_imp hmem
      exact .lineComment hbody hends h
  split
  · next hstar =>
      obtain ⟨rfl, tail, rfl⟩ : c = '/' ∧ ∃ tail, rest = '*' :: tail := by
        cases rest <;> simp_all
      intro _ hclean _
      rcases cutComment_cases tail with hopen | ⟨body, hbody, hpiece⟩
      · simp [error?, kind_extend_eq, hopen] at hclean
      · simpa [hpiece] using Trivia.blockComment hbody h
  split
  · intro hkind hclean
    rcases kind_cutString_cases rest with hstring | hopen | ⟨before, d, hescape⟩
    · simp [tokenKind?, kind_extend_eq, hstring] at hkind
    · simp [error?, kind_extend_eq, hopen] at hclean
    · simp [error?, kind_extend_eq, hescape] at hclean
  split
  · exact nofun
  split
  · exact nofun
  split
  · exact nofun
  · exact fun _ => nofun

end Piece

/-! ## Tokens and gaps by turns -/

/-- A token with a lexeme that starts at a position. -/
def Token.placed (kind : TokenKind) (lexeme : List Char) (pos : Position) : Token :=
  ⟨kind, String.ofList lexeme, pos.line, pos.col, Text.byteLength lexeme⟩

/-- Behind `front`, the text is gaps and the lexemes of the tokens by turns, up to the end mark.  If
it is clean, the gaps hold nothing but white space and complete comments. -/
inductive Tiled (clean : Prop) : List Char → List Char → List Token → Prop
  | eof {front gap : List Char} (hgap : clean → Trivia [] gap) :
      Tiled clean front gap [.placed .eof [] (Position.after {} (front ++ gap))]
  | token {front gap lexeme rest : List Char} {kind : TokenKind} {tokens : List Token}
      (hgap : clean → Trivia (lexeme ++ rest) gap) (hlexeme : lexeme ≠ [])
      (h : Tiled clean (front ++ gap ++ lexeme) rest tokens) :
      Tiled clean front (gap ++ (lexeme ++ rest))
        (.placed kind lexeme (Position.after {} (front ++ gap)) :: tokens)

namespace Tiled

variable {clean : Prop} {source front text : List Char} {all : List Token}

/-- A token may follow without a gap. -/
theorem lexeme {kind : TokenKind} {lexeme : List Char} (hlexeme : lexeme ≠ [])
    (h : Tiled clean (front ++ lexeme) text all) :
    Tiled clean front (lexeme ++ text) (.placed kind lexeme (Position.after {} front) :: all) := by
  rw [← List.append_nil front] at h
  have htoken : Tiled clean front ([] ++ (lexeme ++ text))
      (.placed kind lexeme (Position.after {} (front ++ [])) :: all) :=
    .token (fun _ => .nil) hlexeme h
  rwa [List.append_nil] at htoken

/-- Text that is no token makes the first gap longer. -/
theorem extend {front' more : List Char} (hfront : front' = front ++ more)
    (hmore : clean → ∀ gap back, text = gap ++ back → Trivia back gap → Trivia back (more ++ gap))
    (h : Tiled clean front' text all) : Tiled clean front (more ++ text) all := by
  cases h with
  | eof hgap =>
      rw [hfront, List.append_assoc]
      exact .eof fun hclean => hmore hclean _ [] (List.append_nil _).symm (hgap hclean)
  | token hgap hlexeme h =>
      rw [hfront, List.append_assoc front] at h ⊢
      rw [← List.append_assoc more]
      exact .token (fun hclean => hmore hclean _ _ rfl (hgap hclean)) hlexeme h

end Tiled

namespace Piece

/-- Whether a piece is an error does not depend on where it stands. -/
theorem error?_eq_none {piece : Piece} {pos : Position} (h : piece.error? pos = none)
    (pos' : Position) : piece.error? pos' = none := by
  unfold error? at h ⊢
  cases hkind : piece.kind <;> simp_all

theorem error?_of_errors {pieces : List Piece} {pos : Position} (h : errors pos pieces = []) :
    ∀ piece ∈ pieces, piece.error? {} = none := by
  induction pieces generalizing pos with
  | nil => exact fun _ hpiece => nomatch hpiece
  | cons piece rest ih =>
      obtain ⟨hfirst, hrest⟩ := List.append_eq_nil_iff.1 h
      rw [Option.toList_eq_nil_iff] at hfirst
      exact List.forall_mem_cons.2 ⟨error?_eq_none hfirst _, ih hrest⟩

/-- **The tokens of a text tile it.** -/
theorem tiled {clean : Prop} (front text : List Char)
    (hclean : clean → ∀ piece ∈ pieces text, piece.error? {} = none) :
    Tiled clean front text (tokens (Position.after {} front) (pieces text) ++
      [.placed .eof [] (Position.after {} (front ++ text))]) := by
  induction text using cut_induction generalizing front with
  | nil => exact .eof fun _ => .nil
  | cons c rest ih =>
      rw [pieces_cons] at hclean ⊢
      have hleft := ih (front ++ (cut c rest).1.text) fun h => (List.forall_mem_cons.1 (hclean h)).2
      rw [Position.after_append, List.append_assoc] at hleft
      rw [tokens, token?, ← cut_append c rest]
      cases hkind : (cut c rest).1.tokenKind? with
      | none =>
          refine .extend rfl (fun h gap back hrest => ?_) hleft
          exact trivia_cut hkind (List.forall_mem_cons.1 (hclean h)).1 hrest
      | some kind =>
          exact .lexeme (text_cut_ne_nil c rest) hleft

end Piece

/-! ## What a tiling says of the tokens -/

/-- A token is the text at its place, and its line is what the line feeds in front of it make it. -/
def Token.IsAt (source : List Char) (token : Token) : Prop :=
  ∃ before after, source = before ++ (token.lexeme.toList ++ after) ∧
    token.span.offset source = Text.byteLength before ∧
    token.span.len = Text.byteLength token.lexeme.toList ∧
    token.span.line = before.count '\n' + 1 ∧ 1 ≤ token.span.col

/-- A token stands in front of another, and ends where that one starts or before. -/
def Token.Precedes (source : List Char) (token next : Token) : Prop :=
  token.span.offset source < next.span.offset source ∧
    token.span.stop source ≤ next.span.offset source

theorem Token.offset_placed {source front back : List Char} (hsource : source = front ++ back)
    (kind : TokenKind) (lexeme : List Char) :
    (Token.placed kind lexeme (Position.after {} front)).span.offset source =
      Text.byteLength front := by
  rw [hsource]
  exact offset_after front back _

theorem Token.placed_isAt {source front lexeme back : List Char}
    (hsource : source = front ++ (lexeme ++ back)) (kind : TokenKind) :
    (Token.placed kind lexeme (Position.after {} front)).IsAt source :=
  ⟨front, back, by simpa [placed] using hsource, offset_placed hsource .., by simp [placed],
    (Position.line_after ..).trans (Nat.add_comm ..), Position.one_le_col_after (Nat.le_refl _) _⟩

namespace Tiled

variable {clean : Prop} {source front text : List Char} {all : List Token}

/-- All tokens are the texts at their places. -/
theorem isAt (hsource : source = front ++ text) (h : Tiled clean front text all) :
    ∀ token ∈ all, token.IsAt source := by
  induction h with
  | eof =>
      have hend := hsource.trans (List.append_nil _).symm
      exact List.forall_mem_singleton.2 (Token.placed_isAt hend _)
  | token _ _ _ ih =>
      exact List.forall_mem_cons.2
        ⟨Token.placed_isAt (by simpa using hsource) _, ih (by simpa using hsource)⟩

/-- No token starts in front of the text. -/
theorem le_offset (hsource : source = front ++ text) (h : Tiled clean front text all) :
    ∀ token ∈ all, Text.byteLength front ≤ token.span.offset source := by
  induction h with
  | eof =>
      have hend := hsource.trans (List.append_nil _).symm
      rw [List.forall_mem_singleton, Token.offset_placed hend, Text.byteLength_append]
      exact Nat.le_add_right ..
  | token _ _ _ ih =>
      rw [List.forall_mem_cons, Token.offset_placed (by simpa using hsource)]
      have hrest := ih (by simpa using hsource)
      simp only [Text.byteLength_append] at hrest ⊢
      exact ⟨Nat.le_add_right .., fun next hnext => by have := hrest next hnext; omega⟩

/-- Each token stands in front of those behind it in the list. -/
theorem ordered (hsource : source = front ++ text) (h : Tiled clean front text all) :
    all.Pairwise (Token.Precedes source) := by
  induction h with
  | eof => exact List.pairwise_singleton ..
  | @token front gap lexeme rest kind tokens _ hlexeme h ih =>
      have hbehind : source = front ++ gap ++ lexeme ++ rest := by simpa using hsource
      have hfirst := Token.offset_placed (by simpa using hsource : source = front ++ gap ++ _)
        kind lexeme
      have hsize := Text.byteLength_pos hlexeme
      refine List.pairwise_cons.2 ⟨fun next hnext => ?_, ih hbehind⟩
      have hafter := h.le_offset hbehind next hnext
      rw [Text.byteLength_append] at hafter
      rw [Token.Precedes, Span.stop, hfirst]
      exact ⟨by omega, hafter⟩

/-- In front of each token, behind the one before it, there is only white space and complete
comments. -/
theorem gaps (hclean : clean) (hsource : source = front ++ text) (h : Tiled clean front text all)
    {before after : List Token} {token : Token} (hall : all = before ++ token :: after) :
    ∃ start gap back, source = start ++ (gap ++ back) ∧
      Text.byteLength start =
        (before.getLast?.map (·.span.stop source)).getD (Text.byteLength front) ∧
      token.span.offset source = Text.byteLength (start ++ gap) ∧ Trivia back gap := by
  induction h generalizing before with
  | @eof front gap hgap =>
      obtain ⟨rfl, rfl, -⟩ : before = [] ∧ token = _ ∧ after = [] := by
        simpa [List.singleton_eq_append_iff] using hall
      have hend := hsource.trans (List.append_nil _).symm
      exact ⟨front, gap, [], by simpa using hsource, rfl, Token.offset_placed hend .., hgap hclean⟩
  | @token front gap lexeme rest kind tokens hgap _ _ ih =>
      have hfirst := Token.offset_placed (by simpa using hsource : source = front ++ gap ++ _)
        kind lexeme
      cases before with
      | nil =>
          obtain ⟨rfl, -⟩ := List.cons.inj hall
          exact ⟨front, gap, lexeme ++ rest, hsource, rfl, hfirst, hgap hclean⟩
      | cons first before =>
          obtain ⟨rfl, hrest⟩ := List.cons.inj hall
          obtain ⟨start, gap', back, hsplit, hstart, hoffset, htrivia⟩ :=
            ih (by simpa using hsource) hrest
          refine ⟨start, gap', back, hsplit, ?_, hoffset, htrivia⟩
          have hstop : (Token.placed kind lexeme (Position.after {} (front ++ gap))).span.stop
              source = Text.byteLength (front ++ gap ++ lexeme) := by
            rw [Span.stop, hfirst, Text.byteLength_append _ lexeme]
            rfl
          rw [hstart, ← hstop, List.getLast?_cons, Option.map_some, Option.getD_some]
          cases before.getLast? <;> rfl

end Tiled

/-! ## What lexing gives -/

/-- All tokens of a source, the end mark behind the others. -/
def Lexed.all (lexed : Lexed) : List Token := lexed.tokens ++ [lexed.eof]

/-- The tokens tile the source. -/
structure Lexed.Tiles (source : List Char) (lexed : Lexed) : Prop where
  lexemes : ∀ token ∈ lexed.all, token.IsAt source
  ordered : lexed.all.Pairwise (Token.Precedes source)
  /-- There is one end mark, and it stands at the end of the source. -/
  kinds : ∀ token ∈ lexed.tokens, token.kind ≠ .eof
  eof : lexed.eof.kind = .eof ∧ lexed.eof.lexeme = "" ∧
    lexed.eof.span.offset source = Text.byteLength source
  /-- Between the end of a token, or the start of the source, and the next token there is only white
  space and complete comments, if nothing is wrong. -/
  gaps : lexed.errors = [] → ∀ before token after, lexed.all = before ++ token :: after →
    ∃ front gap back, source = front ++ (gap ++ back) ∧
      Text.byteLength front = (before.getLast?.map (·.span.stop source)).getD 0 ∧
      token.span.offset source = Text.byteLength (front ++ gap) ∧ Trivia back gap

/-- **The tokens of a source tile it**, if positions are counted without a bound. -/
theorem tiles_lex (source : String) : (lex source).Tiles source.toList := by
  have htiled : Tiled ((lex source).errors = []) [] source.toList (lex source).all :=
    Piece.tiled [] source.toList fun hclean => Piece.error?_of_errors hclean
  exact
    { lexemes := htiled.isAt rfl
      ordered := htiled.ordered rfl
      kinds := lex_kind_ne_eof source
      eof := ⟨rfl, rfl, Token.offset_placed (List.append_nil _).symm .eof []⟩
      gaps := fun hclean _ _ _ hall => htiled.gaps hclean rfl hall }

-- The word stands in the fifth column of the second line, which is byte 10.
example : (lex "/* ü\n */ b").all.map (·.span.offset "/* ü\n */ b".toList) = [10, 11] := by
  decide +kernel

end ClassLang
