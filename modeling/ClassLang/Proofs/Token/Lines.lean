import ClassLang.Proofs.Token.Newline
import ClassLang.Token.Stream

/-!
# Lexing goes line by line

Outside block comments a line is lexed by itself: what stands in front of a line feed and what
stands behind it give their tokens and errors as if each stood alone, unless an escape is open at
the line feed (`lex_newline`).  In that case the next line is read as if it had white space up to
its first quote.

White space runs on across the line feed, so pieces do not add up.  The pieces that are not white
space do, with the positions where they start (`Piece.placed`): the induction is on the text, one
character of white space or one other piece at a time.
-/

namespace ClassLang

/-! ## Lines further down -/

/-- The position some lines further down. -/
def Position.down (lines : Nat) (pos : Position) : Position := { pos with line := pos.line + lines }

/-- The span some lines further down. -/
def Span.down (lines : Nat) (span : Span) : Span := { span with line := span.line + lines }

/-- The token some lines further down. -/
def Token.down (lines : Nat) (token : Token) : Token :=
  { token with span := token.span.down lines }

/-- The error some lines further down. -/
def LexError.down (lines : Nat) : LexError → LexError
  | .unexpectedChar c span => .unexpectedChar c (span.down lines)
  | .unterminatedString span => .unterminatedString (span.down lines)
  | .unterminatedComment span => .unterminatedComment (span.down lines)
  | .invalidEscape c span => .invalidEscape c (span.down lines)
  | .invalidNumber span detail => .invalidNumber (span.down lines) detail

/-- A space is one byte. -/
theorem Text.byteLength_spaces (n : Nat) : byteLength (List.replicate n ' ') = n := by
  induction n with
  | zero => rfl
  | succ n ih =>
      have hsize : Char.utf8Size ' ' = 1 := by decide
      rw [List.replicate_succ, byteLength_cons, ih, hsize, Nat.add_comm]

namespace Position

/-- A step goes the same way some lines further down. -/
theorem step_down (lines : Nat) (pos : Position) (c : Char) :
    (pos.down lines).step c = (pos.step c).down lines := by
  by_cases hc : c = '\n'
  · rw [hc, step_newline, step_newline, down, down, Nat.add_right_comm]
  · rw [step_of_ne _ hc, step_of_ne _ hc]
    rfl

/-- A text goes the same way some lines further down. -/
theorem after_down (lines : Nat) (pos : Position) (text : List Char) :
    (pos.down lines).after text = (pos.after text).down lines := by
  induction text generalizing pos with
  | nil => rfl
  | cons c rest ih => rw [after_cons, after_cons, step_down, ih]

/-- Behind a line feed a line starts, below those in front. -/
theorem step_newline_after (text : List Char) :
    (after {} text).step '\n' = ({} : Position).down (1 + text.count '\n') := by
  rw [step_newline, line_after, down, ← Nat.add_assoc, Nat.add_right_comm]

/-- A blotted text ends where the text does. -/
theorem after_blot (pos : Position) (text : List Char) :
    pos.after (Text.blot text) = pos.after text := by
  fun_induction Text.blot text generalizing pos with
  | case1 => rfl
  | case2 rest => rfl
  | case3 rest => rfl
  | case4 c rest hnewline hquote ih =>
      have hfree : '\n' ∉ List.replicate c.utf8Size ' ' := fun hmem =>
        absurd (List.eq_of_mem_replicate hmem) (by decide)
      rw [after_append, after_of_not_mem pos hfree, Text.byteLength_spaces, ih, after_cons,
        step_of_ne pos hnewline]

end Position

/-! ## Where the pieces stand -/

namespace Piece

/-- A piece gives the same token some lines further down. -/
theorem token?_down (lines : Nat) (piece : Piece) (pos : Position) :
    piece.token? (pos.down lines) = (piece.token? pos).map (Token.down lines) := by
  unfold token?
  cases piece.tokenKind? <;> rfl

/-- A piece gives the same error some lines further down. -/
theorem error?_down (lines : Nat) (piece : Piece) (pos : Position) :
    piece.error? (pos.down lines) = (piece.error? pos).map (LexError.down lines) := by
  unfold error?
  cases piece.kind <;> rfl

/-- The pieces that are not white space, each with the position where it starts. -/
def placedFrom (pos : Position) : List Piece → List (Position × Piece)
  | [] => []
  | piece :: rest =>
    (if piece.kind = .blank then [] else [(pos, piece)]) ++ placedFrom (pos.after piece.text) rest

/-- The pieces of a text that are not white space, each with the position where it starts. -/
def placed (pos : Position) (text : List Char) : List (Position × Piece) :=
  placedFrom pos (pieces text)

/-- The tokens among pieces. -/
def tokensOf (found : List (Position × Piece)) : List Token :=
  found.filterMap fun f => f.2.token? f.1

/-- The errors among pieces. -/
def errorsOf (found : List (Position × Piece)) : List LexError :=
  found.filterMap fun f => f.2.error? f.1

/-- The tokens of pieces in two parts come one part behind the other. -/
theorem tokensOf_append (found found' : List (Position × Piece)) :
    tokensOf (found ++ found') = tokensOf found ++ tokensOf found' :=
  List.filterMap_append

/-- The errors of pieces in two parts come one part behind the other. -/
theorem errorsOf_append (found found' : List (Position × Piece)) :
    errorsOf (found ++ found') = errorsOf found ++ errorsOf found' :=
  List.filterMap_append

/-- White space gives no token. -/
theorem tokens_eq (pos : Position) (pieces : List Piece) :
    tokens pos pieces = tokensOf (placedFrom pos pieces) := by
  induction pieces generalizing pos with
  | nil => rfl
  | cons piece rest ih =>
      rw [tokens, placedFrom, ih, tokensOf_append]
      by_cases hblank : piece.kind = .blank
      · simp [tokensOf, hblank, token?, tokenKind?]
      · rw [if_neg hblank]
        cases htoken : piece.token? pos <;> simp [tokensOf, htoken]

/-- White space gives no error. -/
theorem errors_eq (pos : Position) (pieces : List Piece) :
    errors pos pieces = errorsOf (placedFrom pos pieces) := by
  induction pieces generalizing pos with
  | nil => rfl
  | cons piece rest ih =>
      rw [errors, placedFrom, ih, errorsOf_append]
      by_cases hblank : piece.kind = .blank
      · simp [errorsOf, hblank, error?]
      · rw [if_neg hblank]
        cases herror : piece.error? pos <;> simp [errorsOf, herror]

/-- The pieces of a text are the same some lines further down. -/
theorem placedFrom_down (lines : Nat) (pos : Position) (pieces : List Piece) :
    placedFrom (pos.down lines) pieces =
      (placedFrom pos pieces).map fun found => (found.1.down lines, found.2) := by
  induction pieces generalizing pos with
  | nil => rfl
  | cons piece rest ih =>
      rw [placedFrom, placedFrom, Position.after_down, ih, List.map_append]
      split <;> rfl

/-- White space in front only moves what stands behind it. -/
theorem placed_skip (pos : Position) (text : List Char) :
    placed pos text =
      placed (pos.after (text.takeWhile Text.isBlank)) (text.dropWhile Text.isBlank) := by
  cases text with
  | nil => rfl
  | cons c rest =>
      by_cases hblank : Text.isBlank c = true
      · rw [placed, pieces_cons, cut, if_pos hblank]
        rfl
      · rw [List.takeWhile_cons_of_neg hblank, List.dropWhile_cons_of_neg hblank,
          Position.after_nil]

@[simp] theorem placed_nil (pos : Position) : placed pos [] = [] := rfl

/-- White space in front of a text moves it on by one step. -/
theorem placed_blank {c : Char} (h : Text.isBlank c = true) (pos : Position) (rest : List Char) :
    placed pos (c :: rest) = placed (pos.step c) rest := by
  rw [placed_skip, placed_skip (pos.step c), List.takeWhile_cons_of_pos h,
    List.dropWhile_cons_of_pos h, Position.after_cons]

/-- A piece that is not white space stands in front of the pieces behind it. -/
theorem placed_cut {c : Char} (h : ¬ Text.isBlank c = true) (pos : Position) (rest : List Char) :
    placed pos (c :: rest) =
      (pos, (cut c rest).1) :: placed (pos.after (cut c rest).1.text) (cut c rest).2 := by
  rw [placed, pieces_cons, placedFrom, if_neg (mt isBlank_of_kind_cut h)]
  rfl

/-- From what is left of a text behind its first character, if that is white space, or else behind
its first piece, to the whole text. -/
theorem placed_induction {motive : List Char → Prop} (nil : motive [])
    (blank : ∀ c rest, Text.isBlank c = true → motive rest → motive (c :: rest))
    (piece : ∀ c rest, ¬ Text.isBlank c = true → motive (cut c rest).2 → motive (c :: rest)) :
    ∀ text, motive text
  | [] => nil
  | c :: rest =>
    if hblank : Text.isBlank c = true then
      blank c rest hblank (placed_induction nil blank piece rest)
    else
      piece c rest hblank (placed_induction nil blank piece (cut c rest).2)
termination_by text => text.length
decreasing_by
  · exact Nat.lt_succ_self _
  · exact length_cut_lt c rest

/-! ## Lines one behind another -/

/-- Spaces in front of a text move it on by as many columns. -/
theorem placed_replicate (pos : Position) (n : Nat) (text : List Char) :
    placed pos (List.replicate n ' ' ++ text) = placed ⟨pos.line, pos.col + n⟩ text := by
  induction n generalizing pos with
  | zero => rfl
  | succ n ih =>
      rw [List.replicate_succ, List.cons_append, placed_blank (by decide), ih,
        Position.step_of_ne pos (by decide)]
      have hsize : Char.utf8Size ' ' = 1 := by decide
      rw [hsize, Nat.add_assoc, Nat.add_comm 1]

/-- **What stands behind a line feed is cut as if it stood alone.** -/
theorem placed_newline {pos : Position} {text : List Char}
    (hopen : ∀ found ∈ placed pos text, found.2.kind ≠ .openComment)
    (hescape : ∀ found ∈ placed pos text, found.2.isDangling = false) (next : List Char) :
    placed pos (text ++ '\n' :: next) =
      placed pos text ++ placed ((pos.after text).step '\n') next := by
  induction text using placed_induction generalizing pos with
  -- The line feed may go on with white space of the text, so that is taken by the character.
  | nil => exact placed_blank (by decide) pos next
  | blank c rest hblank ih =>
      rw [placed_blank hblank] at hopen hescape
      rw [List.cons_append, placed_blank hblank, placed_blank hblank, ih hopen hescape]
      rfl
  | piece c rest hblank ih =>
      rw [placed_cut hblank, List.forall_mem_cons] at hopen hescape
      rw [List.cons_append, placed_cut hblank, cut_newline hblank hopen.1 hescape.1, beforeLine,
        placed_cut hblank, ih hopen.2 hescape.2, ← Position.after_append, cut_append]
      rfl

/-- **Behind an open escape the next lines are cut as if their front was blotted out.** -/
theorem placed_dangling {pos : Position} {text : List Char}
    (hopen : ∀ found ∈ placed pos text, found.2.kind ≠ .openComment)
    (hescape : ∃ found ∈ placed pos text, found.2.isDangling = true) :
    ∃ before start body,
      placed pos text = before ++ [(start, ⟨.openString, '"' :: (body ++ ['\\'])⟩)] ∧
      pos.after text = ⟨start.line, start.col + Text.byteLength ('"' :: body) + 1⟩ ∧
      ∀ next, ∃ more, placed pos (text ++ '\n' :: next) =
        before ++ (start, ⟨.badEscape ('"' :: body) '\n', more⟩) ::
          placed ((pos.after text).step '\n') (Text.blot next) := by
  induction text using placed_induction generalizing pos with
  | nil => simp at hescape
  | blank c rest hblank ih =>
      rw [placed_blank hblank] at hopen hescape
      obtain ⟨before, start, body, hplaced, hafter, hnext⟩ := ih hopen hescape
      refine ⟨before, start, body, (placed_blank hblank ..).trans hplaced, hafter, fun next => ?_⟩
      rw [List.cons_append, placed_blank hblank]
      exact hnext next
  | piece c rest hblank ih =>
      rw [placed_cut hblank] at hopen hescape ⊢
      rw [List.forall_mem_cons] at hopen
      -- A dangling piece is the last one, so it is either this piece or behind it.
      by_cases hfirst : (cut c rest).1.isDangling = true
      · obtain ⟨body, hcut, hbody, hnext⟩ := cut_dangling hfirst
        have htext := cut_append c rest
        rw [hcut, List.append_nil] at htext
        have hfree : '\n' ∉ '"' :: (body ++ ['\\']) := by simp [hbody]
        refine ⟨[], pos, body, by rw [hcut]; rfl, ?_, fun next => ?_⟩
        · have hsize : Char.utf8Size '\\' = 1 := by decide
          rw [← htext, Position.after_of_not_mem pos hfree]
          simp [hsize, Nat.add_assoc]
        · obtain ⟨skipped, left, hline, hskipped, hblot⟩ := hnext next
          have hwhole :
              '"' :: (body ++ '\\' :: '\n' :: skipped) = c :: rest ++ '\n' :: skipped := by
            rw [← htext]
            simp
          refine ⟨c :: rest ++ '\n' :: skipped, ?_⟩
          rw [List.cons_append, placed_cut hblank, hline, hblot, placed_replicate, hwhole,
            Position.after_append, Position.after_cons _ '\n', Position.after_of_not_mem _ hskipped]
          rfl
      · have hrest : ∃ found ∈ placed (pos.after (cut c rest).1.text) (cut c rest).2,
            found.2.isDangling = true := by
          obtain ⟨found, hfound, hdangling⟩ := hescape
          rcases List.mem_cons.1 hfound with rfl | hfound
          · exact absurd hdangling hfirst
          · exact ⟨found, hfound, hdangling⟩
        obtain ⟨before, start, body, hplaced, hafter, hnext⟩ := ih hopen.2 hrest
        rw [← Position.after_append, cut_append] at hafter hnext
        refine ⟨(pos, (cut c rest).1) :: before, start, body, ?_, hafter, fun next => ?_⟩
        · rw [hplaced]
          rfl
        · obtain ⟨more, hmore⟩ := hnext next
          refine ⟨more, ?_⟩
          rw [List.cons_append, placed_cut hblank,
            cut_newline hblank hopen.1 (Bool.not_eq_true _ ▸ hfirst), beforeLine, hmore]
          rfl

end Piece

/-! ## What lexing gives -/

/-- What two texts give, the second one standing some lines further down. -/
def Lexed.followedBy (lines : Nat) (first second : Lexed) : Lexed :=
  ⟨first.tokens ++ second.tokens.map (Token.down lines), second.eof.down lines,
    first.errors ++ second.errors.map (LexError.down lines)⟩

/-- A text and the next lines are lexed as if each stood alone. -/
def LineLocal (text next : String) : Prop :=
  lex (text ++ "\n" ++ next) =
    (lex text).followedBy (1 + text.toList.count '\n') (lex next)

/-- The text ends inside of a string literal, right behind a backslash. -/
def EndsInEscape (text : String) : Prop :=
  ∃ piece ∈ Piece.pieces text.toList, piece.isDangling = true

instance (text next : String) : Decidable (LineLocal text next) :=
  inferInstanceAs (Decidable (_ = _))

instance (text : String) : Decidable (EndsInEscape text) :=
  inferInstanceAs (Decidable (∃ piece ∈ _, _))

/-- What a text gives whose last literal takes in a line feed: the literal is an unknown escape, and
not one that its text ends inside of. -/
def Lexed.escapingNewline (lexed : Lexed) : Lexed :=
  { lexed with
    errors := lexed.errors.dropLast ++
      [.invalidEscape '\n' ⟨lexed.eof.span.line, lexed.eof.span.col - 1, 2⟩] }

namespace Piece

/-- A text gives the same tokens some lines further down. -/
theorem tokensOf_down (lines : Nat) (pos : Position) (text : List Char) :
    tokensOf (placed (pos.down lines) text) =
      (tokensOf (placed pos text)).map (Token.down lines) := by
  rw [placed, placedFrom_down, tokensOf, List.filterMap_map, tokensOf, List.map_filterMap]
  exact List.filterMap_congr fun f _ => token?_down lines f.2 f.1

/-- A text gives the same errors some lines further down. -/
theorem errorsOf_down (lines : Nat) (pos : Position) (text : List Char) :
    errorsOf (placed (pos.down lines) text) =
      (errorsOf (placed pos text)).map (LexError.down lines) := by
  rw [placed, placedFrom_down, errorsOf, List.filterMap_map, errorsOf, List.map_filterMap]
  exact List.filterMap_congr fun f _ => error?_down lines f.2 f.1

/-- The pieces that are placed are those that are not white space. -/
theorem map_snd_placedFrom (pos : Position) (pieces : List Piece) :
    (placedFrom pos pieces).map Prod.snd = pieces.filter (·.kind ≠ .blank) := by
  induction pieces generalizing pos with
  | nil => rfl
  | cons first rest ih =>
      rw [placedFrom, List.map_append, ih, List.filter_cons]
      by_cases hblank : first.kind = .blank <;> simp [hblank]

end Piece

/-- What lexing gives, read off the pieces that are not white space. -/
theorem lex_eq_placed (source : String) :
    lex source =
      ⟨Piece.tokensOf (Piece.placed {} source.toList),
        .endOfSource (Position.after {} source.toList).line (Position.after {} source.toList).col,
        Piece.errorsOf (Piece.placed {} source.toList)⟩ := by
  rw [lex, Piece.tokens_eq, Piece.errors_eq]
  rfl

/-- What lexing gives for a text with more lines behind it, read off the pieces. -/
theorem lex_lines (text next : String) :
    lex (text ++ "\n" ++ next) =
      ⟨Piece.tokensOf (Piece.placed {} (text.toList ++ '\n' :: next.toList)),
        (lex next).eof.down (1 + text.toList.count '\n'),
        Piece.errorsOf (Piece.placed {} (text.toList ++ '\n' :: next.toList))⟩ := by
  have hwhole : (text ++ "\n" ++ next).toList = text.toList ++ '\n' :: next.toList := by simp
  rw [lex_eq_placed, hwhole, Position.after_append, Position.after_cons,
    Position.step_newline_after, Position.after_down]
  rfl

/-- A text ends in an escape if one of its pieces does that is not white space. -/
theorem endsInEscape_iff {text : String} :
    EndsInEscape text ↔ ∃ found ∈ Piece.placed {} text.toList, found.2.isDangling = true := by
  have hmem : ∀ piece : Piece, piece ∈ (Piece.placed {} text.toList).map Prod.snd ↔
      piece ∈ Piece.pieces text.toList ∧ piece.kind ≠ .blank := by
    intro piece
    rw [Piece.placed, Piece.map_snd_placedFrom, List.mem_filter, decide_eq_true_iff]
  constructor
  · rintro ⟨piece, hpiece, hdangling⟩
    have hkind : piece.kind ≠ .blank := by
      intro hblank
      rw [Piece.isDangling, hblank] at hdangling
      cases hdangling
    obtain ⟨found, hfound, rfl⟩ := List.mem_map.1 ((hmem piece).2 ⟨hpiece, hkind⟩)
    exact ⟨found, hfound, hdangling⟩
  · rintro ⟨found, hfound, hdangling⟩
    exact ⟨found.2, ((hmem found.2).1 (List.mem_map_of_mem hfound)).1, hdangling⟩

section Closed

variable {text : String} (hclosed : ∀ span, .unterminatedComment span ∉ (lex text).errors)

include hclosed

/-- A text without the report of an open comment has no piece that is one. -/
theorem placed_ne_openComment :
    ∀ found ∈ Piece.placed {} text.toList, found.2.kind ≠ .openComment := by
  intro found hfound hkind
  have herror : found.2.error? found.1 =
      some (.unterminatedComment (.point found.1.line found.1.col)) := by
    rw [Piece.error?, hkind]
  rw [lex_eq_placed] at hclosed
  exact hclosed _ (List.mem_filterMap.2 ⟨found, hfound, herror⟩)

/-- Where no escape is open, the next lines are lexed by themselves. -/
theorem lineLocal (hescape : ¬ EndsInEscape text) (next : String) : LineLocal text next := by
  have hnone : ∀ found ∈ Piece.placed {} text.toList, found.2.isDangling = false := by
    intro found hfound
    rw [← Bool.not_eq_true]
    exact fun hdangling => hescape (endsInEscape_iff.2 ⟨found, hfound, hdangling⟩)
  have hplaced := Piece.placed_newline (placed_ne_openComment hclosed) hnone next.toList
  rw [LineLocal, lex_lines, hplaced, Position.step_newline_after, Piece.tokensOf_append,
    Piece.errorsOf_append, Piece.tokensOf_down, Piece.errorsOf_down, lex_eq_placed text,
    lex_eq_placed next]
  rfl

/-- Where an escape is open, the literal turns from an open one into one with an unknown escape, and
the front of the next lines is lost. -/
theorem lex_dangling (hescape : EndsInEscape text) (next : String) :
    (∃ span, (lex text).errors = (lex text).errors.dropLast ++ [.unterminatedString span]) ∧
      lex (text ++ "\n" ++ next) =
        (lex text).escapingNewline.followedBy (1 + text.toList.count '\n')
          (lex (String.ofList (Text.blot next.toList))) := by
  obtain ⟨before, start, body, hplaced, hafter, hnext⟩ :=
    Piece.placed_dangling (placed_ne_openComment hclosed) (endsInEscape_iff.1 hescape)
  obtain ⟨more, hmore⟩ := hnext next.toList
  have herrors : (lex text).errors = Piece.errorsOf before ++
      [.unterminatedString (Piece.span ⟨.openString, '"' :: (body ++ ['\\'])⟩ start)] := by
    rw [lex_eq_placed, hplaced, Piece.errorsOf_append]
    rfl
  have htokens : (lex text).tokens = Piece.tokensOf before := by
    rw [lex_eq_placed, hplaced, Piece.tokensOf_append]
    exact List.append_nil _
  have heof : (lex text).eof.span =
      ⟨start.line, start.col + Text.byteLength ('"' :: body) + 1, 0⟩ := by
    rw [lex_eq_placed, hafter]
    rfl
  refine ⟨⟨_, by rw [herrors, List.dropLast_concat]⟩, ?_⟩
  rw [Lexed.followedBy, Lexed.escapingNewline, herrors, List.dropLast_concat, htokens, heof]
  rw [lex_lines, hmore, Position.step_newline_after, Piece.tokensOf_append, Piece.errorsOf_append,
    lex_eq_placed (String.ofList _), String.toList_ofList, Position.after_blot,
    ← Piece.tokensOf_down, ← Piece.errorsOf_down, List.append_assoc]
  rfl

end Closed

/-- **Lexing goes line by line outside comments**, unless the text ends behind a backslash in a
string literal: then the literal takes in the line feed, and the next line up to its first quote. -/
theorem lex_newline (text next : String)
    (hclosed : ∀ span, .unterminatedComment span ∉ (lex text).errors) :
    (LineLocal text next ↔ ¬ EndsInEscape text) ∧
      (EndsInEscape text → lex (text ++ "\n" ++ next) =
        (lex text).escapingNewline.followedBy (1 + text.toList.count '\n')
          (lex (String.ofList (Text.blot next.toList)))) := by
  refine ⟨⟨fun hlocal hescape => ?_, fun hescape => lineLocal hclosed hescape next⟩,
    fun hescape => (lex_dangling hclosed hescape next).2⟩
  obtain ⟨⟨span, hlast⟩, hlex⟩ := lex_dangling hclosed hescape next
  have herrors := congrArg Lexed.errors (hlocal.symm.trans hlex)
  rw [Lexed.followedBy, Lexed.followedBy, Lexed.escapingNewline, hlast] at herrors
  simp at herrors

/-- A concrete text whose literal is open at the line feed: the next line is read up to
its first quote. -/
theorem lex_newline_skipping :
    (∀ span, .unterminatedComment span ∉ (lex "x = \"ä\\").errors) ∧
      EndsInEscape "x = \"ä\\" ∧ ¬ LineLocal "x = \"ä\\" "b\" c" ∧
      lex ("x = \"ä\\" ++ "\n" ++ "b\" c") =
        (lex "x = \"ä\\").escapingNewline.followedBy 1 (lex "   c") := by
  have hclosed : ∀ span, .unterminatedComment span ∉ (lex "x = \"ä\\").errors := by
    have herrors : (lex "x = \"ä\\").errors = [.unterminatedString ⟨1, 5, 4⟩] := by decide +kernel
    intro span
    rw [herrors]
    simp
  have hescape : EndsInEscape "x = \"ä\\" := by decide +kernel
  have hlines := lex_newline "x = \"ä\\" "b\" c" hclosed
  exact ⟨hclosed, hescape, fun hlocal => hlines.1.1 hlocal hescape, hlines.2 hescape⟩

/-- A malformed literal takes in text of the next line: behind an open escape the line is lost. -/
theorem lex_not_lineLocal :
    (∀ span, .unterminatedComment span ∉ (lex "\"a\\").errors) ∧
      ¬ LineLocal "\"a\\" "x" ∧ (lex ("\"a\\" ++ "\n" ++ "x")).tokens = [] ∧
      (lex "x").tokens = [⟨.identifier, "x", ⟨1, 1, 1⟩⟩] := by
  have herrors : (lex "\"a\\").errors = [.unterminatedString ⟨1, 1, 3⟩] := by decide +kernel
  refine ⟨fun span => ?_, by decide +kernel⟩
  rw [herrors]
  simp

end ClassLang
