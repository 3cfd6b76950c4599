import ClassLang.Proofs.Token.Literal
import ClassLang.Proofs.Token.Tiling
import ClassLang.Token.Cursor

/-!
# Words of 32 bits are enough

Up to four gigabytes a cursor in words stands where the position without a bound stands
(`Cursor.StandsBehind`): the bytes passed, the line and the column are all at most one more than the
bytes of the source, so that no sum wraps around.  Then the text between two offsets is the piece
that was read there (`Text.slice?_append`), tokens and errors are those of `lex`, and they tile the
source (`lex_tiles`).
-/

namespace ClassLang

namespace Text

/-- A character is dropped with all its bytes. -/
theorem dropBytes?_cons (c : Char) (rest : List Char) (n : Nat) :
    dropBytes? (c.utf8Size + n) (c :: rest) = dropBytes? n rest := by
  obtain ⟨k, hk⟩ := Nat.exists_eq_succ_of_ne_zero (Nat.ne_of_gt c.utf8Size_pos)
  rw [hk, Nat.succ_add, dropBytes?, if_pos (by omega)]
  rw [show k + n + 1 - c.utf8Size = n by omega]

/-- A character is taken with all its bytes. -/
theorem takeBytes?_cons (c : Char) (rest : List Char) (n : Nat) :
    takeBytes? (c.utf8Size + n) (c :: rest) = (takeBytes? n rest).map (c :: ·) := by
  obtain ⟨k, hk⟩ := Nat.exists_eq_succ_of_ne_zero (Nat.ne_of_gt c.utf8Size_pos)
  rw [hk, Nat.succ_add, takeBytes?, if_pos (by omega)]
  rw [show k + n + 1 - c.utf8Size = n by omega]

/-- Behind the bytes of a text stands what follows it. -/
theorem dropBytes?_append (front back : List Char) :
    dropBytes? (byteLength front) (front ++ back) = some back := by
  induction front with
  | nil => cases back <;> rfl
  | cons c front ih => rw [byteLength_cons, List.cons_append, dropBytes?_cons, ih]

/-- The first bytes are those of the text in front. -/
theorem takeBytes?_append (front back : List Char) :
    takeBytes? (byteLength front) (front ++ back) = some front := by
  induction front with
  | nil => cases back <;> rfl
  | cons c front ih =>
      rw [byteLength_cons, List.cons_append, takeBytes?_cons, ih]
      rfl

/-- **A text is cut out between the bytes in front of it and those up to its end.** -/
theorem slice?_append (front text back : List Char) :
    slice? (byteLength front) (byteLength (front ++ text)) (front ++ (text ++ back)) =
      some text := by
  rw [slice?, byteLength_append, if_pos (Nat.le_add_right ..), Nat.add_sub_cancel_left,
    dropBytes?_append, Option.bind_some, takeBytes?_append]

/-- A text has as many bytes as line feeds, or more. -/
theorem count_newline_le (text : List Char) : text.count '\n' ≤ byteLength text := by
  induction text with
  | nil => exact Nat.le_refl _
  | cons c rest ih =>
      have hsize := c.utf8Size_pos
      rw [List.count_cons, byteLength_cons]
      split <;> omega

end Text

/-- A column is at most one more than the bytes in front. -/
theorem Position.col_after_le (front : List Char) :
    (Position.after {} front).col ≤ Text.byteLength front + 1 := by
  have hoffset := offset_after front [] 0
  rw [Span.offset] at hoffset
  simp only at hoffset
  omega

/-- A line is at most one more than the bytes in front. -/
theorem Position.line_after_le (front : List Char) :
    (Position.after {} front).line ≤ Text.byteLength front + 1 := by
  have hline := Position.line_after {} front
  have hstart : ({} : Position).line = 1 := rfl
  have hlines := Text.count_newline_le front
  omega

namespace Cursor

/-- The cursor agrees with the position behind a text. -/
structure StandsBehind (front : List Char) (cursor : Cursor) : Prop where
  offset : cursor.offset.toNat = Text.byteLength front
  line : cursor.line.toNat = (Position.after {} front).line
  column : cursor.column.toNat = (Position.after {} front).col

variable {source front text : List Char} {cursor : Cursor}

/-- The line and the column are those of the position. -/
theorem StandsBehind.position_eq (h : cursor.StandsBehind front) :
    cursor.position = Position.after {} front := by
  rw [position, h.line, h.column]

/-- A sum of words that stays below the bound does not wrap around. -/
theorem toNat_add_ofNat {a : UInt32} {n : Nat} (h : a.toNat + n < Nat.pow 2 32) :
    (a + UInt32.ofNat n).toNat = a.toNat + n := by
  have hpow : Nat.pow 2 32 = 4294967296 := rfl
  rw [UInt32.toNat_add, UInt32.toNat_ofNat']
  omega

/-- **One step**: no sum wraps around. -/
theorem StandsBehind.step (h : cursor.StandsBehind front) {c : Char}
    (hsize : Text.byteLength (front ++ [c]) < Nat.pow 2 32 - 1) :
    (cursor.step c).StandsBehind (front ++ [c]) := by
  have hbytes : Text.byteLength (front ++ [c]) = Text.byteLength front + c.utf8Size := by simp
  have hcol := Position.col_after_le front
  have hline := Position.line_after_le front
  have hbehind : Position.after {} (front ++ [c]) = (Position.after {} front).step c := by
    rw [Position.after_append]
    rfl
  have hpos := c.utf8Size_pos
  have hoffset := toNat_add_ofNat (a := cursor.offset) (n := c.utf8Size)
    (by rw [h.offset]; omega)
  unfold Cursor.step
  by_cases hc : c = '\n'
  · have hnext : (cursor.line + UInt32.ofNat 1).toNat = cursor.line.toNat + 1 :=
      toNat_add_ofNat (by rw [h.line]; omega)
    rw [if_pos hc]
    refine ⟨?_, ?_, ?_⟩
    · rw [hbytes, ← h.offset]
      exact hoffset
    · rw [hbehind, hc, Position.step_newline, ← h.line]
      exact hnext
    · rw [hbehind, hc, Position.step_newline]
      rfl
  · have hcolumn := toNat_add_ofNat (a := cursor.column) (n := c.utf8Size)
      (by rw [h.column]; omega)
    rw [if_neg hc]
    refine ⟨?_, ?_, ?_⟩
    · rw [hbytes, ← h.offset]
      exact hoffset
    · rw [hbehind, Position.step_of_ne _ hc, ← h.line]
    · rw [hbehind, Position.step_of_ne _ hc, ← h.column]
      exact hcolumn

/-- **A whole text**: every part of it ends in time if the text does. -/
theorem StandsBehind.after (h : cursor.StandsBehind front)
    (hsize : Text.byteLength (front ++ text) < Nat.pow 2 32 - 1) :
    (cursor.after text).StandsBehind (front ++ text) := by
  induction text generalizing front cursor with
  | nil => rwa [List.append_nil]
  | cons c rest ih =>
      have hsplit : front ++ c :: rest = front ++ [c] ++ rest := by simp
      rw [hsplit] at hsize ⊢
      refine ih (h.step ?_) hsize
      rw [Text.byteLength_append] at hsize
      omega

end Cursor

/-! ## Pieces -/

namespace Piece

/-- The text in front of an unknown escape is a part of the piece. -/
def FrontInside (piece : Piece) : Prop :=
  ∀ before c, piece.kind = .badEscape before c →
    Text.byteLength before ≤ Text.byteLength piece.text

/-- More text in front comes in front of both. -/
theorem FrontInside.extend {piece : Piece} (h : piece.FrontInside) (front : List Char) :
    (piece.extend front).FrontInside := by
  intro before c hkind
  rw [kind_extend_eq] at hkind
  rw [text_extend, Text.byteLength_append]
  cases hpiece : piece.kind with
  | badEscape before' c' =>
      have hle := h before' c' hpiece
      rw [hpiece] at hkind
      obtain ⟨rfl, rfl⟩ := PieceKind.badEscape.inj hkind
      rw [Text.byteLength_append]
      omega
  | _ => simp [hpiece] at hkind

/-- The text in front of an unknown escape is a part of the string. -/
theorem frontInside_cutString (text : List Char) : (cutString text).1.FrontInside := by
  fun_induction cutString text with
  | case1 | case2 | case3 | case4 =>
      intro before d hkind
      cases hkind
  | case5 c rest _ piece left eq ih => exact FrontInside.extend (by rwa [eq] at ih) _
  | case6 c rest _ =>
      intro before d hkind
      unfold cutBadEscape at hkind ⊢
      dsimp only at hkind ⊢
      split at hkind <;> obtain ⟨rfl, -⟩ := PieceKind.badEscape.inj hkind <;> exact Nat.zero_le _
  | case7 c rest _ _ _ _ piece left eq ih => exact FrontInside.extend (by rwa [eq] at ih) _

/-- Whatever piece is cut off, the text in front of an unknown escape is a part of it. -/
theorem frontInside_cut (c : Char) (rest : List Char) : (cut c rest).1.FrontInside := by
  unfold cut
  split
  · exact nofun
  split
  · exact nofun
  split
  · rcases cutComment_cases rest.tail with hopen | ⟨body, _, hcomment⟩
    · exact FrontInside.extend (fun _ _ hkind => by simp [hopen] at hkind) _
    · exact FrontInside.extend (fun _ _ hkind => by simp [hcomment] at hkind) _
  split
  · exact (frontInside_cutString rest).extend _
  split
  · exact nofun
  split
  · exact nofun
  split <;> exact nofun

/-- An error of a piece that ends in time is the same in words. -/
theorem inWords_error? {piece : Piece} (hfront : piece.FrontInside) (pos : Position)
    (hline : pos.line < Nat.pow 2 32)
    (hcol : pos.col + Text.byteLength piece.text < Nat.pow 2 32) :
    (piece.error? pos).toList.map LexError.inWords = (piece.error? pos).toList := by
  have hspan : ∀ span : Span, span.line = pos.line → span.col < Nat.pow 2 32 →
      span.len < Nat.pow 2 32 → span.inWords = span := by
    rintro ⟨_, col, len⟩ rfl hcol hlen
    simp only [Span.inWords, UInt32.toNat_ofNat_of_lt' hline, UInt32.toNat_ofNat_of_lt' hcol,
      UInt32.toNat_ofNat_of_lt' hlen]
  have hwhole : (piece.span pos).inWords = piece.span pos :=
    hspan _ rfl (by simp only [span]; omega) (by simp only [span]; omega)
  unfold error?
  cases hkind : piece.kind with
  | openComment =>
      have hpoint : (Span.point pos.line pos.col).inWords = .point pos.line pos.col :=
        hspan _ rfl (by simp only [Span.point]; omega) (by simp only [Span.point]; omega)
      simp [LexError.inWords, hpoint]
  | openString => simp [LexError.inWords, hwhole]
  | badEscape before c =>
      have hle := hfront before c hkind
      have hescape := hspan ⟨pos.line, pos.col + Text.byteLength before, 2⟩ rfl
        (by simp only; omega) (show 2 < Nat.pow 2 32 by decide)
      simp [LexError.inWords, hescape]
  | stray c => simp [LexError.inWords, hwhole]
  | _ => rfl

end Piece

namespace Cursor

variable {source front : List Char} {cursor : Cursor}

/-- **A piece is cut out as it was read.** -/
theorem StandsBehind.cut?_eq {stop : Cursor} {piece : Piece} {back : List Char}
    (h : cursor.StandsBehind front) (hstop : stop.StandsBehind (front ++ piece.text))
    (hsource : source = front ++ (piece.text ++ back)) :
    cut? source cursor stop piece = some piece := by
  unfold cut?
  split
  · rfl
  · rw [h.offset, hstop.offset, hsource, Text.slice?_append]
    rfl

/-- **Reading in words** from behind some text gives what reading without a bound gives. -/
theorem StandsBehind.read?_eq (hsize : Text.byteLength source < Nat.pow 2 32 - 1)
    {text : List Char} (hsource : source = front ++ text) (h : cursor.StandsBehind front) :
    read? source cursor (Piece.pieces text) = some (lexFrom (Position.after {} front) text) := by
  induction text using Piece.cut_induction generalizing front cursor with
  | nil =>
      rw [Piece.pieces_nil, read?, h.position_eq]
      rfl
  | cons c rest ih =>
      obtain ⟨piece, left, hcut⟩ : ∃ piece left, Piece.cut c rest = (piece, left) :=
        ⟨_, _, rfl⟩
      have hwhole := Piece.cut_append c rest
      have hinside := Piece.frontInside_cut c rest
      rw [hcut] at ih hwhole hinside
      simp only at ih hwhole hinside
      have hsplit : source = front ++ (piece.text ++ left) := by rw [hwhole, hsource]
      have hbytes := congrArg Text.byteLength hsplit
      simp only [Text.byteLength_append] at hbytes
      have hstop : (cursor.after piece.text).StandsBehind (front ++ piece.text) :=
        h.after (by rw [Text.byteLength_append]; omega)
      have hrest := ih (by rw [hsplit, List.append_assoc]) hstop
      have hcol := Position.col_after_le front
      have hline := Position.line_after_le front
      have herror := Piece.inWords_error? hinside (.after {} front) (by omega) (by omega)
      rw [lexFrom_cut hcut, Piece.pieces_cons, hcut, read?, h.cut?_eq hstop hsplit]
      simp only [Option.bind_eq_bind, Option.bind_some, hrest, h.position_eq, herror,
        Position.after_append]
      rfl

/-- The cursor at the start of a source. -/
theorem standsBehind_start : ({} : Cursor).StandsBehind [] := ⟨rfl, rfl, rfl⟩

end Cursor

/-- **The tokens of a source tile it.**  Up to four gigabytes a cursor in words finds the tokens
that are found without a bound, and they are the texts at their places, one behind another. -/
theorem lex_tiles (source : String) (hsize : Text.byteLength source.toList < Nat.pow 2 32 - 1) :
    lexWords? source = some (lex source) ∧ (lex source).Tiles source.toList := by
  refine ⟨?_, tiles_lex source⟩
  rw [lexWords?, lex_eq_lexFrom]
  exact Cursor.standsBehind_start.read?_eq hsize (List.nil_append _).symm

/-- A name in the second line, behind a comment with a character of two bytes. -/
theorem lex_tiles_commented :
    Text.byteLength "/* ü\n */ b".toList < Nat.pow 2 32 - 1 ∧
      lexWords? "/* ü\n */ b" = some ⟨[⟨.identifier, "b", 2, 5, 1⟩], .endOfSource 2 6, []⟩ ∧
        (lex "/* ü\n */ b").Tiles "/* ü\n */ b".toList := by
  have hsize : Text.byteLength "/* ü\n */ b".toList < Nat.pow 2 32 - 1 := by decide
  have hlex : lex "/* ü\n */ b" = ⟨[⟨.identifier, "b", 2, 5, 1⟩], .endOfSource 2 6, []⟩ := by
    decide +kernel
  obtain ⟨hwords, htiles⟩ := lex_tiles "/* ü\n */ b" hsize
  exact ⟨hsize, hwords.trans (congrArg some hlex), htiles⟩

end ClassLang
