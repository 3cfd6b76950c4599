import ClassLang.Proofs.Token.Pieces
import Mathlib.Data.List.Basic

/-!
# Cutting in front of a line feed

No piece but white space and a block comment goes past a line feed, so it makes no difference for
what is cut off whether the text ends or a line feed follows (`Piece.cut_newline`).

There is one exception.  A string literal that its line ends inside of, right behind a backslash,
takes the line feed for the character after the backslash.  That is an unknown escape, and the
literal goes on up to the first quote of the next line (`Piece.cut_dangling`).
-/

namespace ClassLang

/-! ## Endings -/

/-- Whether a text behind an opening quote ends in a backslash that has nothing to escape. -/
def Quoted.opensEscape : List Char → Bool
  | [] => false
  | ['\\'] => true
  | '\\' :: _ :: rest => opensEscape rest
  | _ :: rest => opensEscape rest

/-- A character that is no backslash opens no escape. -/
theorem Quoted.opensEscape_cons {c : Char} (h : c ≠ '\\') (rest : List Char) :
    opensEscape (c :: rest) = opensEscape rest := by
  rw [opensEscape]
  · exact fun hc => absurd hc h
  · exact fun _ _ hc => absurd hc h

/-- Whether the piece is a string literal that its text ends inside of, right behind a backslash. -/
def Piece.isDangling (piece : Piece) : Bool :=
  piece.kind == .openString && Quoted.opensEscape piece.text.tail

/-- The text with spaces for what stands up to the first quote, or up to the end of the line. -/
def Text.blot : List Char → List Char
  | [] => []
  | '\n' :: rest => '\n' :: rest
  | '"' :: rest => ' ' :: rest
  | c :: rest => List.replicate c.utf8Size ' ' ++ blot rest

namespace Piece

/-! ## In front of a line feed -/

/-- A piece is an open comment with more in front of it, too. -/
theorem kind_extend_openComment {front : List Char} {piece : Piece} :
    (piece.extend front).kind = .openComment ↔ piece.kind = .openComment := by
  rw [kind_extend_eq]
  cases piece.kind <;> simp

/-- A piece is an open string literal with more in front of it, too. -/
theorem kind_extend_openString {front : List Char} {piece : Piece} :
    (piece.extend front).kind = .openString ↔ piece.kind = .openString := by
  rw [kind_extend_eq]
  cases piece.kind <;> simp

/-- What is cut off, with a line feed and the next lines behind what is left. -/
def beforeLine (next : List Char) (found : Piece × List Char) : Piece × List Char :=
  (found.1, found.2 ++ '\n' :: next)

/-- What does not belong to a line feed is taken up to it. -/
theorem takeWhile_newline {belongs : Char → Bool} (h : belongs '\n' = false)
    (text next : List Char) :
    (text ++ '\n' :: next).takeWhile belongs = text.takeWhile belongs := by
  induction text with
  | nil => simp [h]
  | cons c rest ih => simp [List.takeWhile_cons, ih]

/-- What does not belong to a line feed leaves it standing. -/
theorem dropWhile_newline {belongs : Char → Bool} (h : belongs '\n' = false)
    (text next : List Char) :
    (text ++ '\n' :: next).dropWhile belongs = text.dropWhile belongs ++ '\n' :: next := by
  induction text with
  | nil => simp [h]
  | cons c rest ih =>
      by_cases hc : belongs c = true
      · simp [hc, ih]
      · simp [hc]

/-- A run of characters is cut alike in front of a line feed. -/
theorem cutWhile_newline (kind : PieceKind) {belongs : Char → Bool} (h : belongs '\n' = false)
    (text next : List Char) :
    cutWhile kind belongs (text ++ '\n' :: next) =
      beforeLine next (cutWhile kind belongs text) := by
  rw [cutWhile, takeWhile_newline h, dropWhile_newline h]
  rfl

/-- A beginning without a line feed is found alike in front of one. -/
theorem isPrefixOf_newline {front : List Char} (h : '\n' ∉ front) (text next : List Char) :
    front.isPrefixOf (text ++ '\n' :: next) = front.isPrefixOf text := by
  induction front generalizing text with
  | nil => simp
  | cons c front ih =>
      rw [List.mem_cons, not_or] at h
      cases text with
      | nil => simp [List.isPrefixOf, Ne.symm h.1]
      | cons d text => simp [List.isPrefixOf, ih h.2]

/-- A mark is found alike in front of a line feed. -/
theorem first?_newline (text next : List Char) :
    Mark.first? (text ++ '\n' :: next) = Mark.first? text := by
  have hfree : ∀ mark : Mark, '\n' ∉ mark.text.toList := by
    intro mark
    cases mark <;> decide
  have hsame : (fun mark : Mark => mark.text.toList.isPrefixOf (text ++ '\n' :: next)) =
      fun mark => mark.text.toList.isPrefixOf text :=
    funext fun mark => isPrefixOf_newline (hfree mark) text next
  rw [Mark.first?, Mark.first?, hsame]

/-- A line comment, or a block comment that is closed, is cut alike in front of a line
feed. -/
theorem cutComment_newline {text : List Char} (h : (cutComment text).1.kind ≠ .openComment)
    (next : List Char) :
    cutComment (text ++ '\n' :: next) = beforeLine next (cutComment text) := by
  fun_induction cutComment text with
  | case1 => exact absurd rfl h
  | case2 rest => rfl
  | case3 c rest hnot piece left eq ih =>
      rw [eq] at ih
      have hrest := ih (mt kind_extend_openComment.2 h)
      -- A star in front of the line feed does not end the comment, as the text has no slash then.
      have hnot' : ∀ tail, c = '*' → rest ++ '\n' :: next = '/' :: tail → False := by
        intro tail hstar htail
        cases rest with
        | nil => simp at htail
        | cons d rest => exact hnot rest hstar (by simp_all)
      rw [List.cons_append, cutComment.eq_3 _ _ hnot', hrest]
      rfl

/-- An unknown escape is cut alike in front of a line feed. -/
theorem cutBadEscape_newline (c : Char) (text next : List Char) :
    cutBadEscape c (text ++ '\n' :: next) = beforeLine next (cutBadEscape c text) := by
  have hends : (fun d : Char => d != '"' && d != '\n') '\n' = false := rfl
  unfold cutBadEscape
  dsimp only
  rw [takeWhile_newline hends, dropWhile_newline hends]
  cases text.dropWhile fun d => d != '"' && d != '\n' with
  | nil => rfl
  | cons d left =>
      by_cases hd : d = '"'
      · rw [hd]
        rfl
      · simp [hd, beforeLine]

/-- A character that neither ends a text as a backslash nor escapes another one is no
backslash. -/
theorem ne_backslash {c : Char} {rest : List Char} (hlast : c = '\\' → rest = [] → False)
    (hmore : ∀ d tail, c = '\\' → rest = d :: tail → False) : c ≠ '\\' := by
  intro hc
  cases rest with
  | nil => exact hlast hc rfl
  | cons d tail => exact hmore d tail hc rfl

/-- A character of a literal that means itself. -/
theorem cutString_cons {c : Char} (hnewline : c ≠ '\n') (hquote : c ≠ '"') (hescape : c ≠ '\\')
    (rest : List Char) :
    cutString (c :: rest) = ((cutString rest).1.extend [c], (cutString rest).2) := by
  rw [cutString]
  · exact hnewline
  · exact hquote
  · exact fun hc => absurd hc hescape
  · exact fun _ _ hc => absurd hc hescape

/-- A string literal is cut alike in front of a line feed, unless it ends in an open
escape. -/
theorem cutString_newline {text : List Char}
    (h : (cutString text).1.kind = .openString → Quoted.opensEscape (cutString text).1.text = false)
    (next : List Char) :
    cutString (text ++ '\n' :: next) = beforeLine next (cutString text) := by
  fun_induction cutString text with
  | case1 => rfl
  | case2 => rfl
  | case3 => rfl
  -- The backslash has nothing to escape, which is what `h` excludes.
  | case4 => exact absurd (h rfl) (by decide)
  | case5 c rest hescapable piece left eq ih =>
      rw [eq] at ih
      have hrest := ih fun hopen => by
        simpa [Quoted.opensEscape] using h (kind_extend_openString.2 hopen)
      rw [List.cons_append, List.cons_append, cutString, if_pos hescapable, hrest]
      rfl
  | case6 c rest hescapable =>
      rw [List.cons_append, List.cons_append, cutString, if_neg hescapable]
      exact cutBadEscape_newline c rest next
  | case7 c rest hnewline hquote hlast hescape piece left eq ih =>
      rw [eq] at ih
      have hbackslash := ne_backslash hlast hescape
      have hrest := ih fun hopen => by
        have htext := h (kind_extend_openString.2 hopen)
        rwa [text_extend, List.singleton_append, Quoted.opensEscape_cons hbackslash] at htext
      rw [List.cons_append, cutString_cons hnewline hquote hbackslash, hrest]
      rfl

/-- **Cutting does not look past a line feed**, unless a comment or an escape is open. -/
theorem cut_newline {c : Char} {rest : List Char} (hblank : ¬ Text.isBlank c = true)
    (hopen : (cut c rest).1.kind ≠ .openComment) (hescape : (cut c rest).1.isDangling = false)
    (next : List Char) :
    cut c (rest ++ '\n' :: next) = beforeLine next (cut c rest) := by
  -- Whether a comment starts is asked of one more character.
  have hhead : ∀ d : Char, d ≠ '\n' →
      ((rest ++ '\n' :: next).head? == some d) = (rest.head? == some d) := by
    intro d hd
    cases rest with
    | nil => simp [Ne.symm hd]
    | cons => rfl
  revert hopen hescape
  rw [cut, cut, if_neg hblank, if_neg hblank, hhead '/' (by decide), hhead '*' (by decide)]
  split
  · exact fun _ _ => cutWhile_newline .comment rfl (c :: rest) next
  split
  · next hstar =>
      obtain ⟨rfl, tail, rfl⟩ : c = '/' ∧ ∃ tail, rest = '*' :: tail := by
        cases rest <;> simp_all
      intro hopen _
      have hcomment : cutComment (tail ++ '\n' :: next) = beforeLine next (cutComment tail) :=
        cutComment_newline (mt kind_extend_openComment.2 hopen) next
      rw [List.cons_append, List.tail_cons, hcomment]
      rfl
  split
  · intro _ hescape
    have hclosed : (cutString rest).1.kind = .openString →
        Quoted.opensEscape (cutString rest).1.text = false := fun hopen => by
      simpa [isDangling, kind_extend_openString.2 hopen] using hescape
    rw [cutString_newline hclosed]
    rfl
  split
  · exact fun _ _ => cutWhile_newline .number (by decide) (c :: rest) next
  split
  · exact fun _ _ => cutWhile_newline .word (by decide) (c :: rest) next
  · intro _ _
    rw [← List.cons_append, first?_newline]
    cases hmark : Mark.first? (c :: rest) with
    | none => rfl
    | some mark =>
        have hlength : mark.text.length ≤ (c :: rest).length := by
          rw [← mark_append hmark, List.length_append, String.length_toList]
          exact Nat.le_add_right ..
        simp only [beforeLine, List.drop_append_of_le_length hlength]

/-! ## Behind a backslash -/

@[simp] theorem extend_nil (piece : Piece) : piece.extend [] = piece := by
  cases piece with
  | mk kind text => cases kind <;> rfl

/-- A piece is extended twice by extending it by both texts. -/
theorem extend_extend (front back : List Char) (piece : Piece) :
    (piece.extend back).extend front = piece.extend (front ++ back) := by
  unfold extend
  cases piece.kind <;> simp

/-- What is cut at an unknown escape is an unknown escape. -/
theorem kind_cutBadEscape (c : Char) (text : List Char) :
    (cutBadEscape c text).1.kind = .badEscape [] c := by
  unfold cutBadEscape
  dsimp only
  split <;> rfl

/-- A literal that its text ends inside of behind a backslash takes in the line feed. -/
theorem cutString_dangling {text : List Char} (hopen : (cutString text).1.kind = .openString)
    (hescape : Quoted.opensEscape (cutString text).1.text = true) :
    ∃ body, cutString text = (⟨.openString, body ++ ['\\']⟩, []) ∧ '\n' ∉ body ∧
      ∀ next, cutString (text ++ '\n' :: next) =
        ((cutBadEscape '\n' next).1.extend body, (cutBadEscape '\n' next).2) := by
  fun_induction cutString text with
  | case1 => cases hescape
  | case2 => cases hescape
  | case3 => cases hopen
  | case4 => exact ⟨[], rfl, List.not_mem_nil, fun next => by rw [extend_nil]; rfl⟩
  | case5 c rest hescapable piece left eq ih =>
      rw [eq] at ih
      obtain ⟨body, hcut, hbody, hnext⟩ := ih (kind_extend_openString.1 hopen)
        (by simpa [Quoted.opensEscape] using hescape)
      obtain ⟨rfl, rfl⟩ := Prod.mk.inj hcut
      have hc : '\n' ≠ c := fun hc => by
        rw [← hc] at hescapable
        exact absurd hescapable (by decide)
      refine ⟨'\\' :: c :: body, rfl, by simp [hc, hbody], fun next => ?_⟩
      rw [List.cons_append, List.cons_append, cutString, if_pos hescapable, hnext]
      exact congrArg (·, _) (extend_extend ['\\', c] body _)
  | case6 c rest hescapable => cases (kind_cutBadEscape c rest).symm.trans hopen
  | case7 c rest hnewline hquote hlast hmore piece left eq ih =>
      rw [eq] at ih
      have hbackslash := ne_backslash hlast hmore
      rw [text_extend, List.singleton_append, Quoted.opensEscape_cons hbackslash] at hescape
      obtain ⟨body, hcut, hbody, hnext⟩ := ih (kind_extend_openString.1 hopen) hescape
      obtain ⟨rfl, rfl⟩ := Prod.mk.inj hcut
      refine ⟨c :: body, rfl, by simp [Ne.symm hnewline, hbody], fun next => ?_⟩
      rw [List.cons_append, cutString_cons hnewline hquote hbackslash, hnext]
      exact congrArg (·, _) (extend_extend [c] body _)

/-- An unknown escape goes on with every character but a line feed and a quote. -/
theorem cutBadEscape_cons {d : Char} (hnewline : d ≠ '\n') (hquote : d ≠ '"') (c : Char)
    (rest : List Char) :
    cutBadEscape c (d :: rest) =
      (⟨.badEscape [] c, '\\' :: c :: d :: (cutBadEscape c rest).1.text.drop 2⟩,
        (cutBadEscape c rest).2) := by
  have hd : (d != '"' && d != '\n') = true := by simp [hnewline, hquote]
  unfold cutBadEscape
  simp only [List.takeWhile_cons, List.dropWhile_cons, hd, if_true]
  cases rest.dropWhile fun e => e != '"' && e != '\n' with
  | nil => rfl
  | cons e left =>
      by_cases he : e = '"'
      · rw [he]
        rfl
      · simp [he]

/-- What is skipped behind an unknown escape are the characters that are blotted out. -/
theorem cutBadEscape_blot (c : Char) (text : List Char) :
    ∃ skipped, (cutBadEscape c text).1 = ⟨.badEscape [] c, '\\' :: c :: skipped⟩ ∧
      '\n' ∉ skipped ∧ Text.blot text =
        List.replicate (Text.byteLength skipped) ' ' ++ (cutBadEscape c text).2 := by
  fun_induction Text.blot text with
  | case1 => exact ⟨[], rfl, List.not_mem_nil, rfl⟩
  | case2 rest => exact ⟨[], rfl, List.not_mem_nil, rfl⟩
  | case3 rest => exact ⟨['"'], rfl, by decide, rfl⟩
  | case4 d rest hnewline hquote ih =>
      obtain ⟨skipped, hpiece, hskipped, hblot⟩ := ih
      rw [cutBadEscape_cons hnewline hquote, hpiece]
      refine ⟨d :: skipped, rfl, by simp [Ne.symm hnewline, hskipped], ?_⟩
      rw [hblot, Text.byteLength_cons, List.replicate_add, List.append_assoc]

/-- Behind a quote a string literal is cut. -/
theorem cut_quote (rest : List Char) :
    cut '"' rest = ((cutString rest).1.extend ['"'], (cutString rest).2) := rfl

/-- **An open escape takes in the line feed**, and the literal what is blotted out behind it. -/
theorem cut_dangling {c : Char} {rest : List Char} (h : (cut c rest).1.isDangling = true) :
    ∃ body, cut c rest = (⟨.openString, '"' :: (body ++ ['\\'])⟩, []) ∧ '\n' ∉ body ∧
      ∀ next, ∃ skipped left, cut c (rest ++ '\n' :: next) =
          (⟨.badEscape ('"' :: body) '\n', '"' :: (body ++ '\\' :: '\n' :: skipped)⟩, left) ∧
        '\n' ∉ skipped ∧
          Text.blot next = List.replicate (Text.byteLength skipped) ' ' ++ left := by
  rw [isDangling, Bool.and_eq_true, beq_iff_eq] at h
  obtain rfl := eq_quote_of_kind_cut h.1
  rw [cut_quote, kind_extend_openString, text_extend] at h
  obtain ⟨body, hcut, hbody, hnext⟩ := cutString_dangling h.1 h.2
  refine ⟨body, by rw [cut_quote, hcut]; rfl, hbody, fun next => ?_⟩
  obtain ⟨skipped, hpiece, hskipped, hblot⟩ := cutBadEscape_blot '\n' next
  refine ⟨skipped, _, ?_, hskipped, hblot⟩
  rw [cut_quote, hnext, hpiece]
  simp [extend]

end Piece

end ClassLang
