import ClassLang.Token.Stream

/-!
# Pieces one after another

A source is cut from the front: behind the first piece the rest is cut as if it stood alone
(`Piece.pieces_cons`).  So a fact about all texts is proved by going from a text to what is left of
it behind its first piece (`Piece.cut_induction`).  Positions are what is known of the text in
front: they count its lines, and the bytes of its last one.
-/

namespace ClassLang

namespace Position

@[simp] theorem after_nil (pos : Position) : pos.after [] = pos := rfl

theorem after_cons (pos : Position) (c : Char) (text : List Char) :
    pos.after (c :: text) = (pos.step c).after text := rfl

theorem after_append (pos : Position) (front text : List Char) :
    pos.after (front ++ text) = (pos.after front).after text :=
  List.foldl_append ..

theorem step_newline (pos : Position) : pos.step '\n' = ⟨pos.line + 1, 1⟩ := if_pos rfl

theorem step_of_ne (pos : Position) {c : Char} (h : c ≠ '\n') :
    pos.step c = ⟨pos.line, pos.col + c.utf8Size⟩ := if_neg h

/-- Each line feed starts a line. -/
theorem line_after (pos : Position) (text : List Char) :
    (pos.after text).line = pos.line + text.count '\n' := by
  induction text generalizing pos with
  | nil => rfl
  | cons c rest ih =>
      rw [after_cons, ih, List.count_cons]
      by_cases hc : c = '\n'
      · rw [hc, step_newline]
        simp only [beq_self_eq_true, if_true]
        omega
      · rw [step_of_ne pos hc]
        simp [hc]

/-- Columns count from one. -/
theorem one_le_col_after {pos : Position} (h : 1 ≤ pos.col) (text : List Char) :
    1 ≤ (pos.after text).col := by
  induction text generalizing pos with
  | nil => exact h
  | cons c rest ih =>
      refine ih ?_
      by_cases hc : c = '\n'
      · have hcol : (pos.step c).col = 1 := by rw [hc, step_newline]
        exact Nat.le_of_eq hcol.symm
      · rw [step_of_ne pos hc]
        exact Nat.le_add_right_of_le h

/-- In a line the columns count bytes. -/
theorem after_of_not_mem (pos : Position) {text : List Char} (h : '\n' ∉ text) :
    pos.after text = ⟨pos.line, pos.col + Text.byteLength text⟩ := by
  induction text generalizing pos with
  | nil => rfl
  | cons c rest ih =>
      rw [List.mem_cons, not_or] at h
      rw [after_cons, step_of_ne pos (Ne.symm h.1), ih _ h.2, Text.byteLength_cons, Nat.add_assoc]

end Position

namespace Piece

/-- With fuel for each character the text is cut to its end, and more fuel changes nothing. -/
theorem cutAll_eq {fuel fuel' : Nat} {text : List Char} (h : text.length ≤ fuel)
    (h' : text.length ≤ fuel') : cutAll fuel text = cutAll fuel' text := by
  induction fuel generalizing text fuel' with
  | zero =>
      obtain rfl : text = [] := List.length_eq_zero_iff.1 (Nat.le_zero.1 h)
      cases fuel' <;> rfl
  | succ fuel ih =>
      cases text with
      | nil => cases fuel' <;> rfl
      | cons c rest =>
          have hshorter := length_cut_lt c rest
          cases fuel' with
          | zero => simp at h'
          | succ fuel' =>
              have hsame : cutAll fuel (cut c rest).2 = cutAll fuel' (cut c rest).2 :=
                ih (by omega) (by omega)
              simp only [cutAll, hsame]

@[simp] theorem pieces_nil : pieces [] = [] := rfl

/-- **Behind the first piece the rest is cut as if it stood alone.** -/
theorem pieces_cons (c : Char) (rest : List Char) :
    pieces (c :: rest) = (cut c rest).1 :: pieces (cut c rest).2 := by
  have hfuel : (cut c rest).2.length ≤ rest.length := Nat.le_of_lt_succ (length_cut_lt c rest)
  exact congrArg ((cut c rest).1 :: ·) (cutAll_eq hfuel (Nat.le_refl _))

/-- From what is left of a text behind its first piece to the whole text. -/
theorem cut_induction {motive : List Char → Prop} (nil : motive [])
    (cons : ∀ c rest, motive (cut c rest).2 → motive (c :: rest)) : ∀ text, motive text
  | [] => nil
  | c :: rest => cons c rest (cut_induction nil cons (cut c rest).2)
termination_by text => text.length
decreasing_by exact length_cut_lt c rest

/-! ## Kinds of pieces -/

/-- Text in front changes no kind; it only adds to what stands in front of an unknown escape. -/
theorem kind_extend_eq (front : List Char) (piece : Piece) :
    (piece.extend front).kind = match piece.kind with
      | .badEscape before c => .badEscape (front ++ before) c
      | kind => kind := by
  unfold extend
  split <;> simp_all

/-- A comment ends with the first mark for its end, or it is open. -/
theorem cutComment_cases (text : List Char) :
    (cutComment text).1.kind = .openComment ∨ ∃ body, ¬ ['*', '/'] <:+: body ∧
      (cutComment text).1 = ⟨.comment, body ++ ['*', '/']⟩ := by
  fun_induction cutComment text with
  | case1 => exact .inl rfl
  | case2 rest => exact .inr ⟨[], by simp, rfl⟩
  | case3 c rest hnot piece left eq ih =>
      rw [eq] at ih
      rcases ih with hopen | ⟨body, hbody, rfl⟩
      · exact .inl (by rw [kind_extend_eq, hopen])
      · refine .inr ⟨c :: body, ?_, rfl⟩
        rw [List.infix_cons_iff, not_or]
        refine ⟨fun hstart => ?_, hbody⟩
        -- The mark would stand at the front, where it is looked for first.
        have hwhole := cutComment_append rest
        rw [eq] at hwhole
        obtain ⟨more, hmore⟩ := hstart
        rw [List.cons_append, List.cons_append, List.nil_append, List.cons.injEq] at hmore
        obtain ⟨rfl, rfl⟩ := hmore
        exact hnot _ rfl hwhole.symm

/-- What is cut behind an opening quote is a string literal or an error. -/
theorem kind_cutString_cases (text : List Char) :
    (cutString text).1.kind = .string ∨ (cutString text).1.kind = .openString ∨
      ∃ before c, (cutString text).1.kind = .badEscape before c := by
  have hextend : ∀ (front : List Char) (piece : Piece), (piece.kind = .string ∨
      piece.kind = .openString ∨ ∃ before c, piece.kind = .badEscape before c) →
        ((piece.extend front).kind = .string ∨ (piece.extend front).kind = .openString ∨
          ∃ before c, (piece.extend front).kind = .badEscape before c) := by
    intro front piece h
    rw [kind_extend_eq]
    rcases h with h | h | ⟨before, c, h⟩ <;> simp [h]
  fun_induction cutString text with
  | case1 => exact .inr (.inl rfl)
  | case2 => exact .inr (.inl rfl)
  | case3 => exact .inl rfl
  | case4 => exact .inr (.inl rfl)
  | case5 c rest _ piece left eq ih => exact hextend _ _ (by rwa [eq] at ih)
  | case6 c rest _ =>
      unfold cutBadEscape
      dsimp only
      split <;> exact .inr (.inr ⟨_, _, rfl⟩)
  | case7 c rest _ _ _ _ piece left eq ih => exact hextend _ _ (by rwa [eq] at ih)

/-- What the first character of white space and of an open literal is. -/
theorem first_of_kind_cut (c : Char) (rest : List Char) :
    ((cut c rest).1.kind = .blank → Text.isBlank c = true) ∧
      ((cut c rest).1.kind = .openString → c = '"') := by
  unfold cut
  split
  · next hblank => exact ⟨fun _ => hblank, nofun⟩
  split
  · exact ⟨nofun, nofun⟩
  split
  · rcases cutComment_cases rest.tail with hopen | ⟨body, _, hcomment⟩
    · simp [kind_extend_eq, hopen]
    · simp [kind_extend_eq, hcomment]
  split
  · next hquote =>
      refine ⟨fun hblank => ?_, fun _ => beq_iff_eq.1 hquote⟩
      rcases kind_cutString_cases rest with hstring | hopen | ⟨before, d, hescape⟩
      · simp [kind_extend_eq, hstring] at hblank
      · simp [kind_extend_eq, hopen] at hblank
      · simp [kind_extend_eq, hescape] at hblank
  split
  · exact ⟨nofun, nofun⟩
  split
  · exact ⟨nofun, nofun⟩
  split <;> exact ⟨nofun, nofun⟩

theorem isBlank_of_kind_cut {c : Char} {rest : List Char} (h : (cut c rest).1.kind = .blank) :
    Text.isBlank c = true :=
  (first_of_kind_cut c rest).1 h

theorem eq_quote_of_kind_cut {c : Char} {rest : List Char}
    (h : (cut c rest).1.kind = .openString) : c = '"' :=
  (first_of_kind_cut c rest).2 h

end Piece

end ClassLang
