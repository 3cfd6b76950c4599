import ClassLang.Proofs.Syntax.Parse
import ClassLang.Proofs.Token.Literal

/-!
# Words

A word is a token without its place.  Words that are written with single spaces in between are
cut into the same words again (`lex_spaced`): the space ends every word, so that it is enough to
say of each word by itself that it is cut off in one piece (`Word.Cuts`).
-/

namespace ClassLang

/-- A token without its place. -/
structure Word where
  kind : TokenKind
  lexeme : String
  deriving DecidableEq, Repr, Inhabited

/-- The token without its place. -/
def Token.word (token : Token) : Word := ⟨token.kind, token.lexeme⟩

/-! ## Cutting words off -/

/-- A text that a word ends in front of: the end, or a space. -/
def EndsWord (text : List Char) : Prop := ∀ c ∈ text.head?, c = ' '

namespace Piece

theorem takeWhile_append {p : Char → Bool} {text rest : List Char} (h : text.all p = true)
    (hrest : ∀ c ∈ rest.head?, p c = false) : (text ++ rest).takeWhile p = text := by
  rw [List.takeWhile_append_of_pos (by simpa using h)]
  cases rest with
  | nil => simp
  | cons c rest => simp [hrest c rfl]

theorem dropWhile_append {p : Char → Bool} {text rest : List Char} (h : text.all p = true)
    (hrest : ∀ c ∈ rest.head?, p c = false) : (text ++ rest).dropWhile p = rest := by
  rw [List.dropWhile_append_of_pos (by simpa using h)]
  cases rest with
  | nil => rfl
  | cons c rest => simp [hrest c rfl]

end Piece

/-- A character below the first blank that is not ASCII is blank if it is ASCII white space. -/
theorem isBlank_of_lt {c : Char} (h : c.toNat < 0x85) (hspace : c.toNat ≠ 0x20)
    (hcontrol : 0xd < c.toNat) : Text.isBlank c = false := by
  simp only [Text.isBlank, Text.blankRanges, List.any_cons, List.any_nil, Bool.or_false,
    Bool.or_eq_false_iff, Bool.and_eq_false_iff, decide_eq_false_iff_not]
  omega

/-- What starts a word is no blank and no digit, and starts nothing else. -/
theorem isWordStart_apart {c : Char} (h : isWordStart c = true) :
    Text.isBlank c = false ∧ c ≠ '/' ∧ c ≠ '"' ∧ c.isDigit = false := by
  have hcases : (65 ≤ c.toNat ∧ c.toNat ≤ 90) ∨ (97 ≤ c.toNat ∧ c.toNat ≤ 122) ∨ c.toNat = 95 := by
    have hstart : (c.isUpper || c.isLower || c == '_') = true := h
    simp only [Bool.or_eq_true, beq_iff_eq] at hstart
    rcases hstart with (hupper | hlower) | rfl
    · exact .inl (of_decide_eq_true (p := 'A'.val ≤ c.val ∧ c.val ≤ 'Z'.val) hupper)
    · obtain ⟨hfrom, hto⟩ := Bool.and_eq_true_iff.1
        (hlower : (decide ('a'.val ≤ c.val) && decide (c.val ≤ 'z'.val)) = true)
      exact .inr (.inl ⟨of_decide_eq_true hfrom, of_decide_eq_true hto⟩)
    · exact .inr (.inr rfl)
  refine ⟨isBlank_of_lt (by omega) (by omega) (by omega), ?_, ?_, ?_⟩
  · rintro rfl
    simp at hcases
  · rintro rfl
    simp at hcases
  · simp only [Char.isDigit, Bool.and_eq_false_iff, decide_eq_false_iff_not]
    refine .inr fun hdigit => ?_
    have hle : c.toNat ≤ 57 := hdigit
    omega

theorem isDigit_apart {c : Char} (h : c.isDigit = true) :
    Text.isBlank c = false ∧ c ≠ '/' ∧ c ≠ '"' := by
  have hrange : 48 ≤ c.toNat ∧ c.toNat ≤ 57 := by
    simp only [Char.isDigit, Bool.and_eq_true, decide_eq_true_eq] at h
    exact h
  refine ⟨isBlank_of_lt (by omega) (by omega) (by omega), ?_, ?_⟩
  · rintro rfl
    simp at hrange
  · rintro rfl
    simp at hrange

namespace Word

/-- A word is cut off a text in one piece, wherever it ends. -/
def Cuts (w : Word) : Prop :=
  ∃ c text, w.lexeme.toList = c :: text ∧ ∀ rest, EndsWord rest →
    ∃ kind, Piece.cut c (text ++ rest) = (⟨kind, c :: text⟩, rest) ∧
      Piece.tokenKind? ⟨kind, c :: text⟩ = some w.kind

/-- A word of word characters. -/
theorem cuts_of_isName {lexeme : String} (h : IsName lexeme) :
    (Word.mk (Piece.wordKind lexeme) lexeme).Cuts := by
  obtain ⟨hstart, hparts⟩ := h
  cases htext : lexeme.toList with
  | nil => simp [htext] at hstart
  | cons c text =>
      rw [htext] at hstart hparts
      have hc : isWordStart c = true := by simpa using hstart
      obtain ⟨hblank, hslash, hquote, hdigit⟩ := isWordStart_apart hc
      refine ⟨c, text, htext, fun rest hrest => ⟨.word, ?_, ?_⟩⟩
      · have hends : ∀ d ∈ rest.head?, isWordPart d = false := fun d hd => by
          rw [hrest d hd]
          decide
        have hkeep := Piece.takeWhile_append hparts hends
        have hleave := Piece.dropWhile_append hparts hends
        rw [List.cons_append] at hkeep hleave
        simp [Piece.cut, hblank, hslash, hquote, hdigit, hc, Piece.cutWhile, hkeep, hleave]
      · simp [Piece.tokenKind?, ← htext]

/-- A number. -/
theorem cuts_integer {lexeme : String} (hne : lexeme.toList ≠ [])
    (hdigits : lexeme.toList.all Char.isDigit = true) : (Word.mk .integer lexeme).Cuts := by
  cases htext : lexeme.toList with
  | nil => exact absurd htext hne
  | cons c text =>
      rw [htext] at hdigits
      have hc : c.isDigit = true := by
        rw [List.all_cons, Bool.and_eq_true] at hdigits
        exact hdigits.1
      obtain ⟨hblank, hslash, hquote⟩ := isDigit_apart hc
      refine ⟨c, text, htext, fun rest hrest => ⟨.number, ?_, rfl⟩⟩
      have hends : ∀ d ∈ rest.head?, d.isDigit = false := fun d hd => by
        rw [hrest d hd]
        decide
      have hkeep := Piece.takeWhile_append hdigits hends
      have hleave := Piece.dropWhile_append hdigits hends
      rw [List.cons_append] at hkeep hleave
      simp [Piece.cut, hblank, hslash, hquote, hc, Piece.cutWhile, hkeep, hleave]

/-- A string literal without unknown escapes. -/
theorem cuts_literal {glyphs : List Quoted.Glyph} (h : Quoted.Known glyphs) :
    (Word.mk .string (String.ofList (Quoted.literal glyphs))).Cuts := by
  refine ⟨'"', Quoted.written glyphs ++ ['"'], by rw [String.toList_ofList]; rfl,
    fun rest _ => ⟨.string, ?_, rfl⟩⟩
  rw [List.append_assoc]
  exact Piece.cut_literal h rest

/-- The literal that denotes a text. -/
theorem cuts_string (text : String) : (Word.mk .string (Quoted.encode text)).Cuts := by
  obtain ⟨glyphs, hknown, -, hencode⟩ := Quoted.exists_literal text
  rw [hencode]
  exact cuts_literal hknown

/-- A mark. -/
def mark (m : Mark) : Word := ⟨.mark m, m.text⟩

theorem cuts_mark (m : Mark) : (mark m).Cuts := by
  have hall : ∃ c text, m.text.toList = c :: text ∧ ∀ rest, EndsWord rest →
      Piece.cut c (text ++ rest) = (⟨.mark m, c :: text⟩, rest) := by
    cases m <;>
      refine ⟨_, _, rfl, fun rest hrest => ?_⟩ <;>
      cases rest with
      | nil => rfl
      | cons c rest =>
          obtain rfl : c = ' ' := hrest c rfl
          rfl
  obtain ⟨c, text, htext, hcut⟩ := hall
  exact ⟨c, text, htext, fun rest hrest => ⟨.mark m, hcut rest hrest, rfl⟩⟩

/-- A reserved word. -/
def keyword (k : Keyword) : Word := ⟨.keyword k, k.text⟩

/-- The name of a primitive type. -/
def primitive (p : Primitive) : Word := ⟨.keyword (.type p), p.name⟩

theorem cuts_keyword (k : Keyword) : (keyword k).Cuts := by
  have hkind : Piece.wordKind k.text = .keyword k := by
    rcases k with (_ | _ | w | w) | b | _ | _ | _ | _ | _ | _ | _ <;>
      (try cases w) <;> (try cases b) <;> rfl
  have hname : IsName k.text := by
    rcases k with (_ | _ | w | w) | b | _ | _ | _ | _ | _ | _ | _ <;>
      (try cases w) <;> (try cases b) <;> exact ⟨by decide, by decide⟩
  have hcuts := cuts_of_isName hname
  rwa [hkind] at hcuts

theorem cuts_primitive (p : Primitive) : (primitive p).Cuts := by
  have hkind : Piece.wordKind p.name = .keyword (.type p) := by
    rcases p with _ | _ | w | w <;> (try cases w) <;> rfl
  have hname : IsName p.name := by
    rcases p with _ | _ | w | w <;> (try cases w) <;> exact ⟨by decide, by decide⟩
  have hcuts := cuts_of_isName hname
  rwa [hkind] at hcuts

/-! ## Words with spaces in between -/

/-- Words, written with single spaces in between. -/
def spaced (words : List Word) : String := " ".intercalate (words.map Word.lexeme)

/-- What follows a word: nothing, or a space and the other words. -/
def behind : List Word → List Char
  | [] => []
  | w :: rest => ' ' :: (spaced (w :: rest)).toList

theorem endsWord_behind (words : List Word) : EndsWord (behind words) := by
  intro c hc
  cases words with
  | nil => cases hc
  | cons w rest => exact (Option.some.inj hc).symm

theorem toList_spaced (w : Word) (rest : List Word) :
    (spaced (w :: rest)).toList = w.lexeme.toList ++ behind rest := by
  cases rest with
  | nil => simp [spaced, behind]
  | cons w' rest =>
      simp only [spaced, behind, List.map_cons, String.intercalate_cons_cons, String.toList_append,
        List.append_assoc]
      rfl

/-- No word starts with a blank. -/
theorem Cuts.not_blank {w : Word} (h : w.Cuts) {c : Char} {text : List Char}
    (htext : w.lexeme.toList = c :: text) : Text.isBlank c = false := by
  obtain ⟨c', text', htext', hcut⟩ := h
  obtain ⟨rfl, rfl⟩ := List.cons.inj (htext.symm.trans htext')
  obtain ⟨kind, hpiece, hkind⟩ := hcut [] (by simp [EndsWord])
  cases hblank : Text.isBlank c with
  | false => rfl
  | true =>
      simp only [Piece.cut, hblank, if_true, Piece.cutWhile, Prod.mk.injEq,
        Piece.mk.injEq] at hpiece
      rw [← hpiece.1.1] at hkind
      simp [Piece.tokenKind?] at hkind

/-- The space in front of a word is cut off by itself. -/
theorem cut_space {w : Word} (h : w.Cuts) (rest : List Word) :
    Piece.cut ' ' (spaced (w :: rest)).toList = (⟨.blank, [' ']⟩, (spaced (w :: rest)).toList) := by
  obtain ⟨c, text, htext, -⟩ := id h
  have hblank := h.not_blank htext
  have hspace : Text.isBlank ' ' = true := by decide
  rw [toList_spaced, htext]
  simp [Piece.cut, hspace, Piece.cutWhile, hblank]

/-- **Words with spaces in between are cut into these words.** -/
theorem tokens_spaced {words : List Word} (h : ∀ w ∈ words, w.Cuts) {fuel : Nat}
    (hfuel : (spaced words).toList.length ≤ fuel) (pos : Position) :
    (Piece.tokens pos (Piece.cutAll fuel (spaced words).toList)).map Token.word = words ∧
      Piece.errors pos (Piece.cutAll fuel (spaced words).toList) = [] := by
  induction words generalizing fuel pos with
  | nil =>
      have hnil : (spaced []).toList = [] := rfl
      rw [hnil]
      cases fuel <;> exact ⟨rfl, rfl⟩
  | cons w rest ih =>
      have hrest : ∀ w ∈ rest, w.Cuts := fun w' hw' => h w' (List.mem_cons_of_mem _ hw')
      obtain ⟨c, text, htext, hcut⟩ := h w (List.mem_cons_self ..)
      obtain ⟨kind, hpiece, hkind⟩ := hcut (behind rest) (endsWord_behind rest)
      have hnone : ∀ pos, Piece.error? ⟨kind, c :: text⟩ pos = none := by
        intro pos
        cases kind <;> simp_all [Piece.tokenKind?, Piece.error?]
      have hword : String.ofList (c :: text) = w.lexeme := by rw [← htext, String.ofList_toList]
      rw [toList_spaced, htext] at hfuel ⊢
      cases fuel with
      | zero => simp at hfuel
      | succ fuel =>
          have hlength : (behind rest).length ≤ fuel := by
            simp only [List.cons_append, List.length_cons, List.length_append] at hfuel
            omega
          simp only [List.cons_append, Piece.cutAll, hpiece, Piece.tokens, Piece.errors,
            Piece.token?, hkind, hnone, Option.map_some, Option.toList_some, Option.toList_none,
            List.nil_append, List.map_cons, Token.word, hword]
          suffices hbehind : ∀ pos, (Piece.tokens pos (Piece.cutAll fuel (behind rest))).map
              Token.word = rest ∧ Piece.errors pos (Piece.cutAll fuel (behind rest)) = [] by
            obtain ⟨htokens, herrors⟩ := hbehind (pos.after (c :: text))
            exact ⟨congrArg (w :: ·) htokens, herrors⟩
          intro pos
          cases rest with
          | nil => cases fuel <;> exact ⟨rfl, rfl⟩
          | cons w' rest =>
              cases fuel with
              | zero => simp [behind] at hlength
              | succ fuel =>
                  have hshorter : (spaced (w' :: rest)).toList.length ≤ fuel := by
                    simp only [behind, List.length_cons] at hlength
                    omega
                  simp only [behind, Piece.cutAll, cut_space (hrest w' (List.mem_cons_self ..)),
                    Piece.tokens, Piece.errors, Piece.token?, Piece.tokenKind?, Piece.error?,
                    Option.map_none, Option.toList_none, List.nil_append]
                  exact ih hrest hshorter _

/-- **Lexing is the inverse of writing words down.** -/
theorem lex_spaced {words : List Word} (h : ∀ w ∈ words, w.Cuts) :
    (lex (spaced words)).tokens.map Token.word = words ∧ (lex (spaced words)).errors = [] ∧
      (lex (spaced words)).eof.kind = .eof := by
  obtain ⟨htokens, herrors⟩ := tokens_spaced h (Nat.le_refl _) {}
  exact ⟨htokens, herrors, rfl⟩

end Word

end ClassLang
