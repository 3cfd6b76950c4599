import ClassLang.Proofs.Syntax.Nodes
import ClassLang.Syntax.Parser.Decl

/-!
# What the parser promises

A node takes its number when the parser has read it, or when it starts reading it, and no
number is given out twice, also where reading goes on behind an error.  So every value that
a parser gives carries numbers of its own, taken between the state in front of it and the
state behind it (`Numbered`).  `Parser.Spec` is a triple about the next free number, for
states in which every token that is taken for a name is a word (`ParserState.Worded`); it is
proved for each production, and `Script.proper_of_parse` collects the result.
-/

namespace ClassLang

/-! ## Words -/

/-- What a word may start with, it may go on with. -/
theorem isWordPart_of_isWordStart {c : Char} (h : isWordStart c = true) : isWordPart c = true := by
  simp only [isWordStart, isWordPart, Char.isAlphanum, Bool.or_eq_true] at h ⊢
  exact h.imp_left Or.inl

/-- If the token is a name, it is a word. -/
def Token.Worded (token : Token) : Prop := token.kind = .identifier → IsName token.lexeme

namespace Piece

/-- If the piece is a word, it has only word characters. -/
def Worded (piece : Piece) : Prop := piece.kind = .word → IsName (String.ofList piece.text)

/-- Only a word becomes a longer word. -/
theorem kind_extend (front : List Char) (piece : Piece) :
    (piece.extend front).kind = .word ↔ piece.kind = .word := by
  unfold extend
  split
  · next h => simp [h]
  · rfl

/-- A comment is no word. -/
theorem kind_cutComment (text : List Char) : (cutComment text).1.kind ≠ .word := by
  fun_induction cutComment text with
  | case1 => simp
  | case2 rest => simp
  | case3 c rest _ piece left eq ih => simpa [kind_extend, eq] using ih

/-- A string literal is no word. -/
theorem kind_cutString (text : List Char) : (cutString text).1.kind ≠ .word := by
  fun_induction cutString text with
  | case1 => simp
  | case2 => simp
  | case3 => simp
  | case4 => simp
  | case5 c rest _ piece left eq ih => simpa [kind_extend, eq] using ih
  | case6 c rest _ =>
      unfold cutBadEscape
      dsimp only
      split <;> simp
  | case7 c rest _ _ _ _ piece left eq ih => simpa [kind_extend, eq] using ih

/-- A piece that is a word is written as one. -/
theorem worded_cut (c : Char) (rest : List Char) : (cut c rest).1.Worded := by
  unfold cut
  split
  · exact fun h => by cases h
  split
  · exact fun h => by cases h
  split
  · exact fun h => absurd ((kind_extend _ _).1 h) (kind_cutComment _)
  split
  · exact fun h => absurd ((kind_extend _ _).1 h) (kind_cutString _)
  split
  · exact fun h => by cases h
  split
  · next h =>
      intro _
      have hpart := isWordPart_of_isWordStart h
      simp [IsName, cutWhile, hpart, h, List.all_takeWhile]
  split <;> exact fun h => by cases h

/-- The same for all pieces of a text. -/
theorem worded_cutAll (fuel : Nat) (text : List Char) :
    ∀ piece ∈ cutAll fuel text, piece.Worded := by
  induction fuel generalizing text with
  | zero => simp [cutAll]
  | succ fuel ih =>
      cases text with
      | nil => simp [cutAll]
      | cons c rest => simpa [cutAll] using ⟨worded_cut c rest, ih _⟩

/-- Tokens take over how their pieces are written. -/
theorem worded_tokens {pieces : List Piece} (h : ∀ piece ∈ pieces, piece.Worded) (pos : Position) :
    ∀ token ∈ tokens pos pieces, token.Worded := by
  induction pieces generalizing pos with
  | nil => simp [tokens]
  | cons piece rest ih =>
      intro token htoken
      rcases List.mem_append.1 htoken with htoken | htoken
      · obtain ⟨kind, hkind, rfl⟩ := Option.map_eq_some_iff.1 (Option.mem_toList.1 htoken)
        rintro rfl
        refine h piece (List.mem_cons_self ..) ?_
        unfold tokenKind? at hkind
        split at hkind <;> simp_all
      · exact ih (fun p hp => h p (List.mem_cons_of_mem _ hp)) _ token htoken

end Piece

/-- Every token that a parser may meet is a word if it is a name. -/
def ParserState.Worded (s : ParserState) : Prop :=
  s.eof.Worded ∧ ∀ token ∈ s.tokens, token.Worded

/-- The tokens of a source are written as words of their kind. -/
theorem ParserState.worded_ofSource (source : String) : (ParserState.ofSource source).Worded :=
  ⟨nofun, Piece.worded_tokens (Piece.worded_cutAll _ _) {}⟩

/-! ## Numbers -/

/-- Numbers that are pairwise different and lie between two bounds. -/
structure Numbered (lo : Nat) (nodes : List Nat) (hi : Nat) : Prop where
  le : lo ≤ hi
  nodup : nodes.Nodup
  lower : ∀ n ∈ nodes, lo ≤ n
  upper : ∀ n ∈ nodes, n < hi

namespace Numbered

variable {lo mid hi : Nat} {xs ys : List Nat}

/-- Nothing has been numbered. -/
theorem nil (n : Nat) : Numbered n [] n := ⟨Nat.le_refl n, by simp, by simp, by simp⟩

/-- Numbers of one part, and then of the next one. -/
theorem append (hx : Numbered lo xs mid) (hy : Numbered mid ys hi) :
    Numbered lo (xs ++ ys) hi := by
  refine ⟨Nat.le_trans hx.le hy.le, ?_, ?_, ?_⟩
  · refine List.nodup_append.2 ⟨hx.nodup, hy.nodup, ?_⟩
    intro a ha b hb
    have hlt := hx.upper a ha
    have hge := hy.lower b hb
    omega
  · intro n hn
    have hle := hx.le
    rcases List.mem_append.1 hn with h | h
    · exact hx.lower n h
    · have hge := hy.lower n h
      omega
  · intro n hn
    have hle := hy.le
    rcases List.mem_append.1 hn with h | h
    · have hlt := hx.upper n h
      omega
    · exact hy.upper n h

/-- A node that takes its number behind its parts. -/
theorem close (hx : Numbered lo xs hi) : Numbered lo (hi :: xs) (hi + 1) := by
  have hle := hx.le
  refine ⟨by omega, List.nodup_cons.2 ⟨fun hmem => ?_, hx.nodup⟩, ?_, ?_⟩
  · exact Nat.lt_irrefl _ (hx.upper _ hmem)
  · intro n hn
    rcases List.mem_cons.1 hn with h | h
    · omega
    · exact hx.lower n h
  · intro n hn
    rcases List.mem_cons.1 hn with h | h
    · omega
    · have hlt := hx.upper n h
      omega

/-- A node that takes its number in front of its parts. -/
theorem head (hx : Numbered (lo + 1) xs hi) : Numbered lo (lo :: xs) hi := by
  have h := (nil lo).close.append hx
  simpa using h

/-- The numbers may be said to start earlier. -/
theorem weaken (hx : Numbered mid xs hi) (hle : lo ≤ mid) : Numbered lo xs hi :=
  ⟨Nat.le_trans hle hx.le, hx.nodup, fun n hn => Nat.le_trans hle (hx.lower n hn), hx.upper⟩

end Numbered

/-- A state that a parser can reach from the number `lo`: no number was given back, and what
is still to be read is right. -/
structure ParserState.From (lo : Nat) (s : ParserState) : Prop where
  le : lo ≤ s.nextId
  worded : s.Worded

/-- Reading starts with the next free number. -/
theorem ParserState.Worded.start {s : ParserState} (h : s.Worded) : s.From s.nextId :=
  ⟨Nat.le_refl _, h⟩

/-- The token in front is written as a word of its kind. -/
theorem ParserState.Worded.peek {s : ParserState} (h : s.Worded) : s.peek.Worded := by
  unfold ParserState.peek
  cases htokens : s.tokens with
  | nil => exact h.1
  | cons token rest => exact h.2 token (by simp [htokens])

/-- Tokens that come later in the source are right as well. -/
theorem ParserState.Worded.tokens {s : ParserState} (h : s.Worded) {tokens : List Token}
    (hsubset : tokens ⊆ s.tokens) : ({ s with tokens } : ParserState).Worded :=
  ⟨h.1, fun token htoken => h.2 token (hsubset htoken)⟩

/-- One token less leaves the free numbers alone. -/
theorem ParserState.Worded.skip {s : ParserState} (h : s.Worded) : s.skip.From s.nextId :=
  ⟨Nat.le_refl _, h.tokens (List.tail_sublist s.tokens).subset⟩

/-- A parser went on from the number `lo`; where it gave a value, something holds of the value
and of the next free number. -/
def Parsed.Meets {α : Type} (lo : Nat) (Q : α → Nat → Prop) : Parsed α → Prop
  | .ok a rest => rest.From lo ∧ Q a rest.nextId
  | .fail _ rest => rest.From lo

namespace Parser

/-- What holds of the next free number in front of a parser, and of its value and the next
free number behind it. -/
def Spec {α : Type} (P : Nat → Prop) (p : Parser α) (Q : α → Nat → Prop) : Prop :=
  ∀ s : ParserState, s.Worded → P s.nextId → (p s).Meets s.nextId Q

section

variable {α β : Type} {P P' : Nat → Prop} {p : Parser α} {Q Q' : α → Nat → Prop}

/-- Less may be asked for, and more promised. -/
theorem Spec.consequence (h : Spec P p Q) (hpre : ∀ n, P' n → P n)
    (hpost : ∀ a n, Q a n → Q' a n) : Spec P' p Q' := by
  intro s hw hs
  have hp := h s hw (hpre _ hs)
  revert hp
  cases p s with
  | ok a rest => exact fun hp => ⟨hp.1, hpost _ _ hp.2⟩
  | fail error rest => exact id

/-- Less may be said of the result. -/
theorem Spec.post (h : Spec P p Q) (hpost : ∀ a n, Q a n → Q' a n) : Spec P p Q' :=
  h.consequence (fun _ => id) hpost

/-- A result without reading. -/
theorem spec_pure {a : α} (h : ∀ n, P n → Q a n) : Spec P (pure a) Q :=
  fun _ hw hs => ⟨hw.start, h _ hs⟩

/-- A fact that does not speak of numbers. -/
theorem Spec.given {φ : Prop} (h : φ → Spec P p Q) : Spec (fun n => P n ∧ φ) p Q :=
  fun s hw hs => h hs.2 s hw hs.1

/-- Two parsers in a row, with what the first one says in between. -/
theorem Spec.bind {f : α → Parser β} {R : β → Nat → Prop} (hp : Spec P p Q)
    (hf : ∀ a, Spec (Q a) (f a) R) : Spec P (p >>= f) R := by
  intro s hw hs
  have h₁ := hp s hw hs
  change Parsed.Meets s.nextId R (match p s with
    | .ok a rest => f a rest
    | .fail error rest => .fail error rest)
  revert h₁
  cases p s with
  | fail error rest => exact id
  | ok a rest =>
      intro h₁
      have h₂ := hf a rest h₁.1.worded h₁.2
      simp only
      revert h₂
      cases f a rest with
      | ok b rest' =>
          exact fun h₂ => ⟨⟨Nat.le_trans h₁.1.le h₂.1.le, h₂.1.worded⟩, h₂.2⟩
      | fail error rest' => exact fun h₂ => ⟨Nat.le_trans h₁.1.le h₂.le, h₂.worded⟩

/-- Another form of the result. -/
theorem Spec.map {g : α → β} {R : β → Nat → Prop} (hp : Spec P p fun a => R (g a)) :
    Spec P (g <$> p) R := hp.bind fun _ => spec_pure fun _ => id

/-- What holds from every number on holds from the numbers that satisfy a condition. -/
theorem Spec.from {Q : Nat → α → Nat → Prop} (h : ∀ lo, Spec (· = lo) p (Q lo)) :
    Spec P p fun a hi => ∃ lo, P lo ∧ Q lo a hi := by
  intro s hw hs
  have hp := h s.nextId s hw rfl
  revert hp
  cases p s with
  | ok a rest => exact fun hp => ⟨hp.1, s.nextId, hs, hp.2⟩
  | fail error rest => exact id

/-- A failure is excused from any promise. -/
theorem spec_fail (error : SyntaxError) : Spec P (fail error : Parser α) Q :=
  fun _ hw _ => hw.start

/-- Reading that is nested too deeply is excused from any promise. -/
theorem spec_exhausted : Spec P (exhausted : Parser α) Q :=
  fun _ hw _ => hw.start

/-- What holds for every depth holds for that of the source. -/
theorem spec_bounded {p : Nat → Parser α} (h : ∀ fuel, Spec P (p fuel) Q) :
    Spec P (bounded p) Q :=
  fun s => h (s.tokens.length + 1) s

end

/-- A parser that takes no number. -/
def Keeps {α : Type} (p : Parser α) : Prop := ∀ P : Nat → Prop, Spec P p fun _ => P

/-- Looking at the next token takes no number. -/
theorem keeps_peek : Keeps peek := fun _ _ hw hs => ⟨hw.start, hs⟩

/-- Taking a token takes no number. -/
theorem keeps_advance : Keeps advance := fun _ _ hw hs => ⟨hw.skip, hs⟩

/-- Looking for a kind of token takes no number. -/
theorem keeps_check (kind : TokenKind) : Keeps (check kind) :=
  fun _ _ hw hs => ⟨hw.start, hs⟩

/-- A token that may be there takes no number. -/
theorem keeps_eat (kind : TokenKind) : Keeps (eat kind) := by
  intro P s hw hs
  unfold eat
  split
  · exact ⟨hw.skip, hs⟩
  · exact ⟨hw.start, hs⟩

/-- A token that has to be there takes no number. -/
theorem keeps_expect (kind : TokenKind) : Keeps (expect kind) := by
  intro P s hw hs
  unfold expect
  simp only
  split
  · exact ⟨hw.skip, hs⟩
  · split <;> exact hw.start

/-- A name is a word. -/
theorem spec_ident (P : Nat → Prop) : Spec P ident fun name n => P n ∧ IsName name.name := by
  intro s hw hs
  unfold ident
  simp only
  split
  · next hkind => exact ⟨hw.skip, hs, hw.peek hkind⟩
  · exact hw.start
  · exact hw.start

/-- A name takes no number. -/
theorem keeps_ident : Keeps ident := fun P => (spec_ident P).post fun _ _ h => h.1

/-- What takes no numbers may be done in a row. -/
theorem Keeps.bind {α β : Type} {p : Parser α} {f : α → Parser β} (hp : Keeps p)
    (hf : ∀ a, Keeps (f a)) : Keeps (p >>= f) :=
  fun P => (hp P).bind fun a => hf a P

/-- A result without reading takes no number. -/
theorem keeps_pure {α : Type} (a : α) : Keeps (pure a : Parser α) :=
  fun _ => spec_pure fun _ => id

/-- The stars of a type take no numbers. -/
theorem keeps_starsUpTo (fuel : Nat) (ty : TypeExpr) : Keeps (starsUpTo fuel ty) := by
  induction fuel generalizing ty with
  | zero => exact fun _ => spec_exhausted
  | succ fuel ih =>
      refine keeps_peek.bind fun token => (keeps_eat _).bind fun eaten => ?_
      cases eaten with
      | true => exact ih _
      | false => exact keeps_pure ty

/-- Types have no nodes. -/
theorem keeps_typeExpr : Keeps typeExpr := by
  refine keeps_peek.bind fun token => ?_
  have hstars : ∀ ty, Keeps (do let _ ← advance; bounded (starsUpTo · ty)) := fun ty =>
    keeps_advance.bind fun _ P => spec_bounded fun fuel => keeps_starsUpTo fuel ty P
  split
  · exact hstars _
  · exact hstars _
  · exact fun _ => spec_fail _
  · exact fun _ => spec_fail _

/-- A fresh number is the one that was free. -/
theorem spec_freshId (P : Nat → Prop) : Spec P freshId fun id n => n = id + 1 ∧ P id :=
  fun s hw hs => ⟨⟨Nat.le_succ s.nextId, hw⟩, rfl, hs⟩

/-- A parser whose values carry numbers of their own and have a property. -/
def Numbers {α : Type} (p : Parser α) (nodes : α → List NodeId) (Q : α → Prop) : Prop :=
  ∀ lo, Spec (· = lo) p fun a hi => Numbered lo (nodes a) hi ∧ Q a

section

variable {α β : Type} {p : Parser α} {nodes : α → List NodeId} {Q : α → Prop} {P : Nat → Prop}

/-- The parser of a part, behind the parts that were read before. -/
theorem Numbers.from (h : Numbers p nodes Q) :
    Spec P p fun a hi => ∃ lo, P lo ∧ Numbered lo (nodes a) hi ∧ Q a :=
  Spec.from h

/-- The parser of a part that comes behind some others. -/
theorem Numbers.after {lo : Nat} {xs : List Nat} (h : Numbers p nodes Q) :
    Spec (Numbered lo xs) p fun a hi => Numbered lo (xs ++ nodes a) hi ∧ Q a :=
  h.from.post fun _ _ ⟨_, hxs, hnodes, hq⟩ => ⟨hxs.append hnodes, hq⟩

end

/-! ## Lists -/

section

variable {α : Type} {p : Parser α} {nodes : α → List NodeId} {Q : α → Prop}

/-- The elements of a list are numbered one after the other. -/
theorem numbers_separatedUpTo (h : Numbers p nodes Q) (fuel : Nat) :
    Numbers (separatedUpTo p fuel) (List.flatMap nodes) fun as => ∀ a ∈ as, Q a := by
  induction fuel with
  | zero => exact fun _ => spec_exhausted
  | succ fuel ih =>
      intro lo
      refine (h lo).bind fun first => (keeps_eat _ _).bind fun eaten => ?_
      cases eaten with
      | true =>
          refine ih.from.bind fun rest => spec_pure ?_
          rintro hi ⟨mid, ⟨hfirst, hq⟩, hrest, hqs⟩
          exact ⟨hfirst.append hrest, by simpa using ⟨hq, hqs⟩⟩
      | false =>
          refine spec_pure ?_
          rintro hi ⟨hfirst, hq⟩
          exact ⟨by simpa using hfirst, by simpa using hq⟩

/-- A list between separators is numbered in its order. -/
theorem numbers_separated (h : Numbers p nodes Q) :
    Numbers (separated p) (List.flatMap nodes) fun as => ∀ a ∈ as, Q a :=
  fun lo => spec_bounded fun fuel => numbers_separatedUpTo h fuel lo

/-- A list up to a mark is numbered in its order. -/
theorem numbers_manyUpTo (stop : TokenKind → Bool) (h : Numbers p nodes Q) (fuel : Nat) :
    Numbers (manyUpTo stop p fuel) (List.flatMap nodes) fun as => ∀ a ∈ as, Q a := by
  induction fuel with
  | zero => exact fun _ => spec_exhausted
  | succ fuel ih =>
      intro lo
      refine (keeps_peek _).bind fun token => ?_
      split
      · refine spec_pure ?_
        rintro n rfl
        exact ⟨.nil n, by simp⟩
      · refine (h lo).bind fun first => ih.from.bind fun rest => ?_
        refine spec_pure ?_
        rintro hi ⟨mid, ⟨hfirst, hq⟩, hrest, hqs⟩
        exact ⟨hfirst.append hrest, by simpa using ⟨hq, hqs⟩⟩

/-- The same without a bound on the length. -/
theorem numbers_many (stop : TokenKind → Bool) (h : Numbers p nodes Q) :
    Numbers (many stop p) (List.flatMap nodes) fun as => ∀ a ∈ as, Q a :=
  fun lo => spec_bounded fun fuel => numbers_manyUpTo stop h fuel lo

/-- A value that cannot be read leaves no numbers behind, only a gap. -/
theorem numbers_attempt {skip : Parser Unit} (h : Numbers p nodes Q) (hskip : Keeps skip) :
    Numbers (attempt p skip) (fun found => found.toList.flatMap nodes)
      fun found => ∀ a ∈ found, Q a := by
  intro lo s hw hs
  subst hs
  have hp := h s.nextId s hw rfl
  unfold attempt
  revert hp
  cases p s with
  | ok a rest =>
      rintro ⟨hfrom, hnodes, hq⟩
      exact ⟨hfrom, by simpa using hnodes, by simpa using hq⟩
  | fail error rest =>
      intro hfrom
      have hrest := hskip (s.nextId ≤ ·) { rest with errors := rest.errors ++ [error] } hfrom.worded
        hfrom.le
      have hreport : (report error >>= fun _ => skip) rest =
          skip { rest with errors := rest.errors ++ [error] } := rfl
      simp only [hreport]
      revert hrest
      cases skip _ with
      | ok a rest' =>
          rintro ⟨hfrom', hle⟩
          exact ⟨⟨hle, hfrom'.worded⟩, (Numbered.nil _).weaken hle, by simp⟩
      | fail error' rest' =>
          exact fun hfrom' => ⟨Nat.le_trans hfrom.le hfrom'.le, hfrom'.worded⟩

/-- A list is numbered in its order, and what is skipped takes no number that is kept.
-/
theorem numbers_recoveringUpTo (stop : TokenKind → Bool) {skip : Parser Unit}
    (h : Numbers p nodes Q) (hskip : Keeps skip) (fuel : Nat) :
    Numbers (recoveringUpTo stop p skip fuel) (List.flatMap nodes) fun as => ∀ a ∈ as, Q a := by
  induction fuel with
  | zero => exact fun _ => spec_exhausted
  | succ fuel ih =>
      intro lo
      refine (keeps_peek _).bind fun token => ?_
      split
      · refine spec_pure ?_
        rintro n rfl
        exact ⟨.nil n, by simp⟩
      · refine (numbers_attempt h hskip lo).bind fun first => ih.from.bind fun rest => ?_
        refine spec_pure ?_
        rintro hi ⟨mid, ⟨hfirst, hq⟩, hrest, hqs⟩
        refine ⟨by simpa using hfirst.append hrest, ?_⟩
        intro a ha
        rcases List.mem_append.1 ha with hmem | hmem
        · exact hq a (by simpa using hmem)
        · exact hqs a hmem

/-- The same without a bound on the length. -/
theorem numbers_recovering (stop : TokenKind → Bool) {skip : Parser Unit}
    (h : Numbers p nodes Q) (hskip : Keeps skip) :
    Numbers (recovering stop p skip) (List.flatMap nodes) fun as => ∀ a ∈ as, Q a :=
  fun lo => spec_bounded fun fuel => numbers_recoveringUpTo stop h hskip fuel lo

/-- Skipping to the next statement leaves tokens that were there. -/
theorem afterStatement_subset (depth : Nat) (tokens : List Token) :
    afterStatement depth tokens ⊆ tokens := by
  induction tokens generalizing depth with
  | nil => exact List.Subset.refl _
  | cons token rest ih =>
      have hrest : ∀ depth, afterStatement depth rest ⊆ token :: rest := fun depth =>
        List.subset_cons_of_subset _ (ih depth)
      unfold afterStatement
      split
      · exact hrest _
      · split
        · exact List.Subset.refl _
        · exact List.subset_cons_self ..
        · exact hrest _
      · split
        · exact List.subset_cons_self ..
        · exact hrest _
      · exact hrest _

/-- Skipping to the next item leaves tokens that were there. -/
theorem afterItem_subset (depth : Nat) (tokens : List Token) :
    afterItem depth tokens ⊆ tokens := by
  induction tokens generalizing depth with
  | nil => exact List.Subset.refl _
  | cons token rest ih =>
      have hrest : ∀ depth, afterItem depth rest ⊆ token :: rest := fun depth =>
        List.subset_cons_of_subset _ (ih depth)
      unfold afterItem
      split
      case h_4 => exact hrest _
      case h_7 => exact hrest _
      case h_5 | h_6 =>
        split
        · exact List.subset_cons_self ..
        · exact hrest _
      all_goals
        split
        · exact List.Subset.refl _
        · exact hrest _

/-- Skipping to the next statement takes no number. -/
theorem keeps_skipStatement : Keeps skipStatement := fun _ s hw hs =>
  ⟨⟨Nat.le_refl _, hw.tokens (afterStatement_subset 0 s.tokens)⟩, hs⟩

/-- Skipping to the next item takes no number. -/
theorem keeps_skipItem : Keeps skipItem := fun _ s hw hs =>
  ⟨⟨Nat.le_refl _, hw.tokens (afterItem_subset 0 s.tokens)⟩, hs⟩

end

/-! ## Expressions -/

/-- The nodes of a list are those of its elements. -/
theorem nodesOfAll_eq_flatMap (es : List Expr) : Expr.nodesOfAll es = es.flatMap Expr.nodes := by
  induction es with
  | nil => rfl
  | cons e rest ih => simp [ih]

/-- A list is proper if its elements are. -/
theorem allProper_iff (es : List Expr) : Expr.AllProper es ↔ ∀ e ∈ es, e.Proper := by
  induction es with
  | nil => simp
  | cons e rest ih => simp [ih]

/-- Expressions carry numbers of their own, and are proper. -/
abbrev NumbersExpr (p : Parser Expr) : Prop := Numbers p Expr.nodes Expr.Proper

/-- A literal is one node, and its integer is one that can be written. -/
theorem numbers_literal {value : Literal} (hvalue : ∀ n, value = .int n → n ≤ maxLiteral) :
    NumbersExpr (literal value) := by
  intro lo
  refine (keeps_advance _).bind fun token => (spec_freshId _).bind fun id => ?_
  refine spec_pure ?_
  rintro n ⟨rfl, rfl⟩
  exact ⟨(Numbered.nil id).close, Expr.proper_literal.2 hvalue⟩

/-- Arguments are numbered in their order. -/
theorem numbers_arguments {expr : Parser Expr} (h : NumbersExpr expr) :
    Numbers (arguments expr) (fun result => Expr.nodesOfAll result.1)
      fun result => Expr.AllProper result.1 := by
  intro lo
  simp only [nodesOfAll_eq_flatMap, allProper_iff]
  refine (keeps_expect _ _).bind fun _ => (keeps_check _ _).bind fun empty => ?_
  have hclose : ∀ args : List Expr, Spec
      (fun hi => Numbered lo (args.flatMap Expr.nodes) hi ∧ ∀ e ∈ args, e.Proper)
      (do let close ← expect (.mark .rightParen); return (args, close.span))
      fun result hi => Numbered lo (result.1.flatMap Expr.nodes) hi ∧ ∀ e ∈ result.1, e.Proper :=
    fun args => (keeps_expect _ _).bind fun close => spec_pure fun _ => id
  cases empty with
  | true =>
      refine (hclose []).consequence ?_ fun _ _ => id
      rintro n rfl
      exact ⟨.nil n, by simp⟩
  | false => exact (numbers_separated h lo).bind hclose

/-- An operand by itself takes its numbers after those of its parts. -/
theorem numbers_primary {expr : Parser Expr} (h : NumbersExpr expr) :
    NumbersExpr (primary expr) := by
  intro lo
  refine (keeps_peek _).bind fun token => ?_
  split
  · simp only
    split
    · next hle => exact numbers_literal (fun n hn => by cases hn; exact hle) lo
    · exact spec_fail _
  · exact numbers_literal (by simp) lo
  · exact numbers_literal (by simp) lo
  · refine (keeps_ident _).bind fun name => (keeps_check _ _).bind fun isCall => ?_
    cases isCall with
    | true =>
        refine (numbers_arguments h lo).bind fun result => (spec_freshId _).bind fun id => ?_
        refine spec_pure ?_
        rintro n ⟨rfl, hargs, hproper⟩
        exact ⟨hargs.close, Expr.proper_call.2 hproper⟩
    | false =>
        refine (spec_freshId _).bind fun id => spec_pure ?_
        rintro n ⟨rfl, rfl⟩
        exact ⟨(Numbered.nil id).close, Expr.proper_name⟩
  · refine (keeps_advance _).bind fun _ => (h lo).bind fun inner => ?_
    exact (keeps_expect _ _).bind fun _ => spec_pure fun _ => id
  · exact spec_fail _
  · exact spec_fail _

/-- A loop that goes on with the expression it has read so far. -/
abbrev Continues (p : Expr → Parser Expr) : Prop :=
  ∀ lo (e : Expr), e.Proper →
    Spec (Numbered lo e.nodes) (p e) fun e' hi => Numbered lo e'.nodes hi ∧ e'.Proper

/-- Calls and members on an operand take numbers behind it. -/
theorem continues_suffixesUpTo {expr : Parser Expr} (h : NumbersExpr expr) (fuel : Nat) :
    Continues (suffixesUpTo expr fuel) := by
  induction fuel with
  | zero => exact fun _ _ _ => spec_exhausted
  | succ fuel ih =>
      intro lo object hobject
      refine (keeps_eat _ _).bind fun eaten => ?_
      cases eaten with
      | false => exact spec_pure fun n hn => ⟨hn, hobject⟩
      | true =>
          refine (keeps_ident _).bind fun name => (keeps_check _ _).bind fun isCall => ?_
          cases isCall with
          | true =>
              refine (numbers_arguments h).after.bind fun result =>
                (spec_freshId _).bind fun id => ?_
              rintro s hw ⟨hs, hnodes, hproper⟩
              refine ih lo (.methodCall id object name result.1 _) ?_ s hw ?_
              · exact Expr.proper_methodCall.2 ⟨hobject, hproper⟩
              · rw [hs, Expr.nodes_methodCall]
                exact hnodes.close
          | false =>
              refine (spec_freshId _).bind fun id => ?_
              rintro s hw ⟨hs, hnodes⟩
              refine ih lo (.member id object name _) (Expr.proper_member.2 hobject) s hw ?_
              rw [hs, Expr.nodes_member]
              exact hnodes.close

/-- Operations take numbers behind their operands. -/
theorem continues_operatorsUpTo {expr : Nat → Parser Expr} (h : ∀ power, NumbersExpr (expr power))
    (power fuel : Nat) : Continues (operatorsUpTo expr power fuel) := by
  induction fuel with
  | zero => exact fun _ _ _ => spec_exhausted
  | succ fuel ih =>
      intro lo left hleft
      have hstop : Spec (Numbered lo left.nodes) (pure left : Parser Expr)
          fun e hi => Numbered lo e.nodes hi ∧ e.Proper :=
        spec_pure fun n hn => ⟨hn, hleft⟩
      refine (keeps_peek _).bind fun token => ?_
      split
      · split
        · exact hstop
        · split
          · next hplace =>
              refine (keeps_advance _).bind fun _ => (h _).after.bind fun value => ?_
              refine (spec_freshId _).bind fun id => ?_
              rintro s hw ⟨hs, hnodes, hproper⟩
              refine ih lo (.assign id left value _) ?_ s hw ?_
              · exact Expr.proper_assign.2 ⟨hplace, hleft, hproper⟩
              · rw [hs, Expr.nodes_assign]
                exact hnodes.close
          · exact spec_fail _
      · split
        · exact hstop
        · split
          · exact hstop
          · refine (keeps_advance _).bind fun _ => (h _).after.bind fun right => ?_
            refine (spec_freshId _).bind fun id => ?_
            rintro s hw ⟨hs, hnodes, hproper⟩
            refine ih lo (.binary id _ left right _) ?_ s hw ?_
            · exact Expr.proper_binary.2 ⟨hleft, hproper⟩
            · rw [hs, Expr.nodes_binary]
              exact hnodes.close

/-- Expressions of every depth are numbered. -/
theorem numbers_exprUpTo (fuel power : Nat) : NumbersExpr (exprUpTo fuel power) := by
  induction fuel generalizing power with
  | zero => exact fun _ => spec_exhausted
  | succ fuel ih =>
      intro lo
      refine (numbers_primary (ih 0) lo).bind fun head => ?_
      refine Spec.bind (Q := fun e hi => Numbered lo e.nodes hi ∧ e.Proper) ?_ fun operand => ?_
      · rintro s hw ⟨hs, hhead⟩
        exact spec_bounded (fun n => continues_suffixesUpTo (ih 0) n lo head hhead) s hw hs
      · rintro s hw ⟨hs, hoperand⟩
        exact spec_bounded (fun n => continues_operatorsUpTo ih power n lo operand hoperand) s hw hs

/-- **The nodes of an expression have numbers of their own**, and the expression is
proper. -/
theorem numbers_expr : NumbersExpr expr :=
  fun lo => spec_bounded fun fuel => numbers_exprUpTo fuel 0 lo

/-! ## Statements -/

/-- The nodes of statements are those of each of them. -/
theorem nodesOfAll_stmts (stmts : List Stmt) :
    Stmt.nodesOfAll stmts = stmts.flatMap Stmt.nodes := by
  induction stmts with
  | nil => rfl
  | cons s rest ih => simp [Stmt.nodesOfAll, ih]

/-- Statements are proper if each of them is. -/
theorem allProper_stmts_iff (stmts : List Stmt) :
    Stmt.AllProper stmts ↔ ∀ s ∈ stmts, s.Proper := by
  induction stmts with
  | nil => simp
  | cons s rest ih => simp [ih]

/-- Statements carry numbers of their own, and are proper. -/
abbrev NumbersStmt (p : Parser Stmt) : Prop := Numbers p Stmt.nodes Stmt.Proper

/-- An expression that may be missing. -/
theorem numbers_optional (present : Bool) :
    Numbers (if present then some <$> expr else pure none) Expr.nodesOfOption
      fun value => ∀ e ∈ value, e.Proper := by
  intro lo
  cases present with
  | true =>
      refine Spec.map ((numbers_expr lo).post ?_)
      rintro e hi ⟨hnodes, hproper⟩
      exact ⟨hnodes, by simpa using hproper⟩
  | false =>
      refine spec_pure ?_
      rintro n rfl
      exact ⟨.nil n, by simp⟩

/-- A declaration is a node, besides those of its value. -/
theorem numbers_varDecl : NumbersStmt varDecl := by
  intro lo
  refine (keeps_typeExpr _).bind fun ty => (keeps_ident _).bind fun name => ?_
  refine (keeps_eat _ _).bind fun present => ?_
  have hrest : ∀ value : Option Expr, Spec
      (fun hi => Numbered lo (Expr.nodesOfOption value) hi ∧ ∀ e ∈ value, e.Proper)
      (do let stop ← expect (.mark .semicolon)
          return Stmt.varDecl (← freshId) ty name value (ty.span.merge stop.span))
      fun s hi => Numbered lo s.nodes hi ∧ s.Proper := by
    intro value
    refine (keeps_expect _ _).bind fun stop => (spec_freshId _).bind fun id => spec_pure ?_
    rintro n ⟨rfl, hnodes, hproper⟩
    exact ⟨hnodes.close, Stmt.proper_varDecl.2 hproper⟩
  cases present with
  | true => exact (numbers_optional true lo).bind hrest
  | false => exact (numbers_optional false lo).bind hrest

/-- An expression as a statement has the nodes of the expression. -/
theorem numbers_exprStmt : NumbersStmt exprStmt := by
  intro lo
  refine (numbers_expr lo).bind fun e => (keeps_expect _ _).bind fun stop => spec_pure ?_
  rintro n ⟨hnodes, hproper⟩
  exact ⟨hnodes, Stmt.proper_expr.2 hproper⟩

/-- A return has the nodes of its value. -/
theorem numbers_returnStmt : NumbersStmt returnStmt := by
  intro lo
  refine (keeps_expect _ _).bind fun start => (keeps_check _ _).bind fun empty => ?_
  have hrest : ∀ value : Option Expr, Spec
      (fun hi => Numbered lo (Expr.nodesOfOption value) hi ∧ ∀ e ∈ value, e.Proper)
      (do let stop ← expect (.mark .semicolon)
          return Stmt.ret value (start.span.merge stop.span))
      fun s hi => Numbered lo s.nodes hi ∧ s.Proper := by
    intro value
    refine (keeps_expect _ _).bind fun stop => spec_pure ?_
    rintro n ⟨hnodes, hproper⟩
    exact ⟨hnodes, Stmt.proper_ret.2 hproper⟩
  cases empty with
  | true => exact (numbers_optional false lo).bind hrest
  | false => exact (numbers_optional true lo).bind hrest

/-- A block is a node, besides those of its statements. -/
theorem numbers_blockWith {stmt : Parser Stmt} (h : NumbersStmt stmt) :
    Numbers (blockWith stmt) (fun b => b.toStmt.nodes) fun b => b.toStmt.Proper := by
  intro lo
  refine (keeps_expect _ _).bind fun start => (spec_freshId _).bind fun id => ?_
  refine (numbers_recovering _ h keeps_skipStatement).from.bind fun stmts => ?_
  refine (keeps_expect _ _).bind fun stop => spec_pure ?_
  rintro hi ⟨mid, ⟨rfl, rfl⟩, hnodes, hproper⟩
  refine ⟨?_, Stmt.proper_block.2 ((allProper_stmts_iff stmts).2 hproper)⟩
  rw [← nodesOfAll_stmts] at hnodes
  exact hnodes.head

/-- A conditional statement has the nodes of its condition and its sides. -/
theorem numbers_ifWith {stmt : Parser Stmt} (h : NumbersStmt stmt) : NumbersStmt (ifWith stmt) := by
  intro lo
  refine (keeps_expect _ _).bind fun start => (keeps_expect _ _).bind fun _ => ?_
  refine (numbers_expr lo).bind fun condition => (keeps_expect _ _).bind fun _ => ?_
  refine h.from.bind fun positive => (keeps_eat _ _).bind fun hasElse => ?_
  cases hasElse with
  | true =>
      refine h.from.bind fun negative => spec_pure ?_
      rintro hi ⟨n, ⟨m, ⟨hcondition, hproper₀⟩, hpositive, hproper₁⟩, hnegative, hproper₂⟩
      exact ⟨hcondition.append (hpositive.append hnegative),
        Stmt.proper_ifElse.2 ⟨hproper₀, hproper₁, hproper₂⟩⟩
  | false =>
      refine spec_pure ?_
      rintro hi ⟨m, ⟨hcondition, hproper₀⟩, hpositive, hproper₁⟩
      exact ⟨hcondition.append hpositive, Stmt.proper_ifThen.2 ⟨hproper₀, hproper₁⟩⟩

/-- A statement is numbered if the statements in it are. -/
theorem numbers_stmtWith {stmt : Parser Stmt} (h : NumbersStmt stmt) :
    NumbersStmt (stmtWith stmt) := by
  intro lo s hw hs
  unfold stmtWith
  split
  · exact numbers_ifWith h lo s hw hs
  · exact numbers_returnStmt lo s hw hs
  · exact Spec.map (numbers_blockWith h lo) s hw hs
  · split
    · exact numbers_varDecl lo s hw hs
    · exact numbers_exprStmt lo s hw hs

/-- Statements of every depth are numbered. -/
theorem numbers_stmtUpTo (fuel : Nat) : NumbersStmt (stmtUpTo fuel) := by
  induction fuel with
  | zero => exact fun _ => spec_exhausted
  | succ fuel ih => exact numbers_stmtWith ih

/-- **The nodes of a block have numbers of their own**, and the block is proper. -/
theorem numbers_block : Numbers block (fun b => b.toStmt.nodes) fun b => b.toStmt.Proper :=
  numbers_blockWith fun lo => spec_bounded fun fuel => numbers_stmtUpTo fuel lo

/-! ## Declarations -/

/-- A parameter is one node. -/
theorem numbers_param : Numbers param (fun p => [p.id]) fun _ => True := by
  intro lo
  refine (keeps_typeExpr _).bind fun ty => (keeps_ident _).bind fun name => ?_
  refine (spec_freshId _).bind fun id => spec_pure ?_
  rintro n ⟨rfl, rfl⟩
  exact ⟨(Numbered.nil id).close, trivial⟩

/-- Parameters are numbered in their order, however many there are. -/
theorem numbers_paramsUpTo (isExternal : Bool) (fuel : Nat) :
    Numbers (paramsUpTo isExternal fuel) (fun result => result.1.map Param.id)
      fun _ => True := by
  induction fuel with
  | zero => exact fun _ => spec_exhausted
  | succ fuel ih =>
      intro lo
      refine (keeps_peek _).bind fun token => (keeps_eat _ _).bind fun ellipsis => ?_
      cases ellipsis with
      | true =>
          cases isExternal with
          | true =>
              refine (keeps_check _ _).bind fun closed => ?_
              cases closed with
              | true =>
                  refine spec_pure ?_
                  rintro n rfl
                  exact ⟨.nil n, trivial⟩
              | false => exact (keeps_peek _).bind fun found => spec_fail _
          | false => exact spec_fail _
      | false =>
          refine (numbers_param lo).bind fun first => (keeps_eat _ _).bind fun comma => ?_
          cases comma with
          | true =>
              refine ih.from.bind fun rest => spec_pure ?_
              rintro hi ⟨mid, ⟨hfirst, -⟩, hrest, -⟩
              exact ⟨hfirst.append hrest, trivial⟩
          | false => exact spec_pure fun _ => id

/-- Parameters are numbered in their order. -/
theorem numbers_params (isExternal : Bool) :
    Numbers (params isExternal) (fun result => result.1.map Param.id) fun _ => True := by
  intro lo
  refine (keeps_expect _ _).bind fun _ => (keeps_check _ _).bind fun empty => ?_
  have hrest : ∀ result : List Param × Bool, Spec
      (fun hi => Numbered lo (result.1.map Param.id) hi ∧ True)
      (do let _ ← expect (.mark .rightParen); return result)
      fun result hi => Numbered lo (result.1.map Param.id) hi ∧ True :=
    fun result => (keeps_expect _ _).bind fun _ => spec_pure fun _ => id
  cases empty with
  | true =>
      refine (hrest ([], false)).consequence ?_ fun _ _ => id
      rintro n rfl
      exact ⟨.nil n, trivial⟩
  | false =>
      exact (spec_bounded fun fuel => numbers_paramsUpTo isExternal fuel lo).bind hrest

/-- A function with a body is numbered and proper. -/
theorem numbers_functionRest (returnType : TypeExpr) {name : Ident} (hname : IsName name.name) :
    Numbers (functionRest returnType name) FunctionDecl.nodes
      fun decl => decl.Proper ∧ decl.body.isExternal = false := by
  intro lo
  refine (spec_freshId _).bind fun id => (numbers_params false).from.bind fun result => ?_
  refine numbers_block.from.bind fun body => spec_pure ?_
  rintro hi ⟨n, ⟨m, ⟨rfl, rfl⟩, hparams, -⟩, hbody, hproper⟩
  refine ⟨(hparams.append hbody).head, ⟨hname, ?_⟩, rfl⟩
  simpa [FunctionBody.block?] using hproper

/-- A function without a body is numbered and proper. -/
theorem numbers_externalRest (returnType : TypeExpr) {name : Ident} (hname : IsName name.name) :
    Numbers (externalRest returnType name) FunctionDecl.nodes FunctionDecl.Proper := by
  intro lo
  refine (spec_freshId _).bind fun id => (numbers_params true).from.bind fun result => ?_
  refine (keeps_expect _ _).bind fun stop => spec_pure ?_
  rintro hi ⟨n, ⟨rfl, rfl⟩, hparams, -⟩
  refine ⟨?_, hname, by simp [FunctionBody.block?]⟩
  simpa [FunctionDecl.nodes, FunctionBody.nodes] using hparams.head

/-- A declaration of a function elsewhere is numbered and proper. -/
theorem numbers_externalDecl : Numbers externalDecl FunctionDecl.nodes FunctionDecl.Proper := by
  intro lo
  refine (keeps_expect _ _).bind fun start => (keeps_typeExpr _).bind fun ty => ?_
  refine (spec_ident _).bind fun name => Spec.given fun hname => ?_
  refine (numbers_externalRest ty hname lo).bind fun decl => ?_
  exact spec_pure fun _ => id

/-- A field is one node. -/
theorem numbers_fieldRest (ty : TypeExpr) (name : Ident) :
    Numbers (fieldRest ty name) (fun f => [f.id]) fun _ => True := by
  intro lo
  refine (keeps_expect _ _).bind fun stop => (spec_freshId _).bind fun id => spec_pure ?_
  rintro n ⟨rfl, rfl⟩
  exact ⟨(Numbered.nil id).close, trivial⟩

/-- A field is one node, from its type on. -/
theorem numbers_fieldDecl : Numbers fieldDecl (fun f => [f.id]) fun _ => True := by
  intro lo
  refine (keeps_typeExpr _).bind fun ty => (keeps_ident _).bind fun name => ?_
  exact numbers_fieldRest ty name lo

/-- A member of a class is numbered and proper. -/
theorem numbers_classMember : Numbers classMember ClassMember.nodes ClassMember.Proper := by
  intro lo
  refine (keeps_typeExpr _).bind fun ty => (spec_ident _).bind fun name => ?_
  refine Spec.given fun hname => (keeps_check _ _).bind fun isMethod => ?_
  cases isMethod with
  | true => exact Spec.map (numbers_functionRest ty hname lo)
  | false => exact Spec.map (numbers_fieldRest ty name lo)

/-- A class is numbered before its members are. -/
theorem numbers_classDecl :
    Numbers classDecl (fun decl => (Item.classDecl decl).nodes)
      fun decl => (Item.classDecl decl).Proper := by
  intro lo
  refine (keeps_expect _ _).bind fun start => (spec_freshId _).bind fun id => ?_
  refine (spec_ident _).bind fun name => Spec.given fun hname => ?_
  refine (keeps_eat _ _).bind fun extended => ?_
  have hrest : ∀ parent : Option Ident, Spec (fun n => n = id + 1 ∧ id = lo)
      (do let _ ← expect (.mark .leftBrace)
          let members ← recovering closesBraces classMember skipStatement
          let stop ← expect (.mark .rightBrace)
          return (⟨id, name, parent, members, start.span.merge stop.span⟩ : ClassDecl))
      fun decl hi => Numbered lo (Item.classDecl decl).nodes hi ∧
        (Item.classDecl decl).Proper := by
    intro parent
    refine (keeps_expect _ _).bind fun _ => ?_
    refine (numbers_recovering _ numbers_classMember keeps_skipStatement).from.bind
      fun members => (keeps_expect _ _).bind fun stop => spec_pure ?_
    rintro hi ⟨mid, ⟨rfl, rfl⟩, hnodes, hproper⟩
    exact ⟨hnodes.head, hname, hproper⟩
  cases extended with
  | true => exact (Keeps.bind keeps_ident fun _ => keeps_pure _) _ |>.bind hrest
  | false => exact hrest none

/-- A struct is numbered before its fields are. -/
theorem numbers_structDecl :
    Numbers structDecl (fun decl => (Item.structDecl decl).nodes)
      fun decl => (Item.structDecl decl).Proper := by
  intro lo
  refine (keeps_expect _ _).bind fun start => (spec_freshId _).bind fun id => ?_
  refine (spec_ident _).bind fun name => Spec.given fun hname => (keeps_expect _ _).bind fun _ => ?_
  refine (numbers_many _ numbers_fieldDecl).from.bind fun fields => ?_
  refine (keeps_expect _ _).bind fun stop => spec_pure ?_
  rintro hi ⟨mid, ⟨rfl, rfl⟩, hnodes, -⟩
  refine ⟨?_, hname⟩
  rw [← List.map_eq_flatMap] at hnodes
  exact hnodes.head

/-- **The nodes of an item have numbers of their own**, and the item is proper. -/
theorem numbers_item : Numbers item Item.nodes Item.Proper := by
  intro lo
  refine (keeps_peek _).bind fun token => ?_
  split
  · exact Spec.map (numbers_classDecl lo)
  · exact Spec.map (numbers_structDecl lo)
  · exact Spec.map (numbers_externalDecl lo)
  · refine Spec.map ?_
    refine (keeps_typeExpr _).bind fun ty => (spec_ident _).bind fun name => ?_
    refine Spec.given fun hname => (keeps_check _ _).bind fun isFunction => ?_
    cases isFunction with
    | true =>
        exact (numbers_functionRest ty hname lo).post fun decl hi h => ⟨h.1, h.2.1⟩
    | false => exact spec_fail _

/-- **The nodes of all items have numbers of their own.** -/
theorem numbers_items :
    Numbers items (List.flatMap Item.nodes) fun items => ∀ item ∈ items, item.Proper :=
  numbers_recovering _ numbers_item keeps_skipItem

end Parser

/-- What can be read of a source has numbers of its own, all of them given out. -/
theorem Script.numbered_readLexed {lexed : Lexed} (h : (ParserState.ofLexed lexed).Worded) :
    Numbered 0 (readLexed lexed).script.nodes (readLexed lexed).script.nodeCount ∧
      ∀ item ∈ (readLexed lexed).script.items, item.Proper := by
  have hitems := Parser.numbers_items 0 (.ofLexed lexed) h rfl
  unfold readLexed
  revert hitems
  simp only
  cases Parser.items (.ofLexed lexed) with
  | ok items rest => exact fun h => h.2
  | fail error rest => exact fun h => ⟨(Numbered.nil _).weaken h.le, by simp⟩

/-- **The parser keeps its promise.**  A script that was parsed is proper. -/
theorem Script.proper_of_parse {source : String} {script : Script}
    (h : parse source = .ok script) : script.Proper := by
  unfold parse at h
  simp only at h
  split at h
  · cases h
    obtain ⟨hnumbered, hitems⟩ :=
      Script.numbered_readLexed (ParserState.worded_ofSource source)
    exact ⟨hnumbered.nodup, hitems⟩
  · cases h

end ClassLang
