import ClassLang.Syntax.Parser
import Mathlib.Data.List.GetD

/-!
# Tokens one by one

A stream that hands out tokens one by one, with lookahead, hands out those that lexing the whole
source gives, and the end mark for ever after.  A parser reads its tokens from a list;
`TokenStream.Shows` pairs its state with a stream that was asked for the same tokens, and the two
answer alike (`TokenStream.Shows.next`, `TokenStream.Shows.peekNth`).

Errors are met on the way.  Once the end mark has been looked at, they are all the errors of the
source (`TokenStream.Shows.takeErrors`).
-/

namespace ClassLang

namespace Piece

/-- No piece is the end mark. -/
theorem tokenKind?_ne_eof (piece : Piece) : piece.tokenKind? ≠ some .eof := by
  unfold tokenKind?
  split
  · unfold wordKind
    split <;> nofun
  all_goals nofun

/-- Pieces give no end mark. -/
theorem kind_tokens (pieces : List Piece) (pos : Position) :
    ∀ token ∈ tokens pos pieces, token.kind ≠ .eof := by
  induction pieces generalizing pos with
  | nil => simp [tokens]
  | cons piece rest ih =>
      intro token htoken
      rcases List.mem_append.1 htoken with hfirst | hrest
      · obtain ⟨kind, hkind, rfl⟩ := Option.map_eq_some_iff.1 (Option.mem_toList.1 hfirst)
        intro heof
        exact piece.tokenKind?_ne_eof (hkind.trans (congrArg _ heof))
      · exact ih _ token hrest

/-- The position behind some pieces. -/
def afterAll (pos : Position) : List Piece → Position
  | [] => pos
  | piece :: rest => afterAll (pos.after piece.text) rest

/-- Behind all pieces stands the position behind their texts. -/
theorem afterAll_eq (pos : Position) (pieces : List Piece) :
    afterAll pos pieces = pos.after (pieces.flatMap text) := by
  induction pieces generalizing pos with
  | nil => rfl
  | cons piece rest ih =>
      rw [afterAll, ih, List.flatMap_cons, Position.after, Position.after, Position.after,
        List.foldl_append]

/-- Reading up to the next token loses nothing: there is a token, or the end was reached. -/
theorem scan_tokens (pos : Position) (pieces : List Piece) :
    tokens pos pieces = (scan pos pieces).token ::
        tokens (scan pos pieces).position (scan pos pieces).rest ∨
      tokens pos pieces = [] ∧ (scan pos pieces).rest = [] ∧
        (scan pos pieces).token =
          .endOfSource (afterAll pos pieces).line (afterAll pos pieces).col := by
  induction pieces generalizing pos with
  | nil => exact .inr ⟨rfl, rfl, rfl⟩
  | cons piece rest ih =>
      rw [scan, tokens]
      simp only
      cases piece.token? pos with
      | some token => exact .inl rfl
      | none => exact ih _

/-- The errors of pieces are those up to the next token, and those behind it. -/
theorem scan_errors (pos : Position) (pieces : List Piece) :
    errors pos pieces = (scan pos pieces).errors ++
      errors (scan pos pieces).position (scan pos pieces).rest := by
  induction pieces generalizing pos with
  | nil => rfl
  | cons piece rest ih =>
      rw [scan, errors]
      simp only
      cases htoken : piece.token? pos with
      | none => rw [ih, List.append_assoc]
      | some token =>
          have hnone : piece.error? pos = none := by
            unfold token? tokenKind? at htoken
            unfold error?
            cases hkind : piece.kind <;> simp [hkind] at htoken ⊢
          rw [hnone]
          rfl

/-- Scanning to the next token does not change where all pieces end. -/
theorem scan_afterAll (pos : Position) (pieces : List Piece) :
    afterAll (scan pos pieces).position (scan pos pieces).rest = afterAll pos pieces := by
  induction pieces generalizing pos with
  | nil => rfl
  | cons piece rest ih =>
      rw [scan, afterAll]
      simp only
      cases piece.token? pos with
      | some token => rfl
      | none => exact ih _

end Piece

/-- The end mark stands behind all tokens. -/
theorem lex_kind_ne_eof (source : String) : ∀ token ∈ (lex source).tokens, token.kind ≠ .eof :=
  Piece.kind_tokens _ _

namespace TokenStream

/-- A stream of a source and a parser's state that were asked for the same tokens.  The parser may
have looked ahead in between, and its node numbers and errors are its own. -/
inductive Shows (source : String) : TokenStream → ParserState → Prop
  | start : Shows source (ofSource source) (.ofSource source)
  | next {stream : TokenStream} {s : ParserState} (h : Shows source stream s) :
      Shows source stream.next.2 s.skip
  | peekNth {stream : TokenStream} {s : ParserState} (n : Nat) (h : Shows source stream s) :
      Shows source (stream.peekNth n).2 s
  | own {stream : TokenStream} {s s' : ParserState} (h : Shows source stream s)
      (htokens : s'.tokens = s.tokens) (heof : s'.eof = s.eof) : Shows source stream s'

/-- What a stream and a state have in common. -/
structure Agrees (source : String) (stream : TokenStream) (s : ParserState) : Prop where
  /-- What was looked at and what comes then are the tokens, and end marks behind the end. -/
  tokens : ∃ k, stream.lookahead ++ Piece.tokens stream.position stream.pieces =
    s.tokens ++ List.replicate k s.eof ∧ (k ≠ 0 → stream.pieces = [])
  errors : stream.errors ++ Piece.errors stream.position stream.pieces = (lex source).errors
  eof : .endOfSource (Piece.afterAll stream.position stream.pieces).line
    (Piece.afterAll stream.position stream.pieces).col = s.eof

variable {source : String} {stream : TokenStream} {s : ParserState}

/-- A new stream agrees with a parser in front of all tokens. -/
theorem agrees_start (source : String) : Agrees source (ofSource source) (.ofSource source) where
  tokens := ⟨0, by simp [ofSource, ParserState.ofSource, ParserState.ofLexed, lex], by simp⟩
  errors := rfl
  eof := by
    rw [Piece.afterAll_eq, ofSource, Piece.flatMap_text_pieces]
    rfl

/-- One more token is looked at. -/
theorem Agrees.read (h : Agrees source stream s) :
    Agrees source { stream.read.2 with lookahead := stream.lookahead ++ [stream.read.1] } s where
  tokens := by
    obtain ⟨k, htokens, hk⟩ := h.tokens
    rcases Piece.scan_tokens stream.position stream.pieces with hscan | ⟨hnone, hrest, htoken⟩
    · refine ⟨k, ?_, fun hne => ?_⟩
      · rw [hscan] at htokens
        rw [← htokens]
        simp [TokenStream.read]
      · rw [hk hne] at hscan
        cases hscan
    · refine ⟨k + 1, ?_, fun _ => hrest⟩
      rw [hnone, List.append_nil] at htokens
      simp only [TokenStream.read, hrest, Piece.tokens, List.append_nil]
      rw [htokens, htoken, h.eof, List.append_assoc, List.replicate_succ']
  errors := by
    rw [← h.errors, Piece.scan_errors stream.position]
    simp [TokenStream.read]
  eof := by
    rw [← h.eof, ← Piece.scan_afterAll stream.position stream.pieces]
    rfl

/-- Reading ahead only fills the buffer, by as many tokens as it is asked for. -/
theorem Agrees.readAhead (count : Nat) (h : Agrees source stream s) :
    Agrees source (readAhead count stream) s ∧
      (TokenStream.readAhead count stream).lookahead.length = stream.lookahead.length + count := by
  induction count generalizing stream with
  | zero => exact ⟨h, rfl⟩
  | succ count ih =>
      obtain ⟨hagrees, hlength⟩ := ih h.read
      refine ⟨hagrees, hlength.trans ?_⟩
      rw [List.length_append, List.length_singleton]
      omega

/-- The first token that was looked at is taken. -/
theorem Agrees.pop {token : Token} {rest : List Token} (h : Agrees source stream s)
    (hfirst : stream.lookahead = token :: rest) :
    token = s.peek ∧ Agrees source { stream with lookahead := rest } s.skip := by
  obtain ⟨k, htokens, hk⟩ := h.tokens
  rw [hfirst] at htokens
  cases hs : s.tokens with
  | nil =>
      rw [hs, List.nil_append] at htokens
      cases k with
      | zero => cases htokens
      | succ k =>
          rw [List.replicate_succ, List.cons_append, List.cons.injEq] at htokens
          refine ⟨by rw [ParserState.peek, hs]; exact htokens.1, ⟨⟨k, ?_, ?_⟩, h.errors, h.eof⟩⟩
          · simpa [ParserState.skip, hs] using htokens.2
          · exact fun _ => hk (Nat.succ_ne_zero k)
  | cons first others =>
      rw [hs, List.cons_append, List.cons_append, List.cons.injEq] at htokens
      refine ⟨by rw [ParserState.peek, hs]; exact htokens.1, ⟨⟨k, ?_, hk⟩, h.errors, h.eof⟩⟩
      simpa [ParserState.skip, hs] using htokens.2

/-- The next token of the stream is that of the parser, and both move on. -/
theorem Agrees.next (h : Agrees source stream s) :
    stream.next.1 = s.peek ∧ Agrees source stream.next.2 s.skip := by
  unfold TokenStream.next
  cases hlookahead : stream.lookahead with
  | cons token rest => exact h.pop hlookahead
  | nil =>
      have hread := h.read
      rw [hlookahead] at hread
      have hpop := hread.pop rfl
      have hsame : { stream.read.2 with lookahead := [] } = stream.read.2 := by
        rw [← hlookahead]
        rfl
      rw [← hsame]
      exact hpop

/-- The token ahead in the stream is that ahead of the parser. -/
theorem Agrees.peekNth (n : Nat) (h : Agrees source stream s) :
    (stream.peekNth n).1 = s.peekNth n ∧ Agrees source (stream.peekNth n).2 s ∧
      n < (stream.peekNth n).2.lookahead.length := by
  obtain ⟨hagrees, hlength⟩ := h.readAhead (n + 1 - stream.lookahead.length)
  have hahead : (stream.peekNth n).2 =
      TokenStream.readAhead (n + 1 - stream.lookahead.length) stream := rfl
  rw [← hahead] at hagrees hlength
  have hlt : n < (stream.peekNth n).2.lookahead.length := by omega
  refine ⟨?_, hagrees, hlt⟩
  obtain ⟨k, htokens, -⟩ := hagrees.tokens
  have hget : (stream.peekNth n).1 = (s.tokens ++ List.replicate k s.eof).getD n default := by
    rw [← htokens, List.getD_append _ _ _ _ hlt]
    rfl
  have htotal : n < s.tokens.length + k := by
    have hsum := congrArg List.length htokens
    simp only [List.length_append, List.length_replicate] at hsum
    omega
  rw [hget, ParserState.peekNth]
  by_cases hn : n < s.tokens.length
  · rw [List.getD_append _ _ _ _ hn, List.getD_eq_getElem _ _ hn, List.getD_eq_getElem _ _ hn]
  · have hbehind : n - s.tokens.length < k := by omega
    rw [List.getD_append_right _ _ _ _ (by omega), List.getD_eq_default s.tokens _ (by omega),
      List.getD_eq_getElem _ _ (by simpa using hbehind), List.getElem_replicate]

/-- **A stream and a state that were asked for the same tokens agree.** -/
theorem Shows.agrees (h : Shows source stream s) : Agrees source stream s := by
  induction h with
  | start => exact agrees_start source
  | next _ ih => exact ih.next.2
  | peekNth n _ ih => exact (ih.peekNth n).2.1
  | own _ htokens heof ih => exact ⟨htokens ▸ heof ▸ ih.tokens, ih.errors, heof ▸ ih.eof⟩

/-- Behind all tokens, once the next one is looked at, every error has been met. -/
theorem Shows.takeErrors (h : Shows source stream s) (hend : s.tokens = []) :
    stream.peek.1 = s.eof ∧ stream.peek.2.takeErrors.1 = (lex source).errors := by
  obtain ⟨hpeek, hagrees, hlength⟩ := h.agrees.peekNth 0
  refine ⟨by rw [TokenStream.peek, hpeek, ParserState.peekNth, hend]; rfl, ?_⟩
  obtain ⟨k, htokens, hk⟩ := hagrees.tokens
  have hne : k ≠ 0 := by
    rintro rfl
    have hnil := congrArg List.length htokens
    rw [hend, List.length_append] at hnil
    simp only [List.replicate_zero, List.append_nil, List.length_nil] at hnil
    omega
  have herrors := hagrees.errors
  rw [hk hne, Piece.errors, List.append_nil] at herrors
  exact herrors

/-- There is a stream for every state on the way. -/
theorem shows_suffix {tokens : List Token} (h : tokens <:+ (lex source).tokens) :
    ∃ stream, Shows source stream ⟨tokens, (lex source).eof, 0, []⟩ := by
  obtain ⟨front, hfront⟩ := h
  have hskip : ∀ (front rest : List Token) (stream : TokenStream),
      Shows source stream ⟨front ++ rest, (lex source).eof, 0, []⟩ →
      ∃ stream, Shows source stream ⟨rest, (lex source).eof, 0, []⟩ := by
    intro front rest
    induction front with
    | nil => exact fun stream h => ⟨stream, h⟩
    | cons token front ih => exact fun stream h => ih _ h.next
  exact hskip front tokens (ofSource source) (hfront ▸ .start)

end TokenStream

end ClassLang
