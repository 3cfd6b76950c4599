import ClassLang.Proofs.Token.Stream
import Mathlib.Data.List.Induction

/-!
# Lookahead is transparent

A reader of a token stream may look ahead as far and as often as it likes, and take the errors when
it likes: the tokens it gets are those of the source, one after another, and what it saw ahead is
what it gets later.

Tokens and errors go at different speeds.  Errors are met when a token is read from the source,
which may be long before it is handed out, and text that is no token gives errors only.  So what is
known of a stream behind some calls (`TokenStream.Follows`) speaks of the tokens that were handed
out and of the errors that were taken by themselves.  Each call keeps it
(`TokenStream.Follows.call`), and `TokenStream.callAll_transparent` reads it off for every sequence
of calls.
-/

namespace ClassLang

/-- The token with a number, counted from zero; behind the last one the end mark. -/
def Lexed.tokenAt (lexed : Lexed) (k : Nat) : Token := lexed.tokens.getD k lexed.eof

/-- A call on a token stream. -/
inductive StreamCall
  | next
  | peek
  | peekNth (n : Nat)
  | takeErrors
  deriving DecidableEq, Repr

/-- How many tokens are handed out by some calls. -/
def StreamCall.nexts (calls : List StreamCall) : Nat := calls.count .next

/-- What a call on a token stream answers. -/
inductive StreamAnswer
  | token (token : Token)
  | errors (errors : List LexError)
  deriving DecidableEq, Repr

namespace StreamAnswer

/-- The errors that are taken with an answer. -/
def taken : StreamAnswer → List LexError
  | .token _ => []
  | .errors found => found

/-- Whether the answer is the end mark. -/
def isEof : StreamAnswer → Bool
  | .token found => found.kind == .eof
  | .errors _ => false

end StreamAnswer

namespace TokenStream

/-- The answer of a call, and the stream behind it. -/
def call (stream : TokenStream) : StreamCall → StreamAnswer × TokenStream
  | .next => (.token stream.next.1, stream.next.2)
  | .peek => (.token stream.peek.1, stream.peek.2)
  | .peekNth n => (.token (stream.peekNth n).1, (stream.peekNth n).2)
  | .takeErrors => (.errors stream.takeErrors.1, stream.takeErrors.2)

/-- The answers of some calls one after another, and the stream behind them. -/
def callAll (stream : TokenStream) : List StreamCall → List StreamAnswer × TokenStream
  | [] => ([], stream)
  | call :: rest =>
    let (answer, stream) := stream.call call
    let (answers, stream) := stream.callAll rest
    (answer :: answers, stream)

/-- The answers of some calls show the tokens and errors of a source, whatever lookahead there is
among the calls. -/
structure Transparent (lexed : Lexed) (calls : List StreamCall) (answers : List StreamAnswer) :
    Prop where
  answered : answers.length = calls.length
  /-- Tokens are handed out one after another. -/
  next : ∀ before after, calls = before ++ .next :: after →
    answers[before.length]? = some (.token (lexed.tokenAt (StreamCall.nexts before)))
  peek : ∀ before after, calls = before ++ .peek :: after →
    answers[before.length]? = some (.token (lexed.tokenAt (StreamCall.nexts before)))
  peekNth : ∀ before n after, calls = before ++ .peekNth n :: after →
    answers[before.length]? = some (.token (lexed.tokenAt (StreamCall.nexts before + n)))
  /-- What is seen `n` places ahead is handed out behind `n` further tokens, whatever else is called
  in between. -/
  foretold : ∀ before n between after,
    calls = before ++ .peekNth n :: (between ++ .next :: after) → StreamCall.nexts between = n →
      answers[before.length]? = answers[before.length + 1 + between.length]?
  /-- Errors are taken in order, and none twice. -/
  errors : answers.flatMap StreamAnswer.taken <+: lexed.errors
  /-- Errors that are taken behind the end mark complete those taken before. -/
  allErrors : ∀ before after, calls = before ++ .takeErrors :: after →
    (answers.take before.length).any StreamAnswer.isEof = true →
      (answers.take (before.length + 1)).flatMap StreamAnswer.taken = lexed.errors

/-! ## Runs of calls -/

variable {source : String} {stream : TokenStream} {s : ParserState}

/-- Calls in two parts are answered one part behind the other. -/
theorem callAll_append (stream : TokenStream) (calls more : List StreamCall) :
    stream.callAll (calls ++ more) =
      ((stream.callAll calls).1 ++ ((stream.callAll calls).2.callAll more).1,
        ((stream.callAll calls).2.callAll more).2) := by
  induction calls generalizing stream with
  | nil => rfl
  | cons call rest ih =>
      simp only [List.cons_append, callAll, ih]

/-- Every call has one answer. -/
theorem length_callAll (stream : TokenStream) (calls : List StreamCall) :
    (stream.callAll calls).1.length = calls.length := by
  induction calls generalizing stream with
  | nil => rfl
  | cons call rest ih => exact congrArg (· + 1) (ih _)

/-- The answer of a call among others is its answer behind those in front of it. -/
theorem callAll_getElem? (stream : TokenStream) (before after : List StreamCall)
    (call : StreamCall) :
    (stream.callAll (before ++ call :: after)).1[before.length]? =
      some ((stream.callAll before).2.call call).1 := by
  rw [callAll_append, ← length_callAll stream before, List.getElem?_append_right (Nat.le_refl _),
    Nat.sub_self]
  rfl

/-- The answers of the first calls do not depend on those behind them. -/
theorem callAll_take (stream : TokenStream) (before after : List StreamCall) :
    (stream.callAll (before ++ after)).1.take before.length = (stream.callAll before).1 := by
  rw [callAll_append, ← length_callAll stream before, List.take_left]

/-! ## Errors that were taken -/

/-- The stream as if some errors that were taken were still there. -/
def untaken (errors : List LexError) (stream : TokenStream) : TokenStream :=
  { stream with errors := errors ++ stream.errors }

/-- Reading a token does not look at the errors that wait. -/
theorem read_untaken (errors : List LexError) (stream : TokenStream) :
    (stream.untaken errors).read = (stream.read.1, stream.read.2.untaken errors) := by
  simp [read, untaken]

/-- The next token does not depend on the errors that wait. -/
theorem next_untaken (errors : List LexError) (stream : TokenStream) :
    (stream.untaken errors).next = (stream.next.1, stream.next.2.untaken errors) := by
  have hlookahead : (stream.untaken errors).lookahead = stream.lookahead := rfl
  unfold next
  rw [hlookahead]
  cases stream.lookahead with
  | nil => exact read_untaken errors stream
  | cons token rest => rfl

/-- Reading ahead does not look at the errors that wait. -/
theorem readAhead_untaken (errors : List LexError) (count : Nat) (stream : TokenStream) :
    readAhead count (stream.untaken errors) = (readAhead count stream).untaken errors := by
  induction count generalizing stream with
  | zero => rfl
  | succ count ih =>
      rw [readAhead, read_untaken]
      exact ih { stream.read.2 with lookahead := stream.read.2.lookahead ++ [stream.read.1] }

/-- A token ahead does not depend on the errors that wait. -/
theorem peekNth_untaken (errors : List LexError) (n : Nat) (stream : TokenStream) :
    (stream.untaken errors).peekNth n =
      ((stream.peekNth n).1, (stream.peekNth n).2.untaken errors) := by
  have hahead := readAhead_untaken errors (n + 1 - stream.lookahead.length) stream
  have hlookahead : (stream.untaken errors).lookahead = stream.lookahead := rfl
  simp only [peekNth, hlookahead, hahead]
  rfl

/-! ## What is known behind some calls -/

/-- A stream that has come to its end stays there. -/
theorem pieces_next (h : stream.pieces = []) : stream.next.2.pieces = [] := by
  unfold next
  split
  · exact h
  · simp [read, h, Piece.scan]

/-- Reading ahead keeps a stream at its end. -/
theorem pieces_readAhead (count : Nat) (h : stream.pieces = []) :
    (readAhead count stream).pieces = [] := by
  induction count generalizing stream with
  | zero => exact h
  | succ count ih => exact ih (by simp [h, Piece.scan])

/-- Once the end mark has been read from the source, nothing of the source is left. -/
theorem Agrees.pieces_eq_nil (h : Agrees source stream s)
    (hs : ∀ token ∈ s.tokens, token.kind ≠ .eof) {token : Token}
    (htoken : token ∈ stream.lookahead) (hkind : token.kind = .eof) : stream.pieces = [] := by
  obtain ⟨k, htokens, hk⟩ := h.tokens
  refine hk fun hzero => ?_
  rw [hzero, List.replicate_zero, List.append_nil] at htokens
  exact hs token (htokens ▸ List.mem_append_left _ htoken) hkind

/-- The state of a parser that has read a number of tokens. -/
def stateAt (source : String) (k : Nat) : ParserState :=
  ⟨(lex source).tokens.drop k, (lex source).eof, 0, []⟩

/-- Looking ahead gives the token that many places further. -/
theorem peekNth_stateAt (source : String) (k n : Nat) :
    (stateAt source k).peekNth n = (lex source).tokenAt (k + n) := by
  simp [stateAt, ParserState.peekNth, Lexed.tokenAt, List.getD_eq_getElem?_getD, List.getElem?_drop]

/-- Looking at the next token gives the one at the place. -/
theorem peek_stateAt (source : String) (k : Nat) :
    (stateAt source k).peek = (lex source).tokenAt k := by
  have hzero := peekNth_stateAt source k 0
  rwa [ParserState.peekNth, List.getD_eq_getElem?_getD, ← List.head?_eq_getElem?,
    ← List.headD_eq_head?_getD] at hzero

/-- Skipping moves on by one place. -/
theorem skip_stateAt (source : String) (k : Nat) :
    (stateAt source k).skip = stateAt source (k + 1) := by
  simp [stateAt, ParserState.skip]

/-- The end mark is none of the tokens. -/
theorem kind_stateAt (source : String) (k : Nat) :
    ∀ token ∈ (stateAt source k).tokens, token.kind ≠ .eof :=
  fun token htoken => lex_kind_ne_eof source token (List.mem_of_mem_drop htoken)

/-- What is known of a stream behind some calls and their answers. -/
structure Follows (source : String) (calls : List StreamCall) (answers : List StreamAnswer)
    (stream : TokenStream) : Prop where
  /-- With the errors that were taken it is where a reader of as many tokens is. -/
  agrees : Agrees source (stream.untaken (answers.flatMap StreamAnswer.taken))
    (stateAt source (StreamCall.nexts calls))
  /-- Once the end mark was seen, the source has been read. -/
  ended : answers.any StreamAnswer.isEof = true → stream.pieces = []

section

variable {calls : List StreamCall} {answers : List StreamAnswer}

/-- A new stream has answered no call. -/
theorem follows_start (source : String) : Follows source [] [] (ofSource source) :=
  ⟨agrees_start source, nofun⟩

/-- Errors that are taken come from the source, in order. -/
theorem Follows.taken (h : Follows source calls answers stream) :
    answers.flatMap StreamAnswer.taken ++ stream.errors ++
      Piece.errors stream.position stream.pieces = (lex source).errors :=
  h.agrees.errors

/-- The next token is the one behind those that were handed out. -/
theorem Follows.next_eq (h : Follows source calls answers stream) :
    stream.next.1 = (lex source).tokenAt (StreamCall.nexts calls) := by
  have hnext := h.agrees.next.1
  rwa [next_untaken, peek_stateAt] at hnext

/-- A token ahead is the one that many places behind those that were handed out. -/
theorem Follows.peekNth_eq (h : Follows source calls answers stream) (n : Nat) :
    (stream.peekNth n).1 = (lex source).tokenAt (StreamCall.nexts calls + n) := by
  have hpeek := (h.agrees.peekNth n).1
  rwa [peekNth_untaken, peekNth_stateAt] at hpeek

/-- Calls in two parts hand out the tokens of both. -/
theorem nexts_append (calls more : List StreamCall) :
    StreamCall.nexts (calls ++ more) = StreamCall.nexts calls + StreamCall.nexts more :=
  List.count_append

/-- A token is handed out. -/
theorem Follows.next (h : Follows source calls answers stream) :
    Follows source (calls ++ [.next]) (answers ++ [.token stream.next.1]) stream.next.2 where
  agrees := by
    have hnext := h.agrees.next.2
    rw [next_untaken, skip_stateAt] at hnext
    simpa [nexts_append, StreamCall.nexts, StreamAnswer.taken] using hnext
  ended := by
    intro hany
    rw [List.any_append, Bool.or_eq_true] at hany
    rcases hany with hbefore | hnow
    · exact pieces_next (h.ended hbefore)
    · have hkind : stream.next.1.kind = .eof := by simpa [StreamAnswer.isEof] using hnow
      cases hlookahead : stream.lookahead with
      | cons token rest =>
          have hfirst : stream.next = (token, { stream with lookahead := rest }) := by
            rw [TokenStream.next, hlookahead]
          have hmem : token ∈ stream.lookahead := hlookahead ▸ List.mem_cons_self
          rw [hfirst] at hkind ⊢
          exact h.agrees.pieces_eq_nil (kind_stateAt _ _) hmem hkind
      | nil =>
          have hread : stream.next = stream.read := by rw [TokenStream.next, hlookahead]
          rw [hread] at hkind ⊢
          have hmore := h.agrees.read
          rw [read_untaken] at hmore
          exact hmore.pieces_eq_nil (kind_stateAt _ _) (List.mem_append_right _ (.head _)) hkind

/-- A token is looked at. -/
theorem Follows.peekNth (h : Follows source calls answers stream) (n : Nat)
    {call : StreamCall} (hcall : StreamCall.nexts [call] = 0) :
    Follows source (calls ++ [call]) (answers ++ [.token (stream.peekNth n).1])
      (stream.peekNth n).2 where
  agrees := by
    have hpeek := (h.agrees.peekNth n).2.1
    rw [peekNth_untaken] at hpeek
    simpa [nexts_append, hcall, StreamAnswer.taken] using hpeek
  ended := by
    obtain ⟨hanswer, hagrees, hlength⟩ := h.agrees.peekNth n
    rw [peekNth_untaken] at hanswer hagrees hlength
    intro hany
    rw [List.any_append, Bool.or_eq_true] at hany
    rcases hany with hbefore | hnow
    · exact pieces_readAhead _ (h.ended hbefore)
    · have hkind : (stream.peekNth n).1.kind = .eof := by simpa [StreamAnswer.isEof] using hnow
      have hmem : (stream.peekNth n).1 ∈ (stream.peekNth n).2.lookahead := by
        have hget : (stream.peekNth n).1 = (stream.peekNth n).2.lookahead.getD n default := rfl
        have hlt : n < (stream.peekNth n).2.lookahead.length := hlength
        rw [hget, List.getD_eq_getElem _ _ hlt]
        exact List.getElem_mem hlt
      exact hagrees.pieces_eq_nil (kind_stateAt _ _) hmem hkind

/-- The errors that were met are taken. -/
theorem Follows.takeErrors (h : Follows source calls answers stream) :
    Follows source (calls ++ [.takeErrors]) (answers ++ [.errors stream.takeErrors.1])
      stream.takeErrors.2 where
  agrees := by
    have hsame : stream.takeErrors.2.untaken
        ((answers ++ [StreamAnswer.errors stream.takeErrors.1]).flatMap StreamAnswer.taken) =
          stream.untaken (answers.flatMap StreamAnswer.taken) := by
      simp [untaken, TokenStream.takeErrors, StreamAnswer.taken]
    rw [hsame]
    simpa [nexts_append, StreamCall.nexts] using h.agrees
  ended := by
    intro hany
    refine h.ended ?_
    simpa [StreamAnswer.isEof] using hany

/-- **Each call keeps what is known.** -/
theorem Follows.call (h : Follows source calls answers stream) (call : StreamCall) :
    Follows source (calls ++ [call]) (answers ++ [(stream.call call).1]) (stream.call call).2 := by
  cases call with
  | next => exact h.next
  | peek => exact h.peekNth 0 (by decide)
  | peekNth n => exact h.peekNth n (by simp [StreamCall.nexts])
  | takeErrors => exact h.takeErrors

end

/-- What is known behind any calls. -/
theorem follows_callAll (source : String) (calls : List StreamCall) :
    Follows source calls ((ofSource source).callAll calls).1
      ((ofSource source).callAll calls).2 := by
  induction calls using List.reverseRecOn with
  | nil => exact follows_start source
  | append_singleton calls call ih =>
      rw [callAll_append]
      exact ih.call call

/-- **Lookahead is transparent.**  In every sequence of calls on the stream of a source the tokens
that are handed out are those of the source, those seen ahead are those handed out later, and the
errors that are taken are those of the source, all of them once the end mark has been seen. -/
theorem callAll_transparent (source : String) (calls : List StreamCall) :
    Transparent (lex source) calls ((ofSource source).callAll calls).1 := by
  have hpeekNth : ∀ before n after, calls = before ++ .peekNth n :: after →
      ((ofSource source).callAll calls).1[before.length]? =
        some (.token ((lex source).tokenAt (StreamCall.nexts before + n))) := by
    rintro before n after rfl
    rw [callAll_getElem?, ← (follows_callAll source before).peekNth_eq n]
    rfl
  have hnext : ∀ before after, calls = before ++ .next :: after →
      ((ofSource source).callAll calls).1[before.length]? =
        some (.token ((lex source).tokenAt (StreamCall.nexts before))) := by
    rintro before after rfl
    rw [callAll_getElem?, ← (follows_callAll source before).next_eq]
    rfl
  refine ⟨length_callAll _ _, hnext, ?_, hpeekNth, ?_, ?_, ?_⟩
  · rintro before after rfl
    rw [callAll_getElem?, ← Nat.add_zero (StreamCall.nexts before),
      ← (follows_callAll source before).peekNth_eq 0]
    rfl
  · intro before n between after hcalls hbetween
    have hlater := hnext (before ++ .peekNth n :: between) after (by simp [hcalls])
    have hcount : StreamCall.nexts (before ++ .peekNth n :: between) =
        StreamCall.nexts before + n := by
      rw [nexts_append, ← hbetween]
      simp [StreamCall.nexts]
    have hlength : (before ++ .peekNth n :: between).length =
        before.length + 1 + between.length := by
      simp only [List.length_append, List.length_cons]
      omega
    rw [hcount, hlength] at hlater
    rw [hpeekNth before n _ hcalls, hlater]
  · rw [← (follows_callAll source calls).taken, List.append_assoc]
    exact List.prefix_append _ _
  · rintro before after rfl heof
    rw [callAll_take] at heof
    have hfollows := follows_callAll source before
    have htaken := hfollows.taken
    rw [hfollows.ended heof, Piece.errors, List.append_nil] at htaken
    have hsplit : before ++ .takeErrors :: after = (before ++ [.takeErrors]) ++ after := by simp
    have hlength : before.length + 1 = (before ++ [StreamCall.takeErrors]).length := by simp
    rw [hsplit, hlength, callAll_take, callAll_append, List.flatMap_append, ← htaken]
    simp [callAll, TokenStream.call, TokenStream.takeErrors, StreamAnswer.taken]

-- The error behind the first token is met by looking two places ahead, and taken once.
example : ((ofSource "a # b").callAll
    [.peekNth 1, .takeErrors, .next, .next, .next, .takeErrors]).1 =
    [.token ⟨.identifier, "b", ⟨1, 5, 1⟩⟩, .errors [.unexpectedChar '#' ⟨1, 3, 1⟩],
      .token ⟨.identifier, "a", ⟨1, 1, 1⟩⟩, .token ⟨.identifier, "b", ⟨1, 5, 1⟩⟩,
      .token ⟨.eof, "", ⟨1, 6, 0⟩⟩, .errors []] := by
  decide +kernel

end TokenStream

end ClassLang
