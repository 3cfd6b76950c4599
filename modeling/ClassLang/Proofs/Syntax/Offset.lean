import ClassLang.Syntax.Parser.Decl

/-!
# What a parser depends on

A parser depends on the tokens in front of it and on nothing else.  Started where `n` more node
numbers have been given out and other errors have been noted (`ParserState.behind`), it does what
it did: its value has the same shape and the same places, with node numbers `n` higher, and it
notes the same errors, behind the other ones.  `Parser.RunsAt` says this of a parser in front of a
given token, together with the kinds of tokens that are read; there is one lemma for each step on
tokens, each loop and each production.

Types, expressions, parameters and the statements without nested ones are read without looking
at a brace, whether they can be read or not (`TokenKind.IsInner`).
-/

namespace ClassLang

/-! ## Node numbers that start higher -/

mutual

/-- An expression with node numbers that are `n` higher. -/
def Expr.shifted (n : Nat) : Expr → Expr
  | .literal id value span => .literal (n + id) value span
  | .name id ident => .name (n + id) ident
  | .binary id op left right span => .binary (n + id) op (left.shifted n) (right.shifted n) span
  | .assign id target value span => .assign (n + id) (target.shifted n) (value.shifted n) span
  | .call id callee args span => .call (n + id) callee (Expr.shiftedAll n args) span
  | .methodCall id receiver callee args span =>
    .methodCall (n + id) (receiver.shifted n) callee (Expr.shiftedAll n args) span
  | .member id object part span => .member (n + id) (object.shifted n) part span

/-- Expressions with node numbers that are `n` higher. -/
def Expr.shiftedAll (n : Nat) : List Expr → List Expr
  | [] => []
  | e :: rest => e.shifted n :: Expr.shiftedAll n rest

end

/-- Moving a list of expressions moves each of them. -/
theorem Expr.shiftedAll_eq_map (n : Nat) (es : List Expr) :
    Expr.shiftedAll n es = es.map (Expr.shifted n) := by
  induction es with
  | nil => rfl
  | cons e rest ih => rw [shiftedAll, ih, List.map_cons]

/-- Moving the numbers leaves the place of an expression. -/
@[simp] theorem Expr.span_shifted (n : Nat) (e : Expr) : (e.shifted n).span = e.span := by
  cases e <;> rfl

@[simp] theorem Expr.isPlace_shifted (n : Nat) (e : Expr) : (e.shifted n).isPlace = e.isPlace := by
  cases e <;> rfl

mutual

/-- A statement with node numbers that are `n` higher. -/
def Stmt.shifted (n : Nat) : Stmt → Stmt
  | .block id stmts span => .block (n + id) (Stmt.shiftedAll n stmts) span
  | .varDecl id ty name value span =>
    .varDecl (n + id) ty name (value.map (Expr.shifted n)) span
  | .ifThen condition positive span => .ifThen (condition.shifted n) (positive.shifted n) span
  | .ifElse condition positive negative span =>
    .ifElse (condition.shifted n) (positive.shifted n) (negative.shifted n) span
  | .ret value span => .ret (value.map (Expr.shifted n)) span
  | .expr e span => .expr (e.shifted n) span

/-- Statements with node numbers that are `n` higher. -/
def Stmt.shiftedAll (n : Nat) : List Stmt → List Stmt
  | [] => []
  | s :: rest => s.shifted n :: Stmt.shiftedAll n rest

end

/-- Moving a list of statements moves each of them. -/
theorem Stmt.shiftedAll_eq_map (n : Nat) (stmts : List Stmt) :
    Stmt.shiftedAll n stmts = stmts.map (Stmt.shifted n) := by
  induction stmts with
  | nil => rfl
  | cons s rest ih => rw [shiftedAll, ih, List.map_cons]

/-- Moving the numbers leaves the place of a statement. -/
@[simp] theorem Stmt.span_shifted (n : Nat) (s : Stmt) : (s.shifted n).span = s.span := by
  cases s <;> rfl

/-- A block with node numbers that are `n` higher. -/
def Block.shifted (n : Nat) (block : Block) : Block :=
  ⟨n + block.id, block.stmts.map (Stmt.shifted n), block.span⟩

/-- A parameter with node numbers that are `n` higher. -/
def Param.shifted (n : Nat) (param : Param) : Param := { param with id := n + param.id }

/-- A field with node numbers that are `n` higher. -/
def FieldDecl.shifted (n : Nat) (field : FieldDecl) : FieldDecl := { field with id := n + field.id }

/-- A body with node numbers that are `n` higher. -/
def FunctionBody.shifted (n : Nat) : FunctionBody → FunctionBody
  | .block body => .block (body.shifted n)
  | .external variadic => .external variadic

/-- A function with node numbers that are `n` higher. -/
def FunctionDecl.shifted (n : Nat) (decl : FunctionDecl) : FunctionDecl :=
  ⟨n + decl.id, decl.returnType, decl.name, decl.params.map (Param.shifted n), decl.body.shifted n,
    decl.span⟩

/-- A member with node numbers that are `n` higher. -/
def ClassMember.shifted (n : Nat) : ClassMember → ClassMember
  | .field f => .field (f.shifted n)
  | .method f => .method (f.shifted n)

/-- A class with node numbers that are `n` higher. -/
def ClassDecl.shifted (n : Nat) (decl : ClassDecl) : ClassDecl :=
  ⟨n + decl.id, decl.name, decl.parent, decl.members.map (ClassMember.shifted n), decl.span⟩

/-- A struct with node numbers that are `n` higher. -/
def StructDecl.shifted (n : Nat) (decl : StructDecl) : StructDecl :=
  ⟨n + decl.id, decl.name, decl.fields.map (FieldDecl.shifted n), decl.span⟩

/-- A declaration with node numbers that are `n` higher. -/
def Item.shifted (n : Nat) : Item → Item
  | .classDecl decl => .classDecl (decl.shifted n)
  | .structDecl decl => .structDecl (decl.shifted n)
  | .function decl => .function (decl.shifted n)

/-! ## States that come later -/

/-- The end mark is behind all tokens. -/
structure ParserState.Ended (s : ParserState) : Prop where
  eof : s.eof.kind = .eof
  tokens : ∀ token ∈ s.tokens, token.kind ≠ .eof

/-- Behind some tokens the end mark is still behind all. -/
theorem ParserState.Ended.suffix {s s' : ParserState} (h : s.Ended) (heof : s'.eof = s.eof)
    (htokens : s'.tokens <:+ s.tokens) : s'.Ended :=
  ⟨heof ▸ h.eof, fun token hmem => h.tokens token (htokens.subset hmem)⟩

/-- The state where `n` more node numbers have been given out and `noted` has been noted before. -/
def ParserState.behind (n : Nat) (noted : List SyntaxError) (s : ParserState) : ParserState :=
  { s with nextId := n + s.nextId, errors := noted ++ s.errors }

namespace Parsed

variable {α : Type}

/-- The state that was reached. -/
def rest : Parsed α → ParserState
  | .ok _ rest | .fail _ rest => rest

/-- The same end behind other node numbers and errors. -/
def behind (n : Nat) (noted : List SyntaxError) (move : α → α) : Parsed α → Parsed α
  | .ok a rest => .ok (move a) (rest.behind n noted)
  | .fail error rest => .fail error (rest.behind n noted)

end Parsed

namespace Parser

/-- In front of a token `p` reads tokens of the kinds in `A`, at least one if it gives a value and
`now` holds, unless the end mark is among the kinds; and `q` does in a later state what `p` does in
an earlier one. -/
structure RunsAt {α : Type} (n : Nat) (noted : List SyntaxError) (A : TokenKind → Prop) (now : Prop)
    (token : Token) (move : α → α) (p q : Parser α) : Prop where
  reads : ∀ {s : ParserState}, s.Ended → s.peek = token →
    ∃ read, s.tokens = read ++ (p s).rest.tokens ∧ (∀ t ∈ read, A t.kind) ∧ (p s).rest.eof = s.eof
  advances : now → ¬ A .eof → ∀ {s s' : ParserState} {a : α}, s.Ended → s.peek = token →
    p s = .ok a s' → s'.tokens.length < s.tokens.length
  moves : ∀ s : ParserState, s.peek = token → q (s.behind n noted) = (p s).behind n noted move

/-- The same in front of every token. -/
def Runs {α : Type} (n : Nat) (noted : List SyntaxError) (A : TokenKind → Prop) (now : Prop)
    (move : α → α) (p q : Parser α) : Prop :=
  ∀ token, RunsAt n noted A now token move p q

variable {n : Nat} {noted : List SyntaxError} {A : TokenKind → Prop} {now : Prop} {token : Token}

section

variable {α β : Type} {move : α → α} {move' : β → β} {p q : Parser α}

/-- More kinds of tokens may be allowed, and less promised. -/
theorem RunsAt.mono {A' : TokenKind → Prop} {now' : Prop} (h : RunsAt n noted A now token move p q)
    (himp : ∀ kind, A kind → A' kind) (hnow : now' → now) :
    RunsAt n noted A' now' token move p q where
  moves := h.moves
  advances := fun hnow' heof => h.advances (hnow hnow') fun hA => heof (himp _ hA)
  reads := by
    intro s hended hs
    obtain ⟨read, htokens, hread, heof⟩ := h.reads hended hs
    exact ⟨read, htokens, fun t ht => himp _ (hread t ht), heof⟩

/-- The same in front of every token. -/
theorem Runs.mono {A' : TokenKind → Prop} (h : Runs n noted A now move p q)
    (himp : ∀ kind, A kind → A' kind) : Runs n noted A' now move p q :=
  fun token => (h token).mono himp id

/-- What reads a token at once reads it at some time. -/
theorem Runs.weaken (h : Runs n noted A now move p q) : Runs n noted A False move p q :=
  fun token => (h token).mono (fun _ => id) False.elim

/-- The tokens that are left are the last ones. -/
theorem Runs.suffix (h : Runs n noted A now move p q) {s : ParserState} (hended : s.Ended) :
    (p s).rest.tokens <:+ s.tokens := by
  obtain ⟨read, htokens, -⟩ := (h _).reads hended rfl
  exact ⟨read, htokens.symm⟩

/-- Behind what was read, the end mark still follows the last token. -/
theorem Runs.ended (h : Runs n noted A now move p q) {s : ParserState} (hended : s.Ended) :
    (p s).rest.Ended := by
  obtain ⟨read, htokens, -, heof⟩ := (h _).reads hended rfl
  exact hended.suffix heof ⟨read, htokens.symm⟩

/-- From each state in front of the token the parsers do what others do. -/
theorem RunsAt.of_states (h : ∀ s : ParserState, s.peek = token → ∃ p' q' : Parser α,
    RunsAt n noted A now token move p' q' ∧ p s = p' s ∧
      q (s.behind n noted) = q' (s.behind n noted)) : RunsAt n noted A now token move p q where
  reads := by
    intro s hended hs
    obtain ⟨p', q', hruns, hp, -⟩ := h s hs
    rw [hp]
    exact hruns.reads hended hs
  advances := by
    intro hnow hA s s' a hended hs hok
    obtain ⟨p', q', hruns, hp, -⟩ := h s hs
    exact hruns.advances hnow hA hended hs (hp ▸ hok)
  moves := by
    intro s hs
    obtain ⟨p', q', hruns, hp, hq⟩ := h s hs
    rw [hp, hq]
    exact hruns.moves s hs

/-- In front of the token the parsers are other ones. -/
theorem RunsAt.congr {p' q' : Parser α} (h : RunsAt n noted A now token move p' q')
    (hp : ∀ s : ParserState, s.peek = token → p s = p' s)
    (hq : ∀ s : ParserState, s.peek = token → q s = q' s) : RunsAt n noted A now token move p q :=
  .of_states fun s hs => ⟨p', q', h, hp s hs, hq _ hs⟩

/-- A parser that reads no token. -/
theorem runsAt_of_stays
    (hp : ∀ s : ParserState, (p s).rest.tokens = s.tokens ∧ (p s).rest.eof = s.eof)
    (hq : ∀ s : ParserState, s.peek = token → q (s.behind n noted) = (p s).behind n noted move)
    (hfails : now → ∀ s : ParserState, ∃ error, p s = .fail error s) :
    RunsAt n noted A now token move p q where
  reads := fun _ _ => ⟨[], (hp _).1.symm, by simp, (hp _).2⟩
  advances := by
    intro hnow _ s s' a _ _ hok
    obtain ⟨error, hfail⟩ := hfails hnow s
    cases hok.symm.trans hfail
  moves := hq

/-- A result without reading moves with its value. -/
theorem runsAt_pure {a b : α} (h : b = move a) :
    RunsAt n noted A False token move (pure a) (pure b) :=
  runsAt_of_stays (fun _ => ⟨rfl, rfl⟩) (fun s _ => by rw [h]; rfl) False.elim

/-- A failure notes what it noted. -/
theorem runsAt_fail (error : SyntaxError) :
    RunsAt n noted A now token move (fail error : Parser α) (fail error) :=
  runsAt_of_stays (fun _ => ⟨rfl, rfl⟩) (fun _ _ => rfl) fun _ _ => ⟨error, rfl⟩

/-- Nesting that is too deep is the same failure in both states. -/
theorem runs_exhausted : Runs n noted A now move (exhausted : Parser α) exhausted :=
  fun _ => runsAt_of_stays (fun _ => ⟨rfl, rfl⟩) (fun _ _ => rfl) fun _ _ => ⟨_, rfl⟩

/-- Behind a value, the rest goes on. -/
theorem bind_of_ok {f : α → Parser β} {s s' : ParserState} {a : α} (h : p s = .ok a s') :
    (p >>= f) s = f a s' := by
  change (match p s with
    | .ok a mid => f a mid
    | .fail error mid => .fail error mid) = _
  rw [h]

/-- A failure ends what would follow. -/
theorem bind_of_fail {f : α → Parser β} {s s' : ParserState} {error : SyntaxError}
    (h : p s = .fail error s') : (p >>= f) s = .fail error s' := by
  change (match p s with
    | .ok a mid => f a mid
    | .fail error mid => .fail error mid) = _
  rw [h]

/-- A value of two parsers in a row comes from one of the first. -/
theorem bind_ok {f : α → Parser β} {s s' : ParserState} {b : β}
    (h : (p >>= f) s = .ok b s') : ∃ a mid, p s = .ok a mid ∧ f a mid = .ok b s' := by
  change (match p s with
    | .ok a mid => f a mid
    | .fail error mid => .fail error mid) = _ at h
  cases hp : p s with
  | ok a mid =>
      rw [hp] at h
      exact ⟨a, mid, rfl, h⟩
  | fail error mid =>
      rw [hp] at h
      cases h

/-- Two parsers in a row, the first one in front of a given token. -/
theorem RunsAt.bind {f f' : α → Parser β} (hp : RunsAt n noted A now token move p q)
    (hf : ∀ a, Runs n noted A False move' (f a) (f' (move a))) :
    RunsAt n noted A now token move' (p >>= f) (q >>= f') where
  reads := by
    intro s hended hs
    obtain ⟨read, htokens, hread, heof⟩ := hp.reads hended hs
    have hended' : (p s).rest.Ended := hended.suffix heof ⟨read, htokens.symm⟩
    cases hend : p s with
    | ok a mid =>
        rw [hend] at htokens heof hended'
        obtain ⟨read', htokens', hread', heof'⟩ := (hf a _).reads hended' rfl
        rw [bind_of_ok hend]
        refine ⟨read ++ read', ?_, ?_, heof'.trans heof⟩
        · rw [htokens, List.append_assoc]
          exact congrArg (read ++ ·) htokens'
        · intro t ht
          exact (List.mem_append.1 ht).elim (hread t) (hread' t)
    | fail error mid =>
        rw [hend] at htokens heof
        rw [bind_of_fail hend]
        exact ⟨read, htokens, hread, heof⟩
  advances := by
    intro hnow hA s s' b hended hs hok
    obtain ⟨read, htokens, -, heof⟩ := hp.reads hended hs
    have hended' : (p s).rest.Ended := hended.suffix heof ⟨read, htokens.symm⟩
    cases hend : p s with
    | ok a mid =>
        rw [hend] at hended'
        have hfirst := hp.advances hnow hA hended hs hend
        have hlater := ((hf a).suffix hended').length_le
        have hrest : f a mid = .ok b s' := (bind_of_ok hend).symm.trans hok
        rw [Parsed.rest, hrest, Parsed.rest] at hlater
        omega
    | fail error mid => cases hok.symm.trans (bind_of_fail hend)
  moves := by
    intro s hs
    have hmoves := hp.moves s hs
    cases hend : p s with
    | ok a mid =>
        rw [hend] at hmoves
        rw [bind_of_ok hend, bind_of_ok hmoves]
        exact (hf a _).moves mid rfl
    | fail error mid =>
        rw [hend] at hmoves
        rw [bind_of_fail hend, bind_of_fail hmoves]
        rfl

/-- Two parsers in a row. -/
theorem Runs.bind {f f' : α → Parser β} (hp : Runs n noted A now move p q)
    (hf : ∀ a, Runs n noted A False move' (f a) (f' (move a))) :
    Runs n noted A now move' (p >>= f) (q >>= f') :=
  fun token => (hp token).bind hf

/-- Another form of the value, moved in the same way. -/
theorem Runs.map {g g' : α → β} (hp : Runs n noted A now move p q)
    (hg : ∀ a, g' (move a) = move' (g a)) : Runs n noted A now move' (g <$> p) (g' <$> q) :=
  hp.bind fun a _ => runsAt_pure (hg a)

/-- What holds for every depth holds for that of the source. -/
theorem runs_bounded {p q : Nat → Parser α}
    (h : ∀ fuel, Runs n noted A now move (p fuel) (q fuel)) :
    Runs n noted A now move (bounded p) (bounded q) := fun token =>
  ⟨fun {s} => (h (s.tokens.length + 1) token).reads,
    fun hnow hA {s} => (h (s.tokens.length + 1) token).advances hnow hA,
    fun s => (h (s.tokens.length + 1) token).moves s⟩

end

/-! ## Single tokens -/

section

variable {β : Type} {move : β → β} {kind : TokenKind}

/-- Looking at the next token tells a parser which one it stands in front of. -/
theorem runsAt_peek {f f' : Token → Parser β}
    (h : RunsAt n noted A now token move (f token) (f' token)) :
    RunsAt n noted A now token move (peek >>= f) (peek >>= f') :=
  h.congr (fun s hs => by rw [← hs]; rfl) fun s hs => by rw [← hs]; rfl

/-- Looking for a kind of token finds the same in both states. -/
theorem runs_check {f f' : Bool → Parser β}
    (h : ∀ found, Runs n noted A now move (f found) (f' found)) :
    Runs n noted A now move (check kind >>= f) (check kind >>= f') := by
  intro token
  have hfound := h (token.kind == kind) token
  exact hfound.congr (fun s hs => by rw [← hs]; rfl) fun s hs => by rw [← hs]; rfl

/-- The tokens are the one in front and those behind it. -/
theorem ParserState.tokens_eq_take (s : ParserState) :
    s.tokens = s.tokens.take 1 ++ s.skip.tokens := by
  rw [ParserState.skip, ← List.drop_one, List.take_append_drop]

/-- The one token in front is the one that is seen. -/
theorem ParserState.eq_peek_of_mem {s : ParserState} {t : Token} (h : t ∈ s.tokens.take 1) :
    t = s.peek := by
  unfold ParserState.peek
  cases htokens : s.tokens with
  | nil => simp [htokens] at h
  | cons first rest => simpa [htokens] using h

/-- The token is read and taken as it is. -/
theorem runsAt_advance (h : A token.kind) : RunsAt n noted A now token id advance advance where
  reads := by
    intro s _ hs
    refine ⟨s.tokens.take 1, ParserState.tokens_eq_take s, ?_, rfl⟩
    intro t ht
    rw [ParserState.eq_peek_of_mem ht, hs]
    exact h
  advances := by
    intro _ hA s s' a hended hs hok
    cases hok
    unfold ParserState.peek at hs
    cases htokens : s.tokens with
    | nil =>
        rw [htokens] at hs
        have hkind : token.kind = .eof := hs ▸ hended.eof
        exact absurd (hkind ▸ h) hA
    | cons first rest => simp [ParserState.skip, htokens]
  moves := fun _ _ => rfl

/-- A token that may be there is read, or what follows stands in front of the same one.
-/
theorem runsAt_eat {f f' : Bool → Parser β} (hA : A kind)
    (hthere : Runs n noted A False move (f true) (f' true))
    (hmissing : RunsAt n noted A now token move (f false) (f' false)) :
    RunsAt n noted A now token move (eat kind >>= f) (eat kind >>= f') := by
  by_cases htoken : token.kind = kind
  · have hadvance : RunsAt n noted A now token move (advance >>= fun _ => f true)
        (advance >>= fun _ => f' true) :=
      (runsAt_advance (htoken ▸ hA)).bind fun _ => hthere
    have hsame : ∀ (g : Bool → Parser β) (s : ParserState), s.peek = token →
        (eat kind >>= g) s = (advance >>= fun _ => g true) s := by
      intro g s hs
      have heat : eat kind s = .ok true s.skip := by
        rw [eat, hs, if_pos htoken]
      exact bind_of_ok heat
    exact hadvance.congr (hsame f) (hsame f')
  · have hsame : ∀ (g : Bool → Parser β) (s : ParserState), s.peek = token →
        (eat kind >>= g) s = g false s := by
      intro g s hs
      have heat : eat kind s = .ok false s := by
        rw [eat, hs, if_neg htoken]
      exact bind_of_ok heat
    exact hmissing.congr (hsame f) (hsame f')

/-- A token that may be there, before something that runs either way. -/
theorem runs_eat {f f' : Bool → Parser β} (hA : A kind)
    (h : ∀ found, Runs n noted A now move (f found) (f' found)) :
    Runs n noted A now move (eat kind >>= f) (eat kind >>= f') :=
  fun token => runsAt_eat hA (h true).weaken (h false token)

/-- A token of one kind is read, any other one is an error. -/
theorem runsAt_advance_or_fail {p : Parser β} (take : Token → β) (error : Token → SyntaxError)
    (hp : ∀ s : ParserState, p s = if s.peek.kind = kind then .ok (take s.peek) s.skip
      else .fail (error s.peek) s) (hA : A kind) :
    RunsAt n noted A now token id p p := by
  by_cases htoken : token.kind = kind
  · have hread : RunsAt n noted A now token id (advance >>= fun t => pure (take t))
        (advance >>= fun t => pure (take t)) :=
      (runsAt_advance (htoken ▸ hA)).bind fun t _ => runsAt_pure rfl
    have hsame : ∀ s : ParserState, s.peek = token →
        p s = (advance >>= fun t => pure (take t)) s := by
      intro s hs
      rw [hp, hs, if_pos htoken, ← hs]
      rfl
    exact hread.congr hsame hsame
  · have hfail : RunsAt n noted A now token id (fail (error token) : Parser β)
        (fail (error token)) :=
      runsAt_fail _
    have hsame : ∀ s : ParserState, s.peek = token → p s = fail (error token) s := by
      intro s hs
      rw [hp, hs, if_neg htoken]
      rfl
    exact hfail.congr hsame hsame

/-- A token that has to be there is the only one that is read. -/
theorem runs_expect (hA : A kind) : Runs n noted A now id (expect kind) (expect kind) := by
  intro token
  let error (t : Token) : SyntaxError :=
    if t.kind = .eof then .unexpectedEof t.span
    else .expectedToken t.span kind.description t.describe
  have hexpect : ∀ s : ParserState, expect kind s =
      if s.peek.kind = kind then .ok s.peek s.skip else .fail (error s.peek) s := by
    intro s
    unfold expect
    simp only [error]
    split
    · rfl
    · split <;> rfl
  exact runsAt_advance_or_fail id error hexpect hA

/-- A name is one token. -/
theorem runs_ident (hA : A .identifier) : Runs n noted A now id ident ident := by
  intro token
  let error (t : Token) : SyntaxError :=
    if t.kind = .eof then .unexpectedEof t.span else .expectedIdentifier t.span t.describe
  have hident : ∀ s : ParserState, ident s =
      if s.peek.kind = .identifier then .ok ⟨s.peek.lexeme, s.peek.span⟩ s.skip
      else .fail (error s.peek) s := by
    intro s
    unfold ident
    simp only [error]
    split
    · next h => rw [if_pos h]
    · next h => simp [h]
    · next h h' => rw [if_neg h, if_neg h']
  exact runsAt_advance_or_fail (fun t => ⟨t.lexeme, t.span⟩) error hident hA

/-- A fresh number is moved as all others are. -/
theorem runs_freshId : Runs n noted A False (n + ·) freshId freshId :=
  fun _ => runsAt_of_stays (fun _ => ⟨rfl, rfl⟩) (fun _ _ => rfl) False.elim

end

/-! ## Lists -/

section

variable {α : Type} {move : α → α} {p q : Parser α}

/-- Elements between commas run alike one after the other. -/
theorem runs_separated (hA : A (.mark .comma)) (h : Runs n noted A now move p q) :
    Runs n noted A now (List.map move) (separated p) (separated q) := by
  refine runs_bounded fun fuel => ?_
  induction fuel with
  | zero => exact runs_exhausted
  | succ fuel ih =>
      refine h.bind fun first => runs_eat hA fun more => ?_
      cases more with
      | true => exact ih.weaken.bind fun rest _ => runsAt_pure rfl
      | false => exact fun _ => runsAt_pure rfl

/-- Elements up to a mark run alike one after the other. -/
theorem runs_many (stop : TokenKind → Bool) (h : Runs n noted A False move p q) :
    Runs n noted A False (List.map move) (many stop p) (many stop q) := by
  refine runs_bounded fun fuel => ?_
  induction fuel with
  | zero => exact runs_exhausted
  | succ fuel ih =>
      intro token
      refine runsAt_peek ?_
      split
      · exact runsAt_pure rfl
      · exact (h token).bind fun first => ih.bind fun rest _ => runsAt_pure rfl

/-- The parser leaves what `after` gives of the tokens. -/
def Skips (skip : Parser Unit) (after : List Token → List Token) : Prop :=
  ∀ s : ParserState, skip s = .ok () { s with tokens := after s.tokens }

variable {skip : Parser Unit} {after : List Token → List Token}

/-- An attempt that can be read gives its value. -/
theorem attempt_of_ok {s s' : ParserState} {a : α} (h : p s = .ok a s') :
    attempt p skip s = .ok (some a) s' := by
  unfold attempt
  rw [h]

/-- An attempt that cannot be read notes the error and skips. -/
theorem attempt_of_fail (hskip : Skips skip after) {s s' : ParserState} {error : SyntaxError}
    (h : p s = .fail error s') : attempt p skip s =
      .ok none { s' with tokens := after s'.tokens, errors := s'.errors ++ [error] } := by
  have hreport : (report error >>= fun _ => skip) s' =
      skip { s' with errors := s'.errors ++ [error] } := rfl
  unfold attempt
  rw [h]
  simp only
  rw [hreport, hskip]

/-- An attempt runs alike, and what it skips are tokens that stood there. -/
theorem runs_attempt (h : Runs n noted A False move p q) (hskip : Skips skip after)
    (hafter : ∀ tokens, after tokens <:+ tokens) (hA : ∀ kind, kind ≠ .eof → A kind) :
    Runs n noted A False (Option.map move) (attempt p skip) (attempt q skip) := by
  intro token
  refine ⟨?_, False.elim, ?_⟩
  · intro s hended hs
    have hany : ∀ read rest, s.tokens = read ++ rest → ∀ t ∈ read, A t.kind :=
      fun read rest htokens t ht => hA _ (hended.tokens t (htokens ▸ List.mem_append_left _ ht))
    obtain ⟨read, htokens, -, heof⟩ := (h token).reads hended hs
    cases hend : p s with
    | ok a mid =>
        rw [hend] at htokens heof
        rw [attempt_of_ok hend]
        exact ⟨read, htokens, hany _ _ htokens, heof⟩
    | fail error mid =>
        rw [hend] at htokens heof
        obtain ⟨skipped, hskipped⟩ := hafter mid.tokens
        rw [attempt_of_fail hskip hend]
        have hall : s.tokens = read ++ skipped ++ after mid.tokens := by
          rw [htokens, List.append_assoc, hskipped]
          rfl
        exact ⟨read ++ skipped, hall, hany _ _ hall, heof⟩
  · intro s hs
    have hmoves := (h token).moves s hs
    cases hend : p s with
    | ok a mid =>
        rw [hend] at hmoves
        rw [attempt_of_ok hend, attempt_of_ok hmoves]
        rfl
    | fail error mid =>
        rw [hend] at hmoves
        rw [attempt_of_fail hskip hend, attempt_of_fail hskip hmoves]
        simp only [Parsed.behind, Option.map_none, ParserState.behind, List.append_assoc]

/-- A list that goes on after errors runs alike. -/
theorem runs_recovering (stop : TokenKind → Bool) (h : Runs n noted A False move p q)
    (hskip : Skips skip after) (hafter : ∀ tokens, after tokens <:+ tokens)
    (hA : ∀ kind, kind ≠ .eof → A kind) :
    Runs n noted A False (List.map move) (recovering stop p skip) (recovering stop q skip) := by
  refine runs_bounded fun fuel => ?_
  induction fuel with
  | zero => exact runs_exhausted
  | succ fuel ih =>
      intro token
      refine runsAt_peek ?_
      split
      · exact runsAt_pure rfl
      · refine (runs_attempt h hskip hafter hA token).bind fun first =>
          ih.bind fun rest _ => runsAt_pure ?_
        cases first <;> simp

end

/-! ## Skipping -/

/-- Skipping to the next statement leaves the end of the tokens. -/
theorem afterStatement_suffix (depth : Nat) (tokens : List Token) :
    afterStatement depth tokens <:+ tokens := by
  fun_induction afterStatement depth tokens with
  | case1 => exact List.suffix_rfl
  | case3 => exact List.suffix_rfl
  | case4 => exact List.suffix_cons ..
  | case6 => exact List.suffix_cons ..
  | _ => exact List.IsSuffix.trans ‹_› (List.suffix_cons ..)

/-- Skipping to the next item leaves the end of the tokens. -/
theorem afterItem_suffix (depth : Nat) (tokens : List Token) :
    afterItem depth tokens <:+ tokens := by
  fun_induction afterItem depth tokens with
  | case1 => exact List.suffix_rfl
  | _ => first
    | exact List.suffix_rfl
    | exact List.suffix_cons ..
    | exact List.IsSuffix.trans ‹_› (List.suffix_cons ..)

/-- Skipping to the next statement depends on the tokens only. -/
theorem skips_skipStatement : Skips skipStatement (afterStatement 0) := fun _ => rfl

/-- Skipping to the next item depends on the tokens only. -/
theorem skips_skipItem : Skips skipItem (afterItem 0) := fun _ => rfl

/-! ## Types and expressions -/

end Parser

/-- No brace and no end mark. -/
def TokenKind.IsInner (kind : TokenKind) : Prop :=
  kind ≠ .mark .leftBrace ∧ kind ≠ .mark .rightBrace ∧ kind ≠ .eof

namespace Parser

variable {n : Nat} {noted : List SyntaxError} {now : Prop}

/-- The stars of a type are no braces. -/
theorem runs_starsUpTo (fuel : Nat) (ty : TypeExpr) :
    Runs n noted TokenKind.IsInner False id (starsUpTo fuel ty) (starsUpTo fuel ty) := by
  induction fuel generalizing ty with
  | zero => exact runs_exhausted
  | succ fuel ih =>
      intro token
      exact runsAt_peek (runsAt_eat ⟨nofun, nofun, nofun⟩ (ih _) (runsAt_pure rfl))

/-- A type is read without looking at a brace. -/
theorem runs_typeExpr : Runs n noted TokenKind.IsInner now id typeExpr typeExpr := by
  intro token
  refine runsAt_peek ?_
  have hstars : ∀ ty : TypeExpr, token.kind.IsInner →
      RunsAt n noted TokenKind.IsInner now token id (advance *> bounded (starsUpTo · ty))
        (advance *> bounded (starsUpTo · ty)) := fun ty hinner =>
    (runsAt_advance hinner).bind fun _ => runs_bounded fun fuel => runs_starsUpTo fuel ty
  split
  · next p hkind =>
      rw [hkind] at hstars
      exact hstars _ ⟨nofun, nofun, nofun⟩
  · next hkind =>
      rw [hkind] at hstars
      exact hstars _ ⟨nofun, nofun, nofun⟩
  · exact runsAt_fail _
  · exact runsAt_fail _

/-- A parser for expressions. -/
abbrev RunsExpr (n : Nat) (noted : List SyntaxError) (now : Prop) (p q : Parser Expr) : Prop :=
  Runs n noted TokenKind.IsInner now (Expr.shifted n) p q

/-- A literal is its one token. -/
theorem runsAt_literal {token : Token} (value : Literal) (h : token.kind.IsInner) :
    RunsAt n noted TokenKind.IsInner now token (Expr.shifted n) (literal value) (literal value) :=
  (runsAt_advance h).bind fun _ => runs_freshId.bind fun _ _ => runsAt_pure rfl

/-- Arguments are read without looking at a brace. -/
theorem runs_arguments {p q : Parser Expr} (h : RunsExpr n noted False p q) :
    Runs n noted TokenKind.IsInner now (Prod.map (List.map (Expr.shifted n)) id) (arguments p)
      (arguments q) := by
  refine (runs_expect ⟨nofun, nofun, nofun⟩).bind fun _ => runs_check fun empty => ?_
  have hclose : ∀ args : List Expr, Runs n noted TokenKind.IsInner False
      (Prod.map (List.map (Expr.shifted n)) id)
      (do let close ← expect (.mark .rightParen); return (args, close.span))
      (do let close ← expect (.mark .rightParen)
          return (args.map (Expr.shifted n), close.span)) := fun args =>
    (runs_expect ⟨nofun, nofun, nofun⟩).bind fun _ _ => runsAt_pure rfl
  cases empty with
  | true => exact hclose []
  | false => exact (runs_separated ⟨nofun, nofun, nofun⟩ h).bind hclose

/-- An operand by itself runs alike if expressions inside it do. -/
theorem runs_primary {p q : Parser Expr} (h : RunsExpr n noted False p q) :
    RunsExpr n noted now (primary p) (primary q) := by
  intro token
  refine runsAt_peek ?_
  split
  · next hkind =>
      simp only
      split
      · exact runsAt_literal _ (by rw [hkind]; exact ⟨nofun, nofun, nofun⟩)
      · exact runsAt_fail _
  · next value hkind =>
      exact runsAt_literal _ (by rw [hkind]; exact ⟨nofun, nofun, nofun⟩)
  · next hkind =>
      exact runsAt_literal _ (by rw [hkind]; exact ⟨nofun, nofun, nofun⟩)
  · refine (runs_ident ⟨nofun, nofun, nofun⟩ token).bind fun name => runs_check fun isCall => ?_
    cases isCall with
    | true =>
        refine (runs_arguments h).bind fun result => runs_freshId.bind fun id _ => runsAt_pure ?_
        simp [Expr.shifted, Expr.shiftedAll_eq_map]
    | false => exact runs_freshId.bind fun id _ => runsAt_pure rfl
  · next hkind =>
      refine (runsAt_advance (by rw [hkind]; exact ⟨nofun, nofun, nofun⟩)).bind fun _ => ?_
      exact h.bind fun inner => (runs_expect ⟨nofun, nofun, nofun⟩).bind fun _ _ => runsAt_pure rfl
  · exact runsAt_fail _
  · exact runsAt_fail _

/-- Calls and members on an operand run alike. -/
theorem runs_suffixesUpTo {p q : Parser Expr} (h : RunsExpr n noted False p q) (fuel : Nat)
    (object : Expr) : RunsExpr n noted False (suffixesUpTo p fuel object)
      (suffixesUpTo q fuel (object.shifted n)) := by
  induction fuel generalizing object with
  | zero => exact runs_exhausted
  | succ fuel ih =>
      refine runs_eat ⟨nofun, nofun, nofun⟩ fun dot => ?_
      cases dot with
      | false => exact fun _ => runsAt_pure rfl
      | true =>
          refine (runs_ident ⟨nofun, nofun, nofun⟩).bind fun name => runs_check fun isCall => ?_
          cases isCall with
          | true =>
              refine (runs_arguments h).bind fun result => runs_freshId.bind fun id => ?_
              have hcall := ih (.methodCall id object name result.1 (object.span.merge result.2))
              rw [Expr.shifted, Expr.shiftedAll_eq_map] at hcall
              simpa using hcall
          | false =>
              refine runs_freshId.bind fun id => ?_
              have hmember := ih (.member id object name (object.span.merge name.span))
              rw [Expr.shifted] at hmember
              simpa using hmember

/-- An operator is no brace. -/
theorem TokenKind.IsInner.of_operator {kind : TokenKind} {op : BinaryOp}
    (h : kind.operator? = some op) : kind.IsInner := by
  refine ⟨?_, ?_, ?_⟩
  all_goals
    intro hkind
    rw [hkind] at h
    cases h

/-- Operators and their right operands run alike. -/
theorem runs_operatorsUpTo {p q : Nat → Parser Expr}
    (h : ∀ power, RunsExpr n noted False (p power) (q power)) (power fuel : Nat) (left : Expr) :
    RunsExpr n noted False (operatorsUpTo p power fuel left)
      (operatorsUpTo q power fuel (left.shifted n)) := by
  induction fuel generalizing left with
  | zero => exact runs_exhausted
  | succ fuel ih =>
      intro token
      refine runsAt_peek ?_
      split
      · next hequal =>
          split
          · exact runsAt_pure rfl
          · rw [Expr.isPlace_shifted, Expr.span_shifted]
            split
            · have hadvance : RunsAt n noted TokenKind.IsInner False token id advance advance :=
                runsAt_advance (by rw [hequal]; exact ⟨nofun, nofun, nofun⟩)
              refine hadvance.bind fun _ => (h _).bind fun value => runs_freshId.bind fun id => ?_
              have hassign := ih (.assign id left value (left.span.merge value.span))
              rw [Expr.shifted] at hassign
              simpa using hassign
            · exact runsAt_fail _
      · split
        · exact runsAt_pure rfl
        · next op hop =>
            split
            · exact runsAt_pure rfl
            · refine (runsAt_advance (TokenKind.IsInner.of_operator hop)).bind fun _ =>
                (h _).bind fun right => ?_
              refine runs_freshId.bind fun id => ?_
              have hbinary := ih (.binary id op left right (left.span.merge right.span))
              rw [Expr.shifted] at hbinary
              simpa using hbinary

/-- Expressions of every depth run alike. -/
theorem runs_exprUpTo (fuel power : Nat) :
    RunsExpr n noted now (exprUpTo fuel power) (exprUpTo fuel power) := by
  induction fuel generalizing power with
  | zero => exact runs_exhausted
  | succ fuel ih =>
      refine (runs_primary (ih 0).weaken).bind fun head => ?_
      refine (runs_bounded fun rounds => runs_suffixesUpTo (ih 0).weaken rounds head).bind ?_
      intro operand
      exact runs_bounded fun rounds =>
        runs_operatorsUpTo (fun power => (ih power).weaken) power rounds operand

/-- **Expressions are read without looking at a brace.** -/
theorem runs_expr : RunsExpr n noted now expr expr :=
  runs_bounded fun fuel => runs_exprUpTo fuel 0

/-! ## Statements -/

/-- A value that is there. -/
theorem runs_value :
    Runs n noted TokenKind.IsInner now (Option.map (Expr.shifted n)) (some <$> expr)
      (some <$> expr) :=
  runs_expr.map fun _ => rfl

/-- A declaration of a variable is read without looking at a brace. -/
theorem runs_varDecl :
    Runs n noted TokenKind.IsInner now (Stmt.shifted n) varDecl varDecl := by
  refine runs_typeExpr.bind fun ty => (runs_ident ⟨nofun, nofun, nofun⟩).bind fun name => ?_
  have hrest : ∀ value : Option Expr, Runs n noted TokenKind.IsInner False (Stmt.shifted n)
      (do let stop ← expect (.mark .semicolon)
          return .varDecl (← freshId) ty name value (ty.span.merge stop.span))
      (do let stop ← expect (.mark .semicolon)
          return .varDecl (← freshId) ty name (value.map (Expr.shifted n))
            (ty.span.merge stop.span)) := fun value =>
    (runs_expect ⟨nofun, nofun, nofun⟩).bind fun stop => runs_freshId.bind fun node _ =>
      runsAt_pure rfl
  refine runs_eat ⟨nofun, nofun, nofun⟩ fun present => ?_
  cases present with
  | true => exact runs_value.bind hrest
  | false => exact hrest none

/-- An expression as a statement is read without looking at a brace. -/
theorem runs_exprStmt : Runs n noted TokenKind.IsInner now (Stmt.shifted n) exprStmt exprStmt := by
  refine runs_expr.bind fun e => (runs_expect ⟨nofun, nofun, nofun⟩).bind fun stop _ =>
    runsAt_pure ?_
  simp [Stmt.shifted]

/-- A return is read without looking at a brace. -/
theorem runs_returnStmt :
    Runs n noted TokenKind.IsInner now (Stmt.shifted n) returnStmt returnStmt := by
  refine (runs_expect ⟨nofun, nofun, nofun⟩).bind fun start => runs_check fun empty => ?_
  have hrest : ∀ value : Option Expr, Runs n noted TokenKind.IsInner False (Stmt.shifted n)
      (do let stop ← expect (.mark .semicolon); return .ret value (start.span.merge stop.span))
      (do let stop ← expect (.mark .semicolon)
          return .ret (value.map (Expr.shifted n)) (start.span.merge stop.span)) := fun value =>
    (runs_expect ⟨nofun, nofun, nofun⟩).bind fun stop _ => runsAt_pure rfl
  cases empty with
  | true => exact hrest none
  | false => exact runs_value.bind hrest

/-- Any kind of token but the end mark. -/
def AnyKind (kind : TokenKind) : Prop := kind ≠ .eof

/-- What looks at no brace looks at no end mark. -/
theorem Runs.any {α : Type} {move : α → α} {p q : Parser α}
    (h : Runs n noted TokenKind.IsInner now move p q) : Runs n noted AnyKind now move p q :=
  h.mono fun _ hinner => hinner.2.2

/-- A parser for statements. -/
abbrev RunsStmt (n : Nat) (noted : List SyntaxError) (now : Prop) (p q : Parser Stmt) : Prop :=
  Runs n noted AnyKind now (Stmt.shifted n) p q

/-- A block runs alike if the statements in it do. -/
theorem runs_blockWith {p q : Parser Stmt} (h : RunsStmt n noted False p q) :
    Runs n noted AnyKind now (Block.shifted n) (blockWith p) (blockWith q) := by
  refine (runs_expect nofun).bind fun start => runs_freshId.bind fun id => ?_
  refine (runs_recovering _ h skips_skipStatement (afterStatement_suffix 0)
    fun _ hkind => hkind).bind fun stmts => ?_
  exact (runs_expect nofun).bind fun stop _ => runsAt_pure rfl

/-- A conditional statement runs alike if its sides do. -/
theorem runs_ifWith {p q : Parser Stmt} (h : RunsStmt n noted False p q) :
    RunsStmt n noted now (ifWith p) (ifWith q) := by
  refine (runs_expect nofun).bind fun start => (runs_expect nofun).bind fun _ => ?_
  refine runs_expr.any.bind fun condition => (runs_expect nofun).bind fun _ => ?_
  refine h.bind fun positive => runs_eat nofun fun more => ?_
  cases more with
  | true =>
      refine h.bind fun negative _ => runsAt_pure ?_
      simp [Stmt.shifted]
  | false =>
      refine fun _ => runsAt_pure ?_
      simp [Stmt.shifted]

/-- A statement runs alike if the statements in it do. -/
theorem runs_stmtWith {p q : Parser Stmt} (h : RunsStmt n noted False p q) :
    RunsStmt n noted now (stmtWith p) (stmtWith q) := by
  have hblock : RunsStmt n noted now (Block.toStmt <$> blockWith p)
      (Block.toStmt <$> blockWith q) :=
    (runs_blockWith h).map fun b => by
      simp [Block.toStmt, Block.shifted, Stmt.shifted, Stmt.shiftedAll_eq_map]
  intro token
  refine .of_states fun s hs => ?_
  have hs' : (s.behind n noted).peek = token := hs
  have hstarts : (s.behind n noted).startsVarDecl = s.startsVarDecl := rfl
  simp only [stmtWith, hs, hs', hstarts]
  split
  · exact ⟨_, _, runs_ifWith h token, rfl, rfl⟩
  · exact ⟨_, _, runs_returnStmt.any token, rfl, rfl⟩
  · exact ⟨_, _, hblock token, rfl, rfl⟩
  · split
    · exact ⟨_, _, runs_varDecl.any token, rfl, rfl⟩
    · exact ⟨_, _, runs_exprStmt.any token, rfl, rfl⟩

/-- Statements of every depth run alike. -/
theorem runs_stmtUpTo (fuel : Nat) : RunsStmt n noted now (stmtUpTo fuel) (stmtUpTo fuel) := by
  induction fuel with
  | zero => exact runs_exhausted
  | succ fuel ih => exact runs_stmtWith ih.weaken

/-- **Statements run alike**, wherever the numbers start. -/
theorem runs_stmt : RunsStmt n noted now stmt stmt := runs_bounded runs_stmtUpTo

/-- Blocks run alike. -/
theorem runs_block : Runs n noted AnyKind now (Block.shifted n) block block :=
    runs_blockWith runs_stmt

/-! ## Declarations -/

/-- A parser that starts with a token of a kind. -/
def RunsBehind {α : Type} (n : Nat) (noted : List SyntaxError) (kind : TokenKind) (move : α → α)
    (p : Parser α) : Prop :=
  ∃ f : Token → Parser α, p = expect kind >>= f ∧
    ∀ start, Runs n noted AnyKind False move (f start) (f start)

section

variable {α : Type} {kind : TokenKind} {move : α → α} {p : Parser α}

/-- What starts with its token runs alike in front of any other one, too. -/
theorem RunsBehind.runs (h : RunsBehind n noted kind move p) (hkind : kind ≠ .eof) :
    Runs n noted AnyKind now move p p := by
  obtain ⟨f, rfl, hf⟩ := h
  have hexpect : Runs n noted AnyKind now id (expect kind) (expect kind) := runs_expect hkind
  exact hexpect.bind hf

/-- The token is read whether the rest can be read or not. -/
theorem RunsBehind.advances (h : RunsBehind n noted kind move p) (hkind : kind ≠ .eof)
    {s : ParserState} (hended : s.Ended) (hs : s.peek.kind = kind) :
    (p s).rest.tokens.length < s.tokens.length := by
  obtain ⟨f, rfl, hf⟩ := h
  have hok : expect kind s = .ok s.peek s.skip := by
    unfold expect
    simp only
    rw [if_pos hs]
  have hexpect : Runs n noted AnyKind True id (expect kind) (expect kind) := runs_expect hkind
  have hskip := (hexpect s.peek).advances trivial (fun h => h rfl) hended rfl hok
  have hended' : s.skip.Ended := hended.suffix rfl (List.tail_suffix _)
  rw [bind_of_ok hok]
  exact Nat.lt_of_le_of_lt ((hf s.peek).suffix hended').length_le hskip

end

/-- A parameter is read without looking at a brace. -/
theorem runs_param : Runs n noted TokenKind.IsInner now (Param.shifted n) param param := by
  refine runs_typeExpr.bind fun ty => (runs_ident ⟨nofun, nofun, nofun⟩).bind fun name => ?_
  exact runs_freshId.bind fun id _ => runsAt_pure rfl

/-- Parameters are read without looking at a brace, however many there are. -/
theorem runs_paramsUpTo (isExternal : Bool) (fuel : Nat) :
    Runs n noted TokenKind.IsInner False (Prod.map (List.map (Param.shifted n)) id)
      (paramsUpTo isExternal fuel) (paramsUpTo isExternal fuel) := by
  induction fuel with
  | zero => exact runs_exhausted
  | succ fuel ih =>
      intro token
      refine runsAt_peek (runsAt_eat ⟨nofun, nofun, nofun⟩ (?_) ?_)
      · cases isExternal with
        | true =>
            refine runs_check fun closed => ?_
            cases closed with
            | true => exact fun _ => runsAt_pure rfl
            | false => exact fun _ => runsAt_peek (runsAt_fail _)
        | false => exact fun _ => runsAt_fail _
      · refine (runs_param token).bind fun first => runs_eat ⟨nofun, nofun, nofun⟩ fun more => ?_
        cases more with
        | true => exact ih.bind fun result _ => runsAt_pure rfl
        | false => exact fun _ => runsAt_pure rfl

/-- Parameters are read without looking at a brace. -/
theorem runs_params (isExternal : Bool) :
    Runs n noted TokenKind.IsInner now (Prod.map (List.map (Param.shifted n)) id)
      (params isExternal) (params isExternal) := by
  refine (runs_expect ⟨nofun, nofun, nofun⟩).bind fun _ => runs_check fun empty => ?_
  have hclose : ∀ result : List Param × Bool, Runs n noted TokenKind.IsInner False
      (Prod.map (List.map (Param.shifted n)) id)
      (do let _ ← expect (.mark .rightParen); return result)
      (do let _ ← expect (.mark .rightParen)
          return result.map (List.map (Param.shifted n)) id) := fun result =>
    (runs_expect ⟨nofun, nofun, nofun⟩).bind fun _ _ => runsAt_pure rfl
  cases empty with
  | true => exact hclose ([], false)
  | false => exact (runs_bounded (runs_paramsUpTo isExternal)).bind hclose

/-- A function with a body runs alike. -/
theorem runs_functionRest (ty : TypeExpr) (name : Ident) :
    Runs n noted AnyKind False (FunctionDecl.shifted n)
      (functionRest ty name) (functionRest ty name) := by
  refine runs_freshId.bind fun id => (runs_params false).any.bind fun result => ?_
  exact runs_block.bind fun body _ => runsAt_pure rfl

/-- A function without a body runs alike. -/
theorem runs_externalRest (ty : TypeExpr) (name : Ident) :
    Runs n noted AnyKind False (FunctionDecl.shifted n) (externalRest ty name)
      (externalRest ty name) := by
  refine runs_freshId.bind fun id => (runs_params true).any.bind fun result => ?_
  exact (runs_expect nofun).bind fun stop _ => runsAt_pure rfl

/-- A declaration of a function elsewhere starts with its word. -/
theorem runs_externalDecl : RunsBehind n noted (.keyword .externWord) (FunctionDecl.shifted n)
    externalDecl := by
  refine ⟨_, rfl, fun start => ?_⟩
  refine runs_typeExpr.any.bind fun ty => (runs_ident nofun).bind fun name => ?_
  exact (runs_externalRest ty name).bind fun decl _ => runsAt_pure rfl

/-- A field is read without looking at a brace, from its name on. -/
theorem runs_fieldRest (ty : TypeExpr) (name : Ident) :
    Runs n noted TokenKind.IsInner now (FieldDecl.shifted n) (fieldRest ty name)
      (fieldRest ty name) := by
  refine (runs_expect ⟨nofun, nofun, nofun⟩).bind fun stop => runs_freshId.bind fun id _ => ?_
  exact runsAt_pure rfl

/-- A field is read without looking at a brace. -/
theorem runs_fieldDecl :
    Runs n noted TokenKind.IsInner now (FieldDecl.shifted n) fieldDecl fieldDecl :=
  runs_typeExpr.bind fun ty => (runs_ident ⟨nofun, nofun, nofun⟩).bind fun name =>
    runs_fieldRest ty name

/-- Members of classes run alike. -/
theorem runs_classMember :
    Runs n noted AnyKind now (ClassMember.shifted n) classMember classMember := by
  refine runs_typeExpr.any.bind fun ty => (runs_ident nofun).bind fun name => ?_
  refine runs_check fun isMethod => ?_
  cases isMethod with
  | true => exact (runs_functionRest ty name).map fun _ => rfl
  | false => exact (runs_fieldRest ty name).any.map fun _ => rfl

/-- A class starts with its word. -/
theorem runs_classDecl :
    RunsBehind n noted (.keyword .classWord) (ClassDecl.shifted n) classDecl := by
  refine ⟨_, rfl, fun start => runs_freshId.bind fun node => ?_⟩
  refine (runs_ident nofun).bind fun name => runs_eat nofun fun extending => ?_
  have hrest : ∀ parent : Option Ident, Runs n noted AnyKind False (ClassDecl.shifted n)
      (do let _ ← expect (.mark .leftBrace)
          let members ← recovering closesBraces classMember skipStatement
          let stop ← expect (.mark .rightBrace)
          return ⟨node, name, parent, members, start.span.merge stop.span⟩)
      (do let _ ← expect (.mark .leftBrace)
          let members ← recovering closesBraces classMember skipStatement
          let stop ← expect (.mark .rightBrace)
          return ⟨n + node, name, parent, members, start.span.merge stop.span⟩) := by
    intro parent
    refine (runs_expect nofun).bind fun _ => ?_
    refine (runs_recovering _ runs_classMember skips_skipStatement (afterStatement_suffix 0)
      fun _ => id).bind fun members => ?_
    exact (runs_expect nofun).bind fun stop _ => runsAt_pure rfl
  have hparent : Runs n noted AnyKind False id (some <$> ident) (some <$> ident) :=
    (runs_ident nofun).map fun _ => rfl
  cases extending with
  | true => exact hparent.bind fun parent => hrest parent
  | false => exact hrest none

/-- A struct starts with its word. -/
theorem runs_structDecl :
    RunsBehind n noted (.keyword .structWord) (StructDecl.shifted n) structDecl := by
  refine ⟨_, rfl, fun start => runs_freshId.bind fun id => ?_⟩
  refine (runs_ident nofun).bind fun name => (runs_expect nofun).bind fun _ => ?_
  refine (runs_many _ runs_fieldDecl.any).bind fun fields => ?_
  exact (runs_expect nofun).bind fun stop _ => runsAt_pure rfl

/-- A function outside of classes runs alike. -/
theorem runs_freeFunction :
    Runs n noted AnyKind now (FunctionDecl.shifted n) freeFunction freeFunction := by
  refine runs_typeExpr.any.bind fun ty => (runs_ident nofun).bind fun name => ?_
  refine runs_check fun isFunction => ?_
  cases isFunction with
  | true => exact runs_functionRest ty name
  | false => exact fun _ => runsAt_fail _

/-- **Items run alike**, wherever the numbers start. -/
theorem runs_item : Runs n noted AnyKind now (Item.shifted n) item item := by
  intro token
  refine runsAt_peek ?_
  split
  · exact (runs_classDecl.runs nofun token).bind fun _ _ => runsAt_pure rfl
  · exact (runs_structDecl.runs nofun token).bind fun _ _ => runsAt_pure rfl
  · exact (runs_externalDecl.runs nofun token).bind fun _ _ => runsAt_pure rfl
  · exact (runs_freeFunction token).bind fun _ _ => runsAt_pure rfl

/-- **Items depend on the tokens alone.** -/
theorem runs_items : Runs n noted AnyKind False (List.map (Item.shifted n)) items items :=
  runs_recovering _ runs_item skips_skipItem (afterItem_suffix 0) fun _ => id

end Parser

end ClassLang
