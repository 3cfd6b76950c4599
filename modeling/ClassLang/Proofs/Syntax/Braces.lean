import ClassLang.Proofs.Syntax.Recovery

/-!
# Errors stay inside braces

What `closing 0` gives, the tokens from the brace on that closes more than was opened, is the same
behind a statement or a member as in front of it, be it read or skipped (`Parser.Contained`): what
is read without nested statements holds no brace, skipping counts the braces, and a block ends
where its own brace is.  A list in braces is therefore read up to the brace that belongs to it,
and what follows is read as if it stood alone.
-/

namespace ClassLang

/-- Behind an opening brace and the number of its block the end mark is still behind all. -/
theorem ParserState.Ended.skip_fresh {s : ParserState} (h : s.Ended) :
    ({ s.skip with nextId := s.nextId + 1 } : ParserState).Ended :=
  h.suffix rfl (List.tail_suffix _)

/-! ## Matching braces -/

namespace Parser

/-- The tokens from the brace on that closes more than was opened, where `depth` braces are open. -/
def closing : Nat → List Token → List Token
  | _, [] => []
  | depth, token :: rest =>
    match token.kind with
    | .mark .leftBrace => closing (depth + 1) rest
    | .mark .rightBrace =>
      match depth with
      | 0 => token :: rest
      | depth + 1 => closing depth rest
    | _ => closing depth rest

/-- A brace that opens is one more to be closed. -/
theorem closing_leftBrace (depth : Nat) {token : Token} (h : token.kind = .mark .leftBrace)
    (rest : List Token) : closing depth (token :: rest) = closing (depth + 1) rest := by
  rw [closing.eq_def]
  simp only [h]

/-- A brace that closes where none is open is the one that is looked for. -/
theorem closing_rightBrace {token : Token} (h : token.kind = .mark .rightBrace)
    (rest : List Token) : closing 0 (token :: rest) = token :: rest := by
  rw [closing.eq_def]
  simp only [h]

/-- A brace that closes where one is open closes that one. -/
theorem closing_rightBrace_succ (depth : Nat) {token : Token} (h : token.kind = .mark .rightBrace)
    (rest : List Token) : closing (depth + 1) (token :: rest) = closing depth rest := by
  rw [closing.eq_def]
  simp only [h]

/-- Any other token is passed. -/
theorem closing_other (depth : Nat) {token : Token} (hleft : token.kind ≠ .mark .leftBrace)
    (hright : token.kind ≠ .mark .rightBrace) (rest : List Token) :
    closing depth (token :: rest) = closing depth rest := by
  rw [closing.eq_def]
  simp only

/-- Tokens without braces are passed. -/
theorem closing_append_inner (depth : Nat) {read : List Token} (h : ∀ t ∈ read, t.kind.IsInner)
    (rest : List Token) : closing depth (read ++ rest) = closing depth rest := by
  induction read with
  | nil => rfl
  | cons token read ih =>
      obtain ⟨hleft, hright, -⟩ := h token (List.mem_cons_self ..)
      rw [List.cons_append, closing_other depth hleft hright]
      exact ih fun t ht => h t (List.mem_cons_of_mem _ ht)

/-- One more brace is closed behind the brace that closes the others. -/
theorem closing_succ (depth : Nat) (tokens : List Token) :
    closing (depth + 1) tokens = closing depth (closing 0 tokens).tail := by
  suffices h : ∀ opened, closing (depth + opened + 1) tokens =
      closing depth (closing opened tokens).tail from h 0
  induction tokens with
  | nil =>
      intro opened
      simp [closing]
  | cons token rest ih =>
      intro opened
      by_cases hleft : token.kind = .mark .leftBrace
      · rw [closing_leftBrace _ hleft, closing_leftBrace _ hleft]
        exact ih (opened + 1)
      · by_cases hright : token.kind = .mark .rightBrace
        · cases opened with
          | zero => rw [closing_rightBrace_succ _ hright, closing_rightBrace hright, List.tail_cons]
          | succ opened =>
              rw [closing_rightBrace_succ _ hright, closing_rightBrace_succ _ hright]
              exact ih opened
        · rw [closing_other _ hleft hright, closing_other _ hleft hright]
          exact ih opened

/-- A brace stands there, or the end was reached. -/
theorem closing_cases (depth : Nat) (tokens : List Token) : closing depth tokens = [] ∨
    ∃ token rest, closing depth tokens = token :: rest ∧ token.kind = .mark .rightBrace := by
  fun_induction closing depth tokens with
  | case1 => exact .inl rfl
  | case2 depth token rest hkind ih => exact ih
  | case3 token rest hkind => exact .inr ⟨token, rest, rfl, hkind⟩
  | case4 token rest hkind depth ih => exact ih
  | case5 depth token rest _ _ ih => exact ih

/-- **Skipping counts the braces.** -/
theorem closing_afterStatement (depth : Nat) (tokens : List Token) :
    closing 0 (afterStatement depth tokens) = closing depth tokens := by
  fun_induction afterStatement depth tokens with
  | case1 => simp [closing]
  | case2 depth token rest hkind ih => rw [ih, closing_leftBrace _ hkind]
  | case3 token rest hkind => rfl
  | case4 token rest hkind => rw [closing_rightBrace_succ _ hkind]
  | case5 token rest hkind depth _ ih => rw [ih, closing_rightBrace_succ _ hkind]
  | case6 token rest hkind => rw [closing_other _ (by simp [hkind]) (by simp [hkind])]
  | case7 depth token rest hkind _ ih =>
      rw [ih, closing_other _ (by simp [hkind]) (by simp [hkind])]
  | case8 depth token rest hleft hright _ ih => rw [ih, closing_other _ hleft hright]

end Parser

/-- Tokens whose braces match: as many of each kind, and nowhere more closing ones so far. -/
structure Balanced (body : List Token) : Prop where
  equal : body.countP (·.kind == .mark .leftBrace) = body.countP (·.kind == .mark .rightBrace)
  fronts : ∀ front, front <+: body → front.countP (·.kind == .mark .rightBrace) ≤
    front.countP (·.kind == .mark .leftBrace)

/-- The fronts of a list are finitely many. -/
theorem balanced_iff {body : List Token} : Balanced body ↔
    body.countP (·.kind == .mark .leftBrace) = body.countP (·.kind == .mark .rightBrace) ∧
      ∀ k ∈ List.range (body.length + 1), (body.take k).countP (·.kind == .mark .rightBrace) ≤
        (body.take k).countP (·.kind == .mark .leftBrace) := by
  refine ⟨fun h => ⟨h.equal, fun k _ => h.fronts _ (List.take_prefix k body)⟩, fun h => ⟨h.1, ?_⟩⟩
  intro front hfront
  have hlength := hfront.length_le
  rw [List.prefix_iff_eq_take.1 hfront]
  exact h.2 _ (List.mem_range.2 (by omega))

instance (body : List Token) : Decidable (Balanced body) := decidable_of_iff _ balanced_iff.symm

namespace Parser

/-- Behind tokens with more opening braces the difference is open. -/
theorem closing_append (depth : Nat) (body rest : List Token)
    (h : ∀ front, front <+: body → front.countP (·.kind == .mark .rightBrace) ≤
      depth + front.countP (·.kind == .mark .leftBrace)) :
    closing depth (body ++ rest) = closing (depth + body.countP (·.kind == .mark .leftBrace) -
      body.countP (·.kind == .mark .rightBrace)) rest := by
  induction body generalizing depth with
  | nil => rfl
  | cons token body ih =>
      have hbehind : ∀ front, front <+: body →
        (token :: front).countP (·.kind == .mark .rightBrace) ≤
          depth + (token :: front).countP (·.kind == .mark .leftBrace) :=
        fun front hfront => h _ (List.cons_prefix_cons.2 ⟨rfl, hfront⟩)
      rw [List.cons_append]
      by_cases hleft : token.kind = .mark .leftBrace
      · simp only [List.countP_cons, hleft] at hbehind ⊢
        rw [closing_leftBrace _ hleft, ih (depth + 1) fun front hfront => ?_]
        · congr 1
          simp
          omega
        · have hle := hbehind front hfront
          simp at hle
          omega
      · by_cases hright : token.kind = .mark .rightBrace
        · simp only [List.countP_cons, hright] at hbehind ⊢
          have hpos := hbehind [] List.nil_prefix
          obtain ⟨depth, rfl⟩ : ∃ d, depth = d + 1 := ⟨depth - 1, by simp at hpos; omega⟩
          rw [closing_rightBrace_succ _ hright, ih depth fun front hfront => ?_]
          · congr 1
            simp
            omega
          · have hle := hbehind front hfront
            simp at hle
            omega
        · have hl : (token.kind == .mark .leftBrace) = false := by simpa using hleft
          have hr : (token.kind == .mark .rightBrace) = false := by simpa using hright
          simp only [List.countP_cons, hl, hr] at hbehind ⊢
          rw [closing_other _ hleft hright]
          exact ih depth hbehind

/-- Behind balanced tokens, the next brace closes what is around. -/
theorem closing_balanced {body : List Token} (h : Balanced body) {close : Token}
    (hclose : close.kind = .mark .rightBrace) (rest : List Token) :
    closing 0 (body ++ close :: rest) = close :: rest := by
  rw [closing_append 0 body _ fun front hfront => by simpa using h.fronts front hfront, h.equal]
  simpa using closing_rightBrace hclose rest

/-! ## What is read inside braces -/

/-- The brace that closes what is around the parser is the same before and behind it. -/
def Contained {α : Type} (p : Parser α) : Prop :=
  ∀ s : ParserState, s.Ended →
    (p s).rest.Ended ∧ closing 0 (p s).rest.tokens = closing 0 s.tokens

section

variable {α β : Type} {p : Parser α}

/-- What is read without looking at a brace stays inside. -/
theorem contained_of_runs {n : Nat} {noted : List SyntaxError} {now : Prop} {move : α → α}
    (h : Runs n noted TokenKind.IsInner now move p p) : Contained p := by
  intro s hended
  obtain ⟨read, htokens, hread, -⟩ := (h s.peek).reads hended rfl
  refine ⟨h.ended hended, ?_⟩
  rw [htokens, closing_append_inner 0 hread]

/-- A result stays where it is. -/
theorem contained_pure (a : α) : Contained (pure a : Parser α) := fun _ hended => ⟨hended, rfl⟩

/-- Nesting that is too deep stays where it is. -/
theorem contained_exhausted : Contained (exhausted : Parser α) := fun _ hended => ⟨hended, rfl⟩

/-- A fresh number is no token. -/
theorem contained_freshId : Contained freshId := fun _ hended => ⟨⟨hended.eof, hended.tokens⟩, rfl⟩

/-- Looking for a kind of token stays where it is. -/
theorem contained_check (kind : TokenKind) : Contained (check kind) := fun _ hended => ⟨hended, rfl⟩

/-- What stays inside may be done in a row. -/
theorem Contained.bind {f : α → Parser β} (hp : Contained p) (hf : ∀ a, Contained (f a)) :
    Contained (p >>= f) := by
  intro s hended
  obtain ⟨hended', hclosing⟩ := hp s hended
  cases hend : p s with
  | ok a mid =>
      rw [hend] at hended' hclosing
      obtain ⟨hended'', hclosing'⟩ := hf a mid hended'
      rw [bind_of_ok hend]
      exact ⟨hended'', hclosing'.trans hclosing⟩
  | fail error mid =>
      rw [hend] at hended' hclosing
      rw [bind_of_fail hend]
      exact ⟨hended', hclosing⟩

/-- What stays inside for every depth does for that of the source. -/
theorem contained_bounded {p : Nat → Parser α} (h : ∀ fuel, Contained (p fuel)) :
    Contained (bounded p) :=
  fun s => h (s.tokens.length + 1) s

/-- A token that may be there stays inside if it is no brace. -/
theorem contained_eat (kind : TokenKind) (h : kind.IsInner) : Contained (eat kind) := by
  intro s hended
  unfold eat
  split
  · next hkind =>
      have hcons := ParserState.tokens_eq_cons hended (hkind ▸ h.2.2)
      refine ⟨hended.suffix rfl (List.tail_suffix _), ?_⟩
      have hinner : s.peek.kind.IsInner := hkind ▸ h
      rw [hcons, closing_other 0 hinner.1 hinner.2.1]
      rfl
  · exact ⟨hended, rfl⟩

/-- An attempt stays inside, and so does what is skipped behind an error. -/
theorem contained_attempt (hp : Contained p) : Contained (attempt p skipStatement) := by
  intro s hended
  obtain ⟨hended', hclosing⟩ := hp s hended
  cases hend : p s with
  | ok a mid =>
      rw [hend] at hended' hclosing
      rw [attempt_of_ok hend]
      exact ⟨hended', hclosing⟩
  | fail error mid =>
      rw [hend] at hended' hclosing
      rw [attempt_of_fail skips_skipStatement hend]
      exact ⟨hended'.suffix rfl (afterStatement_suffix 0 mid.tokens),
        (closing_afterStatement 0 mid.tokens).trans hclosing⟩

/-- At a token that closes braces nothing is left to be closed inside. -/
theorem closing_of_stop {s : ParserState} (hended : s.Ended)
    (h : closesBraces s.peek.kind = true) : closing 0 s.tokens = s.tokens := by
  unfold ParserState.peek at h
  cases htokens : s.tokens with
  | nil => rfl
  | cons token rest =>
      have heof : token.kind ≠ .eof := hended.tokens token (by simp [htokens])
      have hkind : token.kind = .mark .rightBrace := by
        simpa [htokens, closesBraces, heof] using h
      exact closing_rightBrace hkind rest

/-- A list whose values may be left out is read to the brace that closes it. -/
theorem recovering_closes (h : Rounds closesBraces p skipStatement ParserState.Ended)
    (hp : Contained p) {s : ParserState} (hended : s.Ended) : ∃ found s',
      recovering closesBraces p skipStatement s = .ok found s' ∧ s'.Ended ∧
        s'.tokens = closing 0 s.tokens := by
  have hrounds : Rounds closesBraces p skipStatement fun s' => s'.Ended ∧
      closing 0 s'.tokens = closing 0 s.tokens := by
    intro mid ⟨hmid, hclosing⟩ hstop
    obtain ⟨found, s', hattempt, hended', hlt⟩ := h mid hmid hstop
    have hkept := (contained_attempt hp mid hmid).2
    rw [hattempt] at hkept
    exact ⟨found, s', hattempt, ⟨hended', hkept.trans hclosing⟩, hlt⟩
  obtain ⟨found, s', hfound, ⟨hended', hclosing⟩, hstop⟩ :=
    hrounds.recovering_ends ⟨hended, rfl⟩
  exact ⟨found, s', hfound, hended', (closing_of_stop hended' hstop).symm.trans hclosing⟩

/-- A token that is there is taken. -/
theorem expect_of_kind {kind : TokenKind} {s : ParserState} (h : s.peek.kind = kind) :
    expect kind s = .ok s.peek s.skip := by
  unfold expect
  simp only
  rw [if_pos h]

/-- A token that is not there is an error. -/
theorem expect_of_ne {kind : TokenKind} {s : ParserState} (h : s.peek.kind ≠ kind) :
    ∃ error, expect kind s = .fail error s := by
  unfold expect
  simp only
  rw [if_neg h]
  split
  · exact ⟨_, rfl⟩
  · exact ⟨_, rfl⟩

/-- A list with its closing brace. -/
def listUpToBrace (p : Parser α) (make : List α → Token → β) : Parser β := do
  let found ← recovering closesBraces p skipStatement
  let stop ← expect (.mark .rightBrace)
  return make found stop

/-- **The list ends behind the brace that closes it**, and it is read if there is one. -/
theorem listUpToBrace_ends (h : Rounds closesBraces p skipStatement ParserState.Ended)
    (hp : Contained p) (make : List α → Token → β) {s : ParserState} (hended : s.Ended) :
    (listUpToBrace p make s).rest.Ended ∧
      (listUpToBrace p make s).rest.tokens = (closing 0 s.tokens).tail ∧
      (closing 0 s.tokens ≠ [] → ∃ b s', listUpToBrace p make s = .ok b s') := by
  obtain ⟨found, mid, hfound, hmid, htokens⟩ := recovering_closes h hp hended
  rw [listUpToBrace, bind_of_ok hfound]
  rcases closing_cases 0 s.tokens with hnone | ⟨token, rest, hsome, hkind⟩
  · rw [hnone] at htokens ⊢
    have hpeek : mid.peek.kind ≠ .mark .rightBrace := by
      rw [ParserState.peek, htokens]
      intro hbrace
      cases hmid.eof.symm.trans hbrace
    obtain ⟨error, hfail⟩ := expect_of_ne hpeek
    rw [bind_of_fail hfail]
    exact ⟨hmid, htokens, fun hne => absurd rfl hne⟩
  · rw [hsome] at htokens ⊢
    have hpeek : mid.peek.kind = .mark .rightBrace := by
      rw [ParserState.peek, htokens]
      exact hkind
    rw [bind_of_ok (expect_of_kind hpeek)]
    refine ⟨hmid.suffix rfl (List.tail_suffix _), ?_, fun _ => ⟨_, _, rfl⟩⟩
    exact congrArg List.tail htokens

end

/-- A block behind its opening brace. -/
theorem blockWith_eq {p : Parser Stmt} {s : ParserState} (h : s.peek.kind = .mark .leftBrace) :
    blockWith p s = listUpToBrace p
      (fun stmts stop => ⟨s.nextId, stmts, s.peek.span.merge stop.span⟩)
      { s.skip with nextId := s.nextId + 1 } := by
  rw [blockWith, bind_of_ok (expect_of_kind h)]
  rfl

/-- A block stays inside: what it opens it closes. -/
theorem contained_blockWith {p : Parser Stmt}
    (h : Rounds closesBraces p skipStatement ParserState.Ended) (hp : Contained p) :
    Contained (blockWith p) := by
  intro s hended
  by_cases hopen : s.peek.kind = .mark .leftBrace
  · have hcons := ParserState.tokens_eq_cons hended (by rw [hopen]; nofun)
    rw [blockWith_eq hopen]
    obtain ⟨hended', htokens, -⟩ := listUpToBrace_ends h hp
      (fun stmts stop => (⟨s.nextId, stmts, s.peek.span.merge stop.span⟩ : Block))
      (hended.skip_fresh)
    refine ⟨hended', ?_⟩
    rw [htokens, hcons, closing_leftBrace 0 hopen, closing_succ]
    rfl
  · obtain ⟨error, hfail⟩ := expect_of_ne hopen
    rw [blockWith, bind_of_fail hfail]
    exact ⟨hended, rfl⟩

/-- A token that has to be there stays inside if it is no brace. -/
theorem contained_expect (kind : TokenKind) (h : kind.IsInner) : Contained (expect kind) := by
  have hruns : Runs 0 [] TokenKind.IsInner False id (expect kind) (expect kind) := runs_expect h
  exact contained_of_runs hruns

/-- A conditional statement stays inside if its sides do. -/
theorem contained_ifWith {p : Parser Stmt} (hp : Contained p) : Contained (ifWith p) := by
  have hexpr : Runs 0 [] TokenKind.IsInner False (Expr.shifted 0) expr expr := runs_expr
  refine (contained_expect (.keyword .ifWord) ⟨nofun, nofun, nofun⟩).bind fun start => ?_
  refine (contained_expect (.mark .leftParen) ⟨nofun, nofun, nofun⟩).bind fun _ => ?_
  refine (contained_of_runs hexpr).bind fun condition => ?_
  refine (contained_expect (.mark .rightParen) ⟨nofun, nofun, nofun⟩).bind fun _ => ?_
  refine hp.bind fun positive => ?_
  refine (contained_eat (.keyword .elseWord) ⟨nofun, nofun, nofun⟩).bind fun more => ?_
  cases more with
  | true => exact hp.bind fun negative => contained_pure _
  | false => exact contained_pure _

/-- A statement stays inside if the statements in it do. -/
theorem contained_stmtWith {p : Parser Stmt}
    (h : Rounds closesBraces p skipStatement ParserState.Ended) (hp : Contained p) :
    Contained (stmtWith p) := by
  have hreturn : Runs 0 [] TokenKind.IsInner False (Stmt.shifted 0) returnStmt returnStmt :=
    runs_returnStmt
  have hvar : Runs 0 [] TokenKind.IsInner False (Stmt.shifted 0) varDecl varDecl := runs_varDecl
  have hexpr : Runs 0 [] TokenKind.IsInner False (Stmt.shifted 0) exprStmt exprStmt :=
    runs_exprStmt
  have hblock : Contained (Block.toStmt <$> blockWith p) :=
    (contained_blockWith h hp).bind fun _ => contained_pure _
  intro s hended
  unfold stmtWith
  split
  · exact contained_ifWith hp s hended
  · exact contained_of_runs hreturn s hended
  · exact hblock s hended
  · split
    · exact contained_of_runs hvar s hended
    · exact contained_of_runs hexpr s hended

/-- Statements of every depth stay inside. -/
theorem contained_stmtUpTo (fuel : Nat) : Contained (stmtUpTo fuel) := by
  induction fuel with
  | zero => exact contained_exhausted
  | succ fuel ih => exact contained_stmtWith (rounds_statement (runs_stmtUpTo fuel)) ih

/-- **Statements stay inside the braces around them.** -/
theorem contained_stmt : Contained stmt := contained_bounded contained_stmtUpTo

/-- A type stays inside. -/
theorem contained_typeExpr : Contained typeExpr := by
  have hruns : Runs 0 [] TokenKind.IsInner False id typeExpr typeExpr := runs_typeExpr
  exact contained_of_runs hruns

/-- A name stays inside. -/
theorem contained_ident : Contained ident := by
  have hruns : Runs 0 [] TokenKind.IsInner False id ident ident := runs_ident ⟨nofun, nofun, nofun⟩
  exact contained_of_runs hruns

/-- Parameters stay inside. -/
theorem contained_params : Contained (params false) := by
  have hruns : Runs 0 [] TokenKind.IsInner False (Prod.map (List.map (Param.shifted 0)) id)
      (params false) (params false) := runs_params false
  exact contained_of_runs hruns

/-- A function stays inside the braces around it. -/
theorem contained_functionRest (ty : TypeExpr) (name : Ident) :
    Contained (functionRest ty name) := by
  refine contained_freshId.bind fun id => contained_params.bind fun result => ?_
  refine (contained_blockWith (rounds_statement runs_stmt) contained_stmt).bind fun body => ?_
  exact contained_pure _

/-- **Members stay inside the braces of their class.** -/
theorem contained_classMember : Contained classMember := by
  refine contained_typeExpr.bind fun ty => contained_ident.bind fun name => ?_
  refine (contained_check _).bind fun isMethod => ?_
  have hfield : Runs 0 [] TokenKind.IsInner False (FieldDecl.shifted 0) (fieldRest ty name)
      (fieldRest ty name) := runs_fieldRest ty name
  cases isMethod with
  | true => exact (contained_functionRest ty name).bind fun _ => contained_pure _
  | false => exact (contained_of_runs hfield).bind fun _ => contained_pure _

/-! ## Bodies -/

end Parser

/-- Tokens that start with a body in braces, and the tokens behind it. -/
def InBraces (tokens rest : List Token) : Prop :=
  ∃ opening body close, opening.kind = .mark .leftBrace ∧ Balanced body ∧
    close.kind = .mark .rightBrace ∧ tokens = opening :: (body ++ close :: rest)

/-- The head of a class: its name, and perhaps that of its parent. -/
inductive ClassHead : List Token → Prop
  | alone {word name : Token} (hword : word.kind = .keyword .classWord)
      (hname : name.kind = .identifier) : ClassHead [word, name]
  | derived {word name extending parent : Token} (hword : word.kind = .keyword .classWord)
      (hname : name.kind = .identifier) (hextends : extending.kind = .keyword .extendsWord)
      (hparent : parent.kind = .identifier) : ClassHead [word, name, extending, parent]

namespace Parser

/-- Reads the head of a function, up to its body. -/
def functionHead : Parser (TypeExpr × Ident × NodeId × List Param) := do
  let ty ← typeExpr
  let name ← ident
  let id ← freshId
  let (params, _) ← params false
  return (ty, name, id, params)

end Parser

/-- The head of a function stays in front of its body. -/
theorem Parser.contained_functionHead : Contained functionHead := by
  refine contained_typeExpr.bind fun ty => contained_ident.bind fun name => ?_
  refine contained_freshId.bind fun id => contained_params.bind fun result => ?_
  exact contained_pure _

/-- A state in front of a class or a function whose head ends in front of some tokens. -/
inductive ParserState.BeforeBody (s : ParserState) (tokens : List Token) : Prop
  | ofClass {head : List Token} (h : ClassHead head) (htokens : s.tokens = head ++ tokens)
  | ofFunction {head : TypeExpr × Ident × NodeId × List Param} {s' : ParserState}
      (h : Parser.functionHead s = .ok head s') (htokens : s'.tokens = tokens)

namespace Parser

variable {s : ParserState} {tokens rest : List Token}

/-- **A block ends where its braces do.** -/
theorem block_ends (hended : s.Ended) (h : InBraces s.tokens rest) :
    ∃ block s', Parser.block s = .ok block s' ∧ s'.tokens = rest := by
  obtain ⟨opening, body, close, hopen, hbody, hclose, htokens⟩ := h
  have hpeek : s.peek.kind = .mark .leftBrace := by
    rw [ParserState.peek, htokens]
    exact hopen
  have hclosing : closing 0 s.skip.tokens = close :: rest := by
    rw [ParserState.skip, htokens, List.tail_cons, closing_balanced hbody hclose]
  obtain ⟨-, hrest, hok⟩ := listUpToBrace_ends (rounds_statement runs_stmt) contained_stmt
    (fun stmts stop => (⟨s.nextId, stmts, s.peek.span.merge stop.span⟩ : Block))
    (hended.skip_fresh)
  obtain ⟨block, s', hblock⟩ := hok (by rw [hclosing]; exact List.cons_ne_nil _ _)
  rw [hblock, hclosing] at hrest
  exact ⟨block, s', (blockWith_eq hpeek).trans hblock, hrest⟩

section

variable {token : Token} {eof : Token} {nextId : NodeId} {errors : List SyntaxError}
  {kind : TokenKind}

/-- A token that has to be there is the first one. -/
theorem expect_cons (h : token.kind = kind) :
    expect kind ⟨token :: rest, eof, nextId, errors⟩ = .ok token ⟨rest, eof, nextId, errors⟩ :=
  expect_of_kind h

/-- A name is the first token. -/
theorem ident_cons (h : token.kind = .identifier) : ident ⟨token :: rest, eof, nextId, errors⟩ =
    .ok ⟨token.lexeme, token.span⟩ ⟨rest, eof, nextId, errors⟩ := by
  simp [ident, ParserState.peek, ParserState.skip, h]

/-- A token that may be there is the first one. -/
theorem eat_cons (h : token.kind = kind) :
    eat kind ⟨token :: rest, eof, nextId, errors⟩ = .ok true ⟨rest, eof, nextId, errors⟩ := by
  simp [eat, ParserState.peek, ParserState.skip, h]

/-- A token that may be there is not the first one. -/
theorem eat_cons_ne (h : token.kind ≠ kind) : eat kind ⟨token :: rest, eof, nextId, errors⟩ =
    .ok false ⟨token :: rest, eof, nextId, errors⟩ := by
  simp [eat, ParserState.peek, h]

end

/-- A class behind its opening brace. -/
theorem classDecl_eq {head inner : List Token} {opening : Token} (h : ClassHead head)
    (hopen : opening.kind = .mark .leftBrace) (htokens : s.tokens = head ++ opening :: inner) :
    ∃ (make : List ClassMember → Token → ClassDecl) (s' : ParserState),
      classDecl s = listUpToBrace classMember make s' ∧ s'.tokens = inner ∧ s'.eof = s.eof := by
  obtain ⟨tokens, eof, nextId, errors⟩ := s
  simp only at htokens
  subst htokens
  have hrest : ∀ (start : Token) (name : Ident) (parent : Option Ident),
      (do let _ ← expect (.mark .leftBrace)
          let members ← recovering closesBraces classMember skipStatement
          let stop ← expect (.mark .rightBrace)
          return (⟨nextId, name, parent, members, start.span.merge stop.span⟩ : ClassDecl))
        ⟨opening :: inner, eof, nextId + 1, errors⟩ =
      listUpToBrace classMember
        (fun members stop => ⟨nextId, name, parent, members, start.span.merge stop.span⟩)
        ⟨inner, eof, nextId + 1, errors⟩ :=
    fun start name parent => bind_of_ok (expect_cons hopen)
  cases h with
  | @alone word name hword hname =>
      have hnone : opening.kind ≠ .keyword .extendsWord := by
        rw [hopen]
        nofun
      have hclass := hrest word ⟨name.lexeme, name.span⟩ none
      refine ⟨_, _, Eq.trans ?_ hclass, rfl, rfl⟩
      refine (bind_of_ok (expect_cons hword)).trans ((bind_of_ok (ident_cons hname)).trans ?_)
      exact bind_of_ok (eat_cons_ne hnone)
  | @derived word name extending parent hword hname hextends hparent =>
      have hclass := hrest word ⟨name.lexeme, name.span⟩ (some ⟨parent.lexeme, parent.span⟩)
      refine ⟨_, _, Eq.trans ?_ hclass, rfl, rfl⟩
      refine (bind_of_ok (expect_cons hword)).trans ((bind_of_ok (ident_cons hname)).trans ?_)
      have hsome : (some <$> ident : Parser (Option Ident))
          ⟨parent :: opening :: inner, eof, nextId + 1, errors⟩ =
          .ok (some ⟨parent.lexeme, parent.span⟩) ⟨opening :: inner, eof, nextId + 1, errors⟩ :=
        bind_of_ok (ident_cons hparent)
      exact (bind_of_ok (eat_cons hextends)).trans (bind_of_ok hsome)

/-- **A class ends where its braces do.** -/
theorem classDecl_ends (hended : s.Ended) {head : List Token} (h : ClassHead head)
    (htokens : s.tokens = head ++ tokens) (hbraces : InBraces tokens rest) :
    ∃ decl s', classDecl s = .ok decl s' ∧ s'.tokens = rest := by
  obtain ⟨opening, body, close, hopen, hbody, hclose, rfl⟩ := hbraces
  obtain ⟨make, mid, hclass, hmid, heof⟩ := classDecl_eq h hopen htokens
  have hclosing : closing 0 mid.tokens = close :: rest := by
    rw [hmid, closing_balanced hbody hclose]
  have hended' : mid.Ended := by
    refine hended.suffix heof ⟨head ++ [opening], ?_⟩
    rw [hmid, htokens, List.append_assoc, List.singleton_append]
  obtain ⟨-, hrest, hok⟩ := listUpToBrace_ends (rounds_statement runs_classMember)
    contained_classMember make hended'
  obtain ⟨decl, s', hdecl⟩ := hok (by rw [hclosing]; exact List.cons_ne_nil _ _)
  rw [hdecl, hclosing] at hrest
  exact ⟨decl, s', hclass.trans hdecl, hrest⟩

/-- What has been expected and found is of the kind. -/
theorem kind_of_expect {kind : TokenKind} {token : Token} {s' : ParserState}
    (h : expect kind s = .ok token s') : s.peek.kind = kind := by
  by_cases hkind : s.peek.kind = kind
  · exact hkind
  · obtain ⟨error, hfail⟩ := expect_of_ne hkind
    cases hfail.symm.trans h

/-- A type starts with no word that starts a declaration. -/
theorem item_of_type {ty : TypeExpr} {s' : ParserState} (h : typeExpr s = .ok ty s') :
    s.peek.kind ≠ .eof ∧ item s = (Item.function <$> freeFunction) s := by
  have hpeek : peek s = .ok s.peek s := rfl
  rw [item, bind_of_ok hpeek]
  rw [typeExpr, bind_of_ok hpeek] at h
  generalize s.peek.kind = kind at h ⊢
  cases kind with
  | identifier => exact ⟨by simp, rfl⟩
  | keyword word =>
      cases word with
      | type p => exact ⟨by simp, rfl⟩
      | _ => cases h
  | _ => cases h

/-- A function whose head was read. -/
theorem item_of_head {head : TypeExpr × Ident × NodeId × List Param} {mid s' : ParserState}
    {body : Block} (h : functionHead s = .ok head mid) (hbody : block mid = .ok body s') :
    s.peek.kind ≠ .eof ∧ ∃ decl, item s = .ok (.function decl) s' := by
  obtain ⟨ty, s₁, hty, h⟩ := bind_ok h
  obtain ⟨name, s₂, hname, h⟩ := bind_ok h
  obtain ⟨id, s₃, hid, h⟩ := bind_ok h
  obtain ⟨result, s₄, hparams, h⟩ := bind_ok h
  cases h
  obtain ⟨hpeek, hitem⟩ := item_of_type hty
  have hparen : s₂.peek.kind = .mark .leftParen := by
    cases hid
    obtain ⟨paren, _, hexpect, -⟩ := bind_ok hparams
    have hkind := kind_of_expect hexpect
    exact hkind
  have hcheck : check (.mark .leftParen) s₂ = .ok true s₂ := by
    simp [check, hparen]
  have hrest : functionRest ty name s₂ = .ok ⟨id, ty, name, result.1, .block body,
      ty.span.merge body.span⟩ s' :=
    (bind_of_ok hid).trans ((bind_of_ok hparams).trans (bind_of_ok hbody))
  have hfree : freeFunction s = .ok ⟨id, ty, name, result.1, .block body,
      ty.span.merge body.span⟩ s' :=
    (bind_of_ok hty).trans ((bind_of_ok hname).trans ((bind_of_ok hcheck).trans hrest))
  exact ⟨hpeek, _, hitem.trans (bind_of_ok hfree)⟩

/-- A declaration with a body ends where the braces of the body do. -/
theorem item_ends (hended : s.Ended) (h : s.BeforeBody tokens) (hbraces : InBraces tokens rest) :
    s.peek.kind ≠ .eof ∧ ∃ first s', item s = .ok first s' ∧ s'.tokens = rest := by
  cases h with
  | ofClass hhead htokens =>
      obtain ⟨decl, s', hclass, hrest⟩ := classDecl_ends hended hhead htokens hbraces
      have hpeek : s.peek.kind = .keyword .classWord := by
        rw [ParserState.peek, htokens]
        cases hhead with
        | alone hword => exact hword
        | derived hword => exact hword
      have hitem := (item_of_class hpeek).trans (bind_of_ok hclass)
      exact ⟨by simp [hpeek], .classDecl decl, s', hitem, hrest⟩
  | @ofFunction head mid hhead htokens =>
      have hmid := (contained_functionHead s hended).1
      rw [hhead] at hmid
      obtain ⟨body, s', hbody, hrest⟩ := block_ends hmid (htokens ▸ hbraces)
      obtain ⟨hpeek, decl, hitem⟩ := item_of_head hhead hbody
      exact ⟨hpeek, _, s', hitem, hrest⟩

/-- The items behind the first one are read as if they stood alone. -/
theorem items_of_item {s' : ParserState} {first : Item} (hended : s.Ended)
    (hpeek : s.peek.kind ≠ .eof) (h : item s = .ok first s') : ∃ later after,
      items ⟨s'.tokens, s.eof, 0, []⟩ = .ok later after ∧
      items s = .ok (first :: later.map (Item.shifted s'.nextId))
        (after.behind s'.nextId s'.errors) := by
  have hruns : Runs 0 [] AnyKind False (Item.shifted 0) item item := runs_item
  obtain ⟨read, htokens, -, heof⟩ := (hruns s.peek).reads hended rfl
  rw [h] at htokens heof
  have hended' : (⟨s'.tokens, s.eof, 0, []⟩ : ParserState).Ended :=
    hended.suffix rfl ⟨read, htokens.symm⟩
  obtain ⟨later, after, hlater, -⟩ := items_ends hended'
  refine ⟨later, after, hlater, ?_⟩
  -- The state behind the item is a later one of the state in which nothing has happened yet.
  have hs' : s' = ParserState.behind s'.nextId s'.errors ⟨s'.tokens, s.eof, 0, []⟩ := by
    rw [← heof]
    simp [ParserState.behind, Parsed.rest]
  have hitems : Runs s'.nextId s'.errors AnyKind False (List.map (Item.shifted s'.nextId))
      items items := runs_items
  have hmoved := (hitems _).moves ⟨s'.tokens, s.eof, 0, []⟩ rfl
  rw [← hs', hlater] at hmoved
  have hstop : (s.peek.kind == .eof) = false := by simpa using hpeek
  exact (rounds_item.recovering_round hended hstop h).trans (bind_of_ok hmoved)

end Parser

open ClassLang.Parser in
/-- **Errors stay inside braces.**  Whatever stands in a body whose braces match, a block and a
class are read, and they end where the body ends.  The items behind a class or a function with
such a body are read as if they stood alone: only their node numbers start higher, and their
errors are noted behind the earlier ones. -/
theorem braces_contain_errors {tokens rest : List Token} (h : InBraces tokens rest) :
    (∀ s : ParserState, s.Ended → s.tokens = tokens →
      ∃ body s', block s = .ok body s' ∧ s'.tokens = rest) ∧
    (∀ (s : ParserState) (head : List Token), s.Ended → ClassHead head → s.tokens = head ++ tokens →
      ∃ decl s', classDecl s = .ok decl s' ∧ s'.tokens = rest) ∧
    ∀ s : ParserState, s.Ended → s.BeforeBody tokens → ∃ first n noted later after,
      item s = .ok first ⟨rest, s.eof, n, noted⟩ ∧
      items ⟨rest, s.eof, 0, []⟩ = .ok later after ∧
      items s = .ok (first :: later.map (Item.shifted n)) (after.behind n noted) := by
  refine ⟨?_, ?_, ?_⟩
  · rintro s hended rfl
    exact block_ends hended h
  · intro s head hended hhead htokens
    exact classDecl_ends hended hhead htokens h
  · intro s hended hbefore
    obtain ⟨hpeek, first, s', hitem, rfl⟩ := item_ends hended hbefore h
    obtain ⟨later, after, hlater, hitems⟩ := items_of_item hended hpeek hitem
    refine ⟨first, s'.nextId, s'.errors, later, after, ?_, hlater, hitems⟩
    have hruns : Runs 0 [] AnyKind False (Item.shifted 0) item item := runs_item
    obtain ⟨-, -, -, heof⟩ := (hruns s.peek).reads hended rfl
    rw [hitem] at heof ⊢
    rw [← heof]
    rfl

/-- A function with a malformed body, and a function behind it. -/
def brokenSource : String :=
  "void f() { 1 + ; { ) } if x } int32 g() { return 1; }"

/-- The tokens of `brokenSource` from the body of its first function on. -/
def brokenBody : List Token := (lex brokenSource).tokens.drop 4

theorem brokenBody_inBraces : InBraces brokenBody (brokenBody.drop 10) := by
  refine ⟨brokenBody.headD default, brokenBody.tail.take 8, (brokenBody.drop 9).headD default, ?_⟩
  decide +kernel

theorem brokenSource_evaluated :
    (match Parser.functionHead (.ofSource brokenSource) with
      | .ok _ s => decide (s.tokens = brokenBody)
      | .fail _ _ => false) = true := by
  decide +kernel

theorem braces_contain_errors_broken : InBraces brokenBody (brokenBody.drop 10) ∧
    (ParserState.ofSource brokenSource).BeforeBody brokenBody ∧
    ∃ first n noted later after,
      Parser.item (.ofSource brokenSource) =
        .ok first ⟨brokenBody.drop 10, (lex brokenSource).eof, n, noted⟩ ∧
      Parser.items ⟨brokenBody.drop 10, (lex brokenSource).eof, 0, []⟩ = .ok later after ∧
      Parser.items (.ofSource brokenSource) =
        .ok (first :: later.map (Item.shifted n)) (after.behind n noted) := by
  have hended : (ParserState.ofSource brokenSource).Ended := ⟨rfl, by decide +kernel⟩
  have hbefore : (ParserState.ofSource brokenSource).BeforeBody brokenBody := by
    have h := brokenSource_evaluated
    split at h
    · next head s hhead => exact .ofFunction hhead (of_decide_eq_true h)
    · cases h
  exact ⟨brokenBody_inBraces, hbefore,
    (braces_contain_errors brokenBody_inBraces).2.2 _ hended hbefore⟩

end ClassLang
