import ClassLang.Proofs.Syntax.RereadExpr

/-!
# Reading statements again

A statement is told by its first words (`Stmt.startsStmt`), and a declaration of a variable from an
expression by what stands behind a name and some stars.  What stands behind a statement matters in
one case only: an `else` behind an `if` without one would be taken for its own
(`Stmt.endsOpen`).
-/

namespace ClassLang

open ClassLang.Parser

/-! ## How statements begin -/

/-- Whether a statement may start with a token of this kind. -/
def TokenKind.startsStmt : TokenKind → Bool
  | .keyword (.type _) | .keyword .ifWord | .keyword .returnWord | .mark .leftBrace => true
  | kind => kind.startsOperand

theorem TokenKind.goes_of_startsStmt {kind : TokenKind} (h : kind.startsStmt = true) :
    closesBraces kind = false ∧ kind ≠ .keyword .elseWord := by
  refine ⟨?_, fun heq => by rw [heq] at h; cases h⟩
  rw [← Bool.not_eq_true]
  intro hcloses
  have hkind : kind = .mark .rightBrace ∨ kind = .eof := by simpa [closesBraces] using hcloses
  rcases hkind with rfl | rfl <;> cases h

theorem TokenKind.startsStmt_of_startsOperand {kind : TokenKind} (h : kind.startsOperand = true) :
    kind.startsStmt = true := by
  unfold startsStmt
  split <;> first | rfl | exact h

/-- The first word of a type. -/
theorem TypeExpr.kind_cases {ty : TypeExpr} {rest : List Word} {kind : TokenKind}
    (h : Word.firstKind (ty.words ++ rest) = kind) :
    (∃ p, kind = .keyword (.type p)) ∨ kind = .identifier := by
  obtain ⟨base, depth, span⟩ := ty
  cases base with
  | primitive p => exact .inl ⟨p, h.symm⟩
  | named ident => exact .inr h.symm

theorem TypeExpr.startsStmt_words (ty : TypeExpr) (rest : List Word) :
    (Word.firstKind (ty.words ++ rest)).startsStmt = true := by
  rcases TypeExpr.kind_cases (rfl : Word.firstKind (ty.words ++ rest) = _) with
      ⟨p, hkind⟩ | hkind <;>
    rw [hkind] <;> rfl

/-- **How statements begin.** -/
theorem Stmt.startsStmt (s : Stmt) (rest : List Word) :
    (Word.firstKind (s.words ++ rest)).startsStmt = true := by
  cases s with
  | block _ _ _ => rfl
  | ifThen _ _ _ => rfl
  | ifElse _ _ _ _ => rfl
  | ret value _ => cases value <;> rfl
  | varDecl _ ty _ value _ =>
      cases value <;> rw [Stmt.words, List.append_assoc] <;> exact ty.startsStmt_words _
  | expr e _ =>
      rw [Stmt.words, List.append_assoc]
      exact TokenKind.startsStmt_of_startsOperand ((e.beginsExpr.enclose _).startsOperand _)

/-! ## Declarations of variables -/

/-- Whether words start a declaration of a variable. -/
def Word.startsVarDecl (words : List Word) : Bool :=
  match firstKind words with
  | .keyword (.type _) => true
  | .identifier => firstKind (words.tail.dropWhile (·.kind == .mark .star)) == .identifier
  | _ => false

theorem ParserState.Shows.startsVarDecl {s : ParserState} {words : List Word} (h : s.Shows words) :
    s.startsVarDecl = Word.startsVarDecl words := by
  unfold ParserState.startsVarDecl Word.startsVarDecl
  rw [h.peek_kind, ← h.words_eq, ← List.map_tail, List.dropWhile_map]
  have hkinds : ((fun w : Word => w.kind == TokenKind.mark .star) ∘ Token.word) =
      fun token => token.kind == .mark .star := rfl
  rw [hkinds]
  cases s.tokens.tail.dropWhile (·.kind == .mark .star) <;> rfl

theorem TypeExpr.startsVarDecl_words (ty : TypeExpr) (name : String) (rest : List Word) :
    Word.startsVarDecl (ty.words ++ .name name :: rest) = true := by
  obtain ⟨base, depth, span⟩ := ty
  cases base with
  | primitive p => rfl
  | named ident =>
      have hstars : (List.replicate depth (Word.mark .star) ++ .name name :: rest).dropWhile
          (·.kind == .mark .star) = .name name :: rest := by
        rw [List.dropWhile_append_of_pos]
        · rfl
        · intro w hw
          rw [List.eq_of_mem_replicate hw]
          rfl
      change (Word.firstKind ((List.replicate depth (Word.mark .star) ++
        .name name :: rest).dropWhile (·.kind == .mark .star)) == .identifier) = true
      rw [hstars]
      rfl

/-- An operand starts a declaration only if it is a name with a star and a name behind it. -/
theorem Word.BeginsExpr.not_startsVarDecl {words : List Word} (h : BeginsExpr words)
    (hplain : beginsLikeDecl words = false) : startsVarDecl words = false := by
  cases words with
  | nil => exact h.elim
  | cons w rest =>
      obtain ⟨hoperand, hname⟩ := h
      by_cases hidentifier : w.kind = .identifier
      · have hfollows := hname hidentifier
        simp only [startsVarDecl, firstKind, hidentifier, List.tail_cons]
        cases rest with
        | nil => rfl
        | cons v rest =>
            obtain ⟨m, hm, hstar⟩ := hfollows
            by_cases hm' : m = .star
            · -- Behind the one star there is no other, and no name.
              subst hm'
              cases rest with
              | nil => cases hstar rfl
              | cons u rest =>
                  have hoperand' : u.kind.startsOperand = true := hstar rfl
                  have hu : u.kind ≠ .mark .star := fun heq => by
                    rw [heq] at hoperand'
                    cases hoperand'
                  have hu' : u.kind ≠ .identifier := by
                    simpa [beginsLikeDecl, hidentifier, hm] using hplain
                  simp [hm, hu, hu']
            · simp [hm, hm']
      · simp only [startsVarDecl, firstKind]
        split
        next p hkind => rw [hkind] at hoperand; cases hoperand
        next hkind => exact absurd hkind hidentifier
        next => rfl

theorem Word.beginsLikeDecl_append {words : List Word} (h : beginsLikeDecl words = false)
    (rest : List Word) : beginsLikeDecl (words ++ .mark .semicolon :: rest) = false := by
  match words with
  | [] => rcases rest with _ | ⟨_, _ | _⟩ <;> rfl
  | [_] => cases rest <;> simp [beginsLikeDecl, mark]
  | [_, _] => simp [beginsLikeDecl, mark]
  | _ :: _ :: _ :: _ => exact h

/-- An expression statement is not taken for a declaration. -/
theorem Expr.not_startsVarDecl (e : Expr) (rest : List Word) :
    Word.startsVarDecl (Word.enclose (Word.beginsLikeDecl e.words) e.words ++
      .mark .semicolon :: rest) = false := by
  cases hlike : Word.beginsLikeDecl e.words with
  | true => rfl
  | false =>
      have hfollows : Word.FollowsName (.mark .semicolon :: rest) := ⟨.semicolon, rfl, nofun⟩
      exact (e.beginsExpr.append hfollows).not_startsVarDecl (Word.beginsLikeDecl_append hlike rest)

/-! ## Which production is taken -/

section

variable {p : Parser Stmt} {words rest : List Word} {Q : Stmt → Prop}

theorem takes_if (hkind : Word.firstKind words = .keyword .ifWord)
    (h : Takes (ifWith p) words rest Q) : Takes (stmtWith p) words rest Q := by
  intro s hs
  have hpeek := hs.peek_kind.trans hkind
  simp only [stmtWith, hpeek]
  exact h s hs

theorem takes_return (hkind : Word.firstKind words = .keyword .returnWord)
    (h : Takes returnStmt words rest Q) : Takes (stmtWith p) words rest Q := by
  intro s hs
  have hpeek := hs.peek_kind.trans hkind
  simp only [stmtWith, hpeek]
  exact h s hs

theorem takes_block (hkind : Word.firstKind words = .mark .leftBrace)
    (h : Takes (blockWith p) words rest fun block => Q block.toStmt) :
    Takes (stmtWith p) words rest Q := by
  intro s hs
  have hpeek := hs.peek_kind.trans hkind
  simp only [stmtWith, hpeek]
  exact h.map s hs

/-- Anything else is a declaration or an expression. -/
theorem takes_plain (hkind : (Word.firstKind words).startsOperand = true ∨
      ∃ ty, Word.firstKind words = .keyword (.type ty))
    (h : Takes (if Word.startsVarDecl words then varDecl else exprStmt) words rest Q) :
    Takes (stmtWith p) words rest Q := by
  intro s hs
  have hrun : stmtWith p s = (if Word.startsVarDecl words then varDecl else exprStmt) s := by
    have hother : ∀ {kind}, s.peek.kind = kind →
        kind.startsOperand = true ∨ ∃ ty, kind = .keyword (.type ty) := by
      rintro _ rfl
      rwa [hs.peek_kind]
    unfold stmtWith
    rw [hs.startsVarDecl]
    split
    next hif => rcases hother hif with h | ⟨_, h⟩ <;> cases h
    next hreturn => rcases hother hreturn with h | ⟨_, h⟩ <;> cases h
    next hbrace => rcases hother hbrace with h | ⟨_, h⟩ <;> cases h
    next => split <;> rfl
  rw [hrun]
  exact h s hs

end

/-! ## Statements -/

theorem stops_semicolon {rest : List Word} :
    (Word.firstKind (.mark .semicolon :: rest)).Stops 0 :=
  TokenKind.stops_of_mark (by decide) (by decide) (by decide) rfl 0

theorem stops_rightParen {rest : List Word} :
    (Word.firstKind (.mark .rightParen :: rest)).Stops 0 :=
  TokenKind.stops_of_mark (by decide) (by decide) (by decide) rfl 0

/-- A value that may be missing is there. -/
theorem Expr.Printable.takes_some {e : Expr} (he : e.Printable) {rest : List Word} :
    Takes (some <$> Parser.expr) (e.words ++ .mark .semicolon :: rest) (.mark .semicolon :: rest)
      fun found => found.map Expr.bare = some e.bare :=
  Takes.map ((he.takes stops_semicolon).mono fun _ hfound => congrArg some hfound)

/-- A declaration is read as it is written. -/
theorem takes_varDecl {ty : TypeExpr} {name : Ident} {value : Option Expr}
    (hvalue : ∀ e, value = some e → e.Printable) (id : NodeId) (span : Span) {rest : List Word} :
    Takes varDecl ((Stmt.varDecl id ty name value span).words ++ rest) rest
      fun found => found.bare = .varDecl 0 ty.bare name.bare (value.map Expr.bare) {} := by
  have hend : ∀ {found : Option Expr}, found.map Expr.bare = value.map Expr.bare →
      ∀ {ty' : TypeExpr}, ty'.bare = ty.bare → ∀ {name' : Ident}, name'.name = name.name →
      Takes (do
          let stop ← expect (.mark .semicolon)
          return Stmt.varDecl (← freshId) ty' name' found (ty'.span.merge stop.span))
        (.mark .semicolon :: rest) rest
        fun found => found.bare = .varDecl 0 ty.bare name.bare (value.map Expr.bare) {} :=
    fun hfound _ hty _ hname => (takes_expect rfl).bind fun _ _ => takes_freshId.bind fun _ _ =>
      takes_pure (by simp [Stmt.bare, Ident.bare, hfound, hty, hname])
  cases value with
  | none =>
      have hwords : (Stmt.varDecl id ty name none span).words ++ rest =
          ty.words ++ .name name.name :: .mark .semicolon :: rest := by
        simp [Stmt.words]
      rw [hwords]
      refine (ty.takes_words (fun heq => by cases heq)).bind fun ty' hty =>
        takes_ident.bind fun name' hname =>
        (takes_eat_other (fun heq => by cases heq)).bind ?_
      rintro _ rfl
      refine (takes_pure (Q := (· = none)) rfl).bind fun found hfound => ?_
      exact hend (by rw [hfound]) hty hname
  | some e =>
      have hwords : (Stmt.varDecl id ty name (some e) span).words ++ rest =
          ty.words ++ .name name.name :: .mark .equal :: (e.words ++ .mark .semicolon :: rest) := by
        simp [Stmt.words]
      rw [hwords]
      refine (ty.takes_words (fun heq => by cases heq)).bind fun ty' hty =>
        takes_ident.bind fun name' hname =>
        (takes_eat rfl).bind ?_
      rintro _ rfl
      exact (hvalue e rfl).takes_some.bind fun found hfound => hend hfound hty hname

/-- So is the end of a function. -/
theorem takes_returnStmt {value : Option Expr} (hvalue : ∀ e, value = some e → e.Printable)
    (span : Span) {rest : List Word} :
    Takes returnStmt ((Stmt.ret value span).words ++ rest) rest
      fun found => found.bare = .ret (value.map Expr.bare) {} := by
  cases value with
  | none =>
      refine (takes_expect rfl).bind fun _ _ => takes_check.bind ?_
      rintro _ rfl
      refine (takes_pure (Q := (· = none)) rfl).bind fun found hfound =>
        (takes_expect rfl).bind fun _ _ => takes_pure ?_
      rw [hfound]
      rfl
  | some e =>
      have hwords : (Stmt.ret (some e) span).words ++ rest =
          .keyword .returnWord :: (e.words ++ .mark .semicolon :: rest) := by
        simp [Stmt.words]
      have hstart := e.beginsExpr.startsOperand (.mark .semicolon :: rest)
      have hgoes : (Word.firstKind (e.words ++ .mark .semicolon :: rest) ==
          .mark .semicolon) = false := by
        rw [beq_eq_false_iff_ne]
        intro heq
        rw [heq] at hstart
        cases hstart
      rw [hwords]
      refine (takes_expect rfl).bind fun _ _ => takes_check.bind ?_
      rintro _ rfl
      rw [hgoes, if_neg Bool.false_ne_true]
      exact (hvalue e rfl).takes_some.bind fun found hfound => (takes_expect rfl).bind fun _ _ =>
        takes_pure (by simpa [Stmt.bare] using hfound)

/-- An expression statement is, in parentheses if it has to be. -/
theorem takes_exprStmt {e : Expr} (he : e.Printable) (span : Span) {rest : List Word} :
    Takes exprStmt ((Stmt.expr e span).words ++ rest) rest
      fun found => found.bare = .expr e.bare {} := by
  rw [Stmt.words, List.append_assoc]
  exact (he.takes_enclosed stops_semicolon _).bind fun found hfound => (takes_expect rfl).bind
    fun _ _ => takes_pure (by rw [Stmt.bare, hfound])

/-- Statements in braces. -/
theorem takes_blockWith {p : Parser Stmt} {stmts : List Stmt} {rest : List Word}
    (hp : ∀ s ∈ stmts, ∀ behind, Word.firstKind behind ≠ .keyword .elseWord →
      (s.words ++ behind).length ≤ (Stmt.wordsOfAll stmts ++ .mark .rightBrace :: rest).length →
      Takes p (s.words ++ behind) behind fun found => found.bare = s.bare) :
    Takes (blockWith p)
      (.mark .leftBrace :: (Stmt.wordsOfAll stmts ++ .mark .rightBrace :: rest)) rest
      fun found => found.stmts.map Stmt.bare = stmts.map Stmt.bare := by
  rw [Stmt.wordsOfAll_eq_flatMap] at hp ⊢
  have hstmts : Takes (recovering closesBraces p skipStatement)
      (stmts.flatMap Stmt.words ++ .mark .rightBrace :: rest) (.mark .rightBrace :: rest)
      fun found => found.map Stmt.bare = stmts.map Stmt.bare :=
    takes_recovering (fun behind => Word.firstKind behind ≠ .keyword .elseWord) rfl rfl
      (fun heq => by cases heq)
      (fun s _ behind => TokenKind.goes_of_startsStmt (s.startsStmt behind)) hp
  exact (takes_expect rfl).bind fun _ _ => takes_freshId.bind fun _ _ => hstmts.bind
    fun found hfound => (takes_expect rfl).bind fun _ _ => takes_pure hfound

/-- Every statement that is short enough is read as it is written. -/
def ReadsStmts (p : Parser Stmt) (fuel : Nat) : Prop :=
  ∀ s : Stmt, s.Printable → ∀ rest,
    (s.endsOpen = true → Word.firstKind rest ≠ .keyword .elseWord) →
    (s.words ++ rest).length < fuel →
    Takes p (s.words ++ rest) rest fun found => found.bare = s.bare

section

variable {p : Parser Stmt} {fuel : Nat} (hp : ReadsStmts p fuel)

include hp

/-- A block of statements that are short enough. -/
theorem ReadsStmts.block {stmts : List Stmt} (hstmts : Stmt.AllPrintable stmts) {rest : List Word}
    (hlength : (Stmt.wordsOfAll stmts ++ .mark .rightBrace :: rest).length < fuel) :
    Takes (blockWith p)
      (.mark .leftBrace :: (Stmt.wordsOfAll stmts ++ .mark .rightBrace :: rest)) rest
      fun found => found.stmts.map Stmt.bare = stmts.map Stmt.bare :=
  takes_blockWith fun s hs behind hbehind hbound =>
    hp s ((Stmt.allPrintable_iff stmts).1 hstmts s hs) behind (fun _ => hbehind)
      (Nat.lt_of_le_of_lt hbound hlength)

/-- A conditional statement without an `else`, which there is none for behind it. -/
theorem ReadsStmts.ifThen {condition : Expr} {positive : Stmt} (hcondition : condition.Printable)
    (hpositive : positive.Printable) {rest : List Word}
    (helse : Word.firstKind rest ≠ .keyword .elseWord)
    (hlength : (positive.words ++ rest).length < fuel) :
    Takes (ifWith p) (.keyword .ifWord :: .mark .leftParen ::
        (condition.words ++ .mark .rightParen :: (positive.words ++ rest))) rest
      fun found => found.bare = .ifThen condition.bare positive.bare {} := by
  refine (takes_expect rfl).bind fun _ _ => (takes_expect rfl).bind fun _ _ =>
    (hcondition.takes stops_rightParen).bind fun condition' hcondition' =>
      (takes_expect rfl).bind fun _ _ =>
        (hp positive hpositive rest (fun _ => helse) hlength).bind fun positive' hpositive' =>
          (takes_eat_other helse).bind ?_
  rintro _ rfl
  exact takes_pure (by simp [Stmt.bare, hcondition', hpositive'])

/-- A conditional statement with both parts. -/
theorem ReadsStmts.ifElse {condition : Expr} {positive negative : Stmt}
    (hcondition : condition.Printable) (hpositive : positive.Printable)
    (hnegative : negative.Printable) (hclosed : positive.endsOpen = false) {rest : List Word}
    (helse : negative.endsOpen = true → Word.firstKind rest ≠ .keyword .elseWord)
    (hlength : (positive.words ++ .keyword .elseWord :: (negative.words ++ rest)).length < fuel) :
    Takes (ifWith p)
      (.keyword .ifWord :: .mark .leftParen :: (condition.words ++ .mark .rightParen ::
        (positive.words ++ .keyword .elseWord :: (negative.words ++ rest)))) rest
      fun found => found.bare = .ifElse condition.bare positive.bare negative.bare {} := by
  have hrest : (negative.words ++ rest).length < fuel := by
    simp only [List.length_append, List.length_cons] at hlength ⊢
    omega
  refine (takes_expect rfl).bind fun _ _ => (takes_expect rfl).bind fun _ _ =>
    (hcondition.takes stops_rightParen).bind fun condition' hcondition' =>
      (takes_expect rfl).bind fun _ _ => ?_
  refine (hp positive hpositive _ (by simp [hclosed]) hlength).bind fun positive' hpositive' =>
    (takes_eat rfl).bind ?_
  rintro _ rfl
  exact (hp negative hnegative rest helse hrest).bind fun negative' hnegative' =>
    takes_pure (by simp [Stmt.bare, hcondition', hpositive', hnegative'])

end

/-- **Statements are read as they are written.** -/
theorem readsStmts (fuel : Nat) : ReadsStmts (stmtUpTo fuel) fuel := by
  induction fuel with
  | zero => exact fun _ _ _ _ hlength => absurd hlength (Nat.not_lt_zero _)
  | succ fuel ih =>
      intro s hs rest helse hlength
      cases s with
      | block id stmts span =>
          have hwords : (Stmt.block id stmts span).words ++ rest =
              .mark .leftBrace :: (Stmt.wordsOfAll stmts ++ .mark .rightBrace :: rest) := by
            simp [Stmt.words]
          rw [hwords] at hlength ⊢
          refine takes_block rfl ((ih.block hs (Nat.lt_of_succ_lt_succ hlength)).mono ?_)
          intro found hfound
          simp [Block.toStmt, Stmt.bare, Stmt.bareAll_eq_map, hfound]
      | varDecl id ty name value span =>
          have hstarts : ∃ behind, (Stmt.varDecl id ty name value span).words ++ rest =
              ty.words ++ .name name.name :: behind := by
            cases value <;> exact ⟨_, by rw [Stmt.words, List.append_assoc]; rfl⟩
          obtain ⟨behind, hwords⟩ := hstarts
          refine takes_plain ?_ ?_
          · rw [hwords]
            rcases TypeExpr.kind_cases
              (rfl : Word.firstKind (ty.words ++ .name name.name :: behind) = _) with
              htype | hname
            · exact .inr htype
            · exact .inl (by rw [hname]; rfl)
          · rw [if_pos (by rw [hwords]; exact ty.startsVarDecl_words _ _)]
            exact takes_varDecl hs.2.2 id span
      | ifThen condition positive span =>
          have hwords : (Stmt.ifThen condition positive span).words ++ rest =
              .keyword .ifWord :: .mark .leftParen ::
                (condition.words ++ .mark .rightParen :: (positive.words ++ rest)) := by
            simp [Stmt.words]
          rw [hwords] at hlength ⊢
          simp only [List.length_append, List.length_cons] at hlength
          exact takes_if rfl (ih.ifThen hs.1 hs.2 (helse rfl) (by rw [List.length_append]; omega))
      | ifElse condition positive negative span =>
          obtain ⟨hcondition, hpositive, hnegative, hclosed⟩ := hs
          have hwords : (Stmt.ifElse condition positive negative span).words ++ rest =
              .keyword .ifWord :: .mark .leftParen :: (condition.words ++ .mark .rightParen ::
                (positive.words ++ .keyword .elseWord :: (negative.words ++ rest))) := by
            simp [Stmt.words]
          rw [hwords] at hlength ⊢
          refine takes_if rfl (ih.ifElse hcondition hpositive hnegative hclosed helse ?_)
          simp only [List.length_append, List.length_cons] at hlength ⊢
          omega
      | ret value span =>
          refine takes_return ?_ (takes_returnStmt hs span)
          cases value <;> rfl
      | expr e span =>
          have hplain := e.not_startsVarDecl rest
          have hoperand := (e.beginsExpr.enclose (Word.beginsLikeDecl e.words)).startsOperand
            (.mark .semicolon :: rest)
          have hwords : (Stmt.expr e span).words ++ rest =
              Word.enclose (Word.beginsLikeDecl e.words) e.words ++ .mark .semicolon :: rest := by
            simp [Stmt.words]
          refine takes_plain (.inl (by rw [hwords]; exact hoperand)) ?_
          rw [hwords, hplain, if_neg Bool.false_ne_true, ← hwords]
          exact takes_exprStmt hs span

/-- A block is read as it is written. -/
theorem Block.takes {body : Block} (hbody : Stmt.AllPrintable body.stmts) {rest : List Word} :
    Takes block (body.words ++ rest) rest fun found => found.bare = body.bare := by
  have hwords : body.words ++ rest =
      .mark .leftBrace :: (Stmt.wordsOfAll body.stmts ++ .mark .rightBrace :: rest) := by
    simp [Block.words, Block.toStmt, Stmt.words]
  rw [hwords]
  refine (takes_blockWith fun s hs behind hbehind _ => takes_bounded fun fuel hlength => ?_).mono ?_
  · exact readsStmts fuel s ((Stmt.allPrintable_iff _).1 hbody s hs) behind (fun _ => hbehind)
      hlength
  · intro found hfound
    simp [Block.bare, hfound]

end ClassLang
