import ClassLang.Proofs.Syntax.Descent
import ClassLang.Proofs.Syntax.Reports

/-!
# Reading ends

Every loop and every recursion of the parser is written down as a body with calls and without
a count of rounds.  Each of them goes down: the body reads a token in front of each call, be it
by a value, by skipping, or as a separator.  So the counts of the parser are never used up, and
a parser without counts that solves the same equations does the same.

For the lists that go on after errors this is the difficult part: a value that cannot be read may
have read nothing, and skipping may stop at once.  `Rounds` says that both do not happen together.
-/

namespace ClassLang

namespace Parser

/-! ## Bodies of loops -/

section

variable {α : Type}

/-- One more star behind a type. -/
def starsBody (calls : TypeExpr → Parser TypeExpr) (ty : TypeExpr) : Parser TypeExpr := do
  let token ← peek
  if ← eat (.mark .star) then
    calls { ty with depth := ty.depth + 1, span := ty.span.merge token.span }
  else
    return ty

/-- One more value, and others if there is a comma. -/
def separatedBody (p : Parser α) (calls : Unit → Parser (List α)) (_ : Unit) :
    Parser (List α) := do
  let first ← p
  if ← eat (.mark .comma) then
    return first :: (← calls ())
  else
    return [first]

/-- One more value, unless the list ends. -/
def manyBody (stop : TokenKind → Bool) (p : Parser α) (calls : Unit → Parser (List α))
    (_ : Unit) : Parser (List α) := do
  if stop (← peek).kind then
    return []
  else
    let first ← p
    return first :: (← calls ())

/-- One more value or an error behind which reading goes on, unless the list ends. -/
def recoveringBody (stop : TokenKind → Bool) (p : Parser α) (skip : Parser Unit)
    (calls : Unit → Parser (List α)) (_ : Unit) : Parser (List α) := do
  if stop (← peek).kind then
    return []
  else
    let value ← attempt p skip
    return value.toList ++ (← calls ())

/-- One more parameter, or the dots behind all of them. -/
def paramsBody (isExternal : Bool) (calls : Unit → Parser (List Param × Bool)) (_ : Unit) :
    Parser (List Param × Bool) := do
  let token ← peek
  if ← eat (.mark .ellipsis) then
    if isExternal then
      if ← check (.mark .rightParen) then return ([], true)
      else
        let found ← peek
        fail (.variadicNotLast found.span found.describe)
    else fail (.variadicBody token.span)
  else
    let first ← param
    if ← eat (.mark .comma) then
      let (rest, variadic) ← calls ()
      return (first :: rest, variadic)
    else
      return ([first], false)

/-- One more member or call behind an object. -/
def suffixesBody (expr : Parser Expr) (calls : Expr → Parser Expr) (object : Expr) :
    Parser Expr := do
  if ← eat (.mark .dot) then
    let name ← ident
    if ← check (.mark .leftParen) then
      let (args, close) ← arguments expr
      let id ← freshId
      calls (.methodCall id object name args (object.span.merge close))
    else
      let id ← freshId
      calls (.member id object name (object.span.merge name.span))
  else
    return object

/-- One more operator with its right side. -/
def operatorsBody (expr : Nat → Parser Expr) (power : Nat) (calls : Expr → Parser Expr)
    (left : Expr) : Parser Expr := do
  let token ← peek
  if token.kind = .mark .equal then
    if assignPower.1 < power then return left
    else if left.isPlace then
      let _ ← advance
      let value ← expr assignPower.2
      let id ← freshId
      calls (.assign id left value (left.span.merge value.span))
    else fail (.notAssignable left.span)
  else
    match token.kind.operator? with
    | none => return left
    | some op =>
      if op.power.1 < power then return left
      else
        let _ ← advance
        let right ← expr op.power.2
        let id ← freshId
        calls (.binary id op left right (left.span.merge right.span))

/-- An expression, with calls for those inside it. -/
def exprBody (calls : Nat → Parser Expr) (power : Nat) : Parser Expr := do
  let head ← primary (calls 0)
  let operand ← bounded (suffixesUpTo (calls 0) · head)
  bounded (operatorsUpTo calls power · operand)

/-- A statement, with calls for those inside it. -/
def stmtBody (calls : Unit → Parser Stmt) (_ : Unit) : Parser Stmt := stmtWith (calls ())

/-- One token on the way to the next statement, when `depth` braces are open. -/
def skipStatementBody (calls : Nat → Parser Unit) (depth : Nat) : Parser Unit := do
  match (← peek).kind with
  | .eof => return
  | .mark .leftBrace => advance *> calls (depth + 1)
  | .mark .rightBrace =>
    match depth with
    | 0 => return
    | 1 => advance *> pure ()
    | depth + 1 => advance *> calls depth
  | .mark .semicolon => if depth = 0 then advance *> pure () else advance *> calls depth
  | _ => advance *> calls depth

/-- One token on the way to the next top-level declaration, when `depth` braces are open. -/
def skipItemBody (calls : Nat → Parser Unit) (depth : Nat) : Parser Unit := do
  match (← peek).kind with
  | .eof => return
  | .keyword .classWord | .keyword .structWord | .keyword .externWord =>
    if depth = 0 then return else advance *> calls depth
  | .mark .leftBrace => advance *> calls (depth + 1)
  | .mark .rightBrace =>
    if depth ≤ 1 then advance *> pure () else advance *> calls (depth - 1)
  | .mark .semicolon => if depth = 0 then advance *> pure () else advance *> calls depth
  | _ => advance *> calls depth

end

/-! ## Bodies of the parser's loops -/

/-- The stars of a type are a loop by the number of rounds. -/
theorem fuelled_stars : Fuelled starsBody starsUpTo := ⟨fun _ => rfl, fun _ _ => rfl⟩

/-- What is separated by commas is a loop by the number of rounds. -/
theorem fuelled_separated {α : Type} (p : Parser α) :
    Fuelled (separatedBody p) fun fuel _ => separatedUpTo p fuel :=
  ⟨fun _ => rfl, fun _ _ => rfl⟩

/-- The repetition is a loop by the number of rounds. -/
theorem fuelled_many {α : Type} (stop : TokenKind → Bool) (p : Parser α) :
    Fuelled (manyBody stop p) fun fuel _ => manyUpTo stop p fuel :=
  ⟨fun _ => rfl, fun _ _ => rfl⟩

/-- The repetition that recovers is a loop by the number of rounds. -/
theorem fuelled_recovering {α : Type} (stop : TokenKind → Bool) (p : Parser α)
    (skip : Parser Unit) :
    Fuelled (recoveringBody stop p skip) fun fuel _ => recoveringUpTo stop p skip fuel :=
  ⟨fun _ => rfl, fun _ _ => rfl⟩

/-- The parameters are a loop by the number of rounds. -/
theorem fuelled_params (isExternal : Bool) :
    Fuelled (paramsBody isExternal) fun fuel _ => paramsUpTo isExternal fuel :=
  ⟨fun _ => rfl, fun _ _ => rfl⟩

/-- The suffixes of an operand are a loop by the number of rounds. -/
theorem fuelled_suffixes (e : Parser Expr) : Fuelled (suffixesBody e) (suffixesUpTo e) :=
  ⟨fun _ => rfl, fun _ _ => rfl⟩

/-- The operators behind an operand are a loop by the number of rounds. -/
theorem fuelled_operators (e : Nat → Parser Expr) (power : Nat) :
    Fuelled (operatorsBody e power) (operatorsUpTo e power) :=
  ⟨fun _ => rfl, fun _ _ => rfl⟩

/-- Expressions are a recursion by the depth allowed. -/
theorem fuelled_expr : Fuelled exprBody exprUpTo := ⟨fun _ => rfl, fun _ _ => rfl⟩

/-- Statements are a recursion by the depth allowed. -/
theorem fuelled_stmt : Fuelled stmtBody fun fuel _ => stmtUpTo fuel :=
  ⟨fun _ => rfl, fun _ _ => rfl⟩

/-! ## Single tokens -/

section

variable {k : Nat} {now : Prop}

/-- The end of the tokens is not inside. -/
theorem not_isInner_eof : ¬ TokenKind.IsInner .eof := fun h => h.2.2 rfl

/-- The same token is expected on both sides. -/
theorem agree_expect (kind : TokenKind) (hkind : AnyKind kind) :
    Agree k now (expect kind) (expect kind) :=
  agree_of_runs (A := AnyKind) (runs_expect hkind) fun h => h rfl

/-- The same mark is expected on both sides. -/
theorem agree_expect_mark (mark : Mark) :
    Agree k now (expect (.mark mark)) (expect (.mark mark)) :=
  agree_expect (.mark mark) nofun

/-- The same name is read on both sides. -/
theorem agree_ident : Agree k now ident ident :=
  agree_of_runs (A := AnyKind) (runs_ident nofun) fun h => h rfl

/-- The same number is taken on both sides; it consumes nothing. -/
theorem agree_freshId : Agree k False freshId freshId :=
  agree_of_runs (A := AnyKind) runs_freshId fun h => h rfl

end

/-! ## Lists -/

section

variable {α : Type} {k : Nat} {p q : Parser α}

/-- Each star is consumed before the next round. -/
theorem descends_starsBody : Descends starsBody := by
  intro k calls calls' hcalls ty s hended hs
  exact agreeFrom_peek (agreeFrom_eat nofun hended hs (hcalls _) (agreeFrom_pure hended ty))

/-- One round of a separated list agrees where its parts do. -/
theorem agree_separatedBody (hp : Agree (k + 1) False p q) {calls calls' : Unit → Parser (List α)}
    (hcalls : ∀ j, Agree k False (calls j) (calls' j)) (i : Unit) :
    Agree (k + 1) False (separatedBody p calls i) (separatedBody q calls' i) := by
  refine hp.next fun first => agree_eat nofun ?_ (agree_pure _)
  exact (hcalls ()).next fun rest => agree_pure _

/-- Separated lists agree where their parts do. -/
theorem agree_separated (hp : Agree k False p q) : Agree k False (separated p) (separated q) := by
  cases k with
  | zero => exact fun s _ hs => absurd hs (Nat.not_lt_zero _)
  | succ k =>
      refine (fuelled_separated p).agree (fuelled_separated q) ?_ ()
      intro calls calls' hcalls i
      exact agree_separatedBody hp (fun j => (hcalls j).mono (Nat.le_succ k) id) i

/-- Each comma is consumed before the next round. -/
theorem descends_separatedBody (hp : ∀ k, Agree k False p p) : Descends (separatedBody p) :=
  fun k _ _ hcalls i => agree_separatedBody (hp (k + 1)) hcalls i

/-- Each part of a repetition is consumed before the next round. -/
theorem descends_manyBody {stop : TokenKind → Bool} (hp : ∀ k, Agree k True p p) :
    Descends (manyBody stop p) := by
  intro k calls calls' hcalls i s hended hs
  refine agreeFrom_peek ?_
  split
  · exact agreeFrom_pure hended []
  · exact (hp (k + 1) s hended hs).behind hs fun first => (hcalls ()).next fun rest => agree_pure _

/-- What is read or skipped in a round is not read again. -/
theorem agreeFrom_attempt {s : ParserState} {skip : Parser Unit} {after : List Token → List Token}
    (hskip : Skips skip after) (hafter : ∀ tokens, after tokens <:+ tokens)
    (hp : AgreeFrom False s p q) : AgreeFrom False s (attempt p skip) (attempt q skip) := by
  obtain ⟨hsame, hended, hshrinks, -⟩ := hp
  have hattempt : attempt p skip s = attempt q skip s := by
    unfold attempt
    rw [hsame]
  cases hend : q s with
  | ok a mid =>
      have hok : attempt q skip s = .ok (some a) mid := attempt_of_ok hend
      rw [hend] at hended hshrinks
      exact ⟨hattempt, hok ▸ hended, hok ▸ hshrinks, False.elim⟩
  | fail error mid =>
      have hok := attempt_of_fail (p := q) hskip hend
      rw [hend] at hended hshrinks
      refine ⟨hattempt, ?_, ?_, False.elim⟩
      · rw [hok]
        exact hended.suffix rfl (hafter mid.tokens)
      · rw [hok]
        exact Nat.le_trans (hafter mid.tokens).length_le hshrinks

/-- Repetitions that recover agree where their parts do. -/
theorem agree_recovering {stop : TokenKind → Bool} {skip : Parser Unit}
    {after : List Token → List Token} (hskip : Skips skip after)
    (hafter : ∀ tokens, after tokens <:+ tokens) (hp : Agree k False p q) :
    Agree k False (recovering stop p skip) (recovering stop q skip) := by
  refine (fuelled_recovering stop p skip).agree (fuelled_recovering stop q skip) ?_ ()
  intro calls calls' hcalls i s hended hs
  refine agreeFrom_peek ?_
  split
  · exact agreeFrom_pure hended []
  · exact (agreeFrom_attempt hskip hafter (hp s hended hs)).next hs fun value =>
      (hcalls ()).next fun rest => agree_pure _

/-- **Rounds that take a token each end the list.** -/
theorem Rounds.descends {stop : TokenKind → Bool} {skip : Parser Unit}
    (h : Rounds stop p skip ParserState.Ended) : Descends (recoveringBody stop p skip) := by
  intro k calls calls' hcalls i s hended hs
  refine agreeFrom_peek ?_
  cases hstop : stop s.peek.kind with
  | true => exact agreeFrom_pure hended []
  | false =>
      obtain ⟨found, mid, hok, hended', hlt⟩ := h s hended hstop
      have hround : AgreeFrom True s (attempt p skip) (attempt p skip) := by
        refine ⟨rfl, hok ▸ hended', hok ▸ Nat.le_of_lt hlt, fun _ {_ _} hok' => ?_⟩
        cases hok.symm.trans hok'
        exact hlt
      exact hround.behind hs fun value => (hcalls ()).next fun rest => agree_pure _

/-- Each parameter is consumed before the next round. -/
theorem descends_paramsBody (isExternal : Bool) : Descends (paramsBody isExternal) := by
  intro k calls calls' hcalls i s hended hs
  refine agreeFrom_peek (agreeFrom_eat nofun hended hs ?_ ?_)
  · cases isExternal with
    | false => exact fun s' hended' _ => agreeFrom_fail hended' _
    | true =>
        refine agree_check fun closed => ?_
        cases closed with
        | true => exact agree_pure _
        | false => exact fun s' hended' _ => agreeFrom_peek (agreeFrom_fail hended' _)
  · have hparam : Agree (k + 1) False param param := agree_of_runs runs_param not_isInner_eof
    refine (hparam s hended hs).next hs fun first => agree_eat nofun ?_ (agree_pure _)
    exact (hcalls ()).next fun result => agree_pure _

end

/-! ## Expressions -/

section

variable {k : Nat} {e e' : Parser Expr}

/-- Argument lists agree where their expressions do. -/
theorem agree_arguments (he : Agree k False e e') : Agree k False (arguments e) (arguments e') := by
  refine (agree_expect_mark _).next fun _ => agree_check fun empty => ?_
  have hclose : ∀ args : List Expr, Agree k False
      (do let close ← expect (.mark .rightParen); return (args, close.span))
      (do let close ← expect (.mark .rightParen); return (args, close.span)) := fun args =>
    (agree_expect_mark _).next fun _ => agree_pure _
  cases empty with
  | true => exact hclose []
  | false => exact (agree_separated he).next hclose

/-- In front of the expressions inside a primary one a token is read. -/
theorem agree_primary (he : Agree k False e e') : Agree (k + 1) True (primary e) (primary e') := by
  intro s hended hs
  refine agreeFrom_peek ?_
  have hliteral : ∀ value, s.peek.kind.IsInner →
      AgreeFrom True s (literal value) (literal value) := fun value hinner =>
    agreeFrom_of_runsAt (runsAt_literal value hinner) not_isInner_eof hended
  split
  · next hkind =>
      simp only
      split
      · exact hliteral _ (by rw [hkind]; exact ⟨nofun, nofun, nofun⟩)
      · exact agreeFrom_fail hended _
  · next value hkind => exact hliteral _ (by rw [hkind]; exact ⟨nofun, nofun, nofun⟩)
  · next hkind => exact hliteral _ (by rw [hkind]; exact ⟨nofun, nofun, nofun⟩)
  · refine (agree_ident s hended hs).behind hs fun name => agree_check fun isCall => ?_
    cases isCall with
    | true => exact (agree_arguments he).next fun result => agree_freshId.next fun id =>
        agree_pure _
    | false => exact agree_freshId.next fun id => agree_pure _
  · next hkind =>
      refine (agreeFrom_advance hended (by rw [hkind]; nofun)).behind hs fun _ => ?_
      exact he.next fun inner => (agree_expect_mark _).next fun _ => agree_pure _
  · exact agreeFrom_fail hended _
  · exact agreeFrom_fail hended _

/-- One round of suffixes agrees where the expressions do. -/
theorem agree_suffixesBody (he : Agree k False e e') {calls calls' : Expr → Parser Expr}
    (hcalls : ∀ o, Agree k False (calls o) (calls' o)) (object : Expr) :
    Agree (k + 1) False (suffixesBody e calls object) (suffixesBody e' calls' object) := by
  refine agree_eat nofun ?_ (agree_pure _)
  refine agree_ident.next fun name => agree_check fun isCall => ?_
  cases isCall with
  | true => exact (agree_arguments he).next fun result => agree_freshId.next fun id => hcalls _
  | false => exact agree_freshId.next fun id => hcalls _

/-- One round of operators agrees where the operands do. -/
theorem agree_operatorsBody {e e' : Nat → Parser Expr}
    (he : ∀ power, Agree k False (e power) (e' power)) (power : Nat)
    {calls calls' : Expr → Parser Expr}
    (hcalls : ∀ left, Agree k False (calls left) (calls' left)) (left : Expr) :
    Agree (k + 1) False (operatorsBody e power calls left)
      (operatorsBody e' power calls' left) := by
  intro s hended hs
  refine agreeFrom_peek ?_
  split
  · next hequal =>
      split
      · exact agreeFrom_pure hended left
      · split
        · refine (agreeFrom_advance hended (by rw [hequal]; nofun)).behind hs fun _ => ?_
          exact (he _).next fun value => agree_freshId.next fun id => hcalls _
        · exact agreeFrom_fail hended _
  · split
    · exact agreeFrom_pure hended left
    · next op hop =>
        split
        · exact agreeFrom_pure hended left
        · have hkind : s.peek.kind ≠ .eof := (TokenKind.IsInner.of_operator hop).2.2
          refine (agreeFrom_advance hended hkind).behind hs fun _ => ?_
          exact (he _).next fun right => agree_freshId.next fun id => hcalls _

/-- Each suffix is consumed before the next round. -/
theorem descends_suffixesBody (he : Shrinks e) : Descends (suffixesBody e) :=
  fun _ _ _ hcalls => agree_suffixesBody he.agree hcalls

/-- Each operator is consumed before the next round. -/
theorem descends_operatorsBody {e : Nat → Parser Expr} (he : ∀ power, Shrinks (e power))
    (power : Nat) : Descends (operatorsBody e power) :=
  fun _ _ _ hcalls => agree_operatorsBody (fun power => (he power).agree) power hcalls

/-- The suffixes agree where the expressions do. -/
theorem agree_suffixes (he : Agree k False e e') (object : Expr) :
    Agree k False (bounded (suffixesUpTo e · object)) (bounded (suffixesUpTo e' · object)) := by
  refine (fuelled_suffixes e).agree (fuelled_suffixes e') ?_ object
  intro calls calls' hcalls o
  exact (agree_suffixesBody he hcalls o).mono (Nat.le_succ k) id

/-- The operators agree where the operands do. -/
theorem agree_operators {e e' : Nat → Parser Expr}
    (he : ∀ power, Agree k False (e power) (e' power))
    (power : Nat) (left : Expr) : Agree k False (bounded (operatorsUpTo e power · left))
      (bounded (operatorsUpTo e' power · left)) := by
  refine (fuelled_operators e power).agree (fuelled_operators e' power) ?_ left
  intro calls calls' hcalls o
  exact (agree_operatorsBody he power hcalls o).mono (Nat.le_succ k) id

/-- An expression consumes a token before it reads an expression inside it. -/
theorem descends_exprBody : Descends exprBody := by
  intro k calls calls' hcalls power
  refine (agree_primary (hcalls 0)).behind fun head => ?_
  exact (agree_suffixes (hcalls 0) head).next fun operand => agree_operators hcalls power operand

end

/-! ## Statements -/

section

variable {k : Nat} {p q : Parser Stmt}

/-- Blocks agree where their statements do. -/
theorem agree_blockWith (hp : Agree k False p q) :
    Agree (k + 1) False (blockWith p) (blockWith q) := by
  refine (agree_expect_mark _).behind fun start => agree_freshId.next fun id => ?_
  refine (agree_recovering skips_skipStatement (afterStatement_suffix 0) hp).next fun stmts => ?_
  exact (agree_expect_mark _).next fun stop => agree_pure _

/-- Conditional statements agree where their statements do. -/
theorem agree_ifWith (hp : Agree k False p q) : Agree (k + 1) False (ifWith p) (ifWith q) := by
  refine (agree_expect (.keyword .ifWord) nofun).behind fun start => ?_
  have hcondition : Agree k False expr expr := agree_of_runs runs_expr not_isInner_eof
  refine (agree_expect_mark _).next fun _ => hcondition.next fun condition => ?_
  refine (agree_expect_mark _).next fun _ => hp.next fun positive =>
    agree_eat_next nofun fun more => ?_
  cases more with
  | true => exact hp.next fun negative => agree_pure _
  | false => exact agree_pure _

/-- A statement consumes a token before it reads a statement inside it. -/
theorem descends_stmtBody : Descends stmtBody := by
  intro k calls calls' hcalls i s hended hs
  have hp : Agree k False (calls ()) (calls' ()) := hcalls ()
  have hblock : Agree (k + 1) False (Block.toStmt <$> blockWith (calls ()))
      (Block.toStmt <$> blockWith (calls' ())) := (agree_blockWith hp).map
  have hreturn : Agree (k + 1) False returnStmt returnStmt :=
    agree_of_runs runs_returnStmt not_isInner_eof
  have hvarDecl : Agree (k + 1) False varDecl varDecl :=
    agree_of_runs runs_varDecl not_isInner_eof
  have hexpr : Agree (k + 1) False exprStmt exprStmt := agree_of_runs runs_exprStmt not_isInner_eof
  have hsplit : ∃ p q : Parser Stmt, Agree (k + 1) False p q ∧ stmtWith (calls ()) s = p s ∧
      stmtWith (calls' ()) s = q s := by
    simp only [stmtWith]
    split
    · exact ⟨_, _, agree_ifWith hp, rfl, rfl⟩
    · exact ⟨_, _, hreturn, rfl, rfl⟩
    · exact ⟨_, _, hblock, rfl, rfl⟩
    · split
      · exact ⟨_, _, hvarDecl, rfl, rfl⟩
      · exact ⟨_, _, hexpr, rfl, rfl⟩
  obtain ⟨p, q, hagree, hsame, hsame'⟩ := hsplit
  exact (hagree s hended hs).congr hsame hsame'

end

/-! ## Skipping -/

/-- The parser that leaves what `after` gives of the tokens. -/
def skipTo (after : List Token → List Token) : Parser Unit := fun s =>
  .ok () { s with tokens := after s.tokens }

/-- Skipping a statement ends, at the place where the statement ends. -/
theorem ends_skipStatementBody :
    Ends skipStatementBody fun depth => skipTo (afterStatement depth) := by
  intro depth s hended calls hcalls
  obtain ⟨_ | ⟨⟨kind, lexeme, span⟩, rest⟩, ⟨eofKind, eofLexeme, eofSpan⟩, nextId, errors⟩ := s
  · obtain rfl : eofKind = .eof := hended.eof
    rfl
  · -- All calls are made behind the first token.
    have hcall : ∀ j, calls j _ = _ := fun j => hcalls j _ hended.skip (Nat.lt_succ_self _)
    have hkind : kind ≠ .eof := hended.tokens _ (List.mem_cons_self ..)
    cases kind with
    | eof => exact absurd rfl hkind
    | mark mark =>
        cases mark with
        | leftBrace => exact hcall (depth + 1)
        | rightBrace =>
            match depth with
            | 0 => rfl
            | 1 => rfl
            | depth + 2 => exact hcall (depth + 1)
        | semicolon =>
            cases depth with
            | zero => rfl
            | succ depth => exact hcall (depth + 1)
        | _ => exact hcall depth
    | _ => exact hcall depth

/-- Skipping an item ends, at the place where the item ends. -/
theorem ends_skipItemBody : Ends skipItemBody fun depth => skipTo (afterItem depth) := by
  intro depth s hended calls hcalls
  obtain ⟨_ | ⟨⟨kind, lexeme, span⟩, rest⟩, ⟨eofKind, eofLexeme, eofSpan⟩, nextId, errors⟩ := s
  · obtain rfl : eofKind = .eof := hended.eof
    rfl
  · have hcall : ∀ j, calls j _ = _ := fun j => hcalls j _ hended.skip (Nat.lt_succ_self _)
    have hkind : kind ≠ .eof := hended.tokens _ (List.mem_cons_self ..)
    cases kind with
    | eof => exact absurd rfl hkind
    | keyword word =>
        cases word with
        | classWord | structWord | externWord =>
            cases depth with
            | zero => rfl
            | succ depth => exact hcall (depth + 1)
        | _ => exact hcall depth
    | mark mark =>
        cases mark with
        | leftBrace => exact hcall (depth + 1)
        | rightBrace =>
            match depth with
            | 0 => rfl
            | 1 => rfl
            | depth + 2 => exact hcall (depth + 1)
        | semicolon =>
            cases depth with
            | zero => rfl
            | succ depth => exact hcall (depth + 1)
        | _ => exact hcall depth
    | _ => exact hcall depth

/-! ## Everything ends -/

/-- Every loop and every recursion of the parser ends. -/
structure LoopsEnd : Prop where
  items : Ends (recoveringBody (· == .eof) item skipItem) fun _ => items
  members : Ends (recoveringBody closesBraces classMember skipStatement) fun _ =>
    recovering closesBraces classMember skipStatement
  fields : Ends (manyBody closesBraces fieldDecl) fun _ => many closesBraces fieldDecl
  stmts : Ends (recoveringBody closesBraces stmt skipStatement) fun _ =>
    recovering closesBraces stmt skipStatement
  skipStatement : Ends skipStatementBody fun depth => skipTo (afterStatement depth)
  skipItem : Ends skipItemBody fun depth => skipTo (afterItem depth)
  stmt : Ends stmtBody fun _ => stmt
  expr : Ends exprBody exprFrom
  stars : Ends starsBody fun ty => bounded (starsUpTo · ty)
  params : ∀ isExternal, Ends (paramsBody isExternal) fun _ => bounded (paramsUpTo isExternal)
  shrinks : ∀ power, Shrinks (exprFrom power)
  arguments : ∀ e : Parser Expr, Shrinks e → Ends (separatedBody e) fun _ => separated e
  suffixes : ∀ e : Parser Expr, Shrinks e →
    Ends (suffixesBody e) fun object => bounded (suffixesUpTo e · object)
  operators : ∀ e : Nat → Parser Expr, (∀ power, Shrinks (e power)) → ∀ power,
    Ends (operatorsBody e power) fun left => bounded (operatorsUpTo e power · left)

/-- **Every loop ends**: each function that takes a number of rounds solves an equation
without one. -/
theorem loops_end : LoopsEnd where
  items := rounds_item.descends.ends (fuelled_recovering _ _ _)
  members := (rounds_statement runs_classMember).descends.ends (fuelled_recovering _ _ _)
  fields := (descends_manyBody fun _ => agree_of_runs runs_fieldDecl not_isInner_eof).ends
    (fuelled_many _ _)
  stmts := (rounds_statement runs_stmt).descends.ends (fuelled_recovering _ _ _)
  skipStatement := ends_skipStatementBody
  skipItem := ends_skipItemBody
  stmt := descends_stmtBody.ends fuelled_stmt
  expr := descends_exprBody.ends fuelled_expr
  stars := descends_starsBody.ends fuelled_stars
  params := fun isExternal => (descends_paramsBody isExternal).ends (fuelled_params isExternal)
  shrinks := by
    intro power s hended
    have hruns : Runs 0 [] TokenKind.IsInner False (Expr.shifted 0) (exprFrom power)
        (exprFrom power) := runs_bounded fun fuel => runs_exprUpTo fuel power
    exact ⟨hruns.ended hended, (hruns.suffix hended).length_le⟩
  arguments := fun e he => (descends_separatedBody fun _ => he.agree).ends (fuelled_separated e)
  suffixes := fun e he => (descends_suffixesBody he).ends (fuelled_suffixes e)
  operators := fun e he power => (descends_operatorsBody he power).ends (fuelled_operators e power)

/-- A field takes a token, or the list of fields is left with its error. -/
theorem field_round {s : ParserState} (hended : s.Ended)
    (hstop : closesBraces s.peek.kind = false) :
    (∃ field s', fieldDecl s = .ok field s' ∧ s'.Ended ∧ s'.tokens.length < s.tokens.length) ∨
      ∃ error s', fieldDecl s = .fail error s' ∧
        many closesBraces fieldDecl s = .fail error s' := by
  have hfield : AgreeFrom True s fieldDecl fieldDecl :=
    agreeFrom_of_runsAt (runs_fieldDecl s.peek) not_isInner_eof hended
  cases hend : fieldDecl s with
  | ok field s' =>
      have hended' := hfield.ended
      rw [hend] at hended'
      exact .inl ⟨field, s', rfl, hended', hfield.takes trivial hend⟩
  | fail error s' =>
      refine .inr ⟨error, s', rfl, ?_⟩
      have hpeek : peek s = .ok s.peek s := rfl
      have hmany : many closesBraces fieldDecl s =
          manyUpTo closesBraces fieldDecl (s.tokens.length + 1) s := rfl
      rw [hmany, manyUpTo, bind_of_ok hpeek, if_neg (by simp [hstop]), bind_of_fail hend]

/-- **Reading ends, at the end of the source.**  A round of a list that goes on after errors takes a
token whether its value can be read or not, and a field takes one or ends the list.  All loops and
recursions end, those that skip included, so that every source is read until its stream is at the
end mark. -/
theorem reading_ends :
    Rounds (· == .eof) item skipItem ParserState.Ended ∧
    Rounds closesBraces classMember skipStatement ParserState.Ended ∧
    Rounds closesBraces stmt skipStatement ParserState.Ended ∧
    (∀ s : ParserState, s.Ended → closesBraces s.peek.kind = false →
      (∃ field s', fieldDecl s = .ok field s' ∧ s'.Ended ∧ s'.tokens.length < s.tokens.length) ∨
        ∃ error s', fieldDecl s = .fail error s' ∧
          many closesBraces fieldDecl s = .fail error s') ∧
    LoopsEnd ∧
    ∀ source : String, ∃ found rest, items (.ofSource source) = .ok found rest ∧
      rest.tokens = [] ∧ (∃ stream, TokenStream.Shows source stream rest) ∧
      ∀ stream, TokenStream.Shows source stream rest → stream.peek.1.kind = .eof := by
  refine ⟨rounds_item, rounds_statement runs_classMember, rounds_statement runs_stmt,
    fun s => field_round, loops_end, fun source => ?_⟩
  obtain ⟨found, rest, hitems, htokens, heof⟩ := items_ends (ParserState.ended_ofSource source)
  refine ⟨found, rest, hitems, htokens, ?_, fun stream hstream => ?_⟩
  · have hnone : [] <:+ (lex source).tokens := List.nil_suffix
    obtain ⟨stream, hstream⟩ := TokenStream.shows_suffix hnone
    exact ⟨stream, hstream.own htokens heof⟩
  · rw [(hstream.takeErrors htokens).1, heof]
    rfl

-- Neither item can be read, and what follows it is skipped to the end.
example : (match items (.ofSource "class x struct f") with
    | .ok found rest => (found.length, rest.tokens.length, rest.errors.length)
    | .fail _ _ => (0, 0, 0)) = (0, 0, 2) := by
  decide +kernel

end Parser

end ClassLang
