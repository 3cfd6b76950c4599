import ClassLang.Proofs.Syntax.Collecting
import ClassLang.Proofs.Syntax.Reports

/-!
# The places in a tree

Every node of a tree has a place that starts with the first token of the node and reaches to the end
of the last one, and no place overflows: `Script.read_places`.  Both are one claim about each
production.  The places that it merges are those of tokens and nodes that stand in this order, so
that the merged place is that of all of them and the numbers stay small; this is why the parser is
followed together with the one that checks its arithmetic.

There is one lemma for each production, in the order of the grammar.  They differ in which pieces
are merged, and in what is in front of the first piece: parentheses around a left operand are
neither part of the operand nor of the operation.
-/

namespace ClassLang

variable {source : List Char} {clean : Prop} {overflow : Parser Span}

/-! ## Parentheses -/

namespace Wrapped

variable {W : Writing} {node : Node} {opens core closes : List Token}

/-- What is written without parentheses around it is wrapped in none. -/
theorem of_written (h : W node opens core closes) : Wrapped W node opens core closes := by
  have hnone : ∀ kind, ∀ t ∈ ([] : List Token), t.kind = kind := fun _ => List.forall_mem_nil _
  have hwrapped := Wrapped.intro h (hnone _) (hnone _) rfl
  rwa [List.append_nil] at hwrapped

/-- One more pair of parentheses. -/
theorem parens {l r : Token} (h : Wrapped W node opens core closes) (hl : l.kind = .mark .leftParen)
    (hr : r.kind = .mark .rightParen) : Wrapped W node (l :: opens) core (closes ++ [r]) := by
  obtain ⟨hwritten, hlefts, hrights, hlength⟩ := h
  rw [List.append_assoc, ← List.cons_append]
  refine .intro hwritten (List.forall_mem_cons.2 ⟨hl, hlefts⟩) ?_ (by simp [hlength])
  rintro t ht
  rcases List.mem_append.1 ht with ht | ht
  · exact hrights t ht
  · rw [List.mem_singleton.1 ht, hr]

/-- The place of a wrapped node covers its core. -/
theorem covers (h : Wrapped (Node.Written source clean) node opens core closes) :
    node.span.Covers source core := by
  obtain ⟨hwritten, -⟩ := h
  exact hwritten.covers

end Wrapped

/-- An expression with the parentheses around it. -/
abbrev Expr.WrittenAs (source : List Char) (clean : Prop) (e : Expr) : List Token → Prop :=
  ClassLang.WrittenAs (Wrapped (Node.Written source clean)) (.expr e)

/-- A node with no parentheses around it. -/
abbrev Node.WrittenBare (source : List Char) (clean : Prop) (node : Node) (tokens : List Token) :
    Prop :=
  Node.Written source clean node [] tokens []

/-- A node without parentheses around it is written as it stands. -/
theorem Node.WrittenBare.writtenAs {node : Node} {tokens : List Token}
    (h : node.WrittenBare source clean tokens) :
    ClassLang.WrittenAs (Node.Written source clean) node tokens :=
  ⟨[], tokens, [], by simp, h⟩

/-- A member of a class, with its tokens. -/
abbrev ClassMember.IsWritten (source : List Char) (clean : Prop) (member : ClassMember) :
    List Token → Prop :=
  member.node.WrittenBare source clean

/-- An item, with its tokens. -/
abbrev Item.IsWritten (source : List Char) (clean : Prop) (item : Item) : List Token → Prop :=
  item.node.WrittenBare source clean

/-- An expression without parentheses around it is written as it stands. -/
theorem Expr.WrittenAs.of_bare {e : Expr} {tokens : List Token}
    (h : Node.WrittenBare source clean (.expr e) tokens) : e.WrittenAs source clean tokens :=
  ⟨[], tokens, [], by simp, .of_written h⟩

/-- No parentheses are left behind a statement. -/
theorem Node.Written.closes_stmt {s : Stmt} {opens core closes : List Token}
    (h : Node.Written source clean (.stmt s) opens core closes) : closes = [] := by
  cases h <;> rfl

namespace Parser

variable {before : List Token}

/-! ## Types and expressions -/

/-- Stars behind a type. -/
theorem tracks_starsUpTo (fuel : Nat) (ty : TypeExpr) :
    Tracks source clean (Collected before (Node.WrittenBare source clean (.type ty)))
      ((checked overflow).starsUpTo fuel ty) (starsUpTo fuel ty)
      fun ty => Collected before (Node.WrittenBare source clean (.type ty)) := by
  induction fuel generalizing ty with
  | zero => exact tracks_exhausted
  | succ fuel ih =>
      refine tracks_peek.bind fun token => tracks_eat nofun ?_ ?_
      · -- the star that is read is the token that was looked at, whose place is merged
        refine Tracks.pre (P := Collected before (Then
          (Node.WrittenBare source clean (.type ty)) (OfKind (.mark .star) token))) ?_ ?_
        · refine collects_merged ?_ (ih _)
          rintro _ ⟨us, _, rfl, hty, rfl, hstar⟩
          refine ⟨us, [], _, ⟨[], [], by simp⟩, hty.covers, Span.covers_singleton token,
            fun hcovers => ?_⟩
          cases hty with
          | type hbase hstars hdepth =>
              refine .type hbase ?_ (by simp [hdepth]) (by simpa using hcovers)
              simpa [or_imp, forall_and] using ⟨hstars, hstar⟩
        · rintro front next - ⟨t, hstar, _, ⟨rfl, hbefore⟩, rfl⟩
          exact hbefore.append ⟨rfl, hstar⟩
      · exact collects_pure.pre fun _ _ _ => And.right

/-- A type starts at its name and ends at its last star. -/
theorem collects_typeExpr : Collects source clean (checked overflow).typeExpr typeExpr
    fun ty => Node.WrittenBare source clean (.type ty) := by
  intro before
  refine tracks_peek.bind fun token => ?_
  have hstars : ∀ base : TypeBase, base.IsWritten token → token.kind ≠ .eof →
      Tracks source clean (fun front next => token = next ∧ Collected before Empty front next)
        (advance *> bounded ((checked overflow).starsUpTo · ⟨base, 0, token.span⟩))
        (advance *> bounded (starsUpTo · ⟨base, 0, token.span⟩))
        fun ty => Collected before (Node.WrittenBare source clean (.type ty)) := by
    intro base hbase hkind
    refine (collects_advance hkind).bind fun _ => ?_
    refine (tracks_bounded fun fuel => tracks_starsUpTo fuel _).pre ?_
    rintro front next - ⟨-, hcollected⟩
    refine hcollected.mono ?_
    rintro _ ⟨_, _, rfl, rfl, rfl⟩
    exact .type hbase (List.forall_mem_nil _) rfl (Span.covers_singleton token)
  cases hkind : token.kind with
  | keyword word =>
      cases word with
      | type p => exact hstars (.primitive p) hkind (by simp [hkind])
      | _ => exact tracks_fail _
  | identifier => exact hstars (.named ⟨token.lexeme, token.span⟩) ⟨hkind, rfl⟩ (by simp [hkind])
  | _ => exact tracks_fail _

/-- A literal that was looked at. -/
theorem tracks_literal {token : Token} {value : Literal} (h : value.IsWritten token)
    (hkind : token.kind ≠ .eof) :
    Tracks source clean (fun front next => token = next ∧ Collected before Empty front next)
      (literal value) (literal value) fun e => Collected before (e.WrittenAs source clean) := by
  refine (collects_advance hkind).bind fun taken => tracks_freshId.bind fun id => tracks_pure ?_
  rintro front next - ⟨rfl, hcollected⟩
  refine hcollected.mono ?_
  rintro _ ⟨_, _, rfl, rfl, rfl⟩
  exact .of_bare (.literal h)

/-- Arguments with the parentheses around them, and the place of the one that closes them. -/
def ArgumentsWritten (source : List Char) (clean : Prop) (call : List Expr × Span)
    (tokens : List Token) : Prop :=
  ∃ l ts r, tokens = l :: ts ++ [r] ∧ l.kind = .mark .leftParen ∧ r.kind = .mark .rightParen ∧
    Listed (Node.Written source clean) (call.1.map .expr) ts ∧ call.2 = r.span

/-- Arguments are collected from one parenthesis to the other. -/
theorem collects_arguments {p' p : Parser Expr}
    (h : Collects source clean p' p (Expr.WrittenAs source clean)) :
    Collects source clean (arguments p') (arguments p) (ArgumentsWritten source clean) := by
  refine fun before => (collects_expect (by simp) before).bind fun left =>
    tracks_check fun empty => ?_
  have hclose : ∀ args : List Expr, Tracks source clean
      (Collected before (Then (OfKind (.mark .leftParen) left)
        (Listed (Node.Written source clean) (args.map .expr))))
      (do let close ← expect (.mark .rightParen)
          return (args, close.span))
      (do let close ← expect (.mark .rightParen)
          return (args, close.span))
      fun call => Collected before (ArgumentsWritten source clean call) := by
    intro args
    refine (collects_expect (by simp)).behind.bind fun right => collects_pure.regroup ?_
    rintro _ ⟨_, _, rfl, ⟨_, ts, rfl, ⟨rfl, hl⟩, hargs⟩, rfl, hr⟩
    exact ⟨left, ts, right, rfl, hl, hr, hargs, rfl⟩
  cases empty with
  | true =>
      refine (hclose []).regroup ?_
      exact fun tokens htokens => ⟨tokens, [], by simp, htokens, .nil⟩
  | false => exact (collects_separated h).behind.bind hclose

/-- A name, or a call with it. -/
theorem collects_named {p' p : Parser Expr}
    (h : Collects source clean p' p (Expr.WrittenAs source clean)) :
    Collects source clean
      (do let name ← ident
          if ← check (.mark .leftParen) then
            let (args, close) ← arguments p'
            let id ← freshId
            let span ← (checked overflow).merge name.span close
            return .call id name args span
          else
            return .name (← freshId) name)
      (do let name ← ident
          if ← check (.mark .leftParen) then
            let (args, close) ← arguments p
            return .call (← freshId) name args (name.span.merge close)
          else
            return .name (← freshId) name)
      (Expr.WrittenAs source clean) := by
  refine fun before => (collects_ident before).bind fun name => tracks_check fun found => ?_
  cases found with
  | true =>
      refine (collects_arguments h).behind.bind fun call => tracks_freshId.bind fun id => ?_
      refine collects_merged ?_ collects_pure
      rintro _ ⟨_, _, rfl, ⟨t, rfl, hname⟩, l, ts, r, rfl, hl, hr, hargs, hclose⟩
      refine ⟨[t], l :: ts, [r], ⟨[], [], by simp⟩, hname.covers, ?_, fun hcovers => ?_⟩
      · rw [hclose]
        exact Span.covers_singleton r
      · rw [← List.append_assoc]
        exact .of_bare (.call hname hl hargs hr hcovers)
  | false =>
      refine tracks_freshId.bind fun id => collects_pure.regroup ?_
      rintro _ ⟨t, rfl, hname⟩
      exact .of_bare (.name hname)

/-- An expression in parentheses, the first of which was looked at. -/
theorem tracks_parens {p' p : Parser Expr} {token : Token}
    (h : Collects source clean p' p (Expr.WrittenAs source clean))
    (hkind : token.kind = .mark .leftParen) :
    Tracks source clean (fun front next => token = next ∧ Collected before Empty front next)
      (do let _ ← advance
          let inner ← p'
          let _ ← expect (.mark .rightParen)
          return inner)
      (do let _ ← advance
          let inner ← p
          let _ ← expect (.mark .rightParen)
          return inner) fun e => Collected before (e.WrittenAs source clean) := by
  refine (collects_advance (by simp [hkind])).bind fun left => ?_
  refine Tracks.pre (P := Collected before (Then Empty (· = [token]))) ?_ fun _ _ _ => And.right
  refine h.behind.bind fun inner => (collects_expect (by simp)).behind.bind fun right => ?_
  refine collects_pure.regroup ?_
  rintro _ ⟨_, _, rfl, ⟨_, _, rfl, ⟨_, _, rfl, rfl, rfl⟩, o, c, cl, rfl, hinner⟩, rfl, hr⟩
  exact ⟨token :: o, c, cl ++ [right], by simp, hinner.parens hkind hr⟩

/-- A primary expression covers its token, or stands in parentheses. -/
theorem collects_primary {p' p : Parser Expr}
    (h : Collects source clean p' p (Expr.WrittenAs source clean)) :
    Collects source clean ((checked overflow).primary p') (primary p)
      (Expr.WrittenAs source clean) := by
  refine fun before => tracks_peek.bind fun token => ?_
  cases hkind : token.kind with
  | integer =>
      have hvalue : (Literal.int (Text.decimalValue token.lexeme.toList)).IsWritten token :=
        ⟨hkind, rfl⟩
      simp only
      split
      · exact tracks_literal hvalue (by simp [hkind])
      · exact tracks_fail _
  | keyword word =>
      cases word with
      | boolean value =>
          have hvalue : (Literal.bool value).IsWritten token := hkind
          exact tracks_literal hvalue (by simp [hkind])
      | _ => exact tracks_fail _
  | string =>
      have hvalue : (Literal.string (Quoted.decode token.lexeme)).IsWritten token := ⟨hkind, rfl⟩
      exact tracks_literal hvalue (by simp [hkind])
  | identifier => exact (collects_named h before).pre fun _ _ _ => And.right
  | mark m =>
      cases m with
      | leftParen => exact tracks_parens h hkind
      | _ => exact tracks_fail _
  | eof => exact tracks_fail _

/-- Members and method calls behind an expression. -/
theorem tracks_suffixesUpTo {p' p : Parser Expr}
    (h : Collects source clean p' p (Expr.WrittenAs source clean)) (fuel : Nat) (object : Expr) :
    Tracks source clean (Collected before (object.WrittenAs source clean))
      ((checked overflow).suffixesUpTo p' fuel object) (suffixesUpTo p fuel object)
      fun e => Collected before (e.WrittenAs source clean) := by
  induction fuel generalizing object with
  | zero => exact tracks_exhausted
  | succ fuel ih =>
      refine collects_eat nofun ?_ collects_pure
      refine collects_ident.behind.bind fun name => tracks_check fun found => ?_
      cases found with
      | true =>
          refine (collects_arguments h).behind.bind fun call => tracks_freshId.bind fun id => ?_
          refine collects_merged ?_ (ih _)
          rintro _ ⟨_, _, rfl, ⟨_, _, rfl, ⟨_, _, rfl, ⟨o, c, cl, rfl, hobject⟩, dot, rfl, hdot⟩, t,
            rfl, hname⟩, l, ts, r, rfl, hl, hr, hargs, hclose⟩
          refine ⟨c, cl ++ dot :: t :: l :: ts, [r], ⟨o, [], by simp⟩, hobject.covers, ?_,
            fun hcovers => ?_⟩
          · rw [hclose]
            exact Span.covers_singleton r
          · exact ⟨o, _, [], by simp,
              .of_written (.methodCall hobject hdot hname hl hargs hr hcovers)⟩
      | false =>
          refine tracks_freshId.bind fun id => collects_merged ?_ (ih _)
          rintro _ ⟨_, _, rfl, ⟨_, _, rfl, ⟨o, c, cl, rfl, hobject⟩, dot, rfl, hdot⟩, t, rfl, hname⟩
          refine ⟨c, cl ++ [dot], [t], ⟨o, [], by simp⟩, hobject.covers, hname.covers,
            fun hcovers => ?_⟩
          exact ⟨o, _, [], by simp, .of_written (.member hobject hdot hname hcovers)⟩

/-- An operation starts with its left operand and ends with the right one, both without the
parentheses around them. -/
theorem collects_operation {α : Type} {token : Token} {left right e : Expr} {f' : Span → Parser α}
    {p : Parser α} {Q : α → List Token → Token → Prop}
    (hwritten : ∀ {o c cl o' c' cl' : List Token},
      Wrapped (Node.Written source clean) (.expr left) o c cl →
      Wrapped (Node.Written source clean) (.expr right) o' c' cl' →
      (left.span.merge right.span).Covers source (c ++ (cl ++ token :: o') ++ c') →
      Node.Written source clean (.expr e) o (c ++ (cl ++ token :: o') ++ c') cl')
    (h : Tracks source clean (Collected before (e.WrittenAs source clean))
      (f' (left.span.merge right.span)) p Q) :
    Tracks source clean (Collected before
        (Then (Then (left.WrittenAs source clean) (· = [token])) (right.WrittenAs source clean)))
      ((checked overflow).merge left.span right.span >>= f') p Q := by
  refine collects_merged ?_ h
  rintro _ ⟨_, _, rfl, ⟨_, _, rfl, ⟨o, c, cl, rfl, hleft⟩, rfl⟩, o', c', cl', rfl, hright⟩
  refine ⟨c, cl ++ token :: o', c', ⟨o, cl', by simp⟩, hleft.covers, hright.covers,
    fun hcovers => ?_⟩
  exact ⟨o, _, cl', by simp, .of_written (hwritten hleft hright hcovers)⟩

/-- Operators behind an expression, with their right sides. -/
theorem tracks_operatorsUpTo {p' p : Nat → Parser Expr}
    (h : ∀ power, Collects source clean (p' power) (p power) (Expr.WrittenAs source clean))
    (power fuel : Nat) (left : Expr) :
    Tracks source clean (Collected before (left.WrittenAs source clean))
      ((checked overflow).operatorsUpTo p' power fuel left) (operatorsUpTo p power fuel left)
      fun e => Collected before (e.WrittenAs source clean) := by
  induction fuel generalizing left with
  | zero => exact tracks_exhausted
  | succ fuel ih =>
      refine tracks_peek.bind fun token => ?_
      split
      · next hkind =>
          split
          · exact collects_pure.pre fun _ _ _ => And.right
          split
          · refine (collects_advance (by simp [hkind])).bind fun _ => ?_
            refine Tracks.pre (P := Collected before (Then _ (· = [token]))) ?_
              fun _ _ _ => And.right
            refine (h _).behind.bind fun value => tracks_freshId.bind fun id => ?_
            exact collects_operation (.assign hkind) (ih _)
          · exact tracks_fail _
      · cases hop : token.kind.operator? with
        | none => exact collects_pure.pre fun _ _ _ => And.right
        | some op =>
            simp only
            split
            · exact collects_pure.pre fun _ _ _ => And.right
            · have hkind : token.kind ≠ .eof := by
                rintro heof
                simp [heof, TokenKind.operator?] at hop
              refine (collects_advance hkind).bind fun _ => ?_
              refine Tracks.pre (P := Collected before (Then _ (· = [token]))) ?_
                fun _ _ _ => And.right
              refine (h _).behind.bind fun right => tracks_freshId.bind fun id => ?_
              exact collects_operation (.binary hop) (ih _)

/-- An expression covers what its operands and operators cover. -/
theorem collects_exprUpTo (fuel power : Nat) :
    Collects source clean ((checked overflow).exprUpTo fuel power) (exprUpTo fuel power)
      (Expr.WrittenAs source clean) := by
  induction fuel generalizing power with
  | zero => exact collects_exhausted
  | succ fuel ih =>
      refine fun before => (collects_primary (ih 0) before).bind fun head => ?_
      refine (tracks_bounded fun fuel => tracks_suffixesUpTo (ih 0) fuel head).bind
        fun operand => ?_
      exact tracks_bounded fun fuel => tracks_operatorsUpTo ih power fuel operand

/-- **An expression is written with the tokens that are read for it.** -/
theorem collects_expr :
    Collects source clean (checked overflow).expr expr (Expr.WrittenAs source clean) :=
  collects_bounded fun fuel => collects_exprUpTo fuel 0

/-! ## Statements -/

/-- A value that is there. -/
theorem collects_value : Collects source clean (some <$> (checked overflow).expr) (some <$> expr)
    fun value tokens => ∃ e, value = some e ∧ e.WrittenAs source clean tokens :=
  Collects.map (collects_expr.mono fun e _ h => ⟨e, rfl, h⟩)

/-- A variable declaration starts at its type and ends at its semicolon. -/
theorem collects_varDecl : Collects source clean (checked overflow).varDecl varDecl
    fun s => Node.WrittenBare source clean (.stmt s) := by
  refine fun before => (collects_typeExpr before).bind fun ty =>
    collects_ident.behind.bind fun name => ?_
  -- the rest is the same behind a value and without one
  have hrest : ∀ value : Option Expr, Tracks source clean
      (Collected before (Then (Then (Node.WrittenBare source clean (.type ty)) (Named name))
        (Optional (Node.Written source clean) [.mark .equal] value)))
      (do let stop ← expect (.mark .semicolon)
          let id ← freshId
          let span ← (checked overflow).merge ty.span stop.span
          return Stmt.varDecl id ty name value span)
      (do let stop ← expect (.mark .semicolon)
          return Stmt.varDecl (← freshId) ty name value (ty.span.merge stop.span))
      fun s => Collected before (Node.WrittenBare source clean (.stmt s)) := by
    intro value
    refine (collects_expect (by simp)).behind.bind fun stop => tracks_freshId.bind fun id => ?_
    refine collects_merged ?_ collects_pure
    rintro _ ⟨_, _, rfl, ⟨_, ts, rfl, ⟨us, _, rfl, hty, t, rfl, hname⟩, hvalue⟩, rfl, hstop⟩
    refine ⟨us, t :: ts, [stop], ⟨[], [], by simp⟩, hty.covers, Span.covers_singleton _,
      fun hcovers => ?_⟩
    simpa using Node.Written.varDecl hty hname hvalue hstop hcovers
  refine collects_eat (by simp)
    (collects_value.behind.bind fun value => (hrest value).regroup ?_) ?_
  · rintro _ ⟨_, _, rfl, ⟨us, _, rfl, hfront, equal, rfl, hequal⟩, e, rfl, o, c, cl, rfl, he⟩
    exact ⟨us, _, List.append_assoc .., hfront, .some (by simp [hequal]) he⟩
  · exact (hrest none).regroup fun tokens hfront => ⟨tokens, [], by simp, hfront, .none⟩

/-- An expression statement starts at its expression and ends at its semicolon. -/
theorem collects_exprStmt : Collects source clean (checked overflow).exprStmt exprStmt
    fun s => WrittenAs (Node.Written source clean) (.stmt s) := by
  refine fun before => (collects_expr before).bind fun e =>
    (collects_expect (by simp)).behind.bind fun stop => collects_merged ?_ collects_pure
  rintro _ ⟨_, _, rfl, ⟨o, c, cl, rfl, he⟩, rfl, hstop⟩
  refine ⟨c, cl, [stop], ⟨o, [], by simp⟩, he.covers, Span.covers_singleton _, fun hcovers => ?_⟩
  exact ⟨o, _, [], by simp, .exprStmt he hstop hcovers⟩

/-- A return statement starts at its word and ends at its semicolon. -/
theorem collects_returnStmt : Collects source clean (checked overflow).returnStmt returnStmt
    fun s => Node.WrittenBare source clean (.stmt s) := by
  refine fun before => (collects_expect (by simp) before).bind fun start =>
    tracks_check fun empty => ?_
  have hrest : ∀ value : Option Expr, Tracks source clean
      (Collected before (Then (OfKind (.keyword .returnWord) start)
        (Optional (Node.Written source clean) [] value)))
      (do let stop ← expect (.mark .semicolon)
          let span ← (checked overflow).merge start.span stop.span
          return Stmt.ret value span)
      (do let stop ← expect (.mark .semicolon)
          return Stmt.ret value (start.span.merge stop.span))
      fun s => Collected before (Node.WrittenBare source clean (.stmt s)) := by
    intro value
    refine (collects_expect (by simp)).behind.bind fun stop => collects_merged ?_ collects_pure
    rintro _ ⟨_, _, rfl, ⟨_, ts, rfl, ⟨rfl, hstart⟩, hvalue⟩, rfl, hstop⟩
    exact ⟨[start], ts, [stop], ⟨[], [], by simp⟩, Span.covers_singleton _,
      Span.covers_singleton _, fun hcovers => .ret hstart hvalue hstop hcovers⟩
  cases empty with
  | true => exact (hrest none).regroup fun tokens hstart => ⟨tokens, [], by simp, hstart, .none⟩
  | false =>
      refine collects_value.behind.bind fun value => (hrest value).regroup ?_
      rintro _ ⟨us, _, rfl, hstart, e, rfl, o, c, cl, rfl, he⟩
      exact ⟨us, _, rfl, hstart, @Optional.some _ _ _ [] _ _ _ rfl he⟩

/-- A block starts and ends at its braces. -/
theorem collects_blockWith {p' p : Parser Stmt}
    (h : Collects source clean p' p fun s => WrittenAs (Node.Written source clean) (.stmt s)) :
    Collects source clean ((checked overflow).blockWith p') (blockWith p)
      fun b => Node.WrittenBare source clean (.block b) := by
  refine fun before => (collects_expect (by simp) before).bind fun left =>
    tracks_freshId.bind fun id => ?_
  refine (collects_recovering _ h skips_skipStatement (afterStatement_suffix 0)).behind.bind
    fun stmts => (collects_expect (by simp)).behind.bind fun right =>
      collects_merged ?_ collects_pure
  rintro _ ⟨_, _, rfl, ⟨_, ts, rfl, ⟨rfl, hl⟩, hstmts⟩, rfl, hr⟩
  exact ⟨[left], ts, [right], ⟨[], [], by simp⟩, Span.covers_singleton _, Span.covers_singleton _,
    fun hcovers => .block (.blockStmt hl hstmts hr hcovers)⟩

/-- A conditional statement ends where its last branch does. -/
theorem collects_ifWith {p' p : Parser Stmt}
    (h : Collects source clean p' p fun s => WrittenAs (Node.Written source clean) (.stmt s)) :
    Collects source clean ((checked overflow).ifWith p') (ifWith p)
      fun s => Node.WrittenBare source clean (.stmt s) := by
  refine fun before => (collects_expect (by simp) before).bind fun start =>
    (collects_expect (by simp)).behind.bind fun left =>
      collects_expr.behind.bind fun condition => ?_
  refine (collects_expect (by simp)).behind.bind fun right => h.behind.bind fun positive => ?_
  refine collects_eat (by simp) ?_ ?_
  · refine h.behind.bind fun negative => collects_merged ?_ collects_pure
    rintro _ ⟨_, _, rfl, ⟨_, _, rfl, ⟨_, _, rfl, ⟨_, _, rfl, ⟨_, _, rfl, ⟨_, _, rfl, ⟨rfl, hstart⟩,
      rfl, hl⟩, o, c, cl, rfl, hcondition⟩, rfl, hr⟩, o', c', cl', rfl, hpositive⟩, e, rfl, he⟩,
      o'', c'', cl'', rfl, hnegative⟩
    obtain rfl := hpositive.closes_stmt
    obtain rfl := hnegative.closes_stmt
    refine ⟨[start], left :: (o ++ c ++ cl) ++ right :: (o' ++ c') ++ e :: o'', c'',
      ⟨[], [], by simp⟩, Span.covers_singleton _, hnegative.covers, fun hcovers => ?_⟩
    simpa using Node.Written.ifElse hstart hl hcondition hr hpositive he hnegative hcovers
  · refine collects_merged ?_ collects_pure
    rintro _ ⟨_, _, rfl, ⟨_, _, rfl, ⟨_, _, rfl, ⟨_, _, rfl, ⟨rfl, hstart⟩, rfl, hl⟩, o, c, cl, rfl,
      hcondition⟩, rfl, hr⟩, o', c', cl', rfl, hpositive⟩
    obtain rfl := hpositive.closes_stmt
    refine ⟨[start], left :: (o ++ c ++ cl) ++ right :: o', c', ⟨[], [], by simp⟩,
      Span.covers_singleton _, hpositive.covers, fun hcovers => ?_⟩
    simpa using Node.Written.ifThen hstart hl hcondition hr hpositive hcovers

/-- A statement covers its tokens, where those inside it do. -/
theorem collects_stmtWith {p' p : Parser Stmt}
    (h : Collects source clean p' p fun s => WrittenAs (Node.Written source clean) (.stmt s)) :
    Collects source clean ((checked overflow).stmtWith p') (stmtWith p)
      fun s => WrittenAs (Node.Written source clean) (.stmt s) := by
  refine fun before => .of_states fun s => ?_
  have hbare : ∀ {q' q : Parser Stmt}, Collects source clean q' q (fun s =>
      Node.WrittenBare source clean (.stmt s)) → Tracks source clean (Collected before Empty) q' q
        fun s => Collected before (WrittenAs (Node.Written source clean) (.stmt s)) :=
    fun hq => hq.mono (fun _ _ hwritten => hwritten.writtenAs) before
  have hother : ∃ q' q : Parser Stmt, Tracks source clean (Collected before Empty) q' q
      (fun s => Collected before (WrittenAs (Node.Written source clean) (.stmt s))) ∧
      (if s.startsVarDecl then (checked overflow).varDecl s else (checked overflow).exprStmt s) =
        q' s ∧
      (if s.startsVarDecl then varDecl s else exprStmt s) = q s := by
    split
    · exact ⟨_, _, hbare collects_varDecl, rfl, rfl⟩
    · exact ⟨_, _, collects_exprStmt before, rfl, rfl⟩
  unfold Arithmetic.stmtWith stmtWith
  cases hkind : s.peek.kind with
  | keyword word =>
      cases word with
      | ifWord => exact ⟨_, _, hbare (collects_ifWith h), rfl, rfl⟩
      | returnWord => exact ⟨_, _, hbare collects_returnStmt, rfl, rfl⟩
      | _ => exact hother
  | mark m =>
      cases m with
      | leftBrace =>
          refine ⟨_, _, hbare (Collects.map ((collects_blockWith h).mono ?_)), rfl, rfl⟩
          rintro b tokens hblock
          cases hblock with
          | block hwritten => exact hwritten
      | _ => exact hother
  | _ => exact hother

/-- **A block is written with the tokens that are read for it.** -/
theorem collects_block : Collects source clean (checked overflow).block block
    fun b => Node.WrittenBare source clean (.block b) := by
  refine collects_blockWith (collects_bounded fun fuel => ?_)
  induction fuel with
  | zero => exact collects_exhausted
  | succ fuel ih => exact collects_stmtWith ih

/-! ## Declarations -/

/-- A parameter starts at its type and ends at its name. -/
theorem collects_param : Collects source clean (checked overflow).param param
    fun p => Node.WrittenBare source clean (.param p) := by
  refine fun before => (collects_typeExpr before).bind fun ty =>
    collects_ident.behind.bind fun name => tracks_freshId.bind fun id =>
      collects_merged ?_ collects_pure
  rintro _ ⟨us, _, rfl, hty, t, rfl, hname⟩
  refine ⟨us, [], [t], ⟨[], [], by simp⟩, hty.covers, hname.covers, fun hcovers => ?_⟩
  simpa using Node.Written.param hty hname hcovers

/-- The parameters that a parser of a list may have read, with the mark for further arguments
behind them. -/
structure ParamsWritten (source : List Char) (clean : Prop) (isExternal : Bool)
    (found : List Param × Bool) (tokens : List Token) : Prop where
  written : ∃ us dots, tokens = us ++ dots ∧
    Listed (Node.Written source clean) (found.1.map .param) us ∧
      dots.map Token.kind = ellipsisKinds found.1 found.2
  isExternal : found.2 = true → isExternal = true

/-- One more parameter, with a comma behind it. -/
theorem ParamsWritten.cons {isExternal : Bool} {first : Param} {found : List Param × Bool}
    {us tokens : List Token} {comma : Token}
    (h : ParamsWritten source clean isExternal found tokens)
    (hfound : found.1 = [] → found.2 = true)
    (hfirst : Node.WrittenBare source clean (.param first) us)
    (hcomma : comma.kind = .mark .comma) :
    ParamsWritten source clean isExternal (first :: found.1, found.2) (us ++ comma :: tokens) := by
  refine ⟨?_, h.isExternal⟩
  obtain ⟨vs, dots, rfl, hparams, hdots⟩ := h.written
  obtain ⟨params, variadic⟩ := found
  have hone := Listed.one (Wrapped.of_written hfirst)
  cases params with
  | nil =>
      -- only the mark for further arguments is there, and the comma belongs to it
      cases hparams
      obtain rfl : variadic = true := hfound rfl
      exact ⟨us, comma :: dots, rfl, by simpa using hone, by simp [ellipsisKinds, hcomma, hdots]⟩
  | cons next rest =>
      refine ⟨us ++ comma :: vs, dots, by simp, ?_, hdots⟩
      simpa using Listed.cons (Wrapped.of_written hfirst) hcomma hparams

/-- The parameters that are read stand one behind the other. -/
theorem collects_paramsUpTo (isExternal : Bool) (fuel : Nat) :
    Collects source clean ((checked overflow).paramsUpTo isExternal fuel)
      (paramsUpTo isExternal fuel)
      fun found tokens => (found.1 = [] → found.2 = true) ∧
        ParamsWritten source clean isExternal found tokens := by
  induction fuel with
  | zero => exact collects_exhausted
  | succ fuel ih =>
      refine fun before => (tracks_peek.post fun _ _ _ _ => And.right).bind fun token => ?_
      refine collects_eat (by simp) ?_ ?_
      · cases isExternal with
        | true =>
            refine tracks_check fun last => ?_
            cases last with
            | true =>
                refine collects_pure.regroup ?_
                rintro _ ⟨_, _, rfl, rfl, dots, rfl, hdots⟩
                exact ⟨fun _ => rfl, ⟨[], [dots], rfl, .nil, by simp [ellipsisKinds, hdots]⟩,
                  fun _ => rfl⟩
            | false => exact tracks_peek.bind fun found => tracks_fail _
        | false => exact tracks_fail _
      · refine (collects_param before).bind fun first => collects_eat (by simp) ?_ ?_
        · refine ih.behind.bind fun found => collects_pure.regroup ?_
          rintro _ ⟨_, ts, rfl, ⟨us, _, rfl, hfirst, comma, rfl, hcomma⟩, hfound, hparams⟩
          refine ⟨nofun, ?_⟩
          simpa using hparams.cons hfound hfirst hcomma
        · refine collects_pure.regroup fun tokens hfirst => ⟨nofun, ?_, nofun⟩
          have hone := Listed.one (Wrapped.of_written hfirst)
          exact ⟨tokens, [], by simp, by simpa using hone, rfl⟩

/-- Parameters are collected from one parenthesis to the other. -/
theorem collects_params (isExternal : Bool) :
    Collects source clean ((checked overflow).params isExternal) (params isExternal)
      fun found tokens => ∃ l ts r, tokens = l :: ts ++ [r] ∧ l.kind = .mark .leftParen ∧
        r.kind = .mark .rightParen ∧ ParamsWritten source clean isExternal found ts := by
  refine fun before => (collects_expect (by simp) before).bind fun left =>
    tracks_check fun empty => ?_
  have hrest : ∀ found : List Param × Bool, Tracks source clean
      (Collected before (Then (OfKind (.mark .leftParen) left)
        (ParamsWritten source clean isExternal found)))
      (do let _ ← expect (.mark .rightParen)
          return found)
      (do let _ ← expect (.mark .rightParen)
          return found)
      fun found => Collected before fun tokens => ∃ l ts r, tokens = l :: ts ++ [r] ∧
        l.kind = .mark .leftParen ∧ r.kind = .mark .rightParen ∧
          ParamsWritten source clean isExternal found ts := by
    intro found
    refine (collects_expect (by simp)).behind.bind fun right => collects_pure.regroup ?_
    rintro _ ⟨_, _, rfl, ⟨_, ts, rfl, ⟨rfl, hl⟩, hparams⟩, rfl, hr⟩
    exact ⟨left, ts, right, rfl, hl, hr, hparams⟩
  cases empty with
  | true =>
      refine (hrest ([], false)).regroup fun tokens hleft => ⟨tokens, [], by simp, hleft, ?_⟩
      exact ⟨⟨[], [], rfl, .nil, rfl⟩, nofun⟩
  | false =>
      exact ((collects_bounded (collects_paramsUpTo isExternal)).mono
        fun _ _ => And.right).behind.bind hrest

/-- The type and the name of a declaration. -/
abbrev Head (source : List Char) (clean : Prop) (ty : TypeExpr) (name : Ident) :
    List Token → Prop :=
  Then (Node.WrittenBare source clean (.type ty)) (Named name)

/-- The rest of a function extends the place of the function to its body. -/
theorem tracks_functionRest (ty : TypeExpr) (name : Ident) :
    Tracks source clean (Collected before (Head source clean ty name))
      ((checked overflow).functionRest ty name) (functionRest ty name)
      fun decl => Collected before (Node.WrittenBare source clean (.function decl)) := by
  refine tracks_freshId.bind fun id => (collects_params false).behind.bind fun found => ?_
  refine collects_block.behind.bind fun b => collects_merged ?_ collects_pure
  rintro _ ⟨_, vs, rfl, ⟨_, _, rfl, ⟨us, _, rfl, hty, t, rfl, hname⟩, l, _, r, rfl, hl, hr,
    ⟨ts, dots, rfl, hparams, hdots⟩, hvariadic⟩, hbody⟩
  have hfalse : found.2 = false := by simpa using hvariadic
  obtain rfl : dots = [] := by simpa [ellipsisKinds, hfalse] using hdots
  refine ⟨us, t :: l :: ts ++ [r], vs, ⟨[], [], by simp⟩, hty.covers, hbody.covers,
    fun hcovers => ?_⟩
  simpa using Node.Written.function hty hname hl hparams hr hbody hcovers

/-- An external function behind the word it starts with, whatever its place is taken to be. -/
def ExternalWritten (source : List Char) (clean : Prop) (start : Token) (decl : FunctionDecl)
    (tokens : List Token) : Prop :=
  ∃ rest, tokens = start :: rest ∧ decl.span.Covers source rest ∧ ∀ span : Span,
    span.Covers source (start :: rest) →
      Node.WrittenBare source clean (.function { decl with span := span }) (start :: rest)

/-- The rest of an external function extends its place to the semicolon. -/
theorem tracks_externalRest (ty : TypeExpr) (name : Ident) (start : Token) :
    Tracks source clean
      (Collected before (Then (Then (OfKind (.keyword .externWord) start)
        (Node.WrittenBare source clean (.type ty))) (Named name)))
      ((checked overflow).externalRest ty name) (externalRest ty name)
      fun decl => Collected before (ExternalWritten source clean start decl) := by
  refine tracks_freshId.bind fun id => (collects_params true).behind.bind fun found => ?_
  refine (collects_expect (by simp)).behind.bind fun stop => collects_merged ?_ collects_pure
  rintro _ ⟨_, _, rfl, ⟨_, _, rfl, ⟨_, _, rfl, ⟨_, us, rfl, ⟨rfl, hstart⟩, hty⟩, t, rfl, hname⟩, l,
    _, r, rfl, hl, hr, ⟨ts, dots, rfl, hparams, hdots⟩, -⟩, rfl, hstop⟩
  refine ⟨us, t :: l :: (ts ++ dots) ++ [r], [stop], ⟨[start], [], by simp⟩, hty.covers,
    Span.covers_singleton _, fun hcovers => ?_⟩
  refine ⟨_, by simp, hcovers, fun span hspan => ?_⟩
  simpa using
    Node.Written.external hstart hty hname hl hparams hdots hr hstop (by simpa using hspan)

/-- An external declaration starts at its first word. -/
theorem collects_externalDecl : Collects source clean (checked overflow).externalDecl externalDecl
    fun decl => Node.WrittenBare source clean (.function decl) := by
  refine fun before => (collects_expect (by simp) before).bind fun start =>
    collects_typeExpr.behind.bind fun ty => collects_ident.behind.bind fun name =>
      (tracks_externalRest ty name start).bind fun decl => collects_merged ?_ collects_pure
  rintro _ ⟨rest, rfl, hcovers, hwritten⟩
  exact ⟨[start], [], rest, ⟨[], [], by simp⟩, Span.covers_singleton _, hcovers,
    fun hspan => hwritten _ hspan⟩

/-- The rest of a field extends the place of the field to the semicolon. -/
theorem tracks_fieldRest (ty : TypeExpr) (name : Ident) :
    Tracks source clean (Collected before (Head source clean ty name))
      ((checked overflow).fieldRest ty name) (fieldRest ty name)
      fun field => Collected before (Node.WrittenBare source clean (.field field)) := by
  refine (collects_expect (by simp)).behind.bind fun stop => tracks_freshId.bind fun id =>
    collects_merged ?_ collects_pure
  rintro _ ⟨_, _, rfl, ⟨us, _, rfl, hty, t, rfl, hname⟩, rfl, hstop⟩
  exact ⟨us, [t], [stop], ⟨[], [], by simp⟩, hty.covers, Span.covers_singleton _,
    fun hcovers => .field hty hname hstop hcovers⟩

/-- A field starts at its type and ends at its semicolon. -/
theorem collects_fieldDecl : Collects source clean (checked overflow).fieldDecl fieldDecl
    fun field => Node.WrittenBare source clean (.field field) :=
  fun before => (collects_typeExpr before).bind fun ty => collects_ident.behind.bind fun name =>
    tracks_fieldRest ty name

/-- A member of a class covers its tokens. -/
theorem collects_classMember : Collects source clean (checked overflow).classMember classMember
    (ClassMember.IsWritten source clean) := by
  refine fun before => (collects_typeExpr before).bind fun ty =>
    collects_ident.behind.bind fun name => tracks_check fun found => ?_
  cases found with
  | true =>
      exact Tracks.map (R := fun m => Collected before (ClassMember.IsWritten source clean m))
        (tracks_functionRest ty name)
  | false =>
      exact Tracks.map (R := fun m => Collected before (ClassMember.IsWritten source clean m))
        (tracks_fieldRest ty name)

/-- The class that a class extends, if there is one. -/
def Heritage (parent : Option Ident) (tokens : List Token) : Prop :=
  match parent with
  | none => tokens = []
  | some name => ∃ x t, tokens = [x, t] ∧ x.kind = .keyword .extendsWord ∧ name.IsWritten t

/-- A class starts at its word and ends at its closing brace. -/
theorem collects_classDecl : Collects source clean (checked overflow).classDecl classDecl
    fun decl => Node.WrittenBare source clean (.classDecl decl) := by
  refine fun before => (collects_expect (by simp) before).bind fun start =>
    tracks_freshId.bind fun id => collects_ident.behind.bind fun name => ?_
  have hmember : Collects source clean (checked overflow).classMember classMember
      fun member => WrittenAs (Node.Written source clean) member.node :=
    collects_classMember.mono fun _ _ h => h.writtenAs
  have hrest : ∀ parent : Option Ident, Tracks source clean
      (Collected before (Then (Then (OfKind (.keyword .classWord) start) (Named name))
        (Heritage parent)))
      (do let _ ← expect (.mark .leftBrace)
          let members ← recovering closesBraces (checked overflow).classMember skipStatement
          let stop ← expect (.mark .rightBrace)
          let span ← (checked overflow).merge start.span stop.span
          return (⟨id, name, parent, members, span⟩ : ClassDecl))
      (do let _ ← expect (.mark .leftBrace)
          let members ← recovering closesBraces classMember skipStatement
          let stop ← expect (.mark .rightBrace)
          return (⟨id, name, parent, members, start.span.merge stop.span⟩ : ClassDecl))
      fun decl => Collected before (Node.WrittenBare source clean (.classDecl decl)) := by
    intro parent
    refine (collects_expect (by simp)).behind.bind fun left => ?_
    refine (collects_recovering _ hmember skips_skipStatement (afterStatement_suffix 0)).behind.bind
      fun members => (collects_expect (by simp)).behind.bind fun stop =>
        collects_merged ?_ collects_pure
    rintro _ ⟨_, _, rfl, ⟨_, ts, rfl, ⟨_, _, rfl, ⟨_, vs, rfl, ⟨_, _, rfl, ⟨rfl, hstart⟩, t, rfl,
      hname⟩, hparent⟩, rfl, hl⟩, hmembers⟩, rfl, hstop⟩
    refine ⟨[start], t :: (vs ++ left :: ts), [stop], ⟨[], [], by simp⟩, Span.covers_singleton _,
      Span.covers_singleton _, fun hcovers => ?_⟩
    cases parent with
    | none =>
        obtain rfl : vs = [] := hparent
        simpa using Node.Written.classDecl hstart hname hl hmembers hstop hcovers
    | some i =>
        obtain ⟨x, t', rfl, hx, hi⟩ := hparent
        simpa using Node.Written.childDecl hstart hname hx hi hl hmembers hstop hcovers
  have hname : Collects source clean (some <$> ident) (some <$> ident) fun parent tokens =>
      ∃ i, parent = some i ∧ Named i tokens :=
    Collects.map (collects_ident.mono fun i _ h => ⟨i, rfl, h⟩)
  refine collects_eat (by simp) (hname.behind.bind fun parent => (hrest parent).regroup ?_) ?_
  · rintro _ ⟨_, _, rfl, ⟨us, _, rfl, hfront, x, rfl, hx⟩, i, rfl, t, rfl, hi⟩
    exact ⟨us, [x, t], by simp, hfront, x, t, rfl, hx, hi⟩
  · exact (hrest none).regroup fun tokens hfront => ⟨tokens, [], by simp, hfront, rfl⟩

/-- A struct starts at its word and ends at its closing brace. -/
theorem collects_structDecl : Collects source clean (checked overflow).structDecl structDecl
    fun decl => Node.WrittenBare source clean (.structDecl decl) := by
  refine fun before => (collects_expect (by simp) before).bind fun start =>
    tracks_freshId.bind fun id => collects_ident.behind.bind fun name =>
      (collects_expect (by simp)).behind.bind fun left => ?_
  refine (collects_many _ (collects_fieldDecl.mono fun _ _ h => h.writtenAs)).behind.bind
    fun fields => (collects_expect (by simp)).behind.bind fun stop =>
      collects_merged ?_ collects_pure
  rintro _ ⟨_, _, rfl, ⟨_, ts, rfl, ⟨_, _, rfl, ⟨_, _, rfl, ⟨rfl, hstart⟩, t, rfl, hname⟩, rfl, hl⟩,
    hfields⟩, rfl, hstop⟩
  refine ⟨[start], t :: left :: ts, [stop], ⟨[], [], by simp⟩, Span.covers_singleton _,
    Span.covers_singleton _, fun hcovers => ?_⟩
  simpa using Node.Written.structDecl hstart hname hl hfields hstop hcovers

/-- A free function starts at its type. -/
theorem collects_freeFunction : Collects source clean (checked overflow).freeFunction freeFunction
    fun decl => Node.WrittenBare source clean (.function decl) := by
  refine fun before => (collects_typeExpr before).bind fun ty =>
    collects_ident.behind.bind fun name => tracks_check fun found => ?_
  cases found with
  | true => exact tracks_functionRest ty name
  | false => exact tracks_fail _

/-- An item covers its tokens. -/
theorem collects_item : Collects source clean (checked overflow).item item
    (Item.IsWritten source clean) := by
  refine fun before => (tracks_peek.post fun _ _ _ _ => And.right).bind fun token => ?_
  have hother : Tracks source clean (Collected before Empty)
      (Item.function <$> (checked overflow).freeFunction) (Item.function <$> freeFunction)
      fun i => Collected before (Item.IsWritten source clean i) :=
    Collects.map (T := Item.IsWritten source clean) collects_freeFunction before
  cases token.kind with
  | keyword word =>
      cases word with
      | classWord => exact Collects.map (T := Item.IsWritten source clean) collects_classDecl before
      | structWord =>
          exact Collects.map (T := Item.IsWritten source clean) collects_structDecl before
      | externWord =>
          exact Collects.map (T := Item.IsWritten source clean) collects_externalDecl before
      | _ => exact hother
  | _ => exact hother

/-- **Items are written with the tokens that are read for them.** -/
theorem collects_items : Collects source clean (checked overflow).items items
    fun found => Strewn (Node.Written source clean) clean (found.map Item.node) :=
  collects_recovering _ (collects_item.mono fun _ _ h => h.writtenAs) skips_skipItem
    (afterItem_suffix 0)

end Parser

/-! ## Scripts -/

namespace Script

section

variable (source : String)

/-- A source that has not been read yet is in front of its first token. -/
theorem standsBehind_ofSource :
    (ParserState.ofSource source).StandsBehind source.toList [] where
  eof := rfl
  inOrder := InOrder.of_lex source

/-- The first token of a source, or the end mark. -/
theorem head?_all : (lex source).all.head? = some (ParserState.ofSource source).peek := by
  unfold ParserState.peek ParserState.ofSource ParserState.ofLexed Lexed.all
  cases (lex source).tokens <;> rfl

/-- The end mark starts where the first token ends, or behind it. -/
theorem stop_peek_le : (ParserState.ofSource source).peek.span.stop source.toList ≤
    (lex source).eof.span.offset source.toList := by
  have hordered := (InOrder.of_lex source).ordered
  unfold ParserState.peek ParserState.ofSource ParserState.ofLexed
  unfold Lexed.all at hordered
  cases htokens : (lex source).tokens with
  | nil => exact Nat.le_refl _
  | cons token rest =>
      rw [htokens] at hordered
      exact ((List.pairwise_append.1 hordered).2.2 token (by simp) _ (by simp)).2

/-- The place of a source, from its first token to the end mark. -/
theorem merge_all : ((ParserState.ofSource source).peek.span.merge (lex source).eof.span).Covers
      source.toList (lex source).all ∧
    (Text.byteLength source.toList < Nat.pow 2 32 - 1 →
      (ParserState.ofSource source).peek.span.mergeChecked? (lex source).eof.span =
        some ((ParserState.ofSource source).peek.span.merge (lex source).eof.span)) := by
  have hlexemes := (InOrder.of_lex source).lexemes
  have hfirst := hlexemes _ (List.mem_of_head? (head?_all source))
  have hlast := hlexemes (lex source).eof (by simp [Lexed.all])
  refine ⟨⟨_, (lex source).eof, head?_all source, by simp [Lexed.all], ?_⟩, fun hsize => ?_⟩
  · exact (Span.reaches_self _).merge (Span.reaches_self _) hfirst hlast hlast (stop_peek_le source)
      (Nat.le_refl _)
  · exact (Span.reaches_self _).mergeChecked?_eq (Span.reaches_self _) hlast (stop_peek_le source)
      hsize

/-- What is read, and where reading ends. -/
theorem exists_items : ∃ found rest, Parser.items (ParserState.ofSource source) = .ok found rest ∧
    rest.tokens = [] ∧ rest.peek = (lex source).eof ∧ read source =
      ⟨⟨found, (ParserState.ofSource source).peek.span.merge (lex source).eof.span, rest.nextId⟩,
        rest.errors⟩ := by
  obtain ⟨found, rest, hitems, htokens, heof⟩ :=
    Parser.items_ends (ParserState.ended_ofSource source)
  have hpeek : rest.peek = (lex source).eof := by
    rw [ParserState.peek, htokens, heof]
    rfl
  refine ⟨found, rest, hitems, htokens, hpeek, ?_⟩
  unfold read readLexed
  simp only
  rw [show ParserState.ofLexed (lex source) = ParserState.ofSource source from rfl, hitems]
  simp only [hpeek]

/-- **A script is written with all tokens of its source.** -/
theorem written_read : Node.Written source.toList ((read source).errors = [])
    (.script (read source).script) [] (lex source).all [] := by
  obtain ⟨found, rest, hitems, htokens, -, hread⟩ := exists_items source
  have hcollects : Parser.Collects source.toList ((read source).errors = [])
      (Parser.checked Parser.exhausted).items Parser.items _ := Parser.collects_items
  obtain ⟨tokens, hsource, _, rfl, hfound⟩ :=
    (hcollects []).tracks (standsBehind_ofSource source) ⟨[], rfl, rfl⟩ hitems fun hclean => by
      rwa [hread] at hclean
  obtain rfl : (lex source).tokens = tokens := by rwa [htokens, List.append_nil] at hsource
  rw [show (read source).script = ⟨found, _, rest.nextId⟩ from congrArg ScriptReading.script hread]
  exact .script hfound rfl (merge_all source).1

/-- **Nothing overflows**: arithmetic in 32 bits does not change what is read. -/
theorem readChecked_eq (hsize : Text.byteLength source.toList < Nat.pow 2 32 - 1)
    (overflow : Parser Span) : readChecked overflow source = some (read source) := by
  obtain ⟨found, rest, hitems, -, hpeek, hread⟩ := exists_items source
  have hcollects : Parser.Collects source.toList False
      (Parser.checked overflow).items Parser.items _ := Parser.collects_items
  have hsame : (Parser.checked overflow).items (ParserState.ofSource source) = .ok found rest :=
    ((hcollects []).same hsize not_false (standsBehind_ofSource source) ⟨[], rfl, rfl⟩).trans hitems
  unfold readChecked
  simp only [hsame, hpeek, (merge_all source).2 hsize, hread]
  rfl

/-- **The places in a tree.**  Every node of what is read of a source is written with tokens of it,
from the first of which its place starts.  It reaches to the end of the last one, or not so far if
that one is on another line.  So the places of parts are inside those of what they are parts of, if
the source has one line only; and no place overflows, if the source is not too long. -/
theorem read_places : (∀ node, (Node.script (read source).script).Has node →
      ∃ opens core closes,
        node.Written source.toList ((read source).errors = []) opens core closes ∧
          opens ++ core ++ closes <:+: (lex source).all ∧ node.span.Covers source.toList core) ∧
    ('\n' ∉ source.toList → ∀ node part, (Node.script (read source).script).Has node →
      node.Has part → node.span.Contains part.span) ∧
    (Text.byteLength source.toList < Nat.pow 2 32 - 1 →
      ∀ overflow, readChecked overflow source = some (read source)) := by
  have hwritten := written_read source
  refine ⟨fun node hnode => ?_, fun hline node part hnode hpart => ?_, readChecked_eq source⟩
  · obtain ⟨opens, core, closes, h, hin, -⟩ := hwritten.has hnode
    rw [List.nil_append, List.append_nil] at hin
    exact ⟨opens, core, closes, h, hin, h.covers⟩
  · obtain ⟨opens, core, closes, h, hin, hcore⟩ := hwritten.has hnode
    obtain ⟨opens', core', closes', h', -, hcore'⟩ := h.has hpart
    exact h.covers.contains h'.covers ((InOrder.of_lex source).sublist hcore.sublist)
      hcore'.sublist hline

end

/-- A source with a product that starts in parentheses. -/
def sumTimesThree : String := "void f() \x7b (1 + 2) * 3; \x7d"

/-- The product: its place starts behind the parenthesis. -/
def sumTimesThreeExpr : Expr :=
  .binary 6 (.arith .mul)
    (.binary 4 (.arith .add) (.literal 2 (.int 1) ⟨1, 13, 1⟩) (.literal 3 (.int 2) ⟨1, 17, 1⟩)
      ⟨1, 13, 5⟩)
    (.literal 5 (.int 3) ⟨1, 22, 1⟩) ⟨1, 13, 10⟩

/-- The function around it. -/
def sumTimesThreeDecl : FunctionDecl :=
  ⟨0, ⟨.primitive .void, 0, ⟨1, 1, 4⟩⟩, ⟨"f", ⟨1, 6, 1⟩⟩, [],
    .block ⟨1, [.expr sumTimesThreeExpr ⟨1, 13, 11⟩], ⟨1, 10, 16⟩⟩, ⟨1, 1, 25⟩⟩

/-- The tree of a source, its parts, and what is said of their places. -/
theorem read_places_product :
    (∃ opens core closes,
      (Node.expr sumTimesThreeExpr).Written sumTimesThree.toList
          ((read sumTimesThree).errors = []) opens core closes ∧
        opens ++ core ++ closes <:+: (lex sumTimesThree).all ∧
          sumTimesThreeExpr.span.Covers sumTimesThree.toList core) ∧
    sumTimesThreeDecl.span.Contains sumTimesThreeExpr.span ∧
    ∀ overflow, readChecked overflow sumTimesThree = some (read sumTimesThree) := by
  have hitems : (read sumTimesThree).script.items = [.function sumTimesThreeDecl] := by rfl
  have hdecl : (Node.script (read sumTimesThree).script).Has (.function sumTimesThreeDecl) :=
    .single (by simp [Node.parts, hitems, Item.node])
  have hproduct : (Node.function sumTimesThreeDecl).Has (.expr sumTimesThreeExpr) := by
    refine .head (b := .block ⟨1, [.expr sumTimesThreeExpr ⟨1, 13, 11⟩], ⟨1, 10, 16⟩⟩) ?_
      (.head (b := .stmt (.expr sumTimesThreeExpr ⟨1, 13, 11⟩)) ?_ (.single ?_))
    all_goals simp [Node.parts, Stmt.parts, sumTimesThreeDecl, FunctionBody.block?]
  obtain ⟨hplaces, hinside, hchecked⟩ := read_places sumTimesThree
  exact ⟨hplaces _ (hdecl.trans hproduct), hinside (by decide) _ _ hdecl hproduct,
    hchecked (by decide)⟩

end Script

end ClassLang
