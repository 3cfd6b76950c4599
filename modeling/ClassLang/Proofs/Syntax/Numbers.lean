import ClassLang.Proofs.Syntax.Arithmetic
import ClassLang.Proofs.Syntax.Keys

/-!
# Node numbers in words of 32 bits

A parser that numbers nodes in words does what the one that counts without a bound does, as long as
fewer numbers are given out than there are words (`Parser.Fits`).  The numbers only grow, so that a
count which is small at the end was small all the way: where one parser follows another, the first
one fits because the second one does.  With it the numbers in words are good keys too
(`Script.read_keyed`).
-/

namespace ClassLang

namespace Parser

/-- The first parser, which numbers in words, does what the second one does, if the next number
behind that one is a word.  Numbers never become smaller. -/
structure Fits {α : Type} (p' p : Parser α) : Prop where
  grows : ∀ s, s.nextId ≤ (p s).rest.nextId
  same : ∀ s, (p s).rest.nextId < Nat.pow 2 32 → p' s = p s

section

variable {α β : Type} {p' p : Parser α} {q' q : Parser β}

/-- A parser that gives out no number. -/
theorem fits_of_keeps (h : ∀ s, (p s).rest.nextId = s.nextId) : Fits p p :=
  ⟨fun s => Nat.le_of_eq (h s).symm, fun _ _ => rfl⟩

/-- A result gives out no number. -/
theorem fits_pure {a : α} : Fits (pure a) (pure a) := fits_of_keeps fun _ => rfl

/-- A failure gives out no number. -/
theorem fits_fail (error : SyntaxError) : Fits (fail error : Parser α) (fail error) :=
  fits_of_keeps fun _ => rfl

/-- Nesting that is too deep gives out no number. -/
theorem fits_exhausted : Fits (exhausted : Parser α) exhausted := fits_of_keeps fun _ => rfl

/-- **One parser after another.**  The number behind the first one is not above the number behind
both. -/
theorem Fits.bind {f' f : α → Parser β} (hp : Fits p' p) (hf : ∀ a, Fits (f' a) (f a)) :
    Fits (p' >>= f') (p >>= f) where
  grows s := by
    have hfirst := hp.grows s
    cases hend : p s with
    | ok a mid =>
        rw [hend] at hfirst
        rw [bind_of_ok hend]
        exact Nat.le_trans hfirst ((hf a).grows mid)
    | fail error mid =>
        rw [hend] at hfirst
        rw [bind_of_fail hend]
        exact hfirst
  same s hsmall := by
    cases hend : p s with
    | ok a mid =>
        rw [bind_of_ok hend] at hsmall ⊢
        have hmid : (p s).rest.nextId < Nat.pow 2 32 := by
          rw [hend]
          exact Nat.lt_of_le_of_lt ((hf a).grows mid) hsmall
        rw [bind_of_ok ((hp.same s hmid).trans hend)]
        exact (hf a).same mid hsmall
    | fail error mid =>
        rw [bind_of_fail hend] at hsmall ⊢
        have hmid : (p s).rest.nextId < Nat.pow 2 32 := by rwa [hend]
        exact bind_of_fail ((hp.same s hmid).trans hend)

/-- Another form of a value fits if the value does. -/
theorem Fits.map (g : α → β) (hp : Fits p' p) : Fits (g <$> p') (g <$> p) :=
  hp.bind fun _ => fits_pure

/-- What fits for every depth fits for that of the source. -/
theorem fits_bounded {p' p : Nat → Parser α} (h : ∀ fuel, Fits (p' fuel) (p fuel)) :
    Fits (bounded p') (bounded p) :=
  ⟨fun s => (h _).grows s, fun s => (h _).same s⟩

/-- The word behind a number is that of the next number. -/
theorem toNat_ofNat_succ {n : Nat} (h : n + 1 < Nat.pow 2 32) :
    (UInt32.ofNat n + 1).toNat = n + 1 := by
  have hword : (UInt32.ofNat n).toNat = n := UInt32.toNat_ofNat_of_lt' (Nat.lt_of_succ_lt h)
  have hone : (1 : UInt32).toNat = 1 := rfl
  rw [UInt32.toNat_add, hword, hone]
  exact Nat.mod_eq_of_lt h

/-- **A number is taken**: the next one is a word too. -/
theorem fits_fresh : Fits wrapping.fresh freshId where
  grows s := Nat.le_succ _
  same s hsmall := by
    have hnext := toNat_ofNat_succ hsmall
    simp only [wrapping, freshId, hnext]

/-- Merging places without a bound takes no number. -/
theorem fits_merge {f' : Span → Parser β} (a b : Span) (h : Fits (f' (a.merge b)) q) :
    Fits (wrapping.merge a b >>= f') q :=
  ⟨h.grows, h.same⟩

end

/-! ## Tokens -/

/-- Looking at the next token gives out no number. -/
theorem fits_peek : Fits peek peek := fits_of_keeps fun _ => rfl

/-- Taking a token gives out no number. -/
theorem fits_advance : Fits advance advance := fits_of_keeps fun _ => rfl

/-- Looking for a kind of token gives out no number. -/
theorem fits_check (kind : TokenKind) : Fits (check kind) (check kind) :=
  fits_of_keeps fun _ => rfl

/-- A token that may be there gives out no number. -/
theorem fits_eat (kind : TokenKind) : Fits (eat kind) (eat kind) := by
  refine fits_of_keeps fun s => ?_
  unfold eat
  split <;> rfl

/-- A token that has to be there gives out no number. -/
theorem fits_expect (kind : TokenKind) : Fits (expect kind) (expect kind) := by
  refine fits_of_keeps fun s => ?_
  unfold expect
  simp only
  split
  · rfl
  · split <;> rfl

/-- A name gives out no number. -/
theorem fits_ident : Fits ident ident := by
  refine fits_of_keeps fun s => ?_
  unfold ident
  simp only
  split <;> rfl

/-- Skipping to the next statement gives out no number. -/
theorem fits_skipStatement : Fits skipStatement skipStatement := fits_of_keeps fun _ => rfl

/-- Skipping to the next item gives out no number. -/
theorem fits_skipItem : Fits skipItem skipItem := fits_of_keeps fun _ => rfl

/-- The stars of a type give out no number. -/
theorem fits_starsUpTo (fuel : Nat) (ty : TypeExpr) :
    Fits (wrapping.starsUpTo fuel ty) (starsUpTo fuel ty) := by
  induction fuel generalizing ty with
  | zero => exact fits_exhausted
  | succ fuel ih =>
      refine fits_peek.bind fun token => (fits_eat _).bind fun eaten => ?_
      cases eaten with
      | true => exact fits_merge _ _ (ih _)
      | false => exact fits_pure

/-- Types give out no number. -/
theorem fits_typeExpr : Fits wrapping.typeExpr typeExpr := by
  refine fits_peek.bind fun token => ?_
  have hstars : ∀ base : TypeBase,
      Fits (advance *> bounded (wrapping.starsUpTo · ⟨base, 0, token.span⟩))
        (advance *> bounded (starsUpTo · ⟨base, 0, token.span⟩)) := fun base =>
    fits_advance.bind fun _ => fits_bounded fun fuel => fits_starsUpTo fuel _
  cases token.kind with
  | keyword word =>
      cases word with
      | type base => exact hstars _
      | _ => exact fits_fail _
  | identifier => exact hstars _
  | eof => exact fits_fail _
  | _ => exact fits_fail _

/-! ## Lists -/

section

variable {α : Type} {p' p : Parser α} {skip : Parser Unit}

/-- A list between separators fits if its elements do. -/
theorem fits_separatedUpTo (h : Fits p' p) (fuel : Nat) :
    Fits (separatedUpTo p' fuel) (separatedUpTo p fuel) := by
  induction fuel with
  | zero => exact fits_exhausted
  | succ fuel ih =>
      refine h.bind fun first => (fits_eat _).bind fun eaten => ?_
      cases eaten with
      | true => exact ih.bind fun rest => fits_pure
      | false => exact fits_pure

/-- A list up to a mark fits if its elements do. -/
theorem fits_many (stop : TokenKind → Bool) (h : Fits p' p) :
    Fits (many stop p') (many stop p) := by
  refine fits_bounded fun fuel => ?_
  induction fuel with
  | zero => exact fits_exhausted
  | succ fuel ih =>
      refine fits_peek.bind fun token => ?_
      split
      · exact fits_pure
      · exact h.bind fun first => ih.bind fun rest => fits_pure

/-- Where a value is given up, the numbers that it took are not given back. -/
theorem nextId_le_attempt (hskip : Fits skip skip) (s : ParserState) :
    (p s).rest.nextId ≤ (attempt p skip s).rest.nextId := by
  unfold attempt
  cases hend : p s with
  | ok a rest => exact Nat.le_refl _
  | fail error rest =>
      have hrest := hskip.grows { rest with errors := rest.errors ++ [error] }
      have hreport : (report error >>= fun _ => skip) rest =
          skip { rest with errors := rest.errors ++ [error] } := rfl
      simp only [hreport]
      cases hlast : skip { rest with errors := rest.errors ++ [error] } <;>
        rwa [hlast] at hrest

/-- An attempt fits: numbers that were given out before an error stay given out. -/
theorem fits_attempt (h : Fits p' p) (hskip : Fits skip skip) :
    Fits (attempt p' skip) (attempt p skip) where
  grows s := Nat.le_trans (h.grows s) (nextId_le_attempt hskip s)
  same s hsmall := by
    have hsame := h.same s (Nat.lt_of_le_of_lt (nextId_le_attempt hskip s) hsmall)
    simp only [attempt, hsame]

/-- A list that goes on after errors fits if its elements do. -/
theorem fits_recovering (stop : TokenKind → Bool) (h : Fits p' p) (hskip : Fits skip skip) :
    Fits (recovering stop p' skip) (recovering stop p skip) := by
  refine fits_bounded fun fuel => ?_
  induction fuel with
  | zero => exact fits_exhausted
  | succ fuel ih =>
      refine fits_peek.bind fun token => ?_
      split
      · exact fits_pure
      · exact (fits_attempt h hskip).bind fun found => ih.bind fun rest => fits_pure

end

/-! ## Expressions -/

/-- A literal is numbered in words. -/
theorem fits_literal (value : Literal) : Fits (wrapping.literal value) (literal value) :=
  fits_advance.bind fun _ => fits_fresh.bind fun _ => fits_pure

section

variable {p' p : Parser Expr}

/-- Arguments fit if expressions do. -/
theorem fits_arguments (h : Fits p' p) : Fits (arguments p') (arguments p) := by
  refine (fits_expect _).bind fun _ => (fits_check _).bind fun empty => ?_
  have hclose : ∀ args : List Expr,
      Fits (do let close ← expect (.mark .rightParen); return (args, close.span))
        (do let close ← expect (.mark .rightParen); return (args, close.span)) := fun args =>
    (fits_expect _).bind fun _ => fits_pure
  cases empty with
  | true => exact hclose []
  | false => exact (fits_bounded fun fuel => fits_separatedUpTo h fuel).bind hclose

/-- An operand by itself fits if expressions inside it do. -/
theorem fits_primary (h : Fits p' p) : Fits (wrapping.primary p') (primary p) := by
  refine fits_peek.bind fun token => ?_
  cases token.kind with
  | integer =>
      simp only
      split
      · exact fits_literal _
      · exact fits_fail _
  | string => exact fits_literal _
  | identifier =>
      refine fits_ident.bind fun name => (fits_check _).bind fun isCall => ?_
      cases isCall with
      | true =>
          exact (fits_arguments h).bind fun result => fits_fresh.bind fun id =>
            fits_merge _ _ fits_pure
      | false => exact fits_fresh.bind fun id => fits_pure
  | keyword word =>
      cases word with
      | boolean value => exact fits_literal _
      | _ => exact fits_fail _
  | mark m =>
      cases m with
      | leftParen =>
          exact fits_advance.bind fun _ => h.bind fun inner =>
            (fits_expect _).bind fun _ => fits_pure
      | _ => exact fits_fail _
  | eof => exact fits_fail _

/-- Calls and members on an operand fit. -/
theorem fits_suffixesUpTo (h : Fits p' p) (fuel : Nat) (object : Expr) :
    Fits (wrapping.suffixesUpTo p' fuel object) (suffixesUpTo p fuel object) := by
  induction fuel generalizing object with
  | zero => exact fits_exhausted
  | succ fuel ih =>
      refine (fits_eat _).bind fun eaten => ?_
      cases eaten with
      | false => exact fits_pure
      | true =>
          refine fits_ident.bind fun name => (fits_check _).bind fun isCall => ?_
          cases isCall with
          | true =>
              exact (fits_arguments h).bind fun result => fits_fresh.bind fun id =>
                fits_merge _ _ (ih _)
          | false => exact fits_fresh.bind fun id => fits_merge _ _ (ih _)

end

/-- Operators and their operands fit. -/
theorem fits_operatorsUpTo {p' p : Nat → Parser Expr} (h : ∀ power, Fits (p' power) (p power))
    (power fuel : Nat) (left : Expr) :
    Fits (wrapping.operatorsUpTo p' power fuel left) (operatorsUpTo p power fuel left) := by
  induction fuel generalizing left with
  | zero => exact fits_exhausted
  | succ fuel ih =>
      have hside : ∀ (power' : Nat) (build : NodeId → Expr → Span → Expr),
          Fits (do
              let _ ← advance
              let value ← p' power'
              let id ← wrapping.fresh
              let span ← wrapping.merge left.span value.span
              wrapping.operatorsUpTo p' power fuel (build id value span))
            (do
              let _ ← advance
              let value ← p power'
              let id ← freshId
              operatorsUpTo p power fuel (build id value (left.span.merge value.span))) :=
        fun power' build => fits_advance.bind fun _ => (h _).bind fun value =>
          fits_fresh.bind fun id => fits_merge _ _ (ih _)
      refine fits_peek.bind fun token => ?_
      split
      · split
        · exact fits_pure
        · split
          · exact hside _ fun id value span => .assign id left value span
          · exact fits_fail _
      · cases token.kind.operator? with
        | none => exact fits_pure
        | some op =>
            simp only
            split
            · exact fits_pure
            · exact hside _ fun id value span => .binary id op left value span

/-- Expressions of every depth fit. -/
theorem fits_exprUpTo (fuel power : Nat) :
    Fits (wrapping.exprUpTo fuel power) (exprUpTo fuel power) := by
  induction fuel generalizing power with
  | zero => exact fits_exhausted
  | succ fuel ih =>
      refine (fits_primary (ih 0)).bind fun head => ?_
      refine (fits_bounded fun n => fits_suffixesUpTo (ih 0) n head).bind fun operand => ?_
      exact fits_bounded fun n => fits_operatorsUpTo ih power n operand

/-- **Expressions are numbered in words** as without a bound. -/
theorem fits_expr : Fits wrapping.expr expr := fits_bounded fun fuel => fits_exprUpTo fuel 0

/-! ## Statements -/

/-- Declarations of variables fit. -/
theorem fits_varDecl : Fits wrapping.varDecl varDecl := by
  refine fits_typeExpr.bind fun ty => fits_ident.bind fun name =>
    (fits_eat _).bind fun present => ?_
  have hrest : ∀ value : Option Expr,
      Fits (do let stop ← expect (.mark .semicolon)
               let id ← wrapping.fresh
               let span ← wrapping.merge ty.span stop.span
               return Stmt.varDecl id ty name value span)
        (do let stop ← expect (.mark .semicolon)
            return Stmt.varDecl (← freshId) ty name value (ty.span.merge stop.span)) := fun value =>
    (fits_expect _).bind fun stop => fits_fresh.bind fun id => fits_merge _ _ fits_pure
  cases present with
  | true => exact (fits_expr.map some).bind hrest
  | false => exact fits_pure.bind hrest

/-- Expressions as statements fit. -/
theorem fits_exprStmt : Fits wrapping.exprStmt exprStmt :=
  fits_expr.bind fun _ => (fits_expect _).bind fun _ => fits_merge _ _ fits_pure

/-- Returns fit. -/
theorem fits_returnStmt : Fits wrapping.returnStmt returnStmt := by
  refine (fits_expect _).bind fun start => (fits_check _).bind fun empty => ?_
  have hrest : ∀ value : Option Expr,
      Fits (do let stop ← expect (.mark .semicolon)
               let span ← wrapping.merge start.span stop.span
               return Stmt.ret value span)
        (do let stop ← expect (.mark .semicolon)
            return Stmt.ret value (start.span.merge stop.span)) := fun value =>
    (fits_expect _).bind fun stop => fits_merge _ _ fits_pure
  cases empty with
  | true => exact fits_pure.bind hrest
  | false => exact (fits_expr.map some).bind hrest

section

variable {p' p : Parser Stmt}

/-- A block fits if the statements in it do. -/
theorem fits_blockWith (h : Fits p' p) : Fits (wrapping.blockWith p') (blockWith p) :=
  (fits_expect _).bind fun _ => fits_fresh.bind fun _ =>
    (fits_recovering _ h fits_skipStatement).bind fun _ =>
      (fits_expect _).bind fun _ => fits_merge _ _ fits_pure

/-- A conditional statement fits if its sides do. -/
theorem fits_ifWith (h : Fits p' p) : Fits (wrapping.ifWith p') (ifWith p) := by
  refine (fits_expect _).bind fun start => (fits_expect _).bind fun _ => ?_
  refine fits_expr.bind fun condition => (fits_expect _).bind fun _ => h.bind fun positive => ?_
  refine (fits_eat _).bind fun hasElse => ?_
  cases hasElse with
  | true => exact h.bind fun negative => fits_merge _ _ fits_pure
  | false => exact fits_merge _ _ fits_pure

/-- Which statement is read depends on the tokens only. -/
theorem fits_stmtWith (h : Fits p' p) : Fits (wrapping.stmtWith p') (stmtWith p) := by
  have hchoice : ∀ s : ParserState, ∃ q' q, Fits q' q ∧ wrapping.stmtWith p' s = q' s ∧
      stmtWith p s = q s := by
    intro s
    have hother : ∃ q' q, Fits q' q ∧
        (if s.startsVarDecl then wrapping.varDecl s else wrapping.exprStmt s) = q' s ∧
          (if s.startsVarDecl then varDecl s else exprStmt s) = q s := by
      split
      · exact ⟨_, _, fits_varDecl, rfl, rfl⟩
      · exact ⟨_, _, fits_exprStmt, rfl, rfl⟩
    unfold Arithmetic.stmtWith stmtWith
    cases s.peek.kind with
    | keyword word =>
        cases word with
        | ifWord => exact ⟨_, _, fits_ifWith h, rfl, rfl⟩
        | returnWord => exact ⟨_, _, fits_returnStmt, rfl, rfl⟩
        | _ => exact hother
    | mark m =>
        cases m with
        | leftBrace => exact ⟨_, _, (fits_blockWith h).map Block.toStmt, rfl, rfl⟩
        | _ => exact hother
    | _ => exact hother
  constructor
  · intro s
    obtain ⟨q', q, hq, -, hp⟩ := hchoice s
    exact hp ▸ hq.grows s
  · intro s hsmall
    obtain ⟨q', q, hq, hp', hp⟩ := hchoice s
    rw [hp] at hsmall
    exact hp'.trans ((hq.same s hsmall).trans hp.symm)

end

/-- Statements of every depth fit. -/
theorem fits_stmtUpTo (fuel : Nat) : Fits (wrapping.stmtUpTo fuel) (stmtUpTo fuel) := by
  induction fuel with
  | zero => exact fits_exhausted
  | succ fuel ih => exact fits_stmtWith ih

/-- **Blocks are numbered in words** as without a bound. -/
theorem fits_block : Fits wrapping.block block := fits_blockWith (fits_bounded fits_stmtUpTo)

/-! ## Declarations -/

/-- Parameters fit. -/
theorem fits_param : Fits wrapping.param param :=
  fits_typeExpr.bind fun _ => fits_ident.bind fun _ => fits_fresh.bind fun _ =>
    fits_merge _ _ fits_pure

/-- Parameters fit, however many there are. -/
theorem fits_paramsUpTo (isExternal : Bool) (fuel : Nat) :
    Fits (wrapping.paramsUpTo isExternal fuel) (paramsUpTo isExternal fuel) := by
  induction fuel with
  | zero => exact fits_exhausted
  | succ fuel ih =>
      refine fits_peek.bind fun token => (fits_eat _).bind fun ellipsis => ?_
      cases ellipsis with
      | true =>
          cases isExternal with
          | true =>
              refine (fits_check _).bind fun closed => ?_
              cases closed with
              | true => exact fits_pure
              | false => exact fits_peek.bind fun found => fits_fail _
          | false => exact fits_fail _
      | false =>
          refine fits_param.bind fun first => (fits_eat _).bind fun comma => ?_
          cases comma with
          | true => exact ih.bind fun rest => fits_pure
          | false => exact fits_pure

/-- Lists of parameters fit. -/
theorem fits_params (isExternal : Bool) :
    Fits (wrapping.params isExternal) (params isExternal) := by
  refine (fits_expect _).bind fun _ => (fits_check _).bind fun empty => ?_
  have hrest : ∀ result : List Param × Bool,
      Fits (do let _ ← expect (.mark .rightParen); return result)
        (do let _ ← expect (.mark .rightParen); return result) := fun result =>
    (fits_expect _).bind fun _ => fits_pure
  cases empty with
  | true => exact hrest ([], false)
  | false => exact (fits_bounded fun fuel => fits_paramsUpTo isExternal fuel).bind hrest

/-- Functions with a body fit. -/
theorem fits_functionRest (returnType : TypeExpr) (name : Ident) :
    Fits (wrapping.functionRest returnType name) (functionRest returnType name) :=
  fits_fresh.bind fun _ => (fits_params false).bind fun _ => fits_block.bind fun _ =>
    fits_merge _ _ fits_pure

/-- Functions without a body fit. -/
theorem fits_externalRest (returnType : TypeExpr) (name : Ident) :
    Fits (wrapping.externalRest returnType name) (externalRest returnType name) :=
  fits_fresh.bind fun _ => (fits_params true).bind fun _ => (fits_expect _).bind fun _ =>
    fits_merge _ _ fits_pure

/-- Declarations of functions elsewhere fit. -/
theorem fits_externalDecl : Fits wrapping.externalDecl externalDecl :=
  (fits_expect _).bind fun _ => fits_typeExpr.bind fun _ => fits_ident.bind fun _ =>
    (fits_externalRest _ _).bind fun _ => fits_merge _ _ fits_pure

/-- Fields fit from their names on. -/
theorem fits_fieldRest (ty : TypeExpr) (name : Ident) :
    Fits (wrapping.fieldRest ty name) (fieldRest ty name) :=
  (fits_expect _).bind fun _ => fits_fresh.bind fun _ => fits_merge _ _ fits_pure

/-- Fields fit. -/
theorem fits_fieldDecl : Fits wrapping.fieldDecl fieldDecl :=
  fits_typeExpr.bind fun _ => fits_ident.bind fun _ => fits_fieldRest _ _

/-- Members of classes fit. -/
theorem fits_classMember : Fits wrapping.classMember classMember := by
  refine fits_typeExpr.bind fun ty => fits_ident.bind fun name => ?_
  refine (fits_check _).bind fun isMethod => ?_
  cases isMethod with
  | true => exact (fits_functionRest ty name).map ClassMember.method
  | false => exact (fits_fieldRest ty name).map ClassMember.field

/-- Classes fit. -/
theorem fits_classDecl : Fits wrapping.classDecl classDecl := by
  refine (fits_expect _).bind fun start => fits_fresh.bind fun id => fits_ident.bind fun name => ?_
  refine (fits_eat _).bind fun extended => ?_
  have hrest : ∀ parent : Option Ident,
      Fits (do let _ ← expect (.mark .leftBrace)
               let members ← recovering closesBraces wrapping.classMember skipStatement
               let stop ← expect (.mark .rightBrace)
               let span ← wrapping.merge start.span stop.span
               return (⟨id, name, parent, members, span⟩ : ClassDecl))
        (do let _ ← expect (.mark .leftBrace)
            let members ← recovering closesBraces classMember skipStatement
            let stop ← expect (.mark .rightBrace)
            return (⟨id, name, parent, members, start.span.merge stop.span⟩ : ClassDecl)) :=
    fun parent => (fits_expect _).bind fun _ =>
      (fits_recovering _ fits_classMember fits_skipStatement).bind fun _ =>
        (fits_expect _).bind fun _ => fits_merge _ _ fits_pure
  cases extended with
  | true => exact (fits_ident.map some).bind hrest
  | false => exact fits_pure.bind hrest

/-- Structs fit. -/
theorem fits_structDecl : Fits wrapping.structDecl structDecl :=
  (fits_expect _).bind fun _ => fits_fresh.bind fun _ => fits_ident.bind fun _ =>
    (fits_expect _).bind fun _ => (fits_many _ fits_fieldDecl).bind fun _ =>
      (fits_expect _).bind fun _ => fits_merge _ _ fits_pure

/-- Functions outside of classes fit. -/
theorem fits_freeFunction : Fits wrapping.freeFunction freeFunction := by
  refine fits_typeExpr.bind fun ty => fits_ident.bind fun name => ?_
  refine (fits_check _).bind fun isFunction => ?_
  cases isFunction with
  | true => exact fits_functionRest ty name
  | false => exact fits_fail _

/-- **Items are numbered in words** as without a bound. -/
theorem fits_item : Fits wrapping.item item := by
  refine fits_peek.bind fun token => ?_
  cases token.kind with
  | keyword word =>
      cases word with
      | classWord => exact fits_classDecl.map Item.classDecl
      | structWord => exact fits_structDecl.map Item.structDecl
      | externWord => exact fits_externalDecl.map Item.function
      | _ => exact fits_freeFunction.map Item.function
  | _ => exact fits_freeFunction.map Item.function

/-- Items fit, so that a source is read alike if the number behind all of them is a
word. -/
theorem fits_items : Fits wrapping.items items := fits_recovering _ fits_item fits_skipItem

end Parser

namespace Script

/-- **Nothing wraps around**: numbering in words does not change what is read, if fewer numbers are
given out than there are words. -/
theorem readWords_eq {source : String} (hfew : (read source).script.nodeCount < Nat.pow 2 32) :
    readWords source = read source := by
  have hsmall : (Parser.items (.ofSource source)).rest.nextId < Nat.pow 2 32 := by
    revert hfew
    unfold read readLexed ParserState.ofSource
    simp only
    cases Parser.items (.ofLexed (lex source)) <;> exact id
  have hsame := Parser.fits_items.same (.ofSource source) hsmall
  unfold readWords read readLexed
  simp only [hsame]
  rfl

/-- **Node numbers are good keys.**  Where the numbers do not wrap around, they are those that are
counted without a bound: pairwise different and below the count, also in what is left of a source
with errors; without syntax errors each of them belongs to a node. -/
theorem read_keyed (source : String) (hfew : (read source).script.nodeCount < Nat.pow 2 32) :
    readWords source = read source ∧ (readWords source).Keyed := by
  have hsame := readWords_eq hfew
  exact ⟨hsame, hsame.symm ▸ keyed_read source⟩

/-- A source with a call that is given up at a semicolon. -/
def openCall : String := "int f() \x7b g(1; 2; \x7d"

/-- The number of the argument is lost with the call. -/
theorem read_keyed_openCall :
    (read openCall).script.nodeCount < Nat.pow 2 32 ∧
      (readWords openCall).script.nodes = [0, 1, 3] ∧
        (readWords openCall).script.nodeCount = 4 ∧ (readWords openCall).Keyed := by
  have hnodes : (read openCall).script.nodes = [0, 1, 3] := by decide +kernel
  have hcount : (read openCall).script.nodeCount = 4 := by decide +kernel
  have hfew : (read openCall).script.nodeCount < Nat.pow 2 32 := hcount.symm ▸ by decide
  obtain ⟨hsame, hkeyed⟩ := read_keyed openCall hfew
  exact ⟨hfew, hsame ▸ hnodes, hsame ▸ hcount, hkeyed⟩

end Script

end ClassLang
