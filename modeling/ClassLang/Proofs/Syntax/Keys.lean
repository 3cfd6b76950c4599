import ClassLang.Proofs.Syntax.Offset
import ClassLang.Proofs.Syntax.Parse
import Mathlib.Data.List.Perm.Subperm

/-!
# Node numbers as keys

What later stages find out about a node is kept under its number.  So the numbers of a tree must
tell its nodes apart, also in what is left of a source with errors; that is what `Numbered` says of
every production.  This file counts: a production that notes no error gives out exactly one number
for each node of its value (`Parser.Spends`).  Numbers that are lost belong to nodes that were given
up behind an error, and where no error was noted the numbers of a script are all that were given out
(`Script.keyed_read`).
-/

namespace ClassLang

/-- The numbers of what was read of a source are good as keys. -/
structure ScriptReading.Keyed (reading : ScriptReading) : Prop where
  distinct : reading.script.nodes.Nodup
  below : ∀ n ∈ reading.script.nodes, n < reading.script.nodeCount
  /-- Without syntax errors no number is left out. -/
  complete : reading.errors = [] → reading.script.nodes.Perm (List.range reading.script.nodeCount)

/-- What a parser does to the errors that were noted and to the numbers, if `before` nodes of the
value had been read when it started: errors stay noted, and where none is added, every number that
is given out belongs to the value. -/
def Parsed.Spends {α : Type} (s : ParserState) (before : Nat) (count : α → Nat) : Parsed α → Prop
  | .ok a rest => s.errors <+: rest.errors ∧
      (rest.errors = s.errors → before + rest.nextId = count a + s.nextId)
  | .fail _ rest => s.errors <+: rest.errors

namespace Parser

/-- A parser that spends numbers on the nodes of its value only, `before` of which had been read
when it started. -/
def Spends {α : Type} (before : Nat) (p : Parser α) (count : α → Nat) : Prop :=
  ∀ s : ParserState, (p s).Spends s before count

/-- A parser that spends no number. -/
def Free {α : Type} (p : Parser α) : Prop := ∀ before, Spends before p fun _ => before

/-- A parser that spends one number for each node of its value. -/
def Counts {α : Type} (p : Parser α) (nodes : α → List NodeId) : Prop :=
  Spends 0 p fun a => (nodes a).length

section

variable {α β : Type} {before : Nat} {p : Parser α} {count : α → Nat} {total : β → Nat}
  {nodes : α → List NodeId}

/-- A parser that either gives up or leaves the errors alone spends what the count says.
-/
theorem spends_of_stays {count : Nat} (h : ∀ s, (∃ a s', p s = .ok a s' ∧ s'.errors = s.errors ∧
      before + s'.nextId = count + s.nextId) ∨ ∃ error, p s = .fail error s) :
    Spends before p fun _ => count := by
  intro s
  rcases h s with ⟨a, s', hp, herrors, hspent⟩ | ⟨error, hp⟩
  · rw [hp]
    exact ⟨herrors ▸ List.prefix_rfl, fun _ => hspent⟩
  · rw [hp]
    exact List.prefix_rfl

/-- A result spends nothing. -/
theorem spends_pure {a : α} (h : count a = before) : Spends before (pure a) count :=
  fun _ => ⟨List.prefix_rfl, fun _ => h ▸ rfl⟩

/-- A failure spends nothing that is counted. -/
theorem spends_fail (error : SyntaxError) : Spends before (fail error : Parser α) count :=
  fun _ => List.prefix_rfl

/-- Nesting that is too deep spends nothing that is counted. -/
theorem spends_exhausted : Spends before (exhausted : Parser α) count := fun _ => List.prefix_rfl

/-- What is counted for every depth is counted for that of the source. -/
theorem spends_bounded {p : Nat → Parser α} (h : ∀ fuel, Spends before (p fuel) count) :
    Spends before (bounded p) count :=
  fun s => h (s.tokens.length + 1) s

/-- What the first parser has read is there when the second one starts. -/
theorem Spends.bind {f : α → Parser β} (hp : Spends before p count)
    (hf : ∀ a, Spends (count a) (f a) total) : Spends before (p >>= f) total := by
  intro s
  have h₁ := hp s
  cases hfirst : p s with
  | fail error rest =>
      rw [hfirst] at h₁
      rw [bind_of_fail hfirst]
      exact h₁
  | ok a mid =>
      rw [hfirst] at h₁
      obtain ⟨hmid, hspent₁⟩ := h₁
      have h₂ := hf a mid
      rw [bind_of_ok hfirst]
      cases hsecond : f a mid with
      | fail error rest =>
          rw [hsecond] at h₂
          exact hmid.trans h₂
      | ok b rest =>
          rw [hsecond] at h₂
          obtain ⟨hrest, hspent₂⟩ := h₂
          refine ⟨hmid.trans hrest, fun hsame => ?_⟩
          -- No error was added on the way, because none is missing at the end.
          have hmid' : mid.errors = s.errors :=
            (hmid.eq_of_length_le (hsame ▸ hrest.length_le)).symm
          have h₁ := hspent₁ hmid'
          have h₂ := hspent₂ (hsame.trans hmid'.symm)
          omega

/-- Another form of a value has the same nodes. -/
theorem Counts.map {g : α → β} {nodes : β → List NodeId} (hp : Counts p fun a => nodes (g a)) :
    Counts (g <$> p) nodes :=
  Spends.bind hp fun _ => spends_pure rfl

/-- A part that is read behind others. -/
theorem Counts.after (h : Counts p nodes) (before : Nat) :
    Spends before p fun a => before + (nodes a).length := by
  intro s
  have hp := h s
  revert hp
  cases p s with
  | fail error rest => exact id
  | ok a rest =>
      refine fun hp => ⟨hp.1, fun hsame => ?_⟩
      have hspent := hp.2 hsame
      simp only at hspent ⊢
      omega

end

/-! ## Tokens -/

/-- Looking at the next token is free. -/
theorem free_peek : Free peek := fun _ =>
  spends_of_stays fun s => .inl ⟨s.peek, s, rfl, rfl, rfl⟩

/-- Taking a token is free. -/
theorem free_advance : Free advance := fun _ =>
  spends_of_stays fun s => .inl ⟨s.peek, s.skip, rfl, rfl, rfl⟩

/-- Looking for a kind of token is free. -/
theorem free_check (kind : TokenKind) : Free (check kind) := fun _ =>
  spends_of_stays fun s => .inl ⟨s.peek.kind == kind, s, rfl, rfl, rfl⟩

/-- A token that may be there is free. -/
theorem free_eat (kind : TokenKind) : Free (eat kind) := by
  refine fun _ => spends_of_stays fun s => .inl ?_
  unfold eat
  split
  · exact ⟨true, s.skip, rfl, rfl, rfl⟩
  · exact ⟨false, s, rfl, rfl, rfl⟩

/-- A token that has to be there is free. -/
theorem free_expect (kind : TokenKind) : Free (expect kind) := by
  refine fun _ => spends_of_stays fun s => ?_
  unfold expect
  simp only
  split
  · exact .inl ⟨s.peek, s.skip, rfl, rfl, rfl⟩
  · split <;> exact .inr ⟨_, rfl⟩

/-- A name is free. -/
theorem free_ident : Free ident := by
  refine fun _ => spends_of_stays fun s => ?_
  unfold ident
  simp only
  split
  · exact .inl ⟨_, s.skip, rfl, rfl, rfl⟩
  · exact .inr ⟨_, rfl⟩
  · exact .inr ⟨_, rfl⟩

/-- What is free may be done in a row. -/
theorem Free.bind {α β : Type} {p : Parser α} {f : α → Parser β} (hp : Free p)
    (hf : ∀ a, Free (f a)) : Free (p >>= f) :=
  fun before => (hp before).bind fun a => hf a before

/-- The stars of a type are free. -/
theorem free_starsUpTo (fuel : Nat) (ty : TypeExpr) : Free (starsUpTo fuel ty) := by
  induction fuel generalizing ty with
  | zero => exact fun _ => spends_exhausted
  | succ fuel ih =>
      refine free_peek.bind fun token => (free_eat _).bind fun eaten => ?_
      cases eaten with
      | true => exact ih _
      | false => exact fun _ => spends_pure rfl

/-- Types are free: they have no nodes. -/
theorem free_typeExpr : Free typeExpr := by
  refine free_peek.bind fun token => ?_
  have hstars : ∀ ty, Free (do let _ ← advance; bounded (starsUpTo · ty)) := fun ty =>
    free_advance.bind fun _ before => spends_bounded fun fuel => free_starsUpTo fuel ty before
  split
  · exact hstars _
  · exact hstars _
  · exact fun _ => spends_fail _
  · exact fun _ => spends_fail _

/-- A fresh number is spent on one node. -/
theorem spends_freshId (before : Nat) : Spends before freshId fun _ => before + 1 :=
  spends_of_stays fun s => .inl ⟨s.nextId, { s with nextId := s.nextId + 1 }, rfl, rfl, by
    simp only
    omega⟩

/-! ## Lists -/

section

variable {α : Type} {p : Parser α} {nodes : α → List NodeId}

/-- Each element of a list spends what its nodes need. -/
theorem counts_separatedUpTo (h : Counts p nodes) (fuel : Nat) :
    Counts (separatedUpTo p fuel) (List.flatMap nodes) := by
  induction fuel with
  | zero => exact spends_exhausted
  | succ fuel ih =>
      refine Spends.bind h fun first => (free_eat _ _).bind fun eaten => ?_
      cases eaten with
      | true => exact (ih.after _).bind fun rest => spends_pure (by simp)
      | false => exact spends_pure (by simp)

/-- A list between separators spends what its elements need. -/
theorem counts_separated (h : Counts p nodes) : Counts (separated p) (List.flatMap nodes) :=
  spends_bounded fun fuel => counts_separatedUpTo h fuel

/-- A list up to a mark spends what its elements need. -/
theorem counts_manyUpTo (stop : TokenKind → Bool) (h : Counts p nodes) (fuel : Nat) :
    Counts (manyUpTo stop p fuel) (List.flatMap nodes) := by
  induction fuel with
  | zero => exact spends_exhausted
  | succ fuel ih =>
      refine (free_peek _).bind fun token => ?_
      split
      · exact spends_pure rfl
      · exact Spends.bind h fun first => (ih.after _).bind fun rest => spends_pure (by simp)

/-- The same without a bound on the length. -/
theorem counts_many (stop : TokenKind → Bool) (h : Counts p nodes) :
    Counts (many stop p) (List.flatMap nodes) :=
  spends_bounded fun fuel => counts_manyUpTo stop h fuel

/-- Where a value is given up, an error is noted, and nothing is claimed of the numbers. -/
theorem counts_attempt {skip : Parser Unit} (h : Counts p nodes) (hskip : Free skip) :
    Counts (attempt p skip) fun found => found.toList.flatMap nodes := by
  intro s
  have hp := h s
  unfold attempt
  revert hp
  cases p s with
  | ok a rest => exact fun hp => ⟨hp.1, fun hsame => by simpa using hp.2 hsame⟩
  | fail error rest =>
      intro hp
      have hrest := hskip 0 { rest with errors := rest.errors ++ [error] }
      have hreport : (report error >>= fun _ => skip) rest =
          skip { rest with errors := rest.errors ++ [error] } := rfl
      have hnoted : s.errors <+: rest.errors ++ [error] := hp.trans (List.prefix_append ..)
      simp only [hreport]
      revert hrest
      cases skip _ with
      | fail error' rest' => exact hnoted.trans
      | ok a rest' =>
          rintro ⟨hmore, -⟩
          refine ⟨hnoted.trans hmore, fun hsame => ?_⟩
          have hlonger := hmore.length_le
          have hshorter := hp.length_le
          rw [hsame, List.length_append, List.length_singleton] at hlonger
          omega

/-- A list that goes on after errors spends what its elements need, unless it has noted
one. -/
theorem counts_recoveringUpTo (stop : TokenKind → Bool) {skip : Parser Unit} (h : Counts p nodes)
    (hskip : Free skip) (fuel : Nat) :
    Counts (recoveringUpTo stop p skip fuel) (List.flatMap nodes) := by
  induction fuel with
  | zero => exact spends_exhausted
  | succ fuel ih =>
      refine (free_peek _).bind fun token => ?_
      split
      · exact spends_pure rfl
      · exact Spends.bind (counts_attempt h hskip) fun found =>
          (ih.after _).bind fun rest => spends_pure (by simp)

/-- The same without a bound on the length. -/
theorem counts_recovering (stop : TokenKind → Bool) {skip : Parser Unit} (h : Counts p nodes)
    (hskip : Free skip) : Counts (recovering stop p skip) (List.flatMap nodes) :=
  spends_bounded fun fuel => counts_recoveringUpTo stop h hskip fuel

/-- Skipping to the next statement is free. -/
theorem free_skipStatement : Free skipStatement := fun _ =>
  spends_of_stays fun s => .inl ⟨(), { s with tokens := afterStatement 0 s.tokens }, rfl, rfl, rfl⟩

/-- Skipping to the next item is free. -/
theorem free_skipItem : Free skipItem := fun _ =>
  spends_of_stays fun s => .inl ⟨(), { s with tokens := afterItem 0 s.tokens }, rfl, rfl, rfl⟩

end

/-! ## Expressions -/

/-- A literal spends one number. -/
theorem counts_literal (value : Literal) : Counts (literal value) Expr.nodes :=
  (free_advance _).bind fun _ => (spends_freshId _).bind fun _ => spends_pure rfl

/-- Arguments spend what each of them needs. -/
theorem counts_arguments {expr : Parser Expr} (h : Counts expr Expr.nodes) :
    Counts (arguments expr) fun result => Expr.nodesOfAll result.1 := by
  refine (free_expect _ _).bind fun _ => (free_check _ _).bind fun empty => ?_
  have hclose : ∀ args : List Expr, Spends (args.flatMap Expr.nodes).length
      (do let close ← expect (.mark .rightParen); return (args, close.span))
      fun result => (Expr.nodesOfAll result.1).length := fun args =>
    (free_expect _ _).bind fun close => spends_pure (by rw [nodesOfAll_eq_flatMap])
  cases empty with
  | true => exact hclose []
  | false => exact Spends.bind (counts_separated h) hclose

/-- An operand by itself spends what its parts need, and one more if it is a node. -/
theorem counts_primary {expr : Parser Expr} (h : Counts expr Expr.nodes) :
    Counts (primary expr) Expr.nodes := by
  refine (free_peek _).bind fun token => ?_
  split
  · simp only
    split
    · exact counts_literal _
    · exact spends_fail _
  · exact counts_literal _
  · exact counts_literal _
  · refine (free_ident _).bind fun name => (free_check _ _).bind fun isCall => ?_
    cases isCall with
    | true =>
        exact Spends.bind (counts_arguments h) fun result => (spends_freshId _).bind fun id =>
          spends_pure (by simp)
    | false => exact (spends_freshId _).bind fun id => spends_pure rfl
  · exact (free_advance _).bind fun _ => Spends.bind h fun inner =>
      (free_expect _ _).bind fun _ => spends_pure rfl
  · exact spends_fail _
  · exact spends_fail _

/-- A loop that goes on with an expression spends numbers on what it puts around it. -/
theorem counts_suffixesUpTo {expr : Parser Expr} (h : Counts expr Expr.nodes) (fuel : Nat)
    (object : Expr) :
    Spends object.nodes.length (suffixesUpTo expr fuel object) fun e => e.nodes.length := by
  induction fuel generalizing object with
  | zero => exact spends_exhausted
  | succ fuel ih =>
      refine (free_eat _ _).bind fun eaten => ?_
      cases eaten with
      | false => exact spends_pure rfl
      | true =>
          refine (free_ident _).bind fun name => (free_check _ _).bind fun isCall => ?_
          cases isCall with
          | true =>
              refine ((counts_arguments h).after _).bind fun result => ?_
              refine (spends_freshId _).bind fun id => ?_
              have hmore := ih (.methodCall id object name result.1 (object.span.merge result.2))
              simpa using hmore
          | false =>
              refine (spends_freshId _).bind fun id => ?_
              exact ih (.member id object name (object.span.merge name.span))

/-- Each operator spends one number besides those of its operands. -/
theorem counts_operatorsUpTo {expr : Nat → Parser Expr}
    (h : ∀ power, Counts (expr power) Expr.nodes) (power fuel : Nat) (left : Expr) :
    Spends left.nodes.length (operatorsUpTo expr power fuel left) fun e => e.nodes.length := by
  induction fuel generalizing left with
  | zero => exact spends_exhausted
  | succ fuel ih =>
      have hstop : Spends left.nodes.length (pure left : Parser Expr) fun e => e.nodes.length :=
        spends_pure rfl
      refine (free_peek _).bind fun token => ?_
      split
      · split
        · exact hstop
        · split
          · refine (free_advance _).bind fun _ => ((h _).after _).bind fun value => ?_
            refine (spends_freshId _).bind fun id => ?_
            have hmore := ih (.assign id left value (left.span.merge value.span))
            simpa using hmore
          · exact spends_fail _
      · split
        · exact hstop
        · next op _ =>
            split
            · exact hstop
            · refine (free_advance _).bind fun _ => ((h _).after _).bind fun right => ?_
              refine (spends_freshId _).bind fun id => ?_
              have hmore := ih (.binary id op left right (left.span.merge right.span))
              simpa using hmore

/-- Expressions of every depth are counted. -/
theorem counts_exprUpTo (fuel power : Nat) : Counts (exprUpTo fuel power) Expr.nodes := by
  induction fuel generalizing power with
  | zero => exact spends_exhausted
  | succ fuel ih =>
      refine Spends.bind (counts_primary (ih 0)) fun head => ?_
      refine (spends_bounded fun n => counts_suffixesUpTo (ih 0) n head).bind fun operand => ?_
      exact spends_bounded fun n => counts_operatorsUpTo ih power n operand

/-- **An expression spends one number for each node.** -/
theorem counts_expr : Counts expr Expr.nodes := spends_bounded fun fuel => counts_exprUpTo fuel 0

/-! ## Statements -/

/-- A value that may be missing spends what it needs if it is there. -/
theorem counts_optional (present : Bool) :
    Counts (if present then some <$> expr else pure none) Expr.nodesOfOption := by
  cases present with
  | true => exact Counts.map counts_expr
  | false => exact spends_pure rfl

/-- A declaration spends one number besides those of its value. -/
theorem counts_varDecl : Counts varDecl Stmt.nodes := by
  refine (free_typeExpr _).bind fun ty => (free_ident _).bind fun name => ?_
  refine (free_eat _ _).bind fun present => ?_
  have hrest : ∀ value : Option Expr, Spends (Expr.nodesOfOption value).length
      (do let stop ← expect (.mark .semicolon)
          return Stmt.varDecl (← freshId) ty name value (ty.span.merge stop.span))
      fun s => s.nodes.length := fun value =>
    (free_expect _ _).bind fun stop => (spends_freshId _).bind fun id => spends_pure rfl
  cases present with
  | true => exact Spends.bind (counts_optional true) hrest
  | false => exact Spends.bind (counts_optional false) hrest

/-- An expression as a statement spends what the expression needs. -/
theorem counts_exprStmt : Counts exprStmt Stmt.nodes :=
  Spends.bind counts_expr fun _ => (free_expect _ _).bind fun _ => spends_pure rfl

/-- A return spends what its value needs. -/
theorem counts_returnStmt : Counts returnStmt Stmt.nodes := by
  refine (free_expect _ _).bind fun start => (free_check _ _).bind fun empty => ?_
  have hrest : ∀ value : Option Expr, Spends (Expr.nodesOfOption value).length
      (do let stop ← expect (.mark .semicolon)
          return Stmt.ret value (start.span.merge stop.span))
      fun s => s.nodes.length := fun value =>
    (free_expect _ _).bind fun stop => spends_pure rfl
  cases empty with
  | true => exact Spends.bind (counts_optional false) hrest
  | false => exact Spends.bind (counts_optional true) hrest

/-- A block spends one number besides those of its statements. -/
theorem counts_blockWith {stmt : Parser Stmt} (h : Counts stmt Stmt.nodes) :
    Counts (blockWith stmt) fun b => b.toStmt.nodes := by
  refine (free_expect _ _).bind fun start => (spends_freshId _).bind fun id => ?_
  refine ((counts_recovering _ h free_skipStatement).after _).bind fun stmts => ?_
  refine (free_expect _ _).bind fun stop => spends_pure ?_
  simp only [Block.toStmt, Stmt.nodes, nodesOfAll_stmts, List.length_cons]
  omega

/-- A conditional statement spends what its condition and its sides need. -/
theorem counts_ifWith {stmt : Parser Stmt} (h : Counts stmt Stmt.nodes) :
    Counts (ifWith stmt) Stmt.nodes := by
  refine (free_expect _ _).bind fun start => (free_expect _ _).bind fun _ => ?_
  refine Spends.bind counts_expr fun condition => (free_expect _ _).bind fun _ => ?_
  refine (h.after _).bind fun positive => (free_eat _ _).bind fun hasElse => ?_
  cases hasElse with
  | true =>
      refine (h.after _).bind fun negative => spends_pure ?_
      rw [Stmt.nodes, List.length_append, List.length_append, Nat.add_assoc]
  | false =>
      refine spends_pure ?_
      rw [Stmt.nodes, List.length_append]

/-- A statement is counted if the statements in it are. -/
theorem counts_stmtWith {stmt : Parser Stmt} (h : Counts stmt Stmt.nodes) :
    Counts (stmtWith stmt) Stmt.nodes := by
  have hblock : Counts (Block.toStmt <$> blockWith stmt) Stmt.nodes := (counts_blockWith h).map
  intro s
  unfold stmtWith
  split
  · exact counts_ifWith h s
  · exact counts_returnStmt s
  · exact hblock s
  · split
    · exact counts_varDecl s
    · exact counts_exprStmt s

/-- Statements of every depth are counted. -/
theorem counts_stmtUpTo (fuel : Nat) : Counts (stmtUpTo fuel) Stmt.nodes := by
  induction fuel with
  | zero => exact spends_exhausted
  | succ fuel ih => exact counts_stmtWith ih

/-- **A block spends one number for each node.** -/
theorem counts_block : Counts block fun b => b.toStmt.nodes :=
  counts_blockWith (spends_bounded counts_stmtUpTo)

/-! ## Declarations -/

/-- A parameter spends one number. -/
theorem counts_param : Counts param fun p => [p.id] :=
  (free_typeExpr _).bind fun _ => (free_ident _).bind fun _ =>
    (spends_freshId _).bind fun _ => spends_pure rfl

/-- Parameters spend one number each, however many there are. -/
theorem counts_paramsUpTo (isExternal : Bool) (fuel : Nat) :
    Counts (paramsUpTo isExternal fuel) fun result => result.1.map Param.id := by
  induction fuel with
  | zero => exact spends_exhausted
  | succ fuel ih =>
      refine (free_peek _).bind fun token => (free_eat _ _).bind fun ellipsis => ?_
      cases ellipsis with
      | true =>
          cases isExternal with
          | true =>
              refine (free_check _ _).bind fun closed => ?_
              cases closed with
              | true => exact spends_pure rfl
              | false => exact (free_peek _).bind fun found => spends_fail _
          | false => exact spends_fail _
      | false =>
          refine Spends.bind counts_param fun first => (free_eat _ _).bind fun comma => ?_
          cases comma with
          | true =>
              refine (ih.after _).bind fun rest => spends_pure ?_
              simp [Nat.add_comm]
          | false => exact spends_pure rfl

/-- Parameters spend one number each. -/
theorem counts_params (isExternal : Bool) :
    Counts (params isExternal) fun result => result.1.map Param.id := by
  refine (free_expect _ _).bind fun _ => (free_check _ _).bind fun empty => ?_
  have hrest : ∀ result : List Param × Bool, Spends (result.1.map Param.id).length
      (do let _ ← expect (.mark .rightParen); return result)
      fun result => (result.1.map Param.id).length := fun result =>
    (free_expect _ _).bind fun _ => spends_pure rfl
  cases empty with
  | true => exact hrest ([], false)
  | false => exact Spends.bind (spends_bounded fun fuel => counts_paramsUpTo isExternal fuel) hrest

/-- A function with a body spends one number besides those of its parameters and its
body. -/
theorem counts_functionRest (returnType : TypeExpr) (name : Ident) :
    Counts (functionRest returnType name) FunctionDecl.nodes := by
  refine (spends_freshId _).bind fun id => ((counts_params false).after _).bind fun result => ?_
  refine (counts_block.after _).bind fun body => spends_pure ?_
  simp only [FunctionDecl.nodes, FunctionBody.nodes, List.length_cons, List.length_append]
  omega

/-- A function without a body spends one number besides those of its parameters. -/
theorem counts_externalRest (returnType : TypeExpr) (name : Ident) :
    Counts (externalRest returnType name) FunctionDecl.nodes := by
  refine (spends_freshId _).bind fun id => ((counts_params true).after _).bind fun result => ?_
  refine (free_expect _ _).bind fun stop => spends_pure ?_
  simp only [FunctionDecl.nodes, FunctionBody.nodes, List.length_cons, List.append_nil]
  omega

/-- A declaration of a function elsewhere is counted. -/
theorem counts_externalDecl : Counts externalDecl FunctionDecl.nodes :=
  (free_expect _ _).bind fun _ => (free_typeExpr _).bind fun ty =>
    (free_ident _).bind fun name =>
      Spends.bind (counts_externalRest ty name) fun _ => spends_pure rfl

/-- A field spends one number. -/
theorem counts_fieldRest (ty : TypeExpr) (name : Ident) :
    Counts (fieldRest ty name) fun f => [f.id] :=
  (free_expect _ _).bind fun _ => (spends_freshId _).bind fun _ => spends_pure rfl

/-- A field spends one number, from its type on. -/
theorem counts_fieldDecl : Counts fieldDecl fun f => [f.id] :=
  (free_typeExpr _).bind fun ty => (free_ident _).bind fun name => counts_fieldRest ty name

/-- Members of classes are counted. -/
theorem counts_classMember : Counts classMember ClassMember.nodes := by
  refine (free_typeExpr _).bind fun ty => (free_ident _).bind fun name => ?_
  refine (free_check _ _).bind fun isMethod => ?_
  cases isMethod with
  | true => exact Counts.map (counts_functionRest ty name)
  | false => exact Counts.map (counts_fieldRest ty name)

/-- A class spends one number besides those of its members. -/
theorem counts_classDecl : Counts classDecl fun decl => (Item.classDecl decl).nodes := by
  refine (free_expect _ _).bind fun start => (spends_freshId _).bind fun id => ?_
  refine (free_ident _).bind fun name => (free_eat _ _).bind fun extended => ?_
  have hrest : ∀ parent : Option Ident, Spends 1
      (do let _ ← expect (.mark .leftBrace)
          let members ← recovering closesBraces classMember skipStatement
          let stop ← expect (.mark .rightBrace)
          return (⟨id, name, parent, members, start.span.merge stop.span⟩ : ClassDecl))
      fun decl => (Item.classDecl decl).nodes.length := by
    intro parent
    refine (free_expect _ _).bind fun _ => ?_
    have hmembers := counts_recovering closesBraces counts_classMember free_skipStatement
    refine (hmembers.after _).bind fun members => ?_
    refine (free_expect _ _).bind fun stop => spends_pure ?_
    simp only [Item.nodes, List.length_cons, Nat.add_comm]
  cases extended with
  | true => exact (free_ident.bind fun _ _ => spends_pure rfl) _ |>.bind hrest
  | false => exact hrest none

/-- A struct spends one number besides those of its fields. -/
theorem counts_structDecl : Counts structDecl fun decl => (Item.structDecl decl).nodes := by
  refine (free_expect _ _).bind fun start => (spends_freshId _).bind fun id => ?_
  refine (free_ident _).bind fun name => (free_expect _ _).bind fun _ => ?_
  refine ((counts_many _ counts_fieldDecl).after _).bind fun fields => ?_
  refine (free_expect _ _).bind fun stop => spends_pure ?_
  simp only [Item.nodes, List.length_cons, List.map_eq_flatMap]
  omega

/-- Functions outside of classes are counted. -/
theorem counts_freeFunction : Counts freeFunction FunctionDecl.nodes := by
  refine (free_typeExpr _).bind fun ty => (free_ident _).bind fun name => ?_
  refine (free_check _ _).bind fun isFunction => ?_
  cases isFunction with
  | true => exact counts_functionRest ty name
  | false => exact spends_fail _

/-- **An item spends one number for each node.** -/
theorem counts_item : Counts item Item.nodes := by
  refine (free_peek _).bind fun token => ?_
  split
  · exact Counts.map counts_classDecl
  · exact Counts.map counts_structDecl
  · exact Counts.map counts_externalDecl
  · exact Counts.map counts_freeFunction

/-- **Items spend one number for each of their nodes**, unless an error is noted. -/
theorem counts_items : Counts items (List.flatMap Item.nodes) :=
  counts_recovering _ counts_item free_skipItem

end Parser

/-- Where no error was noted, there are as many nodes as numbers. -/
theorem Script.length_nodes_read {source : String} (h : (read source).errors = []) :
    (read source).script.nodes.length = (read source).script.nodeCount := by
  have hitems := Parser.counts_items (.ofLexed (lex source))
  revert h hitems
  unfold read readLexed
  simp only
  cases Parser.items (.ofLexed (lex source)) with
  | ok items rest =>
      rintro herrors ⟨-, hspent⟩
      have hcount := hspent herrors
      simp only [Nat.zero_add] at hcount
      exact hcount.symm
  | fail error rest => exact fun herrors => absurd herrors (by simp)

/-- **Node numbers are good keys**, if they are counted without a bound.  What is read of any
source, errors or not, has numbers that are pairwise different and were all given out; without
syntax errors each number that was given out belongs to a node. -/
theorem Script.keyed_read (source : String) : (read source).Keyed := by
  obtain ⟨hnumbered, -⟩ := Script.numbered_readLexed (ParserState.worded_ofSource source)
  refine ⟨hnumbered.nodup, hnumbered.upper, fun herrors => ?_⟩
  have hsubset : (read source).script.nodes ⊆ List.range (read source).script.nodeCount :=
    fun n hn => List.mem_range.2 (hnumbered.upper n hn)
  refine (List.subperm_of_subset hnumbered.nodup hsubset).perm_of_length_le ?_
  rw [List.length_range]
  exact Nat.le_of_eq (length_nodes_read herrors).symm

end ClassLang
