import ClassLang.Proofs.Syntax.Taking

/-!
# Reading types and expressions again

The parser reads an expression in two loops: dots and calls behind an operand, and operators
behind operands.  Both are entered at the leftmost part of the expression and go outwards, so what
is proved of them is told from the inside as well: to read an expression in front of `rest` is to
go on with the loop there, with the expression on the left (`takes_operand`, `takes_operators`).

An operand on the right is read by itself, and its own loop has to stop where it ends
(`TokenKind.Stops`); the binding powers see to this, since an operator binds its right side more
tightly than its left one.
-/

namespace ClassLang

open ClassLang.Parser

/-! ## Types -/

namespace TypeExpr

/-- The stars of a type are read again. -/
theorem takes_starsUpTo {rest : List Word} (hrest : Word.firstKind rest ≠ .mark .star) (n : Nat)
    {fuel : Nat} (hfuel : n < fuel) (ty : TypeExpr) :
    Takes (starsUpTo fuel ty) (List.replicate n (.mark .star) ++ rest) rest
      fun found => found.bare = { ty.bare with depth := ty.depth + n } := by
  induction n generalizing fuel ty with
  | zero =>
      cases fuel with
      | zero => simp at hfuel
      | succ fuel =>
          refine takes_peek.bind fun token _ => (takes_eat_other hrest).bind ?_
          rintro _ rfl
          exact takes_pure rfl
  | succ n ih =>
      cases fuel with
      | zero => simp at hfuel
      | succ fuel =>
          rw [List.replicate_succ, List.cons_append]
          refine takes_peek.bind fun token _ => (takes_eat rfl).bind ?_
          rintro _ rfl
          refine (ih (Nat.lt_of_succ_lt_succ hfuel) _).mono fun found hfound => ?_
          rw [hfound]
          simp [TypeExpr.bare, Nat.add_assoc, Nat.add_comm 1 n]

/-- **Types are read as they are written.** -/
theorem takes_words (ty : TypeExpr) {rest : List Word}
    (hrest : Word.firstKind rest ≠ .mark .star) :
    Takes typeExpr (ty.words ++ rest) rest fun found => found.bare = ty.bare := by
  obtain ⟨base, depth, span⟩ := ty
  refine takes_peek_word.bind fun token htoken => ?_
  have hstars : ∀ start : TypeExpr, start.depth = 0 → Takes
      (advance *> bounded (starsUpTo · start)) (TypeExpr.words ⟨base, depth, span⟩ ++ rest) rest
      fun found => found.bare = { start.bare with depth := depth } := by
    intro start hstart
    refine takes_advance.bind fun _ _ => takes_bounded fun fuel hfuel => ?_
    have hstarred : (List.replicate depth (Word.mark .star) ++ rest).length < fuel := hfuel
    have hlength : depth < fuel := by
      rw [List.length_append, List.length_replicate] at hstarred
      omega
    simpa [hstart] using takes_starsUpTo hrest depth hlength start
  cases base with
  | primitive p =>
      have hkind : token.kind = .keyword (.type p) := congrArg Word.kind htoken
      simp only [hkind]
      exact hstars _ rfl
  | named ident =>
      have hkind : token.kind = .identifier := congrArg Word.kind htoken
      have hlexeme : token.lexeme = ident.name := congrArg Word.lexeme htoken
      simp only [hkind]
      refine (hstars _ rfl).mono fun found hfound => hfound.trans ?_
      simp [TypeExpr.bare, Ident.bare, hlexeme]

end TypeExpr

/-! ## Where expressions begin -/

/-- Whether an operand may start with a token of this kind. -/
def TokenKind.startsOperand : TokenKind → Bool
  | .integer | .string | .identifier | .keyword (.boolean _) | .mark .leftParen => true
  | _ => false

namespace Word

/-- Behind a name in front of an expression there is a mark; if it is a star, there is an operand
behind it. -/
def FollowsName : List Word → Prop
  | [] => True
  | w :: rest => ∃ m, w.kind = .mark m ∧ (m = .star → (firstKind rest).startsOperand = true)

/-- Words that begin like an expression. -/
def BeginsExpr : List Word → Prop
  | [] => False
  | w :: rest => w.kind.startsOperand = true ∧ (w.kind = .identifier → FollowsName rest)

/-- What follows a name still does in front of more words. -/
theorem FollowsName.append {words rest : List Word} (h : FollowsName words)
    (hrest : FollowsName rest) : FollowsName (words ++ rest) := by
  match words, h with
  | [], _ => exact hrest
  | w :: [], ⟨m, hm, hstar⟩ => exact ⟨m, hm, fun heq => by cases hstar heq⟩
  | w :: v :: words, h => exact h

/-- What begins like an expression still does in front of more words. -/
theorem BeginsExpr.append {words rest : List Word} (h : BeginsExpr words)
    (hrest : FollowsName rest) : BeginsExpr (words ++ rest) := by
  cases words with
  | nil => exact h.elim
  | cons w words => exact ⟨h.1, fun hname => (h.2 hname).append hrest⟩

/-- What begins like an expression still does in parentheses. -/
theorem BeginsExpr.enclose {words : List Word} (h : BeginsExpr words) (needed : Bool) :
    BeginsExpr (Word.enclose needed words) := by
  cases needed with
  | false => exact h
  | true => exact ⟨rfl, nofun⟩

/-- Words that begin like an expression start with an operand. -/
theorem BeginsExpr.startsOperand {words : List Word} (h : BeginsExpr words) (rest : List Word) :
    (firstKind (words ++ rest)).startsOperand = true := by
  cases words with
  | nil => exact h.elim
  | cons w words => exact h.1

end Word

/-- **How expressions begin.** -/
theorem Expr.beginsExpr (e : Expr) : Word.BeginsExpr e.words := by
  match e with
  | .literal _ value _ =>
      rw [Expr.words]
      cases value <;> exact ⟨rfl, nofun⟩
  | .name _ ident => exact ⟨rfl, fun _ => trivial⟩
  | .binary _ op left right _ =>
      have hright := (Expr.beginsExpr right).enclose (right.looserThan op.power.2)
      rw [Expr.words]
      refine ((Expr.beginsExpr left).enclose _).append ⟨op.mark, rfl, fun _ => ?_⟩
      simpa using hright.startsOperand []
  | .assign _ target value _ =>
      rw [Expr.words]
      exact (Expr.beginsExpr target).append ⟨.equal, rfl, nofun⟩
  | .call _ callee args _ => exact ⟨rfl, fun _ => ⟨.leftParen, rfl, nofun⟩⟩
  | .methodCall _ receiver callee args _ =>
      rw [Expr.words]
      exact ((Expr.beginsExpr receiver).enclose _).append ⟨.dot, rfl, nofun⟩
  | .member _ object part _ =>
      rw [Expr.words]
      exact ((Expr.beginsExpr object).enclose _).append ⟨.dot, rfl, nofun⟩

/-! ## Where expressions end -/

/-- A token of this kind does not go on with an operand. -/
def TokenKind.EndsOperand (kind : TokenKind) : Prop :=
  kind ≠ .mark .dot ∧ kind ≠ .mark .leftParen

/-- A token of this kind does not go on with an expression that is read with a binding power. -/
def TokenKind.Stops (power : Nat) (kind : TokenKind) : Prop :=
  kind.EndsOperand ∧ (kind = .mark .equal → assignPower.1 < power) ∧
    ∀ op, kind.operator? = some op → op.power.1 < power

/-- What stops an expression stops one that binds more tightly. -/
theorem TokenKind.Stops.mono {power power' : Nat} {kind : TokenKind} (h : kind.Stops power)
    (hle : power ≤ power') : kind.Stops power' :=
  ⟨h.1, fun heq => Nat.lt_of_lt_of_le (h.2.1 heq) hle,
    fun op hop => Nat.lt_of_lt_of_le (h.2.2 op hop) hle⟩

/-- A mark that is no operator ends every expression. -/
theorem TokenKind.stops_of_mark {m : Mark} (hdot : m ≠ .dot) (hparen : m ≠ .leftParen)
    (hequal : m ≠ .equal) (hoperator : m.operator? = none) (power : Nat) :
    (TokenKind.mark m).Stops power := by
  refine ⟨⟨?_, ?_⟩, fun heq => ?_, fun op hop => ?_⟩
  · exact fun heq => hdot (TokenKind.mark.inj heq)
  · exact fun heq => hparen (TokenKind.mark.inj heq)
  · exact absurd (TokenKind.mark.inj heq) hequal
  · simp [TokenKind.operator?, hoperator] at hop

/-- What stands behind an expression is not taken for a part of its last operand. -/
def Expr.Closes (kind : TokenKind) : Expr → Prop
  | .binary _ op _ _ _ => kind.Stops op.power.2
  | .assign .. => kind.Stops assignPower.2
  | _ => True

/-- Operators are read from the left: the right side binds more tightly by one. -/
theorem BinaryOp.power_snd (op : BinaryOp) : op.power.2 = op.power.1 + 1 := rfl

/-- What stops an expression that is read with its own power stops its last operand. -/
theorem TokenKind.Stops.closes {power : Nat} {kind : TokenKind} (h : kind.Stops power) {e : Expr}
    (htight : e.looserThan power = false) : e.Closes kind := by
  cases e with
  | binary _ op _ _ _ =>
      have hle : power ≤ op.power.1 := by simpa [Expr.looserThan] using htight
      exact h.mono (by rw [op.power_snd]; omega)
  | assign _ _ _ _ =>
      -- No operator binds its left side less tightly than an assignment does.
      have hle : power ≤ assignPower.1 := by simpa [Expr.looserThan] using htight
      refine ⟨h.1, fun heq => ?_, fun op hop => ?_⟩
      · have hlt := h.2.1 heq
        omega
      · have hlt := h.2.2 op hop
        have hop' := assignPower_lt op
        omega
  | _ => trivial

/-- An operator goes neither on with an operand nor on as an assignment. -/
theorem BinaryOp.endsOperand_mark (op : BinaryOp) :
    (TokenKind.mark op.mark).EndsOperand ∧ TokenKind.mark op.mark ≠ .mark .equal := by
  rcases op with _ | _ | op | op <;> (try cases op) <;> exact ⟨⟨nofun, nofun⟩, nofun⟩

/-- An operand on the left is followed by its operator. -/
theorem Expr.closes_of_tight {op : BinaryOp} {e : Expr}
    (htight : e.looserThan op.power.1 = false) : e.Closes (.mark op.mark) := by
  have hends := op.endsOperand_mark
  cases e with
  | binary _ op' _ _ _ =>
      have hle : op.power.1 ≤ op'.power.1 := by simpa [Expr.looserThan] using htight
      refine ⟨hends.1, fun heq => absurd heq hends.2, fun found hfound => ?_⟩
      rw [TokenKind.operator?, op.operator?_mark] at hfound
      cases hfound
      rw [op'.power_snd]
      omega
  | assign _ _ _ _ =>
      have hle : op.power.1 ≤ assignPower.1 := by simpa [Expr.looserThan] using htight
      exact absurd hle (Nat.not_le.2 (assignPower_lt op))
  | _ => trivial

/-! ## Operands -/

/-- Every expression that is short enough is read as it is written. -/
def ReadsExprs (fuel : Nat) : Prop :=
  ∀ e : Expr, e.Printable → ∀ power rest, (Word.firstKind rest).Stops power →
    (e.wordsAt power ++ rest).length < fuel →
    Takes (exprUpTo fuel power) (e.wordsAt power ++ rest) rest fun found => found.bare = e.bare

/-- Reads an operand, with the dots and calls behind it. -/
def operand (expr : Parser Expr) : Parser Expr :=
  primary expr >>= fun head => bounded (suffixesUpTo expr · head)

/-- An expression is an operand with the operators behind it. -/
theorem exprUpTo_succ (fuel power : Nat) :
    exprUpTo (fuel + 1) power =
      operand (exprUpTo fuel 0) >>= fun e => bounded (operatorsUpTo (exprUpTo fuel) power · e) :=
  (bind_assoc' _ _ _).symm

@[simp] theorem Expr.looserThan_zero (e : Expr) : e.looserThan 0 = false := by
  cases e <;> simp [Expr.looserThan]

@[simp] theorem Expr.wordsAt_zero (e : Expr) : e.wordsAt 0 = e.words := by
  simp [Expr.wordsAt, Word.enclose]

/-- A literal is read by itself. -/
theorem takes_literal {id : NodeId} {value : Literal} {span : Span}
    (hvalue : (Expr.literal id value span).Printable) {expr : Parser Expr} {rest : List Word} :
    Takes (primary expr) (value.word :: rest) rest
      fun found => found.bare = .literal 0 value {} := by
  have hliteral : Takes (literal value) (value.word :: rest) rest
      fun found => found.bare = .literal 0 value {} :=
    takes_advance.bind fun token _ => takes_freshId.bind fun _ _ => takes_pure rfl
  refine takes_peek_word.bind fun token htoken => ?_
  have hkind : token.kind = value.word.kind := congrArg Word.kind htoken
  have hlexeme : token.lexeme = value.word.lexeme := congrArg Word.lexeme htoken
  cases value with
  | int n =>
      have hread : Text.decimalValue token.lexeme.toList = n := by
        rw [hlexeme]
        exact Text.decimalValue_toString n
      simp only [hkind, Literal.word, hread]
      rw [if_pos (hvalue n rfl)]
      exact hliteral
  | bool b =>
      simp only [hkind, Literal.word, Word.keyword]
      exact hliteral
  | string text =>
      have hread : Quoted.decode token.lexeme = text := by
        rw [hlexeme]
        exact Quoted.decode_encode text
      simp only [hkind, Literal.word, hread]
      exact hliteral

/-- A name in front of anything but an opening parenthesis is read by itself. -/
theorem takes_name {ident : Ident} {expr : Parser Expr} {rest : List Word}
    (hrest : Word.firstKind rest ≠ .mark .leftParen) :
    Takes (primary expr) (.name ident.name :: rest) rest
      fun found => found.bare = .name 0 ident.bare := by
  refine takes_peek.bind fun token hkind => ?_
  simp only [hkind, Word.firstKind, Word.name]
  refine takes_ident.bind fun name hname => takes_check.bind ?_
  rintro _ rfl
  rw [beq_eq_false_iff_ne.2 hrest, if_neg Bool.false_ne_true]
  exact takes_freshId.bind fun _ _ => takes_pure (by simp [Expr.bare, Ident.bare, hname])

/-- An operation that binds too loosely stands in parentheses. -/
theorem Expr.wordsAt_of_looser {e : Expr} {power : Nat} (h : e.looserThan power = true) :
    e.wordsAt power = e.tightWords := by
  have hop : e.isOperation = true := by
    cases e <;> simp_all [looserThan, isOperation]
  rw [wordsAt, tightWords, h, hop]

/-- An operation that binds as tightly as its place asks for stands there without parentheses. -/
theorem Expr.wordsAt_binary {id : NodeId} {op : BinaryOp} {left right : Expr} {span : Span}
    {power : Nat} (h : power ≤ op.power.1) {rest : List Word} :
    (Expr.binary id op left right span).wordsAt power ++ rest =
      left.wordsAt op.power.1 ++ .mark op.mark :: (right.wordsAt op.power.2 ++ rest) := by
  have htight : (Expr.binary id op left right span).looserThan power = false := by
    simpa [looserThan] using h
  simp [wordsAt, htight, Word.enclose, words]

/-- So does an assignment, and what is assigned to needs no parentheses either. -/
theorem Expr.wordsAt_assign {id : NodeId} {target value : Expr} {span : Span} {power : Nat}
    (h : power ≤ assignPower.1) (htarget : target.isPlace = true) {rest : List Word} :
    (Expr.assign id target value span).wordsAt power ++ rest =
      target.tightWords ++ .mark .equal :: (value.wordsAt assignPower.2 ++ rest) := by
  have htight : (Expr.assign id target value span).looserThan power = false := by
    simpa [looserThan] using h
  have hoperation : target.isOperation = false := by
    cases target <;> simp_all [isOperation, isPlace]
  simp [wordsAt, tightWords, htight, hoperation, Word.enclose, words]

/-- An operation in front of a dot stands in parentheses. -/
theorem Expr.tightWords_append {e : Expr} (h : e.isOperation = true) (rest : List Word) :
    e.tightWords ++ rest = .mark .leftParen :: (e.words ++ .mark .rightParen :: rest) := by
  simp [tightWords, Word.enclose, h]

/-- The words of a call, as they stand in front of others. -/
theorem Expr.tightWords_call {id : NodeId} {callee : Ident} {args : List Expr} {span : Span}
    (rest : List Word) : (Expr.call id callee args span).tightWords ++ rest =
      .name callee.name :: .mark .leftParen ::
        (Word.listed (wordsOfAll args) ++ .mark .rightParen :: rest) := by
  simp [tightWords, isOperation, Word.enclose, words]

/-- The words of a call of a method, as they stand in front of others. -/
theorem Expr.tightWords_methodCall {id : NodeId} {receiver : Expr} {callee : Ident}
    {args : List Expr} {span : Span} (rest : List Word) :
    (Expr.methodCall id receiver callee args span).tightWords ++ rest =
      receiver.tightWords ++ .mark .dot :: .name callee.name :: .mark .leftParen ::
        (Word.listed (wordsOfAll args) ++ .mark .rightParen :: rest) := by
  simp [tightWords, isOperation, Word.enclose, words]

/-- The words of a member, as they stand in front of others. -/
theorem Expr.tightWords_member {id : NodeId} {object : Expr} {part : Ident} {span : Span}
    (rest : List Word) : (Expr.member id object part span).tightWords ++ rest =
      object.tightWords ++ .mark .dot :: .name part.name :: rest := by
  simp [tightWords, isOperation, Word.enclose, words]

/-- Where nothing goes on with an operand, the loop ends. -/
theorem takes_suffixes_end (expr : Parser Expr) {rounds : Nat} {left e : Expr} {rest : List Word}
    (hrounds : rest.length < rounds) (hends : (Word.firstKind rest).EndsOperand)
    (hleft : left.bare = e.bare) :
    Takes (suffixesUpTo expr rounds left) rest rest fun found => found.bare = e.bare := by
  obtain ⟨rounds, rfl⟩ := Nat.exists_eq_succ_of_ne_zero (Nat.ne_zero_of_lt hrounds)
  refine (takes_eat_other hends.1).bind ?_
  rintro _ rfl
  exact takes_pure hleft

/-- A dot with a name behind it is a round of the loop. -/
theorem takes_member {expr : Parser Expr} {left : Expr} {part : Ident} {rounds : Nat}
    {rest rest' : List Word} {Q : Expr → Prop} (hrest : Word.firstKind rest ≠ .mark .leftParen)
    (hgo : ∀ found : Expr, found.bare = .member 0 left.bare part.bare {} →
      Takes (suffixesUpTo expr rounds found) rest rest' Q) :
    Takes (suffixesUpTo expr (rounds + 1) left)
      (.mark .dot :: .name part.name :: rest) rest' Q := by
  refine (takes_eat rfl).bind ?_
  rintro _ rfl
  refine takes_ident.bind fun name hname => takes_check.bind ?_
  rintro _ rfl
  rw [beq_eq_false_iff_ne.2 hrest, if_neg Bool.false_ne_true]
  exact takes_freshId.bind fun _ _ => hgo _ (by simp [Expr.bare, Ident.bare, hname])

section

variable {fuel : Nat} (hexpr : ReadsExprs fuel)

include hexpr

/-- One or more arguments. -/
theorem takes_separated {args : List Expr} (hne : args ≠ []) (hargs : Expr.AllPrintable args)
    {rest : List Word}
    (hlength : (Word.listed (args.map Expr.words) ++ .mark .rightParen :: rest).length < fuel) :
    Takes (separated (exprUpTo fuel 0))
      (Word.listed (args.map Expr.words) ++ .mark .rightParen :: rest) (.mark .rightParen :: rest)
      fun found => found.map Expr.bare = args.map Expr.bare := by
  refine takes_bounded fun rounds hrounds => ?_
  have hcount : args.length < rounds + 1 := by
    have hle := Word.length_le_listed (args.map Expr.words)
    simp only [List.length_append, List.length_map, List.length_cons] at hrounds hle ⊢
    omega
  refine takes_separatedUpTo hne hcount nofun (Nat.le_refl _) fun e he behind hbehind hbound => ?_
  have hstops : (Word.firstKind behind).Stops 0 := by
    rcases hbehind with rfl | hcomma
    · exact TokenKind.stops_of_mark (by decide) (by decide) (by decide) rfl 0
    · rw [hcomma]
      exact TokenKind.stops_of_mark (by decide) (by decide) (by decide) rfl 0
  have htakes := hexpr e ((Expr.allPrintable_iff args).1 hargs e he) 0 behind hstops
  rw [Expr.wordsAt_zero] at htakes
  exact htakes (Nat.lt_of_le_of_lt hbound hlength)

/-- Arguments are read with their parentheses. -/
theorem takes_arguments {args : List Expr} (hargs : Expr.AllPrintable args) {rest : List Word}
    (hlength : (Word.listed (Expr.wordsOfAll args) ++ .mark .rightParen :: rest).length < fuel) :
    Takes (arguments (exprUpTo fuel 0))
      (.mark .leftParen :: (Word.listed (Expr.wordsOfAll args) ++ .mark .rightParen :: rest)) rest
      fun found => Expr.bareAll found.1 = Expr.bareAll args := by
  rw [Expr.wordsOfAll_eq_map] at hlength ⊢
  simp only [Expr.bareAll_eq_map]
  refine (takes_expect rfl).bind fun _ _ => takes_check.bind ?_
  rintro _ rfl
  cases args with
  | nil =>
      refine (takes_pure (Q := (· = [])) rfl).bind ?_
      rintro _ rfl
      exact (takes_expect rfl).bind fun _ _ => takes_pure rfl
  | cons e es =>
      have hstart := (Expr.beginsExpr e).startsOperand
        ((es.map Expr.words).flatMap (fun words => .mark .comma :: words) ++
          .mark .rightParen :: rest)
      have hopen : (Word.firstKind (Word.listed ((e :: es).map Expr.words) ++
          .mark .rightParen :: rest) == .mark .rightParen) = false := by
        rw [List.map_cons, Word.listed, List.append_assoc, beq_eq_false_iff_ne]
        intro heq
        rw [heq] at hstart
        cases hstart
      rw [hopen, if_neg Bool.false_ne_true]
      exact (takes_separated hexpr (List.cons_ne_nil _ _) hargs hlength).bind fun found hfound =>
        (takes_expect rfl).bind fun _ _ => takes_pure hfound

/-- An expression in parentheses is an operand. -/
theorem takes_enclosed {e : Expr} (he : e.Printable) {rest : List Word}
    (hlength : (e.words ++ .mark .rightParen :: rest).length < fuel) :
    Takes (primary (exprUpTo fuel 0))
      (.mark .leftParen :: (e.words ++ .mark .rightParen :: rest)) rest
      fun found => found.bare = e.bare := by
  have hstops : (Word.firstKind (.mark .rightParen :: rest)).Stops 0 :=
    TokenKind.stops_of_mark (by decide) (by decide) (by decide) rfl 0
  have hinner := hexpr e he 0 _ hstops
  rw [Expr.wordsAt_zero] at hinner
  refine takes_peek.bind fun token hkind => ?_
  simp only [hkind, Word.firstKind, Word.mark]
  exact takes_advance.bind fun _ _ => (hinner hlength).bind fun found hfound =>
    (takes_expect rfl).bind fun _ _ => takes_pure hfound

/-- A call is an operand. -/
theorem takes_call {callee : Ident} {args : List Expr} (hargs : Expr.AllPrintable args)
    {rest : List Word}
    (hlength : (Word.listed (Expr.wordsOfAll args) ++ .mark .rightParen :: rest).length < fuel) :
    Takes (primary (exprUpTo fuel 0))
      (.name callee.name :: .mark .leftParen ::
        (Word.listed (Expr.wordsOfAll args) ++ .mark .rightParen :: rest)) rest
      fun found => found.bare = .call 0 callee.bare (Expr.bareAll args) {} := by
  refine takes_peek.bind fun token hkind => ?_
  simp only [hkind, Word.firstKind, Word.name]
  refine takes_ident.bind fun name hname => takes_check.bind ?_
  rintro _ rfl
  exact (takes_arguments hexpr hargs hlength).bind fun found hfound =>
    takes_freshId.bind fun _ _ => takes_pure (by simp [Expr.bare, Ident.bare, hname, hfound])

/-- A dot with a name and arguments behind it is a round of the loop. -/
theorem takes_methodCall {left : Expr} {callee : Ident} {args : List Expr}
    (hargs : Expr.AllPrintable args) {rounds : Nat} {rest rest' : List Word} {Q : Expr → Prop}
    (hlength : (Word.listed (Expr.wordsOfAll args) ++ .mark .rightParen :: rest).length < fuel)
    (hgo : ∀ found : Expr,
      found.bare = .methodCall 0 left.bare callee.bare (Expr.bareAll args) {} →
      Takes (suffixesUpTo (exprUpTo fuel 0) rounds found) rest rest' Q) :
    Takes (suffixesUpTo (exprUpTo fuel 0) (rounds + 1) left)
      (.mark .dot :: .name callee.name :: .mark .leftParen ::
        (Word.listed (Expr.wordsOfAll args) ++ .mark .rightParen :: rest)) rest' Q := by
  refine (takes_eat rfl).bind ?_
  rintro _ rfl
  refine takes_ident.bind fun name hname => takes_check.bind ?_
  rintro _ rfl
  exact (takes_arguments hexpr hargs hlength).bind fun found hfound => takes_freshId.bind fun _ _ =>
    hgo _ (by simp [Expr.bare, Ident.bare, hname, hfound])

/-- **Reading an operand**, with its dots and calls, is going on with the dots and calls behind it.
-/
theorem takes_operand {e : Expr} (he : e.Printable) {rest rest' : List Word} {Q : Expr → Prop}
    (hrest : Word.firstKind rest ≠ .mark .leftParen)
    (hlength : (e.tightWords ++ rest).length ≤ fuel)
    (hgo : ∀ left rounds, left.bare = e.bare → rest.length < rounds →
      Takes (suffixesUpTo (exprUpTo fuel 0) rounds left) rest rest' Q) :
    Takes (operand (exprUpTo fuel 0)) (e.tightWords ++ rest) rest' Q := by
  have hhead : ∀ {words : List Word},
      Takes (primary (exprUpTo fuel 0)) words rest (fun found => found.bare = e.bare) →
      Takes (operand (exprUpTo fuel 0)) words rest' Q := fun hprimary =>
    hprimary.bind fun head hbare => takes_bounded fun rounds hrounds =>
      hgo head rounds hbare hrounds
  match e, he with
  | .literal .., he => exact hhead (takes_literal he)
  | .name .., _ => exact hhead (takes_name hrest)
  | .binary .., he =>
      rw [Expr.tightWords_append rfl] at hlength ⊢
      exact hhead (takes_enclosed hexpr he hlength)
  | .assign .., he =>
      rw [Expr.tightWords_append rfl] at hlength ⊢
      exact hhead (takes_enclosed hexpr he hlength)
  | .call _ callee args _, ⟨_, hargs⟩ =>
      rw [Expr.tightWords_call] at hlength ⊢
      exact hhead (takes_call hexpr hargs (Nat.lt_of_succ_lt hlength))
  | .methodCall _ receiver callee args _, ⟨hreceiver, _, hargs⟩ =>
      rw [Expr.tightWords_methodCall] at hlength ⊢
      refine takes_operand hreceiver nofun hlength fun left rounds hleft hrounds => ?_
      simp only [List.length_append, List.length_cons] at hlength hrounds
      obtain ⟨rounds, rfl⟩ := Nat.exists_eq_succ_of_ne_zero (Nat.ne_zero_of_lt hrounds)
      refine takes_methodCall hexpr hargs (by simp; omega) fun found hfound => ?_
      exact hgo found rounds (by rw [hfound, hleft]; rfl) (by omega)
  | .member _ object part _, ⟨hobject, _⟩ =>
      rw [Expr.tightWords_member] at hlength ⊢
      refine takes_operand hobject nofun hlength fun left rounds hleft hrounds => ?_
      simp only [List.length_cons] at hrounds
      obtain ⟨rounds, rfl⟩ := Nat.exists_eq_succ_of_ne_zero (Nat.ne_zero_of_lt hrounds)
      refine takes_member hrest fun found hfound => ?_
      exact hgo found rounds (by rw [hfound, hleft]; rfl) (by omega)

/-- An operand that nothing goes on with. -/
theorem takes_operand_alone {e : Expr} (he : e.Printable) {rest : List Word}
    (hends : (Word.firstKind rest).EndsOperand) (hlength : (e.tightWords ++ rest).length ≤ fuel) :
    Takes (operand (exprUpTo fuel 0)) (e.tightWords ++ rest) rest
      fun found => found.bare = e.bare := by
  refine takes_operand hexpr he hends.2 hlength fun left rounds hleft hrounds => ?_
  exact takes_suffixes_end _ hrounds hends hleft

/-! ## Operators -/

/-- An operator with its right side is a round of the loop. -/
theorem takes_binary {op : BinaryOp} {power : Nat} (hpower : power ≤ op.power.1) {left right : Expr}
    (hright : right.Printable) {rounds : Nat} {rest rest' : List Word} {Q : Expr → Prop}
    (hstops : (Word.firstKind rest).Stops op.power.2)
    (hlength : (right.wordsAt op.power.2 ++ rest).length < fuel)
    (hgo : ∀ found : Expr, found.bare = .binary 0 op left.bare right.bare {} →
      Takes (operatorsUpTo (exprUpTo fuel) power rounds found) rest rest' Q) :
    Takes (operatorsUpTo (exprUpTo fuel) power (rounds + 1) left)
      (.mark op.mark :: (right.wordsAt op.power.2 ++ rest)) rest' Q := by
  refine takes_peek.bind fun token hkind => ?_
  have hequal : ¬ token.kind = .mark .equal := by
    rw [hkind]
    exact (op.endsOperand_mark).2
  have hop : token.kind.operator? = some op := by
    rw [hkind]
    exact op.operator?_mark
  rw [if_neg hequal]
  simp only [hop]
  rw [if_neg (Nat.not_lt.2 hpower)]
  exact takes_advance.bind fun _ _ => (hexpr right hright _ rest hstops hlength).bind
    fun found hfound => takes_freshId.bind fun _ _ => hgo _ (by simp [Expr.bare, hfound])

/-- An assignment with its value is a round of the loop. -/
theorem takes_assign {power : Nat} (hpower : power ≤ assignPower.1) {left value : Expr}
    (hplace : left.isPlace = true) (hvalue : value.Printable) {rounds : Nat}
    {rest rest' : List Word} {Q : Expr → Prop}
    (hstops : (Word.firstKind rest).Stops assignPower.2)
    (hlength : (value.wordsAt assignPower.2 ++ rest).length < fuel)
    (hgo : ∀ found : Expr, found.bare = .assign 0 left.bare value.bare {} →
      Takes (operatorsUpTo (exprUpTo fuel) power rounds found) rest rest' Q) :
    Takes (operatorsUpTo (exprUpTo fuel) power (rounds + 1) left)
      (.mark .equal :: (value.wordsAt assignPower.2 ++ rest)) rest' Q := by
  refine takes_peek.bind fun token (hkind : token.kind = .mark .equal) => ?_
  rw [if_pos hkind, if_neg (Nat.not_lt.2 hpower), if_pos hplace]
  exact takes_advance.bind fun _ _ => (hexpr value hvalue _ rest hstops hlength).bind
    fun found hfound => takes_freshId.bind fun _ _ => hgo _ (by simp [Expr.bare, hfound])

/-- **Reading an expression** is going on with the operators behind it.  It is written at a place
that asks for at least as much as the loop does. -/
theorem takes_operators {e : Expr} (he : e.Printable) {power place : Nat} (hplace : power ≤ place)
    {rest rest' : List Word} {Q : Expr → Prop} (hends : (Word.firstKind rest).EndsOperand)
    (hcloses : e.looserThan place = false → e.Closes (Word.firstKind rest))
    (hlength : (e.wordsAt place ++ rest).length ≤ fuel)
    (hgo : ∀ left rounds, left.bare = e.bare → rest.length < rounds →
      Takes (operatorsUpTo (exprUpTo fuel) power rounds left) rest rest' Q) :
    Takes (exprUpTo (fuel + 1) power) (e.wordsAt place ++ rest) rest' Q := by
  have hoperand : e.wordsAt place = e.tightWords →
      Takes (exprUpTo (fuel + 1) power) (e.wordsAt place ++ rest) rest' Q := by
    intro hwords
    rw [hwords] at hlength ⊢
    rw [exprUpTo_succ]
    exact (takes_operand_alone hexpr he hends hlength).bind fun left hleft =>
      takes_bounded fun rounds hrounds => hgo left rounds hleft hrounds
  by_cases hloose : e.looserThan place = true
  · exact hoperand (e.wordsAt_of_looser hloose)
  have htight : e.looserThan place = false := by simpa using hloose
  match e, he with
  | .literal .., _ | .name .., _ | .call .., _ | .methodCall .., _ | .member .., _ =>
      exact hoperand rfl
  | .binary _ op left right _, ⟨hleft, hright⟩ =>
      have hpower : place ≤ op.power.1 := by simpa [Expr.looserThan] using htight
      rw [Expr.wordsAt_binary hpower] at hlength ⊢
      refine takes_operators hleft (Nat.le_trans hplace hpower) op.endsOperand_mark.1
        Expr.closes_of_tight hlength fun left' rounds hleft' hrounds => ?_
      simp only [List.length_append, List.length_cons] at hlength hrounds
      obtain ⟨rounds, rfl⟩ := Nat.exists_eq_succ_of_ne_zero (Nat.ne_zero_of_lt hrounds)
      refine takes_binary hexpr (Nat.le_trans hplace hpower) hright (hcloses htight)
        (by rw [List.length_append]; omega) fun found hfound => ?_
      exact hgo found rounds (by rw [hfound, hleft']; rfl) (by omega)
  | .assign _ target value _, ⟨htarget, hprintable, hvalue⟩ =>
      have hpower : place ≤ assignPower.1 := by simpa [Expr.looserThan] using htight
      rw [Expr.wordsAt_assign hpower htarget] at hlength ⊢
      rw [exprUpTo_succ]
      have hequal : (Word.firstKind
          (.mark .equal :: (value.wordsAt assignPower.2 ++ rest))).EndsOperand := ⟨nofun, nofun⟩
      refine (takes_operand_alone hexpr hprintable hequal hlength).bind fun left hleft =>
        takes_bounded fun rounds hrounds => ?_
      simp only [List.length_append, List.length_cons] at hlength hrounds
      obtain ⟨rounds, rfl⟩ := Nat.exists_eq_succ_of_ne_zero (Nat.ne_zero_of_lt hrounds)
      have hleftPlace : left.isPlace = true := by
        rw [← left.isPlace_bare, hleft, target.isPlace_bare, htarget]
      refine takes_assign hexpr (Nat.le_trans hplace hpower) hleftPlace hvalue (hcloses htight)
        (by rw [List.length_append]; omega) fun found hfound => ?_
      exact hgo found rounds (by rw [hfound, hleft]; rfl) (by omega)

end

/-- Where no operator goes on, the loop ends. -/
theorem takes_operators_end {expr : Nat → Parser Expr} {power rounds : Nat} {left e : Expr}
    {rest : List Word} (hrounds : rest.length < rounds)
    (hstops : (Word.firstKind rest).Stops power) (hleft : left.bare = e.bare) :
    Takes (operatorsUpTo expr power rounds left) rest rest fun found => found.bare = e.bare := by
  obtain ⟨rounds, rfl⟩ := Nat.exists_eq_succ_of_ne_zero (Nat.ne_zero_of_lt hrounds)
  obtain ⟨-, hequal, hoperator⟩ := hstops
  refine takes_peek.bind fun token hkind => ?_
  rw [← hkind] at hequal hoperator
  by_cases heq : token.kind = .mark .equal
  · rw [if_pos heq, if_pos (hequal heq)]
    exact takes_pure hleft
  · rw [if_neg heq]
    cases hop : token.kind.operator? with
    | none => exact takes_pure hleft
    | some op =>
        simp only [if_pos (hoperator op hop)]
        exact takes_pure hleft

/-- **Expressions are read as they are written.** -/
theorem readsExprs (fuel : Nat) : ReadsExprs fuel := by
  induction fuel with
  | zero => exact fun _ _ _ _ _ hlength => absurd hlength (Nat.not_lt_zero _)
  | succ fuel ih =>
      intro e he power rest hstops hlength
      exact takes_operators ih he (Nat.le_refl power) hstops.1 hstops.closes
        (Nat.le_of_lt_succ hlength) fun left rounds hleft hrounds =>
          takes_operators_end hrounds hstops hleft

section

variable {e : Expr} (he : e.Printable) {rest : List Word} (hstops : (Word.firstKind rest).Stops 0)

include he hstops

/-- **A printable expression is read again as it is**, in front of words that stop it.
-/
theorem Expr.Printable.takes :
    Takes Parser.expr (e.words ++ rest) rest fun found => found.bare = e.bare := by
  refine takes_bounded (p := (exprUpTo · 0)) fun fuel hlength => ?_
  have htakes := readsExprs fuel e he 0 rest hstops
  rw [Expr.wordsAt_zero] at htakes
  exact htakes hlength

/-- An expression may stand in parentheses that it does not need. -/
theorem Expr.Printable.takes_enclosed (needed : Bool) :
    Takes Parser.expr (Word.enclose needed e.words ++ rest) rest
      fun found => found.bare = e.bare := by
  cases needed with
  | false => exact he.takes hstops
  | true =>
      have hwords : Word.enclose true e.words ++ rest =
          .mark .leftParen :: (e.words ++ .mark .rightParen :: rest) := by
        simp [Word.enclose]
      rw [hwords]
      refine takes_bounded (p := (exprUpTo · 0)) fun fuel hlength => ?_
      obtain ⟨fuel, rfl⟩ := Nat.exists_eq_succ_of_ne_zero (Nat.ne_zero_of_lt hlength)
      have hhead := ClassLang.takes_enclosed (readsExprs fuel) he (Nat.lt_of_succ_lt_succ hlength)
      rw [exprUpTo_succ]
      have hoperand := hhead.bind fun head hhead => takes_bounded fun rounds hrounds =>
        takes_suffixes_end (exprUpTo fuel 0) hrounds hstops.1 hhead
      exact hoperand.bind fun left hleft => takes_bounded fun rounds hrounds =>
        takes_operators_end hrounds hstops hleft

end

end ClassLang
