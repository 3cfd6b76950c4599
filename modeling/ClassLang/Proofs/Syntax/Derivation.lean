import ClassLang.Proofs.Syntax.Gathering
import ClassLang.Proofs.Token.Stream
import Mathlib.Data.List.Infix

/-!
# What the parser accepts

Where a parser gives a value and no error was noted, the words that it has read derive from its
rule of the grammar; from one lemma for each production, `parse_derives` says it of whole sources.
The documented grammar is not quite what is accepted (`parse_not_documented`).

Two things have to be known besides the derivation.  Of an expression that can be assigned to, the
words derive from `target`.  And the token behind an expression that was read with a binding power
is no operator that binds as tightly (`TokenKind.Leaves`): this is why the operator that comes next
finds an operation of its own level on its left.
-/

namespace ClassLang

open Grammar

/-! ## Levels of operators -/

namespace Derives

/-- The operation that a level has nothing to add to. -/
theorem lowerOne {level : Nat} {words : List Word}
    (h : Derives looseRule (.nonterminal (.operation (level + 1))) words) :
    Derives looseRule (.nonterminal (.operation level)) words := by
  refine nonterminal ?_
  cases level with
  | zero => exact h.orRight
  | succ level =>
      by_cases hlevel : level < 9
      · simp only [looseRule, rule, if_pos hlevel]
        exact h.orRight
      · -- Above the operators all levels are the same.
        cases h with
        | nonterminal h =>
            simp only [looseRule, rule, if_neg hlevel,
              if_neg (show ¬ level + 1 < 9 by omega)] at h ⊢
            exact h

/-- An operation of a level is one of each lower level. -/
theorem lower {level level' : Nat} {words : List Word} (hle : level' ≤ level)
    (h : Derives looseRule (.nonterminal (.operation level)) words) :
    Derives looseRule (.nonterminal (.operation level')) words := by
  induction level with
  | zero =>
      rw [Nat.le_zero.1 hle]
      exact h
  | succ level ih =>
      rcases Nat.lt_or_eq_of_le hle with hlt | rfl
      · exact ih (Nat.le_of_lt_succ hlt) h.lowerOne
      · exact h

/-- An operand is an operation of every level. -/
theorem ofPostfixed {words : List Word} (h : Derives looseRule (.nonterminal .postfixed) words)
    (level : Nat) : Derives looseRule (.nonterminal (.operation level)) words := by
  have habove : Derives looseRule (.nonterminal (.operation (level + 9 + 1))) words := by
    refine nonterminal ?_
    simp only [looseRule, rule, if_neg (show ¬ level + 9 < 9 by omega)]
    exact h
  exact habove.lower (by omega)

end Derives

/-- Every binary operator is of a level between 1 and 9. -/
theorem BinaryOp.level_bounds (op : BinaryOp) : 1 ≤ op.level ∧ op.level ≤ 9 := by
  rcases op with _ | _ | op | op <;> (try cases op) <;> decide

/-- Two operations with their operator in between. -/
theorem Derives.operation {op : BinaryOp} {u v : List Word} {w : Word}
    (hleft : Derives looseRule (.nonterminal (.operation op.level)) u)
    (hop : w.kind.operator? = some op)
    (hright : Derives looseRule (.nonterminal (.operation (op.level + 1))) v) :
    Derives looseRule (.nonterminal (.operation op.level)) (u ++ [w] ++ v) := by
  obtain ⟨hpos, hle⟩ := op.level_bounds
  obtain ⟨level, hlevel⟩ := Nat.exists_eq_add_of_lt hpos
  have hlevel : op.level = level + 1 := by omega
  have hmatches : Derives looseRule (.terminal (.operator (level + 1))) [w] :=
    terminal ⟨op, hop, hlevel⟩
  rw [hlevel] at hleft hright ⊢
  refine nonterminal ?_
  simp only [looseRule, rule, if_pos (show level < 9 by omega)]
  exact ((hleft.append hmatches).append hright).orLeft

/-- The token behind an expression that was read with a binding power: no operator that binds as
tightly. -/
structure TokenKind.Leaves (power : Nat) (kind : TokenKind) : Prop where
  assign : kind = .mark .equal → assignPower.1 < power
  operator : ∀ op, kind.operator? = some op → op.power.1 < power

namespace Parser

/-! ## Types -/

/-- The stars of a type are gathered. -/
theorem gathers_starsUpTo {before : List Word} {a : Ebnf} (fuel : Nat) (ty : TypeExpr) :
    Reads (Gathered before (a ++ .many (mark .star))) (starsUpTo fuel ty)
      fun _ => Gathered before (a ++ .many (mark .star)) := by
  induction fuel generalizing ty with
  | zero => exact reads_exhausted
  | succ fuel ih =>
      refine Reads.bind (reads_peek.post fun _ _ _ => And.right) fun token => ?_
      exact Reads.eat nofun ((ih _).pre fun _ _ hgathered => hgathered.again) reads_pure_gathered

/-- A type is read as the grammar has it. -/
theorem yields_typeExpr : Yields typeExpr (.nonterminal .type) := by
  intro before
  refine reads_peek.bind fun token => ?_
  have hstars : ∀ ty : TypeExpr, token.kind ≠ .eof →
      Derives looseRule (.terminal .primitive ||| name) [token.word] →
      Reads (fun front next => token = next ∧ Nothing before front next)
        (do let _ ← advance; bounded (starsUpTo · ty))
        fun _ => Gathered before (.nonterminal .type) := by
    intro ty hkind hbase
    refine (reads_advance ?_).bind fun _ => ?_
    · intro front next ⟨htoken, _⟩
      exact htoken ▸ hkind
    · have hloop : Reads (Gathered before ((.terminal .primitive ||| name) ++ .many (mark .star)))
          (bounded (starsUpTo · ty)) fun _ => Gathered before (rule .type) :=
        reads_bounded fun fuel => gathers_starsUpTo fuel ty
      refine hloop.consequence ?_ fun _ _ _ hgathered => hgathered.rule
      intro front next ⟨before', ⟨htoken, hbefore⟩, hfront⟩
      subst htoken
      have hfirst : Gathered before (.terminal .primitive ||| name) front next :=
        .first ⟨before', hbefore, hfront⟩ hbase
      exact hfirst.start
  split
  · next p hkind =>
      have hprimitive : Grammar.Terminal.Matches token.word .primitive := ⟨p, hkind⟩
      exact hstars _ (by simp [hkind]) (Derives.terminal hprimitive).orLeft
  · next hkind => exact hstars _ (by simp [hkind]) (Derives.name hkind).orRight
  · exact reads_fail _
  · exact reads_fail _

/-! ## Expressions -/

/-- Words of an operand, by the name of its rule; if it can be assigned to, they derive from
`target`. -/
def OperandWords (n : Nonterminal) (e : Expr) (words : List Word) (_ : Token) : Prop :=
  Derives looseRule (.nonterminal n) words ∧
    (e.isPlace = true → Derives looseRule (.nonterminal .target) words)

/-- Words of an expression that was read with a binding power. -/
def OperationWords (power : Nat) (e : Expr) (words : List Word) (next : Token) : Prop :=
  Derives looseRule (.nonterminal (.operation (power / 2))) words ∧
    (e.isPlace = true → Derives looseRule (.nonterminal .target) words) ∧ next.kind.Leaves power

/-- What a parser says of the words that it has read. -/
def ReadsAs {α : Type} (p : Parser α) (R : α → List Word → Token → Prop) : Prop :=
  ∀ before, Reads (Nothing before) p fun a front next =>
    ∃ words, front = before ++ words ∧ R a words next

/-- At the lowest power an operation is an expression. -/
theorem ReadsAs.expr {p : Parser Expr} {power : Nat} (hpower : power / 2 = 0)
    (h : ReadsAs p (OperationWords power)) : Yields p expression := by
  intro before
  refine (h before).post ?_
  intro e front next ⟨words, hfront, hwords, _⟩
  rw [hpower] at hwords
  exact ⟨words, hfront, hwords⟩

/-- Arguments are read as the grammar has them. -/
theorem yields_arguments {p : Parser Expr} (h : Yields p expression) :
    Yields (arguments p) (.nonterminal .arguments) := by
  intro before
  refine (yields_expect (by nofun) before).bind fun _ => Reads.check fun empty => ?_
  have hclose : ∀ args : List Expr,
      Reads (Gathered before (mark .leftParen ++ .option (listed expression)))
        (do let close ← expect (.mark .rightParen); return (args, close.span))
        fun _ => Gathered before (.nonterminal .arguments) := by
    intro args
    refine gathers_expect.bind fun close => reads_pure fun front next hgathered => ?_
    exact hgathered.rule
  cases empty with
  | true => exact (hclose []).pre fun front next hgathered => hgathered.absent
  | false =>
      refine Reads.bind ?_ hclose
      exact (yields_separated h).gathers.post fun _ _ _ hgathered => hgathered.present

/-- A literal token that has been looked at. -/
theorem reads_literal {before : List Word} {token : Token} {t : Terminal} (value : Literal)
    (hkind : token.kind ≠ .eof) (hmatches : t.Matches token.word) :
    Reads (fun front next => token = next ∧ Nothing before front next) (literal value)
      fun e front _ => e.isPlace = false ∧ Gathered before (.terminal t) front token := by
  refine (reads_advance ?_).bind fun read => reads_freshId.bind fun id => reads_pure ?_
  · intro front next ⟨htoken, _⟩
    exact htoken ▸ hkind
  · intro front next ⟨front', ⟨htoken, hnothing⟩, hfront⟩
    subst htoken
    exact ⟨rfl, .first ⟨front', hnothing, hfront⟩ (.terminal hmatches)⟩

/-- A literal is an operand by itself, and no place. -/
theorem reads_primaryLiteral {before : List Word} {token : Token} {t : Terminal} (value : Literal)
    (hkind : token.kind ≠ .eof) (hmatches : t.Matches token.word)
    (hprimary : ∀ words, Derives looseRule (.terminal t) words →
      Derives looseRule (rule .primary) words) :
    Reads (fun front next => token = next ∧ Nothing before front next) (literal value)
      fun e front next =>
        ∃ words, front = before ++ words ∧ OperandWords .primary e words next := by
  refine (reads_literal value hkind hmatches).post ?_
  intro e front next ⟨hplace, words, hfront, hwords⟩
  refine ⟨words, hfront, .nonterminal (hprimary words hwords), ?_⟩
  intro htrue
  rw [hplace] at htrue
  cases htrue

/-- Words of an operand by itself. -/
theorem reads_primary {p : Parser Expr} (h : ReadsAs p (OperationWords 0)) :
    ReadsAs (primary p) (OperandWords .primary) := by
  intro before
  refine reads_peek.bind fun token => ?_
  split
  · next hkind =>
      simp only
      split
      · next hle =>
          exact reads_primaryLiteral _ (by simp [hkind]) (t := .integer) ⟨hkind, hle⟩
            fun _ hwords => hwords.orLeft.orLeft.orLeft.orLeft
      · exact reads_fail _
  · next value hkind =>
      exact reads_primaryLiteral _ (by simp [hkind]) (t := .boolean) ⟨value, hkind⟩
        fun _ hwords => hwords.orRight.orLeft.orLeft.orLeft
  · next hkind =>
      exact reads_primaryLiteral _ (by simp [hkind]) (t := .word .string) hkind
        fun _ hwords => hwords.orRight.orLeft.orLeft
  · -- A name, and perhaps its arguments.
    have hname : Reads (fun front next => token = next ∧ Nothing before front next) ident
        fun _ => Gathered before name :=
      reads_ident.consequence (fun _ _ => And.right)
        fun _ _ _ ⟨_, hkind, hbehind⟩ => .first hbehind (.name hkind)
    refine hname.bind fun name => Reads.check fun isCall => ?_
    cases isCall with
    | true =>
        refine (yields_arguments (h.expr rfl)).gathers.bind fun result =>
          reads_freshId.bind fun id => reads_pure ?_
        intro front next hcall
        obtain ⟨words, hfront, hwords⟩ := hcall.present
        exact ⟨words, hfront, .nonterminal hwords.orRight.orLeft, nofun⟩
    | false =>
        refine reads_freshId.bind fun id => reads_pure ?_
        intro front next hname
        obtain ⟨words, hfront, hwords⟩ := hname.absent
        obtain ⟨words', hfront', htarget⟩ := hname
        obtain rfl := List.append_cancel_left (hfront.symm.trans hfront')
        exact ⟨words, hfront, .nonterminal hwords.orRight.orLeft,
          fun _ => .nonterminal htarget.orLeft.orLeft⟩
  · next hparen =>
      refine (reads_advance ?_).bind fun _ => (Reads.after h).bind fun inner => ?_
      · intro front next ⟨htoken, _⟩
        rw [← htoken, hparen]
        nofun
      refine (reads_expect _ (by nofun)).bind fun close => reads_pure ?_
      rintro front next ⟨hclose, front', ⟨front₀, next₀, words, ⟨_, ⟨rfl, rfl⟩, rfl⟩, rfl, hwords,
        htarget, -⟩, rfl⟩
      have hopen : Derives looseRule (mark .leftParen) [token.word] := .mark hparen
      have hclose : Derives looseRule (mark .rightParen) [close.word] := .mark hclose
      refine ⟨[token.word] ++ words ++ [close.word], by simp,
        .nonterminal ((hopen.append hwords).append hclose).orRight, fun hplace => ?_⟩
      exact .nonterminal ((hopen.append (htarget hplace)).append hclose).orRight
  · exact reads_fail _
  · exact reads_fail _

/-- Behind an operand, what a loop says of the operand and what is behind it. -/
abbrev GoesOn {α : Type} (R : α → List Word → Token → Prop) (p : α → Parser α)
    (R' : α → List Word → Token → Prop) : Prop :=
  ∀ before a, Reads (fun front next => ∃ words, front = before ++ words ∧ R a words next) (p a)
    fun a' front next => ∃ words, front = before ++ words ∧ R' a' words next

/-- Suffixes go on with an operand. -/
theorem extends_suffixesUpTo {p : Parser Expr} (h : Yields p expression) (fuel : Nat) :
    GoesOn (OperandWords .postfixed) (suffixesUpTo p fuel) (OperandWords .postfixed) := by
  induction fuel with
  | zero => exact fun _ _ => reads_exhausted
  | succ fuel ih =>
      intro before object
      refine (reads_eat _ (by nofun)).bind fun eaten => ?_
      cases eaten with
      | false => exact reads_pure fun front next => And.right
      | true =>
          -- The dot and the name behind it.
          have hname : Reads
              (fun front next => if true = true then ∃ token, token.kind = .mark .dot ∧
                Behind (fun front next => ∃ words, front = before ++ words ∧
                  OperandWords .postfixed object words next) token front next
                else next.kind ≠ .mark .dot ∧ ∃ words, front = before ++ words ∧
                  OperandWords .postfixed object words next) ident
              fun _ => Gathered before (.nonterminal .postfixed ++ mark .dot ++ name) := by
            refine gathers_ident.pre ?_
            intro front next ⟨dot, hdot, front', ⟨words, hfront', hwords, _⟩, hfront⟩
            have hobject : Gathered before (.nonterminal .postfixed) front' dot :=
              ⟨words, hfront', hwords⟩
            exact .behind ⟨front', hobject, hfront⟩ (.mark hdot)
          refine hname.bind fun member => Reads.check fun isCall => ?_
          cases isCall with
          | true =>
              refine (yields_arguments h).gathers.bind fun result =>
                reads_freshId.bind fun id => (ih before _).pre ?_
              intro front next hcall
              obtain ⟨words, hfront, hwords⟩ := hcall.present
              exact ⟨words, hfront, .nonterminal hwords.orRight, nofun⟩
          | false =>
              refine reads_freshId.bind fun id => (ih before _).pre ?_
              intro front next hmember
              obtain ⟨words, hfront, hwords⟩ := hmember.absent
              obtain ⟨words', hfront', htarget⟩ := hmember
              obtain rfl := List.append_cancel_left (hfront.symm.trans hfront')
              exact ⟨words, hfront, .nonterminal hwords.orRight,
                fun _ => .nonterminal htarget.orRight.orLeft⟩

/-- Words on the left of what comes next: if that is an operator, they are an operation of its
level. -/
def LeftWords (power : Nat) (e : Expr) (words : List Word) (next : Token) : Prop :=
  Derives looseRule (.nonterminal (.operation (power / 2))) words ∧
    (e.isPlace = true → Derives looseRule (.nonterminal .target) words) ∧
    ∀ op, next.kind.operator? = some op →
      Derives looseRule (.nonterminal (.operation op.level)) words

/-- Operators that go no further leave what is on their left. -/
theorem LeftWords.reads {before : List Word} {power : Nat} {left : Expr} {token : Token}
    (hleaves : token.kind.Leaves power) :
    Reads (fun front next => token = next ∧
        ∃ words, front = before ++ words ∧ LeftWords power left words next)
      (pure left) fun e front next =>
        ∃ words, front = before ++ words ∧ OperationWords power e words next :=
  reads_pure fun _ _ ⟨htoken, words, hfront, hwords, hplace, _⟩ =>
    ⟨words, hfront, hwords, hplace, htoken ▸ hleaves⟩

/-- An assignment is on the left of what comes next. -/
theorem LeftWords.assign {power id : Nat} {left value : Expr} {span : Span}
    {words words' : List Word} {token next : Token} (hpower : power ≠ 2)
    (hle : ¬ assignPower.1 < power) (hequal : token.kind = .mark .equal)
    (htarget : Derives looseRule (.nonterminal .target) words)
    (hvalue : OperationWords assignPower.2 value words' next) :
    LeftWords power (.assign id left value span) (words ++ [token.word] ++ words') next := by
  obtain ⟨hvalue, -, hleaves⟩ := hvalue
  have hassignPower : assignPower.1 = 2 ∧ assignPower.2 = 1 := ⟨rfl, rfl⟩
  have hassign : Derives looseRule (mark .equal) [token.word] := .mark hequal
  have hzero : power / 2 = 0 := by omega
  refine ⟨?_, nofun, fun op hop => ?_⟩
  · rw [hzero]
    exact .nonterminal ((htarget.append hassign).append hvalue).orLeft
  · have hlt := hleaves.operator op hop
    have hweak := assignPower_lt op
    omega

/-- An operation is on the left of what comes next. -/
theorem LeftWords.binary {power id : Nat} {op : BinaryOp} {left right : Expr} {span : Span}
    {words words' : List Word} {token next : Token} (hle : ¬ op.power.1 < power)
    (hop : token.kind.operator? = some op)
    (hleft : Derives looseRule (.nonterminal (.operation op.level)) words)
    (hright : OperationWords op.power.2 right words' next) :
    LeftWords power (.binary id op left right span) (words ++ [token.word] ++ words') next := by
  obtain ⟨hright, -, hleaves⟩ := hright
  have hpowers : op.power.1 = 2 * op.level + 1 ∧ op.power.2 = 2 * op.level + 2 := ⟨rfl, rfl⟩
  rw [show op.power.2 / 2 = op.level + 1 by omega] at hright
  have hop : token.word.kind.operator? = some op := hop
  have hwords := hleft.operation hop hright
  refine ⟨hwords.lower (by omega), nofun, fun op' hop' => ?_⟩
  have hlt := hleaves.operator op' hop'
  have hpower' : op'.power.1 = 2 * op'.level + 1 := rfl
  exact hwords.lower (by omega)

/-- Operators go on with what stands on their left. -/
theorem extends_operatorsUpTo {p : Nat → Parser Expr}
    (h : ∀ power, power ≠ 2 → ReadsAs (p power) (OperationWords power)) {power : Nat}
    (hpower : power ≠ 2) (fuel : Nat) :
    GoesOn (LeftWords power) (operatorsUpTo p power fuel) (OperationWords power) := by
  induction fuel with
  | zero => exact fun _ _ => reads_exhausted
  | succ fuel ih =>
      intro before left
      refine reads_peek.bind fun token => ?_
      split
      · next hequal =>
          split
          · next hlt =>
              refine LeftWords.reads ⟨fun _ => hlt, fun op hop => ?_⟩
              rw [hequal] at hop
              cases hop
          · next hle =>
              split
              · next hplace =>
                  refine (reads_advance ?_).bind fun _ =>
                    (Reads.after (h assignPower.2 (by decide))).bind fun value =>
                    reads_freshId.bind fun id => (ih before _).pre ?_
                  · intro front next ⟨htoken, _⟩
                    rw [← htoken, hequal]
                    nofun
                  · rintro front next ⟨_, _, words', ⟨_, ⟨rfl, words, rfl, -, htarget, -⟩, rfl⟩,
                      rfl, hvalue⟩
                    exact ⟨words ++ [token.word] ++ words', by simp,
                      .assign hpower hle hequal (htarget hplace) hvalue⟩
              · exact reads_fail _
      · next hequal =>
          split
          · next hnone =>
              exact LeftWords.reads ⟨fun heq => absurd heq hequal,
                fun op hop => by simp [hnone] at hop⟩
          · next op hop =>
              split
              · next hlt =>
                  refine LeftWords.reads ⟨fun heq => absurd heq hequal, fun op' hop' => ?_⟩
                  rw [hop] at hop'
                  cases hop'
                  exact hlt
              · next hle =>
                  have hlevel := op.level_bounds
                  have hpowers : op.power.2 = 2 * op.level + 2 := rfl
                  refine (reads_advance ?_).bind fun _ =>
                    (Reads.after (h op.power.2 (by omega))).bind fun right =>
                    reads_freshId.bind fun id => (ih before _).pre ?_
                  · intro front next ⟨htoken, _⟩ heof
                    rw [htoken, heof] at hop
                    cases hop
                  · rintro front next ⟨_, _, words', ⟨_, ⟨rfl, words, rfl, -, -, hleft⟩, rfl⟩,
                      rfl, hright⟩
                    exact ⟨words ++ [token.word] ++ words', by simp,
                      .binary hle hop (hleft op hop) hright⟩

/-- An expression read at a power is an operation of that power. -/
theorem reads_exprUpTo (fuel : Nat) : ∀ power, power ≠ 2 →
    ReadsAs (exprUpTo fuel power) (OperationWords power) := by
  induction fuel with
  | zero => exact fun _ _ _ => reads_exhausted
  | succ fuel ih =>
      intro power hpower before
      have hinner := ih 0 (by decide)
      refine (reads_primary hinner before).bind fun head => ?_
      refine Reads.bind (Q := fun e front next => ∃ words, front = before ++ words ∧
        OperandWords .postfixed e words next) ?_ fun operand => ?_
      · refine reads_bounded fun rounds => ((extends_suffixesUpTo (hinner.expr rfl) rounds) before
          head).pre ?_
        intro front next ⟨words, hfront, hwords, htarget⟩
        exact ⟨words, hfront, .nonterminal hwords.orLeft, htarget⟩
      · refine reads_bounded fun rounds => ((extends_operatorsUpTo ih hpower rounds) before
          operand).pre ?_
        intro front next ⟨words, hfront, hwords, htarget⟩
        exact ⟨words, hfront, hwords.ofPostfixed _, htarget, fun op _ => hwords.ofPostfixed _⟩

/-- **An expression derives from the grammar.** -/
theorem yields_expr : Yields expr expression :=
  yields_bounded fun fuel => (reads_exprUpTo fuel 0 (by decide)).expr rfl

/-! ## Statements -/

/-- A parser that looks ahead to choose. -/
theorem reads_choice {α : Type} {p : Parser α} {P : List Word → Token → Prop}
    {Q : α → List Word → Token → Prop} (h : ∀ s, ∃ q : Parser α, p s = q s ∧ Reads P q Q) :
    Reads P p Q where
  clean := by
    intro s s' a hp
    obtain ⟨q, heq, hq⟩ := h s
    exact hq.clean (heq.symm.trans hp)
  reads := by
    intro s s' a front hp
    obtain ⟨q, heq, hq⟩ := h s
    exact hq.reads (heq.symm.trans hp)

/-- An expression that may be missing. -/
theorem gathers_optional {before : List Word} {a : Ebnf} (present : Bool) :
    Reads (Gathered before a) (if present then Option.some <$> expr else pure Option.none)
      fun _ => Gathered before (a ++ .option expression) := by
  cases present with
  | true => exact ((yields_expr.map).gathers).post fun _ _ _ hgathered => hgathered.present
  | false => exact reads_pure fun _ _ hgathered => hgathered.absent

/-- A variable declaration is read as the grammar has it. -/
theorem yields_varDecl : Yields varDecl (.nonterminal .stmt) := by
  intro before
  refine (yields_typeExpr before).bind fun ty => gathers_ident.bind fun name' => ?_
  have hrest : ∀ value : Option Expr,
      Reads (Gathered before (.nonterminal .type ++ name ++ .option (mark .equal ++ expression)))
        (do let stop ← expect (.mark .semicolon)
            return Stmt.varDecl (← freshId) ty name' value (ty.span.merge stop.span))
        fun _ => Gathered before (.nonterminal .stmt) := by
    intro value
    refine gathers_expect.bind fun stop => reads_freshId.bind fun id => reads_pure ?_
    intro front next hgathered
    exact hgathered.mono fun _ hwords => .nonterminal hwords.orRight.orLeft
  refine Reads.eat nofun (Reads.bind ?_ hrest) ?_
  · exact yields_expr.map.gathers.post fun _ _ _ hgathered => hgathered.group.present
  · exact (hrest none).pre fun front next hgathered => hgathered.absent

/-- An expression statement is read as the grammar has it. -/
theorem yields_exprStmt : Yields exprStmt (.nonterminal .stmt) := by
  intro before
  refine (yields_expr before).bind fun e => gathers_expect.bind fun stop => reads_pure ?_
  intro front next hgathered
  exact hgathered.mono fun _ hwords => .nonterminal hwords.orRight

/-- A return statement is read as the grammar has it. -/
theorem yields_returnStmt : Yields returnStmt (.nonterminal .stmt) := by
  intro before
  refine (yields_expect (by nofun) before).bind fun start => Reads.check fun empty => ?_
  have hrest : ∀ value : Option Expr,
      Reads (Gathered before (keyword .returnWord ++ .option expression))
        (do let stop ← expect (.mark .semicolon)
            return Stmt.ret value (start.span.merge stop.span))
        fun _ => Gathered before (.nonterminal .stmt) := by
    intro value
    refine gathers_expect.bind fun stop => reads_pure fun front next hgathered => ?_
    exact hgathered.mono fun _ hwords => .nonterminal hwords.orRight.orLeft.orLeft
  cases empty with
  | true => exact (gathers_optional false).bind hrest
  | false => exact (gathers_optional true).bind hrest

/-- A block is read as the grammar has it. -/
theorem yields_blockWith {p : Parser Stmt} (h : Yields p (.nonterminal .stmt)) :
    Yields (blockWith p) (.nonterminal .block) := by
  intro before
  refine (yields_expect (by nofun) before).bind fun start => reads_freshId.bind fun id => ?_
  refine (gathers_recovering _ h skips_statement).bind fun stmts => ?_
  refine gathers_expect.bind fun stop => reads_pure fun front next hgathered => ?_
  exact hgathered.rule

/-- A conditional statement is read as the grammar has it. -/
theorem yields_ifWith {p : Parser Stmt} (h : Yields p (.nonterminal .stmt)) :
    Yields (ifWith p) (.nonterminal .stmt) := by
  intro before
  refine (yields_expect (by nofun) before).bind fun start => gathers_expect.bind fun _ => ?_
  refine (yields_expr.gathers).bind fun condition => gathers_expect.bind fun _ => ?_
  refine h.gathers.bind fun positive => Reads.eat nofun ?_ ?_
  · refine h.gathers.bind fun negative => reads_pure fun front next hgathered => ?_
    exact hgathered.group.present.mono
      fun _ hwords => .nonterminal hwords.orRight.orLeft.orLeft.orLeft
  · refine reads_pure fun front next hgathered => ?_
    exact hgathered.absent.mono
      fun _ hwords => .nonterminal hwords.orRight.orLeft.orLeft.orLeft

/-- A statement is read as the grammar has it, where those inside it are. -/
theorem yields_stmtWith {p : Parser Stmt} (h : Yields p (.nonterminal .stmt)) :
    Yields (stmtWith p) (.nonterminal .stmt) := by
  intro before
  refine reads_choice fun s => ?_
  unfold stmtWith
  split
  · exact ⟨_, rfl, yields_ifWith h before⟩
  · exact ⟨_, rfl, yields_returnStmt before⟩
  · refine ⟨_, rfl, (yields_blockWith h).map.mono (fun _ hwords => ?_) before⟩
    exact .nonterminal hwords.orLeft.orLeft.orLeft.orLeft
  · split
    · exact ⟨_, rfl, yields_varDecl before⟩
    · exact ⟨_, rfl, yields_exprStmt before⟩

/-- **A block derives from the grammar.** -/
theorem yields_block : Yields block (.nonterminal .block) := by
  refine yields_blockWith (yields_bounded fun fuel => ?_)
  induction fuel with
  | zero => exact yields_exhausted
  | succ fuel ih => exact yields_stmtWith ih

/-! ## Declarations -/

/-- A parameter is read as the grammar has it. -/
theorem yields_param : Yields param (.nonterminal .param) := by
  intro before
  refine (yields_typeExpr before).bind fun ty => gathers_ident.bind fun name => ?_
  exact reads_freshId.bind fun id => reads_pure fun front next hgathered => hgathered.rule

/-- What has been read of a parameter list in front of its closing parenthesis. -/
def ParamsRead (isExternal : Bool) (before front : List Word) (next : Token) : Prop :=
  if isExternal then
    Gathered before (mark .leftParen ++ .option
      (listed (.nonterminal .param) ++ .option (mark .comma ++ mark .ellipsis))) front next ∨
    Gathered before (mark .leftParen ++ mark .ellipsis) front next
  else Gathered before (mark .leftParen ++ .option (listed (.nonterminal .param))) front next

/-- A list of parameters in brackets is one that may be read. -/
theorem ParamsRead.of_listed {isExternal : Bool} {before front : List Word} {next : Token}
    (h : Gathered before (mark .leftParen ++ listed (.nonterminal .param)) front next) :
    ParamsRead isExternal before front next := by
  cases isExternal with
  | true => exact .inl h.absent.group.present
  | false => exact h.present

/-- Parameters, behind what `a` says. -/
theorem reads_paramsUpTo (isExternal : Bool) {before : List Word} (fuel : Nat) {a : Ebnf}
    (hparam : ∀ front next, Gathered before (a ++ .nonterminal .param) front next →
      Gathered before (mark .leftParen ++ listed (.nonterminal .param)) front next)
    (hellipsis : isExternal = true → ∀ front next,
      Gathered before (a ++ mark .ellipsis) front next → ParamsRead isExternal before front next) :
    Reads (Gathered before a) (paramsUpTo isExternal fuel)
      fun _ => ParamsRead isExternal before := by
  induction fuel generalizing a with
  | zero => exact reads_exhausted
  | succ fuel ih =>
      refine Reads.bind (reads_peek.post fun _ _ _ => And.right) fun token =>
        Reads.eat nofun ?_ ?_
      · cases isExternal with
        | true =>
            refine Reads.check fun closed => ?_
            cases closed with
            | true => exact reads_pure (hellipsis rfl)
            | false => exact Reads.bind reads_peek fun found => reads_fail _
        | false => exact reads_fail _
      · refine (yields_param.gathers.post fun _ => hparam).bind fun first =>
          Reads.eat nofun ?_ ?_
        · refine (ih (fun _ _ => Gathered.another) ?_).bind fun result => reads_pure fun _ _ => id
          rintro rfl front next hgathered
          exact .inl hgathered.group.present.group.present
        · exact reads_pure fun _ _ hgathered => .of_listed hgathered

/-- Parameters are read as the grammar has them. -/
theorem yields_params (isExternal : Bool) : Yields (params isExternal)
    (.nonterminal (if isExternal then .externalParams else .params)) := by
  intro before
  refine (yields_expect (by nofun) before).bind fun _ => Reads.check fun empty => ?_
  have hclose : ∀ result : List Param × Bool, Reads (ParamsRead isExternal before)
      (do let _ ← expect (.mark .rightParen); return result)
      fun _ => Gathered before (.nonterminal
        (if isExternal then .externalParams else .params)) := by
    intro result
    refine (reads_expect _ (by nofun)).bind fun close => reads_pure ?_
    intro front next ⟨hkind, front', hread, hfront⟩
    cases isExternal with
    | true =>
        rcases hread with hread | hlone
        · have hclosed : Gathered before (rule .externalParams) front next :=
            .behind ⟨front', hread, hfront⟩ (.mark hkind)
          exact Gathered.rule (hclosed.mono fun _ hwords => hwords.orLeft)
        · have hclosed : Gathered before loneEllipsis front next :=
            .behind ⟨front', hlone, hfront⟩ (.mark hkind)
          exact Gathered.rule (hclosed.mono fun _ hwords => hwords.orRight)
    | false =>
        have hclosed : Gathered before (rule .params) front next :=
          .behind ⟨front', hread, hfront⟩ (.mark hkind)
        exact hclosed.rule
  cases empty with
  | true =>
      refine (hclose ([], false)).pre fun front next hopen => ?_
      cases isExternal with
      | true => exact .inl hopen.absent
      | false => exact hopen.absent
  | false =>
      refine Reads.bind (reads_bounded fun fuel => ?_) hclose
      refine reads_paramsUpTo isExternal fuel (fun _ _ hgathered => hgathered.start.group) ?_
      rintro rfl front next hlone
      exact .inr hlone

/-- The rest of a function completes the function. -/
theorem gathers_functionRest {before : List Word} (ty : TypeExpr) (name' : Ident) :
    Reads (Gathered before (.nonterminal .type ++ name)) (functionRest ty name')
      fun _ => Gathered before (.nonterminal .function) := by
  refine reads_freshId.bind fun id => (yields_params false).gathers.bind fun result => ?_
  refine yields_block.gathers.bind fun body => reads_pure fun front next hgathered => ?_
  exact hgathered.rule

/-- The rest of a field completes the field. -/
theorem gathers_fieldRest {before : List Word} (ty : TypeExpr) (name' : Ident) :
    Reads (Gathered before (.nonterminal .type ++ name)) (fieldRest ty name')
      fun _ => Gathered before (.nonterminal .field) := by
  refine gathers_expect.bind fun stop => reads_freshId.bind fun id => reads_pure ?_
  exact fun front next hgathered => hgathered.rule

/-- A field is read as the grammar has it. -/
theorem yields_fieldDecl : Yields fieldDecl (.nonterminal .field) := by
  intro before
  refine (yields_typeExpr before).bind fun ty => gathers_ident.bind fun name => ?_
  exact gathers_fieldRest ty name

/-- An external declaration is read as the grammar has it. -/
theorem yields_externalDecl : Yields externalDecl (.nonterminal .externalDecl) := by
  intro before
  refine (yields_expect (by nofun) before).bind fun start =>
    yields_typeExpr.gathers.bind fun ty => ?_
  refine gathers_ident.bind fun name' => ?_
  refine Reads.bind (Q := fun _ => Gathered before (.nonterminal .externalDecl)) ?_ fun decl =>
    reads_pure fun _ _ => id
  refine reads_freshId.bind fun id => (yields_params true).gathers.bind fun result => ?_
  refine gathers_expect.bind fun stop => reads_pure fun front next hgathered => hgathered.rule

/-- A member of a class is a field or a function. -/
theorem yields_classMember :
    Yields classMember (.nonterminal .field ||| .nonterminal .function) := by
  intro before
  refine (yields_typeExpr before).bind fun ty => gathers_ident.bind fun name => ?_
  refine Reads.check fun isMethod => ?_
  cases isMethod with
  | true =>
      refine Reads.map ((gathers_functionRest ty name).post fun _ front next hgathered => ?_)
      exact hgathered.mono fun _ hwords => hwords.orRight
  | false =>
      refine Reads.map ((gathers_fieldRest ty name).post fun _ front next hgathered => ?_)
      exact hgathered.mono fun _ hwords => hwords.orLeft

/-- A class is read as the grammar has it. -/
theorem yields_classDecl : Yields classDecl (.nonterminal .classDecl) := by
  intro before
  refine (yields_expect (by nofun) before).bind fun start => reads_freshId.bind fun id => ?_
  refine gathers_ident.bind fun name' => ?_
  have hrest : ∀ parent : Option Ident,
      Reads (Gathered before (keyword .classWord ++ name ++ .option (keyword .extendsWord ++ name)))
        (do let _ ← expect (.mark .leftBrace)
            let members ← recovering closesBraces classMember skipStatement
            let stop ← expect (.mark .rightBrace)
            return (⟨id, name', parent, members, start.span.merge stop.span⟩ : ClassDecl))
        fun _ => Gathered before (.nonterminal .classDecl) := by
    intro parent
    refine gathers_expect.bind fun _ => ?_
    refine (gathers_recovering _ yields_classMember skips_statement).bind fun members => ?_
    refine gathers_expect.bind fun stop => reads_pure fun front next hgathered => hgathered.rule
  refine Reads.eat nofun (Reads.bind ?_ hrest) ?_
  · exact Reads.map (gathers_ident.post fun _ front next hgathered => hgathered.group.present)
  · exact (hrest Option.none).pre fun front next hgathered => hgathered.absent

/-- A struct is read as the grammar has it. -/
theorem yields_structDecl : Yields structDecl (.nonterminal .structDecl) := by
  intro before
  refine (yields_expect (by nofun) before).bind fun start => reads_freshId.bind fun id => ?_
  refine gathers_ident.bind fun name => gathers_expect.bind fun _ => ?_
  refine (gathers_many _ yields_fieldDecl).bind fun fields => ?_
  exact gathers_expect.bind fun stop => reads_pure fun front next hgathered => hgathered.rule

/-- A free function is read as the grammar has it. -/
theorem yields_freeFunction : Yields freeFunction (.nonterminal .function) := by
  intro before
  refine (yields_typeExpr before).bind fun ty => gathers_ident.bind fun name => ?_
  refine Reads.check fun isFunction => ?_
  cases isFunction with
  | true => exact gathers_functionRest ty name
  | false => exact reads_fail _

/-- An item is read as the grammar has it. -/
theorem yields_item : Yields item (.nonterminal .item) := by
  intro before
  refine Reads.bind (reads_peek.post fun _ _ _ => And.right) fun token => ?_
  split
  · exact yields_classDecl.map.mono (fun _ hwords => .nonterminal hwords.orLeft.orLeft.orLeft)
      before
  · exact yields_structDecl.map.mono
      (fun _ hwords => .nonterminal hwords.orRight.orLeft.orLeft) before
  · exact yields_externalDecl.map.mono (fun _ hwords => .nonterminal hwords.orRight.orLeft) before
  · exact yields_freeFunction.map.mono (fun _ hwords => .nonterminal hwords.orRight) before

/-- **Items derive from the grammar**, and they are read to the end. -/
theorem reads_items : Reads (Gathered [] (.many (.nonterminal .item))) items
    fun _ front next => next.kind = .eof ∧ Gathered [] (.many (.nonterminal .item)) front next := by
  have hround : Reads (Gathered [] (.many (.nonterminal .item))) item
      fun _ => Gathered [] (.many (.nonterminal .item)) := by
    refine yields_item.gathers.post fun _ front next ⟨words, hfront, hwords⟩ => ?_
    obtain _ | _ | ⟨hmany, hitem⟩ := hwords
    exact ⟨_, hfront, hmany.snoc hitem⟩
  refine (reads_recovering _ (fun _ => hround) skips_item).post ?_
  intro _ front next ⟨hstop, hgathered⟩
  exact ⟨by simpa using hstop, hgathered⟩

end Parser

/-! ## Scripts -/

/-- The words of a source. -/
def sourceWords (source : String) : List Word := (lex source).tokens.map Token.word

/-- Where no error was noted, the items were read. -/
theorem Script.items_of_readLexed {lexed : Lexed} (h : (readLexed lexed).errors = []) : ∃ rest,
    Parser.items (.ofLexed lexed) = .ok (readLexed lexed).script.items rest ∧ rest.errors = [] := by
  unfold readLexed at h ⊢
  simp only at h ⊢
  cases hitems : Parser.items (.ofLexed lexed) with
  | ok items rest =>
      rw [hitems] at h
      exact ⟨rest, rfl, h⟩
  | fail error rest =>
      rw [hitems] at h
      simp at h

/-- A script that was parsed is the script that was read. -/
theorem Script.script_of_parse {source : String} {script : Script} (h : parse source = .ok script) :
    script = (readLexed (lex source)).script := by
  unfold parse at h
  simp only at h
  split at h
  · cases h
    rfl
  · cases h

/-- A source that was parsed has no errors. -/
theorem Script.errors_of_parse {source : String} {script : Script}
    (h : parse source = .ok script) : (readLexed (lex source)).errors = [] := by
  unfold parse at h
  simp only at h
  split at h
  · next herrors => exact (List.append_eq_nil_iff.1 herrors).1
  · cases h

/-- What the reading of items says at the end holds of all words of an accepted source. -/
theorem Script.reads_of_parse {source : String} {script : Script} (h : parse source = .ok script)
    {P : List Word → Token → Prop} {Q : List Item → List Word → Prop}
    (hreads : Parser.Reads P Parser.items fun items front next =>
      next.kind = .eof ∧ Q items front)
    (hstart : P [] (ParserState.ofSource source).peek) : Q script.items (sourceWords source) := by
  obtain ⟨rest, hitems, herrors⟩ := items_of_readLexed (errors_of_parse h)
  obtain ⟨-, words, hwords, heof, hQ⟩ := hreads.reads hitems herrors rfl hstart
  have hsource : sourceWords source = words ++ rest.words := hwords
  have hend : rest.words = [] := by
    unfold ParserState.words
    cases htokens : rest.tokens with
    | nil => rfl
    | cons token tokens =>
        -- A token that is left is no end mark.
        have hpeek : token.kind = .eof := by
          rw [ParserState.peek, htokens] at heof
          exact heof
        have hmem : token.word ∈ sourceWords source := by
          rw [hsource, ParserState.words, htokens]
          simp
        obtain ⟨token', hmem', hword⟩ := List.mem_map.1 hmem
        have hkind : token'.kind = .eof := (congrArg Word.kind hword).trans hpeek
        exact absurd hkind (lex_kind_ne_eof source token' hmem')
  rw [hend, List.append_nil] at hsource
  rw [script_of_parse h, hsource]
  simpa using hQ

/-- The words of an accepted source are a unit of the grammar in which `...` may stand alone. -/
theorem Script.derives_of_parse {source : String} {script : Script}
    (h : parse source = .ok script) :
    Derives looseRule (.nonterminal .unit) (sourceWords source) := by
  obtain ⟨words, hfront, hderives⟩ := reads_of_parse h
    (Q := fun _ front => ∃ words, front = [] ++ words ∧
      Derives looseRule (.many (.nonterminal .item)) words)
    Parser.reads_items ⟨[], rfl, .done⟩
  rw [hfront]
  exact .nonterminal hderives

/-- **The parser accepts words of its grammar only.**  They derive from the documented grammar
unless some `...` stands right behind an opening parenthesis; a parameter list that is a `...`
alone is the one thing that is accepted besides. -/
theorem parse_derives {source : String} {script : Script} (h : parse source = .ok script) :
    Derives looseRule (.nonterminal .unit) (sourceWords source) ∧
      (¬ opensEllipsis <:+: (sourceWords source).map Word.kind →
        Derives rule (.nonterminal .unit) (sourceWords source)) := by
  have hderives := Script.derives_of_parse h
  exact ⟨hderives, hderives.tighten⟩

/-- A source with a `...` behind a parameter, and an assignment to a member. -/
def variadicSource : String :=
  "extern int32 f(int8* s, ...); struct P { int32 x; } " ++
    "void g(P* p) \x7b (p).x = f(\"%d\", 1 + 2 * p.x); if (p.x < 9) return; \x7d"

/-- The source with dots behind a parameter is parsed, and its words open no dots. -/
theorem variadicSource_evaluated :
    (match parse variadicSource with
      | .ok _ => !decide (opensEllipsis <:+: (sourceWords variadicSource).map Word.kind)
      | .error _ => false) = true := by
  decide +kernel

/-- A concrete derivation by both grammars. -/
theorem parse_derives_variadic : ∃ script, parse variadicSource = .ok script ∧
    ¬ opensEllipsis <:+: (sourceWords variadicSource).map Word.kind ∧
    Derives looseRule (.nonterminal .unit) (sourceWords variadicSource) ∧
    Derives rule (.nonterminal .unit) (sourceWords variadicSource) := by
  have h := variadicSource_evaluated
  split at h
  · next script hparse =>
      have hno : ¬ opensEllipsis <:+: (sourceWords variadicSource).map Word.kind := by simpa using h
      obtain ⟨hloose, hdocumented⟩ := parse_derives hparse
      exact ⟨script, hparse, hno, hloose, hdocumented hno⟩
  · cases h

/-- A source whose only parameter list is a lone `...`. -/
def loneSource : String := "extern void f(...);"

/-- The source with dots alone is parsed, though its dots outnumber its commas. -/
theorem loneSource_evaluated :
    (match parse loneSource with
      | .ok _ => decide (Word.commas (sourceWords loneSource) = -1)
      | .error _ => false) = true := by
  decide +kernel

/-- The documented grammar does not have all that is accepted. -/
theorem parse_not_documented : ¬ ∀ (source : String) (script : Script), parse source = .ok script →
    Derives rule (.nonterminal .unit) (sourceWords source) := by
  intro hall
  have h := loneSource_evaluated
  split at h
  · next script hparse =>
      have hcommas := (hall loneSource script hparse).commas rfl
      have hlone := of_decide_eq_true h
      simp only [Ebnf.commas] at hcommas
      omega
  · cases h

end ClassLang
