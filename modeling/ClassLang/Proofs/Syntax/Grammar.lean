import ClassLang.Proofs.Syntax.Words

/-!
# The grammar

The grammar of the language as data, and what it means that words derive from a part of it.
Nothing here mentions the parser.  Operators are read by level: an operation of a level has an
operation of the same level on its left and one of the next level on its right, so that every
operator groups to the left, and an assignment stands on level zero and groups to the right.

The parser accepts slightly more, see `Grammar.looseRule`: a parameter list that consists of
`...` alone.  Of the two grammars this file shows that they agree on words in which no `...`
stands right behind an opening parenthesis (`Derives.tighten`), and that they do not agree on all
words: the documented one asks for a comma in front of every `...` (`Derives.commas`).
-/

namespace ClassLang

namespace Grammar

/-- What stands for single words in the grammar. -/
inductive Terminal
  /-- A word of a kind. -/
  | word (kind : TokenKind)
  /-- The name of a primitive type. -/
  | primitive
  /-- `true` or `false`. -/
  | boolean
  /-- An integer literal up to the largest value. -/
  | integer
  /-- A binary operator of a precedence level. -/
  | operator (level : Nat)
  deriving Repr

/-- The words that a terminal stands for. -/
def Terminal.Matches (w : Word) : Terminal → Prop
  | .word kind => w.kind = kind
  | .primitive => ∃ p, w.kind = .keyword (.type p)
  | .boolean => ∃ value, w.kind = .keyword (.boolean value)
  | .integer => w.kind = .integer ∧ Text.decimalValue w.lexeme.toList ≤ Nat.pow 2 63 - 1
  | .operator level => ∃ op, w.kind.operator? = some op ∧ op.level = level

/-- The names of the rules. -/
inductive Nonterminal
  | unit | item | classDecl | structDecl | field | externalDecl | function
  /-- The parameter list of a function with a body, with its parentheses. -/
  | params
  /-- The parameter list of an external function, with its parentheses. -/
  | externalParams
  | param | type | block | stmt
  /-- An assignment on level zero, operators on the levels above it. -/
  | operation (level : Nat)
  /-- What an assignment may assign to. -/
  | target
  /-- An operand with the calls and members behind it. -/
  | postfixed
  /-- The arguments of a call, with their parentheses. -/
  | arguments
  | primary
  deriving Repr

end Grammar

/-- The right side of a rule. -/
inductive Ebnf
  | terminal (t : Grammar.Terminal)
  | nonterminal (n : Grammar.Nonterminal)
  | seq (a b : Ebnf)
  | alt (a b : Ebnf)
  | option (a : Ebnf)
  | many (a : Ebnf)
  deriving Repr

instance : Append Ebnf := ⟨.seq⟩
instance : OrOp Ebnf := ⟨.alt⟩

namespace Grammar

/-- The mark `m`. -/
def mark (m : Mark) : Ebnf := .terminal (.word (.mark m))

/-- The reserved word `k`. -/
def keyword (k : Keyword) : Ebnf := .terminal (.word (.keyword k))

/-- A name. -/
def name : Ebnf := .terminal (.word .identifier)

/-- An expression. -/
def expression : Ebnf := .nonterminal (.operation 0)

/-- One or more times `a`, with commas in between. -/
def listed (a : Ebnf) : Ebnf := a ++ .many (mark .comma ++ a)

/-- **The documented grammar.** -/
def rule : Nonterminal → Ebnf
  | .unit => .many (.nonterminal .item)
  | .item =>
    .nonterminal .classDecl ||| .nonterminal .structDecl ||| .nonterminal .externalDecl
      ||| .nonterminal .function
  | .classDecl =>
    keyword .classWord ++ name ++ .option (keyword .extendsWord ++ name)
      ++ mark .leftBrace ++ .many (.nonterminal .field ||| .nonterminal .function)
      ++ mark .rightBrace
  | .structDecl =>
    keyword .structWord ++ name ++ mark .leftBrace ++ .many (.nonterminal .field)
      ++ mark .rightBrace
  | .field => .nonterminal .type ++ name ++ mark .semicolon
  | .externalDecl =>
    keyword .externWord ++ .nonterminal .type ++ name ++ .nonterminal .externalParams
      ++ mark .semicolon
  | .function =>
    .nonterminal .type ++ name ++ .nonterminal .params ++ .nonterminal .block
  | .params =>
    mark .leftParen ++ .option (listed (.nonterminal .param)) ++ mark .rightParen
  | .externalParams =>
    mark .leftParen
      ++ .option (listed (.nonterminal .param) ++ .option (mark .comma ++ mark .ellipsis))
      ++ mark .rightParen
  | .param => .nonterminal .type ++ name
  | .type => (.terminal .primitive ||| name) ++ .many (mark .star)
  | .block => mark .leftBrace ++ .many (.nonterminal .stmt) ++ mark .rightBrace
  | .stmt =>
    .nonterminal .block
      ||| keyword .ifWord ++ mark .leftParen ++ expression ++ mark .rightParen ++ .nonterminal .stmt
        ++ .option (keyword .elseWord ++ .nonterminal .stmt)
      ||| keyword .returnWord ++ .option expression ++ mark .semicolon
      ||| .nonterminal .type ++ name ++ .option (mark .equal ++ expression) ++ mark .semicolon
      ||| expression ++ mark .semicolon
  | .operation 0 =>
    .nonterminal .target ++ mark .equal ++ expression ||| .nonterminal (.operation 1)
  | .operation (level + 1) =>
    if level < 9 then
      .nonterminal (.operation (level + 1)) ++ .terminal (.operator (level + 1))
          ++ .nonterminal (.operation (level + 2))
        ||| .nonterminal (.operation (level + 2))
    else .nonterminal .postfixed
  | .target =>
    name ||| .nonterminal .postfixed ++ mark .dot ++ name
      ||| mark .leftParen ++ .nonterminal .target ++ mark .rightParen
  | .postfixed =>
    .nonterminal .primary
      ||| .nonterminal .postfixed ++ mark .dot ++ name ++ .option (.nonterminal .arguments)
  | .arguments => mark .leftParen ++ .option (listed expression) ++ mark .rightParen
  | .primary =>
    .terminal .integer ||| .terminal .boolean ||| .terminal (.word .string)
      ||| name ++ .option (.nonterminal .arguments)
      ||| mark .leftParen ++ expression ++ mark .rightParen

/-- A parameter list that consists of `...` alone. -/
def loneEllipsis : Ebnf := mark .leftParen ++ mark .ellipsis ++ mark .rightParen

/-- The grammar with one more choice: the parameters of an external function may be `...`
alone. -/
def looseRule : Nonterminal → Ebnf
  | .externalParams => rule .externalParams ||| loneEllipsis
  | n => rule n

end Grammar

/-- Words that derive from a part of a grammar. -/
inductive Derives (rule : Grammar.Nonterminal → Ebnf) : Ebnf → List Word → Prop
  | terminal {t : Grammar.Terminal} {w : Word} (h : t.Matches w) :
      Derives rule (.terminal t) [w]
  | nonterminal {n : Grammar.Nonterminal} {words : List Word} (h : Derives rule (rule n) words) :
      Derives rule (.nonterminal n) words
  | seq {a b : Ebnf} {u v : List Word} (ha : Derives rule a u) (hb : Derives rule b v) :
      Derives rule (.seq a b) (u ++ v)
  | left {a b : Ebnf} {words : List Word} (h : Derives rule a words) :
      Derives rule (.alt a b) words
  | right {a b : Ebnf} {words : List Word} (h : Derives rule b words) :
      Derives rule (.alt a b) words
  | absent {a : Ebnf} : Derives rule (.option a) []
  | present {a : Ebnf} {words : List Word} (h : Derives rule a words) :
      Derives rule (.option a) words
  | done {a : Ebnf} : Derives rule (.many a) []
  | more {a : Ebnf} {u v : List Word} (ha : Derives rule a u) (hb : Derives rule (.many a) v) :
      Derives rule (.many a) (u ++ v)

namespace Derives

open Grammar

variable {rule : Nonterminal → Ebnf} {a b : Ebnf} {u v : List Word}

/-- Words of two expressions derive one behind the other. -/
theorem append (ha : Derives rule a u) (hb : Derives rule b v) :
    Derives rule (a ++ b) (u ++ v) :=
  seq ha hb

/-- Words of the first alternative derive. -/
theorem orLeft (h : Derives rule a u) : Derives rule (a ||| b) u := left h

/-- Words of the second alternative derive. -/
theorem orRight (h : Derives rule b u) : Derives rule (a ||| b) u := right h

/-- One more at the end. -/
theorem snoc (ha : Derives rule (.many a) u) (hb : Derives rule a v) :
    Derives rule (.many a) (u ++ v) := by
  generalize hmany : Ebnf.many a = many at ha
  induction ha with
  | done =>
      cases hmany
      simpa using hb.more done
  | more hfirst _ _ ih =>
      cases hmany
      rw [List.append_assoc]
      exact hfirst.more (ih rfl)
  | _ => cases hmany

/-- A word that is a mark derives from the mark. -/
theorem mark {m : Mark} {w : Word} (h : w.kind = .mark m) : Derives rule (mark m) [w] := terminal h

/-- An identifier derives from a name. -/
theorem name {w : Word} (h : w.kind = .identifier) : Derives rule name [w] := terminal h

end Derives

/-! ## The two grammars -/

namespace Grammar

/-- A `...` right behind an opening parenthesis. -/
def opensEllipsis : List TokenKind := [.mark .leftParen, .mark .ellipsis]

/-- The words of a lone `...`. -/
theorem opensEllipsis_of_lone {rule : Nonterminal → Ebnf} {words : List Word}
    (h : Derives rule loneEllipsis words) : opensEllipsis <:+: words.map Word.kind := by
  obtain _ | _ | ⟨hparens, hclose⟩ := h
  obtain _ | _ | ⟨hopen, hellipsis⟩ := hparens
  obtain @⟨_, l, hl⟩ := hopen
  obtain @⟨_, e, he⟩ := hellipsis
  obtain @⟨_, r, hr⟩ := hclose
  have hl : l.kind = .mark .leftParen := hl
  have he : e.kind = .mark .ellipsis := he
  exact ⟨[], [r.kind], by simp [opensEllipsis, hl, he]⟩

end Grammar

open Grammar in
/-- Words without a `...` right behind an opening parenthesis derive from the documented grammar
if they derive from the other one. -/
theorem Derives.tighten {e : Ebnf} {words : List Word} (h : Derives looseRule e words)
    (hno : ¬ opensEllipsis <:+: words.map Word.kind) : Derives rule e words := by
  induction h with
  | terminal h => exact terminal h
  | @nonterminal n words h ih =>
      have hderives := ih hno
      refine nonterminal ?_
      cases n with
      | externalParams =>
          obtain _ | _ | _ | hdocumented | hlone := hderives
          · exact hdocumented
          · exact absurd (opensEllipsis_of_lone hlone) hno
      | _ => exact hderives
  | @seq a b u v ha hb iha ihb =>
      rw [List.map_append] at hno
      have hu := iha fun hin => hno (hin.trans (List.infix_append' [] _ _))
      have hv := ihb fun hin => hno (hin.trans (List.suffix_append _ _).isInfix)
      exact hu.seq hv
  | left _ ih => exact left (ih hno)
  | right _ ih => exact right (ih hno)
  | absent => exact absent
  | present _ ih => exact present (ih hno)
  | done => exact done
  | @more a u v ha hb iha ihb =>
      rw [List.map_append] at hno
      have hu := iha fun hin => hno (hin.trans (List.infix_append' [] _ _))
      have hv := ihb fun hin => hno (hin.trans (List.suffix_append _ _).isInfix)
      exact hu.more hv

/-! ## Commas -/

/-- By how many commas a word makes up for the `...` that it is. -/
def TokenKind.commas : TokenKind → Int
  | .mark .comma => 1
  | .mark .ellipsis => -1
  | _ => 0

/-- By how many commas words outnumber their `...`. -/
def Word.commas : List Word → Int
  | [] => 0
  | w :: rest => w.kind.commas + Word.commas rest

/-- Commas are counted in two parts. -/
theorem Word.commas_append (u v : List Word) : commas (u ++ v) = commas u + commas v := by
  induction u with
  | nil => simp [commas]
  | cons w u ih =>
      rw [List.cons_append, commas, commas, ih]
      omega

/-- By how many commas the words of a terminal outnumber their `...`. -/
def Grammar.Terminal.commas : Terminal → Int
  | .word kind => kind.commas
  | _ => 0

/-- A word counts as its terminal does. -/
theorem Grammar.Terminal.Matches.commas {t : Terminal} {w : Word} (h : t.Matches w) :
    w.kind.commas = t.commas := by
  cases t with
  | word kind => rw [show w.kind = kind from h, Terminal.commas]
  | primitive =>
      obtain ⟨p, hp⟩ := h
      rw [hp]
      rfl
  | boolean =>
      obtain ⟨value, hvalue⟩ := h
      rw [hvalue]
      rfl
  | integer =>
      rw [h.1]
      rfl
  | operator level =>
      obtain ⟨op, hop, -⟩ := h
      cases hkind : w.kind with
      | mark m =>
          rw [hkind] at hop
          cases m <;> first | rfl | cases hop
      | _ => rfl

namespace Ebnf

/-- By how many commas words that derive from here outnumber their `...` at least, if those of a
rule do not have fewer. -/
def commas : Ebnf → Int
  | terminal t => t.commas
  | nonterminal _ => 0
  | seq a b => a.commas + b.commas
  | alt a b => min a.commas b.commas
  | option a => min 0 a.commas
  | many _ => 0

/-- Whether what may be repeated has no more `...` than commas. -/
def Repeats : Ebnf → Bool
  | terminal _ | nonterminal _ => true
  | seq a b | alt a b => a.Repeats && b.Repeats
  | option a => a.Repeats
  | many a => decide (0 ≤ a.commas) && a.Repeats

end Ebnf

/-- No rule of the documented grammar gives a `...` without a comma. -/
theorem Grammar.commas_rule (n : Nonterminal) : 0 ≤ (rule n).commas ∧ (rule n).Repeats = true := by
  cases n with
  | operation level =>
      cases level with
      | zero => decide
      | succ level =>
          rw [rule]
          split
          · exact ⟨Int.le_refl 0, rfl⟩
          · decide
  | _ => decide

/-- **In the documented grammar every `...` comes with a comma.** -/
theorem Derives.commas {e : Ebnf} {words : List Word} (h : Derives Grammar.rule e words)
    (hrepeats : e.Repeats = true) : e.commas ≤ Word.commas words := by
  induction h with
  | terminal h =>
      have hcommas := h.commas
      simp [Word.commas, Ebnf.commas, hcommas]
  | @nonterminal n words _ ih =>
      obtain ⟨hrule, hrepeats'⟩ := Grammar.commas_rule n
      have hwords := ih hrepeats'
      simp only [Ebnf.commas]
      omega
  | @seq a b u v _ _ iha ihb =>
      obtain ⟨hra, hrb⟩ := Bool.and_eq_true_iff.1 hrepeats
      have hu := iha hra
      have hv := ihb hrb
      rw [Word.commas_append]
      simp only [Ebnf.commas]
      omega
  | @left a b words _ ih =>
      have hwords := ih (Bool.and_eq_true_iff.1 hrepeats).1
      simp only [Ebnf.commas]
      omega
  | @right a b words _ ih =>
      have hwords := ih (Bool.and_eq_true_iff.1 hrepeats).2
      simp only [Ebnf.commas]
      omega
  | absent => exact Int.min_le_left ..
  | @present a words _ ih =>
      have hwords := ih hrepeats
      simp only [Ebnf.commas]
      omega
  | done => simp [Ebnf.commas, Word.commas]
  | @more a u v _ _ iha ihb =>
      obtain ⟨hle, hra⟩ := Bool.and_eq_true_iff.1 hrepeats
      have hle : 0 ≤ a.commas := of_decide_eq_true hle
      have hu := iha hra
      have hv := ihb hrepeats
      rw [Word.commas_append]
      simp only [Ebnf.commas] at hv ⊢
      omega

end ClassLang
