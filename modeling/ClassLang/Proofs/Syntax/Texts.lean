import ClassLang.Proofs.Syntax.Derivation

/-!
# The texts of a source

The string literals of a source are met on the way through its tree in the order in which they are
written: `Script.texts_eq`.  No production leaves a literal out, moves one or reads one that is not
in its value.  This is what `Parser.Shows` says of a parser, in the triples that the grammar was
gathered with; the invariant is that the literals read so far are those of the values read so far.
-/

namespace ClassLang

/-! ## Texts -/

/-- The text of a word that is a string literal. -/
def Word.text? (w : Word) : Option String :=
  if w.kind = .string then some (Quoted.decode w.lexeme) else none

/-- The texts of the string literals of a source, as they follow one another in it. -/
def sourceTexts (source : String) : List String := (sourceWords source).filterMap Word.text?

/-- The text of an expression that is a string literal. -/
def Expr.text? : Expr → Option String
  | .literal _ (.string text) _ => some text
  | _ => none

/-- The text of what is met on the way through a tree. -/
def Visit.text? : Visit → Option String
  | .expr e => e.text?
  | _ => none

/-- The texts of what is met on the way through a tree. -/
def Visit.texts (visits : List Visit) : List String := visits.filterMap Visit.text?

@[simp] theorem Visit.texts_nil : Visit.texts [] = [] := rfl

/-- Texts are met in the order of the visits. -/
@[simp] theorem Visit.texts_append (visits more : List Visit) :
    Visit.texts (visits ++ more) = Visit.texts visits ++ Visit.texts more :=
  List.filterMap_append

/-- Statements and declarations are no literals themselves. -/
theorem Visit.texts_cons {visit : Visit} (h : visit.text? = none) (visits : List Visit) :
    Visit.texts (visit :: visits) = Visit.texts visits :=
  List.filterMap_cons_none h

section

variable (visits : List Visit)

/-- A visit of an item meets no text; those of its parts follow. -/
@[simp] theorem Visit.texts_item (item : Item) : texts (.item item :: visits) = texts visits :=
  texts_cons rfl visits

@[simp] theorem Visit.texts_classDecl (decl : ClassDecl) :
    texts (.classDecl decl :: visits) = texts visits :=
  texts_cons rfl visits

@[simp] theorem Visit.texts_structDecl (decl : StructDecl) :
    texts (.structDecl decl :: visits) = texts visits :=
  texts_cons rfl visits

@[simp] theorem Visit.texts_function (decl : FunctionDecl) :
    texts (.function decl :: visits) = texts visits :=
  texts_cons rfl visits

@[simp] theorem Visit.texts_block (id : NodeId) : texts (.block id :: visits) = texts visits :=
  texts_cons rfl visits

@[simp] theorem Visit.texts_stmt (s : Stmt) : texts (.stmt s :: visits) = texts visits :=
  texts_cons rfl visits

end

/-- The texts of an expression. -/
def Expr.texts (e : Expr) : List String := Visit.texts e.visits

/-- The texts of expressions, one after the other. -/
def Expr.textsOfAll (es : List Expr) : List String := es.flatMap Expr.texts

/-- The texts of a statement. -/
def Stmt.texts (s : Stmt) : List String := Visit.texts s.visits

/-- The texts of a script. -/
def Script.texts (script : Script) : List String := Visit.texts script.visits

/-- The texts of a script are those of its string literals, in their order. -/
theorem Script.texts_eq_literals (script : Script) :
    script.texts = script.stringLiterals.map Prod.snd := by
  unfold texts Visit.texts stringLiterals
  rw [List.map_filterMap]
  congr 1
  funext visit
  unfold Visit.text? Expr.text?
  split
  · split <;> simp_all
  · simp_all

section

variable (id : NodeId) (ident : Ident) (span : Span) (e e' : Expr) (es : List Expr)

/-- A string literal is the one expression with a text of its own. -/
@[simp] theorem Expr.texts_string (text : String) :
    (Expr.literal id (.string text) span).texts = [text] := rfl

@[simp] theorem Expr.texts_int (n : Nat) : (Expr.literal id (.int n) span).texts = [] := rfl

@[simp] theorem Expr.texts_bool (b : Bool) : (Expr.literal id (.bool b) span).texts = [] := rfl

@[simp] theorem Expr.texts_name : (Expr.name id ident).texts = [] := rfl

/-- The texts of a list of expressions are met one expression after the other. -/
theorem Expr.visits_all :
    Visit.texts ((Expr.subexprsOfAll es).map .expr) = Expr.textsOfAll es := by
  induction es with
  | nil => rfl
  | cons e rest ih =>
      rw [Expr.subexprsOfAll, List.map_append, Visit.texts_append, ih]
      rfl

/-- The left operand comes first. -/
@[simp] theorem Expr.texts_binary (op : BinaryOp) :
    (Expr.binary id op e e' span).texts = e.texts ++ e'.texts := by
  simp only [texts, visits, subexprs, List.map_cons, List.map_append]
  rw [Visit.texts_cons rfl, Visit.texts_append]

/-- The target comes first. -/
@[simp] theorem Expr.texts_assign :
    (Expr.assign id e e' span).texts = e.texts ++ e'.texts := by
  simp only [texts, visits, subexprs, List.map_cons, List.map_append]
  rw [Visit.texts_cons rfl, Visit.texts_append]

@[simp] theorem Expr.texts_call :
    (Expr.call id ident es span).texts = Expr.textsOfAll es := by
  simp only [texts, visits, subexprs, List.map_cons]
  rw [Visit.texts_cons rfl, visits_all]

/-- The receiver comes first. -/
@[simp] theorem Expr.texts_methodCall :
    (Expr.methodCall id e ident es span).texts = e.texts ++ Expr.textsOfAll es := by
  simp only [texts, visits, subexprs, List.map_cons, List.map_append]
  rw [Visit.texts_cons rfl, Visit.texts_append, visits_all]

@[simp] theorem Expr.texts_member :
    (Expr.member id e ident span).texts = e.texts := by
  simp only [texts, visits, subexprs, List.map_cons]
  exact Visit.texts_cons rfl _

end

/-- The texts of statements, one after the other. -/
theorem Stmt.texts_visitsOfAll (stmts : List Stmt) :
    Visit.texts (Stmt.visitsOfAll stmts) = stmts.flatMap Stmt.texts := by
  induction stmts with
  | nil => rfl
  | cons s rest ih =>
      rw [visitsOfAll, Visit.texts_append, ih]
      rfl

/-- The texts of an expression that may be missing. -/
def Expr.textsOfOption (value : Option Expr) : List String :=
  Visit.texts (Expr.visitsOfOption value)

/-- The texts of a value that is there. -/
@[simp] theorem Expr.textsOfOption_some (e : Expr) : Expr.textsOfOption (some e) = e.texts := rfl

@[simp] theorem Expr.textsOfOption_none : Expr.textsOfOption none = [] := rfl

/-! ## Single tokens -/

open Grammar

namespace Parser

/-- The literals read so far have these texts. -/
def Shown (before : List String) (front : List Word) (_ : Token) : Prop :=
  front.filterMap Word.text? = before

/-- The literals that a parser reads are those of its value. -/
def Shows {α : Type} (p : Parser α) (texts : α → List String) : Prop :=
  ∀ before, Reads (Shown before) p fun a => Shown (before ++ texts a)

/-- A parser that reads no literal. -/
def Silent {α : Type} (p : Parser α) : Prop :=
  ∀ before, Reads (Shown before) p fun _ => Shown before

section

variable {α β : Type} {p : Parser α} {before : List String} {texts : α → List String}
  {kind : TokenKind} {front : List Word} {token next : Token}

/-- A token that is no string leaves what has been shown as it is. -/
theorem Shown.behind {P : List Word → Token → Prop} (h : Behind P token front next)
    (hP : ∀ front next, P front next → Shown before front next) (hkind : token.kind ≠ .string) :
    Shown before front next := by
  obtain ⟨front', hfront', rfl⟩ := h
  have hnone : token.word.text? = none := if_neg hkind
  rw [Shown, List.filterMap_append, List.filterMap_cons_none hnone, List.filterMap_nil,
    List.append_nil]
  exact hP _ _ hfront'

/-- A token that is expected shows a text only if it is a string. -/
theorem silent_expect (hkind : kind ≠ .eof) (hstring : kind ≠ .string) : Silent (expect kind) :=
  fun _ => (reads_expect kind hkind).post fun _ _ _ h =>
    .behind h.2 (fun _ _ => id) (h.1 ▸ hstring)

/-- Marks show no texts. -/
theorem silent_mark {m : Mark} : Silent (expect (.mark m)) := silent_expect nofun nofun

/-- Keywords show no texts. -/
theorem silent_keyword {k : Keyword} : Silent (expect (.keyword k)) := silent_expect nofun nofun

/-- Names show no texts. -/
theorem silent_ident : Silent ident := fun _ =>
  reads_ident.post fun _ _ _ ⟨_, hkind, h⟩ => .behind h (fun _ _ => id) (by rw [hkind]; nofun)

/-- A token that may be there shows a text only if it is a string. -/
theorem silent_eat (hkind : kind ≠ .eof) (hstring : kind ≠ .string) : Silent (eat kind) := by
  refine fun _ => (reads_eat kind hkind).post fun eaten front next h => ?_
  cases eaten with
  | true =>
      obtain ⟨token, htoken, hbehind⟩ := h
      exact .behind hbehind (fun _ _ => id) (htoken ▸ hstring)
  | false => exact h.2

/-- Marks that may be there show no texts. -/
theorem silent_eatMark {m : Mark} : Silent (eat (.mark m)) := silent_eat nofun nofun

/-- Keywords that may be there show no texts. -/
theorem silent_eatKeyword {k : Keyword} : Silent (eat (.keyword k)) := silent_eat nofun nofun

/-- Looking at a token shows nothing. -/
theorem silent_check : Silent (check kind) := fun _ => reads_check.post fun _ _ _ => And.right

/-- Numbering a node shows nothing. -/
theorem silent_freshId : Silent freshId := fun _ => reads_freshId

/-- Looking ahead shows nothing. -/
theorem silent_peek : Silent peek := fun _ => reads_peek.post fun _ _ _ => And.right

/-- A token that was looked at and is no literal. -/
theorem silent_advance (hkind : token.kind ≠ .eof) (hstring : token.kind ≠ .string) :
    Reads (fun front next => token = next ∧ Shown before front next) advance
      fun _ => Shown before := by
  refine (reads_advance ?_).post ?_
  · intro front next ⟨htoken, _⟩
    exact htoken ▸ hkind
  · rintro read front next ⟨front', ⟨rfl, hshown⟩, hfront⟩
    exact .behind ⟨front', hshown, hfront⟩ (fun _ _ => id) hstring

/-- What shows nothing may be done in a row. -/
theorem Silent.bind {f : α → Parser β} (hp : Silent p) (hf : ∀ a, Silent (f a)) :
    Silent (p >>= f) :=
  fun before => (hp before).bind fun a => hf a before

/-- A result without reading shows nothing. -/
theorem silent_pure (a : α) : Silent (pure a) := fun _ => reads_pure fun _ _ => id

/-- Bounds on depth show nothing. -/
theorem silent_bounded {p : Nat → Parser α} (h : ∀ fuel, Silent (p fuel)) : Silent (bounded p) :=
  fun before => reads_bounded fun fuel => h fuel before

/-- What shows nothing shows no texts in front of what follows. -/
theorem Silent.shows (h : Silent p) : Shows p fun _ => [] :=
  fun before => (h before).post fun _ _ _ hshown => by rwa [List.append_nil]

/-- The value is made of what was read. -/
theorem reads_shown {a : α} {shown : α → List String} (h : before = shown a) :
    Reads (Shown before) (pure a) fun a => Shown (shown a) :=
  reads_pure fun _ _ hshown => h ▸ hshown

/-- Another form of what was read has the same texts. -/
theorem Shows.map {g : α → β} {texts : β → List String} (h : Shows p fun a => texts (g a)) :
    Shows (g <$> p) texts :=
  fun before => Reads.map (R := fun b => Shown (before ++ texts b)) (h before)

/-- What shows its texts for every depth does for the depth of the source. -/
theorem shows_bounded {p : Nat → Parser α} (h : ∀ fuel, Shows (p fuel) texts) :
    Shows (bounded p) texts :=
  fun before => reads_bounded fun fuel => h fuel before

end

/-! ## Lists -/

section

variable {α : Type} {p : Parser α} {texts : α → List String}

/-- A list shows the texts of its elements in their order. -/
theorem shows_separatedUpTo (h : Shows p texts) (fuel : Nat) :
    Shows (separatedUpTo p fuel) (List.flatMap texts) := by
  induction fuel with
  | zero => exact fun _ => reads_exhausted
  | succ fuel ih =>
      refine fun before => (h before).bind fun first =>
        (silent_eatMark _).bind fun eaten => ?_
      cases eaten with
      | true => exact (ih _).bind fun rest => reads_shown (by simp)
      | false => exact reads_shown (by simp)

/-- A list between separators shows the texts of its elements in their order. -/
theorem shows_separated (h : Shows p texts) : Shows (separated p) (List.flatMap texts) :=
  shows_bounded (shows_separatedUpTo h)

/-- A list of what shows nothing shows nothing. -/
theorem silent_manyUpTo (stop : TokenKind → Bool) (h : Silent p) (fuel : Nat) :
    Silent (manyUpTo stop p fuel) := by
  induction fuel with
  | zero => exact fun _ => reads_exhausted
  | succ fuel ih =>
      refine silent_peek.bind fun token => ?_
      split
      · exact silent_pure _
      · exact h.bind fun first => ih.bind fun rest => silent_pure _

/-- Where no error was noted, no value was left out. -/
theorem shows_recovering (stop : TokenKind → Bool) {skip : Parser Unit} (h : Shows p texts)
    (hskip : ∀ s, ∃ tokens, skip s = .ok () { s with tokens }) (before : List String) :
    Reads (Shown before) (recovering stop p skip) fun values front next =>
      stop next.kind = true ∧ Shown (before ++ values.flatMap texts) front next := by
  have hround : ∀ done : List α, Reads (Shown (before ++ done.flatMap texts)) p
      fun a => Shown (before ++ (done ++ [a]).flatMap texts) := fun done =>
    (h _).post fun a _ _ hshown => by simpa [List.append_assoc] using hshown
  have hrounds := reads_recovering stop
    (I := fun values => Shown (before ++ values.flatMap texts)) hround hskip
  exact hrounds.pre fun _ _ hshown => by simpa using hshown

end

/-! ## Types -/

/-- The stars of a type are no texts. -/
theorem silent_starsUpTo (fuel : Nat) (ty : TypeExpr) : Silent (starsUpTo fuel ty) := by
  induction fuel generalizing ty with
  | zero => exact fun _ => reads_exhausted
  | succ fuel ih =>
      refine silent_peek.bind fun token => silent_eatMark.bind fun eaten => ?_
      cases eaten with
      | true => exact ih _
      | false => exact silent_pure _

/-- Types have no texts. -/
theorem silent_typeExpr : Silent typeExpr := by
  refine fun before => reads_peek.bind fun token => ?_
  have hstars : ∀ ty, token.kind ≠ .eof → token.kind ≠ .string →
      Reads (fun front next => token = next ∧ Shown before front next)
        (do let _ ← advance; bounded (starsUpTo · ty)) fun _ => Shown before := by
    intro ty heof hstring
    refine (silent_advance heof hstring).bind fun _ => ?_
    exact silent_bounded (fun fuel => silent_starsUpTo fuel ty) before
  split
  · next hkind => exact hstars _ (by rw [hkind]; nofun) (by rw [hkind]; nofun)
  · next hkind => exact hstars _ (by rw [hkind]; nofun) (by rw [hkind]; nofun)
  · exact reads_fail _
  · exact reads_fail _

/-! ## Expressions -/

/-- Arguments show their texts in the order they are written. -/
theorem shows_arguments {p : Parser Expr} (h : Shows p Expr.texts) :
    Shows (arguments p) fun result => Expr.textsOfAll result.1 := by
  refine fun before => (silent_mark _).bind fun _ => (silent_check _).bind fun empty => ?_
  have hclose : ∀ args : List Expr, Reads (Shown (before ++ Expr.textsOfAll args))
      (do let close ← expect (.mark .rightParen); return (args, close.span))
      fun result => Shown (before ++ Expr.textsOfAll result.1) := fun args =>
    (silent_mark _).bind fun close => reads_shown rfl
  cases empty with
  | true =>
      refine (hclose []).pre fun _ _ hshown => ?_
      rwa [Expr.textsOfAll, List.flatMap_nil, List.append_nil]
  | false => exact (shows_separated h before).bind hclose

/-- A literal token that has been looked at. -/
theorem shows_literal {token : Token} {value : Literal} (hkind : token.kind ≠ .eof)
    (htext : ∀ id span, token.word.text?.toList = (Expr.literal id value span).texts)
    (before : List String) :
    Reads (fun front next => token = next ∧ Shown before front next) (literal value)
      fun e => Shown (before ++ e.texts) := by
  refine (reads_advance ?_).bind fun read => reads_freshId.bind fun id => reads_pure ?_
  · intro front next ⟨htoken, _⟩
    exact htoken ▸ hkind
  · rintro front next ⟨front', ⟨rfl, hshown⟩, rfl⟩
    rw [Shown, List.filterMap_append, hshown, ← htext]
    rw [List.filterMap_eq_flatMap_toList, List.flatMap_singleton]

/-- An operand by itself shows its texts. -/
theorem shows_primary {p : Parser Expr} (h : Shows p Expr.texts) :
    Shows (primary p) Expr.texts := by
  refine fun before => reads_peek.bind fun token => ?_
  split
  · next hkind =>
      simp only
      split
      · refine shows_literal (by simp [hkind]) (fun _ _ => ?_) _
        simp [Word.text?, Token.word, hkind]
      · exact reads_fail _
  · next value hkind =>
      refine shows_literal (by simp [hkind]) (fun _ _ => ?_) _
      simp [Word.text?, Token.word, hkind]
  · next hkind =>
      refine shows_literal (by simp [hkind]) (fun _ _ => ?_) _
      simp [Word.text?, Token.word, hkind]
  · refine ((silent_ident before).pre fun _ _ => And.right).bind fun name =>
      (silent_check _).bind fun isCall => ?_
    cases isCall with
    | true =>
        exact (shows_arguments h _).bind fun result => (silent_freshId _).bind fun id =>
          reads_shown (by simp)
    | false => exact (silent_freshId _).bind fun id => reads_shown (by simp)
  · next hkind =>
      refine (silent_advance (by simp [hkind]) (by simp [hkind])).bind fun _ => ?_
      exact (h before).bind fun inner => (silent_mark _).bind fun _ => reads_shown rfl
  · exact reads_fail _
  · exact reads_fail _

/-- A loop that goes on with an expression shows what it puts around it. -/
theorem shows_suffixesUpTo {p : Parser Expr} (h : Shows p Expr.texts) (fuel : Nat) (object : Expr)
    (before : List String) :
    Reads (Shown (before ++ object.texts)) (suffixesUpTo p fuel object)
      fun e => Shown (before ++ e.texts) := by
  induction fuel generalizing object with
  | zero => exact reads_exhausted
  | succ fuel ih =>
      refine (silent_eatMark _).bind fun eaten => ?_
      cases eaten with
      | false => exact reads_shown rfl
      | true =>
          refine (silent_ident _).bind fun name => (silent_check _).bind fun isCall => ?_
          cases isCall with
          | true =>
              refine (shows_arguments h _).bind fun result => (silent_freshId _).bind fun id => ?_
              have hmore := ih (.methodCall id object name result.1 (object.span.merge result.2))
              simpa only [Expr.texts_methodCall, List.append_assoc] using hmore
          | false =>
              refine (silent_freshId _).bind fun id => ?_
              exact ih (.member id object name (object.span.merge name.span))

/-- Operators go on behind the texts of what is on their left. -/
theorem shows_operatorsUpTo {p : Nat → Parser Expr} (h : ∀ power, Shows (p power) Expr.texts)
    (power fuel : Nat) (left : Expr) (before : List String) :
    Reads (Shown (before ++ left.texts)) (operatorsUpTo p power fuel left)
      fun e => Shown (before ++ e.texts) := by
  induction fuel generalizing left with
  | zero => exact reads_exhausted
  | succ fuel ih =>
      have hstop : ∀ token : Token,
          Reads (fun front next => token = next ∧ Shown (before ++ left.texts) front next)
            (pure left) fun e => Shown (before ++ e.texts) := fun _ =>
        reads_pure fun _ _ => And.right
      refine reads_peek.bind fun token => ?_
      split
      · next hequal =>
          split
          · exact hstop token
          · split
            · refine (silent_advance (by rw [hequal]; nofun) (by rw [hequal]; nofun)).bind fun _ =>
                (h _ _).bind fun value => (silent_freshId _).bind fun id => ?_
              have hmore := ih (.assign id left value (left.span.merge value.span))
              simpa only [Expr.texts_assign, List.append_assoc] using hmore
            · exact reads_fail _
      · split
        · exact hstop token
        · next op hop =>
            split
            · exact hstop token
            · refine (silent_advance (by rintro heq; rw [heq] at hop; cases hop)
                (by rintro heq; rw [heq] at hop; cases hop)).bind fun _ =>
                (h _ _).bind fun right => (silent_freshId _).bind fun id => ?_
              have hmore := ih (.binary id op left right (left.span.merge right.span))
              simpa only [Expr.texts_binary, List.append_assoc] using hmore

/-- Expressions of every depth show their texts. -/
theorem shows_exprUpTo (fuel power : Nat) : Shows (exprUpTo fuel power) Expr.texts := by
  induction fuel generalizing power with
  | zero => exact fun _ => reads_exhausted
  | succ fuel ih =>
      refine fun before => (shows_primary (ih 0) before).bind fun head => ?_
      refine (reads_bounded fun n => shows_suffixesUpTo (ih 0) n head before).bind fun operand => ?_
      exact reads_bounded fun n => shows_operatorsUpTo ih power n operand before

/-- **Expressions show their texts.** -/
theorem shows_expr : Shows expr Expr.texts := shows_bounded fun fuel => shows_exprUpTo fuel 0

/-! ## Statements -/

/-- The value of a declaration or of a return, if there is one, shows its texts. -/
theorem shows_optional (present : Bool) :
    Shows (if present then some <$> expr else pure none) Expr.textsOfOption := by
  cases present with
  | true => exact Shows.map (g := some) shows_expr
  | false => exact fun _ => reads_shown (by simp)

/-- A declaration shows the texts of its value. -/
theorem shows_varDecl : Shows varDecl Stmt.texts := by
  refine fun before => (silent_typeExpr _).bind fun ty => (silent_ident _).bind fun name =>
    (silent_eatMark _).bind fun present => ?_
  have hrest : ∀ value : Option Expr, Reads (Shown (before ++ Expr.textsOfOption value))
      (do let stop ← expect (.mark .semicolon)
          return Stmt.varDecl (← freshId) ty name value (ty.span.merge stop.span))
      fun s => Shown (before ++ s.texts) := fun value =>
    (silent_mark _).bind fun stop => (silent_freshId _).bind fun id => reads_shown rfl
  cases present with
  | true => exact (shows_optional true _).bind hrest
  | false => exact (shows_optional false _).bind hrest

/-- An expression as a statement shows its texts. -/
theorem shows_exprStmt : Shows exprStmt Stmt.texts := fun before =>
  (shows_expr before).bind fun _ => (silent_mark _).bind fun _ => reads_shown rfl

/-- A return shows the texts of its value. -/
theorem shows_returnStmt : Shows returnStmt Stmt.texts := by
  refine fun before => (silent_keyword _).bind fun start => (silent_check _).bind fun empty => ?_
  have hrest : ∀ value : Option Expr, Reads (Shown (before ++ Expr.textsOfOption value))
      (do let stop ← expect (.mark .semicolon)
          return Stmt.ret value (start.span.merge stop.span))
      fun s => Shown (before ++ s.texts) := fun value =>
    (silent_mark _).bind fun stop => reads_shown rfl
  cases empty with
  | true => exact (shows_optional false _).bind hrest
  | false => exact (shows_optional true _).bind hrest

/-- A block shows the texts of its statements. -/
theorem shows_blockWith {p : Parser Stmt} (h : Shows p Stmt.texts) :
    Shows (blockWith p) fun b => b.toStmt.texts := by
  refine fun before => (silent_mark _).bind fun start => (silent_freshId _).bind fun id => ?_
  refine ((shows_recovering _ h skips_statement before).post fun _ _ _ => And.right).bind
    fun stmts => (silent_mark _).bind fun stop => reads_shown ?_
  rw [← Stmt.texts_visitsOfAll]
  rfl

/-- A conditional statement shows its condition, then its sides. -/
theorem shows_ifWith {p : Parser Stmt} (h : Shows p Stmt.texts) :
    Shows (ifWith p) Stmt.texts := by
  refine fun before => (silent_keyword _).bind fun start => (silent_mark _).bind fun _ => ?_
  refine (shows_expr _).bind fun condition => (silent_mark _).bind fun _ => ?_
  refine (h _).bind fun positive => (silent_eatKeyword _).bind fun hasElse => ?_
  cases hasElse with
  | true =>
      refine (h _).bind fun negative => reads_shown ?_
      simp [Stmt.texts, Stmt.visits, Expr.texts]
  | false =>
      refine reads_shown ?_
      simp [Stmt.texts, Stmt.visits, Expr.texts]

/-- A statement shows its texts if the statements in it do. -/
theorem shows_stmtWith {p : Parser Stmt} (h : Shows p Stmt.texts) :
    Shows (stmtWith p) Stmt.texts := by
  refine fun before => reads_choice fun s => ?_
  unfold stmtWith
  split
  · exact ⟨_, rfl, shows_ifWith h before⟩
  · exact ⟨_, rfl, shows_returnStmt before⟩
  · exact ⟨_, rfl, (shows_blockWith h).map before⟩
  · split
    · exact ⟨_, rfl, shows_varDecl before⟩
    · exact ⟨_, rfl, shows_exprStmt before⟩

/-- Blocks show their texts. -/
theorem shows_block : Shows block fun b => b.toStmt.texts := by
  refine shows_blockWith (shows_bounded fun fuel => ?_)
  induction fuel with
  | zero => exact fun _ => reads_exhausted
  | succ fuel ih => exact shows_stmtWith ih

/-! ## Declarations -/

/-- A parameter has no text. -/
theorem silent_param : Silent param :=
  silent_typeExpr.bind fun _ => silent_ident.bind fun _ => silent_freshId.bind fun _ =>
    silent_pure _

/-- Parameters have no texts, however many there are. -/
theorem silent_paramsUpTo (isExternal : Bool) (fuel : Nat) :
    Silent (paramsUpTo isExternal fuel) := by
  induction fuel with
  | zero => exact fun _ => reads_exhausted
  | succ fuel ih =>
      refine silent_peek.bind fun token => silent_eatMark.bind fun ellipsis => ?_
      cases ellipsis with
      | true =>
          cases isExternal with
          | true =>
              refine silent_check.bind fun closed => ?_
              cases closed with
              | true => exact silent_pure _
              | false => exact silent_peek.bind fun found _ => reads_fail _
          | false => exact fun _ => reads_fail _
      | false =>
          refine silent_param.bind fun first => silent_eatMark.bind fun comma => ?_
          cases comma with
          | true => exact ih.bind fun rest => silent_pure _
          | false => exact silent_pure _

/-- Parameters have no texts. -/
theorem silent_params (isExternal : Bool) : Silent (params isExternal) := by
  refine silent_mark.bind fun _ => silent_check.bind fun empty => ?_
  cases empty with
  | true => exact silent_mark.bind fun _ => silent_pure _
  | false =>
      exact (silent_bounded fun fuel => silent_paramsUpTo isExternal fuel).bind fun result =>
        silent_mark.bind fun _ => silent_pure _

end Parser

/-- The texts of a function. -/
def FunctionDecl.texts (decl : FunctionDecl) : List String := Visit.texts decl.visits

/-- The texts of a member of a class. -/
def ClassMember.texts : ClassMember → List String
  | .method decl => decl.texts
  | .field _ => []

/-- The texts of an item. -/
def Item.texts (item : Item) : List String := Visit.texts item.visits

/-- The texts of a class are those of its functions. -/
theorem Item.texts_classDecl (decl : ClassDecl) :
    (Item.classDecl decl).texts = decl.members.flatMap ClassMember.texts := by
  simp only [texts, visits, Visit.texts_item, Visit.texts_classDecl, ClassDecl.methods]
  induction decl.members with
  | nil => rfl
  | cons member rest ih =>
      cases member with
      | method decl =>
          simp only [List.filterMap_cons, List.flatMap_cons, Visit.texts_append, ih]
          rfl
      | field decl => exact ih

/-- A struct has no texts. -/
theorem Item.texts_structDecl (decl : StructDecl) : (Item.structDecl decl).texts = [] := rfl

/-- The texts of a function are those of its body. -/
theorem Item.texts_function (decl : FunctionDecl) : (Item.function decl).texts = decl.texts := by
  simp only [texts, visits, Visit.texts_item, FunctionDecl.texts]

/-- The texts of a script are those of its items. -/
theorem Script.texts_items (script : Script) : script.texts = script.items.flatMap Item.texts := by
  unfold texts visits
  induction script.items with
  | nil => rfl
  | cons item rest ih =>
      rw [List.flatMap_cons, Visit.texts_append, ih]
      rfl

namespace Parser

/-- A function shows the texts of its body. -/
theorem shows_functionRest (ty : TypeExpr) (name : Ident) :
    Shows (functionRest ty name) FunctionDecl.texts := by
  refine fun before => (silent_freshId _).bind fun id => (silent_params false _).bind fun _ => ?_
  refine (shows_block _).bind fun body => reads_shown ?_
  simp [Block.toStmt, Stmt.texts, Stmt.visits, FunctionDecl.texts, FunctionDecl.visits]

/-- A function without a body shows no text. -/
theorem shows_externalDecl : Shows externalDecl FunctionDecl.texts := by
  refine fun before => (silent_keyword _).bind fun _ => (silent_typeExpr _).bind fun ty =>
    (silent_ident _).bind fun name => ?_
  refine Reads.bind (Q := fun decl => Shown (before ++ decl.texts)) ?_ fun decl => reads_shown rfl
  refine (silent_freshId _).bind fun id => (silent_params true _).bind fun result => ?_
  refine (silent_mark _).bind fun stop => reads_shown ?_
  simp [FunctionDecl.texts, FunctionDecl.visits]

/-- A field has no text behind its name. -/
theorem silent_fieldRest (ty : TypeExpr) (name : Ident) : Silent (fieldRest ty name) :=
  silent_mark.bind fun _ => silent_freshId.bind fun _ => silent_pure _

/-- A field has no text. -/
theorem silent_fieldDecl : Silent fieldDecl :=
  silent_typeExpr.bind fun ty => silent_ident.bind fun name => silent_fieldRest ty name

/-- A member shows the texts of its body, if it has one. -/
theorem shows_classMember : Shows classMember ClassMember.texts := by
  refine fun before => (silent_typeExpr _).bind fun ty => (silent_ident _).bind fun name =>
    (silent_check _).bind fun isMethod => ?_
  cases isMethod with
  | true => exact Shows.map (g := ClassMember.method) (shows_functionRest ty name) before
  | false => exact Shows.map (g := ClassMember.field) (silent_fieldRest ty name).shows before

/-- A class shows the texts of its members. -/
theorem shows_classDecl : Shows classDecl fun decl => (Item.classDecl decl).texts := by
  refine fun before => (silent_keyword _).bind fun start => (silent_freshId _).bind fun id =>
    (silent_ident _).bind fun name => (silent_eatKeyword _).bind fun extended => ?_
  have hrest : ∀ parent : Option Ident, Reads (Shown before)
      (do let _ ← expect (.mark .leftBrace)
          let members ← recovering closesBraces classMember skipStatement
          let stop ← expect (.mark .rightBrace)
          return (⟨id, name, parent, members, start.span.merge stop.span⟩ : ClassDecl))
      fun decl => Shown (before ++ (Item.classDecl decl).texts) := fun parent =>
    (silent_mark _).bind fun _ =>
      ((shows_recovering _ shows_classMember skips_statement before).post
        fun _ _ _ => And.right).bind fun members => (silent_mark _).bind fun stop =>
          reads_shown (by rw [Item.texts_classDecl])
  cases extended with
  | true => exact Reads.bind ((silent_ident.bind fun _ => silent_pure _) before) hrest
  | false => exact hrest none

/-- A struct shows no text. -/
theorem shows_structDecl : Shows structDecl fun decl => (Item.structDecl decl).texts := by
  have hsilent : Silent structDecl :=
    silent_keyword.bind fun _ => silent_freshId.bind fun _ => silent_ident.bind fun _ =>
      silent_mark.bind fun _ =>
        (silent_bounded (silent_manyUpTo closesBraces silent_fieldDecl)).bind fun _ =>
          silent_mark.bind fun _ => silent_pure _
  exact hsilent.shows

/-- A function outside of classes shows the texts of its body. -/
theorem shows_freeFunction : Shows freeFunction FunctionDecl.texts := by
  refine fun before => (silent_typeExpr _).bind fun ty => (silent_ident _).bind fun name =>
    (silent_check _).bind fun isFunction => ?_
  cases isFunction with
  | true => exact shows_functionRest ty name before
  | false => exact reads_fail _

/-- **Items show their texts.** -/
theorem shows_item : Shows item Item.texts := by
  have hfunction : ∀ {p : Parser FunctionDecl}, Shows p FunctionDecl.texts →
      Shows (Item.function <$> p) Item.texts := by
    intro p h
    refine Shows.map ?_
    simpa only [Item.texts_function] using h
  refine fun before => (silent_peek before).bind fun token => ?_
  split
  · exact Shows.map (g := Item.classDecl) shows_classDecl before
  · exact Shows.map (g := Item.structDecl) shows_structDecl before
  · exact hfunction shows_externalDecl before
  · exact hfunction shows_freeFunction before

/-- **All words of a source that are strings are texts of its items**, in the same
order. -/
theorem shows_items : Reads (Shown []) items fun items front next =>
    next.kind = .eof ∧ front.filterMap Word.text? = items.flatMap Item.texts := by
  refine (shows_recovering _ shows_item skips_item []).post ?_
  rintro values front next ⟨hstop, hshown⟩
  exact ⟨by simpa using hstop, hshown⟩

end Parser

/-- **The literals of a source are met in the order in which they are written.** -/
theorem Script.texts_eq {source : String} {script : Script} (h : parse source = .ok script) :
    script.texts = sourceTexts source := by
  have hsource := reads_of_parse h Parser.shows_items rfl
  rw [texts_items, sourceTexts, hsource]

end ClassLang
