import ClassLang.Proofs.Syntax.Words

/-!
# Writing trees down

The words of a syntax tree, with as few parentheses as the binding powers allow: an operation
stands in parentheses where something binds more tightly than the operation itself does, and a
whole expression statement does if it began like a declaration.  Besides, this file says of which
trees this makes sense (`Printable`), and what is left of a tree without the numbers and the
places of its nodes (`bare`).
-/

namespace ClassLang

/-! ## Words of trees -/

namespace Word

/-- A name. -/
def name (name : String) : Word := ⟨.identifier, name⟩

/-- Words in parentheses, where they are needed. -/
def enclose (needed : Bool) (words : List Word) : List Word :=
  if needed then mark .leftParen :: (words ++ [mark .rightParen]) else words

/-- Lists of words with commas in between. -/
def listed : List (List Word) → List Word
  | [] => []
  | first :: rest => first ++ rest.flatMap fun words => mark .comma :: words

/-- Whether words begin like a declaration with a name, a star and another name. -/
def beginsLikeDecl : List Word → Bool
  | first :: second :: third :: _ =>
    first.kind == .identifier && second.kind == .mark .star && third.kind == .identifier
  | _ => false

end Word

/-- The mark that an operator is written with. -/
def BinaryOp.mark : BinaryOp → Mark
  | .or => .pipePipe
  | .and => .ampAmp
  | .arith .bitOr => .pipe
  | .arith .bitXor => .caret
  | .arith .bitAnd => .amp
  | .compare .eq => .equalEqual
  | .compare .ne => .bangEqual
  | .compare .lt => .less
  | .compare .le => .lessEqual
  | .compare .gt => .greater
  | .compare .ge => .greaterEqual
  | .arith .add => .plus
  | .arith .sub => .minus
  | .arith .mul => .star
  | .arith .div => .slash

/-- The mark of an operator is read back as the operator. -/
theorem BinaryOp.operator?_mark (op : BinaryOp) : op.mark.operator? = some op := by
  rcases op with _ | _ | op | op <;> (try cases op) <;> rfl

/-- The word of a literal. -/
def Literal.word : Literal → Word
  | .int value => ⟨.integer, toString value⟩
  | .bool value => .keyword (.boolean value)
  | .string text => ⟨.string, Quoted.encode text⟩

/-- The words of a type. -/
def TypeExpr.words (ty : TypeExpr) : List Word :=
  (match ty.base with
    | .primitive p => .primitive p
    | .named ident => .name ident.name) :: List.replicate ty.depth (.mark .star)

namespace Expr

/-- Whether an expression is an operation or an assignment. -/
def isOperation : Expr → Bool
  | .binary .. | .assign .. => true
  | _ => false

/-- Whether an expression binds its left side less tightly than is asked for. -/
def looserThan (power : Nat) : Expr → Bool
  | .binary _ op _ _ _ => op.power.1 < power
  | .assign .. => assignPower.1 < power
  | _ => false

mutual

/-- The words of an expression. -/
def words : Expr → List Word
  | .literal _ value _ => [value.word]
  | .name _ ident => [.name ident.name]
  | .binary _ op left right _ =>
    Word.enclose (left.looserThan op.power.1) left.words ++
      .mark op.mark :: Word.enclose (right.looserThan op.power.2) right.words
  | .assign _ target value _ =>
    target.words ++ .mark .equal :: Word.enclose (value.looserThan assignPower.2) value.words
  | .call _ callee args _ =>
    .name callee.name :: .mark .leftParen ::
      (Word.listed (wordsOfAll args) ++ [.mark .rightParen])
  | .methodCall _ receiver callee args _ =>
    Word.enclose receiver.isOperation receiver.words ++
      .mark .dot :: .name callee.name :: .mark .leftParen ::
        (Word.listed (wordsOfAll args) ++ [.mark .rightParen])
  | .member _ object part _ =>
    Word.enclose object.isOperation object.words ++ [.mark .dot, .name part.name]

/-- The words of each of some expressions. -/
def wordsOfAll : List Expr → List (List Word)
  | [] => []
  | e :: rest => e.words :: wordsOfAll rest

end

/-- The words of some expressions are those of each. -/
theorem wordsOfAll_eq_map (es : List Expr) : wordsOfAll es = es.map words := by
  induction es with
  | nil => rfl
  | cons e rest ih => rw [wordsOfAll, ih, List.map_cons]

/-- The words of an expression at a place that asks for a binding power. -/
def wordsAt (power : Nat) (e : Expr) : List Word := Word.enclose (e.looserThan power) e.words

/-- The words of an expression in front of a dot. -/
def tightWords (e : Expr) : List Word := Word.enclose e.isOperation e.words

end Expr

namespace Stmt

mutual

/-- The words of a statement. -/
def words : Stmt → List Word
  | .block _ stmts _ => .mark .leftBrace :: (wordsOfAll stmts ++ [.mark .rightBrace])
  | .varDecl _ ty name none _ => ty.words ++ [.name name.name, .mark .semicolon]
  | .varDecl _ ty name (some value) _ =>
    ty.words ++ .name name.name :: .mark .equal :: (value.words ++ [.mark .semicolon])
  | .ifThen condition positive _ =>
    .keyword .ifWord :: .mark .leftParen :: (condition.words ++ .mark .rightParen :: positive.words)
  | .ifElse condition positive negative _ =>
    .keyword .ifWord :: .mark .leftParen :: (condition.words ++
      .mark .rightParen :: (positive.words ++ .keyword .elseWord :: negative.words))
  | .ret none _ => [.keyword .returnWord, .mark .semicolon]
  | .ret (some value) _ => .keyword .returnWord :: (value.words ++ [.mark .semicolon])
  | .expr e _ => Word.enclose (Word.beginsLikeDecl e.words) e.words ++ [.mark .semicolon]

/-- The words of statements. -/
def wordsOfAll : List Stmt → List Word
  | [] => []
  | s :: rest => s.words ++ wordsOfAll rest

end

/-- Whether an `else` behind a statement would belong to an `if` at its end. -/
def endsOpen : Stmt → Bool
  | .ifThen .. => true
  | .ifElse _ _ negative _ => negative.endsOpen
  | _ => false

end Stmt

/-- The words of a block. -/
def Block.words (block : Block) : List Word := block.toStmt.words

/-- The words of a parameter. -/
def Param.words (param : Param) : List Word := param.ty.words ++ [.name param.name.name]

/-- The words of a field. -/
def FieldDecl.words (field : FieldDecl) : List Word :=
  field.ty.words ++ [.name field.name.name, .mark .semicolon]

/-- The words of parameters, and of dots for further arguments behind them. -/
def Param.allWords (params : List Param) (variadic : Bool) : List (List Word) :=
  params.map Param.words ++ if variadic then [[.mark .ellipsis]] else []

/-- The words of a parameter list. -/
def Param.listWords (params : List Param) (variadic : Bool) : List Word :=
  .mark .leftParen :: (Word.listed (Param.allWords params variadic) ++ [.mark .rightParen])

/-- The words of a function. -/
def FunctionDecl.words (decl : FunctionDecl) : List Word :=
  match decl.body with
  | .block body =>
    decl.returnType.words ++
      .name decl.name.name :: (Param.listWords decl.params false ++ body.words)
  | .external variadic =>
    .keyword .externWord :: (decl.returnType.words ++
      .name decl.name.name :: (Param.listWords decl.params variadic ++ [.mark .semicolon]))

/-- The words of a member of a class. -/
def ClassMember.words : ClassMember → List Word
  | .field f => f.words
  | .method f => f.words

/-- The words of an item. -/
def Item.words : Item → List Word
  | .classDecl decl =>
    .keyword .classWord :: .name decl.name.name ::
      ((match decl.parent with
        | none => []
        | some parent => [.keyword .extendsWord, .name parent.name]) ++
        .mark .leftBrace :: (decl.members.flatMap ClassMember.words ++ [.mark .rightBrace]))
  | .structDecl decl =>
    .keyword .structWord :: .name decl.name.name :: .mark .leftBrace ::
      (decl.fields.flatMap FieldDecl.words ++ [.mark .rightBrace])
  | .function decl => decl.words

/-- The words of a script. -/
def Script.words (script : Script) : List Word := script.items.flatMap Item.words

/-- A script as text: its words, with single spaces in between. -/
def Script.print (script : Script) : String := Word.spaced script.words

/-! ## Trees that can be written down -/

/-- A name is a word that is not reserved. -/
def Ident.Printable (ident : Ident) : Prop :=
  IsName ident.name ∧ Keyword.ofWord? ident.name = none

/-- A type is called by a name. -/
def TypeExpr.Printable (ty : TypeExpr) : Prop :=
  ∀ ident, ty.base = .named ident → ident.Printable

mutual

/-- Names are names, integers can be read, and only places are assigned to. -/
def Expr.Printable : Expr → Prop
  | .literal _ value _ => ∀ n, value = .int n → n ≤ Parser.maxLiteral
  | .name _ ident => ident.Printable
  | .binary _ _ left right _ => left.Printable ∧ right.Printable
  | .assign _ target value _ => target.isPlace = true ∧ target.Printable ∧ value.Printable
  | .call _ callee args _ => callee.Printable ∧ Expr.AllPrintable args
  | .methodCall _ receiver callee args _ =>
    receiver.Printable ∧ callee.Printable ∧ Expr.AllPrintable args
  | .member _ object part _ => object.Printable ∧ part.Printable

/-- The same for each of some expressions. -/
def Expr.AllPrintable : List Expr → Prop
  | [] => True
  | e :: rest => e.Printable ∧ Expr.AllPrintable rest

end

/-- Some expressions are printable if each is. -/
theorem Expr.allPrintable_iff (es : List Expr) :
    Expr.AllPrintable es ↔ ∀ e ∈ es, e.Printable := by
  induction es with
  | nil => simp [AllPrintable]
  | cons e rest ih => simp [AllPrintable, ih]

mutual

/-- Besides, no `else` would be taken for that of another `if`. -/
def Stmt.Printable : Stmt → Prop
  | .block _ stmts _ => Stmt.AllPrintable stmts
  | .varDecl _ ty name value _ =>
    ty.Printable ∧ name.Printable ∧ ∀ e, value = some e → e.Printable
  | .ifThen condition positive _ => condition.Printable ∧ positive.Printable
  | .ifElse condition positive negative _ =>
    condition.Printable ∧ positive.Printable ∧ negative.Printable ∧ positive.endsOpen = false
  | .ret value _ => ∀ e, value = some e → e.Printable
  | .expr e _ => e.Printable

/-- The same for each of some statements. -/
def Stmt.AllPrintable : List Stmt → Prop
  | [] => True
  | s :: rest => s.Printable ∧ Stmt.AllPrintable rest

end

/-- Some statements are printable if each is. -/
theorem Stmt.allPrintable_iff (stmts : List Stmt) :
    Stmt.AllPrintable stmts ↔ ∀ s ∈ stmts, s.Printable := by
  induction stmts with
  | nil => simp [AllPrintable]
  | cons s rest ih => simp [AllPrintable, ih]

/-- The words of some statements stand one behind the other. -/
theorem Stmt.wordsOfAll_eq_flatMap (stmts : List Stmt) :
    Stmt.wordsOfAll stmts = stmts.flatMap Stmt.words := by
  induction stmts with
  | nil => rfl
  | cons s rest ih => rw [wordsOfAll, ih, List.flatMap_cons]

/-- A parameter that can be written down. -/
def Param.Printable (param : Param) : Prop := param.ty.Printable ∧ param.name.Printable

/-- A field that can be written down. -/
def FieldDecl.Printable (field : FieldDecl) : Prop := field.ty.Printable ∧ field.name.Printable

/-- The body of a function can be written down, if it has one. -/
def FunctionDecl.Printable (decl : FunctionDecl) : Prop :=
  decl.returnType.Printable ∧ decl.name.Printable ∧ (∀ param ∈ decl.params, param.Printable) ∧
    match decl.body with
    | .block body => Stmt.AllPrintable body.stmts
    | .external _ => True

/-- A member function has a body. -/
def ClassMember.Printable : ClassMember → Prop
  | .field f => f.Printable
  | .method f => f.Printable ∧ f.body.isExternal = false

/-- An item that can be written down. -/
def Item.Printable : Item → Prop
  | .classDecl decl =>
    decl.name.Printable ∧ (∀ parent, decl.parent = some parent → parent.Printable) ∧
      ∀ member ∈ decl.members, member.Printable
  | .structDecl decl => decl.name.Printable ∧ ∀ field ∈ decl.fields, field.Printable
  | .function decl => decl.Printable

/-- A script that can be written down. -/
def Script.Printable (script : Script) : Prop := ∀ item ∈ script.items, item.Printable

/-! ## Trees without numbers and places -/

/-- A name without its place. -/
def Ident.bare (ident : Ident) : Ident := ⟨ident.name, {}⟩

/-- A type without places. -/
def TypeExpr.bare (ty : TypeExpr) : TypeExpr where
  base := match ty.base with
    | .primitive p => .primitive p
    | .named ident => .named ident.bare
  depth := ty.depth
  span := {}

mutual

/-- An expression without numbers and places. -/
def Expr.bare : Expr → Expr
  | .literal _ value _ => .literal 0 value {}
  | .name _ ident => .name 0 ident.bare
  | .binary _ op left right _ => .binary 0 op left.bare right.bare {}
  | .assign _ target value _ => .assign 0 target.bare value.bare {}
  | .call _ callee args _ => .call 0 callee.bare (Expr.bareAll args) {}
  | .methodCall _ receiver callee args _ =>
    .methodCall 0 receiver.bare callee.bare (Expr.bareAll args) {}
  | .member _ object part _ => .member 0 object.bare part.bare {}

/-- Expressions without numbers and places. -/
def Expr.bareAll : List Expr → List Expr
  | [] => []
  | e :: rest => e.bare :: Expr.bareAll rest

end

/-- Some expressions lose numbers and places one by one. -/
theorem Expr.bareAll_eq_map (es : List Expr) : Expr.bareAll es = es.map Expr.bare := by
  induction es with
  | nil => rfl
  | cons e rest ih => rw [bareAll, ih, List.map_cons]

@[simp] theorem Expr.isPlace_bare (e : Expr) : e.bare.isPlace = e.isPlace := by
  cases e <;> rfl

mutual

/-- A statement without numbers and places. -/
def Stmt.bare : Stmt → Stmt
  | .block _ stmts _ => .block 0 (Stmt.bareAll stmts) {}
  | .varDecl _ ty name value _ => .varDecl 0 ty.bare name.bare (value.map Expr.bare) {}
  | .ifThen condition positive _ => .ifThen condition.bare positive.bare {}
  | .ifElse condition positive negative _ =>
    .ifElse condition.bare positive.bare negative.bare {}
  | .ret value _ => .ret (value.map Expr.bare) {}
  | .expr e _ => .expr e.bare {}

/-- Statements without numbers and places. -/
def Stmt.bareAll : List Stmt → List Stmt
  | [] => []
  | s :: rest => s.bare :: Stmt.bareAll rest

end

/-- Some statements lose numbers and places one by one. -/
theorem Stmt.bareAll_eq_map (stmts : List Stmt) : Stmt.bareAll stmts = stmts.map Stmt.bare := by
  induction stmts with
  | nil => rfl
  | cons s rest ih => rw [bareAll, ih, List.map_cons]

/-- A block without numbers and places. -/
def Block.bare (block : Block) : Block := ⟨0, block.stmts.map Stmt.bare, {}⟩

/-- A parameter without its number and places. -/
def Param.bare (param : Param) : Param := ⟨0, param.ty.bare, param.name.bare, {}⟩

/-- A field without its number and places. -/
def FieldDecl.bare (field : FieldDecl) : FieldDecl := ⟨0, field.ty.bare, field.name.bare, {}⟩

/-- A body without numbers and places. -/
def FunctionBody.bare : FunctionBody → FunctionBody
  | .block body => .block body.bare
  | .external variadic => .external variadic

/-- A function without numbers and places. -/
def FunctionDecl.bare (decl : FunctionDecl) : FunctionDecl :=
  ⟨0, decl.returnType.bare, decl.name.bare, decl.params.map Param.bare, decl.body.bare, {}⟩

/-- A member without numbers and places. -/
def ClassMember.bare : ClassMember → ClassMember
  | .field f => .field f.bare
  | .method f => .method f.bare

/-- An item without numbers and places. -/
def Item.bare : Item → Item
  | .classDecl decl =>
    .classDecl ⟨0, decl.name.bare, decl.parent.map Ident.bare, decl.members.map ClassMember.bare,
      {}⟩
  | .structDecl decl => .structDecl ⟨0, decl.name.bare, decl.fields.map FieldDecl.bare, {}⟩
  | .function decl => .function decl.bare

/-- A script without numbers and places. -/
def Script.bare (script : Script) : Script := ⟨script.items.map Item.bare, {}, 0⟩

/-! ## The words are words -/

/-- The word of a printable name is cut as one token. -/
theorem Ident.Printable.cuts {ident : Ident} (h : ident.Printable) :
    (Word.name ident.name).Cuts := by
  have hkind : Piece.wordKind ident.name = .identifier := by simp [Piece.wordKind, h.2]
  have hcuts := Word.cuts_of_isName h.1
  rwa [hkind] at hcuts

/-- A number is written with digits only. -/
theorem Text.isDigit_of_mem_toString {n : Nat} {c : Char} (h : c ∈ (toString n).toList) :
    c.isDigit = true := by
  have hdigits : c ∈ Nat.toDigits 10 n := by simpa using h
  exact Nat.isDigit_of_mem_toDigits (by decide) (by decide) hdigits

/-- A number that is written down has its value. -/
theorem Text.decimalValue_toString (n : Nat) : decimalValue (toString n).toList = n := by
  have hdigits : (toString n).toList = Nat.toDigits 10 n := by simp
  have hread : Nat.ofDigitChars 10 (Nat.toDigits 10 n) 0 = n :=
    Nat.ofDigitChars_toDigits (by decide) (by decide)
  rw [hdigits]
  exact hread

/-- The word of a literal is cut as one token. -/
theorem Literal.cuts_word (value : Literal) : value.word.Cuts := by
  cases value with
  | int n =>
      have hdigits : (toString n).toList.all Char.isDigit = true :=
        List.all_eq_true.2 fun c hc => Text.isDigit_of_mem_toString hc
      refine Word.cuts_integer (fun hnil => ?_) hdigits
      -- Nothing but digits has the value of the number, and zero has a digit too.
      have hvalue := Text.decimalValue_toString n
      rw [hnil] at hvalue
      subst hvalue
      cases hnil
  | bool b => exact Word.cuts_keyword _
  | string text => exact Word.cuts_string text

section

variable {words : List Word}

/-- All of some words are cut off in one piece. -/
theorem Word.cuts_enclose (needed : Bool) (h : ∀ w ∈ words, w.Cuts) :
    ∀ w ∈ Word.enclose needed words, w.Cuts := by
  unfold enclose
  split
  · simp only [List.mem_cons, List.mem_append, List.not_mem_nil, or_false]
    rintro w (rfl | hw | rfl)
    · exact cuts_mark _
    · exact h w hw
    · exact cuts_mark _
  · exact h

/-- Words with commas in between are cut as tokens where the words are. -/
theorem Word.cuts_listed {lists : List (List Word)} (h : ∀ words ∈ lists, ∀ w ∈ words, w.Cuts) :
    ∀ w ∈ Word.listed lists, w.Cuts := by
  cases lists with
  | nil => simp [listed]
  | cons first rest =>
      intro w hw
      rcases List.mem_append.1 hw with hw | hw
      · exact h first (List.mem_cons_self ..) w hw
      · obtain ⟨words, hwords, hw⟩ := List.mem_flatMap.1 hw
        rcases List.mem_cons.1 hw with rfl | hw
        · exact cuts_mark _
        · exact h words (List.mem_cons_of_mem _ hwords) w hw

end

/-- The words of a printable type are cut as tokens. -/
theorem TypeExpr.Printable.cuts {ty : TypeExpr} (h : ty.Printable) : ∀ w ∈ ty.words, w.Cuts := by
  intro w hw
  rcases List.mem_cons.1 hw with rfl | hw
  · split
    · exact Word.cuts_primitive _
    · next ident hbase => exact (h ident hbase).cuts
  · rw [List.eq_of_mem_replicate hw]
    exact Word.cuts_mark _

mutual

/-- The words of a printable expression are cut as tokens. -/
theorem Expr.Printable.cuts {e : Expr} (h : e.Printable) : ∀ w ∈ e.words, w.Cuts := by
  match e with
  | .literal _ value _ =>
      simpa [Expr.words] using value.cuts_word
  | .name _ ident => simpa [Expr.words] using Ident.Printable.cuts h
  | .binary _ op left right _ =>
      have hleft := Word.cuts_enclose (left.looserThan op.power.1) (Expr.Printable.cuts h.1)
      have hright := Word.cuts_enclose (right.looserThan op.power.2) (Expr.Printable.cuts h.2)
      simp only [Expr.words, List.forall_mem_append, List.forall_mem_cons]
      exact ⟨hleft, Word.cuts_mark _, hright⟩
  | .assign _ target value _ =>
      have hvalue := Word.cuts_enclose (value.looserThan assignPower.2) (Expr.Printable.cuts h.2.2)
      simp only [Expr.words, List.forall_mem_append, List.forall_mem_cons]
      exact ⟨Expr.Printable.cuts h.2.1, Word.cuts_mark _, hvalue⟩
  | .call _ callee args _ =>
      simp only [Expr.words, List.forall_mem_append, List.forall_mem_cons]
      exact ⟨h.1.cuts, Word.cuts_mark _, Word.cuts_listed (Expr.AllPrintable.cuts h.2),
        Word.cuts_mark _, by simp⟩
  | .methodCall _ receiver callee args _ =>
      have hreceiver := Word.cuts_enclose receiver.isOperation (Expr.Printable.cuts h.1)
      simp only [Expr.words, List.forall_mem_append, List.forall_mem_cons]
      exact ⟨hreceiver, Word.cuts_mark _, h.2.1.cuts, Word.cuts_mark _,
        Word.cuts_listed (Expr.AllPrintable.cuts h.2.2), Word.cuts_mark _, by simp⟩
  | .member _ object part _ =>
      have hobject := Word.cuts_enclose object.isOperation (Expr.Printable.cuts h.1)
      simp only [Expr.words, List.forall_mem_append, List.forall_mem_cons]
      exact ⟨hobject, Word.cuts_mark _, h.2.cuts, by simp⟩

/-- The same for lists of expressions. -/
theorem Expr.AllPrintable.cuts {es : List Expr} (h : Expr.AllPrintable es) :
    ∀ words ∈ Expr.wordsOfAll es, ∀ w ∈ words, w.Cuts := by
  match es with
  | [] => simp [Expr.wordsOfAll]
  | e :: rest =>
      simp only [Expr.wordsOfAll, List.forall_mem_cons]
      exact ⟨Expr.Printable.cuts h.1, Expr.AllPrintable.cuts h.2⟩

end

mutual

/-- The words of a printable statement are cut as tokens. -/
theorem Stmt.Printable.cuts {s : Stmt} (h : s.Printable) : ∀ w ∈ s.words, w.Cuts := by
  match s with
  | .block _ stmts _ =>
      simp only [Stmt.words, List.forall_mem_append, List.forall_mem_cons]
      exact ⟨Word.cuts_mark _, Stmt.AllPrintable.cuts h, Word.cuts_mark _, by simp⟩
  | .varDecl _ ty name none _ =>
      simp only [Stmt.words, List.forall_mem_append, List.forall_mem_cons]
      exact ⟨h.1.cuts, h.2.1.cuts, Word.cuts_mark _, by simp⟩
  | .varDecl _ ty name (some value) _ =>
      simp only [Stmt.words, List.forall_mem_append, List.forall_mem_cons]
      exact ⟨h.1.cuts, h.2.1.cuts, Word.cuts_mark _, (h.2.2 value rfl).cuts,
        Word.cuts_mark _, by simp⟩
  | .ifThen condition positive _ =>
      simp only [Stmt.words, List.forall_mem_append, List.forall_mem_cons]
      exact ⟨Word.cuts_keyword _, Word.cuts_mark _, h.1.cuts, Word.cuts_mark _,
        Stmt.Printable.cuts h.2⟩
  | .ifElse condition positive negative _ =>
      simp only [Stmt.words, List.forall_mem_append, List.forall_mem_cons]
      exact ⟨Word.cuts_keyword _, Word.cuts_mark _, h.1.cuts, Word.cuts_mark _,
        Stmt.Printable.cuts h.2.1, Word.cuts_keyword _, Stmt.Printable.cuts h.2.2.1⟩
  | .ret none _ =>
      simp only [Stmt.words, List.forall_mem_cons]
      exact ⟨Word.cuts_keyword _, Word.cuts_mark _, by simp⟩
  | .ret (some value) _ =>
      simp only [Stmt.words, List.forall_mem_append, List.forall_mem_cons]
      exact ⟨Word.cuts_keyword _, (h value rfl).cuts, Word.cuts_mark _, by simp⟩
  | .expr e _ =>
      have hexpr : e.Printable := h
      simp only [Stmt.words, List.forall_mem_append, List.forall_mem_cons]
      exact ⟨Word.cuts_enclose _ hexpr.cuts, Word.cuts_mark _, by simp⟩

/-- The same for lists of statements. -/
theorem Stmt.AllPrintable.cuts {stmts : List Stmt} (h : Stmt.AllPrintable stmts) :
    ∀ w ∈ Stmt.wordsOfAll stmts, w.Cuts := by
  match stmts with
  | [] => simp [Stmt.wordsOfAll]
  | s :: rest =>
      simp only [Stmt.wordsOfAll, List.forall_mem_append]
      exact ⟨Stmt.Printable.cuts h.1, Stmt.AllPrintable.cuts h.2⟩

end

/-- The words of a printable field are cut as tokens. -/
theorem FieldDecl.Printable.cuts {field : FieldDecl} (h : field.Printable) :
    ∀ w ∈ field.words, w.Cuts := by
  simp only [FieldDecl.words, List.forall_mem_append, List.forall_mem_cons]
  exact ⟨h.1.cuts, h.2.cuts, Word.cuts_mark _, by simp⟩

/-- The words of printable parameters are cut as tokens, and so are the dots behind
them. -/
theorem Param.cuts_listWords {params : List Param} (h : ∀ param ∈ params, param.Printable)
    (variadic : Bool) : ∀ w ∈ Param.listWords params variadic, w.Cuts := by
  have hparams : ∀ words ∈ params.map Param.words, ∀ w ∈ words, w.Cuts := by
    rw [List.forall_mem_map]
    intro param hparam
    simp only [Param.words, List.forall_mem_append, List.forall_mem_cons]
    exact ⟨(h param hparam).1.cuts, (h param hparam).2.cuts, by simp⟩
  have hall : ∀ words ∈ Param.allWords params variadic, ∀ w ∈ words, w.Cuts := by
    rw [Param.allWords, List.forall_mem_append]
    refine ⟨hparams, ?_⟩
    cases variadic with
    | false => simp
    | true => simpa using Word.cuts_mark _
  simp only [Param.listWords, List.forall_mem_append, List.forall_mem_cons]
  exact ⟨Word.cuts_mark _, Word.cuts_listed hall, Word.cuts_mark _, by simp⟩

/-- The words of a printable function are cut as tokens. -/
theorem FunctionDecl.Printable.cuts {decl : FunctionDecl} (h : decl.Printable) :
    ∀ w ∈ decl.words, w.Cuts := by
  obtain ⟨hreturn, hname, hparams, hbody⟩ := h
  unfold FunctionDecl.words
  cases hkind : decl.body with
  | block body =>
      have hstmts : body.toStmt.Printable := by
        rw [hkind] at hbody
        exact hbody
      simp only [List.forall_mem_append, List.forall_mem_cons]
      exact ⟨hreturn.cuts, hname.cuts, Param.cuts_listWords hparams _, hstmts.cuts⟩
  | external variadic =>
      simp only [List.forall_mem_append, List.forall_mem_cons]
      exact ⟨Word.cuts_keyword _, hreturn.cuts, hname.cuts, Param.cuts_listWords hparams _,
        Word.cuts_mark _, by simp⟩

/-- The words of a printable member are cut as tokens. -/
theorem ClassMember.Printable.cuts {member : ClassMember} (h : member.Printable) :
    ∀ w ∈ member.words, w.Cuts := by
  cases member with
  | field f => exact FieldDecl.Printable.cuts h
  | method f => exact FunctionDecl.Printable.cuts h.1

/-- The words of a printable item are cut as tokens. -/
theorem Item.Printable.cuts {item : Item} (h : item.Printable) : ∀ w ∈ item.words, w.Cuts := by
  cases item with
  | classDecl decl =>
      obtain ⟨hname, hparent, hmembers⟩ := h
      have hextends : ∀ w ∈ (match decl.parent with
          | none => []
          | some parent => [.keyword .extendsWord, .name parent.name] : List Word), w.Cuts := by
        cases hp : decl.parent with
        | none => simp
        | some parent => simpa using ⟨Word.cuts_keyword _, (hparent parent hp).cuts⟩
      simp only [Item.words, List.forall_mem_append, List.forall_mem_cons, List.forall_mem_flatMap]
      exact ⟨Word.cuts_keyword _, hname.cuts, hextends, Word.cuts_mark _,
        fun member hmember => (hmembers member hmember).cuts, Word.cuts_mark _, by simp⟩
  | structDecl decl =>
      obtain ⟨hname, hfields⟩ := h
      simp only [Item.words, List.forall_mem_append, List.forall_mem_cons, List.forall_mem_flatMap]
      exact ⟨Word.cuts_keyword _, hname.cuts, Word.cuts_mark _,
        fun field hfield => (hfields field hfield).cuts, Word.cuts_mark _, by simp⟩
  | function decl => exact FunctionDecl.Printable.cuts h

/-- The words of a printable script are cut as tokens. -/
theorem Script.Printable.cuts {script : Script} (h : script.Printable) :
    ∀ w ∈ script.words, w.Cuts := by
  intro w hw
  obtain ⟨item, hitem, hw⟩ := List.mem_flatMap.1 hw
  exact (h item hitem).cuts w hw

end ClassLang
